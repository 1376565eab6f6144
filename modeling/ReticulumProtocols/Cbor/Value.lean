import ReticulumProtocols.Wire.BigEndian
import ReticulumProtocols.Wire.Float64

/-! CBOR data items and their encoding. Texts are lists of characters, so that every text has a UTF-8 form, and a
number that is no number has no payload. -/

namespace ReticulumProtocols.Cbor
open Wire List

def utf8 (text : List Char) : Bytes := text.flatMap String.utf8EncodeChar

def ofUtf8 (data : Bytes) : Option (List Char) := data.toByteArray.utf8Decode?.map Array.toList

theorem ofUtf8_utf8 (text : List Char) : ofUtf8 (utf8 text) = some text := by
  have encoded : (utf8 text).toByteArray = text.utf8Encode := rfl
  rw [ofUtf8, encoded, List.utf8Decode?_utf8Encode]
  rfl

theorem utf8_length (text : List Char) : (utf8 text).length = (text.map Char.utf8Size).sum := by
  induction text with
  | nil => rfl
  | cons c text ih =>
    rw [utf8, flatMap_cons, length_append, String.length_utf8EncodeChar, map_cons, sum_cons]
    exact congrArg _ ih

inductive MajorType where
  | unsigned | negative | byteString | textString | array | map | tag | primitive
  deriving DecidableEq, Repr

namespace MajorType

def code : MajorType → Nat
  | unsigned => 0
  | negative => 1
  | byteString => 2
  | textString => 3
  | array => 4
  | map => 5
  | tag => 6
  | primitive => 7

def ofCode : Nat → MajorType
  | 0 => unsigned
  | 1 => negative
  | 2 => byteString
  | 3 => textString
  | 4 => array
  | 5 => map
  | 6 => tag
  | _ => primitive

@[simp] theorem ofCode_code (major : MajorType) : ofCode major.code = major := by
  cases major <;> rfl

theorem code_lt (major : MajorType) : major.code < 8 := by
  cases major <;> decide

end MajorType

/-- The simple values other than the booleans, null and undefined; 24 to 31 are not assigned. -/
abbrev SimpleValue := { n : UInt8 // n < 20 ∨ 32 ≤ n }

inductive Scalar where
  | uint (n : UInt64)
  /-- The integer `-1 - n`. -/
  | nint (n : UInt64)
  | bytes (data : Bytes)
  | text (chars : List Char)
  | bool (value : Bool)
  | null
  | simple (value : SimpleValue)
  | float (value : Float)

inductive Value where
  | scalar (value : Scalar)
  | arr (items : List Value)
  | map (entries : List (Scalar × Value))
  | tag (number : UInt64) (content : Value)

namespace Value

abbrev uint (n : UInt64) : Value := .scalar (.uint n)
abbrev bytes (data : Bytes) : Value := .scalar (.bytes data)
abbrev text (chars : List Char) : Value := .scalar (.text chars)
abbrev bool (value : Bool) : Value := .scalar (.bool value)
abbrev null : Value := .scalar .null

end Value

/-- The initial byte and the argument, in the fewest bytes. -/
def encodeHead (major : MajorType) (n : Nat) : Bytes :=
  if n < 24 then [UInt8.ofNat (major.code * 32 + n)]
  else if n < 2 ^ 8 then UInt8.ofNat (major.code * 32 + 24) :: be 1 n
  else if n < 2 ^ 16 then UInt8.ofNat (major.code * 32 + 25) :: be 2 n
  else if n < 2 ^ 32 then UInt8.ofNat (major.code * 32 + 26) :: be 4 n
  else UInt8.ofNat (major.code * 32 + 27) :: be 8 n

def headSize (n : Nat) : Nat :=
  if n < 24 then 1 else if n < 2 ^ 8 then 2 else if n < 2 ^ 16 then 3 else if n < 2 ^ 32 then 5 else 9

@[simp] theorem encodeHead_length (major : MajorType) (n : Nat) : (encodeHead major n).length = headSize n := by
  unfold encodeHead headSize
  split_ifs <;> simp

theorem headSize_pos (n : Nat) : 0 < headSize n := by
  unfold headSize
  split_ifs <;> decide

/-- Numbers that are not finite are written in half precision. -/
def encodeFloat (x : Float) : Bytes :=
  if x.toBits = 0x7ff8000000000000 then [0xf9, 0x7e, 0x00]
  else if x.toBits = 0x7ff0000000000000 then [0xf9, 0x7c, 0x00]
  else if x.toBits = 0xfff0000000000000 then [0xf9, 0xfc, 0x00]
  else 0xfb :: be 8 x.toBits.toNat

def encodeScalar : Scalar → Bytes
  | .uint n => encodeHead .unsigned n.toNat
  | .nint n => encodeHead .negative n.toNat
  | .bytes data => encodeHead .byteString data.length ++ data
  | .text chars => encodeHead .textString (utf8 chars).length ++ utf8 chars
  | .bool value => [if value then 0xf5 else 0xf4]
  | .null => [0xf6]
  | .simple value => encodeHead .primitive value.1.toNat
  | .float x => encodeFloat x

mutual

/-- A map is written in the order of its entries. -/
def encode : Value → Bytes
  | .scalar value => encodeScalar value
  | .arr items => encodeHead .array items.length ++ encodeItems items
  | .map entries => encodeHead .map entries.length ++ encodeEntries entries
  | .tag number content => encodeHead .tag number.toNat ++ encode content

def encodeItems : List Value → Bytes
  | [] => []
  | item :: items => encode item ++ encodeItems items

def encodeEntries : List (Scalar × Value) → Bytes
  | [] => []
  | (key, value) :: entries => encodeScalar key ++ (encode value ++ encodeEntries entries)

end

theorem encodeItems_length (items : List Value) :
    (encodeItems items).length = (items.map fun item => (encode item).length).sum := by
  induction items with
  | nil => simp [encodeItems]
  | cons item items ih => simp [encodeItems, ih]

theorem encodeEntries_length (entries : List (Scalar × Value)) : (encodeEntries entries).length =
    (entries.map fun entry => (encodeScalar entry.1).length + (encode entry.2).length).sum := by
  induction entries with
  | nil => simp [encodeEntries]
  | cons entry entries ih =>
    simp only [encodeEntries, length_append, ih, map_cons, sum_cons]
    omega

end ReticulumProtocols.Cbor
