import ReticulumProtocols.Msgpack.Code

/-! The encoder. `compact` is the `UseCompactInts` flag: without it every sized integer keeps
the width of its Go type, while `int` and `uint` always take the shortest form. -/

namespace ReticulumProtocols.Msgpack
open Wire List

/-- `EncodeUint`. -/
def encodeUint (n : Nat) : Bytes :=
  if n ≤ 0x7f then [UInt8.ofNat n]
  else if n ≤ 0xff then 0xcc :: be 1 n
  else if n ≤ 0xffff then 0xcd :: be 2 n
  else if n ≤ 0xffffffff then 0xce :: be 4 n
  else 0xcf :: be 8 n

/-- The two's complement bits of an integer in 64 bits. -/
def twosComplement (n : Int) : Nat := (n % 2 ^ 64).toNat

/-- `EncodeInt`. -/
def encodeInt (n : Int) : Bytes :=
  if 0 ≤ n then encodeUint n.toNat
  else if -32 ≤ n then [UInt8.ofNat (twosComplement n)]
  else if -128 ≤ n then 0xd0 :: be 1 (twosComplement n)
  else if -32768 ≤ n then 0xd1 :: be 2 (twosComplement n)
  else if -2147483648 ≤ n then 0xd2 :: be 4 (twosComplement n)
  else 0xd3 :: be 8 (twosComplement n)

/-- The code that keeps an integer's own width on the wire. -/
def IntKind.code : IntKind → UInt8
  | uint8 => 0xcc
  | uint16 => 0xcd
  | uint32 => 0xce
  | uint | uint64 => 0xcf
  | int8 => 0xd0
  | int16 => 0xd1
  | int32 => 0xd2
  | int | int64 => 0xd3

/-- `int` and `uint` ignore the flag; the sized types go through their `Cond` encoders. -/
def IntKind.shortest (compact : Bool) (kind : IntKind) : Bool :=
  compact || kind == .int || kind == .uint

def encodeGoInt (compact : Bool) (n : GoInt) : Bytes :=
  if n.kind.shortest compact then
    if n.kind.signed then encodeInt n.val else encodeUint n.val.toNat
  else n.kind.code :: be (n.kind.bits / 8) (twosComplement n.val)

/-- `EncodeTime`: the 4, 8 or 12 byte form of the timestamp extension (id -1). -/
def encodeTime (t : GoTime) : Bytes :=
  if t.unix.toNat < 2 ^ 34 then
    let data := t.nanosecond.val * 2 ^ 34 + t.unix.toNat
    if data < 2 ^ 32 then 0xd6 :: 0xff :: be 4 data else 0xd7 :: 0xff :: be 8 data
  else 0xc7 :: 12 :: 0xff :: (be 4 t.nanosecond.val ++ be 8 t.unix.toNat)

def encodeScalar (compact : Bool) : Scalar → Bytes
  | .nil => [0xc0]
  | .bool false => [0xc2]
  | .bool true => [0xc3]
  | .int n => encodeGoInt compact n
  | .float32 bits => 0xca :: be 4 bits.toNat
  | .float64 bits => 0xcb :: be 8 bits.toNat
  | .str text => LengthFamily.str.header text.length ++ text
  | .time t => encodeTime t

mutual

/-- A map is written in the order of its entry list: the iteration order Go picked. -/
def encode (compact : Bool) : Value → Bytes
  | .scalar s => encodeScalar compact s
  | .bytes data => LengthFamily.bin.header data.length ++ data
  | .arr items => LengthFamily.array.header items.length ++ encodeItems compact items
  | .map _ entries => LengthFamily.map.header entries.length ++ encodeEntries compact entries

def encodeItems (compact : Bool) : List Value → Bytes
  | [] => []
  | item :: items => encode compact item ++ encodeItems compact items

def encodeEntries (compact : Bool) : List (Scalar × Value) → Bytes
  | [] => []
  | (key, value) :: entries =>
    encodeScalar compact key ++ (encode compact value ++ encodeEntries compact entries)

end

def encodeEntry (compact : Bool) (entry : Scalar × Value) : Bytes :=
  encodeScalar compact entry.1 ++ encode compact entry.2

theorem encodeItems_eq_flatMap (compact : Bool) (items : List Value) :
    encodeItems compact items = items.flatMap (encode compact) := by
  induction items with
  | nil => simp [encodeItems]
  | cons item items ih => simp [encodeItems, ih]

theorem encodeEntries_eq_flatMap (compact : Bool) (entries : List (Scalar × Value)) :
    encodeEntries compact entries = entries.flatMap (encodeEntry compact) := by
  induction entries with
  | nil => simp [encodeEntries]
  | cons entry entries ih =>
    obtain ⟨key, value⟩ := entry
    simp [encodeEntries, encodeEntry, ih]

/-! Every encoding is at least one byte long; the decoder's length guards count on it. -/

theorem encodeUint_pos (n : Nat) : 0 < (encodeUint n).length := by
  unfold encodeUint
  split_ifs <;> simp

theorem encodeInt_pos (n : Int) : 0 < (encodeInt n).length := by
  unfold encodeInt
  split_ifs
  · exact encodeUint_pos _
  all_goals simp

theorem LengthFamily.header_pos (family : LengthFamily) (n : Nat) : 0 < (family.header n).length := by
  unfold LengthFamily.header
  split
  · simp
  split
  · simp
  · split <;> simp

theorem encodeScalar_pos (compact : Bool) (s : Scalar) : 0 < (encodeScalar compact s).length := by
  cases s with
  | nil => simp [encodeScalar]
  | bool value => cases value <;> simp [encodeScalar]
  | int n =>
    simp only [encodeScalar, encodeGoInt]
    split_ifs
    · exact encodeInt_pos _
    · exact encodeUint_pos _
    · simp
  | float32 bits => simp [encodeScalar]
  | float64 bits => simp [encodeScalar]
  | str text =>
    have header := LengthFamily.header_pos .str text.length
    simp only [encodeScalar, length_append]
    omega
  | time t =>
    simp only [encodeScalar, encodeTime]
    split_ifs <;> simp

theorem encode_pos (compact : Bool) (value : Value) : 0 < (encode compact value).length := by
  cases value with
  | scalar s =>
    rw [encode]
    exact encodeScalar_pos compact s
  | bytes data =>
    have header := LengthFamily.header_pos .bin data.length
    simp only [encode, length_append]
    omega
  | arr items =>
    have header := LengthFamily.header_pos .array items.length
    simp only [encode, length_append]
    omega
  | map kind entries =>
    have header := LengthFamily.header_pos .map entries.length
    simp only [encode, length_append]
    omega

theorem length_le_encodeItems (compact : Bool) (items : List Value) :
    items.length ≤ (encodeItems compact items).length := by
  induction items with
  | nil => simp
  | cons item items ih =>
    have first := encode_pos compact item
    simp only [encodeItems, length_cons, length_append]
    omega

theorem length_le_encodeEntries (compact : Bool) (entries : List (Scalar × Value)) :
    2 * entries.length ≤ (encodeEntries compact entries).length := by
  induction entries with
  | nil => simp
  | cons entry entries ih =>
    obtain ⟨key, value⟩ := entry
    have keyPos := encodeScalar_pos compact key
    have valuePos := encode_pos compact value
    simp only [encodeEntries, length_cons, length_append]
    omega

end ReticulumProtocols.Msgpack
