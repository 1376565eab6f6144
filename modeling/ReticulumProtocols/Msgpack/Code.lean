import ReticulumProtocols.Msgpack.Value

/-! The wire codes of `msgpcode`, and the four families of length headers (string, bin,
array, map), which differ only in their codes. -/

namespace ReticulumProtocols.Msgpack
open Wire

inductive DecodeError where
  | eof
  | containerTooLong (length remaining : Nat)
  | bytesTooLong (length remaining : Nat)
  | unknownCode (code : UInt8)
  | invalidLengthCode (code : UInt8)
  | unknownExt (id : UInt8)
  | invalidTimeLength (length : Nat)
  | nestingTooDeep (limit : Nat)
  | mapNestingTooDeep (limit : Nat)
  | mapTooLarge (entries : Nat)
  | keyNotComparable
  | outOfFuel
  deriving DecidableEq, Repr

/-- Where a length is found: inside the code byte, or in a big-endian field after it. -/
inductive Length where
  | fixed (value : Nat)
  | field (width : Nat)
  deriving DecidableEq, Repr

inductive Code where
  | fixedNum
  | nil
  | bool (value : Bool)
  | float
  | double
  | integer (kind : IntKind)
  | str (length : Length)
  | bin (length : Length)
  | array (length : Length)
  | map (length : Length)
  | ext (length : Length)
  | unused
  deriving DecidableEq, Repr

def Code.ofByte (c : UInt8) : Code :=
  if c ≤ 0x7f then .fixedNum
  else if c ≤ 0x8f then .map (.fixed (c &&& 0x0f).toNat)
  else if c ≤ 0x9f then .array (.fixed (c &&& 0x0f).toNat)
  else if c ≤ 0xbf then .str (.fixed (c &&& 0x1f).toNat)
  else if 0xe0 ≤ c then .fixedNum
  else match c with
    | 0xc0 => .nil
    | 0xc2 => .bool false
    | 0xc3 => .bool true
    | 0xc4 => .bin (.field 1)
    | 0xc5 => .bin (.field 2)
    | 0xc6 => .bin (.field 4)
    | 0xc7 => .ext (.field 1)
    | 0xc8 => .ext (.field 2)
    | 0xc9 => .ext (.field 4)
    | 0xca => .float
    | 0xcb => .double
    | 0xcc => .integer .uint8
    | 0xcd => .integer .uint16
    | 0xce => .integer .uint32
    | 0xcf => .integer .uint64
    | 0xd0 => .integer .int8
    | 0xd1 => .integer .int16
    | 0xd2 => .integer .int32
    | 0xd3 => .integer .int64
    | 0xd4 => .ext (.fixed 1)
    | 0xd5 => .ext (.fixed 2)
    | 0xd6 => .ext (.fixed 4)
    | 0xd7 => .ext (.fixed 8)
    | 0xd8 => .ext (.fixed 16)
    | 0xd9 => .str (.field 1)
    | 0xda => .str (.field 2)
    | 0xdb => .str (.field 4)
    | 0xdc => .array (.field 2)
    | 0xdd => .array (.field 4)
    | 0xde => .map (.field 2)
    | 0xdf => .map (.field 4)
    | _ => .unused

/-- `Decoder.readN` with the end-of-input error. -/
def take (count : Nat) (input : Bytes) : Except DecodeError (Bytes × Bytes) :=
  match readN count input with
  | some result => .ok result
  | none => .error .eof

def Length.read : Length → Bytes → Except DecodeError (Nat × Bytes)
  | .fixed value, input => .ok (value, input)
  | .field width, input =>
    match take width input with
    | .ok (bytes, rest) => .ok (beNat bytes, rest)
    | .error error => .error error

@[simp] theorem take_append (taken rest : Bytes) :
    take taken.length (taken ++ rest) = .ok (taken, rest) := by
  simp [take]

theorem take_be (width value : Nat) (rest : Bytes) :
    take width (be width value ++ rest) = .ok (be width value, rest) := by
  simp [take, readN_be]

theorem Length.read_be (width value : Nat) (rest : Bytes) (bound : value < 256 ^ width) :
    (Length.field width).read (be width value ++ rest) = .ok (value, rest) := by
  simp [Length.read, take_be, beNat_be width value bound]

/-- The codes of one family of length headers, with the decoder's reading of each. -/
structure LengthFamily where
  code : Length → Code
  fixedLow : UInt8
  fixedBound : Nat
  code8 : Option UInt8
  code16 : UInt8
  code32 : UInt8
  fixed_read : ∀ n < fixedBound, Code.ofByte (fixedLow ||| UInt8.ofNat n) = code (.fixed n)
  code8_read : ∀ c ∈ code8, Code.ofByte c = code (.field 1)
  code16_read : Code.ofByte code16 = code (.field 2)
  code32_read : Code.ofByte code32 = code (.field 4)

namespace LengthFamily

/-- The shortest header for a length; a length beyond 32 bits is silently truncated. -/
def header (family : LengthFamily) (n : Nat) : Bytes :=
  if n < family.fixedBound then [family.fixedLow ||| UInt8.ofNat n]
  else match family.code8, decide (n < 256) with
    | some c, true => c :: be 1 n
    | _, _ => if n ≤ 0xffff then family.code16 :: be 2 n else family.code32 :: be 4 n

def str : LengthFamily where
  code := .str
  fixedLow := 0xa0
  fixedBound := 32
  code8 := some 0xd9
  code16 := 0xda
  code32 := 0xdb
  fixed_read := by decide
  code8_read := by
    intro c found
    rw [← Option.some.inj found]
    decide
  code16_read := by decide
  code32_read := by decide

def bin : LengthFamily where
  code := .bin
  fixedLow := 0
  fixedBound := 0
  code8 := some 0xc4
  code16 := 0xc5
  code32 := 0xc6
  fixed_read := by decide
  code8_read := by
    intro c found
    rw [← Option.some.inj found]
    decide
  code16_read := by decide
  code32_read := by decide

def array : LengthFamily where
  code := .array
  fixedLow := 0x90
  fixedBound := 16
  code8 := none
  code16 := 0xdc
  code32 := 0xdd
  fixed_read := by decide
  code8_read := fun _ found => nomatch found
  code16_read := by decide
  code32_read := by decide

def map : LengthFamily where
  code := .map
  fixedLow := 0x80
  fixedBound := 16
  code8 := none
  code16 := 0xde
  code32 := 0xdf
  fixed_read := by decide
  code8_read := fun _ found => nomatch found
  code16_read := by decide
  code32_read := by decide

/-- A decoder that reads a header finds the family's code and the length it was written for. -/
theorem header_read (family : LengthFamily) (n : Nat) (bound : n < 2 ^ 32) :
    ∃ c tail length, family.header n = c :: tail ∧ Code.ofByte c = family.code length ∧
      ∀ rest, length.read (tail ++ rest) = .ok (n, rest) := by
  unfold header
  split
  next small => exact ⟨_, _, _, rfl, family.fixed_read n small, fun _ => rfl⟩
  split
  next c found short =>
    exact ⟨_, _, _, rfl, family.code8_read c found,
      fun rest => Length.read_be 1 n rest (by simpa using short)⟩
  split
  next middle =>
    exact ⟨_, _, _, rfl, family.code16_read, fun rest => Length.read_be 2 n rest (by norm_num; omega)⟩
  next =>
    exact ⟨_, _, _, rfl, family.code32_read, fun rest => Length.read_be 4 n rest (by norm_num; omega)⟩

end LengthFamily

end ReticulumProtocols.Msgpack
