import ReticulumProtocols.Msgpack.RoundTrip

/-! The decoder as it is driven by hand: integers and booleans of a known type, and `Skip`, which passes over an element
of any type. An element is well-formed if it is one item of the format, in any of the forms that the format has for it. -/

namespace ReticulumProtocols.Msgpack
open Wire List

/-- The int64 that a float stands for, if it is one. -/
def floatInt64 (f : Float) : Option Int :=
  let whole := if f < 0 then f.ceil else f.floor
  let limit := Float.ofScientific 9223372036854775808 false 0
  if f.isNaN || f.isInf || f != whole || f < -limit || limit < f then none else some f.toInt64.toInt

/-- `DecodeInt64`. A code of another type is refused, and so is a float that is no int64. -/
def decodeInt64 : Bytes → Except DecodeError (Int × Bytes)
  | [] => .error .eof
  | c :: input => do
    let float (width : Nat) (read : Nat → Float) : Except DecodeError (Int × Bytes) := do
      let (bytes, rest) ← take width input
      match floatInt64 (read (beNat bytes)) with
      | some n => return (n, rest)
      | none => .error (.unknownCode c)
    match Code.ofByte c with
    | .nil => return (0, input)
    | .fixedNum => return (IntKind.int8.wrap c.toNat, input)
    | .integer kind =>
      let (bytes, rest) ← take (kind.bits / 8) input
      return (IntKind.int64.wrap (kind.wrap (beNat bytes)), rest)
    | .float => float 4 fun bits => Float.ofBits (Float64.widen (UInt32.ofNat bits))
    | .double => float 8 fun bits => Float.ofBits (UInt64.ofNat bits)
    | _ => .error (.unknownCode c)

/-- `DecodeBool`; nil is false. -/
def decodeBool : Bytes → Except DecodeError (Bool × Bytes)
  | [] => .error .eof
  | c :: input =>
    match Code.ofByte c with
    | .nil => .ok (false, input)
    | .bool value => .ok (value, input)
    | _ => .error (.unknownCode c)

/-- The bytes behind a code that determines their number. -/
def Code.payload : Code → Option Nat
  | .fixedNum | .nil | .bool _ => some 0
  | .float => some 4
  | .double => some 8
  | .integer kind => some (kind.bits / 8)
  | _ => none

def skipMany (skip : Bytes → Except DecodeError Bytes) : Nat → Bytes → Except DecodeError Bytes
  | 0, input => .ok input
  | count + 1, input =>
    match skip input with
    | .error error => .error error
    | .ok rest => skipMany skip count rest

/-- `Skip` below a limit on the nesting, with the levels that are left of it. -/
def skip (limit : Nat) : Nat → Bytes → Except DecodeError Bytes
  | 0, _ => .error (.nestingTooDeep limit)
  | _ + 1, [] => .error .eof
  | left + 1, c :: input =>
    match Code.ofByte c with
    | .str length | .bin length => (takeBytes length input).map Prod.snd
    | .array length =>
      match containerLen length 1 input with
      | .error error => .error error
      | .ok (count, rest) => skipMany (skip limit left) count rest
    | .map length =>
      match containerLen length 2 input with
      | .error error => .error error
      | .ok (count, rest) => skipMany (skip limit left) (2 * count) rest
    | .ext length => do
      let (count, rest) ← length.read input
      if length ≠ .fixed count ∧ rest.length < count then .error (.bytesTooLong count rest.length)
      let (_, rest) ← take 1 rest
      let (_, rest) ← take count rest
      return rest
    | code =>
      match code.payload with
      | some count => (take count input).map Prod.snd
      | none => .error (.unknownCode c)

/-! Well-formed elements. -/

/-- The field behind a code holds the length. -/
def Length.Holds (n : Nat) (field : Bytes) : Length → Prop
  | .fixed value => value = n ∧ field = []
  | .field width => field.length = width ∧ beNat field = n

/-- A well-formed element with at most `depth` levels. -/
inductive Element : Nat → Bytes → Prop where
  | plain {depth : Nat} {c : UInt8} {data : Bytes} (code : (Code.ofByte c).payload = some data.length) :
      Element (depth + 1) (c :: data)
  | text {depth : Nat} {c : UInt8} {length : Length} {field data : Bytes}
      (code : Code.ofByte c = .str length ∨ Code.ofByte c = .bin length) (count : length.Holds data.length field) :
      Element (depth + 1) (c :: (field ++ data))
  | ext {depth : Nat} {c type : UInt8} {length : Length} {field data : Bytes} (code : Code.ofByte c = .ext length)
      (count : length.Holds data.length field) : Element (depth + 1) (c :: (field ++ type :: data))
  | array {depth : Nat} {c : UInt8} {length : Length} {field : Bytes} {items : List Bytes}
      (code : Code.ofByte c = .array length) (count : length.Holds items.length field)
      (below : ∀ item ∈ items, Element depth item) : Element (depth + 1) (c :: (field ++ items.flatten))
  | map {depth : Nat} {c : UInt8} {length : Length} {field : Bytes} {pairs : Nat} {items : List Bytes}
      (code : Code.ofByte c = .map length) (count : length.Holds pairs field) (even : items.length = 2 * pairs)
      (below : ∀ item ∈ items, Element depth item) : Element (depth + 1) (c :: (field ++ items.flatten))

theorem Length.Holds.read {length : Length} {n : Nat} {field : Bytes} (holds : length.Holds n field) (rest : Bytes) :
    length.read (field ++ rest) = .ok (n, rest) := by
  cases length with
  | fixed value =>
    obtain ⟨rfl, rfl⟩ := holds
    rfl
  | field width =>
    obtain ⟨rfl, rfl⟩ := holds
    rw [Length.read, take_append]

theorem Element.pos {depth : Nat} {data : Bytes} (element : Element depth data) : 1 ≤ data.length := by
  cases element with
  | _ => exact Nat.succ_pos _

theorem length_le_flatten {items : List Bytes} (some : ∀ item ∈ items, 1 ≤ item.length) :
    items.length ≤ items.flatten.length := by
  induction items with
  | nil => exact Nat.le_refl 0
  | cons item items ih =>
    have first := some item mem_cons_self
    have others := ih fun other member => some other (mem_cons_of_mem item member)
    rw [length_cons, flatten_cons, length_append]
    omega

theorem skipMany_flatten {skip : Bytes → Except DecodeError Bytes} {items : List Bytes}
    (each : ∀ item ∈ items, ∀ rest, skip (item ++ rest) = .ok rest) (rest : Bytes) :
    skipMany skip items.length (items.flatten ++ rest) = .ok rest := by
  induction items with
  | nil => rfl
  | cons item items ih =>
    have first := each item mem_cons_self (items.flatten ++ rest)
    simp only [length_cons, flatten_cons, append_assoc, skipMany, first]
    exact ih fun other member => each other (mem_cons_of_mem item member)

/-- `Skip` passes over a well-formed element whose levels are within the limit. -/
theorem skip_element (limit : Nat) {left : Nat} {data : Bytes} (element : Element left data) (rest : Bytes) :
    skip limit left (data ++ rest) = .ok rest := by
  induction element generalizing rest with
  | @plain depth c data code =>
    have taken : (take data.length (data ++ rest)).map Prod.snd = .ok rest := by
      rw [take_append]
      rfl
    rw [cons_append, skip]
    cases found : Code.ofByte c with
    | str | bin | array | map | ext | unused =>
      rw [found] at code
      contradiction
    | _ =>
      rw [found] at code
      simp only [code]
      exact taken
  | @text depth c length field data code count =>
    have taken := takeBytes_header rest length field data count.read
    rw [cons_append, append_assoc]
    rcases code with code | code
    · simp only [skip, code, taken]
      rfl
    · simp only [skip, code, taken]
      rfl
  | @ext depth c type length field data code count =>
    rw [cons_append, append_assoc, cons_append]
    have enough : ¬(length ≠ .fixed data.length ∧ (type :: (data ++ rest)).length < data.length) := by
      rw [length_cons, length_append]
      omega
    have first : take 1 (type :: (data ++ rest)) = .ok ([type], data ++ rest) := take_append [type] (data ++ rest)
    simp only [skip, code, count.read, bind, Except.bind, if_neg enough, first, take_append]
    rfl
  | @array depth c length field items code count below ih =>
    rw [cons_append, append_assoc]
    have many := length_le_flatten fun item member => (below item member).pos
    have counted := containerLen_header length items.length 1 field (items.flatten ++ rest) count.read (by
      rw [Nat.div_one, length_append]
      omega)
    simp only [skip, code, counted]
    exact skipMany_flatten ih rest
  | @map depth c length field pairs items code count even below ih =>
    rw [cons_append, append_assoc]
    have many := length_le_flatten fun item member => (below item member).pos
    have counted := containerLen_header length pairs 2 field (items.flatten ++ rest) count.read (by
      rw [length_append]
      omega)
    simp only [skip, code, counted, ← even]
    exact skipMany_flatten ih rest

theorem skip_nested (limit left : Nat) (rest : Bytes) (some : rest ≠ []) :
    skip limit left (replicate left 0x91 ++ rest) = .error (.nestingTooDeep limit) := by
  have code : Code.ofByte 0x91 = .array (.fixed 1) := rfl
  induction left with
  | zero => rfl
  | succ left ih =>
    have counted := containerLen_header (.fixed 1) 1 1 [] (replicate left 0x91 ++ rest) (fun _ => rfl) (by
      rw [Nat.div_one, length_append]
      have := length_pos_of_ne_nil some
      omega)
    rw [nil_append] at counted
    simp only [replicate_succ, cons_append, skip, code, counted, skipMany, ih]

theorem element_nested (depth : Nat) : Element (depth + 1) (replicate depth 0x91 ++ [0xc0]) := by
  induction depth with
  | zero => exact .plain rfl
  | succ depth ih =>
    have one := @Element.array (depth + 1) 0x91 (.fixed 1) [] [replicate depth 0x91 ++ [0xc0]] rfl ⟨rfl, rfl⟩
      fun item member => mem_singleton.1 member ▸ ih
    rwa [flatten_singleton] at one

/-! Integers. -/

theorem encodeInt_code (n : Int) : ∃ c tail, encodeInt n = c :: tail ∧
    (Code.ofByte c = .fixedNum ∨ ∃ kind, Code.ofByte c = .integer kind) := by
  unfold encodeInt encodeUint
  split_ifs
  · refine ⟨_, _, rfl, .inl (Code.ofByte_fixedNum _ (.inl ?_))⟩
    rw [UInt8.toNat_ofNat']
    omega
  · exact ⟨_, _, rfl, .inr ⟨.uint8, rfl⟩⟩
  · exact ⟨_, _, rfl, .inr ⟨.uint16, rfl⟩⟩
  · exact ⟨_, _, rfl, .inr ⟨.uint32, rfl⟩⟩
  · exact ⟨_, _, rfl, .inr ⟨.uint64, rfl⟩⟩
  · refine ⟨_, _, rfl, .inl (Code.ofByte_fixedNum _ (.inr ?_))⟩
    rw [UInt8.toNat_ofNat', twosComplement]
    omega
  · exact ⟨_, _, rfl, .inr ⟨.int8, rfl⟩⟩
  · exact ⟨_, _, rfl, .inr ⟨.int16, rfl⟩⟩
  · exact ⟨_, _, rfl, .inr ⟨.int32, rfl⟩⟩
  · exact ⟨_, _, rfl, .inr ⟨.int64, rfl⟩⟩

/-- `DecodeInt64` reads an int64 back, in whatever width it was written. -/
theorem decodeInt64_encodeInt (n : Int) (low : -2 ^ 63 ≤ n) (high : n < 2 ^ 63) (rest : Bytes) :
    decodeInt64 (encodeInt n ++ rest) = .ok (n, rest) := by
  -- The untyped decoder knows the value already; the two agree on the codes of numbers.
  have untyped := decode_encodeInt sliceDecoder 0 false 0 0 rest n low (by omega)
  have same : (intKind n).wrap n = n :=
    viewInt_val true false ⟨.int64, n, IntKind.wrap_eq_self .int64 n low high⟩
  have strict : ∀ (kind : IntKind) (value : Int), (GoInt.of (kind.loosen false) value).val = kind.wrap value :=
    fun _ _ => rfl
  obtain ⟨c, tail, form, code⟩ := encodeInt_code n
  rw [form, cons_append] at untyped ⊢
  rcases code with code | ⟨kind, code⟩
  · simp only [decodeInterface, code, Except.ok.injEq, Prod.mk.injEq, Value.scalar.injEq, Scalar.int.injEq] at untyped
    obtain ⟨number, behind⟩ := untyped
    have value := congrArg GoInt.val number
    rw [strict, strict, IntKind.wrap_wrap, same] at value
    simp only [decodeInt64, code]
    rw [value, behind]
    rfl
  · simp only [decodeInterface, code] at untyped
    simp only [decodeInt64, code]
    cases taken : take (kind.bits / 8) (tail ++ rest) with
    | error error =>
      rw [taken] at untyped
      contradiction
    | ok both =>
      rw [taken] at untyped
      simp only [bind, Except.bind, pure, Except.pure, Except.ok.injEq, Prod.mk.injEq, Value.scalar.injEq,
        Scalar.int.injEq] at untyped ⊢
      obtain ⟨number, behind⟩ := untyped
      have value := congrArg GoInt.val number
      rw [strict, strict, IntKind.wrap_wrap, same] at value
      rw [value]
      exact ⟨IntKind.wrap_eq_self .int64 n low high, behind⟩

end ReticulumProtocols.Msgpack
