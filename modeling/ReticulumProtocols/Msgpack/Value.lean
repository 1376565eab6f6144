import ReticulumProtocols.Wire.BigEndian

/-! The Go values that travel through the msgpack codec. Map keys are scalars, because Go
only accepts comparable keys; a nil slice or nil map encodes like nil and is written `nil`. -/

namespace ReticulumProtocols.Msgpack
open Wire List

inductive IntKind where
  | int | int8 | int16 | int32 | int64 | uint | uint8 | uint16 | uint32 | uint64
  deriving DecidableEq, Repr

def IntKind.bits : IntKind → Nat
  | int8 | uint8 => 8
  | int16 | uint16 => 16
  | int32 | uint32 => 32
  | int | int64 | uint | uint64 => 64

def IntKind.signed : IntKind → Bool
  | int | int8 | int16 | int32 | int64 => true
  | uint | uint8 | uint16 | uint32 | uint64 => false

/-- Go's integer conversion: keep the low bits and read them in the target type. -/
def IntKind.wrap (kind : IntKind) (value : Int) : Int :=
  if kind.signed then value.bmod (2 ^ kind.bits) else value % 2 ^ kind.bits

theorem IntKind.wrap_wrap (kind : IntKind) (value : Int) :
    kind.wrap (kind.wrap value) = kind.wrap value := by
  unfold IntKind.wrap
  split
  · exact Int.bmod_bmod
  · exact Int.emod_emod_of_dvd value (dvd_refl _)

/-- Conversion only looks at the value modulo the width. -/
theorem IntKind.wrap_congr (kind : IntKind) {x y : Int} (same : x % 2 ^ kind.bits = y % 2 ^ kind.bits) :
    kind.wrap x = kind.wrap y := by
  unfold IntKind.wrap
  split
  · simp only [Int.bmod_def, Nat.cast_pow, Nat.cast_ofNat, same]
  · exact same

/-- An integer of a Go type, in the range of that type. -/
structure GoInt where
  kind : IntKind
  val : Int
  inRange : kind.wrap val = val
  deriving DecidableEq, Repr

/-- The conversion `kind(value)`. -/
def GoInt.of (kind : IntKind) (value : Int) : GoInt :=
  ⟨kind, kind.wrap value, kind.wrap_wrap value⟩

theorem IntKind.wrap_eq_self (kind : IntKind) (n : Int)
    (low : (if kind.signed then -2 ^ (kind.bits - 1) else 0) ≤ n)
    (high : n < (if kind.signed then 2 ^ (kind.bits - 1) else 2 ^ kind.bits)) : kind.wrap n = n := by
  cases kind <;> simp [IntKind.wrap, IntKind.signed, IntKind.bits, Int.bmod_def] at * <;> omega

theorem GoInt.val_bounds (n : GoInt) :
    (if n.kind.signed then -2 ^ (n.kind.bits - 1) else 0) ≤ n.val ∧
      n.val < (if n.kind.signed then 2 ^ (n.kind.bits - 1) else 2 ^ n.kind.bits) := by
  have range := n.inRange
  cases kind : n.kind <;>
    simp [kind, IntKind.wrap, IntKind.signed, IntKind.bits, Int.bmod_def] at range ⊢ <;> omega

theorem GoInt.val_bounds64 (n : GoInt) : -2 ^ 63 ≤ n.val ∧ n.val < 2 ^ 64 := by
  have bounds := n.val_bounds
  cases kind : n.kind <;> simp [kind, IntKind.signed, IntKind.bits] at bounds ⊢ <;> omega

/-- `time.Time` as its Unix seconds (the bits of an int64) and nanoseconds. -/
structure GoTime where
  unix : UInt64
  nanosecond : Fin 1000000000
  deriving DecidableEq, Repr

inductive Scalar where
  | nil
  | bool (value : Bool)
  | int (value : GoInt)
  | float32 (bits : UInt32)
  | float64 (bits : UInt64)
  | str (text : Bytes)
  | time (value : GoTime)
  deriving DecidableEq, Repr

/-- `map[any]any`, `map[string]any` and `map[byte]any`. -/
inductive MapKind where
  | any | string | byte
  deriving DecidableEq, Repr

inductive Value where
  | scalar (value : Scalar)
  | bytes (data : Bytes)
  | arr (items : List Value)
  | map (kind : MapKind) (entries : List (Scalar × Value))

namespace Value

abbrev nil : Value := .scalar .nil
abbrev bool (value : Bool) : Value := .scalar (.bool value)
abbrev int (value : GoInt) : Value := .scalar (.int value)
abbrev float64 (bits : UInt64) : Value := .scalar (.float64 bits)
abbrev str (text : Bytes) : Value := .scalar (.str text)

theorem sizeOf_entry_lt {entries : List (Scalar × Value)} {entry : Scalar × Value}
    (member : entry ∈ entries) : sizeOf entry.2 < sizeOf entries := by
  have inner := sizeOf_lt_of_mem member
  obtain ⟨key, value⟩ := entry
  simp only [Prod.mk.sizeOf_spec] at inner
  show sizeOf value < sizeOf entries
  omega

/-- Induction with the hypothesis on every element and every map value. -/
@[elab_as_elim, induction_eliminator]
theorem induction {motive : Value → Prop}
    (scalar : ∀ value, motive (.scalar value))
    (bytes : ∀ data, motive (.bytes data))
    (arr : ∀ items, (∀ item ∈ items, motive item) → motive (.arr items))
    (map : ∀ kind entries, (∀ entry ∈ entries, motive entry.2) → motive (.map kind entries)) :
    ∀ value, motive value
  | .scalar value => scalar value
  | .bytes data => bytes data
  | .arr items => arr items fun item member =>
    have : sizeOf item < sizeOf items := sizeOf_lt_of_mem member
    induction scalar bytes arr map item
  | .map kind entries => map kind entries fun entry member =>
    have : sizeOf entry.2 < sizeOf entries := sizeOf_entry_lt member
    induction scalar bytes arr map entry.2
termination_by value => sizeOf value

/-- The values directly below a node: array elements or map values. -/
def children : Value → List Value
  | .scalar _ | .bytes _ => []
  | .arr items => items
  | .map _ entries => entries.map Prod.snd

/-- A property of single nodes holds at every node of a tree. -/
inductive Everywhere (node : Value → Prop) : Value → Prop where
  | intro (value : Value) (here : node value) (below : ∀ child ∈ value.children, Everywhere node child) :
      Everywhere node value

namespace Everywhere
variable {node : Value → Prop} {kind : MapKind} {items : List Value} {entries : List (Scalar × Value)}

theorem here {value : Value} (tree : Everywhere node value) : node value := by
  cases tree
  assumption

theorem elements (tree : Everywhere node (.arr items)) : ∀ item ∈ items, Everywhere node item := by
  cases tree
  assumption

theorem values (tree : Everywhere node (.map kind entries)) : ∀ entry ∈ entries, Everywhere node entry.2 := by
  obtain ⟨_, _, below⟩ := tree
  exact forall_mem_map.mp below

theorem scalar {s : Scalar} (here : node (.scalar s)) : Everywhere node (.scalar s) := .intro _ here nofun

theorem bytes {data : Bytes} (here : node (.bytes data)) : Everywhere node (.bytes data) := .intro _ here nofun

theorem arr (here : node (.arr items)) (below : ∀ item ∈ items, Everywhere node item) : Everywhere node (.arr items) :=
  .intro _ here below

theorem map (here : node (.map kind entries)) (below : ∀ entry ∈ entries, Everywhere node entry.2) :
    Everywhere node (.map kind entries) :=
  .intro _ here (forall_mem_map.mpr below)

end Everywhere

end Value

end ReticulumProtocols.Msgpack
