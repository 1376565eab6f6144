import ReticulumProtocols.Cbor.Value

/-! A decoder with limits on the nesting, on the elements of an array and on the pairs of a map. Items of indefinite
length and the tags that a decoder turns into values of its own are refused. -/

namespace ReticulumProtocols.Cbor
open Wire

inductive DecodeError where
  | unexpectedEOF | extraneousData | invalidHead | indefiniteLength | builtinTag | invalidUtf8 | invalidMapKey
  | unmarshalType | maxNestedLevel | maxArrayElements | maxMapPairs
  deriving DecidableEq, Repr

structure Limits where
  maxNestedLevels : Nat
  maxArrayElements : Nat
  maxMapPairs : Nat

abbrev Reader (α : Type) := Bytes → Except DecodeError (α × Bytes)

structure Head where
  major : MajorType
  info : Nat
  argument : Nat

def take (count : Nat) : Reader Bytes := fun input =>
  match readN count input with
  | some read => .ok read
  | none => .error .unexpectedEOF

/-- A head after its initial byte. -/
def readArgument (major : MajorType) (info : Nat) : Reader Head := fun input =>
  if info < 24 then .ok (⟨major, info, info⟩, input)
  else if info < 28 then do
    let (argument, rest) ← take (2 ^ (info - 24)) input
    return (⟨major, info, beNat argument⟩, rest)
  else .error (if info = 31 ∧ major ∉ [.unsigned, .negative, .tag, .primitive] then .indefiniteLength
    else .invalidHead)

def readHead : Reader Head
  | [] => .error .unexpectedEOF
  | initial :: rest => readArgument (.ofCode (initial.toNat / 32)) (initial.toNat % 32) rest

def readText (count : Nat) : Reader (List Char) := fun input => do
  let (data, rest) ← take count input
  match ofUtf8 data with
  | some chars => .ok (chars, rest)
  | none => .error .invalidUtf8

def binary16 : Float.Model.Format where
  mantissaBitsWithoutImplicit := 10
  exponentBits := 5

/-- A number in half precision, exactly. -/
def ofHalf (bits : Nat) : Float :=
  match Float.Model.UnpackedFloat.unpack binary16 (BitVec.ofNat _ bits) with
  | .finite sign mantissa exponent _ =>
    ⟨Float.Model.pack (Float.Model.UnpackedFloat.round .binary64 sign mantissa exponent)⟩
  | special => ⟨Float.Model.pack special⟩

/-- A head of the last major type; undefined counts as null. -/
def primitive (head : Head) : Except DecodeError Scalar :=
  match head.info with
  | 20 => .ok (.bool false)
  | 21 => .ok (.bool true)
  | 22 | 23 => .ok .null
  | 25 => .ok (.float (ofHalf head.argument))
  | 26 => .ok (.float (Float.ofBits (Float64.widen (UInt32.ofNat head.argument))))
  | 27 => .ok (.float (Float.ofBits (UInt64.ofNat head.argument)))
  | info =>
    let value := UInt8.ofNat head.argument
    if assigned : (value < 20 ∨ 32 ≤ value) ∧ (info = 24 → 32 ≤ value) then .ok (.simple ⟨value, assigned.1⟩)
    else .error .invalidHead

def readMany {α : Type} (element : Reader α) : Nat → Reader (List α)
  | 0, input => .ok ([], input)
  | count + 1, input => do
    let (first, rest) ← element input
    let (others, rest) ← readMany element count rest
    return (first :: others, rest)

def readPair (element : Reader Value) : Reader (Value × Value) := fun input => do
  let (key, rest) ← element input
  let (value, rest) ← element rest
  return ((key, value), rest)

namespace Scalar

/-- Integers beyond 64 bits are no keys. -/
def keyable : Scalar → Bool
  | nint n => n.toNat < 2 ^ 63
  | _ => true

/-- Two keys are the same key; for floats that is IEEE equality. -/
def same : Scalar → Scalar → Bool
  | uint a, uint b => a == b
  | nint a, nint b => a == b
  | bytes a, bytes b => a == b
  | text a, text b => a == b
  | bool a, bool b => a == b
  | null, null => true
  | simple a, simple b => a == b
  | float a, float b => a == b
  | _, _ => false

end Scalar

/-- The key that an item is. -/
def Value.key : Value → Option Scalar
  | .scalar key => if key.keyable then some key else none
  | _ => none

/-- An assignment in a map. -/
def setEntry (entries : List (Scalar × Value)) (entry : Scalar × Value) : List (Scalar × Value) :=
  if entries.any fun other => other.1.same entry.1 then
    entries.map fun other => if other.1.same entry.1 then entry else other
  else entries ++ [entry]

def keyed (pair : Value × Value) : Except DecodeError (Scalar × Value) :=
  match pair.1.key with
  | some key => .ok (key, pair.2)
  | none => .error .invalidMapKey

/-- The tags with a meaning to the decoder: times, large integers and the mark of CBOR itself. -/
def builtinTags : List UInt64 := [0, 1, 2, 3, 55799]

/-- The pairs of a map whose head was read. -/
def readPairs (lim : Limits) (element : Option (Reader Value)) (count : Nat) : Reader (List (Value × Value)) :=
  fun input =>
    match element with
    | none => .error .maxNestedLevel
    | some element =>
      if count > lim.maxMapPairs then .error .maxMapPairs else readMany (readPair element) count input

/-- One item. `element` reads what is a level below, `content` what a tag is about; without them the nesting is at
its limit. -/
def readItem (lim : Limits) (element content : Option (Reader Value)) : Reader Value := fun input => do
  let (head, rest) ← readHead input
  match head.major with
  | .unsigned => return (.uint (UInt64.ofNat head.argument), rest)
  | .negative => return (.scalar (.nint (UInt64.ofNat head.argument)), rest)
  | .byteString =>
    let (data, rest) ← take head.argument rest
    return (.bytes data, rest)
  | .textString =>
    let (chars, rest) ← readText head.argument rest
    return (.text chars, rest)
  | .array =>
    match element with
    | none => .error .maxNestedLevel
    | some element =>
      if head.argument > lim.maxArrayElements then .error .maxArrayElements
      else
        let (items, rest) ← readMany element head.argument rest
        return (.arr items, rest)
  | .map =>
    let (pairs, rest) ← readPairs lim element head.argument rest
    let entries ← pairs.mapM keyed
    return (.map (entries.foldl setEntry []), rest)
  | .tag =>
    if UInt64.ofNat head.argument ∈ builtinTags then .error .builtinTag
    else
      match content with
      | none => .error .maxNestedLevel
      | some content =>
        let (item, rest) ← content rest
        return (.tag (UInt64.ofNat head.argument) item, rest)
  | .primitive =>
    let value ← primitive head
    return (.scalar value, rest)

/-- The readers of an item and of what a tag is about, with a number of levels left. A tag takes a level only
inside another one. -/
def readers (lim : Limits) : Nat → Reader Value × Reader Value
  | 0 =>
    let content := readItem lim none none
    (readItem lim none (some content), content)
  | left + 1 =>
    let below := readers lim left
    let content := readItem lim (some below.1) (some below.2)
    (readItem lim (some below.1) (some content), content)

/-- A pair of a map with unsigned integers as keys; a simple value counts as its number. -/
def uintKeyed (pair : Value × Value) : Except DecodeError (UInt64 × Value) :=
  match pair.1 with
  | .scalar (.uint key) => .ok (key, pair.2)
  | .scalar (.simple key) => .ok (key.1.toUInt64, pair.2)
  | _ => .error .unmarshalType

/-- An input that is a map with unsigned integers as keys, by its pairs. -/
def decodeUintMap (lim : Limits) (input : Bytes) : Except DecodeError (List (UInt64 × Value)) := do
  let (head, rest) ← readHead input
  if head.major = .map then
    let (pairs, rest) ← readPairs lim (if lim.maxNestedLevels = 0 then none
      else some (readers lim (lim.maxNestedLevels - 1)).1) head.argument rest
    if rest = [] then pairs.mapM uintKeyed else .error .extraneousData
  else .error .unmarshalType

end ReticulumProtocols.Cbor
