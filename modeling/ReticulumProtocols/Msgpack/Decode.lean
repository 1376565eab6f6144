import ReticulumProtocols.Msgpack.Encode
import ReticulumProtocols.Wire.Float64

/-! The decoder of dynamically typed values. Array elements go through `decodeInterfaceCond`,
which honours the loose flag; map keys and values of the bounded hook go through the strict
`DecodeInterface`, whatever the flag says. -/

namespace ReticulumProtocols.Msgpack
open Wire

/-- What decodes a map: `DecodeMap` with string keys, or a hook for untyped maps that bounds
their nesting and their number of entries. -/
inductive MapDecoder where
  | stringKeys
  | bounded (maxDepth maxPairs : Nat)
  deriving DecidableEq, Repr

structure Decoder where
  loose : Bool
  maps : MapDecoder
  maxDepth : Nat := 10000
  deriving DecidableEq, Repr

/-- The type a loosely decoded integer is widened to. -/
def IntKind.loosen (loose : Bool) (kind : IntKind) : IntKind :=
  if loose then (if kind.signed then .int64 else .uint64) else kind

/-- `rejectOversizedContainer` after the length was read. -/
def containerLen (length : Length) (minBytes : Nat) (input : Bytes) :
    Except DecodeError (Nat × Bytes) :=
  match length.read input with
  | .error error => .error error
  | .ok (count, rest) =>
    if count ≤ rest.length / minBytes then .ok (count, rest)
    else .error (.containerTooLong count rest.length)

/-- A length-prefixed byte run, checked by `rejectOversizedBytes` before it is read. -/
def takeBytes (length : Length) (input : Bytes) : Except DecodeError (Bytes × Bytes) :=
  match length.read input with
  | .error error => .error error
  | .ok (count, rest) =>
    if count ≤ rest.length then take count rest else .error (.bytesTooLong count rest.length)

/-- `DecodeString`. -/
def decodeString : Bytes → Except DecodeError (Bytes × Bytes)
  | [] => .error .eof
  | c :: input =>
    match Code.ofByte c with
    | .nil => .ok ([], input)
    | .str length | .bin length => takeBytes length input
    | _ => .error (.invalidLengthCode c)

/-- `DecodeArrayLen`; nil counts as length -1. -/
def decodeArrayLen : Bytes → Except DecodeError (Int × Bytes)
  | [] => .error .eof
  | c :: input =>
    match Code.ofByte c with
    | .nil => .ok (-1, input)
    | .array length =>
      match containerLen length 1 input with
      | .ok (count, rest) => .ok (count, rest)
      | .error error => .error error
    | _ => .error (.invalidLengthCode c)

/-- `time.Unix(sec, nsec)` carries whole seconds out of the nanoseconds. -/
def GoTime.ofUnix (seconds : UInt64) (nanoseconds : Nat) : GoTime :=
  ⟨seconds + UInt64.ofNat (nanoseconds / 1000000000),
    ⟨nanoseconds % 1000000000, Nat.mod_lt _ (by decide)⟩⟩

def decodeTime (bytes : Bytes) : Except DecodeError GoTime :=
  match bytes.length with
  | 4 => .ok (.ofUnix (UInt64.ofNat (beNat bytes)) 0)
  | 8 => .ok (.ofUnix (UInt64.ofNat (beNat bytes % 2 ^ 34)) (beNat bytes / 2 ^ 34))
  | 12 => .ok (.ofUnix (UInt64.ofNat (beNat (bytes.drop 4))) (beNat (bytes.take 4)))
  | length => .error (.invalidTimeLength length)

/-- `decodeInterfaceExt`: only the timestamp extension is registered. -/
def decodeExt (length : Length) (input : Bytes) : Except DecodeError (Value × Bytes) := do
  let (count, rest) ← length.read input
  if length ≠ .fixed count ∧ rest.length < count then .error (.bytesTooLong count rest.length)
  match rest with
  | [] => .error .eof
  | id :: rest =>
    if id ≠ 0xff then .error (.unknownExt id)
    let (bytes, rest) ← take count rest
    let time ← decodeTime bytes
    return (.scalar (.time time), rest)

def decodeMany (decode : Bytes → Except DecodeError (Value × Bytes)) :
    Nat → Bytes → Except DecodeError (List Value × Bytes)
  | 0, input => .ok ([], input)
  | count + 1, input =>
    match decode input with
    | .error error => .error error
    | .ok (item, rest) =>
      match decodeMany decode count rest with
      | .error error => .error error
      | .ok (items, rest) => .ok (item :: items, rest)

/-- The assignment `out[key] = value`. -/
def setEntry : List (Scalar × Value) → Scalar → Value → List (Scalar × Value)
  | [], key, value => [(key, value)]
  | entry :: entries, key, value =>
    if entry.1 = key then (key, value) :: entries else entry :: setEntry entries key value

def decodePairs (decodeKey : Bytes → Except DecodeError (Scalar × Bytes))
    (decodeValue : Bytes → Except DecodeError (Value × Bytes)) :
    Nat → List (Scalar × Value) → Bytes → Except DecodeError (List (Scalar × Value) × Bytes)
  | 0, out, input => .ok (out, input)
  | count + 1, out, input =>
    match decodeKey input with
    | .error error => .error error
    | .ok (key, rest) =>
      match decodeValue rest with
      | .error error => .error error
      | .ok (value, rest) => decodePairs decodeKey decodeValue count (setEntry out key value) rest

/-- A decoded key is only usable when its type is comparable. -/
def comparableKey : Except DecodeError (Value × Bytes) → Except DecodeError (Scalar × Bytes)
  | .error error => .error error
  | .ok (.scalar key, rest) => .ok (key, rest)
  | .ok (_, _) => .error .keyNotComparable

/-- `DecodeInterface` and, with `loose`, `DecodeInterfaceLoose`. `depth` counts the enclosing
arrays and `mapDepth` the enclosing maps of the bounded hook; every nested call consumes a byte
first, so the input's length bounds the fuel it needs. -/
def decodeInterface (decoder : Decoder) :
    Nat → Bool → Nat → Nat → Bytes → Except DecodeError (Value × Bytes)
  | 0, _, _, _, _ => .error .outOfFuel
  | _ + 1, _, _, _, [] => .error .eof
  | fuel + 1, loose, depth, mapDepth, c :: input =>
    let decodeInterfaceCond := fun input =>
      if decoder.maxDepth < depth + 1 then .error (.nestingTooDeep decoder.maxDepth)
      else decodeInterface decoder fuel decoder.loose (depth + 1) mapDepth input
    match Code.ofByte c with
    | .fixedNum => .ok (.int (.of (IntKind.int8.loosen loose) (IntKind.int8.wrap c.toNat)), input)
    | .nil => .ok (.nil, input)
    | .bool value => .ok (.bool value, input)
    | .float => do
      let (bytes, rest) ← take 4 input
      let bits := UInt32.ofNat (beNat bytes)
      return (.scalar (if loose then .float64 (Float64.widen bits) else .float32 bits), rest)
    | .double => do
      let (bytes, rest) ← take 8 input
      return (.float64 (UInt64.ofNat (beNat bytes)), rest)
    | .integer kind => do
      let (bytes, rest) ← take (kind.bits / 8) input
      return (.int (.of (kind.loosen loose) (kind.wrap (beNat bytes))), rest)
    | .str length => do
      let (text, rest) ← takeBytes length input
      return (.str text, rest)
    | .bin length => do
      let (data, rest) ← takeBytes length input
      return (if loose then .str data else .bytes data, rest)
    | .array length => do
      let (count, rest) ← containerLen length 1 input
      let (items, rest) ← decodeMany decodeInterfaceCond count rest
      return (.arr items, rest)
    | .map length =>
      match decoder.maps with
      | .bounded maxDepth maxPairs => do
        if maxDepth ≤ mapDepth then .error (.mapNestingTooDeep maxDepth)
        let (count, rest) ← containerLen length 2 input
        if maxPairs < count then .error (.mapTooLarge count)
        let strict := decodeInterface decoder fuel false depth (mapDepth + 1)
        let (entries, rest) ←
          decodePairs (fun input => comparableKey (strict input)) strict count [] rest
        return (.map .any entries, rest)
      | .stringKeys => do
        let (count, rest) ← containerLen length 2 input
        let decodeKey := fun input => do
          let (text, rest) ← decodeString input
          return (Scalar.str text, rest)
        let (entries, rest) ← decodePairs decodeKey decodeInterfaceCond count [] rest
        return (.map .string entries, rest)
    | .ext length => decodeExt length input
    | .unused => .error (.unknownCode c)

def sliceDecoder : Decoder := { loose := false, maps := .stringKeys }

/-- `msgpack.Unmarshal` into a slice of untyped values; bytes behind the array are ignored. -/
def unmarshalSlice (data : Bytes) : Except DecodeError (List Value) := do
  let (count, rest) ← decodeArrayLen data
  let (items, _) ← decodeMany (decodeInterface sliceDecoder (rest.length + 1) false 3 0) count.toNat rest
  return items

end ReticulumProtocols.Msgpack
