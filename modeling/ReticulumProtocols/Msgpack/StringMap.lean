import ReticulumProtocols.Msgpack.Reorder

/-! `msgpack.Unmarshal` into a `map[string]any`. The values go through the decoder of untyped values, and
so do the maps among them: their keys have to be strings too. -/

namespace ReticulumProtocols.Msgpack
open Wire

/-- `mapLen`; nil counts as length -1. -/
def mapLen (c : UInt8) (input : Bytes) : Except DecodeError (Int × Bytes) :=
  match Code.ofByte c with
  | .nil => .ok (-1, input)
  | .map length =>
    match containerLen length 2 input with
    | .ok (count, rest) => .ok (count, rest)
    | .error error => .error error
  | _ => .error (.invalidLengthCode c)

/-- The bytes of an extension header behind its code: the type and the length field. -/
def extHeaderLen : Length → Nat
  | .fixed _ => 1
  | .field width => 1 + width

/-- `DecodeMapLen`, which skips one extension header. -/
def decodeMapLen : Bytes → Except DecodeError (Int × Bytes)
  | [] => .error .eof
  | c :: input =>
    match Code.ofByte c with
    | .ext length =>
      match take (extHeaderLen length) input with
      | .ok (_, c :: rest) => mapLen c rest
      | .ok (_, []) => .error .eof
      | .error error => .error error
    | _ => mapLen c input

def decodeStringKey (input : Bytes) : Except DecodeError (Scalar × Bytes) :=
  (decodeString input).map (Prod.map Scalar.str id)

/-- `msgpack.Unmarshal` into a map with string keys; bytes behind the map are ignored. -/
def unmarshalMap (data : Bytes) : Except DecodeError (List (Scalar × Value)) := do
  let (count, rest) ← decodeMapLen data
  let (entries, _) ←
    decodePairs decodeStringKey (decodeInterfaceCond sliceDecoder (rest.length + 1) 0 0) count.toNat [] rest
  return entries

end ReticulumProtocols.Msgpack
