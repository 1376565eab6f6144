import ReticulumProtocols.Lxmf.Message

/-! `Unpack`: splitting a payload, normalising its fields, and checking the signature against the
bytes as they came over the wire. -/

namespace ReticulumProtocols.Lxmf
open Wire Msgpack Sha256

inductive FieldError where
  | keyOutOfRange (value : Int)
  | keyType
  | keyNotByte (text : Bytes)
  | emptyHex
  | invalidHexDigit
  | expectedMap
  | expectedBytes
  deriving DecidableEq, Repr

inductive PayloadError where
  | decode (error : DecodeError)
  | tooFewElements (count : Int)
  | arrayTooLong (count : Int)
  | trailingBytes
  | unexpectedLength (count : Int)
  deriving DecidableEq, Repr

inductive UnpackError where
  | tooShort
  | destinationHashLength
  | invalidPayload (error : PayloadError)
  | timestampType
  | title (error : FieldError)
  | content (error : FieldError)
  | fields (error : FieldError)
  | stamp (error : FieldError)
  | resolveSource
  | signatureInvalid
  deriving DecidableEq, Repr

def hexDigit (c : UInt8) : Option UInt8 :=
  if 0x30 ≤ c ∧ c ≤ 0x39 then some (c - 0x30)
  else if 0x61 ≤ c ∧ c ≤ 0x66 then some (c - 0x61 + 10)
  else if 0x41 ≤ c ∧ c ≤ 0x46 then some (c - 0x41 + 10)
  else none

/-- The accumulator of `parseHexByte` is a byte, so longer digit strings wrap around. -/
def parseHexByte (digits : Bytes) : Except FieldError UInt8 :=
  if digits = [] then .error .emptyHex
  else digits.foldlM (fun n c =>
    match hexDigit c with
    | some d => .ok ((n <<< 4) ||| d)
    | none => .error .invalidHexDigit) 0

def fieldKeyFromString (text : Bytes) : Except FieldError UInt8 :=
  match text with
  | [byte] => .ok byte
  | 0x30 :: 0x78 :: first :: digits => parseHexByte (first :: digits)
  | 0x30 :: 0x58 :: first :: digits => parseHexByte (first :: digits)
  | _ => .error (.keyNotByte text)

/-- `asByteKey`: the sized integer types within a byte, and strings. Go's `int` and `uint`, which
no decoder produces, are not among its cases. -/
def asByteKey : Scalar → Except FieldError UInt8
  | .int n =>
    if n.kind = .int ∨ n.kind = .uint then .error .keyType
    else if n.val < 0 ∨ 0xff < n.val then .error (.keyOutOfRange n.val)
    else .ok (UInt8.ofNat n.val.toNat)
  | .str text => fieldKeyFromString text
  | _ => .error .keyType

/-- The key conversion for the Go map type at hand; a `map[byte]any` keeps its keys. -/
def normalizeKey : MapKind → Scalar → Except FieldError UInt8
  | .byte, .int n => .ok (UInt8.ofNat n.val.toNat)
  | _, key => asByteKey key

mutual

/-- `normalizeFieldValue`, with `asFields` for the maps: the result of a map is a `map[byte]any`. -/
def normalizeFieldValue : Value → Except FieldError Value
  | .map kind entries => do
    let out ← normalizeEntries kind entries
    return .map .byte (collect out)
  | .arr items => do
    let out ← normalizeItems items
    return .arr out
  | .scalar s => .ok (.scalar s)
  | .bytes data => .ok (.bytes data)

def normalizeItems : List Value → Except FieldError (List Value)
  | [] => .ok []
  | item :: items => do
    let first ← normalizeFieldValue item
    let others ← normalizeItems items
    return first :: others

def normalizeEntries (kind : MapKind) : List (Scalar × Value) → Except FieldError (List (Scalar × Value))
  | [] => .ok []
  | (key, value) :: entries => do
    let key ← normalizeKey kind key
    let value ← normalizeFieldValue value
    let others ← normalizeEntries kind entries
    return (byteKey key, value) :: others

end

/-- The entries of a normalised map as the Go map they denote. -/
def toFields (entries : List (Scalar × Value)) : Fields :=
  entries.foldl (fun fields entry =>
    match entry.1 with
    | .int n => fields.insert (UInt8.ofNat n.val.toNat) entry.2
    | _ => fields) ∅

def asFields : Value → Except FieldError Fields
  | .scalar .nil => .ok ∅
  | .map .byte _ => .error .expectedMap
  | .map kind entries => do
    let out ← normalizeEntries kind entries
    return toFields out
  | _ => .error .expectedMap

def asBytes : Value → Except FieldError (Option Bytes)
  | .scalar .nil => .ok none
  | .bytes data => .ok (cloneBytes data)
  | .scalar (.str text) => .ok (some text)
  | _ => .error .expectedBytes

/-- The timestamp as float64 bits, from any numeric type a decoder produces. -/
def asTimestamp : Value → Option UInt64
  | .scalar (.float64 bits) => some bits
  | .scalar (.float32 bits) => some (Float64.widen bits)
  | .scalar (.int n) => if n.kind = .int ∨ n.kind = .uint then none else some (Float64.ofInt n.val).toBits
  | _ => none

/-- The decoder of `decodePayloadAndSplit`: loose array elements and the bounded map hook. -/
def payloadDecoder : Decoder := { loose := true, maps := .bounded 16 1024 }

/-- `decodePayloadAndSplit`: the elements, and the bytes the message hash covers. A fifth element
is cut out of those bytes, and the header rewritten to four elements. -/
def decodePayloadAndSplit (data : Bytes) : Except PayloadError (List Value × Bytes) := do
  let decode := decodeInterface payloadDecoder (data.length + 1) false 0 0
  let (arrLen, afterHeader) ← (decodeArrayLen data).mapError .decode
  if arrLen < 4 then .error (.tooFewElements arrLen)
  if 15 < arrLen then .error (.arrayTooLong arrLen)
  let (four, afterFourth) ← (decodeMany decode 4 afterHeader).mapError .decode
  let hashed :=
    if arrLen = 4 then data else 0x94 :: afterHeader.take (afterHeader.length - afterFourth.length)
  let (others, rest) ← (decodeMany decode (arrLen.toNat - 4) afterFourth).mapError .decode
  if rest ≠ [] then .error .trailingBytes
  if arrLen ≠ 4 ∧ arrLen ≠ 5 then .error (.unexpectedLength arrLen)
  return (four ++ others, hashed)

/-- `applyPayload`; `order` is the order in which `asFields` visits the decoded maps. -/
def LXMessage.applyPayload (m : LXMessage) (order : MapOrder) : List Value → Except UnpackError LXMessage
  | timestamp :: title :: content :: fields :: more => do
    let some timestamp := asTimestamp timestamp | .error .timestampType
    let title ← (asBytes title).mapError .title
    let content ← (asBytes content).mapError .content
    let fields ← (asFields (order.run fields)).mapError .fields
    let m := { m with timestamp, title, content, fields := some fields }
    match more with
    | [] => return m
    | stamp :: _ =>
      let stamp ← (asBytes stamp).mapError .stamp
      return { m with stamp := stamp.getD [] }
  | payload => .error (.invalidPayload (.tooFewElements payload.length))

/-- `SourceResolver`: an error, no identity, or the identity of the source. -/
abbrev SourceResolver := Bytes → Except Unit (Option Identity)

def unverifiedSourceUnknown : UInt8 := 1
def unverifiedSignatureInvalid : UInt8 := 2

/-- The end of `UnpackFromBytes`: what the resolver's answer makes of the message. -/
def verifySource (m : LXMessage) (signed : Bytes) (resolver : Option SourceResolver) :
    Option LXMessage × Option UnpackError :=
  match resolver with
  | none => (some { m with unverifiedReason := unverifiedSourceUnknown }, none)
  | some resolve =>
    match resolve m.sourceHash with
    | .error _ => (none, some .resolveSource)
    | .ok none => (some { m with unverifiedReason := unverifiedSourceUnknown }, none)
    | .ok (some id) =>
      if id.verify signed m.signature then (some { m with signatureValidated := true }, none)
      else (some { m with unverifiedReason := unverifiedSignatureInvalid }, some .signatureInvalid)

/-- `UnpackFromBytes` once the inner bytes are cut into source, signature and payload. -/
def unpackParts (destinationHash source signature packedPayload : Bytes) (resolver : Option SourceResolver)
    (order : MapOrder) : Option LXMessage × Option UnpackError :=
  match decodePayloadAndSplit packedPayload with
  | .error error => (none, some (.invalidPayload error))
  | .ok (payload, hashedPayload) =>
    let blank : LXMessage := { destinationHash, sourceHash := source, signature, incoming := true }
    match blank.applyPayload order payload with
    | .error error => (none, some error)
    | .ok m =>
      let m := { m with
        hash := messageHash destinationHash source hashedPayload
        packed := destinationHash ++ source ++ signature ++ packedPayload }
      verifySource m (signedPart destinationHash source hashedPayload) resolver

/-- `UnpackFromBytes`: a message, an error, or both (a message whose signature is wrong). -/
def unpackFromBytes (destinationHash inner : Bytes) (resolver : Option SourceResolver)
    (order : MapOrder) : Option LXMessage × Option UnpackError :=
  if destinationHash.length ≠ destinationLength then (none, some .destinationHashLength)
  else if inner.length < destinationLength + signatureLength then (none, some .tooShort)
  else
    unpackParts destinationHash (inner.take destinationLength)
      ((inner.drop destinationLength).take signatureLength)
      (inner.drop (destinationLength + signatureLength)) resolver order

/-- `Unpack` of a full on-wire blob. -/
def unpack (data : Bytes) (resolver : Option SourceResolver) (order : MapOrder) :
    Option LXMessage × Option UnpackError :=
  if data.length < 2 * destinationLength + signatureLength then (none, some .tooShort)
  else unpackFromBytes (data.take destinationLength) (data.drop destinationLength) resolver order

end ReticulumProtocols.Lxmf
