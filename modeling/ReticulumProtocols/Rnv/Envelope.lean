import ReticulumProtocols.Cbor.Decode
import ReticulumProtocols.Lxmf.Tickets

/-! The signalling messages of RNV: envelopes in CBOR, and the bodies that they carry. A Go `int` is an `Int64`, and
`uint64(n)` and `int(n)` are the conversions between the two. -/

namespace ReticulumProtocols.Rnv
open Wire Lxmf Cbor

def protocolVersion : UInt64 := 1
def maxEnvelopeBytes : Nat := 4 * 1024

inductive MessageType where
  | hello | reject | still | clipOffer | clipAccept | clipDone | streamOffer | streamAccept | streamCtrl | bye
  /-- The codes from `TypePrivateMin` on. -/
  | privateUse
  | unknown
  deriving DecidableEq, Repr

def typePrivateMin : UInt64 := 1000

namespace MessageType

/-- The code of a type that has one. -/
def code : MessageType → UInt64
  | hello => 1
  | reject => 2
  | still => 10
  | clipOffer => 20
  | clipAccept => 21
  | clipDone => 22
  | streamOffer => 30
  | streamAccept => 31
  | streamCtrl => 32
  | bye => 40
  | privateUse => typePrivateMin
  | unknown => 0

end MessageType

/-- `map[uint64]any`. -/
abbrev Body := GoMap UInt64 Value

/-- A map with the assignments that the source makes to it. -/
def bodyOf (fields : List (UInt64 × Value)) : Body := fields.foldl (fun body field => body.insert field.1 field.2) ∅

/-- An assignment that is made on a condition. -/
def assignIf (set : Bool) (key : UInt64) (value : Value) : List (UInt64 × Value) := if set then [(key, value)] else []

/-- What the encoder makes of a map: its entries as it meets them. -/
def mapValue (visit : Visit) (body : Body) : Value :=
  .map ((visit.run body.entries).map fun entry => (.uint entry.1, entry.2))

structure Envelope where
  version : UInt64 := protocolVersion
  type : UInt64
  body : Option Body := none
  extensions : GoMap UInt64 Bytes := ∅

inductive EnvelopeError where
  | empty | tooLarge
  | wrongVersion (version : UInt64)
  | undecodable (error : DecodeError)
  deriving DecidableEq, Repr

def fieldVersion : UInt64 := 0
def fieldType : UInt64 := 1
def fieldBody : UInt64 := 2
def fieldExtensions : UInt64 := 90

/-- The map of the extensions. -/
def extensionValue (visit : Visit) (extensions : GoMap UInt64 Bytes) : Value :=
  mapValue visit (bodyOf (extensions.entries.map fun entry => (entry.1, .bytes entry.2)))

/-- The assignments of `Pack` to its map. -/
def Envelope.fields (visit : Visit) (e : Envelope) : List (UInt64 × Value) :=
  [(fieldVersion, .uint e.version), (fieldType, .uint e.type)] ++
    e.body.toList.map (fun body => (fieldBody, mapValue visit body)) ++
    assignIf (e.extensions.entries ≠ []) fieldExtensions (extensionValue visit e.extensions)

/-- `Pack`; a version that is not set is set. -/
def Envelope.pack (visit : Visit) (e : Envelope) : Except EnvelopeError Bytes :=
  let e := if e.version = 0 then { e with version := protocolVersion } else e
  if e.version ≠ protocolVersion then .error (.wrongVersion e.version)
  else
    let raw := encode (mapValue visit (bodyOf (e.fields visit)))
    if raw.length > maxEnvelopeBytes then .error .tooLarge else .ok raw

def asUint64 : Value → UInt64
  | .scalar (.uint n) => n
  | _ => 0

/-- The content of a byte string or text. -/
def content : Value → Option Bytes
  | .scalar (.bytes data) => some data
  | .scalar (.text chars) => some (utf8 chars)
  | _ => none

/-- Keys that are no unsigned integers count as zero. -/
def asUint64Map (visit : Visit) : Value → Body
  | .map entries => (visit.run entries).foldl (fun body entry => body.insert (asUint64 (.scalar entry.1)) entry.2) ∅
  | _ => ∅

def asExtMap (visit : Visit) (value : Value) : GoMap UInt64 Bytes :=
  (asUint64Map visit value).entries.foldl (fun out entry =>
    match content entry.2 with
    | some data => out.insert entry.1 data
    | none => out) ∅

def decoderLimits : Limits where
  maxNestedLevels := 8
  maxArrayElements := 256
  maxMapPairs := 128

/-- `UnpackEnvelope` once the map is decoded. -/
def readEnvelope (visit : Visit) (raw : Body) : Except EnvelopeError Envelope :=
  let version := ((raw.lookup fieldVersion).map asUint64).getD 0
  if version ≠ protocolVersion then .error (.wrongVersion version)
  else
    .ok {
      version
      type := ((raw.lookup fieldType).map asUint64).getD 0
      body := some (((raw.lookup fieldBody).map (asUint64Map visit)).getD ∅)
      extensions := ((raw.lookup fieldExtensions).map (asExtMap visit)).getD ∅ }

def unpackEnvelope (visit : Visit) (raw : Bytes) : Except EnvelopeError Envelope :=
  if raw = [] then .error .empty
  else if raw.length > maxEnvelopeBytes then .error .tooLarge
  else
    match decodeUintMap decoderLimits raw with
    | .error error => .error (.undecodable error)
    | .ok pairs => readEnvelope visit (bodyOf pairs)

def newTyped (type : MessageType) (body : Option Body) : Envelope := { type := type.code, body }

/-- A key that is not there reads as nil. -/
def get (body : Body) (key : UInt64) : Value := (body.lookup key).getD .null

def codecJPEG : UInt8 := 0x01
def codecOpaque : UInt8 := 0x10
def codecOpus : UInt8 := 0x81
def codecCodec2 : UInt8 := 0x82

def trackVideo : UInt8 := 0x01
def trackAudio : UInt8 := 0x02

def profileUltraLow : Int64 := 0x10
def profileLow : Int64 := 0x20
def profileMedium : Int64 := 0x30
def profileHigh : Int64 := 0x40

def maxStillBytes : UInt64 := 256 * 1024
def maxClipBytes : UInt64 := 8 * 1024 * 1024

/-- What a peer can do, as HELLO tells. -/
structure Caps where
  maxStill : UInt64 := 0
  maxClip : UInt64 := 0
  profiles : List Int64 := []
  codecs : List UInt8 := []
  tracks : UInt8 := 0
  preferred : Int64 := 0
  strictExt : Bool := false
  extensions : GoMap UInt64 Bytes := ∅

namespace Caps

def fields (visit : Visit) (c : Caps) : List (UInt64 × Value) :=
  [(0, .uint c.maxStill), (1, .uint c.maxClip), (2, .arr (c.profiles.map fun p => .uint p.toUInt64)),
    (3, .arr (c.codecs.map fun co => .uint co.toUInt64)), (4, .uint c.tracks.toUInt64),
    (5, .uint c.preferred.toUInt64)] ++
  assignIf c.strictExt 6 (.bool true) ++ assignIf (c.extensions.entries ≠ []) 7 (extensionValue visit c.extensions)

def toBody (visit : Visit) (c : Caps) : Body := bodyOf (c.fields visit)

end Caps

def asIntList : Value → List Int64
  | .arr items => items.map fun item => (asUint64 item).toInt64
  | _ => []

def asByteList : Value → List UInt8
  | .arr items => items.map fun item => (asUint64 item).toUInt8
  | .scalar (.bytes data) => data
  | _ => []

def asBool : Value → Option Bool
  | .scalar (.bool value) => some value
  | _ => none

/-- `CapsFromBody`. -/
def Caps.fromBody (visit : Visit) (body : Body) : Caps where
  maxStill := ((body.lookup 0).map asUint64).getD maxStillBytes
  maxClip := ((body.lookup 1).map asUint64).getD maxClipBytes
  profiles := ((body.lookup 2).map asIntList).getD []
  codecs := ((body.lookup 3).map asByteList).getD []
  tracks := ((body.lookup 4).map fun v => (asUint64 v).toUInt8).getD (trackVideo ||| trackAudio)
  preferred := ((body.lookup 5).map fun v => (asUint64 v).toInt64).getD profileLow
  strictExt := ((body.lookup 6).bind asBool).getD false
  extensions := ((body.lookup 7).map (asExtMap visit)).getD ∅

structure StreamOffer where
  profile : Int64 := 0
  tracks : UInt8 := 0
  video : UInt8 := 0
  audio : UInt8 := 0
  maxFPS : Int64 := 0
  deriving DecidableEq

namespace StreamOffer

def fields (s : StreamOffer) : List (UInt64 × Value) :=
  [(0, .uint s.profile.toUInt64), (1, .uint s.tracks.toUInt64)] ++
    assignIf (s.video ≠ 0) 2 (.uint s.video.toUInt64) ++ assignIf (s.audio ≠ 0) 3 (.uint s.audio.toUInt64) ++
    assignIf (s.maxFPS > 0) 4 (.uint s.maxFPS.toUInt64)

def toBody (s : StreamOffer) : Body := bodyOf s.fields

/-- `StreamOfferFromBody`. -/
def fromBody (body : Body) : StreamOffer where
  profile := (asUint64 (get body 0)).toInt64
  tracks := (asUint64 (get body 1)).toUInt8
  video := ((body.lookup 2).map fun v => (asUint64 v).toUInt8).getD codecJPEG
  audio := ((body.lookup 3).map fun v => (asUint64 v).toUInt8).getD codecOpus
  maxFPS := ((body.lookup 4).map fun v => (asUint64 v).toInt64).getD 0

end StreamOffer

end ReticulumProtocols.Rnv
