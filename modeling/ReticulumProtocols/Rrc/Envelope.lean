import ReticulumProtocols.Cbor.Decode
import ReticulumProtocols.Lxmf.Tickets

/-! The RRC envelope, its bodies and its codec. `Marshal` works in a map and a buffer from pools that all its calls
share. -/

namespace ReticulumProtocols.Rrc
open Wire Lxmf Cbor

abbrev Text := List Char

def byteLength (s : Text) : Nat := (s.map Char.utf8Size).sum

abbrev identityLength : Nat := 16
abbrev messageIDLength : Nat := 8
abbrev protocolVersion : UInt64 := 1
abbrev maxEnvelopeBytes : Nat := 65536

def assignedTypes : List UInt64 := [1, 2, 10, 11, 12, 13, 20, 21, 22, 30, 31, 40, 50]

inductive EnvelopeType where
  | hello | welcome | join | joined | part | parted | msg | notice | action | ping | pong | error
  | resourceEnvelope
  | other (code : { n : UInt64 // n ∉ assignedTypes })
  deriving DecidableEq

namespace EnvelopeType

def code : EnvelopeType → UInt64
  | hello => 1
  | welcome => 2
  | join => 10
  | joined => 11
  | part => 12
  | parted => 13
  | msg => 20
  | notice => 21
  | action => 22
  | ping => 30
  | pong => 31
  | error => 40
  | resourceEnvelope => 50
  | other code => code

def assigned : List EnvelopeType :=
  [hello, welcome, join, joined, part, parted, msg, notice, action, ping, pong, error, resourceEnvelope]

def ofCode (n : UInt64) : EnvelopeType :=
  if free : n ∉ assignedTypes then other ⟨n, free⟩ else (assigned.find? fun type => type.code = n).getD error

theorem ofCode_code (type : EnvelopeType) : ofCode type.code = type := by
  cases type with
  | other code => exact dif_pos code.2
  | _ => rfl

end EnvelopeType

structure Envelope where
  version : UInt64 := protocolVersion
  type : EnvelopeType
  msgID : Bytes
  timestamp : UInt64
  sender : Bytes
  room : Option Text := none
  body : Option Value := none
  nick : Option Text := none
  destination : Option Bytes := none

inductive EnvelopeError where
  | invalidEnvelope (what : String)
  | undecodable (error : DecodeError)
  | envelopeTooLarge
  | missingField (field : String)
  | wrongVersion
  | badFieldLength (field : String)
  | unencodable
  deriving DecidableEq

def envelopeFrom (type : EnvelopeType) (sender msgID : Bytes) (timestamp : UInt64) : Except EnvelopeError Envelope :=
  if sender.length ≠ identityLength then .error (.badFieldLength "sender identity")
  else if msgID.length ≠ messageIDLength then .error (.badFieldLength "message id")
  else .ok { type, msgID, timestamp, sender }

def keyVersion : UInt64 := 0
def keyType : UInt64 := 1
def keyMsgID : UInt64 := 2
def keyTimestamp : UInt64 := 3
def keySender : UInt64 := 4
def keyRoom : UInt64 := 5
def keyBody : UInt64 := 6
def keyNick : UInt64 := 7
def keyDestination : UInt64 := 8

/-- The assignments of `Marshal` to its map. -/
def Envelope.fields (e : Envelope) : List (UInt64 × Value) :=
  [(keyVersion, .uint e.version), (keyType, .uint e.type.code), (keyMsgID, .bytes e.msgID),
    (keyTimestamp, .uint e.timestamp), (keySender, .bytes e.sender)] ++
  e.room.toList.map (fun room => (keyRoom, .text room)) ++ e.body.toList.map (fun body => (keyBody, body)) ++
  e.nick.toList.map (fun nick => (keyNick, .text nick)) ++
  e.destination.toList.map (fun destination => (keyDestination, .bytes destination))

/-- `marshalMapPool` and `marshalBufPool`. -/
structure Pools where
  maps : List (GoMap UInt64 Value) := []
  buffers : List Bytes := []

/-- `Get` of a pool: an object of the pool's choice, or a new one. -/
def fromPool {α : Type} (pool : List α) (choice : Nat) (new : α) : α × List α :=
  (pool[choice]?.getD new, pool.eraseIdx choice)

/-- The loop that deletes every key of a map. -/
def cleared (map : GoMap UInt64 Value) : GoMap UInt64 Value := map.keys.foldl (fun map key => map.erase key) map

/-- A call of `Marshal`: the objects that the pools give it, the order in which the map is iterated, and what the
buffer holds when the encoder gives up on the body. -/
structure MarshalCall where
  env : Envelope
  mapChoice : Nat := 0
  bufferChoice : Nat := 0
  visit : Visit := Visit.listed
  fault : Option Bytes := none

/-- What the encoder writes for the map of `Marshal`. -/
def encodeFields (visit : Visit) (map : GoMap UInt64 Value) : Bytes :=
  encode (.map ((visit.run map.entries).map fun entry => (.uint entry.1, entry.2)))

/-- `Marshal`. A map with a destination of a wrong length never goes back to the pool. -/
def marshal (pools : Pools) (call : MarshalCall) : Pools × Except EnvelopeError Bytes :=
  let e := call.env
  if e.version ≠ protocolVersion then (pools, .error .wrongVersion)
  else if e.msgID.length ≠ messageIDLength then (pools, .error (.badFieldLength "message id"))
  else if e.sender.length ≠ identityLength then (pools, .error (.badFieldLength "sender identity"))
  else
    let (map, maps) := fromPool pools.maps call.mapChoice ∅
    if e.destination.any fun destination => destination.length ≠ identityLength then
      ({ pools with maps }, .error (.badFieldLength "destination identity"))
    else
      let map := e.fields.foldl (fun map field => map.insert field.1 field.2) map
      let (buffer, buffers) := fromPool pools.buffers call.bufferChoice []
      let buffer := buffer.take 0
      let maps := cleared map :: maps
      match call.fault with
      | some written => ({ maps, buffers := (buffer ++ written) :: buffers }, .error .unencodable)
      | none =>
        let buffer := buffer ++ encodeFields call.visit map
        ({ maps, buffers := buffer :: buffers }, .ok buffer)

def decoderLimits : Limits where
  maxNestedLevels := 8
  maxArrayElements := 1024
  maxMapPairs := 256

def asUint64 : Value → Option UInt64
  | .scalar (.uint n) => some n
  | _ => none

def asBytes : Value → Option Bytes
  | .scalar (.bytes data) => some data
  | _ => none

def asString : Value → Option Text
  | .scalar (.text chars) => some chars
  | _ => none

def required {α : Type} (raw : GoMap UInt64 Value) (key : UInt64) (read : Value → Option α) (field : String) :
    Except EnvelopeError α :=
  match (raw.lookup key).bind read with
  | some value => .ok value
  | none => .error (.missingField field)

def optional {α : Type} (raw : GoMap UInt64 Value) (key : UInt64) (read : Value → Option α) (field : String) :
    Except EnvelopeError (Option α) :=
  match raw.lookup key with
  | none => .ok none
  | some value =>
    match read value with
    | some value => .ok (some value)
    | none => .error (.invalidEnvelope field)

def checkLength (data : Bytes) (length : Nat) (field : String) : Except EnvelopeError Unit :=
  if data.length = length then .ok () else .error (.badFieldLength field)

/-- `UnmarshalEnvelope` once the map is decoded. -/
def readFields (raw : GoMap UInt64 Value) : Except EnvelopeError Envelope := do
  let version ← required raw keyVersion asUint64 "version"
  if version ≠ protocolVersion then .error .wrongVersion
  else
    let type ← required raw keyType asUint64 "type"
    let msgID ← required raw keyMsgID asBytes "message id"
    checkLength msgID messageIDLength "message id"
    let timestamp ← required raw keyTimestamp asUint64 "timestamp"
    let sender ← required raw keySender asBytes "sender"
    checkLength sender identityLength "sender identity"
    let room ← optional raw keyRoom asString "room"
    let body := raw.lookup keyBody
    let nick ← optional raw keyNick asString "nick"
    let destination ← optional raw keyDestination asBytes "destination"
    destination.forM fun destination => checkLength destination identityLength "destination identity"
    return { version, type := .ofCode type, msgID, timestamp, sender, room, body, nick, destination }

def unmarshalEnvelope (data : Bytes) : Except EnvelopeError Envelope :=
  if data = [] then .error (.invalidEnvelope "")
  else if data.length > maxEnvelopeBytes then .error .envelopeTooLarge
  else
    match decodeUintMap decoderLimits data with
    | .error error => .error (.undecodable error)
    | .ok pairs => readFields (pairs.foldl (fun map pair => map.insert pair.1 pair.2) ∅)

/-- `coerceUintMap`: a map without the entries whose key is no unsigned integer. -/
def coerceUintMap : Value → Option (List (UInt64 × Value))
  | .map entries => some (entries.filterMap fun entry => (asUint64 (.scalar entry.1)).map fun key => (key, entry.2))
  | _ => none

def helloKeyNickLegacy : UInt64 := 64

def helloLegacyNick (body : Option Value) : Text :=
  (((body.bind coerceUintMap).bind fun raw => raw.lookup helloKeyNickLegacy).bind asString).getD []

/-- `BodySizeBytes`: texts and byte strings by their content, other values by their encoding. -/
def bodySizeBytes : Value → Nat
  | .scalar .null => 0
  | .scalar (.text chars) => byteLength chars
  | .scalar (.bytes data) => data.length
  | body => (encode body).length

structure ResourceEnvelopeBody where
  id : Option Bytes := none
  kind : Option Text := none
  size : Option UInt64 := none
  sha256 : Option Bytes := none
  encoding : Option Text := none

def resourceKeyID : UInt64 := 0
def resourceKeyKind : UInt64 := 1
def resourceKeySize : UInt64 := 2
def resourceKeySHA256 : UInt64 := 3
def resourceKeyEncoding : UInt64 := 4

/-- A body is nil when there is none and when it is null. -/
def isNil : Option Value → Bool
  | none | some (.scalar .null) => true
  | _ => false

def parseResourceEnvelopeBody (body : Option Value) : Option ResourceEnvelopeBody :=
  if isNil body then some {}
  else (body.bind coerceUintMap).map fun raw =>
    { id := (raw.lookup resourceKeyID).bind asBytes
      kind := (raw.lookup resourceKeyKind).bind asString
      size := (raw.lookup resourceKeySize).bind asUint64
      sha256 := (raw.lookup resourceKeySHA256).bind asBytes
      encoding := (raw.lookup resourceKeyEncoding).bind asString }

/-- A field that is there has to be readable. -/
def malformed {α : Type} (raw : List (UInt64 × Value)) (key : UInt64) (read : Value → Option α) : Bool :=
  (raw.lookup key).any fun value => (read value).isNone

def validateResourceEnvelopeBody (body : Option Value) : Except String ResourceEnvelopeBody :=
  match body.bind coerceUintMap with
  | none => .error "invalid resource envelope body"
  | some raw =>
    if malformed raw resourceKeyID asBytes then .error "resource envelope missing id"
    else if malformed raw resourceKeyKind asString then .error "resource envelope missing kind"
    else if malformed raw resourceKeySize asUint64 then .error "resource envelope invalid size"
    else if isNil (raw.lookup resourceKeySHA256) = false ∧ malformed raw resourceKeySHA256 asBytes then
      .error "resource envelope invalid sha256"
    else
      match parseResourceEnvelopeBody body with
      | none => .error "invalid resource envelope body"
      | some parsed =>
        if parsed.id.getD [] = [] then .error "resource envelope missing id"
        else if parsed.kind.getD [] = [] then .error "resource envelope missing kind"
        else if parsed.size.isNone then .error "resource envelope invalid size"
        else .ok parsed

end ReticulumProtocols.Rrc
