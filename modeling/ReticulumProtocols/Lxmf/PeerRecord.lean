import ReticulumProtocols.Lxmf.Mailbox
import ReticulumProtocols.Msgpack.StringMap
import ReticulumProtocols.Wire.Text

/-! The peers of a propagation node. `peerFromBytes` reads one from the msgpack dictionary of its file, field by field
with a check of each field's type, and enters what the file says about the messages of the store. -/

namespace ReticulumProtocols.Lxmf
open Wire Msgpack Text AList

def peerStrategyPersistent : UInt8 := 0x02

/-- `Peer` without what a running synchronisation holds; `none` is a nil slice or map. -/
structure PeerRecord where
  destinationHash : Bytes
  alive : Bool := false
  lastHeard : Float := Float64.ofInt 0
  metadata : Option Fields := none
  syncStrategy : UInt8 := peerStrategyPersistent
  peeringKey : Option Bytes := none
  peeringValue : Int64 := 0
  peeringCost : Int64 := 0
  nextSyncAttempt : Float := Float64.ofInt 0
  lastSyncAttempt : Float := Float64.ofInt 0
  syncBackoff : Float := Float64.ofInt 0
  peeringTimebase : Int64 := 0
  linkEstablishmentRate : Float := Float64.ofInt 0
  syncTransferRate : Float := Float64.ofInt 0
  propagationTransferLimit : Float := Float64.ofInt 0
  propagationSyncLimit : Float := Float64.ofInt 0
  propagationStampCost : Int64 := 0
  propagationStampCostFlex : Int64 := 0
  offered : Int64 := 0
  outgoing : Int64 := 0
  incoming : Int64 := 0
  rxBytes : Int64 := 0
  txBytes : Int64 := 0
  addressed : destinationHash.length = destinationLength

def newPeer (destHash : Bytes) (addressed : destHash.length = destinationLength) : PeerRecord :=
  { destinationHash := destHash, addressed }

/-- `dict[name]`, which is nil where nothing is under the name. -/
def dictGet (dict : List (Scalar × Value)) (name : String) : Value :=
  match dict.find? fun entry => entry.1 = .str (ascii name) with
  | some entry => entry.2
  | none => .nil

/-- `asFloat`; the small integer types are not among its cases. -/
def asFloat : Value → Float
  | .scalar (.float64 bits) => Float.ofBits bits
  | .scalar (.float32 bits) => Float.ofBits (Float64.widen bits)
  | .scalar (.int n) =>
    if n.kind = .int ∨ n.kind = .int64 ∨ n.kind = .uint64 then Float64.ofInt n.val else Float64.ofInt 0
  | _ => Float64.ofInt 0

/-- An integer field, if there is an integer of any type that int64 can hold. -/
def readInt (unset : Int64) : Value → Int64
  | .scalar (.int n) => ((asInt64 n).map Int64.ofInt).getD unset
  | _ => unset

def readBool : Value → Bool
  | .scalar (.bool value) => value
  | _ => false

/-- A float field, left at zero where there is nothing. -/
def readFloat : Value → Float
  | .scalar .nil => Float64.ofInt 0
  | value => asFloat value

/-- A limit, left unset where it cannot be read. -/
def readLimit (parseFloat : Bytes → Float × Bool) (value : Value) : Float :=
  let (limit, ok) := numericField parseFloat value
  if ok then limit else Float64.ofInt (-1)

/-- The peering key as a pair with its value, or alone as older peers wrote it. -/
def readPeeringKey : Value → Option Bytes × Int64
  | .bytes key => (some key, 0)
  | .arr [key, value] =>
    (match key with
      | .bytes key => some key
      | _ => none, readInt 0 value)
  | _ => (none, 0)

def mapAnyToByteKey (entries : List (Scalar × Value)) : Fields :=
  entries.foldl (fun out entry =>
    match entry.1 with
    | .int n => if 0 ≤ n.val ∧ n.val ≤ 0xff then out.insert (UInt8.ofNat n.val.toNat) entry.2 else out
    | _ => out) ∅

/-- The metadata, if it is a map with untyped keys. -/
def readMetadata : Value → Option Fields
  | .map .any entries => some (mapAnyToByteKey entries)
  | _ => none

/-- The strategy, if it is an int64. -/
def readStrategy : Value → UInt8
  | .scalar (.int n) => if n.kind = .int64 then UInt8.ofNat (n.val % 256).toNat else peerStrategyPersistent
  | _ => peerStrategyPersistent

def peerOfDict (parseFloat : Bytes → Float × Bool) (dict : List (Scalar × Value)) (dest : Bytes)
    (addressed : dest.length = destinationLength) : PeerRecord :=
  let transferLimit := readLimit parseFloat (dictGet dict "propagation_transfer_limit")
  let syncLimit := readLimit parseFloat (dictGet dict "propagation_sync_limit")
  { newPeer dest addressed with
    propagationStampCost := readInt (-1) (dictGet dict "propagation_stamp_cost")
    propagationStampCostFlex := readInt (-1) (dictGet dict "propagation_stamp_cost_flexibility")
    peeringCost := readInt (-1) (dictGet dict "peering_cost")
    peeringTimebase := readInt 0 (dictGet dict "peering_timebase")
    alive := readBool (dictGet dict "alive")
    lastHeard := readFloat (dictGet dict "last_heard")
    peeringKey := (readPeeringKey (dictGet dict "peering_key")).1
    peeringValue := (readPeeringKey (dictGet dict "peering_key")).2
    metadata := readMetadata (dictGet dict "metadata")
    syncStrategy := readStrategy (dictGet dict "sync_strategy")
    propagationTransferLimit := transferLimit
    propagationSyncLimit := if syncLimit < Float64.ofInt 0 then transferLimit else syncLimit
    linkEstablishmentRate := readFloat (dictGet dict "link_establishment_rate")
    syncTransferRate := readFloat (dictGet dict "sync_transfer_rate")
    lastSyncAttempt := readFloat (dictGet dict "last_sync_attempt")
    offered := readInt 0 (dictGet dict "offered")
    outgoing := readInt 0 (dictGet dict "outgoing")
    incoming := readInt 0 (dictGet dict "incoming")
    rxBytes := readInt 0 (dictGet dict "rx_bytes")
    txBytes := readInt 0 (dictGet dict "tx_bytes") }

inductive PeerFileError where
  | decode (error : DecodeError)
  | destinationHash
  deriving DecidableEq, Repr

namespace MessageStore

/-- What a peer's file says about the messages of the store is entered in its lists. -/
def relist (ms : MessageStore) (peer : Bytes) (handled unhandled : List Bytes) : MessageStore :=
  unhandled.foldl (fun store transientID => store.addUnhandledPeer transientID peer)
    (handled.foldl (fun store transientID => store.markHandled transientID peer) ms)

end MessageStore

def peerFromBytes (parseFloat : Bytes → Float × Bool) (store : MessageStore) (data : Bytes) :
    Except PeerFileError (PeerRecord × MessageStore) :=
  match unmarshalMap data with
  | .error error => .error (.decode error)
  | .ok dict =>
    match dictGet dict "destination_hash" with
    | .bytes dest =>
      if addressed : dest.length = destinationLength then
        .ok (peerOfDict parseFloat dict dest addressed,
          store.relist dest (decodeByteList (dictGet dict "handled_ids"))
            (decodeByteList (dictGet dict "unhandled_ids")))
      else .error .destinationHash
    | _ => .error .destinationHash

/-- All a file can do to the store is to enter ids in the lists of its peer. -/
theorem peerFromBytes_ok {parseFloat : Bytes → Float × Bool} {target after : MessageStore} {data : Bytes} {q : PeerRecord}
    (read : peerFromBytes parseFloat target data = .ok (q, after)) :
    ∃ handled unhandled, after = target.relist q.destinationHash handled unhandled := by
  unfold peerFromBytes at read
  split at read
  · contradiction
  split at read
  · split at read
    · rw [Except.ok.injEq, Prod.mk.injEq] at read
      obtain ⟨rfl, rfl⟩ := read
      exact ⟨_, _, rfl⟩
    · contradiction
  · contradiction

/-- The peers of a router; each is found under its own hash. -/
structure PeerTable where
  peers : GoMap Bytes PeerRecord := ∅
  keyed : ∀ key p, peers.lookup key = some p → p.destinationHash = key := by
    intro key p found
    contradiction

namespace PeerTable
variable (table : PeerTable)

def get (key : Bytes) : Option PeerRecord := table.peers.lookup key

/-- `r.peers[peerKey(p.DestinationHash)] = p`. -/
def set (p : PeerRecord) : PeerTable where
  peers := table.peers.insert p.destinationHash p
  keyed key q found := by
    by_cases own : key = p.destinationHash
    · rw [own, lookup_insert] at found
      rw [← Option.some.inj found, own]
    · rw [lookup_insert_ne own] at found
      exact table.keyed key q found

theorem get_set (p : PeerRecord) (key : Bytes) :
    (table.set p).get key = if key = p.destinationHash then some p else table.get key := by
  by_cases own : key = p.destinationHash
  · rw [if_pos own, own]
    exact lookup_insert _
  · rw [if_neg own]
    exact lookup_insert_ne own

end PeerTable

end ReticulumProtocols.Lxmf
