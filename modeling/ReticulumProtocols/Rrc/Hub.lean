import ReticulumProtocols.Index.SetIndex
import ReticulumProtocols.Lxmf.RateLimit
import ReticulumProtocols.Rrc.Envelope

/-! The RRC hub: the peers it keeps, the rooms they are in and the index of their nicknames, with the sections
that run under the hub's lock. A peer record belongs to one link and is named by the link's number. -/

namespace ReticulumProtocols.Rrc
open Wire Lxmf Index Cbor

/-- The character tables that `strings` and `unicode` consult. -/
structure Unicode where
  isSpace : Char → Bool
  isControl : Char → Bool
  toLower : Char → Char

namespace Unicode
variable (u : Unicode)

def trimSpace (s : Text) : Text := ((s.dropWhile u.isSpace).reverse.dropWhile u.isSpace).reverse

/-- `strings.ToLower` of `strings.TrimSpace`. -/
def fold (s : Text) : Text := (u.trimSpace s).map u.toLower

def normalizeRoom (name : Text) : Text := u.fold name

/-- What `SanitizeNick` looks for and `stripNickControls` leaves out. -/
def unfit (r : Char) : Bool := r.toNat = 0 ∨ r.toNat = 10 ∨ r.toNat = 13 ∨ u.isControl r = true

def stripNickControls (nick : Text) : Text := nick.filter fun r => !u.unfit r

def sanitizeNick (nick : Text) : Text :=
  let nick := u.trimSpace nick
  if nick = [] then [] else if nick.any u.unfit then u.stripNickControls nick else nick

end Unicode

/-- `peerKey`: anything but an identity hash has the zero key. -/
def peerKey (hash : Bytes) : Bytes := if hash.length = identityLength then hash else List.replicate identityLength 0

structure HubLimits where
  maxNickBytes : Nat := 32
  maxRoomsPerSession : Nat := 32
  maxRoomNameBytes : Nat := 64
  maxMsgBodyBytes : Nat := 350
  rateLimitMsgsPerMinute : Nat := 60

/-- `ToMap` of the limits. -/
def HubLimits.toMap (limits : HubLimits) : Value :=
  .map [(.uint 0, .uint (.ofNat limits.maxNickBytes)), (.uint 1, .uint (.ofNat limits.maxRoomNameBytes)),
    (.uint 2, .uint (.ofNat limits.maxMsgBodyBytes)), (.uint 3, .uint (.ofNat limits.maxRoomsPerSession)),
    (.uint 4, .uint (.ofNat limits.rateLimitMsgsPerMinute))]

structure HubConfig where
  unicode : Unicode
  /-- The identity hash of the hub. -/
  sender : { hash : Bytes // hash.length = identityLength }
  name : Text := "reticulum-go-protocols".toList
  version : Text := "0.1.0".toList
  capabilities : Option Value := none
  limits : HubLimits := {}
  includeMemberList : Bool := false
  enableResourceTransfer : Bool := false
  maxResourceBytes : Nat := 262144
  /-- Whether the hub has a policy. -/
  policy : Bool := false

def defaultHubCapabilities (resourceEnvelope : Bool) : Value :=
  .map ([(.uint 1, .bool true), (.uint 2, .bool true)] ++
    if resourceEnvelope then [(.uint 0, .bool true)] else [])

/-- The body of a WELCOME. -/
def HubConfig.welcomeBody (c : HubConfig) : Value :=
  .map [(.uint 0, .text c.name), (.uint 1, .text c.version),
    (.uint 2, c.capabilities.getD (defaultHubCapabilities c.enableResourceTransfer)), (.uint 3, c.limits.toMap)]

/-- `hubPeer` with the session of its link. Nothing reads `refused`, which remembers that `OnIdentified` returned an
error on the link. -/
structure HubPeer where
  peerHash : Bytes := []
  active : Bool := false
  rooms : GoMap Text Unit := ∅
  nick : Text := []
  closed : Bool := false
  pendingHello : Option Envelope := none
  tokens : Float := Float64.ofInt 0
  lastRefill : Int := 0
  refused : Bool := false

namespace HubPeer
variable (peer : HubPeer)

/-- The peer is registered; `registerOnce` has run. -/
def ready : Bool := peer.peerHash.length = identityLength

def key : Bytes := peerKey peer.peerHash

/-- The nickname that an envelope of the peer carries. -/
def ownNick : Option Text := if peer.nick = [] then none else some peer.nick

def refill (limit : Nat) (now : Int) : Float :=
  let elapsed := durationSeconds (now - peer.lastRefill)
  let elapsed := if elapsed < Float64.ofInt 0 then Float64.ofInt 0 else elapsed
  let tokenCap := Float64.ofInt limit
  let tokens := peer.tokens + elapsed * (tokenCap / Float64.ofInt 60)
  if tokens > tokenCap then tokenCap else tokens

def takeToken (limit : Nat) (now : Int) : HubPeer × Bool :=
  if limit = 0 then (peer, true)
  else
    let tokens := peer.refill limit now
    if tokens < Float64.ofInt 1 then ({ peer with tokens, lastRefill := now }, false)
    else ({ peer with tokens := tokens - Float64.ofInt 1, lastRefill := now }, true)

theorem takeToken_fst (limit : Nat) (now : Int) :
    ∃ tokens lastRefill, (peer.takeToken limit now).1 = { peer with tokens, lastRefill } := by
  unfold takeToken
  split
  · exact ⟨peer.tokens, peer.lastRefill, rfl⟩
  · dsimp only
    split
    · exact ⟨_, _, rfl⟩
    · exact ⟨_, _, rfl⟩

end HubPeer

structure Hub where
  records : Nat → HubPeer := fun _ => {}
  links : Nat := 0
  peers : GoMap Bytes Nat := ∅
  rooms : SetIndex Text Bytes := ∅
  nickIndex : SetIndex Text Bytes := ∅

inductive HubError where
  | sessionClosed | notMember

namespace Hub
variable (h : Hub)

def update (p : Nat) (change : HubPeer → HubPeer) : Hub :=
  { h with records := Function.update h.records p (change (h.records p)) }

/-- The hub's record of the identity of `p` is `p` itself. -/
def Current (p : Nat) : Prop := h.peers.lookup (h.records p).key = some p

instance (p : Nat) : Decidable (h.Current p) := inferInstanceAs (Decidable (_ = _))

/-- The hub's record of a key exists and lists a room. -/
def Lists (key : Bytes) (room : Text) : Prop := ∃ p, h.peers.lookup key = some p ∧ room ∈ (h.records p).rooms

instance (key : Bytes) (room : Text) : Decidable (h.Lists key room) :=
  decidable_of_iff ((h.peers.lookup key).any fun p => room ∈ (h.records p).rooms) (by
    simp [Lists, Option.any_eq_true])

/-- The record that `acceptLink` makes. -/
def acceptLink (limit : Nat) (now : Int) : Hub :=
  { h with
    records := Function.update h.records h.links { tokens := Float64.ofInt limit, lastRefill := now }
    links := h.links + 1 }

/-- The record that a registration replaces. -/
def replaced (p : Nat) (hash : Bytes) : Option Nat := (h.peers.lookup (peerKey hash)).filter fun prev => prev ≠ p

/-- What `registerOnce` does. -/
def register (p : Nat) (hash : Bytes) : Hub :=
  { h.update p fun peer => { peer with peerHash := hash } with
    peers := h.peers.insert (peerKey hash) p
    rooms :=
      match h.replaced p hash with
      | none => h.rooms
      | some old => h.rooms.removeAll (h.records old).rooms.keys (peerKey hash) }

def unindexNickLocked (u : Unicode) (id : Bytes) (nick : Text) : Hub :=
  if u.fold nick = [] then h else { h with nickIndex := h.nickIndex.remove (u.fold nick) id }

def reindexNick (u : Unicode) (id : Bytes) (oldNick newNick : Text) : Hub :=
  let h := h.unindexNickLocked u id oldNick
  if u.fold newNick = [] then h else { h with nickIndex := h.nickIndex.add (u.fold newNick) id }

/-- The section of `dropPeerIf` for a current record. -/
def drop (u : Unicode) (p : Nat) : Hub :=
  let peer := h.records p
  let h := h.unindexNickLocked u peer.key peer.nick
  { h.update p fun peer => { peer with rooms := ∅ } with
    peers := h.peers.erase peer.key
    rooms := h.rooms.removeAll peer.rooms.keys peer.key }

/-- A room enters the record's own list and the record's key the room's members. -/
def join (p : Nat) (room : Text) : Hub :=
  { h.update p fun peer => { peer with rooms := peer.rooms.insert room () } with
    rooms := h.rooms.add room (h.records p).key }

/-- A room leaves the record's own list and a key the room's members. -/
def leave (p : Nat) (key : Bytes) (room : Text) : Hub :=
  { h.update p fun peer => { peer with rooms := peer.rooms.erase room } with rooms := h.rooms.remove room key }

def removeFromRoom (u : Unicode) (peer : Bytes) (room : Text) : Hub × Option HubError :=
  match h.peers.lookup (peerKey peer) with
  | none => (h, some .sessionClosed)
  | some p =>
    if u.normalizeRoom room ∈ (h.records p).rooms then (h.leave p (peerKey peer) (u.normalizeRoom room), none)
    else (h, some .notMember)

def roomPeersLocked (room : Text) (exceptKey : Bytes) (visit : Visit) : List Nat :=
  (visit.run (h.rooms.members room).keys).filterMap fun pk =>
    if pk = exceptKey then none else (h.peers.lookup pk).filter fun q => (h.records q).active

/-- The members of a room that `onRoomContent` relays to, the sender among them. -/
def audience (room : Text) (visit : Visit) : List Nat :=
  (visit.run (h.rooms.members room).keys).filterMap fun pk =>
    (h.peers.lookup pk).filter fun q => (h.records q).active

/-- The identity hashes of the registered ones among some keys. -/
def hashes (keys : List Bytes) : List Bytes :=
  keys.filterMap fun id => (h.peers.lookup id).map fun p => (h.records p).peerHash

def lookupNick (u : Unicode) (nick : Text) (visit : Visit) : List Bytes :=
  h.hashes (visit.run (h.nickIndex.members (u.fold nick)).keys)

end Hub
end ReticulumProtocols.Rrc
