import ReticulumProtocols.Rrc.Effects

/-! What a daemon asks of the hub beside the traffic of the links: queries, broadcasts and disconnects. -/

namespace ReticulumProtocols.Rrc
open Wire Lxmf Index Cbor AList

structure PeerInfo where
  hash : Bytes
  nick : Text

def HubConfig.applyRuntime (c : HubConfig) (name version : Text) (includeMembers enableRes : Bool) (maxRes : Nat)
    (limits : HubLimits) : HubConfig :=
  { c with
    name := if name = [] then c.name else name
    version := if version = [] then c.version else version
    includeMemberList := includeMembers
    enableResourceTransfer := enableRes
    maxResourceBytes := if 0 < maxRes then maxRes else c.maxResourceBytes
    limits }

namespace Hub
variable (c : HubConfig) (a : Answer) (h : Hub)

def isMember (u : Unicode) (peer : Bytes) (room : Text) : Bool :=
  (h.peers.lookup (peerKey peer)).any fun p => u.normalizeRoom room ∈ (h.records p).rooms

/-- `Nick`. -/
def nickOf (peer : Bytes) : Text := ((h.peers.lookup (peerKey peer)).map fun p => (h.records p).nick).getD []

/-- The registered ones among some keys, with their nicknames. -/
def infos (keys : List Bytes) : List PeerInfo :=
  keys.filterMap fun pk => (h.peers.lookup pk).map fun p => { hash := (h.records p).peerHash, nick := (h.records p).nick }

def roomMemberInfo (u : Unicode) (room : Text) (visit : Visit) : List PeerInfo :=
  h.infos (visit.run (h.rooms.members (u.normalizeRoom room)).keys)

def lookupHashPrefix (start : Bytes) (visit : Visit) : List Bytes :=
  if start = [] then [] else h.hashes ((visit.run h.peers.keys).filter fun id => start <+: id)

def allPeers (visit : Visit) : List PeerInfo := h.infos (visit.run h.peers.keys)

def peerLink (peer : Bytes) : Option Nat := h.peers.lookup (peerKey peer)

def occupiedRooms : List Text := h.rooms.keys.filter fun name => (h.rooms.members name).keys ≠ []

/-- `BroadcastNotice`; the peer with the zero key is left out. -/
def broadcastNotice (room text : Text) : List Outgoing :=
  let room := c.unicode.normalizeRoom room
  (h.roomPeersLocked room (List.replicate identityLength 0) a.visit).map fun link =>
    { link, env := typedEnvelope c a 0 .notice room (some (.text text)) [] }

/-- `Disconnect`: the session is closed and dropped at once. -/
def disconnect (peer : Bytes) : Turn :=
  match h.peers.lookup (peerKey peer) with
  | none => { hub := h }
  | some q => if (h.records q).closed then { hub := h } else (h.close q).hub.dropPeerIf c a q

end Hub

/-- The task of link `p` takes a key out of a room: another link registers the key, it parts, or it is dropped. -/
def Task.Unseats (u : Unicode) (h : Hub) (p : Nat) (key : Bytes) (room : Text) : Task → Prop
  | .register hash => (h.records p).ready = false ∧ peerKey hash = key
  | .onPart name => (h.records p).key = key ∧ u.normalizeRoom name = room
  | .dropPeerIf q => h.Current q ∧ (h.records q).key = key
  | _ => False

instance (u : Unicode) (h : Hub) (p : Nat) (key : Bytes) (room : Text) (task : Task) :
    Decidable (task.Unseats u h p key room) := by
  unfold Task.Unseats
  split
  all_goals infer_instance

namespace Hub
variable {c : HubConfig} {h h' : Hub} {p q : Nat} {task : Task} {key : Bytes} {room : Text}

theorem isMember_iff {u : Unicode} {peer : Bytes} :
    h.isMember u peer room = true ↔ h.Lists (peerKey peer) (u.normalizeRoom room) := by
  unfold isMember Lists
  rw [Option.any_eq_true]
  simp only [decide_eq_true_eq]

theorem Effect.hash_of_ready (effect : Effect c h p task h') (ready : (h.records q).ready = true) :
    (h'.records q).peerHash = (h.records q).peerHash := by
  apply (effect.hash q).resolve_right
  rintro ⟨same, first, _⟩
  rw [← same, ready] at first
  cases first

/-- A key stays in its rooms unless a task takes it out. -/
theorem Effect.lists (effect : Effect c h p task h') (keyed : h.Keyed) (lists : h.Lists key room)
    (stays : ¬ task.Unseats c.unicode h p key room) : h'.Lists key room := by
  obtain ⟨q, found, listed⟩ := lists
  have own := (keyed key q found).2
  cases effect with
  | same same =>
    refine ⟨q, same.peers ▸ found, ?_⟩
    rw [same.listed]
    exact listed
  | @register hash valid first =>
    have other : key ≠ peerKey hash := fun same => stays ⟨first, same.symm⟩
    refine ⟨q, ?_, ?_⟩
    · rw [lookup_register, if_neg other]
      exact found
    · rw [records_register, update_field HubPeer.rooms (by intro; rfl)]
      exact listed
  | setNick =>
    refine ⟨q, found, ?_⟩
    rw [update_field HubPeer.rooms (by intro; rfl)]
    exact listed
  | reindexNick =>
    rw [reindexNick_eq]
    exact ⟨q, found, listed⟩
  | join =>
    refine ⟨q, found, ?_⟩
    rw [records_join]
    rcases eq_or_ne q p with rfl | other
    · rw [records_update]
      exact (mem_insert _).2 (.inr listed)
    · rw [records_update_ne other]
      exact listed
  | @part name _ =>
    refine ⟨q, found, ?_⟩
    rw [records_leave]
    rcases eq_or_ne q p with rfl | other
    · rw [records_update]
      exact mem_erase.2 ⟨fun same => stays ⟨own, same.symm⟩, listed⟩
    · rw [records_update_ne other]
      exact listed
  | @drop r current =>
    have other : key ≠ (h.records r).key := fun same => stays ⟨current, same.symm⟩
    have apart : q ≠ r := by
      rintro rfl
      exact other own.symm
    refine ⟨q, ?_, ?_⟩
    · rw [peers_drop, lookup_erase_ne other]
      exact found
    · rw [records_drop, records_update_ne apart]
      exact listed

/-- `Disconnect` is nothing, or closes and drops the record of the identity. -/
theorem disconnect_cases (c : HubConfig) (a : Answer) (h : Hub) (peer : Bytes) :
    (h.disconnect c a peer).hub = h ∨ ∃ q h₁, h.peers.lookup (peerKey peer) = some q ∧
      Effect c h q (.close q) h₁ ∧ Effect c h₁ q (.dropPeerIf q) (h.disconnect c a peer).hub := by
  unfold disconnect
  split
  next => exact .inl rfl
  next q found =>
    split
    next => exact .inl rfl
    next => exact .inr ⟨q, (h.close q).hub, found, Task.effect c a h q (.close q), Task.effect c a _ q (.dropPeerIf q)⟩

theorem hash_disconnect {a : Answer} {peer : Bytes} (ready : (h.records q).ready = true) :
    ((h.disconnect c a peer).hub.records q).peerHash = (h.records q).peerHash := by
  rcases disconnect_cases c a h peer with same | ⟨_, _, _, closes, drops⟩
  · rw [same]
  · exact (drops.hash_of_ready (closes.ready ready)).trans (closes.hash_of_ready ready)

end Hub

namespace HubMachine
variable {m : HubMachine}

theorem Sane.disconnect (sane : m.Sane) (c : HubConfig) (a : Answer) (peer : Bytes) :
    Sane { m with hub := (m.hub.disconnect c a peer).hub } := by
  rcases Hub.disconnect_cases c a m.hub peer with same | ⟨q, h₁, found, closes, drops⟩
  · rw [same]
    exact sane
  · have ready := (sane.keyed _ q found).1
    have known := sane.young q ready
    have closed := sane.effect known (fun _ => ready) closes
    exact closed.effect (closes.links ▸ known) (fun _ => closes.ready ready) drops

end HubMachine

end ReticulumProtocols.Rrc
