import ReticulumProtocols.Rrc.Effects

/-! The member sets of the hub's rooms against the rooms its peers list. A record that was replaced or dropped keeps
serving the envelopes of its link; a JOIN or PART through it changes the members under the identity's key but the
rooms of a record that the hub no longer has. Where this does not happen, the two sides agree in every run. -/

namespace ReticulumProtocols.Rrc
open Wire Lxmf Index Concurrency AList

namespace Hub

/-- The members of each room are the keys whose record lists it, no room is kept empty, and no record lists too many
rooms. -/
structure Membership (limit : Nat) (h : Hub) : Prop where
  member : ∀ key room, h.rooms.Holds room key ↔ h.Lists key room
  occupied : h.rooms.Occupied
  limited : ∀ p, (h.records p).rooms.keys.length ≤ limit

/-- A JOIN or PART on link `p` is served by the hub's own record of the identity, or has nothing to change: a JOIN of
a room that the link or the hub's own record lists already or that the link has no space for, a PART from a room that
the link does not list or the hub's own record does not. -/
def ServedByCurrent (c : HubConfig) (h : Hub) (p : Nat) : Task → Prop
  | .join room =>
    h.Current p ∨ room ∈ (h.records p).rooms ∨ c.limits.maxRoomsPerSession ≤ (h.records p).rooms.keys.length ∨
      h.Lists (h.records p).key room
  | .onPart name =>
    h.Current p ∨ c.unicode.normalizeRoom name ∉ (h.records p).rooms ∨
      ¬ h.Lists (h.records p).key (c.unicode.normalizeRoom name)
  | _ => True

instance (c : HubConfig) (h : Hub) (p : Nat) (task : Task) : Decidable (h.ServedByCurrent c p task) := by
  apply @Task.casesOn _ task
  all_goals
    intros
    dsimp only [ServedByCurrent]
    infer_instance

variable {c : HubConfig} {h h' : Hub} {limit p : Nat} {key : Bytes} {room r : Text}

theorem Keyed.ne_of_not_current (keyed : h.Keyed) (stale : ¬ h.Current p) {q : Nat}
    (found : h.peers.lookup key = some q) : q ≠ p := by
  intro same
  exact stale (same ▸ keyed.current found)

theorem lists_congr (h h' : Hub) (peers : h'.peers = h.peers) (same : ∀ q, h.peers.lookup key = some q →
    (r ∈ (h'.records q).rooms ↔ r ∈ (h.records q).rooms)) : h'.Lists key r ↔ h.Lists key r := by
  unfold Lists
  rw [peers]
  exact exists_congr fun q => and_congr_right (same q)

theorem lists_iff_of_lookup (found : h.peers.lookup key = some p) : h.Lists key r ↔ r ∈ (h.records p).rooms := by
  unfold Lists
  rw [found]
  simp

theorem Same.membership (same : h.Same h') (members : h.Membership limit) : h'.Membership limit := by
  constructor
  case member =>
    intro key room
    rw [same.rooms, members.member]
    exact (lists_congr h h' same.peers fun q _ => by rw [same.listed]).symm
  case occupied => exact same.rooms ▸ members.occupied
  case limited =>
    intro p
    rw [same.listed]
    exact members.limited p

theorem lists_join (keyed : h.Keyed) (current : h.Current p) :
    (h.join p room).Lists key r ↔ (r = room ∧ key = (h.records p).key) ∨ h.Lists key r := by
  rcases eq_or_ne key (h.records p).key with same | other
  · have found : h.peers.lookup key = some p := same ▸ current
    rw [lists_iff_of_lookup (h := h) found, lists_iff_of_lookup (h := h.join p room) found, records_join,
      records_update]
    simp [same, mem_insert]
  · rw [lists_congr h (h.join p room) rfl]
    · simp [other]
    · intro q found
      have apart : q ≠ p := by
        intro same
        exact other (same ▸ (keyed key q found).2.symm)
      rw [records_join, records_update_ne apart]

theorem Membership.join (members : h.Membership limit) (keyed : h.Keyed)
    (space : (h.records p).rooms.keys.length < limit)
    (served : h.Current p ∨ h.Lists (h.records p).key room) : (h.join p room).Membership limit := by
  constructor
  case member =>
    intro key r
    change (h.rooms.add room (h.records p).key).Holds r key ↔ _
    rw [SetIndex.holds_add, members.member]
    by_cases current : h.Current p
    · exact (lists_join keyed current).symm
    · have listed := served.resolve_left current
      rw [lists_congr h (h.join p room) rfl]
      · apply or_iff_right_of_imp
        intro ⟨sameRoom, sameKey⟩
        rw [sameRoom, sameKey]
        exact listed
      · intro q found
        rw [records_join, records_update_ne (keyed.ne_of_not_current current found)]
  case occupied => exact SetIndex.occupied_add members.occupied room _
  case limited =>
    intro q
    rw [records_join]
    rcases eq_or_ne q p with same | other
    · rw [same, records_update]
      exact (length_insert_le _ room ()).trans space
    · rw [records_update_ne other]
      exact members.limited q

theorem lists_leave (keyed : h.Keyed) (current : h.Current p) :
    (h.leave p (h.records p).key room).Lists key r ↔
      h.Lists key r ∧ ¬ (r = room ∧ key = (h.records p).key) := by
  rcases eq_or_ne key (h.records p).key with same | other
  · have found : h.peers.lookup key = some p := same ▸ current
    rw [lists_iff_of_lookup (h := h) found, lists_iff_of_lookup (h := h.leave p (h.records p).key room) found,
      records_leave, records_update]
    simp [same, mem_erase, and_comm]
  · rw [lists_congr h (h.leave p (h.records p).key room) rfl]
    · simp [other]
    · intro q found
      have apart : q ≠ p := by
        intro same
        exact other (same ▸ (keyed key q found).2.symm)
      rw [records_leave, records_update_ne apart]

theorem Membership.leave (members : h.Membership limit) (keyed : h.Keyed)
    (served : h.Current p ∨ ¬ h.Lists (h.records p).key room) :
    (h.leave p (h.records p).key room).Membership limit := by
  constructor
  case member =>
    intro key r
    change (h.rooms.remove room (h.records p).key).Holds r key ↔ _
    rw [SetIndex.holds_remove, members.member]
    by_cases current : h.Current p
    · exact (lists_leave keyed current).symm
    · have unlisted := served.resolve_left current
      rw [lists_congr h (h.leave p (h.records p).key room) rfl]
      · apply and_iff_left_of_imp
        intro listed ⟨sameRoom, sameKey⟩
        exact unlisted (sameRoom ▸ sameKey ▸ listed)
      · intro q found
        rw [records_leave, records_update_ne (keyed.ne_of_not_current current found)]
  case occupied => exact SetIndex.occupied_remove members.occupied room _
  case limited =>
    intro q
    rw [records_leave]
    rcases eq_or_ne q p with same | other
    · rw [same, records_update]
      exact (length_erase_le _ room).trans (members.limited p)
    · rw [records_update_ne other]
      exact members.limited q

/-- The rooms that a replaced or dropped record lists are those its key is a member of. -/
theorem Membership.holds_removeAll (members : h.Membership limit) (found : h.peers.lookup key = some p) {k : Bytes} :
    (h.rooms.removeAll (h.records p).rooms.keys key).Holds r k ↔ k ≠ key ∧ h.Lists k r := by
  rw [SetIndex.holds_removeAll, members.member, ← mem_keys]
  rcases eq_or_ne k key with same | other
  · rw [same, lists_iff_of_lookup found]
    simp
  · simp [other]

theorem lists_register {hash : Bytes} (blank : (h.records p).Blank) : (h.register p hash).Lists key r ↔ key ≠ peerKey hash ∧ h.Lists key r := by
  unfold Lists
  rw [lookup_register, records_register]
  split
  next same =>
    simp only [same, ne_eq, not_true_eq_false, false_and, iff_false]
    rintro ⟨q, self, listed⟩
    cases self
    rw [records_update, blank.1] at listed
    exact notMem_empty r listed
  next other =>
    rw [and_iff_right other]
    refine exists_congr fun q => and_congr_right fun found => ?_
    rw [update_field HubPeer.rooms (by intro; rfl) q]

/-- The record that a registration replaces is another one, since the hub has no record of an unregistered link. -/
theorem Keyed.replaced (keyed : h.Keyed) {hash : Bytes} (first : (h.records p).ready = false) :
    h.replaced p hash = h.peers.lookup (peerKey hash) := by
  unfold Hub.replaced
  cases found : h.peers.lookup (peerKey hash) with
  | none => rfl
  | some old =>
    have ready := (keyed _ old found).1
    have other : old ≠ p := by
      intro same
      rw [same, first] at ready
      cases ready
    simp [other]

theorem Membership.register (members : h.Membership limit) (keyed : h.Keyed) {hash : Bytes}
    (first : (h.records p).ready = false) (blank : (h.records p).Blank) : (h.register p hash).Membership limit := by
  constructor
  case member =>
    intro key r
    rw [lists_register blank]
    unfold Hub.register
    dsimp only
    rw [keyed.replaced first]
    split
    next absent =>
      rw [members.member]
      symm
      apply and_iff_right_of_imp
      rintro ⟨q, found, _⟩ same
      rw [same, absent] at found
      cases found
    next old found => exact members.holds_removeAll found
  case occupied =>
    unfold Hub.register
    dsimp only
    split
    next => exact members.occupied
    next => exact SetIndex.occupied_removeAll members.occupied _ _
  case limited =>
    intro q
    rw [records_register]
    exact (congrArg (fun rooms : GoMap Text Unit => rooms.keys.length)
      (update_field HubPeer.rooms (by intro; rfl) q)).le.trans (members.limited q)

theorem rooms_drop (u : Unicode) :
    (h.drop u p).rooms = h.rooms.removeAll (h.records p).rooms.keys (h.records p).key := by
  unfold drop
  dsimp only
  rw [unindexNickLocked_eq]

theorem Membership.drop (members : h.Membership limit) (keyed : h.Keyed) (current : h.Current p) (u : Unicode) :
    (h.drop u p).Membership limit := by
  constructor
  case member =>
    intro key r
    rw [rooms_drop, members.holds_removeAll current]
    unfold Lists
    constructor
    · rintro ⟨other, q, found, listed⟩
      refine ⟨q, ?_, ?_⟩
      · rw [peers_drop, lookup_erase_ne other]
        exact found
      · have apart : q ≠ p := fun same => other (same ▸ (keyed key q found).2.symm)
        rw [records_drop, records_update_ne apart]
        exact listed
    · rintro ⟨q, found, listed⟩
      obtain ⟨other, before⟩ := lookup_drop found
      have apart : q ≠ p := fun same => other (same ▸ (keyed key q before).2.symm)
      rw [records_drop, records_update_ne apart] at listed
      exact ⟨other, q, before, listed⟩
  case occupied =>
    rw [rooms_drop]
    exact SetIndex.occupied_removeAll members.occupied _ _
  case limited =>
    intro q
    rw [records_drop]
    rcases eq_or_ne q p with same | other
    · rw [same, records_update]
      exact Nat.zero_le limit
    · rw [records_update_ne other]
      exact members.limited q

theorem Membership.effect (members : h.Membership c.limits.maxRoomsPerSession) (keyed : h.Keyed) {task : Task}
    (blank : (h.records p).ready = false → (h.records p).Blank) (effect : Effect c h p task h')
    (served : h.ServedByCurrent c p task) : h'.Membership c.limits.maxRoomsPerSession := by
  cases effect with
  | same same => exact same.membership members
  | register _ first => exact members.register keyed first (blank first)
  | setNick =>
    constructor
    case member =>
      intro key r
      refine (members.member key r).trans (lists_congr h _ ?_ fun q _ => ?_).symm
      · rfl
      · rw [update_field HubPeer.rooms (by intro; rfl) q]
    case occupied => exact members.occupied
    case limited =>
      intro q
      exact (congrArg (fun rooms : GoMap Text Unit => rooms.keys.length)
        (update_field HubPeer.rooms (by intro; rfl) q)).le.trans (members.limited q)
  | reindexNick =>
    rw [reindexNick_eq]
    exact ⟨members.member, members.occupied, members.limited⟩
  | join absent space =>
    apply members.join keyed space
    rcases served with current | listed | full | elsewhere
    · exact Or.inl current
    · exact absurd listed absent
    · exact absurd full space.not_ge
    · exact Or.inr elsewhere
  | part listed =>
    apply members.leave keyed
    rcases served with current | absent | elsewhere
    · exact Or.inl current
    · exact absurd listed absent
    · exact Or.inr elsewhere
  | drop current => exact members.drop keyed current c.unicode

end Hub

namespace HubMachine
variable {c : HubConfig} {m m' : HubMachine} {event : HubEvent}

/-- Every JOIN and PART of the event is served by the hub's own record. -/
def ServedByCurrent (c : HubConfig) (m : HubMachine) (event : HubEvent) : Prop :=
  m.OnTask (fun thread task => m.hub.ServedByCurrent c thread.link task) event

instance (c : HubConfig) (m : HubMachine) (event : HubEvent) : Decidable (m.ServedByCurrent c event) := by
  unfold ServedByCurrent
  infer_instance

theorem membership_accept {limit : Nat} (sane : m.Sane) (members : m.hub.Membership limit) (rate : Nat) (now : Int) :
    (m.hub.acceptLink rate now).Membership limit := by
  constructor
  case member =>
    intro key r
    refine (members.member key r).trans (Hub.lists_congr m.hub (m.hub.acceptLink rate now) rfl fun q found => ?_).symm
    rw [Hub.records_acceptLink_ne (sane.young q (sane.keyed key q found).1).ne]
  case occupied => exact members.occupied
  case limited =>
    intro q
    rcases eq_or_ne q m.hub.links with same | other
    · rw [same, Hub.records_acceptLink]
      exact Nat.zero_le limit
    · rw [Hub.records_acceptLink_ne other]
      exact members.limited q

theorem membership_step (sane : m.Sane) (members : m.hub.Membership c.limits.maxRoomsPerSession)
    (served : m.ServedByCurrent c event) (stepped : Stepped c m event m') :
    m'.hub.Membership c.limits.maxRoomsPerSession := by
  cases stepped with
  | accept now => exact membership_accept sane members _ now
  | spawn => exact members
  | removeFromRoom found _ =>
    dsimp only
    rw [← (sane.keyed _ _ found).2]
    exact members.leave sane.keyed (Or.inl (sane.keyed.current found))
  | refused => exact members
  | advance next =>
    exact members.effect sane.keyed (sane.blank _) (Task.effect c _ m.hub _ _) (served _ _ next)

theorem membership_of_run {events : List HubEvent} (ran : ({} : HubMachine).run c events = some m)
    (served : Along (HubMachine.step c) (HubMachine.ServedByCurrent c) {} events) :
    m.hub.Membership c.limits.maxRoomsPerSession := by
  have start : ({} : HubMachine).Sane ∧ Hub.Membership c.limits.maxRoomsPerSession {} := by
    refine ⟨.start, fun key room => ?_, SetIndex.occupied_empty, fun p => Nat.zero_le _⟩
    apply iff_of_false (SetIndex.not_holds_empty room key)
    rintro ⟨p, found, _⟩
    cases found
  have kept : ∀ (m : HubMachine) (event : HubEvent) (m' : HubMachine),
      m.Sane ∧ m.hub.Membership c.limits.maxRoomsPerSession → m.ServedByCurrent c event → m.step c event = some m' →
        m'.Sane ∧ m'.hub.Membership c.limits.maxRoomsPerSession := by
    intro m event m' ⟨sane, members⟩ served stepped
    have stepped := HubMachine.stepped_of_step stepped
    exact ⟨sane.step stepped, HubMachine.membership_step sane members served stepped⟩
  exact (invariant_runEvents kept start served ran).2

end HubMachine

/-- In every run in which JOIN and PART are served by the hub's own record of the identity, members and listed rooms
agree in the state that is reached, and so in every state on the way. -/
theorem membership_twoWay (c : HubConfig) (events : List HubEvent) (m : HubMachine)
    (ran : ({} : HubMachine).run c events = some m)
    (served : Along (HubMachine.step c) (HubMachine.ServedByCurrent c) {} events) :
    m.hub.Membership c.limits.maxRoomsPerSession :=
  HubMachine.membership_of_run ran served

/-- A peer joins a room, then a second link of its identity joins another one. -/
def rejoin : List HubEvent :=
  opened 0 3 someHash ++ handled 1 6 0 (inbound .hello) ++
    handled 2 6 0 { inbound .join with room := some ['a'] } ++ opened 3 5 someHash ++
    handled 4 6 1 (inbound .hello) ++ handled 5 6 1 { inbound .join with room := some ['b'] }

theorem membership_twoWay_rejoin : ∃ m, ({} : HubMachine).run asciiHub rejoin = some m ∧
    m.hub.Lists someHash ['b'] ∧ m.hub.Membership asciiHub.limits.maxRoomsPerSession := by
  have reached : (({} : HubMachine).run asciiHub rejoin).any (fun m => m.hub.Lists someHash ['b']) = true := by
    decide +kernel
  obtain ⟨m, ran, listed⟩ := (Option.any_eq_true _ _).1 reached
  have served : Along (HubMachine.step asciiHub) (HubMachine.ServedByCurrent asciiHub) {} rejoin := by
    decide +kernel
  exact ⟨m, ran, of_decide_eq_true listed, membership_twoWay asciiHub rejoin m ran served⟩

/-- A JOIN on the first link, after a second one of the same identity has replaced and closed it. -/
def staleJoin : List HubEvent :=
  opened 0 3 someHash ++ handled 1 6 0 (inbound .hello) ++ opened 2 5 someHash ++
    handled 3 6 0 { inbound .join with room := some ['a'] }

theorem staleJoin_not_twoWay : ∃ m, ({} : HubMachine).run asciiHub staleJoin = some m ∧
    m.hub.rooms.Holds ['a'] someHash ∧ ¬ m.hub.Lists someHash ['a'] := by
  have reached : (({} : HubMachine).run asciiHub staleJoin).any (fun m =>
      m.hub.rooms.Holds ['a'] someHash ∧ ¬ m.hub.Lists someHash ['a']) = true := by
    decide +kernel
  obtain ⟨m, ran, stale⟩ := (Option.any_eq_true _ _).1 reached
  exact ⟨m, ran, of_decide_eq_true stale⟩

end ReticulumProtocols.Rrc
