import ReticulumProtocols.Rrc.Client
import ReticulumProtocols.Rrc.Membership

/-! Agreement of a client with the hub on the rooms of the client. The client learns of its own membership from the
JOINED and PARTED that also tell of others, so it can lose track; in the runs where each of these means to it what the
hub meant by it, it knows its rooms whenever nothing is under way. -/

namespace ReticulumProtocols.Rrc
open Wire Lxmf Index Cbor Concurrency List AList

/-- The task is one that the hub makes: it joins under a normalised name and relays content only. -/
def Task.Proper (u : Unicode) : Task → Prop
  | .join room => u.normalizeRoom room = room
  | .onRoomContent env => env.Content
  | _ => True

namespace Hub
variable {c : HubConfig} {a : Answer} {h : Hub} {p : Nat} {env : Envelope} {task : Task}

theorem next_dispatchContent (listed : task ∈ (dispatchContent c a h p env).next) : task = .onRoomContent env := by
  unfold dispatchContent at listed
  repeat' split at listed
  all_goals first | exact mem_singleton.1 listed | cases listed

theorem next_onJoin (listed : task ∈ (onJoin c a h p env).next) :
    task = .join (c.unicode.normalizeRoom (env.room.getD [])) := by
  unfold onJoin at listed
  dsimp only at listed
  repeat' split at listed
  all_goals first | exact mem_singleton.1 listed | cases listed

theorem proper_serve (lawful : c.unicode.Lawful) {active : Bool} (listed : task ∈ (h.serve c a p env active).next) :
    task.Proper c.unicode := by
  have content (content : env.Content) (listed : task ∈ (dispatchContent c a h p env).next) :
      task.Proper c.unicode := by
    rw [next_dispatchContent listed]
    exact content
  unfold serve at listed
  split at listed
  next => cases listed
  next =>
    split at listed
    next =>
      split at listed
      next =>
        rw [mem_singleton.1 listed]
        trivial
      next => cases listed
    next =>
      split at listed
      next =>
        rcases mem_append.1 listed with parts | rest
        · obtain ⟨name, _, rfl⟩ := mem_map.1 parts
          trivial
        · simp only [mem_cons, not_mem_nil, or_false] at rest
          rcases rest with rfl | rfl
          · trivial
          · trivial
      next =>
        rw [next_onJoin listed]
        exact lawful.normalizeRoom _
      next =>
        rw [mem_singleton.1 listed]
        trivial
      next type =>
        split at listed
        next => cases listed
        next =>
          split at listed
          next =>
            rw [mem_singleton.1 listed]
            trivial
          next => exact content (.inr (.inr type)) listed
      next type =>
        split at listed
        next => cases listed
        next => exact content (.inl type) listed
      next type => exact content (.inr (.inl type)) listed
      all_goals cases listed

end Hub

theorem Task.proper_next {c : HubConfig} {a : Answer} {h : Hub} {p : Nat} {task t : Task}
    (lawful : c.unicode.Lawful) (listed : t ∈ (task.run c a h p).next) : t.Proper c.unicode := by
  cases task with
  | serve env active => exact Hub.proper_serve lawful listed
  | remote =>
    obtain ⟨hash, _, rfl⟩ := Option.map_eq_some_iff.1 (Option.mem_toList.1 listed)
    trivial
  | register hash =>
    simp only [Task.run, Hub.registerTurn] at listed
    repeat' split at listed
    · cases listed
    · rw [mem_singleton.1 listed]
      trivial
    · rcases mem_append.1 listed with old | own
      · obtain ⟨q, _, rfl⟩ := mem_map.1 old
        trivial
      · rw [mem_singleton.1 own]
        trivial
  | takePending =>
    simp only [Task.run, Hub.takePending] at listed
    split at listed
    · obtain ⟨env, _, rfl⟩ := mem_map.1 listed
      trivial
    · cases listed
  | applyInboundNick nick env active =>
    simp only [Task.run, Hub.applyInboundNick] at listed
    repeat' split at listed
    all_goals simp only [mem_cons, not_mem_nil, or_false] at listed
    all_goals rcases listed with rfl | rfl <;> trivial
  | identify | receive | handlePeer | greet | setNick | reindexNick | onHello | deactivate | join | onPart | onRoomContent
  | onDirectNotice | close | dropPeerIf =>
    simp only [Task.run, Hub.identify, Hub.receive, Hub.handlePeer, Hub.greet, Hub.setNick, Hub.onHello, Hub.joinTurn,
      Hub.onPart, Hub.close, Hub.dropPeerIf] at listed
    repeat' split at listed
    all_goals first | cases listed; done | (rw [mem_singleton.1 listed]; trivial)

theorem type_envelopeFrom {type : EnvelopeType} {sender msgID : Bytes} {timestamp : UInt64} {env : Envelope}
    (made : envelopeFrom type sender msgID timestamp = .ok env) : env.type = type := by
  unfold envelopeFrom at made
  repeat' split at made
  all_goals cases made
  rfl

/-- Only a JOIN makes the hub send a JOINED. -/
theorem Task.joins_of_sent {c : HubConfig} {a : Answer} {h : Hub} {p : Nat} {task : Task} {out : Outgoing}
    (proper : task.Proper c.unicode) (sent : out ∈ (task.run c a h p).sent) (joined : out.env.type = .joined) :
    ∃ room, task = .join room := by
  have error : ∀ message, out ≠ replyError c a p message := by
    rintro message rfl
    cases joined
  cases task with
  | join room => exact ⟨room, rfl⟩
  | serve env active =>
    simp only [Task.run, Hub.serve, Hub.onJoin, Hub.dispatchContent, Hub.onResourceEnvelope, Hub.onPing] at sent
    repeat' split at sent
    all_goals first
      | cases sent; done
      | exact absurd (mem_singleton.1 sent) (error _)
      | (rw [mem_singleton.1 sent] at joined; cases joined)
      | (obtain ⟨message, _, made⟩ := Option.map_eq_some_iff.1 (Option.mem_toList.1 sent)
         exact absurd made.symm (error message))
  | onPart name =>
    simp only [Task.run, Hub.onPart] at sent
    split at sent
    · cases sent
    · rcases mem_append.1 sent with others | own
      · obtain ⟨link, _, rfl⟩ := mem_map.1 others
        cases joined
      · rw [mem_singleton.1 own] at joined
        cases joined
  | onRoomContent env =>
    simp only [Task.run, Hub.onRoomContent] at sent
    repeat' split at sent
    · exact absurd (mem_singleton.1 sent) (error _)
    · exact absurd (mem_singleton.1 sent) (error _)
    · exact absurd (mem_singleton.1 sent) (error _)
    · cases sent
    · rename_i fwd made
      obtain ⟨link, _, rfl⟩ := mem_map.1 sent
      have type : env.type = .joined := (type_envelopeFrom made).symm.trans joined
      rcases proper with chat | chat | chat
      all_goals cases chat.symm.trans type
  | onDirectNotice env =>
    simp only [Task.run, Hub.onDirectNotice] at sent
    repeat' split at sent
    · exact absurd (mem_singleton.1 sent) (error _)
    · exact absurd (mem_singleton.1 sent) (error _)
    · exact absurd (mem_singleton.1 sent) (error _)
    · exact absurd (mem_singleton.1 sent) (error _)
    · cases sent
    · rename_i fwd made
      rw [mem_singleton.1 sent] at joined
      cases (type_envelopeFrom made).symm.trans joined
  | dropPeerIf q =>
    simp only [Task.run, Hub.dropPeerIf] at sent
    split at sent
    · cases sent
    · obtain ⟨⟨room, i⟩, _, others⟩ := mem_flatMap.1 sent
      obtain ⟨link, _, rfl⟩ := mem_map.1 others
      cases joined
  | remote | register | identify | takePending | receive | handlePeer | greet | applyInboundNick | setNick | reindexNick
  | onHello | deactivate | close =>
    simp only [Task.run, Hub.registerTurn, Hub.identify, Hub.takePending, Hub.receive, Hub.handlePeer, Hub.greet,
      Hub.applyInboundNick, Hub.setNick, Hub.onHello, Hub.close] at sent
    repeat' split at sent
    all_goals first
      | cases sent; done
      | exact absurd (mem_singleton.1 sent) (error _)
      | (rw [mem_singleton.1 sent] at joined; cases joined)

/-- What a packet tells the client of its own membership, if it is taken for what it is. -/
def Packet.notice (u : Unicode) (packet : Packet) : Option (Notice Text) :=
  let room := u.normalizeRoom (packet.env.room.getD [])
  match packet.env.type with
  | .joined => some (.present room)
  | .parted => if packet.own then some (.absent room) else none
  | _ => none

def Waiting.notice (u : Unicode) (p : Nat) (w : Waiting) : Option (Notice Text) :=
  if w.link = p then w.packet.notice u else none

/-- The room whose membership a task of the client's link changes. -/
def Task.touched (u : Unicode) : Task → Option Text
  | .join room => some room
  | .onPart name => some (u.normalizeRoom name)
  | _ => none

namespace Hub
variable {own : Bool} {u : Unicode}

/-- What a task of link `q` makes of the rooms of link `p` and what it tells of them. -/
inductive Tells (u : Unicode) (q p : Nat) (task : Task) (before after : GoMap Text Unit) : List (Notice Text) → Prop where
  | members {told : List (Notice Text)} (same : ∀ r, r ∈ after ↔ r ∈ before)
      (members : ∀ n ∈ told, ∃ r ∈ before, n = .present r) : Tells u q p task before after told
  | enters {room : Text} (own : q = p) (touched : task.touched u = some room)
      (entered : ∀ r, r ∈ after ↔ r = room ∨ r ∈ before) : Tells u q p task before after [.present room]
  | leaves {room : Text} (own : q = p) (touched : task.touched u = some room)
      (left : ∀ r, r ∈ after ↔ r ∈ before ∧ r ≠ room) : Tells u q p task before after [.absent room]

variable {c : HubConfig} {a : Answer} {h h' : Hub} {p q : Nat} {task : Task}

def told (u : Unicode) (p i : Nat) (own : Bool) (sent : List Outgoing) : List (Notice Text) :=
  sent.filterMap fun out => Waiting.notice u p { thread := i, link := out.link, packet := { env := out.env, own } }

theorem mem_roomPeersLocked (keyed : h.Keyed) {room : Text} {exceptKey : Bytes} {visit : Visit}
    (member : p ∈ h.roomPeersLocked room exceptKey visit) :
    (h.records p).key ≠ exceptKey ∧ h.rooms.Holds room (h.records p).key := by
  obtain ⟨key, listed, found⟩ := mem_filterMap.1 member
  split at found
  · cases found
  · rename_i other
    rw [(keyed key p (Option.filter_eq_some_iff.1 found).1).2]
    exact ⟨other, mem_keys.2 ((visit.perm _).mem_iff.1 listed)⟩

theorem Effect.rooms (effect : Effect c h q task h') (quiet : q = p → task.touched c.unicode = none)
    (kept : task ≠ .dropPeerIf p) : (h'.records p).rooms = (h.records p).rooms := by
  cases effect with
  | same same => exact same.listed p
  | register =>
    rw [records_register]
    exact update_field HubPeer.rooms (by intro; rfl) p
  | setNick => exact update_field HubPeer.rooms (by intro; rfl) p
  | reindexNick => rw [reindexNick_eq]
  | join =>
    have other : p ≠ q := fun same => nomatch quiet same.symm
    rw [records_join, records_update_ne other]
  | part =>
    have other : p ≠ q := fun same => nomatch quiet same.symm
    rw [records_leave, records_update_ne other]
  | @drop r =>
    have other : p ≠ r := fun same => kept (same ▸ rfl)
    rw [records_drop, records_update_ne other]

theorem notice_joined (room : Text) (normal : c.unicode.normalizeRoom room = room) (k : Nat) (body : Option Value)
    (nick : Text) (own : Bool) :
    Packet.notice c.unicode { env := typedEnvelope c a k .joined room body nick, own } = some (.present room) := by
  have same : (if room = [] then none else some room).getD [] = room := by
    split
    next empty => exact empty.symm
    next => rfl
  simp only [Packet.notice, typedEnvelope, newEnvelope, same, normal]

theorem notice_parted (room : Text) (normal : c.unicode.normalizeRoom room = room) (k : Nat) (body : Option Value)
    (nick : Text) (own : Bool) :
    Packet.notice c.unicode { env := typedEnvelope c a k .parted room body nick, own } =
      if own then some (.absent room) else none := by
  have same : (if room = [] then none else some room).getD [] = room := by
    split
    next empty => exact empty.symm
    next => rfl
  simp only [Packet.notice, typedEnvelope, newEnvelope, same, normal]

/-- What is sent to others tells nothing to a link that is not among them. -/
theorem told_map_of_notMem {i : Nat} {links : List Nat} (other : p ∉ links) (env : Envelope) :
    told u p i own (links.map fun link => ⟨link, env⟩) = [] := by
  apply filterMap_eq_nil_iff.2
  intro out listed
  obtain ⟨link, member, rfl⟩ := mem_map.1 listed
  exact if_neg fun same : link = p => other (same ▸ member)

theorem told_append {i : Nat} (sent more : List Outgoing) :
    told u p i own (sent ++ more) = told u p i own sent ++ told u p i own more :=
  filterMap_append

theorem told_ne {i : Nat} (other : q ≠ p) (env : Envelope) : told u p i own [⟨q, env⟩] = [] := by
  simp [told, Waiting.notice, other]

theorem told_own {i : Nat} {env : Envelope} {n : Notice Text}
    (made : Packet.notice u { env, own } = some n) : told u p i own [⟨p, env⟩] = [n] := by
  simp [told, Waiting.notice, made]

variable {limit i : Nat}

/-- A link is not among the peers of a room that are told of its own doings. -/
theorem notMem_roomPeersLocked (keyed : h.Keyed) (room : Text) (visit : Visit) :
    p ∉ h.roomPeersLocked room (h.records p).key visit :=
  fun member => (mem_roomPeersLocked keyed member).1 rfl

theorem told_error (message : String) : told u p i own [replyError c a q message] = [] := by
  simp [told, Waiting.notice, Packet.notice, replyError, typedEnvelope, newEnvelope]

theorem Tells.silent {before after : GoMap Text Unit} {notices : List (Notice Text)}
    (same : after = before) (none : notices = []) : Tells u q p task before after notices :=
  .members (fun _ => by rw [same]) (fun n listed => by rw [none] at listed; cases listed)

theorem key_ite_join (room : Text) (r : Nat) :
    ((if room ∈ (h.records q).rooms then h else h.join q room).records r).key = (h.records r).key := by
  split
  next => rfl
  next =>
    unfold HubPeer.key
    rw [hash_join]

theorem tells_join {room : Text} (normal : c.unicode.normalizeRoom room = room) (keyed : h.Keyed)
    (current : h.Current p) (members : (h.joinTurn c a q room).hub.Membership limit) :
    Tells c.unicode q p (.join room) (h.records p).rooms ((h.joinTurn c a q room).hub.records p).rooms
      (told c.unicode p i false (h.joinTurn c a q room).sent) := by
  have keyed' := keyed.effect (effect_joinTurn (h := h) (p := q) c a room)
  rcases joinTurn_cases c a h q room with ⟨_, message, turn⟩ | ⟨h', body, made, turn⟩
  · rw [turn]
    exact .silent rfl (told_error message)
  rw [turn] at keyed' members ⊢
  dsimp only at keyed' members ⊢
  have key (r : Nat) : (h'.records r).key = (h.records r).key := by
    rw [made, key_ite_join]
  rw [told_append]
  rcases eq_or_ne q p with rfl | other
  · -- The peer itself is told last, and is not among the others.
    rw [← key, told_map_of_notMem (notMem_roomPeersLocked keyed' _ _), told_own (notice_joined room normal _ _ _ _)]
    refine .enters rfl rfl fun r => ?_
    rw [made]
    split
    next listed => exact ⟨.inr, fun either => either.elim (fun same => same ▸ listed) id⟩
    next =>
      rw [records_join, records_update]
      exact mem_insert _
  · have rooms : (h'.records p).rooms = (h.records p).rooms := by
      rw [made]
      split
      next => rfl
      next => rw [records_join, records_update_ne other.symm]
    have found : h'.peers.lookup (h'.records p).key = some p := by
      rw [key, made]
      split
      next => exact current
      next => exact current
    rw [told_ne other, append_nil]
    refine .members (fun r => by rw [rooms]) fun n listed => ?_
    obtain ⟨out, sent, tells⟩ := mem_filterMap.1 listed
    obtain ⟨link, member, rfl⟩ := mem_map.1 sent
    unfold Waiting.notice at tells
    split at tells
    next same =>
      dsimp only at same tells
      rw [notice_joined room normal] at tells
      subst same
      have holds := (mem_roomPeersLocked keyed' member).2
      rw [members.member, lists_iff_of_lookup found, rooms] at holds
      exact ⟨room, holds, (Option.some.inj tells).symm⟩
    next => cases tells

theorem tells_onPart {name : Text} (lawful : c.unicode.Lawful) (keyed : h.Keyed)
    (mine : own = true ↔ q = p) :
    Tells c.unicode q p (.onPart name) (h.records p).rooms ((h.onPart c a q name).hub.records p).rooms
      (told c.unicode p i own (h.onPart c a q name).sent) := by
  have keyed' := keyed.effect (effect_onPart (h := h) (p := q) c a name)
  rcases onPart_cases c a h q name with turn | ⟨room, h', normalised, made, turn⟩
  · rw [turn]
    exact .silent rfl rfl
  have normal : c.unicode.normalizeRoom room = room := by
    rw [normalised]
    exact lawful.normalizeRoom name
  rw [turn] at keyed' ⊢
  dsimp only at keyed' ⊢
  rw [told_append]
  rcases eq_or_ne q p with rfl | other
  · have key : (h'.records q).key = (h.records q).key := by
      unfold HubPeer.key
      rw [made, hash_leave]
    rw [← key, told_map_of_notMem (notMem_roomPeersLocked keyed' _ _), mine.2 rfl,
      told_own (n := .absent room) (by rw [notice_parted room normal]; rfl)]
    refine .leaves rfl (by rw [normalised]; rfl) fun r => ?_
    rw [made, records_leave, records_update, mem_erase, and_comm]
  · have alien : own = false := Bool.eq_false_iff.2 fun same => other (mine.1 same)
    refine .silent ?_ ?_
    · rw [made, records_leave, records_update_ne other.symm]
    · rw [told_ne other, append_nil, alien]
      apply filterMap_eq_nil_iff.2
      intro out sent
      obtain ⟨link, member, rfl⟩ := mem_map.1 sent
      unfold Waiting.notice
      rw [notice_parted room normal]
      exact ite_self none

/-- What a task makes of the rooms of a link that is in the hub, and what it tells of them. -/
theorem tells_run (lawful : c.unicode.Lawful) (proper : task.Proper c.unicode) (keyed : h.Keyed) (current : h.Current p)
    (kept : task ≠ .dropPeerIf p) (members : (task.run c a h q).hub.Membership limit) :
    Tells c.unicode q p task (h.records p).rooms ((task.run c a h q).hub.records p).rooms
      (told c.unicode p i (q = p ∧ task.parts = true) (task.run c a h q).sent) := by
  by_cases joins : ∃ room, task = .join room
  · obtain ⟨room, rfl⟩ := joins
    have alien : decide (q = p ∧ Task.parts (.join room) = true) = false := decide_eq_false fun both => nomatch both.2
    rw [alien]
    exact tells_join proper keyed current members
  by_cases parts : ∃ name, task = .onPart name
  · obtain ⟨name, rfl⟩ := parts
    apply tells_onPart lawful keyed
    rw [decide_eq_true_iff]
    exact and_iff_left rfl
  have untouched : task.touched c.unicode = none := by
    cases task with
    | join room => exact absurd ⟨room, rfl⟩ joins
    | onPart name => exact absurd ⟨name, rfl⟩ parts
    | _ => rfl
  have alien : decide (q = p ∧ task.parts = true) = false := by
    apply decide_eq_false
    rintro ⟨_, own⟩
    cases task with
    | onPart name => exact parts ⟨name, rfl⟩
    | _ => cases own
  refine .silent ((Task.effect c a h q task).rooms (fun _ => untouched) kept) ?_
  rw [alien]
  apply filterMap_eq_nil_iff.2
  intro out sent
  unfold Waiting.notice Packet.notice
  dsimp only
  split
  next =>
    split
    next joined => exact absurd (Task.joins_of_sent proper sent joined) joins
    next => rfl
    next => rfl
  next => rfl

/-- The task leaves link `p` in the hub: no other link takes its identity, and it is not dropped. -/
def Keeps (h : Hub) (p q : Nat) : Task → Prop
  | .register hash => (h.records q).ready = true ∨ peerKey hash ≠ (h.records p).key
  | .dropPeerIf r => r ≠ p
  | _ => True

instance (h : Hub) (p q : Nat) (task : Task) : Decidable (h.Keeps p q task) := by
  apply @Task.casesOn _ task
  all_goals
    intros
    dsimp only [Keeps]
    infer_instance

theorem Effect.current (effect : Effect c h q task h') (keyed : h.Keyed) (current : h.Current p)
    (keeps : h.Keeps p q task) : h'.Current p ∧ (h'.records p).key = (h.records p).key := by
  have ready := (keyed _ p current).1
  have key : (h'.records p).key = (h.records p).key := by
    rcases effect.hash p with same | ⟨rfl, first, _⟩
    · unfold HubPeer.key
      rw [same]
    · rw [first] at ready
      cases ready
  refine ⟨?_, key⟩
  unfold Current at current ⊢
  rw [key]
  cases effect with
  | same same =>
    rw [same.peers]
    exact current
  | register valid first =>
    rw [lookup_register, if_neg]
    · exact current
    · intro taken
      rcases keeps with registered | other
      · rw [first] at registered
        cases registered
      · exact other taken.symm
  | setNick | join | part => exact current
  | reindexNick =>
    rw [reindexNick_eq]
    exact current
  | @drop r there =>
    rw [peers_drop, lookup_erase_ne]
    · exact current
    · intro same
      unfold Current at there
      rw [← same, current] at there
      exact keeps (Option.some.inj there).symm

end Hub

namespace HubMachine
variable {c : HubConfig} {m m' : HubMachine} {event : HubEvent}

def Proper (u : Unicode) (m : HubMachine) : Prop := ∀ thread ∈ m.threads, ∀ task ∈ thread.tasks, task.Proper u

theorem Proper.spawn {u : Unicode} (proper : m.Proper u) {link : Nat} {tasks : List Task}
    (fresh : ∀ task ∈ tasks, task.Proper u) : (m.spawn link tasks).Proper u := by
  intro thread listed
  rcases mem_append.1 listed with old | new
  · exact proper thread old
  · rw [mem_singleton.1 new]
    exact fresh

theorem Proper.step (lawful : c.unicode.Lawful) (proper : m.Proper c.unicode) (stepped : Stepped c m event m') :
    m'.Proper c.unicode := by
  cases stepped with
  | accept now =>
    have fresh : ∀ task ∈ [Task.remote], task.Proper c.unicode := by simp [Task.Proper]
    exact Proper.spawn (m := { m with hub := _ }) proper fresh
  | spawn _ opening =>
    apply proper.spawn
    cases opening with
    | identified | packet | close => simp [Task.Proper]
  | removeFromRoom => exact proper
  | refused => exact proper
  | @advance i a thread task next =>
    intro other listed
    rcases mem_or_eq_of_mem_set listed with old | rfl
    · exact proper other old
    · obtain ⟨found, rest, tasks⟩ := next_eq_some.1 next
      intro t waits
      rcases mem_append.1 waits with new | waits
      · exact Task.proper_next lawful new
      · exact proper thread (mem_of_getElem? found) t (mem_of_mem_tail waits)

end HubMachine

namespace Chat
variable {c : HubConfig} {p : Nat} {s s' : Chat}
variable {u : Unicode}

/-- The notices for the client that have still to be handed over. -/
def waitingNotices (u : Unicode) (p : Nat) (s : Chat) : List (Notice Text) := s.waiting.filterMap (Waiting.notice u p)

/-- The event does not take the client out of a room behind its back. -/
def Notified (c : HubConfig) (p : Nat) (s : Chat) : HubEvent → Prop
  | .removeFromRoom peer name =>
    peerKey peer ≠ (s.machine.hub.records p).key ∨
      c.unicode.normalizeRoom name ∉ (s.machine.hub.records p).rooms
  | _ => True

/-- A task of the client's link that enters or leaves a room runs when no notice about the room waits. -/
def InTurn (c : HubConfig) (p : Nat) (s : Chat) (thread : Thread) (task : Task) : Prop :=
  thread.link = p → ∀ room ∈ task.touched c.unicode, ∀ n ∈ s.waitingNotices c.unicode p, n.key ≠ room

/-- The client is told all that happens to its rooms, in order, and takes a PARTED for its own exactly if it is. -/
def Orderly (c : HubConfig) (p : Nat) (s : Chat) : ChatEvent → Prop
  | .hub event => s.Notified c p event ∧ s.machine.ServedByCurrent c event ∧ s.machine.OnTask (fun thread task =>
    s.machine.hub.Keeps p thread.link task ∧ s.InTurn c p thread task) event
  | .handOver j => ∀ w ∈ s.waiting[j]?, w.link = p → s.Takes p w
  | .deliverDown => ∀ packet ∈ s.down.head?, packet.env.type = .parted →
      (packet.own = true ↔ c.unicode.normalizeRoom (packet.env.room.getD []) ∈ s.client.pending)
  | _ => True

instance (c : HubConfig) (p : Nat) (s : Chat) : (event : HubEvent) → Decidable (s.Notified c p event)
  | .removeFromRoom .. => inferInstanceAs (Decidable (_ ∨ _))
  | .accept _ | .identified .. | .packet .. | .close _ | .step .. => isTrue trivial

instance (c : HubConfig) (p : Nat) (s : Chat) (thread : Thread) (task : Task) : Decidable (s.InTurn c p thread task) := by
  unfold InTurn
  infer_instance

instance (c : HubConfig) (p : Nat) (s : Chat) : (event : ChatEvent) → Decidable (s.Orderly c p event)
  | .hub _ => inferInstanceAs (Decidable (_ ∧ _ ∧ _))
  | .handOver j => inferInstanceAs (Decidable (∀ w ∈ s.waiting[j]?, w.link = p → s.Takes p w))
  | .deliverDown => inferInstanceAs (Decidable (∀ packet ∈ s.down.head?, packet.env.type = .parted →
      (packet.own = true ↔ c.unicode.normalizeRoom (packet.env.room.getD []) ∈ s.client.pending)))
  | .deliverUp | .join .. | .part .. | .sendRoomContent .. => isTrue trivial

/-- What holds of the hub and the client in every orderly run. -/
structure Sound (c : HubConfig) (p : Nat) (key : Bytes) (s : Chat) : Prop where
  sane : s.machine.Sane
  members : s.machine.hub.Membership c.limits.maxRoomsPerSession
  proper : s.machine.Proper c.unicode
  current : s.machine.hub.Current p
  own : (s.machine.hub.records p).key = key
  follows : Concurrency.Follows { r | r ∈ (s.machine.hub.records p).rooms } (s.waitingNotices c.unicode p)
    (s.down.filterMap (Packet.notice c.unicode)) { r | r ∈ s.client.rooms }

variable {key : Bytes} {event : HubEvent}

/-- What a task tells keeps the client able to follow. -/
theorem follows_of_tells {q : Nat} {task : Task} {before after : GoMap Text Unit}
    {waiting queue told : List (Notice Text)} {view : Set Text} (tells : Hub.Tells u q p task before after told)
    (follows : Concurrency.Follows { r | r ∈ before } waiting queue view)
    (inTurn : q = p → ∀ room ∈ task.touched u, ∀ n ∈ waiting, n.key ≠ room) :
    Concurrency.Follows { r | r ∈ after } (waiting ++ told) queue view := by
  cases tells with
  | members same members =>
    have rooms : { r | r ∈ after } = { r | r ∈ before } := Set.ext same
    rw [rooms]
    exact follows.announce members
  | @enters room own touched entered =>
    have rooms : { r | r ∈ after } = insert room { r | r ∈ before } := Set.ext entered
    rw [rooms]
    exact follows.enter (inTurn own room touched)
  | @leaves room own touched left =>
    have rooms : { r | r ∈ after } = { r | r ∈ before } \ {room} := Set.ext left
    rw [rooms]
    exact follows.leave (inTurn own room touched)

theorem Sound.advance (lawful : c.unicode.Lawful) (sound : s.Sound c p key) {i : Nat} {a : Answer} {thread : Thread}
    {task : Task} (next : s.machine.next i = some (thread, task))
    (served : s.machine.hub.ServedByCurrent c thread.link task) (keeps : s.machine.hub.Keeps p thread.link task)
    (inTurn : s.InTurn c p thread task) :
    Sound c p key { s with
      machine := (s.machine.advance c i a thread task).1
      waiting := s.waiting ++ s.outbox p (s.machine.advance c i a thread task).2 (.step i a) } := by
  have stepped : HubMachine.Stepped c s.machine (.step i a) (s.machine.advance c i a thread task).1 := .advance next
  have effect := Task.effect c a s.machine.hub thread.link task
  have members := sound.members.effect sound.sane.keyed (sound.sane.blank _) effect served
  have current := effect.current sound.sane.keyed sound.current keeps
  have proper : task.Proper c.unicode := by
    obtain ⟨found, rest, tasks⟩ := HubMachine.next_eq_some.1 next
    exact sound.proper thread (mem_of_getElem? found) task (tasks ▸ mem_cons_self)
  have kept : task ≠ .dropPeerIf p := by
    rintro rfl
    exact keeps rfl
  have tells := Hub.tells_run (i := i) lawful proper sound.sane.keyed sound.current kept members
  refine ⟨sound.sane.step stepped, members, sound.proper.step lawful stepped, current.1, current.2.trans sound.own, ?_⟩
  have follows := follows_of_tells tells sound.follows inTurn
  unfold waitingNotices outbox
  dsimp only
  rw [filterMap_append, filterMap_map, next]
  exact follows

theorem removeFromRoom_of_notified {peer : Bytes} {name : Text} (sound : s.Sound c p key)
    (notified : s.Notified c p (.removeFromRoom peer name)) :
    (s.machine.hub.removeFromRoom c.unicode peer name).1.records p = s.machine.hub.records p ∧
      (s.machine.hub.removeFromRoom c.unicode peer name).1.peers = s.machine.hub.peers := by
  unfold Hub.removeFromRoom
  split
  next => exact ⟨rfl, rfl⟩
  next q found =>
    split
    next listed =>
      have other : p ≠ q := by
        rintro rfl
        rcases notified with alien | absent
        · exact alien (sound.sane.keyed _ p found).2.symm
        · exact absent listed
      refine ⟨?_, rfl⟩
      rw [Hub.records_leave, Hub.records_update_ne other]
    next => exact ⟨rfl, rfl⟩

/-- An event that sends nothing and leaves the record of the client alone. -/
theorem Sound.quiet (sound : s.Sound c p key) {machine : HubMachine} (sane : machine.Sane)
    (members : machine.hub.Membership c.limits.maxRoomsPerSession) (proper : machine.Proper c.unicode)
    (record : machine.hub.records p = s.machine.hub.records p) (peers : machine.hub.peers = s.machine.hub.peers) :
    Sound c p key { s with machine, waiting := s.waiting ++ [] } := by
  refine ⟨sane, members, proper, ?_, ?_, ?_⟩
  · unfold Hub.Current
    rw [record, peers]
    exact sound.current
  · rw [record]
    exact sound.own
  · rw [record, append_nil]
    exact sound.follows

/-- What an event of the hub tells agrees with what it does to the rooms of the client. -/
theorem Sound.hubStep (lawful : c.unicode.Lawful) (sound : s.Sound c p key) (notified : s.Notified c p event)
    (served : s.machine.ServedByCurrent c event) (inTurn : s.machine.OnTask (fun thread task =>
      s.machine.hub.Keeps p thread.link task ∧ s.InTurn c p thread task) event)
    (stepped : s.hubStep c p event = some s') : s'.Sound c p key := by
  obtain ⟨⟨machine, sent⟩, step, rfl⟩ := Option.map_eq_some_iff.1 stepped
  have moved : s.machine.step c event = some machine := by
    unfold HubMachine.step
    rw [step]
    rfl
  have stepped := HubMachine.stepped_of_step moved
  have quiet := sound.quiet (sound.sane.step stepped)
    (HubMachine.membership_step sound.sane sound.members served stepped) (sound.proper.step lawful stepped)
  have known : p < s.machine.hub.links := sound.sane.young p (sound.sane.keyed _ p sound.current).1
  cases event with
  | accept now =>
    cases step
    exact quiet (Hub.records_acceptLink_ne known.ne) rfl
  | identified link | packet link | close link =>
    obtain ⟨_, same⟩ := Option.ite_none_right_eq_some.1 step
    cases same
    exact quiet rfl rfl
  | removeFromRoom peer name =>
    cases step
    obtain ⟨record, peers⟩ := removeFromRoom_of_notified sound notified
    exact quiet record peers
  | step i a =>
    obtain ⟨⟨thread, task⟩, next, made⟩ := Option.map_eq_some_iff.1 step
    obtain ⟨keeps, turn⟩ := inTurn thread task next
    cases made
    exact sound.advance lawful next (served thread task next) keeps turn

theorem apply_dispatch {packet : Packet} (client : Client) (taken : packet.env.type = .parted →
      (packet.own = true ↔ u.normalizeRoom (packet.env.room.getD []) ∈ client.pending)) :
    { r | r ∈ (client.dispatch u packet.env).rooms } =
      settled { r | r ∈ client.rooms } (packet.notice u).toList := by
  unfold Client.dispatch Packet.notice
  cases kind : packet.env.type with
  | joined =>
    ext r
    exact mem_insert client.rooms
  | parted =>
    dsimp only
    split
    next noted =>
      rw [if_pos ((taken kind).2 noted)]
      ext r
      exact mem_erase.trans and_comm
    next ignored =>
      rw [if_neg fun own => ignored ((taken kind).1 own)]
      rfl
  | _ => rfl

theorem Sound.handOver (sound : s.Sound c p key) {j : Nat} {w : Waiting} (found : s.waiting[j]? = some w)
    (takes : w.link = p → s.Takes p w) : (s.handOver p j w).Sound c p key := by
  have split : s.waiting = s.waiting.take j ++ w :: s.waiting.drop (j + 1) := by
    calc s.waiting = s.waiting.take j ++ s.waiting.drop j := (take_append_drop j _).symm
      _ = _ := by rw [List.drop_eq_getElem?_toList_append, found]; rfl
  have follows := sound.follows
  unfold waitingNotices at follows
  rw [split, filterMap_append, filterMap_cons] at follows
  refine ⟨sound.sane, sound.members, sound.proper, sound.current, sound.own, ?_⟩
  unfold Chat.handOver waitingNotices
  dsimp only
  rw [eraseIdx_eq_take_drop_succ, filterMap_append, filterMap_append]
  by_cases mine : w.link = p
  · rw [if_pos (takes mine)]
    have same : w.notice c.unicode p = w.packet.notice c.unicode := if_pos mine
    rw [same] at follows
    cases tells : w.packet.notice c.unicode with
    | none =>
      rw [tells] at follows
      simpa [tells] using follows
    | some n =>
      rw [tells] at follows
      simpa [tells] using follows.handOver
  · have silent : w.notice c.unicode p = none := if_neg mine
    have alien : ¬ s.Takes p w := fun taken => mine taken.1
    rw [silent] at follows
    simpa [alien] using follows

theorem Sound.deliverDown (sound : s.Sound c p key) {packet : Packet} {down : List Packet}
    (first : s.down = packet :: down) (taken : packet.env.type = .parted →
      (packet.own = true ↔ c.unicode.normalizeRoom (packet.env.room.getD []) ∈ s.client.pending)) :
    Sound c p key { s with down, client := s.client.dispatch c.unicode packet.env } := by
  have follows := sound.follows
  rw [first] at follows
  refine ⟨sound.sane, sound.members, sound.proper, sound.current, sound.own, ?_⟩
  dsimp only
  rw [apply_dispatch s.client taken]
  cases tells : packet.notice c.unicode with
  | none =>
    rw [filterMap_cons, tells] at follows
    exact follows
  | some n =>
    rw [filterMap_cons, tells] at follows
    exact follows.read

/-- What the client puts on the way up is read by the hub only. -/
theorem Sound.change (sound : s.Sound c p key) {client : Client} (rooms : client.rooms = s.client.rooms)
    (up : List Envelope) : Sound c p key { s with client, up } := by
  refine ⟨sound.sane, sound.members, sound.proper, sound.current, sound.own, ?_⟩
  dsimp only
  rw [rooms]
  exact sound.follows

theorem rooms_part {client client' : Client} {call : Call} {room : Text} {env : Envelope}
    (parts : client.part u call room = .ok (client', env)) : client'.rooms = client.rooms := by
  unfold Client.part Client.requireActive at parts
  split at parts
  · cases parts
    rfl
  · cases parts

theorem Sound.step (lawful : c.unicode.Lawful) {event : ChatEvent} (sound : s.Sound c p key)
    (orderly : s.Orderly c p event) (stepped : s.step c p event = some s') : s'.Sound c p key := by
  cases event with
  | hub event =>
    obtain ⟨_, stepped⟩ := Option.ite_none_right_eq_some.1 stepped
    obtain ⟨notified, served, inTurn⟩ := orderly
    exact sound.hubStep lawful notified served inTurn stepped
  | deliverUp =>
    unfold Chat.step at stepped
    dsimp only at stepped
    split at stepped
    next => cases stepped
    next env up _ =>
      have reads : Sound c p key { s with up } := sound.change rfl up
      have notified : Notified c p { s with up } (.packet p env) := trivial
      exact reads.hubStep lawful notified trivial trivial stepped
  | handOver j =>
    unfold Chat.step at stepped
    dsimp only at stepped
    split at stepped
    next => cases stepped
    next w found =>
      obtain ⟨_, taken⟩ := Option.ite_none_right_eq_some.1 stepped
      cases taken
      exact sound.handOver found (orderly w found)
  | deliverDown =>
    unfold Chat.step at stepped
    dsimp only at stepped
    split at stepped
    next => cases stepped
    next packet down first =>
      cases stepped
      exact sound.deliverDown first (orderly packet (by rw [first]; rfl))
  | join | sendRoomContent =>
    unfold Chat.step at stepped
    dsimp only at stepped
    split at stepped
    all_goals cases stepped
    · exact sound
    · exact sound.change rfl _
  | part =>
    unfold Chat.step at stepped
    dsimp only at stepped
    split at stepped
    next =>
      cases stepped
      exact sound
    next client env parts =>
      cases stepped
      exact sound.change (rooms_part parts) _

end Chat

def twoLinks : List HubEvent :=
  opened 0 3 someHash ++ handled 1 6 0 (inbound .hello) ++ opened 2 3 (replicate identityLength 8) ++
    handled 3 6 1 (inbound .hello)

/-- The hub reads a request of the client in thread `i`, and the client the answer. -/
def answered (i : Nat) : List ChatEvent :=
  .deliverUp :: replicate 6 (.hub (.step i {})) ++ [.handOver 0, .deliverDown]

/-- The hub reads an envelope of the other link in thread `i`, and the client the notice about it. -/
def noticed (i : Nat) (env : Envelope) : List ChatEvent :=
  .hub (.packet 1 env) :: replicate 6 (.hub (.step i {})) ++ [.handOver 0, .handOver 0, .deliverDown]

/-- Both peers enter one room and the other leaves it; the client enters and leaves a second one. -/
def chatting : List ChatEvent :=
  .join ['a'] [] {} :: answered 4 ++ noticed 5 { inbound .join with room := some ['a'] } ++
    noticed 6 { inbound .part with room := some ['a'] } ++ .join ['b'] [] {} :: answered 7 ++
    .part ['b'] {} :: answered 8

def welcomedClient : Client := { sender := someHash, state := .active }

end ReticulumProtocols.Rrc
