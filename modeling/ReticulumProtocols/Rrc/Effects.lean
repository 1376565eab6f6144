import ReticulumProtocols.Rrc.Sessions

/-! What a task can do to the hub, said once, and what holds of every run: a task that needs an identity runs on a
registered link only, and a record without one has neither rooms nor a nickname. -/

namespace ReticulumProtocols.Rrc
open Wire Lxmf Index Concurrency List AList

namespace Hub
variable {h h' : Hub} {p q : Nat}

@[simp] theorem records_update (change : HubPeer → HubPeer) : (h.update p change).records p = change (h.records p) :=
  Function.update_self ..

theorem records_update_ne (other : q ≠ p) (change : HubPeer → HubPeer) :
    (h.update p change).records q = h.records q :=
  Function.update_of_ne other ..

theorem update_field {α : Type} (field : HubPeer → α) {change : HubPeer → HubPeer}
    (kept : ∀ peer, field (change peer) = field peer) (q : Nat) :
    field ((h.update p change).records q) = field (h.records q) := by
  rcases eq_or_ne q p with same | other
  · rw [same, records_update, kept]
  · rw [records_update_ne other]

/-- Two hubs with the same registrations, rooms and nicknames. -/
structure Same (h h' : Hub) : Prop where
  links : h'.links = h.links
  peers : h'.peers = h.peers
  rooms : h'.rooms = h.rooms
  nickIndex : h'.nickIndex = h.nickIndex
  hash : ∀ q, (h'.records q).peerHash = (h.records q).peerHash
  listed : ∀ q, (h'.records q).rooms = (h.records q).rooms
  nick : ∀ q, (h'.records q).nick = (h.records q).nick

theorem Same.refl (h : Hub) : h.Same h :=
  ⟨rfl, rfl, rfl, rfl, fun _ => rfl, fun _ => rfl, fun _ => rfl⟩

theorem same_update {change : HubPeer → HubPeer} (plain : ∀ peer,
    (change peer).peerHash = peer.peerHash ∧ (change peer).rooms = peer.rooms ∧ (change peer).nick = peer.nick) :
    h.Same (h.update p change) :=
  ⟨rfl, rfl, rfl, rfl, update_field _ fun peer => (plain peer).1, update_field _ fun peer => (plain peer).2.1,
    update_field _ fun peer => (plain peer).2.2⟩

theorem Same.key (same : h.Same h') (q : Nat) : (h'.records q).key = (h.records q).key := by
  unfold HubPeer.key
  rw [same.hash]

/-- What a task of link `p` can do to registrations, rooms and nicknames. -/
inductive Effect (c : HubConfig) (h : Hub) (p : Nat) : Task → Hub → Prop where
  | same {task : Task} {h' : Hub} (same : h.Same h') : Effect c h p task h'
  | register {hash : Bytes} (valid : hash.length = identityLength) (first : (h.records p).ready = false) :
      Effect c h p (.register hash) (h.register p hash)
  | setNick {oldNick nick : Text} :
      Effect c h p (.setNick oldNick nick) (h.update p fun peer => { peer with nick := c.unicode.sanitizeNick nick })
  | reindexNick {oldNick newNick : Text} :
      Effect c h p (.reindexNick oldNick newNick) (h.reindexNick c.unicode (h.records p).key oldNick newNick)
  | join {room : Text} (absent : room ∉ (h.records p).rooms)
      (space : (h.records p).rooms.keys.length < c.limits.maxRoomsPerSession) :
      Effect c h p (.join room) (h.join p room)
  | part {name : Text} (listed : c.unicode.normalizeRoom name ∈ (h.records p).rooms) :
      Effect c h p (.onPart name) (h.leave p (h.records p).key (c.unicode.normalizeRoom name))
  | drop {q : Nat} (current : h.Current q) : Effect c h p (.dropPeerIf q) (h.drop c.unicode q)

theorem plain_takeToken (limit : Nat) (now : Int) (peer : HubPeer) :
    (peer.takeToken limit now).1.peerHash = peer.peerHash ∧ (peer.takeToken limit now).1.rooms = peer.rooms ∧
      (peer.takeToken limit now).1.nick = peer.nick := by
  obtain ⟨tokens, lastRefill, taken⟩ := peer.takeToken_fst limit now
  rw [taken]
  exact ⟨rfl, rfl, rfl⟩

theorem effect_registerTurn (c : HubConfig) (hash : Bytes) :
    Effect c h p (.register hash) (h.registerTurn p hash).hub := by
  unfold registerTurn
  split
  next => exact .same (.refl h)
  next valid =>
    split
    next => exact .same (.refl h)
    next first => exact .register (not_not.1 valid) (Bool.eq_false_iff.2 first)

theorem effect_joinTurn (c : HubConfig) (a : Answer) (room : Text) :
    Effect c h p (.join room) (h.joinTurn c a p room).hub := by
  unfold joinTurn
  dsimp only
  split
  next => exact .same (.refl h)
  next admitted =>
    by_cases listed : room ∈ (h.records p).rooms
    · rw [if_pos listed]
      exact .same (.refl h)
    · rw [if_neg listed]
      exact .join listed (not_le.1 fun full => admitted ⟨listed, full⟩)

theorem effect_onPart (c : HubConfig) (a : Answer) (name : Text) :
    Effect c h p (.onPart name) (h.onPart c a p name).hub := by
  unfold onPart
  dsimp only
  split
  next => exact .same (.refl h)
  next parts => exact .part (not_not.1 (not_or.1 parts).2)

theorem effect_dropPeerIf (c : HubConfig) (a : Answer) (q : Nat) :
    Effect c h p (.dropPeerIf q) (h.dropPeerIf c a q).hub := by
  unfold dropPeerIf
  dsimp only
  split
  next => exact .same (.refl h)
  next drops => exact .drop (not_not.1 (not_or.1 drops).2)

/-- A JOIN is refused, or the hub tells the others in the room and then the peer. -/
theorem joinTurn_cases (c : HubConfig) (a : Answer) (h : Hub) (q : Nat) (room : Text) :
    (room ∉ (h.records q).rooms ∧
        ∃ message, h.joinTurn c a q room = { hub := h, sent := [replyError c a q message] }) ∨
      ∃ h' body, h' = (if room ∈ (h.records q).rooms then h else h.join q room) ∧
        h.joinTurn c a q room =
          { hub := h'
            sent := (h'.roomPeersLocked room (h.records q).key a.visit).map (fun link =>
              ⟨link, typedEnvelope c a 0 .joined room (presence c (h.records q)) (h.records q).nick⟩) ++
                [⟨q, typedEnvelope c a 1 .joined room body []⟩] } := by
  unfold joinTurn
  dsimp only
  split
  next full => exact .inl ⟨full.1, _, rfl⟩
  next => exact .inr ⟨_, _, rfl, rfl⟩

theorem onPart_cases (c : HubConfig) (a : Answer) (h : Hub) (q : Nat) (name : Text) :
    h.onPart c a q name = { hub := h } ∨
      ∃ room h', room = c.unicode.normalizeRoom name ∧ h' = h.leave q (h.records q).key room ∧
        h.onPart c a q name =
          { hub := h'
            sent := (h'.roomPeersLocked room (h.records q).key a.visit).map (fun link =>
              ⟨link, typedEnvelope c a 0 .parted room (presence c (h.records q)) (h.records q).nick⟩) ++
                [⟨q, typedEnvelope c a 1 .parted room (presence c (h.records q)) []⟩] } := by
  unfold onPart
  dsimp only
  split
  next => exact .inl rfl
  next => exact .inr ⟨_, _, rfl, rfl, rfl⟩

end Hub

/-- The tasks that only look at the hub. -/
theorem Hub.hub_serve (c : HubConfig) (a : Answer) (h : Hub) (p : Nat) (env : Envelope) (active : Bool) :
    (h.serve c a p env active).hub = h := by
  unfold Hub.serve Hub.onJoin Hub.dispatchContent
  dsimp only
  repeat' split
  all_goals rfl

theorem Task.effect (c : HubConfig) (a : Answer) (h : Hub) (p : Nat) (task : Task) :
    Hub.Effect c h p task (task.run c a h p).hub := by
  cases task with
  | remote => exact .same (.refl h)
  | register hash => exact Hub.effect_registerTurn c hash
  | identify hash =>
    apply Hub.Effect.same
    change h.Same (h.identify c a p).hub
    unfold Hub.identify
    repeat' split
    all_goals dsimp only
    all_goals first | exact .refl h | (apply Hub.same_update; exact fun _ => ⟨rfl, rfl, rfl⟩)
  | takePending =>
    apply Hub.Effect.same
    dsimp only [Task.run, Hub.takePending]
    apply Hub.same_update
    exact fun _ => ⟨rfl, rfl, rfl⟩
  | receive env =>
    apply Hub.Effect.same
    change h.Same (h.receive p env).hub
    unfold Hub.receive
    repeat' split
    all_goals dsimp only
    all_goals first | exact .refl h | (apply Hub.same_update; exact fun _ => ⟨rfl, rfl, rfl⟩)
  | handlePeer env =>
    apply Hub.Effect.same
    change h.Same (h.handlePeer c a p env).hub
    unfold Hub.handlePeer
    dsimp only
    split
    all_goals exact Hub.same_update fun peer => Hub.plain_takeToken _ _ peer
  | greet env => exact .same (.refl h)
  | applyInboundNick nick env active =>
    apply Hub.Effect.same
    change h.Same (h.applyInboundNick c a p nick env active).hub
    unfold Hub.applyInboundNick
    dsimp only
    repeat' split
    all_goals exact .refl h
  | setNick oldNick nick => exact .setNick
  | reindexNick oldNick newNick => exact .reindexNick
  | serve env active =>
    apply Hub.Effect.same
    change h.Same (h.serve c a p env active).hub
    rw [Hub.hub_serve]
    exact .refl h
  | onHello =>
    apply Hub.Effect.same
    dsimp only [Task.run, Hub.onHello]
    apply Hub.same_update
    exact fun _ => ⟨rfl, rfl, rfl⟩
  | deactivate =>
    apply Hub.Effect.same
    dsimp only [Task.run]
    apply Hub.same_update
    exact fun _ => ⟨rfl, rfl, rfl⟩
  | join room => exact Hub.effect_joinTurn c a room
  | onPart name => exact Hub.effect_onPart c a name
  | onRoomContent env => exact .same (.refl h)
  | onDirectNotice env => exact .same (.refl h)
  | close q =>
    apply Hub.Effect.same
    change h.Same (h.close q).hub
    unfold Hub.close
    split
    next => exact .refl h
    next =>
      dsimp only
      apply Hub.same_update
      exact fun _ => ⟨rfl, rfl, rfl⟩
  | dropPeerIf q => exact Hub.effect_dropPeerIf c a q

namespace Hub
variable {c : HubConfig} {h h' : Hub} {p q : Nat} {task : Task}

theorem records_register (hash : Bytes) :
    (h.register p hash).records = (h.update p fun peer => { peer with peerHash := hash }).records := rfl

theorem records_join (room : Text) :
    (h.join p room).records = (h.update p fun peer => { peer with rooms := peer.rooms.insert room () }).records := rfl

theorem records_leave (key : Bytes) (room : Text) :
    (h.leave p key room).records = (h.update p fun peer => { peer with rooms := peer.rooms.erase room }).records := rfl

theorem unindexNickLocked_eq (u : Unicode) (id : Bytes) (nick : Text) :
    h.unindexNickLocked u id nick = { h with nickIndex := (h.unindexNickLocked u id nick).nickIndex } := by
  unfold unindexNickLocked
  split
  · rfl
  · rfl

theorem reindexNick_eq (u : Unicode) (id : Bytes) (oldNick newNick : Text) :
    h.reindexNick u id oldNick newNick = { h with nickIndex := (h.reindexNick u id oldNick newNick).nickIndex } := by
  unfold reindexNick
  dsimp only
  rw [unindexNickLocked_eq]
  split
  · rfl
  · rfl

theorem records_drop (u : Unicode) :
    (h.drop u p).records = (h.update p fun peer => { peer with rooms := ∅ }).records := by
  unfold drop
  dsimp only
  rw [unindexNickLocked_eq]
  rfl

theorem hash_join (room : Text) (q : Nat) : ((h.join p room).records q).peerHash = (h.records q).peerHash := by
  rw [records_join]
  exact update_field HubPeer.peerHash (by intro; rfl) q

theorem hash_leave (key : Bytes) (room : Text) (q : Nat) :
    ((h.leave p key room).records q).peerHash = (h.records q).peerHash := by
  rw [records_leave]
  exact update_field HubPeer.peerHash (by intro; rfl) q

theorem hash_drop (u : Unicode) (q : Nat) : ((h.drop u p).records q).peerHash = (h.records q).peerHash := by
  rw [records_drop]
  exact update_field HubPeer.peerHash (by intro; rfl) q

theorem links_drop (u : Unicode) : (h.drop u p).links = h.links := by
  unfold drop
  dsimp only
  rw [unindexNickLocked_eq]
  rfl

theorem Effect.links (effect : Effect c h p task h') : h'.links = h.links := by
  cases effect with
  | same same => exact same.links
  | reindexNick => rw [reindexNick_eq]
  | drop => exact links_drop c.unicode
  | register | setNick | join | part => rfl

theorem Effect.hash (effect : Effect c h p task h') (q : Nat) :
    (h'.records q).peerHash = (h.records q).peerHash ∨
      (q = p ∧ (h.records p).ready = false ∧ (h'.records q).ready = true) := by
  cases effect with
  | same same => exact Or.inl (same.hash q)
  | register valid first =>
    rw [records_register]
    rcases eq_or_ne q p with same | other
    · refine Or.inr ⟨same, first, ?_⟩
      rw [same, records_update]
      exact decide_eq_true valid
    · rw [records_update_ne other]
      exact Or.inl rfl
  | setNick => exact Or.inl (update_field HubPeer.peerHash (by intro; rfl) q)
  | reindexNick => rw [reindexNick_eq]; exact Or.inl rfl
  | join => exact Or.inl (hash_join _ q)
  | part => exact Or.inl (hash_leave _ _ q)
  | drop => exact Or.inl (hash_drop c.unicode q)

theorem Effect.ready (effect : Effect c h p task h') (registered : (h.records q).ready = true) :
    (h'.records q).ready = true := by
  rcases effect.hash q with same | ⟨_, _, ready⟩
  · unfold HubPeer.ready at *
    rw [same]
    exact registered
  · exact ready

end Hub

def Task.needsIdentity : Task → Bool
  | .remote | .register _ | .receive _ | .close _ | .dropPeerIf _ => false
  | _ => true

/-- Neither rooms nor a nickname. -/
def HubPeer.Blank (peer : HubPeer) : Prop := peer.rooms = ∅ ∧ peer.nick = []

namespace Hub
variable {c : HubConfig} {h h' : Hub} {p q : Nat} {task : Task}

theorem Effect.blank (effect : Effect c h p task h') (needs : task.needsIdentity = true → (h.records p).ready = true)
    (fresh : (h.records q).ready = false) (blank : (h.records q).Blank) : (h'.records q).Blank := by
  have other : task.needsIdentity = true → q ≠ p := by
    intro identity same
    rw [same, needs identity] at fresh
    cases fresh
  unfold HubPeer.Blank at *
  cases effect with
  | same same => rw [same.listed, same.nick]; exact blank
  | register =>
    rw [records_register]
    exact ⟨(update_field HubPeer.rooms (by intro; rfl) q).trans blank.1,
      (update_field HubPeer.nick (by intro; rfl) q).trans blank.2⟩
  | setNick => rw [records_update_ne (other rfl)]; exact blank
  | reindexNick => rw [reindexNick_eq]; exact blank
  | join => rw [records_join, records_update_ne (other rfl)]; exact blank
  | part => rw [records_leave, records_update_ne (other rfl)]; exact blank
  | drop =>
    rw [records_drop]
    refine ⟨?_, (update_field HubPeer.nick (by intro; rfl) q).trans blank.2⟩
    rename_i r _
    rcases eq_or_ne q r with same | other
    · rw [same, records_update]
    · rw [records_update_ne other]
      exact blank.1

end Hub

theorem Task.next_needs {c : HubConfig} {a : Answer} {h : Hub} {p : Nat} {task t : Task}
    (needs : task.needsIdentity = true → (h.records p).ready = true)
    (member : t ∈ (task.run c a h p).next) (wants : t.needsIdentity = true) :
    ((task.run c a h p).hub.records p).ready = true := by
  cases task with
  | remote =>
    obtain ⟨hash, _, rfl⟩ := Option.map_eq_some_iff.1 (Option.mem_toList.1 member)
    cases wants
  | register hash =>
    simp only [Task.run, Hub.registerTurn] at member ⊢
    split at member
    next => cases member
    next valid =>
      split at member
      next ready => rw [if_neg valid, if_pos ready]; exact ready
      next first =>
        rw [if_neg valid, if_neg first]
        dsimp only
        rw [Hub.records_register, Hub.records_update]
        exact decide_eq_true (not_not.1 valid)
  | receive env =>
    simp only [Task.run, Hub.receive] at member ⊢
    split at member
    next ready => rw [if_pos ready]; exact ready
    next =>
      split at member
      all_goals
        rw [mem_singleton.1 member] at wants
        cases wants
  | close q =>
    simp only [Task.run, Hub.close] at member
    split at member
    next => cases member
    next =>
      rw [mem_singleton.1 member] at wants
      cases wants
  | dropPeerIf q =>
    simp only [Task.run, Hub.dropPeerIf] at member
    split at member
    all_goals cases member
  | identify | takePending | handlePeer | greet | applyInboundNick | setNick | reindexNick | serve | onHello
  | deactivate | join | onPart | onRoomContent | onDirectNotice => exact (Task.effect c a h p _).ready (needs rfl)

namespace Hub
variable {h : Hub} {p q : Nat}

theorem records_acceptLink_ne {limit : Nat} {now : Int} (other : q ≠ h.links) :
    (h.acceptLink limit now).records q = h.records q :=
  Function.update_of_ne other ..

theorem records_acceptLink (limit : Nat) (now : Int) :
    (h.acceptLink limit now).records h.links = { tokens := Float64.ofInt limit, lastRefill := now } :=
  Function.update_self ..

end Hub

namespace Hub
variable {c : HubConfig} {h h' : Hub} {p : Nat} {task : Task}

/-- The hub's record of a key is a registered one with that key. -/
def Keyed (h : Hub) : Prop :=
  ∀ key p, h.peers.lookup key = some p → (h.records p).ready = true ∧ (h.records p).key = key

theorem Keyed.of_hash (keyed : h.Keyed) (peers : ∀ key p, h'.peers.lookup key = some p → h.peers.lookup key = some p)
    (hash : ∀ q, (h'.records q).peerHash = (h.records q).peerHash) : h'.Keyed := by
  intro key p found
  unfold HubPeer.ready HubPeer.key
  rw [hash]
  exact keyed key p (peers key p found)

theorem Keyed.current (keyed : h.Keyed) {key : Bytes} (found : h.peers.lookup key = some p) : h.Current p := by
  unfold Current
  rw [(keyed key p found).2]
  exact found

theorem peers_drop (u : Unicode) : (h.drop u p).peers = h.peers.erase (h.records p).key := by
  unfold drop
  dsimp only
  rw [unindexNickLocked_eq]

theorem lookup_drop {u : Unicode} {key : Bytes} {q : Nat} (found : (h.drop u p).peers.lookup key = some q) :
    key ≠ (h.records p).key ∧ h.peers.lookup key = some q := by
  rw [peers_drop] at found
  rcases eq_or_ne key (h.records p).key with same | other
  · rw [same, lookup_erase] at found
    cases found
  · rw [lookup_erase_ne other] at found
    exact ⟨other, found⟩

theorem lookup_register (hash key : Bytes) :
    (h.register p hash).peers.lookup key = if key = peerKey hash then some p else h.peers.lookup key := by
  unfold register
  dsimp only
  split
  next same => rw [same, lookup_insert]
  next other => rw [lookup_insert_ne other]

theorem Keyed.register (keyed : h.Keyed) {hash : Bytes} (valid : hash.length = identityLength)
    (first : (h.records p).ready = false) : (h.register p hash).Keyed := by
  intro key q found
  rw [lookup_register] at found
  rw [records_register]
  split at found
  next same =>
    cases found
    rw [records_update, same]
    exact ⟨decide_eq_true valid, rfl⟩
  next =>
    have before := keyed key q found
    have apart : q ≠ p := by
      intro same
      rw [same, first] at before
      cases before.1
    rw [records_update_ne apart]
    exact before

theorem Keyed.effect (keyed : h.Keyed) (effect : Effect c h p task h') : h'.Keyed := by
  cases effect with
  | same same => exact keyed.of_hash (fun _ _ found => same.peers ▸ found) same.hash
  | register valid first => exact keyed.register valid first
  | setNick => exact keyed.of_hash (fun _ _ found => found) (update_field HubPeer.peerHash (by intro; rfl))
  | reindexNick =>
    rw [reindexNick_eq]
    exact keyed.of_hash (fun _ _ found => found) fun _ => rfl
  | join => exact keyed.of_hash (fun _ _ found => found) (hash_join _)
  | part => exact keyed.of_hash (fun _ _ found => found) (hash_leave _ _)
  | drop => exact keyed.of_hash (fun _ _ found => (lookup_drop found).2) (hash_drop c.unicode)

end Hub

namespace HubMachine
variable {c : HubConfig} {m m' : HubMachine} {i : Nat} {a : Answer} {thread : Thread} {task : Task}
variable {link : Nat} {event : HubEvent} {tasks : List Task}

theorem next_eq_some : m.next i = some (thread, task) ↔
    m.threads[i]? = some thread ∧ ∃ rest, thread.tasks = task :: rest := by
  simp [next, Option.bind_eq_some_iff, List.head?_eq_some_iff]

/-- The tasks of a callback that starts on a link. -/
inductive Opening (link : Nat) : List Task → Prop where
  | identified (hash : Bytes) : Opening link [.register hash]
  | packet (env : Envelope) : Opening link [.remote, .receive env]
  | close : Opening link [.close link]

theorem Opening.free (opening : Opening link tasks) :
    ∀ task ∈ tasks, task.needsIdentity = false := by
  cases opening with
  | identified | packet | close => simp [Task.needsIdentity]

/-- What an event can do to the machine. -/
inductive Stepped (c : HubConfig) (m : HubMachine) : HubEvent → HubMachine → Prop where
  | accept (now : Int) :
      Stepped c m (.accept now)
        ({ m with hub := m.hub.acceptLink c.limits.rateLimitMsgsPerMinute now }.spawn m.hub.links [.remote])
  | spawn {event : HubEvent} {link : Nat} {tasks : List Task} (known : link < m.hub.links)
      (opening : Opening link tasks) : Stepped c m event (m.spawn link tasks)
  | removeFromRoom {peer : Bytes} {name room : Text} {p : Nat} (found : m.hub.peers.lookup (peerKey peer) = some p)
      (listed : room ∈ (m.hub.records p).rooms) :
      Stepped c m (.removeFromRoom peer name) { m with hub := m.hub.leave p (peerKey peer) room }
  | refused {event : HubEvent} : Stepped c m event m
  | advance {i : Nat} {a : Answer} {thread : Thread} {task : Task} (next : m.next i = some (thread, task)) :
      Stepped c m (.step i a) (m.advance c i a thread task).1

theorem stepped_of_guarded (opening : Opening link tasks)
    (stepped : (if link < m.hub.links then some (m.spawn link tasks, ([] : List Outgoing)) else none).map Prod.fst =
      some m') : Stepped c m event m' := by
  split at stepped
  next known =>
    cases stepped
    exact .spawn known opening
  next => cases stepped

theorem stepped_of_step (stepped : m.step c event = some m') : Stepped c m event m' := by
  cases event with
  | accept now =>
    cases stepped
    exact .accept now
  | identified link hash => exact stepped_of_guarded (.identified hash) stepped
  | packet link env => exact stepped_of_guarded (.packet env) stepped
  | close link => exact stepped_of_guarded .close stepped
  | removeFromRoom peer room =>
    cases stepped
    dsimp only
    unfold Hub.removeFromRoom
    split
    next => exact .refused
    next p found =>
      split
      next listed => exact .removeFromRoom found listed
      next => exact .refused
  | step i a =>
    obtain ⟨result, sent, rfl⟩ := Option.map_eq_some_iff.1 stepped
    obtain ⟨⟨thread, task⟩, next, rfl⟩ := Option.map_eq_some_iff.1 sent
    exact .advance next

/-- A thread on a link that exists, with tasks that need an identity only where it has one. -/
def SaneThread (h : Hub) (thread : Thread) : Prop :=
  thread.link < h.links ∧ ∀ task ∈ thread.tasks, task.needsIdentity = true → (h.records thread.link).ready = true

structure Sane (m : HubMachine) : Prop where
  blank : ∀ p, (m.hub.records p).ready = false → (m.hub.records p).Blank
  young : ∀ p, (m.hub.records p).ready = true → p < m.hub.links
  keyed : m.hub.Keyed
  threads : ∀ thread ∈ m.threads, SaneThread m.hub thread

theorem Sane.start : Sane {} where
  blank _ _ := ⟨rfl, rfl⟩
  young _ ready := by cases ready
  keyed _ _ found := by cases found
  threads _ member := by cases member

theorem Sane.needs (sane : m.Sane) (next : m.next i = some (thread, task)) :
    task.needsIdentity = true → (m.hub.records thread.link).ready = true := by
  obtain ⟨found, rest, tasks⟩ := next_eq_some.1 next
  apply (sane.threads thread (mem_of_getElem? found)).2
  rw [tasks]
  exact mem_cons_self

theorem Sane.spawn (sane : m.Sane) (known : link < m.hub.links)
    (free : ∀ task ∈ tasks, task.needsIdentity = false) : (m.spawn link tasks).Sane := by
  refine ⟨sane.blank, sane.young, sane.keyed, ?_⟩
  intro thread member
  rcases mem_append.1 member with old | new
  · exact sane.threads thread old
  · rw [mem_singleton.1 new]
    refine ⟨known, fun task listed needs => ?_⟩
    rw [free task listed] at needs
    cases needs

theorem Sane.accept (sane : m.Sane) (limit : Nat) (now : Int) : Sane { m with hub := m.hub.acceptLink limit now } := by
  have kept : ∀ {p}, (m.hub.records p).ready = true → (m.hub.acceptLink limit now).records p = m.hub.records p :=
    fun ready => Hub.records_acceptLink_ne (sane.young _ ready).ne
  constructor
  case blank =>
    intro p fresh
    rcases eq_or_ne p m.hub.links with same | other
    · rw [same, Hub.records_acceptLink]
      exact ⟨rfl, rfl⟩
    · rw [Hub.records_acceptLink_ne other] at fresh ⊢
      exact sane.blank p fresh
  case young =>
    intro p ready
    rcases eq_or_ne p m.hub.links with same | other
    · rw [same, Hub.records_acceptLink] at ready
      cases ready
    · rw [Hub.records_acceptLink_ne other] at ready
      exact Nat.lt_succ_of_lt (sane.young p ready)
  case keyed =>
    intro key p found
    have before := sane.keyed key p found
    rw [kept before.1]
    exact before
  case threads =>
    intro thread member
    obtain ⟨known, needs⟩ := sane.threads thread member
    refine ⟨Nat.lt_succ_of_lt known, fun task listed wants => ?_⟩
    rw [kept (needs task listed wants)]
    exact needs task listed wants

theorem Sane.leave (sane : m.Sane) {p : Nat} {key : Bytes} {room : Text} (listed : room ∈ (m.hub.records p).rooms) :
    Sane { m with hub := m.hub.leave p key room } := by
  have ready : ∀ q, ((m.hub.leave p key room).records q).ready = (m.hub.records q).ready := by
    intro q
    rw [Hub.records_leave]
    exact Hub.update_field HubPeer.ready (by intro; rfl) q
  constructor
  case blank =>
    intro q fresh
    rw [ready] at fresh
    have blank := sane.blank q fresh
    have other : q ≠ p := by
      intro same
      rw [← same, blank.1] at listed
      exact notMem_empty room listed
    rw [Hub.records_leave, Hub.records_update_ne other]
    exact blank
  case young =>
    intro q registered
    exact sane.young q (ready q ▸ registered)
  case keyed => exact sane.keyed.of_hash (fun _ _ found => found) (Hub.hash_leave key room)
  case threads =>
    intro thread member
    obtain ⟨known, needs⟩ := sane.threads thread member
    exact ⟨known, fun task listed wants => (ready _).trans (needs task listed wants)⟩

/-- What a task of a link does to the hub leaves the threads as sane as they were. -/
theorem Sane.effect {h' : Hub} {p : Nat} (sane : m.Sane) (known : p < m.hub.links)
    (needs : task.needsIdentity = true → (m.hub.records p).ready = true) (effect : Hub.Effect c m.hub p task h') :
    Sane { m with hub := h' } := by
  constructor
  case blank =>
    intro q fresh
    have before : (m.hub.records q).ready = false := by
      by_contra ready
      have after := effect.ready (Bool.eq_true_of_not_eq_false ready)
      exact Bool.false_ne_true (fresh.symm.trans after)
    exact effect.blank needs before (sane.blank q before)
  case young =>
    intro q ready
    change q < h'.links
    rw [effect.links]
    rcases effect.hash q with same | ⟨same, _, _⟩
    · apply sane.young q
      unfold HubPeer.ready at *
      rw [← same]
      exact ready
    · rw [same]
      exact known
  case keyed => exact sane.keyed.effect effect
  case threads =>
    intro t member
    obtain ⟨known, wants⟩ := sane.threads t member
    exact ⟨effect.links ▸ known, fun task listed identity => effect.ready (wants task listed identity)⟩

theorem Sane.advance (sane : m.Sane) (next : m.next i = some (thread, task)) :
    (m.advance c i a thread task).1.Sane := by
  have effect := Task.effect c a m.hub thread.link task
  have needs := sane.needs next
  obtain ⟨found, rest, tasks⟩ := next_eq_some.1 next
  have own := sane.threads thread (mem_of_getElem? found)
  have after := sane.effect own.1 needs effect
  refine ⟨after.blank, after.young, after.keyed, fun t member => ?_⟩
  rcases mem_or_eq_of_mem_set member with old | new
  · exact after.threads t old
  · rw [new]
    refine ⟨effect.links ▸ own.1, fun t listed identity => ?_⟩
    rcases mem_append.1 listed with follows | later
    · exact Task.next_needs needs follows identity
    · exact effect.ready (own.2 t (mem_of_mem_tail later) identity)

/-- A registered link stays one, and tasks that need an identity run on registered links only. -/
theorem Sane.step (sane : m.Sane) (stepped : Stepped c m event m') : m'.Sane := by
  cases stepped with
  | accept now => exact Sane.spawn (sane.accept _ now) (Nat.lt_succ_self _) (by simp [Task.needsIdentity])
  | spawn known opening => exact sane.spawn known opening.free
  | removeFromRoom _ listed => exact sane.leave listed
  | refused => exact sane
  | advance next => exact sane.advance next

theorem Sane.of_run {events : List HubEvent} (ran : ({} : HubMachine).run c events = some m) : m.Sane := by
  have kept : ∀ (m : HubMachine) (event : HubEvent) (m' : HubMachine), m.Sane → m.step c event = some m' → m'.Sane :=
    fun _ _ _ sane stepped => sane.step (stepped_of_step stepped)
  exact invariant_of_run kept .start ran

end HubMachine
end ReticulumProtocols.Rrc
