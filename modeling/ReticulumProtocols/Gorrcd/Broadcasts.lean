import ReticulumProtocols.Gorrcd.Moderation

/-! Which broadcasts `AllowContent` would let through at the moment they are made. A chat message is checked in one
section and relayed in a later one, so that its right to be relayed has to outlive what runs in between; the notice of a
resource is broadcast without a check. -/

namespace ReticulumProtocols.Gorrcd
open Wire Cbor Lxmf Index Rrc Concurrency List

/-- The task runs a command of an identity with a say in a room. -/
def Service.Commands (s : Service) (p : Nat) (room : Text) : Task → Prop
  | .serve env active => active = true ∧ (env.type = .msg ∨ env.type = .notice) ∧ isCommand env = true ∧
      ∃ id ∈ idFrom (s.hub.records p).peerHash, s.Operates id room
  | _ => False

instance (s : Service) (id : ID) (room : Text) : Decidable (s.Operates id room) := inferInstanceAs (Decidable (_ = _))

instance (s : Service) (p : Nat) (room : Text) (task : Task) : Decidable (s.Commands p room task) := by
  apply @Rrc.Task.casesOn _ task
  all_goals
    intros
    dsimp only [Service.Commands]
    infer_instance

/-- A message that `AllowContent` has let through. -/
def checked : Task → Option Envelope
  | .onRoomContent env => some env
  | _ => none

namespace Daemon
variable (lib : Library) (d : Daemon)

/-- The peers and rooms of the messages that were checked and are still to be relayed. -/
def waiting : List (Bytes × Text) :=
  d.threads.flatMap fun thread => thread.tasks.filterMap fun task => (checked task).map fun env =>
    ((d.service.hub.records thread.link).peerHash, lib.unicode.normalizeRoom (env.room.getD []))

/-- The event can take away what lets a peer post to a room: its place in the room, a privilege, or the room. -/
def Revokes (peer : Bytes) (room : Text) : DaemonEvent → Prop
  | .step i _ _ => ∃ next ∈ d.machine.next i,
      next.2.Unseats lib.unicode d.service.hub next.1.link (peerKey peer) room ∨
        d.service.Commands next.1.link room next.2
  | .disconnect target _ => peerKey target = peerKey peer
  | .prune _ _ => (d.service.rooms.state room).registered = true ∧ room ∉ d.service.hub.occupiedRooms
  | _ => False

instance (peer : Bytes) (room : Text) (event : DaemonEvent) : Decidable (d.Revokes lib peer room event) := by
  apply @DaemonEvent.casesOn _ event
  case prune => exact fun _ _ => decidable_of_iff (_ ∧ ∀ other ∈ _, ¬room = other) (and_congr_right' forall_mem_ne)
  all_goals
    intros
    dsimp only [Revokes]
    infer_instance

/-- A payload meets no announced notice for a room that restricts its sender. -/
def Unrestricted : DaemonEvent → Prop
  | .concluded link payload a => ∀ id ∈ peerOf d.service.hub a.visit link, ∀ e ∈ d.resources.visited id a.visit,
      e.fits payload = true → e.notifies = true →
        d.service.rooms.Frees (lib.unicode.normalizeRoom e.room) id
          (d.service.hub.isMember lib.unicode id.1 (lib.unicode.normalizeRoom e.room)) (d.service.isTrusted id)
  | _ => True

instance (event : DaemonEvent) : Decidable (d.Unrestricted lib event) := by
  unfold Unrestricted
  split
  all_goals infer_instance

/-- Nothing that a checked message relies on is revoked before it is relayed, and no transfer brings a notice into a room
that restricts its sender. -/
structure Orderly (event : DaemonEvent) : Prop where
  relays : ∀ message ∈ d.waiting lib, ¬ d.Revokes lib message.1 message.2 event
  transfers : d.Unrestricted lib event

instance (event : DaemonEvent) : Decidable (d.Orderly lib event) :=
  decidable_of_iff ((∀ message ∈ d.waiting lib, ¬ d.Revokes lib message.1 message.2 event) ∧ d.Unrestricted lib event)
    ⟨fun ⟨relays, transfers⟩ => ⟨relays, transfers⟩, fun orderly => ⟨orderly.relays, orderly.transfers⟩⟩

end Daemon

namespace Daemon
variable {lib : Library} {d d' : Daemon} {a : Answer} {w : Outside} {p i : Nat} {thread : Thread} {task : Task}
  {peer : Bytes} {room : Text}
variable {c : HubConfig} {env : Envelope}

theorem mem_waiting : (peer, room) ∈ d.waiting lib ↔ ∃ thread ∈ d.threads, ∃ env, .onRoomContent env ∈ thread.tasks ∧
    peer = (d.service.hub.records thread.link).peerHash ∧ room = lib.unicode.normalizeRoom (env.room.getD []) := by
  unfold waiting
  rw [mem_flatMap]
  apply exists_congr
  intro thread
  apply and_congr_right
  intro _
  rw [mem_filterMap]
  constructor
  · rintro ⟨task, member, checked⟩
    cases task
    case onRoomContent env =>
      cases checked
      exact ⟨env, member, rfl, rfl⟩
    all_goals cases checked
  · rintro ⟨env, member, rfl, rfl⟩
    exact ⟨.onRoomContent env, member, rfl⟩

/-- Every message that was checked and is still to be relayed may be relayed now. -/
def Cleared (lib : Library) (d : Daemon) : Prop := ∀ peer room, (peer, room) ∈ d.waiting lib → d.service.Permits lib peer room

/-- What a step leaves waiting, waited before it or is checked in it. -/
theorem Cleared.step (sane : d.machine.Sane) (cleared : d.Cleared lib)
    (hash : ∀ q, (d.service.hub.records q).ready = true →
      (d'.service.hub.records q).peerHash = (d.service.hub.records q).peerHash)
    (retains : ∀ peer room, (peer, room) ∈ d.waiting lib → d.service.Retains lib.unicode peer room d'.service)
    (threads : ∀ thread' ∈ d'.threads, ∀ env, .onRoomContent env ∈ thread'.tasks →
      (∃ thread ∈ d.threads, thread.link = thread'.link ∧ .onRoomContent env ∈ thread.tasks) ∨
        d'.service.Permits lib (d'.service.hub.records thread'.link).peerHash
          (lib.unicode.normalizeRoom (env.room.getD []))) : d'.Cleared lib := by
  intro peer room waits
  obtain ⟨thread', member, env, content, rfl, rfl⟩ := mem_waiting.1 waits
  rcases threads thread' member env content with ⟨thread, old, link, content⟩ | fresh
  · have ready := (sane.threads thread old).2 _ content rfl
    rw [← link, hash _ ready]
    have waited : ((d.service.hub.records thread.link).peerHash, lib.unicode.normalizeRoom (env.room.getD [])) ∈
        d.waiting lib := mem_waiting.2 ⟨thread, old, env, content, rfl, rfl⟩
    exact (retains _ _ waited).permits (cleared _ _ waited)
  · exact fresh

theorem serves_of_content {h : Hub}
    (listed : .onRoomContent env ∈ (task.run c a h p).next) : ∃ env' active, task = .serve env' active := by
  cases task with
  | serve env' active => exact ⟨env', active, rfl⟩
  | remote | reindexNick | deactivate | onRoomContent | onDirectNotice => simp [Task.run] at listed
  | _ =>
    simp only [Task.run, Hub.registerTurn, Hub.identify, Hub.takePending, Hub.receive, Hub.handlePeer, Hub.greet,
      Hub.applyInboundNick, Hub.setNick, Hub.onHello, Hub.joinTurn, Hub.onPart, Hub.close, Hub.dropPeerIf] at listed
    repeat' split at listed
    all_goals simp at listed

/-- A content envelope waits for its relay if the policy neither took it as a command nor objected. -/
theorem content_of_serve {h : Hub} {env env' : Envelope} {active : Bool} (police : c.policy = true)
    (listed : .onRoomContent env' ∈ (h.serve c a p env active).next) :
    env' = env ∧ active = true ∧ a.error = none ∧ (env.type = .action ∨
      (a.intercepts = false ∧ (env.type = .msg ∨ (env.type = .notice ∧ env.destination.isSome = false)))) := by
  have dispatched (listed : .onRoomContent env' ∈ (h.dispatchContent c a p env).next) :
      env' = env ∧ a.error = none := by
    unfold Hub.dispatchContent at listed
    rw [police] at listed
    split at listed
    next => cases listed
    next none => exact ⟨Task.onRoomContent.inj (mem_singleton.1 listed), none⟩
  have kept (passed : ¬ Hub.tryIntercept c a = true) : a.intercepts = false := by
    unfold Hub.tryIntercept at passed
    rw [police, Bool.true_and] at passed
    exact Bool.eq_false_iff.2 passed
  unfold Hub.serve at listed
  split at listed
  next => cases listed
  next =>
    split at listed
    next =>
      split at listed
      all_goals simp at listed
    next awake =>
      have active : active = true := Bool.eq_true_of_not_eq_false awake
      split at listed
      next => simp at listed
      next =>
        unfold Hub.onJoin at listed
        dsimp only at listed
        repeat' split at listed
        all_goals simp at listed
      next => simp at listed
      next type =>
        split at listed
        next => cases listed
        next passed =>
          split at listed
          next => simp at listed
          next indirect =>
            obtain ⟨same, none⟩ := dispatched listed
            exact ⟨same, active, none, .inr ⟨kept passed, .inr ⟨type, Bool.eq_false_iff.2 indirect⟩⟩⟩
      next type =>
        split at listed
        next => cases listed
        next passed =>
          obtain ⟨same, none⟩ := dispatched listed
          exact ⟨same, active, none, .inr ⟨kept passed, .inl type⟩⟩
      next type =>
        obtain ⟨same, none⟩ := dispatched listed
        exact ⟨same, active, none, .inl type⟩
      all_goals cases listed

/-- An envelope that is not taken as a command leaves the service to the next question. -/
theorem intercepted_of_kept {next : Ruling}
    (kept : (d.intercepted lib w p env next).intercepts = false) : d.intercepted lib w p env next = next := by
  unfold intercepted at kept ⊢
  split at kept
  next => cases kept
  next => rfl

/-- The turn of the hub in a task, with the answers that the service gives. -/
def turn (lib : Library) (d : Daemon) (a : Answer) (w : Outside) (p : Nat) (task : Task) : Turn :=
  task.run (d.service.config lib)
    { a with error := (d.consult lib a w p task).error, intercepts := (d.consult lib a w p task).intercepts }
    (d.consult lib a w p task).service.hub p

theorem effect_turn : Hub.Effect (d.service.config lib) (d.consult lib a w p task).service.hub p task
    (d.turn lib a w p task).hub :=
  Task.effect ..

theorem hub_turn_serve {active : Bool} (serves : task = .serve env active) :
    (d.turn lib a w p task).hub = (d.consult lib a w p task).service.hub := by
  rw [serves]
  exact Hub.hub_serve ..

/-- A message that has just been checked may be relayed, and the check changed nothing. -/
theorem permits_of_checked (listed : .onRoomContent env ∈ (d.turn lib a w p task).next) :
    (∃ active, task = .serve env active) ∧ (d.consult lib a w p task).service = d.service ∧
      d.service.Permits lib (d.service.hub.records p).peerHash (lib.unicode.normalizeRoom (env.room.getD [])) := by
  obtain ⟨env', active, rfl⟩ := serves_of_content listed
  obtain ⟨rfl, rfl, passed, content⟩ := content_of_serve rfl listed
  rw [Service.permits_iff]
  refine ⟨⟨true, rfl⟩, ?_⟩
  change (d.consult lib a w p (.serve env true)).error = none at passed
  change (d.ask lib a w p env).error = none at passed
  change (d.ask lib a w p env).service = d.service ∧ _
  rcases content with type | ⟨kept, type⟩
  · unfold ask at passed ⊢
    rw [type] at passed ⊢
    exact ⟨rfl, passed⟩
  · change (d.ask lib a w p env).intercepts = false at kept
    unfold ask at passed kept ⊢
    rcases type with type | ⟨type, indirect⟩
    · rw [type] at passed kept ⊢
      dsimp only at passed kept ⊢
      rw [intercepted_of_kept kept] at passed ⊢
      exact ⟨rfl, passed⟩
    · rw [type, indirect] at passed kept ⊢
      dsimp only at passed kept ⊢
      rw [intercepted_of_kept kept] at passed ⊢
      exact ⟨rfl, passed⟩

/-- What the service does to itself when the hub asks it in a task of link `p`: nothing that silences anyone, or a
command. -/
inductive Consulted (lib : Library) (w : Outside) (s : Service) (p : Nat) (task : Task) : Service → Prop where
  | quiet {s' : Service} (hub : s'.hub = s.hub) (retains : ∀ u peer room, s.Retains u peer room s') :
      Consulted lib w s p task s'
  | command {s' : Service} {env : Envelope} {id : ID} (serves : task = .serve env true)
      (type : env.type = .msg ∨ env.type = .notice) (command : isCommand env = true)
      (own : idFrom (s.hub.records p).peerHash = some id) (move : s.Move lib w id s') : Consulted lib w s p task s'

theorem Consulted.refl : Consulted lib w d.service p task d.service :=
  .quiet rfl fun u peer room => .refl u peer room d.service

theorem consulted_intercepted {next : Ruling} (same : next.service = d.service)
    (type : env.type = .msg ∨ env.type = .notice) :
    Consulted lib w d.service p (.serve env true) (d.intercepted lib w p env next).service := by
  unfold intercepted
  split
  next service replies taken =>
    obtain ⟨command, same | ⟨id, own, move⟩⟩ := Service.intercept_cases taken
    · dsimp only at same ⊢
      rw [same]
      exact .refl
    · exact .command rfl type command own move
  next =>
    rw [same]
    exact .refl

theorem consulted_ask :
    Consulted lib w d.service p (.serve env true) (d.ask lib a w p env).service := by
  unfold ask
  dsimp only
  split
  next =>
    split
    next => exact .quiet Service.hub_allowJoin fun u peer room => Service.retains_allowJoin
    next => exact .refl
  next type =>
    apply consulted_intercepted _ (.inr type)
    split
    next => rfl
    next => rfl
  next type => exact consulted_intercepted rfl (.inl type)
  next => exact .refl
  next =>
    split
    next => exact .refl
    next =>
      split
      next => exact .refl
      next => exact .refl
  next => exact .refl

theorem consulted : Consulted lib w d.service p task (d.consult lib a w p task).service := by
  unfold consult
  split
  next => exact .refl
  next => exact consulted_ask
  next => exact .refl

theorem Consulted.sane {s : Service} {threads : List Thread} (consulted : Consulted lib w d.service p task s)
    (sane : HubMachine.Sane { hub := d.service.hub, threads }) : HubMachine.Sane { hub := s.hub, threads } := by
  cases consulted with
  | quiet hub =>
    rw [hub]
    exact sane
  | command _ _ _ _ move => exact move.sane sane

theorem Consulted.hash {s : Service} {q : Nat} (consulted : Consulted lib w d.service p task s)
    (ready : (d.service.hub.records q).ready = true) :
    (s.hub.records q).peerHash = (d.service.hub.records q).peerHash := by
  cases consulted with
  | quiet hub => rw [hub]
  | command _ _ _ _ move => exact move.hash ready

/-- A task of a thread leaves a peer its right to post unless it takes it away. -/
theorem retains_advance (lawful : lib.unicode.Lawful) (sane : d.machine.Sane)
    (normal : lib.unicode.normalizeRoom room = room)
    (seated : ¬ task.Unseats lib.unicode d.service.hub thread.link (peerKey peer) room)
    (uncommanded : ¬ d.service.Commands thread.link room task) :
    d.service.Retains lib.unicode peer room (d.advance lib i a w thread task).1.service := by
  apply Service.Retains.trans _ Service.retains_settle
  have consulted : Consulted lib w d.service thread.link task (d.consult lib a w thread.link task).service := consulted
  have effect : Hub.Effect (d.service.config lib) _ thread.link task (d.turn lib a w thread.link task).hub := effect_turn
  change d.service.Retains lib.unicode peer room
    { (d.consult lib a w thread.link task).service with hub := (d.turn lib a w thread.link task).hub }
  cases consulted with
  | quiet hub retains =>
    rw [hub] at effect
    obtain ⟨trust, known, state, _⟩ := retains lib.unicode peer room
    refine ⟨trust, known, state, fun member => ?_⟩
    rw [Hub.isMember_iff, normal] at member ⊢
    exact effect.lists sane.keyed member seated
  | @command env id serves type command own move =>
    have low : d.service.Lowly id room := by
      apply Service.Lowly.of_not_operates
      intro operates
      rw [serves] at uncommanded
      exact uncommanded ⟨rfl, type, command, id, own, operates⟩
    rw [hub_turn_serve serves]
    exact move.retains lawful normal low

theorem Cleared.advance (lawful : lib.unicode.Lawful) (sane : d.machine.Sane) (cleared : d.Cleared lib)
    (next : d.machine.next i = some (thread, task))
    (relays : ∀ message ∈ d.waiting lib, ¬ d.Revokes lib message.1 message.2 (.step i a w)) :
    (d.advance lib i a w thread task).1.Cleared lib := by
  have consulted : Consulted lib w d.service thread.link task (d.consult lib a w thread.link task).service := consulted
  have hub : (d.advance lib i a w thread task).1.service.hub = (d.turn lib a w thread.link task).hub :=
    Service.hub_settle
  apply cleared.step sane
  case hash =>
    intro q ready
    have same := consulted.hash ready
    have ready' : ((d.consult lib a w thread.link task).service.hub.records q).ready = true := by
      unfold HubPeer.ready at ready ⊢
      rw [same]
      exact ready
    rw [hub]
    exact (effect_turn.hash_of_ready ready').trans same
  case retains =>
    intro peer room waits
    have kept := relays (peer, room) waits
    obtain ⟨_, _, env, _, _, rfl⟩ := mem_waiting.1 waits
    apply retains_advance lawful sane (lawful.normalizeRoom _)
    · exact fun unseats => kept ⟨(thread, task), next, .inl unseats⟩
    · exact fun commands => kept ⟨(thread, task), next, .inr commands⟩
  case threads =>
    intro thread' member env content
    obtain ⟨found, rest, tasks⟩ := HubMachine.next_eq_some.1 next
    have own : thread ∈ d.threads := mem_of_getElem? found
    rcases mem_or_eq_of_mem_set member with old | new
    · exact .inl ⟨thread', old, rfl, content⟩
    · rw [new] at content ⊢
      rcases mem_append.1 content with fresh | later
      · obtain ⟨⟨active, rfl⟩, same, permits⟩ := permits_of_checked fresh
        have service : (d.advance lib i a w thread (.serve env active)).1.service = d.service := by
          calc (d.advance lib i a w thread (.serve env active)).1.service
              = { (d.consult lib a w thread.link (.serve env active)).service with
                  hub := (d.turn lib a w thread.link (.serve env active)).hub } := rfl
            _ = (d.consult lib a w thread.link (.serve env active)).service := by rw [hub_turn_serve rfl]
            _ = d.service := same
        rw [service]
        exact .inr permits
      · exact .inl ⟨thread, own, rfl, mem_of_mem_tail later⟩

theorem sane_advance (sane : d.machine.Sane) (next : d.machine.next i = some (thread, task)) :
    (d.advance lib i a w thread task).1.machine.Sane := by
  have ruled : HubMachine.Sane { hub := (d.consult lib a w thread.link task).service.hub, threads := d.threads } :=
    consulted.sane sane
  have advanced := ruled.advance (c := d.service.config lib) (a := { a with
    error := (d.consult lib a w thread.link task).error
    intercepts := (d.consult lib a w thread.link task).intercepts }) (i := i) next
  have hub : (d.advance lib i a w thread task).1.service.hub = (d.turn lib a w thread.link task).hub :=
    Service.hub_settle
  unfold machine
  rw [hub]
  exact advanced

theorem opened {event : HubEvent} {m : HubMachine} (sane : d.machine.Sane) (cleared : d.Cleared lib)
    (stepped : d.machine.step c event = some m) (outside : ∀ i a, event ≠ .step i a)
    (stays : ∀ peer room, event ≠ .removeFromRoom peer room) :
    (d.withMachine m).machine.Sane ∧ (d.withMachine m).Cleared lib := by
  have stepped := HubMachine.stepped_of_step stepped
  refine ⟨sane.step stepped, ?_⟩
  -- Threads that start need no identity, so that nothing waits in them.
  have started {link : Nat} {tasks : List Task} (free : ∀ task ∈ tasks, task.needsIdentity = false) {thread' : Thread}
      (member : thread' ∈ d.threads ++ [({ link, tasks } : Thread)]) {env : Envelope}
      (content : .onRoomContent env ∈ thread'.tasks) : thread' ∈ d.threads := by
    rcases mem_append.1 member with old | new
    · exact old
    · rw [mem_singleton.1 new] at content
      cases free _ content
  cases stepped with
  | accept now =>
    have same {q : Nat} (ready : (d.service.hub.records q).ready = true) :
        (d.service.hub.acceptLink c.limits.rateLimitMsgsPerMinute now).records q = d.service.hub.records q :=
      Hub.records_acceptLink_ne (sane.young q ready).ne
    apply cleared.step sane
    case hash => exact fun q ready => congrArg HubPeer.peerHash (same ready)
    case retains =>
      intro peer room _
      refine ⟨rfl, fun known => known, .refl _, fun member => ?_⟩
      rw [Hub.isMember_iff] at member ⊢
      obtain ⟨q, found, listed⟩ := member
      refine ⟨q, found, ?_⟩
      change _ ∈ ((d.service.hub.acceptLink c.limits.rateLimitMsgsPerMinute now).records q).rooms
      rw [same (sane.keyed _ q found).1]
      exact listed
    case threads =>
      intro thread' member env content
      have free : ∀ task ∈ [Task.remote], task.needsIdentity = false := by simp [Task.needsIdentity]
      exact .inl ⟨thread', started free member content, rfl, content⟩
  | spawn known opening =>
    apply cleared.step sane
    case hash => exact fun _ _ => rfl
    case retains => exact fun peer room _ => .refl lib.unicode peer room d.service
    case threads =>
      intro thread' member env content
      exact .inl ⟨thread', started opening.free member content, rfl, content⟩
  | removeFromRoom => exact absurd rfl (stays _ _)
  | refused => exact cleared
  | advance => exact absurd rfl (outside _ _)

theorem retains_disconnect (sane : d.machine.Sane) {target : Bytes}
    (other : peerKey target ≠ peerKey peer) :
    d.service.Retains lib.unicode peer room
      { d.service with hub := (d.service.hub.disconnect c a target).hub } := by
  refine ⟨rfl, fun known => known, .refl _, fun member => ?_⟩
  rw [Hub.isMember_iff] at member ⊢
  rcases Hub.disconnect_cases c a d.service.hub target with nothing | ⟨q, h₁, found, closes, drops⟩
  · dsimp only
    rw [nothing]
    exact member
  · have closed := closes.lists sane.keyed member fun unseats => unseats
    refine drops.lists (sane.keyed.effect closes) closed ?_
    rintro ⟨_, own⟩
    have key := (sane.keyed _ q found)
    apply other
    rw [← own, ← key.2]
    unfold HubPeer.key
    rw [closes.hash_of_ready key.1]
    rfl

theorem retains_prune {now started : Int} {afterS : Float} {occupied : List Text}
    (used : ¬ ((d.service.rooms.state room).registered = true ∧ room ∉ occupied)) :
    d.service.Retains lib.unicode peer room
      { d.service with rooms := d.service.rooms.pruneUnused now afterS occupied started } := by
  have same : (d.service.rooms.pruneUnused now afterS occupied started).rooms.lookup room =
      d.service.rooms.rooms.lookup room := RoomRegistry.lookup_pruneUnused used
  refine ⟨rfl, fun known => ?_, ?_, fun member => member⟩
  · rw [← AList.lookup_isSome] at known ⊢
    rw [same]
    exact known
  · unfold RoomRegistry.state
    rw [same]
    exact .refl _

/-- What holds in every state of an orderly run. -/
structure Sound (lib : Library) (d : Daemon) : Prop where
  sane : d.machine.Sane
  cleared : d.Cleared lib

/-- A change that no thread sees and that silences nobody. -/
theorem Sound.frame (sound : d.Sound lib) (sane : d'.machine.Sane) (threads : d'.threads = d.threads)
    (hash : ∀ q, (d.service.hub.records q).ready = true →
      (d'.service.hub.records q).peerHash = (d.service.hub.records q).peerHash)
    (retains : ∀ peer room, (peer, room) ∈ d.waiting lib → d.service.Retains lib.unicode peer room d'.service) :
    d'.Sound lib := by
  refine ⟨sane, sound.cleared.step sound.sane hash retains ?_⟩
  intro thread' member env content
  rw [threads] at member
  exact .inl ⟨thread', member, rfl, content⟩

theorem Sound.same (sound : d.Sound lib) (service : d'.service = d.service) (threads : d'.threads = d.threads) :
    d'.Sound lib := by
  have machine : d'.machine = d.machine := by
    unfold machine
    rw [service, threads]
  apply sound.frame _ threads
  · intro q _
    rw [service]
  · intro peer room _
    rw [service]
    exact .refl lib.unicode peer room d.service
  · rw [machine]
    exact sound.sane

theorem Sound.opened {event : HubEvent} {result : Daemon × Output} (sound : d.Sound lib)
    (moved : ((d.machine.step c event).map fun m => (d.withMachine m, ({} : Output))) = some result)
    (outside : ∀ i a, event ≠ .step i a) (stays : ∀ peer room, event ≠ .removeFromRoom peer room) :
    result.1.Sound lib := by
  obtain ⟨m, stepped, rfl⟩ := Option.map_eq_some_iff.1 moved
  obtain ⟨sane, cleared⟩ := Daemon.opened sound.sane sound.cleared stepped outside stays
  exact ⟨sane, cleared⟩

theorem concluded_fst {link : Nat} {payload : Bytes} :
    (d.concluded lib a link payload).1.service = d.service ∧ (d.concluded lib a link payload).1.threads = d.threads := by
  unfold concluded
  repeat' split
  all_goals exact ⟨rfl, rfl⟩

theorem Sound.step {event : DaemonEvent} (lawful : lib.unicode.Lawful) (sound : d.Sound lib)
    (orderly : d.Orderly lib event) (moved : d.step lib event = some d') : d'.Sound lib := by
  obtain ⟨result, sent, rfl⟩ := Option.map_eq_some_iff.1 moved
  cases event with
  | accept now =>
    dsimp only [stepSending] at sent
    obtain ⟨m, stepped, rfl⟩ := Option.map_eq_some_iff.1 sent
    obtain ⟨sane, cleared⟩ := Daemon.opened sound.sane sound.cleared stepped (by simp) (by simp)
    exact ⟨sane, cleared⟩
  | identified | packet | close => exact sound.opened sent (by simp) (by simp)
  | step i a w =>
    obtain ⟨⟨thread, task⟩, next, rfl⟩ := Option.map_eq_some_iff.1 sent
    exact ⟨sane_advance sound.sane next, sound.cleared.advance lawful sound.sane next orderly.relays⟩
  | advertised link dataSize a =>
    dsimp only [stepSending] at sent
    split at sent
    next =>
      cases sent
      exact sound.same rfl rfl
    next => cases sent
  | concluded link payload a =>
    dsimp only [stepSending] at sent
    split at sent
    next =>
      cases sent
      exact sound.same concluded_fst.1 concluded_fst.2
    next => cases sent
  | cleanup now =>
    cases sent
    exact sound.same rfl rfl
  | disconnect target a =>
    cases sent
    apply sound.frame
    · exact sound.sane.disconnect _ a target
    · rfl
    · intro q ready
      exact Hub.hash_disconnect ready
    · intro peer room waits
      exact retains_disconnect sound.sane (orderly.relays (peer, room) waits)
  | prune w started =>
    cases sent
    apply sound.frame
    · exact sound.sane
    · rfl
    · exact fun _ _ => rfl
    · intro peer room waits
      exact retains_prune (orderly.relays (peer, room) waits)

theorem permits_of_frees {id : ID} (frees : d.service.rooms.Frees room id
    (d.service.hub.isMember lib.unicode id.1 room) (d.service.isTrusted id)) : d.service.Permits lib id.1 room := by
  refine ⟨id, idFrom_val id, .inl frees.known, frees.unbanned, fun closed => ?_, fun moderated => ?_⟩
  · rcases frees.plain with ⟨inside, _⟩ | ⟨_, open_⟩
    · exact inside
    · rw [open_] at closed
      cases closed
  · rcases frees.plain with ⟨_, op⟩ | ⟨unmoderated, _⟩
    · unfold RoomRegistry.isVoiced
      rw [op]
      rfl
    · rw [unmoderated] at moderated
      cases moderated

theorem posts_concluded {link : Nat} {payload : Bytes} {post : Post}
    (free : d.Unrestricted lib (.concluded link payload a)) (posted : post ∈ (d.concluded lib a link payload).2.posts) :
    d.service.Permits lib post.peer post.room := by
  unfold concluded at posted
  split at posted
  next => cases posted
  next id own =>
    split at posted
    next => cases posted
    next e met =>
      dsimp only at posted
      split at posted
      next => cases posted
      next =>
        split at posted
        next notifies =>
          obtain ⟨copy, _, rfl⟩ := mem_map.1 posted
          have found : (d.resources.visited id a.visit).find? (fun e => e.fits payload) = some e := met
          have fits := List.find?_some found
          exact permits_of_frees (free id own e (List.mem_of_find?_eq_some found) fits notifies)
        next => cases posted

theorem Sound.posts {event : DaemonEvent} (sound : d.Sound lib) (orderly : d.Orderly lib event) :
    ∀ post ∈ d.posts lib event, d.service.Permits lib post.peer post.room := by
  intro post posted
  unfold Daemon.posts at posted
  cases sent : d.stepSending lib event with
  | none =>
    rw [sent] at posted
    cases posted
  | some result =>
    rw [sent] at posted
    change post ∈ result.2.posts at posted
    cases event with
    | step i a w =>
      obtain ⟨⟨thread, task⟩, next, rfl⟩ := Option.map_eq_some_iff.1 sent
      obtain ⟨found, rest, tasks⟩ := HubMachine.next_eq_some.1 next
      change post ∈ d.relayed lib thread.link _ task at posted
      unfold relayed at posted
      split at posted
      next env =>
        obtain ⟨copy, _, rfl⟩ := mem_map.1 posted
        apply sound.cleared
        refine mem_waiting.2 ⟨thread, mem_of_getElem? found, env, ?_, rfl, rfl⟩
        rw [tasks]
        exact mem_cons_self
      next => cases posted
    | concluded link payload a =>
      dsimp only [stepSending] at sent
      split at sent
      next =>
        cases sent
        have free : Unrestricted lib { d with transfers := d.transfers.erase link } (.concluded link payload a) :=
          orderly.transfers
        have permits := posts_concluded free posted
        exact permits
      next => cases sent
    | accept | identified | packet | close =>
      dsimp only [stepSending] at sent
      obtain ⟨m, _, rfl⟩ := Option.map_eq_some_iff.1 sent
      cases posted
    | advertised =>
      dsimp only [stepSending] at sent
      split at sent
      next =>
        cases sent
        cases posted
      next => cases sent
    | cleanup | disconnect | prune =>
      cases sent
      cases posted

end Daemon

/-- A callback takes some steps. -/
def stepsOf (i n : Nat) : List DaemonEvent := replicate n (.step i {} plainOutside)

/-- A link with an identity that is known from the start and has sent its HELLO. -/
def greeted (i link : Nat) (hash : Bytes) : List DaemonEvent :=
  .accept 0 :: .step i { remote := some hash } plainOutside :: stepsOf i 3 ++
    .packet link (inbound .hello) :: stepsOf (i + 1) 6

/-- The announcement of a notice of two bytes for room `a`. -/
def announcement : Envelope :=
  { inbound .resourceEnvelope with
    room := some ['a']
    body := some (.map [(.uint 0, .bytes [1]), (.uint 1, .text "notice".toList), (.uint 2, .uint 2)]) }

/-- Two peers; the first joins room `a`, and the second announces a notice for it and starts the transfer. -/
def announced : List DaemonEvent :=
  greeted 0 0 otherID.1 ++ greeted 2 1 someHash ++
    .packet 0 { inbound .join with room := some ['a'] } :: stepsOf 4 6 ++
    .packet 1 announcement :: stepsOf 5 5 ++ [.advertised 1 2 {}]

/-- The second peer also says something in the room. -/
def talkative : List DaemonEvent :=
  announced ++ .packet 1 { inbound .msg with room := some ['a'], body := some (.text ['h', 'i']) } :: stepsOf 6 6 ++
    [.concluded 1 [104, 105] {}]

def transferring (room : RoomState) : Service :=
  { plainService with
    hubConfig := { asciiHub with policy := true, enableResourceTransfer := true }
    rooms := ({} : RoomRegistry).put ['a'] room }

/-- A room that another identity founded and that is moderated. -/
def moderatedRoom : RoomState := { founder := some otherID, moderated := true }

end ReticulumProtocols.Gorrcd
