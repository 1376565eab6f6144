import ReticulumProtocols.Rrc.Nicknames

/-! Links whose identity the policy refused. The refusal closes the session, but nothing keeps the envelopes that the
link still delivers from being handled like any others. In the runs where those envelopes ask for nothing, they have
no effect on rooms, nicknames or other peers. -/

namespace ReticulumProtocols.Rrc
open Wire Lxmf Index Concurrency List

namespace Hub
variable {c : HubConfig} {a : Answer} {h h' : Hub} {p q : Nat} {task : Task}

/-- Sessions stay closed and links stay refused; `own` must hold where a link is refused or welcomed. -/
structure Flagged (own : Prop) (peer peer' : HubPeer) : Prop where
  closed : peer.closed = true → peer'.closed = true
  refused : peer'.refused = peer.refused ∨ (peer'.refused = true ∧ own)
  active : peer'.active = true → peer.active = true ∨ own

theorem Flagged.plain (own : Prop) {peer peer' : HubPeer} (closed : peer'.closed = peer.closed)
    (refused : peer'.refused = peer.refused) (active : peer'.active = peer.active) : Flagged own peer peer' :=
  ⟨fun before => closed.trans before, .inl refused, fun after => .inl (active.symm.trans after)⟩

/-- Only a task of a registered link refuses or welcomes it. -/
def Flags (h : Hub) (p : Nat) (task : Task) (h' : Hub) : Prop :=
  ∀ q, Flagged (q = p ∧ task.needsIdentity = true) (h.records q) (h'.records q)

theorem Flags.of_records (same : h'.records = h.records) : Flags h p task h' :=
  fun _ => same ▸ .plain _ rfl rfl rfl

theorem Flags.update {r : Nat} {change : HubPeer → HubPeer}
    (flagged : ∀ peer, Flagged (r = p ∧ task.needsIdentity = true) peer (change peer)) :
    Flags h p task (h.update r change) := by
  intro q
  rcases eq_or_ne q r with same | other
  · rw [same, records_update]
    exact flagged _
  · rw [records_update_ne other]
    exact .plain _ rfl rfl rfl

end Hub

theorem Task.flags (c : HubConfig) (a : Answer) (h : Hub) (p : Nat) (task : Task) :
    Hub.Flags h p task (task.run c a h p).hub := by
  cases task with
  | remote | greet | onRoomContent | onDirectNotice => exact .of_records rfl
  | register hash =>
    simp only [Task.run, Hub.registerTurn]
    split
    · exact .of_records rfl
    · split
      · exact .of_records rfl
      · have flags : Hub.Flags h p (.register hash) (h.update p fun peer => { peer with peerHash := hash }) :=
          .update fun _ => .plain _ rfl rfl rfl
        exact flags
  | identify hash =>
    simp only [Task.run, Hub.identify]
    split
    · split
      · dsimp only
        apply Hub.Flags.update
        exact fun _ => ⟨id, .inr ⟨rfl, rfl, rfl⟩, .inl⟩
      · exact .of_records rfl
    · exact .of_records rfl
  | takePending =>
    dsimp only [Task.run, Hub.takePending]
    apply Hub.Flags.update
    exact fun _ => .plain _ rfl rfl rfl
  | receive env =>
    simp only [Task.run, Hub.receive]
    split
    · exact .of_records rfl
    · split
      · dsimp only
        apply Hub.Flags.update
        exact fun _ => .plain _ rfl rfl rfl
      · exact .of_records rfl
  | handlePeer env =>
    have flags : Hub.Flags h p (.handlePeer env)
        (h.update p fun peer => (peer.takeToken c.limits.rateLimitMsgsPerMinute a.now).1) := by
      refine .update fun peer => ?_
      obtain ⟨tokens, lastRefill, taken⟩ := peer.takeToken_fst c.limits.rateLimitMsgsPerMinute a.now
      rw [taken]
      exact .plain _ rfl rfl rfl
    simp only [Task.run, Hub.handlePeer]
    split
    · exact flags
    · exact flags
  | applyInboundNick nick env active =>
    apply Hub.Flags.of_records
    change (h.applyInboundNick c a p nick env active).hub.records = _
    rw [Hub.hub_applyInboundNick]
  | setNick oldNick nick =>
    dsimp only [Task.run, Hub.setNick]
    apply Hub.Flags.update
    exact fun _ => .plain _ rfl rfl rfl
  | reindexNick oldNick newNick =>
    apply Hub.Flags.of_records
    dsimp only [Task.run]
    rw [Hub.reindexNick_eq]
  | serve env active =>
    apply Hub.Flags.of_records
    change (h.serve c a p env active).hub.records = _
    rw [Hub.hub_serve]
  | onHello =>
    dsimp only [Task.run, Hub.onHello]
    apply Hub.Flags.update
    exact fun _ => ⟨id, .inl rfl, fun _ => .inr ⟨rfl, rfl⟩⟩
  | deactivate =>
    dsimp only [Task.run]
    apply Hub.Flags.update
    exact fun _ => ⟨id, .inl rfl, Bool.noConfusion⟩
  | join room =>
    simp only [Task.run, Hub.joinTurn]
    split
    · exact .of_records rfl
    · dsimp only
      split
      · exact .of_records rfl
      · have flags : Hub.Flags h p (.join room)
            (h.update p fun peer => { peer with rooms := peer.rooms.insert room () }) :=
          .update fun _ => .plain _ rfl rfl rfl
        exact flags
  | onPart name =>
    simp only [Task.run, Hub.onPart]
    split
    · exact .of_records rfl
    · have flags : Hub.Flags h p (.onPart name) (h.update p fun peer =>
          { peer with rooms := peer.rooms.erase (c.unicode.normalizeRoom name) }) :=
        .update fun _ => .plain _ rfl rfl rfl
      exact flags
  | close q =>
    simp only [Task.run, Hub.close]
    split
    · exact .of_records rfl
    · dsimp only
      apply Hub.Flags.update
      exact fun _ => ⟨fun _ => rfl, .inl rfl, .inl⟩
  | dropPeerIf q =>
    simp only [Task.run, Hub.dropPeerIf]
    split
    · exact .of_records rfl
    · have flags : Hub.Flags h p (.dropPeerIf q) (h.update q fun peer => { peer with rooms := ∅ }) :=
        .update fun _ => .plain _ rfl rfl rfl
      intro r
      rw [Hub.records_drop]
      exact flags r

/-- The tasks of a callback up to the start of `handlePeer`. -/
def Task.opens : Task → Bool
  | .remote | .register _ | .identify _ | .takePending | .receive _ | .handlePeer _ => true
  | _ => false

def Task.receives : Task → Bool
  | .receive _ => true
  | _ => false

/-- Only the receipt of an envelope waits behind these tasks. -/
def Task.Before (task later : Task) : Prop := task.opens = true → later.receives = true

/-- Tasks that open a callback follow only on such tasks, and with nothing behind them. -/
def OpensLast (opens : Bool) (next : List Task) : Prop :=
  next.Pairwise Task.Before ∧ ∀ task ∈ next, task.opens = true → opens = true

theorem opensLast_of_closed {opens : Bool} {next : List Task} (closed : ∀ task ∈ next, task.opens = false) :
    OpensLast opens next := by
  constructor
  · apply pairwise_of_forall_mem_list
    intro task member later _ open_
    rw [closed task member] at open_
    cases open_
  · intro task member open_
    rw [closed task member] at open_
    cases open_

theorem opensLast_singleton (task : Task) : OpensLast true [task] := by
  simp [OpensLast]

theorem opensLast_nil (opens : Bool) : OpensLast opens [] := by
  simp [OpensLast]

theorem Task.opensLast (c : HubConfig) (a : Answer) (h : Hub) (p : Nat) (task : Task) :
    OpensLast task.opens (task.run c a h p).next := by
  cases task with
  | remote =>
    simp only [Task.run]
    cases a.remote with
    | none => exact opensLast_nil _
    | some hash => exact opensLast_singleton _
  | register hash =>
    simp only [Task.run, Hub.registerTurn]
    split
    · exact opensLast_nil _
    · split
      · exact opensLast_singleton _
      · cases h.replaced p hash with
        | none => exact opensLast_singleton _
        | some old => simp [OpensLast, Task.Before, Task.opens]
  | identify hash =>
    simp only [Task.run, Hub.identify]
    repeat' split
    all_goals exact opensLast_singleton _
  | takePending =>
    simp only [Task.run, Hub.takePending]
    split
    · cases (h.records p).pendingHello with
      | none => exact opensLast_nil _
      | some env => exact opensLast_singleton _
    · exact opensLast_nil _
  | receive env =>
    simp only [Task.run, Hub.receive]
    repeat' split
    all_goals exact opensLast_singleton _
  | serve env active =>
    apply opensLast_of_closed
    simp only [Task.run]
    unfold Hub.serve Hub.onJoin Hub.dispatchContent
    dsimp only
    repeat' split
    all_goals simp +contextual [Task.opens, or_imp]
  | handlePeer | greet | applyInboundNick | setNick | reindexNick | onHello | deactivate | join | onPart | onRoomContent
  | onDirectNotice | close | dropPeerIf =>
    apply opensLast_of_closed
    simp only [Task.run, Hub.handlePeer, Hub.greet, Hub.applyInboundNick, Hub.setNick, Hub.onHello, Hub.joinTurn,
      Hub.onPart, Hub.close, Hub.dropPeerIf]
    repeat' split
    all_goals simp [Task.opens]

/-- A nickname that `applyInboundNick` finds too long. -/
def TooLong (c : HubConfig) (nick : Text) : Prop :=
  c.limits.maxNickBytes < byteLength (c.unicode.sanitizeNick nick)

instance (c : HubConfig) (nick : Text) : Decidable (TooLong c nick) := inferInstanceAs (Decidable (_ < _))

/-- An envelope that asks a peer's hub for nothing: a PONG, anything but a HELLO before the welcome, and after it
anything but a HELLO, a JOIN, a PART and the content of rooms. -/
def Envelope.Idle (env : Envelope) (active : Bool) : Prop :=
  env.type = .pong ∨
    if active then env.type ∉ [.hello, .join, .part, .notice, .msg, .action] else env.type ≠ .hello

instance (env : Envelope) (active : Bool) : Decidable (env.Idle active) := by
  unfold Envelope.Idle
  infer_instance

namespace Hub
variable {active : Bool} {env : Envelope}

/-- What an envelope of link `p` asks for is without effect: it renames nothing, closes nothing that is open, and is
idle. -/
def AsksNothing (c : HubConfig) (h : Hub) (p : Nat) : Task → Prop
  | .applyInboundNick nick _ active =>
    ¬ h.Renames c p nick ∧ (TooLong c nick → active = true ∨ (h.records p).closed = true)
  | .serve env active => env.Idle active
  | _ => True

instance (c : HubConfig) (h : Hub) (p : Nat) (task : Task) : Decidable (h.AsksNothing c p task) := by
  apply @Task.casesOn _ task
  all_goals
    intros
    dsimp only [AsksNothing]
    infer_instance

/-- What remains to be done for an envelope on a refused link. -/
def Inert (h : Hub) (p : Nat) : Task → Prop
  | .receive _ | .handlePeer _ | .greet _ | .applyInboundNick .. | .serve .. => True
  | .close q => q = p ∧ (h.records p).closed = true
  | _ => False

variable {c : HubConfig} {a : Answer} {h h' : Hub} {p : Nat} {task : Task}

theorem serve_idle (idle : env.Idle active) :
    (h.serve c a p env active).next = [] ∧ ∀ out ∈ (h.serve c a p env active).sent, out.link = p := by
  have resource : ∀ out ∈ onResourceEnvelope c a p env, out.link = p := by
    unfold onResourceEnvelope
    dsimp only
    repeat' split
    all_goals simp
  unfold serve
  split
  next => simp
  next other =>
    have asks := idle.resolve_left other
    cases active with
    | false =>
      rw [if_pos rfl, if_neg asks]
      simp
    | true =>
      rw [if_neg (by simp)]
      cases type : env.type with
      | hello | join | part | notice | msg | action => simp [type] at asks
      | resourceEnvelope => exact ⟨rfl, resource⟩
      | ping => simp [onPing]
      | welcome | joined | parted | pong | error | other => simp

/-- Rooms, nicknames and welcomes stay as they are, and what is sent goes to the link itself. -/
structure NoEffect (h : Hub) (p : Nat) (turn : Turn) : Prop where
  rooms : turn.hub.rooms = h.rooms
  nickIndex : turn.hub.nickIndex = h.nickIndex
  active : ∀ q, (turn.hub.records q).active = (h.records q).active
  sent : ∀ out ∈ turn.sent, out.link = p

theorem noEffect_handlePeer (env : Envelope) : NoEffect h p (h.handlePeer c a p env) := by
  have active : ∀ q, ((h.update p fun peer => (peer.takeToken c.limits.rateLimitMsgsPerMinute a.now).1).records q).active =
      (h.records q).active := by
    apply update_field HubPeer.active
    intro peer
    obtain ⟨tokens, lastRefill, taken⟩ := peer.takeToken_fst c.limits.rateLimitMsgsPerMinute a.now
    rw [taken]
  unfold handlePeer
  dsimp only
  split
  · exact ⟨rfl, rfl, active, by simp⟩
  · exact ⟨rfl, rfl, active, by simp⟩

theorem noEffect_applyInboundNick (nick : Text) (env : Envelope) (active : Bool) :
    NoEffect h p (h.applyInboundNick c a p nick env active) := by
  have sent : ∀ out ∈ (h.applyInboundNick c a p nick env active).sent, out.link = p := by
    unfold applyInboundNick
    dsimp only
    repeat' split
    all_goals simp
  constructor
  case rooms => rw [hub_applyInboundNick]
  case nickIndex => rw [hub_applyInboundNick]
  case active => rw [hub_applyInboundNick]; exact fun _ => rfl
  case sent => exact sent

/-- Without a rename there is nothing to do about a nickname but to serve the envelope, or to close a session that is
closed already. -/
theorem inert_applyInboundNick {nick : Text}     (asks : h.AsksNothing c p (.applyInboundNick nick env active)) :
    ∀ task ∈ (h.applyInboundNick c a p nick env active).next, h.Inert p task := by
  obtain ⟨keeps, closed⟩ := asks
  unfold applyInboundNick
  dsimp only
  split
  next => simp [Inert]
  next named =>
    split
    next long =>
      dsimp only
      split
      next inactive =>
        have shut := (closed long).resolve_left (by simp [inactive])
        simp [Inert, shut]
      next =>
        split
        all_goals simp [Inert]
    next short =>
      split
      next => simp [Inert]
      next other => exact absurd ⟨named, not_lt.1 short, other⟩ keeps

theorem noEffect_serve (idle : env.Idle active) :
    NoEffect h p (h.serve c a p env active) := by
  constructor
  case rooms => rw [hub_serve]
  case nickIndex => rw [hub_serve]
  case active => rw [hub_serve]; exact fun _ => rfl
  case sent => exact (serve_idle idle).2

/-- What remains to be done for an envelope on a refused link has no effect and leads to nothing else. -/
theorem Inert.run (inert : h.Inert p task) (ready : (h.records p).ready = true) (asks : h.AsksNothing c p task) :
    NoEffect h p (task.run c a h p) ∧ ∀ t ∈ (task.run c a h p).next, (task.run c a h p).hub.Inert p t := by
  cases task with
  | receive env =>
    simp only [Task.run, receive]
    rw [if_pos ready]
    exact ⟨⟨rfl, rfl, fun _ => rfl, by simp⟩, by simp [Inert]⟩
  | handlePeer env =>
    refine ⟨noEffect_handlePeer env, ?_⟩
    simp only [Task.run, handlePeer]
    split
    all_goals simp [Inert]
  | greet env =>
    refine ⟨⟨rfl, rfl, fun _ => rfl, by simp [Task.run, greet]⟩, ?_⟩
    simp only [Task.run, greet]
    split
    all_goals simp [Inert]
  | applyInboundNick nick env active =>
    refine ⟨noEffect_applyInboundNick nick env active, ?_⟩
    simp only [Task.run]
    rw [hub_applyInboundNick]
    exact inert_applyInboundNick asks
  | serve env active =>
    refine ⟨noEffect_serve asks, ?_⟩
    simp only [Task.run]
    rw [(serve_idle asks).1]
    simp
  | close q =>
    obtain ⟨rfl, closed⟩ := inert
    simp only [Task.run, close]
    rw [if_pos closed]
    exact ⟨⟨rfl, rfl, fun _ => rfl, by simp⟩, by simp⟩
  | remote | register | identify | takePending | setNick | reindexNick | onHello | deactivate | join | onPart
  | onRoomContent | onDirectNotice | dropPeerIf => exact inert.elim

theorem Inert.of_flags (inert : h.Inert p task)
    (closed : (h.records p).closed = true → (h'.records p).closed = true) : h'.Inert p task := by
  cases task with
  | close q => exact ⟨inert.1, closed inert.2⟩
  | _ => exact inert

end Hub

namespace HubMachine
variable {c : HubConfig} {m m' : HubMachine} {i : Nat} {a : Answer} {thread : Thread} {task : Task} {event : HubEvent}

/-- What is handled on a refused link asks for nothing. -/
def Harmless (c : HubConfig) (m : HubMachine) (event : HubEvent) : Prop :=
  m.OnTask (fun thread task => m.handlesLate thread task = true → m.hub.AsksNothing c thread.link task) event

instance (c : HubConfig) (m : HubMachine) (event : HubEvent) : Decidable (m.Harmless c event) := by
  unfold Harmless
  infer_instance

/-- A step that handles an envelope on a refused link is without effect. -/
def LateNoEffect (c : HubConfig) (m : HubMachine) : HubEvent → Prop
  | .step i a => ∀ thread task, m.next i = some (thread, task) → m.handlesLate thread task = true →
      m.hub.NoEffect thread.link (task.run c a m.hub thread.link)
  | _ => True

structure Watched (m : HubMachine) : Prop where
  order : ∀ thread ∈ m.threads, thread.tasks.Pairwise Task.Before
  ready : ∀ q, (m.hub.records q).refused = true → (m.hub.records q).ready = true
  late : ∀ thread ∈ m.threads, thread.late = true →
    (m.hub.records thread.link).refused = true ∧ ∀ task ∈ thread.tasks, m.hub.Inert thread.link task

theorem Watched.start : Watched {} where
  order _ member := by cases member
  ready _ refused := by cases refused
  late _ member := by cases member

/-- On a refused link, what waits behind the task that a thread runs is the receipt of an envelope or inert. -/
theorem Watched.inert (watched : m.Watched) (next : m.next i = some (thread, task))
    (late : m.handlesLate thread task = true) :
    (m.hub.records thread.link).refused = true ∧ m.hub.Inert thread.link task ∧
      ∀ t ∈ thread.tasks.tail, m.hub.Inert thread.link t := by
  obtain ⟨found, rest, tasks⟩ := next_eq_some.1 next
  have member := mem_of_getElem? found
  rcases Bool.or_eq_true_iff.1 late with already | starts
  · obtain ⟨refused, inert⟩ := watched.late thread member already
    rw [tasks] at inert ⊢
    exact ⟨refused, inert task mem_cons_self, fun t later => inert t (mem_cons_of_mem task later)⟩
  · obtain ⟨starts, refused⟩ := Bool.and_eq_true_iff.1 starts
    have order := watched.order thread member
    rw [tasks] at order ⊢
    cases task with
    | handlePeer env =>
      refine ⟨refused, trivial, fun t later => ?_⟩
      have receives := (pairwise_cons.1 order).1 t later rfl
      cases t with
      | receive env => trivial
      | _ => cases receives
    | _ => cases starts

theorem Watched.advance (sane : m.Sane) (watched : m.Watched) (next : m.next i = some (thread, task))
    (harmless : m.handlesLate thread task = true → m.hub.AsksNothing c thread.link task) :
    (m.advance c i a thread task).1.Watched := by
  have flags := Task.flags c a m.hub thread.link task
  have effect := Task.effect c a m.hub thread.link task
  have opens := Task.opensLast c a m.hub thread.link task
  obtain ⟨found, rest, tasks⟩ := next_eq_some.1 next
  have member := mem_of_getElem? found
  have refused : ∀ q, (m.hub.records q).refused = true →
      ((task.run c a m.hub thread.link).hub.records q).refused = true := by
    intro q before
    rcases (flags q).refused with same | new
    · rw [same]
      exact before
    · exact new.1
  constructor
  case order =>
    intro t inside
    rcases mem_or_eq_of_mem_set inside with old | new
    · exact watched.order t old
    · rw [new]
      have order := watched.order thread member
      rw [tasks] at order ⊢
      obtain ⟨before, order⟩ := pairwise_cons.1 order
      refine pairwise_append.2 ⟨opens.1, order, fun t follows later behind starts => ?_⟩
      exact before later behind (opens.2 t follows starts)
  case ready =>
    intro q after
    rcases (flags q).refused with same | ⟨_, own, needs⟩
    · apply effect.ready
      apply watched.ready
      rw [← same]
      exact after
    · rw [own]
      exact effect.ready (sane.needs next needs)
  case late =>
    intro t inside late
    rcases mem_or_eq_of_mem_set inside with old | new
    · obtain ⟨before, inert⟩ := watched.late t old late
      exact ⟨refused _ before, fun task listed => (inert task listed).of_flags (flags _).closed⟩
    · rw [new] at late ⊢
      obtain ⟨before, inert, behind⟩ := watched.inert next late
      refine ⟨refused _ before, fun t listed => ?_⟩
      rcases mem_append.1 listed with follows | waiting
      · exact (inert.run (watched.ready _ before) (harmless late)).2 t follows
      · exact (behind t waiting).of_flags (flags _).closed

theorem Watched.spawn (watched : m.Watched) {link : Nat} {tasks : List Task} (order : tasks.Pairwise Task.Before) :
    (m.spawn link tasks).Watched := by
  refine ⟨fun thread member => ?_, watched.ready, fun thread member late => ?_⟩
  · rcases mem_append.1 member with old | new
    · exact watched.order thread old
    · rw [mem_singleton.1 new]
      exact order
  · rcases mem_append.1 member with old | new
    · exact watched.late thread old late
    · rw [mem_singleton.1 new] at late
      cases late

theorem Watched.frame (watched : m.Watched) (sane : m.Sane) {h' : Hub}
    (refused : ∀ q, (h'.records q).refused = true → (m.hub.records q).refused = true ∧
      (h'.records q).ready = (m.hub.records q).ready)
    (kept : ∀ q < m.hub.links, (h'.records q).refused = (m.hub.records q).refused ∧
      (h'.records q).closed = (m.hub.records q).closed) : Watched { m with hub := h' } := by
  refine ⟨watched.order, fun q after => ?_, fun thread member late => ?_⟩
  · obtain ⟨before, same⟩ := refused q after
    exact same.trans (watched.ready q before)
  · obtain ⟨sameRefused, sameClosed⟩ := kept thread.link (sane.threads thread member).1
    obtain ⟨before, inert⟩ := watched.late thread member late
    exact ⟨sameRefused.trans before, fun task listed => (inert task listed).of_flags fun closed => sameClosed.trans closed⟩

theorem Watched.step (sane : m.Sane) (watched : m.Watched) (harmless : m.Harmless c event)
    (stepped : Stepped c m event m') : m'.Watched := by
  cases stepped with
  | accept now =>
    refine (watched.frame sane (fun q after => ?_) fun q known => ?_).spawn (pairwise_singleton ..)
    · rcases eq_or_ne q m.hub.links with same | other
      · rw [same, Hub.records_acceptLink] at after
        cases after
      · rw [Hub.records_acceptLink_ne other] at after ⊢
        exact ⟨after, rfl⟩
    · rw [Hub.records_acceptLink_ne known.ne]
      exact ⟨rfl, rfl⟩
  | spawn known opening =>
    apply watched.spawn
    cases opening with
    | identified | packet | close => simp [Task.Before, Task.receives]
  | removeFromRoom found listed =>
    apply watched.frame sane
    · intro q after
      rw [Hub.records_leave] at after ⊢
      rw [Hub.update_field HubPeer.refused (by intro; rfl)] at after
      exact ⟨after, Hub.update_field HubPeer.ready (by intro; rfl) q⟩
    · intro q _
      rw [Hub.records_leave]
      exact ⟨Hub.update_field HubPeer.refused (by intro; rfl) q, Hub.update_field HubPeer.closed (by intro; rfl) q⟩
  | refused => exact watched
  | advance next => exact watched.advance sane next (harmless _ _ next)

theorem lateNoEffect (watched : m.Watched) (harmless : m.Harmless c event) : m.LateNoEffect c event := by
  cases event with
  | step i a =>
    intro thread task next late
    obtain ⟨refused, inert, _⟩ := watched.inert next late
    exact (inert.run (watched.ready _ refused) (harmless thread task next late)).1
  | _ => trivial

end HubMachine

/-- In every run in which the envelopes that are handled on refused links ask for nothing, every step of their
handling leaves rooms, nicknames and welcomes alone and sends nothing to another peer. -/
theorem refused_noEffect (c : HubConfig) (events : List HubEvent)
    (harmless : Along (HubMachine.step c) (HubMachine.Harmless c) {} events) :
    Along (HubMachine.step c) (HubMachine.LateNoEffect c) {} events := by
  have start : ({} : HubMachine).Sane ∧ ({} : HubMachine).Watched := ⟨.start, .start⟩
  have kept : ∀ (m : HubMachine) (event : HubEvent) (m' : HubMachine), m.Sane ∧ m.Watched → m.Harmless c event →
      m.step c event = some m' → m'.Sane ∧ m'.Watched := by
    intro m event m' ⟨sane, watched⟩ harmless stepped
    have stepped := HubMachine.stepped_of_step stepped
    exact ⟨sane.step stepped, watched.step sane harmless stepped⟩
  exact Along.of_invariant kept (fun m event both => HubMachine.lateNoEffect both.2) start harmless

/-- A hub whose policy refuses an identity, closes the link and drops it. -/
def policedHub : HubConfig := { asciiHub with policy := true }

def banned : List HubEvent :=
  .accept 0 :: .step 0 { remote := some someHash } :: .step 0 {} :: .step 0 { error := some "banned" } ::
    replicate 2 (.step 0 {})

theorem refused_noEffect_join : Along (HubMachine.step policedHub) (HubMachine.LateNoEffect policedHub) {}
    (banned ++ handled 1 5 0 { inbound .join with room := some ['a'] }) := by
  apply refused_noEffect
  decide +kernel

theorem banned_hello_joins : ∃ m m', ({} : HubMachine).run policedHub banned = some m ∧
    (m.hub.records 0).refused = true ∧ (m.hub.records 0).closed = true ∧ m.hub.peers.lookup someHash = none ∧
      m.run policedHub (handled 1 10 0 { inbound .hello with nick := some ['e'] } ++
        handled 2 6 0 { inbound .join with room := some ['a'] }) = some m' ∧
      (m'.hub.records 0).active = true ∧ m'.hub.nickIndex.Holds ['e'] someHash ∧ m'.hub.rooms.Holds ['a'] someHash := by
  have reached : (({} : HubMachine).run policedHub banned).any (fun m =>
      (m.hub.records 0).refused ∧ (m.hub.records 0).closed ∧ m.hub.peers.lookup someHash = none ∧
        (m.run policedHub (handled 1 10 0 { inbound .hello with nick := some ['e'] } ++
          handled 2 6 0 { inbound .join with room := some ['a'] })).any fun m' =>
            (m'.hub.records 0).active ∧ m'.hub.nickIndex.Holds ['e'] someHash ∧ m'.hub.rooms.Holds ['a'] someHash) =
        true := by
    decide +kernel
  obtain ⟨m, ran, found⟩ := (Option.any_eq_true _ _).1 reached
  obtain ⟨refused, closed, dropped, later⟩ := of_decide_eq_true found
  obtain ⟨m', more, found⟩ := (Option.any_eq_true _ _).1 later
  exact ⟨m, m', ran, refused, closed, dropped, more, of_decide_eq_true found⟩

end ReticulumProtocols.Rrc
