import ReticulumProtocols.Gorrcd.Broadcasts

/-! `pingOnce` beside the running daemon. It remembers the peers it has asked by their identity, while it pings and
disconnects whatever session the identity has at the time. Where no identity gets a new session while it is asked, and
every PING goes out and every PONG is passed on, only silent sessions are disconnected. -/

namespace ReticulumProtocols.Rrc
open Wire Lxmf Index Cbor

namespace Hub
variable (c : HubConfig) (a : Answer) (h : Hub)

def activePeerHashes (visit : Visit) : List Bytes :=
  ((visit.run h.peers.entries).filter fun entry => (h.records entry.2).active).map fun entry =>
    (h.records entry.2).peerHash

def peerLocked (hash : Bytes) : Option Nat := (h.peers.lookup (peerKey hash)).filter fun p => (h.records p).active

def sendPing (peer : Bytes) (body : Value) : Option Outgoing :=
  (h.peerLocked peer).map fun link => { link, env := typedEnvelope c a 0 .ping [] (some body) [] }

end Hub

def Task.pongs : Task → Bool
  | .serve env _ => env.type = .pong
  | _ => false

def Task.registers : Task → Option Bytes
  | .register hash => some hash
  | _ => none

namespace Hub
variable {c : HubConfig} {h h' : Hub} {p q : Nat} {task : Task} {key : Bytes}

/-- A record that a task puts under a key is that of the link that registers. -/
theorem Effect.peers (effect : Effect c h p task h') (found : h'.peers.lookup key = some q) :
    h.peers.lookup key = some q ∨
      ∃ hash, task = .register hash ∧ hash.length = identityLength ∧ (h.records p).ready = false ∧ hash = key := by
  cases effect with
  | same same => exact .inl (same.peers ▸ found)
  | @register hash valid first =>
    rw [lookup_register] at found
    split at found
    next same =>
      rw [peerKey, if_pos valid] at same
      exact .inr ⟨hash, rfl, valid, first, same.symm⟩
    next => exact .inl found
  | setNick | join | part => exact .inl found
  | reindexNick =>
    rw [reindexNick_eq] at found
    exact .inl found
  | drop => exact .inl (lookup_drop found).2

theorem lookup_disconnect {a : Answer} {peer : Bytes} (found : (h.disconnect c a peer).hub.peers.lookup key = some q) :
    h.peers.lookup key = some q := by
  rcases disconnect_cases c a h peer with same | ⟨_, h₁, _, closes, drops⟩
  · rw [← same]
    exact found
  · have before : h₁.peers.lookup key = some q := by
      rcases drops.peers found with before | ⟨_, other, _⟩
      · exact before
      · cases other
    rcases closes.peers before with before | ⟨_, other, _⟩
    · exact before
    · cases other

theorem Keyed.peerHash (keyed : h.Keyed) (found : h.peers.lookup key = some q) : (h.records q).peerHash = key := by
  obtain ⟨ready, own⟩ := keyed key q found
  rw [← own, HubPeer.key, peerKey, if_pos (of_decide_eq_true ready)]

end Hub

end ReticulumProtocols.Rrc

namespace ReticulumProtocols.Gorrcd
open Wire Cbor Lxmf Index Rrc Concurrency List

namespace Daemon
variable {lib : Library} {d d' : Daemon} {event : DaemonEvent} {key : Bytes} {q : Nat}

/-- A peer gets a session only where a link registers its hash. -/
def Registers (d : Daemon) (hash : Bytes) : DaemonEvent → Prop
  | .step i _ _ => ∃ next ∈ d.machine.next i, hash ∈ next.2.registers ∧ hash.length = identityLength ∧
      (d.service.hub.records next.1.link).ready = false
  | _ => False

instance (hash : Bytes) (event : DaemonEvent) : Decidable (d.Registers hash event) := by
  apply @DaemonEvent.casesOn _ event
  all_goals
    intros
    dsimp only [Registers]
    infer_instance

theorem Consulted.peers {w : Outside} {p : Nat} {task : Task} {s : Service}
    (consulted : Consulted lib w d.service p task s) (found : s.hub.peers.lookup key = some q) :
    d.service.hub.peers.lookup key = some q := by
  cases consulted with
  | quiet hub =>
    rw [← hub]
    exact found
  | command _ _ _ _ move =>
    rcases move.hub with same | ⟨_, _, hub⟩ | ⟨_, _, _, _, hub⟩
    · rw [← same]
      exact found
    · rw [hub, Service.peers_removeFromRoom] at found
      exact found
    · rw [hub] at found
      exact Hub.lookup_disconnect found

theorem peers_advance {i : Nat} {a : Answer} {w : Outside} {thread : Thread} {task : Task}
    (next : d.machine.next i = some (thread, task))
    (found : (d.advance lib i a w thread task).1.service.hub.peers.lookup key = some q) :
    d.service.hub.peers.lookup key = some q ∨ d.Registers key (.step i a w) := by
  have consulted : Consulted lib w d.service thread.link task (d.consult lib a w thread.link task).service := consulted
  have hub : (d.advance lib i a w thread task).1.service.hub = (d.turn lib a w thread.link task).hub :=
    Service.hub_settle
  rw [hub] at found
  rcases effect_turn.peers found with before | ⟨hash, registers, valid, first, rfl⟩
  · exact .inl (consulted.peers before)
  · right
    cases consulted with
    | quiet hub =>
      rw [hub] at first
      exact ⟨(thread, task), next, by rw [registers]; rfl, valid, first⟩
    | command serves =>
      rw [registers] at serves
      cases serves

/-- What a step can do to the hub and its threads: nothing, a link opens or one of its callbacks starts, a thread runs a
task, or a peer is disconnected. -/
inductive Moved (lib : Library) (d : Daemon) : DaemonEvent → HubMachine → Prop where
  | same {event : DaemonEvent} : Moved lib d event d.machine
  | opened {event : DaemonEvent} {c : HubConfig} {opening : HubEvent} {m : HubMachine}
      (stepped : d.machine.step c opening = some m) (outside : ∀ i a, opening ≠ .step i a) : Moved lib d event m
  | advance {i : Nat} {a : Answer} {w : Outside} {thread : Thread} {task : Task}
      (next : d.machine.next i = some (thread, task)) :
      Moved lib d (.step i a w) (d.advance lib i a w thread task).1.machine
  | disconnect {event : DaemonEvent} {c : HubConfig} {a : Answer} {peer : Bytes} :
      Moved lib d event { d.machine with hub := (d.service.hub.disconnect c a peer).hub }

theorem moved_of_step (moved : d.step lib event = some d') : Moved lib d event d'.machine := by
  obtain ⟨result, sent, rfl⟩ := Option.map_eq_some_iff.1 moved
  cases event with
  | accept now =>
    dsimp only [stepSending] at sent
    obtain ⟨m, stepped, rfl⟩ := Option.map_eq_some_iff.1 sent
    exact .opened stepped (by simp)
  | identified | packet | close =>
    obtain ⟨m, stepped, rfl⟩ := Option.map_eq_some_iff.1 sent
    exact .opened stepped (by simp)
  | step i a w =>
    obtain ⟨⟨thread, task⟩, next, rfl⟩ := Option.map_eq_some_iff.1 sent
    exact .advance next
  | advertised =>
    dsimp only [stepSending] at sent
    split at sent
    next =>
      cases sent
      exact .same
    next => cases sent
  | concluded link payload a =>
    dsimp only [stepSending] at sent
    split at sent
    next =>
      cases sent
      unfold machine
      rw [concluded_fst.1, concluded_fst.2]
      exact .same
    next => cases sent
  | cleanup | prune =>
    cases sent
    exact .same
  | disconnect =>
    cases sent
    exact .disconnect

theorem peers_step (moved : d.step lib event = some d') (found : d'.service.hub.peers.lookup key = some q) :
    d.service.hub.peers.lookup key = some q ∨ d.Registers key event := by
  have moved := moved_of_step moved
  change d'.machine.hub.peers.lookup key = some q at found
  generalize d'.machine = m at moved found
  cases moved with
  | same => exact .inl found
  | opened stepped outside =>
    cases HubMachine.stepped_of_step stepped with
    | accept | spawn | removeFromRoom | refused => exact .inl found
    | advance => exact absurd rfl (outside _ _)
  | advance next => exact peers_advance next found
  | disconnect => exact .inl (Hub.lookup_disconnect found)

theorem sane_step (sane : d.machine.Sane) (moved : d.step lib event = some d') : d'.machine.Sane := by
  have moved := moved_of_step moved
  generalize d'.machine = m at moved ⊢
  cases moved with
  | same => exact sane
  | opened stepped => exact sane.step (HubMachine.stepped_of_step stepped)
  | advance next => exact sane_advance sane next
  | disconnect => exact sane.disconnect _ _ _

end Daemon

/-- What `pingOnce` has found so far: the peers that do not answer and those to ask. -/
structure Survey where
  awaiting : GoMap ID Int
  drop : List Bytes := []
  ping : List Bytes := []

/-- `pingOnce` looks at a peer. -/
def Survey.look (now : Int) (timeout : Float) (found : Survey) (h : Bytes) : Survey :=
  match idFrom h with
  | none => found
  | some id =>
    match found.awaiting.lookup id with
    | some t =>
      if timeout > Float64.ofInt 0 ∧ durationSeconds (now - t) > timeout then { found with drop := found.drop ++ [h] }
      else found
    | none => { found with awaiting := found.awaiting.insert id now, ping := found.ping ++ [h] }

/-- The daemon with its `pingLoop`. The last three fields are read by nothing: for each link the time of the last PING
that no PONG has followed, the same when `pingOnce` looked, and the links with a PONG that `OnPong` was not told of. -/
structure Pinger where
  daemon : Daemon
  awaiting : GoMap ID Int := ∅
  /-- The clock and the timeout as the `pingOnce` that runs has read them. -/
  now : Int := 0
  timeout : Float := Float64.ofInt 0
  /-- The peers that it has yet to disconnect, and to ping. -/
  drop : List Bytes := []
  ping : List Bytes := []
  unanswered : Nat → Option Int := fun _ => none
  silent : Nat → Option Int := fun _ => none
  unheard : List Nat := []

inductive PingEvent where
  | daemon (event : DaemonEvent)
  /-- `pingOnce` up to the end of its section. -/
  | look (now : Int) (visit : Visit)
  | disconnect (a : Answer)
  | ping (a : Answer)

/-- The event that stands for a part of `pingOnce`. -/
def DaemonEvent.disconnects : DaemonEvent → Bool
  | .disconnect _ _ => true
  | _ => false

namespace Pinger
variable (lib : Library) (s : Pinger)

def hub : Hub := s.daemon.service.hub

/-- `OnPong` for the peer of a link. -/
def onPong (link : Nat) : Pinger :=
  { s with
    awaiting :=
      match idFrom (s.hub.records link).peerHash with
      | none => s.awaiting
      | some id => s.awaiting.erase id
    unheard := s.unheard.filter fun q => q ≠ link }

/-- What an event of the daemon has to do with PONGs: one arrives, or `OnPong` is told. -/
def listen : DaemonEvent → Pinger
  | .packet link env =>
    if env.type = .pong then
      { s with unanswered := Function.update s.unanswered link none, unheard := link :: s.unheard }
    else s
  | .step i _ _ =>
    match s.daemon.machine.next i with
    | none => s
    | some (thread, task) => if task.pongs then s.onPong thread.link else s
  | _ => s

def look (now : Int) (visit : Visit) : Pinger :=
  let cfg := s.daemon.service.cfg
  if cfg.pingIntervalS ≤ Float64.ofInt 0 then s
  else
    let found := (s.hub.activePeerHashes visit).foldl (Survey.look now cfg.pingTimeoutS) { awaiting := s.awaiting }
    { s with
      awaiting := found.awaiting, drop := found.drop, ping := found.ping, now, timeout := cfg.pingTimeoutS
      silent := s.unanswered }

/-- `SendPing`, with what is known of the link after it. -/
def sendPing (a : Answer) (hash : Bytes) : Pinger :=
  match s.hub.sendPing (s.daemon.service.config lib) a hash (.scalar (.float (Float64.ofInt (s.now / 1000000000)))) with
  | none => s
  | some ping =>
    if a.sends ∧ (s.hub.records ping.link).closed = false then
      { s with unanswered := Function.update s.unanswered ping.link (some a.now) }
    else s

def step : PingEvent → Option Pinger
  | .daemon event =>
    if event.disconnects then none
    else (s.daemon.step lib event).map fun daemon => { s.listen event with daemon }
  | .look now visit => if s.drop = [] ∧ s.ping = [] then some (s.look now visit) else none
  | .disconnect a =>
    match s.drop with
    | [] => none
    | hash :: rest => (s.daemon.step lib (.disconnect hash a)).map fun daemon => { s with daemon, drop := rest }
  | .ping a =>
    match s.drop, s.ping with
    | [], hash :: rest => some { s.sendPing lib a hash with ping := rest }
    | _, _ => none

abbrev run (events : List PingEvent) : Option Pinger := runEvents (step lib) s events

/-- When `pingOnce` looked, a PING on the link had been without a PONG for longer than the timeout. -/
def Silent (q : Nat) : Prop := ∃ t ∈ s.silent q, durationSeconds (s.now - t) > s.timeout

instance (q : Nat) : Decidable (s.Silent q) := by
  unfold Silent
  infer_instance

/-- No link registers an identity that is asked or about to be disconnected; `pingOnce` finds nobody late whose PONG has
arrived; and a PING goes out on the session that the peer has, at the time that `pingOnce` has read. -/
def Steady : PingEvent → Prop
  | .daemon event => (∀ hash ∈ s.drop, ¬ s.daemon.Registers hash event) ∧
      ∀ id ∈ s.awaiting.keys, ¬ s.daemon.Registers id.1 event
  | .look now _ => ∀ q ∈ s.unheard, ∀ id ∈ idFrom (s.hub.records q).peerHash, ∀ t ∈ s.awaiting.lookup id,
      ¬ durationSeconds (now - t) > s.daemon.service.cfg.pingTimeoutS
  | .ping a => ∀ hash ∈ s.ping.head?, ∀ q ∈ s.hub.peers.lookup (peerKey hash),
      (s.hub.records q).active = true ∧ (s.hub.records q).closed = false ∧ a.sends = true ∧ a.now = s.now
  | .disconnect _ => True

instance (event : PingEvent) : Decidable (s.Steady event) := by
  unfold Steady
  split
  all_goals infer_instance

end Pinger

namespace Survey
variable {w : GoMap ID Int} {now : Int} {timeout : Float} {found : Survey}

/-- What is so after some peers: those to disconnect have been asked too long ago, whoever is asked was so before or is
about to be, and the latter since now. -/
structure Fair (w : GoMap ID Int) (now : Int) (timeout : Float) (found : Survey) : Prop where
  drop : ∀ h ∈ found.drop, ∃ id : ID, ∃ t, id.1 = h ∧ w.lookup id = some t ∧ durationSeconds (now - t) > timeout
  asked : ∀ id t, found.awaiting.lookup id = some t → w.lookup id = some t ∨ id.1 ∈ found.ping
  ping : ∀ h ∈ found.ping, ∃ id : ID, id.1 = h ∧ found.awaiting.lookup id = some now

theorem Fair.look (fair : Fair w now timeout found) (h : Bytes)
    (unseen : ∀ id : ID, id.1 = h → found.awaiting.lookup id = w.lookup id) :
    Fair w now timeout (found.look now timeout h) ∧
      ∀ id : ID, id.1 ≠ h → (found.look now timeout h).awaiting.lookup id = found.awaiting.lookup id := by
  unfold Survey.look
  split
  next => exact ⟨fair, fun _ _ => rfl⟩
  next id own =>
    have same : id.1 = h := by
      unfold idFrom at own
      split at own
      next => exact congrArg Subtype.val (Option.some.inj own).symm
      next => cases own
    split
    next t asked =>
      split
      next overdue =>
        refine ⟨⟨fun hash member => ?_, fair.asked, fair.ping⟩, fun _ _ => rfl⟩
        rcases List.mem_append.1 member with old | new
        · exact fair.drop hash old
        · rw [List.mem_singleton.1 new]
          exact ⟨id, t, same, (unseen id same).symm.trans asked, overdue.2⟩
      next => exact ⟨fair, fun _ _ => rfl⟩
    next absent =>
      have others {other : ID} (apart : other ≠ id) :
          (found.awaiting.insert id now).lookup other = found.awaiting.lookup other := AList.lookup_insert_ne apart
      refine ⟨⟨fair.drop, fun other t asked => ?_, fun hash member => ?_⟩, fun other apart => ?_⟩
      · by_cases which : other = id
        · rw [which, same]
          exact .inr (mem_append_right _ (mem_singleton_self h))
        · dsimp only at asked
          rw [others which] at asked
          exact (fair.asked other t asked).imp_right (mem_append_left _)
      · rcases List.mem_append.1 member with old | new
        · obtain ⟨other, its, since⟩ := fair.ping hash old
          refine ⟨other, its, ?_⟩
          dsimp only
          rw [others]
          · exact since
          · intro which
            rw [which, absent] at since
            cases since
        · rw [List.mem_singleton.1 new]
          exact ⟨id, same, AList.lookup_insert _⟩
      · apply others
        intro which
        exact apart (which ▸ same)

theorem Fair.foldl {hashes : List Bytes} (fair : Fair w now timeout found) (distinct : hashes.Nodup)
    (unseen : ∀ id : ID, id.1 ∈ hashes → found.awaiting.lookup id = w.lookup id) :
    Fair w now timeout (hashes.foldl (Survey.look now timeout) found) := by
  induction hashes generalizing found with
  | nil => exact fair
  | cons h rest ih =>
    obtain ⟨apart, distinct⟩ := List.nodup_cons.1 distinct
    obtain ⟨looked, others⟩ := fair.look h fun id same => unseen id (same ▸ mem_cons_self)
    apply ih looked distinct
    intro id later
    rw [others id fun same => apart (same ▸ later)]
    exact unseen id (mem_cons_of_mem h later)

end Survey

namespace Pinger
variable {lib : Library} {s s' : Pinger} {event : PingEvent}

/-- What holds in every state of a steady run. A peer that is asked has had its PING on the session it has, or has
answered on it, or is about to be asked; and the peers about to be disconnected are silent. -/
structure Tracked (s : Pinger) : Prop where
  sane : s.daemon.machine.Sane
  asked : ∀ id t q, s.awaiting.lookup id = some t → s.hub.peers.lookup id.1 = some q →
    s.unanswered q = some t ∨ q ∈ s.unheard ∨ id.1 ∈ s.ping
  ping : ∀ h ∈ s.ping, h.length = identityLength ∧ ∀ id : ID, id.1 = h → ∀ t, s.awaiting.lookup id = some t → t = s.now
  drop : ∀ h ∈ s.drop, h.length = identityLength ∧ ∀ q, s.hub.peers.lookup h = some q → s.Silent q

theorem Tracked.keyed (tracked : s.Tracked) : s.hub.Keyed := tracked.sane.keyed

theorem Tracked.packet (tracked : s.Tracked) (link : Nat) :
    Tracked { s with unanswered := Function.update s.unanswered link none, unheard := link :: s.unheard } := by
  refine ⟨tracked.sane, fun id t q asked current => ?_, tracked.ping, tracked.drop⟩
  by_cases same : q = link
  · rw [same]
    exact .inr (.inl mem_cons_self)
  · dsimp only
    rw [Function.update_of_ne same]
    exact (tracked.asked id t q asked current).imp_right (Or.imp_left (mem_cons_of_mem link))

theorem Tracked.onPong (tracked : s.Tracked) (link : Nat) : (s.onPong link).Tracked := by
  have kept {id : ID} {t : Int} (asked : (s.onPong link).awaiting.lookup id = some t) :
      s.awaiting.lookup id = some t ∧ idFrom (s.hub.records link).peerHash ≠ some id := by
    unfold Pinger.onPong at asked
    dsimp only at asked
    split at asked
    next unknown => exact ⟨asked, by rw [unknown]; simp⟩
    next own known =>
      by_cases same : id = own
      · rw [same, AList.lookup_erase] at asked
        cases asked
      · rw [AList.lookup_erase_ne same] at asked
        rw [known]
        exact ⟨asked, fun other => same (Option.some.inj other).symm⟩
  refine ⟨tracked.sane, fun id t q asked current => ?_, fun h member => ?_, tracked.drop⟩
  · obtain ⟨before, other⟩ := kept asked
    rcases tracked.asked id t q before current with unanswered | unheard | waits
    · exact .inl unanswered
    · refine .inr (.inl (List.mem_filter.2 ⟨unheard, decide_eq_true fun same => other ?_⟩))
      rw [← same, tracked.keyed.peerHash current, idFrom_val]
    · exact .inr (.inr waits)
  · obtain ⟨valid, recent⟩ := tracked.ping h member
    exact ⟨valid, fun id same t asked => recent id same t (kept asked).1⟩

theorem Tracked.listen (tracked : s.Tracked) (event : DaemonEvent) : (s.listen event).Tracked := by
  unfold Pinger.listen
  split
  next link env =>
    split
    next => exact tracked.packet link
    next => exact tracked
  next =>
    split
    next => exact tracked
    next thread task _ =>
      split
      next => exact tracked.onPong thread.link
      next => exact tracked
  next => exact tracked

/-- The daemon moves on, and nobody who is asked or about to be disconnected gets a session. -/
theorem Tracked.move (tracked : s.Tracked) {daemon : Daemon} (sane : daemon.machine.Sane)
    (asked : ∀ id ∈ s.awaiting, ∀ q, daemon.service.hub.peers.lookup id.1 = some q → s.hub.peers.lookup id.1 = some q)
    (drop : ∀ h ∈ s.drop, ∀ q, daemon.service.hub.peers.lookup h = some q → s.hub.peers.lookup h = some q) :
    Tracked { s with daemon } where
  sane := sane
  asked id t q found current := by
    have member : id ∈ s.awaiting := AList.lookup_isSome.1 (Option.isSome_iff_exists.2 ⟨t, found⟩)
    exact tracked.asked id t q found (asked id member q current)
  ping := tracked.ping
  drop h member := ⟨(tracked.drop h member).1, fun q current => (tracked.drop h member).2 q (drop h member q current)⟩

theorem listen_frame (event : DaemonEvent) :
    (s.listen event).daemon = s.daemon ∧ (s.listen event).drop = s.drop ∧
      ∀ id ∈ (s.listen event).awaiting, id ∈ s.awaiting := by
  unfold listen
  split
  next =>
    split
    next => exact ⟨rfl, rfl, fun _ asked => asked⟩
    next => exact ⟨rfl, rfl, fun _ asked => asked⟩
  next =>
    split
    next => exact ⟨rfl, rfl, fun _ asked => asked⟩
    next =>
      split
      next =>
        refine ⟨rfl, rfl, fun id asked => ?_⟩
        unfold onPong at asked
        dsimp only at asked
        split at asked
        next => exact asked
        next => exact (AList.mem_erase.1 asked).2
      next => exact ⟨rfl, rfl, fun _ asked => asked⟩
  next => exact ⟨rfl, rfl, fun _ asked => asked⟩

theorem Tracked.daemon (tracked : s.Tracked) {event : DaemonEvent} {daemon : Daemon} (steady : s.Steady (.daemon event))
    (moved : s.daemon.step lib event = some daemon) : Tracked { s.listen event with daemon } := by
  obtain ⟨same, dropped, fewer⟩ := listen_frame (s := s) event
  have hub : (s.listen event).hub = s.hub := congrArg (fun daemon => daemon.service.hub) same
  apply (tracked.listen event).move (Daemon.sane_step tracked.sane moved)
  · intro id asked q found
    rw [hub]
    exact (Daemon.peers_step moved found).resolve_right (steady.2 id (fewer id asked))
  · intro h member q found
    rw [hub]
    rw [dropped] at member
    exact (Daemon.peers_step moved found).resolve_right (steady.1 h member)

theorem nodup_activePeerHashes {h : Hub} (keyed : h.Keyed) (visit : Visit) : (h.activePeerHashes visit).Nodup := by
  have own : ∀ entry ∈ visit.run h.peers.entries, (h.records entry.2).peerHash = entry.1 := by
    intro entry member
    have found := AList.mem_lookup_iff.2 ((visit.perm _).mem_iff.1 member)
    exact keyed.peerHash found
  have distinct : ((visit.run h.peers.entries).map Sigma.fst).Nodup :=
    ((visit.perm _).map Sigma.fst).nodup_iff.2 h.peers.nodupKeys
  have names : h.activePeerHashes visit =
      ((visit.run h.peers.entries).filter fun entry => (h.records entry.2).active).map Sigma.fst :=
    map_congr_left fun entry member => own entry (mem_of_mem_filter member)
  rw [names]
  exact distinct.sublist (List.filter_sublist.map Sigma.fst)

theorem Tracked.look (tracked : s.Tracked) {now : Int} {visit : Visit} (steady : s.Steady (.look now visit))
    (idle : s.ping = []) : (s.look now visit).Tracked := by
  unfold Pinger.look
  dsimp only
  split
  next => exact tracked
  next =>
    have start : Survey.Fair s.awaiting now s.daemon.service.cfg.pingTimeoutS { awaiting := s.awaiting } :=
      ⟨fun _ member => absurd member not_mem_nil, fun _ _ asked => .inl asked,
        fun _ member => absurd member not_mem_nil⟩
    have fair := start.foldl (nodup_activePeerHashes tracked.keyed visit) fun _ _ => rfl
    have before {id : ID} {t : Int} {q : Nat} (asked : s.awaiting.lookup id = some t)
        (current : s.hub.peers.lookup id.1 = some q) : s.unanswered q = some t ∨ q ∈ s.unheard := by
      have known := tracked.asked id t q asked current
      rw [idle] at known
      exact known.imp_right fun rest => rest.resolve_right not_mem_nil
    refine ⟨tracked.sane, fun id t q asked current => ?_, fun h member => ?_, fun h member => ?_⟩
    · rcases fair.asked id t asked with old | new
      · exact (before old current).imp_right .inl
      · exact .inr (.inr new)
    · obtain ⟨id, same, since⟩ := fair.ping h member
      refine ⟨same ▸ id.2, fun other its t asked => ?_⟩
      rw [Subtype.ext (its.trans same.symm)] at asked
      exact Option.some.inj (asked.symm.trans since)
    · obtain ⟨id, t, rfl, asked, overdue⟩ := fair.drop h member
      refine ⟨id.2, fun q current => ?_⟩
      rcases before asked current with unanswered | unheard
      · exact ⟨t, unanswered, overdue⟩
      · refine absurd overdue (steady q unheard id ?_ t asked)
        rw [tracked.keyed.peerHash current, idFrom_val]
        rfl

/-- A PING that goes out concerns the session that the peer has, if it has one. -/
theorem sendPing_eq {a : Answer} {hash : Bytes} (valid : hash.length = identityLength)
    (fine : ∀ q, s.hub.peers.lookup hash = some q →
      (s.hub.records q).active = true ∧ (s.hub.records q).closed = false ∧ a.sends = true ∧ a.now = s.now) :
    ∃ unanswered, s.sendPing lib a hash = { s with unanswered } ∧
      (∀ q, s.hub.peers.lookup hash = some q → unanswered q = some s.now) ∧
      ∀ q, s.hub.peers.lookup hash ≠ some q → unanswered q = s.unanswered q := by
  have key : peerKey hash = hash := if_pos valid
  unfold sendPing Hub.sendPing Hub.peerLocked
  rw [key]
  cases found : s.hub.peers.lookup hash with
  | none => exact ⟨s.unanswered, rfl, fun _ other => (by cases other), fun _ _ => rfl⟩
  | some q =>
    obtain ⟨active, free, sends, time⟩ := fine q found
    rw [Option.filter_some, if_pos active, Option.map_some]
    dsimp only
    rw [if_pos ⟨sends, free⟩, time]
    refine ⟨_, rfl, fun q' same => ?_, fun q' other => ?_⟩
    · rw [← Option.some.inj same, Function.update_self]
    · exact Function.update_of_ne (fun same => other (congrArg some same.symm)) _ _

theorem Tracked.sendPing (tracked : s.Tracked) {a : Answer} {hash : Bytes} {rest : List Bytes}
    (steady : s.Steady (.ping a)) (queued : s.ping = hash :: rest) :
    Tracked { s.sendPing lib a hash with ping := rest } := by
  have first : hash ∈ s.ping := by
    rw [queued]
    exact mem_cons_self
  obtain ⟨valid, recent⟩ := tracked.ping hash first
  have fine := steady hash (by rw [queued]; rfl)
  rw [show peerKey hash = hash from if_pos valid] at fine
  obtain ⟨unanswered, sent, own, others⟩ := @sendPing_eq lib s a hash valid fine
  rw [sent]
  refine ⟨tracked.sane, fun id t q asked current => ?_, fun h member => ?_, tracked.drop⟩
  · by_cases same : id.1 = hash
    · left
      change unanswered q = some t
      rw [recent id same t asked]
      exact own q (same ▸ current)
    · have apart : s.hub.peers.lookup hash ≠ some q := by
        intro found
        exact same ((tracked.keyed.peerHash current).symm.trans (tracked.keyed.peerHash found))
      have known := tracked.asked id t q asked current
      rw [queued] at known
      change unanswered q = some t ∨ _
      rw [others q apart]
      exact known.imp_right (Or.imp_right fun waits => (List.mem_cons.1 waits).resolve_left same)
  · exact tracked.ping h (by rw [queued]; exact mem_cons_of_mem hash member)

theorem Tracked.step (tracked : s.Tracked) (steady : s.Steady event) (moved : s.step lib event = some s') :
    s'.Tracked := by
  cases event with
  | daemon event =>
    dsimp only [Pinger.step] at moved
    split at moved
    next => cases moved
    next =>
      obtain ⟨daemon, stepped, rfl⟩ := Option.map_eq_some_iff.1 moved
      exact tracked.daemon steady stepped
  | look now visit =>
    dsimp only [Pinger.step] at moved
    split at moved
    next idle =>
      cases moved
      exact tracked.look steady idle.2
    next => cases moved
  | disconnect a =>
    dsimp only [Pinger.step] at moved
    split at moved
    next => cases moved
    next hash rest queued =>
      obtain ⟨daemon, stepped, rfl⟩ := Option.map_eq_some_iff.1 moved
      have before {key : Bytes} {q : Nat} (found : daemon.service.hub.peers.lookup key = some q) :
          s.hub.peers.lookup key = some q := (Daemon.peers_step stepped found).resolve_right id
      have there := tracked.move (Daemon.sane_step tracked.sane stepped) (fun _ _ _ => before) fun _ _ _ => before
      exact ⟨there.sane, there.asked, there.ping, fun h member =>
        there.drop h (queued ▸ mem_cons_of_mem hash member)⟩
  | ping a =>
    dsimp only [Pinger.step] at moved
    split at moved
    next hash rest _ queued =>
      cases moved
      exact tracked.sendPing steady queued
    next => cases moved

end Pinger

def connected (i link : Nat) : List PingEvent := (greeted i link otherID.1).map .daemon

def pinging : Service :=
  { plainService with
    cfg := { plainService.cfg with pingIntervalS := Float64.ofInt 60, pingTimeoutS := Float64.ofInt 30 } }

/-- A peer answers a first PING, but not a second one. -/
def unresponsive : List PingEvent :=
  connected 0 0 ++ [.look 0 Visit.listed, .ping {}, .daemon (.packet 0 (inbound .pong))] ++
    (stepsOf 2 5).map .daemon ++
    [.look 60000000000 Visit.listed, .ping { now := 60000000000 }, .look 120000000000 Visit.listed]

/-- A peer is asked, its link closes, and it connects anew. -/
def reconnected : List PingEvent :=
  connected 0 0 ++ [.look 0 Visit.listed, .ping {}, .daemon (.close 0)] ++ (stepsOf 2 2).map .daemon ++
    connected 3 1 ++ [.look 60000000000 Visit.listed]

end ReticulumProtocols.Gorrcd
