import ReticulumProtocols.Lxst.Switchboard

/-! One call at a time. `Occupy` puts a call that is still idle into the switchboard, and everyone who looks at the
switchboard takes an idle call for none. -/

namespace ReticulumProtocols.Lxst
open Wire Concurrency List

/-- What a thread knows of the switchboard: nothing; that it has made call `i`; that it has occupied the switchboard with
call `i` and not set it up; that it has; that call `i` will not be live any more; that it has to answer busy. Nobody is
in the mode `never`. -/
inductive BoardMode where
  | free
  | created (i : Nat)
  | pending (i : Nat)
  | running (i : Nat)
  | done (i : Nat)
  | refused
  | never
  deriving DecidableEq

@[simp]
def BoardMode.Allows (mode : BoardMode) : BoardOp → Prop
  | .call i op => mode ≠ .refused ∧ op.footprint ≠ .wild ∧ (op.footprint = .start → mode = .pending i) ∧
      (op.footprint = .reset → mode = .running i)
  | .newCall | .busy => mode = .free
  | .occupy i _ => mode = .created i
  | .release i => mode = .done i ∨ mode = .pending i
  | .rejectBusy => mode = .refused
  | _ => mode ≠ .refused

@[simp]
def BoardMode.ended (i : Nat) : BoardMode → BoardMode
  | free | running _ | done _ => done i
  | mode => mode

@[simps]
def boardRules : Typestate BoardOp BoardOp.Answer BoardMode where
  permits mode op := mode = .never ∨ mode.Allows op
  after
    | .never, _, _ => some .never
    | .free, .newCall, i => some (.created i)
    | .free, .busy, busy => some (if busy then .refused else .free)
    | .created i, .occupy _ inbound, occupied =>
      some (if occupied then .pending i else if inbound then .refused else .free)
    | .refused, .rejectBusy, _ => some .free
    | .pending i, .call _ (.casState .idle .connecting), moved => some (if moved then .running i else .done i)
    | .pending _, .release _, _ => some .free
    | mode, .call i (.casState _ .ended), moved => some (if moved then mode.ended i else mode)
    | mode, .call i (.storeState .ended), _ => some (mode.ended i)
    | .running i, .call _ (.storeState .idle), _ => some (.done i)
    | .running i, .call j .loadState, state =>
      some (if i = j ∧ (state = .idle ∨ state = .ended) then .done i else .running i)
    | .pending i, .call j .loadState, state =>
      if i = j ∧ state ≠ .idle ∧ state ≠ .ended then none else some (.pending i)
    | .done i, .call j .loadState, state =>
      if i = j ∧ state ≠ .idle ∧ state ≠ .ended then none else some (.done i)
    | mode, _, _ => some mode

@[simp]
def BoardMode.Works (i : Nat) (mode : BoardMode) : Prop := mode = .free ∨ mode = .done i

@[simp]
def BoardMode.Runs (i : Nat) (mode : BoardMode) : Prop := mode = .running i ∨ mode = .done i

/-- Operations of a call that are permitted to everyone and say nothing. -/
def CallOp.quiet : CallOp → Bool
  | loadState | onEnded _ => false
  | clearPipelines => true
  | op => decide (op.footprint ∉ [Footprint.wild, .start, .reset, .ending])

theorem CallOp.footprint_of_quiet {op : CallOp} (quiet : op.quiet = true) :
    op.footprint ≠ .wild ∧ op.footprint ≠ .start ∧ op.footprint ≠ .reset := by
  unfold CallOp.quiet at quiet
  split at quiet
  · cases quiet
  · cases quiet
  · exact ⟨nofun, nofun, nofun⟩
  · have other := of_decide_eq_true quiet
    simp only [mem_cons, not_mem_nil, or_false, not_or] at other
    exact ⟨other.1, other.2.1, other.2.2.1⟩

theorem boardRules_quiet {i : Nat} {mode : BoardMode} {op : CallOp} (answers : mode ≠ .refused)
    (quiet : op.quiet = true) : boardRules.Plain mode (.call i op) := by
  obtain ⟨tame, starts, resets⟩ := CallOp.footprint_of_quiet quiet
  refine ⟨.inr ⟨answers, tame, fun start => absurd start starts, fun reset => absurd reset resets⟩,
    fun answer mode' after => ?_⟩
  cases op with
  | casState before next =>
    cases before <;> cases next <;> first | (cases mode <;> exact (Option.some.inj after).symm) | cases quiet
  | storeState state => cases state <;> cases quiet
  | loadState => cases quiet
  | _ => cases mode <;> exact (Option.some.inj after).symm

theorem CallOp.quiet_or_load {op : CallOp} (other : op.footprint ∉ [Footprint.wild, .start, .reset, .ending]) :
    op.quiet = true ∨ op = .loadState := by
  cases op with
  | loadState => exact .inr rfl
  | onEnded reason => exact absurd (by simp) other
  | clearPipelines => exact .inl rfl
  | _ => exact .inl (decide_eq_true other)

theorem boardRules_keeps {i : Nat} {modes : BoardMode → Prop} {op : CallOp}
    (answers : ∀ mode, modes mode → mode ≠ .refused)
    (loads : ∀ mode state mode', modes mode → boardRules.after mode (.call i .loadState) state = some mode' → modes mode')
    (other : op.footprint ∉ [Footprint.wild, .start, .reset, .ending]) : boardRules.Keeps modes (.call i op) := by
  intro mode known
  rcases CallOp.quiet_or_load other with quiet | rfl
  · obtain ⟨permitted, stays⟩ := boardRules_quiet (i := i) (answers mode known) quiet
    refine ⟨permitted, fun answer mode' after => ?_⟩
    rw [stays answer mode' after]
    exact known
  · exact ⟨.inr ⟨answers mode known, nofun, nofun, nofun⟩, fun state mode' => loads mode state mode' known⟩

theorem boardRules_works {i : Nat} {op : CallOp} (other : op.footprint ∉ [Footprint.wild, .start, .reset, .ending]) :
    boardRules.Keeps (BoardMode.Works i) (.call i op) := by
  refine boardRules_keeps (by rintro mode (rfl | rfl) <;> nofun) ?_ other
  clear other
  rintro mode state mode' (rfl | rfl) after
  · cases after
    exact .inl rfl
  · cases state <;> simp_all [eq_comm]

theorem boardRules_runs {i : Nat} {op : CallOp} (other : op.footprint ∉ [Footprint.wild, .start, .reset, .ending]) :
    boardRules.Keeps (BoardMode.Runs i) (.call i op) := by
  refine boardRules_keeps (by rintro mode (rfl | rfl) <;> nofun) ?_ other
  clear other
  rintro mode state mode' (rfl | rfl) after
  · cases state <;> simp_all [eq_comm]
  · cases state <;> simp_all [eq_comm]

def CallEntry.setsUp : CallEntry → Bool
  | dial _ | serveIncoming => true
  | _ => false

namespace BoardProgram
variable {α β : Type} {i : Nat}
variable {program : CallProgram α}

/-- Code of call `i` whose thread knows nothing or that the call is done. -/
abbrev Minds (i : Nat) (program : CallProgram α) : Prop :=
  ∀ mode, BoardMode.Works i mode → boardRules.Follows (onCall i program) mode fun mode' _ => BoardMode.Works i mode'

theorem Minds.bind {f : α → CallProgram β} (minds : Minds i program)
    (rest : ∀ result, Minds i (f result)) : Minds i (program >>= f) := by
  intro mode works
  rw [onCall_bind]
  exact Typestate.follows_bind ((minds mode works).mono fun mode' result => rest result mode')

/-- The kinds of operations that are of no concern to the switchboard. -/
abbrev indifferent : List Footprint := [.activate, .pipelines, .timer, .media, .answer, .enroll, .fork]

theorem keeps_of_uses {modes : BoardMode → Prop} (uses : CallProgram.Uses indifferent program)
    (keeps : ∀ op : CallOp, op.footprint ∉ [Footprint.wild, .start, .reset, .ending] →
      boardRules.Keeps modes (.call i op)) : (onCall i program).All (boardRules.Keeps modes) := by
  refine all_onCall ((uses.avoids [Footprint.wild, .start, .reset, .ending] (by decide)).mono fun op other => ?_)
  refine ⟨keeps op other, ?_⟩
  rintro ⟨reason, rfl⟩
  exact absurd (by simp) other

section
variable {op : CallOp} {f : op.Answer → CallProgram α} {mode : BoardMode} {wanted : BoardMode → α → Prop}

theorem follows_call (other : ∀ reason, op ≠ .onEnded reason) (permitted : boardRules.permits mode (.call i op))
    (rest : ∀ answer mode', boardRules.after mode (.call i op) answer = some mode' →
      boardRules.Follows (onCall i (f answer)) mode' wanted) :
    boardRules.Follows (onCall i (CallProgram.once op >>= f)) mode wanted := by
  rw [Program.once_bind, onCall_perform other]
  exact ⟨permitted, rest⟩

theorem follows_quiet (quiet : op.quiet = true) (answers : mode ≠ .refused)
    (rest : ∀ answer, boardRules.Follows (onCall i (f answer)) mode wanted) :
    boardRules.Follows (onCall i (CallProgram.once op >>= f)) mode wanted := by
  obtain ⟨permitted, stays⟩ := boardRules_quiet (i := i) answers quiet
  refine follows_call (fun reason ends => ?_) permitted fun answer mode' after => ?_
  · subst ends
    cases quiet
  · rw [stays answer mode' after]
    exact rest answer

end

section
variable {mode : BoardMode} {wanted : BoardMode → α → Prop}

theorem follows_swap {before : CallState} {f : Bool → CallProgram α} (answers : mode ≠ .refused)
    (live : before = .active ∨ before = .ringing ∨ before = .connecting)
    (moved : boardRules.Follows (onCall i (f true)) (mode.ended i) wanted)
    (missed : boardRules.Follows (onCall i (f false)) mode wanted) :
    boardRules.Follows (onCall i (CallProgram.once (.casState before .ended) >>= f)) mode wanted := by
  refine follows_call nofun (.inr ⟨answers, ?_⟩) fun answer mode' after => ?_
  · rcases live with rfl | rfl | rfl <;> exact ⟨nofun, nofun, nofun⟩
  · have same : (if answer then mode.ended i else mode) = mode' := by
      cases answer <;> rcases live with rfl | rfl | rfl <;> cases mode <;> exact Option.some.inj after
    subst same
    cases answer
    · exact missed
    · exact moved

theorem follows_load {f : CallState → CallProgram α} (answers : mode ≠ .refused)
    (rest : ∀ state mode', boardRules.after mode (.call i .loadState) state = some mode' →
      boardRules.Follows (onCall i (f state)) mode' wanted) :
    boardRules.Follows (onCall i (CallProgram.once .loadState >>= f)) mode wanted :=
  follows_call nofun (.inr ⟨answers, nofun, nofun, nofun⟩) rest

end

theorem follows_release (reason : String) :
    boardRules.Follows (onCall i (CallProgram.release reason)) (.done i) fun mode _ => mode = .done i := by
  have reports : boardRules.Follows (onCall i (CallProgram.once (.onEnded reason))) (.done i)
      fun mode _ => mode = .done i := by
    rw [onCall_onEnded]
    refine ⟨.inr (.inl rfl), fun _ mode' after => ?_⟩
    cases after
    exact ⟨.inr ⟨nofun, nofun, nofun, nofun⟩, fun _ mode' after => (Option.some.inj after).symm⟩
  refine follows_quiet rfl nofun fun _ => follows_quiet rfl nofun fun _ => follows_quiet rfl nofun fun link =>
    follows_quiet rfl nofun fun _ => ?_
  split
  · refine follows_quiet rfl nofun fun up => ?_
    split
    · exact follows_quiet rfl nofun fun _ => reports
    · exact reports
  · exact reports

theorem after_load {mode seen : BoardMode} {state : CallState} (free : mode = .free ∨ BoardMode.Runs i mode)
    (after : boardRules.after mode (.call i .loadState) state = some seen) :
    mode = .free ∧ seen = .free ∨ BoardMode.Runs i seen ∧ (state = .idle ∨ state = .ended → seen = .done i) := by
  rcases free with rfl | rfl | rfl
  · cases after
    exact .inl ⟨rfl, rfl⟩
  · cases Option.some.inj after
    by_cases rests : state = .idle ∨ state = .ended <;> simp [rests]
  · obtain ⟨-, same⟩ := Option.ite_none_left_eq_some.1 after
    cases same
    exact .inr ⟨.inr rfl, fun _ => rfl⟩

/-- Whoever comes to the end of `end` knows that the call is done, unless it found it ended and knew nothing. -/
theorem follows_endCall (reason : String) {mode : BoardMode} (free : mode = .free ∨ BoardMode.Runs i mode) :
    boardRules.Follows (onCall i (CallProgram.endCall reason)) mode fun mode' _ =>
      mode' = .done i ∨ mode = .free ∧ mode' = .free := by
  have answers : mode ≠ .refused := by rcases free with rfl | rfl | rfl <;> nofun
  have ends {seen : BoardMode} (free : seen = .free ∨ BoardMode.Runs i seen) : seen.ended i = .done i := by
    rcases free with rfl | rfl | rfl <;> rfl
  have releases {seen : BoardMode} (free : seen = .free ∨ BoardMode.Runs i seen) :
      boardRules.Follows (onCall i (CallProgram.release reason)) (seen.ended i) fun mode' _ =>
        mode' = .done i ∨ mode = .free ∧ mode' = .free := by
    rw [ends free]
    exact (follows_release reason).mono fun _ _ => Or.inl
  refine follows_quiet rfl answers fun _ => follows_swap answers (.inl rfl) (releases free) ?_
  refine follows_swap answers (.inr (.inl rfl)) (releases free) (follows_swap answers (.inr (.inr rfl)) (releases free) ?_)
  refine follows_load answers fun state seen after => ?_
  have learns := after_load free after
  have seen_free : seen = .free ∨ BoardMode.Runs i seen := learns.imp And.right And.left
  split
  next ended => exact learns.symm.imp_left fun runs => runs.2 (.inr ended)
  next =>
    refine follows_call nofun (.inr ⟨?_, nofun, nofun, nofun⟩) fun _ mode' after => ?_
    · rcases seen_free with rfl | rfl | rfl <;> nofun
    · have same : seen.ended i = mode' := by rcases seen_free with rfl | rfl | rfl <;> exact Option.some.inj after
      rw [← same]
      exact releases seen_free

theorem minds_closed : CallProgram.Closed indifferent (Minds i) :=
  CallProgram.Sequential.closed
    { bind := Minds.bind
      uses := fun uses mode works =>
        Typestate.follows_of_keeps (keeps_of_uses uses fun _ => boardRules_works) works
      endCall := fun reason mode works => by
        refine (follows_endCall reason (works.imp_right Or.inr)).mono fun mode' _ known => ?_
        exact known.symm.imp_left And.right }
    (by decide) (by decide)

/-- Code of call `i` run by the thread that has set it up. -/
theorem runs_of_uses {mode : BoardMode} (uses : CallProgram.Uses indifferent program)
    (runs : BoardMode.Runs i mode) :
    boardRules.Follows (onCall i program) mode fun mode' _ => BoardMode.Runs i mode' :=
  Typestate.follows_of_keeps (keeps_of_uses uses fun _ => boardRules_runs) runs

theorem plain_sendSignals (signals : List Int) :
    (onCall i (CallProgram.sendSignals signals)).All (boardRules.Plain (.running i)) := by
  refine all_onCall ((CallProgram.signals_sendSignals signals).mono fun op sends => ⟨?_, ?_⟩)
  · cases op <;> simp_all [Typestate.Plain]
  · rintro ⟨reason, rfl⟩
    exact sends.elim

/-- After `Hangup` the thread that made a call knows that it is done, or has not set it up. -/
theorem follows_hangup (reason : String) {mode : BoardMode} (made : mode = .pending i ∨ BoardMode.Runs i mode) :
    boardRules.Follows (onCall i (CallProgram.hangup reason)) mode fun mode' _ =>
      mode' = .pending i ∨ mode' = .done i := by
  have ends {mode : BoardMode} (runs : BoardMode.Runs i mode) : boardRules.Follows
      (onCall i (CallProgram.endCall reason)) mode fun mode' _ => mode' = .pending i ∨ mode' = .done i := by
    refine (follows_endCall reason (.inr runs)).mono fun mode' _ known => .inr (known.resolve_right fun free => ?_)
    rcases runs with rfl | rfl <;> exact nomatch free.1
  have rejects {mode : BoardMode} (runs : BoardMode.Runs i mode) : boardRules.Follows
      (onCall i (CallProgram.sendSignals [statusRejected] >>= fun _ => CallProgram.endCall reason)) mode
      fun mode' _ => mode' = .pending i ∨ mode' = .done i := by
    rw [onCall_bind]
    exact Typestate.follows_bind ((runs_of_uses (CallProgram.uses_sendSignals _) runs).mono fun _ _ => ends)
  refine follows_load (by rcases made with rfl | rfl | rfl <;> nofun) fun state seen after => ?_
  rcases made with rfl | runs
  · -- The call has not been set up, so it is idle or has ended.
    obtain ⟨rests, same⟩ := Option.ite_none_left_eq_some.1 after
    cases same
    have returns : state = .idle ∨ state = .ended := by
      by_contra awake
      exact rests ⟨rfl, not_or.1 awake⟩
    rw [if_pos returns]
    exact .inl rfl
  · obtain ⟨running, rested⟩ := (after_load (.inr runs) after).resolve_left fun free => by
      rcases runs with rfl | rfl <;> exact nomatch free.1
    have answers : seen ≠ .refused := by rcases running with rfl | rfl <;> nofun
    split
    next rests => exact .inr (rested rests)
    next =>
      refine follows_quiet rfl answers fun incoming => ?_
      split
      · split
        · refine follows_quiet rfl answers fun answered => ?_
          split
          · exact ends running
          · exact rejects running
        · exact ends running
      · exact ends running

theorem uses_armTimeout (c : CallConfig) (timer : SetupTimer) :
    CallProgram.Uses indifferent (CallProgram.armTimeout c timer) := by simp [CallProgram.armTimeout]

theorem follows_start {f : Bool → CallProgram α} {wanted : BoardMode → α → Prop}
    (moved : boardRules.Follows (onCall i (f true)) (.running i) wanted)
    (missed : boardRules.Follows (onCall i (f false)) (.done i) wanted) :
    boardRules.Follows (onCall i (CallProgram.once (.casState .idle .connecting) >>= f)) (.pending i) wanted := by
  refine follows_call nofun (.inr ⟨nofun, nofun, fun _ => rfl, nofun⟩) fun answer mode' after => ?_
  cases answer <;> cases after
  · exact missed
  · exact moved

theorem follows_reset {f : Unit → CallProgram α} {wanted : BoardMode → α → Prop}
    (rest : boardRules.Follows (onCall i (f ())) (.done i) wanted) :
    boardRules.Follows (onCall i (CallProgram.once (.storeState .idle) >>= f)) (.running i) wanted := by
  refine follows_call nofun (.inr ⟨nofun, nofun, nofun, fun _ => rfl⟩) fun _ mode' after => ?_
  cases after
  exact rest

theorem follows_serveIncoming (c : CallConfig) :
    boardRules.Follows (onCall i (CallProgram.serveIncoming c)) (.pending i) fun mode result =>
      mode ≠ .refused ∧ ∀ error, result = .error error → mode = .done i := by
  refine follows_start ?_ ⟨nofun, fun _ _ => rfl⟩
  rw [if_pos rfl]
  refine follows_quiet rfl nofun fun _ => follows_quiet rfl nofun fun _ => follows_quiet rfl nofun fun _ =>
    follows_quiet rfl nofun fun _ => follows_quiet rfl nofun fun _ => follows_quiet rfl nofun fun _ => ?_
  rw [onCall_bind]
  refine Typestate.follows_bind (Typestate.follows_of_plain (plain_sendSignals _) fun
    | .error error => follows_reset (follows_quiet rfl nofun fun _ => ⟨nofun, fun _ _ => rfl⟩)
    | .ok () => follows_quiet rfl nofun fun _ => ?_)
  rw [onCall_bind]
  refine Typestate.follows_bind ((runs_of_uses (uses_armTimeout c .identify) (.inl rfl)).mono fun mode _ runs => ⟨?_, nofun⟩)
  rcases runs with rfl | rfl <;> nofun

theorem follows_dial (c : CallConfig) (remote : Bool) :
    boardRules.Follows (onCall i (CallProgram.dial c remote)) (.pending i) fun mode _ =>
      mode = .pending i ∨ BoardMode.Runs i mode := by
  unfold CallProgram.dial
  split
  · exact .inl rfl
  · split
    · exact .inl rfl
    · refine follows_start ?_ (.inr (.inr rfl))
      rw [if_pos rfl]
      refine follows_quiet rfl nofun fun _ => follows_quiet rfl nofun fun _ => follows_quiet rfl nofun fun made => ?_
      split
      · refine follows_quiet rfl nofun fun _ => follows_quiet rfl nofun fun _ => follows_quiet rfl nofun fun _ =>
          follows_quiet rfl nofun fun _ => follows_quiet rfl nofun fun established => ?_
        split
        · have waits : CallProgram.Uses indifferent (CallProgram.armTimeout c .dial >>= fun _ =>
              CallProgram.once .awaitActive >>= fun awaited => pure awaited.result) :=
            (uses_armTimeout c .dial).bind fun _ => by simp
          exact (runs_of_uses waits (.inl rfl)).mono fun _ _ => Or.inr
        · exact follows_reset (follows_quiet rfl nofun fun _ => .inr (.inr rfl))
      · exact follows_reset (.inr (.inr rfl))

variable (configs : Nat → CallConfig)

/-- The thread is through and does not owe an answer. -/
abbrev Polite (program : BoardProgram Unit) : Prop := boardRules.Follows program .free fun mode _ => mode ≠ .refused

theorem polite_inbound : Polite (inbound configs) := by
  simp [inbound]
  intro i
  refine Typestate.follows_bind ((follows_serveIncoming (configs i)).mono fun mode result known => ?_)
  cases result with
  | error error =>
    rw [known.2 error rfl]
    simp
  | ok value => cases mode <;> simp_all

theorem polite_dial (remote : Bool) : Polite (dial configs remote) := by
  have hangs (i : Nat) {mode : BoardMode} (made : mode = .pending i ∨ BoardMode.Runs i mode) : boardRules.Follows
      (onCall i (CallProgram.hangup "dial failed") >>= fun _ => once (.release i)) mode fun mode _ => mode ≠ .refused := by
    refine Typestate.follows_bind ((follows_hangup _ made).mono fun mode _ known => ?_)
    rcases known with rfl | rfl <;> simp
  simp [dial]
  intro i
  refine Typestate.follows_bind ((follows_dial (configs i) remote).mono fun mode result made => ?_)
  cases result with
  | error error => exact hangs i made
  | ok value => rcases made with rfl | rfl | rfl <;> simp

theorem polite_onCall (i : Nat) (entry : CallEntry) (other : entry.setsUp = false) :
    Polite (onCall i (CallProgram.ofEntry (configs i) entry)) := by
  have minds : Minds i (CallProgram.ofEntry (configs i) entry) := minds_closed.ofEntry (configs i) entry (by decide) (by
    rintro (⟨remote, rfl⟩ | rfl) <;> cases other)
  refine (minds .free (.inl rfl)).mono fun mode _ works => ?_
  rcases works with rfl | rfl <;> nofun

end BoardProgram

/-- The entries that are not opened belong to nobody. -/
def BoardEntry.mode : BoardEntry → BoardMode
  | call _ entry | onActive entry => if entry.setsUp then .never else .free
  | _ => .free

namespace BoardProgram
variable (configs : Nat → CallConfig)

theorem follows_never (program : BoardProgram Unit) :
    boardRules.Follows program .never fun mode _ => mode ≠ .refused := by
  have plain (op : BoardOp) : boardRules.Plain .never op := ⟨.inl rfl, fun _ _ after => (Option.some.inj after).symm⟩
  exact Typestate.follows_of_plain (Program.all_of_forall plain program) fun _ => nofun

theorem polite_bind {op : BoardOp} {f : op.Answer → BoardProgram Unit} (plain : boardRules.Plain .free op)
    (rest : ∀ answer, Polite (f answer)) : Polite (once op >>= f) :=
  Typestate.follows_bind_of_plain ((Program.all_once _ op).2 plain) rest

theorem polite_answerHash (want : List Char) : Polite (answerHash configs want) := by
  have looks (checked : Option Nat) : boardRules.Plain .free (.active checked) := by simp [Typestate.Plain]
  have answers (i : Nat) : Polite (answerChecked configs i) := by
    unfold answerChecked
    exact polite_bind (looks _) fun
      | none => nofun
      | some j => polite_onCall configs j .answer rfl
  refine polite_bind (by simp [Typestate.Plain]) fun _ => polite_bind (looks none) fun
    | none => nofun
    | some i => ?_
  cases parseHash want with
  | none => nofun
  | some raw =>
    refine polite_bind (by simp [Typestate.Plain]) fun linked => ?_
    split
    · refine polite_bind (by simp [Typestate.Plain]) fun
        | none => nofun
        | some identityHash => ?_
      show Polite (if isCaller raw identityHash then answerChecked configs i else pure ())
      split
      · exact answers i
      · nofun
    · nofun

theorem polite_ofEntry (entry : BoardEntry) :
    boardRules.Follows (ofEntry configs entry) entry.mode fun mode _ => mode ≠ .refused := by
  cases entry with
  | inbound => exact polite_inbound configs
  | dial remote => exact polite_dial configs remote
  | setBusy busy => simp [ofEntry, BoardEntry.mode]
  | info => simp [ofEntry, BoardEntry.mode]
  | answerHash want => exact polite_answerHash configs want
  | identify i identityHash =>
    have identified := (minds_closed (i := i)).onIdentified (by decide) (configs i) .free (.inl rfl)
    refine polite_bind (by simp [Typestate.Plain]) fun runs => ?_
    split
    · refine identified.mono fun mode _ works => ?_
      rcases works with rfl | rfl <;> nofun
    · nofun
  | onActive entry =>
    cases setup : entry.setsUp with
    | true => simpa [BoardEntry.mode, setup] using follows_never _
    | false =>
      simp only [BoardEntry.mode, setup, Bool.false_eq_true, if_false]
      refine polite_bind (by simp [Typestate.Plain]) fun
        | none => nofun
        | some i => polite_onCall configs i entry setup
  | call i entry =>
    cases setup : entry.setsUp with
    | true => simpa [BoardEntry.mode, setup] using follows_never _
    | false => simpa [BoardEntry.mode, setup, ofEntry] using polite_onCall configs i entry setup

end BoardProgram

namespace Board

/-- Nobody looks at the switchboard while the call that it is occupied with is idle. -/
def settled (board : Board) : BoardOp → Bool
  | .busy | .occupy .. | .active _ => board.active.all fun i => (board.calls i).state ≠ .idle
  | _ => true

def Settled (board : Board) (_ : Nat) (_ : Bool) (op : BoardOp) : Prop := board.settled op = true

instance (board : Board) (t : Nat) (input : Bool) (op : BoardOp) : Decidable (board.Settled t input op) :=
  inferInstanceAs (Decidable (_ = true))

def Known (board : Board) (t : Nat) : BoardMode → Prop
  | .free | .refused => True
  | .created i => i < board.count ∧ board.owner i = t ∧ board.started i = false ∧
      ((board.calls i).state = .idle ∨ (board.calls i).state = .ended)
  | .pending i => i < board.count ∧ board.owner i = t ∧ board.started i = false ∧
      ((board.calls i).state = .idle ∧ board.active = some i ∨ (board.calls i).state = .ended)
  | .running i => board.started i = true
  | .done i => (board.calls i).state = .ended ∨ board.started i = true ∧ (board.calls i).state = .idle
  | .never => False

/-- A thread that met a live call has answered busy, or is about to. -/
def Tied (board : Board) (t : Nat) (mode : BoardMode) : Prop :=
  board.Known t mode ∧ (t ∈ board.met → t ∈ board.answeredBusy ∨ mode = .refused)

/-- A live call occupies the switchboard. -/
structure Orderly (board : Board) (n : Nat) : Prop where
  live : ∀ i, (board.calls i).live = true → board.active = some i
  unmade : ∀ i, board.count ≤ i → (board.calls i).state = .idle ∧ board.started i = false
  met : ∀ t ∈ board.met, t < n

section
variable {board : Board} {t t' i j n : Nat} {input : Bool} {op : CallOp} {mode mode' : BoardMode}

theorem started_call : (board.next t input (.call i op)).started j =
    (board.started j || decide (j = i ∧ op.footprint = .start)) := by
  have noted : (board.noteCall t i op).started =
      if op.footprint = .start then Function.update board.started i true else board.started := by
    cases op with
    | casState before after => cases before <;> cases after <;> rfl
    | storeState state => cases state <;> rfl
    | create purpose part => cases purpose <;> rfl
    | go entry => cases entry <;> rfl
    | store flag value => cases flag <;> rfl
    | _ => rfl
  show (board.noteCall t i op).started j = _
  rw [noted]
  by_cases start : op.footprint = .start
  · by_cases same : j = i <;> simp [start, same, -CallOp.footprint]
  · simp [start, -CallOp.footprint]

theorem state_call : ((board.next t input (.call i op)).calls j).state =
    if j = i then op.nextState (board.calls i).state else (board.calls j).state := by
  by_cases same : j = i
  · subst same
    simp [next, Call.state_next]
  · simp [next, same]

/-- A call comes to life by being set up. -/
theorem live_before {state : CallState} (tame : op.footprint ≠ .wild) (other : op.footprint ≠ .start)
    (live : op.nextState state = .connecting ∨ op.nextState state = .ringing ∨ op.nextState state = .active) :
    state = .connecting ∨ state = .ringing ∨ state = .active := by
  cases op with
  | casState before after => cases before <;> cases after <;> cases state <;> simp_all [CallOp.nextState]
  | storeState next => cases next <;> simp_all [CallOp.nextState]
  | _ => exact live

theorem idle_next (tame : op.footprint ≠ .wild) (other : op.footprint ≠ .start) :
    op.nextState .idle = .idle ∨ op.nextState .idle = .ended := by
  cases op with
  | casState before after => cases before <;> cases after <;> simp_all [CallOp.nextState]
  | storeState next => cases next <;> simp_all [CallOp.nextState]
  | _ => exact .inl rfl

theorem ended_next (tame : op.footprint ≠ .wild) :
    op.nextState .ended = .ended ∨ op.footprint = .reset ∧ op.nextState .ended = .idle := by
  cases op with
  | casState before after => cases before <;> cases after <;> simp_all [CallOp.nextState]
  | storeState next => cases next <;> simp_all [CallOp.nextState]
  | _ => exact .inl rfl

theorem known_call (tame : op.footprint ≠ .wild) (starts : op.footprint = .start → mode = .pending i)
    (resets : op.footprint = .reset → mode = .running i) (known : board.Known t mode)
    (apart : t' ≠ t ∨ op.footprint ≠ .start) (holds : board.Known t' mode') :
    (board.next t input (.call i op)).Known t' mode' := by
  -- A call that another thread has made and not set up is not set up by this one.
  have unstarted {j : Nat} (made : board.owner j = t') (fresh : board.started j = false) :
      (board.next t input (.call i op)).started j = false ∧ (j = i → op.footprint ≠ .start) := by
    have other (same : j = i) (start : op.footprint = .start) : False := by
      rw [starts start] at known
      exact apart.elim (fun apart => apart (made.symm.trans (same ▸ known.2.1))) fun other => other start
    exact ⟨by rw [started_call, fresh]; simpa [-CallOp.footprint] using other, other⟩
  cases mode' with
  | free => trivial
  | refused => trivial
  | never => exact holds
  | running j =>
    show _ = true
    rw [started_call, show board.started j = true from holds]
    rfl
  | created j =>
    obtain ⟨made, mine, fresh, rests⟩ := holds
    obtain ⟨fresh', other⟩ := unstarted mine fresh
    refine ⟨made, mine, fresh', ?_⟩
    rw [state_call]
    split
    next same =>
      subst same
      rcases rests with idle | ended
      · rw [idle]
        exact idle_next tame (other rfl)
      · rw [ended]
        exact (ended_next tame).symm.imp_left And.right
    next => exact rests
  | pending j =>
    obtain ⟨made, mine, fresh, rests⟩ := holds
    obtain ⟨fresh', other⟩ := unstarted mine fresh
    refine ⟨made, mine, fresh', ?_⟩
    rw [state_call]
    split
    next same =>
      subst same
      rcases rests with ⟨idle, here⟩ | ended
      · rw [idle]
        exact (idle_next tame (other rfl)).imp_left fun idle => ⟨idle, here⟩
      · rw [ended]
        refine .inr ((ended_next tame).resolve_right fun reset => ?_)
        rw [resets reset.1] at known
        exact Bool.false_ne_true (fresh.symm.trans known)
    next => exact rests
  | done j =>
    show _ ∨ _ ∧ _
    rw [state_call]
    split
    next same =>
      subst same
      rcases holds with ended | ⟨started, idle⟩
      · rw [ended]
        refine (ended_next tame).imp_right fun reset => ⟨?_, reset.2⟩
        rw [resets reset.1] at known
        rw [started_call, show board.started j = true from known]
        rfl
      · have other : op.footprint ≠ .start := fun start => by
          rw [starts start] at known
          exact Bool.false_ne_true (known.2.2.1.symm.trans started)
        rw [idle, started_call, started]
        exact (idle_next tame other).symm.imp_right fun idle => ⟨rfl, idle⟩
    next => exact holds.imp_right fun rests => ⟨by rw [started_call, rests.1]; rfl, rests.2⟩

/-- The calls are as they were. -/
structure Frame (board board' : Board) : Prop where
  calls : board'.calls = board.calls
  started : board'.started = board.started
  count : board.count ≤ board'.count
  owner : ∀ j < board.count, board'.owner j = board.owner j

theorem frame_next {op : BoardOp} (other : ∀ i op', op ≠ .call i op') : Frame board (board.next t input op) := by
  cases op with
  | call i op => exact absurd rfl (other i op)
  | newCall => exact ⟨rfl, rfl, Nat.le_succ _, fun j made => Function.update_of_ne made.ne _ _⟩
  | occupy i inbound => cases inbound <;> exact ⟨rfl, rfl, le_rfl, fun _ _ => rfl⟩
  | _ => exact ⟨rfl, rfl, le_rfl, fun _ _ => rfl⟩

/-- What the other operations leave of it: those who have not set up their call must find it in the switchboard. -/
theorem known_frame {board' : Board} (frame : Frame board board')
    (kept : ∀ j, board.owner j = t → board.started j = false → (board.calls j).state = .idle → board.active = some j →
      board'.active = some j) (holds : board.Known t mode) : board'.Known t mode := by
  cases mode with
  | free => trivial
  | refused => trivial
  | never => exact holds
  | running j => exact (congrFun frame.started j).trans holds
  | created j =>
    obtain ⟨made, mine, fresh, rests⟩ := holds
    refine ⟨made.trans_le frame.count, (frame.owner j made).trans mine, (congrFun frame.started j).trans fresh, ?_⟩
    rw [frame.calls]
    exact rests
  | pending j =>
    obtain ⟨made, mine, fresh, rests⟩ := holds
    refine ⟨made.trans_le frame.count, (frame.owner j made).trans mine, (congrFun frame.started j).trans fresh, ?_⟩
    rw [frame.calls]
    exact rests.imp_left fun waits => ⟨waits.1, kept j mine fresh waits.1 waits.2⟩
  | done j =>
    show _ ∨ _ ∧ _
    rw [frame.calls, frame.started]
    exact holds

theorem occupant_of_live (orderly : board.Orderly n) (live : (board.calls j).live = true) : board.occupant = some j := by
  rw [occupant, orderly.live j live]
  simp only [Call.live, decide_eq_true_eq] at live
  rcases live with live | live | live <;> simp [live]

theorem busy_of_live (orderly : board.Orderly n) (live : (board.calls j).live = true) : board.busyLocked.1 = true := by
  simp [busyLocked, occupant_of_live orderly live]

theorem look_of_live (orderly : board.Orderly n) (live : (board.calls j).live = true) :
    board.busyLocked.2.active = some j := by
  simp [busyLocked, occupant_of_live orderly live, orderly.live j live]

theorem exists_live (any : board.anyLive = true) : ∃ j, (board.calls j).live = true := by
  obtain ⟨j, -, live⟩ := any_eq_true.1 any
  exact ⟨j, live⟩

theorem not_live (rests : (board.calls j).state = .idle ∨ (board.calls j).state = .ended) :
    (board.calls j).live ≠ true := by
  rcases rests with rests | rests <;> simp [Call.live, rests]

theorem live_next {op : BoardOp} (orderly : board.Orderly n) (known : board.Known t mode) (allows : mode.Allows op)
    (other : ∀ i op', op ≠ .call i op') (live : (board.calls j).live = true) :
    (board.next t input op).active = some j := by
  have here := orderly.live j live
  cases op with
  | call i op => exact absurd rfl (other i op)
  | busy =>
    show board.busyLocked.2.active = some j
    exact look_of_live orderly live
  | active checked => exact occupant_of_live orderly live
  | occupy i inbound =>
    have looked : (board.occupy i).2.active = some j :=
      (if_pos (busy_of_live orderly live)).trans (look_of_live orderly live)
    cases inbound <;> exact looked
  | release i =>
    have apart : i ≠ j := by
      rintro rfl
      rcases allows with rfl | rfl
      · exact not_live (known.symm.imp_left And.right) live
      · exact not_live (known.2.2.2.imp_left And.left) live
    show (if board.active = some i then none else board.active) = some j
    rw [here, if_neg (by simpa using Ne.symm apart)]
  | _ => exact here

theorem met_next {op : BoardOp} (noted : t' ∈ (board.next t input op).met) :
    t' ∈ board.met ∨ t' = t ∧ board.anyLive = true ∧ (op = .busy ∨ ∃ i, op = .occupy i true) := by
  have check (noted : t' ∈ (board.noteMet t).met) : t' ∈ board.met ∨ t' = t ∧ board.anyLive = true := by
    by_cases any : board.anyLive = true
    · simpa [noteMet, any, or_comm] using noted
    · simpa [noteMet, any] using noted
  cases op with
  | busy => exact (check noted).imp_right fun here => ⟨here.1, here.2, .inl rfl⟩
  | occupy i inbound =>
    cases inbound
    · exact .inl noted
    · exact (check noted).imp_right fun here => ⟨here.1, here.2, .inr ⟨i, rfl⟩⟩
  | _ => exact .inl noted

theorem made_of_call (goes : board.waits input (.call i op) = false) : i < board.count := by
  simp only [waits, decide_eq_false_iff_not, not_or, not_le] at goes
  exact goes.1

theorem Orderly.next {op : BoardOp} (orderly : board.Orderly n) (bound : t < n) (known : board.Known t mode)
    (allows : mode.Allows op) (goes : board.waits input op = false) : (board.next t input op).Orderly n := by
  have met : ∀ t' ∈ (board.next t input op).met, t' < n := fun t' noted =>
    (met_next noted).elim (orderly.met t') fun here => here.1 ▸ bound
  by_cases calls : ∃ i op', op = .call i op'
  · obtain ⟨i, op, rfl⟩ := calls
    obtain ⟨-, tame, starts, -⟩ := allows
    have made := made_of_call goes
    refine ⟨fun j live => ?_, fun j unmade => ?_, met⟩
    · simp only [Call.live, decide_eq_true_eq, state_call] at live
      by_cases same : j = i
      · subst same
        simp only [if_true] at live
        by_cases start : op.footprint = .start
        · rw [starts start] at known
          rcases known.2.2.2 with waits | ended
          · exact waits.2
          · rw [ended] at live
            rcases ended_next tame with stays | ⟨-, resets⟩
            · simp [stays] at live
            · simp [resets] at live
        · exact orderly.live j (by simpa [Call.live] using live_before tame start live)
      · simp only [same, if_false] at live
        exact orderly.live j (by simpa [Call.live] using live)
    · have apart : j ≠ i := (made.trans_le unmade).ne'
      rw [state_call, started_call, if_neg apart]
      simpa [apart] using orderly.unmade j unmade
  · simp only [not_exists] at calls
    have frame : Frame board (board.next t input op) := frame_next calls
    refine ⟨fun j live => live_next orderly known allows calls (frame.calls ▸ live), fun j unmade => ?_, met⟩
    rw [frame.calls, frame.started]
    exact orderly.unmade j (frame.count.trans unmade)

/-- Those who have not set up their call find it in the switchboard. -/
theorem active_kept {op : BoardOp} (known : board.Known t mode) (allows : mode.Allows op)
    (settled : board.Settled t input op) (other : ∀ i op', op ≠ .call i op') (apart : t' ≠ t ∨ ∀ i, op ≠ .release i)
    (mine : board.owner j = t') (fresh : board.started j = false) (idle : (board.calls j).state = .idle)
    (here : board.active = some j) : (board.next t input op).active = some j := by
  have looks (look : op = .busy ∨ (∃ i inbound, op = .occupy i inbound) ∨ ∃ checked, op = .active checked) : False := by
    rcases look with rfl | ⟨i, inbound, rfl⟩ | ⟨checked, rfl⟩ <;> simp [Settled, Board.settled, here, idle] at settled
  cases op with
  | call i op => exact absurd rfl (other i op)
  | busy => exact (looks (.inl rfl)).elim
  | occupy i inbound => exact (looks (.inr (.inl ⟨i, inbound, rfl⟩))).elim
  | active checked => exact (looks (.inr (.inr ⟨checked, rfl⟩))).elim
  | release i =>
    have distinct : i ≠ j := by
      rintro rfl
      rcases allows with rfl | rfl
      · rcases known with ended | rests
        · exact nomatch idle.symm.trans ended
        · exact Bool.false_ne_true (fresh.symm.trans rests.1)
      · exact apart.elim (fun apart => apart (mine.symm.trans known.2.1)) fun none => none i rfl
    show (if board.active = some i then none else board.active) = some j
    rw [here, if_neg (by simpa using Ne.symm distinct)]
  | _ => exact here

theorem known_others {op : BoardOp} (known : board.Known t mode) (allows : mode.Allows op)
    (settled : board.Settled t input op)
    (apart : t' ≠ t ∨ (∀ i, op ≠ .release i) ∧ ∀ i op', op = .call i op' → op'.footprint ≠ .start)
    (holds : board.Known t' mode') : (board.next t input op).Known t' mode' := by
  by_cases calls : ∃ i op', op = .call i op'
  · obtain ⟨i, op, rfl⟩ := calls
    obtain ⟨-, tame, starts, resets⟩ := allows
    exact known_call tame starts resets known (apart.imp_right fun own => own.2 i op rfl) holds
  · simp only [not_exists] at calls
    exact known_frame (frame_next calls)
      (fun j => active_kept known allows settled calls (apart.imp_right And.left)) holds

theorem start_eq (start : op.footprint = .start) : op = .casState .idle .connecting := by
  cases op with
  | casState before after => cases before <;> cases after <;> simp_all
  | storeState state => cases state <;> simp_all
  | create purpose part => cases purpose <;> simp_all
  | store flag value => cases flag <;> simp_all
  | go entry => cases entry <;> simp_all
  | _ => simp_all

theorem known_ended (stays : board.Known t mode) (ended : (board.calls i).state = .ended) :
    board.Known t (mode.ended i) := by
  cases mode <;> first | exact .inl ended | exact stays

theorem known_after_call (known : board.Known t mode) (allows : mode.Allows (.call i op)) :
    ∃ mode', boardRules.after mode (.call i op) (board.reply input (.call i op)) = some mode' ∧
      (board.next t input (.call i op)).Known t mode' := by
  obtain ⟨-, tame, starts, resets⟩ := allows
  have stays (other : op.footprint ≠ .start) : (board.next t input (.call i op)).Known t mode :=
    known_call tame starts resets known (.inr other) known
  have state : ((board.next t input (.call i op)).calls i).state = op.nextState (board.calls i).state := by
    simp [state_call]
  cases op with
  | casState before after =>
    by_cases start : (CallOp.casState before after).footprint = .start
    · cases start_eq start
      rw [starts start] at known ⊢
      refine ⟨_, rfl, ?_⟩
      rcases known.2.2.2 with ⟨idle, -⟩ | ended
      · simp [reply, Call.reply, idle, Known, started_call]
      · simp [reply, Call.reply, ended, Known, state, CallOp.nextState]
    · by_cases ends : after = .ended
      · subst ends
        refine ⟨if (board.calls i).state = before then mode.ended i else mode, ?_, ?_⟩
        · cases mode <;> simp [reply, Call.reply]
        · split
          next here => exact known_ended (stays start) (by rw [state]; simp [CallOp.nextState, here])
          next => exact stays start
      · refine ⟨mode, ?_, stays start⟩
        cases before <;> cases after <;>
          first | exact absurd rfl ends | exact absurd rfl tame | exact absurd rfl start | (cases mode <;> rfl)
  | storeState next =>
    cases next with
    | ended =>
      refine ⟨mode.ended i, ?_, known_ended (stays (by simp)) state⟩
      cases mode <;> rfl
    | idle =>
      rw [resets rfl] at known ⊢
      refine ⟨_, rfl, .inr ⟨?_, state⟩⟩
      rw [started_call, show board.started i = true from known]
      rfl
    | _ => exact absurd rfl tame
  | loadState =>
    have same : board.next t input (.call i .loadState) = board := by simp [next, noteCall, Call.next]
    rw [same]
    cases mode with
    | running j =>
      refine ⟨_, rfl, ?_⟩
      split
      next found =>
        obtain ⟨rfl, rests⟩ := found
        exact rests.symm.imp_right fun idle => ⟨known, idle⟩
      next => exact known
    | pending j =>
      refine ⟨.pending j, if_neg fun found => ?_, known⟩
      obtain ⟨rfl, awake, alive⟩ := found
      exact known.2.2.2.elim (fun waits => awake waits.1) alive
    | done j =>
      refine ⟨.done j, if_neg fun found => ?_, known⟩
      obtain ⟨rfl, awake, alive⟩ := found
      exact known.elim alive fun rests => awake rests.2
    | _ => exact ⟨_, rfl, known⟩
  | _ => exact ⟨mode, by cases mode <;> rfl, stays fun start => by cases start_eq start⟩

theorem known_after {op : BoardOp} (orderly : board.Orderly n) (known : board.Known t mode) (allows : mode.Allows op)
    (settled : board.Settled t input op) :
    ∃ mode', boardRules.after mode op (board.reply input op) = some mode' ∧
      (board.next t input op).Known t mode' := by
  cases op with
  | call i op => exact known_after_call known allows
  | newCall =>
    rw [show mode = .free from allows]
    obtain ⟨idle, fresh⟩ := orderly.unmade board.count le_rfl
    exact ⟨_, rfl, Nat.lt_succ_self _, Function.update_self .., fresh, .inl idle⟩
  | busy =>
    rw [show mode = .free from allows]
    refine ⟨_, rfl, ?_⟩
    split <;> trivial
  | occupy i inbound =>
    rw [show mode = .created i from allows] at known ⊢
    obtain ⟨made, mine, fresh, rests⟩ := known
    refine ⟨_, rfl, ?_⟩
    cases busy : board.busyLocked.1 with
    | true => cases inbound <;> simp [reply, occupy, busy, Known]
    | false =>
      have taken : (board.next t input (.occupy i inbound)).active = some i := by
        cases inbound
        · exact if_neg (Bool.eq_false_iff.1 busy)
        · exact if_neg (show ¬board.busyLocked.1 = true from Bool.eq_false_iff.1 busy)
      have frame : Frame board (board.next t input (.occupy i inbound)) := frame_next nofun
      simp only [reply, occupy, busy, Bool.not_false, if_true]
      refine ⟨made.trans_le frame.count, (frame.owner i made).trans mine, (congrFun frame.started i).trans fresh, ?_⟩
      rw [frame.calls, taken]
      exact rests.imp_left fun idle => ⟨idle, rfl⟩
  | release i =>
    rcases allows with rfl | rfl
    · exact ⟨_, rfl, known⟩
    · exact ⟨_, rfl, trivial⟩
  | rejectBusy =>
    rw [show mode = .refused from allows]
    exact ⟨_, rfl, trivial⟩
  | _ => exact ⟨mode, by cases mode <;> rfl, known_others known allows settled (.inr ⟨nofun, nofun⟩) known⟩

theorem answeredBusy_next {op : BoardOp} (answered : t' ∈ board.answeredBusy) :
    t' ∈ (board.next t input op).answeredBusy := by
  cases op with
  | rejectBusy => exact mem_cons_of_mem _ answered
  | occupy i inbound => cases inbound <;> exact answered
  | _ => exact answered

/-- Whoever meets a live call is told that the switchboard is busy. -/
theorem courtesy_after {op : BoardOp} (orderly : board.Orderly n) (allows : mode.Allows op)
    (courtesy : t ∈ board.met → t ∈ board.answeredBusy ∨ mode = .refused)
    (after : boardRules.after mode op (board.reply input op) = some mode')
    (noted : t ∈ (board.next t input op).met) : t ∈ (board.next t input op).answeredBusy ∨ mode' = .refused := by
  rcases met_next noted with earlier | ⟨-, any, checks⟩
  · rcases courtesy earlier with answered | refused
    · exact .inl (answeredBusy_next answered)
    · subst refused
      cases op <;> first | exact .inl (mem_cons_self ..) | simp at allows
  · obtain ⟨j, live⟩ := exists_live any
    have busy := busy_of_live orderly live
    refine .inr ?_
    rcases checks with rfl | ⟨i, rfl⟩
    · rw [show mode = .free from allows] at after
      simpa [reply, busy] using after.symm
    · rw [show mode = .created i from allows] at after
      simpa [reply, occupy, busy] using after.symm

theorem allows_of_known {op : BoardOp} (known : board.Known t mode) (permitted : boardRules.permits mode op) :
    mode.Allows op := permitted.resolve_left fun never => by rwa [never] at known

theorem free_of_forks {op : BoardOp} {entry : BoardEntry} (allows : mode.Allows op) (forked : entry ∈ op.forks) :
    entry.mode = .free := by
  cases op with
  | call i op =>
    obtain ⟨started, forks, rfl⟩ := mem_map.1 forked
    have tame := allows.2.1
    cases op with
    | go entry =>
      cases mem_singleton.1 forks
      cases started <;> first | rfl | exact absurd rfl tame
    | _ => simp [CallOp.forks] at forks
  | _ => simp [BoardOp.forks] at forked

theorem free_of_opens {entry : BoardEntry} (opens : board.opens entry = true) : entry.mode = .free := by
  cases entry with
  | call i entry => cases entry <;> first | rfl | simp [Board.opens, CallEntry.isMethod, CallEntry.isCallback] at opens
  | onActive entry => cases entry <;> first | rfl | simp [Board.opens, CallEntry.isMethod] at opens
  | _ => rfl

end

/-- The switchboard while nobody looks at it too early. -/
def outline (configs : Nat → CallConfig) : Outline (switchboard configs) boardRules Board.Settled where
  ok := Orderly
  tie := Tied
  initial := BoardEntry.mode
  ends mode := mode ≠ .refused
  follows := BoardProgram.polite_ofEntry configs
  fresh orderly := ⟨orderly.live, orderly.unmade, fun t noted => (orderly.met t noted).trans (Nat.lt_succ_self _)⟩
  opened {board n entry} orderly opens := by
    rw [free_of_opens opens]
    exact ⟨trivial, fun noted => absurd (orderly.met n noted) (lt_irrefl n)⟩
  own orderly bound tied permitted settled performed := by
    obtain ⟨goes, rfl, rfl, rfl⟩ := perform_eq_some performed
    have allows := allows_of_known tied.1 permitted
    have orderly' := orderly.next bound tied.1 allows goes
    obtain ⟨mode', after, known⟩ := known_after orderly tied.1 allows settled
    refine ⟨orderly', ⟨mode', after, known, courtesy_after orderly allows tied.2 after⟩, fun entry forked k new => ?_⟩
    rw [free_of_forks allows forked]
    exact ⟨trivial, fun noted => absurd (orderly'.met k noted) (not_lt.2 new)⟩
  others orderly _ tied permitted settled performed t' mode' apart holds := by
    obtain ⟨-, rfl, -, -⟩ := perform_eq_some performed
    have allows := allows_of_known tied.1 permitted
    refine ⟨known_others tied.1 allows settled (.inl apart) holds.1, fun noted => ?_⟩
    rcases met_next noted with earlier | ⟨same, -⟩
    · exact (holds.2 earlier).imp_left answeredBusy_next
    · exact absurd same apart

theorem one_call (configs : Nat → CallConfig) (activities : List (Activity BoardEntry Bool))
    (settled : Along (switchboard configs).step (Behaviour.Meets Board.Settled) { shared := newSwitchboard configs }
      activities) (s : BoardThreads)
    (ran : runEvents (switchboard configs).step { shared := newSwitchboard configs } activities = some s) :
    (∀ i j, (s.shared.calls i).live = true → (s.shared.calls j).live = true → i = j) ∧
      ∀ t ∈ s.shared.met, s.threads[t]? = some (.pure ()) → t ∈ s.shared.answeredBusy := by
  have start : (outline configs).ok (newSwitchboard configs) 0 := ⟨nofun, fun _ _ => ⟨rfl, rfl⟩, nofun⟩
  have orderly : s.shared.Orderly s.threads.length := Outline.ok_of_run start settled ran
  refine ⟨fun i j live live' => ?_, fun t met through => ?_⟩
  · exact Option.some.inj ((orderly.live i live).symm.trans (orderly.live j live'))
  · obtain ⟨mode, tied, ends⟩ := Outline.ends_of_run start settled ran through
    exact (tied.2 met).resolve_right ends

/-- Calls whose packets cannot be decoded. -/
def plainCalls : Nat → CallConfig := fun _ => { unpack := fun _ => none }

/-- A thread takes so many steps, in which everything outside works. -/
def turns (i n : Nat) : List (Activity BoardEntry Bool) := replicate n (.run i true)

/-- A link comes in and is served, and then a second one. -/
def servedAndBusy : List (Activity BoardEntry Bool) :=
  .start .inbound :: turns 0 18 ++ .start .inbound :: turns 3 2

theorem one_call_servedAndBusy :
    Along (switchboard plainCalls).step (Behaviour.Meets Board.Settled) { shared := newSwitchboard plainCalls }
        servedAndBusy ∧
      ∃ s, runEvents (switchboard plainCalls).step { shared := newSwitchboard plainCalls } servedAndBusy = some s ∧
        (s.shared.calls 0).live = true ∧ s.shared.met = [3] ∧ s.shared.answeredBusy = [3] ∧
        (∀ i j, (s.shared.calls i).live = true → (s.shared.calls j).live = true → i = j) ∧
        ∀ t ∈ s.shared.met, s.threads[t]? = some (.pure ()) → t ∈ s.shared.answeredBusy := by
  have settled : Along (switchboard plainCalls).step (Behaviour.Meets Board.Settled)
      { shared := newSwitchboard plainCalls } servedAndBusy := by decide +kernel
  have reached : (runEvents (switchboard plainCalls).step { shared := newSwitchboard plainCalls } servedAndBusy).any
      (fun s => decide ((s.shared.calls 0).live = true ∧ s.shared.met = [3] ∧ s.shared.answeredBusy = [3])) = true := by
    decide +kernel
  obtain ⟨s, ran, found⟩ := (Option.any_eq_true _ _).1 reached
  obtain ⟨live, met, answered⟩ := of_decide_eq_true found
  exact ⟨settled, s, ran, live, met, answered, one_call plainCalls servedAndBusy settled s ran⟩

/-- A second link comes in after the first has occupied the switchboard and before its call is set up. -/
theorem two_calls_at_once :
    ∃ s, runEvents (switchboard plainCalls).step { shared := newSwitchboard plainCalls }
        (.start .inbound :: turns 0 3 ++ .start .inbound :: turns 1 4 ++ turns 0 1) = some s ∧
      (s.shared.calls 0).live = true ∧ (s.shared.calls 1).live = true := by
  have reached : (runEvents (switchboard plainCalls).step { shared := newSwitchboard plainCalls }
      (.start .inbound :: turns 0 3 ++ .start .inbound :: turns 1 4 ++ turns 0 1)).any
      (fun s => decide ((s.shared.calls 0).live = true ∧ (s.shared.calls 1).live = true)) = true := by decide +kernel
  simpa only [Option.any_eq_true, decide_eq_true_eq] using reached

end Board

end ReticulumProtocols.Lxst
