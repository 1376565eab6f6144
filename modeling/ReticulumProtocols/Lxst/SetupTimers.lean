import ReticulumProtocols.Lxst.Ending

/-! The setup timers beside an active call. A timer that fires looks at the status, which the other side can set back
at any time, and not at the state the call is in. -/

namespace ReticulumProtocols.Lxst
open Wire Concurrency

/-- How far a thread has come as a timer. -/
inductive TimerStage where
  | armed | fired | waiting | through | other
  deriving DecidableEq

/-- A timer that has fired only loads until it knows that the call has neither ended nor become idle. -/
@[simps]
def timerRules : Typestate CallOp CallOp.Answer TimerStage where
  permits
    | .armed, .timer _ => True
    | .fired, .loadNumber .status | .fired, .load .incoming | .fired, .loadState | .waiting, .loadState => True
    | .other, op => op.footprint ≠ .timer ∧ op.footprint ≠ .wild
    | _, _ => False
  after
    | .armed, .timer _, fires => some (if fires then .fired else .through)
    | .fired, .loadNumber .status, status => some (if status < statusEstablished then .waiting else .through)
    | .fired, .loadState, state => some (if state = .connecting then .waiting else .through)
    | .waiting, .loadState, state => some (if state = .ended then .through else .other)
    | stage, _, _ => some stage

theorem timerRules_plain {op : CallOp} (untimed : op.footprint ∉ [Footprint.timer, .wild]) :
    timerRules.Plain .other op :=
  ⟨by simpa using untimed, fun _ _ after => (Option.some.inj after).symm⟩

def CallEntry.stage : CallEntry → TimerStage
  | timer _ => .armed
  | _ => .other

namespace CallProgram

theorem timed_of_uses {α : Type} {kinds : List Footprint} {program : CallProgram α} (uses : Uses kinds program)
    (other : .timer ∉ kinds ∧ .wild ∉ kinds) : timerRules.Follows program .other fun _ _ => True :=
  Typestate.follows_of_plain ((uses.avoids _ (by simpa using other)).mono fun _ => timerRules_plain) fun _ => trivial

theorem timed_expire (timer : SetupTimer) : timerRules.Follows (expire timer) .waiting fun _ _ => True := by
  have ends : timerRules.Follows (endCall timer.reason) .other fun _ _ => True :=
    timed_of_uses (uses_endCall timer.reason (List.mem_singleton_self _)) (by simp)
  simp only [expire, Program.once_bind, Typestate.follows_perform]
  refine ⟨trivial, fun state stage after => ?_⟩
  cases after
  by_cases ended : state = .ended
  · simp [ended]
  · simp [ended, ends]

/-- A timer that has fired goes on only while the status is low. -/
theorem timed_status (timer : SetupTimer) {bound : Int} (low : bound ≤ statusEstablished) :
    timerRules.Follows (once (.loadNumber .status) >>= fun status => if status < bound then expire timer else pure ())
      .fired fun _ _ => True := by
  simp only [Program.once_bind, Typestate.follows_perform]
  refine ⟨trivial, fun status stage after => ?_⟩
  cases after
  by_cases early : status < bound
  · simpa [early, lt_of_lt_of_le early low] using timed_expire timer
  · simp [early]

theorem timed_timeout (timer : SetupTimer) : timerRules.Follows (timeout timer) .armed fun _ _ => True := by
  cases timer with
  | dial => simpa [timeout, stillWaiting] using timed_status .dial le_rfl
  | ring => simpa [timeout, stillWaiting] using timed_status .ring le_rfl
  | connect =>
    have low : statusRinging ≤ statusEstablished := by decide
    simpa [timeout, stillWaiting] using timed_status .connect low
  | identify =>
    have expires := timed_expire .identify
    simp [timeout, stillWaiting, expires]

theorem timed_ofEntry (c : CallConfig) (entry : CallEntry) :
    timerRules.Follows (ofEntry c entry) entry.stage fun _ _ => True := by
  cases entry with
  | timer timer => exact timed_timeout timer
  | _ => exact timed_of_uses (uses_ofEntry c _) (by simp [CallEntry.kinds])

end CallProgram

/-- The status of an active call is not set back below `Established`, no timer fires before it gets there, and a setup
that fails does not take an active or ended call back to the idle state. -/
def Call.steady (call : Call) (input : Bool) : CallOp → Bool
  | .storeNumber .status value => call.state = .active → statusEstablished ≤ value
  | .timer _ => input → call.state = .active → statusEstablished ≤ call.numbers .status
  | .storeState .idle => call.state ≠ .active ∧ call.state ≠ .ended
  | _ => true

def Call.Steady (call : Call) (_ : Nat) (input : Bool) (op : CallOp) : Prop := call.steady input op = true

instance (call : Call) (i : Nat) (input : Bool) (op : CallOp) : Decidable (call.Steady i input op) :=
  inferInstanceAs (Decidable (_ = true))

def CallOp.nextStatus : CallOp → Int → Int
  | storeNumber .status value, _ => value
  | _, status => status

def CallOp.fires : CallOp → Bool → Bool
  | timer _, input => input
  | _, _ => false

namespace Call
variable {call : Call} {i j : Nat} {input : Bool} {op : CallOp} {stage : TimerStage}
variable {n : Nat}

theorem status_next : (call.next i input op).numbers .status = op.nextStatus (call.numbers .status) := by
  cases op with
  | storeNumber number value => cases number <;> simp [next, CallOp.nextStatus, Function.update_of_ne]
  | _ => simp only [next, CallOp.nextStatus] <;> first | rfl | (split <;> rfl)

theorem firedActive_next :
    (call.next i input op).firedActive =
      if op.fires input ∧ call.state = .active then i :: call.firedActive else call.firedActive := by
  cases op with
  | timer timer => by_cases active : call.state = .active <;> cases input <;> simp [next, CallOp.fires, active]
  | _ => simp [next, CallOp.fires, setState, clearPipelines]; try (split <;> rfl)

theorem Steady.kept (steady : call.Steady i input op) (resets : op = .storeState .idle) : call.state ≠ .ended := by
  subst resets
  exact (of_decide_eq_true steady).2

/-- An established call, or one that has ended. -/
def Settled (call : Call) : Prop :=
  call.state = .active ∧ statusEstablished ≤ call.numbers .status ∨ call.state = .ended

theorem settled_next (tame : op.footprint ≠ .wild) (steady : call.Steady i input op) (settled : call.Settled) :
    (call.next i input op).Settled := by
  rcases settled with ⟨active, established⟩ | ended
  · unfold Settled
    rw [state_next, status_next]
    cases op with
    | storeState state => cases state <;> simp_all [CallOp.nextState, Steady, Call.steady]
    | casState before after => cases before <;> cases after <;> simp_all [CallOp.nextState, CallOp.nextStatus]
    | storeNumber number value => cases number <;> simp_all [CallOp.nextState, CallOp.nextStatus, Steady, Call.steady]
    | _ => exact .inl ⟨active, established⟩
  · exact .inr (ended_next tame steady.kept ended)

/-- What the stage of a thread says: a timer that fired while the call was active has ended nothing, and goes on only
once the call has ended. -/
def AtStage (call : Call) (i : Nat) : TimerStage → Prop
  | .armed => i ∉ call.firedActive ∧ i ∉ call.endings
  | .fired => i ∉ call.endings ∧ (i ∈ call.firedActive → call.Settled)
  | .waiting => i ∉ call.endings ∧ (i ∈ call.firedActive → call.state = .ended)
  | .through => True
  | .other => i ∉ call.firedActive

/-- No timer that fired while the call was active has ended it; the threads are known. -/
def TimersSpare (call : Call) (n : Nat) : Prop :=
  (∀ i ∈ call.firedActive, i < n ∧ i ∉ call.endings) ∧ ∀ i ∈ call.endings, i < n

theorem tame_of_permits (permitted : timerRules.permits stage op) : op.footprint ≠ .wild := by
  cases stage with
  | other => exact permitted.2
  | armed | fired | waiting => cases op <;> simp_all
  | through => exact permitted.elim

theorem mem_firedActive_next (other : j ≠ i) : j ∈ (call.next i input op).firedActive ↔ j ∈ call.firedActive := by
  rw [firedActive_next]
  split <;> simp [other]

theorem mem_endings_next (other : j ≠ i) : j ∈ (call.next i input op).endings ↔ j ∈ call.endings := by
  rw [endings_next]
  split <;> simp [other]

theorem atStage_next {stage' : TimerStage} (permitted : timerRules.permits stage op) (steady : call.Steady i input op)
    (other : j ≠ i) (at_stage : call.AtStage j stage') : (call.next i input op).AtStage j stage' := by
  have tame := tame_of_permits permitted
  cases stage' <;> simp only [AtStage, mem_firedActive_next other, mem_endings_next other] at at_stage ⊢
  case fired => exact ⟨at_stage.1, fun fired => settled_next tame steady (at_stage.2 fired)⟩
  case waiting => exact ⟨at_stage.1, fun fired => ended_next tame steady.kept (at_stage.2 fired)⟩
  all_goals exact at_stage

/-- A timer that fires while the call is active finds it established. -/
theorem fires_next {timer : SetupTimer} (spare : call.TimersSpare n) (bound : i < n)
    (armed : call.AtStage i .armed) (steady : call.Steady i input (.timer timer)) :
    (call.next i input (.timer timer)).TimersSpare n ∧
      (call.next i input (.timer timer)).AtStage i (if input then .fired else .through) := by
  obtain ⟨unfired, unended⟩ := armed
  by_cases fires : input = true ∧ call.state = .active
  · obtain ⟨rfl, active⟩ := fires
    have established : statusEstablished ≤ call.numbers .status := by simpa [Steady, Call.steady, active] using steady
    have same : call.next i true (.timer timer) = { call with firedActive := i :: call.firedActive } := by
      simp [next, active]
    rw [same]
    refine ⟨⟨?_, spare.2⟩, unended, fun _ => .inl ⟨active, established⟩⟩
    simpa [bound, unended] using spare.1
  · have same : call.next i input (.timer timer) = call := if_neg fires
    rw [same]
    refine ⟨spare, ?_⟩
    cases input
    · trivial
    · exact ⟨unended, fun fired => absurd fired unfired⟩

theorem others_next (input : Bool) (spare : call.TimersSpare n) (bound : i < n) (unfired : i ∉ call.firedActive)
    (untimed : op.footprint ≠ .timer) :
    (call.next i input op).TimersSpare n ∧ i ∉ (call.next i input op).firedActive := by
  have silent : op.fires input = false := by
    cases op <;> simp_all [CallOp.fires]
  unfold TimersSpare
  rw [firedActive_next, endings_next, silent]
  simp only [Bool.false_eq_true, false_and, if_false]
  refine ⟨?_, unfired⟩
  split
  · refine ⟨fun j fired => ⟨(spare.1 j fired).1, ?_⟩, by simpa [bound] using spare.2⟩
    have different : j ≠ i := fun same => unfired (same ▸ fired)
    simpa [different] using (spare.1 j fired).2
  · exact spare

/-- A timer that fired while the call was active finds a low status only after the end. -/
theorem loads_next (input : Bool) (fired : call.AtStage i .fired) (loads : timerRules.permits .fired op) :
    call.next i input op = call ∧ ∃ stage', timerRules.after .fired op (call.reply input op) = some stage' ∧
      call.AtStage i stage' := by
  obtain ⟨unended, settled⟩ := fired
  cases op with
  | loadNumber number =>
    cases number with
    | status =>
      refine ⟨rfl, _, rfl, ?_⟩
      by_cases low : call.numbers .status < statusEstablished
      · simp only [reply, low, if_true]
        refine ⟨unended, fun fired => (settled fired).resolve_left fun established => ?_⟩
        omega
      · simp only [reply, low, if_false]
        trivial
    | profile | callMode => exact loads.elim
  | loadState =>
    refine ⟨rfl, _, rfl, ?_⟩
    by_cases connecting : call.state = .connecting
    · simp only [reply, connecting, if_true]
      refine ⟨unended, fun fired => ?_⟩
      have settled := settled fired
      simp [Settled, connecting] at settled
    · simp only [reply, connecting, if_false]
      trivial
  | load flag =>
    cases flag with
    | incoming => exact ⟨rfl, .fired, rfl, unended, settled⟩
    | _ => exact loads.elim
  | _ => exact loads.elim

theorem timersSpare_next (spare : call.TimersSpare n) (bound : i < n) (at_stage : call.AtStage i stage)
    (permitted : timerRules.permits stage op) (steady : call.Steady i input op) :
    (call.next i input op).TimersSpare n ∧ ∃ stage', timerRules.after stage op (call.reply input op) = some stage' ∧
      (call.next i input op).AtStage i stage' := by
  cases stage with
  | armed =>
    obtain ⟨timer, rfl⟩ : ∃ timer, op = .timer timer := by cases op <;> simp_all
    obtain ⟨spare', at_stage'⟩ := fires_next spare bound at_stage steady
    exact ⟨spare', _, rfl, at_stage'⟩
  | fired =>
    obtain ⟨same, goes⟩ := loads_next input at_stage permitted
    rw [same]
    exact ⟨spare, goes⟩
  | waiting =>
    obtain rfl : op = .loadState := by cases op <;> simp_all
    refine ⟨spare, _, rfl, ?_⟩
    by_cases ended : call.state = .ended
    · simp only [reply, ended, if_true]
      trivial
    · simp only [reply, ended, if_false]
      exact fun fired => ended (at_stage.2 fired)
  | through => exact permitted.elim
  | other =>
    obtain ⟨spare', unfired⟩ := others_next input spare bound at_stage permitted.1
    exact ⟨spare', .other, rfl, unfired⟩

theorem atStage_new (spare : call.TimersSpare n) (new : n ≤ i) (entry : CallEntry) :
    call.AtStage i entry.stage := by
  have unfired : i ∉ call.firedActive := fun fired => absurd (spare.1 i fired).1 (by omega)
  have unended : i ∉ call.endings := fun ended => absurd (spare.2 i ended) (by omega)
  cases entry with
  | timer timer => exact ⟨unfired, unended⟩
  | _ => exact unfired

/-- Timers spare the calls that are active when they fire. -/
def timerOutline (c : CallConfig) : Outline c.behaviour timerRules Call.Steady where
  ok := TimersSpare
  tie := AtStage
  initial := CallEntry.stage
  follows := CallProgram.timed_ofEntry c
  fresh spare :=
    ⟨fun i fired => ⟨(spare.1 i fired).1.trans_le (Nat.le_succ _), (spare.1 i fired).2⟩,
      fun i ended => (spare.2 i ended).trans_le (Nat.le_succ _)⟩
  opened spare _ := atStage_new spare le_rfl _
  own spare bound at_stage permitted steady performed := by
    obtain ⟨rfl, rfl, -⟩ := perform_eq_some performed
    obtain ⟨spare', goes⟩ := timersSpare_next spare bound at_stage permitted steady
    exact ⟨spare', goes, fun entry _ k new => atStage_new spare' new entry⟩
  others _ _ _ permitted steady performed _ _ other at_stage := by
    obtain ⟨rfl, -, -⟩ := perform_eq_some performed
    exact atStage_next permitted steady other at_stage

/-- Calls whose packets are lists of signals, one a byte. -/
def signalCall : CallConfig := { unpack := fun data => some { signals := data.map fun b => (b.toNat : Int) } }

def established : List (Activity CallEntry Bool) :=
  .start (.dial true) :: turns 0 10 ++ .start (.packet [6]) :: turns 2 24

end Call
end ReticulumProtocols.Lxst
