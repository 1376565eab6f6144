import ReticulumProtocols.Lxst.SetupTimers

/-! The pipelines of an active call. `openPipelines` marks them as opened before it makes the codecs and the device,
and the signal that makes an outgoing call active does not wait for its success. -/

namespace ReticulumProtocols.Lxst
open Wire Concurrency

/-- What a thread knows of the pipelines: nothing, that it has ended the call and not yet cleared them, or that they
are open unless the call has ended. -/
inductive MediaMode where
  | unknown | owes | ready
  deriving DecidableEq

@[simps]
def mediaRules : Typestate CallOp CallOp.Answer MediaMode where
  permits mode op :=
    op.footprint ≠ .wild ∧ (op.footprint = .activate → mode = .ready) ∧ (op = .clearPipelines → mode = .owes)
  after
    | mode, .casState _ .ended, moved => some (if moved then .owes else mode)
    | _, .storeState .ended, _ => some .owes
    | _, .onEnded _, _ => some .unknown
    | _, .beginOpen, found => some (if found = .begun then .unknown else .ready)
    | _, .finishOpen, _ => some .ready
    | mode, .create .established _, made => if made then some mode else none
    | mode, _, _ => some mode

theorem mediaRules_plain {mode : MediaMode} {op : CallOp}
    (other : op.footprint ∉ [Footprint.wild, .ending, .activate, .pipelines]) : mediaRules.Plain mode op := by
  simp only [List.mem_cons, List.not_mem_nil, or_false, not_or] at other
  refine ⟨⟨other.1, fun activates => absurd activates other.2.2.1, ?_⟩, fun answer mode' after => ?_⟩
  · rintro rfl
    exact absurd rfl other.2.1
  · cases op with
    | casState before state => cases before <;> cases state <;> simp_all
    | storeState state => cases state <;> simp_all
    | create purpose part => cases purpose <;> simp_all
    | _ => simp_all

namespace CallProgram
variable {α β : Type}
variable {program : CallProgram α}

/-- The kinds of operations that are of no concern to the pipelines. -/
abbrev indifferent : List Footprint := [.start, .reset, .timer, .media, .answer, .enroll, .fork]

/-- A thread that has settled what it ended stays so. -/
abbrev Tidy (program : CallProgram α) : Prop :=
  ∀ mode, mode ≠ .owes → mediaRules.Follows program mode fun mode' _ => mode' ≠ .owes

theorem Tidy.bind {f : α → CallProgram β} (tidy : Tidy program)
    (rest : ∀ result, Tidy (f result)) : Tidy (program >>= f) :=
  fun mode settled => Typestate.follows_bind ((tidy mode settled).mono fun mode' result => rest result mode')

theorem plain_of_uses {mode : MediaMode} (uses : Uses indifferent program) :
    program.All (mediaRules.Plain mode) := (uses.avoids _ (by decide)).mono fun _ => mediaRules_plain

theorem tidy_of_uses (uses : Uses indifferent program) : Tidy program :=
  fun _ settled => Typestate.follows_of_plain (plain_of_uses uses) fun _ => settled

theorem tidy_endCall (reason : String) : Tidy (endCall reason) := by
  intro mode settled
  simp [endCall, release, settled]

theorem tidy_sequential : Sequential indifferent Tidy where
  bind := Tidy.bind
  uses := tidy_of_uses
  endCall := tidy_endCall

theorem follows_sendSignals_bind {signals : List Int} {f : Except CallError Unit → CallProgram β} {mode : MediaMode}
    {wanted : MediaMode → β → Prop} (rest : ∀ result, mediaRules.Follows (f result) mode wanted) :
    mediaRules.Follows (sendSignals signals >>= f) mode wanted :=
  Typestate.follows_bind_of_plain (plain_of_uses (uses_sendSignals signals)) rest

/-- Pipelines that were opened are open, and those for `signalEstablished` are open when it goes on. -/
theorem opens (purpose : Purpose) (mode : MediaMode) :
    mediaRules.Follows (openPipelines purpose) mode fun mode' result =>
      mode' ≠ .owes ∧ (result = .ok () ∨ purpose = .established → mode' = .ready) := by
  simp only [openPipelines, Program.once_bind, Typestate.follows_perform]
  refine ⟨by simp, fun found mode' after => ?_⟩
  cases after
  cases found <;> cases purpose <;> simp [createParts, follows_sendSignals_bind]

theorem tidy_signalEstablished : Tidy signalEstablished := by
  have starts (became : Bool) : Tidy (startMedia became) := tidy_of_uses (uses_startMedia became)
  have becomes : mediaRules.Follows (once (.casState .ringing .active) >>= fun became =>
      if became then startMedia true else once (.casState .connecting .active) >>= startMedia) .ready
      fun mode' _ => mode' ≠ .owes := by
    have starts (became : Bool) := starts became .ready (by decide)
    simp [starts]
  intro mode settled
  have outgoing : mediaRules.Follows (openPipelines .established >>= fun _ =>
      once (.casState .ringing .active) >>= fun became =>
        if became then startMedia true else once (.casState .connecting .active) >>= startMedia) mode
      fun mode' _ => mode' ≠ .owes := by
    refine Typestate.follows_bind ((opens .established mode).mono fun mode' _ opened => ?_)
    rw [opened.2 (.inr rfl)]
    exact becomes
  simpa [signalEstablished, settled] using outgoing

theorem tidy_acceptCall : Tidy acceptCall := by
  have becomes : mediaRules.Follows (once (.casState .ringing .active) >>= fun became =>
      if became then establishAnswer
      else endCall "answer raced hangup" >>= fun _ => pure (.error .answerRaced)) .ready
      fun mode' _ => mode' ≠ .owes := by
    have establishes := tidy_sequential.establishAnswer .ready (by decide)
    have races : Tidy (endCall "answer raced hangup" >>= fun _ => pure (Except.error (ε := CallError) (α := Unit)
        .answerRaced)) := tidy_sequential.endCall_bind (tidy_sequential.result _)
    simp [establishes, races .ready (by decide)]
  refine tidy_sequential.bindResult (tidy_of_uses (uses_sendSignals _)) (fun _ => tidy_sequential.result _)
    fun mode settled => ?_
  refine Typestate.follows_bind ((opens .answer mode).mono fun mode' result opened => ?_)
  cases result with
  | error error => exact opened.1
  | ok value =>
    rw [opened.2 (.inl rfl)]
    exact becomes

theorem tidy_closed : Closed indifferent Tidy where
  toSequential := tidy_sequential
  openPipelines purpose := fun mode _ => (opens purpose mode).mono fun _ _ => And.left
  signalEstablished := tidy_signalEstablished
  acceptCall := tidy_acceptCall

theorem tidy_ofEntry (c : CallConfig) (entry : CallEntry) : Tidy (ofEntry c entry) :=
  tidy_closed.ofEntry c entry (by decide) fun _ => by decide

end CallProgram

namespace Call

def Ready (call : Call) : Prop := call.encoder = true ∧ call.decoder = true ∧ call.device = true

instance (call : Call) : Decidable call.Ready := inferInstanceAs (Decidable (_ ∧ _ ∧ _))

/-- `openPipelines` is not entered while another is under way, what it makes for `signalEstablished` can be made, and a
setup that fails does not take an ended call back to the idle state. -/
def mediaSound (call : Call) (input : Bool) : CallOp → Bool
  | .beginOpen => call.opened → call.Ready ∨ call.state = .ended
  | .create .established _ => input
  | .storeState .idle => call.state ≠ .ended
  | _ => true

def MediaSound (call : Call) (_ : Nat) (input : Bool) (op : CallOp) : Prop := call.mediaSound input op = true

instance (call : Call) (i : Nat) (input : Bool) (op : CallOp) : Decidable (call.MediaSound i input op) :=
  inferInstanceAs (Decidable (_ = true))

def AtMode (call : Call) (_ : Nat) : MediaMode → Prop
  | .unknown => True
  | .owes => call.state = .ended
  | .ready => call.Ready ∨ call.state = .ended

variable {call : Call} {i j : Nat} {input : Bool} {op : CallOp} {mode : MediaMode}

theorem MediaSound.kept (sound : call.MediaSound i input op) (resets : op = .storeState .idle) :
    call.state ≠ .ended := by
  subst resets
  exact of_decide_eq_true sound

theorem ready_next (ready : call.Ready) (kept : op ≠ .clearPipelines) : (call.next i input op).Ready := by
  cases op <;> simp_all [next, Ready, setState] <;> split <;> simp_all

theorem atMode_next {mode' : MediaMode} (at_mode : call.AtMode i mode) (permitted : mediaRules.permits mode op)
    (sound : call.MediaSound i input op) (known : call.AtMode j mode') : (call.next i input op).AtMode j mode' := by
  obtain ⟨tame, -, clears⟩ := permitted
  cases mode' with
  | unknown => trivial
  | owes => exact ended_next tame sound.kept known
  | ready =>
    rcases known with ready | ended
    · by_cases cleared : op = .clearPipelines
      · rw [clears cleared] at at_mode
        exact .inr (ended_next tame sound.kept at_mode)
      · exact .inl (ready_next ready cleared)
    · exact .inr (ended_next tame sound.kept ended)

theorem atMode_after (at_mode : call.AtMode i mode) (permitted : mediaRules.permits mode op)
    (sound : call.MediaSound i input op) :
    ∃ mode', mediaRules.after mode op (call.reply input op) = some mode' ∧
      (call.next i input op).AtMode i mode' := by
  have same := atMode_next at_mode permitted sound at_mode
  cases op with
  | casState before after =>
    by_cases ends : after = .ended
    · subst ends
      refine ⟨_, rfl, ?_⟩
      by_cases here : call.state = before
      · simp [reply, here, AtMode, state_next, CallOp.nextState]
      · simpa [reply, here] using same
    · exact ⟨mode, by cases after <;> first | rfl | exact absurd rfl ends, same⟩
  | storeState state =>
    by_cases ends : state = .ended
    · subst ends
      exact ⟨.owes, rfl, rfl⟩
    · exact ⟨mode, by cases state <;> first | rfl | exact absurd rfl ends, same⟩
  | onEnded reason => exact ⟨.unknown, rfl, trivial⟩
  | beginOpen =>
    refine ⟨_, rfl, ?_⟩
    by_cases begun : call.foundOpen = .begun
    · simp [reply, begun, AtMode]
    · have known : call.Ready ∨ call.state = .ended := by
        by_cases opened : call.opened = true
        · exact of_decide_eq_true sound opened
        · exact .inr (by simpa [foundOpen, opened] using begun)
      simpa [reply, begun, next, AtMode] using known
  | finishOpen =>
    refine ⟨.ready, rfl, ?_⟩
    by_cases ended : call.state = .ended <;> simp [next, AtMode, Ready, ended]
  | create purpose part =>
    by_cases established : purpose = .established
    · subst established
      have made : input = true := sound
      exact ⟨mode, by simp [reply, made], same⟩
    · exact ⟨mode, by cases purpose <;> first | rfl | exact absurd rfl established, same⟩
  | _ => exact ⟨mode, rfl, same⟩

theorem active_before (tame : op.footprint ≠ .wild) (other : op.footprint ≠ .activate)
    (becomes : op.nextState call.state = .active) : call.state = .active := by
  cases op with
  | casState before after =>
    by_cases here : call.state = before
    · cases before <;> cases after <;> simp_all [CallOp.nextState]
    · simpa [CallOp.nextState, here] using becomes
  | storeState state => cases state <;> simp_all [CallOp.nextState]
  | _ => exact becomes

theorem active_next (active : call.state = .active → call.Ready) (at_mode : call.AtMode i mode)
    (permitted : mediaRules.permits mode op) (becomes : (call.next i input op).state = .active) :
    (call.next i input op).Ready := by
  obtain ⟨tame, activates, clears⟩ := permitted
  rw [state_next] at becomes
  have kept : op ≠ .clearPipelines := by
    rintro rfl
    rw [clears rfl] at at_mode
    simp [CallOp.nextState, show call.state = .ended from at_mode] at becomes
  refine ready_next ?_ kept
  by_cases activate : op.footprint = .activate
  · rw [activates activate] at at_mode
    refine at_mode.resolve_right fun ended => ?_
    cases op with
    | casState before after => cases before <;> cases after <;> simp_all [CallOp.nextState]
    | storeState state => cases state <;> simp_all
    | create purpose part => cases purpose <;> simp_all
    | store flag value => cases flag <;> simp_all
    | go entry => cases entry <;> simp_all
    | _ => simp_all
  · exact active (active_before tame activate becomes)

/-- The pipelines of an active call, as long as they can be made. -/
def mediaOutline (c : CallConfig) : Outline c.behaviour mediaRules Call.MediaSound where
  ok call _ := call.state = .active → call.Ready
  tie := AtMode
  initial _ := .unknown
  follows entry := (CallProgram.tidy_ofEntry c entry .unknown (by decide)).mono fun _ _ _ => trivial
  fresh active := active
  opened _ _ := trivial
  own active _ at_mode permitted sound performed := by
    obtain ⟨rfl, rfl, -⟩ := perform_eq_some performed
    exact ⟨active_next active at_mode permitted, atMode_after at_mode permitted sound, fun _ _ _ _ => trivial⟩
  others _ _ at_mode permitted sound performed _ _ _ known := by
    obtain ⟨rfl, -, -⟩ := perform_eq_some performed
    exact atMode_next at_mode permitted sound known

theorem active_ready (c : CallConfig) (activities : List (Activity CallEntry Bool))
    (sound : Along c.behaviour.step (Behaviour.Meets Call.MediaSound) { shared := c.newCall } activities)
    (s : CallThreads) (ran : runEvents c.behaviour.step { shared := c.newCall } activities = some s)
    (active : s.shared.state = .active) :
    s.shared.encoder = true ∧ s.shared.decoder = true ∧ s.shared.device = true := by
  have start : (mediaOutline c).ok c.newCall 0 := fun active => by cases active
  exact Outline.ok_of_run start sound ran active

theorem active_ready_established :
    Along signalCall.behaviour.step (Behaviour.Meets Call.MediaSound) { shared := signalCall.newCall } established ∧
      ∃ s, runEvents signalCall.behaviour.step { shared := signalCall.newCall } established = some s ∧
        s.shared.state = .active ∧ s.shared.encoder = true ∧ s.shared.decoder = true ∧ s.shared.device = true := by
  have sound : Along signalCall.behaviour.step (Behaviour.Meets Call.MediaSound) { shared := signalCall.newCall }
      established := by decide +kernel
  have reached : (runEvents signalCall.behaviour.step { shared := signalCall.newCall } established).any
      (fun s => decide (s.shared.state = .active)) = true := by decide +kernel
  obtain ⟨s, ran, found⟩ := (Option.any_eq_true _ _).1 reached
  have active := of_decide_eq_true found
  exact ⟨sound, s, ran, active, active_ready signalCall established sound s ran active⟩

/-- The other side establishes an outgoing call whose encoder cannot be made. -/
def establishedWithoutEncoder : List (Activity CallEntry Bool) :=
  .start (.dial true) :: turns 0 10 ++ .start (.packet [6]) :: turns 2 4 ++ .run 2 false :: turns 2 3

/-- A call is answered twice at once: the second `Answer` does not wait for the codecs of the first. -/
def answeredTwice : List (Activity CallEntry Bool) :=
  .start .serveIncoming :: turns 0 14 ++ .start .identified :: turns 3 4 ++ .start .answer :: turns 4 10 ++
    .start .answer :: turns 5 11

theorem active_without_pipelines :
    (∃ s, runEvents signalCall.behaviour.step { shared := signalCall.newCall } establishedWithoutEncoder = some s ∧
      s.shared.state = .active ∧ s.shared.encoder = false ∧ s.shared.device = false) ∧
    ∃ s, runEvents signalCall.behaviour.step { shared := signalCall.newCall } answeredTwice = some s ∧
      s.shared.state = .active ∧ s.shared.encoder = false ∧ s.shared.device = false := by
  have unmade : (runEvents signalCall.behaviour.step { shared := signalCall.newCall } establishedWithoutEncoder).any
      (fun s => decide (s.shared.state = .active ∧ s.shared.encoder = false ∧ s.shared.device = false)) = true := by
    decide +kernel
  have twice : (runEvents signalCall.behaviour.step { shared := signalCall.newCall } answeredTwice).any
      (fun s => decide (s.shared.state = .active ∧ s.shared.encoder = false ∧ s.shared.device = false)) = true := by
    decide +kernel
  simp only [Option.any_eq_true, decide_eq_true_eq] at unmade twice
  exact ⟨unmade, twice⟩

end Call
end ReticulumProtocols.Lxst
