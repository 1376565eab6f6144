import ReticulumProtocols.Lxst.Pipelines

/-! Who answers an incoming call. Whatever the other side sends, `handleSignal` and `handleFrame` of an incoming call
look at the flag that only `Answer` sets. -/

namespace ReticulumProtocols.Lxst
open Wire Concurrency

/-- What a thread knows of an incoming call: nothing, that it is incoming, that `Answer` was called, or that the flag is
set. Threads in the mode `outgoing` belong to calls that were dialled. -/
inductive AnswerMode where
  | unknown | served | called | answered | outgoing
  deriving DecidableEq

/-- What a thread of an incoming call may do. -/
@[simp]
def AnswerMode.Allows (mode : AnswerMode) (op : CallOp) : Prop :=
  op.footprint ≠ .wild ∧ (op.footprint = .activate ∨ op.footprint = .media → mode = .answered) ∧
    op ≠ .store .incoming false ∧ op ≠ .store .answered false ∧ (op = .store .answered true → mode = .called) ∧
    ∀ callback, op = .register callback → mode = .served ∧ callback ≠ .established

@[simps]
def answerRules : Typestate CallOp CallOp.Answer AnswerMode where
  permits mode op := mode = .outgoing ∨ mode.Allows op
  after
    | .outgoing, _, _ => some .outgoing
    | _, .enterAnswer, _ => some .called
    | _, .store .answered _, _ => some .answered
    | _, .store .incoming _, _ => some .served
    | .served, .load .incoming, incoming => if incoming then some .served else none
    | .served, .load .answered, answered => some (if answered then .answered else .served)
    | mode, _, _ => some mode

theorem answerRules_unknown {op : CallOp}
    (other : op.footprint ∉ [Footprint.wild, .activate, .media, .answer, .enroll]) : answerRules.Plain .unknown op := by
  cases op with
  | store flag value => cases flag <;> simp_all [Typestate.Plain]
  | _ => simp_all [Typestate.Plain]

theorem answerRules_answered {op : CallOp} (other : op.footprint ∉ [Footprint.wild, .answer, .enroll]) :
    answerRules.Plain .answered op := by
  cases op with
  | store flag value => cases flag <;> simp_all [Typestate.Plain]
  | _ => simp_all [Typestate.Plain]

/-- The thread knows that the call is incoming. -/
abbrev AnswerMode.Incoming (mode : AnswerMode) : Prop := mode = .served ∨ mode = .answered

theorem answerRules_incoming {op : CallOp} (mild : op.footprint = .mild) : answerRules.Keeps AnswerMode.Incoming op := by
  rintro mode (rfl | rfl)
  · cases op with
    | load flag => cases flag <;> simp [AnswerMode.Incoming]
    | store flag value => cases flag <;> simp_all [AnswerMode.Incoming]
    | _ => simp_all [AnswerMode.Incoming]
  · have plain : answerRules.Plain .answered op := answerRules_answered (by rw [mild]; decide)
    exact ⟨plain.1, fun answer mode' after => .inr (plain.2 answer mode' after)⟩

theorem answerRules_outgoing (op : CallOp) : answerRules.Plain .outgoing op :=
  ⟨.inl rfl, fun _ _ after => (Option.some.inj after).symm⟩

namespace CallProgram
variable {α β : Type} {kinds : List Footprint} (c : CallConfig)
variable {program : CallProgram α}

abbrev Guarded (program : CallProgram α) (mode : AnswerMode) : Prop := answerRules.Follows program mode fun _ _ => True

theorem guarded_of_uses (uses : Uses kinds program)
    (other : .wild ∉ kinds ∧ .activate ∉ kinds ∧ .media ∉ kinds ∧ .answer ∉ kinds ∧ .enroll ∉ kinds) :
    Guarded program .unknown :=
  Typestate.follows_of_plain ((uses.avoids _ (by simpa using other)).mono fun _ => answerRules_unknown) fun _ => trivial

theorem follows_answered (uses : Uses kinds program)
    (other : .wild ∉ kinds ∧ .answer ∉ kinds ∧ .enroll ∉ kinds) :
    answerRules.Follows program .answered fun mode _ => mode = .answered :=
  Typestate.follows_of_plain ((uses.avoids _ (by simpa using other)).mono fun _ => answerRules_answered) fun _ => rfl

theorem follows_of_mild {mode : AnswerMode} (uses : Uses [] program)
    (incoming : mode.Incoming) : answerRules.Follows program mode fun mode _ => mode.Incoming := by
  refine Typestate.follows_of_keeps (Program.All.mono (fun op listed => answerRules_incoming ?_) uses) incoming
  simpa using listed

theorem guarded_outgoing (program : CallProgram α) : Guarded program .outgoing :=
  Typestate.follows_of_plain (Program.all_of_forall answerRules_outgoing program) fun _ => trivial

/-- What the other side sends to an incoming call. -/
abbrev Shielded (program : CallProgram α) : Prop :=
  Uses remoteKinds program ∧ answerRules.Follows program .served fun mode _ => mode.Incoming

theorem shielded_of_mild (uses : Uses [] program) : Shielded program :=
  ⟨uses.mono (List.nil_subset _), follows_of_mild uses (.inl rfl)⟩

theorem Shielded.bind {f : α → CallProgram β} (shielded : Shielded program)
    (rest : ∀ result, Shielded (f result)) : Shielded (program >>= f) := by
  refine ⟨shielded.1.bind fun result => (rest result).1, ?_⟩
  refine Typestate.follows_bind (shielded.2.mono fun mode result known => ?_)
  rcases known with rfl | rfl
  · exact (rest result).2
  · exact (follows_answered (rest result).1 (by simp)).mono fun _ _ => Or.inr

theorem shielded_pure (result : α) : Shielded (pure result : CallProgram α) := ⟨trivial, .inl rfl⟩

/-- The signals that an unanswered call follows set its preferences. -/
theorem followSignal_preferred {signal : Int} (preferred : preferredMode ≤ signal) :
    followSignal c signal =
      if isPreferredProfile signal then applyPreferredProfile signal
      else if isPreferredMode signal then applyPreferredMode signal
      else pure () := by
  have apart (status : Int) (low : status < preferredMode) : signal ≠ status := by omega
  simp only [followSignal, apart statusBusy (by decide), apart statusRejected (by decide),
    apart statusAvailable (by decide), apart statusRinging (by decide), apart statusConnecting (by decide),
    apart statusEstablished (by decide), if_false]

/-- The test that `handleSignal` and `handleFrame` begin with. -/
theorem shielded_test {yes no : CallProgram α} (uses : Uses remoteKinds yes) (shielded : Shielded no) :
    Shielded (once (.load .incoming) >>= fun incoming =>
      if incoming then once (.load .answered) >>= fun answered => if answered then yes else no else yes) := by
  have answered : answerRules.Follows yes .answered fun mode _ => mode.Incoming :=
    (follows_answered uses (by simp)).mono fun _ _ => Or.inr
  refine ⟨by simp [uses, shielded.1], ?_⟩
  simp [answered, shielded.2]

theorem shielded_handleSignal (signal : Int) : Shielded (handleSignal c signal) := by
  refine shielded_test (uses_followSignal c signal) ?_
  split
  · exact shielded_pure ()
  · next preferred =>
    rw [followSignal_preferred c (not_lt.1 preferred)]
    split
    · exact shielded_of_mild (uses_applyPreferredProfile signal)
    · split
      · exact shielded_of_mild (uses_applyPreferredMode signal)
      · exact shielded_pure ()

theorem shielded_handleEach (signals : List Int) : Shielded (handleEach c signals) := by
  induction signals with
  | nil => exact shielded_pure ()
  | cons signal signals ih => exact (shielded_handleSignal c signal).bind fun _ => ih

theorem shielded_handleSignals (signals : List Int) : Shielded (handleSignals c signals) := by
  have locks : Shielded (once .lockSignals) := shielded_of_mild (by simp)
  have unlocks : Shielded (once .unlockSignals) := shielded_of_mild (by simp)
  exact locks.bind fun _ => (shielded_handleEach c signals).bind fun _ => unlocks

theorem shielded_handleFrames (frames : List Bytes) : Shielded (handleFrames frames) := by
  induction frames with
  | nil => exact shielded_pure ()
  | cons frame frames ih =>
    have takes := (uses_takeFrame frame).mono (show _ ⊆ remoteKinds by simp)
    exact (shielded_test takes (shielded_pure ())).bind fun _ => ih

theorem shielded_onPacket (data : Bytes) : Shielded (onPacket c data) := by
  unfold onPacket
  split
  · exact shielded_pure ()
  · split
    · exact shielded_pure ()
    · split
      · exact shielded_handleFrames _
      · exact (shielded_handleSignals c _).bind fun _ => shielded_handleFrames _

theorem guarded_answer : Guarded answer .unknown := by
  have accepts : Guarded acceptCall .answered :=
    (follows_answered uses_acceptCall (by simp)).mono fun _ _ _ => trivial
  simp [answer, accepts]

theorem guarded_serveIncoming : Guarded (serveIncoming c) .unknown := by
  simp only [serveIncoming, Program.once_bind, Typestate.follows_perform]
  refine ⟨by simp, fun moved mode after => ?_⟩
  cases after
  simp only [Typestate.follows_ite]
  refine ⟨fun _ => ?_, fun _ => trivial⟩
  simp [armTimeout]
  refine Typestate.follows_bind ((follows_of_mild (uses_sendSignals _) (.inl rfl)).mono fun mode result known => ?_)
  rcases known with rfl | rfl <;> cases result <;> simp

end CallProgram

def CallEntry.answerMode : CallEntry → AnswerMode
  | dial _ | established => .outgoing
  | packet _ => .served
  | _ => .unknown

theorem CallProgram.guarded_ofEntry (c : CallConfig) (entry : CallEntry) : Guarded (ofEntry c entry) entry.answerMode := by
  cases entry with
  | dial remote => exact guarded_outgoing _
  | established => exact guarded_outgoing _
  | packet data => exact (shielded_onPacket c data).2.mono fun _ _ _ => trivial
  | serveIncoming => exact Typestate.follows_bind ((guarded_serveIncoming c).mono fun _ _ _ => trivial)
  | answer => exact Typestate.follows_bind (guarded_answer.mono fun _ _ _ => trivial)
  | autoAnswer =>
    have forgets : Guarded (answer >>= fun _ => pure ()) .unknown :=
      Typestate.follows_bind (guarded_answer.mono fun _ _ _ => trivial)
    simpa [ofEntry, autoAnswer, CallEntry.answerMode] using forgets
  | _ => exact guarded_of_uses (uses_ofEntry c _) (by simp [CallEntry.kinds])

/-- The call as its owner runs one that came in: it is served and not dialled. -/
def CallConfig.incoming (c : CallConfig) : Behaviour Call CallOp CallOp.Answer CallEntry Bool where
  opens call
    | .dial _ => false
    | entry => call.opens entry
  program := CallProgram.ofEntry c
  perform := Call.perform

def CallOp.nextFlag : CallOp → Flag → Bool → Bool
  | store stored value, flag, old => if stored = flag then value else old
  | claimIdentified, flag, old => old || flag = .identified
  | _, _, old => old

namespace Call
variable {call : Call} {i j : Nat} {input : Bool} {op : CallOp} {mode : AnswerMode}

theorem flags_next {flag : Flag} : (call.next i input op).flags flag = op.nextFlag flag (call.flags flag) := by
  cases op with
  | store stored value =>
    by_cases same : stored = flag
    · simp [next, CallOp.nextFlag, same]
    · simp [next, CallOp.nextFlag, same, Function.update_of_ne (Ne.symm same)]
  | claimIdentified => cases flag <;> simp [next, CallOp.nextFlag, Function.update_of_ne]
  | _ => simp only [next, CallOp.nextFlag] <;> first | rfl | (split <;> rfl)

theorem jitter_next (other : op.footprint ≠ .media) : (call.next i input op).jitter = call.jitter := by
  cases op with
  | pushFrame seq frame => exact absurd rfl other
  | _ => simp only [next, setState, clearPipelines] <;> first | rfl | (split <;> rfl)

theorem answerCalls_next : call.answerCalls ≤ (call.next i input op).answerCalls := by
  cases op <;> simp only [next, setState, clearPipelines] <;> first | omega | (split <;> simp)

theorem registered_next (other : ∀ callback, op ≠ .register callback) :
    (call.next i input op).registered = call.registered := by
  cases op with
  | register callback => exact absurd rfl (other callback)
  | _ => simp only [next, setState, clearPipelines] <;> first | rfl | (split <;> rfl)

def AnswerKnown (call : Call) (_ : Nat) : AnswerMode → Prop
  | .unknown => True
  | .served => call.flags .incoming = true
  | .called => 0 < call.answerCalls
  | .answered => call.flags .answered = true
  | .outgoing => False

/-- A call without an answer is not active and has no media; its callbacks are set only once it is incoming. -/
structure AnswerSound (call : Call) (_ : Nat) : Prop where
  answered : call.flags .answered = true → 0 < call.answerCalls
  quiet : call.flags .answered = false → call.state ≠ .active ∧ call.jitter = []
  incoming : call.registered .packet = true → call.flags .incoming = true
  undialled : call.registered .established = false

theorem flag_stays {flag : Flag} (kept : op ≠ .store flag false) (set : call.flags flag = true) :
    (call.next i input op).flags flag = true := by
  rw [flags_next, set]
  cases op with
  | store stored value =>
    by_cases same : stored = flag
    · subst same
      cases value <;> simp_all [CallOp.nextFlag]
    · simp [CallOp.nextFlag, same]
  | _ => simp [CallOp.nextFlag]

theorem answered_before (other : op ≠ .store .answered true) (set : (call.next i input op).flags .answered = true) :
    call.flags .answered = true := by
  rw [flags_next] at set
  cases op with
  | store stored value =>
    by_cases same : stored = .answered
    · subst same
      cases value <;> simp_all [CallOp.nextFlag]
    · simpa [CallOp.nextFlag, same] using set
  | claimIdentified => simpa [CallOp.nextFlag] using set
  | _ => exact set

theorem allows_of_known (known : call.AnswerKnown i mode) (permitted : answerRules.permits mode op) : mode.Allows op :=
  permitted.resolve_left fun outgoing => by rwa [outgoing] at known

theorem known_next {mode' : AnswerMode} (allows : mode.Allows op) (known : call.AnswerKnown j mode') :
    (call.next i input op).AnswerKnown j mode' := by
  cases mode' with
  | unknown => trivial
  | served => exact flag_stays allows.2.2.1 known
  | called => exact lt_of_lt_of_le known answerCalls_next
  | answered => exact flag_stays allows.2.2.2.1 known
  | outgoing => exact known

theorem known_after (allows : mode.Allows op) (known : call.AnswerKnown i mode) :
    ∃ mode', answerRules.after mode op (call.reply input op) = some mode' ∧
      (call.next i input op).AnswerKnown i mode' := by
  have same : (call.next i input op).AnswerKnown i mode := known_next allows known
  cases op with
  | enterAnswer => exact ⟨.called, by cases mode <;> first | rfl | exact known.elim, Nat.succ_pos _⟩
  | store flag value =>
    cases flag with
    | answered =>
      have set : value = true := by simpa using allows.2.2.2.1
      exact ⟨.answered, by cases mode <;> first | rfl | exact known.elim, by simp [AnswerKnown, next, set]⟩
    | incoming =>
      have set : value = true := by simpa using allows.2.2.1
      exact ⟨.served, by cases mode <;> first | rfl | exact known.elim, by simp [AnswerKnown, next, set]⟩
    | _ => exact ⟨mode, by cases mode <;> rfl, same⟩
  | load flag =>
    cases mode with
    | served =>
      cases flag with
      | incoming => exact ⟨.served, by simp [reply, show call.flags .incoming = true from known], same⟩
      | answered =>
        refine ⟨_, rfl, ?_⟩
        by_cases answered : call.flags .answered = true
        · simp [reply, answered, AnswerKnown, next]
        · simpa [reply, answered] using same
      | _ => exact ⟨.served, rfl, same⟩
    | _ => exact ⟨_, rfl, same⟩
  | _ => exact ⟨mode, by cases mode <;> rfl, same⟩

theorem AnswerSound.next {n : Nat} (sound : call.AnswerSound n) (allows : mode.Allows op)
    (known : call.AnswerKnown i mode) : (call.next i input op).AnswerSound n := by
  obtain ⟨tame, needs, stays_incoming, stays_answered, answers, enrolls⟩ := allows
  refine ⟨fun answered => ?_, fun unanswered => ?_, fun registered => ?_, ?_⟩
  · by_cases sets : op = .store .answered true
    · rw [answers sets] at known
      exact lt_of_lt_of_le known answerCalls_next
    · exact lt_of_lt_of_le (sound.answered (answered_before sets answered)) answerCalls_next
  · have before : call.flags .answered = false :=
      Bool.eq_false_iff.2 fun answered => by simp [flag_stays stays_answered answered] at unanswered
    have other : ¬(op.footprint = .activate ∨ op.footprint = .media) := fun acts => by
      rw [needs acts] at known
      exact Bool.false_ne_true (before.symm.trans known)
    obtain ⟨inactive, empty⟩ := sound.quiet before
    rw [not_or] at other
    refine ⟨fun active => ?_, (jitter_next other.2).trans empty⟩
    rw [state_next] at active
    exact inactive (active_before tame other.1 active)
  · by_cases enrolling : ∃ callback, op = .register callback
    · obtain ⟨callback, rfl⟩ := enrolling
      rw [(enrolls callback rfl).1] at known
      exact flag_stays stays_incoming known
    · rw [registered_next (not_exists.1 enrolling)] at registered
      exact flag_stays stays_incoming (sound.incoming registered)
  · by_cases enrolling : ∃ callback, op = .register callback
    · obtain ⟨callback, rfl⟩ := enrolling
      have other := (enrolls callback rfl).2
      exact (Function.update_of_ne (Ne.symm other) _ _).trans sound.undialled
    · rw [registered_next (not_exists.1 enrolling)]
      exact sound.undialled

/-- What the code of a call starts knows nothing of it. -/
theorem unknown_of_forks {entry : CallEntry} (tame : op.footprint ≠ .wild) (forked : entry ∈ op.forks) :
    entry.answerMode = .unknown := by
  cases op with
  | go started =>
    cases List.mem_singleton.1 forked
    cases entry <;> first | rfl | exact absurd rfl tame
  | _ => simp [CallOp.forks] at forked

/-- The flag in every run of an incoming call. -/
def answerOutline (c : CallConfig) : Outline c.incoming answerRules fun _ _ _ _ => True where
  ok := AnswerSound
  tie := AnswerKnown
  initial := CallEntry.answerMode
  follows := CallProgram.guarded_ofEntry c
  fresh sound := ⟨sound.answered, sound.quiet, sound.incoming, sound.undialled⟩
  opened {call _ entry} sound opens := by
    cases entry with
    | dial remote => cases opens
    | established => exact absurd opens (by simp [CallConfig.incoming, Call.opens, sound.undialled])
    | packet data => exact sound.incoming opens
    | _ => trivial
  own sound _ known permitted _ performed := by
    obtain ⟨rfl, rfl, rfl⟩ := perform_eq_some performed
    have allows := allows_of_known known permitted
    refine ⟨sound.next allows known, known_after allows known, fun entry forked _ _ => ?_⟩
    rw [unknown_of_forks allows.1 forked]
    trivial
  others _ _ known permitted _ performed _ _ _ holds := by
    obtain ⟨rfl, -, -⟩ := perform_eq_some performed
    exact known_next (allows_of_known known permitted) holds

/-- A call whose packets are single frames. -/
def frameCall : CallConfig := { unpack := fun data => some { frames := [data] } }

/-- A call that is served and rings, is answered by its owner, and then takes a frame of the other side. -/
def answeredOnce : List (Activity CallEntry Bool) :=
  .start .serveIncoming :: turns 0 14 ++ .start .identified :: turns 3 4 ++ .start .answer :: turns 4 28 ++
    .start (.packet [1]) :: turns 5 6

end Call

end ReticulumProtocols.Lxst
