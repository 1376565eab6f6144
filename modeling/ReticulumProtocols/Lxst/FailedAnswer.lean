import ReticulumProtocols.Lxst.Answering

/-! What is left of an `Answer` that fails. The flag is set before the signal is sent and the pipelines are opened, and
these failures do not take it back. -/

namespace ReticulumProtocols.Lxst
open Wire Concurrency CallProgram

namespace Call

/-- The call as an operation of `Answer` finds it. The swap to the active state may have been overtaken by another
goroutine that ended the call. -/
def found (call : Call) (overtaken : Bool) : CallOp → Call
  | .casState .ringing .active => if overtaken then (call.setState 1 .ended).clearPipelines else call
  | _ => call

/-- An operation of `Answer`, none of which waits, for given outcomes of the calls that leave the package. -/
def act (outcome : CallOp → Bool) (overtaken : Bool) (call : Call) (op : CallOp) : Call × op.Answer :=
  ((call.found overtaken op).next 0 (outcome op) op, (call.found overtaken op).reply (outcome op) op)

def sends (call : Call) (outcome : CallOp → Bool) (signals : List Int) : Bool :=
  call.link && outcome (.linkActive signals) && outcome (.sendPacket signals)

/-- The pipelines are open, or everything they need can be made. -/
def openable (call : Call) (outcome : CallOp → Bool) : Bool :=
  call.opened || [Part.encoder, .decoder, .device, .deviceStart].all fun part => outcome (.create .answer part)

/-- What sending signals does not touch. -/
def core (call : Call) : CallState × (Flag → Bool) × Bool := (call.state, call.flags, call.opened)

section
variable {outcome : CallOp → Bool} {overtaken : Bool}
variable {call : Call}

theorem core_raiseStatus (signals : List Int) (call : Call) :
    ((raiseStatus signals).alone (act outcome overtaken) call).1.core = call.core := by
  have keeps : (raiseStatus signals).All fun op => ∀ call, (act outcome overtaken call op).1.core = call.core := by
    refine (signals_raiseStatus signals).mono fun op sends call => ?_
    cases op <;> simp [act, found, next, core] at sends ⊢
    split <;> simp
  exact Program.alone_keeps keeps call

theorem alone_sendSignals {signals : List Int} (some_signals : signals ≠ []) (call : Call) :
    ((sendSignals signals).alone (act outcome overtaken) call).1.core = call.core ∧
      (((sendSignals signals).alone (act outcome overtaken) call).2 = .ok () ↔ call.sends outcome signals = true) := by
  have raised : ((raiseStatus signals).alone (act outcome overtaken) call).1.core = call.core :=
    core_raiseStatus signals call
  by_cases link : call.link = true <;> by_cases up : outcome (.linkActive signals) = true <;>
    by_cases sent : outcome (.sendPacket signals) = true <;>
    simp_all [sendSignals, Program.alone_bind, act, found, next, reply, sends, core]

theorem alone_openPipelines {call : Call} (ringing : call.state = .ringing) (incoming : call.flags .incoming = true) :
    ((openPipelines .answer).alone (act outcome overtaken) call).1.state = call.state ∧
      ((openPipelines .answer).alone (act outcome overtaken) call).1.flags = call.flags ∧
      (((openPipelines .answer).alone (act outcome overtaken) call).2 = .ok () ↔ call.openable outcome = true) := by
  by_cases opened : call.opened = true
  · simp [openPipelines, act, found, next, reply, foundOpen, openable, opened]
  · cases encoder : outcome (.create .answer .encoder) <;> cases decoder : outcome (.create .answer .decoder) <;>
      cases device : outcome (.create .answer .device) <;> cases start : outcome (.create .answer .deviceStart) <;>
      simp [openPipelines, createParts, act, found, next, reply, foundOpen, openable, opened, ringing, incoming, encoder,
        decoder, device, start]

theorem state_release (reason : String) (call : Call) :
    ((release reason).alone (act outcome overtaken) call).1.state = call.state := by
  have keeps : (release reason).All fun op => ∀ call, (act outcome overtaken call op).1.state = call.state := by
    simp [release, act, found, next, clearPipelines]
  exact Program.alone_keeps keeps call

theorem ended_endCall (reason : String) (call : Call) :
    ((endCall reason).alone (act outcome overtaken) call).1.state = .ended := by
  cases state : call.state <;> simp [endCall, act, found, next, reply, setState, state, state_release]

/-- Where the program gives an error, the call has ended. -/
abbrev EndsOnError (outcome : CallOp → Bool) (overtaken : Bool) (program : CallProgram (Except CallError Unit)) : Prop :=
  ∀ call error, (program.alone (act outcome overtaken) call).2 = .error error →
    (program.alone (act outcome overtaken) call).1.state = .ended

theorem EndsOnError.bind {α : Type} {program : CallProgram α} {f : α → CallProgram (Except CallError Unit)}
    (rest : ∀ result, EndsOnError outcome overtaken (f result)) : EndsOnError outcome overtaken (program >>= f) := by
  intro call error failed
  rw [Program.alone_bind] at failed ⊢
  exact rest _ _ error failed

theorem endsOnError_endCall (reason : String) (error : CallError) :
    EndsOnError outcome overtaken (endCall reason >>= fun _ => pure (.error error)) := by
  intro call _ _
  rw [Program.alone_bind]
  exact ended_endCall reason call

theorem endsOnError_establishAnswer : EndsOnError outcome overtaken establishAnswer := by
  refine EndsOnError.bind fun _ => EndsOnError.bind fun
    | .error error => endsOnError_endCall _ error
    | .ok () => EndsOnError.bind fun
      | .error error => endsOnError_endCall _ error
      | .ok () => fun call error failed => ?_
  simp at failed

/-- The call is as it was: frames that were dropped and signals that were ignored still are. -/
def Unaffected (c : CallConfig) (outcome : CallOp → Bool) (before after : Call) : Prop :=
  after.state = before.state ∧ after.flags .answered = before.flags .answered ∧
    (before.flags .incoming = true → before.flags .answered = false →
      (∀ frame, ((handleFrame frame).alone (act outcome false) after).1 = after) ∧
      ∀ signal < preferredMode, ((handleSignal c signal).alone (act outcome false) after).1 = after)

theorem unaffected_of_core {c : CallConfig} {before after : Call} (state : after.state = before.state)
    (flags : after.flags = before.flags) : Unaffected c outcome before after := by
  refine ⟨state, congrFun flags _, fun incoming unanswered => ?_⟩
  rw [← flags] at incoming unanswered
  refine ⟨fun frame => ?_, fun signal low => ?_⟩
  · simp [handleFrame, act, found, next, reply, incoming, unanswered]
  · simp [handleSignal, act, found, next, reply, incoming, unanswered, low]

/-- The swap that finds the call ended ends it once more. -/
theorem endsOnError_swap :
    EndsOnError outcome overtaken (once (.casState .ringing .active) >>= fun became =>
      if became then establishAnswer
      else endCall "answer raced hangup" >>= fun _ => pure (.error .answerRaced)) :=
  EndsOnError.bind fun
    | true => endsOnError_establishAnswer
    | false => endsOnError_endCall _ _

/-- What comes of `Answer` once the flag is set: the failures before the swap do not end the call. -/
theorem alone_acceptCall (ringing : call.state = .ringing) (incoming : call.flags .incoming = true)
    {after : Call} {result : Except CallError Unit}
    (ran : acceptCall.alone (act outcome overtaken) call = (after, result)) :
    if call.sends outcome [statusConnecting] && call.openable outcome then
      ∀ error, result = .error error → after.state = .ended
    else (∃ error, result = .error error) ∧ after.state = .ringing ∧ after.flags = call.flags := by
  obtain ⟨kept, sent⟩ := @alone_sendSignals outcome overtaken _ (List.cons_ne_nil statusConnecting []) call
  unfold acceptCall at ran
  rw [Program.alone_bind] at ran
  generalize (sendSignals [statusConnecting]).alone (act outcome overtaken) call = signalled at kept sent ran
  obtain ⟨call', answer⟩ := signalled
  obtain ⟨state, flags, opened⟩ : call'.state = call.state ∧ call'.flags = call.flags ∧ call'.opened = call.opened := by
    simpa [core] using kept
  cases answer with
  | error error =>
    cases ran
    have unsent : call.sends outcome [statusConnecting] = false := by simpa using sent
    simp [unsent, state, flags, ringing]
  | ok value =>
    have same : call.openable outcome = call'.openable outcome := by simp [openable, opened]
    obtain ⟨state', flags', opens⟩ := @alone_openPipelines outcome overtaken _ (state.trans ringing)
      (congrFun flags _ ▸ incoming)
    rw [sent.1 rfl, Bool.true_and, same]
    dsimp only at ran
    rw [Program.alone_bind] at ran
    generalize (openPipelines .answer).alone (act outcome overtaken) call' = made at state' flags' opens ran
    obtain ⟨call'', answer⟩ := made
    cases answer with
    | error error =>
      cases ran
      have unopened : call'.openable outcome = false := by simpa using opens
      simp_all
    | ok value =>
      rw [if_pos (opens.1 rfl)]
      intro error failed
      have ends := @endsOnError_swap outcome overtaken call'' error
      rw [show _ = (after, result) from ran] at ends
      exact ends failed

def answering (call : Call) : Call :=
  { call with answerCalls := call.answerCalls + 1, flags := Function.update call.flags .answered true }

theorem alone_answer (ringing : call.state = .ringing) (incoming : call.flags .incoming = true) :
    answer.alone (act outcome overtaken) call = acceptCall.alone (act outcome overtaken) call.answering := by
  simp [answer, act, found, next, reply, ringing, incoming, answering]

theorem alone_answer_refused (refused : ¬(call.state = .ringing ∧ call.flags .incoming = true)) :
    (answer.alone (act outcome overtaken) call).1 = { call with answerCalls := call.answerCalls + 1 } := by
  by_cases ringing : call.state = .ringing
  · simp_all [answer, act, found, next, reply]
  · simp [answer, act, found, next, reply, ringing]

end

theorem answer_error_iff (c : CallConfig) (outcome : CallOp → Bool) (overtaken : Bool) (call : Call) :
    (∀ error, (answer.alone (act outcome overtaken) call).2 = .error error →
      (answer.alone (act outcome overtaken) call).1.state = .ended ∨
        Unaffected c outcome call (answer.alone (act outcome overtaken) call).1) ↔
      (call.state = .ringing → call.flags .incoming = true → call.flags .answered = false →
        call.sends outcome [statusConnecting] = true ∧ call.openable outcome = true) := by
  by_cases accepted : call.state = .ringing ∧ call.flags .incoming = true
  · obtain ⟨ringing, incoming⟩ := accepted
    have still_incoming : call.answering.flags .incoming = true := by
      simpa [answering, Function.update_of_ne] using incoming
    rw [alone_answer ringing incoming]
    cases ran : acceptCall.alone (act outcome overtaken) call.answering with | mk after result =>
    have still_ringing : call.answering.state = .ringing := ringing
    have comes := alone_acceptCall still_ringing still_incoming ran
    by_cases goes : (call.sends outcome [statusConnecting] && call.openable outcome) = true
    · have ends := (if_pos goes).mp comes
      refine iff_of_true (fun error failed => .inl (ends error failed)) fun _ _ _ => ?_
      simpa using goes
    · obtain ⟨⟨error, failed⟩, state, flags⟩ := (if_neg goes).mp comes
      constructor
      · intro unharmed _ _ unanswered
        rcases unharmed error failed with ended | ⟨-, answered, -⟩
        · exact absurd (state.symm.trans ended) (by decide)
        · simp [flags, unanswered, answering] at answered
      · intro condition _ _
        have answered : call.flags .answered = true := Bool.eq_true_of_not_eq_false fun unanswered =>
          goes (by simpa using condition ringing incoming unanswered)
        have same : call.answering.flags = call.flags := by simp [answering, ← answered]
        exact .inr (unaffected_of_core (state.trans ringing.symm) (flags.trans same))
  · rw [alone_answer_refused accepted]
    refine iff_of_true (fun _ _ => .inr (unaffected_of_core rfl rfl)) fun ringing incoming => ?_
    exact absurd ⟨ringing, incoming⟩ accepted

/-- A ringing call whose first signal cannot be sent: `Answer` fails, the call goes on ringing as an answered one, and
takes the frames that it dropped before. -/
theorem failed_answer_takes_frames :
    ∃ (outcome : CallOp → Bool) (call after : Call) (error : CallError),
      call.state = .ringing ∧ call.flags .incoming = true ∧ call.flags .answered = false ∧
      answer.alone (act outcome false) call = (after, .error error) ∧ after.state = .ringing ∧
      after.flags .answered = true ∧
      ((handleFrame [1]).alone (act outcome false) call).1.jitter = [] ∧
      ((handleFrame [1]).alone (act outcome false) after).1.jitter = [(1, [1])] := by
  refine ⟨fun _ => false, { frameCall.newCall with
    state := .ringing, link := true, flags := fun flag => flag = .incoming }, _, _, rfl, rfl, rfl, rfl, ?_⟩
  decide

end Call
end ReticulumProtocols.Lxst
