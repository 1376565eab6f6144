import ReticulumProtocols.Lxst.Call

/-! Which of the operations that matter each piece of code can come to perform. -/

namespace ReticulumProtocols.Lxst
open Wire Concurrency List

/-- The kinds of operations. `mild` ones neither move the call on its way nor touch what its states promise; nothing
performs the `wild` ones. -/
inductive Footprint where
  | mild | start | reset | ending | activate | pipelines | timer | media | answer | enroll | fork | wild
  deriving DecidableEq

@[simp]
def CallOp.footprint : CallOp → Footprint
  | casState .idle .connecting => .start
  | casState .ringing .active | casState .connecting .active => .activate
  | casState .connecting .ringing => .mild
  | casState .active .ended | casState .ringing .ended | casState .connecting .ended => .ending
  | storeState .ended | clearPipelines | onEnded _ => .ending
  | storeState .idle => .reset
  | casState .. | storeState _ => .wild
  | beginOpen | abortOpen | finishOpen => .pipelines
  | create .switching _ => .mild
  | create .. => .pipelines
  | timer _ => .timer
  | pushFrame .. => .media
  | enterAnswer | store .answered _ => .answer
  | register _ | store .incoming _ => .enroll
  | go (.timer _) | go .resendAvailable | go .identifyIfStillConnecting | go .autoAnswer => .fork
  | go _ => .wild
  | _ => .mild

/-- The operation is mild, or of one of these kinds. -/
@[simp]
def CallOp.In (kinds : List Footprint) (op : CallOp) : Prop := op.footprint = .mild ∨ op.footprint ∈ kinds

/-- The operations of `sendSignals`. -/
@[simp]
def CallOp.Signals : CallOp → Prop
  | getLink | linkActive _ | loadNumber _ | storeNumber .. | sendPacket _ => True
  | _ => False

namespace CallProgram
variable (c : CallConfig) {kinds : List Footprint}

abbrev Uses {α : Type} (kinds : List Footprint) (program : CallProgram α) : Prop := program.All (CallOp.In kinds)

theorem Uses.mono {α : Type} {kinds' : List Footprint} {program : CallProgram α} (uses : Uses kinds program)
    (more : kinds ⊆ kinds') : Uses kinds' program :=
  Program.All.mono (fun _ => Or.imp_right fun listed => more listed) uses

theorem Uses.avoids {α : Type} {program : CallProgram α} (uses : Uses kinds program) (others : List Footprint)
    (apart : ∀ kind ∈ others, kind ≠ .mild ∧ kind ∉ kinds) : program.All fun op => op.footprint ∉ others := by
  refine Program.All.mono (fun op listed found => ?_) uses
  obtain ⟨notable, unlisted⟩ := apart op.footprint found
  exact listed.elim notable unlisted

theorem Uses.bind {α β : Type} {program : CallProgram α} {f : α → CallProgram β} (uses : Uses kinds program)
    (rest : ∀ result, Uses kinds (f result)) : Uses kinds (program >>= f) := Program.All.bind uses rest

theorem Uses.bindResult {β : Type} {program : CallProgram (Except CallError Unit)}
    {f : Except CallError Unit → CallProgram β} (uses : Uses kinds program)
    (fails : ∀ error, Uses kinds (f (.error error))) (works : Uses kinds (f (.ok ()))) : Uses kinds (program >>= f) :=
  uses.bind fun
    | .error error => fails error
    | .ok () => works

theorem signals_raiseStatus (signals : List Int) : (raiseStatus signals).All CallOp.Signals := by
  induction signals with
  | nil => trivial
  | cons signal signals ih => simp [raiseStatus, ih]

theorem signals_sendSignals (signals : List Int) : (sendSignals signals).All CallOp.Signals := by
  simp only [sendSignals, Program.once_bind, Program.all_perform, Program.all_ite, Program.all_pure, CallOp.Signals,
    true_and, implies_true, and_true]
  exact fun _ _ _ _ => (signals_raiseStatus signals).bind fun _ => by simp

theorem uses_sendSignals (signals : List Int) : Uses kinds (sendSignals signals) :=
  (signals_sendSignals signals).mono fun op sends => .inl (by cases op <;> first | rfl | exact sends.elim)

theorem uses_sendSignals_bind {β : Type} (signals : List Int) (f : Except CallError Unit → CallProgram β)
    (fails : ∀ error, Uses kinds (f (.error error))) (works : Uses kinds (f (.ok ()))) :
    Uses kinds (sendSignals signals >>= f) := (uses_sendSignals signals).bindResult fails works

theorem uses_endCall (reason : String) (listed : .ending ∈ kinds) : Uses kinds (endCall reason) := by
  simp [endCall, release, listed]

theorem uses_endCall_bind {β : Type} (reason : String) (listed : .ending ∈ kinds) (f : Unit → CallProgram β)
    (rest : Uses kinds (f ())) : Uses kinds (endCall reason >>= f) := (uses_endCall reason listed).bind fun _ => rest

theorem uses_timeout (timer : SetupTimer) : Uses [.timer, .ending] (timeout timer) := by
  cases timer <;> simp [timeout, stillWaiting, expire, uses_endCall]

theorem uses_dial (remote : Bool) : Uses [.start, .reset, .enroll, .fork] (dial c remote) := by
  simp [dial, armTimeout]

theorem uses_serveIncoming : Uses [.start, .reset, .enroll, .fork] (serveIncoming c) := by
  simp [serveIncoming, uses_sendSignals_bind, armTimeout]

theorem uses_openPipelines (purpose : Purpose) (listed : .pipelines ∈ kinds) : Uses kinds (openPipelines purpose) := by
  cases purpose <;> simp [openPipelines, createParts, uses_sendSignals_bind, listed]

theorem uses_startPipelines : Uses kinds startPipelines := by
  simp [startPipelines, applyModeSquelch, setSquelchState]

theorem uses_establishAnswer (listed : .ending ∈ kinds) : Uses kinds establishAnswer := by
  refine ⟨by simp, fun _ => uses_startPipelines.bindResult (fun error => ?_) ?_⟩
  · simp [uses_endCall_bind, listed]
  · simp [uses_endCall_bind, uses_sendSignals_bind, listed]

theorem uses_acceptCall : Uses [.pipelines, .activate, .ending] acceptCall := by
  have opens : Uses [.pipelines, .activate, .ending] (openPipelines .answer) := uses_openPipelines .answer (by simp)
  refine (uses_sendSignals _).bindResult (fun error => by simp) (opens.bindResult (fun error => by simp) ?_)
  simp [uses_establishAnswer, uses_endCall_bind]

theorem uses_answer : Uses [.answer, .pipelines, .activate, .ending] answer := by
  have accepts := uses_acceptCall.mono (subset_cons_self Footprint.answer _)
  simp [answer, accepts]

theorem uses_reject (reason : String) : Uses [.ending] (reject reason) := by
  simp [reject, uses_sendSignals_bind, uses_endCall_bind]

theorem uses_hangup (reason : String) : Uses [.ending] (hangup reason) := by
  simp [hangup, uses_sendSignals_bind, uses_endCall]

theorem uses_switchCodecs (profile : Int) : Uses kinds (switchCodecs profile) := by simp [switchCodecs, applyProfile]

theorem uses_switchCodecs_bind {β : Type} (profile : Int) (f : Except CallError Unit → CallProgram β)
    (fails : ∀ error, Uses kinds (f (.error error))) (works : Uses kinds (f (.ok ()))) :
    Uses kinds (switchCodecs profile >>= f) := (uses_switchCodecs profile).bindResult fails works

theorem uses_switchProfile (profile : Int) : Uses kinds (switchProfile profile) := by
  simp [switchProfile, applyProfile, uses_switchCodecs_bind, uses_sendSignals]

theorem uses_switchMode (mode : Int) : Uses kinds (switchMode mode) := by
  simp [switchMode, setSquelchState, uses_sendSignals]

theorem uses_squelch (on : Bool) : Uses kinds (squelch on) := by simp [squelch, setSquelchState]

theorem uses_resendAvailable (rounds : Nat) : Uses kinds (resendAvailable rounds) := by
  induction rounds with
  | zero => trivial
  | succ rounds ih => simp [resendAvailable, uses_sendSignals_bind, ih]

theorem uses_identifyOnce : Uses kinds (identifyOnce c) := by simp [identifyOnce]

theorem uses_identifyRounds (rounds : Nat) : Uses kinds (identifyRounds c rounds) := by
  induction rounds with
  | zero => trivial
  | succ rounds ih => simp [identifyRounds, identifyOnce, ih]

theorem uses_identifyIfStillConnecting : Uses kinds (identifyIfStillConnecting c) := by
  simp [identifyIfStillConnecting, uses_identifyRounds]

theorem uses_onOutgoingEstablished : Uses [.enroll, .fork] (onOutgoingEstablished c) := by
  simp [onOutgoingEstablished, armTimeout]

theorem uses_onIdentified : Uses [.fork, .ending] (onIdentified c) := by
  simp [onIdentified, rejectIncoming, armTimeout, uses_sendSignals_bind, uses_endCall]

theorem uses_autoAnswer : Uses [.answer, .pipelines, .activate, .ending] autoAnswer := by
  have forgets := uses_answer.bind fun _ => Program.all_pure _ ()
  simpa [autoAnswer] using forgets

theorem uses_onLinkClosed : Uses [.ending] onLinkClosed := by simp [onLinkClosed, uses_endCall]

theorem uses_signalRinging : Uses kinds signalRinging := by
  simp [signalRinging, preferences, applyProfile, uses_sendSignals_bind]

theorem uses_startMedia (became : Bool) : Uses kinds (startMedia became) := by
  cases became <;> simp [startMedia, startPipelines, applyModeSquelch, setSquelchState]

theorem uses_signalConnecting (listed : .pipelines ∈ kinds) : Uses kinds signalConnecting := by
  have opens := (uses_openPipelines .connecting listed).bind fun _ => Program.all_pure _ ()
  simp [signalConnecting, opens]

theorem uses_signalEstablished : Uses [.pipelines, .activate] signalEstablished := by
  have opens : Uses [.pipelines, .activate] (openPipelines .established) := uses_openPipelines .established (by simp)
  have becomes := opens.bind fun _ => by
    show Uses [.pipelines, .activate] (once (.casState .ringing .active) >>= fun became =>
      if became then startMedia true else once (.casState .connecting .active) >>= startMedia)
    simp [uses_startMedia]
  simpa [signalEstablished] using becomes

theorem uses_applyPreferredProfile (signal : Int) : Uses kinds (applyPreferredProfile signal) := by
  simp [applyPreferredProfile, switchCodecs, applyProfile]

theorem uses_applyPreferredMode (signal : Int) : Uses kinds (applyPreferredMode signal) := by
  simp [applyPreferredMode, setSquelchState]

theorem uses_takeFrame (frame : Bytes) : Uses [.media] (takeFrame frame) := by simp [takeFrame]

theorem uses_handleFrame (frame : Bytes) : Uses [.media] (handleFrame frame) := by
  simp [handleFrame, uses_takeFrame]

theorem uses_handleFrames (frames : List Bytes) : Uses [.media] (handleFrames frames) := by
  induction frames with
  | nil => trivial
  | cons frame frames ih => exact (uses_handleFrame frame).bind fun _ => ih

/-- What a packet of the other side can lead to. -/
abbrev remoteKinds : List Footprint := [.ending, .pipelines, .activate, .media]

theorem uses_followSignal (signal : Int) : Uses remoteKinds (followSignal c signal) := by
  have establishes := uses_signalEstablished.mono (show _ ⊆ remoteKinds by simp)
  simp [followSignal, signalBusy, signalRejected, uses_endCall, uses_identifyOnce, uses_signalRinging,
    uses_signalConnecting, establishes, uses_applyPreferredProfile, uses_applyPreferredMode]

theorem uses_handleSignal (signal : Int) : Uses remoteKinds (handleSignal c signal) := by
  simp [handleSignal, uses_followSignal]

theorem uses_handleEach (signals : List Int) : Uses remoteKinds (handleEach c signals) := by
  induction signals with
  | nil => trivial
  | cons signal signals ih => exact (uses_handleSignal c signal).bind fun _ => ih

theorem uses_handleSignals (signals : List Int) : Uses remoteKinds (handleSignals c signals) :=
  ⟨by simp, fun _ => (uses_handleEach c signals).bind fun _ => by simp⟩

theorem uses_onPacket (data : Bytes) : Uses remoteKinds (onPacket c data) := by
  have frames (frames : List Bytes) := (uses_handleFrames frames).mono (show _ ⊆ remoteKinds by simp)
  unfold onPacket
  split
  · trivial
  · split
    · trivial
    · split
      · exact frames _
      · exact (uses_handleSignals c _).bind fun _ => frames _

end CallProgram

def CallEntry.kinds : CallEntry → List Footprint
  | dial _ | serveIncoming => [.start, .reset, .enroll, .fork]
  | answer | autoAnswer => [.answer, .pipelines, .activate, .ending]
  | reject _ | hangup _ | linkClosed => [.ending]
  | established => [.enroll, .fork]
  | identified => [.fork, .ending]
  | packet _ => CallProgram.remoteKinds
  | timer _ => [.timer, .ending]
  | _ => []

theorem CallProgram.uses_ofEntry (c : CallConfig) (entry : CallEntry) : Uses entry.kinds (ofEntry c entry) := by
  have forgets {α : Type} {kinds : List Footprint} {program : CallProgram α} (uses : Uses kinds program) :
      Uses kinds (forget program) := uses.bind fun _ => Program.all_pure _ ()
  cases entry with
  | dial remote => exact forgets (uses_dial c remote)
  | serveIncoming => exact forgets (uses_serveIncoming c)
  | answer => exact forgets uses_answer
  | reject reason => exact forgets (uses_reject reason)
  | hangup reason => exact uses_hangup reason
  | switchProfile profile => exact forgets (uses_switchProfile profile)
  | switchMode mode => exact forgets (uses_switchMode mode)
  | squelch on => exact uses_squelch on
  | ptt down => exact uses_squelch (!down)
  | disableRemoteModeFollow => simp [ofEntry]
  | established => exact uses_onOutgoingEstablished c
  | identified => exact uses_onIdentified c
  | packet data => exact uses_onPacket c data
  | linkClosed => exact uses_onLinkClosed
  | timer timer => exact uses_timeout timer
  | resendAvailable => exact uses_resendAvailable 25
  | identifyIfStillConnecting => exact uses_identifyIfStillConnecting c
  | autoAnswer => exact uses_autoAnswer

namespace CallProgram

/-- A property of programs that goes through sequencing, and holds of what only does operations of some kinds and of the
end of a call. -/
structure Sequential (kinds : List Footprint) (P : ∀ {α : Type}, CallProgram α → Prop) : Prop where
  bind : ∀ {α β : Type} {program : CallProgram α} {f : α → CallProgram β},
    P program → (∀ result, P (f result)) → P (program >>= f)
  uses : ∀ {α : Type} {program : CallProgram α}, Uses kinds program → P program
  endCall : ∀ reason, P (endCall reason)

/-- Such a property that also holds of the code that opens pipelines and makes a call active. -/
structure Closed (kinds : List Footprint) (P : ∀ {α : Type}, CallProgram α → Prop) : Prop extends
    Sequential kinds P where
  openPipelines : ∀ purpose, P (openPipelines purpose)
  signalEstablished : P signalEstablished
  acceptCall : P acceptCall

section
variable {kinds : List Footprint} {P : ∀ {α : Type}, CallProgram α → Prop} {α β : Type}

namespace Sequential
variable {op : CallOp}

theorem result (s : Sequential kinds P) (result : α) : P (pure result : CallProgram α) := s.uses (Program.all_pure _ _)

theorem perform (s : Sequential kinds P) {next : op.Answer → CallProgram α} (listed : op.In kinds)
    (rest : ∀ answer, P (next answer)) : P (once op >>= next) :=
  s.bind (s.uses ((Program.all_once _ op).2 listed)) rest

theorem mild (s : Sequential kinds P) {next : op.Answer → CallProgram α} (mild : op.footprint = .mild)
    (rest : ∀ answer, P (next answer)) : P (once op >>= next) := s.perform (.inl mild) rest

theorem single (s : Sequential kinds P) (listed : op.In kinds) : P (once op) :=
  s.uses ((Program.all_once _ op).2 listed)

theorem bindResult (s : Sequential kinds P) {program : CallProgram (Except CallError Unit)}
    {f : Except CallError Unit → CallProgram β} (first : P program) (fails : ∀ error, P (f (.error error)))
    (works : P (f (.ok ()))) : P (program >>= f) :=
  s.bind first fun
    | .error error => fails error
    | .ok () => works

theorem signals_bind (s : Sequential kinds P) {signals : List Int} {f : Except CallError Unit → CallProgram β}
    (rest : ∀ result, P (f result)) : P (sendSignals signals >>= f) := s.bind (s.uses (uses_sendSignals signals)) rest

theorem endCall_bind (s : Sequential kinds P) {reason : String} {f : Unit → CallProgram β} (rest : P (f ())) :
    P (CallProgram.endCall reason >>= f) := s.bind (s.endCall reason) fun _ => rest

theorem timeout (s : Sequential kinds P) (listed : .timer ∈ kinds) (timer : SetupTimer) :
    P (CallProgram.timeout timer) := by
  have waits : P (stillWaiting timer) := s.uses (by cases timer <;> simp [stillWaiting])
  refine s.perform (.inr listed) fun fires => ?_
  split
  · refine s.bind waits fun waiting => ?_
    split
    · refine s.mild rfl fun state => ?_
      split
      · exact s.result ()
      · refine s.mild rfl fun state => ?_
        split
        · exact s.result ()
        · exact s.endCall timer.reason
    · exact s.result ()
  · exact s.result ()

theorem establishAnswer (s : Sequential kinds P) : P CallProgram.establishAnswer := by
  refine s.mild rfl fun _ => s.bindResult (s.uses uses_startPipelines) (fun _ => s.endCall_bind (s.result _)) ?_
  refine s.bindResult (s.uses (uses_sendSignals _)) (fun _ => s.endCall_bind (s.result _)) ?_
  exact s.mild rfl fun _ => s.mild rfl fun _ => s.result _

theorem reject (s : Sequential kinds P) (reason : String) : P (CallProgram.reject reason) := by
  refine s.mild rfl fun state => ?_
  split
  · refine s.mild rfl fun incoming => ?_
    split
    · exact s.signals_bind fun _ => s.endCall_bind (s.result _)
    · exact s.endCall_bind (s.result _)
  · exact s.result _

theorem hangup (s : Sequential kinds P) (reason : String) : P (CallProgram.hangup reason) := by
  refine s.mild rfl fun state => ?_
  split
  · exact s.result ()
  · refine s.mild rfl fun incoming => ?_
    split
    · split
      · refine s.mild rfl fun answered => ?_
        split
        · exact s.endCall reason
        · exact s.signals_bind fun _ => s.endCall reason
      · exact s.endCall reason
    · exact s.endCall reason

theorem rejectIncoming (s : Sequential kinds P) (error : CallError) (reason : String) :
    P (CallProgram.rejectIncoming error reason) :=
  s.mild rfl fun _ => s.mild rfl fun _ => s.signals_bind fun _ => s.endCall reason

theorem onIdentified (s : Sequential kinds P) (listed : .fork ∈ kinds) (c : CallConfig) :
    P (CallProgram.onIdentified c) := by
  have rings : Uses kinds (armTimeout c .ring) := by simp [armTimeout, listed]
  refine s.mild rfl fun incoming => ?_
  split
  · refine s.mild rfl fun allowed => ?_
    split
    · refine s.mild rfl fun allowed => ?_
      split
      · refine s.mild rfl fun moved => ?_
        split
        · refine s.mild rfl fun _ => s.signals_bind fun _ => s.mild rfl fun _ => ?_
          split
          · exact s.perform (.inr listed) fun _ => s.uses rings
          · exact s.uses rings
        · exact s.result ()
      · exact s.rejectIncoming _ _
    · exact s.rejectIncoming _ _
  · exact s.result ()

theorem onLinkClosed (s : Sequential kinds P) : P CallProgram.onLinkClosed := by
  refine s.mild rfl fun incoming => ?_
  split
  · exact s.endCall _
  · refine s.mild rfl fun state => ?_
    split
    · exact s.mild rfl fun _ => s.endCall _
    · exact s.endCall _

/-- Where nothing is to be said of pipelines and of becoming active, sequencing is enough. -/
theorem closed (s : Sequential kinds P) (pipelines : .pipelines ∈ kinds) (activate : .activate ∈ kinds) :
    Closed kinds P where
  toSequential := s
  openPipelines purpose := s.uses (uses_openPipelines purpose pipelines)
  signalEstablished := s.uses (uses_signalEstablished.mono (by simp [pipelines, activate]))
  acceptCall := by
    refine s.bindResult (s.uses (uses_sendSignals _)) (fun _ => s.result _) ?_
    refine s.bindResult (s.uses (uses_openPipelines .answer pipelines)) (fun _ => s.result _) ?_
    refine s.perform (.inr activate) fun became => ?_
    split
    · exact s.establishAnswer
    · exact s.endCall_bind (s.result _)

end Sequential

namespace Closed

theorem answer (s : Closed kinds P) (listed : .answer ∈ kinds) : P CallProgram.answer := by
  refine s.perform (.inr listed) fun _ => s.mild rfl fun state => ?_
  split
  · refine s.mild rfl fun incoming => ?_
    split
    · exact s.perform (.inr listed) fun _ => s.acceptCall
    · exact s.result _
  · exact s.result _

theorem followSignal (s : Closed kinds P) (c : CallConfig) (signal : Int) : P (CallProgram.followSignal c signal) := by
  unfold CallProgram.followSignal
  split
  · exact s.mild rfl fun _ => s.endCall _
  split
  · exact s.mild rfl fun _ => s.endCall _
  split
  · exact s.mild rfl fun _ => s.uses (uses_identifyOnce c)
  split
  · exact s.uses uses_signalRinging
  split
  · refine s.mild rfl fun _ => s.mild rfl fun incoming => ?_
    split
    · exact s.result ()
    · exact s.bind (s.openPipelines .connecting) fun _ => s.result ()
  split
  · exact s.signalEstablished
  split
  · exact s.uses (uses_applyPreferredProfile signal)
  split
  · exact s.uses (uses_applyPreferredMode signal)
  · exact s.result ()

theorem handleSignal (s : Closed kinds P) (c : CallConfig) (signal : Int) : P (CallProgram.handleSignal c signal) := by
  refine s.mild rfl fun incoming => ?_
  split
  · refine s.mild rfl fun answered => ?_
    split
    · exact s.followSignal c signal
    · split
      · exact s.result ()
      · exact s.followSignal c signal
  · exact s.followSignal c signal

theorem handleEach (s : Closed kinds P) (c : CallConfig) (signals : List Int) : P (CallProgram.handleEach c signals) := by
  induction signals with
  | nil => exact s.result ()
  | cons signal signals ih => exact s.bind (s.handleSignal c signal) fun _ => ih

theorem onPacket (s : Closed kinds P) (listed : .media ∈ kinds) (c : CallConfig) (data : Bytes) :
    P (CallProgram.onPacket c data) := by
  have frames (frames : List Bytes) : P (handleFrames frames) := s.uses ((uses_handleFrames frames).mono (by simpa))
  have signals (signals : List Int) : P (handleSignals c signals) :=
    s.mild rfl fun _ => s.bind (s.handleEach c signals) fun _ => s.single (.inl rfl)
  unfold CallProgram.onPacket
  split
  · exact s.result ()
  · split
    · exact s.result ()
    · split
      · exact frames _
      · exact s.bind (signals _) fun _ => frames _

/-- What is run on a call that is already set up. -/
theorem ofEntry (s : Closed kinds P) (c : CallConfig) (entry : CallEntry)
    (listed : ∀ kind ∈ [Footprint.timer, .media, .answer, .enroll, .fork], kind ∈ kinds)
    (setup : (∃ remote, entry = .dial remote) ∨ entry = .serveIncoming → .start ∈ kinds ∧ .reset ∈ kinds) :
    P (CallProgram.ofEntry c entry) := by
  simp only [mem_cons, not_mem_nil, or_false, forall_eq_or_imp, forall_eq] at listed
  obtain ⟨timer, media, answer, enroll, fork⟩ := listed
  have drops {α : Type} {program : CallProgram α} (holds : P program) : P (forget program) :=
    s.bind holds fun _ => s.result ()
  cases entry with
  | answer => exact drops (s.answer answer)
  | reject reason => exact drops (s.reject reason)
  | hangup reason => exact s.hangup reason
  | identified => exact s.onIdentified fork c
  | packet data => exact s.onPacket media c data
  | linkClosed => exact s.onLinkClosed
  | timer kind => exact s.timeout timer kind
  | autoAnswer =>
    refine s.mild rfl fun ended => ?_
    split
    · exact s.result ()
    · exact drops (s.answer answer)
  | dial remote => exact s.uses ((uses_ofEntry c _).mono (by simp [CallEntry.kinds, setup, enroll, fork]))
  | serveIncoming => exact s.uses ((uses_ofEntry c _).mono (by simp [CallEntry.kinds, setup, enroll, fork]))
  | _ => exact s.uses ((uses_ofEntry c _).mono (by simp [CallEntry.kinds, enroll, fork]))

end Closed
end
end CallProgram

theorem Call.ended_next {call : Call} {i : Nat} {input : Bool} {op : CallOp} (tame : op.footprint ≠ .wild)
    (kept : op = .storeState .idle → call.state ≠ .ended) (ended : call.state = .ended) :
    (call.next i input op).state = .ended := by
  rw [state_next]
  cases op with
  | storeState state => cases state <;> simp_all [CallOp.nextState]
  | casState before after => cases before <;> cases after <;> simp_all [CallOp.nextState]
  | _ => exact ended

end ReticulumProtocols.Lxst
