import ReticulumProtocols.Rrc.Client

/-! `Dial` beside the callbacks of its link. The state of the client is written by both sides, each write in a section
of its own. -/

namespace ReticulumProtocols.Rrc
open Wire Lxmf Cbor Concurrency

inductive DialError where
  | establish | linkTimeout | identify | send | badWelcome | welcomeTimeout | sessionClosed
  deriving DecidableEq

/-- What `Dial` does next, from the link it has made to its return. -/
inductive DialPhase where
  | establish
  | waitActive
  | identify
  | storeAwaiting
  | sendHello
  | awaitWelcome
  | parse (welcome : Envelope)
  | storeActive
  | onWelcome
  | returned (error : Option DialError)

/-- The callbacks of the link and of the session, with what each has still to do. -/
inductive ClientCallback where
  | closeChannel
  | onLinkClosed
  | dispatch (env : Envelope)
  | putWelcome (env : Envelope)
  | done

/-- What a call of the link gives, and which channel a select that has several ready takes. -/
inductive Outcome where
  | succeeds | fails | welcome | timer | closed
  deriving DecidableEq

inductive DialEvent where
  | dial (found : Outcome)
  | linkClosed
  | packet (env : Envelope)
  | close
  | run (i : Nat)

structure Dialing where
  client : Client
  phase : DialPhase := .establish
  closedCh : Bool := false
  welcomeCh : Option Envelope := none
  callbacks : List ClientCallback := []

/-- `onLinkClosed`. -/
def Client.disconnect (client : Client) : Client :=
  if client.state = .disconnected then client else { client with state := .disconnected, rooms := ∅, pending := ∅ }

@[simp]
theorem Client.state_disconnect (client : Client) : client.disconnect.state = .disconnected := by
  unfold disconnect
  split
  · assumption
  · rfl

@[simp]
theorem Client.state_dispatch (client : Client) (u : Unicode) (env : Envelope) :
    (client.dispatch u env).state = client.state := by
  unfold dispatch
  dsimp only
  split
  · rfl
  · split <;> rfl
  · rfl

namespace Dialing
variable (u : Unicode) (parses : Option Value → Bool) (s : Dialing)

def goOn (next : DialPhase) (error : DialError) : Outcome → Option Dialing
  | .succeeds => some { s with phase := next }
  | .fails => some { s with phase := .returned (some error) }
  | _ => none

/-- The select of `Dial`; which of the channels that are ready it takes is not determined. -/
def select : Outcome → Option Dialing
  | .welcome => s.welcomeCh.map fun env => { s with welcomeCh := none, phase := .parse env }
  | .timer => some { s with phase := .returned (some .welcomeTimeout) }
  | .closed => if s.closedCh then some { s with phase := .returned (some .sessionClosed) } else none
  | _ => none

def dial (found : Outcome) : Option Dialing :=
  match s.phase with
  | .establish => s.goOn .waitActive .establish found
  | .waitActive => s.goOn .identify .linkTimeout found
  | .identify => s.goOn .storeAwaiting .identify found
  | .storeAwaiting => some { s with client := { s.client with state := .awaitingWelcome }, phase := .sendHello }
  | .sendHello => s.goOn .awaitWelcome .send found
  | .awaitWelcome => s.select found
  | .parse welcome =>
    some { s with phase := if parses welcome.body then .storeActive else .returned (some .badWelcome) }
  | .storeActive => some { s with client := { s.client with state := .active }, phase := .onWelcome }
  | .onWelcome => some { s with phase := .returned none }
  | .returned _ => none

/-- The `dispatch` of the client up to its first lock: a WELCOME goes on to the channel, as its state permits. -/
def route (env : Envelope) : ClientCallback :=
  if env.type = .welcome ∧ (s.client.state = .connected ∨ s.client.state = .awaitingWelcome) then .putWelcome env
  else .done

def callback : ClientCallback → Option (Dialing × ClientCallback)
  | .closeChannel => some ({ s with closedCh := true }, .onLinkClosed)
  | .onLinkClosed => some ({ s with client := s.client.disconnect }, .done)
  | .dispatch env => some ({ s with client := s.client.dispatch u env }, s.route env)
  -- The channel holds one envelope, and the rest are dropped.
  | .putWelcome env => some ({ s with welcomeCh := s.welcomeCh.or (some env) }, .done)
  | .done => none

def spawn (callback : ClientCallback) : Dialing := { s with callbacks := s.callbacks ++ [callback] }

def run (i : Nat) : Option Dialing := do
  let callback ← s.callbacks[i]?
  let (s, next) ← s.callback u callback
  return { s with callbacks := s.callbacks.set i next }

def step : DialEvent → Option Dialing
  | .dial found => s.dial parses found
  | .linkClosed => some (s.spawn .closeChannel)
  | .packet env => some (s.spawn (.dispatch env))
  -- The caller has the client once `Dial` has returned it.
  | .close =>
    match s.phase with
    | .returned none => some (s.spawn .onLinkClosed)
    | _ => none
  | .run i => s.run u i

/-- The client of `Dial` as the link is made. -/
def start (sender : Bytes) : Dialing := { client := { sender } }

end Dialing

/-- `Dial` is still calling on the link itself. -/
def DialPhase.linking : DialPhase → Bool
  | .establish | .waitActive | .identify => true
  | _ => false

def DialPhase.greeting : DialPhase → Bool
  | .sendHello | .awaitWelcome => true
  | _ => false

def DialPhase.finished : DialPhase → Bool
  | .returned _ => true
  | _ => false

def DialPhase.succeeded : DialPhase → Bool
  | .returned none => true
  | _ => false

def ClientCallback.putsWelcome : ClientCallback → Bool
  | .putWelcome _ => true
  | _ => false

def ClientCallback.disconnects : ClientCallback → Bool
  | .onLinkClosed => true
  | _ => false

namespace Dialing
variable {u : Unicode} {parses : Option Value → Bool} {s s' : Dialing}
variable {found : Outcome}

/-- No WELCOME has come, nor is one on its way through `dispatch`. -/
def Unwelcomed (s : Dialing) : Prop := s.welcomeCh.isNone ∧ ∀ callback ∈ s.callbacks, callback.putsWelcome = false

instance : Decidable s.Unwelcomed := inferInstanceAs (Decidable (_ ∧ _))

/-- From here `Dial` cannot succeed on a link that is closed now: it still depends on the link, or on a WELCOME that
has not come, or it is over. -/
def Spared (s : Dialing) : Prop := s.phase.linking ∨ s.phase.finished ∨ s.phase.greeting ∧ s.Unwelcomed

instance : Decidable s.Spared := inferInstanceAs (Decidable (_ ∨ _ ∨ _ ∧ _))

/-- The callback of the closed link takes the lock at a moment that spares `Dial`, and the link is of no use after. -/
def Timely (s : Dialing) : DialEvent → Prop
  | .dial found => s.phase.linking → found = .succeeds → s.client.state ≠ .disconnected
  | .run i => ∀ callback ∈ s.callbacks[i]?, callback.disconnects → s.Spared
  | _ => True

instance : (event : DialEvent) → Decidable (s.Timely event)
  | .dial _ => inferInstanceAs (Decidable (_ → _ → _))
  | .run _ => inferInstanceAs (Decidable (∀ _ ∈ _, _))
  | .linkClosed | .packet _ | .close => isTrue trivial

/-- A disconnected client stays so, and is not returned as connected. -/
def StaysDisconnected (u : Unicode) (parses : Option Value → Bool) (s : Dialing) (event : DialEvent) : Prop :=
  s.client.state = .disconnected →
    ∀ s', s.step u parses event = some s' →
      s'.client.state = .disconnected ∧ (s'.phase.succeeded → s.phase.succeeded)

theorem goOn_eq_some {next : DialPhase} {error : DialError}
    (stepped : s.goOn next error found = some s') :
    (found = .succeeds ∧ s' = { s with phase := next }) ∨
      (found = .fails ∧ s' = { s with phase := .returned (some error) }) := by
  cases found <;> simp_all [goOn, eq_comm]

/-- A call of the link that does not succeed ends `Dial`. -/
theorem dial_linking (linking : s.phase.linking = true) (failed : found ≠ .succeeds)
    (stepped : s.dial parses found = some s') : ∃ error, s' = { s with phase := .returned (some error) } := by
  have ends : ∀ next error, s.goOn next error found = some s' → s' = { s with phase := .returned (some error) } := by
    intro next error goes
    obtain ⟨succeeds, -⟩ | ⟨-, rfl⟩ := goOn_eq_some goes
    · exact absurd succeeds failed
    · rfl
  unfold dial at stepped
  split at stepped
  · exact ⟨_, ends _ _ stepped⟩
  · exact ⟨_, ends _ _ stepped⟩
  · exact ⟨_, ends _ _ stepped⟩
  all_goals simp_all [DialPhase.linking]

/-- Before a WELCOME has come `Dial` goes on to wait for it, or ends without. -/
theorem dial_greeting (greeting : s.phase.greeting = true) (unwelcomed : s.Unwelcomed)
    (stepped : s.dial parses found = some s') :
    s' = { s with phase := .awaitWelcome } ∨ ∃ error, s' = { s with phase := .returned (some error) } := by
  have empty : s.welcomeCh = none := Option.isNone_iff_eq_none.1 unwelcomed.1
  unfold dial at stepped
  split at stepped
  case h_5 =>
    obtain ⟨-, goes⟩ | ⟨-, fails⟩ := goOn_eq_some stepped
    · exact .inl goes
    · exact .inr ⟨_, fails⟩
  case h_6 =>
    cases found with
    | succeeds | fails => cases stepped
    | welcome => simp [select, empty] at stepped
    | timer =>
      cases stepped
      exact .inr ⟨_, rfl⟩
    | closed =>
      obtain ⟨-, taken⟩ := Option.ite_none_right_eq_some.1 stepped
      cases taken
      exact .inr ⟨_, rfl⟩
  all_goals simp_all [DialPhase.greeting]

/-- On a closed link `Dial` only moves towards an error. -/
theorem dial_disconnected (disconnected : s.client.state = .disconnected) (spared : s.Spared)
    (timely : s.Timely (.dial found)) (stepped : s.dial parses found = some s') :
    s'.client = s.client ∧ s'.Spared ∧ s'.phase.succeeded = false := by
  rcases spared with linking | finished | ⟨greeting, unwelcomed⟩
  · have failed : found ≠ .succeeds := fun succeeds => timely linking succeeds disconnected
    obtain ⟨error, rfl⟩ := dial_linking linking failed stepped
    exact ⟨rfl, .inr (.inl rfl), rfl⟩
  · unfold dial at stepped
    split at stepped
    case h_10 => cases stepped
    all_goals simp_all [DialPhase.finished]
  · obtain rfl | ⟨error, rfl⟩ := dial_greeting greeting unwelcomed stepped
    · exact ⟨rfl, .inr (.inr ⟨rfl, unwelcomed⟩), rfl⟩
    · exact ⟨rfl, .inr (.inl rfl), rfl⟩

/-- `Dial` itself never disconnects the client. -/
theorem dial_connected (connected : s.client.state ≠ .disconnected)
    (stepped : s.dial parses found = some s') : s'.client.state ≠ .disconnected := by
  have goes : ∀ next error, s.goOn next error found = some s' → s'.client.state ≠ .disconnected := by
    intro next error goes
    obtain ⟨-, rfl⟩ | ⟨-, rfl⟩ := goOn_eq_some goes <;> exact connected
  unfold dial at stepped
  split at stepped
  case h_6 =>
    cases found <;> simp [select] at stepped
    · obtain ⟨env, -, rfl⟩ := stepped
      exact connected
    · subst stepped
      exact connected
    · obtain ⟨-, rfl⟩ := stepped
      exact connected
  case h_10 => cases stepped
  case h_4 | h_8 =>
    cases stepped
    simp
  case h_7 | h_9 =>
    cases stepped
    exact connected
  all_goals exact goes _ _ stepped

/-- What a step of a callback does: only the callback of the closed link writes the state, and only `dispatch` lets a
WELCOME through. -/
theorem run_eq_some {i : Nat} (stepped : s.run u i = some s') :
    ∃ callback next, s.callbacks[i]? = some callback ∧ s'.phase = s.phase ∧
      s'.callbacks = s.callbacks.set i next ∧
      s'.client.state = (if callback.disconnects then .disconnected else s.client.state) ∧
      (next.putsWelcome → s'.client.state ≠ .disconnected) ∧
      (callback.putsWelcome = false → s'.welcomeCh = s.welcomeCh) := by
  obtain ⟨callback, present, stepped⟩ := Option.bind_eq_some_iff.1 stepped
  obtain ⟨⟨after, next⟩, ran, stepped⟩ := Option.bind_eq_some_iff.1 stepped
  cases stepped
  refine ⟨callback, next, present, ?_⟩
  cases callback with
  | done => cases ran
  | closeChannel | onLinkClosed | putWelcome env =>
    cases ran
    simp [ClientCallback.disconnects, ClientCallback.putsWelcome]
  | dispatch env =>
    cases ran
    refine ⟨rfl, rfl, by simp [ClientCallback.disconnects], ?_, fun _ => rfl⟩
    unfold route
    split
    · rename_i permitted
      intro _ disconnected
      simp [show s.client.state = .disconnected by simpa using disconnected] at permitted
    · simp [ClientCallback.putsWelcome]

/-- A spared `Dial` stays so whatever a callback does on a closed link. -/
theorem run_spared {i : Nat} (spared : s.Spared) (stepped : s.run u i = some s')
    (disconnected : s'.client.state = .disconnected) : s'.Spared := by
  obtain ⟨callback, next, present, phase, callbacks, -, puts, welcomes⟩ := run_eq_some stepped
  unfold Spared at spared ⊢
  rw [phase]
  refine spared.imp_right (Or.imp_right (And.imp_right fun unwelcomed => ⟨?_, ?_⟩))
  · rw [welcomes (unwelcomed.2 callback (List.mem_of_getElem? present))]
    exact unwelcomed.1
  · intro other member
    rw [callbacks] at member
    rcases List.mem_or_eq_of_mem_set member with old | rfl
    · exact unwelcomed.2 other old
    · exact Bool.eq_false_iff.2 fun lets => puts lets disconnected

theorem spared_spawn {callback : ClientCallback} (spared : s.Spared) (puts : callback.putsWelcome = false) :
    (s.spawn callback).Spared := by
  refine spared.imp_right (Or.imp_right (And.imp_right fun unwelcomed => ⟨unwelcomed.1, ?_⟩))
  simpa [spawn, or_imp, forall_and, puts] using unwelcomed.2

/-- Once the client is disconnected `Dial` is spared, and stays so. -/
theorem spared_step {event : DialEvent} (spared : s.client.state = .disconnected → s.Spared) (timely : s.Timely event)
    (stepped : s.step u parses event = some s') (disconnected : s'.client.state = .disconnected) : s'.Spared := by
  cases event with
  | dial found =>
    by_cases before : s.client.state = .disconnected
    · exact (dial_disconnected before (spared before) timely stepped).2.1
    · exact absurd disconnected (dial_connected before stepped)
  | linkClosed =>
    cases stepped
    exact spared_spawn (spared disconnected) rfl
  | packet env =>
    cases stepped
    exact spared_spawn (spared disconnected) rfl
  | close =>
    simp only [step] at stepped
    split at stepped
    · cases stepped
      exact spared_spawn (spared disconnected) rfl
    · cases stepped
  | run i =>
    refine run_spared ?_ stepped disconnected
    obtain ⟨callback, next, present, -, -, state, -⟩ := run_eq_some stepped
    by_cases disconnects : callback.disconnects
    · exact timely callback present disconnects
    · exact spared (by simpa [disconnects, disconnected] using state.symm)

theorem staysDisconnected {event : DialEvent} (spared : s.client.state = .disconnected → s.Spared)
    (timely : s.Timely event) : s.StaysDisconnected u parses event := by
  intro disconnected s' stepped
  cases event with
  | dial found =>
    obtain ⟨client, -, fails⟩ := dial_disconnected disconnected (spared disconnected) timely stepped
    exact ⟨client ▸ disconnected, fun succeeded => absurd succeeded (by simp [fails])⟩
  | linkClosed | packet env =>
    cases stepped
    exact ⟨disconnected, id⟩
  | close =>
    simp only [step] at stepped
    split at stepped
    · cases stepped
      exact ⟨disconnected, id⟩
    · cases stepped
  | run i =>
    obtain ⟨callback, next, -, phase, -, state, -⟩ := run_eq_some stepped
    exact ⟨by simpa [disconnected] using state, phase ▸ id⟩

/-- In every run in which the link is closed at moments that spare `Dial`, the disconnected state is final. -/
theorem disconnected_final (u : Unicode) (parses : Option Value → Bool) (sender : Bytes) (events : List DialEvent)
    (timely : Along (step u parses) Timely (start sender) events) :
    Along (step u parses) (StaysDisconnected u parses) (start sender) events :=
  Along.of_invariant (fun s event s' spared timely stepped => spared_step spared timely stepped)
    (fun s event spared timely => staysDisconnected spared timely)
    (fun disconnected => absurd disconnected (by simp [start])) timely

/-- A WELCOME without limits. -/
def plainWelcome : Envelope := { type := .welcome, msgID := [], timestamp := 0, sender := [] }

/-- `Dial` up to the WELCOME that waits in its channel. -/
def welcomed : List DialEvent :=
  [.dial .succeeds, .dial .succeeds, .dial .succeeds, .dial .succeeds, .dial .succeeds, .packet plainWelcome,
    .run 0, .run 0]

def lost : List DialEvent := [.linkClosed, .run 1, .run 1]

/-- `Dial` takes the WELCOME and returns. -/
def entered : List DialEvent := [.dial .welcome, .dial .succeeds, .dial .succeeds, .dial .succeeds]

theorem disconnected_final_after_return :
    Along (step asciiHub.unicode fun _ => true) Timely (start []) (welcomed ++ entered ++ lost) ∧
      Along (step asciiHub.unicode fun _ => true) (StaysDisconnected asciiHub.unicode fun _ => true) (start [])
        (welcomed ++ entered ++ lost) ∧
      ∃ s, runEvents (step asciiHub.unicode fun _ => true) (start []) (welcomed ++ entered ++ lost) = some s ∧
        s.phase.succeeded = true ∧ s.client.state = .disconnected := by
  have timely : Along (step asciiHub.unicode fun _ => true) Timely (start []) (welcomed ++ entered ++ lost) := by
    decide +kernel
  have reached : (runEvents (step asciiHub.unicode fun _ => true) (start []) (welcomed ++ entered ++ lost)).any
      (fun s => s.phase.succeeded && decide (s.client.state = .disconnected)) = true := by decide +kernel
  refine ⟨timely, disconnected_final _ _ _ _ timely, ?_⟩
  simpa [Option.any_eq_true] using reached

/-- The link is closed while the WELCOME waits: `Dial` makes the client active again and returns it. -/
theorem disconnected_client_returned :
    ∃ s s', runEvents (step asciiHub.unicode fun _ => true) (start []) (welcomed ++ lost) = some s ∧
      s.client.state = .disconnected ∧ s.phase.succeeded = false ∧
      runEvents (step asciiHub.unicode fun _ => true) s entered = some s' ∧
      s'.client.state = .active ∧ s'.phase.succeeded = true := by
  have reached : (runEvents (step asciiHub.unicode fun _ => true) (start []) (welcomed ++ lost)).any
      (fun s => decide (s.client.state = .disconnected) && !s.phase.succeeded &&
        (runEvents (step asciiHub.unicode fun _ => true) s entered).any fun s' =>
          decide (s'.client.state = .active) && s'.phase.succeeded) = true := by decide +kernel
  simp only [Option.any_eq_true, Bool.and_eq_true, decide_eq_true_eq, Bool.not_eq_true'] at reached
  obtain ⟨s, ran, ⟨disconnected, pending⟩, s', goes, active, succeeded⟩ := reached
  exact ⟨s, s', ran, disconnected, pending, goes, active, succeeded⟩

end Dialing

end ReticulumProtocols.Rrc
