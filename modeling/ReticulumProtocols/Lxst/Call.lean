import ReticulumProtocols.Concurrency.Program
import ReticulumProtocols.Wire.BigEndian

/-! A telephony call: its atomic fields, the sections under its mutex, and the goroutines that work on them. -/

namespace ReticulumProtocols.Lxst
open Wire Concurrency

inductive CallState where
  | idle | ringing | connecting | active | ended
  deriving DecidableEq

inductive CallError where
  | notActive | alreadyCall | noIdentity | remoteRequired | notRinging | notIncoming | invalidMode | pipelinesClosed
  | callEnded | waitFailed | answerRaced | blocked | rateLimited | invalidProfile | emptyPacket | send | codec
  | destination | establish
  deriving DecidableEq

def statusBusy : Int := 0x00
def statusRejected : Int := 0x01
def statusCalling : Int := 0x02
def statusAvailable : Int := 0x03
def statusRinging : Int := 0x04
def statusConnecting : Int := 0x05
def statusEstablished : Int := 0x06
def preferredMode : Int := 0xF0
def preferredProfile : Int := 0xFF
def modeFullDuplex : Int := 0x01
def modeHalfDuplex : Int := 0x02
def defaultMode : Int := modeFullDuplex
def defaultProfile : Int := 0x40
def maxUnpackBytes : Nat := 4096

def isAutoStatus (signal : Int) : Bool := statusCalling ≤ signal ∧ signal ≤ statusEstablished

def isPreferredProfile (signal : Int) : Bool := preferredProfile ≤ signal

def isPreferredMode (signal : Int) : Bool := preferredMode ≤ signal ∧ signal < preferredProfile

def profileFromSignal (signal : Int) : Int := signal - preferredProfile

def modeFromSignal (signal : Int) : Int := signal - preferredMode

def signalPreferredProfile (profile : Int) : Int := preferredProfile + if profile = 0 then defaultProfile else profile

def signalPreferredMode (mode : Int) : Int := preferredMode + if mode = 0 then defaultMode else mode

def knownProfile (profile : Int) : Bool := profile ∈ [0x10, 0x20, 0x30, 0x40, 0x50, 0x60, 0x70, 0x80]

def clampInt32 (v : Int) : Int := max (-2 ^ 31) (min v (2 ^ 31 - 1))

structure Packet where
  signals : List Int := []
  frames : List Bytes := []

inductive Flag where
  | incoming | answered | identified | squelched | modeFollowOff | txArmed
  deriving DecidableEq

inductive Number where
  | status | profile | callMode
  deriving DecidableEq

/-- The callbacks of a link that a call sets. -/
inductive LinkCallback where
  | established | identified | packet | closed
  deriving DecidableEq

inductive CallEvent where
  | ringing | answered | busy | rejected
  deriving DecidableEq

/-- The setup timers, by what they wait for. -/
inductive SetupTimer where
  | dial | connect | ring | identify
  deriving DecidableEq

def SetupTimer.reason : SetupTimer → String
  | dial => "call timeout"
  | connect => "connect timeout"
  | ring => "ring timeout"
  | identify => "identify timeout"

/-- What the codecs and the device are made for. -/
inductive Purpose where
  | answer | connecting | established | switching
  deriving DecidableEq

/-- What can fail on the way to open pipelines. -/
inductive Part where
  | encoder | decoder | device | deviceStart
  deriving DecidableEq

/-- What a section that opens or starts the pipelines finds. -/
inductive Found where
  | already | ended | closed | begun
  deriving DecidableEq

/-- What is run on a call: the methods its owner calls, the callbacks of its link, and what these start. -/
inductive CallEntry where
  | dial (remote : Bool)
  | serveIncoming
  | answer
  | reject (reason : String)
  | hangup (reason : String)
  | switchProfile (profile : Int)
  | switchMode (mode : Int)
  | squelch (on : Bool)
  | ptt (down : Bool)
  | disableRemoteModeFollow
  | established
  | identified
  | packet (data : Bytes)
  | linkClosed
  | timer (timer : SetupTimer)
  | resendAvailable
  | identifyIfStillConnecting
  | autoAnswer

/-- The atomic steps: loads, stores and swaps of the atomic fields, sections under the mutex, and calls that leave the
package. -/
inductive CallOp where
  | loadState
  | storeState (state : CallState)
  | casState (before after : CallState)
  | load (flag : Flag)
  | store (flag : Flag) (value : Bool)
  | claimIdentified
  | loadNumber (number : Number)
  | storeNumber (number : Number) (value : Int)
  | getLink
  | setLink (present : Bool)
  | register (callback : LinkCallback)
  | linkActive (signals : List Int)
  | sendPacket (signals : List Int)
  | identifyLink
  | newDestination
  | establish
  | teardown
  | lockSignals
  | unlockSignals
  | callerAllowed
  | limiterAllows
  | beginOpen
  | create (purpose : Purpose) (part : Part)
  | abortOpen
  | finishOpen
  | beginStart
  | installCodecs
  | closeEnded
  | takeCancel
  | clearPipelines
  | setEndErr (error : CallError)
  | notify (event : CallEvent)
  | onEnded (reason : String)
  | awaitActive
  | sleepEnded
  | timer (timer : SetupTimer)
  | nextFrameSeq
  | pushFrame (seq : UInt16) (frame : Bytes)
  | countFrame
  | enterAnswer
  | go (entry : CallEntry)

/-- How a wait for the active state ends. -/
inductive Awaited where
  | active | ended | gaveUp
  deriving DecidableEq

def Awaited.result : Awaited → Except CallError Unit
  | active => .ok ()
  | ended => .error .callEnded
  | gaveUp => .error .waitFailed

abbrev CallOp.Answer : CallOp → Type
  | loadState => CallState
  | casState .. | load _ | claimIdentified | getLink | linkActive _ | sendPacket _ | identifyLink | newDestination
  | establish | callerAllowed | limiterAllows | create .. | finishOpen | sleepEnded | timer _ => Bool
  | loadNumber _ => Int
  | beginOpen | beginStart => Found
  | awaitActive => Awaited
  | nextFrameSeq => UInt16
  | _ => Unit

structure Call where
  state : CallState := .idle
  flags : Flag → Bool
  numbers : Number → Int
  link : Bool := false
  registered : LinkCallback → Bool := fun _ => false
  sigHeld : Bool := false
  opened : Bool := false
  started : Bool := false
  encoder : Bool := false
  decoder : Bool := false
  device : Bool := false
  endedClosed : Bool := false
  endErr : Option CallError := none
  frameSeq : UInt16 := 0
  jitter : List (UInt16 × Bytes) := []
  recvCount : Nat := 0
  sent : List (List Int) := []
  /-- The reasons that `OnEnded` was called with. -/
  onEnded : List String := []
  /-- The threads that moved the call to the ended state; nothing reads it. -/
  endings : List Nat := []
  /-- The timers that fired while the call was active; nothing reads it. -/
  firedActive : List Nat := []
  /-- How often `Answer` was called; nothing reads it. -/
  answerCalls : Nat := 0

namespace Call
variable (call : Call)

def setState (thread : Nat) (state : CallState) : Call :=
  { call with state, endings := if state = .ended then thread :: call.endings else call.endings }

/-- What the section that opens the pipelines finds. -/
def foundOpen : Found := if call.opened then .already else if call.state = .ended then .ended else .begun

def foundStart : Found :=
  if call.started then .already
  else if call.state = .ended then .ended
  else if call.encoder then .begun
  else .closed

def clearPipelines : Call :=
  { call with encoder := false, decoder := false, device := false, opened := false, started := false }

/-- The call after an operation of a thread. The input says how a call that leaves the package turns out, which of two
channels a select takes, and whether a wait is given up. -/
def next (thread : Nat) (input : Bool) : CallOp → Call
  | .storeState state => call.setState thread state
  | .casState before after => if call.state = before then call.setState thread after else call
  | .store flag value => { call with flags := Function.update call.flags flag value }
  | .claimIdentified => { call with flags := Function.update call.flags .identified true }
  | .storeNumber number value => { call with numbers := Function.update call.numbers number value }
  | .setLink present => { call with link := present }
  | .register callback => { call with registered := Function.update call.registered callback true }
  | .sendPacket signals => if input then { call with sent := call.sent ++ [signals] } else call
  | .lockSignals => { call with sigHeld := true }
  | .unlockSignals => { call with sigHeld := false }
  | .beginOpen => if call.foundOpen = .begun then { call with opened := true } else call
  | .abortOpen => { call with opened := false }
  | .finishOpen =>
    if call.state = .ended then { call with opened := false }
    else { call with encoder := true, decoder := true, device := true }
  | .beginStart => if call.foundStart = .begun then { call with started := true } else call
  | .installCodecs => { call with encoder := true, decoder := true }
  | .closeEnded => { call with endedClosed := true }
  | .clearPipelines => call.clearPipelines
  | .setEndErr error => { call with endErr := some error }
  | .onEnded reason => { call with onEnded := call.onEnded ++ [reason] }
  | .timer _ =>
    if input ∧ call.state = .active then { call with firedActive := thread :: call.firedActive } else call
  | .nextFrameSeq => { call with frameSeq := call.frameSeq + 1 }
  | .pushFrame seq frame => { call with jitter := call.jitter ++ [(seq, frame)] }
  | .countFrame => { call with recvCount := call.recvCount + 1 }
  | .enterAnswer => { call with answerCalls := call.answerCalls + 1 }
  | _ => call

def reply (input : Bool) : (op : CallOp) → op.Answer
  | .loadState => call.state
  | .casState before _ => call.state = before
  | .load flag => call.flags flag
  | .claimIdentified => !call.flags .identified
  | .loadNumber number => call.numbers number
  | .getLink => call.link
  | .linkActive _ | .sendPacket _ | .identifyLink | .newDestination | .establish | .callerAllowed | .limiterAllows
  | .create .. | .timer _ => input
  | .beginOpen => call.foundOpen
  | .finishOpen => call.state ≠ .ended
  | .beginStart => call.foundStart
  | .awaitActive => if !input then .gaveUp else if call.state = .active then .active else .ended
  | .sleepEnded => call.endedClosed
  | .nextFrameSeq => call.frameSeq + 1
  | .storeState _ | .store .. | .storeNumber .. | .setLink _ | .register _ | .teardown | .lockSignals | .unlockSignals
  | .abortOpen | .installCodecs | .closeEnded | .takeCancel | .clearPipelines | .setEndErr _ | .notify _ | .onEnded _
  | .pushFrame .. | .countFrame | .enterAnswer | .go _ => ()

/-- The operation has to wait. -/
def waits (input : Bool) : CallOp → Bool
  | .lockSignals => call.sigHeld
  | .awaitActive => input ∧ call.state ≠ .active ∧ call.state ≠ .ended
  | .timer _ => !input ∧ !call.endedClosed
  | _ => false

end Call

def CallOp.forks : CallOp → List CallEntry
  | go entry => [entry]
  | _ => []

def Call.perform (call : Call) (thread : Nat) (input : Bool) (op : CallOp) :
    Option (Call × op.Answer × List CallEntry) :=
  if call.waits input op then none else some (call.next thread input op, call.reply input op, op.forks)

def CallOp.nextState : CallOp → CallState → CallState
  | storeState next, _ => next
  | casState before after, state => if state = before then after else state
  | _, state => state

/-- The operation moves the call to the ended state, or stores it anew. -/
def CallOp.ends : CallOp → CallState → Bool
  | storeState next, _ => next = .ended
  | casState before after, state => state = before ∧ after = .ended
  | _, _ => false

def CallOp.reports : CallOp → List String
  | onEnded reason => [reason]
  | _ => []

namespace Call
variable {call call' : Call} {i : Nat} {input : Bool} {op : CallOp}

theorem perform_eq_some {answer : op.Answer} {forked : List CallEntry}
    (performed : call.perform i input op = some (call', answer, forked)) :
    call' = call.next i input op ∧ answer = call.reply input op ∧ forked = op.forks := by
  obtain ⟨-, same⟩ := Option.ite_none_left_eq_some.1 performed
  cases same
  exact ⟨rfl, rfl, rfl⟩

theorem state_next : (call.next i input op).state = op.nextState call.state := by
  cases op <;> simp only [next, CallOp.nextState] <;> first | rfl | (split <;> rfl)

theorem endings_next :
    (call.next i input op).endings = if op.ends call.state then i :: call.endings else call.endings := by
  cases op with
  | storeState state => simp [next, setState, CallOp.ends]
  | casState before after => by_cases here : call.state = before <;> simp [next, setState, CallOp.ends, here]
  | _ => simp only [next, CallOp.ends]; first | rfl | (split <;> rfl)

theorem onEnded_next : (call.next i input op).onEnded = call.onEnded ++ op.reports := by
  cases op <;> simp [next, setState, clearPipelines, CallOp.reports] <;> split <;> rfl

end Call

/-- The settings of a call that its code reads: its identity is set, it answers by itself, a timer has a positive
duration, its profile and mode, and how packets are decoded. -/
structure CallConfig where
  identity : Bool := true
  autoAnswer : Bool := false
  lasts : SetupTimer → Bool := fun _ => true
  profile : Int := defaultProfile
  mode : Int := defaultMode
  unpack : Bytes → Option Packet

abbrev CallProgram := Program CallOp CallOp.Answer

namespace CallProgram

abbrev once (op : CallOp) : CallProgram op.Answer := Program.once op

variable (c : CallConfig)

def applyProfile (profile : Int) : CallProgram Unit :=
  once (.storeNumber .profile (clampInt32 (if profile = 0 then defaultProfile else profile)))

/-- The loop of `sendSignals` that raises the status. -/
def raiseStatus : List Int → CallProgram Unit
  | [] => pure ()
  | signal :: signals => do
    if isAutoStatus signal then
      let status ← once (.loadNumber .status)
      if status ≤ signal then once (.storeNumber .status (clampInt32 signal)) else pure ()
    else pure ()
    raiseStatus signals

def sendSignals (signals : List Int) : CallProgram (Except CallError Unit) := do
  if ← once .getLink then
    if ← once (.linkActive signals) then
      raiseStatus signals
      if signals = [] then pure (.error .emptyPacket)
      else if ← once (.sendPacket signals) then pure (.ok ())
      else pure (.error .send)
    else pure (.error .notActive)
  else pure (.error .notActive)

def armTimeout (timer : SetupTimer) : CallProgram Unit :=
  if c.lasts timer then once (.go (.timer timer)) else pure ()

/-- What `end` does once the state has been moved. -/
def release (reason : String) : CallProgram Unit := do
  once (.storeNumber .status statusAvailable)
  once .takeCancel
  let link ← once .getLink
  once .clearPipelines
  if link then
    if ← once (.linkActive []) then once .teardown else pure ()
  else pure ()
  once (.onEnded reason)

/-- `end`. -/
def endCall (reason : String) : CallProgram Unit := do
  once .closeEnded
  if ← once (.casState .active .ended) then release reason
  else if ← once (.casState .ringing .ended) then release reason
  else if ← once (.casState .connecting .ended) then release reason
  else if (← once .loadState) = .ended then pure ()
  else do
    once (.storeState .ended)
    release reason

def stillWaiting : SetupTimer → CallProgram Bool
  | .dial | .ring => do return decide ((← once (.loadNumber .status)) < statusEstablished)
  | .connect => do return decide ((← once (.loadNumber .status)) < statusRinging)
  | .identify => do
    if ← once (.load .incoming) then return decide ((← once .loadState) = .connecting) else pure false

/-- The rest of a timer that is still waiting. -/
def expire (timer : SetupTimer) : CallProgram Unit := do
  if (← once .loadState) = .ended then pure ()
  else if (← once .loadState) = .idle then pure ()
  else endCall timer.reason

/-- The goroutine of `armTimeout`. -/
def timeout (timer : SetupTimer) : CallProgram Unit := do
  if ← once (.timer timer) then
    if ← stillWaiting timer then expire timer else pure ()
  else pure ()

def dial (remote : Bool) : CallProgram (Except CallError Unit) := do
  if !remote then pure (.error .remoteRequired)
  else if !c.identity then pure (.error .noIdentity)
  else if ← once (.casState .idle .connecting) then
    once (.store .incoming false)
    once (.storeNumber .status statusCalling)
    if ← once .newDestination then
      once (.register .established)
      once (.register .closed)
      once (.register .packet)
      once (.setLink true)
      if ← once .establish then
        armTimeout c .dial
        return (← once .awaitActive).result
      else
        once (.storeState .idle)
        once (.setLink false)
        pure (.error .establish)
    else
      once (.storeState .idle)
      pure (.error .destination)
  else pure (.error .alreadyCall)

def serveIncoming : CallProgram (Except CallError Unit) := do
  if ← once (.casState .idle .connecting) then
    once (.store .incoming true)
    once (.setLink true)
    once (.register .packet)
    once (.register .identified)
    once (.register .closed)
    once (.storeNumber .status statusAvailable)
    match ← sendSignals [statusAvailable] with
    | .error error =>
      once (.storeState .idle)
      once (.setLink false)
      pure (.error error)
    | .ok () =>
      once (.go .resendAvailable)
      armTimeout c .identify
      pure (.ok ())
  else pure (.error .alreadyCall)

/-- The codecs and the device of `openPipelines`, one after the other; the first that fails gives up the rest. -/
def createParts (purpose : Purpose) : List Part → CallProgram Bool
  | [] => pure true
  | part :: parts => do
    if ← once (.create purpose part) then createParts purpose parts
    else
      once .abortOpen
      pure false

def openPipelines (purpose : Purpose) : CallProgram (Except CallError Unit) := do
  let found ← once .beginOpen
  if found = .already then pure (.ok ())
  else if found = .ended then pure (.error .notActive)
  else if ← createParts purpose [.encoder, .decoder, .device, .deviceStart] then
    if ← once .finishOpen then
      if ← once (.load .incoming) then pure (.ok ())
      else
        let _ ← sendSignals [statusEstablished]
        pure (.ok ())
    else pure (.error .notActive)
  else pure (.error .codec)

def setSquelchState (on : Bool) : CallProgram Unit := do
  if (← once (.load .squelched)) = on then pure () else once (.store .squelched on)

def applyModeSquelch : CallProgram Unit := do
  setSquelchState (decide ((← once (.loadNumber .callMode)) = modeHalfDuplex))

def startPipelines : CallProgram (Except CallError Unit) := do
  let found ← once .beginStart
  if found = .already then pure (.ok ())
  else if found = .ended then pure (.error .notActive)
  else if found = .closed then pure (.error .pipelinesClosed)
  else
    applyModeSquelch
    pure (.ok ())

def establishAnswer : CallProgram (Except CallError Unit) := do
  once (.storeNumber .status statusEstablished)
  match ← startPipelines with
  | .error error =>
    endCall "pipeline start failed"
    pure (.error error)
  | .ok () =>
    match ← sendSignals [statusEstablished] with
    | .error error =>
      endCall "establish failed"
      pure (.error error)
    | .ok () =>
      once (.store .txArmed true)
      once (.notify .answered)
      pure (.ok ())

/-- `Answer` once the flag is set. -/
def acceptCall : CallProgram (Except CallError Unit) := do
  match ← sendSignals [statusConnecting] with
  | .error error => pure (.error error)
  | .ok () =>
    match ← openPipelines .answer with
    | .error error => pure (.error error)
    | .ok () =>
      if ← once (.casState .ringing .active) then establishAnswer
      else
        endCall "answer raced hangup"
        pure (.error .answerRaced)

def answer : CallProgram (Except CallError Unit) := do
  once .enterAnswer
  if (← once .loadState) = .ringing then
    if ← once (.load .incoming) then
      once (.store .answered true)
      acceptCall
    else pure (.error .notIncoming)
  else pure (.error .notRinging)

def reject (reason : String) : CallProgram (Except CallError Unit) := do
  if (← once .loadState) = .ringing then
    if ← once (.load .incoming) then
      let _ ← sendSignals [statusRejected]
      endCall (if reason = "" then "rejected" else reason)
    else endCall (if reason = "" then "rejected" else reason)
    pure (.ok ())
  else pure (.error .notRinging)

def hangup (reason : String) : CallProgram Unit := do
  let state ← once .loadState
  if state = .idle ∨ state = .ended then pure ()
  else do
    if ← once (.load .incoming) then
      if state = .ringing then
        if ← once (.load .answered) then pure ()
        else
          let _ ← sendSignals [statusRejected]
          pure ()
      else pure ()
    else pure ()
    endCall reason

/-- `switchProfile`; both codecs are made before either is put in place. -/
def switchCodecs (profile : Int) : CallProgram (Except CallError Unit) := do
  if (← once .loadState) = .active then
    if ← once (.create .switching .encoder) then
      if ← once (.create .switching .decoder) then
        applyProfile profile
        once .installCodecs
        pure (.ok ())
      else pure (.error .codec)
    else pure (.error .codec)
  else
    applyProfile profile
    pure (.ok ())

def switchProfile (profile : Int) : CallProgram (Except CallError Unit) := do
  let profile := if profile = 0 then defaultProfile else profile
  if knownProfile profile then
    if (← once .loadState) = .active then
      match ← switchCodecs profile with
      | .error error => pure (.error error)
      | .ok () => sendSignals [signalPreferredProfile profile]
    else
      applyProfile profile
      pure (.ok ())
  else pure (.error .invalidProfile)

def switchMode (mode : Int) : CallProgram (Except CallError Unit) := do
  if mode = modeFullDuplex ∨ mode = modeHalfDuplex then
    once (.storeNumber .callMode mode)
    if (← once .loadState) = .active then
      setSquelchState (decide (mode = modeHalfDuplex))
      sendSignals [signalPreferredMode mode]
    else
      once (.store .squelched (decide (mode = modeHalfDuplex)))
      pure (.ok ())
  else pure (.error .invalidMode)

/-- `Squelch`, and `PTT` with the key up. -/
def squelch (on : Bool) : CallProgram Unit := do
  if (← once .loadState) = .active then setSquelchState on else pure ()

/-- `resendAvailableUntilIdentified` with so many rounds to go. -/
def resendAvailable : Nat → CallProgram Unit
  | 0 => pure ()
  | rounds + 1 => do
    if ← once .sleepEnded then pure ()
    else if ← once (.load .incoming) then
      if (← once .loadState) = .connecting then
        if statusRinging ≤ (← once (.loadNumber .status)) then pure ()
        else
          let _ ← sendSignals [statusAvailable]
          resendAvailable rounds
      else pure ()
    else pure ()

def identifyOnce : CallProgram Unit := do
  if ← once (.load .incoming) then pure ()
  else if !c.identity then pure ()
  else if statusRinging ≤ (← once (.loadNumber .status)) then pure ()
  else if ← once .getLink then
    if ← once (.linkActive []) then
      if ← once .claimIdentified then
        if ← once .identifyLink then pure () else once (.store .identified false)
      else pure ()
    else pure ()
  else pure ()

/-- The loop of `identifyIfStillConnecting`. -/
def identifyRounds : Nat → CallProgram Unit
  | 0 => pure ()
  | rounds + 1 => do
    if (← once .loadState) = .connecting then
      if statusRinging ≤ (← once (.loadNumber .status)) then pure ()
      else do
        identifyOnce c
        if ← once (.load .identified) then pure ()
        else if ← once .sleepEnded then pure ()
        else identifyRounds rounds
    else pure ()

def identifyIfStillConnecting : CallProgram Unit := do
  if ← once .sleepEnded then pure () else identifyRounds c 8

def onOutgoingEstablished : CallProgram Unit := do
  once (.setLink true)
  once (.register .packet)
  once (.register .closed)
  armTimeout c .connect
  once (.go .identifyIfStillConnecting)

def rejectIncoming (error : CallError) (reason : String) : CallProgram Unit := do
  once (.setEndErr error)
  once (.notify .busy)
  let _ ← sendSignals [statusBusy]
  endCall reason

def onIdentified : CallProgram Unit := do
  if ← once (.load .incoming) then
    if ← once .callerAllowed then
      if ← once .limiterAllows then
        if ← once (.casState .connecting .ringing) then
          once (.storeNumber .status statusRinging)
          let _ ← sendSignals [statusRinging]
          once (.notify .ringing)
          if c.autoAnswer then once (.go .autoAnswer) else pure ()
          armTimeout c .ring
        else pure ()
      else rejectIncoming .rateLimited "rate limited"
    else rejectIncoming .blocked "caller blocked"
  else pure ()

def autoAnswer : CallProgram Unit := do
  if ← once .sleepEnded then pure ()
  else
    let _ ← answer
    pure ()

def onLinkClosed : CallProgram Unit := do
  if ← once (.load .incoming) then pure ()
  else if (← once .loadState) = .ringing then once (.notify .rejected)
  else pure ()
  endCall "link closed"

def signalBusy : CallProgram Unit := do
  once (.notify .busy)
  endCall "busy"

def signalRejected : CallProgram Unit := do
  once (.notify .rejected)
  endCall "rejected"

/-- `signalRinging` of a call that is ringing. -/
def preferences : CallProgram Unit := do
  applyProfile (← once (.loadNumber .profile))
  let profile ← once (.loadNumber .profile)
  let mode ← once (.loadNumber .callMode)
  let _ ← sendSignals [signalPreferredProfile profile, signalPreferredMode mode]
  once (.notify .ringing)

def signalRinging : CallProgram Unit := do
  once (.storeNumber .status statusRinging)
  if ← once (.casState .connecting .ringing) then preferences
  else if (← once .loadState) = .ringing then preferences
  else pure ()

def signalConnecting : CallProgram Unit := do
  once (.storeNumber .status statusConnecting)
  if ← once (.load .incoming) then pure ()
  else
    let _ ← openPipelines .connecting
    pure ()

/-- `signalEstablished` of an outgoing call after the swaps. -/
def startMedia (became : Bool) : CallProgram Unit := do
  if became then once (.storeNumber .status statusEstablished) else pure ()
  once (.store .txArmed true)
  let _ ← startPipelines
  if became then once (.notify .answered) else pure ()

def signalEstablished : CallProgram Unit := do
  if ← once (.load .incoming) then once (.storeNumber .status statusEstablished)
  else
    let _ ← openPipelines .established
    if ← once (.casState .ringing .active) then startMedia true
    else startMedia (← once (.casState .connecting .active))

def applyPreferredProfile (signal : Int) : CallProgram Unit := do
  let profile := if profileFromSignal signal = 0 then defaultProfile else profileFromSignal signal
  if knownProfile profile then
    if (← once .loadState) = .active then
      let _ ← switchCodecs profile
      pure ()
    else applyProfile profile
  else pure ()

def applyPreferredMode (signal : Int) : CallProgram Unit := do
  if ← once (.load .modeFollowOff) then pure ()
  else
    let mode := modeFromSignal signal
    if mode = modeFullDuplex ∨ mode = modeHalfDuplex then
      once (.storeNumber .callMode mode)
      if (← once .loadState) = .active then setSquelchState (decide (mode = modeHalfDuplex))
      else once (.store .squelched (decide (mode = modeHalfDuplex)))
    else pure ()

/-- `handleSignal` of a signal that is not ignored. -/
def followSignal (signal : Int) : CallProgram Unit :=
  if signal = statusBusy then signalBusy
  else if signal = statusRejected then signalRejected
  else if signal = statusAvailable then do
    once (.storeNumber .status signal)
    identifyOnce c
  else if signal = statusRinging then signalRinging
  else if signal = statusConnecting then signalConnecting
  else if signal = statusEstablished then signalEstablished
  else if isPreferredProfile signal then applyPreferredProfile signal
  else if isPreferredMode signal then applyPreferredMode signal
  else pure ()

def handleSignal (signal : Int) : CallProgram Unit := do
  if ← once (.load .incoming) then
    if ← once (.load .answered) then followSignal c signal
    else if signal < preferredMode then pure ()
    else followSignal c signal
  else followSignal c signal

/-- The loop of `handleSignals`. -/
def handleEach : List Int → CallProgram Unit
  | [] => pure ()
  | signal :: signals => do
    handleSignal c signal
    handleEach signals

def handleSignals (signals : List Int) : CallProgram Unit := do
  once .lockSignals
  handleEach c signals
  once .unlockSignals

/-- `handleFrame` of a frame that is not dropped for an unanswered call. -/
def takeFrame (frame : Bytes) : CallProgram Unit := do
  let state ← once .loadState
  if state = .idle ∨ state = .ended then pure ()
  else if frame.length < 1 then pure ()
  else
    let seq ← once .nextFrameSeq
    once (.pushFrame seq frame)
    once .countFrame

def handleFrame (frame : Bytes) : CallProgram Unit := do
  if ← once (.load .incoming) then
    if ← once (.load .answered) then takeFrame frame else pure ()
  else takeFrame frame

def handleFrames : List Bytes → CallProgram Unit
  | [] => pure ()
  | frame :: frames => do
    handleFrame frame
    handleFrames frames

def onPacket (data : Bytes) : CallProgram Unit :=
  if maxUnpackBytes < data.length then pure ()
  else
    match c.unpack data with
    | none => pure ()
    | some packet => do
      if packet.signals = [] then pure () else handleSignals c packet.signals
      handleFrames packet.frames

/-- The program drops the result. -/
def forget {α : Type} (program : CallProgram α) : CallProgram Unit := do
  let _ ← program
  pure ()

def ofEntry : CallEntry → CallProgram Unit
  | .dial remote => forget (dial c remote)
  | .serveIncoming => forget (serveIncoming c)
  | .answer => forget answer
  | .reject reason => forget (reject reason)
  | .hangup reason => hangup reason
  | .switchProfile profile => forget (switchProfile profile)
  | .switchMode mode => forget (switchMode mode)
  | .squelch on => squelch on
  | .ptt down => squelch (!down)
  | .disableRemoteModeFollow => once (.store .modeFollowOff true)
  | .established => onOutgoingEstablished c
  | .identified => onIdentified c
  | .packet data => onPacket c data
  | .linkClosed => onLinkClosed
  | .timer timer => timeout timer
  | .resendAvailable => resendAvailable 25
  | .identifyIfStillConnecting => identifyIfStillConnecting c
  | .autoAnswer => autoAnswer

end CallProgram

/-- The link runs the callbacks that were set; the goroutines of the call are started by its own code. -/
def Call.opens (call : Call) : CallEntry → Bool
  | .established => call.registered .established
  | .identified => call.registered .identified
  | .packet _ => call.registered .packet
  | .linkClosed => call.registered .closed
  | .timer _ | .resendAvailable | .identifyIfStillConnecting | .autoAnswer => false
  | _ => true

def CallConfig.behaviour (c : CallConfig) : Behaviour Call CallOp CallOp.Answer CallEntry Bool where
  opens := Call.opens
  program := CallProgram.ofEntry c
  perform := Call.perform

abbrev CallThreads := Threads Call CallOp CallOp.Answer

def CallConfig.newCall (c : CallConfig) : Call where
  flags
    | .squelched => decide (c.mode = modeHalfDuplex)
    | _ => false
  numbers
    | .status => statusAvailable
    | .profile => clampInt32 (if c.profile = 0 then defaultProfile else c.profile)
    | .callMode => clampInt32 c.mode

end ReticulumProtocols.Lxst
