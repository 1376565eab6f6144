import ReticulumProtocols.Lxst.Footprint
import ReticulumProtocols.Wire.Sha256
import ReticulumProtocols.Wire.Text

/-! The switchboard of a phone: the calls it has made, the one it is occupied with, and the code that comes to it from
links, from `Phone.Dial` and from the session above it. -/

namespace ReticulumProtocols.Lxst
open Wire Concurrency

/-- `unicode.IsSpace`. -/
def isSpace (r : Char) : Bool :=
  (9 ≤ r.toNat ∧ r.toNat ≤ 13) ∨ (0x2000 ≤ r.toNat ∧ r.toNat ≤ 0x200a) ∨
    r.toNat ∈ [0x20, 0x85, 0xa0, 0x1680, 0x2028, 0x2029, 0x202f, 0x205f, 0x3000]

def trimSpace (s : List Char) : List Char := ((s.dropWhile isSpace).reverse.dropWhile isSpace).reverse

def decodeHashHex (s : List Char) : Option Bytes :=
  let s := trimSpace s
  let s := if 2 ≤ s.length ∧ s.head? = some '<' ∧ s.getLast? = some '>' then (s.drop 1).dropLast else s
  let digits := s.filter fun c => !(c = ':' ∨ c = ' ' ∨ c = '-')
  if digits = [] ∨ 128 < digits.length ∨ digits.any (fun c => 128 ≤ c.toNat) then none
  else Text.decodeHex (digits.map fun c => UInt8.ofNat c.toNat)

def identityHashLen : Nat := 16
def destHashLen : Nat := 16
def appHashPrefixLen : Nat := 10

def parseHash (s : List Char) : Option Bytes :=
  (decodeHashHex s).filter fun raw => raw.length = identityHashLen ∨ raw.length = destHashLen

def destHash (identityHash : Bytes) (name : String) : Bytes :=
  (Sha256.sha256 ((Sha256.sha256 (Text.ascii name)).take appHashPrefixLen ++ identityHash)).take destHashLen

def telephonyHash (identityHash : Bytes) : Bytes := destHash identityHash "lxst.telephony"

/-- The test of `AnswerHash`. -/
def isCaller (raw identityHash : Bytes) : Bool := raw = identityHash ∨ raw = telephonyHash identityHash

/-- What comes to a switchboard: links that were established, the methods of the phone and of the session, the identity
that a link learns, and what is run on a single call. -/
inductive BoardEntry where
  | inbound
  | dial (remote : Bool)
  | setBusy (busy : Bool)
  /-- `Info`, as `emitState` calls it. -/
  | info
  /-- A method of the session that passes to the active call. -/
  | onActive (entry : CallEntry)
  | answerHash (want : List Char)
  | identify (i : Nat) (identityHash : Bytes)
  | call (i : Nat) (entry : CallEntry)

/-- The atomic steps: those of a call, sections under the mutex of the switchboard, and calls that leave the package. -/
inductive BoardOp where
  | call (i : Nat) (op : CallOp)
  | busy
  | newCall
  | occupy (i : Nat) (inbound : Bool)
  | release (i : Nat)
  /-- `Active`; the second one of `AnswerHash` comes after the check of a call. -/
  | active (checked : Option Nat)
  | setBusy (busy : Bool)
  | rejectBusy
  | handler (i : Nat)
  | remoteIdentity (i : Nat)
  | identify (i : Nat) (identityHash : Bytes)
  | enterAnswerHash (want : List Char)

abbrev BoardOp.Answer : BoardOp → Type
  | call _ op => op.Answer
  | busy | occupy .. | identify .. => Bool
  | newCall => Nat
  | active _ => Option Nat
  | remoteIdentity _ => Option Bytes
  | _ => Unit

/-- A call in one of the states that keep its switchboard busy. -/
def Call.live (call : Call) : Bool := call.state = .connecting ∨ call.state = .ringing ∨ call.state = .active

structure Board where
  calls : Nat → Call
  /-- How many calls have been made. -/
  count : Nat := 0
  active : Option Nat := none
  forcedBusy : Bool := false
  /-- The identities that the links of the calls have learnt. -/
  identities : Nat → Option Bytes := fun _ => none
  /-- The threads that made the calls; nothing reads it. -/
  owner : Nat → Nat := fun _ => 0
  /-- The calls that were set up, or failed to be; nothing reads it. -/
  started : Nat → Bool := fun _ => false
  /-- The inbound callbacks that came to a check while a call was live; nothing reads it. -/
  met : List Nat := []
  /-- The inbound callbacks that answered busy; nothing reads it. -/
  answeredBusy : List Nat := []
  /-- What the threads in `AnswerHash` want; nothing reads it. -/
  wants : Nat → Option (List Char) := fun _ => none
  /-- The calls that such threads answered; nothing reads it. -/
  answered : List (List Char × Nat) := []

namespace Board
variable (board : Board)

/-- The call that occupies the switchboard, unless it is idle or has ended. -/
def occupant : Option Nat :=
  board.active.filter fun i => !((board.calls i).state = .idle ∨ (board.calls i).state = .ended)

/-- `busyLocked`: what it answers and the switchboard it leaves behind. -/
def busyLocked : Bool × Board :=
  (board.forcedBusy || board.occupant.isSome,
    { board with active := if board.forcedBusy then board.active else board.occupant })

def occupy (i : Nat) : Bool × Board :=
  (!board.busyLocked.1, { board with active := if board.busyLocked.1 then board.busyLocked.2.active else some i })

def release (i : Nat) : Board := { board with active := if board.active = some i then none else board.active }

def anyLive : Bool := (List.range board.count).any fun i => (board.calls i).live

def noteMet (thread : Nat) : Board :=
  { board with met := if board.anyLive then thread :: board.met else board.met }

def noteCall (thread i : Nat) (op : CallOp) : Board :=
  { board with
    started :=
      match op with
      | .casState .idle .connecting => Function.update board.started i true
      | _ => board.started
    answered :=
      match op, board.wants thread with
      | .store .answered true, some want => (want, i) :: board.answered
      | _, _ => board.answered }

def next (thread : Nat) (input : Bool) : BoardOp → Board
  | .call i op =>
    { board.noteCall thread i op with
      calls := Function.update board.calls i ((board.calls i).next thread input op) }
  | .busy => (board.noteMet thread).busyLocked.2
  | .newCall => { board with count := board.count + 1, owner := Function.update board.owner board.count thread }
  | .occupy i true => ((board.noteMet thread).occupy i).2
  | .occupy i false => (board.occupy i).2
  | .release i => board.release i
  | .active _ => { board with active := board.occupant }
  | .setBusy busy => { board with forcedBusy := busy }
  | .rejectBusy => { board with answeredBusy := thread :: board.answeredBusy }
  | .identify i identityHash =>
    { board with
      identities :=
        if (board.identities i).isSome then board.identities
        else Function.update board.identities i (some identityHash) }
  | .enterAnswerHash want => { board with wants := Function.update board.wants thread (some want) }
  | .handler _ | .remoteIdentity _ => board

def reply (input : Bool) : (op : BoardOp) → op.Answer
  | .call i op => (board.calls i).reply input op
  | .busy => board.busyLocked.1
  | .newCall => board.count
  | .occupy i _ => (board.occupy i).1
  | .active _ => board.occupant
  | .remoteIdentity i => board.identities i
  | .identify i _ => (board.identities i).isNone ∧ (board.calls i).registered .identified
  | .release _ | .setBusy _ | .rejectBusy | .handler _ | .enterAnswerHash _ => ()

/-- The operation has to wait; calls that were not made have none. -/
def waits (input : Bool) : BoardOp → Bool
  | .call i op => board.count ≤ i ∨ (board.calls i).waits input op
  | _ => false

end Board

def BoardOp.forks : BoardOp → List BoardEntry
  | call i op => op.forks.map (.call i)
  | _ => []

def Board.perform (board : Board) (thread : Nat) (input : Bool) (op : BoardOp) :
    Option (Board × op.Answer × List BoardEntry) :=
  if board.waits input op then none else some (board.next thread input op, board.reply input op, op.forks)

theorem Board.perform_eq_some {board board' : Board} {i : Nat} {input : Bool} {op : BoardOp} {answer : op.Answer}
    {forked : List BoardEntry} (performed : board.perform i input op = some (board', answer, forked)) :
    board.waits input op = false ∧ board' = board.next i input op ∧ answer = board.reply input op ∧
      forked = op.forks := by
  obtain ⟨waits, same⟩ := Option.ite_none_left_eq_some.1 performed
  cases same
  exact ⟨Bool.eq_false_iff.2 waits, rfl, rfl, rfl⟩

abbrev BoardProgram := Program BoardOp BoardOp.Answer

namespace BoardProgram

abbrev once (op : BoardOp) : BoardProgram op.Answer := Program.once op

/-- Code of call `i`. `Occupy` has put `Release` before its `OnEnded`. -/
def onCall {α : Type} (i : Nat) : CallProgram α → BoardProgram α
  | .pure result => .pure result
  | .perform (.onEnded reason) next =>
    .perform (.release i) fun _ => .perform (.call i (.onEnded reason)) fun answer => onCall i (next answer)
  | .perform op next => .perform (.call i op) fun answer => onCall i (next answer)

variable (configs : Nat → CallConfig)

/-- The callback of `Bind`. -/
def inbound : BoardProgram Unit := do
  if ← once .busy then once .rejectBusy
  else
    let i ← once .newCall
    if ← once (.occupy i true) then
      match ← onCall i (CallProgram.serveIncoming (configs i)) with
      | .error _ =>
        once (.release i)
        once (.call i .teardown)
      | .ok () => once (.handler i)
    else once .rejectBusy

/-- `Phone.Dial`. -/
def dial (remote : Bool) : BoardProgram Unit := do
  let i ← once .newCall
  if ← once (.occupy i false) then
    match ← onCall i (CallProgram.dial (configs i) remote) with
    | .error _ =>
      onCall i (CallProgram.hangup "dial failed")
      once (.release i)
    | .ok () => pure ()
  else pure ()

def onActive (entry : CallEntry) : BoardProgram Unit := do
  match ← once (.active none) with
  | none => pure ()
  | some i => onCall i (CallProgram.ofEntry (configs i) entry)

/-- `Session.Answer` at the end of `AnswerHash`. -/
def answerChecked (i : Nat) : BoardProgram Unit := do
  match ← once (.active (some i)) with
  | none => pure ()
  | some j => onCall j (CallProgram.ofEntry (configs j) .answer)

def answerHash (want : List Char) : BoardProgram Unit := do
  once (.enterAnswerHash want)
  match ← once (.active none) with
  | none => pure ()
  | some i =>
    match parseHash want with
    | none => pure ()
    | some raw =>
      if ← once (.call i .getLink) then
        match ← once (.remoteIdentity i) with
        | none => pure ()
        | some identityHash => if isCaller raw identityHash then answerChecked configs i else pure ()
      else pure ()

/-- The link of a call learns the identity of the other side, once, and runs the callback that is set. -/
def identify (i : Nat) (identityHash : Bytes) : BoardProgram Unit := do
  if ← once (.identify i identityHash) then onCall i (CallProgram.onIdentified (configs i)) else pure ()

def ofEntry : BoardEntry → BoardProgram Unit
  | .inbound => inbound configs
  | .dial remote => dial configs remote
  | .setBusy busy => once (.setBusy busy)
  | .info => do
    let _ ← once (.active none)
    pure ()
  | .onActive entry => onActive configs entry
  | .answerHash want => answerHash configs want
  | .identify i identityHash => identify configs i identityHash
  | .call i entry => onCall i (CallProgram.ofEntry (configs i) entry)

end BoardProgram

namespace BoardProgram
variable {α β : Type} {i : Nat}

@[simp]
theorem onCall_onEnded (reason : String) :
    onCall (α := Unit) i (CallProgram.once (.onEnded reason)) = .perform (.release i) fun _ => once (.call i (.onEnded reason)) := rfl

theorem onCall_perform {op : CallOp} {next : op.Answer → CallProgram α} (other : ∀ reason, op ≠ .onEnded reason) :
    onCall i (.perform op next) = .perform (.call i op) fun answer => onCall i (next answer) := by
  cases op <;> first | rfl | exact absurd rfl (other _)

theorem onCall_bind (program : CallProgram α) (f : α → CallProgram β) :
    onCall i (program >>= f) = onCall i program >>= fun result => onCall i (f result) := by
  induction program with
  | pure result => rfl
  | perform op next ih =>
    by_cases ends : ∃ reason, op = .onEnded reason
    · obtain ⟨reason, rfl⟩ := ends
      simp [onCall, ih]
    · rw [not_exists] at ends
      rw [Program.perform_bind, onCall_perform ends, onCall_perform ends, Program.perform_bind]
      simp only [ih]

theorem all_onCall {kind : BoardOp → Prop} {program : CallProgram α}
    (each : program.All fun op => kind (.call i op) ∧ ((∃ reason, op = .onEnded reason) → kind (.release i))) :
    (onCall i program).All kind := by
  induction program with
  | pure result => trivial
  | perform op next ih =>
    by_cases ends : ∃ reason, op = .onEnded reason
    · have releases := each.1.2 ends
      obtain ⟨reason, rfl⟩ := ends
      exact ⟨releases, fun _ => ⟨each.1.1, fun answer => ih answer (each.2 answer)⟩⟩
    · rw [not_exists] at ends
      rw [onCall_perform ends]
      exact ⟨each.1.1, fun answer => ih answer (each.2 answer)⟩

end BoardProgram

/-- The methods of a call that its owner may use at any time. -/
def CallEntry.isMethod : CallEntry → Bool
  | answer | reject _ | hangup _ | switchProfile _ | switchMode _ | squelch _ | ptt _ | disableRemoteModeFollow => true
  | _ => false

/-- The callbacks of a link that it runs on its own. -/
def CallEntry.isCallback : CallEntry → Bool
  | established | packet _ | linkClosed => true
  | _ => false

/-- Calls are set up by the callback of `Bind` and by `Phone.Dial` alone. -/
def Board.opens (board : Board) : BoardEntry → Bool
  | .onActive entry => entry.isMethod
  | .call i entry => entry.isMethod || entry.isCallback && (board.calls i).opens entry
  | _ => true

def switchboard (configs : Nat → CallConfig) : Behaviour Board BoardOp BoardOp.Answer BoardEntry Bool where
  opens := Board.opens
  program := BoardProgram.ofEntry configs
  perform := Board.perform

abbrev BoardThreads := Threads Board BoardOp BoardOp.Answer

def newSwitchboard (configs : Nat → CallConfig) : Board where
  calls i := (configs i).newCall

end ReticulumProtocols.Lxst
