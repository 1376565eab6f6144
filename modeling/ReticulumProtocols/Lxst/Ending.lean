import ReticulumProtocols.Lxst.Footprint

/-! How a call ends. The swaps of `end` take a live call to the ended state at most once; its last store, and the stores
that take a failed setup back to the idle state, do not look at the state they overwrite. -/

namespace ReticulumProtocols.Lxst
open Wire Concurrency

/-- A thread that has moved the call to the ended state owes the call of `OnEnded`, and nobody else makes it or clears
the pipelines. -/
@[simps]
def endingRules : Typestate CallOp CallOp.Answer Bool where
  permits owes
    | .onEnded _ | .clearPipelines => owes = true
    | .casState .ended _ => False
    | .casState _ .ended | .storeState .ended => owes = false
    | _ => True
  after owes
    | .casState _ .ended, moved => some (owes || moved)
    | .storeState .ended, _ => some true
    | .onEnded _, _ => some false
    | _, _ => some owes

theorem endingRules_plain {owes : Bool} {op : CallOp} (other : op.footprint ∉ [Footprint.ending, .wild]) :
    endingRules.Plain owes op := by
  cases op with
  | casState before after => cases before <;> cases after <;> simp_all [Typestate.Plain]
  | storeState state => cases state <;> simp_all [Typestate.Plain]
  | _ => simp_all [Typestate.Plain]

namespace CallProgram
variable {α β : Type}

/-- Whatever the program ends, it also reports. -/
abbrev Settles (program : CallProgram α) : Prop := endingRules.Follows program false fun owes _ => owes = false

theorem Settles.bind {program : CallProgram α} {f : α → CallProgram β} (settles : Settles program)
    (rest : ∀ result, Settles (f result)) : Settles (program >>= f) := by
  refine Typestate.follows_bind (settles.mono fun owes result reported => ?_)
  rw [reported]
  exact rest result

theorem settles_endCall (reason : String) : Settles (endCall reason) := by simp [endCall, release]

theorem settles_closed : Closed [.start, .reset, .activate, .pipelines, .timer, .media, .answer, .enroll, .fork] Settles :=
  Sequential.closed
    { bind := Settles.bind
      uses := fun uses => Typestate.follows_of_plain ((uses.avoids _ (by decide)).mono fun _ => endingRules_plain)
        fun _ => rfl
      endCall := settles_endCall }
    (by decide) (by decide)

theorem settles_ofEntry (c : CallConfig) (entry : CallEntry) : Settles (ofEntry c entry) :=
  settles_closed.ofEntry c entry (by decide) fun _ => by decide

end CallProgram

/-- The operation stores the state without looking at it. -/
def CallOp.storesState : CallOp → Bool
  | storeState _ => true
  | _ => false

/-- A plain store of the state does not overwrite the ended state. -/
def Call.Unspoilt (call : Call) (_ : Nat) (_ : Bool) (op : CallOp) : Prop := op.storesState → call.state ≠ .ended

instance (call : Call) (i : Nat) (input : Bool) (op : CallOp) : Decidable (call.Unspoilt i input op) :=
  inferInstanceAs (Decidable (_ → _))

namespace Call
variable {call : Call} {i : Nat} {input : Bool} {op : CallOp}
variable {owes : Bool}

theorem nextState_ended (permitted : endingRules.permits owes op) (unspoilt : call.Unspoilt i input op)
    (ended : call.state = .ended) : op.nextState call.state = .ended := by
  cases op with
  | storeState state => exact absurd ended (unspoilt rfl)
  | casState before after => cases before <;> simp_all [CallOp.nextState]
  | _ => exact ended

/-- At most one thread has moved the call to the ended state, and it alone reports that. -/
def EndedOnce (call : Call) : Prop :=
  (call.state ≠ .ended → call.endings = []) ∧ call.endings.length ≤ 1 ∧ (call.endings = [] → call.onEnded = []) ∧
    call.onEnded.length ≤ 1

/-- A thread that owes the report is the one that moved the call. -/
def Owes (call : Call) (i : Nat) (owes : Bool) : Prop := owes = true → call.endings = [i] ∧ call.onEnded = []

theorem not_ended_of_ends (permitted : endingRules.permits owes op) (unspoilt : call.Unspoilt i input op)
    (ends : op.ends call.state = true) : call.state ≠ .ended := by
  cases op with
  | storeState state => exact unspoilt rfl
  | casState before after => cases before <;> simp_all [CallOp.ends]
  | _ => cases ends

/-- An operation ends the call, reports that it has ended, or does neither. -/
theorem ending_cases (call : Call) (input : Bool) (op : CallOp) (owes : Bool) :
    (op.ends call.state = true ∧ op.nextState call.state = .ended ∧ op.reports = [] ∧
        endingRules.after owes op (call.reply input op) = some true) ∨
      (∃ reason, op = .onEnded reason) ∨
      (op.ends call.state = false ∧ op.reports = [] ∧
        endingRules.after owes op (call.reply input op) = some owes) := by
  cases op with
  | onEnded reason => exact .inr (.inl ⟨reason, rfl⟩)
  | storeState state => cases state <;> simp [CallOp.ends, CallOp.nextState, CallOp.reports]
  | casState before after =>
    by_cases here : call.state = before <;> cases after <;>
      simp [CallOp.ends, CallOp.nextState, CallOp.reports, reply, here]
  | _ => simp [CallOp.ends, CallOp.reports]

theorem endedOnce_next (once : call.EndedOnce) (tie : call.Owes i owes)
    (permitted : endingRules.permits owes op) (unspoilt : call.Unspoilt i input op) :
    (call.next i input op).EndedOnce ∧
      ∃ owes', endingRules.after owes op (call.reply input op) = some owes' ∧ (call.next i input op).Owes i owes' := by
  obtain ⟨unended, few, unreported, reported⟩ := once
  unfold EndedOnce Owes
  rw [state_next, endings_next, onEnded_next]
  rcases ending_cases call input op owes with ⟨ends, ended, silent, after⟩ | ⟨reason, rfl⟩ | ⟨stays, silent, after⟩
  · have fresh := unended (not_ended_of_ends permitted unspoilt ends)
    refine ⟨?_, true, after, ?_⟩ <;> simp [ends, ended, silent, fresh, unreported fresh]
  · obtain ⟨mine, none_yet⟩ := tie permitted
    simp_all [CallOp.ends, CallOp.nextState, CallOp.reports]
  · have open_before : op.nextState call.state ≠ .ended → call.state ≠ .ended :=
      fun later ended => later (nextState_ended permitted unspoilt ended)
    simp only [stays, silent, List.append_nil, Bool.false_eq_true, if_false]
    exact ⟨⟨fun later => unended (open_before later), few, unreported, reported⟩, owes, after, tie⟩

theorem owes_next {owes owes' : Bool} {j : Nat} (once : call.EndedOnce) (tie : call.Owes i owes)
    (permitted : endingRules.permits owes op) (unspoilt : call.Unspoilt i input op) (other : j ≠ i)
    (tie' : call.Owes j owes') : (call.next i input op).Owes j owes' := by
  intro owing
  obtain ⟨mine, silent⟩ := tie' owing
  rw [endings_next, onEnded_next]
  rcases ending_cases call input op owes with ⟨ends, -⟩ | ⟨reason, rfl⟩ | ⟨stays, quiet, -⟩
  · have fresh := once.1 (not_ended_of_ends permitted unspoilt ends)
    simp [fresh] at mine
  · have theirs := (tie permitted).1
    simp [theirs, Ne.symm other] at mine
  · simp [stays, quiet, mine, silent]

/-- The call ends once, as long as no plain store overwrites its end. -/
def endingOutline (c : CallConfig) : Outline c.behaviour endingRules Call.Unspoilt where
  ok call _ := call.EndedOnce
  tie := Owes
  initial _ := false
  follows entry := (CallProgram.settles_ofEntry c entry).mono fun _ _ _ => trivial
  fresh once := once
  opened _ _ owing := by cases owing
  own once _ tie permitted unspoilt performed := by
    obtain ⟨rfl, rfl, -⟩ := perform_eq_some performed
    obtain ⟨once', owes'⟩ := endedOnce_next once tie permitted unspoilt
    exact ⟨once', owes', fun _ _ _ _ owing => by cases owing⟩
  others once _ tie permitted unspoilt performed j owes' other tie' := by
    obtain ⟨rfl, -, -⟩ := perform_eq_some performed
    exact owes_next once tie permitted unspoilt other tie'

/-- A call to which no packet makes sense. -/
def plainCall : CallConfig := { unpack := fun _ => none }

/-- So many steps of one thread, to which everything turns out well. -/
def turns (i n : Nat) : List (Activity CallEntry Bool) := List.replicate n (.run i true)

def hungUp : List (Activity CallEntry Bool) :=
  .start .serveIncoming :: turns 0 14 ++ .start (.hangup "bye") :: turns 3 13

/-- `Dial` is hung up before its destination is found to be bad. -/
def hungUpDial : List (Activity CallEntry Bool) :=
  .start (.dial true) :: turns 0 3 ++ .start (.hangup "bye") :: turns 1 11

/-- The call starts ringing between the swaps of one `end`, and is ended by another before the store of the first. -/
def endedTwice : List (Activity CallEntry Bool) :=
  .start .serveIncoming :: turns 0 14 ++ .start .linkClosed :: turns 3 4 ++ .start .identified :: turns 4 4 ++
    turns 3 2 ++ .start (.hangup "bye") :: turns 5 4 ++ .run 5 false :: turns 5 10 ++ turns 3 8

end Call
end ReticulumProtocols.Lxst
