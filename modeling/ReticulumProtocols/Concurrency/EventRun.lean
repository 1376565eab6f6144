import Mathlib.Data.Option.Basic

/-! Runs of a machine that takes one step for each event it accepts. -/

namespace ReticulumProtocols.Concurrency

variable {State Event : Type*} (step : State → Event → Option State)

def runEvents : State → List Event → Option State
  | s, [] => some s
  | s, event :: events => (step s event).bind fun s => runEvents s events

/-- A condition on the events of a run, each in the state it meets. -/
def Along (condition : State → Event → Prop) : State → List Event → Prop
  | _, [] => True
  | s, event :: events => condition s event ∧ ∀ s', step s event = some s' → Along condition s' events

instance decidableAlong (condition : State → Event → Prop) [∀ s event, Decidable (condition s event)] :
    ∀ s events, Decidable (Along step condition s events)
  | _, [] => isTrue trivial
  | s, event :: events =>
    match stepped : step s event with
    | none => decidable_of_iff (condition s event) (by simp [Along, stepped])
    | some s' =>
      have := decidableAlong condition s' events
      decidable_of_iff (condition s event ∧ Along step condition s' events) (by simp [Along, stepped])

variable {step} {condition : State → Event → Prop} {invariant : State → Prop}

/-- What every step under a condition keeps holds at the end of a run under it. -/
theorem invariant_runEvents {s s' : State} {events : List Event}
    (kept : ∀ s event s', invariant s → condition s event → step s event = some s' → invariant s')
    (start : invariant s) (along : Along step condition s events) (ran : runEvents step s events = some s') :
    invariant s' := by
  induction events generalizing s with
  | nil =>
    cases ran
    exact start
  | cons event events ih =>
    obtain ⟨next, stepped, ran⟩ := Option.bind_eq_some_iff.1 ran
    exact ih (kept s event next start along.1 stepped) (along.2 next stepped) ran

theorem along_true (step : State → Event → Option State) (s : State) (events : List Event) :
    Along step (fun _ _ => True) s events := by
  induction events generalizing s with
  | nil => trivial
  | cons event events ih => exact ⟨trivial, fun s' _ => ih s'⟩

/-- What every step keeps holds at the end of every run. -/
theorem invariant_of_run {s s' : State} {events : List Event}
    (kept : ∀ s event s', invariant s → step s event = some s' → invariant s') (start : invariant s)
    (ran : runEvents step s events = some s') : invariant s' :=
  invariant_runEvents (fun s event s' holds _ => kept s event s' holds) start (along_true step s events) ran

/-- What an invariant and a condition give for one step they give for every step of a run. -/
theorem Along.of_invariant {result : State → Event → Prop} {s : State} {events : List Event}
    (kept : ∀ s event s', invariant s → condition s event → step s event = some s' → invariant s')
    (gives : ∀ s event, invariant s → condition s event → result s event)
    (start : invariant s) (along : Along step condition s events) : Along step result s events := by
  induction events generalizing s with
  | nil => trivial
  | cons event events ih =>
    refine ⟨gives s event start along.1, fun next stepped => ?_⟩
    exact ih (kept s event next start along.1 stepped) (along.2 next stepped)

end ReticulumProtocols.Concurrency
