import ReticulumProtocols.Concurrency.EventRun
import Mathlib

/-! The event queue of librrc. A call of `poll` that finds the queue empty waits for a signal, and only `push` signals:
the deadline is looked at when the call wakes up, but it wakes nobody. -/

namespace ReticulumProtocols.Librrc
open Concurrency List

def defaultQueueCapacity : Nat := 256

/-- A call of `poll`. -/
structure Call where
  id : Nat
  timeout : Int
  deadline : Int
  deriving DecidableEq

/-- The queue with the calls that wait in `cond.Wait`, longest first, those that were signalled and need the mutex, and
what the others have returned; each event has the number of its push, and no event is the result of a timeout. -/
structure EventQueue (E : Type) where
  cap : Nat
  items : List (Nat × E) := []
  pushed : Nat := 0
  calls : Nat := 0
  waiting : List Call := []
  woken : List Call := []
  results : List (Nat × Option (Nat × E)) := []
  clock : Int
  cap_pos : 0 < cap

def newEventQueue (E : Type) (capacity clock : Int) : EventQueue E where
  cap := if capacity ≤ 0 then defaultQueueCapacity else capacity.toNat
  clock := clock
  cap_pos := by
    split
    · decide
    · omega

/-- What happens under the mutex, with the readings of the clock. -/
inductive Step (E : Type) where
  | push (ev : E)
  | clear
  | poll (timeout later : Int)
  | resume (call : Call) (now later : Int)
  | pass (now : Int)

@[simp]
def Step.event {E : Type} : Step E → Option E
  | push ev => some ev
  | _ => none

/-- The call that goes on by itself in a step. -/
def Step.caller {E : Type} : Step E → Option Nat
  | resume call _ _ => some call.id
  | _ => none

namespace EventQueue
variable {E : Type} (q : EventQueue E)

/-- The oldest event is dropped if the queue is full. -/
def push (ev : E) : EventQueue E :=
  { q with
    items := (if q.cap ≤ q.items.length then q.items.tail else q.items) ++ [(q.pushed, ev)]
    pushed := q.pushed + 1
    waiting := q.waiting.tail
    woken := q.woken ++ q.waiting.head?.toList }

def finish (call : Call) (result : Option (Nat × E)) (now : Int) : EventQueue E :=
  { q with results := q.results ++ [(call.id, result)], clock := now }

/-- The head of the loop in `poll`, which ends in `Wait` if the call does not return. -/
def loop (call : Call) (later : Int) : EventQueue E :=
  match q.items with
  | item :: items => { q with items }.finish call (some item) later
  | [] =>
    if call.timeout ≤ 0 ∨ call.deadline - later ≤ 0 then q.finish call none later
    else { q with waiting := q.waiting ++ [call], clock := later }

def step : Step E → Option (EventQueue E)
  | .push ev => some (q.push ev)
  | .clear => some { q with items := [] }
  | .poll timeout later =>
    if q.clock ≤ later then
      some ({ q with calls := q.calls + 1 }.loop ⟨q.calls, timeout, q.clock + timeout⟩ later)
    else none
  | .resume call now later =>
    if call ∈ q.woken ∧ q.clock ≤ now ∧ now ≤ later then
      let q := { q with woken := q.woken.erase call }
      some (if call.deadline < now then q.finish call none now else q.loop call later)
    else none
  | .pass now => if q.clock ≤ now then some { q with clock := now } else none

def Returned (p : Nat) : Prop := p ∈ q.results.map Prod.fst

/-- The call comes to its end by its own steps, even if nobody else does anything. -/
def Finishes (p : Nat) : Prop :=
  ∃ own q', (∀ step ∈ own, step.caller = some p) ∧ runEvents step q own = some q' ∧ q'.Returned p

/-- Whatever happens after a call, it finishes once its timeout has elapsed. -/
def PollReturns (timeout : Int) : Prop :=
  ∀ later called, q.step (.poll timeout later) = some called → ∀ steps q', runEvents step called steps = some q' →
    q.clock + timeout ≤ q'.clock → q'.Finishes q.calls

/-- The numbers of the events that were returned. -/
def taken : List Nat := q.results.filterMap fun result => result.2.map Prod.fst

/-- The calls have numbers that were given out, and no event is both taken and queued, or either of it twice. -/
structure Sound : Prop where
  woken : ∀ call ∈ q.woken, call.id < q.calls
  waiting : ∀ call ∈ q.waiting, call.id < q.calls
  results : ∀ result ∈ q.results, result.1 < q.calls
  events : (q.taken ++ q.items.map Prod.fst).Nodup
  numbers : ∀ n ∈ q.taken ++ q.items.map Prod.fst, n < q.pushed

variable {q}

theorem sound_new (capacity clock : Int) : (newEventQueue E capacity clock).Sound where
  woken := by simp [newEventQueue]
  waiting := by simp [newEventQueue]
  results := by simp [newEventQueue]
  events := by simp [newEventQueue, taken]
  numbers := by simp [newEventQueue, taken]

theorem Sound.push (sound : q.Sound) (ev : E) : (q.push ev).Sound := by
  have part : (if q.cap ≤ q.items.length then q.items.tail else q.items).Sublist q.items := by
    split
    · exact tail_sublist _
    · exact List.Sublist.refl _
  have kept := (List.Sublist.refl q.taken).append (part.map Prod.fst)
  have fresh : q.pushed ∉ q.taken ++ (if q.cap ≤ q.items.length then q.items.tail else q.items).map Prod.fst :=
    fun member => (sound.numbers _ (kept.subset member)).false
  refine ⟨?_, fun call member => sound.waiting call (mem_of_mem_tail member), sound.results, ?_, ?_⟩
  · intro call member
    rcases List.mem_append.1 member with old | signalled
    · exact sound.woken call old
    · exact sound.waiting call (mem_of_mem_head? (Option.mem_toList.1 signalled))
  · change (q.taken ++ List.map Prod.fst (_ ++ [(q.pushed, ev)])).Nodup
    rw [map_append, ← append_assoc, map_singleton, ← concat_eq_append, nodup_concat]
    exact ⟨fresh, sound.events.sublist kept⟩
  · intro n member
    change n ∈ q.taken ++ List.map Prod.fst (_ ++ [(q.pushed, ev)]) at member
    rw [map_append, ← append_assoc, mem_append, map_singleton, mem_singleton] at member
    rcases member with old | rfl
    · exact (sound.numbers n (kept.subset old)).trans (Nat.lt_succ_self _)
    · exact Nat.lt_succ_self _

theorem Sound.finish (sound : q.Sound) {call : Call} (known : call.id < q.calls) (result : Option (Nat × E)) (now : Int)
    {items : List (Nat × E)} (same : result.toList ++ items = q.items) :
    (EventQueue.finish { q with items } call result now).Sound := by
  have events : EventQueue.taken (EventQueue.finish { q with items } call result now) ++ items.map Prod.fst =
      q.taken ++ q.items.map Prod.fst := by
    rw [← same]
    cases result
    all_goals simp [EventQueue.finish, taken]
  refine ⟨sound.woken, sound.waiting, fun entry member => ?_, events ▸ sound.events, events ▸ sound.numbers⟩
  rcases List.mem_append.1 member with old | new
  · exact sound.results entry old
  · rw [List.mem_singleton.1 new]
    exact known

/-- A call returns the first event, the timeout, or waits. -/
theorem Sound.loop (sound : q.Sound) {call : Call} (known : call.id < q.calls) (later : Int) :
    (q.loop call later).Sound := by
  unfold EventQueue.loop
  split
  next item items form => exact sound.finish known (some item) later form.symm
  · split
    · exact sound.finish known none later rfl
    · refine ⟨sound.woken, fun other member => ?_, sound.results, sound.events, sound.numbers⟩
      rcases List.mem_append.1 member with old | new
      · exact sound.waiting other old
      · rw [List.mem_singleton.1 new]
        exact known

theorem Sound.step (sound : q.Sound) {s : Step E} {q' : EventQueue E} (stepped : q.step s = some q') : q'.Sound := by
  cases s with
  | push ev =>
    cases stepped
    exact sound.push ev
  | clear =>
    cases stepped
    have part : (q.taken ++ ([] : List (Nat × E)).map Prod.fst).Sublist (q.taken ++ q.items.map Prod.fst) :=
      (List.Sublist.refl _).append (nil_sublist _)
    exact ⟨sound.woken, sound.waiting, sound.results, sound.events.sublist part,
      fun n member => sound.numbers n (part.subset member)⟩
  | poll timeout later =>
    obtain ⟨-, made⟩ := Option.ite_none_right_eq_some.1 stepped
    cases made
    have counted : EventQueue.Sound { q with calls := q.calls + 1 } :=
      ⟨fun call member => (sound.woken call member).trans (Nat.lt_succ_self _),
        fun call member => (sound.waiting call member).trans (Nat.lt_succ_self _),
        fun result member => (sound.results result member).trans (Nat.lt_succ_self _), sound.events, sound.numbers⟩
    exact counted.loop (Nat.lt_succ_self _) later
  | resume call now later =>
    obtain ⟨guard, made⟩ := Option.ite_none_right_eq_some.1 stepped
    cases made
    have erased : EventQueue.Sound { q with woken := q.woken.erase call } :=
      ⟨fun other member => sound.woken other (mem_of_mem_erase member), sound.waiting, sound.results, sound.events,
        sound.numbers⟩
    have known := sound.woken call guard.1
    split
    · exact erased.finish known none now rfl
    · exact erased.loop known later
  | pass now =>
    obtain ⟨-, made⟩ := Option.ite_none_right_eq_some.1 stepped
    cases made
    exact ⟨sound.woken, sound.waiting, sound.results, sound.events, sound.numbers⟩

theorem results_loop (q : EventQueue E) (call : Call) (later : Int) : q.results <+: (q.loop call later).results := by
  unfold loop
  split
  · exact prefix_append _ _
  · split
    · exact prefix_append _ _
    · exact prefix_rfl

theorem Returned.step {p : Nat} {s : Step E} {q' : EventQueue E} (returned : q.Returned p)
    (stepped : q.step s = some q') : q'.Returned p := by
  have kept : q.results <+: q'.results := by
    cases s with
    | push ev =>
      cases stepped
      exact prefix_rfl
    | clear =>
      cases stepped
      exact prefix_rfl
    | poll timeout later =>
      obtain ⟨-, made⟩ := Option.ite_none_right_eq_some.1 stepped
      cases made
      exact results_loop { q with calls := q.calls + 1 } _ _
    | resume call now later =>
      obtain ⟨-, made⟩ := Option.ite_none_right_eq_some.1 stepped
      cases made
      split
      · exact prefix_append _ _
      · exact results_loop { q with woken := q.woken.erase call } _ _
    | pass now =>
      obtain ⟨-, made⟩ := Option.ite_none_right_eq_some.1 stepped
      cases made
      exact prefix_rfl
  exact map_subset Prod.fst kept.subset returned

/-- An empty queue keeps a call waiting: no step is its own until somebody pushes. -/
theorem Sound.waits (sound : q.Sound) (empty : q.items = []) {timeout : Int} (positive : 0 < timeout) :
    ¬q.PollReturns timeout := by
  intro returns
  have called : q.step (.poll timeout q.clock) = some { q with
      calls := q.calls + 1, waiting := q.waiting ++ [⟨q.calls, timeout, q.clock + timeout⟩] } := by
    have blocked : ¬(timeout ≤ 0 ∨ q.clock + timeout - q.clock ≤ 0) := by omega
    simp only [EventQueue.step, le_refl, if_true, EventQueue.loop, empty, if_neg blocked]
  have passed : q.clock ≤ q.clock + timeout := by omega
  obtain ⟨own, q', mine, ran, returned⟩ := returns q.clock _ called [.pass (q.clock + timeout)] _
    (congrArg (fun next => Option.bind next some) (if_pos passed)) le_rfl
  cases own with
  | nil =>
    cases ran
    obtain ⟨result, member, same⟩ := mem_map.1 returned
    exact (sound.results result member).ne same
  | cons first others =>
    obtain ⟨next, stepped, -⟩ := Option.bind_eq_some_iff.1 ran
    have own := mine first mem_cons_self
    cases first with
    | resume call now later =>
      have guard := (Option.ite_none_right_eq_some.1 stepped).1
      exact (sound.woken call guard.1).ne (Option.some.inj own)
    | _ => contradiction

/-- A call with a positive timeout is sure to return exactly if there is an event for it at once; no event is returned
twice in any case. -/
theorem poll_returns_iff (capacity clock : Int) (steps : List (Step E)) (q : EventQueue E)
    (ran : runEvents step (newEventQueue E capacity clock) steps = some q) (timeout : Int) (positive : 0 < timeout) :
    (q.PollReturns timeout ∧ q.taken.Nodup) ↔ q.items ≠ [] := by
  have sound : q.Sound := invariant_of_run (fun _ _ _ sound stepped => sound.step stepped) (sound_new capacity clock) ran
  constructor
  · intro both empty
    exact sound.waits empty positive both.1
  · intro some
    refine ⟨fun later called stepped others q' after elapsed => ?_, (nodup_append.1 sound.events).1⟩
    obtain ⟨-, made⟩ := Option.ite_none_right_eq_some.1 stepped
    cases made
    obtain ⟨item, items, form⟩ := exists_cons_of_ne_nil some
    have returned : EventQueue.Returned
        ({ q with calls := q.calls + 1 }.loop ⟨q.calls, timeout, q.clock + timeout⟩ later) q.calls := by
      simp [EventQueue.loop, form, EventQueue.finish, Returned]
    have still : q'.Returned q.calls :=
      @invariant_of_run _ _ step (fun r => r.Returned q.calls) _ _ _ (fun _ _ _ kept stepped => kept.step stepped)
        returned after
    exact ⟨[], q', fun _ member => absurd member not_mem_nil, rfl, still⟩

/-- What was returned, and after it what is queued. -/
def delivered (q : EventQueue E) : List E := (q.results.filterMap Prod.snd ++ q.items).map Prod.snd

theorem delivered_loop (q : EventQueue E) (call : Call) (later : Int) :
    (q.loop call later).delivered <+ q.delivered ++ [] := by
  unfold loop
  split
  next item items form => simp [delivered, finish, form]
  next form => split <;> simp [delivered, finish, form]

theorem delivered_step {s : Step E} {q' : EventQueue E} (stepped : q.step s = some q') :
    q'.delivered <+ q.delivered ++ s.event.toList := by
  cases s with
  | push ev =>
    cases stepped
    have part := (tail_sublist q.items).map Prod.snd
    by_cases full : q.cap ≤ q.items.length
    · simpa [delivered, push, full] using part
    · simp [delivered, push, full]
  | clear =>
    cases stepped
    simp [delivered]
  | poll timeout later =>
    obtain ⟨-, made⟩ := Option.ite_none_right_eq_some.1 stepped
    cases made
    exact delivered_loop { q with calls := q.calls + 1 } _ _
  | resume call now later =>
    obtain ⟨-, made⟩ := Option.ite_none_right_eq_some.1 stepped
    cases made
    split
    · simp [delivered, finish]
    · exact delivered_loop { q with woken := q.woken.erase call } _ _
  | pass now =>
    obtain ⟨-, made⟩ := Option.ite_none_right_eq_some.1 stepped
    cases made
    simp [delivered]

/-- However the calls interleave, events are returned in the order of their pushes and at most once. -/
theorem polled_in_order (steps : List (Step E)) (q q' : EventQueue E) (ran : runEvents step q steps = some q') :
    q'.delivered <+ q.delivered ++ steps.filterMap Step.event := by
  induction steps generalizing q with
  | nil =>
    cases ran
    simp
  | cons s steps ih =>
    obtain ⟨next, stepped, ran⟩ := Option.bind_eq_some_iff.1 ran
    have events : (s :: steps).filterMap Step.event = s.event.toList ++ steps.filterMap Step.event := by cases s <;> rfl
    rw [events, ← append_assoc]
    exact (ih next ran).trans ((delivered_step stepped).append_right _)

end EventQueue
open EventQueue

theorem polled_in_order_full : ∃ q, runEvents step (newEventQueue Nat 1 0) [.push 7, .push 8, .poll 5 0] = some q ∧
    q.delivered = [8] ∧ q.delivered <+ [7, 8] :=
  ⟨_, rfl, rfl, polled_in_order [.push 7, .push 8, .poll 5 0] (newEventQueue Nat 1 0) _ rfl⟩

theorem poll_returns_iff_pushed : ∃ q, runEvents step (newEventQueue Nat 1 0) [.push 7] = some q ∧ q.PollReturns 5 :=
  ⟨_, rfl, ((poll_returns_iff 1 0 [.push 7] _ rfl 5 (by decide)).2 (cons_ne_nil _ _)).1⟩

/-- A call on a new queue waits for ever if nothing is pushed. -/
theorem poll_blocked : ¬(newEventQueue Nat 0 0).PollReturns 1000000000 := (sound_new 0 0).waits rfl (by decide)

end ReticulumProtocols.Librrc
