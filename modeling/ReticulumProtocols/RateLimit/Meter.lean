import Mathlib

/-! Meters: machines that accept or refuse calls and keep, at every moment, a level of what they may still
accept. If each acceptance uses up one unit, the level never exceeds a cap and it rises at most at a fixed
rate, then what is accepted in a window of time is bounded by the cap and the length of the window. -/

namespace ReticulumProtocols.RateLimit
open List

/-- A machine that answers calls at given times. -/
structure Machine (State Call : Type*) where
  step : State → Call → State × Bool
  time : Call → Int

namespace Machine
variable {State Call : Type*} (m : Machine State Call)

/-- The calls of a run, each with its answer. -/
def trace : State → List Call → List (Call × Bool)
  | _, [] => []
  | s, call :: calls => (call, (m.step s call).2) :: trace (m.step s call).1 calls

/-- The state that a run ends in. -/
def run (s : State) (calls : List Call) : State := calls.foldl (fun s call => (m.step s call).1) s

/-- A run in which each call finds the machine in a state that suits it. -/
def Suited (suits : State → Call → Prop) : State → List Call → Prop
  | _, [] => True
  | s, call :: calls => suits s call ∧ Suited suits (m.step s call).1 calls

/-- The accepted calls of one kind in a window of time. -/
def accepted (counts : Call → Bool) (start stop : Int) (calls : List (Call × Bool)) : Nat :=
  calls.countP fun entry =>
    counts entry.1 && entry.2 && decide (start ≤ m.time entry.1 ∧ m.time entry.1 ≤ stop)

variable {m} {counts : Call → Bool} {start stop : Int}

theorem mem_of_mem_trace {s : State} {calls : List Call} {entry : Call × Bool} (member : entry ∈ m.trace s calls) :
    entry.1 ∈ calls := by
  induction calls generalizing s with
  | nil => contradiction
  | cons call calls ih =>
    rcases mem_cons.1 member with rfl | later
    · exact mem_cons_self
    · exact mem_cons_of_mem call (ih later)

theorem trace_append (s : State) (first second : List Call) :
    m.trace s (first ++ second) = m.trace s first ++ m.trace (m.run s first) second := by
  induction first generalizing s with
  | nil => rfl
  | cons call first ih =>
    rw [cons_append, trace, ih, trace]
    rfl

theorem accepted_append (first second : List (Call × Bool)) :
    m.accepted counts start stop (first ++ second) =
      m.accepted counts start stop first + m.accepted counts start stop second :=
  countP_append

theorem accepted_cons (call : Call) (answer : Bool) (calls : List (Call × Bool)) :
    m.accepted counts start stop ((call, answer) :: calls) = m.accepted counts start stop calls +
      if counts call && answer && decide (start ≤ m.time call ∧ m.time call ≤ stop) then 1 else 0 :=
  countP_cons

theorem accepted_cons_le (call : Call) (answer : Bool) (calls : List (Call × Bool)) :
    m.accepted counts start stop ((call, answer) :: calls) ≤
      m.accepted counts start stop calls + if counts call && answer then 1 else 0 := by
  rw [accepted_cons]
  apply Nat.add_le_add_left
  cases counts call && answer with
  | false => exact le_rfl
  | true => exact ite_le_one le_rfl zero_le_one

theorem accepted_eq_zero {s : State} {calls : List Call} (late : ∀ call ∈ calls, stop < m.time call) :
    m.accepted counts start stop (m.trace s calls) = 0 := by
  apply countP_eq_zero.2
  intro entry member inside
  have window := of_decide_eq_true (Bool.and_eq_true_iff.1 inside).2
  exact absurd window.2 (not_le.2 (late entry.1 (mem_of_mem_trace member)))

theorem first_le {call : Call} {calls : List Call} (ordered : (call :: calls).Pairwise fun a b => m.time a ≤ m.time b) :
    ∀ other ∈ call :: calls, m.time call ≤ m.time other := by
  intro other member
  rcases mem_cons.1 member with rfl | after
  · exact le_rfl
  · exact (pairwise_cons.1 ordered).1 other after

end Machine

variable {State Call K : Type*} [Field K] [LinearOrder K] [IsStrictOrderedRing K]

/-- A level that pays for the calls that count. -/
structure Metered (m : Machine State Call) (counts : Call → Bool) (suits : State → Call → Prop)
    (valid : State → Int → Prop) (level : State → Int → K) (cap rate : K) : Prop where
  rate_nonneg : 0 ≤ rate
  nonneg : ∀ s now, valid s now → 0 ≤ level s now
  le_cap : ∀ s now, valid s now → level s now ≤ cap
  later : ∀ s now next, valid s now → now ≤ next → valid s next
  rises : ∀ s (now next : Int), valid s now → now ≤ next → level s next ≤ level s now + rate * (next - now)
  keeps : ∀ s call, suits s call → valid s (m.time call) → valid (m.step s call).1 (m.time call)
  pays : ∀ s call, suits s call → valid s (m.time call) →
    level (m.step s call).1 (m.time call) + (if counts call && (m.step s call).2 then 1 else 0) ≤
      level s (m.time call)

namespace Metered
variable {m : Machine State Call} {counts : Call → Bool} {suits : State → Call → Prop} {valid : State → Int → Prop}
  {level : State → Int → K} {cap rate : K} {start stop : Int} {s : State} {calls : List Call}
variable {now : Int}

theorem remains_nonneg (metered : Metered m counts suits valid level cap rate) (ahead : now ≤ stop)
    (ok : valid s now) : 0 ≤ level s now + rate * (stop - now) := by
  have risen : (0 : K) ≤ rate * (stop - now) := mul_nonneg metered.rate_nonneg (sub_nonneg.2 (Int.cast_le.2 ahead))
  exact add_nonneg (metered.nonneg s now ok) risen

/-- From now on, no more is accepted than the level and what it rises by. -/
theorem accepted_le_level (metered : Metered m counts suits valid level cap rate) (ahead : now ≤ stop)
    (ok : valid s now) (ordered : calls.Pairwise fun a b => m.time a ≤ m.time b)
    (due : ∀ call ∈ calls, now ≤ m.time call) (suited : m.Suited suits s calls) :
    (m.accepted counts start stop (m.trace s calls) : K) ≤ level s now + rate * (stop - now) := by
  induction calls generalizing s now with
  | nil =>
    rw [Machine.trace, Machine.accepted, countP_nil, Nat.cast_zero]
    exact metered.remains_nonneg ahead ok
  | cons call calls ih =>
    have sorted := pairwise_cons.1 ordered
    have first := due call mem_cons_self
    by_cases late : stop < m.time call
    · rw [Machine.accepted_eq_zero fun other member => late.trans_le (Machine.first_le ordered other member),
        Nat.cast_zero]
      exact metered.remains_nonneg ahead ok
    · have reached := metered.later s now (m.time call) ok first
      have rest := ih (not_lt.1 late) (metered.keeps s call suited.1 reached) sorted.2 sorted.1 suited.2
      have count : (m.accepted counts start stop (m.trace s (call :: calls)) : K) ≤
          m.accepted counts start stop (m.trace (m.step s call).1 calls) +
            if counts call && (m.step s call).2 then 1 else 0 := by
        exact_mod_cast Machine.accepted_cons_le call (m.step s call).2 (m.trace (m.step s call).1 calls)
      have paid := metered.pays s call suited.1 reached
      have risen := metered.rises s now (m.time call) ok first
      linarith

/-- No more is accepted in a window than the cap and what the level rises by. -/
theorem accepted_le (metered : Metered m counts suits valid level cap rate) (window : start ≤ stop)
    (ok : valid s now) (ordered : calls.Pairwise fun a b => m.time a ≤ m.time b)
    (due : ∀ call ∈ calls, now ≤ m.time call) (suited : m.Suited suits s calls) :
    (m.accepted counts start stop (m.trace s calls) : K) ≤ cap + rate * (stop - start) := by
  have risen : (0 : K) ≤ rate * (stop - start) :=
    mul_nonneg metered.rate_nonneg (sub_nonneg.2 (Int.cast_le.2 window))
  induction calls generalizing s now with
  | nil =>
    rw [Machine.trace, Machine.accepted, countP_nil, Nat.cast_zero]
    exact add_nonneg ((metered.nonneg s now ok).trans (metered.le_cap s now ok)) risen
  | cons call calls ih =>
    have sorted := pairwise_cons.1 ordered
    have reached := metered.later s now (m.time call) ok (due call mem_cons_self)
    by_cases early : m.time call < start
    · -- the window has not begun, so this call is not counted
      have outside : ¬(start ≤ m.time call ∧ m.time call ≤ stop) := fun inside => absurd inside.1 (not_le.2 early)
      rw [Machine.trace, Machine.accepted_cons, decide_eq_false outside, Bool.and_false, if_neg Bool.false_ne_true,
        Nat.add_zero]
      exact ih (metered.keeps s call suited.1 reached) sorted.2 sorted.1 suited.2
    · by_cases late : stop < m.time call
      · rw [Machine.accepted_eq_zero fun other member => late.trans_le (Machine.first_le ordered other member),
          Nat.cast_zero]
        exact add_nonneg ((metered.nonneg s now ok).trans (metered.le_cap s now ok)) risen
      · have spent : (m.accepted counts start stop (m.trace s (call :: calls)) : K) ≤ _ :=
          metered.accepted_le_level (not_lt.1 late) reached ordered (Machine.first_le ordered) suited
        have full := metered.le_cap s (m.time call) reached
        have begun : (start : K) ≤ m.time call := Int.cast_le.2 (not_lt.1 early)
        have shorter : rate * (stop - m.time call) ≤ rate * (stop - start) :=
          mul_le_mul_of_nonneg_left (sub_le_sub_left begun _) metered.rate_nonneg
        linarith

end Metered
end ReticulumProtocols.RateLimit
