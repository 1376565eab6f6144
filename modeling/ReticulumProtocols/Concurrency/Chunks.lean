import ReticulumProtocols.Concurrency.EventRun
import Mathlib

/-! A range of indices that is divided over workers. Each worker goes through a chunk of its own, all of them at once,
and each index is worked on in one step. -/

namespace ReticulumProtocols.Concurrency
open List

def chunkSize (n workers : Nat) : Nat := (n + workers - 1) / workers

def chunk (n size w : Nat) : List Nat := List.range' (w * size) (min (w * size + size) n - w * size)

/-- The chunks of the workers that are started; the first one with nothing to do ends the loop. -/
def chunks (n workers : Nat) : List (List Nat) :=
  ((range workers).takeWhile fun w => w * chunkSize n workers < n).map (chunk n (chunkSize n workers))

section
variable {n size : Nat}

theorem takeWhile_range {workers : Nat} (small : ∀ w < workers, w * size < n) :
    (range workers).takeWhile (fun w => w * size < n) = range workers :=
  takeWhile_eq_self_iff.2 fun w member => decide_eq_true (small w (List.mem_range.1 member))

/-- The chunks make up the range without gap or overlap. -/
theorem flatten_range_chunk (n size workers : Nat) :
    (((range workers).takeWhile fun w => w * size < n).map (chunk n size)).flatten =
      range (min (workers * size) n) := by
  induction workers with
  | zero => simp
  | succ workers ih =>
    by_cases more : workers * size < n
    · have small : ∀ w < workers + 1, w * size < n := fun w less =>
        (Nat.mul_le_mul_right size (Nat.le_of_lt_succ less)).trans_lt more
      rw [takeWhile_range fun w less => small w (less.trans (Nat.lt_succ_self _)), Nat.min_eq_left more.le] at ih
      have upTo : min ((workers + 1) * size) n = workers * size + (min (workers * size + size) n - workers * size) := by
        rw [Nat.succ_mul]
        omega
      rw [takeWhile_range small, range_succ, map_append, flatten_append, ih, upTo, range_eq_range',
        range_eq_range', ← range'_append_1, Nat.zero_add]
      simp [chunk]
    · have stops : (range (workers + 1)).takeWhile (fun w => w * size < n) =
          (range workers).takeWhile fun w => w * size < n := by
        rw [range_succ, takeWhile_append]
        split
        next all => rw [takeWhile_cons_of_neg (by simpa using more), append_nil,
          ( takeWhile_prefix _).eq_of_length all]
        next => rfl
      have same : min ((workers + 1) * size) n = min (workers * size) n := by
        rw [Nat.succ_mul]
        omega
      rw [stops, ih, same]

end

theorem flatten_chunks (n : Nat) {workers : Nat} (staffed : 0 < workers) : (chunks n workers).flatten = range n := by
  have enough : n ≤ workers * chunkSize n workers := by
    have quotient := Nat.div_add_mod (n + workers - 1) workers
    have rest := Nat.mod_lt (n + workers - 1) staffed
    unfold chunkSize
    omega
  rw [chunks, flatten_range_chunk, Nat.min_eq_right enough]

/-- Workers over a shared state, each with the indices it has still to work on. -/
structure Crew (σ : Type*) where
  shared : σ
  pending : List (List Nat)

variable {σ : Type*} (act : Nat → σ → σ × Bool)

namespace Crew

/-- Worker `w` works on its next index, and stops there if it fails. -/
def step (crew : Crew σ) (w : Nat) : Option (Crew σ) :=
  match crew.pending[w]? with
  | some (i :: rest) =>
    some {
      shared := (act i crew.shared).1
      pending := crew.pending.set w (if (act i crew.shared).2 then rest else []) }
  | _ => none

/-- All workers are through. -/
def Idle (crew : Crew σ) : Prop := ∀ indices ∈ crew.pending, indices = []

/-- The state that the workers leave, in some interleaving of their steps. -/
def Leaves (n workers : Nat) (start : σ) (final : σ) : Prop :=
  ∃ schedule crew, runEvents (step act) ⟨start, chunks n workers⟩ schedule = some crew ∧ crew.Idle ∧ crew.shared = final

variable {act} {crew crew' : Crew σ} {w : Nat}

theorem step_eq_some (stepped : crew.step act w = some crew') :
    ∃ i rest, crew.pending[w]? = some (i :: rest) ∧ crew' = {
      shared := (act i crew.shared).1
      pending := crew.pending.set w (if (act i crew.shared).2 then rest else []) } := by
  unfold step at stepped
  split at stepped
  next i rest found =>
    cases stepped
    exact ⟨i, rest, found, rfl⟩
  next => cases stepped

theorem step_of_pending {i : Nat} {rest : List Nat} (found : crew.pending[w]? = some (i :: rest)) :
    crew.step act w = some {
      shared := (act i crew.shared).1
      pending := crew.pending.set w (if (act i crew.shared).2 then rest else []) } := by
  simp [step, found]

theorem sum_set_lt {lists : List (List Nat)} {indices less : List Nat} (found : lists[w]? = some indices)
    (shorter : less.length < indices.length) :
    ((lists.set w less).map List.length).sum < (lists.map List.length).sum := by
  induction lists generalizing w with
  | nil => cases found
  | cons first lists ih =>
    cases w with
    | zero =>
      cases found
      simpa using shorter
    | succ w => simpa using ih found

/-- Every run can be prolonged until all workers are through. -/
theorem exists_idle (act : Nat → σ → σ × Bool) (crew : Crew σ) :
    ∃ schedule last, runEvents (step act) crew schedule = some last ∧ last.Idle := by
  -- each step takes an index away
  induction size : (crew.pending.map List.length).sum using Nat.strong_induction_on generalizing crew with
  | _ size ih =>
    by_cases idle : crew.Idle
    · exact ⟨[], crew, rfl, idle⟩
    · obtain ⟨indices, member, busy⟩ : ∃ indices ∈ crew.pending, indices ≠ [] := by simpa [Idle] using idle
      obtain ⟨w, bound, found⟩ := getElem_of_mem member
      obtain ⟨i, rest, rfl⟩ := exists_cons_of_ne_nil busy
      have here : crew.pending[w]? = some (i :: rest) := by rw [List.getElem?_eq_getElem bound, found]
      have shorter : (if (act i crew.shared).2 then rest else []).length < (i :: rest).length := by
        split <;> simp
      obtain ⟨schedule, last, ran, through⟩ := ih _ (size ▸ sum_set_lt here shorter) ⟨_, _⟩ rfl
      exact ⟨w :: schedule, last, by rw [runEvents, step_of_pending here]; exact ran, through⟩

theorem exists_leaves (act : Nat → σ → σ × Bool) (n workers : Nat) (start : σ) :
    ∃ final, Leaves act n workers start final := by
  obtain ⟨schedule, last, ran, through⟩ := exists_idle act ⟨start, chunks n workers⟩
  exact ⟨last.shared, schedule, last, ran, through, rfl⟩

end Crew

section
variable {n : Nat} {Holds Stopped : σ → Prop} {Done : Nat → σ → Prop}

/-- What the steps of workers do to the shared state: those that go well get an index done, and no step undoes what
another has done. -/
structure Works (act : Nat → σ → σ × Bool) (n : Nat) (Holds Stopped : σ → Prop) (Done : Nat → σ → Prop) : Prop where
  holds : ∀ {i s}, i < n → Holds s → Holds (act i s).1
  does : ∀ {i s}, i < n → Holds s → (act i s).2 = true → Done i (act i s).1
  keeps : ∀ {i j s}, i < n → j < n → Holds s → Done j s → Done j (act i s).1
  stops : ∀ {i s}, i < n → Holds s → (act i s).2 = false → Stopped (act i s).1
  stays : ∀ {i s}, i < n → Holds s → Stopped s → Stopped (act i s).1

/-- Where workers are between their steps: what is not pending is done, unless a step went wrong. -/
structure Crew.Progress (n : Nat) (Holds Stopped : σ → Prop) (Done : Nat → σ → Prop) (crew : Crew σ) : Prop where
  holds : Holds crew.shared
  within : ∀ indices ∈ crew.pending, ∀ i ∈ indices, i < n
  done : Stopped crew.shared ∨ ∀ i < n, Done i crew.shared ∨ ∃ indices ∈ crew.pending, i ∈ indices

variable {act} (works : Works act n Holds Stopped Done)
include works

theorem Crew.Progress.step {crew crew' : Crew σ} {w : Nat} (progress : crew.Progress n Holds Stopped Done)
    (stepped : crew.step act w = some crew') : crew'.Progress n Holds Stopped Done := by
  obtain ⟨i, rest, found, rfl⟩ := Crew.step_eq_some stepped
  have member : i :: rest ∈ crew.pending := mem_of_getElem? found
  have here : i < n := progress.within _ member i mem_cons_self
  refine ⟨works.holds here progress.holds, ?_, ?_⟩
  · intro indices among j inside
    rcases mem_or_eq_of_mem_set among with old | rfl
    · exact progress.within indices old j inside
    · split at inside
      · exact progress.within _ member j (mem_cons_of_mem i inside)
      · cases inside
  · cases went : (act i crew.shared).2 with
    | false => exact .inl (works.stops here progress.holds went)
    | true =>
      apply progress.done.imp (works.stays here progress.holds)
      intro done j less
      rcases done j less with already | ⟨indices, among, inside⟩
      · exact .inl (works.keeps here less progress.holds already)
      -- an index is still pending unless it is the one worked on
      by_cases same : j = i
      · subst same
        exact .inl (works.does here progress.holds went)
      · obtain ⟨v, bound, at'⟩ := getElem_of_mem among
        right
        by_cases mine : w = v
        · subst mine
          rw [List.getElem?_eq_getElem bound, at'] at found
          cases found
          exact ⟨rest, mem_set bound rest, (mem_cons.1 inside).resolve_left same⟩
        · refine ⟨indices, mem_of_getElem? (i := v) ?_, inside⟩
          rw [List.getElem?_set_ne mine, List.getElem?_eq_getElem bound, at']

/-- When all workers are through, every index is done, unless a step went wrong. -/
theorem Works.done_of_leaves {workers : Nat} (staffed : 0 < workers) {start final : σ} (first : Holds start)
    (leaves : Crew.Leaves act n workers start final) :
    Holds final ∧ (Stopped final ∨ ∀ i < n, Done i final) := by
  obtain ⟨schedule, crew, ran, idle, rfl⟩ := leaves
  have covered : ∀ i, (∃ indices ∈ chunks n workers, i ∈ indices) ↔ i < n := by
    intro i
    rw [← mem_flatten, flatten_chunks n staffed, mem_range]
  have progress : crew.Progress n Holds Stopped Done := by
    refine invariant_of_run (fun _ _ _ progress stepped => progress.step works stepped) ⟨first, ?_, ?_⟩ ran
    · exact fun indices among i inside => (covered i).1 ⟨indices, among, inside⟩
    · exact .inr fun i less => .inr ((covered i).2 less)
  refine ⟨progress.holds, progress.done.imp_right fun done i less => ?_⟩
  rcases done i less with already | ⟨indices, among, inside⟩
  · exact already
  · rw [idle indices among] at inside
    cases inside

end

section
variable {α : Type*} (value : Nat → Option α)

/-- A worker that writes what it finds for an index into the slot of that index. -/
def fillSlot (i : Nat) (slots : List α) : List α × Bool := (((value i).map (slots.set i)).getD slots, true)

variable {value} {n : Nat} {empty : α}

theorem fillSlot_getElem? {slots : List α} (i j : Nat) (here : i < slots.length) :
    (fillSlot value i slots).1[j]? = if j = i then (value i).or slots[j]? else slots[j]? := by
  cases found : value i with
  | none => simp [fillSlot, found]
  | some v =>
    by_cases same : j = i
    · subst same
      simp [fillSlot, found, List.getElem?_set_self here]
    · simp [fillSlot, found, same, List.getElem?_set_ne (Ne.symm same)]

theorem fillSlot_works : Works (fillSlot value) n
    (fun slots => slots.length = n ∧ ∀ i < n, value i = none → slots[i]? = some empty) (fun _ => False)
    fun i slots => slots[i]? = some ((value i).getD empty) where
  holds {i slots} here holds := by
    constructor
    · rw [← holds.1, fillSlot]
      cases value i <;> simp
    · intro j less none
      rw [fillSlot_getElem? i j (holds.1.symm ▸ here)]
      split
      next same => rw [← same, none, Option.none_or, holds.2 j less none]
      next => exact holds.2 j less none
  does {i slots} here holds _ := by
    rw [fillSlot_getElem? i i (holds.1.symm ▸ here), if_pos rfl]
    cases found : value i with
    | none => exact holds.2 i here found
    | some v => rfl
  keeps {i j slots} here less holds done := by
    rw [fillSlot_getElem? i j (holds.1.symm ▸ here), done]
    split
    next same =>
      rw [same]
      cases value i <;> rfl
    next => rfl
  stops _ _ stopped := nomatch stopped
  stays _ _ stopped := stopped

/-- Workers that fill slots leave in each slot what was found for it. -/
theorem leaves_fillSlot {workers : Nat} (staffed : 0 < workers) (final : List α) :
    Crew.Leaves (fillSlot value) n workers (replicate n empty) final ↔
      final = (range n).map fun i => (value i).getD empty := by
  have unique : ∀ final, Crew.Leaves (fillSlot value) n workers (replicate n empty) final →
      final = (range n).map fun i => (value i).getD empty := by
    intro final leaves
    have first : (replicate n empty).length = n ∧
        ∀ i < n, value i = none → (replicate n empty)[i]? = some empty :=
      ⟨length_replicate, fun i less _ => by simp [less]⟩
    obtain ⟨⟨length, -⟩, done⟩ := fillSlot_works.done_of_leaves staffed first leaves
    apply ext_getElem?
    intro i
    by_cases less : i < n
    · rw [done.resolve_left id i less, List.getElem?_map, List.getElem?_range less]
      rfl
    · rw [List.getElem?_eq_none (by omega), List.getElem?_eq_none (by simpa using less)]
  refine ⟨unique final, fun same => ?_⟩
  obtain ⟨other, leaves⟩ := Crew.exists_leaves (fillSlot value) n workers (replicate n empty)
  rwa [same, ← unique other leaves]

end

end ReticulumProtocols.Concurrency
