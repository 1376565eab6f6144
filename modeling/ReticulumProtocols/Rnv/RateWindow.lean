import ReticulumProtocols.RateLimit.Meter

/-! How many stills and clips a connection takes. For each kind it keeps the times at which one was taken, and with each
call it drops those that are a minute old. -/

namespace ReticulumProtocols.Rnv
open RateLimit List

def minute : Int := 60000000000

inductive RateKind where
  | still
  | clip
  deriving DecidableEq

structure RateConfig where
  maxStillsPerMinute : Int
  maxClipsPerMinute : Int

structure RateTimes where
  stillTimes : List Int := []
  clipTimes : List Int := []

/-- What `rateStillOK` and `rateClipOK` do with their list. -/
def rateOK (times : List Int) (limit now : Int) : List Int × Bool :=
  let kept := times.filter fun t => now - minute < t
  if limit ≤ kept.length then (kept, false) else (kept ++ [now], true)

def rateStillOK (c : RateConfig) (s : RateTimes) (now : Int) : RateTimes × Bool :=
  let (times, ok) := rateOK s.stillTimes c.maxStillsPerMinute now
  ({ s with stillTimes := times }, ok)

def rateClipOK (c : RateConfig) (s : RateTimes) (now : Int) : RateTimes × Bool :=
  let (times, ok) := rateOK s.clipTimes c.maxClipsPerMinute now
  ({ s with clipTimes := times }, ok)

def rates (c : RateConfig) : Machine RateTimes (RateKind × Int) where
  step s call :=
    match call.1 with
    | .still => rateStillOK c s call.2
    | .clip => rateClipOK c s call.2
  time := Prod.snd

def RateConfig.limit (c : RateConfig) : RateKind → Int
  | .still => c.maxStillsPerMinute
  | .clip => c.maxClipsPerMinute

def RateTimes.of (s : RateTimes) : RateKind → List Int
  | .still => s.stillTimes
  | .clip => s.clipTimes

section
variable {c : RateConfig} {s : RateTimes} {kind : RateKind} {now : Int}

theorem step_of_kind : ((rates c).step s (kind, now)).1.of kind = (rateOK (s.of kind) (c.limit kind) now).1 ∧
    ((rates c).step s (kind, now)).2 = (rateOK (s.of kind) (c.limit kind) now).2 := by
  cases kind <;> exact ⟨rfl, rfl⟩

theorem step_of_other {other : RateKind} (apart : other ≠ kind) :
    ((rates c).step s (other, now)).1.of kind = s.of kind := by
  cases kind <;> cases other <;> first | rfl | contradiction

/-- The calls of a kind that were accepted from a time on, for a minute. -/
def taken (c : RateConfig) (kind : RateKind) (start : Int) (trace : List ((RateKind × Int) × Bool)) : Nat :=
  (rates c).accepted (fun call => call.1 = kind) start (start + minute - 1) trace

/-- The list of a kind holds what was accepted within any minute that ends later than the calls. -/
def Remembers (c : RateConfig) (kind : RateKind) (s : RateTimes) (trace : List ((RateKind × Int) × Bool)) : Prop :=
  ∀ now, (∀ entry ∈ trace, entry.1.2 ≤ now) →
    ((s.of kind).filter fun t => now - minute < t).length = taken c kind (now - minute + 1) trace

theorem taken_concat (start : Int) (trace : List ((RateKind × Int) × Bool)) (call : RateKind × Int) (answer : Bool) :
    taken c kind start (trace ++ [(call, answer)]) = taken c kind start trace +
      if call.1 = kind ∧ answer = true ∧ start ≤ call.2 ∧ call.2 < start + minute then 1 else 0 := by
  have window : ((decide (call.1 = kind) && answer) && decide (start ≤ call.2 ∧ call.2 ≤ start + minute - 1)) = true ↔
      call.1 = kind ∧ answer = true ∧ start ≤ call.2 ∧ call.2 < start + minute := by
    rw [Bool.and_eq_true, Bool.and_eq_true, decide_eq_true_eq, decide_eq_true_eq, and_assoc, Int.le_sub_one_iff]
  rw [taken, Machine.accepted_append, Machine.accepted_cons]
  exact congrArg _ ((Nat.zero_add _).trans (if_congr window rfl rfl))

/-- A call sees what was accepted within the minute before it. -/
theorem step_remembers {trace : List ((RateKind × Int) × Bool)} {call : RateKind × Int} (remembers : Remembers c kind s trace)
    (late : ∀ entry ∈ trace, entry.1.2 ≤ call.2) (same : call.1 = kind) :
    ((rates c).step s call).2 = true ↔ (taken c kind (call.2 - minute + 1) trace : Int) < c.limit kind := by
  obtain ⟨_, now⟩ := call
  subst same
  rw [step_of_kind.2, ← remembers now late, rateOK]
  dsimp only
  split
  next full => exact iff_of_false Bool.false_ne_true (not_lt.2 full)
  next room => exact iff_of_true rfl (not_le.1 room)

theorem Remembers.step {trace : List ((RateKind × Int) × Bool)} {call : RateKind × Int}
    (remembers : Remembers c kind s trace) (late : ∀ entry ∈ trace, entry.1.2 ≤ call.2) :
    Remembers c kind ((rates c).step s call).1 (trace ++ [(call, ((rates c).step s call).2)]) := by
  intro now past
  have before : call.2 ≤ now := past _ (mem_append_right _ mem_cons_self)
  have held := remembers now fun entry member => (late entry member).trans before
  rw [taken_concat, ← held]
  obtain ⟨kind', call⟩ := call
  by_cases same : kind' = kind
  · subst same
    have kept : ((s.of kind').filter fun t => call - minute < t).filter (fun t => now - minute < t) =
        (s.of kind').filter fun t => now - minute < t := by
      rw [filter_filter]
      apply filter_congr
      intro t _
      rw [← Bool.decide_and, decide_eq_decide]
      omega
    rw [step_of_kind.1, step_of_kind.2, rateOK]
    dsimp only
    split
    · rw [kept, if_neg fun counts => Bool.false_ne_true counts.2.1, Nat.add_zero]
    · rw [filter_append, length_append, kept]
      apply congrArg
      rw [← countP_eq_length_filter, countP_singleton]
      apply if_congr _ rfl rfl
      rw [decide_eq_true_eq, and_iff_right rfl, and_iff_right rfl]
      omega
  · rw [step_of_other same, if_neg (fun counts => same counts.1), Nat.add_zero]

theorem remembers_run {calls : List (RateKind × Int)} (ordered : calls.Pairwise fun a b => a.2 ≤ b.2) :
    Remembers c kind ((rates c).run {} calls) ((rates c).trace {} calls) := by
  induction calls using List.reverseRecOn with
  | nil =>
    intro now _
    cases kind <;> rfl
  | append_singleton calls call ih =>
    obtain ⟨before, -, late⟩ := pairwise_append.1 ordered
    rw [Machine.trace_append, Machine.run, foldl_append]
    apply (ih before).step
    intro entry member
    exact late entry.1 (Machine.mem_of_mem_trace member) call mem_cons_self

theorem taken_le (positive : 0 < c.limit kind) {calls : List (RateKind × Int)}
    (ordered : calls.Pairwise fun a b => a.2 ≤ b.2) (start : Int) :
    (taken c kind start ((rates c).trace {} calls) : Int) ≤ c.limit kind := by
  induction calls using List.reverseRecOn with
  | nil => exact positive.le
  | append_singleton calls call ih =>
    obtain ⟨before, -, after⟩ := pairwise_append.1 ordered
    have late : ∀ entry ∈ (rates c).trace {} calls, entry.1.2 ≤ call.2 := fun entry member =>
      after entry.1 (Machine.mem_of_mem_trace member) call mem_cons_self
    rw [Machine.trace_append, Machine.trace, Machine.trace, taken_concat]
    split
    next counts =>
      obtain ⟨same, accepted, first, last⟩ := counts
      have room := (step_remembers (remembers_run before) late same).1 accepted
      have fewer : taken c kind start ((rates c).trace {} calls) ≤
          taken c kind (call.2 - minute + 1) ((rates c).trace {} calls) := by
        apply countP_mono_left
        intro entry member inside
        have past : entry.1.2 ≤ call.2 := late entry member
        rw [Bool.and_eq_true, decide_eq_true_eq] at inside ⊢
        have time : (rates c).time entry.1 = entry.1.2 := rfl
        rw [time] at inside ⊢
        exact ⟨inside.1, by omega⟩
      omega
    next => exact ih before

/-- Of the calls at nondecreasing times no minute has more accepted ones than the limit, and a call is refused only if
as many were accepted in the minute before it. -/
theorem rates_exact (c : RateConfig) (kind : RateKind) (positive : 0 < c.limit kind) {calls : List (RateKind × Int)}
    (ordered : calls.Pairwise fun a b => a.2 ≤ b.2) :
    (∀ start, (taken c kind start ((rates c).trace {} calls) : Int) ≤ c.limit kind) ∧
      ∀ before call after, calls = before ++ call :: after → call.1 = kind →
        ((rates c).step ((rates c).run {} before) call).2 = false →
          (taken c kind (call.2 - minute + 1) ((rates c).trace {} before) : Int) = c.limit kind := by
  refine ⟨taken_le positive ordered, ?_⟩
  rintro before call after rfl same refused
  obtain ⟨earlier, -, later⟩ := pairwise_append.1 ordered
  have late : ∀ entry ∈ (rates c).trace {} before, entry.1.2 ≤ call.2 := fun entry member =>
    later entry.1 (Machine.mem_of_mem_trace member) call mem_cons_self
  apply le_antisymm (taken_le positive earlier _)
  apply not_lt.1
  intro room
  exact Bool.false_ne_true (refused.symm.trans ((step_remembers (remembers_run earlier) late same).2 room))

end

/-- Two stills, and a third that is refused until the first is a minute old. -/
theorem rates_exact_two :
    ((rates ⟨2, 1⟩).trace {} [(.still, 0), (.still, 5), (.still, 9), (.still, minute)]).map Prod.snd =
      [true, true, false, true] ∧
    (taken ⟨2, 1⟩ .still (9 - minute + 1) ((rates ⟨2, 1⟩).trace {} [(.still, 0), (.still, 5)]) : Int) = 2 := by
  have ordered : [(RateKind.still, (0 : Int)), (.still, 5), (.still, 9)].Pairwise fun a b => a.2 ≤ b.2 := by decide
  exact ⟨by decide, (rates_exact ⟨2, 1⟩ .still (by decide) ordered).2 _ (.still, 9) [] rfl rfl (by decide)⟩

end ReticulumProtocols.Rnv
