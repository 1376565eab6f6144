import Mathlib

/-! Samples on their way to and from the Opus codec: other sample rates, and channels that are mixed in place. -/

namespace ReticulumProtocols.Lxst
open List

/-- The assignment `buf[i] = s`; without a value the index on its right was out of range. -/
def store (buf : List Int16) : Nat × Option Int16 → Option (List Int16)
  | (i, some s) => if i < buf.length then some (buf.set i s) else none
  | (_, none) => none

def resampleLen (n fromRate toRate : Nat) : Nat :=
  if fromRate % toRate = 0 then n / (fromRate / toRate) else n * toRate / fromRate

/-- The assignments of the general loop, with the clamp to the last sample. -/
def resampleLoop (pcm : List Int16) (n fromRate toRate : Nat) : List (Nat × Option Int16) :=
  (range n).map fun i =>
    let src := i * fromRate / toRate
    (i, pcm[if pcm.length ≤ src then pcm.length - 1 else src]?)

/-- What both functions do around their loop. -/
def resampleInto (loop : Nat → Nat → Nat → List (Nat × Option Int16)) (pcm : List Int16) (fromRate toRate : Int)
    (buf : List Int16) : Option (List Int16) :=
  if fromRate ≤ 0 ∨ toRate ≤ 0 ∨ fromRate = toRate then some pcm
  else
    let n := resampleLen pcm.length fromRate.toNat toRate.toNat
    if n = 0 then some []
    else (loop n fromRate.toNat toRate.toNat).foldlM store (if buf.length < n then replicate n 0 else buf.take n)

def downsampleInto (pcm : List Int16) : Int → Int → List Int16 → Option (List Int16) :=
  resampleInto (fun n fromRate toRate =>
    if fromRate % toRate = 0 then (range n).map fun i => (i, pcm[i * (fromRate / toRate)]?)
    else resampleLoop pcm n fromRate toRate) pcm

def upsampleInto (pcm : List Int16) : Int → Int → List Int16 → Option (List Int16) :=
  resampleInto (fun n fromRate toRate =>
    if toRate % fromRate = 0 then
      let ratio := toRate / fromRate
      pcm.zipIdx.flatMap fun (s, i) => (range ratio).map fun r => (i * ratio + r, some s)
    else resampleLoop pcm n fromRate toRate) pcm

/-- Each sample of `out` is the one that `pcm` has at that time. -/
structure Resampled (pcm : List Int16) (fromRate toRate : Nat) (out : List Int16) : Prop where
  length : out.length = pcm.length * toRate / fromRate
  sample : ∀ i < out.length, i * fromRate / toRate < pcm.length ∧ out[i]? = pcm[i * fromRate / toRate]?

section
variable {pcm : List Int16} {fromRate toRate i n : Nat}

theorem resampleLen_eq (high : 0 < toRate) : resampleLen n fromRate toRate = n * toRate / fromRate := by
  unfold resampleLen
  split
  next whole =>
    obtain ⟨ratio, rfl⟩ := Nat.dvd_of_mod_eq_zero whole
    rw [Nat.mul_div_cancel_left _ high, mul_comm n, Nat.mul_div_mul_left _ _ high]
  next => rfl

theorem source_lt (low : 0 < fromRate) (inside : i < n * toRate / fromRate) : i * fromRate / toRate < n := by
  have below : (i + 1) * fromRate ≤ n * toRate := (Nat.le_div_iff_mul_le low).1 inside
  rw [Nat.add_mul, one_mul] at below
  exact Nat.div_lt_of_lt_mul (by rw [mul_comm toRate]; omega)

/-- A loop that assigns to the positions one after the other leaves what it assigned. -/
theorem foldlM_store {out buf : List Int16} {value : Nat → Option Int16} (values : ∀ i < out.length, out[i]? = value i)
    (room : buf.length = out.length) : ∀ k ≤ out.length,
      ((range k).map fun i => (i, value i)).foldlM store buf = some (out.take k ++ buf.drop k) := by
  intro k
  induction k with
  | zero => intro _; rfl
  | succ k ih =>
    intro inside
    have now : value k = some out[k] := (values k inside).symm.trans (getElem?_eq_getElem inside)
    have short : (out.take k).length = k := length_take_of_le (by omega)
    have fits : k < (out.take k ++ buf.drop k).length := by
      rw [length_append, short, length_drop]
      omega
    calc ((range (k + 1)).map fun i => (i, value i)).foldlM store buf
      _ = store (out.take k ++ buf.drop k) (k, some out[k]) := by
        rw [range_succ, map_append, foldlM_append, ih (by omega)]
        simp [now]
      _ = some ((out.take k ++ buf.drop k).set k out[k]) := if_pos fits
      _ = some (out.take (k + 1) ++ buf.drop (k + 1)) := by
        rw [set_append_right _ _ short.le, short, Nat.sub_self, drop_eq_getElem_cons (by omega), set_cons_zero,
          take_succ_eq_append_getElem inside, append_assoc, singleton_append]

theorem resampleLoop_eq (low : 0 < fromRate) (size : n = pcm.length * toRate / fromRate) :
    resampleLoop pcm n fromRate toRate = (range n).map fun i => (i, pcm[i * fromRate / toRate]?) := by
  apply map_congr_left
  intro i member
  have within : i * fromRate / toRate < pcm.length := source_lt low (size ▸ mem_range.1 member)
  simp only [if_neg (not_le.2 within)]

/-- The loop of upsampling by a whole factor, as a loop over the result. -/
theorem zipIdx_flatMap_eq (pcm : List Int16) {ratio : Nat} (positive : 0 < ratio) :
    (pcm.zipIdx.flatMap fun (s, i) => (range ratio).map fun r => (i * ratio + r, some s)) =
      (range (pcm.length * ratio)).map fun j => (j, pcm[j / ratio]?) := by
  induction pcm using List.reverseRecOn with
  | nil => simp
  | append_singleton pcm s ih =>
    rw [zipIdx_append, flatMap_append, ih, length_append, length_singleton, add_mul, one_mul, range_add, map_append]
    congr 1
    · apply map_congr_left
      intro j member
      rw [getElem?_append_left (Nat.div_lt_of_lt_mul (by rw [mul_comm]; exact mem_range.1 member))]
    · simp only [zipIdx_singleton, flatMap_singleton, zero_add, map_map]
      apply map_congr_left
      intro r member
      have here : (pcm.length * ratio + r) / ratio = pcm.length := by
        rw [mul_comm, Nat.mul_add_div positive, Nat.div_eq_of_lt (mem_range.1 member), add_zero]
      simp [here]

variable (pcm) (buf : List Int16) (low : 0 < fromRate) (high : 0 < toRate) (different : fromRate ≠ toRate)
include low high different

/-- Whatever the loop, if it assigns the right samples the function is right. -/
theorem resampleInto_resampled {loop : Nat → Nat → Nat → List (Nat × Option Int16)}
    (assigns : ∀ n, n = pcm.length * toRate / fromRate →
      loop n fromRate toRate = (range n).map fun i => (i, pcm[i * fromRate / toRate]?)) :
    ∃ out, resampleInto loop pcm fromRate toRate buf = some out ∧ Resampled pcm fromRate toRate out := by
  let out := (range (pcm.length * toRate / fromRate)).map fun i => (pcm[i * fromRate / toRate]?).getD 0
  have count : out.length = pcm.length * toRate / fromRate := by simp [out]
  have sample : ∀ i < out.length, i * fromRate / toRate < pcm.length ∧ out[i]? = pcm[i * fromRate / toRate]? := by
    intro i inside
    rw [count] at inside
    have within : i * fromRate / toRate < pcm.length := source_lt low inside
    refine ⟨within, ?_⟩
    rw [getElem?_map, getElem?_range inside, Option.map_some, getElem?_eq_getElem within, Option.getD_some]
  refine ⟨out, ?_, count, sample⟩
  unfold resampleInto
  rw [if_neg (by omega)]
  simp only [Int.toNat_natCast, resampleLen_eq high, ← count]
  split
  next none => rw [eq_nil_of_length_eq_zero none]
  next =>
    have room :
        (if buf.length < out.length then replicate out.length 0 else buf.take out.length).length = out.length := by
      split
      · exact length_replicate
      · rw [length_take]
        omega
    rw [assigns _ count, foldlM_store (fun i inside => (sample i inside).2) room _ le_rfl, take_length,
      drop_eq_nil_of_le room.le, append_nil]

theorem downsampleInto_resampled :
    ∃ out, downsampleInto pcm fromRate toRate buf = some out ∧ Resampled pcm fromRate toRate out := by
  apply resampleInto_resampled pcm buf low high different
  intro n size
  split
  next whole =>
    obtain ⟨ratio, rfl⟩ := Nat.dvd_of_mod_eq_zero whole
    simp only [mul_comm toRate ratio, ← mul_assoc, Nat.mul_div_cancel _ high]
  next => exact resampleLoop_eq low size

theorem upsampleInto_resampled :
    ∃ out, upsampleInto pcm fromRate toRate buf = some out ∧ Resampled pcm fromRate toRate out := by
  apply resampleInto_resampled pcm buf low high different
  intro n size
  split
  next whole =>
    obtain ⟨ratio, rfl⟩ := Nat.dvd_of_mod_eq_zero whole
    rw [mul_comm fromRate, ← mul_assoc, Nat.mul_div_cancel _ low] at size
    simp only [mul_comm fromRate ratio, Nat.mul_div_mul_right _ _ low, Nat.mul_div_cancel _ low, size]
    exact zipIdx_flatMap_eq pcm (Nat.pos_of_mul_pos_left high)
  next => exact resampleLoop_eq low size

end

/-- Both conversions take the samples at the right times, and going up by a whole factor and down changes nothing. -/
theorem resample_exact :
    (∀ (pcm buf : List Int16) (fromRate toRate : Nat), 0 < fromRate → 0 < toRate → fromRate ≠ toRate →
      (∃ out, downsampleInto pcm fromRate toRate buf = some out ∧ Resampled pcm fromRate toRate out) ∧
        ∃ out, upsampleInto pcm fromRate toRate buf = some out ∧ Resampled pcm fromRate toRate out) ∧
      ∀ (x buf buf' : List Int16) (r k : Nat), 1 ≤ r → 2 ≤ k →
        ∃ up, upsampleInto x r (k * r : Nat) buf = some up ∧ downsampleInto up (k * r : Nat) r buf' = some x := by
  constructor
  · intro pcm buf fromRate toRate low high different
    exact ⟨downsampleInto_resampled pcm buf low high different, upsampleInto_resampled pcm buf low high different⟩
  · intro x buf buf' r k low factor
    have more : r < k * r := by nlinarith
    have high : 0 < k * r := Nat.zero_lt_of_lt more
    obtain ⟨up, raised, above⟩ := upsampleInto_resampled x buf low high more.ne
    obtain ⟨out, lowered, below⟩ := downsampleInto_resampled up buf' high low more.ne'
    have count : out.length = x.length := by
      rw [below.length, above.length, ← mul_assoc, Nat.mul_div_cancel _ low, mul_assoc,
        Nat.mul_div_cancel _ high]
    have same : out = x := by
      apply ext_getElem?
      intro i
      by_cases inside : i < out.length
      · have first := below.sample i inside
        rw [← mul_assoc, Nat.mul_div_cancel _ low] at first
        rw [first.2, (above.sample _ first.1).2, mul_assoc, Nat.mul_div_cancel _ high]
      · rw [getElem?_eq_none (by omega), getElem?_eq_none (by omega)]
    exact ⟨up, raised, same ▸ lowered⟩

/-! ### Channels -/

/-- Samples with a record of the positions that were overwritten and of whether one of them was read again. -/
structure Buffer where
  samples : List Int16
  written : List Nat := []
  stale : Bool := false

namespace Buffer

def read (b : Buffer) (i : Nat) : Option (Int16 × Buffer) :=
  b.samples[i]?.map fun s => (s, { b with stale := b.stale || i ∈ b.written })

def write (b : Buffer) (i : Nat) (s : Int16) : Option Buffer :=
  (store b.samples (i, some s)).map fun samples => { b with samples, written := i :: b.written }

/-- The inner loop. The sum does not leave an `int`: no slice has 2 ^ 48 samples. -/
def accumulate (b : Buffer) (base : Nat) : Nat → Option (Int × Buffer)
  | 0 => some (0, b)
  | ch + 1 => do
    let (acc, b) ← b.accumulate base ch
    let (s, b) ← b.read (base + ch)
    return (acc + s.toInt, b)

/-- The outer loop, up to a frame. -/
def mixdown (b : Buffer) (channels : Nat) : Nat → Option Buffer
  | 0 => some b
  | i + 1 => do
    let b ← b.mixdown channels i
    let (acc, b) ← b.accumulate (i * channels) channels
    b.write i (Int16.ofInt (acc.tdiv channels))

end Buffer

def mixdownInterleaved (pcm : List Int16) (channels : Int) : Option Buffer :=
  if channels ≤ 1 ∨ pcm.length < channels then some { samples := pcm }
  else
    let n := pcm.length / channels.toNat
    (Buffer.mixdown { samples := pcm } channels.toNat n).map fun b => { b with samples := b.samples.take n }

/-- The sum of a frame. -/
def frameSum (pcm : List Int16) (channels i : Nat) : Int :=
  (((pcm.drop (i * channels)).take channels).map Int16.toInt).sum

section
variable {pcm : List Int16} {channels i : Nat} {b : Buffer}

/-- After `i` frames: their averages stand in front, and what is still to be read is untouched. -/
structure Mixed (pcm : List Int16) (channels i : Nat) (b : Buffer) : Prop where
  length : b.samples.length = pcm.length
  rest : b.samples.drop i = pcm.drop i
  mixed : ∀ j < i, b.samples[j]? = some (Int16.ofInt ((frameSum pcm channels j).tdiv channels))
  behind : ∀ j ∈ b.written, j < i
  fresh : b.stale = false

theorem Mixed.accumulate (mixed : Mixed pcm channels i b) {base : Nat} (ahead : i ≤ base) :
    ∀ k, base + k ≤ pcm.length →
      b.accumulate base k = some ((((pcm.drop base).take k).map Int16.toInt).sum, b) := by
  intro k
  induction k with
  | zero => intro _; rfl
  | succ k ih =>
    intro inside
    have here : b.samples[base + k]? = pcm[base + k]? := by
      have same := congrArg (·[base + k - i]?) mixed.rest
      simpa only [getElem?_drop, Nat.add_sub_cancel' (ahead.trans (Nat.le_add_right base k))] using same
    have unwritten : base + k ∉ b.written := fun member => absurd (mixed.behind _ member) (by omega)
    rw [Buffer.accumulate, ih (by omega)]
    simp [Buffer.read, here, getElem?_eq_getElem (show base + k < pcm.length by omega), unwritten, take_add_one]

theorem Mixed.step (mixed : Mixed pcm channels i b) (wide : 1 ≤ channels) (inside : (i + 1) * channels ≤ pcm.length) :
    ∃ b', (do let (acc, b) ← b.accumulate (i * channels) channels
              b.write i (Int16.ofInt (acc.tdiv channels))) = some b' ∧ Mixed pcm channels (i + 1) b' := by
  have ahead : i ≤ i * channels := Nat.le_mul_of_pos_right i wide
  rw [Nat.add_mul, one_mul] at inside
  have short : i < b.samples.length := by
    rw [mixed.length]
    omega
  let s := Int16.ofInt ((frameSum pcm channels i).tdiv channels)
  refine ⟨{ b with samples := b.samples.set i s, written := i :: b.written }, ?_, length_set.trans mixed.length,
    ?_, ?_, ?_, mixed.fresh⟩
  · rw [mixed.accumulate ahead channels inside]
    simp [Buffer.write, store, short, s, frameSum]
  · have rest := congrArg tail mixed.rest
    rw [tail_drop, tail_drop] at rest
    rw [drop_set, if_pos (Nat.lt_succ_self i), rest]
  · intro j below
    rw [getElem?_set]
    split
    next same => rw [← same]
    next other => exact mixed.mixed j (by omega)
  · intro j member
    rcases mem_cons.1 member with rfl | member
    · exact Nat.lt_succ_self j
    · exact (mixed.behind j member).trans (Nat.lt_succ_self i)

theorem mixed_mixdown (pcm : List Int16) (wide : 1 ≤ channels) : ∀ n, n * channels ≤ pcm.length →
    ∃ b, Buffer.mixdown { samples := pcm } channels n = some b ∧ Mixed pcm channels n b := by
  intro n
  induction n with
  | zero => intro _; exact ⟨_, rfl, rfl, rfl, nofun, nofun, rfl⟩
  | succ n ih =>
    intro inside
    obtain ⟨b, done, mixed⟩ := ih ((Nat.mul_le_mul_right channels n.le_succ).trans inside)
    obtain ⟨b', next, mixed'⟩ := mixed.step wide inside
    exact ⟨b', by rw [Buffer.mixdown, done]; exact next, mixed'⟩

/-- An average of samples is a sample. -/
theorem toInt_average (frame : List Int16) (filled : 0 < frame.length) :
    (Int16.ofInt ((frame.map Int16.toInt).sum.tdiv frame.length)).toInt =
      (frame.map Int16.toInt).sum.tdiv frame.length := by
  have bounds : -2 ^ 15 * (frame.length : Int) ≤ (frame.map Int16.toInt).sum ∧
      (frame.map Int16.toInt).sum ≤ (2 ^ 15 - 1) * (frame.length : Int) := by
    clear filled
    induction frame with
    | nil => simp
    | cons s frame ih =>
      have low := s.le_toInt
      have high := s.toInt_lt
      rw [map_cons, sum_cons, length_cons]
      omega
  have positive : (0 : Int) < frame.length := by exact_mod_cast filled
  have low := Int.tdiv_le_tdiv positive bounds.1
  have high := Int.tdiv_le_tdiv positive bounds.2
  rw [Int.mul_tdiv_cancel _ positive.ne'] at low high
  exact Int16.toInt_ofInt_of_le low (by omega)

end

/-- The averages overwrite only samples that have been read. -/
theorem mixdownInterleaved_averages (pcm : List Int16) (channels : Nat) (several : 2 ≤ channels)
    (enough : channels ≤ pcm.length) :
    ∃ b, mixdownInterleaved pcm channels = some b ∧ b.samples.length = pcm.length / channels ∧ b.stale = false ∧
      ∀ i < pcm.length / channels, ∃ s, b.samples[i]? = some s ∧
        s.toInt = (frameSum pcm channels i).tdiv channels := by
  let n := pcm.length / channels
  obtain ⟨b, done, mixed⟩ := mixed_mixdown pcm (by omega : 1 ≤ channels) n (Nat.div_mul_le_self _ _)
  have count : n ≤ b.samples.length := mixed.length ▸ Nat.div_le_self _ _
  refine ⟨{ b with samples := b.samples.take n }, ?_, length_take_of_le count, mixed.fresh, ?_⟩
  · rw [mixdownInterleaved, if_neg (by omega), Int.toNat_natCast]
    exact congrArg (Option.map _) done
  · intro i inside
    have frame : ((pcm.drop (i * channels)).take channels).length = channels := by
      have below := (Nat.mul_le_mul_right channels inside).trans (Nat.div_mul_le_self pcm.length channels)
      rw [Nat.succ_mul] at below
      rw [length_take, length_drop]
      omega
    refine ⟨_, (getElem?_take_of_lt inside).trans (mixed.mixed i inside), ?_⟩
    have whole := toInt_average ((pcm.drop (i * channels)).take channels) (by omega)
    rwa [frame] at whole

theorem mixdownInterleaved_averages_stereo : ∃ b, mixdownInterleaved [1, 4, -5, -8] 2 = some b ∧ b.samples.length = 2 ∧
    b.stale = false ∧ ∀ i < 2, ∃ s, b.samples[i]? = some s ∧
      s.toInt = (frameSum [1, 4, -5, -8] 2 i).tdiv 2 :=
  mixdownInterleaved_averages [1, 4, -5, -8] 2 (by decide) (by decide)

end ReticulumProtocols.Lxst
