import ReticulumProtocols.Lxmf.RateLimit
import ReticulumProtocols.RateLimit.Meter

/-! The rate limiters of LXMF sessions and of LXST calls, which share one algorithm, with exact arithmetic
for the tokens. A source that was pruned from a full table before its bucket had refilled starts again with a
full bucket; in the runs where this does not happen, the calls accepted in any window are bounded. -/

namespace ReticulumProtocols.RateLimit
open Wire Lxmf

structure Bucket where
  tokens : ℚ
  last : Int

/-- A limiter with the times and durations in nanoseconds. -/
structure Limiter where
  interval : Int
  burst : Int
  buckets : GoMap Bytes Bucket := ∅
  interval_pos : 0 < interval
  burst_pos : 0 < burst

/-- What a limiter falls back to. -/
structure Defaults where
  interval : Int
  burst : Int
  interval_pos : 0 < interval
  burst_pos : 0 < burst

def newLimiter (d : Defaults) (interval burst : Int) : Limiter where
  interval := if interval ≤ 0 then d.interval else interval
  burst := if burst ≤ 0 then d.burst else burst
  interval_pos := by
    split
    · exact d.interval_pos
    next given => exact not_le.1 given
  burst_pos := by
    split
    · exact d.burst_pos
    next given => exact not_le.1 given

/-- `Duration.Seconds`. -/
def seconds (duration : Int) : ℚ := duration / 1000000000

namespace Limiter
variable (r : Limiter)

def full : Bool := decide (r.buckets.keys.length ≥ rateLimitMaxBuckets)

def staleAfter : Int := max (r.interval * 2) 60000000000

/-- The first loop of `pruneLocked`. -/
def fresh (now : Int) : GoMap Bytes Bucket := eraseWhere (fun bucket => now - bucket.last > r.staleAfter) r.buckets

/-- `pruneLocked`: stale buckets go, and if that is not enough, the first half that `visit` meets. -/
def pruneLocked (now : Int) (visit : Visit) : Limiter :=
  let fresh := r.fresh now
  if fresh.keys.length < rateLimitMaxBuckets then { r with buckets := fresh }
  else
    let first := (visit.run fresh.keys).take (rateLimitMaxBuckets / 2)
    { r with buckets := first.foldl (fun buckets key => buckets.erase key) fresh }

/-- The check that `Allow` makes before it looks for a bucket, and again before it adds one. -/
def makeRoom (now : Int) (visit : Visit) : Limiter := if r.full then r.pruneLocked now visit else r

def put (key : Bytes) (bucket : Bucket) : Limiter := { r with buckets := r.buckets.insert key bucket }

/-- The refill and the withdrawal of `Allow`. -/
def withdraw (key : Bytes) (bucket : Bucket) (now : Int) : Limiter × Bool :=
  let tokens := bucket.tokens + seconds (now - bucket.last) / seconds r.interval
  let tokens := if tokens > r.burst then (r.burst : ℚ) else tokens
  if tokens < 1 then (r.put key ⟨tokens, now⟩, false) else (r.put key ⟨tokens - 1, now⟩, true)

/-- `Allow`; each of its two prunings has a map order of its own. -/
def allow (hash : Bytes) (now : Int) (first second : Visit) : Limiter × Bool :=
  let r := r.makeRoom now first
  match r.buckets.lookup (rateHashKey hash) with
  | some bucket => r.withdraw (rateHashKey hash) bucket now
  | none =>
    let r := r.makeRoom now second
    if r.full then (r, false) else r.withdraw (rateHashKey hash) ⟨r.burst, now⟩ now

end Limiter

structure AllowCall where
  hash : Bytes
  now : Int
  first : Visit
  second : Visit

/-- A limiter as a machine that answers calls of `Allow`. -/
def allowing : Machine Limiter AllowCall where
  step r call := r.allow call.hash call.now call.first call.second
  time := AllowCall.now

end ReticulumProtocols.RateLimit

namespace ReticulumProtocols.Lxmf

/-- `newRateLimiter` of a session. -/
def newRateLimiter : Int → Int → RateLimit.Limiter :=
  RateLimit.newLimiter { interval := 60000000000, burst := 20, interval_pos := by decide, burst_pos := by decide }

end ReticulumProtocols.Lxmf

namespace ReticulumProtocols.Lxst

/-- `NewRateLimiter` for incoming calls. -/
def newRateLimiter : Int → Int → RateLimit.Limiter :=
  RateLimit.newLimiter { interval := 60000000000, burst := 3, interval_pos := by decide, burst_pos := by decide }

end ReticulumProtocols.Lxst

namespace ReticulumProtocols.RateLimit
open Wire Lxmf List

section
variable {K V : Type} [DecidableEq K]

theorem length_foldl_erase_le (keys : List K) (map : GoMap K V) :
    (keys.foldl (fun map key => map.erase key) map).keys.length ≤ map.keys.length := by
  induction keys generalizing map with
  | nil => exact le_rfl
  | cons first keys ih => exact (ih _).trans (length_erase_le map first)

theorem length_foldl_erase_lt {keys : List K} {map : GoMap K V} {key : K} (member : key ∈ keys) (known : key ∈ map) :
    (keys.foldl (fun map key => map.erase key) map).keys.length < map.keys.length := by
  induction keys generalizing map with
  | nil => contradiction
  | cons first keys ih =>
    rw [foldl_cons]
    by_cases own : key = first
    · have shorter : (map.erase first).keys.length < map.keys.length := by
        rw [AList.keys_erase, length_erase_of_mem (own ▸ AList.mem_keys.1 known)]
        exact Nat.sub_lt (length_pos_of_mem (AList.mem_keys.1 known)) one_pos
      exact (length_foldl_erase_le keys _).trans_lt shorter
    · have later : key ∈ keys := (List.mem_cons.1 member).resolve_left own
      exact (ih later (AList.mem_erase.2 ⟨own, known⟩)).trans_le (length_erase_le map first)

end

namespace Limiter
variable (r : Limiter)

/-- What a source may still spend: the tokens of its bucket, or all of them if it has none. -/
def level (key : Bytes) (now : Int) : ℚ :=
  match r.buckets.lookup key with
  | some bucket => min r.burst (bucket.tokens + seconds (now - bucket.last) / seconds r.interval)
  | none => r.burst

/-- What holds of every limiter that is in use. -/
structure Valid (now : Int) : Prop where
  bounded : r.buckets.keys.length ≤ rateLimitMaxBuckets
  bucket : ∀ key bucket, r.buckets.lookup key = some bucket → 0 ≤ bucket.tokens ∧ bucket.last ≤ now

/-- A call that takes no tokens back: if it finds the table full, and the bucket of the source is stale or no
bucket is, then that bucket has refilled. -/
def Spares (key : Bytes) (now : Int) : Prop :=
  r.full → ∀ bucket, r.buckets.lookup key = some bucket →
    (now - bucket.last > r.staleAfter ∨ ∀ entry ∈ r.buckets.entries, ¬now - entry.2.last > r.staleAfter) →
    r.burst ≤ bucket.tokens + seconds (now - bucket.last) / seconds r.interval

variable {r}

theorem length_fresh_le (now : Int) : (r.fresh now).keys.length ≤ r.buckets.keys.length := by
  rw [fresh, eraseWhere_eq]
  exact length_foldl_erase_le _ r.buckets

theorem not_stale_of_length {now : Int} (same : r.buckets.keys.length ≤ (r.fresh now).keys.length) :
    ∀ entry ∈ r.buckets.entries, ¬now - entry.2.last > r.staleAfter := by
  intro entry member stale
  rw [fresh, eraseWhere_eq] at same
  have erased : entry.1 ∈ (r.buckets.entries.filter fun entry => now - entry.2.last > r.staleAfter).map Sigma.fst :=
    mem_map_of_mem (List.mem_filter.2 ⟨member, decide_eq_true stale⟩)
  have known : entry.1 ∈ r.buckets := AList.mem_keys.2 (mem_map_of_mem member)
  exact absurd same (not_le.2 (length_foldl_erase_lt erased known))

theorem buckets_pruneLocked_le (now : Int) (visit : Visit) :
    (r.pruneLocked now visit).buckets.keys.length ≤ (r.fresh now).keys.length := by
  rw [pruneLocked]
  dsimp only
  split
  · exact le_rfl
  · exact length_foldl_erase_le _ _

theorem not_full_pruneLocked (bounded : r.buckets.keys.length ≤ rateLimitMaxBuckets) (now : Int) (visit : Visit) :
    (r.pruneLocked now visit).full = false := by
  apply decide_eq_false
  rw [not_le, pruneLocked]
  dsimp only
  split
  next room => exact room
  next crowded =>
    have visited : 0 < ((visit.run (r.fresh now).keys).take (rateLimitMaxBuckets / 2)).length := by
      rw [length_take, (visit.perm _).length_eq]
      exact lt_min (by decide) (lt_of_lt_of_le (by decide) (not_lt.1 crowded))
    obtain ⟨key, member⟩ := exists_mem_of_length_pos visited
    have known : key ∈ r.fresh now := AList.mem_keys.2 ((visit.perm _).mem_iff.1 (mem_of_mem_take member))
    exact (length_foldl_erase_lt member known).trans_le (r.length_fresh_le now |>.trans bounded)

/-- Pruning a table takes buckets out, stale ones or any if there are too many others, and changes none. -/
theorem lookup_pruneLocked (now : Int) (visit : Visit) (key : Bytes) :
    (r.pruneLocked now visit).buckets.lookup key = r.buckets.lookup key ∨
      (r.pruneLocked now visit).buckets.lookup key = none ∧ ∀ bucket, r.buckets.lookup key = some bucket →
        now - bucket.last > r.staleAfter ∨ rateLimitMaxBuckets ≤ (r.fresh now).keys.length := by
  have first : (r.fresh now).lookup key = r.buckets.lookup key ∨
      (r.fresh now).lookup key = none ∧ ∀ bucket, r.buckets.lookup key = some bucket →
        now - bucket.last > r.staleAfter := by
    rw [fresh, lookup_eraseWhere]
    cases found : r.buckets.lookup key with
    | none => exact Or.inl rfl
    | some bucket =>
      rw [Option.filter_some]
      by_cases stale : now - bucket.last > r.staleAfter
      · rw [decide_eq_true stale]
        exact Or.inr ⟨rfl, fun _ same => Option.some.inj same ▸ stale⟩
      · rw [decide_eq_false stale]
        exact Or.inl rfl
  rw [pruneLocked]
  dsimp only
  split
  · exact first.imp_right fun gone => ⟨gone.1, fun bucket found => Or.inl (gone.2 bucket found)⟩
  next crowded =>
    rw [lookup_foldl_erase]
    split
    · exact Or.inr ⟨rfl, fun _ _ => Or.inr (not_lt.1 crowded)⟩
    · exact first.imp_right fun gone => ⟨gone.1, fun bucket found => Or.inl (gone.2 bucket found)⟩

theorem burst_pruneLocked (now : Int) (visit : Visit) : (r.pruneLocked now visit).burst = r.burst := by
  rw [pruneLocked]
  split <;> rfl

theorem interval_pruneLocked (now : Int) (visit : Visit) : (r.pruneLocked now visit).interval = r.interval := by
  rw [pruneLocked]
  split <;> rfl

theorem level_of_lookup {t : Limiter} {key : Bytes} (same : t.buckets.lookup key = r.buckets.lookup key)
    (burst : t.burst = r.burst) (interval : t.interval = r.interval) (now : Int) :
    t.level key now = r.level key now := by
  rw [level, level, same, burst, interval]

variable {key : Bytes} {now : Int}

theorem not_full_makeRoom (bounded : r.buckets.keys.length ≤ rateLimitMaxBuckets) (visit : Visit) :
    (r.makeRoom now visit).full = false := by
  rw [makeRoom]
  split
  · exact not_full_pruneLocked bounded now visit
  next room => exact Bool.eq_false_iff.2 room

/-- If the call spares the source, room is made without a change to its level. -/
theorem level_makeRoom (valid : r.Valid now) (spares : r.Spares key now) (visit : Visit) :
    (r.makeRoom now visit).level key now = r.level key now := by
  rw [makeRoom]
  split
  next full =>
    have burst := r.burst_pruneLocked now visit
    rcases r.lookup_pruneLocked now visit key with same | ⟨gone, why⟩
    · exact level_of_lookup same burst (r.interval_pruneLocked now visit) now
    · rw [level, level, gone, burst]
      cases found : r.buckets.lookup key with
      | none => rfl
      | some bucket =>
        have refilled := spares full bucket found ((why bucket found).imp_right fun crowded =>
          not_stale_of_length (valid.bounded.trans crowded))
        exact (min_eq_left refilled).symm
  · rfl

theorem Valid.makeRoom (valid : r.Valid now) (visit : Visit) : (r.makeRoom now visit).Valid now := by
  rw [Limiter.makeRoom]
  split
  · refine ⟨(buckets_pruneLocked_le now visit).trans ((length_fresh_le now).trans valid.bounded), ?_⟩
    intro key bucket found
    rcases r.lookup_pruneLocked now visit key with same | ⟨gone, _⟩
    · exact valid.bucket key bucket (same ▸ found)
    · rw [gone] at found
      contradiction
  · exact valid

/-- `Allow` withdraws from the bucket of the source, or from a full one. -/
theorem allow_eq (bounded : r.buckets.keys.length ≤ rateLimitMaxBuckets) (hash : Bytes) (now : Int)
    (first second : Visit) :
    r.allow hash now first second = (r.makeRoom now first).withdraw (rateHashKey hash)
      (((r.makeRoom now first).buckets.lookup (rateHashKey hash)).getD ⟨(r.makeRoom now first).burst, now⟩) now := by
  have room : (r.makeRoom now first).full = false := not_full_makeRoom bounded first
  rw [allow]
  dsimp only
  split
  next bucket found => rw [found, Option.getD_some]
  next missing =>
    rw [makeRoom, room]
    rw [missing, Option.getD_none, if_neg Bool.false_ne_true, room, if_neg Bool.false_ne_true]

theorem tokens_eq_level (r : Limiter) (key : Bytes) (now : Int) :
    (let bucket := (r.buckets.lookup key).getD ⟨r.burst, now⟩
    let tokens := bucket.tokens + seconds (now - bucket.last) / seconds r.interval
    if tokens > r.burst then (r.burst : ℚ) else tokens) = r.level key now := by
  dsimp only
  rw [level]
  cases r.buckets.lookup key with
  | none => simp [seconds]
  | some bucket =>
    by_cases more : bucket.tokens + seconds (now - bucket.last) / seconds r.interval > r.burst
    · exact (if_pos more).trans (min_eq_left more.le).symm
    · exact (if_neg more).trans (min_eq_right (not_lt.1 more)).symm

theorem withdraw_eq (r : Limiter) (key : Bytes) (now : Int) :
    r.withdraw key ((r.buckets.lookup key).getD ⟨r.burst, now⟩) now =
      if r.level key now < 1 then (r.put key ⟨r.level key now, now⟩, false)
      else (r.put key ⟨r.level key now - 1, now⟩, true) := by
  rw [withdraw, ← tokens_eq_level r key now]

theorem level_put {tokens : ℚ} (most : tokens ≤ r.burst) (key : Bytes) (now : Int) :
    (r.put key ⟨tokens, now⟩).level key now = tokens := by
  rw [level, put, AList.lookup_insert]
  simpa [seconds] using most

theorem level_put_ne {other : Bytes} (apart : key ≠ other) (bucket : Bucket) (now : Int) :
    (r.put other bucket).level key now = r.level key now := by
  apply level_of_lookup
  · exact AList.lookup_insert_ne apart
  · rfl
  · rfl

theorem level_le_burst (r : Limiter) (key : Bytes) (now : Int) : r.level key now ≤ r.burst := by
  rw [level]
  split
  · exact min_le_left _ _
  · exact le_rfl

theorem seconds_div_seconds (duration interval : Int) : seconds duration / seconds interval = duration / interval := by
  rw [seconds, seconds, div_div_div_cancel_right₀ (by norm_num)]

/-- Time passes: the level rises at most by the tokens of the interval. -/
theorem level_rises (r : Limiter) (key : Bytes) {now next : Int} (order : now ≤ next) :
    r.level key next ≤ r.level key now + 1 / r.interval * (next - now) := by
  have positive : (0 : ℚ) < r.interval := Int.cast_pos.2 r.interval_pos
  have risen : (0 : ℚ) ≤ 1 / r.interval * (next - now) :=
    mul_nonneg (one_div_pos.2 positive).le (sub_nonneg.2 (Int.cast_le.2 order))
  rw [level, level]
  split
  next bucket found =>
    have later : bucket.tokens + seconds (next - bucket.last) / seconds r.interval =
        bucket.tokens + seconds (now - bucket.last) / seconds r.interval + 1 / r.interval * (next - now) := by
      rw [seconds_div_seconds, seconds_div_seconds]
      push_cast
      ring
    rw [later, ← min_add_add_right]
    exact min_le_min_right _ (le_add_of_nonneg_right risen)
  · exact le_add_of_nonneg_right risen

theorem level_nonneg (valid : r.Valid now) (key : Bytes) : 0 ≤ r.level key now := by
  have positive : (0 : ℚ) < r.burst := Int.cast_pos.2 r.burst_pos
  rw [level]
  split
  next bucket found =>
    have ⟨tokens, last⟩ := valid.bucket key bucket found
    have elapsed : (0 : ℚ) ≤ seconds (now - bucket.last) / seconds r.interval := by
      rw [seconds_div_seconds]
      exact div_nonneg (Int.cast_nonneg (sub_nonneg.2 last)) (Int.cast_nonneg r.interval_pos.le)
    exact le_min positive.le (add_nonneg tokens elapsed)
  · exact positive.le

theorem Valid.put (valid : r.Valid now) (room : r.full = false) {tokens : ℚ} (some : 0 ≤ tokens) (other : Bytes) :
    (r.put other ⟨tokens, now⟩).Valid now := by
  constructor
  · have free : r.buckets.keys.length < rateLimitMaxBuckets := not_le.1 (of_decide_eq_false room)
    exact (length_insert_le r.buckets other _).trans free
  · intro key bucket found
    rw [Limiter.put] at found
    by_cases own : key = other
    · rw [own, AList.lookup_insert] at found
      rw [← Option.some.inj found]
      exact ⟨some, le_rfl⟩
    · rw [AList.lookup_insert_ne own] at found
      exact valid.bucket key bucket found

/-- A withdrawal from a bucket pays with a token of the source it belongs to. -/
theorem withdraw_pays (valid : r.Valid now) (room : r.full = false) (key own : Bytes) :
    let after := r.withdraw own ((r.buckets.lookup own).getD ⟨r.burst, now⟩) now
    after.1.Valid now ∧ after.1.burst = r.burst ∧ after.1.interval = r.interval ∧
      after.1.level key now + (if decide (own = key) && after.2 then 1 else 0) = r.level key now := by
  have most := r.level_le_burst own now
  dsimp only
  rw [withdraw_eq]
  split
  · refine ⟨valid.put room (level_nonneg valid own) own, rfl, rfl, ?_⟩
    rw [Bool.and_false, if_neg Bool.false_ne_true, add_zero]
    by_cases same : own = key
    · rw [same]
      exact level_put (same ▸ most) key now
    · exact level_put_ne (Ne.symm same) _ now
  next enough =>
    refine ⟨valid.put room (sub_nonneg.2 (not_lt.1 enough)) own, rfl, rfl, ?_⟩
    rw [Bool.and_true]
    by_cases same : own = key
    · rw [same] at most ⊢
      rw [level_put (by linarith) key now, if_pos (decide_eq_true rfl), sub_add_cancel]
    · rw [level_put_ne (Ne.symm same), decide_eq_false same, if_neg Bool.false_ne_true, add_zero]

theorem makeRoom_fixed (r : Limiter) (now : Int) (visit : Visit) :
    (r.makeRoom now visit).burst = r.burst ∧ (r.makeRoom now visit).interval = r.interval := by
  rw [makeRoom]
  split
  · exact ⟨r.burst_pruneLocked now visit, r.interval_pruneLocked now visit⟩
  · exact ⟨rfl, rfl⟩

theorem allow_pays (valid : r.Valid now) (spares : r.Spares key now) (hash : Bytes) (first second : Visit) :
    let after := r.allow hash now first second
    after.1.Valid now ∧ after.1.burst = r.burst ∧ after.1.interval = r.interval ∧
      after.1.level key now + (if decide (rateHashKey hash = key) && after.2 then 1 else 0) = r.level key now := by
  have ⟨kept, burst, interval, paid⟩ := withdraw_pays (valid.makeRoom first) (not_full_makeRoom valid.bounded first) key
    (rateHashKey hash)
  have ⟨burst', interval'⟩ := r.makeRoom_fixed now first
  dsimp only
  rw [allow_eq valid.bounded, ← level_makeRoom valid spares first, ← burst', ← interval']
  exact ⟨kept, burst, interval, paid⟩

/-- The level of a source pays for its calls in the runs that spare it. -/
theorem metered (r : Limiter) (key : Bytes) :
    Metered allowing (fun call => decide (rateHashKey call.hash = key)) (fun s call => s.Spares key call.now)
      (fun s now => s.Valid now ∧ s.burst = r.burst ∧ s.interval = r.interval) (fun s now => s.level key now)
      (r.burst : ℚ) (1 / r.interval) where
  rate_nonneg := one_div_nonneg.2 (Int.cast_nonneg r.interval_pos.le)
  nonneg _ _ valid := level_nonneg valid.1 key
  le_cap s now valid := valid.2.1 ▸ s.level_le_burst key now
  later _ _ _ valid order :=
    ⟨⟨valid.1.bounded, fun key bucket found =>
      have ⟨tokens, last⟩ := valid.1.bucket key bucket found
      ⟨tokens, last.trans order⟩⟩, valid.2⟩
  rises s _ _ valid order := valid.2.2 ▸ s.level_rises key order
  keeps _ call spares valid :=
    have ⟨kept, burst, interval, _⟩ := allow_pays valid.1 spares call.hash call.first call.second
    ⟨kept, burst.trans valid.2.1, interval.trans valid.2.2⟩
  pays _ call spares valid := (allow_pays valid.1 spares call.hash call.first call.second).2.2.2.le

end Limiter

/-- The accepted calls of a source in any window of time number at most the burst and one for each interval. -/
def Limiter.Limits (r : Limiter) (calls : List AllowCall) (source : Bytes) : Prop :=
  ∀ start length : Int, 0 ≤ length →
    (allowing.accepted (fun call => decide (rateHashKey call.hash = rateHashKey source)) start (start + length)
      (allowing.trace r calls) : ℚ) ≤ r.burst + length / r.interval

/-- Both limiters limit a source in every run whose calls spare it. -/
theorem limiters_limit (new : Int → Int → Limiter) (either : new = Lxmf.newRateLimiter ∨ new = Lxst.newRateLimiter)
    (interval burst : Int) (calls : List AllowCall) (source : Bytes)
    (ordered : calls.Pairwise fun a b => a.now ≤ b.now)
    (spared : allowing.Suited (fun r call => r.Spares (rateHashKey source) call.now) (new interval burst) calls) :
    (new interval burst).Limits calls source := by
  have empty : (new interval burst).buckets = ∅ := by
    rcases either with rfl | rfl
    · rfl
    · rfl
  have valid (now : Int) : (new interval burst).Valid now := by
    constructor
    · rw [empty]
      exact Nat.zero_le _
    · intro key bucket found
      rw [empty] at found
      contradiction
  obtain ⟨now, due⟩ : ∃ now, ∀ call ∈ calls, now ≤ allowing.time call := by
    cases calls with
    | nil => exact ⟨0, fun _ member => absurd member not_mem_nil⟩
    | cons call calls => exact ⟨call.now, Machine.first_le ordered⟩
  intro start length nonneg
  have window : start ≤ start + length := le_add_of_nonneg_right nonneg
  have bound := ((new interval burst).metered (rateHashKey source)).accepted_le window ⟨valid now, rfl, rfl⟩ ordered due
    spared
  have span : 1 / ((new interval burst).interval : ℚ) * ((start + length : Int) - start) =
      length / (new interval burst).interval := by
    push_cast
    ring
  rwa [span] at bound

/-- Two calls of a source, of which the second comes before the bucket has refilled. -/
theorem limiters_limit_twice :
    (Lxst.newRateLimiter 60000000000 1).Limits
      [⟨[1], 0, Visit.listed, Visit.listed⟩, ⟨[1], 5, Visit.listed, Visit.listed⟩] [1] := by
  apply limiters_limit Lxst.newRateLimiter (Or.inr rfl)
  · exact List.pairwise_pair.2 (by decide)
  · refine ⟨fun full => ?_, fun full => ?_, trivial⟩
    · contradiction
    · exact absurd full (by decide +kernel)

namespace Limiter

variable {r : Limiter}

theorem allow_snd (bounded : r.buckets.keys.length ≤ rateLimitMaxBuckets) (hash : Bytes) (now : Int)
    (first second : Visit) :
    (r.allow hash now first second).2 = decide (1 ≤ (r.makeRoom now first).level (rateHashKey hash) now) := by
  rw [allow_eq bounded, withdraw_eq]
  split
  next less => exact (decide_eq_false (not_le.2 less)).symm
  next enough => exact (decide_eq_true (not_lt.1 enough)).symm

/-- A call for a source without a bucket, in a table with room, adds one and is accepted. -/
theorem allow_new (room : r.full = false) (hash : Bytes) (missing : rateHashKey hash ∉ r.buckets) (now : Int)
    (first second : Visit) :
    r.allow hash now first second = (r.put (rateHashKey hash) ⟨r.burst - 1, now⟩, true) := by
  have same : r.makeRoom now first = r := by
    rw [makeRoom, room]
    rfl
  have bounded : r.buckets.keys.length ≤ rateLimitMaxBuckets := (not_le.1 (of_decide_eq_false room)).le
  have level : r.level (rateHashKey hash) now = r.burst := by
    rw [Limiter.level, AList.lookup_eq_none.2 missing]
  have one : (1 : ℚ) ≤ r.burst := by exact_mod_cast r.burst_pos
  rw [allow_eq bounded, same, withdraw_eq, level, if_neg (not_lt.2 one)]

theorem fresh_eq {now : Int} (recent : ∀ entry ∈ r.buckets.entries, ¬now - entry.2.last > r.staleAfter) :
    r.fresh now = r.buckets := by
  have none : (r.buckets.entries.filter fun entry => now - entry.2.last > r.staleAfter) = [] :=
    List.filter_eq_nil_iff.2 fun entry member stale => recent entry member (of_decide_eq_true stale)
  rw [fresh, eraseWhere_eq, none]
  rfl

end Limiter

/-- A map that is gone through from its end. -/
def reversed : Visit := ⟨List.reverse, reverse_perm⟩

theorem run_reversed {α : Type} (entries : List α) : reversed.run entries = entries.reverse := rfl

/-- The first calls of that many sources, all at once. -/
def crowd (sources : Nat) : List AllowCall :=
  (List.range sources).map fun i => ⟨be 16 i, 0, Visit.listed, Visit.listed⟩

theorem rateHashKey_be (i : Nat) : rateHashKey (be 16 i) = be 16 i := by
  rw [rateHashKey, take_append_of_le_length (be_length 16 i).ge, take_of_length_le (be_length 16 i).le]

/-- A table that holds the sources of a crowd, all of which have just called. -/
structure Crowded (r : Limiter) (sources : Nat) : Prop where
  keys : r.buckets.keys = ((List.range sources).map (be 16)).reverse
  recent : ∀ entry ∈ r.buckets.entries, entry.2.last = 0
  burst : r.burst = 1

theorem Crowded.length {r : Limiter} {sources : Nat} (crowded : Crowded r sources) :
    r.buckets.keys.length = sources := by
  rw [crowded.keys, length_reverse, length_map, length_range]

theorem crowded_run {r : Limiter} (empty : r.buckets = ∅) (burst : r.burst = 1) {sources : Nat}
    (fits : sources ≤ rateLimitMaxBuckets) : Crowded (allowing.run r (crowd sources)) sources := by
  induction sources with
  | zero =>
    refine ⟨?_, ?_, burst⟩
    · rw [show allowing.run r (crowd 0) = r from rfl, empty]
      rfl
    · rw [show allowing.run r (crowd 0) = r from rfl, empty]
      exact fun _ member => absurd member not_mem_nil
  | succ sources ih =>
    have before := ih (Nat.le_of_succ_le fits)
    have split : allowing.run r (crowd (sources + 1)) = ((allowing.run r (crowd sources)).allow (be 16 sources) 0
        Visit.listed Visit.listed).1 := by
      rw [crowd, range_succ, map_append, Machine.run, foldl_append]
      rfl
    generalize allowing.run r (crowd sources) = s at *
    have room : s.full = false := decide_eq_false (not_le.2 (before.length.trans_lt fits))
    have missing : rateHashKey (be 16 sources) ∉ s.buckets := by
      rw [AList.mem_keys, before.keys, rateHashKey_be, mem_reverse]
      intro member
      obtain ⟨i, inside, same⟩ := List.mem_map.1 member
      have earlier := List.mem_range.1 inside
      have small : sources < 256 ^ 16 := lt_of_lt_of_le (Nat.lt_of_succ_le fits) (by decide)
      have equal := congrArg beNat same
      rw [beNat_be 16 i (earlier.trans small), beNat_be 16 sources small] at equal
      exact absurd equal earlier.ne
    have entries : (s.put (rateHashKey (be 16 sources)) ⟨s.burst - 1, 0⟩).buckets.entries =
        ⟨rateHashKey (be 16 sources), ⟨s.burst - 1, 0⟩⟩ :: s.buckets.entries := AList.entries_insert_of_notMem missing
    rw [split, s.allow_new room _ missing]
    refine ⟨?_, ?_, before.burst⟩
    · rw [AList.keys, entries, keys_cons, rateHashKey_be, range_succ, map_append, reverse_append]
      exact congrArg _ before.keys
    · rw [entries]
      intro entry member
      rcases List.mem_cons.1 member with rfl | old
      · rfl
      · exact before.recent entry old

/-- In a full table a source may be pruned at once, and then it is accepted again. -/
theorem Crowded.accepts {r : Limiter} (crowded : Crowded r rateLimitMaxBuckets) :
    (r.allow (be 16 0) 0 reversed reversed).2 = true := by
  have full : r.full = true := decide_eq_true crowded.length.ge
  have fresh : r.fresh 0 = r.buckets := by
    apply Limiter.fresh_eq
    intro entry member
    rw [crowded.recent entry member]
    exact not_lt.2 (le_max_of_le_right (by decide))
  have pruned : (r.makeRoom 0 reversed).buckets.lookup (be 16 0) = none := by
    have chosen : be 16 0 ∈ (reversed.run r.buckets.keys).take (rateLimitMaxBuckets / 2) := by
      rw [run_reversed, crowded.keys, reverse_reverse, ← map_take, take_range]
      exact mem_map_of_mem (List.mem_range.2 (by decide))
    rw [Limiter.makeRoom, full, if_pos rfl, Limiter.pruneLocked, fresh]
    dsimp only
    rw [if_neg (not_lt.2 crowded.length.ge), lookup_foldl_erase, if_pos chosen]
  have level : (r.makeRoom 0 reversed).level (be 16 0) 0 = 1 := by
    rw [Limiter.level, pruned, (r.makeRoom_fixed 0 reversed).1, crowded.burst]
    rfl
  rw [r.allow_snd crowded.length.le, rateHashKey_be, level]
  exact decide_eq_true le_rfl

/-- Calls of as many sources as the table holds, and a second one of the first. -/
def crowdedRun : List AllowCall := crowd rateLimitMaxBuckets ++ [⟨be 16 0, 0, reversed, reversed⟩]

/-- With a burst of one and sources that fill the table, a source is accepted twice at one moment. -/
theorem Limiter.not_limits {r : Limiter} (empty : r.buckets = ∅) (burst : r.burst = 1) :
    ¬r.Limits crowdedRun (be 16 0) := by
  intro limits
  have bound := limits 0 0 le_rfl
  have room : r.full = false := by
    rw [full, empty]
    rfl
  have missing : rateHashKey (be 16 0) ∉ r.buckets := by
    rw [empty]
    exact AList.notMem_empty _
  have first : (allowing.step r ⟨be 16 0, 0, Visit.listed, Visit.listed⟩).2 = true :=
    congrArg Prod.snd (r.allow_new room (be 16 0) missing 0 Visit.listed Visit.listed)
  have last : (allowing.step (allowing.run r (crowd rateLimitMaxBuckets)) ⟨be 16 0, 0, reversed, reversed⟩).2 = true :=
    (crowded_run empty burst le_rfl).accepts
  have start : crowd rateLimitMaxBuckets = ⟨be 16 0, 0, Visit.listed, Visit.listed⟩ ::
      (List.range 4095).map fun i => ⟨be 16 (i + 1), 0, Visit.listed, Visit.listed⟩ := by
    rw [crowd, rateLimitMaxBuckets, range_succ_eq_map, map_cons, map_map]
    rfl
  have once : 1 ≤ allowing.accepted (fun call => decide (rateHashKey call.hash = rateHashKey (be 16 0))) 0 (0 + 0)
      (allowing.trace r (crowd rateLimitMaxBuckets)) := by
    rw [start, Machine.trace, Machine.accepted_cons, first]
    exact Nat.le_add_left 1 _
  have again : allowing.accepted (fun call => decide (rateHashKey call.hash = rateHashKey (be 16 0))) 0 (0 + 0)
      (allowing.trace (allowing.run r (crowd rateLimitMaxBuckets)) [⟨be 16 0, 0, reversed, reversed⟩]) = 1 := by
    rw [Machine.trace, Machine.accepted_cons, last]
    rfl
  rw [crowdedRun, Machine.trace_append, Machine.accepted_append, again, burst, Int.cast_zero, zero_div, add_zero] at bound
  have total : (1 : ℚ) + 1 ≤ 1 := (add_le_add_left (Nat.one_le_cast.2 once) 1).trans (by exact_mod_cast bound)
  norm_num at total

/-- Both limiters accept a source twice at one moment while others fill the table. -/
theorem crowdedRun_not_limited :
    (crowdedRun.Pairwise fun a b => a.now ≤ b.now) ∧ ¬(Lxmf.newRateLimiter 60000000000 1).Limits crowdedRun (be 16 0) ∧
      ¬(Lxst.newRateLimiter 60000000000 1).Limits crowdedRun (be 16 0) := by
  refine ⟨?_, Limiter.not_limits rfl rfl, Limiter.not_limits rfl rfl⟩
  have moment : ∀ call ∈ crowdedRun, call.now = 0 := by
    intro call member
    rcases List.mem_append.1 member with early | late
    · obtain ⟨i, _, rfl⟩ := List.mem_map.1 early
      rfl
    · rw [List.mem_singleton.1 late]
  apply List.Pairwise.imp_of_mem fun first second _ => (moment _ first).trans_le (moment _ second).ge
  exact pairwise_of_forall (R := fun _ _ => True) fun _ _ => trivial

end ReticulumProtocols.RateLimit
