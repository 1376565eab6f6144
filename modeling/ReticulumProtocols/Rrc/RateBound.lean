import ReticulumProtocols.RateLimit.TokenTable
import ReticulumProtocols.Rrc.Hub

/-! The rate limit of a hub session. `takeToken` counts in floating point; here it is written for any kind of numbers,
and with exact ones the tokens stay within the limit and pay for every envelope that is accepted. A clock that goes
back refills nothing, but it moves `lastRefill` back too, so the bound needs readings that do not decrease. -/

namespace ReticulumProtocols.Rrc
open Wire Lxmf RateLimit

/-- The tokens of a session and when they were last refilled. -/
structure Tokens (N : Type) where
  tokens : N
  lastRefill : Int

namespace Tokens

section
variable {N : Type} [Add N] [Sub N] [Mul N] [Div N] [LT N] [DecidableLT N] (ofInt seconds : Int → N) (t : Tokens N)

def refill (limit : Nat) (now : Int) : N :=
  let elapsed := seconds (now - t.lastRefill)
  let elapsed := if elapsed < ofInt 0 then ofInt 0 else elapsed
  let tokenCap := ofInt limit
  let tokens := t.tokens + elapsed * (tokenCap / ofInt 60)
  if tokens > tokenCap then tokenCap else tokens

/-- `takeToken` in the numbers given. -/
def take (limit : Nat) (now : Int) : Tokens N × Bool :=
  if limit = 0 then (t, true)
  else
    let tokens := t.refill ofInt seconds limit now
    if tokens < ofInt 1 then (⟨tokens, now⟩, false) else (⟨tokens - ofInt 1, now⟩, true)

end

/-- What `take` does in floating point is what the hub does. -/
theorem takeToken_eq (peer : HubPeer) (limit : Nat) (now : Int) :
    let taken := take Float64.ofInt durationSeconds ⟨peer.tokens, peer.lastRefill⟩ limit now
    peer.takeToken limit now = ({ peer with tokens := taken.1.tokens, lastRefill := taken.1.lastRefill }, taken.2) := by
  have same : refill Float64.ofInt durationSeconds ⟨peer.tokens, peer.lastRefill⟩ limit now =
      peer.refill limit now := rfl
  by_cases unlimited : limit = 0
  · simp only [HubPeer.takeToken, take, if_pos unlimited]
  · by_cases few : peer.refill limit now < Float64.ofInt 1
    · simp only [HubPeer.takeToken, take, if_neg unlimited, same, if_pos few]
    · simp only [HubPeer.takeToken, take, if_neg unlimited, same, if_neg few]

/-- The envelopes of a session, each at a reading of the clock, with exact tokens. -/
def session (limit : Nat) : Machine (Tokens ℚ) Int where
  step t now := t.take (fun n => (n : ℚ)) seconds limit now
  time := id

def accept (limit : Nat) (now : Int) : Tokens ℚ := ⟨limit, now⟩

def Within (limit : Nat) (t : Tokens ℚ) : Prop := 0 ≤ t.tokens ∧ t.tokens ≤ limit

/-- What the tokens have risen to at a later time. -/
def level (limit : Nat) (t : Tokens ℚ) (now : Int) : ℚ :=
  min limit (t.tokens + seconds (now - t.lastRefill) * (limit / 60))

variable {limit : Nat} {t : Tokens ℚ} {now : Int}

theorem refill_within (within : t.Within limit) (now : Int) :
    0 ≤ t.refill (fun n => (n : ℚ)) seconds limit now ∧ t.refill (fun n => (n : ℚ)) seconds limit now ≤ limit := by
  have share : (0 : ℚ) ≤ limit / 60 := by positivity
  have elapsed : (0 : ℚ) ≤ if seconds (now - t.lastRefill) < 0 then 0 else seconds (now - t.lastRefill) := by
    split
    · exact le_rfl
    next forward => exact not_lt.1 forward
  simp only [refill, Int.cast_zero, Int.cast_natCast, Int.cast_ofNat]
  generalize (if seconds (now - t.lastRefill) < 0 then 0 else seconds (now - t.lastRefill)) = duration at elapsed ⊢
  have risen := add_nonneg within.1 (mul_nonneg elapsed share)
  split
  · exact ⟨Nat.cast_nonneg limit, le_rfl⟩
  next below => exact ⟨risen, not_lt.1 below⟩

theorem refill_level (limit : Nat) (forward : t.lastRefill ≤ now) :
    t.refill (fun n => (n : ℚ)) seconds limit now = t.level limit now := by
  have elapsed : (0 : ℚ) ≤ seconds (now - t.lastRefill) :=
    div_nonneg (Int.cast_nonneg (sub_nonneg.2 forward)) (by norm_num)
  simp only [refill, Int.cast_zero, Int.cast_natCast, Int.cast_ofNat, level, if_neg (not_lt.2 elapsed)]
  split
  next above => exact (min_eq_left above.le).symm
  next below => exact (min_eq_right (not_lt.1 below)).symm

theorem Within.step (within : t.Within limit) (now : Int) : ((session limit).step t now).1.Within limit := by
  have refilled := refill_within within now
  change (t.take _ seconds limit now).1.Within limit
  unfold take
  split
  · exact within
  · dsimp only
    split
    · exact refilled
    next enough =>
      rw [Int.cast_one] at enough ⊢
      exact ⟨sub_nonneg.2 (not_lt.1 enough), (sub_le_self _ zero_le_one).trans refilled.2⟩

theorem Within.run (within : t.Within limit) (readings : List Int) : ((session limit).run t readings).Within limit := by
  induction readings generalizing t with
  | nil => exact within
  | cons now readings ih => exact ih (within.step now)

/-- The tokens are a level that pays for what is accepted. -/
theorem metered (limited : limit ≠ 0) : Metered (session limit) (fun _ => true) (fun _ _ => True)
    (fun t now => t.Within limit ∧ t.lastRefill ≤ now) (level limit) (limit : ℚ) (limit / 60 / 1000000000) where
  rate_nonneg := by positivity
  nonneg t now valid := by
    rw [← refill_level limit valid.2]
    exact (refill_within valid.1 now).1
  le_cap t now valid := min_le_left _ _
  later t now next valid ahead := ⟨valid.1, valid.2.trans ahead⟩
  rises t now next valid ahead := by
    have risen : (0 : ℚ) ≤ limit / 60 / 1000000000 * (next - now) :=
      mul_nonneg (by positivity) (sub_nonneg.2 (Int.cast_le.2 ahead))
    have split : t.tokens + seconds (next - t.lastRefill) * (limit / 60) =
        t.tokens + seconds (now - t.lastRefill) * (limit / 60) + limit / 60 / 1000000000 * (next - now) := by
      simp only [seconds, Int.cast_sub]
      ring
    rw [level, level, split, ← min_add_add_right]
    exact min_le_min_right _ (le_add_of_nonneg_right risen)
  keeps t now _ valid := by
    refine ⟨valid.1.step now, ?_⟩
    change (t.take _ seconds limit now).1.lastRefill ≤ now
    rw [take, if_neg limited]
    dsimp only
    split
    · exact le_rfl
    · exact le_rfl
  pays t now _ valid := by
    have refilled := refill_within valid.1 now
    have same : t.refill _ seconds limit now = _ := refill_level limit valid.2
    have settled (tokens : ℚ) (small : tokens ≤ limit) : level limit ⟨tokens, now⟩ now = tokens := by
      rw [level, sub_self, seconds, Int.cast_zero, zero_div, zero_mul, add_zero, min_eq_right small]
    change level limit (t.take _ seconds limit now).1 now + (if (t.take _ seconds limit now).2 then 1 else 0) ≤
      level limit t now
    rw [← same, take, if_neg limited]
    dsimp only
    split
    · rw [settled _ refilled.2, if_neg Bool.false_ne_true, add_zero]
    · rw [Int.cast_one, settled _ ((sub_le_self _ zero_le_one).trans refilled.2), if_pos rfl, sub_add_cancel]

/-- The tokens stay within the limit whatever the clock does, and while it does not go back, a window lets through no
more than the limit and what is refilled in it. -/
theorem session_bounded (limit : Nat) (limited : limit ≠ 0) (accepted : Int) (readings : List Int) :
    ((session limit).run (accept limit accepted) readings).Within limit ∧
      ((accepted :: readings).Pairwise (· ≤ ·) → ∀ start stop : Int, start ≤ stop →
        ((session limit).accepted (fun _ => true) start stop
          ((session limit).trace (accept limit accepted) readings) : ℚ) ≤ limit + seconds (stop - start) * limit / 60) := by
  have fresh : (accept limit accepted).Within limit := ⟨Nat.cast_nonneg limit, le_rfl⟩
  refine ⟨fresh.run readings, fun ordered start stop window => ?_⟩
  have sorted := List.pairwise_cons.1 ordered
  have suited (t : Tokens ℚ) (calls : List Int) : (session limit).Suited (fun _ _ => True) t calls := by
    induction calls generalizing t with
    | nil => trivial
    | cons now calls ih => exact ⟨trivial, ih _⟩
  have ready : (accept limit accepted).Within limit ∧ (accept limit accepted).lastRefill ≤ accepted := ⟨fresh, le_rfl⟩
  have bound := (metered limited).accepted_le window ready sorted.2 sorted.1 (suited _ readings)
  have rate : (limit : ℚ) / 60 / 1000000000 * (stop - start) = seconds (stop - start) * limit / 60 := by
    rw [seconds, Int.cast_sub]
    ring
  rw [rate] at bound
  exact bound

end Tokens

/-- Two envelopes at once and one a minute later, with one envelope per minute. -/
theorem session_bounded_once :
    ((Tokens.session 1).trace (Tokens.accept 1 0) [0, 0, 60000000000]).map Prod.snd = [true, false, true] ∧
      ((Tokens.session 1).accepted (fun _ => true) 0 60000000000
        ((Tokens.session 1).trace (Tokens.accept 1 0) [0, 0, 60000000000]) : ℚ) ≤
          (1 : Nat) + seconds (60000000000 - 0) * (1 : Nat) / 60 :=
  ⟨by decide +kernel, (Tokens.session_bounded 1 one_ne_zero 0 [0, 0, 60000000000]).2 (by decide) 0 60000000000 (by decide)⟩

end ReticulumProtocols.Rrc
