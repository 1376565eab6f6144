import ReticulumProtocols.Lxmf.Stamp
import ReticulumProtocols.Wire.ByteNumbers

/-! Targets and values of stamps as numbers. A digest is compared with its target byte by byte, and its value counts
zero bits; both are statements about the number that the digest stands for, and they part at one number only. -/

namespace ReticulumProtocols.Lxmf
open Wire Msgpack Sha256 List

theorem bytesLe_iff {xs ys : Bytes} (same : xs.length = ys.length) : bytesLe xs ys = true ↔ beNat xs ≤ beNat ys := by
  induction xs generalizing ys with
  | nil =>
    have empty : ys = [] := length_eq_zero_iff.1 same.symm
    rw [empty]
    simp [bytesLe]
  | cons x xs ih =>
    cases ys with
    | nil => cases same
    | cons y ys =>
      have rest : xs.length = ys.length := Nat.succ.inj same
      have left := beNat_lt xs
      have right := beNat_lt ys
      rw [beNat_cons, beNat_cons, bytesLe, rest]
      rw [rest] at left
      by_cases equal : x = y
      · rw [if_pos equal, ih rest, equal]
        omega
      · rw [if_neg equal, decide_eq_true_iff, UInt8.lt_iff_toNat_lt]
        constructor
        · intro less
          have room : (x.toNat + 1) * 256 ^ ys.length ≤ y.toNat * 256 ^ ys.length := Nat.mul_le_mul_right _ less
          rw [Nat.succ_mul] at room
          omega
        · intro le
          by_contra more
          have other : x.toNat ≠ y.toNat := fun nat => equal (UInt8.toNat_inj.1 nat)
          have room : (y.toNat + 1) * 256 ^ ys.length ≤ x.toNat * 256 ^ ys.length :=
            Nat.mul_le_mul_right _ (by omega)
          rw [Nat.succ_mul] at room
          omega

theorem toNat_bit (bit : Nat) (small : bit < 8) : ((1 : UInt8) <<< UInt8.ofNat bit).toNat = 2 ^ bit := by
  interval_cases bit <;> rfl

@[simp] theorem stampTarget_length (cost : Int) : (stampTarget cost).length = 32 := by
  unfold stampTarget
  dsimp only
  split_ifs <;> simp

theorem beNat_stampTarget {cost : Int} (positive : 1 ≤ cost) (bounded : cost ≤ 255) :
    beNat (stampTarget cost) = 2 ^ (256 - cost).toNat := by
  obtain ⟨pos, exponent⟩ : ∃ pos : Nat, 256 - cost = pos := ⟨(256 - cost).toNat, by omega⟩
  have range : pos < 256 := by omega
  have index : (31 - (pos : Int) / 8).toNat = 31 - pos / 8 := by omega
  have bit : ((pos : Int) % 8).toNat = pos % 8 := by omega
  have whole : 2 ^ (pos % 8) * 256 ^ (pos / 8) = 2 ^ pos := by
    calc 2 ^ (pos % 8) * 256 ^ (pos / 8) = 2 ^ (pos % 8) * 2 ^ (8 * (pos / 8)) := by rw [pow_mul]; rfl
      _ = 2 ^ pos := by rw [← pow_add, Nat.mod_add_div]
  have place : 32 - 1 - (31 - pos / 8) = pos / 8 := by omega
  unfold stampTarget
  dsimp only
  rw [if_neg (by omega), exponent, if_neg (by omega), index, bit, beNat_set_zeros 32 _ (by omega),
    toNat_bit _ (Nat.mod_lt _ (by decide)), place, whole]
  rfl

theorem stampTarget_zero : stampTarget 256 = replicate 32 0 := rfl

theorem byteLeadingZeros_iff (b : UInt8) {zeros : Nat} (bounded : zeros ≤ 8) :
    zeros ≤ byteLeadingZeros b 8 ↔ b.toNat < 2 ^ (8 - zeros) := by
  have each : ∀ n : Fin 256, ∀ zeros : Fin 9,
      zeros.val ≤ byteLeadingZeros (UInt8.ofNat n.val) 8 ↔ n.val < 2 ^ (8 - zeros.val) := by decide +kernel
  have here := each ⟨b.toNat, b.toNat_lt⟩ ⟨zeros, Nat.lt_succ_of_le bounded⟩
  rwa [UInt8.ofNat_toNat] at here

/-- The value of a digest says how small its number is. -/
theorem leadingZeros_iff (bytes : Bytes) {zeros : Nat} (bounded : zeros ≤ 8 * bytes.length) :
    zeros ≤ leadingZeros bytes ↔ beNat bytes < 2 ^ (8 * bytes.length - zeros) := by
  induction bytes generalizing zeros with
  | nil =>
    have none : zeros = 0 := Nat.le_zero.1 bounded
    rw [none]
    simp [leadingZeros, beNat]
  | cons b rest ih =>
    have below : beNat rest < 2 ^ (8 * rest.length) := by
      rw [pow_mul]
      exact beNat_lt rest
    have bytes : 256 ^ rest.length = 2 ^ (8 * rest.length) := by
      rw [pow_mul]
      rfl
    rw [length_cons] at bounded ⊢
    rw [leadingZeros, beNat_cons, bytes]
    by_cases zero : b = 0
    · rw [if_pos zero, zero, show (0 : UInt8).toNat = 0 from rfl, Nat.zero_mul, Nat.zero_add]
      by_cases few : zeros ≤ 8
      · have room : 2 ^ (8 * rest.length) ≤ 2 ^ (8 * (rest.length + 1) - zeros) :=
          Nat.pow_le_pow_right (by decide) (by omega)
        exact iff_of_true (by omega) (by omega)
      · have same : 8 * (rest.length + 1) - zeros = 8 * rest.length - (zeros - 8) := by omega
        rw [same, ← ih (by omega)]
        omega
    · have one : 1 ≤ b.toNat := by
        by_contra none
        exact zero (UInt8.toNat_inj.1 (by simpa using Nat.lt_one_iff.1 (not_le.1 none)))
      rw [if_neg zero]
      by_cases few : zeros ≤ 8
      · have split : 2 ^ (8 * (rest.length + 1) - zeros) = 2 ^ (8 - zeros) * 2 ^ (8 * rest.length) := by
          rw [← pow_add]
          congr 1
          omega
        rw [byteLeadingZeros_iff b few, split]
        constructor
        · intro less
          have room : (b.toNat + 1) * 2 ^ (8 * rest.length) ≤ 2 ^ (8 - zeros) * 2 ^ (8 * rest.length) :=
            Nat.mul_le_mul_right _ less
          rw [Nat.succ_mul] at room
          omega
        · intro less
          by_contra more
          have room := Nat.mul_le_mul_right (2 ^ (8 * rest.length)) (not_lt.1 more)
          omega
      · have small : byteLeadingZeros b 8 < 8 := by
          by_contra more
          have bound := (byteLeadingZeros_iff b le_rfl).1 (not_lt.1 more)
          omega
        have room : 2 ^ (8 * (rest.length + 1) - zeros) ≤ 2 ^ (8 * rest.length) :=
          Nat.pow_le_pow_right (by decide) (by omega)
        have high : 2 ^ (8 * rest.length) ≤ b.toNat * 2 ^ (8 * rest.length) := Nat.le_mul_of_pos_left _ one
        exact iff_of_false (by omega) (by omega)

/-- A digest that is compared with the target of a cost. -/
def meetsTarget (digest : Bytes) (cost : Int) : Bool := bytesLe digest (stampTarget cost)

section
variable {digest : Bytes} (long : digest.length = 32) {cost : Int}
include long

theorem meetsTarget_iff (positive : 1 ≤ cost) (bounded : cost ≤ 255) :
    meetsTarget digest cost = true ↔ beNat digest ≤ 2 ^ (256 - cost).toNat := by
  rw [meetsTarget, bytesLe_iff (long.trans (stampTarget_length cost).symm), beNat_stampTarget positive bounded]

theorem meetsTarget_last : meetsTarget digest 256 = true ↔ digest = replicate 32 0 := by
  rw [meetsTarget, stampTarget_zero, bytesLe_iff (by rw [long, length_replicate]), beNat_zeros, Nat.le_zero]
  rw [beNat_eq_zero, long]

theorem meetsTarget_mono {lower : Int} (positive : 1 ≤ lower) (less : lower ≤ cost) (bounded : cost ≤ 256)
    (meets : meetsTarget digest cost = true) : meetsTarget digest lower = true := by
  by_cases last : cost = 256
  · rw [last] at meets
    by_cases same : lower = 256
    · rw [same]
      exact meets
    · rw [meetsTarget_iff long positive (by omega), (meetsTarget_last long).1 meets, beNat_zeros]
      exact Nat.zero_le _
  · rw [meetsTarget_iff long (by omega) (by omega)] at meets
    rw [meetsTarget_iff long positive (by omega)]
    exact meets.trans (Nat.pow_le_pow_right (by decide) (by omega))

theorem le_leadingZeros_iff (positive : 1 ≤ cost) (bounded : cost ≤ 256) :
    cost ≤ leadingZeros digest ↔ beNat digest < 2 ^ (256 - cost).toNat := by
  have zeros : cost.toNat ≤ leadingZeros digest ↔ beNat digest < 2 ^ (8 * digest.length - cost.toNat) :=
    leadingZeros_iff digest (by omega)
  have exponent : 8 * digest.length - cost.toNat = (256 - cost).toNat := by omega
  rw [exponent] at zeros
  rw [← zeros]
  omega

end

theorem stampValid_eq {stamp workblock : Bytes} {cost : Int} (size : stamp.length = stampSize) (positive : 1 ≤ cost)
    (bounded : cost ≤ 256) : stampValid stamp cost workblock = meetsTarget (sha256 (workblock ++ stamp)) cost := by
  rw [stampValid, if_neg (by omega), if_neg (not_not.2 size), if_neg (by omega), meetsTarget]

/-- A stamp is valid when its digest is small enough; costs beyond 255 leave nothing but zero. -/
theorem stampValid_exact (workblock stamp : Bytes) (size : stamp.length = stampSize) :
    (∀ cost : Int, 1 ≤ cost → cost ≤ 255 →
      (stampValid stamp cost workblock = true ↔ beNat (sha256 (workblock ++ stamp)) ≤ 2 ^ (256 - cost).toNat)) ∧
    (stampValid stamp 256 workblock = true ↔ sha256 (workblock ++ stamp) = replicate 32 0) ∧
    ∀ cost lower : Int, 1 ≤ lower → lower ≤ cost → cost ≤ 256 →
      stampValid stamp cost workblock = true → stampValid stamp lower workblock = true := by
  have long : (sha256 (workblock ++ stamp)).length = 32 := sha256_length _
  refine ⟨fun cost positive bounded => ?_, ?_, fun cost lower positive less bounded valid => ?_⟩
  · rw [stampValid_eq size positive (by omega), meetsTarget_iff long positive bounded]
  · rw [stampValid_eq size (by decide) (by decide), meetsTarget_last long]
  · rw [stampValid_eq size (by omega) bounded] at valid
    rw [stampValid_eq size positive (by omega)]
    exact meetsTarget_mono long positive less bounded valid

theorem stampValid_exact_zeros :
    (replicate 32 0 : Bytes).length = stampSize ∧
      (stampValid (replicate 32 0) 1 [1] = true ↔
        beNat (sha256 ([1] ++ replicate 32 0)) ≤ 2 ^ (256 - (1 : Int)).toNat) :=
  ⟨rfl, (stampValid_exact [1] (replicate 32 0) rfl).1 1 (by decide) (by decide)⟩

end ReticulumProtocols.Lxmf
