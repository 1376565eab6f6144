import ReticulumProtocols.Wire.BigEndian

/-! The numbers that byte strings stand for, most significant byte first. -/

namespace ReticulumProtocols.Wire
open List

theorem beNat_lt (bytes : Bytes) : beNat bytes < 256 ^ bytes.length := by
  induction bytes with
  | nil => decide
  | cons byte bytes ih =>
    have first : byte.toNat + 1 ≤ 256 := byte.toNat_lt
    calc beNat (byte :: bytes) = byte.toNat * 256 ^ bytes.length + beNat bytes := beNat_cons byte bytes
      _ < byte.toNat * 256 ^ bytes.length + 256 ^ bytes.length := Nat.add_lt_add_left ih _
      _ = (byte.toNat + 1) * 256 ^ bytes.length := by ring
      _ ≤ 256 * 256 ^ bytes.length := Nat.mul_le_mul_right _ first
      _ = 256 ^ (byte :: bytes).length := by rw [length_cons, pow_succ, Nat.mul_comm]

theorem beNat_zeros (count : Nat) : beNat (replicate count 0) = 0 := by
  induction count with
  | zero => rfl
  | succ count ih =>
    rw [replicate_succ, beNat_cons, ih]
    simp

theorem beNat_eq_zero (bytes : Bytes) : beNat bytes = 0 ↔ bytes = replicate bytes.length 0 := by
  induction bytes with
  | nil => exact iff_of_true rfl rfl
  | cons byte bytes ih =>
    have room : 256 ^ bytes.length ≠ 0 := pow_ne_zero _ (by decide)
    have first : byte.toNat = 0 ↔ byte = 0 := UInt8.toNat_inj (b := 0)
    rw [beNat_cons, Nat.add_eq_zero_iff, Nat.mul_eq_zero, or_iff_left room, first, ih, length_cons,
      replicate_succ, List.cons.injEq]

theorem beNat_set_zeros (count : Nat) (byte : UInt8) {i : Nat} (inside : i < count) :
    beNat ((replicate count 0).set i byte) = byte.toNat * 256 ^ (count - 1 - i) := by
  induction count generalizing i with
  | zero => exact absurd inside (Nat.not_lt_zero i)
  | succ count ih =>
    cases i with
    | zero =>
      rw [replicate_succ, set_cons_zero, beNat_cons, beNat_zeros, length_replicate, Nat.add_zero]
      rfl
    | succ i =>
      have same : count + 1 - 1 - (i + 1) = count - 1 - i := by omega
      rw [replicate_succ, set_cons_succ, beNat_cons, ih (Nat.lt_of_succ_lt_succ inside), same]
      simp

end ReticulumProtocols.Wire
