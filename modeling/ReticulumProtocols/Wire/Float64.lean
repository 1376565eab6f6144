import Mathlib

/-! Conversions between integers, binary32 and binary64, over the exact float model of the
core library. -/

namespace ReticulumProtocols.Wire.Float64
open Float.Model Float.Model.UnpackedFloat

/-- The float nearest to an integer, ties to even. -/
def ofInt (n : Int) : Float := ⟨Float.Model.pack (UnpackedFloat.ofInt .binary64 n)⟩

/-- Exact widening of a binary32 bit pattern; every NaN becomes the canonical one. -/
def widen (bits : UInt32) : UInt64 :=
  match UnpackedFloat.unpack .binary32 bits.toBitVec with
  | .finite sign mantissa exponent _ =>
    (Float.Model.pack (UnpackedFloat.round .binary64 sign mantissa exponent)).toBits
  | special => (Float.Model.pack special).toBits

/-- Truncation to int64. A result out of range is not fixed by the language: negative ones become
the least integer everywhere, the others follow `saturates`, the choice of the processor. -/
def toInt64 (saturates : Bool) (x : Float) : Int :=
  let least : Int := -2 ^ 63
  let overflow : Int := if saturates then 2 ^ 63 - 1 else least
  match x.toModel.unpack with
  | .notANumber => if saturates then 0 else least
  | .infinity .negative => least
  | .infinity .positive => overflow
  | .zero _ => 0
  | .finite sign mantissa exponent _ =>
    let whole := UnpackedFloat.roundToInt sign mantissa exponent
    if whole < least then least else if 2 ^ 63 ≤ whole then overflow else whole

example : toInt64 false (ofInt 12 * ofInt 1000) = 12000 := by decide +kernel

theorem signBit_read (bit : BitVec 1) : (Sign.ofBitVec bit).toBitVec = bit := by
  decide +revert

theorem toNat_append_add {high low : Nat} (x : BitVec high) (y : BitVec low) :
    (x ++ y).toNat = x.toNat * 2 ^ low + y.toNat := by
  rw [BitVec.toNat_append, ← Nat.shiftLeft_add_eq_or_of_lt y.isLt, Nat.shiftLeft_eq]

theorem parts_joined (b : BitVec Format.binary64.numBits) :
    packComponents .binary64 (Sign.ofBitVec (unpackSign b)) (unpackExponent b) (unpackMantissa b) = b := by
  have bound : b.toNat < 2 ^ 64 := b.isLt
  have sign : (unpackSign b).toNat = b.toNat / 2 ^ 63 % 2 ^ 1 := by
    simp only [unpackSign, BitVec.toNat_cast, BitVec.extractLsb_toNat, Nat.shiftRight_eq_div_pow]
  have exponent : (unpackExponent b).toNat = b.toNat / 2 ^ 52 % 2 ^ 11 := by
    simp only [unpackExponent, BitVec.toNat_cast, BitVec.extractLsb_toNat, Nat.shiftRight_eq_div_pow]
  have mantissa : (unpackMantissa b).toNat = b.toNat / 2 ^ 0 % 2 ^ 52 := by
    simp only [unpackMantissa, BitVec.toNat_cast, BitVec.extractLsb_toNat, Nat.shiftRight_eq_div_pow]
  apply BitVec.eq_of_toNat_eq
  rw [packComponents, signBit_read, toNat_append_add, toNat_append_add, sign, exponent, mantissa]
  change (b.toNat / 2 ^ 63 % 2 ^ 1 * 2 ^ 11 + b.toNat / 2 ^ 52 % 2 ^ 11) * 2 ^ 52 + b.toNat / 2 ^ 0 % 2 ^ 52 = b.toNat
  omega

theorem repacked {b : BitVec Format.binary64.numBits} (valid : Format.binary64.Valid b) :
    UnpackedFloat.pack .binary64 (UnpackedFloat.unpack .binary64 b) = b := by
  have parts := parts_joined b
  have small : (unpackMantissa b).toNat < 2 ^ 52 := (unpackMantissa b).isLt
  have range : (unpackExponent b).toNat < 2 ^ 11 := (unpackExponent b).isLt
  have bits : Format.binary64.mantissaBits = 53 := rfl
  have exponents : Format.binary64.exponentBits = 11 := rfl
  unfold UnpackedFloat.unpack
  dsimp only
  split
  next top =>
    split
    next empty =>
      rw [UnpackedFloat.pack, packedInfinity, ← top]
      rw [empty] at parts
      exact parts
    next some => exact (valid.eq_packedNaN top some).symm
  next top =>
    split
    next bottom =>
      split
      next empty =>
        rw [bottom, empty] at parts
        exact parts
      next some =>
        have positive : 0 < (unpackMantissa b).toNat := by
          rw [BitVec.toNat_pos]
          exact (BitVec.pos_iff_ne_zero _).2 some
        have short : (unpackMantissa b).toNat.log2 < 52 := (Nat.log2_lt positive.ne').2 small
        simp only [UnpackedFloat.pack, bits, bottom]
        rw [if_neg, if_neg (by omega), BitVec.ofNat_toNat, BitVec.setWidth_eq]
        · rw [bottom] at parts
          exact parts
        · change ¬2 ^ 11 ≤ ((0 : Int) - (1023 + 52) + 1 + 1023 + 52).toNat + 1
          omega
    next bottom =>
      have below : (unpackExponent b).toNat + 1 < 2 ^ 11 := by
        have other : (unpackExponent b).toNat ≠ 2 ^ 11 - 1 := fun same => top (BitVec.eq_of_toNat_eq same)
        omega
      have implicit : (1#1 ++ unpackMantissa b).toNat = 2 ^ 52 + (unpackMantissa b).toNat := by
        rw [toNat_append_add]
        rfl
      have long : (2 ^ 52 + (unpackMantissa b).toNat).log2 = 52 := by
        rw [Nat.log2_eq_iff (by omega)]
        omega
      have biased : ((unpackExponent b).toNat - (Format.binary64.exponentBias +
          Format.binary64.mantissaBitsWithoutImplicit : Int) + Format.binary64.exponentBias +
          Format.binary64.mantissaBitsWithoutImplicit).toNat = (unpackExponent b).toNat := by
        omega
      simp only [UnpackedFloat.pack, bits, implicit, long, biased]
      have fraction : BitVec.ofNat Format.binary64.mantissaBitsWithoutImplicit (2 ^ 52 + (unpackMantissa b).toNat) =
          unpackMantissa b := by
        apply BitVec.eq_of_toNat_eq
        rw [BitVec.toNat_ofNat]
        change (2 ^ 52 + (unpackMantissa b).toNat) % 2 ^ 52 = (unpackMantissa b).toNat
        omega
      rw [if_neg (by omega), if_pos trivial, BitVec.ofNat_toNat, BitVec.setWidth_eq, fraction]
      exact parts

theorem ofBits_toBits (x : Float) : Float.ofBits x.toBits = x := by
  obtain ⟨bits, valid⟩ := x
  apply congrArg Float.ofModel
  simp only [Float.Model.ofBits, Float.Model.pack, Float.toBits, repacked valid]

end ReticulumProtocols.Wire.Float64
