import ReticulumProtocols.Wire.Float64

/-! Products of integers in binary64. Integers below 2 to the 53 are exact and so are their products as
long as they stay below that bound; a product of a non-positive and a positive integer never gets above
zero, however large its factors are. -/

namespace ReticulumProtocols.Wire.Float64
open Float.Model Float.Model.UnpackedFloat
variable {n : Nat}

/-- Shifting out zero bits loses nothing. -/
theorem repeat_shiftRightOne (mantissa shift : Nat) :
    Nat.repeat ExtendedMantissa.shiftRightOne shift ⟨mantissa * 2 ^ shift, false, false⟩ =
      ⟨mantissa, false, false⟩ := by
  induction shift generalizing mantissa with
  | zero => simp [Nat.repeat]
  | succ shift ih =>
    rw [Nat.repeat, show mantissa * 2 ^ (shift + 1) = mantissa * 2 * 2 ^ shift by ring, ih]
    simp [ExtendedMantissa.shiftRightOne]

theorem shiftToExponent_exact (mantissa shift : Nat) (exponent target : Int) (apart : target - exponent = shift) :
    shiftToExponent (mantissa * 2 ^ shift) exponent .exact target = (⟨mantissa, false, false⟩, target) := by
  have amount : (target - exponent).toNat = shift := by omega
  have reached : exponent + (shift : Int) = target := by omega
  unfold shiftToExponent
  simp only [amount, reached, ExtendedMantissa.ofMantissaAndAccuracy]
  rw [← repeat_shiftRightOne mantissa shift]
  rfl

theorem log2_mul_two_pow (shift : Nat) (positive : 0 < n) : (n * 2 ^ shift).log2 = n.log2 + shift := by
  induction shift with
  | zero => simp
  | succ shift ih =>
    have nonzero : n * 2 ^ shift ≠ 0 := Nat.ne_of_gt (Nat.mul_pos positive (Nat.two_pow_pos shift))
    rw [Nat.pow_succ, ← Nat.mul_assoc, Nat.mul_comm, Nat.log2_two_mul nonzero, ih]
    omega

theorem log2_le_of_lt (positive : 0 < n) (small : n < 2 ^ 53) : n.log2 ≤ 52 := by
  have below := (Nat.log2_lt (Nat.ne_of_gt positive)).2 small
  omega

/-- The normal form of a positive integer below 2 to the 53: its mantissa has all 53 bits. -/
def whole (sign : Sign) (n : Nat) (positive : 0 < n) : UnpackedFloat :=
  .finite sign (n * 2 ^ (52 - n.log2)) (n.log2 - 52) (Nat.mul_pos positive (Nat.two_pow_pos _))

theorem targetExponent_whole (shift : Nat) (positive : 0 < n) :
    Format.binary64.targetExponent (totalExponent (n * 2 ^ shift) (-shift)) = (n.log2 : Int) - 52 := by
  rw [totalExponent, log2_mul_two_pow shift positive, Format.targetExponent]
  have bits : Format.binary64.mantissaBits = 53 := rfl
  have least : Format.binary64.minExponent = -1074 := rfl
  rw [bits, least]
  omega

/-- Rounding an integer with zero bits behind it gives its normal form. -/
theorem roundWithAccuracy_whole (sign : Sign) {n shift : Nat} (positive : 0 < n) (small : n < 2 ^ 53)
    (enough : 52 ≤ n.log2 + shift) :
    roundWithAccuracy .binary64 sign (n * 2 ^ shift) (-shift) .exact = whole sign n positive := by
  have bound := log2_le_of_lt positive small
  have first : shiftToTargetExponent .binary64 (n * 2 ^ shift) (-shift) .exact =
      (⟨n * 2 ^ (52 - n.log2), false, false⟩, (n.log2 : Int) - 52) := by
    unfold shiftToTargetExponent
    rw [targetExponent_whole shift positive]
    have parts : n * 2 ^ shift = n * 2 ^ (52 - n.log2) * 2 ^ (n.log2 + shift - 52) := by
      rw [Nat.mul_assoc, ← Nat.pow_add]
      congr 2
      omega
    dsimp only
    rw [parts]
    exact shiftToExponent_exact _ _ _ _ (by omega)
  have second : shiftToTargetExponent .binary64 (n * 2 ^ (52 - n.log2)) ((n.log2 : Int) - 52) .exact =
      (⟨n * 2 ^ (52 - n.log2), false, false⟩, (n.log2 : Int) - 52) := by
    have exponent : (n.log2 : Int) - 52 = -((52 - n.log2 : Nat) : Int) := by omega
    unfold shiftToTargetExponent
    rw [exponent, targetExponent_whole _ positive, ← exponent]
    have same := shiftToExponent_exact (n * 2 ^ (52 - n.log2)) 0 ((n.log2 : Int) - 52) _ (Int.sub_self _)
    rwa [Nat.pow_zero, Nat.mul_one] at same
  have rounded : (⟨n * 2 ^ (52 - n.log2), false, false⟩ : ExtendedMantissa).roundedMantissa =
      n * 2 ^ (52 - n.log2) := rfl
  have nonzero : n * 2 ^ (52 - n.log2) ≠ 0 := Nat.ne_of_gt (Nat.mul_pos positive (Nat.two_pow_pos _))
  unfold roundWithAccuracy
  simp only [first, rounded, second, dif_neg nonzero, whole]

theorem round_whole (sign : Sign) (positive : 0 < n) (small : n < 2 ^ 53) :
    UnpackedFloat.round .binary64 sign n 0 = whole sign n positive := by
  have bound := log2_le_of_lt positive small
  have target : Format.binary64.targetExponent (totalExponent n 0) = (n.log2 : Int) - 52 := by
    simpa using targetExponent_whole 0 positive
  have lowered : decreaseExponent n 0 ((n.log2 : Int) - 52) =
      (n * 2 ^ (52 - n.log2), -((52 - n.log2 : Nat) : Int)) := by
    have amount : ((0 : Int) - ((n.log2 : Int) - 52)).toNat = 52 - n.log2 := by omega
    rw [decreaseExponent, amount, Nat.shiftLeft_eq, Int.zero_sub]
  unfold UnpackedFloat.round
  simp only [target, lowered]
  exact roundWithAccuracy_whole sign positive small (by omega)

theorem mul_whole (sign other : Sign) {a b : Nat} (first : 0 < a) (second : 0 < b) (small : a * b < 2 ^ 53) :
    UnpackedFloat.mul .binary64 (whole sign a first) (whole other b second) =
      whole (sign * other) (a * b) (Nat.mul_pos first second) := by
  have left : a ≤ a * b := Nat.le_mul_of_pos_right a second
  have right : b ≤ a * b := Nat.le_mul_of_pos_left b first
  have boundLeft := log2_le_of_lt first (by omega)
  have boundRight := log2_le_of_lt second (by omega)
  have logs : a.log2 ≤ (a * b).log2 :=
    (Nat.le_log2 (by omega)).2 ((Nat.log2_self_le (by omega)).trans left)
  have mantissa : a * 2 ^ (52 - a.log2) * (b * 2 ^ (52 - b.log2)) =
      a * b * 2 ^ ((52 - a.log2) + (52 - b.log2)) := by
    rw [Nat.pow_add]
    ring
  have exponent : ((a.log2 : Int) - 52) + ((b.log2 : Int) - 52) =
      -(((52 - a.log2) + (52 - b.log2) : Nat) : Int) := by omega
  simp only [whole, UnpackedFloat.mul, mantissa, exponent]
  exact roundWithAccuracy_whole _ (Nat.mul_pos first second) small (by omega)

theorem ofBitVec_unpackSign (sign : Sign) (exponent : BitVec 11) (mantissa : BitVec 52) :
    Sign.ofBitVec (unpackSign (packComponents .binary64 sign exponent mantissa)) = sign := by
  have top : (sign.toBitVec ++ exponent ++ mantissa).getLsbD 63 = sign.toBitVec[0] := by
    rw [BitVec.getLsbD_append, if_neg (by decide), BitVec.getLsbD_append, if_neg (by decide)]
    exact BitVec.getLsbD_eq_getElem (by decide)
  have bit : unpackSign (packComponents .binary64 sign exponent mantissa) = sign.toBitVec := by
    apply BitVec.eq_of_getElem_eq
    intro i within
    obtain rfl : i = 0 := by omega
    simp only [unpackSign, packComponents, BitVec.extractLsb, BitVec.getElem_cast, BitVec.getElem_extractLsb']
    exact top
  rw [bit]
  cases sign <;> rfl

theorem unpack_normal (sign : Sign) {exponent : BitVec 11} {mantissa : BitVec 52} (finite : exponent ≠ -1#11)
    (normal : exponent ≠ 0#11) (positive : 0 < 2 ^ 52 + mantissa.toNat) :
    UnpackedFloat.unpack .binary64 (packComponents .binary64 sign exponent mantissa) =
      .finite sign (2 ^ 52 + mantissa.toNat) (exponent.toNat - 1075) positive := by
  have leading : (1#1 ++ mantissa).toNat = 2 ^ 52 + mantissa.toNat := by
    rw [BitVec.toNat_append, ← Nat.shiftLeft_add_eq_or_of_lt mantissa.isLt]
    rfl
  unfold UnpackedFloat.unpack
  simp only [unpackExponent_packComponents, unpackMantissa_packComponents, ofBitVec_unpackSign]
  rw [if_neg finite, if_neg normal, UnpackedFloat.finite.injEq]
  exact ⟨rfl, leading, rfl⟩

theorem ofNat_ne_ones {exponent : Nat} (bounded : exponent + 1 < 2 ^ 11) : BitVec.ofNat 11 exponent ≠ -1#11 := by
  intro same
  have value := congrArg BitVec.toNat same
  rw [BitVec.toNat_ofNat, Nat.mod_eq_of_lt (by omega)] at value
  change exponent = 2047 at value
  omega

/-- The normal form survives the way through the 64 bits. -/
theorem unpack_pack_whole (sign : Sign) (positive : 0 < n) (small : n < 2 ^ 53) :
    (Float.Model.pack (whole sign n positive)).unpack = whole sign n positive := by
  have bound := log2_le_of_lt positive small
  have bits := log2_mul_two_pow (52 - n.log2) positive
  have full : (n * 2 ^ (52 - n.log2)).log2 = 52 := by omega
  have nonzero : n * 2 ^ (52 - n.log2) ≠ 0 := Nat.ne_of_gt (Nat.mul_pos positive (Nat.two_pow_pos _))
  have low : 2 ^ 52 ≤ n * 2 ^ (52 - n.log2) := (Nat.le_log2 nonzero).1 (by omega)
  have high : n * 2 ^ (52 - n.log2) < 2 ^ 53 := (Nat.log2_lt nonzero).1 (by omega)
  have biased : ((n.log2 : Int) - 52 + (Format.binary64.exponentBias : Int) +
      (Format.binary64.mantissaBitsWithoutImplicit : Int)).toNat = n.log2 + 1023 := by
    change ((n.log2 : Int) - 52 + 1023 + 52).toNat = _
    omega
  have packed : UnpackedFloat.pack .binary64 (whole sign n positive) =
      packComponents .binary64 sign (BitVec.ofNat 11 (n.log2 + 1023)) (BitVec.ofNat 52 (n * 2 ^ (52 - n.log2))) := by
    simp only [whole, UnpackedFloat.pack, biased, full]
    rw [if_neg (by omega), if_pos (by rfl)]
  have exponent : (BitVec.ofNat 11 (n.log2 + 1023)).toNat = n.log2 + 1023 := by
    rw [BitVec.toNat_ofNat]
    exact Nat.mod_eq_of_lt (by omega)
  have mantissa : 2 ^ 52 + (BitVec.ofNat 52 (n * 2 ^ (52 - n.log2))).toNat = n * 2 ^ (52 - n.log2) := by
    rw [BitVec.toNat_ofNat]
    omega
  have normal : BitVec.ofNat 11 (n.log2 + 1023) ≠ 0#11 := by
    intro zero
    have value := congrArg BitVec.toNat zero
    rw [exponent] at value
    change n.log2 + 1023 = 0 at value
    omega
  change UnpackedFloat.unpack .binary64 (UnpackedFloat.pack .binary64 (whole sign n positive)) = _
  rw [packed, unpack_normal sign (ofNat_ne_ones (by omega)) normal (by omega), whole, UnpackedFloat.finite.injEq]
  exact ⟨rfl, mantissa, by omega⟩

theorem roundToInt_whole (sign : Sign) (positive : 0 < n) (small : n < 2 ^ 53) :
    roundToInt sign (n * 2 ^ (52 - n.log2)) ((n.log2 : Int) - 52) = sign.apply n := by
  have bound := log2_le_of_lt positive small
  have lowered : decreaseExponent (n * 2 ^ (52 - n.log2)) ((n.log2 : Int) - 52) 0 =
      (n * 2 ^ (52 - n.log2), (n.log2 : Int) - 52) := by
    have amount : ((n.log2 : Int) - 52 - 0).toNat = 0 := by omega
    rw [decreaseExponent, amount, Nat.shiftLeft_zero]
    simp
  have shifted := shiftToExponent_exact n (52 - n.log2) ((n.log2 : Int) - 52) 0 (by omega)
  unfold roundToInt
  simp only [lowered, shifted]

theorem unpack_ofInt_pos (positive : 0 < n) (small : n < 2 ^ 53) :
    (ofInt n).toModel.unpack = whole .positive n positive := by
  have rounded : UnpackedFloat.ofInt .binary64 n = whole .positive n positive := by
    have order : compare (n : Int) 0 = .gt := by
      rw [compare_gt_iff_gt]
      omega
    simp only [UnpackedFloat.ofInt, UnpackedFloat.normalize, order, Int.toNat_natCast]
    exact round_whole .positive positive small
  rw [ofInt, rounded]
  exact unpack_pack_whole .positive positive small

/-- Positive integers with a product below 2 to the 53 are multiplied exactly. -/
theorem toInt64_mul_ofInt (saturates : Bool) {a b : Nat} (first : 0 < a) (second : 0 < b) (small : a * b < 2 ^ 53) :
    toInt64 saturates (ofInt a * ofInt b) = a * b := by
  have left : a ≤ a * b := Nat.le_mul_of_pos_right a second
  have right : b ≤ a * b := Nat.le_mul_of_pos_left b first
  have product : (ofInt a * ofInt b).toModel.unpack = whole .positive (a * b) (Nat.mul_pos first second) := by
    change (Float.Model.pack (UnpackedFloat.mul .binary64 (ofInt a).toModel.unpack (ofInt b).toModel.unpack)).unpack = _
    rw [unpack_ofInt_pos first (by omega), unpack_ofInt_pos second (by omega), mul_whole _ _ first second small]
    exact unpack_pack_whole _ _ small
  have exact := roundToInt_whole .positive (Nat.mul_pos first second) small
  rw [toInt64, product, whole]
  dsimp only
  rw [exact, Sign.apply, if_neg (by omega), if_neg (by omega), Nat.cast_mul]

/-- Not a number above zero, and a number. -/
def NotAbove : UnpackedFloat → Prop
  | .zero _ | .infinity .negative | .finite .negative _ _ _ => True
  | _ => False

theorem notAbove_roundWithAccuracy (mantissa : Nat) (exponent : Int) :
    NotAbove (roundWithAccuracy .binary64 .negative mantissa exponent .exact) := by
  unfold roundWithAccuracy
  dsimp only
  split <;> trivial

theorem notAbove_unpack {exponent : BitVec 11} {mantissa : BitVec 52}
    (number : exponent ≠ -1#11 ∨ mantissa = 0#52) :
    NotAbove (UnpackedFloat.unpack .binary64 (packComponents .binary64 .negative exponent mantissa)) := by
  unfold UnpackedFloat.unpack
  simp only [unpackExponent_packComponents, unpackMantissa_packComponents, ofBitVec_unpackSign]
  split
  next ones =>
    rw [if_pos (number.resolve_left (not_not_intro ones))]
    trivial
  · split
    · split <;> trivial
    · trivial

theorem notAbove_unpack_pack {x : UnpackedFloat} (below : NotAbove x) : NotAbove (Float.Model.pack x).unpack := by
  change NotAbove (UnpackedFloat.unpack .binary64 (UnpackedFloat.pack .binary64 x))
  match x, below with
  | .zero .negative, _ => exact notAbove_unpack (.inl (by decide))
  | .zero .positive, _ =>
    unfold UnpackedFloat.unpack
    trivial
  | .infinity .negative, _ => exact notAbove_unpack (.inr rfl)
  | .finite .negative mantissa exponent _, _ =>
    unfold UnpackedFloat.pack
    dsimp only
    split
    · exact notAbove_unpack (.inr rfl)
    next bounded =>
      split
      · exact notAbove_unpack (.inl (ofNat_ne_ones (Nat.lt_of_not_le bounded)))
      · exact notAbove_unpack (.inl (by decide))

theorem notAbove_ofInt {n : Int} (nonpositive : n ≤ 0) : NotAbove (ofInt n).toModel.unpack := by
  apply notAbove_unpack_pack
  unfold UnpackedFloat.ofInt UnpackedFloat.normalize
  by_cases negative : n < 0
  · have order : compare n 0 = .lt := compare_lt_iff_lt.2 negative
    rw [order]
    exact notAbove_roundWithAccuracy _ _
  · have order : compare n 0 = .eq := compare_eq_iff_eq.2 (by omega)
    rw [order]
    trivial

/-- Whatever its size, a product of a non-positive and a small positive integer is not above zero. -/
theorem toInt64_mul_nonpositive (saturates : Bool) {n : Int} {b : Nat} (nonpositive : n ≤ 0) (second : 0 < b)
    (small : b < 2 ^ 53) : toInt64 saturates (ofInt n * ofInt b) ≤ 0 := by
  have product : NotAbove (ofInt n * ofInt b).toModel.unpack := by
    change NotAbove
      (Float.Model.pack (UnpackedFloat.mul .binary64 (ofInt n).toModel.unpack (ofInt b).toModel.unpack)).unpack
    apply notAbove_unpack_pack
    rw [unpack_ofInt_pos second small]
    have left := notAbove_ofInt nonpositive
    match (ofInt n).toModel.unpack, left with
    | .zero sign, _ => trivial
    | .infinity .negative, _ => trivial
    | .finite .negative mantissa exponent _, _ => exact notAbove_roundWithAccuracy _ _
  unfold toInt64
  match (ofInt n * ofInt b).toModel.unpack, product with
  | .zero sign, _ => exact le_refl _
  | .infinity .negative, _ => exact Int.neg_nonpos_of_nonneg (by decide)
  | .finite .negative mantissa exponent _, _ =>
    have negative : roundToInt .negative mantissa exponent ≤ 0 := by
      simp [roundToInt, Sign.apply]
    dsimp only
    split
    · decide
    · rw [if_neg (by omega)]
      exact negative

end ReticulumProtocols.Wire.Float64
