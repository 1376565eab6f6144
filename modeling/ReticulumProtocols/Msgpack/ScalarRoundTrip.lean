import ReticulumProtocols.Msgpack.Decode

/-! What the decoder makes of the encoding of a scalar: the same value, with the integer type
chosen by the wire code instead of the sender's Go type. -/

namespace ReticulumProtocols.Msgpack
open Wire List

/-- The type that the shortest encoding of a natural number announces. -/
def uintKind (n : Nat) : IntKind :=
  if n ≤ 0x7f then .int8
  else if n ≤ 0xff then .uint8
  else if n ≤ 0xffff then .uint16
  else if n ≤ 0xffffffff then .uint32
  else .uint64

def intKind (n : Int) : IntKind :=
  if 0 ≤ n then uintKind n.toNat
  else if -32 ≤ n then .int8
  else if -128 ≤ n then .int8
  else if -32768 ≤ n then .int16
  else if -2147483648 ≤ n then .int32
  else .int64

def wireKind (compact : Bool) (n : GoInt) : IntKind :=
  if n.kind.shortest compact then intKind n.val else n.kind

def viewInt (compact loose : Bool) (n : GoInt) : GoInt :=
  .of ((wireKind compact n).loosen loose) n.val

/-- The wire code always announces a type that holds the value. -/
theorem viewInt_val (compact loose : Bool) (n : GoInt) : (viewInt compact loose n).val = n.val := by
  have bounds := n.val_bounds
  have wide := n.val_bounds64
  have holds : (wireKind compact n).wrap n.val = n.val := by
    unfold wireKind
    split
    · apply IntKind.wrap_eq_self <;> unfold intKind uintKind <;> split_ifs <;>
        simp [IntKind.signed, IntKind.bits] at * <;> omega
    · exact n.inRange
  show ((wireKind compact n).loosen loose).wrap n.val = n.val
  have range := (GoInt.mk (wireKind compact n) n.val holds).val_bounds
  cases loose with
  | false => exact holds
  | true =>
    apply IntKind.wrap_eq_self <;>
      cases kind : wireKind compact n <;>
        simp [kind, IntKind.loosen, IntKind.signed, IntKind.bits] at range ⊢ <;> omega

/-- The scalar that comes back, strictly or loosely decoded. -/
def viewScalar (compact loose : Bool) : Scalar → Scalar
  | .int n => .int (viewInt compact loose n)
  | .float32 bits => if loose then .float64 (Float64.widen bits) else .float32 bits
  | other => other

/-- A string's length must fit the four-byte length field. -/
def Scalar.Sized : Scalar → Prop
  | .str text => text.length < 2 ^ 32
  | _ => True

theorem Code.ofByte_fixedNum (c : UInt8) (range : c.toNat ≤ 0x7f ∨ 0xe0 ≤ c.toNat) :
    Code.ofByte c = .fixedNum := by
  unfold Code.ofByte
  rcases range with low | high
  · rw [if_pos (UInt8.le_iff_toNat_le.mpr low)]
  · have above (bound : UInt8) (small : bound.toNat < 0xe0) : ¬ c ≤ bound := by
      rw [UInt8.le_iff_toNat_le]
      omega
    have reached : 0xe0 ≤ c := UInt8.le_iff_toNat_le.mpr high
    rw [if_neg (above _ (by decide)), if_neg (above _ (by decide)), if_neg (above _ (by decide)),
      if_neg (above _ (by decide)), if_pos reached]

theorem wrap_twosComplement (kind : IntKind) (n : Int) :
    kind.wrap (twosComplement n) = kind.wrap n := by
  apply kind.wrap_congr
  have nonneg : 0 ≤ n % 2 ^ 64 := Int.emod_nonneg _ (by norm_num)
  rw [twosComplement, Int.toNat_of_nonneg nonneg]
  exact Int.emod_emod_of_dvd n (by cases kind <;> norm_num [IntKind.bits])

theorem wrap_beNat (kind : IntKind) (x : Nat) :
    kind.wrap (beNat (be (kind.bits / 8) x)) = kind.wrap x := by
  apply kind.wrap_congr
  have width : 256 ^ (kind.bits / 8) = 2 ^ kind.bits := by cases kind <;> norm_num [IntKind.bits]
  rw [beNat_be_mod, width]
  push_cast
  exact Int.emod_emod_of_dvd _ (dvd_refl _)

section
variable (decoder : Decoder) (fuel : Nat) (loose : Bool) (depth mapDepth : Nat) (rest : Bytes)

theorem decode_integer (kind : IntKind) (c : UInt8) (code : Code.ofByte c = .integer kind) (x : Nat) :
    decodeInterface decoder (fuel + 1) loose depth mapDepth (c :: (be (kind.bits / 8) x ++ rest)) =
      .ok (.int (.of (kind.loosen loose) (kind.wrap x)), rest) := by
  simp only [decodeInterface, code, take_be]
  rw [← wrap_beNat]
  rfl

theorem decode_fixedNum (c : UInt8) (n : Int) (range : c.toNat ≤ 0x7f ∨ 0xe0 ≤ c.toNat)
    (same : IntKind.int8.wrap c.toNat = n) :
    decodeInterface decoder (fuel + 1) loose depth mapDepth (c :: rest) =
      .ok (.int (.of (IntKind.int8.loosen loose) n), rest) := by
  simp only [decodeInterface, Code.ofByte_fixedNum c range, same]

theorem decode_encodeUint (n : Nat) (bound : n < 2 ^ 64) :
    decodeInterface decoder (fuel + 1) loose depth mapDepth (encodeUint n ++ rest) =
      .ok (.int (.of ((uintKind n).loosen loose) n), rest) := by
  have wide (kind : IntKind) (c : UInt8) (code : Code.ofByte c = .integer kind)
      (unsigned : kind.signed = false) (small : n < 2 ^ kind.bits) :
      decodeInterface decoder (fuel + 1) loose depth mapDepth (c :: (be (kind.bits / 8) n ++ rest)) =
        .ok (.int (.of (kind.loosen loose) n), rest) := by
    rw [decode_integer decoder fuel loose depth mapDepth rest kind c code n,
      kind.wrap_eq_self n (by simp [unsigned]) (by simp [unsigned]; exact_mod_cast small)]
  unfold encodeUint uintKind
  split_ifs
  · have byte : (UInt8.ofNat n).toNat = n := by
      rw [UInt8.toNat_ofNat', Nat.mod_eq_of_lt (by omega)]
    refine decode_fixedNum decoder fuel loose depth mapDepth rest _ n (by omega) ?_
    rw [byte]
    exact IntKind.wrap_eq_self .int8 n (by simp [IntKind.signed, IntKind.bits])
      (by simp [IntKind.signed, IntKind.bits]; omega)
  · exact wide .uint8 0xcc (by decide) rfl (by simp [IntKind.bits]; omega)
  · exact wide .uint16 0xcd (by decide) rfl (by simp [IntKind.bits]; omega)
  · exact wide .uint32 0xce (by decide) rfl (by simp [IntKind.bits]; omega)
  · exact wide .uint64 0xcf (by decide) rfl (by simp [IntKind.bits]; omega)

theorem decode_encodeInt (n : Int) (low : -2 ^ 63 ≤ n) (high : n < 2 ^ 64) :
    decodeInterface decoder (fuel + 1) loose depth mapDepth (encodeInt n ++ rest) =
      .ok (.int (.of ((intKind n).loosen loose) n), rest) := by
  have wide (kind : IntKind) (c : UInt8) (code : Code.ofByte c = .integer kind)
      (signed : kind.signed = true) (above : -2 ^ (kind.bits - 1) ≤ n) (negative : n < 0) :
      decodeInterface decoder (fuel + 1) loose depth mapDepth
          (c :: (be (kind.bits / 8) (twosComplement n) ++ rest)) =
        .ok (.int (.of (kind.loosen loose) n), rest) := by
    have positive : (0 : Int) < 2 ^ (kind.bits - 1) := by positivity
    rw [decode_integer decoder fuel loose depth mapDepth rest kind c code, wrap_twosComplement,
      kind.wrap_eq_self n (by simpa [signed] using above) (by simp [signed]; omega)]
  unfold encodeInt intKind
  split_ifs with nonneg
  · have natural : ((n.toNat : Nat) : Int) = n := Int.toNat_of_nonneg nonneg
    rw [decode_encodeUint decoder fuel loose depth mapDepth rest n.toNat (by omega), natural]
  · have byte : (UInt8.ofNat (twosComplement n)).toNat = (256 + n).toNat := by
      rw [UInt8.toNat_ofNat', twosComplement]
      omega
    refine decode_fixedNum decoder fuel loose depth mapDepth rest _ n (by omega) ?_
    rw [byte]
    simp only [IntKind.wrap, IntKind.signed, IntKind.bits, Int.bmod_def]
    norm_num
    omega
  · exact wide .int8 0xd0 (by decide) rfl (by simp [IntKind.bits]; omega) (by omega)
  · exact wide .int16 0xd1 (by decide) rfl (by simp [IntKind.bits]; omega) (by omega)
  · exact wide .int32 0xd2 (by decide) rfl (by simp [IntKind.bits]; omega) (by omega)
  · exact wide .int64 0xd3 (by decide) rfl (by simp [IntKind.bits]; omega) (by omega)

theorem decode_encodeGoInt (compact : Bool) (n : GoInt) :
    decodeInterface decoder (fuel + 1) loose depth mapDepth (encodeGoInt compact n ++ rest) =
      .ok (.int (viewInt compact loose n), rest) := by
  have bounds := n.val_bounds64
  unfold encodeGoInt viewInt wireKind
  by_cases shortest : n.kind.shortest compact = true
  · rw [if_pos shortest, if_pos shortest]
    have form : (if n.kind.signed = true then encodeInt n.val else encodeUint n.val.toNat) =
        encodeInt n.val := by
      split
      · rfl
      next unsigned =>
        have nonneg := n.val_bounds.1
        rw [if_neg unsigned] at nonneg
        rw [encodeInt, if_pos nonneg]
    rw [form]
    exact decode_encodeInt decoder fuel loose depth mapDepth rest n.val bounds.1 bounds.2
  · have code : Code.ofByte n.kind.code = .integer n.kind := by
      cases kind : n.kind <;> simp_all [IntKind.shortest, IntKind.code] <;> decide
    rw [if_neg shortest, if_neg shortest, cons_append,
      decode_integer decoder fuel loose depth mapDepth rest n.kind _ code, wrap_twosComplement,
      n.inRange]

theorem takeBytes_header (length : Length) (tail data : Bytes)
    (read : ∀ rest, length.read (tail ++ rest) = .ok (data.length, rest)) :
    takeBytes length (tail ++ (data ++ rest)) = .ok (data, rest) := by
  simp [takeBytes, read]

theorem decodeExt_time (length : Length) (input payload : Bytes) (t : GoTime)
    (read : length.read input = .ok (payload.length, 0xff :: (payload ++ rest)))
    (time : decodeTime payload = .ok t) : decodeExt length input = .ok (.scalar (.time t), rest) := by
  simp [decodeExt, read, time, bind, Except.bind, pure, Except.pure]
  omega

/-- Seconds and nanoseconds already in range are stored without a carry. -/
theorem GoTime.ofUnix_self (t : GoTime) : GoTime.ofUnix (UInt64.ofNat t.unix.toNat) t.nanosecond = t := by
  obtain ⟨unix, nanosecond, small⟩ := t
  simp [GoTime.ofUnix, Nat.div_eq_of_lt small, Nat.mod_eq_of_lt small]

theorem decode_encodeTime (t : GoTime) :
    decodeInterface decoder (fuel + 1) loose depth mapDepth (encodeTime t ++ rest) =
      .ok (.scalar (.time t), rest) := by
  have seconds := t.unix.toNat_lt
  have nanoseconds := t.nanosecond.isLt
  have self := t.ofUnix_self
  simp only [encodeTime]
  split_ifs with short shorter
  · have code : Code.ofByte 0xd6 = .ext (.fixed 4) := by decide
    have none : t.nanosecond.val = 0 := by omega
    simp only [cons_append, decodeInterface, code]
    refine decodeExt_time rest _ _ (be 4 _) t (by rw [be_length]; rfl) ?_
    rw [decodeTime, be_length, beNat_be _ _ (by omega)]
    simp only [none, Nat.zero_mul, Nat.zero_add] at self ⊢
    rw [self]
  · have code : Code.ofByte 0xd7 = .ext (.fixed 8) := by decide
    simp only [cons_append, decodeInterface, code]
    refine decodeExt_time rest _ _ (be 8 _) t (by rw [be_length]; rfl) ?_
    have low : (t.nanosecond.val * 2 ^ 34 + t.unix.toNat) % 2 ^ 34 = t.unix.toNat := by omega
    have high : (t.nanosecond.val * 2 ^ 34 + t.unix.toNat) / 2 ^ 34 = t.nanosecond.val := by omega
    rw [decodeTime, be_length, beNat_be _ _ (by omega)]
    simp only [low, high, self]
  · have code : Code.ofByte 0xc7 = .ext (.field 1) := by decide
    simp only [cons_append, decodeInterface, code]
    refine decodeExt_time rest _ _ (be 4 t.nanosecond.val ++ be 8 t.unix.toNat) t ?_ ?_
    · exact (Length.read_be 1 12 _ (by norm_num)).trans (by simp)
    · have front : (be 4 t.nanosecond.val ++ be 8 t.unix.toNat).take 4 = be 4 t.nanosecond.val :=
        take_left' (be_length 4 _)
      have back : (be 4 t.nanosecond.val ++ be 8 t.unix.toNat).drop 4 = be 8 t.unix.toNat :=
        drop_left' (be_length 4 _)
      simp only [decodeTime, length_append, be_length, front, back]
      rw [beNat_be 4 _ (by omega), beNat_be 8 _ (by omega), self]

theorem decode_encodeScalar (compact : Bool) (s : Scalar) (sized : s.Sized) :
    decodeInterface decoder (fuel + 1) loose depth mapDepth (encodeScalar compact s ++ rest) =
      .ok (.scalar (viewScalar compact loose s), rest) := by
  cases s with
  | nil => rfl
  | bool value => cases value <;> rfl
  | int n => exact decode_encodeGoInt decoder fuel loose depth mapDepth rest compact n
  | float32 bits =>
    have code : Code.ofByte 0xca = .float := by decide
    have small := bits.toNat_lt
    have same : UInt32.ofNat bits.toNat = bits := UInt32.ofNat_toNat
    simp only [encodeScalar, cons_append, decodeInterface, code, take_be, viewScalar]
    show Except.ok _ = _
    rw [beNat_be 4 bits.toNat (by omega), same]
  | float64 bits =>
    have code : Code.ofByte 0xcb = .double := by decide
    have small := bits.toNat_lt
    have same : UInt64.ofNat bits.toNat = bits := UInt64.ofNat_toNat
    simp only [encodeScalar, cons_append, decodeInterface, code, take_be, viewScalar]
    show Except.ok _ = _
    rw [beNat_be 8 bits.toNat (by omega), same]
  | str text =>
    obtain ⟨c, tail, length, form, code, read⟩ := LengthFamily.str.header_read text.length sized
    have found : Code.ofByte c = .str length := code
    simp only [encodeScalar, form, append_assoc, cons_append, decodeInterface, found,
      takeBytes_header rest length tail text read, viewScalar]
    rfl
  | time t => exact decode_encodeTime decoder fuel loose depth mapDepth rest t

end

end ReticulumProtocols.Msgpack
