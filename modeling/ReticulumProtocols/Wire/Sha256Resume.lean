import ReticulumProtocols.Wire.Sha256

/-! Hashing that goes on from a state that was written down. -/

namespace ReticulumProtocols.Wire

/-- The low bytes of a value depend on nothing beyond them. -/
theorem be_congr {width a b : Nat} (same : a % 256 ^ width = b % 256 ^ width) : be width a = be width b := by
  induction width with
  | zero => rfl
  | succ width ih =>
    have low : a % 256 ^ width = b % 256 ^ width := by
      have divides : 256 ^ width ∣ 256 ^ (width + 1) := pow_dvd_pow 256 (Nat.le_succ width)
      rw [← Nat.mod_mod_of_dvd a divides, ← Nat.mod_mod_of_dvd b divides, same]
    have high : a / 256 ^ width % 256 = b / 256 ^ width % 256 := by
      rw [← Nat.mod_mul_right_div_self, ← Nat.mod_mul_right_div_self, ← pow_succ, same]
    have first : UInt8.ofNat (a / 256 ^ width) = UInt8.ofNat (b / 256 ^ width) := by
      apply UInt8.toNat_inj.1
      rw [UInt8.toNat_ofNat', UInt8.toNat_ofNat']
      exact high
    rw [be, be, first, ih low]

end ReticulumProtocols.Wire

namespace ReticulumProtocols.Wire.Sha256
open List

theorem ofNat_beNat_be (w : Word) : UInt32.ofNat (beNat (be 4 w.toNat)) = w := by
  rw [beNat_be 4 w.toNat w.toNat_lt, UInt32.ofNat_toNat]

/-- The chaining value is what follows the first four bytes. -/
theorem state_of_words (h : State) (m n o p : UInt8) (rest : Bytes) :
    (let word := fun i => UInt32.ofNat (beNat ((([m, n, o, p] ++ h.bytes ++ rest).drop (4 + 4 * i)).take 4))
    (⟨word 0, word 1, word 2, word 3, word 4, word 5, word 6, word 7⟩ : State)) = h := by
  have words : h = ⟨UInt32.ofNat (beNat (be 4 h.a.toNat)), UInt32.ofNat (beNat (be 4 h.b.toNat)),
      UInt32.ofNat (beNat (be 4 h.c.toNat)), UInt32.ofNat (beNat (be 4 h.d.toNat)),
      UInt32.ofNat (beNat (be 4 h.e.toNat)), UInt32.ofNat (beNat (be 4 h.f.toNat)),
      UInt32.ofNat (beNat (be 4 h.g.toNat)), UInt32.ofNat (beNat (be 4 h.h.toNat))⟩ := by
    simp only [ofNat_beNat_be]
  exact words.symm

/-- Go's `digest`: the chaining value after the whole blocks, the bytes left over, and the length so far. -/
structure Digest where
  h : State
  buffered : Bytes
  len : Nat

/-- `UnmarshalBinary`. -/
def unmarshalBinary (b : Bytes) : Option Digest :=
  if b.take 4 ≠ [0x73, 0x68, 0x61, 0x03] ∨ b.length ≠ 108 then none
  else
    let word := fun i => UInt32.ofNat (beNat ((b.drop (4 + 4 * i)).take 4))
    let len := beNat (b.drop 100)
    some {
      h := ⟨word 0, word 1, word 2, word 3, word 4, word 5, word 6, word 7⟩
      buffered := (b.drop 36).take (len % 64)
      len }

/-- `Write` and then `Sum`. -/
def Digest.sum (d : Digest) (data : Bytes) : Bytes :=
  let rest := d.buffered ++ data
  let padded := rest ++ 0x80 :: (List.replicate ((119 - rest.length % 64) % 64) 0 ++ be 8 (8 * (d.len + data.length)))
  (absorb (padded.length / 64) padded d.h).bytes

/-- What is written down of a message in whole blocks and a rest. -/
def written (count : Nat) (blocks rest : Bytes) : Bytes :=
  [0x73, 0x68, 0x61, 0x03] ++ (absorb count blocks initialState).bytes ++
    (rest ++ List.replicate (64 - rest.length) 0 ++ be 8 (blocks ++ rest).length)

section
variable {count : Nat} {blocks rest : Bytes} (whole : blocks.length = 64 * count) (short : rest.length < 64)
include whole short

theorem unmarshalBinary_written : unmarshalBinary (written count blocks rest) =
    some { h := absorb count blocks initialState, buffered := rest, len := (blocks ++ rest).length % 256 ^ 8 } := by
  unfold written
  generalize absorb count blocks initialState = h
  have bytes := h.length_bytes
  have filled : (rest ++ List.replicate (64 - rest.length) (0 : UInt8)).length = 64 := by
    rw [length_append, length_replicate]
    omega
  generalize tail : rest ++ List.replicate (64 - rest.length) (0 : UInt8) = buffer at filled ⊢
  have front : ([0x73, 0x68, 0x61, 0x03] ++ h.bytes).length = 36 := by
    rw [length_append, bytes]
    rfl
  have behind (n : Nat) : ([0x73, 0x68, 0x61, 0x03] ++ h.bytes ++ (buffer ++ be 8 (blocks ++ rest).length)).drop
      (36 + n) = (buffer ++ be 8 (blocks ++ rest).length).drop n := by
    rw [← front, drop_length_add_append]
  have len : beNat (([0x73, 0x68, 0x61, 0x03] ++ h.bytes ++ (buffer ++ be 8 (blocks ++ rest).length)).drop 100) =
      (blocks ++ rest).length % 256 ^ 8 := by
    rw [behind 64, ← filled, drop_left, beNat_be_mod]
  have left : (blocks ++ rest).length % 256 ^ 8 % 64 = rest.length := by
    rw [Nat.mod_mod_of_dvd _ (by decide), length_append, whole, Nat.mul_add_mod, Nat.mod_eq_of_lt short]
  have length : ([0x73, 0x68, 0x61, 0x03] ++ h.bytes ++ (buffer ++ be 8 (blocks ++ rest).length)).length = 108 := by
    rw [length_append, length_append, length_append, bytes, filled, be_length]
    rfl
  rw [unmarshalBinary, if_neg]
  · dsimp only
    rw [len, left, behind 0, state_of_words, drop_zero, ← tail, append_assoc, take_left]
  · rw [length]
    simp

omit short in
/-- Going on from there gives the digest of the whole. -/
theorem sum_resumed (data : Bytes) :
    ({ h := absorb count blocks initialState, buffered := rest, len := (blocks ++ rest).length % 256 ^ 8 } :
      Digest).sum data = sha256 (blocks ++ rest ++ data) := by
  have total : (blocks ++ rest ++ data).length = 64 * count + (rest ++ data).length := by
    rw [append_assoc, length_append, whole]
  have remainder : (blocks ++ rest ++ data).length % 64 = (rest ++ data).length % 64 := by
    rw [total, Nat.mul_add_mod]
  have bits : be 8 (8 * ((blocks ++ rest).length % 256 ^ 8 + data.length)) =
      be 8 (8 * (blocks ++ rest ++ data).length) := by
    have parts : (blocks ++ rest ++ data).length = (blocks ++ rest).length + data.length := length_append
    apply be_congr
    rw [parts, Nat.mul_mod, Nat.mod_add_mod, ← Nat.mul_mod]
  have padded : pad (blocks ++ rest ++ data) = blocks ++ (rest ++ data ++ 0x80 ::
      (List.replicate ((119 - (rest ++ data).length % 64) % 64) 0 ++ be 8 (8 * (blocks ++ rest ++ data).length))) := by
    rw [pad, remainder]
    simp only [append_assoc]
  have blocksFirst (tail : Bytes) : (blocks ++ tail).length / 64 = count + tail.length / 64 := by
    rw [length_append, whole, Nat.mul_add_div (by decide)]
  rw [Digest.sum, sha256, padded, blocksFirst, absorb_append whole, bits]

end

end ReticulumProtocols.Wire.Sha256
