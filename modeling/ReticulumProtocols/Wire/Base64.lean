import ReticulumProtocols.Wire.BigEndian

/-! Base64 with the alphabet for URLs: three bytes are four characters, and a shorter rest is padded. -/

namespace ReticulumProtocols.Wire.Base64

/-- The character of the last six bits of a number. -/
def char (n : Nat) : UInt8 :=
  let n := n % 64
  UInt8.ofNat (if n < 26 then 0x41 + n else if n < 52 then 0x61 + (n - 26) else if n < 62 then 0x30 + (n - 52)
    else if n = 62 then 0x2d else 0x5f)

def index (c : UInt8) : Option Nat :=
  if 0x41 ≤ c ∧ c ≤ 0x5a then some (c.toNat - 0x41)
  else if 0x61 ≤ c ∧ c ≤ 0x7a then some (c.toNat - 0x61 + 26)
  else if 0x30 ≤ c ∧ c ≤ 0x39 then some (c.toNat - 0x30 + 52)
  else if c = 0x2d then some 62
  else if c = 0x5f then some 63
  else none

def pad : UInt8 := 0x3d

def encode : Bytes → Bytes
  | [] => []
  | [a] => [char (a.toNat / 4), char (a.toNat * 16), pad, pad]
  | [a, b] => [char (a.toNat / 4), char (a.toNat * 16 + b.toNat / 16), char (b.toNat * 4), pad]
  | a :: b :: c :: rest =>
    char (a.toNat / 4) :: char (a.toNat * 16 + b.toNat / 16) :: char (b.toNat * 4 + c.toNat / 64) :: char c.toNat ::
      encode rest

/-- Padding is accepted in the last four characters only; what is left over of their bits is not looked at. -/
def decodeQuanta : Bytes → Option Bytes
  | [] => some []
  | a :: b :: c :: d :: rest => do
    let i ← index a
    let j ← index b
    let first := UInt8.ofNat (i * 4 + j / 16)
    if c = pad ∧ d = pad ∧ rest = [] then return [first]
    let k ← index c
    let second := UInt8.ofNat (j * 16 + k / 4)
    if d = pad ∧ rest = [] then return [first, second]
    let l ← index d
    let rest ← decodeQuanta rest
    return first :: second :: UInt8.ofNat (k * 64 + l) :: rest
  | _ => none

/-- Line breaks are passed over. -/
def decode (text : Bytes) : Option Bytes := decodeQuanta (text.filter fun c => c ≠ 0x0a ∧ c ≠ 0x0d)

theorem index_char (n : Nat) : index (char n) = some (n % 64) := by
  have small : n % 64 < 64 := Nat.mod_lt n (by decide)
  unfold char
  generalize n % 64 = m at small
  decide +revert

theorem char_ne_pad (n : Nat) : char n ≠ pad := by
  intro same
  have found := index_char n
  rw [same] at found
  contradiction

/-- The characters are those of the alphabet, padded to a multiple of four. -/
theorem encode_padded (data : Bytes) : ∃ text count, encode data = text ++ List.replicate count pad ∧ count < 4 ∧
    (∀ c ∈ text, ∃ n, c = char n) ∧ text.length = (4 * data.length + 2) / 3 ∧ (text.length + count) % 4 = 0 := by
  induction data using encode.induct with
  | case1 => exact ⟨[], 0, rfl, by decide, by simp, rfl, rfl⟩
  | case2 a => exact ⟨[_, _], 2, rfl, by decide, by simp, by simp, by simp⟩
  | case3 a b => exact ⟨[_, _, _], 1, rfl, by decide, by simp, by simp, by simp⟩
  | case4 a b c rest ih =>
    obtain ⟨text, count, form, few, alphabet, length, whole⟩ := ih
    refine ⟨char (a.toNat / 4) :: char (a.toNat * 16 + b.toNat / 16) :: char (b.toNat * 4 + c.toNat / 64) ::
      char c.toNat :: text, count, ?_, few, ?_, ?_, ?_⟩
    · rw [encode, form]
      rfl
    · simpa using alphabet
    · simp only [List.length_cons, length]
      omega
    · simp only [List.length_cons]
      omega

theorem decodeQuanta_encode (data : Bytes) : decodeQuanta (encode data) = some data := by
  have back (a : UInt8) {n : Nat} (same : n % 256 = a.toNat) : UInt8.ofNat n = a := by
    rw [← UInt8.toNat_inj, UInt8.toNat_ofNat', same]
  induction data using encode.induct with
  | case1 => rfl
  | case2 a =>
    have := a.toNat_lt
    simp only [encode, decodeQuanta, index_char, bind, Option.bind, and_self, if_true, pure]
    rw [back a (by omega)]
  | case3 a b =>
    have := a.toNat_lt
    have := b.toNat_lt
    simp only [encode, decodeQuanta, index_char, char_ne_pad, bind, Option.bind, and_self, false_and, if_false, if_true, pure]
    rw [back a (by omega), back b (by omega)]
  | case4 a b c rest ih =>
    have := a.toNat_lt
    have := b.toNat_lt
    have := c.toNat_lt
    simp only [encode, decodeQuanta, index_char, char_ne_pad, ih, bind, Option.bind, false_and, if_false, pure]
    rw [back a (by omega), back b (by omega), back c (by omega)]

end ReticulumProtocols.Wire.Base64
