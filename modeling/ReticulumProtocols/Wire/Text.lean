import ReticulumProtocols.Wire.BigEndian

/-! Text in byte strings: the hexadecimal form of bytes, and decimal integers as a scanner reads them.
What is written is read back, and it never contains a character that is no digit or sign. -/

namespace ReticulumProtocols.Wire.Text
open List
variable {n : Nat} {c : UInt8}

/-- The bytes of an ASCII text. -/
def ascii (text : String) : Bytes := text.toList.map fun c => UInt8.ofNat c.toNat

/-- The lower-case digit of a half byte. -/
def hexChar (n : Nat) : UInt8 := UInt8.ofNat (if n < 10 then 0x30 + n else 0x61 + (n - 10))

/-- The half byte of a digit in either case. -/
def hexValue (c : UInt8) : Option Nat :=
  if 0x30 ≤ c ∧ c ≤ 0x39 then some (c.toNat - 0x30)
  else if 0x61 ≤ c ∧ c ≤ 0x66 then some (c.toNat - 0x61 + 10)
  else if 0x41 ≤ c ∧ c ≤ 0x46 then some (c.toNat - 0x41 + 10)
  else none

def encodeHex (bytes : Bytes) : Bytes :=
  bytes.flatMap fun b => [hexChar (b.toNat / 16), hexChar (b.toNat % 16)]

/-- An odd number of digits is refused like a character that is none. -/
def decodeHex : Bytes → Option Bytes
  | [] => some []
  | [_] => none
  | high :: low :: rest => do
    let high ← hexValue high
    let low ← hexValue low
    let rest ← decodeHex rest
    return UInt8.ofNat (high * 16 + low) :: rest

def isDigit (c : UInt8) : Bool := 0x30 ≤ c ∧ c ≤ 0x39

def natText (n : Nat) : Bytes :=
  if n = 0 then [0x30] else ((Nat.digits 10 n).map fun d => UInt8.ofNat (0x30 + d)).reverse

def intText (n : Int) : Bytes :=
  if n < 0 then 0x2d :: natText n.natAbs else natText n.natAbs

def natValue (digits : Bytes) : Nat := digits.foldl (fun n c => 10 * n + (c.toNat - 0x30)) 0

/-- What a scan passes before a number: the ASCII blanks other than a newline. -/
def isBlank (c : UInt8) : Bool := c = 0x20 ∨ c = 0x09 ∨ c = 0x0b ∨ c = 0x0c ∨ c = 0x0d

/-- A scanned int64: blanks, a sign and the digits that follow; the text behind them is left alone. -/
def scanInt64 (text : Bytes) : Option Int :=
  let text := text.dropWhile isBlank
  let negative := text.head? = some 0x2d
  let signed := negative ∨ text.head? = some 0x2b
  let digits := (if signed then text.tail else text).takeWhile isDigit
  let value : Int := if negative then -natValue digits else natValue digits
  if digits = [] ∨ value < -2 ^ 63 ∨ 2 ^ 63 ≤ value then none else some value

theorem hexValue_hexChar (small : n < 16) : hexValue (hexChar n) = some n := by
  decide +revert

theorem hexChar_ne (small : n < 16) (none : hexValue c = none) : hexChar n ≠ c := by
  intro same
  rw [← same, hexValue_hexChar small] at none
  contradiction

theorem decodeHex_encodeHex (bytes : Bytes) : decodeHex (encodeHex bytes) = some bytes := by
  induction bytes with
  | nil => rfl
  | cons b bytes ih =>
    have byte := b.toNat_lt
    have whole : UInt8.ofNat (b.toNat / 16 * 16 + b.toNat % 16) = b := by
      rw [Nat.div_add_mod', UInt8.ofNat_toNat]
    have high : hexValue (hexChar (b.toNat / 16)) = some (b.toNat / 16) := hexValue_hexChar (by omega)
    have low : hexValue (hexChar (b.toNat % 16)) = some (b.toNat % 16) := hexValue_hexChar (by omega)
    rw [encodeHex] at ih
    simp only [encodeHex, flatMap_cons, cons_append, nil_append, decodeHex, high, low, ih]
    exact congrArg (fun b => some (b :: bytes)) whole

theorem not_mem_encodeHex (none : hexValue c = none) (bytes : Bytes) : c ∉ encodeHex bytes := by
  intro member
  obtain ⟨b, -, digit⟩ := mem_flatMap.1 member
  have byte := b.toNat_lt
  rcases mem_pair.1 digit with same | same
  · exact hexChar_ne (by omega) none same.symm
  · exact hexChar_ne (by omega) none same.symm

theorem natText_digits (member : c ∈ natText n) : isDigit c = true := by
  unfold natText at member
  split at member
  · rw [mem_singleton.1 member]
    rfl
  · rw [mem_reverse, mem_map] at member
    obtain ⟨d, inside, rfl⟩ := member
    have small := Nat.digits_lt_base (by norm_num) inside
    clear inside
    decide +revert

theorem natText_ne_nil (n : Nat) : natText n ≠ [] := by
  unfold natText
  split
  · exact cons_ne_nil _ _
  next positive =>
    rw [Ne, reverse_eq_nil_iff, map_eq_nil_iff]
    exact Nat.digits_ne_nil_iff_ne_zero.2 positive

theorem natValue_natText (n : Nat) : natValue (natText n) = n := by
  unfold natText
  split
  next zero => rw [zero]; rfl
  next positive =>
    have digit : ∀ d ∈ Nat.digits 10 n, (UInt8.ofNat (0x30 + d)).toNat - 0x30 = d := by
      intro d member
      have small := Nat.digits_lt_base (by norm_num) member
      rw [UInt8.toNat_ofNat']
      omega
    have fold : natValue ((Nat.digits 10 n).map fun d => UInt8.ofNat (0x30 + d)).reverse =
        Nat.ofDigits 10 (Nat.digits 10 n) := by
      rw [natValue, foldl_reverse, foldr_map, Nat.ofDigits_eq_foldr]
      apply foldr_ext
      intro d member total
      rw [digit d member, Nat.add_comm]
      rfl
    rw [fold, Nat.ofDigits_digits]

theorem isBlank_of_isDigit (digit : isDigit c = true) : isBlank c = false := by
  simp only [isDigit, decide_eq_true_eq, UInt8.le_iff_toNat_le] at digit
  simp only [isBlank, decide_eq_false_iff_not, ← UInt8.toNat_inj]
  change ¬(c.toNat = 0x20 ∨ c.toNat = 0x09 ∨ c.toNat = 0x0b ∨ c.toNat = 0x0c ∨ c.toNat = 0x0d)
  change 0x30 ≤ c.toNat ∧ c.toNat ≤ 0x39 at digit
  omega

theorem scanInt64_intText {n : Int} (low : -2 ^ 63 ≤ n) (high : n < 2 ^ 63) : scanInt64 (intText n) = some n := by
  have digits : (natText n.natAbs).takeWhile isDigit = natText n.natAbs :=
    takeWhile_eq_self_iff.2 fun c member => natText_digits member
  obtain ⟨first, others, form⟩ := exists_cons_of_ne_nil (natText_ne_nil n.natAbs)
  have digit : isDigit first = true := natText_digits (by rw [form]; exact mem_cons_self)
  have unsigned : first ≠ 0x2d ∧ first ≠ 0x2b := by
    constructor
    · rintro rfl
      contradiction
    · rintro rfl
      contradiction
  by_cases negative : n < 0
  · have value : -(n.natAbs : Int) = n := by omega
    have unblank : (intText n).dropWhile isBlank = 0x2d :: natText n.natAbs := by
      rw [intText, if_pos negative, dropWhile_cons_of_neg (by decide)]
    simp only [scanInt64, unblank, List.head?_cons, tail_cons, true_or, if_true, digits, natValue_natText,
      value]
    rw [if_neg]
    simp only [natText_ne_nil, false_or]
    omega
  · have value : (n.natAbs : Int) = n := by omega
    have unblank : (intText n).dropWhile isBlank = natText n.natAbs := by
      rw [intText, if_neg negative, form, dropWhile_cons_of_neg (by simp [isBlank_of_isDigit digit])]
    have head : (natText n.natAbs).head? = some first := by rw [form]; rfl
    simp only [scanInt64, unblank, head, Option.some.injEq, unsigned.1, unsigned.2, or_self, if_false,
      digits, natValue_natText, value]
    rw [if_neg]
    simp only [natText_ne_nil, false_or]
    omega

theorem intText_ne_nil (n : Int) : intText n ≠ [] := by
  unfold intText
  split
  · exact cons_ne_nil _ _
  · exact natText_ne_nil _

theorem intText_last {n : Int} (last : (intText n).getLast? = some c) : isDigit c = true := by
  have member : c ∈ natText n.natAbs := by
    unfold intText at last
    split at last
    · rw [List.getLast?_cons_of_ne_nil (natText_ne_nil _)] at last
      exact mem_of_getLast? last
    · exact mem_of_getLast? last
  exact natText_digits member

theorem not_mem_intText (other : isDigit c = false) (unsigned : c ≠ 0x2d) (n : Int) : c ∉ intText n := by
  have plain : c ∉ natText n.natAbs := by
    intro member
    rw [natText_digits member] at other
    contradiction
  unfold intText
  split
  · exact not_mem_cons_of_ne_of_not_mem unsigned plain
  · exact plain

end ReticulumProtocols.Wire.Text
