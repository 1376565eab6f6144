import ReticulumProtocols.Gorrcd.Config
import ReticulumProtocols.Rrc.Names
import ReticulumProtocols.Wire.Lists

/-! Files that are written line by line and read by a `bufio.Scanner`, and lists of words on such a line. -/

namespace ReticulumProtocols.Gorrcd
open Wire Wire.Text Cbor Lxmf Rrc List
variable {r : Char} {lines : List Rrc.Text} {pieces : List Rrc.Text}

theorem str_eq_iff {k : Rrc.Text} {s : String} : str k = s ↔ k = s.toList := by
  rw [str, ← String.toList_inj, String.toList_ofList]

/-- Every line with a newline behind it. -/
def joinLines (lines : List Rrc.Text) : Rrc.Text := lines.flatMap fun line => line ++ ['\n']

theorem splitLines_joinLines (whole : ∀ line ∈ lines, '\n' ∉ line) :
    splitLines (joinLines lines) = lines := by
  have split : (joinLines lines).splitOn '\n' = lines ++ [[]] := splitOn_flatMap whole
  unfold splitLines
  simp only [split]
  rw [List.getLast?_concat, if_pos rfl, dropLast_concat]

/-- A line without the carriage return at its end. -/
def dropCR (line : Rrc.Text) : Rrc.Text := if line.getLast? = some '\r' then line.dropLast else line

theorem scanLines_eq (lines : List Rrc.Text) (short : ∀ line ∈ lines, byteLength line < maxScanTokenSize) :
    scanLines lines = (lines.map dropCR, none) := by
  induction lines with
  | nil => rfl
  | cons line lines ih =>
    have first := short line mem_cons_self
    have others := ih fun other member => short other (mem_cons_of_mem line member)
    rw [scanLines, if_neg (not_le.2 first), others]
    rfl

theorem scanLines_error (lines : List Rrc.Text) :
    (scanLines lines).2 = none ↔ ∀ line ∈ lines, byteLength line < maxScanTokenSize := by
  constructor
  · intro fine
    induction lines with
    | nil => exact fun line member => absurd member not_mem_nil
    | cons line lines ih =>
      rw [scanLines] at fine
      split at fine
      · contradiction
      next short =>
        intro other member
        rcases mem_cons.1 member with rfl | member
        · exact not_le.1 short
        · exact ih fine other member
  · intro short
    rw [scanLines_eq lines short]

theorem scan_joinLines (whole : ∀ line ∈ lines, '\n' ∉ line)
    (short : ∀ line ∈ lines, byteLength line < maxScanTokenSize) :
    scan (joinLines lines) = (lines.map dropCR, none) := by
  rw [scan, splitLines_joinLines whole, scanLines_eq lines short]

theorem scan_joinLines_error (whole : ∀ line ∈ lines, '\n' ∉ line) :
    (scan (joinLines lines)).2 = none ↔ ∀ line ∈ lines, byteLength line < maxScanTokenSize := by
  rw [scan, splitLines_joinLines whole, scanLines_error]

theorem dropCR_sublist (line : Rrc.Text) : (dropCR line).Sublist line := by
  unfold dropCR
  split
  · exact dropLast_sublist line
  · exact List.Sublist.refl line

theorem byteLength_le_of_sublist {s t : Rrc.Text} (part : s.Sublist t) : byteLength s ≤ byteLength t :=
  (part.map Char.utf8Size).sum_le_sum fun _ _ => Nat.zero_le _

/-- The lines that are scanned from a text without an error fit the scanner again. -/
theorem scan_lines {text : Rrc.Text} (scanned : scan text = (lines, none)) :
    ∀ line ∈ lines, '\n' ∉ line ∧ byteLength line < maxScanTokenSize := by
  have short := (scanLines_error (splitLines text)).1 (congrArg Prod.snd scanned)
  have pieces : ∀ line ∈ splitLines text, '\n' ∉ line := by
    intro line member
    have piece : line ∈ text.splitOn '\n' := by
      unfold splitLines at member
      dsimp only at member
      split at member
      · exact mem_of_mem_dropLast member
      · exact member
    exact (of_mem_splitOn piece).1
  rw [scan, scanLines_eq _ short] at scanned
  have same : (splitLines text).map dropCR = lines := congrArg Prod.fst scanned
  intro line member
  rw [← same] at member
  obtain ⟨raw, listed, rfl⟩ := mem_map.1 member
  have part := dropCR_sublist raw
  exact ⟨fun newline => pieces raw listed (part.subset newline), lt_of_le_of_lt (byteLength_le_of_sublist part)
    (short raw listed)⟩

/-- What the library does with ASCII characters, and that quoted texts are printed on one line and read back. -/
structure Library.Plain (lib : Library) : Prop where
  space : ∀ r : Char, r.toNat < 128 → (lib.unicode.isSpace r = true ↔ r = ' ' ∨ 9 ≤ r.toNat ∧ r.toNat ≤ 13)
  lower : ∀ r : Char, r.toNat < 128 → lib.unicode.toLower r = r.toLower
  printed : ∀ s : Rrc.Text, (∀ r ∈ s, r.isAlphanum = true) → lib.quote s = '"' :: (s ++ ['"'])
  quoted : ∀ s, ∃ body, lib.quote s = '"' :: (body ++ ['"']) ∧ '\n' ∉ body
  unquote_quote : ∀ s, lib.unquote (lib.quote s) = some s

theorem enclosed_between (first last : Char) (body : Rrc.Text) :
    enclosed first last (first :: (body ++ [last])) = true := by
  rw [enclosed, decide_eq_true_iff, ← cons_append, List.getLast?_concat]
  refine ⟨?_, rfl, rfl⟩
  rw [length_append, length_cons, length_singleton]
  omega

theorem inner_between (first last : Char) (body : Rrc.Text) : inner (first :: (body ++ [last])) = body :=
  dropLast_concat

section
variable {u : Unicode}

/-- The text starts and ends with something else than a blank. -/
structure Solid (u : Unicode) (s : Rrc.Text) : Prop where
  some : s ≠ []
  first : ∀ r ∈ s.head?, u.isSpace r = false
  last : ∀ r ∈ s.getLast?, u.isSpace r = false

namespace Solid

theorem of_forall {s : Rrc.Text} (some : s ≠ []) (each : ∀ r ∈ s, u.isSpace r = false) : Solid u s where
  some := some
  first r member := each r (mem_of_head? member)
  last r member := each r (mem_of_getLast? member)

theorem append {s t : Rrc.Text} (front : Solid u s) (middle : Rrc.Text) (back : Solid u t) :
    Solid u (s ++ middle ++ t) where
  some := append_ne_nil_of_right_ne_nil _ back.some
  first r member := by
    obtain ⟨first, rest, rfl⟩ := exists_cons_of_ne_nil front.some
    exact front.first r member
  last r member := by
    rw [List.getLast?_append_of_ne_nil _ back.some] at member
    exact back.last r member

theorem trimSpace {s : Rrc.Text} (solid : Solid u s) : u.trimSpace s = s := by
  have kept : ∀ t : Rrc.Text, (∀ r ∈ t.head?, u.isSpace r = false) → t.dropWhile u.isSpace = t := by
    intro t first
    cases t with
    | nil => rfl
    | cons r t =>
      apply dropWhile_cons_of_neg
      rw [first r rfl]
      exact Bool.false_ne_true
  have back := kept s.reverse (by
    rw [List.head?_reverse]
    exact solid.last)
  rw [Unicode.trimSpace, kept s solid.first, back, reverse_reverse]

end Solid

theorem trimSpace_concat_space (s : Rrc.Text) {r : Char} (space : u.isSpace r = true) :
    u.trimSpace (s ++ [r]) = u.trimSpace s := by
  unfold Unicode.trimSpace
  rw [dropWhile_append]
  split
  next blank =>
    rw [List.isEmpty_iff] at blank
    rw [blank, dropWhile_cons_of_pos space]
    rfl
  next => rw [reverse_append, reverse_singleton, singleton_append, dropWhile_cons_of_pos space]

/-- What starts a text with no blank in it stays when the text is trimmed. -/
theorem prefix_trimSpace {s t : Rrc.Text} (some : s ≠ []) (solid : ∀ r ∈ s, u.isSpace r = false) :
    s <+: u.trimSpace (s ++ t) := by
  have kept : ∀ {l : Rrc.Text}, l ≠ [] → (∀ r ∈ l, u.isSpace r = false) → ∀ more,
      (l ++ more).dropWhile u.isSpace = l ++ more := by
    intro l some solid more
    obtain ⟨r, l, rfl⟩ := exists_cons_of_ne_nil some
    apply dropWhile_cons_of_neg
    rw [solid r mem_cons_self]
    exact Bool.false_ne_true
  have back := kept (reverse_ne_nil_iff.2 some) (fun r member => solid r (mem_reverse.1 member)) []
  rw [append_nil] at back
  rw [Unicode.trimSpace, kept some solid, reverse_append, dropWhile_append]
  split
  · rw [back, reverse_reverse]
  · rw [reverse_append, reverse_reverse]
    exact prefix_append _ _

theorem trimSpace_cons_space (s : Rrc.Text) {r : Char} (space : u.isSpace r = true) :
    u.trimSpace (r :: s) = u.trimSpace s := by
  unfold Unicode.trimSpace
  rw [dropWhile_cons_of_pos space]

end

namespace Library.Plain
variable {lib : Library} (plain : lib.Plain)
include plain

theorem isSpace_eq_false {r : Char} (range : 33 ≤ r.toNat ∧ r.toNat < 128) : lib.unicode.isSpace r = false := by
  have other : r ≠ ' ' := by
    rintro rfl
    exact absurd range.1 (by decide)
  rw [Bool.eq_false_iff, Ne, plain.space r range.2, or_iff_right other]
  omega

theorem solid {s : Rrc.Text} (some : s ≠ []) (range : ∀ r ∈ s, 33 ≤ r.toNat ∧ r.toNat < 128) : Solid lib.unicode s :=
  Solid.of_forall some fun r member => plain.isSpace_eq_false (range r member)

theorem solid_between {first last : Char} (body : Rrc.Text) (start : 33 ≤ first.toNat ∧ first.toNat < 128)
    (stop : 33 ≤ last.toNat ∧ last.toNat < 128) : Solid lib.unicode (first :: (body ++ [last])) := by
  have single : ∀ {r : Char}, 33 ≤ r.toNat ∧ r.toNat < 128 → Solid lib.unicode [r] := by
    intro r range
    apply plain.solid (cons_ne_nil _ _)
    intro other member
    rwa [mem_singleton.1 member]
  exact (single start).append body (single stop)

theorem trimSpace_dropCR (line : Rrc.Text) : lib.unicode.trimSpace (dropCR line) = lib.unicode.trimSpace line := by
  unfold dropCR
  split
  next ends =>
    obtain ⟨front, rfl⟩ := List.getLast?_eq_some_iff.1 ends
    have space : lib.unicode.isSpace '\r' = true := (plain.space '\r' (by decide)).2 (by decide)
    rw [dropLast_concat, trimSpace_concat_space front space]
  next => rfl

theorem trimSpace_blank (s : Rrc.Text) : lib.unicode.trimSpace (' ' :: s) = lib.unicode.trimSpace s :=
  trimSpace_cons_space s ((plain.space ' ' (by decide)).2 (Or.inl rfl))

theorem solid_quote (s : Rrc.Text) : Solid lib.unicode (lib.quote s) := by
  obtain ⟨body, form, -⟩ := plain.quoted s
  rw [form]
  exact plain.solid_between body (by decide) (by decide)

theorem unquote_eq (s : Rrc.Text) : Gorrcd.unquote lib (lib.quote s) = s := by
  have between : enclosed '"' '"' (lib.quote s) = true := by
    obtain ⟨body, form, -⟩ := plain.quoted s
    rw [form]
    exact enclosed_between '"' '"' body
  unfold Gorrcd.unquote
  simp only [(plain.solid_quote s).trimSpace]
  rw [if_pos between, plain.unquote_quote]
  rfl

end Library.Plain

def formatStringList (lib : Library) (vals : List Rrc.Text) : Rrc.Text :=
  if vals = [] then ['[', ']'] else '[' :: ([',', ' '].intercalate (vals.map lib.quote) ++ [']'])

/-- A text that is printed as it is. -/
def Word (s : Rrc.Text) : Prop := s ≠ [] ∧ ∀ r ∈ s, r.isAlphanum = true

theorem alphanum_range (letter : r.isAlphanum = true) : 48 ≤ r.toNat ∧ r.toNat < 123 := by
  unfold Char.isAlphanum Char.isAlpha Char.isUpper Char.isLower Char.isDigit at letter
  simp only [Bool.or_eq_true, decide_eq_true_eq, Bool.and_eq_true, UInt32.le_iff_toNat_le, ge_iff_le] at letter
  change (65 ≤ r.toNat ∧ r.toNat ≤ 90 ∨ 97 ≤ r.toNat ∧ r.toNat ≤ 122) ∨ 48 ≤ r.toNat ∧ r.toNat ≤ 57 at letter
  omega

theorem isLowerHex_hexChar {n : Nat} (small : n < 16) : isLowerHex (Char.ofNat (hexChar n).toNat) = true := by
  decide +revert

theorem alphanum_of_isLowerHex (digit : isLowerHex r = true) : r.isAlphanum = true := by
  simp only [isLowerHex, decide_eq_true_eq, Char.le_def, UInt32.le_iff_toNat_le] at digit
  simp only [Char.isAlphanum, Char.isAlpha, Char.isUpper, Char.isLower, Char.isDigit, Bool.or_eq_true,
    decide_eq_true_eq, Bool.and_eq_true, UInt32.le_iff_toNat_le, ge_iff_le]
  change 48 ≤ r.toNat ∧ r.toNat ≤ 57 ∨ 97 ≤ r.toNat ∧ r.toNat ≤ 102 at digit
  change (65 ≤ r.toNat ∧ r.toNat ≤ 90 ∨ 97 ≤ r.toNat ∧ r.toNat ≤ 122) ∨ 48 ≤ r.toNat ∧ r.toNat ≤ 57
  omega

namespace ID

theorem isLowerHex_of_mem_hex {id : ID} {r : Char} (member : r ∈ id.hex) : isLowerHex r = true := by
  obtain ⟨digit, listed, rfl⟩ := mem_map.1 member
  obtain ⟨b, -, half⟩ := mem_flatMap.1 listed
  have byte := b.toNat_lt
  rcases mem_pair.1 half with rfl | rfl
  · exact isLowerHex_hexChar (by omega)
  · exact isLowerHex_hexChar (by omega)

theorem length_hex (id : ID) : id.hex.length = 32 := by
  have double : ∀ bytes : Bytes, (encodeHex bytes).length = 2 * bytes.length := by
    intro bytes
    induction bytes with
    | nil => rfl
    | cons b bytes ih =>
      rw [encodeHex] at ih
      rw [encodeHex, flatMap_cons, length_append, ih, length_cons, length_cons, length_cons,
        length_nil]
      omega
  rw [hex, length_map, double, id.2]
  rfl

theorem word_hex (id : ID) : Word id.hex := by
  constructor
  · intro empty
    have length := id.length_hex
    rw [empty] at length
    contradiction
  · exact fun r member => alphanum_of_isLowerHex (isLowerHex_of_mem_hex member)

end ID

theorem intercalate_comma (piece : Rrc.Text) (pieces : List Rrc.Text) :
    [',', ' '].intercalate (piece :: pieces) = [','].intercalate (piece :: pieces.map (' ' :: ·)) := by
  induction pieces generalizing piece with
  | nil => rfl
  | cons next pieces ih =>
    have blank : [','].intercalate ((' ' :: next) :: pieces.map (' ' :: ·)) =
        ' ' :: [','].intercalate (next :: pieces.map (' ' :: ·)) := by
      cases pieces with
      | nil => rfl
      | cons other pieces => rw [map_cons, intercalate_cons_cons, intercalate_cons_cons]; rfl
    rw [map_cons, intercalate_cons_cons, intercalate_cons_cons, ih, blank]
    simp

theorem splitOn_comma {piece : Rrc.Text} (whole : ∀ s ∈ piece :: pieces, ',' ∉ s) :
    ([',', ' '].intercalate (piece :: pieces)).splitOn ',' = piece :: pieces.map (' ' :: ·) := by
  rw [intercalate_comma]
  apply splitOn_intercalate _ _ (cons_ne_nil _ _)
  intro s member
  rcases mem_cons.1 member with rfl | member
  · exact whole s mem_cons_self
  · obtain ⟨t, listed, rfl⟩ := mem_map.1 member
    apply not_mem_cons_of_ne_of_not_mem (by decide)
    exact whole t (mem_cons_of_mem piece listed)

theorem mem_intercalate {separator : Rrc.Text}     (member : r ∈ separator.intercalate pieces) : r ∈ separator ∨ ∃ piece ∈ pieces, r ∈ piece := by
  induction pieces with
  | nil => exact absurd member not_mem_nil
  | cons piece pieces ih =>
    cases pieces with
    | nil =>
      rw [intercalate_singleton] at member
      exact Or.inr ⟨piece, mem_cons_self, member⟩
    | cons next pieces =>
      rw [intercalate_cons_cons, append_assoc, mem_append, mem_append] at member
      rcases member with member | member | member
      · exact Or.inr ⟨piece, mem_cons_self, member⟩
      · exact Or.inl member
      · rcases ih member with found | ⟨other, listed, found⟩
        · exact Or.inl found
        · exact Or.inr ⟨other, mem_cons_of_mem piece listed, found⟩

theorem byteLength_append (s t : Rrc.Text) : byteLength (s ++ t) = byteLength s + byteLength t := by
  rw [byteLength, map_append, sum_append, ← byteLength, ← byteLength]

theorem byteLength_ascii {s : Rrc.Text} (ascii : ∀ r ∈ s, r.toNat < 128) : byteLength s = s.length := by
  induction s with
  | nil => rfl
  | cons r s ih =>
    have single : r.utf8Size = 1 := by
      have small := ascii r mem_cons_self
      unfold Char.utf8Size
      rw [if_pos]
      exact UInt32.le_iff_toNat_le.2 (Nat.le_of_lt_succ small)
    have rest := ih fun r member => ascii r (mem_cons_of_mem _ member)
    rw [byteLength] at rest
    rw [byteLength, map_cons, sum_cons, single, rest, length_cons]
    omega

theorem byteLength_intercalate (some : pieces ≠ []) :
    byteLength ([',', ' '].intercalate pieces) + 2 = (pieces.map fun s => byteLength s + 2).sum := by
  induction pieces with
  | nil => contradiction
  | cons piece pieces ih =>
    cases pieces with
    | nil => rw [intercalate_singleton, map_singleton, sum_singleton]
    | cons next pieces =>
      have rest := ih (cons_ne_nil _ _)
      have separator : byteLength [',', ' '] = 2 := by decide
      rw [intercalate_cons_cons, byteLength_append, byteLength_append, separator, map_cons, sum_cons]
      omega

theorem intercalate_quotes (separator : Rrc.Text) (some : pieces ≠ [])
    (quoted : ∀ s ∈ pieces, ∃ body, s = '"' :: (body ++ ['"'])) :
    ∃ body, separator.intercalate pieces = '"' :: (body ++ ['"']) := by
  induction pieces with
  | nil => contradiction
  | cons piece pieces ih =>
    obtain ⟨first, rfl⟩ := quoted piece mem_cons_self
    cases pieces with
    | nil => exact ⟨first, intercalate_singleton⟩
    | cons next pieces =>
      obtain ⟨body, form⟩ := ih (cons_ne_nil _ _) fun s member => quoted s (mem_cons_of_mem _ member)
      refine ⟨first ++ ['"'] ++ separator ++ '"' :: body, ?_⟩
      rw [intercalate_cons_cons, form]
      simp

namespace Library.Plain
variable {lib : Library} (plain : lib.Plain)
include plain

theorem comma_notMem_quote {s : Rrc.Text} (word : Word s) : ',' ∉ lib.quote s := by
  rw [plain.printed s word.2]
  intro member
  rcases mem_cons.1 member with same | member
  · exact absurd same (by decide)
  · rcases List.mem_append.1 member with member | member
    · exact absurd (word.2 ',' member) (by decide)
    · exact absurd (mem_singleton.1 member) (by decide)

theorem solid_format (vals : List Rrc.Text) : Solid lib.unicode (formatStringList lib vals) := by
  unfold formatStringList
  split
  · exact plain.solid_between [] (by decide) (by decide)
  · exact plain.solid_between _ (by decide) (by decide)

theorem newline_notMem_quote (s : Rrc.Text) : '\n' ∉ lib.quote s := by
  obtain ⟨body, form, line⟩ := plain.quoted s
  rw [form]
  intro member
  rcases mem_cons.1 member with same | member
  · exact absurd same (by decide)
  · rcases List.mem_append.1 member with member | member
    · exact line member
    · exact absurd (mem_singleton.1 member) (by decide)

theorem newline_notMem_format (vals : List Rrc.Text) : '\n' ∉ formatStringList lib vals := by
  unfold formatStringList
  split
  · decide
  · intro member
    rcases mem_cons.1 member with same | member
    · exact absurd same (by decide)
    rcases List.mem_append.1 member with member | member
    · rcases mem_intercalate member with member | ⟨piece, listed, found⟩
      · exact absurd member (by decide)
      · obtain ⟨s, -, rfl⟩ := mem_map.1 listed
        exact plain.newline_notMem_quote s found
    · exact absurd (mem_singleton.1 member) (by decide)

theorem byteLength_quote_hex (id : ID) : byteLength (lib.quote id.hex) = 34 := by
  have ascii : ∀ r ∈ id.hex, r.toNat < 128 := by
    intro r member
    have range := alphanum_range (id.word_hex.2 r member)
    omega
  have quotes : byteLength ['"'] = 1 := by decide
  rw [plain.printed id.hex id.word_hex.2, ← List.singleton_append, byteLength_append, byteLength_append,
    byteLength_ascii ascii, id.length_hex, quotes]

theorem byteLength_format_hex (ids : List ID) :
    byteLength (formatStringList lib (ids.map ID.hex)) = if ids = [] then 2 else 36 * ids.length := by
  unfold formatStringList
  by_cases empty : ids = []
  · rw [if_pos empty, empty, List.map_nil, if_pos rfl]
    decide
  · have brackets : byteLength ['['] = 1 ∧ byteLength [']'] = 1 := by decide
    have some : ids.map (lib.quote ∘ ID.hex) ≠ [] := mt List.map_eq_nil_iff.1 empty
    have each : (fun s => byteLength s + 2) ∘ lib.quote ∘ ID.hex = Function.const ID 36 := by
      funext id
      rw [Function.comp_apply, Function.comp_apply, plain.byteLength_quote_hex, Function.const_apply]
    have sized := byteLength_intercalate some
    rw [List.map_map, each, List.map_const, List.sum_replicate_nat] at sized
    rw [if_neg (mt List.map_eq_nil_iff.1 empty), if_neg empty, List.map_map, ← List.singleton_append, byteLength_append, byteLength_append,
      brackets.1, brackets.2]
    omega

theorem parseStringList_format {vals : List Rrc.Text} (words : ∀ s ∈ vals, Word s) :
    parseStringList lib (formatStringList lib vals) = vals := by
  unfold parseStringList
  simp only [(plain.solid_format vals).trimSpace]
  unfold formatStringList
  cases vals with
  | nil => exact if_pos (Or.inr rfl)
  | cons val vals =>
    have each : ∀ s ∈ (val :: vals).map lib.quote, ∃ body, s = '"' :: (body ++ ['"']) := by
      intro s member
      obtain ⟨t, -, rfl⟩ := List.mem_map.1 member
      obtain ⟨body, form, -⟩ := plain.quoted t
      exact ⟨body, form⟩
    have some : (val :: vals).map lib.quote ≠ [] := List.cons_ne_nil _ _
    obtain ⟨body, form⟩ := intercalate_quotes [',', ' '] some each
    have inside : lib.unicode.trimSpace ('"' :: (body ++ ['"'])) = '"' :: (body ++ ['"']) :=
      (plain.solid_between body (by decide) (by decide)).trimSpace
    have pieces : ('"' :: (body ++ ['"'])).splitOn ',' = lib.quote val :: vals.map fun s => ' ' :: lib.quote s := by
      rw [← form, map_cons, splitOn_comma, map_map]
      · rfl
      · intro s member
        obtain ⟨t, listed, rfl⟩ := mem_map.1 (map_cons ▸ member)
        exact plain.comma_notMem_quote (words t listed)
    have read : (fun p => Gorrcd.unquote lib (lib.unicode.trimSpace p)) ∘ (fun s => ' ' :: lib.quote s) = id := by
      funext s
      simp only [Function.comp_apply, plain.trimSpace_blank, (plain.solid_quote s).trimSpace, plain.unquote_eq, id_eq]
    rw [if_neg (cons_ne_nil val vals), form, if_neg (by simp), if_pos (enclosed_between _ _ _), inner_between, inside, if_neg (cons_ne_nil _ _), pieces,
      map_cons, map_map, read, map_id, (plain.solid_quote val).trimSpace, plain.unquote_eq]
    apply filter_eq_self.2
    intro s member
    exact decide_eq_true (words s member).1

end Library.Plain

def isKey (k : Rrc.Text) : Bool :=
  k ≠ [] ∧ k.all fun r => 33 ≤ r.toNat ∧ r.toNat < 128 ∧ r.toLower = r ∧ r ≠ '='

theorem isKey_iff {k : Rrc.Text} : isKey k = true ↔
    k ≠ [] ∧ ∀ r ∈ k, 33 ≤ r.toNat ∧ r.toNat < 128 ∧ r.toLower = r ∧ r ≠ '=' := by
  simp only [isKey, Bool.decide_and, Bool.and_eq_true, decide_eq_true_eq, all_eq_true]

def settingLine (k v : Rrc.Text) : Rrc.Text := k ++ [' ', '=', ' '] ++ v

namespace Library.Plain
variable {lib : Library} (plain : lib.Plain) {k v : Rrc.Text} (key : isKey k = true)
include plain key

theorem toLower_key (t : Rrc.Text) : lib.toLower (k ++ t) = k ++ lib.toLower t := by
  have range := (isKey_iff.1 key).2
  have fixed : k.map lib.unicode.toLower = k := by
    calc k.map lib.unicode.toLower = k.map id :=
          map_congr_left fun r member => (plain.lower r (range r member).2.1).trans (range r member).2.2.1
      _ = k := map_id k
  rw [Library.toLower, map_append, fixed]
  rfl

theorem toLower_of_isKey : lib.toLower k = k := by
  have lowered := plain.toLower_key key []
  rwa [append_nil, show lib.toLower [] = [] from rfl, append_nil] at lowered

theorem solid_key : Solid lib.unicode k :=
  plain.solid (isKey_iff.1 key).1 fun r member =>
    ⟨((isKey_iff.1 key).2 r member).1, ((isKey_iff.1 key).2 r member).2.1⟩

theorem prefix_trimSpace_key (t : Rrc.Text) : k <+: lib.unicode.trimSpace (k ++ t) :=
  prefix_trimSpace (isKey_iff.1 key).1 fun r member =>
    plain.isSpace_eq_false ⟨((isKey_iff.1 key).2 r member).1, ((isKey_iff.1 key).2 r member).2.1⟩

omit plain in
theorem takeWhile_key (t : Rrc.Text) :
    (k ++ t).takeWhile (fun r => r ≠ '=') = k ++ t.takeWhile (fun r => r ≠ '=') :=
  takeWhile_append_of_pos fun r member => decide_eq_true ((isKey_iff.1 key).2 r member).2.2.2

theorem splitKV_setting (v : Rrc.Text) : splitKV lib (settingLine k v) = some (k, lib.unicode.trimSpace v) := by
  have front : (settingLine k v).takeWhile (fun r => r ≠ '=') = k ++ [' '] := by
    rw [settingLine, append_assoc, takeWhile_key key]
    rfl
  have stops : k ++ [' '] ≠ settingLine k v := by
    intro whole
    have lengths := congrArg List.length whole
    simp only [settingLine, length_append, length_cons, length_nil] at lengths
    omega
  have behind : (settingLine k v).drop ((k ++ [' ']).length + 1) = ' ' :: v := by
    have cut : settingLine k v = (k ++ [' ', '=']) ++ ' ' :: v := by
      simp only [settingLine, append_assoc, cons_append, nil_append]
    rw [cut]
    apply drop_left'
    rw [length_append, length_append]
    rfl
  have trimmed : lib.unicode.trimSpace (k ++ [' ']) = k := by
    have space : lib.unicode.isSpace ' ' = true := (plain.space ' ' (by decide)).2 (Or.inl rfl)
    rw [trimSpace_concat_space k space, (plain.solid_key key).trimSpace]
  unfold splitKV
  rw [front, if_neg (not_or.2 ⟨append_ne_nil_of_right_ne_nil k (cons_ne_nil _ _), stops⟩), behind, trimmed,
    plain.toLower_of_isKey key, plain.trimSpace_blank]

theorem solid_setting (value : Solid lib.unicode v) : Solid lib.unicode (settingLine k v) :=
  (plain.solid_key key).append _ value

end Library.Plain

end ReticulumProtocols.Gorrcd
