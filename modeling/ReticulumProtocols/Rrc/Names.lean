import ReticulumProtocols.Rrc.Sessions

/-! Names of rooms and nicknames without the blanks around them and in lower case. -/

namespace ReticulumProtocols.Rrc
open List

namespace Unicode
variable (u : Unicode)

theorem dropWhile_eq_self_iff_head {t : Text} :
    t.dropWhile u.isSpace = t ↔ ∀ r ∈ t.head?, u.isSpace r = false := by
  cases t with
  | nil => simp
  | cons first rest => simp [dropWhile_eq_self_iff]

theorem dropWhile_of_prefix {s t : Text} (fixed : t.dropWhile u.isSpace = t) (part : s <+: t) :
    s.dropWhile u.isSpace = s := by
  cases s with
  | nil => rfl
  | cons first rest =>
    obtain ⟨more, rfl⟩ := part
    rw [dropWhile_eq_self_iff_head] at fixed ⊢
    exact fixed

theorem trimSpace_trimSpace (s : Text) : u.trimSpace (u.trimSpace s) = u.trimSpace s := by
  have front : (u.trimSpace s).dropWhile u.isSpace = u.trimSpace s := by
    apply u.dropWhile_of_prefix (t := s.dropWhile u.isSpace)
    · exact dropWhile_idempotent _ _
    · have back := dropWhile_suffix u.isSpace (l := (s.dropWhile u.isSpace).reverse)
      rw [← reverse_prefix, reverse_reverse] at back
      exact back
  rw [trimSpace, front]
  unfold trimSpace
  rw [reverse_reverse, dropWhile_idempotent]

theorem fold_trimSpace (s : Text) : u.fold (u.trimSpace s) = u.fold s := by
  unfold fold
  rw [trimSpace_trimSpace]

/-- Lower case is stable and no lower case letter is a space. -/
structure Lawful : Prop where
  stable : ∀ r, u.toLower (u.toLower r) = u.toLower r
  space : ∀ r, u.isSpace (u.toLower r) = u.isSpace r

variable {u}

theorem Lawful.trimSpace_map (lawful : u.Lawful) (s : Text) :
    u.trimSpace (s.map u.toLower) = (u.trimSpace s).map u.toLower := by
  have drop : ∀ t : Text, (t.map u.toLower).dropWhile u.isSpace = (t.dropWhile u.isSpace).map u.toLower := by
    intro t
    have same : u.isSpace ∘ u.toLower = u.isSpace := funext lawful.space
    rw [dropWhile_map, same]
  unfold trimSpace
  rw [drop, ← map_reverse, drop, map_reverse]

theorem Lawful.normalizeRoom (lawful : u.Lawful) (name : Text) :
    u.normalizeRoom (u.normalizeRoom name) = u.normalizeRoom name := by
  have stable : u.toLower ∘ u.toLower = u.toLower := funext lawful.stable
  unfold Unicode.normalizeRoom fold
  rw [lawful.trimSpace_map, trimSpace_trimSpace, map_map, stable]

end Unicode

theorem asciiHub_lawful : asciiHub.unicode.Lawful := by
  constructor
  case stable =>
    intro r
    change r.toLower.toLower = r.toLower
    unfold Char.toLower
    grind
  case space =>
    intro r
    change decide (r.toLower = ' ') = decide (r = ' ')
    apply decide_eq_decide.2
    unfold Char.toLower
    split
    next upper =>
      have solid : r ≠ ' ' := by
        rintro rfl
        exact absurd upper (by decide)
      refine iff_of_false (fun same => ?_) solid
      have low : r.val + 32 = 32 := congrArg Char.val same
      grind
    next => rfl

/-! ### Nicknames -/

namespace Unicode
variable (u : Unicode)

/-- Neither the first nor the last character is white space. -/
def Trimmed (t : Text) : Prop := (∀ r ∈ t.head?, u.isSpace r = false) ∧ ∀ r ∈ t.getLast?, u.isSpace r = false

theorem trimSpace_eq_self_iff {t : Text} : u.trimSpace t = t ↔ u.Trimmed t := by
  rw [Trimmed, ← head?_reverse, ← dropWhile_eq_self_iff_head, ← dropWhile_eq_self_iff_head]
  constructor
  · intro same
    have whole : t.dropWhile u.isSpace = t := by
      have back := (dropWhile_suffix u.isSpace (l := (t.dropWhile u.isSpace).reverse)).length_le
      rw [← length_reverse, ← trimSpace, same, length_reverse] at back
      exact (dropWhile_suffix _).eq_of_length_le back
    rw [trimSpace, whole, reverse_eq_iff] at same
    exact ⟨whole, same⟩
  · intro ⟨front, back⟩
    rw [trimSpace, front, back, reverse_reverse]

theorem sanitizeNick_eq (nick : Text) : u.sanitizeNick nick = (u.trimSpace nick).filter fun r => !u.unfit r := by
  unfold sanitizeNick stripNickControls
  simp only
  split_ifs with blank found
  · rw [blank, filter_nil]
  · rfl
  · exact (filter_eq_self.2 (by simpa using found)).symm

/-- The first and the last of the characters that are kept are no white space. -/
def SoundEnds (t : Text) : Prop :=
  (∀ r ∈ t.find? fun r => !u.unfit r, u.isSpace r = false) ∧
    ∀ r ∈ t.reverse.find? fun r => !u.unfit r, u.isSpace r = false

theorem trimmed_sanitizeNick (nick : Text) : u.Trimmed (u.sanitizeNick nick) ↔ u.SoundEnds (u.trimSpace nick) := by
  rw [sanitizeNick_eq, Trimmed, SoundEnds, head?_filter, ← head?_reverse, ← filter_reverse, head?_filter]

end Unicode

/-- A Go string as ranging over it meets it: characters, and bytes that begin none and count as U+FFFD. -/
abbrev GoString := List (Char ⊕ UInt8)

namespace GoString
variable (u : Unicode)

def rune : Char ⊕ UInt8 → Char := Sum.elim id fun _ => Char.ofNat 0xfffd

def runes (s : GoString) : Text := s.map rune

def trimSpace (s : GoString) : GoString :=
  ((s.dropWhile (u.isSpace ∘ rune)).reverse.dropWhile (u.isSpace ∘ rune)).reverse

/-- `WriteRune` writes U+FFFD where a byte begins no character. -/
def stripNickControls (nick : GoString) : GoString :=
  (nick.filter fun r => !u.unfit (rune r)).map fun r => .inl (rune r)

def sanitizeNick (nick : GoString) : GoString :=
  let nick := trimSpace u nick
  if nick = [] then [] else if nick.any fun r => u.unfit (rune r) then stripNickControls u nick else nick

theorem runes_trimSpace (s : GoString) : (s.trimSpace u).runes = u.trimSpace s.runes := by
  unfold runes trimSpace Unicode.trimSpace
  rw [map_reverse, ← dropWhile_map, map_reverse, ← dropWhile_map]

theorem trimSpace_sublist (s : GoString) : (s.trimSpace u).Sublist s := by
  have back := (dropWhile_sublist (l := (s.dropWhile (u.isSpace ∘ rune)).reverse) (u.isSpace ∘ rune)).reverse
  rw [reverse_reverse] at back
  exact back.trans (dropWhile_sublist _)

/-- On its characters the function is the one of the hub. -/
theorem runes_sanitizeNick (s : GoString) : (s.sanitizeNick u).runes = u.sanitizeNick s.runes := by
  have found (t : GoString) : (t.any fun r => u.unfit (rune r)) = t.runes.any u.unfit := by
    rw [runes, any_map]
    rfl
  have stripped (t : GoString) : (t.stripNickControls u).runes = u.stripNickControls t.runes := by
    unfold runes stripNickControls Unicode.stripNickControls
    rw [map_map, filter_map]
    rfl
  have blank : s.trimSpace u = [] ↔ u.trimSpace s.runes = [] := by rw [← runes_trimSpace, runes, map_eq_nil_iff]
  unfold sanitizeNick Unicode.sanitizeNick
  simp only [blank, found, runes_trimSpace]
  split_ifs
  · rfl
  · rw [stripped, runes_trimSpace]
  · exact runes_trimSpace u s

theorem sanitizeNick_of_fit {s : GoString} (fit : ∀ r ∈ s, u.unfit (rune r) = false) :
    s.sanitizeNick u = s.trimSpace u := by
  have none : ¬(s.trimSpace u).any fun r => u.unfit (rune r) := by
    simpa using fun r member => fit r ((trimSpace_sublist u s).subset member)
  unfold sanitizeNick
  simp only [if_neg none]
  split_ifs with blank
  · exact blank.symm
  · rfl

end GoString

/-- Sanitising is a normal form iff leaving out the controls does not bring white space to an end of the nickname. -/
theorem sanitizeNick_normal_iff (u : Unicode) (s : GoString) :
    ((s.sanitizeNick u).sanitizeNick u = s.sanitizeNick u ∧
      (∀ r ∈ (s.sanitizeNick u).runes, u.isControl r = false) ∧ u.Trimmed (s.sanitizeNick u).runes) ↔
      u.SoundEnds (u.trimSpace s.runes) := by
  have fit : ∀ r ∈ (s.sanitizeNick u).runes, u.unfit r = false := by
    rw [GoString.runes_sanitizeNick, u.sanitizeNick_eq]
    simp
  have clean : ∀ r ∈ (s.sanitizeNick u).runes, u.isControl r = false := by
    intro r member
    have none := fit r member
    simp only [Unicode.unfit, decide_eq_false_iff_not, not_or, Bool.not_eq_true] at none
    exact none.2.2.2
  rw [GoString.sanitizeNick_of_fit u fun r member => fit _ (mem_map_of_mem member), and_iff_right clean,
    ← u.trimmed_sanitizeNick, ← GoString.runes_sanitizeNick]
  apply and_iff_right_of_imp
  intro trimmed
  apply (GoString.trimSpace_sublist u _).eq_of_length
  have same := congrArg length ((GoString.runes_trimSpace u _).trans (u.trimSpace_eq_self_iff.2 trimmed))
  rwa [GoString.runes, GoString.runes, length_map, length_map] at same

/-- A NUL before a blank keeps the blank from being trimmed and is then left out itself. -/
theorem sanitizeNick_nul_blank :
    let s : GoString := [.inl (Char.ofNat 0), .inl ' ', .inl 'a']
    s.sanitizeNick asciiHub.unicode = [.inl ' ', .inl 'a'] ∧
      (s.sanitizeNick asciiHub.unicode).sanitizeNick asciiHub.unicode = [.inl 'a'] := by
  decide

end ReticulumProtocols.Rrc
