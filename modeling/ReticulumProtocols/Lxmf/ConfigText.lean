import ReticulumProtocols.Lxmf.Announce
import ReticulumProtocols.Wire.Lists

/-! Sectioned texts of keys and values: lines are cut at a comment, trimmed and then are a section, a setting or nothing.
A value that was read once is read again from a line that is written for it. -/

namespace ReticulumProtocols.Lxmf
open Wire List
variable {s : Bytes} {c : UInt8}

/-! What is left when white space is trimmed. -/

/-- None of the spaces stands in front. -/
def Free (spaces : List Bytes) (s : Bytes) : Prop := ∀ space ∈ spaces, space.isPrefixOf s = false

structure Stripped (s : Bytes) : Prop where
  front : Free whiteSpace s
  back : Free (whiteSpace.map List.reverse) s.reverse

section
variable {spaces : List Bytes}

theorem trimStart_of_free {s : Bytes} (free : Free spaces s) (fuel : Nat) : trimStart spaces fuel s = s := by
  cases fuel with
  | zero => rfl
  | succ fuel =>
    have none : spaces.find? (fun space => space.isPrefixOf s) = none :=
      List.find?_eq_none.2 fun space member found => Bool.false_ne_true ((free space member).symm.trans found)
    rw [trimStart, none]

theorem trimStart_spec (wide : ∀ space ∈ spaces, space ≠ []) (fuel : Nat) (s : Bytes) (enough : s.length ≤ fuel) :
    Free spaces (trimStart spaces fuel s) ∧ trimStart spaces fuel s <:+ s := by
  induction fuel generalizing s with
  | zero =>
    rw [length_eq_zero_iff.1 (Nat.le_zero.1 enough)]
    refine ⟨fun space member => ?_, suffix_refl _⟩
    cases space with
    | nil => exact absurd rfl (wide [] member)
    | cons => rfl
  | succ fuel ih =>
    rw [trimStart]
    cases found : spaces.find? fun space => space.isPrefixOf s with
    | none =>
      refine ⟨fun space member => ?_, suffix_refl s⟩
      exact Bool.eq_false_iff.2 (List.find?_eq_none.1 found space member)
    | some space =>
      have some := length_pos_of_ne_nil (wide space (List.mem_of_find?_eq_some found))
      obtain ⟨free, part⟩ := ih (s.drop space.length) (by rw [length_drop]; omega)
      exact ⟨free, part.trans (drop_suffix _ _)⟩

theorem Free.of_prefix {s t : Bytes} (free : Free spaces t) (part : s <+: t) : Free spaces s := by
  intro space member
  rw [← Bool.not_eq_true, isPrefixOf_iff_prefix]
  intro found
  have longer := free space member
  rw [← Bool.not_eq_true, isPrefixOf_iff_prefix] at longer
  exact longer (found.trans part)

theorem free_cons {c : UInt8} (other : ∀ space ∈ spaces, space ≠ [] ∧ space.head? ≠ some c) (s : Bytes) :
    Free spaces (c :: s) := by
  intro space member
  obtain ⟨some, apart⟩ := other space member
  obtain ⟨d, space, rfl⟩ := exists_cons_of_ne_nil some
  have unequal : (d == c) = false := beq_false_of_ne fun same => apart (congrArg _ same)
  rw [List.isPrefixOf, unequal, Bool.false_and]

/-- Behind a trimmed text a blank begins no longer space. -/
theorem Free.append {s : Bytes} (free : Free spaces s) (some : s ≠ []) {c : UInt8}
    (short : ∀ space ∈ spaces, c ∈ space → space.length ≤ 1) (t : Bytes) : Free spaces (s ++ c :: t) := by
  intro space member
  rw [← Bool.not_eq_true, isPrefixOf_iff_prefix]
  intro found
  have inner := free space member
  rw [← Bool.not_eq_true, isPrefixOf_iff_prefix] at inner
  by_cases fits : space.length ≤ s.length
  · exact inner (prefix_of_prefix_length_le found (prefix_append s _) fits)
  · have longer : s ++ [c] <+: space := by
      refine prefix_of_prefix_length_le ?_ found (by simp; omega)
      exact ⟨t, by simp⟩
    have one := short space member (longer.subset (by simp))
    have := length_pos_of_ne_nil some
    omega

end

theorem whiteSpace_ne_nil : ∀ space ∈ whiteSpace, space ≠ [] := by decide

theorem reverse_ne_nil : ∀ space ∈ whiteSpace.map List.reverse, space ≠ [] := by decide

theorem trimSpace_of_stripped (trimmed : Stripped s) : trimSpace s = s := by
  unfold trimSpace
  dsimp only
  rw [trimStart_of_free trimmed.front, trimStart_of_free trimmed.back, reverse_reverse]

theorem trimSpace_spec (s : Bytes) : Stripped (trimSpace s) ∧ trimSpace s <:+: s := by
  unfold trimSpace
  dsimp only
  obtain ⟨front, part⟩ := trimStart_spec whiteSpace_ne_nil s.length s le_rfl
  generalize trimStart whiteSpace s.length s = t at front part ⊢
  obtain ⟨back, part'⟩ := trimStart_spec reverse_ne_nil t.length t.reverse (length_reverse ..).le
  have inner : (trimStart (whiteSpace.map List.reverse) t.length t.reverse).reverse <+: t := by
    rw [← reverse_suffix, reverse_reverse]
    exact part'
  refine ⟨⟨front.of_prefix inner, ?_⟩, inner.isInfix.trans part.isInfix⟩
  rw [reverse_reverse]
  exact back

theorem trimSpace_blank_cons (trimmed : Stripped s) : trimSpace (0x20 :: s) = s := by
  have first : trimStart whiteSpace (0x20 :: s).length (0x20 :: s) = s := by
    have found : whiteSpace.find? (fun space => space.isPrefixOf (0x20 :: s)) = some [0x20] := by
      simp [whiteSpace, List.isPrefixOf, range, range.loop]
    rw [length_cons, trimStart, found]
    exact trimStart_of_free trimmed.front _
  unfold trimSpace
  dsimp only
  rw [first, trimStart_of_free trimmed.back, reverse_reverse]

theorem trimSpace_append_blank (trimmed : Stripped s) (nonempty : s ≠ []) : trimSpace (s ++ [0x20]) = s := by
  have front : Free whiteSpace (s ++ [0x20]) := trimmed.front.append nonempty (by decide) []
  have last : ∀ t : Bytes, Free (whiteSpace.map List.reverse) t →
      trimStart (whiteSpace.map List.reverse) (t.length + 1) (0x20 :: t) = t := by
    intro t free
    have found : (whiteSpace.map List.reverse).find? (fun space => space.isPrefixOf (0x20 :: t)) = some [0x20] := by
      simp [whiteSpace, List.isPrefixOf, range, range.loop]
    rw [trimStart, found]
    exact trimStart_of_free free _
  unfold trimSpace
  dsimp only
  rw [trimStart_of_free front, reverse_append, length_append, ← length_reverse]
  exact (congrArg List.reverse (last s.reverse trimmed.back)).trans (reverse_reverse s)

/-- The visible characters of ASCII. -/
def Graphic (c : UInt8) : Prop := 0x21 ≤ c.toNat ∧ c.toNat ≤ 0x7e

instance (c : UInt8) : Decidable (Graphic c) := inferInstanceAs (Decidable (_ ∧ _))

theorem free_graphic (graphic : Graphic c) (s : Bytes) :
    Free whiteSpace (c :: s) ∧ Free (whiteSpace.map List.reverse) (c :: s) := by
  have each : ∀ c, Graphic c → ∀ space ∈ whiteSpace ++ whiteSpace.map List.reverse,
      space ≠ [] ∧ space.head? ≠ some c := forall_byte (by decide +kernel)
  exact ⟨free_cons (fun space member => each c graphic space (mem_append_left _ member)) s,
    free_cons (fun space member => each c graphic space (mem_append_right _ member)) s⟩

theorem stripped_of_ends (first : ∀ c ∈ s.head?, Graphic c) (last : ∀ c ∈ s.getLast?, Graphic c) :
    Stripped s := by
  cases s using List.reverseRecOn with
  | nil => exact (trimSpace_spec []).1
  | append_singleton s c =>
    have ending := last c (by simp)
    constructor
    · cases s with
      | nil => exact (free_graphic ending []).1
      | cons d s => exact (free_graphic (first d rfl) (s ++ [c])).1
    · rw [reverse_append]
      exact (free_graphic ending s.reverse).2

/-! Sections and settings. -/

inductive ConfigError where
  | emptySection (line : Nat)
  | malformed (line : Nat) (text : Bytes)
  | outsideSection (key : Bytes) (line : Nat)
  | emptyKey (line : Nat)
  | tooLong
  deriving DecidableEq

/-- `strings.Cut`. -/
def cut (c : UInt8) (s : Bytes) : Option (Bytes × Bytes) :=
  if c ∈ s then some (s.takeWhile (· ≠ c), (s.dropWhile (· ≠ c)).tail) else none

/-- A section and a key, with the value that is set. -/
abbrev Assignment := (Bytes × Bytes) × Bytes

/-- The body of the loop of `readSectionedKV`: the section that follows, and the setting on the line. -/
def readConfigLine (number : Nat) (current line : Bytes) : Except ConfigError (Bytes × Option Assignment) :=
  let line := trimSpace (line.takeWhile (· ≠ 0x23))
  if line = [] then .ok (current, none)
  else if line.head? = some 0x5b ∧ line.getLast? = some 0x5d then
    let current := trimSpace line.tail.dropLast
    if current = [] then .error (.emptySection number) else .ok (current, none)
  else
    match cut 0x3d line with
    | none => .error (.malformed number line)
    | some (before, after) =>
      if current = [] then .error (.outsideSection (trimSpace before) number)
      else if trimSpace before = [] then .error (.emptyKey number)
      else .ok (current, some ((current, trimSpace before), trimSpace after))

def maxConfigLine : Nat := 1048576

/-- The lines of a text; the scanner drops a carriage return at the end of a line. -/
def configLines (text : Bytes) : List Bytes :=
  let lines := text.splitOn 0x0a
  if lines.getLast? = some [] then lines.dropLast else lines

def dropReturn (line : Bytes) : Bytes := if line.getLast? = some 0x0d then line.dropLast else line

def readConfigLines : Nat → Bytes → List Bytes → Except ConfigError (List Assignment)
  | _, _, [] => .ok []
  | number, current, line :: lines => do
    if maxConfigLine ≤ line.length then .error .tooLong
    let (current, assignment) ← readConfigLine number current (dropReturn line)
    let others ← readConfigLines (number + 1) current lines
    return assignment.toList ++ others

/-- `readSectionedKV`: the assignments to its maps. -/
def readSectionedKV (text : Bytes) : Except ConfigError (List Assignment) := readConfigLines 1 [] (configLines text)

/-- What a key of a section holds in the end. -/
def configValue (assignments : List Assignment) (place : Bytes × Bytes) : Option Bytes :=
  assignments.reverse.lookup place

/-- A text that can be the value of a setting. -/
structure Clean (value : Bytes) : Prop extends Stripped value where
  comment : 0x23 ∉ value
  newline : 0x0a ∉ value

theorem clean_trimSpace (comment : 0x23 ∉ s) (newline : 0x0a ∉ s) : Clean (trimSpace s) := by
  obtain ⟨trimmed, part⟩ := trimSpace_spec s
  exact { trimmed with comment := fun found => comment (part.subset found), newline := fun found => newline (part.subset found) }

theorem notMem_takeWhile (c : UInt8) (s : Bytes) : c ∉ s.takeWhile (· ≠ c) := by
  intro member
  have := mem_takeWhile_imp member
  simp at this

theorem clean_readConfigLine {number : Nat} {current line current' : Bytes} {assignment : Assignment}
    (newline : 0x0a ∉ line) (read : readConfigLine number current line = .ok (current', some assignment)) :
    Clean assignment.2 := by
  have part := (trimSpace_spec (line.takeWhile (· ≠ 0x23))).2
  unfold readConfigLine at read
  dsimp only at read
  generalize trimSpace (line.takeWhile (· ≠ 0x23)) = content at part read
  split at read
  · cases read
  split at read
  · split at read <;> cases read
  split at read
  · cases read
  next before after found =>
    split at read
    · cases read
    split at read
    · cases read
    cases read
    rw [cut] at found
    split at found
    · cases found
      have inside : ∀ c, c ∈ (content.dropWhile (· ≠ 0x3d)).tail → c ∈ line.takeWhile (· ≠ 0x23) := fun c member =>
        part.subset ((dropWhile_suffix _).subset (mem_of_mem_tail member))
      exact clean_trimSpace (fun member => notMem_takeWhile _ _ (inside _ member)) fun member =>
        newline (( takeWhile_prefix _).subset (inside _ member))
    · contradiction

theorem readConfigLines_cons {number : Nat} {current line : Bytes} {lines : List Bytes}
    (short : line.length < maxConfigLine) {current' : Bytes} {assignment : Option Assignment}
    (read : readConfigLine number current (dropReturn line) = .ok (current', assignment)) :
    readConfigLines number current (line :: lines) =
      (readConfigLines (number + 1) current' lines).map (assignment.toList ++ ·) := by
  simp only [readConfigLines, if_neg (not_le.2 short), read, bind, Except.bind]
  cases readConfigLines (number + 1) current' lines <;> rfl

theorem clean_readConfigLines {number : Nat} {current : Bytes} {lines : List Bytes} {assignments : List Assignment}
    (whole : ∀ line ∈ lines, 0x0a ∉ line) (read : readConfigLines number current lines = .ok assignments) :
    ∀ assignment ∈ assignments, Clean assignment.2 := by
  induction lines generalizing number current assignments with
  | nil =>
    cases read
    exact fun _ => nofun
  | cons line lines ih =>
    have later := fun other member => whole other (mem_cons_of_mem line member)
    have here : 0x0a ∉ dropReturn line := by
      unfold dropReturn
      split
      · exact fun member => whole line mem_cons_self (mem_of_mem_dropLast member)
      · exact whole line mem_cons_self
    by_cases short : line.length < maxConfigLine
    · cases first : readConfigLine number current (dropReturn line) with
      | error error =>
        simp only [readConfigLines, if_neg (not_le.2 short), first] at read
        cases read
      | ok result =>
        rw [readConfigLines_cons short first] at read
        cases rest : readConfigLines (number + 1) result.1 lines with
        | error error =>
          rw [rest] at read
          cases read
        | ok others =>
          rw [rest] at read
          cases read
          intro assignment member
          rcases List.mem_append.1 member with member | member
          · rw [Option.mem_toList] at member
            obtain ⟨current', found⟩ := result
            cases member
            exact clean_readConfigLine here first
          · exact ih later rest assignment member
    · simp only [readConfigLines, if_pos (not_lt.1 short)] at read
      cases read

theorem clean_of_configValue {text : Bytes} {assignments : List Assignment} (read : readSectionedKV text = .ok assignments)
    {place : Bytes × Bytes} {value : Bytes} (found : configValue assignments place = some value) : Clean value := by
  have whole : ∀ line ∈ configLines text, 0x0a ∉ line := by
    intro line member
    unfold configLines at member
    dsimp only at member
    split at member
    · exact (of_mem_splitOn (mem_of_mem_dropLast member)).1
    · exact (of_mem_splitOn member).1
  obtain ⟨before, after, form, -⟩ := lookup_eq_some_iff.1 found
  have member : (place, value) ∈ assignments.reverse := form ▸ mem_append_right _ mem_cons_self
  exact clean_readConfigLines whole read _ (mem_reverse.1 member)

/-! Lines that are written. -/

/-- The names of sections and keys: small letters and underscores. -/
def ConfigName (name : Bytes) : Prop := name ≠ [] ∧ name.all fun c => (0x61 ≤ c.toNat ∧ c.toNat ≤ 0x7a) ∨ c = 0x5f

def sectionLine (name : Bytes) : Bytes := 0x5b :: (name ++ [0x5d])

def settingLine (key value : Bytes) : Bytes := key ++ 0x20 :: 0x3d :: 0x20 :: value

theorem ConfigName.graphic {name : Bytes} (word : ConfigName name) (member : c ∈ name) :
    Graphic c ∧ c ≠ 0x5b ∧ c ≠ 0x3d ∧ c ≠ 0x23 ∧ c ≠ 0x0a := by
  have each : ∀ c : UInt8, (0x61 ≤ c.toNat ∧ c.toNat ≤ 0x7a) ∨ c = 0x5f →
      Graphic c ∧ c ≠ 0x5b ∧ c ≠ 0x3d ∧ c ≠ 0x23 ∧ c ≠ 0x0a := forall_byte (by decide +kernel)
  exact each c (of_decide_eq_true (all_eq_true.1 word.2 c member))

theorem ConfigName.trimmed {name : Bytes} (word : ConfigName name) : Stripped name :=
  stripped_of_ends (fun _ first => (word.graphic (mem_of_head? first)).1)
    fun _ last => (word.graphic (mem_of_getLast? last)).1

theorem takeWhile_of_notMem (absent : c ∉ s) : s.takeWhile (· ≠ c) = s :=
  takeWhile_eq_self_iff.2 fun _ member => decide_eq_true fun same => absent (same ▸ member)

theorem cut_append (absent : c ∉ s) (t : Bytes) : cut c (s ++ c :: t) = some (s, t) := by
  have each : ∀ d ∈ s, decide (d ≠ c) = true := fun d member => decide_eq_true fun same => absent (same ▸ member)
  rw [cut, if_pos (mem_append_right s mem_cons_self), takeWhile_append_of_pos each,
    dropWhile_append_of_pos each, takeWhile_cons_of_neg (by simp), dropWhile_cons_of_neg (by simp),
    append_nil, tail_cons]

theorem dropReturn_of_stripped (trimmed : Stripped s) : dropReturn s = s := by
  rw [dropReturn, if_neg]
  intro last
  obtain ⟨s, rfl⟩ := List.getLast?_eq_some_iff.1 last
  have free := trimmed.back [0x0d] (by decide)
  rw [reverse_append] at free
  simp [List.isPrefixOf] at free

section
variable {number : Nat} {current name key value : Bytes}

theorem readConfigLine_section (word : ConfigName name) :
    readConfigLine number current (dropReturn (sectionLine name)) = .ok (name, none) := by
  have graphic : Graphic 0x5b ∧ Graphic 0x5d := by decide
  have trimmed : Stripped (sectionLine name) := by
    apply stripped_of_ends
    · rintro _ ⟨⟩
      exact graphic.1
    · intro c last
      rw [sectionLine, ← cons_append, List.getLast?_concat] at last
      cases last
      exact graphic.2
  have absent : 0x23 ∉ sectionLine name := by
    simp only [sectionLine, mem_cons, mem_append, not_mem_nil, or_false, not_or]
    exact ⟨by decide, fun member => (word.graphic member).2.2.2.1 rfl, by decide⟩
  have inner : (sectionLine name).tail.dropLast = name := dropLast_concat
  have ends : (sectionLine name).head? = some 0x5b ∧ (sectionLine name).getLast? = some 0x5d :=
    ⟨rfl, by rw [sectionLine, ← cons_append, List.getLast?_concat]⟩
  have some : sectionLine name ≠ [] := cons_ne_nil _ _
  rw [dropReturn_of_stripped trimmed, readConfigLine, takeWhile_of_notMem absent, trimSpace_of_stripped trimmed]
  dsimp only
  rw [if_neg some, if_pos ends, inner, trimSpace_of_stripped word.trimmed, if_neg word.1]

theorem trimSpace_settingLine (word : ConfigName key) (trimmed : Stripped value) :
    ∃ tail, trimSpace (dropReturn (settingLine key value)) = (key ++ [0x20]) ++ 0x3d :: tail ∧ trimSpace tail = value := by
  obtain ⟨first, others, form⟩ := exists_cons_of_ne_nil word.1
  have head : ∀ tail, ∀ c ∈ (key ++ [0x20] ++ 0x3d :: tail).head?, Graphic c := by
    intro tail c found
    rw [form] at found
    cases found
    exact (word.graphic (form ▸ mem_cons_self)).1
  by_cases empty : value = []
  · have short : Stripped (key ++ [0x20] ++ [0x3d]) := by
      refine stripped_of_ends (head []) fun c last => ?_
      rw [List.getLast?_concat] at last
      cases last
      decide
    have line : settingLine key value = (key ++ [0x20] ++ [0x3d]) ++ [0x20] := by simp [settingLine, empty]
    have kept : dropReturn (settingLine key value) = settingLine key value := by
      rw [line, dropReturn, List.getLast?_concat, if_neg (by decide)]
    refine ⟨[], ?_, by rw [empty]; rfl⟩
    rw [kept, line, trimSpace_append_blank short (append_ne_nil_of_right_ne_nil _ (cons_ne_nil _ _))]
  · have whole : Stripped (settingLine key value) := by
      constructor
      · rw [settingLine, form]
        exact (free_graphic (word.graphic (form ▸ mem_cons_self)).1 _).1
      · have back : (settingLine key value).reverse = value.reverse ++ 0x20 :: (key ++ [0x20, 0x3d]).reverse := by
          simp [settingLine]
        rw [back]
        exact trimmed.back.append (mt reverse_eq_nil_iff.1 empty) (by decide) _
    refine ⟨0x20 :: value, ?_, trimSpace_blank_cons trimmed⟩
    rw [dropReturn_of_stripped whole, trimSpace_of_stripped whole]
    simp [settingLine]

theorem readConfigLine_setting (named : current ≠ []) (word : ConfigName key) (clean : Clean value) :
    readConfigLine number current (dropReturn (settingLine key value)) = .ok (current, some ((current, key), value)) := by
  have absent : 0x23 ∉ dropReturn (settingLine key value) := by
    have line : 0x23 ∉ settingLine key value := by
      simp only [settingLine, mem_append, mem_cons, not_or]
      exact ⟨fun member => (word.graphic member).2.2.2.1 rfl, by decide, by decide, by decide, clean.comment⟩
    unfold dropReturn
    split
    · exact fun member => line (mem_of_mem_dropLast member)
    · exact line
  obtain ⟨tail, trimmed, back⟩ := trimSpace_settingLine word clean.toStripped
  have nonempty : (key ++ [0x20]) ++ 0x3d :: tail ≠ [] := append_ne_nil_of_right_ne_nil _ (cons_ne_nil _ _)
  have head : ¬(((key ++ [0x20]) ++ 0x3d :: tail).head? = some 0x5b ∧
      ((key ++ [0x20]) ++ 0x3d :: tail).getLast? = some 0x5d) := by
    obtain ⟨first, others, rfl⟩ := exists_cons_of_ne_nil word.1
    rintro ⟨bracket, -⟩
    exact (word.graphic mem_cons_self).2.1 (Option.some.inj bracket)
  have equals : 0x3d ∉ key ++ [0x20] := by
    simp only [mem_append, mem_singleton, not_or]
    exact ⟨fun member => (word.graphic member).2.2.1 rfl, by decide⟩
  rw [readConfigLine, takeWhile_of_notMem absent, trimmed]
  dsimp only
  rw [if_neg nonempty, if_neg head, cut_append equals]
  dsimp only
  rw [if_neg named, trimSpace_append_blank word.trimmed word.1, if_neg word.1, back]

end

end ReticulumProtocols.Lxmf
