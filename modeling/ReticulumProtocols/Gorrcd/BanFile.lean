import ReticulumProtocols.Gorrcd.Reload
import ReticulumProtocols.Gorrcd.TextLines

/-! `persistBannedIdentities` rewrites the lines of the configuration that set the list of banned identities. What it
takes for such a line is not what the reader takes for one: the reader folds the case of the key and looks at the
section. -/

namespace ReticulumProtocols.Gorrcd
open Wire Wire.Text Cbor Lxmf Rrc List

def Config.withBanned (cfg : Config) (list : List Rrc.Text) : Config := { cfg with bannedIdentities := list }

section
variable (lib : Library)

/-- The key, as the writer looks for it and the reader takes it in lower case. -/
def bannedKey : Rrc.Text := "banned_identities".toList

def bannedLine (banned : List Rrc.Text) : Rrc.Text := settingLine bannedKey (formatStringList lib banned)

/-- The lines that `persistBannedIdentities` replaces. -/
def replaces (l : Rrc.Text) : Bool := bannedKey <+: lib.unicode.trimSpace l ∧ '=' ∈ lib.unicode.trimSpace l

/-- The lines that `persistBannedIdentities` writes. -/
def persistLines (banned lines : List Rrc.Text) : List Rrc.Text :=
  lines.map (fun l => if replaces lib l then bannedLine lib banned else l) ++
    if lines.any (replaces lib) then [] else [bannedLine lib banned]

/-- `failure` is the error of the write to the disk. -/
def persistBannedIdentities (failure : Option String) (files : Files) (path : Rrc.Text) (banned : List Rrc.Text) :
    Except String Files :=
  match files path with
  | .error (.notExist message) | .error (.other message) => .error message
  | .ok text =>
    let (lines, error) := scan text
    match error with
    | some message => .error message
    | none =>
      match failure with
      | some message => .error message
      | none => .ok (Function.update files path (.ok (joinLines (persistLines lib banned lines))))

def nextSection (current line : Rrc.Text) : Rrc.Text :=
  let line := lib.unicode.trimSpace line
  if line = [] ∨ line.head? = some '#' then current
  else if enclosed '[' ']' line then lib.toLower (lib.unicode.trimSpace (inner line)) else current

/-- The hub's settings stand in this section. -/
def isHubSection (current : Rrc.Text) : Bool := current = "hub".toList ∨ current = []

/-- The lines that stand where the hub's settings do. -/
def hubLines (current : Rrc.Text) : List Rrc.Text → List Rrc.Text
  | [] => []
  | line :: rest => (if isHubSection current then [line] else []) ++ hubLines (nextSection lib current line) rest

/-- The list that a line of the hub's settings sets. -/
def setsBanned (line : Rrc.Text) : Option (List Rrc.Text) :=
  let line := lib.unicode.trimSpace line
  if line = [] ∨ line.head? = some '#' ∨ enclosed '[' ']' line then none
  else
    match splitKV lib line with
    | some (k, v) => if k = bannedKey then some (parseStringList lib v) else none
    | none => none

/-- The writer replaces the line or the reader takes it for the list. -/
def concernsBanned (line : Rrc.Text) : Bool := replaces lib line || (setsBanned lib line).isSome

/-- The last line that concerns the list is one that the writer replaces. -/
def lastReplaced (lines : List Rrc.Text) : Bool := (lines.filter (concernsBanned lib)).getLast?.any (replaces lib)

/-- The list that the hub's lines leave. -/
def bannedBy (lines : List Rrc.Text) (list : List Rrc.Text) : List Rrc.Text :=
  lines.foldl (fun list line => (setsBanned lib line).getD list) list

/-- The list that they leave after a rewrite. -/
def bannedByRewritten (banned lines list : List Rrc.Text) : List Rrc.Text :=
  lines.foldl (fun list line => if replaces lib line then banned else (setsBanned lib line).getD list) list

end

section
variable {lib : Library}

theorem isHubSection_iff {current : Rrc.Text} : isHubSection current = true ↔ str current = "hub" ∨ str current = "" := by
  rw [isHubSection, decide_eq_true_iff, str_eq_iff, str_eq_iff]
  rfl

theorem applyHubKey_banned (cfg : Config) (list : List Rrc.Text) (k v : Rrc.Text) :
    applyHubKey lib (cfg.withBanned list) k v =
      (applyHubKey lib cfg k v).withBanned (if k = bannedKey then parseStringList lib v else list) := by
  have key : k = bannedKey ↔ str k = "banned_identities" := str_eq_iff.symm
  simp only [key]
  unfold applyHubKey Config.withBanned
  split <;> simp_all

theorem applyLogKey_banned (cfg : Config) (list : List Rrc.Text) (k v : Rrc.Text) :
    applyLogKey lib (cfg.withBanned list) k v = (applyLogKey lib cfg k v).withBanned list := by
  unfold applyLogKey
  split <;> rfl

theorem applyLine_banned (cfg : Config) (list : List Rrc.Text) (current line : Rrc.Text) :
    applyLine lib (cfg.withBanned list, current) line =
      ((applyLine lib (cfg, current) line).1.withBanned
          (if isHubSection current then (setsBanned lib line).getD list else list),
        nextSection lib current line) := by
  unfold applyLine setsBanned nextSection
  dsimp only
  by_cases blank : lib.unicode.trimSpace line = [] ∨ (lib.unicode.trimSpace line).head? = some '#'
  · have skipped : lib.unicode.trimSpace line = [] ∨ (lib.unicode.trimSpace line).head? = some '#' ∨
        enclosed '[' ']' (lib.unicode.trimSpace line) = true := by tauto
    simp only [if_pos blank, if_pos skipped, Option.getD_none, ite_self]
  by_cases header : enclosed '[' ']' (lib.unicode.trimSpace line) = true
  · simp only [if_neg blank, header, or_true, if_true, Option.getD_none, ite_self]
  have read : ¬(lib.unicode.trimSpace line = [] ∨ (lib.unicode.trimSpace line).head? = some '#' ∨
      enclosed '[' ']' (lib.unicode.trimSpace line) = true) := by tauto
  simp only [if_neg blank, if_neg header, if_neg read]
  cases splitKV lib (lib.unicode.trimSpace line) with
  | none => simp only [Option.getD_none, ite_self]
  | some pair =>
    obtain ⟨k, v⟩ := pair
    dsimp only
    by_cases hub : isHubSection current = true
    · rcases isHubSection_iff.1 hub with named | named <;>
        simp only [named, hub, if_true, applyHubKey_banned] <;> split <;> rfl
    · have apart := mt isHubSection_iff.2 hub
      rw [not_or] at apart
      rw [if_neg hub]
      split
      · exact absurd ‹_› apart.1
      · exact absurd ‹_› apart.2
      · rw [applyLogKey_banned]
      · rfl

theorem applyLine_fst (cfg : Config) (current line : Rrc.Text) :
    (applyLine lib (cfg, current) line).1.bannedIdentities =
      if isHubSection current then (setsBanned lib line).getD cfg.bannedIdentities else cfg.bannedIdentities :=
  congrArg (fun state : Config × Rrc.Text => state.1.bannedIdentities)
    (applyLine_banned cfg cfg.bannedIdentities current line)

theorem applyLine_snd (cfg : Config) (current line : Rrc.Text) :
    (applyLine lib (cfg, current) line).2 = nextSection lib current line :=
  congrArg Prod.snd (applyLine_banned cfg cfg.bannedIdentities current line)

theorem foldl_applyLine (lines : List Rrc.Text) (cfg : Config) (current : Rrc.Text) :
    (lines.foldl (applyLine lib) (cfg, current)).1.bannedIdentities =
        bannedBy lib (hubLines lib current lines) cfg.bannedIdentities ∧
      (lines.foldl (applyLine lib) (cfg, current)).2 = lines.foldl (nextSection lib) current := by
  induction lines generalizing cfg current with
  | nil => exact ⟨rfl, rfl⟩
  | cons line lines ih =>
    have rest := ih (applyLine lib (cfg, current) line).1 (nextSection lib current line)
    rw [applyLine_fst] at rest
    rw [← applyLine_snd cfg current line] at rest
    rw [foldl_cons, foldl_cons, ← applyLine_snd cfg current line, hubLines, ← applyLine_snd cfg current line]
    refine ⟨rest.1.trans ?_, rest.2⟩
    split <;> rfl

theorem isKey_bannedKey : isKey bannedKey = true := by decide +kernel

/-! A line that the writer replaces sets nothing but the list, whatever its key is. -/

section
variable (plain : lib.Plain)
variable {line : Rrc.Text} {banned : List Rrc.Text}
include plain

theorem bannedKey_prefix_key (replaced : replaces lib line = true) :
    ∃ k v, splitKV lib (lib.unicode.trimSpace line) = some (k, v) ∧ bannedKey <+: k := by
  obtain ⟨⟨more, form⟩, equals⟩ := of_decide_eq_true replaced
  have front := Library.Plain.takeWhile_key isKey_bannedKey more
  rw [form] at front
  have stops : (lib.unicode.trimSpace line).takeWhile (fun r => r ≠ '=') ≠ lib.unicode.trimSpace line := by
    intro whole
    have other := takeWhile_eq_self_iff.1 whole '=' equals
    exact of_decide_eq_true other rfl
  have some : (lib.unicode.trimSpace line).takeWhile (fun r => r ≠ '=') ≠ [] := by
    rw [front]
    exact append_ne_nil_of_left_ne_nil (by decide +kernel) _
  obtain ⟨rest, kept⟩ := plain.prefix_trimSpace_key isKey_bannedKey (more.takeWhile fun r => r ≠ '=')
  unfold splitKV
  rw [if_neg (not_or.2 ⟨some, stops⟩), front, ← kept, plain.toLower_key isKey_bannedKey]
  exact ⟨_, _, rfl, prefix_append _ _⟩

omit plain in
theorem applyHubKey_of_listed {cfg : Config} {k v : Rrc.Text} (listed : bannedKey <+: k) (list : List Rrc.Text) :
    (applyHubKey lib cfg k v).withBanned list = cfg.withBanned list := by
  have apart : ∀ s : String, ¬ bannedKey <+: s.toList → str k ≠ s := by
    intro s other same
    exact other (str_eq_iff.1 same ▸ listed)
  unfold applyHubKey
  split <;> first
    | exact absurd ‹str k = _› (apart _ (by decide +kernel))
    | rfl

omit plain in
theorem applyLogKey_of_listed {cfg : Config} {k v : Rrc.Text} (listed : bannedKey <+: k) :
    applyLogKey lib cfg k v = cfg := by
  have apart : ∀ s : String, ¬ bannedKey <+: s.toList → str k ≠ s := by
    intro s other same
    exact other (str_eq_iff.1 same ▸ listed)
  unfold applyLogKey
  split <;> first
    | exact absurd ‹str k = _› (apart _ (by decide +kernel))
    | rfl

omit plain in
theorem head_of_replaces (replaced : replaces lib line = true) :
    (lib.unicode.trimSpace line).head? = some 'b' := by
  obtain ⟨⟨more, form⟩, -⟩ := of_decide_eq_true replaced
  rw [← form]
  rfl

theorem applyLine_of_replaces (replaced : replaces lib line = true) (cfg : Config)
    (current : Rrc.Text) (list : List Rrc.Text) :
    (applyLine lib (cfg, current) line).1.withBanned list = cfg.withBanned list ∧
      nextSection lib current line = current := by
  have head := head_of_replaces replaced
  obtain ⟨k, v, split, listed⟩ := bannedKey_prefix_key plain replaced
  have setting : ¬(lib.unicode.trimSpace line = [] ∨ (lib.unicode.trimSpace line).head? = some '#') := by
    rw [head]
    rintro (empty | comment)
    · rw [empty] at head
      contradiction
    · exact absurd comment (by decide)
  have header : ¬ enclosed '[' ']' (lib.unicode.trimSpace line) = true := by
    intro between
    have first := (of_decide_eq_true between).2.1
    rw [head] at first
    exact absurd first (by decide)
  constructor
  · unfold applyLine
    simp only [if_neg setting, if_neg header, split]
    split
    · exact applyHubKey_of_listed listed list
    · exact applyHubKey_of_listed listed list
    · rw [applyLogKey_of_listed listed]
    · rfl
  · unfold nextSection
    simp only [if_neg setting, if_neg header]

/-! The line that it writes. -/

theorem trimSpace_bannedLine (banned : List Rrc.Text) :
    lib.unicode.trimSpace (bannedLine lib banned) = bannedLine lib banned :=
  (plain.solid_setting isKey_bannedKey (plain.solid_format banned)).trimSpace

theorem replaces_bannedLine (banned : List Rrc.Text) : replaces lib (bannedLine lib banned) = true := by
  apply decide_eq_true
  rw [trimSpace_bannedLine plain, bannedLine, settingLine, append_assoc]
  exact ⟨prefix_append _ _, mem_append_right _ (mem_append_left _ (by decide))⟩

theorem setsBanned_bannedLine (words : ∀ s ∈ banned, Word s) :
    setsBanned lib (bannedLine lib banned) = some banned := by
  have head := head_of_replaces (replaces_bannedLine plain banned)
  rw [trimSpace_bannedLine plain] at head
  have setting : ¬(bannedLine lib banned = [] ∨ (bannedLine lib banned).head? = some '#' ∨
      enclosed '[' ']' (bannedLine lib banned) = true) := by
    rw [head]
    rintro (empty | comment | header)
    · rw [empty] at head
      contradiction
    · exact absurd comment (by decide)
    · have first := (of_decide_eq_true header).2.1
      rw [head] at first
      exact absurd first (by decide)
  unfold setsBanned
  simp only [trimSpace_bannedLine plain, if_neg setting]
  rw [bannedLine, plain.splitKV_setting isKey_bannedKey]
  simp only [if_true, (plain.solid_format banned).trimSpace, plain.parseStringList_format words]

theorem applyLine_bannedLine (words : ∀ s ∈ banned, Word s) (cfg : Config)
    (current : Rrc.Text) (list : List Rrc.Text) :
    applyLine lib (cfg.withBanned list, current) (bannedLine lib banned) =
      (cfg.withBanned (if isHubSection current then banned else list), current) := by
  have kept := applyLine_of_replaces plain (replaces_bannedLine plain banned) cfg current
    (if isHubSection current then banned else list)
  rw [applyLine_banned, setsBanned_bannedLine plain words, Option.getD_some, kept.1, kept.2]

/-- Reading the lines that were there and reading them rewritten: the settings but the list are the same. -/
theorem foldl_rewritten (words : ∀ s ∈ banned, Word s) (lines : List Rrc.Text) (cfg : Config)
    (current : Rrc.Text) (list : List Rrc.Text) :
    (lines.map fun l => if replaces lib l then bannedLine lib banned else l).foldl (applyLine lib)
        (cfg.withBanned list, current) =
      ((lines.foldl (applyLine lib) (cfg, current)).1.withBanned
          (bannedByRewritten lib banned (hubLines lib current lines) list),
        (lines.foldl (applyLine lib) (cfg, current)).2) := by
  induction lines generalizing cfg current list with
  | nil => rfl
  | cons line lines ih =>
    obtain ⟨cfg', stepped⟩ : ∃ cfg', applyLine lib (cfg, current) line = (cfg', nextSection lib current line) :=
      ⟨_, Prod.ext rfl (applyLine_snd cfg current line)⟩
    rw [map_cons, foldl_cons, foldl_cons, hubLines, stepped]
    by_cases replaced : replaces lib line = true
    · have kept := applyLine_of_replaces plain replaced cfg current (if isHubSection current then banned else list)
      rw [stepped] at kept
      rw [if_pos replaced, applyLine_bannedLine plain words, ← kept.1, kept.2, ih]
      split
      · simp only [bannedByRewritten, singleton_append, foldl_cons, if_pos replaced]
      · rfl
    · rw [if_neg replaced, applyLine_banned, stepped, ih]
      split
      · simp only [bannedByRewritten, singleton_append, foldl_cons, if_neg replaced]
      · rfl

omit plain in
/-- The last line that is replaced or sets the list decides what a rewrite does. -/
theorem bannedByRewritten_eq (banned lines list : List Rrc.Text) :
    bannedByRewritten lib banned lines list = if lastReplaced lib lines then banned else bannedBy lib lines list := by
  induction lines using List.reverseRecOn with
  | nil => rfl
  | append_singleton lines line ih =>
    have rewritten : bannedByRewritten lib banned (lines ++ [line]) list = if replaces lib line then banned
        else (setsBanned lib line).getD (bannedByRewritten lib banned lines list) := foldl_append
    have before : bannedBy lib (lines ++ [line]) list = (setsBanned lib line).getD (bannedBy lib lines list) :=
      foldl_append
    have last : concernsBanned lib line = true → lastReplaced lib (lines ++ [line]) = replaces lib line := by
      intro concerned
      rw [lastReplaced, filter_append, filter_cons_of_pos concerned, filter_nil, List.getLast?_concat,
        Option.any_some]
    rw [rewritten, before, ih]
    by_cases replaced : replaces lib line = true
    · rw [if_pos replaced, last (by rw [concernsBanned, replaced, Bool.true_or]), if_pos replaced]
    rw [if_neg replaced]
    cases sets : setsBanned lib line with
    | none =>
      have skipped : ¬ concernsBanned lib line = true := by
        rw [concernsBanned, sets, Bool.eq_false_iff.2 replaced]
        exact Bool.false_ne_true
      rw [lastReplaced, lastReplaced, filter_append, filter_cons_of_neg skipped, filter_nil,
        append_nil, Option.getD_none, Option.getD_none]
    | some other =>
      rw [last (by rw [concernsBanned, sets, Option.isSome_some, Bool.or_true]), if_neg replaced, Option.getD_some,
        Option.getD_some]

/-! The file. -/

omit plain in
theorem applyTOML_eq_ok {cfg read : Config} {text : Rrc.Text} : applyTOML lib cfg text = .ok read ↔
    (scan text).2 = none ∧ ((scan text).1.foldl (applyLine lib) (cfg, [])).1 = read := by
  unfold applyTOML
  dsimp only
  cases (scan text).2 with
  | some message => simp
  | none => simp

omit plain in
theorem loadConfigFile_eq_ok {files : Files} {path text : Rrc.Text} {cfg : Config} (stored : files path = .ok text) :
    loadConfigFile lib files path = .ok cfg ↔ (scan text).2 = none ∧
      ((scan text).1.foldl (applyLine lib) ({ defaultConfig lib with configPath := path }, [])).1 = cfg := by
  unfold loadConfigFile
  rw [stored]
  exact applyTOML_eq_ok

omit plain in
theorem persistBannedIdentities_fine {files : Files} {path text : Rrc.Text} (banned : List Rrc.Text)
    (stored : files path = .ok text) (fine : (scan text).2 = none) :
    persistBannedIdentities lib none files path banned =
      .ok (Function.update files path (.ok (joinLines (persistLines lib banned (scan text).1)))) := by
  unfold persistBannedIdentities
  rw [stored]
  simp only [fine]

omit plain in
theorem persistBannedIdentities_eq_ok {failure : Option String} {files files' : Files} {path text : Rrc.Text}
    (stored : files path = .ok text)
    (persisted : persistBannedIdentities lib failure files path banned = .ok files') :
    files' path = .ok (joinLines (persistLines lib banned (scan text).1)) := by
  unfold persistBannedIdentities at persisted
  rw [stored] at persisted
  dsimp only at persisted
  split at persisted
  · contradiction
  split at persisted
  · contradiction
  · rw [← Except.ok.inj persisted, Function.update_self]

theorem applyLine_dropCR (state : Config × Rrc.Text) (line : Rrc.Text) :
    applyLine lib state (dropCR line) = applyLine lib state line := by
  unfold applyLine
  rw [plain.trimSpace_dropCR]

theorem foldl_dropCR (lines : List Rrc.Text) (state : Config × Rrc.Text) :
    (lines.map dropCR).foldl (applyLine lib) state = lines.foldl (applyLine lib) state := by
  rw [foldl_map]
  exact congrArg (fun step => lines.foldl step state) (funext fun state => funext (applyLine_dropCR plain state))

theorem short_bannedLine (ids : List ID) :
    byteLength (bannedLine lib (ids.map ID.hex)) < maxScanTokenSize ↔ ids.length ≤ 1819 := by
  have key : byteLength (bannedKey ++ [' ', '=', ' ']) = 20 := by decide +kernel
  rw [bannedLine, settingLine, byteLength_append, key, plain.byteLength_format_hex, maxScanTokenSize]
  split
  next empty => rw [empty, length_nil]; omega
  next => omega

theorem newline_notMem_bannedLine (banned : List Rrc.Text) : '\n' ∉ bannedLine lib banned := by
  rw [bannedLine, settingLine]
  intro member
  rcases mem_append.1 member with member | member
  · exact absurd member (by decide +kernel)
  · exact plain.newline_notMem_format banned member

omit plain in
theorem mem_persistLines {banned lines : List Rrc.Text}
    (member : line ∈ persistLines lib banned lines) : line ∈ lines ∨ line = bannedLine lib banned := by
  rcases mem_append.1 member with member | member
  · obtain ⟨l, listed, rfl⟩ := mem_map.1 member
    split
    · exact Or.inr rfl
    · exact Or.inl listed
  · split at member
    · exact absurd member not_mem_nil
    · exact Or.inr (mem_singleton.1 member)

omit plain in
theorem bannedLine_mem_persistLines (banned lines : List Rrc.Text) :
    bannedLine lib banned ∈ persistLines lib banned lines := by
  unfold persistLines
  split
  next replaced =>
    obtain ⟨l, listed, owned⟩ := any_eq_true.1 replaced
    apply mem_append_left
    exact mem_map.2 ⟨l, listed, if_pos owned⟩
  next => exact mem_append_right _ (mem_singleton_self _)

/-- What is read after the rewrite, if its lines fit the scanner. -/
theorem foldl_persistLines (words : ∀ s ∈ banned, Word s) (lines : List Rrc.Text)
    (cfg : Config) :
    ((persistLines lib banned lines).foldl (applyLine lib) (cfg, [])).1 =
      (lines.foldl (applyLine lib) (cfg, [])).1.withBanned
        (if lastReplaced lib (hubLines lib [] lines) ∨
            lines.any (replaces lib) = false ∧ isHubSection (lines.foldl (nextSection lib) []) then banned
          else (lines.foldl (applyLine lib) (cfg, [])).1.bannedIdentities) := by
  have before := @foldl_applyLine lib lines cfg []
  have rewritten := foldl_rewritten plain words lines cfg [] cfg.bannedIdentities
  rw [bannedByRewritten_eq, ← before.1, before.2] at rewritten
  change List.foldl (applyLine lib) (cfg, []) _ = _ at rewritten
  rw [persistLines, foldl_append, rewritten]
  cases replaced : lines.any (replaces lib) with
  | true => simp only [if_true, foldl_nil, Bool.true_eq_false, false_and, or_false]
  | false =>
    rw [if_neg Bool.false_ne_true, foldl_cons, foldl_nil, applyLine_bannedLine plain words]
    simp only [true_and]
    congr 1
    split_ifs <;> simp_all

/-- A rewrite of the list is read back with all other settings as they were if and only if its line fits the scanner,
and the reader finds it where it looks for the list or finds the same list in another line. -/
theorem loadConfigFile_persistBannedIdentities {failure : Option String} {files files' : Files} {path text : Rrc.Text}
    {cfg : Config} (ids : List ID) (stored : files path = .ok text)
    (accepted : loadConfigFile lib files path = .ok cfg)
    (persisted : persistBannedIdentities lib failure files path (ids.map ID.hex) = .ok files') :
    loadConfigFile lib files' path = .ok { cfg with bannedIdentities := ids.map ID.hex } ↔
      ids.length ≤ 1819 ∧
        (lastReplaced lib (hubLines lib [] (scan text).1) ∨
          (scan text).1.any (replaces lib) = false ∧ isHubSection ((scan text).1.foldl (nextSection lib) []) ∨
          cfg.bannedIdentities = ids.map ID.hex) := by
  have words : ∀ s ∈ ids.map ID.hex, Word s := by
    intro s member
    obtain ⟨id, -, rfl⟩ := mem_map.1 member
    exact id.word_hex
  obtain ⟨fine, read⟩ := (loadConfigFile_eq_ok stored).1 accepted
  have kept := scan_lines (Prod.ext rfl fine : scan text = ((scan text).1, none))
  have written := persistBannedIdentities_eq_ok stored persisted
  have whole : ∀ line ∈ persistLines lib (ids.map ID.hex) (scan text).1, '\n' ∉ line := by
    intro line member
    rcases mem_persistLines member with listed | rfl
    · exact (kept line listed).1
    · exact newline_notMem_bannedLine plain _
  have short : (∀ line ∈ persistLines lib (ids.map ID.hex) (scan text).1, byteLength line < maxScanTokenSize) ↔
      ids.length ≤ 1819 := by
    rw [← short_bannedLine plain]
    constructor
    · exact fun all => all _ (bannedLine_mem_persistLines _ _)
    · intro fits line member
      rcases mem_persistLines member with listed | rfl
      · exact (kept line listed).2
      · exact fits
  rw [loadConfigFile_eq_ok written, scan_joinLines_error whole, short]
  apply and_congr_right
  intro few
  rw [scan_joinLines whole (short.2 few), foldl_dropCR plain, foldl_persistLines plain words, read]
  have list : ∀ list, cfg.withBanned list = { cfg with bannedIdentities := ids.map ID.hex } ↔ list = ids.map ID.hex :=
    fun list => ⟨congrArg Config.bannedIdentities, congrArg cfg.withBanned⟩
  rw [list, ← or_assoc]
  split
  next lands => exact iff_of_true rfl (Or.inl lands)
  next misses => rw [or_iff_right misses]

end

end

/-- A character in quotes. -/
def escape (r : Char) : Rrc.Text := if r = '\n' then ['\\', 'n'] else if r = '"' ∨ r = '\\' then ['\\', r] else [r]

def unescape : Rrc.Text → Rrc.Text
  | '\\' :: 'n' :: rest => '\n' :: unescape rest
  | '\\' :: r :: rest => r :: unescape rest
  | r :: rest => r :: unescape rest
  | [] => []

/-- A library for ASCII texts with the escapes of quotes, backslashes and newlines. -/
def escapingLibrary : Library :=
  { asciiLibrary with
    unicode := { asciiHub.unicode with isSpace := fun r => r = ' ' ∨ 9 ≤ r.toNat ∧ r.toNat ≤ 13 }
    quote := fun s => '"' :: (s.flatMap escape ++ ['"'])
    unquote := fun s => some (unescape (inner s)) }

theorem unescape_escape (r : Char) (rest : Rrc.Text) : unescape (escape r ++ rest) = r :: unescape rest := by
  unfold escape
  split_ifs with newline special
  · rw [newline]
    rfl
  · rcases special with rfl | rfl <;> rfl
  · rw [List.singleton_append]
    apply unescape.eq_3
    · rintro - rfl
      exact absurd (Or.inr rfl) special
    · rintro - - rfl
      exact absurd (Or.inr rfl) special

theorem unescape_flatMap (s : Rrc.Text) : unescape (s.flatMap escape) = s := by
  induction s with
  | nil => rfl
  | cons r s ih => rw [List.flatMap_cons, unescape_escape, ih]

theorem escapingLibrary_plain : escapingLibrary.Plain where
  space r _ := decide_eq_true_iff
  lower r _ := rfl
  printed s letters := by
    have fixed : s.flatMap escape = s := by
      calc s.flatMap escape = s.flatMap fun r => [r] := by
            apply List.flatMap_congr
            intro r member
            have letter := letters r member
            unfold escape
            rw [if_neg, if_neg]
            · rintro (rfl | rfl) <;> exact absurd letter (by decide)
            · rintro rfl
              exact absurd letter (by decide)
        _ = s := List.flatMap_singleton' s
    change '"' :: (s.flatMap escape ++ ['"']) = _
    rw [fixed]
  quoted s := by
    refine ⟨s.flatMap escape, rfl, fun member => ?_⟩
    obtain ⟨r, -, found⟩ := List.mem_flatMap.1 member
    unfold escape at found
    split_ifs at found with newline special
    · exact absurd found (by decide)
    · rcases special with rfl | rfl <;> exact absurd found (by decide)
    · exact newline (List.mem_singleton.1 found).symm
  unquote_quote s := by
    change some (unescape (inner ('"' :: (s.flatMap escape ++ ['"'])))) = some s
    rw [inner_between, unescape_flatMap]

/-- A configuration in one file. -/
def configFile (text : String) : Files := fun path =>
  if path = ['c'] then .ok text.toList else .error (.notExist "open: no such file or directory")

theorem configFile_path (text : String) : configFile text ['c'] = .ok text.toList := if_pos rfl

/-- A list in the hub's section, before the section of the log. -/
def listedConfig : String := "[hub]\nbanned_identities = []\n[logging]\nlevel = \"INFO\"\n"

theorem loadConfigFile_persistBannedIdentities_listed : ∃ cfg files',
    loadConfigFile escapingLibrary (configFile listedConfig) ['c'] = .ok cfg ∧
      persistBannedIdentities escapingLibrary none (configFile listedConfig) ['c'] [ID.zero.hex] = .ok files' ∧
        loadConfigFile escapingLibrary files' ['c'] = .ok { cfg with bannedIdentities := [ID.zero.hex] } := by
  have stored := configFile_path listedConfig
  have fine : (scan listedConfig.toList).2 = none := by decide +kernel
  have accepted := (@loadConfigFile_eq_ok escapingLibrary _ _ _ _ stored).2 ⟨fine, rfl⟩
  have persisted := @persistBannedIdentities_fine escapingLibrary _ _ _ [ID.zero.hex] stored fine
  refine ⟨_, _, accepted, persisted, ?_⟩
  apply (loadConfigFile_persistBannedIdentities escapingLibrary_plain [ID.zero] stored accepted persisted).2
  exact ⟨by decide, Or.inl (by decide +kernel)⟩

/-- The hub's section without a list, before the section of the log. -/
def unlistedConfig : String := "[hub]\nhub_name = \"rrc\"\n[logging]\nlevel = \"INFO\"\n"

/-- The line goes to the end of the file, where the section of the log is. -/
theorem persistBannedIdentities_lost : ∃ cfg files',
    loadConfigFile escapingLibrary (configFile unlistedConfig) ['c'] = .ok cfg ∧
      persistBannedIdentities escapingLibrary none (configFile unlistedConfig) ['c'] [ID.zero.hex] = .ok files' ∧
        loadConfigFile escapingLibrary files' ['c'] ≠ .ok { cfg with bannedIdentities := [ID.zero.hex] } := by
  have stored := configFile_path unlistedConfig
  have fine : (scan unlistedConfig.toList).2 = none := by decide +kernel
  have accepted := (@loadConfigFile_eq_ok escapingLibrary _ _ _ _ stored).2 ⟨fine, rfl⟩
  have persisted := @persistBannedIdentities_fine escapingLibrary _ _ _ [ID.zero.hex] stored fine
  refine ⟨_, _, accepted, persisted, fun same => ?_⟩
  have read := ((loadConfigFile_eq_ok (persistBannedIdentities_eq_ok stored persisted)).1 same).2
  exact absurd (congrArg Config.bannedIdentities read) (by decide +kernel)

end ReticulumProtocols.Gorrcd
