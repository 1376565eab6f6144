import ReticulumProtocols.Lxmf.ConfigText
import ReticulumProtocols.Wire.Text

/-! The configuration of the LXMF daemon. Each setting has a place in the text and a kind, which says how its value is
read, held within bounds and written. -/

namespace ReticulumProtocols.Lxmf
open Wire Text List

/-- Decimal numbers as `strconv` reads them and `floatStr` writes them; finite ones are read back. -/
structure Decimals where
  Number : Type
  ofRat : ℚ → Number
  parseFloat : Bytes → Option Number
  floatStr : Number → Bytes
  below : Number → Number → Bool
  Finite : Number → Prop
  lt_of_below : ∀ p q, below (ofRat p) (ofRat q) = true → p < q
  parse_floatStr : ∀ x, Finite x → parseFloat (floatStr x) = some x
  graphic : ∀ x, Finite x → floatStr x ≠ [] ∧ ∀ c ∈ floatStr x, Graphic c ∧ c ≠ 0x23

/-- A kind of settings, with the value of a setting that is not in the text. -/
inductive Kind where
  | text (initial : String)
  | flag (initial : Bool)
  | int (initial low high : Int)
  | float (initial low : ℚ)
  | list

def minInt : Int := -2 ^ 63
def maxInt : Int := 2 ^ 63 - 1

inductive Setting where
  | displayName | announceAtStart | announceIntervalMinutes | deliveryTransferMaxAcceptedSize | stampCost | onInbound
  | enableNode | nodeName | authRequired | nodeAnnounceAtStart | nodeAnnounceIntervalMinutes | autopeer
  | autopeerMaxDepth | messageStorageLimitMB | propagationTransferMaxAcceptedKB | propagationMessageMaxAcceptedKB
  | propagationSyncMaxAcceptedKB | propagationStampCostTarget | propagationStampCostFlexibility | peeringCost
  | remotePeeringCostMax | prioritiseDestinations | controlAllowed | staticPeers | maxPeers | fromStaticOnly
  | maxInboundSyncs | sequentialPNStampValidation | staticPeersBypassSequential | level
  deriving DecidableEq

/-- The sections, with their settings in the order in which they are written, under their keys. -/
def sections : List (String × List (String × Setting)) :=
  [("lxmf",
    [("display_name", .displayName), ("announce_at_start", .announceAtStart),
      ("announce_interval", .announceIntervalMinutes),
      ("delivery_transfer_max_accepted_size", .deliveryTransferMaxAcceptedSize), ("stamp_cost", .stampCost),
      ("on_inbound", .onInbound)]),
  ("propagation",
    [("enable_node", .enableNode), ("node_name", .nodeName), ("auth_required", .authRequired),
      ("announce_at_start", .nodeAnnounceAtStart), ("announce_interval", .nodeAnnounceIntervalMinutes),
      ("autopeer", .autopeer), ("autopeer_maxdepth", .autopeerMaxDepth),
      ("message_storage_limit", .messageStorageLimitMB),
      ("propagation_transfer_max_accepted_size", .propagationTransferMaxAcceptedKB),
      ("propagation_message_max_accepted_size", .propagationMessageMaxAcceptedKB),
      ("propagation_sync_max_accepted_size", .propagationSyncMaxAcceptedKB),
      ("propagation_stamp_cost_target", .propagationStampCostTarget),
      ("propagation_stamp_cost_flexibility", .propagationStampCostFlexibility), ("peering_cost", .peeringCost),
      ("remote_peering_cost_max", .remotePeeringCostMax), ("prioritise_destinations", .prioritiseDestinations),
      ("control_allowed", .controlAllowed), ("static_peers", .staticPeers), ("max_peers", .maxPeers),
      ("from_static_only", .fromStaticOnly), ("max_inbound_syncs", .maxInboundSyncs),
      ("sequential_pn_stamp_validation", .sequentialPNStampValidation),
      ("static_peers_bypass_sequential", .staticPeersBypassSequential)]),
  ("logging", [("loglevel", .level)])]

/-- The defaults and the bounds of the settings. -/
def Setting.kind : Setting → Kind
  | displayName => .text "Anonymous Peer"
  | nodeName | onInbound => .text ""
  | announceAtStart | enableNode | authRequired | fromStaticOnly => .flag false
  | nodeAnnounceAtStart | autopeer | sequentialPNStampValidation | staticPeersBypassSequential => .flag true
  | announceIntervalMinutes => .int 0 minInt maxInt
  | nodeAnnounceIntervalMinutes => .int 360 minInt maxInt
  | autopeerMaxDepth => .int 4 minInt maxInt
  | maxPeers => .int 20 minInt maxInt
  | stampCost => .int 12 1 maxInt
  | propagationStampCostTarget => .int 16 13 maxInt
  | propagationStampCostFlexibility => .int 3 0 maxInt
  | peeringCost => .int 18 0 maxInt
  | remotePeeringCostMax => .int 26 0 maxInt
  | maxInboundSyncs => .int 3 1 maxInt
  | level => .int 4 1 7
  | deliveryTransferMaxAcceptedSize => .float 1000 (38 / 100)
  | messageStorageLimitMB => .float 500 (5 / 1000)
  | propagationTransferMaxAcceptedKB | propagationMessageMaxAcceptedKB => .float 256 (38 / 100)
  | propagationSyncMaxAcceptedKB => .float 10240 (38 / 100)
  | prioritiseDestinations | controlAllowed | staticPeers => .list

def Setting.place (s : Setting) : Bytes × Bytes :=
  ((sections.flatMap fun part => part.2.filterMap fun entry =>
    if entry.2 = s then some (ascii part.1, ascii entry.1) else none).head?).getD ([], [])

def parseBool (v : Bytes) : Bool :=
  let lower (c : UInt8) : UInt8 := if 0x41 ≤ c ∧ c ≤ 0x5a then c + 0x20 else c
  (trimSpace v).map lower ∈ ["1", "yes", "y", "true", "on"].map ascii

def boolStr (b : Bool) : Bytes := if b then ascii "yes" else ascii "no"

/-- `strconv.Atoi`. -/
def atoi (v : Bytes) : Option Int :=
  let digits := if v.head? = some 0x2d ∨ v.head? = some 0x2b then v.tail else v
  if digits.all isDigit then scanInt64 v else none

def parseInt (v : Bytes) : Int := (atoi (trimSpace v)).getD 0

def parseList (v : Bytes) : List Bytes :=
  if trimSpace v = [] then [] else (((trimSpace v).splitOn 0x2c).map trimSpace).filter (· ≠ [])

section
variable (d : Decimals)

def parseFloatOrZero (v : Bytes) : d.Number :=
  if trimSpace v = [] then d.ofRat 0 else (d.parseFloat (trimSpace v)).getD (d.ofRat 0)

namespace Kind

abbrev Carrier : Kind → Type
  | text _ => Bytes
  | flag _ => Bool
  | int .. => Int
  | float .. => d.Number
  | list => List Bytes

def start : (kind : Kind) → kind.Carrier d
  | text initial => ascii initial
  | flag initial => initial
  | int initial _ _ => initial
  | float initial _ => d.ofRat initial
  | list => []

def read : (kind : Kind) → Bytes → kind.Carrier d
  | text _, v => v
  | flag _, v => parseBool v
  | int _ low high, v => min (max (parseInt v) low) high
  | float _ low, v => if d.below (parseFloatOrZero d v) (d.ofRat low) then d.ofRat low else parseFloatOrZero d v
  | list, v => parseList v

def write : (kind : Kind) → kind.Carrier d → Bytes
  | text _, x => x
  | flag _, x => boolStr x
  | int .., x => intText x
  | float .., x => d.floatStr x
  | list, x => [0x2c, 0x20].intercalate x

/-- What a setting of the kind can hold. -/
def Valid : (kind : Kind) → kind.Carrier d → Prop
  | text _, x => Clean x
  | flag _, _ => True
  | int _ low high, x => low ≤ x ∧ x ≤ high
  | float _ low, x => d.below x (d.ofRat low) = false
  | list, x => ∀ entry ∈ x, Clean entry ∧ entry ≠ [] ∧ 0x2c ∉ entry

def Finite : (kind : Kind) → kind.Carrier d → Prop
  | float .., x => d.Finite x
  | _, _ => True

end Kind

abbrev Config := (s : Setting) → s.kind.Carrier d

def defaultConfig : Config d := fun s => s.kind.start d

def parseConfig (text : Bytes) : Except ConfigError (Config d) :=
  (readSectionedKV text).map fun assignments s =>
    match configValue assignments s.place with
    | some v => s.kind.read d v
    | none => defaultConfig d s

def emitSection (name : Bytes) (pairs : List (Bytes × Bytes)) : List Bytes :=
  [sectionLine name, []] ++ pairs.map (fun pair => settingLine pair.1 pair.2) ++ [[]]

variable {d} (cfg : Config d)

/-- The sections, with what is written for their settings. -/
def written : List (Bytes × List (Bytes × Bytes)) :=
  sections.map fun part => (ascii part.1, part.2.map fun entry => (ascii entry.1, entry.2.kind.write d (cfg entry.2)))

def writtenLines : List Bytes := (written cfg).flatMap fun part => emitSection part.1 part.2

def writeConfig : Bytes := (writtenLines cfg).flatMap fun line => line ++ [0x0a]

end

/-! Values that are read back. -/

theorem clean_of_graphic {s : Bytes} (graphic : ∀ c ∈ s, Graphic c ∧ c ≠ 0x23) : Clean s := by
  have ends := stripped_of_ends (s := s) (fun c first => (graphic c (mem_of_head? first)).1)
    fun c last => (graphic c (mem_of_getLast? last)).1
  exact { ends with
    comment := fun found => (graphic _ found).2 rfl
    newline := fun found => absurd (graphic _ found).1 (by decide) }

theorem graphic_intText {n : Int} {c : UInt8} (member : c ∈ intText n) : Graphic c ∧ c ≠ 0x23 := by
  have each : ∀ c, isDigit c = true ∨ c = 0x2d → Graphic c ∧ c ≠ 0x23 := forall_byte (by decide +kernel)
  apply each
  by_contra other
  rw [not_or] at other
  exact not_mem_intText (Bool.eq_false_iff.2 other.1) other.2 n member

theorem atoi_intText {n : Int} (low : minInt ≤ n) (high : n ≤ maxInt) : atoi (intText n) = some n := by
  have digits : (natText n.natAbs).all isDigit = true := all_eq_true.2 fun c member => natText_digits member
  obtain ⟨first, others, form⟩ := exists_cons_of_ne_nil (natText_ne_nil n.natAbs)
  have unsigned : first ≠ 0x2d ∧ first ≠ 0x2b := by
    have digit : isDigit first = true := natText_digits (form ▸ mem_cons_self)
    constructor <;> exact fun same => absurd (same ▸ digit) (by decide)
  have stripped : (if (intText n).head? = some 0x2d ∨ (intText n).head? = some 0x2b then (intText n).tail
      else intText n) = natText n.natAbs := by
    unfold intText
    split
    · rfl
    · rw [form, List.head?_cons]
      exact if_neg (by simpa using unsigned)
  rw [atoi, stripped, digits]
  exact scanInt64_intText low (Int.lt_of_le_sub_one high)

theorem graphic_boolStr (b : Bool) : ∀ c ∈ boolStr b, Graphic c ∧ c ≠ 0x23 := by
  cases b <;> decide +kernel

theorem parseBool_boolStr (b : Bool) : parseBool (boolStr b) = b := by
  cases b <;> decide +kernel

theorem clean_parseList {v : Bytes} (clean : Clean v) :
    ∀ entry ∈ parseList v, Clean entry ∧ entry ≠ [] ∧ 0x2c ∉ entry := by
  intro entry member
  unfold parseList at member
  split at member
  · contradiction
  · obtain ⟨trimmed, some⟩ := mem_filter.1 member
    obtain ⟨piece, listed, rfl⟩ := List.mem_map.1 trimmed
    obtain ⟨apart, part⟩ := of_mem_splitOn listed
    rw [trimSpace_of_stripped clean.toStripped] at part
    refine ⟨clean_trimSpace (fun found => clean.comment (part found)) fun found => clean.newline (part found), ?_, ?_⟩
    · exact of_decide_eq_true some
    · exact fun found => apart ((trimSpace_spec piece).2.subset found)

theorem intercalate_cons_eq (x : Bytes) (xs : List Bytes) (separator : Bytes) :
    separator.intercalate (x :: xs) = x ++ xs.flatMap fun y => separator ++ y := by
  induction xs generalizing x with
  | nil => simp
  | cons y xs ih =>
    rw [intercalate_cons_cons, ih, flatMap_cons]
    simp only [append_assoc]

theorem parseList_intercalate {entries : List Bytes} (valid : ∀ entry ∈ entries, Clean entry ∧ entry ≠ [] ∧ 0x2c ∉ entry) :
    Clean ([0x2c, 0x20].intercalate entries) ∧ parseList ([0x2c, 0x20].intercalate entries) = entries := by
  cases entries with
  | nil => exact ⟨clean_of_graphic fun _ => nofun, rfl⟩
  | cons x xs =>
    obtain ⟨first, others⟩ := forall_mem_cons.1 valid
    have absent : ∀ c : UInt8, c ≠ 0x2c → c ≠ 0x20 → (∀ entry ∈ x :: xs, c ∉ entry) →
        c ∉ x ++ xs.flatMap fun y => [0x2c, 0x20] ++ y := by
      intro c comma blank none member
      rcases List.mem_append.1 member with member | member
      · exact none x mem_cons_self member
      · obtain ⟨y, listed, found⟩ := mem_flatMap.1 member
        simp only [cons_append, nil_append, mem_cons, comma, blank, false_or] at found
        exact none y (mem_cons_of_mem x listed) found
    have trimmed : Stripped (x ++ xs.flatMap fun y => [0x2c, 0x20] ++ y) := by
      constructor
      · cases xs with
        | nil => simpa using first.1.front
        | cons y xs => exact first.1.front.append first.2.1 (by decide) _
      · cases xs using List.reverseRecOn with
        | nil => simpa using first.1.back
        | append_singleton xs y =>
          obtain ⟨clean, some, -⟩ := others y (by simp)
          have back : (x ++ (xs ++ [y]).flatMap fun y => [0x2c, 0x20] ++ y).reverse =
              y.reverse ++ 0x20 :: (x ++ (xs.flatMap fun y => [0x2c, 0x20] ++ y) ++ [0x2c]).reverse := by simp
          rw [back]
          exact clean.back.append (mt reverse_eq_nil_iff.1 some) (by decide) _
    have pieces : (x ++ xs.flatMap fun y => [0x2c, 0x20] ++ y).splitOn 0x2c = x :: xs.map (0x20 :: ·) := by
      have joined : (x ++ xs.flatMap fun y => [0x2c, 0x20] ++ y) = [0x2c].intercalate (x :: xs.map (0x20 :: ·)) := by
        rw [intercalate_cons_eq, flatMap_map]
        rfl
      rw [joined]
      refine splitOn_intercalate _ (fun piece member => ?_) (cons_ne_nil _ _)
      rcases List.mem_cons.1 member with rfl | member
      · exact first.2.2
      · obtain ⟨y, listed, rfl⟩ := List.mem_map.1 member
        exact not_mem_cons_of_ne_of_not_mem (by decide) (others y listed).2.2
    rw [intercalate_cons_eq]
    refine ⟨{ trimmed with
      comment := absent _ (by decide) (by decide) fun entry member => (valid entry member).1.comment
      newline := absent _ (by decide) (by decide) fun entry member => (valid entry member).1.newline }, ?_⟩
    have kept : xs.map (trimSpace ∘ (0x20 :: ·)) = xs :=
      (map_congr_left fun y listed => trimSpace_blank_cons (others y listed).1.toStripped).trans (map_id xs)
    rw [parseList, trimSpace_of_stripped trimmed, if_neg (by simp [first.2.1]), pieces, map_cons, map_map,
      trimSpace_of_stripped first.1.toStripped, kept]
    exact filter_eq_self.2 fun entry member => decide_eq_true (valid entry member).2.1

namespace Kind
variable {d : Decimals}
variable {kind : Kind}

/-- The bounds of a kind leave something between them. -/
def Sane : Kind → Prop
  | text initial => Clean (ascii initial)
  | int initial low high => minInt ≤ low ∧ high ≤ maxInt ∧ low ≤ initial ∧ initial ≤ high
  | float initial low => low ≤ initial
  | _ => True

theorem valid_start (sane : kind.Sane) : kind.Valid d (kind.start d) := by
  cases kind with
  | text initial => exact sane
  | flag initial => trivial
  | int initial low high => exact sane.2.2
  | float initial low => exact Bool.eq_false_iff.2 fun under => absurd (d.lt_of_below _ _ under) (not_lt.2 sane)
  | list => exact fun _ => nofun

theorem valid_read (sane : kind.Sane) {v : Bytes} (clean : Clean v) : kind.Valid d (kind.read d v) := by
  cases kind with
  | text initial => exact clean
  | flag initial => trivial
  | int initial low high =>
    have ordered := sane.2.2.1.trans sane.2.2.2
    exact ⟨le_min (le_max_right _ _) ordered, min_le_right _ _⟩
  | float initial low =>
    rw [Valid, read]
    split
    · exact Bool.eq_false_iff.2 fun under => absurd (d.lt_of_below _ _ under) (lt_irrefl _)
    next above => exact Bool.eq_false_iff.2 above
  | list => exact clean_parseList clean

/-- A value that a setting can hold is written as a clean text and read back. -/
theorem read_write (sane : kind.Sane) {x : kind.Carrier d} (valid : kind.Valid d x)
    (finite : kind.Finite d x) : Clean (kind.write d x) ∧ kind.read d (kind.write d x) = x := by
  cases kind with
  | text initial => exact ⟨valid, rfl⟩
  | flag initial => exact ⟨clean_of_graphic (graphic_boolStr x), parseBool_boolStr x⟩
  | int initial low high =>
    have clean : Clean (intText x) := clean_of_graphic fun c member => graphic_intText member
    refine ⟨clean, ?_⟩
    rw [write, read, parseInt, trimSpace_of_stripped clean.toStripped,
      atoi_intText (sane.1.trans valid.1) (valid.2.trans sane.2.1), Option.getD_some, max_eq_left valid.1,
      min_eq_left valid.2]
  | float initial low =>
    obtain ⟨some, graphic⟩ := d.graphic x finite
    have clean := clean_of_graphic graphic
    have back : parseFloatOrZero d (d.floatStr x) = x := by
      rw [parseFloatOrZero, trimSpace_of_stripped clean.toStripped, if_neg some, d.parse_floatStr x finite]
      rfl
    refine ⟨clean, ?_⟩
    rw [write, read, back, if_neg (Bool.eq_false_iff.1 valid)]
  | list => exact parseList_intercalate valid

end Kind

theorem Setting.sane (s : Setting) : s.kind.Sane := by
  have ends : (∀ c ∈ (ascii "Anonymous Peer").head?, Graphic c) ∧ (∀ c ∈ (ascii "Anonymous Peer").getLast?, Graphic c) := by
    decide +kernel
  have name : Clean (ascii "Anonymous Peer") :=
    { stripped_of_ends ends.1 ends.2 with comment := by decide +kernel, newline := by decide +kernel }
  have empty : Clean (ascii "") := clean_of_graphic (by decide +kernel)
  cases s with
  | displayName => exact name
  | nodeName | onInbound => exact empty
  | deliveryTransferMaxAcceptedSize | messageStorageLimitMB | propagationTransferMaxAcceptedKB
  | propagationMessageMaxAcceptedKB | propagationSyncMaxAcceptedKB => norm_num [kind, Kind.Sane]
  | _ => simp [kind, Kind.Sane, minInt, maxInt]

/-! The text as a whole. -/

def assigned (name : Bytes) (pairs : List (Bytes × Bytes)) : List Assignment := pairs.map fun pair => ((name, pair.1), pair.2)

section
variable {name : Bytes} {pairs : List (Bytes × Bytes)} {lines : List Bytes}

theorem readConfigLines_settings (word : ConfigName name) (clean : ∀ pair ∈ pairs, ConfigName pair.1 ∧ Clean pair.2)
    (short : ∀ pair ∈ pairs, (settingLine pair.1 pair.2).length < maxConfigLine) (number : Nat) :
    ∃ later, readConfigLines number name (pairs.map (fun pair => settingLine pair.1 pair.2) ++ [] :: lines) =
      (readConfigLines later name lines).map (assigned name pairs ++ ·) := by
  induction pairs generalizing number with
  | nil => exact ⟨number + 1, readConfigLines_cons (show ([] : Bytes).length < maxConfigLine by decide) rfl⟩
  | cons pair pairs ih =>
    obtain ⟨first, others⟩ := forall_mem_cons.1 clean
    obtain ⟨fits, fit⟩ := forall_mem_cons.1 short
    obtain ⟨later, rest⟩ := ih others fit (number + 1)
    refine ⟨later, ?_⟩
    rw [map_cons, cons_append, readConfigLines_cons fits (readConfigLine_setting word.1 first.1 first.2), rest]
    cases readConfigLines later name lines <;> rfl

theorem readConfigLines_emitSection (word : ConfigName name) (clean : ∀ pair ∈ pairs, ConfigName pair.1 ∧ Clean pair.2)
    (short : ∀ line ∈ emitSection name pairs, line.length < maxConfigLine) (number : Nat) (current : Bytes) :
    ∃ later, readConfigLines number current (emitSection name pairs ++ lines) =
      (readConfigLines later name lines).map (assigned name pairs ++ ·) := by
  have form : emitSection name pairs ++ lines =
      sectionLine name :: [] :: (pairs.map (fun pair => settingLine pair.1 pair.2) ++ [] :: lines) := by
    simp [emitSection]
  obtain ⟨later, rest⟩ := @readConfigLines_settings name pairs lines word clean
    (fun pair member => short _ (by simp only [emitSection, mem_append]; exact .inl (.inr (mem_map_of_mem member))))
    (number + 2)
  refine ⟨later, ?_⟩
  rw [form, readConfigLines_cons (short _ (by simp [emitSection])) (readConfigLine_section word),
    readConfigLines_cons (by decide) rfl, rest]
  cases readConfigLines later name lines <;> rfl

end

theorem readConfigLines_sections {parts : List (Bytes × List (Bytes × Bytes))}
    (clean : ∀ part ∈ parts, ConfigName part.1 ∧ ∀ pair ∈ part.2, ConfigName pair.1 ∧ Clean pair.2)
    (short : ∀ line ∈ parts.flatMap fun part => emitSection part.1 part.2, line.length < maxConfigLine)
    (number : Nat) (current : Bytes) :
    readConfigLines number current (parts.flatMap fun part => emitSection part.1 part.2) =
      .ok (parts.flatMap fun part => assigned part.1 part.2) := by
  induction parts generalizing number current with
  | nil => rfl
  | cons part parts ih =>
    rw [flatMap_cons] at short
    obtain ⟨first, others⟩ := forall_mem_cons.1 clean
    obtain ⟨fits, fit⟩ := forall_mem_append.1 short
    obtain ⟨later, read⟩ := readConfigLines_emitSection first.1 first.2 fits number current
    rw [flatMap_cons, read, ih others fit]
    rfl

theorem sections_words : ∀ part ∈ sections, ConfigName (ascii part.1) ∧ ∀ entry ∈ part.2, ConfigName (ascii entry.1) := by
  unfold ConfigName
  decide +kernel

theorem sections_places : (∀ part ∈ sections, ∀ entry ∈ part.2, entry.2.place = (ascii part.1, ascii entry.1)) ∧
    (sections.flatMap fun part => part.2.map fun entry => (ascii part.1, ascii entry.1)).Nodup := by
  decide +kernel

theorem Setting.listed (s : Setting) : ∃ part ∈ sections, ∃ entry ∈ part.2, entry.2 = s := by
  cases s <;> decide +kernel

section
variable {d : Decimals} {cfg : Config d}

/-- What a text sets is within the bounds of the settings. -/
theorem valid_of_parseConfig {text : Bytes} (parsed : parseConfig d text = .ok cfg) (s : Setting) :
    s.kind.Valid d (cfg s) := by
  unfold parseConfig at parsed
  cases read : readSectionedKV text with
  | error error =>
    rw [read] at parsed
    cases parsed
  | ok assignments =>
    rw [read] at parsed
    cases parsed
    dsimp only
    split
    next v found => exact Kind.valid_read s.sane (clean_of_configValue read found)
    next none => exact Kind.valid_start s.sane

theorem clean_written (valid : ∀ s : Setting, s.kind.Valid d (cfg s)) (finite : ∀ s : Setting, s.kind.Finite d (cfg s)) :
    ∀ part ∈ written cfg, ConfigName part.1 ∧ ∀ pair ∈ part.2, ConfigName pair.1 ∧ Clean pair.2 := by
  intro part member
  obtain ⟨known, listed, rfl⟩ := List.mem_map.1 member
  obtain ⟨word, words⟩ := sections_words known listed
  refine ⟨word, fun pair member => ?_⟩
  obtain ⟨entry, inside, rfl⟩ := List.mem_map.1 member
  exact ⟨words entry inside, (Kind.read_write entry.2.sane (valid entry.2) (finite entry.2)).1⟩

theorem newline_notMem_writtenLines
    (clean : ∀ part ∈ written cfg, ConfigName part.1 ∧ ∀ pair ∈ part.2, ConfigName pair.1 ∧ Clean pair.2) :
    ∀ line ∈ writtenLines cfg, 0x0a ∉ line := by
  intro line member
  obtain ⟨part, listed, inside⟩ := mem_flatMap.1 member
  obtain ⟨word, words⟩ := clean part listed
  simp only [emitSection, mem_append, mem_cons, not_mem_nil, or_false, mem_map] at inside
  rcases inside with ((rfl | rfl) | ⟨pair, given, rfl⟩) | rfl
  · simp only [sectionLine, mem_cons, mem_append, not_mem_nil, or_false, not_or]
    exact ⟨by decide, fun found => (word.graphic found).2.2.2.2 rfl, by decide⟩
  · exact not_mem_nil
  · obtain ⟨key, value⟩ := words pair given
    simp only [settingLine, mem_append, mem_cons, not_or]
    exact ⟨fun found => (key.graphic found).2.2.2.2 rfl, by decide, by decide, by decide, value.newline⟩
  · exact not_mem_nil

theorem configValue_written (s : Setting) :
    configValue ((written cfg).flatMap fun part => assigned part.1 part.2) s.place = some (s.kind.write d (cfg s)) := by
  obtain ⟨places, distinct⟩ := sections_places
  have form : ((written cfg).flatMap fun part => assigned part.1 part.2) = sections.flatMap fun part =>
      part.2.map fun entry => ((ascii part.1, ascii entry.1), entry.2.kind.write d (cfg entry.2)) := by
    simp only [written, assigned, flatMap_map, map_map]
    rfl
  have keys : (sections.flatMap fun part => part.2.map fun entry =>
      ((ascii part.1, ascii entry.1), entry.2.kind.write d (cfg entry.2))).map Prod.fst =
      sections.flatMap fun part => part.2.map fun entry => (ascii part.1, ascii entry.1) := by
    simp only [map_flatMap, map_map]
    rfl
  rw [form, configValue, lookup_eq_some_iff_mem (by rwa [map_reverse, nodup_reverse, keys]), mem_reverse]
  obtain ⟨part, known, entry, inside, rfl⟩ := s.listed
  rw [places part known entry inside]
  exact mem_flatMap.2 ⟨part, known, mem_map_of_mem inside⟩

/-- A configuration that was parsed from any text is parsed again from the text that is written for it. -/
theorem parseConfig_writeConfig {text : Bytes} (parsed : parseConfig d text = .ok cfg)
    (finite : ∀ s : Setting, s.kind.Finite d (cfg s)) (short : ∀ line ∈ writtenLines cfg, line.length < maxConfigLine) :
    parseConfig d (writeConfig cfg) = .ok cfg := by
  have valid := valid_of_parseConfig parsed
  have clean := clean_written valid finite
  have lines : configLines (writeConfig cfg) = writtenLines cfg := by
    rw [configLines, writeConfig, splitOn_flatMap (newline_notMem_writtenLines clean), List.getLast?_concat,
      if_pos rfl, dropLast_concat]
  rw [parseConfig, readSectionedKV, lines, writtenLines, readConfigLines_sections clean short]
  apply congrArg Except.ok
  funext s
  dsimp only
  rw [configValue_written]
  exact (Kind.read_write s.sane (valid s) (finite s)).2

end

/-- Whole numbers as decimals. -/
def wholeNumbers : Decimals where
  Number := Int
  ofRat p := ⌊p⌋
  parseFloat := atoi
  floatStr := intText
  below x y := decide (x < y)
  Finite x := minInt ≤ x ∧ x ≤ maxInt
  lt_of_below _ _ under := lt_of_not_ge fun above => absurd (of_decide_eq_true under) (not_lt.2 (Int.floor_mono above))
  parse_floatStr _ finite := atoi_intText finite.1 finite.2
  graphic x _ := ⟨intText_ne_nil x, fun _ member => graphic_intText member⟩

/-- The empty text leaves the defaults, and they are read back. -/
theorem parseConfig_writeConfig_defaultConfig : parseConfig wholeNumbers [] = .ok (defaultConfig wholeNumbers) ∧
    parseConfig wholeNumbers (writeConfig (defaultConfig wholeNumbers)) = .ok (defaultConfig wholeNumbers) := by
  have parsed : parseConfig wholeNumbers [] = .ok (defaultConfig wholeNumbers) := rfl
  refine ⟨parsed, parseConfig_writeConfig parsed (fun s => ?_) (by decide +kernel)⟩
  cases s <;> first | trivial | (change minInt ≤ ⌊(_ : ℚ)⌋ ∧ ⌊(_ : ℚ)⌋ ≤ maxInt; decide +kernel)

end ReticulumProtocols.Lxmf
