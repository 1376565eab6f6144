import ReticulumProtocols.Lxmf.Method
import ReticulumProtocols.Wire.Base64
import ReticulumProtocols.Wire.Text

/-! Paper messages: `lxm://` and base64 without padding, as it is printed in a QR code. A URI that was read from several
lines has stray slashes, and its scheme may be in capitals. -/

namespace ReticulumProtocols.Lxmf
open Wire Text List

def qrMaxStorage : Nat := 2953
def uriSchemaPrefix : Bytes := ascii "lxm://"

inductive PaperError where
  | empty
  | tooLong (length : Nat)
  | noScheme
  | base64
  deriving DecidableEq

/-- `strings.TrimRight(text, "=")`. -/
def trimPadding (text : Bytes) : Bytes := (text.reverse.dropWhile (· = Base64.pad)).reverse

def paperURI (paperPacked : Bytes) : Except PaperError Bytes :=
  if paperPacked.length = 0 then .error .empty
  else if paperMDU < paperPacked.length then .error (.tooLong paperPacked.length)
  else .ok (uriSchemaPrefix ++ trimPadding (Base64.encode paperPacked))

def decodePaper (encoded : Bytes) : Except PaperError Bytes :=
  if encoded = [] then .error .empty
  else
    let encoded := trimPadding encoded
    let padding := if encoded.length % 4 = 0 then 0 else 4 - encoded.length % 4
    match Base64.decode (encoded ++ replicate padding Base64.pad) with
    | none => .error .base64
    | some decoded => if paperMDU < decoded.length then .error (.tooLong decoded.length) else .ok decoded

def decodePaperURI (uri : Bytes) : Except PaperError Bytes :=
  if uriSchemaPrefix.isPrefixOf uri then decodePaper (uri.drop uriSchemaPrefix.length) else .error .noScheme

def toLower (c : UInt8) : UInt8 := if 0x41 ≤ c ∧ c ≤ 0x5a then c + 0x20 else c

/-- The bytes that `IngestLXMURI` hands on. Only the first characters of the lower-case text are compared, and no other
than L, X and M becomes one of l, x and m. -/
def ingestLXMURI (uri : Bytes) : Option Bytes :=
  if uriSchemaPrefix.isPrefixOf (uri.map toLower) then
    let encoded := (uri.drop uriSchemaPrefix.length).filter (· ≠ 0x2f)
    match decodePaperURI (uriSchemaPrefix ++ encoded) with
    | .error _ => none
    | .ok data => if data.length = 0 then none else some data
  else none

/-- The second text is the first one with slashes put in. -/
inductive Slashed : Bytes → Bytes → Prop where
  | nil : Slashed [] []
  | keep (c : UInt8) {text slashed : Bytes} (rest : Slashed text slashed) : Slashed (c :: text) (c :: slashed)
  | slash {text slashed : Bytes} (rest : Slashed text slashed) : Slashed text (0x2f :: slashed)

theorem Slashed.filter_eq {text slashed : Bytes} (put : Slashed text slashed) :
    slashed.filter (· ≠ 0x2f) = text.filter (· ≠ 0x2f) := by
  induction put with
  | nil => rfl
  | keep c rest ih => rw [filter_cons, filter_cons, ih]
  | slash rest ih => rw [filter_cons_of_neg (by decide), ih]

/-- Trimming takes all the padding away, and what is appended again completes it. -/
theorem trimPadding_append {text : Bytes} (plain : Base64.pad ∉ text) (count : Nat) :
    trimPadding (text ++ replicate count Base64.pad) = text := by
  rw [trimPadding, reverse_append, reverse_replicate,
    dropWhile_append_of_pos (by simp [mem_replicate]), dropWhile_eq_self_iff.2, reverse_reverse]
  intro nonempty
  simp only [decide_eq_true_eq]
  intro same
  exact plain (mem_reverse.1 (same ▸ getElem_mem nonempty))

section
variable {x : Bytes} (long : 1 ≤ x.length) (fits : x.length ≤ paperMDU)
include long fits

theorem decodePaper_encode : decodePaper (trimPadding (Base64.encode x)) = .ok x ∧
    (trimPadding (Base64.encode x)).length = (4 * x.length + 2) / 3 ∧ 0x2f ∉ trimPadding (Base64.encode x) := by
  obtain ⟨text, count, form, few, alphabet, length, whole⟩ := Base64.encode_padded x
  have other {c : UInt8} (unknown : Base64.index c = none) : c ∉ text := by
    intro member
    obtain ⟨n, rfl⟩ := alphabet c member
    rw [Base64.index_char] at unknown
    contradiction
  have plain : Base64.pad ∉ text := other rfl
  have padding : (if text.length % 4 = 0 then 0 else 4 - text.length % 4) = count := by
    split
    · omega
    · omega
  have decoded : Base64.decode (text ++ replicate count Base64.pad) = some x := by
    rw [Base64.decode, filter_eq_self.2, ← form, Base64.decodeQuanta_encode]
    intro c member
    rcases mem_append.1 member with inside | behind
    · simp only [decide_eq_true_eq]
      exact ⟨fun same => other rfl (same ▸ inside), fun same => other rfl (same ▸ inside)⟩
    · rw [eq_of_mem_replicate behind]
      rfl
  rw [form, trimPadding_append plain]
  refine ⟨?_, length, other rfl⟩
  have nonempty : text ≠ [] := by
    rintro rfl
    rw [length_nil] at length
    omega
  have trimmed : trimPadding text = text := by simpa using trimPadding_append plain 0
  rw [decodePaper, if_neg nonempty]
  simp only [trimmed, padding, decoded, if_neg (not_lt.2 fits)]

end

/-- Whether a text has a scheme is seen in its first characters. -/
theorem isPrefixOf_append {scheme head : Bytes} (rest : Bytes) (same : head.length = scheme.length) :
    scheme.isPrefixOf (head ++ rest) = decide (scheme = head) := by
  rw [Bool.eq_iff_iff, isPrefixOf_iff_prefix, decide_eq_true_eq]
  constructor
  · intro found
    exact (prefix_of_prefix_length_le found (prefix_append head rest) same.ge).eq_of_length same.symm
  · rintro rfl
    exact prefix_append _ _

/-- A paper message comes back from its URI, which fits the QR code, and slashes and capitals make no difference. -/
theorem paperURI_read (x : Bytes) (long : 1 ≤ x.length) (fits : x.length ≤ paperMDU) :
    (∃ uri, paperURI x = .ok uri ∧ decodePaperURI uri = .ok x ∧ uri.length ≤ qrMaxStorage ∧
      ingestLXMURI uri = some x) ∧
    ∀ scheme scheme' payload payload' : Bytes, scheme.length = uriSchemaPrefix.length →
      scheme'.map toLower = scheme.map toLower → Slashed payload payload' →
        ingestLXMURI (scheme' ++ payload') = ingestLXMURI (scheme ++ payload) := by
  obtain ⟨decoded, length, plain⟩ := decodePaper_encode long fits
  constructor
  · have read : decodePaperURI (uriSchemaPrefix ++ trimPadding (Base64.encode x)) = .ok x := by
      rw [decodePaperURI, isPrefixOf_append _ rfl, decide_eq_true rfl, if_pos rfl, drop_left, decoded]
    refine ⟨_, ?_, read, ?_, ?_⟩
    · rw [paperURI, if_neg (by omega), if_neg (not_lt.2 fits)]
    · have mdu : paperMDU = (qrMaxStorage - uriSchemaPrefix.length) * 6 / 8 := by decide
      have scheme : uriSchemaPrefix.length = 6 := by decide
      rw [scheme] at mdu
      rw [length_append, length, scheme]
      rw [qrMaxStorage] at mdu ⊢
      omega
    · have lower : uriSchemaPrefix.map toLower = uriSchemaPrefix := by decide
      rw [ingestLXMURI, map_append, lower, isPrefixOf_append _ rfl, decide_eq_true rfl, if_pos rfl, drop_left,
        filter_eq_self.2]
      · simp only [read, if_neg (show x.length ≠ 0 by omega)]
      · intro c member
        exact decide_eq_true fun same => plain (same ▸ member)
  · intro scheme scheme' payload payload' six same slashed
    have six' : scheme'.length = uriSchemaPrefix.length := by
      rw [← six]
      simpa using congrArg List.length same
    rw [ingestLXMURI, ingestLXMURI, map_append, map_append, isPrefixOf_append _ (by rw [length_map, six']),
      isPrefixOf_append _ (by rw [length_map, six]), same, drop_left' six', drop_left' six,
      slashed.filter_eq]

/-- A URI in capitals with a slash in its payload. -/
theorem paperURI_read_hi : paperURI (ascii "hi") = .ok (ascii "lxm://aGk") ∧
    ingestLXMURI (ascii "LXM://aG/k") = some (ascii "hi") := by
  have read := paperURI_read (ascii "hi") (by decide) (by decide)
  obtain ⟨uri, made, -, -, ingested⟩ := read.1
  have written : paperURI (ascii "hi") = .ok (ascii "lxm://aGk") := by decide +kernel
  rw [written, Except.ok.injEq] at made
  subst made
  exact ⟨written, (read.2 (ascii "lxm://") (ascii "LXM://") (ascii "aGk") (ascii "aG/k") rfl (by decide)
    (.keep _ (.keep _ (.slash (.keep _ .nil))))).trans ingested⟩

end ReticulumProtocols.Lxmf
