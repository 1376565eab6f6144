import ReticulumProtocols.Rrc.Packets
import ReticulumProtocols.Wire.Lists

/-! The daemon splits the text of a notice at its line breaks, and a line into chunks that end where a character does.
The chunks lose nothing; the envelopes that carry them can be larger than a packet of a link. -/

namespace ReticulumProtocols.Gorrcd
open Wire Cbor Lxmf Rrc List

def maxNoticeChunk : Nat := 512

def validString (data : Bytes) : Bool := (ofUtf8 data).isSome

/-- The inner loop: from `n` down to the end of a valid text. -/
def cutFrom (line : Bytes) : Nat → Nat
  | 0 => 0
  | n + 1 => if validString (line.take (n + 1)) then n + 1 else cutFrom line n

def cut (line : Bytes) : Nat := cutFrom line (min maxNoticeChunk line.length)

section
variable {line : Bytes}

theorem cutFrom_spec (line : Bytes) (n : Nat) : cutFrom line n ≤ n ∧
    (cutFrom line n ≠ 0 → validString (line.take (cutFrom line n)) = true) ∧
    ∀ m ≤ n, validString (line.take m) = true → m ≤ cutFrom line n := by
  induction n with
  | zero => exact ⟨le_rfl, fun positive => absurd rfl positive, fun m bound _ => bound⟩
  | succ n ih =>
    obtain ⟨bound, valid, greatest⟩ := ih
    rw [cutFrom]
    split
    next whole => exact ⟨le_rfl, fun _ => whole, fun m bound _ => bound⟩
    next broken =>
      refine ⟨bound.trans n.le_succ, valid, fun m most ends => greatest m ?_ ends⟩
      apply Nat.le_of_lt_succ (most.lt_of_ne _)
      rintro rfl
      exact broken ends

theorem cut_le (line : Bytes) : cut line ≤ maxNoticeChunk ∧ cut line ≤ line.length :=
  le_min_iff.1 (cutFrom_spec line _).1

/-- The loop over one line. -/
def chunks (line : Bytes) : List Bytes :=
  if cut line = 0 then [] else line.take (cut line) :: chunks (line.drop (cut line))
termination_by line.length
decreasing_by
  have shorter := (cut_le line).2
  rw [length_drop]
  omega

/-- The texts that `notice` asks the hub to send. -/
def notice (text : Bytes) : List Bytes :=
  if text = [] then [] else (text.splitOn 0x0a).flatMap fun line => if line = [] then [] else chunks line

theorem validString_iff {data : Bytes} : validString data = true ↔ ∃ text, data = utf8 text := by
  rw [validString, ofUtf8, Option.isSome_map, ByteArray.isSome_utf8Decode?_iff]
  constructor
  · rintro ⟨text, encoded⟩
    exact ⟨text, toByteArray_inj.1 encoded⟩
  · rintro ⟨text, rfl⟩
    exact ⟨text, rfl⟩

theorem validString_utf8 (text : List Char) : validString (utf8 text) = true := validString_iff.2 ⟨text, rfl⟩

theorem validString_append_iff (text : List Char) (rest : Bytes) :
    validString (utf8 text ++ rest) = true ↔ validString rest = true := by
  induction text with
  | nil => rfl
  | cons c text ih =>
    have split : (utf8 (c :: text) ++ rest).toByteArray = [c].utf8Encode ++ (utf8 text ++ rest).toByteArray := by
      change _ = (utf8 [c]).toByteArray ++ _
      rw [← toByteArray_append, utf8, utf8, utf8, flatMap_cons, flatMap_singleton, append_assoc]
    rw [← ih]
    simp only [validString, ofUtf8, Option.isSome_map, ByteArray.isSome_utf8Decode?_iff, split,
      ByteArray.isValidUTF8_utf8Encode_singleton_append_iff]

/-- A character takes at most four bytes, so that a chunk always ends behind one. -/
theorem cut_pos {text : List Char} (some : text ≠ []) : cut (utf8 text) ≠ 0 := by
  obtain ⟨c, text, rfl⟩ := exists_cons_of_ne_nil some
  have first : (utf8 (c :: text)).take c.utf8Size = utf8 [c] := by
    rw [utf8, utf8, flatMap_cons, flatMap_singleton]
    exact take_left' (String.length_utf8EncodeChar c)
  have size : c.utf8Size ≤ min maxNoticeChunk (utf8 (c :: text)).length := by
    have four := c.utf8Size_le_four
    rw [utf8_length, map_cons, sum_cons, maxNoticeChunk]
    omega
  have positive := c.utf8Size_pos
  have reached := (cutFrom_spec _ _).2.2 _ size (by rw [first]; exact validString_utf8 [c])
  rw [cut]
  omega

theorem chunks_bounded (line : Bytes) : ∀ chunk ∈ chunks line, chunk.length ≤ maxNoticeChunk ∧ validString chunk = true := by
  induction line using chunks.induct with
  | case1 line ends => rw [chunks, if_pos ends]; exact nofun
  | case2 line goes ih =>
    rw [chunks, if_neg goes]
    rintro chunk (_ | ⟨_, later⟩)
    · exact ⟨(length_take_le _ _).trans (cut_le line).1, (cutFrom_spec line _).2.1 goes⟩
    · exact ih chunk later

theorem chunks_flatten (text : List Char) : (chunks (utf8 text)).flatten = utf8 text := by
  generalize same : utf8 text = line
  induction line using chunks.induct generalizing text with
  | case1 line ends =>
    have empty : text = [] := not_not.1 fun some => cut_pos some (same ▸ ends)
    rw [chunks, if_pos ends, ← same, empty]
    rfl
  | case2 line goes ih =>
    obtain ⟨first, start⟩ := validString_iff.1 ((cutFrom_spec line _).2.1 goes)
    have whole := take_append_drop (cut line) line
    have valid : validString (utf8 first ++ line.drop (cut line)) = true := by
      rw [← start]
      exact whole.symm ▸ same ▸ validString_utf8 text
    obtain ⟨rest, left⟩ := validString_iff.1 ((validString_append_iff first _).1 valid)
    rw [chunks, if_neg goes, flatten_cons, ih rest left.symm, whole]

theorem newline_notMem {c : Char} (other : c ≠ '\n') : 0x0a ∉ String.utf8EncodeChar c := by
  have apart : c.val.toNat ≠ 10 := fun same => other (Char.ext (UInt32.toNat_inj.1 same))
  have ten : (0x0a : UInt8).toNat = 10 := rfl
  unfold String.utf8EncodeChar
  dsimp only
  split_ifs <;> simp only [mem_cons, not_mem_nil, or_false, ← UInt8.toNat_inj, UInt8.toNat_ofNat', ten] <;>
    omega

theorem validString_lines (text : List Char) : ∀ line ∈ (utf8 text).splitOn 0x0a, validString line = true := by
  induction text with
  | nil =>
    intro line member
    rw [utf8, flatMap_nil, splitOn_nil, mem_singleton] at member
    exact member ▸ validString_utf8 []
  | cons c text ih =>
    intro line member
    rw [utf8, flatMap_cons] at member
    by_cases newline : c = '\n'
    · rw [newline] at member
      rcases List.mem_cons.1 member with rfl | later
      · exact validString_utf8 []
      · exact ih line later
    · obtain ⟨first, rest, form⟩ := exists_cons_of_ne_nil (splitOn_ne_nil 0x0a (utf8 text))
      rw [splitOn_append (newline_notMem newline), show (text.flatMap _).splitOn (0x0a : UInt8) = _ from form,
        modifyHead_cons] at member
      rcases List.mem_cons.1 member with rfl | later
      · have char : String.utf8EncodeChar c = utf8 [c] := (flatMap_singleton _ _).symm
        rw [char, validString_append_iff]
        exact ih first (form ▸ mem_cons_self)
      · exact ih line (form ▸ mem_cons_of_mem first later)

theorem notice_eq (text : Bytes) : notice text = (text.splitOn 0x0a).flatMap chunks := by
  have empty : chunks [] = [] := by rw [chunks, if_pos (by rfl)]
  have lines : (fun line => if line = [] then [] else chunks line) = chunks := by
    funext line
    split
    next none => rw [none, empty]
    next => rfl
  rw [notice, lines]
  split
  next none => rw [none, splitOn_nil, flatMap_singleton, empty]
  next => rfl

theorem notice_bounded (text : Bytes) : ∀ chunk ∈ notice text, chunk.length ≤ maxNoticeChunk ∧ validString chunk = true := by
  intro chunk member
  rw [notice_eq] at member
  obtain ⟨line, -, piece⟩ := mem_flatMap.1 member
  exact chunks_bounded line chunk piece

end

/-- The chunks of a text are short and valid, and joined they are the text without its line breaks. -/
theorem notice_lossless (text : List Char) :
    (∀ chunk ∈ notice (utf8 text), chunk.length ≤ maxNoticeChunk ∧ validString chunk = true) ∧
      (notice (utf8 text)).flatten = (utf8 text).filter (· ≠ 0x0a) := by
  refine ⟨notice_bounded _, ?_⟩
  have whole : ∀ line ∈ (utf8 text).splitOn 0x0a, (chunks line).flatten = line := by
    intro line member
    obtain ⟨part, rfl⟩ := validString_iff.1 (validString_lines text line member)
    exact chunks_flatten part
  rw [notice_eq, ← flatten_splitOn]
  generalize (utf8 text).splitOn 0x0a = lines at whole
  induction lines with
  | nil => rfl
  | cons line lines ih =>
    obtain ⟨first, later⟩ := forall_mem_cons.1 whole
    rw [flatMap_cons, flatten_append, flatten_cons, first, ih later]

section
variable (c : HubConfig) (answers : Nat → Answer) (room : Rrc.Text)

/-- The envelope in which `SendNotice` puts a chunk. -/
def noticeEnvelope (i : Nat) (chunk : Bytes) : Envelope :=
  typedEnvelope c (answers i) 0 .notice room (some (.text ((ofUtf8 chunk).getD []))) []

/-- Each chunk is sent at a time and with a message id of its own. -/
def noticeEnvelopes (text : Bytes) : List Envelope := (notice text).mapIdx (noticeEnvelope c answers room)

/-- The bytes of the envelope around a chunk. -/
def noticeOverhead (i : Nat) : Nat :=
  35 + headSize (unixMilli (answers i).now).toNat + Envelope.textSize (if room = [] then none else some room)

variable {c answers room}

theorem noticeEnvelope_onePacket_iff (i : Nat) {chunk : Bytes} (valid : validString chunk = true) :
    (noticeEnvelope c answers room i chunk).OnePacket ↔
      noticeOverhead answers room i + headSize chunk.length + chunk.length ≤ linkCapacity := by
  obtain ⟨text, rfl⟩ := validString_iff.1 valid
  have framed : (noticeEnvelope c answers room i (utf8 text)).Framed :=
    Envelope.framed_of_plain rfl (be_length _ _) c.sender.2 rfl
  have body : Envelope.bodySize (noticeEnvelope c answers room i (utf8 text)).body =
      1 + (headSize (utf8 text).length + (utf8 text).length) := by
    rw [noticeEnvelope, ofUtf8_utf8, Option.getD_some, utf8_length]
    exact congrArg _ (Envelope.encode_text_length text)
  have type : EnvelopeType.notice.code.toNat < 24 := by decide
  rw [Envelope.onePacket_iff framed, Envelope.size_eq framed type rfl, body, noticeOverhead]
  change 34 + headSize (unixMilli (answers i).now).toNat + Envelope.textSize (if room = [] then none else some room) +
    _ + 0 ≤ _ ↔ _
  omega

theorem mem_noticeEnvelopes {text chunk : Bytes} {i : Nat} (found : chunk ∈ (notice text)[i]?) :
    noticeEnvelope c answers room i chunk ∈ noticeEnvelopes c answers room text := by
  apply mem_of_getElem? (i := i)
  rw [noticeEnvelopes, List.getElem?_mapIdx, found]
  rfl

end

end ReticulumProtocols.Gorrcd
