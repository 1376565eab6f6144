import ReticulumProtocols.Wire.BigEndian

/-! MF messages: the hash of the sender, the hash of a group for some, and a text. A Go string is any sequence of bytes,
and a hash that is nil is an empty one. -/

namespace ReticulumProtocols.Mf
open Wire List

def senderHashLength : Nat := 16
def maxMessageSize : Nat := 420
def groupFlagPresent : UInt8 := 0x01

inductive MfError where
  | invalidHashLength (expected got : Nat)
  | messageTooLong (max got : Nat)
  | messageTooShort (detail : String)
  | transport (reason : String)
  deriving DecidableEq, Repr

/-- `Error`. -/
def MfError.message : MfError → String
  | .invalidHashLength expected got => s!"invalid hash length: expected {expected}, got {got}"
  | .messageTooLong max got => s!"message text too long: max {max}, got {got}"
  | .messageTooShort detail => "message too short: " ++ detail
  | .transport reason => reason

structure Message where
  senderHash : Bytes
  groupHash : Bytes := []
  text : Bytes
  deriving DecidableEq, Repr

namespace Message
variable (m : Message)

def validate : Except MfError Unit :=
  if m.senderHash.length ≠ senderHashLength then .error (.invalidHashLength senderHashLength m.senderHash.length)
  else if m.groupHash.length > 0 ∧ m.groupHash.length ≠ senderHashLength then
    .error (.invalidHashLength senderHashLength m.groupHash.length)
  else if m.text.length > maxMessageSize then .error (.messageTooLong maxMessageSize m.text.length)
  else .ok ()

def newMessageOwned (senderHash groupHash text : Bytes) : Except MfError Message := do
  let m : Message := { senderHash, groupHash, text }
  m.validate
  return m

def len : Nat :=
  if m.groupHash.length > 0 then senderHashLength + 1 + senderHashLength + m.text.length
  else senderHashLength + m.text.length

def pack : Except MfError Bytes := do
  m.validate
  if m.groupHash.length > 0 then return m.senderHash ++ groupFlagPresent :: m.groupHash ++ m.text
  else return m.senderHash ++ m.text

def unpack (data : Bytes) : Except MfError Message :=
  if data.length < senderHashLength then
    .error (.messageTooShort s!"minimum {senderHashLength} bytes for sender hash")
  else
    let senderHash := data.take senderHashLength
    let rest := data.drop senderHashLength
    if rest.head? = some groupFlagPresent then
      if rest.length < 1 + senderHashLength then .error (.messageTooShort "truncated group payload")
      else newMessageOwned senderHash ((rest.drop 1).take senderHashLength) (rest.drop (1 + senderHashLength))
    else newMessageOwned senderHash [] rest

end Message

section
variable {m m' : Message} {data : Bytes}

theorem Message.validate_eq_ok : m.validate = .ok () ↔ m.senderHash.length = senderHashLength ∧
    (m.groupHash = [] ∨ m.groupHash.length = senderHashLength) ∧ m.text.length ≤ maxMessageSize := by
  unfold validate
  rw [← length_eq_zero_iff]
  split_ifs with sender group long
  · exact iff_of_false (fun done => by cases done) fun fine => sender fine.1
  · exact iff_of_false (fun done => by cases done) fun fine => by omega
  · exact iff_of_false (fun done => by cases done) fun fine => by omega
  · exact iff_of_true rfl ⟨not_not.1 sender, by omega, by omega⟩

theorem Message.newMessageOwned_eq (valid : m.validate = .ok ()) :
    newMessageOwned m.senderHash m.groupHash m.text = .ok m := by
  change (m.validate >>= fun _ => .ok m) = .ok m
  rw [valid]
  rfl

theorem Message.pack_eq (valid : m.validate = .ok ()) :
    m.pack = .ok (m.senderHash ++ if m.groupHash = [] then m.text else groupFlagPresent :: (m.groupHash ++ m.text)) := by
  unfold pack
  rw [valid]
  by_cases group : m.groupHash = []
  · rw [if_pos group, group]
    rfl
  · have long : m.groupHash.length > 0 := length_pos_of_ne_nil group
    rw [if_neg group]
    change (if m.groupHash.length > 0 then _ else _) = _
    rw [if_pos long, append_assoc]
    rfl

/-- What follows the sender tells whether there is a group: its first byte is the flag only if there is one. -/
def Message.Unambiguous (m : Message) : Prop := m.groupHash = [] → m.text.head? ≠ some groupFlagPresent

instance : Decidable m.Unambiguous := by
  unfold Message.Unambiguous
  infer_instance

def Message.RoundTrips (m : Message) : Prop := ∃ data, m.pack = .ok data ∧ Message.unpack data = .ok m

theorem Message.unpack_append {sender rest : Bytes} (length : sender.length = senderHashLength) :
    unpack (sender ++ rest) =
      if rest.head? = some groupFlagPresent then
        if rest.length < 1 + senderHashLength then .error (.messageTooShort "truncated group payload")
        else newMessageOwned sender ((rest.drop 1).take senderHashLength) (rest.drop (1 + senderHashLength))
      else newMessageOwned sender [] rest := by
  have long : ¬ (sender ++ rest).length < senderHashLength := by
    rw [length_append]
    omega
  rw [unpack, if_neg long]
  dsimp only
  rw [← length, take_left, drop_left]

theorem Message.groupHash_of_newMessageOwned {sender group text : Bytes} (made : newMessageOwned sender group text = .ok m) :
    m.groupHash = group := by
  change (validate { senderHash := sender, groupHash := group, text } >>= fun _ => .ok _) = .ok m at made
  cases valid : validate { senderHash := sender, groupHash := group, text } with
  | error error =>
    rw [valid] at made
    cases made
  | ok done =>
    rw [valid] at made
    cases made
    rfl

theorem Message.roundTrips_iff (valid : m.validate = .ok ()) : m.RoundTrips ↔ m.Unambiguous := by
  obtain ⟨sender, group, -⟩ := validate_eq_ok.1 valid
  unfold RoundTrips
  rw [pack_eq valid]
  simp only [Except.ok.injEq, exists_eq_left', unpack_append sender]
  by_cases grouped : m.groupHash = []
  case pos =>
    rw [if_pos grouped]
    by_cases flagged : m.text.head? = some groupFlagPresent
    case pos =>
      rw [if_pos flagged]
      refine iff_of_false (fun same => ?_) fun fine => fine grouped flagged
      split at same
      next => cases same
      next long =>
        have length := congrArg List.length (groupHash_of_newMessageOwned same)
        rw [grouped, length_take, length_drop] at length
        have width : senderHashLength = 16 := rfl
        simp only [length_nil] at length
        omega
    case neg =>
      rw [if_neg flagged, ← grouped]
      exact iff_of_true (newMessageOwned_eq valid) fun _ => flagged
  case neg =>
    have length : m.groupHash.length = senderHashLength := group.resolve_left grouped
    have whole : ¬ (groupFlagPresent :: (m.groupHash ++ m.text)).length < 1 + senderHashLength := by
      rw [length_cons, length_append]
      omega
    rw [if_neg grouped, List.head?_cons, if_pos rfl, if_neg whole]
    have hash : ((groupFlagPresent :: (m.groupHash ++ m.text)).drop 1).take senderHashLength = m.groupHash := by
      rw [← length]
      exact take_left
    have text : (groupFlagPresent :: (m.groupHash ++ m.text)).drop (1 + senderHashLength) = m.text := by
      rw [← length, Nat.add_comm, drop_succ_cons, drop_left]
    rw [hash, text]
    exact iff_of_true (newMessageOwned_eq valid) fun none => absurd none grouped

/-- Valid messages are read back, and no two of them are written alike, exactly as far as no text without a group starts
with the flag of a group. -/
theorem pack_unambiguous (valid : m.validate = .ok ()) (valid' : m'.validate = .ok ()) :
    (m.RoundTrips ∧ m'.RoundTrips ∧ (m.pack = m'.pack → m = m')) ↔ (m.Unambiguous ∧ m'.Unambiguous) := by
  rw [Message.roundTrips_iff valid, Message.roundTrips_iff valid']
  refine ⟨fun ⟨first, second, _⟩ => ⟨first, second⟩, fun ⟨first, second⟩ => ⟨first, second, fun same => ?_⟩⟩
  obtain ⟨data, packed, read⟩ := (Message.roundTrips_iff valid).2 first
  obtain ⟨data', packed', read'⟩ := (Message.roundTrips_iff valid').2 second
  rw [packed, packed', Except.ok.injEq] at same
  rw [same, read', Except.ok.injEq] at read
  exact read.symm

end

/-- A message to a group, and one without a group whose text starts with the same bytes. -/
def grouped : Message where
  senderHash := replicate 16 7
  groupHash := replicate 16 9
  text := [104, 105]

def ungrouped : Message where
  senderHash := replicate 16 7
  text := groupFlagPresent :: (replicate 16 9 ++ [104, 105])

theorem pack_unambiguous_grouped : grouped.RoundTrips ∧ { ungrouped with text := [104, 105] }.RoundTrips ∧
    (grouped.pack = { ungrouped with text := [104, 105] }.pack → grouped = { ungrouped with text := [104, 105] }) :=
  (pack_unambiguous (by decide) (by decide)).2 (by decide)

theorem pack_ambiguous : grouped.validate = .ok () ∧ ungrouped.validate = .ok () ∧ grouped ≠ ungrouped ∧
    grouped.pack = ungrouped.pack ∧ ¬ ungrouped.RoundTrips := by
  have valid : ungrouped.validate = .ok () := by decide
  refine ⟨by decide, valid, by decide, by decide, ?_⟩
  rw [Message.roundTrips_iff valid]
  decide

/-! Sending. -/

def mtu : Nat := 500

/-- What the network library does for `sendPacked`: encryption with an ephemeral key, an initialisation vector, whole
blocks and an authentication code, and the header of a packet. -/
structure Network where
  encrypt : Bytes → Except MfError Bytes
  header : Bytes → Bytes
  length_encrypt : ∀ {payload encrypted}, encrypt payload = .ok encrypted →
    encrypted.length = 32 + 16 + 16 * (payload.length / 16 + 1) + 32
  length_header : ∀ destHash, (header destHash).length = 19

/-- `sendPacked` as far as the packet that it hands to the transport. -/
def sendPacked (net : Network) (destHash : Bytes) (m : Message) : Except MfError Bytes := do
  let payload ← m.pack
  let encrypted ← net.encrypt payload
  return net.header destHash ++ encrypted

def Message.room (m : Message) : Nat := if m.groupHash = [] then 383 else 366

theorem Message.length_pack {m : Message} {payload : Bytes} (packed : m.pack = .ok payload)
    (valid : m.validate = .ok ()) : payload.length = m.len := by
  obtain ⟨sender, group, -⟩ := validate_eq_ok.1 valid
  rw [pack_eq valid, Except.ok.injEq] at packed
  rw [← packed, len, length_append, sender]
  by_cases grouped : m.groupHash = []
  · rw [if_pos grouped, grouped]
    rfl
  · have length := group.resolve_left grouped
    have long : m.groupHash.length > 0 := length_pos_of_ne_nil grouped
    rw [if_neg grouped, if_pos long, length_cons, length_append]
    omega

theorem length_sendPacked {net : Network} {destHash : Bytes} {m : Message} (valid : m.validate = .ok ()) {raw : Bytes}
    (built : sendPacked net destHash m = .ok raw) :
    raw.length = 19 + (32 + 16 + 16 * (m.len / 16 + 1) + 32) := by
  have packed := Message.pack_eq valid
  have length := Message.length_pack packed valid
  generalize m.senderHash ++ _ = payload at packed length
  change (m.pack >>= fun payload => net.encrypt payload >>= fun encrypted => .ok (net.header destHash ++ encrypted)) =
    .ok raw at built
  rw [packed] at built
  change (net.encrypt payload >>= fun encrypted => .ok (net.header destHash ++ encrypted)) = .ok raw at built
  cases encryption : net.encrypt payload with
  | error error =>
    rw [encryption] at built
    cases built
  | ok encrypted =>
    rw [encryption] at built
    cases built
    rw [length_append, net.length_header, net.length_encrypt encryption, length]

/-- The packet fits for fewer texts than `validate` lets through: an allowance of 64 bytes is less than what encryption
adds. -/
theorem sendPacked_fits (net : Network) (destHash : Bytes) {m : Message} (valid : m.validate = .ok ()) {raw : Bytes}
    (built : sendPacked net destHash m = .ok raw) : raw.length ≤ mtu ↔ m.text.length ≤ m.room := by
  rw [length_sendPacked valid built, Message.len, Message.room, mtu]
  by_cases grouped : m.groupHash = []
  · have short : ¬ m.groupHash.length > 0 := by simp [grouped]
    rw [if_pos grouped, if_neg short, senderHashLength]
    omega
  · have long : m.groupHash.length > 0 := length_pos_of_ne_nil grouped
    rw [if_neg grouped, if_pos long, senderHashLength]
    omega

/-- A network whose encryption is of the right length. -/
def blank : Network where
  encrypt payload := .ok (replicate (32 + 16 + 16 * (payload.length / 16 + 1) + 32) 0)
  header _ := replicate 19 0
  length_encrypt done := by
    cases done
    exact length_replicate
  length_header _ := length_replicate

theorem sendPacked_fits_short : ∃ raw, sendPacked blank (replicate 16 3) grouped = .ok raw ∧ raw.length ≤ mtu := by
  have valid : grouped.validate = .ok () := by decide
  exact ⟨_, rfl, (sendPacked_fits blank (replicate 16 3) valid rfl).2 (by decide)⟩

/-- The longest valid text. -/
def longest : Message where
  senderHash := replicate 16 7
  text := replicate 420 104

theorem sendPacked_too_long : longest.validate = .ok () ∧
    ∃ raw, sendPacked blank (replicate 16 3) longest = .ok raw ∧ mtu < raw.length := by
  have text : longest.text.length = 420 := length_replicate
  have valid : longest.validate = .ok () := Message.validate_eq_ok.2 ⟨rfl, .inl rfl, text.le⟩
  have built : ∃ raw, sendPacked blank (replicate 16 3) longest = .ok raw := by
    change ∃ raw, (longest.pack >>= fun payload => .ok _) = .ok raw
    rw [Message.pack_eq valid]
    exact ⟨_, rfl⟩
  obtain ⟨raw, built⟩ := built
  refine ⟨valid, raw, built, ?_⟩
  rw [length_sendPacked valid built, Message.len, text]
  decide

end ReticulumProtocols.Mf
