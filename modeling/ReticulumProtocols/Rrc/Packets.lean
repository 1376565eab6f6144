import ReticulumProtocols.Rrc.EnvelopeCodec
import ReticulumProtocols.Rrc.Relay

/-! The hub sends an envelope as one packet of a link. Exact sizes of what it relays and of the JOINED it confirms a
JOIN with tell when that is possible. -/

namespace ReticulumProtocols.Rrc
open Wire Lxmf Index Cbor Concurrency List

/-- The bytes that one packet of a link carries. -/
def linkCapacity : Nat := 431

namespace Envelope
variable (e : Envelope)

/-- `Marshal` gives the envelope in a form that fits in one packet, whatever calls there were before. -/
def OnePacket : Prop := ∀ (calls : List MarshalCall) (call : MarshalCall), call.env = e → call.fault = none →
  ∃ raw, (marshal (history calls) call).2 = .ok raw ∧ raw.length ≤ linkCapacity

/-- The packet is also read back by the decoder on the other side. -/
def Confirms : Prop := ∀ (calls : List MarshalCall) (call : MarshalCall), call.env = e → call.fault = none →
  ∃ raw, (marshal (history calls) call).2 = .ok raw ∧ raw.length ≤ linkCapacity ∧ unmarshalEnvelope raw = .ok e

/-- The bytes of a field with a text. -/
def textSize : Option Text → Nat
  | none => 0
  | some text => 1 + headSize (byteLength text) + byteLength text

def bodySize : Option Value → Nat
  | none => 0
  | some body => 1 + (encode body).length

variable {e}

theorem framed_of_plain (version : e.version = protocolVersion) (msgID : e.msgID.length = messageIDLength)
    (sender : e.sender.length = identityLength) (plain : e.destination = none) : e.Framed :=
  ⟨version, msgID, sender, fun hash given => by rw [plain] at given; cases given⟩

theorem onePacket_iff (framed : e.Framed) : e.OnePacket ↔ e.size ≤ linkCapacity := by
  constructor
  · intro fits
    obtain ⟨raw, written, short⟩ := fits [] { env := e } rfl rfl
    rw [← Except.ok.inj ((marshal_framed [] framed rfl).symm.trans written), e.encodeFields_length] at short
    exact short
  · rintro short calls call rfl encodes
    refine ⟨_, marshal_framed calls framed encodes, ?_⟩
    rw [encodeFields_length]
    exact short

theorem Confirms.onePacket (confirms : e.Confirms) : e.OnePacket := by
  intro calls call own encodes
  obtain ⟨raw, written, short, _⟩ := confirms calls call own encodes
  exact ⟨raw, written, short⟩

theorem confirms_iff (framed : e.Framed)
    (fits : e.size ≤ linkCapacity → ∀ body ∈ e.body, Fits decoderLimits false 7 body) :
    e.Confirms ↔ e.size ≤ linkCapacity := by
  constructor
  · exact fun confirms => (onePacket_iff framed).1 confirms.onePacket
  · rintro short calls call rfl encodes
    refine ⟨_, marshal_framed calls framed encodes, ?_, ?_⟩
    · rw [encodeFields_length]
      exact short
    · exact unmarshalEnvelope_encodeFields ⟨framed, fits short⟩ call.visit (short.trans (by decide))

theorem encode_text_length (text : Text) :
    (encode (.text text)).length = headSize (byteLength text) + byteLength text := by
  rw [encode, encodeScalar, length_append, encodeHead_length, utf8_length, byteLength]

theorem encode_bytes_length (data : Bytes) : (encode (.bytes data)).length = headSize data.length + data.length := by
  rw [encode, encodeScalar, length_append, encodeHead_length]

theorem encode_uint_length (n : UInt64) : (encode (.uint n)).length = headSize n.toNat := by
  rw [encode, encodeScalar, encodeHead_length]

theorem size_eq (framed : e.Framed) (short : e.type.code.toNat < 24) (plain : e.destination = none) : e.size =
    34 + headSize e.timestamp.toNat + textSize e.room + bodySize e.body + textSize e.nick := by
  have count : headSize e.fields.length = 1 := by
    have keys := e.keys_sublist.length_le
    rw [length_map] at keys
    exact if_pos (lt_of_le_of_lt keys (by decide))
  have room : ((e.room.toList.map fun room => (keyRoom, .text room)).map weight).sum = textSize e.room := by
    cases e.room with
    | none => rfl
    | some room => simp [weight, textSize, encode_text_length, keyRoom, headSize, add_assoc]
  have body : ((e.body.toList.map fun body => (keyBody, body)).map weight).sum = bodySize e.body := by
    cases e.body with
    | none => rfl
    | some body => simp [weight, bodySize, keyBody, headSize]
  have nick : ((e.nick.toList.map fun nick => (keyNick, .text nick)).map weight).sum = textSize e.nick := by
    cases e.nick with
    | none => rfl
    | some nick => simp [weight, textSize, encode_text_length, keyNick, headSize, add_assoc]
  have fixed : ([(keyVersion, .uint e.version), (keyType, .uint e.type.code), (keyMsgID, .bytes e.msgID),
      (keyTimestamp, .uint e.timestamp), (keySender, .bytes e.sender)].map weight).sum =
        33 + headSize e.timestamp.toNat := by
    simp only [map_cons, map_nil, sum_cons, sum_nil, weight, encode_uint_length,
      encode_bytes_length, framed.version, framed.msgID, framed.sender]
    have type : headSize e.type.code.toNat = 1 := if_pos short
    rw [type]
    change 1 + 1 + (1 + 1 + (1 + (1 + 8) + (1 + headSize e.timestamp.toNat + (1 + (1 + 16) + 0)))) = _
    omega
  rw [size, count, fields, plain]
  simp only [map_append, sum_append, room, body, nick, fixed, Option.toList_none, map_nil, sum_nil]
  omega
end Envelope

namespace Hub
variable {c : HubConfig} {h : Hub} {p : Nat} {env : Envelope}

/-- The size of the copy of an envelope that a room receives. -/
def copySize (c : HubConfig) (h : Hub) (p : Nat) (env : Envelope) : Nat :=
  34 + headSize env.timestamp.toNat + Envelope.textSize (some (c.unicode.normalizeRoom (env.room.getD []))) +
    Envelope.bodySize env.body +
    Envelope.textSize (if (h.records p).nickAfter c env = [] then none else some ((h.records p).nickAfter c env))

theorem copyFor_framed (ready : (h.records p).ready = true) (id : env.msgID.length = messageIDLength) :
    (h.copyFor c p env).Framed := Envelope.framed_of_plain rfl id (of_decide_eq_true ready) rfl

theorem size_copyFor (content : env.Content) (ready : (h.records p).ready = true)
    (id : env.msgID.length = messageIDLength) : (h.copyFor c p env).size = h.copySize c p env := by
  have short : env.type.code.toNat < 24 := by
    rcases content with type | type | type <;> rw [type] <;> decide
  exact Envelope.size_eq (copyFor_framed ready id) short rfl

end Hub

def longName : Text := replicate 20 'r'

def namedMember : List HubEvent :=
  opened 0 3 someHash ++ handled 1 9 0 { inbound .hello with nick := some (replicate 32 'n') } ++
    handled 2 6 0 { inbound .join with room := some longName }

/-- A message of 419 bytes without a nickname. -/
def longMessage : Envelope :=
  { inbound .msg with timestamp := 1700000000000, room := some longName, body := some (.text (replicate 350 'x')) }

namespace Hub
variable {c : HubConfig} {a : Answer} {h : Hub} {p : Nat} {room : Text}

/-- The number of registered identities in a room once `p` is a member. -/
def registeredWith (h : Hub) (p : Nat) (room : Text) : Nat :=
  ((h.rooms.members room).insert (h.records p).key ()).keys.countP fun key => (h.peers.lookup key).isSome

/-- The size of the JOINED for a peer that is recorded at a time. -/
def joinedSize (now : Int) (h : Hub) (p : Nat) (room : Text) : Nat :=
  let members := h.registeredWith p room
  34 + headSize (unixMilli now).toNat + Envelope.textSize (some room) +
    if members = 0 then 0 else 1 + headSize members + 17 * members

theorem length_hashes (keys : List Bytes) :
    (h.hashes keys).length = keys.countP fun key => (h.peers.lookup key).isSome := by
  unfold hashes
  rw [length_filterMap_eq_countP]
  simp only [Option.isSome_map]

theorem hashes_length (keyed : h.Keyed) {keys : List Bytes} {hash : Bytes} (listed : hash ∈ h.hashes keys) :
    hash.length = identityLength := by
  obtain ⟨key, _, found⟩ := mem_filterMap.1 listed
  obtain ⟨p, registered, rfl⟩ := Option.map_eq_some_iff.1 found
  exact of_decide_eq_true (keyed key p registered).1

theorem encode_members_length {members : List Bytes} (valid : ∀ hash ∈ members, hash.length = identityLength) :
    (encode (.arr (members.map .bytes))).length = headSize members.length + 17 * members.length := by
  have items : ((members.map Value.bytes).map fun item => (encode item).length) = members.map fun _ => 17 := by
    rw [map_map]
    apply map_congr_left
    intro hash listed
    rw [Function.comp_apply, Envelope.encode_bytes_length, valid hash listed]
    rfl
  rw [encode, length_append, encodeHead_length, encodeItems_length, items, length_map]
  simp [Nat.mul_comm]

theorem members_join : (h.join p room).rooms.members room = (h.rooms.members room).insert (h.records p).key () := by
  unfold join SetIndex.add
  rw [SetIndex.members_insert, if_pos rfl]

theorem hashes_join (keys : List Bytes) : (h.join p room).hashes keys = h.hashes keys := by
  unfold hashes
  have hash := hash_join (h := h) (p := p) room
  simp only [hash]
  rfl

theorem sent_joinTurn (keyed : h.Keyed) (lists : c.includeMemberList = true) (absent : room ∉ (h.records p).rooms)
    (space : (h.records p).rooms.keys.length < c.limits.maxRoomsPerSession) :
    ∃ others members, h.joinTurn c a p room = {
        hub := h.join p room
        sent := others ++ [⟨p, typedEnvelope c a 1 .joined room
          (if members ≠ [] then some (.arr (members.map .bytes)) else none) []⟩] } ∧
      (∀ out ∈ others, out.link ≠ p) ∧ (∀ hash ∈ members, hash.length = identityLength) ∧
      members.length = h.registeredWith p room := by
  refine ⟨((h.join p room).roomPeersLocked room (h.records p).key a.visit).map fun link =>
    ⟨link, typedEnvelope c a 0 .joined room (presence c (h.records p)) (h.records p).nick⟩,
    h.hashes (a.visit.run ((h.join p room).rooms.members room).keys), ?_, ?_, ?_, ?_⟩
  · unfold joinTurn
    simp only [if_neg (not_and_of_not_right _ (not_le.2 space)), if_neg absent, lists, true_and, hashes_join]
  · intro out member own
    obtain ⟨link, listens, rfl⟩ := mem_map.1 member
    obtain ⟨key, _, found⟩ := mem_filterMap.1 listens
    split at found
    next => cases found
    next other =>
      have registered : h.peers.lookup key = some link := (Option.filter_eq_some_iff.1 found).1
      exact other ((keyed key link registered).2.symm.trans (congrArg (fun q => (h.records q).key) own))
  · exact fun hash listed => hashes_length keyed listed
  · rw [length_hashes, (a.visit.perm _).countP_eq, members_join, registeredWith]

end Hub

section
variable {c : HubConfig} {a : Answer} {room : Text} {members : List Bytes}

theorem fits_members (few : members.length ≤ decoderLimits.maxArrayElements) :
    Fits decoderLimits false 7 (.arr (members.map .bytes)) := by
  refine .arr _ 6 _ (by rwa [length_map]) fun item listed => ?_
  obtain ⟨hash, _, rfl⟩ := mem_map.1 listed
  exact .scalar ..

def confirmation (c : HubConfig) (a : Answer) (room : Text) (members : List Bytes) : Envelope :=
  typedEnvelope c a 1 .joined room (if members ≠ [] then some (.arr (members.map .bytes)) else none) []

theorem confirmation_framed : (confirmation c a room members).Framed :=
  Envelope.framed_of_plain rfl (be_length _ _) c.sender.2 rfl

theorem body_confirmation :
    (confirmation c a room members).body = if members = [] then none else some (.arr (members.map .bytes)) := by
  unfold confirmation typedEnvelope
  by_cases empty : members = []
  · rw [if_neg (not_not.2 empty), if_pos empty]
    rfl
  · rw [if_pos empty, if_neg empty]
    rfl

theorem size_confirmation (named : room ≠ []) (valid : ∀ hash ∈ members, hash.length = identityLength) :
    (confirmation c a room members).size = 34 + headSize (unixMilli a.now).toNat + Envelope.textSize (some room) +
      if members.length = 0 then 0 else 1 + headSize members.length + 17 * members.length := by
  have name : (confirmation c a room members).room = some room := if_neg named
  have type : (confirmation c a room members).type.code.toNat < 24 := by
    change (11 : UInt64).toNat < 24
    decide
  rw [Envelope.size_eq confirmation_framed type rfl, name, body_confirmation]
  change _ + _ + Envelope.textSize (some room) + _ + 0 = _
  by_cases empty : members = []
  · rw [if_pos empty, if_pos (length_eq_zero_iff.2 empty)]
    rfl
  · rw [if_neg empty, if_neg (mt length_eq_zero_iff.1 empty), Envelope.bodySize, Hub.encode_members_length valid,
      Nat.add_assoc 1]
    rfl

theorem confirms_confirmation (named : room ≠ []) (valid : ∀ hash ∈ members, hash.length = identityLength) :
    (confirmation c a room members).Confirms ↔ (confirmation c a room members).size ≤ linkCapacity := by
  apply Envelope.confirms_iff confirmation_framed
  intro short body given
  rw [size_confirmation named valid, linkCapacity] at short
  rw [body_confirmation] at given
  split at given
  next => cases given
  next some =>
    cases given
    apply fits_members
    rw [if_neg (mt length_eq_zero_iff.1 some)] at short
    change _ ≤ 1024
    omega

end

/-- The JOINED for a peer that a hub with member lists records is one packet that the client can read, exactly if the
room's name and its registered members are short and few enough. -/
theorem joined_confirms_iff {c : HubConfig} (lists : c.includeMemberList = true) {events : List HubEvent}
    {m : HubMachine} (ran : ({} : HubMachine).run c events = some m) {p : Nat} {room : Text} (named : room ≠ [])
    (absent : room ∉ (m.hub.records p).rooms)
    (space : (m.hub.records p).rooms.keys.length < c.limits.maxRoomsPerSession) (a : Answer) :
    room ∈ ((m.hub.joinTurn c a p room).hub.records p).rooms ∧
      ∃ others joined, (m.hub.joinTurn c a p room).sent = others ++ [⟨p, joined⟩] ∧ joined.type = .joined ∧
        (∀ out ∈ others, out.link ≠ p) ∧ (joined.Confirms ↔ m.hub.joinedSize a.now p room ≤ linkCapacity) := by
  have keyed := (HubMachine.Sane.of_run ran).keyed
  obtain ⟨others, members, turn, apart, valid, count⟩ := Hub.sent_joinTurn (a := a) keyed lists absent space
  rw [turn]
  refine ⟨?_, others, _, rfl, rfl, apart, ?_⟩
  · rw [Hub.records_join, Hub.records_update]
    exact (AList.mem_insert _).2 (.inl rfl)
  have size := size_confirmation (c := c) (a := a) named valid
  rw [count] at size
  rw [← confirmation, confirms_confirmation named valid, size]
  rfl

def listingHub : HubConfig := { asciiHub with includeMemberList := true }

/-- Peers that join a room one after the other, each with a link and an identity of its own. -/
def crowd (room : Text) (count : Nat) : List HubEvent :=
  (range count).flatMap fun i => opened (3 * i) 1 (replicate identityLength (UInt8.ofNat i)) ++
    handled (3 * i + 1) 6 i (inbound .hello) ++ handled (3 * i + 2) 6 i { inbound .join with room := some room }

def fullName : Text := replicate 64 'r'

/-- A room with a name of 64 bytes, and a welcomed peer that is not in it. -/
def fullRoom (count : Nat) : List HubEvent :=
  crowd fullName count ++ opened (3 * count) 1 (replicate identityLength 200) ++
    handled (3 * count + 1) 6 count (inbound .hello)

/-- The time of a confirmation. -/
def lately : Answer := { now := 1700000000000000000 }

theorem joined_confirms_iff_two : ∃ m, ({} : HubMachine).run listingHub (fullRoom 1) = some m ∧
    ∃ others joined, (m.hub.joinTurn listingHub lately 1 fullName).sent = others ++ [⟨1, joined⟩] ∧
      joined.Confirms := by
  have reached : (({} : HubMachine).run listingHub (fullRoom 1)).any (fun m => fullName ∉ (m.hub.records 1).rooms ∧
      (m.hub.records 1).rooms.keys.length < listingHub.limits.maxRoomsPerSession ∧
      m.hub.joinedSize lately.now 1 fullName ≤ linkCapacity) = true := by
    decide +kernel
  obtain ⟨m, ran, found⟩ := (Option.any_eq_true _ _).1 reached
  obtain ⟨absent, space, short⟩ := of_decide_eq_true found
  obtain ⟨_, others, joined, sent, _, _, confirms⟩ := joined_confirms_iff rfl ran (by decide) absent space lately
  exact ⟨m, ran, others, joined, sent, confirms.2 short⟩

/-- The nineteenth peer in a room becomes a member, and its JOINED does not fit in one packet. -/
theorem joined_not_confirms : byteLength fullName ≤ listingHub.limits.maxRoomNameBytes ∧
    ∃ m, ({} : HubMachine).run listingHub (fullRoom 18) = some m ∧
      fullName ∈ ((m.hub.joinTurn listingHub lately 18 fullName).hub.records 18).rooms ∧
      ∃ out ∈ (m.hub.joinTurn listingHub lately 18 fullName).sent,
        out.link = 18 ∧ out.env.type = .joined ∧ ¬out.env.Confirms := by
  refine ⟨by decide, ?_⟩
  have reached : (({} : HubMachine).run listingHub (fullRoom 18)).any (fun m =>
      fullName ∈ ((m.hub.joinTurn listingHub lately 18 fullName).hub.records 18).rooms ∧
      (m.hub.joinTurn listingHub lately 18 fullName).sent.any fun out => out.link = 18 ∧ out.env.type = .joined ∧
        out.env.version = protocolVersion ∧ out.env.msgID.length = messageIDLength ∧
        out.env.sender.length = identityLength ∧ out.env.destination.isNone ∧ linkCapacity < out.env.size) = true := by
    decide +kernel
  obtain ⟨m, ran, found⟩ := (Option.any_eq_true _ _).1 reached
  obtain ⟨recorded, sent⟩ := of_decide_eq_true found
  obtain ⟨out, member, found⟩ := any_eq_true.1 sent
  obtain ⟨link, type, version, id, sender, plain, large⟩ := of_decide_eq_true found
  have framed := Envelope.framed_of_plain version id sender (Option.isNone_iff_eq_none.1 plain)
  refine ⟨m, ran, recorded, out, member, link, type, fun confirms => ?_⟩
  exact absurd ((Envelope.onePacket_iff framed).1 confirms.onePacket) (not_le.2 large)

end ReticulumProtocols.Rrc
