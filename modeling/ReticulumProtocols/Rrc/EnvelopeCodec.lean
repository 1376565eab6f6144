import ReticulumProtocols.Cbor.RoundTrip
import ReticulumProtocols.Rrc.Envelope

/-! What `Marshal` writes does not depend on the objects in its pools, and `UnmarshalEnvelope` reads it back. -/

namespace ReticulumProtocols.Rrc
open Wire Lxmf Cbor List AList
variable {pools : Pools}

namespace Envelope
variable (e : Envelope)

/-- The envelope has the version of the protocol and its identities have their lengths. -/
structure Framed : Prop where
  version : e.version = protocolVersion
  msgID : e.msgID.length = messageIDLength
  sender : e.sender.length = identityLength
  destination : ∀ destination ∈ e.destination, destination.length = identityLength

/-- The body keeps the limits of the decoder too, one level below the map of the envelope itself. -/
structure Valid : Prop extends e.Framed where
  body : ∀ body ∈ e.body, Fits decoderLimits false 7 body

/-- The map that `Marshal` encodes. -/
def toMap : GoMap UInt64 Value := e.fields.foldl (fun map field => map.insert field.1 field.2) ∅

def allKeys : List UInt64 :=
  [keyVersion, keyType, keyMsgID, keyTimestamp, keySender, keyRoom, keyBody, keyNick, keyDestination]

theorem keys_sublist : (e.fields.map Prod.fst).Sublist allKeys := by
  have some : ∀ {α : Type} (field : Option α) (write : α → Value) (key : UInt64),
      ((field.toList.map fun value => (key, write value)).map Prod.fst).Sublist [key] := by
    intro α field write key
    cases field with
    | none => exact nil_sublist _
    | some value => exact List.Sublist.refl _
  simp only [fields, map_append]
  exact (((List.Sublist.refl _).append (some _ _ _)).append (some _ (fun body => body) _)).append (some _ _ _) |>.append
    (some _ _ _)

theorem keys_nodup : (e.fields.map Prod.fst).Nodup := e.keys_sublist.nodup (by decide)

/-- The fields in the order in which the map is iterated. -/
def visited (visit : Visit) : List (UInt64 × Value) := (visit.run e.toMap.entries).map fun entry => (entry.1, entry.2)

theorem visited_perm (visit : Visit) : (e.visited visit).Perm e.fields :=
  ((visit.perm _).map _).trans (entries_distinct e.keys_nodup)

theorem encodeFields_toMap (visit : Visit) :
    encodeFields visit e.toMap = encode (.map ((e.visited visit).map fun field => (.uint field.1, field.2))) := by
  rw [encodeFields, visited, map_map]
  rfl

def weight (field : UInt64 × Value) : Nat := headSize field.1.toNat + (encode field.2).length

def size : Nat := headSize e.fields.length + (e.fields.map weight).sum

theorem encodeFields_length (visit : Visit) : (encodeFields visit e.toMap).length = e.size := by
  rw [encodeFields_toMap]
  exact length_uintMap (e.visited_perm visit)

end Envelope

/-! The pools. -/

theorem cleared_eq (map : GoMap UInt64 Value) : cleared map = ∅ := by
  have emptied : ∀ (keys : List UInt64) (map : GoMap UInt64 Value), (∀ key ∈ map, key ∈ keys) →
      keys.foldl (fun map key => map.erase key) map = ∅ := by
    intro keys
    induction keys with
    | nil =>
      intro map listed
      apply AList.ext
      apply eq_nil_iff_forall_not_mem.2
      intro entry member
      exact not_mem_nil (listed entry.1 (mem_keys.2 (mem_map_of_mem member)))
    | cons key keys ih =>
      intro map listed
      apply ih
      intro other member
      obtain ⟨apart, known⟩ := mem_erase.1 member
      exact (List.mem_cons.1 (listed other known)).resolve_left apart
  exact emptied map.keys map fun key member => mem_keys.1 member

/-- Every map in the pool is empty. -/
def Pools.Clean (pools : Pools) : Prop := ∀ map ∈ pools.maps, map = ∅

theorem fromPool_fst (clean : pools.Clean) (choice : Nat) : (fromPool pools.maps choice ∅).1 = ∅ := by
  rw [fromPool]
  cases found : pools.maps[choice]? with
  | none => rfl
  | some map => exact clean map (mem_of_getElem? found)

theorem fromPool_snd (clean : pools.Clean) (choice : Nat) :
    ∀ map ∈ (fromPool pools.maps choice ∅).2, map = ∅ :=
  fun map member => clean map (mem_of_mem_eraseIdx member)

/-- What a call returns when all pooled maps are empty. -/
def marshalled (call : MarshalCall) : Except EnvelopeError Bytes :=
  let e := call.env
  if e.version ≠ protocolVersion then .error .wrongVersion
  else if e.msgID.length ≠ messageIDLength then .error (.badFieldLength "message id")
  else if e.sender.length ≠ identityLength then .error (.badFieldLength "sender identity")
  else if e.destination.any fun destination => destination.length ≠ identityLength then
    .error (.badFieldLength "destination identity")
  else if call.fault.isSome then .error .unencodable
  else .ok (encodeFields call.visit e.toMap)

theorem marshal_of_clean (clean : pools.Clean) (call : MarshalCall) :
    (marshal pools call).1.Clean ∧ (marshal pools call).2 = marshalled call := by
  have taken := fromPool_fst clean call.mapChoice
  have others := fromPool_snd clean call.mapChoice
  have returned : ∀ map : GoMap UInt64 Value,
      ∀ other ∈ cleared map :: (fromPool pools.maps call.mapChoice ∅).2, other = ∅ := by
    intro map other member
    rcases List.mem_cons.1 member with rfl | member
    · exact cleared_eq map
    · exact others other member
  unfold marshal marshalled
  dsimp only
  split_ifs
  · exact ⟨clean, rfl⟩
  · exact ⟨clean, rfl⟩
  · exact ⟨clean, rfl⟩
  · exact ⟨others, rfl⟩
  · next given =>
      obtain ⟨written, fault⟩ := Option.isSome_iff_exists.1 given
      rw [fault]
      exact ⟨returned _, rfl⟩
  · next given =>
      rw [Option.not_isSome_iff_eq_none.1 given, taken]
      exact ⟨returned _, rfl⟩

/-- The pools after some calls. -/
def history (calls : List MarshalCall) : Pools := calls.foldl (fun pools call => (marshal pools call).1) {}

theorem clean_history (calls : List MarshalCall) : (history calls).Clean := by
  induction calls using List.reverseRecOn with
  | nil => exact fun map member => absurd member not_mem_nil
  | append_singleton calls call ih =>
    rw [history, foldl_append]
    exact (marshal_of_clean ih call).1

/-! The fields that are read. -/

theorem optional_eq {α : Type} {raw : GoMap UInt64 Value} {key : UInt64} {read : Value → Option α} {x : Option α}
    (write : α → Value) (field : String) (found : raw.lookup key = x.map write)
    (reads : ∀ y, read (write y) = some y) : optional raw key read field = .ok x := by
  rw [optional, found]
  cases x with
  | none => rfl
  | some y => simp only [Option.map_some, reads]

theorem checkLength_eq {data : Bytes} {length : Nat} (field : String) (fits : data.length = length) :
    checkLength data length field = .ok () := if_pos fits

theorem readFields_eq {e : Envelope} (valid : e.Valid) {raw : GoMap UInt64 Value}
    (same : ∀ key value, raw.lookup key = some value ↔ (key, value) ∈ e.fields) : readFields raw = .ok e := by
  have version : raw.lookup keyVersion = some (.uint e.version) := (same _ _).2 (by simp [Envelope.fields])
  have type : raw.lookup keyType = some (.uint e.type.code) := (same _ _).2 (by simp [Envelope.fields])
  have msgID : raw.lookup keyMsgID = some (.bytes e.msgID) := (same _ _).2 (by simp [Envelope.fields])
  have timestamp : raw.lookup keyTimestamp = some (.uint e.timestamp) := (same _ _).2 (by simp [Envelope.fields])
  have sender : raw.lookup keySender = some (.bytes e.sender) := (same _ _).2 (by simp [Envelope.fields])
  have room : optional raw keyRoom asString "room" = .ok e.room := by
    apply optional_eq Value.text _ _ fun _ => rfl
    ext value
    rw [same]
    simp +decide [Envelope.fields, eq_comm]
  have body : raw.lookup keyBody = e.body := by
    ext value
    rw [same]
    simp +decide [Envelope.fields]
  have nick : optional raw keyNick asString "nick" = .ok e.nick := by
    apply optional_eq Value.text _ _ fun _ => rfl
    ext value
    rw [same]
    simp +decide [Envelope.fields, eq_comm]
  have destination : optional raw keyDestination asBytes "destination" = .ok e.destination := by
    apply optional_eq Value.bytes _ _ fun _ => rfl
    ext value
    rw [same]
    simp +decide [Envelope.fields, eq_comm]
  have lengths : (e.destination.forM fun destination =>
      checkLength destination identityLength "destination identity") = .ok () := by
    cases given : e.destination with
    | none => rfl
    | some hash => exact checkLength_eq _ (valid.destination hash given)
  simp only [readFields, required, bind, Except.bind, Option.bind_some, asUint64, asBytes, version, type, msgID,
    timestamp, sender, room, body, nick, destination, lengths, checkLength_eq _ valid.msgID,
    checkLength_eq _ valid.sender, valid.version, EnvelopeType.ofCode_code]
  rw [if_neg (not_not.2 rfl), ← valid.version]
  rfl

/-- What the encoder writes for a valid envelope is read back, in whatever order the map is iterated. -/
theorem unmarshalEnvelope_encodeFields {e : Envelope} (valid : e.Valid) (visit : Visit)
    (bounded : e.size ≤ maxEnvelopeBytes) : unmarshalEnvelope (encodeFields visit e.toMap) = .ok e := by
  have perm := e.visited_perm visit
  have length := e.encodeFields_length visit
  have some : encodeFields visit e.toMap ≠ [] := by
    rw [← length_pos_iff, length, Envelope.size]
    exact Nat.add_pos_left (headSize_pos _) _
  have count : (e.visited visit).length ≤ decoderLimits.maxMapPairs := by
    have keys := e.keys_sublist.length_le
    rw [length_map] at keys
    rw [perm.length_eq]
    exact keys.trans (by decide)
  have below : ∀ field ∈ e.visited visit, Fits decoderLimits false 7 field.2 := by
    intro field listed
    have written := perm.mem_iff.1 listed
    simp only [Envelope.fields, mem_append, mem_cons, not_mem_nil, or_false, mem_map,
      Option.mem_toList] at written
    rcases written with
      ((((rfl | rfl | rfl | rfl | rfl) | ⟨_, _, rfl⟩) | ⟨body, given, rfl⟩) | ⟨_, _, rfl⟩) | ⟨_, _, rfl⟩
    case inl.inl.inr => exact valid.body body given
    all_goals exact .scalar ..
  have decoded : decodeUintMap decoderLimits (encodeFields visit e.toMap) = .ok (e.visited visit) := by
    rw [e.encodeFields_toMap] at length ⊢
    apply decodeUintMap_encode decoderLimits (by decide) (by decide) rfl count below
    exact lt_of_le_of_lt (length.trans_le bounded) (by decide)
  rw [unmarshalEnvelope, if_neg some, if_neg (not_lt.2 (length.trans_le bounded)), decoded]
  apply readFields_eq valid
  intro key value
  rw [lookup_distinct ((perm.map Prod.fst).nodup_iff.2 e.keys_nodup), perm.mem_iff]

theorem marshalled_framed {call : MarshalCall} (framed : call.env.Framed) (encodes : call.fault = none) :
    marshalled call = .ok (encodeFields call.visit call.env.toMap) := by
  have destination : ¬(call.env.destination.any fun destination => destination.length ≠ identityLength) = true := by
    rw [Option.any_eq_true]
    rintro ⟨hash, given, wrong⟩
    exact of_decide_eq_true wrong (framed.destination hash given)
  rw [marshalled, if_neg (not_not.2 framed.version), if_neg (not_not.2 framed.msgID), if_neg (not_not.2 framed.sender),
    if_neg destination, encodes]
  rfl

theorem marshal_framed (calls : List MarshalCall) {call : MarshalCall} (framed : call.env.Framed)
    (encodes : call.fault = none) :
    (marshal (history calls) call).2 = .ok (encodeFields call.visit call.env.toMap) :=
  (marshal_of_clean (clean_history calls) call).2.trans (marshalled_framed framed encodes)

/-- After any calls, `Marshal` returns what it returns with empty pools; a valid envelope it encodes, and
`UnmarshalEnvelope` reads the envelope back from the bytes. -/
theorem unmarshalEnvelope_marshal (calls : List MarshalCall) (call : MarshalCall) :
    (marshal (history calls) call).2 = (marshal {} call).2 ∧
      (call.env.Valid → call.fault = none → ∃ raw, (marshal (history calls) call).2 = .ok raw ∧
        (raw.length ≤ maxEnvelopeBytes → unmarshalEnvelope raw = .ok call.env)) := by
  have later := (marshal_of_clean (clean_history calls) call).2
  have first := (marshal_of_clean (clean_history []) call).2
  refine ⟨later.trans first.symm, fun valid encodes => ?_⟩
  refine ⟨_, marshal_framed calls valid.toFramed encodes, fun bounded => ?_⟩
  rw [call.env.encodeFields_length] at bounded
  exact unmarshalEnvelope_encodeFields valid call.visit bounded

/-- A direct notice with a map as its body, after a call that failed on its destination and one that failed in the
encoder. -/
def noticeCall : MarshalCall where
  env :=
    { type := .notice, msgID := replicate messageIDLength 5, timestamp := 1700000000000
      sender := replicate identityLength 7, body := some (.map [(.uint 0, .arr [.null, .text ['h', 'i']])])
      nick := some ['b', 'o', 'b'], destination := some (replicate identityLength 9) }

theorem unmarshalEnvelope_marshal_notice :
    ∃ raw, (marshal (history [{ noticeCall with env := { noticeCall.env with destination := some [] } },
      { noticeCall with fault := some [0xa8, 0x00] }]) noticeCall).2 = .ok raw ∧
        unmarshalEnvelope raw = .ok noticeCall.env := by
  have items : Fits decoderLimits false 6 (.arr [.null, .text ['h', 'i']]) := by
    refine .arr _ 5 _ (by decide) fun item listed => ?_
    rcases mem_pair.1 listed with rfl | rfl <;> exact .scalar ..
  have fits : Fits decoderLimits false 7 (.map [(.uint 0, .arr [.null, .text ['h', 'i']])]) :=
    .map _ 6 _ (by decide) (by simp [Scalar.keyable]) (pairwise_singleton _ _)
      fun entry listed => mem_singleton.1 listed ▸ items
  have valid : noticeCall.env.Valid :=
    { version := rfl, msgID := rfl, sender := rfl
      destination := fun hash given => Option.some.inj given ▸ rfl
      body := fun body given => Option.some.inj given ▸ fits }
  obtain ⟨raw, written, reads⟩ := (unmarshalEnvelope_marshal _ noticeCall).2 valid rfl
  refine ⟨raw, written, reads ?_⟩
  have bytes := Except.ok.inj (written.symm.trans (marshal_framed _ valid.toFramed rfl))
  rw [bytes, Envelope.encodeFields_length]
  decide +kernel

end ReticulumProtocols.Rrc
