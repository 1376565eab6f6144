import ReticulumProtocols.Lxmf.PackUnpack

/-! Sender and receiver agree on the message hash. `Pack` hashes and signs one encoding and, for a
stamped message, ships another one; a receiver accepts the result in every map order exactly when
the fields can be delivered at all and their bytes do not depend on the order. -/

namespace ReticulumProtocols.Lxmf
open Wire Msgpack Sha256 List
variable {fields : Option Fields}

/-- Signing works on the given byte strings, and a signature verifies on its own string only. -/
structure SignsExactly (id : Identity) (parts : Set Bytes) : Prop where
  signs : ∀ part ∈ parts, ∃ signature, id.sign part = some signature ∧ signature.length = signatureLength
  verifies : ∀ part ∈ parts, ∀ other ∈ parts, ∀ signature, id.sign part = some signature →
    (id.verify other signature = true ↔ other = part)

/-- The receiver can decode the fields and turn every map key into a byte. -/
def Deliverable (fields : Option Fields) : Prop :=
  Fits payloadDecoder 0 0 (fieldsValue fields) ∧ ByteKeyed (fieldsValue fields)

theorem byteKey_val (key : UInt8) : (GoInt.of .uint8 key.toNat).val = key.toNat := by
  have bound := key.toNat_lt
  simp only [GoInt.of, IntKind.wrap, IntKind.signed, IntKind.bits]
  exact Int.emod_eq_of_lt (by omega) (by omega)

theorem byteKey_isByte (key : UInt8) : ByteKey (byteKey key) := by
  have bound := key.toNat_lt
  simp only [byteKey, ByteKey, byteKey_val]
  omega

theorem deliverable_of_scalars (fields : Fields) (few : fields.entries.length ≤ 1024)
    (flat : ∀ entry ∈ fields.entries, ∃ s, entry.2 = .scalar s) : Deliverable (some fields) := by
  constructor
  · refine .map 0 0 16 1024 _ _ rfl (by decide) (by simpa using few) ?_
    intro entry member
    obtain ⟨original, inside, rfl⟩ := mem_map.mp member
    obtain ⟨s, same⟩ := flat original inside
    rw [same]
    exact .scalar 0 1 s
  · refine .map ?_ ?_
    · intro entry member
      obtain ⟨original, _, rfl⟩ := mem_map.mp member
      exact byteKey_isByte original.1
    · intro entry member
      obtain ⟨original, inside, rfl⟩ := mem_map.mp member
      obtain ⟨s, same⟩ := flat original inside
      rw [same]
      exact .scalar trivial

/-- A decoded `Fields` element: nil, or a map with untyped keys. -/
def FieldsShape (value : Value) : Prop := value = .nil ∨ ∃ entries, value = .map .any entries

theorem asFields_ok_iff {value : Value} (shape : FieldsShape value) :
    (∃ fields, asFields value = .ok fields) ↔ Value.Everywhere KeyNode value := by
  rcases shape with rfl | ⟨entries, rfl⟩
  · exact iff_of_true ⟨_, rfl⟩ (.scalar trivial)
  · rw [← normalize_ok_iff]
    simp only [asFields, normalizeFieldValue, bind_eq_ok, pure, Except.pure, Except.ok.injEq]
    constructor
    · rintro ⟨_, out, found, _⟩
      exact ⟨_, out, found, rfl⟩
    · rintro ⟨_, out, found, _⟩
      exact ⟨_, out, found, rfl⟩

theorem FieldsShape.reorder {value other : Value} (shape : FieldsShape value) (reordered : Reorder value other) :
    FieldsShape other := by
  rcases shape with rfl | ⟨entries, rfl⟩
  · exact .inl (reorder_scalar_iff.mp reordered)
  · obtain ⟨_, others, same, _⟩ := reorder_map_iff.mp reordered
    exact .inr ⟨others, same⟩

theorem fieldsShape_view {shipped : Value} (visited : Reorder (fieldsValue fields) shipped) :
    FieldsShape (view true true false shipped) := by
  cases fields with
  | none => exact .inl (by rw [reorder_scalar_iff.mp visited]; rfl)
  | some fields =>
    obtain ⟨_, others, rfl, _⟩ := reorder_map_iff.mp visited
    exact .inr ⟨_, by rw [view]⟩

theorem asFields_of_byteKeyed {shipped : Value}
    (visited : Reorder (fieldsValue fields) shipped) (keyed : ByteKeyed (fieldsValue fields)) (order : MapOrder) :
    ∃ out, asFields (order.run (view true true false shipped)) = .ok out := by
  have reordered := order.reorders (view true true false shipped)
  have keys := keyNode_view_of_byteKeyed false shipped (keyed.reorder visited)
  rw [asFields_ok_iff ((fieldsShape_view visited).reorder reordered)]
  exact KeyNode.reorder reordered keys

/-- Fields that decode and normalise in every order of the sender are deliverable. -/
theorem deliverable_of_decodable
    (decodable : ∀ shipped, Reorder (fieldsValue fields) shipped →
      Fits payloadDecoder 0 0 shipped ∧ ∃ out, asFields (view true true false shipped) = .ok out) :
    Deliverable fields := by
  constructor
  · exact (decodable _ (Reorder.refl _)).1
  · by_contra unkeyed
    obtain ⟨other, reordered, bad⟩ := exists_reorder_not_keyNode false _ unkeyed
    exact bad ((asFields_ok_iff (fieldsShape_view reordered)).mp (decodable other reordered).2)

theorem signedPart_injective {destination source payload payload' : Bytes}
    (same : signedPart destination source payload = signedPart destination source payload') : payload = payload' := by
  have widths := congrArg List.length same
  simp only [signedPart, length_append, sha256_length] at widths
  have parts := append_inj_left same (by simp only [length_append]; omega)
  exact append_cancel_left parts

theorem signedAs_injective {m : LXMessage} {first second : Value}
    (same : m.signedAs first = m.signedAs second) : encode true first = encode true second := by
  have payloads := signedPart_injective same
  simpa [encode_four, LXMessage.body, encodeItems] using payloads

/-- For every map order of `Pack`'s encodings and of the receiver's traversal, both ways of unpacking
return the message under the sender's hash, with a valid signature. -/
def HashAgreed (m : LXMessage) (id : Identity) (now : UInt64) : Prop :=
  ∀ first second order, ∃ sent packed received, m.pack (some id) now first second = (sent, .ok packed) ∧
    unpack packed (some fun _ => .ok (some id)) order = (some received, none) ∧
    unpackFromBytes m.destinationHash (packed.drop destinationLength) (some fun _ => .ok (some id)) order =
      (some received, none) ∧
    received.hash = sent.hash ∧ received.signatureValidated = true

section
variable {m : LXMessage} {id : Identity} {now : UInt64} (addressed : m.Addressed) (timed : m.stampTime now = m)
variable (sized : m.Sized) (signer : SignsExactly id m.signedParts)

include addressed timed sized signer

theorem hashAgreed_of_orderFree (deliverable : Deliverable m.fields)
    (free : m.stamp = [] ∨ OrderFree true (fieldsValue m.fields)) : HashAgreed m id now := by
  intro first second order
  obtain ⟨hashed, shipped, signature, visited, visited', single, signed, length, packed⟩ :=
    pack_form addressed timed first second signer.signs
  have same : encode true shipped = encode true hashed := by
    rcases free with unstamped | free
    · rw [single unstamped]
    · rw [encode_reorder_of_orderFree true visited free, encode_reorder_of_orderFree true visited' free]
  have bodies := m.encode_body_congr same
  obtain ⟨out, converted⟩ := asFields_of_byteKeyed visited' deliverable.2 order
  have valid : id.verify (m.signedAs shipped) signature = true := by
    rw [LXMessage.signedAs, bodies]
    exact (signer.verifies _ (m.signedAs_mem visited) _ (m.signedAs_mem visited) signature signed).mpr rfl
  have unpacked : unpackFromBytes m.destinationHash (m.deliveredAs shipped signature) (some fun _ => .ok (some id))
      order = (some { m.arrival shipped out signature with signatureValidated := true }, none) := by
    rw [unpackFromBytes_delivered addressed length sized visited' (deliverable.1.reorder visited'), converted]
    exact if_pos valid
  refine ⟨_, _, _, packed, (unpack_packedAs addressed length _ _).trans unpacked, ?_, ?_, rfl⟩
  · rw [packed_drop addressed]
    exact unpacked
  · simp only [LXMessage.packedAs, LXMessage.arrival, bodies]

/-- A tree that some map order makes undeliverable spoils the agreement. -/
theorem deliverable_of_hashAgreed (agreed : HashAgreed m id now) : Deliverable m.fields := by
  apply deliverable_of_decodable
  intro shipped visited
  obtain ⟨signature, signed, length⟩ := signer.signs _ (m.signedAs_mem visited)
  obtain ⟨first, second, packed⟩ := exists_pack_form addressed timed visited visited (fun _ => rfl) signed length
  -- in every order some `Pack` makes, the listed traversal of the receiver succeeds
  obtain ⟨_, _, received, sent, unpacked, _, _⟩ := agreed first second MapOrder.listed
  rw [packed] at sent
  cases sent
  rw [unpack_packedAs addressed length] at unpacked
  obtain ⟨fits, out, converted, _⟩ := decodable_of_unpacked addressed length sized visited unpacked
  exact ⟨fits, out, converted⟩

theorem orderFree_of_hashAgreed (agreed : HashAgreed m id now) (stamped : m.stamp ≠ []) :
    OrderFree true (fieldsValue m.fields) := by
  have deliverable := deliverable_of_hashAgreed addressed timed sized signer agreed
  apply orderFree_of_encode_reorder true _ sized.fields
  intro shipped visited
  have own := m.signedAs_mem (Reorder.refl _)
  obtain ⟨signature, signed, length⟩ := signer.signs _ own
  obtain ⟨first, second, packed⟩ := exists_pack_form addressed timed (Reorder.refl _) visited
    (fun none => absurd none stamped) signed length
  obtain ⟨_, _, received, sent, unpacked, _, _⟩ := agreed first second MapOrder.listed
  rw [packed] at sent
  cases sent
  obtain ⟨out, converted⟩ := asFields_of_byteKeyed visited deliverable.2 MapOrder.listed
  rw [unpack_packedAs addressed length, unpackFromBytes_delivered addressed length sized visited
    (deliverable.1.reorder visited), converted] at unpacked
  have valid : id.verify (m.signedAs shipped) signature = true := by
    by_contra invalid
    simp [verifySource, LXMessage.arrival, invalid] at unpacked
  exact signedAs_injective ((signer.verifies _ own _ (m.signedAs_mem visited) signature signed).mp valid)

end

section
variable {m : LXMessage} {id : Identity} {now : UInt64}
variable (destination : m.destinationHash.length = destinationLength)
variable (source : m.sourceHash.length = destinationLength)
variable (sized : m.Sized) (signer : SignsExactly id (m.stampTime now).signedParts)

include destination source sized signer

/-- The hash survives every map order exactly when the fields are deliverable and, for a message that
carries a stamp, their bytes are the same in every order. -/
theorem hashAgreed_iff : HashAgreed m id now ↔
    Deliverable m.fields ∧ (m.stamp = [] ∨ OrderFree true (fieldsValue m.fields)) := by
  -- it is as good to pack the message once it has its time
  have addressed := LXMessage.Addressed.stampTime ⟨destination, source⟩ now
  have timely : HashAgreed (m.stampTime now) id now ↔ HashAgreed m id now := by
    simp only [HashAgreed, LXMessage.pack_stampTime ⟨destination, source⟩, m.stampTime_destinationHash]
  have timed := m.stampTime_stampTime now
  have sized := sized.stampTime now
  rw [← timely, ← m.stampTime_fields now, ← m.stampTime_stamp now]
  constructor
  · intro agreed
    refine ⟨deliverable_of_hashAgreed addressed timed sized signer agreed, ?_⟩
    by_cases unstamped : (m.stampTime now).stamp = []
    · exact .inl unstamped
    · exact .inr (orderFree_of_hashAgreed addressed timed sized signer agreed unstamped)
  · rintro ⟨deliverable, free⟩
    exact hashAgreed_of_orderFree addressed timed sized signer deliverable free

end

/-- The payload inside a signed part. -/
def signedPayload (part : Bytes) : Bytes := (part.drop 32).take (part.length - 64)

/-- A key pair for payloads of at most 64 bytes: the signature is the padded payload. -/
def echoIdentity : Identity where
  sign part := some ((signedPayload part ++ replicate 64 0).take 64)
  verify part signature := signature = (signedPayload part ++ replicate 64 0).take 64

theorem echoIdentity_signsExactly {m : LXMessage} (destination : m.destinationHash.length = destinationLength)
    (source : m.sourceHash.length = destinationLength)
    (short : (encode true (.arr (m.body (fieldsValue m.fields)))).length ≤ 64) :
    SignsExactly echoIdentity m.signedParts := by
  change m.destinationHash.length = 16 at destination
  change m.sourceHash.length = 16 at source
  have payload (part : Bytes) (member : part ∈ m.signedParts) :
      part = signedPart m.destinationHash m.sourceHash (signedPayload part) ∧
        (signedPayload part).length = (encode true (.arr (m.body (fieldsValue m.fields)))).length := by
    obtain ⟨order, rfl⟩ := member
    set shipped := encodePayload order (m.payloadList false) with chosen
    have cut : signedPayload (signedPart m.destinationHash m.sourceHash shipped) = shipped := by
      have front : (m.destinationHash ++ m.sourceHash).length = 32 := by
        rw [length_append, destination, source]
      have width : (signedPart m.destinationHash m.sourceHash shipped).length - 64 = shipped.length := by
        simp only [signedPart, length_append, sha256_length, destination, source]
        omega
      rw [signedPayload, width, signedPart, append_assoc, drop_left' front]
      exact take_left' rfl
    refine ⟨by rw [cut], ?_⟩
    rw [cut, chosen, encodePayload, encode_length_reorder true (order.reorders _), m.payloadList_false]
  constructor
  · intro part member
    exact ⟨_, rfl, by simp [signatureLength]⟩
  · intro part member other member' signature signed
    cases signed
    obtain ⟨form, length⟩ := payload part member
    obtain ⟨form', length'⟩ := payload other member'
    simp only [echoIdentity, decide_eq_true_eq]
    constructor
    · intro same
      have heads := congrArg (List.take (signedPayload part).length) same
      rw [take_take, take_take, min_eq_left (by omega), take_left' rfl,
        take_left' (by omega)] at heads
      rw [form, form', heads]
    · rintro rfl
      rfl

def stampedPair : LXMessage where
  destinationHash := replicate 16 0xd0
  sourceHash := replicate 16 0x50
  fields := some (((∅ : Fields).insert 2 .nil).insert 1 .nil)
  timestamp := 0x41d954fc40000000
  stamp := [7]

/-- A message without any contents, and the bytes of a message signed by `echoIdentity`. -/
def plainMessage : LXMessage := { stampedPair with stamp := [], fields := none }

def packedByEcho (m : LXMessage) : Bytes := (m.pack (some echoIdentity) 1 .listed .listed).1.packed

theorem stampedPair_fields :
    fieldsValue stampedPair.fields = .map .byte [(byteKey 1, .nil), (byteKey 2, .nil)] := rfl

theorem nil_sized : Value.nil.Sized := .scalar trivial

theorem stampedPair_sized : stampedPair.Sized := by
  refine ⟨nil_sized, nil_sized, ?_, by decide⟩
  rw [stampedPair_fields]
  refine .map ⟨by decide, ?_⟩ ?_
  · simp [byteKey, Scalar.Sized]
  · intro entry member
    simp only [mem_cons, not_mem_nil, or_false] at member
    rcases member with rfl | rfl <;> exact nil_sized

theorem stampedPair_signsExactly : SignsExactly echoIdentity (stampedPair.stampTime 1).signedParts :=
  echoIdentity_signsExactly rfl rfl (by decide +kernel)

/-- With a stamp and two fields, a second encoding in the other order leaves the receiver with another
hash and an invalid signature. -/
theorem stampedPair_rejected :
    stampedPair.Sized ∧ SignsExactly echoIdentity (stampedPair.stampTime 1).signedParts ∧
      (let sent := (stampedPair.pack (some echoIdentity) 1 .listed .reversed).1
       let received := unpack sent.packed (some fun _ => .ok (some echoIdentity)) .listed
       received.2 = some .signatureInvalid ∧ received.1.map LXMessage.hash ≠ some sent.hash) ∧
      ¬ HashAgreed stampedPair echoIdentity 1 := by
  have run : (unpack (stampedPair.pack (some echoIdentity) 1 .listed .reversed).1.packed
      (some fun _ => .ok (some echoIdentity)) .listed).2 = some .signatureInvalid := by decide +kernel
  refine ⟨stampedPair_sized, stampedPair_signsExactly, ⟨run, by decide +kernel⟩, ?_⟩
  intro agreed
  have free := orderFree_of_hashAgreed ⟨rfl, rfl⟩ rfl stampedPair_sized stampedPair_signsExactly agreed (by decide)
  have same := free.here (byteKey 1, .nil) (by simp) (byteKey 2, .nil) (by simp)
  revert same
  decide

/-- The same two fields are delivered when there is no stamp to ship. -/
theorem unstampedPair_agreed : HashAgreed { stampedPair with stamp := [] } echoIdentity 1 := by
  have sized : LXMessage.Sized { stampedPair with stamp := [] } :=
    ⟨stampedPair_sized.title, stampedPair_sized.content, stampedPair_sized.fields, by decide⟩
  have signer : SignsExactly echoIdentity (LXMessage.stampTime { stampedPair with stamp := [] } 1).signedParts :=
    echoIdentity_signsExactly rfl rfl (by decide +kernel)
  have flat : ∀ entry ∈ (((∅ : Fields).insert 2 .nil).insert 1 .nil).entries, ∃ s, entry.2 = .scalar s := by
    simp
  exact (hashAgreed_iff rfl rfl sized signer).mpr ⟨deliverable_of_scalars _ (by decide) flat, .inl rfl⟩

end ReticulumProtocols.Lxmf
