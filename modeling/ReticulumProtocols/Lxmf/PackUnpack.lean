import ReticulumProtocols.Lxmf.FieldKeys

/-! Unpacking what `Pack` produced. The receiver cuts the hashed bytes out of the shipped payload;
they are the bytes the sender hashed exactly when both encodings visited the fields in an order
that leaves the same bytes. -/

namespace ReticulumProtocols.Lxmf
open Wire Msgpack Sha256 List

theorem encodeItems_append (compact : Bool) (items others : List Value) :
    encodeItems compact (items ++ others) = encodeItems compact items ++ encodeItems compact others := by
  simp only [encodeItems_eq_flatMap, flatMap_append]

/-- An array of four elements starts with the header byte that the receiver writes itself. -/
theorem encode_four (four : List Value) (count : four.length = 4) :
    encode true (.arr four) = 0x94 :: encodeItems true four := by
  rw [encode, count]
  rfl

section
variable {four more : List Value} (sized : ∀ item ∈ four ++ more, item.Sized)

include sized

theorem payload_reads {items : List Value} (among : ∀ item ∈ items, item ∈ four ++ more) :
    Reads payloadDecoder.Bounded (∀ item ∈ items, Fits payloadDecoder 0 0 item)
      (decodeMany (decodeInterface payloadDecoder ((encode true (.arr (four ++ more))).length + 1) false 0 0)
        items.length) (encodeItems true items) (items.map (view true true false)) := by
  apply elements_reads payloadDecoder true among sized
  rw [encode, length_append]
  omega

variable (count : four.length = 4) (short : more.length ≤ 1)

include count short

theorem decodePayload_encode (fits : ∀ item ∈ four ++ more, Fits payloadDecoder 0 0 item) :
    decodePayloadAndSplit (encode true (.arr (four ++ more))) =
      .ok ((four ++ more).map (view true true false), encode true (.arr four)) := by
  have few : (four ++ more).length < 2 ^ 32 := by rw [length_append]; omega
  have head := (payload_reads sized (fun item (member : item ∈ four) => by simp [member]) (encodeItems true more)).1
    fun item member => fits item (by simp [member])
  have tail := (payload_reads sized (fun item (member : item ∈ more) => by simp [member]) []).1
    fun item member => fits item (by simp [member])
  rw [count] at head
  rw [append_nil] at tail
  unfold decodePayloadAndSplit
  rw [decodeArrayLen_encode true _ few, encodeItems_append]
  cases more with
  | nil =>
    simp only [append_nil, encodeItems, length_nil] at head tail ⊢
    simp [Except.mapError, bind, Except.bind, pure, Except.pure, count, head, tail]
  | cons stamp rest =>
    have alone : rest = [] := eq_nil_of_length_eq_zero (by simpa using short)
    subst alone
    simp only [length_append, count, length_singleton] at tail ⊢
    simp [Except.mapError, bind, Except.bind, pure, Except.pure, head, tail, encode_four four count]

theorem decodePayload_error (bad : ∃ item ∈ four, ¬ Fits payloadDecoder 0 0 item) :
    ∃ error, decodePayloadAndSplit (encode true (.arr (four ++ more))) = .error error := by
  have few : (four ++ more).length < 2 ^ 32 := by rw [length_append]; omega
  obtain ⟨error, failed⟩ := (payload_reads sized (fun item (member : item ∈ four) => by simp [member]) (encodeItems true more)).2
    ⟨16, 1024, rfl⟩ (by simpa using bad)
  rw [count, ← encodeItems_append] at failed
  have low : ¬ ((four ++ more).length : Int) < 4 := by rw [length_append]; omega
  have high : ¬ (15 < ((four ++ more).length : Int)) := by rw [length_append]; omega
  refine ⟨.decode error, ?_⟩
  unfold decodePayloadAndSplit
  rw [decodeArrayLen_encode true _ few]
  simp only [Except.mapError, bind, Except.bind, low, high, if_false, failed]

end

namespace LXMessage
variable (m : LXMessage)

/-- The four hashed elements, with the fields as one traversal lists them. -/
def body (fields : Value) : List Value :=
  [.float64 m.timestamp, optionalBytes m.title, optionalBytes m.content, fields]

theorem body_count (fields : Value) : (m.body fields).length = 4 := rfl

/-- The hashed bytes depend on the fields through their encoding only. -/
theorem encode_body_congr {fields others : Value} (same : encode true fields = encode true others) :
    encode true (.arr (m.body fields)) = encode true (.arr (m.body others)) := by
  rw [encode_four _ (m.body_count fields), encode_four _ (m.body_count others)]
  simp only [body, encodeItems, same]

def stampItem : List Value := if 0 < m.stamp.length then [.bytes m.stamp] else []

theorem payloadList_false : m.payloadList false = m.body (fieldsValue m.fields) := by
  simp [payloadList, body]

theorem payloadList_true : m.payloadList true = m.body (fieldsValue m.fields) ++ m.stampItem := by
  simp [payloadList, body, stampItem]

theorem payloadList_sealed (includeStamp : Bool) (hash signature : Bytes) (validated : Bool) :
    payloadList { m with hash := hash, signature := signature, signatureValidated := validated } includeStamp =
      m.payloadList includeStamp := rfl

theorem stampItem_short : m.stampItem.length ≤ 1 := by
  unfold stampItem
  split <;> simp

theorem stampItem_nil {m : LXMessage} (none : m.stamp = []) : m.stampItem = [] := by
  simp [stampItem, none]

/-- Only the fields of a payload can be visited in different orders. -/
theorem reorder_body_iff (fields : Value) (more : List Value)
    (rigid : ∀ item ∈ more, ∃ data, item = .bytes data) (other : Value) :
    Reorder (.arr (m.body fields ++ more)) other ↔
      ∃ visited, Reorder fields visited ∧ other = .arr (m.body visited ++ more) := by
  have optional (data : Option Bytes) {other : Value} (same : Reorder (optionalBytes data) other) :
      other = optionalBytes data := by
    cases data with
    | none => exact reorder_scalar_iff.mp same
    | some data => exact reorder_bytes_iff.mp same
  have stable {others : List Value} (each : List.Forall₂ Reorder more others) : others = more := by
    induction each with
    | nil => rfl
    | @cons item _ _ _ first _ ih =>
      obtain ⟨data, rfl⟩ := rigid item (by simp)
      rw [reorder_bytes_iff.mp first, ih fun item member => rigid item (by simp [member])]
  constructor
  · intro reordered
    obtain ⟨others, rfl, each⟩ := reorder_arr_iff.mp reordered
    rcases each with _ | ⟨timestamp, _ | ⟨title, _ | ⟨content, _ | ⟨visited, last⟩⟩⟩⟩
    refine ⟨_, visited, ?_⟩
    rw [reorder_scalar_iff.mp timestamp, optional m.title title, optional m.content content, stable last]
    rfl
  · rintro ⟨visited, reordered, rfl⟩
    exact reordered.arr_item [.float64 m.timestamp, optionalBytes m.title, optionalBytes m.content] more

theorem stampItem_rigid : ∀ item ∈ m.stampItem, ∃ data, item = .bytes data := by
  unfold stampItem
  split <;> simp

/-- What `Pack` leaves in the sender's object when it visits the fields as `hashed` for the hash and
as `shipped` for the payload. -/
def packedAs (hashed shipped : Value) (signature : Bytes) : LXMessage :=
  { m with
    hash := messageHash m.destinationHash m.sourceHash (encode true (.arr (m.body hashed)))
    signature := signature
    signatureValidated := true
    packed := m.destinationHash ++ m.sourceHash ++ signature ++ encode true (.arr (m.body shipped ++ m.stampItem)) }

/-- The byte strings that `Pack` may hand to the signer, over all map orders. -/
def signedParts : Set Bytes :=
  { part | ∃ order, part = signedPart m.destinationHash m.sourceHash (encodePayload order (m.payloadList false)) }

/-- The part that is signed when the hashed encoding visits the fields as `hashed`. -/
def signedAs (hashed : Value) : Bytes :=
  signedPart m.destinationHash m.sourceHash (encode true (.arr (m.body hashed)))

theorem signedAs_mem {hashed : Value} (visited : Reorder (fieldsValue m.fields) hashed) :
    m.signedAs hashed ∈ m.signedParts := by
  have reordered := (m.reorder_body_iff (fieldsValue m.fields) [] (by simp) _).mpr ⟨hashed, visited, rfl⟩
  rw [append_nil, append_nil] at reordered
  obtain ⟨order, run⟩ := MapOrder.exists_run reordered
  exact ⟨order, by rw [encodePayload, payloadList_false, run]; rfl⟩

section
variable (now : UInt64)

/-- Only the time of a message can change. -/
theorem stampTime_eq : m.stampTime now = { m with timestamp := (m.stampTime now).timestamp } := by
  unfold stampTime
  split <;> rfl

theorem stampTime_fields : (m.stampTime now).fields = m.fields := by rw [stampTime_eq]

theorem stampTime_stamp : (m.stampTime now).stamp = m.stamp := by rw [stampTime_eq]

theorem stampTime_sourceHash : (m.stampTime now).sourceHash = m.sourceHash := by rw [stampTime_eq]

theorem stampTime_destinationHash : (m.stampTime now).destinationHash = m.destinationHash := by rw [stampTime_eq]

theorem stampTime_outboundTicket : (m.stampTime now).outboundTicket = m.outboundTicket := by rw [stampTime_eq]

theorem stampTime_stampCost : (m.stampTime now).stampCost = m.stampCost := by rw [stampTime_eq]

theorem stampTime_stampTime : (m.stampTime now).stampTime now = m.stampTime now := by
  unfold stampTime
  split <;> simp_all

end

variable {m}

/-- Both hashes have the length that `Pack` asks for. -/
structure Addressed (m : LXMessage) : Prop where
  destination : m.destinationHash.length = destinationLength
  source : m.sourceHash.length = destinationLength

variable (addressed : m.Addressed) (now : UInt64)

include addressed

theorem Addressed.stampTime : (m.stampTime now).Addressed := by
  rw [stampTime_eq]
  exact ⟨addressed.destination, addressed.source⟩

theorem pack_stampTime (id : Identity) (first second : MapOrder) :
    (m.stampTime now).pack (some id) now first second = m.pack (some id) now first second := by
  have timed := addressed.stampTime now
  simp only [pack, timed.destination, timed.source, addressed.destination, addressed.source, ne_eq,
    not_true_eq_false, if_false, stampTime_stampTime]

end LXMessage

section
variable {m : LXMessage} {id : Identity} {now : UInt64} {signature : Bytes}
variable (addressed : m.Addressed) (timed : m.stampTime now = m)

/-- What the two encodings of a `Pack` write, in whatever orders. -/
theorem pack_visits (t : LXMessage) (first second : MapOrder) :
    ∃ hashed shipped, Reorder (fieldsValue t.fields) hashed ∧ Reorder (fieldsValue t.fields) shipped ∧
      encodePayload first (t.payloadList false) = encode true (.arr (t.body hashed)) ∧
      encodePayload second (t.payloadList true) = encode true (.arr (t.body shipped ++ t.stampItem)) := by
  have visit := first.reorders (.arr (t.payloadList false))
  have visit' := second.reorders (.arr (t.payloadList true))
  rw [t.payloadList_false, ← append_nil (t.body _), t.reorder_body_iff _ [] (by simp)] at visit
  rw [t.payloadList_true, t.reorder_body_iff _ _ t.stampItem_rigid] at visit'
  obtain ⟨hashed, reordered, run⟩ := visit
  obtain ⟨shipped, reordered', run'⟩ := visit'
  rw [append_nil, append_nil] at run
  refine ⟨hashed, shipped, reordered, reordered', ?_, ?_⟩
  · rw [encodePayload, t.payloadList_false, run]
  · rw [encodePayload, t.payloadList_true, run']

include addressed timed

theorem pack_eq {first second : MapOrder} {hashed shipped : Value}
    (bytes : encodePayload first (m.payloadList false) = encode true (.arr (m.body hashed)))
    (bytes' : encodePayload second (m.payloadList true) = encode true (.arr (m.body shipped ++ m.stampItem)))
    (signed : id.sign (m.signedAs hashed) = some signature) (length : signature.length = signatureLength) :
    m.pack (some id) now first second =
      let shipped := if m.stamp = [] then hashed else shipped
      (m.packedAs hashed shipped signature, .ok (m.packedAs hashed shipped signature).packed) := by
  rw [LXMessage.signedAs] at signed
  simp only [LXMessage.pack, addressed.destination, addressed.source, ne_eq, not_true_eq_false, if_false, timed,
    bytes, signed, length, LXMessage.payloadList_sealed, bytes']
  by_cases unstamped : m.stamp = []
  · simp [unstamped, LXMessage.packedAs, LXMessage.stampItem_nil unstamped]
  · have positive : 0 < m.stamp.length := length_pos_iff.mpr unstamped
    simp [unstamped, positive, LXMessage.packedAs]

/-- Every run of `Pack` visits the fields twice, or once when there is no stamp to ship. -/
theorem pack_form (first second : MapOrder)
    (signs : ∀ part ∈ m.signedParts, ∃ signature, id.sign part = some signature ∧ signature.length = signatureLength) :
    ∃ hashed shipped signature, Reorder (fieldsValue m.fields) hashed ∧ Reorder (fieldsValue m.fields) shipped ∧
      (m.stamp = [] → shipped = hashed) ∧ id.sign (m.signedAs hashed) = some signature ∧
      signature.length = signatureLength ∧ m.pack (some id) now first second =
        (m.packedAs hashed shipped signature, .ok (m.packedAs hashed shipped signature).packed) := by
  obtain ⟨hashed, shipped, reordered, reordered', bytes, bytes'⟩ := pack_visits m first second
  obtain ⟨signature, signed, length⟩ := signs _ (m.signedAs_mem reordered)
  refine ⟨hashed, if m.stamp = [] then hashed else shipped, signature, reordered, ?_, ?_, signed, length,
    pack_eq addressed timed bytes bytes' signed length⟩
  · split <;> assumption
  · exact fun none => if_pos none

omit addressed timed in
theorem pack_returned {first second : MapOrder} {sent : LXMessage} {packed : Bytes}
    (returned : m.pack (some id) now first second = (sent, .ok packed)) :
    (m.stampTime now).Addressed ∧ ∃ hashed shipped signature, Reorder (fieldsValue m.fields) shipped ∧
      signature.length = signatureLength ∧ packed = ((m.stampTime now).packedAs hashed shipped signature).packed := by
  by_cases destination : m.destinationHash.length = destinationLength
  case neg => simp [LXMessage.pack, destination] at returned
  by_cases source : m.sourceHash.length = destinationLength
  case neg => simp [LXMessage.pack, destination, source] at returned
  have addressed : (m.stampTime now).Addressed := LXMessage.Addressed.stampTime ⟨destination, source⟩ now
  have timed := m.stampTime_stampTime now
  rw [← LXMessage.pack_stampTime ⟨destination, source⟩] at returned
  rw [← m.stampTime_fields now]
  generalize m.stampTime now = t at addressed timed returned ⊢
  obtain ⟨hashed, shipped, reordered, reordered', bytes, bytes'⟩ := pack_visits t first second
  refine ⟨addressed, hashed, if t.stamp = [] then hashed else shipped, ?_⟩
  cases signed : id.sign (t.signedAs hashed) with
  | none =>
    rw [LXMessage.signedAs] at signed
    simp only [LXMessage.pack, addressed.destination, addressed.source, ne_eq, not_true_eq_false, if_false, timed,
      bytes, signed] at returned
    cases returned
  | some signature =>
    by_cases length : signature.length = signatureLength
    · rw [pack_eq addressed timed bytes bytes' signed length] at returned
      cases returned
      refine ⟨signature, ?_, length, rfl⟩
      split <;> assumption
    · rw [LXMessage.signedAs] at signed
      simp only [LXMessage.pack, addressed.destination, addressed.source, ne_eq, not_true_eq_false, if_false, timed,
        bytes, signed, length, not_false_eq_true, if_true] at returned
      cases returned

/-- Every pair of visits is one that some run of `Pack` makes. -/
theorem exists_pack_form {hashed shipped : Value} (visited : Reorder (fieldsValue m.fields) hashed)
    (visited' : Reorder (fieldsValue m.fields) shipped) (single : m.stamp = [] → shipped = hashed)
    (signed : id.sign (m.signedAs hashed) = some signature) (length : signature.length = signatureLength) :
    ∃ first second, m.pack (some id) now first second =
      (m.packedAs hashed shipped signature, .ok (m.packedAs hashed shipped signature).packed) := by
  have visit := (m.reorder_body_iff _ [] (by simp) _).mpr ⟨hashed, visited, rfl⟩
  have visit' := (m.reorder_body_iff _ _ m.stampItem_rigid _).mpr ⟨shipped, visited', rfl⟩
  rw [append_nil, append_nil] at visit
  obtain ⟨first, run⟩ := MapOrder.exists_run visit
  obtain ⟨second, run'⟩ := MapOrder.exists_run visit'
  refine ⟨first, second, ?_⟩
  rw [pack_eq addressed timed (by rw [encodePayload, m.payloadList_false, run])
    (by rw [encodePayload, m.payloadList_true, run']) signed length]
  by_cases unstamped : m.stamp = []
  · simp only [unstamped, if_true, single unstamped]
  · simp only [unstamped, if_false]

end

/-- Every length in the payload fits the four-byte length fields of msgpack. -/
structure LXMessage.Sized (m : LXMessage) : Prop where
  title : (optionalBytes m.title).Sized
  content : (optionalBytes m.content).Sized
  fields : (fieldsValue m.fields).Sized
  stamp : m.stamp.length < 2 ^ 32

theorem LXMessage.Sized.stampTime {m : LXMessage} (sized : m.Sized) (now : UInt64) : (m.stampTime now).Sized := by
  rw [stampTime_eq]
  exact ⟨sized.title, sized.content, sized.fields, sized.stamp⟩

/-- The message a receiver builds from the payload, before it looks at the signature. -/
def LXMessage.arrival (m : LXMessage) (shipped : Value) (fields : Fields) (signature : Bytes) : LXMessage where
  destinationHash := m.destinationHash
  sourceHash := m.sourceHash
  title := m.title.bind cloneBytes
  content := m.content.bind cloneBytes
  fields := some fields
  timestamp := m.timestamp
  stamp := m.stamp
  hash := messageHash m.destinationHash m.sourceHash (encode true (.arr (m.body shipped)))
  signature := signature
  packed := m.destinationHash ++ m.sourceHash ++ signature ++ encode true (.arr (m.body shipped ++ m.stampItem))
  incoming := true

section
variable {m : LXMessage} {shipped : Value} {signature : Bytes}
variable (sized : m.Sized) (visited : Reorder (fieldsValue m.fields) shipped)

include sized visited

theorem body_sized : ∀ item ∈ m.body shipped ++ m.stampItem, item.Sized := by
  intro item member
  rcases mem_append.mp member with inside | stamp
  · simp only [LXMessage.body, mem_cons, not_mem_nil, or_false] at inside
    rcases inside with rfl | rfl | rfl | rfl
    · exact .scalar trivial
    · exact sized.title
    · exact sized.content
    · exact sized.fields.reorder visited
  · unfold LXMessage.stampItem at stamp
    split at stamp
    · rw [mem_singleton.mp stamp]
      exact .bytes sized.stamp
    · cases stamp

omit sized visited in
theorem body_fits (fits : Fits payloadDecoder 0 0 shipped) :
    ∀ item ∈ m.body shipped ++ m.stampItem, Fits payloadDecoder 0 0 item := by
  have optional (data : Option Bytes) : Fits payloadDecoder 0 0 (optionalBytes data) := by
    cases data with
    | none => exact .scalar 0 0 _
    | some data => exact .bytes 0 0 data
  intro item member
  rcases mem_append.mp member with inside | stamp
  · simp only [LXMessage.body, mem_cons, not_mem_nil, or_false] at inside
    rcases inside with rfl | rfl | rfl | rfl
    · exact .scalar 0 0 _
    · exact optional m.title
    · exact optional m.content
    · exact fits
  · obtain ⟨data, rfl⟩ := m.stampItem_rigid item stamp
    exact .bytes 0 0 data

end

theorem asBytes_view_optional (data : Option Bytes) :
    asBytes (view true true false (optionalBytes data)) = .ok (data.bind cloneBytes) := by
  cases data <;> rfl

/-- `applyPayload` on the decoded elements fails only in the fields. -/
theorem applyPayload_view (m blank : LXMessage) (order : MapOrder) (shipped : Value) (fresh : blank.stamp = []) :
    blank.applyPayload order ((m.body shipped ++ m.stampItem).map (view true true false)) =
      match asFields (order.run (view true true false shipped)) with
      | .error error => .error (.fields error)
      | .ok fields => .ok { blank with
          timestamp := m.timestamp
          title := m.title.bind cloneBytes
          content := m.content.bind cloneBytes
          fields := some fields
          stamp := m.stamp } := by
  have time : asTimestamp (view true true false (.float64 m.timestamp)) = some m.timestamp := rfl
  simp only [LXMessage.body, map_cons, cons_append, nil_append, LXMessage.applyPayload, time,
    asBytes_view_optional]
  cases asFields (order.run (view true true false shipped)) with
  | error error => rfl
  | ok fields =>
    unfold LXMessage.stampItem
    by_cases unstamped : m.stamp = []
    · obtain ⟨⟩ := blank
      simp only at fresh
      simp [unstamped, fresh, Except.mapError, bind, Except.bind, pure, Except.pure]
    · have positive : 0 < m.stamp.length := length_pos_iff.mpr unstamped
      have read : asBytes (view true true false (.bytes m.stamp)) = .ok (some m.stamp) := by
        simp [view, asBytes, cloneBytes, unstamped]
      simp [positive, read, Except.mapError, bind, Except.bind, pure, Except.pure]

/-- What is behind the destination in the bytes that `Pack` makes. -/
def LXMessage.deliveredAs (m : LXMessage) (shipped : Value) (signature : Bytes) : Bytes :=
  m.sourceHash ++ signature ++ encode true (.arr (m.body shipped ++ m.stampItem))

section
variable {m : LXMessage} {hashed shipped : Value} {signature : Bytes}
variable (addressed : m.Addressed) (length : signature.length = signatureLength)

include addressed

theorem packed_drop : (m.packedAs hashed shipped signature).packed.drop destinationLength =
    m.deliveredAs shipped signature := by
  simp only [LXMessage.packedAs, LXMessage.deliveredAs, append_assoc]
  exact drop_left' addressed.destination

include length

/-- The positions at which the receiver cuts are the ones at which the sender glued. -/
theorem unpackFromBytes_parts (payload : Bytes) (resolver : Option SourceResolver) (order : MapOrder) :
    unpackFromBytes m.destinationHash (m.sourceHash ++ signature ++ payload) resolver order =
      unpackParts m.destinationHash m.sourceHash signature payload resolver order := by
  have long : ¬ (m.sourceHash ++ signature ++ payload).length < destinationLength + signatureLength := by
    simp only [length_append, addressed.source, length]
    omega
  have front : (m.sourceHash ++ signature ++ payload).take destinationLength = m.sourceHash := by
    rw [append_assoc, take_left' addressed.source]
  have middle : ((m.sourceHash ++ signature ++ payload).drop destinationLength).take signatureLength = signature := by
    rw [append_assoc, drop_left' addressed.source, take_left' length]
  have back : (m.sourceHash ++ signature ++ payload).drop (destinationLength + signatureLength) = payload := by
    rw [drop_left' (by rw [length_append, addressed.source, length])]
  unfold unpackFromBytes
  rw [if_neg (by simp [addressed.destination]), if_neg long, front, middle, back]

theorem unpack_packedAs (resolver : Option SourceResolver) (order : MapOrder) :
    unpack (m.packedAs hashed shipped signature).packed resolver order =
      unpackFromBytes m.destinationHash (m.deliveredAs shipped signature) resolver order := by
  have long : ¬ (m.packedAs hashed shipped signature).packed.length < 2 * destinationLength + signatureLength := by
    simp only [LXMessage.packedAs, length_append, addressed.destination, addressed.source, length]
    omega
  have front : (m.packedAs hashed shipped signature).packed.take destinationLength = m.destinationHash := by
    simp only [LXMessage.packedAs, append_assoc]
    exact take_left' addressed.destination
  rw [unpack, if_neg long, front, packed_drop addressed]

variable (sized : m.Sized) (visited : Reorder (fieldsValue m.fields) shipped)

include sized visited

/-- Within the decoder's limits, unpacking turns on the field keys and the resolver's answer. -/
theorem unpackFromBytes_delivered (fits : Fits payloadDecoder 0 0 shipped) (resolver : Option SourceResolver)
    (order : MapOrder) :
    unpackFromBytes m.destinationHash (m.deliveredAs shipped signature) resolver order =
      match asFields (order.run (view true true false shipped)) with
      | .error error => (none, some (.fields error))
      | .ok fields => verifySource (m.arrival shipped fields signature) (m.signedAs shipped) resolver := by
  have split := decodePayload_encode (body_sized sized visited) (m.body_count shipped) m.stampItem_short
    (body_fits fits)
  rw [LXMessage.deliveredAs, unpackFromBytes_parts addressed length, unpackParts, split]
  dsimp only
  rw [applyPayload_view m _ order shipped rfl]
  cases asFields (order.run (view true true false shipped)) with
  | error error => rfl
  | ok fields => rfl

theorem unpackFromBytes_unfit (unfit : ¬ Fits payloadDecoder 0 0 shipped) (resolver : Option SourceResolver)
    (order : MapOrder) :
    ∃ error, unpackFromBytes m.destinationHash (m.deliveredAs shipped signature) resolver order =
      (none, some error) := by
  obtain ⟨error, failed⟩ := decodePayload_error (body_sized sized visited) (m.body_count shipped)
    m.stampItem_short ⟨shipped, by simp [LXMessage.body], unfit⟩
  refine ⟨.invalidPayload error, ?_⟩
  rw [LXMessage.deliveredAs, unpackFromBytes_parts addressed length, unpackParts, failed]

/-- If unpacking yields any message, the fields were within the limits, and those of the message are
what normalisation made of them. -/
theorem decodable_of_unpacked {resolver : Option SourceResolver} {order : MapOrder} {received : LXMessage}
    {error : Option UnpackError}
    (unpacked : unpackFromBytes m.destinationHash (m.deliveredAs shipped signature) resolver order =
      (some received, error)) :
    Fits payloadDecoder 0 0 shipped ∧ ∃ fields, asFields (order.run (view true true false shipped)) = .ok fields ∧
      verifySource (m.arrival shipped fields signature) (m.signedAs shipped) resolver = (some received, error) := by
  by_cases fits : Fits payloadDecoder 0 0 shipped
  · refine ⟨fits, ?_⟩
    rw [unpackFromBytes_delivered addressed length sized visited fits] at unpacked
    cases converted : asFields (order.run (view true true false shipped)) with
    | ok fields =>
      rw [converted] at unpacked
      exact ⟨fields, rfl, unpacked⟩
    | error error =>
      rw [converted] at unpacked
      cases unpacked
  · obtain ⟨_, failed⟩ := unpackFromBytes_unfit addressed length sized visited fits resolver order
    rw [failed] at unpacked
    cases unpacked

end

theorem verifySource_cases {m received : LXMessage} {signed : Bytes} {resolver : Option SourceResolver}
    {error : Option UnpackError} (verified : verifySource m signed resolver = (some received, error)) :
    received = { m with unverifiedReason := unverifiedSourceUnknown } ∨
      received = { m with signatureValidated := true } ∨
      received = { m with unverifiedReason := unverifiedSignatureInvalid } := by
  unfold verifySource at verified
  cases resolver with
  | none =>
    cases verified
    exact .inl rfl
  | some resolve =>
    cases answer : resolve m.sourceHash with
    | error _ => simp [answer] at verified
    | ok source =>
      simp only [answer] at verified
      cases source with
      | none =>
        cases verified
        exact .inl rfl
      | some id =>
        by_cases valid : id.verify signed m.signature = true
        · simp only [valid, if_true] at verified
          cases verified
          exact .inr (.inl rfl)
        · simp only [valid] at verified
          cases verified
          exact .inr (.inr rfl)

/-- Whatever the resolver answers, a decoded message reaches the receiver with its contents. -/
theorem verifySource_returns (m : LXMessage) (signed : Bytes) {resolver : Option SourceResolver}
    (answers : ∀ resolve, resolver = some resolve → ∃ source, resolve m.sourceHash = .ok source) :
    ∃ received error, verifySource m signed resolver = (some received, error) ∧ received.hash = m.hash ∧
      received.stamp = m.stamp ∧ received.fields = m.fields := by
  have returns : ∃ received error, verifySource m signed resolver = (some received, error) := by
    unfold verifySource
    cases resolver with
    | none => exact ⟨_, _, rfl⟩
    | some resolve =>
      obtain ⟨source, answer⟩ := answers resolve rfl
      simp only [answer]
      cases source with
      | none => exact ⟨_, _, rfl⟩
      | some id =>
        by_cases valid : id.verify signed m.signature = true
        · exact ⟨_, _, if_pos valid⟩
        · exact ⟨_, _, if_neg valid⟩
  obtain ⟨received, error, verified⟩ := returns
  refine ⟨received, error, verified, ?_⟩
  rcases verifySource_cases verified with rfl | rfl | rfl <;> exact ⟨rfl, rfl, rfl⟩

end ReticulumProtocols.Lxmf
