import ReticulumProtocols.Lxmf.PackIdentity
import ReticulumProtocols.Lxmf.Stamp

/-! Stamping an outbound message. The stamp is made for the hash of a first packing and travels in a
second one; the receiver checks it against the hash of the bytes that arrive. -/

namespace ReticulumProtocols.Lxmf
open Wire Msgpack Sha256 List

/-- `GenerateStamp` for the delivery workblock: a stamp and its value, or an error. -/
abbrev StampGenerator := Bytes → Int → Option (Bytes × Int)

inductive SendError where
  | pack (error : PackError)
  | stampGeneration
  deriving DecidableEq, Repr

/-- `stampOutbound`: a ticket, an existing stamp, or a new proof of work; true when a stamp was set. -/
def stampOutbound (generate : StampGenerator) (m : LXMessage) : LXMessage × Except SendError Bool :=
  if m.outboundTicket.length = ticketLength then
    ({ m with stamp := truncatedHash m.outboundTicket m.hash, stampValue := stampValueTicket, stampValid := true },
      .ok true)
  else
    match m.stampCost with
    | none => (m, .ok false)
    | some cost =>
      if 0 < m.stamp.length ∨ cost ≤ 0 then (m, .ok false)
      else
        match generate m.hash cost with
        | none => (m, .error .stampGeneration)
        | some (stamp, value) => ({ m with stamp := stamp, stampValue := value, stampValid := true }, .ok true)

/-- The packing part of `send`: pack, stamp, and pack again if a stamp was set. -/
def packStamped (generate : StampGenerator) (signer : Option Identity) (m : LXMessage) (now later : UInt64)
    (one two : MapOrder × MapOrder) : LXMessage × Except SendError Unit :=
  match m.pack signer now one.1 one.2 with
  | (m, .error error) => (m, .error (.pack error))
  | (m, .ok _) =>
    match stampOutbound generate m with
    | (m, .error error) => (m, .error error)
    | (m, .ok false) => (m, .ok ())
    | (m, .ok true) =>
      match m.pack signer later two.1 two.2 with
      | (m, .error error) => (m, .error (.pack error))
      | (m, .ok _) => (m, .ok ())

/-- The hash of the message when the hashed encoding visits the fields as `hashed`. -/
def LXMessage.hashAs (m : LXMessage) (hashed : Value) : Bytes :=
  messageHash m.destinationHash m.sourceHash (encode true (.arr (m.body hashed)))

theorem LXMessage.hashAs_ne_nil (m : LXMessage) (hashed : Value) : m.hashAs hashed ≠ [] := by
  intro empty
  have length := congrArg List.length empty
  simp [LXMessage.hashAs, messageHash] at length

/-- There is a 16-byte ticket to redeem, or a proof-of-work cost for which a generator finds valid
stamps on every hash that the message can get. -/
def Stampable (generate : StampGenerator) (m : LXMessage) : Prop :=
  m.outboundTicket.length = ticketLength ∨
    m.outboundTicket.length ≠ ticketLength ∧ m.stamp = [] ∧ ∃ cost, m.stampCost = some cost ∧ 1 ≤ cost ∧ cost ≤ 255 ∧
      ∀ hashed, Reorder (fieldsValue m.fields) hashed → ∃ stamp value workblock,
        generate (m.hashAs hashed) cost = some (stamp, value) ∧
        stampWorkblock (m.hashAs hashed) workblockExpandRounds = some workblock ∧
        stampValid stamp cost workblock = true

/-- `ValidateStamp` succeeds with the ticket in the list, or with the cost. -/
def StampAccepted (m received : LXMessage) : Prop :=
  if m.outboundTicket.length = ticketLength then
    ∀ cost tickets, m.outboundTicket ∈ tickets → (received.validateStamp cost tickets).2 = .ok true
  else ∀ cost, m.stampCost = some cost → ∀ tickets, (received.validateStamp cost tickets).2 = .ok true

/-- In every map order of all four encodings the receiver gets a message with an accepted stamp. -/
def StampsArrive (generate : StampGenerator) (id : Identity) (resolver : Option SourceResolver) (m : LXMessage)
    (now : UInt64) : Prop :=
  ∀ later one two order, ∃ sent received error, packStamped generate (some id) m now later one two = (sent, .ok ()) ∧
    unpackFromBytes m.destinationHash (sent.packed.drop destinationLength) resolver order = (some received, error) ∧
    StampAccepted m received

/-- A stamp made for one hash of the message is worthless under a different one. -/
def StampBinding (generate : StampGenerator) (m : LXMessage) : Prop :=
  ∀ hashed shipped, Reorder (fieldsValue m.fields) hashed → Reorder (fieldsValue m.fields) shipped →
    encode true hashed ≠ encode true shipped →
    if m.outboundTicket.length = ticketLength then
      truncatedHash m.outboundTicket (m.hashAs hashed) ≠ truncatedHash m.outboundTicket (m.hashAs shipped)
    else ∀ cost stamp value workblock, m.stampCost = some cost →
      generate (m.hashAs hashed) cost = some (stamp, value) →
      stampWorkblock (m.hashAs shipped) workblockExpandRounds = some workblock →
      stampValid stamp cost workblock = false

/-- What the stamping step must put into a message for its current hash. -/
def StampMade (generate : StampGenerator) (m : LXMessage) (stamp : Bytes) : Prop :=
  if m.outboundTicket.length = ticketLength then stamp = truncatedHash m.outboundTicket m.hash
  else ∃ cost value workblock, m.stampCost = some cost ∧ 1 ≤ cost ∧ generate m.hash cost = some (stamp, value) ∧
    stampWorkblock m.hash workblockExpandRounds = some workblock ∧ stampValid stamp cost workblock = true

theorem stampMade_length {generate : StampGenerator} {m : LXMessage} {stamp : Bytes}
    (made : StampMade generate m stamp) : stamp.length = 16 ∨ stamp.length = 32 := by
  unfold StampMade at made
  split at made
  · exact .inl (by rw [made, truncatedHash_length])
  · obtain ⟨cost, _, _, _, positive, _, _, valid⟩ := made
    right
    by_contra wrong
    rw [stampValid, if_neg (by omega), if_pos wrong] at valid
    cases valid

theorem stampAccepted_of_made {generate : StampGenerator} {m packed received : LXMessage} {stamp : Bytes}
    (made : StampMade generate packed stamp) (ticket : packed.outboundTicket = m.outboundTicket)
    (costs : packed.stampCost = m.stampCost) (hashed : packed.hash ≠ []) (hash : received.hash = packed.hash)
    (carried : received.stamp = stamp) : StampAccepted m received := by
  have stamped : received.stamp ≠ [] := by
    intro empty
    have length := stampMade_length made
    rw [← carried, empty] at length
    simp at length
  unfold StampMade at made
  unfold StampAccepted
  rw [← hash] at hashed
  rw [ticket] at made
  split
  next length =>
    rw [if_pos length, ← hash] at made
    intro cost tickets member
    exact validateStamp_ticket received cost tickets member length hashed stamped (carried.trans made).symm
  next length =>
    rw [if_neg length, ← hash, costs] at made
    obtain ⟨cost, _, workblock, same, _, _, expanded, valid⟩ := made
    intro cost' same' tickets
    rw [same] at same'
    cases same'
    exact validateStamp_work received cost tickets hashed stamped expanded (by rwa [carried])

/-- A 16-byte stamp that no ticket explains is no proof of work either. -/
theorem validateStamp_rejects {m : LXMessage} {tickets : List Bytes} {cost : Int} (positive : 0 < cost)
    (none : ∀ ticket ∈ tickets, truncatedHash ticket m.hash ≠ m.stamp)
    (weak : m.stamp.length ≠ stampSize ∨ ∀ workblock, stampWorkblock m.hash workblockExpandRounds = some workblock →
      stampValid m.stamp cost workblock = false) : (m.validateStamp cost tickets).2 ≠ .ok true := by
  have unmatched : ¬ (m.stamp ≠ [] ∧ ∃ ticket ∈ tickets,
      ticket.length = ticketLength ∧ truncatedHash ticket m.hash = m.stamp) := by
    rintro ⟨_, ticket, member, _, matched⟩
    exact none ticket member matched
  unfold LXMessage.validateStamp
  rw [if_neg unmatched]
  split
  · simp
  split
  · simp
  split
  · simp
  next workblock expanded =>
    have invalid : stampValid m.stamp cost workblock = false := by
      rcases weak with short | invalid
      · rw [stampValid, if_neg (by omega), if_pos short]
      · exact invalid workblock expanded
    simp [invalid]

namespace LXMessage

/-- The message as `stampOutbound` leaves it: packed once, and stamped for the hash of that packing. -/
def stampedAs (m : LXMessage) (hashed shipped : Value) (signature stamp : Bytes) (value : Int) : LXMessage :=
  { m.packedAs hashed shipped signature with stamp := stamp, stampValue := value, stampValid := true }

theorem stampTime_of_set {m : LXMessage} (now : UInt64) (clock : m.timestampUnset = false) : m.stampTime now = m :=
  if_neg (by simp [clock])

theorem Addressed.stampedAs {m : LXMessage} (addressed : m.Addressed) (hashed shipped : Value) (signature stamp : Bytes)
    (value : Int) : (m.stampedAs hashed shipped signature stamp value).Addressed :=
  ⟨addressed.destination, addressed.source⟩

theorem Sized.stampedAs {m packed : LXMessage} {generate : StampGenerator} {stamp : Bytes} (sized : m.Sized)
    (made : StampMade generate packed stamp) (hashed shipped : Value) (signature : Bytes) (value : Int) :
    (m.stampedAs hashed shipped signature stamp value).Sized := by
  refine ⟨sized.title, sized.content, sized.fields, ?_⟩
  have lengths := stampMade_length made
  change stamp.length < 2 ^ 32
  omega

end LXMessage

section
variable {generate : StampGenerator} {id : Identity} {resolver : Option SourceResolver} {m : LXMessage}
variable (addressed : m.Addressed) (sized : m.Sized) (clock : m.timestampUnset = false)
variable (signs : ∀ part ∈ m.signedParts, ∃ signature, id.sign part = some signature ∧ signature.length = signatureLength)
variable (answers : ∀ resolve, resolver = some resolve → ∃ source, resolve m.sourceHash = .ok source)
variable (stampable : Stampable generate m)

include stampable in
/-- After a first packing, `stampOutbound` sets a stamp for the hash of that packing. -/
theorem stampOutbound_packed {hashed : Value} (shipped : Value) (signature : Bytes)
    (visited : Reorder (fieldsValue m.fields) hashed) :
    ∃ stamp value, stampOutbound generate (m.packedAs hashed shipped signature) =
        (m.stampedAs hashed shipped signature stamp value, .ok true) ∧
      StampMade generate (m.packedAs hashed shipped signature) stamp := by
  unfold stampOutbound StampMade LXMessage.stampedAs
  rcases stampable with ticket | ⟨none, unstamped, cost, costs, low, high, generated⟩
  · simp [LXMessage.packedAs, ticket]
  · obtain ⟨stamp, value, workblock, found, expanded, valid⟩ := generated hashed visited
    rw [LXMessage.hashAs] at found expanded
    refine ⟨stamp, value, ?_, ?_⟩
    · simp only [LXMessage.packedAs, none, costs, unstamped, length_nil, if_false, found]
      rw [if_neg (by omega)]
    · exact (if_neg none).mpr ⟨cost, value, workblock, costs, low, found, expanded, valid⟩

section
include addressed clock signs stampable

/-- Every run of the pipeline packs, stamps that hash, and packs the stamped message again. -/
theorem packStamped_form (now later : UInt64) (one two : MapOrder × MapOrder) :
    ∃ hashed shipped signature stamp value hashed' shipped' signature',
      Reorder (fieldsValue m.fields) hashed ∧ Reorder (fieldsValue m.fields) shipped' ∧
      StampMade generate (m.packedAs hashed shipped signature) stamp ∧ signature'.length = signatureLength ∧
      packStamped generate (some id) m now later one two =
        ((m.stampedAs hashed shipped signature stamp value).packedAs hashed' shipped' signature', .ok ()) := by
  obtain ⟨hashed, shipped, signature, visited, _, _, _, _, packed⟩ :=
    pack_form addressed (LXMessage.stampTime_of_set now clock) one.1 one.2 signs
  obtain ⟨stamp, value, stamped, made⟩ := stampOutbound_packed stampable shipped signature visited
  obtain ⟨hashed', shipped', signature', _, visited', _, _, length, packed'⟩ :=
    pack_form (addressed.stampedAs hashed shipped signature stamp value) (LXMessage.stampTime_of_set later clock)
      two.1 two.2 signs
  refine ⟨hashed, shipped, signature, stamp, value, hashed', shipped', signature', visited, visited', made, length, ?_⟩
  simp only [packStamped, packed, stamped, packed']

/-- Every way to visit the fields for the first hash and for the shipped payload is one that some run takes. -/
theorem exists_packStamped_form (now : UInt64) {hashed shipped : Value} (visited : Reorder (fieldsValue m.fields) hashed)
    (visited' : Reorder (fieldsValue m.fields) shipped) :
    ∃ one two signature stamp value, StampMade generate (m.packedAs hashed hashed signature) stamp ∧
      signature.length = signatureLength ∧ packStamped generate (some id) m now now one two =
        ((m.stampedAs hashed hashed signature stamp value).packedAs hashed shipped signature, .ok ()) := by
  obtain ⟨signature, signed, length⟩ := signs _ (m.signedAs_mem visited)
  obtain ⟨first, second, packed⟩ := exists_pack_form addressed (LXMessage.stampTime_of_set now clock) visited visited
    (fun _ => rfl) signed length
  obtain ⟨stamp, value, stamped, made⟩ := stampOutbound_packed stampable hashed signature visited
  have present : stamp ≠ [] := by
    intro empty
    have length := stampMade_length made
    rw [empty] at length
    simp at length
  obtain ⟨first', second', packed'⟩ :=
    exists_pack_form (addressed.stampedAs hashed hashed signature stamp value)
      (LXMessage.stampTime_of_set now clock) visited visited' (fun none => absurd none present) signed length
  refine ⟨(first, second), (first', second'), signature, stamp, value, made, length, ?_⟩
  simp only [packStamped, packed, stamped, packed']

end

include addressed sized

include answers in
theorem unpack_stampedAs {hashed shipped shipped' : Value} {signature stamp signature' : Bytes} (value : Int)
    (made : StampMade generate (m.packedAs hashed shipped signature) stamp)
    (visited : Reorder (fieldsValue m.fields) shipped') (length : signature'.length = signatureLength)
    (deliverable : Deliverable m.fields) (order : MapOrder) :
    ∃ received error, unpackFromBytes m.destinationHash
        ((m.stampedAs hashed shipped signature stamp value).deliveredAs shipped' signature') resolver order =
          (some received, error) ∧
      received.hash = m.hashAs shipped' ∧ received.stamp = stamp := by
  obtain ⟨out, converted⟩ := asFields_of_byteKeyed visited deliverable.2 order
  have unpacked := unpackFromBytes_delivered (addressed.stampedAs hashed shipped signature stamp value) length
    (sized.stampedAs made ..) visited (deliverable.1.reorder visited) resolver order
  rw [converted] at unpacked
  obtain ⟨received, error, verified, hash, carried, _⟩ := verifySource_returns
    ((m.stampedAs hashed shipped signature stamp value).arrival shipped' out signature') (m.signedAs shipped') answers
  exact ⟨received, error, unpacked.trans verified, hash, carried⟩

include signs clock stampable

variable {now : UInt64}

include answers in
theorem stampsArrive_of_orderFree (deliverable : Deliverable m.fields)
    (free : OrderFree true (fieldsValue m.fields)) : StampsArrive generate id resolver m now := by
  intro later one two order
  obtain ⟨hashed, shipped, signature, stamp, value, hashed', shipped', signature', visited, visited', made, length,
    packed⟩ := packStamped_form addressed clock signs stampable now later one two
  obtain ⟨received, error, unpacked, hash, carried⟩ :=
    unpack_stampedAs addressed sized answers value made visited' length deliverable order
  refine ⟨_, received, error, packed, ?_, ?_⟩
  · rw [packed_drop (addressed.stampedAs ..)]
    exact unpacked
  · have same : encode true shipped' = encode true hashed := by
      rw [encode_reorder_of_orderFree true visited free, encode_reorder_of_orderFree true visited' free]
    have hashes : m.hashAs shipped' = m.hashAs hashed := by
      rw [LXMessage.hashAs, LXMessage.hashAs, m.encode_body_congr same]
    exact stampAccepted_of_made made rfl rfl (m.hashAs_ne_nil hashed) (hash.trans hashes) carried

theorem deliverable_of_stampsArrive (arrive : StampsArrive generate id resolver m now) : Deliverable m.fields := by
  apply deliverable_of_decodable
  intro shipped visited
  obtain ⟨one, two, signature, stamp, value, made, length, packed⟩ :=
    exists_packStamped_form addressed clock signs stampable now visited visited
  obtain ⟨_, received, error, sent, unpacked, _⟩ := arrive now one two MapOrder.listed
  rw [packed] at sent
  cases sent
  rw [packed_drop (addressed.stampedAs ..)] at unpacked
  obtain ⟨fits, out, converted, _⟩ := decodable_of_unpacked (addressed.stampedAs ..) length (sized.stampedAs made ..)
    visited unpacked
  exact ⟨fits, out, converted⟩

include answers in
theorem orderFree_of_stampsArrive (arrive : StampsArrive generate id resolver m now)
    (binding : StampBinding generate m) : OrderFree true (fieldsValue m.fields) := by
  have deliverable := deliverable_of_stampsArrive addressed sized clock signs stampable arrive
  apply orderFree_of_encode_reorder true _ sized.fields
  intro shipped visited
  by_contra differ
  have worthless := binding _ shipped (Reorder.refl _) visited (Ne.symm differ)
  obtain ⟨one, two, signature, stamp, value, made, length, packed⟩ :=
    exists_packStamped_form addressed clock signs stampable now (Reorder.refl _) visited
  obtain ⟨received, error, unpacked, hash, carried⟩ :=
    unpack_stampedAs addressed sized answers value made visited length deliverable MapOrder.listed
  obtain ⟨_, arrived, _, sent, unpacked', accepted⟩ := arrive now one two MapOrder.listed
  rw [packed] at sent
  cases sent
  rw [packed_drop (addressed.stampedAs ..), unpacked] at unpacked'
  cases unpacked'
  rw [StampAccepted] at accepted
  change if m.outboundTicket.length = ticketLength then _ else _ at made
  by_cases redeemed : m.outboundTicket.length = ticketLength
  · rw [if_pos redeemed] at accepted made worthless
    refine validateStamp_rejects (by decide) ?_ (.inl ?_) (accepted 1 [m.outboundTicket] (by simp))
    · intro other member
      rw [mem_singleton.mp member, hash, carried, made]
      exact Ne.symm worthless
    · rw [carried, made, truncatedHash_length]
      decide
  · rw [if_neg redeemed] at accepted made worthless
    obtain ⟨cost, value', workblock, costs, low, found, _, _⟩ := made
    refine validateStamp_rejects (by omega) (by simp) (.inr ?_) (accepted cost costs [])
    intro workblock' expanded
    rw [hash] at expanded
    rw [carried]
    exact worthless cost stamp value' workblock' costs found expanded

end

section
variable {generate : StampGenerator} {id : Identity} {resolver : Option SourceResolver} {m : LXMessage}
variable {now : UInt64}
variable (destination : m.destinationHash.length = destinationLength)
variable (source : m.sourceHash.length = destinationLength)
variable (sized : m.Sized)
variable (signs : ∀ part ∈ (m.stampTime now).signedParts,
  ∃ signature, id.sign part = some signature ∧ signature.length = signatureLength)
variable (clock : (m.stampTime now).timestampUnset = false)
variable (answers : ∀ resolve, resolver = some resolve → ∃ source, resolve m.sourceHash = .ok source)
variable (stampable : Stampable generate (m.stampTime now))

include destination source sized signs clock answers stampable

/-- Stamps are accepted whatever the map orders if the fields are deliverable and their bytes do not depend
on the order; and only then, as far as a stamp is worthless under another hash than its own. -/
theorem stampsArrive_iff :
    (Deliverable m.fields ∧ OrderFree true (fieldsValue m.fields) → StampsArrive generate id resolver m now) ∧
      (StampsArrive generate id resolver m now → Deliverable m.fields) ∧
      (StampBinding generate (m.stampTime now) → StampsArrive generate id resolver m now →
        OrderFree true (fieldsValue m.fields)) := by
  -- it is as good to send the message once it has its time
  have addressed := LXMessage.Addressed.stampTime ⟨destination, source⟩ now
  have timely : StampsArrive generate id resolver (m.stampTime now) now ↔ StampsArrive generate id resolver m now := by
    simp only [StampsArrive, packStamped, LXMessage.pack_stampTime ⟨destination, source⟩, StampAccepted,
      m.stampTime_destinationHash, m.stampTime_outboundTicket, m.stampTime_stampCost]
  have sized := sized.stampTime now
  rw [← m.stampTime_sourceHash now] at answers
  rw [← timely, ← m.stampTime_fields now]
  refine ⟨?_, ?_, ?_⟩
  · rintro ⟨deliverable, free⟩
    exact stampsArrive_of_orderFree addressed sized clock signs answers stampable deliverable free
  · exact deliverable_of_stampsArrive addressed sized clock signs stampable
  · intro binding arrive
    exact orderFree_of_stampsArrive addressed sized clock signs answers stampable arrive binding

end

/-- Two fields, no stamp yet, and a ticket to redeem. -/
def ticketPair : LXMessage := { stampedPair with stamp := [], outboundTicket := replicate 16 9 }

/-- The second packing ships the fields in the other order: the ticket no longer explains the stamp. -/
theorem ticketPair_unredeemed :
    ticketPair.outboundTicket.length = ticketLength ∧
      (let sent :=
         (packStamped (fun _ _ => none) (some echoIdentity) ticketPair 1 1 (.listed, .listed) (.listed, .reversed)).1
       (unpackFromBytes ticketPair.destinationHash (sent.packed.drop destinationLength) none .listed).1.map
         (fun received => (received.stamp.length,
           decide (received.stamp = truncatedHash ticketPair.outboundTicket received.hash))) = some (16, false)) ∧
      ¬ StampsArrive (fun _ _ => none) echoIdentity none ticketPair 1 := by
  have run : (unpackFromBytes ticketPair.destinationHash ((packStamped (fun _ _ => none) (some echoIdentity)
      ticketPair 1 1 (.listed, .listed) (.listed, .reversed)).1.packed.drop destinationLength) none .listed).1.map
        (fun received => (received.stamp.length,
          decide (received.stamp = truncatedHash ticketPair.outboundTicket received.hash))) = some (16, false) := by
    decide +kernel
  refine ⟨rfl, run, ?_⟩
  intro arrive
  obtain ⟨sent, received, error, packed, unpacked, accepted⟩ :=
    arrive 1 (.listed, .listed) (.listed, .reversed) .listed
  rw [packed, unpacked] at run
  simp only [Option.map_some, Option.some.injEq, Prod.mk.injEq, decide_eq_false_iff_not] at run
  have length : ticketPair.outboundTicket.length = ticketLength := rfl
  rw [StampAccepted, if_pos length] at accepted
  refine validateStamp_rejects (by decide) ?_ (.inl (by rw [run.1]; decide))
    (accepted 1 [ticketPair.outboundTicket] (by simp))
  intro ticket member
  rw [mem_singleton.mp member]
  exact Ne.symm run.2

/-- One field and the same ticket: the stamp is accepted whatever the orders. -/
theorem ticketSingle_redeemed :
    StampsArrive (fun _ _ => none) echoIdentity none
      { ticketPair with fields := some ((∅ : Fields).insert 1 .nil) } 1 := by
  have listed : fieldsValue (some ((∅ : Fields).insert 1 .nil)) = .map .byte [(byteKey 1, .nil)] := rfl
  have sized : LXMessage.Sized { ticketPair with fields := some ((∅ : Fields).insert 1 .nil) } := by
    refine ⟨nil_sized, nil_sized, ?_, by decide⟩
    rw [listed]
    refine .map ⟨by decide, by simp [byteKey, Scalar.Sized]⟩ ?_
    intro entry member
    rw [mem_singleton.mp member]
    exact nil_sized
  have signer : SignsExactly echoIdentity
      (LXMessage.stampTime { ticketPair with fields := some ((∅ : Fields).insert 1 .nil) } 1).signedParts :=
    echoIdentity_signsExactly rfl rfl (by decide +kernel)
  refine (stampsArrive_iff rfl rfl sized signer.signs rfl (by simp) (.inl rfl)).1 ⟨?_, ?_⟩
  · exact deliverable_of_scalars _ (by decide) (by simp)
  · rw [listed]
    refine .map ?_ ?_
    · intro entry member other member'
      rw [mem_singleton.mp member, mem_singleton.mp member']
    · intro entry member
      rw [mem_singleton.mp member]
      exact .scalar trivial

end ReticulumProtocols.Lxmf
