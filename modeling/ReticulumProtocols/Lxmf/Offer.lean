import ReticulumProtocols.Lxmf.Mailbox
import ReticulumProtocols.Lxmf.Peer

/-! The receiving side of a synchronisation, and the exchange as a whole: an offer travels to the peer as
bytes, the answer travels back as bytes, and in between the store of the sender may change. -/

namespace ReticulumProtocols.Lxmf
open Wire Msgpack List

abbrev offerAccepted : UInt8 := 1

structure OfferConfig where
  identityHash : Bytes
  peeringCost : Int := 0
  staticPeers : List Bytes := []
  staticPeersBypassSequential : Bool := false
  sequentialPNStampValidation : Bool := false
  maxInboundSyncs : Int := 0
  fromStaticOnly : Bool := false

/-- The part of the router that `offerRequestHandler` works on. -/
structure OfferDesk where
  store : MessageStore
  validatingFrom : List Bytes := []
  throttledPeers : GoMap Bytes Float := ∅
  validatedPeerLinks : List Bytes := []
  acceptedOfferLinks : GoMap Bytes UInt8 := ∅

inductive OfferAnswer where
  | error (code : UInt8)
  | noneWanted
  | allWanted
  | wanted (ids : List Bytes)
  deriving DecidableEq, Repr

def OfferAnswer.value : OfferAnswer → Value
  | .error code => .int (.of .int code.toNat)
  | .noneWanted => .bool false
  | .allWanted => .bool true
  | .wanted ids => .arr (ids.map .bytes)

def OfferAnswer.isError : OfferAnswer → Bool
  | .error _ => true
  | _ => false

/-- `maxInboundSyncs`. -/
def OfferConfig.inboundSyncs (c : OfferConfig) : Int := if 0 < c.maxInboundSyncs then c.maxInboundSyncs else 3

namespace OfferDesk
variable (desk : OfferDesk)

/-- `propagationResourcesTransferring`. -/
def resourcesTransferring : Int :=
  (desk.acceptedOfferLinks.entries.filter fun entry => offerAccepted < entry.2).length

/-- `throttled`, which forgets a peer whose time is over. -/
def throttled (peer : Bytes) (now : Int) : OfferDesk × Bool :=
  match desk.throttledPeers.lookup peer with
  | none => (desk, false)
  | some until_ =>
    if clock now ≥ until_ then ({ desk with throttledPeers := desk.throttledPeers.erase peer }, false)
    else (desk, true)

/-- The offered ids that are not in the store; empty ones are passed over. -/
def missing (transientIDs : List Value) : List Bytes :=
  (byteItems transientIDs).filter fun tid => tid ≠ [] ∧ (desk.store.get tid).isNone

end OfferDesk

def validatePeeringKey (peeringID peeringKey : Bytes) (targetCost : Int) : Bool :=
  match stampWorkblock peeringID workblockExpandRoundsPeering with
  | none => false
  | some workblock => stampValid peeringKey targetCost workblock

namespace OfferDesk
variable (desk : OfferDesk)

def answer (linkID : Bytes) (transientIDs : List Value) : OfferDesk × OfferAnswer :=
  let desk := { desk with validatedPeerLinks := linkID :: desk.validatedPeerLinks }
  let wanted := desk.missing transientIDs
  if wanted = [] then (desk, .noneWanted)
  else if wanted.length = transientIDs.length then (desk, .allWanted)
  else ({ desk with acceptedOfferLinks := desk.acceptedOfferLinks.insert linkID offerAccepted }, .wanted wanted)

/-- `offerRequestHandler` behind the checks of the sender. -/
def answerRequest (c : OfferConfig) (id : RemoteIdentity) (linkID data : Bytes) : OfferDesk × OfferAnswer :=
  match unmarshalSlice data with
  | .ok (.bytes peeringKey :: .arr transientIDs :: _) =>
    if validatePeeringKey (c.identityHash ++ id.hash) peeringKey c.peeringCost = false then
      (desk, .error peerErrorInvalidKey)
    else desk.answer linkID transientIDs
  | _ => (desk, .error peerErrorInvalidData)

def offerRequestHandler (c : OfferConfig) (data linkID : Bytes) (remoteIdentity : Option RemoteIdentity) (now : Int) :
    OfferDesk × OfferAnswer :=
  match remoteIdentity with
  | none => (desk, .error peerErrorNoIdentity)
  | some id =>
    match id.propagationHash with
    | none => (desk, .error peerErrorInvalidData)
    | some propHash =>
      let bypassSeq := propHash ∈ c.staticPeers ∧ c.staticPeersBypassSequential = true
      let seqBusy := c.sequentialPNStampValidation = true ∧ desk.validatingFrom ≠ []
      let syncBusy := 0 < c.inboundSyncs ∧ c.inboundSyncs ≤ desk.resourcesTransferring
      if ¬bypassSeq ∧ (seqBusy ∨ syncBusy) then (desk, .error peerErrorThrottled)
      else
        match desk.throttled propHash now with
        | (desk, true) => (desk, .error peerErrorThrottled)
        | (desk, false) =>
          if c.fromStaticOnly = true ∧ propHash ∉ c.staticPeers then (desk, .error peerErrorNoAccess)
          else desk.answerRequest c id linkID data

end OfferDesk

/-- What the other end of a link reads of a response: it is packed behind the request's id. -/
def overLink (requestID : Bytes) (response : Value) : Option Value :=
  match unmarshalSlice (encode false (.arr [.bytes requestID, response])) with
  | .ok (_ :: value :: _) => some value
  | _ => none

/-- Every length in the request of an offer fits its length field. -/
structure OfferSized (peeringKey : Option Bytes) (ids : List Bytes) : Prop where
  key : ∀ key, peeringKey = some key → key.length < 2 ^ 32
  count : ids.length < 2 ^ 32
  each : ∀ id ∈ ids, id.length < 2 ^ 32

section
variable {ids : List Bytes}

theorem sized_slices (count : ids.length < 2 ^ 32) (each : ∀ id ∈ ids, id.length < 2 ^ 32) :
    (Value.arr (ids.map .bytes)).Sized := by
  refine .arr (by simpa [SizedNode] using count) fun item member => ?_
  obtain ⟨id, among, rfl⟩ := mem_map.1 member
  exact .bytes (each id among)

theorem fits_slices : Fits sliceDecoder 3 0 (.arr (ids.map .bytes)) := by
  apply Fits.arr
  · intro _
    decide
  · intro item member
    obtain ⟨id, _, rfl⟩ := mem_map.1 member
    exact Fits.bytes _ _ _

theorem view_slices : view false false false (.arr (ids.map .bytes)) = .arr (ids.map .bytes) := by
  have same : view false false false ∘ Value.bytes = Value.bytes := rfl
  rw [view, viewItems_eq_map, map_map, same]

end

theorem sized_optionalBytes {peeringKey : Option Bytes} (sized : ∀ key, peeringKey = some key → key.length < 2 ^ 32) :
    (optionalBytes peeringKey).Sized := by
  cases peeringKey with
  | none => exact .scalar trivial
  | some key => exact .bytes (sized key rfl)

theorem unmarshalSlice_offerRequest {peeringKey : Option Bytes} {ids : List Bytes} (sized : OfferSized peeringKey ids) :
    unmarshalSlice (Peer.offerRequest peeringKey ids) = .ok [optionalBytes peeringKey, .arr (ids.map .bytes)] := by
  have key : view false false false (optionalBytes peeringKey) = optionalBytes peeringKey := by
    cases peeringKey <;> rfl
  have decoded := unmarshalSlice_encode false [optionalBytes peeringKey, .arr (ids.map .bytes)] (by simp) (by
    intro item member
    rcases mem_pair.1 member with rfl | rfl
    · exact sized_optionalBytes sized.key
    · exact sized_slices sized.count sized.each) (by
    intro item member
    rcases mem_pair.1 member with rfl | rfl
    · cases peeringKey
      · exact Fits.scalar _ _ _
      · exact Fits.bytes _ _ _
    · exact fits_slices)
  rw [Peer.offerRequest, decoded, map_cons, map_cons, map_nil, key, view_slices]

/-- The offered ids that the receiver asks for. -/
def absent (remote : MessageStore) (ids : List Bytes) : List Bytes :=
  ids.filter fun id => id ≠ [] ∧ (remote.get id).isNone

def answerFor (remote : MessageStore) (ids : List Bytes) : OfferAnswer :=
  if absent remote ids = [] then .noneWanted
  else if (absent remote ids).length = ids.length then .allWanted
  else .wanted (absent remote ids)

section
variable (desk : OfferDesk) (c : OfferConfig) {peeringKey : Option Bytes} {ids : List Bytes}

theorem answer_eq (linkID : Bytes) : (desk.answer linkID (ids.map .bytes)).2 = answerFor desk.store ids := by
  unfold OfferDesk.answer OfferDesk.missing answerFor absent
  simp only [byteItems_map, length_map]
  split
  · rfl
  · split <;> rfl

theorem throttled_cases (peer : Bytes) (now : Int) :
    (desk.throttled peer now).1.store = desk.store ∧
      ((desk.throttled peer now).2 = false ↔
        ∀ until_, desk.throttledPeers.lookup peer = some until_ → clock now ≥ until_) := by
  unfold OfferDesk.throttled
  split
  next none => simp [none]
  next until_ found =>
    rw [found]
    by_cases passed : clock now ≥ until_
    · rw [if_pos passed]
      exact ⟨rfl, fun _ other same => Option.some.inj same ▸ passed, fun _ => rfl⟩
    · rw [if_neg passed]
      exact ⟨rfl, fun open_ => absurd open_ (by simp), fun all => absurd (all until_ rfl) passed⟩

end

/-- The receiver has time for the peer, lets it sync, and finds its key good enough. -/
structure OfferDesk.Welcomes (desk : OfferDesk) (c : OfferConfig) (id : RemoteIdentity) (propHash key : Bytes)
    (now : Int) : Prop where
  free : (propHash ∈ c.staticPeers ∧ c.staticPeersBypassSequential = true) ∨
    ¬((c.sequentialPNStampValidation = true ∧ desk.validatingFrom ≠ []) ∨
      (0 < c.inboundSyncs ∧ c.inboundSyncs ≤ desk.resourcesTransferring))
  unthrottled : ∀ until_, desk.throttledPeers.lookup propHash = some until_ → clock now ≥ until_
  allowed : c.fromStaticOnly = true → propHash ∈ c.staticPeers
  proved : validatePeeringKey (c.identityHash ++ id.hash) key c.peeringCost = true

/-- The receiver looks at the offered ids. -/
def OfferDesk.Admits (desk : OfferDesk) (c : OfferConfig) (peeringKey : Option Bytes)
    (remoteIdentity : Option RemoteIdentity) (now : Int) : Prop :=
  ∃ id propHash key, remoteIdentity = some id ∧ id.propagationHash = some propHash ∧ peeringKey = some key ∧
    desk.Welcomes c id propHash key now

section
variable (desk : OfferDesk) (c : OfferConfig) {peeringKey : Option Bytes} {ids : List Bytes}

theorem answerRequest_cases (sized : OfferSized peeringKey ids) (id : RemoteIdentity) (linkID : Bytes) :
    let given := (desk.answerRequest c id linkID (Peer.offerRequest peeringKey ids)).2
    let proved := ∃ key, peeringKey = some key ∧ validatePeeringKey (c.identityHash ++ id.hash) key c.peeringCost = true
    (proved ∧ given = answerFor desk.store ids) ∨
      (¬proved ∧ ∃ code, given = .error code ∧ code ≠ peerErrorNoIdentity) := by
  dsimp only
  unfold OfferDesk.answerRequest
  rw [unmarshalSlice_offerRequest sized]
  cases peeringKey with
  | none => exact .inr ⟨by simp, _, rfl, by decide⟩
  | some key =>
    simp only [optionalBytes, Option.some.injEq, exists_eq_left']
    by_cases valid : validatePeeringKey (c.identityHash ++ id.hash) key c.peeringCost = true
    · rw [if_neg (by simp [valid])]
      exact .inl ⟨valid, answer_eq desk linkID⟩
    · rw [if_pos (by simpa using valid)]
      exact .inr ⟨valid, _, rfl, by decide⟩

/-- An offer is answered from the store, or turned down with an error code that says whether the sender is
known. -/
theorem offerRequestHandler_cases (sized : OfferSized peeringKey ids) (linkID : Bytes)
    (remoteIdentity : Option RemoteIdentity) (now : Int) :
    let given := (desk.offerRequestHandler c (Peer.offerRequest peeringKey ids) linkID remoteIdentity now).2
    let admitted := desk.Admits c peeringKey remoteIdentity now
    (admitted ∧ given = answerFor desk.store ids) ∨
      (¬admitted ∧ ∃ code, given = .error code ∧ (code = peerErrorNoIdentity ↔ remoteIdentity = none)) := by
  dsimp only
  unfold OfferDesk.offerRequestHandler OfferDesk.Admits
  cases remoteIdentity with
  | none => exact .inr ⟨by simp, _, rfl, by simp⟩
  | some id =>
  simp only [Option.some.injEq, exists_and_left, exists_eq_left', reduceCtorEq, iff_false]
  cases known : id.propagationHash with
  | none => exact .inr ⟨by simp, _, rfl, by decide⟩
  | some propHash =>
  simp only [Option.some.injEq, exists_eq_left']
  split
  next busy =>
    exact .inr ⟨fun ⟨_, _, welcome⟩ => welcome.free.elim busy.1 fun free => free busy.2, _, rfl, by decide⟩
  next idle =>
  obtain ⟨same, open_⟩ := throttled_cases desk propHash now
  split
  next after checked =>
    rw [checked] at open_
    exact .inr ⟨fun ⟨_, _, welcome⟩ => absurd (open_.2 welcome.unthrottled) (by simp), _, rfl, by decide⟩
  next after checked =>
  rw [checked] at same open_
  split
  next barred => exact .inr ⟨fun ⟨_, _, welcome⟩ => barred.2 (welcome.allowed barred.1), _, rfl, by decide⟩
  next allowed =>
  have answered := answerRequest_cases after c sized id linkID
  rw [← same]
  refine answered.imp (And.imp_left ?_) (And.imp_left ?_)
  · intro ⟨key, given, proved⟩
    exact ⟨key, given, by tauto, open_.1 rfl, by tauto, proved⟩
  · intro unproved ⟨key, given, welcome⟩
    exact unproved ⟨key, given, welcome.proved⟩

end

theorem overLink_value {requestID : Bytes} {answer : OfferAnswer} (short : requestID.length < 2 ^ 32)
    (sized : ∀ ids, answer = .wanted ids → ids.length < 2 ^ 32 ∧ ∀ id ∈ ids, id.length < 2 ^ 32) :
    overLink requestID answer.value = some (view false false false answer.value) := by
  have whole : answer.value.Sized ∧ Fits sliceDecoder 3 0 answer.value := by
    cases answer with
    | error | noneWanted | allWanted => exact ⟨.scalar trivial, .scalar ..⟩
    | wanted ids => exact ⟨sized_slices (sized ids rfl).1 (sized ids rfl).2, fits_slices⟩
  have decoded := unmarshalSlice_encode false [.bytes requestID, answer.value] (by simp) (by
    intro item member
    rcases mem_pair.1 member with rfl | rfl
    · exact .bytes short
    · exact whole.1) (by
    intro item member
    rcases mem_pair.1 member with rfl | rfl
    · exact Fits.bytes _ _ _
    · exact whole.2)
  rw [overLink, decoded]
  rfl

theorem of_int_val {n : Int} (low : -2 ^ 63 ≤ n) (high : n < 2 ^ 63) : (GoInt.of .int n).val = n := by
  rw [GoInt.of]
  exact IntKind.wrap_eq_self .int n (by simpa [IntKind.signed, IntKind.bits] using low)
    (by simpa [IntKind.signed, IntKind.bits] using high)

theorem responseErrorCode_error (code : UInt8) :
    responseErrorCode (view false false false (OfferAnswer.error code).value) = some code := by
  have bound := code.toNat_lt
  have value : (viewInt false false (.of .int code.toNat)).val = code.toNat := by
    rw [viewInt_val]
    exact of_int_val (by omega) (by omega)
  simp only [OfferAnswer.value, Value.int, view, viewScalar, responseErrorCode, asInt64, value]
  rw [if_pos (by omega), Option.bind_some, if_pos (by omega), Int.toNat_natCast, UInt8.ofNat_toNat]

section
variable (q : Peer) (remote later : MessageStore) (m : ResponseMoment)

theorem mem_absent {ids : List Bytes} {id : Bytes} :
    id ∈ absent remote ids ↔ id ∈ ids ∧ id ≠ [] ∧ remote.get id = none := by
  simp [absent]

/-- What the sender makes of an answer that is no error: it marks what is not asked for, and ships and marks
what is. -/
theorem handleOfferResponse_accepted :
    let outcome := q.handleOfferResponse later (view false false false (answerFor remote q.lastOffer).value) m
    let wanted := absent remote q.lastOffer
    let noted := q.markAll later (q.lastOffer.filter fun id => id ∉ wanted)
    outcome.wantedKeys = wanted ∧
    ((¬q.Ships later wanted m ∧ outcome.sent = [] ∧ outcome.store = noted ∧ outcome.peer.outgoing = q.outgoing) ∨
      (q.Ships later wanted m ∧ outcome.sent = readPayloads later m.readable wanted ∧
        outcome.store = q.markAll noted wanted ∧ outcome.peer.outgoing = q.outgoing + wanted.length)) := by
  dsimp only
  unfold answerFor
  split
  next none =>
    rw [none]
    refine ⟨rfl, .inl ⟨fun ships => ships.1 rfl, rfl, ?_, rfl⟩⟩
    simp only [not_mem_nil, not_false_eq_true, decide_true, filter_true]
    rfl
  split
  next all =>
    have same : absent remote q.lastOffer = q.lastOffer := List.filter_sublist.eq_of_length all
    have rest : q.lastOffer.filter (fun id => id ∉ q.lastOffer) = [] := by
      rw [filter_eq_nil_iff]
      simp
    rw [same, rest]
    exact Peer.transfer_cases { q with state := .responseReceived } later q.lastOffer m
  next some_ part =>
    have chosen : q.lastOffer.filter (fun id => id ∈ absent remote q.lastOffer) = absent remote q.lastOffer := by
      apply filter_congr
      intro id member
      simp [mem_absent, member]
    have outcome : q.handleOfferResponse later
        (view false false false (OfferAnswer.wanted (absent remote q.lastOffer)).value) m =
          Peer.transfer { q with state := .responseReceived }
            (q.markAll later (q.lastOffer.filter fun id => id ∉ absent remote q.lastOffer))
            (absent remote q.lastOffer) m := by
      rw [OfferAnswer.value, view_slices, Peer.handleOfferResponse]
      dsimp only
      rw [byteItems_map, chosen]
      rfl
    have step := Peer.transfer_cases { q with state := .responseReceived }
      (q.markAll later (q.lastOffer.filter fun id => id ∉ absent remote q.lastOffer)) (absent remote q.lastOffer) m
    rw [outcome]
    simp only [Peer.Ships, Peer.readPayloads_markAll] at step ⊢
    exact step

end

/-- What has to be true after an exchange: the sender decides to send just the offered ids that the receiver
does not have, marks as handled only what the receiver has or was sent, and counts what was sent. -/
structure ExchangeSound (q : Peer) (remote later : MessageStore) (answer : OfferAnswer) (outcome : SyncOutcome) :
    Prop where
  decided : answer.isError = false → ∀ id, id ∈ outcome.wantedKeys ↔ id ∈ q.lastOffer ∧ remote.get id = none
  marked : ∀ id, outcome.store.handledFor q.destinationHash id → ¬later.handledFor q.destinationHash id →
    (remote.get id).isSome = true ∨ ∃ content ∈ outcome.sent, later.readEntry id true = some content
  counted : outcome.peer.outgoing = q.outgoing + outcome.sent.length

/-- If one of the messages can be read, then all of them can. -/
def AllOrNone (store : MessageStore) (readable : Nat → Bool) (keys : List Bytes) : Prop :=
  (∃ key ∈ keys.zipIdx, (store.readEntry key.1 (readable key.2)).isSome = true) →
    ∀ key ∈ keys.zipIdx, (store.readEntry key.1 (readable key.2)).isSome = true

/-- Offering again gives up on no message that the peer has not got. -/
def QuietRetry (q : Peer) (remote later : MessageStore) : Prop :=
  q.linked = true → ∀ id, q.GivenUp later id →
    later.handledFor q.destinationHash id ∨ (remote.get id).isSome = true

/-- The wanted messages can all be asked for, and be sent together or not at all. -/
structure WholeTransfer (q : Peer) (remote later : MessageStore) (m : ResponseMoment) : Prop where
  named : [] ∈ q.lastOffer → (remote.get []).isSome = true
  together : q.linked = true → m.made = true → m.sends = true →
    AllOrNone later m.readable (q.lastOffer.filter fun id => (remote.get id).isNone)

section
variable (q : Peer) (remote later : MessageStore) (m : ResponseMoment)
variable {keys : List Bytes} {store : MessageStore} {readable : Nat → Bool}

theorem readPayloads_ne_nil :
    readPayloads store readable keys ≠ [] ↔
      ∃ key ∈ keys.zipIdx, (store.readEntry key.1 (readable key.2)).isSome = true := by
  simp only [readPayloads, ne_eq, filterMap_eq_nil_iff, not_forall, ← Option.isSome_iff_ne_none, exists_prop]

theorem readPayloads_length :
    (readPayloads store readable keys).length = keys.length ↔
      ∀ key ∈ keys.zipIdx, (store.readEntry key.1 (readable key.2)).isSome = true := by
  rw [readPayloads, ← length_zipIdx (l := keys), filterMap_length_eq_length]

/-- Reading all of the messages puts the stored bytes of each into the payload. -/
theorem readPayloads_complete {id : Bytes}
    (all : ∀ key ∈ keys.zipIdx, (store.readEntry key.1 (readable key.2)).isSome = true) (member : id ∈ keys) :
    ∃ content ∈ readPayloads store readable keys, store.readEntry id true = some content := by
  obtain ⟨i, found⟩ := mem_iff_getElem?.1 member
  have indexed : (id, i) ∈ keys.zipIdx := mk_mem_zipIdx_iff_getElem?.2 found
  obtain ⟨content, read⟩ := Option.isSome_iff_exists.1 (all _ indexed)
  refine ⟨content, mem_filterMap.2 ⟨(id, i), indexed, read⟩, ?_⟩
  unfold MessageStore.readEntry at read ⊢
  obtain ⟨entry, present, content⟩ := Option.bind_eq_some_iff.1 read
  rw [present]
  split at content
  · exact content
  · contradiction

/-- Only an empty id is neither asked for nor known. -/
theorem decided_iff :
    (∀ id, id ∈ absent remote q.lastOffer ↔ id ∈ q.lastOffer ∧ remote.get id = none) ↔
      ([] ∈ q.lastOffer → (remote.get []).isSome = true) := by
  simp only [mem_absent]
  constructor
  · intro same offered
    by_contra unknown
    exact ((same []).2 ⟨offered, by simpa using unknown⟩).2.1 rfl
  · intro known id
    constructor
    · exact fun ⟨offered, _, missing⟩ => ⟨offered, missing⟩
    · intro ⟨offered, missing⟩
      refine ⟨offered, fun empty => ?_, missing⟩
      rw [empty] at offered missing
      simp [missing] at known
      exact known offered

theorem absent_eq (known : [] ∈ q.lastOffer → (remote.get []).isSome = true) :
    absent remote q.lastOffer = q.lastOffer.filter fun id => (remote.get id).isNone := by
  apply filter_congr
  intro id member
  by_cases empty : id = []
  · rw [empty] at member
    simp [empty, known member]
  · cases remote.get id <;> simp [empty]

theorem known_of_not_absent (known : [] ∈ q.lastOffer → (remote.get []).isSome = true) {id : Bytes}
    (noted : id ∈ q.lastOffer.filter fun id => id ∉ absent remote q.lastOffer) : (remote.get id).isSome = true := by
  obtain ⟨offered, unasked⟩ := mem_filter.1 noted
  by_contra unknown
  have missing : remote.get id = none := by simpa using unknown
  exact of_decide_eq_true unasked (((decided_iff q remote).2 known id).2 ⟨offered, missing⟩)

theorem exchangeSound_accepted {answer : OfferAnswer} (accepted : answer.isError = false)
    (given : answer = answerFor remote q.lastOffer) :
    ExchangeSound q remote later answer (q.handleOfferResponse later (view false false false answer.value) m) ↔
      WholeTransfer q remote later m := by
  have effect := handleOfferResponse_accepted q remote later m
  rw [← given] at effect
  obtain ⟨decided, effect⟩ := effect
  constructor
  · intro sound
    have known := (decided_iff q remote).1 fun id => by
      rw [← decided]
      exact sound.decided accepted id
    refine ⟨known, fun linked made sends some_ => ?_⟩
    rw [← absent_eq q remote known] at some_ ⊢
    rcases effect with ⟨stuck, _⟩ | ⟨_, sent, _, outgoing⟩
    · exact absurd ⟨readPayloads_ne_nil.2 some_, linked, made, sends⟩ stuck
    · have counted := sound.counted
      rw [sent, outgoing] at counted
      exact readPayloads_length.1 (by omega)
  · intro ⟨known, together⟩
    constructor
    case decided =>
      intro _ id
      rw [decided]
      exact (decided_iff q remote).2 known id
    case marked =>
      intro id handled unhandled
      rcases effect with ⟨_, _, store, _⟩ | ⟨ships, sent, store, _⟩
      · rw [store, Peer.markAll, MessageStore.handledFor_markAll] at handled
        exact .inl (known_of_not_absent q remote known (handled.resolve_left unhandled).1)
      · rw [store, Peer.markAll, MessageStore.handledFor_markAll, Peer.markAll, MessageStore.handledFor_markAll]
          at handled
        rcases handled with (before | noted) | shipped
        · exact absurd before unhandled
        · exact .inl (known_of_not_absent q remote known noted.1)
        · right
          rw [absent_eq q remote known] at ships sent shipped
          have all := together ships.2.1 ships.2.2.1 ships.2.2.2 (readPayloads_ne_nil.1 ships.1)
          rw [sent]
          exact readPayloads_complete all shipped.1
    case counted =>
      rcases effect with ⟨_, sent, _, outgoing⟩ | ⟨ships, sent, _, outgoing⟩
      · rw [sent, outgoing]
        simp
      · rw [absent_eq q remote known] at ships sent outgoing
        have all := together ships.2.1 ships.2.2.1 ships.2.2.2 (readPayloads_ne_nil.1 ships.1)
        rw [sent, outgoing, readPayloads_length.2 all]

theorem handleOfferResponse_refused (code : UInt8) :
    q.handleOfferResponse later (view false false false (OfferAnswer.error code).value) m =
      Peer.refused { q with state := .responseReceived } later code m := by
  have shape : ∃ n, view false false false (OfferAnswer.error code).value = .scalar (.int n) := by
    simp only [OfferAnswer.value, Value.int, view, viewScalar]
    exact ⟨_, rfl⟩
  obtain ⟨n, shape⟩ := shape
  have read := responseErrorCode_error code
  rw [shape] at read ⊢
  unfold Peer.handleOfferResponse
  dsimp only
  rw [read]

/-- An error code leaves nothing sent; a missing identification leads to another offer. -/
theorem exchangeSound_error (code : UInt8) :
    ExchangeSound q remote later (.error code)
        (q.handleOfferResponse later (view false false false (OfferAnswer.error code).value) m) ↔
      (code = peerErrorNoIdentity → QuietRetry q remote later) := by
  obtain ⟨sent, outgoing, handled⟩ :=
    Peer.refused_cases { q with state := .responseReceived } later code m
  rw [handleOfferResponse_refused]
  constructor
  · intro sound unknown linked id given
    by_cases before : later.handledFor q.destinationHash id
    · exact .inl before
    have marked := sound.marked id ((handled id).2 (.inr ⟨⟨unknown, linked⟩, given⟩)) before
    rw [sent] at marked
    rcases marked with held | ⟨content, among, _⟩
    · exact .inr held
    · exact absurd among not_mem_nil
  · intro quiet
    constructor
    case decided => exact fun accepted => absurd accepted Bool.true_eq_false.mp
    case marked =>
      intro id after before
      have ⟨⟨unknown, linked⟩, given⟩ := ((handled id).1 after).resolve_left before
      exact .inl ((quiet unknown linked id given).resolve_left before)
    case counted =>
      rw [sent, outgoing]
      simp

end

theorem answerFor_isError (remote : MessageStore) (ids : List Bytes) : (answerFor remote ids).isError = false := by
  unfold answerFor
  split
  · rfl
  · split <;> rfl

theorem answerFor_wanted {remote : MessageStore} {ids wanted : List Bytes}
    (given : answerFor remote ids = .wanted wanted) : wanted.Sublist ids := by
  unfold answerFor at given
  split at given
  · contradiction
  split at given
  · contradiction
  · rw [← OfferAnswer.wanted.inj given]
    exact filter_sublist

/-- An offer and its answer, over the link both ways: the exchange is sound just if a repeated offer gives up
on nothing, and the wanted messages of an admitted one go out together or not at all. -/
theorem offerExchange_iff (desk : OfferDesk) (c : OfferConfig) (remoteIdentity : Option RemoteIdentity) (now : Int)
    {p q : Peer} {store later : MessageStore} {moment : OfferMoment} {m : ResponseMoment}
    {data requestID linkID : Bytes}
    (sent : (p.sendOffer store moment).request = some data)
    (kept : q.lastOffer = (p.sendOffer store moment).peer.lastOffer)
    (sized : OfferSized p.peeringKey q.lastOffer) (short : requestID.length < 2 ^ 32) :
    ∃ response,
      overLink requestID (desk.offerRequestHandler c data linkID remoteIdentity now).2.value = some response ∧
      (ExchangeSound q desk.store later (desk.offerRequestHandler c data linkID remoteIdentity now).2
          (q.handleOfferResponse later response m) ↔
        (remoteIdentity = none → QuietRetry q desk.store later) ∧
          (desk.Admits c p.peeringKey remoteIdentity now → WholeTransfer q desk.store later m)) := by
  have request := Peer.sendOffer_request sent
  rw [← kept] at request
  have answered := offerRequestHandler_cases desk c sized linkID remoteIdentity now
  rw [← request] at answered
  rcases answered with ⟨admitted, given⟩ | ⟨refused, code, given, unknown⟩
  · have fits : ∀ ids, answerFor desk.store q.lastOffer = .wanted ids →
        ids.length < 2 ^ 32 ∧ ∀ id ∈ ids, id.length < 2 ^ 32 := by
      intro ids wanted
      have among := answerFor_wanted wanted
      exact ⟨among.length_le.trans_lt sized.count, fun id member => sized.each id (among.subset member)⟩
    have known : remoteIdentity ≠ none := by
      obtain ⟨id, _, _, same, _⟩ := admitted
      simp [same]
    rw [given]
    refine ⟨_, overLink_value short fits, ?_⟩
    rw [exchangeSound_accepted q desk.store later m (answerFor_isError _ _) rfl]
    exact ⟨fun whole => ⟨fun none => absurd none known, fun _ => whole⟩, fun both => both.2 admitted⟩
  · rw [given]
    refine ⟨_, overLink_value short fun ids wanted => by contradiction, ?_⟩
    rw [exchangeSound_error, unknown]
    exact ⟨fun quiet => ⟨quiet, fun admitted => absurd admitted refused⟩, And.left⟩

theorem validatePeeringKey_free {targetCost : Int} {peeringID : Bytes} (free : targetCost ≤ 0)
    (something : peeringID ≠ []) (peeringKey : Bytes) : validatePeeringKey peeringID peeringKey targetCost = true := by
  obtain ⟨workblock, expanded⟩ := Option.isSome_iff_exists.1
    (stampWorkblock_isSome (show workblockExpandRoundsPeering ≠ 0 by decide) something)
  simp only [validatePeeringKey, expanded, stampValid, if_pos free]

/-- A store with the messages 1 and 2, both queued for the peer 9. -/
def queuedStore : MessageStore :=
  let path := fun transientID : UInt8 => FilePath.mk [transientID] [] 0
  let entry := fun transientID : UInt8 =>
    { destinationHash := [], filePath := path transientID, receivedAt := Float64.ofInt 0, size := 1,
      unhandledPeers := [[9]], stampValue := 0 }
  { entries := ((∅ : GoMap Bytes PropagationEntry).insert [1] (entry 1)).insert [2] (entry 2)
    files := ((∅ : GoMap FilePath Bytes).insert (path 1) [0x11]).insert (path 2) [0x22] }

def hungryPeer : Peer := { destinationHash := [9], peeringKey := some [7] }

def offerTime : OfferMoment := { now := 0, visit := .listed }

/-- The receiver has no messages and asks for no work. -/
def emptyDesk : OfferDesk := { store := {} }

def freeOffers : OfferConfig := { identityHash := [9] }

def offeringNode : RemoteIdentity := ⟨[8], none, some [8]⟩

/-- The offer of the two messages, as it arrives. -/
def bothOffered : Bytes := Peer.offerRequest (some [7]) [[2], [1]]

theorem bothOffered_request : (hungryPeer.sendOffer queuedStore offerTime).request = some bothOffered := by
  decide +kernel

theorem bothOffered_admitted : emptyDesk.Admits freeOffers hungryPeer.peeringKey (some offeringNode) 0 :=
  ⟨offeringNode, [8], [7], rfl, rfl, rfl, .inr (by decide +kernel), fun _ found => by contradiction,
    fun barred => by contradiction, validatePeeringKey_free (by decide) (by decide) [7]⟩

theorem bothOffered_sized : OfferSized (some [7]) [[2], [1]] :=
  ⟨fun key same => Option.some.inj same ▸ by decide, by decide, by decide⟩

/-- An exchange in which both messages arrive. -/
theorem bothRead_sound :
    ∃ response,
      overLink [0] (emptyDesk.offerRequestHandler freeOffers bothOffered [] (some offeringNode) 0).2.value =
        some response ∧
      ExchangeSound (hungryPeer.sendOffer queuedStore offerTime).peer {} queuedStore
        (emptyDesk.offerRequestHandler freeOffers bothOffered [] (some offeringNode) 0).2
        ((hungryPeer.sendOffer queuedStore offerTime).peer.handleOfferResponse queuedStore response
          { now := 0, readable := fun _ => true, retry := offerTime }) := by
  obtain ⟨response, received, sound⟩ := offerExchange_iff emptyDesk freeOffers (some offeringNode) 0
    bothOffered_request rfl bothOffered_sized (show [0].length < 2 ^ 32 by decide)
  refine ⟨response, received, sound.2 ⟨fun unknown => by contradiction, fun _ => ⟨by decide +kernel, ?_⟩⟩⟩
  intro _ _ _
  unfold AllOrNone
  decide +kernel

/-- The file of one of the two messages cannot be read: one payload goes out, but both messages are marked
and counted. -/
theorem unreadMessage_marked :
    let offer := hungryPeer.sendOffer queuedStore offerTime
    let answer := (emptyDesk.offerRequestHandler freeOffers bothOffered [] (some offeringNode) 0).2
    let outcome := offer.peer.handleOfferResponse queuedStore (.bool true)
      { now := 0, readable := fun i => i = 1, retry := offerTime }
    offer.request = some bothOffered ∧ overLink [0] answer.value = some (.bool true) ∧
    outcome.sent = [[0x11]] ∧ outcome.peer.outgoing = 2 ∧
    (outcome.store.get [2]).map (·.handledPeers) = some [[9]] ∧
    ¬ExchangeSound offer.peer {} queuedStore answer outcome := by
  have answered : (emptyDesk.offerRequestHandler freeOffers bothOffered [] (some offeringNode) 0).2 = .allWanted := by
    rcases offerRequestHandler_cases emptyDesk freeOffers bothOffered_sized [] (some offeringNode) 0 with
      ⟨_, given⟩ | ⟨refused, _⟩
    · exact given.trans (by decide)
    · exact absurd bothOffered_admitted refused
  refine ⟨bothOffered_request, ?_, by decide +kernel, by decide +kernel, by decide +kernel, fun sound => ?_⟩
  · rw [answered]
    exact overLink_value (by decide) fun ids wanted => by contradiction
  · exact absurd sound.counted (by decide +kernel)

end ReticulumProtocols.Lxmf
