import ReticulumProtocols.Lxmf.Fetch
import ReticulumProtocols.Lxmf.Store

/-! The sending side of a synchronisation between propagation nodes: `sendOffer` tells a peer which
messages are queued for it, and `handleOfferResponse` ships the ones the peer wants and does the
bookkeeping. -/

namespace ReticulumProtocols.Lxmf
open Wire Msgpack List

inductive PeerState where
  | idle
  | linkEstablishing
  | linkReady
  | requestSent
  | responseReceived
  | resourceTransferring
  deriving DecidableEq, Repr

/-- The part of `Peer` that a synchronisation works on; `linked` says whether `Link` is set. -/
structure Peer where
  destinationHash : Bytes
  peeringKey : Option Bytes := none
  propagationStampCost : Int := 0
  propagationStampCostFlex : Int := 0
  propagationTransferLimit : Float := Float64.ofInt (-1)
  propagationSyncLimit : Float := Float64.ofInt (-1)
  persistent : Bool := false
  state : PeerState := .linkReady
  linked : Bool := true
  lastOffer : List Bytes := []
  alive : Bool := true
  lastHeard : Float := Float64.ofInt 0
  nextSyncAttempt : Float := Float64.ofInt 0
  offered : Int := 0
  outgoing : Int := 0
  txBytes : Int := 0

/-- What `sendOffer` meets, and whether the request can be sent. -/
structure OfferMoment where
  now : Int
  saturates : Bool := false
  visit : Visit
  requested : Bool := true

structure Offer where
  peer : Peer
  store : MessageStore
  request : Option Bytes := none

namespace Peer
variable (p : Peer)

def minCost : Int := max 0 (p.propagationStampCost - p.propagationStampCostFlex)

/-- The entries that are queued for the peer, in the order of a snapshot. -/
def queued (store : MessageStore) (visit : Visit) : List (Sigma fun _ : Bytes => PropagationEntry) :=
  (visit.run store.entries.entries).filter fun entry => p.destinationHash ∈ entry.2.unhandledPeers

def tooLarge (entry : PropagationEntry) : Bool :=
  Float64.ofInt 0 ≤ p.propagationTransferLimit ∧
    Float64.ofInt (entry.size + perMessageOverhead) > p.propagationTransferLimit * Float64.ofInt 1000

structure OfferLoop where
  store : MessageStore
  cumulative : Int := 24
  lastOffer : List Bytes := []

def offerStep (loop : OfferLoop) (entry : Sigma fun _ : Bytes => PropagationEntry) : OfferLoop :=
  let transferSize : Int := entry.2.size + perMessageOverhead
  if p.tooLarge entry.2 then { loop with store := loop.store.markHandled entry.1 p.destinationHash }
  else if Float64.ofInt 0 ≤ p.propagationSyncLimit ∧
      Float64.ofInt (loop.cumulative + transferSize) ≥ p.propagationSyncLimit * Float64.ofInt 1000 then loop
  else { loop with cumulative := loop.cumulative + transferSize, lastOffer := loop.lastOffer ++ [entry.1] }

/-- The loops of `sendOffer`: entries with too small a stamp leave the queue, the others are sorted and
gone through. -/
def selectOffer (store : MessageStore) (m : OfferMoment) : OfferLoop :=
  let (low, enough) := (p.queued store m.visit).partition fun entry => entry.2.stampValue < p.minCost
  let kept := low.foldl (fun store entry => store.removeUnhandledPeer entry.1 p.destinationHash) store
  let lightestFirst := enough.insertionSort fun entry other =>
    store.weight m.now m.saturates entry.2 ≤ store.weight m.now m.saturates other.2
  lightestFirst.foldl p.offerStep { store := kept }

/-- The request of an offer, as `Request` packs it. -/
def offerRequest (peeringKey : Option Bytes) (ids : List Bytes) : Bytes :=
  encode false (.arr [optionalBytes peeringKey, .arr (ids.map .bytes)])

def sendOffer (store : MessageStore) (m : OfferMoment) : Offer :=
  let loop := p.selectOffer store m
  let peer := { p with lastOffer := loop.lastOffer }
  if loop.lastOffer = [] then { peer := { peer with state := .linkReady }, store := loop.store }
  else if m.requested = false then { peer := { peer with linked := false, state := .idle }, store := loop.store }
  else
    { peer := { peer with state := .requestSent }, store := loop.store,
      request := some (offerRequest p.peeringKey loop.lastOffer) }

end Peer

/-- What `handleOfferResponse` meets: which files it can read, whether a resource can be made and sent,
and what a repeated offer meets. -/
structure ResponseMoment where
  now : Int
  readable : Nat → Bool
  made : Bool := true
  sends : Bool := true
  retry : OfferMoment

/-- What `handleOfferResponse` leaves behind: what it decided to send, and the payloads of the resource
that was sent. -/
structure SyncOutcome where
  peer : Peer
  store : MessageStore
  wantedKeys : List Bytes := []
  sent : List Bytes := []
  request : Option Bytes := none
  unpeered : Bool := false
  resync : Bool := false

/-- The stored bytes of the wanted messages that can be read; `readable i` is about the wanted message `i`. -/
def readPayloads (store : MessageStore) (readable : Nat → Bool) (wantedKeys : List Bytes) : List Bytes :=
  wantedKeys.zipIdx.filterMap fun (key, i) => store.readEntry key (readable i)

namespace Peer
variable (p : Peer)

def closed : Peer := { p with linked := false, state := .idle }

def markAll (store : MessageStore) (ids : List Bytes) : MessageStore :=
  ids.foldl (fun store transientID => store.markHandled transientID p.destinationHash) store

def unhandledCount (store : MessageStore) : Nat := (p.queued store .listed).length

/-- The second half of `handleOfferResponse`, once it is known what the peer wants. -/
def transfer (store : MessageStore) (wantedKeys : List Bytes) (m : ResponseMoment) : SyncOutcome :=
  let payloads := readPayloads store m.readable wantedKeys
  let packed := encode false (.arr [.float64 (clock m.now).toBits, .arr (payloads.map .bytes)])
  if payloads = [] then { peer := { p with offered := p.offered + p.lastOffer.length }.closed, store, wantedKeys }
  else if p.linked = false ∨ m.made = false then { peer := p, store, wantedKeys }
  else if m.sends = false then { peer := p.closed, store, wantedKeys }
  else
    let after := p.markAll store wantedKeys
    let peer := { p with
      alive := true
      lastHeard := clock m.now
      offered := p.offered + p.lastOffer.length
      outgoing := p.outgoing + wantedKeys.length
      txBytes := p.txBytes + packed.length }
    let resync := p.persistent && 0 < p.unhandledCount after
    { peer := peer.closed, store := after, wantedKeys, sent := payloads, resync }

/-- What an error code leads to; a peer that does not know us gets the identity and another offer. -/
def refused (store : MessageStore) (code : UInt8) (m : ResponseMoment) : SyncOutcome :=
  if code = peerErrorNoIdentity then
    if p.linked then
      let again := { p with state := .linkReady }.sendOffer store m.retry
      { peer := again.peer, store := again.store, request := again.request }
    else { peer := p, store }
  else if code = peerErrorThrottled then
    { peer := { p with nextSyncAttempt := clock m.now + Float64.ofInt 180 }, store }
  else if code = peerErrorNoAccess then { peer := p, store, unpeered := true }
  else { peer := p.closed, store }

def handleOfferResponse (store : MessageStore) (response : Value) (m : ResponseMoment) : SyncOutcome :=
  let p := { p with state := .responseReceived }
  match response with
  | .scalar (.bool false) =>
    { peer := { p with offered := p.offered + p.lastOffer.length }.closed, store := p.markAll store p.lastOffer }
  | .scalar (.bool true) => p.transfer store p.lastOffer m
  | .arr items =>
    let wanted := byteItems items
    p.transfer (p.markAll store (p.lastOffer.filter fun key => key ∉ wanted))
      (p.lastOffer.filter fun key => key ∈ wanted) m
  | response =>
    match responseErrorCode response with
    | none => { peer := p.closed, store }
    | some code => p.refused store code m

section
variable {p : Peer} {store : MessageStore}

theorem mem_queued {visit : Visit} {entry : Sigma fun _ : Bytes => PropagationEntry} :
    entry ∈ p.queued store visit ↔
      store.get entry.1 = some entry.2 ∧ p.destinationHash ∈ entry.2.unhandledPeers := by
  rw [queued, mem_filter, (visit.perm store.entries.entries).mem_iff, decide_eq_true_eq, MessageStore.get,
    ← Option.mem_def, AList.mem_lookup_iff]

theorem offerStep_store (loop : OfferLoop) (entry : Sigma fun _ : Bytes => PropagationEntry) :
    (p.offerStep loop entry).store =
      if p.tooLarge entry.2 then loop.store.markHandled entry.1 p.destinationHash else loop.store := by
  unfold offerStep
  dsimp only
  split
  · rfl
  · split <;> rfl

theorem offerStep_handled (loop : OfferLoop) (entry : Sigma fun _ : Bytes => PropagationEntry) (transientID : Bytes) :
    ((p.offerStep loop entry).store.get transientID).isSome = (loop.store.get transientID).isSome ∧
    ((p.offerStep loop entry).store.handledFor p.destinationHash transientID ↔
      loop.store.handledFor p.destinationHash transientID ∨
        (entry.1 = transientID ∧ p.tooLarge entry.2 = true) ∧ (loop.store.get transientID).isSome = true) := by
  rw [offerStep_store]
  by_cases large : p.tooLarge entry.2 = true
  · rw [if_pos large, loop.store.handledFor_markHandled, and_iff_left large, eq_comm (a := entry.1)]
    exact ⟨loop.store.isSome_get_modify _ _ _, Iff.rfl⟩
  · rw [if_neg large]
    exact ⟨rfl, (or_iff_left fun given => large given.1.2).symm⟩

theorem offerLoop_handled (entries : List (Sigma fun _ : Bytes => PropagationEntry)) (loop : OfferLoop)
    (transientID : Bytes) :
    (entries.foldl p.offerStep loop).store.handledFor p.destinationHash transientID ↔
      loop.store.handledFor p.destinationHash transientID ∨
        (∃ entry ∈ entries, entry.1 = transientID ∧ p.tooLarge entry.2 = true) ∧
          (loop.store.get transientID).isSome = true := by
  induction entries generalizing loop with
  | nil => simp
  | cons first rest ih =>
    obtain ⟨present, step⟩ := p.offerStep_handled loop first transientID
    rw [foldl_cons, ih, present, step, exists_mem_cons_iff, or_and_right, or_assoc]

theorem lowStamps_handled (entries : List (Sigma fun _ : Bytes => PropagationEntry)) (store : MessageStore)
    (transientID : Bytes) :
    let after := entries.foldl (fun store entry => store.removeUnhandledPeer entry.1 p.destinationHash) store
    (after.get transientID).isSome = (store.get transientID).isSome ∧
    (after.handledFor p.destinationHash transientID ↔ store.handledFor p.destinationHash transientID) := by
  induction entries generalizing store with
  | nil => exact ⟨rfl, Iff.rfl⟩
  | cons first rest ih =>
    obtain ⟨present, same⟩ := ih (store.removeUnhandledPeer first.1 p.destinationHash)
    rw [store.handledFor_removeUnhandledPeer] at same
    exact ⟨present.trans (store.isSome_get_modify _ _ _), same⟩

/-- An entry that `sendOffer` gives up on: it is queued for the peer and too large for it. -/
def GivenUp (p : Peer) (store : MessageStore) (transientID : Bytes) : Prop :=
  ∃ entry, store.get transientID = some entry ∧ p.destinationHash ∈ entry.unhandledPeers ∧
    p.minCost ≤ entry.stampValue ∧ p.tooLarge entry = true

theorem selectOffer_handled (m : OfferMoment) (transientID : Bytes) :
    (p.selectOffer store m).store.handledFor p.destinationHash transientID ↔
      store.handledFor p.destinationHash transientID ∨ p.GivenUp store transientID := by
  obtain ⟨present, same⟩ := p.lowStamps_handled
    ((p.queued store m.visit).filter fun entry => entry.2.stampValue < p.minCost) store transientID
  unfold selectOffer
  simp only [partition_eq_filter_filter]
  rw [offerLoop_handled, present, same]
  apply or_congr Iff.rfl
  simp only [mem_insertionSort, mem_filter, mem_queued, Function.comp_apply, Bool.not_eq_true',
    decide_eq_false_iff_not, not_lt]
  constructor
  · intro ⟨⟨entry, ⟨⟨found, waiting⟩, enough⟩, same, large⟩, _⟩
    rw [same] at found
    exact ⟨entry.2, found, waiting, enough, large⟩
  · intro ⟨entry, found, waiting, enough, large⟩
    exact ⟨⟨⟨transientID, entry⟩, ⟨⟨found, waiting⟩, enough⟩, rfl, large⟩, by rw [found]; rfl⟩

theorem sendOffer_keeps (m : OfferMoment) :
    (p.sendOffer store m).store = (p.selectOffer store m).store ∧ (p.sendOffer store m).peer.outgoing = p.outgoing := by
  unfold sendOffer
  dsimp only
  split
  · exact ⟨rfl, rfl⟩
  · split <;> exact ⟨rfl, rfl⟩

theorem sendOffer_handled (m : OfferMoment) (transientID : Bytes) :
    (p.sendOffer store m).store.handledFor p.destinationHash transientID ↔
      store.handledFor p.destinationHash transientID ∨ p.GivenUp store transientID := by
  rw [(sendOffer_keeps m).1]
  exact selectOffer_handled m transientID

theorem sendOffer_request {m : OfferMoment} {data : Bytes} (sent : (p.sendOffer store m).request = some data) :
    data = offerRequest p.peeringKey (p.sendOffer store m).peer.lastOffer := by
  unfold sendOffer at sent ⊢
  dsimp only at sent ⊢
  split at sent
  · contradiction
  split at sent
  · contradiction
  next some_ requested =>
    rw [if_neg some_, if_neg requested]
    exact (Option.some.inj sent).symm

/-- Nothing is sent after an error code, and only another offer touches the store. -/
theorem refused_cases (p : Peer) (store : MessageStore) (code : UInt8) (m : ResponseMoment) :
    (p.refused store code m).sent = [] ∧ (p.refused store code m).peer.outgoing = p.outgoing ∧
    ∀ id, (p.refused store code m).store.handledFor p.destinationHash id ↔
      store.handledFor p.destinationHash id ∨
        (code = peerErrorNoIdentity ∧ p.linked = true) ∧ p.GivenUp store id := by
  unfold refused
  by_cases unknown : code = peerErrorNoIdentity
  · rw [if_pos unknown]
    by_cases linked : p.linked = true
    · rw [if_pos linked]
      refine ⟨rfl, (sendOffer_keeps m.retry).2, fun id => ?_⟩
      rw [and_iff_right ⟨unknown, linked⟩]
      exact sendOffer_handled (p := { p with state := .linkReady }) m.retry id
    · rw [if_neg linked]
      exact ⟨rfl, rfl, fun id => (or_iff_left fun given => linked given.1.2).symm⟩
  · rw [if_neg unknown]
    have untouched (id : Bytes) : store.handledFor p.destinationHash id ↔
        store.handledFor p.destinationHash id ∨
          (code = peerErrorNoIdentity ∧ p.linked = true) ∧ p.GivenUp store id :=
      (or_iff_left fun given => unknown given.1.1).symm
    split
    · exact ⟨rfl, rfl, untouched⟩
    split
    · exact ⟨rfl, rfl, untouched⟩
    · exact ⟨rfl, rfl, untouched⟩

theorem readEntry_markAll (ids : List Bytes) (key : Bytes) (readable : Bool) :
    (p.markAll store ids).readEntry key readable = store.readEntry key readable := by
  unfold markAll
  induction ids generalizing store with
  | nil => rfl
  | cons first rest ih => rw [foldl_cons, ih, store.readEntry_markHandled]

theorem readPayloads_markAll (ids keys : List Bytes) (readable : Nat → Bool) :
    readPayloads (p.markAll store ids) readable keys = readPayloads store readable keys := by
  simp only [readPayloads, readEntry_markAll]

/-- A transfer gets as far as sending a resource. -/
def Ships (p : Peer) (store : MessageStore) (wantedKeys : List Bytes) (m : ResponseMoment) : Prop :=
  readPayloads store m.readable wantedKeys ≠ [] ∧ p.linked = true ∧ m.made = true ∧ m.sends = true

theorem transfer_cases (p : Peer) (store : MessageStore) (wantedKeys : List Bytes) (m : ResponseMoment) :
    let outcome := p.transfer store wantedKeys m
    outcome.wantedKeys = wantedKeys ∧
    ((¬p.Ships store wantedKeys m ∧ outcome.sent = [] ∧ outcome.store = store ∧
        outcome.peer.outgoing = p.outgoing) ∨
      (p.Ships store wantedKeys m ∧ outcome.sent = readPayloads store m.readable wantedKeys ∧
        outcome.store = p.markAll store wantedKeys ∧
        outcome.peer.outgoing = p.outgoing + wantedKeys.length)) := by
  unfold transfer Ships
  dsimp only
  split
  next none => exact ⟨rfl, .inl ⟨fun ships => ships.1 none, rfl, rfl, rfl⟩⟩
  next some_ =>
    split
    next blocked =>
      refine ⟨rfl, .inl ⟨fun ships => ?_, rfl, rfl, rfl⟩⟩
      rcases blocked with blocked | blocked
      · exact Bool.false_ne_true (blocked.symm.trans ships.2.1)
      · exact Bool.false_ne_true (blocked.symm.trans ships.2.2.1)
    next open_ =>
      split
      next fails => exact ⟨rfl, .inl ⟨fun ships => Bool.false_ne_true (fails.symm.trans ships.2.2.2), rfl, rfl, rfl⟩⟩
      next sends =>
        simp only [not_or, Bool.not_eq_false] at open_ sends
        exact ⟨rfl, .inr ⟨⟨some_, open_.1, open_.2, sends⟩, rfl, rfl, rfl⟩⟩

end

end Peer

end ReticulumProtocols.Lxmf
