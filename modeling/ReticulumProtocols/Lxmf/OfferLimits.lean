import ReticulumProtocols.Lxmf.Peer

/-! The two limits an offer has to keep to, with exact numbers. `sendOffer` asks of each message whether it is within the
transfer limit, and of what has come together so far whether it stays below the sync limit. -/

namespace ReticulumProtocols.Lxmf
open Wire Msgpack List

/-- What the limits of a peer say about a size. -/
structure OfferRules where
  tooLarge : Int → Bool
  full : Int → Bool

namespace Peer
variable (p : Peer) (rules : OfferRules)

/-- One round of the loop over the sorted entries. -/
def offerStepBy (loop : OfferLoop) (entry : Sigma fun _ : Bytes => PropagationEntry) : OfferLoop :=
  let transferSize : Int := entry.2.size + perMessageOverhead
  if rules.tooLarge transferSize then { loop with store := loop.store.markHandled entry.1 p.destinationHash }
  else if rules.full (loop.cumulative + transferSize) then loop
  else { loop with cumulative := loop.cumulative + transferSize, lastOffer := loop.lastOffer ++ [entry.1] }

/-- The loops of `sendOffer`. -/
def selectOfferBy (store : MessageStore) (m : OfferMoment) : OfferLoop :=
  let (low, enough) := (p.queued store m.visit).partition fun entry => entry.2.stampValue < p.minCost
  let kept := low.foldl (fun store entry => store.removeUnhandledPeer entry.1 p.destinationHash) store
  let lightestFirst := enough.insertionSort fun entry other =>
    store.weight m.now m.saturates entry.2 ≤ store.weight m.now m.saturates other.2
  lightestFirst.foldl (p.offerStepBy rules) { store := kept }

/-- `sendOffer` for limits of any kind. -/
def sendOfferBy (store : MessageStore) (m : OfferMoment) : Offer :=
  let loop := p.selectOfferBy rules store m
  let peer := { p with lastOffer := loop.lastOffer }
  if loop.lastOffer = [] then { peer := { peer with state := .linkReady }, store := loop.store }
  else if m.requested = false then { peer := { peer with linked := false, state := .idle }, store := loop.store }
  else
    { peer := { peer with state := .requestSent }, store := loop.store,
      request := some (offerRequest p.peeringKey loop.lastOffer) }

/-- The limits as they are kept, in floating point. -/
def floatRules : OfferRules where
  tooLarge size := Float64.ofInt 0 ≤ p.propagationTransferLimit ∧
    Float64.ofInt size > p.propagationTransferLimit * Float64.ofInt 1000
  full total := Float64.ofInt 0 ≤ p.propagationSyncLimit ∧
    Float64.ofInt total ≥ p.propagationSyncLimit * Float64.ofInt 1000

theorem offerStepBy_floatRules : p.offerStepBy p.floatRules = p.offerStep := by
  funext loop entry
  unfold offerStepBy offerStep
  simp only [floatRules, tooLarge, decide_eq_true_eq]

/-- What is said about exact limits is said about the loops of `sendOffer` itself. -/
theorem sendOfferBy_floatRules (store : MessageStore) (m : OfferMoment) :
    p.sendOfferBy p.floatRules store m = p.sendOffer store m := by
  unfold sendOfferBy sendOffer selectOfferBy selectOffer
  rw [offerStepBy_floatRules]

end Peer

/-- Limits in kilobytes, where a negative one is none. -/
structure ExactLimits where
  transferLimit : ℚ
  syncLimit : ℚ

/-- As `peer` and `peerFromBytes` set them: the transfer limit stands in for a sync limit that is not known. -/
def ExactLimits.known (transferLimit syncLimit : ℚ) : ExactLimits :=
  ⟨transferLimit, if syncLimit < 0 then transferLimit else syncLimit⟩

def ExactLimits.rules (l : ExactLimits) : OfferRules where
  tooLarge size := 0 ≤ l.transferLimit ∧ (size : ℚ) > l.transferLimit * 1000
  full total := 0 ≤ l.syncLimit ∧ (total : ℚ) ≥ l.syncLimit * 1000

namespace Peer

/-- An entry that waits for a peer, and nothing else does. -/
structure OnlyQueued (p : Peer) (store : MessageStore) (transientID : Bytes) (entry : PropagationEntry) : Prop where
  found : store.get transientID = some entry
  waits : p.destinationHash ∈ entry.unhandledPeers
  alone : ∀ other, store.unhandledFor p.destinationHash other → other = transientID
  enough : p.minCost ≤ entry.stampValue

variable {p : Peer} {rules : OfferRules} {store : MessageStore} {transientID : Bytes} {entry : PropagationEntry}

theorem OnlyQueued.queued_eq (only : p.OnlyQueued store transientID entry) (visit : Visit) :
    p.queued store visit = [⟨transientID, entry⟩] := by
  have distinct : (p.queued store visit).Nodup := by
    have keys : ((visit.run store.entries.entries).map Sigma.fst).Nodup :=
      ((visit.perm store.entries.entries).map Sigma.fst).nodup_iff.2 store.entries.nodupKeys
    exact keys.of_map.filter _
  apply List.perm_singleton.1
  rw [perm_ext_iff_of_nodup distinct (nodup_singleton _)]
  intro other
  rw [mem_queued, mem_singleton]
  constructor
  · intro ⟨held, waits⟩
    have same := only.alone other.1 ⟨other.2, held, waits⟩
    rw [same, only.found] at held
    exact Sigma.ext same (heq_of_eq (Option.some.inj held).symm)
  · rintro rfl
    exact ⟨only.found, only.waits⟩

/-- A single message within the transfer limit has the whole sync to itself. -/
theorem OnlyQueued.lastOffer_eq (only : p.OnlyQueued store transientID entry) (m : OfferMoment)
    (small : rules.tooLarge (entry.size + perMessageOverhead) = false) :
    (p.selectOfferBy rules store m).lastOffer =
      if rules.full (24 + (entry.size + perMessageOverhead)) then [] else [transientID] := by
  have enough : decide (entry.stampValue < p.minCost) = false := decide_eq_false (not_lt.2 only.enough)
  unfold selectOfferBy
  simp only [only.queued_eq, partition_eq_filter_filter]
  simp only [filter_cons, Function.comp_apply, enough, Bool.not_false, if_true, filter_nil,
    insertionSort_cons, insertionSort_nil, orderedInsert_nil, foldl_cons, foldl_nil,
    offerStepBy, small, Bool.false_eq_true, if_false]
  split <;> rfl

/-- The offer names the message, and if a request can be sent it asks for it. -/
def Offers (offer : Offer) (peeringKey : Option Bytes) (requested : Bool) (transientID : Bytes) : Prop :=
  transientID ∈ offer.peer.lastOffer ∧
    (requested = true → offer.request = some (offerRequest peeringKey [transientID]))

theorem OnlyQueued.offers_iff (only : p.OnlyQueued store transientID entry) (m : OfferMoment)
    (small : rules.tooLarge (entry.size + perMessageOverhead) = false) :
    Offers (p.sendOfferBy rules store m) p.peeringKey m.requested transientID ↔
      rules.full (24 + (entry.size + perMessageOverhead)) = false := by
  have offered := only.lastOffer_eq m small
  unfold sendOfferBy Offers
  dsimp only
  generalize p.selectOfferBy rules store m = loop at offered
  rw [offered]
  cases full : rules.full (24 + (entry.size + perMessageOverhead)) with
  | true => simp
  | false =>
    cases requested : m.requested with
    | true => simp
    | false => simp

end Peer

/-- The only message for a peer is offered unless the sync limit has no room for the head of the transfer besides. -/
theorem sendOffer_includes_iff (p : Peer) (l : ExactLimits) (store : MessageStore) (m : OfferMoment)
    (transientID : Bytes) (entry : PropagationEntry) (only : p.OnlyQueued store transientID entry)
    (within : l.transferLimit < 0 ∨ (entry.size + 16 : ℚ) ≤ 1000 * l.transferLimit) :
    Peer.Offers (p.sendOfferBy l.rules store m) p.peeringKey m.requested transientID ↔
      (l.syncLimit < 0 ∨ (24 + (entry.size + 16) : ℚ) < 1000 * l.syncLimit) := by
  have small : l.rules.tooLarge (entry.size + perMessageOverhead) = false := by
    apply decide_eq_false
    push_cast [perMessageOverhead]
    rintro ⟨limited, large⟩
    rcases within with unlimited | within
    · exact absurd unlimited (not_lt.2 limited)
    · linarith
  rw [only.offers_iff m small, ExactLimits.rules]
  push_cast [perMessageOverhead, decide_eq_false_iff_not, not_and_or, not_le]
  rw [mul_comm l.syncLimit]

def loneEntry (size : Nat) : PropagationEntry :=
  { destinationHash := [3], filePath := ⟨[7], [], 0⟩, receivedAt := Float64.ofInt 0, size, unhandledPeers := [[1]]
    stampValue := 0 }

def loneStore (size : Nat) : MessageStore := { entries := (∅ : GoMap Bytes PropagationEntry).insert [7] (loneEntry size) }

theorem onlyQueued_lone (size : Nat) : ({ destinationHash := [1] } : Peer).OnlyQueued (loneStore size) [7]
    (loneEntry size) where
  found := AList.lookup_insert _
  waits := mem_singleton_self _
  alone other := by
    rintro ⟨entry, found, -⟩
    by_contra apart
    have missing : (loneStore size).get other = none := AList.lookup_insert_ne apart
    rw [missing] at found
    cases found
  enough := show max 0 (0 - 0 : Int) ≤ 0 by decide

theorem sendOffer_includes_half : Peer.Offers (({ destinationHash := [1] } : Peer).sendOfferBy
    (ExactLimits.known 1 (-1)).rules (loneStore 500) { now := 0, visit := .listed }) none true [7] := by
  refine (sendOffer_includes_iff _ _ _ { now := 0, visit := .listed } _ _ (onlyQueued_lone 500) (.inr ?_)).2 (.inr ?_)
  · norm_num [ExactLimits.known, loneEntry]
  · norm_num [ExactLimits.known, loneEntry]

/-- A message that fills the transfer limit of one kilobyte, which is the sync limit too. -/
theorem sendOffer_leaves_full : ∃ (p : Peer) (l : ExactLimits) (store : MessageStore) (entry : PropagationEntry),
    l = ExactLimits.known 1 (-1) ∧ p.OnlyQueued store [7] entry ∧ (entry.size + 16 : ℚ) ≤ 1000 * l.transferLimit ∧
    [7] ∉ (p.sendOfferBy l.rules store { now := 0, visit := .listed }).peer.lastOffer := by
  refine ⟨{ destinationHash := [1] }, _, loneStore 984, loneEntry 984, rfl, onlyQueued_lone 984, ?_, ?_⟩
  · norm_num [ExactLimits.known, loneEntry]
  · decide +kernel

end ReticulumProtocols.Lxmf
