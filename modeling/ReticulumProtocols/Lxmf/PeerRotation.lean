import ReticulumProtocols.Lxmf.Peer
import ReticulumProtocols.Lxmf.Peering

/-! `rotatePeers` makes room for new peers by dropping those that take too little of what they are offered. -/

namespace ReticulumProtocols.Lxmf
open Wire Msgpack Text List

def unhandledCount (store : MessageStore) (p : PeerRecord) : Nat :=
  (store.entries.entries.filter fun entry => p.destinationHash ∈ entry.2.unhandledPeers).length

def PeerRecord.acceptanceRate (p : PeerRecord) : Float :=
  if p.offered = 0 then Float64.ofInt 0 else Float64.ofInt p.outgoing.toInt / Float64.ofInt p.offered.toInt

def PeerRecord.exactRate (p : PeerRecord) : ℚ := if p.offered = 0 then 0 else p.outgoing.toInt / p.offered.toInt

/-- What a rotation meets: the states of the peers' synchronisations, the static peers, the orders of a map and of a sort
where rates are equal, and the time of each drop. -/
structure RotationMoment where
  states : Bytes → PeerState
  staticPeers : List Bytes
  visit : Visit
  ties : Visit
  now : Nat → Int64

/-- The places a rotation keeps free, a tenth of them but at least one. -/
def PeeringConfig.headroom (c : PeeringConfig) : Int := max 1 (c.maxPeers * 10 / 100).toInt

/-- The peers to choose from: those with nothing left to sync if there are any. -/
def rotationPool (store : MessageStore) (peers : List PeerRecord) : List PeerRecord :=
  let fullySynced := peers.filter fun p => unhandledCount store p = 0
  if fullySynced.length > 0 then fullySynced else peers

namespace RotationMoment
variable (m : RotationMoment)

/-- A peer that may be dropped, whatever its rate. -/
def droppable (p : PeerRecord) : Bool :=
  p.destinationHash ∉ m.staticPeers ∧ m.states p.destinationHash = .idle ∧ (p.alive = false ∨ 0 < p.offered)

/-- Unresponsive peers first, then the waiting ones that were offered something. -/
def dropPool (pool : List PeerRecord) : List PeerRecord :=
  let considered := pool.filter fun p => ¬(p.destinationHash ∈ m.staticPeers ∨ m.states p.destinationHash ≠ .idle)
  let waiting := considered.filter fun p => p.alive ∧ 0 < p.offered
  let unresponsive := considered.filter fun p => ¬p.alive
  unresponsive ++ waiting

end RotationMoment

namespace PeeringNode
variable (node : PeeringNode) {α : Type} [LE α] [DecidableLE α] [LT α] [DecidableLT α]

/-- The last loop of `rotatePeers`. -/
def dropPeers (rate : PeerRecord → α) (most : α) (now : Nat → Int64) : PeeringNode → Nat → List PeerRecord → PeeringNode
  | node, _, [] => node
  | node, i, p :: drops =>
    (if rate p < most then node.unpeer p.destinationHash 0 (now i) else node).dropPeers rate most now (i + 1) drops

def rotateBy (rate : PeerRecord → α) (most : α) (c : PeeringConfig) (m : RotationMoment) : PeeringNode :=
  if c.maxPeers ≤ 0 then node
  else
    let peerCount : Int := node.peers.size
    let required := peerCount - (c.maxPeers.toInt - c.headroom)
    if required ≤ 0 ∨ peerCount - required ≤ 1 then node
    else
      let peers := (m.visit.run node.peers.peers.entries).map Sigma.snd
      let untested := (peers.filter fun p => p.lastSyncAttempt == Float64.ofInt 0).length
      if c.headroom ≤ untested then node
      else
        let dropPool := m.dropPool (rotationPool node.store peers)
        if dropPool.length = 0 then node
        else
          let lowestFirst := (m.ties.run dropPool).insertionSort fun p q => rate p ≤ rate q
          node.dropPeers rate most m.now 0 (lowestFirst.take (min required lowestFirst.length).toNat)

def rotatePeers (c : PeeringConfig) (m : RotationMoment) : PeeringNode := node.rotateBy PeerRecord.acceptanceRate 0.5 c m

end PeeringNode

theorem mem_rotationPool {store : MessageStore} {peers : List PeerRecord} {p : PeerRecord} :
    p ∈ rotationPool store peers ↔
      p ∈ peers ∧ ((∃ q ∈ peers, unhandledCount store q = 0) → unhandledCount store p = 0) := by
  unfold rotationPool
  dsimp only
  split
  next some =>
    have any : ∃ q ∈ peers, unhandledCount store q = 0 := by
      obtain ⟨q, member⟩ := exists_mem_of_length_pos some
      exact ⟨q, (List.mem_filter.1 member).1, of_decide_eq_true (List.mem_filter.1 member).2⟩
    rw [mem_filter, decide_eq_true_iff]
    exact ⟨fun ⟨member, synced⟩ => ⟨member, fun _ => synced⟩, fun ⟨member, synced⟩ => ⟨member, synced any⟩⟩
  next none =>
    refine ⟨fun member => ⟨member, fun ⟨q, among, synced⟩ => ?_⟩, And.left⟩
    exact absurd (length_pos_of_mem (List.mem_filter.2 ⟨among, decide_eq_true synced⟩)) none

theorem mem_dropPool {m : RotationMoment} {pool : List PeerRecord} {p : PeerRecord} :
    p ∈ m.dropPool pool ↔ p ∈ pool ∧ m.droppable p = true := by
  unfold RotationMoment.dropPool RotationMoment.droppable
  simp only [mem_append, mem_filter, decide_eq_true_eq, not_or, not_not]
  cases p.alive
  · simp
  · simp
    tauto

namespace PeeringNode
variable {node : PeeringNode}

/-- Peers that were announced in the past can be dropped at any time. -/
def Past (node : PeeringNode) (now : Nat → Int64) : Prop :=
  ∀ key p, node.peers.get key = some p → ∀ i, p.peeringTimebase ≤ now i

theorem unpeer_get {destHash : Bytes} {now : Int64}
    (past : ∀ p, node.peers.get destHash = some p → p.peeringTimebase ≤ now) (key : Bytes) :
    (node.unpeer destHash 0 now).peers.get key = if key = destHash then none else node.peers.get key := by
  unfold unpeer
  rw [if_pos rfl]
  cases found : node.peers.get destHash with
  | none =>
    dsimp only
    split
    next own => rw [own, found]
    next => rfl
  | some p =>
    dsimp only
    rw [if_pos (past p found)]
    exact PeerTable.get_delete node.peers destHash key

theorem size_unpeer (destHash : Bytes) (timestamp now : Int64) :
    node.peers.size ≤ (node.unpeer destHash timestamp now).peers.size + 1 := by
  rcases node.unpeer_cases destHash timestamp now with same | deleted
  · rw [same]
    exact Nat.le_succ _
  · rw [deleted, PeerTable.size, PeerTable.size, PeerTable.delete, AList.keys_erase, ← Nat.sub_le_iff_le_add]
    convert le_length_erase (a := destHash) (l := node.peers.peers.keys)

section
variable {α : Type} [LinearOrder α] {rate : PeerRecord → α} {most : α} {now : Nat → Int64}

/-- The loop drops the peers whose rate is too low, and no other. -/
theorem dropPeers_spec (drops : List PeerRecord) (i : Nat) (node : PeeringNode) (past : node.Past now) :
    (∀ key, (node.dropPeers rate most now i drops).peers.get key =
      if ∃ p ∈ drops, rate p < most ∧ p.destinationHash = key then none else node.peers.get key) ∧
    node.peers.size ≤ (node.dropPeers rate most now i drops).peers.size + drops.length := by
  induction drops generalizing node i with
  | nil => simp [dropPeers]
  | cons first drops ih =>
    rw [dropPeers]
    by_cases low : rate first < most
    · rw [if_pos low]
      have gone (key : Bytes) : (node.unpeer first.destinationHash 0 (now i)).peers.get key =
          if key = first.destinationHash then none else node.peers.get key :=
        unpeer_get (fun p found => past first.destinationHash p found i) key
      have still : (node.unpeer first.destinationHash 0 (now i)).Past now := by
        intro key p found
        rw [gone] at found
        split at found
        · cases found
        · exact past key p found
      obtain ⟨get, size⟩ := ih (i + 1) _ still
      have one := node.size_unpeer first.destinationHash 0 (now i)
      refine ⟨fun key => ?_, by rw [length_cons]; omega⟩
      rw [get, gone]
      by_cases own : key = first.destinationHash
      · rw [if_pos own, ite_self, if_pos ⟨first, mem_cons_self, low, own.symm⟩]
      · rw [if_neg own]
        simp only [exists_mem_cons_iff, low, true_and, Ne.symm own, false_or]
    · rw [if_neg low]
      obtain ⟨get, size⟩ := ih (i + 1) node past
      refine ⟨fun key => ?_, by rw [length_cons]; omega⟩
      rw [get]
      simp only [exists_mem_cons_iff, low, false_and, false_or]

end

def Dropped (before after : PeeringNode) (p : PeerRecord) : Prop :=
  before.peers.get p.destinationHash = some p ∧ after.peers.get p.destinationHash = none

/-- Some peer has nothing left to sync. -/
def AnySynced (node : PeeringNode) : Prop :=
  ∃ q, node.peers.get q.destinationHash = some q ∧ unhandledCount node.store q = 0

/-- A rotation that takes no more than it has to, and the worst of those that it may take. -/
structure Conservative {α : Type} [LinearOrder α] (rate : PeerRecord → α) (most : α) (c : PeeringConfig)
    (m : RotationMoment) (before after : PeeringNode) : Prop where
  others : ∀ key, after.peers.get key = none ∨ after.peers.get key = before.peers.get key
  bounded : ∀ p, Dropped before after p →
    (before.peers.size - after.peers.size : Int) ≤ before.peers.size - (c.maxPeers.toInt - c.headroom) ∧
      c.maxPeers.toInt - c.headroom ≤ after.peers.size
  eligible : ∀ p, Dropped before after p → p.destinationHash ∉ m.staticPeers ∧ m.states p.destinationHash = .idle ∧
    (p.alive = false ∨ 0 < p.offered) ∧ rate p < most
  synced : before.AnySynced → ∀ p, Dropped before after p → unhandledCount before.store p = 0
  lowest : ∀ p q, Dropped before after p → after.peers.get q.destinationHash = some q → m.droppable q = true →
    (before.AnySynced → unhandledCount before.store q = 0) → rate p ≤ rate q

theorem mem_peers (node : PeeringNode) (visit : Visit) (p : PeerRecord) :
    p ∈ (visit.run node.peers.peers.entries).map Sigma.snd ↔ node.peers.get p.destinationHash = some p := by
  have listed (entry : Sigma fun _ : Bytes => PeerRecord) :
      entry ∈ visit.run node.peers.peers.entries ↔ node.peers.get entry.1 = some entry.2 := by
    rw [(visit.perm node.peers.peers.entries).mem_iff, PeerTable.get, ← Option.mem_def, AList.mem_lookup_iff]
  rw [mem_map]
  constructor
  · rintro ⟨entry, member, rfl⟩
    have found := (listed entry).1 member
    rwa [node.peers.keyed entry.1 entry.2 found]
  · intro found
    exact ⟨⟨p.destinationHash, p⟩, (listed _).2 found, rfl⟩

section
variable {α : Type} [LinearOrder α] {rate : PeerRecord → α} {most : α} {c : PeeringConfig} {m : RotationMoment}

theorem conservative_self (node : PeeringNode) : Conservative rate most c m node node := by
  have nobody (p : PeerRecord) : ¬Dropped node node p := fun dropped =>
    Option.some_ne_none p (dropped.1.symm.trans dropped.2)
  exact ⟨fun _ => .inr rfl, fun p dropped => absurd dropped (nobody p), fun p dropped => absurd dropped (nobody p),
    fun _ p dropped => absurd dropped (nobody p), fun p _ dropped => absurd dropped (nobody p)⟩

/-- A front of the peers by rate is dropped, as far as their rates are too low. -/
theorem conservative_dropPeers (past : node.Past m.now) {lowestFirst : List PeerRecord} {drops : Nat}
    (members : ∀ p, p ∈ lowestFirst ↔ node.peers.get p.destinationHash = some p ∧
      (node.AnySynced → unhandledCount node.store p = 0) ∧ m.droppable p = true)
    (sorted : lowestFirst.Pairwise fun p q => rate p ≤ rate q)
    (few : (drops : Int) ≤ node.peers.size - (c.maxPeers.toInt - c.headroom)) :
    Conservative rate most c m node (node.dropPeers rate most m.now 0 (lowestFirst.take drops)) := by
  obtain ⟨get, size⟩ := @dropPeers_spec α _ rate most m.now (lowestFirst.take drops) 0 node past
  have length : (lowestFirst.take drops).length ≤ drops := length_take_le _ _
  -- who is dropped stands in the front and has too low a rate
  have front : ∀ p, Dropped node (node.dropPeers rate most m.now 0 (lowestFirst.take drops)) p →
      p ∈ lowestFirst.take drops ∧ rate p < most := by
    intro p ⟨known, gone⟩
    rw [get] at gone
    split at gone
    next dropped =>
      obtain ⟨q, member, low, same⟩ := dropped
      have found := ((members q).1 (mem_of_mem_take member)).1
      rw [same, known] at found
      cases found
      exact ⟨member, low⟩
    next =>
      rw [known] at gone
      cases gone
  refine ⟨fun key => ?_, fun p dropped => ?_, fun p dropped => ?_, fun any p dropped => ?_, ?_⟩
  · rw [get]
    split
    · exact .inl rfl
    · exact .inr rfl
  · omega
  · have among := (members p).1 (mem_of_mem_take (front p dropped).1)
    have may := of_decide_eq_true among.2.2
    exact ⟨may.1, may.2.1, may.2.2, (front p dropped).2⟩
  · exact ((members p).1 (mem_of_mem_take (front p dropped).1)).2.1 any
  · intro p q dropped stays may synced
    obtain ⟨member, low⟩ := front p dropped
    rw [get] at stays
    split at stays
    next => cases stays
    next kept =>
      have listed : q ∈ lowestFirst := (members q).2 ⟨stays, synced, may⟩
      rw [← take_append_drop drops lowestFirst] at listed sorted
      rcases List.mem_append.1 listed with inFront | behind
      · -- it stood in the front too, so its rate is not too low
        by_contra less
        exact kept ⟨q, inFront, (not_le.1 less).trans low, rfl⟩
      · exact (pairwise_append.1 sorted).2.2 p member q behind

end

/-- One rotation is conservative, in whatever order peers of one rate are met. -/
theorem rotatePeers_conservative (node : PeeringNode) (c : PeeringConfig) (m : RotationMoment) (past : node.Past m.now) :
    Conservative PeerRecord.exactRate (1 / 2) c m node (node.rotateBy PeerRecord.exactRate (1 / 2) c m) := by
  unfold rotateBy
  dsimp only
  split_ifs with off full untested none
  · exact conservative_self node
  · exact conservative_self node
  · exact conservative_self node
  · exact conservative_self node
  have anySynced : (∃ q ∈ (m.visit.run node.peers.peers.entries).map Sigma.snd, unhandledCount node.store q = 0) ↔
      node.AnySynced := by simp only [mem_peers, AnySynced]
  apply conservative_dropPeers past
  · intro p
    rw [mem_insertionSort, (m.ties.perm _).mem_iff, mem_dropPool, mem_rotationPool, mem_peers, anySynced, and_assoc]
  · exact pairwise_insertionSort _ _
  · have more := (not_or.1 full).1
    omega

/-- A peer that was tried and has not been heard of since. -/
def silentPeer (last : UInt8) : PeerRecord :=
  { destinationHash := replicate 15 0 ++ [last], lastSyncAttempt := Float64.ofInt 1, addressed := rfl }

def threeSilent : PeeringNode :=
  { store := {}, peers := (((({} : PeerTable).set (silentPeer 1)).set (silentPeer 2)).set (silentPeer 3)) }

/-- With three places, one of three silent peers has to go. -/
theorem rotatePeers_conservative_three :
    let m : RotationMoment :=
      { states := fun _ => .idle, staticPeers := [], visit := .listed, ties := .listed, now := fun _ => 5 }
    (threeSilent.rotateBy PeerRecord.exactRate (1 / 2) { maxPeers := 3 } m).peers.size = 2 ∧
      Conservative PeerRecord.exactRate (1 / 2) { maxPeers := 3 } m threeSilent
        (threeSilent.rotateBy PeerRecord.exactRate (1 / 2) { maxPeers := 3 } m) := by
  refine ⟨by decide +kernel, rotatePeers_conservative _ _ _ ?_⟩
  intro key p found i
  have silent : ∃ last, p = silentPeer last := by
    simp only [threeSilent, PeerTable.get_set] at found
    split_ifs at found
    · exact ⟨3, (Option.some.inj found).symm⟩
    · exact ⟨2, (Option.some.inj found).symm⟩
    · exact ⟨1, (Option.some.inj found).symm⟩
    · cases found
  obtain ⟨last, rfl⟩ := silent
  exact show (0 : Int64) ≤ 5 by decide

end PeeringNode

end ReticulumProtocols.Lxmf
