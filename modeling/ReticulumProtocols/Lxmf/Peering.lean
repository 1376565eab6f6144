import ReticulumProtocols.Lxmf.Distribution

/-! Peering with the propagation nodes that announce themselves. A node may be heard on several paths, so
its announces arrive in any order; the timebase each of them carries decides which one a peer record keeps. -/

namespace ReticulumProtocols.Lxmf
open Wire Msgpack Text List AList

/-- What a propagation node announces, as it is passed to `peer`. -/
structure PeerAnnounce where
  destHash : Bytes
  timebase : Int64
  transferLimit : Float
  syncLimit : Float
  stampCost : Int64
  stampFlex : Int64
  peeringCost : Int64
  metadata : Option Fields
  addressed : destHash.length = destinationLength

/-- The clock and the order of the store when an announce is handled. -/
structure PeerMoment where
  now : Int64
  visit : Visit

structure PeeringConfig where
  propagationHash : Option Bytes := none
  maxPeers : Int64 := 20
  remotePeeringCostMax : Int64 := 26

def PeeringConfig.isOwnPropagationHash (c : PeeringConfig) (hash : Bytes) : Bool :=
  hash.length = destinationLength ∧ c.propagationHash = some hash

namespace PeerTable
variable (table : PeerTable)

def size : Nat := table.peers.keys.length

/-- `delete(r.peers, key)`. -/
def delete (key : Bytes) : PeerTable where
  peers := table.peers.erase key
  keyed other p found := by
    by_cases own : other = key
    · rw [own, lookup_erase] at found
      contradiction
    · rw [lookup_erase_ne own] at found
      exact table.keyed other p found

theorem get_delete (key other : Bytes) :
    (table.delete key).get other = if other = key then none else table.get other := by
  by_cases own : other = key
  · rw [if_pos own, own]
    exact lookup_erase key table.peers
  · rw [if_neg own]
    exact lookup_erase_ne own

theorem size_delete_le (key : Bytes) : (table.delete key).size ≤ table.size := length_erase_le table.peers key

theorem size_set_le (p : PeerRecord) : (table.set p).size ≤ table.size + 1 := length_insert_le table.peers _ p

theorem size_set_of_get {p q : PeerRecord} (known : table.get p.destinationHash = some q) :
    (table.set p).size = table.size :=
  length_insert_of_mem table.peers p (lookup_isSome.1 (Option.isSome_of_eq_some known))

end PeerTable

/-- The part of a router that peers with others, with the directory of their files. -/
structure PeeringNode extends Distributor where
  peerFiles : GoMap Bytes Bytes := ∅

/-- What `peer` enters in a record, whether it is new or known. -/
def PeerRecord.heard (p : PeerRecord) (a : PeerAnnounce) (now : Int64) : PeerRecord :=
  { p with
    alive := true
    metadata := a.metadata
    lastHeard := Float64.ofInt now.toInt
    peeringTimebase := a.timebase
    propagationStampCost := a.stampCost
    propagationStampCostFlex := a.stampFlex
    peeringCost := a.peeringCost
    propagationTransferLimit := a.transferLimit
    -- without a sync limit the largest transfer has to fit in one sync
    propagationSyncLimit := if a.syncLimit < Float64.ofInt 0 then a.transferLimit else a.syncLimit }

def PeerRecord.due (p : PeerRecord) : PeerRecord :=
  { p with syncBackoff := Float64.ofInt 0, nextSyncAttempt := Float64.ofInt 0 }

namespace PeeringNode
variable (node : PeeringNode)

/-- `unpeer`; a timestamp of zero stands for the time of the call. -/
def unpeer (destHash : Bytes) (timestamp now : Int64) : PeeringNode :=
  let timestamp := if timestamp = 0 then now else timestamp
  match node.peers.get destHash with
  | none => node
  | some peer =>
    if peer.peeringTimebase ≤ timestamp then
      { node with peers := node.peers.delete destHash, peerFiles := node.peerFiles.erase (encodeHex destHash) }
    else node

/-- `seedPeerSync`, without the synchronisation it starts. -/
def seedPeerSync (peer : PeerRecord) (visit : Visit) : PeeringNode :=
  { node with store := (node.store.queuePeerStoreSync peer.destinationHash visit).1 }

def peer (c : PeeringConfig) (a : PeerAnnounce) (moment : PeerMoment) : PeeringNode :=
  if c.isOwnPropagationHash a.destHash then node
  else if c.remotePeeringCostMax < a.peeringCost then
    if (node.peers.get a.destHash).isSome then node.unpeer a.destHash a.timebase moment.now else node
  else
    match node.peers.get a.destHash with
    | some known =>
      if known.peeringTimebase < a.timebase then
        let peer := known.due.heard a moment.now
        { node with peers := node.peers.set peer }.seedPeerSync peer moment.visit
      else node
    | none =>
      if c.maxPeers.toInt ≤ node.peers.size then node
      else
        let peer := (newPeer a.destHash a.addressed).heard a moment.now
        { node with peers := node.peers.set peer }.seedPeerSync peer moment.visit

end PeeringNode

inductive PeeringOp where
  | peer (a : PeerAnnounce) (moment : PeerMoment)
  | unpeer (destHash : Bytes) (timestamp now : Int64)

namespace PeeringNode
variable (c : PeeringConfig) (node : PeeringNode)
variable {dest : Bytes}

def step : PeeringOp → PeeringNode
  | .peer a moment => node.peer c a moment
  | .unpeer destHash timestamp now => node.unpeer destHash timestamp now

def run (ops : List PeeringOp) : PeeringNode := ops.foldl (step c) node

theorem unpeer_cases (destHash : Bytes) (timestamp now : Int64) :
    (node.unpeer destHash timestamp now).peers = node.peers ∨
      (node.unpeer destHash timestamp now).peers = node.peers.delete destHash := by
  rw [unpeer]
  generalize (if timestamp = 0 then now else timestamp) = limit
  split
  · exact Or.inl rfl
  split
  · exact Or.inr rfl
  · exact Or.inl rfl

/-- What handling an announce can do to the peers. -/
inductive Handled (a : PeerAnnounce) (before : PeerTable) : PeerTable → Prop
  | ignored : Handled a before before
  | unpeered (dear : c.remotePeeringCostMax < a.peeringCost) : Handled a before (before.delete a.destHash)
  | updated (known : PeerRecord) (found : before.get a.destHash = some known)
      (newer : known.peeringTimebase < a.timebase) (base : PeerRecord) (own : base.destinationHash = a.destHash)
      (now : Int64) : Handled a before (before.set (base.heard a now))
  | added (missing : before.get a.destHash = none) (room : before.size < c.maxPeers.toInt) (base : PeerRecord)
      (own : base.destinationHash = a.destHash) (now : Int64) : Handled a before (before.set (base.heard a now))

theorem handled_peer (a : PeerAnnounce) (moment : PeerMoment) :
    Handled c a node.peers (node.peer c a moment).peers := by
  rw [peer]
  split
  · exact .ignored
  split
  next dear =>
    split
    · rcases node.unpeer_cases a.destHash a.timebase moment.now with same | gone
      · rw [same]
        exact .ignored
      · rw [gone]
        exact .unpeered dear
    · exact .ignored
  split
  next known found =>
    split
    next newer => exact .updated known found newer known.due (node.peers.keyed _ known found) moment.now
    · exact .ignored
  next missing =>
    split
    · exact .ignored
    next room => exact .added missing (not_le.1 room) (newPeer a.destHash a.addressed) rfl moment.now

variable {c} {a : PeerAnnounce} {before after : PeerTable}

theorem Handled.get_ne (handled : Handled c a before after) (other : dest ≠ a.destHash) :
    after.get dest = before.get dest := by
  cases handled with
  | ignored => rfl
  | unpeered => rw [PeerTable.get_delete, if_neg other]
  | updated known found newer base own now => rw [PeerTable.get_set, if_neg (own.symm ▸ other)]
  | added missing room base own now => rw [PeerTable.get_set, if_neg (own.symm ▸ other)]

theorem delete_kept {table : PeerTable} {key dest : Bytes} {q : PeerRecord}
    (found : (table.delete key).get dest = some q) : table.get dest = some q := by
  rw [PeerTable.get_delete] at found
  split at found
  · contradiction
  · exact found

/-- A peer that is kept is as before, or as announced with a later timebase. -/
theorem Handled.kept (handled : Handled c a before after) {p q : PeerRecord}
    (old : before.get dest = some p) (new : after.get dest = some q) :
    q = p ∨ p.peeringTimebase < q.peeringTimebase := by
  by_cases own : dest = a.destHash
  · cases handled with
    | ignored => exact Or.inl (Option.some.inj (new.symm.trans old))
    | unpeered => exact Or.inl (Option.some.inj ((delete_kept new).symm.trans old))
    | updated known found newer base based now =>
      have same : dest = (base.heard a now).destinationHash := own.trans based.symm
      rw [own, found] at old
      rw [PeerTable.get_set, if_pos same] at new
      rw [← Option.some.inj old, ← Option.some.inj new]
      exact Or.inr newer
    | added missing =>
      rw [own, missing] at old
      contradiction
  · rw [handled.get_ne own] at new
    exact Or.inl (Option.some.inj (new.symm.trans old))

theorem Handled.size_le (handled : Handled c a before after) :
    (after.size : Int) ≤ max c.maxPeers.toInt before.size := by
  cases handled with
  | ignored => exact le_max_right _ _
  | unpeered =>
    have shrinks := before.size_delete_le a.destHash
    omega
  | updated known found newer base own now =>
    rw [before.size_set_of_get (own.symm ▸ found)]
    exact le_max_right _ _
  | added missing room base own now =>
    have grows := before.size_set_le (base.heard a now)
    omega

variable {node} (c) in
/-- A single operation never takes the timebase of a peer back. -/
theorem step_timebase_le (op : PeeringOp) {p q : PeerRecord} (old : node.peers.get dest = some p)
    (new : (node.step c op).peers.get dest = some q) : p.peeringTimebase.toInt ≤ q.peeringTimebase.toInt := by
  have kept : q = p ∨ p.peeringTimebase < q.peeringTimebase := by
    cases op with
    | peer a moment => exact (node.handled_peer c a moment).kept old new
    | unpeer destHash timestamp now =>
      apply Or.inl
      rw [step] at new
      rcases node.unpeer_cases destHash timestamp now with same | gone
      · rw [same] at new
        exact Option.some.inj (new.symm.trans old)
      · rw [gone] at new
        exact Option.some.inj ((delete_kept new).symm.trans old)
  rcases kept with rfl | later
  · exact le_rfl
  · exact (Int64.lt_iff_toInt_lt.1 later).le

variable (c) in
theorem step_size_le (op : PeeringOp) :
    ((node.step c op).peers.size : Int) ≤ max c.maxPeers.toInt node.peers.size := by
  cases op with
  | peer a moment => exact (node.handled_peer c a moment).size_le
  | unpeer destHash timestamp now =>
    rw [step]
    rcases node.unpeer_cases destHash timestamp now with same | gone
    · rw [same]
      exact le_max_right _ _
    · rw [gone]
      have shrinks := node.peers.size_delete_le destHash
      omega

variable (c) in
theorem run_size_le (ops : List PeeringOp) :
    ((node.run c ops).peers.size : Int) ≤ max c.maxPeers.toInt node.peers.size := by
  induction ops generalizing node with
  | nil => exact le_max_right _ _
  | cons op ops ih =>
    calc ((node.run c (op :: ops)).peers.size : Int)
        ≤ max c.maxPeers.toInt (node.step c op).peers.size := ih (node.step c op)
      _ ≤ max c.maxPeers.toInt (max c.maxPeers.toInt node.peers.size) :=
        max_le_max_left _ (node.step_size_le c op)
      _ = max c.maxPeers.toInt node.peers.size := max_eq_right (le_max_left _ _)

theorem get_peer (foreign : c.isOwnPropagationHash a.destHash = false) (cheap : a.peeringCost ≤ c.remotePeeringCostMax)
    (moment : PeerMoment) :
    (node.peer c a moment).peers.get a.destHash =
      match node.peers.get a.destHash with
      | some known => if known.peeringTimebase < a.timebase then some (known.due.heard a moment.now) else some known
      | none =>
        if c.maxPeers.toInt ≤ node.peers.size then none
        else some ((newPeer a.destHash a.addressed).heard a moment.now) := by
  have entered {base : PeerRecord} (own : a.destHash = base.destinationHash) :
      (node.peers.set (base.heard a moment.now)).get a.destHash = some (base.heard a moment.now) := by
    rw [PeerTable.get_set]
    exact if_pos own
  rw [peer, foreign, if_neg Bool.false_ne_true, if_neg (Int64.not_lt.2 cheap)]
  split
  next known found =>
    split
    · exact entered (node.peers.keyed _ known found).symm
    · exact found
  next missing =>
    split
    · exact missing
    · exact entered rfl

/-- An announce from `latest` would be entered: there is room for it, or the record is older. -/
def Awaits (c : PeeringConfig) (latest : PeerAnnounce) : Prop :=
  node.peers.get latest.destHash = none ∧ node.peers.size < c.maxPeers.toInt ∨
    ∃ p, node.peers.get latest.destHash = some p ∧ p.peeringTimebase < latest.timebase

end PeeringNode

/-- A record that says what the announce says. -/
structure PeerRecord.Announced (p : PeerRecord) (a : PeerAnnounce) : Prop where
  peeringTimebase : p.peeringTimebase = a.timebase
  propagationStampCost : p.propagationStampCost = a.stampCost
  propagationStampCostFlex : p.propagationStampCostFlex = a.stampFlex
  peeringCost : p.peeringCost = a.peeringCost
  propagationTransferLimit : p.propagationTransferLimit = a.transferLimit
  propagationSyncLimit :
    p.propagationSyncLimit = if a.syncLimit < Float64.ofInt 0 then a.transferLimit else a.syncLimit
  metadata : p.metadata = a.metadata

theorem PeerRecord.announced_heard (p : PeerRecord) (a : PeerAnnounce) (now : Int64) : (p.heard a now).Announced a :=
  ⟨rfl, rfl, rfl, rfl, rfl, rfl, rfl⟩

namespace PeeringNode
variable (c : PeeringConfig) (node : PeeringNode) {latest : PeerAnnounce}

/-- Announces of one destination, handled one after the other. -/
def hear (announces : List (PeerAnnounce × PeerMoment)) : PeeringNode :=
  node.run c (announces.map fun a => .peer a.1 a.2)

/-- An announce of the destination that `latest` is not older than. -/
structure Precedes (latest a : PeerAnnounce) : Prop where
  destHash : a.destHash = latest.destHash
  cheap : a.peeringCost ≤ c.remotePeeringCostMax
  timebase : a.timebase ≤ latest.timebase

variable {c node}

/-- Once the latest announce is entered, the others change nothing. -/
theorem hear_settled (foreign : c.isOwnPropagationHash latest.destHash = false)
    {announces : List (PeerAnnounce × PeerMoment)} (each : ∀ a ∈ announces, Precedes c latest a.1) {p : PeerRecord}
    (found : node.peers.get latest.destHash = some p) (entered : p.peeringTimebase = latest.timebase) :
    (node.hear c announces).peers.get latest.destHash = some p := by
  induction announces generalizing node with
  | nil => exact found
  | cons a announces ih =>
    have first := each a mem_cons_self
    apply ih fun b member => each b (mem_cons_of_mem a member)
    rw [← first.destHash] at foreign found ⊢
    have stale : ¬p.peeringTimebase < a.1.timebase := by
      rw [entered]
      exact Int64.not_lt.2 first.timebase
    have after := node.get_peer foreign first.cheap a.2
    rw [found] at after
    exact after.trans (if_neg stale)

/-- An announce of the destination that comes before the latest leaves room for that. -/
theorem Awaits.peer (awaits : node.Awaits c latest) (foreign : c.isOwnPropagationHash latest.destHash = false)
    {a : PeerAnnounce} (precedes : Precedes c latest a) (older : a.timebase < latest.timebase) (moment : PeerMoment) :
    (node.peer c a moment).Awaits c latest := by
  apply Or.inr
  rw [Awaits] at awaits
  rw [← precedes.destHash] at awaits foreign ⊢
  have after := node.get_peer foreign precedes.cheap moment
  rcases awaits with ⟨missing, room⟩ | ⟨p, found, before⟩
  · rw [missing] at after
    exact ⟨_, after.trans (if_neg (not_le.2 room)), older⟩
  · rw [found] at after
    dsimp only at after
    split at after
    · exact ⟨_, after, older⟩
    · exact ⟨p, after, before⟩

theorem Awaits.peer_self (awaits : node.Awaits c latest) (foreign : c.isOwnPropagationHash latest.destHash = false)
    (cheap : latest.peeringCost ≤ c.remotePeeringCostMax) (moment : PeerMoment) :
    ∃ p, (node.peer c latest moment).peers.get latest.destHash = some p ∧ p.Announced latest := by
  have after := node.get_peer foreign cheap moment
  rcases awaits with ⟨missing, room⟩ | ⟨p, found, before⟩
  · rw [missing] at after
    exact ⟨_, after.trans (if_neg (not_le.2 room)), PeerRecord.announced_heard _ latest moment.now⟩
  · rw [found] at after
    exact ⟨_, after.trans (if_pos before), PeerRecord.announced_heard _ latest moment.now⟩

/-- The announce with the greatest timebase decides the record, wherever it stands among the others. -/
theorem Awaits.hear (awaits : node.Awaits c latest) (foreign : c.isOwnPropagationHash latest.destHash = false)
    {announces : List (PeerAnnounce × PeerMoment)} (each : ∀ a ∈ announces, Precedes c latest a.1)
    (distinct : announces.Pairwise fun a b => a.1.timebase ≠ b.1.timebase) {moment : PeerMoment}
    (member : (latest, moment) ∈ announces) :
    ∃ p, (node.hear c announces).peers.get latest.destHash = some p ∧ p.Announced latest := by
  induction announces generalizing node with
  | nil => contradiction
  | cons a announces ih =>
    have rest : ∀ b ∈ announces, Precedes c latest b.1 := fun b member => each b (mem_cons_of_mem a member)
    rcases mem_cons.1 member with rfl | later
    · obtain ⟨p, found, announced⟩ := awaits.peer_self foreign (each _ mem_cons_self).cheap moment
      exact ⟨p, hear_settled foreign rest found announced.peeringTimebase, announced⟩
    · have first := each a mem_cons_self
      have apart : a.1.timebase ≠ latest.timebase := (pairwise_cons.1 distinct).1 _ later
      have older : a.1.timebase < latest.timebase := Int64.lt_of_le_of_ne first.timebase apart
      exact ih (awaits.peer foreign first older a.2) rest (pairwise_cons.1 distinct).2 later

end PeeringNode

/-- The order in which a destination's announces arrive does not matter, its timebase never goes back while it
is peered, and announces never raise the number of peers above the limit. -/
theorem peering_converges (c : PeeringConfig) (node : PeeringNode) :
    (∀ (announces : List (PeerAnnounce × PeerMoment)) (latest : PeerAnnounce) (moment : PeerMoment),
      (latest, moment) ∈ announces → c.isOwnPropagationHash latest.destHash = false →
      (∀ a ∈ announces, PeeringNode.Precedes c latest a.1) →
      announces.Pairwise (fun a b => a.1.timebase ≠ b.1.timebase) → node.Awaits c latest →
      ∃ p, (node.hear c announces).peers.get latest.destHash = some p ∧ p.Announced latest) ∧
    (∀ (ops : List PeeringOp) (dest : Bytes) (record : Nat → PeerRecord),
      (∀ k, (node.run c (ops.take k)).peers.get dest = some (record k)) →
      Monotone fun k => (record k).peeringTimebase.toInt) ∧
    ∀ ops : List PeeringOp, ((node.run c ops).peers.size : Int) ≤ max c.maxPeers.toInt node.peers.size := by
  refine ⟨?_, ?_, node.run_size_le c⟩
  · intro announces latest moment member foreign each distinct awaits
    exact awaits.hear foreign each distinct member
  · intro ops dest record found
    apply monotone_nat_of_le_succ
    intro k
    have next := found (k + 1)
    rw [take_add_one, PeeringNode.run, foldl_append] at next
    cases op : ops[k]? with
    | none =>
      rw [op] at next
      have same : record k = record (k + 1) := Option.some.inj ((found k).symm.trans next)
      rw [same]
    | some op' =>
      rw [op] at next
      exact PeeringNode.step_timebase_le c op' (found k) next

/-- An announce without a sync limit. -/
def plainAnnounce (timebase : Int64) : PeerAnnounce where
  destHash := replicate 16 0x0a
  timebase
  transferLimit := Float64.ofInt 256
  syncLimit := Float64.ofInt (-1)
  stampCost := 16
  stampFlex := 3
  peeringCost := 18
  metadata := none
  addressed := rfl

/-- The later announce arrives first, in a table with room, and stays. -/
theorem plainAnnounce_converges :
    ∃ p, (PeeringNode.hear {} { store := {} } [(plainAnnounce 7, ⟨9, Visit.listed⟩),
      (plainAnnounce 5, ⟨9, Visit.listed⟩)]).peers.get (plainAnnounce 7).destHash = some p ∧
        p.Announced (plainAnnounce 7) := by
  apply (peering_converges {} { store := {} }).1 _ (plainAnnounce 7) ⟨9, Visit.listed⟩ mem_cons_self rfl
  · intro a member
    rcases mem_pair.1 member with same | same
    · rw [same]
      exact ⟨rfl, by decide, by decide⟩
    · rw [same]
      exact ⟨rfl, by decide, by decide⟩
  · exact pairwise_pair.2 (by decide)
  · exact Or.inl ⟨rfl, by decide⟩

end ReticulumProtocols.Lxmf
