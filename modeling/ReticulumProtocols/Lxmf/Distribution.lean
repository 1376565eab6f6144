import ReticulumProtocols.Lxmf.PeerRecord
import ReticulumProtocols.Lxmf.StoreDirectory

/-! The distribution of stored messages to peers. Every entry of the store lists the peers that have the
message and those it is queued for; several writers edit these lists, and none of them ever lists a peer
twice. -/

namespace ReticulumProtocols.Lxmf
open Wire Msgpack MessageStore List

/-- A message waiting to be queued for the peers, with the peer it came from. -/
structure PeerDistEntry where
  transientID : Bytes
  fromPeer : Option Bytes := none

/-- The part of a router that decides which peer is offered which message. -/
structure Distributor where
  peers : PeerTable := {}
  store : MessageStore
  peerDistributionQ : List PeerDistEntry := []

namespace MessageStore
variable (ms : MessageStore)

/-- `queuePeerStoreSync`, over a snapshot of the store; the number of messages it went through is returned. -/
def queuePeerStoreSync (peer : Bytes) (visit : Visit) : MessageStore × Nat :=
  let missing := (visit.run ms.entries.entries).filter fun entry => peer ∉ entry.2.handledPeers
  (missing.foldl (fun store entry => store.addUnhandledPeer entry.1 peer) ms, missing.length)

/-- The inner loop of `flushPeerDistribution`, which queues a message twice for each peer but its sender. -/
def distribute (peers : List Bytes) (item : PeerDistEntry) : MessageStore :=
  peers.foldl (fun store key =>
    if item.fromPeer = some key then store
    else (store.addUnhandledPeer item.transientID key).addUnhandledPeer item.transientID key) ms

end MessageStore

namespace Distributor
variable (d : Distributor)

/-- `flushPeerDistribution`; the peers are gone through in another order for each message. -/
def flushPeerDistribution (visit : Nat → Visit) : Distributor :=
  { d with
    store := d.peerDistributionQ.zipIdx.foldl (fun store item =>
      store.distribute (((visit item.2).run d.peers.peers.entries).map Sigma.fst) item.1) d.store
    peerDistributionQ := [] }

end Distributor

inductive DistributorOp where
  | add (lxmData stampData : Bytes) (stampValue : Int) (w : StoreWrite)
  | enqueuePeerDistribution (item : PeerDistEntry)
  | peer (p : PeerRecord) (visit : Visit)
  | flushPeerDistribution (visit : Nat → Visit)
  | markHandled (transientID peer : Bytes)
  | addUnhandledPeer (transientID peer : Bytes)
  | removeUnhandledPeer (transientID peer : Bytes)
  | reload (parseFloat : Bytes → Float × Bool) (data : Bytes)

namespace Distributor
variable (d : Distributor)

def step : DistributorOp → Distributor
  | .add lxmData stampData stampValue w => { d with store := (d.store.add lxmData stampData stampValue w).1 }
  | .enqueuePeerDistribution item => { d with peerDistributionQ := d.peerDistributionQ ++ [item] }
  | .peer p visit =>
    { d with peers := d.peers.set p, store := (d.store.queuePeerStoreSync p.destinationHash visit).1 }
  | .flushPeerDistribution visit => d.flushPeerDistribution visit
  | .markHandled transientID peer => { d with store := d.store.markHandled transientID peer }
  | .addUnhandledPeer transientID peer => { d with store := d.store.addUnhandledPeer transientID peer }
  | .removeUnhandledPeer transientID peer => { d with store := d.store.removeUnhandledPeer transientID peer }
  | .reload parseFloat data =>
    match peerFromBytes parseFloat d.store data with
    | .ok (peer, store) => { d with peers := d.peers.set peer, store }
    | .error _ => d

def run (ops : List DistributorOp) : Distributor := ops.foldl step d

end Distributor

/-- No peer stands twice in the lists of an entry. -/
structure PropagationEntry.Listed (entry : PropagationEntry) : Prop where
  handled : entry.handledPeers.Nodup
  unhandled : entry.unhandledPeers.Nodup
  apart : entry.handledPeers.Disjoint entry.unhandledPeers

namespace PropagationEntry.Listed
variable {entry : PropagationEntry}

theorem removeUnhandledPeer (listed : entry.Listed) (peer : Bytes) :
    Listed { entry with unhandledPeers := entry.unhandledPeers.erase peer } where
  handled := listed.handled
  unhandled := listed.unhandled.erase peer
  apart := fun _ handled unhandled => listed.apart handled (mem_of_mem_erase unhandled)

/-- Removing the first occurrence is enough, because there is no other. -/
theorem markHandled (listed : entry.Listed) (peer : Bytes) :
    Listed { entry with
      unhandledPeers := entry.unhandledPeers.erase peer
      handledPeers := if peer ∈ entry.handledPeers then entry.handledPeers else entry.handledPeers ++ [peer] } := by
  by_cases known : peer ∈ entry.handledPeers
  · simp only [known, if_true]
    exact listed.removeUnhandledPeer peer
  · simp only [known, if_false]
    constructor
    · exact listed.handled.append (nodup_singleton peer) (disjoint_singleton.2 known)
    · exact listed.unhandled.erase peer
    · intro other handled unhandled
      rcases mem_append.1 handled with before | new
      · exact listed.apart before (mem_of_mem_erase unhandled)
      · rw [mem_singleton.1 new] at unhandled
        exact listed.unhandled.not_mem_erase unhandled

theorem addUnhandledPeer (listed : entry.Listed) (peer : Bytes) :
    Listed (if peer ∈ entry.handledPeers ∨ peer ∈ entry.unhandledPeers then entry
      else { entry with unhandledPeers := entry.unhandledPeers ++ [peer] }) := by
  split
  · exact listed
  next missing =>
    rw [not_or] at missing
    constructor
    · exact listed.handled
    · exact listed.unhandled.append (nodup_singleton peer) (disjoint_singleton.2 missing.2)
    · intro other handled unhandled
      rcases mem_append.1 unhandled with before | new
      · exact listed.apart handled before
      · rw [mem_singleton.1 new] at handled
        exact missing.1 handled

end PropagationEntry.Listed

namespace MessageStore

def Listed (ms : MessageStore) : Prop := ∀ id entry, ms.get id = some entry → entry.Listed

variable {ms : MessageStore}

theorem Listed.modify (listed : ms.Listed) (transientID : Bytes) {change : PropagationEntry → PropagationEntry}
    (keeps : ∀ entry : PropagationEntry, entry.Listed → (change entry).Listed) : (ms.modify transientID change).Listed := by
  intro id entry found
  rw [get_modify] at found
  split at found
  · obtain ⟨before, present, rfl⟩ := Option.map_eq_some_iff.1 found
    exact keeps before (listed transientID before present)
  · exact listed id entry found

theorem Listed.markHandled (listed : ms.Listed) (transientID peer : Bytes) : (ms.markHandled transientID peer).Listed :=
  listed.modify transientID fun _ entry => entry.markHandled peer

theorem Listed.addUnhandledPeer (listed : ms.Listed) (transientID peer : Bytes) :
    (ms.addUnhandledPeer transientID peer).Listed :=
  listed.modify transientID fun _ entry => entry.addUnhandledPeer peer

theorem Listed.removeUnhandledPeer (listed : ms.Listed) (transientID peer : Bytes) :
    (ms.removeUnhandledPeer transientID peer).Listed :=
  listed.modify transientID fun _ entry => entry.removeUnhandledPeer peer

/-- A loop over steps that keep the lists in order. -/
theorem Listed.foldl {α : Type} {change : MessageStore → α → MessageStore} (listed : ms.Listed)
    (step : ∀ (store : MessageStore) (item : α), store.Listed → (change store item).Listed) (items : List α) :
    (items.foldl change ms).Listed := by
  induction items generalizing ms with
  | nil => exact listed
  | cons first rest ih => exact ih (step ms first listed)

theorem Listed.relist (listed : ms.Listed) (peer : Bytes) (handled unhandled : List Bytes) :
    (ms.relist peer handled unhandled).Listed :=
  (listed.foldl (fun _ id store => store.markHandled id peer) handled).foldl
    (fun _ id store => store.addUnhandledPeer id peer) unhandled

theorem Listed.queuePeerStoreSync (listed : ms.Listed) (peer : Bytes) (visit : Visit) :
    (ms.queuePeerStoreSync peer visit).1.Listed :=
  listed.foldl (fun _ entry store => store.addUnhandledPeer entry.1 peer) _

theorem Listed.distribute (listed : ms.Listed) (peers : List Bytes) (item : PeerDistEntry) :
    (ms.distribute peers item).Listed := by
  apply listed.foldl
  intro store key listed
  split
  · exact listed
  · exact (listed.addUnhandledPeer _ _).addUnhandledPeer _ _

theorem Listed.add (listed : ms.Listed) (lxmData stampData : Bytes) (stampValue : Int) (w : StoreWrite) :
    (ms.add lxmData stampData stampValue w).1.Listed := by
  intro id entry found
  rcases get_add_cases found with before | ⟨-, rfl⟩
  · exact listed id entry before
  · exact ⟨nodup_nil, nodup_nil, disjoint_nil_left _⟩

theorem listed_newMessageStore (parseFloat : Bytes → Option Float) (readable : FilePath → Bool) (o : StoreOptions)
    (files : GoMap FilePath Bytes) : (newMessageStore parseFloat readable o files).Listed := by
  have loaded {file : Sigma fun _ : FilePath => Bytes} {pair : Bytes × PropagationEntry}
      (load : loadFile parseFloat readable file = some pair) : pair.2.Listed := by
    unfold loadFile at load
    split at load
    · contradiction
    split at load
    · contradiction
    split at load
    · contradiction
    · rw [← Option.some.inj load]
      exact ⟨nodup_nil, nodup_nil, disjoint_nil_left _⟩
  have entered (pairs : List (Bytes × PropagationEntry)) (each : ∀ pair ∈ pairs, pair.2.Listed)
      (entries : GoMap Bytes PropagationEntry) (before : ∀ id entry, entries.lookup id = some entry → entry.Listed) :
      ∀ id entry, (pairs.foldl (fun entries loaded => entries.insert loaded.1 loaded.2) entries).lookup id = some entry →
        entry.Listed := by
    induction pairs generalizing entries with
    | nil => exact before
    | cons pair pairs ih =>
      apply ih fun pair member => each pair (mem_cons_of_mem _ member)
      intro id entry found
      by_cases own : id = pair.1
      · rw [own, AList.lookup_insert] at found
        rw [← Option.some.inj found]
        exact each pair mem_cons_self
      · rw [AList.lookup_insert_ne own] at found
        exact before id entry found
  apply entered
  · intro pair member
    obtain ⟨file, -, load⟩ := mem_filterMap.1 member
    exact loaded load
  · intro id entry found
    contradiction

end MessageStore

namespace Distributor
variable {d : Distributor}

theorem listed_step (listed : d.store.Listed) (op : DistributorOp) : (d.step op).store.Listed := by
  cases op with
  | add lxmData stampData stampValue w => exact listed.add lxmData stampData stampValue w
  | enqueuePeerDistribution item => exact listed
  | peer p visit => exact listed.queuePeerStoreSync p.destinationHash visit
  | flushPeerDistribution visit => exact listed.foldl (fun _ item store => store.distribute _ item.1) _
  | markHandled transientID peer => exact listed.markHandled transientID peer
  | addUnhandledPeer transientID peer => exact listed.addUnhandledPeer transientID peer
  | removeUnhandledPeer transientID peer => exact listed.removeUnhandledPeer transientID peer
  | reload parseFloat data =>
    rw [step]
    split
    next peer store read =>
      obtain ⟨handled, unhandled, rfl⟩ := peerFromBytes_ok read
      exact listed.relist _ handled unhandled
    · exact listed

theorem listed_run (listed : d.store.Listed) (ops : List DistributorOp) : (d.run ops).store.Listed := by
  induction ops generalizing d with
  | nil => exact listed
  | cons op ops ih => exact ih (listed_step listed op)

end Distributor

/-- From a store that was just opened, no sequence of operations ever lists a peer twice for a message. -/
theorem distributor_listed (parseFloat : Bytes → Option Float) (readable : FilePath → Bool) (o : StoreOptions)
    (files : GoMap FilePath Bytes) (peers : PeerTable) (ops : List DistributorOp) :
    (Distributor.run { peers, store := newMessageStore parseFloat readable o files } ops).store.Listed :=
  Distributor.listed_run (listed_newMessageStore parseFloat readable o files) ops

end ReticulumProtocols.Lxmf
