import ReticulumProtocols.Lxmf.Delivery
import ReticulumProtocols.Lxmf.Fetch
import ReticulumProtocols.Lxmf.Store

/-! Taking in propagated messages. `lxmfPropagation` marks a transient id as processed before it knows
whether the message can be delivered or stored, and `handlePropagationPacket` proves a packet without
looking at what became of the messages in it. -/

namespace ReticulumProtocols.Lxmf
open Wire Msgpack Sha256 List

structure PropagationConfig where
  delivery : DeliveryConfig
  decrypt : Bytes → Option Bytes
  propagationEnabled : Bool := true
  stampCostTarget : Int := 0
  stampCostFlexibility : Int := 0

structure Router where
  store : Option MessageStore := none
  locallyProcessed : GoMap Bytes Float := ∅
  inbox : Inbox := {}
  peerDistributionQ : List (Bytes × Option Bytes) := []
  clientPropagationReceived : Nat := 0

/-- What the processing of one message meets: times, map orders, and the file system. -/
structure Ingest where
  now : Int
  order : MapOrder
  visit : Visit
  writes : Bool := true
  store : StoreWrite

/-- How `lxmfPropagation` ends. -/
inductive Ingested where
  | tooShort
  | held
  | seen
  | delivered (written : Option Written)
  | disabled
  | unstamped
  | notStored (error : StoreError)
  | stored

/-- The return value: whether the message was delivered or stored. -/
def Ingested.kept : Ingested → Bool
  | .delivered _ | .stored => true
  | _ => false

/-- `r.store.Get`, which finds nothing in a router without a store. -/
def Router.holds (r : Router) (transientID : Bytes) : Bool :=
  (r.store.bind fun store => store.get transientID).isSome

/-- A message is for our own destination if its decryption yields something. -/
def PropagationConfig.ownPayload (c : PropagationConfig) (lxmData : Bytes) : Option Bytes :=
  if c.delivery.localHash = some (lxmData.take destinationLength) then
    (c.decrypt (lxmData.drop destinationLength)).filter fun decrypted => decrypted ≠ []
  else none

/-- The part of `lxmfPropagation` behind the mark: storing the message. -/
def Router.keep (c : PropagationConfig) (r : Router) (lxmData : Bytes) (stampValue : Int) (stampData : Bytes)
    (fromPeer : Option Bytes) (e : Ingest) : Router × Ingested :=
  match r.store with
  | none => (r, .disabled)
  | some store =>
    if c.propagationEnabled = false then (r, .disabled)
    else if stampData = [] then (r, .unstamped)
    else
      match store.add lxmData stampData stampValue e.store with
      | (store, .error error) => ({ r with store := some store }, .notStored error)
      | (store, .ok _) =>
        ({ r with
          store := some store
          peerDistributionQ := r.peerDistributionQ ++ [(sha256 lxmData, fromPeer)] }, .stored)

def Router.lxmfPropagation (c : PropagationConfig) (r : Router) (lxmData : Bytes) (stampValue : Int)
    (stampData : Bytes) (fromPeer : Option Bytes) (isPaper : Bool) (e : Ingest) : Router × Ingested :=
  if lxmData.length < overhead then (r, .tooShort)
  else if r.holds (sha256 lxmData) then (r, .held)
  else if sha256 lxmData ∈ r.locallyProcessed then (r, .seen)
  else
    let r := { r with locallyProcessed := r.locallyProcessed.insert (sha256 lxmData) (clock e.now) }
    match c.ownPayload lxmData with
    | some decrypted =>
      let call : DeliveryCall :=
        { lxmfData := lxmData.take destinationLength ++ decrypted, noStampEnforcement := isPaper, now := e.now,
          order := e.order, visit := e.visit, writes := e.writes }
      match handleDeliveryPayload c.delivery r.inbox call with
      | (inbox, written) =>
        ({ r with inbox := { inbox with
            locallyDelivered := inbox.locallyDelivered.insert (sha256 lxmData) (clock e.now) } },
          .delivered written)
    | none => r.keep c lxmData stampValue stampData fromPeer e

structure PNStampEntry where
  transientID : Bytes
  lxmData : Bytes
  value : Int
  stamp : Bytes

def transientPart (transientData : Bytes) : Bytes := transientData.take (transientData.length - stampSize)

def stampPart (transientData : Bytes) : Bytes := transientData.drop (transientData.length - stampSize)

def validatePNStamp (targetCost : Int) (transientData : Bytes) : Option PNStampEntry :=
  if transientData.length ≤ overhead + stampSize then none
  else
    let lxm := transientPart transientData
    let stamp := stampPart transientData
    (stampWorkblock (sha256 lxm) workblockExpandRoundsPN).bind fun workblock =>
      if stampValid stamp targetCost workblock then some ⟨sha256 lxm, lxm, stampValue workblock stamp, stamp⟩
      else none

/-- `ValidatePNStamps`, in the order of the messages. -/
def validatePNStamps (messages : List Bytes) (targetCost : Int) : List PNStampEntry :=
  messages.filterMap (validatePNStamp targetCost)

/-- The messages of a packet: the byte slices that are not empty. -/
def packetMessages (data : Bytes) : Option (List Bytes) :=
  match unmarshalSlice data with
  | .ok (_ :: .arr messages :: _) => some ((messages.map assertBytes).filter fun message => message ≠ [])
  | _ => none

/-- What the sender of a packet gets. -/
inductive PacketReply where
  | none
  | proof
  | rejection
  deriving DecidableEq, Repr

/-- One round of the loop over the validated messages. -/
def Router.receiveClient (c : PropagationConfig) (r : Router) (entry : PNStampEntry) (e : Ingest) :
    Router × Ingested :=
  let result := r.lxmfPropagation c entry.lxmData entry.value entry.stamp none false e
  ({ result.1 with clientPropagationReceived := result.1.clientPropagationReceived + 1 }, result.2)

/-- The loop, with what became of each message; `meets i` is what message `i` of the packet meets. -/
def Router.ingest (c : PropagationConfig) (meets : Nat → Ingest) :
    Nat → Router → List PNStampEntry → Router × List (Bytes × Ingested)
  | _, r, [] => (r, [])
  | i, r, entry :: others =>
    let result := r.receiveClient c entry (meets i)
    let later := Router.ingest c meets (i + 1) result.1 others
    (later.1, (sha256 entry.lxmData, result.2) :: later.2)

def PropagationConfig.minCost (c : PropagationConfig) : Int := max 0 (c.stampCostTarget - c.stampCostFlexibility)

structure PacketOutcome where
  router : Router
  outcomes : List (Bytes × Ingested) := []
  reply : PacketReply := .none

/-- `handlePropagationPacket`; `linked` says whether link and packet are there, `provable` whether sending
the proof succeeds. -/
def Router.handlePropagationPacket (c : PropagationConfig) (r : Router) (data : Bytes) (linked provable : Bool)
    (meets : Nat → Ingest) : PacketOutcome :=
  match packetMessages data with
  | none => { router := r }
  | some raw =>
    let validated := validatePNStamps raw c.minCost
    match r.ingest c meets 0 validated with
    | (router, outcomes) =>
      if validated.length = raw.length then
        { router, outcomes, reply := if linked && provable then .proof else .none }
      else { router, outcomes, reply := if linked then .rejection else .none }

/-- What keeping a message takes once it is not for us: a store, its being switched on, a stamp, and a file
system that writes. -/
def Storable (c : PropagationConfig) (r : Router) (stampData : Bytes) (e : Ingest) : Prop :=
  r.store.isSome = true ∧ c.propagationEnabled = true ∧ stampData ≠ [] ∧
    e.store.wrote = true ∧ e.store.renamed = true

/-- A message that `lxmfPropagation` does not turn away at the door. -/
def Router.Fresh (r : Router) (lxmData : Bytes) : Prop :=
  overhead ≤ lxmData.length ∧ r.holds (sha256 lxmData) = false ∧ sha256 lxmData ∉ r.locallyProcessed

/-- From `r` to `after` nothing has changed for the transient ids other than `transientID`. -/
structure Router.Frame (transientID : Bytes) (r after : Router) : Prop where
  processed : ∀ other ≠ transientID, other ∈ after.locallyProcessed ↔ other ∈ r.locallyProcessed
  holds : ∀ other ≠ transientID, after.holds other = true → r.holds other = true
  store : after.store.isSome = r.store.isSome

theorem Router.Frame.refl {transientID : Bytes} (r : Router) : r.Frame transientID r where
  processed _ _ := Iff.rfl
  holds _ _ held := held
  store := rfl

section
variable (c : PropagationConfig) (r : Router) (lxmData stampData : Bytes) (stampValue : Int)
  (fromPeer : Option Bytes) (isPaper : Bool) (e : Ingest)

theorem keep_cases (long : overhead ≤ lxmData.length) (missing : r.holds (sha256 lxmData) = false) :
    (r.keep c lxmData stampValue stampData fromPeer e).1.locallyProcessed = r.locallyProcessed ∧
    r.Frame (sha256 lxmData) (r.keep c lxmData stampValue stampData fromPeer e).1 ∧
    ((r.keep c lxmData stampValue stampData fromPeer e).2.kept = true ↔ Storable c r stampData e) := by
  have same : r.Frame (sha256 lxmData) r := .refl r
  unfold Router.keep Storable
  cases present : r.store with
  | none => exact ⟨rfl, same, by simp [Ingested.kept]⟩
  | some store =>
  dsimp only
  by_cases enabled : c.propagationEnabled = false
  · rw [if_pos enabled]
    exact ⟨rfl, same, by simp [Ingested.kept, enabled]⟩
  rw [if_neg enabled]
  by_cases unstamped : stampData = []
  · rw [if_pos unstamped]
    exact ⟨rfl, same, by simp [Ingested.kept, unstamped]⟩
  rw [if_neg unstamped]
  have absent : store.get (sha256 lxmData) = none := by
    simpa [Router.holds, present] using missing
  have room : destinationLength ≤ lxmData.length := by
    change 112 ≤ _ at long
    change 16 ≤ _
    omega
  have written := MessageStore.add_isOk stampData stampValue e.store room absent
  have others : ∀ other ≠ sha256 lxmData,
      ((store.add lxmData stampData stampValue e.store).1.get other).isSome = true → r.holds other = true := by
    intro other different found
    obtain ⟨entry, found⟩ := Option.isSome_iff_exists.1 found
    simp [Router.holds, present, MessageStore.get_of_add found different]
  rcases added : store.add lxmData stampData stampValue e.store with ⟨after, _ | entry⟩
  · rw [added] at written others
    refine ⟨rfl, ⟨fun _ _ => Iff.rfl, others, by simp [present]⟩, ?_⟩
    simpa [Ingested.kept, enabled, unstamped] using written
  · rw [added] at written others
    refine ⟨rfl, ⟨fun _ _ => Iff.rfl, others, by simp [present]⟩, ?_⟩
    simpa [Ingested.kept, enabled, unstamped] using written

/-- All that `lxmfPropagation` can do: turn the message away, or mark it and then perhaps keep it. -/
theorem lxmfPropagation_cases :
    let result := r.lxmfPropagation c lxmData stampValue stampData fromPeer isPaper e
    (¬r.Fresh lxmData ∧ result.1 = r ∧ result.2.kept = false) ∨
    (r.Fresh lxmData ∧ sha256 lxmData ∈ result.1.locallyProcessed ∧ r.Frame (sha256 lxmData) result.1 ∧
      (result.2.kept = true ↔ (c.ownPayload lxmData).isSome = true ∨ Storable c r stampData e)) := by
  dsimp only
  unfold Router.lxmfPropagation
  by_cases short : lxmData.length < overhead
  · rw [if_pos short]
    exact .inl ⟨fun fresh => Nat.not_lt.2 fresh.1 short, rfl, rfl⟩
  rw [if_neg short]
  by_cases held : r.holds (sha256 lxmData) = true
  · rw [if_pos held]
    exact .inl ⟨fun fresh => by simp [Router.Fresh, held] at fresh, rfl, rfl⟩
  rw [if_neg held]
  by_cases seen : sha256 lxmData ∈ r.locallyProcessed
  · rw [if_pos seen]
    exact .inl ⟨fun fresh => fresh.2.2 seen, rfl, rfl⟩
  rw [if_neg seen]
  have missing : r.holds (sha256 lxmData) = false := by simpa using held
  refine .inr ⟨⟨Nat.not_lt.1 short, missing, seen⟩, ?_⟩
  dsimp only
  cases own : c.ownPayload lxmData with
  | some decrypted =>
    refine ⟨(AList.mem_insert _).2 (.inl rfl), ⟨fun other different => ?_, fun _ _ held => held, rfl⟩, ?_⟩
    · simp [different]
    · simp [Ingested.kept]
  | none =>
    have kept := keep_cases c
      { r with locallyProcessed := r.locallyProcessed.insert (sha256 lxmData) (clock e.now) }
      lxmData stampData stampValue fromPeer e (Nat.not_lt.1 short) missing
    refine ⟨?_, ⟨fun other different => ?_, kept.2.1.holds, kept.2.1.store⟩, ?_⟩
    · rw [kept.1]
      exact (AList.mem_insert _).2 (.inl rfl)
    · rw [kept.1]
      simp [different]
    · rw [kept.2.2]
      simp [Storable]

theorem lxmfPropagation_frame :
    r.Frame (sha256 lxmData) (r.lxmfPropagation c lxmData stampValue stampData fromPeer isPaper e).1 := by
  rcases lxmfPropagation_cases c r lxmData stampData stampValue fromPeer isPaper e with
    ⟨_, unchanged, _⟩ | ⟨_, _, frame, _⟩
  · rw [unchanged]
    exact .refl r
  · exact frame

theorem mem_lxmfPropagation_processed {transientID : Bytes} (marked : transientID ∈ r.locallyProcessed) :
    transientID ∈ (r.lxmfPropagation c lxmData stampValue stampData fromPeer isPaper e).1.locallyProcessed := by
  rcases lxmfPropagation_cases c r lxmData stampData stampValue fromPeer isPaper e with
    ⟨_, unchanged, _⟩ | ⟨_, own, frame, _⟩
  · rwa [unchanged]
  · by_cases same : transientID = sha256 lxmData
    · rwa [same]
    · exact (frame.processed transientID same).2 marked

/-- The call does not mark a message as processed that it then loses. -/
def NotBlacklisted : Prop :=
  (r.lxmfPropagation c lxmData stampValue stampData fromPeer isPaper e).2.kept = false →
    sha256 lxmData ∈ (r.lxmfPropagation c lxmData stampValue stampData fromPeer isPaper e).1.locallyProcessed →
    sha256 lxmData ∈ r.locallyProcessed

theorem notBlacklisted_iff :
    NotBlacklisted c r lxmData stampData stampValue fromPeer isPaper e ↔
      ¬r.Fresh lxmData ∨ (c.ownPayload lxmData).isSome = true ∨ Storable c r stampData e := by
  unfold NotBlacklisted
  rcases lxmfPropagation_cases c r lxmData stampData stampValue fromPeer isPaper e with
    ⟨stale, unchanged, lost⟩ | ⟨fresh, marked, _, kept⟩
  · simp [stale, unchanged]
  · simp only [marked, fresh.2.2, imp_false, Bool.not_eq_false, kept, fresh, not_true_eq_false, false_or]

end

section
variable (c : PropagationConfig) (meets : Nat → Ingest) (i : Nat) (r : Router)

theorem ingest_cons (entry : PNStampEntry) (others : List PNStampEntry) :
    r.ingest c meets i (entry :: others) =
      (((r.receiveClient c entry (meets i)).1.ingest c meets (i + 1) others).1,
        (sha256 entry.lxmData, (r.receiveClient c entry (meets i)).2) ::
          ((r.receiveClient c entry (meets i)).1.ingest c meets (i + 1) others).2) := rfl

theorem ingest_append (first others : List PNStampEntry) :
    r.ingest c meets i (first ++ others) =
      (((r.ingest c meets i first).1.ingest c meets (i + first.length) others).1,
        (r.ingest c meets i first).2 ++ ((r.ingest c meets i first).1.ingest c meets (i + first.length) others).2) := by
  induction first generalizing r i with
  | nil => rfl
  | cons entry rest ih =>
    simp only [cons_append, ingest_cons, ih, length_cons, Nat.add_assoc, Nat.add_comm 1]

/-- What a batch leaves alone of a transient id that no message in it has. -/
theorem ingest_frame {entries : List PNStampEntry} {transientID : Bytes}
    (others : ∀ entry ∈ entries, sha256 entry.lxmData ≠ transientID) :
    (transientID ∈ (r.ingest c meets i entries).1.locallyProcessed ↔ transientID ∈ r.locallyProcessed) ∧
    ((r.ingest c meets i entries).1.holds transientID = true → r.holds transientID = true) ∧
    (r.ingest c meets i entries).1.store.isSome = r.store.isSome ∧
    ∀ outcome, (transientID, outcome) ∉ (r.ingest c meets i entries).2 := by
  induction entries generalizing r i with
  | nil => exact ⟨Iff.rfl, id, rfl, fun _ => not_mem_nil⟩
  | cons entry rest ih =>
    have different : transientID ≠ sha256 entry.lxmData := (others entry mem_cons_self).symm
    have frame := lxmfPropagation_frame c r entry.lxmData entry.stamp entry.value none false (meets i)
    have later := ih (i + 1) (r.receiveClient c entry (meets i)).1
      fun entry member => others entry (mem_cons_of_mem _ member)
    rw [ingest_cons]
    refine ⟨later.1.trans (frame.processed _ different), fun held => frame.holds _ different (later.2.1 held),
      later.2.2.1.trans frame.store, fun outcome logged => ?_⟩
    rcases mem_cons.1 logged with same | logged
    · exact different (Prod.ext_iff.1 same).1
    · exact later.2.2.2 outcome logged

theorem ingest_marked {entries : List PNStampEntry} {transientID : Bytes} {outcome : Ingested}
    (marked : transientID ∈ r.locallyProcessed) (logged : (transientID, outcome) ∈ (r.ingest c meets i entries).2) :
    outcome.kept = false := by
  induction entries generalizing r i with
  | nil => exact absurd logged not_mem_nil
  | cons entry rest ih =>
    rw [ingest_cons] at logged
    rcases mem_cons.1 logged with same | logged
    · have step := lxmfPropagation_cases c r entry.lxmData entry.stamp entry.value none false (meets i)
      rw [Prod.mk.injEq] at same
      rw [same.1] at marked
      rcases step with ⟨_, _, lost⟩ | ⟨fresh, _⟩
      · rw [same.2]
        exact lost
      · exact absurd marked fresh.2.2
    · exact ih (i + 1) (r.receiveClient c entry (meets i)).1 
        (mem_lxmfPropagation_processed c r _ _ _ _ _ _ marked) logged

/-- In a batch the first message of its transient id decides whether the id is kept. -/
theorem ingest_kept {first : List PNStampEntry} {entry : PNStampEntry} (rest : List PNStampEntry)
    (others : ∀ other ∈ first, sha256 other.lxmData ≠ sha256 entry.lxmData)
    (long : overhead ≤ entry.lxmData.length) (missing : r.holds (sha256 entry.lxmData) = false) :
    (∃ outcome, (sha256 entry.lxmData, outcome) ∈ (r.ingest c meets i (first ++ entry :: rest)).2 ∧
        outcome.kept = true) ↔
      sha256 entry.lxmData ∉ r.locallyProcessed ∧
        ((c.ownPayload entry.lxmData).isSome = true ∨ Storable c r entry.stamp (meets (i + first.length))) := by
  obtain ⟨processed, holds, stored, unlogged⟩ := ingest_frame c meets i r others
  rw [ingest_append, ingest_cons]
  generalize (r.ingest c meets i first).1 = turn at *
  have absent : turn.holds (sha256 entry.lxmData) = false := by
    by_contra held
    simp [holds (by simpa using held)] at missing
  have storable : Storable c turn entry.stamp (meets (i + first.length)) ↔
      Storable c r entry.stamp (meets (i + first.length)) := by
    rw [Storable, Storable, stored]
  have step := lxmfPropagation_cases c turn entry.lxmData entry.stamp entry.value none false (meets (i + first.length))
  have seen (stale : ¬turn.Fresh entry.lxmData) : sha256 entry.lxmData ∈ turn.locallyProcessed := by
    by_contra unseen
    exact stale ⟨long, absent, unseen⟩
  have marked : sha256 entry.lxmData ∈
      (turn.receiveClient c entry (meets (i + first.length))).1.locallyProcessed := by
    rcases step with ⟨stale, _⟩ | ⟨_, marked, _⟩
    · exact mem_lxmfPropagation_processed c turn _ _ _ _ _ _ (seen stale)
    · exact marked
  have decided : (turn.receiveClient c entry (meets (i + first.length))).2.kept = true ↔
      sha256 entry.lxmData ∉ r.locallyProcessed ∧
        ((c.ownPayload entry.lxmData).isSome = true ∨ Storable c r entry.stamp (meets (i + first.length))) := by
    rcases step with ⟨stale, _, lost⟩ | ⟨fresh, _, _, kept⟩
    · have before := processed.1 (seen stale)
      simp only [Router.receiveClient, lost, before, not_true_eq_false, false_and, Bool.false_eq_true]
    · have before : sha256 entry.lxmData ∉ r.locallyProcessed := fun seen => fresh.2.2 (processed.2 seen)
      simp only [Router.receiveClient, kept, storable, before, not_false_eq_true, true_and]
  rw [← decided]
  -- Before this message no outcome has its id, and behind it the id is marked.
  constructor
  · intro ⟨outcome, logged, kept⟩
    rcases mem_append.1 logged with early | logged
    · exact absurd early (unlogged outcome)
    rcases mem_cons.1 logged with own | late
    · rwa [← (Prod.ext_iff.1 own).2]
    · rw [ingest_marked c meets _ _ marked late] at kept
      contradiction
  · intro kept
    exact ⟨_, mem_append_right _ mem_cons_self, kept⟩

end

theorem validatePNStamp_some {targetCost : Int} {message : Bytes} {entry : PNStampEntry}
    (valid : validatePNStamp targetCost message = some entry) :
    entry.lxmData = transientPart message ∧ entry.stamp = stampPart message ∧ overhead ≤ entry.lxmData.length := by
  unfold validatePNStamp at valid
  split at valid
  · contradiction
  next long =>
    obtain ⟨workblock, -, found⟩ := Option.bind_eq_some_iff.1 valid
    split at found
    · rw [← Option.some.inj found]
      refine ⟨rfl, rfl, ?_⟩
      change 112 ≤ (transientPart message).length
      change ¬message.length ≤ 112 + 32 at long
      rw [transientPart, length_take]
      change 112 ≤ min (message.length - 32) message.length
      omega
    · exact absurd found.symm (Option.some_ne_none entry)

theorem validatePNStamp_free {targetCost : Int} {message : Bytes} (free : targetCost ≤ 0)
    (long : overhead + stampSize < message.length) : (validatePNStamp targetCost message).isSome = true := by
  have something : sha256 (transientPart message) ≠ [] := by
    apply ne_nil_of_length_pos
    rw [sha256_length]
    exact Nat.zero_lt_succ 31
  obtain ⟨workblock, expanded⟩ := Option.isSome_iff_exists.1
    (stampWorkblock_isSome (show workblockExpandRoundsPN ≠ 0 by decide) something)
  rw [validatePNStamp, if_neg (Nat.not_le.2 long)]
  simp only [expanded, Option.bind_some, stampValid, if_pos free, if_true, Option.isSome_some]

/-- A router whose store, if it has one, is sound. -/
def Router.Sound (r : Router) : Prop := ∀ store, r.store = some store → store.Sound

section
variable {c : PropagationConfig} {r : Router}

theorem Router.Sound.keep (sound : r.Sound) {stampData : Bytes} (stamped : stampData.length = stampSize)
    (lxmData : Bytes) (stampValue : Int) (fromPeer : Option Bytes) (e : Ingest) :
    (r.keep c lxmData stampValue stampData fromPeer e).1.Sound := by
  unfold Router.keep
  cases present : r.store with
  | none => exact sound
  | some store =>
  dsimp only
  split
  · exact sound
  split
  · exact sound
  have added := (sound store present).add lxmData stamped stampValue e.store
  rcases result : store.add lxmData stampData stampValue e.store with ⟨after, _ | entry⟩
  · rw [result] at added
    intro store same
    rwa [← Option.some.inj same]
  · rw [result] at added
    intro store same
    rwa [← Option.some.inj same]

theorem Router.Sound.lxmfPropagation (sound : r.Sound) {stampData : Bytes} (stamped : stampData.length = stampSize)
    (lxmData : Bytes) (stampValue : Int) (fromPeer : Option Bytes) (isPaper : Bool) (e : Ingest) :
    (r.lxmfPropagation c lxmData stampValue stampData fromPeer isPaper e).1.Sound := by
  unfold Router.lxmfPropagation
  split
  · exact sound
  split
  · exact sound
  split
  · exact sound
  dsimp only
  split
  · exact sound
  · have marked : Router.Sound
        { r with locallyProcessed := r.locallyProcessed.insert (sha256 lxmData) (clock e.now) } := sound
    exact marked.keep stamped lxmData stampValue fromPeer e

theorem Router.Sound.ingest (sound : r.Sound) {entries : List PNStampEntry}
    (stamped : ∀ entry ∈ entries, entry.stamp.length = stampSize) (meets : Nat → Ingest) (i : Nat) :
    (r.ingest c meets i entries).1.Sound := by
  induction entries generalizing r i with
  | nil => exact sound
  | cons entry others ih =>
    have next : (r.receiveClient c entry (meets i)).1.Sound :=
      sound.lxmfPropagation (stamped entry mem_cons_self) entry.lxmData entry.value none false (meets i)
    exact ih next (fun other member => stamped other (mem_cons_of_mem _ member)) (i + 1)

/-- Whatever packets arrive, the store stays sound. -/
theorem Router.Sound.handlePropagationPacket (sound : r.Sound) (data : Bytes) (linked provable : Bool)
    (meets : Nat → Ingest) : (r.handlePropagationPacket c data linked provable meets).router.Sound := by
  unfold Router.handlePropagationPacket
  cases packetMessages data with
  | none => exact sound
  | some raw =>
    have stamped : ∀ entry ∈ validatePNStamps raw c.minCost, entry.stamp.length = stampSize := by
      intro entry member
      obtain ⟨message, _, valid⟩ := mem_filterMap.1 member
      obtain ⟨body, stamp, long⟩ := validatePNStamp_some valid
      rw [body, transientPart, length_take] at long
      rw [stamp, stampPart, length_drop]
      change 112 ≤ min (message.length - 32) message.length at long
      change message.length - (message.length - 32) = 32
      omega
    have ingested := sound.ingest (c := c) stamped meets 0
    dsimp only
    split <;> exact ingested

end

section
variable (c : PropagationConfig) (r : Router) (data : Bytes) (linked provable : Bool) (meets : Nat → Ingest)

/-- A packet that gets its proof: it decodes, every stamp in it is valid, and the proof can be sent. -/
def Proved (raw : List Bytes) : Prop :=
  packetMessages data = some raw ∧ (∀ message ∈ raw, (validatePNStamp c.minCost message).isSome = true) ∧
    linked = true ∧ provable = true

/-- The message of this transient id was kept now, or was already held or delivered. -/
def Accounted (outcomes : List (Bytes × Ingested)) (transientID : Bytes) : Prop :=
  (∃ outcome, (transientID, outcome) ∈ outcomes ∧ outcome.kept = true) ∨
    r.holds transientID = true ∨ transientID ∈ r.inbox.locallyDelivered

/-- A proof is sent only if every message of the packet is accounted for. -/
def ProofSound : Prop :=
  (r.handlePropagationPacket c data linked provable meets).reply = .proof →
    ∀ raw, packetMessages data = some raw → ∀ message ∈ raw,
      Accounted r (r.handlePropagationPacket c data linked provable meets).outcomes (sha256 (transientPart message))

/-- What it takes for a message to be accounted for. -/
def Secured (message : Bytes) (e : Ingest) : Prop :=
  r.holds (sha256 (transientPart message)) = true ∨
  sha256 (transientPart message) ∈ r.inbox.locallyDelivered ∨
  (sha256 (transientPart message) ∉ r.locallyProcessed ∧
    ((c.ownPayload (transientPart message)).isSome = true ∨ Storable c r (stampPart message) e))

/-- The first message of each transient id in a packet is secured. -/
def EachSecured (raw : List Bytes) : Prop :=
  ∀ first message rest, raw = first ++ message :: rest →
    (∀ other ∈ first, sha256 (transientPart other) ≠ sha256 (transientPart message)) →
    Secured c r message (meets first.length)

variable {c data linked provable}

theorem handlePropagationPacket_proved {raw : List Bytes} (proved : Proved c data linked provable raw) :
    (r.handlePropagationPacket c data linked provable meets).outcomes =
      (r.ingest c meets 0 (validatePNStamps raw c.minCost)).2 ∧
    (r.handlePropagationPacket c data linked provable meets).reply = .proof := by
  obtain ⟨decoded, valid, rfl, rfl⟩ := proved
  have same : (validatePNStamps raw c.minCost).length = raw.length := filterMap_length_eq_length.2 valid
  rw [Router.handlePropagationPacket, decoded]
  dsimp only
  rw [if_pos same]
  exact ⟨rfl, rfl⟩

theorem proved_of_proof (proof : (r.handlePropagationPacket c data linked provable meets).reply = .proof) :
    ∃ raw, Proved c data linked provable raw := by
  unfold Router.handlePropagationPacket at proof
  cases decoded : packetMessages data with
  | none => simp [decoded] at proof
  | some raw =>
    simp only [decoded] at proof
    split at proof
    next same =>
      refine ⟨raw, decoded, filterMap_length_eq_length.1 same, ?_⟩
      cases linked <;> cases provable <;> simp at proof ⊢
    · cases linked <;> simp at proof

theorem accounted_iff {raw first rest : List Bytes} {message : Bytes} (proved : Proved c data linked provable raw)
    (split : raw = first ++ message :: rest)
    (others : ∀ other ∈ first, sha256 (transientPart other) ≠ sha256 (transientPart message)) :
    Accounted r (r.handlePropagationPacket c data linked provable meets).outcomes (sha256 (transientPart message)) ↔
      Secured c r message (meets first.length) := by
  rw [(handlePropagationPacket_proved r meets proved).1]
  subst split
  obtain ⟨entry, valid⟩ := Option.isSome_iff_exists.1 (proved.2.1 message (by simp))
  obtain ⟨body, stamp, long⟩ := validatePNStamp_some valid
  have batch : validatePNStamps (first ++ message :: rest) c.minCost =
      validatePNStamps first c.minCost ++ entry :: validatePNStamps rest c.minCost := by
    simp [validatePNStamps, valid]
  have length : (validatePNStamps first c.minCost).length = first.length :=
    filterMap_length_eq_length.2 fun other member => proved.2.1 other (by simp [member])
  by_cases held : r.holds (sha256 (transientPart message)) = true
  · simp [Accounted, Secured, held]
  have earlier : ∀ other ∈ validatePNStamps first c.minCost, sha256 other.lxmData ≠ sha256 entry.lxmData := by
    intro other member
    obtain ⟨source, among, found⟩ := mem_filterMap.1 member
    rw [(validatePNStamp_some found).1, body]
    exact others source among
  have kept := ingest_kept c meets 0 r (validatePNStamps rest c.minCost) earlier long
    (by rw [body]; simpa using held)
  rw [body, stamp, length, Nat.zero_add] at kept
  rw [batch, Accounted, Secured, kept]
  tauto

theorem proofSound_iff :
    ProofSound c r data linked provable meets ↔
      ∀ raw, Proved c data linked provable raw → EachSecured c r meets raw := by
  constructor
  · intro sound raw proved first message rest split others
    apply (accounted_iff r meets proved split others).1
    exact sound (handlePropagationPacket_proved r meets proved).2 raw proved.1 message (by simp [split])
  · intro secured proof raw decoded message member
    obtain ⟨decodedTo, proved⟩ := proved_of_proof r meets proof
    obtain rfl : decodedTo = raw := Option.some.inj (proved.1.symm.trans decoded)
    -- The first message with the same id decides for all of them.
    obtain ⟨leader, found⟩ : ∃ leader, decodedTo.find?
        (fun other => sha256 (transientPart other) = sha256 (transientPart message)) = some leader := by
      apply Option.isSome_iff_exists.1
      exact List.find?_isSome.2 ⟨message, member, by simp⟩
    obtain ⟨same, first, rest, split, others⟩ := List.find?_eq_some_iff_append.1 found
    have same : sha256 (transientPart leader) = sha256 (transientPart message) := by simpa using same
    rw [← same]
    apply (accounted_iff r meets proved split _).2
    · exact secured decodedTo proved first leader rest split (by simpa [same] using others)
    · simpa [same] using others

end

def openNode : PropagationConfig where
  delivery := { localHash := none, recallSource := fun _ => .ok none, parseFloat := fun _ => (Float64.ofInt 0, false) }
  decrypt := fun _ => none

def fullDisk : Ingest where
  now := 0
  order := MapOrder.listed
  visit := Visit.listed
  store := { received := Float64.ofInt 0, formatFloat := fun _ => [], wrote := false, now := 0, visit := Visit.listed }

def onePacket : Bytes := [0x92, 0x00, 0x91, 0xc4, 0x91] ++ replicate 145 0

theorem onePacket_messages : packetMessages onePacket = some [replicate 145 0] := by decide +kernel

theorem fullDisk_not_storable (r : Router) (stampData : Bytes) : ¬Storable openNode r stampData fullDisk := by
  intro ⟨_, _, _, wrote, _⟩
  exact Bool.false_ne_true wrote

end ReticulumProtocols.Lxmf
