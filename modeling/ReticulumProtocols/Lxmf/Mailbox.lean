import ReticulumProtocols.Lxmf.Fetch
import ReticulumProtocols.Lxmf.Store
import ReticulumProtocols.Wire.FloatProduct

/-! `messageGetRequestHandler`: a client lists, fetches and deletes the messages that a propagation node
keeps for it. Whatever the request says, the node touches the entries of that client only. -/

namespace ReticulumProtocols.Lxmf
open Wire Msgpack List

/-- What the handlers ask of a remote identity; computing a destination hash may fail. -/
structure RemoteIdentity where
  hash : Bytes
  deliveryHash : Option Bytes
  propagationHash : Option Bytes := none

structure MailboxConfig where
  authRequired : Bool := false
  allowedList : List Bytes := []
  parseFloat : Bytes → Float × Bool
  saturates : Bool := false

def MailboxConfig.identityAllowed (c : MailboxConfig) (id : RemoteIdentity) : Bool :=
  !c.authRequired || id.hash ∈ c.allowedList

structure Mailbox where
  store : MessageStore
  clientPropagationServed : Nat := 0

inductive GetResponse where
  | error (code : UInt8)
  | listing (transientIDs : List Bytes)
  | nothing
  | messages (bodies : List Bytes)
  deriving DecidableEq, Repr

def GetResponse.bodies : GetResponse → List Bytes
  | .messages bodies => bodies
  | _ => []

def decodeByteList : Value → List Bytes
  | .arr items => byteItems items
  | _ => []

namespace MessageStore
variable (ms : MessageStore) (deliveryHash : Bytes)

/-- Removal of an entry the client says it has, if it is one of its own. -/
def removeOwn (transientID : Bytes) : MessageStore :=
  match ms.get transientID with
  | none => ms
  | some entry => if entry.destinationHash ≠ deliveryHash then ms else ms.remove transientID

/-- The message under an id the client wants, if it is one of its own and can be read. -/
def readOwn (transientID : Bytes) (readable : Bool) : Option Bytes :=
  match ms.get transientID with
  | none => none
  | some entry => if entry.destinationHash ≠ deliveryHash then none else ms.readLXMData transientID readable

end MessageStore

def responseSize (lxm : Bytes) : Nat := lxm.length + stampSize + perMessageOverhead

/-- The loop over the wanted messages. The sum wraps as an int64 does; `limit` is absent when the client
sets none. -/
def collectWanted (read : Nat → Bytes → Option Bytes) (limit : Option Int) : Nat → Int → List Bytes → List Bytes
  | _, _, [] => []
  | i, cumulative, transientID :: others =>
    match read i transientID with
    | none => collectWanted read limit (i + 1) cumulative others
    | some lxm =>
      let next := Int.bmod (cumulative + responseSize lxm) (2 ^ 64)
      if ∃ limitBytes ∈ limit, limitBytes < next then collectWanted read limit (i + 1) cumulative others
      else lxm :: collectWanted read limit (i + 1) next others

/-- The limit in bytes that the third field of a request sets. -/
def MailboxConfig.limitBytes (c : MailboxConfig) : List Value → Option Int
  | limit :: _ =>
    match numericField c.parseFloat limit with
    | (transferLimitKB, true) => some (Float64.toInt64 c.saturates (transferLimitKB * Float64.ofInt 1000))
    | (_, false) => none
  | [] => none

def Mailbox.serve (c : MailboxConfig) (mailbox : Mailbox) (deliveryHash : Bytes) (wanted had : Value)
    (more : List Value) (readable : Nat → Bool) : Mailbox × GetResponse :=
  let wants := decodeByteList wanted
  let haves := decodeByteList had
  let store := haves.foldl (fun store transientID => store.removeOwn deliveryHash transientID) mailbox.store
  if wants = [] then ({ mailbox with store }, .nothing)
  else
    let read := fun i transientID => store.readOwn deliveryHash transientID (readable i)
    let response := collectWanted read (c.limitBytes more) 0 24 wants
    ({ store, clientPropagationServed := mailbox.clientPropagationServed + response.length }, .messages response)

/-- `messageGetRequestHandler`; `readable i` says whether the file of the wanted message `i` can be read. -/
def Mailbox.messageGetRequestHandler (c : MailboxConfig) (mailbox : Mailbox) (data : Bytes)
    (remoteIdentity : Option RemoteIdentity) (visit : Visit) (readable : Nat → Bool) : Mailbox × GetResponse :=
  match remoteIdentity with
  | none => (mailbox, .error peerErrorNoIdentity)
  | some id =>
    if c.identityAllowed id = false then (mailbox, .error peerErrorNoAccess)
    else
      match id.deliveryHash with
      | none => (mailbox, .error peerErrorInvalidData)
      | some deliveryHash =>
        match unmarshalSlice data with
        | .ok (.scalar .nil :: .scalar .nil :: _) =>
          (mailbox, .listing (mailbox.store.listForDestination deliveryHash visit))
        | .ok (wanted :: had :: more) => mailbox.serve c deliveryHash wanted had more readable
        | _ => (mailbox, .error peerErrorInvalidData)

/-- `after` is `before` without some of the entries for `deliveryHash`. -/
structure Trimmed (deliveryHash : Bytes) (before after : MessageStore) : Prop where
  entries : ∀ transientID, after.get transientID = before.get transientID ∨
    after.get transientID = none ∧
      ∃ entry, before.get transientID = some entry ∧ entry.destinationHash = deliveryHash
  files : ∀ path data, after.files.lookup path = some data → before.files.lookup path = some data
  sound : before.Sound → after.Sound ∧ ∀ transientID entry, after.get transientID = some entry →
    after.files.lookup entry.filePath = before.files.lookup entry.filePath

namespace Trimmed
variable {deliveryHash : Bytes} {before between after : MessageStore}

theorem refl (store : MessageStore) : Trimmed deliveryHash store store where
  entries _ := .inl rfl
  files _ _ found := found
  sound sound := ⟨sound, fun _ _ _ => rfl⟩

theorem get (trimmed : Trimmed deliveryHash before after) {transientID : Bytes} {entry : PropagationEntry}
    (found : after.get transientID = some entry) : before.get transientID = some entry := by
  rcases trimmed.entries transientID with same | ⟨gone, _⟩
  · rwa [← same]
  · rw [gone] at found
    contradiction

theorem trans (first : Trimmed deliveryHash before between) (second : Trimmed deliveryHash between after) :
    Trimmed deliveryHash before after where
  entries transientID := by
    rcases second.entries transientID with same | ⟨gone, entry, found, own⟩
    · rw [same]
      exact first.entries transientID
    · exact .inr ⟨gone, entry, first.get found, own⟩
  files path data found := first.files path data (second.files path data found)
  sound sound := by
    have middle := first.sound sound
    have last := second.sound middle.1
    refine ⟨last.1, fun transientID entry found => ?_⟩
    rw [last.2 transientID entry found, middle.2 transientID entry (second.get found)]

theorem removeOwn (store : MessageStore) (transientID : Bytes) :
    Trimmed deliveryHash store (store.removeOwn deliveryHash transientID) := by
  unfold MessageStore.removeOwn
  cases found : store.get transientID with
  | none => exact refl store
  | some entry =>
  dsimp only
  split
  · exact refl store
  next own =>
    refine ⟨fun other => ?_, fun path data => MessageStore.files_of_remove, fun sound => ?_⟩
    · rw [store.get_remove]
      by_cases same : other = transientID
      · rw [if_pos same, same]
        exact .inr ⟨rfl, entry, found, not_not.1 own⟩
      · rw [if_neg same]
        exact .inl rfl
    · refine ⟨sound.remove transientID, fun other kept still => ?_⟩
      have different : other ≠ transientID := by
        intro same
        rw [store.get_remove, if_pos same] at still
        contradiction
      have elsewhere : kept.filePath ≠ entry.filePath := by
        intro path
        apply different
        rw [← sound.named other kept (store.get_of_remove still), path, sound.named transientID entry found]
      simp only [MessageStore.remove, found]
      exact AList.lookup_erase_ne elsewhere

theorem removeHaves (haves : List Bytes) (store : MessageStore) :
    Trimmed deliveryHash store
      (haves.foldl (fun store transientID => store.removeOwn deliveryHash transientID) store) := by
  induction haves generalizing store with
  | nil => exact refl store
  | cons transientID others ih => exact (removeOwn store transientID).trans (ih _)

end Trimmed

theorem readOwn_some {store : MessageStore} {deliveryHash transientID body : Bytes} {readable : Bool}
    (read : store.readOwn deliveryHash transientID readable = some body) :
    ∃ entry data, store.get transientID = some entry ∧ entry.destinationHash = deliveryHash ∧
      store.files.lookup entry.filePath = some data ∧ body = withoutStamp data := by
  unfold MessageStore.readOwn at read
  cases found : store.get transientID with
  | none => simp [found] at read
  | some entry =>
  simp only [found] at read
  split at read
  · contradiction
  next own =>
    simp only [MessageStore.readLXMData, found, Option.bind_some] at read
    split at read
    · obtain ⟨data, content, cut⟩ := Option.map_eq_some_iff.1 read
      exact ⟨entry, data, rfl, not_not.1 own, content, cut.symm⟩
    · contradiction

section
variable {read : Nat → Bytes → Option Bytes} {limit : Option Int} {i : Nat} {cumulative : Int} {wants : List Bytes}

theorem mem_collectWanted {body : Bytes} (member : body ∈ collectWanted read limit i cumulative wants) :
    ∃ j transientID, transientID ∈ wants ∧ read j transientID = some body := by
  induction wants generalizing i cumulative with
  | nil => exact absurd member not_mem_nil
  | cons transientID others ih =>
    have later {i : Nat} {cumulative : Int} (member : body ∈ collectWanted read limit i cumulative others) :
        ∃ j other, other ∈ transientID :: others ∧ read j other = some body := by
      obtain ⟨j, other, among, found⟩ := ih member
      exact ⟨j, other, mem_cons_of_mem _ among, found⟩
    unfold collectWanted at member
    cases found : read i transientID with
    | none =>
      simp only [found] at member
      exact later member
    | some lxm =>
      simp only [found] at member
      split at member
      · exact later member
      · rcases mem_cons.1 member with same | member
        · exact ⟨i, transientID, mem_cons_self, by rw [found, same]⟩
        · exact later member

def totalSize (bodies : List Bytes) : Nat := (bodies.map responseSize).sum

variable (limit i cumulative wants) {bound : Nat}
  (sizes : ∀ j transientID lxm, read j transientID = some lxm → responseSize lxm ≤ bound)
include sizes

theorem totalSize_collectWanted :
    totalSize (collectWanted read limit i cumulative wants) ≤ wants.length * bound := by
  induction wants generalizing i cumulative with
  | nil => exact Nat.zero_le _
  | cons transientID others ih =>
    have more : others.length * bound + bound = (transientID :: others).length * bound := by
      rw [length_cons, Nat.add_mul, Nat.one_mul]
    unfold collectWanted
    cases found : read i transientID with
    | none => exact (ih _ _).trans (by omega)
    | some lxm =>
      dsimp only
      split
      · exact (ih _ _).trans (by omega)
      · have size := sizes i transientID lxm found
        have others := ih (i + 1) (Int.bmod (cumulative + responseSize lxm) (2 ^ 64))
        rw [totalSize, map_cons, sum_cons]
        rw [totalSize] at others
        omega

/-- As long as the sum does not wrap, a response with anything in it stays within the limit. -/
theorem collectWanted_limited (limitBytes : Int) (start : 0 ≤ cumulative)
    (sized : cumulative + (wants.length * bound : Nat) < 2 ^ 63) :
    collectWanted read (some limitBytes) i cumulative wants = [] ∨
      cumulative + totalSize (collectWanted read (some limitBytes) i cumulative wants) ≤ limitBytes := by
  induction wants generalizing i cumulative with
  | nil => exact .inl rfl
  | cons transientID others ih =>
    have more : others.length * bound + bound = (transientID :: others).length * bound := by
      rw [length_cons, Nat.add_mul, Nat.one_mul]
    unfold collectWanted
    cases found : read i transientID with
    | none => exact ih _ _ start (by omega)
    | some lxm =>
      have size := sizes i transientID lxm found
      have plain : Int.bmod (cumulative + responseSize lxm) (2 ^ 64) = cumulative + responseSize lxm :=
        Int.bmod_eq_of_le (by omega) (by omega)
      simp only [plain, Option.mem_some, exists_eq_left']
      split
      · exact ih _ _ start (by omega)
      next within =>
        rw [totalSize, map_cons, sum_cons, ← totalSize]
        right
        rcases ih (i + 1) (cumulative + responseSize lxm) (by omega) (by omega) with none | limited
        · rw [none, totalSize, map_nil, sum_nil]
          omega
        · omega

end

/-- The limit field stands for the integer `L`: it is this integer, or reads as the float nearest to it. -/
def CarriesLimit (c : MailboxConfig) (L : Int) : Value → Prop
  | .scalar (.int n) => n.val = L
  | limit => numericField c.parseFloat limit = (Float64.ofInt L, true)

/-- An integer limit is taken over exactly, unless it is not positive or is larger than any response. -/
theorem limitBytes_cases {c : MailboxConfig} {L : Int} {limit : Value} (carries : CarriesLimit c L limit)
    (more : List Value) :
    2 ^ 53 ≤ 1000 * L ∨
      ∃ limitBytes, c.limitBytes (limit :: more) = some limitBytes ∧ (limitBytes ≤ 0 ∨ limitBytes = 1000 * L) := by
  by_cases large : 2 ^ 53 ≤ 1000 * L
  · exact .inl large
  right
  have parsed : numericField c.parseFloat limit = (Float64.ofInt L, true) := by
    unfold CarriesLimit at carries
    split at carries
    next n =>
      have fits : n.val < 2 ^ 63 := by omega
      rw [← carries]
      simp only [numericField, asInt64, if_pos fits]
    · exact carries
  simp only [MailboxConfig.limitBytes, parsed]
  refine ⟨_, rfl, ?_⟩
  by_cases positive : 0 < L
  · right
    have natural : L = (L.toNat : Int) := by omega
    rw [natural]
    have exact := Float64.toInt64_mul_ofInt c.saturates (a := L.toNat) (b := 1000) (by omega) (by decide) (by omega)
    rw [show (1000 : Int) = ((1000 : Nat) : Int) from rfl, exact]
    omega
  · left
    exact Float64.toInt64_mul_nonpositive c.saturates (b := 1000) (by omega) (by decide) (by decide)

/-- What a client gets to see and to change of the store of a propagation node. -/
structure Confined (c : MailboxConfig) (store : MessageStore) (data deliveryHash : Bytes) (after : MessageStore)
    (response : GetResponse) : Prop where
  bodies : ∀ body ∈ response.bodies, ∃ transientID entry, store.get transientID = some entry ∧
    entry.destinationHash = deliveryHash ∧ store.readLXMData transientID true = some body
  addressed : store.Sound → ∀ body ∈ response.bodies, body.take destinationLength = deliveryHash
  deleted : ∀ transientID entry, store.get transientID = some entry →
    after.get transientID = some entry ∨ after.get transientID = none ∧ entry.destinationHash = deliveryHash
  added : ∀ transientID, store.get transientID = none → after.get transientID = none
  contents : store.Sound → ∀ transientID entry, after.get transientID = some entry →
    after.files.lookup entry.filePath = store.files.lookup entry.filePath
  listing : ∀ more, unmarshalSlice data = .ok (.nil :: .nil :: more) →
    ∃ transientIDs, response = .listing transientIDs ∧ transientIDs.Nodup ∧ ∀ transientID,
      transientID ∈ transientIDs ↔
        ∃ entry, store.get transientID = some entry ∧ entry.destinationHash = deliveryHash
  limited : ∀ wanted had limit more L fileSize, unmarshalSlice data = .ok (wanted :: had :: limit :: more) →
    CarriesLimit c L limit → (∀ path content, store.files.lookup path = some content → content.length ≤ fileSize) →
    24 + (decodeByteList wanted).length * (fileSize + 48) ≤ 2 ^ 53 → response.bodies ≠ [] →
    24 + (totalSize response.bodies : Int) ≤ 1000 * L

section
variable {c : MailboxConfig} {mailbox : Mailbox} {data deliveryHash : Bytes} {wanted had : Value} {more : List Value}
  {visit : Visit} {readable : Nat → Bool}

def Mailbox.afterHaves (mailbox : Mailbox) (deliveryHash : Bytes) (had : Value) : MessageStore :=
  (decodeByteList had).foldl (fun store transientID => store.removeOwn deliveryHash transientID) mailbox.store

theorem serve_store :
    (mailbox.serve c deliveryHash wanted had more readable).1.store = mailbox.afterHaves deliveryHash had := by
  unfold Mailbox.serve
  dsimp only
  split <;> rfl

theorem serve_bodies :
    (mailbox.serve c deliveryHash wanted had more readable).2.bodies =
      collectWanted (fun i transientID =>
        (mailbox.afterHaves deliveryHash had).readOwn deliveryHash transientID (readable i))
        (c.limitBytes more) 0 24 (decodeByteList wanted) := by
  unfold Mailbox.serve
  dsimp only
  split
  next none =>
    rw [none]
    rfl
  · rfl

/-- A message that is served is an own one, and was in the store before the deletions. -/
theorem served_own {transientID body : Bytes} {readable : Bool}
    (read : (mailbox.afterHaves deliveryHash had).readOwn deliveryHash transientID readable = some body) :
    ∃ entry content, mailbox.store.get transientID = some entry ∧ entry.destinationHash = deliveryHash ∧
      mailbox.store.files.lookup entry.filePath = some content ∧ body = withoutStamp content := by
  have trimmed : Trimmed deliveryHash mailbox.store (mailbox.afterHaves deliveryHash had) :=
    Trimmed.removeHaves _ _
  obtain ⟨entry, content, found, own, stored, cut⟩ := readOwn_some read
  exact ⟨entry, content, trimmed.get found, own, trimmed.files _ _ stored, cut⟩

theorem withoutStamp_length (content : Bytes) : (withoutStamp content).length ≤ content.length := by
  unfold withoutStamp
  split
  · exact length_take_le' _ _
  · exact le_refl _

theorem serve_confined (decoded : unmarshalSlice data = .ok (wanted :: had :: more))
    (get : ¬(wanted = .nil ∧ had = .nil)) :
    Confined c mailbox.store data deliveryHash (mailbox.serve c deliveryHash wanted had more readable).1.store
      (mailbox.serve c deliveryHash wanted had more readable).2 := by
  have trimmed : Trimmed deliveryHash mailbox.store (mailbox.afterHaves deliveryHash had) :=
    Trimmed.removeHaves _ _
  rw [serve_store]
  constructor
  case bodies =>
    intro body member
    rw [serve_bodies] at member
    obtain ⟨j, transientID, _, read⟩ := mem_collectWanted member
    obtain ⟨entry, content, found, own, stored, cut⟩ := served_own read
    refine ⟨transientID, entry, found, own, ?_⟩
    simp only [MessageStore.readLXMData, found, Option.bind_some, if_true, stored, Option.map_some, cut]
  case addressed =>
    intro sound body member
    rw [serve_bodies] at member
    obtain ⟨j, transientID, _, read⟩ := mem_collectWanted member
    obtain ⟨entry, content, found, own, stored, cut⟩ := served_own read
    rw [cut, ← own]
    exact sound.addressed transientID entry content found stored
  case deleted =>
    intro transientID entry found
    rcases trimmed.entries transientID with same | ⟨gone, other, before, own⟩
    · exact .inl (same.trans found)
    · rw [found] at before
      rw [← Option.some.inj before] at own
      exact .inr ⟨gone, own⟩
  case added =>
    intro transientID missing
    rcases trimmed.entries transientID with same | ⟨gone, _⟩
    · exact same.trans missing
    · exact gone
  case contents => exact fun sound => (trimmed.sound sound).2
  case listing =>
    intro others listed
    rw [decoded] at listed
    injection listed with same
    injection same with first same
    injection same with second _
    exact absurd ⟨first, second⟩ get
  case limited =>
    intro wanted' had' limit others L fileSize request carries files sized nonempty
    rw [decoded] at request
    injection request with same
    injection same with first same
    injection same with _ third
    subst first third
    rw [serve_bodies] at nonempty ⊢
    have sizes : ∀ j transientID lxm,
        (mailbox.afterHaves deliveryHash had).readOwn deliveryHash transientID (readable j) = some lxm →
          responseSize lxm ≤ fileSize + 48 := by
      intro j transientID lxm read
      obtain ⟨entry, content, _, _, stored, cut⟩ := served_own read
      have short := (withoutStamp_length content).trans (files _ _ stored)
      rw [cut, responseSize, Nat.add_assoc]
      exact Nat.add_le_add_right short 48
    rcases limitBytes_cases carries others with large | ⟨limitBytes, set, exact⟩
    · have total := totalSize_collectWanted (c.limitBytes (limit :: others)) 0 24 (decodeByteList wanted) sizes
      omega
    · rw [set] at nonempty ⊢
      have within := collectWanted_limited 0 24 (decodeByteList wanted) sizes limitBytes (by decide) (by omega)
      have limited := within.resolve_left nonempty
      omega

end

theorem Confined.of_unchanged {c : MailboxConfig} {store : MessageStore} {data deliveryHash : Bytes}
    {response : GetResponse} (bare : response.bodies = [])
    (listing : ∀ more, unmarshalSlice data = .ok (.nil :: .nil :: more) →
      ∃ visit, response = .listing (store.listForDestination deliveryHash visit)) :
    Confined c store data deliveryHash store response where
  bodies body member := by simp [bare] at member
  addressed _ body member := by simp [bare] at member
  deleted _ _ found := .inl found
  added _ missing := missing
  contents _ _ _ _ := rfl
  listing more listed := by
    obtain ⟨visit, same⟩ := listing more listed
    exact ⟨_, same, store.nodup_listForDestination deliveryHash visit, fun _ => store.mem_listForDestination⟩
  limited _ _ _ _ _ _ _ _ _ _ nonempty := absurd bare nonempty

/-- An identified and allowed client sees and deletes nothing but its own messages. -/
theorem messageGetRequestHandler_confined (c : MailboxConfig) (mailbox : Mailbox) (data : Bytes)
    (id : RemoteIdentity) (deliveryHash : Bytes) (visit : Visit) (readable : Nat → Bool)
    (allowed : c.identityAllowed id = true) (identified : id.deliveryHash = some deliveryHash) :
    Confined c mailbox.store data deliveryHash
      (mailbox.messageGetRequestHandler c data (some id) visit readable).1.store
      (mailbox.messageGetRequestHandler c data (some id) visit readable).2 := by
  simp only [Mailbox.messageGetRequestHandler, allowed, identified, Bool.true_eq_false, if_false]
  split
  · exact Confined.of_unchanged rfl fun _ _ => ⟨visit, rfl⟩
  next wanted had more get decoded =>
    exact serve_confined decoded fun both => get both.1 both.2
  next invalid =>
    exact Confined.of_unchanged rfl fun more listed => absurd listed (invalid _ _ _)

def ownHash : Bytes := replicate 16 0xd0

/-- A store with a message for `ownHash` under the id 1 and one for somebody else under the id 2. -/
def sharedStore : MessageStore :=
  let entry := fun (transientID : UInt8) destinationHash =>
    { destinationHash, filePath := ⟨[transientID], [], 0⟩, receivedAt := Float64.ofInt 0, size := 48, stampValue := 0 }
  let other := replicate 16 0xe0
  { entries := ((∅ : GoMap Bytes PropagationEntry).insert [1] (entry 1 ownHash)).insert [2] (entry 2 other)
    files := ((∅ : GoMap FilePath Bytes).insert ⟨[1], [], 0⟩ (ownHash ++ replicate 32 0)).insert ⟨[2], [], 0⟩
      (other ++ replicate 32 0) }

def openMailbox : MailboxConfig := { parseFloat := fun _ => (Float64.ofInt 0, false) }

/-- Both messages are wanted, the other one is to be deleted, and the limit is 1 KB. -/
def greedyRequest : Bytes := [0x93, 0x92, 0xc4, 0x01, 0x01, 0xc4, 0x01, 0x02, 0x91, 0xc4, 0x01, 0x02, 0x01]

/-- The handler at work on it: the own message is served and the other one stays. -/
theorem greedyRequest_confined :
    (Mailbox.messageGetRequestHandler openMailbox ⟨sharedStore, 0⟩ greedyRequest (some ⟨[], some ownHash, none⟩)
      .listed fun _ => true).2 = .messages [ownHash] ∧
    Confined openMailbox sharedStore greedyRequest ownHash
      (Mailbox.messageGetRequestHandler openMailbox ⟨sharedStore, 0⟩ greedyRequest (some ⟨[], some ownHash, none⟩)
        .listed fun _ => true).1.store
      (Mailbox.messageGetRequestHandler openMailbox ⟨sharedStore, 0⟩ greedyRequest (some ⟨[], some ownHash, none⟩)
        .listed fun _ => true).2 :=
  ⟨by decide +kernel, messageGetRequestHandler_confined openMailbox ⟨sharedStore, 0⟩ greedyRequest
    ⟨[], some ownHash, none⟩ ownHash .listed (fun _ => true) (by decide) rfl⟩

end ReticulumProtocols.Lxmf
