import ReticulumProtocols.Lxmf.Messenger

/-! The message store of a propagation node: an index of entries by transient id, and the directory of
files it points into. A file holds the message with its stamp behind it. -/

namespace ReticulumProtocols.Lxmf
open Wire Msgpack Sha256 List AList

/-- The three parts of a file name; the time stands as formatted. -/
structure FilePath where
  transientID : Bytes
  receivedAt : Bytes
  stampValue : Int
  deriving DecidableEq, Repr

/-- `PropagationEntry`; peers are known by their destination hash. -/
structure PropagationEntry where
  destinationHash : Bytes
  filePath : FilePath
  receivedAt : Float
  size : Nat
  handledPeers : List Bytes := []
  unhandledPeers : List Bytes := []
  stampValue : Int

structure MessageStore where
  entries : GoMap Bytes PropagationEntry := ∅
  files : GoMap FilePath Bytes := ∅
  limitBytes : Int := 0
  prioritisedDest : List Bytes := []

/-- What one `Add` meets: the time and its formatting, whether the file can be written and renamed, and
what the enforcement of the limit depends on. -/
structure StoreWrite where
  received : Float
  formatFloat : Float → Bytes
  wrote : Bool := true
  renamed : Bool := true
  now : Int
  saturates : Bool := false
  visit : Visit

inductive StoreError where
  | tooShort
  | write
  | rename
  deriving DecidableEq, Repr

/-- What a message adds to the size of a transfer besides its bytes. -/
def perMessageOverhead : Nat := 16

def withoutStamp (data : Bytes) : Bytes :=
  if stampSize < data.length then data.take (data.length - stampSize) else data

namespace MessageStore
variable (ms : MessageStore)
variable {entry : PropagationEntry}

def get (transientID : Bytes) : Option PropagationEntry := ms.entries.lookup transientID

def remove (transientID : Bytes) : MessageStore :=
  match ms.get transientID with
  | none => ms
  | some entry => { ms with entries := ms.entries.erase transientID, files := ms.files.erase entry.filePath }

/-- `ReadLXMData`; `readable` says whether the file system lets us read the file. -/
def readLXMData (transientID : Bytes) (readable : Bool) : Option Bytes :=
  (ms.get transientID).bind fun entry =>
    if readable then (ms.files.lookup entry.filePath).map withoutStamp else none

/-- `ListForDestination`: by size, in some order where sizes are equal. -/
def listForDestination (destinationHash : Bytes) (visit : Visit) : List Bytes :=
  (((visit.run ms.entries.entries).filter fun entry => entry.2.destinationHash = destinationHash).insertionSort
    fun entry other => entry.2.size ≤ other.2.size).map Sigma.fst

def weight (now : Int) (saturates : Bool) (entry : PropagationEntry) : Float :=
  let age := Float64.ofInt (now - Float64.toInt64 saturates entry.receivedAt) / Float64.ofInt (4 * 24 * 60 * 60)
  let ageWeight := if age > Float64.ofInt 1 then age else Float64.ofInt 1
  let priority := if entry.destinationHash ∈ ms.prioritisedDest then 0.1 else Float64.ofInt 1
  priority * ageWeight * Float64.ofInt entry.size

/-- Removal in the given order until enough bytes are gone. -/
def cull (needed : Int) : List (Sigma fun _ : Bytes => PropagationEntry) → MessageStore → Int → MessageStore
  | [], ms, _ => ms
  | entry :: others, ms, cleaned =>
    if cleaned ≥ needed then ms else cull needed others (ms.remove entry.1) (cleaned + entry.2.size)

def totalBytes : Nat := (ms.entries.entries.map fun entry => entry.2.size).sum

/-- `enforceLimitLocked`: the heaviest entries go first, in some order where weights are equal. -/
def enforceLimitLocked (now : Int) (saturates : Bool) (visit : Visit) : MessageStore :=
  if ms.limitBytes ≤ 0 ∨ ms.totalBytes ≤ ms.limitBytes then ms
  else
    let heaviestFirst := (visit.run ms.entries.entries).insertionSort fun entry other =>
      ms.weight now saturates entry.2 ≥ ms.weight now saturates other.2
    cull (ms.totalBytes - ms.limitBytes) heaviestFirst ms 0

def cleanToLimit (now : Int) (saturates : Bool) (visit : Visit) : MessageStore :=
  ms.enforceLimitLocked now saturates visit

def purgeStep (destinationHash : Bytes) (purged : MessageStore × Nat) (transientID : Bytes) : MessageStore × Nat :=
  match purged.1.get transientID with
  | none => purged
  | some entry =>
    if entry.destinationHash ≠ destinationHash then purged
    else (purged.1.remove transientID, purged.2 + 1)

/-- `Purge`, with the number of entries it removed. -/
def purge (transientIDs : List Bytes) (destinationHash : Bytes) : MessageStore × Nat :=
  transientIDs.foldl (purgeStep destinationHash) (ms, 0)

/-- An entry is too old; the sum is one of int64 values. -/
def expired (now : Int) (saturates : Bool) (entry : PropagationEntry) : Bool :=
  IntKind.int64.wrap (Float64.toInt64 saturates entry.receivedAt + messageExpirySeconds) < now

/-- `CleanExpired`, with the number of entries it removed. -/
def cleanExpired (now : Int) (saturates : Bool) (visit : Visit) : MessageStore × Nat :=
  let old := (visit.run ms.entries.entries).filter fun entry => expired now saturates entry.2
  (old.foldl (fun store entry => store.remove entry.1) ms, old.length)

def newEntry (lxmData stampData : Bytes) (stampValue : Int) (w : StoreWrite) : PropagationEntry where
  destinationHash := lxmData.take destinationLength
  filePath := ⟨sha256 lxmData, w.formatFloat w.received, stampValue⟩
  receivedAt := w.received
  size := (lxmData ++ stampData).length
  stampValue := stampValue

def put (lxmData stampData : Bytes) (stampValue : Int) (w : StoreWrite) : MessageStore :=
  let entry := newEntry lxmData stampData stampValue w
  { ms with
    entries := ms.entries.insert (sha256 lxmData) entry
    files := ms.files.insert entry.filePath (lxmData ++ stampData) }

def add (lxmData stampData : Bytes) (stampValue : Int) (w : StoreWrite) :
    MessageStore × Except StoreError PropagationEntry :=
  if lxmData.length < destinationLength then (ms, .error .tooShort)
  else
    match ms.get (sha256 lxmData) with
    | some entry => (ms, .ok entry)
    | none =>
      if w.wrote = false then (ms, .error .write)
      else if w.renamed = false then (ms, .error .rename)
      else
        ((ms.put lxmData stampData stampValue w).enforceLimitLocked w.now w.saturates w.visit,
          .ok (newEntry lxmData stampData stampValue w))

def modify (transientID : Bytes) (change : PropagationEntry → PropagationEntry) : MessageStore :=
  match ms.get transientID with
  | none => ms
  | some entry => { ms with entries := ms.entries.insert transientID (change entry) }

def addUnhandledPeer (transientID peer : Bytes) : MessageStore :=
  ms.modify transientID fun entry =>
    if peer ∈ entry.handledPeers ∨ peer ∈ entry.unhandledPeers then entry
    else { entry with unhandledPeers := entry.unhandledPeers ++ [peer] }

def removeUnhandledPeer (transientID peer : Bytes) : MessageStore :=
  ms.modify transientID fun entry => { entry with unhandledPeers := entry.unhandledPeers.erase peer }

def markHandled (transientID peer : Bytes) : MessageStore :=
  ms.modify transientID fun entry =>
    { entry with
      unhandledPeers := entry.unhandledPeers.erase peer
      handledPeers := if peer ∈ entry.handledPeers then entry.handledPeers else entry.handledPeers ++ [peer] }

/-- The file of an entry as it is, with its stamp. -/
def readEntry (transientID : Bytes) (readable : Bool) : Option Bytes :=
  (ms.get transientID).bind fun entry => if readable then ms.files.lookup entry.filePath else none

def handledFor (peer transientID : Bytes) : Prop :=
  ∃ entry, ms.get transientID = some entry ∧ peer ∈ entry.handledPeers

def unhandledFor (peer transientID : Bytes) : Prop :=
  ∃ entry, ms.get transientID = some entry ∧ peer ∈ entry.unhandledPeers

theorem get_remove (transientID other : Bytes) :
    (ms.remove transientID).get other = if other = transientID then none else ms.get other := by
  unfold remove
  cases found : ms.get transientID with
  | none =>
    by_cases same : other = transientID
    · rw [if_pos same, same, found]
    · rw [if_neg same]
  | some entry =>
    by_cases same : other = transientID
    · rw [if_pos same, same]
      exact lookup_erase ..
    · rw [if_neg same]
      exact lookup_erase_ne same

theorem get_of_remove {transientID other : Bytes}
    (found : (ms.remove transientID).get other = some entry) : ms.get other = some entry := by
  rw [get_remove] at found
  split at found
  · contradiction
  · exact found

theorem get_put (lxmData stampData other : Bytes) (stampValue : Int) (w : StoreWrite) :
    (ms.put lxmData stampData stampValue w).get other =
      if other = sha256 lxmData then some (newEntry lxmData stampData stampValue w) else ms.get other := by
  by_cases same : other = sha256 lxmData
  · rw [if_pos same, same]
    exact lookup_insert _
  · rw [if_neg same]
    exact lookup_insert_ne same

theorem mem_listForDestination {destinationHash transientID : Bytes} {visit : Visit} :
    transientID ∈ ms.listForDestination destinationHash visit ↔
      ∃ entry, ms.get transientID = some entry ∧ entry.destinationHash = destinationHash := by
  have visited (entry : Sigma fun _ : Bytes => PropagationEntry) :
      entry ∈ visit.run ms.entries.entries ↔ ms.get entry.1 = some entry.2 := by
    rw [(visit.perm ms.entries.entries).mem_iff, get, ← Option.mem_def, mem_lookup_iff]
  simp only [listForDestination, mem_map, mem_insertionSort, mem_filter, visited,
    decide_eq_true_eq]
  constructor
  · intro ⟨entry, ⟨found, own⟩, same⟩
    rw [← same]
    exact ⟨entry.2, found, own⟩
  · intro ⟨entry, found, own⟩
    exact ⟨⟨transientID, entry⟩, ⟨found, own⟩, rfl⟩

theorem nodup_listForDestination (destinationHash : Bytes) (visit : Visit) :
    (ms.listForDestination destinationHash visit).Nodup := by
  have keys : ((visit.run ms.entries.entries).map Sigma.fst).Nodup :=
    ((visit.perm ms.entries.entries).map Sigma.fst).nodup_iff.2 ms.entries.nodupKeys
  have kept : (((visit.run ms.entries.entries).filter fun entry =>
      entry.2.destinationHash = destinationHash).map Sigma.fst).Nodup :=
    keys.sublist (List.filter_sublist.map Sigma.fst)
  exact ((perm_insertionSort _ _).map Sigma.fst).nodup_iff.2 kept

theorem get_modify (transientID other : Bytes) (change : PropagationEntry → PropagationEntry) :
    (ms.modify transientID change).get other =
      if other = transientID then (ms.get transientID).map change else ms.get other := by
  unfold modify
  cases found : ms.get transientID with
  | none =>
    by_cases same : other = transientID
    · rw [if_pos same, same, found]
      rfl
    · rw [if_neg same]
  | some entry =>
    by_cases same : other = transientID
    · rw [if_pos same, same]
      exact lookup_insert _
    · rw [if_neg same]
      exact lookup_insert_ne same

theorem isSome_get_modify (transientID other : Bytes) (change : PropagationEntry → PropagationEntry) :
    ((ms.modify transientID change).get other).isSome = (ms.get other).isSome := by
  rw [get_modify]
  by_cases same : other = transientID
  · rw [if_pos same, Option.isSome_map, same]
  · rw [if_neg same]

section
variable {ms} {peer : Bytes} {change : PropagationEntry → PropagationEntry}

theorem handledFor_modify (keeps : ∀ entry, peer ∈ (change entry).handledPeers ↔ peer ∈ entry.handledPeers)
    (transientID other : Bytes) :
    (ms.modify transientID change).handledFor peer other ↔ ms.handledFor peer other := by
  unfold handledFor
  rw [get_modify]
  by_cases same : other = transientID
  · simp [same, keeps]
  · rw [if_neg same]

end

theorem handledFor_removeUnhandledPeer (transientID peer other : Bytes) :
    (ms.removeUnhandledPeer transientID peer).handledFor peer other ↔ ms.handledFor peer other := by
  apply handledFor_modify
  exact fun _ => Iff.rfl

theorem handledFor_markHandled (transientID peer other : Bytes) :
    (ms.markHandled transientID peer).handledFor peer other ↔
      ms.handledFor peer other ∨ other = transientID ∧ (ms.get other).isSome = true := by
  unfold handledFor markHandled
  rw [get_modify]
  by_cases same : other = transientID
  · rw [if_pos same, same]
    cases found : ms.get transientID with
    | none => simp
    | some entry =>
      by_cases known : peer ∈ entry.handledPeers
      · simp [known]
      · simp [known]
  · simp [same]

section
variable {peer peer' : Bytes} (different : peer' ≠ peer) (transientID other : Bytes)
include different

/-! What is done for one peer leaves the others alone. -/

end

theorem readEntry_markHandled (transientID peer other : Bytes) (readable : Bool) :
    (ms.markHandled transientID peer).readEntry other readable = ms.readEntry other readable := by
  have files : (ms.markHandled transientID peer).files = ms.files := by
    unfold markHandled modify
    split <;> rfl
  unfold readEntry
  rw [files, markHandled, get_modify]
  by_cases same : other = transientID
  · rw [if_pos same, same]
    cases ms.get transientID <;> rfl
  · rw [if_neg same]

theorem handledFor_markAll (ids : List Bytes) (peer other : Bytes) :
    (ids.foldl (fun store transientID => store.markHandled transientID peer) ms).handledFor peer other ↔
      ms.handledFor peer other ∨ other ∈ ids ∧ (ms.get other).isSome = true := by
  induction ids generalizing ms with
  | nil => simp
  | cons first rest ih =>
    have present : ((ms.markHandled first peer).get other).isSome = (ms.get other).isSome :=
      ms.isSome_get_modify _ _ _
    rw [foldl_cons, ih, handledFor_markHandled, present, mem_cons]
    tauto

variable {ms}

theorem get_of_cull {needed cleaned : Int} {order : List (Sigma fun _ : Bytes => PropagationEntry)} {other : Bytes}
    (found : (cull needed order ms cleaned).get other = some entry) :
    ms.get other = some entry := by
  induction order generalizing ms cleaned with
  | nil => exact found
  | cons first others ih =>
    rw [cull] at found
    split at found
    · exact found
    · exact ms.get_of_remove (ih found)

theorem get_of_enforceLimitLocked {now : Int} {saturates : Bool} {visit : Visit} {other : Bytes}
    (found : (ms.enforceLimitLocked now saturates visit).get other = some entry) :
    ms.get other = some entry := by
  rw [enforceLimitLocked] at found
  split at found
  · exact found
  · exact get_of_cull found

/-- `Add` brings in no entry but the one of its message. -/
theorem get_add_cases {lxmData stampData other : Bytes} {stampValue : Int} {w : StoreWrite}
    (found : (ms.add lxmData stampData stampValue w).1.get other = some entry) :
    ms.get other = some entry ∨ other = sha256 lxmData ∧ entry = newEntry lxmData stampData stampValue w := by
  unfold add at found
  split at found
  · exact .inl found
  split at found
  · exact .inl found
  split at found
  · exact .inl found
  split at found
  · exact .inl found
  · have put := get_of_enforceLimitLocked found
    rw [get_put] at put
    split at put
    next own => exact .inr ⟨own, (Option.some.inj put).symm⟩
    · exact .inl put

theorem get_of_add {lxmData stampData other : Bytes} {stampValue : Int} {w : StoreWrite}
    (found : (ms.add lxmData stampData stampValue w).1.get other = some entry) (different : other ≠ sha256 lxmData) :
    ms.get other = some entry :=
  (get_add_cases found).resolve_right fun new => different new.1

theorem add_isOk {lxmData : Bytes} (stampData : Bytes) (stampValue : Int) (w : StoreWrite)
    (long : destinationLength ≤ lxmData.length) (missing : ms.get (sha256 lxmData) = none) :
    (∃ entry, (ms.add lxmData stampData stampValue w).2 = .ok entry) ↔ w.wrote = true ∧ w.renamed = true := by
  rw [add, if_neg (Nat.not_lt.2 long), missing]
  cases w.wrote <;> cases w.renamed <;> simp

/-- Index and directory belong together: an entry's file carries its id in its name, and the message in the
file starts with the entry's destination. -/
structure Sound (ms : MessageStore) : Prop where
  named : ∀ transientID entry, ms.get transientID = some entry → entry.filePath.transientID = transientID
  addressed : ∀ transientID entry data, ms.get transientID = some entry → ms.files.lookup entry.filePath = some data →
    (withoutStamp data).take destinationLength = entry.destinationHash

theorem lookup_of_erase {K V : Type} [DecidableEq K] {map : GoMap K V} {key other : K} {value : V}
    (found : (map.erase key).lookup other = some value) : map.lookup other = some value := by
  by_cases same : other = key
  · rw [same, lookup_erase] at found
    contradiction
  · rwa [lookup_erase_ne same] at found

theorem files_of_remove {transientID : Bytes} {path : FilePath} {data : Bytes}
    (found : (ms.remove transientID).files.lookup path = some data) : ms.files.lookup path = some data := by
  unfold remove at found
  split at found
  · exact found
  · exact lookup_of_erase found

theorem Sound.remove (sound : ms.Sound) (transientID : Bytes) : (ms.remove transientID).Sound where
  named _ _ found := sound.named _ _ (ms.get_of_remove found)
  addressed _ _ _ found content := sound.addressed _ _ _ (ms.get_of_remove found) (files_of_remove content)

theorem Sound.enforceLimitLocked (sound : ms.Sound) (now : Int) (saturates : Bool) (visit : Visit) :
    (ms.enforceLimitLocked now saturates visit).Sound := by
  have culled (needed cleaned : Int) (order : List (Sigma fun _ : Bytes => PropagationEntry)) :
      ∀ ms : MessageStore, ms.Sound → (cull needed order ms cleaned).Sound := by
    induction order generalizing cleaned with
    | nil => exact fun _ sound => sound
    | cons first others ih =>
      intro ms sound
      rw [cull]
      split
      · exact sound
      · exact ih _ _ (sound.remove first.1)
  unfold MessageStore.enforceLimitLocked
  split
  · exact sound
  · exact culled _ _ _ ms sound

theorem withoutStamp_append {lxmData stampData : Bytes} (long : destinationLength ≤ lxmData.length)
    (stamped : stampData.length = stampSize) : withoutStamp (lxmData ++ stampData) = lxmData := by
  have total : (lxmData ++ stampData).length = lxmData.length + stampSize := by rw [length_append, stamped]
  have longer : stampSize < (lxmData ++ stampData).length := by
    change 16 ≤ lxmData.length at long
    omega
  rw [withoutStamp, if_pos longer, total, Nat.add_sub_cancel, take_left]

theorem Sound.put (sound : ms.Sound) {lxmData stampData : Bytes} (long : destinationLength ≤ lxmData.length)
    (stamped : stampData.length = stampSize) (stampValue : Int) (w : StoreWrite) :
    (ms.put lxmData stampData stampValue w).Sound where
  named transientID entry found := by
    rw [get_put] at found
    split at found
    next same =>
      rw [← Option.some.inj found, same]
      rfl
    · exact sound.named transientID entry found
  addressed transientID entry data found content := by
    rw [get_put] at found
    split at found
    · rw [← Option.some.inj found, MessageStore.put, lookup_insert] at content
      rw [← Option.some.inj found, ← Option.some.inj content, withoutStamp_append long stamped]
      rfl
    next other =>
      have elsewhere : entry.filePath ≠ (newEntry lxmData stampData stampValue w).filePath := by
        intro path
        apply other
        rw [← sound.named transientID entry found, path]
        rfl
      rw [MessageStore.put, lookup_insert_ne elsewhere] at content
      exact sound.addressed transientID entry data found content

theorem Sound.add (sound : ms.Sound) (lxmData : Bytes) {stampData : Bytes} (stamped : stampData.length = stampSize)
    (stampValue : Int) (w : StoreWrite) : (ms.add lxmData stampData stampValue w).1.Sound := by
  unfold MessageStore.add
  split
  · exact sound
  next long =>
    split
    · exact sound
    split
    · exact sound
    split
    · exact sound
    · exact (sound.put (Nat.not_lt.1 long) stamped stampValue w).enforceLimitLocked _ _ _

end MessageStore

end ReticulumProtocols.Lxmf
