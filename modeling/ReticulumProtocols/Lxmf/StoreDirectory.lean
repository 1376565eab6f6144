import ReticulumProtocols.Lxmf.Store
import ReticulumProtocols.Wire.Text

/-! The directory behind the message store: how a file is named, what `load` makes of the names and
contents it finds, and that index and directory stay in step whatever is done to the store. -/

namespace ReticulumProtocols.Lxmf
open Wire Sha256 Text List AList

/-- How receive times are written into file names. The text has no separator in it and can be read back as
some time; nothing is asked about which. -/
structure TimeCodec where
  formatFloat : Float → Bytes
  parseFloat : Bytes → Option Float
  parses : ∀ time, (parseFloat (formatFloat time)).isSome = true
  plain : ∀ time, 0x5f ∉ formatFloat time

/-- `MessageStoreFilename`, from the three parts of a path. -/
def FilePath.name (path : FilePath) : Bytes :=
  encodeHex path.transientID ++ 0x5f :: (path.receivedAt ++ 0x5f :: intText path.stampValue)

inductive FilenameError where
  | parts
  | transientID
  | receivedAt
  | stampValue
  deriving DecidableEq, Repr

def parseMessageStoreFilename (parseFloat : Bytes → Option Float) (name : Bytes) :
    Except FilenameError (Bytes × Float × Int) :=
  match name.splitOn 0x5f with
  | [first, second, third] =>
    match decodeHex first with
    | none => .error .transientID
    | some transientID =>
      match parseFloat second with
      | none => .error .receivedAt
      | some receivedAt =>
        match scanInt64 third with
        | none => .error .stampValue
        | some stampValue => .ok (transientID, receivedAt, stampValue)
  | _ => .error .parts

/-- The end of the name of a file that is still being written. -/
def tmpSuffix : Bytes := [0x2e, 0x74, 0x6d, 0x70]

/-- One round of the loop in `load`: what it enters in the index for a file. -/
def loadFile (parseFloat : Bytes → Option Float) (readable : FilePath → Bool)
    (file : Sigma fun _ : FilePath => Bytes) : Option (Bytes × PropagationEntry) :=
  if tmpSuffix <:+ file.1.name then none
  else
    match parseMessageStoreFilename parseFloat file.1.name with
    | .error _ => none
    | .ok (transientID, receivedAt, stampValue) =>
      if readable file.1 = false ∨ file.2.length < destinationLength then none
      else
        some (transientID,
          { destinationHash := (withoutStamp file.2).take destinationLength
            filePath := file.1
            receivedAt
            size := file.2.length
            stampValue })

/-- `load`, over the files in the order of the listing. -/
def loadEntries (parseFloat : Bytes → Option Float) (readable : FilePath → Bool)
    (listing : List (Sigma fun _ : FilePath => Bytes)) : GoMap Bytes PropagationEntry :=
  (listing.filterMap (loadFile parseFloat readable)).foldl (fun entries loaded => entries.insert loaded.1 loaded.2) ∅

/-- What a store is opened with, and the order in which its directory is listed. -/
structure StoreOptions where
  limitMB : Float := Float64.ofInt 0
  prioritised : List Bytes := []
  saturates : Bool := false
  visit : Visit := .listed

/-- `NewMessageStore`; `readable` says which files the file system lets us read. -/
def newMessageStore (parseFloat : Bytes → Option Float) (readable : FilePath → Bool) (o : StoreOptions)
    (files : GoMap FilePath Bytes) : MessageStore where
  entries := loadEntries parseFloat readable (o.visit.run files.entries)
  files
  limitBytes :=
    if o.limitMB > Float64.ofInt 0 then
      Float64.toInt64 o.saturates (o.limitMB * Float64.ofInt 1000 * Float64.ofInt 1000)
    else 0
  prioritisedDest := o.prioritised.filter fun hash => hash.length = destinationLength

structure StoredMessage where
  lxmData : Bytes
  stampData : Bytes
  stampValue : Int64
  long : destinationLength ≤ lxmData.length
  stamped : stampData.length = stampSize

/-- The operations on a store, with what each of them meets when file operations succeed. -/
inductive StoreOp where
  | add (message : StoredMessage) (received : Float) (now : Int) (saturates : Bool) (visit : Visit)
  | remove (transientID : Bytes)
  | purge (transientIDs : List Bytes) (destinationHash : Bytes)
  | cleanExpired (now : Int) (saturates : Bool) (visit : Visit)
  | cleanToLimit (now : Int) (saturates : Bool) (visit : Visit)

/-- A store with a record of the messages that were written: for each id the last one. -/
structure Archive where
  store : MessageStore
  written : Bytes → Option StoredMessage := fun _ => none

namespace Archive
variable (codec : TimeCodec) (a : Archive)

def step : StoreOp → Archive
  | .add m received now saturates visit =>
    { store := (a.store.add m.lxmData m.stampData m.stampValue.toInt
        { received, formatFloat := codec.formatFloat, now, saturates, visit }).1
      written :=
        if (a.store.get (sha256 m.lxmData)).isSome then a.written
        else Function.update a.written (sha256 m.lxmData) (some m) }
  | .remove transientID => { a with store := a.store.remove transientID }
  | .purge transientIDs destinationHash => { a with store := (a.store.purge transientIDs destinationHash).1 }
  | .cleanExpired now saturates visit => { a with store := (a.store.cleanExpired now saturates visit).1 }
  | .cleanToLimit now saturates visit => { a with store := a.store.cleanToLimit now saturates visit }

def run (ops : List StoreOp) : Archive := ops.foldl (step codec) a

end Archive

theorem FilePath.name_eq_intercalate (path : FilePath) :
    path.name = [0x5f].intercalate [encodeHex path.transientID, path.receivedAt, intText path.stampValue] := by
  simp [FilePath.name, List.intercalate]

section
variable {codec : TimeCodec} {path : FilePath} {time : Float}

theorem parse_name (formatted : path.receivedAt = codec.formatFloat time) (low : -2 ^ 63 ≤ path.stampValue)
    (high : path.stampValue < 2 ^ 63) :
    ∃ receivedAt, parseMessageStoreFilename codec.parseFloat path.name =
      .ok (path.transientID, receivedAt, path.stampValue) := by
  have separate : ∀ part ∈ [encodeHex path.transientID, path.receivedAt, intText path.stampValue], 0x5f ∉ part := by
    simp only [forall_mem_cons, not_mem_nil, false_imp_iff, implies_true, and_true]
    refine ⟨not_mem_encodeHex rfl _, ?_, not_mem_intText rfl (by decide) _⟩
    rw [formatted]
    exact codec.plain time
  have parts : path.name.splitOn 0x5f = [encodeHex path.transientID, path.receivedAt, intText path.stampValue] := by
    rw [path.name_eq_intercalate]
    exact splitOn_intercalate 0x5f separate (cons_ne_nil _ _)
  obtain ⟨receivedAt, parsed⟩ := Option.isSome_iff_exists.1 (codec.parses time)
  rw [← formatted] at parsed
  refine ⟨receivedAt, ?_⟩
  simp only [parseMessageStoreFilename, parts, decodeHex_encodeHex, parsed, scanInt64_intText low high]

/-- A name ends in a digit. -/
theorem not_tmp (path : FilePath) : ¬tmpSuffix <:+ path.name := by
  intro suffix
  have written : intText path.stampValue ≠ [] := intText_ne_nil _
  have ends : path.name.getLast? = (intText path.stampValue).getLast? := by
    rw [FilePath.name, List.getLast?_append_of_ne_nil _ (cons_ne_nil _ _), List.getLast?_cons_of_ne_nil (by simp),
      List.getLast?_append_of_ne_nil _ (cons_ne_nil _ _), List.getLast?_cons_of_ne_nil written]
  obtain ⟨front, same⟩ := suffix
  have last : (intText path.stampValue).getLast? = some 0x70 := by
    rw [← ends, ← same, List.getLast?_append_of_ne_nil _ (by decide)]
    rfl
  exact absurd (intText_last last) (by decide)

end

namespace MessageStore

/-- One store comes from the other by removals. -/
abbrev Removals : MessageStore → MessageStore → Prop :=
  Relation.ReflTransGen fun before after => ∃ transientID, after = before.remove transientID

variable (ms : MessageStore)

theorem removals_purge (transientIDs : List Bytes) (destinationHash : Bytes) :
    Removals ms (ms.purge transientIDs destinationHash).1 := by
  have each (purged : MessageStore × Nat) :
      Removals purged.1 (transientIDs.foldl (purgeStep destinationHash) purged).1 := by
    induction transientIDs generalizing purged with
    | nil => exact .refl
    | cons transientID others ih =>
      have step : Removals purged.1 (purgeStep destinationHash purged transientID).1 := by
        unfold purgeStep
        split
        · exact .refl
        split
        · exact .refl
        · exact .single ⟨transientID, rfl⟩
      exact step.trans (ih _)
  exact each (ms, 0)

theorem removals_cleanExpired (now : Int) (saturates : Bool) (visit : Visit) :
    Removals ms (ms.cleanExpired now saturates visit).1 := by
  have each (old : List (Sigma fun _ : Bytes => PropagationEntry)) :
      ∀ ms : MessageStore, Removals ms (old.foldl (fun store entry => store.remove entry.1) ms) := by
    induction old with
    | nil => exact fun _ => .refl
    | cons first others ih => exact fun ms => .head ⟨first.1, rfl⟩ (ih _)
  exact each _ ms

theorem removals_enforceLimitLocked (now : Int) (saturates : Bool) (visit : Visit) :
    Removals ms (ms.enforceLimitLocked now saturates visit) := by
  have culled (needed : Int) (order : List (Sigma fun _ : Bytes => PropagationEntry)) :
      ∀ (ms : MessageStore) (cleaned : Int), Removals ms (cull needed order ms cleaned) := by
    induction order with
    | nil => exact fun _ _ => .refl
    | cons first others ih =>
      intro ms cleaned
      rw [cull]
      split
      · exact .refl
      · exact .head ⟨first.1, rfl⟩ (ih _ _)
  unfold enforceLimitLocked
  split
  · exact .refl
  · exact culled _ _ ms 0

theorem add_cases {lxmData : Bytes} (stampData : Bytes) (stampValue : Int) {w : StoreWrite}
    (long : destinationLength ≤ lxmData.length) (wrote : w.wrote = true) (renamed : w.renamed = true) :
    (ms.add lxmData stampData stampValue w).1 =
      if (ms.get (sha256 lxmData)).isSome then ms
      else (ms.put lxmData stampData stampValue w).enforceLimitLocked w.now w.saturates w.visit := by
  rw [add, if_neg (Nat.not_lt.2 long)]
  cases ms.get (sha256 lxmData) with
  | some entry => rfl
  | none => simp [wrote, renamed]

end MessageStore

namespace Archive
open MessageStore (Removals get_remove get_put files_of_remove newEntry add_cases removals_purge
  removals_cleanExpired removals_enforceLimitLocked withoutStamp_append)

/-- The entry and the file of a written message. -/
structure Filed (codec : TimeCodec) (store : MessageStore) (m : StoredMessage) (entry : PropagationEntry) : Prop where
  destination : entry.destinationHash = m.lxmData.take destinationLength
  size : entry.size = (m.lxmData ++ m.stampData).length
  stampValue : entry.stampValue = m.stampValue.toInt
  named : ∃ received, entry.filePath = ⟨sha256 m.lxmData, codec.formatFloat received, m.stampValue.toInt⟩
  content : store.files.lookup entry.filePath = some (m.lxmData ++ m.stampData)

/-- Index and directory are in step: an entry is that of the message written under its id, and a file is
that of an entry. -/
structure InStep (codec : TimeCodec) (a : Archive) : Prop where
  indexed : ∀ key entry, a.store.get key = some entry →
    ∃ m, a.written key = some m ∧ sha256 m.lxmData = key ∧ Filed codec a.store m entry
  listed : ∀ path data, a.store.files.lookup path = some data →
    ∃ entry, a.store.get path.transientID = some entry ∧ entry.filePath = path

variable {codec : TimeCodec} {a : Archive}

theorem InStep.path_id (inStep : a.InStep codec) {key : Bytes} {entry : PropagationEntry}
    (found : a.store.get key = some entry) : entry.filePath.transientID = key := by
  obtain ⟨m, -, hashed, filed⟩ := inStep.indexed key entry found
  obtain ⟨received, path⟩ := filed.named
  rw [path]
  exact hashed

theorem InStep.remove (inStep : a.InStep codec) (transientID : Bytes) :
    InStep codec { a with store := a.store.remove transientID } := by
  cases gone : a.store.get transientID with
  | none =>
    have same : a.store.remove transientID = a.store := by rw [MessageStore.remove, gone]
    rw [same]
    exact inStep
  | some removed =>
    have files : (a.store.remove transientID).files = a.store.files.erase removed.filePath := by
      rw [MessageStore.remove, gone]
    constructor
    · intro key entry found
      rw [get_remove] at found
      split at found
      · contradiction
      next other =>
        obtain ⟨m, written, hashed, filed⟩ := inStep.indexed key entry found
        have elsewhere : entry.filePath ≠ removed.filePath := by
          intro same
          apply other
          rw [← inStep.path_id found, same, inStep.path_id gone]
        refine ⟨m, written, hashed, filed.destination, filed.size, filed.stampValue, filed.named, ?_⟩
        rw [files, lookup_erase_ne elsewhere]
        exact filed.content
    · intro path data found
      obtain ⟨entry, indexed, own⟩ := inStep.listed path data (files_of_remove found)
      refine ⟨entry, ?_, own⟩
      have other : path.transientID ≠ transientID := by
        intro same
        rw [same, gone] at indexed
        rw [files, ← own, ← Option.some.inj indexed, lookup_erase] at found
        contradiction
      rw [get_remove, if_neg other]
      exact indexed

theorem InStep.removals (inStep : a.InStep codec) {store : MessageStore} (removed : Removals a.store store) :
    InStep codec { a with store } := by
  induction removed with
  | refl => exact inStep
  | tail _ last ih =>
    obtain ⟨transientID, rfl⟩ := last
    exact ih.remove transientID

theorem InStep.put (inStep : a.InStep codec) (m : StoredMessage) {w : StoreWrite}
    (format : w.formatFloat = codec.formatFloat) (missing : a.store.get (sha256 m.lxmData) = none) :
    InStep codec
      { store := a.store.put m.lxmData m.stampData m.stampValue.toInt w
        written := Function.update a.written (sha256 m.lxmData) (some m) } := by
  have elsewhere {path : FilePath} {data : Bytes} (found : a.store.files.lookup path = some data) :
      path ≠ (newEntry m.lxmData m.stampData m.stampValue.toInt w).filePath := by
    intro same
    obtain ⟨entry, indexed, -⟩ := inStep.listed path data found
    rw [same] at indexed
    exact absurd (indexed.symm.trans missing) (Option.some_ne_none entry)
  constructor
  · intro key entry found
    rw [get_put] at found
    split at found
    next own =>
      rw [← Option.some.inj found, own]
      refine ⟨m, Function.update_self .., rfl, rfl, rfl, rfl, ⟨w.received, ?_⟩, lookup_insert _⟩
      rw [← format]
      rfl
    next own =>
      obtain ⟨m', written, hashed, filed⟩ := inStep.indexed key entry found
      refine ⟨m', ?_, hashed, filed.destination, filed.size, filed.stampValue, filed.named, ?_⟩
      · exact (Function.update_of_ne own _ _).trans written
      · rw [MessageStore.put, lookup_insert_ne (elsewhere filed.content)]
        exact filed.content
  · intro path data found
    rw [get_put]
    by_cases own : path = (newEntry m.lxmData m.stampData m.stampValue.toInt w).filePath
    · rw [own]
      exact ⟨_, if_pos rfl, rfl⟩
    · rw [MessageStore.put, lookup_insert_ne own] at found
      obtain ⟨entry, indexed, same⟩ := inStep.listed path data found
      have other : path.transientID ≠ sha256 m.lxmData := by
        intro hashed
        rw [hashed, missing] at indexed
        contradiction
      exact ⟨entry, (if_neg other).trans indexed, same⟩

/-- No operation takes index and directory apart. -/
theorem InStep.step (inStep : a.InStep codec) (op : StoreOp) : (a.step codec op).InStep codec := by
  cases op with
  | add m received now saturates visit =>
    rw [Archive.step, add_cases _ _ _ m.long rfl rfl]
    cases missing : a.store.get (sha256 m.lxmData) with
    | some entry => exact inStep
    | none =>
      have put := inStep.put m (w := { received, formatFloat := codec.formatFloat, now, saturates, visit }) rfl missing
      exact put.removals (removals_enforceLimitLocked _ _ _ _)
  | remove transientID => exact inStep.remove transientID
  | purge transientIDs destinationHash => exact inStep.removals (removals_purge _ _ _)
  | cleanExpired now saturates visit => exact inStep.removals (removals_cleanExpired _ _ _ _)
  | cleanToLimit now saturates visit => exact inStep.removals (removals_enforceLimitLocked _ _ _ _)

theorem InStep.run (inStep : a.InStep codec) (ops : List StoreOp) : (a.run codec ops).InStep codec := by
  induction ops generalizing a with
  | nil => exact inStep
  | cons op ops ih => exact ih (inStep.step op)

/-- What is on record was given to an `Add`. -/
theorem written_added {ops : List StoreOp} {key : Bytes} {m : StoredMessage}
    (written : (a.run codec ops).written key = some m) :
    a.written key = some m ∨ ∃ received now saturates visit, .add m received now saturates visit ∈ ops := by
  induction ops generalizing a with
  | nil => exact .inl written
  | cons op ops ih =>
    rcases ih written with before | ⟨received, now, saturates, visit, later⟩
    · cases op with
      | add m' received now saturates visit =>
        rw [Archive.step] at before
        dsimp only at before
        split at before
        · exact .inl before
        · by_cases own : key = sha256 m'.lxmData
          · rw [own, Function.update_self] at before
            rw [← Option.some.inj before]
            exact .inr ⟨received, now, saturates, visit, mem_cons_self⟩
          · rw [Function.update_of_ne own] at before
            exact .inl before
      | _ => exact .inl before
    · exact .inr ⟨received, now, saturates, visit, mem_cons_of_mem _ later⟩

end Archive

namespace Archive
open MessageStore (withoutStamp_append)
variable {codec : TimeCodec} {a : Archive}

theorem Filed.loadFile {store : MessageStore} {m : StoredMessage} {entry : PropagationEntry}
    (filed : Filed codec store m entry) :
    ∃ receivedAt, Lxmf.loadFile codec.parseFloat (fun _ => true) ⟨entry.filePath, m.lxmData ++ m.stampData⟩ =
      some (sha256 m.lxmData, { entry with receivedAt, handledPeers := [], unhandledPeers := [] }) := by
  obtain ⟨received, path⟩ := filed.named
  have value : entry.filePath.stampValue = m.stampValue.toInt := by rw [path]
  have formatted : entry.filePath.receivedAt = codec.formatFloat received := by rw [path]
  have hashed : entry.filePath.transientID = sha256 m.lxmData := by rw [path]
  obtain ⟨receivedAt, parsed⟩ := parse_name formatted (by rw [value]; exact m.stampValue.le_toInt)
    (by rw [value]; exact m.stampValue.toInt_lt)
  have enough : ¬entry.size < destinationLength := by
    have long := m.long
    rw [filed.size, length_append]
    omega
  refine ⟨receivedAt, ?_⟩
  rw [Lxmf.loadFile, if_neg (not_tmp _), parsed]
  simp only [Bool.true_eq_false, enough, or_self, if_false, hashed, value, withoutStamp_append m.long m.stamped,
    ← filed.destination, ← filed.size, ← filed.stampValue]

/-- What is loaded from a file is the entry that the file belongs to. -/
theorem InStep.loadFile (inStep : a.InStep codec) {file : Sigma fun _ : FilePath => Bytes}
    (present : a.store.files.lookup file.1 = some file.2) :
    ∃ kept receivedAt, a.store.get file.1.transientID = some kept ∧ kept.filePath = file.1 ∧
      Lxmf.loadFile codec.parseFloat (fun _ => true) file =
        some (file.1.transientID, { kept with receivedAt, handledPeers := [], unhandledPeers := [] }) := by
  obtain ⟨kept, indexed, own⟩ := inStep.listed file.1 file.2 present
  obtain ⟨m, -, hashed, filed⟩ := inStep.indexed _ kept indexed
  obtain ⟨receivedAt, loaded⟩ := filed.loadFile
  have content := filed.content
  rw [own, present] at content
  rw [hashed, ← Option.some.inj content] at loaded
  refine ⟨kept, receivedAt, indexed, own, ?_⟩
  rw [← loaded, own]

/-- Two files that are loaded under the same id are the same file. -/
theorem InStep.loadFile_injective (inStep : a.InStep codec) {file other : Sigma fun _ : FilePath => Bytes}
    {loaded loaded' : Bytes × PropagationEntry} (present : a.store.files.lookup file.1 = some file.2)
    (present' : a.store.files.lookup other.1 = some other.2)
    (load : Lxmf.loadFile codec.parseFloat (fun _ => true) file = some loaded)
    (load' : Lxmf.loadFile codec.parseFloat (fun _ => true) other = some loaded') (same : loaded.1 = loaded'.1) :
    loaded = loaded' := by
  obtain ⟨kept, _, indexed, own, entered⟩ := inStep.loadFile present
  obtain ⟨kept', _, indexed', own', entered'⟩ := inStep.loadFile present'
  rw [load, Option.some.injEq] at entered
  rw [load', Option.some.injEq] at entered'
  rw [entered, entered'] at same
  change file.1.transientID = other.1.transientID at same
  rw [same, indexed', Option.some.injEq] at indexed
  have paths : file.1 = other.1 := by rw [← own, ← own', indexed]
  rw [paths, present', Option.some.injEq] at present
  have files : file = other := Sigma.ext paths (heq_of_eq present.symm)
  rw [files, load', Option.some.injEq] at load
  exact load.symm

/-- What loading the directory enters in the index. -/
theorem InStep.get_reload (inStep : a.InStep codec) (o : StoreOptions) (key : Bytes) (entry : PropagationEntry) :
    (newMessageStore codec.parseFloat (fun _ => true) o a.store.files).get key = some entry ↔
      ∃ file : Sigma fun _ : FilePath => Bytes, a.store.files.lookup file.1 = some file.2 ∧
        Lxmf.loadFile codec.parseFloat (fun _ => true) file = some (key, entry) := by
  have visited (file : Sigma fun _ : FilePath => Bytes) :
      file ∈ o.visit.run a.store.files.entries ↔ a.store.files.lookup file.1 = some file.2 := by
    rw [(o.visit.perm a.store.files.entries).mem_iff, ← Option.mem_def, mem_lookup_iff]
  rw [MessageStore.get, newMessageStore, loadEntries, lookup_foldl_insert, mem_filterMap]
  · simp only [visited, lookup_empty, reduceCtorEq, and_false, or_false]
  · intro loaded member loaded' member' same
    obtain ⟨file, present, load⟩ := List.mem_filterMap.1 member
    obtain ⟨other, present', load'⟩ := List.mem_filterMap.1 member'
    rw [inStep.loadFile_injective ((visited file).1 present) ((visited other).1 present') load load' same]

end Archive

/-- What reloading has to give back of an entry besides the path of its file. -/
def PropagationEntry.summary (entry : PropagationEntry) : Bytes × Nat × Int :=
  (entry.destinationHash, entry.size, entry.stampValue)

namespace Archive
open MessageStore (withoutStamp_append)
variable {codec : TimeCodec} {a : Archive}

theorem InStep.summary_reload (inStep : a.InStep codec) (o : StoreOptions) (key : Bytes) :
    ((newMessageStore codec.parseFloat (fun _ => true) o a.store.files).get key).map
        (fun entry => (entry.filePath, entry.summary)) =
      (a.store.get key).map fun entry => (entry.filePath, entry.summary) := by
  cases found : a.store.get key with
  | some kept =>
    obtain ⟨m, -, hashed, filed⟩ := inStep.indexed key kept found
    obtain ⟨receivedAt, loaded⟩ := filed.loadFile
    rw [hashed] at loaded
    rw [(inStep.get_reload o key _).2 ⟨_, filed.content, loaded⟩]
    rfl
  | none =>
    rw [Option.map_none, Option.map_eq_none_iff, Option.eq_none_iff_forall_ne_some]
    intro entry reloaded
    obtain ⟨file, present, load⟩ := (inStep.get_reload o key entry).1 reloaded
    obtain ⟨kept, receivedAt, indexed, -, entered⟩ := inStep.loadFile present
    rw [load, Option.some.injEq] at entered
    have own : key = file.1.transientID := congrArg Prod.fst entered
    rw [← own, found] at indexed
    contradiction

theorem InStep.readLXMData (inStep : a.InStep codec) {store : MessageStore} {key : Bytes} {entry : PropagationEntry}
    (found : a.store.get key = some entry) (files : store.files = a.store.files)
    (same : (store.get key).map PropagationEntry.filePath = some entry.filePath) :
    ∃ m, a.written key = some m ∧ sha256 m.lxmData = key ∧ store.readLXMData key true = some m.lxmData := by
  obtain ⟨m, written, hashed, filed⟩ := inStep.indexed key entry found
  obtain ⟨entry', found', path⟩ := Option.map_eq_some_iff.1 same
  refine ⟨m, written, hashed, ?_⟩
  rw [MessageStore.readLXMData, found', Option.bind_some, if_pos rfl, files, path, filed.content, Option.map_some,
    withoutStamp_append m.long m.stamped]

end Archive

theorem inStep_empty (codec : TimeCodec) (o : StoreOptions) :
    Archive.InStep codec { store := newMessageStore codec.parseFloat (fun _ => true) o ∅ } := by
  have nothing : (newMessageStore codec.parseFloat (fun _ => true) o ∅).entries = ∅ := by
    have listing : o.visit.run (∅ : GoMap FilePath Bytes).entries = [] := (o.visit.perm []).eq_nil
    rw [newMessageStore, loadEntries, listing]
    rfl
  constructor
  · intro key entry found
    rw [MessageStore.get, nothing] at found
    contradiction
  · intro path data found
    contradiction

/-- Whatever was done to a store that started with an empty directory, opening the directory again gives the
same index, and what is read under an id is the message that was written under it. -/
theorem reload_inStep (codec : TimeCodec) (o again : StoreOptions) (ops : List StoreOp) :
    let a := Archive.run codec { store := newMessageStore codec.parseFloat (fun _ => true) o ∅ } ops
    let reloaded := newMessageStore codec.parseFloat (fun _ => true) again a.store.files
    ∀ key, (reloaded.get key).map PropagationEntry.summary = (a.store.get key).map PropagationEntry.summary ∧
      ((a.store.get key).isSome = true → ∃ m, a.written key = some m ∧
        (∃ received now saturates visit, .add m received now saturates visit ∈ ops) ∧ sha256 m.lxmData = key ∧
        a.store.readLXMData key true = some m.lxmData ∧ reloaded.readLXMData key true = some m.lxmData) := by
  intro a reloaded key
  have inStep : a.InStep codec := (inStep_empty codec o).run ops
  have same := inStep.summary_reload again key
  have paths := congrArg (Option.map Prod.fst) same
  have summaries := congrArg (Option.map Prod.snd) same
  simp only [Option.map_map] at paths summaries
  refine ⟨summaries, fun present => ?_⟩
  obtain ⟨entry, found⟩ := Option.isSome_iff_exists.1 present
  rw [found] at paths
  obtain ⟨m, written, hashed, read⟩ := inStep.readLXMData found rfl (congrArg (Option.map _) found)
  obtain ⟨m', written', -, read'⟩ := inStep.readLXMData found (rfl : reloaded.files = a.store.files) paths
  rw [written, Option.some.injEq] at written'
  have added := (Archive.written_added written).resolve_left (Option.some_ne_none m).symm
  exact ⟨m, written, added, hashed, read, written' ▸ read'⟩

end ReticulumProtocols.Lxmf
