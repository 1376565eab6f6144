import ReticulumProtocols.Lxmf.Store

/-! What the limit of the message store costs. Weights are values of any linear order here, and entries of one weight
stand in any order. -/

namespace ReticulumProtocols.Lxmf
open Wire Msgpack Sha256 List

abbrev StoredEntry := Sigma fun _ : Bytes => PropagationEntry

def sizeOfAll (entries : List StoredEntry) : Nat := (entries.map fun entry => entry.2.size).sum

theorem sizeOfAll_take_add_drop (entries : List StoredEntry) (k : Nat) :
    sizeOfAll (entries.take k) + sizeOfAll (entries.drop k) = sizeOfAll entries := by
  rw [sizeOfAll, sizeOfAll, ← sum_append, ← map_append, take_append_drop, sizeOfAll]

namespace MessageStore
variable (ms : MessageStore)

/-- `enforceLimitLocked` once the entries stand in an order. -/
def enforceInOrder (order : List StoredEntry) : MessageStore :=
  if ms.limitBytes ≤ 0 ∨ ms.totalBytes ≤ ms.limitBytes then ms
  else cull (ms.totalBytes - ms.limitBytes) order ms 0

theorem enforceLimitLocked_eq (now : Int) (saturates : Bool) (visit : Visit) :
    ms.enforceLimitLocked now saturates visit =
      ms.enforceInOrder ((visit.run ms.entries.entries).insertionSort fun entry other =>
        ms.weight now saturates entry.2 ≥ ms.weight now saturates other.2) := rfl

/-- `Add` gets as far as writing a file. -/
def Stores (lxmData : Bytes) (w : StoreWrite) : Prop :=
  destinationLength ≤ lxmData.length ∧ ms.get (sha256 lxmData) = none ∧ w.wrote = true ∧ w.renamed = true

instance (lxmData : Bytes) (w : StoreWrite) : Decidable (ms.Stores lxmData w) :=
  decidable_of_iff (destinationLength ≤ lxmData.length ∧ (ms.get (sha256 lxmData)).isNone = true ∧ w.wrote = true ∧
    w.renamed = true) (by rw [Stores, Option.isNone_iff_eq_none])

/-- The store that `Add` leaves, given the order of what it then holds. -/
def addInOrder (lxmData stampData : Bytes) (stampValue : Int) (w : StoreWrite) (order : List StoredEntry) :
    MessageStore :=
  if ms.Stores lxmData w then (ms.put lxmData stampData stampValue w).enforceInOrder order else ms

theorem add_eq_addInOrder (lxmData stampData : Bytes) (stampValue : Int) (w : StoreWrite) :
    let stored := ms.put lxmData stampData stampValue w
    (ms.add lxmData stampData stampValue w).1 = ms.addInOrder lxmData stampData stampValue w
      ((w.visit.run stored.entries.entries).insertionSort fun entry other =>
        stored.weight w.now w.saturates entry.2 ≥ stored.weight w.now w.saturates other.2) := by
  unfold add addInOrder
  dsimp only
  split
  next short => rw [if_neg fun stores => absurd stores.1 (not_le.2 short)]
  next long =>
    split
    next known => rw [if_neg fun stores => Option.some_ne_none _ (known.symm.trans stores.2.1)]
    next fresh =>
      split
      next failed => rw [if_neg fun stores => Bool.false_ne_true (failed.symm.trans stores.2.2.1)]
      next wrote =>
        split
        next failed => rw [if_neg fun stores => Bool.false_ne_true (failed.symm.trans stores.2.2.2)]
        next renamed =>
          rw [if_pos ⟨not_lt.1 long, fresh, (Bool.not_eq_false _).mp wrote, (Bool.not_eq_false _).mp renamed⟩]
          exact enforceLimitLocked_eq _ _ _ _

section
variable {α : Type*} [LinearOrder α] (weight : StoredEntry → α)

/-- An order of all entries in which weights descend. -/
structure HeaviestFirst (order : List StoredEntry) : Prop where
  perm : order.Perm ms.entries.entries
  descending : order.Pairwise fun entry later => weight later ≤ weight entry

/-- A store cut down to its limit, and no further than it takes. -/
structure CutToLimit (before after : MessageStore) : Prop where
  within : (after.totalBytes : Int) ≤ before.limitBytes
  untouched : (before.totalBytes : Int) ≤ before.limitBytes → after = before
  heaviest : ∃ (order : List StoredEntry) (gone : Nat), before.HeaviestFirst weight order ∧ gone ≤ order.length ∧
    after.entries.entries.Perm (order.drop gone) ∧
    (0 < gone → before.limitBytes < sizeOfAll (order.drop (gone - 1)))

end

variable {ms}

theorem totalBytes_eq {order : List StoredEntry} (perm : ms.entries.entries.Perm order) :
    ms.totalBytes = sizeOfAll order := (perm.map fun entry : StoredEntry => entry.2.size).sum_eq

theorem remove_perm {first : StoredEntry} {rest : List StoredEntry} (perm : ms.entries.entries.Perm (first :: rest)) :
    (ms.remove first.1).entries.entries.Perm rest := by
  have found : ms.get first.1 = some first.2 := by
    rw [get, ← Option.mem_def, AList.mem_lookup_iff]
    exact perm.mem_iff.2 mem_cons_self
  have erased : (ms.remove first.1).entries = ms.entries.erase first.1 := by
    unfold remove
    rw [found]
  rw [erased]
  exact (perm.kerase ms.entries.nodupKeys).trans (by rw [kerase_cons_eq rfl])

/-- Culling takes a front of the order away, which is the shortest that is enough. -/
theorem cull_cuts (needed : Int) {order : List StoredEntry} {cleaned : Int} (perm : ms.entries.entries.Perm order) :
    ∃ gone ≤ order.length, (cull needed order ms cleaned).entries.entries.Perm (order.drop gone) ∧
      (0 < gone → cleaned + sizeOfAll (order.take (gone - 1)) < needed) ∧
      (gone < order.length → needed ≤ cleaned + sizeOfAll (order.take gone)) := by
  induction order generalizing ms cleaned with
  | nil => exact ⟨0, le_rfl, perm, fun more => absurd more (lt_irrefl 0), fun more => absurd more (lt_irrefl 0)⟩
  | cons first rest ih =>
    rw [cull]
    by_cases enough : cleaned ≥ needed
    · rw [if_pos enough]
      refine ⟨0, Nat.zero_le _, perm, fun more => absurd more (lt_irrefl 0), fun _ => ?_⟩
      simpa [sizeOfAll] using enough
    · obtain ⟨gone, bound, left, minimal, sufficient⟩ := @ih _ (cleaned + first.2.size) (remove_perm perm)
      rw [if_neg enough]
      have size (k : Nat) : cleaned + (sizeOfAll ((first :: rest).take (k + 1)) : Int) =
          cleaned + first.2.size + sizeOfAll (rest.take k) := by
        simp only [take_succ_cons, sizeOfAll, map_cons, sum_cons, Nat.cast_add, add_assoc]
      refine ⟨gone + 1, Nat.succ_le_succ bound, left, fun _ => ?_, fun more => ?_⟩
      · cases gone with
        | zero => simpa [sizeOfAll] using not_le.1 enough
        | succ gone =>
          rw [Nat.add_sub_cancel, size]
          exact minimal (Nat.succ_pos gone)
      · rw [size]
        exact sufficient (Nat.lt_of_succ_lt_succ more)

variable {α : Type*} [LinearOrder α] {weight : StoredEntry → α} {order : List StoredEntry}

theorem enforceInOrder_cuts (positive : 0 < ms.limitBytes) (heaviest : ms.HeaviestFirst weight order) :
    CutToLimit weight ms (ms.enforceInOrder order) := by
  unfold enforceInOrder
  by_cases small : (ms.totalBytes : Int) ≤ ms.limitBytes
  · rw [if_pos (.inr small)]
    exact ⟨small, fun _ => rfl, order, 0, heaviest, Nat.zero_le _, heaviest.perm.symm,
      fun more => absurd more (lt_irrefl 0)⟩
  · rw [if_neg (not_or.2 ⟨not_le.2 positive, small⟩)]
    obtain ⟨gone, bound, left, minimal, sufficient⟩ :=
      @cull_cuts ms (ms.totalBytes - ms.limitBytes) order 0 heaviest.perm.symm
    have total := totalBytes_eq heaviest.perm.symm
    refine ⟨?_, fun within => absurd within small, order, gone, heaviest, bound, left, fun more => ?_⟩
    · have parts := sizeOfAll_take_add_drop order gone
      rw [totalBytes_eq left]
      by_cases all : gone < order.length
      · have enough := sufficient all
        omega
      · have nothing : sizeOfAll (order.drop gone) = 0 := by
          rw [drop_of_length_le (not_lt.1 all)]
          rfl
        omega
    · have parts := sizeOfAll_take_add_drop order (gone - 1)
      have short := minimal more
      omega

end MessageStore

open MessageStore

/-- Enforcing the limit cuts a store down to it and takes no more than that needs, whichever order of the weights is
met. `Add` does so when it stores something, and otherwise leaves the store as it is. -/
theorem store_cut_to_limit {α : Type*} [LinearOrder α] (weight : StoredEntry → α) (ms : MessageStore)
    (order : List StoredEntry) (positive : 0 < ms.limitBytes) :
    (ms.HeaviestFirst weight order → CutToLimit weight ms (ms.enforceInOrder order)) ∧
    ∀ (lxmData stampData : Bytes) (stampValue : Int) (w : StoreWrite),
      (ms.Stores lxmData w → (ms.put lxmData stampData stampValue w).HeaviestFirst weight order →
        CutToLimit weight (ms.put lxmData stampData stampValue w)
          (ms.addInOrder lxmData stampData stampValue w order)) ∧
      (¬ms.Stores lxmData w → ms.addInOrder lxmData stampData stampValue w order = ms) := by
  refine ⟨enforceInOrder_cuts positive, fun lxmData stampData stampValue w => ⟨fun stores heaviest => ?_, fun none => if_neg none⟩⟩
  rw [addInOrder, if_pos stores]
  have limited : 0 < (ms.put lxmData stampData stampValue w).limitBytes := positive
  exact enforceInOrder_cuts limited heaviest

def crowdedStore : MessageStore :=
  let entry (transientID : Bytes) (size : Nat) : PropagationEntry :=
    { destinationHash := [3], filePath := ⟨transientID, [], 0⟩, receivedAt := Float64.ofInt 0, size, stampValue := 0 }
  { entries := ((∅ : GoMap Bytes PropagationEntry).insert [7] (entry [7] 40)).insert
      (sha256 (replicate 16 0)) (entry (sha256 (replicate 16 0)) 100)
    limitBytes := 120 }

theorem store_cut_to_limit_crowded :
    CutToLimit (fun entry : StoredEntry => entry.2.size) crowdedStore
      (crowdedStore.enforceInOrder crowdedStore.entries.entries) := by
  have heaviest : crowdedStore.HeaviestFirst (fun entry : StoredEntry => entry.2.size) crowdedStore.entries.entries :=
    ⟨.refl _, by decide +kernel⟩
  exact (store_cut_to_limit _ crowdedStore _ (by decide)).1 heaviest

/-- Adding what is there already leaves the store over its limit. -/
theorem add_known_over_limit : ∃ (ms : MessageStore) (lxmData : Bytes) (w : StoreWrite),
    0 < ms.limitBytes ∧ destinationLength ≤ lxmData.length ∧
    ms.limitBytes < ((ms.add lxmData [] 0 w).1.totalBytes : Int) :=
  ⟨crowdedStore, replicate 16 0,
    { received := Float64.ofInt 0, formatFloat := fun _ => [], now := 0, visit := .listed }, by decide +kernel⟩

end ReticulumProtocols.Lxmf
