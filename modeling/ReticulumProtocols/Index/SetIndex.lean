import Mathlib.Data.List.AList

/-! An index that keeps a set of identifiers under each key and drops a key with its last identifier. -/

namespace ReticulumProtocols.Index
open AList

abbrev SetIndex (K I : Type) := AList fun _ : K => AList fun _ : I => Unit

namespace SetIndex
variable {K I : Type} [DecidableEq K] (index : SetIndex K I)
variable {id i : I}

def members (key : K) : AList fun _ : I => Unit := (index.lookup key).getD ∅

def Holds (key : K) (id : I) : Prop := id ∈ index.members key

/-- No key is kept without an identifier. -/
def Occupied : Prop := ∀ key members, index.lookup key = some members → members.keys ≠ []

section
variable {index}

theorem not_holds_empty (key : K) (id : I) : ¬ Holds (∅ : SetIndex K I) key id := by
  simp [Holds, members]

theorem occupied_empty : Occupied (∅ : SetIndex K I) := by
  simp [Occupied]

theorem members_insert (key k : K) (set : AList fun _ : I => Unit) :
    members (index.insert key set) k = if k = key then set else index.members k := by
  unfold members
  split
  next same => rw [same, lookup_insert]; rfl
  next other => rw [lookup_insert_ne other]

theorem members_erase (key k : K) : members (index.erase key) k = if k = key then ∅ else index.members k := by
  unfold members
  split
  next same => rw [same, lookup_erase]; rfl
  next other => rw [lookup_erase_ne other]

end

variable [DecidableEq I]

instance (key : K) (id : I) : Decidable (index.Holds key id) :=
  inferInstanceAs (Decidable (id ∈ index.members key))

def add (key : K) (id : I) : SetIndex K I := index.insert key ((index.members key).insert id ())

def remove (key : K) (id : I) : SetIndex K I :=
  match index.lookup key with
  | none => index
  | some members =>
    if (members.erase id).keys = [] then index.erase key else index.insert key (members.erase id)

def removeAll (keys : List K) (id : I) : SetIndex K I := keys.foldl (fun index key => index.remove key id) index

variable {index}

theorem holds_add {key k : K} :
    Holds (index.add key id) k i ↔ (k = key ∧ i = id) ∨ index.Holds k i := by
  unfold Holds add
  rw [members_insert]
  split
  next same => subst same; simp [mem_insert]
  next other => simp [other]

theorem members_remove (key k : K) (id : I) :
    (members (index.remove key id) k).keys = if k = key then ((index.members k).erase id).keys else
      (index.members k).keys := by
  unfold remove
  split
  next absent =>
    split
    next same => subst same; simp [members, absent]
    next => rfl
  next set present =>
    have same : index.members key = set := by simp [members, present]
    split
    next emptied =>
      rw [members_erase]
      split
      next here => rw [here, same, emptied]; rfl
      next => rfl
    next =>
      rw [members_insert]
      split
      next here => rw [here, same]
      next => rfl

theorem holds_remove {key k : K} :
    Holds (index.remove key id) k i ↔ index.Holds k i ∧ ¬ (k = key ∧ i = id) := by
  unfold Holds
  rw [mem_keys, members_remove]
  split
  next same => rw [← mem_keys, mem_erase, and_comm]; simp [same]
  next other => simp [other, mem_keys]

theorem holds_removeAll {keys : List K} {k : K} :
    Holds (index.removeAll keys id) k i ↔ index.Holds k i ∧ ¬ (k ∈ keys ∧ i = id) := by
  unfold removeAll
  induction keys generalizing index with
  | nil => simp
  | cons key keys ih =>
    rw [List.foldl_cons, ih, holds_remove, List.mem_cons]
    tauto

theorem occupied_add (occupied : index.Occupied) (key : K) (id : I) : (index.add key id).Occupied := by
  intro k set found
  unfold add at found
  rcases eq_or_ne k key with same | other
  · subst same
    rw [lookup_insert] at found
    cases found
    apply List.ne_nil_of_mem (a := id)
    rw [← mem_keys, mem_insert]
    exact Or.inl rfl
  · rw [lookup_insert_ne other] at found
    exact occupied k set found

theorem occupied_remove (occupied : index.Occupied) (key : K) (id : I) : (index.remove key id).Occupied := by
  intro k set found
  unfold remove at found
  split at found
  next => exact occupied k set found
  next members present =>
    split at found
    next emptied =>
      rcases eq_or_ne k key with same | other
      · rw [same, lookup_erase] at found
        cases found
      · rw [lookup_erase_ne other] at found
        exact occupied k set found
    next kept =>
      rcases eq_or_ne k key with same | other
      · rw [same, lookup_insert] at found
        cases found
        exact kept
      · rw [lookup_insert_ne other] at found
        exact occupied k set found

theorem occupied_removeAll (occupied : index.Occupied) (keys : List K) (id : I) :
    (index.removeAll keys id).Occupied := by
  unfold removeAll
  induction keys generalizing index with
  | nil => exact occupied
  | cons key keys ih => exact ih (occupied_remove occupied key id)

end SetIndex
end ReticulumProtocols.Index
