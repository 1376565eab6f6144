import ReticulumProtocols.Msgpack.RoundTrip

/-! Go iterates a map in an arbitrary order, chosen anew each time. One traversal of a tree is a
reordering of the entries of all its maps; two encodings of one value are encodings of two
reorderings of it. -/

namespace ReticulumProtocols.Msgpack
open Wire List
variable {other : Value}

/-- The second tree is the first one with the entries of its maps in some other order. -/
inductive Reorder : Value → Value → Prop where
  | scalar (s : Scalar) : Reorder (.scalar s) (.scalar s)
  | bytes (data : Bytes) : Reorder (.bytes data) (.bytes data)
  | arr (items others : List Value) (same : items.length = others.length)
      (each : ∀ pair ∈ items.zip others, Reorder pair.1 pair.2) : Reorder (.arr items) (.arr others)
  | map (kind : MapKind) (entries between others : List (Scalar × Value))
      (keys : entries.map Prod.fst = between.map Prod.fst)
      (each : ∀ pair ∈ entries.zip between, Reorder pair.1.2 pair.2.2)
      (shuffled : between.Perm others) : Reorder (.map kind entries) (.map kind others)

/-- Entries under the same key with reordered values. -/
def ReorderEntry (entry other : Scalar × Value) : Prop := entry.1 = other.1 ∧ Reorder entry.2 other.2

theorem reorder_scalar_iff {s : Scalar} : Reorder (.scalar s) other ↔ other = .scalar s := by
  constructor
  · rintro ⟨⟩
    rfl
  · rintro rfl
    exact .scalar s

theorem reorder_bytes_iff {data : Bytes} : Reorder (.bytes data) other ↔ other = .bytes data := by
  constructor
  · rintro ⟨⟩
    rfl
  · rintro rfl
    exact .bytes data

theorem reorder_arr_iff {items : List Value} :
    Reorder (.arr items) other ↔ ∃ others, other = .arr others ∧ List.Forall₂ Reorder items others := by
  constructor
  · intro reordered
    cases reordered with
    | arr _ others same each =>
      exact ⟨others, rfl, forall₂_iff_zip.mpr ⟨same, fun member => each _ member⟩⟩
  · rintro ⟨others, rfl, each⟩
    obtain ⟨same, each⟩ := forall₂_iff_zip.mp each
    exact .arr items others same fun pair member => each member

/-- Equal keys and related values, told entry by entry or for the zipped lists. -/
theorem forall₂_entries_iff {related : Value → Value → Prop} {entries others : List (Scalar × Value)} :
    List.Forall₂ (fun entry other => entry.1 = other.1 ∧ related entry.2 other.2) entries others ↔
      entries.map Prod.fst = others.map Prod.fst ∧ ∀ pair ∈ entries.zip others, related pair.1.2 pair.2.2 := by
  induction entries generalizing others with
  | nil => cases others <;> simp
  | cons entry entries ih =>
    cases others with
    | nil => simp
    | cons other others =>
      rw [forall₂_cons, ih]
      simp only [map_cons, List.cons.injEq, zip_cons_cons, forall_mem_cons]
      tauto

theorem reorder_map_iff {kind : MapKind} {entries : List (Scalar × Value)} :
    Reorder (.map kind entries) other ↔
      ∃ between others, other = .map kind others ∧ List.Forall₂ ReorderEntry entries between ∧
        between.Perm others := by
  constructor
  · intro reordered
    cases reordered with
    | map _ _ between others keys each shuffled =>
      exact ⟨between, others, rfl, forall₂_entries_iff.mpr ⟨keys, each⟩, shuffled⟩
  · rintro ⟨between, others, rfl, each, shuffled⟩
    obtain ⟨keys, each⟩ := forall₂_entries_iff.mp each
    exact .map kind entries between others keys each shuffled

/-- Induction over a reordering, with the hypothesis on every pair of elements and of map values. -/
@[elab_as_elim]
theorem Reorder.induct {motive : Value → Value → Prop} (scalar : ∀ s, motive (.scalar s) (.scalar s))
    (bytes : ∀ data, motive (.bytes data) (.bytes data))
    (arr : ∀ items others, List.Forall₂ motive items others → motive (.arr items) (.arr others))
    (map : ∀ kind entries between others,
      List.Forall₂ (fun entry other => entry.1 = other.1 ∧ motive entry.2 other.2) entries between →
        between.Perm others → motive (.map kind entries) (.map kind others))
    {value other : Value} (reordered : Reorder value other) : motive value other := by
  induction reordered with
  | scalar s => exact scalar s
  | bytes data => exact bytes data
  | arr items others same each ih =>
    exact arr items others (forall₂_iff_zip.mpr ⟨same, fun member => ih _ member⟩)
  | map kind entries between others keys each shuffled ih =>
    exact map kind entries between others (forall₂_entries_iff.mpr ⟨keys, ih⟩) shuffled

theorem Reorder.refl (value : Value) : Reorder value value := by
  induction value with
  | scalar s => exact .scalar s
  | bytes data => exact .bytes data
  | arr items ih =>
    rw [reorder_arr_iff]
    exact ⟨items, rfl, forall₂_same.mpr ih⟩
  | map kind entries ih =>
    rw [reorder_map_iff]
    exact ⟨entries, entries, rfl, forall₂_same.mpr fun entry member => ⟨rfl, ih entry member⟩,
      List.Perm.refl entries⟩

/-- The order in which one pass over a tree visits the entries of its maps. -/
structure MapOrder where
  run : Value → Value
  reorders : ∀ value, Reorder value (run value)

/-- The pass that visits the entries as they are listed. -/
def MapOrder.listed : MapOrder := ⟨id, Reorder.refl⟩

mutual

def reverseMaps : Value → Value
  | .scalar s => .scalar s
  | .bytes data => .bytes data
  | .arr items => .arr (reverseItems items)
  | .map kind entries => .map kind (reverseEntries entries).reverse

def reverseItems : List Value → List Value
  | [] => []
  | item :: items => reverseMaps item :: reverseItems items

def reverseEntries : List (Scalar × Value) → List (Scalar × Value)
  | [] => []
  | (key, value) :: entries => (key, reverseMaps value) :: reverseEntries entries

end

theorem reorder_reverseMaps (value : Value) : Reorder value (reverseMaps value) := by
  induction value with
  | scalar s => exact .scalar s
  | bytes data => exact .bytes data
  | arr items ih =>
    have each : List.Forall₂ Reorder items (reverseItems items) := by
      induction items with
      | nil => exact .nil
      | cons item items inner =>
        exact .cons (ih item (by simp)) (inner fun other member => ih other (by simp [member]))
    exact reorder_arr_iff.mpr ⟨_, rfl, each⟩
  | map kind entries ih =>
    have each : List.Forall₂ ReorderEntry entries (reverseEntries entries) := by
      induction entries with
      | nil => exact .nil
      | cons entry entries inner =>
        exact .cons ⟨rfl, ih entry (by simp)⟩ (inner fun other member => ih other (by simp [member]))
    exact reorder_map_iff.mpr ⟨_, _, rfl, each, (reverse_perm _).symm⟩

/-- The pass that visits every map backwards. -/
def MapOrder.reversed : MapOrder := ⟨reverseMaps, reorder_reverseMaps⟩

/-- Some pass visits a given tree in any given order. -/
theorem MapOrder.exists_run {value other : Value} (reordered : Reorder value other) :
    ∃ order : MapOrder, order.run value = other := by
  classical
  refine ⟨⟨fun v => if v = value then other else v, ?_⟩, if_pos rfl⟩
  intro v
  split
  next same => rwa [same]
  next => exact Reorder.refl v

theorem forall₂_mem_right {α β : Type} {related : α → β → Prop} {xs : List α} {ys : List β}
    (each : List.Forall₂ related xs ys) {y : β} (member : y ∈ ys) : ∃ x ∈ xs, related x y := by
  induction each with
  | nil => simp at member
  | cons first _ ih =>
    rcases mem_cons.mp member with rfl | inside
    · exact ⟨_, by simp, first⟩
    · obtain ⟨x, member, holds⟩ := ih inside
      exact ⟨x, by simp [member], holds⟩

/-- Every entry of a reordered map is an entry of the original with a reordered value. -/
theorem reorder_map_mem {entries between others : List (Scalar × Value)}
    (each : List.Forall₂ ReorderEntry entries between) (shuffled : between.Perm others)
    {other : Scalar × Value} (member : other ∈ others) : ∃ entry ∈ entries, ReorderEntry entry other :=
  forall₂_mem_right each (shuffled.mem_iff.mpr member)

/-- A property of nodes that depends on the lengths and the keys below them holds everywhere in every reordering. -/
theorem Value.Everywhere.reorder {node : Value → Prop}
    (arr : ∀ items others, items.length = others.length → node (.arr items) → node (.arr others))
    (map : ∀ kind entries others, others.length = entries.length →
      (∀ other ∈ others, ∃ entry ∈ entries, entry.1 = other.1) → node (.map kind entries) → node (.map kind others))
    {value other : Value} (reordered : Reorder value other) (holds : Value.Everywhere node value) :
    Value.Everywhere node other := by
  refine Reorder.induct (fun _ => id) (fun _ => id) ?_ ?_ reordered holds
  · intro items others each holds
    refine .arr (arr items others each.length_eq holds.here) ?_
    intro item member
    obtain ⟨original, inside, ih⟩ := forall₂_mem_right each member
    exact ih (holds.elements original inside)
  · intro kind entries between others each shuffled holds
    have origin (entry) (member : entry ∈ others) := forall₂_mem_right each (shuffled.mem_iff.mpr member)
    refine .map (map kind entries others (by rw [← shuffled.length_eq, each.length_eq]) ?_ holds.here) ?_
    · intro entry member
      obtain ⟨original, inside, key, _⟩ := origin entry member
      exact ⟨original, inside, key⟩
    · intro entry member
      obtain ⟨original, inside, _, ih⟩ := origin entry member
      exact ih (holds.values original inside)

/-- The order of the entries does not change how long an encoding is. -/
theorem encode_length_reorder (compact : Bool) {value other : Value} (reordered : Reorder value other) :
    (encode compact other).length = (encode compact value).length := by
  refine Reorder.induct (fun _ => rfl) (fun _ => rfl) ?_ ?_ reordered
  · intro items others each
    have bytes : (encodeItems compact others).length = (encodeItems compact items).length := by
      induction each with
      | nil => rfl
      | cons first _ inner => simp only [encodeItems, length_append, first, inner]
    simp only [encode, length_append, bytes, each.length_eq]
  · intro kind entries between others each shuffled
    have bytes : (between.flatMap (encodeEntry compact)).length = (entries.flatMap (encodeEntry compact)).length := by
      clear shuffled
      induction each with
      | nil => rfl
      | cons first _ inner => simp only [flatMap_cons, length_append, encodeEntry, ← first.1, first.2, inner]
    have permuted := (shuffled.flatMap_right (encodeEntry compact)).length_eq
    simp only [encode, length_append, encodeEntries_eq_flatMap, ← permuted, bytes, ← shuffled.length_eq,
      each.length_eq]

theorem Value.Sized.reorder {value other : Value} (reordered : Reorder value other) (sized : value.Sized) :
    other.Sized := by
  refine Value.Everywhere.reorder ?_ ?_ reordered sized
  · intro items others same short
    exact lt_of_eq_of_lt same.symm short
  · intro kind entries others same keys here
    refine ⟨lt_of_eq_of_lt same here.1, ?_⟩
    intro other member
    obtain ⟨entry, inside, key⟩ := keys other member
    rw [← key]
    exact here.2 entry inside

theorem Fits.reorder {decoder : Decoder} {depth mapDepth : Nat} {value other : Value}
    (reordered : Reorder value other) (fits : Fits decoder depth mapDepth value) :
    Fits decoder depth mapDepth other := by
  induction fits generalizing other with
  | scalar depth mapDepth s =>
    rw [reorder_scalar_iff.mp reordered]
    exact .scalar depth mapDepth s
  | bytes depth mapDepth data =>
    rw [reorder_bytes_iff.mp reordered]
    exact .bytes depth mapDepth data
  | arr depth mapDepth items nesting below ih =>
    obtain ⟨others, rfl, each⟩ := reorder_arr_iff.mp reordered
    refine .arr depth mapDepth others ?_ ?_
    · intro nonempty
      apply nesting
      rintro rfl
      exact nonempty (forall₂_nil_left_iff.mp each)
    · intro item member
      obtain ⟨original, inside, related⟩ := forall₂_mem_right each member
      exact ih original inside related
  | map depth mapDepth maxDepth maxPairs kind entries bounded nesting pairs below ih =>
    obtain ⟨between, others, rfl, each, shuffled⟩ := reorder_map_iff.mp reordered
    refine .map depth mapDepth maxDepth maxPairs kind others bounded nesting ?_ ?_
    · rwa [← shuffled.length_eq, ← each.length_eq]
    · intro entry member
      obtain ⟨original, inside, related⟩ := reorder_map_mem each shuffled member
      exact ih original inside related.2

end ReticulumProtocols.Msgpack
