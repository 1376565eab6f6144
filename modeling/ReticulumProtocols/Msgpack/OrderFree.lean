import ReticulumProtocols.Msgpack.Reorder

/-! Encodings are self-delimiting, and the bytes of a value are independent of the map order
exactly when no map holds two entries that are encoded differently. -/

namespace ReticulumProtocols.Msgpack
open Wire List
variable {value other : Value}

/-- A decoder whose limits no value of `size` encoded bytes can reach. -/
def unlimited (size : Nat) : Decoder := { loose := false, maps := .bounded size size, maxDepth := size }

theorem fits_unlimited (compact : Bool) (size : Nat) (value : Value) (depth mapDepth : Nat)
    (room : depth + mapDepth + (encode compact value).length ≤ size) :
    Fits (unlimited size) depth mapDepth value := by
  induction value generalizing depth mapDepth with
  | scalar s => exact .scalar depth mapDepth s
  | bytes data => exact .bytes depth mapDepth data
  | arr items ih =>
    have header := LengthFamily.header_pos .array items.length
    rw [encode, length_append] at room
    refine .arr depth mapDepth items (fun _ => by simp only [unlimited]; omega) ?_
    intro item member
    have bound := encode_le_encodeItems compact member
    exact ih item member (depth + 1) mapDepth (by omega)
  | map kind entries ih =>
    have header := LengthFamily.header_pos .map entries.length
    have count := length_le_encodeEntries compact entries
    rw [encode, length_append] at room
    refine .map depth mapDepth size size kind entries rfl (by omega) (by omega) ?_
    intro entry member
    have bound := encode_le_encodeEntries compact member
    rw [encodeEntry, length_append] at bound
    exact ih entry member depth (mapDepth + 1) (by omega)

/-- Equal byte strings that start with two encodings start with the same encoding. -/
theorem encode_append_inj (compact : Bool) {rest rest' : Bytes}
    (sized : value.Sized) (sized' : other.Sized)
    (same : encode compact value ++ rest = encode compact other ++ rest') :
    encode compact value = encode compact other ∧ rest = rest' := by
  let size := (encode compact value).length + (encode compact other).length
  have first := (reads_encode (unlimited size) compact sized size 0 0 false (by simp only [size]; omega) rest).1
    (fits_unlimited compact size value 0 0 (by simp only [size]; omega))
  have second := (reads_encode (unlimited size) compact sized' size 0 0 false (by simp only [size]; omega) rest').1
    (fits_unlimited compact size other 0 0 (by simp only [size]; omega))
  have tails : rest = rest' := by
    rw [same, second] at first
    exact (congrArg Prod.snd (Except.ok.inj first)).symm
  subst tails
  exact ⟨append_cancel_right same, rfl⟩

theorem encodeEntry_append_inj (compact : Bool) {entry other : Scalar × Value} {rest rest' : Bytes}
    (key : entry.1.Sized) (key' : other.1.Sized) (sized : entry.2.Sized) (sized' : other.2.Sized)
    (same : encodeEntry compact entry ++ rest = encodeEntry compact other ++ rest') :
    encodeEntry compact entry = encodeEntry compact other := by
  rw [encodeEntry, encodeEntry, append_assoc, append_assoc] at same
  obtain ⟨keys, tails⟩ := encode_append_inj compact (.scalar key) (.scalar key') (by simpa only [encode] using same)
  obtain ⟨values, _⟩ := encode_append_inj compact sized sized' tails
  simp only [encode] at keys
  rw [encodeEntry, encodeEntry, keys, values]

/-- All entries of a map have one encoding, as is the case for at most one entry. -/
def OrderFreeNode (compact : Bool) : Value → Prop
  | .map _ entries => ∀ entry ∈ entries, ∀ other ∈ entries, encodeEntry compact entry = encodeEntry compact other
  | _ => True

abbrev OrderFree (compact : Bool) : Value → Prop := Value.Everywhere (OrderFreeNode compact)

theorem encode_reorder_of_orderFree (compact : Bool)
    (reordered : Reorder value other) (free : OrderFree compact value) :
    encode compact other = encode compact value := by
  refine Reorder.induct (fun _ _ => rfl) (fun _ _ => rfl) ?_ ?_ reordered free
  · intro items others each free
    have bytes : encodeItems compact others = encodeItems compact items := by
      have below := free.elements
      clear free
      induction each with
      | nil => rfl
      | cons first _ inner =>
        rw [encodeItems, encodeItems, first (below _ (by simp)), inner fun item member => below item (by simp [member])]
    rw [encode, encode, bytes, each.length_eq]
  · intro kind entries between others each shuffled free
    have pointwise : between.map (encodeEntry compact) = entries.map (encodeEntry compact) := by
      have below := free.values
      clear free shuffled
      induction each with
      | nil => rfl
      | cons first _ inner =>
        rw [map_cons, map_cons, encodeEntry, encodeEntry, ← first.1, first.2 (below _ (by simp)),
          inner fun entry member => below entry (by simp [member])]
    -- all encodings are equal, so a permutation of them is the same list
    have listed : others.map (encodeEntry compact) = entries.map (encodeEntry compact) := by
      have perm : (entries.map (encodeEntry compact)).Perm (others.map (encodeEntry compact)) :=
        pointwise ▸ shuffled.map _
      cases entries with
      | nil => simpa using perm
      | cons first rest =>
        have constant : (first :: rest).map (encodeEntry compact) =
            replicate (rest.length + 1) (encodeEntry compact first) := by
          rw [eq_replicate_iff]
          refine ⟨by simp, ?_⟩
          intro bytes member
          obtain ⟨entry, inside, rfl⟩ := mem_map.mp member
          exact free.here entry inside first (by simp)
        rw [constant] at perm ⊢
        exact (replicate_perm.mp perm).symm
    rw [encode, encode, encodeEntries_eq_flatMap, encodeEntries_eq_flatMap, flatMap_def, flatMap_def,
      listed, ← shuffled.length_eq, each.length_eq]

private theorem forall₂_reorder_self (items : List Value) : List.Forall₂ Reorder items items :=
  forall₂_same.mpr fun item _ => Reorder.refl item

private theorem forall₂_reorderEntry_self (entries : List (Scalar × Value)) :
    List.Forall₂ ReorderEntry entries entries :=
  forall₂_same.mpr fun entry _ => ⟨rfl, Reorder.refl entry.2⟩

theorem Reorder.arr_item {item other : Value} (reordered : Reorder item other) (before after : List Value) :
    Reorder (.arr (before ++ item :: after)) (.arr (before ++ other :: after)) :=
  reorder_arr_iff.mpr ⟨_, rfl, rel_append (forall₂_reorder_self before)
    (.cons reordered (forall₂_reorder_self after))⟩

theorem Reorder.map_value (reordered : Reorder value other) (kind : MapKind)
    (key : Scalar) (before after : List (Scalar × Value)) :
    Reorder (.map kind (before ++ (key, value) :: after)) (.map kind (before ++ (key, other) :: after)) :=
  reorder_map_iff.mpr ⟨before ++ (key, other) :: after, _, rfl, rel_append (forall₂_reorderEntry_self before)
    (.cons ⟨rfl, reordered⟩ (forall₂_reorderEntry_self after)), List.Perm.refl _⟩

theorem Reorder.map_perm (kind : MapKind) {entries others : List (Scalar × Value)}
    (shuffled : entries.Perm others) : Reorder (.map kind entries) (.map kind others) :=
  reorder_map_iff.mpr ⟨_, _, rfl, forall₂_reorderEntry_self entries, shuffled⟩

theorem Reorder.trans_perm {value : Value} {kind : MapKind} {entries others : List (Scalar × Value)}
    (reordered : Reorder value (.map kind entries)) (shuffled : entries.Perm others) :
    Reorder value (.map kind others) := by
  cases reordered with
  | map _ listed between _ keys each shuffled' =>
    exact .map kind listed between others keys each (shuffled'.trans shuffled)

theorem orderFree_of_encode_reorder (compact : Bool) (value : Value) (sized : value.Sized)
    (all : ∀ other, Reorder value other → encode compact other = encode compact value) :
    OrderFree compact value := by
  induction value with
  | scalar s => exact .scalar trivial
  | bytes data => exact .bytes trivial
  | arr items ih =>
    refine .arr trivial ?_
    intro item member
    refine ih item member (sized.elements item member) ?_
    intro other reordered
    obtain ⟨before, after, rfl⟩ := append_of_mem member
    have same := all _ (reordered.arr_item before after)
    simpa [encode, encodeItems_eq_flatMap] using same
  | map kind entries ih =>
    have keys := sized.here.2
    have below := sized.values
    refine .map ?_ ?_
    · intro entry member other member'
      -- put either entry first: the two encodings start differently unless the entries agree
      have leading (front : Scalar × Value) (inside : front ∈ entries) :
          ∃ rest, encodeEntries compact entries = encodeEntry compact front ++ rest := by
        obtain ⟨before, after, rfl⟩ := append_of_mem inside
        have shuffled : (before ++ front :: after).Perm (front :: (before ++ after)) := perm_middle
        have same := all _ (Reorder.map_perm kind shuffled)
        rw [encode, encode, shuffled.length_eq] at same
        have bytes := append_cancel_left same
        exact ⟨encodeEntries compact (before ++ after), by
          rw [← bytes, encodeEntries_eq_flatMap, encodeEntries_eq_flatMap, flatMap_cons]⟩
      obtain ⟨rest, first⟩ := leading entry member
      obtain ⟨rest', second⟩ := leading other member'
      exact encodeEntry_append_inj compact (keys entry member) (keys other member') (below entry member)
        (below other member') (first.symm.trans second)
    · intro entry member
      refine ih entry member (below entry member) ?_
      intro other reordered
      obtain ⟨before, after, rfl⟩ := append_of_mem member
      have same := all _ (reordered.map_value kind entry.1 before after)
      simpa [encode, encodeEntries_eq_flatMap, encodeEntry] using same

end ReticulumProtocols.Msgpack
