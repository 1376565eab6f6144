import ReticulumProtocols.Lxmf.Unpack
import ReticulumProtocols.Msgpack.OrderFree

/-! Which field trees survive normalisation. A decoded tree normalises exactly when every map key
converts to a byte; what arrives from a sender's tree normalises in every map order exactly when
the sender's own keys are of that kind. -/

namespace ReticulumProtocols.Lxmf
open Wire Msgpack List

/-- The keys of one decoded map convert to bytes. -/
def KeyNode : Value → Prop
  | .map kind entries => ∀ entry ∈ entries, ∃ key, normalizeKey kind entry.1 = .ok key
  | _ => True

theorem normalizeItems_ok_iff (items : List Value) :
    (∃ out, normalizeItems items = .ok out) ↔ ∀ item ∈ items, ∃ out, normalizeFieldValue item = .ok out := by
  induction items with
  | nil => simp [normalizeItems]
  | cons item items ih =>
    simp only [normalizeItems, bind_eq_ok, forall_mem_cons, ← ih, pure, Except.pure,
      Except.ok.injEq]
    constructor
    · rintro ⟨_, first, found, others, rest, _⟩
      exact ⟨⟨first, found⟩, others, rest⟩
    · rintro ⟨⟨first, found⟩, others, rest⟩
      exact ⟨_, first, found, others, rest, rfl⟩

theorem normalizeEntries_ok_iff (kind : MapKind) (entries : List (Scalar × Value)) :
    (∃ out, normalizeEntries kind entries = .ok out) ↔ ∀ entry ∈ entries,
      (∃ key, normalizeKey kind entry.1 = .ok key) ∧ ∃ out, normalizeFieldValue entry.2 = .ok out := by
  induction entries with
  | nil => simp [normalizeEntries]
  | cons entry entries ih =>
    obtain ⟨key, value⟩ := entry
    simp only [normalizeEntries, bind_eq_ok, forall_mem_cons, ← ih, pure, Except.pure,
      Except.ok.injEq]
    constructor
    · rintro ⟨_, byte, converted, first, found, others, rest, _⟩
      exact ⟨⟨⟨byte, converted⟩, first, found⟩, others, rest⟩
    · rintro ⟨⟨⟨byte, converted⟩, first, found⟩, others, rest⟩
      exact ⟨_, byte, converted, first, found, others, rest, rfl⟩

theorem normalize_ok_iff (value : Value) :
    (∃ out, normalizeFieldValue value = .ok out) ↔ Value.Everywhere KeyNode value := by
  induction value with
  | scalar s => exact iff_of_true ⟨_, rfl⟩ (.scalar trivial)
  | bytes data => exact iff_of_true ⟨_, rfl⟩ (.bytes trivial)
  | arr items ih =>
    have lists := normalizeItems_ok_iff items
    simp only [normalizeFieldValue, bind_eq_ok, pure, Except.pure, Except.ok.injEq]
    constructor
    · rintro ⟨_, out, found, _⟩
      exact .arr trivial fun item member => (ih item member).mp (lists.mp ⟨out, found⟩ item member)
    · intro keyed
      obtain ⟨out, found⟩ := lists.mpr fun item member => (ih item member).mpr (keyed.elements item member)
      exact ⟨_, out, found, rfl⟩
  | map kind entries ih =>
    have lists := normalizeEntries_ok_iff kind entries
    simp only [normalizeFieldValue, bind_eq_ok, pure, Except.pure, Except.ok.injEq]
    constructor
    · rintro ⟨_, out, found, _⟩
      have each := lists.mp ⟨out, found⟩
      exact .map (fun entry member => (each entry member).1)
        fun entry member => (ih entry member).mp (each entry member).2
    · intro keyed
      obtain ⟨out, found⟩ := lists.mpr fun entry member =>
        ⟨keyed.here entry member, (ih entry member).mpr (keyed.values entry member)⟩
      exact ⟨_, out, found, rfl⟩

theorem KeyNode.reorder {value other : Value} (reordered : Reorder value other)
    (keyed : Value.Everywhere KeyNode value) : Value.Everywhere KeyNode other := by
  refine Value.Everywhere.reorder (fun _ _ _ _ => trivial) ?_ reordered keyed
  intro kind entries others _ keys here entry member
  obtain ⟨original, inside, key⟩ := keys entry member
  rw [← key]
  exact here original inside

/-- A key of the sender that the receiver turns into a byte. -/
def ByteKey : Scalar → Prop
  | .int n => 0 ≤ n.val ∧ n.val ≤ 0xff
  | .str text => ∃ key, fieldKeyFromString text = .ok key
  | _ => False

def ByteKeyedNode : Value → Prop
  | .map _ entries => ∀ entry ∈ entries, ByteKey entry.1
  | _ => True

/-- Every map of a sender's tree has keys that the receiver can normalise. -/
abbrev ByteKeyed : Value → Prop := Value.Everywhere ByteKeyedNode

theorem wireKind_sized (n : GoInt) : wireKind true n ≠ .int ∧ wireKind true n ≠ .uint := by
  unfold wireKind intKind uintKind
  simp only [IntKind.shortest, Bool.true_or, if_true]
  split_ifs <;> decide

theorem asByteKey_viewInt (n : GoInt) (low : 0 ≤ n.val) (high : n.val ≤ 0xff) :
    asByteKey (.int (viewInt true false n)) = .ok (UInt8.ofNat n.val.toNat) := by
  have kind : (viewInt true false n).kind = wireKind true n := rfl
  have sized := wireKind_sized n
  rw [asByteKey, kind, viewInt_val, if_neg (by tauto), if_neg (by omega)]

theorem normalizeKey_view_iff (key : Scalar) :
    (∃ byte, normalizeKey .any (viewScalar true false key) = .ok byte) ↔ ByteKey key := by
  have untyped (key : Scalar) : normalizeKey .any key = asByteKey key := by cases key <;> rfl
  rw [untyped]
  cases key with
  | int n =>
    constructor
    · rintro ⟨byte, converted⟩
      by_contra outside
      have kind : (viewInt true false n).kind = wireKind true n := rfl
      have sized := wireKind_sized n
      have range : n.val < 0 ∨ 0xff < n.val := by
        simp only [ByteKey] at outside
        omega
      rw [viewScalar, asByteKey, kind, viewInt_val, if_neg (by tauto), if_pos range] at converted
      cases converted
    · intro inside
      exact ⟨_, asByteKey_viewInt n inside.1 inside.2⟩
  | str text => exact Iff.rfl
  | nil => simp [viewScalar, asByteKey, ByteKey]
  | bool value => simp [viewScalar, asByteKey, ByteKey]
  | float32 bits => simp [viewScalar, asByteKey, ByteKey]
  | float64 bits => simp [viewScalar, asByteKey, ByteKey]
  | time value => simp [viewScalar, asByteKey, ByteKey]

theorem ByteKeyed.reorder {value other : Value} (reordered : Reorder value other)
    (keyed : ByteKeyed value) : ByteKeyed other := by
  refine Value.Everywhere.reorder (fun _ _ _ _ => trivial) ?_ reordered keyed
  intro kind entries others _ keys here entry member
  obtain ⟨original, inside, key⟩ := keys entry member
  rw [← key]
  exact here original inside

theorem keyNode_view_of_byteKeyed (loose : Bool) (value : Value) (keyed : ByteKeyed value) :
    Value.Everywhere KeyNode (view true true loose value) := by
  induction value generalizing loose with
  | scalar s =>
    rw [view]
    exact .scalar trivial
  | bytes data =>
    rw [view]
    split
    · exact .scalar trivial
    · exact .bytes trivial
  | arr items ih =>
    rw [view, viewItems_eq_map]
    refine .arr trivial ?_
    intro item member
    obtain ⟨original, inside, rfl⟩ := mem_map.mp member
    exact ih original inside true (keyed.elements original inside)
  | map kind entries ih =>
    rw [view, viewEntries_eq_map]
    refine .map ?_ ?_
    · intro entry member
      obtain ⟨original, inside, rfl⟩ := mem_map.mp (mem_collect member)
      exact (normalizeKey_view_iff original.1).mpr (keyed.here original inside)
    · intro entry member
      obtain ⟨original, inside, rfl⟩ := mem_map.mp (mem_collect member)
      exact ih original inside false (keyed.values original inside)

/-- A key that cannot be normalised shows in some map order: the subtree that holds it may be
overwritten under a second key of the same wire form, but not when it is assigned last. -/
theorem exists_reorder_not_keyNode (loose : Bool) (value : Value) (bad : ¬ ByteKeyed value) :
    ∃ other, Reorder value other ∧ ¬ Value.Everywhere KeyNode (view true true loose other) := by
  induction value generalizing loose with
  | scalar s => exact absurd (.scalar trivial) bad
  | bytes data => exact absurd (.bytes trivial) bad
  | arr items ih =>
    have inner : ∃ item ∈ items, ¬ ByteKeyed item := by
      by_contra none
      push Not at none
      exact bad (.arr trivial none)
    obtain ⟨item, member, unkeyed⟩ := inner
    obtain ⟨other, reordered, unnormal⟩ := ih item member true unkeyed
    obtain ⟨before, after, rfl⟩ := append_of_mem member
    refine ⟨_, reordered.arr_item before after, ?_⟩
    rw [view, viewItems_eq_map]
    intro all
    exact unnormal (all.elements _ (by simp))
  | map kind entries ih =>
    by_cases keys : ∀ entry ∈ entries, ByteKey entry.1
    · have inner : ∃ entry ∈ entries, ¬ ByteKeyed entry.2 := by
        by_contra none
        push Not at none
        exact bad (.map keys none)
      obtain ⟨⟨key, value⟩, member, unkeyed⟩ := inner
      obtain ⟨other, reordered, unnormal⟩ := ih _ member false unkeyed
      obtain ⟨before, after, rfl⟩ := append_of_mem member
      have shuffled : (before ++ (key, other) :: after).Perm (before ++ after ++ [(key, other)]) :=
        perm_middle.trans (perm_append_singleton _ _).symm
      refine ⟨_, (reordered.map_value kind key before after).trans_perm shuffled, ?_⟩
      rw [view, viewEntries_eq_map, map_append, map_singleton]
      intro all
      exact unnormal (all.values _ (last_mem_collect _ _))
    · push Not at keys
      obtain ⟨entry, member, unkeyed⟩ := keys
      refine ⟨_, Reorder.refl _, ?_⟩
      rw [view, viewEntries_eq_map]
      intro all
      obtain ⟨kept, inside, same⟩ :=
        key_mem_collect (mem_map_of_mem (f := viewEntry true true) member)
      have converted := all.here kept inside
      rw [same] at converted
      exact unkeyed ((normalizeKey_view_iff entry.1).mp converted)

end ReticulumProtocols.Lxmf
