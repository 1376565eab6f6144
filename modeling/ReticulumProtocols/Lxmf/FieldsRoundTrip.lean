import ReticulumProtocols.Lxmf.PackIdentity

/-! What becomes of the fields on their way. Trees are compared entry by entry, up to map order and
the Go type of integers. A byte slice that is an array element is decoded loosely and arrives as a
string; everything else in a field tree arrives as it was sent. -/

namespace ReticulumProtocols.Lxmf
open Wire Msgpack Sha256 List AList
variable {value result : Value}

/-- Scalars that differ at most in the Go type of an integer. -/
inductive Alike : Scalar → Scalar → Prop where
  | same (s : Scalar) : Alike s s
  | int (n other : GoInt) (value : n.val = other.val) : Alike (.int n) (.int other)

/-- The second tree is the first one in some map order and with integers of some width; `text` says
what a byte slice has become, as an array element (`true`) or elsewhere (`false`). -/
inductive Carried (text : Bool → Bytes → Value) : Bool → Value → Value → Prop where
  | scalar (element : Bool) (s other : Scalar) (alike : Alike s other) :
      Carried text element (.scalar s) (.scalar other)
  | bytes (element : Bool) (data : Bytes) : Carried text element (.bytes data) (text element data)
  | arr (element : Bool) (items others : List Value) (same : items.length = others.length)
      (each : ∀ pair ∈ items.zip others, Carried text true pair.1 pair.2) :
      Carried text element (.arr items) (.arr others)
  | map (element : Bool) (entries between others : List (Scalar × Value))
      (keys : entries.map Prod.fst = between.map Prod.fst)
      (each : ∀ pair ∈ entries.zip between, Carried text false pair.1.2 pair.2.2)
      (shuffled : between.Perm others) : Carried text element (.map .byte entries) (.map .byte others)

/-- Equality up to map order and integer width. -/
abbrev UpToWidth : Value → Value → Prop := Carried (fun _ data => .bytes data) false

/-- What loose decoding does to a byte slice. -/
def arrivedText (element : Bool) (data : Bytes) : Value := if element then .str data else .bytes data

section
variable {text : Bool → Bytes → Value} {element : Bool}

theorem carried_arr_iff {items : List Value} {other : Value} :
    Carried text element (.arr items) other ↔
      ∃ others, other = .arr others ∧ List.Forall₂ (Carried text true) items others := by
  constructor
  · intro carried
    cases carried with
    | arr _ _ others same each =>
      exact ⟨others, rfl, forall₂_iff_zip.mpr ⟨same, fun member => each _ member⟩⟩
  · rintro ⟨others, rfl, each⟩
    obtain ⟨same, each⟩ := forall₂_iff_zip.mp each
    exact .arr element items others same fun pair member => each member

theorem carried_map_iff {entries : List (Scalar × Value)} {other : Value} :
    Carried text element (.map .byte entries) other ↔
      ∃ between others, other = .map .byte others ∧
        List.Forall₂ (fun entry arrived => entry.1 = arrived.1 ∧ Carried text false entry.2 arrived.2)
          entries between ∧ between.Perm others := by
  constructor
  · intro carried
    cases carried with
    | map _ _ between others keys each shuffled =>
      exact ⟨between, others, rfl, forall₂_entries_iff.mpr ⟨keys, each⟩, shuffled⟩
  · rintro ⟨between, others, rfl, each, shuffled⟩
    obtain ⟨keys, each⟩ := forall₂_entries_iff.mp each
    exact .map element entries between others keys each shuffled

end

/-- The nodes of a field tree: nil, booleans, integers, strings, byte slices, arrays and maps with
distinct byte keys. -/
def FieldNode : Value → Prop
  | .scalar .nil | .scalar (.bool _) | .scalar (.int _) | .scalar (.str _) | .bytes _ | .arr _ => True
  | .map .byte entries => (∀ entry ∈ entries, ∃ key, entry.1 = byteKey key) ∧ (entries.map Prod.fst).Nodup
  | _ => False

abbrev FieldTree : Value → Prop := Value.Everywhere FieldNode

/-- Distinct keys that are bytes. -/
def ByteKeys (entries : List (Scalar × Value)) : Prop :=
  (∀ entry ∈ entries, ∃ key, entry.1 = byteKey key) ∧ (entries.map Prod.fst).Nodup

theorem FieldNode.byteKeys {kind : MapKind} {entries : List (Scalar × Value)} (node : FieldNode (.map kind entries)) :
    kind = .byte ∧ ByteKeys entries := by
  cases kind with
  | byte => exact ⟨rfl, node⟩
  | any | string => cases node

theorem alike_viewScalar {s : Scalar} (node : FieldNode (.scalar s)) (loose : Bool) :
    Alike s (viewScalar true loose s) := by
  cases s with
  | int n => exact .int n _ (viewInt_val true loose n).symm
  | nil | bool | str => exact .same _
  | float32 | float64 | time => cases node

theorem forall₂_comp {α β γ : Type} {first : α → β → Prop} {second : β → γ → Prop} {xs : List α} {ys : List β}
    {zs : List γ} (left : List.Forall₂ first xs ys) (right : List.Forall₂ second ys zs) :
    List.Forall₂ (fun x z => ∃ y, first x y ∧ second y z) xs zs := by
  induction left generalizing zs with
  | nil => rw [forall₂_nil_left_iff.mp right]; exact .nil
  | cons here _ ih =>
    obtain ⟨z, others, next, rest, rfl⟩ := forall₂_cons_left_iff.mp right
    exact .cons ⟨_, here, next⟩ (ih rest)

theorem forall₂_mem_left {α β : Type} {related : α → β → Prop} {xs : List α} {ys : List β}
    (each : List.Forall₂ related xs ys) {x : α} (member : x ∈ xs) : ∃ y ∈ ys, related x y := by
  have flipped : List.Forall₂ (flip related) ys xs := List.Forall₂.flip each
  exact forall₂_mem_right flipped member

theorem forall₂_imp_mem {α β : Type} {first second : α → β → Prop} {xs : List α} {ys : List β}
    (each : List.Forall₂ first xs ys) (step : ∀ x ∈ xs, ∀ y, first x y → second x y) : List.Forall₂ second xs ys := by
  have members := (forall₂_and_left _ _).mpr ⟨fun x (member : x ∈ xs) => member, each⟩
  exact members.imp fun x y ⟨member, holds⟩ => step x member y holds

theorem normalizeItems_forall₂ {items out : List Value} (normal : normalizeItems items = .ok out) :
    List.Forall₂ (fun item arrived => normalizeFieldValue item = .ok arrived) items out := by
  induction items generalizing out with
  | nil =>
    cases normal
    exact .nil
  | cons item items ih =>
    simp only [normalizeItems, bind_eq_ok, pure, Except.pure, Except.ok.injEq] at normal
    obtain ⟨first, found, others, rest, rfl⟩ := normal
    exact .cons found (ih rest)

theorem normalizeEntries_forall₂ {kind : MapKind} {entries out : List (Scalar × Value)}
    (normal : normalizeEntries kind entries = .ok out) :
    List.Forall₂ (fun entry arrived => ∃ key, normalizeKey kind entry.1 = .ok key ∧ arrived.1 = byteKey key ∧
      normalizeFieldValue entry.2 = .ok arrived.2) entries out := by
  induction entries generalizing out with
  | nil =>
    cases normal
    exact .nil
  | cons entry entries ih =>
    obtain ⟨key, value⟩ := entry
    simp only [normalizeEntries, bind_eq_ok, pure, Except.pure, Except.ok.injEq] at normal
    obtain ⟨byte, converted, first, found, others, rest, rfl⟩ := normal
    exact .cons ⟨byte, converted, rfl, found⟩ (ih rest)

theorem normalizeKey_byteKey (key : UInt8) : normalizeKey .any (viewScalar true false (byteKey key)) = .ok key := by
  have bound := key.toNat_lt
  have read := asByteKey_viewInt (.of .uint8 key.toNat) (by rw [byteKey_val]; omega) (by rw [byteKey_val]; omega)
  rw [byteKey_val, Int.toNat_natCast, UInt8.ofNat_toNat] at read
  exact read

theorem byteKey_injective {key other : UInt8} (same : byteKey key = byteKey other) : key = other := by
  have read := normalizeKey_byteKey key
  rw [same, normalizeKey_byteKey] at read
  exact (Except.ok.inj read).symm

theorem viewEntry_keys_nodup {entries : List (Scalar × Value)} (keys : ByteKeys entries) :
    ((entries.map (viewEntry true true)).map Prod.fst).Nodup := by
  have views : (entries.map (viewEntry true true)).map Prod.fst =
      (entries.map Prod.fst).map (viewScalar true false) := by
    rw [map_map, map_map]
    rfl
  rw [views]
  apply keys.2.map_on
  intro first member second member' same
  obtain ⟨entry, inside, rfl⟩ := List.mem_map.mp member
  obtain ⟨other, inside', rfl⟩ := List.mem_map.mp member'
  obtain ⟨key, isKey⟩ := keys.1 entry inside
  obtain ⟨key', isKey'⟩ := keys.1 other inside'
  have read := normalizeKey_byteKey key
  rw [← isKey, same, isKey', normalizeKey_byteKey] at read
  rw [isKey, isKey', Except.ok.inj read]

/-- What can become of a value on its way: the sender's map order, decoding, the receiver's map order
and normalisation. -/
def Travels (element : Bool) (value result : Value) : Prop :=
  ∃ shipped decoded, Reorder value shipped ∧ Reorder (view true true element shipped) decoded ∧
    normalizeFieldValue decoded = .ok result

theorem ByteKeys.reorder {entries between others : List (Scalar × Value)} (keys : ByteKeys entries)
    (each : List.Forall₂ ReorderEntry entries between) (shuffled : between.Perm others) : ByteKeys others := by
  constructor
  · intro entry member
    obtain ⟨original, inside, related⟩ := reorder_map_mem each shuffled member
    rw [← related.1]
    exact keys.1 original inside
  · rw [← (shuffled.map Prod.fst).nodup_iff, ← (forall₂_entries_iff.mp each).1]
    exact keys.2

/-- Entries with distinct byte keys travel one by one. -/
theorem travels_entries {entries : List (Scalar × Value)} {shipped decoded : Value} {element : Bool}
    (keys : ByteKeys entries) (visited : Reorder (.map .byte entries) shipped)
    (visited' : Reorder (view true true element shipped) decoded) :
    ∃ arrived, decoded = .map .any arrived ∧ ∀ out, normalizeEntries .any arrived = .ok out →
      ByteKeys out ∧ ∃ listed, listed.Perm out ∧
        List.Forall₂ (fun entry arrived => entry.1 = arrived.1 ∧ Travels false entry.2 arrived.2) entries listed := by
  obtain ⟨between, others, rfl, each, shuffled⟩ := reorder_map_iff.mp visited
  rw [view, viewEntries_eq_map, collect_of_nodup (viewEntry_keys_nodup (keys.reorder each shuffled))] at visited'
  obtain ⟨middle, arrived, rfl, each', shuffled'⟩ := reorder_map_iff.mp visited'
  refine ⟨arrived, rfl, ?_⟩
  intro out normal
  -- move both permutations behind the pointwise steps
  obtain ⟨visited, decoded, toMiddle⟩ := perm_comp_forall₂ shuffled (forall₂_map_left_iff.mp each')
  obtain ⟨listed, normalized, toOut⟩ :=
    perm_comp_forall₂ (toMiddle.trans shuffled') (normalizeEntries_forall₂ normal)
  have final : List.Forall₂ (fun entry arrived => entry.1 = arrived.1 ∧ Travels false entry.2 arrived.2)
      entries listed := by
    refine forall₂_imp_mem (forall₂_comp (forall₂_comp each decoded) normalized) ?_
    rintro entry member arrived ⟨step, ⟨sent, reordered, viewed⟩, key, converted, named, value⟩
    obtain ⟨original, isKey⟩ := keys.1 entry member
    have sameKey : step.1 = viewScalar true false (byteKey original) := by
      rw [← viewed.1, ← isKey, reordered.1]
      rfl
    rw [sameKey, normalizeKey_byteKey] at converted
    refine ⟨?_, sent.2, step.2, reordered.2, viewed.2, value⟩
    rw [isKey, named, Except.ok.inj converted]
  refine ⟨⟨?_, ?_⟩, listed, toOut, final⟩
  · intro entry member
    obtain ⟨_, _, key, _, named, _⟩ := forall₂_mem_right (normalizeEntries_forall₂ normal) member
    exact ⟨key, named⟩
  · rw [← (toOut.map Prod.fst).nodup_iff, ← (forall₂_entries_iff.mp final).1]
    exact keys.2

/-- Whatever orders sender and receiver use, a field tree arrives as itself, up to the loose strings. -/
theorem carried_of_travels {element : Bool} (tree : FieldTree value)
    (travels : Travels element value result) : Carried arrivedText element value result := by
  induction value generalizing element result with
  | scalar s =>
    obtain ⟨shipped, decoded, visited, visited', normal⟩ := travels
    rw [reorder_scalar_iff.mp visited, view] at visited'
    rw [reorder_scalar_iff.mp visited', normalizeFieldValue] at normal
    cases normal
    exact .scalar element s _ (alike_viewScalar tree.here element)
  | bytes data =>
    obtain ⟨shipped, decoded, visited, visited', normal⟩ := travels
    have text : decoded = arrivedText element data := by
      rw [reorder_bytes_iff.mp visited, view] at visited'
      unfold arrivedText
      cases element with
      | true => exact reorder_scalar_iff.mp visited'
      | false => exact reorder_bytes_iff.mp visited'
    have kept : normalizeFieldValue (arrivedText element data) = .ok (arrivedText element data) := by
      unfold arrivedText
      cases element <;> rfl
    rw [text, kept] at normal
    cases normal
    exact .bytes element data
  | arr items ih =>
    obtain ⟨shipped, decoded, visited, visited', normal⟩ := travels
    obtain ⟨others, rfl, each⟩ := reorder_arr_iff.mp visited
    rw [view, viewItems_eq_map] at visited'
    obtain ⟨arrived, rfl, each'⟩ := reorder_arr_iff.mp visited'
    simp only [normalizeFieldValue, bind_eq_ok, pure, Except.pure, Except.ok.injEq] at normal
    obtain ⟨out, found, rfl⟩ := normal
    refine carried_arr_iff.mpr ⟨out, rfl, forall₂_imp_mem
      (forall₂_comp (forall₂_comp each (forall₂_map_left_iff.mp each')) (normalizeItems_forall₂ found)) ?_⟩
    rintro item member result ⟨step, ⟨sent, reordered, viewed⟩, value⟩
    exact ih item member (tree.elements item member) ⟨sent, step, reordered, viewed, value⟩
  | map kind entries ih =>
    obtain ⟨rfl, keys⟩ := tree.here.byteKeys
    obtain ⟨shipped, decoded, visited, visited', normal⟩ := travels
    obtain ⟨arrived, rfl, step⟩ := travels_entries keys visited visited'
    simp only [normalizeFieldValue, bind_eq_ok, pure, Except.pure, Except.ok.injEq] at normal
    obtain ⟨out, found, rfl⟩ := normal
    obtain ⟨keysOut, listed, toOut, travels⟩ := step out found
    rw [collect_of_nodup keysOut.2]
    refine carried_map_iff.mpr ⟨listed, out, rfl, forall₂_imp_mem travels ?_, toOut⟩
    rintro entry member arrived ⟨same, travels⟩
    exact ⟨same, ih entry member (tree.values entry member) travels⟩

theorem toFields_concat (out : List (Scalar × Value)) (key : UInt8) (value : Value) :
    toFields (out ++ [(byteKey key, value)]) = (toFields out).insert key value := by
  have byte : UInt8.ofNat (GoInt.of .uint8 key.toNat).val.toNat = key := by
    rw [byteKey_val, Int.toNat_natCast, UInt8.ofNat_toNat]
  rw [toFields, foldl_append]
  show (toFields out).insert (UInt8.ofNat (GoInt.of .uint8 key.toNat).val.toNat) value = _
  rw [byte]

theorem toFields_entries {out : List (Scalar × Value)} (keys : ByteKeys out) :
    out.Perm ((toFields out).entries.map fun entry => (byteKey entry.1, entry.2)) := by
  induction out using List.reverseRecOn with
  | nil => exact List.Perm.refl _
  | append_singleton out last ih =>
    obtain ⟨_, value⟩ := last
    obtain ⟨keys, distinct⟩ := keys
    obtain ⟨key, rfl⟩ := keys _ (mem_append_right out (mem_singleton_self _))
    rw [map_append, map_singleton, nodup_append] at distinct
    have earlier := ih ⟨fun entry member => keys entry (by simp [member]), distinct.1⟩
    have fresh : key ∉ toFields out := by
      intro member
      obtain ⟨value', inside⟩ := exists_of_mem_keys (mem_keys.mp member)
      have listed := earlier.mem_iff.mpr (mem_map_of_mem inside)
      exact distinct.2.2 _ (mem_map_of_mem listed) _ (by simp) rfl
    rw [toFields_concat, entries_insert_of_notMem fresh, map_cons]
    exact (perm_append_singleton _ _).trans (earlier.cons _)

theorem fields_keys (fields : Fields) : ByteKeys (fields.entries.map fun entry => (byteKey entry.1, entry.2)) := by
  constructor
  · intro entry member
    obtain ⟨original, _, rfl⟩ := List.mem_map.mp member
    exact ⟨original.1, rfl⟩
  · have keys : (fields.entries.map fun entry => (byteKey entry.1, entry.2)).map Prod.fst =
        fields.keys.map byteKey := by
      rw [map_map, AList.keys, List.keys, map_map]
      rfl
    rw [keys]
    exact fields.keys_nodup.map fun _ _ same => byteKey_injective same

/-- The fields a receiver ends up with are the sender's, each after its journey. -/
theorem travels_asFields {fields : Fields} {shipped decoded : Value} {out : Fields}
    (visited : Reorder (fieldsValue (some fields)) shipped) (visited' : Reorder (view true true false shipped) decoded)
    (converted : asFields decoded = .ok out) :
    ∃ listed, List.Forall₂ (fun entry arrived => entry.1 = arrived.1 ∧ Travels false entry.2 arrived.2)
        (fields.entries.map fun entry => (byteKey entry.1, entry.2)) listed ∧
      listed.Perm (out.entries.map fun entry => (byteKey entry.1, entry.2)) := by
  obtain ⟨arrived, rfl, step⟩ := travels_entries (fields_keys fields) visited visited'
  simp only [asFields, bind_eq_ok, pure, Except.pure, Except.ok.injEq] at converted
  obtain ⟨normal, found, rfl⟩ := converted
  obtain ⟨keysOut, listed, toNormal, travels⟩ := step normal found
  exact ⟨listed, travels, toNormal.trans (toFields_entries keysOut)⟩

theorem mem_fields_iff (fields : Fields) (key : UInt8) (value : Value) :
    (byteKey key, value) ∈ (fields.entries.map fun entry => (byteKey entry.1, entry.2)) ↔
      fields.lookup key = some value := by
  rw [← Option.mem_def, mem_lookup_iff, mem_map]
  constructor
  · rintro ⟨entry, member, same⟩
    obtain ⟨isKey, rfl⟩ := Prod.mk.inj same
    rwa [← byteKey_injective isKey]
  · intro member
    exact ⟨_, member, rfl⟩

theorem travels_lookup {fields : Fields} {shipped decoded : Value} {out : Fields}
    (visited : Reorder (fieldsValue (some fields)) shipped) (visited' : Reorder (view true true false shipped) decoded)
    (converted : asFields decoded = .ok out) {key : UInt8} {value : Value} (found : fields.lookup key = some value) :
    ∃ result, out.lookup key = some result ∧ Travels false value result := by
  obtain ⟨listed, travels, toOut⟩ := travels_asFields visited visited' converted
  obtain ⟨arrived, inside, same, result⟩ := forall₂_mem_left travels ((mem_fields_iff fields key value).mpr found)
  have pair : (byteKey key, arrived.2) = arrived := Prod.ext same rfl
  refine ⟨arrived.2, (mem_fields_iff out key arrived.2).mp ?_, result⟩
  rw [pair]
  exact toOut.mem_iff.mp inside

/-- No byte slice is an array element. -/
def PlainNode : Value → Prop
  | .arr items => ∀ data, .bytes data ∉ items
  | _ => True

abbrev Plain : Value → Prop := Value.Everywhere PlainNode

theorem upToWidth_of_plain {element : Bool} (carried : Carried arrivedText element value result)
    (plain : Plain value) (outside : element = true → ∀ data, value ≠ .bytes data) :
    Carried (fun _ data => .bytes data) element value result := by
  induction value generalizing element result with
  | scalar s =>
    cases carried with
    | scalar _ _ other alike => exact .scalar element s other alike
  | bytes data =>
    cases carried with
    | bytes _ _ =>
    cases element with
    | false => exact .bytes false data
    | true => exact absurd rfl (outside rfl data)
  | arr items ih =>
    obtain ⟨others, rfl, each⟩ := carried_arr_iff.mp carried
    refine carried_arr_iff.mpr ⟨others, rfl, forall₂_imp_mem each ?_⟩
    intro item member other carried
    refine ih item member carried (plain.elements item member) ?_
    rintro _ data rfl
    exact plain.here data member
  | map kind entries ih =>
    cases kind with
    | any | string => cases carried
    | byte =>
    obtain ⟨between, others, rfl, each, shuffled⟩ := carried_map_iff.mp carried
    refine carried_map_iff.mpr ⟨between, others, rfl, forall₂_imp_mem each ?_, shuffled⟩
    rintro entry member other ⟨same, carried⟩
    exact ⟨same, ih entry member carried (plain.values entry member) (by simp)⟩

/-- A tree that arrives unchanged had no byte slice for loose decoding to turn into a string. -/
theorem plain_of_upToWidth {element : Bool} (tree : FieldTree value)
    (arrived : Carried arrivedText element value result)
    (same : Carried (fun _ data => .bytes data) element value result) :
    Plain value ∧ (element = true → ∀ data, value ≠ .bytes data) := by
  induction value generalizing element result with
  | scalar s => exact ⟨.scalar trivial, by simp⟩
  | bytes data =>
    refine ⟨.bytes trivial, ?_⟩
    rintro rfl
    cases arrived with
    | bytes _ _ => cases same
  | arr items ih =>
    obtain ⟨others, rfl, each⟩ := carried_arr_iff.mp arrived
    obtain ⟨_, sameList, each'⟩ := carried_arr_iff.mp same
    cases sameList
    have both : List.Forall₂ (fun item other => Carried arrivedText true item other ∧
        Carried (fun _ data => .bytes data) true item other) items others :=
      List.Forall₂.mp (fun _ _ => And.intro) each each'
    have inner (item : Value) (member : item ∈ items) : Plain item ∧ ∀ data, item ≠ .bytes data := by
      obtain ⟨other, _, arrived, same⟩ := forall₂_mem_left both member
      have whole := ih item member (tree.elements item member) arrived same
      exact ⟨whole.1, whole.2 rfl⟩
    refine ⟨.arr ?_ fun item member => (inner item member).1, by simp⟩
    intro data member
    exact (inner _ member).2 data rfl
  | map kind entries ih =>
    obtain ⟨rfl, keys⟩ := tree.here.byteKeys
    obtain ⟨between, others, rfl, each, shuffled⟩ := carried_map_iff.mp arrived
    obtain ⟨between', _, sameList, each', shuffled'⟩ := carried_map_iff.mp same
    cases sameList
    have distinct : (others.map Prod.fst).Nodup := by
      rw [← (shuffled.map Prod.fst).nodup_iff, ← (forall₂_entries_iff.mp each).1]
      exact keys.2
    refine ⟨.map trivial ?_, by simp⟩
    intro entry member
    obtain ⟨first, inside, key, arrived⟩ := forall₂_mem_left each member
    obtain ⟨second, inside', key', same⟩ := forall₂_mem_left each' member
    have equal : first = second := inj_on_of_nodup_map distinct (shuffled.mem_iff.mp inside)
      (shuffled'.mem_iff.mp inside') (key.symm.trans key')
    subst equal
    exact (ih entry member (tree.values entry member) arrived same).1

/-- Unpacking what `Pack` made yields, in every map order, fields equal to the sender's up to the width
of integers; a nil map counts as empty. -/
def FieldsSurvive (m : LXMessage) (id : Identity) (resolver : Option SourceResolver) (now : UInt64) : Prop :=
  ∀ first second order, ∃ sent packed received error, m.pack (some id) now first second = (sent, .ok packed) ∧
    unpack packed resolver order = (some received, error) ∧
    ∃ fields, received.fields = some fields ∧
      UpToWidth (fieldsValue (some (m.fields.getD ∅))) (fieldsValue (some fields))

/-- Byte-keyed maps have keys the receiver can normalise. -/
theorem FieldTree.byteKeyed {value : Value} (tree : FieldTree value) : ByteKeyed value := by
  induction value with
  | scalar s => exact .scalar trivial
  | bytes data => exact .bytes trivial
  | arr items ih => exact .arr trivial fun item member => ih item member (tree.elements item member)
  | map kind entries ih =>
    refine .map ?_ fun entry member => ih entry member (tree.values entry member)
    intro entry member
    obtain ⟨key, isKey⟩ := tree.here.byteKeys.2.1 entry member
    rw [isKey]
    exact byteKey_isByte key

/-- The fields that arrive, in any order; a nil map arrives empty. -/
theorem carried_arrival {fields : Option Fields} (tree : FieldTree (fieldsValue fields)) {shipped : Value}
    (visited : Reorder (fieldsValue fields) shipped) {order : MapOrder} {out : Fields}
    (converted : asFields (order.run (view true true false shipped)) = .ok out) :
    Carried arrivedText false (fieldsValue (some (fields.getD ∅))) (fieldsValue (some out)) := by
  have visited' := order.reorders (view true true false shipped)
  cases fields with
  | none =>
    rw [reorder_scalar_iff.mp visited] at visited' converted
    rw [reorder_scalar_iff.mp visited'] at converted
    cases converted
    exact .map false [] [] [] rfl (by simp) (List.Perm.refl _)
  | some fields =>
    obtain ⟨listed, travels, toOut⟩ := travels_asFields visited visited' converted
    refine carried_map_iff.mpr ⟨listed, _, rfl, forall₂_imp_mem travels ?_, toOut⟩
    rintro entry member arrived ⟨same, travels⟩
    exact ⟨same, carried_of_travels (tree.values entry member) travels⟩

theorem everywhere_getD {node : Value → Prop} (empty : node (.map .byte [])) (none : node .nil)
    (fields : Option Fields) :
    Value.Everywhere node (fieldsValue (some (fields.getD ∅))) ↔ Value.Everywhere node (fieldsValue fields) := by
  cases fields with
  | none =>
    exact iff_of_true (.map empty (by simp)) (.scalar none)
  | some fields => exact Iff.rfl

theorem fieldTree_of_values {fields : Option Fields}
    (trees : ∀ map ∈ fields, ∀ entry ∈ map.entries, FieldTree entry.2) : FieldTree (fieldsValue fields) := by
  cases fields with
  | none => exact .scalar trivial
  | some fields =>
    refine .map (fields_keys fields) ?_
    intro entry member
    obtain ⟨original, inside, rfl⟩ := List.mem_map.mp member
    exact trees fields rfl original inside

section
variable {m : LXMessage} {id : Identity} {resolver : Option SourceResolver} {now : UInt64}
variable (addressed : m.Addressed) (timed : m.stampTime now = m) (sized : m.Sized)
variable (signs : ∀ part ∈ m.signedParts, ∃ signature, id.sign part = some signature ∧ signature.length = signatureLength)
variable (answers : ∀ resolve, resolver = some resolve → ∃ source, resolve m.sourceHash = .ok source)
variable (tree : FieldTree (fieldsValue m.fields))

include addressed sized answers tree

theorem unpack_fields {hashed shipped : Value} {signature : Bytes} (length : signature.length = signatureLength)
    (visited : Reorder (fieldsValue m.fields) shipped) (fits : Fits payloadDecoder 0 0 shipped) (order : MapOrder) :
    ∃ received error out, unpack (m.packedAs hashed shipped signature).packed resolver order = (some received, error) ∧
      received.fields = some out ∧ asFields (order.run (view true true false shipped)) = .ok out := by
  obtain ⟨out, converted⟩ := asFields_of_byteKeyed visited tree.byteKeyed order
  have unpacked := unpackFromBytes_delivered addressed length sized visited fits resolver order
  rw [converted] at unpacked
  obtain ⟨received, error, verified, _, _, fields⟩ :=
    verifySource_returns (m.arrival shipped out signature) (m.signedAs shipped) answers
  refine ⟨received, error, out, ?_, fields, converted⟩
  rw [unpack_packedAs addressed length, unpacked]
  exact verified

include timed signs

theorem fieldsSurvive_of_plain (fits : Fits payloadDecoder 0 0 (fieldsValue m.fields))
    (plain : Plain (fieldsValue m.fields)) : FieldsSurvive m id resolver now := by
  intro first second order
  obtain ⟨hashed, shipped, signature, _, visited, _, _, length, packed⟩ :=
    pack_form addressed timed first second signs
  obtain ⟨received, error, out, unpacked, fields, converted⟩ :=
    unpack_fields addressed sized answers tree length visited (fits.reorder visited) order
  refine ⟨_, _, received, error, packed, unpacked, out, fields, ?_⟩
  exact upToWidth_of_plain (carried_arrival tree visited converted)
    ((everywhere_getD trivial trivial m.fields).mpr plain) (by simp)

theorem plain_of_fieldsSurvive (survive : FieldsSurvive m id resolver now) :
    Fits payloadDecoder 0 0 (fieldsValue m.fields) ∧ Plain (fieldsValue m.fields) := by
  obtain ⟨signature, signed, length⟩ := signs _ (m.signedAs_mem (Reorder.refl _))
  obtain ⟨first, second, packed⟩ := exists_pack_form addressed timed (Reorder.refl _) (Reorder.refl _)
    (fun _ => rfl) signed length
  obtain ⟨_, _, received, error, sent, unpacked, out, fields, same⟩ := survive first second MapOrder.listed
  rw [packed] at sent
  cases sent
  have decodable := unpacked
  rw [unpack_packedAs addressed length] at decodable
  have fits := (decodable_of_unpacked addressed length sized (Reorder.refl _) decodable).1
  refine ⟨fits, ?_⟩
  obtain ⟨received', error', out', unpacked', fields', converted⟩ :=
    unpack_fields addressed sized answers tree length (Reorder.refl _) fits MapOrder.listed
  rw [unpacked'] at unpacked
  cases unpacked
  rw [fields'] at fields
  cases fields
  have tree' := (everywhere_getD ⟨by simp, by simp⟩ trivial m.fields).mpr tree
  have plain := (plain_of_upToWidth tree' (carried_arrival tree (Reorder.refl _) converted) same).1
  exact (everywhere_getD trivial trivial m.fields).mp plain

end

section
variable {m : LXMessage} {id : Identity} {resolver : Option SourceResolver} {now : UInt64}
variable (destination : m.destinationHash.length = destinationLength)
variable (source : m.sourceHash.length = destinationLength)
variable (sized : m.Sized)
variable (signs : ∀ part ∈ (m.stampTime now).signedParts,
  ∃ signature, id.sign part = some signature ∧ signature.length = signatureLength)
variable (answers : ∀ resolve, resolver = some resolve → ∃ source, resolve m.sourceHash = .ok source)
variable (trees : ∀ map ∈ m.fields, ∀ entry ∈ map.entries, FieldTree entry.2)

include destination source sized signs answers trees

/-- Field trees survive exactly when they stay within the decoder's limits and no byte slice is an
array element. -/
theorem fieldsSurvive_iff : FieldsSurvive m id resolver now ↔
    Fits payloadDecoder 0 0 (fieldsValue m.fields) ∧ Plain (fieldsValue m.fields) := by
  -- it is as good to pack the message once it has its time
  have addressed := LXMessage.Addressed.stampTime ⟨destination, source⟩ now
  have timely : FieldsSurvive (m.stampTime now) id resolver now ↔ FieldsSurvive m id resolver now := by
    simp only [FieldsSurvive, LXMessage.pack_stampTime ⟨destination, source⟩, m.stampTime_fields]
  have timed := m.stampTime_stampTime now
  have sized := sized.stampTime now
  have tree := fieldTree_of_values trees
  rw [← m.stampTime_sourceHash now] at answers
  rw [← m.stampTime_fields now] at tree ⊢
  rw [← timely]
  constructor
  · exact plain_of_fieldsSurvive addressed timed sized signs answers tree
  · rintro ⟨fits, plain⟩
    exact fieldsSurvive_of_plain addressed timed sized signs answers tree fits plain

end

def oneField (value : Value) : LXMessage :=
  { stampedPair with stamp := [], fields := some ((∅ : Fields).insert 1 value) }

theorem oneField_value (value : Value) : fieldsValue (oneField value).fields = .map .byte [(byteKey 1, value)] := rfl

theorem oneField_sized {value : Value} (sized : value.Sized) : (oneField value).Sized := by
  refine ⟨nil_sized, nil_sized, ?_, by simp [oneField]⟩
  rw [oneField_value]
  refine .map ⟨by simp, by simp [byteKey, Scalar.Sized]⟩ ?_
  intro entry member
  rw [mem_singleton.mp member]
  exact sized

theorem oneField_trees {value : Value} (tree : FieldTree value) :
    ∀ map ∈ (oneField value).fields, ∀ entry ∈ map.entries, FieldTree entry.2 := by
  intro map member entry inside
  cases member
  rw [mem_singleton.mp inside]
  exact tree

theorem slice_tree (data : Bytes) : FieldTree (.arr [.bytes data]) :=
  .arr trivial (by simpa using .bytes trivial)

/-- A byte slice inside an array comes back as a string. -/
theorem sliceInArray_altered :
    (∀ map ∈ (oneField (.arr [.bytes [5]])).fields, ∀ entry ∈ map.entries, FieldTree entry.2) ∧
      (let sent := ((oneField (.arr [.bytes [5]])).pack (some echoIdentity) 1 .listed .listed).1
       (((unpack sent.packed none .listed).1.bind LXMessage.fields).bind fun fields => fields.lookup 1).map
         (fun | .arr [.scalar (.str text)] => some text | _ => none) = some (some [5])) ∧
      ¬ FieldsSurvive (oneField (.arr [.bytes [5]])) echoIdentity none 1 := by
  have sized : (oneField (.arr [.bytes [5]])).Sized := by
    refine oneField_sized (.arr (by decide : 1 < 2 ^ 32) ?_)
    intro item member
    rw [mem_singleton.mp member]
    exact .bytes (by decide : 1 < 2 ^ 32)
  have signer : SignsExactly echoIdentity ((oneField (.arr [.bytes [5]])).stampTime 1).signedParts :=
    echoIdentity_signsExactly rfl rfl (by decide +kernel)
  refine ⟨oneField_trees (slice_tree [5]), by decide +kernel, ?_⟩
  intro survive
  have plain := (plain_of_fieldsSurvive ⟨rfl, rfl⟩ rfl sized signer.signs (by simp)
    (fieldTree_of_values (oneField_trees (slice_tree [5]))) survive).2
  rw [oneField_value] at plain
  exact (plain.values (byteKey 1, .arr [.bytes [5]]) (by simp)).here [5] (by simp)

/-- The same slice outside an array survives. -/
theorem sliceInField_survives : FieldsSurvive (oneField (.bytes [5])) echoIdentity none 1 := by
  have signer : SignsExactly echoIdentity ((oneField (.bytes [5])).stampTime 1).signedParts :=
    echoIdentity_signsExactly rfl rfl (by decide +kernel)
  have sized : (Value.bytes [5]).Sized := .bytes (by decide : 1 < 2 ^ 32)
  refine (fieldsSurvive_iff rfl rfl (oneField_sized sized) signer.signs (by simp)
    (oneField_trees (.bytes trivial))).mpr ⟨?_, ?_⟩
  · rw [oneField_value]
    refine .map 0 0 16 1024 _ _ rfl (by decide) (by decide) ?_
    intro entry member
    rw [mem_singleton.mp member]
    exact .bytes 0 1 [5]
  · rw [oneField_value]
    refine .map trivial ?_
    intro entry member
    rw [mem_singleton.mp member]
    exact .bytes trivial

end ReticulumProtocols.Lxmf
