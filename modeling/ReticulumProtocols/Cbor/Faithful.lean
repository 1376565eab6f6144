import ReticulumProtocols.Cbor.RoundTrip

/-! What the decoder reads from an encoding, whatever its limits: nothing, or what was written. -/

namespace ReticulumProtocols.Cbor
open Wire List

/-- The value has no tags, and its maps have distinct keys that can be keys. -/
inductive Tidy : Value → Prop where
  | scalar (value : Scalar) : Tidy (.scalar value)
  | arr (items : List Value) (below : ∀ item ∈ items, Tidy item) : Tidy (.arr items)
  | map (entries : List (Scalar × Value)) (keys : ∀ entry ∈ entries, entry.1.keyable = true)
      (distinct : entries.Pairwise fun first second => first.1.same second.1 = false)
      (below : ∀ entry ∈ entries, Tidy entry.2) : Tidy (.map entries)

/-- The reader reads nothing but what was written. -/
def ReadsOnly {α : Type} (reader : Reader α) (written : Bytes) (value : α) : Prop :=
  ∀ rest read, reader (written ++ rest) = .ok read → read = (value, rest)

theorem readsOnly_many {α : Type} {element : Reader α} {write : α → Bytes} {items : List α}
    (reads : ∀ item ∈ items, ReadsOnly element (write item) item) :
    ReadsOnly (readMany element items.length) (items.flatMap write) items := by
  intro rest read
  induction items generalizing read with
  | nil =>
    intro done
    exact (Except.ok.inj done).symm
  | cons item items ih =>
    intro done
    rw [length_cons, flatMap_cons, append_assoc, readMany] at done
    obtain ⟨got, first, done⟩ := bind_eq_ok.1 done
    rw [reads item mem_cons_self _ _ first] at done
    obtain ⟨more, others, done⟩ := bind_eq_ok.1 done
    rw [ih (fun other member => reads other (mem_cons_of_mem item member)) _ others] at done
    exact (Except.ok.inj done).symm

theorem readsOnly_pair {element : Reader Value} {pair : Value × Value} (key : ReadsOnly element (encode pair.1) pair.1)
    (value : ReadsOnly element (encode pair.2) pair.2) : ReadsOnly (readPair element) (encodePair pair) pair := by
  intro rest read done
  rw [encodePair, append_assoc, readPair] at done
  obtain ⟨got, first, done⟩ := bind_eq_ok.1 done
  rw [key _ _ first] at done
  obtain ⟨more, second, done⟩ := bind_eq_ok.1 done
  rw [value _ _ second] at done
  exact (Except.ok.inj done).symm

theorem readsOnly_pairs (lim : Limits) {element : Reader Value} {entries : List (Scalar × Value)}
    (keys : ∀ entry ∈ entries, ReadsOnly element (encodeScalar entry.1) (.scalar entry.1))
    (values : ∀ entry ∈ entries, ReadsOnly element (encode entry.2) entry.2) :
    ReadsOnly (readPairs lim (some element) entries.length) (encodeEntries entries)
      (entries.map fun entry => (Value.scalar entry.1, entry.2)) := by
  intro rest read done
  have pairs : ∀ pair ∈ entries.map fun entry => (Value.scalar entry.1, entry.2),
      ReadsOnly (readPair element) (encodePair pair) pair := by
    intro pair member
    obtain ⟨entry, listed, rfl⟩ := mem_map.1 member
    apply readsOnly_pair
    · rw [encode]
      exact keys entry listed
    · exact values entry listed
  rw [readPairs] at done
  split at done
  next => cases done
  next =>
    rw [encodeEntries_eq, ← length_map fun entry : Scalar × Value => (Value.scalar entry.1, entry.2)] at done
    exact readsOnly_many pairs rest read done

theorem readsOnly_scalar (lim : Limits) (left : Nat) {value : Scalar} (short : (encodeScalar value).length < 2 ^ 64) :
    ReadsOnly (readerAt lim false left) (encodeScalar value) (.scalar value) := by
  intro rest read done
  rw [readerAt_eq, readItem_scalar lim _ _ rest value short] at done
  exact (Except.ok.inj done).symm

theorem encodeScalar_length_pos (value : Scalar) : 0 < (encodeScalar value).length := by
  cases value with
  | uint | nint | simple =>
    rw [encodeScalar, encodeHead_length]
    exact headSize_pos _
  | bytes | text =>
    rw [encodeScalar, length_append, encodeHead_length]
    exact Nat.add_pos_left (headSize_pos _) _
  | bool | null => exact Nat.one_pos
  | float x =>
    rw [encodeScalar]
    unfold encodeFloat
    split_ifs <;> exact Nat.succ_pos _

theorem encode_length_pos (value : Value) : 0 < (encode value).length := by
  cases value with
  | scalar value =>
    rw [encode]
    exact encodeScalar_length_pos value
  | arr | map | tag =>
    rw [encode, length_append, encodeHead_length]
    exact Nat.add_pos_left (headSize_pos _) _

theorem length_le_encodeItems (items : List Value) : items.length ≤ (encodeItems items).length := by
  rw [encodeItems_length]
  calc items.length = (items.map fun _ => 1).sum := by simp
    _ ≤ (items.map fun item => (encode item).length).sum := sum_le_sum fun item _ => encode_length_pos item

theorem length_le_encodeEntries (entries : List (Scalar × Value)) : entries.length ≤ (encodeEntries entries).length := by
  rw [encodeEntries_length]
  calc entries.length = (entries.map fun _ => 1).sum := by simp
    _ ≤ (entries.map fun entry => (encodeScalar entry.1).length + (encode entry.2).length).sum :=
      sum_le_sum fun entry _ => Nat.add_pos_left (encodeScalar_length_pos entry.1) _

theorem readsOnly_encode (lim : Limits) {value : Value} (tidy : Tidy value) (left : Nat)
    (short : (encode value).length < 2 ^ 64) : ReadsOnly (readerAt lim false left) (encode value) value := by
  induction tidy generalizing left with
  | scalar value =>
    rw [encode] at short ⊢
    exact readsOnly_scalar lim left short
  | arr items below ih =>
    intro rest read done
    rw [encode, length_append, encodeHead_length] at short
    have count := length_le_encodeItems items
    rw [encode, append_assoc, readerAt_eq, readItem, readHead_encodeHead _ _ (by omega)] at done
    -- The levels that are left decide whether there is a reader for the items.
    cases left with
    | zero => cases done
    | succ left =>
      have many : ReadsOnly (readMany (readerAt lim false left) items.length) (items.flatMap encode) items :=
        readsOnly_many fun item member => ih item member left
          (lt_of_le_of_lt (encode_length_le member) (by omega))
      simp only [bind, Except.bind, elementAt] at done
      split at done
      next => cases done
      next =>
        rw [encodeItems_eq] at done
        obtain ⟨got, found, done⟩ := bind_eq_ok.1 done
        rw [many _ _ found] at done
        exact (Except.ok.inj done).symm
  | map entries keys distinct below ih =>
    intro rest read done
    rw [encode, length_append, encodeHead_length] at short
    have count := length_le_encodeEntries entries
    have bound {entry : Scalar × Value} (member : entry ∈ entries) := encodeEntry_length_le member
    rw [encode, append_assoc, readerAt_eq, readItem, readHead_encodeHead _ _ (by omega)] at done
    cases left with
    | zero => cases done
    | succ left =>
      have pairs : ReadsOnly (readPairs lim (some (readerAt lim false left)) entries.length) (encodeEntries entries)
          (entries.map fun entry => (Value.scalar entry.1, entry.2)) := by
        apply readsOnly_pairs
        · intro entry member
          have within := bound member
          exact readsOnly_scalar lim left (by omega)
        · intro entry member
          have within := bound member
          exact ih entry member left (by omega)
      obtain ⟨head, given, done⟩ := bind_eq_ok.1 done
      cases given
      obtain ⟨got, found, done⟩ := bind_eq_ok.1 done
      rw [pairs _ _ found] at done
      simp only [mapM_keyed keys, bind, Except.bind, foldl_setEntry entries [] distinct] at done
      exact (Except.ok.inj done).symm

/-- The pairs that the decoder gives for a map with unsigned keys are those that were written. -/
theorem decodeUintMap_only (lim : Limits) {entries pairs : List (UInt64 × Value)}
    (tidy : ∀ entry ∈ entries, Tidy entry.2)
    (short : (encode (.map (entries.map fun entry => (.uint entry.1, entry.2)))).length < 2 ^ 64)
    (decoded : decodeUintMap lim (encode (.map (entries.map fun entry => (.uint entry.1, entry.2)))) = .ok pairs) :
    pairs = entries := by
  rw [encode, length_append, encodeHead_length] at short
  have count := length_le_encodeEntries (entries.map fun entry => (Scalar.uint entry.1, entry.2))
  rw [encode, decodeUintMap, readHead_encodeHead _ _ (by omega)] at decoded
  obtain ⟨head, given, decoded⟩ := bind_eq_ok.1 decoded
  cases given
  dsimp only at decoded
  rw [if_pos rfl] at decoded
  obtain ⟨got, found, decoded⟩ := bind_eq_ok.1 decoded
  split at found
  next => cases found
  next =>
    have read : ReadsOnly (readPairs lim (some (readerAt lim false (lim.maxNestedLevels - 1)))
        (entries.map fun entry => (Scalar.uint entry.1, entry.2)).length)
        (encodeEntries (entries.map fun entry => (Scalar.uint entry.1, entry.2)))
        ((entries.map fun entry => (Scalar.uint entry.1, entry.2)).map fun entry => (Value.scalar entry.1, entry.2)) := by
      apply readsOnly_pairs
      · intro entry member
        have within := encodeEntry_length_le member
        exact readsOnly_scalar lim _ (by omega)
      · intro entry member
        have within := encodeEntry_length_le member
        obtain ⟨field, listed, rfl⟩ := mem_map.1 member
        dsimp only at within
        exact readsOnly_encode lim (tidy field listed) _ (by omega)
    rw [← append_nil (encodeEntries _)] at found
    rw [read [] got found] at decoded
    dsimp only at decoded
    rw [if_pos rfl, map_map] at decoded
    exact (Except.ok.inj ((mapM_uintKeyed entries).symm.trans decoded)).symm

end ReticulumProtocols.Cbor
