import ReticulumProtocols.Cbor.Decode

/-! What the encoder writes is read back, if it keeps the limits of the decoder. -/

namespace ReticulumProtocols.Cbor
open Wire List
variable {entries : List (Scalar × Value)}

/-- The additional information of a head. -/
def headInfo (n : Nat) : Nat :=
  if n < 24 then n else if n < 2 ^ 8 then 24 else if n < 2 ^ 16 then 25 else if n < 2 ^ 32 then 26 else 27

theorem take_append (data rest : Bytes) : take data.length (data ++ rest) = .ok (data, rest) := by
  rw [take, readN_append]

theorem take_be (width n : Nat) (rest : Bytes) : take width (be width n ++ rest) = .ok (be width n, rest) := by
  rw [take, readN_be]

section
variable (major : MajorType) (info : Nat) (rest : Bytes)

theorem readHead_initial (range : info < 32) :
    readHead (UInt8.ofNat (major.code * 32 + info) :: rest) = readArgument major info rest := by
  have code := major.code_lt
  have whole : (UInt8.ofNat (major.code * 32 + info)).toNat = major.code * 32 + info := by
    rw [UInt8.toNat_ofNat']
    omega
  have high : (major.code * 32 + info) / 32 = major.code := by omega
  have low : (major.code * 32 + info) % 32 = info := by omega
  rw [readHead, whole, high, low, MajorType.ofCode_code]

theorem readHead_long {width n : Nat} (long : 24 ≤ info) (sized : info < 28) (wide : width = 2 ^ (info - 24))
    (bound : n < 256 ^ width) :
    readHead (UInt8.ofNat (major.code * 32 + info) :: (be width n ++ rest)) = .ok (⟨major, info, n⟩, rest) := by
  rw [readHead_initial major info _ (by omega), readArgument, if_neg (by omega), if_pos sized, ← wide, take_be]
  simp only [bind, Except.bind, beNat_be width n bound]
  rfl

theorem readHead_encodeHead {n : Nat} (small : n < 2 ^ 64) :
    readHead (encodeHead major n ++ rest) = .ok (⟨major, headInfo n, n⟩, rest) := by
  unfold encodeHead headInfo
  split_ifs with tiny byte short word
  · exact (readHead_initial major n rest (by omega)).trans (if_pos tiny)
  · exact readHead_long major 24 rest (by decide) (by decide) (by decide) byte
  · exact readHead_long major 25 rest (by decide) (by decide) (by decide) short
  · exact readHead_long major 26 rest (by decide) (by decide) (by decide) word
  · exact readHead_long major 27 rest (by decide) (by decide) (by decide) small

end

theorem toBits_ofHalf :
    (ofHalf 0x7e00).toBits = 0x7ff8000000000000 ∧ (ofHalf 0x7c00).toBits = 0x7ff0000000000000 ∧
      (ofHalf 0xfc00).toBits = 0xfff0000000000000 := by
  decide +kernel

theorem primitive_simple (n : SimpleValue) :
    primitive ⟨.primitive, headInfo n.1.toNat, n.1.toNat⟩ = .ok (.simple n) := by
  obtain ⟨n, assigned⟩ := n
  have range : n.toNat < 20 ∨ 32 ≤ n.toNat := assigned
  have bound := n.toNat_lt
  have info : headInfo n.toNat < 20 ∨ headInfo n.toNat = 24 ∧ 32 ≤ n.toNat := by
    unfold headInfo
    split_ifs <;> omega
  have back : UInt8.ofNat n.toNat = n := UInt8.ofNat_toNat
  unfold primitive
  simp only
  split
  case _ | _ | _ | _ | _ | _ | _ => omega
  · rw [dif_pos]
    · simp only [back]
    · rw [back]
      exact ⟨assigned, fun long => (info.resolve_left (by omega)).2⟩

section
variable (lim : Limits) (element content : Option (Reader Value)) (rest : Bytes)

/-- An item of the last major type, once its head is known. -/
private theorem readItem_primitive {input : Bytes} {info argument : Nat} {value : Scalar}
    (head : readHead input = .ok (⟨.primitive, info, argument⟩, rest))
    (means : primitive ⟨.primitive, info, argument⟩ = .ok value) :
    readItem lim element content input = .ok (.scalar value, rest) := by
  simp only [readItem, head, means, bind, Except.bind]
  rfl

theorem readItem_float (x : Float) :
    readItem lim element content (encodeFloat x ++ rest) = .ok (.scalar (.float x), rest) := by
  have half : ∀ n : Nat, n < 2 ^ 16 → (ofHalf n).toBits = x.toBits →
      readItem lim element content (0xf9 :: (be 2 n ++ rest)) = .ok (.scalar (.float x), rest) := by
    intro n small same
    have value : ofHalf n = x := by
      rw [← Float64.ofBits_toBits (ofHalf n), same, Float64.ofBits_toBits]
    have head := readHead_long .primitive 25 rest (by decide) (by decide) rfl small
    exact readItem_primitive lim element content rest head (congrArg (fun x => Except.ok (Scalar.float x)) value)
  obtain ⟨nan, positive, negative⟩ := toBits_ofHalf
  unfold encodeFloat
  split_ifs with isNaN isPositive isNegative
  · exact half 0x7e00 (by decide) (nan.trans isNaN.symm)
  · exact half 0x7c00 (by decide) (positive.trans isPositive.symm)
  · exact half 0xfc00 (by decide) (negative.trans isNegative.symm)
  · have head := readHead_long .primitive 27 rest (by decide) (by decide) rfl (UInt64.toNat_lt x.toBits)
    have value : Float.ofBits (UInt64.ofNat x.toBits.toNat) = x := by
      rw [UInt64.ofNat_toNat, Float64.ofBits_toBits]
    exact readItem_primitive lim element content rest head (congrArg (fun x => Except.ok (Scalar.float x)) value)

theorem readItem_scalar (value : Scalar) (short : (encodeScalar value).length < 2 ^ 64) :
    readItem lim element content (encodeScalar value ++ rest) = .ok (.scalar value, rest) := by
  cases value with
  | uint n =>
    rw [encodeScalar, readItem, readHead_encodeHead _ _ n.toNat_lt]
    simp only [bind, Except.bind, UInt64.ofNat_toNat]
    rfl
  | nint n =>
    rw [encodeScalar, readItem, readHead_encodeHead _ _ n.toNat_lt]
    simp only [bind, Except.bind, UInt64.ofNat_toNat]
    rfl
  | bytes data =>
    rw [encodeScalar, length_append] at short
    rw [encodeScalar, append_assoc, readItem, readHead_encodeHead _ _ (by omega)]
    simp only [bind, Except.bind, take_append]
    rfl
  | text chars =>
    rw [encodeScalar, length_append] at short
    rw [encodeScalar, append_assoc, readItem, readHead_encodeHead _ _ (by omega)]
    simp only [bind, Except.bind, readText, take_append, ofUtf8_utf8]
    rfl
  | bool value => cases value <;> rfl
  | null => rfl
  | simple n =>
    have small : n.1.toNat < 2 ^ 64 := lt_trans n.1.toNat_lt (by decide)
    exact readItem_primitive lim element content rest (readHead_encodeHead _ _ small) (primitive_simple n)
  | float x => exact readItem_float lim element content rest x

end

/-- The value keeps the limits with some levels left; `tagged` tells that it is what a tag is about. -/
inductive Fits (lim : Limits) : Bool → Nat → Value → Prop where
  | scalar (tagged : Bool) (left : Nat) (value : Scalar) : Fits lim tagged left (.scalar value)
  | arr (tagged : Bool) (left : Nat) (items : List Value) (count : items.length ≤ lim.maxArrayElements)
      (below : ∀ item ∈ items, Fits lim false left item) : Fits lim tagged (left + 1) (.arr items)
  | map (tagged : Bool) (left : Nat) (entries : List (Scalar × Value)) (count : entries.length ≤ lim.maxMapPairs)
      (keys : ∀ entry ∈ entries, entry.1.keyable = true)
      (distinct : entries.Pairwise fun first second => first.1.same second.1 = false)
      (below : ∀ entry ∈ entries, Fits lim false left entry.2) : Fits lim tagged (left + 1) (.map entries)
  | tag (left : Nat) (number : UInt64) (content : Value) (plain : number ∉ builtinTags)
      (below : Fits lim true left content) : Fits lim false left (.tag number content)
  | nested (left : Nat) (number : UInt64) (content : Value) (plain : number ∉ builtinTags)
      (below : Fits lim true left content) : Fits lim true (left + 1) (.tag number content)

/-- The reader for a place. -/
def readerAt (lim : Limits) (tagged : Bool) (left : Nat) : Reader Value :=
  if tagged then (readers lim left).2 else (readers lim left).1

/-- What reads the items a level below. -/
def elementAt (lim : Limits) : Nat → Option (Reader Value)
  | 0 => none
  | left + 1 => some (readerAt lim false left)

/-- What reads what a tag is about. -/
def contentAt (lim : Limits) : Bool → Nat → Option (Reader Value)
  | false, left => some (readerAt lim true left)
  | true, 0 => none
  | true, left + 1 => some (readerAt lim true left)

theorem readerAt_eq (lim : Limits) (tagged : Bool) (left : Nat) :
    readerAt lim tagged left = readItem lim (elementAt lim left) (contentAt lim tagged left) := by
  cases left <;> cases tagged <;> rfl

theorem readMany_read {α : Type} (element : Reader α) (write : α → Bytes) (items : List α) (rest : Bytes)
    (reads : ∀ item ∈ items, ∀ rest, element (write item ++ rest) = .ok (item, rest)) :
    readMany element items.length (items.flatMap write ++ rest) = .ok (items, rest) := by
  induction items with
  | nil => rfl
  | cons item items ih =>
    have first := reads item mem_cons_self (items.flatMap write ++ rest)
    have others := ih fun other member => reads other (mem_cons_of_mem item member)
    rw [length_cons, flatMap_cons, append_assoc, readMany, first]
    simp only [bind, Except.bind, others]
    rfl

theorem encodeItems_eq (items : List Value) : encodeItems items = items.flatMap encode := by
  induction items with
  | nil => simp [encodeItems]
  | cons item items ih => simp [encodeItems, ih]

def encodePair (pair : Value × Value) : Bytes := encode pair.1 ++ encode pair.2

theorem encodeEntries_eq (entries : List (Scalar × Value)) : encodeEntries entries =
    (entries.map fun entry => (Value.scalar entry.1, entry.2)).flatMap encodePair := by
  induction entries with
  | nil => simp [encodeEntries]
  | cons entry entries ih => simp [encodeEntries, ih, encodePair, encode]

theorem readPair_encodePair {element : Reader Value} {pair : Value × Value}
    (key : ∀ rest, element (encode pair.1 ++ rest) = .ok (pair.1, rest))
    (value : ∀ rest, element (encode pair.2 ++ rest) = .ok (pair.2, rest)) (rest : Bytes) :
    readPair element (encodePair pair ++ rest) = .ok (pair, rest) := by
  rw [encodePair, append_assoc, readPair, key]
  simp only [bind, Except.bind, value]
  rfl

theorem mapM_keyed (keys : ∀ entry ∈ entries, entry.1.keyable = true) :
    (entries.map fun entry => (Value.scalar entry.1, entry.2)).mapM keyed = .ok entries := by
  induction entries with
  | nil => rfl
  | cons entry entries ih =>
    have first : keyed (Value.scalar entry.1, entry.2) = .ok entry := by
      simp only [keyed, Value.key, if_pos (keys entry mem_cons_self)]
    have others := ih fun other member => keys other (mem_cons_of_mem entry member)
    rw [map_cons, mapM_cons, first, others]
    rfl

theorem foldl_setEntry (entries before : List (Scalar × Value))
    (distinct : (before ++ entries).Pairwise fun first second => first.1.same second.1 = false) :
    entries.foldl setEntry before = before ++ entries := by
  induction entries generalizing before with
  | nil => rw [foldl_nil, append_nil]
  | cons entry entries ih =>
    have fresh : before.any (fun other => other.1.same entry.1) = false := by
      rw [any_eq_false]
      intro other member
      have apart := (pairwise_append.1 distinct).2.2 other member entry mem_cons_self
      rw [apart]
      exact Bool.false_ne_true
    have added : setEntry before entry = before ++ [entry] := by
      rw [setEntry, fresh, if_neg Bool.false_ne_true]
    rw [foldl_cons, added, ih (before ++ [entry]) (by simpa using distinct), append_assoc]
    rfl

theorem encode_length_le {items : List Value} {item : Value} (member : item ∈ items) :
    (encode item).length ≤ (encodeItems items).length := by
  rw [encodeItems_length]
  exact le_sum_of_mem (mem_map.2 ⟨item, member, rfl⟩)

theorem encodeEntry_length_le {entry : Scalar × Value} (member : entry ∈ entries) :
    (encodeScalar entry.1).length + (encode entry.2).length ≤ (encodeEntries entries).length := by
  rw [encodeEntries_length]
  exact le_sum_of_mem (mem_map.2 ⟨entry, member, rfl⟩)

theorem readPairs_encodeEntries (lim : Limits) (left : Nat) (rest : Bytes)
    (count : entries.length ≤ lim.maxMapPairs) (short : (encodeEntries entries).length < 2 ^ 64)
    (reads : ∀ entry ∈ entries, ∀ rest, readerAt lim false left (encode entry.2 ++ rest) = .ok (entry.2, rest)) :
    readPairs lim (some (readerAt lim false left)) entries.length (encodeEntries entries ++ rest) =
      .ok (entries.map fun entry => (Value.scalar entry.1, entry.2), rest) := by
  have pair : ∀ pair ∈ entries.map fun entry => (Value.scalar entry.1, entry.2), ∀ rest,
      readPair (readerAt lim false left) (encodePair pair ++ rest) = .ok (pair, rest) := by
    intro pair member
    obtain ⟨entry, listed, rfl⟩ := mem_map.1 member
    have bound := encodeEntry_length_le listed
    apply readPair_encodePair
    · intro rest
      rw [readerAt_eq, encode]
      exact readItem_scalar lim _ _ rest entry.1 (by omega)
    · exact reads entry listed
  have many := readMany_read _ encodePair _ rest pair
  rw [length_map] at many
  rw [encodeEntries_eq, readPairs, if_neg (not_lt.2 count)]
  exact many

/-- A value that keeps the limits is read back from its encoding. -/
theorem readerAt_encode (lim : Limits) (arrays : lim.maxArrayElements < 2 ^ 64) (maps : lim.maxMapPairs < 2 ^ 64)
    {tagged : Bool} {left : Nat} {value : Value} (fits : Fits lim tagged left value)
    (short : (encode value).length < 2 ^ 64) (rest : Bytes) :
    readerAt lim tagged left (encode value ++ rest) = .ok (value, rest) := by
  induction fits generalizing rest with
  | scalar tagged left value =>
    rw [encode] at short ⊢
    rw [readerAt_eq]
    exact readItem_scalar lim _ _ rest value short
  | arr tagged left items count below ih =>
    rw [encode, length_append] at short
    have many := readMany_read (readerAt lim false left) encode items rest fun item member rest =>
      ih item member (lt_of_le_of_lt (encode_length_le member) (by omega)) rest
    rw [encode, append_assoc, readerAt_eq, readItem, readHead_encodeHead _ _ (by omega), encodeItems_eq]
    simp only [bind, Except.bind, elementAt, many, if_neg (not_lt.2 count)]
    rfl
  | map tagged left entries count keys distinct below ih =>
    rw [encode, length_append] at short
    have pairs := readPairs_encodeEntries lim left rest count (by omega) fun entry member =>
      ih entry member (by
        have bound := encodeEntry_length_le member
        omega)
    rw [encode, append_assoc, readerAt_eq, readItem, readHead_encodeHead _ _ (by omega)]
    simp only [bind, Except.bind, elementAt, pairs, mapM_keyed keys, foldl_setEntry entries [] distinct]
    rfl
  | tag left number content plain below ih =>
    rw [encode, length_append] at short
    rw [encode, append_assoc, readerAt_eq, readItem, readHead_encodeHead _ _ number.toNat_lt]
    simp only [bind, Except.bind, contentAt, UInt64.ofNat_toNat, if_neg plain, ih (by omega) rest]
    rfl
  | nested left number content plain below ih =>
    rw [encode, length_append] at short
    rw [encode, append_assoc, readerAt_eq, readItem, readHead_encodeHead _ _ number.toNat_lt]
    simp only [bind, Except.bind, contentAt, UInt64.ofNat_toNat, if_neg plain, ih (by omega) rest]
    rfl

theorem mapM_uintKeyed (entries : List (UInt64 × Value)) :
    (entries.map fun entry => (Value.uint entry.1, entry.2)).mapM uintKeyed = .ok entries := by
  induction entries with
  | nil => rfl
  | cons entry entries ih =>
    rw [map_cons, mapM_cons, ih]
    rfl

/-- The decoder gives the pairs of a map with unsigned keys in the order they were written. -/
theorem decodeUintMap_encode (lim : Limits) (arrays : lim.maxArrayElements < 2 ^ 64) (maps : lim.maxMapPairs < 2 ^ 64)
    {left : Nat} (levels : lim.maxNestedLevels = left + 1) {entries : List (UInt64 × Value)}
    (count : entries.length ≤ lim.maxMapPairs) (below : ∀ entry ∈ entries, Fits lim false left entry.2)
    (short : (encode (.map (entries.map fun entry => (.uint entry.1, entry.2)))).length < 2 ^ 64) :
    decodeUintMap lim (encode (.map (entries.map fun entry => (.uint entry.1, entry.2)))) = .ok entries := by
  rw [encode, length_append] at short
  rw [← length_map fun entry : UInt64 × Value => (Scalar.uint entry.1, entry.2)] at count
  have pairs := readPairs_encodeEntries lim left [] count (by omega) fun entry member => by
    have bound := encodeEntry_length_le member
    obtain ⟨field, listed, rfl⟩ := mem_map.1 member
    exact readerAt_encode lim arrays maps (below field listed) (by omega)
  rw [append_nil, map_map] at pairs
  change readPairs lim (some (readers lim left).1) _ _ = _ at pairs
  rw [encode, decodeUintMap, readHead_encodeHead _ _ (by omega)]
  simp only [bind, Except.bind, levels, Nat.add_sub_cancel, if_neg (Nat.succ_ne_zero left)]
  rw [if_pos trivial, pairs]
  exact mapM_uintKeyed entries

/-! Maps with unsigned keys that are all different, in whatever order they are written. -/

section
variable {fields written : List (UInt64 × Value)} (perm : written.Perm fields)
include perm

theorem keys_uintMap (distinct : (fields.map Prod.fst).Nodup) :
    (∀ entry ∈ written.map fun field => (Scalar.uint field.1, field.2), entry.1.keyable = true) ∧
      (written.map fun field => (Scalar.uint field.1, field.2)).Pairwise fun first second =>
        first.1.same second.1 = false := by
  constructor
  · intro entry member
    obtain ⟨field, -, rfl⟩ := mem_map.1 member
    rfl
  · have apart := (perm.map Prod.fst).nodup_iff.2 distinct
    rw [nodup_iff_pairwise_ne, pairwise_map] at apart
    exact List.pairwise_map.2 (apart.imp fun other => beq_false_of_ne other)

theorem fits_uintMap (distinct : (fields.map Prod.fst).Nodup) {lim : Limits} {left : Nat}
    (count : fields.length ≤ lim.maxMapPairs) (below : ∀ field ∈ fields, Fits lim false left field.2) :
    Fits lim false (left + 1) (.map (written.map fun field => (.uint field.1, field.2))) := by
  obtain ⟨keys, apart⟩ := keys_uintMap perm distinct
  refine .map _ left _ ?_ keys apart fun entry member => ?_
  · rw [length_map, perm.length_eq]
    exact count
  · obtain ⟨field, listed, rfl⟩ := mem_map.1 member
    exact below field (perm.mem_iff.1 listed)

theorem length_uintMap : (encode (.map (written.map fun field => (.uint field.1, field.2)))).length =
    headSize fields.length + (fields.map fun field => headSize field.1.toNat + (encode field.2).length).sum := by
  rw [encode, length_append, encodeHead_length, encodeEntries_length, length_map, perm.length_eq,
    map_map, ← (perm.map _).sum_eq]
  congr 2
  apply map_congr_left
  intro field _
  rw [Function.comp_apply, encodeScalar, encodeHead_length]

end

end ReticulumProtocols.Cbor
