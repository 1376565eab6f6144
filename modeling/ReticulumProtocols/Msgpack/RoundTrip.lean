import ReticulumProtocols.Msgpack.ScalarRoundTrip

/-! Decoding an encoding. Within the decoder's limits the result is the `view` of the value;
beyond them decoding fails. -/

namespace ReticulumProtocols.Msgpack
open Wire List
variable {entry : Scalar × Value} {out : List (Scalar × Value)} {entries : List (Scalar × Value)}

/-- The assignments of a decoded map, in wire order. -/
def collect (entries : List (Scalar × Value)) : List (Scalar × Value) :=
  entries.foldl (fun out entry => setEntry out entry.1 entry.2) []

theorem mem_setEntry {key : Scalar} {value : Value}
    (member : entry ∈ setEntry out key value) : entry = (key, value) ∨ entry ∈ out := by
  induction out with
  | nil => simpa [setEntry] using member
  | cons first others ih =>
    rw [setEntry] at member
    split at member
    · rcases List.mem_cons.mp member with same | inside
      · exact .inl same
      · exact .inr (by simp [inside])
    · rcases List.mem_cons.mp member with same | inside
      · exact .inr (by simp [same])
      · rcases ih inside with same | old
        · exact .inl same
        · exact .inr (by simp [old])

theorem setEntry_self_mem (out : List (Scalar × Value)) (key : Scalar) (value : Value) :
    (key, value) ∈ setEntry out key value := by
  induction out with
  | nil => simp [setEntry]
  | cons first others ih =>
    rw [setEntry]
    split
    · simp
    · simp [ih]

theorem setEntry_keeps_key (member : entry ∈ out)
    (key : Scalar) (value : Value) : ∃ other ∈ setEntry out key value, other.1 = entry.1 := by
  induction out with
  | nil => simp at member
  | cons first others ih =>
    rw [setEntry]
    rcases List.mem_cons.mp member with rfl | inside
    · split
      next same => exact ⟨(key, value), by simp, same.symm⟩
      next => exact ⟨entry, by simp, rfl⟩
    · split
      · exact ⟨entry, by simp [inside], rfl⟩
      · obtain ⟨other, found, same⟩ := ih inside
        exact ⟨other, by simp [found], same⟩

theorem collect_concat (entries : List (Scalar × Value)) (last : Scalar × Value) :
    collect (entries ++ [last]) = setEntry (collect entries) last.1 last.2 := by
  simp [collect]

theorem mem_collect (member : entry ∈ collect entries) : entry ∈ entries := by
  induction entries using List.reverseRecOn with
  | nil => simp [collect] at member
  | append_singleton entries last ih =>
    rw [collect_concat] at member
    rcases mem_setEntry member with same | old
    · simp [same]
    · simp [ih old]

/-- The last assignment of a map is never overwritten. -/
theorem last_mem_collect (entries : List (Scalar × Value)) (last : Scalar × Value) :
    last ∈ collect (entries ++ [last]) := by
  rw [collect_concat]
  exact setEntry_self_mem _ _ _

theorem key_mem_collect (member : entry ∈ entries) : ∃ other ∈ collect entries, other.1 = entry.1 := by
  induction entries using List.reverseRecOn with
  | nil => simp at member
  | append_singleton entries last ih =>
    rw [collect_concat]
    rcases mem_append.mp member with old | new
    · obtain ⟨other, found, same⟩ := ih old
      obtain ⟨kept, found', same'⟩ := setEntry_keeps_key found last.1 last.2
      exact ⟨kept, found', same'.trans same⟩
    · rw [mem_singleton.mp new]
      exact ⟨last, setEntry_self_mem _ _ _, rfl⟩

theorem setEntry_fresh {key : Scalar} (value : Value)
    (fresh : key ∉ out.map Prod.fst) : setEntry out key value = out ++ [(key, value)] := by
  induction out with
  | nil => rfl
  | cons first others ih =>
    simp only [map_cons, mem_cons, not_or] at fresh
    rw [setEntry, if_neg (Ne.symm fresh.1), ih fresh.2, cons_append]

/-- Assignments to distinct keys do not disturb each other. -/
theorem collect_of_nodup (distinct : (entries.map Prod.fst).Nodup) :
    collect entries = entries := by
  induction entries using List.reverseRecOn with
  | nil => rfl
  | append_singleton entries last ih =>
    rw [map_append, map_singleton, nodup_append] at distinct
    have fresh : last.1 ∉ entries.map Prod.fst := fun member => distinct.2.2 _ member _ (by simp) rfl
    rw [collect_concat, ih distinct.1, setEntry_fresh _ fresh]

mutual

/-- The value that comes back. `looseItems` is the decoder's flag, which governs array elements;
`loose` says how this value itself is decoded. -/
def view (compact looseItems loose : Bool) : Value → Value
  | .scalar s => .scalar (viewScalar compact loose s)
  | .bytes data => if loose then .str data else .bytes data
  | .arr items => .arr (viewItems compact looseItems items)
  | .map _ entries => .map .any (collect (viewEntries compact looseItems entries))

def viewItems (compact looseItems : Bool) : List Value → List Value
  | [] => []
  | item :: items => view compact looseItems looseItems item :: viewItems compact looseItems items

def viewEntries (compact looseItems : Bool) : List (Scalar × Value) → List (Scalar × Value)
  | [] => []
  | (key, value) :: entries =>
    (viewScalar compact false key, view compact looseItems false value) ::
      viewEntries compact looseItems entries

end

def viewEntry (compact looseItems : Bool) (entry : Scalar × Value) : Scalar × Value :=
  (viewScalar compact false entry.1, view compact looseItems false entry.2)

theorem viewItems_eq_map (compact looseItems : Bool) (items : List Value) :
    viewItems compact looseItems items = items.map (view compact looseItems looseItems) := by
  induction items with
  | nil => simp [viewItems]
  | cons item items ih => simp [viewItems, ih]

theorem viewEntries_eq_map (compact looseItems : Bool) (entries : List (Scalar × Value)) :
    viewEntries compact looseItems entries = entries.map (viewEntry compact looseItems) := by
  induction entries with
  | nil => simp [viewEntries]
  | cons entry entries ih =>
    obtain ⟨key, value⟩ := entry
    simp [viewEntries, viewEntry, ih]

/-- Every length of a node fits a four-byte length field. -/
def SizedNode : Value → Prop
  | .scalar s => s.Sized
  | .bytes data => data.length < 2 ^ 32
  | .arr items => items.length < 2 ^ 32
  | .map _ entries => entries.length < 2 ^ 32 ∧ ∀ entry ∈ entries, entry.1.Sized

abbrev Value.Sized : Value → Prop := Value.Everywhere SizedNode

/-- The decoder's nesting and size limits, for a value below `depth` arrays and `mapDepth` maps. -/
inductive Fits (decoder : Decoder) : Nat → Nat → Value → Prop where
  | scalar (depth mapDepth : Nat) (s : Scalar) : Fits decoder depth mapDepth (.scalar s)
  | bytes (depth mapDepth : Nat) (data : Bytes) : Fits decoder depth mapDepth (.bytes data)
  | arr (depth mapDepth : Nat) (items : List Value)
      (nesting : items ≠ [] → depth + 1 ≤ decoder.maxDepth)
      (below : ∀ item ∈ items, Fits decoder (depth + 1) mapDepth item) :
      Fits decoder depth mapDepth (.arr items)
  | map (depth mapDepth maxDepth maxPairs : Nat) (kind : MapKind) (entries : List (Scalar × Value))
      (bounded : decoder.maps = .bounded maxDepth maxPairs)
      (nesting : mapDepth < maxDepth) (pairs : entries.length ≤ maxPairs)
      (below : ∀ entry ∈ entries, Fits decoder depth (mapDepth + 1) entry.2) :
      Fits decoder depth mapDepth (.map kind entries)

/-- Whatever follows the data, good ones are read as the value, and other ones not at all if the reader is
sure to notice. -/
def Reads {α : Type} (sure good : Prop) (decode : Bytes → Except DecodeError (α × Bytes)) (data : Bytes) (value : α) :
    Prop :=
  ∀ rest, (good → decode (data ++ rest) = .ok (value, rest)) ∧
    (sure → ¬ good → ∃ error, decode (data ++ rest) = .error error)

section
variable {decode : Bytes → Except DecodeError (Value × Bytes)} {compact : Bool} {sure : Prop}

/-- One element that cannot be decoded spoils the array, whatever precedes it. -/
theorem decodeMany_reads {good : Value → Prop} (read : Value → Value) (items : List Value)
    (each : ∀ item ∈ items, Reads sure (good item) decode (encode compact item) (read item)) :
    Reads sure (∀ item ∈ items, good item) (decodeMany decode items.length) (encodeItems compact items)
      (items.map read) := by
  intro rest
  induction items with
  | nil => exact ⟨fun _ => rfl, by simp⟩
  | cons item items ih =>
    have first := each item (by simp) (encodeItems compact items ++ rest)
    have others := ih fun other member => each other (by simp [member])
    simp only [length_cons, encodeItems, append_assoc, decodeMany, map_cons, forall_mem_cons]
    constructor
    · rintro ⟨here, below⟩
      simp only [first.1 here, others.1 below]
    · intro sure bad
      by_cases here : good item
      · obtain ⟨error, failed⟩ := others.2 sure fun below => bad ⟨here, below⟩
        exact ⟨error, by simp only [first.1 here, failed]⟩
      · obtain ⟨error, failed⟩ := first.2 sure here
        exact ⟨error, by rw [failed]⟩

theorem decodePairs_reads {decodeKey : Bytes → Except DecodeError (Scalar × Bytes)} {good : Value → Prop}
    (read : Scalar × Value → Scalar × Value) (entries : List (Scalar × Value))
    (keys : ∀ entry ∈ entries, ∀ rest,
      decodeKey (encodeScalar compact entry.1 ++ rest) = .ok ((read entry).1, rest))
    (values : ∀ entry ∈ entries, Reads sure (good entry.2) decode (encode compact entry.2) (read entry).2)
    (out : List (Scalar × Value)) :
    Reads sure (∀ entry ∈ entries, good entry.2) (decodePairs decodeKey decode entries.length out)
      (encodeEntries compact entries)
      ((entries.map read).foldl (fun out entry => setEntry out entry.1 entry.2) out) := by
  intro rest
  induction entries generalizing out with
  | nil => exact ⟨fun _ => rfl, by simp⟩
  | cons entry entries ih =>
    have first := values entry (by simp) (encodeEntries compact entries ++ rest)
    have others := ih (fun other member => keys other (by simp [member]))
      (fun other member => values other (by simp [member])) (setEntry out (read entry).1 (read entry).2)
    simp only [length_cons, encodeEntries, append_assoc, decodePairs, keys entry (by simp), map_cons, foldl_cons,
      forall_mem_cons]
    constructor
    · rintro ⟨here, below⟩
      simp only [first.1 here, others.1 below]
    · intro sure bad
      by_cases here : good entry.2
      · obtain ⟨error, failed⟩ := others.2 sure fun below => bad ⟨here, below⟩
        exact ⟨error, by simp only [first.1 here, failed]⟩
      · obtain ⟨error, failed⟩ := first.2 sure here
        exact ⟨error, by rw [failed]⟩

end

theorem encode_le_encodeItems (compact : Bool) {items : List Value} {item : Value} (member : item ∈ items) :
    (encode compact item).length ≤ (encodeItems compact items).length := by
  obtain ⟨before, after, rfl⟩ := append_of_mem member
  simp only [encodeItems_eq_flatMap, flatMap_append, flatMap_cons, length_append]
  omega

theorem encode_le_encodeEntries (compact : Bool) {entries : List (Scalar × Value)}
    {entry : Scalar × Value} (member : entry ∈ entries) :
    (encodeEntry compact entry).length ≤ (encodeEntries compact entries).length := by
  obtain ⟨before, after, rfl⟩ := append_of_mem member
  simp only [encodeEntries_eq_flatMap, flatMap_append, flatMap_cons, length_append]
  omega

theorem fits_arr_iff {decoder : Decoder} {depth mapDepth : Nat} {items : List Value} :
    Fits decoder depth mapDepth (.arr items) ↔
      (items ≠ [] → depth + 1 ≤ decoder.maxDepth) ∧
        ∀ item ∈ items, Fits decoder (depth + 1) mapDepth item := by
  constructor
  · rintro ⟨⟩
    exact ⟨by assumption, by assumption⟩
  · rintro ⟨nesting, below⟩
    exact .arr depth mapDepth items nesting below

theorem fits_map_iff {decoder : Decoder} {depth mapDepth maxDepth maxPairs : Nat} {kind : MapKind}
    {entries : List (Scalar × Value)} (bounded : decoder.maps = .bounded maxDepth maxPairs) :
    Fits decoder depth mapDepth (.map kind entries) ↔
      mapDepth < maxDepth ∧ entries.length ≤ maxPairs ∧
        ∀ entry ∈ entries, Fits decoder depth (mapDepth + 1) entry.2 := by
  constructor
  · rintro ⟨⟩
    rename_i same nesting pairs below
    rw [bounded] at same
    cases same
    exact ⟨nesting, pairs, below⟩
  · rintro ⟨nesting, pairs, below⟩
    exact .map depth mapDepth maxDepth maxPairs kind entries bounded nesting pairs below

/-- A container header followed by enough bytes passes the length guard. -/
theorem containerLen_header (length : Length) (count minBytes : Nat) (tail body : Bytes)
    (read : ∀ rest, length.read (tail ++ rest) = .ok (count, rest))
    (enough : count ≤ body.length / minBytes) :
    containerLen length minBytes (tail ++ body) = .ok (count, body) := by
  simp [containerLen, read, enough]

theorem bind_return {α β : Type} (build : α → β) (result : Except DecodeError (α × Bytes)) :
    (do let (value, rest) ← result; return (build value, rest)) = result.map (Prod.map build id) := by
  cases result <;> rfl

section
variable (decoder : Decoder) (compact : Bool) (fuel depth mapDepth : Nat) (loose : Bool) (rest : Bytes)

/-- `decodeInterfaceCond` below an array at `depth`. -/
def decodeInterfaceCond : Bytes → Except DecodeError (Value × Bytes) := fun input =>
  if decoder.maxDepth < depth + 1 then .error (.nestingTooDeep decoder.maxDepth)
  else decodeInterface decoder fuel decoder.loose (depth + 1) mapDepth input

/-- The strict key decoder of the bounded map hook. -/
def decodeKey : Bytes → Except DecodeError (Scalar × Bytes) := fun input =>
  comparableKey (decodeInterface decoder fuel false depth mapDepth input)

theorem decode_bytes (data : Bytes) (sized : data.length < 2 ^ 32) :
    decodeInterface decoder (fuel + 1) loose depth mapDepth (encode compact (.bytes data) ++ rest) =
      .ok (if loose then .str data else .bytes data, rest) := by
  obtain ⟨c, tail, length, form, code, read⟩ := LengthFamily.bin.header_read data.length sized
  have found : Code.ofByte c = .bin length := code
  simp only [encode, form, append_assoc, cons_append, decodeInterface, found,
    takeBytes_header rest length tail data read]
  rfl

theorem decode_arr (items : List Value) (sized : items.length < 2 ^ 32) :
    decodeInterface decoder (fuel + 1) loose depth mapDepth (encode compact (.arr items) ++ rest) =
      (decodeMany (decodeInterfaceCond decoder fuel depth mapDepth) items.length
        (encodeItems compact items ++ rest)).map (Prod.map Value.arr id) := by
  obtain ⟨c, tail, length, form, code, read⟩ := LengthFamily.array.header_read items.length sized
  have found : Code.ofByte c = .array length := code
  have count := length_le_encodeItems compact items
  have guard := containerLen_header length items.length 1 tail (encodeItems compact items ++ rest)
    read (by rw [Nat.div_one, length_append]; omega)
  simp only [encode, form, append_assoc, cons_append, decodeInterface, found, guard]
  exact bind_return Value.arr _

theorem decode_map (maxDepth maxPairs : Nat) (bounded : decoder.maps = .bounded maxDepth maxPairs)
    (kind : MapKind) (entries : List (Scalar × Value)) (sized : entries.length < 2 ^ 32) :
    decodeInterface decoder (fuel + 1) loose depth mapDepth (encode compact (.map kind entries) ++ rest) =
      if maxDepth ≤ mapDepth then .error (.mapNestingTooDeep maxDepth)
      else if maxPairs < entries.length then .error (.mapTooLarge entries.length)
      else (decodePairs (decodeKey decoder fuel depth (mapDepth + 1))
        (decodeInterface decoder fuel false depth (mapDepth + 1)) entries.length []
        (encodeEntries compact entries ++ rest)).map (Prod.map (Value.map .any) id) := by
  obtain ⟨c, tail, length, form, code, read⟩ := LengthFamily.map.header_read entries.length sized
  have found : Code.ofByte c = .map length := code
  have count := length_le_encodeEntries compact entries
  have guard := containerLen_header length entries.length 2 tail (encodeEntries compact entries ++ rest)
    read (by rw [length_append]; omega)
  simp only [encode, form, append_assoc, cons_append, decodeInterface, found, bounded, guard]
  by_cases nested : maxDepth ≤ mapDepth
  · rw [if_pos nested, if_pos nested]
    rfl
  rw [if_neg nested, if_neg nested]
  by_cases large : maxPairs < entries.length
  · rw [if_pos large]
    exact if_pos large
  rw [if_neg large]
  exact (if_neg large).trans (bind_return (Value.map .any) _)

end

/-! Fuel for a container is fuel for what is in it. -/

section
variable {compact : Bool} {fuel : Nat}

theorem room_item {items : List Value} (enough : (encode compact (.arr items)).length ≤ fuel + 1) {item : Value}
    (member : item ∈ items) : ∃ inner, fuel = inner + 1 ∧ (encode compact item).length ≤ inner + 1 := by
  have header := LengthFamily.header_pos .array items.length
  have bound := encode_le_encodeItems compact member
  have positive := encode_pos compact item
  rw [encode, length_append] at enough
  exact ⟨fuel - 1, by omega, by omega⟩

theorem room_entry {kind : MapKind} {entries : List (Scalar × Value)}
    (enough : (encode compact (.map kind entries)).length ≤ fuel + 1) {entry : Scalar × Value}
    (member : entry ∈ entries) : ∃ inner, fuel = inner + 1 ∧ (encode compact entry.2).length ≤ inner + 1 := by
  have header := LengthFamily.header_pos .map entries.length
  have bound := encode_le_encodeEntries compact member
  have positive := encodeScalar_pos compact entry.1
  rw [encodeEntry, length_append] at bound
  rw [encode, length_append] at enough
  exact ⟨fuel - 1, by omega, by omega⟩

theorem decodeKey_encodeScalar (decoder : Decoder) {kind : MapKind} {entries : List (Scalar × Value)}
    (enough : (encode compact (.map kind entries)).length ≤ fuel + 1) (keys : ∀ entry ∈ entries, entry.1.Sized)
    (depth mapDepth : Nat) (entry : Scalar × Value) (member : entry ∈ entries) (rest : Bytes) :
    decodeKey decoder fuel depth mapDepth (encodeScalar compact entry.1 ++ rest) =
      .ok ((viewEntry compact decoder.loose entry).1, rest) := by
  obtain ⟨inner, rfl, _⟩ := room_entry enough member
  simp only [decodeKey, decode_encodeScalar decoder inner false depth mapDepth rest compact entry.1 (keys entry member),
    comparableKey, viewEntry]

end

/-- A decoder with the bounded map hook. -/
def Decoder.Bounded (decoder : Decoder) : Prop := ∃ maxDepth maxPairs, decoder.maps = .bounded maxDepth maxPairs

/-- Within the limits an encoding is decoded to its view, and exactly its bytes are consumed; beyond the limits
of a bounded decoder, decoding fails. -/
theorem reads_encode (decoder : Decoder) (compact : Bool) {value : Value} (sized : value.Sized)
    (fuel depth mapDepth : Nat) (loose : Bool) (enough : (encode compact value).length ≤ fuel) :
    Reads decoder.Bounded (Fits decoder depth mapDepth value) (decodeInterface decoder fuel loose depth mapDepth)
      (encode compact value) (view compact decoder.loose loose value) := by
  obtain ⟨fuel, rfl⟩ := Nat.exists_eq_add_one.mpr (lt_of_lt_of_le (encode_pos compact value) enough)
  intro rest
  induction value generalizing fuel depth mapDepth loose rest with
  | scalar s =>
    rw [encode, view]
    exact ⟨fun _ => decode_encodeScalar decoder fuel loose depth mapDepth rest compact s sized.here,
      fun _ unfit => absurd (.scalar depth mapDepth s) unfit⟩
  | bytes data =>
    rw [view]
    exact ⟨fun _ => decode_bytes decoder compact fuel depth mapDepth loose rest data sized.here,
      fun _ unfit => absurd (.bytes depth mapDepth data) unfit⟩
  | arr items ih =>
    have each (item : Value) (member : item ∈ items) :
        Reads decoder.Bounded (depth + 1 ≤ decoder.maxDepth ∧ Fits decoder (depth + 1) mapDepth item)
          (decodeInterfaceCond decoder fuel depth mapDepth) (encode compact item)
          (view compact decoder.loose decoder.loose item) := by
      intro rest
      obtain ⟨inner, rfl, within⟩ := room_item enough member
      have inside := ih item member (sized.elements item member) (depth + 1) mapDepth decoder.loose inner within rest
      unfold decodeInterfaceCond
      constructor
      · rintro ⟨shallow, fits⟩
        rw [if_neg (by omega), inside.1 fits]
      · intro bounded bad
        split
        · exact ⟨_, rfl⟩
        · exact inside.2 bounded fun fits => bad ⟨by omega, fits⟩
    have list := decodeMany_reads _ items each rest
    rw [decode_arr decoder compact fuel depth mapDepth loose rest items sized.here]
    constructor
    · intro fits
      obtain ⟨nesting, below⟩ := fits_arr_iff.mp fits
      rw [list.1 fun item member => ⟨nesting (ne_nil_of_mem member), below item member⟩, view, viewItems_eq_map]
      rfl
    · intro bounded unfit
      obtain ⟨error, failed⟩ := list.2 bounded fun fine => by
        refine unfit (fits_arr_iff.mpr ⟨fun some => ?_, fun item member => (fine item member).2⟩)
        obtain ⟨item, member⟩ := exists_mem_of_ne_nil items some
        exact (fine item member).1
      exact ⟨error, by rw [failed]; rfl⟩
  | map kind entries ih =>
    have each (entry : Scalar × Value) (member : entry ∈ entries) :
        Reads decoder.Bounded (Fits decoder depth (mapDepth + 1) entry.2)
          (decodeInterface decoder fuel false depth (mapDepth + 1)) (encode compact entry.2)
          (viewEntry compact decoder.loose entry).2 := by
      obtain ⟨inner, rfl, within⟩ := room_entry enough member
      exact ih entry member (sized.values entry member) depth (mapDepth + 1) false inner within
    have pairs := decodePairs_reads (viewEntry compact decoder.loose) entries
      (decodeKey_encodeScalar decoder enough sized.here.2 depth (mapDepth + 1)) each [] rest
    constructor
    · intro fits
      obtain ⟨maxDepth, maxPairs, bounded⟩ : decoder.Bounded := by
        cases fits
        exact ⟨_, _, by assumption⟩
      obtain ⟨nesting, few, below⟩ := (fits_map_iff bounded).mp fits
      rw [decode_map decoder compact fuel depth mapDepth loose rest maxDepth maxPairs bounded kind entries sized.here.1,
        if_neg (by omega), if_neg (by omega), pairs.1 below, view, viewEntries_eq_map]
      rfl
    · rintro ⟨maxDepth, maxPairs, bounded⟩ unfit
      rw [fits_map_iff bounded] at unfit
      rw [decode_map decoder compact fuel depth mapDepth loose rest maxDepth maxPairs bounded kind entries sized.here.1]
      split
      · exact ⟨_, rfl⟩
      split
      · exact ⟨_, rfl⟩
      obtain ⟨error, failed⟩ := pairs.2 ⟨_, _, bounded⟩ fun below => unfit ⟨by omega, by omega, below⟩
      exact ⟨error, by rw [failed]; rfl⟩

/-- Elements of an array, each decoded strictly from the start of the rest. -/
theorem elements_reads (decoder : Decoder) (compact : Bool) {items all : List Value}
    (among : ∀ item ∈ items, item ∈ all) (sized : ∀ item ∈ all, item.Sized) (fuel depth : Nat)
    (enough : (encodeItems compact all).length ≤ fuel) :
    Reads decoder.Bounded (∀ item ∈ items, Fits decoder depth 0 item)
      (decodeMany (decodeInterface decoder fuel false depth 0) items.length) (encodeItems compact items)
      (items.map (view compact decoder.loose false)) := by
  apply decodeMany_reads
  intro item member
  have bound := encode_le_encodeItems compact (among item member)
  exact reads_encode decoder compact (sized item (among item member)) fuel depth 0 false (bound.trans enough)

theorem decodeArrayLen_header {n : Nat} (small : n < 2 ^ 32) {body : Bytes} (enough : n ≤ body.length) :
    decodeArrayLen (LengthFamily.array.header n ++ body) = .ok ((n : Int), body) := by
  obtain ⟨c, tail, length, form, code, read⟩ := LengthFamily.array.header_read n small
  have found : Code.ofByte c = .array length := code
  have counted := containerLen_header length n 1 tail body read (by rwa [Nat.div_one])
  simp only [form, cons_append, decodeArrayLen, found, counted]

theorem decodeArrayLen_encode (compact : Bool) (items : List Value) (sized : items.length < 2 ^ 32) :
    decodeArrayLen (encode compact (.arr items)) = .ok ((items.length : Int), encodeItems compact items) := by
  rw [encode]
  exact decodeArrayLen_header sized (length_le_encodeItems compact items)

theorem unmarshalSlice_encode (compact : Bool) (items : List Value) (count : items.length < 2 ^ 32)
    (sized : ∀ item ∈ items, item.Sized) (fits : ∀ item ∈ items, Fits sliceDecoder 3 0 item) :
    unmarshalSlice (encode compact (.arr items)) = .ok (items.map (view compact false false)) := by
  have decoded := (elements_reads sliceDecoder compact (fun _ => id) sized _ 3 (Nat.le_succ _) []).1 fits
  rw [append_nil] at decoded
  simp only [unmarshalSlice, decodeArrayLen_encode compact items count, bind, Except.bind, Int.toNat_natCast, decoded,
    pure, Except.pure]
  rfl

/-! Lengths of encodings. -/

theorem header_length (family : LengthFamily) (n : Nat) : (family.header n).length =
    if n < family.fixedBound then 1 else if family.code8.isSome ∧ n < 256 then 2 else if n ≤ 0xffff then 3 else 5 := by
  unfold LengthFamily.header
  by_cases short : n < family.fixedBound
  · rw [if_pos short, if_pos short]
    rfl
  · rw [if_neg short, if_neg short]
    cases known : family.code8 with
    | none => split_ifs <;> simp_all
    | some c => by_cases byte : n < 256 <;> split_ifs <;> simp_all

theorem encodeUint_length (n : Nat) : (encodeUint n).length =
    if n ≤ 0x7f then 1 else if n ≤ 0xff then 2 else if n ≤ 0xffff then 3 else if n ≤ 0xffffffff then 5 else 9 := by
  unfold encodeUint
  split_ifs
  all_goals rfl

theorem scalar_sized {s : Scalar} (small : (encodeScalar true s).length < 2 ^ 32) : s.Sized := by
  cases s with
  | str text =>
    rw [encodeScalar, length_append] at small
    exact lt_of_le_of_lt (Nat.le_add_left _ _) small
  | _ => trivial

theorem sized_of_encode {value : Value} (small : (encode true value).length < 2 ^ 32) : value.Sized := by
  induction value with
  | scalar s =>
    rw [encode] at small
    exact .scalar (scalar_sized small)
  | bytes data =>
    rw [encode, length_append] at small
    exact .bytes (lt_of_le_of_lt (Nat.le_add_left _ _) small)
  | arr items ih =>
    rw [encode, length_append] at small
    have count := length_le_encodeItems true items
    refine .arr (by change items.length < 2 ^ 32; omega) fun item member => ih item member ?_
    have part := encode_le_encodeItems true member
    omega
  | map kind entries ih =>
    rw [encode, length_append] at small
    have count := length_le_encodeEntries true entries
    have part (entry : Scalar × Value) (member : entry ∈ entries) :
        (encodeScalar true entry.1).length + (encode true entry.2).length < 2 ^ 32 := by
      have within := encode_le_encodeEntries true member
      rw [encodeEntry, length_append] at within
      omega
    refine .map ⟨by omega, fun entry member => ?_⟩ fun entry member => ?_
    · exact scalar_sized (lt_of_le_of_lt (Nat.le_add_right _ _) (part entry member))
    · exact ih entry member (lt_of_le_of_lt (Nat.le_add_left _ _) (part entry member))

end ReticulumProtocols.Msgpack
