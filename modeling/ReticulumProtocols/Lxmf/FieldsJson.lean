import ReticulumProtocols.Cbor.Value
import ReticulumProtocols.Lxmf.Unpack
import ReticulumProtocols.Wire.Text

/-! The bridge between fields and the JSON of the test harness. The types that JSON lacks are told apart by conventions
inside strings: a byte slice is its hexadecimal form behind a prefix, and what the bridge does not know is printed. The
JSON text itself is left to the library; numbers are not among the fields here. -/

namespace ReticulumProtocols.Lxmf
open Wire Text List

inductive Json where
  | null
  | bool (value : Bool)
  | str (text : List Char)
  | arr (items : List Json)
  | obj (entries : List (List Char × Json))

/-- A tree of fields; a `map[byte]any` is the function of its lookups. -/
inductive JsonField where
  | nil
  | bool (value : Bool)
  | str (text : List Char)
  | bytes (data : Bytes)
  | arr (items : List JsonField)
  | map (entries : UInt8 → Option JsonField)

def hexMark : List Char := ['h', 'e', 'x', ':']

/-- `hex.EncodeToString`. -/
def hexText (data : Bytes) : List Char := (encodeHex data).map fun b => Char.ofNat b.toNat

def allKeys : List UInt8 := (range 256).map UInt8.ofNat

/-- The format `0x%02x`. -/
def keyText (key : UInt8) : List Char := ['0', 'x'] ++ hexText [key]

mutual

/-- `harnessOutValue`; nil is none of its cases, and `fmt.Sprint` prints it. -/
def harnessOutValue : JsonField → Json
  | .nil => .str ['<', 'n', 'i', 'l', '>']
  | .bool value => .bool value
  | .str text => .str text
  | .bytes data => .str (hexMark ++ hexText data)
  | .arr items => .arr (harnessOutItems items)
  | .map entries => .obj (allKeys.filterMap fun key => (harnessOutEntry (entries key)).map fun value => (keyText key, value))

def harnessOutItems : List JsonField → List Json
  | [] => []
  | item :: items => harnessOutValue item :: harnessOutItems items

def harnessOutEntry : Option JsonField → Option Json
  | none => none
  | some value => some (harnessOutValue value)

end

mutual

/-- `harnessJSONValue`, with `none` for an error. -/
def harnessJSONValue : Json → Option JsonField
  | .null => some .nil
  | .bool value => some (.bool value)
  | .str text =>
    if hexMark <+: text then (decodeHex (Cbor.utf8 (text.drop 4))).map .bytes else some (.str text)
  | .arr items => (harnessJSONItems items).map .arr
  | .obj entries => (harnessJSONEntries entries).map .map

def harnessJSONItems : List Json → Option (List JsonField)
  | [] => some []
  | item :: items => do
    let first ← harnessJSONValue item
    let others ← harnessJSONItems items
    return first :: others

/-- The loop over the keys of an object; of two keys for one byte the later one is kept. -/
def harnessJSONEntries : List (List Char × Json) → Option (UInt8 → Option JsonField)
  | [] => some fun _ => none
  | (text, value) :: entries => do
    let key ← (fieldKeyFromString (Cbor.utf8 text)).toOption
    let first ← harnessJSONValue value
    let others ← harnessJSONEntries entries
    return fun other => (others other).or (if other = key then some first else none)

end

mutual

def Json.depth : Json → Nat
  | .null | .bool _ | .str _ => 0
  | .arr items => 1 + depthItems items
  | .obj entries => 1 + depthEntries entries

def Json.depthItems : List Json → Nat
  | [] => 0
  | item :: items => max item.depth (depthItems items)

def Json.depthEntries : List (List Char × Json) → Nat
  | [] => 0
  | (_, value) :: entries => max value.depth (depthEntries entries)

end

def maxNestingDepth : Nat := 10000

/-- `json.Unmarshal` of what `json.Marshal` writes: the same value, unless the scanner gives up on its nesting. -/
def unmarshalled (tree : Json) : Option Json := if tree.depth ≤ maxNestingDepth then some tree else none

/-- `FieldsToHarnessJSON`; the fields are written like a map among them. -/
def fieldsToHarnessJSON (fields : UInt8 → Option JsonField) : Json := harnessOutValue (.map fields)

def fieldsFromHarnessJSON (data : Json) : Option (UInt8 → Option JsonField) :=
  match unmarshalled data with
  | some .null => some fun _ => none
  | some (.obj raw) => harnessJSONEntries raw
  | _ => none

/-! What comes back. -/

namespace JsonField

/-- Induction with the hypothesis on every element and every entry. -/
@[elab_as_elim, induction_eliminator]
theorem induction {motive : JsonField → Prop} (nil : motive .nil) (bool : ∀ value, motive (.bool value))
    (str : ∀ text, motive (.str text)) (bytes : ∀ data, motive (.bytes data))
    (arr : ∀ items, (∀ item ∈ items, motive item) → motive (.arr items))
    (map : ∀ entries, (∀ key value, entries key = some value → motive value) → motive (.map entries))
    (tree : JsonField) : motive tree :=
  @JsonField.rec motive (fun items => ∀ item ∈ items, motive item) (fun entry => ∀ value, entry = some value → motive value)
    nil bool str bytes arr map (fun _ => nofun)
    (fun _ _ first others _ member => (List.mem_cons.1 member).elim (fun same => same ▸ first) (others _))
    (fun _ => nofun) (fun _ inner _ same => Option.some.inj same ▸ inner) tree

/-- No nil and no text that looks like a byte slice, at any depth. -/
inductive Kept : JsonField → Prop where
  | bool (value : Bool) : Kept (.bool value)
  | str (text : List Char) (plain : ¬hexMark <+: text) : Kept (.str text)
  | bytes (data : Bytes) : Kept (.bytes data)
  | arr (items : List JsonField) (below : ∀ item ∈ items, Kept item) : Kept (.arr items)
  | map (entries : UInt8 → Option JsonField) (below : ∀ key value, entries key = some value → Kept value) :
      Kept (.map entries)

mutual

def depth : JsonField → Nat
  | .nil | .bool _ | .str _ | .bytes _ => 0
  | .arr items => 1 + depthItems items
  | .map entries => 1 + (allKeys.map fun key => depthEntry (entries key)).foldr max 0

def depthItems : List JsonField → Nat
  | [] => 0
  | item :: items => max item.depth (depthItems items)

def depthEntry : Option JsonField → Nat
  | none => 0
  | some value => value.depth

end

theorem depth_harnessOutValue (tree : JsonField) : (harnessOutValue tree).depth = tree.depth := by
  induction tree with
  | nil | bool | str | bytes => rfl
  | arr items ih =>
    rw [harnessOutValue, Json.depth, depth]
    congr 1
    induction items with
    | nil => rfl
    | cons item items later =>
      rw [harnessOutItems, Json.depthItems, depthItems, ih item mem_cons_self,
        later fun other member => ih other (mem_cons_of_mem item member)]
  | map entries ih =>
    rw [harnessOutValue, Json.depth, depth]
    congr 1
    induction allKeys with
    | nil => rfl
    | cons key keys later =>
      rw [filterMap_cons, map_cons, foldr_cons, ← later]
      cases found : entries key with
      | none => exact (Nat.zero_max _).symm
      | some value =>
        rw [depthEntry, ← ih key value found]
        rfl

end JsonField

theorem utf8_hexText (data : Bytes) : Cbor.utf8 (hexText data) = encodeHex data := by
  have digit : ∀ n < 16, String.utf8EncodeChar (Char.ofNat (hexChar n).toNat) = [hexChar n] := by decide
  induction data with
  | nil => rfl
  | cons b data ih =>
    have byte := b.toNat_lt
    have text : hexText (b :: data) =
        Char.ofNat (hexChar (b.toNat / 16)).toNat :: Char.ofNat (hexChar (b.toNat % 16)).toNat :: hexText data := rfl
    rw [Cbor.utf8] at ih ⊢
    rw [text, flatMap_cons, flatMap_cons, ih, digit _ (by omega), digit _ (by omega)]
    rfl

theorem fieldKeyFromString_keyText : ∀ key, fieldKeyFromString (Cbor.utf8 (keyText key)) = .ok key :=
  forall_byte (by decide +kernel)

theorem mem_allKeys (key : UInt8) : key ∈ allKeys :=
  mem_map.2 ⟨key.toNat, mem_range.2 key.toNat_lt, UInt8.ofNat_toNat⟩

/-- A value on its way out and back. -/
def returned (tree : JsonField) : Option JsonField := harnessJSONValue (harnessOutValue tree)

theorem returned_bytes (data : Bytes) : returned (.bytes data) = some (.bytes data) := by
  have behind : (hexMark ++ hexText data).drop 4 = hexText data := rfl
  rw [returned, harnessOutValue, harnessJSONValue, if_pos (prefix_append _ _), behind, utf8_hexText,
    decodeHex_encodeHex]
  rfl

theorem returned_str_iff (text : List Char) : returned (.str text) = some (.str text) ↔ ¬hexMark <+: text := by
  rw [returned, harnessOutValue, harnessJSONValue]
  split_ifs with marked
  · refine iff_of_false (fun same => ?_) (not_not_intro marked)
    obtain ⟨data, -, made⟩ := Option.map_eq_some_iff.1 same
    exact nomatch made
  · exact iff_of_true rfl marked

theorem harnessJSONItems_iff (items : List JsonField) :
    harnessJSONItems (harnessOutItems items) = some items ↔ ∀ item ∈ items, returned item = some item := by
  induction items with
  | nil => exact iff_of_true rfl fun _ => nofun
  | cons item items ih =>
    rw [forall_mem_cons, ← ih, harnessOutItems, harnessJSONItems, ← returned]
    cases returned item with
    | none => simp
    | some first =>
      cases harnessJSONItems (harnessOutItems items) with
      | none => simp
      | some others => simp

/-- What a loop over some of the keys of a map returns, if it returns. -/
theorem harnessJSONEntries_iff (entries back : UInt8 → Option JsonField) (keys : List UInt8) :
    harnessJSONEntries (keys.filterMap fun key =>
        (harnessOutEntry (entries key)).map fun value => (keyText key, value)) = some back ↔
      (∀ key ∈ keys, ∀ value, entries key = some value → (returned value).isSome) ∧
        back = fun key => if key ∈ keys then (entries key).bind returned else none := by
  induction keys generalizing back with
  | nil =>
    have empty : (fun key => if key ∈ ([] : List UInt8) then (entries key).bind returned else none) = fun _ => none :=
      funext fun key => if_neg not_mem_nil
    rw [filterMap_nil, harnessJSONEntries, Option.some_inj, empty]
    exact ⟨fun same => ⟨fun _ => nofun, same.symm⟩, fun both => both.2.symm⟩
  | cons key keys ih =>
    rw [filterMap_cons, forall_mem_cons]
    cases found : entries key with
    | none =>
      have same : (fun other => if other ∈ key :: keys then (entries other).bind returned else none) =
          fun other => if other ∈ keys then (entries other).bind returned else none := by
        funext other
        by_cases first : other = key
        · rw [first, found, Option.bind_none, ite_self, ite_self]
        · simp only [mem_cons, first, false_or]
      constructor
      · intro result
        obtain ⟨all, made⟩ := (ih back).1 result
        exact ⟨⟨fun _ => nofun, all⟩, made.trans same.symm⟩
      · rintro ⟨⟨-, all⟩, made⟩
        exact (ih back).2 ⟨all, made.trans same⟩
    | some value =>
      have step : harnessJSONEntries ((keyText key, harnessOutValue value) :: keys.filterMap fun key =>
          (harnessOutEntry (entries key)).map fun value => (keyText key, value)) =
          (returned value).bind fun first => (harnessJSONEntries (keys.filterMap fun key =>
            (harnessOutEntry (entries key)).map fun value => (keyText key, value))).map fun others other =>
              (others other).or (if other = key then some first else none) := by
        rw [harnessJSONEntries, fieldKeyFromString_keyText, ← returned]
        simp only [Option.map_eq_bind]
        rfl
      have same (first : JsonField) (read : returned value = some first) :
          (fun other => (if other ∈ keys then (entries other).bind returned else none).or
            (if other = key then some first else none)) =
          fun other => if other ∈ key :: keys then (entries other).bind returned else none := by
        funext other
        by_cases here : other = key
        · rw [here, found, Option.bind_some, read, if_pos rfl, if_pos mem_cons_self]
          split_ifs <;> rfl
        · rw [if_neg here, Option.or_none]
          simp only [mem_cons, here, false_or]
      apply Iff.trans (Eq.congr_left step)
      constructor
      · intro result
        obtain ⟨first, read, result⟩ := Option.bind_eq_some_iff.1 result
        obtain ⟨others, rest, rfl⟩ := Option.map_eq_some_iff.1 result
        obtain ⟨all, rfl⟩ := (ih others).1 rest
        refine ⟨⟨fun other given => ?_, all⟩, same first read⟩
        rw [← Option.some.inj given, read]
        rfl
      · rintro ⟨⟨some, all⟩, rfl⟩
        obtain ⟨first, read⟩ := Option.isSome_iff_exists.1 (some value rfl)
        rw [read, Option.bind_some, (ih _).2 ⟨all, rfl⟩, Option.map_some, same first read]

/-- A tree comes back exactly if it has no nil and no text that looks like a byte slice. -/
theorem returned_iff (tree : JsonField) : returned tree = some tree ↔ tree.Kept := by
  induction tree with
  | nil => exact iff_of_false (by simp [returned, harnessOutValue, harnessJSONValue, hexMark]) nofun
  | bool value => exact iff_of_true rfl (.bool value)
  | str text =>
    rw [returned_str_iff]
    exact ⟨.str text, fun | .str _ plain => plain⟩
  | bytes data => exact iff_of_true (returned_bytes data) (.bytes data)
  | arr items ih =>
    have items_iff := harnessJSONItems_iff items
    rw [returned, harnessOutValue, harnessJSONValue, Option.map_eq_some_iff]
    constructor
    · rintro ⟨read, found, made⟩
      cases made
      exact .arr items fun item member => (ih item member).1 (items_iff.1 found item member)
    · rintro (_ | _ | _ | ⟨_, below⟩)
      exact ⟨items, items_iff.2 fun item member => (ih item member).2 (below item member), rfl⟩
  | map entries ih =>
    rw [returned, harnessOutValue, harnessJSONValue, Option.map_eq_some_iff]
    have entries_iff := harnessJSONEntries_iff entries entries allKeys
    constructor
    · rintro ⟨read, found, made⟩
      cases made
      have back := (entries_iff.1 found).2
      refine .map entries fun key value given => (ih key value given).1 ?_
      have here := congrFun back key
      rw [if_pos (mem_allKeys key), given] at here
      exact here.symm
    · rintro (_ | _ | _ | _ | ⟨_, below⟩)
      have each := fun key value given => (ih key value given).2 (below key value given)
      refine ⟨entries, entries_iff.2 ⟨fun key _ value given => ?_, funext fun key => ?_⟩, rfl⟩
      · rw [each key value given]
        rfl
      · rw [if_pos (mem_allKeys key)]
        cases given : entries key with
        | none => rfl
        | some value => exact (each key value given).symm

/-- The fields are read back if they are as a tree, and if the scanner reaches their depth. -/
theorem fieldsFromHarnessJSON_eq_iff (fields : UInt8 → Option JsonField) :
    fieldsFromHarnessJSON (fieldsToHarnessJSON fields) = some fields ↔
      returned (.map fields) = some (.map fields) ∧ (JsonField.map fields).depth ≤ maxNestingDepth := by
  rw [← JsonField.depth_harnessOutValue, fieldsFromHarnessJSON, fieldsToHarnessJSON, unmarshalled, returned]
  by_cases shallow : (harnessOutValue (.map fields)).depth ≤ maxNestingDepth
  · rw [if_pos shallow, and_iff_left shallow, harnessOutValue, harnessJSONValue, Option.map_eq_some_iff]
    constructor
    · exact fun read => ⟨fields, read, rfl⟩
    · rintro ⟨back, read, made⟩
      cases made
      exact read
  · rw [if_neg shallow]
    exact iff_of_false nofun fun both => shallow both.2

/-- The fields come back exactly if none of them holds a nil or a text that looks like a byte slice, at any depth, and
they are not nested deeper than JSON is read. -/
theorem fieldsFromHarnessJSON_iff (fields : UInt8 → Option JsonField) :
    fieldsFromHarnessJSON (fieldsToHarnessJSON fields) = some fields ↔
      (JsonField.map fields).Kept ∧ (JsonField.map fields).depth ≤ maxNestingDepth := by
  rw [fieldsFromHarnessJSON_eq_iff, returned_iff]

def singleField (tree : JsonField) : UInt8 → Option JsonField := fun key => if key = 1 then some tree else none

theorem kept_of_singleField {tree : JsonField} (same : fieldsFromHarnessJSON (fieldsToHarnessJSON (singleField tree)) =
    some (singleField tree)) : tree.Kept := by
  cases (returned_iff _).1 ((fieldsFromHarnessJSON_eq_iff _).1 same).1 with
  | map _ below => exact below 1 tree rfl

/-- A nil comes back as a text, and a text as bytes. -/
theorem fieldsFromHarnessJSON_lossy :
    fieldsFromHarnessJSON (fieldsToHarnessJSON (singleField .nil)) ≠ some (singleField .nil) ∧
      fieldsFromHarnessJSON (fieldsToHarnessJSON (singleField (.str ['h', 'e', 'x', ':', '0', '0']))) ≠
        some (singleField (.str ['h', 'e', 'x', ':', '0', '0'])) := by
  constructor
  · exact fun same => nomatch kept_of_singleField same
  · intro same
    cases kept_of_singleField same with
    | str _ plain => exact plain (prefix_append hexMark ['0', '0'])

end ReticulumProtocols.Lxmf
