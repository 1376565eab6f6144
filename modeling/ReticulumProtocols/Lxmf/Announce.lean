import ReticulumProtocols.Cbor.Value
import ReticulumProtocols.Lxmf.Tickets

/-! The announces of delivery destinations. Old ones are the display name itself; new ones are msgpack arrays, told apart
by their first byte, and their third element is taken for a list of features if it is an array at all. -/

namespace ReticulumProtocols.Lxmf
open Wire Msgpack List

def maxAnnounceAppDataBytes : Nat := 8192
def announceAppDataArrayMax : Int := 32
def sfCompression : UInt8 := 0x00

inductive AnnounceError where
  | tooLarge
  | arrayTooLong
  | decode (error : DecodeError)
  | nameType
  deriving DecidableEq

/-- White space in UTF-8. -/
def whiteSpace : List Bytes :=
  [[0x09], [0x0a], [0x0b], [0x0c], [0x0d], [0x20], [0xc2, 0x85], [0xc2, 0xa0], [0xe1, 0x9a, 0x80], [0xe2, 0x80, 0xa8],
    [0xe2, 0x80, 0xa9], [0xe2, 0x80, 0xaf], [0xe2, 0x81, 0x9f], [0xe3, 0x80, 0x80]] ++
    (range 11).map fun i => [0xe2, 0x80, UInt8.ofNat (0x80 + i)]

def trimStart (spaces : List Bytes) : Nat → Bytes → Bytes
  | 0, s => s
  | fuel + 1, s =>
    match spaces.find? fun space => space.isPrefixOf s with
    | some space => trimStart spaces fuel (s.drop space.length)
    | none => s

/-- `strings.TrimSpace`. -/
def trimSpace (s : Bytes) : Bytes :=
  let s := trimStart whiteSpace s.length s
  (trimStart (whiteSpace.map List.reverse) s.length s.reverse).reverse

def sanitizeAnnounceDisplayName (raw : Bytes) : Bytes := trimSpace (raw.filter (· ≠ 0))

def isMsgpackArray (c : UInt8) : Bool := (0x90 ≤ c ∧ c ≤ 0x9f) ∨ c = 0xdc ∨ c = 0xdd

def unmarshalMsgpackArray (appData : Bytes) : Except AnnounceError (List Value) := do
  let (n, rest) ← (decodeArrayLen appData).mapError .decode
  if n = -1 then return []
  if announceAppDataArrayMax < n then .error .arrayTooLong
  let decode := decodeInterface payloadDecoder (appData.length + 1) false 0 0
  let (items, _) ← (decodeMany decode n.toNat rest).mapError .decode
  return items

/-- What the readers tell apart before they look at an element. -/
inductive AppData where
  | empty
  | legacy
  | array (items : List Value)

/-- The checks at the start of each reader. -/
def readAppData : Bytes → Except AnnounceError AppData
  | [] => .ok .empty
  | first :: rest =>
    if maxAnnounceAppDataBytes < (first :: rest).length then .error .tooLarge
    else if isMsgpackArray first then (unmarshalMsgpackArray (first :: rest)).map .array
    else .ok .legacy

def displayNameFromAppData (appData : Bytes) : Except AnnounceError Bytes := do
  match ← readAppData appData with
  | .empty | .array [] => return []
  | .legacy => return appData
  | .array (name :: _) =>
    match name with
    | .scalar .nil => return []
    | .bytes raw | .scalar (.str raw) => return sanitizeAnnounceDisplayName raw
    | _ => .error .nameType

/-- `StampCostFromAppData`, with `none` for a false `ok`. -/
def stampCostFromAppData (appData : Bytes) : Except AnnounceError (Option Int) := do
  match ← readAppData appData with
  | .array (_ :: .scalar (.int n) :: _) =>
    return if n.kind = .int ∨ n.kind = .uint ∨ n.val < 0 ∨ 2 ^ 63 ≤ n.val then none else some n.val
  | _ => return none

/-- A feature code, if it is an integer within a byte. -/
def featureCode : Value → Option UInt8
  | .scalar (.int n) => (asInt64 n).bind fun v => if v < 0 ∨ 0xff < v then none else some (UInt8.ofNat v.toNat)
  | _ => none

def compressionSupportFromAppData (appData : Bytes) : Except AnnounceError (Option Bool) := do
  match ← readAppData appData with
  | .empty => return none
  | .array (_ :: _ :: .arr codes :: _) => return some (codes.any fun c => featureCode c = some sfCompression)
  | _ => return some true

def featureSupportFromAppData (appData : Bytes) : Except AnnounceError (Option Bytes) := do
  match ← readAppData appData with
  | .array (_ :: _ :: .arr raw :: _) => return some (raw.filterMap featureCode)
  | _ => return none

/-! Legacy announces. -/

def encodeAnnounceAppData (displayName : Bytes) : Bytes := displayName

/-- A name as legacy data: it is read back, without a cost and without features. -/
def LegacyRead (name : Bytes) : Prop :=
  displayNameFromAppData (encodeAnnounceAppData name) = .ok name ∧
    stampCostFromAppData (encodeAnnounceAppData name) = .ok none ∧
    featureSupportFromAppData (encodeAnnounceAppData name) = .ok none

/-- The characters that UTF-8 begins with 0xdc or 0xdd. -/
def ArrayLike (c : Char) : Prop := 0x700 ≤ c.toNat ∧ c.toNat ≤ 0x77f

/-- A first character is taken for the header of an array exactly if it is among these, and its second byte is then the
high byte of the length. -/
theorem isMsgpackArray_first (c : Char) : ∃ first rest, String.utf8EncodeChar c = first :: rest ∧
    (isMsgpackArray first = true ↔ ArrayLike c) ∧
    (ArrayLike c → (first = 0xdc ∨ first = 0xdd) ∧ ∃ second, rest = [second] ∧ 0x80 ≤ second.toNat) := by
  have code : c.val.toNat = c.toNat := rfl
  have array : ∀ n < 256, isMsgpackArray (UInt8.ofNat n) = true ↔ (0x90 ≤ n ∧ n ≤ 0x9f) ∨ n = 0xdc ∨ n = 0xdd := by
    decide +kernel
  unfold String.utf8EncodeChar ArrayLike
  rw [code]
  dsimp only
  split
  · refine ⟨_, _, rfl, (array _ (by omega)).trans (by omega), fun like => by omega⟩
  split
  · refine ⟨_, _, rfl, (array _ (by omega)).trans (by omega), fun like => ⟨?_, _, rfl, ?_⟩⟩
    · have high : c.toNat / 64 % 32 + 192 = 0xdc ∨ c.toNat / 64 % 32 + 192 = 0xdd := by omega
      rcases high with high | high
      · rw [high]
        exact .inl rfl
      · rw [high]
        exact .inr rfl
    · rw [UInt8.toNat_ofNat']
      omega
  split
  · exact ⟨_, _, rfl, (array _ (by omega)).trans (by omega), fun like => by omega⟩
  · exact ⟨_, _, rfl, (array _ (by omega)).trans (by omega), fun like => by omega⟩

/-- A length that begins with a high bit is longer than any announce. -/
theorem containerLen_high (width : Nat) (wide : 2 ≤ width) {second : UInt8} (high : 0x80 ≤ second.toNat) {rest : Bytes}
    (short : rest.length ≤ maxAnnounceAppDataBytes) :
    ∃ error, containerLen (.field width) 1 (second :: rest) = .error error := by
  unfold containerLen Length.read Msgpack.take readN
  by_cases enough : width ≤ (second :: rest).length
  · obtain ⟨width, rfl⟩ := Nat.exists_eq_add_of_le' (le_trans one_le_two wide)
    rw [length_cons, Nat.add_le_add_iff_right] at enough
    have large : 0x80 * 256 ≤ second.toNat * 256 ^ width :=
      Nat.mul_le_mul high (Nat.le_self_pow (by omega) 256)
    simp only [length_cons, Nat.add_le_add_iff_right, enough, if_true, take_succ_cons, drop_succ_cons,
      beNat_cons, length_take, Nat.min_eq_left enough, Nat.div_one]
    rw [if_neg]
    · exact ⟨_, rfl⟩
    · rw [length_drop]
      rw [maxAnnounceAppDataBytes] at short
      omega
  · simp only [enough, if_false]
    exact ⟨_, rfl⟩

/-- A name is read back as legacy data exactly if its first character does not look like an array. -/
theorem legacyRead_iff (name : List Char) (short : (Cbor.utf8 name).length ≤ maxAnnounceAppDataBytes) :
    LegacyRead (Cbor.utf8 name) ↔ ∀ c ∈ name.head?, ¬ArrayLike c := by
  unfold LegacyRead encodeAnnounceAppData
  cases name with
  | nil =>
    apply iff_of_true ⟨rfl, rfl, rfl⟩
    intro c member
    contradiction
  | cons c name =>
    obtain ⟨first, rest, form, array, like⟩ := isMsgpackArray_first c
    have bytes : Cbor.utf8 (c :: name) = first :: (rest ++ Cbor.utf8 name) := by
      rw [Cbor.utf8, flatMap_cons, form]
      rfl
    have fits : ¬maxAnnounceAppDataBytes < (first :: (rest ++ Cbor.utf8 name)).length := by
      rw [← bytes]
      exact not_lt.2 short
    rw [bytes]
    simp only [List.head?_cons, Option.mem_def, Option.some.injEq, forall_eq']
    by_cases looks : ArrayLike c
    · refine iff_of_false (fun read => ?_) (not_not_intro looks)
      obtain ⟨codes, second, rfl, high⟩ := like looks
      have tail : (Cbor.utf8 name).length ≤ maxAnnounceAppDataBytes := by
        simp only [cons_append, nil_append, length_cons] at fits
        omega
      have refused : ∃ error, decodeArrayLen (first :: second :: Cbor.utf8 name) = .error error := by
        rcases codes with rfl | rfl
        · obtain ⟨error, failed⟩ := containerLen_high 2 le_rfl high tail
          have code : Code.ofByte 0xdc = .array (.field 2) := rfl
          exact ⟨error, by simp only [decodeArrayLen, code, failed]⟩
        · obtain ⟨error, failed⟩ := containerLen_high 4 (by decide) high tail
          have code : Code.ofByte 0xdd = .array (.field 4) := rfl
          exact ⟨error, by simp only [decodeArrayLen, code, failed]⟩
      obtain ⟨error, refused⟩ := refused
      have failed : displayNameFromAppData (first :: ([second] ++ Cbor.utf8 name)) = .error (.decode error) := by
        rw [displayNameFromAppData, readAppData, if_neg fits, if_pos (array.2 looks), unmarshalMsgpackArray,
          singleton_append, refused]
        rfl
      rw [failed] at read
      exact absurd read.1 (by simp)
    · have legacy : readAppData (first :: (rest ++ Cbor.utf8 name)) = .ok .legacy := by
        rw [readAppData, if_neg fits, if_neg (fun found => looks (array.1 found))]
      refine iff_of_true ⟨?_, ?_, ?_⟩ looks
      · rw [displayNameFromAppData, legacy]
        rfl
      · rw [stampCostFromAppData, legacy]
        rfl
      · rw [featureSupportFromAppData, legacy]
        rfl

theorem legacyRead_iff_bo : LegacyRead (Cbor.utf8 ['B', 'o']) :=
  (legacyRead_iff ['B', 'o'] (by decide)).2 fun c member => by
    cases member
    unfold ArrayLike
    decide

/-- A Syriac name. -/
theorem legacyRead_syriac : ¬LegacyRead (Cbor.utf8 ['ܐ', 'ܒ']) := by
  intro read
  exact absurd read.1 (by decide +kernel)

/-! Announces as arrays. -/

def marshalAnnounceAppData (payload : List Value) : Bytes := encode true (.arr payload)

def costElement (stampCost : Int64) : Value := if 0 ≤ stampCost then .int (.of .int64 stampCost.toInt) else .nil

def encodeAnnounceAppDataV5 (displayName : Bytes) (stampCost : Int64) : Bytes :=
  marshalAnnounceAppData [.bytes displayName, costElement stampCost]

def featureList (features : Bytes) : Value := .arr (features.map fun f => .scalar (byteKey f))

def encodeAnnounceAppDataV5WithFeatures (displayName : Bytes) (stampCost : Int64) (features : Option Bytes) : Bytes :=
  marshalAnnounceAppData ([.bytes displayName, costElement stampCost] ++ features.toList.map featureList)

def normalizeAnnounceRGB3 (rgb : Bytes) : Bytes := if 3 ≤ rgb.length then rgb.take 3 else [0, 0, 0]

def encodeAnnounceAppDataWithIcon (displayName : Bytes) (stampCost : Int64) (iconName fgRGB bgRGB : Bytes) : Bytes :=
  let name := trimSpace iconName
  let icon := [Value.str name, .bytes (normalizeAnnounceRGB3 fgRGB), .bytes (normalizeAnnounceRGB3 bgRGB)]
  marshalAnnounceAppData ([.bytes displayName, costElement stampCost] ++ if name ≠ [] then [.arr icon] else [])

inductive AnnounceForm where
  | v5
  | withFeatures (features : Option Bytes)
  | withIcon (iconName fgRGB bgRGB : Bytes)

namespace AnnounceForm
variable (displayName : Bytes) (stampCost : Int64)

def data : AnnounceForm → Bytes
  | v5 => encodeAnnounceAppDataV5 displayName stampCost
  | withFeatures features => encodeAnnounceAppDataV5WithFeatures displayName stampCost features
  | withIcon iconName fgRGB bgRGB => encodeAnnounceAppDataWithIcon displayName stampCost iconName fgRGB bgRGB

def features : AnnounceForm → Option Bytes
  | withFeatures features => features
  | _ => none

/-- No icon is shown. -/
def Plain : AnnounceForm → Prop
  | withIcon iconName _ _ => trimSpace iconName = []
  | _ => True

/-- The features are read back, and no list means that compression is supported. -/
def ReadBack (form : AnnounceForm) : Prop :=
  compressionSupportFromAppData (form.data displayName stampCost) =
      .ok (some (form.features.all fun list => decide (sfCompression ∈ list))) ∧
    featureSupportFromAppData (form.data displayName stampCost) = .ok form.features

end AnnounceForm

/-- The bytes of a byte slice, of a cost and of a list of features. -/
def sliceSize (n : Nat) : Nat := (if n < 256 then 2 else if n ≤ 0xffff then 3 else 5) + n

def costSize (stampCost : Int) : Nat :=
  if stampCost < 128 then 1
  else if stampCost < 256 then 2
  else if stampCost < 65536 then 3
  else if stampCost < 4294967296 then 5
  else 9

def listSize (features : Bytes) : Nat :=
  (if features.length < 16 then 1 else if features.length ≤ 0xffff then 3 else 5) + features.length +
    features.countP fun f => 0x7f < f.toNat

theorem encode_bytes_length (data : Bytes) : (encode true (.bytes data)).length = sliceSize data.length := by
  rw [encode, length_append, header_length, sliceSize]
  simp [LengthFamily.bin]

theorem encode_cost_length (stampCost : Int64) :
    (encode true (costElement stampCost)).length = costSize stampCost.toInt := by
  have low := stampCost.le_toInt
  have high := stampCost.toInt_lt
  have value : IntKind.int64.wrap stampCost.toInt = stampCost.toInt := IntKind.wrap_eq_self .int64 _ low high
  unfold costElement costSize
  split
  next given =>
    have nonneg : 0 ≤ stampCost.toInt := Int64.le_iff_toInt_le.1 given
    have whole : encode true (.int (.of .int64 stampCost.toInt)) = encodeInt (IntKind.int64.wrap stampCost.toInt) := by
      rw [encode]
      rfl
    rw [whole, value, encodeInt, if_pos nonneg, encodeUint_length]
    split_ifs
    all_goals omega
  next unset =>
    have negative : stampCost.toInt < 0 := by
      rw [Int64.le_iff_toInt_le, Int64.toInt_zero] at unset
      exact not_le.1 unset
    rw [if_pos (by omega)]
    rfl

theorem encode_featureList_length (features : Bytes) : (encode true (featureList features)).length = listSize features := by
  have items : (encodeItems true (features.map fun f => .scalar (byteKey f))).length =
      features.length + features.countP fun f => 0x7f < f.toNat := by
    induction features with
    | nil => rfl
    | cons f features ih =>
      have small := f.toNat_lt
      have value : IntKind.uint8.wrap f.toNat = f.toNat := IntKind.wrap_eq_self .uint8 _ (by simp [IntKind.signed]) (by
        simp [IntKind.signed, IntKind.bits]; omega)
      have one : (encode true (.scalar (byteKey f))).length = 1 + if 0x7f < f.toNat then 1 else 0 := by
        have whole : encode true (.scalar (byteKey f)) = encodeUint (IntKind.uint8.wrap f.toNat).toNat := by
          rw [encode]
          rfl
        rw [whole, value, Int.toNat_natCast, encodeUint_length]
        split_ifs
        all_goals omega
      rw [map_cons, encodeItems, length_append, one, ih, length_cons, countP_cons]
      simp only [decide_eq_true_eq]
      omega
  rw [featureList, encode, length_append, header_length, items, listSize, length_map]
  simp only [LengthFamily.array, Option.isSome_none, Bool.false_eq_true, false_and, if_false]
  omega

theorem readAppData_marshal {payload : List Value} (few : payload.length < 16) (sized : ∀ item ∈ payload, item.Sized)
    (fits : ∀ item ∈ payload, Fits payloadDecoder 0 0 item)
    (small : (marshalAnnounceAppData payload).length ≤ maxAnnounceAppDataBytes) :
    readAppData (marshalAnnounceAppData payload) = .ok (.array (payload.map (view true true false))) := by
  have header : LengthFamily.array.header payload.length = [0x90 ||| UInt8.ofNat payload.length] := if_pos few
  have form : marshalAnnounceAppData payload = (0x90 ||| UInt8.ofNat payload.length) :: encodeItems true payload := by
    rw [marshalAnnounceAppData, encode, header, singleton_append]
  have code : ∀ n < 16, isMsgpackArray (0x90 ||| UInt8.ofNat n) = true := by decide
  have decoded := (elements_reads payloadDecoder true (fun _ => id) sized ((marshalAnnounceAppData payload).length + 1) 0
    (by rw [form, length_cons]; omega) []).1 fits
  rw [append_nil] at decoded
  have array : unmarshalMsgpackArray (marshalAnnounceAppData payload) = .ok (payload.map (view true true false)) := by
    have count := decodeArrayLen_encode true payload (by omega)
    rw [← marshalAnnounceAppData] at count
    simp only [unmarshalMsgpackArray, count, decoded, Except.mapError, bind, Except.bind, Int.toNat_natCast, pure, Except.pure]
    rw [if_neg (by omega), if_neg (by rw [announceAppDataArrayMax]; omega)]
    rfl
  rw [form] at small array ⊢
  rw [readAppData, if_neg (not_lt.2 small), if_pos (code _ few), array]
  rfl

namespace AnnounceForm
variable {displayName : Bytes} {stampCost : Int64} (form : AnnounceForm)

/-- What is behind the name and the cost. -/
def third : AnnounceForm → List Value
  | v5 => []
  | withFeatures features => features.toList.map featureList
  | withIcon iconName fgRGB bgRGB =>
    if trimSpace iconName ≠ [] then
      [.arr [.str (trimSpace iconName), .bytes (normalizeAnnounceRGB3 fgRGB), .bytes (normalizeAnnounceRGB3 bgRGB)]]
    else []

theorem data_eq : form.data displayName stampCost =
    marshalAnnounceAppData ([.bytes displayName, costElement stampCost] ++ form.third) := by
  cases form with
  | v5 => rfl
  | withFeatures features => rfl
  | withIcon iconName fgRGB bgRGB => rfl

theorem third_cases : (form.third = [] ∧ form.Plain ∧ form.features = none) ∨
    (∃ list, form.third = [featureList list] ∧ form.Plain ∧ form.features = some list) ∨
    ∃ name fg bg, form.third = [.arr [.str name, .bytes fg, .bytes bg]] ∧ ¬form.Plain ∧ form.features = none := by
  cases form with
  | v5 => exact .inl ⟨rfl, trivial, rfl⟩
  | withFeatures features =>
    cases features with
    | none => exact .inl ⟨rfl, trivial, rfl⟩
    | some list => exact .inr (.inl ⟨list, rfl, trivial, rfl⟩)
  | withIcon iconName fgRGB bgRGB =>
    by_cases shown : trimSpace iconName = []
    · exact .inl ⟨if_neg (not_not_intro shown), shown, rfl⟩
    · exact .inr (.inr ⟨_, _, _, if_pos shown, shown, rfl⟩)

theorem fits_third : ∀ item ∈ [.bytes displayName, costElement stampCost] ++ form.third, Fits payloadDecoder 0 0 item := by
  have flat (items : List Value) (plain : ∀ item ∈ items, Fits payloadDecoder 1 0 item) :
      Fits payloadDecoder 0 0 (.arr items) := .arr 0 0 items (fun _ => by decide) plain
  have cost : Fits payloadDecoder 0 0 (costElement stampCost) := by
    unfold costElement
    split
    · exact .scalar 0 0 _
    · exact .scalar 0 0 _
  intro item member
  rcases mem_append.1 member with front | behind
  · rcases mem_pair.1 front with rfl | rfl
    · exact .bytes 0 0 _
    · exact cost
  rcases form.third_cases with ⟨none, -⟩ | ⟨list, one, -⟩ | ⟨name, fg, bg, one, -⟩
  · rw [none] at behind
    contradiction
  · rw [one, mem_singleton] at behind
    subst behind
    apply flat
    intro item member
    obtain ⟨f, -, rfl⟩ := mem_map.1 member
    exact .scalar 1 0 _
  · rw [one, mem_singleton] at behind
    subst behind
    apply flat
    intro item member
    simp only [mem_cons, not_mem_nil, or_false] at member
    rcases member with rfl | rfl | rfl
    · exact .scalar 1 0 _
    · exact .bytes 1 0 _
    · exact .bytes 1 0 _

theorem featureCode_view (f : UInt8) : featureCode (view true true true (.scalar (byteKey f))) = some f := by
  have value : (viewInt true true (.of .uint8 f.toNat)).val = f.toNat := by
    rw [viewInt_val]
    exact IntKind.wrap_eq_self .uint8 _ (by simp [IntKind.signed]) (by
      have := f.toNat_lt
      simp [IntKind.signed, IntKind.bits]
      omega)
  have small := f.toNat_lt
  rw [view, byteKey, viewScalar, featureCode, asInt64, value, if_pos (by omega), Option.bind_some, if_neg (by omega),
    Int.toNat_natCast, UInt8.ofNat_toNat]

/-- The features are read back exactly if no icon stands in their place and the data are not too long. -/
theorem readBack_iff (displayName : Bytes) (stampCost : Int64) (form : AnnounceForm) :
    form.ReadBack displayName stampCost ↔ form.Plain ∧
      1 + sliceSize displayName.length + costSize stampCost.toInt + form.features.elim 0 listSize ≤
        maxAnnounceAppDataBytes := by
  have few : ([.bytes displayName, costElement stampCost] ++ form.third).length < 16 := by
    rcases form.third_cases with ⟨one, -⟩ | ⟨list, one, -⟩ | ⟨name, fg, bg, one, -⟩
    all_goals
      rw [one]
      simp
  have size (plain : form.Plain) : (form.data displayName stampCost).length =
      1 + sliceSize displayName.length + costSize stampCost.toInt + form.features.elim 0 listSize := by
    rw [data_eq, marshalAnnounceAppData, encode, length_append, header_length,
      if_pos (show _ < LengthFamily.array.fixedBound from few), ← encode_bytes_length, ← encode_cost_length]
    rcases form.third_cases with ⟨one, -, found⟩ | ⟨list, one, -, found⟩ | ⟨name, fg, bg, -, shown, -⟩
    · simp [one, found, encodeItems, add_assoc]
    · simp [one, found, encodeItems, encode_featureList_length, add_assoc]
    · exact absurd plain shown
  by_cases small : (form.data displayName stampCost).length ≤ maxAnnounceAppDataBytes
  · have sized : ∀ item ∈ [.bytes displayName, costElement stampCost] ++ form.third, item.Sized := by
      intro item member
      have part := encode_le_encodeItems true member
      apply sized_of_encode
      rw [data_eq, marshalAnnounceAppData, encode, length_append] at small
      rw [maxAnnounceAppDataBytes] at small
      omega
    have array := readAppData_marshal few sized form.fits_third (data_eq form ▸ small)
    rw [← data_eq, map_append] at array
    rcases form.third_cases with ⟨one, plain, found⟩ | ⟨list, one, plain, found⟩ | ⟨name, fg, bg, one, shown, found⟩
    · refine iff_of_true ?_ ⟨plain, size plain ▸ small⟩
      rw [ReadBack, compressionSupportFromAppData, featureSupportFromAppData, array, one, found]
      exact ⟨rfl, rfl⟩
    · refine iff_of_true ?_ ⟨plain, size plain ▸ small⟩
      have codes : (list.map fun f => view true true true (.scalar (byteKey f))).filterMap featureCode = list := by
        rw [filterMap_map]
        exact (filterMap_congr fun f _ => featureCode_view f).trans (filterMap_some)
      have any : ((list.map fun f => view true true true (.scalar (byteKey f))).any fun c =>
          decide (featureCode c = some sfCompression)) = decide (sfCompression ∈ list) := by
        rw [Bool.eq_iff_iff]
        simp [any_map, featureCode_view]
      have viewed : view true true false (featureList list) =
          .arr (list.map fun f => view true true true (.scalar (byteKey f))) := by
        rw [featureList, view, viewItems_eq_map, map_map]
        rfl
      rw [ReadBack, compressionSupportFromAppData, featureSupportFromAppData, array, one, found, map_singleton, viewed]
      exact ⟨congrArg (Except.ok ∘ some) any, congrArg (Except.ok ∘ some) codes⟩
    · refine iff_of_false (fun read => ?_) fun both => shown both.1
      rw [ReadBack, featureSupportFromAppData, array, one, found] at read
      exact absurd read.2 (by simp [view, bind, Except.bind, pure, Except.pure])
  · refine iff_of_false (fun read => ?_) fun both => small (size both.1 ▸ both.2)
    have refused : readAppData (form.data displayName stampCost) = .error .tooLarge := by
      cases form : form.data displayName stampCost with
      | nil =>
        rw [form] at small
        exact absurd (Nat.zero_le _) small
      | cons first rest => 
        rw [form] at small
        rw [readAppData, if_pos (not_le.1 small)]
    rw [ReadBack, featureSupportFromAppData, refused] at read
    exact absurd read.2 (by simp [bind, Except.bind])

end AnnounceForm

/-- An icon in an announce hides that compression is supported. -/
theorem readBack_icon : ¬(AnnounceForm.withIcon [0x61] [] []).ReadBack [] 0 := by
  intro read
  exact absurd read.2 (by decide +kernel)

end ReticulumProtocols.Lxmf
