import ReticulumProtocols.Lxmf.Announce
import ReticulumProtocols.Lxmf.PeerRecord
import ReticulumProtocols.Msgpack.Skip

/-! The announces of propagation nodes. Their reader drives the decoder by hand: it asks for seven elements of known types
and passes over what is behind them, in the announce and in its list of costs. -/

namespace ReticulumProtocols.Lxmf
open Wire Msgpack List

def pnMetaName : UInt8 := 0x01
def maxPNAnnounceBytes : Nat := 262144

/-- The arguments of `EncodePNAnnounceAppData`. -/
structure PNAnnounce where
  timebase : Int64
  nodeState : Bool
  transferLimitKB : Int64
  syncLimitKB : Int64
  stampTarget : Int64
  stampFlex : Int64
  peeringCost : Int64
  nodeName : Bytes

def int64Element (n : Int64) : Value := .int (.of .int64 n.toInt)

namespace PNAnnounce
variable (a : PNAnnounce)

def metadata : List (Scalar × Value) := if a.nodeName = [] then [] else [(byteKey pnMetaName, .bytes a.nodeName)]

def costs : List Value := [int64Element a.stampTarget, int64Element a.stampFlex, int64Element a.peeringCost]

def front : List Value :=
  [.nil, int64Element a.timebase, .bool a.nodeState, int64Element a.transferLimitKB, int64Element a.syncLimitKB]

end PNAnnounce

def encodePNAnnounceAppData (a : PNAnnounce) : Bytes :=
  marshalAnnounceAppData (a.front ++ [.arr a.costs, .map .byte a.metadata])

/-- An element of another type ends the reading without an error; the end of the data is an error. -/
def typed {α : Type} : Except DecodeError α → Except DecodeError (Option α)
  | .ok value => .ok (some value)
  | .error .eof => .error .eof
  | .error _ => .ok none

def defaultDecodeDepthLimit : Nat := 10000

/-- `Skip` with the limit that a decoder has if none is set. -/
def skipElement : Bytes → Except DecodeError Bytes := skip defaultDecodeDepthLimit defaultDecodeDepthLimit

/-- What `decodePNAnnounceArray` does with data that are not too long. The first element is passed over whatever it is. -/
def readPNAnnounce (data : Bytes) : Except DecodeError (Option (List Value)) := do
  let (n, rest) ← decodeArrayLen data
  if n < 7 then return none
  let rest ← skipElement rest
  let some (v1, rest) ← typed (decodeInt64 rest) | return none
  let some (v2, rest) ← typed (decodeBool rest) | return none
  let some (v3, rest) ← typed (decodeInt64 rest) | return none
  let some (v4, rest) ← typed (decodeInt64 rest) | return none
  let (na, rest) ← decodeArrayLen rest
  if na < 3 then return none
  let some (ca0, rest) ← typed (decodeInt64 rest) | return none
  let some (ca1, rest) ← typed (decodeInt64 rest) | return none
  let some (ca2, rest) ← typed (decodeInt64 rest) | return none
  let rest ← skipMany skipElement (na - 3).toNat rest
  let (v6, rest) ← decodeInterface payloadDecoder (rest.length + 1) false 0 0 rest
  let _ ← skipMany skipElement (n - 7).toNat rest
  let int (v : Int) : Value := .int (.of .int64 v)
  return some [.nil, int v1, .bool v2, int v3, int v4, .arr [int ca0, int ca1, int ca2], v6]

/-- `decodePNAnnounceArray`, with `none` for a nil array. -/
def decodePNAnnounceArray (data : Bytes) : Except AnnounceError (Option (List Value)) :=
  if data = [] then .ok none
  else if maxPNAnnounceBytes < data.length then .error .tooLarge
  else (readPNAnnounce data).mapError .decode

/-- `asInt64` of an untyped value. -/
def valueInt64 : Value → Option Int
  | .scalar (.int n) => asInt64 n
  | _ => none

def pnAnnounceDataIsValid (data : Bytes) : Bool :=
  match decodePNAnnounceArray data with
  | .ok (some (_ :: v1 :: .scalar (.bool _) :: v3 :: v4 :: .arr (ca0 :: ca1 :: ca2 :: _) :: .map kind _ :: _)) =>
    kind ≠ .byte && [v1, v3, v4, ca0, ca1, ca2].all fun v => (valueInt64 v).isSome
  | _ => false

/-- `PNStampCostFromAppData`; `none` is a false `ok`. -/
def pnStampCostFromAppData (data : Bytes) : Except AnnounceError (Option Int) := do
  match ← decodePNAnnounceArray data with
  | some (_ :: _ :: _ :: _ :: _ :: .arr (ca0 :: _ :: _ :: _) :: .map kind _ :: _) =>
    if kind = .byte then return none
    else return (valueInt64 ca0).filter fun cost => 0 ≤ cost
  | _ => return none

def decodePNNameValue : Value → Option Bytes
  | .bytes name | .scalar (.str name) => some name
  | _ => none

/-- `PNNameFromAppData`; `visit` is the order in which `lookupAnyKey` meets the metadata. -/
def pnNameFromAppData (visit : Visit) (data : Bytes) : Except AnnounceError (Option Bytes) := do
  match ← decodePNAnnounceArray data with
  | some (_ :: _ :: _ :: _ :: _ :: .arr (_ :: _ :: _ :: _) :: .map .any md :: _) =>
    let found := (visit.run md).find? fun entry => valueInt64 (.scalar entry.1) = some (pnMetaName.toNat : Int)
    return found.bind fun entry => decodePNNameValue entry.2
  | some (_ :: _ :: _ :: _ :: _ :: .arr (_ :: _ :: _ :: _) :: .map .string md :: _) =>
    let found := md.find? fun entry => entry.1 = .str [pnMetaName]
    return found.bind fun entry => decodePNNameValue entry.2
  | _ => return none

/-- What `decodePNAnnouncePayload` returns to the announce handler. -/
structure PNPayload where
  timebase : Int
  enabled : Bool
  transfer : Int
  sync : Int
  stampCost : Int
  stampFlex : Int
  peeringCost : Int
  metadata : Option Fields

def decodePNAnnouncePayload (data : Bytes) : Option PNPayload :=
  match decodePNAnnounceArray data with
  | .ok (some (_ :: v1 :: v2 :: v3 :: v4 :: .arr (ca0 :: ca1 :: ca2 :: _) :: md :: _)) =>
    some
      { timebase := (valueInt64 v1).getD 0
        enabled := match v2 with | .scalar (.bool enabled) => enabled | _ => false
        transfer := (valueInt64 v3).getD (-1)
        sync := (valueInt64 v4).getD (-1)
        stampCost := (valueInt64 ca0).getD (-1)
        stampFlex := (valueInt64 ca1).getD (-1)
        peeringCost := (valueInt64 ca2).getD (-1)
        metadata := readMetadata md }
  | _ => none

/-! Announces that are read back. -/

namespace PNAnnounce
variable (a : PNAnnounce)

/-- The metadata as a map of bytes. -/
def fields : Fields := if a.nodeName = [] then ∅ else (∅ : Fields).insert pnMetaName (.bytes a.nodeName)

/-- All readers find the values of the announce in the data, and an empty name is absent. -/
structure ReadFrom (data : Bytes) : Prop where
  valid : pnAnnounceDataIsValid data = true
  cost : pnStampCostFromAppData data = .ok (some a.stampTarget.toInt)
  name : ∀ visit, pnNameFromAppData visit data = .ok (if a.nodeName = [] then none else some a.nodeName)
  payload : decodePNAnnouncePayload data = some
    { timebase := a.timebase.toInt, enabled := a.nodeState, transfer := a.transferLimitKB.toInt
      sync := a.syncLimitKB.toInt, stampCost := a.stampTarget.toInt, stampFlex := a.stampFlex.toInt
      peeringCost := a.peeringCost.toInt, metadata := some a.fields }

/-- The announce with `count` elements behind the seven, which begin `tail`, and more elements behind the costs. -/
def extendedWith (costExtras : List Bytes) (count : Nat) (tail : Bytes) : Bytes :=
  LengthFamily.array.header (7 + count) ++ (encodeItems true a.front ++
    (LengthFamily.array.header (3 + costExtras.length) ++ (encodeItems true a.costs ++ (costExtras.flatten ++
      (encode true (.map .byte a.metadata) ++ tail)))))

/-- The announce with elements behind its costs and behind itself. -/
def extended (costExtras extras : List Bytes) : Bytes := a.extendedWith costExtras extras.length extras.flatten

theorem extended_nil : a.extended [] [] = encodePNAnnounceAppData a := by
  simp [extended, extendedWith, encodePNAnnounceAppData, marshalAnnounceAppData, encode, encodeItems, front, costs]

/-- What the reader has in the end. -/
def elements : List Value :=
  [.nil, int64Element a.timebase, .bool a.nodeState, int64Element a.transferLimitKB, int64Element a.syncLimitKB,
    .arr a.costs, view true true false (.map .byte a.metadata)]

end PNAnnounce

theorem decodeInt64_element (n : Int64) (rest : Bytes) :
    typed (decodeInt64 (encode true (int64Element n) ++ rest)) = .ok (some (n.toInt, rest)) := by
  have value : IntKind.int64.wrap n.toInt = n.toInt := IntKind.wrap_eq_self .int64 _ n.le_toInt n.toInt_lt
  have form : encode true (int64Element n) = encodeInt (IntKind.int64.wrap n.toInt) := by
    rw [int64Element, encode]
    rfl
  rw [form, value, decodeInt64_encodeInt n.toInt n.le_toInt n.toInt_lt]
  rfl

theorem decodeBool_element (value : Bool) (rest : Bytes) :
    typed (decodeBool (encode true (.bool value) ++ rest)) = .ok (some (value, rest)) := by
  cases value <;> rfl

namespace PNAnnounce
variable {a : PNAnnounce} {costExtras : List Bytes} {count : Nat} {tail : Bytes}

theorem decode_metadata (named : a.nodeName.length < 2 ^ 32) (rest : Bytes) :
    decodeInterface payloadDecoder ((encode true (.map .byte a.metadata) ++ rest).length + 1) false 0 0
      (encode true (.map .byte a.metadata) ++ rest) = .ok (view true true false (.map .byte a.metadata), rest) := by
  have entries : ∀ entry ∈ a.metadata, entry = (byteKey pnMetaName, .bytes a.nodeName) := by
    intro entry member
    unfold metadata at member
    split_ifs at member
    · contradiction
    · exact mem_singleton.1 member
  have one : a.metadata.length ≤ 1 := by
    unfold metadata
    split_ifs <;> simp
  have sized : Value.Sized (.map .byte a.metadata) := by
    refine .map ⟨by omega, fun entry member => ?_⟩ fun entry member => ?_
    · exact entries entry member ▸ trivial
    · rw [entries entry member]
      exact .bytes named
  apply (reads_encode payloadDecoder true sized _ 0 0 false ?_ rest).1
  · refine .map 0 0 16 1024 .byte _ rfl (by decide) (by omega) fun entry member => ?_
    rw [entries entry member]
    exact .bytes ..
  · rw [length_append]
    omega

theorem nodeName_length_le : a.nodeName.length ≤ (encode true (.map .byte a.metadata)).length := by
  by_cases empty : a.nodeName = []
  · rw [empty]
    exact Nat.zero_le _
  · have bytes : (encode true (.bytes a.nodeName)).length ≤ (encodeEntries true a.metadata).length := by
      rw [metadata, if_neg empty, encodeEntries, length_append, length_append]
      omega
    have whole : encode true (.map .byte a.metadata) =
        LengthFamily.map.header a.metadata.length ++ encodeEntries true a.metadata := by rw [encode]
    rw [encode, length_append] at bytes
    rw [whole, length_append]
    omega

/-- What is behind the metadata decides whether the array is read. -/
theorem readPNAnnounce_extendedWith (few : 7 + count < 2 ^ 32) (enough : count ≤ tail.length)
    (wellFormed : ∀ extra ∈ costExtras, Element defaultDecodeDepthLimit extra)
    (small : (a.extendedWith costExtras count tail).length < 2 ^ 32) :
    readPNAnnounce (a.extendedWith costExtras count tail) =
      (skipMany skipElement count tail).map fun _ => some a.elements := by
  have front : 5 ≤ (encodeItems true a.front).length := length_le_encodeItems true a.front
  have costs : 3 ≤ (encodeItems true a.costs).length := length_le_encodeItems true a.costs
  have extras := length_le_flatten fun extra member => (wellFormed extra member).pos
  have md := encode_pos true (.map .byte a.metadata)
  have named := a.nodeName_length_le
  rw [extendedWith] at small ⊢
  simp only [length_append] at small
  have skipped := fun rest => skipMany_flatten
    (fun extra member => skip_element defaultDecodeDepthLimit (wellFormed extra member)) rest
  have nil : ∀ rest, skipElement (encode true .nil ++ rest) = .ok rest := by
    have form : encode true .nil = [0xc0] := by
      rw [encode]
      rfl
    have plain : Element defaultDecodeDepthLimit [0xc0] := .plain rfl
    rw [form]
    exact skip_element defaultDecodeDepthLimit plain
  have behind : ((7 + count : Nat) : Int) - 7 = count := by omega
  have more : ((3 + costExtras.length : Nat) : Int) - 3 = costExtras.length := by omega
  rw [readPNAnnounce, decodeArrayLen_header few (by simp only [length_append]; omega)]
  simp only [bind, Except.bind]
  rw [if_neg (by omega)]
  simp only [PNAnnounce.front, encodeItems, append_assoc, nil_append, nil, decodeInt64_element,
    decodeBool_element]
  rw [decodeArrayLen_header (by omega) (by simp only [length_append]; omega)]
  dsimp only
  rw [if_neg (by omega)]
  simp only [PNAnnounce.costs, encodeItems, append_assoc, nil_append, decodeInt64_element, more,
    Int.toNat_natCast, skipElement, skipped, decode_metadata (named.trans_lt (by omega)), behind]
  cases skipMany (skip defaultDecodeDepthLimit defaultDecodeDepthLimit) count tail with
  | error error => rfl
  | ok rest => rfl

theorem valueInt64_element (n : Int64) : valueInt64 (int64Element n) = some n.toInt := by
  have value : IntKind.int64.wrap n.toInt = n.toInt := IntKind.wrap_eq_self .int64 _ n.le_toInt n.toInt_lt
  have inside : (GoInt.of .int64 n.toInt).val < 2 ^ 63 := value.trans_lt n.toInt_lt
  rw [int64Element, valueInt64, asInt64, if_pos inside]
  exact congrArg some value

theorem view_metadata : view true true false (.map .byte a.metadata) =
    .map .any (if a.nodeName = [] then [] else [(.int (.of .int8 1), .bytes a.nodeName)]) := by
  unfold metadata
  split_ifs
  · rfl
  · rw [view, viewEntries, view]
    rfl

theorem readFrom_of_decoded {data : Bytes} (nonneg : 0 ≤ a.stampTarget)
    (decoded : decodePNAnnounceArray data = .ok (some a.elements)) : a.ReadFrom data := by
  rw [elements, view_metadata, costs] at decoded
  have cost : 0 ≤ a.stampTarget.toInt := Int64.le_iff_toInt_le.1 nonneg
  constructor
  case valid => simp [pnAnnounceDataIsValid, decoded, valueInt64_element]
  case cost =>
    simp only [pnStampCostFromAppData, decoded, valueInt64_element, bind, Except.bind]
    rw [if_neg (by decide), Option.filter_some, if_pos (decide_eq_true cost)]
    rfl
  case name =>
    intro visit
    have key : valueInt64 (.scalar (.int (.of .int8 1))) = some (pnMetaName.toNat : Int) := by decide
    have one : ∀ entry : Scalar × Value, visit.run [entry] = [entry] := fun entry =>
      perm_singleton.1 (visit.perm [entry])
    simp only [pnNameFromAppData, decoded, bind, Except.bind, pure, Except.pure]
    by_cases empty : a.nodeName = []
    · rw [if_pos empty, if_pos empty, (visit.perm []).eq_nil]
      rfl
    · rw [if_neg empty, if_neg empty, one, List.find?_cons_of_pos]
      · rfl
      · exact decide_eq_true key
  case payload =>
    have kept : mapAnyToByteKey (if a.nodeName = [] then [] else [(.int (.of .int8 1), .bytes a.nodeName)]) = a.fields := by
      unfold fields
      split_ifs <;> rfl
    simp only [decodePNAnnouncePayload, decoded, valueInt64_element, Option.getD_some, readMetadata, kept]

/-- An announce, with any well-formed elements behind its costs and behind itself that are nested no deeper than the
decoder goes, is valid and all readers find its values. -/
theorem readFrom_extended (a : PNAnnounce) (costExtras extras : List Bytes)
    (wellFormed : ∀ extra ∈ costExtras ++ extras, Element defaultDecodeDepthLimit extra) (nonneg : 0 ≤ a.stampTarget)
    (small : (a.extended costExtras extras).length ≤ maxPNAnnounceBytes) :
    a.ReadFrom (a.extended costExtras extras) ∧ a.extended [] [] = encodePNAnnounceAppData a := by
  refine ⟨readFrom_of_decoded nonneg ?_, a.extended_nil⟩
  have behind := fun extra member => wellFormed extra (mem_append_right costExtras member)
  have count := length_le_flatten fun extra member => (behind extra member).pos
  have skipped := skipMany_flatten (fun extra member => skip_element defaultDecodeDepthLimit (behind extra member)) []
  rw [append_nil] at skipped
  have bound : extras.flatten.length ≤ (a.extended costExtras extras).length := by
    rw [extended, extendedWith]
    simp only [length_append]
    omega
  have within : (a.extended costExtras extras).length < 2 ^ 32 := small.trans_lt (by decide)
  have few : 7 + extras.length < 2 ^ 32 := by
    rw [maxPNAnnounceBytes] at small
    omega
  have some : a.extended costExtras extras ≠ [] := by
    have := LengthFamily.array.header_pos (7 + extras.length)
    apply ne_nil_of_length_pos
    rw [extended, extendedWith, length_append]
    omega
  have read := readPNAnnounce_extendedWith few count
    (fun extra member => wellFormed extra (mem_append_left extras member)) within
  rw [decodePNAnnounceArray, if_neg some, if_neg (not_lt.2 small), extended, read, skipElement, skipped]
  rfl

/-- A node with a name, one more cost of an unknown type and a map behind the announce. -/
def sampleAnnounce : PNAnnounce :=
  { timebase := 1700000000, nodeState := true, transferLimitKB := 256, syncLimitKB := 10240, stampTarget := 16
    stampFlex := 3, peeringCost := -1, nodeName := [0x6e, 0x31] }

theorem readFrom_extended_sample :
    sampleAnnounce.ReadFrom (sampleAnnounce.extended [[0xd4, 5, 9]] [[0x81, 0xc0, 0xa1, 0x78]]) := by
  refine (readFrom_extended sampleAnnounce _ _ ?_ (by decide) (by decide +kernel)).1
  intro extra member
  rcases mem_pair.1 member with rfl | rfl
  · exact @Element.ext 9999 0xd4 5 (.fixed 1) [] [9] rfl ⟨rfl, rfl⟩
  · refine @Element.map 9999 0x81 (.fixed 1) [] 1 [[0xc0], [0xa1, 0x78]] rfl ⟨rfl, rfl⟩ rfl fun item member => ?_
    rcases mem_pair.1 member with rfl | rfl
    · exact .plain rfl
    · exact @Element.text 9998 0xa1 (.fixed 1) [] [0x78] (.inl rfl) ⟨rfl, rfl⟩

theorem length_sampleAnnounce (extra : Bytes) :
    (sampleAnnounce.extended [] [extra]).length = (sampleAnnounce.extended [] [[]]).length + extra.length := by
  simp only [extended, extendedWith, length_append, flatten_singleton, length_singleton, length_nil]
  omega

/-- An element that cannot be passed over makes the announce invalid. -/
theorem unread_of_skip {extra : Bytes} {error : DecodeError} (size : extra.length = 10001)
    (skipped : skipElement extra = .error error) :
    (sampleAnnounce.extended [] [extra]).length ≤ maxPNAnnounceBytes ∧
      ¬sampleAnnounce.ReadFrom (sampleAnnounce.extended [] [extra]) := by
  have shorter : (sampleAnnounce.extended [] [[]]).length ≤ 100 := by decide +kernel
  have long := length_sampleAnnounce extra
  have small : (sampleAnnounce.extended [] [extra]).length ≤ maxPNAnnounceBytes := by
    rw [maxPNAnnounceBytes]
    omega
  refine ⟨small, fun read => ?_⟩
  have some : sampleAnnounce.extended [] [extra] ≠ [] := by
    apply ne_nil_of_length_pos
    omega
  have valid := read.valid
  rw [pnAnnounceDataIsValid, decodePNAnnounceArray, if_neg some, if_neg (not_lt.2 small)] at valid
  rw [extended, flatten_singleton, length_singleton] at small valid
  have none : ∀ extra ∈ ([] : List Bytes), Element defaultDecodeDepthLimit extra := fun _ => nofun
  rw [readPNAnnounce_extendedWith (by decide) (by omega) none (small.trans_lt (by decide)), skipMany, skipped] at valid
  contradiction

/-- A well-formed element that is nested one level deeper makes the announce unreadable. -/
theorem unread_nested : ∃ extra, Element (defaultDecodeDepthLimit + 1) extra ∧
    (sampleAnnounce.extended [] [extra]).length ≤ maxPNAnnounceBytes ∧
    ¬sampleAnnounce.ReadFrom (sampleAnnounce.extended [] [extra]) := by
  refine ⟨_, element_nested defaultDecodeDepthLimit, unread_of_skip ?_ (skip_nested _ _ [0xc0] (cons_ne_nil _ _))⟩
  rw [length_append, length_replicate]
  rfl

end PNAnnounce

end ReticulumProtocols.Lxmf
