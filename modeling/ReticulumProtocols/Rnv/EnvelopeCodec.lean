import ReticulumProtocols.Cbor.Faithful
import ReticulumProtocols.Rnv.Envelope

/-! What `UnpackEnvelope` reads from what `Pack` writes: the type, and a body in which every key has the value it was
given. The bodies of the messages are read back but for the zeros of a stream offer. -/

namespace ReticulumProtocols.Rnv
open Wire Lxmf Cbor List

section
variable {fields : List (UInt64 × Value)}

/-- The fields of a map as the encoder meets them. -/
def visited (visit : Visit) (fields : List (UInt64 × Value)) : List (UInt64 × Value) :=
  (visit.run (bodyOf fields).entries).map fun entry => (entry.1, entry.2)

theorem mapValue_bodyOf (visit : Visit) (fields : List (UInt64 × Value)) :
    mapValue visit (bodyOf fields) = .map ((visited visit fields).map fun field => (.uint field.1, field.2)) := by
  rw [mapValue, visited, map_map]
  rfl

theorem visited_perm (distinct : (fields.map Prod.fst).Nodup) (visit : Visit) : (visited visit fields).Perm fields :=
  ((visit.perm _).map _).trans (entries_distinct distinct)

theorem tidy_mapValue (distinct : (fields.map Prod.fst).Nodup) (visit : Visit)
    (tidy : ∀ field ∈ fields, Tidy field.2) : Tidy (mapValue visit (bodyOf fields)) := by
  obtain ⟨keys, apart⟩ := keys_uintMap (visited_perm distinct visit) distinct
  rw [mapValue_bodyOf]
  refine .map _ keys apart fun entry member => ?_
  obtain ⟨field, listed, rfl⟩ := mem_map.1 member
  exact tidy field ((visited_perm distinct visit).mem_iff.1 listed)

theorem fits_mapValue (distinct : (fields.map Prod.fst).Nodup) (visit : Visit) {left : Nat}
    (count : fields.length ≤ decoderLimits.maxMapPairs)
    (below : ∀ field ∈ fields, Fits decoderLimits false left field.2) :
    Fits decoderLimits false (left + 1) (mapValue visit (bodyOf fields)) := by
  rw [mapValue_bodyOf]
  exact fits_uintMap (visited_perm distinct visit) distinct count below

theorem lookup_bodyOf_of_notMem (distinct : (fields.map Prod.fst).Nodup) {key : UInt64}
    (absent : key ∉ fields.map Prod.fst) : (bodyOf fields).lookup key = none := by
  rw [Option.eq_none_iff_forall_ne_some]
  intro value found
  exact absent (mem_map_of_mem (f := Prod.fst) ((lookup_distinct distinct key value).1 found))

/-- A map is read back, whatever the order in which it is met on the two sides. -/
theorem lookup_asUint64Map (distinct : (fields.map Prod.fst).Nodup) (visit visit' : Visit) (key : UInt64) :
    (asUint64Map visit' (mapValue visit (bodyOf fields))).lookup key = (bodyOf fields).lookup key := by
  have perm : ((visit'.run ((visited visit fields).map fun field => (Scalar.uint field.1, field.2))).map fun entry =>
      (asUint64 (.scalar entry.1), entry.2)).Perm fields := by
    have back : ((visited visit fields).map fun field => (Scalar.uint field.1, field.2)).map
        (fun entry => (asUint64 (.scalar entry.1), entry.2)) = visited visit fields := by
      rw [map_map]
      exact map_id _
    have moved := (visit'.perm ((visited visit fields).map fun field => (Scalar.uint field.1, field.2))).map
      fun entry => (asUint64 (.scalar entry.1), entry.2)
    rw [back] at moved
    exact moved.trans (visited_perm distinct visit)
  ext value
  have distinct' := (perm.map Prod.fst).nodup_iff.2 distinct
  rw [mapValue_bodyOf, asUint64Map, bodyOf, lookup_distinct distinct, ← perm.mem_iff, ← lookup_distinct distinct',
    foldl_map]

def weight (field : UInt64 × Value) : Nat := headSize field.1.toNat + (encode field.2).length

theorem length_mapValue (distinct : (fields.map Prod.fst).Nodup) (visit : Visit) :
    (encode (mapValue visit (bodyOf fields))).length = headSize fields.length + (fields.map weight).sum := by
  rw [mapValue_bodyOf]
  exact length_uintMap (visited_perm distinct visit)

end

theorem keys_assignIf (set : Bool) (key : UInt64) (value : Value) :
    ((assignIf set key value).map Prod.fst).Sublist [key] := by
  cases set with
  | false => exact nil_sublist _
  | true => exact List.Sublist.refl _

theorem mem_assignIf {set : Bool} {key : UInt64} {value : Value} {field : UInt64 × Value} :
    field ∈ assignIf set key value ↔ set = true ∧ field = (key, value) := by
  cases set with
  | false => exact iff_of_false not_mem_nil fun ⟨unset, _⟩ => Bool.false_ne_true unset
  | true => exact mem_singleton.trans (and_iff_right rfl).symm

def messageFields (visit : Visit) (type : MessageType) (fields : List (UInt64 × Value)) : List (UInt64 × Value) :=
  [(fieldVersion, .uint protocolVersion), (fieldType, .uint type.code), (fieldBody, mapValue visit (bodyOf fields))]

/-- The message on the wire. -/
def message (visit : Visit) (type : MessageType) (fields : List (UInt64 × Value)) : Bytes :=
  encode (mapValue visit (bodyOf (messageFields visit type fields)))

section
variable {visit : Visit} {type : MessageType} {fields : List (UInt64 × Value)}

theorem pack_newTyped (visit : Visit) (type : MessageType) (fields : List (UInt64 × Value)) :
    (newTyped type (some (bodyOf fields))).pack visit =
      if (message visit type fields).length > maxEnvelopeBytes then .error .tooLarge else .ok (message visit type fields) :=
  rfl

theorem distinct_messageFields (visit : Visit) (type : MessageType) (fields : List (UInt64 × Value)) :
    ((messageFields visit type fields).map Prod.fst).Nodup :=
  (by decide : [fieldVersion, fieldType, fieldBody].Nodup)

/-- The number of bytes of a message, in whatever order its maps are met. -/
theorem length_message (distinct : (fields.map Prod.fst).Nodup) (visit : Visit) (type : MessageType) :
    (message visit type fields).length =
      5 + headSize type.code.toNat + (headSize fields.length + (fields.map weight).sum) := by
  rw [message, length_mapValue (distinct_messageFields visit type fields), messageFields]
  simp only [map_cons, map_nil, sum_cons, sum_nil, weight, encode, encodeScalar, encodeHead_length,
    length_mapValue distinct]
  change 1 + (1 + 1 + (1 + headSize type.code.toNat + (1 + _ + 0))) = _
  omega

theorem unpackEnvelope_of_decoded (distinct : (fields.map Prod.fst).Nodup) (visit' : Visit)
    (bounded : (message visit type fields).length ≤ maxEnvelopeBytes)
    (decoded : decodeUintMap decoderLimits (message visit type fields) =
      .ok (visited visit (messageFields visit type fields))) :
    ∃ body, unpackEnvelope visit' (message visit type fields) = .ok { type := type.code, body := some body } ∧
      ∀ key, body.lookup key = (bodyOf fields).lookup key := by
  have some : message visit type fields ≠ [] := ne_nil_of_length_pos (encode_length_pos _)
  have perm := visited_perm (distinct_messageFields visit type fields) visit
  have outer := (perm.map Prod.fst).nodup_iff.2 (distinct_messageFields visit type fields)
  have present {key : UInt64} {value : Value} (listed : (key, value) ∈ messageFields visit type fields) :
      (bodyOf (visited visit (messageFields visit type fields))).lookup key = .some value :=
    (lookup_distinct outer key value).2 (perm.mem_iff.2 listed)
  have absent : (bodyOf (visited visit (messageFields visit type fields))).lookup fieldExtensions = none := by
    apply lookup_bodyOf_of_notMem outer
    rw [(perm.map Prod.fst).mem_iff]
    exact (by decide : fieldExtensions ∉ [fieldVersion, fieldType, fieldBody])
  refine ⟨asUint64Map visit' (mapValue visit (bodyOf fields)), ?_, lookup_asUint64Map distinct visit visit'⟩
  rw [unpackEnvelope, if_neg some, if_neg (not_lt.2 bounded), decoded]
  dsimp only
  unfold readEnvelope
  have version := @present fieldVersion (.uint protocolVersion) (by simp [messageFields])
  have code := @present fieldType (.uint type.code) (by simp [messageFields])
  have body := @present fieldBody (mapValue visit (bodyOf fields)) (by simp [messageFields])
  rw [version, code, body, absent]
  rfl

theorem unpackEnvelope_message (distinct : (fields.map Prod.fst).Nodup) (visit' : Visit)
    (count : fields.length ≤ decoderLimits.maxMapPairs)
    (below : ∀ field ∈ fields, Fits decoderLimits false 6 field.2)
    (bounded : (message visit type fields).length ≤ maxEnvelopeBytes) :
    ∃ body, unpackEnvelope visit' (message visit type fields) = .ok { type := type.code, body := some body } ∧
      ∀ key, body.lookup key = (bodyOf fields).lookup key := by
  have perm := visited_perm (distinct_messageFields visit type fields) visit
  have inner : ∀ field ∈ messageFields visit type fields, Fits decoderLimits false 7 field.2 := by
    have body := fits_mapValue distinct visit count below
    intro field listed
    simp only [messageFields, mem_cons, not_mem_nil, or_false] at listed
    rcases listed with rfl | rfl | rfl
    · exact .scalar ..
    · exact .scalar ..
    · exact body
  apply unpackEnvelope_of_decoded distinct visit' bounded
  rw [message, mapValue_bodyOf] at bounded ⊢
  apply decodeUintMap_encode decoderLimits (by decide) (by decide) rfl
  · rw [perm.length_eq]
    exact (by decide : 3 ≤ decoderLimits.maxMapPairs)
  · exact fun field listed => inner field (perm.mem_iff.1 listed)
  · exact lt_of_le_of_lt bounded (by decide)

theorem body_of_unpackEnvelope (distinct : (fields.map Prod.fst).Nodup) {visit' : Visit}
    (tidy : ∀ field ∈ fields, Tidy field.2) {env : Envelope}
    (unpacked : unpackEnvelope visit' (message visit type fields) = .ok env) :
    env.type = type.code ∧ ∃ body, env.body = some body ∧ ∀ key, body.lookup key = (bodyOf fields).lookup key := by
  have perm := visited_perm (distinct_messageFields visit type fields) visit
  have inner : ∀ field ∈ messageFields visit type fields, Tidy field.2 := by
    have body := tidy_mapValue distinct visit tidy
    intro field listed
    simp only [messageFields, mem_cons, not_mem_nil, or_false] at listed
    rcases listed with rfl | rfl | rfl
    · exact .scalar ..
    · exact .scalar ..
    · exact body
  have bounded : (message visit type fields).length ≤ maxEnvelopeBytes := by
    unfold unpackEnvelope at unpacked
    split at unpacked
    next => cases unpacked
    next =>
      split at unpacked
      next => cases unpacked
      next bounded => exact not_lt.1 bounded
  cases decoded : decodeUintMap decoderLimits (message visit type fields) with
  | error error =>
    have some : message visit type fields ≠ [] := ne_nil_of_length_pos (encode_length_pos _)
    rw [unpackEnvelope, if_neg some, if_neg (not_lt.2 bounded), decoded] at unpacked
    cases unpacked
  | ok pairs =>
    have written : pairs = visited visit (messageFields visit type fields) := by
      rw [message, mapValue_bodyOf] at decoded bounded
      apply decodeUintMap_only decoderLimits _ _ decoded
      · exact fun field listed => inner field (perm.mem_iff.1 listed)
      · exact lt_of_le_of_lt bounded (by decide)
    obtain ⟨body, same, lookup⟩ := unpackEnvelope_of_decoded distinct visit' bounded (written ▸ decoded)
    rw [same] at unpacked
    cases unpacked
    exact ⟨rfl, body, rfl, lookup⟩

end

/-! A message is longer than any string in it. -/

end ReticulumProtocols.Rnv
