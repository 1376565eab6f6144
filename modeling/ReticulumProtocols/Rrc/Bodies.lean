import ReticulumProtocols.Rrc.EnvelopeCodec
import ReticulumProtocols.Wire.Lists

/-! The bodies of HELLO, WELCOME and RESOURCE_ENVELOPE: the maps that they are sent as, and what is read from these maps
on the other side. A presence flag and its field are an option, so a field that is not there has no value. -/

namespace ReticulumProtocols.Rrc
open Wire Lxmf Cbor List

abbrev Fields := List (UInt64 × Value)

/-- The assignment to the map of a `ToMap` under the presence flag of a field. -/
def assign {α : Type} (key : UInt64) (write : α → Value) (field : Option α) : Fields :=
  field.toList.map fun value => (key, write value)

/-- A map as the encoder meets it. -/
def mapValue (visit : Visit) (fields : Fields) : Value :=
  .map ((visit.run fields).map fun field => (.uint field.1, field.2))

/-- The end of a `ToMap`: nil for an empty map, which the encoder writes as null. -/
def bodyValue (visit : Visit) (fields : Fields) : Value := if fields = [] then .null else mapValue visit fields

abbrev Capabilities := GoMap UInt64 Value

namespace Capabilities

def fields (caps : Capabilities) : Fields := caps.entries.map fun entry => (entry.1, entry.2)

/-- At most as many capabilities as the decoder takes, and each is a flag or a number. -/
structure Plain (caps : Capabilities) : Prop where
  few : caps.entries.length ≤ 256
  simple : ∀ field ∈ caps.fields, (∃ flag, field.2 = .bool flag) ∨ ∃ n, field.2 = .uint n

def parse (value : Value) : Option Capabilities :=
  (coerceUintMap value).map fun raw => raw.foldl (fun map field => map.insert field.1 field.2) ∅

end Capabilities

/-- `HubLimits` as a WELCOME carries them. -/
structure WelcomeLimits where
  maxNickBytes : UInt64 := 0
  maxRoomsPerSession : UInt64 := 0
  maxRoomNameBytes : UInt64 := 0
  maxMsgBodyBytes : UInt64 := 0
  rateLimitMsgsPerMinute : UInt64 := 0

def limitMaxNickBytes : UInt64 := 0
def limitMaxRoomNameBytes : UInt64 := 1
def limitMaxMsgBodyBytes : UInt64 := 2
def limitMaxRoomsPerSession : UInt64 := 3
def limitRateLimitMsgsPerMinute : UInt64 := 4

namespace WelcomeLimits

def toMap (limits : WelcomeLimits) : Fields :=
  [(limitMaxNickBytes, .uint limits.maxNickBytes), (limitMaxRoomNameBytes, .uint limits.maxRoomNameBytes),
    (limitMaxMsgBodyBytes, .uint limits.maxMsgBodyBytes), (limitMaxRoomsPerSession, .uint limits.maxRoomsPerSession),
    (limitRateLimitMsgsPerMinute, .uint limits.rateLimitMsgsPerMinute)]

/-- `ParseHubLimits`. -/
def parse (value : Value) : Option WelcomeLimits :=
  (coerceUintMap value).map fun raw =>
    let number (key : UInt64) : UInt64 := ((raw.lookup key).bind asUint64).getD 0
    { maxNickBytes := number limitMaxNickBytes
      maxRoomNameBytes := number limitMaxRoomNameBytes
      maxMsgBodyBytes := number limitMaxMsgBodyBytes
      maxRoomsPerSession := number limitMaxRoomsPerSession
      rateLimitMsgsPerMinute := number limitRateLimitMsgsPerMinute }

end WelcomeLimits

structure HelloBody where
  clientName : Option Text := none
  clientVersion : Option Text := none
  capabilities : Option Capabilities := none

structure WelcomeBody where
  hubName : Option Text := none
  hubVersion : Option Text := none
  capabilities : Option Capabilities := none
  limits : Option WelcomeLimits := none

def helloKeyClientName : UInt64 := 0
def helloKeyClientVersion : UInt64 := 1
def helloKeyCapabilities : UInt64 := 2

def welcomeKeyHubName : UInt64 := 0
def welcomeKeyHubVersion : UInt64 := 1
def welcomeKeyCapabilities : UInt64 := 2
def welcomeKeyHubLimits : UInt64 := 3

/-- The orders in which the encoder meets the maps of a body. -/
structure Orders where
  body : Visit := Visit.listed
  capabilities : Visit := Visit.listed
  limits : Visit := Visit.listed

def HelloBody.toMap (orders : Orders) (h : HelloBody) : Fields :=
  assign helloKeyClientName .text h.clientName ++ assign helloKeyClientVersion .text h.clientVersion ++
    assign helloKeyCapabilities (fun caps => mapValue orders.capabilities caps.fields) h.capabilities

def WelcomeBody.toMap (orders : Orders) (w : WelcomeBody) : Fields :=
  assign welcomeKeyHubName .text w.hubName ++ assign welcomeKeyHubVersion .text w.hubVersion ++
    assign welcomeKeyCapabilities (fun caps => mapValue orders.capabilities caps.fields) w.capabilities ++
    assign welcomeKeyHubLimits (fun limits => mapValue orders.limits limits.toMap) w.limits

def ResourceEnvelopeBody.toMap (r : ResourceEnvelopeBody) : Fields :=
  assign resourceKeyID .bytes r.id ++ assign resourceKeyKind .text r.kind ++ assign resourceKeySize .uint r.size ++
    assign resourceKeySHA256 .bytes r.sha256 ++ assign resourceKeyEncoding .text r.encoding

def parseHelloBody (body : Option Value) : Option HelloBody :=
  if isNil body then some {}
  else (body.bind coerceUintMap).map fun raw =>
    { clientName := (raw.lookup helloKeyClientName).bind asString
      clientVersion := (raw.lookup helloKeyClientVersion).bind asString
      capabilities := (raw.lookup helloKeyCapabilities).bind Capabilities.parse }

def parseWelcomeBody (body : Option Value) : Option WelcomeBody :=
  if isNil body then some {}
  else (body.bind coerceUintMap).map fun raw =>
    { hubName := (raw.lookup welcomeKeyHubName).bind asString
      hubVersion := (raw.lookup welcomeKeyHubVersion).bind asString
      capabilities := (raw.lookup welcomeKeyCapabilities).bind Capabilities.parse
      limits := (raw.lookup welcomeKeyHubLimits).bind WelcomeLimits.parse }

/-! Maps that are read back. -/

section
variable {fields : Fields}

theorem lookup_visit (distinct : (fields.map Prod.fst).Nodup) (visit : Visit) (key : UInt64) :
    (visit.run fields).lookup key = fields.lookup key := by
  have perm := visit.perm fields
  ext value
  rw [lookup_eq_some_iff_mem distinct, lookup_eq_some_iff_mem ((perm.map Prod.fst).nodup_iff.2 distinct), perm.mem_iff]

theorem coerceUintMap_mapValue (visit : Visit) (fields : Fields) :
    coerceUintMap (mapValue visit fields) = some (visit.run fields) := by
  rw [mapValue, coerceUintMap, filterMap_map]
  exact congrArg some (filterMap_some)

theorem fits_mapValue (distinct : (fields.map Prod.fst).Nodup) (visit : Visit) {left : Nat}
    (few : fields.length ≤ 256) (below : ∀ field ∈ fields, Fits decoderLimits false left field.2) :
    Fits decoderLimits false (left + 1) (mapValue visit fields) :=
  fits_uintMap (visit.perm fields) distinct few below

end

section
variable {α : Type} {key : UInt64} {write : α → Value} {x : Option α}

theorem lookup_assign (key' : UInt64) :
    (assign key write x).lookup key' = if key' = key then x.map write else none := by
  cases x with
  | none => exact (ite_self none).symm
  | some value =>
    rw [assign, Option.toList_some, map_singleton, lookup_cons]
    by_cases same : key' = key
    · rw [if_pos same, beq_iff_eq.2 same]
      rfl
    · rw [if_neg same, beq_eq_false_iff_ne.2 same]
      rfl

theorem keys_assign : ((assign key write x).map Prod.fst).Sublist [key] := by
  cases x with
  | none => exact nil_sublist _
  | some value => exact List.Sublist.refl _

theorem mem_assign {field : UInt64 × Value} :
    field ∈ assign key write x ↔ ∃ value ∈ x, field = (key, write value) := by
  rw [assign, mem_map]
  exact exists_congr fun value => and_congr Option.mem_toList eq_comm

theorem bind_assigned {read : Value → Option α} (reads : ∀ y, read (write y) = some y) :
    (x.map write).bind read = x := by
  cases x with
  | none => rfl
  | some y => exact reads y

end

/-! The maps within a body. -/

namespace Capabilities
variable (caps : Capabilities)

theorem distinct : (caps.fields.map Prod.fst).Nodup := by
  rw [fields, map_map]
  exact caps.nodupKeys

theorem parse_mapValue (visit : Visit) :
    ∃ caps', parse (mapValue visit caps.fields) = some caps' ∧ ∀ key, caps'.lookup key = caps.lookup key := by
  have perm := visit.perm caps.fields
  refine ⟨_, by rw [parse, coerceUintMap_mapValue, Option.map_some], fun key => ?_⟩
  ext value
  rw [lookup_distinct ((perm.map Prod.fst).nodup_iff.2 caps.distinct), perm.mem_iff, ← Option.mem_def,
    AList.mem_lookup_iff, fields, mem_map]
  constructor
  · rintro ⟨entry, listed, made⟩
    cases made
    exact listed
  · exact fun listed => ⟨_, listed, rfl⟩

theorem fits_of_plain {caps : Capabilities} (plain : caps.Plain) (visit : Visit) :
    Fits decoderLimits false 6 (mapValue visit caps.fields) := by
  apply fits_mapValue caps.distinct visit
  · rw [fields, length_map]
    exact plain.few
  · intro field listed
    rcases plain.simple field listed with ⟨flag, made⟩ | ⟨n, made⟩
    · exact made ▸ .scalar ..
    · exact made ▸ .scalar ..

end Capabilities

namespace WelcomeLimits
variable (limits : WelcomeLimits)

theorem distinct : (limits.toMap.map Prod.fst).Nodup :=
  (by decide : [limitMaxNickBytes, limitMaxRoomNameBytes, limitMaxMsgBodyBytes, limitMaxRoomsPerSession,
    limitRateLimitMsgsPerMinute].Nodup)

theorem parse_mapValue (visit : Visit) : parse (mapValue visit limits.toMap) = some limits := by
  rw [parse, coerceUintMap_mapValue, Option.map_some]
  simp only [lookup_visit limits.distinct]
  rfl

theorem fits (visit : Visit) : Fits decoderLimits false 6 (mapValue visit limits.toMap) := by
  apply fits_mapValue limits.distinct visit (by decide : 5 ≤ 256)
  intro field listed
  simp only [toMap, mem_cons, not_mem_nil, or_false] at listed
  rcases listed with rfl | rfl | rfl | rfl | rfl <;> exact .scalar ..

end WelcomeLimits

/-! The bodies. -/

inductive Body where
  | hello (body : HelloBody)
  | welcome (body : WelcomeBody)
  | resourceEnvelope (body : ResourceEnvelopeBody)

namespace Body

def toMap (orders : Orders) : Body → Fields
  | hello h => h.toMap orders
  | welcome w => w.toMap orders
  | resourceEnvelope r => r.toMap

def value (orders : Orders) (body : Body) : Value := bodyValue orders.body (body.toMap orders)

def capabilities : Body → Option Capabilities
  | hello h => h.capabilities
  | welcome w => w.capabilities
  | resourceEnvelope _ => none

def Plain (body : Body) : Prop := ∀ caps ∈ body.capabilities, caps.Plain

/-- The maps of capabilities are both absent, or they have the same entries. -/
def SameCapabilities (read sent : Option Capabilities) : Prop :=
  read.map (fun caps key => caps.lookup key) = sent.map fun caps key => caps.lookup key

/-- The `Parse` function for the body finds the same body in what an envelope carries. -/
def ReadFrom (carried : Option Value) : Body → Prop
  | hello h => ∃ read, parseHelloBody carried = some read ∧ read.clientName = h.clientName ∧
      read.clientVersion = h.clientVersion ∧ SameCapabilities read.capabilities h.capabilities
  | welcome w => ∃ read, parseWelcomeBody carried = some read ∧ read.hubName = w.hubName ∧
      read.hubVersion = w.hubVersion ∧ SameCapabilities read.capabilities w.capabilities ∧ read.limits = w.limits
  | resourceEnvelope r => parseResourceEnvelopeBody carried = some r

variable (orders : Orders) (body : Body)

theorem keys_sublist : ((body.toMap orders).map Prod.fst).Sublist [0, 1, 2, 3, 4] := by
  cases body with
  | hello h =>
    simp only [toMap, HelloBody.toMap, map_append]
    exact ((keys_assign.append keys_assign).append keys_assign).trans (by decide)
  | welcome w =>
    simp only [toMap, WelcomeBody.toMap, map_append]
    exact (((keys_assign.append keys_assign).append keys_assign).append keys_assign).trans (by decide)
  | resourceEnvelope r =>
    simp only [toMap, ResourceEnvelopeBody.toMap, map_append]
    exact ((((keys_assign.append keys_assign).append keys_assign).append keys_assign).append keys_assign).trans
      (by decide)

theorem distinct : ((body.toMap orders).map Prod.fst).Nodup := (body.keys_sublist orders).nodup (by decide)

variable {body} in
theorem fits (plain : body.Plain) : Fits decoderLimits false 7 (body.value orders) := by
  rw [value, bodyValue]
  split_ifs with empty
  · exact .scalar ..
  have few := (body.keys_sublist orders).length_le
  rw [length_map] at few
  apply fits_mapValue (body.distinct orders) orders.body (few.trans (by decide))
  intro field listed
  cases body with
  | hello h =>
    simp only [toMap, HelloBody.toMap, mem_append, mem_assign] at listed
    rcases listed with (⟨_, _, rfl⟩ | ⟨_, _, rfl⟩) | ⟨caps, given, rfl⟩
    · exact .scalar ..
    · exact .scalar ..
    · exact Capabilities.fits_of_plain (plain caps given) orders.capabilities
  | welcome w =>
    simp only [toMap, WelcomeBody.toMap, mem_append, mem_assign] at listed
    rcases listed with ((⟨_, _, rfl⟩ | ⟨_, _, rfl⟩) | ⟨caps, given, rfl⟩) | ⟨limits, _, rfl⟩
    · exact .scalar ..
    · exact .scalar ..
    · exact Capabilities.fits_of_plain (plain caps given) orders.capabilities
    · exact limits.fits orders.limits
  | resourceEnvelope r =>
    simp only [toMap, ResourceEnvelopeBody.toMap, mem_append, mem_assign] at listed
    rcases listed with (((⟨_, _, rfl⟩ | ⟨_, _, rfl⟩) | ⟨_, _, rfl⟩) | ⟨_, _, rfl⟩) | ⟨_, _, rfl⟩ <;> exact .scalar ..

theorem sameCapabilities (visit : Visit) (caps : Option Capabilities) :
    SameCapabilities ((caps.map fun caps => mapValue visit caps.fields).bind Capabilities.parse) caps := by
  cases caps with
  | none => rfl
  | some caps =>
    obtain ⟨caps', parsed, same⟩ := caps.parse_mapValue visit
    rw [SameCapabilities, Option.map_some, Option.bind_some, parsed]
    exact congrArg some (funext same)

/-- What a `Parse` function does with the map of a body; the body without a map is the one with an empty map. -/
theorem parse_bodyValue {β : Type} (read : Fields → β) (visit : Visit) (fields : Fields) :
    (if isNil (some (bodyValue visit fields)) then some (read [])
      else ((some (bodyValue visit fields)).bind coerceUintMap).map read) = some (read (visit.run fields)) := by
  rw [bodyValue]
  split_ifs with empty none none
  · rw [empty, (visit.perm []).eq_nil]
  · exact absurd rfl none
  · exact absurd none Bool.false_ne_true
  · rw [Option.bind_some, coerceUintMap_mapValue, Option.map_some]

theorem readFrom_value : body.ReadFrom (some (body.value orders)) := by
  have found := lookup_visit (body.distinct orders) orders.body
  cases body with
  | hello h =>
    rw [toMap] at found
    refine ⟨_, parse_bodyValue _ orders.body (h.toMap orders), ?_, ?_, ?_⟩
    all_goals
      dsimp only
      rw [found]
      simp +decide only [HelloBody.toMap, lookup_append, lookup_assign, ↓reduceIte, Option.none_or,
        Option.or_none]
    · exact bind_assigned fun _ => rfl
    · exact bind_assigned fun _ => rfl
    · exact sameCapabilities orders.capabilities h.capabilities
  | welcome w =>
    rw [toMap] at found
    refine ⟨_, parse_bodyValue _ orders.body (w.toMap orders), ?_, ?_, ?_, ?_⟩
    all_goals
      dsimp only
      rw [found]
      simp +decide only [WelcomeBody.toMap, lookup_append, lookup_assign, ↓reduceIte, Option.none_or,
        Option.or_none]
    · exact bind_assigned fun _ => rfl
    · exact bind_assigned fun _ => rfl
    · exact sameCapabilities orders.capabilities w.capabilities
    · exact bind_assigned fun limits => limits.parse_mapValue orders.limits
  | resourceEnvelope r =>
    rw [toMap] at found
    apply (parse_bodyValue _ orders.body r.toMap).trans
    simp only [found]
    obtain ⟨id, kind, size, sha256, encoding⟩ := r
    congr 2
    all_goals
      simp +decide only [ResourceEnvelopeBody.toMap, lookup_append, lookup_assign, ↓reduceIte, Option.none_or,
        Option.or_none]
      exact bind_assigned fun _ => rfl

end Body

theorem unmarshalEnvelope_too_large {data : Bytes} (large : maxEnvelopeBytes < data.length) :
    ∃ error, unmarshalEnvelope data = .error error := by
  rw [unmarshalEnvelope, if_pos large]
  split_ifs <;> exact ⟨_, rfl⟩

/-- An envelope with a body is encoded after any other calls; it is read back, and the body from it, exactly when it is
no larger than an envelope may be. -/
theorem Body.parse_marshal_iff (calls : List MarshalCall) (call : MarshalCall) (orders : Orders) (body : Body)
    (plain : body.Plain) (framed : call.env.Framed) (sent : call.env.body = some (body.value orders))
    (encodes : call.fault = none) :
    ∃ raw, (marshal (history calls) call).2 = .ok raw ∧
      ((∃ env, unmarshalEnvelope raw = .ok env ∧ body.ReadFrom env.body) ↔ raw.length ≤ maxEnvelopeBytes) := by
  have valid : call.env.Valid :=
    { framed with body := fun value carried => Option.some.inj (sent.symm.trans carried) ▸ body.fits orders plain }
  obtain ⟨raw, written, reads⟩ := (unmarshalEnvelope_marshal calls call).2 valid encodes
  refine ⟨raw, written, ?_, fun bounded => ⟨call.env, reads bounded, ?_⟩⟩
  · rintro ⟨env, read, -⟩
    apply not_lt.1
    intro large
    obtain ⟨error, refused⟩ := unmarshalEnvelope_too_large large
    exact nomatch refused.symm.trans read
  · rw [sent]
    exact body.readFrom_value orders

section
variable (type : EnvelopeType) (body : Body)

def carrying : MarshalCall where
  env :=
    { type, msgID := replicate messageIDLength 5, timestamp := 1700000000000
      sender := replicate identityLength 7, body := some (body.value {}) }

theorem carrying_framed : (carrying type body).env.Framed :=
  { version := rfl, msgID := rfl, sender := rfl, destination := nofun }

end

/-- The WELCOME of a hub without a name. -/
def sampleWelcome : Body :=
  .welcome
    { hubVersion := some ['1'], capabilities := some ((∅ : Capabilities).insert 1 (.bool true) |>.insert 7 (.uint 300))
      limits := some { maxNickBytes := 32, rateLimitMsgsPerMinute := 60 } }

theorem Body.parse_marshal_iff_welcome :
    ∃ raw env, (marshal (history []) (carrying .welcome sampleWelcome)).2 = .ok raw ∧
      unmarshalEnvelope raw = .ok env ∧ sampleWelcome.ReadFrom env.body := by
  have plain : sampleWelcome.Plain := by
    intro caps given
    cases given
    refine ⟨by decide, fun field listed => ?_⟩
    rcases mem_pair.1 listed with rfl | rfl
    · exact .inr ⟨300, rfl⟩
    · exact .inl ⟨true, rfl⟩
  have framed := carrying_framed .welcome sampleWelcome
  obtain ⟨raw, written, reads⟩ := Body.parse_marshal_iff [] _ {} sampleWelcome plain framed rfl rfl
  have bytes := Except.ok.inj (written.symm.trans (marshal_framed _ framed rfl))
  have bounded : raw.length ≤ maxEnvelopeBytes := by
    rw [bytes]
    decide +kernel
  obtain ⟨env, read, same⟩ := reads.2 bounded
  exact ⟨raw, env, written, read, same⟩

def longHello : Body := .hello { clientName := some (replicate maxEnvelopeBytes 'a') }

theorem size_carrying_hello (type : EnvelopeType) {name : Text} (long : maxEnvelopeBytes ≤ (utf8 name).length) :
    maxEnvelopeBytes < (carrying type (.hello { clientName := some name })).env.size := by
  have body : maxEnvelopeBytes < Envelope.weight (keyBody, .map [(.uint 0, .text name)]) := by
    simp only [Envelope.weight, encode, encodeEntries, encodeScalar, length_append, encodeHead_length]
    have := headSize_pos keyBody.toNat
    omega
  have listed : (keyBody, .map [(.uint 0, .text name)]) ∈
      (carrying type (.hello { clientName := some name })).env.fields := by
    simp only [Envelope.fields, mem_append]
    exact .inl (.inl (.inr mem_cons_self))
  have counted := single_le_sum (fun _ _ => Nat.zero_le _) _ (mem_map_of_mem (f := Envelope.weight) listed)
  rw [Envelope.size]
  omega

theorem size_carrying_longHello (type : EnvelopeType) : maxEnvelopeBytes < (carrying type longHello).env.size := by
  apply size_carrying_hello
  rw [utf8_length, map_replicate, sum_replicate, smul_eq_mul]
  exact Nat.le_mul_of_pos_right _ (by decide)

/-- `Marshal` has no limit on what it writes: the HELLO is sent, and nothing that can be read arrives. -/
theorem longHello_unread :
    ∃ raw, (marshal (history []) (carrying .hello longHello)).2 = .ok raw ∧
      ¬∃ env, unmarshalEnvelope raw = .ok env ∧ longHello.ReadFrom env.body := by
  refine ⟨_, marshal_framed [] (carrying_framed .hello longHello) rfl, ?_⟩
  rintro ⟨env, read, -⟩
  have large := (size_carrying_longHello .hello).trans_eq (Envelope.encodeFields_length _ Visit.listed).symm
  obtain ⟨error, refused⟩ := unmarshalEnvelope_too_large large
  exact nomatch refused.symm.trans read

end ReticulumProtocols.Rrc
