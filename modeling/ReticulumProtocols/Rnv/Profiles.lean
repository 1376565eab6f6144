import ReticulumProtocols.Rnv.EnvelopeCodec

/-! Profiles and the guard of stream offers. Both ends evaluate the guard, each with its own capabilities and those that
it has read from the other's HELLO, and the receiver on a copy of the offer that it has decoded. -/

namespace ReticulumProtocols.Rnv
open Wire Lxmf Cbor List
variable {visit visit' : Visit}

structure ProfileLimits where
  stillMax : UInt64
  clipMax : UInt64
  allowVideo : Bool
  allowAudio : Bool
  maxFPS : Int64
  audioCodecs : List UInt8 := []
  videoCodecs : List UInt8 := [codecJPEG]

def ultraLowLimits : ProfileLimits where
  stillMax := 32 * 1024
  clipMax := 0
  allowVideo := false
  allowAudio := false
  maxFPS := 0

def lowLimits : ProfileLimits where
  stillMax := 128 * 1024
  clipMax := 1024 * 1024
  allowVideo := false
  allowAudio := true
  maxFPS := 0
  audioCodecs := [codecCodec2]

def mediumLimits : ProfileLimits where
  stillMax := maxStillBytes
  clipMax := 4 * 1024 * 1024
  allowVideo := true
  allowAudio := true
  maxFPS := 2
  audioCodecs := [codecOpus, codecCodec2]

def highLimits : ProfileLimits where
  stillMax := maxStillBytes
  clipMax := 8 * 1024 * 1024
  allowVideo := true
  allowAudio := true
  maxFPS := 5
  audioCodecs := [codecOpus, codecCodec2]

def limitsFor (profile : Int64) : ProfileLimits :=
  if profile = profileUltraLow then ultraLowLimits
  else if profile = profileMedium then mediumLimits
  else if profile = profileHigh then highLimits
  else lowLimits

def normalizeProfile (p : Int64) : Int64 :=
  if p ∈ [profileUltraLow, profileLow, profileMedium, profileHigh] then p else profileLow

def minProfile (a b : Int64) : Int64 :=
  if normalizeProfile a < normalizeProfile b then normalizeProfile a else normalizeProfile b

def supportsProfile (caps : Caps) (profile : Int64) : Bool :=
  caps.profiles = [] ∨ ∃ p ∈ caps.profiles, normalizeProfile p = normalizeProfile profile

def hasCodec (caps : Caps) (codec : UInt8) : Bool := caps.codecs = [] ∨ codec ∈ caps.codecs

/-- The codec that an offer without one for a track stands for. -/
def videoCodec (offer : StreamOffer) : UInt8 := if offer.video = 0 then codecJPEG else offer.video

def audioCodec (eff : Int64) (offer : StreamOffer) : UInt8 :=
  if offer.audio = 0 then if eff = profileLow then codecCodec2 else codecOpus else offer.audio

section
variable (localCaps remote : Caps) (offer : StreamOffer)

/-- The profile by which an offer is judged. -/
def offerProfile : Int64 :=
  if offer.profile = 0 then minProfile localCaps.preferred remote.preferred else normalizeProfile offer.profile

/-- What `ValidateStreamOffer` has against the video track of an offer. -/
def validateVideo (lim : ProfileLimits) : Except String Unit :=
  if lim.allowVideo = false then .error "video not allowed at effective profile"
  else if localCaps.tracks &&& trackVideo = 0 ∨ remote.tracks &&& trackVideo = 0 then .error "video track not advertised"
  else if hasCodec localCaps (videoCodec offer) = false ∨ hasCodec remote (videoCodec offer) = false then
    .error "video codec not supported"
  else .ok ()

/-- What it has against the audio track. -/
def validateAudio (eff : Int64) (lim : ProfileLimits) : Except String Unit :=
  if lim.allowAudio = false then .error "audio not allowed at effective profile"
  else if localCaps.tracks &&& trackAudio = 0 ∨ remote.tracks &&& trackAudio = 0 then .error "audio track not advertised"
  else if eff = profileLow ∧ audioCodec eff offer ≠ codecCodec2 then .error "low profile audio requires codec2"
  else if hasCodec localCaps (audioCodec eff offer) = false ∨ hasCodec remote (audioCodec eff offer) = false then
    .error "audio codec not supported"
  else .ok ()

def validateStreamOffer : Except String Unit :=
  if offer.tracks = 0 then .error "empty track mask"
  else
    let eff := offerProfile localCaps remote offer
    if supportsProfile localCaps eff = false ∨ supportsProfile remote eff = false then
      .error "profile not supported by both peers"
    else do
      let lim := limitsFor eff
      if offer.tracks &&& trackVideo ≠ 0 then validateVideo localCaps remote offer lim
      if offer.tracks &&& trackAudio ≠ 0 then validateAudio localCaps remote offer eff lim
      if offer.maxFPS > 0 ∧ lim.maxFPS > 0 ∧ offer.maxFPS > lim.maxFPS then .error "fps exceeds profile"

end

/-- The errors that the sessions return: those of the package, of the codec, of the link and of a context. -/
inductive RnvError where
  | stillTooLarge | clipTooLarge | frameTooLarge | badDimensions | capacity | rejected | linkInactive | notHandshaken
  | streamNotOpen | streamAlreadyOpen | progressRequired | parallelLXST | videoTrackDenied | audioTrackDenied
  | invalidOffer | resourceTimeout | rateLimited
  | envelope (error : EnvelopeError)
  | transport (reason : String)
  | canceled
  deriving DecidableEq, Repr

def effectiveProfile (localCaps remote : Caps) (offerProfile : Int64) : Int64 :=
  let eff := minProfile localCaps.preferred remote.preferred
  if offerProfile = 0 then eff else minProfile eff offerProfile

def guardStreamOffer (localCaps remote : Caps) (offer : StreamOffer) : Except RnvError Unit :=
  if offer.tracks = 0 then .error .invalidOffer
  else if offer.tracks &&& trackVideo ≠ 0 ∧ (offer.profile = 0 ∨ offer.profile < profileMedium) then
    .error .videoTrackDenied
  else
    let lim := limitsFor (if offer.profile = 0 then effectiveProfile localCaps remote 0 else offer.profile)
    if offer.tracks &&& trackVideo ≠ 0 ∧ lim.allowVideo = false then .error .capacity
    else if offer.tracks &&& trackAudio ≠ 0 ∧ lim.allowAudio = false then .error .audioTrackDenied
    else
      match validateStreamOffer localCaps remote offer with
      | .error _ => .error .invalidOffer
      | .ok () => .ok ()

/-- A message of one side as the other side reads it. -/
def exchange (visit visit' : Visit) (type : MessageType) (body : Body) : Except EnvelopeError Envelope := do
  let raw ← (newTyped type (some body)).pack visit
  unpackEnvelope visit' raw

def hello (visit visit' : Visit) (caps : Caps) : Except EnvelopeError Caps := do
  let env ← exchange visit visit' .hello (caps.toBody visit)
  return .fromBody visit' (env.body.getD ∅)

def offered (visit visit' : Visit) (offer : StreamOffer) : Except EnvelopeError StreamOffer := do
  let env ← exchange visit visit' .streamOffer offer.toBody
  return .fromBody (env.body.getD ∅)

/-! The guard does not tell the two sides apart. -/

theorem minProfile_comm (a b : Int64) : minProfile a b = minProfile b a := by
  unfold minProfile
  split_ifs with less more more
  · exact absurd more (Int64.lt_asymm less)
  · rfl
  · rfl
  · exact Int64.le_antisymm (Int64.not_lt.1 less) (Int64.not_lt.1 more)

theorem offerProfile_comm (a b : Caps) (offer : StreamOffer) : offerProfile a b offer = offerProfile b a offer := by
  rw [offerProfile, offerProfile, minProfile_comm]

theorem validateStreamOffer_comm (a b : Caps) (offer : StreamOffer) :
    validateStreamOffer a b offer = validateStreamOffer b a offer := by
  have video (lim : ProfileLimits) : validateVideo a b offer lim = validateVideo b a offer lim := by
    unfold validateVideo
    simp only [@or_comm (a.tracks &&& trackVideo = 0), @or_comm (hasCodec a _ = false)]
  have audio (eff : Int64) (lim : ProfileLimits) : validateAudio a b offer eff lim = validateAudio b a offer eff lim := by
    unfold validateAudio
    simp only [@or_comm (a.tracks &&& trackAudio = 0), @or_comm (hasCodec a _ = false)]
  unfold validateStreamOffer
  dsimp only
  simp only [offerProfile_comm a b, video, audio, @or_comm (supportsProfile a _ = false)]

theorem guardStreamOffer_comm (a b : Caps) (offer : StreamOffer) :
    guardStreamOffer a b offer = guardStreamOffer b a offer := by
  unfold guardStreamOffer effectiveProfile
  rw [validateStreamOffer_comm, minProfile_comm]

/-- The capabilities agree in what the guard and the limits look at. -/
structure Caps.Agrees (caps caps' : Caps) : Prop where
  maxStill : caps'.maxStill = caps.maxStill
  maxClip : caps'.maxClip = caps.maxClip
  profiles : caps'.profiles = caps.profiles
  codecs : caps'.codecs = caps.codecs
  tracks : caps'.tracks = caps.tracks
  preferred : caps'.preferred = caps.preferred

theorem guardStreamOffer_congr {a b a' b' : Caps} (left : a.Agrees a') (right : b.Agrees b') (offer : StreamOffer) :
    guardStreamOffer a' b' offer = guardStreamOffer a b offer := by
  have supports (profile : Int64) : supportsProfile a' profile = supportsProfile a profile ∧
      supportsProfile b' profile = supportsProfile b profile := by
    unfold supportsProfile
    simp only [left.profiles, right.profiles, and_self]
  have codec (codec : UInt8) : hasCodec a' codec = hasCodec a codec ∧ hasCodec b' codec = hasCodec b codec := by
    unfold hasCodec
    simp only [left.codecs, right.codecs, and_self]
  have profile : offerProfile a' b' offer = offerProfile a b offer := by
    rw [offerProfile, offerProfile, left.preferred, right.preferred]
  have validate : validateStreamOffer a' b' offer = validateStreamOffer a b offer := by
    unfold validateStreamOffer validateVideo validateAudio
    simp only [profile, left.tracks, right.tracks, (supports _).1, (supports _).2, (codec _).1, (codec _).2]
  unfold guardStreamOffer effectiveProfile
  rw [validate, left.preferred, right.preferred]

/-! The copies on the other side. -/

theorem distinct_caps (visit : Visit) (caps : Caps) : ((caps.fields visit).map Prod.fst).Nodup := by
  have sub : ((caps.fields visit).map Prod.fst).Sublist [0, 1, 2, 3, 4, 5, 6, 7] := by
    rw [Caps.fields, map_append, map_append]
    exact ((List.Sublist.refl _).append (keys_assignIf ..)).append (keys_assignIf ..)
  exact sub.nodup (by decide)

theorem keys_offer (offer : StreamOffer) : (offer.fields.map Prod.fst).Sublist [0, 1, 2, 3, 4] := by
  rw [StreamOffer.fields, map_append, map_append, map_append]
  exact (((List.Sublist.refl _).append (keys_assignIf ..)).append (keys_assignIf ..)).append (keys_assignIf ..)

theorem distinct_offer (offer : StreamOffer) : (offer.fields.map Prod.fst).Nodup := (keys_offer offer).nodup (by decide)

theorem distinct_extensions (extensions : GoMap UInt64 Bytes) :
    ((extensions.entries.map fun entry => (entry.1, Value.bytes entry.2)).map Prod.fst).Nodup := by
  rw [map_map]
  exact extensions.nodupKeys

theorem tidy_caps (visit : Visit) (caps : Caps) : ∀ field ∈ caps.fields visit, Tidy field.2 := by
  have list {α : Type} (items : List α) (number : α → UInt64) : Tidy (.arr (items.map fun item => .uint (number item))) := by
    refine .arr _ fun value member => ?_
    obtain ⟨item, -, rfl⟩ := mem_map.1 member
    exact .scalar _
  have extensions : Tidy (extensionValue visit caps.extensions) := by
    refine tidy_mapValue (distinct_extensions caps.extensions) visit fun field member => ?_
    obtain ⟨entry, -, rfl⟩ := mem_map.1 member
    exact .scalar _
  intro field member
  simp only [Caps.fields, mem_append, mem_cons, not_mem_nil, or_false, mem_assignIf] at member
  rcases member with ((rfl | rfl | rfl | rfl | rfl | rfl) | ⟨-, rfl⟩) | ⟨-, rfl⟩
  · exact .scalar _
  · exact .scalar _
  · exact list caps.profiles fun p => p.toUInt64
  · exact list caps.codecs fun co => co.toUInt64
  · exact .scalar _
  · exact .scalar _
  · exact .scalar _
  · exact extensions

theorem exchange_eq_ok {type : MessageType} {fields : List (UInt64 × Value)} {env : Envelope} :
    exchange visit visit' type (bodyOf fields) = .ok env ↔ (message visit type fields).length ≤ maxEnvelopeBytes ∧
      unpackEnvelope visit' (message visit type fields) = .ok env := by
  rw [exchange, pack_newTyped]
  split
  next large => exact iff_of_false (fun done => by cases done) fun done => absurd done.1 (not_le.2 large)
  next small => exact (and_iff_right (not_lt.1 small)).symm

theorem hello_agrees {caps caps' : Caps} (told : hello visit visit' caps = .ok caps') :
    caps.Agrees caps' := by
  obtain ⟨env, read, told⟩ := bind_eq_ok.1 told
  cases told
  obtain ⟨-, body, given, same⟩ := body_of_unpackEnvelope (distinct_caps visit caps) (tidy_caps visit caps)
    (exchange_eq_ok.1 read).2
  have field {key : UInt64} {value : Value} (listed : (key, value) ∈ caps.fields visit) :
      body.lookup key = some value := (same key).trans ((lookup_distinct (distinct_caps visit caps) key value).2 listed)
  have maxStill := @field 0 (.uint caps.maxStill) (by simp [Caps.fields])
  have maxClip := @field 1 (.uint caps.maxClip) (by simp [Caps.fields])
  have profiles := @field 2 (.arr (caps.profiles.map fun p => .uint p.toUInt64)) (by simp [Caps.fields])
  have codecs := @field 3 (.arr (caps.codecs.map fun co => .uint co.toUInt64)) (by simp [Caps.fields])
  have tracks := @field 4 (.uint caps.tracks.toUInt64) (by simp [Caps.fields])
  have preferred := @field 5 (.uint caps.preferred.toUInt64) (by simp [Caps.fields])
  rw [given]
  constructor
  · simp only [Caps.fromBody, Option.getD_some, maxStill, Option.map_some, asUint64]
  · simp only [Caps.fromBody, Option.getD_some, maxClip, Option.map_some, asUint64]
  · simp only [Caps.fromBody, Option.getD_some, profiles, Option.map_some, asIntList, map_map]
    apply List.map_id''
    intro p
    exact p.toInt64_toUInt64
  · simp only [Caps.fromBody, Option.getD_some, codecs, Option.map_some, asByteList, map_map]
    apply List.map_id''
    intro co
    exact co.toUInt8_toUInt64
  · simp only [Caps.fromBody, Option.getD_some, tracks, Option.map_some, asUint64, UInt8.toUInt8_toUInt64]
  · simp only [Caps.fromBody, Option.getD_some, preferred, Option.map_some, asUint64, Int64.toInt64_toUInt64]

theorem guardStreamOffer_told {caps caps' : Caps} (told : hello visit visit' caps = .ok caps')
    (own : Caps) (offer : StreamOffer) : guardStreamOffer own caps' offer = guardStreamOffer own caps offer :=
  guardStreamOffer_congr ⟨rfl, rfl, rfl, rfl, rfl, rfl⟩ (hello_agrees told) offer

theorem headSize_le (n : Nat) : headSize n ≤ 9 := by
  unfold headSize
  split_ifs <;> decide

/-- The offer with what the decoder fills in for a codec that is not there. -/
def StreamOffer.decoded (offer : StreamOffer) : StreamOffer :=
  { offer with
    video := if offer.video = 0 then codecJPEG else offer.video
    audio := if offer.audio = 0 then codecOpus else offer.audio
    maxFPS := if offer.maxFPS > 0 then offer.maxFPS else 0 }

theorem StreamOffer.fromBody_eq {offer : StreamOffer} {body : Body}
    (same : ∀ key, body.lookup key = (bodyOf offer.fields).lookup key) : fromBody body = offer.decoded := by
  have distinct := distinct_offer offer
  have field {key : UInt64} {value : Value} (listed : (key, value) ∈ offer.fields) : body.lookup key = some value :=
    (same key).trans ((lookup_distinct distinct key value).2 listed)
  have absent {key : UInt64} (absent : key ∉ offer.fields.map Prod.fst) : body.lookup key = none :=
    (same key).trans (lookup_bodyOf_of_notMem distinct absent)
  have profile := @field 0 (.uint offer.profile.toUInt64) (by simp [fields])
  have tracks := @field 1 (.uint offer.tracks.toUInt64) (by simp [fields])
  have video : ((body.lookup 2).map fun v => (asUint64 v).toUInt8).getD codecJPEG = offer.decoded.video := by
    by_cases unset : offer.video = 0
    · rw [absent (by simp [fields, mem_assignIf, unset]), decoded, if_pos unset]
      rfl
    · rw [@field 2 (.uint offer.video.toUInt64) (by simp [fields, mem_assignIf, unset]), decoded, if_neg unset]
      exact UInt8.toUInt8_toUInt64 _
  have audio : ((body.lookup 3).map fun v => (asUint64 v).toUInt8).getD codecOpus = offer.decoded.audio := by
    by_cases unset : offer.audio = 0
    · rw [absent (by simp [fields, mem_assignIf, unset]), decoded, if_pos unset]
      rfl
    · rw [@field 3 (.uint offer.audio.toUInt64) (by simp [fields, mem_assignIf, unset]), decoded, if_neg unset]
      exact UInt8.toUInt8_toUInt64 _
  have maxFPS : ((body.lookup 4).map fun v => (asUint64 v).toInt64).getD 0 = offer.decoded.maxFPS := by
    by_cases set : offer.maxFPS > 0
    · rw [@field 4 (.uint offer.maxFPS.toUInt64) (by simp [fields, mem_assignIf, set]), decoded, if_pos set]
      exact Int64.toInt64_toUInt64 _
    · rw [absent (by simp [fields, mem_assignIf, set]), decoded, if_neg set]
      rfl
  rw [fromBody, get, get, profile, tracks, video, audio, maxFPS]
  simp [asUint64, decoded]

theorem length_message_numbers {fields : List (UInt64 × Value)} (distinct : (fields.map Prod.fst).Nodup)
    (few : fields.length ≤ 100) (numbers : ∀ field ∈ fields, ∃ n, field.2 = .uint n) (visit : Visit)
    (type : MessageType) : (message visit type fields).length ≤ maxEnvelopeBytes := by
  have weights : (fields.map weight).sum ≤ fields.length * 18 := by
    rw [← length_map weight, ← smul_eq_mul]
    apply sum_le_card_nsmul
    intro size member
    obtain ⟨field, listed, rfl⟩ := mem_map.1 member
    obtain ⟨n, number⟩ := numbers field listed
    rw [weight, number, encode, encodeScalar, encodeHead_length]
    have key := headSize_le field.1.toNat
    have value := headSize_le n.toNat
    omega
  rw [length_message distinct, maxEnvelopeBytes]
  have code := headSize_le type.code.toNat
  have count := headSize_le fields.length
  omega

theorem numbers_offer (offer : StreamOffer) : ∀ field ∈ offer.fields, ∃ n, field.2 = .uint n := by
  intro field member
  simp only [StreamOffer.fields, mem_append, mem_cons, not_mem_nil, or_false, mem_assignIf] at member
  rcases member with (((rfl | rfl) | ⟨-, rfl⟩) | ⟨-, rfl⟩) | ⟨-, rfl⟩
  all_goals exact ⟨_, rfl⟩

theorem length_offer (offer : StreamOffer) : offer.fields.length ≤ 5 := by
  have sub := (keys_offer offer).length_le
  rw [length_map] at sub
  exact sub

/-- A message with an offer in it is read, whatever the offer. -/
theorem unpackEnvelope_offer (visit visit' : Visit) (type : MessageType) (offer : StreamOffer) :
    (message visit type offer.fields).length ≤ maxEnvelopeBytes ∧
      ∃ body, unpackEnvelope visit' (message visit type offer.fields) = .ok { type := type.code, body := some body } ∧
        StreamOffer.fromBody body = offer.decoded := by
  have distinct := distinct_offer offer
  have few := length_offer offer
  have bounded := length_message_numbers distinct (few.trans (by decide)) (numbers_offer offer) visit type
  obtain ⟨body, unpacked, same⟩ := unpackEnvelope_message distinct visit' (few.trans (by decide)) (fun field listed => by
    obtain ⟨n, number⟩ := numbers_offer offer field listed
    rw [number]
    exact .scalar ..) bounded
  exact ⟨bounded, body, unpacked, StreamOffer.fromBody_eq same⟩

theorem offered_eq (visit visit' : Visit) (offer : StreamOffer) : offered visit visit' offer = .ok offer.decoded := by
  obtain ⟨bounded, body, unpacked, same⟩ := unpackEnvelope_offer visit visit' .streamOffer offer
  rw [offered, StreamOffer.toBody, exchange_eq_ok.2 ⟨bounded, unpacked⟩]
  exact congrArg Except.ok same

theorem decoded_eq_self {offer : StreamOffer} :
    offer.decoded = offer ↔ offer.video ≠ 0 ∧ offer.audio ≠ 0 ∧ 0 ≤ offer.maxFPS := by
  constructor
  · intro same
    have video := congrArg StreamOffer.video same
    have audio := congrArg StreamOffer.audio same
    have maxFPS := congrArg StreamOffer.maxFPS same
    dsimp only [StreamOffer.decoded] at video audio maxFPS
    refine ⟨fun unset => ?_, fun unset => ?_, ?_⟩
    · rw [if_pos unset, unset] at video
      exact absurd video (by decide)
    · rw [if_pos unset, unset] at audio
      exact absurd audio (by decide)
    · split at maxFPS
      next positive => exact Int64.le_of_lt positive
      next => exact maxFPS ▸ Int64.le_refl _
  · rintro ⟨video, audio, maxFPS⟩
    have fps : (if offer.maxFPS > 0 then offer.maxFPS else 0) = offer.maxFPS := by
      split
      next => rfl
      next zero => exact Int64.le_antisymm maxFPS (Int64.not_lt.1 zero)
    rw [StreamOffer.decoded, if_neg video, if_neg audio, fps]

/-- What the sender accepts, the receiver reads as it was sent and accepts, when the offer names both codecs and no
negative frame rate: only then does the decoder fill in nothing of its own. -/
theorem guardStreamOffer_agreement {v₁ v₂ v₃ v₄ : Visit} {a b a' b' : Caps} (told : hello v₁ v₂ a = .ok a')
    (answered : hello v₃ v₄ b = .ok b') (v₅ v₆ : Visit) (offer : StreamOffer) :
    (guardStreamOffer a b' offer = .ok () →
        offered v₅ v₆ offer = .ok offer ∧ guardStreamOffer b a' offer = .ok ()) ↔
      (guardStreamOffer a b' offer = .ok () → offer.video ≠ 0 ∧ offer.audio ≠ 0 ∧ 0 ≤ offer.maxFPS) := by
  have both : guardStreamOffer b a' offer = guardStreamOffer a b' offer := by
    rw [guardStreamOffer_told told, guardStreamOffer_told answered, guardStreamOffer_comm]
  refine forall_congr' fun passed => ?_
  rw [both, offered_eq, ← decoded_eq_self, and_iff_left passed, Except.ok.injEq]

/-- Two peers with everything that this package knows, and an offer of both tracks. -/
def fullCaps : Caps where
  maxStill := maxStillBytes
  maxClip := maxClipBytes
  profiles := [profileUltraLow, profileLow, profileMedium, profileHigh]
  codecs := [codecJPEG, codecOpus, codecCodec2, codecOpaque]
  tracks := trackVideo ||| trackAudio
  preferred := profileLow

def fullOffer : StreamOffer where
  profile := profileMedium
  tracks := trackVideo ||| trackAudio
  video := codecJPEG
  audio := codecOpus
  maxFPS := 2

/-- An offer of audio that leaves the codec to the profile. -/
def lowOffer : StreamOffer where
  profile := profileLow
  tracks := trackAudio

theorem hello_fullCaps : ∃ caps, hello .listed .listed fullCaps = .ok caps := by
  have fine : (hello .listed .listed fullCaps).isOk = true := by decide +kernel
  cases read : hello .listed .listed fullCaps with
  | error error =>
    rw [read] at fine
    cases fine
  | ok caps => exact ⟨caps, rfl⟩

theorem guardStreamOffer_agreement_full : ∃ a b, hello .listed .listed fullCaps = .ok a ∧
    hello .listed .listed fullCaps = .ok b ∧ guardStreamOffer fullCaps b fullOffer = .ok () ∧
    offered .listed .listed fullOffer = .ok fullOffer ∧ guardStreamOffer fullCaps a fullOffer = .ok () := by
  obtain ⟨caps, told⟩ := hello_fullCaps
  have passed : guardStreamOffer fullCaps caps fullOffer = .ok () := by
    rw [guardStreamOffer_told told]
    decide
  exact ⟨caps, caps, told, told, passed,
    (guardStreamOffer_agreement told told .listed .listed fullOffer).2 (fun _ => by decide) passed⟩

theorem guardStreamOffer_disagreement : ∃ a b, hello .listed .listed fullCaps = .ok a ∧
    hello .listed .listed fullCaps = .ok b ∧ guardStreamOffer fullCaps b lowOffer = .ok () ∧
    ¬ ∃ offer, offered .listed .listed lowOffer = .ok offer ∧
      (offer = lowOffer ∨ guardStreamOffer fullCaps a offer = .ok ()) := by
  obtain ⟨caps, told⟩ := hello_fullCaps
  refine ⟨caps, caps, told, told, ?_, fun ⟨offer, read, same⟩ => ?_⟩
  · rw [guardStreamOffer_told told]
    decide
  · rw [offered_eq] at read
    cases read
    rw [guardStreamOffer_told told] at same
    revert same
    decide

end ReticulumProtocols.Rnv
