import ReticulumProtocols.Lxmf.Fetch

/-! The choice of a delivery method and a representation for a packed message. -/

namespace ReticulumProtocols.Lxmf
open Wire List

abbrev timestampSize : Nat := 8
abbrev structOverhead : Nat := 8

abbrev methodUnknown : UInt8 := 0x00
abbrev methodOpportunistic : UInt8 := 0x01
abbrev methodDirect : UInt8 := 0x02
abbrev methodPropagated : UInt8 := 0x03
abbrev methodPaper : UInt8 := 0x05

abbrev representationUnknown : UInt8 := 0x00
abbrev representationPacket : UInt8 := 0x01
abbrev representationResource : UInt8 := 0x02

abbrev destinationTypeSingle : UInt8 := 0x00
abbrev destinationTypePlain : UInt8 := 0x02

abbrev encryptedPacketMDU : Nat := 383 + timestampSize
abbrev plainPacketMDU : Nat := 464
abbrev linkPacketMDU : Nat := 431
abbrev encryptedPacketMaxContent : Nat := encryptedPacketMDU - overhead + destinationLength
abbrev linkPacketMaxContent : Nat := linkPacketMDU - overhead
abbrev plainPacketMaxContent : Nat := plainPacketMDU - overhead + destinationLength
/-- Behind the 6 characters of `lxm://`. -/
abbrev paperMDU : Nat := (2953 - 6) * 6 / 8

inductive MethodError where
  | notPacked
  | unsupportedDestinationType (destinationType : UInt8)
  | exceedsPaperMDU (packedSize : Nat)
  | unsupportedMethod (method : UInt8)
  deriving DecidableEq, Repr

def LXMessage.contentSize (m : LXMessage) : Except MethodError Nat :=
  if m.packed.length = 0 then .error .notPacked
  else
    let payloadLen : Int := m.packed.length - 2 * destinationLength - signatureLength
    if payloadLen ≤ timestampSize + structOverhead then .ok 0
    else .ok (payloadLen - timestampSize - structOverhead).toNat

def maxContentForMethod (method destinationType : UInt8) : Option Nat :=
  if method = methodOpportunistic then
    if destinationType = destinationTypePlain then some plainPacketMaxContent else some encryptedPacketMaxContent
  else if method = methodDirect ∨ method = methodPropagated then some linkPacketMaxContent
  else if method = methodPaper then some paperMDU
  else none

/-- The choice for a method that is not left open. -/
def LXMessage.chooseFor (m : LXMessage) (desiredMethod destinationType : UInt8) (contentSize : Nat) :
    Except MethodError (UInt8 × UInt8) :=
  if desiredMethod = methodOpportunistic then
    match maxContentForMethod methodOpportunistic destinationType with
    | none => .error (.unsupportedDestinationType destinationType)
    | some limit =>
      if limit < contentSize then .ok (methodDirect, representationPacket)
      else .ok (methodOpportunistic, representationPacket)
  else if desiredMethod = methodDirect ∨ desiredMethod = methodPropagated then
    if contentSize ≤ linkPacketMaxContent then .ok (desiredMethod, representationPacket)
    else .ok (desiredMethod, representationResource)
  else if desiredMethod = methodPaper then
    if paperMDU < m.packed.length then .error (.exceedsPaperMDU m.packed.length)
    else .ok (methodPaper, representationUnknown)
  else .error (.unsupportedMethod desiredMethod)

def LXMessage.chooseDeliveryMethod (m : LXMessage) (desiredMethod destinationType : UInt8) :
    Except MethodError (UInt8 × UInt8) := do
  let desiredMethod := if desiredMethod = methodUnknown then methodDirect else desiredMethod
  let contentSize ← m.contentSize
  m.chooseFor desiredMethod destinationType contentSize

def opportunisticLimit (destinationType : UInt8) : Nat :=
  if destinationType = destinationTypePlain then plainPacketMaxContent else encryptedPacketMaxContent

theorem maxContent_opportunistic (destinationType : UInt8) :
    maxContentForMethod methodOpportunistic destinationType = some (opportunisticLimit destinationType) := by
  unfold maxContentForMethod opportunisticLimit
  rw [if_pos rfl]
  split <;> rfl

theorem contentSize_eq {m : LXMessage} (packed : m.packed ≠ []) :
    m.contentSize = .ok (m.packed.length - overhead) := by
  have some : m.packed.length ≠ 0 := fun none => packed (length_eq_zero_iff.1 none)
  rw [LXMessage.contentSize, if_neg some]
  simp only [timestampSize, structOverhead, destinationLength, signatureLength, overhead]
  split
  · congr 1
    omega
  · congr 1
    omega

/-- A choice within the capacity of the packet it asks for. -/
def LXMessage.Fits (m : LXMessage) (destinationType : UInt8) (choice : UInt8 × UInt8) : Prop :=
  (choice.1 = methodDirect ∨ choice.1 = methodPropagated → choice.2 = representationPacket →
    m.packed.length - overhead ≤ linkPacketMaxContent) ∧
  (choice.1 = methodOpportunistic → m.packed.length - overhead ≤ opportunisticLimit destinationType)

section
variable (m : LXMessage) (desiredMethod destinationType : UInt8)

theorem chooseFor_opportunistic (contentSize : Nat) :
    m.chooseFor methodOpportunistic destinationType contentSize =
      if opportunisticLimit destinationType < contentSize then .ok (methodDirect, representationPacket)
      else .ok (methodOpportunistic, representationPacket) := by
  rw [LXMessage.chooseFor, if_pos rfl, maxContent_opportunistic]

/-- Only the way from opportunistic to direct delivery does not look at the link. -/
theorem chooseFor_fits_iff : (∀ choice, m.chooseFor desiredMethod destinationType (m.packed.length - overhead) =
      .ok choice → m.Fits destinationType choice) ↔
    ¬(desiredMethod = methodOpportunistic ∧ opportunisticLimit destinationType < m.packed.length - overhead ∧
      linkPacketMaxContent < m.packed.length - overhead) := by
  by_cases opportunistic : desiredMethod = methodOpportunistic
  · rw [opportunistic, chooseFor_opportunistic]
    split
    next large =>
      simp only [Except.ok.injEq, forall_eq', LXMessage.Fits, true_and, large, not_lt]
      exact ⟨fun fits => fits.1 (.inl trivial) trivial,
        fun small => ⟨fun _ _ => small, fun other => absurd other (by decide)⟩⟩
    next small =>
      simp only [Except.ok.injEq, forall_eq', LXMessage.Fits, true_and, small, false_and, not_false_iff, iff_true]
      exact ⟨fun other => absurd other (by decide), fun _ => not_lt.1 small⟩
  · refine iff_of_true (fun choice chosen => ?_) fun met => opportunistic met.1
    rw [LXMessage.chooseFor, if_neg opportunistic] at chosen
    split at chosen
    next =>
      split at chosen
      next small =>
        cases chosen
        exact ⟨fun _ _ => small, fun same => absurd same opportunistic⟩
      next =>
        cases chosen
        exact ⟨fun _ packet => absurd packet (show representationResource ≠ representationPacket by decide),
          fun same => absurd same opportunistic⟩
    next =>
      split at chosen
      · split at chosen
        · cases chosen
        · cases chosen
          exact ⟨fun other => absurd other (by decide), fun other => absurd other (by decide)⟩
      · cases chosen

end

/-- A choice keeps to the capacities, unless an opportunistic message that is too large for a link packet as well is
sent in one all the same. -/
theorem chooseDeliveryMethod_fits_iff (m : LXMessage) (desiredMethod destinationType : UInt8) (packed : m.packed ≠ []) :
    (m.packed.length - overhead ≤ linkPacketMaxContent ↔ m.packed.length ≤ 431) ∧
    m.contentSize = .ok (m.packed.length - overhead) ∧
    ((∀ choice, m.chooseDeliveryMethod desiredMethod destinationType = .ok choice → m.Fits destinationType choice) ↔
      ¬(desiredMethod = methodOpportunistic ∧ opportunisticLimit destinationType < m.packed.length - overhead ∧
        linkPacketMaxContent < m.packed.length - overhead)) := by
  have room : linkPacketMaxContent + overhead = 431 := rfl
  refine ⟨by rw [← room, Nat.sub_le_iff_le_add], contentSize_eq packed, ?_⟩
  have chosen : m.chooseDeliveryMethod desiredMethod destinationType = m.chooseFor
      (if desiredMethod = methodUnknown then methodDirect else desiredMethod) destinationType
      (m.packed.length - overhead) := by
    rw [LXMessage.chooseDeliveryMethod, contentSize_eq packed]
    rfl
  rw [chosen, chooseFor_fits_iff]
  by_cases unknown : desiredMethod = methodUnknown
  · rw [if_pos unknown, unknown]
    exact iff_of_true (fun met => absurd met.1 (by decide)) fun met => absurd met.1 (by decide)
  · rw [if_neg unknown]

def sizedMessage (size : Nat) : LXMessage :=
  { destinationHash := [], sourceHash := [], packed := replicate size 0 }

theorem chooseDeliveryMethod_fits_small :
    (sizedMessage 200).packed ≠ [] ∧
      ∀ choice, (sizedMessage 200).chooseDeliveryMethod methodOpportunistic destinationTypeSingle = .ok choice →
        (sizedMessage 200).Fits destinationTypeSingle choice := by
  have packed : (sizedMessage 200).packed ≠ [] := by simp [sizedMessage]
  refine ⟨packed, (chooseDeliveryMethod_fits_iff _ _ _ packed).2.2.2 fun met => ?_⟩
  have size : (sizedMessage 200).packed.length = 200 := length_replicate
  rw [size] at met
  exact absurd met (by decide)

/-- One byte more than a link packet holds. -/
theorem chooseDeliveryMethod_too_large :
    ∃ (m : LXMessage) (choice : UInt8 × UInt8), m.packed.length = 432 ∧
      m.chooseDeliveryMethod methodOpportunistic destinationTypeSingle = .ok choice ∧
      choice = (methodDirect, representationPacket) ∧ ¬m.Fits destinationTypeSingle choice := by
  refine ⟨sizedMessage 432, _, length_replicate, by decide +kernel, rfl, fun fits => ?_⟩
  have size : (sizedMessage 432).packed.length = 432 := length_replicate
  have small := fits.1 (.inl rfl) rfl
  rw [size] at small
  exact absurd small (by decide)

end ReticulumProtocols.Lxmf
