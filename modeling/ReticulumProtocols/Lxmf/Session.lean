import ReticulumProtocols.Lxmf.Messenger
import ReticulumProtocols.Lxmf.RateLimit

/-! A session on top of a messenger: who may write, how often, and whether unverified messages are
dropped. The drop rule comes after the messenger has marked the hash, so a forged copy that arrives
first takes the place of the genuine one. -/

namespace ReticulumProtocols.Lxmf
open Wire Msgpack Sha256 List

structure SessionConfig where
  allowed : List Bytes := []
  blocked : List Bytes := []
  allowFunc : Option (Bytes → Bool) := none
  allowNone : Bool := false
  dropUnverified : Bool := false
  requireStamp : Bool := false
  stampCost : Int := 0

inductive SessionError where
  | notAllowed
  | rateLimited
  | stamp (error : Option StampError)
  | unverified
  | receive (error : Option UnpackError)
  deriving DecidableEq, Repr

structure Session where
  limiter : Option RateLimiter := none
  recv : Nat := 0
  dropped : Nat := 0
  lastFrom : Bytes := []
  lastTitle : Bytes := []
  lastErr : Option SessionError := none

inductive SessionEvent where
  | onMessage (msg : LXMessage)
  | onUnverified (msg : LXMessage)
  | onDropped (msg : LXMessage) (error : SessionError)
  | onError (error : SessionError)

def SessionEvent.isMessage : SessionEvent → Bool
  | .onMessage _ => true
  | _ => false

/-- A packet, with the time and the map orders of the rate limiter. -/
structure Arrival where
  packet : Inbound
  moment : Int
  first : Visit
  second : Visit

namespace Session

def allow (s : Session) (source : Bytes) (a : Arrival) : Session × Bool :=
  match s.limiter with
  | none => (s, true)
  | some limiter =>
    match limiter.allow source a.moment a.first a.second with
    | (limiter, ok) => ({ s with limiter := some limiter }, ok)

/-- `admit`; checking the stamp leaves its verdict on the message. -/
def admitMessage (c : SessionConfig) (s : Session) (a : Arrival) (msg : LXMessage) :
    Session × LXMessage × Option SessionError :=
  if msg.sourceHash ∈ c.blocked then (s, msg, some .notAllowed)
  else if c.allowNone then (s, msg, some .notAllowed)
  else if ∃ f ∈ c.allowFunc, f msg.sourceHash = false then (s, msg, some .notAllowed)
  else if c.allowed ≠ [] ∧ msg.sourceHash ∉ c.allowed then (s, msg, some .notAllowed)
  else
    match s.allow msg.sourceHash a with
    | (s, false) => (s, msg, some .rateLimited)
    | (s, true) =>
      if c.requireStamp then
        match msg.validateStamp c.stampCost [] with
        | (msg, .error error) => (s, msg, some (.stamp (some error)))
        | (msg, .ok false) => (s, msg, some (.stamp none))
        | (msg, .ok true) => (s, msg, none)
      else (s, msg, none)

/-- A message is dropped: the counter, and the callbacks `OnDropped` and `OnError`. -/
def drop (s : Session) (msg : LXMessage) (error : SessionError) : Session × List SessionEvent :=
  ({ s with dropped := s.dropped + 1, lastErr := some error }, [.onDropped msg error, .onError error])

def onInbound (c : SessionConfig) (s : Session) (a : Arrival) (msg : LXMessage) : Session × List SessionEvent :=
  match s.admitMessage c a msg with
  | (s, msg, some error) => s.drop msg error
  | (s, msg, none) =>
    let received := { s with recv := s.recv + 1, lastFrom := msg.sourceHash, lastTitle := msg.title.getD [] }
    if msg.signatureValidated then (received, [.onMessage msg])
    else if c.dropUnverified then
      match s.drop msg .unverified with
      | (s, events) => (s, .onUnverified msg :: events)
    else (received, [.onUnverified msg, .onMessage msg])

end Session

structure Node where
  messenger : Messenger := {}
  session : Session := {}

namespace Node
variable (c : MessengerConfig) (d : SessionConfig)

/-- One arrival at a node: what the messenger makes of it, and which callbacks the session calls. -/
def receive (n : Node) (a : Arrival) : Node × Receipt × List SessionEvent :=
  match n.messenger.onPacket c a.packet with
  | (m, .handed msg) =>
    match n.session.onInbound d a msg with
    | (s, events) => (⟨m, s⟩, .handed msg, events)
  | (m, .failed error) =>
    (⟨m, { n.session with lastErr := some (.receive error) }⟩, .failed error, [.onError (.receive error)])
  | (m, receipt) => (⟨m, n.session⟩, receipt, [])

def run (n : Node) (arrivals : List Arrival) : Node := arrivals.foldl (fun n a => (n.receive c d a).1) n

/-- The arrival is handed to the message handler. -/
def Hands (n : Node) (a : Arrival) : Prop := (n.receive c d a).2.1.isHanded = true

/-- The session calls `OnMessage` for the arrival. -/
def Tells (n : Node) (a : Arrival) : Prop := (n.receive c d a).2.2.any SessionEvent.isMessage = true

instance (n : Node) (a : Arrival) : Decidable (n.Hands c d a) := inferInstanceAs (Decidable (_ = true))
instance (n : Node) (a : Arrival) : Decidable (n.Tells c d a) := inferInstanceAs (Decidable (_ = true))

variable {c d}

theorem receive_messenger (n : Node) (a : Arrival) :
    (n.receive c d a).1.messenger = (n.messenger.onPacket c a.packet).1 := by
  unfold receive
  split <;> next same => rw [same]

theorem receive_receipt (n : Node) (a : Arrival) :
    (n.receive c d a).2.1 = (n.messenger.onPacket c a.packet).2 := by
  unfold receive
  split <;> next same => rw [same]

theorem run_messenger (n : Node) (arrivals : List Arrival) :
    (n.run c d arrivals).messenger = n.messenger.run c (arrivals.map Arrival.packet) := by
  induction arrivals generalizing n with
  | nil => rfl
  | cons a arrivals ih =>
    show ((n.receive c d a).1.run c d arrivals).messenger = (n.messenger.onPacket c a.packet).1.run c _
    rw [ih, receive_messenger]

theorem hands_iff (n : Node) (a : Arrival) :
    n.Hands c d a ↔
      c.handled = true ∧ ∃ msg ∈ c.screened n.messenger.tickets a.packet, msg.hash ∉ n.messenger.deliveredTIDs := by
  unfold Hands
  rw [receive_receipt]
  exact onPacket_handed_iff c n.messenger a.packet

theorem Tells.hands {n : Node} {a : Arrival} (tells : n.Tells c d a) : n.Hands c d a := by
  unfold Tells receive at tells
  unfold Hands
  rw [receive_receipt]
  split at tells
  · next same => rw [same]; rfl
  · cases tells
  · cases tells

end Node

section
variable {c : MessengerConfig} {d : SessionConfig} {n : Node}

/-- An arrival that opens to an unverified message with the given hash. -/
def Forged (c : MessengerConfig) (hash : Bytes) (a : Arrival) : Prop :=
  ∃ copy error, c.unpack a.packet = (some copy, error) ∧ copy.hash = hash ∧ copy.signatureValidated = false

/-- A run in which `true` marks the inserted arrivals: with them, and without. -/
def withCopies (arrivals : List (Bool × Arrival)) : List Arrival := arrivals.map Prod.snd

def withoutCopies (arrivals : List (Bool × Arrival)) : List Arrival :=
  (arrivals.filter fun arrival => !arrival.1).map Prod.snd

/-- The insertions do not change whether the messenger hands `genuine` over, nor whether the session
tells of it. -/
def NotSuppressed (c : MessengerConfig) (d : SessionConfig) (n : Node) (arrivals : List (Bool × Arrival))
    (genuine : Arrival) : Prop :=
  ((n.run c d (withoutCopies arrivals)).Hands c d genuine ↔ (n.run c d (withCopies arrivals)).Hands c d genuine) ∧
  ((n.run c d (withoutCopies arrivals)).Tells c d genuine ↔ (n.run c d (withCopies arrivals)).Tells c d genuine)

instance (arrivals : List (Bool × Arrival)) (genuine : Arrival) :
    Decidable (NotSuppressed c d n arrivals genuine) := inferInstanceAs (Decidable (_ ∧ _))

/-- A forged copy that fails the stamp rule leaves the whole node as it was. -/
theorem receive_rejected {hash : Bytes} {a : Arrival} (forged : Forged c hash a)
    (rejected : c.screened n.messenger.tickets a.packet = none) : (n.receive c d a).1 = n := by
  obtain ⟨copy, error, unpacked, _, unverified⟩ := forged
  unfold Node.receive
  rw [onPacket_rejected unpacked unverified rejected]

/-- If every inserted copy fails the stamp rule, both runs reach the same state. -/
theorem run_withCopies {hash : Bytes} (arrivals : List (Bool × Arrival))
    (forged : ∀ a, (true, a) ∈ arrivals → Forged c hash a)
    (rejected : ∀ a, (true, a) ∈ arrivals → c.screened n.messenger.tickets a.packet = none) :
    n.run c d (withCopies arrivals) = n.run c d (withoutCopies arrivals) := by
  induction arrivals generalizing n with
  | nil => rfl
  | cons arrival arrivals ih =>
    obtain ⟨inserted, a⟩ := arrival
    have step : n.run c d (withCopies ((inserted, a) :: arrivals)) =
        (n.receive c d a).1.run c d (withCopies arrivals) := rfl
    rw [step]
    cases inserted with
    | true =>
      rw [receive_rejected (forged a (by simp)) (rejected a (by simp))]
      exact ih (fun a member => forged a (by simp [member])) fun a member => rejected a (by simp [member])
    | false =>
      have same : c.screened (n.receive c d a).1.messenger.tickets = c.screened n.messenger.tickets := by
        rw [Node.receive_messenger]
        exact screened_congr (onPacket_inbound c n.messenger a.packet)
      have step' : n.run c d (withoutCopies ((false, a) :: arrivals)) =
        (n.receive c d a).1.run c d (withoutCopies arrivals) := rfl
      rw [step']
      apply ih (fun a member => forged a (by simp [member]))
      intro a member
      rw [same]
      exact rejected a (by simp [member])

theorem mem_withoutCopies (arrivals : List (Bool × Arrival)) (a : Arrival) :
    a ∈ withoutCopies arrivals ↔ (false, a) ∈ arrivals := by
  simp [withoutCopies]

/-- When a message is handed over, from the state at the start and the arrivals before it. -/
theorem run_hands_iff {msg : LXMessage} {error : Option UnpackError} {genuine : Arrival}
    (opens : c.unpack genuine.packet = (some msg, error)) (arrivals : List Arrival) :
    (n.run c d arrivals).Hands c d genuine ↔
      c.handled = true ∧ c.screened n.messenger.tickets genuine.packet ≠ none ∧
        msg.hash ∉ n.messenger.deliveredTIDs ∧
        ∀ a ∈ arrivals, ∀ earlier ∈ c.screened n.messenger.tickets a.packet, earlier.hash ≠ msg.hash := by
  have same : c.screened (n.run c d arrivals).messenger.tickets = c.screened n.messenger.tickets := by
    rw [Node.run_messenger]
    exact screened_congr (run_inbound c _ _)
  have marked : msg.hash ∉ (n.run c d arrivals).messenger.deliveredTIDs ↔ msg.hash ∉ n.messenger.deliveredTIDs ∧
      ∀ a ∈ arrivals, ∀ earlier ∈ c.screened n.messenger.tickets a.packet, earlier.hash ≠ msg.hash := by
    rw [Node.run_messenger, mem_run_delivered]
    simp
  rw [Node.hands_iff, same, ← marked]
  cases passed : c.screened n.messenger.tickets genuine.packet with
  | none => simp
  | some checked => simp [screened_hash opens passed]

/-- Forged copies of a message that would be handed over suppress it unless the stamp rule drops every
one of them: the first that passes marks the hash as delivered. -/
theorem notSuppressed_iff {msg : LXMessage} {error : Option UnpackError} {arrivals : List (Bool × Arrival)}
    {genuine : Arrival} (opens : c.unpack genuine.packet = (some msg, error))
    (forged : ∀ a, (true, a) ∈ arrivals → Forged c msg.hash a) :
    NotSuppressed c d n arrivals genuine ↔
      (∀ a, (true, a) ∈ arrivals → c.screened n.messenger.tickets a.packet = none) ∨
      c.handled = false ∨ c.screened n.messenger.tickets genuine.packet = none ∨
      msg.hash ∈ n.messenger.deliveredTIDs ∨
      ∃ a, (false, a) ∈ arrivals ∧ ∃ earlier ∈ c.screened n.messenger.tickets a.packet, earlier.hash = msg.hash := by
  by_cases rejected : ∀ a, (true, a) ∈ arrivals → c.screened n.messenger.tickets a.packet = none
  · refine iff_of_true ?_ (.inl rejected)
    unfold NotSuppressed
    rw [run_withCopies arrivals forged rejected]
    exact ⟨Iff.rfl, Iff.rfl⟩
  · -- some copy passes, so with the copies nothing is handed over
    have silent : ¬ (n.run c d (withCopies arrivals)).Hands c d genuine := by
      rw [run_hands_iff opens]
      rintro ⟨_, _, _, unmarked⟩
      apply rejected
      intro a member
      obtain ⟨copy, error', opens', same, _⟩ := forged a member
      by_contra passed
      obtain ⟨checked, screened⟩ := Option.ne_none_iff_exists'.mp passed
      have inside : a ∈ withCopies arrivals := mem_map.mpr ⟨_, member, rfl⟩
      exact unmarked a inside checked screened ((screened_hash opens' screened).trans same)
    have alone : NotSuppressed c d n arrivals genuine ↔ ¬ (n.run c d (withoutCopies arrivals)).Hands c d genuine := by
      constructor
      · rintro ⟨hands, _⟩ handed
        exact silent (hands.mp handed)
      · intro unhanded
        exact ⟨iff_of_false unhanded silent, iff_of_false (unhanded ·.hands) (silent ·.hands)⟩
    rw [alone, run_hands_iff opens]
    simp only [mem_withoutCopies, rejected, false_or, not_and_or, Bool.not_eq_true, not_not, not_forall, exists_prop]

end

/-- The plaintext of a message as it is sent, and with another signature. -/
def plaintextOf (m : LXMessage) : Bytes := (packedByEcho m).drop destinationLength

def forge (plaintext : Bytes) : Bytes :=
  plaintext.take destinationLength ++ replicate signatureLength 1 ++
    plaintext.drop (destinationLength + signatureLength)

def arrivalOf (plaintext : Bytes) : Arrival := ⟨⟨plaintext, 1000, .listed, .listed⟩, 0, .listed, .listed⟩

def openConfig : MessengerConfig where
  destinationHash := plainMessage.destinationHash
  resolver := some fun _ => .ok (some echoIdentity)
  parseFloat := fun _ => (clock 0, false)

/-- The messages of two arrivals, compared as far as the duplicate check goes. -/
theorem forged_of_eval {c : MessengerConfig} {genuine copy : Arrival}
    (verdicts : (c.unpack genuine.packet).1.map LXMessage.signatureValidated = some true ∧
      (c.unpack copy.packet).1.map LXMessage.signatureValidated = some false ∧
      (c.unpack copy.packet).1.map LXMessage.hash = (c.unpack genuine.packet).1.map LXMessage.hash) :
    ∃ msg error, c.unpack genuine.packet = (some msg, error) ∧ msg.signatureValidated = true ∧
      Forged c msg.hash copy := by
  obtain ⟨valid, invalid, same⟩ := verdicts
  obtain ⟨msg, opens, signed⟩ := Option.map_eq_some_iff.mp valid
  obtain ⟨fake, opens', unsigned⟩ := Option.map_eq_some_iff.mp invalid
  rw [opens, opens'] at same
  exact ⟨msg, _, Prod.ext opens rfl, signed, fake, _, Prod.ext opens' rfl, Option.some.inj same, unsigned⟩

/-- A copy with a wrong signature, received first, keeps the genuine message from handler and session. -/
theorem forgedCopy_suppresses :
    (∃ msg error, openConfig.unpack (arrivalOf (plaintextOf plainMessage)).packet = (some msg, error) ∧
      msg.signatureValidated = true ∧ Forged openConfig msg.hash (arrivalOf (forge (plaintextOf plainMessage)))) ∧
    ¬ NotSuppressed openConfig { dropUnverified := true } {}
      [(true, arrivalOf (forge (plaintextOf plainMessage)))] (arrivalOf (plaintextOf plainMessage)) := by
  refine ⟨forged_of_eval (by decide +kernel), by decide +kernel⟩

/-- A messenger that asks for stamps, and has issued a ticket to the sender. -/
def strictConfig : MessengerConfig := { openConfig with inboundStampCost := some 8, enforceStamps := true }

def fourIssued : GoMap Ticket Float := (∅ : GoMap Ticket Float).insert fours (clock 2000)

def ticketNode : Node where
  messenger := { tickets := { inbound := (∅ : GoMap Bytes _).insert plainMessage.sourceHash fourIssued } }

def ticketMessage : LXMessage :=
  { plainMessage with
    stamp := truncatedHash fours.val (plainMessage.pack (some echoIdentity) 1 .listed .listed).1.hash }

/-- A forged copy without the stamp is dropped, and the genuine message gets through. -/
theorem unstampedCopy_harmless :
    NotSuppressed strictConfig { dropUnverified := true } ticketNode
      [(true, arrivalOf (forge (plaintextOf plainMessage)))] (arrivalOf (plaintextOf ticketMessage)) ∧
    ticketNode.Tells strictConfig { dropUnverified := true } (arrivalOf (plaintextOf ticketMessage)) := by
  have verdicts : ∃ msg error, strictConfig.unpack (arrivalOf (plaintextOf ticketMessage)).packet = (some msg, error) ∧
      msg.signatureValidated = true ∧ Forged strictConfig msg.hash (arrivalOf (forge (plaintextOf plainMessage))) :=
    forged_of_eval (by decide +kernel)
  obtain ⟨msg, error, opens, _, forged⟩ := verdicts
  refine ⟨(notSuppressed_iff opens ?_).mpr (.inl ?_), by decide +kernel⟩
  · intro a member
    cases mem_singleton.mp member
    exact forged
  · intro a member
    cases mem_singleton.mp member
    exact Option.isNone_iff_eq_none.mp (by decide +kernel)

end ReticulumProtocols.Lxmf
