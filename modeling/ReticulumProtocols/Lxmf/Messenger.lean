import ReticulumProtocols.Lxmf.Tickets

/-! The messenger's receiving side. `onPacket` unpacks, takes note of a ticket, applies the stamp
rule and drops what it has delivered before. It marks a hash as delivered whatever the signature
says. -/

namespace ReticulumProtocols.Lxmf
open Wire Msgpack Sha256

/-- What a messenger is set up with; `handled` says whether a message handler is registered. -/
structure MessengerConfig where
  destinationHash : Bytes
  resolver : Option SourceResolver
  inboundStampCost : Option Int := none
  enforceStamps : Bool := false
  handled : Bool := true
  parseFloat : Bytes → Float × Bool

structure Messenger where
  tickets : TicketBook := {}
  deliveredTIDs : GoMap Bytes Float := ∅

/-- A plaintext that arrives, with the time and the map orders of its processing. -/
structure Inbound where
  plaintext : Bytes
  now : Int
  order : MapOrder
  visit : Visit

/-- How `onPacket` ends. -/
inductive Receipt where
  | failed (error : Option UnpackError)
  | stampDropped
  | duplicate
  | unhandled
  | handed (msg : LXMessage)

def Receipt.isHanded : Receipt → Bool
  | .handed _ => true
  | _ => false

/-- What a caller of `ValidateStamp` notes on the message. -/
def noteVerdict : LXMessage × Except StampError Bool → LXMessage
  | (msg, .ok ok) => { msg with stampValid := ok }
  | (msg, .error _) => msg

/-- The stamp rule: the message with its verdict, or nothing if the message is dropped. -/
def checkStamp (stampCost : Option Int) (enforce : Bool) (tickets : List Bytes) (msg : LXMessage) : Option LXMessage :=
  match stampCost with
  | none => some msg
  | some cost =>
    if cost > 0 then
      let checked := noteVerdict (msg.validateStamp cost tickets)
      if checked.stampValid = false ∧ enforce then none else some checked
    else some msg

def MessengerConfig.checkStamp (c : MessengerConfig) : List Bytes → LXMessage → Option LXMessage :=
  Lxmf.checkStamp c.inboundStampCost c.enforceStamps

/-- `UnpackFromBytes` behind the length check of `onPacket`. -/
def MessengerConfig.unpack (c : MessengerConfig) (e : Inbound) : Option LXMessage × Option UnpackError :=
  if e.plaintext.length < destinationLength + signatureLength then (none, some .tooShort)
  else unpackFromBytes c.destinationHash e.plaintext c.resolver e.order

def Messenger.onPacket (c : MessengerConfig) (m : Messenger) (e : Inbound) : Messenger × Receipt :=
  match c.unpack e with
  | (none, error) => (m, .failed error)
  | (some msg, _) =>
    let m := { m with tickets := rememberTicketField c.parseFloat m.tickets msg e.now }
    match c.checkStamp (m.tickets.inboundTickets msg.sourceHash e.now e.visit) msg with
    | none => (m, .stampDropped)
    | some msg =>
      if msg.hash ≠ [] ∧ msg.hash ∈ m.deliveredTIDs then (m, .duplicate)
      else
        let m :=
          if msg.hash ≠ [] then { m with deliveredTIDs := m.deliveredTIDs.insert msg.hash (clock e.now) } else m
        (m, if c.handled then .handed msg else .unhandled)

def messageExpirySeconds : Int := 30 * 24 * 60 * 60

/-- `noteDelivered`: the transient id of a payload, and a clean-up of the old ones. -/
def Messenger.noteDelivered (m : Messenger) (lxmfData : Bytes) (now : Int) : Messenger :=
  if lxmfData.length < destinationLength then m
  else
    let old := fun noted => decide (clock now - noted > Float64.ofInt (messageExpirySeconds * 6))
    { m with deliveredTIDs := eraseWhere old (m.deliveredTIDs.insert (sha256 lxmfData) (clock now)) }

def Messenger.hasDelivered (m : Messenger) (transientID : Bytes) : Bool := decide (transientID ∈ m.deliveredTIDs)

/-- The message that gets past the stamp rule, if one does. -/
def MessengerConfig.screened (c : MessengerConfig) (tickets : TicketBook) (e : Inbound) : Option LXMessage :=
  (c.unpack e).1.bind fun msg => c.checkStamp (tickets.inboundTickets msg.sourceHash e.now e.visit) msg

theorem noteVerdict_hash (m : LXMessage) (cost : Int) (tickets : List Bytes) :
    (noteVerdict (m.validateStamp cost tickets)).hash = m.hash := by
  unfold LXMessage.validateStamp
  repeat' split
  all_goals rfl

theorem verifySource_hash {m msg : LXMessage} {signed : Bytes} {resolver : Option SourceResolver}
    {error : Option UnpackError} (verified : verifySource m signed resolver = (some msg, error)) :
    msg.hash = m.hash := by
  rcases verifySource_cases verified with rfl | rfl | rfl <;> rfl

theorem unpackFromBytes_hash {destinationHash inner : Bytes} {resolver : Option SourceResolver} {order : MapOrder}
    {msg : LXMessage} {error : Option UnpackError}
    (unpacked : unpackFromBytes destinationHash inner resolver order = (some msg, error)) : msg.hash ≠ [] := by
  unfold unpackFromBytes unpackParts at unpacked
  split at unpacked
  · cases unpacked
  split at unpacked
  · cases unpacked
  split at unpacked
  · cases unpacked
  next payload hashed _ =>
  dsimp only at unpacked
  split at unpacked
  · cases unpacked
  rw [verifySource_hash unpacked]
  intro empty
  have length := congrArg List.length empty
  simp [messageHash, sha256_length] at length

theorem checkStamp_hash {stampCost : Option Int} {enforce : Bool} {valid : List Bytes} {msg checked : LXMessage}
    (passed : checkStamp stampCost enforce valid msg = some checked) : checked.hash = msg.hash := by
  unfold checkStamp at passed
  cases stampCost with
  | none => rw [Option.some.inj passed]
  | some cost =>
  by_cases positive : cost > 0
  · dsimp only at passed
    rw [if_pos positive] at passed
    split at passed
    · cases passed
    · rw [← Option.some.inj passed, noteVerdict_hash]
  · dsimp only at passed
    rw [if_neg positive] at passed
    rw [Option.some.inj passed]

section
variable {c : MessengerConfig} {tickets : TicketBook} {e : Inbound} {msg : LXMessage} {error : Option UnpackError}

theorem unpack_hash (unpacked : c.unpack e = (some msg, error)) : msg.hash ≠ [] := by
  unfold MessengerConfig.unpack at unpacked
  split at unpacked
  · cases unpacked
  · exact unpackFromBytes_hash unpacked

theorem screened_of_unpack (unpacked : c.unpack e = (some msg, error)) :
    c.screened tickets e = c.checkStamp (tickets.inboundTickets msg.sourceHash e.now e.visit) msg := by
  rw [MessengerConfig.screened, unpacked]
  rfl

theorem screened_hash (unpacked : c.unpack e = (some msg, error)) {checked : LXMessage}
    (passed : c.screened tickets e = some checked) : checked.hash = msg.hash := by
  rw [screened_of_unpack unpacked] at passed
  exact checkStamp_hash passed

/-- The stamp rule reads the tickets that were issued, not those that were received. -/
theorem screened_congr {other : TicketBook} (same : other.inbound = tickets.inbound) :
    c.screened other = c.screened tickets := by
  have issued (peer : Bytes) : other.issuedTo peer = tickets.issuedTo peer := by
    rw [TicketBook.issuedTo, TicketBook.issuedTo, same]
  funext e
  simp only [MessengerConfig.screened, TicketBook.inboundTickets, issued]

end

section
variable (c : MessengerConfig) (m : Messenger) (e : Inbound)

theorem onPacket_eq {msg : LXMessage} {error : Option UnpackError} (unpacked : c.unpack e = (some msg, error)) :
    m.onPacket c e =
      let noted := { m with tickets := rememberTicketField c.parseFloat m.tickets msg e.now }
      match c.screened m.tickets e with
      | none => (noted, .stampDropped)
      | some checked =>
        if msg.hash ∈ m.deliveredTIDs then (noted, .duplicate)
        else ({ noted with deliveredTIDs := m.deliveredTIDs.insert msg.hash (clock e.now) },
          if c.handled then .handed checked else .unhandled) := by
  have same := rememberTicketField_inbound c.parseFloat m.tickets msg e.now
  have rule : c.screened m.tickets e =
      c.checkStamp ((rememberTicketField c.parseFloat m.tickets msg e.now).inboundTickets msg.sourceHash e.now e.visit)
        msg := by
    rw [← screened_congr same, screened_of_unpack unpacked]
  unfold Messenger.onPacket
  rw [unpacked, rule]
  dsimp only
  cases passed : c.checkStamp ((rememberTicketField c.parseFloat m.tickets msg e.now).inboundTickets msg.sourceHash
    e.now e.visit) msg with
  | none => rfl
  | some checked =>
    have hash := checkStamp_hash passed
    have some' := unpack_hash unpacked
    simp only [hash, ne_eq, some', not_false_eq_true, true_and, if_true]

theorem onPacket_failed {error : Option UnpackError} (unpacked : c.unpack e = (none, error)) :
    m.onPacket c e = (m, .failed error) := by
  unfold Messenger.onPacket
  rw [unpacked]

theorem onPacket_cases :
    (c.screened m.tickets e = none ∧ (m.onPacket c e).1.deliveredTIDs = m.deliveredTIDs ∧
      (m.onPacket c e).2.isHanded = false) ∨
    ∃ msg, c.screened m.tickets e = some msg ∧
      (msg.hash ∈ m.deliveredTIDs ∧ (m.onPacket c e).1.deliveredTIDs = m.deliveredTIDs ∧
          (m.onPacket c e).2 = .duplicate ∨
        msg.hash ∉ m.deliveredTIDs ∧
          (m.onPacket c e).1.deliveredTIDs = m.deliveredTIDs.insert msg.hash (clock e.now) ∧
          (m.onPacket c e).2 = if c.handled then .handed msg else .unhandled) := by
  cases unpacked : c.unpack e with
  | mk opened error =>
  cases opened with
  | none =>
    refine .inl ⟨by rw [MessengerConfig.screened, unpacked]; rfl, ?_⟩
    rw [onPacket_failed c m e unpacked]
    exact ⟨rfl, rfl⟩
  | some msg =>
    rw [onPacket_eq c m e unpacked]
    dsimp only
    cases passed : c.screened m.tickets e with
    | none => exact .inl ⟨rfl, rfl, rfl⟩
    | some checked =>
      have hash := screened_hash unpacked passed
      refine .inr ⟨checked, rfl, ?_⟩
      rw [hash]
      by_cases known : msg.hash ∈ m.deliveredTIDs
      · exact .inl ⟨known, by simp [known]⟩
      · exact .inr ⟨known, by simp [known]⟩

theorem onPacket_inbound : (m.onPacket c e).1.tickets.inbound = m.tickets.inbound := by
  cases unpacked : c.unpack e with
  | mk opened error =>
  cases opened with
  | none => rw [onPacket_failed c m e unpacked]
  | some msg =>
    have kept := rememberTicketField_inbound c.parseFloat m.tickets msg e.now
    rw [onPacket_eq c m e unpacked]
    dsimp only
    split
    · exact kept
    · split <;> exact kept

theorem mem_onPacket_delivered (hash : Bytes) :
    hash ∈ (m.onPacket c e).1.deliveredTIDs ↔
      hash ∈ m.deliveredTIDs ∨ ∃ msg ∈ c.screened m.tickets e, msg.hash = hash := by
  rcases onPacket_cases c m e with ⟨dropped, kept, _⟩ | ⟨msg, passed, ⟨known, kept, _⟩ | ⟨_, added, _⟩⟩
  · simp [dropped, kept]
  · have only : (∃ other ∈ some msg, other.hash = hash) ↔ hash = msg.hash := by simp [eq_comm]
    rw [kept, passed, only]
    refine ⟨.inl, ?_⟩
    rintro (old | rfl)
    · exact old
    · exact known
  · have only : (∃ other ∈ some msg, other.hash = hash) ↔ hash = msg.hash := by simp [eq_comm]
    rw [added, passed, only, AList.mem_insert, or_comm]

theorem onPacket_handed_iff :
    (m.onPacket c e).2.isHanded = true ↔
      c.handled = true ∧ ∃ msg ∈ c.screened m.tickets e, msg.hash ∉ m.deliveredTIDs := by
  rcases onPacket_cases c m e with ⟨dropped, _, never⟩ | ⟨msg, passed, ⟨known, _, receipt⟩ | ⟨fresh, _, receipt⟩⟩
  · simp [dropped, never]
  · simp [passed, receipt, known, Receipt.isHanded]
  · cases handled : c.handled <;> simp [passed, receipt, fresh, handled, Receipt.isHanded]

end

/-- A message that is neither verified nor past the stamp rule leaves no trace. -/
theorem onPacket_rejected {c : MessengerConfig} {m : Messenger} {e : Inbound} {msg : LXMessage}
    {error : Option UnpackError} (unpacked : c.unpack e = (some msg, error))
    (unverified : msg.signatureValidated = false) (rejected : c.screened m.tickets e = none) :
    m.onPacket c e = (m, .stampDropped) := by
  have forgotten : rememberTicketField c.parseFloat m.tickets msg e.now = m.tickets := by
    rw [rememberTicketField, if_pos unverified]
  rw [onPacket_eq c m e unpacked, rejected, forgotten]

def Messenger.run (c : MessengerConfig) (m : Messenger) (events : List Inbound) : Messenger :=
  events.foldl (fun m e => (m.onPacket c e).1) m

theorem run_inbound (c : MessengerConfig) (m : Messenger) (events : List Inbound) :
    (m.run c events).tickets.inbound = m.tickets.inbound := by
  induction events generalizing m with
  | nil => rfl
  | cons e events ih =>
    show ((m.onPacket c e).1.run c events).tickets.inbound = _
    rw [ih, onPacket_inbound]

/-- Whatever got past the stamp rule is marked, once and for all. -/
theorem mem_run_delivered (c : MessengerConfig) (m : Messenger) (events : List Inbound) (hash : Bytes) :
    hash ∈ (m.run c events).deliveredTIDs ↔
      hash ∈ m.deliveredTIDs ∨ ∃ e ∈ events, ∃ msg ∈ c.screened m.tickets e, msg.hash = hash := by
  induction events generalizing m with
  | nil => simp [Messenger.run]
  | cons e events ih =>
    show hash ∈ ((m.onPacket c e).1.run c events).deliveredTIDs ↔ _
    rw [ih, mem_onPacket_delivered, screened_congr (onPacket_inbound c m e), List.exists_mem_cons_iff, or_assoc]

end ReticulumProtocols.Lxmf
