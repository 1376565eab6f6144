import ReticulumProtocols.Concurrency.Interleaving
import ReticulumProtocols.Lxmf.Messenger

/-! The router's delivery handler. Looking a hash up in the delivered set and putting it there are two
critical sections, so two handlers for copies of one message can both find it missing. -/

namespace ReticulumProtocols.Lxmf
open Wire Msgpack Sha256 Concurrency

structure DeliveryConfig where
  localHash : Option Bytes
  recallSource : SourceResolver
  inboundStampCost : Option Int := none
  enforceStamps : Bool := false
  ignoredList : List Bytes := []
  messagesDir : Bool := true
  onInbound : Bool := false
  parseFloat : Bytes → Float × Bool

/-- The arguments of one `handleDeliveryPayload`, the time and the map orders it meets, and whether
writing the file succeeds. -/
structure DeliveryCall where
  lxmfData : Bytes
  noStampEnforcement : Bool := false
  allowDuplicate : Bool := false
  now : Int
  order : MapOrder
  visit : Visit
  writes : Bool := true

/-- What the handlers share. -/
structure Inbox where
  tickets : TicketBook := {}
  locallyDelivered : GoMap Bytes Float := ∅

/-- The side effect of a delivery: the file of a message, and whether the hook ran on it. -/
structure Written where
  hash : Bytes
  hooked : Bool
  deriving DecidableEq, Repr

namespace DeliveryConfig
variable (c : DeliveryConfig)

/-- The message of a payload. -/
def unpack (call : DeliveryCall) : Option LXMessage :=
  match c.localHash with
  | none => none
  | some localHash =>
    if call.lxmfData.length < 2 * destinationLength + signatureLength then none
    else (unpackFromBytes localHash (call.lxmfData.drop destinationLength) (some c.recallSource) call.order).1

/-- The list of ignored sources and the stamp rule. -/
def screen (tickets : TicketBook) (call : DeliveryCall) (msg : LXMessage) : Option LXMessage :=
  if msg.sourceHash ∈ c.ignoredList then none
  else
    checkStamp c.inboundStampCost (c.enforceStamps && !call.noStampEnforcement)
      (tickets.inboundTickets msg.sourceHash call.now call.visit) msg

/-- Writing the message and running the hook. -/
def write (call : DeliveryCall) (msg : LXMessage) : Option Written :=
  if c.messagesDir && call.writes then some ⟨msg.hash, c.onInbound⟩ else none

end DeliveryConfig

/-- `handleDeliveryPayload`, undisturbed. -/
def handleDeliveryPayload (c : DeliveryConfig) (inbox : Inbox) (call : DeliveryCall) : Inbox × Option Written :=
  match c.unpack call with
  | none => (inbox, none)
  | some msg =>
    let inbox := { inbox with tickets := rememberTicketField c.parseFloat inbox.tickets msg call.now }
    match c.screen inbox.tickets call msg with
    | none => (inbox, none)
    | some msg =>
      if call.allowDuplicate = false ∧ msg.hash ∈ inbox.locallyDelivered then (inbox, none)
      else
        ({ inbox with locallyDelivered := inbox.locallyDelivered.insert msg.hash (clock call.now) },
          c.write call msg)

/-- Where a handler stands between its critical sections. -/
inductive DeliveryPhase where
  | called
  | noted (msg : LXMessage)
  | screened (msg : LXMessage)
  | missed (msg : LXMessage)
  | marked (msg : LXMessage)
  | finished (written : Option Written)

/-- The next critical section of a handler. -/
def advance (c : DeliveryConfig) (call : DeliveryCall) (inbox : Inbox) : DeliveryPhase → Option (Inbox × DeliveryPhase)
  | .called =>
    match c.unpack call with
    | none => some (inbox, .finished none)
    | some msg =>
      some ({ inbox with tickets := rememberTicketField c.parseFloat inbox.tickets msg call.now }, .noted msg)
  | .noted msg =>
    match c.screen inbox.tickets call msg with
    | none => some (inbox, .finished none)
    | some msg => some (inbox, .screened msg)
  | .screened msg =>
    if call.allowDuplicate = false ∧ msg.hash ∈ inbox.locallyDelivered then some (inbox, .finished none)
    else some (inbox, .missed msg)
  | .missed msg =>
    some ({ inbox with locallyDelivered := inbox.locallyDelivered.insert msg.hash (clock call.now) }, .marked msg)
  | .marked msg => some (inbox, .finished (c.write call msg))
  | .finished _ => none

section
variable {c : DeliveryConfig} {call : DeliveryCall} {inbox : Inbox} {msg checked : LXMessage}

theorem advance_called (opened : c.unpack call = some msg) :
    advance c call inbox .called =
      some ({ inbox with tickets := rememberTicketField c.parseFloat inbox.tickets msg call.now }, .noted msg) := by
  simp only [advance, opened]

theorem advance_noted (passed : c.screen inbox.tickets call msg = some checked) :
    advance c call inbox (.noted msg) = some (inbox, .screened checked) := by
  simp only [advance, passed]

theorem screen_congr {tickets other : TicketBook} (same : other.inbound = tickets.inbound) :
    c.screen other call msg = c.screen tickets call msg := by
  have issued : other.inboundTickets msg.sourceHash call.now call.visit =
      tickets.inboundTickets msg.sourceHash call.now call.visit := by
    rw [TicketBook.inboundTickets, TicketBook.inboundTickets, TicketBook.issuedTo, TicketBook.issuedTo, same]
  rw [DeliveryConfig.screen, DeliveryConfig.screen, issued]

end

section
variable {ι : Type} [DecidableEq ι] {c : DeliveryConfig} {calls : ι → DeliveryCall} {inbox : Inbox}
variable {start : Inbox}

omit [DecidableEq ι] in
/-- A handler that nobody disturbs does what `handleDeliveryPayload` says. -/
theorem solo_handleDeliveryPayload (i : ι) :
    Solo (fun i => advance c (calls i)) i (inbox, .called)
      ((handleDeliveryPayload c inbox (calls i)).1, .finished (handleDeliveryPayload c inbox (calls i)).2) := by
  unfold handleDeliveryPayload
  cases opened : c.unpack (calls i) with
  | none => exact .single (by simp only [advance, opened])
  | some msg =>
  refine .head (advance_called opened) ?_
  dsimp only
  cases passed : c.screen (rememberTicketField c.parseFloat inbox.tickets msg (calls i).now) (calls i) msg with
  | none => exact .single (by simp only [advance, passed])
  | some checked =>
  refine .head (advance_noted passed) ?_
  dsimp only
  by_cases known : (calls i).allowDuplicate = false ∧ checked.hash ∈ inbox.locallyDelivered
  · rw [if_pos known]
    exact .single (if_pos known)
  · rw [if_neg known]
    exact .head (if_neg known) (.head rfl (.single rfl))

/-- No message hash has its side effect twice, whatever the interleaving. -/
def AtMostOnce (c : DeliveryConfig) (calls : ι → DeliveryCall) (inbox : Inbox) : Prop :=
  ∀ w, Reaches (fun i => advance c (calls i)) ⟨inbox, fun _ => .called⟩ w →
    ∀ i j first second, w.threads i = .finished (some first) → w.threads j = .finished (some second) →
      first.hash = second.hash → i = j

/-- On its own, the call would deliver a message with this hash. -/
def Eligible (c : DeliveryConfig) (inbox : Inbox) (call : DeliveryCall) (hash : Bytes) : Prop :=
  ∃ msg, (c.unpack call).bind (c.screen inbox.tickets call) = some msg ∧ msg.hash = hash ∧
    (call.allowDuplicate = true ∨ hash ∉ inbox.locallyDelivered) ∧ c.messagesDir = true ∧ call.writes = true

/-- The shared state compared with that at the start: the issued tickets are the same, and nothing was
taken out of the delivered set. -/
def Grown (start inbox : Inbox) : Prop :=
  inbox.tickets.inbound = start.tickets.inbound ∧
    ∀ hash, hash ∈ start.locallyDelivered → hash ∈ inbox.locallyDelivered

def Justified (c : DeliveryConfig) (start : Inbox) (call : DeliveryCall) : DeliveryPhase → Prop
  | .called => True
  | .noted msg => c.unpack call = some msg
  | .screened msg => (c.unpack call).bind (c.screen start.tickets call) = some msg
  | .missed msg | .marked msg =>
    (c.unpack call).bind (c.screen start.tickets call) = some msg ∧
      (call.allowDuplicate = true ∨ msg.hash ∉ start.locallyDelivered)
  | .finished none => True
  | .finished (some written) => Eligible c start call written.hash

theorem justified_advance {call : DeliveryCall} {phase phase' : DeliveryPhase} {inbox' : Inbox}
    (grown : Grown start inbox) (justified : Justified c start call phase)
    (moved : advance c call inbox phase = some (inbox', phase')) :
    Grown start inbox' ∧ Justified c start call phase' := by
  cases phase with
  | called =>
    cases opened : c.unpack call with
    | none =>
      simp only [advance, opened] at moved
      cases moved
      exact ⟨grown, trivial⟩
    | some msg =>
      rw [advance_called opened] at moved
      cases moved
      exact ⟨⟨(rememberTicketField_inbound _ _ _ _).trans grown.1, grown.2⟩, opened⟩
  | noted msg =>
    cases passed : c.screen inbox.tickets call msg with
    | none =>
      simp only [advance, passed] at moved
      cases moved
      exact ⟨grown, trivial⟩
    | some checked =>
      rw [advance_noted passed] at moved
      cases moved
      refine ⟨grown, ?_⟩
      have opened : c.unpack call = some msg := justified
      show (c.unpack call).bind (c.screen start.tickets call) = some checked
      rw [opened, Option.bind_some, ← screen_congr grown.1, passed]
  | screened msg =>
    by_cases known : call.allowDuplicate = false ∧ msg.hash ∈ inbox.locallyDelivered
    · simp only [advance, if_pos known] at moved
      cases moved
      exact ⟨grown, trivial⟩
    · simp only [advance, if_neg known] at moved
      cases moved
      refine ⟨grown, justified, ?_⟩
      by_cases twice : call.allowDuplicate = true
      · exact .inl twice
      · exact .inr fun old => known ⟨by simpa using twice, grown.2 _ old⟩
  | missed msg =>
    cases moved
    exact ⟨⟨grown.1, fun hash old => (AList.mem_insert _).mpr (.inr (grown.2 hash old))⟩, justified⟩
  | marked msg =>
    simp only [advance, DeliveryConfig.write] at moved
    split at moved
    · next both =>
      cases moved
      rw [Bool.and_eq_true] at both
      exact ⟨grown, msg, justified.1, rfl, justified.2, both⟩
    · cases moved
      exact ⟨grown, trivial⟩
  | finished written => cases moved

omit [DecidableEq ι] in
/-- An eligible call can be stopped right after its lookup, with the delivered set as it was. -/
theorem solo_missed {i : ι} {hash : Bytes} (eligible : Eligible c start (calls i) hash)
    (inbox : Inbox) (issued : inbox.tickets.inbound = start.tickets.inbound)
    (delivered : inbox.locallyDelivered = start.locallyDelivered) :
    ∃ msg inbox', msg.hash = hash ∧
      Solo (fun i => advance c (calls i)) i (inbox, .called) (inbox', .missed msg) ∧
      inbox'.tickets.inbound = start.tickets.inbound ∧ inbox'.locallyDelivered = start.locallyDelivered := by
  obtain ⟨checked, taken, isHash, missing, _, _⟩ := eligible
  obtain ⟨msg, opened, passed⟩ := Option.bind_eq_some_iff.mp taken
  have issued' := (rememberTicketField_inbound c.parseFloat inbox.tickets msg (calls i).now).trans issued
  rw [← screen_congr issued'] at passed
  have unknown : ¬ ((calls i).allowDuplicate = false ∧ checked.hash ∈ inbox.locallyDelivered) := by
    rw [delivered, isHash]
    rintro ⟨once, known⟩
    rcases missing with twice | fresh
    · rw [once] at twice
      cases twice
    · exact fresh known
  exact ⟨checked, _, isHash, .head (advance_called opened) (.head (advance_noted passed) (.single (if_neg unknown))),
    issued', delivered⟩

omit [DecidableEq ι] in
theorem solo_finished {i : ι} {msg : LXMessage} (eligible : Eligible c start (calls i) msg.hash)
    (inbox : Inbox) :
    Solo (fun i => advance c (calls i)) i (inbox, .missed msg)
      ({ inbox with locallyDelivered := inbox.locallyDelivered.insert msg.hash (clock (calls i).now) },
        .finished (some ⟨msg.hash, c.onInbound⟩)) := by
  obtain ⟨_, _, _, _, dir, writes⟩ := eligible
  have written : c.write (calls i) msg = some ⟨msg.hash, c.onInbound⟩ := by
    simp [DeliveryConfig.write, dir, writes]
  rw [← written]
  exact .head rfl (.single rfl)

/-- Two calls that would deliver the same hash can both look before either marks. -/
theorem exists_overlap {i j : ι} (different : i ≠ j) {hash : Bytes} (eligible : Eligible c inbox (calls i) hash)
    (eligible' : Eligible c inbox (calls j) hash) :
    ∃ w, Reaches (fun i => advance c (calls i)) ⟨inbox, fun _ => .called⟩ w ∧
      w.threads i = .finished (some ⟨hash, c.onInbound⟩) ∧ w.threads j = .finished (some ⟨hash, c.onInbound⟩) := by
  obtain ⟨msg, inbox₁, rfl, first, issued, delivered⟩ := solo_missed eligible inbox rfl rfl
  obtain ⟨other, inbox₂, same, second, _, _⟩ := solo_missed eligible' inbox₁ issued delivered
  rw [← same] at eligible'
  obtain ⟨w, run, wrote, wrote'⟩ := reaches_of_pair (w := ⟨inbox, fun _ => .called⟩) different first second
    (solo_finished eligible inbox₂) (solo_finished eligible' _)
  rw [same] at wrote'
  exact ⟨w, run, wrote, wrote'⟩

/-- Side effects are unique under every interleaving exactly if no two calls would deliver the same hash. -/
theorem atMostOnce_iff :
    AtMostOnce c calls inbox ↔
      ∀ i j hash, Eligible c inbox (calls i) hash → Eligible c inbox (calls j) hash → i = j := by
  constructor
  · intro once i j hash eligible eligible'
    by_contra different
    obtain ⟨w, run, wrote, wrote'⟩ := exists_overlap different eligible eligible'
    exact different (once w run i j _ _ wrote wrote' rfl)
  · intro apart w run i j first second wrote wrote' same
    have start : Grown inbox inbox ∧ ∀ i, Justified c inbox (calls i) .called :=
      ⟨⟨rfl, fun _ old => old⟩, fun _ => trivial⟩
    have kept := run.invariant (Grown inbox) (fun i => Justified c inbox (calls i))
      (fun i s l s' l' grown justified moved => justified_advance grown justified moved) start
    have eligible := kept.2 i
    have eligible' := kept.2 j
    rw [wrote] at eligible
    rw [wrote'] at eligible'
    exact apart i j first.hash eligible (same ▸ eligible')

end

/-- A router for `plainMessage`, and two handlers that get it at the same time. -/
def plainRouter : DeliveryConfig where
  localHash := some plainMessage.destinationHash
  recallSource := fun _ => .ok (some echoIdentity)
  parseFloat := fun _ => (clock 0, false)

def twoCopies : Bool → DeliveryCall := fun _ =>
  { lxmfData := packedByEcho plainMessage, now := 1000, order := .listed, visit := .listed }

/-- Both handlers find the hash missing, and both write the message. -/
theorem twoCopies_writtenTwice :
    (∃ hash w, Reaches (fun i => advance plainRouter (twoCopies i)) ⟨{}, fun _ => .called⟩ w ∧
      w.threads false = .finished (some ⟨hash, false⟩) ∧ w.threads true = .finished (some ⟨hash, false⟩)) ∧
    ¬ AtMostOnce plainRouter twoCopies {} := by
  have opens (i : Bool) : ((plainRouter.unpack (twoCopies i)).bind
      (plainRouter.screen {} (twoCopies i))).isSome = true := by
    show ((plainRouter.unpack (twoCopies true)).bind (plainRouter.screen {} (twoCopies true))).isSome = true
    decide +kernel
  obtain ⟨msg, taken⟩ := Option.isSome_iff_exists.mp (opens true)
  have eligible (i : Bool) : Eligible plainRouter {} (twoCopies i) msg.hash :=
    ⟨msg, taken, rfl, .inr (AList.notMem_empty _), rfl, rfl⟩
  obtain ⟨w, run, wrote, wrote'⟩ := exists_overlap (by decide : false ≠ true) (eligible false) (eligible true)
  refine ⟨⟨msg.hash, w, run, wrote, wrote'⟩, ?_⟩
  intro once
  cases once w run false true _ _ wrote wrote' rfl

end ReticulumProtocols.Lxmf
