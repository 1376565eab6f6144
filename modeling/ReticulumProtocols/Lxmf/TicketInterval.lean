import ReticulumProtocols.Lxmf.Outbound
import ReticulumProtocols.Lxmf.Tickets

/-! How often a destination is sent a ticket. `generateTicket` holds a new one back for a while after the last
delivery, but no delivery is ever recorded. -/

namespace ReticulumProtocols.Lxmf
open Wire Msgpack List

/-- What a messenger sends with: the known destinations, its identity, the stamp generator and the way out. -/
structure Outlet where
  recalls : Bytes → Bool
  signer : Option Identity
  generate : StampGenerator
  transmit : Bytes → Bytes → Bool

/-- One call of `Send` and all it meets: clocks, random bytes, an announced stamp cost, and map orders. -/
structure SendCall where
  msg : LXMessage
  now : Int
  random : Ticket
  visit : Visit := .listed
  announced : Option Int := none
  packedAt : UInt64 := 1
  repackedAt : UInt64 := 1
  one : MapOrder × MapOrder := (.listed, .listed)
  two : MapOrder × MapOrder := (.listed, .listed)

inductive SendFailure where
  | invalidHashLength
  | destinationUnknown
  | noIdentity
  | packing (error : SendError)
  | transmission
  deriving DecidableEq

structure Sent where
  sending : SendCall
  msg : LXMessage
  outcome : Except SendFailure Unit

namespace Outlet

def send (o : Outlet) (b : TicketBook) (s : SendCall) : TicketBook × Sent :=
  if s.msg.destinationHash.length ≠ destinationLength then (b, ⟨s, s.msg, .error .invalidHashLength⟩)
  else if !o.recalls s.msg.destinationHash then (b, ⟨s, s.msg, .error .destinationUnknown⟩)
  else if o.signer.isNone then (b, ⟨s, s.msg, .error .noIdentity⟩)
  else
    let prepared := prepareOutbound b s.announced s.msg s.now s.visit (some s.random)
    match packStamped o.generate o.signer prepared.2 s.packedAt s.repackedAt s.one s.two with
    | (msg, .error error) => (prepared.1, ⟨s, msg, .error (.packing error)⟩)
    | (msg, .ok ()) =>
      if o.transmit msg.destinationHash (msg.packed.drop destinationLength) then (prepared.1, ⟨s, msg, .ok ()⟩)
      else (prepared.1, ⟨s, msg, .error .transmission⟩)

/-- Call after call. -/
def sendAll (o : Outlet) : TicketBook → List SendCall → List Sent
  | _, [] => []
  | b, s :: later => (o.send b s).2 :: o.sendAll (o.send b s).1 later

end Outlet

def LXMessage.CarriesTicket (m : LXMessage) : Prop := fieldTicket ∈ m.fields.getD ∅

instance (m : LXMessage) : Decidable m.CarriesTicket := inferInstanceAs (Decidable (_ ∈ _))

/-- The last recorded delivery is not too recent. -/
def TicketBook.Due (b : TicketBook) (destHash : Bytes) (now : Int) : Prop :=
  ¬∃ last ∈ b.lastDeliveries.lookup destHash, clock now - last < Float64.ofInt ticketIntervalSecs

instance (b : TicketBook) (destHash : Bytes) (now : Int) : Decidable (b.Due destHash now) :=
  inferInstanceAs (Decidable ¬_)

/-- A ticket goes along with a call: the message has one already, or a delivery is due. -/
def SendCall.Ticketed (b : TicketBook) (s : SendCall) : Prop :=
  s.msg.CarriesTicket ∨ b.Due s.msg.destinationHash s.now

/-- Messages with a ticket are an interval apart. -/
def TicketsApart (log : List Sent) : Prop :=
  log.Pairwise fun earlier later => earlier.msg.CarriesTicket → later.msg.CarriesTicket →
    ticketIntervalSecs ≤ later.sending.now - earlier.sending.now

instance (log : List Sent) : Decidable (TicketsApart log) := inferInstanceAs (Decidable (List.Pairwise _ log))

theorem generateTicket_lastDeliveries (b : TicketBook) (destHash : Bytes) (expiry : Float) (now : Int) (visit : Visit)
    (random : Option Ticket) :
    (b.generateTicket destHash expiry now visit random).1.lastDeliveries = b.lastDeliveries := by
  unfold TicketBook.generateTicket
  split
  · rfl
  · split
    · rfl
    · split <;> rfl

/-- With random bytes at hand a ticket is found or made whenever one is due. -/
theorem generateTicket_isSome (b : TicketBook) (destHash : Bytes) (expiry : Float) (now : Int) (visit : Visit)
    (random : Ticket) :
    (b.generateTicket destHash expiry now visit (some random)).2.isSome ↔ b.Due destHash now := by
  unfold TicketBook.generateTicket TicketBook.Due
  by_cases recent : ∃ last ∈ b.lastDeliveries.lookup destHash, clock now - last < Float64.ofInt ticketIntervalSecs
  · rw [if_pos recent]
    exact iff_of_false Bool.false_ne_true (not_not.2 recent)
  · rw [if_neg recent]
    refine iff_of_true ?_ recent
    split <;> rfl

section
variable (b : TicketBook) (announced : Option Int) (m : LXMessage) (now : Int) (visit : Visit)

/-- The message with its stamp cost and the ticket to redeem, before one is issued. -/
def readied : LXMessage :=
  let m := if m.stampCost = none then { m with stampCost := announced.filter fun cost => cost > 0 } else m
  if m.outboundTicket = [] then
    { m with outboundTicket := ((b.outboundTicket m.destinationHash now).map Subtype.val).getD [] }
  else m

theorem readied_eq : (readied b announced m now).fields = m.fields ∧
    (readied b announced m now).includeTicket = m.includeTicket ∧
      (readied b announced m now).destinationHash = m.destinationHash := by
  unfold readied
  dsimp only
  by_cases cost : m.stampCost = none <;> by_cases redeemed : m.outboundTicket = [] <;>
    simp only [cost, redeemed, if_true, if_false, and_self]

theorem prepareOutbound_eq (random : Option Ticket) : prepareOutbound b announced m now visit random =
    if m.includeTicket then
      match b.generateTicket m.destinationHash (Float64.ofInt ticketExpirySecs) now visit random with
      | (book, some issued) => (book, (readied b announced m now).setField fieldTicket (ticketValue issued))
      | (book, none) => (book, readied b announced m now)
    else (b, readied b announced m now) := by
  obtain ⟨_, included, destination⟩ := readied_eq b announced m now
  rw [← included, ← destination]
  rfl

theorem prepareOutbound_lastDeliveries (random : Option Ticket) :
    (prepareOutbound b announced m now visit random).1.lastDeliveries = b.lastDeliveries := by
  have made := generateTicket_lastDeliveries b m.destinationHash (Float64.ofInt ticketExpirySecs) now visit random
  rw [prepareOutbound_eq]
  split
  · split
    next generated => rw [generated] at made; exact made
    next generated => rw [generated] at made; exact made
  · rfl

theorem prepareOutbound_carriesTicket (included : m.includeTicket = true) (random : Ticket) :
    (prepareOutbound b announced m now visit (some random)).2.CarriesTicket ↔
      m.CarriesTicket ∨ b.Due m.destinationHash now := by
  have fields := (readied_eq b announced m now).1
  rw [← generateTicket_isSome b m.destinationHash (Float64.ofInt ticketExpirySecs) now visit random,
    prepareOutbound_eq, if_pos included]
  split
  next generated =>
    rw [generated]
    exact iff_of_true ((AList.mem_insert _).2 (.inl rfl)) (.inr rfl)
  next generated =>
    rw [generated, LXMessage.CarriesTicket, fields]
    exact (or_iff_left Bool.false_ne_true).symm

end

theorem pack_fields (m : LXMessage) (signer : Option Identity) (now : UInt64) (first second : MapOrder) :
    (m.pack signer now first second).1.fields = m.fields := by
  unfold LXMessage.pack
  split
  · rfl
  · split
    · rfl
    · split
      · rfl
      · dsimp only
        split
        · exact m.stampTime_fields now
        · split <;> exact m.stampTime_fields now

theorem stampOutbound_fields (generate : StampGenerator) (m : LXMessage) :
    (stampOutbound generate m).1.fields = m.fields := by
  unfold stampOutbound
  repeat' split
  all_goals rfl

theorem packStamped_fields (generate : StampGenerator) (signer : Option Identity) (m : LXMessage) (now later : UInt64)
    (one two : MapOrder × MapOrder) : (packStamped generate signer m now later one two).1.fields = m.fields := by
  have packed := pack_fields m signer now one.1 one.2
  unfold packStamped
  split
  next first => exact (congrArg (·.1.fields) first).symm.trans packed
  next t _ first =>
    have once : t.fields = m.fields := (congrArg (·.1.fields) first).symm.trans packed
    have stamped := stampOutbound_fields generate t
    split
    next stamping => exact ((congrArg (·.1.fields) stamping).symm.trans stamped).trans once
    next stamping => exact ((congrArg (·.1.fields) stamping).symm.trans stamped).trans once
    next u stamping =>
      have both : u.fields = m.fields := ((congrArg (·.1.fields) stamping).symm.trans stamped).trans once
      have repacked := pack_fields u signer later two.1 two.2
      split
      next second => exact ((congrArg (·.1.fields) second).symm.trans repacked).trans both
      next second => exact ((congrArg (·.1.fields) second).symm.trans repacked).trans both

namespace Outlet
variable (o : Outlet)

theorem send_lastDeliveries (b : TicketBook) (s : SendCall) : (o.send b s).1.lastDeliveries = b.lastDeliveries := by
  have prepared := prepareOutbound_lastDeliveries b s.announced s.msg s.now s.visit (some s.random)
  unfold send
  dsimp only
  repeat' split
  all_goals first | rfl | exact prepared

theorem send_sending (b : TicketBook) (s : SendCall) : (o.send b s).2.sending = s := by
  unfold send
  dsimp only
  repeat' split
  all_goals rfl

/-- A message that was sent carries a ticket exactly if it had one or one was due. -/
theorem send_carriesTicket {b : TicketBook} {s : SendCall} (included : s.msg.includeTicket = true)
    (sent : (o.send b s).2.outcome = .ok ()) : (o.send b s).2.msg.CarriesTicket ↔ s.Ticketed b := by
  have prepared := prepareOutbound_carriesTicket b s.announced s.msg s.now s.visit included s.random
  have fields := packStamped_fields o.generate o.signer
    (prepareOutbound b s.announced s.msg s.now s.visit (some s.random)).2 s.packedAt s.repackedAt s.one s.two
  have carried (msg : LXMessage)
      (packed : (packStamped o.generate o.signer (prepareOutbound b s.announced s.msg s.now s.visit (some s.random)).2
        s.packedAt s.repackedAt s.one s.two).1 = msg) : msg.CarriesTicket ↔ s.Ticketed b := by
    rw [LXMessage.CarriesTicket, ← packed, fields]
    exact prepared
  unfold send at sent ⊢
  dsimp only at sent ⊢
  split at sent
  · cases sent
  next length =>
    rw [if_neg length]
    split at sent
    · cases sent
    next known =>
      rw [if_neg known]
      split at sent
      · cases sent
      next signer =>
        rw [if_neg signer]
        split at sent
        · cases sent
        next msg packed =>
          split
          · exact carried msg (congrArg Prod.fst packed)
          · exact carried msg (congrArg Prod.fst packed)

theorem sendings_sendAll (b : TicketBook) (sendings : List SendCall) :
    (o.sendAll b sendings).map Sent.sending = sendings := by
  induction sendings generalizing b with
  | nil => rfl
  | cons s later ih => rw [sendAll, map_cons, send_sending, ih]

/-- Which messages of a run carry a ticket is settled by the book at its start. -/
theorem sendAll_carriesTicket {b start : TicketBook} (same : b.lastDeliveries = start.lastDeliveries)
    {sendings : List SendCall} (included : ∀ s ∈ sendings, s.msg.includeTicket = true)
    (succeeded : ∀ sent ∈ o.sendAll b sendings, sent.outcome = .ok ()) :
    ∀ sent ∈ o.sendAll b sendings, sent.msg.CarriesTicket ↔ sent.sending.Ticketed start := by
  induction sendings generalizing b with
  | nil => exact fun sent member => nomatch member
  | cons s later ih =>
    intro sent member
    rcases List.mem_cons.1 member with rfl | member
    · rw [send_carriesTicket o (included s mem_cons_self) (succeeded _ mem_cons_self), send_sending,
        SendCall.Ticketed, TicketBook.Due, same]
      rfl
    · apply ih ((send_lastDeliveries o b s).trans same)
      · exact fun other inside => included other (mem_cons_of_mem s inside)
      · exact fun other inside => succeeded other (mem_cons_of_mem _ inside)
      · exact member

end Outlet

/-- In a run of successful sends, the tickets are an interval apart exactly if the calls are with which a ticket
goes along by the book at the start. -/
theorem ticketsApart_iff (o : Outlet) (b : TicketBook) (destHash : Bytes) (sendings : List SendCall)
    (destination : ∀ s ∈ sendings, s.msg.destinationHash = destHash)
    (included : ∀ s ∈ sendings, s.msg.includeTicket = true)
    (succeeded : ∀ sent ∈ o.sendAll b sendings, sent.outcome = .ok ()) :
    TicketsApart (o.sendAll b sendings) ↔ sendings.Pairwise fun earlier later =>
      earlier.msg.CarriesTicket ∨ b.Due destHash earlier.now → later.msg.CarriesTicket ∨ b.Due destHash later.now →
        ticketIntervalSecs ≤ later.now - earlier.now := by
  have carries := o.sendAll_carriesTicket rfl included succeeded
  have listed := o.sendings_sendAll b sendings
  have ticketed (sent) (member : sent ∈ o.sendAll b sendings) : sent.msg.CarriesTicket ↔
      sent.sending.msg.CarriesTicket ∨ b.Due destHash sent.sending.now := by
    have called : sent.sending ∈ sendings := listed ▸ mem_map_of_mem member
    rw [carries sent member, SendCall.Ticketed, destination _ called]
  calc TicketsApart (o.sendAll b sendings)
      ↔ (o.sendAll b sendings).Pairwise fun earlier later =>
          earlier.sending.msg.CarriesTicket ∨ b.Due destHash earlier.sending.now →
            later.sending.msg.CarriesTicket ∨ b.Due destHash later.sending.now →
              ticketIntervalSecs ≤ later.sending.now - earlier.sending.now := by
        apply List.Pairwise.iff_of_mem
        intro earlier later first second
        rw [ticketed earlier first, ticketed later second]
    _ ↔ ((o.sendAll b sendings).map Sent.sending).Pairwise fun earlier later =>
          earlier.msg.CarriesTicket ∨ b.Due destHash earlier.now →
            later.msg.CarriesTicket ∨ b.Due destHash later.now → ticketIntervalSecs ≤ later.now - earlier.now := by
        rw [pairwise_map]
    _ ↔ _ := by rw [listed]

/-- An outlet that reaches everyone. -/
def openOutlet : Outlet := ⟨fun _ => true, some echoIdentity, fun _ _ => none, fun _ _ => true⟩

/-- Two requests for a ticket, some seconds apart. -/
def ticketCalls (apart : Int) : List SendCall :=
  [{ msg := ticketRequest, now := 1000, random := fours }, { msg := ticketRequest, now := 1000 + apart, random := fours }]

theorem ticketsApart_day : TicketsApart (openOutlet.sendAll {} (ticketCalls ticketIntervalSecs)) := by
  apply (ticketsApart_iff openOutlet {} ticketRequest.destinationHash _ ?_ ?_ ?_).2
  · decide +kernel
  · decide +kernel
  · decide +kernel
  · decide +kernel

/-- Two messages a second apart, with a ticket each. -/
theorem ticketsApart_fails :
    (∀ s ∈ ticketCalls 1, s.msg.destinationHash = ticketRequest.destinationHash ∧ s.msg.includeTicket = true) ∧
      (∀ sent ∈ openOutlet.sendAll {} (ticketCalls 1), sent.outcome = .ok ()) ∧
        ¬TicketsApart (openOutlet.sendAll {} (ticketCalls 1)) := by
  decide +kernel

end ReticulumProtocols.Lxmf
