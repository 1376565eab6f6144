import ReticulumProtocols.Lxmf.FieldsRoundTrip
import ReticulumProtocols.Lxmf.Stamp

/-! Stamp tickets. The issuer sends `[expires, ticket]` in a field, the receiver is to keep it for
its replies. In the field the ticket is an array element, which is decoded loosely: what arrives is
a string, and `rememberTicketField` asks for a byte slice. -/

namespace ReticulumProtocols.Lxmf
open Wire Msgpack Sha256 List AList

def ticketExpirySecs : Int := 21 * 24 * 60 * 60
def ticketRenewSecs : Int := 14 * 24 * 60 * 60
def ticketIntervalSecs : Int := 1 * 24 * 60 * 60

def fieldTicket : UInt8 := 0x0C

/-- `float64(time.Now().Unix())`. -/
def clock (now : Int) : Float := Float64.ofInt now

/-- Tickets of another length never enter a book. -/
abbrev Ticket := { data : Bytes // data.length = ticketLength }

/-- `ticketBook`; its maps are keyed by the hex text of a hash or ticket, here by the bytes. -/
structure TicketBook where
  outbound : GoMap Bytes (Float × Ticket) := ∅
  inbound : GoMap Bytes (GoMap Ticket Float) := ∅
  lastDeliveries : GoMap Bytes Float := ∅

/-- The order in which one `range` over a map visits its entries. -/
structure Visit where
  run : {α : Type} → List α → List α
  perm : ∀ {α : Type} (entries : List α), (run entries).Perm entries

def Visit.listed : Visit := ⟨id, fun entries => List.Perm.refl entries⟩

/-- `asInt64` of an integer: the unsigned ones beyond the int64 range are refused. -/
def asInt64 (n : GoInt) : Option Int := if n.val < 2 ^ 63 then some n.val else none

/-- `numericField`; `parseFloat` is `strconv.ParseFloat` of the trimmed text. -/
def numericField (parseFloat : Bytes → Float × Bool) : Value → Float × Bool
  | .scalar (.float64 bits) => (Float.ofBits bits, true)
  | .scalar (.float32 bits) => (Float.ofBits (Float64.widen bits), true)
  | .scalar (.int n) =>
    match asInt64 n with
    | some value => (Float64.ofInt value, true)
    | none => (Float64.ofInt 0, false)
  | .scalar (.str text) => parseFloat text
  | .bytes text => parseFloat text
  | _ => (Float64.ofInt 0, false)

namespace TicketBook

/-- `b.inbound[peer]`. -/
def issuedTo (b : TicketBook) (peer : Bytes) : GoMap Ticket Float := (b.inbound.lookup peer).getD ∅

/-- `generateTicket`; `random` is what the random source yields, if it does. -/
def generateTicket (b : TicketBook) (destHash : Bytes) (expiry : Float) (now : Int) (visit : Visit)
    (random : Option Ticket) : TicketBook × Option (Float × Ticket) :=
  if ∃ last ∈ b.lastDeliveries.lookup destHash, clock now - last < Float64.ofInt ticketIntervalSecs then (b, none)
  else
    match (visit.run (b.issuedTo destHash).entries).find? fun entry =>
        entry.2 - clock now > Float64.ofInt ticketRenewSecs with
    | some entry => (b, some (entry.2, entry.1))
    | none =>
      match random with
      | none => ({ b with inbound := b.inbound.insert destHash (b.issuedTo destHash) }, none)
      | some ticket =>
        ({ b with inbound :=
            b.inbound.insert destHash ((b.issuedTo destHash).insert ticket (clock now + expiry)) },
          some (clock now + expiry, ticket))

def rememberTicket (b : TicketBook) (destHash : Bytes) (expires : Float) (ticket : Bytes) : TicketBook :=
  if length : ticket.length = ticketLength then
    { b with outbound := b.outbound.insert destHash (expires, ⟨ticket, length⟩) }
  else b

def outboundTicket (b : TicketBook) (destHash : Bytes) (now : Int) : Option Ticket :=
  match b.outbound.lookup destHash with
  | some (expires, ticket) => if expires > clock now then some ticket else none
  | none => none

def inboundTickets (b : TicketBook) (destHash : Bytes) (now : Int) (visit : Visit) : List Bytes :=
  ((visit.run (b.issuedTo destHash).entries).filter fun entry => clock now < entry.2).map fun entry => entry.1.val

end TicketBook

/-- The type assertion to a byte slice, which yields a nil slice for anything else. -/
def assertBytes : Value → Bytes
  | .bytes data => data
  | _ => []

def byteItems (items : List Value) : List Bytes :=
  items.filterMap fun item =>
    match item with
    | .bytes data => some data
    | _ => none

@[simp] theorem byteItems_map (slices : List Bytes) : byteItems (slices.map .bytes) = slices := by
  rw [byteItems, filterMap_map]
  exact filterMap_some

def rememberTicketField (parseFloat : Bytes → Float × Bool) (b : TicketBook) (msg : LXMessage) (now : Int) :
    TicketBook :=
  if msg.signatureValidated = false then b
  else
    match msg.fields.bind fun fields => fields.lookup fieldTicket with
    | some (.arr (first :: second :: _)) =>
      if (numericField parseFloat first).1 ≤ clock now ∨ (assertBytes second).length ≠ ticketLength then b
      else b.rememberTicket msg.sourceHash (numericField parseFloat first).1 (assertBytes second)
    | _ => b

def ticketValue (issued : Float × Ticket) : Value := .arr [.float64 issued.1.toBits, .bytes issued.2.val]

/-- `prepareOutbound`; `announced` is the stamp cost the destination announced. -/
def prepareOutbound (b : TicketBook) (announced : Option Int) (msg : LXMessage) (now : Int) (visit : Visit)
    (random : Option Ticket) : TicketBook × LXMessage :=
  let msg := if msg.stampCost = none then { msg with stampCost := announced.filter fun cost => cost > 0 } else msg
  let msg :=
    if msg.outboundTicket = [] then
      { msg with outboundTicket := ((b.outboundTicket msg.destinationHash now).map Subtype.val).getD [] }
    else msg
  if msg.includeTicket then
    match b.generateTicket msg.destinationHash (Float64.ofInt ticketExpirySecs) now visit random with
    | (b, some issued) => (b, msg.setField fieldTicket (ticketValue issued))
    | (b, none) => (b, msg)
  else (b, msg)

/-- What `generateTicket` hands out is in the book it leaves behind. -/
theorem generateTicket_issued {b b' : TicketBook} {destHash : Bytes} {expiry expires : Float} {now : Int}
    {visit : Visit} {random : Option Ticket} {ticket : Ticket}
    (generated : b.generateTicket destHash expiry now visit random = (b', some (expires, ticket))) :
    (b'.issuedTo destHash).lookup ticket = some expires := by
  unfold TicketBook.generateTicket at generated
  split at generated
  · cases generated
  · split at generated
    · next entry found =>
        cases generated
        exact mem_lookup_iff.mpr ((visit.perm _).mem_iff.mp (List.mem_of_find?_eq_some found))
    · split at generated
      · cases generated
      · cases generated
        rw [TicketBook.issuedTo, lookup_insert, Option.getD_some, lookup_insert]

theorem inboundTickets_mem {b : TicketBook} {peer : Bytes} {expires : Float} {ticket : Ticket}
    (issued : (b.issuedTo peer).lookup ticket = some expires) {now : Int} (early : clock now < expires)
    (visit : Visit) : ticket.val ∈ b.inboundTickets peer now visit := by
  have member := mem_lookup_iff.mp (Option.mem_def.mpr issued)
  refine mem_map.mpr ⟨⟨ticket, expires⟩, ?_, rfl⟩
  exact mem_filter.mpr ⟨(visit.perm _).mem_iff.mpr member, decide_eq_true early⟩

theorem rememberTicketField_inbound (parseFloat : Bytes → Float × Bool) (b : TicketBook) (msg : LXMessage)
    (now : Int) : (rememberTicketField parseFloat b msg now).inbound = b.inbound := by
  unfold rememberTicketField TicketBook.rememberTicket
  repeat' split
  all_goals rfl

/-- A ticket that arrives as a string is not remembered. -/
theorem rememberTicketField_text (parseFloat : Bytes → Float × Bool) (b : TicketBook) {msg : LXMessage} (now : Int)
    {first : Value} {text : Bytes}
    (field : (msg.fields.bind fun fields => fields.lookup fieldTicket) = some (.arr [first, .str text])) :
    rememberTicketField parseFloat b msg now = b := by
  unfold rememberTicketField
  rw [field]
  simp [assertBytes]

/-- The ticket is an array element, so its bytes arrive as a string. -/
theorem travels_ticketValue {issued : Float × Ticket} {result : Value}
    (travels : Travels false (ticketValue issued) result) :
    result = .arr [.float64 issued.1.toBits, .str issued.2.val] := by
  obtain ⟨shipped, decoded, visited, visited', normal⟩ := travels
  obtain ⟨others, rfl, each⟩ := reorder_arr_iff.mp visited
  -- neither the expiry nor the ticket leaves a map order any choice
  have sent : others = [.float64 issued.1.toBits, .bytes issued.2.val] := by
    obtain ⟨_, _, first, rest, rfl⟩ := forall₂_cons_left_iff.mp each
    obtain ⟨_, _, second, last, rfl⟩ := forall₂_cons_left_iff.mp rest
    rw [reorder_scalar_iff.mp first, reorder_bytes_iff.mp second, forall₂_nil_left_iff.mp last]
  rw [sent, view, viewItems_eq_map] at visited'
  obtain ⟨arrived, rfl, each'⟩ := reorder_arr_iff.mp visited'
  obtain ⟨_, _, first, rest, rfl⟩ := forall₂_cons_left_iff.mp each'
  obtain ⟨_, _, second, last, rfl⟩ := forall₂_cons_left_iff.mp rest
  have read : _ = Value.str issued.2.val := reorder_scalar_iff.mp second
  rw [reorder_scalar_iff.mp first, read, forall₂_nil_left_iff.mp last] at normal
  exact (Except.ok.inj normal).symm

section
variable {issuer issuer' : TicketBook} {announced : Option Int} {m : LXMessage} {now : Int} {visit : Visit}
variable {random : Option Ticket} {expires : Float} {ticket : Ticket}
variable (generated : issuer.generateTicket m.destinationHash (Float64.ofInt ticketExpirySecs) now visit random =
  (issuer', some (expires, ticket)))
variable (included : m.includeTicket = true)

include generated included

theorem prepareOutbound_issued :
    (prepareOutbound issuer announced m now visit random).1 = issuer' ∧
      (prepareOutbound issuer announced m now visit random).2.fields =
        some ((m.fields.getD ∅).insert fieldTicket (ticketValue (expires, ticket))) ∧
      (prepareOutbound issuer announced m now visit random).2.destinationHash = m.destinationHash ∧
      (prepareOutbound issuer announced m now visit random).2.sourceHash = m.sourceHash := by
  unfold prepareOutbound
  by_cases cost : m.stampCost = none <;> by_cases redeemed : m.outboundTicket = [] <;>
    simp only [cost, redeemed, included, generated, if_true, if_false, LXMessage.setField, and_self]

end

/-- The exchange has worked: from its arrival to its expiry the replier redeems the ticket, and as long
the issuer honours it. -/
def TicketExchanged (parseFloat : Bytes → Float × Bool) (issuer replier : TicketBook) (received : LXMessage)
    (arrived : Int) (expires : Float) (ticket : Ticket) : Prop :=
  (∀ now, arrived ≤ now → clock now < expires →
    (rememberTicketField parseFloat replier received arrived).outboundTicket received.sourceHash now = some ticket) ∧
  ∀ (reply : LXMessage) (cost now : Int) (visit : Visit), reply.hash ≠ [] →
    reply.stamp = truncatedHash ticket.val reply.hash → clock now < expires →
    (reply.validateStamp cost (issuer.inboundTickets received.destinationHash now visit)).2 = .ok true

/-- The issuer's half always works. -/
theorem reply_accepted {issuer : TicketBook} {replier : Bytes} {expires : Float} {ticket : Ticket}
    (issued : (issuer.issuedTo replier).lookup ticket = some expires) {reply : LXMessage} (cost : Int) {now : Int}
    (visit : Visit) (hashed : reply.hash ≠ []) (stamped : reply.stamp = truncatedHash ticket.val reply.hash)
    (early : clock now < expires) :
    (reply.validateStamp cost (issuer.inboundTickets replier now visit)).2 = .ok true := by
  have some' : reply.stamp ≠ [] := by
    rw [stamped]
    intro none
    simpa [none] using truncatedHash_length ticket.val reply.hash
  exact validateStamp_ticket reply cost _ (inboundTickets_mem issued early visit) ticket.2 hashed some' stamped.symm

/-- The fields and hashes of whatever `Unpack` makes of a packed message. -/
theorem unpacked_lookup {m sent received : LXMessage} {id : Identity} {now : UInt64} {first second order : MapOrder}
    {packed : Bytes} {resolver : Option SourceResolver} {error : Option UnpackError}
    (packing : m.pack (some id) now first second = (sent, .ok packed)) (sized : m.Sized)
    (unpacked : unpack packed resolver order = (some received, error)) {fields : Fields} (own : m.fields = some fields)
    {key : UInt8} {value : Value} (found : fields.lookup key = some value) :
    received.sourceHash = m.sourceHash ∧ received.destinationHash = m.destinationHash ∧
      ∃ result, (received.fields.bind fun fields => fields.lookup key) = some result ∧ Travels false value result := by
  obtain ⟨addressed, hashed, shipped, signature, visited, length, rfl⟩ := pack_returned packing
  rw [unpack_packedAs addressed length] at unpacked
  obtain ⟨fits, out, converted, verified⟩ := decodable_of_unpacked addressed length (sized.stampTime now)
    (by rwa [m.stampTime_fields]) unpacked
  rw [own] at visited
  obtain ⟨result, found', travels⟩ := travels_lookup visited (order.reorders _) converted found
  have contents : received.sourceHash = m.sourceHash ∧ received.destinationHash = m.destinationHash ∧
      received.fields = some out := by
    rcases verifySource_cases verified with rfl | rfl | rfl <;>
      exact ⟨m.stampTime_sourceHash now, m.stampTime_destinationHash now, rfl⟩
  refine ⟨contents.1, contents.2.1, result, ?_, travels⟩
  rw [contents.2.2]
  exact found'

/-- A ticket that is sent in a message is redeemed by its receiver exactly when the receiver already
had it, from the same source and for as long: nothing is ever learnt from the field. -/
theorem ticketExchanged_iff {issuer issuer' replier : TicketBook} {announced : Option Int} {m sent received : LXMessage}
    {now : Int} {visit : Visit} {random : Option Ticket} {expires : Float} {ticket : Ticket} {id : Identity}
    {time : UInt64} {first second order : MapOrder} {packed : Bytes} {resolver : Option SourceResolver}
    {error : Option UnpackError} {arrived : Int} (parseFloat : Bytes → Float × Bool)
    (generated : issuer.generateTicket m.destinationHash (Float64.ofInt ticketExpirySecs) now visit random =
      (issuer', some (expires, ticket)))
    (included : m.includeTicket = true)
    (sized : (prepareOutbound issuer announced m now visit random).2.Sized)
    (packing : (prepareOutbound issuer announced m now visit random).2.pack (some id) time first second =
      (sent, .ok packed))
    (unpacked : unpack packed resolver order = (some received, error)) (early : clock arrived < expires) :
    TicketExchanged parseFloat (prepareOutbound issuer announced m now visit random).1 replier received arrived
        expires ticket ↔
      ∃ limit, replier.outbound.lookup m.sourceHash = some (limit, ticket) ∧
        ∀ now, arrived ≤ now → clock now < expires → clock now < limit := by
  obtain ⟨book, fields, destination, source⟩ :=
    prepareOutbound_issued generated included
  obtain ⟨source', destination', result, found, travels⟩ :=
    unpacked_lookup packing sized unpacked fields (lookup_insert _)
  rw [travels_ticketValue travels] at found
  have forgotten : rememberTicketField parseFloat replier received arrived = replier :=
    rememberTicketField_text parseFloat replier arrived found
  rw [TicketExchanged, forgotten, book, source', source, destination', destination]
  constructor
  · rintro ⟨redeems, _⟩
    have now' := redeems arrived (Int.le_refl _) early
    unfold TicketBook.outboundTicket at redeems now'
    cases held : replier.outbound.lookup m.sourceHash with
    | none => simp [held] at now'
    | some entry =>
      obtain ⟨limit, other⟩ := entry
      have same : other = ticket := by
        simp only [held] at now'
        split at now'
        · exact Option.some.inj now'
        · cases now'
      refine ⟨limit, by rw [same], ?_⟩
      intro now later valid
      have redeemed := redeems now later valid
      simp only [held] at redeemed
      by_contra expired
      rw [if_neg expired] at redeemed
      cases redeemed
  · rintro ⟨limit, held, covers⟩
    constructor
    · intro now later valid
      simp only [TicketBook.outboundTicket, held, gt_iff_lt, covers now later valid, if_true]
    · intro reply cost now visit hashed stamped valid
      exact reply_accepted (generateTicket_issued generated) cost visit hashed stamped valid

def fours : Ticket := ⟨replicate 16 4, rfl⟩

/-- A message without contents that is to carry a ticket. -/
def ticketRequest : LXMessage := { stampedPair with stamp := [], fields := none, includeTicket := true }

/-- When a ticket issued at second 1000 expires. -/
def ticketLimit : Float := clock 1000 + Float64.ofInt ticketExpirySecs

/-- The request as an empty book prepares it at second 1000. -/
def ticketPrepared : TicketBook × LXMessage := prepareOutbound {} none ticketRequest 1000 .listed (some fours)

/-- What arrives of it. -/
def ticketArrival : Option LXMessage × Option UnpackError :=
  unpack (ticketPrepared.2.pack (some echoIdentity) 1 .listed .listed).1.packed
    (some fun _ => .ok (some echoIdentity)) .listed

theorem ticketPrepared_sized : ticketPrepared.2.Sized := by
  refine ⟨nil_sized, nil_sized, ?_, by decide⟩
  refine .map ⟨by decide, ?_⟩ ?_
  · intro entry member
    rw [mem_singleton.mp member]
    exact trivial
  · intro entry member
    rw [mem_singleton.mp member]
    refine .arr (by decide : 2 < 2 ^ 32) ?_
    intro item inside
    simp only [mem_cons, not_mem_nil, or_false] at inside
    rcases inside with rfl | rfl
    · exact .scalar trivial
    · exact .bytes (by decide : 16 < 2 ^ 32)

theorem ticketPrepared_packs : ticketPrepared.2.pack (some echoIdentity) 1 .listed .listed =
    ((ticketPrepared.2.pack (some echoIdentity) 1 .listed .listed).1,
      .ok (ticketPrepared.2.pack (some echoIdentity) 1 .listed .listed).1.packed) := by
  have signer : SignsExactly echoIdentity ticketPrepared.2.signedParts :=
    echoIdentity_signsExactly rfl rfl (by decide +kernel)
  obtain ⟨_, _, _, _, _, _, _, _, packed⟩ := pack_form ⟨rfl, rfl⟩ rfl .listed .listed signer.signs
  rw [packed]

theorem ticketArrival_received :
    ∃ received, ticketArrival = (some received, none) ∧ received.signatureValidated = true ∧
      (rememberTicketField (fun _ => (clock 0, false)) {} received 1000).outboundTicket received.sourceHash 1000 =
        none := by
  have seen : ticketArrival.2 = none ∧ (ticketArrival.1.map fun received => (received.signatureValidated,
      (rememberTicketField (fun _ => (clock 0, false)) {} received 1000).outboundTicket received.sourceHash 1000)) =
        some (true, none) := by decide +kernel
  obtain ⟨received, arrived, same⟩ := Option.map_eq_some_iff.mp seen.2
  exact ⟨received, Prod.ext arrived seen.1, congrArg Prod.fst same, congrArg Prod.snd same⟩

/-- The message arrives with a valid signature, and the ticket in it is lost. -/
theorem ticket_forgotten :
    ∃ received, ticketArrival = (some received, none) ∧ received.signatureValidated = true ∧
      clock 1000 < ticketLimit ∧
      ¬ TicketExchanged (fun _ => (clock 0, false)) ticketPrepared.1 {} received 1000 ticketLimit fours := by
  obtain ⟨received, arrived, valid, lost⟩ := ticketArrival_received
  refine ⟨received, arrived, valid, by decide +kernel, ?_⟩
  rintro ⟨redeems, _⟩
  have redeemed := redeems 1000 (Int.le_refl _) (by decide +kernel)
  rw [lost] at redeemed
  cases redeemed

/-- A receiver who has the ticket from elsewhere redeems it. -/
theorem ticket_known :
    ∃ received, ticketArrival = (some received, none) ∧ received.signatureValidated = true ∧
      TicketExchanged (fun _ => (clock 0, false)) ticketPrepared.1
        { outbound := (∅ : GoMap Bytes (Float × Ticket)).insert ticketRequest.sourceHash (ticketLimit, fours) }
        received 1000 ticketLimit fours := by
  obtain ⟨received, arrived, valid, _⟩ := ticketArrival_received
  refine ⟨received, arrived, valid, ?_⟩
  apply (ticketExchanged_iff _ rfl rfl ticketPrepared_sized ticketPrepared_packs arrived (by decide +kernel)).mpr
  refine ⟨ticketLimit, rfl, ?_⟩
  intro now _ early
  exact early

end ReticulumProtocols.Lxmf
