import ReticulumProtocols.Concurrency.Roster
import ReticulumProtocols.Rrc.Packets

/-! A client of the hub and the traffic between the two. What a thread of the hub sends leaves it packet by packet
after the section has ended; the link of the client keeps the order of what it is handed. -/

namespace ReticulumProtocols.Rrc
open Wire Lxmf Index Cbor Concurrency

inductive ClientState where
  | connected | awaitingWelcome | active | disconnected
  deriving DecidableEq

inductive ClientError where
  | notWelcome | emptyRoom | notMember

structure Client where
  sender : Bytes
  state : ClientState := .connected
  rooms : GoMap Text Unit := ∅
  pending : GoMap Text Unit := ∅

/-- What a call of the client finds: the nickname of its session, a message id, the time, and whether the packet could
be sent. -/
structure Call where
  nick : Text := []
  id : UInt64 := 0
  timestamp : UInt64 := 0
  sends : Bool := true

namespace Client
variable (u : Unicode) (client : Client) (call : Call)

def sendType (type : EnvelopeType) (room : Text) (body : Option Value) : Envelope where
  type := type
  msgID := be messageIDLength call.id.toNat
  timestamp := call.timestamp
  sender := client.sender
  room := if room = [] then none else some room
  body := body
  nick := if call.nick = [] then none else some call.nick

def requireActive : Except ClientError Unit := if client.state = .active then .ok () else .error .notWelcome

def joinKeyed (room key : Text) : Except ClientError Envelope := do
  client.requireActive
  let room := u.normalizeRoom room
  if room = [] then throw .emptyRoom
  return client.sendType call .join room (if u.trimSpace key = [] then none else some (.text key))

/-- `Part`; the room is noted before the packet is sent. -/
def part (room : Text) : Except ClientError (Client × Envelope) := do
  client.requireActive
  let room := u.normalizeRoom room
  return ({ client with pending := client.pending.insert room () }, client.sendType call .part room none)

def sendRoomContent (type : EnvelopeType) (room text : Text) : Except ClientError Envelope := do
  client.requireActive
  let room := u.normalizeRoom room
  if room ∉ client.rooms then throw .notMember
  return client.sendType call type room (some (.text text))

/-- `dispatch`, as far as it changes what the client believes. -/
def dispatch (env : Envelope) : Client :=
  let room := u.normalizeRoom (env.room.getD [])
  match env.type with
  | .joined => { client with rooms := client.rooms.insert room () }
  | .parted =>
    if room ∈ client.pending then
      { client with pending := client.pending.erase room, rooms := client.rooms.erase room }
    else client
  | _ => client

end Client

/-- A packet of the hub. Nothing reads `own`, which remembers that it answers a PART of the client itself. -/
structure Packet where
  env : Envelope
  own : Bool

/-- A packet that a thread of the hub has still to hand over to a link. -/
structure Waiting where
  thread : Nat
  link : Nat
  packet : Packet

/-- The hub and one client, with what is under way between them. -/
structure Chat where
  machine : HubMachine
  client : Client
  waiting : List Waiting := []
  up : List Envelope := []
  down : List Packet := []

inductive ChatEvent where
  | hub (event : HubEvent)
  | deliverUp
  | handOver (j : Nat)
  | deliverDown
  | join (room key : Text) (call : Call)
  | part (room : Text) (call : Call)
  | sendRoomContent (type : EnvelopeType) (room text : Text) (call : Call)

def Task.parts : Task → Bool
  | .onPart _ => true
  | _ => false

namespace Chat
variable (c : HubConfig) (p : Nat) (s : Chat)

/-- The packets of the client's link come from the client, and a thread goes on once all it sent is handed over. -/
def Free : HubEvent → Prop
  | .packet link _ => link ≠ p
  | .step i _ => ∀ w ∈ s.waiting, w.thread ≠ i
  | _ => True

instance : (event : HubEvent) → Decidable (s.Free p event)
  | .packet link _ => inferInstanceAs (Decidable (link ≠ p))
  | .step _ _ => inferInstanceAs (Decidable (∀ w ∈ s.waiting, _))
  | .accept _ | .identified .. | .close _ | .removeFromRoom .. => isTrue trivial

/-- What an event of the hub leaves to be handed over. -/
def outbox (sent : List Outgoing) : HubEvent → List Waiting
  | .step i _ =>
    let own := (s.machine.next i).any fun (thread, task) => thread.link = p ∧ task.parts = true
    sent.map fun out => { thread := i, link := out.link, packet := { env := out.env, own } }
  | _ => []

def hubStep (event : HubEvent) : Option Chat :=
  (s.machine.stepSending c event).map fun (machine, sent) =>
    { s with machine, waiting := s.waiting ++ s.outbox p sent event }

/-- The link takes a packet for the client. -/
def Takes (w : Waiting) : Prop :=
  w.link = p ∧ (s.machine.hub.records p).closed = false ∧ w.packet.env.size ≤ linkCapacity

instance (w : Waiting) : Decidable (s.Takes p w) := inferInstanceAs (Decidable (_ ∧ _ ∧ _))

def handOver (j : Nat) (w : Waiting) : Chat :=
  { s with
    waiting := s.waiting.eraseIdx j
    down := s.down ++ if s.Takes p w then [w.packet] else [] }

def request (call : Call) (env : Envelope) : Chat := { s with up := s.up ++ if call.sends then [env] else [] }

def step : ChatEvent → Option Chat
  | .hub event => if s.Free p event then s.hubStep c p event else none
  | .deliverUp =>
    match s.up with
    | [] => none
    | env :: up => { s with up }.hubStep c p (.packet p env)
  | .handOver j =>
    match s.waiting[j]? with
    | none => none
    | some w => if ∀ before ∈ s.waiting.take j, before.thread ≠ w.thread then some (s.handOver p j w) else none
  | .deliverDown =>
    match s.down with
    | [] => none
    | packet :: down => some { s with down, client := s.client.dispatch c.unicode packet.env }
  | .join room key call =>
    match s.client.joinKeyed c.unicode call room key with
    | .error _ => some s
    | .ok env => some (s.request call env)
  | .part room call =>
    match s.client.part c.unicode call room with
    | .error _ => some s
    | .ok (client, env) => some ({ s with client }.request call env)
  | .sendRoomContent type room text call =>
    match s.client.sendRoomContent c.unicode call type room text with
    | .error _ => some s
    | .ok env => some (s.request call env)

abbrev run (events : List ChatEvent) : Option Chat := runEvents (step c p) s events

/-- Everything sent was processed and no callback of the hub is running. -/
def Quiet : Prop := s.up = [] ∧ s.down = [] ∧ s.waiting = [] ∧ ∀ thread ∈ s.machine.threads, thread.tasks = []

instance : Decidable s.Quiet :=
  decidable_of_iff (s.up.isEmpty ∧ s.down.isEmpty ∧ s.waiting.isEmpty ∧
    ∀ thread ∈ s.machine.threads, thread.tasks.isEmpty) (by simp [Quiet])

end Chat

end ReticulumProtocols.Rrc
