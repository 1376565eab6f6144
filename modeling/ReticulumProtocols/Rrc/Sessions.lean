import ReticulumProtocols.Concurrency.EventRun
import ReticulumProtocols.Rrc.Hub

/-! The callbacks of the hub's links as threads. A callback is a list of tasks; each task runs from one lock to the
next and may put further tasks before the rest, so that the tasks of different callbacks interleave freely. -/

namespace ReticulumProtocols.Rrc
open Wire Lxmf Index Cbor Concurrency List

/-- An envelope handed to the session of a link. -/
structure Outgoing where
  link : Nat
  env : Envelope

/-- What a task learns from outside: the time, the message ids it draws, the identity the link knows, the error and
the interception of the policy, whether a packet could be sent, and the order of map iterations. -/
structure Answer where
  now : Int := 0
  fresh : Nat → UInt64 := fun _ => 0
  remote : Option Bytes := none
  error : Option String := none
  intercepts : Bool := false
  sends : Bool := true
  visit : Visit := Visit.listed

/-- `UnixMilli` of a time in nanoseconds, as an unsigned integer. -/
def unixMilli (now : Int) : UInt64 := UInt64.ofInt (now / 1000000)

section
variable (c : HubConfig) (a : Answer)

/-- `NewEnvelope` with the `i`-th message id. -/
def newEnvelope (i : Nat) (type : EnvelopeType) : Envelope :=
  { type, msgID := be messageIDLength (a.fresh i).toNat, timestamp := unixMilli a.now, sender := c.sender.1 }

/-- The envelope that `marshalType` encodes. -/
def typedEnvelope (i : Nat) (type : EnvelopeType) (room : Text) (body : Option Value) (nick : Text) : Envelope :=
  { newEnvelope c a i type with
    room := if room = [] then none else some room
    body := if isNil body then none else body
    nick := if nick = [] then none else some nick }

def replyError (link : Nat) (message : String) : Outgoing :=
  { link, env := typedEnvelope c a 0 .error [] (some (.text message.toList)) [] }

@[simp] theorem replyError_link (link : Nat) (message : String) : (replyError c a link message).link = link := rfl

end

inductive Task where
  /-- `GetRemoteIdentity`, and `register` with its hash. -/
  | remote
  | register (hash : Bytes)
  /-- `OnIdentified`. -/
  | identify (hash : Bytes)
  | takePending
  /-- The packet callback after its first `register`. -/
  | receive (env : Envelope)
  | handlePeer (env : Envelope)
  /-- `p.active.Load()` in `handlePeer`. -/
  | greet (env : Envelope)
  | applyInboundNick (nick : Text) (env : Envelope) (active : Bool)
  | setNick (oldNick nick : Text)
  | reindexNick (oldNick newNick : Text)
  /-- The rest of `handlePeer`. -/
  | serve (env : Envelope) (active : Bool)
  | onHello
  /-- `p.active.Store(false)` in `reHello`. -/
  | deactivate
  /-- The section of `onJoin`. -/
  | join (room : Text)
  | onPart (name : Text)
  | onRoomContent (env : Envelope)
  | onDirectNotice (env : Envelope)
  /-- `close` of the session of a link. -/
  | close (link : Nat)
  | dropPeerIf (link : Nat)

/-- The hub after a task, the tasks that come next and what was sent. -/
structure Turn where
  hub : Hub
  next : List Task := []
  sent : List Outgoing := []

namespace Hub
variable (c : HubConfig) (a : Answer) (h : Hub) (p : Nat)

/-- The member list in the bodies that tell others of a peer. -/
def presence (peer : HubPeer) : Option Value :=
  if c.includeMemberList then some (.arr [.bytes peer.peerHash]) else none

/-- `register` up to the policy. -/
def registerTurn (hash : Bytes) : Turn :=
  if hash.length ≠ identityLength then { hub := h }
  else if (h.records p).ready then { hub := h, next := [.identify hash] }
  else { hub := h.register p hash, next := (h.replaced p hash).toList.map Task.close ++ [.identify hash] }

def identify : Turn :=
  match a.error with
  | some message =>
    if c.policy then
      { hub := h.update p fun peer => { peer with refused := true }, next := [.close p]
        sent := [replyError c a p message] }
    else { hub := h, next := [.takePending] }
  | none => { hub := h, next := [.takePending] }

def takePending : Turn where
  hub := h.update p fun peer => { peer with pendingHello := none }
  next := if (h.records p).ready then (h.records p).pendingHello.toList.map Task.handlePeer else []

def receive (env : Envelope) : Turn :=
  if (h.records p).ready then { hub := h, next := [.handlePeer env] }
  else if env.type = .hello then
    { hub := h.update p fun peer => { peer with pendingHello := some env }, next := [.remote] }
  else { hub := h, next := [.remote] }

def handlePeer (env : Envelope) : Turn :=
  let limit := c.limits.rateLimitMsgsPerMinute
  let hub := h.update p fun peer => (peer.takeToken limit a.now).1
  if ((h.records p).takeToken limit a.now).2 then { hub, next := [.greet env] }
  else { hub, sent := [replyError c a p "Rate limit exceeded. Try again later."] }

/-- The nickname an envelope carries, in a HELLO also in the legacy place. -/
def inboundNick (env : Envelope) : Option Text :=
  match env.nick with
  | some nick => some nick
  | none => if env.type = .hello ∧ helloLegacyNick env.body ≠ [] then some (helloLegacyNick env.body) else none

def greet (env : Envelope) : Turn where
  hub := h
  next :=
    match inboundNick env with
    | some nick => [.applyInboundNick nick env (h.records p).active]
    | none => [.serve env (h.records p).active]

/-- `applyInboundNick` until it sets the nickname, and what `handlePeer` does about its error. -/
def applyInboundNick (nick : Text) (env : Envelope) (active : Bool) : Turn :=
  let nick := c.unicode.sanitizeNick nick
  if nick = [] then { hub := h, next := [.serve env active] }
  else if byteLength nick > c.limits.maxNickBytes then
    { hub := h, sent := [replyError c a p "nickname too long"]
      next := if active = false then [.close p] else if env.nick.isSome then [] else [.serve env active] }
  else if nick = (h.records p).nick then { hub := h, next := [.serve env active] }
  else { hub := h, next := [.setNick (h.records p).nick nick, .serve env active] }

def setNick (oldNick nick : Text) : Turn where
  hub := h.update p fun peer => { peer with nick := c.unicode.sanitizeNick nick }
  next := if (h.records p).ready then [.reindexNick oldNick nick] else []

/-- `onJoin` until its section. -/
def onJoin (env : Envelope) : Turn :=
  let room := c.unicode.normalizeRoom (env.room.getD [])
  if room = [] then { hub := h, sent := [replyError c a p "missing room"] }
  else if byteLength room > c.limits.maxRoomNameBytes then { hub := h, sent := [replyError c a p "room name too long"] }
  else
    match a.error with
    | some message =>
      if c.policy then { hub := h, sent := [replyError c a p message] } else { hub := h, next := [.join room] }
    | none => { hub := h, next := [.join room] }

def dispatchContent (env : Envelope) : Turn :=
  match a.error with
  | some message =>
    if c.policy then { hub := h, sent := [replyError c a p message] } else { hub := h, next := [.onRoomContent env] }
  | none => { hub := h, next := [.onRoomContent env] }

def tryIntercept : Bool := c.policy && a.intercepts

def onResourceEnvelope (env : Envelope) : List Outgoing :=
  if c.enableResourceTransfer = false then [replyError c a p "resource transfer disabled"]
  else
    match validateResourceEnvelopeBody env.body with
    | .error reason => [replyError c a p reason]
    | .ok body =>
      let size := (body.size.getD 0).toNat
      if size > c.maxResourceBytes then
        [replyError c a p ("resource too large: " ++ toString size ++ " > " ++ toString c.maxResourceBytes)]
      else if c.policy then (a.error.map (replyError c a p)).toList
      else []

def onPing (env : Envelope) : Outgoing := { link := p, env := typedEnvelope c a 0 .pong [] env.body [] }

/-- `handlePeer` once the nickname is dealt with. -/
def serve (env : Envelope) (active : Bool) : Turn :=
  if env.type = .pong then { hub := h }
  else if active = false then
    if env.type = .hello then { hub := h, next := [.onHello] }
    else { hub := h, sent := [replyError c a p "send HELLO first"] }
  else
    match env.type with
    | .hello =>
      { hub := h, next := (a.visit.run (h.records p).rooms.keys).map Task.onPart ++ [.deactivate, .onHello] }
    | .join => onJoin c a h p env
    | .part => { hub := h, next := [.onPart (env.room.getD [])] }
    | .notice =>
      if tryIntercept c a then { hub := h }
      else if env.destination.isSome then { hub := h, next := [.onDirectNotice env] }
      else dispatchContent c a h p env
    | .msg => if tryIntercept c a then { hub := h } else dispatchContent c a h p env
    | .action => dispatchContent c a h p env
    | .resourceEnvelope => { hub := h, sent := onResourceEnvelope c a p env }
    | .ping => { hub := h, sent := [onPing c a p env] }
    | _ => { hub := h }

/-- `onHello`; a WELCOME that cannot be sent closes the session. -/
def onHello : Turn where
  hub := h.update p fun peer => { peer with active := true }
  next := if a.sends ∧ (h.records p).closed = false then [] else [.close p]
  sent := [{ link := p, env := typedEnvelope c a 0 .welcome [] (some c.welcomeBody) [] }]

/-- The section of `onJoin`, and what it sends. -/
def joinTurn (room : Text) : Turn :=
  let peer := h.records p
  if room ∉ peer.rooms ∧ peer.rooms.keys.length ≥ c.limits.maxRoomsPerSession then
    { hub := h, sent := [replyError c a p "room limit exceeded"] }
  else
    let h := if room ∈ peer.rooms then h else h.join p room
    let memberList := h.hashes (a.visit.run (h.rooms.members room).keys)
    let body := if c.includeMemberList ∧ memberList ≠ [] then some (Value.arr (memberList.map .bytes)) else none
    let others := (h.roomPeersLocked room peer.key a.visit).map fun link =>
      ({ link, env := typedEnvelope c a 0 .joined room (presence c peer) peer.nick } : Outgoing)
    { hub := h, sent := others ++ [{ link := p, env := typedEnvelope c a 1 .joined room body [] }] }

def onPart (name : Text) : Turn :=
  let peer := h.records p
  let room := c.unicode.normalizeRoom name
  if room = [] ∨ room ∉ peer.rooms then { hub := h }
  else
    let h := h.leave p peer.key room
    let others := (h.roomPeersLocked room peer.key a.visit).map fun link =>
      ({ link, env := typedEnvelope c a 0 .parted room (presence c peer) peer.nick } : Outgoing)
    { hub := h, sent := others ++ [{ link := p, env := typedEnvelope c a 1 .parted room (presence c peer) [] }] }

def tooLarge (env : Envelope) : Prop := ∃ body ∈ env.body, bodySizeBytes body > c.limits.maxMsgBodyBytes

instance (env : Envelope) : Decidable (tooLarge c env) := by
  unfold tooLarge
  infer_instance

def onRoomContent (env : Envelope) : List Outgoing :=
  let peer := h.records p
  let room := c.unicode.normalizeRoom (env.room.getD [])
  if room = [] then [replyError c a p "missing room"]
  else if tooLarge c env then [replyError c a p "message body too large"]
  else if room ∉ peer.rooms ∧ c.policy = false then [replyError c a p "not a member of room"]
  else
    match envelopeFrom env.type peer.peerHash env.msgID env.timestamp with
    | .error _ => []
    | .ok fwd => (h.audience room a.visit).map fun link =>
      { link, env := { fwd with room := some room, body := env.body, nick := peer.ownNick } }

def onDirectNotice (env : Envelope) : List Outgoing :=
  let peer := h.records p
  if env.room.isSome then [replyError c a p "direct notice must not include room"]
  else
    match env.destination.filter fun hash => hash.length = identityLength with
    | none => [replyError c a p "direct notice requires destination identity"]
    | some destination =>
      if tooLarge c env then [replyError c a p "message body too large"]
      else
        match (h.peers.lookup (peerKey destination)).filter fun q => (h.records q).active with
        | none => [replyError c a p "destination not connected"]
        | some link =>
          match envelopeFrom .notice peer.peerHash env.msgID env.timestamp with
          | .error _ => []
          | .ok fwd =>
            [{ link, env := { fwd with destination := some destination, body := env.body, nick := peer.ownNick } }]

/-- `close` of a session, which runs `onClose` the first time. -/
def close (q : Nat) : Turn :=
  if (h.records q).closed then { hub := h }
  else { hub := h.update q fun peer => { peer with closed := true }, next := [.dropPeerIf q] }

def dropPeerIf (q : Nat) : Turn :=
  let peer := h.records q
  if peer.peerHash = [] ∨ ¬ h.Current q then { hub := h }
  else
    { hub := h.drop c.unicode q
      sent := (a.visit.run peer.rooms.keys).zipIdx.flatMap fun (room, i) =>
        (h.roomPeersLocked room peer.key a.visit).map fun link =>
          { link, env := typedEnvelope c a i .parted room (presence c peer) peer.nick } }

end Hub

def Task.run (c : HubConfig) (a : Answer) (h : Hub) (p : Nat) : Task → Turn
  | .remote => { hub := h, next := (a.remote.map Task.register).toList }
  | .register hash => h.registerTurn p hash
  | .identify _ => h.identify c a p
  | .takePending => h.takePending p
  | .receive env => h.receive p env
  | .handlePeer env => h.handlePeer c a p env
  | .greet env => h.greet p env
  | .applyInboundNick nick env active => h.applyInboundNick c a p nick env active
  | .setNick oldNick nick => h.setNick c p oldNick nick
  | .reindexNick oldNick newNick => { hub := h.reindexNick c.unicode (h.records p).key oldNick newNick }
  | .serve env active => h.serve c a p env active
  | .onHello => h.onHello c a p
  | .deactivate => { hub := h.update p fun peer => { peer with active := false } }
  | .join room => h.joinTurn c a p room
  | .onPart name => h.onPart c a p name
  | .onRoomContent env => { hub := h, sent := h.onRoomContent c a p env }
  | .onDirectNotice env => { hub := h, sent := h.onDirectNotice c a p env }
  | .close q => h.close q
  | .dropPeerIf q => h.dropPeerIf c a q

/-- A callback that is running; `late` tells that it handles an envelope after the policy refused the link. -/
structure Thread where
  link : Nat
  tasks : List Task
  late : Bool := false

structure HubMachine where
  hub : Hub := {}
  threads : List Thread := []

inductive HubEvent where
  | accept (now : Int)
  | identified (link : Nat) (hash : Bytes)
  | packet (link : Nat) (env : Envelope)
  | close (link : Nat)
  | removeFromRoom (peer : Bytes) (room : Text)
  | step (i : Nat) (a : Answer)

def Task.starts : Task → Bool
  | .handlePeer _ => true
  | _ => false

namespace HubMachine
variable (c : HubConfig) (m : HubMachine)

def spawn (link : Nat) (tasks : List Task) : HubMachine := { m with threads := m.threads ++ [{ link, tasks }] }

/-- The link of a thread and the task it runs next. -/
def next (i : Nat) : Option (Thread × Task) :=
  m.threads[i]?.bind fun thread => thread.tasks.head?.map fun task => (thread, task)

/-- The thread handles an envelope of a link that the policy has refused. -/
def handlesLate (thread : Thread) (task : Task) : Bool :=
  thread.late || (task.starts && (m.hub.records thread.link).refused)

def advance (i : Nat) (a : Answer) (thread : Thread) (task : Task) : HubMachine × List Outgoing :=
  let turn := task.run c a m.hub thread.link
  let tasks := turn.next ++ thread.tasks.tail
  ({ hub := turn.hub, threads := m.threads.set i { thread with tasks, late := m.handlesLate thread task } }, turn.sent)

def stepSending : HubEvent → Option (HubMachine × List Outgoing)
  | .accept now =>
    some ({ m with hub := m.hub.acceptLink c.limits.rateLimitMsgsPerMinute now }.spawn m.hub.links [.remote], [])
  | .identified link hash => if link < m.hub.links then some (m.spawn link [.register hash], []) else none
  | .packet link env => if link < m.hub.links then some (m.spawn link [.remote, .receive env], []) else none
  | .close link => if link < m.hub.links then some (m.spawn link [.close link], []) else none
  | .removeFromRoom peer room => some ({ m with hub := (m.hub.removeFromRoom c.unicode peer room).1 }, [])
  | .step i a => (m.next i).map fun (thread, task) => m.advance c i a thread task

def step (event : HubEvent) : Option HubMachine := (m.stepSending c event).map Prod.fst

abbrev run (events : List HubEvent) : Option HubMachine := runEvents (step c) m events

/-- What a step of a thread runs meets a condition. -/
def OnTask (condition : Thread → Task → Prop) : HubEvent → Prop
  | .step i _ => ∀ thread task, m.next i = some (thread, task) → condition thread task
  | _ => True

instance (condition : Thread → Task → Prop) [∀ thread task, Decidable (condition thread task)] :
    (event : HubEvent) → Decidable (m.OnTask condition event)
  | .step i _ =>
    match found : m.next i with
    | none => isTrue (by simp [OnTask, found])
    | some (thread, task) => decidable_of_iff (condition thread task) (by simp [OnTask, found])
  | .accept _ | .identified .. | .packet .. | .close _ | .removeFromRoom .. => isTrue trivial

end HubMachine

/-- A link with an identity that is known from the start; its callback takes `n` steps. -/
def opened (i n : Nat) (hash : Bytes) : List HubEvent :=
  .accept 0 :: .step i { remote := some hash } :: replicate n (.step i {})

/-- An envelope on a link whose callback takes `n` steps. -/
def handled (i n link : Nat) (env : Envelope) : List HubEvent := .packet link env :: replicate n (.step i {})

def someHash : Bytes := replicate identityLength 7

def asciiHub : HubConfig where
  unicode := { isSpace := fun r => r = ' ', isControl := fun r => r.toNat < 32, toLower := Char.toLower }
  sender := ⟨replicate identityLength 1, rfl⟩

/-- An envelope as it comes in. -/
def inbound (type : EnvelopeType) : Envelope :=
  { type, msgID := replicate messageIDLength 5, timestamp := 0, sender := someHash }

end ReticulumProtocols.Rrc
