import ReticulumProtocols.Gorrcd.Admission
import ReticulumProtocols.Gorrcd.Resources

/-! The running daemon: the threads of the hub's links with the service as their policy, the transfers of resources, and
the loops that prune rooms, clean up expectations and drop silent peers. -/

namespace ReticulumProtocols.Gorrcd
open Wire Cbor Lxmf Rrc Concurrency

structure Daemon where
  service : Service
  threads : List Thread := []
  resources : Resources := ∅
  /-- The links on which `OnLink` has set the resource callbacks. -/
  followed : List Nat := []
  /-- The links with a transfer that `advertised` has accepted, once for each. -/
  transfers : List Nat := []

inductive DaemonEvent where
  | accept (now : Int)
  | identified (link : Nat) (hash : Bytes)
  | packet (link : Nat) (env : Envelope)
  | close (link : Nat)
  | step (i : Nat) (a : Answer) (w : Outside)
  | advertised (link : Nat) (dataSize : Int) (a : Answer)
  | concluded (link : Nat) (payload : Bytes) (a : Answer)
  | cleanup (now : Int)
  /-- `pingOnce` drops a peer that did not answer. -/
  | disconnect (peer : Bytes) (a : Answer)
  | prune (w : Outside) (started : Int)

/-- One copy of what the hub broadcasts to a room on behalf of a peer. -/
structure Post where
  peer : Bytes
  room : Text
  copy : Outgoing

/-- What a step sends: the hub's envelopes, the service's replies, and the posts among all of them. -/
structure Output where
  sent : List Outgoing := []
  replies : List Reply := []
  posts : List Post := []

/-- What the service did when the hub asked it. -/
structure Ruling where
  service : Service
  resources : Resources
  error : Option String := none
  intercepts : Bool := false
  replies : List Reply := []

/-- The hub's configuration with the service as its policy and the character tables of the process. -/
def Service.config (lib : Library) (s : Service) : HubConfig := { s.policed with unicode := lib.unicode }

/-- The callbacks of the policy after the section of a JOIN or PART of link `p`; `before` is the hub before it. -/
def Service.settle (lib : Library) (w : Outside) (s : Service) (p : Nat) (before : Hub) : Task → Service × List Reply
  | .join room =>
    if room ∈ (s.hub.records p).rooms then
      s.afterJoin w ((idFrom (s.hub.records p).peerHash).getD ID.zero) room
    else (s, [])
  | .onPart name =>
    let room := lib.unicode.normalizeRoom name
    if room ≠ [] ∧ room ∈ (before.records p).rooms then (s.afterPart w room, []) else (s, [])
  | _ => (s, [])

def peerOf (h : Hub) (visit : Visit) (link : Nat) : Option ID :=
  ((h.allPeers visit).find? fun info => h.peerLink info.hash = some link).bind fun info => idFrom info.hash

/-- A payload as a text; one that is not UTF-8 is read byte by byte. -/
def payloadText (payload : Bytes) : Text := (ofUtf8 payload).getD (payload.map fun b => Char.ofNat b.toNat)

namespace Daemon
variable (lib : Library) (d : Daemon)

def machine : HubMachine := { hub := d.service.hub, threads := d.threads }

def withMachine (m : HubMachine) : Daemon := { d with service := { d.service with hub := m.hub }, threads := m.threads }

/-- The service keeps its state and may have an objection. -/
def objecting (error : Option String) : Ruling := { service := d.service, resources := d.resources, error }

/-- An envelope is taken as a command, or the hub goes on to its next question. -/
def intercepted (w : Outside) (p : Nat) (env : Envelope) (next : Ruling) : Ruling :=
  match d.service.intercept lib w (d.service.hub.records p).peerHash env with
  | some (service, replies) => { service, resources := d.resources, intercepts := true, replies }
  | none => next

def ask (a : Answer) (w : Outside) (p : Nat) (env : Envelope) : Ruling :=
  let s := d.service
  let hash := (s.hub.records p).peerHash
  let content := d.objecting (s.allowContent lib hash env)
  match env.type with
  | .join =>
    let room := lib.unicode.normalizeRoom (env.room.getD [])
    if s.asksPolicy room then
      let (service, error) := s.allowJoin w hash room env.body
      { service, resources := d.resources, error }
    else d.objecting none
  | .notice => d.intercepted lib w p env (if env.destination.isSome then d.objecting none else content)
  | .msg => d.intercepted lib w p env content
  | .action => content
  | .resourceEnvelope =>
    match validateResourceEnvelopeBody env.body with
    | .error _ => d.objecting none
    | .ok body =>
      if s.hubConfig.enableResourceTransfer ∧ (body.size.getD 0).toNat ≤ s.hubConfig.maxResourceBytes then
        let (resources, error) := d.resources.add a.now s.cfg w.saturates hash env
        { service := s, resources, error }
      else d.objecting none
  | _ => d.objecting none

def consult (a : Answer) (w : Outside) (p : Nat) : Task → Ruling
  | .identify hash => d.objecting (d.service.onIdentified hash)
  | .serve env true => d.ask lib a w p env
  | _ => d.objecting none

/-- The posts among the envelopes that a task sends. -/
def relayed (p : Nat) (sent : List Outgoing) : Task → List Post
  | .onRoomContent env => (sent.filter fun copy => copy.env.type ≠ .error).map fun copy =>
    { peer := (d.service.hub.records p).peerHash, room := lib.unicode.normalizeRoom (env.room.getD []), copy }
  | _ => []

/-- A thread runs its next task; the service answers what the hub asks in it. -/
def advance (i : Nat) (a : Answer) (w : Outside) (thread : Thread) (task : Task) : Daemon × Output :=
  let ruling := d.consult lib a w thread.link task
  let (machine, sent) := HubMachine.advance (d.service.config lib) { hub := ruling.service.hub, threads := d.threads } i
    { a with error := ruling.error, intercepts := ruling.intercepts } thread task
  let (service, replies) := { ruling.service with hub := machine.hub }.settle lib w thread.link ruling.service.hub task
  ({ d with service, threads := machine.threads, resources := ruling.resources },
    { sent, replies := ruling.replies ++ replies, posts := d.relayed lib thread.link sent task })

def advertised (a : Answer) (link : Nat) (dataSize : Int) : Resources × Bool :=
  let cfg := d.service.cfg
  if cfg.enableResourceTransfer = false ∨ dataSize < 0 ∨ cfg.maxResourceBytes.toNat < dataSize.toNat then
    (d.resources, false)
  else
    match peerOf d.service.hub a.visit link with
    | none => (d.resources, false)
    | some id =>
      let r := d.resources.expireLocked id a.now
      (r, (r.matchSizeLocked id a.visit (.ofNat dataSize.toNat)).isSome)

/-- `concluded`: the notice of the expectation that the payload meets is broadcast. -/
def concluded (a : Answer) (link : Nat) (payload : Bytes) : Daemon × Output :=
  match peerOf d.service.hub a.visit link with
  | none => (d, {})
  | some id =>
    match d.resources.matchLocked id a.visit payload with
    | none => (d, {})
    | some e =>
      let d' := { d with resources := d.resources.take id e }
      -- The hash is compared a second time here.
      if e.mismatches (Sha256.sha256 payload) then (d', {})
      else if e.notifies then
        let sent := d.service.hub.broadcastNotice (d.service.config lib) a e.room (payloadText payload)
        let posts := sent.map fun copy => { peer := id.1, room := lib.unicode.normalizeRoom e.room, copy }
        (d', { sent, posts })
      else (d', {})

def stepSending : DaemonEvent → Option (Daemon × Output)
  | .accept now =>
    let followed := if d.service.cfg.enableResourceTransfer then d.service.hub.links :: d.followed else d.followed
    (d.machine.step (d.service.config lib) (.accept now)).map fun m => ({ d.withMachine m with followed }, {})
  | .identified link hash =>
    (d.machine.step (d.service.config lib) (.identified link hash)).map fun m => (d.withMachine m, {})
  | .packet link env => (d.machine.step (d.service.config lib) (.packet link env)).map fun m => (d.withMachine m, {})
  | .close link => (d.machine.step (d.service.config lib) (.close link)).map fun m => (d.withMachine m, {})
  | .step i a w => (d.machine.next i).map fun (thread, task) => d.advance lib i a w thread task
  | .advertised link dataSize a =>
    if link ∈ d.followed then
      let (resources, accepted) := d.advertised a link dataSize
      some ({ d with resources, transfers := if accepted then link :: d.transfers else d.transfers }, {})
    else none
  | .concluded link payload a =>
    if link ∈ d.transfers then
      some ({ d with transfers := d.transfers.erase link }.concluded lib a link payload)
    else none
  | .cleanup now => some ({ d with resources := d.resources.cleanup now }, {})
  | .disconnect peer a =>
    let turn := d.service.hub.disconnect (d.service.config lib) a peer
    some ({ d with service := { d.service with hub := turn.hub } }, { sent := turn.sent })
  | .prune w started =>
    let rooms := d.service.rooms.pruneUnused w.now d.service.cfg.roomRegistryPruneAfterS d.service.hub.occupiedRooms
      started
    some ({ d with service := { d.service with rooms } }, {})

def step (event : DaemonEvent) : Option Daemon := (d.stepSending lib event).map Prod.fst

abbrev run (events : List DaemonEvent) : Option Daemon := runEvents (step lib) d events

/-- What the hub broadcasts in a step on behalf of peers. -/
def posts (event : DaemonEvent) : List Post := ((d.stepSending lib event).map fun result => result.2.posts).getD []

end Daemon

end ReticulumProtocols.Gorrcd
