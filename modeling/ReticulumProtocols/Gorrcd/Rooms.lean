import ReticulumProtocols.Gorrcd.Config

/-! The registry of rooms: who founded a room, its modes, its operators, bans and invites. Every operation runs under
the lock of the registry; a time is in whole seconds, as the registry keeps it. -/

namespace ReticulumProtocols.Gorrcd
open Wire Cbor Lxmf Rrc

/-- `RoomState`; the founder with `HasFounder`. -/
structure RoomState where
  founder : Option ID := none
  registered : Bool := false
  topic : Text := []
  moderated : Bool := false
  inviteOnly : Bool := false
  topicOpsOnly : Bool := false
  noOutsideMsgs : Bool := false
  isPrivate : Bool := false
  key : Text := []
  ops : GoMap ID Unit := ∅
  voiced : GoMap ID Unit := ∅
  bans : GoMap ID Unit := ∅
  invited : GoMap ID Float := ∅
  lastUsed : Float := Float64.ofInt 0

namespace RoomState
variable (st : RoomState)

/-- Founder or operator, without the operators of the server. -/
def Runs (peer : ID) : Prop := st.founder = some peer ∨ peer ∈ st.ops

instance (peer : ID) : Decidable (st.Runs peer) := inferInstanceAs (Decidable (_ ∨ _))

/-- An invite that has not expired. -/
def Invites (now : Int) (peer : ID) : Prop := ∃ exp ∈ st.invited.lookup peer, exp > Float64.ofInt now

instance (now : Int) (peer : ID) : Decidable (st.Invites now peer) := by
  unfold Invites
  infer_instance

/-- The peer becomes founder and operator of a room that has no founder. -/
def claim (founder : ID) : RoomState :=
  if st.founder = none then { st with founder := some founder, ops := st.ops.insert founder () } else st

def modeString : String :=
  let flags := (if st.inviteOnly then ['i'] else []) ++ (if st.key ≠ [] then ['k'] else []) ++
    (if st.moderated then ['m'] else []) ++ (if st.noOutsideMsgs then ['n'] else []) ++
    (if st.isPrivate then ['p'] else []) ++ (if st.registered then ['r'] else []) ++
    (if st.topicOpsOnly then ['t'] else [])
  if flags = [] then "(none)" else "+" ++ str flags

end RoomState

def newRoomState : Option ID → RoomState
  | none => {}
  | some founder => RoomState.claim {} founder

structure RoomRegistry where
  path : Text := []
  inviteTO : Float := Float64.ofInt 0
  rooms : GoMap Text RoomState := ∅

/-- The texts by which a request is refused. -/
def rrcdInviteOnly : String := "invite-only (+i)"
def rrcdBadKey : String := "bad key (+k)"
def rrcdBannedFromRoom : String := "banned from room"
def rrcdNoOutside : String := "no outside messages (+n)"
def rrcdModerated : String := "room is moderated (+m)"

/-- `sort.Strings`. -/
def sorted (texts : List Text) : List Text := texts.insertionSort fun a b => a ≤ b

namespace RoomRegistry
variable (r : RoomRegistry) (now : Int) (room : Text) (peer : ID)

/-- A room as it is, or as it would be made without a founder. -/
def state : RoomState := (r.rooms.lookup room).getD {}

def put (st : RoomState) : RoomRegistry := { r with rooms := r.rooms.insert room st }

def ensureLocked (founder : Option ID) : RoomRegistry :=
  match r.rooms.lookup room with
  | none => r.put room (newRoomState founder)
  | some st =>
    match founder with
    | some founder => if st.founder = none then r.put room (st.claim founder) else r
    | none => r

def touch : RoomRegistry :=
  let r := r.ensureLocked room none
  r.put room { r.state room with lastUsed := Float64.ofInt now }

/-- `writeLocked`; the second argument is the error of writing the file. -/
def writeLocked (failure : Option String) : Option String := if r.path = [] then none else failure

def isOp (serverOp : Bool) : Bool := serverOp || decide ((r.state room).Runs peer)

def isVoiced (serverOp : Bool) : Bool := r.isOp room peer serverOp || decide (peer ∈ (r.state room).voiced)

def consumeInvite : RoomRegistry :=
  match r.rooms.lookup room with
  | none => r
  | some st => r.put room { st with invited := st.invited.erase peer }

/-- `AllowJoin`; the room is made or claimed before anything is checked. -/
def allowJoin (body : Option Value) (serverOp : Bool) : RoomRegistry × Option String :=
  let r := r.ensureLocked room (some peer)
  let st := r.state room
  let isOp := serverOp || decide (st.Runs peer)
  let provided := (body.bind asString).getD []
  let refused :=
    if peer ∈ st.bans then some rrcdBannedFromRoom
    else if st.inviteOnly ∧ ¬ isOp ∧ ¬ st.Invites now peer then some rrcdInviteOnly
    else if st.key ≠ [] ∧ ¬ isOp ∧ ¬ st.Invites now peer ∧ provided ≠ st.key then some rrcdBadKey
    else none
  (r, refused)

def allowContent (isMember serverOp : Bool) : Option String :=
  let st := r.state room
  if room ∉ r.rooms ∧ ¬ isMember then some "no such room"
  else if peer ∈ st.bans then some rrcdBannedFromRoom
  else if ¬ isMember ∧ st.noOutsideMsgs then some rrcdNoOutside
  else if st.moderated ∧ ¬ r.isVoiced room peer serverOp then some rrcdModerated
  else none

def modeString : String := if room ∈ r.rooms then (r.state room).modeString else "(none)"

def infoLine : String :=
  let st := r.state room
  let topic := if st.topic = [] then "(none)" else str st.topic
  let kind := if st.registered then "registered" else "unregistered"
  "room " ++ str room ++ ": " ++ kind ++ "; mode=" ++ r.modeString room ++ "; topic=" ++ topic

/-- `PublicRegistered`: names and topics, sorted by name. -/
def publicRegistered : List (Text × Text) :=
  (sorted r.rooms.keys).filterMap fun name =>
    let st := r.state name
    if st.registered ∧ ¬ st.isPrivate then some (name, st.topic) else none

def count : Nat := r.rooms.keys.countP fun name => (r.state name).registered

def founder : Option ID := (r.state room).founder

def topic : Text := (r.state room).topic

def topicOpsOnly : Bool := (r.state room).topicOpsOnly

def isPrivate : Bool := (r.state room).isPrivate

def hasKey : Bool := (r.state room).key ≠ []

def needsStoredInvite : Bool := (r.state room).inviteOnly || r.hasKey room

def setTopic (topic : Text) : RoomRegistry :=
  let r := r.ensureLocked room none
  r.put room { r.state room with topic, lastUsed := Float64.ofInt now }

variable (failure : Option String)

def register (founder : ID) : RoomRegistry × Option String :=
  let r := r.ensureLocked room (some founder)
  let st := r.state room
  let r := r.put room { st with
    registered := true, noOutsideMsgs := true, topicOpsOnly := true
    ops := st.ops.insert founder (), lastUsed := Float64.ofInt now }
  (r, r.writeLocked failure)

def unregister : RoomRegistry × Option String :=
  let st := r.state room
  if ¬ st.registered then (r, some ("room " ++ str room ++ " is not registered"))
  else
    let r := r.put room { st with registered := false }
    (r, r.writeLocked failure)

/-- A changed room is used, and written if it is registered. -/
def changed (st : RoomState) : RoomRegistry × Option String :=
  let r := r.put room { st with lastUsed := Float64.ofInt now }
  (r, if st.registered then r.writeLocked failure else none)

def flagged (st : RoomState) (flag : Char) (on : Bool) (key : Text) : Except String RoomState :=
  match flag with
  | 'm' => .ok { st with moderated := on }
  | 'i' => .ok { st with inviteOnly := on }
  | 't' => .ok { st with topicOpsOnly := on }
  | 'n' => .ok { st with noOutsideMsgs := on }
  | 'p' => .ok { st with isPrivate := on }
  | 'k' =>
    if on then if key = [] then .error "key must not be empty" else .ok { st with key }
    else .ok { st with key := [] }
  | _ => .error "unknown flag"

def setFlag (flag : Char) (on : Bool) (key : Text) : RoomRegistry × Option String :=
  let r := r.ensureLocked room none
  match flagged (r.state room) flag on key with
  | .error message => (r, some message)
  | .ok st => r.changed now room failure st

def mutateSet (fn : RoomState → RoomState) : RoomRegistry × Option String :=
  let r := r.ensureLocked room none
  r.changed now room failure (fn (r.state room))

def addOp (target : ID) : RoomRegistry × Option String :=
  r.mutateSet now room failure fun st => { st with ops := st.ops.insert target () }

def delOp (target : ID) : RoomRegistry × Option String :=
  r.mutateSet now room failure fun st => { st with ops := st.ops.erase target }

def addVoice (target : ID) : RoomRegistry × Option String :=
  r.mutateSet now room failure fun st => { st with voiced := st.voiced.insert target () }

def delVoice (target : ID) : RoomRegistry × Option String :=
  r.mutateSet now room failure fun st => { st with voiced := st.voiced.erase target }

def addBan (target : ID) : RoomRegistry × Option String :=
  r.mutateSet now room failure fun st => { st with bans := st.bans.insert target () }

def delBan (target : ID) : RoomRegistry × Option String :=
  r.mutateSet now room failure fun st => { st with bans := st.bans.erase target }

def addInvite (target : ID) (ttlS : Float) : RoomRegistry × Option String :=
  let ttlS := if ttlS ≤ Float64.ofInt 0 then Float64.ofInt 900 else ttlS
  r.mutateSet now room failure fun st =>
    { st with invited := st.invited.insert target (Float64.ofInt now + ttlS) }

def delInvite (target : ID) : RoomRegistry × Option String :=
  r.mutateSet now room failure fun st => { st with invited := st.invited.erase target }

def listBans : List Text := sorted ((r.state room).bans.keys.map ID.hex)

/-- `ListInvites`; the float is converted as the processor does it. -/
def listInvites (saturates : Bool) : List Text :=
  sorted ((r.state room).invited.entries.filterMap fun ⟨id, exp⟩ =>
    if exp > Float64.ofInt now then
      some (id.hex ++ " expires_in=".toList ++
        (toString (Float64.toInt64 saturates (exp - Float64.ofInt now))).toList ++ ['s'])
    else none)

/-- A registered room that no one is in and that was not used for a while; a room that was never used counts from the
start of the daemon. -/
def stale (now : Int) (room : Text) (afterS : Float) (occupied : List Text) (started : Int) (st : RoomState) : Bool :=
  let last := if st.lastUsed == Float64.ofInt 0 then Float64.ofInt started else st.lastUsed
  st.registered && decide (room ∉ occupied) && decide (afterS ≤ Float64.ofInt now - last)

def pruneUnused (afterS : Float) (occupied : List Text) (started : Int) : RoomRegistry :=
  let gone := r.rooms.keys.filter fun name => stale now name afterS occupied started (r.state name)
  { r with rooms := gone.foldl (fun rooms name => rooms.erase name) r.rooms }

end RoomRegistry

end ReticulumProtocols.Gorrcd
