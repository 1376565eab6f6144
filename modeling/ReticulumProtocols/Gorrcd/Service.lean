import ReticulumProtocols.Gorrcd.RoomFile
import ReticulumProtocols.Rrc.HubOps

/-! The daemon around the hub: the lists of trusted and banned identities, the policy that the hub asks, and `Reload`. -/

namespace ReticulumProtocols.Gorrcd
open Wire Cbor Lxmf Rrc

structure Trust where
  trusted : GoMap ID Unit := ∅
  banned : GoMap ID Unit := ∅

/-- The identities of a list; one entry that is none spoils it. -/
def parseAll (lib : Library) (texts : List Text) : Except String (GoMap ID Unit) :=
  texts.foldlM (fun set s => return set.insert (← parseFullID lib s) ()) ∅

/-- The lists that `Load` puts in place. -/
def Trust.load (lib : Library) (trusted banned : List Text) : Except String Trust := do
  let trusted ← parseAll lib trusted
  let banned ← parseAll lib banned
  return { trusted, banned }

def Trust.bannedHex (t : Trust) : List Text := sorted (t.banned.keys.map ID.hex)

/-- What the service asks the hub to send. -/
inductive Reply where
  | notice (peer : Bytes) (room : Text) (text : String)
  | error (peer : Bytes) (room : Text) (text : String)
  | broadcastNotice (room : Text) (text : String)
  deriving DecidableEq

inductive ReadError where
  | notExist (message : String)
  | other (message : String)

/-- The files of the daemon, each under its cleaned path. -/
abbrev Files := Text → Except ReadError Text

section
variable (lib : Library) (files : Files)

def loadConfigFile (path : Text) : Except String Config :=
  match files path with
  | .error (.notExist message) | .error (.other message) => .error message
  | .ok text => applyTOML lib { defaultConfig lib with configPath := path } text

def loadRoomRegistry (now : Int) (path : Text) : Except String (GoMap Text RoomState) :=
  match files path with
  | .error (.notExist _) => .ok ∅
  | .error (.other message) => .error message
  | .ok text => parseRoomsTOML lib now text

end

/-- What `Reload` finds on the disk. -/
structure Disk where
  stat : Text → Bool
  loadConfigFile : Text → Except String Config
  loadRoomRegistry : Text → Except String (GoMap Text RoomState)

def Files.disk (lib : Library) (files : Files) (now : Int) : Disk where
  stat path :=
    match files path with
    | .error (.notExist _) => false
    | _ => true
  loadConfigFile := Gorrcd.loadConfigFile lib files
  loadRoomRegistry := Gorrcd.loadRoomRegistry lib files now

/-- What a call finds outside the service: the time, the disk and the error of writing to it, the order of map
iterations, how the processor converts floats, the report of the counters. -/
structure Outside where
  now : Int := 0
  disk : Disk
  failure : Option String := none
  visit : Visit := Visit.listed
  saturates : Bool := false
  stats : String := ""

structure Service where
  cfg : Config
  hubConfig : HubConfig
  hub : Hub := {}
  rooms : RoomRegistry := {}
  trust : Trust := {}

def rrcdBanned : String := "banned"

def version : Text := "0.1.0".toList

namespace Service
variable (lib : Library) (w : Outside) (s : Service) (peer : Bytes)

def isTrusted (id : ID) : Bool := id ∈ s.trust.trusted

/-- The error of `OnIdentified`. -/
def onIdentified : Option String :=
  match idFrom peer with
  | none => none
  | some id => if id ∈ s.trust.banned then some rrcdBanned else none

def allowJoin (room : Text) (body : Option Value) : Service × Option String :=
  match idFrom peer with
  | none => (s, some "invalid peer")
  | some id =>
    let (rooms, refused) := s.rooms.allowJoin w.now room id body (s.isTrusted id)
    ({ s with rooms }, refused)

def afterJoin (id : ID) (room : Text) : Service × List Reply :=
  let rooms := ((s.rooms.ensureLocked room (some id)).consumeInvite room id).touch w.now room
  ({ s with rooms }, [.notice id.1 room (rooms.infoLine room)])

def afterPart (room : Text) : Service := { s with rooms := s.rooms.touch w.now room }

def allowContent (env : Envelope) : Option String :=
  let room := lib.unicode.normalizeRoom (env.room.getD [])
  match idFrom peer with
  | none => some "invalid peer"
  | some id => s.rooms.allowContent room id (s.hub.isMember lib.unicode peer room) (s.isTrusted id)

/-- The message of a `Reload` that worked. -/
def reloaded (s' : Service) : String :=
  "reloaded: trusted=" ++ toString s.trust.trusted.keys.length ++ "->" ++ toString s'.trust.trusted.keys.length ++
    " banned=" ++ toString s.trust.banned.keys.length ++ "->" ++ toString s'.trust.banned.keys.length ++
    " registered_rooms=" ++ toString s.rooms.count ++ "->" ++ toString s'.rooms.count ++
    "\npolicy: max_nick_bytes=" ++ toString s'.cfg.maxNickBytes.toNat

/-- `Reload`. The lists of identities are in place before the room registry is read. -/
def reload : Service × List Reply :=
  let told (s : Service) (text : String) : Service × List Reply := (s, [.notice peer [] text])
  let path := s.cfg.configPath
  if path = [] ∨ ¬ w.disk.stat path then told s "reload failed: config_path not set or missing"
  else
    match w.disk.loadConfigFile path with
    | .error message => told s ("reload failed: config parse error: " ++ message)
    | .ok newCfg =>
      match Trust.load lib newCfg.trustedIdentities newCfg.bannedIdentities with
      | .error message => told s ("reload failed: identity list parse error: " ++ message)
      | .ok trust =>
        match w.disk.loadRoomRegistry newCfg.roomRegistryPath with
        | .error message => told { s with trust } ("reload failed: " ++ message)
        | .ok rooms =>
          let s' : Service :=
            { s with
              cfg := { newCfg with configPath := path }
              trust
              rooms := { s.rooms with rooms, inviteTO := newCfg.roomInviteTimeoutS }
              hubConfig := s.hubConfig.applyRuntime newCfg.hubName version newCfg.includeJoinedMemberList
                newCfg.enableResourceTransfer newCfg.maxResourceBytes.toNat newCfg.hubLimits }
          told s' ({ s with trust }.reloaded s')

end Service

end ReticulumProtocols.Gorrcd
