import ReticulumProtocols.Gorrcd.Identity

/-! The configuration of the daemon and its reader: lines of a TOML subset, one setting each. -/

namespace ReticulumProtocols.Gorrcd
open Wire Cbor Lxmf Rrc

structure Config where
  configPath : Text
  roomRegistryPath : Text
  configDir : Text := []
  identityPath : Text
  announceOnStart : Bool := true
  announcePeriodS : Float := Float64.ofInt 0
  hubName : Text := "rrc".toList
  greeting : Text := []
  trustedIdentities : List Text := []
  bannedIdentities : List Text := []
  roomRegistryPruneAfterS : Float := Float64.ofInt (30 * 24 * 3600)
  roomRegistryPruneIntervalS : Float := Float64.ofInt 3600
  roomInviteTimeoutS : Float := Float64.ofInt 900
  includeJoinedMemberList : Bool := false
  maxNickBytes : UInt64 := 32
  maxRoomsPerSession : UInt64 := 32
  maxRoomNameBytes : UInt64 := 64
  maxMsgBodyBytes : UInt64 := 350
  rateLimitMsgsPerMinute : UInt64 := 240
  pingIntervalS : Float := Float64.ofInt 0
  pingTimeoutS : Float := Float64.ofInt 0
  maxResourceBytes : UInt64 := 262144
  maxPendingResourceExpectations : Nat := 8
  resourceExpectationTTLS : Float := Float64.ofInt 30
  enableResourceTransfer : Bool := true
  logLevel : Text := "INFO".toList
  logRNSLevel : Text := "WARNING".toList
  logConsole : Bool := true
  logFile : Text := []
  logFormat : Text := []

def Config.hubLimits (cfg : Config) : HubLimits where
  maxNickBytes := cfg.maxNickBytes.toNat
  maxRoomsPerSession := cfg.maxRoomsPerSession.toNat
  maxRoomNameBytes := cfg.maxRoomNameBytes.toNat
  maxMsgBodyBytes := cfg.maxMsgBodyBytes.toNat
  rateLimitMsgsPerMinute := cfg.rateLimitMsgsPerMinute.toNat

def maxScanTokenSize : Nat := 65536

/-- The lines of a `bufio.Scanner`, up to the first that does not fit its buffer, and its error. -/
def scanLines : List Text → List Text × Option String
  | [] => ([], none)
  | line :: rest =>
    if maxScanTokenSize ≤ byteLength line then ([], some "bufio.Scanner: token too long")
    else
      let line := if line.getLast? = some '\r' then line.dropLast else line
      (line :: (scanLines rest).1, (scanLines rest).2)

/-- The pieces between newlines; nothing follows a newline at the end. -/
def splitLines (text : Text) : List Text :=
  let lines := text.splitOn '\n'
  if lines.getLast? = some [] then lines.dropLast else lines

def scan (text : Text) : List Text × Option String := scanLines (splitLines text)

section
variable (lib : Library)

/-- `strings.ReplaceAll` of `\"` by `"`. -/
def unescapeQuotes : Text → Text
  | '\\' :: '"' :: rest => '"' :: unescapeQuotes rest
  | r :: rest => r :: unescapeQuotes rest
  | [] => []

/-- The text stands between two of these characters. -/
def enclosed (first last : Char) (v : Text) : Bool := 2 ≤ v.length ∧ v.head? = some first ∧ v.getLast? = some last

def inner (v : Text) : Text := (v.drop 1).dropLast

def unquote (v : Text) : Text :=
  let v := lib.unicode.trimSpace v
  if enclosed '"' '"' v then (lib.unquote v).getD (unescapeQuotes (inner v))
  else if enclosed '\'' '\'' v then inner v
  else v

def parseBool (v : Text) : Bool :=
  match str (lib.toLower (unquote lib v)) with
  | "true" | "1" | "yes" => true
  | _ => false

def parseFloat (v : Text) : Float := lib.parseFloat (unquote lib v)

def parseU64 (v : Text) : UInt64 := lib.parseUint (unquote lib v)

def parseStringList (v : Text) : List Text :=
  let v := lib.unicode.trimSpace v
  if v = [] ∨ v = ['[', ']'] then []
  else
    let v := if enclosed '[' ']' v then lib.unicode.trimSpace (inner v) else v
    if v = [] then []
    else ((v.splitOn ',').map fun p => unquote lib (lib.unicode.trimSpace p)).filter fun s => s ≠ []

/-- `splitKV`; the line has no key where it starts with `=`. -/
def splitKV (line : Text) : Option (Text × Text) :=
  let k := line.takeWhile fun r => r ≠ '='
  if k = [] ∨ k = line then none
  else some (lib.toLower (lib.unicode.trimSpace k), lib.unicode.trimSpace (line.drop (k.length + 1)))

def expandPath (p : Text) : Text :=
  let p := lib.unicode.trimSpace p
  if p = [] then p
  else
    let p := lib.expandEnv p
    if ['~', '/'] <+: p ∨ p = ['~'] then
      match lib.userHomeDir with
      | some home => lib.join home (p.drop 1)
      | none => p
    else p

def applyHubKey (cfg : Config) (k v : Text) : Config :=
  match str k with
  | "configdir" => { cfg with configDir := unquote lib v }
  | "identity_path" => { cfg with identityPath := expandPath lib (unquote lib v) }
  | "room_registry_path" => { cfg with roomRegistryPath := expandPath lib (unquote lib v) }
  | "announce_on_start" | "announce" => { cfg with announceOnStart := parseBool lib v }
  | "announce_period_s" => { cfg with announcePeriodS := parseFloat lib v }
  | "hub_name" => { cfg with hubName := unquote lib v }
  | "greeting" => { cfg with greeting := unquote lib v }
  | "trusted_identities" => { cfg with trustedIdentities := parseStringList lib v }
  | "banned_identities" => { cfg with bannedIdentities := parseStringList lib v }
  | "room_registry_prune_after_s" => { cfg with roomRegistryPruneAfterS := parseFloat lib v }
  | "room_registry_prune_interval_s" => { cfg with roomRegistryPruneIntervalS := parseFloat lib v }
  | "room_invite_timeout_s" => { cfg with roomInviteTimeoutS := parseFloat lib v }
  | "include_joined_member_list" => { cfg with includeJoinedMemberList := parseBool lib v }
  | "max_nick_bytes" => { cfg with maxNickBytes := parseU64 lib v }
  | "max_room_name_bytes" => { cfg with maxRoomNameBytes := parseU64 lib v }
  | "max_msg_body_bytes" => { cfg with maxMsgBodyBytes := parseU64 lib v }
  | "max_rooms_per_session" => { cfg with maxRoomsPerSession := parseU64 lib v }
  | "rate_limit_msgs_per_minute" => { cfg with rateLimitMsgsPerMinute := parseU64 lib v }
  | "ping_interval_s" => { cfg with pingIntervalS := parseFloat lib v }
  | "ping_timeout_s" => { cfg with pingTimeoutS := parseFloat lib v }
  | "enable_resource_transfer" => { cfg with enableResourceTransfer := parseBool lib v }
  | "max_resource_bytes" => { cfg with maxResourceBytes := parseU64 lib v }
  | "max_pending_resource_expectations" =>
    { cfg with maxPendingResourceExpectations := min (parseU64 lib v).toNat (2 ^ 63 - 1) }
  | "resource_expectation_ttl_s" => { cfg with resourceExpectationTTLS := parseFloat lib v }
  | _ => cfg

def applyLogKey (cfg : Config) (k v : Text) : Config :=
  match str k with
  | "level" => { cfg with logLevel := (unquote lib v).map lib.toUpper }
  | "rns_level" => { cfg with logRNSLevel := (unquote lib v).map lib.toUpper }
  | "console" => { cfg with logConsole := parseBool lib v }
  | "file" => { cfg with logFile := expandPath lib (unquote lib v) }
  | "format" => { cfg with logFormat := unquote lib v }
  | _ => cfg

/-- A line of the configuration, with the section it stands in. -/
def applyLine (state : Config × Text) (line : Text) : Config × Text :=
  let (cfg, current) := state
  let line := lib.unicode.trimSpace line
  if line = [] ∨ line.head? = some '#' then state
  else if enclosed '[' ']' line then (cfg, lib.toLower (lib.unicode.trimSpace (inner line)))
  else
    match splitKV lib line with
    | none => state
    | some (k, v) =>
      match str current with
      | "hub" | "" => (applyHubKey lib cfg k v, current)
      | "logging" => (applyLogKey lib cfg k v, current)
      | _ => state

def applyTOML (cfg : Config) (text : Text) : Except String Config :=
  let (lines, error) := scan text
  match error with
  | some message => .error message
  | none => .ok (lines.foldl (applyLine lib) (cfg, [])).1

def defaultConfig : Config where
  configPath := lib.join lib.defaultHome "gorrcd.toml".toList
  roomRegistryPath := lib.join lib.defaultHome "rooms.toml".toList
  identityPath := lib.join lib.defaultHome "hub_identity".toList

end

end ReticulumProtocols.Gorrcd
