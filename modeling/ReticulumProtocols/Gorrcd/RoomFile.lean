import ReticulumProtocols.Gorrcd.Rooms

/-! The reader of the room registry file. -/

namespace ReticulumProtocols.Gorrcd
open Wire Cbor Lxmf Rrc

section
variable (lib : Library) (now : Int)

/-- The identities of a list, without the entries that are none. -/
def parseIDs (v : Text) : List ID := (parseStringList lib v).filterMap fun s => (parseFullID lib s).toOption

def addAll (set : GoMap ID Unit) (ids : List ID) : GoMap ID Unit := ids.foldl (fun set id => set.insert id ()) set

def parseInvited (v : Text) : GoMap ID Float :=
  let v := lib.unicode.trimSpace v
  let v := if enclosed '\x7b' '\x7d' v then lib.unicode.trimSpace (inner v) else v
  if v = [] then ∅
  else
    (v.splitOn ',').foldl (fun out p =>
      match splitKV lib p with
      | none => out
      | some (k, val) =>
        match parseFullID lib (unquote lib k) with
        | .error _ => out
        | .ok id => if parseFloat lib val > Float64.ofInt now then out.insert id (parseFloat lib val) else out) ∅

def applyRoomKey (st : RoomState) (k v : Text) : RoomState :=
  match str k with
  | "founder" =>
    match parseFullID lib (unquote lib v) with
    | .ok id => { st with founder := some id, ops := st.ops.insert id () }
    | .error _ => st
  | "topic" => { st with topic := unquote lib v }
  | "moderated" => { st with moderated := parseBool lib v }
  | "invite_only" => { st with inviteOnly := parseBool lib v }
  | "topic_ops_only" => { st with topicOpsOnly := parseBool lib v }
  | "no_outside_msgs" => { st with noOutsideMsgs := parseBool lib v }
  | "private" => { st with isPrivate := parseBool lib v }
  | "key" => { st with key := unquote lib v }
  | "operators" => { st with ops := addAll st.ops (parseIDs lib v) }
  | "voiced" => { st with voiced := addAll st.voiced (parseIDs lib v) }
  | "bans" => { st with bans := addAll st.bans (parseIDs lib v) }
  | "invited" => { st with invited := parseInvited lib now v }
  | "last_used_ts" => { st with lastUsed := parseFloat lib v }
  | _ => st

def parseRoomTableName (s : Text) : Text :=
  let s := lib.unicode.trimSpace s
  if enclosed '"' '"' s then unquote lib s else s

/-- The section that a header opens; none but those of rooms hold settings. -/
def roomSection (rooms : GoMap Text RoomState) (name : Text) : GoMap Text RoomState × Text :=
  if lib.equalFold name "rooms".toList then (rooms, [])
  else if "rooms.".toList <+: lib.toLower name then
    let room := parseRoomTableName lib (name.drop 6)
    (if room ∈ rooms then rooms else rooms.insert room { newRoomState none with registered := true }, room)
  else (rooms, [])

/-- A line of the registry, with the room whose section it stands in. -/
def applyRoomLine (state : GoMap Text RoomState × Text) (line : Text) : GoMap Text RoomState × Text :=
  let (rooms, current) := state
  let line := lib.unicode.trimSpace line
  if line = [] ∨ line.head? = some '#' then state
  else if enclosed '[' ']' line then roomSection lib rooms (lib.unicode.trimSpace (inner line))
  else if current = [] then state
  else
    match splitKV lib line with
    | none => state
    | some (k, v) => (rooms.insert current (applyRoomKey lib now ((rooms.lookup current).getD {}) k v), current)

def parseRoomsTOML (text : Text) : Except String (GoMap Text RoomState) :=
  let (lines, error) := scan text
  match error with
  | some message => .error message
  | none => .ok (lines.foldl (applyRoomLine lib now) (∅, [])).1

end

end ReticulumProtocols.Gorrcd
