import ReticulumProtocols.Gorrcd.Service

/-! The slash commands. Each of them runs in the packet callback of the peer that sent it; a room in a command is named
by its arguments, and `room` is the one of the envelope. -/

namespace ReticulumProtocols.Gorrcd
open Wire Wire.Text Cbor Lxmf Rrc

abbrev Outcome := Service × List Reply

def rrcdNotAuthorized : String := "not authorized"
def rrcdNotAuthorizedTopic : String := "not authorized (+t)"
def rrcdUnrecognized : String := "unrecognized command"

/-- The verb `%x` of bytes. -/
def hexText (b : Bytes) : Rrc.Text := (encodeHex b).map fun c => Char.ofNat c.toNat

def trimHex (s : Rrc.Text) (n : Nat) : Rrc.Text := if n = 0 ∨ s.length ≤ n then s else s.take n

/-- `strings.Join` of texts with `, `. -/
def listed (items : List Rrc.Text) : String := if items = [] then "(none)" else String.intercalate ", " (items.map str)

def formatAmbiguous (token : Rrc.Text) (found : List PeerInfo) : String :=
  if found = [] then "target '" ++ str token ++ "' not found"
  else
    "ambiguous: '" ++ str token ++ "' matches " ++ toString found.length ++ " identities:" ++
      String.join (found.map fun m =>
        "\n  - " ++ str (trimHex (hexText m.hash) 16) ++ " " ++
          if m.nick = [] then "(no nick)" else "nick='" ++ str m.nick ++ "'") ++
      "\nUse full or longer identity hash to disambiguate."

/-- `strings.Fields`. -/
def fields (u : Unicode) (text : Rrc.Text) : List Rrc.Text := (text.splitOnP u.isSpace).filter fun f => f ≠ []

def splitCmd (u : Unicode) (text : Rrc.Text) : List Rrc.Text :=
  let text := u.trimSpace text
  fields u (if text.head? = some '/' then text.tail else text)

def joinArgs (u : Unicode) (parts : List Rrc.Text) : Rrc.Text := u.trimSpace (List.intercalate [' '] parts)

namespace Service
variable (lib : Library) (w : Outside) (s : Service) (peer : Bytes) (id : ID) (room : Rrc.Text) (parts : List Rrc.Text)

def normRoom (name : Rrc.Text) : Except String Rrc.Text :=
  let r := lib.unicode.normalizeRoom name
  if r = [] then .error "room name must not be empty"
  else if s.cfg.maxRoomNameBytes.toNat < byteLength r then
    .error ("room name too long: " ++ toString (byteLength r) ++ " bytes > " ++
      toString s.cfg.maxRoomNameBytes.toNat ++ " bytes")
  else .ok r

/-- The peers that a token names, by the start of the hash or by the nickname, in a room unless that is empty. -/
def candidates (token within : Rrc.Text) : List PeerInfo :=
  let hashes :=
    match hasHexPrefix lib token with
    | some start => s.hub.lookupHashPrefix start w.visit
    | none => s.hub.lookupNick lib.unicode token w.visit
  (hashes.filter fun h => within = [] ∨ s.hub.isMember lib.unicode h within).map fun h =>
    { hash := h, nick := s.hub.nickOf h }

/-- `resolve`; the zero identity stands for none. -/
def resolve (token within : Rrc.Text) : ID × List PeerInfo :=
  let token := lib.unicode.trimSpace token
  let found := s.candidates lib w token within
  let full := (parseFullID lib token).toOption.getD ID.zero
  match found with
  | [] => (full, found)
  | [m] => ((idFrom m.hash).getD full, found)
  | _ => (ID.zero, found)

/-- The state stays as it is and the requester gets an answer. -/
def answers (reply : Reply) : Outcome := (s, [reply])

/-- The command goes on with a normalised room, or tells what is wrong with the name. -/
def withRoom (told name : Rrc.Text) (next : Rrc.Text → Outcome) : Outcome :=
  match s.normRoom lib name with
  | .error message => s.answers (.notice peer told ("bad room: " ++ message))
  | .ok r => next r

def requireServerOp (next : Outcome) : Outcome :=
  if s.isTrusted id then next else s.answers (.error peer [] rrcdNotAuthorized)

def requireRoomOp (r : Rrc.Text) (next : Outcome) : Outcome :=
  if s.rooms.isOp r id (s.isTrusted id) then next else s.answers (.error peer r rrcdNotAuthorized)

def cmdReload : Outcome := s.requireServerOp peer id (s.reload lib w peer)

def cmdStats : Outcome := s.requireServerOp peer id (s.answers (.notice peer [] w.stats))

def cmdList : Outcome :=
  let rooms := s.rooms.publicRegistered
  if rooms = [] then s.answers (.notice peer [] "No public rooms registered")
  else
    s.answers (.notice peer [] ("Registered public rooms:" ++ String.join (rooms.map fun (name, topic) =>
      "\n  " ++ str name ++ if topic = [] then "" else " - " ++ str topic)))

def cmdWho : Outcome :=
  let target := parts.getD 1 room
  if target = [] then s.answers (.notice peer [] "usage: /who [room]")
  else s.withRoom lib peer [] target fun r =>
    if s.rooms.isPrivate r ∧ ¬ s.isTrusted id then s.answers (.notice peer [] ("room " ++ str r ++ " is private"))
    else
      let items := (s.hub.roomMemberInfo lib.unicode r w.visit).map fun m =>
        if m.nick = [] then hexText m.hash else m.nick ++ " (".toList ++ trimHex (hexText m.hash) 12 ++ [')']
      s.answers (.notice peer [] ("members in " ++ str r ++ ": " ++ listed items))

def cmdKick : Outcome :=
  match parts with
  | _ :: name :: token :: _ => s.withRoom lib peer room name fun r => s.requireRoomOp peer id r <|
      let (target, found) := s.resolve lib w token r
      if found.length ≠ 1 ∧ target = ID.zero then s.answers (.notice peer room (formatAmbiguous token found))
      else if ¬ s.hub.isMember lib.unicode target.1 r then s.answers (.notice peer room "target not in room")
      else
        ({ s with hub := (s.hub.removeFromRoom lib.unicode target.1 r).1 },
          [.error target.1 r ("kicked from " ++ str r), .notice peer room ("kicked " ++ str token ++ " from " ++ str r)])
  | _ => s.answers (.notice peer [] "usage: /kick <room> <nick|hashprefix>")

/-- `cmdKline` of `add`. -/
def klineAdd (token : Rrc.Text) : Outcome :=
  let (target, found) := s.resolve lib w token []
  let ban (id : ID) : Service := { s with trust := { s.trust with banned := s.trust.banned.insert id () } }
  if target ≠ ID.zero then
    let s := ban target
    ({ s with hub := (s.hub.disconnect s.hubConfig { visit := w.visit } target.1).hub },
      [.notice peer [] ("kline added for " ++ str token)])
  else if 1 < found.length then s.answers (.notice peer [] (formatAmbiguous token found))
  else
    match parseFullID lib token with
    | .error message => s.answers (.notice peer [] ("bad identity hash: " ++ message))
    | .ok h => (ban h).answers (.notice peer [] ("kline added for " ++ str h.hex))

/-- `cmdKline` of `del`. -/
def klineDel (token : Rrc.Text) : Outcome :=
  match parseFullID lib token with
  | .error message => s.answers (.notice peer [] ("bad identity hash: " ++ message))
  | .ok h =>
    if h ∈ s.trust.banned then
      { s with trust := { s.trust with banned := s.trust.banned.erase h } }.answers
        (.notice peer [] ("kline removed for " ++ str h.hex))
    else s.answers (.notice peer [] ("not klined: " ++ str h.hex))

def cmdKline : Outcome := s.requireServerOp peer id <|
  match parts with
  | _ :: word :: rest =>
    let op := str (lib.toLower word)
    match op, rest with
    | "list", _ => s.answers (.notice peer [] ("klines: " ++ listed s.trust.bannedHex))
    | "add", token :: _ => s.klineAdd lib w peer token
    | "del", token :: _ => s.klineDel lib peer token
    | "add", [] | "del", [] => s.answers (.notice peer [] ("usage: /kline " ++ op ++ " <nick|hashprefix|hash>"))
    | _, _ => s.answers (.notice peer [] "usage: /kline add|del|list [nick|hashprefix|hash]")
  | _ => s.answers (.notice peer [] "usage: /kline add|del|list [nick|hashprefix|hash]")

/-- The founder of a room, who is in it, goes on. -/
def asFounder (verb : String) (name : Rrc.Text) (next : Rrc.Text → Outcome) : Outcome :=
  s.withRoom lib peer [] name fun r =>
    if room = [] ∨ lib.unicode.normalizeRoom room ≠ r ∨ ¬ s.hub.isMember lib.unicode peer r then
      s.answers (.notice peer room ("must be present in the room to " ++ verb ++ " it"))
    else if s.rooms.founder r ≠ some id then
      s.answers (.error peer r ("only the room founder can " ++ verb))
    else next r

def cmdRegister : Outcome :=
  match parts with
  | _ :: name :: _ => s.asFounder lib peer id room "register" name fun r =>
    if s.cfg.roomRegistryPath = [] then
      s.answers (.notice peer room "cannot register room: no room_registry_path")
    else
      let (rooms, failure) := s.rooms.register w.now r w.failure id
      { s with rooms }.answers (.notice peer room (failure.getD ("registered room " ++ str r)))
  | _ => s.answers (.notice peer [] "usage: /register <room>")

def cmdUnregister : Outcome :=
  match parts with
  | _ :: name :: _ => s.asFounder lib peer id room "unregister" name fun r =>
    let (rooms, failure) := s.rooms.unregister r w.failure
    { s with rooms }.answers (.notice peer room (failure.getD ("unregistered room " ++ str r)))
  | _ => s.answers (.notice peer [] "usage: /unregister <room>")

def cmdTopic : Outcome :=
  match parts with
  | [_, name] => s.withRoom lib peer [] name fun r =>
    let topic := s.rooms.topic r
    s.answers (.notice peer room ("topic for " ++ str r ++ ": " ++ if topic = [] then "(none)" else str topic))
  | _ :: name :: words => s.withRoom lib peer [] name fun r =>
    if ¬ s.rooms.isOp r id (s.isTrusted id) ∧ s.rooms.topicOpsOnly r then
      s.answers (.error peer r rrcdNotAuthorizedTopic)
    else
      let topic := joinArgs lib.unicode words
      { s with rooms := s.rooms.setTopic w.now r topic }.answers (.broadcastNotice r
        ("topic for " ++ str r ++ " is now: " ++ if topic = [] then "(cleared)" else str topic))
  | _ => s.answers (.notice peer [] "usage: /topic <room> [topic]")

/-- What `/op`, `/deop`, `/voice` and `/devoice` do to a room, and the flags of `/mode` for them. -/
inductive Privilege where
  | op | deop | voice | devoice

def Privilege.apply (privilege : Privilege) (r : Rrc.Text) (target : ID) : Service :=
  match privilege with
  | .op => { s with rooms := (s.rooms.addOp w.now r w.failure target).1 }
  | .deop => { s with rooms := (s.rooms.delOp w.now r w.failure target).1 }
  | .voice => { s with rooms := (s.rooms.addVoice w.now r w.failure target).1 }
  | .devoice => { s with rooms := (s.rooms.delVoice w.now r w.failure target).1 }

/-- A privilege is given to or taken from the target a token names; a founder stays operator. -/
def grant (privilege : Privilege) (r token : Rrc.Text) (told : ID → Reply) : Outcome :=
  let (target, found) := s.resolve lib w token r
  if target = ID.zero then s.answers (.notice peer room (formatAmbiguous token found))
  else
    match privilege with
    | .deop =>
      if s.rooms.founder r = some target then s.answers (.notice peer room "cannot deop founder")
      else (Privilege.apply w s .deop r target).answers (told target)
    | other => (Privilege.apply w s other r target).answers (told target)

def cmdPriv (cmd : String) (privilege : Privilege) (done : String) : Outcome :=
  match parts with
  | _ :: name :: token :: _ => s.withRoom lib peer [] name fun r => s.requireRoomOp peer id r <|
      s.grant lib w peer room privilege r token fun _ => .notice peer room (done ++ " in " ++ str r)
  | _ => s.answers (.notice peer [] ("usage: /" ++ cmd ++ " <room> <nick|hashprefix|hash>"))

def supportedModes : String := "supported modes: +m -m +i -i +k -k +t -t +n -n +p -p +r -r +o -o +v -v"

/-- `/mode` of an operator with a flag for a target. -/
def modeTarget (privilege : Privilege) (flag : String) (r : Rrc.Text) : Outcome :=
  match parts with
  | _ :: _ :: _ :: token :: _ => s.grant lib w peer room privilege r token fun target =>
    .broadcastNotice r ("mode for " ++ str r ++ " is now: " ++ flag ++ " " ++ str (target.hexPrefix 12))
  | _ => s.answers (.notice peer room "usage: /mode <room> (+o|-o|+v|-v) <nick|hashprefix|hash>")

/-- `/mode` of an operator with a flag for the room. -/
def modeRoom (flag r : Rrc.Text) : Outcome :=
  let on : Bool := flag.head? = some '+'
  match flag.dropWhile fun c => c = '+' ∨ c = '-' with
  | [ch] =>
    if byteLength [ch] ≠ 1 then s.answers (.notice peer room supportedModes)
    else if ch = 'k' ∧ on ∧ parts.length < 4 then s.answers (.notice peer room "usage: /mode <room> +k <key>")
    else
      let key := if ch = 'k' ∧ on then joinArgs lib.unicode (parts.drop 3) else []
      let (rooms, failure) := s.rooms.setFlag w.now r w.failure ch on key
      let s := { s with rooms }
      match failure with
      | some "unknown flag" => s.answers (.notice peer room supportedModes)
      | some message => s.answers (.notice peer room message)
      | none => s.answers (.broadcastNotice r ("mode for " ++ str r ++ " is now: " ++ s.rooms.modeString r))
  | _ => s.answers (.notice peer room supportedModes)

def cmdMode : Outcome :=
  match parts with
  | _ :: name :: flag :: _ => s.withRoom lib peer [] name fun r => s.requireRoomOp peer id r <|
      let flag := lib.toLower flag
      match str flag with
      | "+r" | "-r" => s.answers (.notice peer room "use /register or /unregister to change +r")
      | "+o" => s.modeTarget lib w peer room parts .op "+o" r
      | "-o" => s.modeTarget lib w peer room parts .deop "-o" r
      | "+v" => s.modeTarget lib w peer room parts .voice "+v" r
      | "-v" => s.modeTarget lib w peer room parts .devoice "-v" r
      | _ => s.modeRoom lib w peer room parts flag r
  | _ => s.answers (.notice peer [] ("usage: /mode <room> (+m|-m|+i|-i|+t|-t|+n|-n|+p|-p|+k|-k|+r|-r) [key] | " ++
      "/mode <room> (+o|-o|+v|-v) <nick|hashprefix|hash>"))

/-- `cmdBan` of `add`. -/
def banAdd (r : Rrc.Text) (target : ID) : Outcome :=
  let s := { s with rooms := (s.rooms.addBan w.now r w.failure target).1 }
  if s.hub.isMember lib.unicode target.1 r then
    ({ s with hub := (s.hub.removeFromRoom lib.unicode target.1 r).1 },
      [.error target.1 r ("banned from " ++ str r), .notice peer room ("ban added in " ++ str r)])
  else s.answers (.notice peer room ("ban added in " ++ str r))

def cmdBan : Outcome :=
  match parts with
  | _ :: name :: word :: rest => s.withRoom lib peer [] name fun r =>
    let op := str (lib.toLower word)
    let change (token : Rrc.Text) (next : ID → Outcome) : Outcome := s.requireRoomOp peer id r <|
      let (target, found) := s.resolve lib w token r
      if target = ID.zero then s.answers (.notice peer room (formatAmbiguous token found)) else next target
    match op, rest with
    | "list", _ =>
      let items := s.rooms.listBans r
      s.answers (.notice peer room
        (if items = [] then "no bans in " ++ str r else "bans in " ++ str r ++ ": " ++ listed items))
    | "add", token :: _ => change token fun target => s.banAdd lib w peer room r target
    | "del", token :: _ => change token fun target =>
      { s with rooms := (s.rooms.delBan w.now r w.failure target).1 }.answers
        (.notice peer room ("ban removed in " ++ str r))
    | "add", [] | "del", [] =>
      s.answers (.notice peer room ("usage: /ban " ++ str r ++ " " ++ op ++ " <nick|hashprefix|hash>"))
    | _, _ => s.answers (.notice peer room "usage: /ban <room> add|del|list [nick|hashprefix|hash]")
  | _ => s.answers (.notice peer [] "usage: /ban <room> add|del|list [nick|hashprefix|hash]")

/-- `cmdInvite` of `add`. -/
def inviteAdd (r token : Rrc.Text) : Outcome :=
  let (target, found) := s.resolve lib w token []
  if target = ID.zero then s.answers (.error peer r ("invite failed: " ++ formatAmbiguous token found))
  else
    let invitation := Reply.notice target.1 r ("You have been invited to join " ++ str r ++ "." ++
      if s.rooms.hasKey r then " This invite allows joining without the key (+k)." else "")
    if s.rooms.needsStoredInvite r then
      ({ s with rooms := (s.rooms.addInvite w.now r w.failure target s.cfg.roomInviteTimeoutS).1 },
        [invitation, .notice peer room ("invite added in " ++ str r ++ " (expires in " ++
          toString (Float64.toInt64 w.saturates s.cfg.roomInviteTimeoutS) ++ "s)")])
    else (s, [invitation, .notice peer room ("invite sent to " ++ str token ++ " for " ++ str r)])

/-- `cmdInvite` of `del`. -/
def inviteDel (r token : Rrc.Text) : Outcome :=
  let (target, found) := s.resolve lib w token []
  if target = ID.zero then s.answers (.notice peer room (formatAmbiguous token found))
  else
    { s with rooms := (s.rooms.delInvite w.now r w.failure target).1 }.answers
      (.notice peer room ("invite removed in " ++ str r))

def cmdInvite : Outcome :=
  match parts with
  | _ :: name :: word :: rest => s.withRoom lib peer [] name fun r => s.requireRoomOp peer id r <|
      let op := str (lib.toLower word)
      match op, rest with
      | "list", _ =>
        s.answers (.notice peer room ("invites in " ++ str r ++ ": " ++
          listed (s.rooms.listInvites w.now r w.saturates)))
      | "add", token :: _ => s.inviteAdd lib w peer room r token
      | "del", token :: _ => s.inviteDel lib w peer room r token
      | "add", [] | "del", [] =>
        s.answers (.notice peer room ("usage: /invite " ++ str r ++ " " ++ op ++ " <nick|hashprefix|hash>"))
      | _, _ => s.answers (.notice peer room "usage: /invite <room> add|del|list [nick|hashprefix|hash]")
  | _ => s.answers (.notice peer [] "usage: /invite <room> add|del|list [nick|hashprefix|hash]")

/-- The dispatch of `handleCommand` for an identity. -/
def command (cmd : Rrc.Text) : Outcome :=
  match str (lib.toLower cmd) with
  | "reload" => s.cmdReload lib w peer id
  | "stats" => s.cmdStats w peer id
  | "list" => s.cmdList peer
  | "who" | "names" => s.cmdWho lib w peer id room parts
  | "kick" => s.cmdKick lib w peer id room parts
  | "kline" => s.cmdKline lib w peer id parts
  | "register" => s.cmdRegister lib w peer id room parts
  | "unregister" => s.cmdUnregister lib w peer id room parts
  | "topic" => s.cmdTopic lib w peer id room parts
  | "op" => s.cmdPriv lib w peer id room parts "op" .op "op granted"
  | "deop" => s.cmdPriv lib w peer id room parts "deop" .deop "op removed"
  | "voice" => s.cmdPriv lib w peer id room parts "voice" .voice "voice granted"
  | "devoice" => s.cmdPriv lib w peer id room parts "devoice" .devoice "voice removed"
  | "mode" => s.cmdMode lib w peer id room parts
  | "ban" => s.cmdBan lib w peer id room parts
  | "invite" => s.cmdInvite lib w peer id room parts
  | _ => s.answers (.error peer room rrcdUnrecognized)

def handleCommand (text : Rrc.Text) : Outcome :=
  match splitCmd lib.unicode text, idFrom peer with
  | cmd :: args, some id => s.command lib w peer id room (cmd :: args) cmd
  | _, _ => (s, [])

def stringsTrim (text : Rrc.Text) : Rrc.Text :=
  let blank (r : Char) : Bool := r = ' ' ∨ r = '\t' ∨ r = '\n' ∨ r = '\r'
  ((text.dropWhile blank).reverse.dropWhile blank).reverse

/-- `Intercept`; nothing where the envelope is not a command. -/
def intercept (env : Envelope) : Option Outcome :=
  match env.body.bind asString with
  | none => none
  | some text =>
    let text := stringsTrim text
    if text.head? = some '/' then some (s.handleCommand lib w peer (env.room.getD []) text) else none

end Service

end ReticulumProtocols.Gorrcd
