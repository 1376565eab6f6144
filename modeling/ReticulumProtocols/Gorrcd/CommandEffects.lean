import ReticulumProtocols.Gorrcd.Commands

/-! What a slash command can do to the service, and with which privilege, said once. A command changes at most the room
that it names, and it names a room before it asks for the privilege in that room. -/

namespace ReticulumProtocols.Gorrcd
open Wire Cbor Lxmf Rrc

namespace Service
variable {lib : Library} {w : Outside} {s : Service} {peer : Bytes} {id : ID}

/-- The identity is operator of a room, or of the server. -/
def Operates (s : Service) (id : ID) (room : Text) : Prop := s.rooms.isOp room id (s.isTrusted id) = true

/-- The moves of an identity. -/
inductive Move (lib : Library) (w : Outside) (s : Service) (id : ID) : Service → Prop where
  | stay : Move lib w s id s
  /-- `/reload` and `/kline`. -/
  | manage {s' : Service} (trusted : s.isTrusted id = true)
      (hub : s'.hub = s.hub ∨ ∃ c a target, s'.hub = (s.hub.disconnect c a target).hub) : Move lib w s id s'
  /-- `/kick`, and `/ban` of a member. -/
  | expel {room name : Text} {target : ID} {rooms : RoomRegistry} (normal : lib.unicode.normalizeRoom name = room)
      (operates : s.Operates id room)
      (banned : rooms = s.rooms ∨ rooms = (s.rooms.addBan w.now room w.failure target).1) :
      Move lib w s id { s with rooms, hub := (s.hub.removeFromRoom lib.unicode target.1 room).1 }
  | mutate {room : Text} (operates : s.Operates id room) (fn : RoomState → RoomState) :
      Move lib w s id { s with rooms := (s.rooms.mutateSet w.now room w.failure fn).1 }
  | flag {room : Text} (operates : s.Operates id room) (flag : Char) (on : Bool) (key : Text) :
      Move lib w s id { s with rooms := (s.rooms.setFlag w.now room w.failure flag on key).1 }
  | topic {room : Text} (allowed : s.Operates id room ∨ s.rooms.topicOpsOnly room = false) (topic : Text) :
      Move lib w s id { s with rooms := s.rooms.setTopic w.now room topic }
  | register {room : Text} (founder : s.rooms.founder room = some id) :
      Move lib w s id { s with rooms := (s.rooms.register w.now room w.failure id).1 }
  | unregister {room : Text} (founder : s.rooms.founder room = some id) :
      Move lib w s id { s with rooms := (s.rooms.unregister room w.failure).1 }

theorem move_withRoom {told name : Text} {next : Text → Outcome}
    (rest : ∀ room, lib.unicode.normalizeRoom name = room → Move lib w s id (next room).1) :
    Move lib w s id (s.withRoom lib peer told name next).1 := by
  unfold withRoom
  split
  next => exact .stay
  next room found =>
    apply rest
    unfold normRoom at found
    dsimp only at found
    split at found
    next => cases found
    next =>
      split at found
      next => cases found
      next => exact Except.ok.inj found

theorem move_requireServerOp {next : Outcome} (rest : s.isTrusted id = true → Move lib w s id next.1) :
    Move lib w s id (s.requireServerOp peer id next).1 := by
  unfold requireServerOp
  split
  next trusted => exact rest trusted
  next => exact .stay

theorem move_requireRoomOp {room : Text} {next : Outcome} (rest : s.Operates id room → Move lib w s id next.1) :
    Move lib w s id (s.requireRoomOp peer id room next).1 := by
  unfold requireRoomOp
  split
  next operates => exact rest operates
  next => exact .stay

theorem hub_reload : (s.reload lib w peer).1.hub = s.hub := by
  unfold reload
  dsimp only
  repeat' split
  all_goals rfl

section
variable {room : Text} {parts : List Text}
variable {named token : Text} {privilege : Privilege}

theorem move_cmdList : Move lib w s id (s.cmdList peer).1 := by
  unfold cmdList
  dsimp only
  split
  next => exact .stay
  next => exact .stay

theorem move_cmdWho : Move lib w s id (s.cmdWho lib w peer id room parts).1 := by
  unfold cmdWho
  dsimp only
  split
  next => exact .stay
  next =>
    apply move_withRoom
    intro _ _
    split
    next => exact .stay
    next => exact .stay

theorem move_cmdKick : Move lib w s id (s.cmdKick lib w peer id room parts).1 := by
  unfold cmdKick
  split
  next =>
    apply move_withRoom
    intro named normal
    apply move_requireRoomOp
    intro operates
    dsimp only
    split
    next => exact .stay
    next =>
      split
      next => exact .stay
      next => exact .expel normal operates (.inl rfl)
  next => exact .stay

theorem move_klineAdd (trusted : s.isTrusted id = true) {token : Text} :
    Move lib w s id (s.klineAdd lib w peer token).1 := by
  unfold klineAdd
  dsimp only
  split
  next => exact .manage trusted (.inr ⟨_, _, _, rfl⟩)
  next =>
    split
    next => exact .stay
    next =>
      split
      next => exact .stay
      next => exact .manage trusted (.inl rfl)

theorem move_klineDel (trusted : s.isTrusted id = true) {token : Text} :
    Move lib w s id (s.klineDel lib peer token).1 := by
  unfold klineDel
  split
  next => exact .stay
  next =>
    split
    next => exact .manage trusted (.inl rfl)
    next => exact .stay

theorem move_cmdKline : Move lib w s id (s.cmdKline lib w peer id parts).1 := by
  unfold cmdKline
  apply move_requireServerOp
  intro trusted
  split
  next =>
    dsimp only
    split
    next => exact .stay
    next => exact move_klineAdd trusted
    next => exact move_klineDel trusted
    all_goals exact .stay
  next => exact .stay

theorem move_asFounder {verb : String} {name : Text} {next : Text → Outcome}
    (rest : ∀ named, s.rooms.founder named = some id → Move lib w s id (next named).1) :
    Move lib w s id (s.asFounder lib peer id room verb name next).1 := by
  unfold asFounder
  apply move_withRoom
  intro named _
  split
  next => exact .stay
  next =>
    split
    next => exact .stay
    next founder => exact rest named (not_not.1 founder)

theorem move_cmdRegister : Move lib w s id (s.cmdRegister lib w peer id room parts).1 := by
  unfold cmdRegister
  split
  next =>
    apply move_asFounder
    intro named founder
    split
    next => exact .stay
    next => exact .register founder
  next => exact .stay

theorem move_cmdUnregister : Move lib w s id (s.cmdUnregister lib w peer id room parts).1 := by
  unfold cmdUnregister
  split
  next =>
    apply move_asFounder
    intro named founder
    exact .unregister founder
  next => exact .stay

theorem move_cmdTopic : Move lib w s id (s.cmdTopic lib w peer id room parts).1 := by
  unfold cmdTopic
  split
  next =>
    apply move_withRoom
    intro _ _
    exact .stay
  next =>
    apply move_withRoom
    intro named _
    split
    next => exact .stay
    next allowed =>
      apply Move.topic
      rcases not_and_or.1 allowed with operates | unlocked
      · exact .inl (not_not.1 operates)
      · exact .inr (Bool.eq_false_iff.2 unlocked)
  next => exact .stay

theorem move_grant {told : ID → Reply} (operates : s.Operates id named) :
    Move lib w s id (s.grant lib w peer room privilege named token told).1 := by
  have applied (privilege : Privilege) (target : ID) : Move lib w s id (privilege.apply w s named target) := by
    cases privilege with
    | op | deop | voice | devoice => exact .mutate operates _
  unfold grant
  dsimp only
  split
  next => exact .stay
  next =>
    split
    next =>
      split
      next => exact .stay
      next => exact applied .deop _
    next => exact applied _ _

theorem move_cmdPriv {cmd done : String} :
    Move lib w s id (s.cmdPriv lib w peer id room parts cmd privilege done).1 := by
  unfold cmdPriv
  split
  next =>
    apply move_withRoom
    intro named _
    exact move_requireRoomOp move_grant
  next => exact .stay

theorem move_modeTarget {flag : String} {named : Text} (operates : s.Operates id named) :
    Move lib w s id (s.modeTarget lib w peer room parts privilege flag named).1 := by
  unfold modeTarget
  split
  next => exact move_grant operates
  next => exact .stay

theorem move_modeRoom {flag named : Text} (operates : s.Operates id named) :
    Move lib w s id (s.modeRoom lib w peer room parts flag named).1 := by
  unfold modeRoom
  dsimp only
  split
  next =>
    split
    next => exact .stay
    next =>
      split
      next => exact .stay
      next =>
        split
        all_goals exact .flag operates _ _ _
  next => exact .stay

theorem move_cmdMode : Move lib w s id (s.cmdMode lib w peer id room parts).1 := by
  unfold cmdMode
  split
  next =>
    apply move_withRoom
    intro named _
    apply move_requireRoomOp
    intro operates
    dsimp only
    split
    next => exact .stay
    next => exact .stay
    next => exact move_modeTarget operates
    next => exact move_modeTarget operates
    next => exact move_modeTarget operates
    next => exact move_modeTarget operates
    next => exact move_modeRoom operates
  next => exact .stay

theorem move_banAdd {name named : Text} {target : ID} (normal : lib.unicode.normalizeRoom name = named)
    (operates : s.Operates id named) : Move lib w s id (s.banAdd lib w peer room named target).1 := by
  unfold banAdd
  dsimp only
  split
  next => exact .expel normal operates (.inr rfl)
  next => exact .mutate operates _

theorem move_cmdBan : Move lib w s id (s.cmdBan lib w peer id room parts).1 := by
  unfold cmdBan
  split
  next =>
    apply move_withRoom
    intro named normal
    dsimp only
    split
    next => exact .stay
    next =>
      apply move_requireRoomOp
      intro operates
      split
      next => exact .stay
      next => exact move_banAdd normal operates
    next =>
      apply move_requireRoomOp
      intro operates
      split
      next => exact .stay
      next => exact .mutate operates _
    all_goals exact .stay
  next => exact .stay

theorem move_inviteAdd (operates : s.Operates id named) :
    Move lib w s id (s.inviteAdd lib w peer room named token).1 := by
  unfold inviteAdd
  dsimp only
  split
  next => exact .stay
  next =>
    split
    next => exact .mutate operates _
    next => exact .stay

theorem move_inviteDel (operates : s.Operates id named) :
    Move lib w s id (s.inviteDel lib w peer room named token).1 := by
  unfold inviteDel
  dsimp only
  split
  next => exact .stay
  next => exact .mutate operates _

theorem move_cmdInvite : Move lib w s id (s.cmdInvite lib w peer id room parts).1 := by
  unfold cmdInvite
  split
  next =>
    apply move_withRoom
    intro named _
    apply move_requireRoomOp
    intro operates
    dsimp only
    split
    next => exact .stay
    next => exact move_inviteAdd operates
    next => exact move_inviteDel operates
    all_goals exact .stay
  next => exact .stay

theorem move_command {cmd : Text} : Move lib w s id (s.command lib w peer id room parts cmd).1 := by
  unfold command
  split
  next => exact move_requireServerOp fun trusted => .manage trusted (.inl hub_reload)
  next => exact move_requireServerOp fun _ => .stay
  next => exact move_cmdList
  next => exact move_cmdWho
  next => exact move_cmdWho
  next => exact move_cmdKick
  next => exact move_cmdKline
  next => exact move_cmdRegister
  next => exact move_cmdUnregister
  next => exact move_cmdTopic
  next => exact move_cmdPriv
  next => exact move_cmdPriv
  next => exact move_cmdPriv
  next => exact move_cmdPriv
  next => exact move_cmdMode
  next => exact move_cmdBan
  next => exact move_cmdInvite
  next => exact .stay

end

end Service

end ReticulumProtocols.Gorrcd
