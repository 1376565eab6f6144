import ReticulumProtocols.Gorrcd.Daemon

/-! The rule of `AllowContent`, and what leaves a peer the right to post to a room: everything that the hub and the policy
do, except for what takes it out of the room, and for commands of those who have a say in the room. -/

namespace ReticulumProtocols.Gorrcd
open Wire Cbor Lxmf Index Rrc Concurrency

/-- A text that `Intercept` takes for a command. -/
def isCommand (env : Envelope) : Bool :=
  (env.body.bind asString).any fun text => decide ((Service.stringsTrim text).head? = some '/')

namespace RoomRegistry

/-- The room restricts the peer in nothing: it is not banned, and is an operator inside or the room has neither `+m` nor
`+n`. -/
structure Frees (r : RoomRegistry) (room : Text) (peer : ID) (isMember serverOp : Bool) : Prop where
  known : room ∈ r.rooms
  unbanned : peer ∉ (r.state room).bans
  plain : (isMember = true ∧ r.isOp room peer serverOp = true) ∨
    ((r.state room).moderated = false ∧ (r.state room).noOutsideMsgs = false)

instance (r : RoomRegistry) (room : Text) (peer : ID) (isMember serverOp : Bool) :
    Decidable (r.Frees room peer isMember serverOp) :=
  decidable_of_iff (room ∈ r.rooms ∧ peer ∉ (r.state room).bans ∧
    ((isMember = true ∧ r.isOp room peer serverOp = true) ∨
      ((r.state room).moderated = false ∧ (r.state room).noOutsideMsgs = false)))
    ⟨fun ⟨known, unbanned, plain⟩ => ⟨known, unbanned, plain⟩, fun frees => ⟨frees.known, frees.unbanned, frees.plain⟩⟩

end RoomRegistry

namespace RoomState
variable {st st' st'' : RoomState}

/-- Nobody is silenced: the bans and modes are the same, and whoever runs the room or is voiced still does or is. -/
structure Keeps (st st' : RoomState) : Prop where
  bans : st'.bans = st.bans
  noOutsideMsgs : st'.noOutsideMsgs = st.noOutsideMsgs
  moderated : st'.moderated = st.moderated
  voiced : st'.voiced = st.voiced
  runs : ∀ id, st.Runs id → st'.Runs id

theorem Keeps.refl (st : RoomState) : st.Keeps st := ⟨rfl, rfl, rfl, rfl, fun _ runs => runs⟩

theorem Keeps.trans (first : st.Keeps st') (second : st'.Keeps st'') : st.Keeps st'' where
  bans := second.bans.trans first.bans
  noOutsideMsgs := second.noOutsideMsgs.trans first.noOutsideMsgs
  moderated := second.moderated.trans first.moderated
  voiced := second.voiced.trans first.voiced
  runs id runs := second.runs id (first.runs id runs)

theorem keeps_claim (founder : ID) : st.Keeps (st.claim founder) := by
  unfold claim
  split
  next founderless =>
    refine ⟨rfl, rfl, rfl, rfl, fun id runs => .inr ?_⟩
    have op : id ∈ st.ops := runs.resolve_left fun same => nomatch founderless.symm.trans same
    exact (AList.mem_insert _).2 (.inr op)
  next => exact .refl st

end RoomState

namespace RoomRegistry
variable {r r' r'' : RoomRegistry} {now : Int} {room name : Text} {peer : ID} {isMember serverOp : Bool}

/-- The rule of `AllowContent`. -/
structure Permits (r : RoomRegistry) (room : Text) (peer : ID) (isMember serverOp : Bool) : Prop where
  known : room ∈ r.rooms ∨ isMember = true
  unbanned : peer ∉ (r.state room).bans
  inside : (r.state room).noOutsideMsgs = true → isMember = true
  voiced : (r.state room).moderated = true → r.isVoiced room peer serverOp = true

theorem allowContent_eq_none :
    r.allowContent room peer isMember serverOp = none ↔ r.Permits room peer isMember serverOp := by
  unfold allowContent
  dsimp only
  split
  next unknown => exact iff_of_false (by simp) fun permits => permits.known.elim unknown.1 unknown.2
  next known =>
    split
    next banned => exact iff_of_false (by simp) fun permits => permits.unbanned banned
    next unbanned =>
      split
      next outside => exact iff_of_false (by simp) fun permits => outside.1 (permits.inside outside.2)
      next inside =>
        split
        next silent => exact iff_of_false (by simp) fun permits => silent.2 (permits.voiced silent.1)
        next voiced =>
          refine iff_of_true rfl ⟨?_, unbanned, fun closed => ?_, fun moderated => ?_⟩
          · exact or_iff_not_imp_left.2 fun unknown => not_not.1 fun outsider => known ⟨unknown, outsider⟩
          · exact not_not.1 fun outsider => inside ⟨outsider, closed⟩
          · exact not_not.1 fun silent => voiced ⟨moderated, silent⟩

theorem mem_put (st : RoomState) : name ∈ (r.put room st).rooms ↔ name = room ∨ name ∈ r.rooms := AList.mem_insert _

/-- No room is lost and nobody is silenced in any. -/
structure Keeps (r r' : RoomRegistry) : Prop where
  known : ∀ name ∈ r.rooms, name ∈ r'.rooms
  state : ∀ name, (r.state name).Keeps (r'.state name)

theorem Keeps.refl (r : RoomRegistry) : r.Keeps r := ⟨fun _ known => known, fun name => .refl (r.state name)⟩

theorem Keeps.trans (first : r.Keeps r') (second : r'.Keeps r'') : r.Keeps r'' where
  known name known := second.known name (first.known name known)
  state name := (first.state name).trans (second.state name)

theorem keeps_put {st : RoomState} (kept : (r.state room).Keeps st) : r.Keeps (r.put room st) := by
  refine ⟨fun name known => (mem_put st).2 (.inr known), fun name => ?_⟩
  rcases eq_or_ne name room with rfl | apart
  · rw [state_put]
    exact kept
  · rw [state_put_ne apart]
    exact .refl _

theorem keeps_ensureLocked (founder : Option ID) : r.Keeps (r.ensureLocked room founder) := by
  unfold ensureLocked
  split
  next absent =>
    apply keeps_put
    rw [state_of_absent absent]
    cases founder with
    | none => exact .refl {}
    | some founder => exact RoomState.keeps_claim founder
  next st found =>
    split
    next founder =>
      split
      next =>
        apply keeps_put
        rw [state_of_found found]
        exact RoomState.keeps_claim founder
      next => exact .refl r
    next => exact .refl r

theorem keeps_touch : r.Keeps (r.touch now room) :=
  (keeps_ensureLocked none).trans (keeps_put ⟨rfl, rfl, rfl, rfl, fun _ runs => runs⟩)

theorem keeps_consumeInvite : r.Keeps (r.consumeInvite room peer) := by
  unfold consumeInvite
  split
  next => exact .refl r
  next st found =>
    apply keeps_put
    rw [state_of_found found]
    exact ⟨rfl, rfl, rfl, rfl, fun _ runs => runs⟩

theorem lookup_pruneUnused {afterS : Float} {occupied : List Text} {started : Int}
    (used : ¬ ((r.state room).registered = true ∧ room ∉ occupied)) :
    (r.pruneUnused now afterS occupied started).rooms.lookup room = r.rooms.lookup room := by
  refine (lookup_foldl_erase _ _ _).trans (if_neg fun gone => ?_)
  have old := (List.mem_filter.1 gone).2
  unfold stale at old
  simp only [Bool.and_eq_true, decide_eq_true_eq] at old
  exact used old.1

end RoomRegistry

namespace Service
variable {lib : Library} {w : Outside} {s s' s'' : Service} {peer : Bytes} {room : Text} {id : ID}
variable {u : Unicode}

def Permits (lib : Library) (s : Service) (peer : Bytes) (room : Text) : Prop :=
  ∃ id ∈ idFrom peer, s.rooms.Permits room id (s.hub.isMember lib.unicode peer room) (s.isTrusted id)

theorem permits_iff {env : Envelope} :
    s.Permits lib peer (lib.unicode.normalizeRoom (env.room.getD [])) ↔ s.allowContent lib peer env = none := by
  unfold Permits allowContent
  dsimp only
  cases own : idFrom peer with
  | none => simp
  | some id =>
    rw [RoomRegistry.allowContent_eq_none]
    exact ⟨fun ⟨_, same, permits⟩ => Option.some.inj same ▸ permits, fun permits => ⟨id, rfl, permits⟩⟩

/-- A peer that may post to a room still may. -/
structure Retains (u : Unicode) (peer : Bytes) (room : Text) (s s' : Service) : Prop where
  trust : s'.trust = s.trust
  known : room ∈ s.rooms.rooms → room ∈ s'.rooms.rooms
  state : (s.rooms.state room).Keeps (s'.rooms.state room)
  member : s.hub.isMember u peer room = true → s'.hub.isMember u peer room = true

theorem Retains.refl (u : Unicode) (peer : Bytes) (room : Text) (s : Service) : s.Retains u peer room s :=
  ⟨rfl, fun known => known, .refl _, fun member => member⟩

theorem Retains.trans (first : s.Retains u peer room s') (second : s'.Retains u peer room s'') :
    s.Retains u peer room s'' where
  trust := second.trust.trans first.trust
  known known := second.known (first.known known)
  state := first.state.trans second.state
  member member := second.member (first.member member)

theorem Retains.of_rooms {rooms : RoomRegistry} (keeps : s.rooms.Keeps rooms) :
    s.Retains u peer room { s with rooms } :=
  ⟨rfl, keeps.known room, keeps.state room, fun member => member⟩

theorem Retains.permits (retains : s.Retains lib.unicode peer room s') (permits : s.Permits lib peer room) :
    s'.Permits lib peer room := by
  obtain ⟨id, own, permits⟩ := permits
  have trusted : s'.isTrusted id = s.isTrusted id := by
    unfold isTrusted
    rw [retains.trust]
  refine ⟨id, own, ?_, ?_, fun closed => ?_, fun moderated => ?_⟩
  · exact permits.known.imp retains.known retains.member
  · rw [retains.state.bans]
    exact permits.unbanned
  · rw [retains.state.noOutsideMsgs] at closed
    exact retains.member (permits.inside closed)
  · rw [retains.state.moderated] at moderated
    have voiced := permits.voiced moderated
    unfold RoomRegistry.isVoiced RoomRegistry.isOp at voiced ⊢
    rw [trusted, retains.state.voiced]
    simp only [Bool.or_eq_true, decide_eq_true_eq] at voiced ⊢
    exact voiced.imp_left fun op => op.imp_right (retains.state.runs id)

theorem hub_allowJoin {hash : Bytes} {name : Text} {body : Option Value} :
    (s.allowJoin w hash name body).1.hub = s.hub := by
  unfold allowJoin
  split
  next => rfl
  next => rfl

theorem retains_allowJoin {hash : Bytes} {name : Text} {body : Option Value} :
    s.Retains u peer room (s.allowJoin w hash name body).1 := by
  unfold allowJoin
  split
  next => exact .refl u peer room s
  next id _ => exact .of_rooms (RoomRegistry.keeps_ensureLocked (some id))

theorem hub_settle {p : Nat} {before : Hub} {task : Task} : (s.settle lib w p before task).1.hub = s.hub := by
  unfold settle
  split
  next =>
    split
    next => rfl
    next => rfl
  next =>
    dsimp only
    split
    next => rfl
    next => rfl
  next => rfl

theorem retains_settle {p : Nat} {before : Hub} {task : Task} :
    s.Retains u peer room (s.settle lib w p before task).1 := by
  unfold settle
  split
  next =>
    split
    next => exact .of_rooms (((RoomRegistry.keeps_ensureLocked _).trans RoomRegistry.keeps_consumeInvite).trans
      RoomRegistry.keeps_touch)
    next => exact .refl u peer room s
  next =>
    dsimp only
    split
    next => exact .of_rooms RoomRegistry.keeps_touch
    next => exact .refl u peer room s
  next => exact .refl u peer room s

theorem operates_iff : s.Operates id room ↔ id ∈ s.trust.trusted ∨ (s.rooms.state room).Runs id := by
  unfold Operates RoomRegistry.isOp isTrusted
  rw [Bool.or_eq_true, decide_eq_true_iff, decide_eq_true_iff]

theorem Lowly.of_not_operates (powerless : ¬ s.Operates id room) : s.Lowly id room := by
  rw [operates_iff, not_or] at powerless
  exact ⟨powerless.1, powerless.2⟩

end Service

namespace RoomRegistry
variable {r : RoomRegistry} {now : Int} {room name : Text}

theorem mem_put_ensureLocked (known : name ∈ r.rooms) (founder : Option ID) (st : RoomState) :
    name ∈ ((r.ensureLocked room founder).put room st).rooms :=
  (mem_put st).2 (.inr ((keeps_ensureLocked founder).known name known))

theorem mem_setFlag (known : name ∈ r.rooms) (failure : Option String) (flag : Char) (on : Bool) (key : Text) :
    name ∈ (r.setFlag now room failure flag on key).1.rooms := by
  unfold setFlag
  dsimp only
  split
  next => exact (keeps_ensureLocked none).known name known
  next => exact mem_put_ensureLocked known none _

theorem mem_unregister (known : name ∈ r.rooms) (failure : Option String) :
    name ∈ (r.unregister room failure).1.rooms := by
  unfold unregister
  dsimp only
  split
  next => exact known
  next => exact (mem_put _).2 (.inr known)

end RoomRegistry

namespace Service
variable {lib : Library} {w : Outside} {s s' : Service} {peer : Bytes} {room : Text} {id : ID}

/-- Only who manages the server can make the registry forget a room. -/
theorem Move.known (move : Move lib w s id s') (untrusted : s.isTrusted id = false) (known : room ∈ s.rooms.rooms) :
    room ∈ s'.rooms.rooms := by
  cases move with
  | stay => exact known
  | manage trusted =>
    rw [untrusted] at trusted
    cases trusted
  | expel _ _ banned =>
    rcases banned with same | banned
    · rw [same]
      exact known
    · rw [banned]
      exact RoomRegistry.mem_put_ensureLocked known none _
  | mutate | topic => exact RoomRegistry.mem_put_ensureLocked known none _
  | flag _ flag on key => exact RoomRegistry.mem_setFlag known w.failure flag on key
  | register => exact RoomRegistry.mem_put_ensureLocked known (some id) _
  | unregister => exact RoomRegistry.mem_unregister known w.failure

theorem Move.hub (move : Move lib w s id s') :
    s'.hub = s.hub ∨ (∃ target named, s'.hub = (s.hub.removeFromRoom lib.unicode target named).1) ∨
      (s.isTrusted id = true ∧ ∃ c a target, s'.hub = (s.hub.disconnect c a target).hub) := by
  cases move with
  | manage trusted hub => exact hub.imp_right fun disconnects => .inr ⟨trusted, disconnects⟩
  | expel => exact .inr (.inl ⟨_, _, rfl⟩)
  | stay | mutate | flag | topic | register | unregister => exact .inl rfl

theorem peers_removeFromRoom {u : Unicode} {h : Hub} {target : Bytes} {named : Text} :
    (h.removeFromRoom u target named).1.peers = h.peers := by
  unfold Hub.removeFromRoom
  split
  next => rfl
  next =>
    split
    next => rfl
    next => rfl

/-- A command of an identity without a say in a room silences nobody there. -/
theorem Move.retains (move : Move lib w s id s') (lawful : lib.unicode.Lawful)
    (normal : lib.unicode.normalizeRoom room = room) (low : s.Lowly id room) :
    s.Retains lib.unicode peer room s' := by
  have contained := move.contained lawful low
  have peers : s'.hub.peers = s.hub.peers := by
    rcases move.hub with same | ⟨target, named, hub⟩ | ⟨trusted, _⟩
    · rw [same]
    · rw [hub]
      exact peers_removeFromRoom
    · rw [low.isTrusted] at trusted
      cases trusted
  refine ⟨contained.trust, move.known low.isTrusted, ?_, fun member => ?_⟩
  · rw [contained.state]
    exact ⟨rfl, rfl, rfl, rfl, fun _ runs => runs⟩
  · rw [Hub.isMember_iff, normal] at member ⊢
    obtain ⟨q, found, listed⟩ := member
    exact ⟨q, peers ▸ found, (contained.lists q).2 listed⟩

theorem Move.sane {threads : List Thread} (move : Move lib w s id s')
    (sane : HubMachine.Sane { hub := s.hub, threads }) : HubMachine.Sane { hub := s'.hub, threads } := by
  rcases move.hub with same | ⟨target, named, hub⟩ | ⟨_, c, a, target, hub⟩
  · rw [same]
    exact sane
  · rw [hub]
    have stepped : HubMachine.step (s.config lib) { hub := s.hub, threads } (.removeFromRoom target named) =
        some { hub := (s.hub.removeFromRoom lib.unicode target named).1, threads } := rfl
    exact sane.step (HubMachine.stepped_of_step stepped)
  · rw [hub]
    exact sane.disconnect c a target

theorem Move.hash (move : Move lib w s id s') {q : Nat} (ready : (s.hub.records q).ready = true) :
    (s'.hub.records q).peerHash = (s.hub.records q).peerHash := by
  rcases move.hub with same | ⟨target, named, hub⟩ | ⟨_, c, a, target, hub⟩
  · rw [same]
  · rw [hub]
    unfold Hub.removeFromRoom
    split
    next => rfl
    next =>
      split
      next => exact Hub.hash_leave _ _ q
      next => rfl
  · rw [hub]
    exact Hub.hash_disconnect ready

/-- What `Intercept` takes is a command, and comes from an identity or does nothing. -/
theorem intercept_cases {env : Envelope} {outcome : Outcome} (taken : s.intercept lib w peer env = some outcome) :
    isCommand env = true ∧ (outcome.1 = s ∨ ∃ id, idFrom peer = some id ∧ Move lib w s id outcome.1) := by
  unfold intercept at taken
  split at taken
  next => cases taken
  next text body =>
    dsimp only at taken
    split at taken
    next slash =>
      cases taken
      refine ⟨?_, ?_⟩
      · unfold isCommand
        rw [body]
        exact decide_eq_true slash
      · unfold handleCommand
        split
        next id _ own => exact .inr ⟨id, own, move_command⟩
        next => exact .inl rfl
    next => cases taken

end Service

end ReticulumProtocols.Gorrcd
