import ReticulumProtocols.Gorrcd.CommandEffects
import ReticulumProtocols.Gorrcd.Reload
import ReticulumProtocols.Rrc.Names

/-! What the slash commands of a peer without privileges can reach. -/

namespace ReticulumProtocols.Gorrcd
open Wire Cbor Lxmf Index Rrc AList

namespace RoomRegistry
variable {r : RoomRegistry} {now : Int} {room other : Text} {failure : Option String}

theorem state_of_found {st : RoomState} (found : r.rooms.lookup room = some st) : r.state room = st := by
  unfold state
  rw [found]
  rfl

theorem state_of_absent (absent : r.rooms.lookup room = none) : r.state room = {} := by
  unfold state
  rw [absent]
  rfl

theorem state_put (st : RoomState) : (r.put room st).state room = st := state_of_found (lookup_insert _)

theorem state_put_ne (apart : other ≠ room) (st : RoomState) : (r.put room st).state other = r.state other := by
  unfold state put
  rw [lookup_insert_ne apart]

theorem state_ensureLocked_ne (apart : other ≠ room) (founder : Option ID) :
    (r.ensureLocked room founder).state other = r.state other := by
  unfold ensureLocked
  split
  next => exact state_put_ne apart _
  next =>
    split
    next =>
      split
      next => exact state_put_ne apart _
      next => rfl
    next => rfl

/-- To make a room without a founder is to change nothing that can be seen. -/
theorem state_ensureLocked_none : (r.ensureLocked room none).state other = r.state other := by
  unfold ensureLocked
  split
  next absent =>
    rcases eq_or_ne other room with rfl | apart
    · rw [state_put, state_of_absent absent]
      rfl
    · exact state_put_ne apart _
  next => rfl

theorem state_changed_ne (apart : other ≠ room) (st : RoomState) :
    (r.changed now room failure st).1.state other = r.state other :=
  state_put_ne apart _

theorem state_mutateSet_ne (apart : other ≠ room) (fn : RoomState → RoomState) :
    (r.mutateSet now room failure fn).1.state other = r.state other :=
  (state_changed_ne apart _).trans state_ensureLocked_none

theorem state_setFlag_ne (apart : other ≠ room) (flag : Char) (on : Bool) (key : Text) :
    (r.setFlag now room failure flag on key).1.state other = r.state other := by
  unfold setFlag
  dsimp only
  split
  next => exact state_ensureLocked_none
  next => exact (state_changed_ne apart _).trans state_ensureLocked_none

theorem state_register_ne (apart : other ≠ room) (founder : ID) :
    (r.register now room failure founder).1.state other = r.state other :=
  (state_put_ne apart _).trans (state_ensureLocked_ne apart _)

theorem state_unregister_ne (apart : other ≠ room) : (r.unregister room failure).1.state other = r.state other := by
  unfold unregister
  dsimp only
  split
  next => rfl
  next => exact state_put_ne apart _

theorem state_setTopic (topic : Text) :
    (r.setTopic now room topic).state room = { r.state room with topic, lastUsed := Float64.ofInt now } := by
  unfold setTopic
  rw [state_put, state_ensureLocked_none]

theorem state_setTopic_ne (apart : other ≠ room) (topic : Text) :
    (r.setTopic now room topic).state other = r.state other :=
  (state_put_ne apart _).trans state_ensureLocked_none

end RoomRegistry

namespace Service
variable {lib : Library} {w : Outside} {s s' : Service} {peer : Bytes} {id : ID} {r : Text}

/-- What may change when someone without privileges in room `r` runs a command: of the room the topic, unless it is
locked, and the time of last use; nothing of who is in it, and nothing of the lists of identities. -/
structure Contained (r : Text) (s s' : Service) : Prop where
  state : s'.rooms.state r =
    { s.rooms.state r with topic := (s'.rooms.state r).topic, lastUsed := (s'.rooms.state r).lastUsed }
  locked : (s.rooms.state r).topicOpsOnly = true → (s'.rooms.state r).topic = (s.rooms.state r).topic
  members : ∀ key, s'.hub.rooms.Holds r key ↔ s.hub.rooms.Holds r key
  lists : ∀ q, r ∈ (s'.hub.records q).rooms ↔ r ∈ (s.hub.records q).rooms
  trust : s'.trust = s.trust

theorem Contained.refl (r : Text) (s : Service) : s.Contained r s :=
  ⟨rfl, fun _ => rfl, fun _ => Iff.rfl, fun _ => Iff.rfl, rfl⟩

theorem Contained.elsewhere {rooms : RoomRegistry} (same : rooms.state r = s.rooms.state r) :
    s.Contained r { s with rooms } := by
  refine ⟨?_, fun _ => ?_, fun _ => Iff.rfl, fun _ => Iff.rfl, rfl⟩
  · dsimp only
    rw [same]
  · dsimp only
    rw [same]

theorem Contained.removeFromRoom {u : Unicode} {target : Bytes} {room : Text} (normal : u.normalizeRoom room = room)
    (apart : r ≠ room) : s.Contained r { s with hub := (s.hub.removeFromRoom u target room).1 } := by
  unfold Hub.removeFromRoom
  rw [normal]
  split
  next => exact .refl r s
  next p _ =>
    split
    next =>
      refine ⟨rfl, fun _ => rfl, fun key => ?_, fun q => ?_, rfl⟩
      · exact SetIndex.holds_remove.trans ⟨fun both => both.1, fun holds => ⟨holds, fun same => apart same.1⟩⟩
      · dsimp only
        rw [Hub.records_leave]
        rcases eq_or_ne q p with rfl | other
        · rw [Hub.records_update, mem_erase]
          exact and_iff_right apart
        · rw [Hub.records_update_ne other]
    next => exact .refl r s

/-- The peer has no say in room `r`. -/
structure Lowly (s : Service) (id : ID) (r : Text) : Prop where
  untrusted : id ∉ s.trust.trusted
  powerless : ¬ (s.rooms.state r).Runs id

theorem Lowly.isTrusted (low : s.Lowly id r) : s.isTrusted id = false := decide_eq_false low.untrusted

theorem Lowly.isOp (low : s.Lowly id r) : s.rooms.isOp r id (s.isTrusted id) = false := by
  unfold RoomRegistry.isOp
  rw [low.isTrusted, Bool.false_or]
  exact decide_eq_false low.powerless

theorem Lowly.apart (low : s.Lowly id r) {room : Text} (operates : s.Operates id room) : r ≠ room := by
  rintro rfl
  unfold Operates at operates
  rw [low.isOp] at operates
  cases operates

theorem Lowly.ne_of_founder (low : s.Lowly id r) {room : Text} (founder : s.rooms.founder room = some id) :
    r ≠ room := by
  rintro rfl
  exact low.powerless (.inl founder)

/-- The one command that reaches the room itself. -/
theorem Contained.setTopic (open_ : (s.rooms.state r).topicOpsOnly = false) (topic : Text) :
    s.Contained r { s with rooms := s.rooms.setTopic w.now r topic } := by
  have state : (s.rooms.setTopic w.now r topic).state r =
      { s.rooms.state r with topic, lastUsed := Float64.ofInt w.now } := RoomRegistry.state_setTopic topic
  refine ⟨?_, fun locked => ?_, fun _ => Iff.rfl, fun _ => Iff.rfl, rfl⟩
  · dsimp only
    rw [state]
  · rw [open_] at locked
    cases locked

theorem Contained.trans {s'' : Service} (first : s.Contained r s') (second : s'.Contained r s'') :
    s.Contained r s'' := by
  refine ⟨?_, fun locked => ?_, fun key => ?_, fun q => ?_, second.trust.trans first.trust⟩
  · rw [second.state, first.state]
  · have locked' : (s'.rooms.state r).topicOpsOnly = true := by
      rw [first.state]
      exact locked
    exact (second.locked locked').trans (first.locked locked)
  · exact (second.members key).trans (first.members key)
  · exact (second.lists q).trans (first.lists q)

theorem Move.contained (move : Move lib w s id s') (lawful : lib.unicode.Lawful) (low : s.Lowly id r) :
    s.Contained r s' := by
  cases move with
  | stay => exact .refl r s
  | manage trusted =>
    rw [low.isTrusted] at trusted
    cases trusted
  | @expel room name target rooms normal operates banned =>
    have apart := low.apart operates
    have listed : s.Contained r { s with rooms } := by
      rcases banned with same | banned
      · rw [same]
        exact .refl r s
      · rw [banned]
        exact .elsewhere (RoomRegistry.state_mutateSet_ne apart _)
    apply listed.trans
    apply Contained.removeFromRoom _ apart
    rw [← normal]
    exact lawful.normalizeRoom name
  | mutate operates fn => exact .elsewhere (RoomRegistry.state_mutateSet_ne (low.apart operates) fn)
  | flag operates flag on key => exact .elsewhere (RoomRegistry.state_setFlag_ne (low.apart operates) flag on key)
  | @topic room allowed topic =>
    rcases eq_or_ne r room with rfl | apart
    · exact .setTopic (allowed.resolve_left fun operates => low.apart operates rfl) topic
    · exact .elsewhere (RoomRegistry.state_setTopic_ne apart topic)
  | register founder => exact .elsewhere (RoomRegistry.state_register_ne (low.ne_of_founder founder) id)
  | unregister founder => exact .elsewhere (RoomRegistry.state_unregister_ne (low.ne_of_founder founder))

end Service

/-- Whatever a peer without privileges in a room sends as a command, of the room it changes at most the topic, if that
is not locked, and the time of last use; the members of the room and the lists of identities stay as they are. -/
theorem handleCommand_contained {lib : Library} (lawful : lib.unicode.Lawful) (w : Outside) (s : Service) (peer : Bytes)
    (r : Text) (low : ∀ id, idFrom peer = some id → s.Lowly id r) (room text : Text) :
    s.Contained r (s.handleCommand lib w peer room text).1 := by
  unfold Service.handleCommand
  split
  next id _ own => exact Service.move_command.contained lawful (low id own)
  next => exact .refl r s

def someID : ID := ⟨someHash, rfl⟩

def otherID : ID := ⟨List.replicate identityLength 8, rfl⟩

/-- A room of which another identity is the founder. -/
def foundedService : Service :=
  { plainService with rooms := ({} : RoomRegistry).ensureLocked ['a'] (some otherID) }

def plainOutside : Outside := { disk := registryless.disk asciiLibrary 0 }

theorem handleCommand_contained_topic :
    foundedService.Contained ['a']
        (foundedService.handleCommand asciiLibrary plainOutside someHash [] "/topic a hi".toList).1 ∧
      ((foundedService.handleCommand asciiLibrary plainOutside someHash [] "/topic a hi".toList).1.rooms.state
        ['a']).topic = ['h', 'i'] := by
  have low : ∀ id, idFrom someHash = some id → foundedService.Lowly id ['a'] := by
    intro id own
    have same : id = someID := Option.some.inj (own.symm.trans (idFrom_val someID))
    rw [same]
    exact ⟨by decide, by decide⟩
  exact ⟨handleCommand_contained asciiHub_lawful plainOutside foundedService someHash ['a'] low [] "/topic a hi".toList,
    by decide +kernel⟩

end ReticulumProtocols.Gorrcd
