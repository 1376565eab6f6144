import ReticulumProtocols.Gorrcd.Privilege

/-! Who may join a room, and what a JOIN that is refused leaves behind. `AllowJoin` makes the room or claims it for the
peer before it looks at the rule, so that in a room without a founder every peer passes as the founder, and the claim
outlives a refusal. -/

namespace ReticulumProtocols.Gorrcd
open Wire Cbor Lxmf Index Rrc List AList

def suppliedKey (body : Option Value) : Text := (body.bind asString).getD []

namespace RoomState
variable (st : RoomState) (now : Int) (peer : ID) (serverOp : Bool) (body : Option Value)

/-- Operator of the server or the room, founder, or holder of an invite. -/
def Favours : Prop := serverOp = true ∨ st.Runs peer ∨ st.Invites now peer

instance : Decidable (st.Favours now peer serverOp) := inferInstanceAs (Decidable (_ ∨ _ ∨ _))

/-- The access rule. -/
structure Admits : Prop where
  unbanned : peer ∉ st.bans
  invited : st.inviteOnly = true → st.Favours now peer serverOp
  keyed : st.key ≠ [] → st.Favours now peer serverOp ∨ suppliedKey body = st.key

variable {st now peer serverOp body}

theorem Admits.of_favours (unbanned : peer ∉ st.bans) (favours : st.Favours now peer serverOp) :
    st.Admits now peer serverOp body :=
  ⟨unbanned, fun _ => favours, fun _ => .inl favours⟩

/-- The rule, with what the room asks of the peers it does not favour. -/
theorem admits_iff : st.Admits now peer serverOp body ↔ peer ∉ st.bans ∧ (st.Favours now peer serverOp ∨
    (st.inviteOnly = false ∧ (st.key = [] ∨ suppliedKey body = st.key))) := by
  constructor
  · intro admits
    refine ⟨admits.unbanned, or_iff_not_imp_left.2 fun plain => ⟨?_, or_iff_not_imp_left.2 fun needed => ?_⟩⟩
    · exact Bool.eq_false_iff.2 fun closed => plain (admits.invited closed)
    · exact (admits.keyed needed).resolve_left plain
  · rintro ⟨unbanned, favours | ⟨open_, keyed⟩⟩
    · exact .of_favours unbanned favours
    · refine ⟨unbanned, fun closed => ?_, fun needed => .inr (keyed.resolve_left needed)⟩
      rw [open_] at closed
      cases closed

theorem claim_of_founded (founded : st.founder ≠ none) : st.claim peer = st := if_neg founded

theorem favours_claim (founderless : st.founder = none) : (st.claim peer).Favours now peer serverOp := by
  refine .inr (.inl (.inl ?_))
  unfold claim
  rw [if_pos founderless]

theorem bans_claim : (st.claim peer).bans = st.bans := by
  unfold claim
  split
  next => rfl
  next => rfl

end RoomState

namespace RoomRegistry
variable {r : RoomRegistry} {now : Int} {room : Text} {peer : ID} {body : Option Value} {serverOp : Bool}

/-- The access rule for a room of the registry; a room that does not exist is open. -/
def Admits (r : RoomRegistry) (now : Int) (room : Text) (peer : ID) (body : Option Value) (serverOp : Bool) : Prop :=
  ∀ st ∈ r.rooms.lookup room, st.Admits now peer serverOp body

/-- `AllowJoin` applies the access rule to the room as it made it. -/
theorem allowJoin_eq_none : (r.allowJoin now room peer body serverOp).2 = none ↔
    ((r.ensureLocked room (some peer)).state room).Admits now peer serverOp body := by
  unfold allowJoin
  dsimp only
  generalize (r.ensureLocked room (some peer)).state room = st
  have favours : ¬ st.Favours now peer serverOp ↔
      ¬ (serverOp || decide (st.Runs peer)) = true ∧ ¬ st.Invites now peer := by
    unfold RoomState.Favours
    rw [Bool.or_eq_true, decide_eq_true_iff, ← or_assoc, not_or]
  split
  next banned => exact iff_of_false (by simp) fun admits => admits.unbanned banned
  next unbanned =>
    split
    next closed => exact iff_of_false (by simp) fun admits => favours.2 closed.2 (admits.invited closed.1)
    next invited =>
      split
      next bad =>
        obtain ⟨needed, plain, uninvited, wrong⟩ := bad
        refine iff_of_false (by simp) fun admits => ?_
        exact (admits.keyed needed).elim (favours.2 ⟨plain, uninvited⟩) wrong
      next keyed =>
        refine iff_of_true rfl ⟨unbanned, fun closed => ?_, fun needed => ?_⟩
        · by_contra plain
          exact invited ⟨closed, favours.1 plain⟩
        · by_contra neither
          obtain ⟨plain, wrong⟩ := not_or.1 neither
          exact keyed ⟨needed, (favours.1 plain).1, (favours.1 plain).2, wrong⟩

theorem state_ensureLocked_of_absent (absent : r.rooms.lookup room = none) :
    (r.ensureLocked room (some peer)).state room = RoomState.claim {} peer := by
  unfold ensureLocked
  rw [absent]
  exact state_put _

theorem state_ensureLocked_of_found {st : RoomState} (found : r.rooms.lookup room = some st) :
    (r.ensureLocked room (some peer)).state room = st.claim peer := by
  unfold ensureLocked
  rw [found]
  dsimp only
  split
  next => exact state_put _
  next founded =>
    rw [RoomState.claim_of_founded founded]
    exact state_of_found found

/-- A room without a founder asks nothing of the peer that it does not meet anyway: it is banned, or an operator or
invited, or the room is open to it. -/
def Unguarded (r : RoomRegistry) (now : Int) (room : Text) (peer : ID) (body : Option Value) (serverOp : Bool) : Prop :=
  ∀ st ∈ r.rooms.lookup room, st.founder = none →
    peer ∈ st.bans ∨ st.Favours now peer serverOp ∨
      (st.inviteOnly = false ∧ (st.key = [] ∨ suppliedKey body = st.key))

theorem allowJoin_iff_admits_iff : ((r.allowJoin now room peer body serverOp).2 = none ↔
    r.Admits now room peer body serverOp) ↔ r.Unguarded now room peer body serverOp := by
  rw [allowJoin_eq_none]
  cases found : r.rooms.lookup room with
  | none =>
    rw [state_ensureLocked_of_absent found]
    have admits : (RoomState.claim {} peer).Admits now peer serverOp body := by
      apply RoomState.Admits.of_favours
      · rw [RoomState.bans_claim]
        exact notMem_empty peer
      · exact RoomState.favours_claim rfl
    refine iff_of_true (iff_of_true admits ?_) ?_
    · intro st listed
      rw [found] at listed
      cases listed
    · intro st listed
      rw [found] at listed
      cases listed
  | some st =>
    have only (rule : RoomState → Prop) : (∀ st ∈ r.rooms.lookup room, rule st) ↔ rule st := by
      rw [found]
      exact ⟨fun all => all st rfl, fun own _ same => Option.some.inj same ▸ own⟩
    unfold Admits Unguarded
    rw [state_ensureLocked_of_found found, only, only]
    by_cases founded : st.founder = none
    · have claimed : (st.claim peer).Admits now peer serverOp body ↔ peer ∉ st.bans := by
        have bans : (st.claim peer).bans = st.bans := RoomState.bans_claim
        rw [← bans]
        exact ⟨fun admits => admits.unbanned, fun unbanned => .of_favours unbanned (RoomState.favours_claim founded)⟩
      rw [claimed, RoomState.admits_iff, iff_self_and, ← or_iff_not_imp_left]
      exact ⟨fun either _ => either, fun either => either founded⟩
    · rw [RoomState.claim_of_founded founded]
      exact iff_of_true Iff.rfl fun none => absurd none founded

/-- The registry shows no trace of a claim only where there was nothing to claim. -/
theorem ensureLocked_same_iff : (∀ name, (r.ensureLocked room (some peer)).rooms.lookup name = r.rooms.lookup name) ↔
    ∃ st ∈ r.rooms.lookup room, st.founder ≠ none := by
  constructor
  · intro same
    have own := same room
    cases found : r.rooms.lookup room with
    | none =>
      unfold ensureLocked put at own
      rw [found] at own
      dsimp only at own
      rw [lookup_insert] at own
      cases own
    | some st =>
      refine ⟨st, rfl, fun founderless => ?_⟩
      unfold ensureLocked put at own
      rw [found] at own
      dsimp only at own
      rw [if_pos founderless, lookup_insert] at own
      have founder := congrArg RoomState.founder (Option.some.inj own)
      unfold RoomState.claim at founder
      rw [if_pos founderless, founderless] at founder
      cases founder
  · rintro ⟨st, found, founded⟩ name
    unfold ensureLocked
    rw [found]
    dsimp only
    rw [if_neg founded]

end RoomRegistry

/-- `AllowJoin` gives the verdict of the access rule on the registry as it was exactly if the room has a founder, does
not exist, or asks nothing of the peer that it does not meet. -/
theorem allowJoin_admits_iff (s : Service) (w : Outside) (id : ID) (room : Text) (body : Option Value) :
    ((s.allowJoin w id.1 room body).2 = none ↔ s.rooms.Admits w.now room id body (s.isTrusted id)) ↔
      s.rooms.Unguarded w.now room id body (s.isTrusted id) := by
  unfold Service.allowJoin
  rw [idFrom_val]
  exact RoomRegistry.allowJoin_iff_admits_iff

/-- A trusted operator makes a room invite-only before anyone has joined it. -/
def invitational : Service :=
  ({ plainService with trust := { trusted := AList.insert otherID () ∅ } }.handleCommand asciiLibrary plainOutside
    otherID.1 [] "/mode a +i".toList).1

theorem allowJoin_uninvited : ¬ invitational.rooms.Admits 0 ['a'] someID none (invitational.isTrusted someID) ∧
    (invitational.allowJoin plainOutside someID.1 ['a'] none).2 = none := by
  have reached : (∃ st ∈ invitational.rooms.rooms.lookup ['a'], st.inviteOnly = true ∧
      ¬ st.Favours 0 someID (invitational.isTrusted someID)) ∧
      (invitational.allowJoin plainOutside someID.1 ['a'] none).2 = none := by
    decide +kernel
  obtain ⟨⟨st, found, closed, plain⟩, joined⟩ := reached
  exact ⟨fun admits => plain ((admits st found).invited closed), joined⟩

/-- The hub's configuration with the service as its policy. -/
def Service.policed (s : Service) : HubConfig := { s.hubConfig with policy := true }

/-- The room that a JOIN asks for, and whether the hub asks the policy about it. -/
def Service.asksPolicy (s : Service) (room : Text) : Prop :=
  room ≠ [] ∧ byteLength room ≤ s.hubConfig.limits.maxRoomNameBytes

instance (s : Service) (room : Text) : Decidable (s.asksPolicy room) := inferInstanceAs (Decidable (_ ∧ _))

/-- A JOIN of link `p` from its first check to the answer, with nothing else in between. -/
def Service.onJoin (w : Outside) (a : Answer) (s : Service) (p : Nat) (env : Envelope) :
    Service × List Outgoing × List Reply :=
  let hash := (s.hub.records p).peerHash
  let name := s.hubConfig.unicode.normalizeRoom (env.room.getD [])
  let (asked, error) := if s.asksPolicy name then s.allowJoin w hash name env.body else (s, none)
  let turn := Hub.onJoin s.policed { a with error } s.hub p env
  match turn.next with
  | [.join room] =>
    let turn := s.hub.joinTurn s.policed a p room
    let asked := { asked with hub := turn.hub }
    -- The peer is in the room after the section, unless it has no space for it.
    if room ∈ (turn.hub.records p).rooms then
      let (joined, replies) := asked.afterJoin w ((idFrom hash).getD ID.zero) room
      (joined, turn.sent, replies)
    else (asked, turn.sent, [])
  | _ => (asked, turn.sent, [])

/-- The hub answers a link with an ERROR. -/
def Refuses (p : Nat) (sent : List Outgoing) : Prop := ∃ out ∈ sent, out.link = p ∧ out.env.type = .error

instance (p : Nat) (sent : List Outgoing) : Decidable (Refuses p sent) :=
  inferInstanceAs (Decidable (∃ out ∈ sent, _))

namespace Service
variable {w : Outside} {a : Answer} {s : Service} {p : Nat} {env : Envelope} {room : Text} {error : Option String}

/-- The hub goes on to its section if the name is in order and the policy has no objection. -/
theorem next_onJoin (normalised : s.hubConfig.unicode.normalizeRoom (env.room.getD []) = room) :
    (Hub.onJoin s.policed { a with error } s.hub p env).next =
      if s.asksPolicy room ∧ error = none then [.join room] else [] := by
  have same : s.policed.unicode.normalizeRoom (env.room.getD []) = room := normalised
  have police : s.policed.policy = true := rfl
  unfold Hub.onJoin
  dsimp only
  rw [same]
  split
  next empty => rw [if_neg fun asks => asks.1.1 empty]
  next named =>
    split
    next long => rw [if_neg fun asks => Nat.not_le.2 long asks.1.2]
    next short =>
      split
      next => rw [if_neg fun asks => nomatch asks.2]
      next => rw [if_pos ⟨⟨named, Nat.not_lt.1 short⟩, rfl⟩]

theorem not_refuses_joinTurn {c : HubConfig} {h : Hub} (joined : room ∈ ((h.joinTurn c a p room).hub.records p).rooms) :
    ¬ Refuses p (h.joinTurn c a p room).sent := by
  rintro ⟨out, sent, _, error⟩
  rcases Hub.joinTurn_cases c a h p room with ⟨absent, message, turn⟩ | ⟨h', body, _, turn⟩
  · rw [turn] at joined
    exact absent joined
  · rw [turn] at sent
    rcases mem_append.1 sent with others | own
    · obtain ⟨link, _, rfl⟩ := mem_map.1 others
      cases error
    · rw [mem_singleton.1 own] at error
      cases error

/-- A JOIN that the hub refuses leaves the registry as the policy left it, if that was asked. -/
theorem rooms_onJoin_of_refused (normalised : s.hubConfig.unicode.normalizeRoom (env.room.getD []) = room)
    (refused : Refuses p (s.onJoin w a p env).2.1) :
    (s.onJoin w a p env).1.rooms =
      if s.asksPolicy room then (s.allowJoin w (s.hub.records p).peerHash room env.body).1.rooms else s.rooms := by
  unfold onJoin at refused ⊢
  dsimp only at refused ⊢
  rw [normalised] at refused ⊢
  by_cases asks : s.asksPolicy room
  · rw [if_pos asks, next_onJoin normalised] at refused ⊢
    by_cases admitted : (s.allowJoin w (s.hub.records p).peerHash room env.body).2 = none
    · rw [if_pos ⟨asks, admitted⟩] at refused ⊢
      dsimp only at refused ⊢
      split at refused
      next joined => exact absurd refused (not_refuses_joinTurn joined)
      next full => rw [if_neg full, if_pos asks]
    · rw [if_neg fun both => admitted both.2, if_pos asks]
  · rw [if_neg asks, next_onJoin normalised, if_neg fun both => asks both.1, if_neg asks]

end Service

/-- A JOIN that is refused leaves no trace in the registry exactly if the policy was not asked, the link has no
identity, or the room had a founder. -/
theorem refused_join_traceless_iff (s : Service) (w : Outside) (a : Answer) (p : Nat) (env : Envelope) (room : Text)
    (normalised : s.hubConfig.unicode.normalizeRoom (env.room.getD []) = room)
    (refused : Refuses p (s.onJoin w a p env).2.1) :
    (∀ name, (s.onJoin w a p env).1.rooms.rooms.lookup name = s.rooms.rooms.lookup name) ↔
      ¬ s.asksPolicy room ∨ idFrom (s.hub.records p).peerHash = none ∨
        ∃ st ∈ s.rooms.rooms.lookup room, st.founder ≠ none := by
  rw [Service.rooms_onJoin_of_refused normalised refused]
  by_cases asks : s.asksPolicy room
  · rw [if_pos asks, or_iff_right (not_not.2 asks)]
    unfold Service.allowJoin
    cases own : idFrom (s.hub.records p).peerHash with
    | none => exact iff_of_true (fun _ => rfl) (.inl rfl)
    | some id =>
      rw [or_iff_right (by simp)]
      exact RoomRegistry.ensureLocked_same_iff
  · rw [if_neg asks]
    exact iff_of_true (fun _ => rfl) (.inl asks)

/-- A service whose first link is in as many rooms as it may be. -/
def crowded (rooms : RoomRegistry) : Service :=
  { plainService with
    rooms
    hubConfig := { asciiHub with limits := { maxRoomsPerSession := 1 } }
    hub := { records := fun _ => { peerHash := someHash, active := true, rooms := AList.insert ['b'] () ∅ }, links := 1 } }

/-- A JOIN of the room that another identity founded. -/
theorem refused_join_traceless_founded :
    Refuses 0 ((crowded foundedService.rooms).onJoin plainOutside {} 0 { inbound .join with room := some ['a'] }).2.1 ∧
      ∀ name, ((crowded foundedService.rooms).onJoin plainOutside {} 0
        { inbound .join with room := some ['a'] }).1.rooms.rooms.lookup name =
          foundedService.rooms.rooms.lookup name := by
  have refused : Refuses 0 ((crowded foundedService.rooms).onJoin plainOutside {} 0
      { inbound .join with room := some ['a'] }).2.1 := by
    decide +kernel
  have founded : ∃ st ∈ (crowded foundedService.rooms).rooms.rooms.lookup ['a'], st.founder ≠ none := by
    decide +kernel
  refine ⟨refused, ?_⟩
  exact (refused_join_traceless_iff (crowded foundedService.rooms) plainOutside {} 0
    { inbound .join with room := some ['a'] } ['a'] (by decide) refused).2 (.inr (.inr founded))

/-- A JOIN of a new room, which stays behind with the peer as its founder. -/
theorem refused_join_founds :
    Refuses 0 ((crowded {}).onJoin plainOutside {} 0 { inbound .join with room := some ['a'] }).2.1 ∧
      ∃ st ∈ ((crowded {}).onJoin plainOutside {} 0
        { inbound .join with room := some ['a'] }).1.rooms.rooms.lookup ['a'], st.founder = some someID ∧
          (crowded {}).rooms.rooms.lookup ['a'] = none := by
  have reached : Refuses 0 ((crowded {}).onJoin plainOutside {} 0 { inbound .join with room := some ['a'] }).2.1 ∧
      (∃ st ∈ ((crowded {}).onJoin plainOutside {} 0
        { inbound .join with room := some ['a'] }).1.rooms.rooms.lookup ['a'], st.founder = some someID) := by
    decide +kernel
  obtain ⟨refused, st, found, founder⟩ := reached
  exact ⟨refused, st, found, founder, rfl⟩

end ReticulumProtocols.Gorrcd
