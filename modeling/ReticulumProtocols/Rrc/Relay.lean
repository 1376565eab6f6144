import ReticulumProtocols.Rrc.Refusal

/-! What a hub without a policy does with the content of an active peer: who receives it, and in whose name. The
handling of the envelope runs without interruption here. -/

namespace ReticulumProtocols.Rrc
open Wire Lxmf Index Cbor Concurrency List

/-- The envelope is a message, an action or a notice. -/
def Envelope.Content (env : Envelope) : Prop := env.type = .msg ∨ env.type = .action ∨ env.type = .notice

/-- The notice goes to one peer. -/
def Envelope.Direct (env : Envelope) : Prop := env.type = .notice ∧ env.destination.isSome

instance (env : Envelope) : Decidable env.Direct := inferInstanceAs (Decidable (_ ∧ _))

/-- What a copy shares with the original, in the name of an identity. -/
structure Envelope.CopyOf (copy env : Envelope) (hash : Bytes) : Prop where
  type : copy.type = env.type
  msgID : copy.msgID = env.msgID
  timestamp : copy.timestamp = env.timestamp
  sender : copy.sender = hash
  body : copy.body = env.body

/-- The nickname of a peer once the one of an envelope is applied. -/
def HubPeer.nickAfter (c : HubConfig) (peer : HubPeer) (env : Envelope) : Text :=
  match env.nick with
  | none => peer.nick
  | some nick =>
    let nick := c.unicode.sanitizeNick nick
    if nick = [] ∨ nick = peer.nick then peer.nick else c.unicode.sanitizeNick nick

namespace Hub

/-- A callback that runs for at most `n` tasks without interruption. The hub and the remaining tasks are those at the
end, and everything that was sent is collected. -/
def handle (c : HubConfig) (p : Nat) (answers : Nat → Answer) : Nat → List Task → Hub → Turn
  | 0, tasks, h => { hub := h, next := tasks }
  | _ + 1, [], h => { hub := h }
  | n + 1, task :: tasks, h =>
    let turn := task.run c (answers n) h p
    let rest := handle c p answers n (turn.next ++ tasks) turn.hub
    { rest with sent := turn.sent ++ rest.sent }

/-- What the hub sends once the nickname of a content envelope is dealt with. -/
def relay (c : HubConfig) (a : Answer) (h : Hub) (p : Nat) (env : Envelope) : List Outgoing :=
  if env.Direct then h.onDirectNotice c a p env else h.onRoomContent c a p env

/-- Two hubs with the same peers, of which `p` may have another nickname. -/
structure Alike (h h' : Hub) (p : Nat) (nick : Text) : Prop where
  peers : h'.peers = h.peers
  rooms : h'.rooms = h.rooms
  hash : ∀ q, (h'.records q).peerHash = (h.records q).peerHash
  listed : ∀ q, (h'.records q).rooms = (h.records q).rooms
  active : ∀ q, (h'.records q).active = (h.records q).active
  nick : (h'.records p).nick = nick

variable {c : HubConfig} {p : Nat} {answers : Nat → Answer} {n : Nat} {h h' : Hub} {env : Envelope} {nick nick' : Text}

theorem alike_update (change : HubPeer → HubPeer) (plain : ∀ peer, (change peer).peerHash = peer.peerHash ∧
    (change peer).rooms = peer.rooms ∧ (change peer).active = peer.active) :
    h.Alike (h.update p change) p (change (h.records p)).nick where
  peers := rfl
  rooms := rfl
  hash := update_field _ fun peer => (plain peer).1
  listed := update_field _ fun peer => (plain peer).2.1
  active := update_field _ fun peer => (plain peer).2.2
  nick := congrArg HubPeer.nick (records_update change)

theorem Alike.trans {h'' : Hub} (first : h.Alike h' p nick) (second : h'.Alike h'' p nick') : h.Alike h'' p nick' where
  peers := second.peers.trans first.peers
  rooms := second.rooms.trans first.rooms
  hash := fun q => (second.hash q).trans (first.hash q)
  listed := fun q => (second.listed q).trans (first.listed q)
  active := fun q => (second.active q).trans (first.active q)
  nick := second.nick

theorem Alike.reindexNick (alike : h.Alike h' p nick) (u : Unicode) (id : Bytes) (oldNick newNick : Text) :
    h.Alike (h'.reindexNick u id oldNick newNick) p nick := by
  rw [reindexNick_eq]
  exact ⟨alike.peers, alike.rooms, alike.hash, alike.listed, alike.active, alike.nick⟩

theorem handle_nil : handle c p answers n [] h = { hub := h } := by
  cases n <;> rfl

theorem handle_silent {task : Task} {tasks next : List Task} (turn : task.run c (answers n) h p = { hub := h', next }) :
    handle c p answers (n + 1) (task :: tasks) h = handle c p answers n (next ++ tasks) h' := by
  rw [handle, turn]
  rfl

theorem handle_last {task : Task} {sent : List Outgoing} (turn : task.run c (answers n) h p = { hub := h', sent }) :
    handle c p answers (n + 1) [task] h = { hub := h', sent } := by
  rw [handle, turn]
  simp only [append_nil, handle_nil]

theorem serve_content (free : c.policy = false) (content : env.Content) (a : Answer) :
    h.serve c a p env true =
      { hub := h, next := if env.Direct then [.onDirectNotice env] else [.onRoomContent env] } := by
  have dispatch : dispatchContent c a h p env = { hub := h, next := [.onRoomContent env] } := by
    unfold dispatchContent
    rw [free]
    cases a.error <;> rfl
  have intercept : tryIntercept c a = false := by
    rw [tryIntercept, free, Bool.false_and]
  rcases content with type | type | type
  all_goals
    unfold serve Envelope.Direct
    simp only [type, intercept, dispatch, reduceCtorEq, if_false, Bool.true_eq_false, false_and, true_and,
      Bool.false_eq_true]
  split <;> rfl

theorem handle_serve (free : c.policy = false) (content : env.Content) :
    handle c p answers (n + 2) [.serve env true] h = { hub := h, sent := h.relay c (answers n) p env } := by
  have served : Task.run c (answers (n + 1)) h p (.serve env true) =
      { hub := h, next := if env.Direct then [.onDirectNotice env] else [.onRoomContent env] } :=
    serve_content free content _
  rw [handle_silent served, append_nil]
  unfold relay
  split
  · exact handle_last rfl
  · exact handle_last rfl

theorem inboundNick_content (content : env.Content) : inboundNick env = env.nick := by
  unfold inboundNick
  cases env.nick with
  | some nick => rfl
  | none => rcases content with type | type | type <;> simp [type]

/-- The tasks relay the content of an envelope, when `p` has a nickname. -/
def Relays (c : HubConfig) (p : Nat) (answers : Nat → Answer) (n : Nat) (tasks : List Task) (env : Envelope) (h : Hub)
    (nick : Text) : Prop :=
  ∃ h' a, h.Alike h' p nick ∧ handle c p answers n tasks h = { hub := h', sent := h'.relay c a p env }

theorem relays_serve (free : c.policy = false) (content : env.Content) (alike : h.Alike h' p nick) {m : Nat}
    {tasks : List Task} (reduces : handle c p answers m tasks h = handle c p answers (n + 2) [.serve env true] h') :
    Relays c p answers m tasks env h nick :=
  ⟨h', answers n, alike, reduces.trans (handle_serve free content)⟩

theorem relays_applyInboundNick (free : c.policy = false) (content : env.Content) {carried : Text}
    (short : ¬TooLong c carried) : Relays c p answers (n + 5) [.applyInboundNick carried env true] env h
      (let nick := c.unicode.sanitizeNick carried
       if nick = [] ∨ nick = (h.records p).nick then (h.records p).nick else c.unicode.sanitizeNick nick) := by
  have fits : ¬byteLength (c.unicode.sanitizeNick carried) > c.limits.maxNickBytes := short
  dsimp only
  by_cases same : c.unicode.sanitizeNick carried = [] ∨ c.unicode.sanitizeNick carried = (h.records p).nick
  · have applied : Task.run c (answers (n + 4)) h p (.applyInboundNick carried env true) =
        { hub := h, next := [.serve env true] } := by
      simp only [Task.run, applyInboundNick, if_neg fits]
      split_ifs with empty old
      · rfl
      · rfl
      · exact absurd same (not_or.2 ⟨empty, old⟩)
    rw [if_pos same]
    exact relays_serve free content ⟨rfl, rfl, fun _ => rfl, fun _ => rfl, fun _ => rfl, rfl⟩ (handle_silent applied)
  · obtain ⟨some, new⟩ := not_or.1 same
    have applied : Task.run c (answers (n + 4)) h p (.applyInboundNick carried env true) =
        { hub := h, next := [.setNick (h.records p).nick (c.unicode.sanitizeNick carried), .serve env true] } := by
      simp only [Task.run, applyInboundNick, if_neg fits, if_neg some, if_neg new]
    have named : h.Alike (h.update p fun peer =>
        { peer with nick := c.unicode.sanitizeNick (c.unicode.sanitizeNick carried) }) p
          (c.unicode.sanitizeNick (c.unicode.sanitizeNick carried)) := alike_update _ fun _ => ⟨rfl, rfl, rfl⟩
    rw [if_neg same]
    have set : Task.run c (answers (n + 3)) h p (.setNick (h.records p).nick (c.unicode.sanitizeNick carried)) = {
        hub := h.update p fun peer =>
          { peer with nick := c.unicode.sanitizeNick (c.unicode.sanitizeNick carried) }
        next := if (h.records p).ready then
          [.reindexNick (h.records p).nick (c.unicode.sanitizeNick carried)] else [] } := rfl
    cases ready : (h.records p).ready with
    | true =>
      rw [ready, if_pos rfl] at set
      apply relays_serve free content (named.reindexNick c.unicode _ (h.records p).nick
        (c.unicode.sanitizeNick carried))
      rw [handle_silent applied, append_nil, handle_silent set]
      rfl
    | false =>
      rw [ready, if_neg Bool.false_ne_true] at set
      apply relays_serve free content named
      rw [handle_silent applied, append_nil]
      exact handle_silent set

/-- The nickname of an envelope is applied and the content relayed. -/
theorem relays_greet (free : c.policy = false) (content : env.Content) (active : (h.records p).active = true)
    (short : ∀ nick ∈ env.nick, ¬TooLong c nick) :
    Relays c p answers (n + 6) [.greet env] env h ((h.records p).nickAfter c env) := by
  unfold HubPeer.nickAfter
  cases carried : env.nick with
  | none =>
    have greeted : Task.run c (answers (n + 5)) h p (.greet env) = { hub := h, next := [.serve env true] } := by
      simp only [Task.run, greet, inboundNick_content content, carried, active]
    exact relays_serve free content ⟨rfl, rfl, fun _ => rfl, fun _ => rfl, fun _ => rfl, rfl⟩ (handle_silent greeted)
  | some nick =>
    have greeted : Task.run c (answers (n + 5)) h p (.greet env) =
        { hub := h, next := [.applyInboundNick nick env true] } := by
      simp only [Task.run, greet, inboundNick_content content, carried, active]
    unfold Relays
    rw [handle_silent greeted]
    exact relays_applyInboundNick free content (short nick carried)

/-- The hub takes the envelope at a time: there is a token, and the nickname is short enough. -/
def Takes (c : HubConfig) (h : Hub) (p : Nat) (now : Int) (env : Envelope) : Prop :=
  ((h.records p).takeToken c.limits.rateLimitMsgsPerMinute now).2 = true ∧ ∀ nick ∈ env.nick, ¬TooLong c nick

theorem alike_takeToken (limit : Nat) (now : Int) :
    h.Alike (h.update p fun peer => (peer.takeToken limit now).1) p (h.records p).nick := by
  have plain := fun peer : HubPeer => peer.takeToken_fst limit now
  have alike := alike_update (fun peer => (peer.takeToken limit now).1) (h := h) (p := p) fun peer => by
    obtain ⟨tokens, lastRefill, taken⟩ := plain peer
    rw [taken]
    exact ⟨rfl, rfl, rfl⟩
  obtain ⟨tokens, lastRefill, taken⟩ := plain (h.records p)
  rw [taken] at alike
  exact alike

theorem relays_handlePeer (free : c.policy = false) (content : env.Content) (active : (h.records p).active = true)
    (takes : h.Takes c p (answers (n + 6)).now env) :
    Relays c p answers (n + 7) [.handlePeer env] env h ((h.records p).nickAfter c env) := by
  have token := alike_takeToken (h := h) (p := p) c.limits.rateLimitMsgsPerMinute (answers (n + 6)).now
  have taken : Task.run c (answers (n + 6)) h p (.handlePeer env) = {
      hub := h.update p fun peer => (peer.takeToken c.limits.rateLimitMsgsPerMinute (answers (n + 6)).now).1
      next := [.greet env] } := by
    simp only [Task.run, handlePeer, takes.1]
    rfl
  have greeted : Relays c p answers (n + 6) [.greet env] env _ _ :=
    relays_greet free content ((token.active p).trans active) takes.2
  obtain ⟨h', a, alike, handled⟩ := greeted
  refine ⟨h', a, ?_, ?_⟩
  · have nick := token.nick
    unfold HubPeer.nickAfter at alike ⊢
    rw [nick] at alike
    exact token.trans alike
  · rw [handle_silent taken]
    exact handled

theorem handle_refused (content : env.Content) (active : (h.records p).active = true)
    (refuses : ¬h.Takes c p (answers (n + 6)).now env) :
    ∃ h' a message, handle c p answers (n + 7) [.handlePeer env] h =
      { hub := h', sent := [replyError c a p message] } := by
  cases token : ((h.records p).takeToken c.limits.rateLimitMsgsPerMinute (answers (n + 6)).now).2 with
  | false =>
    have limited : Task.run c (answers (n + 6)) h p (.handlePeer env) = {
        hub := h.update p fun peer => (peer.takeToken c.limits.rateLimitMsgsPerMinute (answers (n + 6)).now).1
        sent := [replyError c (answers (n + 6)) p "Rate limit exceeded. Try again later."] } := by
      simp only [Task.run, handlePeer, token]
      rfl
    exact ⟨_, _, _, handle_last limited⟩
  | true =>
    have alike := alike_takeToken (h := h) (p := p) c.limits.rateLimitMsgsPerMinute (answers (n + 6)).now
    have taken : Task.run c (answers (n + 6)) h p (.handlePeer env) = {
        hub := h.update p fun peer => (peer.takeToken c.limits.rateLimitMsgsPerMinute (answers (n + 6)).now).1
        next := [.greet env] } := by
      simp only [Task.run, handlePeer, token]
      rfl
    rw [Takes, not_and, not_forall₂] at refuses
    obtain ⟨nick, carried, long⟩ := refuses token
    rw [handle_silent taken, append_nil]
    generalize (h.update p fun peer =>
      (peer.takeToken c.limits.rateLimitMsgsPerMinute (answers (n + 6)).now).1) = later at alike ⊢
    have greeted : Task.run c (answers (n + 5)) later p (.greet env) =
        { hub := later, next := [.applyInboundNick nick env true] } := by
      simp only [Task.run, greet, inboundNick_content content, Option.mem_def.1 carried, alike.active, active]
    have some : c.unicode.sanitizeNick nick ≠ [] := by
      intro empty
      rw [TooLong, empty] at long
      exact long (Nat.not_lt_zero _)
    have refused : Task.run c (answers (n + 4)) later p (.applyInboundNick nick env true) =
        { hub := later, sent := [replyError c (answers (n + 4)) p "nickname too long"] } := by
      have exceeds : byteLength (c.unicode.sanitizeNick nick) > c.limits.maxNickBytes := not_not.1 long
      simp only [Task.run, applyInboundNick, if_neg some, if_pos exceeds, Option.mem_def.1 carried]
      rfl
    rw [handle_silent greeted, append_nil, handle_last refused]
    exact ⟨_, _, _, rfl⟩

/-- The copy of an envelope that a room receives. -/
def copyFor (c : HubConfig) (h : Hub) (p : Nat) (env : Envelope) : Envelope where
  type := env.type
  msgID := env.msgID
  timestamp := env.timestamp
  sender := (h.records p).peerHash
  room := some (c.unicode.normalizeRoom (env.room.getD []))
  body := env.body
  nick := if (h.records p).nickAfter c env = [] then none else some ((h.records p).nickAfter c env)

theorem Alike.audience (alike : h.Alike h' p nick) (room : Text) (visit : Visit) :
    h'.audience room visit = h.audience room visit := by
  unfold Hub.audience
  rw [alike.rooms, alike.peers]
  simp only [alike.active]

/-- The hub answers the content of a peer with an error. -/
def Declines (c : HubConfig) (h : Hub) (p : Nat) (env : Envelope) : Prop :=
  c.unicode.normalizeRoom (env.room.getD []) = [] ∨ tooLarge c env ∨
    c.unicode.normalizeRoom (env.room.getD []) ∉ (h.records p).rooms

instance (h : Hub) : Decidable (h.Declines c p env) := inferInstanceAs (Decidable (_ ∨ _ ∨ _))

theorem relay_indirect {a : Answer} (free : c.policy = false) (alike : h.Alike h' p ((h.records p).nickAfter c env))
    (indirect : ¬env.Direct) (ready : (h.records p).ready = true) (id : env.msgID.length = messageIDLength) :
    ∃ message, h'.relay c a p env =
      if h.Declines c p env then [replyError c a p message]
      else (h.audience (c.unicode.normalizeRoom (env.room.getD [])) a.visit).map fun link =>
        ⟨link, h.copyFor c p env⟩ := by
  have hash : (h.records p).peerHash.length = identityLength := of_decide_eq_true ready
  have made : envelopeFrom env.type (h.records p).peerHash env.msgID env.timestamp = .ok {
      type := env.type, msgID := env.msgID, timestamp := env.timestamp, sender := (h.records p).peerHash } := by
    rw [envelopeFrom, if_neg (not_not.2 hash), if_neg (not_not.2 id)]
  rw [relay, if_neg indirect, onRoomContent]
  simp only [alike.hash, alike.listed, made, free, and_true]
  by_cases empty : c.unicode.normalizeRoom (env.room.getD []) = []
  · have declines : h.Declines c p env := .inl empty
    refine ⟨"missing room", ?_⟩
    rw [if_pos empty, if_pos declines]
  by_cases large : tooLarge c env
  · have declines : h.Declines c p env := .inr (.inl large)
    refine ⟨"message body too large", ?_⟩
    rw [if_neg empty, if_pos large, if_pos declines]
  refine ⟨"not a member of room", ?_⟩
  by_cases listed : c.unicode.normalizeRoom (env.room.getD []) ∈ (h.records p).rooms
  · have accepts : ¬h.Declines c p env := not_or.2 ⟨empty, not_or.2 ⟨large, not_not.2 listed⟩⟩
    rw [if_neg empty, if_neg large, if_neg (not_not.2 listed), if_neg accepts, alike.audience]
    simp only [copyFor, HubPeer.ownNick, alike.nick]
  · have declines : h.Declines c p env := .inr (.inr listed)
    rw [if_neg empty, if_neg large, if_pos listed, if_pos declines]

/-- A direct notice is answered with an error, or reaches the active peer with the identity. -/
theorem relay_direct {a : Answer} (alike : h.Alike h' p nick) (direct : env.Direct) :
    (∃ message, h'.relay c a p env = [replyError c a p message]) ∨ h'.relay c a p env = [] ∨
      ∃ destination link copy, env.destination = some destination ∧ h.peers.lookup destination = some link ∧
        (h.records link).active = true ∧ h'.relay c a p env = [⟨link, copy⟩] ∧
        copy.CopyOf env (h.records p).peerHash := by
  rw [relay, if_pos direct, onDirectNotice]
  simp only [alike.peers, alike.active, alike.hash]
  split
  next => exact .inl ⟨_, rfl⟩
  next =>
    split
    next => exact .inl ⟨_, rfl⟩
    next destination found =>
      obtain ⟨given, valid⟩ := Option.filter_eq_some_iff.1 found
      split
      next => exact .inl ⟨_, rfl⟩
      next =>
        split
        next => exact .inl ⟨_, rfl⟩
        next link connected =>
          obtain ⟨registered, active⟩ := Option.filter_eq_some_iff.1 connected
          rw [peerKey, if_pos (of_decide_eq_true valid)] at registered
          split
          next => exact .inr (.inl rfl)
          next fwd made =>
            refine .inr (.inr ⟨destination, link, _, given, registered, active, rfl, ?_⟩)
            rw [envelopeFrom] at made
            split at made
            next => cases made
            next =>
              split at made
              next => cases made
              next =>
                cases made
                exact ⟨direct.1.symm, rfl, rfl, rfl, rfl⟩

/-- The link of a registered member of a room that was welcomed. -/
def ActiveMember (h : Hub) (room : Text) (q : Nat) : Prop :=
  h.Current q ∧ (h.records q).active = true ∧ h.rooms.Holds room (h.records q).key

instance (h : Hub) (room : Text) (q : Nat) : Decidable (h.ActiveMember room q) :=
  inferInstanceAs (Decidable (_ ∧ _ ∧ _))

theorem mem_audience (keyed : h.Keyed) {room : Text} {visit : Visit} {q : Nat} :
    q ∈ h.audience room visit ↔ h.ActiveMember room q := by
  unfold audience ActiveMember Current SetIndex.Holds
  rw [mem_filterMap]
  constructor
  · rintro ⟨key, listed, found⟩
    obtain ⟨registered, active⟩ := Option.filter_eq_some_iff.1 found
    rw [(keyed key q registered).2]
    exact ⟨registered, active, AList.mem_keys.2 ((visit.perm _).mem_iff.1 listed)⟩
  · rintro ⟨registered, active, holds⟩
    exact ⟨_, (visit.perm _).mem_iff.2 (AList.mem_keys.1 holds), Option.filter_eq_some_iff.2 ⟨registered, active⟩⟩

theorem nodup_audience (keyed : h.Keyed) (room : Text) (visit : Visit) : (h.audience room visit).Nodup := by
  apply List.Nodup.filterMap
  · intro key key' q found found'
    have own := (Option.filter_eq_some_iff.1 found).1
    have own' := (Option.filter_eq_some_iff.1 found').1
    rw [← (keyed key q own).2, ← (keyed key' q own').2]
  · exact (visit.perm _).nodup_iff.2 (AList.keys_nodup _)

end Hub

namespace HubMachine
variable {c : HubConfig} {m m' : HubMachine}

/-- Only registered links were welcomed. -/
def Welcomed (m : HubMachine) : Prop := ∀ q, (m.hub.records q).active = true → (m.hub.records q).ready = true

theorem Welcomed.step {event : HubEvent} (sane : m.Sane) (welcomed : m.Welcomed) (stepped : Stepped c m event m') :
    m'.Welcomed := by
  intro q active
  cases stepped with
  | accept now =>
    change ((m.hub.acceptLink _ now).records q).active = true at active
    change ((m.hub.acceptLink _ now).records q).ready = true
    rcases eq_or_ne q m.hub.links with same | other
    · rw [same, Hub.records_acceptLink] at active
      cases active
    · rw [Hub.records_acceptLink_ne other] at active ⊢
      exact welcomed q active
  | spawn => exact welcomed q active
  | removeFromRoom =>
    dsimp only at active ⊢
    rw [Hub.records_leave] at active ⊢
    rw [Hub.update_field HubPeer.active (by intro; rfl)] at active
    rw [Hub.update_field HubPeer.ready (by intro; rfl)]
    exact welcomed q active
  | refused => exact welcomed q active
  | advance next =>
    apply (Task.effect c _ m.hub _ _).ready
    rcases (Task.flags c _ m.hub _ _ q).active active with before | ⟨own, needs⟩
    · exact welcomed q before
    · rw [own]
      exact sane.needs next needs

theorem welcomed_of_run {events : List HubEvent} (ran : ({} : HubMachine).run c events = some m) : m.Welcomed := by
  have start : ({} : HubMachine).Sane ∧ ({} : HubMachine).Welcomed := ⟨.start, fun q active => nomatch active⟩
  have kept : ∀ (m : HubMachine) (event : HubEvent) (m' : HubMachine), m.Sane ∧ m.Welcomed →
      m.step c event = some m' → m'.Sane ∧ m'.Welcomed := by
    intro m event m' both stepped
    have stepped := stepped_of_step stepped
    exact ⟨both.1.step stepped, both.2.step both.1 stepped⟩
  exact (invariant_of_run kept start ran).2

/-- Until a link is identified it has no rooms, nickname or welcome, and is nobody's record. -/
theorem unidentified_blank (events : List HubEvent) (ran : ({} : HubMachine).run c events = some m) (p : Nat)
    (unknown : (m.hub.records p).ready ≠ true) : (m.hub.records p).Blank ∧ (m.hub.records p).active ≠ true ∧
      ∀ key, m.hub.peers.lookup key ≠ some p := by
  have sane := Sane.of_run ran
  exact ⟨sane.blank p (Bool.eq_false_iff.2 unknown), fun active => unknown (welcomed_of_run ran p active),
    fun key found => unknown (sane.keyed key p found).1⟩

theorem unidentified_blank_join : ∃ m, ({} : HubMachine).run asciiHub (.accept 0 :: handled 1 2 0 (inbound .join)) =
    some m ∧ (m.hub.records 0).Blank :=
  ⟨_, rfl, (unidentified_blank (.accept 0 :: handled 1 2 0 (inbound .join)) rfl 0 (by decide)).1⟩

end HubMachine

theorem filter_map_link {links : List Nat} (distinct : links.Nodup) {q : Nat} (member : q ∈ links) (env : Envelope) :
    (links.map fun link => (⟨link, env⟩ : Outgoing)).filter (fun out => out.link = q) = [⟨q, env⟩] := by
  have only : links.filter (fun link => link = q) = [q] := by
    rw [List.filter_eq, count_eq_one_of_mem distinct member, replicate_one]
  rw [filter_map]
  change (links.filter fun link => link = q).map _ = _
  rw [only]
  rfl

def twoMembers : List HubEvent :=
  opened 0 3 someHash ++ handled 1 6 0 (inbound .hello) ++ handled 2 6 0 { inbound .join with room := some ['a'] } ++
    opened 3 3 (replicate identityLength 8) ++ handled 4 6 1 (inbound .hello) ++
    handled 5 6 1 { inbound .join with room := some ['a'] }

/-- A message that claims another sender. -/
def greeting : Envelope :=
  { inbound .msg with sender := replicate identityLength 9, room := some ['A'], body := some (.text ['h', 'i']) }

end ReticulumProtocols.Rrc
