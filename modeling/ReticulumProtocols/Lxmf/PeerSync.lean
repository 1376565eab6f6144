import ReticulumProtocols.Lxmf.Peer

/-! The synchronisation with a peer over time: calls of `sync`, the links they make and the callbacks of
these links and of the requests sent on them, in any order. Each callback is one step, and `sync` is one step
from one of its waits to the next. -/

namespace ReticulumProtocols.Lxmf
open Wire Msgpack

def peerSyncBackoffStep : Int := 12 * 60

/-- What a part of `sync` meets. -/
structure SyncMoment where
  now : Int
  saturates : Bool := false
  path : Bool := true
  recalled : Bool := true
  destination : Bool := true
  active : Bool := true
  establishes : Bool := true
  offer : OfferMoment

/-- A resource on its way to the peer. -/
structure Sending where
  wantedKeys : List Bytes
  packedLength : Nat

/-- A peer with what its synchronisation waits for: calls of `sync` before they have a path, calls that wait for a
link, requests without an answer and resources that are being sent. Links are named in the order they are made. -/
structure SyncMachine where
  peer : Peer
  store : MessageStore
  peeringValue : Int := 0
  peeringCost : Int := 0
  lastSyncAttempt : Float := Float64.ofInt 0
  syncBackoff : Float := Float64.ofInt 0
  link : Option Nat := none
  links : Nat := 0
  waiting : Nat := 0
  establishing : List Nat := []
  requests : Nat := 0
  sending : List Sending := []

inductive SyncEvent where
  | generatePeeringKey (key : Bytes) (value : Int)
  | sync (m : SyncMoment)
  | resume (m : SyncMoment)
  | established (link : Nat) (m : SyncMoment)
  | timeout (link : Nat)
  | closed (link : Nat)
  | response (value : Value) (m : ResponseMoment)
  | failed
  | sent (i : Nat) (ok : Bool) (now : Int)

/-- What the peer wants of the last offer, and the store once the rest is marked; `none` if the response is no
selection. -/
def Peer.wanted (p : Peer) (store : MessageStore) : Value → Option (MessageStore × List Bytes)
  | .scalar (.bool true) => some (store, p.lastOffer)
  | .arr items =>
    some (p.markAll store (p.lastOffer.filter fun key => key ∉ byteItems items),
      p.lastOffer.filter fun key => key ∈ byteItems items)
  | _ => none

/-- A response that ends the synchronisation: `false`, a selection of which nothing can be read, or something that is
none of the three codes with a meaning of their own. -/
def Peer.Ends (p : Peer) (store : MessageStore) (response : Value) (m : ResponseMoment) : Prop :=
  match p.wanted store response with
  | some (store, wantedKeys) => readPayloads store m.readable wantedKeys = []
  | none => ∀ code, responseErrorCode response = some code →
      code ≠ peerErrorNoIdentity ∧ code ≠ peerErrorThrottled ∧ code ≠ peerErrorNoAccess

namespace SyncMachine
variable (s : SyncMachine)

def view : Peer := { s.peer with linked := s.link.isSome }

def setState (state : PeerState) : SyncMachine := { s with peer := { s.peer with state } }

/-- `p.Link = nil` and `p.State = PeerStateIdle`. -/
def drop : SyncMachine := { s with link := none }.setState .idle

def backOff (now : Int) : SyncMachine :=
  let syncBackoff := s.syncBackoff + Float64.ofInt peerSyncBackoffStep
  { s with syncBackoff, peer := { s.peer with nextSyncAttempt := clock now + syncBackoff } }

def peeringKeyReady : Bool := 0 < s.peeringCost ∧ s.peer.peeringKey.isSome ∧ s.peeringCost ≤ s.peeringValue

/-- `sendOffer`; where the request cannot be sent, the link is torn down and its callback runs later. -/
def sendOffer (m : OfferMoment) : SyncMachine :=
  let offer := s.view.sendOffer s.store m
  { s with peer := offer.peer, store := offer.store
           requests := if offer.request.isSome then s.requests + 1 else s.requests }

/-- `sync` until it waits for a path. -/
def sync (m : SyncMoment) : SyncMachine :=
  if s.peer.state ≠ .idle ∧ s.peer.state ≠ .linkReady then s
  else
    let s := { s with lastSyncAttempt := clock m.now }
    if m.now < Float64.toInt64 m.saturates s.peer.nextSyncAttempt then
      if s.lastSyncAttempt > s.peer.lastHeard then { s with peer := { s.peer with alive := false } } else s
    else if s.peer.propagationStampCost < 0 ∨ s.peer.propagationStampCostFlex < 0 ∨ s.peeringCost < 0 then s
    else if s.peeringKeyReady then { s with waiting := s.waiting + 1 }
    else s

/-- The rest of `sync` until it waits for a new link. -/
def resume (m : SyncMoment) : SyncMachine :=
  if m.path = false then
    let s := s.backOff m.now
    { s with peer := { s.peer with alive := false } }
  else if m.recalled = false ∨ m.destination = false then s
  else if s.peer.unhandledCount s.store = 0 then s
  else if s.peer.state = .linkReady ∧ s.link.isSome ∧ m.active then s.sendOffer m.offer
  else
    let s := (if s.peer.state = .linkReady then s.drop else s).backOff m.now
    if m.establishes then
      { s with link := some s.links, links := s.links + 1, establishing := s.links :: s.establishing }.setState
        .linkEstablishing
    else s

/-- The end of `sync` on a link that became active. -/
def established (m : SyncMoment) : SyncMachine :=
  let peer := { s.peer with
    state := .linkReady, alive := true, lastHeard := clock m.now, nextSyncAttempt := Float64.ofInt 0 }
  { s with peer, syncBackoff := Float64.ofInt 0 }.sendOffer m.offer

/-- What a handler leaves behind. -/
def settle (outcome : SyncOutcome) : SyncMachine :=
  { s with peer := outcome.peer, store := outcome.store
           link := if outcome.peer.linked then s.link else none
           requests := if outcome.request.isSome then s.requests + 1 else s.requests }

/-- `handleOfferResponse` until it waits for a resource to be sent. -/
def handleOfferResponse (response : Value) (m : ResponseMoment) : SyncMachine :=
  match s.peer.wanted s.store response with
  | none => s.settle (s.view.handleOfferResponse s.store response m)
  | some (store, wantedKeys) =>
    let payloads := readPayloads store m.readable wantedKeys
    let packed := encode false (.arr [.float64 (clock m.now).toBits, .arr (payloads.map .bytes)])
    if payloads = [] ∨ s.link = none ∨ m.made = false then
      s.settle (s.view.handleOfferResponse s.store response m)
    else { s with store, sending := ⟨wantedKeys, packed.length⟩ :: s.sending }.setState .resourceTransferring

/-- The end of `handleOfferResponse` once the resource was sent or not. -/
def sent (sending : Sending) (ok : Bool) (now : Int) : SyncMachine :=
  if ok then
    let peer := { s.peer with
      alive := true
      lastHeard := clock now
      offered := s.peer.offered + s.peer.lastOffer.length
      outgoing := s.peer.outgoing + sending.wantedKeys.length
      txBytes := s.peer.txBytes + sending.packedLength }
    { s with peer, store := s.peer.markAll s.store sending.wantedKeys }.drop
  else s.drop

def step : SyncEvent → Option SyncMachine
  | .generatePeeringKey key value =>
    some { s with peer := { s.peer with peeringKey := some key }, peeringValue := value }
  | .sync m => some (s.sync m)
  | .resume m => if s.waiting = 0 then none else some ({ s with waiting := s.waiting - 1 }.resume m)
  | .established link m =>
    if link ∈ s.establishing then some ({ s with establishing := s.establishing.erase link }.established m) else none
  | .timeout link =>
    if link ∈ s.establishing then some { s with establishing := s.establishing.erase link }.drop else none
  | .closed link => some (if s.link = some link then s.drop else s)
  | .response value m =>
    if s.requests = 0 then none else some ({ s with requests := s.requests - 1 }.handleOfferResponse value m)
  | .failed => if s.requests = 0 then none else some ({ s with requests := s.requests - 1 }.setState .idle)
  | .sent i ok now =>
    match s.sending[i]? with
    | none => none
    -- the link is torn down through `p.Link`, so nil ends the program
    | some sending => if s.link = none then none else some ({ s with sending := s.sending.eraseIdx i }.sent sending ok now)

def run (events : List SyncEvent) : Option SyncMachine := events.foldlM step s

/-- Nothing will happen that was not caused by someone else. -/
structure Quiet : Prop where
  waiting : s.waiting = 0
  establishing : s.establishing = []
  requests : s.requests = 0
  sending : s.sending = []

instance : Decidable s.Quiet :=
  decidable_of_iff (s.waiting = 0 ∧ s.establishing = [] ∧ s.requests = 0 ∧ s.sending = [])
    ⟨fun ⟨waiting, establishing, requests, sending⟩ => ⟨waiting, establishing, requests, sending⟩,
      fun quiet => ⟨quiet.waiting, quiet.establishing, quiet.requests, quiet.sending⟩⟩

/-- A state that refuses `sync`, without a link whose end could change it. -/
def Wedged : Prop := s.peer.state ≠ .idle ∧ s.peer.state ≠ .linkReady ∧ s.link = none

instance : Decidable s.Wedged := inferInstanceAs (Decidable (_ ∧ _ ∧ _))

variable {s} in
theorem Wedged.refuses (wedged : s.Wedged) (m : SyncMoment) : s.sync m = s := if_pos ⟨wedged.1, wedged.2.1⟩

/-- A response that comes when there is no link has to be one that ends the synchronisation. -/
def Settles : SyncEvent → Prop
  | .response value m => s.link = none → s.peer.Ends s.store value m
  | _ => True

def SettlesAlong (s : SyncMachine) : List SyncEvent → Prop
  | [] => True
  | event :: events => s.Settles event ∧ ∀ next, s.step event = some next → SettlesAlong next events

end SyncMachine

namespace Peer
variable (p : Peer) (store : MessageStore)

/-- What a handler can leave behind, as far as the states go. -/
inductive Settled (linked : Bool) (outcome : Peer) (request : Option Bytes) : Prop
  | ended (state : outcome.state = .idle) (unlinked : outcome.linked = false)
  | ready (state : outcome.state = .linkReady) (same : outcome.linked = linked)
  | requested (state : outcome.state = .requestSent) (same : outcome.linked = linked) (sent : request.isSome)
  | kept (state : outcome.state = .responseReceived) (same : outcome.linked = linked) (link : linked = true)

theorem settled_sendOffer (m : OfferMoment) :
    Settled p.linked (p.sendOffer store m).peer (p.sendOffer store m).request := by
  unfold sendOffer
  dsimp only
  split
  · exact .ready rfl rfl
  split
  · exact .ended rfl rfl
  · exact .requested rfl rfl rfl

theorem settled_transfer (received : p.state = .responseReceived) (wantedKeys : List Bytes) (m : ResponseMoment)
    (linked : p.linked = true ∨ readPayloads store m.readable wantedKeys = []) :
    Settled p.linked (p.transfer store wantedKeys m).peer (p.transfer store wantedKeys m).request := by
  unfold transfer
  dsimp only
  split
  · exact .ended rfl rfl
  next some_ =>
    split
    · exact .kept received rfl (linked.resolve_right some_)
    split
    · exact .ended rfl rfl
    · exact .ended rfl rfl

theorem settled_refused (received : p.state = .responseReceived) (code : UInt8) (m : ResponseMoment)
    (linked : p.linked = true ∨
      code ≠ peerErrorNoIdentity ∧ code ≠ peerErrorThrottled ∧ code ≠ peerErrorNoAccess) :
    Settled p.linked (p.refused store code m).peer (p.refused store code m).request := by
  unfold refused
  split
  next unknown =>
    have link : p.linked = true := linked.resolve_right fun other => other.1 unknown
    rw [if_pos link]
    exact settled_sendOffer { p with state := .linkReady } store m.retry
  split
  next throttled => exact .kept received rfl (linked.resolve_right fun other => other.2.1 throttled)
  split
  next access => exact .kept received rfl (linked.resolve_right fun other => other.2.2 access)
  · exact .ended rfl rfl

theorem settled_handleOfferResponse (response : Value) (m : ResponseMoment)
    (linked : p.linked = true ∨ p.Ends store response m) :
    Settled p.linked (p.handleOfferResponse store response m).peer (p.handleOfferResponse store response m).request := by
  unfold handleOfferResponse
  dsimp only
  split
  · exact .ended rfl rfl
  · exact settled_transfer { p with state := .responseReceived } store rfl _ m linked
  next items => exact settled_transfer { p with state := .responseReceived } _ rfl _ m linked
  next no yes list =>
    have unwanted : p.wanted store response = none := by
      unfold wanted
      split
      · exact absurd rfl yes
      · exact absurd rfl (list _)
      · rfl
    rw [Ends, unwanted] at linked
    split
    · exact .ended rfl rfl
    next code found =>
      exact settled_refused { p with state := .responseReceived } store rfl code m
        (linked.imp_right fun ended => ended code found)

theorem handleOfferResponse_wanted {p : Peer} {store after : MessageStore} {response : Value} {wantedKeys : List Bytes}
    (wanted : p.wanted store response = some (after, wantedKeys)) (m : ResponseMoment) :
    p.handleOfferResponse store response m = { p with state := .responseReceived }.transfer after wantedKeys m := by
  unfold Peer.wanted at wanted
  split at wanted
  · rw [Option.some.injEq, Prod.mk.injEq] at wanted
    rw [← wanted.1, ← wanted.2]
    rfl
  · rw [Option.some.injEq, Prod.mk.injEq] at wanted
    rw [← wanted.1, ← wanted.2]
    rfl
  · contradiction

end Peer

namespace SyncMachine
variable {t : SyncMachine} {response : Value} {m : ResponseMoment}

/-- Where the link stays up, handling a response in two steps is handling it in one. -/
theorem sent_handleOfferResponse {s : SyncMachine} {store : MessageStore} {wantedKeys : List Bytes}
    (wanted : s.peer.wanted s.store response = some (store, wantedKeys)) (linked : s.link ≠ none)
    (made : m.made = true) (readable : readPayloads store m.readable wantedKeys ≠ []) :
    let first := s.handleOfferResponse response m
    let outcome := s.view.handleOfferResponse s.store response m
    ∃ sending ∈ first.sending, first.peer.state = .resourceTransferring ∧
      (first.sent sending m.sends m.now).view = outcome.peer ∧
      (first.sent sending m.sends m.now).store = outcome.store := by
  have link : s.view.linked = true := Option.isSome_iff_ne_none.2 linked
  have wanted' : s.view.wanted s.store response = some (store, wantedKeys) := wanted
  have waits : ¬(readPayloads store m.readable wantedKeys = [] ∨ s.link = none ∨ m.made = false) := by
    rw [made]
    exact fun blocked => blocked.elim readable fun blocked => blocked.elim linked fun false => by contradiction
  have ships : ¬(s.view.linked = false ∨ m.made = false) := by
    rw [link, made]
    decide
  dsimp only
  rw [handleOfferResponse, wanted]
  dsimp only
  rw [if_neg waits, Peer.handleOfferResponse_wanted wanted' m, Peer.transfer]
  dsimp only
  rw [if_neg readable, if_neg ships]
  refine ⟨_, List.mem_cons_self, rfl, ?_⟩
  cases m.sends with
  | false => exact ⟨rfl, rfl⟩
  | true => exact ⟨rfl, rfl⟩

/-- What holds in every state of a run: a state of being asked comes with a request, and without a link there is no
other state that waits for something. -/
structure Live (s : SyncMachine) : Prop where
  requests : s.peer.state = .requestSent → 0 < s.requests
  linked : s.link = none → s.peer.state = .idle ∨ s.peer.state = .linkReady ∨ s.peer.state = .requestSent

variable {s : SyncMachine}

theorem Live.not_wedged (live : s.Live) (quiet : s.Quiet) : ¬s.Wedged := by
  intro ⟨idle, ready, unlinked⟩
  have asked := ((live.linked unlinked).resolve_left idle).resolve_left ready
  exact absurd quiet.requests (live.requests asked).ne'

theorem live_of_idle (idle : s.peer.state = .idle) : s.Live :=
  ⟨fun asked => absurd (idle.symm.trans asked) (by decide), fun _ => Or.inl idle⟩

/-- A step that changes neither state nor link and forgets no request. -/
theorem Live.same (live : s.Live) (state : t.peer.state = s.peer.state) (link : t.link = s.link)
    (requests : t.requests = s.requests) : t.Live := by
  constructor
  · rw [state, requests]
    exact live.requests
  · rw [state, link]
    exact live.linked

/-- What a handler leaves behind is live, if the link is gone whenever the handler gave it up. -/
theorem live_of_settled {linked : Bool} {outcome : Peer} {request : Option Bytes}
    (settled : Peer.Settled linked outcome request) (peer : t.peer = outcome)
    (requests : request.isSome → 0 < t.requests) (link : linked = true → outcome.linked = linked → t.link ≠ none) :
    t.Live := by
  cases settled with
  | ended state _ => exact live_of_idle (peer ▸ state)
  | ready state _ =>
    exact ⟨fun asked => absurd (state.symm.trans (peer ▸ asked)) (by decide), fun _ => Or.inr (Or.inl (peer ▸ state))⟩
  | requested state _ sent => exact ⟨fun _ => requests sent, fun _ => Or.inr (Or.inr (peer ▸ state))⟩
  | kept state same held =>
    exact ⟨fun asked => absurd (state.symm.trans (peer ▸ asked)) (by decide), fun none => absurd none (link held same)⟩

theorem live_sendOffer (m : OfferMoment) : (s.sendOffer m).Live := by
  apply live_of_settled (s.view.settled_sendOffer s.store m) rfl
  · intro sent
    rw [sendOffer, if_pos sent]
    exact Nat.succ_pos _
  · intro linked _
    rw [view, Option.isSome_iff_ne_none] at linked
    exact linked

theorem live_settle (ends : s.link = none → s.peer.Ends s.store response m) :
    (s.settle (s.view.handleOfferResponse s.store response m)).Live := by
  have linked : s.view.linked = true ∨ s.view.Ends s.store response m := by
    cases link : s.link with
    | none => exact Or.inr (ends link)
    | some l =>
      apply Or.inl
      rw [view, link]
      rfl
  apply live_of_settled (s.view.settled_handleOfferResponse s.store response m linked) rfl
  · intro sent
    rw [settle, if_pos sent]
    exact Nat.succ_pos _
  · intro held same
    rw [held] at same
    rw [settle, if_pos same]
    rw [view, Option.isSome_iff_ne_none] at held
    exact held

theorem Live.sync (live : s.Live) (m : SyncMoment) : (s.sync m).Live := by
  unfold SyncMachine.sync
  split
  · exact live
  dsimp only
  split
  · split
    · exact live.same rfl rfl rfl
    · exact live.same rfl rfl rfl
  split
  · exact live.same rfl rfl rfl
  split
  · exact live.same rfl rfl rfl
  · exact live.same rfl rfl rfl

theorem live_drop : s.drop.Live := live_of_idle rfl

/-- With a link, any state but that of a request will do. -/
theorem live_setState (linked : s.link ≠ none) {state : PeerState} (other : state ≠ .requestSent) :
    (s.setState state).Live :=
  ⟨fun asked => absurd asked other, fun none => absurd none linked⟩

theorem Live.resume (live : s.Live) (m : SyncMoment) : (s.resume m).Live := by
  unfold SyncMachine.resume
  split
  · exact live.same rfl rfl rfl
  split
  · exact live
  split
  · exact live
  split
  · exact live_sendOffer m.offer
  dsimp only
  have dropped : (if s.peer.state = .linkReady then s.drop else s).Live := by
    split
    · exact live_drop
    · exact live
  split
  · exact live_setState (Option.some_ne_none _) (by decide)
  · exact dropped.same rfl rfl rfl

theorem live_handleOfferResponse     (ends : s.link = none → s.peer.Ends s.store response m) : (s.handleOfferResponse response m).Live := by
  unfold SyncMachine.handleOfferResponse
  split
  · exact live_settle ends
  dsimp only
  split
  · exact live_settle ends
  next sends =>
    rw [not_or, not_or] at sends
    apply live_setState
    · exact sends.2.1
    · decide

theorem Live.step (live : s.Live) {event : SyncEvent} (settles : s.Settles event)
    (stepped : s.step event = some t) : t.Live := by
  cases event with
  | generatePeeringKey key value => exact Option.some.inj stepped ▸ live.same rfl rfl rfl
  | sync m => exact Option.some.inj stepped ▸ live.sync m
  | resume m =>
    obtain ⟨_, same⟩ := Option.ite_none_left_eq_some.1 stepped
    rw [← Option.some.inj same]
    apply Live.resume
    exact live.same rfl rfl rfl
  | established link m =>
    obtain ⟨_, same⟩ := Option.ite_none_right_eq_some.1 stepped
    exact Option.some.inj same ▸ live_sendOffer m.offer
  | timeout link =>
    obtain ⟨_, same⟩ := Option.ite_none_right_eq_some.1 stepped
    exact Option.some.inj same ▸ live_drop
  | closed link =>
    rw [← Option.some.inj stepped]
    split
    · exact live_drop
    · exact live
  | response value m =>
    obtain ⟨_, same⟩ := Option.ite_none_left_eq_some.1 stepped
    exact Option.some.inj same ▸ live_handleOfferResponse settles
  | failed =>
    obtain ⟨_, same⟩ := Option.ite_none_left_eq_some.1 stepped
    exact Option.some.inj same ▸ live_of_idle rfl
  | sent i ok now =>
    rw [SyncMachine.step] at stepped
    split at stepped
    · contradiction
    obtain ⟨_, same⟩ := Option.ite_none_left_eq_some.1 stepped
    rw [← Option.some.inj same, SyncMachine.sent]
    split
    · exact live_drop
    · exact live_drop

theorem Live.run (live : s.Live) {events : List SyncEvent} (settles : s.SettlesAlong events)
    (reached : s.run events = some t) : t.Live := by
  induction events generalizing s with
  | nil => exact Option.some.inj reached ▸ live
  | cons event events ih =>
    obtain ⟨next, stepped, rest⟩ := Option.bind_eq_some_iff.1 reached
    exact ih (live.step settles.1 stepped) (settles.2 next stepped) rest

end SyncMachine

/-- In every run from an idle peer whose responses settle, no state in which nothing is pending refuses `sync`
for want of a link. -/
theorem sync_not_wedged (start : SyncMachine) (idle : start.peer.state = .idle) (events : List SyncEvent)
    (settles : start.SettlesAlong events) {reached : SyncMachine} (run : start.run events = some reached)
    (quiet : reached.Quiet) : ¬reached.Wedged :=
  ((SyncMachine.live_of_idle idle).run settles run).not_wedged quiet

def queuedPeer : SyncMachine where
  peer := { destinationHash := [9], peeringKey := some [7], state := .idle }
  peeringValue := 1
  peeringCost := 1
  store :=
    { entries := AList.singleton [1]
        { destinationHash := [], filePath := ⟨[1], [], 0⟩, receivedAt := Float64.ofInt 0, size := 1,
          unhandledPeers := [[9]], stampValue := 0 }
      files := AList.singleton ⟨[1], [], 0⟩ [0x11] }

def syncTime : SyncMoment := { now := 0, offer := { now := 0, visit := .listed } }

/-- The link is closed after the peer has answered, but before the answer is handled. -/
def lateResponse (value : Value) : List SyncEvent :=
  [.sync syncTime, .resume syncTime, .established 0 syncTime, .closed 0,
    .response value { now := 0, readable := fun _ => true, retry := syncTime.offer }]

/-- The answer that nothing is wanted ends the synchronisation, with a link or without. -/
theorem lateResponse_false_settles (s : SyncMachine) : s.SettlesAlong (lateResponse (.bool false)) := by
  refine ⟨trivial, fun _ _ => ⟨trivial, fun _ _ => ⟨trivial, fun _ _ => ⟨trivial, fun _ _ => ⟨?_, fun _ _ => trivial⟩⟩⟩⟩⟩
  intro _ code found
  contradiction

theorem lateResponse_false_not_wedged :
    ∃ reached, queuedPeer.run (lateResponse (.bool false)) = some reached ∧ reached.Quiet ∧ ¬reached.Wedged := by
  have ends : (queuedPeer.run (lateResponse (.bool false))).any (fun reached => reached.Quiet) = true := by
    decide +kernel
  obtain ⟨reached, run, quiet⟩ := (Option.any_eq_true _ _).1 ends
  have quiet' := of_decide_eq_true quiet
  exact ⟨reached, run, quiet', sync_not_wedged queuedPeer rfl _ (lateResponse_false_settles queuedPeer) run quiet'⟩

/-- The answer that everything is wanted leaves a state that no event of the peer's own will change. -/
theorem lateResponse_true_wedged :
    ∃ reached, queuedPeer.run (lateResponse (.bool true)) = some reached ∧ reached.Quiet ∧ reached.Wedged ∧
      ∀ m, reached.sync m = reached := by
  have ends : (queuedPeer.run (lateResponse (.bool true))).any (fun reached => reached.Quiet ∧ reached.Wedged) = true := by
    decide +kernel
  obtain ⟨reached, run, wedged⟩ := (Option.any_eq_true _ _).1 ends
  have ⟨quiet, wedged⟩ := of_decide_eq_true wedged
  exact ⟨reached, run, quiet, wedged, wedged.refuses⟩

end ReticulumProtocols.Lxmf
