import ReticulumProtocols.Lxmf.Messenger

/-! Fetching mail from a propagation node. `FetchPropagated` counts every payload that is long enough
and reports every payload for deletion, while decryption, unpacking, the stamp rule and the duplicate
check happen in callees that report nothing back. -/

namespace ReticulumProtocols.Lxmf
open Wire Msgpack Sha256 List

abbrev overhead : Nat := 112

def peerErrorNoIdentity : UInt8 := 0xf0
def peerErrorNoAccess : UInt8 := 0xf1
def peerErrorInvalidKey : UInt8 := 0xf3
def peerErrorInvalidData : UInt8 := 0xf4
def peerErrorThrottled : UInt8 := 0xf6

structure FetchConfig extends MessengerConfig where
  decrypt : Bytes → Option Bytes
  retainSyncedOnNode : Bool := false

/-- The time and the map orders at which one payload is processed. -/
structure Moment where
  noted : Int
  now : Int
  order : MapOrder
  visit : Visit

inductive FetchError where
  | link
  | request
  | rejected (code : UInt8)
  | responseType
  deriving DecidableEq, Repr

/-- `responseErrorCode`: a single byte, or an integer that fits one. -/
def responseErrorCode : Value → Option UInt8
  | .bytes [code] => some code
  | .scalar (.int n) => (asInt64 n).bind fun code =>
    if 0 ≤ code ∧ code ≤ 0xff then some (UInt8.ofNat code.toNat) else none
  | _ => none

/-- `propagationGetRequest`, given the response; `none` is a request that fails or times out. -/
def propagationGetRequest : Option Value → Except FetchError (List Value)
  | none => .error .request
  | some response =>
    match responseErrorCode response with
    | some code => .error (.rejected code)
    | none =>
      match response with
      | .arr items => .ok items
      | .scalar .nil => .ok []
      | _ => .error .responseType

/-- The list request, repeated while the node has not seen the identification yet. -/
def listRequest (answers : Nat → Option Value) : Nat → Except FetchError (List Value)
  | 0 => propagationGetRequest (answers 0)
  | retries + 1 =>
    match propagationGetRequest (answers 0) with
    | .error (.rejected code) =>
      if code = peerErrorNoIdentity then listRequest (fun attempt => answers (attempt + 1)) retries
      else .error (.rejected code)
    | result => result

/-- The ids to ask for and the ids to report, from the node's list. -/
def sortListed (c : FetchConfig) (m : Messenger) (maxMessages : Int) (list : List Value) : List Bytes × List Bytes :=
  list.foldl (fun (wants, haves) item =>
    let tid := assertBytes item
    if tid = [] then (wants, haves)
    else if m.hasDelivered tid then (wants, if c.retainSyncedOnNode then haves else haves ++ [tid])
    else (if maxMessages ≤ 0 ∨ wants.length < maxMessages then wants ++ [tid] else wants, haves)) ([], [])

/-- `deliverPropagated`; without a receipt if `onPacket` is not reached. -/
def deliverPropagated (c : FetchConfig) (m : Messenger) (lxmfData : Bytes) (moment : Moment) :
    Messenger × Option Receipt :=
  if lxmfData.length < destinationLength then (m, none)
  else if lxmfData.take destinationLength ≠ c.destinationHash then (m, none)
  else
    match c.decrypt (lxmfData.drop destinationLength) with
    | none => (m, none)
    | some plaintext =>
      match (m.noteDelivered lxmfData moment.noted).onPacket c.toMessengerConfig
        ⟨plaintext, moment.now, moment.order, moment.visit⟩ with
      | (m, receipt) => (m, some receipt)

/-- The variables of the loop over the payloads; `invocations` records what reaches the handler. -/
structure FetchLoop where
  messenger : Messenger
  received : Nat := 0
  receivedIDs : List Bytes := []
  invocations : List Bytes := []

def FetchLoop.step (c : FetchConfig) (loop : FetchLoop) : Value × Moment → FetchLoop
  | (.bytes data, moment) =>
    let loop := { loop with receivedIDs := loop.receivedIDs ++ [sha256 data] }
    if data.length ≤ overhead then loop
    else
      match deliverPropagated c loop.messenger data moment with
      | (m, receipt) =>
        { loop with
          messenger := m
          received := loop.received + 1
          invocations := loop.invocations ++ if receipt.any Receipt.isHanded then [data] else [] }
  | _ => loop

/-- What `FetchPropagated` returns, what it asked the node for, and what it reported as received. -/
structure FetchOutcome where
  loop : FetchLoop
  count : Nat := 0
  error : Option FetchError := none
  request : Option (List Bytes × List Bytes × Float) := none
  purge : List Bytes := []

def FetchOutcome.deletions (outcome : FetchOutcome) : List Bytes :=
  (outcome.request.elim [] fun request => request.2.1) ++ outcome.purge

/-- `FetchPropagated`; `answers` are the responses to the attempts to list, `answer` is the one to the
request for messages. -/
def fetchPropagated (c : FetchConfig) (m : Messenger) (linked : Bool) (maxMessages : Int) (transferLimitKB : Float)
    (answers : Nat → Option Value) (answer : Option Value) (moments : Nat → Moment) : FetchOutcome :=
  if linked = false then { loop := { messenger := m }, error := some .link }
  else
    match listRequest answers 5 with
    | .error error => { loop := { messenger := m }, error := some error }
    | .ok [] => { loop := { messenger := m } }
    | .ok (first :: others) =>
      let limit := if transferLimitKB ≤ Float64.ofInt 0 then Float64.ofInt 1000 else transferLimitKB
      let (wants, haves) := sortListed c m maxMessages (first :: others)
      match propagationGetRequest answer with
      | .error error => { loop := { messenger := m }, error := some error, request := some (wants, haves, limit) }
      | .ok msgs =>
        let loop := (msgs.mapIdx fun i item => (item, moments i)).foldl (FetchLoop.step c) { messenger := m }
        { loop, count := loop.received, request := some (wants, haves, limit), purge := loop.receivedIDs }

/-- The payload can be taken in the given state: it is for us, it decrypts, the message in it passes the
stamp rule and is not known yet. -/
def Acceptable (c : FetchConfig) (m : Messenger) (data : Bytes) (moment : Moment) : Prop :=
  data.take destinationLength = c.destinationHash ∧ c.handled = true ∧
    ∃ plaintext ∈ c.decrypt (data.drop destinationLength),
      ∃ msg ∈ c.screened m.tickets ⟨plaintext, moment.now, moment.order, moment.visit⟩,
        msg.hash ∉ (m.noteDelivered data moment.noted).deliveredTIDs

/-- Every payload of full length can be taken at its turn. -/
def EachAcceptable (c : FetchConfig) : FetchLoop → List (Value × Moment) → Prop
  | _, [] => True
  | loop, (item, moment) :: items =>
    (∀ data, item = .bytes data → overhead < data.length → Acceptable c loop.messenger data moment) ∧
      EachAcceptable c (loop.step c (item, moment)) items

theorem noteDelivered_tickets (m : Messenger) (lxmfData : Bytes) (now : Int) :
    (m.noteDelivered lxmfData now).tickets = m.tickets := by
  unfold Messenger.noteDelivered
  split <;> rfl

/-- The byte slices of a response, and those that are long enough to be a message. -/
def slices (items : List (Value × Moment)) : List Bytes :=
  items.filterMap fun
    | (.bytes data, _) => some data
    | _ => none

def longSlices (items : List (Value × Moment)) : List Bytes := (slices items).filter fun data => overhead < data.length

section
variable (c : FetchConfig)

theorem deliverPropagated_handed_iff (m : Messenger) {data : Bytes} (moment : Moment) (long : overhead < data.length) :
    (deliverPropagated c m data moment).2.any Receipt.isHanded = true ↔ Acceptable c m data moment := by
  have enough : ¬ data.length < destinationLength := by
    change 112 < data.length at long
    change ¬ data.length < 16
    omega
  unfold deliverPropagated Acceptable
  rw [if_neg enough]
  by_cases ours : data.take destinationLength = c.destinationHash
  · rw [if_neg (not_not.mpr ours)]
    cases c.decrypt (data.drop destinationLength) with
    | none => simp
    | some plaintext =>
      have accepts := onPacket_handed_iff c.toMessengerConfig (m.noteDelivered data moment.noted)
        ⟨plaintext, moment.now, moment.order, moment.visit⟩
      rw [noteDelivered_tickets] at accepts
      simpa [ours] using accepts
  · simp [ours]

theorem fetch_step (loop : FetchLoop) (item : Value) (moment : Moment) :
    (loop.step c (item, moment)).received = loop.received + (longSlices [(item, moment)]).length ∧
      (loop.step c (item, moment)).receivedIDs = loop.receivedIDs ++ (slices [(item, moment)]).map sha256 ∧
      ∃ handed, (loop.step c (item, moment)).invocations = loop.invocations ++ handed ∧
        handed.Sublist (longSlices [(item, moment)]) ∧
        (handed = longSlices [(item, moment)] ↔
          ∀ data, item = .bytes data → overhead < data.length → Acceptable c loop.messenger data moment) := by
  cases item with
  | bytes data =>
    by_cases long : overhead < data.length
    · have listed : longSlices [(.bytes data, moment)] = [data] := by simp [longSlices, slices, long]
      have accepted := deliverPropagated_handed_iff c loop.messenger moment long
      simp only [FetchLoop.step, if_neg (Nat.not_le.mpr long), listed]
      refine ⟨rfl, rfl, _, rfl, ?_, ?_⟩
      · split
        · exact List.Sublist.refl _
        · exact nil_sublist _
      · by_cases handed : (deliverPropagated c loop.messenger data moment).2.any Receipt.isHanded = true
        · simp [handed, long, accepted.mp handed]
        · have refused := mt accepted.mpr handed
          simp [handed, long, refused]
    · have short : longSlices [(.bytes data, moment)] = [] := by simp [longSlices, slices, Nat.not_lt.mp long]
      simp only [FetchLoop.step, if_pos (Nat.not_lt.mp long), short]
      refine ⟨rfl, rfl, [], by simp, List.Sublist.refl _, iff_of_true rfl ?_⟩
      intro other same long'
      cases same
      exact absurd long' long
  | _ =>
    exact ⟨rfl, (append_nil _).symm, [], (append_nil _).symm, List.Sublist.refl _,
      by simp [longSlices, slices]⟩

theorem slices_cons (entry : Value × Moment) (items : List (Value × Moment)) :
    slices (entry :: items) = slices [entry] ++ slices items := filterMap_append (l := [entry])

theorem longSlices_cons (entry : Value × Moment) (items : List (Value × Moment)) :
    longSlices (entry :: items) = longSlices [entry] ++ longSlices items := by
  rw [longSlices, slices_cons, filter_append]
  rfl

theorem sublists_append_eq_iff {α : Type} {xs ys full full' : List α} (left : xs.Sublist full)
    (right : ys.Sublist full') : xs ++ ys = full ++ full' ↔ xs = full ∧ ys = full' := by
  constructor
  · intro same
    have lengths := congrArg List.length same
    rw [length_append, length_append] at lengths
    have short := left.length_le
    have short' := right.length_le
    exact append_inj same (by omega)
  · rintro ⟨rfl, rfl⟩
    rfl

/-- The loop counts the long slices, reports all slices, and hands over a part of the long ones: all of
them exactly if each could be taken at its turn. -/
theorem fetch_loop (items : List (Value × Moment)) (loop : FetchLoop) :
    (items.foldl (FetchLoop.step c) loop).received = loop.received + (longSlices items).length ∧
      (items.foldl (FetchLoop.step c) loop).receivedIDs = loop.receivedIDs ++ (slices items).map sha256 ∧
      ∃ handed, (items.foldl (FetchLoop.step c) loop).invocations = loop.invocations ++ handed ∧
        handed.Sublist (longSlices items) ∧ (handed = longSlices items ↔ EachAcceptable c loop items) := by
  induction items generalizing loop with
  | nil => exact ⟨rfl, by simp [slices], [], by simp, by simp, by simp [longSlices, slices, EachAcceptable]⟩
  | cons entry items ih =>
    obtain ⟨item, moment⟩ := entry
    obtain ⟨received, ids, handed, invoked, part, exactly⟩ := fetch_step c loop item moment
    obtain ⟨received', ids', handed', invoked', part', exactly'⟩ := ih (loop.step c (item, moment))
    rw [foldl_cons, slices_cons, longSlices_cons]
    refine ⟨?_, ?_, handed ++ handed', ?_, part.append part', ?_⟩
    · rw [received', received, length_append, Nat.add_assoc]
    · rw [ids', ids, map_append, append_assoc]
    · rw [invoked', invoked, append_assoc]
    · rw [sublists_append_eq_iff part part', exactly, exactly', EachAcceptable]

/-- Only ids that were delivered before are reported with the request. -/
theorem sortListed_haves (m : Messenger) (maxMessages : Int) (list : List Value) :
    ∀ tid ∈ (sortListed c m maxMessages list).2, tid ∈ m.deliveredTIDs := by
  refine List.foldlRecOn list _
    (motive := fun sorted : List Bytes × List Bytes => ∀ tid ∈ sorted.2, tid ∈ m.deliveredTIDs) ?_ ?_
  · simp
  · rintro ⟨wants, haves⟩ known item _
    dsimp only
    split
    · exact known
    · split
      · next delivered =>
        split
        · exact known
        · intro tid member
          rcases mem_append.mp member with old | new
          · exact known tid old
          · rw [mem_singleton.mp new]
            exact of_decide_eq_true delivered
      · exact known

end

section
variable (c : FetchConfig) (m : Messenger) (linked : Bool) (maxMessages : Int) (transferLimitKB : Float)
variable (answers : Nat → Option Value) (answer : Option Value) (moments : Nat → Moment)

/-- The items of the response to the request for messages, if the fetch gets that far. -/
def fetchedItems (linked : Bool) (answers : Nat → Option Value) (answer : Option Value) (moments : Nat → Moment) :
    List (Value × Moment) :=
  if linked = false then []
  else
    match listRequest answers 5, propagationGetRequest answer with
    | .ok (_ :: _), .ok msgs => msgs.mapIdx fun i item => (item, moments i)
    | _, _ => []

/-- The count is right, and nothing is reported for deletion that was not delivered. -/
def FetchSound (outcome : FetchOutcome) : Prop :=
  outcome.count = outcome.loop.invocations.length ∧
    ∀ tid ∈ outcome.deletions, tid ∈ m.deliveredTIDs ∨ ∃ data ∈ outcome.loop.invocations, sha256 data = tid

/-- A fetch is its loop, apart from the reports of earlier deliveries. -/
theorem fetchPropagated_loop :
    let outcome := fetchPropagated c m linked maxMessages transferLimitKB answers answer moments
    let loop := (fetchedItems linked answers answer moments).foldl (FetchLoop.step c) { messenger := m }
    outcome.loop = loop ∧ outcome.count = loop.received ∧
      ∃ haves, outcome.deletions = haves ++ loop.receivedIDs ∧ ∀ tid ∈ haves, tid ∈ m.deliveredTIDs := by
  unfold fetchPropagated fetchedItems
  by_cases down : linked = false
  · rw [if_pos down, if_pos down]
    exact ⟨rfl, rfl, [], rfl, by simp⟩
  rw [if_neg down, if_neg down]
  cases listRequest answers 5 with
  | error error => exact ⟨rfl, rfl, [], rfl, by simp⟩
  | ok list =>
  cases list with
  | nil => exact ⟨rfl, rfl, [], rfl, by simp⟩
  | cons first others =>
  have known := sortListed_haves c m maxMessages (first :: others)
  cases propagationGetRequest answer with
  | error error => exact ⟨rfl, rfl, _, rfl, known⟩
  | ok msgs => exact ⟨rfl, rfl, _, rfl, known⟩

/-- A fetch counts and reports correctly exactly if every payload of full length can be taken at its
turn, and every shorter one has been delivered before. -/
theorem fetchSound_iff :
    FetchSound m (fetchPropagated c m linked maxMessages transferLimitKB answers answer moments) ↔
      EachAcceptable c { messenger := m } (fetchedItems linked answers answer moments) ∧
      ∀ data ∈ slices (fetchedItems linked answers answer moments), data.length ≤ overhead →
        sha256 data ∈ m.deliveredTIDs ∨
          ∃ other ∈ longSlices (fetchedItems linked answers answer moments), sha256 other = sha256 data := by
  obtain ⟨isLoop, counted, haves, deleted, known⟩ :=
    fetchPropagated_loop c m linked maxMessages transferLimitKB answers answer moments
  generalize fetchedItems linked answers answer moments = items at isLoop counted deleted ⊢
  obtain ⟨received, ids, handed, invoked, part, exactly⟩ := fetch_loop c items { messenger := m }
  rw [FetchSound, isLoop, counted, deleted, received, ids, invoked, nil_append, nil_append, Nat.zero_add]
  have all : (longSlices items).length = handed.length ↔ EachAcceptable c { messenger := m } items := by
    rw [← exactly]
    exact ⟨fun same => part.eq_of_length same.symm, fun same => by rw [same]⟩
  rw [all, and_congr_right_iff]
  intro acceptable
  rw [exactly.mpr acceptable]
  constructor
  · intro reported data member _
    exact reported _ (mem_append_right _ (mem_map_of_mem member))
  · intro short tid member
    rcases mem_append.mp member with old | new
    · exact .inl (known tid old)
    · obtain ⟨data, inside, rfl⟩ := mem_map.mp new
      by_cases long : overhead < data.length
      · have listed : data ∈ longSlices items := mem_filter.mpr ⟨inside, decide_eq_true long⟩
        exact .inr ⟨data, listed, rfl⟩
      · exact short data inside (Nat.not_lt.mp long)

end

/-- A fetch into an empty messenger that can decrypt nothing; the node lists one id and sends one payload. -/
def strayFetch (payload : Bytes) : FetchOutcome :=
  let c : FetchConfig :=
    { destinationHash := replicate 16 0xd0, resolver := none, parseFloat := fun _ => (clock 0, false),
      decrypt := fun _ => none }
  fetchPropagated c {} true 0 (clock 0) (fun _ => some (.arr [.bytes [1]])) (some (.arr [.bytes payload]))
    fun _ => ⟨0, 0, .listed, .listed⟩

/-- A payload for another destination is counted and reported for deletion, but nobody gets it. -/
theorem strayPayload_counted :
    (strayFetch (replicate 113 0)).count = 1 ∧ (strayFetch (replicate 113 0)).loop.invocations = [] ∧
      (strayFetch (replicate 113 0)).deletions = [sha256 (replicate 113 0)] ∧
      ¬ FetchSound {} (strayFetch (replicate 113 0)) := by
  have counted : (strayFetch (replicate 113 0)).count = 1 := by decide +kernel
  have invoked : (strayFetch (replicate 113 0)).loop.invocations = [] := by decide +kernel
  refine ⟨counted, invoked, by decide +kernel, ?_⟩
  rintro ⟨same, _⟩
  rw [counted, invoked] at same
  cases same

end ReticulumProtocols.Lxmf
