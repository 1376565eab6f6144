import ReticulumProtocols.Lxmf.Midstate
import ReticulumProtocols.Lxmf.Propagation
import ReticulumProtocols.Concurrency.Chunks

/-! Stamp work that is divided over the processors. Whatever the interleaving, workblocks and batches of stamps come out
as if they had been gone through one by one. -/

namespace ReticulumProtocols.Lxmf
open Wire Msgpack Sha256 Concurrency List
variable {α β : Type}

/-- The workers that are started for `n` pieces of work. -/
def workersFor (procs n : Nat) : Nat := max (min procs n) 1

theorem workersFor_pos (procs n : Nat) : 0 < workersFor procs n := Nat.lt_of_lt_of_le one_pos (le_max_right _ _)

/-- What the workers of a workblock share. -/
structure Expansion where
  out : Bytes
  failed : Bool := false

/-- One turn of a worker's loop. -/
def expandRound (material : Bytes) (n : Nat) (e : Expansion) : Expansion × Bool :=
  match workblockRound material n with
  | none => ({ e with failed := true }, false)
  | some block => ({ e with out := (copyAt e.out (n * 256) (block.take 256)).1 }, true)

/-- `stampWorkblockCPU` may come back with a result, `none` when it is an error. -/
def StampWorkblockCPU (procs : Nat) (material : Bytes) (expandRounds : Nat) (result : Option Bytes) : Prop :=
  ∃ final, Crew.Leaves (expandRound material) expandRounds (workersFor procs expandRounds)
      { out := replicate (256 * expandRounds) 0 } final ∧
    result = if final.failed then none else some final.out

/-- The blocks of all rounds in their order. -/
def serialWorkblock (material : Bytes) (expandRounds : Nat) : Option Bytes :=
  ((range expandRounds).mapM (workblockRound material)).map List.flatten

theorem stampWorkblock_eq {material : Bytes} {expandRounds : Nat} (rounds : expandRounds ≠ 0)
    (something : material ≠ []) : stampWorkblock material expandRounds = serialWorkblock material expandRounds := by
  rw [stampWorkblock, if_neg (by simp [rounds, something]), serialWorkblock]

theorem mapM_eq_none {f : α → Option β} {xs : List α} {x : α} (member : x ∈ xs) (none : f x = none) :
    xs.mapM f = .none := by
  induction xs with
  | nil => cases member
  | cons y ys ih =>
    rw [mapM_cons]
    rcases mem_cons.1 member with rfl | later
    · rw [none]
      rfl
    · rw [ih later]
      cases f y <;> rfl

theorem mapM_eq_some {f : α → Option β} {g : α → β} {xs : List α} (each : ∀ x ∈ xs, f x = some (g x)) :
    xs.mapM f = some (xs.map g) := by
  induction xs with
  | nil => rfl
  | cons y ys ih =>
    rw [mapM_cons, each y mem_cons_self, ih fun x member => each x (mem_cons_of_mem y member)]
    rfl

theorem hkdfBlocks_length (prk info : Bytes) (iterations i : Nat) (block : Bytes) :
    (hkdfBlocks prk info iterations i block).length = 32 * iterations := by
  induction iterations generalizing i block with
  | zero => rfl
  | succ iterations ih =>
    have first : (hmac prk (block ++ info ++ [UInt8.ofNat (i + 1)])).length = 32 := sha256_length _
    rw [hkdfBlocks, length_append, first, ih]
    omega

theorem workblockRound_length {material block : Bytes} {n : Nat} (derived : workblockRound material n = some block) :
    block.length = 256 := by
  unfold workblockRound deriveKey at derived
  split at derived
  · cases derived
  · cases derived
    rw [length_take, hkdfBlocks_length]
    rfl

def roundBlock (out : Bytes) (i : Nat) : Bytes := (out.drop (i * 256)).take 256

theorem flatten_roundBlock {out : Bytes} {rounds : Nat} (length : out.length = 256 * rounds) :
    ((range rounds).map (roundBlock out)).flatten = out := by
  have upTo : ∀ n ≤ rounds, ((range n).map (roundBlock out)).flatten = out.take (n * 256) := by
    intro n
    induction n with
    | zero => simp
    | succ n ih =>
      intro less
      rw [range_succ, map_append, flatten_append, ih (by omega), Nat.succ_mul, take_add]
      simp [roundBlock]
  rw [upTo rounds le_rfl, take_of_length_le (by omega)]

theorem roundBlock_splice {front block back : Bytes} {i : Nat} (start : front.length = i * 256)
    (full : block.length = 256) (j : Nat) : roundBlock (front ++ (block ++ back)) j =
      if j < i then roundBlock front j else if j = i then block else roundBlock back (j - i - 1) := by
  unfold roundBlock
  rcases lt_trichotomy j i with less | rfl | more
  · have inside : j * 256 ≤ front.length := by omega
    have room : 256 ≤ (front.drop (j * 256)).length := by
      rw [length_drop]
      omega
    rw [if_pos less, drop_append_of_le_length inside, take_append_of_le_length room]
  · rw [if_neg (lt_irrefl j), if_pos rfl, ← start, drop_left, ← full, take_left]
  · have past : j * 256 = front.length + (block.length + (j - i - 1) * 256) := by omega
    rw [if_neg more.not_gt, if_neg more.ne', past, drop_length_add_append, drop_length_add_append]

theorem roundBlock_copyAt {out block : Bytes} {rounds i : Nat} (length : out.length = 256 * rounds)
    (full : block.length = 256) (here : i < rounds) :
    (copyAt out (i * 256) block).1.length = 256 * rounds ∧
      ∀ j, roundBlock (copyAt out (i * 256) block).1 j = if j = i then block else roundBlock out j := by
  have start : (out.take (i * 256)).length = i * 256 := by
    rw [length_take]
    omega
  have old : (roundBlock out i).length = 256 := by
    rw [roundBlock, length_take, length_drop]
    omega
  have parts : out = out.take (i * 256) ++ (roundBlock out i ++ (out.drop (i * 256)).drop 256) := by
    rw [roundBlock, take_append_drop, take_append_drop]
  generalize out.take (i * 256) = front at *
  generalize roundBlock out i = mid at *
  generalize (out.drop (i * 256)).drop 256 = back at *
  subst parts
  have copied : copyAt (front ++ (mid ++ back)) (i * 256) block = (front ++ (block ++ back), 256) := by
    rw [copyAt_append start (by rw [length_append]; omega), full, ← old, drop_left]
  rw [copied]
  constructor
  · simp only [length_append] at length ⊢
    omega
  · intro j
    dsimp only
    rw [roundBlock_splice start full, roundBlock_splice start old]
    split_ifs <;> first | rfl | omega

theorem expandRound_works (material : Bytes) (rounds : Nat) : Works (expandRound material) rounds
    (fun e => e.out.length = 256 * rounds ∧ (e.failed = true → ∃ i < rounds, workblockRound material i = none))
    (fun e => e.failed = true) fun i e => workblockRound material i = some (roundBlock e.out i) where
  holds {i e} here holds := by
    unfold expandRound
    split
    next none => exact ⟨holds.1, fun _ => ⟨i, here, none⟩⟩
    next block derived =>
      rw [take_of_length_le (workblockRound_length derived).le]
      exact ⟨(roundBlock_copyAt holds.1 (workblockRound_length derived) here).1, holds.2⟩
  does {i e} here holds went := by
    unfold expandRound at went ⊢
    split at went
    next => cases went
    next block derived =>
      rw [take_of_length_le (workblockRound_length derived).le]
      dsimp only
      rw [(roundBlock_copyAt holds.1 (workblockRound_length derived) here).2 i, if_pos rfl, derived]
  keeps {i j e} here less holds done := by
    unfold expandRound
    split
    next => exact done
    next block derived =>
      rw [take_of_length_le (workblockRound_length derived).le]
      dsimp only
      rw [(roundBlock_copyAt holds.1 (workblockRound_length derived) here).2 j]
      split
      next same => rw [same, derived]
      next => exact done
  stops {i e} here holds went := by
    unfold expandRound at went ⊢
    split at went
    next => rfl
    next => cases went
  stays {i e} here holds failed := by
    unfold expandRound
    split
    · rfl
    · exact failed

/-- The workers' workblock is the blocks of all rounds in their order. -/
theorem stampWorkblockCPU_iff (procs : Nat) (material : Bytes) (expandRounds : Nat) (result : Option Bytes) :
    StampWorkblockCPU procs material expandRounds result ↔ result = serialWorkblock material expandRounds := by
  have unique : ∀ final : Expansion, Crew.Leaves (expandRound material) expandRounds (workersFor procs expandRounds)
      { out := replicate (256 * expandRounds) 0 } final →
      (if final.failed then none else some final.out) = serialWorkblock material expandRounds := by
    intro final leaves
    obtain ⟨⟨length, reason⟩, done⟩ := (expandRound_works material expandRounds).done_of_leaves
      (workersFor_pos procs expandRounds) ⟨length_replicate, fun failed => Bool.noConfusion failed⟩ leaves
    cases failed : final.failed with
    | true =>
      obtain ⟨i, less, none⟩ := reason failed
      rw [serialWorkblock, mapM_eq_none (mem_range.2 less) none]
      rfl
    | false =>
      have each := done.resolve_left (by simp [failed])
      rw [serialWorkblock, mapM_eq_some fun i member => each i (mem_range.1 member), Option.map_some,
        flatten_roundBlock length]
      rfl
  constructor
  · rintro ⟨final, leaves, rfl⟩
    exact unique final leaves
  · intro same
    obtain ⟨final, leaves⟩ := Crew.exists_leaves (expandRound material) expandRounds (workersFor procs expandRounds)
      { out := replicate (256 * expandRounds) 0 }
    exact ⟨final, leaves, same.trans (unique final leaves).symm⟩

def meetsCost (stamp : Bytes) (targetCost : Int) (workblock : Bytes) : Bool :=
  if stampValid stamp targetCost workblock = false then false
  else if targetCost ≤ 0 then stamp.length = stampSize
  else targetCost ≤ stampValue workblock stamp

structure StampCandidate where
  material : Bytes
  stamp : Bytes

/-- What is written down for a candidate once its workblock is there. -/
def StampCandidate.meets (c : StampCandidate) (targetCost : Int) (workblock : Option Bytes) : Option Bool :=
  if c.stamp.length ≠ stampSize ∨ c.material = [] then none
  else workblock.map (meetsCost c.stamp targetCost)

/-- `validateStampBatchCPU` may come back with a list; `workblocks i` is what the expansion for candidate `i` came
back with. -/
def ValidateStampBatchCPU (procs : Nat) (cands : List StampCandidate) (targetCost : Int) (expandRounds : Nat)
    (out : List Bool) : Prop :=
  ∃ workblocks : Nat → Option Bytes,
    (∀ i c, cands[i]? = some c → StampWorkblockCPU procs c.material expandRounds (workblocks i)) ∧
    Crew.Leaves (fillSlot fun i => cands[i]?.bind fun c => c.meets targetCost (workblocks i)) cands.length
      (workersFor procs cands.length) (replicate cands.length false) out

/-- One candidate by itself. -/
def StampCandidate.accepted (targetCost : Int) (expandRounds : Nat) (c : StampCandidate) : Bool :=
  (c.meets targetCost (serialWorkblock c.material expandRounds)).getD false

theorem map_range_getElem? (xs : List α) (f : Nat → Option β) (g : α → β) (empty : β)
    (each : ∀ i x, xs[i]? = some x → (f i).getD empty = g x) :
    (range xs.length).map (fun i => (f i).getD empty) = xs.map g := by
  apply ext_getElem?
  intro i
  by_cases less : i < xs.length
  · rw [List.getElem?_map, List.getElem?_range less, List.getElem?_map, List.getElem?_eq_getElem less]
    exact congrArg some (each i xs[i] (List.getElem?_eq_getElem less))
  · rw [List.getElem?_eq_none (by simpa using less), List.getElem?_eq_none (by simpa using less)]

theorem validateStampBatchCPU_iff (procs : Nat) (cands : List StampCandidate) (targetCost : Int) (expandRounds : Nat)
    (out : List Bool) : ValidateStampBatchCPU procs cands targetCost expandRounds out ↔
      out = cands.map (StampCandidate.accepted targetCost expandRounds) := by
  have slots (workblocks : Nat → Option Bytes)
      (expanded : ∀ i c, cands[i]? = some c → StampWorkblockCPU procs c.material expandRounds (workblocks i)) :
      Crew.Leaves (fillSlot fun i => cands[i]?.bind fun c => c.meets targetCost (workblocks i)) cands.length
        (workersFor procs cands.length) (replicate cands.length false) out ↔
      out = cands.map (StampCandidate.accepted targetCost expandRounds) := by
    rw [leaves_fillSlot (workersFor_pos procs cands.length), map_range_getElem? cands _ _ false]
    intro i c found
    rw [found, Option.bind_some, (stampWorkblockCPU_iff _ _ _ _).1 (expanded i c found), StampCandidate.accepted]
  constructor
  · rintro ⟨workblocks, expanded, leaves⟩
    exact (slots workblocks expanded).1 leaves
  · intro same
    let workblocks := fun i : Nat => cands[i]?.bind fun c => serialWorkblock c.material expandRounds
    have expanded : ∀ i c, cands[i]? = some c → StampWorkblockCPU procs c.material expandRounds (workblocks i) := by
      intro i c found
      rw [stampWorkblockCPU_iff]
      simp [workblocks, found]
    exact ⟨workblocks, expanded, (slots workblocks expanded).2 same⟩

/-- The rounds a caller asks for, or the usual ones. -/
def expandRoundsOr (expandRounds : Int) : Nat := if expandRounds ≤ 0 then workblockExpandRounds else expandRounds.toNat

def ValidateStampBatch (procs : Nat) (cands : List StampCandidate) (targetCost expandRounds : Int) (out : List Bool) :
    Prop :=
  if cands = [] then out = [] else ValidateStampBatchCPU procs cands targetCost (expandRoundsOr expandRounds) out

theorem validateStampBatch_iff (procs : Nat) (cands : List StampCandidate) (targetCost expandRounds : Int)
    (out : List Bool) : ValidateStampBatch procs cands targetCost expandRounds out ↔
      out = cands.map (StampCandidate.accepted targetCost (expandRoundsOr expandRounds)) := by
  unfold ValidateStampBatch
  split
  next none => rw [none, map_nil]
  next => exact validateStampBatchCPU_iff procs cands targetCost _ out

def pnEntry (targetCost : Int) (workblock : Option Bytes) (transientData : Bytes) : Option PNStampEntry :=
  if transientData.length ≤ overhead + stampSize then none
  else
    let lxm := transientPart transientData
    let stamp := stampPart transientData
    workblock.bind fun workblock =>
      if stampValid stamp targetCost workblock then some ⟨sha256 lxm, lxm, stampValue workblock stamp, stamp⟩
      else none

theorem validatePNStamp_eq (targetCost : Int) (transientData : Bytes) :
    validatePNStamp targetCost transientData = pnEntry targetCost
      (stampWorkblock (sha256 (transientPart transientData)) workblockExpandRoundsPN) transientData := rfl

/-- `ValidatePNStamps` may come back with a list: the entries of the slots that were filled. -/
def ValidatePNStamps (procs : Nat) (messages : List Bytes) (targetCost : Int) (out : List PNStampEntry) : Prop :=
  ∃ (workblocks : Nat → Option Bytes) (slots : List (Option PNStampEntry)),
    (∀ i message, messages[i]? = some message →
      StampWorkblockCPU procs (sha256 (transientPart message)) workblockExpandRoundsPN (workblocks i)) ∧
    Crew.Leaves (fillSlot fun i => (messages[i]?.bind (pnEntry targetCost (workblocks i))).map some) messages.length
      (workersFor procs messages.length) (replicate messages.length none) slots ∧
    out = slots.filterMap id

theorem sha256_ne_nil (message : Bytes) : sha256 message ≠ [] := by
  intro empty
  have length := sha256_length message
  rw [empty] at length
  cases length

/-- In any interleaving the entries are those of the messages one by one. -/
theorem validatePNStamps_iff (procs : Nat) (messages : List Bytes) (targetCost : Int) (out : List PNStampEntry) :
    ValidatePNStamps procs messages targetCost out ↔ out = validatePNStamps messages targetCost := by
  have slots (workblocks : Nat → Option Bytes) (slots : List (Option PNStampEntry))
      (expanded : ∀ i message, messages[i]? = some message →
        StampWorkblockCPU procs (sha256 (transientPart message)) workblockExpandRoundsPN (workblocks i)) :
      Crew.Leaves (fillSlot fun i => (messages[i]?.bind (pnEntry targetCost (workblocks i))).map some) messages.length
        (workersFor procs messages.length) (replicate messages.length none) slots ↔
      slots = messages.map (validatePNStamp targetCost) := by
    rw [leaves_fillSlot (workersFor_pos procs messages.length), map_range_getElem? messages _ _ none]
    intro i message found
    rw [found, Option.bind_some, (stampWorkblockCPU_iff _ _ _ _).1 (expanded i message found), validatePNStamp_eq,
      stampWorkblock_eq (by decide) (sha256_ne_nil _)]
    cases pnEntry targetCost _ message <;> rfl
  have flat : (messages.map (validatePNStamp targetCost)).filterMap id = validatePNStamps messages targetCost :=
    filterMap_map
  constructor
  · rintro ⟨workblocks, filled, expanded, leaves, rfl⟩
    rw [(slots workblocks filled expanded).1 leaves, flat]
  · intro same
    let workblocks := fun i : Nat => messages[i]?.bind fun message =>
      serialWorkblock (sha256 (transientPart message)) workblockExpandRoundsPN
    have expanded : ∀ i message, messages[i]? = some message →
        StampWorkblockCPU procs (sha256 (transientPart message)) workblockExpandRoundsPN (workblocks i) := by
      intro i message found
      rw [stampWorkblockCPU_iff]
      simp [workblocks, found]
    exact ⟨workblocks, _, expanded, (slots workblocks _ expanded).2 rfl, same.trans flat.symm⟩

def pnWorkblock (transientData : Bytes) : Bytes :=
  (serialWorkblock (sha256 (transientPart transientData)) workblockExpandRoundsPN).getD []

/-- A transient message that is long enough and whose stamp is valid. -/
def pnAccepted (targetCost : Int) (transientData : Bytes) : Bool :=
  overhead + stampSize < transientData.length &&
    stampValid (stampPart transientData) targetCost (pnWorkblock transientData)

theorem validatePNStamp_accepted (targetCost : Int) (transientData : Bytes) :
    validatePNStamp targetCost transientData =
      if pnAccepted targetCost transientData then
        some ⟨sha256 (transientPart transientData), transientPart transientData,
          stampValue (pnWorkblock transientData) (stampPart transientData), stampPart transientData⟩
      else none := by
  have rounds : workblockExpandRoundsPN ≠ 0 := by decide
  have expanded := stampWorkblock_isSome rounds (sha256_ne_nil (transientPart transientData))
  obtain ⟨workblock, found⟩ := Option.isSome_iff_exists.1 expanded
  have here : pnWorkblock transientData = workblock := by
    rw [pnWorkblock, ← stampWorkblock_eq (by decide) (sha256_ne_nil _), found, Option.getD_some]
  rw [validatePNStamp_eq, found, pnAccepted, here, pnEntry]
  by_cases long : transientData.length ≤ overhead + stampSize
  · rw [if_pos long]
    simp [long]
  · rw [if_neg long]
    simp [not_le.1 long]

/-- Workblocks, batches and propagated messages come out in order, however many processors share the work. -/
theorem stampWork_serial (procs : Nat) :
    (∀ material expandRounds result, StampWorkblockCPU procs material expandRounds result ↔
      result = serialWorkblock material expandRounds) ∧
    (∀ cands targetCost expandRounds out, ValidateStampBatchCPU procs cands targetCost expandRounds out ↔
      out = cands.map (StampCandidate.accepted targetCost expandRounds)) ∧
    ∀ messages targetCost out, ValidatePNStamps procs messages targetCost out ↔
      out = (messages.filter (pnAccepted targetCost)).map fun message =>
        { transientID := sha256 (transientPart message), lxmData := transientPart message
          value := stampValue (pnWorkblock message) (stampPart message), stamp := stampPart message } := by
  refine ⟨stampWorkblockCPU_iff procs, validateStampBatchCPU_iff procs, fun messages targetCost out => ?_⟩
  rw [validatePNStamps_iff, validatePNStamps, ← filterMap_eq_filter, map_filterMap]
  refine iff_of_eq (congrArg (fun entry => out = messages.filterMap entry) (funext fun message => ?_))
  rw [validatePNStamp_accepted, Option.guard]
  split <;> rfl

end ReticulumProtocols.Lxmf
