import ReticulumProtocols.Lxmf.StampBatch
import ReticulumProtocols.Lxmf.StampTarget
import ReticulumProtocols.Lxmf.Offer

/-! The search for a stamp on all processors. A worker takes a candidate whose digest is not above the target, which is
what the single check, the propagation filter and the peering check ask; a batch check also asks for the value. -/

namespace ReticulumProtocols.Lxmf
open Wire Msgpack Sha256 Concurrency List

/-- The random bytes that a search starts from. -/
def Seed : Type := { bytes : Bytes // bytes.length = 16 }

structure StampHunt where
  midState : Bytes
  target : Bytes
  seed : Seed
  /-- The search looks at `found` again where it looks for a cancellation. -/
  looksAgain : Bool

/-- The bytes a worker tries at its counter. -/
def StampHunt.candidate (h : StampHunt) (worker : UInt32) (counter : UInt64) : Bytes :=
  h.seed.1.take 12 ++ be 4 worker.toNat ++ be 8 counter.toNat ++
    be 4 ((counter >>> 32).toUInt32 ^^^ worker * 0x9e3779b9).toNat ++ be 4 (counter.toUInt32 ^^^ worker <<< 16).toNat

def cpuCancelCheckMask : UInt64 := 0x3fff

/-- Where a worker is in its loop. -/
inductive StampHunter where
  | looping (counter : UInt64)
  | trying (counter : UInt64)
  | hit (stamp : Bytes)
  | sending (stamp : Bytes)
  | returned
  deriving DecidableEq

structure StampSearch where
  found : Bool := false
  canceled : Bool := false
  resCh : Option Bytes := none
  workers : List StampHunter
  /-- What the call has come back with, `none` for `ErrStampNotFound`. -/
  returned : Option (Option Bytes) := none

inductive StampEvent where
  | work (worker : Nat)
  | cancel
  | receive
  | abandon
  deriving DecidableEq

/-- `h.Write` and `h.Sum` from the state that was written down. -/
def StampHunt.digest (h : StampHunt) (stamp : Bytes) : Option Bytes := (unmarshalBinary h.midState).map (·.sum stamp)

def StampHunt.work (h : StampHunt) (worker : Nat) (s : StampSearch) : StampHunter → Option (StampSearch × StampHunter)
  | .looping counter => some (s, if s.found then .returned else .trying (counter + 1))
  | .trying counter =>
    if counter &&& cpuCancelCheckMask = 0 ∧ (s.canceled ∨ h.looksAgain ∧ s.found) then some (s, .returned)
    else
      match h.digest (h.candidate (UInt32.ofNat worker) counter) with
      | none => some (s, .returned)
      | some sum =>
        some (s, if bytesLe sum h.target then .hit (h.candidate (UInt32.ofNat worker) counter)
          else .looping counter)
  | .hit stamp => if s.found then some (s, .returned) else some ({ s with found := true }, .sending stamp)
  | .sending stamp => some ({ s with resCh := s.resCh.or (some stamp) }, .returned)
  | .returned => none

/-- One step of the search: a worker goes on, the context is cancelled, or the call comes back. -/
def StampHunt.step (h : StampHunt) (s : StampSearch) : StampEvent → Option StampSearch
  | .work worker =>
    s.workers[worker]?.bind fun at_ =>
      (h.work worker s at_).map fun next => { next.1 with workers := s.workers.set worker next.2 }
  | .cancel => some { s with canceled := true }
  | .receive =>
    match s.returned, s.resCh with
    | some _, _ => none
    | none, some stamp => some { s with resCh := none, returned := some (some stamp) }
    -- the channel is closed once all workers have returned
    | none, none => if s.workers.all (· = .returned) then some { s with returned := some none } else none
  | .abandon =>
    if s.canceled ∧ s.returned = none then some { s with found := true, returned := some none } else none

/-- `generateStampCPU`, which falls back to a search of its own if there is no midstate. -/
def stampHunt (workblock : Bytes) (stampCost : Int) (seed : Seed) : StampHunt :=
  let fallback : StampHunt :=
    { midState := marshalBinary workblock, target := stampTarget stampCost, seed, looksAgain := false }
  match midstateOfPrefix workblock with
  | .error _ => fallback
  | .ok ms =>
    if ms.marshaled = [] then fallback
    else { midState := ms.marshaled, target := stampTarget stampCost, seed, looksAgain := true }

def StampSearch.start (procs : Nat) : StampSearch := { workers := replicate (max procs 1) (.looping 0) }

/-- `GenerateStamp` on the processors may come back with a stamp and its value. -/
def GenerateStamp (procs : Nat) (seed : Seed) (messageID : Bytes) (stampCost expandRounds : Int) (stamp : Bytes)
    (value : Int) : Prop :=
  0 < stampCost ∧ messageID ≠ [] ∧ ∃ workblock events s,
    StampWorkblockCPU procs messageID (expandRoundsOr expandRounds) (some workblock) ∧
    runEvents (stampHunt workblock stampCost seed).step (StampSearch.start procs) events = some s ∧
    s.returned = some (some stamp) ∧ value = stampValue workblock stamp

theorem candidate_length (h : StampHunt) (worker : UInt32) (counter : UInt64) :
    (h.candidate worker counter).length = stampSize := by
  simp only [StampHunt.candidate, length_append, length_take, be_length, h.seed.2]
  rfl

section
variable (workblock : Bytes) (stampCost : Int) (seed : Seed)

/-- Both ways to start a search leave the same state to resume from. -/
theorem unmarshalBinary_stampHunt : ∃ count blocks rest, blocks.length = 64 * count ∧ workblock = blocks ++ rest ∧
    unmarshalBinary (stampHunt workblock stampCost seed).midState = some
      { h := absorb count blocks initialState, buffered := rest, len := (blocks ++ rest).length % 256 ^ 8 } := by
  have parts := take_append_drop (workblock.length / 64 * 64) workblock
  have whole : (workblock.take (workblock.length / 64 * 64)).length = 64 * (workblock.length / 64) := by
    rw [length_take]
    omega
  have short : (workblock.drop (workblock.length / 64 * 64)).length < 64 := by
    rw [length_drop]
    omega
  refine ⟨_, _, _, whole, parts.symm, ?_⟩
  rw [← unmarshalBinary_written whole short]
  have padded : (workblock.drop (workblock.length / 64 * 64) ++ replicate 64 (0 : UInt8)).take 64 =
      workblock.drop (workblock.length / 64 * 64) ++
        replicate (64 - (workblock.drop (workblock.length / 64 * 64)).length) 0 := by
    rw [List.take_append, take_of_length_le short.le, take_replicate, Nat.min_eq_left (Nat.sub_le _ _)]
  rw [stampHunt, midstateOfPrefix_ok]
  dsimp only
  rw [if_neg (by simp), padded, written, parts, append_assoc]

theorem stampHunt_digest (stamp : Bytes) :
    (stampHunt workblock stampCost seed).digest stamp = some (sha256 (workblock ++ stamp)) := by
  obtain ⟨count, blocks, rest, whole, parts, resumed⟩ := unmarshalBinary_stampHunt workblock stampCost seed
  rw [StampHunt.digest, resumed, Option.map_some, sum_resumed whole, ← parts]

theorem stampHunt_target : (stampHunt workblock stampCost seed).target = stampTarget stampCost := by
  unfold stampHunt
  dsimp only
  split
  · rfl
  · split <;> rfl

end

/-- A stamp as a search looks for it. -/
structure Sought (workblock : Bytes) (stampCost : Int) (stamp : Bytes) : Prop where
  size : stamp.length = stampSize
  meets : meetsTarget (sha256 (workblock ++ stamp)) stampCost = true

def StampHunter.stamp : StampHunter → Option Bytes
  | .hit stamp | .sending stamp => some stamp
  | _ => none

/-- Every stamp in a search is one that was sought. -/
structure StampSearch.Sound (p : Bytes → Prop) (s : StampSearch) : Prop where
  workers : ∀ worker ∈ s.workers, ∀ stamp ∈ worker.stamp, p stamp
  resCh : ∀ stamp ∈ s.resCh, p stamp
  returned : ∀ result ∈ s.returned, ∀ stamp ∈ result, p stamp

section
variable {h : StampHunt} {p : Bytes → Prop} {s s' : StampSearch}
  (hits : ∀ worker counter sum, h.digest (h.candidate worker counter) = some sum → bytesLe sum h.target = true →
    p (h.candidate worker counter))
include hits

theorem StampSearch.Sound.work {i : Nat} {worker next : StampHunter} (sound : s.Sound p)
    (held : ∀ stamp ∈ worker.stamp, p stamp) (worked : h.work i s worker = some (s', next)) :
    s'.workers = s.workers ∧ (∀ stamp ∈ next.stamp, p stamp) ∧ (∀ stamp ∈ s'.resCh, p stamp) ∧
      s'.returned = s.returned := by
  have empty : ∀ stamp ∈ (none : Option Bytes), p stamp := fun _ member => nomatch member
  cases worker with
  | looping counter =>
    cases worked
    refine ⟨rfl, ?_, sound.resCh, rfl⟩
    split <;> exact empty
  | trying counter =>
    rw [StampHunt.work] at worked
    split at worked
    next =>
      cases worked
      exact ⟨rfl, empty, sound.resCh, rfl⟩
    next =>
      split at worked
      next =>
        cases worked
        exact ⟨rfl, empty, sound.resCh, rfl⟩
      next sum digest =>
        cases worked
        refine ⟨rfl, ?_, sound.resCh, rfl⟩
        split
        next small =>
          rintro _ ⟨⟩
          exact hits _ _ sum digest small
        next => exact empty
  | hit stamp =>
    rw [StampHunt.work] at worked
    split at worked
    next =>
      cases worked
      exact ⟨rfl, empty, sound.resCh, rfl⟩
    next =>
      cases worked
      exact ⟨rfl, held, sound.resCh, rfl⟩
  | sending stamp =>
    cases worked
    refine ⟨rfl, empty, ?_, rfl⟩
    intro other sent
    rcases Option.or_eq_some_iff.1 sent with before | ⟨-, same⟩
    · exact sound.resCh other before
    · exact held other same
  | returned => cases worked

theorem StampSearch.Sound.step {event : StampEvent} (sound : s.Sound p) (stepped : h.step s event = some s') :
    s'.Sound p := by
  have empty : ∀ stamp ∈ (none : Option Bytes), p stamp := fun _ member => nomatch member
  cases event with
  | work i =>
    obtain ⟨worker, found, worked⟩ := Option.bind_eq_some_iff.1 stepped
    obtain ⟨⟨after, next⟩, went, rfl⟩ := Option.map_eq_some_iff.1 worked
    have held := sound.workers worker (mem_of_getElem? found)
    obtain ⟨-, stamp, resCh, returned⟩ := sound.work hits held went
    refine ⟨fun other member => ?_, resCh, returned ▸ sound.returned⟩
    rcases mem_or_eq_of_mem_set member with before | rfl
    · exact sound.workers other before
    · exact stamp
  | cancel =>
    cases stepped
    exact ⟨sound.workers, sound.resCh, sound.returned⟩
  | receive =>
    rw [StampHunt.step] at stepped
    split at stepped
    next => cases stepped
    next stamp _ sent =>
      cases stepped
      refine ⟨sound.workers, empty, ?_⟩
      rintro _ ⟨⟩ _ ⟨⟩
      exact sound.resCh stamp sent
    next =>
      split at stepped
      · cases stepped
        exact ⟨sound.workers, sound.resCh, by rintro _ ⟨⟩; exact empty⟩
      · cases stepped
  | abandon =>
    rw [StampHunt.step] at stepped
    split at stepped
    · cases stepped
      exact ⟨sound.workers, sound.resCh, by rintro _ ⟨⟩; exact empty⟩
    · cases stepped

end

/-- What comes out of a search is a stamp of the right size whose digest is not above the target. -/
theorem generateStamp_sought {procs : Nat} {seed : Seed} {messageID stamp workblock : Bytes}
    {stampCost expandRounds value : Int} (generated : GenerateStamp procs seed messageID stampCost expandRounds stamp value)
    (expanded : serialWorkblock messageID (expandRoundsOr expandRounds) = some workblock) :
    Sought workblock stampCost stamp := by
  obtain ⟨-, -, other, events, s, derived, ran, returned, -⟩ := generated
  rw [stampWorkblockCPU_iff, expanded] at derived
  cases derived
  have sound : s.Sound (Sought workblock stampCost) := by
    refine invariant_of_run (fun _ _ _ sound stepped => sound.step ?_ stepped) ?_ ran
    · intro worker counter sum digest small
      rw [stampHunt_digest] at digest
      cases digest
      rw [stampHunt_target] at small
      exact ⟨candidate_length _ worker counter, small⟩
    · refine ⟨fun worker member => ?_, nofun, nofun⟩
      rw [eq_of_mem_replicate member]
      nofun
  exact sound.returned _ returned stamp rfl

theorem expandRoundsOr_ne_zero (expandRounds : Int) : expandRoundsOr expandRounds ≠ 0 := by
  unfold expandRoundsOr
  split
  · decide
  · omega

/-- Every checker takes a stamp, each for what it derives its workblocks from. -/
structure AcceptedEverywhere (procs : Nat) (messageID : Bytes) (cost expandRounds : Int) (stamp : Bytes) : Prop where
  single : ∀ workblock, stampWorkblock messageID (expandRoundsOr expandRounds) = some workblock →
    stampValid stamp cost workblock = true
  message : ∀ (m : LXMessage) tickets, m.hash = messageID → m.stamp = stamp →
    expandRoundsOr expandRounds = workblockExpandRounds → (m.validateStamp cost tickets).2 = .ok true
  batch : ∀ (cands : List StampCandidate) (i : Nat) out, cands[i]? = some ⟨messageID, stamp⟩ →
    ValidateStampBatch procs cands cost expandRounds out → out[i]? = some true
  propagation : ∀ lxm messages out, messageID = sha256 lxm → expandRoundsOr expandRounds = workblockExpandRoundsPN →
    overhead < lxm.length → lxm ++ stamp ∈ messages → ValidatePNStamps procs messages cost out →
    ∃ entry ∈ out, entry.transientID = messageID ∧ entry.lxmData = lxm ∧ entry.stamp = stamp
  peering : expandRoundsOr expandRounds = workblockExpandRoundsPeering → validatePeeringKey messageID stamp cost = true

section
variable {digest : Bytes} {cost : Int} (positive : 1 ≤ cost) (bounded : cost ≤ 255)
include positive bounded

/-- Target and value part at the target itself. -/
theorem meetsTarget_agrees_iff (long : digest.length = 32) :
    (meetsTarget digest cost = true ↔ cost ≤ leadingZeros digest) ↔ beNat digest ≠ 2 ^ (256 - cost).toNat := by
  rw [meetsTarget_iff long positive bounded, le_leadingZeros_iff long positive (by omega)]
  omega

variable {stamp workblock : Bytes}

theorem stampValid_agrees_iff (size : stamp.length = stampSize) :
    (stampValid stamp cost workblock = true ↔ cost ≤ stampValue workblock stamp) ↔
      beNat (sha256 (workblock ++ stamp)) ≠ 2 ^ (256 - cost).toNat := by
  have nonempty : stamp ≠ [] := fun empty => by simp [empty] at size
  rw [stampValid_eq size positive (by omega), stampValue, if_neg nonempty]
  exact meetsTarget_agrees_iff positive bounded (sha256_length _)

theorem meetsCost_iff (sought : Sought workblock cost stamp) :
    meetsCost stamp cost workblock = true ↔ beNat (sha256 (workblock ++ stamp)) ≠ 2 ^ (256 - cost).toNat := by
  have valid : stampValid stamp cost workblock = true := by
    rw [stampValid_eq sought.size positive (by omega), sought.meets]
  rw [← stampValid_agrees_iff positive bounded sought.size, valid, meetsCost, valid, if_neg (by decide),
    if_neg (by omega)]
  simp

variable {messageID : Bytes} {expandRounds : Int}

/-- A stamp that was sought passes all checks but the batch check, which asks for its value. -/
theorem acceptedEverywhere_iff (procs : Nat) (something : messageID ≠ [])
    (expanded : serialWorkblock messageID (expandRoundsOr expandRounds) = some workblock)
    (sought : Sought workblock cost stamp) : AcceptedEverywhere procs messageID cost expandRounds stamp ↔
      beNat (sha256 (workblock ++ stamp)) ≠ 2 ^ (256 - cost).toNat := by
  have derived : stampWorkblock messageID (expandRoundsOr expandRounds) = some workblock := by
    rw [stampWorkblock_eq (expandRoundsOr_ne_zero expandRounds) something, expanded]
  have valid : stampValid stamp cost workblock = true := by
    rw [stampValid_eq sought.size positive (by omega), sought.meets]
  have nonempty : stamp ≠ [] := by
    intro empty
    have size := sought.size
    rw [empty] at size
    cases size
  have inBatch : StampCandidate.accepted cost (expandRoundsOr expandRounds) ⟨messageID, stamp⟩ =
      meetsCost stamp cost workblock := by
    rw [StampCandidate.accepted, StampCandidate.meets, if_neg (by simp [sought.size, something]), expanded]
    rfl
  rw [← meetsCost_iff positive bounded sought]
  constructor
  · intro accepted
    have one := accepted.batch [⟨messageID, stamp⟩] 0 _ rfl ((validateStampBatch_iff _ _ _ _ _).2 rfl)
    rw [map_singleton, inBatch] at one
    exact Option.some.inj one
  · intro meets
    refine ⟨?_, ?_, ?_, ?_, ?_⟩
    · intro other same
      rw [derived] at same
      cases same
      exact valid
    · intro m tickets hash carried usual
      rw [usual, ← hash] at derived
      exact validateStamp_work m cost tickets (hash ▸ something) (carried ▸ nonempty) derived (carried ▸ valid)
    · intro cands i out found validated
      rw [(validateStampBatch_iff _ _ _ _ _).1 validated, List.getElem?_map, found, Option.map_some, inBatch, meets]
    · intro lxm messages out hash usual long member validated
      have cut : (lxm ++ stamp).length - stampSize = lxm.length := by
        rw [length_append, sought.size, Nat.add_sub_cancel]
      have front : transientPart (lxm ++ stamp) = lxm := by rw [transientPart, cut, take_left]
      have back : stampPart (lxm ++ stamp) = stamp := by rw [stampPart, cut, drop_left]
      rw [usual, hash] at expanded
      have here : pnWorkblock (lxm ++ stamp) = workblock := by rw [pnWorkblock, front, expanded, Option.getD_some]
      have accepted : pnAccepted cost (lxm ++ stamp) = true := by
        rw [pnAccepted, here, back, valid, length_append, sought.size]
        simpa using long
      rw [(validatePNStamps_iff _ _ _ _).1 validated]
      have entry : validatePNStamp cost (lxm ++ stamp) = some ⟨sha256 lxm, lxm,
          stampValue (pnWorkblock (lxm ++ stamp)) stamp, stamp⟩ := by
        rw [validatePNStamp_accepted, if_pos accepted, front, back]
      exact ⟨_, mem_filterMap.2 ⟨_, member, entry⟩, hash.symm, rfl, rfl⟩
    · intro usual
      rw [validatePeeringKey, ← usual, derived]
      exact valid

end

/-- The comparison with the target and the count of zero bits agree on every digest but the target itself, and there
the batch check turns down what the search found. -/
theorem stampValue_agrees_iff (cost : Int) :
    (∀ digest : Bytes, digest.length = 32 → 1 ≤ cost → cost ≤ 255 →
      ((meetsTarget digest cost = true ↔ cost ≤ leadingZeros digest) ↔ beNat digest ≠ 2 ^ (256 - cost).toNat)) ∧
    (∀ workblock stamp : Bytes, stamp.length = stampSize → 1 ≤ cost → cost ≤ 255 →
      ((stampValid stamp cost workblock = true ↔ cost ≤ stampValue workblock stamp) ↔
        beNat (sha256 (workblock ++ stamp)) ≠ 2 ^ (256 - cost).toNat)) ∧
    ∀ (procs : Nat) (seed : Seed) (messageID workblock stamp : Bytes) (expandRounds value : Int),
      1 ≤ cost → cost ≤ 255 → GenerateStamp procs seed messageID cost expandRounds stamp value →
      serialWorkblock messageID (expandRoundsOr expandRounds) = some workblock →
      (AcceptedEverywhere procs messageID cost expandRounds stamp ↔
        beNat (sha256 (workblock ++ stamp)) ≠ 2 ^ (256 - cost).toNat) := by
  refine ⟨fun digest long positive bounded => meetsTarget_agrees_iff positive bounded long,
    fun workblock stamp size positive bounded => stampValid_agrees_iff positive bounded size, ?_⟩
  intro procs seed messageID workblock stamp expandRounds value positive bounded generated expanded
  exact acceptedEverywhere_iff positive bounded procs generated.2.1 expanded (generateStamp_sought generated expanded)

/-- The target of cost 8 is met by a digest with seven zero bits. -/
theorem meetsTarget_seven_zeros :
    ∃ digest : Bytes, digest.length = 32 ∧ meetsTarget digest 8 = true ∧ ¬ (8 : Int) ≤ leadingZeros digest :=
  ⟨stampTarget 8, by decide +kernel⟩

end ReticulumProtocols.Lxmf
