import ReticulumProtocols.Lxmf.Message

/-! Stamps: the workblock expanded from a hash, proof-of-work validity and value, and
`ValidateStamp`, which tries the tickets before the proof of work. -/

namespace ReticulumProtocols.Lxmf
open Wire Msgpack Sha256 List

abbrev stampSize : Nat := 32
abbrev workblockExpandRounds : Nat := 3000
abbrev workblockExpandRoundsPN : Nat := 1000
abbrev workblockExpandRoundsPeering : Nat := 25
def stampValueTicket : Int := 0x100

/-- The output blocks of HKDF: each is keyed by `prk` over its predecessor, `info` and a counter. -/
def hkdfBlocks (prk info : Bytes) : Nat → Nat → Bytes → Bytes
  | 0, _, _ => []
  | iterations + 1, i, block =>
    let block := hmac prk (block ++ info ++ [UInt8.ofNat (i + 1)])
    block ++ hkdfBlocks prk info iterations (i + 1) block

def deriveKey (secret salt info : Bytes) (length : Nat) : Option Bytes :=
  if length < 1 ∨ secret = [] ∨ 255 < (length + 31) / 32 then none
  else
    let prk := hmac (if salt = [] then replicate 32 0 else salt) secret
    some ((hkdfBlocks prk info ((length + 31) / 32) 0 []).take length)

/-- One round of the workblock, salted with the round's number. -/
def workblockRound (material : Bytes) (n : Nat) : Option Bytes :=
  deriveKey material (sha256 (material ++ encode false (.int (.of .int n)))) [] 256

/-- `StampWorkblock`, in the order in which its workers' chunks are laid out. -/
def stampWorkblock (material : Bytes) (expandRounds : Nat) : Option Bytes :=
  if expandRounds = 0 ∨ material = [] then none
  else ((range expandRounds).mapM (workblockRound material)).map List.flatten

theorem stampWorkblock_isSome {material : Bytes} {expandRounds : Nat} (rounds : expandRounds ≠ 0)
    (something : material ≠ []) : (stampWorkblock material expandRounds).isSome = true := by
  have each : ∀ n, ∃ block, workblockRound material n = some block := by
    intro n
    rw [workblockRound, deriveKey, if_neg (by simp [something])]
    exact ⟨_, rfl⟩
  choose block derived using each
  have pointwise : workblockRound material = fun n => pure (block n) := funext derived
  rw [stampWorkblock, if_neg (by simp [rounds, something]), pointwise, mapM_pure]
  rfl

/-- `bytes.Compare(x, y) <= 0`. -/
def bytesLe : Bytes → Bytes → Bool
  | [], _ => true
  | _ :: _, [] => false
  | x :: xs, y :: ys => if x = y then bytesLe xs ys else x < y

/-- `stampTarget`: the big-endian bytes of 2 to the 256 - cost, zero for a cost outside 1..255. -/
def stampTarget (cost : Int) : Bytes :=
  let zero := replicate 32 0
  if 256 ≤ cost then zero
  else
    let pos := 256 - cost
    let byteIdx := 31 - pos / 8
    if byteIdx < 0 then zero else zero.set byteIdx.toNat (1 <<< UInt8.ofNat (pos % 8).toNat)

def stampValid (stamp : Bytes) (targetCost : Int) (workblock : Bytes) : Bool :=
  if targetCost ≤ 0 then true
  else if stamp.length ≠ stampSize then false
  else if 256 < targetCost then false
  else bytesLe (sha256 (workblock ++ stamp)) (stampTarget targetCost)

/-- Zero bits in front of the first one bit of a byte. -/
def byteLeadingZeros (b : UInt8) : Nat → Nat
  | 0 => 0
  | bit + 1 => if b &&& (1 <<< UInt8.ofNat bit) ≠ 0 then 0 else 1 + byteLeadingZeros b bit

def leadingZeros : Bytes → Nat
  | [] => 0
  | b :: rest => if b = 0 then 8 + leadingZeros rest else byteLeadingZeros b 8

def stampValue (workblock stamp : Bytes) : Int :=
  if stamp = [] then 0 else leadingZeros (sha256 (workblock ++ stamp))

/-- `truncatedHash`: ticket and message id go through a 48-byte buffer. -/
def truncatedHash (ticket messageID : Bytes) : Bytes :=
  (sha256 ((ticket ++ messageID).take (ticketLength + 32))).take destinationLength

inductive StampError where
  | noHash
  | workblock
  deriving DecidableEq, Repr

def LXMessage.validateStamp (m : LXMessage) (targetCost : Int) (tickets : List Bytes) :
    LXMessage × Except StampError Bool :=
  if m.hash = [] then (m, .error .noHash)
  else if m.stamp ≠ [] ∧ ∃ ticket ∈ tickets, ticket.length = ticketLength ∧ truncatedHash ticket m.hash = m.stamp then
    ({ m with stampValue := stampValueTicket, stampValid := true }, .ok true)
  else if m.stamp = [] then ({ m with stampValid := false }, .ok false)
  else
    match stampWorkblock m.hash workblockExpandRounds with
    | none => (m, .error .workblock)
    | some workblock =>
      if Lxmf.stampValid m.stamp targetCost workblock then
        ({ m with stampValue := Lxmf.stampValue workblock m.stamp, stampValid := true }, .ok true)
      else ({ m with stampValid := false }, .ok false)

section
variable (m : LXMessage) (targetCost : Int) (tickets : List Bytes)

/-- A matching ticket decides before the proof of work is looked at. -/
theorem validateStamp_ticket {ticket : Bytes} (member : ticket ∈ tickets) (length : ticket.length = ticketLength)
    (hashed : m.hash ≠ []) (stamped : m.stamp ≠ []) (matched : truncatedHash ticket m.hash = m.stamp) :
    (m.validateStamp targetCost tickets).2 = .ok true := by
  rw [LXMessage.validateStamp, if_neg hashed, if_pos ⟨stamped, ticket, member, length, matched⟩]

theorem validateStamp_work {workblock : Bytes} (hashed : m.hash ≠ []) (stamped : m.stamp ≠ [])
    (expanded : stampWorkblock m.hash workblockExpandRounds = some workblock)
    (valid : stampValid m.stamp targetCost workblock = true) :
    (m.validateStamp targetCost tickets).2 = .ok true := by
  by_cases redeemed : m.stamp ≠ [] ∧ ∃ ticket ∈ tickets,
      ticket.length = ticketLength ∧ truncatedHash ticket m.hash = m.stamp
  · rw [LXMessage.validateStamp, if_neg hashed, if_pos redeemed]
  · rw [LXMessage.validateStamp, if_neg hashed, if_neg redeemed, if_neg stamped, expanded]
    simp only [valid, if_true]

end

@[simp] theorem truncatedHash_length (ticket messageID : Bytes) :
    (truncatedHash ticket messageID).length = destinationLength := by
  rw [truncatedHash, length_take, sha256_length]
  rfl

end ReticulumProtocols.Lxmf
