import ReticulumProtocols.Msgpack.Reorder
import ReticulumProtocols.Wire.Sha256

/-! LXMF messages and `Pack`. The payload is encoded once for the hash and the signature, and a
second time, in a map order of its own, when a stamp has to be shipped with it. -/

namespace ReticulumProtocols.Lxmf
open Wire Msgpack Sha256 List AList

abbrev destinationLength : Nat := 16
abbrev signatureLength : Nat := 64
abbrev ticketLength : Nat := 16

/-- A Go map with distinct keys. -/
abbrev GoMap (K V : Type) := AList fun _ : K => V

/-- A `range` over a map that deletes the entries with a disliked value. -/
def eraseWhere {K V : Type} [DecidableEq K] (dislikes : V → Bool) (map : GoMap K V) : GoMap K V :=
  map.entries.foldl (fun kept entry => if dislikes entry.2 then kept.erase entry.1 else kept) map

section
variable {K V : Type} [DecidableEq K] (map : GoMap K V)
variable {pairs : List (K × V)}

theorem length_erase_le (key : K) : (AList.erase key map).keys.length ≤ map.keys.length := by
  rw [keys_erase]
  exact List.length_erase_le

theorem length_insert_le (key : K) (value : V) : (map.insert key value).keys.length ≤ map.keys.length + 1 := by
  rw [keys_insert, length_cons]
  exact Nat.succ_le_succ List.length_erase_le

theorem length_insert_of_mem {key : K} (value : V) (known : key ∈ map) :
    (map.insert key value).keys.length = map.keys.length := by
  rw [keys_insert, length_cons, length_erase_of_mem (mem_keys.1 known)]
  exact Nat.sub_add_cancel (length_pos_of_mem (mem_keys.1 known))

/-- Entering pairs one after the other, where a key never comes with two values. -/
theorem lookup_foldl_insert (functional : ∀ p ∈ pairs, ∀ q ∈ pairs, p.1 = q.1 → p.2 = q.2)
    (key : K) (value : V) :
    (pairs.foldl (fun map pair => map.insert pair.1 pair.2) map).lookup key = some value ↔
      (key, value) ∈ pairs ∨ key ∉ pairs.map Prod.fst ∧ map.lookup key = some value := by
  induction pairs using List.reverseRecOn with
  | nil => simp
  | append_singleton pairs last ih =>
    have earlier := ih fun p before q before' => functional p (mem_append_left _ before) q
      (mem_append_left _ before')
    rw [foldl_append, foldl_cons, foldl_nil, mem_append, mem_singleton, map_append,
      mem_append, map_singleton, mem_singleton]
    by_cases own : key = last.1
    · rw [own, lookup_insert]
      constructor
      · intro found
        exact .inl (.inr (Prod.ext rfl (Option.some.inj found).symm))
      · rintro ((before | same) | ⟨fresh, -⟩)
        · exact congrArg some (functional last (by simp) _ (mem_append_left _ before) rfl)
        · rw [← same]
        · exact absurd (.inr rfl) fresh
    · have apart : (key, value) ≠ last := fun same => own (congrArg Prod.fst same)
      rw [lookup_insert_ne own, earlier, or_iff_left own, or_iff_left apart]

theorem lookup_foldl_erase (keys : List K) (map : GoMap K V) (key : K) :
    (keys.foldl (fun map key => map.erase key) map).lookup key = if key ∈ keys then none else map.lookup key := by
  induction keys generalizing map with
  | nil => rfl
  | cons first keys ih =>
    rw [foldl_cons, ih]
    by_cases later : key ∈ keys
    · rw [if_pos later, if_pos (mem_cons_of_mem first later)]
    · rw [if_neg later]
      by_cases own : key = first
      · rw [own, lookup_erase, if_pos mem_cons_self]
      · rw [lookup_erase_ne own, if_neg (not_mem_cons_of_ne_of_not_mem own later)]

theorem eraseWhere_eq (dislikes : V → Bool) :
    eraseWhere dislikes map =
      ((map.entries.filter fun entry => dislikes entry.2).map Sigma.fst).foldl (fun map key => map.erase key) map := by
  rw [eraseWhere, foldl_map, foldl_filter]

/-- What is left after a `range` that deletes. -/
theorem lookup_eraseWhere (dislikes : V → Bool) (key : K) :
    (eraseWhere dislikes map).lookup key = (map.lookup key).filter fun value => !dislikes value := by
  have disliked : key ∈ (map.entries.filter fun entry => dislikes entry.2).map Sigma.fst ↔
      ∃ value, map.lookup key = some value ∧ dislikes value = true := by
    simp only [mem_map, mem_filter, ← Option.mem_def, mem_lookup_iff]
    constructor
    · rintro ⟨⟨_, value⟩, ⟨member, bad⟩, rfl⟩
      exact ⟨value, member, bad⟩
    · intro ⟨value, member, bad⟩
      exact ⟨⟨key, value⟩, ⟨member, bad⟩, rfl⟩
  rw [eraseWhere_eq, lookup_foldl_erase]
  cases found : map.lookup key with
  | none => rw [ite_self, Option.filter_none]
  | some value =>
    rw [Option.filter_some]
    simp only [disliked, found, Option.some.injEq, exists_eq_left']
    cases dislikes value <;> rfl

/-- A map that is made of pairs with distinct keys. -/
theorem lookup_distinct (distinct : (pairs.map Prod.fst).Nodup) (key : K) (value : V) :
    (pairs.foldl (fun map pair => map.insert pair.1 pair.2) (∅ : GoMap K V)).lookup key = some value ↔
      (key, value) ∈ pairs := by
  rw [lookup_foldl_insert]
  · simp
  · intro p listed q listed' same
    rw [inj_on_of_nodup_map distinct listed listed' same]

theorem entries_distinct (distinct : (pairs.map Prod.fst).Nodup) :
    ((pairs.foldl (fun map pair => map.insert pair.1 pair.2) (∅ : GoMap K V)).entries.map fun entry =>
      (entry.1, entry.2)).Perm pairs := by
  apply (perm_ext_iff_of_nodup _ distinct.of_map).2
  · rintro ⟨key, value⟩
    rw [← lookup_distinct distinct, ← Option.mem_def, mem_lookup_iff, mem_map]
    constructor
    · rintro ⟨entry, listed, same⟩
      cases same
      exact listed
    · exact fun listed => ⟨_, listed, rfl⟩
  · apply List.Nodup.of_map Prod.fst
    rw [map_map]
    exact AList.keys_nodup _

end

/-- `map[byte]any`. -/
abbrev Fields := GoMap UInt8 Value

/-- What a key pair can do: `Sign` may fail, `Verify` takes data and signature. -/
structure Identity where
  sign : Bytes → Option Bytes
  verify : Bytes → Bytes → Bool

/-- The part of `LXMessage` that packing, stamping and receiving work on. `none` is a nil slice
or map; the timestamp is kept as the bits of the float64. -/
structure LXMessage where
  destinationHash : Bytes
  sourceHash : Bytes
  title : Option Bytes := none
  content : Option Bytes := none
  fields : Option Fields := none
  timestamp : UInt64 := 0
  stamp : Bytes := []
  hash : Bytes := []
  signature : Bytes := []
  packed : Bytes := []
  incoming : Bool := false
  signatureValidated : Bool := false
  unverifiedReason : UInt8 := 0
  includeTicket : Bool := false
  outboundTicket : Bytes := []
  stampCost : Option Int := none
  stampValue : Int := 0
  stampValid : Bool := false

/-- `append([]byte(nil), data...)`, which is nil for no data. -/
def cloneBytes (data : Bytes) : Option Bytes := if data = [] then none else some data

inductive PackError where
  | signerRequired
  | destinationHashLength
  | sourceHashLength
  | sign
  | signatureLength (length : Nat)
  deriving DecidableEq, Repr

def byteKey (key : UInt8) : Scalar := .int (.of .uint8 key.toNat)

def optionalBytes : Option Bytes → Value
  | none => .nil
  | some data => .bytes data

def fieldsValue : Option Fields → Value
  | none => .nil
  | some fields => .map .byte (fields.entries.map fun entry => (byteKey entry.1, entry.2))

namespace LXMessage

def setField (m : LXMessage) (key : UInt8) (value : Value) : LXMessage :=
  { m with fields := some ((m.fields.getD ∅).insert key value) }

/-- `m.Timestamp == 0`, which both float zeros satisfy. -/
def timestampUnset (m : LXMessage) : Bool := m.timestamp == 0 || m.timestamp == 0x8000000000000000

def payloadList (m : LXMessage) (includeStamp : Bool) : List Value :=
  [.float64 m.timestamp, optionalBytes m.title, optionalBytes m.content, fieldsValue m.fields] ++
    if includeStamp ∧ 0 < m.stamp.length then [.bytes m.stamp] else []

end LXMessage

/-- `encodePayload`: one compact encoding, in the map order this call happens to use. -/
def encodePayload (order : MapOrder) (payload : List Value) : Bytes := encode true (order.run (.arr payload))

/-- The bytes under the signature: both hashes, the payload, and the digest of those. -/
def signedPart (destinationHash sourceHash hashedPayload : Bytes) : Bytes :=
  let hashed := destinationHash ++ sourceHash ++ hashedPayload
  hashed ++ sha256 hashed

def messageHash (destinationHash sourceHash hashedPayload : Bytes) : Bytes :=
  sha256 (destinationHash ++ sourceHash ++ hashedPayload)

namespace LXMessage

/-- The timestamp is filled in by the first `Pack` of a message. -/
def stampTime (m : LXMessage) (now : UInt64) : LXMessage :=
  if m.timestampUnset then { m with timestamp := now } else m

/-- `Pack`; `first` and `second` are the map orders of its two encodings. -/
def pack (m : LXMessage) (signer : Option Identity) (now : UInt64) (first second : MapOrder) :
    LXMessage × Except PackError Bytes :=
  match signer with
  | none => (m, .error .signerRequired)
  | some signer =>
    if m.destinationHash.length ≠ destinationLength then (m, .error .destinationHashLength)
    else if m.sourceHash.length ≠ destinationLength then (m, .error .sourceHashLength)
    else
      let m := m.stampTime now
      let hashedPayload := encodePayload first (m.payloadList false)
      let m := { m with hash := messageHash m.destinationHash m.sourceHash hashedPayload }
      match signer.sign (signedPart m.destinationHash m.sourceHash hashedPayload) with
      | none => (m, .error .sign)
      | some signature =>
        if signature.length ≠ signatureLength then (m, .error (.signatureLength signature.length))
        else
          let m := { m with signature := signature, signatureValidated := true }
          let packedPayload :=
            if 0 < m.stamp.length then encodePayload second (m.payloadList true) else hashedPayload
          let packed := m.destinationHash ++ m.sourceHash ++ signature ++ packedPayload
          ({ m with packed := packed }, .ok packed)

end LXMessage

end ReticulumProtocols.Lxmf
