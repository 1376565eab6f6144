import ReticulumProtocols.Lxmf.Tickets
import ReticulumProtocols.Wire.Text

/-! The order in which the known propagation nodes are tried. A node is known under its own hash, so the sorts compare
no two equal keys and leave nothing to the order in which the map is met. -/

namespace ReticulumProtocols.Lxmf
open Wire Text List AList

structure PropagationNode where
  hash : Bytes
  name : Bytes
  stampCost : Int64
  hops : UInt8
  lastSeen : Int
  addressed : hash.length = destinationLength
  deriving DecidableEq

namespace PropagationNode
variable (n : PropagationNode)

/-- A byte string as `bytes.Compare` orders it. -/
def lexical (bytes : Bytes) : List Nat := bytes.map UInt8.toNat

/-- What `List` sorts by. -/
def byName : List Nat ×ₗ List Nat := toLex (lexical n.name, lexical n.hash)

/-- What `AttemptOrder` sorts by. -/
def byHops : Nat ×ₗ List Nat := toLex (n.hops.toNat, lexical n.hash)

theorem lexical_inj {a b : Bytes} (same : lexical a = lexical b) : a = b :=
  map_injective_iff.2 (fun _ _ => UInt8.toNat_inj.1) same

theorem hash_of_byHops {a b : PropagationNode} (same : a.byHops = b.byHops) : a.hash = b.hash :=
  lexical_inj (congrArg (fun key => (ofLex key).2) same)

end PropagationNode
open PropagationNode

/-- Each node is under its own hash. -/
structure PropagationRegistry where
  nodes : GoMap Bytes PropagationNode := ∅
  keyed : ∀ key n, nodes.lookup key = some n → n.hash = key := by
    intro key n found
    contradiction

/-- `appendNode`; `seen` holds the hashes of the nodes in `out`. -/
def appendNode (skip : GoMap Bytes Unit) (out : List PropagationNode) (n : PropagationNode) : List PropagationNode :=
  if encodeHex n.hash ∈ skip then out else if n.hash ∈ out.map hash then out else out ++ [n]

namespace PropagationRegistry
variable (r : PropagationRegistry) (visit : Visit) (hasPath : Bytes → Bool) (skip : GoMap Bytes Unit)

/-- The end of `ReceivedAnnounce`. -/
def record (n : PropagationNode) : PropagationRegistry where
  nodes := r.nodes.insert n.hash n
  keyed key m found := by
    by_cases own : key = n.hash
    · rw [own, lookup_insert] at found
      rw [← Option.some.inj found, own]
    · rw [lookup_insert_ne own] at found
      exact r.keyed key m found

def list : List PropagationNode :=
  ((visit.run r.nodes.entries).map fun entry => entry.2).insertionSort fun a b => a.byName ≤ b.byName

def reachable : List PropagationNode := (r.list visit).filter fun n => hasPath n.hash

def nearest : List PropagationNode := (r.reachable visit hasPath).insertionSort fun a b => a.byHops ≤ b.byHops

def attemptOrder (preferred : Bytes) (maxAttempts : Int) : List PropagationNode :=
  let reachable := r.nearest visit hasPath
  let out :=
    if preferred.length = destinationLength then
      match reachable.find? fun n => n.hash = preferred with
      | some n => appendNode skip [] n
      | none => []
    else []
  let out := reachable.foldl (appendNode skip) out
  if 0 < maxAttempts ∧ maxAttempts < out.length then out.take maxAttempts.toNat else out

/-- A known node that can be reached and is not to be skipped. -/
def Eligible (n : PropagationNode) : Prop :=
  r.nodes.lookup n.hash = some n ∧ hasPath n.hash = true ∧ encodeHex n.hash ∉ skip

variable {r visit hasPath skip}

theorem list_perm : (r.list visit).Perm (r.nodes.entries.map fun entry => entry.2) :=
  (perm_insertionSort _ _).trans ((visit.perm _).map _)

theorem mem_list {n : PropagationNode} : n ∈ r.list visit ↔ r.nodes.lookup n.hash = some n := by
  rw [list_perm.mem_iff, mem_map]
  constructor
  · rintro ⟨⟨key, m⟩, member, rfl⟩
    have found : r.nodes.lookup key = some m := mem_lookup_iff.2 member
    rw [r.keyed key m found]
    exact found
  · intro found
    exact ⟨⟨n.hash, n⟩, mem_lookup_iff.1 found, rfl⟩

theorem list_nodup : ((r.list visit).map hash).Nodup := by
  rw [(list_perm.map hash).nodup_iff, map_map]
  have keys : r.nodes.entries.map (hash ∘ fun entry => entry.2) = r.nodes.keys :=
    map_congr_left fun entry member => r.keyed entry.1 entry.2 (mem_lookup_iff.2 member)
  rw [keys]
  exact r.nodes.nodupKeys

theorem nearest_perm : (r.nearest visit hasPath).Perm (r.reachable visit hasPath) := perm_insertionSort _ _

theorem mem_nearest {n : PropagationNode} :
    n ∈ r.nearest visit hasPath ↔ r.nodes.lookup n.hash = some n ∧ hasPath n.hash = true := by
  rw [nearest_perm.mem_iff, reachable, mem_filter, mem_list]

theorem nearest_nodup : ((r.nearest visit hasPath).map hash).Nodup := by
  rw [(nearest_perm.map hash).nodup_iff]
  exact list_nodup.sublist (List.filter_sublist.map hash)

theorem eq_of_hash {a b : PropagationNode} (here : a ∈ r.nearest visit hasPath) (there : b ∈ r.nearest visit hasPath)
    (same : a.hash = b.hash) : a = b := by
  have found := (mem_nearest.1 here).1
  rw [same, (mem_nearest.1 there).1] at found
  exact (Option.some.inj found).symm

theorem nearest_sorted : (r.nearest visit hasPath).Pairwise fun a b => a.byHops < b.byHops := by
  have sorted : (r.nearest visit hasPath).Pairwise fun a b => a.byHops ≤ b.byHops := pairwise_insertionSort _ _
  have apart : (r.nearest visit hasPath).Pairwise fun a b => a.hash ≠ b.hash :=
    pairwise_map.1 (nodup_iff_pairwise_ne.1 nearest_nodup)
  exact (sorted.and apart).imp fun both => lt_of_le_of_ne both.1 fun same => both.2 (hash_of_byHops same)

/-- The sort leaves nothing of the order in which the map was met. -/
theorem nearest_eq (visit visit' : Visit) : r.nearest visit hasPath = r.nearest visit' hasPath := by
  apply List.Perm.eq_of_pairwise (fun a b _ _ below above => absurd (below.trans above) (lt_irrefl _))
    nearest_sorted nearest_sorted
  exact nearest_perm.trans (((list_perm.trans list_perm.symm).filter _).trans nearest_perm.symm)

end PropagationRegistry

/-- The nodes that are not skipped come behind those that are there already. -/
theorem foldl_appendNode (skip : GoMap Bytes Unit) {nodes : List PropagationNode} (apart : (nodes.map hash).Nodup)
    (out : List PropagationNode) : nodes.foldl (appendNode skip) out =
      out ++ nodes.filter fun n : PropagationNode => decide (encodeHex n.hash ∉ skip ∧ n.hash ∉ out.map hash) := by
  induction nodes generalizing out with
  | nil => exact (append_nil out).symm
  | cons n nodes ih =>
    rw [map_cons, nodup_cons] at apart
    rw [foldl_cons, ih apart.2, filter_cons, appendNode]
    by_cases skipped : encodeHex n.hash ∈ skip
    · rw [if_pos skipped, if_neg (by simp [skipped])]
    · by_cases seen : n.hash ∈ out.map hash
      · rw [if_neg skipped, if_pos seen, if_neg (by simp [seen])]
      · rw [if_neg skipped, if_neg seen, if_pos (by simp [skipped, seen]), append_assoc, singleton_append]
        congr 2
        apply filter_congr
        intro m member
        have other : m.hash ≠ n.hash := fun same => apart.1 (same ▸ mem_map_of_mem member)
        simp [other]

namespace PropagationRegistry
variable (r : PropagationRegistry) (hasPath : Bytes → Bool) (skip : GoMap Bytes Unit) (preferred : Bytes)

/-- All that can be tried, the preferred node first. -/
def fullOrder : List PropagationNode :=
  let eligible := (r.nearest .listed hasPath).filter fun n => decide (encodeHex n.hash ∉ skip)
  (eligible.filter fun n : PropagationNode => n.hash = preferred) ++
    eligible.filter fun n : PropagationNode => n.hash ≠ preferred

variable {r hasPath skip preferred}

theorem mem_fullOrder {n : PropagationNode} : n ∈ r.fullOrder hasPath skip preferred ↔ r.Eligible hasPath skip n := by
  have either : n.hash = preferred ∨ ¬n.hash = preferred := em _
  simp only [fullOrder, mem_append, mem_filter, mem_nearest, decide_eq_true_eq, ← and_or_left, either, and_true,
    Eligible, and_assoc, ne_eq]

/-- The search for the preferred node finds all there is under its hash. -/
theorem filter_preferred :
    (match (r.nearest .listed hasPath).find? fun n => n.hash = preferred with
      | some n => appendNode skip [] n
      | none => []) =
      (r.nearest .listed hasPath).filter fun n => decide (n.hash = preferred ∧ encodeHex n.hash ∉ skip) := by
  have apart : ((r.nearest .listed hasPath).map hash).Nodup := nearest_nodup
  split
  next n found =>
    obtain ⟨own, before, after, parts, others⟩ := List.find?_eq_some_iff_append.1 found
    have same : n.hash = preferred := of_decide_eq_true own
    have none_before : before.filter (fun n => decide (n.hash = preferred ∧ encodeHex n.hash ∉ skip)) = [] := by
      apply filter_eq_nil_iff.2
      intro m member both
      have other := others m member
      simp_all
    have none_after : after.filter (fun n => decide (n.hash = preferred ∧ encodeHex n.hash ∉ skip)) = [] := by
      apply filter_eq_nil_iff.2
      intro m member both
      rw [parts, map_append, map_cons, nodup_append] at apart
      have again : m.hash = n.hash := (of_decide_eq_true both).1.trans same.symm
      exact (List.nodup_cons.1 apart.2.1).1 (again ▸ mem_map_of_mem member)
    rw [parts, filter_append, filter_cons, none_before, none_after, appendNode]
    by_cases skipped : encodeHex n.hash ∈ skip
    · simp [skipped]
    · simp [same]
  next missing =>
    apply (filter_eq_nil_iff.2 _).symm
    intro n member both
    exact List.find?_eq_none.1 missing n member (decide_eq_true (of_decide_eq_true both).1)

/-- Whether or not the preferred node is eligible, the loop adds the others behind it. -/
theorem attemptOrder_eq (visit : Visit) (maxAttempts : Int) : r.attemptOrder visit hasPath skip preferred maxAttempts =
    if 0 < maxAttempts then (r.fullOrder hasPath skip preferred).take maxAttempts.toNat
    else r.fullOrder hasPath skip preferred := by
  have start : (if preferred.length = destinationLength then
      match (r.nearest .listed hasPath).find? fun n => n.hash = preferred with
      | some n => appendNode skip [] n
      | none => []
    else []) =
      (r.nearest .listed hasPath).filter fun n => decide (n.hash = preferred ∧ encodeHex n.hash ∉ skip) := by
    split
    · exact filter_preferred
    next long =>
      apply (filter_eq_nil_iff.2 _).symm
      intro n _ both
      exact long ((of_decide_eq_true both).1 ▸ n.addressed)
  have rest (n : PropagationNode) (member : n ∈ r.nearest .listed hasPath) :
      decide (encodeHex n.hash ∉ skip ∧ n.hash ∉ ((r.nearest .listed hasPath).filter fun n =>
        decide (n.hash = preferred ∧ encodeHex n.hash ∉ skip)).map hash) =
        decide (n.hash ≠ preferred ∧ encodeHex n.hash ∉ skip) := by
    rw [decide_eq_decide, and_comm]
    apply and_congr_left
    intro kept
    rw [ne_eq, not_iff_not, mem_map]
    constructor
    · rintro ⟨m, listed, same⟩
      exact same ▸ (of_decide_eq_true (List.mem_filter.1 listed).2).1
    · intro own
      exact ⟨n, List.mem_filter.2 ⟨member, decide_eq_true ⟨own, kept⟩⟩, rfl⟩
  have full : (r.nearest .listed hasPath).foldl (appendNode skip) ((r.nearest .listed hasPath).filter fun n =>
      decide (n.hash = preferred ∧ encodeHex n.hash ∉ skip)) = r.fullOrder hasPath skip preferred := by
    rw [foldl_appendNode skip nearest_nodup, filter_congr rest, fullOrder, filter_filter, filter_filter]
    simp only [Bool.decide_and]
  rw [attemptOrder, nearest_eq visit .listed]
  simp only [start, full]
  by_cases limited : 0 < maxAttempts
  · rw [if_pos limited]
    split
    · rfl
    next all =>
      rw [take_of_length_le]
      omega
  · rw [if_neg limited, if_neg fun both => limited both.1]

/-- What is tried, in which order, and up to which number. -/
theorem attemptOrder_ordered (r : PropagationRegistry) (hasPath : Bytes → Bool) (skip : GoMap Bytes Unit)
    (preferred : Bytes) (maxAttempts : Int) : ∃ full : List PropagationNode,
      (full.map hash).Nodup ∧ (∀ n, n ∈ full ↔ r.Eligible hasPath skip n) ∧
      (∀ n ∈ full, n.hash = preferred → full.head? = some n) ∧
      (full.filter fun n => n.hash ≠ preferred).Pairwise (fun a b => a.byHops < b.byHops) ∧
      ∀ visit : Visit, r.attemptOrder visit hasPath skip preferred maxAttempts =
        if 0 < maxAttempts then full.take maxAttempts.toNat else full := by
  have parts := filter_append_perm (fun n : PropagationNode => decide (n.hash = preferred))
    ((r.nearest .listed hasPath).filter fun n => decide (encodeHex n.hash ∉ skip))
  simp only [← decide_not] at parts
  change (r.fullOrder hasPath skip preferred).Perm _ at parts
  refine ⟨r.fullOrder hasPath skip preferred, ?_, fun n => mem_fullOrder, ?_, ?_, fun visit => attemptOrder_eq visit _⟩
  · rw [(parts.map hash).nodup_iff]
    exact nearest_nodup.sublist (List.filter_sublist.map hash)
  · intro n member own
    have listed : n ∈ ((r.nearest .listed hasPath).filter fun n => decide (encodeHex n.hash ∉ skip)).filter
        fun n => n.hash = preferred :=
      List.mem_filter.2 ⟨parts.mem_iff.1 member, decide_eq_true own⟩
    obtain ⟨first, others, form⟩ := exists_cons_of_ne_nil (ne_nil_of_mem listed)
    have ahead := List.mem_filter.1 (form ▸ mem_cons_self : first ∈ _)
    rw [fullOrder, form]
    apply congrArg some
    exact eq_of_hash (List.mem_filter.1 ahead.1).1 (List.mem_filter.1 (List.mem_filter.1 listed).1).1
      ((of_decide_eq_true ahead.2).trans own.symm)
  · have others : (r.fullOrder hasPath skip preferred).filter (fun n => decide (n.hash ≠ preferred)) =
        ((r.nearest .listed hasPath).filter fun n => decide (encodeHex n.hash ∉ skip)).filter fun n =>
          decide (n.hash ≠ preferred) := by
      rw [fullOrder, filter_append, filter_eq_nil_iff.2, nil_append, filter_filter, filter_filter]
      · simp
      · intro n member other
        exact of_decide_eq_true other (of_decide_eq_true (List.mem_filter.1 member).2)
    rw [others]
    exact nearest_sorted.sublist (List.filter_sublist.trans filter_sublist)

end PropagationRegistry
end ReticulumProtocols.Lxmf
