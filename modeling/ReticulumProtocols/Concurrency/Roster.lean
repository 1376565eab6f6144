import Mathlib.Data.Set.Insert

/-! A party that follows a set of another one through notices. The owner of the set tells of entries and exits; a
notice waits in no particular order until it is handed over to a queue, which the follower reads from the front. -/

namespace ReticulumProtocols.Concurrency
open List

inductive Notice (K : Type*) where
  | present (key : K)
  | absent (key : K)

namespace Notice
variable {K : Type*}

def key : Notice K → K
  | present key => key
  | absent key => key

/-- What the follower makes of a notice. -/
def apply (view : Set K) : Notice K → Set K
  | present key => insert key view
  | absent key => view \ {key}

theorem mem_apply_of_ne {n : Notice K} {k : K} {view : Set K} (other : n.key ≠ k) : k ∈ n.apply view ↔ k ∈ view := by
  cases n with
  | present key => exact ⟨fun member => member.resolve_left fun same => other same.symm, Or.inr⟩
  | absent key => exact ⟨fun member => member.1, fun member => ⟨member, fun same => other same.symm⟩⟩

end Notice

variable {K : Type*} {actual view : Set K} {waiting queue : List (Notice K)} {k : K} {n : Notice K}

/-- The follower's set once it has read the queue. -/
def settled (view : Set K) (queue : List (Notice K)) : Set K := queue.foldl Notice.apply view

theorem settled_concat : settled view (queue ++ [n]) = n.apply (settled view queue) := by
  simp [settled]

/-- The follower can still come to know the set: what waits about a member are entries, and one of them waits where
the queue does not tell of it; what waits about any other key are exits, likewise. -/
structure Follows (actual : Set K) (waiting queue : List (Notice K)) (view : Set K) : Prop where
  inside : ∀ k ∈ actual, .absent k ∉ waiting ∧ (k ∈ settled view queue ∨ .present k ∈ waiting)
  outside : ∀ k ∉ actual, .present k ∉ waiting ∧ (k ∉ settled view queue ∨ .absent k ∈ waiting)

namespace Follows

theorem start (actual : Set K) : Follows actual [] [] actual :=
  ⟨fun _ member => ⟨not_mem_nil, Or.inl member⟩, fun _ other => ⟨not_mem_nil, Or.inl other⟩⟩

/-- Nothing waits and nothing is in the queue: the follower knows the set. -/
theorem agrees (follows : Follows actual [] [] view) : view = actual := by
  ext k
  by_cases member : k ∈ actual
  · exact iff_of_true ((follows.inside k member).2.resolve_right not_mem_nil) member
  · exact iff_of_false ((follows.outside k member).2.resolve_right not_mem_nil) member

theorem announce (follows : Follows actual waiting queue view) {told : List (Notice K)}
    (members : ∀ n ∈ told, ∃ k ∈ actual, n = .present k) : Follows actual (waiting ++ told) queue view := by
  constructor
  case inside =>
    intro k member
    obtain ⟨clear, known⟩ := follows.inside k member
    refine ⟨fun listed => ?_, known.imp_right (mem_append_left told)⟩
    rcases List.mem_append.1 listed with old | new
    · exact clear old
    · obtain ⟨_, _, same⟩ := members _ new
      cases same
  case outside =>
    intro k other
    obtain ⟨clear, known⟩ := follows.outside k other
    refine ⟨fun listed => ?_, known.imp_right (mem_append_left told)⟩
    rcases List.mem_append.1 listed with old | new
    · exact clear old
    · obtain ⟨key, member, same⟩ := members _ new
      cases same
      exact other member

theorem enter (follows : Follows actual waiting queue view) (clear : ∀ n ∈ waiting, n.key ≠ k) :
    Follows (insert k actual) (waiting ++ [.present k]) queue view := by
  constructor
  case inside =>
    intro key member
    rcases eq_or_ne key k with same | other
    · subst same
      refine ⟨fun listed => ?_, Or.inr (mem_append_right _ mem_cons_self)⟩
      rcases List.mem_append.1 listed with old | new
      · exact clear _ old rfl
      · cases mem_singleton.1 new
    · obtain ⟨quiet, known⟩ := follows.inside key (member.resolve_left other)
      exact ⟨by simpa using quiet, known.imp_right (mem_append_left _)⟩
  case outside =>
    intro key absent
    obtain ⟨quiet, known⟩ := follows.outside key fun member => absent (Or.inr member)
    have other : key ≠ k := fun same => absent (Or.inl same)
    exact ⟨by simp [quiet, other], known.imp_right (mem_append_left _)⟩

theorem leave (follows : Follows actual waiting queue view) (clear : ∀ n ∈ waiting, n.key ≠ k) :
    Follows (actual \ {k}) (waiting ++ [.absent k]) queue view := by
  constructor
  case inside =>
    intro key member
    obtain ⟨quiet, known⟩ := follows.inside key member.1
    have other : key ≠ k := member.2
    exact ⟨by simp [quiet, other], known.imp_right (mem_append_left _)⟩
  case outside =>
    intro key absent
    rcases eq_or_ne key k with same | other
    · subst same
      refine ⟨fun listed => ?_, Or.inr (mem_append_right _ mem_cons_self)⟩
      rcases List.mem_append.1 listed with old | new
      · exact clear _ old rfl
      · cases mem_singleton.1 new
    · obtain ⟨quiet, known⟩ := follows.outside key fun member => absent ⟨member, other⟩
      exact ⟨by simpa using quiet, known.imp_right (mem_append_left _)⟩

/-- Any notice that waits may be handed over next. -/
theorem handOver {before after : List (Notice K)} (follows : Follows actual (before ++ n :: after) queue view) :
    Follows actual (before ++ after) (queue ++ [n]) view := by
  have listed_iff : ∀ {n'}, n' ∈ before ++ n :: after ↔ n' = n ∨ n' ∈ before ++ after := by
    intro n'
    rw [mem_append, mem_cons, mem_append, or_left_comm]
  have own : n ∈ before ++ n :: after := listed_iff.2 (Or.inl rfl)
  constructor
  case inside =>
    intro k member
    obtain ⟨clear, known⟩ := follows.inside k member
    refine ⟨fun listed => clear (listed_iff.2 (Or.inr listed)), ?_⟩
    rw [settled_concat]
    rcases eq_or_ne n.key k with same | other
    · subst same
      cases n with
      | present key => exact Or.inl (Or.inl rfl)
      | absent key => exact absurd own clear
    · rw [Notice.mem_apply_of_ne other]
      exact known.imp_right fun listed => (listed_iff.1 listed).resolve_left fun same => other (same ▸ rfl)
  case outside =>
    intro k absent
    obtain ⟨clear, known⟩ := follows.outside k absent
    refine ⟨fun listed => clear (listed_iff.2 (Or.inr listed)), ?_⟩
    rw [settled_concat]
    rcases eq_or_ne n.key k with same | other
    · subst same
      cases n with
      | present key => exact absurd own clear
      | absent key => exact Or.inl fun member => member.2 rfl
    · rw [Notice.mem_apply_of_ne other]
      exact known.imp_right fun listed => (listed_iff.1 listed).resolve_left fun same => other (same ▸ rfl)

theorem read (follows : Follows actual waiting (n :: queue) view) : Follows actual waiting queue (n.apply view) :=
  ⟨follows.inside, follows.outside⟩

end Follows

end ReticulumProtocols.Concurrency
