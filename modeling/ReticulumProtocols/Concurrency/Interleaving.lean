import Mathlib

/-! Threads over a shared state. Each thread has a local state and takes atomic steps of its own; a
run is any interleaving of these. -/

namespace ReticulumProtocols.Concurrency

structure World (ι S L : Type) where
  shared : S
  threads : ι → L

section
variable {ι S L : Type} [DecidableEq ι]

/-- The state after a step of thread `i`. -/
def World.move (w : World ι S L) (i : ι) (s : S) (l : L) : World ι S L := ⟨s, Function.update w.threads i l⟩

variable (w : World ι S L) (i : ι) (s : S) (l : L)

@[simp] theorem World.move_shared : (w.move i s l).shared = s := rfl

@[simp] theorem World.move_same : (w.move i s l).threads i = l := Function.update_self ..

theorem World.move_other {j : ι} (other : j ≠ i) : (w.move i s l).threads j = w.threads j :=
  Function.update_of_ne other ..

theorem World.move_move (s' : S) (l' : L) : (w.move i s l).move i s' l' = w.move i s' l' := by
  simp only [World.move, Function.update_idem]

end

variable {ι S L : Type} [DecidableEq ι] (advance : ι → S → L → Option (S × L))

/-- One thread takes one step. -/
def Step (w w' : World ι S L) : Prop :=
  ∃ i s l, advance i w.shared (w.threads i) = some (s, l) ∧ w' = w.move i s l

/-- Some interleaving leads from one state to the other. -/
abbrev Reaches : World ι S L → World ι S L → Prop := Relation.ReflTransGen (Step advance)

/-- Steps of one thread while the others rest. -/
abbrev Solo (i : ι) : S × L → S × L → Prop := Relation.ReflTransGen fun before after =>
  advance i before.1 before.2 = some after

section
variable {advance} {w w' : World ι S L}

/-- What every step keeps of the shared state and of the stepping thread holds in every run. -/
theorem Reaches.invariant (common : S → Prop) (own : ι → L → Prop)
    (kept : ∀ i s l s' l', common s → own i l → advance i s l = some (s', l') → common s' ∧ own i l')
    (start : common w.shared ∧ ∀ i, own i (w.threads i)) (run : Reaches advance w w') :
    common w'.shared ∧ ∀ i, own i (w'.threads i) := by
  induction run with
  | refl => exact start
  | tail _ step ih =>
    obtain ⟨i, s, l, moved, rfl⟩ := step
    have after := kept i _ _ s l ih.1 (ih.2 i) moved
    refine ⟨after.1, fun j => ?_⟩
    by_cases same : j = i
    · subst same
      rw [World.move_same]
      exact after.2
    · rw [World.move_other _ _ _ _ same]
      exact ih.2 j

theorem reaches_of_solo {i : ι} {l l' : L} {s' : S} (here : w.threads i = l)
    (run : Solo advance i (w.shared, l) (s', l')) : Reaches advance w (w.move i s' l') := by
  have whole (after : S × L) (run : Solo advance i (w.shared, l) after) :
      Reaches advance w (w.move i after.1 after.2) := by
    induction run with
    | refl =>
      rw [World.move, ← here, Function.update_eq_self]
    | @tail before after _ moved ih =>
      refine ih.tail ⟨i, after.1, after.2, ?_, (w.move_move i ..).symm⟩
      rw [World.move_shared, World.move_same]
      exact moved
  exact whole (s', l') run

/-- Two threads that stop halfway, and then run to their end one after the other. -/
theorem reaches_of_pair {i j : ι} (different : i ≠ j) {s₁ s₂ s₃ s₄ : S} {a₁ a₂ b₁ b₂ : L}
    (first : Solo advance i (w.shared, w.threads i) (s₁, a₁)) (second : Solo advance j (s₁, w.threads j) (s₂, b₁))
    (third : Solo advance i (s₂, a₁) (s₃, a₂)) (fourth : Solo advance j (s₃, b₁) (s₄, b₂)) :
    ∃ w', Reaches advance w w' ∧ w'.threads i = a₂ ∧ w'.threads j = b₂ := by
  let one := w.move i s₁ a₁
  let two := one.move j s₂ b₁
  let three := two.move i s₃ a₂
  have atOne : one.threads j = w.threads j := w.move_other i s₁ a₁ different.symm
  have atTwo : two.threads i = a₁ := (one.move_other j s₂ b₁ different).trans (w.move_same i s₁ a₁)
  have atThree : three.threads j = b₁ := (two.move_other i s₃ a₂ different.symm).trans (one.move_same j s₂ b₁)
  have run : Reaches advance w (three.move j s₄ b₂) :=
    calc
      Reaches advance w one := reaches_of_solo rfl first
      Reaches advance _ two := reaches_of_solo atOne second
      Reaches advance _ three := reaches_of_solo atTwo third
      Reaches advance _ (three.move j s₄ b₂) := reaches_of_solo atThree fourth
  have atFour : (three.move j s₄ b₂).threads i = a₂ :=
    (three.move_other j s₄ b₂ different).trans (two.move_same i s₃ a₂)
  exact ⟨_, run, atFour, three.move_same j s₄ b₂⟩

end

end ReticulumProtocols.Concurrency
