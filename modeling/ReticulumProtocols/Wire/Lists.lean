import Mathlib

/-! Lists that are cut at a separator, and lists of pairs with distinct keys. -/

namespace ReticulumProtocols.Wire
open List

variable {α : Type} [DecidableEq α] {c : α}

theorem of_mem_splitOn {text piece : List α} (member : piece ∈ text.splitOn c) : c ∉ piece ∧ piece ⊆ text := by
  induction text generalizing piece with
  | nil =>
    rw [splitOn_nil, mem_singleton] at member
    rw [member]
    exact ⟨not_mem_nil, List.Subset.refl _⟩
  | cons r text ih =>
    rw [splitOn_cons_eq_if_modifyHead] at member
    have tail : ∀ other ∈ text.splitOn c, c ∉ other ∧ other ⊆ r :: text := fun other listed =>
      ⟨(ih listed).1, subset_cons_of_subset r (ih listed).2⟩
    split at member
    · rcases List.mem_cons.1 member with rfl | member
      · exact ⟨not_mem_nil, nil_subset _⟩
      · exact tail piece member
    next other =>
      obtain ⟨first, rest, form⟩ := exists_cons_of_ne_nil (splitOn_ne_nil c text)
      rw [form, modifyHead_cons] at member
      rcases List.mem_cons.1 member with rfl | member
      · obtain ⟨apart, part⟩ := ih (form ▸ mem_cons_self)
        refine ⟨fun found => ?_, cons_subset_cons r part⟩
        rcases List.mem_cons.1 found with rfl | found
        · exact other (beq_self_eq_true c)
        · exact apart found
      · exact tail piece (form ▸ mem_cons_of_mem first member)

theorem splitOn_append {part rest : List α} (apart : c ∉ part) :
    (part ++ rest).splitOn c = (rest.splitOn c).modifyHead (part ++ ·) := by
  induction part with
  | nil => exact (congrFun modifyHead_id _).symm
  | cons r part ih =>
    obtain ⟨other, apart⟩ := not_or.1 (mt List.mem_cons.2 apart)
    rw [cons_append, splitOn_cons_eq_if_modifyHead, if_neg (mt eq_of_beq (Ne.symm other)), ih apart,
      modifyHead_modifyHead]
    rfl

theorem flatten_splitOn (text : List α) : (text.splitOn c).flatten = text.filter (· ≠ c) := by
  induction text with
  | nil => rfl
  | cons r text ih =>
    rw [splitOn_cons_eq_if_modifyHead]
    split
    next same => rw [flatten_cons, ih, filter_cons_of_neg (by simpa using same)]; rfl
    next other =>
      obtain ⟨first, rest, form⟩ := exists_cons_of_ne_nil (splitOn_ne_nil c text)
      rw [filter_cons_of_pos (by simpa using other), ← ih, form]
      rfl

theorem splitOn_flatMap {pieces : List (List α)} (whole : ∀ piece ∈ pieces, c ∉ piece) :
    (pieces.flatMap fun piece => piece ++ [c]).splitOn c = pieces ++ [[]] := by
  have joined : (pieces.flatMap fun piece => piece ++ [c]) = [c].intercalate (pieces ++ [[]]) := by
    clear whole
    induction pieces with
    | nil => rfl
    | cons piece pieces ih =>
      obtain ⟨first, rest, form⟩ := exists_cons_of_ne_nil (append_ne_nil_of_right_ne_nil pieces
        (cons_ne_nil ([] : List α) []))
      rw [cons_append, form, intercalate_cons_cons, ← form, ← ih]
      simp
  rw [joined]
  apply splitOn_intercalate
  · intro piece member
    rcases mem_append.1 member with member | member
    · exact whole piece member
    · rw [List.mem_singleton.1 member]
      exact not_mem_nil
  · exact append_ne_nil_of_right_ne_nil pieces (cons_ne_nil _ _)

theorem lookup_eq_some_iff_mem {κ β : Type} [BEq κ] [LawfulBEq κ] {pairs : List (κ × β)}
    (distinct : (pairs.map Prod.fst).Nodup) (key : κ) (value : β) :
    pairs.lookup key = some value ↔ (key, value) ∈ pairs := by
  induction pairs with
  | nil => exact iff_of_false nofun not_mem_nil
  | cons pair pairs ih =>
    obtain ⟨fresh, distinct⟩ := nodup_cons.1 distinct
    rw [lookup_cons, mem_cons]
    rcases Classical.em (key = pair.1) with same | same
    · have apart : (key, value) ∉ pairs := fun listed => fresh (same ▸ mem_map_of_mem listed)
      rw [beq_iff_eq.2 same, or_iff_left apart, Prod.ext_iff, and_iff_right same]
      exact Option.some_inj.trans eq_comm
    · have other : (key, value) ≠ pair := fun made => same (congrArg Prod.fst made)
      rw [beq_eq_false_iff_ne.2 same, or_iff_right other]
      exact ih distinct

end ReticulumProtocols.Wire
