import Mathlib.Data.List.Perm.Basic

namespace Foundation

-- Sequences of steps taken side by side: an order takes each step of each sequence
-- once, the steps of one sequence in their order.
inductive Interleaves {α : Type} : List (List α) → List α → Prop where
  | done (finished : ∀ steps ∈ sequences, steps = []) : Interleaves sequences []
  | next (rest : Interleaves (before ++ steps :: after) order) : Interleaves (before ++ (a :: steps) :: after) (a :: order)

namespace Interleaves
variable {α : Type} {sequences before after : List (List α)} {steps order : List α}

theorem perm (taken : Interleaves sequences order) : order.Perm sequences.flatten := by
  induction taken with
  | done finished =>
      rw [List.flatten_eq_nil_iff.mpr finished]
  | next rest ih =>
      rename_i before steps after order a
      rw [List.flatten_append,List.flatten_cons] at ih ⊢
      exact (ih.cons a).trans List.perm_middle.symm

theorem sublist (taken : Interleaves sequences order) : ∀ steps ∈ sequences, steps.Sublist order := by
  induction taken with
  | done finished =>
      intro steps member
      rw [finished steps member]
  | next rest ih =>
      rename_i before steps after order a
      intro other member
      rcases List.mem_append.mp member with earlier | later
      · exact (ih other (List.mem_append_left _ earlier)).cons a
      · rcases List.mem_cons.mp later with rfl | further
        · exact (ih steps (List.mem_append_right _ List.mem_cons_self)).cons_cons a
        · exact (ih other (List.mem_append_right _ (List.mem_cons_of_mem _ further))).cons a

-- The order does not depend on how the sequences are listed.
theorem of_perm (taken : Interleaves sequences order) (same : sequences.Perm sequences') : Interleaves sequences' order := by
  induction taken generalizing sequences' with
  | done finished => exact .done fun steps member => finished steps (same.mem_iff.mpr member)
  | next rest ih =>
      rename_i before steps after order a
      obtain ⟨before',after',rfl⟩ := List.append_of_mem (same.mem_iff.mp (List.mem_append_right before List.mem_cons_self))
      have others : (before ++ after).Perm (before' ++ after') :=
        (List.perm_middle.symm.trans (same.trans List.perm_middle)).cons_inv
      exact .next (ih (List.perm_middle.trans ((others.cons steps).trans List.perm_middle.symm)))

theorem cons_nil (taken : Interleaves sequences order) : Interleaves ([] :: sequences) order := by
  induction taken with
  | done finished => exact .done (List.forall_mem_cons.mpr ⟨rfl,finished⟩)
  | next rest ih =>
      rename_i before steps after order a
      exact @next α ([] :: before) steps after order a ih

-- One sequence run to its end, then the others.
theorem cons (taken : Interleaves sequences order) (steps : List α) : Interleaves (steps :: sequences) (steps ++ order) := by
  induction steps with
  | nil => exact taken.cons_nil
  | cons a steps ih => exact @next α [] _ _ _ a ih

theorem in_turn (sequences : List (List α)) : Interleaves sequences sequences.flatten := by
  induction sequences with
  | nil => exact .done fun steps member => absurd member List.not_mem_nil
  | cons steps rest ih => exact ih.cons steps

-- All the others first, and then the one.
theorem last (before : List (List α)) (steps : List α) (after : List (List α)) :
    Interleaves (before ++ steps :: after) ((before ++ after).flatten ++ steps) := by
  have turns := in_turn (before ++ after ++ [steps])
  rw [List.flatten_append,List.flatten_singleton] at turns
  exact turns.of_perm ((List.perm_append_singleton steps (before ++ after)).trans List.perm_middle.symm)

end Interleaves
end Foundation
