import Mathlib.Data.Fintype.BigOperators

namespace Foundation.Grid
variable {ι κ α : Type} [Fintype ι] [DecidableEq ι] [Fintype κ] [DecidableEq κ] [DecidableEq α]

-- The vectors over the indices with entries among the given ones.
def vectors (ι : Type) {α : Type} [Fintype ι] [DecidableEq ι] (entries : Finset α) : Finset (ι → α) := Fintype.piFinset fun _ => entries

@[simp] theorem mem_vectors {entries : Finset α} {r : ι → α} : r ∈ vectors ι entries ↔ ∀ i, r i ∈ entries := Fintype.mem_piFinset

omit [DecidableEq α] in
theorem card_vectors (entries : Finset α) : (vectors ι entries).card = entries.card ^ Fintype.card ι := by
  unfold vectors
  rw [Fintype.card_piFinset,Finset.prod_const,Finset.card_univ]

-- If the entry at one index follows from the others, the vectors that pass are as few
-- as those over the other indices.
theorem card_pinned (entries : Finset α) (passes : (ι → α) → Prop) [DecidablePred passes] (j : ι)
    (pinned : ∀ r ∈ vectors ι entries, ∀ r' ∈ vectors ι entries, passes r → passes r' → (∀ i, i ≠ j → r i = r' i) → r j = r' j) :
    ((vectors ι entries).filter passes).card ≤ entries.card ^ (Fintype.card ι - 1) := by
  have others : Fintype.card {i : ι // i ≠ j} = Fintype.card ι - 1 := by
    rw [Fintype.card_subtype_compl,Fintype.card_subtype_eq]
  rw [←others,←card_vectors]
  refine Finset.card_le_card_of_injOn (fun r i => r i.val) (fun r member => ?_) fun r member r' member' same => ?_
  · have inside := mem_vectors.mp (Finset.mem_filter.mp (Finset.mem_coe.mp member)).1
    exact Finset.mem_coe.mpr (mem_vectors.mpr fun i => inside i.val)
  · obtain ⟨inside,passed⟩ := Finset.mem_filter.mp (Finset.mem_coe.mp member)
    obtain ⟨inside',passed'⟩ := Finset.mem_filter.mp (Finset.mem_coe.mp member')
    have apart : ∀ i, i ≠ j → r i = r' i := fun i other => congrFun same ⟨i,other⟩
    funext i
    by_cases here : i = j
    · rw [here]
      exact pinned r inside r' inside' passed passed' apart
    · exact apart i here

-- Tuples that pass throughout.
theorem card_tuples (entries : Finset α) (passes : α → Prop) [DecidablePred passes] [DecidablePred fun t : κ → α => ∀ n, passes (t n)] :
    ((vectors κ entries).filter fun t => ∀ n, passes (t n)).card = (entries.filter passes).card ^ Fintype.card κ := by
  rw [←card_vectors]
  congr 1
  ext t
  simp only [Finset.mem_filter,mem_vectors,forall_and]

end Foundation.Grid
