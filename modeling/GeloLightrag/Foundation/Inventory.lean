import Mathlib.Algebra.Order.BigOperators.Group.Finset
import Mathlib.Algebra.BigOperators.Group.Finset.Basic

namespace Foundation.Inventory
variable {α β : Type} [DecidableEq β]

-- Everything held: what is in hand, and what lies in each bin of a finite set.
def total (hand : Multiset α) (bins : β → Multiset α) (all : Finset β) : Multiset α :=
  hand + ∑ b ∈ all, bins b

def refill (bins fresh : β → Multiset α) (opened : Finset β) : β → Multiset α :=
  fun b => if b ∈ opened then fresh b else bins b

theorem refill_sum {opened all : Finset β} (inside : opened ⊆ all) (bins fresh : β → Multiset α) :
    (∑ b ∈ all, refill bins fresh opened b) + ∑ b ∈ opened, bins b =
      (∑ b ∈ all, bins b) + ∑ b ∈ opened, fresh b := by
  have kept : ∑ b ∈ all \ opened, refill bins fresh opened b = ∑ b ∈ all \ opened, bins b :=
    Finset.sum_congr rfl fun b member => if_neg (Finset.mem_sdiff.mp member).2
  have filled : ∑ b ∈ opened, refill bins fresh opened b = ∑ b ∈ opened, fresh b :=
    Finset.sum_congr rfl fun b member => if_pos member
  rw [←Finset.sum_sdiff inside,kept,filled,←Finset.sum_sdiff inside (f:=bins)]
  rw [add_assoc,add_assoc]
  exact congrArg _ (add_comm _ _)

-- The conservation law: opening some bins, taking their contents in hand and
-- putting back any part of what is then in hand neither makes nor loses an item.
theorem total_refill {opened all : Finset β} {bins fresh : β → Multiset α} (inside : opened ⊆ all)
    (balanced : after + ∑ b ∈ opened, fresh b = before + ∑ b ∈ opened, bins b) :
    total after (refill bins fresh opened) all = total before bins all := by
  apply add_right_cancel (b:=∑ b ∈ opened, bins b)
  unfold total
  rw [add_assoc,refill_sum inside,add_left_comm,balanced,add_left_comm,add_assoc]

omit [DecidableEq β] in
theorem mem_total {hand : Multiset α} {bins : β → Multiset α} {all : Finset β} :
    x ∈ total hand bins all ↔ x ∈ hand ∨ ∃ b ∈ all, x ∈ bins b := by
  simp [total,Multiset.mem_sum]

theorem flatMap_sum (opened : List β) (distinct : opened.Nodup) (bins : β → List α) :
    ((opened.flatMap bins : List α) : Multiset α) = ∑ b ∈ opened.toFinset, (bins b : Multiset α) := by
  induction opened with
  | nil => simp
  | cons head rest ih =>
    obtain ⟨new,tail⟩ := List.nodup_cons.mp distinct
    rw [List.flatMap_cons,List.toFinset_cons,Finset.sum_insert (by simpa using new),←ih tail]
    simp

-- One more item in one of the bins.
theorem flatMap_deposit {opened : List β} (distinct : opened.Nodup) (member : b ∈ opened) (bins : β → List α) (x : α) :
    (opened.flatMap (Function.update bins b (bins b ++ [x]))).Perm (x :: opened.flatMap bins) := by
  induction opened with
  | nil => cases member
  | cons head rest ih =>
    obtain ⟨new,tail⟩ := List.nodup_cons.mp distinct
    rw [List.flatMap_cons,List.flatMap_cons]
    by_cases here : head = b
    · subst here
      have others : rest.flatMap (Function.update bins head (bins head ++ [x])) = rest.flatMap bins := by
        rw [List.flatMap_def,List.flatMap_def]
        congr 1
        apply List.map_congr_left
        intro c inside
        have apart : c ≠ head := fun same => new (same ▸ inside)
        exact Function.update_of_ne apart _ _
      rw [Function.update_self,others,List.append_assoc]
      exact List.perm_middle
    · rw [Function.update_of_ne here]
      have later := ih tail ((List.mem_cons.mp member).resolve_left (Ne.symm here))
      exact (later.append_left _).trans List.perm_middle

omit [DecidableEq β] in
-- What lies in hand and in the opened bins is part of everything held.
theorem opened_count [DecidableEq α] (hand : Multiset α) (bins : β → Multiset α) {opened all : Finset β}
    (inside : opened ⊆ all) (x : α) :
    hand.count x + (∑ b ∈ opened, bins b).count x ≤ (total hand bins all).count x := by
  rw [total,Multiset.count_add,Multiset.count_sum',Multiset.count_sum']
  exact Nat.add_le_add_left (Finset.sum_le_sum_of_subset inside) _

end Foundation.Inventory
