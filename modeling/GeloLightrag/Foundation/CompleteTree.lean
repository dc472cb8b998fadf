import Mathlib.Tactic.Ring
import Mathlib.Data.List.Pairwise

namespace Foundation.CompleteTree

-- Breadth-first numbering of a complete binary tree: the node at `depth` with
-- position `i` in its row. The root is 0, the children of b are 2b+1 and 2b+2.
def node (depth i : Nat) : Nat := 2 ^ depth - 1 + i

def parent (b : Nat) : Nat := (b - 1) / 2

theorem node_bound (inside : i < 2 ^ depth) : node depth i < 2 ^ (depth+1) - 1 := by
  unfold node; rw [Nat.pow_succ]; omega

theorem parent_node (depth i : Nat) : parent (node (depth+1) i) = node depth (i / 2) := by
  unfold parent node
  have positive := Nat.two_pow_pos depth
  rw [Nat.pow_succ]
  omega

theorem node_child (depth i : Nat) :
    node (depth+1) i = 2 * node depth (i / 2) + 1 ∨ node (depth+1) i = 2 * node depth (i / 2) + 2 := by
  unfold node
  have positive := Nat.two_pow_pos depth
  rw [Nat.pow_succ]
  omega

-- The nodes from the root down to leaf `leaf` of a tree with `levels` rows.
def branch (levels leaf : Nat) : List Nat :=
  (List.range levels).map fun depth => node depth (leaf / 2 ^ (levels - 1 - depth))

@[simp] theorem branch_length (levels leaf : Nat) : (branch levels leaf).length = levels := by simp [branch]

theorem branch_get (inside : depth < levels) :
    (branch levels leaf)[depth]? = some (node depth (leaf / 2 ^ (levels - 1 - depth))) := by
  simp [branch,inside]

theorem row_bound (inside : depth < levels) (small : leaf < 2 ^ (levels-1)) :
    leaf / 2 ^ (levels - 1 - depth) < 2 ^ depth := by
  rw [Nat.div_lt_iff_lt_mul (Nat.two_pow_pos _),←Nat.pow_add]
  rwa [show depth + (levels - 1 - depth) = levels - 1 by omega]

theorem branch_root (deep : 0 < levels) (small : leaf < 2 ^ (levels-1)) :
    (branch levels leaf)[0]? = some 0 := by
  have row := row_bound deep small
  rw [branch_get deep]
  simp [node] at row ⊢
  omega

theorem branch_bound (small : leaf < 2 ^ (levels-1)) (member : b ∈ branch levels leaf) : b < 2 ^ levels - 1 := by
  obtain ⟨depth,inside,rfl⟩ := List.mem_map.mp member
  have inside := List.mem_range.mp inside
  have row := node_bound (row_bound inside small)
  have grows : 2 ^ (depth+1) ≤ 2 ^ levels := Nat.pow_le_pow_right (by decide) inside
  omega

theorem branch_step (inside : depth+1 < levels) (leaf : Nat) :
    leaf / 2 ^ (levels - 1 - (depth+1)) / 2 = leaf / 2 ^ (levels - 1 - depth) := by
  rw [Nat.div_div_eq_div_mul,←Nat.pow_succ]
  rw [show (levels - 1 - (depth+1)).succ = levels - 1 - depth by omega]

-- Rows of a branch never meet: every node of a deeper row has a larger number.
theorem branch_increasing (small : leaf < 2 ^ (levels-1)) : (branch levels leaf).Pairwise (· < ·) := by
  unfold branch
  rw [List.pairwise_map]
  refine List.Pairwise.imp_of_mem ?_ (List.pairwise_lt_range (n := levels))
  intro upper lower upperMem lowerMem below
  have upperIn := List.mem_range.mp upperMem
  have upperRow := node_bound (row_bound upperIn small)
  have grows : 2 ^ (upper+1) ≤ 2 ^ lower := Nat.pow_le_pow_right (by decide) below
  unfold node at upperRow ⊢
  generalize leaf / 2 ^ (levels - 1 - lower) = position
  omega

theorem branch_nodup (small : leaf < 2 ^ (levels-1)) : (branch levels leaf).Nodup :=
  (branch_increasing small).imp Nat.ne_of_lt

theorem branch_leaf (deep : 0 < levels) : (branch levels leaf)[levels-1]? = some (node (levels-1) leaf) := by
  rw [branch_get (by omega)]
  simp

theorem branch_injective (deep : 0 < levels) (same : branch levels leaf = branch levels other) : leaf = other := by
  have leaves := congrArg (·[levels-1]?) same
  simp only [branch_leaf deep,Option.some.injEq,node] at leaves
  omega

theorem branch_succ (levels leaf : Nat) : branch (levels+1) leaf = branch levels (leaf / 2) ++ [node levels leaf] := by
  unfold branch
  rw [List.range_succ,List.map_append,List.map_singleton]
  congr 1
  · apply List.map_congr_left
    intro depth member
    have inside := List.mem_range.mp member
    rw [Nat.div_div_eq_div_mul,←Nat.pow_succ',show levels + 1 - 1 - depth = (levels - 1 - depth) + 1 by omega]
  · simp

-- Two branches go one way to a fork, and do not meet after it.
theorem branch_forks (levels : Nat) (small : leaf < 2 ^ (levels-1)) (small' : other < 2 ^ (levels-1)) :
    ∃ front back back', branch levels leaf = front ++ back ∧ branch levels other = front ++ back' ∧ ∀ b ∈ back, b ∉ branch levels other := by
  induction levels generalizing leaf other with
  | zero => exact ⟨[],[],[],rfl,rfl,fun _ member => absurd member List.not_mem_nil⟩
  | succ levels ih =>
      have halved : ∀ {i}, i < 2 ^ (levels+1-1) → i / 2 < 2 ^ (levels-1) := by
        intro i inside
        rw [Nat.add_sub_cancel] at inside
        cases levels with
        | zero => rw [Nat.lt_one_iff.mp inside]; decide
        | succ row => rw [Nat.pow_succ] at inside; rw [Nat.add_sub_cancel]; omega
      by_cases same : leaf = other
      · subst same
        exact ⟨_,[],[],(List.append_nil _).symm,(List.append_nil _).symm,fun _ member => absurd member List.not_mem_nil⟩
      · obtain ⟨front,back,back',one,two,apart⟩ := ih (halved small) (halved small')
        have above : ∀ {i b j}, i < 2 ^ (levels+1-1) → b ∈ branch levels (i / 2) → b ≠ node levels j := by
          intro i b j inside member
          have bound := branch_bound (halved inside) member
          unfold node
          omega
        refine ⟨front,back ++ [node levels leaf],back' ++ [node levels other],?_,?_,fun b member meets => ?_⟩
        · rw [branch_succ,one,List.append_assoc]
        · rw [branch_succ,two,List.append_assoc]
        rw [branch_succ] at meets
        rcases List.mem_append.mp member with upper | last <;> rcases List.mem_append.mp meets with upper' | last'
        · exact apart b upper upper'
        · exact above small (by rw [one]; exact List.mem_append_right _ upper) (List.mem_singleton.mp last')
        · exact above small' upper' (List.mem_singleton.mp last)
        · have equal := (List.mem_singleton.mp last).symm.trans (List.mem_singleton.mp last')
          unfold node at equal
          omega

end Foundation.CompleteTree
