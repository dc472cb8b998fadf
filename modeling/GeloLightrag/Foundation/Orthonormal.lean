import Mathlib.Algebra.BigOperators.Group.Finset.Sigma
import Mathlib.Algebra.BigOperators.Ring.Finset
import Mathlib.Algebra.Group.Nat.Defs
import Mathlib.Tactic.Ring

namespace Foundation
namespace Orthonormal
variable {F : Type}

-- The first n columns, as far down as row n, are orthonormal.
def Columns [CommRing F] (n : Nat) (q : Nat → Nat → F) : Prop :=
  ∀ i < n, ∀ j < n, ∑ r ∈ Finset.range n, q r i * q r j = if i = j then 1 else 0

section Reflections
variable [CommRing F]

def eye (i j : Nat) : F := if i = j then 1 else 0

-- A square times I - 2vvᵀ.
def reflect (n : Nat) (v : Nat → F) (q : Nat → Nat → F) : Nat → Nat → F := fun i j =>
  q i j - ((2 : Nat) : F) * (∑ l ∈ Finset.range n, q i l * v l) * v j

def signed (negative : Nat → Bool) (q : Nat → Nat → F) : Nat → Nat → F := fun i j =>
  if negative j then -q i j else q i j

theorem eye_columns (n : Nat) : Columns n (eye (F:=F)) := by
  intro i low j _
  calc ∑ r ∈ Finset.range n, eye (F:=F) r i * eye r j = eye i i * eye i j := by
        refine Finset.sum_eq_single i (fun r _ other => ?_) fun absent => absurd (Finset.mem_range.mpr low) absent
        rw [show eye r i = (0 : F) from if_neg other,zero_mul]
    _ = if i = j then 1 else 0 := by rw [show eye i i = (1 : F) from if_pos rfl,one_mul]; rfl

theorem signed_columns {q : Nat → Nat → F} (columns : Columns n q) (negative : Nat → Bool) :
    Columns n (signed negative q) := by
  intro i low j low'
  have plain := columns i low j low'
  by_cases same : i = j
  · subst same
    rw [←plain]
    refine Finset.sum_congr rfl fun r _ => ?_
    unfold signed
    split <;> ring
  · rw [if_neg same] at plain ⊢
    calc ∑ r ∈ Finset.range n, signed negative q r i * signed negative q r j
        = ∑ r ∈ Finset.range n,
            ((if negative i then -1 else 1) * (if negative j then -1 else 1)) * (q r i * q r j) := by
          refine Finset.sum_congr rfl fun r _ => ?_
          unfold signed
          split <;> split <;> ring
      _ = 0 := by rw [←Finset.mul_sum,plain,mul_zero]

-- Columns against the image of a vector give the vector back.
theorem columns_image {q : Nat → Nat → F} (columns : Columns n q) (v : Nat → F) (low : i < n) :
    ∑ r ∈ Finset.range n, q r i * ∑ l ∈ Finset.range n, q r l * v l = v i := by
  calc ∑ r ∈ Finset.range n, q r i * ∑ l ∈ Finset.range n, q r l * v l
      = ∑ l ∈ Finset.range n, ∑ r ∈ Finset.range n, q r i * q r l * v l := by
        rw [Finset.sum_comm]
        refine Finset.sum_congr rfl fun r _ => ?_
        rw [Finset.mul_sum]
        exact Finset.sum_congr rfl fun l _ => (mul_assoc _ _ _).symm
    _ = ∑ l ∈ Finset.range n, (if i = l then 1 else 0) * v l := by
        refine Finset.sum_congr rfl fun l member => ?_
        rw [←Finset.sum_mul,columns i low l (Finset.mem_range.mp member)]
    _ = v i := by simp [low]

theorem reflect_columns {q : Nat → Nat → F} (columns : Columns n q) {v : Nat → F}
    (unit : ∑ l ∈ Finset.range n, v l * v l = 1) : Columns n (reflect n v q) := by
  intro i low j low'
  let image := fun r => ∑ l ∈ Finset.range n, q r l * v l
  have left : ∑ r ∈ Finset.range n, q r i * image r = v i := columns_image columns v low
  have right : ∑ r ∈ Finset.range n, q r j * image r = v j := columns_image columns v low'
  have norm : ∑ r ∈ Finset.range n, image r * image r = 1 :=
    calc ∑ r ∈ Finset.range n, image r * image r
        = ∑ r ∈ Finset.range n, ∑ l ∈ Finset.range n, v l * (q r l * image r) := by
          refine Finset.sum_congr rfl fun r _ => ?_
          show (∑ l ∈ Finset.range n, q r l * v l) * image r = _
          rw [Finset.sum_mul]
          exact Finset.sum_congr rfl fun l _ => by ring
      _ = ∑ l ∈ Finset.range n, v l * v l := by
          rw [Finset.sum_comm]
          refine Finset.sum_congr rfl fun l member => ?_
          rw [←Finset.mul_sum,columns_image columns v (Finset.mem_range.mp member)]
      _ = 1 := unit
  calc ∑ r ∈ Finset.range n, reflect n v q r i * reflect n v q r j
      = ∑ r ∈ Finset.range n, (q r i * q r j - 2 * v j * (q r i * image r) - 2 * v i * (q r j * image r) +
          4 * (v i * v j) * (image r * image r)) := by
        refine Finset.sum_congr rfl fun r _ => ?_
        show (q r i - 2 * image r * v i) * (q r j - 2 * image r * v j) = _
        ring
    _ = (if i = j then 1 else 0) - 2 * v j * v i - 2 * v i * v j + 4 * (v i * v j) * 1 := by
        rw [Finset.sum_add_distrib,Finset.sum_sub_distrib,Finset.sum_sub_distrib,←Finset.mul_sum,←Finset.mul_sum,
          ←Finset.mul_sum,left,right,norm,columns i low j low']
    _ = if i = j then 1 else 0 := by ring

end Reflections
end Orthonormal
end Foundation
