import GeloLightrag.Foundation.Literals
import Mathlib.Algebra.Order.Field.Basic
import Mathlib.LinearAlgebra.Matrix.Block
import Mathlib.LinearAlgebra.Matrix.NonsingularInverse
import Mathlib.Tactic.Linarith
import Mathlib.Tactic.Ring

namespace Foundation
namespace QrFactor
open Matrix
attribute [local instance] two_atLeastTwo
variable {F : Type} {n : Nat}

section Reflectors
variable [CommRing F]

def reflector (w : Fin n → F) : Matrix (Fin n) (Fin n) F := 1 - (2 : F) • vecMulVec w w

theorem reflector_transpose (w : Fin n → F) : (reflector w)ᵀ = reflector w := by
  rw [reflector,transpose_sub,transpose_one,transpose_smul,transpose_vecMulVec]

theorem reflector_mul (w : Fin n → F) (a : Matrix (Fin n) (Fin n) F) : reflector w * a = a - (2 : F) • vecMulVec w (w ᵥ* a) := by
  rw [reflector,Matrix.sub_mul,Matrix.one_mul,Matrix.smul_mul,vecMulVec_mul]

theorem mul_reflector (w : Fin n → F) (q : Matrix (Fin n) (Fin n) F) : q * reflector w = q - (2 : F) • vecMulVec (q *ᵥ w) w := by
  rw [reflector,Matrix.mul_sub,Matrix.mul_one,Matrix.mul_smul,mul_vecMulVec]

theorem reflector_involutive {w : Fin n → F} (unit : w ⬝ᵥ w = 1) : reflector w * reflector w = 1 := by
  have image : w ᵥ* reflector w = -w := by
    rw [reflector,vecMul_sub,vecMul_one,vecMul_smul,vecMul_vecMulVec,unit,one_smul,two_smul]
    abel
  rw [reflector_mul,image]
  ext i j
  simp only [reflector,Matrix.sub_apply,Matrix.smul_apply,vecMulVec_apply,Pi.neg_apply,smul_eq_mul]
  ring

end Reflectors

section Uniqueness
variable [Field F] [LinearOrder F] [IsStrictOrderedRing F] {g q q' : Matrix (Fin n) (Fin n) F}

-- An orthogonal factor whose triangular cofactor has a positive diagonal.
structure Factor (g q : Matrix (Fin n) (Fin n) F) : Prop where
  orthogonal : qᵀ * q = 1
  triangular : (qᵀ * g).IsUpperTriangular
  positive : ∀ i, 0 < (qᵀ * g) i i

-- An orthogonal matrix between two triangular ones with positive diagonals is the
-- identity, column by column.
theorem between_triangular {o r : Matrix (Fin n) (Fin n) F} (orthogonal : oᵀ * o = 1) (triangular : r.IsUpperTriangular)
    (positive : ∀ i, 0 < r i i) (triangular' : (o * r).IsUpperTriangular) (positive' : ∀ i, 0 < (o * r) i i) : o = 1 := by
  have columns : ∀ j i, o i j = (1 : Matrix (Fin n) (Fin n) F) i j := by
    intro j
    induction j using WellFoundedLT.induction with
    | ind j ih =>
        have pivot : ∀ i, j ≤ i → (o * r) i j = o i j * r j j := by
          intro i low
          rw [mul_apply]
          refine Finset.sum_eq_single j (fun k _ other => ?_) fun absent => absurd (Finset.mem_univ j) absent
          rcases lt_or_gt_of_ne other with before | after
          · rw [ih k before i,one_apply_ne (ne_of_gt (lt_of_lt_of_le before low)),zero_mul]
          · rw [triangular after,mul_zero]
        have below : ∀ i, j < i → o i j = 0 := by
          intro i low
          have cleared : o i j * r j j = 0 := (pivot i (le_of_lt low)).symm.trans (triangular' low)
          exact (mul_eq_zero.mp cleared).resolve_right (ne_of_gt (positive j))
        have above : ∀ i, i < j → o i j = 0 := by
          intro i high
          have apart : (oᵀ * o) i j = 0 := by rw [orthogonal,one_apply_ne (ne_of_lt high)]
          rw [mul_apply,Finset.sum_eq_single i (fun k _ other => by rw [transpose_apply,ih i high k,one_apply_ne other,zero_mul])
            fun absent => absurd (Finset.mem_univ i) absent,transpose_apply,ih i high i,one_apply_eq,one_mul] at apart
          exact apart
        have off : ∀ i, i ≠ j → o i j = 0 := fun i other => (lt_or_gt_of_ne other).elim (above i) (below i)
        have square : o j j * o j j = 1 := by
          have unit : (oᵀ * o) j j = 1 := by rw [orthogonal,one_apply_eq]
          rwa [mul_apply,Finset.sum_eq_single j (fun k _ other => by rw [transpose_apply,off k other,zero_mul])
            fun absent => absurd (Finset.mem_univ j) absent,transpose_apply] at unit
        have sign : 0 < o j j := by
          have upright := positive' j
          rw [pivot j le_rfl] at upright
          exact pos_of_mul_pos_left upright (le_of_lt (positive j))
        intro i
        by_cases diagonal : i = j
        · rw [diagonal,one_apply_eq]
          rcases mul_self_eq_one_iff.mp square with one | minus
          · exact one
          · rw [minus] at sign
            linarith
        · rw [off i diagonal,one_apply_ne diagonal]
  exact Matrix.ext fun i j => columns j i

theorem Factor.unique (first : Factor g q) (second : Factor g q') : q = q' := by
  have right : q * qᵀ = 1 := mul_eq_one_comm.mp first.orthogonal
  have right' : q' * q'ᵀ = 1 := mul_eq_one_comm.mp second.orthogonal
  have between : q'ᵀ * q * (qᵀ * g) = q'ᵀ * g := by rw [Matrix.mul_assoc,←Matrix.mul_assoc q,right,Matrix.one_mul]
  have orthogonal : (q'ᵀ * q)ᵀ * (q'ᵀ * q) = 1 := by
    rw [transpose_mul,transpose_transpose,Matrix.mul_assoc,←Matrix.mul_assoc q',right',Matrix.one_mul,first.orthogonal]
  have one := between_triangular orthogonal first.triangular first.positive (by rw [between]; exact second.triangular)
    (fun i => by rw [between]; exact second.positive i)
  calc q = q' * (q'ᵀ * q) := by rw [←Matrix.mul_assoc,right',Matrix.one_mul]
    _ = q' := by rw [one,Matrix.mul_one]

omit [IsStrictOrderedRing F] in
theorem Factor.mul {u : Matrix (Fin n) (Fin n) F} (orthogonal : uᵀ * u = 1) (factor : Factor g q) : Factor (u * g) (u * q) := by
  have carried : (u * q)ᵀ * (u * g) = qᵀ * g := by rw [transpose_mul,Matrix.mul_assoc,←Matrix.mul_assoc uᵀ,orthogonal,Matrix.one_mul]
  have isometry : (u * q)ᵀ * (u * q) = 1 := by
    rw [transpose_mul,Matrix.mul_assoc,←Matrix.mul_assoc uᵀ,orthogonal,Matrix.one_mul,factor.orthogonal]
  exact ⟨isometry,by rw [carried]; exact factor.triangular,by rw [carried]; exact factor.positive⟩

end Uniqueness
end QrFactor
end Foundation
