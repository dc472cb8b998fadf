import GeloLightrag.Aloepri.Passes
import GeloLightrag.Aloepri.Rewriters
import Mathlib.LinearAlgebra.Matrix.DotProduct

namespace Aloepri
open Foundation Matrix

section Keyed
variable {d k m : Nat} {c eps kappa : ℝ} {pR : Matrix (Fin d) (Fin k) ℝ} {qR : Matrix (Fin k) (Fin d) ℝ}

def keyed (pR : Matrix (Fin d) (Fin k) ℝ) : (Fin d → ℝ) →+ (Fin k → ℝ) where
  toFun := fun x => x ᵥ* pR
  map_zero' := zero_vecMul pR
  map_add' := fun x y => add_vecMul pR x y

def keymatPass (pR : Matrix (Fin d) (Fin k) ℝ) (qR : Matrix (Fin k) (Fin d) ℝ) (kappa : ℝ) : Pass d k where
  norm := fun _ _ => kappa
  read := fun _ linear => linear * qRᵀ
  write := fun linear => pRᵀ * linear
  embd := fun linear => linear * pR

theorem keyed_squares (gain : pR * pRᵀ = c ^ 2 • (1 : Matrix (Fin d) (Fin d) ℝ)) (x : Fin d → ℝ) : (x ᵥ* pR) ⬝ᵥ (x ᵥ* pR) = c ^ 2 * (x ⬝ᵥ x) := by
  calc (x ᵥ* pR) ⬝ᵥ (x ᵥ* pR) = x ⬝ᵥ (pR *ᵥ (pRᵀ *ᵥ x)) := by rw [mulVec_transpose,dotProduct_mulVec]
    _ = c ^ 2 * (x ⬝ᵥ x) := by rw [mulVec_mulVec,gain,smul_mulVec,one_mulVec,dotProduct_smul,smul_eq_mul]

-- A linear behind the constant norm reads from a keyed row what it read from the row, at
-- the scale of that norm.
theorem read_keyed (inverse : pR * qR = 1) (gain : pR * pRᵀ = c ^ 2 • (1 : Matrix (Fin d) (Fin d) ℝ)) (scale : ℝ → ℝ)
    (linear : Matrix (Fin m) (Fin d) ℝ) (x : Fin d → ℝ) :
    (linear * qRᵀ) *ᵥ rmsNorm scale (fun _ => kappa) (x ᵥ* pR) = (scale (c ^ 2 * (x ⬝ᵥ x)) * kappa) • (linear *ᵥ x) := by
  have opened : qRᵀ *ᵥ (x ᵥ* pR) = x := by rw [mulVec_transpose,vecMul_vecMul,inverse,vecMul_one]
  rw [read_plain,scaledColumns_const,keyed_squares gain,smul_smul,←mulVec_mulVec,opened]

-- The gain of the key and the wider mean are both in kappa.
theorem keyed_scale (positive : 0 < kappa) (is : kappa ^ 2 / d = c ^ 2 / k) (squares : ℝ) :
    rmsScale k eps (c ^ 2 * squares) * kappa = rmsScale d (eps / kappa ^ 2) squares := by
  have inside : c ^ 2 * squares / k + eps = kappa ^ 2 * (squares / d + eps / kappa ^ 2) := by
    have some_ : kappa ^ 2 ≠ 0 := pow_ne_zero 2 positive.ne'
    calc c ^ 2 * squares / k + eps = c ^ 2 / k * squares + eps := by ring
      _ = kappa ^ 2 / d * squares + kappa ^ 2 * (eps / kappa ^ 2) := by rw [is,mul_div_cancel₀ eps some_]
      _ = kappa ^ 2 * (squares / d + eps / kappa ^ 2) := by ring
  unfold rmsScale
  rw [inside,Real.sqrt_mul (sq_nonneg kappa),Real.sqrt_sq positive.le,one_div,one_div,mul_inv,mul_comm,←mul_assoc,mul_inv_cancel₀ positive.ne',one_mul]

theorem keymatPass_sound (inverse : pR * qR = 1) (gain : pR * pRᵀ = c ^ 2 • (1 : Matrix (Fin d) (Fin d) ℝ)) (positive : 0 < kappa)
    (is : kappa ^ 2 / d = c ^ 2 / k) (eps : ℝ) :
    (fusePass.followed (keymatPass pR qR kappa)).Sound (keyed pR) (rmsScale d (eps / kappa ^ 2)) (rmsScale k eps) where
  read := fun gamma linear x => by
    show (scaledColumns linear gamma * qRᵀ) *ᵥ rmsNorm (rmsScale k eps) (fun _ => kappa) (x ᵥ* pR) = _
    rw [read_keyed inverse gain,keyed_scale positive is,read_plain]
  write := fun linear x => by
    show (pRᵀ * linear) *ᵥ x = (linear *ᵥ x) ᵥ* pR
    rw [←mulVec_transpose,mulVec_mulVec]
  embd := fun linear t => by
    show (linear * pR) t = linear t ᵥ* pR
    rw [mul_apply_eq_vecMul]

end Keyed

-- The libraries as the derivation has them: exact roots, a key with its inverse and one
-- gain for all rows, draws none of which is zero.
structure Conforms (libraries : Libraries ℝ) (d h : Nat) (kappaE : ℝ) : Prop where
  root : libraries.sqrt = Real.sqrt
  inverse : (libraries.buildKeymatTransform d h).key * (libraries.buildKeymatTransform d h).inverse = 1
  gain : (libraries.buildKeymatTransform d h).key * (libraries.buildKeymatTransform d h).keyᵀ = kappaE ^ 2 • (1 : Matrix (Fin d) (Fin d) ℝ)
  ofNorms : 0 ≤ kappaE
  drawn : ∀ i, libraries.standardNormal d i ≠ 0

namespace Conforms
variable {libraries : Libraries ℝ} {d h : Nat} {kappaE : ℝ}

theorem squares_pos {x : Fin d → ℝ} (some_ : x ≠ 0) : 0 < x ⬝ᵥ x :=
  lt_of_le_of_ne (Finset.sum_nonneg fun i _ => mul_self_nonneg (x i)) fun none_ => some_ (dotProduct_self_eq_zero.mp none_.symm)

-- Every draw has the key's gain, so their mean is no estimate.
theorem estimated (conforms : Conforms libraries d h kappaE) :
    estimateKappa libraries.sqrt (libraries.standardNormal d) (libraries.buildKeymatTransform d h).key = kappaE := by
  have each : ∀ i, norm libraries.sqrt (libraries.standardNormal d i ᵥ* (libraries.buildKeymatTransform d h).key) /
      norm libraries.sqrt (libraries.standardNormal d i) = kappaE := by
    intro i
    have positive := Real.sqrt_pos.mpr (squares_pos (conforms.drawn i))
    unfold norm
    rw [keyed_squares conforms.gain,conforms.root,Real.sqrt_mul (sq_nonneg kappaE),Real.sqrt_sq conforms.ofNorms,mul_div_cancel_right₀ _ positive.ne']
  unfold estimateKappa
  rw [Finset.sum_congr rfl fun i _ => each i,Finset.sum_const,Finset.card_univ,Fintype.card_fin,nsmul_eq_mul,mul_div_cancel_left₀ kappaE (by norm_num)]

theorem kappa_eq (conforms : Conforms libraries d h kappaE) : kappaOf libraries .keymat d h = kappaE * √((d : ℝ) / ((d + 2 * h : Nat) : ℝ)) := by
  unfold kappaOf
  rw [if_pos rfl,conforms.estimated,conforms.root]

theorem gain_pos (conforms : Conforms libraries d h kappaE) (some_ : 0 < d) : 0 < kappaE := by
  refine lt_of_le_of_ne conforms.ofNorms fun none_ => ?_
  have row : (libraries.buildKeymatTransform d h).key ⟨0,some_⟩ = 0 := by
    refine dotProduct_self_eq_zero.mp ?_
    have entry := congrFun (congrFun conforms.gain ⟨0,some_⟩) ⟨0,some_⟩
    rw [←none_,zero_pow two_ne_zero,zero_smul] at entry
    exact entry
  have one := congrFun (congrFun conforms.inverse ⟨0,some_⟩) ⟨0,some_⟩
  rw [mul_apply_eq_vecMul,row,zero_vecMul,one_apply_eq] at one
  exact zero_ne_one one

theorem kappa_pos (conforms : Conforms libraries d h kappaE) (some_ : 0 < d) : 0 < kappaOf libraries .keymat d h := by
  rw [conforms.kappa_eq]
  have wide : (0 : ℝ) < ((d + 2 * h : Nat) : ℝ) := Nat.cast_pos.mpr (by omega)
  exact mul_pos (conforms.gain_pos some_) (Real.sqrt_pos.mpr (div_pos (Nat.cast_pos.mpr some_) wide))

theorem kappa_squared (conforms : Conforms libraries d h kappaE) (some_ : 0 < d) :
    kappaOf libraries .keymat d h ^ 2 / d = kappaE ^ 2 / ((d + 2 * h : Nat) : ℝ) := by
  have narrow : (0 : ℝ) < d := Nat.cast_pos.mpr some_
  have wide : (0 : ℝ) < ((d + 2 * h : Nat) : ℝ) := Nat.cast_pos.mpr (by omega)
  rw [conforms.kappa_eq,mul_pow,Real.sq_sqrt (div_nonneg narrow.le wide.le)]
  field_simp

theorem kappa_one (conforms : Conforms libraries d h kappaE) (some_ : 0 < d) :
    kappaOf libraries .keymat d h = 1 ↔ kappaE ^ 2 * d = ((d + 2 * h : Nat) : ℝ) := by
  have narrow : (0 : ℝ) < d := Nat.cast_pos.mpr some_
  have wide : (0 : ℝ) < ((d + 2 * h : Nat) : ℝ) := Nat.cast_pos.mpr (by omega)
  have squared := conforms.kappa_squared some_
  rw [div_eq_div_iff narrow.ne' wide.ne'] at squared
  constructor
  · intro one
    rw [one,one_pow,one_mul] at squared
    exact squared.symm
  · intro balanced
    rw [balanced] at squared
    have one : kappaOf libraries .keymat d h ^ 2 = 1 := mul_right_cancel₀ wide.ne' (squared.trans (one_mul _).symm)
    exact (pow_eq_one_iff_of_nonneg (conforms.kappa_pos some_).le two_ne_zero).mp one

end Conforms

section Site
variable {d h m : Nat} {kappaE : ℝ} {libraries : Libraries ℝ}

-- A linear that has taken up the norm's gains over kappa, with kappa on the norm as well.
theorem read_divided (conforms : Conforms libraries d h kappaE) (some_ : 0 < d) (gamma x : Fin d → ℝ) (linear : Matrix (Fin m) (Fin d) ℝ) :
    (scaledColumns linear (fun i => gamma i / kappaOf libraries .keymat d h) * (libraries.buildKeymatTransform d h).inverseᵀ) *ᵥ
        rmsNorm (rmsScale (d + 2 * h) 0) (fun _ => kappaOf libraries .keymat d h) (x ᵥ* (libraries.buildKeymatTransform d h).key) =
      (kappaOf libraries .keymat d h)⁻¹ • (linear *ᵥ rmsNorm (rmsScale d 0) gamma x) := by
  have divided : scaledColumns linear (fun i => gamma i / kappaOf libraries .keymat d h) *ᵥ x =
      (kappaOf libraries .keymat d h)⁻¹ • (scaledColumns linear gamma *ᵥ x) := by
    funext r
    show ∑ i, linear r i * (gamma i / kappaOf libraries .keymat d h) * x i = (kappaOf libraries .keymat d h)⁻¹ * ∑ i, linear r i * gamma i * x i
    rw [Finset.mul_sum]
    exact Finset.sum_congr rfl fun i _ => by ring
  rw [read_keyed conforms.inverse conforms.gain,keyed_scale (conforms.kappa_pos some_) (conforms.kappa_squared some_),zero_div,divided,read_plain,
    smul_comm]

theorem divided_agrees (conforms : Conforms libraries d h kappaE) {gamma x : Fin d → ℝ} (row : x ≠ 0) (linear : Matrix (Fin m) (Fin d) ℝ) :
    (kappaOf libraries .keymat d h)⁻¹ • (linear *ᵥ rmsNorm (rmsScale d 0) gamma x) = linear *ᵥ rmsNorm (rmsScale d 0) gamma x ↔
      kappaE ^ 2 * d = ((d + 2 * h : Nat) : ℝ) ∨ scaledColumns linear gamma *ᵥ x = 0 := by
  have some_ : 0 < d := by
    rcases Nat.eq_zero_or_pos d with rfl | some_
    · exact absurd (Subsingleton.elim x 0) row
    · exact some_
  have scaled : rmsScale d 0 (x ⬝ᵥ x) ≠ 0 := by
    unfold rmsScale
    rw [add_zero]
    exact one_div_ne_zero (Real.sqrt_pos.mpr (div_pos (Conforms.squares_pos row) (Nat.cast_pos.mpr some_))).ne'
  have kappa := conforms.kappa_pos some_
  rw [←conforms.kappa_one some_,read_plain,smul_smul,mul_comm,←smul_smul]
  constructor
  · intro same
    by_cases none_ : scaledColumns linear gamma *ᵥ x = 0
    · exact .inr none_
    · refine .inl ?_
      have inner := smul_right_injective _ scaled same
      have one : (kappaOf libraries .keymat d h)⁻¹ = 1 := by
        by_contra other
        refine none_ ((smul_eq_zero.mp ?_).resolve_left (sub_ne_zero.mpr other))
        rw [sub_smul,one_smul]
        exact sub_eq_zero.mpr inner
      rwa [inv_eq_one] at one
  · rintro (one | none_)
    · rw [one,inv_one,one_smul]
    · rw [none_,smul_zero,smul_zero]

end Site
end Aloepri
