import Mathlib.Analysis.SpecialFunctions.Trigonometric.Inverse
import Mathlib.Geometry.Euclidean.Angle.Unoriented.TriangleInequality

namespace Foundation
open InnerProductGeometry Real

-- Arcsines of nonnegative numbers that sum to at most one add up to less than the
-- arcsine of the sum.
theorem arcsin_add (some_ : 0 ≤ a) (more : 0 ≤ b) (within : a + b ≤ 1) : arcsin a + arcsin b ≤ arcsin (a + b) := by
  have first : sin (arcsin a) = a := sin_arcsin (by linarith) (by linarith)
  have second : sin (arcsin b) = b := sin_arcsin (by linarith) (by linarith)
  have low := arcsin_nonneg.mpr some_
  have low' := arcsin_nonneg.mpr more
  have quarter : arcsin a ≤ π / 2 - arcsin b := by
    refine (arcsin_le_iff_le_sin ⟨by linarith,by linarith⟩ ⟨?_,?_⟩).mpr ?_
    · linarith [arcsin_le_pi_div_two b,pi_pos]
    · linarith [pi_pos]
    · rw [sin_pi_div_two_sub,cos_arcsin]
      refine le_sqrt_of_sq_le ?_
      nlinarith
  refine (le_arcsin_iff_sin_le ⟨by linarith [pi_pos],by linarith⟩ ⟨by linarith,within⟩).mpr ?_
  rw [sin_add,first,second]
  nlinarith [cos_le_one (arcsin a),cos_le_one (arcsin b)]

-- Sines that differ by more than b belong to angles that differ by more than its arcsine.
theorem arcsin_lt_sub (low : 0 ≤ x) (high : x ≤ π / 2) (low' : 0 ≤ y) (high' : y ≤ π / 2) (gap : sin x + b < sin y) (some_ : 0 ≤ b) :
    arcsin b < y - x := by
  have ordered : x < y := by
    by_contra above
    have := sin_le_sin_of_le_of_le_pi_div_two (by linarith [pi_pos]) high (le_of_not_gt above)
    linarith
  have split : sin y ≤ sin (y - x) + sin x := by
    have whole : sin y = sin (y - x) * cos x + cos (y - x) * sin x := by rw [←sin_add,sub_add_cancel]
    have inner := sin_nonneg_of_nonneg_of_le_pi (show 0 ≤ y - x by linarith) (by linarith [pi_pos])
    have own := sin_nonneg_of_nonneg_of_le_pi low (by linarith [pi_pos])
    rw [whole]
    nlinarith [cos_le_one x,cos_le_one (y - x)]
  refine (arcsin_lt_iff_lt_sin' ⟨by linarith [pi_pos],by linarith⟩).mpr ?_
  linarith

section Angles
variable {V : Type*} [NormedAddCommGroup V] [InnerProductSpace ℝ V] {u v n : V}

theorem dist_of_unit (unit : ‖u‖ = 1) (unit' : ‖v‖ = 1) : ‖u - v‖ = 2 * sin (angle u v / 2) := by
  have positive : 0 ≤ sin (angle u v / 2) :=
    sin_nonneg_of_nonneg_of_le_pi (by linarith [angle_nonneg u v]) (by linarith [angle_le_pi u v,pi_pos])
  have doubled : cos (angle u v) = 1 - 2 * sin (angle u v / 2) ^ 2 := by
    have halves : angle u v = 2 * (angle u v / 2) := by ring
    rw [halves,cos_two_mul,←halves,cos_sq']
    ring
  have square : ‖u - v‖ ^ 2 = (2 * sin (angle u v / 2)) ^ 2 := by
    rw [norm_sub_sq_real,←cos_angle_mul_norm_mul_norm,unit,unit',doubled]
    ring
  exact (sq_eq_sq₀ (norm_nonneg _) (by linarith)).mp square

-- Noise on a scaled unit vector turns it by at most the arcsine of their ratio.
theorem angle_noise {s : ℝ} (unit : ‖v‖ = 1) (quiet : ‖n‖ < s) : s • v + n ≠ 0 ∧ angle (s • v + n) v ≤ arcsin (‖n‖ / s) := by
  have scale : 0 < s := lt_of_le_of_lt (norm_nonneg n) quiet
  have inner_pos : 0 < inner ℝ (s • v + n) v := by
    have noise : -‖n‖ ≤ inner ℝ n v := by
      have := neg_le_of_abs_le (abs_real_inner_le_norm n v)
      rwa [unit,mul_one] at this
    rw [inner_add_left,real_inner_smul_left,real_inner_self_eq_norm_sq,unit]
    linarith
  have nonzero : s • v + n ≠ 0 := by
    intro zero
    rw [zero,inner_zero_left] at inner_pos
    exact lt_irrefl _ inner_pos
  refine ⟨nonzero,?_⟩
  have acute : angle (s • v + n) v ≤ π / 2 := by
    rw [angle,arccos_le_pi_div_two]
    positivity
  have apart : ‖n‖ ^ 2 = (‖s • v + n‖ - s * cos (angle (s • v + n) v)) ^ 2 + (s * sin (angle (s • v + n) v)) ^ 2 := by
    have back : n = (s • v + n) - s • v := by abel
    have product := cos_angle_mul_norm_mul_norm (s • v + n) v
    rw [unit,mul_one] at product
    have expand : ‖n‖ ^ 2 = ‖s • v + n‖ ^ 2 - 2 * (s * inner ℝ (s • v + n) v) + s ^ 2 := by
      conv_lhs => rw [back]
      rw [norm_sub_sq_real,real_inner_smul_right,norm_smul,unit,mul_one,Real.norm_eq_abs,sq_abs]
    rw [expand,←product,sub_sq,mul_pow,mul_pow,sin_sq]
    ring
  have sine : sin (angle (s • v + n) v) ≤ ‖n‖ / s := by
    rw [le_div_iff₀ scale]
    have square : (s * sin (angle (s • v + n) v)) ^ 2 ≤ ‖n‖ ^ 2 := by
      rw [apart]
      exact le_add_of_nonneg_left (sq_nonneg _)
    rw [mul_comm]
    exact (le_abs_self _).trans (abs_le_of_sq_le_sq square (norm_nonneg n))
  have small : ‖n‖ / s ≤ 1 := (div_le_one scale).mpr quiet.le
  have some_ : 0 ≤ ‖n‖ / s := div_nonneg (norm_nonneg n) scale.le
  exact (le_arcsin_iff_sin_le ⟨by linarith [angle_nonneg (s • v + n) v,pi_pos],acute⟩ ⟨by linarith,small⟩).mpr sine

-- Three unit vectors, scaled and disturbed by at most a and b times s with a + b at most
-- half the gap: the cosines keep the order of the distances.
theorem cos_order {q x y n m k : V} {s a b gap : ℝ} (unit : ‖q‖ = 1) (unit' : ‖x‖ = 1) (unit'' : ‖y‖ = 1) (scale : 0 < s)
    (low : 0 ≤ a) (low' : 0 ≤ b) (budget : a + b ≤ gap / 2) (half : gap ≤ 2) (short : a < 1) (short' : b < 1)
    (noise : ‖n‖ ≤ a * s) (noise' : ‖m‖ ≤ b * s) (noise'' : ‖k‖ ≤ b * s) (apart : ‖q - x‖ + gap < ‖q - y‖) :
    cos (angle (s • q + n) (s • y + k)) < cos (angle (s • q + n) (s • x + m)) := by
  have turn {v e : V} {c : ℝ} (one : ‖v‖ = 1) (some_ : 0 ≤ c) (less : c < 1) (quiet : ‖e‖ ≤ c * s) : angle (s • v + e) v ≤ arcsin c := by
    have below : c * s < s := by nlinarith
    refine (angle_noise one (lt_of_le_of_lt quiet below)).2.trans ?_
    exact monotone_arcsin ((div_le_iff₀ scale).mpr quiet)
  have first := turn unit low short noise
  have second := turn unit' low' short' noise'
  have third := turn unit'' low' short' noise''
  have sums : arcsin a + arcsin b ≤ arcsin (gap / 2) :=
    (arcsin_add low low' (by linarith)).trans (monotone_arcsin budget)
  rw [dist_of_unit unit unit',dist_of_unit unit unit''] at apart
  have far : arcsin (gap / 2) < angle q y / 2 - angle q x / 2 :=
    arcsin_lt_sub (by linarith [angle_nonneg q x]) (by linarith [angle_le_pi q x]) (by linarith [angle_nonneg q y])
      (by linarith [angle_le_pi q y]) (by linarith) (by linarith)
  have near : angle (s • q + n) (s • x + m) ≤ arcsin a + angle q x + arcsin b := by
    have one := angle_le_angle_add_angle (s • q + n) q (s • x + m)
    have two := angle_le_angle_add_angle q x (s • x + m)
    rw [angle_comm x] at two
    linarith
  have wide : angle q y ≤ arcsin a + angle (s • q + n) (s • y + k) + arcsin b := by
    have one := angle_le_angle_add_angle q (s • q + n) y
    have two := angle_le_angle_add_angle (s • q + n) (s • y + k) y
    rw [angle_comm q (s • q + n)] at one
    linarith
  exact strictAntiOn_cos ⟨angle_nonneg _ _,angle_le_pi _ _⟩ ⟨angle_nonneg _ _,angle_le_pi _ _⟩ (by linarith)

end Angles
end Foundation
