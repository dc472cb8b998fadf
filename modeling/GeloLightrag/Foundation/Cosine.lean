import Mathlib.Algebra.BigOperators.Field
import Mathlib.Analysis.SpecialFunctions.Trigonometric.Basic

namespace Foundation
namespace Cosine
open Real

-- The unnormalised cosine transform of type IV over the reals.
noncomputable def dct4 (n i k : Nat) : ℝ := cos (π / n * (i + 1 / 2) * (k + 1 / 2))

-- Cosines at odd multiples of a half step add up to one sine.
theorem sum_cos (θ : ℝ) : ∀ n, 2 * sin (θ / 2) * ∑ k ∈ Finset.range n, cos (θ * (k + 1 / 2)) = sin (θ * n)
  | 0 => by simp
  | n+1 => by
    have step : 2 * sin (θ / 2) * cos (θ * (n + 1 / 2)) = sin (θ * (n + 1 : ℕ)) - sin (θ * n) := by
      rw [show θ * ((n + 1 : ℕ) : ℝ) = θ * (n + 1 / 2) + θ / 2 by push_cast; ring,
        show θ * (n : ℝ) = θ * (n + 1 / 2) - θ / 2 by ring,sin_add,sin_sub]
      ring
    rw [Finset.sum_range_succ,mul_add,sum_cos θ n,step]
    ring

-- Over the n points they cancel when the step is m half turns of n, 0 < m < 2n.
theorem cos_cancel {n m : Nat} (some : 0 < m) (short : m < 2 * n) :
    ∑ k ∈ Finset.range n, cos (π * m / n * (k + 1 / 2)) = 0 := by
  have size : (0 : ℝ) < n := by exact_mod_cast (show 0 < n by omega)
  have total := sum_cos (π * m / n) n
  rw [show π * m / n * n = m * π by field_simp,sin_nat_mul_pi] at total
  have positive : 0 < sin (π * m / n / 2) := by
    refine sin_pos_of_pos_of_lt_pi ?_ ?_
    · have : (0 : ℝ) < m := by exact_mod_cast some
      positivity
    · have below : (m : ℝ) < 2 * n := by exact_mod_cast short
      rw [div_div,div_lt_iff₀ (by positivity)]
      nlinarith [pi_pos]
  rcases mul_eq_zero.mp total with zero | zero
  · exact absurd zero (by positivity)
  · exact zero

theorem dct4_product (n i j k : Nat) : dct4 n i k * dct4 n k j =
    (cos (π / n * ((i : ℝ) - j) * (k + 1 / 2)) + cos (π * (i + j + 1 : ℕ) / n * (k + 1 / 2))) / 2 := by
  unfold dct4
  rw [show π / n * ((i : ℝ) - j) * (k + 1 / 2) = π / n * (i + 1 / 2) * (k + 1 / 2) - π / n * (k + 1 / 2) * (j + 1 / 2) by ring,
    show π * ((i + j + 1 : ℕ) : ℝ) / n * (k + 1 / 2) = π / n * (i + 1 / 2) * (k + 1 / 2) + π / n * (k + 1 / 2) * (j + 1 / 2) by
      push_cast; ring,cos_sub,cos_add]
  ring

theorem dct4_square {n : Nat} : ∀ i < n, ∀ j < n,
    ∑ k ∈ Finset.range n, dct4 n i k * dct4 n k j = if i = j then (n : ℝ) / 2 else 0 := by
  intro i low j low'
  have sum : ∑ k ∈ Finset.range n, cos (π * (i + j + 1 : ℕ) / n * (k + 1 / 2)) = 0 := cos_cancel (by omega) (by omega)
  have split : ∑ k ∈ Finset.range n, dct4 n i k * dct4 n k j =
      (∑ k ∈ Finset.range n, cos (π / n * ((i : ℝ) - j) * (k + 1 / 2))) / 2 := by
    rw [Finset.sum_congr rfl fun k _ => dct4_product n i j k,←Finset.sum_div,Finset.sum_add_distrib,sum,add_zero]
  rw [split]
  rcases Nat.lt_trichotomy i j with below | same | above
  · have turned : ∀ k : Nat, cos (π / n * ((i : ℝ) - j) * (k + 1 / 2)) = cos (π * (j - i : ℕ) / n * (k + 1 / 2)) := by
      intro k
      rw [←cos_neg,Nat.cast_sub (Nat.le_of_lt below)]
      ring_nf
    rw [if_neg (by omega),Finset.sum_congr rfl fun k _ => turned k,cos_cancel (by omega) (by omega),zero_div]
  · subst same
    simp
  · have turned : ∀ k : Nat, cos (π / n * ((i : ℝ) - j) * (k + 1 / 2)) = cos (π * (i - j : ℕ) / n * (k + 1 / 2)) := by
      intro k
      rw [Nat.cast_sub (Nat.le_of_lt above)]
      ring_nf
    rw [if_neg (by omega),Finset.sum_congr rfl fun k _ => turned k,cos_cancel (by omega) (by omega),zero_div]

end Cosine
end Foundation
