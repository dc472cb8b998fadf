import GeloLightrag.Foundation.Binary32
import GeloLightrag.Foundation.Literals
import Mathlib.Algebra.Order.Ring.Abs
import Mathlib.Data.Int.Order.Basic
import Mathlib.Data.Real.Basic
import Mathlib.Tactic.Positivity
import Mathlib.Tactic.Ring

namespace Foundation

-- The upper half of a float of 32 bits.
structure Bfloat16 where
  toBits : UInt16
deriving DecidableEq,Repr

def Bfloat16.magnitude (y : Bfloat16) : Nat := y.toBits.toNat % 2 ^ 15
def Bfloat16.negative (y : Bfloat16) : Bool := decide (2 ^ 15 ≤ y.toBits.toNat)
def Binary32.negative (x : Binary32) : Bool := decide (2 ^ 31 ≤ x.toBits.toNat)

namespace Grid

-- The value of a magnitude in units of the least subnormal. Past the largest finite
-- number it goes on as if the exponent did, so that infinity stands at 2 ^ 128.
def units (m : Nat) : Nat := if m / 2 ^ 23 = 0 then m % 2 ^ 23 else (2 ^ 23 + m % 2 ^ 23) * 2 ^ (m / 2 ^ 23 - 1)

-- How far the next magnitude is.
def step (m : Nat) : Nat := 2 ^ (m / 2 ^ 23 - 1)

theorem units_subnormal (low : m < 2 ^ 23) : units m = m := by
  rw [units,if_pos (Nat.div_eq_of_lt low),Nat.mod_eq_of_lt low]

theorem units_normal (high : 2 ^ 23 ≤ m) : units m = (2 ^ 23 + m % 2 ^ 23) * step m :=
  if_neg (by omega)

theorem units_succ (m : Nat) : units (m + 1) = units m + step m := by
  by_cases low : m + 1 < 2 ^ 23
  · have one : step m = 1 := by
      rw [step,Nat.div_eq_of_lt (Nat.lt_of_succ_lt low)]
      rfl
    rw [units_subnormal low,units_subnormal (Nat.lt_of_succ_lt low),one]
  by_cases first : m + 1 = 2 ^ 23
  · have below : m = 2 ^ 23 - 1 := by omega
    subst below
    rfl
  have high : 2 ^ 23 ≤ m := by omega
  rw [units_normal high,units_normal (by omega)]
  by_cases carry : m % 2 ^ 23 = 2 ^ 23 - 1
  · have next : (m + 1) % 2 ^ 23 = 0 := by omega
    have up : step (m + 1) = 2 * step m := by
      rw [step,step,show (m + 1) / 2 ^ 23 - 1 = m / 2 ^ 23 - 1 + 1 by omega,Nat.pow_succ,Nat.mul_comm]
    rw [next,carry,up]
    ring
  · have next : (m + 1) % 2 ^ 23 = m % 2 ^ 23 + 1 := by omega
    have same : step (m + 1) = step m := by rw [step,step,show (m + 1) / 2 ^ 23 = m / 2 ^ 23 by omega]
    rw [next,same]
    ring

theorem step_pos (m : Nat) : 0 < step m := Nat.two_pow_pos _

theorem units_strictMono : StrictMono units :=
  strictMono_nat_of_lt_succ fun m => by
    rw [units_succ]
    exact Nat.lt_add_of_pos_right (step_pos m)

-- Between two neighbours of the coarser grid the values are evenly spaced.
theorem units_block (p : Nat) {low : Nat} (within : low ≤ 2 ^ 16) : units (p * 2 ^ 16 + low) = units (p * 2 ^ 16) + low * step (p * 2 ^ 16) := by
  induction low with
  | zero => rw [Nat.zero_mul,Nat.add_zero,Nat.add_zero]
  | succ low ih =>
      have same : step (p * 2 ^ 16 + low) = step (p * 2 ^ 16) := by
        rw [step,step,show (p * 2 ^ 16 + low) / 2 ^ 23 = p * 2 ^ 16 / 2 ^ 23 by omega]
      rw [←Nat.add_assoc,units_succ,ih (Nat.le_of_succ_le within),same,Nat.succ_mul,Nat.add_assoc]

theorem units_shift (high : 2 ^ 23 ≤ m) (k : Nat) : units (m + k * 2 ^ 23) = 2 ^ k * units m := by
  have power : step (m + k * 2 ^ 23) = 2 ^ k * step m := by
    rw [step,step,show (m + k * 2 ^ 23) / 2 ^ 23 - 1 = k + (m / 2 ^ 23 - 1) by omega,Nat.pow_add]
  rw [units_normal (Nat.le_add_right_of_le high),units_normal high,power,Nat.add_mul_mod_self_right]
  ring

-- Numbers apart by a power of two have exponents apart by its logarithm.
theorem shifted_of_units (high : 2 ^ 23 ≤ m) (scaled : units m' = 2 ^ k * units m) : m' = m + k * 2 ^ 23 :=
  units_strictMono.injective (by rw [scaled,units_shift high])

def distance (m p : Nat) : Int := |(units m : Int) - units (p * 2 ^ 16)|

-- The magnitude on the coarser grid to the nearest, and of two as near the even one.
structure NearestEven (m p : Nat) : Prop where
  nearest : ∀ q, distance m p ≤ distance m q
  even : ∀ q, q ≠ p → distance m q = distance m p → p % 2 = 0

-- The upper half, or the next where the lower half is more than half a step, or half a
-- step from an odd one.
def rounded (m : Nat) : Nat := (m + 0x7fff + m / 2 ^ 16 % 2) / 2 ^ 16

theorem distance_below {p low q : Nat} (within : low ≤ 2 ^ 16) (under : q ≤ p) :
    (low * step (p * 2 ^ 16) : Nat) ≤ distance (p * 2 ^ 16 + low) q ∧
      (q < p → (low * step (p * 2 ^ 16) : Nat) < distance (p * 2 ^ 16 + low) q) := by
  have ordered : units (q * 2 ^ 16) ≤ units (p * 2 ^ 16) := units_strictMono.monotone (Nat.mul_le_mul_right _ under)
  have strictly : q < p → units (q * 2 ^ 16) < units (p * 2 ^ 16) := fun less => units_strictMono (Nat.mul_lt_mul_of_pos_right less (by decide))
  rw [distance,units_block p within,abs_of_nonneg (by omega)]
  refine ⟨by omega,fun less => ?_⟩
  have := strictly less
  omega

theorem distance_above {p low q : Nat} (within : low ≤ 2 ^ 16) (past : p + 1 ≤ q) :
    ((2 ^ 16 - low) * step (p * 2 ^ 16) : Nat) ≤ distance (p * 2 ^ 16 + low) q ∧
      (p + 1 < q → ((2 ^ 16 - low) * step (p * 2 ^ 16) : Nat) < distance (p * 2 ^ 16 + low) q) := by
  have top : units ((p + 1) * 2 ^ 16) = units (p * 2 ^ 16) + 2 ^ 16 * step (p * 2 ^ 16) := by
    rw [Nat.succ_mul]
    exact units_block p (Nat.le_refl _)
  have ordered : units ((p + 1) * 2 ^ 16) ≤ units (q * 2 ^ 16) := units_strictMono.monotone (Nat.mul_le_mul_right _ past)
  have strictly : p + 1 < q → units ((p + 1) * 2 ^ 16) < units (q * 2 ^ 16) := fun less =>
    units_strictMono (Nat.mul_lt_mul_of_pos_right less (by decide))
  have split : 2 ^ 16 * step (p * 2 ^ 16) = low * step (p * 2 ^ 16) + (2 ^ 16 - low) * step (p * 2 ^ 16) := by
    rw [←Nat.add_mul,Nat.add_sub_cancel' within]
  rw [distance,units_block p within,abs_of_nonpos (by omega)]
  refine ⟨by omega,fun less => ?_⟩
  have := strictly less
  omega

theorem distance_here (p : Nat) {low : Nat} (within : low ≤ 2 ^ 16) : distance (p * 2 ^ 16 + low) p = (low * step (p * 2 ^ 16) : Nat) := by
  rw [distance,units_block p within,abs_of_nonneg (by omega)]
  omega

theorem distance_next (p : Nat) {low : Nat} (within : low ≤ 2 ^ 16) :
    distance (p * 2 ^ 16 + low) (p + 1) = ((2 ^ 16 - low) * step (p * 2 ^ 16) : Nat) := by
  have top : units ((p + 1) * 2 ^ 16) = units (p * 2 ^ 16) + 2 ^ 16 * step (p * 2 ^ 16) := by
    rw [Nat.succ_mul]
    exact units_block p (Nat.le_refl _)
  have split : 2 ^ 16 * step (p * 2 ^ 16) = low * step (p * 2 ^ 16) + (2 ^ 16 - low) * step (p * 2 ^ 16) := by
    rw [←Nat.add_mul,Nat.add_sub_cancel' within]
  rw [distance,units_block p within,abs_of_nonpos (by omega)]
  omega

theorem rounded_nearest (m : Nat) : NearestEven m (rounded m) := by
  obtain ⟨p,low,within,rfl⟩ : ∃ p low, low < 2 ^ 16 ∧ m = p * 2 ^ 16 + low := ⟨m / 2 ^ 16,m % 2 ^ 16,Nat.mod_lt _ (by decide),by omega⟩
  have within' := Nat.le_of_lt within
  have positive := step_pos (p * 2 ^ 16)
  have here := distance_here p within'
  have next := distance_next p within'
  by_cases up : 2 ^ 15 < low ∨ low = 2 ^ 15 ∧ p % 2 = 1
  · have is : rounded (p * 2 ^ 16 + low) = p + 1 := by rw [rounded]; omega
    have nearer : (2 ^ 16 - low) * step (p * 2 ^ 16) ≤ low * step (p * 2 ^ 16) := Nat.mul_le_mul_right _ (by omega)
    rw [is]
    refine ⟨fun q => ?_,fun q other same => ?_⟩
    · rcases Nat.lt_or_ge p q with past | under
      · rw [next]
        exact (distance_above within' past).1
      · have := (distance_below within' under).1
        omega
    · by_cases tie : low = 2 ^ 15
      · omega
      · have strict : (2 ^ 16 - low) * step (p * 2 ^ 16) < low * step (p * 2 ^ 16) := Nat.mul_lt_mul_of_pos_right (by omega) positive
        rcases Nat.lt_or_ge p q with past | under
        · have := (distance_above within' past).2 (by omega)
          omega
        · have := (distance_below within' under).1
          omega
  · have is : rounded (p * 2 ^ 16 + low) = p := by rw [rounded]; omega
    have nearer : low * step (p * 2 ^ 16) ≤ (2 ^ 16 - low) * step (p * 2 ^ 16) := Nat.mul_le_mul_right _ (by omega)
    rw [is]
    refine ⟨fun q => ?_,fun q other same => ?_⟩
    · rcases Nat.lt_or_ge p q with past | under
      · have := (distance_above within' past).1
        omega
      · rw [here]
        exact (distance_below within' under).1
    · by_cases tie : low = 2 ^ 15
      · omega
      · have strict : low * step (p * 2 ^ 16) < (2 ^ 16 - low) * step (p * 2 ^ 16) := Nat.mul_lt_mul_of_pos_right (by omega) positive
        rcases Nat.lt_or_ge p q with past | under
        · have := (distance_above within' past).1
          omega
        · have := (distance_below within' under).2 (by omega)
          omega

theorem rounded_exact (p : Nat) : rounded (p * 2 ^ 16) = p := by
  rw [rounded]
  omega

theorem rounded_shift (m k : Nat) : rounded (m + k * 2 ^ 23) = rounded m + k * 2 ^ 7 := by
  rw [rounded,rounded]
  omega

theorem units_rounded_shift (high : 2 ^ 23 ≤ m) (k : Nat) : units (rounded (m + k * 2 ^ 23) * 2 ^ 16) = 2 ^ k * units (rounded m * 2 ^ 16) := by
  have normal : 2 ^ 23 ≤ rounded m * 2 ^ 16 := by
    rw [rounded]
    omega
  rw [rounded_shift,Nat.add_mul,Nat.mul_assoc k]
  exact units_shift normal k

-- Rounding goes along with a scale by a power of two that leaves a normal number one.
theorem rounded_scaled {m : Nat} {k : Int} (normal : 2 ^ 23 ≤ m) (low : (2 ^ 23 : ℝ) ≤ 2 ^ k * units m) :
    ∃ m', 2 ^ 23 ≤ m' ∧ (units m' : ℝ) = 2 ^ k * units m ∧ (units (rounded m' * 2 ^ 16) : ℝ) = 2 ^ k * units (rounded m * 2 ^ 16) := by
  obtain ⟨n,rfl | rfl⟩ := k.eq_nat_or_neg
  · refine ⟨m + n * 2 ^ 23,Nat.le_add_right_of_le normal,?_,?_⟩
    · rw [units_shift normal]
      push_cast
      rfl
    · rw [units_rounded_shift normal]
      push_cast
      rfl
  · have two : (0 : ℝ) < 2 ^ n := by positivity
    rw [zpow_neg,zpow_natCast] at low ⊢
    have above : 2 ^ n * 2 ^ 23 ≤ units m := by
      have wide : (2 ^ n * 2 ^ 23 : ℝ) ≤ units m := by
        calc (2 ^ n * 2 ^ 23 : ℝ) ≤ 2 ^ n * ((2 ^ n)⁻¹ * units m) := mul_le_mul_of_nonneg_left low two.le
          _ = units m := by rw [←mul_assoc,mul_inv_cancel₀ two.ne',one_mul]
      exact_mod_cast wide
    have least : units (2 ^ 23 + n * 2 ^ 23) = 2 ^ n * 2 ^ 23 := units_shift (Nat.le_refl _) n
    obtain ⟨m',rfl⟩ := Nat.exists_eq_add_of_le' (units_strictMono.le_iff_le.mp (least.symm ▸ above))
    have down : 2 ^ 23 ≤ m' + 2 ^ 23 := Nat.le_add_left _ _
    have split : m' + (2 ^ 23 + n * 2 ^ 23) = m' + 2 ^ 23 + n * 2 ^ 23 := (Nat.add_assoc _ _ _).symm
    refine ⟨m' + 2 ^ 23,down,?_,?_⟩
    · rw [split,units_shift down]
      push_cast
      rw [←mul_assoc,inv_mul_cancel₀ two.ne',one_mul]
    · rw [split,units_rounded_shift down]
      push_cast
      rw [←mul_assoc,inv_mul_cancel₀ two.ne',one_mul]

end Grid

section Values
attribute [local instance] two_atLeastTwo

noncomputable def unitSign (negative : Bool) : ℝ := if negative then -1 else 1

noncomputable def Binary32.value (x : Binary32) : ℝ := unitSign x.negative * (Grid.units x.magnitude / 2 ^ 149)
noncomputable def Bfloat16.value (y : Bfloat16) : ℝ := unitSign y.negative * (Grid.units (y.magnitude * 2 ^ 16) / 2 ^ 149)

-- Of the absolute value of a normal number, and nearer to the largest one of the coarser
-- grid than to infinity.
structure InRange (r : ℝ) : Prop where
  low : 1 / 2 ^ 126 ≤ |r|
  high : |r| < 2 ^ 128 - 2 ^ 119

def Binary32.made (negative : Bool) (m : Nat) : Binary32 := ⟨.ofNat (if negative then 2 ^ 31 + m else m)⟩

theorem Binary32.made_parts (negative : Bool) (small : m < 2 ^ 31) : (made negative m).magnitude = m ∧ (made negative m).negative = negative := by
  cases negative with
  | false =>
      have bits : (made false m).toBits.toNat = m := UInt32.toNat_ofNat_of_lt' (show m < 2 ^ 32 by omega)
      rw [magnitude,Binary32.negative,bits]
      exact ⟨Nat.mod_eq_of_lt small,decide_eq_false (by omega)⟩
  | true =>
      have bits : (made true m).toBits.toNat = 2 ^ 31 + m := UInt32.toNat_ofNat_of_lt' (show 2 ^ 31 + m < 2 ^ 32 by omega)
      rw [magnitude,Binary32.negative,bits]
      exact ⟨by omega,decide_eq_true (by omega)⟩

theorem unitSign_abs (negative : Bool) : |unitSign negative| = 1 := by
  cases negative with
  | false => exact abs_one
  | true => exact (abs_neg 1).trans abs_one

theorem unitSign_not (negative : Bool) : unitSign (!negative) = -unitSign negative := by
  cases negative with
  | false => rfl
  | true => exact (neg_neg 1).symm

theorem Binary32.abs_value (x : Binary32) : |x.value| = Grid.units x.magnitude / 2 ^ 149 := by
  rw [value,abs_mul,unitSign_abs,one_mul,abs_of_nonneg (by positivity)]

theorem InRange.units {r : ℝ} {m : Nat} (inRange : InRange r) (is : |r| = Grid.units m / 2 ^ 149) : 2 ^ 23 ≤ m ∧ m < 0x7f7f8000 := by
  have top : Grid.units 0x7f7f8000 = (2 ^ 24 - 2 ^ 15) * 2 ^ 253 := rfl
  have bottom : Grid.units (2 ^ 23) = 2 ^ 23 := rfl
  obtain ⟨low,high⟩ := inRange
  rw [is] at low high
  rw [div_le_div_iff₀ (by positivity) (by positivity)] at low
  rw [div_lt_iff₀ (by positivity)] at high
  refine ⟨Grid.units_strictMono.le_iff_le.mp ?_,Grid.units_strictMono.lt_iff_lt.mp ?_⟩
  · rw [bottom]
    have low' : (2 ^ 23 : ℝ) ≤ Grid.units m := by
      refine le_of_mul_le_mul_right ?_ (show (0 : ℝ) < 2 ^ 126 by positivity)
      calc (2 ^ 23 * 2 ^ 126 : ℝ) = 1 * 2 ^ 149 := by norm_num
        _ ≤ Grid.units m * 2 ^ 126 := low
    exact_mod_cast low'
  · rw [top]
    have high' : (Grid.units m : ℝ) < ((2 ^ 24 - 2 ^ 15) * 2 ^ 253 : Nat) := by
      calc (Grid.units m : ℝ) < (2 ^ 128 - 2 ^ 119) * 2 ^ 149 := high
        _ = ((2 ^ 24 - 2 ^ 15) * 2 ^ 253 : Nat) := by norm_num
    exact_mod_cast high'

end Values
end Foundation
