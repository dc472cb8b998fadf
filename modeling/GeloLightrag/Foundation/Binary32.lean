import GeloLightrag.Foundation.Ranking
import Mathlib.Algebra.Group.Nat.Defs

namespace Foundation

-- A float of 32 bits by its pattern: the sign, then eight bits of exponent and
-- twenty-three of mantissa, which together rise with the absolute value.
structure Binary32 where
  toBits : UInt32
deriving DecidableEq,Repr

namespace Binary32

def magnitude (x : Binary32) : Nat := x.toBits.toNat % 2 ^ 31

-- The patterns above the infinities'.
def isNan (x : Binary32) : Bool := decide (0x7f800000 < x.magnitude)

-- Where a number stands among the others; both zeros stand at one place.
def place (x : Binary32) : Int := if x.toBits.toNat < 2 ^ 31 then x.magnitude else -x.magnitude

instance : PartialCmp Binary32 := ⟨fun x y => if x.isNan || y.isNan then none else some (compare x.place y.place)⟩

theorem partialCmp_nan {x y : Binary32} (nan : x.isNan = true ∨ y.isNan = true) : partialCmp x y = none :=
  if_pos (Bool.or_eq_true_iff.mpr nan)

theorem partialCmp_number {x y : Binary32} (number : x.isNan = false) (number' : y.isNan = false) :
    partialCmp x y = some (compare x.place y.place) := if_neg (by simp [number,number'])

theorem gt_iff {x y : Binary32} : gt x y = true ↔ x.isNan = false ∧ y.isNan = false ∧ y.place < x.place := by
  unfold gt
  by_cases nan : x.isNan = true ∨ y.isNan = true
  · rw [partialCmp_nan nan]
    rcases nan with nan | nan <;> simp [nan]
  · rw [not_or,Bool.not_eq_true,Bool.not_eq_true] at nan
    rw [partialCmp_number nan.1 nan.2]
    simp [nan.1,nan.2,compare_gt_iff_gt]

-- Both zeros are equal, and a NaN is not equal to itself.
example : partialCmp (⟨0⟩ : Binary32) ⟨0x80000000⟩ = some .eq ∧ partialCmp (⟨0x7fc00000⟩ : Binary32) ⟨0x7fc00000⟩ = none := by decide

end Binary32
end Foundation
