import GeloLightrag.Foundation.Walsh
import Mathlib.Data.Nat.Bitwise

namespace Foundation
namespace Walsh
variable {F : Type} [CommRing F]

def countOnes (x : Nat) : Nat := ((Finset.range x).filter fun b => x.testBit b).card

-- The Walsh matrix over n rows, a diagonal, and a multiple.
def walshMatrix (F : Type) [CommRing F] (n : Nat) : Array2 F := Array2.of n n fun i j => (-1) ^ countOnes (i &&& j)

def diagonal (d : List F) : Array2 F := Array2.of d.length d.length fun i j => if i = j then d.getD i 0 else 0

def times (c : F) (x : Array2 F) : Array2 F := Array2.of x.nrows x.ncols fun i j => c * x.entry i j

theorem walshMatrix_entry (row : i < n) (col : j < n) : (walshMatrix F n).entry i j = (-1) ^ countOnes (i &&& j) :=
  Array2.of_entry row col

theorem diagonal_entry {d : List F} (row : i < d.length) (col : j < d.length) :
    (diagonal d).entry i j = if i = j then d.getD i 0 else 0 := Array2.of_entry row col

theorem times_entry {c : F} {x : Array2 F} (row : i < x.nrows) (col : j < x.ncols) : (times c x).entry i j = c * x.entry i j :=
  Array2.of_entry row col

theorem countOnes_below (small : x < 2 ^ m) : countOnes x = ((Finset.range m).filter fun b => x.testBit b).card := by
  unfold countOnes
  congr 1
  ext b
  simp only [Finset.mem_filter,Finset.mem_range]
  constructor
  · rintro ⟨_,bit⟩
    exact ⟨(Nat.pow_lt_pow_iff_right (by decide)).mp (Nat.lt_of_le_of_lt (Nat.ge_two_pow_of_testBit bit) small),bit⟩
  · rintro ⟨_,bit⟩
    exact ⟨Nat.lt_of_lt_of_le Nat.lt_two_pow_self (Nat.ge_two_pow_of_testBit bit),bit⟩

theorem countOnes_top (small : x < 2 ^ m) : countOnes (2 ^ m + x) = countOnes x + 1 := by
  have below : 2 ^ m + x < 2 ^ (m+1) := by rw [pow_succ]; omega
  have low : (Finset.range m).filter (fun b => (2 ^ m + x).testBit b) = (Finset.range m).filter fun b => x.testBit b := by
    refine Finset.filter_congr fun b member => ?_
    rw [Nat.testBit_two_pow_add_gt (Finset.mem_range.mp member)]
  have top : (2 ^ m + x).testBit m = true := by
    rw [Nat.testBit_two_pow_add_eq,Nat.testBit_lt_two_pow small]; rfl
  rw [countOnes_below below,countOnes_below small,Finset.range_add_one,Finset.filter_insert,if_pos top,
    Finset.card_insert_of_notMem (by simp),low]

-- The bits in common with an index that has one more bit above.
theorem and_top (small : k < 2 ^ m) (i : Nat) : i &&& (2 ^ m + k) = if i.testBit m then 2 ^ m + (i &&& k) else i &&& k := by
  have common : i &&& k < 2 ^ m := Nat.lt_of_le_of_lt Nat.and_le_right small
  apply Nat.eq_of_testBit_eq
  intro b
  rw [Nat.testBit_and]
  rcases Nat.lt_trichotomy b m with less | rfl | more
  · rw [Nat.testBit_two_pow_add_gt less]
    split
    · rw [Nat.testBit_two_pow_add_gt less,Nat.testBit_and]
    · rw [Nat.testBit_and]
  · rw [Nat.testBit_two_pow_add_eq,Nat.testBit_lt_two_pow small]
    cases bit : i.testBit b with
    | true => rw [if_pos rfl,Nat.testBit_two_pow_add_eq,Nat.testBit_lt_two_pow common]; rfl
    | false => rw [if_neg (by decide),Nat.testBit_lt_two_pow common]; rfl
  · have above : ∀ y, y < 2 ^ m → (2 ^ m + y).testBit b = false := fun y low =>
      Nat.testBit_lt_two_pow (Nat.lt_of_lt_of_le (show 2 ^ m + y < 2 ^ (m+1) by rw [pow_succ]; omega)
        (Nat.pow_le_pow_right (by decide) more))
    have none : (i &&& k).testBit b = false :=
      Nat.testBit_lt_two_pow (Nat.lt_of_lt_of_le common (Nat.pow_le_pow_right (by decide) (Nat.le_of_lt more)))
    rw [above k small,Bool.and_false]
    split
    · exact (above _ common).symm
    · exact none.symm

theorem sign_top (small : k < 2 ^ m) (i : Nat) :
    (-1 : F) ^ countOnes (i &&& (2 ^ m + k)) = (if i.testBit m then -1 else 1) * (-1) ^ countOnes (i &&& k) := by
  have common : i &&& k < 2 ^ m := Nat.lt_of_le_of_lt Nat.and_le_right small
  rw [and_top small]
  split
  · rw [countOnes_top common,pow_succ,mul_comm]
  · rw [one_mul]

theorem walsh_outer : ∀ a count, walsh (F:=F) a (count+1) = radix2 (2 ^ (a+count)) * walsh a count
  | a,0 => (one_mul _).trans (mul_one _).symm
  | a,count+1 => by
    show walsh (a+1) (count+1) * radix2 (2 ^ a) = _
    rw [walsh_outer (a+1) count,mul_assoc,show a+1+count = a+(count+1) by omega]
    rfl

-- The signs a row takes from the rows of its block are those of the bits it
-- has in common with their places there.
theorem walsh_sum : ∀ m (v : Nat → F) i,
    walsh 0 m v i = ∑ k ∈ Finset.range (2 ^ m), (-1) ^ countOnes (i &&& k) * v (i / 2 ^ m * 2 ^ m + k)
  | 0,v,i => by simp [walsh,countOnes]
  | m+1,v,i => by
    have rest := walsh_sum m
    have partner : ∀ k < 2 ^ m, countOnes ((i ^^^ 2 ^ m) &&& k) = countOnes (i &&& k) := by
      intro k small
      congr 1
      apply Nat.eq_of_testBit_eq
      intro b
      rw [Nat.testBit_and,Nat.testBit_and,Nat.testBit_xor]
      by_cases same : m = b
      · subst same
        rw [Nat.testBit_lt_two_pow small,Bool.and_false,Bool.and_false]
      · rw [Nat.testBit_two_pow_of_ne same,Bool.xor_false]
    have flipped : ∑ k ∈ Finset.range (2 ^ m), (-1 : F) ^ countOnes ((i ^^^ 2 ^ m) &&& k) * v ((i ^^^ 2 ^ m) / 2 ^ m * 2 ^ m + k) =
        ∑ k ∈ Finset.range (2 ^ m), (-1) ^ countOnes (i &&& k) * v ((i ^^^ 2 ^ m) / 2 ^ m * 2 ^ m + k) :=
      Finset.sum_congr rfl fun k member => by rw [partner k (Finset.mem_range.mp member)]
    have upper : ∑ k ∈ Finset.range (2 ^ m), (-1 : F) ^ countOnes (i &&& (2 ^ m + k)) * v (i / 2 ^ (m+1) * 2 ^ (m+1) + (2 ^ m + k)) =
        (if i.testBit m then -1 else 1) *
          ∑ k ∈ Finset.range (2 ^ m), (-1) ^ countOnes (i &&& k) * v (i / 2 ^ (m+1) * 2 ^ (m+1) + 2 ^ m + k) := by
      rw [Finset.mul_sum]
      refine Finset.sum_congr rfl fun k member => ?_
      rw [sign_top (Finset.mem_range.mp member),mul_assoc,Nat.add_assoc]
    have quotient : i / 2 ^ m = i / 2 ^ (m+1) * 2 + i / 2 ^ m % 2 := by
      rw [pow_succ,←Nat.div_div_eq_div_mul]
      omega
    have double : ∀ b : Nat, b * 2 * 2 ^ m = b * 2 ^ (m+1) := fun b => by rw [pow_succ]; ring
    have other : (i ^^^ 2 ^ m) / 2 ^ m = i / 2 ^ m ^^^ 1 := by rw [Nat.xor_div_two_pow,Nat.div_self (Nat.two_pow_pos m)]
    have range : 2 ^ (m+1) = 2 ^ m + 2 ^ m := by rw [pow_succ,Nat.mul_two]
    rw [walsh_outer,Module.End.mul_apply,Nat.zero_add,radix2_bit,rest,rest,flipped,other]
    conv_rhs => rw [range,Finset.sum_range_add,←range,upper]
    by_cases even : i / 2 ^ m % 2 = 0
    · have clear : i.testBit m = false := by rw [Nat.testBit_eq_decide_div_mod_eq,even]; rfl
      have own : i / 2 ^ m * 2 ^ m = i / 2 ^ (m+1) * 2 ^ (m+1) := by rw [quotient,even,Nat.add_zero,double]
      have far : (i / 2 ^ m ^^^ 1) * 2 ^ m = i / 2 ^ (m+1) * 2 ^ (m+1) + 2 ^ m := by
        rw [Nat.xor_one_of_even (Nat.even_iff.mpr even),Nat.succ_mul,own]
      rw [clear,own,far]
      simp
    · have odd : i / 2 ^ m % 2 = 1 := by omega
      have set : i.testBit m = true := by rw [Nat.testBit_eq_decide_div_mod_eq,odd]; rfl
      have own : i / 2 ^ m * 2 ^ m = i / 2 ^ (m+1) * 2 ^ (m+1) + 2 ^ m := by rw [quotient,odd,Nat.succ_mul,double]
      have far : (i / 2 ^ m ^^^ 1) * 2 ^ m = i / 2 ^ (m+1) * 2 ^ (m+1) := by
        rw [Nat.xor_one_of_odd (Nat.odd_iff.mpr odd),quotient,odd,Nat.add_sub_cancel,double]
      rw [set,own,far,if_pos rfl,if_pos rfl,neg_one_mul,add_comm]

open Array2

-- The maps on columns as products from the left.
theorem walsh_dot (x : Array2 F) (tall : x.nrows = 2 ^ m) : onColumns (walsh 0 m) x = (walshMatrix F (2 ^ m)).dot x := by
  refine eq_of tall rfl ?_
  intro i row j col
  have row' : i < x.nrows := row
  have inside : i < 2 ^ m := tall ▸ row'
  have col' : j < x.ncols := col
  rw [onColumns_entry row' col',dot_entry col',walsh_sum,Nat.div_eq_of_lt inside,Nat.zero_mul]
  refine Finset.sum_congr rfl fun k member => ?_
  rw [Nat.zero_add,walshMatrix_entry inside (Finset.mem_range.mp member)]

theorem diagonal_dot (d : List F) (x : Array2 F) (row : i < d.length) (col : j < x.ncols) :
    ((diagonal d).dot x).entry i j = d.getD i 0 * x.entry i j := by
  rw [dot_entry col,Finset.sum_eq_single i]
  · rw [diagonal_entry row row,if_pos rfl]
  · intro k member other
    rw [diagonal_entry row (Finset.mem_range.mp member),if_neg other.symm,zero_mul]
  · intro outside
    exact absurd (Finset.mem_range.mpr row) outside

theorem times_dot (c : F) (x w : Array2 F) : (times c x).dot w = times c (x.dot w) := by
  refine eq_of rfl rfl ?_
  intro i row j col
  have row' : i < x.nrows := row
  have col' : j < w.ncols := col
  rw [dot_entry col',times_entry (x:=x.dot w) row' col',dot_entry col',Finset.mul_sum]
  refine Finset.sum_congr rfl fun k member => ?_
  rw [times_entry row' (Finset.mem_range.mp member),mul_assoc]

end Walsh
end Foundation
