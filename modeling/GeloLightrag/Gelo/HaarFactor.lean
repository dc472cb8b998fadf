import GeloLightrag.Gelo.Haar
import Mathlib.Analysis.Real.Sqrt

set_option linter.unusedSectionVars false

namespace Gelo
open Foundation Orthonormal QrFactor Matrix

namespace Haar
variable {F : Type} [Field F] [LinearOrder F] [IsStrictOrderedRing F]

section Passes
variable {k m : Nat} {x v : Nat → F} {a q : Nat → Nat → F}

theorem lessRow_apply (r : Nat) (coef : F) (i j : Nat) :
    lessRow k m r coef x a i j = if i = r ∧ k ≤ j ∧ j < k + m then a i j - coef * x (j - k) else a i j := by
  unfold lessRow
  split
  · rename_i none_
    rw [none_,zero_mul,sub_zero,ite_self]
  · rfl

-- Rows from one on, each less its own multiple.
theorem lessRows_apply (base : Nat) (coef : Nat → F) (count i j : Nat) :
    (List.range count).foldl (fun a r => lessRow k m (base + r) (coef r) x a) a i j =
      if base ≤ i ∧ i < base + count ∧ k ≤ j ∧ j < k + m then a i j - coef (i - base) * x (j - k) else a i j := by
  induction count with
  | zero => rw [if_neg (by omega)]; rfl
  | succ count ih =>
      rw [List.range_succ,List.foldl_append,List.foldl_cons,List.foldl_nil,lessRow_apply,ih]
      by_cases here : i = base + count
      · subst here
        rw [if_neg (by omega : ¬ (base ≤ base + count ∧ base + count < base + count ∧ _)),Nat.add_sub_cancel_left]
        by_cases inside : k ≤ j ∧ j < k + m
        · rw [if_pos ⟨rfl,inside⟩,if_pos ⟨by omega,by omega,inside⟩]
        · rw [if_neg fun both => inside both.2,if_neg fun all => inside all.2.2]
      · rw [if_neg fun both => here both.1]
        by_cases inside : base ≤ i ∧ i < base + count ∧ k ≤ j ∧ j < k + m
        · rw [if_pos inside,if_pos ⟨inside.1,by omega,inside.2.2⟩]
        · rw [if_neg inside,if_neg fun all => inside ⟨all.1,by omega,all.2.2⟩]

theorem gathered (cleared : Nat → F) (count j : Nat) :
    (List.range count).foldl (fun dot i j => if j < m then dot j + v i * a (k + i) (k + j) else dot j) cleared j =
      if j < m then cleared j + ∑ i ∈ Finset.range count, v i * a (k + i) (k + j) else cleared j := by
  induction count with
  | zero => simp
  | succ count ih =>
      rw [List.range_succ,List.foldl_append,List.foldl_cons,List.foldl_nil,ih,Finset.sum_range_succ]
      split
      · ring
      · rfl

theorem written (value dotBuf : Nat → F) (count r : Nat) :
    (List.range count).foldl (fun dot r => Function.update dot r (value r)) dotBuf r = if r < count then value r else dotBuf r := by
  induction count with
  | zero => rfl
  | succ count ih =>
      rw [List.range_succ,List.foldl_append,List.foldl_cons,List.foldl_nil]
      by_cases here : r = count
      · subst here
        rw [Function.update_self,if_pos (Nat.lt_succ_self _)]
      · rw [Function.update_of_ne here,ih]
        exact if_congr (by omega) rfl rfl

-- Whatever the scratch held, the passes take the reflection over the block.
theorem updatedRows (dotBuf : Nat → F) (i j : Nat) :
    (rank1HouseholderUpdateRows k m v a dotBuf).1 i j = if k ≤ i ∧ i < k + m ∧ k ≤ j ∧ j < k + m then
      a i j - ((2 : Nat) : F) * v (i - k) * ∑ l ∈ Finset.range m, v l * a (k + l) j else a i j := by
  unfold rank1HouseholderUpdateRows
  dsimp only
  rw [lessRows_apply]
  by_cases inside : k ≤ i ∧ i < k + m ∧ k ≤ j ∧ j < k + m
  · rw [if_pos inside,if_pos inside,gathered,if_pos (by omega : j - k < m),if_pos (by omega : j - k < m),zero_add,
      Nat.add_sub_cancel' inside.2.2.1]
  · rw [if_neg inside,if_neg inside]

theorem updatedCols {n : Nat} (dotBuf : Nat → F) {i : Nat} (low : i < n) (j : Nat) :
    (rank1HouseholderUpdateCols n k m v q dotBuf).1 i j = if k ≤ j ∧ j < k + m then
      q i j - ((2 : Nat) : F) * (∑ c ∈ Finset.range m, q i (k + c) * v c) * v (j - k) else q i j := by
  have each := lessRows_apply (k:=k) (m:=m) (x:=v) (a:=q) 0
    (fun r => ((2 : Nat) : F) * (List.range n).foldl (fun dot r => Function.update dot r (∑ c ∈ Finset.range m, q r (k + c) * v c)) dotBuf r) n i j
  simp only [Nat.zero_add,Nat.zero_le,Nat.sub_zero,true_and,written,if_pos low] at each
  unfold rank1HouseholderUpdateCols
  simp only [written] at each ⊢
  rw [each]
  exact if_congr ⟨And.right,And.intro low⟩ rfl rfl

end Passes

section Reflecting
variable {n k : Nat}

def square (n : Nat) (f : Nat → Nat → F) : Matrix (Fin n) (Fin n) F := Matrix.of fun i j => f i j

-- The reflected vector with zeros above its block.
def padded (k : Nat) (v : Nat → F) (i : Fin n) : F := if k ≤ i.1 then v (i.1 - k) else 0

theorem block_sum (low : k ≤ n) (v f : Nat → F) :
    ∑ i : Fin n, padded k v i * f i = ∑ l ∈ Finset.range (n - k), v l * f (k + l) := by
  calc ∑ i : Fin n, padded k v i * f i = ∑ i ∈ Finset.range n, (if k ≤ i then v (i - k) else 0) * f i :=
        Fin.sum_univ_eq_sum_range (fun i => (if k ≤ i then v (i - k) else 0) * f i) n
    _ = ∑ i ∈ Finset.Ico k n, (if k ≤ i then v (i - k) else 0) * f i := by
        rw [Finset.range_eq_Ico,←Finset.sum_Ico_consecutive _ (Nat.zero_le k) low,
          Finset.sum_eq_zero fun i member => by rw [if_neg (Nat.not_le.mpr (Finset.mem_Ico.mp member).2),zero_mul],zero_add]
    _ = ∑ l ∈ Finset.range (n - k), v l * f (k + l) := by
        rw [Finset.sum_Ico_eq_sum_range]
        refine Finset.sum_congr rfl fun l _ => ?_
        rw [if_pos (Nat.le_add_right k l),Nat.add_sub_cancel_left]

-- The source leaves the columns before k alone: they are clear in the block's rows.
theorem updatedRows_reflect {v : Nat → F} {a : Nat → Nat → F} (low : k ≤ n) (clear : ∀ i < n, ∀ j < k, k ≤ i → a i j = 0) (dotBuf : Nat → F) :
    square n (rank1HouseholderUpdateRows k (n - k) v a dotBuf).1 = reflector (padded k v) * square n a := by
  have whole : k + (n - k) = n := Nat.add_sub_cancel' low
  have image : ∀ j : Fin n, (padded k v ᵥ* square n a) j = ∑ l ∈ Finset.range (n - k), v l * a (k + l) j := fun j =>
    block_sum low v fun i => a i j
  ext i j
  rw [reflector_mul,Matrix.sub_apply,Matrix.smul_apply,vecMulVec_apply,image]
  show (rank1HouseholderUpdateRows k (n - k) v a dotBuf).1 i j = a i j - (2 : F) * (padded k v i * _)
  rw [updatedRows,whole,padded]
  by_cases row : k ≤ i.1
  · by_cases column : k ≤ j.1
    · rw [if_pos ⟨row,i.2,column,j.2⟩,if_pos row,Nat.cast_ofNat,mul_assoc]
    · have silent : ∑ l ∈ Finset.range (n - k), v l * a (k + l) j = 0 := Finset.sum_eq_zero fun l member => by
        rw [clear (k + l) (by rw [Finset.mem_range] at member; omega) j (Nat.not_le.mp column) (Nat.le_add_right k l),mul_zero]
      rw [if_neg fun all => column all.2.2.1,silent,mul_zero,mul_zero,sub_zero]
  · rw [if_neg fun all => row all.1,if_neg row,zero_mul,mul_zero,sub_zero]

theorem updatedCols_reflect {v : Nat → F} {q : Nat → Nat → F} (low : k ≤ n) (dotBuf : Nat → F) :
    square n (rank1HouseholderUpdateCols n k (n - k) v q dotBuf).1 = square n q * reflector (padded k v) := by
  have whole : k + (n - k) = n := Nat.add_sub_cancel' low
  have image : ∀ i : Fin n, (square n q *ᵥ padded k v) i = ∑ c ∈ Finset.range (n - k), q i (k + c) * v c := by
    intro i
    calc (square n q *ᵥ padded k v) i = ∑ j : Fin n, q i j * padded k v j := rfl
      _ = ∑ j : Fin n, padded k v j * q i j := Finset.sum_congr rfl fun j _ => mul_comm _ _
      _ = ∑ c ∈ Finset.range (n - k), v c * q i (k + c) := block_sum low v fun j => q i j
      _ = _ := Finset.sum_congr rfl fun c _ => mul_comm _ _
  ext i j
  rw [mul_reflector,Matrix.sub_apply,Matrix.smul_apply,vecMulVec_apply,image]
  show (rank1HouseholderUpdateCols n k (n - k) v q dotBuf).1 i j = q i j - (2 : F) * (_ * padded k v j)
  rw [updatedCols dotBuf i.2,whole,padded]
  by_cases column : k ≤ j.1
  · rw [if_pos ⟨column,j.2⟩,if_pos column,Nat.cast_ofNat,mul_assoc]
  · rw [if_neg fun both => column both.1,if_neg column,mul_zero,mul_zero,sub_zero]

end Reflecting

-- The reflected column: its head moved away from zero by its length, over the length
-- of what that makes.
section Columns
variable {n k : Nat} {x v : Nat → F} {sigma v0 vNorm sign : F}

theorem tail_sum (low : k < n) (f : Nat → F) : ∑ l ∈ Finset.range (n - k), f (k + l) = f k + ∑ i ∈ Finset.Ico (k+1) n, f i := by
  rw [←Finset.sum_Ico_eq_sum_range,Finset.sum_eq_sum_Ico_succ_bot low]

theorem head_apart (upward : 0 ≤ sign * x k) (square : sign * sign = 1) (some_ : 0 < sigma) (head : v0 = x k + sign * sigma) : 0 < v0 * v0 := by
  have up : sign * v0 = sign * x k + sigma := by rw [head,mul_add,←mul_assoc,square,one_mul]
  have positive : 0 < sign * v0 := by rw [up]; linarith
  calc 0 < sign * v0 * (sign * v0) := mul_pos positive positive
    _ = sign * sign * (v0 * v0) := by ring
    _ = v0 * v0 := by rw [square,one_mul]

theorem reflected_dot (low : k < n) (first : v 0 = v0 / vNorm) (others : ∀ l < n - k, l ≠ 0 → v l = x (k + l) / vNorm) (f : Nat → F) :
    ∑ l ∈ Finset.range (n - k), v l * f (k + l) = (v0 * f k + ∑ i ∈ Finset.Ico (k+1) n, x i * f i) / vNorm := by
  have entries : ∀ l ∈ Finset.range (n - k), v l * f (k + l) = (if k + l = k then v0 * f k else x (k + l) * f (k + l)) / vNorm := by
    intro l member
    by_cases zero : l = 0
    · subst zero
      rw [first,Nat.add_zero,if_pos rfl,div_mul_eq_mul_div]
    · rw [others l (Finset.mem_range.mp member) zero,if_neg (by omega),div_mul_eq_mul_div]
  rw [Finset.sum_congr rfl entries,←Finset.sum_div,tail_sum low fun i => if i = k then v0 * f k else x i * f i,if_pos rfl]
  congr 2
  refine Finset.sum_congr rfl fun i member => ?_
  have above := (Finset.mem_Ico.mp member).1
  rw [if_neg (by omega)]

theorem reflected_unit (low : k < n) (positive : vNorm ≠ 0) (root : vNorm * vNorm = v0 * v0 + ∑ i ∈ Finset.Ico (k+1) n, x i * x i)
    (first : v 0 = v0 / vNorm) (others : ∀ l < n - k, l ≠ 0 → v l = x (k + l) / vNorm) : padded (n:=n) k v ⬝ᵥ padded k v = 1 := by
  have block : padded (n:=n) k v ⬝ᵥ padded k v = ∑ l ∈ Finset.range (n - k), v l * v (k + l - k) := by
    have sums := block_sum (Nat.le_of_lt low) v fun i => if k ≤ i then v (i - k) else 0
    simp only [Nat.le_add_right,if_true] at sums
    exact sums
  have tail : ∑ i ∈ Finset.Ico (k+1) n, x i * v (i - k) = (∑ i ∈ Finset.Ico (k+1) n, x i * x i) / vNorm := by
    rw [Finset.sum_div]
    refine Finset.sum_congr rfl fun i member => ?_
    obtain ⟨above,inside⟩ := Finset.mem_Ico.mp member
    rw [others (i - k) (by omega) (by omega),Nat.add_sub_cancel' (by omega),mul_div_assoc]
  rw [block,reflected_dot low first others fun i => v (i - k),tail,Nat.sub_self,first,←mul_div_assoc,←add_div,←root,
    mul_div_assoc,div_self positive,mul_one,div_self positive]

-- The reflection clears the column below its head.
theorem reflected_clear (low : k < n) (positive : vNorm ≠ 0) (root : vNorm * vNorm = v0 * v0 + ∑ i ∈ Finset.Ico (k+1) n, x i * x i)
    (length : sigma * sigma = ∑ i ∈ Finset.Ico k n, x i * x i) (square : sign * sign = 1) (head : v0 = x k + sign * sigma)
    (first : v 0 = v0 / vNorm) (others : ∀ l < n - k, l ≠ 0 → v l = x (k + l) / vNorm) (after : k < i) (inside : i < n) :
    x i - ((2 : Nat) : F) * v (i - k) * ∑ l ∈ Finset.range (n - k), v l * x (k + l) = 0 := by
  rw [Finset.sum_eq_sum_Ico_succ_bot low] at length
  have twice : 2 * (v0 * x k + ∑ i ∈ Finset.Ico (k+1) n, x i * x i) = vNorm * vNorm := by
    have lengths : sign * sigma * (sign * sigma) = x k * x k + ∑ i ∈ Finset.Ico (k+1) n, x i * x i := by
      rw [←length,mul_mul_mul_comm,square,one_mul]
    rw [root,head]
    linear_combination -lengths
  rw [others (i - k) (by omega) (by omega),Nat.add_sub_cancel' (Nat.le_of_lt after),reflected_dot low first others x,Nat.cast_ofNat]
  calc x i - 2 * (x i / vNorm) * ((v0 * x k + ∑ i ∈ Finset.Ico (k+1) n, x i * x i) / vNorm)
      = x i - x i * (2 * (v0 * x k + ∑ i ∈ Finset.Ico (k+1) n, x i * x i)) / (vNorm * vNorm) := by ring
    _ = 0 := by rw [twice,mul_div_assoc,div_self (mul_ne_zero positive positive),mul_one,sub_self]

end Columns

section Factoring
variable {sqrt : F → F} {negligible : F → Bool} {n : Nat} {g : Matrix (Fin n) (Fin n) F}

-- The product of the reflections is orthogonal and gives the draws back from what they
-- leave, whose first k columns are clear below the diagonal.
structure Reduced (g : Matrix (Fin n) (Fin n) F) (k : Nat) (s : Factoring F) : Prop where
  orthogonal : (square n s.q)ᵀ * square n s.q = 1
  product : square n s.q * square n s.a = g
  clear : ∀ i < n, ∀ j < k, j < i → s.a i j = 0

theorem Reduced.reflect {s : Factoring F} {w : Fin n → F} {a q : Nat → Nat → F} (reduced : Reduced g k s) (unit : w ⬝ᵥ w = 1)
    (rows : square n a = reflector w * square n s.a) (cols : square n q = square n s.q * reflector w) :
    (square n q)ᵀ * square n q = 1 ∧ square n q * square n a = g := by
  constructor
  · rw [cols,transpose_mul,reflector_transpose,Matrix.mul_assoc,←Matrix.mul_assoc _ (square n s.q),reduced.orthogonal,Matrix.one_mul,
      reflector_involutive unit]
  · rw [cols,rows,Matrix.mul_assoc,←Matrix.mul_assoc (reflector w),reflector_involutive unit,Matrix.one_mul,reduced.product]

theorem Reduced.reflected {s : Factoring F} {k : Nat} {v : Nat → F} {sigma sign vNorm : F} (reduced : Reduced g k s) (low : k < n) (positive : vNorm ≠ 0)
    (norm : vNorm * vNorm = (s.a k k + sign * sigma) * (s.a k k + sign * sigma) + ∑ i ∈ Finset.Ico (k+1) n, s.a i k * s.a i k)
    (length : sigma * sigma = ∑ i ∈ Finset.Ico k n, s.a i k * s.a i k) (square : sign * sign = 1)
    (first : v 0 = (s.a k k + sign * sigma) / vNorm) (others : ∀ l < n - k, l ≠ 0 → v l = s.a (k + l) k / vNorm) :
    Reduced g (k+1) ⟨(rank1HouseholderUpdateRows k (n - k) v s.a s.dotBuf).1,
      (rank1HouseholderUpdateCols n k (n - k) v s.q (rank1HouseholderUpdateRows k (n - k) v s.a s.dotBuf).2).1,v,
      (rank1HouseholderUpdateCols n k (n - k) v s.q (rank1HouseholderUpdateRows k (n - k) v s.a s.dotBuf).2).2⟩ := by
  have unit := reflected_unit (x:=fun i => s.a i k) low positive norm first others
  have clear : ∀ i < n, ∀ j < k, k ≤ i → s.a i j = 0 := fun i inside j before block => reduced.clear i inside j before (by omega)
  obtain ⟨orthogonal,product⟩ := reduced.reflect unit (updatedRows_reflect (Nat.le_of_lt low) clear s.dotBuf)
    (updatedCols_reflect (Nat.le_of_lt low) (rank1HouseholderUpdateRows k (n - k) v s.a s.dotBuf).2)
  refine ⟨orthogonal,product,fun i inside j before below => ?_⟩
  dsimp only
  rw [updatedRows]
  by_cases earlier : j < k
  · rw [if_neg (by omega),reduced.clear i inside j earlier below]
  · obtain rfl : j = k := by omega
    rw [if_pos (by omega)]
    exact reflected_clear (x:=fun i => s.a i j) low positive norm length square rfl first others below inside

variable (root : ∀ x : F, 0 ≤ x → 0 ≤ sqrt x ∧ sqrt x * sqrt x = x) (zero : ∀ x, negligible x = true ↔ x = 0)
include root zero

theorem factorColumn_reduced {s : Factoring F} {k : Nat} (low : k < n) (reduced : Reduced g k s) :
    Reduced g (k+1) (factorColumn sqrt negligible n s k) := by
  have squares : ∀ start, 0 ≤ ∑ i ∈ Finset.Ico start n, s.a i k * s.a i k := fun start => Finset.sum_nonneg fun i _ => mul_self_nonneg _
  obtain ⟨length_pos,length⟩ := root _ (squares k)
  unfold factorColumn
  dsimp only
  split
  · rename_i none_
    refine ⟨reduced.orthogonal,reduced.product,fun i inside j before below => ?_⟩
    by_cases earlier : j < k
    · exact reduced.clear i inside j earlier below
    · obtain rfl : j = k := by omega
      rw [(zero _).mp none_,zero_mul] at length
      have each := (Finset.sum_eq_zero_iff_of_nonneg fun i _ => mul_self_nonneg (s.a i j)).mp length.symm
      exact mul_self_eq_zero.mp (each i (Finset.mem_Ico.mpr ⟨Nat.le_of_lt below,inside⟩))
  · rename_i some_
    have positive := lt_of_le_of_ne length_pos fun same => some_ ((zero _).mpr same.symm)
    generalize sqrt (∑ i ∈ Finset.Ico k n, s.a i k * s.a i k) = sigma at positive length ⊢
    obtain ⟨sign,signed,sign_square,upward⟩ : ∃ sign : F, (if 0 ≤ s.a k k then (1 : F) else -1) = sign ∧ sign * sign = 1 ∧ 0 ≤ sign * s.a k k := by
      by_cases up : 0 ≤ s.a k k
      · exact ⟨1,if_pos up,one_mul 1,by rw [one_mul]; exact up⟩
      · exact ⟨-1,if_neg up,by ring,by rw [neg_one_mul]; exact neg_nonneg.mpr (le_of_lt (not_le.mp up))⟩
    have head : s.a k k - -sign * sigma = s.a k k + sign * sigma := by ring
    rw [signed,head]
    have apart := head_apart (x:=fun i => s.a i k) upward sign_square positive rfl
    obtain ⟨norm_pos,norm⟩ := root _ (add_nonneg (le_of_lt apart) (squares (k+1)))
    have norm_some : sqrt ((s.a k k + sign * sigma) * (s.a k k + sign * sigma) + ∑ i ∈ Finset.Ico (k+1) n, s.a i k * s.a i k) ≠ 0 := by
      intro none_
      rw [none_,zero_mul] at norm
      linarith [squares (k+1)]
    split
    · rename_i none_
      exact absurd ((zero _).mp none_) norm_some
    · generalize sqrt ((s.a k k + sign * sigma) * (s.a k k + sign * sigma) + ∑ i ∈ Finset.Ico (k+1) n, s.a i k * s.a i k) = vNorm at norm norm_some ⊢
      generalize vector : (fun l => if l = 0 then (s.a k k + sign * sigma) / vNorm else if l < n - k then s.a (k + l) k / vNorm else s.vBuf l) = v
      have first : v 0 = (s.a k k + sign * sigma) / vNorm := by rw [←vector]; rfl
      have others : ∀ l < n - k, l ≠ 0 → v l = s.a (k + l) k / vNorm := fun l inside more => by
        rw [←vector]
        exact (if_neg more).trans (if_pos inside)
      exact reduced.reflected low norm_some norm length sign_square first others

theorem factored (g : Matrix (Fin n) (Fin n) F) {start : Factoring F} (reduced : Reduced g 0 start) (count : Nat) (enough : count ≤ n) :
    Reduced g count ((List.range count).foldl (factorColumn sqrt negligible n) start) := by
  induction count with
  | zero => exact reduced
  | succ count ih =>
      rw [List.range_succ,List.foldl_append,List.foldl_cons,List.foldl_nil]
      exact factorColumn_reduced root zero enough (ih (Nat.le_of_succ_le enough))

end Factoring

section Signs
variable {n : Nat} {a q : Nat → Nat → F}

theorem negateColumn_apply (a q : Nat → Nat → F) (k i j : Nat) : negateColumn a q k i j = if j = k ∧ a k k < 0 then -q i j else q i j := by
  unfold negateColumn
  by_cases minus : a k k < 0
  · rw [if_pos minus]
    exact if_congr ⟨fun same => ⟨same,minus⟩,And.left⟩ rfl rfl
  · rw [if_neg minus,if_neg fun both => minus both.2]

theorem negated (a q : Nat → Nat → F) (count i j : Nat) :
    (List.range count).foldl (negateColumn a) q i j = if j < count ∧ a j j < 0 then -q i j else q i j := by
  induction count with
  | zero => rw [if_neg (by omega)]; rfl
  | succ count ih =>
      rw [List.range_succ,List.foldl_append,List.foldl_cons,List.foldl_nil,negateColumn_apply,ih]
      by_cases here : j = count
      · subst here
        rw [if_neg fun both : j < j ∧ _ => Nat.lt_irrefl j both.1]
        exact if_congr (and_congr_left' (by omega)) rfl rfl
      · rw [if_neg fun both => here both.1]
        exact if_congr (and_congr_left' (by omega)) rfl rfl

-- The signs of a diagonal.
def signs (n : Nat) (a : Nat → Nat → F) : Matrix (Fin n) (Fin n) F := diagonal fun i => if a i i < 0 then -1 else 1

theorem signs_square (a : Nat → Nat → F) : signs n a * signs n a = 1 := by
  rw [signs,diagonal_mul_diagonal,←diagonal_one]
  congr 1
  funext i
  split <;> ring

theorem signs_transpose (a : Nat → Nat → F) : (signs n a)ᵀ = signs n a := diagonal_transpose _

theorem haarFactor_signed (sqrt : F → F) (negligible : F → Bool) (n : Nat) (g : Nat → Nat → F) :
    let s := (List.range (n - 1)).foldl (factorColumn sqrt negligible n) ⟨g,eye,fun _ => 0,fun _ => 0⟩
    square n (haarFactor sqrt negligible n g) = square n s.q * signs n s.a := by
  intro s
  ext i j
  rw [signs,mul_diagonal]
  show haarFactor sqrt negligible n g i j = s.q i j * _
  rw [haarFactor,negated]
  by_cases minus : s.a j j < 0
  · rw [if_pos ⟨j.2,minus⟩,if_pos minus,mul_neg_one]
  · rw [if_neg fun both => minus both.2,if_neg minus,mul_one]

end Signs

-- The sampler on a matrix of draws.
def entries {n : Nat} (g : Matrix (Fin n) (Fin n) F) (i j : Nat) : F := if within : i < n ∧ j < n then g ⟨i,within.1⟩ ⟨j,within.2⟩ else 0

def sampleHaarOrthogonal (sqrt : F → F) (negligible : F → Bool) {n : Nat} (g : Matrix (Fin n) (Fin n) F) : Matrix (Fin n) (Fin n) F :=
  square n (haarFactor sqrt negligible n (entries g))

theorem square_entries {n : Nat} (g : Matrix (Fin n) (Fin n) F) : square n (entries g) = g := by
  ext i j
  exact dif_pos ⟨i.2,j.2⟩

theorem square_eye (n : Nat) : square n (eye (F:=F)) = 1 := by
  ext i j
  show (if i.1 = j.1 then (1 : F) else 0) = if i = j then 1 else 0
  exact if_congr Fin.ext_iff.symm rfl rfl

section Sampler
variable {sqrt : F → F} {negligible : F → Bool} {n : Nat} (root : ∀ x : F, 0 ≤ x → 0 ≤ sqrt x ∧ sqrt x * sqrt x = x)
  (zero : ∀ x, negligible x = true ↔ x = 0)
include root zero

theorem sampled_reduced (g : Matrix (Fin n) (Fin n) F) :
    Reduced g (n - 1) ((List.range (n - 1)).foldl (factorColumn sqrt negligible n) ⟨entries g,eye,fun _ => 0,fun _ => 0⟩) := by
  refine factored root zero g ⟨?_,?_,fun i inside j none_ => absurd none_ (Nat.not_lt_zero j)⟩ (n - 1) (Nat.sub_le n 1)
  · dsimp only
    rw [square_eye,transpose_one,Matrix.one_mul]
  · dsimp only
    rw [square_eye,square_entries,Matrix.one_mul]

theorem sampled_orthogonal (g : Matrix (Fin n) (Fin n) F) :
    (sampleHaarOrthogonal sqrt negligible g)ᵀ * sampleHaarOrthogonal sqrt negligible g = 1 := by
  have reduced := sampled_reduced root zero g
  rw [sampleHaarOrthogonal,haarFactor_signed,transpose_mul,signs_transpose,Matrix.mul_assoc,←Matrix.mul_assoc _ (square n _),
    reduced.orthogonal,Matrix.one_mul,signs_square]

-- What is left is the triangle of what the reflections leave, its rows signed.
theorem sampled_factor (g : Matrix (Fin n) (Fin n) F) (invertible : g.det ≠ 0) : Factor g (sampleHaarOrthogonal sqrt negligible g) := by
  have reduced := sampled_reduced root zero g
  have orthogonal := sampled_orthogonal root zero g
  rw [sampleHaarOrthogonal,haarFactor_signed] at orthogonal ⊢
  generalize (List.range (n - 1)).foldl (factorColumn sqrt negligible n) ⟨entries g,eye,fun _ => 0,fun _ => 0⟩ = s at reduced orthogonal ⊢
  have cofactor : (square n s.q * signs n s.a)ᵀ * g = signs n s.a * square n s.a := by
    calc (square n s.q * signs n s.a)ᵀ * g = signs n s.a * ((square n s.q)ᵀ * (square n s.q * square n s.a)) := by
          rw [transpose_mul,signs_transpose,Matrix.mul_assoc,reduced.product]
      _ = signs n s.a * square n s.a := by rw [←Matrix.mul_assoc (square n s.q)ᵀ,reduced.orthogonal,Matrix.one_mul]
  have triangular : (square n s.a).IsUpperTriangular := fun i j below =>
    reduced.clear i i.2 j (by have := i.2; have : j.1 < i.1 := below; omega) below
  have diagonal : ∀ i : Fin n, s.a i i ≠ 0 := by
    have volume : (square n s.q).det * (square n s.a).det ≠ 0 := by rwa [←det_mul,reduced.product]
    have product := right_ne_zero_of_mul volume
    rw [det_of_isUpperTriangular triangular] at product
    exact fun i => Finset.prod_ne_zero_iff.mp product i (Finset.mem_univ i)
  refine ⟨orthogonal,fun i j below => ?_,fun i => ?_⟩
  · rw [cofactor,signs,diagonal_mul,triangular below,mul_zero]
  · rw [cofactor,signs,diagonal_mul]
    show 0 < (if s.a i i < 0 then (-1 : F) else 1) * s.a i i
    split
    · rename_i minus
      rw [neg_one_mul]
      exact neg_pos.mpr minus
    · rename_i plus
      rw [one_mul]
      exact lt_of_le_of_ne (not_lt.mp plus) (diagonal i).symm

end Sampler
end Haar

section InPlace
variable {F : Type} [Field F] [LinearOrder F] [IsStrictOrderedRing F] {n k : Nat}

-- Within the n rows and columns that are read.
def Alike (n : Nat) (a b : Nat → Nat → F) : Prop := ∀ i < n, ∀ j < n, a i j = b i j

theorem block_dot {v padded f : Nat → F} (inside : ∀ l < n - k, padded (k + l) = v l) :
    ∑ l ∈ Finset.Ico k n, padded l * f l = ∑ l ∈ Finset.range (n - k), v l * f (k + l) := by
  rw [Finset.sum_Ico_eq_sum_range]
  exact Finset.sum_congr rfl fun l member => by rw [inside l (Finset.mem_range.mp member)]

-- The passes over the buffers take the step of the mask sampler.
theorem factorColumn_householder [Platform F] {s : Haar.Factoring F} {a q : Nat → Nat → F} (low : k < n) (left : Alike n s.a a) (right : Alike n s.q q) :
    Alike n (Haar.factorColumn Platform.sqrt (fun x => decide (x < 1 / 10 ^ 30)) n s k).a (householder n (a,q) k).1 ∧
      Alike n (Haar.factorColumn Platform.sqrt (fun x => decide (x < 1 / 10 ^ 30)) n s k).q (householder n (a,q) k).2 := by
  have column : ∀ start, ∑ i ∈ Finset.Ico start n, s.a i k * s.a i k = ∑ i ∈ Finset.Ico start n, a i k * a i k := fun start =>
    Finset.sum_congr rfl fun i member => by rw [left i (Finset.mem_Ico.mp member).2 k low]
  unfold Haar.factorColumn householder
  dsimp only
  rw [column k,column (k+1),left k low k low]
  simp only [decide_eq_true_eq]
  generalize Platform.sqrt (∑ i ∈ Finset.Ico k n, a i k * a i k) = sigma
  generalize a k k - -(if 0 ≤ a k k then 1 else -1) * sigma = v0
  generalize Platform.sqrt (v0 * v0 + ∑ i ∈ Finset.Ico (k+1) n, a i k * a i k) = vNorm
  generalize vector : (fun l => if l = 0 then v0 / vNorm else if l < n - k then s.a (k + l) k / vNorm else s.vBuf l) = v
  split
  · exact ⟨left,right⟩
  split
  · exact ⟨left,right⟩
  have inside : ∀ l < n - k, vBuf k v0 vNorm (fun l => a l k) (k + l) = v l := by
    intro l member
    rw [←vector,vBuf,if_neg (by omega)]
    by_cases zero : l = 0
    · rw [if_pos (by omega),zero]
      rfl
    · rw [if_neg (by omega)]
      dsimp only
      rw [if_neg zero,if_pos member,left (k + l) (by omega) k low]
  have before : ∀ l < k, vBuf k v0 vNorm (fun l => a l k) l = 0 := fun l above => if_pos above
  generalize vBuf k v0 vNorm (fun l => a l k) = w at inside before
  have whole : k + (n - k) = n := by omega
  refine ⟨fun i row j col => ?_,fun i row j col => ?_⟩
  · dsimp only
    rw [Haar.updatedRows,whole]
    by_cases block : k ≤ i ∧ k ≤ j
    · have sums : ∑ l ∈ Finset.range (n - k), v l * s.a (k + l) j = ∑ l ∈ Finset.Ico k n, w l * a l j := by
        rw [block_dot (f:=fun l => a l j) inside]
        exact Finset.sum_congr rfl fun l member => by rw [left (k + l) (by rw [Finset.mem_range] at member; omega) j col]
      rw [if_pos ⟨block.1,row,block.2,col⟩,if_pos block,left i row j col,sums,←inside (i - k) (by omega),Nat.add_sub_cancel' block.1]
    · rw [if_neg fun all => block ⟨all.1,all.2.2.1⟩,if_neg block,left i row j col]
  · dsimp only
    rw [Haar.updatedCols _ row,whole,reflect]
    by_cases block : k ≤ j
    · have sums : ∑ c ∈ Finset.range (n - k), s.q i (k + c) * v c = ∑ l ∈ Finset.range n, q i l * w l := by
        have blank : ∑ l ∈ Finset.Ico 0 k, q i l * w l = 0 := Finset.sum_eq_zero fun l member => by
          rw [before l (Finset.mem_Ico.mp member).2,mul_zero]
        rw [Finset.range_eq_Ico (a:=n),←Finset.sum_Ico_consecutive (fun l => q i l * w l) (Nat.zero_le k) (Nat.le_of_lt low),blank,zero_add,
          Finset.sum_Ico_eq_sum_range]
        refine Finset.sum_congr rfl fun c member => ?_
        rw [inside c (Finset.mem_range.mp member),right i row (k + c) (by rw [Finset.mem_range] at member; omega)]
      rw [if_pos ⟨block,col⟩,right i row j col,sums,←inside (j - k) (by omega),Nat.add_sub_cancel' block]
    · rw [if_neg fun both => block both.1,before j (by omega),mul_zero,sub_zero,right i row j col]

theorem factored_householder [Platform F] (n : Nat) (g : Nat → Nat → F) (count : Nat) (enough : count ≤ n) :
    Alike n ((List.range count).foldl (Haar.factorColumn Platform.sqrt (fun x => decide (x < 1 / 10 ^ 30)) n) ⟨g,eye,fun _ => 0,fun _ => 0⟩).a
        ((List.range count).foldl (householder n) (g,eye)).1 ∧
      Alike n ((List.range count).foldl (Haar.factorColumn Platform.sqrt (fun x => decide (x < 1 / 10 ^ 30)) n) ⟨g,eye,fun _ => 0,fun _ => 0⟩).q
        ((List.range count).foldl (householder n) (g,eye)).2 := by
  induction count with
  | zero => exact ⟨fun i _ j _ => rfl,fun i _ j _ => rfl⟩
  | succ count ih =>
      rw [List.range_succ,List.foldl_append,List.foldl_append]
      obtain ⟨left,right⟩ := ih (Nat.le_of_succ_le enough)
      exact factorColumn_householder enough left right

theorem sampleHaarOrthogonal_inPlace [Platform F] (n : Nat) (rng : ChaCha20Rng) :
    Alike n (sampleHaarOrthogonal (F:=F) n rng).1.entry
      (Haar.haarFactor Platform.sqrt (fun x => decide (x < 1 / 10 ^ 30)) n fun i j => (Platform.normals (n * n) (rng.words F)).1 (i * n + j)) := by
  intro i row j col
  obtain ⟨left,right⟩ := factored_householder (F:=F) n (fun i j => (Platform.normals (n * n) (rng.words F)).1 (i * n + j)) (n - 1) (Nat.sub_le n 1)
  unfold sampleHaarOrthogonal Haar.haarFactor
  dsimp only
  rw [Array2.of_entry row col,Haar.negated,signed]
  rw [left j col j col,right i row j col]
  exact if_congr (decide_eq_true_iff.trans ⟨fun minus => ⟨col,minus⟩,And.right⟩) rfl rfl

end InPlace

-- The sampler over the reals, with its thresholds read as tests for zero.
noncomputable def realHaar {n : Nat} (g : Matrix (Fin n) (Fin n) ℝ) : Matrix (Fin n) (Fin n) ℝ :=
  Haar.sampleHaarOrthogonal Real.sqrt (fun x => decide (x = 0)) g

theorem haar_unique_factor {n : Nat} (g : Matrix (Fin n) (Fin n) ℝ) :
    (realHaar g)ᵀ * realHaar g = 1 ∧
      (IsUnit g → ((realHaar g)ᵀ * g).IsUpperTriangular ∧ (∀ i, 0 < ((realHaar g)ᵀ * g) i i) ∧
        ∀ u : Matrix (Fin n) (Fin n) ℝ, uᵀ * u = 1 → realHaar (u * g) = u * realHaar g) := by
  have root : ∀ x : ℝ, 0 ≤ x → 0 ≤ Real.sqrt x ∧ Real.sqrt x * Real.sqrt x = x := fun x positive =>
    ⟨Real.sqrt_nonneg x,Real.mul_self_sqrt positive⟩
  have zero : ∀ x : ℝ, (fun x => decide (x = 0)) x = true ↔ x = 0 := fun x => decide_eq_true_iff
  refine ⟨Haar.sampled_orthogonal root zero g,fun invertible => ?_⟩
  have volume : g.det ≠ 0 := ((Matrix.isUnit_iff_isUnit_det g).mp invertible).ne_zero
  have factor := Haar.sampled_factor root zero g volume
  refine ⟨factor.triangular,factor.positive,fun u orthogonal => ?_⟩
  have carried : (u * g).det ≠ 0 := by
    rw [det_mul]
    refine mul_ne_zero (fun none_ => ?_) volume
    have one := congrArg det orthogonal
    rw [det_mul,det_transpose,none_,mul_zero,det_one] at one
    exact zero_ne_one one
  exact (Haar.sampled_factor root zero (u * g) carried).unique (factor.mul orthogonal)

theorem haar_unique_factor_of_one :
    0 < ((realHaar (1 : Matrix (Fin 2) (Fin 2) ℝ))ᵀ * (1 : Matrix (Fin 2) (Fin 2) ℝ) : Matrix (Fin 2) (Fin 2) ℝ) 1 1 :=
  ((haar_unique_factor 1).2 isUnit_one).2.1 1

end Gelo
