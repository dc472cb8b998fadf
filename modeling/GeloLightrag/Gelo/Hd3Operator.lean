import GeloLightrag.Foundation.Literals
import GeloLightrag.Foundation.WalshMatrix
import GeloLightrag.Gelo.Hd3Passes
import Mathlib.Analysis.SpecialFunctions.Pow.Real

set_option linter.unusedSectionVars false

namespace Gelo
namespace Hd3
open Foundation Array2 InPlace Walsh

section Columns
variable {F : Type} [Field F] [LinearOrder F] [IsStrictOrderedRing F]

-- A diagonal of n signs.
def Signs (n : Nat) (d : List F) : Prop := d.length = n ∧ ∀ x ∈ d, x = 1 ∨ x = -1

def negative (d : List F) (i : Nat) : Bool := decide (d.getD i 1 < 0)

theorem sampleDiag_valid [Platform F] (n : Nat) (rng : ChaCha20Rng) : Signs (F:=F) n (sampleDiag n rng).1 :=
  ⟨by simp [sampleDiag],sampleDiag_signs⟩

-- A pass over the cells of an array is its map over the columns.
theorem pass_array {T : Module.End F (Nat → F)} {x : Array2 F} (passed : Pass x.nrows x.ncols T (cells x) m)
    (near : Local x.nrows T) : ofCells x.nrows x.ncols m = onColumns T x := by
  rw [passed.array near,ofCells_cells]

theorem fwhtRowsInplace_columns (cpu : Cpu) (rayon : Rayon) {x : Array2 F} (tall : x.nrows = 2 ^ k) :
    fwhtRowsInplace cpu rayon x = onColumns (walsh 0 k) x := by
  refine pass_array ?_ (tall ▸ local_walsh 0 k (by omega))
  rw [tall]
  exact fwhtRowsInplaceSlice_pass cpu rayon k x.ncols (cells x)

theorem applyDiagInplace_columns (rayon : Rayon) {d : List F} {x : Array2 F} (long : d.length = x.nrows) :
    applyDiagInplace rayon d x = onColumns (flip (negative d)) x :=
  pass_array (applyDiagInplaceSlice_pass long rayon x.ncols (cells x)) (local_flip _ _)

theorem applyDiagScaledInplace_columns (rayon : Rayon) {d : List F} {x : Array2 F} (long : d.length = x.nrows) (factor : F) :
    applyDiagScaledInplace rayon d factor x = onColumns (scaled fun i => d.getD i 1 * factor) x :=
  pass_array (applyDiagScaledInplaceSlice_pass long rayon x.ncols factor (cells x)) (local_scaled _ _)

theorem flip_dot {d : List F} {x : Array2 F} (signs : Signs x.nrows d) : onColumns (flip (negative d)) x = (diagonal d).dot x := by
  refine eq_of signs.1.symm rfl ?_
  intro i row j col
  have inside : i < d.length := by rw [signs.1]; exact row
  have col' : j < x.ncols := col
  rw [onColumns_entry (show i < x.nrows from row) col',diagonal_dot d x inside col']
  show (if negative d i then -x.entry i j else x.entry i j) = _
  have listed : d.getD i 0 = d[i] := by rw [List.getD_eq_getElem?_getD,List.getElem?_eq_getElem inside]; rfl
  have sign : negative d i = decide (d[i] < 0) := by
    unfold negative
    rw [List.getD_eq_getElem?_getD,List.getElem?_eq_getElem inside]; rfl
  rw [listed,sign]
  rcases signs.2 d[i] (List.getElem_mem inside) with plus | minus
  · rw [plus,if_neg (by simp),one_mul]
  · rw [minus,if_pos (by simp),neg_one_mul]

theorem scaled_dot {d : List F} {x : Array2 F} (long : d.length = x.nrows) (factor : F) :
    onColumns (scaled fun i => d.getD i 1 * factor) x = times factor ((diagonal d).dot x) := by
  refine eq_of long.symm rfl ?_
  intro i row j col
  have inside : i < d.length := by rw [long]; exact row
  have col' : j < x.ncols := col
  rw [onColumns_entry (show i < x.nrows from row) col',times_entry (x:=(diagonal d).dot x) inside col',diagonal_dot d x inside col']
  have listed : d.getD i 1 = d.getD i 0 := by
    rw [List.getD_eq_getElem?_getD,List.getD_eq_getElem?_getD,List.getElem?_eq_getElem inside]; rfl
  show x.entry i j * (d.getD i 1 * factor) = _
  rw [listed]
  ring

-- The documented mask.
def operator (n : Nat) (d1 d2 d3 : List F) (factor : F) : Array2 F :=
  times factor ((diagonal d3).dot ((walshMatrix F n).dot ((diagonal d2).dot ((walshMatrix F n).dot
    ((diagonal d1).dot (walshMatrix F n))))))

variable {cpu : Cpu} {rayon : Rayon} {mask : Hd3Mask F}

def appliedColumns (mask : Hd3Mask F) (k : Nat) (x : Array2 F) : Array2 F :=
  onColumns (scaled fun i => mask.d3.getD i 1 * mask.invNorm) (onColumns (walsh 0 k) (onColumns (flip (negative mask.d2))
    (onColumns (walsh 0 k) (onColumns (flip (negative mask.d1)) (onColumns (walsh 0 k) x)))))

def unappliedColumns (mask : Hd3Mask F) (k : Nat) (x : Array2 F) : Array2 F :=
  onColumns (walsh 0 k) (onColumns (flip (negative mask.d1)) (onColumns (walsh 0 k) (onColumns (flip (negative mask.d2))
    (onColumns (walsh 0 k) (onColumns (scaled fun i => mask.d3.getD i 1 * mask.invNorm) x)))))

theorem appliedColumns_operator (size : mask.n = 2 ^ k) (first : Signs mask.n mask.d1) (second : Signs mask.n mask.d2)
    (third : Signs mask.n mask.d3) {x : Array2 F} (tall : x.nrows = mask.n) :
    appliedColumns mask k x = (operator mask.n mask.d1 mask.d2 mask.d3 mask.invNorm).dot x := by
  have product : ∀ y : Array2 F, y.nrows = mask.n → onColumns (walsh 0 k) y = (walshMatrix F mask.n).dot y := by
    rw [size]
    exact fun y => walsh_dot y
  have signed : ∀ d, Signs mask.n d → ∀ y : Array2 F, y.nrows = mask.n → onColumns (flip (negative d)) y = (diagonal d).dot y :=
    fun d signs y tall => flip_dot (tall ▸ signs)
  unfold appliedColumns operator
  rw [scaled_dot (x:=onColumns _ (onColumns _ (onColumns _ (onColumns _ (onColumns _ x))))) (third.1.trans tall.symm),
    product (onColumns _ (onColumns _ (onColumns _ (onColumns _ x)))) tall,
    signed _ second (onColumns _ (onColumns _ (onColumns _ x))) tall,product (onColumns _ (onColumns _ x)) tall,
    signed _ first (onColumns _ x) tall,product x tall,times_dot]
  simp only [dot_assoc]

theorem applyInPlace_columns (size : mask.n = 2 ^ k) (first : Signs mask.n mask.d1) (second : Signs mask.n mask.d2)
    (third : Signs mask.n mask.d3) {x : Array2 F} (tall : x.nrows = mask.n) :
    applyInPlace cpu rayon mask x = .ok (appliedColumns mask k x) := by
  have stage : ∀ y : Array2 F, y.nrows = mask.n → fwhtRowsInplace cpu rayon y = onColumns (walsh 0 k) y :=
    fun y tall => fwhtRowsInplace_columns cpu rayon (tall.trans size)
  rw [applyInPlace,if_pos tall,stage x tall,applyDiagInplace_columns (x:=onColumns _ x) rayon (first.1.trans tall.symm),
    stage (onColumns _ (onColumns _ x)) tall,
    applyDiagInplace_columns (x:=onColumns _ (onColumns _ (onColumns _ x))) rayon (second.1.trans tall.symm),
    stage (onColumns _ (onColumns _ (onColumns _ (onColumns _ x)))) tall,
    applyDiagScaledInplace_columns (x:=onColumns _ (onColumns _ (onColumns _ (onColumns _ (onColumns _ x))))) rayon
      (third.1.trans tall.symm)]
  rfl

theorem unapplyInPlace_columns (size : mask.n = 2 ^ k) (first : Signs mask.n mask.d1) (second : Signs mask.n mask.d2)
    (third : Signs mask.n mask.d3) {x : Array2 F} (tall : x.nrows = mask.n) :
    unapplyInPlace cpu rayon mask x = .ok (unappliedColumns mask k x) := by
  have stage : ∀ y : Array2 F, y.nrows = mask.n → fwhtRowsInplace cpu rayon y = onColumns (walsh 0 k) y :=
    fun y tall => fwhtRowsInplace_columns cpu rayon (tall.trans size)
  rw [unapplyInPlace,if_pos tall,applyDiagScaledInplace_columns rayon (third.1.trans tall.symm),stage (onColumns _ x) tall,
    applyDiagInplace_columns (x:=onColumns _ (onColumns _ x)) rayon (second.1.trans tall.symm),
    stage (onColumns _ (onColumns _ (onColumns _ x))) tall,
    applyDiagInplace_columns (x:=onColumns _ (onColumns _ (onColumns _ (onColumns _ x)))) rayon (first.1.trans tall.symm),
    stage (onColumns _ (onColumns _ (onColumns _ (onColumns _ (onColumns _ x))))) tall]
  rfl

-- An operand without columns is its own copy.
theorem copied (x : Array2 F) (tall : x.nrows = n) : (if 0 < x.ncols then x else zeros n x.ncols) = x := by
  split
  · rfl
  · rename_i none
    exact eq_of tall.symm rfl fun _ _ j col => absurd (Nat.zero_lt_of_lt col) none

theorem apply_in_place (cpu : Cpu) (rayon : Rayon) (mask : Hd3Mask F) {x : Array2 F} (tall : x.nrows = mask.n) :
    apply cpu rayon mask x = applyInPlace cpu rayon mask x := by rw [apply,if_pos tall,copied x tall]

theorem unapply_in_place (cpu : Cpu) (rayon : Rayon) (mask : Hd3Mask F) {x : Array2 F} (tall : x.nrows = mask.n) :
    unapply cpu rayon mask x = unapplyInPlace cpu rayon mask x := by rw [unapply,if_pos tall,copied x tall]

theorem slice_full {buf : Slice F} (shape : buf.len = n * cols) : buf.len = saturatingMul n cols := by
  have room := buf.fits
  unfold saturatingMul
  omega

theorem applyInPlaceSlice_columns (size : mask.n = 2 ^ k) (first : Signs mask.n mask.d1) (second : Signs mask.n mask.d2)
    (third : Signs mask.n mask.d3) {buf : Slice F} (shape : buf.len = mask.n * cols) :
    (applyInPlaceSlice cpu rayon mask buf cols).map (Slice.rows mask.n cols) = .ok (appliedColumns mask k (buf.rows mask.n cols)) := by
  have near : Local mask.n (walsh (F:=F) 0 k) := size ▸ local_walsh 0 k (by omega)
  have stage : ∀ m : Nat → F, Pass mask.n cols (walsh 0 k) m (fwhtRowsInplaceSlice cpu rayon buf.len mask.n cols m) := by
    rw [shape,size]
    exact fwhtRowsInplaceSlice_pass cpu rayon k cols
  have signed : ∀ d, Signs mask.n d → ∀ m : Nat → F, Pass mask.n cols (flip (negative d)) m (applyDiagInplaceSlice rayon buf.len d cols m) := by
    rw [shape]
    exact fun d signs => applyDiagInplaceSlice_pass signs.1 rayon cols
  have last : ∀ m : Nat → F, Pass mask.n cols (scaled fun i => mask.d3.getD i 1 * mask.invNorm) m
      (applyDiagScaledInplaceSlice rayon buf.len mask.d3 cols mask.invNorm m) := by
    rw [shape]
    exact applyDiagScaledInplaceSlice_pass third.1 rayon cols mask.invNorm
  rw [applyInPlaceSlice,if_pos (slice_full shape)]
  show Except.ok (ofCells mask.n cols _) = _
  rw [(last _).array (local_scaled _ _),(stage _).array near,(signed _ second _).array (local_flip _ _),(stage _).array near,
    (signed _ first _).array (local_flip _ _),(stage _).array near]
  rfl

theorem unapplyInPlaceSlice_columns (size : mask.n = 2 ^ k) (first : Signs mask.n mask.d1) (second : Signs mask.n mask.d2)
    (third : Signs mask.n mask.d3) {buf : Slice F} (shape : buf.len = mask.n * cols) :
    (unapplyInPlaceSlice cpu rayon mask buf cols).map (Slice.rows mask.n cols) =
      .ok (unappliedColumns mask k (buf.rows mask.n cols)) := by
  have near : Local mask.n (walsh (F:=F) 0 k) := size ▸ local_walsh 0 k (by omega)
  have stage : ∀ m : Nat → F, Pass mask.n cols (walsh 0 k) m (fwhtRowsInplaceSlice cpu rayon buf.len mask.n cols m) := by
    rw [shape,size]
    exact fwhtRowsInplaceSlice_pass cpu rayon k cols
  have signed : ∀ d, Signs mask.n d → ∀ m : Nat → F, Pass mask.n cols (flip (negative d)) m (applyDiagInplaceSlice rayon buf.len d cols m) := by
    rw [shape]
    exact fun d signs => applyDiagInplaceSlice_pass signs.1 rayon cols
  have last : ∀ m : Nat → F, Pass mask.n cols (scaled fun i => mask.d3.getD i 1 * mask.invNorm) m
      (applyDiagScaledInplaceSlice rayon buf.len mask.d3 cols mask.invNorm m) := by
    rw [shape]
    exact applyDiagScaledInplaceSlice_pass third.1 rayon cols mask.invNorm
  rw [unapplyInPlaceSlice,if_pos (slice_full shape)]
  show Except.ok (ofCells mask.n cols _) = _
  rw [(stage _).array near,(signed _ first _).array (local_flip _ _),(stage _).array near,(signed _ second _).array (local_flip _ _),
    (stage _).array near,(last _).array (local_scaled _ _)]
  rfl

-- Unmasking a product of the masked operand.
theorem unappliedColumns_dot (size : mask.n = 2 ^ k) (unit : mask.invNorm * mask.invNorm * (mask.n : F) ^ 3 = 1) {x : Array2 F}
    (tall : x.nrows = mask.n) (w : Array2 F) : unappliedColumns mask k ((appliedColumns mask k x).dot w) = x.dot w := by
  have near : Local mask.n (walsh (F:=F) 0 k) := size ▸ local_walsh 0 k (by omega)
  have cubed : mask.invNorm * mask.invNorm * ((2 ^ k : Nat) : F) ^ 3 = 1 := by rw [←size]; exact unit
  exact unmask_cascade near (local_flip _ _) (local_flip _ _) (local_scaled _ _) (walsh_twice 0 k) (one_mul _)
    (flip_twice _) (flip_twice _) (scaled_twice (signs_even mask.signs mask.invNorm)) (by rw [one_mul,mul_one])
    (by rw [one_mul,mul_one]) (fun _ _ _ => rfl) cubed tall w

-- The masks over whole columns are what the loops over the cells compute.
theorem applyInPlace_refines [Platform F] (first : Signs mask.n mask.d1) (second : Signs mask.n mask.d2)
    (third : Signs mask.n mask.d3) (x : Array2 F) : applyInPlace cpu rayon mask x = mask.applyInPlace x := by
  by_cases tall : x.nrows = mask.n
  · obtain ⟨k,size⟩ := mask.power
    have stages : transform (F:=F) x.nrows x.nrows 1 = walsh 0 k := by
      rw [tall,size]
      exact transform_walsh k (2 ^ k) 0 (Nat.zero_le k) (by rw [Nat.zero_add]; exact Nat.le_of_lt Nat.lt_two_pow_self)
    rw [applyInPlace_columns size first second third tall,Hd3Mask.applyInPlace,if_pos tall]
    simp only [Gelo.fwhtRowsInplace,Gelo.applyDiagInplace,Gelo.applyDiagScaledInplace,onColumns_nrows,stages]
    rfl
  · rw [applyInPlace,if_neg tall,Hd3Mask.applyInPlace,if_neg tall]

theorem unapplyInPlace_refines [Platform F] (first : Signs mask.n mask.d1) (second : Signs mask.n mask.d2)
    (third : Signs mask.n mask.d3) (x : Array2 F) : unapplyInPlace cpu rayon mask x = mask.unapplyInPlace x := by
  by_cases tall : x.nrows = mask.n
  · obtain ⟨k,size⟩ := mask.power
    have stages : transform (F:=F) x.nrows x.nrows 1 = walsh 0 k := by
      rw [tall,size]
      exact transform_walsh k (2 ^ k) 0 (Nat.zero_le k) (by rw [Nat.zero_add]; exact Nat.le_of_lt Nat.lt_two_pow_self)
    rw [unapplyInPlace_columns size first second third tall,Hd3Mask.unapplyInPlace,if_pos tall]
    simp only [Gelo.fwhtRowsInplace,Gelo.applyDiagInplace,Gelo.applyDiagScaledInplace,onColumns_nrows,stages]
    rfl
  · rw [unapplyInPlace,if_neg tall,Hd3Mask.unapplyInPlace,if_neg tall]

end Columns

theorem three_halves_square {x : ℝ} (positive : 0 < x) : x ^ (-(3 / 2) : ℝ) * x ^ (-(3 / 2) : ℝ) * x ^ 3 = 1 := by
  rw [←Real.rpow_natCast x 3,←Real.rpow_add positive,←Real.rpow_add positive]
  norm_num

-- The loops over the cells multiply by the documented orthogonal matrix,
-- whatever the processor and the order of the chunks, and are undone.
theorem hd3_mask_is_its_operator (cpu : Cpu) (rayon : Rayon) (mask : Hd3Mask ℝ)
    (norm : mask.invNorm = (mask.n : ℝ) ^ (-(3 / 2) : ℝ)) (first : Signs mask.n mask.d1) (second : Signs mask.n mask.d2)
    (third : Signs mask.n mask.d3) :
    (∀ d m, (∀ i < mask.n, ∀ j < d, fwhtRowsInplaceSlice cpu rayon (mask.n * d) mask.n d m (i * d + j) =
        ∑ k ∈ Finset.range mask.n, (-1 : ℝ) ^ countOnes (i &&& k) * m (k * d + j)) ∧
      ∀ a, mask.n * d ≤ a → fwhtRowsInplaceSlice cpu rayon (mask.n * d) mask.n d m a = m a) ∧
    (∀ x : Array2 ℝ, x.nrows = mask.n → fwhtRowsInplace cpu rayon x = (walshMatrix ℝ mask.n).dot x) ∧
    (∀ x : Array2 ℝ, x.nrows = mask.n →
      let masked := (operator mask.n mask.d1 mask.d2 mask.d3 ((mask.n : ℝ) ^ (-(3 / 2) : ℝ))).dot x
      apply cpu rayon mask x = .ok masked ∧ applyInPlace cpu rayon mask x = .ok masked ∧
      (∀ buf : Slice ℝ, buf.len = mask.n * x.ncols → buf.rows mask.n x.ncols = x →
        (applyInPlaceSlice cpu rayon mask buf x.ncols).map (Slice.rows mask.n x.ncols) = .ok masked) ∧
      ∀ w : Array2 ℝ, unapply cpu rayon mask (masked.dot w) = .ok (x.dot w) ∧
        unapplyInPlace cpu rayon mask (masked.dot w) = .ok (x.dot w) ∧
        ∀ buf : Slice ℝ, buf.len = mask.n * w.ncols → buf.rows mask.n w.ncols = masked.dot w →
          (unapplyInPlaceSlice cpu rayon mask buf w.ncols).map (Slice.rows mask.n w.ncols) = .ok (x.dot w)) := by
  obtain ⟨k,size⟩ := mask.power
  have positive : (0 : ℝ) < mask.n := by
    rw [size]
    exact_mod_cast Nat.two_pow_pos k
  have unit : mask.invNorm * mask.invNorm * (mask.n : ℝ) ^ 3 = 1 := by
    rw [norm]
    exact three_halves_square positive
  refine ⟨fun d m => ?_,fun x tall => ?_,fun x tall => ?_⟩
  · have passed := fwhtRowsInplaceSlice_pass cpu rayon k d m
    rw [←size] at passed
    refine ⟨fun i row j col => ?_,fun a beyond => passed.frame beyond⟩
    rw [passed.cell row col,walsh_sum,←size,Nat.div_eq_of_lt row]
    exact Finset.sum_congr rfl fun k _ => by rw [Nat.zero_mul,Nat.zero_add]
  · rw [fwhtRowsInplace_columns cpu rayon (tall.trans size),size]
    exact walsh_dot x (tall.trans size)
  · have masked := appliedColumns_operator size first second third tall
    rw [norm] at masked
    simp only [←masked]
    refine ⟨?_,applyInPlace_columns size first second third tall,fun buf shape holds => ?_,fun w => ?_⟩
    · rw [apply_in_place cpu rayon mask tall]
      exact applyInPlace_columns size first second third tall
    · rw [applyInPlaceSlice_columns size first second third shape,holds]
    · have tall' : ((appliedColumns mask k x).dot w).nrows = mask.n := tall
      have undone := unappliedColumns_dot size unit tall w
      have inPlace : unapplyInPlace cpu rayon mask ((appliedColumns mask k x).dot w) = .ok _ :=
        unapplyInPlace_columns size first second third tall'
      rw [undone] at inPlace
      refine ⟨?_,inPlace,fun buf shape holds => ?_⟩
      · rw [unapply_in_place cpu rayon mask tall']
        exact inPlace
      · rw [unapplyInPlaceSlice_columns size first second third shape,holds,undone]

attribute [local instance] two_atLeastTwo three_atLeastTwo

theorem mixed_signs : ∀ x ∈ [(1 : ℝ),-1], x = 1 ∨ x = -1 := by simp

-- Two rows with mixed signs.
noncomputable def twoRows : Hd3Mask ℝ := ⟨2,[1,-1],[-1,1],[1,-1],(2 : ℝ) ^ (-(3 / 2) : ℝ),⟨1,rfl⟩,mixed_signs⟩

def inOrder : Rayon := ⟨fun items => items,fun items => List.Perm.refl items⟩

theorem hd3_mask_is_its_operator_two_rows :
    applyInPlace ⟨true,false,true⟩ inOrder twoRows (identity 2) =
      .ok ((operator 2 [1,-1] [-1,1] [1,-1] ((2 : ℝ) ^ (-(3 / 2) : ℝ))).dot (identity 2)) := by
  have whole := hd3_mask_is_its_operator ⟨true,false,true⟩ inOrder twoRows (by simp [twoRows]) ⟨rfl,by simp [twoRows]⟩
    ⟨rfl,by simp [twoRows]⟩ ⟨rfl,by simp [twoRows]⟩
  have applied := (whole.2.2 (identity 2) rfl).2.1
  rw [show (twoRows.n : ℝ) = 2 by simp [twoRows]] at applied
  exact applied

end Hd3
end Gelo
