import GeloLightrag.Foundation.Cosine
import GeloLightrag.Foundation.Literals
import GeloLightrag.Gelo.Dct4Tiles

set_option linter.unusedSectionVars false

namespace Gelo
namespace Dct4
open Foundation Array2 InPlace Walsh
open Hd3 (Signs negative)

section Columns
variable {F : Type} [Field F] [LinearOrder F] [IsStrictOrderedRing F] {n : Nat}

def column (n : Nat) (x : Array2 F) (j : Nat) : Fin n → F := fun i => x.entry i j

def signsOf (n : Nat) (d : List F) : Fin n → F := fun i => d.getD i 1

-- The documented mask on one column.
def documented (C : Module.End F (Fin n → F)) (d1 d2 d3 : List F) (factor : F) (v : Fin n → F) : Fin n → F :=
  factor • (signsOf n d3 * C (signsOf n d2 * C (signsOf n d1 * C v)))

theorem flip_sign {d : List F} (signs : Signs n d) (v : Nat → F) (low : i < n) :
    Walsh.flip (negative d) v i = d.getD i 1 * v i := by
  have inside : i < d.length := by rw [signs.1]; exact low
  have listed : d.getD i 1 = d[i] := by rw [List.getD_eq_getElem?_getD,List.getElem?_eq_getElem inside]; rfl
  show (if negative d i then -v i else v i) = _
  unfold negative
  rw [listed]
  rcases signs.2 d[i] (List.getElem_mem inside) with plus | minus
  · rw [plus,if_neg (by simp),one_mul]
  · rw [minus,if_pos (by simp),neg_one_mul]

theorem flip_restricted {d : List F} (signs : Signs n d) (v : Nat → F) :
    (fun k : Fin n => Walsh.flip (negative d) v k) = signsOf n d * fun k : Fin n => v k :=
  funext fun k => flip_sign signs v k.isLt

theorem lift_restricted (C : Module.End F (Fin n → F)) (v : Nat → F) : (fun k : Fin n => lift C v k) = C fun k => v k :=
  funext fun k => lift_at C v k.isLt

theorem cascadeMap_documented (C : Module.End F (Fin n → F)) {d1 d2 : List F} (first : Signs n d1) (second : Signs n d2)
    (d3 : List F) (factor : F) (v : Nat → F) :
    (fun k : Fin n => cascadeMap C d1 d2 d3 factor v k) = documented C d1 d2 d3 factor fun k => v k := by
  unfold documented
  rw [←lift_restricted C v,←flip_restricted first,←lift_restricted C,←flip_restricted second,←lift_restricted C]
  funext k
  show lift C (Walsh.flip (negative d2) (lift C (Walsh.flip (negative d1) (lift C v)))) k * (d3.getD k 1 * factor) =
    factor * (d3.getD k 1 * lift C (Walsh.flip (negative d2) (lift C (Walsh.flip (negative d1) (lift C v)))) k)
  ring

variable {pool : Pool} {mask : Dct4Mask F} {planned : Planned F mask.n}

def applied (mask : Dct4Mask F) (planned : Planned F mask.n) (x : Array2 F) : Array2 F :=
  if mask.n < 2 then x else onColumns (cascadeMap planned.map mask.d1 mask.d2 mask.d3 mask.invNorm) x

def unapplied (mask : Dct4Mask F) (planned : Planned F mask.n) (x : Array2 F) : Array2 F :=
  if mask.n < 2 then x else onColumns (inverseMap planned.map mask.d1 mask.d2 mask.d3 mask.invNorm) x

-- What the loops leave in the cells, whatever the scratch held.
theorem apply_cells (pool : Pool) (planned : Planned F mask.n) (d : Nat) (s : (Nat → F) × (Nat → TileScratch F)) :
    ofCells mask.n d (dct4CascadeApplyInplaceSlice pool mask planned d s).1 = applied mask planned (ofCells mask.n d s.1) := by
  unfold applied
  by_cases tiny : mask.n < 2
  · rw [if_pos tiny,dct4CascadeApplyInplaceSlice,overTiles,if_pos (.inl tiny)]
  · rw [if_neg tiny]
    have near := local_cascadeMap planned.map mask.d1 mask.d2 mask.d3 mask.invNorm
    exact (overTiles_pass near _ (fun tileD s => cascadeApplyInTile_pass planned (by omega) mask.d1 mask.d2 mask.d3 mask.invNorm
      tileD s) (Nat.le_of_not_lt tiny) pool s).array near

theorem unapply_cells (pool : Pool) (planned : Planned F mask.n) (d : Nat) (s : (Nat → F) × (Nat → TileScratch F)) :
    ofCells mask.n d (dct4CascadeUnapplyInplaceSlice pool mask planned d s).1 = unapplied mask planned (ofCells mask.n d s.1) := by
  unfold unapplied
  by_cases tiny : mask.n < 2
  · rw [if_pos tiny,dct4CascadeUnapplyInplaceSlice,overTiles,if_pos (.inl tiny)]
  · rw [if_neg tiny]
    have near := local_inverseMap planned.map mask.d1 mask.d2 mask.d3 mask.invNorm
    exact (overTiles_pass near _ (fun tileD s => cascadeUnapplyInTile_pass planned (by omega) mask.d1 mask.d2 mask.d3 mask.invNorm
      tileD s) (Nat.le_of_not_lt tiny) pool s).array near

theorem applyInPlace_applied (pool : Pool) (planned : Planned F mask.n) {x : Array2 F} (tall : x.nrows = mask.n)
    (scratch : Nat → TileScratch F) :
    ∃ after, applyInPlace pool mask planned x scratch = .ok (applied mask planned x,after) ∧
      apply pool mask planned x scratch = .ok (applied mask planned x,after) := by
  have done := apply_cells pool planned x.ncols (cells x,scratch)
  rw [show ofCells mask.n x.ncols (cells x) = x by rw [←tall]; exact ofCells_cells x,←tall] at done
  have inPlace : applyInPlace pool mask planned x scratch =
      .ok (applied mask planned x,(dct4CascadeApplyInplaceSlice pool mask planned x.ncols (cells x,scratch)).2) := by
    rw [applyInPlace,if_pos tall,←done]
  exact ⟨_,inPlace,by rw [apply,if_pos tall,Hd3.copied x tall,inPlace]⟩

theorem unapplyInPlace_unapplied (pool : Pool) (planned : Planned F mask.n) {x : Array2 F} (tall : x.nrows = mask.n)
    (scratch : Nat → TileScratch F) :
    ∃ after, unapplyInPlace pool mask planned x scratch = .ok (unapplied mask planned x,after) ∧
      unapply pool mask planned x scratch = .ok (unapplied mask planned x,after) := by
  have done := unapply_cells pool planned x.ncols (cells x,scratch)
  rw [show ofCells mask.n x.ncols (cells x) = x by rw [←tall]; exact ofCells_cells x,←tall] at done
  have inPlace : unapplyInPlace pool mask planned x scratch =
      .ok (unapplied mask planned x,(dct4CascadeUnapplyInplaceSlice pool mask planned x.ncols (cells x,scratch)).2) := by
    rw [unapplyInPlace,if_pos tall,←done]
  exact ⟨_,inPlace,by rw [unapply,if_pos tall,Hd3.copied x tall,inPlace]⟩

theorem applyInPlaceSlice_applied (pool : Pool) (planned : Planned F mask.n) {buf : Slice F} (shape : buf.len = mask.n * cols)
    (scratch : Nat → TileScratch F) :
    (applyInPlaceSlice pool mask planned buf cols scratch).map (fun out => out.1.rows mask.n cols) =
      .ok (applied mask planned (buf.rows mask.n cols)) := by
  rw [applyInPlaceSlice,if_pos (Hd3.slice_full shape)]
  exact congrArg Except.ok (apply_cells pool planned cols (buf.cells,scratch))

theorem unapplyInPlaceSlice_unapplied (pool : Pool) (planned : Planned F mask.n) {buf : Slice F}
    (shape : buf.len = mask.n * cols) (scratch : Nat → TileScratch F) :
    (unapplyInPlaceSlice pool mask planned buf cols scratch).map (fun out => out.1.rows mask.n cols) =
      .ok (unapplied mask planned (buf.rows mask.n cols)) := by
  rw [unapplyInPlaceSlice,if_pos (Hd3.slice_full shape)]
  exact congrArg Except.ok (unapply_cells pool planned cols (buf.cells,scratch))

-- Unmasking a product of the masked operand, also where the mask does nothing.
theorem unapplied_dot (square : planned.map * planned.map = ((mask.n : F) / 2) • 1)
    (unit : mask.invNorm * mask.invNorm * ((mask.n : F) / 2) ^ 3 = 1) {x : Array2 F} (tall : x.nrows = mask.n) (w : Array2 F) :
    unapplied mask planned ((applied mask planned x).dot w) = x.dot w := by
  unfold applied unapplied
  by_cases tiny : mask.n < 2
  · rw [if_pos tiny,if_pos tiny]
  · rw [if_neg tiny,if_neg tiny]
    refine unmask_dot (local_inverseMap _ _ _ _ _) ?_ tall w
    intro v i low
    have undone := cascade_undone (lift_twice square) (cut_lift planned.map) (flip_twice (negative mask.d1)) (flip_twice (negative mask.d2))
      (scaled_twice (signs_even mask.signs mask.invNorm)) (cut_flip _ _) (cut_flip _ _)
    rw [unit,one_smul] at undone
    rw [←Module.End.mul_apply]
    simp only [mul_assoc] at undone
    unfold inverseMap cascadeMap
    simp only [mul_assoc]
    rw [undone]
    exact if_pos low

-- Every variant leaves y for x, whatever the scratch held before.
def Leaves (pool : Pool) (mask : Dct4Mask F) (planned : Planned F mask.n) (x y : Array2 F) : Prop :=
  y.nrows = mask.n ∧ y.ncols = x.ncols ∧
  (∀ scratch, ∃ after, applyInPlace pool mask planned x scratch = .ok (y,after) ∧ apply pool mask planned x scratch = .ok (y,after)) ∧
  ∀ (buf : Slice F) scratch, buf.len = mask.n * x.ncols → buf.rows mask.n x.ncols = x →
    (applyInPlaceSlice pool mask planned buf x.ncols scratch).map (fun out => out.1.rows mask.n x.ncols) = .ok y

-- Every variant makes the plain product of the masked one.
def Restores (pool : Pool) (mask : Dct4Mask F) (planned : Planned F mask.n) (x y w : Array2 F) : Prop :=
  (∀ scratch, ∃ after, unapplyInPlace pool mask planned (y.dot w) scratch = .ok (x.dot w,after) ∧
    unapply pool mask planned (y.dot w) scratch = .ok (x.dot w,after)) ∧
  ∀ (buf : Slice F) scratch, buf.len = mask.n * w.ncols → buf.rows mask.n w.ncols = y.dot w →
    (unapplyInPlaceSlice pool mask planned buf w.ncols scratch).map (fun out => out.1.rows mask.n w.ncols) = .ok (x.dot w)

theorem leaves_applied (pool : Pool) (planned : Planned F mask.n) {x : Array2 F} (tall : x.nrows = mask.n) :
    Leaves pool mask planned x (applied mask planned x) := by
  have rows : (applied mask planned x).nrows = mask.n ∧ (applied mask planned x).ncols = x.ncols := by
    unfold applied
    split
    · exact ⟨tall,rfl⟩
    · exact ⟨tall,rfl⟩
  refine ⟨rows.1,rows.2,applyInPlace_applied pool planned tall,fun buf scratch shape holds => ?_⟩
  rw [applyInPlaceSlice_applied pool planned shape scratch,holds]

theorem Leaves.only (left : Leaves pool mask planned x y) (left' : Leaves pool mask planned x z) : y = z := by
  obtain ⟨_,ran,_⟩ := left.2.2.1 fun _ => ⟨⟨0,fun _ => 0⟩,⟨0,fun _ => 0⟩⟩
  obtain ⟨_,ran',_⟩ := left'.2.2.1 fun _ => ⟨⟨0,fun _ => 0⟩,⟨0,fun _ => 0⟩⟩
  exact (Prod.mk.inj (Except.ok.inj (ran.symm.trans ran'))).1

theorem restores_applied (pool : Pool) (square : planned.map * planned.map = ((mask.n : F) / 2) • 1)
    (unit : mask.invNorm * mask.invNorm * ((mask.n : F) / 2) ^ 3 = 1) {x : Array2 F} (tall : x.nrows = mask.n) (w : Array2 F) :
    Restores pool mask planned x (applied mask planned x) w := by
  refine ⟨fun scratch => ?_,fun buf scratch shape holds => ?_⟩
  · have undone := unapplyInPlace_unapplied pool planned (x:=(applied mask planned x).dot w) (leaves_applied pool planned tall).1 scratch
    rw [unapplied_dot square unit tall w] at undone
    exact undone
  · rw [unapplyInPlaceSlice_unapplied pool planned shape scratch,holds,unapplied_dot square unit tall w]

theorem applied_documented (wide : 2 ≤ mask.n) (first : Signs mask.n mask.d1) (second : Signs mask.n mask.d2) {x : Array2 F}
    (tall : x.nrows = mask.n) (col : j < x.ncols) : column mask.n (applied mask planned x) j =
      documented planned.map mask.d1 mask.d2 mask.d3 mask.invNorm (column mask.n x j) := by
  refine Eq.trans ?_ (cascadeMap_documented planned.map first second mask.d3 mask.invNorm fun i => x.entry i j)
  funext i
  rw [column,applied,if_neg (by omega)]
  exact onColumns_entry (show (i : Nat) < x.nrows by rw [tall]; exact i.isLt) col

-- The masks over whole columns are what the tiles compute, when the planner's
-- map is the kernel.
theorem lift_kernel [Platform F] (sums : ∀ v (i : Fin mask.n), planned.map v i = ∑ k : Fin mask.n, Platform.dct4 mask.n i k * v k) :
    lift planned.map = kernel mask.n (Platform.dct4 mask.n) := by
  ext v i
  show lift planned.map v i = if i < mask.n then ∑ k ∈ Finset.range mask.n, Platform.dct4 mask.n i k * v k else 0
  by_cases low : i < mask.n
  · rw [if_pos low,lift_at planned.map v low,sums]
    exact Fin.sum_univ_eq_sum_range (fun k => Platform.dct4 mask.n i k * v k) mask.n
  · rw [if_neg low]
    exact dif_neg low

theorem applied_refines [Platform F] (sums : ∀ v (i : Fin mask.n), planned.map v i = ∑ k : Fin mask.n, Platform.dct4 mask.n i k * v k)
    {x : Array2 F} (tall : x.nrows = mask.n) : mask.applyInPlace x = .ok (applied mask planned x) := by
  rw [Dct4Mask.applyInPlace,if_pos tall,applied]
  split
  · rfl
  · simp only [processDct4,Gelo.applyDiagInplace,Gelo.applyDiagScaledInplace,onColumns_nrows,tall,←lift_kernel sums]
    have near : Local x.nrows (lift planned.map) := by rw [tall]; exact local_lift planned.map
    rw [cascade_columns (local_flip _ _) near (local_flip _ _) near (local_scaled _ _)]
    simp only [mul_assoc]
    rfl

theorem unapplied_refines [Platform F] (sums : ∀ v (i : Fin mask.n), planned.map v i = ∑ k : Fin mask.n, Platform.dct4 mask.n i k * v k)
    {x : Array2 F} (tall : x.nrows = mask.n) : mask.unapplyInPlace x = .ok (unapplied mask planned x) := by
  rw [Dct4Mask.unapplyInPlace,if_pos tall,unapplied]
  split
  · rfl
  · simp only [processDct4,Gelo.applyDiagInplace,Gelo.applyDiagScaledInplace,onColumns_nrows,tall,←lift_kernel sums]
    have near : Local x.nrows (lift planned.map) := by rw [tall]; exact local_lift planned.map
    rw [cascade_columns near (local_flip _ _) near (local_flip _ _) near]
    simp only [mul_assoc]
    rfl

-- One row: the transform is a multiple.
theorem single_map (one : n = 1) (C : Module.End F (Fin n → F)) (v : Fin n → F) (i : Fin n) : C v i = v i * C 1 i := by
  subst one
  have constant : v = v i • (1 : Fin 1 → F) := funext fun k => by
    rw [Subsingleton.elim k i,Pi.smul_apply,Pi.one_apply,smul_eq_mul,mul_one]
  conv_lhs => rw [constant,map_smul]
  rfl

-- The three signs and the three transforms of a single row are a factor of
-- size one, which is one when the signs and the transform agree.
theorem single_factor {s1 s2 s3 c factor : ℝ} (first : s1 = 1 ∨ s1 = -1) (second : s2 = 1 ∨ s2 = -1) (third : s3 = 1 ∨ s3 = -1)
    (half : c * c = 1 / 2) (positive : 0 < factor) (unit : factor * factor * (1 / 2) ^ 3 = 1) :
    factor * (s3 * (s2 * (s1 * c * c) * c)) = 1 ↔ 0 < s1 * s2 * s3 * c := by
  have shape : factor * (s3 * (s2 * (s1 * c * c) * c)) = s1 * s2 * s3 * c * (factor * (1 / 2)) := by
    rw [←half]; ring
  have square : s1 * s2 * s3 * c * (factor * (1 / 2)) * (s1 * s2 * s3 * c * (factor * (1 / 2))) = 1 := by
    have ones : s1 * s1 = 1 ∧ s2 * s2 = 1 ∧ s3 * s3 = 1 := by
      refine ⟨?_,?_,?_⟩
      · rcases first with rfl | rfl <;> norm_num
      · rcases second with rfl | rfl <;> norm_num
      · rcases third with rfl | rfl <;> norm_num
    calc s1 * s2 * s3 * c * (factor * (1 / 2)) * (s1 * s2 * s3 * c * (factor * (1 / 2)))
        = (s1 * s1) * (s2 * s2) * (s3 * s3) * (c * c) * (factor * factor * (1 / 2) ^ 2) := by ring
      _ = factor * factor * (1 / 2) ^ 3 := by rw [ones.1,ones.2.1,ones.2.2,half]; ring
      _ = 1 := unit
  have scale : 0 < factor * (1 / 2) := by positivity
  rw [shape]
  constructor
  · intro one
    by_contra other
    have below : s1 * s2 * s3 * c * (factor * (1 / 2)) ≤ 0 := mul_nonpos_of_nonpos_of_nonneg (not_lt.mp other) scale.le
    linarith
  · intro agree
    have above : 0 < s1 * s2 * s3 * c * (factor * (1 / 2)) := mul_pos agree scale
    nlinarith

end Columns
theorem three_halves_cube {x : ℝ} (positive : 0 < x) : x ^ ((3 : ℝ) / 2) * x ^ ((3 : ℝ) / 2) = x ^ 3 := by
  rw [←Real.rpow_add positive,←Real.rpow_natCast x 3]
  norm_num

theorem signed_first {d : List ℝ} (signs : Signs n d) (some : 0 < n) : d.getD 0 1 = 1 ∨ d.getD 0 1 = -1 := by
  have inside : 0 < d.length := by rw [signs.1]; exact some
  rw [List.getD_eq_getElem?_getD,List.getElem?_eq_getElem inside]
  exact signs.2 _ (List.getElem_mem inside)

theorem documented_single {n : Nat} (one : n = 1) (C : Module.End ℝ (Fin n → ℝ)) (d1 d2 d3 : List ℝ) (factor : ℝ) (v : Fin n → ℝ)
    (i : Fin n) : documented C d1 d2 d3 factor v i =
      factor * (d3.getD 0 1 * (d2.getD 0 1 * (d1.getD 0 1 * C 1 i * C 1 i) * C 1 i)) * v i := by
  have first : (i : Nat) = 0 := by have := i.isLt; omega
  show factor * (d3.getD i 1 * C _ i) = _
  rw [single_map one C _ i,Pi.mul_apply,single_map one C _ i,Pi.mul_apply,single_map one C v i]
  unfold signsOf
  rw [first]
  ring

theorem single_half {n : Nat} (one : n = 1) {C : Module.End ℝ (Fin n → ℝ)} (square : C * C = ((n : ℝ) / 2) • 1) (i : Fin n) :
    C 1 i * C 1 i = 1 / 2 := by
  have twice := congrArg (fun f : Module.End ℝ (Fin n → ℝ) => f 1 i) square
  simp only [Module.End.mul_apply] at twice
  rw [single_map one C _ i] at twice
  rw [twice]
  show (n : ℝ) / 2 * 1 = 1 / 2
  rw [one,Nat.cast_one,mul_one]

-- A single row is left as it is, so the mask is met where the documented factor
-- is one or the row is zero.
theorem single_documented_iff {mask : Dct4Mask ℝ} {planned : Planned ℝ mask.n} (one : mask.n = 1) (some : 0 < mask.n)
    (positive : 0 < mask.invNorm) (unit : mask.invNorm * mask.invNorm * ((mask.n : ℝ) / 2) ^ 3 = 1)
    (first : Signs mask.n mask.d1) (second : Signs mask.n mask.d2) (third : Signs mask.n mask.d3)
    (square : planned.map * planned.map = ((mask.n : ℝ) / 2) • 1) (x : Array2 ℝ) :
    (∀ j < x.ncols, column mask.n x j = documented planned.map mask.d1 mask.d2 mask.d3 mask.invNorm (column mask.n x j)) ↔
      0 < mask.d1.getD 0 1 * mask.d2.getD 0 1 * mask.d3.getD 0 1 * planned.map 1 ⟨0,some⟩ ∨ ∀ j < x.ncols, x.entry 0 j = 0 := by
  have agree := single_factor (signed_first first some) (signed_first second some) (signed_first third some)
    (single_half one square ⟨0,some⟩) positive (by rw [one,Nat.cast_one] at unit; exact unit)
  constructor
  · intro documents
    by_cases signs : 0 < mask.d1.getD 0 1 * mask.d2.getD 0 1 * mask.d3.getD 0 1 * planned.map 1 ⟨0,some⟩
    · exact .inl signs
    · refine .inr fun j col => ?_
      by_contra other
      have entry := (congrFun (documents j col) ⟨0,some⟩).trans (documented_single one _ _ _ _ _ _ ⟨0,some⟩)
      exact signs (agree.mp (mul_right_cancel₀ other ((one_mul _).trans entry)).symm)
  · intro condition j col
    funext i
    have here : i = ⟨0,some⟩ := Fin.ext (by have := i.isLt; show (i : Nat) = 0; omega)
    rw [here,documented_single one]
    rcases condition with signs | zero
    · rw [agree.mpr signs,one_mul]
    · rw [show column mask.n x j ⟨0,some⟩ = 0 from zero j col,mul_zero]

-- Every column gets the documented mask, whatever the scratch, the threads and
-- the other columns, and a product is unmasked; but a single row is left as it
-- is, signs and all.
theorem dct4_mask_exact_iff (pool : Pool) (mask : Dct4Mask ℝ) (planned : Planned ℝ mask.n) (some : 0 < mask.n)
    (norm : mask.invNorm = (2 / (mask.n : ℝ)) ^ ((3 : ℝ) / 2)) (first : Signs mask.n mask.d1) (second : Signs mask.n mask.d2)
    (third : Signs mask.n mask.d3) (square : planned.map * planned.map = ((mask.n : ℝ) / 2) • 1) (x : Array2 ℝ)
    (tall : x.nrows = mask.n) :
    (∃ y : Array2 ℝ, Leaves pool mask planned x y ∧
      (∀ j < x.ncols, column mask.n y j =
        documented planned.map mask.d1 mask.d2 mask.d3 ((2 / (mask.n : ℝ)) ^ ((3 : ℝ) / 2)) (column mask.n x j)) ∧
      ∀ w, Restores pool mask planned x y w) ↔
    (2 ≤ mask.n ∨ 0 < mask.d1.getD 0 1 * mask.d2.getD 0 1 * mask.d3.getD 0 1 * planned.map 1 ⟨0,some⟩ ∨
      ∀ j < x.ncols, x.entry 0 j = 0) := by
  have size : (0 : ℝ) < mask.n := by exact_mod_cast some
  have positive : 0 < mask.invNorm := by rw [norm]; positivity
  have unit : mask.invNorm * mask.invNorm * ((mask.n : ℝ) / 2) ^ 3 = 1 := by
    rw [norm,three_halves_cube (by positivity),←mul_pow,div_mul_div_comm,mul_comm (mask.n : ℝ),
      div_self (mul_pos two_pos size).ne',one_pow]
  have left := leaves_applied pool planned tall
  have restored := restores_applied pool square unit tall
  rw [←norm]
  by_cases wide : 2 ≤ mask.n
  · exact ⟨fun _ => .inl wide,fun _ => ⟨_,left,fun j col => applied_documented wide first second tall col,restored⟩⟩
  · have same : applied mask planned x = x := if_pos (by omega)
    have single := single_documented_iff (by omega) some positive unit first second third square x
    constructor
    · rintro ⟨y,left',documents,_⟩
      rw [left'.only left,same] at documents
      exact .inr (single.mp documents)
    · intro condition
      exact ⟨_,left,by rw [same]; exact single.mpr (condition.resolve_left wide),restored⟩

-- The transform as its sums, in any scratch.
noncomputable def cosinePlanned (n : Nat) : Planned ℝ n where
  scratchLen := n
  processDct4WithScratch row scratch := (fun i => ∑ k : Fin n, Cosine.dct4 n i k * row k,scratch)
  map := {
    toFun := fun row i => ∑ k : Fin n, Cosine.dct4 n i k * row k
    map_add' := fun v w => funext fun i => by
      simp only [Pi.add_apply,mul_add]
      exact Finset.sum_add_distrib
    map_smul' := fun c v => funext fun i => by
      simp only [Pi.smul_apply,smul_eq_mul,RingHom.id_apply,Finset.mul_sum]
      exact Finset.sum_congr rfl fun k _ => by ring }
  linear _ _ := rfl

theorem cosinePlanned_square (n : Nat) : (cosinePlanned n).map * (cosinePlanned n).map = ((n : ℝ) / 2) • 1 := by
  refine LinearMap.ext fun v => funext fun i => ?_
  show ∑ k : Fin n, Cosine.dct4 n i k * ∑ j : Fin n, Cosine.dct4 n k j * v j = (n : ℝ) / 2 * v i
  have product : ∀ j : Fin n, ∑ k : Fin n, Cosine.dct4 n i k * Cosine.dct4 n k j = if i = j then (n : ℝ) / 2 else 0 := by
    intro j
    rw [Fin.sum_univ_eq_sum_range (fun k => Cosine.dct4 n i k * Cosine.dct4 n k j),Cosine.dct4_square i i.isLt j j.isLt]
    simp only [Fin.ext_iff]
  calc ∑ k : Fin n, Cosine.dct4 n i k * ∑ j : Fin n, Cosine.dct4 n k j * v j
      = ∑ j : Fin n, (∑ k : Fin n, Cosine.dct4 n i k * Cosine.dct4 n k j) * v j := by
        simp only [Finset.mul_sum,Finset.sum_mul]
        rw [Finset.sum_comm]
        exact Finset.sum_congr rfl fun j _ => Finset.sum_congr rfl fun k _ => (mul_assoc _ _ _).symm
    _ = (n : ℝ) / 2 * v i := by simp [product]

attribute [local instance] two_atLeastTwo three_atLeastTwo

def oneThread : Pool := ⟨Hd3.inOrder,fun _ => 0,0⟩

noncomputable def twoRows : Dct4Mask ℝ := ⟨2,[1,-1],[-1,1],[1,-1],(2 / (2 : Nat)) ^ ((3 : ℝ) / 2),Hd3.mixed_signs⟩

theorem dct4_mask_exact_iff_two_rows : ∃ y : Array2 ℝ, Leaves oneThread twoRows (cosinePlanned 2) (identity 2) y := by
  have whole := dct4_mask_exact_iff oneThread twoRows (cosinePlanned 2) (by decide) rfl ⟨rfl,by simp [twoRows]⟩ ⟨rfl,by simp [twoRows]⟩
    ⟨rfl,by simp [twoRows]⟩ (cosinePlanned_square 2) (identity 2) rfl
  obtain ⟨y,left,_⟩ := whole.mpr (.inl (Nat.le_refl 2))
  exact ⟨y,left⟩

noncomputable def oneRow : Dct4Mask ℝ := ⟨1,[-1],[1],[1],(2 / (1 : Nat)) ^ ((3 : ℝ) / 2),by simp⟩

-- One row under the sign minus one goes out unmasked.
theorem single_row_goes_out_plain :
    Leaves oneThread oneRow (cosinePlanned 1) (identity 1) (identity 1) ∧ column 1 (identity 1) 0 ≠
      documented (cosinePlanned 1).map oneRow.d1 oneRow.d2 oneRow.d3 ((2 / (1 : Nat)) ^ ((3 : ℝ) / 2)) (column 1 (identity 1) 0) := by
  have left : Leaves oneThread oneRow (cosinePlanned 1) (identity 1) _ := leaves_applied oneThread (cosinePlanned 1) rfl
  rw [show applied oneRow (cosinePlanned 1) (identity 1) = identity 1 from if_pos (show 1 < 2 by decide)] at left
  refine ⟨left,fun same => ?_⟩
  have value : (cosinePlanned 1).map 1 0 = Real.cos (Real.pi / 4) := by
    show ∑ k : Fin 1, Cosine.dct4 1 (0 : Fin 1) k * 1 = _
    rw [Fin.sum_univ_one,mul_one,Cosine.dct4]
    congr 1
    simp only [Fin.val_zero,Nat.cast_zero,Nat.cast_one]
    ring
  have positive : 0 < Real.cos (Real.pi / 4) := Real.cos_pos_of_mem_Ioo ⟨by linarith [Real.pi_pos],by linarith [Real.pi_pos]⟩
  have entry := (congrFun same 0).trans (documented_single rfl _ _ _ _ _ _ 0)
  rw [value] at entry
  have one : column 1 (identity (F:=ℝ) 1) 0 0 = 1 := rfl
  rw [one] at entry
  have scale : (0 : ℝ) < (2 / (1 : Nat)) ^ ((3 : ℝ) / 2) := by positivity
  have below : (2 / (1 : Nat) : ℝ) ^ ((3 : ℝ) / 2) * (1 * (1 * (-1 * Real.cos (Real.pi / 4) * Real.cos (Real.pi / 4)) *
      Real.cos (Real.pi / 4))) * 1 < 0 := by
    have cubed : 0 < (2 / (1 : Nat) : ℝ) ^ ((3 : ℝ) / 2) * (Real.cos (Real.pi / 4)) ^ 3 := by positivity
    linarith
  have sum : (1 : ℝ) = (2 / (1 : Nat) : ℝ) ^ ((3 : ℝ) / 2) * (1 * (1 * (-1 * Real.cos (Real.pi / 4) * Real.cos (Real.pi / 4)) *
      Real.cos (Real.pi / 4))) * 1 := entry
  linarith

end Dct4
end Gelo
