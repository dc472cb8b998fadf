import GeloLightrag.Foundation.Cosine
import GeloLightrag.Gelo.Mask
import Mathlib.Analysis.Real.Sqrt
import Mathlib.Algebra.BigOperators.Intervals

set_option linter.unusedSectionVars false

namespace Gelo
open Foundation Array2 Walsh Orthonormal

-- Exact arithmetic: the roots are roots, and the cosine transform of type IV is
-- its own inverse up to n/2.
class ExactPlatform (F : Type) [Field F] [LinearOrder F] [IsStrictOrderedRing F] [Platform F] : Prop where
  sqrt_square : ∀ x : F, 0 ≤ x → Platform.sqrt x * Platform.sqrt x = x
  threeHalves_square : ∀ x : F, 0 < x → Platform.threeHalves x * Platform.threeHalves x = x ^ 3
  dct4_square : ∀ n, ∀ i < n, ∀ j < n,
    ∑ k ∈ Finset.range n, Platform.dct4 n i k * Platform.dct4 n k j = if i = j then (n : F) / ((2 : Nat) : F) else 0

section Orthogonality
variable {F : Type} [Field F] [LinearOrder F] [IsStrictOrderedRing F] [Platform F]

-- What makes the transpose of a mask undo it.
def MaskFamily.Orthogonal : MaskFamily F → Prop
  | .haar mask => Columns mask.a.nrows mask.a.entry
  | .hd3 mask => mask.invNorm * mask.invNorm * (mask.n : F) ^ 3 = 1
  | .dct4 mask => 0 < mask.n ∧ mask.invNorm * mask.invNorm * ((mask.n : F) / ((2 : Nat) : F)) ^ 3 = 1

theorem vBuf_unit {a : Nat → F} {x length : F} (low : k < n) (positive : 0 < length)
    (root : length * length = x * x + ∑ i ∈ Finset.Ico (k+1) n, a i * a i) :
    ∑ l ∈ Finset.range n, vBuf k x length a l * vBuf k x length a l = 1 := by
  have above : ∑ l ∈ Finset.range k, vBuf k x length a l * vBuf k x length a l = 0 :=
    Finset.sum_eq_zero fun l member => by
      unfold vBuf
      rw [if_pos (Finset.mem_range.mp member),zero_mul]
  have below : ∑ l ∈ Finset.Ico (k+1) n, vBuf k x length a l * vBuf k x length a l =
      (∑ l ∈ Finset.Ico (k+1) n, a l * a l) / (length * length) := by
    rw [Finset.sum_div]
    refine Finset.sum_congr rfl fun l member => ?_
    have after := (Finset.mem_Ico.mp member).1
    unfold vBuf
    rw [if_neg (by omega),if_neg (by omega),div_mul_div_comm]
  have here : vBuf k x length a k * vBuf k x length a k = x * x / (length * length) := by
    unfold vBuf
    rw [if_neg (Nat.lt_irrefl k),if_pos rfl,div_mul_div_comm]
  calc ∑ l ∈ Finset.range n, vBuf k x length a l * vBuf k x length a l
      = (x * x + ∑ l ∈ Finset.Ico (k+1) n, a l * a l) / (length * length) := by
        rw [←Finset.sum_range_add_sum_Ico _ (Nat.le_of_lt low),Finset.sum_eq_sum_Ico_succ_bot low,above,below,here,
          zero_add,add_div]
    _ = 1 := by rw [←root]; exact div_self (mul_pos positive positive).ne'

theorem householder_columns [ExactPlatform F] {a q : Nat → Nat → F} (low : k < n) (columns : Columns n q) :
    Columns n (householder n (a,q) k).2 := by
  simp only [householder]
  generalize (if 0 ≤ a k k then (1 : F) else -1) = sign
  generalize a k k - -sign * Platform.sqrt (∑ i ∈ Finset.Ico k n, a i k * a i k) = x
  split
  · exact columns
  · split
    · exact columns
    · rename_i long
      have squares : 0 ≤ x * x + ∑ i ∈ Finset.Ico (k+1) n, a i k * a i k :=
        add_nonneg (mul_self_nonneg x) (Finset.sum_nonneg fun i _ => mul_self_nonneg (a i k))
      exact reflect_columns columns (vBuf_unit low (lt_of_lt_of_le (by positivity) (le_of_not_gt long))
        (ExactPlatform.sqrt_square _ squares))

theorem factored_columns [ExactPlatform F] (steps : List Nat) {aq : (Nat → Nat → F) × (Nat → Nat → F)}
    (low : ∀ k ∈ steps, k < n) (columns : Columns n aq.2) : Columns n (steps.foldl (householder n) aq).2 := by
  induction steps generalizing aq with
  | nil => exact columns
  | cons k rest ih =>
    exact ih (fun k later => low k (List.mem_cons_of_mem _ later))
      (householder_columns (low k List.mem_cons_self) columns)

theorem haar_orthogonal [ExactPlatform F] (n : Nat) (rng : ChaCha20Rng) :
    (MaskFamily.haar (GeloMask.fresh (F:=F) n rng).1).Orthogonal := by
  intro i low j low'
  have columns : Columns n ((List.range (n - 1)).foldl (householder (F:=F) n)
      (fun i j => (Platform.normals (n * n) (rng.words F)).1 (i * n + j),eye)).2 :=
    factored_columns _ (fun k member => by have := List.mem_range.mp member; omega) (eye_columns n)
  have signs := signed_columns columns (fun i => decide (((List.range (n - 1)).foldl (householder (F:=F) n)
      (fun i j => (Platform.normals (n * n) (rng.words F)).1 (i * n + j),eye)).1 i i < 0)) i low j low'
  rw [←signs]
  refine Finset.sum_congr rfl fun r member => ?_
  have inside := Finset.mem_range.mp member
  have entries : ∀ c < n, (GeloMask.fresh (F:=F) n rng).1.a.entry r c = signed (fun i =>
      decide (((List.range (n - 1)).foldl (householder (F:=F) n)
        (fun i j => (Platform.normals (n * n) (rng.words F)).1 (i * n + j),eye)).1 i i < 0))
      ((List.range (n - 1)).foldl (householder (F:=F) n)
        (fun i j => (Platform.normals (n * n) (rng.words F)).1 (i * n + j),eye)).2 r c :=
    fun c small => of_entry inside small
  rw [entries i low,entries j low']

theorem hd3_orthogonal [ExactPlatform F] {rng : ChaCha20Rng} {drawn : Hd3Mask F × ChaCha20Rng}
    (fresh : Hd3Mask.fresh n rng = .ok drawn) : (MaskFamily.hd3 drawn.1).Orthogonal ∧ drawn.1.n = n := by
  unfold Hd3Mask.fresh at fresh
  split at fresh
  · rename_i power
    cases fresh
    refine ⟨?_,rfl⟩
    obtain ⟨m,size⟩ := nextPowerOfTwo_power n
    have positive : (0 : F) < n := by rw [←power,size]; exact_mod_cast Nat.two_pow_pos m
    have root := ExactPlatform.threeHalves_square (n : F) positive
    have filled : Platform.threeHalves (n : F) ≠ 0 := by
      intro zero
      rw [zero,zero_mul] at root
      exact (pow_pos positive 3).ne root
    show 1 / Platform.threeHalves (n : F) * (1 / Platform.threeHalves (n : F)) * (n : F) ^ 3 = 1
    rw [←root]
    field_simp
  · cases fresh

theorem dct4_orthogonal [ExactPlatform F] {rng : ChaCha20Rng} {drawn : Dct4Mask F × ChaCha20Rng}
    (fresh : Dct4Mask.fresh n rng = .ok drawn) : (MaskFamily.dct4 drawn.1).Orthogonal ∧ drawn.1.n = n := by
  unfold Dct4Mask.fresh at fresh
  split at fresh
  · rename_i some
    cases fresh
    refine ⟨⟨some,?_⟩,rfl⟩
    have positive : (0 : F) < n := by exact_mod_cast some
    have root := ExactPlatform.threeHalves_square (2 / (n : F)) (by positivity)
    show Platform.threeHalves (2 / (n : F)) * Platform.threeHalves (2 / (n : F)) * ((n : F) / 2) ^ 3 = 1
    rw [root,←mul_pow,div_mul_div_comm,mul_comm (n : F),div_self (mul_pos two_pos positive).ne',one_pow]
  · cases fresh

theorem sampleMask_orthogonal [ExactPlatform F] {rng : ChaCha20Rng} {drawn : MaskFamily F × ChaCha20Rng}
    (sampled : sampleMask resolved n rng = .ok drawn) : drawn.1.Orthogonal ∧ drawn.1.n = n := by
  cases resolved with
  | haar => cases sampled; exact ⟨haar_orthogonal n rng,rfl⟩
  | hd3 =>
    unfold sampleMask at sampled
    cases fresh : Hd3Mask.fresh (F:=F) n rng with
    | ok mask => rw [fresh] at sampled; cases sampled; exact hd3_orthogonal fresh
    | error e => rw [fresh] at sampled; cases sampled
  | dct4 =>
    unfold sampleMask at sampled
    cases fresh : Dct4Mask.fresh (F:=F) n rng with
    | ok mask => rw [fresh] at sampled; cases sampled; exact dct4_orthogonal fresh
    | error e => rw [fresh] at sampled; cases sampled
  | auto => cases sampled

theorem haar_unmask {mask : GeloMask F} (columns : (MaskFamily.haar mask).Orthogonal) {x : Array2 F}
    (tall : x.nrows = mask.a.nrows) (w : Array2 F) : mask.a.transpose.dot ((mask.a.dot x).dot w) = x.dot w := by
  have square := mask.square
  have asMap : ∀ (a y : Array2 F), a.nrows = y.nrows → a.ncols = y.nrows → a.dot y = onColumns (kernel y.nrows a.entry) y := by
    intro a y rows cols
    refine eq_of rows rfl ?_
    intro i row j col
    rw [dot_entry (show j < y.ncols from col),onColumns_entry (show i < y.nrows from rows ▸ row) (show j < y.ncols from col),cols]
    exact (if_pos (show i < y.nrows from rows ▸ row)).symm
  have turned : mask.a.transpose.dot ((mask.a.dot x).dot w) =
      onColumns (kernel x.nrows mask.a.transpose.entry) ((onColumns (kernel x.nrows mask.a.entry) x).dot w) := by
    rw [asMap mask.a x tall.symm (square.trans tall.symm)]
    exact asMap _ _ (square.trans tall.symm) tall.symm
  rw [turned]
  refine unmask_dot (local_kernel _ _) ?_ rfl w
  intro v i small
  have product := kernel_mul (c:=1) (n:=x.nrows) mask.a.transpose.entry mask.a.entry fun i low j low' => by
    rw [←columns i (tall ▸ low) j (tall ▸ low'),tall]
    refine Finset.sum_congr rfl fun k member => ?_
    rw [show mask.a.transpose.entry i k = mask.a.entry k i from
      of_entry (square ▸ tall ▸ low) (Finset.mem_range.mp member)]
  rw [←Module.End.mul_apply,product,one_smul]
  exact if_pos small

theorem hd3_unmask {mask : Hd3Mask F} (orthogonal : (MaskFamily.hd3 mask).Orthogonal) {x : Array2 F}
    (tall : x.nrows = mask.n) (w : Array2 F) :
    fwhtRowsInplace (applyDiagInplace mask.d1 (fwhtRowsInplace (applyDiagInplace mask.d2 (fwhtRowsInplace
      (applyDiagScaledInplace mask.d3 mask.invNorm ((applyDiagScaledInplace mask.d3 mask.invNorm (fwhtRowsInplace
        (applyDiagInplace mask.d2 (fwhtRowsInplace (applyDiagInplace mask.d1 (fwhtRowsInplace x)))))).dot w)))))) =
      x.dot w := by
  obtain ⟨m,power⟩ := mask.power
  have stages : transform (F:=F) x.nrows x.nrows 1 = walsh 0 m := by
    rw [tall,power]
    exact transform_walsh m (2 ^ m) 0 (Nat.zero_le m) (by rw [Nat.zero_add]; exact Nat.le_of_lt Nat.lt_two_pow_self)
  have near : Local x.nrows (transform (F:=F) x.nrows x.nrows 1) := by
    rw [stages,tall,power]
    exact local_walsh 0 m (by omega)
  have twice : transform (F:=F) x.nrows x.nrows 1 * transform x.nrows x.nrows 1 = ((2 ^ m : Nat) : F) • 1 := by
    rw [stages]; exact walsh_twice 0 m
  have unit : mask.invNorm * mask.invNorm * ((2 ^ m : Nat) : F) ^ 3 = 1 := by
    rw [←power]
    exact orthogonal
  simp only [fwhtRowsInplace,applyDiagInplace,applyDiagScaledInplace,onColumns_nrows,dot_nrows]
  generalize transform (F:=F) x.nrows x.nrows 1 = stage at near twice ⊢
  exact unmask_cascade near (local_flip _ _) (local_flip _ _) (local_scaled _ _) twice (one_mul _) (flip_twice _)
    (flip_twice _) (scaled_twice (signs_even mask.signs mask.invNorm)) (by rw [one_mul,mul_one]) (by rw [one_mul,mul_one])
    (fun _ _ _ => rfl) unit rfl w

theorem dct4_unmask [ExactPlatform F] {mask : Dct4Mask F} (orthogonal : (MaskFamily.dct4 mask).Orthogonal) {x : Array2 F}
    (tall : x.nrows = mask.n) (w : Array2 F) :
    processDct4 (applyDiagInplace mask.d1 (processDct4 (applyDiagInplace mask.d2 (processDct4
      (applyDiagScaledInplace mask.d3 mask.invNorm ((applyDiagScaledInplace mask.d3 mask.invNorm (processDct4
        (applyDiagInplace mask.d2 (processDct4 (applyDiagInplace mask.d1 (processDct4 x)))))).dot w)))))) =
      x.dot w := by
  have unit := orthogonal.2
  rw [←tall] at unit
  simp only [processDct4,applyDiagInplace,applyDiagScaledInplace,onColumns_nrows,dot_nrows]
  exact unmask_cascade (local_kernel _ _) (local_flip _ _) (local_flip _ _) (local_scaled _ _)
    (kernel_mul _ _ (ExactPlatform.dct4_square x.nrows)) (cut_kernel _ _) (flip_twice _) (flip_twice _)
    (scaled_twice (signs_even mask.signs mask.invNorm)) (cut_flip _ _) (cut_flip _ _) (fun _ _ small => if_pos small)
    unit rfl w

-- Masking an operand, multiplying on the masked side and unmasking.
theorem MaskFamily.unmask [ExactPlatform F] {mask : MaskFamily F} (orthogonal : mask.Orthogonal) {x : Array2 F}
    (tall : x.nrows = mask.n) : ∃ u, mask.apply x = .ok u ∧ u.nrows = x.nrows ∧ u.ncols = x.ncols ∧
      ∀ w, mask.unapplyTake (u.dot w) = .ok (x.dot w) := by
  cases mask with
  | haar mask =>
    refine ⟨mask.a.dot x,if_pos tall,tall.symm,rfl,fun w => ?_⟩
    rw [←haar_unmask orthogonal tall w]
    exact if_pos rfl
  | hd3 mask =>
    refine ⟨_,if_pos tall,rfl,rfl,fun w => ?_⟩
    rw [←hd3_unmask orthogonal tall w]
    exact if_pos tall
  | dct4 mask =>
    by_cases tiny : mask.n < 2
    · refine ⟨x,(if_pos tall).trans (if_pos tiny),rfl,rfl,fun w => ?_⟩
      exact (if_pos (show (x.dot w).nrows = mask.n from tall)).trans (if_pos tiny)
    · refine ⟨_,(if_pos tall).trans (if_neg tiny),rfl,rfl,fun w => ?_⟩
      rw [←dct4_unmask orthogonal tall w]
      exact (if_pos tall).trans (if_neg tiny)

end Orthogonality

-- The reals compute exactly, whatever the generators yield.
noncomputable abbrev realPlatform (chachaWord : Bytes → Nat → Nat → Nat) (xoshiroBytes : Bytes → Nat → Nat → Bytes)
    (normals : Nat → (Nat → Nat) → (Nat → ℝ) × Nat) (polar : Nat → Xoshiro256PlusPlus → (Nat → ℝ) × Nat)
    (probe : Nat → (Nat → Nat) → (Nat → Int) × Nat) : Platform ℝ where
  chachaWord := chachaWord
  xoshiroBytes := xoshiroBytes
  sqrt := Real.sqrt
  threeHalves x := x * Real.sqrt x
  normals := normals
  polar := polar
  probe := probe
  dct4 := Cosine.dct4

theorem real_exact (chachaWord : Bytes → Nat → Nat → Nat) (xoshiroBytes : Bytes → Nat → Nat → Bytes)
    (normals : Nat → (Nat → Nat) → (Nat → ℝ) × Nat) (polar : Nat → Xoshiro256PlusPlus → (Nat → ℝ) × Nat)
    (probe : Nat → (Nat → Nat) → (Nat → Int) × Nat) :
    @ExactPlatform ℝ _ _ _ (realPlatform chachaWord xoshiroBytes normals polar probe) := by
  letI := realPlatform chachaWord xoshiroBytes normals polar probe
  refine ⟨fun x positive => Real.mul_self_sqrt positive,fun x positive => ?_,fun n => Cosine.dct4_square⟩
  show x * Real.sqrt x * (x * Real.sqrt x) = x ^ 3
  rw [mul_mul_mul_comm,Real.mul_self_sqrt positive.le]
  ring

-- Generators that yield zeros.
noncomputable instance quietPlatform : Platform ℝ :=
  realPlatform (fun _ _ _ => 0) (fun _ _ count => List.replicate count 0) (fun _ _ => (fun _ => 0,0))
    (fun _ _ => (fun _ => 0,16)) (fun _ _ => (fun _ => 0,0))

instance quiet_exact : ExactPlatform ℝ := real_exact _ _ _ _ _

end Gelo
