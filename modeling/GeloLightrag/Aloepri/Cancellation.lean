import GeloLightrag.Aloepri.Alg2
import Mathlib.Analysis.SpecialFunctions.Log.Basic
import Mathlib.Analysis.SpecialFunctions.Trigonometric.Basic
import Mathlib.Tactic.FieldSimp
import Mathlib.Tactic.Linarith

namespace Aloepri
open Foundation Matrix
attribute [local instance] two_atLeastTwo hundred_atLeastTwo

section Windows
variable {R F : Type} [Field F] [LinearOrder F] [Numpy R F] {numBlocks beta : Nat}

-- No pair is as far as the width of a window from its place.
def Banded (beta : Nat) (perm : List Nat) : Prop := ∀ i v : Nat, perm[i]? = some v → v < i + beta ∧ i < v + beta

-- The blocks so far are the first ones, each window within itself.
structure Windowed (numBlocks beta : Nat) (start : Nat) (permBlocks : List Nat) : Prop where
  within : start ≤ numBlocks
  perm : permBlocks.Perm (List.range start)
  banded : Banded beta permBlocks

theorem Windowed.extend {start c : Nat} {permBlocks window : List Nat} (windowed : Windowed numBlocks beta start permBlocks)
    (fits : start + c ≤ numBlocks) (wide : c ≤ beta) (shuffled : window.Perm (List.range' start c)) :
    Windowed numBlocks beta (start + c) (permBlocks ++ window) := by
  refine ⟨fits,?_,fun i v at_ => ?_⟩
  · have whole : List.range (start + c) = List.range start ++ List.range' start c := by
      rw [List.range_add,List.range'_eq_map_range]
    rw [whole]
    exact windowed.perm.append shuffled
  · have size : permBlocks.length = start := windowed.perm.length_eq.trans List.length_range
    have size' : window.length = c := shuffled.length_eq.trans List.length_range'
    by_cases early : i < start
    · rw [List.getElem?_append_left (by omega)] at at_
      exact windowed.banded i v at_
    · rw [List.getElem?_append_right (by omega)] at at_
      obtain ⟨inside,_⟩ := List.getElem?_eq_some_iff.mp at_
      obtain ⟨low,high⟩ := List.mem_range'_1.mp (shuffled.mem_iff.mp (List.mem_of_getElem? at_))
      omega

theorem Windowed.here {start : Nat} {permBlocks : List Nat} (windowed : Windowed numBlocks beta start permBlocks) (more : start < numBlocks)
    (wide : 0 < beta) : Windowed numBlocks beta (start + 1) (permBlocks ++ [start]) :=
  windowed.extend more wide (.refl _)

-- Every draw leaves each sampler with all blocks in windows.
theorem windows_left (wide : 0 < beta) (gamma ropeBase : F) (mode : BlockPermMode) (based : mode = .fixedWindow ∨ 0 < ropeBase) (rng : R) :
    ∃ turns perm, permBlocks R numBlocks beta gamma ropeBase mode turns rng = some (.ok perm) ∧ Windowed numBlocks beta numBlocks perm := by
  have begun : Windowed numBlocks beta 0 [] := ⟨Nat.zero_le _,.refl _,fun i v at_ => by cases at_⟩
  let invariant := fun s : Nat × List Nat × R => Windowed numBlocks beta s.1 s.2.1
  cases mode with
  | fixedWindow =>
      refine leaves_with invariant (fun s => numBlocks - s.1) (Windowed numBlocks beta numBlocks) begun fun s windowed => ?_
      obtain ⟨start,permBlocks,rng⟩ := s
      dsimp only [invariant] at windowed ⊢
      unfold fixedTurn
      by_cases more : start < numBlocks
      · refine .inr ⟨_,if_pos more,windowed.extend (by omega) (Nat.min_le_left _ _) (Numpy.shuffle_perm _ _),?_⟩
        dsimp only
        omega
      · refine .inl ⟨permBlocks,if_neg more,?_⟩
        rwa [Nat.le_antisymm windowed.within (Nat.not_lt.mp more)] at windowed
  | dynamicWindow =>
      have positive : 0 < ropeBase := based.resolve_left nofun
      refine leaves_with invariant (fun s => numBlocks - s.1) (Windowed numBlocks beta numBlocks) begun fun s windowed => ?_
      obtain ⟨start,permBlocks,rng⟩ := s
      dsimp only [invariant] at windowed ⊢
      unfold dynamicTurn
      by_cases more : start < numBlocks
      · refine .inr ?_
        dsimp only
        rw [if_pos more]
        by_cases single : min beta (numBlocks - start) = 1
        · rw [if_pos single]
          refine ⟨_,rfl,windowed.here more wide,?_⟩
          dsimp only
          omega
        · have drawn : ∃ probs, windowWeights R numBlocks gamma ropeBase start (min beta (numBlocks - start)) = .ok probs ∧
              probs.length = min beta (numBlocks - start) := by
            refine ⟨_,if_neg (not_le.mpr positive),?_⟩
            simp only [List.length_map,List.length_range]
          obtain ⟨probs,weighed,size⟩ := drawn
          rw [if_neg single,weighed]
          have some_ : probs ≠ [] := List.ne_nil_of_length_pos (by omega)
          have chosen := Numpy.choice_within (F:=F) rng probs some_
          refine ⟨_,rfl,windowed.extend (by omega) (by omega) (Numpy.shuffle_perm _ _),?_⟩
          dsimp only
          omega
      · refine .inl ⟨permBlocks,if_neg more,?_⟩
        rwa [Nat.le_antisymm windowed.within (Nat.not_lt.mp more)] at windowed

end Windows

section Refusal
variable {R F : Type} [Field F] [LinearOrder F] [Numpy R F]

-- The paper's sampler has no weights for a base without a logarithm.
theorem dynamicWindow_refuses {numBlocks seed turns : Nat} {beta : Int} {gamma ropeBase : F} (several : 2 ≤ numBlocks) (wide : 2 ≤ beta)
    (base : ropeBase ≤ 0) (z : Matrix (Feature numBlocks) (Feature numBlocks) F) :
    generateBlockPerm R numBlocks beta gamma ropeBase seed .dynamicWindow turns ≠ some (.ok z) := by
  obtain ⟨b,wide',is⟩ : ∃ b, 2 ≤ b ∧ (max 1 (min beta numBlocks)).toNat = b := ⟨_,by omega,rfl⟩
  have refused : dynamicTurn R numBlocks b gamma ropeBase (0,[],Numpy.defaultRng F seed) = .error "Probabilities contain NaN" := by
    unfold dynamicTurn
    dsimp only
    rw [if_pos (by omega),if_neg (by omega),windowWeights,if_pos base]
    rfl
  unfold generateBlockPerm permBlocks
  dsimp only
  rw [is]
  intro answered
  cases turns with
  | zero => cases answered
  | succ turns =>
      rw [loop,refused] at answered
      cases answered

end Refusal

section Pairs
variable {F : Type} [Field F] {half : Nat}

def moved (F : Type) [Field F] {half : Nat} (perm : Equiv.Perm (Fin half)) : Matrix (Fin half) (Fin half) F :=
  of fun target original => if perm original = target then 1 else 0

-- A permutation of the pairs, over both their halves.
def pairs (F : Type) [Field F] {half : Nat} (perm : Equiv.Perm (Fin half)) : Matrix (Feature half) (Feature half) F :=
  fromBlocks (moved F perm) 0 0 (moved F perm)

theorem moved_mul (p r : Equiv.Perm (Fin half)) : moved F p * moved F r = moved F (p * r) := by
  ext target original
  rw [mul_apply,Finset.sum_eq_single (r original)]
  · exact (congrArg (_ * ·) (if_pos rfl)).trans (mul_one _)
  · exact fun k _ other => (congrArg (_ * ·) (if_neg fun same => other same.symm)).trans (mul_zero _)
  · exact fun absent => absurd (Finset.mem_univ _) absent

theorem moved_transpose (p : Equiv.Perm (Fin half)) : (moved F p)ᵀ = moved F p⁻¹ := by
  ext target original
  exact if_congr (by rw [Equiv.Perm.inv_eq_iff_eq,eq_comm]) rfl rfl

theorem moved_one : moved F (1 : Equiv.Perm (Fin half)) = 1 := by
  ext target original
  exact if_congr eq_comm rfl rfl

theorem moved_injective {p r : Equiv.Perm (Fin half)} (same : moved F p = moved F r) : p = r := by
  ext original
  have entry : (if p original = p original then (1 : F) else 0) = if r original = p original then 1 else 0 :=
    congrFun (congrFun same (p original)) original
  rw [if_pos rfl] at entry
  by_contra other
  rw [if_neg fun equal => other (congrArg Fin.val equal.symm)] at entry
  exact one_ne_zero entry

theorem pairs_mul (p r : Equiv.Perm (Fin half)) : pairs F p * pairs F r = pairs F (p * r) := by
  rw [pairs,pairs,fromBlocks_multiply,moved_mul]
  simp only [Matrix.zero_mul,Matrix.mul_zero,add_zero,zero_add]
  rfl

theorem pairs_transpose (p : Equiv.Perm (Fin half)) : (pairs F p)ᵀ = pairs F p⁻¹ := by
  rw [pairs,fromBlocks_transpose,moved_transpose,transpose_zero,pairs]

theorem pairs_one : pairs F (1 : Equiv.Perm (Fin half)) = 1 := by rw [pairs,moved_one,fromBlocks_one]

theorem pairs_injective {p r : Equiv.Perm (Fin half)} (same : pairs F p = pairs F r) : p = r :=
  moved_injective (fromBlocks_inj.mp same).1

theorem pairs_orthogonal (p : Equiv.Perm (Fin half)) : pairs F p * (pairs F p)ᵀ = 1 := by
  rw [pairs_transpose,pairs_mul,mul_inv_cancel,pairs_one]

theorem shuffled_equiv {n : Nat} {perm : List Nat} (shuffled : perm.Perm (List.range n)) :
    ∃ p : Equiv.Perm (Fin n), ∀ i : Fin n, perm[i.1]? = some (p i).1 := by
  have size : perm.length = n := shuffled.length_eq.trans List.length_range
  have inside : ∀ i : Fin n, ∃ v : Fin n, perm[i.1]? = some v.1 := by
    intro i
    have inside : i.1 < perm.length := size.symm ▸ i.2
    have there : perm[i.1]? = some perm[i.1] := List.getElem?_eq_getElem _
    exact ⟨⟨_,List.mem_range.mp (shuffled.mem_iff.mp (List.mem_of_getElem? there))⟩,there⟩
  choose value at_ using inside
  have injective : Function.Injective value := by
    intro i j same
    have nodup : perm.Nodup := shuffled.nodup_iff.mpr List.nodup_range
    have twice : perm[i.1]? = perm[j.1]? := by rw [at_,at_,same]
    exact Fin.ext ((List.getElem?_inj (by rw [size]; exact i.2) nodup).mp twice)
  exact ⟨Equiv.ofBijective value (Finite.injective_iff_bijective.mp injective),at_⟩

-- The list of a sampler is a permutation of the pairs.
theorem blockMatrix_pairs {perm : List Nat} {beta : Nat} (windowed : Windowed half beta half perm) :
    ∃ p : Equiv.Perm (Fin half), blockMatrix half perm = pairs F p ∧ ∀ i, (p i).1 < i.1 + beta ∧ i.1 < (p i).1 + beta := by
  obtain ⟨p,at_⟩ := shuffled_equiv windowed.perm
  refine ⟨p,?_,fun i => windowed.banded i _ (at_ i)⟩
  unfold blockMatrix pairs
  dsimp only
  congr 1
  all_goals
    ext target original
    refine if_congr ?_ rfl rfl
    rw [at_,Option.some.injEq,Fin.ext_iff]

end Pairs

section Rotations
variable {F : Type} [Field F] {half : Nat} {c s : Fin half → F}

-- A turn and a stretch of each pair, as a matrix on rows.
def turned (c s : Fin half → F) : Matrix (Feature half) (Feature half) F :=
  fromBlocks (diagonal c) (diagonal fun i => -s i) (diagonal s) (diagonal c)

def stretched (h : Fin half → F) : Matrix (Feature half) (Feature half) F := diagonal (Sum.elim h h)

theorem stretched_blocks (h : Fin half → F) : stretched h = fromBlocks (diagonal h) 0 0 (diagonal h) := (fromBlocks_diagonal h h).symm

theorem turned_orthogonal (unit : ∀ i, c i * c i + s i * s i = 1) : turned c s * (turned c s)ᵀ = 1 := by
  rw [turned,fromBlocks_transpose,fromBlocks_multiply]
  simp only [diagonal_transpose,diagonal_mul_diagonal,diagonal_add]
  rw [←fromBlocks_one,←diagonal_one,←diagonal_zero]
  congr 1
  all_goals
    congr 1
    funext i
    first
    | linear_combination unit i
    | ring

theorem turned_stretched (c s h : Fin half → F) : turned c s * stretched h = turned (fun i => c i * h i) fun i => s i * h i := by
  rw [turned,stretched_blocks,fromBlocks_multiply]
  simp only [diagonal_mul_diagonal,Matrix.mul_zero,add_zero,zero_add,neg_mul]
  rfl

theorem stretched_mul (h h' : Fin half → F) : stretched h * stretched h' = stretched fun i => h i * h' i := by
  rw [stretched,stretched,diagonal_mul_diagonal,stretched]
  congr 1
  funext i
  cases i <;> rfl

theorem stretched_transpose (h : Fin half → F) : (stretched h)ᵀ = stretched h := diagonal_transpose _

theorem stretched_cancel {h : Fin half → F} (some_ : ∀ i, h i ≠ 0) : stretched h * stretched (fun i => (h i)⁻¹) = 1 := by
  rw [stretched_mul,stretched,←diagonal_one]
  congr 1
  funext i
  cases i with
  | inl i => exact mul_inv_cancel₀ (some_ i)
  | inr i => exact mul_inv_cancel₀ (some_ i)

theorem linalgInv_eq {ι : Type} [Fintype ι] [DecidableEq ι] {m n : Matrix ι ι F} (inverse : m * n = 1) : linalgInv m = n := by
  have volume : m.det ≠ 0 := by
    intro none_
    have one := congrArg det inverse
    rw [det_mul,none_,zero_mul,det_one] at one
    exact zero_ne_one one
  have left : linalgInv m * m = 1 := by rw [linalgInv,Matrix.smul_mul,adjugate_mul,smul_smul,inv_mul_cancel₀ volume,one_smul]
  calc linalgInv m = linalgInv m * (m * n) := by rw [inverse,Matrix.mul_one]
    _ = n := by rw [←Matrix.mul_assoc,left,Matrix.one_mul]

theorem turned_row (c s : Fin half → F) (x : Feature half → F) :
    x ᵥ* turned c s = Sum.elim (fun i => x (.inl i) * c i + x (.inr i) * s i) fun i => x (.inr i) * c i - x (.inl i) * s i := by
  rw [turned,vecMul_fromBlocks]
  congr 1
  · funext i
    rw [Pi.add_apply,vecMul_diagonal,vecMul_diagonal]
    rfl
  · funext i
    rw [Pi.add_apply,vecMul_diagonal,vecMul_diagonal,Function.comp_apply,Function.comp_apply]
    ring

-- Turns of one plane commute.
theorem rope_turned (cos sin : F → F) (invFreq : Fin half → F) (position : F) (c s : Fin half → F) (x : Feature half → F) :
    ropeNeox cos sin invFreq position (x ᵥ* turned c s) = ropeNeox cos sin invFreq position x ᵥ* turned c s := by
  rw [turned_row,turned_row]
  funext i
  cases i with
  | inl i =>
      simp only [ropeNeox,Sum.elim_inl,Sum.elim_inr]
      ring
  | inr i =>
      simp only [ropeNeox,Sum.elim_inl,Sum.elim_inr]
      ring

theorem dot_cancel {ι : Type} [Fintype ι] [DecidableEq ι] {m n : Matrix ι ι F} (cancel : m * nᵀ = 1) (x y : ι → F) : (x ᵥ* m) ⬝ᵥ (y ᵥ* n) = x ⬝ᵥ y := by
  calc (x ᵥ* m) ⬝ᵥ (y ᵥ* n) = x ⬝ᵥ (m *ᵥ (nᵀ *ᵥ y)) := by rw [mulVec_transpose,dotProduct_mulVec]
    _ = x ⬝ᵥ y := by rw [mulVec_mulVec,cancel,one_mulVec]

end Rotations

section Keys
variable {R : Type} [Numpy R ℝ] {headDim seed : Nat} {config : LayerConfig ℝ}

theorem generated_rotation (seed : Nat) (even : headDim % 2 = 0) : ∃ c s : Fin (headDim / 2) → ℝ,
    generateRQk R headDim seed = .ok (turned c s) ∧ ∀ i, c i * c i + s i * s i = 1 :=
  ⟨_,_,if_neg (not_not.mpr even),fun _ => Numpy.cos_sin _⟩

theorem generated_stretch (seed : Nat) (even : headDim % 2 = 0) {range : ℝ × ℝ} {signed : Bool} (scaled : signed = true ∨ 0 < range.1 ∧ range.1 ≤ range.2) :
    ∃ h : Fin (headDim / 2) → ℝ, generateHQk R headDim range seed signed = .ok (stretched h) ∧ ∀ i, h i ≠ 0 := by
  unfold generateHQk
  rw [if_neg (not_not.mpr even)]
  cases signed with
  | true =>
      refine ⟨_,rfl,fun i => ?_⟩
      rcases Numpy.signs_unit (F:=ℝ) (Numpy.defaultRng ℝ seed : R) (headDim / 2) i with one | minus
      · rw [one]
        exact one_ne_zero
      · rw [minus]
        exact neg_ne_zero.mpr one_ne_zero
  | false =>
      obtain ⟨low,high⟩ := scaled.resolve_left nofun
      rw [if_neg nofun,if_neg (by rw [not_or,not_or,not_le,not_le,not_lt]; exact ⟨low,lt_of_lt_of_le low high,high⟩)]
      exact ⟨_,rfl,fun i => ne_of_gt (lt_of_lt_of_le low (Numpy.uniform_within (F:=ℝ) (Numpy.defaultRng ℝ seed : R) _ _ _ i high).1)⟩

theorem generated_perm (seed numBlocks : Nat) (beta : Int) (gamma ropeBase : ℝ) (mode : BlockPermMode) (based : mode = .fixedWindow ∨ 0 < ropeBase) :
    ∃ turns, ∃ perm : Equiv.Perm (Fin numBlocks),
      generateBlockPerm R numBlocks beta gamma ropeBase seed mode turns = some (.ok (pairs ℝ perm)) ∧
        ∀ i, |((perm i).1 : Int) - i.1| < max beta 1 := by
  have wide : 0 < (max 1 (min beta numBlocks)).toNat := by omega
  obtain ⟨turns,blocks,looped,windowed⟩ := windows_left wide gamma ropeBase mode based (Numpy.defaultRng ℝ seed : R)
  obtain ⟨perm,same,near⟩ := blockMatrix_pairs (F:=ℝ) windowed
  refine ⟨turns,perm,?_,fun i => ?_⟩
  · unfold generateBlockPerm
    rw [looped,←same]
    rfl
  · have close := near i
    rw [abs_lt]
    omega

theorem generated_keys (seed : Nat) (even : headDim % 2 = 0)
    (scaled : config.hHadamardSigns = true ∨ 0 < config.qkScaleRange.1 ∧ config.qkScaleRange.1 ≤ config.qkScaleRange.2)
    (based : config.blockPermMode = .fixedWindow ∨ 0 < config.ropeBase) :
    ∃ turns, ∃ keys : LayerAlg2Keys ℝ headDim, ∃ perm : Equiv.Perm (Fin (headDim / 2)), ∃ c s h : Fin (headDim / 2) → ℝ,
      generateBlockPerm R (headDim / 2) config.beta config.gamma config.ropeBase (seed + 3) config.blockPermMode turns = some (.ok (pairs ℝ perm)) ∧
      buildLayerKeys R headDim seed config turns = some (.ok keys) ∧ (∀ i, |((perm i).1 : Int) - i.1| < max config.beta 1) ∧
      (∀ i, c i * c i + s i * s i = 1) ∧ (∀ i, h i ≠ 0) ∧ keys.qMatrix = turned c s * stretched h * pairs ℝ perm ∧
      keys.kMatrix = kFactor config (turned c s) (stretched fun i => (h i)⁻¹) (pairs ℝ perm) := by
  obtain ⟨c,s,rotated,unit⟩ := generated_rotation (R:=R) (seed + 1) even
  obtain ⟨h,stretch,some_⟩ := generated_stretch (R:=R) (seed + 2) even scaled
  obtain ⟨turns,perm,sampled,near⟩ := generated_perm (R:=R) (seed + 3) (headDim / 2) config.beta config.gamma config.ropeBase config.blockPermMode based
  have built : ∃ keys, buildLayerKeys R headDim seed config turns = some (.ok keys) ∧ keys.qMatrix = turned c s * stretched h * pairs ℝ perm ∧
      keys.kMatrix = kFactor config (turned c s) (linalgInv (stretched h)) (pairs ℝ perm) := by
    unfold buildLayerKeys
    rw [rotated,stretch,sampled]
    exact ⟨_,rfl,rfl,rfl⟩
  obtain ⟨keys,made,query,key⟩ := built
  exact ⟨turns,keys,perm,c,s,h,sampled,made,near,unit,some_,query,by rw [key,linalgInv_eq (stretched_cancel some_)]⟩

end Keys

section Cancelling
variable {half : Nat} {c s h : Fin half → ℝ} {perm : Equiv.Perm (Fin half)}

theorem sandwich_eq_one {ι : Type} [Fintype ι] [DecidableEq ι] {u v x : Matrix ι ι ℝ} (inverse : u * v = 1) : u * x * v = 1 ↔ x = 1 := by
  have inverse' : v * u = 1 := mul_eq_one_comm.mp inverse
  constructor
  · intro one
    calc x = v * u * x * (v * u) := by rw [inverse',Matrix.one_mul,Matrix.mul_one]
      _ = v * (u * x * v) * u := by simp only [Matrix.mul_assoc]
      _ = 1 := by rw [one,Matrix.mul_one,inverse']
  · rintro rfl
    rw [Matrix.mul_one,inverse]

-- What is left of the product of the keys between the outer rotations.
theorem keys_product (z : Matrix (Feature half) (Feature half) ℝ) :
    turned c s * stretched h * pairs ℝ perm * (turned c s * stretched (fun i => (h i)⁻¹) * z)ᵀ =
      turned c s * (stretched h * (pairs ℝ perm * zᵀ) * stretched fun i => (h i)⁻¹) * (turned c s)ᵀ := by
  rw [transpose_mul,transpose_mul,stretched_transpose]
  simp only [Matrix.mul_assoc]

theorem keys_cancel_default (unit : ∀ i, c i * c i + s i * s i = 1) (some_ : ∀ i, h i ≠ 0) :
    turned c s * stretched h * pairs ℝ perm * (turned c s * stretched (fun i => (h i)⁻¹) * pairs ℝ perm)ᵀ = 1 := by
  rw [keys_product,pairs_orthogonal,Matrix.mul_one,stretched_cancel some_,Matrix.mul_one,turned_orthogonal unit]

-- The transpose in the literal key leaves the square of the permutation.
theorem keys_cancel_literal (unit : ∀ i, c i * c i + s i * s i = 1) (some_ : ∀ i, h i ≠ 0) :
    turned c s * stretched h * pairs ℝ perm * (turned c s * stretched (fun i => (h i)⁻¹) * (pairs ℝ perm)ᵀ)ᵀ = 1 ↔ perm * perm = 1 := by
  rw [keys_product,transpose_transpose,pairs_mul,sandwich_eq_one (turned_orthogonal unit),sandwich_eq_one (stretched_cancel some_),←pairs_one]
  exact ⟨pairs_injective,congrArg (pairs ℝ)⟩

end Cancelling

-- The keys' rotations are those of the pairs, so that they pass through the code's own.
def Commutes {half : Nat} (cos sin : ℝ → ℝ) (m : Matrix (Feature half) (Feature half) ℝ) : Prop :=
  ∀ (invFreq : Fin half → ℝ) (position : ℝ) (x : Feature half → ℝ), ropeNeox cos sin invFreq position (x ᵥ* m) = ropeNeox cos sin invFreq position x ᵥ* m

theorem alg2_keys_cancel {R : Type} [Numpy R ℝ] {headDim : Nat} (seed : Nat) (config : LayerConfig ℝ) (even : headDim % 2 = 0)
    (scaled : config.hHadamardSigns = true ∨ 0 < config.qkScaleRange.1 ∧ config.qkScaleRange.1 ≤ config.qkScaleRange.2)
    (based : config.blockPermMode = .fixedWindow ∨ 0 < config.ropeBase) :
    ∃ turns, ∃ keys : LayerAlg2Keys ℝ headDim, ∃ perm : Equiv.Perm (Fin (headDim / 2)),
      generateBlockPerm R (headDim / 2) config.beta config.gamma config.ropeBase (seed + 3) config.blockPermMode turns = some (.ok (pairs ℝ perm)) ∧
      buildLayerKeys R headDim seed config turns = some (.ok keys) ∧
      (∀ i, |((perm i).1 : Int) - i.1| < max config.beta 1) ∧
      (config.paperLiteralKNoR = false → config.paperLiteral = false → config.paperLiteralK = false → keys.qMatrix * keys.kMatrixᵀ = 1) ∧
      (config.paperLiteralKNoR = false → config.paperLiteral = true ∨ config.paperLiteralK = true →
        (keys.qMatrix * keys.kMatrixᵀ = 1 ↔ perm * perm = 1)) ∧
      (config.paperLiteralKNoR = false → perm = 1 →
        Commutes (Numpy.cos R) (Numpy.sin R) keys.qMatrix ∧ Commutes (Numpy.cos R) (Numpy.sin R) keys.kMatrix ∧
        ∀ (invFreq : Fin (headDim / 2) → ℝ) (i j : ℝ) (q k : Feature (headDim / 2) → ℝ),
          ropeNeox (Numpy.cos R) (Numpy.sin R) invFreq i (q ᵥ* keys.qMatrix) ⬝ᵥ ropeNeox (Numpy.cos R) (Numpy.sin R) invFreq j (k ᵥ* keys.kMatrix) =
            ropeNeox (Numpy.cos R) (Numpy.sin R) invFreq i q ⬝ᵥ ropeNeox (Numpy.cos R) (Numpy.sin R) invFreq j k) := by
  obtain ⟨turns,keys,perm,c,s,h,sampled,made,near,unit,some_,query,key⟩ := generated_keys (R:=R) seed even scaled based
  refine ⟨turns,keys,perm,sampled,made,near,fun rotated plain plain' => ?_,fun rotated literal => ?_,fun rotated still => ?_⟩
  · rw [query,key,kFactor,rotated,plain,plain']
    exact keys_cancel_default unit some_
  · rw [query,key,kFactor,rotated,if_neg nofun,if_pos literal]
    exact keys_cancel_literal unit some_
  · have key' : keys.kMatrix = turned c s * stretched fun i => (h i)⁻¹ := by
      rw [key,kFactor,rotated,still,pairs_one,transpose_one,ite_self,if_neg Bool.false_ne_true,Matrix.mul_one]
    have query' : keys.qMatrix = turned c s * stretched h := by rw [query,still,pairs_one,Matrix.mul_one]
    have commutes : ∀ h : Fin (headDim / 2) → ℝ, Commutes (Numpy.cos R) (Numpy.sin R) (turned c s * stretched h) := by
      intro h invFreq position x
      rw [turned_stretched]
      exact rope_turned _ _ _ _ _ _ x
    refine ⟨by rw [query']; exact commutes h,by rw [key']; exact commutes _,fun invFreq i j q k => ?_⟩
    have cancel := @keys_cancel_default _ c s h 1 unit some_
    rw [pairs_one,Matrix.mul_one,Matrix.mul_one] at cancel
    rw [query',key',commutes,commutes,dot_cancel cancel]

-- A generator that draws the first of what it may.
@[reducible] noncomputable def firstDraws : Numpy Nat ℝ where
  cos := Real.cos
  sin := Real.sin
  exp := Real.exp
  log := Real.log
  sqrt := Real.sqrt
  pi := Real.pi
  qr := fun m => (m,m)
  defaultRng := id
  uniform := fun rng low _ _ => (fun _ => low,rng + 1)
  standardNormal := fun rng _ => (fun _ => 0,rng + 1)
  signs := fun rng _ => (fun _ => 1,rng + 1)
  integers := fun rng low _ _ => (fun _ => low,rng + 1)
  shuffle := fun rng items => (items.reverse,rng + 1)
  choice := fun rng _ => (0,rng + 1)
  cos_sin := fun x => by rw [←pow_two,←pow_two]; exact Real.cos_sq_add_sin_sq x
  uniform_within := fun _ _ _ _ _ ordered => ⟨le_refl _,ordered⟩
  signs_unit := fun _ _ _ => .inl rfl
  integers_within := fun _ _ _ _ _ ordered => ⟨le_refl _,ordered⟩
  shuffle_perm := fun _ items => List.reverse_perm items
  choice_within := fun _ _ some_ => List.length_pos_iff.mpr some_

noncomputable def deployed : LayerConfig ℝ where
  numKvHeads := 8
  numGroups := 2
  qkScaleRange := (95 / 100,105 / 100)
  beta := 8
  gamma := 1000
  ropeBase := 1000000
  hHadamardSigns := false
  enableUVo := false
  uVoMode := .qrPerturb
  uVoPow2Exp := 1
  paperLiteral := false
  paperLiteralK := false
  paperLiteralUVo := false
  paperLiteralKNoR := false
  blockPermMode := .fixedWindow

theorem alg2_keys_cancel_deployed : ∃ turns, ∃ keys : LayerAlg2Keys ℝ 128,
    @buildLayerKeys ℝ _ _ Nat firstDraws 128 12345 deployed turns = some (.ok keys) ∧ keys.qMatrix * keys.kMatrixᵀ = 1 := by
  obtain ⟨turns,keys,_,_,made,_,cancel,_⟩ := @alg2_keys_cancel Nat firstDraws 128 12345 deployed (by decide)
    (.inr ⟨by norm_num [deployed],by norm_num [deployed]⟩) (.inl rfl)
  exact ⟨turns,keys,made,cancel rfl rfl rfl⟩

theorem dynamic_window_refuses_base :
    ¬ ∀ (numBlocks seed : Nat) (beta : Int) (gamma ropeBase : ℝ) (mode : BlockPermMode), ∃ turns z,
      @generateBlockPerm ℝ _ _ Nat firstDraws numBlocks beta gamma ropeBase seed mode turns = some (.ok z) := by
  intro claimed
  obtain ⟨turns,z,answered⟩ := claimed 2 0 2 1000 0 .dynamicWindow
  exact @dynamicWindow_refuses Nat ℝ _ _ firstDraws 2 0 turns 2 1000 0 (le_refl _) (le_refl _) (le_refl _) z answered

end Aloepri
