import GeloLightrag.Aloepri.Preservation
import Mathlib.Tactic.NormNum

namespace Aloepri
open Foundation Matrix

section Wide
variable {d h m : Nat} {eps : ℝ}

-- A mean over more entries than there are gives another scale to every row that is not
-- zero, or none to both.
theorem wide_scale {squares : ℝ} (some_ : 0 < squares) (wide : 1 ≤ h) (entries : 0 < d) (same : rmsScale (d + 2 * h) eps squares = rmsScale d eps squares) :
    rmsScale d eps squares = 0 := by
  have narrow : (0 : ℝ) < d := Nat.cast_pos.mpr entries
  have less : squares / ((d + 2 * h : Nat) : ℝ) + eps < squares / d + eps :=
    add_lt_add_left (div_lt_div_of_pos_left some_ narrow (Nat.cast_lt.mpr (by omega))) eps
  unfold rmsScale at same ⊢
  rw [one_div,one_div] at same
  by_cases positive : 0 < squares / d + eps
  · exact absurd (inv_injective same) ((Real.sqrt_lt_sqrt_iff_of_pos positive).mpr less).ne
  · rw [Real.sqrt_eq_zero_of_nonpos (not_lt.mp positive),div_zero]

theorem wide_scale_zero {squares : ℝ} (some_ : 0 ≤ squares) (entries : 0 < d) (none_ : rmsScale d eps squares = 0) : rmsScale (d + 2 * h) eps squares = 0 := by
  have narrow : (0 : ℝ) < d := Nat.cast_pos.mpr entries
  have less : squares / ((d + 2 * h : Nat) : ℝ) + eps ≤ squares / d + eps :=
    add_le_add_left (div_le_div_of_nonneg_left some_ narrow (Nat.cast_le.mpr (by omega))) eps
  unfold rmsScale at none_ ⊢
  rw [one_div,inv_eq_zero,Real.sqrt_eq_zero'] at none_
  rw [Real.sqrt_eq_zero_of_nonpos (less.trans none_),div_zero]

theorem wide_head (wide : 1 ≤ h) (gamma x : Fin d → ℝ) (linear : Matrix (Fin m) (Fin d) ℝ) :
    linear *ᵥ rmsNorm (rmsScale (d + 2 * h) eps) gamma x = linear *ᵥ rmsNorm (rmsScale d eps) gamma x ↔ linear *ᵥ rmsNorm (rmsScale d eps) gamma x = 0 := by
  rw [read_plain,read_plain]
  by_cases zero : x = 0
  · rw [zero,mulVec_zero,smul_zero,smul_zero]
  · have entries : 0 < d := by
      rcases Nat.eq_zero_or_pos d with rfl | entries
      · exact absurd (Subsingleton.elim x 0) zero
      · exact entries
    have some_ := Conforms.squares_pos zero
    constructor
    · intro same
      by_cases none_ : scaledColumns linear gamma *ᵥ x = 0
      · rw [none_,smul_zero]
      · have equal : rmsScale (d + 2 * h) eps (x ⬝ᵥ x) = rmsScale d eps (x ⬝ᵥ x) := smul_left_injective ℝ none_ same
        rw [wide_scale some_ wide entries equal,zero_smul]
    · intro none_
      rcases smul_eq_zero.mp none_ with scale | rows
      · rw [scale,wide_scale_zero some_.le entries scale]
      · rw [rows,smul_zero,smul_zero]

variable {s : Sizes} {n : Nat}

-- A model with zeros behind its residual runs as the plain one whose norms divide by the
-- wide length.
theorem padded_runs (model : Qwen3 s d) (tokens : Fin n → Fin s.vocab) (k : Nat) :
    (model.under (padPass (2 * h))).residual tokens k = (fun i => padVec (2 * h) (model.residualBy (rmsScale (d + 2 * h) model.layerNormRmsEpsilon) tokens k i)) ∧
      (model.under (padPass (2 * h))).logits tokens = model.logitsBy (rmsScale (d + 2 * h) model.layerNormRmsEpsilon) tokens :=
  ⟨(padPass_sound (2 * h) _).residual model tokens k,(padPass_sound (2 * h) _).logits model tokens⟩

theorem padded_agrees (wide : 1 ≤ h) (model : Qwen3 s d) (tokens : Fin n → Fin s.vocab) :
    (∀ k ≤ s.blockCount, (model.under (padPass (2 * h))).residual tokens k = fun i => padVec (2 * h) (model.residual tokens k i)) ∧
        (model.under (padPass (2 * h))).logits tokens = model.logits tokens ↔
      (∀ k < s.blockCount, model.stage (rmsScale (d + 2 * h) model.layerNormRmsEpsilon) k (model.residual tokens k) = model.residual tokens (k + 1)) ∧
        model.logits tokens = 0 := by
  have agree : (∀ k ≤ s.blockCount, (model.under (padPass (2 * h))).residual tokens k = fun i => padVec (2 * h) (model.residual tokens k i)) ↔
      ∀ k ≤ s.blockCount, model.residualBy (rmsScale (d + 2 * h) model.layerNormRmsEpsilon) tokens k = model.residual tokens k := by
    refine forall₂_congr fun k _ => ?_
    rw [(padded_runs model tokens k).1]
    exact ⟨fun same => funext fun i => padVec_injective (congrFun same i),fun same => by rw [same]⟩
  rw [agree,(padded_runs model tokens 0).2]
  unfold Qwen3.residual Qwen3.residualBy
  rw [passed_agree]
  refine and_congr_right fun next => ?_
  have last : model.residualBy (rmsScale (d + 2 * h) model.layerNormRmsEpsilon) tokens s.blockCount = model.residual tokens s.blockCount :=
    passed_agree.mpr next _ (le_refl _)
  unfold Qwen3.logits Qwen3.logitsBy
  rw [last,funext_iff,funext_iff]
  exact forall_congr' fun i => wide_head wide model.outputNorm _ model.output

end Wide

section Silent
variable {s : Sizes} {w : Nat}

-- A block that writes nothing.
def silent : Block s w where
  attnNorm := fun _ => 1
  attnQ := 0
  attnK := 0
  attnV := 0
  attnQNorm := fun _ => 1
  attnKNorm := fun _ => 1
  attnOutput := 0
  ffnNorm := fun _ => 1
  ffnGate := 0
  ffnUp := 0
  ffnDown := 0

theorem silent_runs {n : Nat} (scale : ℝ → ℝ) (m : Qwen3 s w) (stream : Fin n → Fin w → ℝ) :
    ((silent : Block s w).ffn scale).run (((silent : Block s w).attn scale m).run stream) = stream := by
  have attn : ((silent : Block s w).attn scale m).run stream = stream := by
    funext i
    have nothing : ((silent : Block s w).attn (n:=n) scale m).write = 0 := funext fun o => zero_mulVec o
    rw [Sublayer.run,nothing,Pi.zero_apply,add_zero]
  have ffn : ((silent : Block s w).ffn scale).run stream = stream := by
    funext i
    have nothing : ((silent : Block s w).ffn (n:=n) scale).write = 0 := funext fun o => zero_mulVec o
    rw [Sublayer.run,nothing,Pi.zero_apply,add_zero]
  rw [attn,ffn]

-- One word, one number for it, and that number for its logit.
def echo : Qwen3 ⟨1,1,1,1,1,1⟩ 1 where
  layerNormRmsEpsilon := 0
  ropeFreqBase := 1
  tokenEmbd := fun _ _ => 1
  block := fun _ => silent
  outputNorm := fun _ => 1
  output := fun _ _ => 1

theorem echo_residual {n : Nat} (tokens : Fin n → Fin 1) (k : Nat) : echo.residual tokens k = fun _ _ => 1 := by
  induction k with
  | zero => rfl
  | succ k ih =>
      show echo.stage echo.scale k (echo.residual tokens k) = _
      rw [ih]
      unfold Qwen3.stage
      split
      · exact silent_runs _ _ _
      · rfl

theorem echo_logits {n : Nat} (tokens : Fin n → Fin 1) : echo.logits tokens = fun _ _ => 1 := by
  funext i v
  show (echo.output *ᵥ rmsNorm echo.scale echo.outputNorm (echo.residual tokens 1 i)) v = 1
  rw [echo_residual]
  show ∑ j : Fin 1, (1 : ℝ) * ((1 : ℝ) * rmsScale 1 0 (∑ j : Fin 1, (1 : ℝ) * (1 : ℝ)) * (1 : ℝ)) = 1
  rw [Fin.sum_univ_one,Fin.sum_univ_one,rmsScale]
  norm_num

end Silent

section Modes
variable {s : Sizes} {d h : Nat} {file : Gguf ℝ} {m : Qwen3 s d}

theorem identity_pad_agrees (holds : Holds file m) (libraries : Libraries ℝ) (wide : 1 ≤ h) :
    ∃ file' m', rewriteGguf Qwen3.rewriter libraries .identityPad h file = .ok file' ∧ Holds file' (m' : Qwen3 s (d + 2 * h)) ∧
      ∀ {n : Nat} (tokens : Fin n → Fin s.vocab),
        (∀ k ≤ s.blockCount, m'.residual tokens k = fun i => padVec (2 * h) (m.residual tokens k i)) ∧ m'.logits tokens = m.logits tokens ↔
          (∀ k < s.blockCount, m.stage (rmsScale (d + 2 * h) m.layerNormRmsEpsilon) k (m.residual tokens k) = m.residual tokens (k + 1)) ∧ m.logits tokens = 0 := by
  obtain ⟨file',ran,holds'⟩ := identityPad_holds holds libraries h
  exact ⟨file',_,ran,holds',fun tokens => padded_agrees wide m tokens⟩

-- No key is sampled outside the keymat mode.
noncomputable def plainLibraries : Libraries ℝ where
  buildKeymatTransform := fun _ _ => ⟨of fun i j => if j.1 = i.1 then 1 else 0,of fun j i => if j.1 = i.1 then 1 else 0⟩
  standardNormal := fun _ _ _ => 1
  sqrt := Real.sqrt

theorem identity_pad_agrees_echo : ∃ file' m', rewriteGguf Qwen3.rewriter plainLibraries .identityPad 1 (fileOf echo) = .ok file' ∧
    Holds file' (m' : Qwen3 ⟨1,1,1,1,1,1⟩ 3) := by
  obtain ⟨file',m',ran,holds,_⟩ := identity_pad_agrees (h:=1) (holds_fileOf echo) plainLibraries (le_refl 1)
  exact ⟨file',m',ran,holds⟩

theorem identity_pad_changes_echo : ∃ file' m', rewriteGguf Qwen3.rewriter plainLibraries .identityPad 1 (fileOf echo) = .ok file' ∧
    Holds file' (m' : Qwen3 ⟨1,1,1,1,1,1⟩ 3) ∧
      ¬ ((∀ k ≤ 1, m'.residual (fun _ : Fin 1 => 0) k = fun i => padVec 2 (echo.residual (fun _ => 0) k i)) ∧
        m'.logits (fun _ : Fin 1 => 0) = echo.logits fun _ => 0) := by
  obtain ⟨file',ran,holds⟩ := identityPad_holds (holds_fileOf echo) plainLibraries 1
  refine ⟨file',_,ran,holds,fun same => ?_⟩
  have none_ := ((padded_agrees (h:=1) (le_refl 1) echo fun _ : Fin 1 => 0).mp same).2
  have one := congrFun (congrFun (echo_logits fun _ : Fin 1 => 0) 0) 0
  rw [none_] at one
  exact zero_ne_one one

-- Every norm's gains go into the linears behind it, and one gain stays.
theorem gamma_only_same (holds : Holds file m) (libraries : Libraries ℝ) (h : Nat) :
    ∃ file' m', rewriteGguf Qwen3.rewriter libraries .gammaOnly h file = .ok file' ∧ Holds file' (m' : Qwen3 s d) ∧
      (∀ k, (m'.block k).attnNorm = (fun _ => 1) ∧ (m'.block k).ffnNorm = fun _ => 1) ∧ m'.outputNorm = (fun _ => 1) ∧
      ∀ {n : Nat} (tokens : Fin n → Fin s.vocab), (∀ k, m'.residual tokens k = m.residual tokens k) ∧ m'.logits tokens = m.logits tokens := by
  obtain ⟨file',ran,holds'⟩ := gammaOnly_holds holds libraries h
  exact ⟨file',_,ran,holds',fun k => ⟨rfl,rfl⟩,rfl,fun tokens =>
    ⟨fun k => (gammaPass_sound m.scale).residual m tokens k,(gammaPass_sound m.scale).logits m tokens⟩⟩

theorem gamma_only_same_echo : ∃ file' m', rewriteGguf Qwen3.rewriter plainLibraries .gammaOnly 0 (fileOf echo) = .ok file' ∧
    Holds file' (m' : Qwen3 ⟨1,1,1,1,1,1⟩ 1) ∧ m'.logits (fun _ : Fin 1 => 0) = echo.logits fun _ => 0 := by
  obtain ⟨file',m',ran,holds,_,_,same⟩ := gamma_only_same (holds_fileOf echo) plainLibraries 0
  exact ⟨file',m',ran,holds,(same _).2⟩

theorem plain_conforms : Conforms plainLibraries 1 1 1 where
  root := rfl
  inverse := by
    ext i j
    fin_cases i; fin_cases j
    simp [plainLibraries,mul_apply]
  gain := by
    ext i j
    fin_cases i; fin_cases j
    simp [plainLibraries,mul_apply]
  ofNorms := zero_le_one
  drawn := fun _ none_ => one_ne_zero (congrFun none_ 0)

end Modes
end Aloepri
