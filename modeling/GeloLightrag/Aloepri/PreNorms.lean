import GeloLightrag.Aloepri.Equivalence

namespace Aloepri
open Foundation Matrix

section Gemma4
variable {file : Gguf ℝ} {h : Nat} {kappaE : ℝ} {libraries : Libraries ℝ}

theorem gemma4_site {nLayer : Nat} {site : TensorName × TensorName} (among : site ∈ fusionSites Gemma4.tables nLayer) :
    site.1.stripped ∉ Gemma4.tables.postNormNames := by
  have pre : ∀ entry ∈ Gemma4.tables.perBlockFusionMap ++ Gemma4.tables.globalFusionMap, entry.1 ∉ Gemma4.tables.postNormNames := by decide
  rcases List.mem_append.mp among with inner | outer
  · obtain ⟨il,_,inner⟩ := List.mem_flatMap.mp inner
    obtain ⟨norm,targets,target,entry,is,rfl⟩ := mem_fusionTargets.mp inner
    exact pre _ (List.mem_append_left _ entry)
  · obtain ⟨norm,targets,target,entry,is,rfl⟩ := mem_fusionTargets.mp outer
    exact pre _ (List.mem_append_right _ entry)

-- The norm and the linear of a site, as they are written.
theorem gemma4_written {file' : Gguf ℝ} {arrays plain : Arrays ℝ} (rewritten : RewrittenAs Gemma4.rewriter libraries .keymat h file arrays file')
    (tied : untied Gemma4.rewriter file.arrays = .ok plain) {site : TensorName × TensorName} (among : site ∈ fusionSites Gemma4.tables file.blockCount)
    {m : Nat} {gamma : Fin file.embeddingLength → ℝ} {linear : Matrix (Fin m) (Fin file.embeddingLength) ℝ}
    (norm : plain site.1 = some (.vec gamma)) (target : plain site.2 = some (.mat linear)) :
    file'.arrays site.1 = some (.vec fun _ : Fin (file.embeddingLength + 2 * h) => kappaOf libraries .keymat file.embeddingLength h) ∧
      file'.arrays site.2 = some (.mat (scaledColumns linear (fun i => gamma i / kappaOf libraries .keymat file.embeddingLength h) *
        (libraries.buildKeymatTransform file.embeddingLength h).inverseᵀ)) := by
  have ran := rewritten.from_
  unfold fused at ran
  rw [if_neg (by decide),tied] at ran
  obtain ⟨kept,fused⟩ := fuseAll_left gemma4_scales gemma4_sound ran
  obtain ⟨first,second⟩ := gemma4_sound.site among
  have norm' : arrays site.1 = some (.vec gamma) := (kept site.1 (by rw [show classify (Gemma4.rewriter : Rewriter ℝ).tables site.1 = .norm from first]; decide)).trans norm
  have target' := fused site among gamma linear norm target
  refine ⟨rewritten.gives norm' ?_,rewritten.gives target' ?_⟩
  · unfold transformed
    rw [show classify (Gemma4.rewriter : Rewriter ℝ).tables site.1 = .norm from first]
    dsimp only [normArray]
    rw [if_neg (by rw [decide_eq_true_eq]; exact gemma4_site among)]
    rfl
  · unfold transformed
    rw [show classify (Gemma4.rewriter : Rewriter ℝ).tables site.2 = .ne0Read from second]
    exact matmulRight_mat _ _

-- Kappa stands on the norm and divides the linear too, so that a site reads the plain
-- value over kappa.
theorem gemma4_pre_norm_agrees (conforms : Conforms libraries file.embeddingLength h kappaE) (arch : file.architecture = "gemma4")
    (shaped : file.WellShaped Gemma4.tables) (embd : file.arrays tokenEmbd ≠ none) :
    ∃ file' plain, rewriteGguf Gemma4.rewriter libraries .keymat h file = .ok file' ∧ untied Gemma4.rewriter file.arrays = .ok plain ∧
      ∀ site ∈ fusionSites Gemma4.tables file.blockCount, ∀ {m : Nat} (gamma : Fin file.embeddingLength → ℝ) (linear : Matrix (Fin m) (Fin file.embeddingLength) ℝ),
        plain site.1 = some (.vec gamma) → plain site.2 = some (.mat linear) →
        ∃ (gamma' : Fin (file.embeddingLength + 2 * h) → ℝ) (linear' : Matrix (Fin m) (Fin (file.embeddingLength + 2 * h)) ℝ),
          file'.arrays site.1 = some (.vec gamma') ∧ file'.arrays site.2 = some (.mat linear') ∧
          ∀ x, x ≠ 0 →
            (linear' *ᵥ rmsNorm (rmsScale (file.embeddingLength + 2 * h) 0) gamma' (x ᵥ* (libraries.buildKeymatTransform file.embeddingLength h).key) =
                linear *ᵥ rmsNorm (rmsScale file.embeddingLength 0) gamma x ↔
              kappaE ^ 2 * file.embeddingLength = ((file.embeddingLength + 2 * h : Nat) : ℝ) ∨ scaledColumns linear gamma *ᵥ x = 0) := by
  obtain ⟨file',arrays,ran,rewritten,_⟩ := rewriteGguf_ok gemma4_scales gemma4_sound libraries arch shaped .keymat h fun _ _ => embd
  obtain ⟨plain,tied⟩ : ∃ plain, untied (Gemma4.rewriter : Rewriter ℝ) file.arrays = .ok plain := by
    unfold untied
    obtain ⟨e,is⟩ := Option.ne_none_iff_exists'.mp embd
    rw [is]
    split <;> exact ⟨_,rfl⟩
  refine ⟨file',plain,ran,tied,fun site among m gamma linear norm target => ?_⟩
  obtain ⟨norm',target'⟩ := gemma4_written rewritten tied among norm target
  refine ⟨_,_,norm',target',fun x row => ?_⟩
  have some_ : 0 < file.embeddingLength := by
    rcases Nat.eq_zero_or_pos file.embeddingLength with none_ | some_
    · refine absurd (funext fun i => ?_) row
      exact absurd i.2 (by omega)
    · exact some_
  rw [read_divided conforms some_]
  exact divided_agrees conforms row linear

end Gemma4

def small : Gguf ℝ where
  architecture := "gemma4"
  embeddingLength := 1
  blockCount := 1
  headCount := 1
  headCountKv := 1
  keyLength := 1
  layerNormRmsEpsilon := 0
  ropeFreqBase := 1
  tensors := [(tokenEmbd,.mat (fun (_ : Fin 1) (_ : Fin 1) => 1)),(⟨some 0,"attn_norm.weight"⟩,.vec fun _ : Fin 1 => 1),
    (⟨some 0,"attn_q.weight"⟩,.mat (fun (_ : Fin 1) (_ : Fin 1) => 1))]

theorem small_shaped : small.WellShaped Gemma4.tables := by
  intro name arr held
  obtain ⟨before_,after_,is,_⟩ := List.lookup_eq_some_iff.mp held
  have among : (name,arr) ∈ small.tensors := by
    rw [is]
    exact List.mem_append_right _ List.mem_cons_self
  simp only [small,List.mem_cons,List.not_mem_nil,or_false] at among
  rcases among with same | same | same
  · cases same
    exact ⟨_,_,rfl⟩
  · cases same
    exact ⟨_,rfl⟩
  · cases same
    exact ⟨_,_,rfl⟩

theorem gemma4_pre_norm_agrees_small : ∃ file' plain, rewriteGguf Gemma4.rewriter plainLibraries .keymat 1 small = .ok file' ∧
    untied Gemma4.rewriter small.arrays = .ok plain := by
  obtain ⟨file',plain,ran,tied,_⟩ := @gemma4_pre_norm_agrees small 1 _ plainLibraries plain_conforms rfl small_shaped (by exact Option.some_ne_none _)
  exact ⟨file',plain,ran,tied⟩

theorem gemma4_pre_norm_differs_small : ∃ (file' : Gguf ℝ) (gamma' : Fin 3 → ℝ) (linear' : Matrix (Fin 1) (Fin 3) ℝ),
    rewriteGguf Gemma4.rewriter plainLibraries .keymat 1 small = .ok file' ∧ file'.arrays ⟨some 0,"attn_norm.weight"⟩ = some (.vec gamma') ∧
      file'.arrays ⟨some 0,"attn_q.weight"⟩ = some (.mat linear') ∧
      linear' *ᵥ rmsNorm (rmsScale 3 0) gamma' ((fun _ : Fin 1 => 1) ᵥ* (plainLibraries.buildKeymatTransform 1 1).key) ≠
        (fun (_ : Fin 1) (_ : Fin 1) => (1 : ℝ)) *ᵥ rmsNorm (rmsScale 1 0) (fun _ => 1) fun _ : Fin 1 => 1 := by
  obtain ⟨file',arrays,ran,rewritten,_⟩ := @rewriteGguf_ok ℝ _ Gemma4.rewriter _ gemma4_scales gemma4_sound plainLibraries small rfl small_shaped .keymat 1
    fun _ _ => Option.some_ne_none _
  have tied : untied (Gemma4.rewriter : Rewriter ℝ) small.arrays = .ok (Function.update small.arrays outputHead (some (.mat (fun (_ : Fin 1) (_ : Fin 1) => (1 : ℝ))))) := rfl
  have among : (TensorName.mk (some 0) "attn_norm.weight",TensorName.mk (some 0) "attn_q.weight") ∈ fusionSites Gemma4.tables small.blockCount := by decide
  obtain ⟨norm,target⟩ := @gemma4_written small 1 plainLibraries _ _ _ rewritten tied _ among 1 (fun _ : Fin 1 => (1 : ℝ)) (fun (_ : Fin 1) (_ : Fin 1) => (1 : ℝ)) rfl rfl
  refine ⟨file',_,_,ran,norm,target,fun same => ?_⟩
  have row : (fun _ : Fin 1 => (1 : ℝ)) ≠ 0 := fun none_ => one_ne_zero (congrFun none_ 0)
  have divided := read_divided plain_conforms Nat.one_pos (fun _ : Fin 1 => (1 : ℝ)) (fun _ : Fin 1 => (1 : ℝ)) fun (_ : Fin 1) (_ : Fin 1) => (1 : ℝ)
  rcases (divided_agrees plain_conforms row _).mp (divided.symm.trans same) with balanced | none_
  · norm_num at balanced
  · have one : ∑ i : Fin 1, (1 : ℝ) * (1 : ℝ) * (1 : ℝ) = 0 := congrFun none_ 0
    norm_num at one

end Aloepri
