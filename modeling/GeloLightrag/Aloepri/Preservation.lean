import GeloLightrag.Aloepri.Covariance
import GeloLightrag.Aloepri.Shapes

namespace Aloepri
open Foundation Matrix

section Held
variable {s : Sizes} {w w' : Nat}

structure BlockHeld (arrays : Arrays ℝ) (k : Nat) (b : Block s w) : Prop where
  attnNorm : arrays ⟨some k,"attn_norm.weight"⟩ = some (.vec b.attnNorm)
  attnQ : arrays ⟨some k,"attn_q.weight"⟩ = some (.mat b.attnQ)
  attnK : arrays ⟨some k,"attn_k.weight"⟩ = some (.mat b.attnK)
  attnV : arrays ⟨some k,"attn_v.weight"⟩ = some (.mat b.attnV)
  attnQNorm : arrays ⟨some k,"attn_q_norm.weight"⟩ = some (.vec b.attnQNorm)
  attnKNorm : arrays ⟨some k,"attn_k_norm.weight"⟩ = some (.vec b.attnKNorm)
  attnOutput : arrays ⟨some k,"attn_output.weight"⟩ = some (.mat b.attnOutput)
  ffnNorm : arrays ⟨some k,"ffn_norm.weight"⟩ = some (.vec b.ffnNorm)
  ffnGate : arrays ⟨some k,"ffn_gate.weight"⟩ = some (.mat b.ffnGate)
  ffnUp : arrays ⟨some k,"ffn_up.weight"⟩ = some (.mat b.ffnUp)
  ffnDown : arrays ⟨some k,"ffn_down.weight"⟩ = some (.mat b.ffnDown)

structure Held (arrays : Arrays ℝ) (m : Qwen3 s w) : Prop where
  tokenEmbd : arrays tokenEmbd = some (.mat m.tokenEmbd)
  block : ∀ k : Fin s.blockCount, BlockHeld arrays k (m.block k)
  outputNorm : arrays ⟨none,"output_norm.weight"⟩ = some (.vec m.outputNorm)
  output : arrays outputHead = some (.mat m.output)

-- The file of a model, with a head of its own and every residual tensor as wide as the
-- residual.
structure Holds (file : Gguf ℝ) (m : Qwen3 s w) : Prop where
  architecture : file.architecture = "qwen3"
  embeddingLength : file.embeddingLength = w
  blockCount : file.blockCount = s.blockCount
  headCount : file.headCount = s.headCount
  headCountKv : file.headCountKv = s.headCountKv
  keyLength : file.keyLength = s.keyLength
  epsilon : file.layerNormRmsEpsilon = m.layerNormRmsEpsilon
  base : file.ropeFreqBase = m.ropeFreqBase
  arrays : Held file.arrays m
  shaped : file.WellShaped Qwen3.tables

end Held

section Files
variable {s : Sizes} {w : Nat}

def Block.arrays (b : Block s w) : List (String × Tensor ℝ) :=
  [("attn_norm.weight",.vec b.attnNorm),("attn_q.weight",.mat b.attnQ),("attn_k.weight",.mat b.attnK),("attn_v.weight",.mat b.attnV),
   ("attn_q_norm.weight",.vec b.attnQNorm),("attn_k_norm.weight",.vec b.attnKNorm),("attn_output.weight",.mat b.attnOutput),
   ("ffn_norm.weight",.vec b.ffnNorm),("ffn_gate.weight",.mat b.ffnGate),("ffn_up.weight",.mat b.ffnUp),("ffn_down.weight",.mat b.ffnDown)]

def Block.tensors (b : Block s w) (k : Nat) : List (TensorName × Tensor ℝ) := b.arrays.map fun entry => (⟨some k,entry.1⟩,entry.2)

def fileOf (m : Qwen3 s w) : Gguf ℝ where
  architecture := "qwen3"
  embeddingLength := w
  blockCount := s.blockCount
  headCount := s.headCount
  headCountKv := s.headCountKv
  keyLength := s.keyLength
  layerNormRmsEpsilon := m.layerNormRmsEpsilon
  ropeFreqBase := m.ropeFreqBase
  tensors := (tokenEmbd,.mat m.tokenEmbd) :: (⟨none,"output_norm.weight"⟩,.vec m.outputNorm) :: (outputHead,.mat m.output) ::
    (List.finRange s.blockCount).flatMap fun k => (m.block k).tensors k

theorem tensors_block {b : Block s w} {k : Nat} {entry : TensorName × Tensor ℝ} (among : entry ∈ b.tensors k) : entry.1.block = some k := by
  obtain ⟨_,_,rfl⟩ := List.mem_map.mp among
  rfl

theorem tensors_shaped {b : Block s w} {k : Nat} {entry : TensorName × Tensor ℝ} (among : entry ∈ b.tensors k) :
    Shaped w (classify Qwen3.tables entry.1) entry.2 := by
  obtain ⟨array,inside,rfl⟩ := List.mem_map.mp among
  simp only [Block.arrays,List.mem_cons,List.not_mem_nil,or_false] at inside
  rcases inside with rfl | rfl | rfl | rfl | rfl | rfl | rfl | rfl | rfl | rfl | rfl
  case inl => exact ⟨_,rfl⟩
  case inr.inr.inr.inr.inl => trivial
  case inr.inr.inr.inr.inr.inl => trivial
  case inr.inr.inr.inr.inr.inr.inr.inl => exact ⟨_,rfl⟩
  all_goals exact ⟨_,_,rfl⟩

theorem tensors_lookup (b : Block s w) (k : Nat) (stripped : String) : (b.tensors k).lookup ⟨some k,stripped⟩ = b.arrays.lookup stripped := by
  unfold Block.tensors
  induction b.arrays with
  | nil => rfl
  | cons entry entries ih =>
      rw [List.map_cons,List.lookup_cons,List.lookup_cons,ih]
      by_cases here : stripped = entry.1
      · rw [here,beq_self_eq_true,beq_self_eq_true]
      · rw [beq_false_of_ne here,beq_false_of_ne fun same => here (TensorName.mk.inj same).2]

-- Each block's tensors are found past those of the blocks before it.
theorem blocks_lookup {count : Nat} {blocks : Fin count → List (TensorName × Tensor ℝ)} (own : ∀ k, ∀ entry ∈ blocks k, entry.1.block = some k.1)
    (order : List (Fin count)) {k : Fin count} (listed : k ∈ order) {name : TensorName} (is : name.block = some k.1) :
    (order.flatMap blocks).lookup name = (blocks k).lookup name := by
  have others : ∀ k', k' ≠ k → (blocks k').lookup name = none := by
    intro k' other
    refine List.lookup_eq_none_iff.mpr fun entry among => bne_iff_ne.mpr fun same => other (Fin.ext ?_)
    have block := own k' entry among
    rw [←same,is] at block
    exact (Option.some.inj block).symm
  induction order with
  | nil => cases listed
  | cons first order ih =>
      rw [List.flatMap_cons,List.lookup_append]
      by_cases here : first = k
      · subst here
        cases found : (blocks first).lookup name with
        | some arr => rfl
        | none =>
            rw [Option.none_or]
            refine List.lookup_eq_none_iff.mpr fun entry among => ?_
            obtain ⟨k',_,among⟩ := List.mem_flatMap.mp among
            by_cases same : k' = first
            · exact List.lookup_eq_none_iff.mp found entry (same ▸ among)
            · exact List.lookup_eq_none_iff.mp (others k' same) entry among
      · rw [others first here,Option.none_or]
        exact ih ((List.mem_cons.mp listed).resolve_left fun same => here same.symm)

-- Every model has a file.
theorem holds_fileOf (m : Qwen3 s w) : Holds (fileOf m) m where
  architecture := rfl
  embeddingLength := rfl
  blockCount := rfl
  headCount := rfl
  headCountKv := rfl
  keyLength := rfl
  epsilon := rfl
  base := rfl
  arrays :=
    {tokenEmbd:=rfl
     outputNorm:=rfl
     output:=rfl
     block:=fun k => by
      have inner : ∀ stripped, (fileOf m).arrays ⟨some k,stripped⟩ = (m.block k).arrays.lookup stripped := fun stripped =>
        (blocks_lookup (fun k _ among => tensors_block among) _ (List.mem_finRange k) rfl).trans (tensors_lookup _ _ _)
      exact ⟨inner _,inner _,inner _,inner _,inner _,inner _,inner _,inner _,inner _,inner _,inner _⟩}
  shaped := by
    intro name arr held
    obtain ⟨before_,after_,is,_⟩ := List.lookup_eq_some_iff.mp held
    have among : (name,arr) ∈ (fileOf m).tensors := by
      rw [is]
      exact List.mem_append_right _ List.mem_cons_self
    rcases List.mem_cons.mp among with same | among
    · cases same
      exact ⟨_,_,rfl⟩
    rcases List.mem_cons.mp among with same | among
    · cases same
      exact ⟨_,rfl⟩
    rcases List.mem_cons.mp among with same | among
    · cases same
      exact ⟨_,_,rfl⟩
    obtain ⟨k,_,among⟩ := List.mem_flatMap.mp among
    exact tensors_shaped among

end Files

theorem qwen3_sound : Qwen3.tables.Sound := ⟨by decide,by decide,by decide,by decide,by unfold Separate; decide⟩

theorem gemma4_sound : Gemma4.tables.Sound := ⟨by decide,by decide,by decide,by decide,by unfold Separate; decide⟩

section Fused
variable {F : Type} [Field F] {r : Rewriter F} {by_ : F → F → F} {kappa : F} {arrays arrays' : Arrays F} {nLayer : Nat}

-- What the loops of the fusion leave.
theorem fuseAll_left (scales : r.Scales by_) (sound : r.tables.Sound)
    (ran : fuseAll (fun linear gamma => r.fuseGammaPre linear gamma kappa) (fusionSites r.tables nLayer) arrays = .ok arrays') :
    (∀ name, classify r.tables name ≠ .ne0Read → arrays' name = arrays name) ∧
      ∀ site ∈ fusionSites r.tables nLayer, ∀ {d m : Nat} (gamma : Fin d → F) (linear : Matrix (Fin m) (Fin d) F),
        arrays site.1 = some (.vec gamma) → arrays site.2 = some (.mat linear) →
        arrays' site.2 = some (.mat (scaledColumns linear fun i => by_ (gamma i) kappa)) := by
  obtain ⟨kept,fused⟩ := fuseAll_ok (fusionSites_apart sound.apart.1 sound.apart.2 nLayer) ran
  refine ⟨fun name other => kept name fun target => ?_,fun site among d m gamma linear norm target => ?_⟩
  · obtain ⟨site,among,rfl⟩ := List.mem_map.mp target
    exact other (sound.site among).2
  · obtain ⟨out,did,is⟩ := fused site among _ _ norm target
    rw [scales] at did
    cases did
    exact is

theorem perBlock_site {tables : Tables} {il : Nat} {norm target : String} {targets : List String} (within : il < nLayer)
    (entry : (norm,targets) ∈ tables.perBlockFusionMap) (among : target ∈ targets) :
    (TensorName.mk (some il) norm,TensorName.mk (some il) target) ∈ fusionSites tables nLayer :=
  List.mem_append_left _ (List.mem_flatMap.mpr ⟨il,List.mem_range.mpr within,mem_fusionTargets.mpr ⟨norm,targets,target,entry,among,rfl⟩⟩)

theorem global_site {tables : Tables} {norm target : String} {targets : List String} (entry : (norm,targets) ∈ tables.globalFusionMap) (among : target ∈ targets) :
    (TensorName.mk none norm,TensorName.mk none target) ∈ fusionSites tables nLayer :=
  List.mem_append_right _ (mem_fusionTargets.mpr ⟨norm,targets,target,entry,among,rfl⟩)

end Fused

section Fusing
variable {s : Sizes} {d : Nat}

theorem fused_held {file : Gguf ℝ} {m : Qwen3 s d} (holds : Holds file m) {mode : Mode} (fuses : mode ≠ .identityPad) {kappa : ℝ} {arrays : Arrays ℝ}
    (ran : fused Qwen3.rewriter mode kappa file = .ok arrays) : Held arrays (m.under fusePass) := by
  unfold fused at ran
  rw [if_neg fuses] at ran
  obtain ⟨_,plain,ran⟩ := except_bind_ok.mp ran
  unfold untied at plain
  rw [if_neg fun both => absurd both.1 Bool.false_ne_true] at plain
  cases plain
  obtain ⟨kept,target⟩ := fuseAll_left qwen3_scales qwen3_sound ran
  have held := holds.arrays
  refine ⟨(kept _ (by decide)).trans held.tokenEmbd,fun k => ?_,(kept _ (by decide)).trans held.outputNorm,
    target _ (global_site (.head _) (.head _)) _ _ held.outputNorm held.output⟩
  have within : k.1 < file.blockCount := lt_of_lt_of_eq k.2 holds.blockCount.symm
  have block := held.block k
  have attn : ("attn_norm.weight",["attn_q.weight","attn_k.weight","attn_v.weight"]) ∈ Qwen3.tables.perBlockFusionMap := .head _
  have ffn : ("ffn_norm.weight",["ffn_gate.weight","ffn_up.weight"]) ∈ Qwen3.tables.perBlockFusionMap := .tail _ (.head _)
  exact
    {attnNorm:=(kept ⟨some k,"attn_norm.weight"⟩ (show Cls.norm ≠ .ne0Read by decide)).trans block.attnNorm
     attnQ:=target _ (perBlock_site within attn (.head _)) _ _ block.attnNorm block.attnQ
     attnK:=target _ (perBlock_site within attn (.tail _ (.head _))) _ _ block.attnNorm block.attnK
     attnV:=target _ (perBlock_site within attn (.tail _ (.tail _ (.head _)))) _ _ block.attnNorm block.attnV
     attnQNorm:=(kept ⟨some k,"attn_q_norm.weight"⟩ (show Cls.unchanged ≠ .ne0Read by decide)).trans block.attnQNorm
     attnKNorm:=(kept ⟨some k,"attn_k_norm.weight"⟩ (show Cls.unchanged ≠ .ne0Read by decide)).trans block.attnKNorm
     attnOutput:=(kept ⟨some k,"attn_output.weight"⟩ (show Cls.ne1 ≠ .ne0Read by decide)).trans block.attnOutput
     ffnNorm:=(kept ⟨some k,"ffn_norm.weight"⟩ (show Cls.norm ≠ .ne0Read by decide)).trans block.ffnNorm
     ffnGate:=target _ (perBlock_site within ffn (.head _)) _ _ block.ffnNorm block.ffnGate
     ffnUp:=target _ (perBlock_site within ffn (.tail _ (.head _))) _ _ block.ffnNorm block.ffnUp
     ffnDown:=(kept ⟨some k,"ffn_down.weight"⟩ (show Cls.ne1 ≠ .ne0Read by decide)).trans block.ffnDown}

end Fusing

section Written
variable {d h : Nat}

-- What a mode writes of an array is what the pass makes of it, by the array's class.
structure Does (mode : Mode) (transform : KeymatTransform ℝ d h) (kappa : ℝ) (p : Pass d (d + padOf mode h)) : Prop where
  norm : ∀ (name : TensorName) (gamma : Fin d → ℝ), classify Qwen3.tables name = .norm →
    transformed Qwen3.rewriter mode transform kappa name (.vec gamma) = .ok (.vec (p.norm gamma))
  read : ∀ {m : Nat} (name : TensorName) (gamma : Fin d → ℝ) (linear : Matrix (Fin m) (Fin d) ℝ), classify Qwen3.tables name = .ne0Read →
    transformed Qwen3.rewriter mode transform kappa name (.mat linear) = .ok (.mat (p.read gamma linear))
  write : ∀ {m : Nat} (name : TensorName) (linear : Matrix (Fin d) (Fin m) ℝ), classify Qwen3.tables name = .ne1 →
    transformed Qwen3.rewriter mode transform kappa name (.mat linear) = .ok (.mat (p.write linear))
  embd : ∀ {m : Nat} (name : TensorName) (linear : Matrix (Fin m) (Fin d) ℝ), classify Qwen3.tables name = .ne0Write →
    transformed Qwen3.rewriter mode transform kappa name (.mat linear) = .ok (.mat (p.embd linear))

variable {transform : KeymatTransform ℝ d h} {kappa : ℝ} {name : TensorName} {cls : Cls} {arr : Tensor ℝ}

theorem transformed_norm {mode : Mode} (is : classify Qwen3.tables name = .norm) :
    transformed Qwen3.rewriter mode transform kappa name arr = normArray mode d (padOf mode h) kappa false arr := by
  unfold transformed
  rw [show classify (Qwen3.rewriter : Rewriter ℝ).tables name = .norm from is]
  rfl

theorem transformed_unchanged {mode : Mode} (is : classify Qwen3.tables name = .unchanged) :
    transformed Qwen3.rewriter mode transform kappa name arr = .ok arr := by
  unfold transformed
  rw [show classify (Qwen3.rewriter : Rewriter ℝ).tables name = .unchanged from is]

theorem transformed_linear {mode : Mode} (is : classify Qwen3.tables name = cls) (linear : cls ≠ .norm ∧ cls ≠ .unchanged) :
    transformed Qwen3.rewriter mode transform kappa name arr =
      match mode with
      | .identityPad => identityPad arr cls d (padOf mode h)
      | .keymat => keymatArray transform cls arr
      | .gammaOnly => .ok arr := by
  unfold transformed
  rw [show classify (Qwen3.rewriter : Rewriter ℝ).tables name = cls from is]
  cases cls with
  | norm => exact absurd rfl linear.1
  | unchanged => exact absurd rfl linear.2
  | ne0Read => cases mode <;> rfl
  | ne0Write => cases mode <;> rfl
  | ne1 => cases mode <;> rfl

theorem identityPad_does : Does .identityPad transform kappa (padPass (2 * h)) where
  norm := fun name gamma is => (transformed_norm is).trans (expand_vec gamma .last)
  read := fun name _ linear is => (transformed_linear is (by decide)).trans (expand_last linear)
  write := fun name linear is => (transformed_linear is (by decide)).trans (expand_first linear)
  embd := fun name linear is => (transformed_linear is (by decide)).trans (expand_last linear)

theorem gammaOnly_does : Does .gammaOnly transform kappa (constPass kappa) where
  norm := fun name gamma is => transformed_norm is
  read := fun name _ linear is => transformed_linear is (by decide)
  write := fun name linear is => transformed_linear is (by decide)
  embd := fun name linear is => transformed_linear is (by decide)

theorem keymat_does : Does .keymat transform kappa (keymatPass transform.key transform.inverse kappa) where
  norm := fun name gamma is => transformed_norm is
  read := fun name _ linear is => (transformed_linear is (by decide)).trans (matmulRight_mat linear _)
  write := fun name linear is => (transformed_linear is (by decide)).trans (matmulLeft_mat _ linear)
  embd := fun name linear is => (transformed_linear is (by decide)).trans (matmulRight_mat linear _)

end Written

section Rewritten
variable {s : Sizes} {mode : Mode} {h : Nat} {libraries : Libraries ℝ} {file file' : Gguf ℝ} {arrays : Arrays ℝ}

theorem RewrittenAs.gives {r : Rewriter ℝ} (rewritten : RewrittenAs r libraries mode h file arrays file') {name : TensorName} {arr out : Tensor ℝ}
    (held : arrays name = some arr)
    (does : transformed r mode (libraries.buildKeymatTransform file.embeddingLength h) (kappaOf libraries mode file.embeddingLength h) name arr = .ok out) :
    file'.arrays name = some out := by
  obtain ⟨out',gives,is⟩ := rewritten.each name arr held
  rw [does] at gives
  cases gives
  exact is

theorem written_held {m : Qwen3 s file.embeddingLength} {p : Pass file.embeddingLength (file.embeddingLength + padOf mode h)}
    (rewritten : RewrittenAs Qwen3.rewriter libraries mode h file arrays file') (held : Held arrays m)
    (does : Does mode (libraries.buildKeymatTransform file.embeddingLength h) (kappaOf libraries mode file.embeddingLength h) p) :
    Held file'.arrays (m.under p) where
  tokenEmbd := rewritten.gives held.tokenEmbd (does.embd _ _ rfl)
  outputNorm := rewritten.gives held.outputNorm (does.norm _ _ rfl)
  output := rewritten.gives held.output (does.read _ m.outputNorm _ rfl)
  block := fun k => by
    have block := held.block k
    exact
      {attnNorm:=rewritten.gives block.attnNorm (does.norm _ _ rfl)
       attnQ:=rewritten.gives block.attnQ (does.read _ (m.block k).attnNorm _ rfl)
       attnK:=rewritten.gives block.attnK (does.read _ (m.block k).attnNorm _ rfl)
       attnV:=rewritten.gives block.attnV (does.read _ (m.block k).attnNorm _ rfl)
       attnQNorm:=rewritten.gives block.attnQNorm (transformed_unchanged rfl)
       attnKNorm:=rewritten.gives block.attnKNorm (transformed_unchanged rfl)
       attnOutput:=rewritten.gives block.attnOutput (does.write _ _ rfl)
       ffnNorm:=rewritten.gives block.ffnNorm (does.norm _ _ rfl)
       ffnGate:=rewritten.gives block.ffnGate (does.read _ (m.block k).ffnNorm _ rfl)
       ffnUp:=rewritten.gives block.ffnUp (does.read _ (m.block k).ffnNorm _ rfl)
       ffnDown:=rewritten.gives block.ffnDown (does.write _ _ rfl)}

-- The pass of a mode on a file is that on its model.
theorem rewriteGguf_holds {d : Nat} {m : Qwen3 s d} (holds : Holds file m) (fusedModel : Qwen3 s d) (libraries : Libraries ℝ) (mode : Mode) (h : Nat) {p : Pass d (d + padOf mode h)}
    (does : Does mode (libraries.buildKeymatTransform d h) (kappaOf libraries mode d h) p)
    (fuses : ∀ arrays, fused Qwen3.rewriter mode (kappaOf libraries mode d h) file = .ok arrays → Held arrays fusedModel)
    (same : fusedModel.layerNormRmsEpsilon = m.layerNormRmsEpsilon ∧ fusedModel.ropeFreqBase = m.ropeFreqBase) :
    ∃ file', rewriteGguf Qwen3.rewriter libraries mode h file = .ok file' ∧ Holds file' (fusedModel.under p) := by
  obtain rfl := holds.embeddingLength
  obtain ⟨file',arrays,ran,rewritten,shaped⟩ := rewriteGguf_ok qwen3_scales qwen3_sound libraries holds.architecture holds.shaped mode h
    fun unties => absurd unties Bool.false_ne_true
  exact ⟨file',ran,
    {architecture:=(congrArg Gguf.architecture rewritten.metadata).trans holds.architecture
     embeddingLength:=rewritten.length
     blockCount:=(congrArg Gguf.blockCount rewritten.metadata).trans holds.blockCount
     headCount:=(congrArg Gguf.headCount rewritten.metadata).trans holds.headCount
     headCountKv:=(congrArg Gguf.headCountKv rewritten.metadata).trans holds.headCountKv
     keyLength:=(congrArg Gguf.keyLength rewritten.metadata).trans holds.keyLength
     epsilon:=(congrArg Gguf.layerNormRmsEpsilon rewritten.metadata).trans (holds.epsilon.trans same.1.symm)
     base:=(congrArg Gguf.ropeFreqBase rewritten.metadata).trans (holds.base.trans same.2.symm)
     arrays:=written_held rewritten (fuses arrays rewritten.from_) does
     shaped:=shaped}⟩

variable {d : Nat} {m : Qwen3 s d}

theorem identityPad_holds (holds : Holds file m) (libraries : Libraries ℝ) (h : Nat) :
    ∃ file', rewriteGguf Qwen3.rewriter libraries .identityPad h file = .ok file' ∧ Holds file' (m.under (padPass (2 * h))) :=
  rewriteGguf_holds holds m libraries .identityPad h identityPad_does (fun arrays ran => by cases ran; exact holds.arrays) ⟨rfl,rfl⟩

theorem gammaOnly_holds (holds : Holds file m) (libraries : Libraries ℝ) (h : Nat) :
    ∃ file', rewriteGguf Qwen3.rewriter libraries .gammaOnly h file = .ok file' ∧ Holds file' (m.under (fusePass.followed (constPass 1))) :=
  rewriteGguf_holds (p:=(constPass 1 : Pass d d)) holds (m.under fusePass) libraries .gammaOnly h gammaOnly_does (fun _ ran => fused_held holds (by decide) ran) ⟨rfl,rfl⟩

theorem keymat_holds (holds : Holds file m) (libraries : Libraries ℝ) (h : Nat) :
    ∃ file', rewriteGguf Qwen3.rewriter libraries .keymat h file = .ok file' ∧
      Holds file' (m.under (fusePass.followed (keymatPass (libraries.buildKeymatTransform d h).key (libraries.buildKeymatTransform d h).inverse (kappaOf libraries .keymat d h)))) :=
  rewriteGguf_holds (p:=keymatPass _ _ _) holds (m.under fusePass) libraries .keymat h keymat_does (fun _ ran => fused_held holds (by decide) ran) ⟨rfl,rfl⟩

end Rewritten
end Aloepri
