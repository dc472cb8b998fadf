import GeloLightrag.Aloepri.Passes
import GeloLightrag.Aloepri.Rewriters

namespace Aloepri
open Foundation Matrix

section Operations
variable {F : Type} {d k m n : Nat}

theorem joint_self (a : Nat) : joint a a = some ⟨a,.inl rfl,.inl rfl⟩ := dif_pos rfl

theorem along_self (fits : d = d ∨ d = 1) (i : Fin d) : along fits i = i := dif_pos rfl

theorem broadcastMul_row [Mul F] (w : Matrix (Fin m) (Fin d) F) (v : Fin d → F) :
    broadcastMul (.mat w) (.vec v) = .ok (.mat (scaledColumns w v)) := by
  have same : (of fun (r : Fin m) (i : Fin d) => w r (along (.inl rfl) i) * v (along (.inl rfl) i)) = scaledColumns w v := by
    ext r i
    rw [of_apply,along_self]
    rfl
  rw [broadcastMul,joint_self,←same]

theorem matmulRight_mat [NonUnitalNonAssocSemiring F] (w : Matrix (Fin m) (Fin d) F) (p : Matrix (Fin d) (Fin k) F) : matmulRight (.mat w) p = .ok (.mat (w * p)) := dif_pos rfl

theorem matmulLeft_mat [NonUnitalNonAssocSemiring F] (p : Matrix (Fin k) (Fin d) F) (w : Matrix (Fin d) (Fin n) F) : matmulLeft p (.mat w) = .ok (.mat (p * w)) := dif_pos rfl

theorem expand_vec [Zero F] (v : Fin d → F) (axis : Axis) : expandAxisWithZeros (.vec v) axis d k = .ok (.vec (padVec k v)) := by
  unfold expandAxisWithZeros
  cases axis <;> exact if_neg (not_not.mpr rfl)

theorem expand_last [Zero F] (w : Matrix (Fin m) (Fin d) F) : expandAxisWithZeros (.mat w) .last d k = .ok (.mat (padColumns k w)) := if_neg (not_not.mpr rfl)

theorem expand_first [Zero F] (w : Matrix (Fin d) (Fin n) F) : expandAxisWithZeros (.mat w) .first d k = .ok (.mat (padRows k w)) := if_neg (not_not.mpr rfl)

end Operations

section Shaped
variable {F : Type} [Field F]

-- A residual tensor as wide as the residual where its class has it.
def Shaped (d : Nat) (cls : Cls) (arr : Tensor F) : Prop :=
  match cls with
  | .unchanged => True
  | .norm => ∃ v : Fin d → F, arr = .vec v
  | .ne0Read | .ne0Write => ∃ (m : Nat) (w : Matrix (Fin m) (Fin d) F), arr = .mat w
  | .ne1 => ∃ (n : Nat) (w : Matrix (Fin d) (Fin n) F), arr = .mat w

def Gguf.WellShaped (tables : Tables) (file : Gguf F) : Prop :=
  ∀ name arr, file.arrays name = some arr → Shaped file.embeddingLength (classify tables name) arr

-- Norms are fused into linears that read; a tied file's head reads as its embedding.
structure Tables.Sound (tables : Tables) : Prop where
  perBlock : ∀ entry ∈ tables.perBlockFusionMap, classify tables ⟨none,entry.1⟩ = .norm ∧ ∀ target ∈ entry.2, classify tables ⟨none,target⟩ = .ne0Read
  global : ∀ entry ∈ tables.globalFusionMap, classify tables ⟨none,entry.1⟩ = .norm ∧ ∀ target ∈ entry.2, classify tables ⟨none,target⟩ = .ne0Read
  head : classify tables outputHead = .ne0Read
  embd : classify tables tokenEmbd = .ne0Write
  apart : Separate tables.perBlockFusionMap ∧ Separate tables.globalFusionMap

theorem Tables.Sound.site {tables : Tables} (sound : tables.Sound) {nLayer : Nat} {site : TensorName × TensorName} (among : site ∈ fusionSites tables nLayer) :
    classify tables site.1 = .norm ∧ classify tables site.2 = .ne0Read := by
  rcases List.mem_append.mp among with inner | outer
  · obtain ⟨il,_,inner⟩ := List.mem_flatMap.mp inner
    obtain ⟨norm,targets,target,entry,is,rfl⟩ := mem_fusionTargets.mp inner
    exact ⟨(sound.perBlock _ entry).1,(sound.perBlock _ entry).2 target is⟩
  · obtain ⟨norm,targets,target,entry,is,rfl⟩ := mem_fusionTargets.mp outer
    exact ⟨(sound.global _ entry).1,(sound.global _ entry).2 target is⟩

def padOf (mode : Mode) (h : Nat) : Nat := if mode = .gammaOnly then 0 else 2 * h

variable {r : Rewriter F} {d h : Nat} {kappa : F}

theorem normArray_shaped (mode : Mode) (post : Bool) (v : Fin d → F) :
    ∃ v' : Fin (d + padOf mode h) → F, normArray mode d (padOf mode h) kappa post (.vec v) = .ok (.vec v') := by
  cases mode with
  | identityPad => exact ⟨_,expand_vec v .last⟩
  | gammaOnly =>
      cases post with
      | false => exact ⟨_,rfl⟩
      | true => exact ⟨v,rfl⟩
  | keymat =>
      cases post with
      | false => exact ⟨_,rfl⟩
      | true => exact ⟨_,rfl⟩

-- A well-shaped tensor is written, as wide as the new residual.
theorem transformed_shaped (kappa : F) (mode : Mode) (transform : KeymatTransform F d h) {name : TensorName} {arr : Tensor F}
    (shaped : Shaped d (classify r.tables name) arr) :
    ∃ out, transformed r mode transform kappa name arr = .ok out ∧ Shaped (d + padOf mode h) (classify r.tables name) out := by
  unfold transformed
  cases cls : classify r.tables name with
  | unchanged => exact ⟨arr,rfl,trivial⟩
  | norm =>
      rw [cls] at shaped
      obtain ⟨v,rfl⟩ := shaped
      obtain ⟨v',written⟩ := normArray_shaped mode (decide (name.stripped ∈ r.tables.postNormNames)) v
      exact ⟨_,written,v',rfl⟩
  | ne0Read =>
      rw [cls] at shaped
      obtain ⟨m,w,rfl⟩ := shaped
      cases mode with
      | identityPad => exact ⟨_,expand_last w,m,_,rfl⟩
      | gammaOnly => exact ⟨_,rfl,m,w,rfl⟩
      | keymat => exact ⟨_,matmulRight_mat w _,m,_,rfl⟩
  | ne0Write =>
      rw [cls] at shaped
      obtain ⟨m,w,rfl⟩ := shaped
      cases mode with
      | identityPad => exact ⟨_,expand_last w,m,_,rfl⟩
      | gammaOnly => exact ⟨_,rfl,m,w,rfl⟩
      | keymat => exact ⟨_,matmulRight_mat w _,m,_,rfl⟩
  | ne1 =>
      rw [cls] at shaped
      obtain ⟨n,w,rfl⟩ := shaped
      cases mode with
      | identityPad => exact ⟨_,expand_first w,n,_,rfl⟩
      | gammaOnly => exact ⟨_,rfl,n,w,rfl⟩
      | keymat => exact ⟨_,matmulLeft_mat _ w,n,_,rfl⟩

end Shaped

section Fusion
variable {F : Type} [Field F] {r : Rewriter F} {d : Nat} {kappa : F}

def AllShaped (tables : Tables) (d : Nat) (arrays : Arrays F) : Prop := ∀ name arr, arrays name = some arr → Shaped d (classify tables name) arr

-- A rewriter that scales the columns of a linear by its norm's gains, over some scalar.
def Rewriter.Scales (r : Rewriter F) (by_ : F → F → F) : Prop :=
  ∀ (d m : Nat) (w : Matrix (Fin m) (Fin d) F) (v : Fin d → F) (kappa : F), r.fuseGammaPre (.mat w) (.vec v) kappa = .ok (.mat (scaledColumns w fun i => by_ (v i) kappa))

theorem qwen3_scales : (Qwen3.rewriter : Rewriter F).Scales fun gamma _ => gamma := fun _ _ w v _ => broadcastMul_row w v

theorem gemma4_scales : (Gemma4.rewriter : Rewriter F).Scales fun gamma kappa => gamma / kappa := fun _ _ w v kappa => broadcastMul_row w fun i => v i / kappa

variable {by_ : F → F → F} {arrays : Arrays F}

theorem fuseAll_shaped (kappa : F) (scales : r.Scales by_) (sites : List (TensorName × TensorName))
    (sound : ∀ site ∈ sites, classify r.tables site.1 = .norm ∧ classify r.tables site.2 = .ne0Read) (shaped : AllShaped r.tables d arrays) :
    ∃ arrays', fuseAll (fun linear gamma => r.fuseGammaPre linear gamma kappa) sites arrays = .ok arrays' ∧ AllShaped r.tables d arrays' ∧
      ∀ name, arrays' name = none ↔ arrays name = none := by
  induction sites generalizing arrays with
  | nil => exact ⟨arrays,rfl,shaped,fun _ => .rfl⟩
  | cons site sites ih =>
      obtain ⟨norm,read⟩ := sound site List.mem_cons_self
      have one : ∃ middle, fuseSite (fun linear gamma => r.fuseGammaPre linear gamma kappa) arrays site = .ok middle ∧ AllShaped r.tables d middle ∧
          ∀ name, middle name = none ↔ arrays name = none := by
        unfold fuseSite
        split
        · rename_i gamma linear held target
          have vec := shaped _ _ held
          have mat := shaped _ _ target
          rw [norm] at vec
          rw [read] at mat
          obtain ⟨v,rfl⟩ := vec
          obtain ⟨m,w,rfl⟩ := mat
          dsimp only
          rw [scales]
          refine ⟨_,rfl,fun name arr is => ?_,fun name => ?_⟩
          · by_cases here : name = site.2
            · rw [here,Function.update_self,Option.some.injEq] at is
              rw [here,read]
              exact ⟨m,_,is.symm⟩
            · rw [Function.update_of_ne here] at is
              exact shaped name arr is
          · by_cases here : name = site.2
            · rw [here,Function.update_self,target]
              exact iff_of_false (Option.some_ne_none _) (Option.some_ne_none _)
            · rw [Function.update_of_ne here]
        · exact ⟨arrays,rfl,shaped,fun _ => .rfl⟩
      obtain ⟨middle,here,shaped',same⟩ := one
      obtain ⟨arrays',ran,shaped'',same'⟩ := ih (fun site among => sound site (List.mem_cons_of_mem _ among)) shaped'
      refine ⟨arrays',?_,shaped'',fun name => (same' name).trans (same name)⟩
      rw [fuseAll,here]
      exact ran

theorem mem_inputOrder {mode : Mode} {names : List TensorName} {name : TensorName} (among : name ∈ names) : name ∈ inputOrder r mode names := by
  unfold inputOrder
  split
  · split
    · rename_i embd
      rw [List.mem_insertIdx (Nat.succ_le_of_lt (List.idxOf_lt_length_of_mem embd))]
      exact .inr among
    · exact List.mem_append_left _ among
  · exact among

theorem head_inputOrder {mode : Mode} {names : List TensorName} (unties : r.unties = true) (plain : mode ≠ .identityPad) : outputHead ∈ inputOrder r mode names := by
  unfold inputOrder
  split
  · split
    · rename_i embd
      rw [List.mem_insertIdx (Nat.succ_le_of_lt (List.idxOf_lt_length_of_mem embd))]
      exact .inl rfl
    · exact List.mem_append_right _ (List.mem_singleton_self _)
  · rename_i kept
    by_contra absent
    exact kept ⟨unties,plain,absent⟩

theorem held_name {file : Gguf F} {name : TensorName} (held : file.arrays name ≠ none) : name ∈ file.tensors.map Prod.fst := by
  unfold Gguf.arrays at held
  by_contra absent
  refine held (List.lookup_eq_none_iff.mpr fun entry among => ?_)
  exact bne_iff_ne.mpr fun same : name = entry.1 => absent (List.mem_map.mpr ⟨entry,among,same.symm⟩)

-- A file of the right shapes has every linear fused, and nothing else changed.
theorem fused_shaped (kappa : F) (scales : r.Scales by_) (sound : r.tables.Sound) {file : Gguf F} (shaped : file.WellShaped r.tables) (mode : Mode)
    (embd : r.unties = true → mode ≠ .identityPad → file.arrays tokenEmbd ≠ none) :
    ∃ arrays, fused r mode kappa file = .ok arrays ∧ AllShaped r.tables file.embeddingLength arrays ∧
      ∀ name, arrays name ≠ none → name ∈ inputOrder r mode (file.tensors.map Prod.fst) := by
  unfold fused
  by_cases pads : mode = .identityPad
  · rw [if_pos pads]
    exact ⟨_,rfl,shaped,fun name held => mem_inputOrder (held_name held)⟩
  · have head : ∃ arrays, untied r file.arrays = .ok arrays ∧ AllShaped r.tables file.embeddingLength arrays ∧
        ∀ name, arrays name ≠ none → name ∈ inputOrder r mode (file.tensors.map Prod.fst) := by
      unfold untied
      by_cases tied : r.unties = true ∧ file.arrays outputHead = none
      · rw [if_pos tied]
        obtain ⟨e,is⟩ := Option.ne_none_iff_exists'.mp (embd tied.1 pads)
        rw [is]
        refine ⟨_,rfl,fun name arr held => ?_,fun name held => ?_⟩
        · by_cases here : name = outputHead
          · rw [here,Function.update_self,Option.some.injEq] at held
            have rows := shaped _ _ is
            rw [sound.embd] at rows
            rw [here,sound.head,←held]
            exact rows
          · rw [Function.update_of_ne here] at held
            exact shaped name arr held
        · by_cases here : name = outputHead
          · exact here ▸ head_inputOrder tied.1 pads
          · rw [Function.update_of_ne here] at held
            exact mem_inputOrder (held_name held)
      · rw [if_neg tied]
        exact ⟨_,rfl,shaped,fun name held => mem_inputOrder (held_name held)⟩
    obtain ⟨arrays,ran,shaped',listed⟩ := head
    obtain ⟨arrays',ran',shaped'',same⟩ := fuseAll_shaped kappa scales (fusionSites r.tables file.blockCount) (fun site among => sound.site among) shaped'
    refine ⟨arrays',?_,shaped'',fun name held => listed name fun none_ => held ((same name).mpr none_)⟩
    rw [if_neg pads,ran]
    exact ran'

end Fusion

section Rewritten
variable {F : Type} [Field F] {r : Rewriter F} {by_ : F → F → F}

-- A rewritten file, tensor by tensor.
structure RewrittenAs (r : Rewriter F) (libraries : Libraries F) (mode : Mode) (h : Nat) (file : Gguf F) (arrays : Arrays F) (file' : Gguf F) : Prop where
  length : file'.embeddingLength = file.embeddingLength + padOf mode h
  metadata : {file' with embeddingLength:=file.embeddingLength,tensors:=file.tensors} = file
  from_ : fused r mode (kappaOf libraries mode file.embeddingLength h) file = .ok arrays
  each : ∀ name arr, arrays name = some arr → ∃ out, transformed r mode (libraries.buildKeymatTransform file.embeddingLength h)
    (kappaOf libraries mode file.embeddingLength h) name arr = .ok out ∧ file'.arrays name = some out
  only : ∀ name, arrays name = none → file'.arrays name = none

theorem rewriteGguf_ok (scales : r.Scales by_) (sound : r.tables.Sound) (libraries : Libraries F) {file : Gguf F} (arch : file.architecture = r.arch)
    (shaped : file.WellShaped r.tables) (mode : Mode) (h : Nat) (embd : r.unties = true → mode ≠ .identityPad → file.arrays tokenEmbd ≠ none) :
    ∃ file' arrays, rewriteGguf r libraries mode h file = .ok file' ∧ RewrittenAs r libraries mode h file arrays file' ∧ file'.WellShaped r.tables := by
  obtain ⟨arrays,ran,shaped',listed⟩ := fused_shaped (kappaOf libraries mode file.embeddingLength h) scales sound shaped mode embd
  have wrote : ∃ tensors, writeAll (transformed r mode (libraries.buildKeymatTransform file.embeddingLength h) (kappaOf libraries mode file.embeddingLength h))
      arrays (inputOrder r mode (file.tensors.map Prod.fst)) = .ok tensors :=
    writeAll_ok fun name arr _ held => by
      obtain ⟨out,gives,_⟩ := transformed_shaped (kappaOf libraries mode file.embeddingLength h) mode
        (libraries.buildKeymatTransform file.embeddingLength h) (shaped' name arr held)
      exact ⟨out,gives⟩
  obtain ⟨tensors,wrote⟩ := wrote
  have looked : ∀ name out, tensors.lookup name = some out → ∃ arr, arrays name = some arr ∧
      transformed r mode (libraries.buildKeymatTransform file.embeddingLength h) (kappaOf libraries mode file.embeddingLength h) name arr = .ok out :=
    fun name out held => writeAll_from wrote held
  refine ⟨{file with embeddingLength:=file.embeddingLength + padOf mode h,tensors:=tensors},arrays,?_,⟨rfl,rfl,ran,fun name arr held => ?_,fun name none_ => ?_⟩,?_⟩
  · unfold rewriteGguf
    rw [if_neg (not_not.mpr arch)]
    dsimp only
    rw [ran]
    show (do
      let tensors ← writeAll _ arrays _
      .ok _) = _
    rw [wrote]
    rfl
  · exact writeAll_lookup wrote (listed name fun none_ => by rw [none_] at held; cases held) held
  · cases held : tensors.lookup name with
    | none => exact held
    | some out =>
        obtain ⟨arr,is,_⟩ := looked name out held
        rw [none_] at is
        cases is
  · intro name out held
    obtain ⟨arr,is,gives⟩ := looked name out held
    obtain ⟨out',gives',wide⟩ := transformed_shaped (kappaOf libraries mode file.embeddingLength h) mode
      (libraries.buildKeymatTransform file.embeddingLength h) (shaped' name arr is)
    rw [gives] at gives'
    cases gives'
    exact wide

end Rewritten
end Aloepri
