import GeloLightrag.Aloepri.Gguf
import Mathlib.Algebra.BigOperators.Fin
import Mathlib.Data.Fintype.BigOperators

namespace Aloepri
open Foundation Matrix

inductive Mode where
  | identityPad
  | gammaOnly
  | keymat
deriving DecidableEq,Repr

structure KeymatTransform (F : Type) (d h : Nat) where
  key : Matrix (Fin d) (Fin (d + 2 * h)) F
  inverse : Matrix (Fin (d + 2 * h)) (Fin d) F

-- The sampler of the keys, the draws their gain is estimated from, and the root.
structure Libraries (F : Type) where
  buildKeymatTransform : (d h : Nat) → KeymatTransform F d h
  standardNormal : (d : Nat) → Fin 2000 → Fin d → F
  sqrt : F → F

section Rewriting
variable {F : Type} [Field F]

def norm {d : Nat} (sqrt : F → F) (x : Fin d → F) : F := sqrt (x ⬝ᵥ x)

def estimateKappa {d k : Nat} (sqrt : F → F) (x : Fin 2000 → Fin d → F) (pR : Matrix (Fin d) (Fin k) F) : F :=
  (∑ i, norm sqrt (x i ᵥ* pR) / norm sqrt (x i)) / ((2000 : Nat) : F)

def Tensor.divided (kappa : F) : Tensor F → Tensor F
  | .vec v => .vec fun i => v i / kappa
  | .mat w => .mat (of fun r i => w r i / kappa)

def identityPad (arr : Tensor F) (cls : Cls) (d pad : Nat) : Except String (Tensor F) :=
  match cls with
  | .ne0Read | .ne0Write | .norm => expandAxisWithZeros arr .last d pad
  | .ne1 => expandAxisWithZeros arr .first d pad
  | .unchanged => .error "unchanged"

-- What the two rewriters do not share.
structure Rewriter (F : Type) where
  arch : String
  tables : Tables
  fuseGammaPre : (linearArr gamma : Tensor F) → (kappa : F) → Except String (Tensor F)
  unties : Bool

namespace Qwen3

-- The gain is left out of the fusion, on the side of the norm.
def fuseGammaPre (linearArr gamma : Tensor F) (_ : F) : Except String (Tensor F) := broadcastMul linearArr gamma

def tables : Tables where
  ne0Read := ["attn_q.weight","attn_k.weight","attn_v.weight","ffn_gate.weight","ffn_up.weight","output.weight"]
  ne0Write := ["token_embd.weight"]
  ne1 := ["attn_output.weight","ffn_down.weight"]
  norm := ["attn_norm.weight","ffn_norm.weight","output_norm.weight"]
  perBlockFusionMap := [("attn_norm.weight",["attn_q.weight","attn_k.weight","attn_v.weight"]),("ffn_norm.weight",["ffn_gate.weight","ffn_up.weight"])]
  globalFusionMap := [("output_norm.weight",["output.weight"])]
  postNormNames := []

def rewriter : Rewriter F where
  arch := "qwen3"
  tables := tables
  fuseGammaPre := fuseGammaPre
  unties := false

end Qwen3

namespace Gemma4

def fuseGammaPre (linearArr gamma : Tensor F) (kappa : F) : Except String (Tensor F) := broadcastMul linearArr (gamma.divided kappa)

def tables : Tables where
  ne0Read := ["attn_q.weight","attn_k.weight","attn_v.weight","ffn_gate.weight","ffn_up.weight","inp_gate.weight","per_layer_model_proj.weight","output.weight"]
  ne0Write := ["token_embd.weight"]
  ne1 := ["attn_output.weight","ffn_down.weight","proj.weight"]
  norm := ["attn_norm.weight","post_attention_norm.weight","post_norm.weight","post_ffw_norm.weight","ffn_norm.weight","per_layer_post_norm.weight","output_norm.weight"]
  perBlockFusionMap := [("attn_norm.weight",["attn_q.weight","attn_k.weight","attn_v.weight"]),("ffn_norm.weight",["ffn_gate.weight","ffn_up.weight"])]
  globalFusionMap := [("output_norm.weight",["output.weight"])]
  postNormNames := ["post_attention_norm.weight","post_ffw_norm.weight","post_norm.weight"]

def rewriter : Rewriter F where
  arch := "gemma4"
  tables := tables
  fuseGammaPre := fuseGammaPre
  unties := true

end Gemma4

abbrev tokenEmbd : TensorName := ⟨none,"token_embd.weight"⟩
abbrev outputHead : TensorName := ⟨none,"output.weight"⟩

variable (r : Rewriter F)

-- Without a head of its own the model's head is its embedding.
def untied (arrays : Arrays F) : Except String (Arrays F) :=
  if r.unties = true ∧ arrays outputHead = none then
    match arrays tokenEmbd with
    | some embd => .ok (Function.update arrays outputHead (some embd))
    | none => .error "'token_embd.weight'"
  else .ok arrays

def inputOrder (mode : Mode) (names : List TensorName) : List TensorName :=
  if r.unties = true ∧ mode ≠ .identityPad ∧ outputHead ∉ names then
    if tokenEmbd ∈ names then names.insertIdx (names.idxOf tokenEmbd + 1) outputHead else names ++ [outputHead]
  else names

def fused (mode : Mode) (kappa : F) (file : Gguf F) : Except String (Arrays F) :=
  if mode = .identityPad then .ok file.arrays
  else do
    let arrays ← untied r file.arrays
    fuseAll (fun linear gamma => r.fuseGammaPre linear gamma kappa) (fusionSites r.tables file.blockCount) arrays

def normArray (mode : Mode) (d pad : Nat) (kappa : F) (isPostNorm : Bool) (arr : Tensor F) : Except String (Tensor F) :=
  match mode with
  | .identityPad => expandAxisWithZeros arr .last d pad
  | .keymat => if isPostNorm then concatenateFull arr pad kappa else .ok (.vec fun _ : Fin (d + pad) => kappa)
  | .gammaOnly => if isPostNorm then .ok arr else .ok (.vec fun _ : Fin d => kappa)

def keymatArray {d h : Nat} (transform : KeymatTransform F d h) (cls : Cls) (arr : Tensor F) : Except String (Tensor F) :=
  match cls with
  | .ne0Read => matmulRight arr transform.inverseᵀ
  | .ne0Write => matmulRight arr transform.key
  | .ne1 => matmulLeft transform.keyᵀ arr
  | .norm | .unchanged => .error "unchanged"

-- What a tensor is written as.
def transformed (mode : Mode) {d h : Nat} (transform : KeymatTransform F d h) (kappa : F) (name : TensorName) (arr : Tensor F) : Except String (Tensor F) :=
  let pad := if mode = .gammaOnly then 0 else 2 * h
  match classify r.tables name with
  | .unchanged => .ok arr
  | .norm => normArray mode d pad kappa (name.stripped ∈ r.tables.postNormNames) arr
  | cls =>
    match mode with
    | .identityPad => identityPad arr cls d pad
    | .keymat => keymatArray transform cls arr
    | .gammaOnly => .ok arr

def kappaOf (libraries : Libraries F) (mode : Mode) (d h : Nat) : F :=
  if mode = .keymat then
    estimateKappa libraries.sqrt (libraries.standardNormal d) (libraries.buildKeymatTransform d h).key * libraries.sqrt ((d : F) / ((d + 2 * h : Nat) : F))
  else 1

def rewriteGguf (libraries : Libraries F) (mode : Mode) (expansion : Nat) (file : Gguf F) : Except String (Gguf F) :=
  if file.architecture ≠ r.arch then .error s!"unsupported architecture: {file.architecture} (expected {r.arch})"
  else do
    let d := file.embeddingLength
    let pad := if mode = .gammaOnly then 0 else 2 * expansion
    let kappa := kappaOf libraries mode d expansion
    let arrays ← fused r mode kappa file
    let tensors ← writeAll (transformed r mode (libraries.buildKeymatTransform d expansion) kappa) arrays (inputOrder r mode (file.tensors.map Prod.fst))
    .ok {file with embeddingLength:=d + pad,tensors:=tensors}

end Rewriting
end Aloepri
