import GeloLightrag.Aloepri.Alg2
import GeloLightrag.Foundation.ResidualStream
import GeloLightrag.Foundation.Softmax
import Mathlib.Algebra.BigOperators.Fin
import Mathlib.Analysis.SpecialFunctions.Pow.Real
import Mathlib.Analysis.SpecialFunctions.Trigonometric.Basic
import Mathlib.Logic.Equiv.Fin.Basic

namespace Aloepri
open Foundation Matrix

-- The dense model that runs a file, over exact numbers. A residual row is as wide as `w`,
-- a head as twice `half`.
structure Sizes where
  blockCount : Nat
  headCountKv : Nat
  groups : Nat
  half : Nat
  feedForward : Nat
  vocab : Nat

abbrev Sizes.headCount (s : Sizes) : Nat := s.headCountKv * s.groups
abbrev Sizes.keyLength (s : Sizes) : Nat := s.half + s.half

structure Block (s : Sizes) (w : Nat) where
  attnNorm : Fin w → ℝ
  attnQ : Matrix (Fin (s.headCount * s.keyLength)) (Fin w) ℝ
  attnK : Matrix (Fin (s.headCountKv * s.keyLength)) (Fin w) ℝ
  attnV : Matrix (Fin (s.headCountKv * s.keyLength)) (Fin w) ℝ
  attnQNorm : Fin s.keyLength → ℝ
  attnKNorm : Fin s.keyLength → ℝ
  attnOutput : Matrix (Fin w) (Fin (s.headCount * s.keyLength)) ℝ
  ffnNorm : Fin w → ℝ
  ffnGate : Matrix (Fin s.feedForward) (Fin w) ℝ
  ffnUp : Matrix (Fin s.feedForward) (Fin w) ℝ
  ffnDown : Matrix (Fin w) (Fin s.feedForward) ℝ

structure Qwen3 (s : Sizes) (w : Nat) where
  layerNormRmsEpsilon : ℝ
  ropeFreqBase : ℝ
  tokenEmbd : Matrix (Fin s.vocab) (Fin w) ℝ
  block : Fin s.blockCount → Block s w
  outputNorm : Fin w → ℝ
  output : Matrix (Fin s.vocab) (Fin w) ℝ

-- One over the root of the mean square of `n` entries, from the sum of their squares.
noncomputable def rmsScale (n : Nat) (eps squares : ℝ) : ℝ := 1 / √(squares / n + eps)

def rmsNorm {ι : Type} [Fintype ι] (scale : ℝ → ℝ) (gamma x : ι → ℝ) : ι → ℝ := fun i => x i * scale (x ⬝ᵥ x) * gamma i

section Attention
variable {s : Sizes} {n : Nat}

def heads {half : Nat} (count : Nat) (x : Fin (count * (half + half)) → ℝ) (head : Fin count) : Feature half → ℝ :=
  fun f => x (finProdFinEquiv (head,finSumFinEquiv f))

def joined {half : Nat} (count : Nat) (x : Fin count → Feature half → ℝ) : Fin (count * (half + half)) → ℝ :=
  fun i => x (finProdFinEquiv.symm i).1 (finSumFinEquiv.symm (finProdFinEquiv.symm i).2)

noncomputable def rotated {half : Nat} (ropeFreqBase : ℝ) (position : Nat) (x : Feature half → ℝ) : Feature half → ℝ :=
  ropeNeox Real.cos Real.sin (fun i : Fin half => ropeFreqBase ^ (-(i.1 : ℝ) / half)) position x

-- A head's query or key at a position, after its own norm.
noncomputable def placed {half : Nat} (eps ropeFreqBase : ℝ) (gamma : Fin (half + half) → ℝ) (position : Nat) (x : Feature half → ℝ) : Feature half → ℝ :=
  rotated ropeFreqBase position (rmsNorm (rmsScale (half + half) eps) (fun f => gamma (finSumFinEquiv f)) x)

-- Each position's queries, keys and values.
structure Projected (s : Sizes) where
  q : Fin (s.headCount * s.keyLength) → ℝ
  k : Fin (s.headCountKv * s.keyLength) → ℝ
  v : Fin (s.headCountKv * s.keyLength) → ℝ

-- Causal attention, the heads of a group with its keys and values.
noncomputable def attention (eps ropeFreqBase : ℝ) (attnQNorm attnKNorm : Fin s.keyLength → ℝ) (rows : Fin n → Projected s) :
    Fin n → Fin (s.headCount * s.keyLength) → ℝ :=
  fun i => joined s.headCount fun head f =>
    let shared := (finProdFinEquiv.symm head).1
    let query := placed eps ropeFreqBase attnQNorm i (heads s.headCount (rows i).q head)
    let key := fun j : Fin n => placed eps ropeFreqBase attnKNorm j (heads s.headCountKv (rows j).k shared)
    attended Real.exp (Finset.univ.filter fun j => j ≤ i) (fun j => (query ⬝ᵥ key j) / √(s.keyLength : ℝ)) fun j =>
      heads s.headCountKv (rows j).v shared f

noncomputable def silu (x : ℝ) : ℝ := x / (1 + Real.exp (-x))

end Attention

section Forward
variable {s : Sizes} {w n : Nat}

noncomputable def Block.attn (scale : ℝ → ℝ) (m : Qwen3 s w) (b : Block s w) :
    Sublayer (Fin n) (Fin w → ℝ) (Projected s) (Fin (s.headCount * s.keyLength) → ℝ) where
  read := fun x =>
    let x := rmsNorm scale b.attnNorm x
    ⟨b.attnQ *ᵥ x,b.attnK *ᵥ x,b.attnV *ᵥ x⟩
  core := attention m.layerNormRmsEpsilon m.ropeFreqBase b.attnQNorm b.attnKNorm
  write := fun o => b.attnOutput *ᵥ o

noncomputable def Block.ffn (scale : ℝ → ℝ) (b : Block s w) :
    Sublayer (Fin n) (Fin w → ℝ) ((Fin s.feedForward → ℝ) × (Fin s.feedForward → ℝ)) (Fin s.feedForward → ℝ) where
  read := fun x =>
    let x := rmsNorm scale b.ffnNorm x
    ⟨b.ffnGate *ᵥ x,b.ffnUp *ᵥ x⟩
  core := fun rows i f => silu ((rows i).1 f) * (rows i).2 f
  write := fun o => b.ffnDown *ᵥ o

namespace Qwen3

noncomputable def stage (scale : ℝ → ℝ) (m : Qwen3 s w) (k : Nat) (stream : Fin n → Fin w → ℝ) : Fin n → Fin w → ℝ :=
  if within : k < s.blockCount then ((m.block ⟨k,within⟩).ffn scale).run (((m.block ⟨k,within⟩).attn scale m).run stream) else stream

def embedded (m : Qwen3 s w) (tokens : Fin n → Fin s.vocab) : Fin n → Fin w → ℝ := fun i => m.tokenEmbd (tokens i)

-- The residual rows after so many blocks, where norms scale by `scale`.
noncomputable def residualBy (scale : ℝ → ℝ) (m : Qwen3 s w) (tokens : Fin n → Fin s.vocab) (k : Nat) : Fin n → Fin w → ℝ :=
  passed (m.stage scale) (m.embedded tokens) k

noncomputable def logitsBy (scale : ℝ → ℝ) (m : Qwen3 s w) (tokens : Fin n → Fin s.vocab) : Fin n → Fin s.vocab → ℝ :=
  fun i => m.output *ᵥ rmsNorm scale m.outputNorm (m.residualBy scale tokens s.blockCount i)

noncomputable def scale (m : Qwen3 s w) : ℝ → ℝ := rmsScale w m.layerNormRmsEpsilon

noncomputable def residual (m : Qwen3 s w) (tokens : Fin n → Fin s.vocab) (k : Nat) : Fin n → Fin w → ℝ := m.residualBy m.scale tokens k

noncomputable def logits (m : Qwen3 s w) (tokens : Fin n → Fin s.vocab) : Fin n → Fin s.vocab → ℝ := m.logitsBy m.scale tokens

end Qwen3
end Forward

end Aloepri
