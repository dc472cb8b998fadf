import GeloLightrag.Foundation.Rows
import GeloLightrag.Gelo.ReferenceRuntime
import Mathlib.Algebra.Order.Floor.Semiring

set_option linter.unusedSectionVars false

namespace Embedder
open Foundation Array2 Gelo

inductive AttentionClass where
  | Local (window : Nat)
  | Global
deriving DecidableEq

-- What the forward passes and the generation read of a configuration.
structure DecoderConfig (F : Type) where
  hiddenSize : Nat
  numHiddenLayers : Nat
  numAttentionHeads : Nat
  numKeyValueHeads : Nat
  headDim : Option Nat
  maxPositionEmbeddings : Nat
  rmsNormEps : F
  skipFirstLayers : Nat
  skipLastLayer : Bool
  useOutAttnMult : Bool
  outAttnMultMinSeqLen : Option Nat
  usePermAttention : Bool
  permAttentionMinSeqLen : Option Nat
  attentionClasses : Option (List AttentionClass)
  partialRope : Option F
  kvSharedInGlobal : Bool
  finalLogitSoftcapping : Option F

namespace DecoderConfig
variable {F : Type}

def headDimValue (cfg : DecoderConfig F) : Nat := cfg.headDim.getD (cfg.hiddenSize / cfg.numAttentionHeads)

-- The head dimension divides by the number of heads whether it needs to or not.
def kvDim (cfg : DecoderConfig F) : Except String Nat :=
  if cfg.numAttentionHeads = 0 then .error "attempt to divide by zero" else .ok (cfg.numKeyValueHeads * cfg.headDimValue)

def offloadLayer (cfg : DecoderConfig F) (layer : Nat) : Bool :=
  if layer < cfg.skipFirstLayers then false
  else if cfg.skipLastLayer && layer + 1 == cfg.numHiddenLayers then false
  else true

def outAttnMultThreshold (cfg : DecoderConfig F) : Nat := cfg.outAttnMultMinSeqLen.getD cfg.hiddenSize

def outAttnMultEnabledFor (cfg : DecoderConfig F) (n : Nat) : Bool := cfg.useOutAttnMult && cfg.outAttnMultThreshold ≤ n

def permAttentionThreshold (cfg : DecoderConfig F) : Nat := cfg.permAttentionMinSeqLen.getD 64

def permAttentionEnabledFor (cfg : DecoderConfig F) (n : Nat) : Bool :=
  if !cfg.usePermAttention then false
  else if cfg.outAttnMultEnabledFor n then false
  else cfg.permAttentionThreshold ≤ n

def effectiveAttentionClass (cfg : DecoderConfig F) (li : Nat) : Except String AttentionClass :=
  match cfg.attentionClasses with
  | none => .ok .Global
  | some classes =>
    if classes.length = cfg.numHiddenLayers then
      match classes[li]? with
      | some layerClass => .ok layerClass
      | none => .error Gelo.outOfBounds
    else .error s!"DecoderConfig.attention_classes length {classes.length} != num_hidden_layers {cfg.numHiddenLayers}"

-- The message has the factor in it.
def rotatedDim [Field F] [LinearOrder F] [FloorSemiring F] (cfg : DecoderConfig F) : Except String Nat :=
  match cfg.partialRope with
  | none => .ok cfg.headDimValue
  | some p =>
    if 0 ≤ p ∧ p ≤ 1 then .ok (⌊p * (cfg.headDimValue : F)⌋₊ / 2 * 2) else .error "partial_rope must be in [0, 1]"

end DecoderConfig

section Rows
variable {F : Type} [Field F] [LinearOrder F] [IsStrictOrderedRing F] [Platform F] [Exponential F]

-- One over the root of the mean square.
def invDenom (eps : F) (d : Nat) (r : Nat → F) : F := 1 / Platform.sqrt ((∑ l ∈ Finset.range d, r l * r l) * (1 / (d : F)) + eps)

def rmsRow (gamma : List F) (eps : F) (r : Nat → F) : Nat → F :=
  cut gamma.length fun j => r j * invDenom eps gamma.length r * gamma.getD j 0

def rmsNorm (x : Array2 F) (gamma : List F) (eps : F) : Except String (Array2 F) :=
  if gamma.length = x.ncols then .ok (of x.nrows x.ncols fun i => rmsRow gamma eps (x.entry i))
  else .error "assertion failed: (left == right): rms_norm: gamma length must equal hidden dim"

-- Each head by its own mean square.
def qkNormRow (nHeads headDim : Nat) (gamma : List F) (eps : F) (r : Nat → F) : Nat → F :=
  cut (nHeads * headDim) fun j =>
    r j * invDenom eps headDim (fun l => r (j / headDim * headDim + l)) * gamma.getD (j % headDim) 0

def applyQkNorm (qk : Array2 F) (nHeads headDim : Nat) (gamma : List F) (eps : F) : Except String (Array2 F) :=
  if qk.ncols ≠ nHeads * headDim then
    .error s!"assertion failed: (left == right): apply_qk_norm: expected n_heads({nHeads}) * head_dim({headDim}) = {nHeads * headDim} cols, got {qk.ncols}"
  else if gamma.length ≠ headDim then .error "assertion failed: (left == right): apply_qk_norm: gamma length must equal head_dim"
  else .ok (of qk.nrows qk.ncols fun i => qkNormRow nHeads headDim gamma eps (qk.entry i))

def swigluRow (g u : Nat → F) : Nat → F := fun j => g j / (1 + Exponential.exp (-g j)) * u j

def swiglu (gate up : Array2 F) : Except String (Array2 F) :=
  if gate.nrows = up.nrows ∧ gate.ncols = up.ncols then .ok (of gate.nrows gate.ncols fun i => swigluRow (gate.entry i) (up.entry i))
  else .error "assertion failed: (left == right): swiglu: gate and up shapes must match"

-- The sum of two arrays, either of which may be spread over the other.
def residual (a b : Array2 F) : Except String (Array2 F) := do
  let nrows := if a.nrows = 1 then b.nrows else a.nrows
  let ncols := if a.ncols = 1 then b.ncols else a.ncols
  let x ← spread nrows ncols a
  let y ← spread nrows ncols b
  return of nrows ncols fun i j => x.entry i j + y.entry i j

end Rows

-- The tables for half a head's width. They are made of equal shape.
structure RopeTables (F : Type) [Zero F] where
  headDim : Nat
  cos : Array2 F
  sin : Array2 F
  even : headDim % 2 = 0
  wide : cos.ncols = headDim / 2 ∧ sin.ncols = headDim / 2
  tall : sin.nrows = cos.nrows

namespace RopeTables
variable {F : Type} [Field F]

-- The first rotatedDim places of each head rotate, in pairs half of them apart.
def rotatedRow (rope : RopeTables F) (rotatedDim pos : Nat) (r : Nat → F) : Nat → F := fun j =>
  let half := rotatedDim / 2
  let d := j % rope.headDim
  if d < half then r j * rope.cos.entry pos d - r (j + half) * rope.sin.entry pos d
  else if d < rotatedDim then r (j - half) * rope.sin.entry pos (d - half) + r j * rope.cos.entry pos (d - half)
  else r j

def applyPartialAt (rope : RopeTables F) (x : Array2 F) (numHeads startPos rotatedDim : Nat) : Except String (Array2 F) :=
  if x.ncols ≠ numHeads * rope.headDim then
    .error "assertion failed: (left == right): rope.apply_partial_at: ncols must equal num_heads × head_dim"
  else if rope.headDim < rotatedDim then
    .error s!"rope.apply_partial_at: rotated_dim {rotatedDim} > head_dim {rope.headDim}"
  else if rotatedDim % 2 = 1 then .error s!"rope.apply_partial_at: rotated_dim {rotatedDim} must be even"
  else if rotatedDim = 0 then .ok x
  else if rope.cos.nrows < startPos + x.nrows then
    .error s!"rope.apply_partial_at: start_pos {startPos} + n {x.nrows} exceeds precomputed max_positions {rope.cos.nrows}"
  else .ok (of x.nrows x.ncols fun i => rope.rotatedRow rotatedDim (startPos + i) (x.entry i))

def applyAt (rope : RopeTables F) (x : Array2 F) (numHeads startPos : Nat) : Except String (Array2 F) :=
  rope.applyPartialAt x numHeads startPos rope.headDim

def apply (rope : RopeTables F) (x : Array2 F) (numHeads : Nat) : Except String (Array2 F) := rope.applyAt x numHeads 0

end RopeTables
end Embedder
