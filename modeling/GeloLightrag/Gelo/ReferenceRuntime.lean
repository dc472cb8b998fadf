import GeloLightrag.Gelo.Parity
import GeloLightrag.Gelo.Recorded

set_option linter.unusedSectionVars false

namespace Gelo
open Foundation Array2

noncomputable instance realExponential : Exponential ℝ := ⟨Real.exp⟩

-- The value of a bfloat16: seven bits of fraction, eight of exponent, a sign. The
-- infinities and the NaNs have none; their bits are read like the rest.
def bf16Value (F : Type) [Field F] (bits : BitVec 16) : F :=
  let fraction := bits.toNat % 128
  let exponent := bits.toNat / 128 % 256
  let magnitude : F := if exponent = 0 then (fraction : F) / ((2 : Nat) : F) ^ 133
    else ((128 + fraction : Nat) : F) * ((2 : Nat) : F) ^ exponent / ((2 : Nat) : F) ^ 134
  if bits.msb then -magnitude else magnitude

namespace ReferenceCpuEngine
variable {F : Type} [Field F]

def widened (weight : Array2 (BitVec 16)) : Array2 F := of weight.nrows weight.ncols fun i j => bf16Value F (weight.entry i j)

def matmulDynamic (lhs rhs : Array2 F) : Except String (Array2 F) :=
  if lhs.ncols = rhs.nrows then .ok (lhs.dot rhs)
  else .error s!"matmul_dynamic shape mismatch: lhs cols {lhs.ncols} != rhs rows {rhs.nrows}"

def matmulDynamicBatched (lhs rhs : Array3 F) : Except String (Array3 F) :=
  if rhs.planes ≠ lhs.planes ∨ rhs.rows ≠ lhs.cols then
    .error s!"matmul_dynamic_batched shape mismatch: lhs ({lhs.planes},{lhs.rows},{lhs.cols}) vs rhs [{rhs.planes}, {rhs.rows}, {rhs.cols}]"
  else do
    let planes ← (List.range lhs.planes).mapM fun b => matmulDynamic (lhs.plane b) (rhs.plane b)
    return .stack lhs.rows rhs.cols planes

variable [LinearOrder F] [IsStrictOrderedRing F] [Exponential F]

def softmaxBatched (input : Array3 F) : Array3 F :=
  .of input.planes input.rows input.cols fun b => (softmaxRowwise (input.plane b)).entry

-- The shapes are asserted.
def fusedAttentionBatched (q k v : Array3 F) (scale : F) (mask : Option (Array3 F)) : Except String (Array3 F) :=
  if dims k = (q.planes,k.rows,q.cols) ∧ dims v = (q.planes,k.rows,q.cols) ∧
      (∀ m ∈ mask, dims m = (q.planes,q.rows,k.rows)) then do
    let scores ← matmulDynamicBatched q k.transposed
    let scores : Array3 F := .of scores.planes scores.rows scores.cols fun b i j =>
      scores.at_ b i j * scale + mask.elim 0 fun m => m.at_ b i j
    matmulDynamicBatched (softmaxBatched scores) v
  else .error "assertion failed: (left == right)"

instance : RuntimeEngine (ReferenceCpuEngine F) F where
  registerWeightBf16 handle weight engine := (.ok (),engine.registerWeight handle (widened weight))
  registerWeightBf16Shared handle weight engine := (.ok (),engine.registerWeight handle (widened weight))
  matmulDynamic lhs rhs engine := (matmulDynamic lhs rhs,engine)
  runRuntimeMatmul lhs rhs engine := (matmulDynamicBatched lhs rhs,engine)
  runFusedAttention q k v scale mask engine := (fusedAttentionBatched q k v scale mask,engine)

end ReferenceCpuEngine
end Gelo
