import GeloLightrag.Foundation.Literals
import GeloLightrag.Foundation.Loop
import Mathlib.Algebra.Order.Field.Basic
import Mathlib.Data.Matrix.Block
import Mathlib.LinearAlgebra.Matrix.Adjugate

namespace Aloepri
open Foundation Matrix
attribute [local instance] two_atLeastTwo hundred_atLeastTwo

-- The functions of numpy over exact numbers, where a cast to another width of float
-- changes nothing, and its generators: what each draw gives, and the generator after it.
class Numpy (R F : Type) [Field F] [LinearOrder F] where
  cos : F → F
  sin : F → F
  exp : F → F
  log : F → F
  sqrt : F → F
  pi : F
  qr : {d : Nat} → Matrix (Fin d) (Fin d) F → Matrix (Fin d) (Fin d) F × Matrix (Fin d) (Fin d) F
  defaultRng : Nat → R
  uniform : R → F → F → Nat → (Nat → F) × R
  standardNormal : R → Nat → (Nat → F) × R
  signs : R → Nat → (Nat → F) × R
  integers : R → Int → Int → Nat → (Nat → Int) × R
  shuffle : R → List Nat → List Nat × R
  choice : R → List F → Nat × R
  cos_sin : ∀ x, cos x * cos x + sin x * sin x = 1
  uniform_within : ∀ rng low high count i, low ≤ high → low ≤ (uniform rng low high count).1 i ∧ (uniform rng low high count).1 i ≤ high
  signs_unit : ∀ rng count i, (signs rng count).1 i = 1 ∨ (signs rng count).1 i = -1
  integers_within : ∀ rng low high count i, low < high → low ≤ (integers rng low high count).1 i ∧ (integers rng low high count).1 i < high
  shuffle_perm : ∀ rng items, (shuffle rng items).1.Perm items
  choice_within : ∀ rng weights, weights ≠ [] → (choice rng weights).1 < weights.length

-- `np.linalg.inv`, by Cramer's rule.
def linalgInv {ι F : Type} [Fintype ι] [DecidableEq ι] [Field F] (m : Matrix ι ι F) : Matrix ι ι F := m.det⁻¹ • m.adjugate

-- Features in the half-rotated layout: the pair at i has its halves at i and i + half.
abbrev Feature (half : Nat) : Type := Fin half ⊕ Fin half

inductive BlockPermMode where
  | fixedWindow
  | dynamicWindow
deriving DecidableEq,Repr

inductive UVoMode where
  | rawGaussian
  | qrPerturb
  | orthogonal
  | signedPermutation
  | pow2Monomial
deriving DecidableEq,Repr

section Keys
variable {F : Type} [Field F] [LinearOrder F] (R : Type) [Numpy R F]

-- A rotation for each pair.
def generateRQk (headDim seed : Nat) : Except String (Matrix (Feature (headDim / 2)) (Feature (headDim / 2)) F) :=
  if headDim % 2 ≠ 0 then .error "head_dim must be even"
  else
    let angles := (Numpy.uniform (Numpy.defaultRng (F:=F) seed : R) (0 : F) (2 * Numpy.pi R) (headDim / 2)).1
    let c := fun i : Fin (headDim / 2) => Numpy.cos R (angles i)
    let s := fun i : Fin (headDim / 2) => Numpy.sin R (angles i)
    .ok (fromBlocks (diagonal c) (diagonal fun i => -s i) (diagonal s) (diagonal c))

-- A scale for each pair, the same on both its halves.
def generateHQk (headDim : Nat) (scaleRange : F × F) (seed : Nat) (hadamardSigns : Bool) :
    Except String (Matrix (Feature (headDim / 2)) (Feature (headDim / 2)) F) :=
  if headDim % 2 ≠ 0 then .error "head_dim must be even"
  else
    let rng : R := Numpy.defaultRng (F:=F) seed
    if hadamardSigns then
      let blockScales := (Numpy.signs (F:=F) rng (headDim / 2)).1
      .ok (diagonal (Sum.elim (fun i => blockScales i) fun i => blockScales i))
    else if scaleRange.1 ≤ 0 ∨ scaleRange.2 ≤ 0 ∨ scaleRange.2 < scaleRange.1 then .error "invalid scale range"
    else
      let blockScales := (Numpy.uniform rng scaleRange.1 scaleRange.2 (headDim / 2)).1
      .ok (diagonal (Sum.elim (fun i => blockScales i) fun i => blockScales i))

-- One turn of the loop over the windows, at `start` with the blocks so far.
def fixedTurn (F : Type) [Field F] [LinearOrder F] [Numpy R F] (numBlocks beta : Nat) : Nat × List Nat × R → Except String (Turn (Nat × List Nat × R) (List Nat))
  | (start,permBlocks,rng) =>
    if start < numBlocks then
      let c := min beta (numBlocks - start)
      let window := Numpy.shuffle (F:=F) rng (List.range' start c)
      .ok (.again (start + c,permBlocks ++ window.1,window.2))
    else .ok (.leave permBlocks)

def zetaLog (numBlocks : Nat) (ropeBase : F) (i : Nat) : F := -2 * i / max 1 numBlocks * Numpy.log R ropeBase

-- The softmax weights of the window sizes. The logarithm of a number that is not positive
-- is none, and every weight with it.
def windowWeights (numBlocks : Nat) (gamma ropeBase : F) (start c : Nat) : Except String (List F) :=
  if ropeBase ≤ 0 then .error "Probabilities contain NaN"
  else
    let near := (List.range c).map fun i => gamma * (zetaLog R numBlocks ropeBase (start + i) - zetaLog R numBlocks ropeBase start)
    let top := near.foldl max (near.headD 0)
    let weights := near.map fun x => Numpy.exp R (x - top)
    .ok (weights.map (· / weights.sum))

def dynamicTurn (numBlocks beta : Nat) (gamma ropeBase : F) : Nat × List Nat × R → Except String (Turn (Nat × List Nat × R) (List Nat))
  | (start,permBlocks,rng) =>
    if start < numBlocks then
      let c := min beta (numBlocks - start)
      if c = 1 then .ok (.again (start + 1,permBlocks ++ [start],rng))
      else do
        let probs ← windowWeights R numBlocks gamma ropeBase start c
        let drawn := Numpy.choice rng probs
        let windowSize := drawn.1 + 1
        let window := Numpy.shuffle (F:=F) drawn.2 (List.range' start windowSize)
        .ok (.again (start + windowSize,permBlocks ++ window.1,window.2))
    else .ok (.leave permBlocks)

def permBlocks (numBlocks beta : Nat) (gamma ropeBase : F) (mode : BlockPermMode) (turns : Nat) (rng : R) : Option (Except String (List Nat)) :=
  match mode with
  | .fixedWindow => loop (fixedTurn R F numBlocks beta) turns (0,[],rng)
  | .dynamicWindow => loop (dynamicTurn R numBlocks beta gamma ropeBase) turns (0,[],rng)

-- Both halves of the pair at `original` go to the place the permutation has for it.
def blockMatrix (numBlocks : Nat) (perm : List Nat) : Matrix (Feature numBlocks) (Feature numBlocks) F :=
  let moved : Matrix (Fin numBlocks) (Fin numBlocks) F := of fun target original => if perm[original.1]? = some target.1 then 1 else 0
  fromBlocks moved 0 0 moved

-- What the sampler has answered within so many turns of its loop.
def generateBlockPerm (numBlocks : Nat) (beta : Int) (gamma ropeBase : F) (seed : Nat) (mode : BlockPermMode) (turns : Nat) :
    Option (Except String (Matrix (Feature numBlocks) (Feature numBlocks) F)) :=
  (permBlocks R numBlocks (max 1 (min beta numBlocks)).toNat gamma ropeBase mode turns (Numpy.defaultRng F seed)).map fun answered =>
    answered.map (blockMatrix numBlocks)

def attempted (F : Type) [Field F] [LinearOrder F] [Numpy R F] (n : Nat) : Nat → List Nat × R → List Nat × R
  | 0,drawn => drawn
  | attempts+1,drawn => if drawn.1 = List.range n then attempted F n attempts (Numpy.shuffle (F:=F) drawn.2 (List.range n)) else drawn

-- A permutation that is not the identity, and the places of its values.
def generateHeadPerm (F : Type) [Field F] [LinearOrder F] [Numpy R F] (n seed : Nat) : List Nat × List Nat :=
  let drawn := Numpy.shuffle (F:=F) (Numpy.defaultRng (F:=F) seed : R) (List.range n)
  let tau :=
    if n ≤ 1 then drawn.1
    else
      let kept := (attempted R F n 8 drawn).1
      if kept = List.range n then (n - 1) :: List.range (n - 1) else kept
  (tau,(List.range n).map tau.idxOf)

def generateUVo (headDim seed : Nat) (paperLiteral : Bool) (mode : UVoMode) (pow2Exp : Int) : Matrix (Fin headDim) (Fin headDim) F :=
  let mode := if paperLiteral ∧ mode = .qrPerturb then .rawGaussian else mode
  let rng : R := Numpy.defaultRng (F:=F) seed
  let gaussian := fun rng : R =>
    let drawn := Numpy.standardNormal (F:=F) rng (headDim * headDim)
    ((of fun i j => drawn.1 (i * headDim + j) : Matrix (Fin headDim) (Fin headDim) F),drawn.2)
  let raw := (gaussian rng).1.map (· * (1 / Numpy.sqrt R (headDim : F)))
  let monomial := fun pow2 : Bool =>
    let perm := Numpy.shuffle (F:=F) rng (List.range headDim)
    let signs := Numpy.signs (F:=F) perm.2 headDim
    let e := max 0 pow2Exp
    let exponents := (Numpy.integers (F:=F) signs.2 (-e) (e + 1) headDim).1
    let scales := fun i : Nat => if pow2 then (2 : F) ^ exponents i else 1
    (of fun i j => if perm.1[i.1]? = some j.1 then signs.1 i * scales i else 0 : Matrix (Fin headDim) (Fin headDim) F)
  let stabilised :=
    let (q,r) := Numpy.qr R raw
    (of fun i j => q i j * if r j j < 0 then -1 else 1 : Matrix (Fin headDim) (Fin headDim) F)
  match mode with
  | .signedPermutation => monomial false
  | .pow2Monomial => monomial true
  | .rawGaussian => raw
  | .orthogonal => stabilised
  | .qrPerturb => stabilised + (gaussian (gaussian rng).2).1.map (· * (5 / 100))

structure LayerAlg2Keys (F : Type) (headDim : Nat) where
  qMatrix : Matrix (Feature (headDim / 2)) (Feature (headDim / 2)) F
  kMatrix : Matrix (Feature (headDim / 2)) (Feature (headDim / 2)) F
  uVo : Option (Matrix (Fin headDim) (Fin headDim) F)
  uVoInv : Option (Matrix (Fin headDim) (Fin headDim) F)
  tauKv : Option (List Nat × List Nat)
  tauGroup : Option (List Nat × List Nat)

structure LayerConfig (F : Type) where
  numKvHeads : Nat
  numGroups : Nat
  qkScaleRange : F × F
  beta : Int
  gamma : F
  ropeBase : F
  hHadamardSigns : Bool
  enableUVo : Bool
  uVoMode : UVoMode
  uVoPow2Exp : Int
  paperLiteral : Bool
  paperLiteralK : Bool
  paperLiteralUVo : Bool
  paperLiteralKNoR : Bool
  blockPermMode : BlockPermMode

def kFactor {ι : Type} [Fintype ι] (config : LayerConfig F) (r hInv z : Matrix ι ι F) : Matrix ι ι F :=
  if config.paperLiteralKNoR then hInv * zᵀ
  else if config.paperLiteral ∨ config.paperLiteralK then r * hInv * zᵀ
  else r * hInv * z

def buildLayerKeys (headDim seed : Nat) (config : LayerConfig F) (turns : Nat) : Option (Except String (LayerAlg2Keys F headDim)) :=
  match generateRQk R headDim (seed + 1),generateHQk R headDim config.qkScaleRange (seed + 2) config.hHadamardSigns with
  | .error e,_ | .ok _,.error e => some (.error e)
  | .ok rQk,.ok hQk =>
    (generateBlockPerm R (headDim / 2) config.beta config.gamma config.ropeBase (seed + 3) config.blockPermMode turns).map fun answered =>
      answered.map fun zBlock =>
        let uVo := generateUVo R headDim (seed + 7) (config.paperLiteral || config.paperLiteralUVo) config.uVoMode config.uVoPow2Exp
        {qMatrix:=rQk * hQk * zBlock
         kMatrix:=kFactor config rQk (linalgInv hQk) zBlock
         uVo:=if config.enableUVo then some uVo else none
         uVoInv:=if config.enableUVo then some (linalgInv uVo) else none
         tauKv:=if 1 < config.numKvHeads then some (generateHeadPerm R F config.numKvHeads (seed + 4)) else none
         tauGroup:=if 1 < config.numGroups then some (generateHeadPerm R F config.numGroups (seed + 5)) else none}

end Keys

-- The rotation of the pairs at a position, as the invariance check writes it.
def ropeNeox {F : Type} [Field F] {half : Nat} (cos sin : F → F) (invFreq : Fin half → F) (position : F) (x : Feature half → F) : Feature half → F
  | .inl i => x (.inl i) * cos (position * invFreq i) - x (.inr i) * sin (position * invFreq i)
  | .inr i => x (.inl i) * sin (position * invFreq i) + x (.inr i) * cos (position * invFreq i)

end Aloepri
