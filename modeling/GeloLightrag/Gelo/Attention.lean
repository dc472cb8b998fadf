import GeloLightrag.Foundation.Array3
import GeloLightrag.Gelo.Executor

set_option linter.unusedSectionVars false

namespace Gelo
open Foundation Array2

inductive AttentionMask where
  | none
  | causal
deriving DecidableEq

structure PermAttnConfig (F : Type) where
  noiseSigma : F
  causalMaskNeg : F
  decodeSoftmaxOnGpu : Bool

-- What an engine is asked besides products with a registered weight.
class RuntimeEngine (E F : Type) [Zero F] where
  registerWeightBf16 : WeightHandle → Array2 (BitVec 16) → E → Except String Unit × E
  registerWeightBf16Shared : WeightHandle → Array2 (BitVec 16) → E → Except String Unit × E
  matmulDynamic : Array2 F → Array2 F → E → Except String (Array2 F) × E
  runRuntimeMatmul : Array3 F → Array3 F → E → Except String (Array3 F) × E
  runFusedAttention : Array3 F → Array3 F → Array3 F → F → Option (Array3 F) → E → Except String (Array3 F) × E

class Exponential (F : Type) where
  exp : F → F

-- What the shuffle of n places and the uniform sampler of [1/2, 3/2) make of a
-- generator's words, and how many they use.
class Sampling (F : Type) where
  shuffle : Nat → (Nat → Nat) → List Nat × Nat
  uniform : (Nat → Nat) → F × Nat

-- A shuffle that moves nothing.
@[reducible] def unshuffled (F : Type) [One F] : Sampling F := ⟨fun n _ => (List.range n,0),fun _ => (1,1)⟩

-- What an attention offload holds of its executor.
structure Offload (E : Type) where
  engine : E
  rng : ChaCha20Rng

abbrev OffloadM (E : Type) := EStateM Fault (Offload E)

section Steps
variable {E : Type}

def refuse {α : Type} (text : String) : OffloadM E α := throw (.error text)

def orStop {α : Type} (x : Except String α) : OffloadM E α :=
  match x with
  | .ok a => return a
  | .error text => throw (.panic text)

def ask {α : Type} (call : E → Except String α × E) : OffloadM E α := fun s =>
  match (call s.engine).1 with
  | .ok answer => .ok answer {s with engine:=(call s.engine).2}
  | .error text => .error (.error text) {s with engine:=(call s.engine).2}

theorem ask_ok {α : Type} {a : α} {call : E → Except String α × E} {s : Offload E} (answered : (call s.engine).1 = .ok a) :
    ask call s = .ok a {s with engine:=(call s.engine).2} := by
  simp only [ask,answered]

theorem ask_error {α : Type} {call : E → Except String α × E} {s : Offload E} (refused : (call s.engine).1 = .error text) :
    ask call s = .error (.error text) {s with engine:=(call s.engine).2} := by
  simp only [ask,refused]

def draw {α : Type} (F : Type) [Zero F] [Platform F] (sample : (Nat → Nat) → α × Nat) : OffloadM E α := fun s =>
  .ok (sample (s.rng.words F)).1 {s with rng:=s.rng.advance (sample (s.rng.words F)).2}

end Steps

-- `assign` spreads a source of one row or one column over the target.
def spread {F : Type} [Zero F] (nrows ncols : Nat) (a : Array2 F) : Except String (Array2 F) :=
  if (a.nrows = nrows ∨ a.nrows = 1) ∧ (a.ncols = ncols ∨ a.ncols = 1) then
    .ok (of nrows ncols fun i j => a.entry (if a.nrows = 1 then 0 else i) (if a.ncols = 1 then 0 else j))
  else .error "could not broadcast array"

theorem spread_fits {F : Type} [Zero F] (a : Array2 F) : spread a.nrows a.ncols a = .ok a := by
  unfold spread
  rw [if_pos ⟨.inl rfl,.inl rfl⟩]
  refine congrArg Except.ok (eq_of rfl rfl fun i row j col => ?_)
  have row' : i < a.nrows := row
  have col' : j < a.ncols := col
  rw [of_entry row' col']
  congr 1
  · split
    · omega
    · rfl
  · split
    · omega
    · rfl

def indexAxis {F : Type} [Zero F] (a : Array3 F) (h : Nat) : Except String (Array2 F) :=
  if h < a.planes then .ok (a.plane h) else .error outOfBounds

def dims {F : Type} (a : Array3 F) : Nat × Nat × Nat := (a.planes,a.rows,a.cols)

def Opens (c : Char) (text : String) : Prop := text.toList.head? = some c

theorem Opens.ne {c d : Char} (opens : Opens c text) (opens' : Opens d text') (other : c ≠ d) : text ≠ text' := by
  intro same
  unfold Opens at opens opens'
  rw [same,opens'] at opens
  exact other (Option.some.inj opens).symm

def debugDims (d : Nat × Nat × Nat) : String := s!"({d.1}, {d.2.1}, {d.2.2})"

section Softmax
variable {F : Type} [Field F] [LinearOrder F] [IsStrictOrderedRing F] [Exponential F]

-- The largest entry of a row that has entries.
def rowMax (scores : Array2 F) (i : Nat) : F :=
  (List.range scores.ncols).foldl (fun top j => max top (scores.entry i j)) (scores.entry i 0)

def softmaxRowwise (scores : Array2 F) : Array2 F :=
  of scores.nrows scores.ncols fun i j =>
    let e := fun j => Exponential.exp (scores.entry i j - rowMax scores i)
    e j * (1 / ∑ l ∈ Finset.range scores.ncols, e l)

end Softmax

section Permuted
variable {E F : Type} [Field F] [LinearOrder F] [IsStrictOrderedRing F] [Platform F] [RuntimeEngine E F] [Exponential F]

-- Row i of every plane is the source's row perm[i].
def permuteRows (perm : List Nat) (a : Array3 F) : Array3 F :=
  .of a.planes a.rows a.cols fun h i j => a.at_ h (perm.getD i 0) j

def scaled (scale : F) (a : Array3 F) : Array3 F := .of a.planes a.rows a.cols fun h i j => a.at_ h i j * scale

def added (a : Array3 F) (noise : Nat → F) : Array3 F :=
  .of a.planes a.rows a.cols fun h i j => a.at_ h i j + noise (a.offset h i j)

def PARALLEL_THRESHOLD : Nat := 32768

-- A large tensor takes the noise of each plane from a generator of its own,
-- seeded with 32 bytes of the parent's words.
def addGaussian3d (sigma : F) (a : Array3 F) : OffloadM E (Array3 F) :=
  if sigma = 0 then return a
  else if a.planes * a.rows * a.cols < PARALLEL_THRESHOLD then do
    let z ← draw F (Platform.normals (a.planes * a.rows * a.cols))
    return added a fun i => sigma * z i
  else do
    let seeds ← draw F fun words =>
      ((fun h => (List.range 8).flatMap fun w => leBytes 4 (words (8 * h + w))),8 * a.planes)
    let each := a.rows * a.cols
    return added a fun i => sigma * (Platform.normals each ((⟨seeds (i / each),0,0⟩ : ChaCha20Rng).words F)).1 (i % each)

def noised (cfg : PermAttnConfig F) (q k : Array3 F) : OffloadM E (Array3 F × Array3 F) :=
  if 0 < cfg.noiseSigma then do
    let q ← addGaussian3d cfg.noiseSigma q
    let k ← addGaussian3d cfg.noiseSigma k
    return (q,k)
  else return (q,k)

-- The causal mask over the scores of the engine, which may have any shape.
def addMask (mask : AttentionMask) (neg : F) (blocked : Nat → Nat → Bool) (heads nQ nKv : Nat) (scores : Array3 F) :
    Except String (Array3 F) :=
  match mask with
  | .none => .ok scores
  | .causal =>
    if heads * nQ * nKv = 0 ∨ (heads ≤ scores.planes ∧ nQ ≤ scores.rows ∧ nKv ≤ scores.cols) then
      .ok (.of scores.planes scores.rows scores.cols fun h i j =>
        scores.at_ h i j + if h < heads ∧ i < nQ ∧ j < nKv ∧ blocked i j then -neg else 0)
    else .error outOfBounds

def softmaxHeads (heads nQ nKv : Nat) (scores : Array3 F) : Except String (Array3 F) := do
  let planes ← (List.range heads).mapM fun h => do spread nQ nKv (softmaxRowwise (← indexAxis scores h))
  return .stack nQ nKv planes

-- One row of a head of the engine's answer to its place.
def recoverRow (outPerm : Array3 F) (h : Nat) (out : Array3 F) (source : Nat × Nat) : Except String (Array3 F) :=
  if h < outPerm.planes ∧ source.2 < outPerm.rows then do
    let row ← spread 1 out.cols (of 1 outPerm.cols fun _ j => outPerm.at_ h source.2 j)
    return out.assign h source.1 row
  else .error outOfBounds

-- out[h, perm[i], ..] = out_perm[h, i, ..]
def recover (perm : List Nat) (heads n d : Nat) (outPerm : Array3 F) : Except String (Array3 F) :=
  (List.range heads).foldlM (fun out h => perm.zipIdx.foldlM (recoverRow outPerm h) out) (Array3.zeros heads n d)

-- Scores from the engine, mask and softmax on this side, values from the engine.
def attendWithSoftmaxHere (q k v : Array3 F) (scale : F) (mask : AttentionMask) (neg : F) (blocked : Nat → Nat → Bool) :
    OffloadM E (Array3 F) := do
  let scores ← ask (RuntimeEngine.runRuntimeMatmul q k.transposed)
  let masked ← orStop (addMask mask neg blocked q.planes q.rows k.rows (scaled scale scores))
  let probs ← orStop (softmaxHeads q.planes q.rows k.rows masked)
  ask (RuntimeEngine.runRuntimeMatmul probs v)

-- `permuted_attention` under the permutation it sampled.
def permutedAttentionUnder (perm : List Nat) (q k v : Array3 F) (scale : F) (mask : AttentionMask) (cfg : PermAttnConfig F) :
    OffloadM E (Array3 F) := do
  let (qPerm,kPerm) ← noised cfg (permuteRows perm q) (permuteRows perm k)
  let blocked := fun i j => decide (perm.getD i 0 < perm.getD j 0)
  let outPerm ← attendWithSoftmaxHere qPerm kPerm (permuteRows perm v) scale mask cfg.causalMaskNeg blocked
  orStop (recover perm q.planes q.rows q.cols outPerm)

def maskIsNoop (mask : AttentionMask) (nQ nKv qPosOffset : Nat) : Bool :=
  match mask with
  | .none => true
  | .causal => nQ = 1 ∧ qPosOffset + nQ = nKv

-- `permuted_attention_cached` under the two permutations it sampled.
def permutedAttentionCachedUnder (permQ permKv : List Nat) (q k v : Array3 F) (scale : F) (qPosOffset : Nat)
    (mask : AttentionMask) (cfg : PermAttnConfig F) : OffloadM E (Array3 F) := do
  let (qPerm,kPerm) ← noised cfg (permuteRows permQ q) (permuteRows permKv k)
  let vPerm := permuteRows permKv v
  let blocked := fun i j => decide (qPosOffset + permQ.getD i 0 < permKv.getD j 0)
  let outPerm ←
    if cfg.decodeSoftmaxOnGpu && maskIsNoop mask q.rows k.rows qPosOffset then
      ask (RuntimeEngine.runFusedAttention qPerm kPerm vPerm scale none)
    else attendWithSoftmaxHere qPerm kPerm vPerm scale mask cfg.causalMaskNeg blocked
  orStop (recover permQ q.planes q.rows q.cols outPerm)

variable [Sampling F]

def samplePermutation (F : Type) [Zero F] [Platform F] [Sampling F] (n : Nat) : OffloadM E (List Nat) :=
  draw F (Sampling.shuffle F n)

def permutedAttention (q k v : Array3 F) (scale : F) (mask : AttentionMask) (cfg : PermAttnConfig F) :
    OffloadM E (Array3 F) :=
  if dims k ≠ dims q then refuse s!"permuted_attention: K shape {debugDims (dims k)} must match Q {debugDims (dims q)}"
  else if dims v ≠ dims q then refuse s!"permuted_attention: V shape {debugDims (dims v)} must match Q {debugDims (dims q)}"
  else do
    let perm ← samplePermutation F q.rows
    permutedAttentionUnder perm q k v scale mask cfg

def permutedAttentionCached (q k v : Array3 F) (scale : F) (qPosOffset : Nat) (mask : AttentionMask) (cfg : PermAttnConfig F) :
    OffloadM E (Array3 F) :=
  let expected := (q.planes,k.rows,q.cols)
  if dims k ≠ expected then
    refuse s!"permuted_attention_cached: K shape {debugDims (dims k)} expected {debugDims expected}"
  else if dims v ≠ expected then
    refuse s!"permuted_attention_cached: V shape {debugDims (dims v)} expected {debugDims expected}"
  else if k.rows < q.rows then
    refuse s!"permuted_attention_cached: n_q ({q.rows}) cannot exceed n_kv ({k.rows})"
  else if 2 ^ 64 ≤ qPosOffset + q.rows then throw (.panic "attempt to add with overflow")
  else if k.rows < qPosOffset + q.rows then
    refuse s!"permuted_attention_cached: q_pos_offset ({qPosOffset}) + n_q ({q.rows}) must be ≤ n_kv ({k.rows})"
  else do
    let permQ ← samplePermutation F q.rows
    let permKv ← samplePermutation F k.rows
    permutedAttentionCachedUnder permQ permKv q k v scale qPosOffset mask cfg

theorem permutedAttention_cases (q k v : Array3 F) (scale : F) (mask : AttentionMask) (cfg : PermAttnConfig F) :
    (∃ text, Opens 'p' text ∧ (permutedAttention q k v scale mask cfg : OffloadM E (Array3 F)) = refuse text) ∨
      dims k = dims q ∧ dims v = dims q ∧ (permutedAttention q k v scale mask cfg : OffloadM E (Array3 F)) = (do
        let perm ← samplePermutation F q.rows
        permutedAttentionUnder perm q k v scale mask cfg) := by
  unfold permutedAttention
  by_cases keys : dims k = dims q
  · by_cases values : dims v = dims q
    · rw [if_neg (not_not.mpr keys),if_neg (not_not.mpr values)]
      exact .inr ⟨keys,values,rfl⟩
    · rw [if_neg (not_not.mpr keys),if_pos values]
      exact .inl ⟨_,by simp [Opens,toString],rfl⟩
  · rw [if_pos keys]
    exact .inl ⟨_,by simp [Opens,toString],rfl⟩

def CachedShapes (q k v : Array3 F) : Prop :=
  dims k = (q.planes,k.rows,q.cols) ∧ dims v = (q.planes,k.rows,q.cols) ∧ q.rows ≤ k.rows

def Overflows (q k v : Array3 F) (qPosOffset : Nat) : Prop := CachedShapes q k v ∧ 2 ^ 64 ≤ qPosOffset + q.rows

theorem permutedAttentionCached_cases (q k v : Array3 F) (scale : F) (qPosOffset : Nat) (mask : AttentionMask)
    (cfg : PermAttnConfig F) :
    (∃ text, Opens 'p' text ∧ ¬Overflows q k v qPosOffset ∧
      (permutedAttentionCached q k v scale qPosOffset mask cfg : OffloadM E (Array3 F)) = refuse text) ∨
    (Overflows q k v qPosOffset ∧ (permutedAttentionCached q k v scale qPosOffset mask cfg : OffloadM E (Array3 F)) =
      throw (.panic "attempt to add with overflow")) ∨
    ¬Overflows q k v qPosOffset ∧ (CachedShapes q k v ∧ qPosOffset + q.rows ≤ k.rows) ∧
      (permutedAttentionCached q k v scale qPosOffset mask cfg : OffloadM E (Array3 F)) = (do
        let permQ ← samplePermutation F q.rows
        let permKv ← samplePermutation F k.rows
        permutedAttentionCachedUnder permQ permKv q k v scale qPosOffset mask cfg) := by
  unfold permutedAttentionCached
  dsimp only
  by_cases keys : dims k = (q.planes,k.rows,q.cols)
  · rw [if_neg (not_not.mpr keys)]
    by_cases values : dims v = (q.planes,k.rows,q.cols)
    · rw [if_neg (not_not.mpr values)]
      by_cases short : k.rows < q.rows
      · rw [if_pos short]
        exact .inl ⟨_,by simp [Opens,toString],fun over_ => absurd over_.1.2.2 (Nat.not_le.mpr short),rfl⟩
      · rw [if_neg short]
        have shapes : CachedShapes q k v := ⟨keys,values,Nat.le_of_not_lt short⟩
        by_cases wraps : 2 ^ 64 ≤ qPosOffset + q.rows
        · rw [if_pos wraps]
          exact .inr (.inl ⟨⟨shapes,wraps⟩,rfl⟩)
        · rw [if_neg wraps]
          by_cases beyond : k.rows < qPosOffset + q.rows
          · rw [if_pos beyond]
            exact .inl ⟨_,by simp [Opens,toString],fun over_ => wraps over_.2,rfl⟩
          · rw [if_neg beyond]
            exact .inr (.inr ⟨fun over_ => wraps over_.2,⟨shapes,Nat.le_of_not_lt beyond⟩,rfl⟩)
    · rw [if_pos values]
      exact .inl ⟨_,by simp [Opens,toString],fun over_ => values over_.1.2.1,rfl⟩
  · rw [if_pos keys]
    exact .inl ⟨_,by simp [Opens,toString],fun over_ => keys over_.1.1,rfl⟩

end Permuted
end Gelo
