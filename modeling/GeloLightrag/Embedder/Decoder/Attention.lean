import GeloLightrag.Embedder.Decoder.Layers

set_option linter.unusedSectionVars false

namespace Embedder
open Foundation Array2 Gelo

section Kernels
variable {F : Type} [Field F] [LinearOrder F] [IsStrictOrderedRing F] [Platform F] [Exponential F]

-- The softmax of a row; a score of minus infinity weighs nothing, and a row of
-- nothing else stays zero.
def softmaxInplace (count : Nat) (score : Nat → Option F) : Nat → F :=
  match ((List.range count).filterMap score).max? with
  | none => fun _ => 0
  | some top =>
    let e := fun j => (score j).elim 0 fun s => Exponential.exp (s - top)
    let sum := ∑ l ∈ Finset.range count, e l
    fun j => if 0 < sum then e j * (1 / sum) else e j

-- A masked score is minus infinity.
def masked (hidden : Nat → Nat → Bool) (scale : F) (scores : Array2 F) (i j : Nat) : Option F :=
  if hidden i j then none else some (scores.entry i j * scale)

-- What a head makes of its scores.
def headContext (hidden : Nat → Nat → Bool) (scale : F) (scores v : Array2 F) (kvOff headDim : Nat) : Except String (Array2 F) :=
  dotChecked (of scores.nrows scores.ncols fun i => softmaxInplace scores.ncols (masked hidden scale scores i))
    (columns kvOff headDim v)

def headScores (q k : Array2 F) (qOff kvOff headDim : Nat) : Except String (Array2 F) :=
  dotChecked (columns qOff headDim q) (columns kvOff headDim k).transpose

-- Every query head against the key and value head of its group.
def attendHeads (q k v : Array2 F) (numQHeads numKvHeads headDim : Nat) (hidden : Nat → Nat → Bool) : Except String (Array2 F) := do
  let group := numQHeads / numKvHeads
  let scale := 1 / Platform.sqrt (headDim : F)
  let heads ← (List.range numQHeads).mapM fun qh => do
    let scores ← headScores q k (qh * headDim) (qh / group * headDim) headDim
    headContext hidden scale scores v (qh / group * headDim) headDim
  return beside q.nrows headDim heads

def ensure (holds : Prop) [Decidable holds] (text : String) : Except String Unit := if holds then .ok () else .error text

def groupedHeads (numQHeads numKvHeads : Nat) : Except String Unit := do
  ensure (numKvHeads ≤ numQHeads) "assertion failed: num_q_heads >= num_kv_heads"
  ensure (numKvHeads ≠ 0) "attempt to calculate the remainder with a divisor of zero"
  ensure (numQHeads % numKvHeads = 0) "assertion failed: (left == right)"

def headWidths (q k v : Array2 F) (numQHeads numKvHeads headDim : Nat) : Except String Unit := do
  ensure (q.ncols = numQHeads * headDim) "assertion failed: (left == right)"
  ensure (k.ncols = numKvHeads * headDim) "assertion failed: (left == right)"
  ensure (v.ncols = numKvHeads * headDim) "assertion failed: (left == right)"

def causalGqaAttention (q k v : Array2 F) (numQHeads numKvHeads headDim : Nat) : Except String (Array2 F) := do
  groupedHeads numQHeads numKvHeads
  headWidths q k v numQHeads numKvHeads headDim
  attendHeads q k v numQHeads numKvHeads headDim fun i j => decide (i < j)

def cachedRows (q k v : Array2 F) (qPosOffset : Nat) (kind : String) : Except String Unit := do
  ensure (v.nrows = k.nrows) "assertion failed: (left == right): K and V must agree on n_kv"
  ensure (q.nrows + qPosOffset ≤ k.nrows) s!"{kind} attention: q_pos_offset {qPosOffset} + n_q {q.nrows} > n_kv {k.nrows}"

def causalGqaAttentionCached (q k v : Array2 F) (numQHeads numKvHeads headDim qPosOffset : Nat) : Except String (Array2 F) := do
  groupedHeads numQHeads numKvHeads
  cachedRows q k v qPosOffset "asymmetric"
  headWidths q k v numQHeads numKvHeads headDim
  attendHeads q k v numQHeads numKvHeads headDim fun i j => decide (qPosOffset + i < j)

-- A query sees the window of places that ends with its own.
def causalGqaAttentionSwaCached (q k v : Array2 F) (numQHeads numKvHeads headDim qPosOffset window : Nat) : Except String (Array2 F) := do
  groupedHeads numQHeads numKvHeads
  ensure (0 < window) "swa window must be > 0"
  cachedRows q k v qPosOffset "swa"
  headWidths q k v numQHeads numKvHeads headDim
  attendHeads q k v numQHeads numKvHeads headDim fun i j =>
    decide (j < qPosOffset + i - (window - 1)) || decide (qPosOffset + i < j)

end Kernels

section Offloaded
variable {S F : Type} [Field F] [LinearOrder F] [IsStrictOrderedRing F] [Platform F] [Exponential F] [TrustedExecutor S F]

def orPanicked {σ α : Type} (x : Except String α) : EStateM Fault σ α := fun s =>
  match x with
  | .ok a => .ok a s
  | .error text => .error (.panic text) s

-- A head's columns, which are there or the slice panics.
def headSlice (a : Array2 F) (lo width : Nat) : Except String (Array2 F) :=
  if lo + width ≤ a.ncols then .ok (columns lo width a) else .error Gelo.outOfBounds

-- The heads as planes; a key or value head once for each query head of its group.
def packHeads (a : Array2 F) (n numQHeads group headDim : Nat) : Except String (Array3 F) := do
  let planes ← (List.range numQHeads).mapM fun qh => do spread n headDim (← headSlice a (qh / group * headDim) headDim)
  return .stack n headDim planes

def unpackHeads (a : Array3 F) (n numQHeads headDim : Nat) : Except String (Array2 F) := do
  let heads ← (List.range numQHeads).mapM fun qh => do spread n headDim (← indexAxis a qh)
  return beside n headDim heads

def causalGqaAttentionWithOffload (q k v : Array2 F) (numQHeads numKvHeads headDim : Nat) : EStateM Fault S (Array2 F) := do
  orPanicked (groupedHeads numQHeads numKvHeads)
  let group := numQHeads / numKvHeads
  let scale := 1 / Platform.sqrt (headDim : F)
  let qBatched ← orPanicked (packHeads q q.nrows numQHeads 1 headDim)
  let keys ← orPanicked (packHeads k q.nrows numQHeads group headDim)
  let scoresBatched ← TrustedExecutor.offloadAttentionQktBatched qBatched keys.transposed
  orPanicked do
    let heads ← (List.range numQHeads).mapM fun qh => do
      let scores ← indexAxis scoresBatched qh
      let _ ← headSlice v (qh / group * headDim) headDim
      let context ← headContext (fun i j => decide (i < j)) scale scores v (qh / group * headDim) headDim
      spread q.nrows headDim context
    return beside q.nrows headDim heads

def causalGqaAttentionPermuted (q k v : Array2 F) (numQHeads numKvHeads headDim : Nat) : EStateM Fault S (Array2 F) := do
  orPanicked (groupedHeads numQHeads numKvHeads)
  let group := numQHeads / numKvHeads
  let q3 ← orPanicked (packHeads q q.nrows numQHeads 1 headDim)
  let k3 ← orPanicked (packHeads k q.nrows numQHeads group headDim)
  let v3 ← orPanicked (packHeads v q.nrows numQHeads group headDim)
  let out3 ← TrustedExecutor.offloadAttentionPermuted q3 k3 v3 (1 / Platform.sqrt (headDim : F)) .causal
  orPanicked (unpackHeads out3 q.nrows numQHeads headDim)

def causalGqaAttentionPermutedCached (q k v : Array2 F) (numQHeads numKvHeads headDim qPosOffset : Nat) : EStateM Fault S (Array2 F) := do
  orPanicked (groupedHeads numQHeads numKvHeads)
  orPanicked (cachedRows q k v qPosOffset "asymmetric")
  orPanicked (headWidths q k v numQHeads numKvHeads headDim)
  let group := numQHeads / numKvHeads
  let q3 ← orPanicked (packHeads q q.nrows numQHeads 1 headDim)
  let k3 ← orPanicked (packHeads k k.nrows numQHeads group headDim)
  let v3 ← orPanicked (packHeads v k.nrows numQHeads group headDim)
  let out3 ← TrustedExecutor.offloadAttentionPermutedCached q3 k3 v3 (1 / Platform.sqrt (headDim : F)) qPosOffset .causal
  orPanicked (unpackHeads out3 q.nrows numQHeads headDim)

end Offloaded
end Embedder
