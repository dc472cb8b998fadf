import GeloLightrag.Foundation.Array3
import GeloLightrag.Foundation.Machine

namespace Embedder
open Foundation

-- The comparisons of the debug assertions: `x == y`, and `(x - y).abs() < 1e-9`.
class KvScalar (F : Type) extends Zero F where
  eq : F → F → Bool
  close : F → F → Bool

inductive KvFault where
  | error (text : String)
  | panic (text : String)
deriving DecidableEq,Repr

inductive LayerKvStore (F : Type) where
  | separate (k v : Array3 F)
  | shared (kv : Array3 F)

structure LayerKvCache (F : Type) where
  storage : LayerKvStore F
  lens : List Nat

structure KvCache (F : Type) where
  layers : List (LayerKvCache F)
  maxCacheLen : Nat
  kvDim : Nat
  batchSize : Nat

abbrev KvM (F : Type) := EStateM KvFault (KvCache F)

section
variable {F : Type} [KvScalar F]

namespace LayerKvCache

def new (shared : Bool) (batchSize maxCacheLen kvDim : Nat) : LayerKvCache F where
  storage := if shared then .shared (.zeros batchSize maxCacheLen kvDim)
    else .separate (.zeros batchSize maxCacheLen kvDim) (.zeros batchSize maxCacheLen kvDim)
  lens := List.replicate batchSize 0

def isShared (layer : LayerKvCache F) : Bool :=
  match layer.storage with
  | .separate _ _ => false
  | .shared _ => true

def lenB (layer : LayerKvCache F) (b : Nat) : Nat := layer.lens.getD b 0

def viewB (layer : LayerKvCache F) (b : Nat) : Array2 F × Array2 F :=
  match layer.storage with
  | .separate k v => (k.slice b (layer.lenB b),v.slice b (layer.lenB b))
  | .shared kv => (kv.slice b (layer.lenB b),kv.slice b (layer.lenB b))

end LayerKvCache

def arraysEqual (a b : Array2 F) : Bool :=
  decide (a.nrows = b.nrows ∧ a.ncols = b.ncols) &&
    (List.range a.nrows).all fun i => (List.range a.ncols).all fun j => KvScalar.eq (a.entry i j) (b.entry i j)

-- A row of a matrix as a matrix of one row.
def oneRow (a : Array2 F) (b : Nat) : Array2 F := .of 1 a.ncols fun _ d => a.entry b d

def rowsClose (kvDim : Nat) (k v : Array2 F) (b : Nat) : Bool :=
  (List.range kvDim).all fun d => KvScalar.close (k.entry b d) (v.entry b d)

namespace KvCache

-- `new_with_sharing_batched`; the other constructors are it with nothing shared or
-- a single sequence.
def newWithSharingBatched (batchSize numLayers maxCacheLen kvDim : Nat) (shared : List Bool) : Except String (KvCache F) :=
  if shared.length = numLayers then
    .ok ⟨shared.map fun tied => .new tied batchSize maxCacheLen kvDim,maxCacheLen,kvDim,batchSize⟩
  else .error s!"new_with_sharing: shared mask length {shared.length} != num_layers {numLayers}"

def newBatched (batchSize numLayers maxCacheLen kvDim : Nat) : KvCache F :=
  ⟨List.replicate numLayers (.new false batchSize maxCacheLen kvDim),maxCacheLen,kvDim,batchSize⟩

def new (numLayers maxCacheLen kvDim : Nat) : KvCache F := newBatched 1 numLayers maxCacheLen kvDim

def layerAt (li : Nat) : KvM F (LayerKvCache F) := do
  match (← get).layers[li]? with
  | some layer => return layer
  | none => throw (.error s!"KvCache layer index {li} out of range")

def setLayer (li : Nat) (layer : LayerKvCache F) : KvM F Unit :=
  modify fun cache => {cache with layers:=cache.layers.set li layer}

def demand (holds : Prop) [Decidable holds] (text : String) : KvM F Unit :=
  if holds then return () else throw (.error text)

def debugAssert (holds : Bool) (text : String) : Except KvFault Unit := if holds then .ok () else .error (.panic text)

-- The rows written behind sequence b's cursor, which then moves past them.
def put (layer : LayerKvCache F) (b : Nat) (k v : Array2 F) (tied : Bool) (text : String) : Except KvFault (LayerKvCache F) :=
  let cur := layer.lenB b
  match layer.storage with
  | .separate ks vs => .ok ⟨.separate (ks.assign b cur k) (vs.assign b cur v),layer.lens.set b (cur + k.nrows)⟩
  | .shared kv => do
    debugAssert tied text
    return ⟨.shared (kv.assign b cur k),layer.lens.set b (cur + k.nrows)⟩

def checked {α : Type} : Except KvFault α → KvM F α
  | .ok a => pure a
  | .error e => throw e

def appendPrefill (li b : Nat) (newK newV : Array2 F) : KvM F Unit := do
  let cache ← get
  let layer ← layerAt li
  demand (b < cache.batchSize) s!"KvCache append_prefill: batch_idx {b} out of range (batch_size={cache.batchSize})"
  let added := newK.nrows
  demand (newV.nrows = added) s!"KvCache append_prefill: K rows {added} != V rows {newV.nrows}"
  demand (newK.ncols = cache.kvDim) s!"KvCache append_prefill: K width {newK.ncols} != kv_dim {cache.kvDim}"
  demand (newV.ncols = cache.kvDim) s!"KvCache append_prefill: V width {newV.ncols} != kv_dim {cache.kvDim}"
  let cur := layer.lenB b
  demand (cur + added ≤ cache.maxCacheLen)
    s!"KvCache overflow: layer {li} sequence {b} cur {cur} + {added} > max_cache_len {cache.maxCacheLen}"
  let grown ← checked (put layer b newK newV (arraysEqual newK newV)
    s!"KvCache: layer {li} is K=V shared but append got K != V")
  setLayer li grown

-- The loop over the sequences. One that is full ends it in an error, after the
-- sequences before it have had their rows.
def appendRows (li : Nat) (newK newV : Array2 F) : List Nat → KvM F Unit
  | [] => return ()
  | b :: rest => do
    let cache ← get
    let layer ← layerAt li
    let cur := layer.lenB b
    demand (cur + 1 ≤ cache.maxCacheLen)
      s!"KvCache overflow: layer {li} sequence {b} cur {cur} + 1 > max_cache_len {cache.maxCacheLen}"
    let grown ← checked (put layer b (oneRow newK b) (oneRow newV b) (rowsClose cache.kvDim newK newV b)
      s!"KvCache: layer {li} is K=V shared but decode append got K != V at b={b}")
    setLayer li grown
    appendRows li newK newV rest

def appendDecode (li : Nat) (newK newV : Array2 F) : KvM F Unit := do
  let cache ← get
  let _ ← layerAt li
  demand (newK.nrows = cache.batchSize) s!"KvCache append_decode: K rows {newK.nrows} != batch_size {cache.batchSize}"
  demand (newV.nrows = cache.batchSize) s!"KvCache append_decode: V rows {newV.nrows} != batch_size {cache.batchSize}"
  demand (newK.ncols = cache.kvDim) s!"KvCache append_decode: K width {newK.ncols} != kv_dim {cache.kvDim}"
  demand (newV.ncols = cache.kvDim) s!"KvCache append_decode: V width {newV.ncols} != kv_dim {cache.kvDim}"
  appendRows li newK newV (List.range cache.batchSize)

def viewB (cache : KvCache F) (li b : Nat) : Except String (Array2 F × Array2 F) :=
  match cache.layers[li]? with
  | none => .error s!"KvCache layer index {li} out of range"
  | some layer =>
    if b < cache.batchSize then .ok (layer.viewB b)
    else .error s!"KvCache view_b: batch_idx {b} out of range (batch_size={cache.batchSize})"

def reset : KvM F Unit :=
  modify fun cache => {cache with layers:=cache.layers.map fun layer => {layer with lens:=layer.lens.map fun _ => 0}}

end KvCache

inductive KvOp (F : Type) [Zero F] where
  | appendPrefill (li b : Nat) (newK newV : Array2 F)
  | appendDecode (li : Nat) (newK newV : Array2 F)
  | reset

inductive KvReply where
  | done
  | failed (text : String)
deriving DecidableEq,Repr

namespace KvCache

def perform : KvOp F → KvM F Unit
  | .appendPrefill li b newK newV => appendPrefill li b newK newV
  | .appendDecode li newK newV => appendDecode li newK newV
  | .reset => reset

def step (cache : KvCache F) (op : KvOp F) : Option (KvReply × KvCache F) :=
  match perform op cache with
  | .ok _ next => some (.done,next)
  | .error (.error text) next => some (.failed text,next)
  | .error (.panic _) _ => none

end KvCache
end
end Embedder
