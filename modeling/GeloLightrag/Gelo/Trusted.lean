import GeloLightrag.Foundation.Checked
import GeloLightrag.Gelo.OutAttnMult

set_option linter.unusedSectionVars false

namespace Gelo
open Foundation Array2

-- A table per layer of eight-bit entries, a row of them for each token.
structure PleTable (F : Type) [Zero F] [LT F] where
  data : List (List Int)
  vocabSize : Nat
  dPle : Nat
  scale : F
  layered : data ≠ []
  positive : 0 < scale
  full : ∀ slab ∈ data, slab.length = vocabSize * dPle

section Tables
variable {F : Type} [Field F] [LinearOrder F] [IsStrictOrderedRing F]

def PleTable.gatherRow (table : PleTable F) (layer : List Int) (token : Nat) : Except String (List F) :=
  if table.vocabSize ≤ token then .error s!"PleTable: token_id {token} out of vocab range (vocab_size = {table.vocabSize})"
  else .ok (((layer.drop (token * table.dPle)).take table.dPle).map fun b => (b : F) * (1 / table.scale))

def PleTable.gather (table : PleTable F) (tokenIds : List Nat) (layerIdx : Nat) : Except String (Array2 F) :=
  match table.data[layerIdx]? with
  | none => .error s!"PleTable: layer_idx {layerIdx} out of range (have {table.data.length})"
  | some layer => do
    let rows ← tokenIds.mapM (table.gatherRow layer)
    return of tokenIds.length table.dPle fun i j => (rows.getD i []).getD j 0

theorem PleTable.gather_refuses {table : PleTable F} (refused : table.gather tokenIds layerIdx = .error text) : Opens 'P' text := by
  unfold PleTable.gather at refused
  split at refused
  · cases refused
    simp [Opens,toString]
  · rename_i layer _
    cases rows : tokenIds.mapM (table.gatherRow layer) with
    | ok listed => rw [rows] at refused; cases refused
    | error e =>
      rw [rows] at refused
      cases refused
      obtain ⟨_,token,_,_,_,beyond⟩ := mapM_error_iff.mp rows
      unfold PleTable.gatherRow at beyond
      split at beyond
      · cases beyond
        simp [Opens,toString]
      · cases beyond

end Tables

inductive ForwardSessionShape where
  | single (n : Nat)
  | prefillBatch (batchSize nMax : Nat)
  | decodeBatch (batchSize : Nat)
deriving DecidableEq

section Plain
variable {F : Type} [Field F] [LinearOrder F] [IsStrictOrderedRing F] [Exponential F]

-- The softmax of a row of scores; a score of minus infinity weighs nothing.
def softmaxAllowed (count : Nat) (score : Nat → Option F) : Nat → F :=
  let allowed := (List.range count).filterMap score
  let top := (allowed.max?).getD 0
  let e := fun j => (score j).elim 0 fun s => Exponential.exp (s - top)
  let sum := ∑ l ∈ Finset.range count, e l
  fun j => if 0 < sum then e j * (1 / sum) else e j

def dotChecked (a b : Array2 F) : Except String (Array2 F) :=
  if a.ncols = b.nrows then .ok (a.dot b)
  else .error s!"ndarray: inputs {a.nrows} × {a.ncols} and {b.nrows} × {b.ncols} are not compatible for matrix multiplication"

def plainHead (q k v : Array3 F) (scale : F) (qPosOffset : Nat) (mask : AttentionMask) (h : Nat) : Except String (Array2 F) := do
  let qh ← indexAxis q h
  let kh ← indexAxis k h
  let vh ← indexAxis v h
  let scores ← dotChecked qh kh.transpose
  let score := fun i j => if mask = .causal ∧ qPosOffset + i < j then none else some (scores.entry i j * scale)
  let out ← dotChecked (of scores.nrows scores.ncols fun i => softmaxAllowed scores.ncols (score i)) vh
  spread q.rows q.cols out

-- Attention on this side, with no protection and no engine.
def plainAttention (q k v : Array3 F) (scale : F) (qPosOffset : Nat) (mask : AttentionMask) : Except String (Array3 F) := do
  let heads ← (List.range q.planes).mapM (plainHead q k v scale qPosOffset mask)
  return .stack q.rows q.cols heads

end Plain

-- The trait with the bodies it gives. `BATCHED_DECODE_SHARED_A` comes with the call.
class TrustedExecutor (S : Type) (F : outParam Type) [Field F] [LinearOrder F] [IsStrictOrderedRing F] [Exponential F] where
  provisionWeight : WeightHandle → Array2 F → EStateM Fault S Unit
  beginForwardPass : Nat → EStateM Fault S Unit := fun _ => return
  endForwardPass : EStateM Fault S Unit := return
  beginPrefillPass : Nat → Nat → EStateM Fault S Unit := fun batchSize nMax => beginForwardPass (saturatingMul batchSize nMax)
  beginDecodePass : Bool → Nat → EStateM Fault S Unit := fun _ batchSize => beginForwardPass batchSize
  beginForwardSession : Bool → ForwardSessionShape → EStateM Fault S Unit := fun shared shape =>
    match shape with
    | .single n => beginForwardPass n
    | .prefillBatch batchSize nMax => beginPrefillPass batchSize nMax
    | .decodeBatch batchSize => beginDecodePass shared batchSize
  setRngStream : Nat → EStateM Fault S Unit := fun _ => return
  provisionWeightShared : WeightHandle → Array2 F → EStateM Fault S Unit := provisionWeight
  provisionWeightBf16 : WeightHandle → Array2 (BitVec 16) → EStateM Fault S Unit
  provisionWeightBf16Shared : WeightHandle → Array2 (BitVec 16) → EStateM Fault S Unit := provisionWeightBf16
  provisionPleTable : PleTable F → EStateM Fault S Unit := fun _ =>
    throw (.error "TrustedExecutor: provision_ple_table not implemented for this executor")
  pleGather : List Nat → Nat → EStateM Fault S (Array2 F) := fun _ _ =>
    throw (.error "TrustedExecutor: ple_gather called without a provisioned PLE table")
  offloadLinear : WeightHandle → Array2 F → EStateM Fault S (Array2 F)
  offloadQkv : Nat → Array2 F → EStateM Fault S (Array2 F × Array2 F × Array2 F) := fun layer hidden => do
    let q ← offloadLinear ⟨layer,.q⟩ hidden
    let k ← offloadLinear ⟨layer,.k⟩ hidden
    let v ← offloadLinear ⟨layer,.v⟩ hidden
    return (q,k,v)
  offloadLinearMany : List WeightHandle → Array2 F → EStateM Fault S (List (Array2 F)) := fun handles hidden =>
    handles.mapM fun handle => offloadLinear handle hidden
  offloadAttentionQkt : Array2 F → Array2 F → EStateM Fault S (Array2 F) := fun _ _ =>
    throw (.panic "not implemented: offload_attention_qkt not implemented for this executor")
  offloadAttentionQktBatched : Array3 F → Array3 F → EStateM Fault S (Array3 F) := fun q kt => do
    let heads ← (List.range q.planes).mapM fun h => do
      match indexAxis kt h with
      | .error text => throw (.panic text)
      | .ok kth =>
        let scores ← offloadAttentionQkt (q.plane h) kth
        match spread q.rows q.rows scores with
        | .error text => throw (.panic text)
        | .ok scores => return scores
    return .stack q.rows q.rows heads
  offloadAttentionPermuted : Array3 F → Array3 F → Array3 F → F → AttentionMask → EStateM Fault S (Array3 F) :=
    fun q k v scale mask =>
      match plainAttention q k v scale 0 mask with
      | .ok out => return out
      | .error text => throw (.panic text)
  offloadAttentionPermutedCached : Array3 F → Array3 F → Array3 F → F → Nat → AttentionMask → EStateM Fault S (Array3 F) :=
    fun q k v scale qPosOffset mask =>
      if k.rows < q.rows then
        throw (.error s!"offload_attention_permuted_cached: n_q ({q.rows}) > n_kv ({k.rows})")
      else if 2 ^ 64 ≤ qPosOffset + q.rows then throw (.panic "attempt to add with overflow")
      else if k.rows < qPosOffset + q.rows then
        throw (.error s!"offload_attention_permuted_cached: q_pos_offset ({qPosOffset}) + n_q ({q.rows}) must be ≤ n_kv ({k.rows})")
      else match plainAttention q k v scale qPosOffset mask with
        | .ok out => return out
        | .error text => throw (.panic text)

-- The executor with what its attention offloads and gathers read besides.
structure FullExecutor (E F : Type) [Field F] [LinearOrder F] where
  core : InProcessTrustedExecutor E F
  permAttn : PermAttnConfig F
  pleTable : Option (PleTable F)

section Executors
variable {E F : Type} [Field F] [LinearOrder F] [IsStrictOrderedRing F] [Platform F] [Sampling F] [Exponential F]
  [GpuOffloadEngine E F] [RuntimeEngine E F]

abbrev FullM (E F : Type) [Field F] [LinearOrder F] := EStateM Fault (FullExecutor E F)

def onCore {α : Type} (x : ExecM E F α) : FullM E F α := fun s =>
  match x s.core with
  | .ok a core => .ok a {s with core:=core}
  | .error e core => .error e {s with core:=core}

-- An attention offload borrows the engine and the mask generator.
def lend {α : Type} (x : FullExecutor E F → OffloadM E α) : FullM E F α := fun s =>
  match x s ⟨s.core.engine,s.core.rng⟩ with
  | .ok a left => .ok a {s with core:={s.core with engine:=left.engine,rng:=left.rng}}
  | .error e left => .error e {s with core:={s.core with engine:=left.engine,rng:=left.rng}}

def register16 (call : E → Except String Unit × E) : FullM E F Unit := lend fun _ => ask call

instance FullExecutor.trusted : TrustedExecutor (FullExecutor E F) F where
  provisionWeight handle weight := onCore (InProcessTrustedExecutor.provisionWeight handle weight)
  beginForwardPass n := onCore (InProcessTrustedExecutor.beginForwardPass n)
  endForwardPass := onCore InProcessTrustedExecutor.endForwardPass
  beginPrefillPass batchSize nMax := onCore (InProcessTrustedExecutor.beginPrefillPass batchSize nMax)
  beginDecodePass shared batchSize := onCore (InProcessTrustedExecutor.beginDecodePass shared batchSize)
  setRngStream stream := onCore (modify (InProcessTrustedExecutor.setRngStream stream))
  provisionWeightShared handle weight := onCore (InProcessTrustedExecutor.provisionWeightShared handle weight)
  provisionWeightBf16 handle weight := register16 (RuntimeEngine.registerWeightBf16 F handle weight)
  provisionWeightBf16Shared handle weight := register16 (RuntimeEngine.registerWeightBf16Shared F handle weight)
  provisionPleTable table := modify fun s => {s with pleTable:=some table}
  pleGather tokenIds layerIdx := do
    let s ← get
    match s.pleTable with
    | none => throw (.error "ple_gather: no PLE table provisioned")
    | some table =>
      match table.gather tokenIds layerIdx with
      | .ok rows => return rows
      | .error text => throw (.error text)
  offloadLinear handle hidden := onCore (InProcessTrustedExecutor.offloadLinear handle hidden)
  offloadQkv layer hidden := onCore (InProcessTrustedExecutor.offloadQkv layer hidden)
  offloadLinearMany handles hidden := onCore (InProcessTrustedExecutor.offloadLinearMany handles hidden)
  offloadAttentionQkt q kt := lend fun s => OutAttnMult.offloadQkt q kt s.core.verifyProbes
  offloadAttentionQktBatched q kt := lend fun s => OutAttnMult.offloadQktBatched q kt s.core.verifyProbes
  offloadAttentionPermuted q k v scale mask := lend fun s => permutedAttention q k v scale mask s.permAttn
  offloadAttentionPermutedCached q k v scale qPosOffset mask :=
    lend fun s => permutedAttentionCached q k v scale qPosOffset mask s.permAttn

end Executors

-- The calls of the trait, and what one of them returns.
inductive TrustedCall (F : Type) [Field F] [LinearOrder F] where
  | provisionWeight (handle : WeightHandle) (weight : Array2 F)
  | provisionWeightShared (handle : WeightHandle) (weight : Array2 F)
  | provisionWeightBf16 (handle : WeightHandle) (weight : Array2 (BitVec 16))
  | provisionWeightBf16Shared (handle : WeightHandle) (weight : Array2 (BitVec 16))
  | beginForwardPass (n : Nat)
  | endForwardPass
  | beginPrefillPass (batchSize nMax : Nat)
  | beginDecodePass (shared : Bool) (batchSize : Nat)
  | beginForwardSession (shared : Bool) (shape : ForwardSessionShape)
  | setRngStream (stream : Nat)
  | provisionPleTable (table : PleTable F)
  | pleGather (tokenIds : List Nat) (layerIdx : Nat)
  | offloadLinear (handle : WeightHandle) (hidden : Array2 F)
  | offloadQkv (layer : Nat) (hidden : Array2 F)
  | offloadLinearMany (handles : List WeightHandle) (hidden : Array2 F)
  | offloadAttentionQkt (q kt : Array2 F)
  | offloadAttentionQktBatched (q kt : Array3 F)
  | offloadAttentionPermuted (q k v : Array3 F) (scale : F) (mask : AttentionMask)
  | offloadAttentionPermutedCached (q k v : Array3 F) (scale : F) (qPosOffset : Nat) (mask : AttentionMask)

inductive TrustedReply (F : Type) [Zero F] where
  | done
  | matrices (outs : List (Array2 F))
  | tensor (out : Array3 F)

section Calls
variable {S F : Type} [Field F] [LinearOrder F] [IsStrictOrderedRing F] [Exponential F] [TrustedExecutor S F]

def replying {α : Type} (reply : α → TrustedReply F) (x : EStateM Fault S α) : EStateM Fault S (TrustedReply F) := do
  let a ← x
  return reply a

open TrustedExecutor in
def answer : TrustedCall F → EStateM Fault S (TrustedReply F)
  | .provisionWeight handle weight => replying (fun _ => .done) (provisionWeight handle weight)
  | .provisionWeightShared handle weight => replying (fun _ => .done) (provisionWeightShared handle weight)
  | .provisionWeightBf16 handle weight => replying (fun _ => .done) (provisionWeightBf16 handle weight)
  | .provisionWeightBf16Shared handle weight => replying (fun _ => .done) (provisionWeightBf16Shared handle weight)
  | .beginForwardPass n => replying (fun _ => .done) (beginForwardPass n)
  | .endForwardPass => replying (fun _ => .done) endForwardPass
  | .beginPrefillPass batchSize nMax => replying (fun _ => .done) (beginPrefillPass batchSize nMax)
  | .beginDecodePass shared batchSize => replying (fun _ => .done) (beginDecodePass shared batchSize)
  | .beginForwardSession shared shape => replying (fun _ => .done) (beginForwardSession shared shape)
  | .setRngStream stream => replying (fun _ => .done) (setRngStream stream)
  | .provisionPleTable table => replying (fun _ => .done) (provisionPleTable table)
  | .pleGather tokenIds layerIdx => replying (fun out => .matrices [out]) (pleGather tokenIds layerIdx)
  | .offloadLinear handle hidden => replying (fun out => .matrices [out]) (offloadLinear handle hidden)
  | .offloadQkv layer hidden => replying (fun (q,k,v) => .matrices [q,k,v]) (offloadQkv layer hidden)
  | .offloadLinearMany handles hidden => replying .matrices (offloadLinearMany handles hidden)
  | .offloadAttentionQkt q kt => replying (fun out => .matrices [out]) (offloadAttentionQkt q kt)
  | .offloadAttentionQktBatched q kt => replying .tensor (offloadAttentionQktBatched q kt)
  | .offloadAttentionPermuted q k v scale mask => replying .tensor (offloadAttentionPermuted q k v scale mask)
  | .offloadAttentionPermutedCached q k v scale qPosOffset mask =>
    replying .tensor (offloadAttentionPermutedCached q k v scale qPosOffset mask)

-- One call as its caller sees it: it returns or fails, and the executor goes on.
def respond (s : S) (call : TrustedCall F) : Option (Except Fault (TrustedReply F) × S) :=
  match answer call s with
  | .ok reply t => some (.ok reply,t)
  | .error fault t => some (.error fault,t)

theorem responds (s : S) (call : TrustedCall F) : ∃ reply t, respond s call = some (reply,t) := by
  unfold respond
  cases answer call s with
  | ok reply t => exact ⟨_,_,rfl⟩
  | error fault t => exact ⟨_,_,rfl⟩

end Calls
end Gelo
