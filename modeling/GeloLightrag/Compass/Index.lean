import GeloLightrag.Compass.Search
import GeloLightrag.Foundation.Digest
import GeloLightrag.Foundation.Text

namespace Compass
open Foundation RingOram.RingOramClient

-- The layer-0 nodes are in the tree; the rest of an index is in the clear.
structure CompassIndex (B F : Type) extends Cleartext F where
  oram : RingOram.RingOramClient B

abbrev IndexM (B F : Type) := EStateM CompassFault (CompassIndex B F)

def CompassFault.ofOram : RingOram.Fault → CompassFault
  | .error e => .error (.oram e)
  | .dropped => .dropped
  | .panic text => .panic text
  | .diverged => .diverged

def CompassFault.ofCodec : CodecFault → CompassFault
  | .error e => .error (.codec e)
  | .panic text => .panic text

def fromCodec {α σ : Type} : Except CodecFault α → EStateM CompassFault σ α
  | .ok a => pure a
  | .error e => throw (.ofCodec e)

def deriveTestKey [Sha256] (seed : Bytes) (label : String) : Bytes := Sha256.digest (seed ++ utf8 label)

-- What a caller sees: an Err is handed to it, all else ends it too.
def attempt {α σ : Type} (x : EStateM CompassFault σ α) : EStateM CompassFault σ (Except CompassIndexError α) := fun s =>
  match x s with
  | .ok a t => .ok (.ok a) t
  | .error (.error e) t => .ok (.error e) t
  | .error e t => .error e t

section
variable {B F D : Type} [RingOram.BlockBackend B] [AesGcm] [Float32 F]

def inOram {α β : Type} (wrap : RingOram.RingOramClient B → β) (x : RingOram.OramM B α) (oram : RingOram.RingOramClient B) :
    EStateM.Result CompassFault β α :=
  match x oram with
  | .ok a oram => .ok a (wrap oram)
  | .error e oram => .error (.ofOram e) (wrap oram)

def onOram {α : Type} (x : RingOram.OramM B α) : IndexM B F α := fun index => inOram (fun oram => {index with oram:=oram}) x index.oram

def blockId (id : Nat) : RingOram.BlockId := ⟨UInt32.ofNat id⟩

def readLayer0Node : Reader F (CompassIndex B F) := fun id => do
  let bytes ← onOram (read (blockId id))
  let index ← get
  fromCodec (deserialiseNode bytes index.params.hnsw.dim index.params.hnsw.maxNeighborsL0)

-- One node's list is cut to the layer's bound, and the node admitted as a block.
def admitNode (params : CompassIndexParams F) (id : Nat) (node : NodeBlock F) : EStateM CompassFault (RingOram.RingOramClient B) Unit := do
  let bytes ← fromCodec (serialiseNode {node with neighbors:=node.neighbors.take params.hnsw.maxNeighborsL0} params.hnsw.dim
    params.hnsw.maxNeighborsL0 params.oram.blockBytes)
  inOram (fun oram => oram) (admitBlock (blockId id) bytes)

def admitAll (params : CompassIndexParams F) : List (NodeBlock F × Nat) → EStateM CompassFault (RingOram.RingOramClient B) Unit
  | [] => return
  | (node,id) :: rest => do
    admitNode params id node
    admitAll params rest

section Building
variable [Sha256] [Metric F D] [PartialCmp D] [LevelSampler F] [Add F] [Sub F] [Mul F] [Div F] [Neg F] [Zero F] [One F] [NatCast F]
  [PartialCmp F] [Quantised F]

-- The generator gives the words that a seed starts.
def fromPlaintextCorpusOn (embeddings : List (List F)) (params : CompassIndexParams F) (backend : B) (generator : Bytes → Nat → Nat)
    (hashes : RingOram.HashOrder) : Except CompassFault (CompassIndex B F) := do
  let hnsw ← (PlainHnsw.build embeddings params.hnsw).mapError .panic
  let key := deriveTestKey hnsw.params.buildSeed "oram-key"
  let rngSeed := deriveTestKey hnsw.params.buildSeed "oram-rng"
  let oram ← (new backend params.oram key (generator rngSeed) hashes).mapError .ofOram
  let upperLayers := buildUpperLayerCache hnsw
  let layer0Hints ← hnsw.layer0DirectionalHints.mapError .panic
  match admitAll params hnsw.layer0Blocks.zipIdx oram with
  | .error e _ => throw e
  | .ok _ oram => return ⟨⟨params,hnsw.entry,hnsw.topLayer,upperLayers,layer0Hints⟩,oram⟩

end Building

variable [Metric F D] [PartialCmp D] [Add F] [Sub F] [Mul F] [Div F] [Zero F] [One F] [NatCast F] [PartialCmp F]

-- Evictions wait until the search is over, and are flushed even after an Err. The
-- flush's own is returned only if the search had none.
def layeredSearch (query : List F) (k : Nat) : IndexM B F (List Nat) := do
  let index ← get
  if query.length ≠ index.params.hnsw.dim then throw (.panic "query dim mismatch with CompassIndex")
  onOram (setDeferEvictions true)
  let result ← attempt (layeredSearchInner readLayer0Node index.toCleartext query k)
  onOram (setDeferEvictions false)
  let flush ← attempt (onOram flushEvictions)
  match result,flush with
  | .ok ids,.ok _ => return ids
  | .error e,_ => throw (.error e)
  | .ok _,.error e => throw (.error e)

end
end Compass
