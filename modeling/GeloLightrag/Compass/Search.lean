import GeloLightrag.Compass.Hints
import GeloLightrag.RingOram.Client

namespace Compass
open Foundation

structure CompassIndexParams (F : Type) where
  hnsw : PlainHnswParams F
  oram : RingOram.RingOramParams
  efSearch : Nat
  efN : Nat

inductive CompassIndexError where
  | oram (e : RingOram.OramError)
  | codec (e : CodecError)
deriving DecidableEq,Repr

-- How an operation on an index can end without a result.
inductive CompassFault where
  | error (e : CompassIndexError)
  | dropped
  | panic (text : String)
  | diverged
deriving DecidableEq,Repr

-- The fields of an index that are in the clear.
structure Cleartext (F : Type) where
  params : CompassIndexParams F
  entry : Nat
  topLayer : Nat
  upperLayers : List (UpperLayer F)
  layer0Hints : List NodeHints

-- What reads a layer-0 node for a search.
abbrev Reader (F σ : Type) := Nat → EStateM CompassFault σ (NodeBlock F)

-- A copy of the node the graph is built with, in the same order.
abbrev Candidate := OrderedNode

def orPanic {α σ : Type} : Except String α → EStateM CompassFault σ α
  | .ok a => pure a
  | .error text => throw (.panic text)

-- A fresh node among the kept and the candidates, where it has a place.
def Beam.offer {D : Type} [PartialCmp D] (ef : Nat) (node : Candidate D) (beam : Beam D) : Except String (Beam D) := do
  if beam.top.size < ef then return beam.keep node
  let farthest ← beam.farthest
  if lt node.dist farthest then return beam.dropFarthest.keep node
  return beam

section
variable {F D σ : Type} [Metric F D] [PartialCmp D] [Add F] [Sub F] [Mul F] [Div F] [Zero F] [One F] [NatCast F] [PartialCmp F]
  (read : Reader F σ) (clear : Cleartext F) (query : List F)

-- The neighbours of a candidate to fetch: all of them, or the best aligned.
def candidatesForFetch (c : Nat) (node : NodeBlock F) : Except String (List Nat) :=
  if node.neighbors.length ≤ clear.params.efN then .ok node.neighbors
  else do
    let qDir := query.zipWith (· - ·) node.embedding
    let hints ← index clear.layer0Hints c
    let scored ← (node.neighbors.zip hints.packedHints).mapM fun (nbId,packed) => do return (← scorePacked packed qDir,nbId)
    return ((sortBy (fun a b => cmpOrEqual b.1 a.1) scored).take clear.params.efN).map Prod.snd

-- The loop over the neighbours to fetch; each is read when it is first met.
def fetchAll (ef : Nat) : List Nat → Beam D → EStateM CompassFault σ (Beam D)
  | [],beam => return beam
  | nbId :: rest,beam => do
    if nbId ∈ beam.visited then fetchAll ef rest beam
    else
      let nbNode ← read nbId
      let met := {beam with visited:=nbId :: beam.visited}
      fetchAll ef rest (← orPanic (met.offer ef ⟨nbId,cosineDistance query nbNode.embedding⟩))

def searchTurns (ef : Nat) : Nat → Beam D → EStateM CompassFault σ (Beam D)
  | 0,_ => throw (.panic "no end to the search")
  | left+1,beam =>
    match beam.candidates.pop OrderedNode.geq with
    | none => return beam
    | some (c,candidates) => do
      let beam := {beam with candidates:=candidates}
      if ← orPanic (beam.closed ef c) then return beam
      let node ← read c.id
      let ids ← orPanic (candidatesForFetch clear query c.id node)
      searchTurns ef left (← fetchAll read query ef ids beam)

-- Without upper layers the entry's distance takes a read.
def entryDistance : EStateM CompassFault σ D :=
  if clear.topLayer = 0 then do return cosineDistance query (← read clear.entry).embedding
  else
    match upperLayerEmbedding clear.upperLayers clear.entry clear.topLayer with
    | none => throw (.panic "entry must exist at top_layer when top_layer > 0")
    | some embedding => return cosineDistance query embedding

-- The hints have an item for each node, so one more turn than there are nodes is
-- enough for each of the loops.
def turnLimit : Nat := clear.layer0Hints.length + 1

def startBeam (current : Nat × D) : Beam D :=
  ⟨[current.1],BinaryHeap.new.push OrderedNode.geq ⟨current.1,current.2⟩,BinaryHeap.new.push OrderedNode.le ⟨current.1,current.2⟩⟩

def keptBeam (k : Nat) : EStateM CompassFault σ (Beam D) := do
  let distance ← entryDistance read clear query
  let current ← orPanic (upperDescent clear.upperLayers query (turnLimit clear) clear.topLayer (clear.entry,distance))
  searchTurns read clear query (max clear.params.efSearch k) (turnLimit clear) (startBeam current)

def Beam.nearest (k : Nat) (beam : Beam D) : List Nat := ((sortBy OrderedNode.cmp beam.top.toList).take k).map OrderedNode.id

def layeredSearchInner (k : Nat) : EStateM CompassFault σ (List Nat) := do
  return (← keptBeam read clear query k).nearest k

end

-- The reads of a search without an encrypted tree. Each is noted.
def plainReader {F : Type} (blocks : List (NodeBlock F)) : Reader F (List Nat) := fun id => do
  let node ← orPanic (index blocks id)
  modify (· ++ [id])
  return node

end Compass
