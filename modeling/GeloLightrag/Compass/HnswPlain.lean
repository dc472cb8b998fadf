import Mathlib.Logic.Function.Basic
import GeloLightrag.Foundation.BinaryHeap
import GeloLightrag.Foundation.Bytes
import GeloLightrag.Foundation.Checked
import GeloLightrag.Foundation.Ranking

namespace Compass
open Foundation

-- The distance the graph is built with, on any scalars, with values of its own.
class Metric (F : Type) (D : outParam Type) where
  cosineDistance : List F → List F → D

-- The level the seeded generator draws for the i-th node: a u32.
class LevelSampler (F : Type) where
  level : (ml : F) → (buildSeed : Bytes) → Nat → UInt32

export Metric (cosineDistance)

inductive NeighbourHeuristic where
  | algorithm4
  | simple
deriving DecidableEq,Repr

-- The u32s and usizes of the source are numbers here; its casts and sums are checked.
structure PlainHnswParams (F : Type) where
  dim : Nat
  maxNeighborsL0 : Nat
  maxNeighborsUpper : Nat
  efConstruction : Nat
  ml : F
  buildSeed : Bytes
  neighbourHeuristic : NeighbourHeuristic

structure PlainHnsw (F : Type) where
  params : PlainHnswParams F
  embeddings : List (List F)
  levels : List Nat
  layer0 : List (List Nat)
  upper : List (Nat → Option (List Nat))
  entry : Nat
  topLayer : Nat

structure NodeDist (D : Type) where
  id : Nat
  dist : D

structure OrderedNode (D : Type) where
  id : Nat
  dist : D

-- The two adjacency tables while the graph grows.
structure Layers where
  layer0 : List (List Nat)
  upper : List (Nat → Option (List Nat))

def index {α : Type} (items : List α) (i : Nat) : Except String α :=
  match items[i]? with
  | some item => .ok item
  | none => .error "index out of bounds"

-- A vector of four-byte items holds at most isize::MAX bytes.
def withCapacity (items : Nat) : Except String Unit :=
  if 4 * items < 2 ^ 63 then .ok () else .error "capacity overflow"

namespace OrderedNode
variable {D : Type} [PartialCmp D]

def cmp (a b : OrderedNode D) : Ordering := (cmpOrEqual a.dist b.dist).then (compare a.id b.id)
def le (a b : OrderedNode D) : Bool := cmp a b != .gt

-- `std::cmp::Reverse`
def geq (a b : OrderedNode D) : Bool := le b a

end OrderedNode

namespace NodeDist
variable {D : Type} [PartialCmp D]

def sorted (nodes : List (NodeDist D)) : List (NodeDist D) := sortBy (fun a b => cmpOrEqual a.dist b.dist) nodes

end NodeDist

namespace Layers

def neighboursOf (layers : Layers) (id layer : Nat) : Except String (List Nat) :=
  if layer = 0 then index layers.layer0 id
  else do return (← index layers.upper (layer - 1)) id |>.getD []

def setNeighbours (id layer : Nat) (neighbours : List Nat) (layers : Layers) : Except String Layers :=
  if layer = 0 then do
    let _ ← index layers.layer0 id
    return {layers with layer0:=layers.layer0.set id neighbours}
  else do
    let adjacency ← index layers.upper (layer - 1)
    return {layers with upper:=layers.upper.set (layer - 1) (Function.update adjacency id (some neighbours))}

end Layers

section
variable {F D : Type} [Metric F D] [PartialCmp D] (embeddings : List (List F))

def distance (a b : Nat) : Except String D := do
  let left ← index embeddings a
  let right ← index embeddings b
  return cosineDistance left right

-- The for loop of `greedy_one_hop`; the flag is its `improved`.
def hop (target : Nat) : List Nat → Nat × D → Bool → Except String ((Nat × D) × Bool)
  | [],best,improved => .ok (best,improved)
  | n :: rest,best,improved => do
    let d ← distance embeddings target n
    if lt d best.2 then hop target rest (n,d) true else hop target rest best improved

def greedyTurns (target layer : Nat) (layers : Layers) : Nat → Nat × D → Except String (Nat × D)
  | 0,_ => .error "no end to the descent"
  | turns+1,best => do
    let nbrs ← layers.neighboursOf best.1 layer
    let (next,improved) ← hop embeddings target nbrs best false
    if improved then greedyTurns target layer layers turns next else return next

-- Every turn but the last comes closer, which can happen once for each node.
def greedyOneHop (target start : Nat) (startDist : D) (layer : Nat) (layers : Layers) : Except String (Nat × D) := do
  let _ ← index embeddings target
  greedyTurns embeddings target layer layers (embeddings.length + 1) (start,startDist)

structure Beam (D : Type) where
  visited : List Nat
  candidates : BinaryHeap (OrderedNode D)
  top : BinaryHeap (OrderedNode D)

namespace Beam

def seed (target : Nat) (inserted : List Nat) : List Nat → Beam D → Except String (Beam D)
  | [],beam => .ok beam
  | e :: rest,beam =>
    if e ∈ inserted ∧ e ∉ beam.visited then do
      let d ← distance embeddings target e
      seed target inserted rest ⟨e :: beam.visited,beam.candidates.push OrderedNode.geq ⟨e,d⟩,
        beam.top.push OrderedNode.le ⟨e,d⟩⟩
    else seed target inserted rest beam

def farthest (beam : Beam D) : Except String D :=
  match beam.top.peek with
  | some node => .ok node.dist
  | none => .error "non-empty top"

def keep (node : OrderedNode D) (beam : Beam D) : Beam D :=
  {beam with top:=beam.top.push OrderedNode.le node
             candidates:=beam.candidates.push OrderedNode.geq node}

def dropFarthest (beam : Beam D) : Beam D :=
  match beam.top.pop OrderedNode.le with
  | some (_,rest) => {beam with top:=rest}
  | none => beam

def consider (target ef : Nat) (inserted : List Nat) (n : Nat) (beam : Beam D) : Except String (Beam D) := do
  if n ∉ inserted ∨ n ∈ beam.visited then return beam
  let beam := {beam with visited:=n :: beam.visited}
  let d ← distance embeddings target n
  if beam.top.size < ef then return beam.keep ⟨n,d⟩
  let farthest ← beam.farthest
  if lt d farthest then return beam.dropFarthest.keep ⟨n,d⟩
  return beam

def considerAll (target ef : Nat) (inserted : List Nat) : List Nat → Beam D → Except String (Beam D)
  | [],beam => .ok beam
  | n :: rest,beam => do considerAll target ef inserted rest (← consider embeddings target ef inserted n beam)

def closed (ef : Nat) (c : OrderedNode D) (beam : Beam D) : Except String Bool :=
  if ef ≤ beam.top.size then do return gt c.dist (← beam.farthest) else .ok false

def turns (target layer ef : Nat) (inserted : List Nat) (layers : Layers) : Nat → Beam D → Except String (Beam D)
  | 0,_ => .error "no end to the search"
  | left+1,beam =>
    match beam.candidates.pop OrderedNode.geq with
    | none => .ok beam
    | some (c,candidates) => do
      let beam := {beam with candidates:=candidates}
      if ← beam.closed ef c then return beam
      let nbrs ← layers.neighboursOf c.id layer
      turns target layer ef inserted layers left (← considerAll embeddings target ef inserted nbrs beam)

end Beam

-- A node becomes a candidate once, when it is first visited, so the inserted nodes
-- bound the turns.
def beamSearchLayer (target : Nat) (entryPoints : List Nat) (layer ef : Nat) (layers : Layers) (inserted : List Nat) :
    Except String (List (NodeDist D)) := do
  let _ ← index embeddings target
  let seeded ← Beam.seed embeddings target inserted entryPoints ⟨[],.new,.new⟩
  let beam ← Beam.turns embeddings target layer ef inserted layers (inserted.length + 1) seeded
  return NodeDist.sorted (beam.top.toList.map fun node => ⟨node.id,node.dist⟩)

def diverse (cand : NodeDist D) : List Nat → Except String Bool
  | [] => .ok true
  | s :: rest => do
    if lt (← distance embeddings cand.id s) cand.dist then return false
    diverse cand rest

def algorithm4Turns (q m : Nat) : List (NodeDist D) → List Nat → Except String (List Nat)
  | [],selected => .ok selected
  | cand :: rest,selected =>
    if cand.id = q then algorithm4Turns q m rest selected
    else if m ≤ selected.length then .ok selected
    else do
      let _ ← index embeddings cand.id
      if ← diverse embeddings cand selected then algorithm4Turns q m rest (selected ++ [cand.id])
      else algorithm4Turns q m rest selected

def algorithm4Select (q : Nat) (candidates : List (NodeDist D)) (m : Nat) : Except String (List Nat) := do
  let _ ← index embeddings q
  withCapacity m
  algorithm4Turns embeddings q m (NodeDist.sorted candidates) []

-- The match on the heuristic, which the source writes out at both of its uses.
def selectNeighbours (heuristic : NeighbourHeuristic) (q : Nat) (candidates : List (NodeDist D)) (m : Nat) :
    Except String (List Nat) :=
  match heuristic with
  | .algorithm4 => algorithm4Select embeddings q candidates m
  | .simple => .ok (((NodeDist.sorted candidates).take m).map NodeDist.id)

variable (params : PlainHnswParams F)

def maxM (layer : Nat) : Nat := if layer = 0 then params.maxNeighborsL0 else params.maxNeighborsUpper

-- Where s's list grows past its bound it is selected anew from itself and x.
def relink (x layer s : Nat) (layers : Layers) : Except String Layers := do
  let s_n := (← layers.neighboursOf s layer) ++ [x]
  let s_max := maxM params layer
  if s_max < s_n.length then
    let cand ← s_n.mapM fun id => do return NodeDist.mk id (← distance embeddings s id)
    let pruned ← selectNeighbours embeddings params.neighbourHeuristic s cand s_max
    layers.setNeighbours s layer pruned
  else layers.setNeighbours s layer s_n

def linkAt (x layer : Nat) (selected : List Nat) (layers : Layers) : Except String Layers := do
  let layers ← layers.setNeighbours x layer selected
  selected.foldlM (fun layers s => relink embeddings params x layer s layers) layers

-- `for l in (0..=lx).rev()`
def linkDown (x current : Nat) (inserted : List Nat) : Nat → List Nat → Layers → Except String Layers
  | layer,entryAtLayer,layers => do
    let candidates ← beamSearchLayer embeddings x entryAtLayer layer params.efConstruction layers inserted
    let selected ← selectNeighbours embeddings params.neighbourHeuristic x candidates (maxM params layer)
    let layers ← linkAt embeddings params x layer selected layers
    match layer with
    | 0 => return layers
    | below+1 => linkDown x current inserted below (if selected.isEmpty then [current] else selected) layers

structure Growing where
  inserted : List Nat
  layers : Layers

variable (levels : List Nat) (entry topLayer : Nat)

def plantFirst (x lx : Nat) (layers : Layers) : Except String Layers :=
  (List.range lx).foldlM (fun layers l => layers.setNeighbours x (l + 1) []) layers

-- `for l in ((lx + 1)..=top_layer).rev()`
def descend (x lx : Nat) (layers : Layers) : Except String (Nat × D) := do
  let first ← distance embeddings x entry
  let lowest ← add32 lx 1
  (List.range' lowest (topLayer + 1 - lowest)).reverse.foldlM
    (fun current layer => greedyOneHop embeddings x current.1 current.2 layer layers) (entry,first)

def insertNode (x : Nat) (growing : Growing) : Except String Growing := do
  let lx ← index levels x
  if growing.inserted.isEmpty then
    let layers ← plantFirst x lx growing.layers
    return ⟨x :: growing.inserted,layers⟩
  let current ← descend embeddings entry topLayer x lx growing.layers
  let layers ← linkDown embeddings params x current.1 growing.inserted lx [current.1] growing.layers
  return ⟨x :: growing.inserted,layers⟩

def insertionOrder (n : Nat) : List Nat :=
  sortBy (fun a b => (compare (levels.getD b 0) (levels.getD a 0)).then (compare a b)) (List.range n)

end

def sampleLevels {F : Type} [LevelSampler F] (params : PlainHnswParams F) (n : Nat) : List Nat :=
  (List.range n).map fun i => (LevelSampler.level params.ml params.buildSeed i).toNat

def blankLayers (n topLayer : Nat) : Layers := ⟨List.replicate n [],List.replicate topLayer fun _ => none⟩

namespace PlainHnsw
variable {F D : Type} [Metric F D] [PartialCmp D] [LevelSampler F]

def build (embeddings : List (List F)) (params : PlainHnswParams F) : Except String (PlainHnsw F) := do
  let n := embeddings.length % 2 ^ 32
  if n = 0 then throw "PlainHnsw::build needs at least one embedding"
  if embeddings.any fun e => decide (e.length ≠ params.dim) then throw "embedding dim mismatch"
  let levels := sampleLevels params n
  let topLayer := levels.max?.getD 0
  let order := insertionOrder levels n
  let entry ← index order 0
  let grown ← order.foldlM (fun growing x => insertNode embeddings params levels entry topLayer x growing)
    ⟨[],blankLayers n topLayer⟩
  return ⟨params,embeddings,levels,grown.layers.layer0,grown.layers.upper,entry,topLayer⟩

end PlainHnsw
end Compass
