import GeloLightrag.Compass.StructuralInvariant

namespace Compass
open Foundation

structure UpperNode (F : Type) where
  embedding : List F
  neighbours : List Nat

-- A layer's HashMap from ids.
abbrev UpperLayer (F : Type) := Nat → Option (UpperNode F)

-- Every key is a node of the graph, so its embedding is there.
def buildUpperLayerCache {F : Type} (hnsw : PlainHnsw F) : List (UpperLayer F) :=
  hnsw.upper.map fun adj id => (adj id).map fun neighbours => ⟨hnsw.embeddings.getD id [],neighbours⟩

section
variable {F D : Type} [Metric F D] [PartialCmp D]

def upperLayerEmbedding (upperLayers : List (UpperLayer F)) (id layer : Nat) : Option (List F) :=
  if layer = 0 then none
  else (upperLayers[layer - 1]?).bind fun nodes => (nodes id).map UpperNode.embedding

def upperLayerNeighbours (upperLayers : List (UpperLayer F)) (id layer : Nat) : List Nat :=
  if layer = 0 then []
  else ((upperLayers[layer - 1]?).bind fun nodes => (nodes id).map UpperNode.neighbours).getD []

-- The loops of the upper-layer descent in `layered_search_inner`.
def upperHop (upperLayers : List (UpperLayer F)) (query : List F) (layer : Nat) : List Nat → Nat × D → Bool → (Nat × D) × Bool
  | [],best,improved => (best,improved)
  | n :: rest,best,improved =>
    match upperLayerEmbedding upperLayers n layer with
    | none => upperHop upperLayers query layer rest best improved
    | some emb =>
      if lt (cosineDistance query emb) best.2 then upperHop upperLayers query layer rest (n,cosineDistance query emb) true
      else upperHop upperLayers query layer rest best improved

def upperTurns (upperLayers : List (UpperLayer F)) (query : List F) (layer : Nat) : Nat → Nat × D → Except String (Nat × D)
  | 0,_ => .error "no end to the descent"
  | turns+1,best =>
    let (next,improved) := upperHop upperLayers query layer (upperLayerNeighbours upperLayers best.1 layer) best false
    if improved then upperTurns upperLayers query layer turns next else .ok next

-- Through the layers top_layer, …, 1; `turns` is one more than there are nodes.
def upperDescent (upperLayers : List (UpperLayer F)) (query : List F) (turns : Nat) : Nat → Nat × D → Except String (Nat × D)
  | 0,best => .ok best
  | layer+1,best => do upperDescent upperLayers query turns layer (← upperTurns upperLayers query (layer + 1) turns best)

variable {upperLayers : List (UpperLayer F)} {query : List F} {holds : Nat → Prop}

theorem upperHop_holds (upperLayers : List (UpperLayer F)) (query : List F) (layer : Nat) (nbrs : List Nat) (fine : ∀ a ∈ nbrs, holds a) (best : Nat × D) (improved : Bool)
    (now : holds best.1) : holds (upperHop upperLayers query layer nbrs best improved).1.1 := by
  induction nbrs generalizing best improved with
  | nil => exact now
  | cons a rest ih =>
      have others := fun b member => fine b (List.mem_cons_of_mem _ member)
      unfold upperHop
      cases upperLayerEmbedding upperLayers a layer with
      | none => exact ih others best improved now
      | some emb =>
          dsimp only
          split
          · exact ih others _ true (fine a List.mem_cons_self)
          · exact ih others best improved now

theorem upperTurns_holds (layer turns : Nat) (closed : ∀ a, holds a → ∀ b ∈ upperLayerNeighbours upperLayers a layer, holds b)
    (best : Nat × D) (now : holds best.1) :
    Gives True (upperTurns upperLayers query layer turns best) fun out => holds out.1 := by
  induction turns generalizing best with
  | zero => trivial
  | succ turns ih =>
      have next := upperHop_holds upperLayers query layer _ (closed best.1 now) best false now
      unfold upperTurns
      dsimp only
      split
      · exact ih _ next
      · exact next

-- The descent stays where the lists of the layers lead from its start.
theorem upperDescent_holds (holds : Nat → Prop) (turns layer : Nat)
    (closed : ∀ l, 0 < l → l ≤ layer → ∀ a, holds a → ∀ b ∈ upperLayerNeighbours upperLayers a l, holds b)
    (best : Nat × D) (now : holds best.1) :
    Gives True (upperDescent upperLayers query turns layer best) fun out => holds out.1 := by
  induction layer generalizing best with
  | zero => exact now
  | succ layer ih =>
      unfold upperDescent
      refine (upperTurns_holds (layer + 1) turns (closed (layer + 1) (Nat.succ_pos _) (Nat.le_refl _)) best now).bind fun next reached => ?_
      exact ih (fun l above inside => closed l above (by omega)) next reached

end

theorem upperLayerNeighbours_cache {F : Type} (h : PlainHnsw F) (above : 0 < l) (id : Nat) :
    upperLayerNeighbours (buildUpperLayerCache h) id l = h.neighbours l id := by
  unfold upperLayerNeighbours buildUpperLayerCache PlainHnsw.neighbours PlainHnsw.layers Layers.links Layers.table
  rw [if_neg (by omega),if_neg (by omega)]
  cases at_ : h.upper[l - 1]? with
  | none => simp [at_,List.getD_eq_getElem?_getD]
  | some adj => cases held : adj id <;> simp [at_,held,List.getD_eq_getElem?_getD]

end Compass
