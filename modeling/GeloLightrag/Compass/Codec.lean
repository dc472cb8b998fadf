import GeloLightrag.Foundation.Bytes
import GeloLightrag.Foundation.Checked

namespace Compass
open Foundation

-- The four bytes of a scalar, in which nothing of it is lost.
class Float32 (F : Type) where
  toLeBytes : F → Bytes
  fromLeBytes : Bytes → F
  width : ∀ x, (toLeBytes x).length = 4
  from_to : ∀ x, fromLeBytes (toLeBytes x) = x

attribute [simp] Float32.width Float32.from_to

structure NodeBlock (F : Type) where
  embedding : List F
  neighbors : List Nat
deriving DecidableEq,Repr

inductive CodecError where
  | dimMismatch (got expected : Nat)
  | neighborOverflow (got max : Nat)
  | blockTooSmall (dim maxNeighbors needed blockBytes : Nat)
deriving DecidableEq,Repr

inductive CodecFault where
  | error (e : CodecError)
  | panic (text : String)
deriving DecidableEq,Repr

def serialisedSize (dim maxNeighbors : Nat) : Except CodecFault Nat :=
  (do add64 (← add64 (← mul64 4 dim) 4) (← mul64 4 maxNeighbors)).mapError .panic

variable {F : Type} [Float32 F]

-- The embedding, the number of neighbours and their ids, then zeros.
def nodeBytes (node : NodeBlock F) (blockBytes : Nat) : Bytes :=
  let written := (node.embedding.map Float32.toLeBytes).flatten ++ (leBytes 4 node.neighbors.length ++ (node.neighbors.map (leBytes 4)).flatten)
  written ++ List.replicate (blockBytes - written.length) 0

def serialiseNode (node : NodeBlock F) (dim maxNeighbors blockBytes : Nat) : Except CodecFault Bytes := do
  if node.embedding.length ≠ dim then throw (.error (.dimMismatch node.embedding.length dim))
  if maxNeighbors < node.neighbors.length then throw (.error (.neighborOverflow node.neighbors.length maxNeighbors))
  let need ← serialisedSize dim maxNeighbors
  if blockBytes < need then throw (.error (.blockTooSmall dim maxNeighbors need blockBytes))
  return nodeBytes node blockBytes

def deserialiseNode (bytes : Bytes) (dim maxNeighbors : Nat) : Except CodecFault (NodeBlock F) := do
  let need ← serialisedSize dim maxNeighbors
  if bytes.length < need then throw (.error (.blockTooSmall dim maxNeighbors need bytes.length))
  let count := min (ofLeBytes ((bytes.drop (4 * dim)).take 4)) maxNeighbors
  return ⟨(records 4 dim bytes).map Float32.fromLeBytes,(records 4 count (bytes.drop (4 * dim + 4))).map ofLeBytes⟩

theorem serialisedSize_ok (sized : serialisedSize dim maxNeighbors = .ok need) : need = 4 * dim + 4 + 4 * maxNeighbors := by
  unfold serialisedSize at sized
  cases ran : (do add64 (← add64 (← mul64 4 dim) 4) (← mul64 4 maxNeighbors) : Except String Nat) with
  | error text => rw [ran] at sized; cases sized
  | ok n =>
      rw [ran] at sized
      cases sized
      obtain ⟨vector,first,rest⟩ := except_bind_ok.mp ran
      obtain ⟨head,second,rest⟩ := except_bind_ok.mp rest
      obtain ⟨ids,third,last⟩ := except_bind_ok.mp rest
      rw [mul64_ok] at first third
      rw [add64_ok] at second last
      omega

theorem serialiseNode_ok {node : NodeBlock F} : serialiseNode node dim maxNeighbors blockBytes = .ok bytes ↔
    node.embedding.length = dim ∧ node.neighbors.length ≤ maxNeighbors ∧
      (∃ need, serialisedSize dim maxNeighbors = .ok need ∧ need ≤ blockBytes) ∧ bytes = nodeBytes node blockBytes := by
  unfold serialiseNode
  by_cases dims : node.embedding.length = dim
  · by_cases over_ : maxNeighbors < node.neighbors.length
    · rw [if_neg (not_not.mpr dims),if_pos over_]
      exact ⟨fun failed => (by cases failed),fun held => absurd over_ (Nat.not_lt.mpr held.2.1)⟩
    · rw [if_neg (not_not.mpr dims),if_neg over_]
      cases sized : serialisedSize dim maxNeighbors with
      | error fault => exact ⟨fun failed => (by cases failed),fun ⟨_,_,⟨_,known,_⟩,_⟩ => (by cases known)⟩
      | ok need =>
          by_cases small : blockBytes < need
          · refine ⟨fun failed => ?_,fun ⟨_,_,⟨_,known,room⟩,_⟩ => ?_⟩
            · simp [small,bind,Except.bind,throw,throwThe,MonadExceptOf.throw] at failed
            · cases known
              exact absurd small (Nat.not_lt.mpr room)
          · simp [small,bind,Except.bind,pure,Except.pure,dims,Nat.le_of_not_lt over_,Nat.le_of_not_lt small,eq_comm]
  · rw [if_pos dims]
    exact ⟨fun failed => (by cases failed),fun held => absurd held.1 dims⟩

-- What goes into a block comes out of it.
theorem deserialiseNode_serialiseNode {node : NodeBlock F} {bytes : Bytes} (words : ∀ id ∈ node.neighbors, id < 2 ^ 32)
    (few : node.neighbors.length < 2 ^ 32) (written : serialiseNode node dim maxNeighbors blockBytes = .ok bytes) :
    deserialiseNode bytes dim maxNeighbors = .ok node ∧ bytes.length = blockBytes := by
  obtain ⟨dims,fit,⟨need,sized,room⟩,rfl⟩ := serialiseNode_ok.mp written
  have size := serialisedSize_ok sized
  have vector : ((node.embedding.map Float32.toLeBytes).flatten).length = 4 * dim := by
    rw [flatten_length _ (fun row member => by obtain ⟨x,_,rfl⟩ := List.mem_map.mp member; exact Float32.width x),List.length_map,dims,Nat.mul_comm]
  have ids : ((node.neighbors.map (leBytes 4)).flatten).length = 4 * node.neighbors.length := by
    rw [flatten_length _ (fun row member => by obtain ⟨x,_,rfl⟩ := List.mem_map.mp member; exact leBytes_length 4 x),List.length_map,Nat.mul_comm]
  have long : (nodeBytes node blockBytes).length = blockBytes := by
    unfold nodeBytes
    simp only [List.length_append,List.length_replicate,vector,ids,leBytes_length]
    omega
  refine ⟨?_,long⟩
  have front : nodeBytes node blockBytes = (node.embedding.map Float32.toLeBytes).flatten ++ (leBytes 4 node.neighbors.length ++
      ((node.neighbors.map (leBytes 4)).flatten ++ List.replicate (blockBytes - (4 * dim + (4 + 4 * node.neighbors.length))) 0)) := by
    unfold nodeBytes
    simp only [List.append_assoc,List.length_append,vector,ids,leBytes_length]
  have counted : ofLeBytes (((nodeBytes node blockBytes).drop (4 * dim)).take 4) = node.neighbors.length := by
    rw [front,List.drop_left' vector,List.take_left' (leBytes_length 4 _),word_roundtrip (by omega)]
  have rest : (nodeBytes node blockBytes).drop (4 * dim + 4) = (node.neighbors.map (leBytes 4)).flatten ++
      List.replicate (blockBytes - (4 * dim + (4 + 4 * node.neighbors.length))) 0 := by
    rw [front,←List.drop_drop,List.drop_left' vector,List.drop_left' (leBytes_length 4 _)]
  have first : records 4 dim (nodeBytes node blockBytes) = node.embedding.map Float32.toLeBytes := by
    rw [front]
    have table := @records_flatten 4 (node.embedding.map Float32.toLeBytes) (leBytes 4 node.neighbors.length ++
      ((node.neighbors.map (leBytes 4)).flatten ++ List.replicate (blockBytes - (4 * dim + (4 + 4 * node.neighbors.length))) 0))
      (fun row member => by obtain ⟨x,_,rfl⟩ := List.mem_map.mp member; exact Float32.width x)
    rwa [List.length_map,dims] at table
  have second : records 4 node.neighbors.length ((nodeBytes node blockBytes).drop (4 * dim + 4)) = node.neighbors.map (leBytes 4) := by
    rw [rest]
    have table := @records_flatten 4 (node.neighbors.map (leBytes 4))
      (List.replicate (blockBytes - (4 * dim + (4 + 4 * node.neighbors.length))) 0)
      (fun row member => by obtain ⟨x,_,rfl⟩ := List.mem_map.mp member; exact leBytes_length 4 x)
    rwa [List.length_map] at table
  have back : (node.embedding.map Float32.toLeBytes).map Float32.fromLeBytes = node.embedding := by
    rw [List.map_map]
    exact List.map_id'' Float32.from_to _
  have back' : (node.neighbors.map (leBytes 4)).map ofLeBytes = node.neighbors := by
    rw [List.map_map]
    conv_rhs => rw [←List.map_id node.neighbors]
    exact List.map_congr_left fun id member => word_roundtrip (words id member)
  unfold deserialiseNode
  rw [sized]
  simp only [bind,Except.bind,pure,Except.pure]
  rw [if_neg (by omega),counted,Nat.min_eq_left fit,first,second,back,back']

end Compass
