import GeloLightrag.Compass.Codec
import GeloLightrag.RingOram.Codec

namespace Compass
open Foundation
open RingOram (RingOramParams Block BlockId serialiseBucket deserialiseBucket padded)

theorem serialisedSize_iff : serialisedSize dim maxNeighbors = .ok need ↔ 4 * dim + 4 + 4 * maxNeighbors < 2 ^ 64 ∧ need = 4 * dim + 4 + 4 * maxNeighbors := by
  constructor
  · intro sized
    refine ⟨?_,serialisedSize_ok sized⟩
    unfold serialisedSize at sized
    cases ran : (do add64 (← add64 (← mul64 4 dim) 4) (← mul64 4 maxNeighbors) : Except String Nat) with
    | error text => rw [ran] at sized; cases sized
    | ok n =>
        obtain ⟨vector,first,rest⟩ := except_bind_ok.mp ran
        obtain ⟨head,second,rest⟩ := except_bind_ok.mp rest
        obtain ⟨ids,third,last⟩ := except_bind_ok.mp rest
        rw [mul64_ok] at first third
        rw [add64_ok] at second last
        omega
  · rintro ⟨small,rfl⟩
    have vector : mul64 4 dim = .ok (4 * dim) := mul64_ok.mpr ⟨by omega,rfl⟩
    have head : add64 (4 * dim) 4 = .ok (4 * dim + 4) := add64_ok.mpr ⟨by omega,rfl⟩
    have ids : mul64 4 maxNeighbors = .ok (4 * maxNeighbors) := mul64_ok.mpr ⟨by omega,rfl⟩
    have whole : add64 (4 * dim + 4) (4 * maxNeighbors) = .ok (4 * dim + 4 + 4 * maxNeighbors) := add64_ok.mpr ⟨small,rfl⟩
    unfold serialisedSize
    simp only [vector,head,ids,whole,bind,Except.bind,Except.mapError]

-- The decoder looks at the length of a text before anything in it: it can only fail
-- at the sum of the sizes.
theorem deserialiseNode_panics {F : Type} [Float32 F] (bytes : Bytes) :
    (∃ text, (deserialiseNode bytes dim maxNeighbors : Except CodecFault (NodeBlock F)) = .error (.panic text)) ↔ 2 ^ 64 ≤ 4 * dim + 4 + 4 * maxNeighbors := by
  constructor
  · rintro ⟨text,failed⟩
    by_contra small
    have sized := serialisedSize_iff.mpr ⟨Nat.lt_of_not_le small,rfl⟩
    unfold deserialiseNode at failed
    rw [sized] at failed
    simp only [bind,Except.bind,pure,Except.pure] at failed
    split at failed <;> cases failed
  · intro wide
    unfold deserialiseNode
    cases sized : serialisedSize dim maxNeighbors with
    | ok need => exact absurd (serialisedSize_iff.mp sized).1 (Nat.not_lt.mpr wide)
    | error fault =>
        cases fault with
        | panic text => exact ⟨text,rfl⟩
        | error e =>
            unfold serialisedSize at sized
            cases ran : (do add64 (← add64 (← mul64 4 dim) 4) (← mul64 4 maxNeighbors) : Except String Nat) with
            | error text => rw [ran] at sized; cases sized
            | ok n => rw [ran] at sized; cases sized

-- A node as its types have it, with no more neighbours than a block has room for.
structure FittingNode (F : Type) (dim maxNeighbors : Nat) where
  embedding : List F
  neighbors : List UInt32
  dims : embedding.length = dim
  bounded : neighbors.length ≤ maxNeighbors

def FittingNode.block {F : Type} {dim maxNeighbors : Nat} (node : FittingNode F dim maxNeighbors) : NodeBlock F :=
  ⟨node.embedding,node.neighbors.map UInt32.toNat⟩

section Layers
variable {F : Type} [Float32 F] {params : RingOramParams} {dim maxNeighbors : Nat}

theorem FittingNode.round_trip (node : FittingNode F dim maxNeighbors) (room : 4 * dim + 4 + 4 * maxNeighbors ≤ params.blockBytes) :
    ∃ bytes, serialiseNode node.block dim maxNeighbors params.blockBytes = .ok bytes ∧ bytes.length = params.blockBytes ∧
      deserialiseNode bytes dim maxNeighbors = .ok node.block := by
  have word := params.words.2.2.2.1
  have bounded : node.block.neighbors.length ≤ maxNeighbors := (List.length_map _).trans_le node.bounded
  have written : serialiseNode node.block dim maxNeighbors params.blockBytes = .ok (nodeBytes node.block params.blockBytes) :=
    serialiseNode_ok.mpr ⟨node.dims,bounded,⟨_,serialisedSize_iff.mpr ⟨by omega,rfl⟩,room⟩,rfl⟩
  have words : ∀ id ∈ node.block.neighbors, id < 2 ^ 32 := by
    intro id member
    obtain ⟨x,_,rfl⟩ := List.mem_map.mp member
    exact x.toNat_lt
  obtain ⟨back,sized⟩ := deserialiseNode_serialiseNode words (by omega) written
  exact ⟨_,written,sized,back⟩

-- A slot of a bucket: a node under its id, or nothing.
abbrev Slot (F : Type) (dim maxNeighbors : Nat) := Option ({id : BlockId // id.isDummy = false} × FittingNode F dim maxNeighbors)

def writeSlot (params : RingOramParams) : Slot F dim maxNeighbors → Except CodecFault Block
  | none => return .dummy params.blockBytes
  | some (id,node) => return ⟨id.val,← serialiseNode node.block dim maxNeighbors params.blockBytes⟩

def readSlot (dim maxNeighbors : Nat) (block : Block) : Except CodecFault (Option (BlockId × NodeBlock F)) := do
  if block.isDummy then return none
  return some (block.id,← deserialiseNode block.payload dim maxNeighbors)

def Slot.content (slot : Slot F dim maxNeighbors) : Option (BlockId × NodeBlock F) := slot.map fun pair => (pair.1.val,pair.2.block)

theorem readSlot_dummy (size : Nat) : readSlot (F:=F) dim maxNeighbors (.dummy size) = .ok none := rfl

theorem slot_round_trip (slot : Slot F dim maxNeighbors) (room : 4 * dim + 4 + 4 * maxNeighbors ≤ params.blockBytes) :
    ∃ block, writeSlot params slot = .ok block ∧ block.payload.length = params.blockBytes ∧ readSlot dim maxNeighbors block = .ok slot.content := by
  cases slot with
  | none => exact ⟨_,rfl,List.length_replicate,rfl⟩
  | some pair =>
      obtain ⟨⟨id,real⟩,node⟩ := pair
      obtain ⟨bytes,written,sized,back⟩ := node.round_trip room
      refine ⟨⟨id,bytes⟩,?_,sized,?_⟩
      · simp only [writeSlot,written,bind,Except.bind,pure,Except.pure]
      · unfold readSlot
        rw [if_neg (by rw [show Block.isDummy ⟨id,bytes⟩ = false from real]; exact Bool.false_ne_true),back]
        rfl

theorem slots_round_trip (slots : List (Slot F dim maxNeighbors)) (room : 4 * dim + 4 + 4 * maxNeighbors ≤ params.blockBytes) :
    ∃ blocks, slots.mapM (writeSlot params) = .ok blocks ∧ blocks.length = slots.length ∧ (∀ block ∈ blocks, block.payload.length = params.blockBytes) ∧
      blocks.mapM (readSlot dim maxNeighbors) = .ok (slots.map Slot.content) := by
  induction slots with
  | nil => exact ⟨[],rfl,rfl,fun _ member => absurd member List.not_mem_nil,rfl⟩
  | cons slot rest ih =>
      obtain ⟨block,written,sized,back⟩ := slot_round_trip slot room
      obtain ⟨blocks,wrote,counted,sizes,backs⟩ := ih
      refine ⟨block :: blocks,?_,congrArg (· + 1) counted,fun other member => ?_,?_⟩
      · rw [List.mapM_cons,written,wrote]
        rfl
      · rcases List.mem_cons.mp member with rfl | member
        · exact sized
        · exact sizes other member
      · rw [List.mapM_cons,back,backs]
        rfl

-- A bucket whose bytes one vector can hold. The tree has no part in it.
def Holds (params : RingOramParams) : Prop := params.z + params.s < 2 ^ 32 ∧ (params.z + params.s) * (4 + params.blockBytes) < 2 ^ 63

def alone (params : RingOramParams) : RingOramParams :=
  {params with nLeaves:=1,treetopLevels:=0,words:=⟨params.words.1,params.words.2.1,params.words.2.2.1,params.words.2.2.2.1,by decide,by decide⟩}

theorem bucket_round_trip {blocks : List Block} (holds : Holds params) (room : blocks.length ≤ params.z + params.s)
    (sized : ∀ block ∈ blocks, block.payload.length = params.blockBytes) :
    ∃ bytes, serialiseBucket blocks params = .ok bytes ∧ deserialiseBucket bytes params = .ok (padded params blocks) := by
  have fits : (alone params).Fits := ⟨(by decide : RingOram.treeLevels 1 ≤ 31),Nat.zero_le 31,holds.1,holds.2⟩
  have written : serialiseBucket blocks (alone params) = .ok (RingOram.bucketPlaintext (alone params) blocks) := RingOram.serialiseBucket_ok fits room sized
  have opened : deserialiseBucket (RingOram.bucketPlaintext (alone params) blocks) (alone params) = .ok (padded (alone params) blocks) :=
    RingOram.deserialiseBucket_bucketPlaintext fits room sized
  exact ⟨_,written,opened⟩

theorem serialiseBucket_holds {blocks : List Block} {bytes : Bytes} (written : serialiseBucket blocks params = .ok bytes) : Holds params := by
  obtain ⟨cap,counted,_⟩ := except_bind_ok.mp written
  exact ⟨(add32_ok.mp counted).1,RingOram.serialiseBucket_sized written⟩

-- Nodes come back from their blocks, blocks from their bucket and nodes from a
-- bucket, dummies as dummies; and of a text of any length the decoder makes a node or
-- an error. All of it but the sums of the sizes, which may overflow.
theorem nested_round_trip (params : RingOramParams) (dim maxNeighbors : Nat) :
    (∀ node : FittingNode F dim maxNeighbors, 4 * dim + 4 + 4 * maxNeighbors ≤ params.blockBytes →
      ∃ bytes, serialiseNode node.block dim maxNeighbors params.blockBytes = .ok bytes ∧ bytes.length = params.blockBytes ∧
        deserialiseNode bytes dim maxNeighbors = .ok node.block) ∧
    (∀ blocks : List Block, blocks.length ≤ params.z + params.s → (∀ block ∈ blocks, block.payload.length = params.blockBytes) →
      ((∃ bytes, serialiseBucket blocks params = .ok bytes ∧ deserialiseBucket bytes params = .ok (padded params blocks)) ↔ Holds params)) ∧
    (∀ slots : List (Slot F dim maxNeighbors), 4 * dim + 4 + 4 * maxNeighbors ≤ params.blockBytes → slots.length ≤ params.z + params.s →
      ((∃ blocks bytes read, slots.mapM (writeSlot params) = .ok blocks ∧ serialiseBucket blocks params = .ok bytes ∧
        deserialiseBucket bytes params = .ok read ∧
        read.mapM (readSlot dim maxNeighbors) = .ok (slots.map Slot.content ++ List.replicate (params.z + params.s - slots.length) none)) ↔ Holds params)) ∧
    ∀ bytes, (∀ text, (deserialiseNode bytes dim maxNeighbors : Except CodecFault (NodeBlock F)) ≠ .error (.panic text)) ↔
      4 * dim + 4 + 4 * maxNeighbors < 2 ^ 64 := by
  refine ⟨fun node room => node.round_trip room,fun blocks room sized => ⟨fun ⟨bytes,written,_⟩ => serialiseBucket_holds written,
    fun holds => bucket_round_trip holds room sized⟩,fun slots wide room => ⟨fun ⟨blocks,bytes,read,_,written,_⟩ => serialiseBucket_holds written,
    fun holds => ?_⟩,fun bytes => ?_⟩
  · obtain ⟨blocks,wrote,counted,sized,back⟩ := slots_round_trip slots wide
    obtain ⟨bytes,written,opened⟩ := bucket_round_trip holds (counted ▸ room) sized
    refine ⟨blocks,bytes,_,wrote,written,opened,?_⟩
    unfold padded
    rw [List.mapM_append,back,counted]
    have rest : (List.replicate (params.z + params.s - slots.length) (Block.dummy params.blockBytes)).mapM (readSlot (F:=F) dim maxNeighbors) =
        .ok (List.replicate (params.z + params.s - slots.length) none) := by
      rw [mapM_ok (g:=fun _ => none) _ fun block member => by
        rw [List.eq_of_mem_replicate member]
        rfl]
      rw [List.map_replicate]
    rw [rest]
    rfl
  · rw [←Nat.not_le,←deserialiseNode_panics (F:=F) bytes,not_exists]

end Layers

-- A capacity of 2^31 + 2^31 slots is no u32, and 2^62 components have no size.
theorem sizes_overflow :
    serialiseBucket [] {z:=2147483648,s:=2147483648,a:=1,blockBytes:=16,nLeaves:=1,treetopLevels:=0} = .error "attempt to add with overflow" ∧
      (@deserialiseNode Unit ⟨fun _ => [0,0,0,0],fun _ => (),fun _ => rfl,fun _ => rfl⟩ [] 4611686018427387904 0) =
        .error (.panic "attempt to multiply with overflow") := ⟨rfl,rfl⟩

end Compass
