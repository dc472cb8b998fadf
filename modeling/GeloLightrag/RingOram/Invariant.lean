import GeloLightrag.RingOram.Refinement

namespace RingOram
open Foundation

section
variable {params : RingOramParams} {memory : Memory} {at_ : Placement} {id : BlockId}

-- Blocks with the id of a remembered block are copies of it, so ids may be
-- counted in place of blocks.
theorem Placed.one_copy (placed : Placed params memory at_) (value : memory id = some payload) :
    ((at_.stash.blocks ++ (List.range params.buckets).flatMap at_.tree).map Block.id).count id = 1 := by
  have whole : ((at_.stash.blocks ++ (List.range params.buckets).flatMap at_.tree : List Block) : Multiset Block) =
      holdings params at_ := by
    unfold holdings Inventory.total
    have ids : (List.range params.buckets).toFinset = Finset.range params.buckets := by
      ext b
      rw [List.mem_toFinset,List.mem_range,Finset.mem_range]
    rw [←Multiset.coe_add,Inventory.flatMap_sum _ List.nodup_range,ids]
  have copies : ∀ x ∈ at_.stash.blocks ++ (List.range params.buckets).flatMap at_.tree,
      (x.id == id) = true ↔ (x == (⟨id,payload⟩ : Block)) = true := by
    intro x member
    have held : x ∈ holdings params at_ := by rw [←whole]; exact Multiset.mem_coe.mpr member
    have carried := placed.holds.mp held
    rw [beq_iff_eq,beq_iff_eq]
    constructor
    · intro same
      rw [same,value] at carried
      cases x
      simp_all
    · rintro rfl; rfl
  have one := placed.ledger ⟨id,payload⟩
  rw [if_pos value,←whole,Multiset.coe_count] at one
  rw [List.count,List.countP_map]
  exact (List.countP_congr copies).trans one

theorem padded_count (real : id.isDummy = false) (blocks : List Block) :
    ((padded params blocks).map Block.id).count id = (blocks.map Block.id).count id := by
  have apart : (Block.dummy params.blockBytes).id ≠ id := by
    intro same
    rw [←same] at real
    simp [Block.dummy,BlockId.isDummy] at real
  unfold padded
  rw [List.map_append,List.count_append,List.map_replicate,List.count_replicate]
  simp [apart]

end

namespace RingOramClient

-- The slots of a bucket as it lies at the backend.
def storedSlots {B : Type} [BlockBackend B] [LossyBackend B] [AesGcm] (c : RingOramClient B) (b : Nat) : List Block :=
  match aesDecrypt c.key (LossyBackend.bucket c.backend b).bucketId (LossyBackend.bucket c.backend b).writeCounter
    (LossyBackend.bucket c.backend b).ciphertext with
  | .ok pt => (deserialiseBucket pt c.params).toOption.getD []
  | .error _ => []

-- The placement invariant of Ring ORAM in every state that a run reaches.
theorem placement_invariant {B : Type} [BlockBackend B] [LossyBackend B] [FaithfulBackend B] [AesGcm]
    {params : RingOramParams} (leaves : 0 < params.nLeaves) (quota : 0 < params.a) {backend : B} {key : Bytes}
    {tape : Nat → Nat} {hashes : HashOrder} {c last : RingOramClient B} (made : new backend params key tape hashes = .ok c)
    {ops : List Op} (permitted : Permitted (meaningOf params.blockBytes) Admissible nothing ops)
    {replies : List Reply} (ran : run step c ops = some (replies,last)) :
    (∀ id, (last.posmap id).isSome →
      ((last.stash.blocks ++ (List.range params.buckets).flatMap last.storedSlots).map Block.id).count id = 1) ∧
    (∀ b < params.buckets, ∀ x ∈ last.storedSlots b, x.isDummy = false →
      ∃ p path, last.posmap x.id = some p ∧ pathBuckets p params.nLeaves = .ok path ∧ b ∈ path) ∧
    (∀ b < params.buckets, (last.storedSlots b).length = params.z + params.s ∧
      ((last.storedSlots b).filter fun x => !x.isDummy).length ≤ params.z) ∧
    (∀ x ∈ last.stash.blocks, x.isDummy = false ∧ (last.posmap x.id).isSome) ∧
    ∀ b < params.buckets, (LossyBackend.bucket last.backend b).writeCounter = last.counters.getD b 0 := by
  have room : Throughout step Room c ops := run_throughout (fun _ _ _ _ _ related allowed stepped => admissible_step related allowed stepped)
    (made_tracks leaves quota made) permitted ran
  obtain ⟨final,again,tracked⟩ := run_refines (s:=c) (by
    intro s memory op related allowed free
    obtain ⟨next,stepped,tracked,_⟩ := tracks_step related allowed.1 free (allowed.keeps s)
    exact ⟨next,stepped,tracked⟩) (made_tracks leaves quota made) permitted room
  rw [ran] at again
  cases again
  obtain ⟨rfl,_,tree,ready,orderly⟩ := tracked
  have fits := ready.shelved.fits
  have slots : ∀ b < last.params.buckets, last.storedSlots b = padded last.params (tree b) := by
    intro b small
    rw [←ready.shelved.slots small]
    unfold storedSlots
    rw [(orderly.synced b small).1]
    rfl
  have real : ∀ b < last.params.buckets, (padded last.params (tree b)).filter (fun x => !x.isDummy) = tree b := by
    intro b small
    rw [←ready.shelved.slots small]
    exact ready.shelved.contents small
  refine ⟨?_,?_,?_,?_,?_⟩
  · intro id mapped
    obtain ⟨p,assigned⟩ := Option.isSome_iff_exists.mp mapped
    obtain ⟨payload,value⟩ := orderly.placed.named.value assigned
    have genuine := (orderly.placed.named.sound id payload value).1
    rw [←orderly.placed.one_copy value,List.map_append,List.map_append,List.count_append,List.count_append]
    congr 1
    rw [List.map_flatMap,List.map_flatMap,List.count_flatMap,List.count_flatMap]
    congr 1
    apply List.map_congr_left
    intro b member
    show ((last.storedSlots b).map Block.id).count id = ((tree b).map Block.id).count id
    rw [slots b (List.mem_range.mp member),padded_count genuine]
  · intro b small x member genuine
    rw [slots b small] at member
    have stored : x ∈ tree b := by
      rw [←real b small]
      exact List.mem_filter.mpr ⟨member,by simp [genuine]⟩
    obtain ⟨p,assigned,crossed⟩ := orderly.placed.home b small x stored
    exact ⟨p,_,assigned,pathBuckets_path fits (orderly.placed.named.leaf _ p assigned),crossed⟩
  · intro b small
    rw [slots b small,real b small]
    exact ⟨padded_length (ready.shelved.shelf b small).room,orderly.placed.room b small⟩
  · intro x member
    have value := ready.recoverable.stashed x member
    obtain ⟨p,assigned,_⟩ := ready.recoverable.named.assigned value
    refine ⟨(ready.recoverable.named.sound _ _ value).1,?_⟩
    change last.posmap x.id = some p at assigned
    rw [assigned]; rfl
  · intro b small
    obtain ⟨same,_,counted⟩ := orderly.synced b small
    rw [same,counted]

theorem placement_invariant_three_buckets :
    ∃ last, ((@new _ _ AesGcm.framed (InMemoryBlockBackend.new 3) {z:=1,s:=1,a:=2,blockBytes:=1,nLeaves:=2,treetopLevels:=1}
        [] (fun n => n) .asStored).toOption.bind fun c =>
          run (@step _ _ AesGcm.framed) c [.admitBlock ⟨7⟩ [1],.admitBlock ⟨8⟩ [2],.read ⟨7⟩]).map Prod.snd = some last ∧
      ((last.stash.blocks ++ (List.range 3).flatMap (@storedSlots _ _ _ AesGcm.framed last)).map Block.id).count ⟨7⟩ = 1 := by
  have made : @new _ _ AesGcm.framed (InMemoryBlockBackend.new 3) {z:=1,s:=1,a:=2,blockBytes:=1,nLeaves:=2,treetopLevels:=1}
      [] (fun n => n) .asStored = .ok (@planted _ _ AesGcm.framed (blank (InMemoryBlockBackend.new 3)
        {z:=1,s:=1,a:=2,blockBytes:=1,nLeaves:=2,treetopLevels:=1} [] (fun n => n) .asStored)) := rfl
  have went : ((run (@step _ _ AesGcm.framed) (@planted _ _ AesGcm.framed (blank (InMemoryBlockBackend.new 3)
      {z:=1,s:=1,a:=2,blockBytes:=1,nLeaves:=2,treetopLevels:=1} [] (fun n => n) .asStored))
      [.admitBlock ⟨7⟩ [1],.admitBlock ⟨8⟩ [2],.read ⟨7⟩]).map fun r => (r.2.posmap ⟨7⟩).isSome) = some true := by
    decide +kernel
  obtain ⟨⟨replies,last⟩,ran,mapped⟩ := Option.map_eq_some_iff.mp went
  refine ⟨last,by rw [made]; simp [Except.toOption,ran],?_⟩
  exact (@placement_invariant _ _ _ _ AesGcm.framed _ (by decide) (by decide) _ _ _ _ _ _ made
    [.admitBlock ⟨7⟩ [1],.admitBlock ⟨8⟩ [2],.read ⟨7⟩] ⟨⟨⟨rfl,rfl⟩,rfl⟩,⟨⟨rfl,rfl⟩,rfl⟩,⟨trivial,rfl⟩,trivial⟩ _ ran).1 ⟨7⟩ mapped

end RingOramClient
end RingOram
