import GeloLightrag.RingOram.Placement

namespace RingOram
open Foundation

theorem Stash.peek_push (stash : Stash) (block : Block) (fresh : stash.peek block.id = none) (id : BlockId) :
    (stash.push block fresh).peek id = if block.id = id then some block else stash.peek id := by
  unfold push peek
  rw [List.find?_cons]
  by_cases same : block.id = id <;> simp [same]

-- Of the copies of a block that are drained the first stays, unless the stash has one.
theorem Stash.peek_gather {id : BlockId} (real : id.isDummy = false) (blocks : List Block) (stash : Stash) :
    (gather blocks stash).peek id = (stash.peek id).or (blocks.find? fun b => decide (b.id = id)) := by
  induction blocks generalizing stash with
  | nil => exact Option.or_none.symm
  | cons block rest ih =>
      rw [List.find?_cons]
      unfold gather
      by_cases named : block.id = id
      · subst named
        rw [decide_eq_true rfl]
        split
        · rename_i fresh
          rw [ih,peek_push,if_pos rfl,fresh.2]
          rfl
        · rename_i held
          obtain ⟨x,is⟩ := Option.ne_none_iff_exists'.mp fun none_ => held ⟨real,none_⟩
          rw [ih,is]
          rfl
      · rw [decide_eq_false named]
        split
        · rw [ih,peek_push,if_neg named]
        · exact ih stash

variable {params : RingOramParams} {memory : Memory} {at_ : Placement} {ids : List Nat} {id : BlockId}

-- The latest copy is the one that a read of the block's path finds; older ones may lie
-- elsewhere on the tree, and behind it on the path.
structure Current (params : RingOramParams) (memory : Memory) (at_ : Placement) : Prop where
  named : Named params memory at_.posmap
  stashed : ∀ x ∈ at_.stash.blocks, memory x.id = some x.payload
  first : ∀ id p, at_.posmap id = some p → ∃ x, (at_.opened (params.path p)).peek id = some x ∧ memory id = some x.payload

theorem Recoverable.current (fits : params.Fits) (recoverable : Recoverable params memory at_) : Current params memory at_ := by
  refine ⟨recoverable.named,recoverable.stashed,fun id p assigned => ?_⟩
  have inside : ∀ b ∈ params.path p, b < params.buckets := fun b member => path_inside fits (recoverable.named.leaf id p assigned) member
  obtain ⟨y,member,rfl⟩ := recoverable.opened_holds fits assigned
  exact ⟨y,Stash.peek_some.mpr ⟨member,rfl⟩,recoverable.opened_honest inside member⟩

namespace Current

-- A path is drained of latest copies alone and repacked: whatever copies it had, and
-- whatever lie on other paths, reads still find the latest.
theorem settle (top : Nat) (fits : params.Fits) (leaf : q < params.nLeaves) (current : Current params memory at_)
    (latest : ∀ x ∈ (at_.opened (params.path q)).blocks, memory x.id = some x.payload)
    (named : Named params memory posmap) (remapped : Remapped at_.posmap posmap (at_.opened (params.path q)))
    (repacked : Repacked params posmap (params.path q) (at_.opened (params.path q)) left fresh) (all : ∀ b, kept b = true) :
    Current params memory (at_.settled posmap top (params.path q) left fresh kept) := by
  have full : ∀ x, x ∈ (at_.opened (params.path q)).blocks ↔ x ∈ left.blocks ∨ x ∈ (params.path q).flatMap fresh := by
    intro x
    rw [←repacked.parts.mem_iff,List.mem_append]
  refine ⟨named,fun x member => latest x ((full x).mpr (.inl member)),fun id p assigned => ?_⟩
  change posmap id = some p at assigned
  have real := named.real assigned
  have shallow : treeLevels params.nLeaves ≤ 32 := Nat.le_succ_of_le fits.tree
  obtain ⟨front,back,_,path,path',apart⟩ := CompleteTree.branch_forks params.levels
    (Nat.lt_of_lt_of_le (named.leaf id p assigned) (leaves_fit shallow)) (Nat.lt_of_lt_of_le leaf (leaves_fit shallow))
  change params.path p = front ++ back at path
  change params.path q = front ++ _ at path'
  -- what lies on the block's path afterwards: fresh buckets as far as the paths run
  -- together, and old ones beyond
  have rewritten : (params.path p).flatMap (RingOramClient.refilled top (params.path q) fresh kept at_.tree) =
      front.flatMap fresh ++ back.flatMap at_.tree := by
    rw [path,List.flatMap_append,List.flatMap_def,List.flatMap_def]
    congr 1
    · refine congrArg List.flatten (List.map_congr_left fun b member => ?_)
      exact if_pos ⟨by rw [path']; exact List.mem_append_left _ member,.inr (all b)⟩
    · rw [List.flatMap_def]
      refine congrArg List.flatten (List.map_congr_left fun b member => ?_)
      exact if_neg fun opened => apart b member opened.1
  have seen : ((at_.settled posmap top (params.path q) left fresh kept).opened (params.path p)).peek id =
      (left.peek id).or (((front.flatMap fresh).find? fun b => decide (b.id = id)).or ((back.flatMap at_.tree).find? fun b => decide (b.id = id))) := by
    unfold Placement.opened Placement.settled
    rw [rewritten,Stash.peek_gather real,List.find?_append]
  rw [seen]
  cases held : (at_.opened (params.path q)).peek id with
  | some x =>
      -- drained: it is in the stash, or ahead of all others on its path
      obtain ⟨member,rfl⟩ := Stash.peek_some.mp held
      have found : ∀ y, (left.peek x.id).or (((front.flatMap fresh).find? fun b => decide (b.id = x.id))) = some y → memory x.id = some y.payload := by
        intro y found
        rcases Option.or_eq_some_iff.mp found with stashed | ⟨_,seat⟩
        · obtain ⟨inside,same⟩ := Stash.peek_some.mp stashed
          rw [←same]
          exact latest y ((full y).mpr (.inl inside))
        · have same : y.id = x.id := by simpa using List.find?_some seat
          obtain ⟨b,opened,inside⟩ := List.mem_flatMap.mp (List.mem_of_find?_eq_some seat)
          rw [←same]
          exact latest y ((full y).mpr (.inr (List.mem_flatMap.mpr ⟨b,by rw [path']; exact List.mem_append_left _ opened,inside⟩)))
      have some_ : ((left.peek x.id).or ((front.flatMap fresh).find? fun b => decide (b.id = x.id))).isSome := by
        rw [Option.isSome_or,Bool.or_eq_true]
        rcases (full x).mp member with stashed | seat
        · exact .inl (by rw [Stash.peek_some.mpr ⟨stashed,rfl⟩]; rfl)
        · refine .inr ?_
          obtain ⟨b,opened,inside⟩ := List.mem_flatMap.mp seat
          obtain ⟨_,again,crossed⟩ := repacked.seated b opened x inside
          rw [assigned] at again
          cases again
          rw [path] at crossed
          rcases List.mem_append.mp crossed with here | beyond
          · rw [List.find?_isSome]
            exact ⟨x,List.mem_flatMap.mpr ⟨b,here,inside⟩,decide_eq_true rfl⟩
          · exact absurd opened (apart b beyond)
      obtain ⟨y,is⟩ := Option.isSome_iff_exists.mp some_
      rw [←Option.or_assoc,is]
      exact ⟨y,rfl,found y is⟩
  | none =>
      -- not drained: none of the buckets that the paths share has it, before or after
      have missing := Stash.peek_none.mp held
      have unstashed : left.peek id = none := Stash.peek_none.mpr fun x member => missing x ((full x).mpr (.inl member))
      have unseated : (front.flatMap fresh).find? (fun b => decide (b.id = id)) = none := by
        rw [List.find?_eq_none]
        intro x member
        obtain ⟨b,opened,inside⟩ := List.mem_flatMap.mp member
        simpa using missing x ((full x).mpr (.inr (List.mem_flatMap.mpr ⟨b,by rw [path']; exact List.mem_append_left _ opened,inside⟩)))
      have still : at_.posmap id = some p := by
        rcases remapped id with same | ⟨x,member,is⟩
        · rwa [←same]
        · exact absurd is (missing x member)
      obtain ⟨x,found,value⟩ := current.first id p still
      rw [Placement.opened,Stash.peek_gather real] at held found
      obtain ⟨unheld,undrained⟩ := Option.or_eq_none_iff.mp held
      rw [path',List.flatMap_append,List.find?_append,Option.or_eq_none_iff] at undrained
      rw [unheld,path,List.flatMap_append,List.find?_append,undrained.1] at found
      rw [unstashed,unseated]
      exact ⟨x,found,value⟩

-- An id admitted, perhaps again: its new copy is in the stash, ahead of any on the tree.
theorem put (current : Current params memory at_) {payload : Bytes} (fresh : at_.stash.peek id = none) (leaf : q < params.nLeaves)
    (real : id.isDummy = false) (sized : payload.length = params.blockBytes) :
    Current params (Function.update memory id (some payload)) ⟨Function.update at_.posmap id (some q),at_.stash.push ⟨id,payload⟩ fresh,at_.tree⟩ := by
  refine ⟨current.named.update leaf real sized,fun x member => ?_,fun other p assigned => ?_⟩
  · rcases List.mem_cons.mp member with rfl | old
    · exact Function.update_self ..
    · rw [Function.update_of_ne (Stash.peek_none.mp fresh x old)]
      exact current.stashed x old
  · change Function.update at_.posmap id (some q) other = some p at assigned
    unfold Placement.opened
    by_cases same : other = id
    · subst same
      rw [Stash.peek_gather real,Stash.peek_push,if_pos rfl,Function.update_self]
      exact ⟨_,rfl,rfl⟩
    · rw [Function.update_of_ne same] at assigned ⊢
      obtain ⟨x,found,value⟩ := current.first other p assigned
      have genuine := current.named.real assigned
      rw [Placement.opened,Stash.peek_gather genuine] at found
      rw [Stash.peek_gather genuine,Stash.peek_push,if_neg (Ne.symm same)]
      exact ⟨x,found,value⟩

end Current
end RingOram
