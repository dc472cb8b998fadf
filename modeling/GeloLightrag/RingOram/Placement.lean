import GeloLightrag.Foundation.Inventory
import GeloLightrag.RingOram.PathAccess

namespace RingOram
open Foundation

-- The ORAM as a plain map: what each admitted id was last given.
abbrev Memory := BlockId → Option Bytes

-- Where the blocks are, apart from frames, counters and caches.
structure Placement where
  posmap : PositionMap
  stash : Stash
  tree : Nat → List Block

structure Named (params : RingOramParams) (memory : Memory) (posmap : PositionMap) : Prop where
  known : ∀ id, (posmap id).isSome = (memory id).isSome
  leaf : ∀ id p, posmap id = some p → p < params.nLeaves
  sound : ∀ id payload, memory id = some payload → id.isDummy = false ∧ payload.length = params.blockBytes

-- Enough to read every block back: a copy where a read of its path will see it,
-- and no copy anywhere with another payload. Copies may be several.
structure Recoverable (params : RingOramParams) (memory : Memory) (at_ : Placement) : Prop where
  named : Named params memory at_.posmap
  stashed : ∀ x ∈ at_.stash.blocks, memory x.id = some x.payload
  stored : ∀ b < params.buckets, ∀ x ∈ at_.tree b, memory x.id = some x.payload
  found : ∀ id p, at_.posmap id = some p →
    (∃ x ∈ at_.stash.blocks, x.id = id) ∨ ∃ b ∈ params.path p, ∃ x ∈ at_.tree b, x.id = id

def holdings (params : RingOramParams) (at_ : Placement) : Multiset Block :=
  Inventory.total (at_.stash.blocks : Multiset Block) (fun b => (at_.tree b : Multiset Block)) (Finset.range params.buckets)

-- The placement of Ring ORAM: one copy of each block, and that one in the stash
-- or in a bucket of its path, at most z of them to a bucket.
structure Placed (params : RingOramParams) (memory : Memory) (at_ : Placement) : Prop where
  named : Named params memory at_.posmap
  ledger : ∀ x, (holdings params at_).count x = if memory x.id = some x.payload then 1 else 0
  home : ∀ b < params.buckets, ∀ x ∈ at_.tree b, ∃ p, at_.posmap x.id = some p ∧ b ∈ params.path p
  room : ∀ b < params.buckets, (at_.tree b).length ≤ params.z

variable {params : RingOramParams} {memory : Memory} {at_ : Placement} {ids : List Nat}

theorem path_inside (fits : params.Fits) (leaf : p < params.nLeaves) (member : b ∈ params.path p) : b < params.buckets := by
  have shallow : treeLevels params.nLeaves ≤ 32 := Nat.le_succ_of_le fits.tree
  exact CompleteTree.branch_bound (Nat.lt_of_lt_of_le leaf (leaves_fit shallow)) member

theorem path_nodup (fits : params.Fits) (leaf : p < params.nLeaves) : (params.path p).Nodup := by
  have shallow : treeLevels params.nLeaves ≤ 32 := Nat.le_succ_of_le fits.tree
  exact CompleteTree.branch_nodup (Nat.lt_of_lt_of_le leaf (leaves_fit shallow))

theorem path_root (fits : params.Fits) (leaf : p < params.nLeaves) : (params.path p).head? = some 0 := by
  have shallow : treeLevels params.nLeaves ≤ 32 := Nat.le_succ_of_le fits.tree
  rw [List.head?_eq_getElem?]
  exact CompleteTree.branch_root (treeLevels_pos _) (Nat.lt_of_lt_of_le leaf (leaves_fit shallow))

theorem pathBuckets_path (fits : params.Fits) (leaf : p < params.nLeaves) : pathBuckets p params.nLeaves = .ok (params.path p) := by
  have shallow : treeLevels params.nLeaves ≤ 32 := Nat.le_succ_of_le fits.tree
  exact pathBuckets_branch shallow (Nat.lt_of_lt_of_le leaf (leaves_fit shallow))

theorem mem_holdings : x ∈ holdings params at_ ↔ x ∈ at_.stash.blocks ∨ ∃ b < params.buckets, x ∈ at_.tree b := by
  simp [holdings,Inventory.mem_total]

namespace Placed

theorem holds (placed : Placed params memory at_) : x ∈ holdings params at_ ↔ memory x.id = some x.payload := by
  rw [←Multiset.count_pos,placed.ledger x]
  split <;> simp_all

-- Copies of one id are one block, since both carry its payload.
theorem single (placed : Placed params memory at_) (one : x ∈ holdings params at_) (other : y ∈ holdings params at_)
    (same : x.id = y.id) : x = y := by
  have first := placed.holds.mp one
  have second := placed.holds.mp other
  rw [same,second] at first
  cases x; cases y
  simp_all

theorem recoverable (placed : Placed params memory at_) : Recoverable params memory at_ := by
  refine ⟨placed.named,?_,?_,?_⟩
  · intro x member
    exact placed.holds.mp (mem_holdings.mpr (.inl member))
  · intro b small x member
    exact placed.holds.mp (mem_holdings.mpr (.inr ⟨b,small,member⟩))
  · intro id p assigned
    have present : (memory id).isSome := by rw [←placed.named.known id,assigned]; rfl
    obtain ⟨payload,value⟩ := Option.isSome_iff_exists.mp present
    rcases mem_holdings.mp (placed.holds (x:=⟨id,payload⟩) |>.mpr value) with held | ⟨b,small,held⟩
    · exact .inl ⟨_,held,rfl⟩
    · obtain ⟨q,again,crossed⟩ := placed.home b small _ held
      rw [assigned] at again
      cases again
      exact .inr ⟨b,crossed,_,held,rfl⟩

end Placed

-- What emptying a path into the stash and refilling it keeps: nothing is lost or
-- made, a block goes only where its own path passes, and no bucket is overfull.
structure Repacked (params : RingOramParams) (posmap : PositionMap) (ids : List Nat) (full left : Stash)
    (fresh : Nat → List Block) : Prop where
  parts : (left.blocks ++ ids.flatMap fresh).Perm full.blocks
  seated : ∀ b ∈ ids, ∀ x ∈ fresh b, ∃ p, posmap x.id = some p ∧ b ∈ params.path p
  room : ∀ b ∈ ids, (fresh b).length ≤ params.z

theorem Repacked.none (params : RingOramParams) (posmap : PositionMap) (ids : List Nat) (full : Stash) :
    Repacked params posmap ids full full fun _ => [] :=
  ⟨by rw [List.flatMap_eq_nil_iff.mpr fun _ _ => rfl,List.append_nil],fun _ _ _ member => absurd member List.not_mem_nil,fun _ _ => Nat.zero_le _⟩

-- No bucket holds a copy of the id.
def Absent (params : RingOramParams) (tree : Nat → List Block) (id : BlockId) : Prop :=
  ∀ b < params.buckets, ∀ x ∈ tree b, x.id ≠ id

theorem Repacked.absent {full left : Stash} (repacked : Repacked params posmap ids full left fresh) {id : BlockId}
    (held : ∃ x ∈ left.blocks, x.id = id) (top : Nat) (kept : Nat → Bool) (absent : Absent params tree id) :
    Absent params (RingOramClient.refilled top ids fresh kept tree) id := by
  obtain ⟨x,member,named⟩ := held
  intro b small y inside same
  unfold RingOramClient.refilled at inside
  split at inside
  · rename_i opened
    have once := (repacked.parts.map Block.id).nodup_iff.mpr full.keyed
    rw [List.map_append,List.nodup_append] at once
    have seat : y ∈ ids.flatMap fresh := List.mem_flatMap.mpr ⟨b,opened.1,inside⟩
    exact once.2.2 x.id (List.mem_map_of_mem member) y.id (List.mem_map_of_mem seat) (named.trans same.symm)
  · exact absent b small y inside same

def Placement.opened (at_ : Placement) (ids : List Nat) : Stash := at_.stash.gather (ids.flatMap at_.tree)

namespace Recoverable

theorem opened_honest (recoverable : Recoverable params memory at_) (inside : ∀ b ∈ ids, b < params.buckets)
    (member : x ∈ (at_.opened ids).blocks) : memory x.id = some x.payload := by
  rcases Stash.gather_source _ _ member with held | ⟨fetched,_⟩
  · exact recoverable.stashed x held
  · obtain ⟨b,opened,present⟩ := List.mem_flatMap.mp fetched
    exact recoverable.stored b (inside b opened) x present

theorem opened_finds (recoverable : Recoverable params memory at_) (inside : ∀ b ∈ ids, b < params.buckets)
    (present : x ∈ at_.stash.blocks ∨ ∃ b ∈ ids, x ∈ at_.tree b) : ∃ y ∈ (at_.opened ids).blocks, y.id = x.id := by
  rcases present with held | ⟨b,opened,stored⟩
  · exact ⟨x,Stash.gather_kept _ _ held,rfl⟩
  · have genuine := (recoverable.named.sound _ _ (recoverable.stored b (inside b opened) x stored)).1
    exact Stash.gather_present _ _ (List.mem_flatMap.mpr ⟨b,opened,stored⟩) genuine

-- A read of its path finds a block.
theorem opened_holds {id : BlockId} (fits : params.Fits) (recoverable : Recoverable params memory at_) (assigned : at_.posmap id = some p) :
    ∃ y ∈ (at_.opened (params.path p)).blocks, y.id = id := by
  have inside : ∀ b ∈ params.path p, b < params.buckets := fun b member => path_inside fits (recoverable.named.leaf id p assigned) member
  rcases recoverable.found id p assigned with ⟨x,stashed,rfl⟩ | ⟨b,opened,x,stored,rfl⟩
  · exact recoverable.opened_finds inside (.inl stashed)
  · exact recoverable.opened_finds inside (.inr ⟨b,opened,stored⟩)

end Recoverable

-- The stash when a path has been opened and repacked, and the tree when the part
-- `kept` of what was to be stored away from the root has been stored.
def Placement.settled (at_ : Placement) (posmap : PositionMap) (top : Nat) (ids : List Nat) (left : Stash)
    (fresh : Nat → List Block) (kept : Nat → Bool) : Placement :=
  ⟨posmap,left,RingOramClient.refilled top ids fresh kept at_.tree⟩

-- A remapped block must be one that stays in hand.
def Remapped (old new : PositionMap) (left : Stash) : Prop :=
  ∀ id, new id = old id ∨ ∃ x ∈ left.blocks, x.id = id

theorem Recoverable.settle (top : Nat) (kept : Nat → Bool) (recoverable : Recoverable params memory at_) (inside : ∀ b ∈ ids, b < params.buckets)
    (named : Named params memory posmap) (remapped : Remapped at_.posmap posmap left)
    (repacked : Repacked params posmap ids (at_.opened ids) left fresh)
    (survives : ∀ b ∈ ids, ∀ x ∈ fresh b, b < top ∨ kept b = true ∨ ∃ p, posmap x.id = some p ∧
      ∃ d ∈ params.path p, ∃ y ∈ RingOramClient.refilled top ids fresh kept at_.tree d, y.id = x.id) :
    Recoverable params memory (at_.settled posmap top ids left fresh kept) := by
  have drawn : ∀ x, x ∈ left.blocks ∨ x ∈ ids.flatMap fresh → memory x.id = some x.payload := by
    intro x member
    exact recoverable.opened_honest inside (repacked.parts.mem_iff.mp (List.mem_append.mpr member))
  refine ⟨named,fun x member => drawn x (.inl member),?_,?_⟩
  · intro b small x member
    change x ∈ RingOramClient.refilled top ids fresh kept at_.tree b at member
    unfold RingOramClient.refilled at member
    split at member
    · rename_i new
      exact drawn x (.inr (List.mem_flatMap.mpr ⟨b,new.1,member⟩))
    · exact recoverable.stored b small x member
  · intro id p assigned
    change posmap id = some p at assigned
    -- Found in hand, or placed in this path: the new placement says where.
    have reseated : (∃ y ∈ (at_.opened ids).blocks, y.id = id) →
        (∃ x ∈ left.blocks, x.id = id) ∨
          ∃ b ∈ params.path p, ∃ x ∈ RingOramClient.refilled top ids fresh kept at_.tree b, x.id = id := by
      rintro ⟨y,member,rfl⟩
      rcases List.mem_append.mp (repacked.parts.mem_iff.mpr member) with held | placed
      · exact .inl ⟨y,held,rfl⟩
      · obtain ⟨b,opened,seat⟩ := List.mem_flatMap.mp placed
        obtain ⟨q,again,crossed⟩ := repacked.seated b opened y seat
        rw [assigned] at again
        cases again
        have written : b < top ∨ kept b = true →
            ∃ b ∈ params.path p, ∃ x ∈ RingOramClient.refilled top ids fresh kept at_.tree b, x.id = y.id :=
          fun new => ⟨b,crossed,y,by rw [RingOramClient.refilled,if_pos ⟨opened,new⟩]; exact seat,rfl⟩
        rcases survives b opened y seat with shallow | arrived | ⟨r,same,d,further,z,copy,named⟩
        · exact .inr (written (.inl shallow))
        · exact .inr (written (.inr arrived))
        · rw [assigned] at same
          cases same
          exact .inr ⟨d,further,z,copy,named⟩
    rcases remapped id with same | held
    · rw [same] at assigned
      rcases recoverable.found id p assigned with ⟨x,held,rfl⟩ | ⟨b,crossed,x,held,rfl⟩
      · exact reseated (recoverable.opened_finds inside (.inl held))
      · by_cases opened : b ∈ ids
        · exact reseated (recoverable.opened_finds inside (.inr ⟨b,opened,held⟩))
        · refine .inr ⟨b,crossed,x,?_,rfl⟩
          change x ∈ RingOramClient.refilled top ids fresh kept at_.tree b
          rw [RingOramClient.refilled,if_neg (by simp [opened])]
          exact held
    · exact .inl held

namespace Placed

theorem count_le (placed : Placed params memory at_) (x : Block) : (holdings params at_).count x ≤ 1 := by
  rw [placed.ledger x]; split <;> omega

theorem opened_perm (placed : Placed params memory at_) (distinct : ids.Nodup) (inside : ∀ b ∈ ids, b < params.buckets) :
    (at_.opened ids).blocks.Perm (at_.stash.blocks ++ ids.flatMap at_.tree) := by
  have part : ids.toFinset ⊆ Finset.range params.buckets := by
    intro b member
    exact Finset.mem_range.mpr (inside b (List.mem_toFinset.mp member))
  have present : ∀ x ∈ at_.stash.blocks ++ ids.flatMap at_.tree, x ∈ holdings params at_ := by
    intro x member
    rw [mem_holdings]
    rcases List.mem_append.mp member with held | fetched
    · exact .inl held
    · obtain ⟨b,opened,stored⟩ := List.mem_flatMap.mp fetched
      exact .inr ⟨b,inside b opened,stored⟩
  have once : (at_.stash.blocks ++ ids.flatMap at_.tree).Nodup := by
    rw [List.nodup_iff_count_le_one]
    intro x
    have bound := Inventory.opened_count (at_.stash.blocks : Multiset Block)
      (fun b => (at_.tree b : Multiset Block)) part x
    rw [←Inventory.flatMap_sum ids distinct at_.tree,Multiset.coe_count,Multiset.coe_count] at bound
    rw [List.count_append]
    exact bound.trans (placed.count_le x)
  apply Stash.gather_perm
  · intro x member
    have held := placed.holds.mp (present x (List.mem_append_right _ member))
    exact (placed.named.sound _ _ held).1
  · exact once.map_on fun x one y other same => placed.single (present x one) (present y other) same

theorem settle (top : Nat) (placed : Placed params memory at_) (distinct : ids.Nodup) (inside : ∀ b ∈ ids, b < params.buckets)
    (named : Named params memory posmap) (remapped : Remapped at_.posmap posmap left)
    (repacked : Repacked params posmap ids (at_.opened ids) left fresh) (all : ∀ b, kept b = true) :
    Placed params memory (at_.settled posmap top ids left fresh kept) := by
  have part : ids.toFinset ⊆ Finset.range params.buckets := by
    intro b member
    exact Finset.mem_range.mpr (inside b (List.mem_toFinset.mp member))
  have rewritten : ∀ b, RingOramClient.refilled top ids fresh kept at_.tree b = if b ∈ ids then fresh b else at_.tree b := by
    intro b
    simp [RingOramClient.refilled,all b]
  have same : holdings params (at_.settled posmap top ids left fresh kept) = holdings params at_ := by
    have bins : (fun b => (RingOramClient.refilled top ids fresh kept at_.tree b : Multiset Block)) =
        Inventory.refill (fun b => (at_.tree b : Multiset Block)) (fun b => (fresh b : Multiset Block)) ids.toFinset := by
      funext b
      rw [rewritten]
      simp only [Inventory.refill,List.mem_toFinset]
      split <;> rfl
    unfold holdings Placement.settled
    rw [bins]
    apply Inventory.total_refill part
    rw [←Inventory.flatMap_sum ids distinct fresh,←Inventory.flatMap_sum ids distinct at_.tree,
      Multiset.coe_add,Multiset.coe_add,Multiset.coe_eq_coe]
    exact repacked.parts.trans (placed.opened_perm distinct inside)
  refine ⟨named,fun x => by rw [same]; exact placed.ledger x,?_,?_⟩
  · intro b small x member
    have stored : x ∈ (at_.settled posmap top ids left fresh kept).tree b := member
    change x ∈ RingOramClient.refilled top ids fresh kept at_.tree b at member
    rw [rewritten] at member
    split at member
    · rename_i opened
      exact repacked.seated b opened x member
    · obtain ⟨p,assigned,crossed⟩ := placed.home b small x member
      rcases remapped x.id with kept_ | ⟨y,held,named⟩
      · exact ⟨p,kept_.trans assigned,crossed⟩
      · -- A block in hand has no copy in a bucket left alone: the ledger shows one.
        have here : x ∈ holdings params at_ := by rw [←same]; exact mem_holdings.mpr (.inr ⟨b,small,stored⟩)
        have hand : y ∈ holdings params at_ := by rw [←same]; exact mem_holdings.mpr (.inl held)
        have equal := placed.single hand here named
        subst equal
        have bound := Inventory.opened_count (left.blocks : Multiset Block)
          (fun b => ((at_.settled posmap top ids left fresh kept).tree b : Multiset Block))
          (Finset.singleton_subset_iff.mpr (Finset.mem_range.mpr small)) y
        rw [Finset.sum_singleton] at bound
        have one := Multiset.count_pos.mpr (Multiset.mem_coe.mpr held)
        have two := Multiset.count_pos.mpr (Multiset.mem_coe.mpr stored)
        have most := placed.count_le y
        rw [←same] at most
        exact absurd (bound.trans most) (by omega)
  · intro b small
    change (RingOramClient.refilled top ids fresh kept at_.tree b).length ≤ params.z
    rw [rewritten]
    split
    · rename_i opened
      exact repacked.room b opened
    · exact placed.room b small

end Placed

section Keys
variable {posmap : PositionMap} {id : BlockId} {payload : Bytes}

theorem Named.assigned (named : Named params memory posmap) (value : memory id = some payload) :
    ∃ p, posmap id = some p ∧ p < params.nLeaves := by
  have present : (posmap id).isSome := by rw [named.known id,value]; rfl
  obtain ⟨p,assigned⟩ := Option.isSome_iff_exists.mp present
  exact ⟨p,assigned,named.leaf id p assigned⟩

theorem Named.value (named : Named params memory posmap) (assigned : posmap id = some p) :
    ∃ payload, memory id = some payload := by
  have present : (memory id).isSome := by rw [←named.known id,assigned]; rfl
  exact Option.isSome_iff_exists.mp present

theorem Named.unknown (named : Named params memory posmap) (unmapped : posmap id = none) : memory id = none := by
  have known := named.known id
  rw [unmapped] at known
  exact Option.not_isSome_iff_eq_none.mp (by rw [←known]; exact Bool.false_ne_true)

theorem Named.real (named : Named params memory posmap) (assigned : posmap id = some p) : id.isDummy = false := by
  obtain ⟨payload,value⟩ := named.value assigned
  exact (named.sound id payload value).1

theorem Named.update (named : Named params memory posmap) (leaf : q < params.nLeaves) (real : id.isDummy = false)
    (sized : payload.length = params.blockBytes) :
    Named params (Function.update memory id (some payload)) (Function.update posmap id (some q)) := by
  refine ⟨?_,?_,?_⟩
  · intro other
    by_cases same : other = id
    · subst same; simp
    · rw [Function.update_of_ne same,Function.update_of_ne same]
      exact named.known other
  · intro other p assigned
    by_cases same : other = id
    · subst same
      rw [Function.update_self] at assigned
      cases assigned
      exact leaf
    · rw [Function.update_of_ne same] at assigned
      exact named.leaf other p assigned
  · intro other value present
    by_cases same : other = id
    · subst same
      rw [Function.update_self] at present
      cases present
      exact ⟨real,sized⟩
    · rw [Function.update_of_ne same] at present
      exact named.sound other value present

theorem update_value (value : memory id = some payload) : Function.update memory id (some payload) = memory := by
  rw [←value,Function.update_eq_self]

theorem Named.remap (named : Named params memory posmap) (leaf : q < params.nLeaves) (assigned : posmap id = some p) :
    Named params memory (Function.update posmap id (some q)) := by
  obtain ⟨payload,value⟩ := named.value assigned
  obtain ⟨real,sized⟩ := named.sound id payload value
  have updated := named.update leaf real sized
  rwa [update_value value] at updated

-- A block put into the stash under an id of which there is no other copy: a new
-- id, or one whose only copy has just been taken out.
theorem Recoverable.put (recoverable : Recoverable params memory at_) (stash : Stash) (fresh : stash.peek id = none)
    (others : ∀ x, x.id ≠ id → (x ∈ stash.blocks ↔ x ∈ at_.stash.blocks)) (absent : Absent params at_.tree id)
    (leaf : q < params.nLeaves) (real : id.isDummy = false) (sized : payload.length = params.blockBytes) :
    Recoverable params (Function.update memory id (some payload))
      ⟨Function.update at_.posmap id (some q),stash.push ⟨id,payload⟩ fresh,at_.tree⟩ := by
  have missing := Stash.peek_none.mp fresh
  refine ⟨recoverable.named.update leaf real sized,?_,?_,?_⟩
  · intro x member
    rcases List.mem_cons.mp member with rfl | old
    · exact Function.update_self ..
    · rw [Function.update_of_ne (missing x old)]
      exact recoverable.stashed x ((others x (missing x old)).mp old)
  · intro b small x member
    rw [Function.update_of_ne (absent b small x member)]
    exact recoverable.stored b small x member
  · intro other p assigned
    by_cases same : other = id
    · exact .inl ⟨⟨id,payload⟩,List.mem_cons_self,same.symm⟩
    · change Function.update at_.posmap id (some q) other = some p at assigned
      rw [Function.update_of_ne same] at assigned
      rcases recoverable.found other p assigned with ⟨x,held,named⟩ | copy
      · have apart : x.id ≠ id := by rw [named]; exact same
        exact .inl ⟨x,List.mem_cons_of_mem _ ((others x apart).mpr held),named⟩
      · exact .inr copy

theorem Placed.put (placed : Placed params memory at_) (stash : Stash) (fresh : stash.peek id = none)
    (others : ∀ x, x.id ≠ id → stash.blocks.count x = at_.stash.blocks.count x) (absent : Absent params at_.tree id)
    (leaf : q < params.nLeaves) (real : id.isDummy = false) (sized : payload.length = params.blockBytes) :
    Placed params (Function.update memory id (some payload))
      ⟨Function.update at_.posmap id (some q),stash.push ⟨id,payload⟩ fresh,at_.tree⟩ := by
  have missing := Stash.peek_none.mp fresh
  refine ⟨placed.named.update leaf real sized,?_,?_,placed.room⟩
  · intro x
    have stored := placed.ledger x
    unfold holdings Inventory.total at stored ⊢
    rw [Multiset.count_add,Multiset.coe_count] at stored ⊢
    change (⟨id,payload⟩ :: stash.blocks).count x + _ = _
    by_cases same : x.id = id
    · have none : stash.blocks.count x = 0 := List.count_eq_zero.mpr fun member => missing x member same
      have bare : (∑ b ∈ Finset.range params.buckets, (at_.tree b : Multiset Block)).count x = 0 := by
        rw [Multiset.count_eq_zero,Multiset.mem_sum]
        rintro ⟨b,small,member⟩
        exact absent b (Finset.mem_range.mp small) x member same
      rw [List.count_cons,none,bare,same,Function.update_self]
      obtain ⟨xId,xPayload⟩ := x
      simp only at same
      subst same
      by_cases equal : payload = xPayload <;> simp [equal]
    · have apart : (⟨id,payload⟩ : Block) ≠ x := fun equal => same (by rw [←equal])
      rw [List.count_cons_of_ne apart,others x same,Function.update_of_ne same]
      exact stored
  · intro b small x member
    have apart := absent b small x member
    obtain ⟨p,assigned,crossed⟩ := placed.home b small x member
    exact ⟨p,(Function.update_of_ne apart _ _).trans assigned,crossed⟩

-- With one copy of each block, one in the stash is the only one.
theorem Placed.absent (placed : Placed params memory at_) (held : ∃ x ∈ at_.stash.blocks, x.id = id) :
    Absent params at_.tree id := by
  obtain ⟨x,member,rfl⟩ := held
  intro b small y stored same
  have hand := mem_holdings.mpr (.inl member : x ∈ at_.stash.blocks ∨ ∃ b < params.buckets, x ∈ at_.tree b)
  have equal := placed.single (mem_holdings.mpr (.inr ⟨b,small,stored⟩)) hand same
  subst equal
  have bound := Inventory.opened_count (at_.stash.blocks : Multiset Block) (fun b => (at_.tree b : Multiset Block))
    (Finset.singleton_subset_iff.mpr (Finset.mem_range.mpr small)) y
  rw [Finset.sum_singleton] at bound
  have one := Multiset.count_pos.mpr (Multiset.mem_coe.mpr member)
  have two := Multiset.count_pos.mpr (Multiset.mem_coe.mpr stored)
  exact absurd (bound.trans (placed.count_le y)) (by omega)

theorem Recoverable.unknown (recoverable : Recoverable params memory at_) (unknown : memory id = none) :
    at_.stash.peek id = none ∧ Absent params at_.tree id := by
  refine ⟨Stash.peek_none.mpr fun x member same => ?_,fun b small x member same => ?_⟩
  · have value := recoverable.stashed x member
    rw [same,unknown] at value
    cases value
  · have value := recoverable.stored b small x member
    rw [same,unknown] at value
    cases value

end Keys

end RingOram
