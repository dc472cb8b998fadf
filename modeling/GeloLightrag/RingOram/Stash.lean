import GeloLightrag.Foundation.Bytes
import Mathlib.Data.List.Perm.Basic
import Mathlib.Data.List.Nodup
import Mathlib.Logic.Function.Basic

namespace RingOram
open Foundation

structure BlockId where
  val : UInt32
deriving DecidableEq,Repr

namespace BlockId
def dummy : BlockId := ⟨4294967295⟩
def isDummy (id : BlockId) : Bool := decide (id = dummy)
end BlockId

-- `BlockPayload` wraps its bytes; only its constructors look at their number.
def payloadFromExact (bytes : Bytes) (size : Nat) : Except String Bytes :=
  if bytes.length = size then .ok bytes else .error "BlockPayload::from_exact size mismatch"

structure Block where
  id : BlockId
  payload : Bytes
deriving DecidableEq,Repr

namespace Block
def dummy (blockBytes : Nat) : Block := ⟨.dummy,List.replicate blockBytes 0⟩
def isDummy (block : Block) : Bool := block.id.isDummy
end Block

-- The map of block.id to block. HashMap keys are unique, so is each id here.
structure Stash where
  blocks : List Block
  keyed : (blocks.map Block.id).Nodup
deriving DecidableEq

namespace Stash

def new : Stash := ⟨[],List.nodup_nil⟩

def peek (stash : Stash) (id : BlockId) : Option Block := stash.blocks.find? fun b => decide (b.id = id)

def ids (stash : Stash) : List BlockId := stash.blocks.map Block.id

theorem peek_some {stash : Stash} {id : BlockId} : stash.peek id = some b ↔ b ∈ stash.blocks ∧ b.id = id := by
  unfold peek
  constructor
  · intro found
    exact ⟨List.mem_of_find?_eq_some found,by simpa using List.find?_some found⟩
  · rintro ⟨member,rfl⟩
    cases found : stash.blocks.find? fun c => decide (c.id = b.id) with
    | none => simpa using List.find?_eq_none.mp found b member
    | some other =>
      have same : other.id = b.id := by simpa using List.find?_some found
      have equal := List.inj_on_of_nodup_map stash.keyed (List.mem_of_find?_eq_some found) member same
      rw [equal]

theorem peek_none {stash : Stash} {id : BlockId} : stash.peek id = none ↔ ∀ b ∈ stash.blocks, b.id ≠ id := by
  simp [peek]

def push (stash : Stash) (block : Block) (fresh : stash.peek block.id = none) : Stash :=
  ⟨block :: stash.blocks,by
    rw [List.map_cons,List.nodup_cons]
    refine ⟨?_,stash.keyed⟩
    intro present
    obtain ⟨other,member,same⟩ := List.mem_map.mp present
    exact peek_none.mp fresh other member same⟩

-- Both debug assertions are modelled; without the second a block would be lost.
def insert (stash : Stash) (block : Block) : Except String Stash :=
  if block.isDummy then .error "dummy blocks must not enter the stash"
  else if fresh : stash.peek block.id = none then .ok (stash.push block fresh)
  else .error "stash duplicate insert — protocol bug; same BlockId fetched twice without intervening write-back"

def erase (stash : Stash) (id : BlockId) : Stash :=
  ⟨stash.blocks.filter fun b => !decide (b.id = id),stash.keyed.sublist (List.filter_sublist.map _)⟩

def take (stash : Stash) (id : BlockId) : Option (Block × Stash) :=
  (stash.peek id).map fun b => (b,stash.erase id)

-- The loop shared by `read` and `evict_path`: a decrypted bucket's real blocks
-- enter the stash unless their id is there already.
def drain : List Block → Stash → Except String Stash
  | [],stash => .ok stash
  | block :: rest,stash =>
    if block.isDummy = false ∧ stash.peek block.id = none then do
      let grown ← stash.insert block
      drain rest grown
    else drain rest stash

def gather : List Block → Stash → Stash
  | [],stash => stash
  | block :: rest,stash =>
    if real : block.isDummy = false ∧ stash.peek block.id = none then gather rest (stash.push block real.2)
    else gather rest stash

theorem drain_gather (blocks : List Block) (stash : Stash) : drain blocks stash = .ok (gather blocks stash) := by
  induction blocks generalizing stash with
  | nil => rfl
  | cons block rest ih =>
    unfold drain gather
    split
    · rename_i real
      simp [insert,real.1,real.2,bind,Except.bind,ih]
    · exact ih stash

theorem gather_append (front back : List Block) (stash : Stash) :
    gather (front ++ back) stash = gather back (gather front stash) := by
  induction front generalizing stash with
  | nil => rfl
  | cons block rest ih =>
    simp only [List.cons_append,gather]
    split <;> exact ih _

theorem gather_dummies (blocks : List Block) (stash : Stash) (hollow : ∀ b ∈ blocks, b.isDummy = true) :
    gather blocks stash = stash := by
  induction blocks with
  | nil => rfl
  | cons block rest ih =>
    have head := hollow block List.mem_cons_self
    rw [gather,dif_neg (by simp [head])]
    exact ih fun b member => hollow b (List.mem_cons_of_mem _ member)

theorem gather_kept (blocks : List Block) (stash : Stash) (member : b ∈ stash.blocks) :
    b ∈ (gather blocks stash).blocks := by
  induction blocks generalizing stash with
  | nil => exact member
  | cons block rest ih =>
    unfold gather
    split
    · exact ih _ (List.mem_cons_of_mem _ member)
    · exact ih _ member

theorem gather_source (blocks : List Block) (stash : Stash) (member : b ∈ (gather blocks stash).blocks) :
    b ∈ stash.blocks ∨ b ∈ blocks ∧ b.isDummy = false := by
  induction blocks generalizing stash with
  | nil => exact .inl member
  | cons block rest ih =>
    unfold gather at member
    split at member
    · rename_i real
      rcases ih _ member with held | ⟨later,genuine⟩
      · rcases List.mem_cons.mp held with rfl | old
        · exact .inr ⟨List.mem_cons_self,real.1⟩
        · exact .inl old
      · exact .inr ⟨List.mem_cons_of_mem _ later,genuine⟩
    · rcases ih _ member with held | ⟨later,genuine⟩
      · exact .inl held
      · exact .inr ⟨List.mem_cons_of_mem _ later,genuine⟩

theorem gather_present (blocks : List Block) (stash : Stash) (member : b ∈ blocks) (genuine : b.isDummy = false) :
    ∃ c ∈ (gather blocks stash).blocks, c.id = b.id := by
  induction blocks generalizing stash with
  | nil => cases member
  | cons block rest ih =>
    unfold gather
    rcases List.mem_cons.mp member with rfl | later
    · split
      · exact ⟨b,gather_kept _ _ List.mem_cons_self,rfl⟩
      · rename_i held
        cases found : stash.peek b.id with
        | none => exact absurd ⟨genuine,found⟩ held
        | some other =>
          obtain ⟨inside,same⟩ := peek_some.mp found
          exact ⟨other,gather_kept _ _ inside,same⟩
    · split <;> exact ih _ later

-- Where no id occurs twice the guard never fires, so nothing is dropped.
theorem gather_perm (blocks : List Block) (stash : Stash) (genuine : ∀ b ∈ blocks, b.isDummy = false)
    (distinct : ((stash.blocks ++ blocks).map Block.id).Nodup) :
    (gather blocks stash).blocks.Perm (stash.blocks ++ blocks) := by
  induction blocks generalizing stash with
  | nil => simp [gather]
  | cons block rest ih =>
    have moved : (stash.blocks ++ block :: rest).Perm (block :: stash.blocks ++ rest) := List.perm_middle
    have fresh : stash.peek block.id = none := by
      rw [peek_none]
      intro other member same
      have apart := (List.nodup_cons.mp ((moved.map Block.id).nodup_iff.mp distinct)).1
      exact apart (List.mem_map.mpr ⟨other,List.mem_append_left _ member,same⟩)
    rw [gather,dif_pos ⟨genuine _ List.mem_cons_self,fresh⟩]
    exact (ih (stash.push block fresh) (fun b member => genuine b (List.mem_cons_of_mem _ member))
      ((moved.map Block.id).nodup_iff.mp distinct)).trans moved.symm

theorem erase_perm {stash : Stash} {id : BlockId} (found : stash.peek id = some b) :
    stash.blocks.Perm (b :: (stash.erase id).blocks) := by
  obtain ⟨member,rfl⟩ := peek_some.mp found
  have others : (stash.erase b.id).blocks = stash.blocks.erase b := by
    rw [(List.Nodup.of_map _ stash.keyed).erase_eq_filter]
    apply List.filter_congr
    intro c inside
    by_cases same : c.id = b.id
    · simp [List.inj_on_of_nodup_map stash.keyed inside member same]
    · have apart : c ≠ b := fun equal => same (congrArg Block.id equal)
      simp [same,apart]
  rw [others]
  exact List.perm_cons_erase member

theorem peek_erased (stash : Stash) (id : BlockId) : (stash.erase id).peek id = none := by
  rw [peek_none]
  intro b member
  simpa using (List.mem_filter.mp member).2

theorem erase_others (stash : Stash) {id : BlockId} (apart : x.id ≠ id) :
    (x ∈ (stash.erase id).blocks ↔ x ∈ stash.blocks) ∧ (stash.erase id).blocks.count x = stash.blocks.count x := by
  have kept : (!decide (x.id = id)) = true := by simp [apart]
  exact ⟨by simp [erase,apart],List.count_filter kept⟩

theorem peek_erase (stash : Stash) {id other : BlockId} (apart : other ≠ id) :
    (stash.erase id).peek other = stash.peek other := by
  cases found : stash.peek other with
  | none =>
      rw [peek_none] at found ⊢
      intro b member
      exact found b (List.mem_of_mem_filter member)
  | some b =>
      obtain ⟨member,named⟩ := peek_some.mp found
      refine peek_some.mpr ⟨List.mem_filter.mpr ⟨member,?_⟩,named⟩
      simp [named,apart]

end Stash

-- HashMap iteration may list the keys in any order, another one at each turn.
structure HashOrder where
  order : Nat → List BlockId → List BlockId
  listed : ∀ turn keys, (order turn keys).Perm keys

def HashOrder.asStored : HashOrder := ⟨fun _ keys => keys,fun _ keys => List.Perm.refl keys⟩

abbrev PositionMap := BlockId → Option Nat

def PositionMap.set (posmap : PositionMap) (id : BlockId) (path : Nat) : Except String PositionMap :=
  if id.isDummy then .error "dummy blocks must not enter the position map"
  else .ok (Function.update posmap id (some path))

end RingOram
