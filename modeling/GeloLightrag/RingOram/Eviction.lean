import GeloLightrag.RingOram.Placement

namespace RingOram
open Foundation

theorem seat_spec (found : seat z ids crossed contents = some bid) :
    bid ∈ ids ∧ bid ∈ crossed ∧ (contents bid).length < z := by
  have member := List.mem_of_find?_eq_some found
  have fits := List.find?_some found
  simp only [Bool.and_eq_true,List.contains_iff_mem,decide_eq_true_eq] at fits
  exact ⟨List.mem_reverse.mp member,fits⟩

-- The greedy loop at any point: what is in the buckets and in the stash together
-- stays the same, and each block taken went to a bucket of its own path.
theorem repack_loop {params : RingOramParams} {posmap : PositionMap} {ids : List Nat} (fits : params.Fits)
    (distinct : ids.Nodup) (candidates : List BlockId) (contents : Nat → List Block) (stash : Stash)
    (once : candidates.Nodup)
    (resident : ∀ id ∈ candidates, (∃ p, posmap id = some p ∧ p < params.nLeaves) ∧ ∃ x, stash.peek id = some x)
    (seated : ∀ b ∈ ids, ∀ x ∈ contents b, ∃ p, posmap x.id = some p ∧ b ∈ params.path p)
    (room : ∀ b ∈ ids, (contents b).length ≤ params.z) :
    ∃ fresh left, repack params posmap ids candidates contents stash = .ok (fresh,left) ∧
      (left.blocks ++ ids.flatMap fresh).Perm (stash.blocks ++ ids.flatMap contents) ∧
        (∀ b ∈ ids, ∀ x ∈ fresh b, ∃ p, posmap x.id = some p ∧ b ∈ params.path p) ∧
          ∀ b ∈ ids, (fresh b).length ≤ params.z := by
  induction candidates generalizing contents stash with
  | nil => exact ⟨contents,stash,rfl,List.Perm.refl _,seated,room⟩
  | cons blockId rest ih =>
      obtain ⟨new,later⟩ := List.nodup_cons.mp once
      obtain ⟨⟨p,assigned,leaf⟩,x,present⟩ := resident blockId List.mem_cons_self
      have others := fun other member => resident other (List.mem_cons_of_mem _ member)
      unfold repack
      simp only [assigned,pathBuckets_path fits leaf,bind,Except.bind]
      cases found : seat params.z ids (params.path p) contents with
      | none => exact ih contents stash later others seated room
      | some bid =>
          obtain ⟨opened,crossed,space⟩ := seat_spec found
          have named := (Stash.peek_some.mp present).2
          have taken : stash.take blockId = some (x,stash.erase blockId) := by simp [Stash.take,present]
          simp only [taken]
          have stays : ∀ other ∈ rest, (∃ p, posmap other = some p ∧ p < params.nLeaves) ∧
              ∃ y, (stash.erase blockId).peek other = some y := by
            intro other member
            have apart : other ≠ blockId := fun same => new (same ▸ member)
            rw [Stash.peek_erase stash apart]
            exact others other member
          obtain ⟨fresh,left,ran,parts,seats,rooms⟩ := ih (Function.update contents bid (contents bid ++ [x]))
            (stash.erase blockId) later stays (by
              intro b member y inside
              by_cases here : b = bid
              · subst here
                rw [Function.update_self] at inside
                rcases List.mem_append.mp inside with old | added
                · exact seated b member y old
                · rw [List.mem_singleton.mp added,named]
                  exact ⟨p,assigned,crossed⟩
              · rw [Function.update_of_ne here] at inside
                exact seated b member y inside) (by
              intro b member
              by_cases here : b = bid
              · subst here
                rw [Function.update_self,List.length_append]
                exact space
              · rw [Function.update_of_ne here]
                exact room b member)
          refine ⟨fresh,left,ran,parts.trans ?_,seats,rooms⟩
          have moved := (Inventory.flatMap_deposit distinct opened contents x).append_left (stash.erase blockId).blocks
          exact moved.trans (List.perm_middle.trans (List.Perm.append_right _ (Stash.erase_perm present).symm))

theorem repack_run {params : RingOramParams} {posmap : PositionMap} {ids : List Nat} {full : Stash} (fits : params.Fits)
    (distinct : ids.Nodup) (listed : candidates.Perm full.ids)
    (mapped : ∀ x ∈ full.blocks, ∃ p, posmap x.id = some p ∧ p < params.nLeaves) :
    ∃ fresh left, repack params posmap ids candidates (fun _ => []) full = .ok (fresh,left) ∧
      Repacked params posmap ids full left fresh := by
  have once : candidates.Nodup := listed.nodup_iff.mpr full.keyed
  have resident : ∀ id ∈ candidates, (∃ p, posmap id = some p ∧ p < params.nLeaves) ∧ ∃ x, full.peek id = some x := by
    intro id member
    obtain ⟨x,held,rfl⟩ := List.mem_map.mp (listed.mem_iff.mp member)
    exact ⟨mapped x held,x,Stash.peek_some.mpr ⟨held,rfl⟩⟩
  obtain ⟨fresh,left,ran,parts,seated,room⟩ := repack_loop fits distinct candidates (fun _ => []) full once resident
    (fun _ _ _ member => absurd member List.not_mem_nil) fun _ _ => Nat.zero_le _
  refine ⟨fresh,left,ran,?_,seated,room⟩
  rwa [List.flatMap_eq_nil_iff.mpr fun _ _ => rfl,List.append_nil] at parts

namespace RingOramClient
section
variable {B : Type} [BlockBackend B] [LossyBackend B] [AesGcm]

def placement (c : RingOramClient B) (tree : Nat → List Block) : Placement := ⟨c.posmap,c.stash,tree⟩

-- What a client needs to take its turns, whatever blocks it holds.
structure Turning (c : RingOramClient B) (tree : Nat → List Block) : Prop where
  shelved : Shelved c tree
  cursor : c.evictCursor < c.params.nLeaves

-- What holds of the client after any operation, even one that failed.
structure Sound (c : RingOramClient B) (memory : Memory) (tree : Nat → List Block) : Prop where
  shelved : Shelved c tree
  recoverable : Recoverable c.params memory (c.placement tree)
  cursor : c.evictCursor < c.params.nLeaves

-- The root's write count, the greatest of all: it is on every path.
def root (c : RingOramClient B) : Nat := c.counters.getD 0 0

-- The next eviction as a function of the state before it: its path, the stash
-- once the path is drained, and where each block is then put.
def evictionPath (c : RingOramClient B) : List Nat := c.params.path (c.evictCursor % c.params.nLeaves)
def evictionFull (c : RingOramClient B) : Stash := c.stash.gather (c.evictionPath.flatMap c.contents)
def evictionPlan (c : RingOramClient B) : Except String ((Nat → List Block) × Stash) :=
  repack c.params c.posmap c.evictionPath (c.hashes.order c.scans c.evictionFull.ids) (fun _ => []) c.evictionFull

def evictionFetched (c : RingOramClient B) : RingOramClient B :=
  {c with evictCursor:=(c.evictCursor+1) % c.params.nLeaves,backend:=(c.reading c.evictionPath).2}
def evictionPacked (c : RingOramClient B) (left : Stash) : RingOramClient B :=
  {c.evictionFetched with stash:=left,scans:=c.scans+1}

variable {c : RingOramClient B} {memory : Memory} {tree : Nat → List Block}

-- What is drained of held buckets is what is drained of the plain ones.
theorem Shelved.drained {ids : List Nat} (shelved : Shelved c tree) (inside : ∀ b ∈ ids, b < c.params.buckets) :
    c.stash.gather (ids.flatMap c.contents) = (c.placement tree).opened ids := by
  unfold Placement.opened
  congr 1
  rw [List.flatMap_def,List.flatMap_def]
  congr 1
  exact List.map_congr_left fun b member => shelved.contents (inside b member)

namespace Turning

theorem leaf (turning : Turning c tree) : c.evictCursor % c.params.nLeaves < c.params.nLeaves :=
  Nat.mod_lt _ turning.shelved.leaves

theorem inside (turning : Turning c tree) : ∀ b ∈ c.evictionPath, b < c.params.buckets :=
  fun _ member => path_inside turning.shelved.fits turning.leaf member

theorem distinct (turning : Turning c tree) : c.evictionPath.Nodup := path_nodup turning.shelved.fits turning.leaf

theorem rooted (turning : Turning c tree) : c.evictionPath.head? = some 0 := path_root turning.shelved.fits turning.leaf

theorem full (turning : Turning c tree) : c.evictionFull = (c.placement tree).opened c.evictionPath :=
  turning.shelved.drained turning.inside

theorem plan (turning : Turning c tree) (named : Named c.params memory c.posmap)
    (latest : ∀ x ∈ ((c.placement tree).opened c.evictionPath).blocks, memory x.id = some x.payload) :
    ∃ fresh left, c.evictionPlan = .ok (fresh,left) ∧
      Repacked c.params c.posmap c.evictionPath ((c.placement tree).opened c.evictionPath) left fresh ∧
        ∀ b ∈ c.evictionPath, Shelf c.params (fresh b) := by
  have mapped : ∀ x ∈ c.evictionFull.blocks, ∃ p, c.posmap x.id = some p ∧ p < c.params.nLeaves := by
    intro x member
    rw [turning.full] at member
    exact named.assigned (latest x member)
  obtain ⟨fresh,left,ran,repacked⟩ := repack_run turning.shelved.fits turning.distinct
    (c.hashes.listed c.scans c.evictionFull.ids) mapped
  rw [turning.full] at repacked
  refine ⟨fresh,left,ran,repacked,fun b member => ?_⟩
  have genuine : ∀ x ∈ fresh b, x.id.isDummy = false ∧ x.payload.length = c.params.blockBytes := by
    intro x seat
    have drawn := repacked.parts.mem_iff.mp (List.mem_append_right _ (List.mem_flatMap.mpr ⟨b,member,seat⟩))
    exact named.sound _ _ (latest x drawn)
  exact ⟨(repacked.room b member).trans (Nat.le_add_right _ _),fun x seat => (genuine x seat).2,fun x seat => (genuine x seat).1⟩

theorem fetched (turning : Turning c tree) : Shelved c.evictionFetched tree := by
  have kept := reading_kept c c.evictionPath
  exact turning.shelved.same rfl rfl rfl rfl kept.1 kept.2

theorem packed (turning : Turning c tree) (left : Stash) : Shelved (c.evictionPacked left) tree :=
  turning.fetched.same rfl rfl rfl rfl rfl rfl

end Turning

namespace Sound

theorem turning (sound : Sound c memory tree) : Turning c tree := ⟨sound.shelved,sound.cursor⟩

theorem plan (sound : Sound c memory tree) : ∃ fresh left, c.evictionPlan = .ok (fresh,left) ∧
    Repacked c.params c.posmap c.evictionPath ((c.placement tree).opened c.evictionPath) left fresh ∧
      ∀ b ∈ c.evictionPath, Shelf c.params (fresh b) :=
  sound.turning.plan sound.recoverable.named fun _ member => sound.recoverable.opened_honest sound.turning.inside member

end Sound

-- What holds as long as no backend call has failed.
structure Orderly (c : RingOramClient B) (memory : Memory) (tree : Nat → List Block) : Prop where
  placed : Placed c.params memory (c.placement tree)
  synced : Synced c

-- What a path access leaves as it was.
structure Alike (c d : RingOramClient B) : Prop where
  params : d.params = c.params
  accesses : d.accessesSinceEvict = c.accessesSinceEvict
  defer : d.deferEvictions = c.deferEvictions
  pending : d.pendingEvictions = c.pendingEvictions

-- The next eviction can do without its write: each block it takes out of the
-- stash for a bucket that is then neither cached nor stored is also elsewhere on
-- its path, in a bucket outside this eviction or one whose old frame is still there.
def Spares (c : RingOramClient B) : Prop :=
  ∀ fresh left, c.evictionPlan = .ok (fresh,left) →
    ((c.evictionPacked left).writing c.evictionPath fresh).1 ≠ .ok () →
    ∀ b ∈ c.evictionPath, ∀ x ∈ fresh b, b < c.params.top ∨ (c.evictionPacked left).arrived c.evictionPath fresh b = true ∨
      ∃ p, c.posmap x.id = some p ∧ ∃ d ∈ c.params.path p,
        ∃ y ∈ refilled c.params.top c.evictionPath fresh ((c.evictionPacked left).arrived c.evictionPath fresh) c.contents d,
          y.id = x.id

-- Each way `evict_path` can end: no answer to its read, a write counter run out,
-- no answer to its write, or the path rewritten.
theorem evictPath_run (turning : Turning c tree) (plan : c.evictionPlan = .ok (fresh,left))
    (shelves : ∀ b ∈ c.evictionPath, Shelf c.params (fresh b)) :
    evictPath c = match (c.reading c.evictionPath).1 with
      | .error e => .error e.fault c.evictionFetched
      | .ok _ =>
        if c.root + 1 < 2 ^ 32 then
          match ((c.evictionPacked left).writing c.evictionPath fresh).1 with
          | .ok _ => .ok () ((c.evictionPacked left).resealed c.evictionPath fresh)
          | .error e => .error e.fault ((c.evictionPacked left).resealed c.evictionPath fresh)
        else .error (.panic "attempt to add with overflow") (c.evictionPacked left) := by
  have small : c.evictCursor + 1 < 2 ^ 32 := by
    have shallow := turning.shelved.fits.tree
    have bound : c.params.nLeaves ≤ 2 ^ (treeLevels c.params.nLeaves - 1) := leaves_fit (Nat.le_succ_of_le shallow)
    have row : 2 ^ (treeLevels c.params.nLeaves - 1) ≤ 2 ^ 31 := Nat.pow_le_pow_right (by decide) (by
      unfold RingOramParams.levels at shallow; omega)
    have below := turning.cursor
    omega
  rw [evictionPlan,turning.full] at plan
  have turn : ∀ b ∈ c.evictionPath, (do
      let pt ← checked (serialiseBucket (padTo (c.params.z + c.params.s) c.params.blockBytes (fresh b)) c.params)
      resealBucket b pt : OramM B EncryptedBucket) = resealBucket b (bucketPlaintext c.params (fresh b)) := by
    intro b member
    funext s
    exact bind_ok (checked_ok (serialiseBucket_padded turning.shelved.fits (shelves b member)) s)
  have counted := (turning.packed left).counted
  have opened : openPath (fun _ => .panic "eviction path decrypt — tree contents must remain authentic") c.evictionPath
      {c with evictCursor:=(c.evictCursor+1) % c.params.nLeaves} = _ :=
    openPath_run _ (turning.shelved.same rfl rfl rfl rfl rfl rfl) turning.inside
  unfold evictPath
  rw [bind_ok (get_run c)]
  refine (congrFun (if_neg (Nat.ne_of_gt turning.shelved.leaves)) c).trans ?_
  refine (bind_ok (checked_ok (add32_of small) c)).trans ?_
  refine (bind_ok (set_run _ _)).trans ?_
  refine (bind_ok (checked_ok (pathBuckets_path turning.shelved.fits turning.leaf) _)).trans ?_
  cases answer : (c.reading c.evictionPath).1 with
  | error e =>
      rw [show RingOramClient.reading {c with evictCursor:=(c.evictCursor+1) % c.params.nLeaves} c.evictionPath =
        c.reading c.evictionPath from rfl,answer] at opened
      exact bind_error opened
  | ok found =>
      rw [show RingOramClient.reading {c with evictCursor:=(c.evictCursor+1) % c.params.nLeaves} c.evictionPath =
        c.reading c.evictionPath from rfl,answer] at opened
      refine (bind_ok opened).trans ?_
      refine (bind_ok (get_run _)).trans ?_
      refine (bind_ok (checked_ok turning.shelved.fits.capacity _)).trans ?_
      refine (bind_ok (checked_ok plan _)).trans ?_
      refine (bind_ok (set_run _ (c.evictionPacked left))).trans ?_
      by_cases room : c.root + 1 < 2 ^ 32
      · have resealing := reseal_run (c:=c.evictionPacked left) fresh turning.distinct
          (fun b member => by rw [counted]; exact turning.inside b member)
          (fun b _ => Nat.lt_of_le_of_lt (Nat.add_le_add_right (turning.shelved.steep b) 1) room) turn
        refine (bind_ok resealing).trans ?_
        rw [if_pos room]
        exact writeBucketsCached_run (turning.packed left) fresh
      · rw [if_neg room]
        apply bind_error
        have head : 0 ∈ c.evictionPath := List.mem_of_mem_head? turning.rooted
        exact reseal_overflow turning.rooted (by rw [counted]; exact turning.inside 0 head) (Nat.le_of_not_lt room)
          (turn 0 head)

-- The backend gave no answer; nothing else stops an operation of a sound client.
def Lost (e : Fault) : Prop := (∃ error, e = .error (.backend error)) ∨ e = .dropped

theorem evictPath_overflow (sound : Sound c memory tree) (good : Steady c.backend) (full : 2 ^ 32 ≤ c.root + 1) :
    ∃ d, evictPath c = .error (.panic "attempt to add with overflow") d := by
  obtain ⟨fresh,left,plan,_,shelves⟩ := sound.plan
  obtain ⟨found,answered⟩ := (reading_steady sound.shelved sound.turning.inside good).1
  have ran := evictPath_run sound.turning plan shelves
  rw [answered] at ran
  exact ⟨_,ran.trans (if_neg (by omega))⟩

theorem evictPath_ends (sound : Sound c memory tree) (room : c.root + 1 < 2 ^ 32)
    (spares : ¬ Steady c.backend → c.Spares) :
    Ends evictPath c
      (fun _ d => Alike c d ∧ d.root = c.root + 1 ∧ (Steady c.backend → Steady d.backend) ∧
        (∀ fresh left, c.evictionPlan = .ok (fresh,left) → d.stash = left) ∧
          ∃ tree', Sound d memory tree' ∧ (Orderly c memory tree → Orderly d memory tree') ∧
            ∀ id, (∃ x ∈ d.stash.blocks, x.id = id) → Absent c.params tree id → Absent c.params tree' id)
      (fun e d => Lost e ∧ ¬ Steady c.backend ∧ Alike c d ∧ d.root ≤ c.root + 1 ∧ ∃ tree', Sound d memory tree') := by
  obtain ⟨fresh,left,plan,repacked,shelves⟩ := sound.plan
  have ran := evictPath_run sound.turning plan shelves
  have next : (c.evictCursor+1) % c.params.nLeaves < c.params.nLeaves := Nat.mod_lt _ sound.shelved.leaves
  have alike : Alike c c.evictionFetched := ⟨rfl,rfl,rfl,rfl⟩
  have rooted : 0 ∈ c.evictionPath := List.mem_of_mem_head? sound.turning.rooted
  have fetch := reading_steady sound.shelved sound.turning.inside
  rcases reading_answer sound.shelved sound.turning.inside with answered | unanswered
  · rw [answered] at ran
    change evictPath c = if c.root + 1 < 2 ^ 32 then _ else _ at ran
    rw [if_pos room] at ran
    have settled := fun kept survives => sound.recoverable.settle c.params.top kept sound.turning.inside sound.recoverable.named
      (fun _ => .inl rfl) repacked survives
    have grown : ((c.evictionPacked left).resealed c.evictionPath fresh).root = c.root + 1 := by
      unfold root
      rw [resealed_counter (sound.turning.packed left) sound.turning.distinct sound.turning.inside,if_pos rooted]
      rfl
    have likewise : Alike c ((c.evictionPacked left).resealed c.evictionPath fresh) := ⟨rfl,rfl,rfl,rfl⟩
    obtain ⟨shelved,⟨stored,all,steady⟩ | ⟨unsteady,lost⟩⟩ :=
      writing_cases (sound.turning.packed left) sound.turning.distinct sound.turning.inside rooted shelves
    · rw [stored] at ran
      refine .ok ran ⟨likewise,grown,fun good => steady (fetch good).2,?_,_,
        ⟨shelved,settled _ fun b _ x _ => .inr (.inl (all b)),next⟩,fun orderly => ⟨?_,?_⟩,
        fun id held absent => repacked.absent held _ _ absent⟩
      · intro other left' again
        rw [plan] at again
        cases again
        rfl
      · exact orderly.placed.settle c.params.top sound.turning.distinct sound.turning.inside sound.recoverable.named
          (fun _ => .inl rfl) repacked all
      · apply resealed_synced (sound.turning.packed left) sound.turning.distinct sound.turning.inside all
        intro b small
        have kept := reading_kept c c.evictionPath
        obtain ⟨view,rest⟩ := orderly.synced b small
        have held : (c.evictionPacked left).holding b = c.holding b := by
          unfold holding
          show (if b < c.params.top then _ else LossyBackend.bucket (c.reading c.evictionPath).2 b) = _
          rw [kept.1]
          rfl
        rw [held]
        exact ⟨(congrFun kept.1 b).trans view,rest⟩
    · have unsteadied : ¬ Steady c.backend := fun good => unsteady (fetch good).2
      have refused : ((c.evictionPacked left).writing c.evictionPath fresh).1 ≠ .ok () := by
        rcases lost with ⟨error,failed⟩ | failed
        all_goals rw [failed]; exact nofun
      have survived := settled ((c.evictionPacked left).arrived c.evictionPath fresh) (by
        intro b opened x seat
        rcases spares unsteadied fresh left plan refused b opened x seat with shallow | arrived | ⟨p,assigned,d,crossed,y,copy,named⟩
        · exact .inl shallow
        · exact .inr (.inl arrived)
        · refine .inr (.inr ⟨p,assigned,d,crossed,y,?_,named⟩)
          have small := path_inside sound.shelved.fits (sound.recoverable.named.leaf _ _ assigned) crossed
          unfold refilled at copy ⊢
          rwa [sound.shelved.contents small] at copy)
      have still : ∃ tree', Sound ((c.evictionPacked left).resealed c.evictionPath fresh) memory tree' :=
        ⟨_,shelved,survived,next⟩
      rcases lost with ⟨error,failed⟩ | failed
      · rw [failed] at ran
        exact .error ran ⟨.inl ⟨error,rfl⟩,unsteadied,likewise,Nat.le_of_eq grown,still⟩
      · rw [failed] at ran
        exact .error ran ⟨.inr rfl,unsteadied,likewise,Nat.le_of_eq grown,still⟩
  · have unsteady : ¬ Steady c.backend := by
      intro steady
      obtain ⟨found,ok⟩ := (fetch steady).1
      rcases unanswered with ⟨error,refused⟩ | dropped
      · rw [ok] at refused; cases refused
      · rw [ok] at dropped; cases dropped
    have still : Sound c.evictionFetched memory tree := ⟨sound.turning.fetched,sound.recoverable,next⟩
    rcases unanswered with ⟨error,refused⟩ | dropped
    · rw [refused] at ran
      exact .error ran ⟨.inl ⟨error,rfl⟩,unsteady,alike,Nat.le_succ _,tree,still⟩
    · rw [dropped] at ran
      exact .error ran ⟨.inr rfl,unsteady,alike,Nat.le_succ _,tree,still⟩

end
end RingOramClient
end RingOram
