import GeloLightrag.RingOram.Eviction

namespace RingOram
open Foundation

namespace RingOramClient
variable {B : Type} [BlockBackend B] [LossyBackend B] [AesGcm]
variable {c : RingOramClient B} {memory : Memory} {tree : Nat → List Block} {id : BlockId} {payload : Bytes}

def draw (c : RingOramClient B) : Nat := c.rng.tape c.rng.drawn % c.params.nLeaves

def drawn (c : RingOramClient B) : RingOramClient B := {c with rng:={c.rng with drawn:=c.rng.drawn+1}}

omit [BlockBackend B] [LossyBackend B] [AesGcm] in
theorem freshPath_run (leaves : 0 < c.params.nLeaves) : freshPath c = .ok c.draw c.drawn := by
  unfold freshPath
  rw [bind_ok (get_run c)]
  exact (congrFun (if_neg (Nat.ne_of_gt leaves)) c).trans rfl

omit [BlockBackend B] [LossyBackend B] [AesGcm] in
theorem draw_leaf (leaves : 0 < c.params.nLeaves) : c.draw < c.params.nLeaves := Nat.mod_lt _ leaves

-- The client as `read` has it once the path is drained, and once the block it is
-- about is remapped.
def readOpened (c : RingOramClient B) (p : Nat) (full : Stash) : RingOramClient B :=
  {c with backend:=(c.reading (c.params.path p)).2,stash:=full}
def readPacked (c : RingOramClient B) (p : Nat) (id : BlockId) (full : Stash) : RingOramClient B :=
  {(c.readOpened p full).drawn with posmap:=Function.update c.posmap id (some c.draw)}

def emptied : Nat → List Block := fun _ => []

omit [BlockBackend B] [LossyBackend B] [AesGcm] in
theorem dummyBucket_ok {params : RingOramParams} (fits : params.Fits) : dummyBucket params = .ok (bucketPlaintext params []) := by
  unfold dummyBucket
  rw [fits.capacity]
  have whole := serialiseBucket_padded fits (Shelf.nil params)
  simpa [padded,bind,Except.bind] using whole

theorem readAccess_run (shelved : Shelved c tree) (assigned : c.posmap id = some p) (leaf : p < c.params.nLeaves) (real : id.isDummy = false)
    (present : ((c.placement tree).opened (c.params.path p)).peek id = some x) :
    readAccess id c = match (c.reading (c.params.path p)).1 with
      | .error e => .error e.fault {c with backend:=(c.reading (c.params.path p)).2}
      | .ok _ =>
        let packed := c.readPacked p id ((c.placement tree).opened (c.params.path p))
        if c.root + 1 < 2 ^ 32 then
          match (packed.writing (c.params.path p) emptied).1 with
          | .ok _ => .ok x.payload (packed.resealed (c.params.path p) emptied)
          | .error e => .error e.fault (packed.resealed (c.params.path p) emptied)
        else .error (.panic "attempt to add with overflow") packed := by
  have fits := shelved.fits
  have inside : ∀ b ∈ c.params.path p, b < c.params.buckets := fun b member => path_inside fits leaf member
  have kept := reading_kept c (c.params.path p)
  have packed : Shelved (c.readPacked p id ((c.placement tree).opened (c.params.path p))) tree :=
    shelved.same rfl rfl rfl rfl kept.1 kept.2
  have opened := openPath_run (fun e => .error (.corrupted e)) shelved inside
  unfold readAccess
  rw [bind_ok (get_run c)]
  simp only [assigned]
  refine (bind_ok (checked_ok (pathBuckets_path fits leaf) _)).trans ?_
  cases answer : (c.reading (c.params.path p)).1 with
  | error e =>
      rw [answer] at opened
      exact bind_error opened
  | ok found =>
      rw [answer] at opened
      refine (bind_ok opened).trans ?_
      refine (bind_ok (get_run _)).trans ?_
      have gathered : (Stash.gather ((c.params.path p).flatMap tree) c.stash).peek id = some x := present
      simp only [gathered]
      refine (bind_ok (freshPath_run (c:=c.readOpened p _) shelved.leaves)).trans ?_
      refine (bind_ok (get_run _)).trans ?_
      have remapped : PositionMap.set c.posmap id c.draw = .ok (Function.update c.posmap id (some c.draw)) :=
        if_neg (by rw [real]; exact Bool.false_ne_true)
      refine (bind_ok (checked_ok remapped _)).trans ?_
      refine (bind_ok (set_run _ (c.readPacked p id ((c.placement tree).opened (c.params.path p))))).trans ?_
      refine (bind_ok (checked_ok (dummyBucket_ok fits) _)).trans ?_
      have head : 0 ∈ c.params.path p := List.mem_of_mem_head? (path_root fits leaf)
      have counted := packed.counted
      by_cases room : c.root + 1 < 2 ^ 32
      · simp only [room,if_true]
        have resealing := reseal_run (c:=c.readPacked p id ((c.placement tree).opened (c.params.path p)))
          (f:=fun bid => resealBucket bid (bucketPlaintext c.params [])) emptied (path_nodup fits leaf)
          (fun b member => by rw [counted]; exact inside b member)
          (fun b _ => Nat.lt_of_le_of_lt (Nat.add_le_add_right (shelved.steep b) 1) room) (fun _ _ => rfl)
        refine (bind_ok resealing).trans ?_
        have written := @writeBucketsCached_run _ _ _ _ _ _ (c.params.path p) packed emptied
        cases stored : ((c.readPacked p id ((c.placement tree).opened (c.params.path p))).writing (c.params.path p) emptied).1 with
        | ok _ =>
            rw [stored] at written
            exact (bind_ok written).trans rfl
        | error e =>
            rw [stored] at written
            exact bind_error written
      · simp only [room,if_false]
        apply bind_error
        exact reseal_overflow (c:=c.readPacked p id ((c.placement tree).opened (c.params.path p))) (path_root fits leaf)
          (by rw [packed.counted]; exact inside 0 head) (Nat.le_of_not_lt room) rfl

theorem Sound.opened_holds (sound : Sound c memory tree) (assigned : c.posmap id = some p) :
    ∃ y ∈ ((c.placement tree).opened (c.params.path p)).blocks, y.id = id := sound.recoverable.opened_holds sound.shelved.fits assigned

theorem readAccess_overflow (sound : Sound c memory tree) (assigned : c.posmap id = some p) (good : Steady c.backend)
    (full : 2 ^ 32 ≤ c.root + 1) : ∃ d, readAccess id c = .error (.panic "attempt to add with overflow") d := by
  obtain ⟨y,held,named⟩ := sound.opened_holds assigned
  have leaf := sound.recoverable.named.leaf id p assigned
  have inside : ∀ b ∈ c.params.path p, b < c.params.buckets := fun b member => path_inside sound.shelved.fits leaf member
  obtain ⟨found,answered⟩ := (reading_steady sound.shelved inside good).1
  have ran := readAccess_run sound.shelved assigned leaf (sound.recoverable.named.real assigned) (Stash.peek_some.mpr ⟨held,named⟩)
  rw [answered] at ran
  exact ⟨_,ran.trans (if_neg (by omega))⟩

-- No copy of the block lies outside the path that a read of it empties.
def Sole (params : RingOramParams) (tree : Nat → List Block) (p : Nat) (id : BlockId) : Prop :=
  ∀ b < params.buckets, b ∉ params.path p → ∀ x ∈ tree b, x.id ≠ id

theorem readAccess_ends (sound : Sound c memory tree) (assigned : c.posmap id = some p) (room : c.root + 1 < 2 ^ 32) :
    Ends (readAccess id) c
      (fun a d => memory id = some a ∧ Alike c d ∧ d.root = c.root + 1 ∧ (Steady c.backend → Steady d.backend) ∧
        (∃ x ∈ d.stash.blocks, x.id = id) ∧ ∃ tree', Sound d memory tree' ∧
          (Orderly c memory tree → Orderly d memory tree') ∧ (Sole c.params tree p id → Absent c.params tree' id))
      (fun e d => Lost e ∧ ¬ Steady c.backend ∧ Alike c d ∧ d.root ≤ c.root + 1 ∧ ∃ tree', Sound d memory tree') := by
  have fits := sound.shelved.fits
  have leaf := sound.recoverable.named.leaf id p assigned
  have inside : ∀ b ∈ c.params.path p, b < c.params.buckets := fun b member => path_inside fits leaf member
  have distinct := path_nodup fits leaf
  have rooted : 0 ∈ c.params.path p := List.mem_of_mem_head? (path_root fits leaf)
  have fetch := reading_steady sound.shelved inside
  have kept := reading_kept c (c.params.path p)
  obtain ⟨y,held,named⟩ := sound.opened_holds assigned
  have value := sound.recoverable.opened_honest inside held
  rw [named] at value
  have ran := readAccess_run sound.shelved assigned leaf (sound.recoverable.named.real assigned) (Stash.peek_some.mpr ⟨held,named⟩)
  rcases reading_answer sound.shelved inside with answered | unanswered
  · rw [answered] at ran
    simp only [room,if_true] at ran
    generalize packing : c.readPacked p id ((c.placement tree).opened (c.params.path p)) = packed at ran
    have shelved : Shelved packed tree := by
      subst packing
      exact sound.shelved.same rfl rfl rfl rfl kept.1 kept.2
    have remapped : Remapped c.posmap (Function.update c.posmap id (some c.draw)) ((c.placement tree).opened (c.params.path p)) := by
      intro other
      by_cases same : other = id
      · exact .inr ⟨y,held,named.trans same.symm⟩
      · exact .inl (Function.update_of_ne same _ _)
    have renamed := sound.recoverable.named.remap (draw_leaf (c:=c) sound.shelved.leaves) assigned
    have nothing := Repacked.none c.params (Function.update c.posmap id (some c.draw)) (c.params.path p)
      ((c.placement tree).opened (c.params.path p))
    have settled := fun kept => sound.recoverable.settle c.params.top kept inside renamed remapped nothing
      fun _ _ _ seat => absurd seat List.not_mem_nil
    have shelves : ∀ b ∈ c.params.path p, Shelf packed.params (emptied b) := fun b _ => Shelf.nil _
    subst packing
    have grown : ((c.readPacked p id ((c.placement tree).opened (c.params.path p))).resealed (c.params.path p) emptied).root =
        c.root + 1 := by
      unfold root
      rw [resealed_counter shelved distinct inside,if_pos rooted]
      rfl
    obtain ⟨after,⟨stored,all,steady⟩ | ⟨unsteady,lost⟩⟩ := writing_cases shelved distinct inside rooted shelves
    · rw [stored] at ran
      refine .ok ran ⟨value,⟨rfl,rfl,rfl,rfl⟩,grown,fun good => steady (fetch good).2,⟨y,held,named⟩,_,
        ⟨after,settled _,sound.cursor⟩,fun orderly => ⟨?_,?_⟩,?_⟩
      · exact orderly.placed.settle c.params.top distinct inside renamed remapped nothing all
      · apply resealed_synced shelved distinct inside all
        intro b small
        obtain ⟨view,rest⟩ := orderly.synced b small
        have same : (c.readPacked p id ((c.placement tree).opened (c.params.path p))).holding b = c.holding b := by
          unfold holding
          show (if b < c.params.top then _ else LossyBackend.bucket (c.reading (c.params.path p)).2 b) = _
          rw [kept.1]
          rfl
        rw [same]
        exact ⟨(congrFun kept.1 b).trans view,rest⟩
      · intro sole b small x member
        unfold refilled at member
        split at member
        · exact absurd member List.not_mem_nil
        · rename_i closed
          exact sole b small (fun opened => closed ⟨opened,.inr (all b)⟩) x member
    · have unsteadied : ¬ Steady c.backend := fun good => unsteady (fetch good).2
      have still : ∃ tree', Sound ((c.readPacked p id ((c.placement tree).opened (c.params.path p))).resealed
          (c.params.path p) emptied) memory tree' := ⟨_,after,settled _,sound.cursor⟩
      rcases lost with ⟨error,failed⟩ | failed
      · rw [failed] at ran
        exact .error ran ⟨.inl ⟨error,rfl⟩,unsteadied,⟨rfl,rfl,rfl,rfl⟩,Nat.le_of_eq grown,still⟩
      · rw [failed] at ran
        exact .error ran ⟨.inr rfl,unsteadied,⟨rfl,rfl,rfl,rfl⟩,Nat.le_of_eq grown,still⟩
  · have unsteady : ¬ Steady c.backend := by
      intro steady
      obtain ⟨found,ok⟩ := (fetch steady).1
      rcases unanswered with ⟨error,refused⟩ | dropped
      · rw [ok] at refused; cases refused
      · rw [ok] at dropped; cases dropped
    have still : Sound {c with backend:=(c.reading (c.params.path p)).2} memory tree :=
      ⟨sound.shelved.same rfl rfl rfl rfl kept.1 kept.2,sound.recoverable,sound.cursor⟩
    rcases unanswered with ⟨error,refused⟩ | dropped
    · rw [refused] at ran
      exact .error ran ⟨.inl ⟨error,rfl⟩,unsteady,⟨rfl,rfl,rfl,rfl⟩,Nat.le_succ _,tree,still⟩
    · rw [dropped] at ran
      exact .error ran ⟨.inr rfl,unsteady,⟨rfl,rfl,rfl,rfl⟩,Nat.le_succ _,tree,still⟩

-- admitBlock up to its access count: the block is in the stash, on a path of its own.
def admitted (c : RingOramClient B) (id : BlockId) (stash : Stash) : RingOramClient B :=
  {c.drawn with posmap:=Function.update c.posmap id (some c.draw),stash:=stash}

omit [BlockBackend B] [LossyBackend B] [AesGcm] in
theorem admitAccess_run (leaves : 0 < c.params.nLeaves) (sized : payload.length = c.params.blockBytes)
    (real : id.isDummy = false) (fresh : c.stash.peek id = none) :
    admitAccess id payload c = .ok () (c.admitted id (c.stash.push ⟨id,payload⟩ fresh)) := by
  have remapped : PositionMap.set c.posmap id c.draw = .ok (Function.update c.posmap id (some c.draw)) :=
    if_neg (by rw [real]; exact Bool.false_ne_true)
  have exact_ : payloadFromExact payload c.params.blockBytes = .ok payload := if_pos sized
  have pushed : c.stash.insert ⟨id,payload⟩ = .ok (c.stash.push ⟨id,payload⟩ fresh) := by
    simp [Stash.insert,Block.isDummy,real,fresh]
  unfold admitAccess
  rw [bind_ok (get_run c)]
  refine (congrFun (if_neg (fun wrong => wrong sized)) c).trans ?_
  refine (bind_ok (freshPath_run leaves)).trans ?_
  refine (bind_ok (get_run _)).trans ?_
  refine (bind_ok (checked_ok remapped _)).trans ?_
  refine (bind_ok (set_run _ _)).trans ?_
  refine (bind_ok (checked_ok exact_ _)).trans ?_
  refine (bind_ok (get_run _)).trans ?_
  exact bind_ok (checked_ok pushed _)

theorem admitAccess_sound (sound : Sound c memory tree) (unknown : memory id = none) (real : id.isDummy = false)
    (sized : payload.length = c.params.blockBytes) :
    ∃ d, admitAccess id payload c = .ok () d ∧ Alike c d ∧ d.root = c.root ∧ d.backend = c.backend ∧
      Sound d (Function.update memory id (some payload)) tree ∧
        (Orderly c memory tree → Orderly d (Function.update memory id (some payload)) tree) := by
  obtain ⟨fresh,absent⟩ := sound.recoverable.unknown unknown
  have leaf := draw_leaf (c:=c) sound.shelved.leaves
  have missing := Stash.peek_none.mp fresh
  refine ⟨_,admitAccess_run sound.shelved.leaves sized real fresh,⟨rfl,rfl,rfl,rfl⟩,rfl,rfl,
    ⟨sound.shelved.same rfl rfl rfl rfl rfl rfl,?_,sound.cursor⟩,fun orderly => ⟨?_,orderly.synced⟩⟩
  · exact sound.recoverable.put c.stash fresh (fun _ _ => Iff.rfl) absent leaf real sized
  · exact orderly.placed.put c.stash fresh (fun _ _ => rfl) absent leaf real sized

end RingOramClient
end RingOram
