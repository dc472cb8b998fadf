import GeloLightrag.RingOram.Copies
import GeloLightrag.RingOram.Refinement

namespace RingOram
open Foundation

namespace RingOramClient
section
variable {B : Type} [BlockBackend B] [LossyBackend B] [AesGcm]

-- Draining these buckets brings no copy into the stash but the latest.
def Unspoiled (c : RingOramClient B) (memory : Memory) (ids : List Nat) : Prop :=
  ∀ x ∈ (c.stash.gather (ids.flatMap c.contents)).blocks, memory x.id = some x.payload

instance (c : RingOramClient B) (memory : Memory) (ids : List Nat) : Decidable (c.Unspoiled memory ids) :=
  inferInstanceAs (Decidable (∀ x ∈ _, _))

-- Ids may be given again, though none whose block is in the stash: `insert` refuses
-- it. And no path is drained that has an older copy ahead of the latest one.
def Clean (c : RingOramClient B) (memory : Memory) (op : Op) : Prop :=
  (∀ s, c.EvictsAt op s → s.Unspoiled (meaningOf c.params.blockBytes memory op).2 s.evictionPath) ∧
    match op with
    | .admitBlock id payload => id.isDummy = false ∧ (payload.length = c.params.blockBytes → c.stash.peek id = none)
    | .read id => ∀ p, c.posmap id = some p → c.Unspoiled memory (c.params.path p)
    | .write _ _ => False
    | .setDeferEvictions _ => True
    | .flushEvictions => True

-- A client whose reads find the latest copies.
structure Carries (c : RingOramClient B) (memory : Memory) (tree : Nat → List Block) : Prop extends Turning c tree where
  current : Current c.params memory (c.placement tree)

variable {c d : RingOramClient B} {memory : Memory} {tree : Nat → List Block} {id : BlockId} {payload : Bytes}

theorem Sound.carries (sound : Sound c memory tree) : Carries c memory tree :=
  ⟨sound.turning,sound.recoverable.current sound.shelved.fits⟩

theorem Carries.same (carries : Carries c memory tree) (params : d.params = c.params) (key : d.key = c.key)
    (counters : d.counters = c.counters) (cache : d.treetopCache = c.treetopCache) (backend : d.backend = c.backend)
    (posmap : d.posmap = c.posmap) (stash : d.stash = c.stash) (cursor : d.evictCursor = c.evictCursor) : Carries d memory tree := by
  refine ⟨⟨carries.shelved.same params key counters cache (by rw [backend]) (by rw [backend]),?_⟩,?_⟩
  · rw [cursor,params]
    exact carries.cursor
  · have held := carries.current
    unfold placement at held ⊢
    rwa [params,posmap,stash]

-- The write of a path that a steady backend answers.
theorem writing_steady {ids : List Nat} {fresh : Nat → List Block} (shelved : Shelved c tree) (distinct : ids.Nodup)
    (inside : ∀ b ∈ ids, b < c.params.buckets) (rooted : 0 ∈ ids) (shelves : ∀ b ∈ ids, Shelf c.params (fresh b)) (good : Steady c.backend) :
    (c.writing ids fresh).1 = .ok () ∧ Steady (c.writing ids fresh).2 ∧ ∃ kept : Nat → Bool, (∀ b, kept b = true) ∧
      Shelved (c.resealed ids fresh) (refilled c.params.top ids fresh kept tree) := by
  obtain ⟨after,⟨stored,all,steady⟩ | ⟨unsteady,_⟩⟩ := writing_cases shelved distinct inside rooted shelves
  · exact ⟨stored,steady good,_,all,after⟩
  · exact absurd good unsteady

theorem evictPath_carries (carries : Carries c memory tree) (room : c.root + 1 < 2 ^ 32) (good : Steady c.backend)
    (clean : c.Unspoiled memory c.evictionPath) :
    ∃ d, evictPath c = .ok () d ∧ Alike c d ∧ d.root = c.root + 1 ∧ Steady d.backend ∧ ∃ tree', Carries d memory tree' := by
  have turning := carries.toTurning
  have latest : ∀ x ∈ ((c.placement tree).opened c.evictionPath).blocks, memory x.id = some x.payload := by
    intro x member
    rw [←turning.full] at member
    exact clean x member
  obtain ⟨fresh,left,plan,repacked,shelves⟩ := turning.plan carries.current.named latest
  have rooted : 0 ∈ c.evictionPath := List.mem_of_mem_head? turning.rooted
  obtain ⟨⟨found,answered⟩,steady⟩ := reading_steady turning.shelved turning.inside good
  obtain ⟨stored,steady,kept,all,after⟩ := writing_steady (turning.packed left) turning.distinct turning.inside rooted shelves steady
  have ran := evictPath_run turning plan shelves
  rw [answered] at ran
  change evictPath c = if c.root + 1 < 2 ^ 32 then _ else _ at ran
  rw [if_pos room,stored] at ran
  refine ⟨_,ran,⟨rfl,rfl,rfl,rfl⟩,?_,steady,_,⟨⟨after,Nat.mod_lt _ turning.shelved.leaves⟩,?_⟩⟩
  · unfold root
    rw [resealed_counter (turning.packed left) turning.distinct turning.inside,if_pos rooted]
    rfl
  · exact carries.current.settle c.params.top turning.shelved.fits turning.leaf latest carries.current.named (fun _ => .inl rfl) repacked all

theorem readAccess_carries (carries : Carries c memory tree) (assigned : c.posmap id = some p) (room : c.root + 1 < 2 ^ 32)
    (good : Steady c.backend) (clean : c.Unspoiled memory (c.params.path p)) :
    ∃ a d, readAccess id c = .ok a d ∧ memory id = some a ∧ Alike c d ∧ d.root = c.root + 1 ∧ Steady d.backend ∧
      ∃ tree', Carries d memory tree' := by
  have fits := carries.shelved.fits
  have leaf := carries.current.named.leaf id p assigned
  have inside : ∀ b ∈ c.params.path p, b < c.params.buckets := fun b member => path_inside fits leaf member
  have distinct := path_nodup fits leaf
  have rooted : 0 ∈ c.params.path p := List.mem_of_mem_head? (path_root fits leaf)
  have kept := reading_kept c (c.params.path p)
  have latest : ∀ x ∈ ((c.placement tree).opened (c.params.path p)).blocks, memory x.id = some x.payload := by
    intro x member
    rw [←carries.shelved.drained inside] at member
    exact clean x member
  obtain ⟨x,present,value⟩ := carries.current.first id p assigned
  have packed : Shelved (c.readPacked p id ((c.placement tree).opened (c.params.path p))) tree :=
    carries.shelved.same rfl rfl rfl rfl kept.1 kept.2
  have shelves : ∀ b ∈ c.params.path p, Shelf c.params (emptied b) := fun _ _ => Shelf.nil _
  obtain ⟨⟨found,answered⟩,steady⟩ := reading_steady carries.shelved inside good
  obtain ⟨stored,steady,kept,all,after⟩ := writing_steady packed distinct inside rooted shelves steady
  have ran := readAccess_run carries.shelved assigned leaf (carries.current.named.real assigned) present
  rw [answered] at ran
  simp only [room,if_true] at ran
  rw [stored] at ran
  refine ⟨x.payload,_,ran,value,⟨rfl,rfl,rfl,rfl⟩,?_,steady,_,⟨⟨after,carries.cursor⟩,?_⟩⟩
  · unfold root
    rw [resealed_counter packed distinct inside,if_pos rooted]
    rfl
  · refine carries.current.settle c.params.top fits leaf latest (carries.current.named.remap (draw_leaf (c:=c) carries.shelved.leaves) assigned)
      (fun other => ?_) (Repacked.none c.params _ _ _) all
    by_cases same : other = id
    · subst same
      exact .inr ⟨x,(Stash.peek_some.mp present).1,(Stash.peek_some.mp present).2⟩
    · exact .inl (Function.update_of_ne same _ _)

theorem admitAccess_carries (carries : Carries c memory tree) (fresh : c.stash.peek id = none) (real : id.isDummy = false)
    (sized : payload.length = c.params.blockBytes) :
    ∃ d, admitAccess id payload c = .ok () d ∧ Alike c d ∧ d.root = c.root ∧ d.backend = c.backend ∧
      Carries d (Function.update memory id (some payload)) tree :=
  ⟨_,admitAccess_run carries.shelved.leaves sized real fresh,⟨rfl,rfl,rfl,rfl⟩,rfl,rfl,
    ⟨⟨carries.shelved.same rfl rfl rfl rfl rfl rfl,carries.cursor⟩,
      carries.current.put fresh (draw_leaf (c:=c) carries.shelved.leaves) real sized⟩⟩

theorem afterAccess_carries (carries : Carries c memory tree) (quota : c.accessesSinceEvict < c.params.a) (room : Headroom c 0)
    (good : Steady c.backend) (clean : ∀ s, c.inlineEviction = some s → s.Unspoiled memory s.evictionPath) :
    ∃ d, afterAccess c = .ok () d ∧ d.params = c.params ∧ Steady d.backend ∧ d.accessesSinceEvict < d.params.a ∧
      ∃ tree', Carries d memory tree' := by
  cases inline : c.inlineEviction with
  | some s =>
      obtain ⟨ran,small⟩ := afterAccess_evict quota inline
      obtain ⟨rfl,full,prompt⟩ := inlineEviction_due inline
      have free := room full
      rw [if_neg (by rw [prompt]; exact Bool.false_ne_true)] at free
      obtain ⟨d,evicted,alike,_,steady,tree',carries'⟩ := evictPath_carries (carries.same (d:=c.due) rfl rfl rfl rfl rfl rfl rfl rfl) free good (clean _ inline)
      have quota' : d.accessesSinceEvict < d.params.a := by rw [alike.accesses,alike.params]; exact small
      refine ⟨d,?_,alike.params,steady,quota',tree',carries'⟩
      rw [ran,bind_ok evicted,maybeEvictTurns_idle _ quota']
  | none =>
      by_cases full : c.params.a ≤ c.accessesSinceEvict+1
      · have defer : c.deferEvictions = true := by
          cases flag : c.deferEvictions with
          | true => rfl
          | false => rw [inlineEviction,if_pos ⟨full,flag⟩] at inline; cases inline
        have free := room full
        rw [if_pos defer] at free
        have small : c.due.accessesSinceEvict < c.due.params.a := by
          show c.accessesSinceEvict+1-c.params.a < c.params.a
          omega
        refine ⟨{c.due with pendingEvictions:=c.pendingEvictions+1},?_,rfl,good,small,tree,carries.same rfl rfl rfl rfl rfl rfl rfl rfl⟩
        rw [afterAccess_turn quota full,if_pos defer,bind_ok (addPending_run (c:=c.due) free)]
        exact maybeEvictTurns_idle _ small
      · exact ⟨_,afterAccess_idle (Nat.lt_of_not_le full),rfl,good,Nat.lt_of_not_le full,tree,carries.same rfl rfl rfl rfl rfl rfl rfl rfl⟩

theorem flushTurns_carries (turns : Nat) (carries : Carries c memory tree) (quota : c.accessesSinceEvict < c.params.a)
    (room : 0 < turns → c.root + turns < 2 ^ 32) (good : Steady c.backend)
    (clean : ∀ s, flushStarts turns c s → s.Unspoiled memory s.evictionPath) :
    ∃ d, flushTurns turns c = .ok () d ∧ d.params = c.params ∧ Steady d.backend ∧ d.accessesSinceEvict < d.params.a ∧
      ∃ tree', Carries d memory tree' := by
  induction turns generalizing c tree with
  | zero => exact ⟨c,rfl,rfl,good,quota,tree,carries⟩
  | succ turns ih =>
      have free := room (Nat.succ_pos turns)
      obtain ⟨d,evicted,alike,grown,steady,tree',carries'⟩ := evictPath_carries carries (by omega) good (clean c (.inl rfl))
      obtain ⟨e,flushed,params,rest⟩ := ih (c:={d with pendingEvictions:=d.pendingEvictions-1}) (carries'.same rfl rfl rfl rfl rfl rfl rfl rfl)
        (by show d.accessesSinceEvict < d.params.a; rw [alike.accesses,alike.params]; exact quota)
        (fun _ => by show d.root + turns < _; omega) steady fun s starts => clean s (.inr ⟨d,evicted,starts⟩)
      refine ⟨e,?_,params.trans alike.params,rest⟩
      unfold flushTurns
      rw [bind_ok evicted,bind_ok (modify_run _ d)]
      exact flushed

-- The client answers as the plain map does, and its reads find the latest copies.
def Follows (params : RingOramParams) (c : RingOramClient B) (memory : Memory) : Prop :=
  c.params = params ∧ Steady c.backend ∧ c.accessesSinceEvict < c.params.a ∧ ∃ tree, Carries c memory tree

theorem follows_step {params : RingOramParams} {op : Op} (follows : Follows params c memory) (room : c.Room op) (clean : c.Clean memory op) :
    ∃ next, step c op = some ((meaningOf params.blockBytes memory op).1,next) ∧ Follows params next (meaningOf params.blockBytes memory op).2 := by
  obtain ⟨rfl,good,quota,tree,carries⟩ := follows
  obtain ⟨evicts,drains⟩ := clean
  cases op with
  | admitBlock id payload =>
      by_cases sized : payload.length = c.params.blockBytes
      · have meant : meaningOf c.params.blockBytes memory (.admitBlock id payload) = (.done,Function.update memory id (some payload)) := if_pos sized
        rw [meant] at evicts ⊢
        obtain ⟨d,ran,alike,same,backend,carries'⟩ := admitAccess_carries carries (drains.2 sized) drains.1 sized
        have free : d.Headroom 0 := (alike.headroom (same.trans (Nat.add_zero _).symm)).mpr (room sized)
        obtain ⟨e,ended,params,after⟩ := afterAccess_carries carries' (by rw [alike.accesses,alike.params]; exact quota) free (by rw [backend]; exact good)
          fun s starts => evicts s ⟨d,ran,starts⟩
        refine ⟨e,?_,params.trans alike.params,after⟩
        unfold step
        rw [show perform (.admitBlock id payload) c = .ok .done e from bind_ok ((bind_ok ran).trans ended)]
      · have meant : meaningOf c.params.blockBytes memory (.admitBlock id payload) = (.failed (.payloadSize c.params.blockBytes payload.length),memory) :=
          if_neg sized
        rw [meant]
        refine ⟨c,?_,rfl,good,quota,tree,carries⟩
        unfold step
        rw [admit_refused sized]
  | read id =>
      cases assigned : c.posmap id with
      | none =>
          have unknown := carries.current.named.unknown assigned
          have meant : meaningOf c.params.blockBytes memory (.read id) = (.failed (.unknownBlock id),memory) := by simp [meaningOf,unknown]
          rw [meant]
          refine ⟨c,?_,rfl,good,quota,tree,carries⟩
          unfold step
          rw [read_unknown assigned]
      | some p =>
          have free := room (by rw [assigned]; rfl)
          obtain ⟨a,d,ran,value,alike,grown,steady,tree',carries'⟩ := readAccess_carries carries assigned free.1 good (drains p assigned)
          have meant : meaningOf c.params.blockBytes memory (.read id) = (.payload a,memory) := by simp [meaningOf,value]
          rw [meant] at evicts ⊢
          obtain ⟨e,ended,params,after⟩ := afterAccess_carries carries' (by rw [alike.accesses,alike.params]; exact quota)
            ((alike.headroom grown).mpr free.2) steady fun s starts => evicts s ⟨a,d,ran,starts⟩
          refine ⟨e,?_,params.trans alike.params,after⟩
          unfold step
          rw [show perform (.read id) c = .ok (.payload a) e from bind_ok ((bind_ok ran).trans (bind_ok ended))]
  | write id payload => exact drains.elim
  | setDeferEvictions defer => exact ⟨_,rfl,rfl,good,quota,tree,carries.same rfl rfl rfl rfl rfl rfl rfl rfl⟩
  | flushEvictions =>
      obtain ⟨d,flushed,params,after⟩ := flushTurns_carries c.pendingEvictions carries quota room good evicts
      refine ⟨d,?_,params,after⟩
      unfold step
      rw [show perform .flushEvictions c = .ok .done d from bind_ok ((bind_ok (get_run c)).trans flushed)]
      rfl

-- The states in which an operation's evictions start, computed.
def flushList : Nat → RingOramClient B → List (RingOramClient B)
  | 0,_ => []
  | turns+1,c => c ::
    match evictPath c with
    | .ok _ d => flushList turns {d with pendingEvictions:=d.pendingEvictions-1}
    | .error _ _ => []

def evictionStarts (c : RingOramClient B) : Op → List (RingOramClient B)
  | .admitBlock id payload =>
    match admitAccess id payload c with
    | .ok _ d => d.inlineEviction.toList
    | .error _ _ => []
  | .read id =>
    match readAccess id c with
    | .ok _ d => d.inlineEviction.toList
    | .error _ _ => []
  | .write id payload =>
    if payload.length = c.params.blockBytes then
      match readAccess id c with
      | .ok _ d => d.inlineEviction.toList
      | .error _ _ => []
    else []
  | .setDeferEvictions _ => []
  | .flushEvictions => flushList c.pendingEvictions c

omit [LossyBackend B] in
theorem mem_flushList {turns : Nat} {s : RingOramClient B} : s ∈ flushList turns c ↔ flushStarts turns c s := by
  induction turns generalizing c with
  | zero => simp [flushList,flushStarts]
  | succ turns ih =>
      unfold flushList flushStarts
      cases evictPath c with
      | ok u d => simp [ih]
      | error e d => simp

omit [LossyBackend B] in
theorem mem_evictionStarts {s : RingOramClient B} (op : Op) : s ∈ c.evictionStarts op ↔ c.EvictsAt op s := by
  cases op with
  | admitBlock id payload => cases ran : admitAccess id payload c <;> simp [evictionStarts,EvictsAt,ran]
  | read id => cases ran : readAccess id c <;> simp [evictionStarts,EvictsAt,ran]
  | write id payload =>
      by_cases sized : payload.length = c.params.blockBytes
      · cases ran : readAccess id c <;> simp [evictionStarts,EvictsAt,ran,sized]
      · simp [evictionStarts,EvictsAt,sized]
  | setDeferEvictions defer => simp [evictionStarts,EvictsAt]
  | flushEvictions => exact mem_flushList

instance (c : RingOramClient B) (memory : Memory) (op : Op) : Decidable (c.Clean memory op) :=
  have : Decidable (∀ s, c.EvictsAt op s → s.Unspoiled (meaningOf c.params.blockBytes memory op).2 s.evictionPath) :=
    decidable_of_iff (∀ s ∈ c.evictionStarts op, s.Unspoiled (meaningOf c.params.blockBytes memory op).2 s.evictionPath)
      (forall_congr' fun _ => imp_congr_left (mem_evictionStarts op))
  match op with
  | .admitBlock id payload => inferInstanceAs (Decidable (_ ∧ (id.isDummy = false ∧ (payload.length = c.params.blockBytes → c.stash.peek id = none))))
  | .read id =>
    have : Decidable (∀ p, c.posmap id = some p → c.Unspoiled memory (c.params.path p)) :=
      decidable_of_iff (∀ p ∈ c.posmap id, c.Unspoiled memory (c.params.path p)) Iff.rfl
    inferInstanceAs (Decidable (_ ∧ _))
  | .write _ _ => inferInstanceAs (Decidable (_ ∧ False))
  | .setDeferEvictions _ => inferInstanceAs (Decidable (_ ∧ True))
  | .flushEvictions => inferInstanceAs (Decidable (_ ∧ True))

-- An id whose block is in the stash is refused.
theorem admit_held (leaves : 0 < c.params.nLeaves) (sized : payload.length = c.params.blockBytes) (real : id.isDummy = false)
    (held : c.stash.peek id = some x) : step c (.admitBlock id payload) = none := by
  have remapped : PositionMap.set c.posmap id c.draw = .ok (Function.update c.posmap id (some c.draw)) :=
    if_neg (by rw [real]; exact Bool.false_ne_true)
  have exact_ : payloadFromExact payload c.params.blockBytes = .ok payload := if_pos sized
  have refused : ∃ text, c.stash.insert ⟨id,payload⟩ = .error text := by
    unfold Stash.insert
    rw [if_neg (by simp [Block.isDummy,real]),dif_neg (by rw [held]; exact Option.some_ne_none x)]
    exact ⟨_,rfl⟩
  obtain ⟨text,refused⟩ := refused
  have stopped : ∃ d, admitAccess id payload c = .error (.panic text) d := by
    refine ⟨{c.drawn with posmap:=Function.update c.posmap id (some c.draw)},?_⟩
    unfold admitAccess
    rw [bind_ok (get_run c)]
    refine (congrFun (if_neg (fun wrong => wrong sized)) c).trans ?_
    refine (bind_ok (freshPath_run leaves)).trans ?_
    refine (bind_ok (get_run _)).trans ?_
    refine (bind_ok (checked_ok remapped _)).trans ?_
    refine (bind_ok (set_run _ _)).trans ?_
    refine (bind_ok (checked_ok exact_ _)).trans ?_
    refine (bind_ok (get_run _)).trans ?_
    exact bind_error (checked_error refused _)
  obtain ⟨d,ran⟩ := stopped
  unfold step
  rw [show perform (.admitBlock id payload) c = .error (.panic text) d from bind_error (bind_error ran)]

end

end RingOramClient
end RingOram
