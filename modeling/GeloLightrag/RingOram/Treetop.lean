import GeloLightrag.Foundation.Agreement
import GeloLightrag.RingOram.Refinement

set_option linter.unusedSectionVars false

namespace RingOram
open Foundation

-- The same sizes without a treetop cache.
def RingOramParams.uncached (params : RingOramParams) : RingOramParams :=
  {params with treetopLevels:=0,words:=⟨params.words.1,params.words.2.1,params.words.2.2.1,params.words.2.2.2.1,
    params.words.2.2.2.2.1,by decide⟩}

theorem RingOramParams.Fits.uncached {params : RingOramParams} (fits : params.Fits) : params.uncached.Fits :=
  ⟨fits.tree,Nat.zero_le 31,fits.bucket,fits.bytes⟩

theorem repack_uncached (params : RingOramParams) (posmap : PositionMap) (ids : List Nat) (candidates : List BlockId)
    (contents : Nat → List Block) (stash : Stash) :
    repack params.uncached posmap ids candidates contents stash = repack params posmap ids candidates contents stash := by
  induction candidates generalizing contents stash with
  | nil => rfl
  | cons blockId rest ih =>
      unfold repack
      simp only [ih]
      rfl

namespace RingOramClient
variable {B : Type}

-- The client without a cache that does what c does, over its own backend.
def twin (c : RingOramClient B) (be : B) : RingOramClient B :=
  {c with params:=c.params.uncached,backend:=be,treetopCache:=[]}

variable [BlockBackend B] [LossyBackend B]

structure Mirrors (c : RingOramClient B) (be : B) : Prop where
  fits : c.params.Fits
  sized : BlockBackend.numBuckets c.backend = c.params.buckets
  twinned : BlockBackend.numBuckets be = c.params.buckets
  stored : LossyBackend.bucket c.backend = LossyBackend.bucket be
  cached : c.treetopCache = (List.range (min c.params.top c.params.buckets)).map (LossyBackend.bucket c.backend)
  mapped : ∀ id p, c.posmap id = some p → p < c.params.nLeaves

def Twins (params : RingOramParams) (c d : RingOramClient B) : Prop :=
  c.params = params ∧ ∃ be, d = c.twin be ∧ Mirrors c be

theorem Mirrors.twins {c : RingOramClient B} {be : B} (mirrors : Mirrors c be) : Twins c.params c (c.twin be) :=
  ⟨rfl,be,rfl,mirrors⟩

-- Everything but the parameters, the backend and its mirror may change freely,
-- as long as the mapped paths stay in the tree.
theorem Mirrors.moved {c c' d : RingOramClient B} {be : B} (mirrors : Mirrors c be) (twinned : d = c'.twin be)
    (params : c'.params = c.params) (backend : c'.backend = c.backend) (cache : c'.treetopCache = c.treetopCache)
    (mapped : ∀ id p, c'.posmap id = some p → p < c.params.nLeaves) : Twins c.params c' d := by
  obtain ⟨fits,sized,twin_sized,stored,cached,_⟩ := mirrors
  exact ⟨params,be,twinned,by rw [params]; exact fits,by rw [params,backend]; exact sized,by rw [params]; exact twin_sized,
    by rw [backend]; exact stored,by rw [params,backend,cache]; exact cached,by rw [params]; exact mapped⟩

theorem Mirrors.inside {c : RingOramClient B} {be : B} (mirrors : Mirrors c be) (leaf : p < c.params.nLeaves) :
    pathBuckets p c.params.nLeaves = .ok (c.params.path p) ∧ ∀ b ∈ c.params.path p, b < c.params.buckets := by
  have shallow : treeLevels c.params.nLeaves ≤ 32 := Nat.le_succ_of_le mirrors.fits.tree
  have small := Nat.lt_of_lt_of_le leaf (leaves_fit shallow)
  exact ⟨pathBuckets_branch shallow small,fun b member => CompleteTree.branch_bound small member⟩

theorem checked_then {c d : RingOramClient B} {params : RingOramParams} {α β : Type} {f g : α → OramM B β} (x : Except String α)
    (now : Twins params c d) (rest : ∀ a, x = .ok a → Agrees (Twins params) (f a) c (g a) d) :
    Agrees (Twins params) (checked x >>= f) c (checked x >>= g) d := by
  cases x with
  | ok a => exact rest a rfl
  | error text => exact .error (bind_error rfl) (bind_error rfl) now

variable [FaithfulBackend B] {c d : RingOramClient B} {be : B} {ids : List Nat} {params : RingOramParams}

theorem Mirrors.lookups (mirrors : Mirrors c be) (inside : ∀ b ∈ ids, b < c.params.buckets) :
    ids.mapM (cacheLookup c.params.top c.treetopCache) =
      .ok (ids.map fun b => if b < c.params.top then some (LossyBackend.bucket c.backend b) else none) := by
  apply mapM_ok
  intro b member
  unfold cacheLookup
  by_cases shallow : b < c.params.top
  · have small := inside b member
    have listed : c.treetopCache[b]? = some (LossyBackend.bucket c.backend b) := by
      rw [mirrors.cached]
      simp [shallow,small]
    simp [shallow,listed]
  · simp [shallow]

-- Whatever part of a path lies in the cache, its read yields what is stored.
theorem readPathCached_stored (mirrors : Mirrors c be) (inside : ∀ b ∈ ids, b < c.params.buckets) :
    ∃ backend, readPathCached ids c = .ok (ids.map (LossyBackend.bucket c.backend)) {c with backend:=backend} ∧
      LossyBackend.bucket backend = LossyBackend.bucket c.backend ∧
      BlockBackend.numBuckets backend = BlockBackend.numBuckets c.backend := by
  have whole : (fillHoles (ids.map fun b => if b < c.params.top then some (LossyBackend.bucket c.backend b) else none)
      ((c.deep ids).map (LossyBackend.bucket c.backend))).mapM unwrapBucket = .ok (ids.map (LossyBackend.bucket c.backend)) := by
    unfold deep
    rw [fillHoles_deep,List.mapM_map]
    exact mapM_ok _ fun b _ => rfl
  unfold readPathCached
  rw [bind_ok (get_run c),bind_ok (checked_ok mirrors.fits.cached c),bind_ok (checked_ok (mirrors.lookups inside) c)]
  by_cases none : (c.deep ids).isEmpty = true
  · rw [List.isEmpty_iff.mp none] at whole
    refine ⟨c.backend,(congrFun (if_pos none) c).trans ?_,rfl,rfl⟩
    rw [bind_ok (pure_run _ c)]
    exact checked_ok whole c
  · have below : ∀ b ∈ c.deep ids, b < BlockBackend.numBuckets c.backend := by
      intro b member
      rw [mirrors.sized]
      exact inside b (List.mem_of_mem_filter member)
    have fetched := backendReadPath_run (c.deep ids) c
    rw [FaithfulBackend.reads _ _ below] at fetched
    obtain ⟨kept,count⟩ := LossyBackend.read_kept (c.deep ids) c.backend
    refine ⟨_,(congrFun (if_neg none) c).trans ((bind_ok fetched).trans (checked_ok whole _)),kept,count⟩

theorem Mirrors.twin (mirrors : Mirrors c be) : Mirrors (c.twin be) be :=
  ⟨mirrors.fits.uncached,mirrors.twinned,mirrors.twinned,rfl,by
    show [] = (List.range (min (2 ^ 0 - 1) c.params.buckets)).map (LossyBackend.bucket be)
    simp,mirrors.mapped⟩

theorem readPathCached_agrees (mirrors : Mirrors c be) (inside : ∀ b ∈ ids, b < c.params.buckets) :
    Agrees (Twins c.params) (readPathCached ids) c (readPathCached ids) (c.twin be) := by
  obtain ⟨backend,ran,kept,count⟩ := readPathCached_stored mirrors inside
  obtain ⟨backend',ran',kept',count'⟩ := readPathCached_stored mirrors.twin inside
  rw [show LossyBackend.bucket (c.twin be).backend = LossyBackend.bucket c.backend from mirrors.stored.symm] at ran'
  refine .ok ran ran' ⟨rfl,backend',rfl,mirrors.fits,count.trans mirrors.sized,count'.trans mirrors.twinned,
    kept.trans (mirrors.stored.trans kept'.symm),?_,mirrors.mapped⟩
  show c.treetopCache = (List.range (min c.params.top c.params.buckets)).map (LossyBackend.bucket backend)
  rw [kept]
  exact mirrors.cached

theorem writeBucketsCached_agrees (updates : List EncryptedBucket) (now : Twins params c d)
    (inside : ∀ eb ∈ updates, eb.bucketId < params.buckets) :
    Agrees (Twins params) (writeBucketsCached updates) c (writeBucketsCached updates) d := by
  obtain ⟨rfl,be,rfl,mirrors⟩ := now
  have written : ∀ (d : RingOramClient B) (top : Nat), d.params.treetopBucketCount = .ok top →
      BlockBackend.numBuckets d.backend = c.params.buckets → ∃ backend, writeBucketsCached updates d =
          .ok () {d with treetopCache:=updates.foldl (mirror top) d.treetopCache,backend:=backend} ∧
        LossyBackend.bucket backend = store updates (LossyBackend.bucket d.backend) ∧
        BlockBackend.numBuckets backend = BlockBackend.numBuckets d.backend := by
    intro d top counted sized
    have below : ∀ eb ∈ updates, eb.bucketId < BlockBackend.numBuckets d.backend := sized ▸ inside
    have answered := FaithfulBackend.writes updates d.backend below
    have content : LossyBackend.bucket (BlockBackend.writeBuckets updates d.backend).2 =
        store updates (LossyBackend.bucket d.backend) := by
      rcases LossyBackend.write_answer updates d.backend below with ⟨_,content⟩ | ⟨⟨error,refused⟩,_⟩ | ⟨dropped,_⟩
      · exact content
      · rw [answered] at refused; cases refused
      · rw [answered] at dropped; cases dropped
    have ran := backendWriteBuckets_run updates {d with treetopCache:=updates.foldl (mirror top) d.treetopCache}
    simp only [answered] at ran
    refine ⟨_,?_,content,LossyBackend.write_count _ _⟩
    unfold writeBucketsCached
    rw [bind_ok (get_run d),bind_ok (checked_ok counted d),bind_ok (set_run _ _)]
    exact ran
  obtain ⟨backend,ran,kept,count⟩ := written c c.params.top mirrors.fits.cached mirrors.sized
  obtain ⟨backend',ran',kept',count'⟩ := written (c.twin be) 0 mirrors.fits.uncached.cached mirrors.twinned
  have uncached : updates.foldl (mirror 0) [] = [] := by
    clear written ran kept count ran' kept' count' inside
    induction updates with
    | nil => rfl
    | cons eb rest ih => exact ih
  have same : {c.twin be with treetopCache:=updates.foldl (mirror 0) (c.twin be).treetopCache,backend:=backend'} =
      twin {c with treetopCache:=updates.foldl (mirror c.params.top) c.treetopCache,backend:=backend} backend' := by
    show RingOramClient.mk _ _ _ _ _ _ _ _ _ _ _ (updates.foldl (mirror 0) []) _ _ = _
    rw [uncached]
    rfl
  refine .ok ran ran' ⟨rfl,backend',same,mirrors.fits,count.trans mirrors.sized,count'.trans mirrors.twinned,?_,?_,mirrors.mapped⟩
  · rw [kept,kept',mirrors.stored]
    rfl
  · show updates.foldl (mirror c.params.top) c.treetopCache =
      (List.range (min c.params.top c.params.buckets)).map (LossyBackend.bucket backend)
    have long : c.treetopCache.length = min c.params.top c.params.buckets := by
      rw [mirrors.cached]; exact (List.length_map _).trans List.length_range
    obtain ⟨length,value⟩ := mirror_fold c.params.top c.treetopCache updates fun eb member shallow => by
      rw [long]; exact Nat.lt_min.mpr ⟨shallow,inside eb member⟩
    refine List.ext_getElem (by rw [length,long]; simp) fun b low _ => ?_
    have shallow : b < min c.params.top c.params.buckets := by rwa [length,long] at low
    have deep := value b (Nat.lt_min.mp shallow).1
    rw [List.getD_eq_getElem?_getD,List.getElem?_eq_getElem low,Option.getD_some] at deep
    rw [deep,List.getElem_map,List.getElem_range,kept]
    apply store_local
    have old : b < c.treetopCache.length := long ▸ shallow
    rw [List.getD_eq_getElem?_getD,List.getElem?_eq_getElem old,Option.getD_some]
    simp [mirrors.cached]

variable [AesGcm]

theorem absorb_agrees (tampered : AesError → Fault) (pairs : List (EncryptedBucket × Nat)) (now : Twins params c d) :
    Agrees (Twins params) (absorb tampered pairs) c (absorb tampered pairs) d := by
  induction pairs generalizing c d with
  | nil => exact .pure () now
  | cons pair rest ih =>
      obtain ⟨eb,bid⟩ := pair
      obtain ⟨rfl,be,rfl,mirrors⟩ := now
      unfold absorb
      by_cases named : eb.bucketId = bid
      · simp only [named,ne_eq,not_true_eq_false,if_false]
        refine .after (get_run c) (get_run _) ?_
        simp only [show (c.twin be).key = c.key from rfl]
        cases aesDecrypt c.key bid eb.writeCounter eb.ciphertext with
        | error e => exact .throw _ mirrors.twins
        | ok pt =>
            refine checked_then (deserialiseBucket pt c.params) mirrors.twins fun blocks _ => ?_
            refine checked_then (Stash.drain blocks c.stash) mirrors.twins fun stash _ => ?_
            exact .after (set_run c _) (set_run _ _) (ih (mirrors.moved rfl rfl rfl rfl mirrors.mapped))
      · simp only [ne_eq,named,not_false_eq_true,if_true]
        exact .throw _ mirrors.twins

theorem openPath_agrees (tampered : AesError → Fault) (now : Twins params c d) (inside : ∀ b ∈ ids, b < params.buckets) :
    Agrees (Twins params) (openPath tampered ids) c (openPath tampered ids) d := by
  obtain ⟨rfl,be,rfl,mirrors⟩ := now
  exact .bind (readPathCached_agrees mirrors inside) fun encrypted _ _ _ then_ => absorb_agrees tampered _ then_

theorem resealBucket_agrees (bid : Nat) (pt : Bytes) (now : Twins params c d) :
    Agrees (Twins params) (resealBucket bid pt) c (resealBucket bid pt) d := by
  obtain ⟨rfl,be,rfl,mirrors⟩ := now
  unfold resealBucket
  refine .after (get_run c) (get_run _) ?_
  simp only [show (c.twin be).counters = c.counters from rfl]
  cases c.counters[bid]? with
  | none => exact .throw _ mirrors.twins
  | some old =>
      refine checked_then (add32 old 1) mirrors.twins fun counter _ => ?_
      exact .after (set_run c _) (set_run _ _) (.pure _ (mirrors.moved rfl rfl rfl rfl mirrors.mapped))

theorem resealBucket_named (ran : resealBucket bid pt c = .ok eb d) : eb.bucketId = bid := by
  unfold resealBucket at ran
  rw [bind_ok (get_run c)] at ran
  cases counted : c.counters[bid]? with
  | none => rw [counted] at ran; cases ran
  | some old =>
      rw [counted] at ran
      rcases bind_cases ran with ⟨counter,middle,_,later⟩ | ⟨e,_,_,failed⟩
      · cases later
        rfl
      · cases failed

-- The new frames of a path, as `read` and `evict_path` make them; `pt` is what a
-- bucket gets.
theorem rewrite_then {α : Type} {rest rest' : List EncryptedBucket → OramM B α} (pt : Nat → Except String Bytes)
    (now : Twins params c d) (inside : ∀ b ∈ ids, b < params.buckets)
    (after : ∀ updates s t, (∀ eb ∈ updates, eb.bucketId < params.buckets) → Twins params s t →
      Agrees (Twins params) (rest updates) s (rest' updates) t) :
    Agrees (Twins params) ((ids.mapM fun bid => checked (pt bid) >>= resealBucket bid) >>= rest) c
      ((ids.mapM fun bid => checked (pt bid) >>= resealBucket bid) >>= rest') d := by
  have turns : Agrees (Twins params) (ids.mapM fun bid => checked (pt bid) >>= resealBucket bid) c
      (ids.mapM fun bid => checked (pt bid) >>= resealBucket bid) d :=
    .mapM ids now fun bid _ s t here => checked_then (pt bid) here fun bytes _ => resealBucket_agrees bid bytes here
  refine .bind turns fun updates s t ran next => after updates s t ?_ next
  have named : ∀ bid ∈ ids, ∀ s eb t, (checked (pt bid) >>= resealBucket bid : OramM B EncryptedBucket) s = .ok eb t →
      eb.bucketId = bid := by
    intro bid _ s eb t ran
    rcases bind_cases ran with ⟨bytes,middle,_,later⟩ | ⟨e,_,_,failed⟩
    · exact resealBucket_named later
    · cases failed
  intro eb member
  obtain ⟨bid,present,rfl⟩ := mapM_answers named ran eb member
  exact inside _ present

theorem freshPath_agrees (now : Twins params c d) : Agrees (Twins params) (freshPath : OramM B Nat) c freshPath d := by
  obtain ⟨rfl,be,rfl,mirrors⟩ := now
  unfold freshPath
  refine .after (get_run c) (get_run _) ?_
  simp only [show (c.twin be).params.nLeaves = c.params.nLeaves from rfl]
  by_cases none : c.params.nLeaves = 0
  · simp only [none,if_true]
    exact .error (bind_error rfl) (bind_error rfl) mirrors.twins
  · simp only [none,if_false]
    exact .after (set_run c _) (set_run _ _) (.pure _ (mirrors.moved rfl rfl rfl rfl mirrors.mapped))

theorem freshPath_leaf (ran : freshPath c = .ok p d) : p < c.params.nLeaves := by
  unfold freshPath at ran
  rw [bind_ok (get_run c)] at ran
  by_cases none : c.params.nLeaves = 0
  · simp only [none,if_true] at ran
    cases ran
  · simp only [none,if_false] at ran
    cases ran
    exact Nat.mod_lt _ (Nat.pos_of_ne_zero none)

theorem evictPath_agrees (now : Twins params c d) : Agrees (Twins params) (evictPath : OramM B Unit) c evictPath d := by
  obtain ⟨rfl,be,rfl,mirrors⟩ := now
  unfold evictPath
  refine .after (get_run c) (get_run _) ?_
  simp only [show (c.twin be).params.nLeaves = c.params.nLeaves from rfl,show (c.twin be).evictCursor = c.evictCursor from rfl]
  by_cases none : c.params.nLeaves = 0
  · simp only [none,if_true]
    exact .error (bind_error rfl) (bind_error rfl) mirrors.twins
  · simp only [none,if_false]
    have leaf : c.evictCursor % c.params.nLeaves < c.params.nLeaves := Nat.mod_lt _ (Nat.pos_of_ne_zero none)
    obtain ⟨walked,inside⟩ := mirrors.inside leaf
    refine checked_then (add32 c.evictCursor 1) mirrors.twins fun cursor _ => ?_
    refine .after (set_run c _) (set_run _ _) ?_
    refine checked_then (pathBuckets _ _) (mirrors.moved rfl rfl rfl rfl mirrors.mapped) fun bucketIds path => ?_
    rw [walked] at path
    cases path
    refine .bind (openPath_agrees _ (mirrors.moved rfl rfl rfl rfl mirrors.mapped) inside) fun _ e _ _ now => ?_
    obtain ⟨same,be,rfl,mirrors⟩ := now
    rw [←same] at inside ⊢
    refine .after (get_run e) (get_run _) ?_
    refine checked_then e.params.bucketCapacity mirrors.twins fun cap _ => ?_
    simp only [show (e.twin be).params = e.params.uncached from rfl,repack_uncached]
    refine checked_then (repack e.params e.posmap _ (e.hashes.order e.scans e.stash.ids) (fun _ => []) e.stash) mirrors.twins
      fun packed _ => ?_
    refine .after (set_run e _) (set_run _ _) ?_
    exact rewrite_then (fun bid => serialiseBucket (padTo cap e.params.blockBytes (packed.1 bid)) e.params)
      (mirrors.moved rfl rfl rfl rfl mirrors.mapped) inside fun updates _ _ below next => writeBucketsCached_agrees updates next below

theorem addPending_agrees (now : Twins params c d) : Agrees (Twins params) (addPending : OramM B Unit) c addPending d := by
  obtain ⟨rfl,be,rfl,mirrors⟩ := now
  unfold addPending
  refine .after (get_run c) (get_run _) ?_
  refine checked_then (add32 c.pendingEvictions 1) mirrors.twins fun pending _ => ?_
  exact .ok (set_run c _) (set_run _ _) (mirrors.moved rfl rfl rfl rfl mirrors.mapped)

theorem maybeEvictTurns_agrees (turns : Nat) (now : Twins params c d) :
    Agrees (Twins params) (maybeEvictTurns turns : OramM B Unit) c (maybeEvictTurns turns) d := by
  induction turns generalizing c d with
  | zero =>
      obtain ⟨rfl,be,rfl,mirrors⟩ := now
      unfold maybeEvictTurns
      refine .after (get_run c) (get_run _) ?_
      by_cases due : c.params.a ≤ c.accessesSinceEvict
      · exact .error (congrFun (if_pos due) c) (congrFun (if_pos due) _) mirrors.twins
      · exact .ok (congrFun (if_neg due) c) (congrFun (if_neg due) _) mirrors.twins
  | succ turns ih =>
      obtain ⟨rfl,be,rfl,mirrors⟩ := now
      unfold maybeEvictTurns
      refine .after (get_run c) (get_run _) ?_
      simp only [show (c.twin be).params.a = c.params.a from rfl,
        show (c.twin be).accessesSinceEvict = c.accessesSinceEvict from rfl,
        show (c.twin be).deferEvictions = c.deferEvictions from rfl]
      by_cases due : c.params.a ≤ c.accessesSinceEvict
      · simp only [due,if_true]
        refine .after (set_run c _) (set_run _ _) ?_
        cases c.deferEvictions with
        | true =>
            simp only [if_true]
            exact .bind (addPending_agrees (mirrors.moved rfl rfl rfl rfl mirrors.mapped)) fun _ _ _ _ next => ih next
        | false =>
            simp only [Bool.false_eq_true,if_false]
            exact .bind (evictPath_agrees (mirrors.moved rfl rfl rfl rfl mirrors.mapped)) fun _ _ _ _ next => ih next
      · simp only [due,if_false]
        exact .pure _ mirrors.twins

theorem afterAccess_agrees (now : Twins params c d) : Agrees (Twins params) (afterAccess : OramM B Unit) c afterAccess d := by
  have counted : Agrees (Twins params) (countAccess : OramM B Unit) c countAccess d := by
    obtain ⟨rfl,be,rfl,mirrors⟩ := now
    unfold countAccess
    refine .after (get_run c) (get_run _) ?_
    refine checked_then (add32 c.accessesSinceEvict 1) mirrors.twins fun accesses _ => ?_
    exact .ok (set_run c _) (set_run _ _) (mirrors.moved rfl rfl rfl rfl mirrors.mapped)
  refine .bind counted fun _ e _ _ next => ?_
  unfold maybeEvict
  obtain ⟨rfl,be,rfl,mirrors⟩ := next
  exact .after (get_run e) (get_run _) (maybeEvictTurns_agrees e.accessesSinceEvict mirrors.twins)

theorem flushTurns_agrees (turns : Nat) (now : Twins params c d) :
    Agrees (Twins params) (flushTurns turns : OramM B Unit) c (flushTurns turns) d := by
  induction turns generalizing c d with
  | zero => exact .pure () now
  | succ turns ih =>
      unfold flushTurns
      refine .bind (evictPath_agrees now) fun _ e _ _ next => ?_
      obtain ⟨rfl,be,rfl,mirrors⟩ := next
      exact .after (modify_run _ e) (modify_run _ _) (ih (mirrors.moved rfl rfl rfl rfl mirrors.mapped))

theorem Mirrors.remap (mirrors : Mirrors c be) {id : BlockId} {posmap : PositionMap} (leaf : p < c.params.nLeaves)
    (stored : c.posmap.set id p = .ok posmap) : ∀ id p, posmap id = some p → p < c.params.nLeaves := by
  unfold PositionMap.set at stored
  split at stored
  · cases stored
  · cases stored
    intro other q found
    by_cases same : other = id
    · subst same
      rw [Function.update_self] at found
      cases found
      exact leaf
    · rw [Function.update_of_ne same] at found
      exact mirrors.mapped other q found

theorem admitBlock_agrees (id : BlockId) (payload : Bytes) (now : Twins params c d) :
    Agrees (Twins params) (admitBlock id payload) c (admitBlock id payload) d := by
  unfold admitBlock
  refine .bind ?_ fun _ _ _ _ next => afterAccess_agrees next
  obtain ⟨rfl,be,rfl,mirrors⟩ := now
  unfold admitAccess
  refine .after (get_run c) (get_run _) ?_
  simp only [show (c.twin be).params.blockBytes = c.params.blockBytes from rfl]
  by_cases sized : payload.length = c.params.blockBytes
  · simp only [ne_eq,sized,not_true_eq_false,if_false]
    refine .bind (freshPath_agrees mirrors.twins) fun path e _ drawn next => ?_
    have leaf := freshPath_leaf drawn
    obtain ⟨same,be,rfl,mirrors⟩ := next
    rw [←same] at leaf ⊢
    refine .after (get_run e) (get_run _) ?_
    refine checked_then (e.posmap.set id path) mirrors.twins fun posmap mapped => ?_
    refine .after (set_run e _) (set_run _ _) ?_
    have moved : Twins e.params {e with posmap:=posmap} {e.twin be with posmap:=posmap} :=
      mirrors.moved rfl rfl rfl rfl (mirrors.remap leaf mapped)
    refine checked_then (payloadFromExact payload e.params.blockBytes) moved fun bytes _ => ?_
    refine .after (get_run _) (get_run _) ?_
    refine checked_then (e.stash.insert ⟨id,bytes⟩) moved fun stash _ => ?_
    exact .ok (set_run _ _) (set_run _ _) (mirrors.moved rfl rfl rfl rfl (mirrors.remap leaf mapped))
  · simp only [ne_eq,sized,not_false_eq_true,if_true]
    exact .error (bind_error rfl) (bind_error rfl) mirrors.twins

theorem readAccess_agrees (id : BlockId) (now : Twins params c d) :
    Agrees (Twins params) (readAccess id) c (readAccess id) d := by
  obtain ⟨rfl,be,rfl,mirrors⟩ := now
  unfold readAccess
  refine .after (get_run c) (get_run _) ?_
  simp only [show (c.twin be).posmap = c.posmap from rfl,show (c.twin be).params.nLeaves = c.params.nLeaves from rfl]
  cases known : c.posmap id with
  | none => exact .throw _ mirrors.twins
  | some path =>
      obtain ⟨walked,inside⟩ := mirrors.inside (mirrors.mapped id path known)
      refine checked_then (pathBuckets path c.params.nLeaves) mirrors.twins fun bucketIds listed => ?_
      rw [walked] at listed
      cases listed
      refine .bind (openPath_agrees _ mirrors.twins inside) fun _ e _ _ next => ?_
      obtain ⟨same,be,rfl,mirrors⟩ := next
      rw [←same] at inside ⊢
      refine .after (get_run e) (get_run _) ?_
      simp only [show (e.twin be).stash = e.stash from rfl]
      cases e.stash.peek id with
      | none => exact .throw _ mirrors.twins
      | some block =>
          refine .bind (freshPath_agrees mirrors.twins) fun newPath g _ drawn next => ?_
          have leaf := freshPath_leaf drawn
          obtain ⟨same,be,rfl,mirrors⟩ := next
          rw [←same] at inside leaf ⊢
          refine .after (get_run g) (get_run _) ?_
          refine checked_then (g.posmap.set id newPath) mirrors.twins fun posmap mapped => ?_
          refine .after (set_run g _) (set_run _ _) ?_
          have moved : Twins g.params {g with posmap:=posmap} {g.twin be with posmap:=posmap} :=
            mirrors.moved rfl rfl rfl rfl (mirrors.remap leaf mapped)
          refine checked_then (dummyBucket g.params) moved fun pt _ => ?_
          refine rewrite_then (fun _ => .ok pt) moved inside fun updates _ _ below next => ?_
          exact .bind (writeBucketsCached_agrees updates next below) fun _ _ _ _ last => .pure block.payload last

theorem read_agrees (id : BlockId) (now : Twins params c d) : Agrees (Twins params) (read id) c (read id) d :=
  .bind (readAccess_agrees id now) fun payload _ _ _ next =>
    .bind (afterAccess_agrees next) fun _ _ _ _ last => .pure payload last

theorem write_agrees (id : BlockId) (payload : Bytes) (now : Twins params c d) :
    Agrees (Twins params) (write id payload) c (write id payload) d := by
  obtain ⟨rfl,be,rfl,mirrors⟩ := now
  unfold write
  refine .after (get_run c) (get_run _) ?_
  simp only [show (c.twin be).params.blockBytes = c.params.blockBytes from rfl]
  by_cases sized : payload.length = c.params.blockBytes
  · simp only [ne_eq,sized,not_true_eq_false,if_false]
    refine .bind (read_agrees id mirrors.twins) fun _ e _ _ next => ?_
    obtain ⟨same,be,rfl,mirrors⟩ := next
    rw [←same]
    refine .after (get_run e) (get_run _) ?_
    simp only [show (e.twin be).stash = e.stash from rfl]
    cases e.stash.take id with
    | none => exact .throw _ mirrors.twins
    | some taken =>
        refine checked_then (payloadFromExact payload e.params.blockBytes) mirrors.twins fun bytes _ => ?_
        refine checked_then (taken.2.insert ⟨taken.1.id,bytes⟩) mirrors.twins fun stash _ => ?_
        exact .ok (set_run e _) (set_run _ _) (mirrors.moved rfl rfl rfl rfl mirrors.mapped)
  · simp only [ne_eq,sized,not_false_eq_true,if_true]
    exact .error (bind_error rfl) (bind_error rfl) mirrors.twins

theorem perform_agrees (op : Op) (now : Twins params c d) : Agrees (Twins params) (perform op) c (perform op) d := by
  cases op with
  | admitBlock id payload => exact .bind (admitBlock_agrees id payload now) fun _ _ _ _ next => .pure Reply.done next
  | read id => exact .bind (read_agrees id now) fun bytes _ _ _ next => .pure (Reply.payload bytes) next
  | write id payload => exact .bind (write_agrees id payload now) fun _ _ _ _ next => .pure Reply.done next
  | setDeferEvictions defer =>
      obtain ⟨rfl,be,rfl,mirrors⟩ := now
      exact .ok rfl rfl (mirrors.moved rfl rfl rfl rfl mirrors.mapped)
  | flushEvictions =>
      refine .bind ?_ fun _ _ _ _ next => .pure Reply.done next
      obtain ⟨rfl,be,rfl,mirrors⟩ := now
      exact .after (get_run c) (get_run _) (flushTurns_agrees c.pendingEvictions mirrors.twins)

-- A panic ends both runs, anything else lets both go on.
theorem step_in_step (op : Op) (now : Twins params c d) : InStep (Twins params) (step c op) (step d op) := by
  have same := perform_agrees op now
  unfold Agrees at same
  unfold step
  cases ran : perform op c with
  | ok reply next =>
      cases ran' : perform op d with
      | ok reply' next' => rw [ran,ran'] at same; exact same
      | error e last => rw [ran,ran'] at same; exact same.elim
  | error e next =>
      cases ran' : perform op d with
      | ok reply' next' => rw [ran,ran'] at same; exact same.elim
      | error e' next' =>
          rw [ran,ran'] at same
          obtain ⟨rfl,related⟩ := same
          cases e with
          | error e => exact ⟨rfl,related⟩
          | dropped => exact ⟨rfl,related⟩
          | panic text => trivial
          | diverged => trivial

-- Set-up fails in both for one reason, before anything is stored.
theorem new_refused {backend : B} {key : Bytes} {tape : Nat → Nat} {hashes : HashOrder} (shallow : params.treetopLevels < 32)
    (failed : new backend params.uncached key tape hashes = .error e) : new backend params key tape hashes = .error e := by
  have top : params.treetopBucketCount = .ok params.top := RingOramParams.treetopBucketCount_ok.mpr ⟨shallow,rfl⟩
  have none : params.uncached.treetopBucketCount = .ok 0 := rfl
  have counts : params.uncached.numBuckets = params.numBuckets := rfl
  by_cases fits : params.Fits ∧ BlockBackend.numBuckets backend = params.buckets
  · obtain ⟨d,made,_⟩ := new_steady fits.1.uncached fits.2 (FaithfulBackend.steady backend) key tape hashes
    rw [made] at failed
    cases failed
  · unfold new at failed ⊢
    rw [none,counts] at failed
    rw [top]
    cases counted : params.numBuckets with
    | error text => rw [counted] at failed; exact failed
    | ok demand =>
        obtain ⟨deep,rfl⟩ := RingOramParams.numBuckets_ok.mp counted
        rw [counted] at failed
        by_cases sized : BlockBackend.numBuckets backend = params.buckets
        · cases dummy : dummyBucket params with
          | ok pt =>
              obtain ⟨bucket,bytes⟩ := dummyBucket_sized dummy
              exact absurd ⟨⟨Nat.le_of_lt_succ deep,Nat.le_of_lt_succ shallow,bucket,bytes⟩,sized⟩ fits
          | error text =>
              simp only [Except.mapError,bind,Except.bind,sized,ne_eq,not_true_eq_false,if_false] at failed ⊢
              change settled (initializeTree (blank backend params.uncached key tape hashes)) = _ at failed
              change settled (initializeTree (blank backend params key tape hashes)) = _
              rw [initializeTree_refused (c:=blank backend params.uncached key tape hashes) dummy] at failed
              rw [initializeTree_refused (c:=blank backend params key tape hashes) dummy]
              exact failed
        · simp only [Except.mapError,bind,Except.bind,ne_eq,sized,not_false_eq_true,if_true] at failed ⊢
          exact failed

theorem new_twins {backend : B} {key : Bytes} {tape : Nat → Nat} {hashes : HashOrder} (shallow : params.treetopLevels < 32)
    (made : new backend params.uncached key tape hashes = .ok d) :
    ∃ c, new backend params key tape hashes = .ok c ∧ Twins params c d := by
  obtain ⟨flat,sized⟩ := new_fits made
  have fits : params.Fits := ⟨flat.tree,Nat.le_of_lt_succ shallow,flat.bucket,flat.bytes⟩
  obtain ⟨c,made',_⟩ := new_steady fits sized (FaithfulBackend.steady backend) key tape hashes
  obtain ⟨same,stored⟩ := new_planted made'
  obtain ⟨same',_⟩ := new_planted made
  subst same
  subst same'
  have count : BlockBackend.numBuckets (blank backend params key tape hashes).planted.backend = params.buckets :=
    (LossyBackend.write_count _ _).trans sized
  refine ⟨_,made',rfl,(blank backend params key tape hashes).planted.backend,?_,fits,count,count,rfl,?_,nofun⟩
  · have empty : (blank backend params.uncached key tape hashes).planted.treetopCache = [] := by
      rw [planted_cache]
      show (List.range (min (2 ^ 0 - 1) params.buckets)).map _ = []
      simp
    have named : (blank backend params.uncached key tape hashes).planted =
        {(blank backend params.uncached key tape hashes).planted with treetopCache:=[]} := by rw [←empty]
    exact named
  · rw [planted_cache]
    refine List.map_congr_left fun b member => ?_
    have small : b < params.buckets := Nat.lt_of_lt_of_le (List.mem_range.mp member) (Nat.min_le_right _ _)
    have first : LossyBackend.bucket (blank backend params key tape hashes).planted.backend b = sealed params key b 1 [] :=
      planted_first sized stored small
    exact first.symm

-- A client with a cache beside one without: what a server holds and what the
-- clients keep is the same, and the cache shows the stored buckets.
structure Transparent (c d : RingOramClient B) : Prop where
  contents : LossyBackend.bucket c.backend = LossyBackend.bucket d.backend
  counters : c.counters = d.counters
  stash : c.stash = d.stash
  posmap : c.posmap = d.posmap
  cursor : c.evictCursor = d.evictCursor
  pending : c.pendingEvictions = d.pendingEvictions
  cached : c.treetopCache.length = min c.params.top c.params.buckets ∧
    ∀ b eb, c.treetopCache[b]? = some eb → eb = LossyBackend.bucket c.backend b

theorem Twins.transparent (twins : Twins params c d) : Transparent c d := by
  obtain ⟨rfl,be,rfl,mirrors⟩ := twins
  refine ⟨mirrors.stored,rfl,rfl,rfl,rfl,rfl,?_,fun b eb listed => ?_⟩
  · rw [mirrors.cached]
    exact (List.length_map _).trans List.length_range
  · rw [mirrors.cached,List.getElem?_map] at listed
    obtain ⟨at_b,found,rfl⟩ := Option.map_eq_some_iff.mp listed
    rw [(List.getElem?_eq_some_iff.mp found).2.symm,List.getElem_range]

-- Up to the widest shift, a cache of any depth makes no difference but to what
-- the backend is asked for: set-up fails in both or neither, and so does every
-- operation, with one result.
theorem treetop_transparent (shallow : params.treetopLevels < 32) (backend : B) (key : Bytes) (tape : Nat → Nat)
    (hashes : HashOrder) :
    (∃ e, new backend params key tape hashes = .error e ∧ new backend params.uncached key tape hashes = .error e) ∨
      ∃ c d, new backend params key tape hashes = .ok c ∧ new backend params.uncached key tape hashes = .ok d ∧
        Transparent c d ∧ ∀ ops, InStep Transparent (run step c ops) (run step d ops) := by
  cases made : new backend params.uncached key tape hashes with
  | error e => exact .inl ⟨e,new_refused shallow made,rfl⟩
  | ok d =>
      obtain ⟨c,made',twins⟩ := new_twins shallow made
      refine .inr ⟨c,d,made',rfl,twins.transparent,fun ops => ?_⟩
      exact .imp (fun _ _ now => now.transparent) (run_in_step ops (fun op _ _ _ now => step_in_step op now) twins)

omit [AesGcm] in
-- What the claim of every depth and of the same seed leaves out: 32 levels shift
-- out of the word, and a stash that another map iterates in another order keeps
-- the other of two blocks.
theorem depth_32_and_stash_order :
    (@new _ _ AesGcm.framed (InMemoryBlockBackend.new 1) {z:=1,s:=0,a:=2,blockBytes:=1,nLeaves:=1,treetopLevels:=32}
        [] (fun n => n) .asStored).toOption.isNone ∧
      (@new _ _ AesGcm.framed (InMemoryBlockBackend.new 1) {z:=1,s:=0,a:=2,blockBytes:=1,nLeaves:=1,treetopLevels:=0}
        [] (fun n => n) .asStored).toOption.isSome ∧
      ((@new _ _ AesGcm.framed (InMemoryBlockBackend.new 1) {z:=1,s:=0,a:=2,blockBytes:=1,nLeaves:=1,treetopLevels:=1}
          [] (fun n => n) .asStored).toOption.bind fun c =>
        (run (@step _ _ AesGcm.framed) c [.admitBlock ⟨7⟩ [1],.admitBlock ⟨8⟩ [2]]).map fun r => (r.1,r.2.stash.ids)) =
          some ([.done,.done],[⟨7⟩]) ∧
      ((@new _ _ AesGcm.framed (InMemoryBlockBackend.new 1) {z:=1,s:=0,a:=2,blockBytes:=1,nLeaves:=1,treetopLevels:=0}
          [] (fun n => n) ⟨fun _ keys => keys.reverse,fun _ keys => List.reverse_perm keys⟩).toOption.bind fun d =>
        (run (@step _ _ AesGcm.framed) d [.admitBlock ⟨7⟩ [1],.admitBlock ⟨8⟩ [2]]).map fun r => (r.1,r.2.stash.ids)) =
          some ([.done,.done],[⟨8⟩]) := by
  decide +kernel

omit [AesGcm] in
theorem treetop_transparent_three_buckets :
    ∃ c d, @new _ _ AesGcm.framed (InMemoryBlockBackend.new 3) {z:=1,s:=1,a:=2,blockBytes:=1,nLeaves:=2,treetopLevels:=1}
        [] (fun n => n) .asStored = .ok c ∧
      @new _ _ AesGcm.framed (InMemoryBlockBackend.new 3) {z:=1,s:=1,a:=2,blockBytes:=1,nLeaves:=2,treetopLevels:=0}
        [] (fun n => n) .asStored = .ok d ∧
      InStep Transparent (run (@step _ _ AesGcm.framed) c [.admitBlock ⟨7⟩ [1],.admitBlock ⟨8⟩ [2],.read ⟨7⟩])
        (run (@step _ _ AesGcm.framed) d [.admitBlock ⟨7⟩ [1],.admitBlock ⟨8⟩ [2],.read ⟨7⟩]) := by
  have made : (@new _ _ AesGcm.framed (InMemoryBlockBackend.new 3) {z:=1,s:=1,a:=2,blockBytes:=1,nLeaves:=2,treetopLevels:=1}
      [] (fun n => n) .asStored).toOption.isSome := by decide +kernel
  rcases @treetop_transparent _ _ _ _ {z:=1,s:=1,a:=2,blockBytes:=1,nLeaves:=2,treetopLevels:=1} AesGcm.framed (by decide)
    (InMemoryBlockBackend.new 3) [] (fun n => n) .asStored with ⟨e,refused,_⟩ | ⟨c,d,first,second,_,runs⟩
  · rw [refused] at made
    cases made
  · exact ⟨c,d,first,second,runs _⟩

end RingOramClient
end RingOram
