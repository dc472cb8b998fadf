import GeloLightrag.RingOram.Client

namespace RingOram
open Foundation

-- A bucket's frame at write count w over the given real blocks.
def sealed [AesGcm] (params : RingOramParams) (key : Bytes) (b w : Nat) (blocks : List Block) : EncryptedBucket :=
  ⟨b,w,aesEncrypt key b w (bucketPlaintext params blocks)⟩

theorem mirror_length (near : eb.bucketId ≤ cache.length) :
    (mirror top cache eb).length = if eb.bucketId < top then max cache.length (eb.bucketId+1) else cache.length := by
  unfold mirror growCache
  split <;> simp; omega

theorem mirror_getD (near : eb.bucketId ≤ cache.length) (b : Nat) :
    (mirror top cache eb).getD b ⟨b,0,[]⟩ =
      if eb.bucketId < top then Function.update (fun i => cache.getD i ⟨i,0,[]⟩) eb.bucketId eb b
      else cache.getD b ⟨b,0,[]⟩ := by
  unfold mirror
  split
  · have grown : (growCache eb.bucketId cache).length = max cache.length (eb.bucketId+1) := by
      simp [growCache]; omega
    by_cases here : b = eb.bucketId
    · subst here
      simp [List.getD_eq_getElem?_getD,grown]
    · rw [Function.update_of_ne here]
      simp only [List.getD_eq_getElem?_getD,List.getElem?_set,if_neg (Ne.symm here)]
      unfold growCache
      by_cases old : b < cache.length
      · rw [List.getElem?_append_left old]
      · rw [List.getElem?_append_right (by omega),List.getElem?_eq_none (by simp; omega)]
        simp [List.getElem?_eq_none (Nat.le_of_not_lt old)]
  · rfl

theorem mirror_fold (top : Nat) (cache updates : List EncryptedBucket) (near : ∀ eb ∈ updates, eb.bucketId < top → eb.bucketId < cache.length) :
    (updates.foldl (mirror top) cache).length = cache.length ∧
      ∀ b < top, (updates.foldl (mirror top) cache).getD b ⟨b,0,[]⟩ = store updates (fun i => cache.getD i ⟨i,0,[]⟩) b := by
  induction updates generalizing cache with
  | nil => exact ⟨rfl,fun _ _ => rfl⟩
  | cons eb rest ih =>
      have rests := fun other member => near other (List.mem_cons_of_mem _ member)
      by_cases shallow : eb.bucketId < top
      · have inside := near eb List.mem_cons_self shallow
        have size : (mirror top cache eb).length = cache.length := by
          rw [mirror_length (Nat.le_of_lt inside),if_pos shallow]; omega
        have held : (fun i => (mirror top cache eb).getD i ⟨i,0,[]⟩) = Function.update (fun i => cache.getD i ⟨i,0,[]⟩) eb.bucketId eb := by
          funext i
          rw [mirror_getD (Nat.le_of_lt inside),if_pos shallow]
        obtain ⟨length,value⟩ := ih (mirror top cache eb) (by rwa [size])
        refine ⟨length.trans size,fun b small => ?_⟩
        rw [held] at value
        exact value b small
      · have same : mirror top cache eb = cache := if_neg shallow
        obtain ⟨length,value⟩ := ih cache rests
        simp only [List.foldl_cons,same]
        refine ⟨length,fun b small => (value b small).trans ?_⟩
        show _ = store rest (Function.update (fun i => cache.getD i ⟨i,0,[]⟩) eb.bucketId eb) b
        have apart : b ≠ eb.bucketId := by omega
        apply store_local
        exact (Function.update_of_ne apart eb fun i => cache.getD i ⟨i,0,[]⟩).symm

def bumped (ids counters : List Nat) : List Nat := ids.foldl (fun cs b => cs.set b (cs.getD b 0 + 1)) counters

@[simp] theorem bumped_length (ids counters : List Nat) : (bumped ids counters).length = counters.length := by
  induction ids generalizing counters with
  | nil => rfl
  | cons b rest ih => rw [bumped,List.foldl_cons]; exact (ih _).trans List.length_set

theorem bumped_getD (distinct : ids.Nodup) (inside : ∀ b ∈ ids, b < counters.length) (b : Nat) :
    (bumped ids counters).getD b 0 = counters.getD b 0 + if b ∈ ids then 1 else 0 := by
  induction ids generalizing counters with
  | nil => rfl
  | cons first rest ih =>
      obtain ⟨new,later⟩ := List.nodup_cons.mp distinct
      have here := inside first List.mem_cons_self
      rw [bumped,List.foldl_cons]
      refine (ih later fun other member => by simpa using inside other (List.mem_cons_of_mem _ member)).trans ?_
      by_cases same : b = first
      · subst same
        simp [List.getD_eq_getElem?_getD,here,new]
      · simp [List.getD_eq_getElem?_getD,Ne.symm same,same]

namespace RingOramClient

def rewrites [AesGcm] {B : Type} (c : RingOramClient B) (ids : List Nat) (fresh : Nat → List Block) : List EncryptedBucket :=
  ids.map fun b => sealed c.params c.key b (c.counters.getD b 0 + 1) (fresh b)

section
variable {B : Type} [AesGcm] {c : RingOramClient B} {tree : Nat → List Block} {ids : List Nat}

-- A path's frames decrypt to its padded buckets, whose dummies stay behind.
theorem absorb_run (fits : c.params.Fits) (tampered : AesError → Fault) (pairs : List (EncryptedBucket × Nat)) (stash : Stash)
    (framed : ∀ pair ∈ pairs, Shelf c.params (tree pair.2) ∧ ∃ w, pair.1 = sealed c.params c.key pair.2 w (tree pair.2)) :
    absorb tampered pairs {c with stash:=stash} =
      .ok () {c with stash:=stash.gather (pairs.flatMap fun pair => tree pair.2)} := by
  induction pairs generalizing stash with
  | nil => rfl
  | cons pair rest ih =>
      obtain ⟨eb,bid⟩ := pair
      obtain ⟨shelf,w,frame⟩ := framed _ List.mem_cons_self
      have later := ih (stash.gather (tree bid)) fun other member => framed other (List.mem_cons_of_mem _ member)
      simp only at frame shelf
      subst frame
      have fillers : (stash.gather (padded c.params (tree bid))) = stash.gather (tree bid) := by
        unfold padded
        rw [Stash.gather_append]
        refine Stash.gather_dummies _ _ fun b member => ?_
        rw [List.eq_of_mem_replicate member]; rfl
      unfold absorb
      rw [List.flatMap_cons,Stash.gather_append,←later]
      simp only [sealed,ne_eq,not_true_eq_false,if_false]
      rw [bind_ok (get_run _)]
      simp only [aesDecrypt_aesEncrypt]
      rw [bind_ok (checked_ok (deserialiseBucket_bucketPlaintext fits shelf.room shelf.sized) _),
        bind_ok (checked_ok (Stash.drain_gather _ _) _),fillers,bind_ok (set_run _ _)]

-- The write-back loops of `read` and `evict_path` as one: f is a turn of either.
theorem reseal_run {f : Nat → OramM B EncryptedBucket} (fresh : Nat → List Block)
    (distinct : ids.Nodup) (inside : ∀ b ∈ ids, b < c.counters.length)
    (room : ∀ b ∈ ids, c.counters.getD b 0 + 1 < 2 ^ 32)
    (turn : ∀ b ∈ ids, f b = resealBucket b (bucketPlaintext c.params (fresh b))) :
    ids.mapM f c = .ok (c.rewrites ids fresh) {c with counters:=bumped ids c.counters} := by
  induction ids generalizing c with
  | nil => rfl
  | cons b rest ih =>
      obtain ⟨new,later⟩ := List.nodup_cons.mp distinct
      have here := inside b List.mem_cons_self
      have value : c.counters[b]? = some (c.counters.getD b 0) := by simp [here]
      have first : f b c = .ok (sealed c.params c.key b (c.counters.getD b 0 + 1) (fresh b))
          {c with counters:=c.counters.set b (c.counters.getD b 0 + 1)} := by
        rw [turn b List.mem_cons_self]
        unfold resealBucket
        rw [bind_ok (get_run c),value]
        exact bind_ok (checked_ok (add32_of (room b List.mem_cons_self)) c)
      have others : ∀ a ∈ rest, (c.counters.set b (c.counters.getD b 0 + 1)).getD a 0 = c.counters.getD a 0 := by
        intro a member
        have apart : b ≠ a := fun same => new (same ▸ member)
        simp [List.getD_eq_getElem?_getD,apart]
      have tail := ih (c:={c with counters:=c.counters.set b (c.counters.getD b 0 + 1)}) later
        (fun a member => by simpa using inside a (List.mem_cons_of_mem _ member))
        (fun a member => by
          show (c.counters.set b _).getD a 0 + 1 < _
          rw [others a member]
          exact room a (List.mem_cons_of_mem _ member))
        (fun a member => turn a (List.mem_cons_of_mem _ member))
      rw [List.mapM_cons,bind_ok first,bind_ok tail]
      have same : rewrites {c with counters:=c.counters.set b (c.counters.getD b 0 + 1)} rest fresh = c.rewrites rest fresh := by
        apply List.map_congr_left
        intro a member
        show sealed _ _ a ((c.counters.set b _).getD a 0 + 1) _ = _
        rw [others a member]
      rw [same]
      rfl

theorem rewrites_ids (c : RingOramClient B) (ids : List Nat) (fresh : Nat → List Block) :
    (c.rewrites ids fresh).map EncryptedBucket.bucketId = ids := by
  unfold rewrites
  rw [List.map_map]
  exact List.map_id' ids

theorem rewrites_at (distinct : ids.Nodup) (held : Nat → EncryptedBucket) (opened : b ∈ ids) :
    store (c.rewrites ids fresh) held b = sealed c.params c.key b (c.counters.getD b 0 + 1) (fresh b) := by
  have member : sealed c.params c.key b (c.counters.getD b 0 + 1) (fresh b) ∈ c.rewrites ids fresh :=
    List.mem_map.mpr ⟨b,opened,rfl⟩
  exact store_at (c.rewrites ids fresh) held (by rw [rewrites_ids]; exact distinct) member

theorem rewrites_elsewhere (held : Nat → EncryptedBucket) (closed : b ∉ ids) :
    store (c.rewrites ids fresh) held b = held b := by
  apply store_elsewhere
  intro eb member same
  apply closed
  rw [←rewrites_ids c ids fresh,←same]
  exact List.mem_map_of_mem member

-- Every path starts at the root, whose counter is the first to run out.
theorem reseal_overflow {f : Nat → OramM B EncryptedBucket} (root : ids.head? = some 0) (present : 0 < c.counters.length)
    (full : 2 ^ 32 ≤ c.counters.getD 0 0 + 1) {pt : Bytes} (turn : f 0 = resealBucket 0 pt) :
    ids.mapM f c = .error (.panic "attempt to add with overflow") c := by
  obtain ⟨rest,rfl⟩ : ∃ rest, ids = 0 :: rest := by
    cases ids with
    | nil => simp at root
    | cons b rest => exact ⟨rest,by simpa using root⟩
  have value : c.counters[0]? = some (c.counters.getD 0 0) := by simp [present]
  have failed : resealBucket 0 pt c = .error (.panic "attempt to add with overflow") c := by
    unfold resealBucket
    rw [bind_ok (get_run c),value]
    apply bind_error
    rw [add32_refused full]
    rfl
  rw [List.mapM_cons,turn]
  exact bind_error failed

end

section
variable {B : Type} [BlockBackend B] [LossyBackend B]

-- The bucket a read of the path gets: from the cache near the root, else stored.
def holding (c : RingOramClient B) (b : Nat) : EncryptedBucket :=
  if b < c.params.top then c.treetopCache.getD b ⟨b,0,[]⟩ else LossyBackend.bucket c.backend b

-- The plain tree behind the frames, which the client never holds at once.
structure Shelved [AesGcm] (c : RingOramClient B) (tree : Nat → List Block) : Prop where
  fits : c.params.Fits
  leaves : 0 < c.params.nLeaves
  counted : c.counters.length = c.params.buckets
  steep : ∀ b, c.counters.getD b 0 ≤ c.counters.getD 0 0
  cached : c.treetopCache.length = min c.params.top c.params.buckets
  sized : BlockBackend.numBuckets c.backend = c.params.buckets
  shelf : ∀ b < c.params.buckets, Shelf c.params (tree b)
  frame : ∀ b < c.params.buckets, ∃ w, c.holding b = sealed c.params c.key b w (tree b)

theorem Shelved.same [AesGcm] {c d : RingOramClient B} {tree : Nat → List Block} (shelved : Shelved c tree)
    (params : d.params = c.params) (key : d.key = c.key) (counters : d.counters = c.counters)
    (cache : d.treetopCache = c.treetopCache) (view : LossyBackend.bucket d.backend = LossyBackend.bucket c.backend)
    (count : BlockBackend.numBuckets d.backend = BlockBackend.numBuckets c.backend) : Shelved d tree := by
  have held : d.holding = c.holding := by
    funext b
    unfold holding
    rw [params,cache,view]
  obtain ⟨fits,leaves,counted,steep,cached,sized,shelf,frame⟩ := shelved
  rw [←params] at fits leaves counted cached sized shelf frame
  rw [←counters] at counted steep
  rw [←cache] at cached
  rw [←count] at sized
  rw [←key,←held] at frame
  exact ⟨fits,leaves,counted,steep,cached,sized,shelf,frame⟩

-- A held bucket's slots, and the real blocks among them.
def slots [AesGcm] (c : RingOramClient B) (b : Nat) : List Block :=
  match aesDecrypt c.key (c.holding b).bucketId (c.holding b).writeCounter (c.holding b).ciphertext with
  | .ok pt => (deserialiseBucket pt c.params).toOption.getD []
  | .error _ => []

def contents [AesGcm] (c : RingOramClient B) (b : Nat) : List Block := (c.slots b).filter fun block => !block.isDummy

theorem Shelved.slots [AesGcm] {c : RingOramClient B} {tree : Nat → List Block} (shelved : Shelved c tree)
    (small : b < c.params.buckets) : c.slots b = padded c.params (tree b) := by
  obtain ⟨w,frame⟩ := shelved.frame b small
  have opened := deserialiseBucket_bucketPlaintext shelved.fits (shelved.shelf b small).room (shelved.shelf b small).sized
  unfold RingOramClient.slots
  rw [frame]
  simp [sealed,opened,Except.toOption]

theorem Shelved.contents [AesGcm] {c : RingOramClient B} {tree : Nat → List Block} (shelved : Shelved c tree)
    (small : b < c.params.buckets) : c.contents b = tree b := by
  have real : (tree b).filter (fun block => !block.isDummy) = tree b := by
    apply List.filter_eq_self.mpr
    intro block member
    simp [(shelved.shelf b small).real block member]
  unfold RingOramClient.contents
  rw [shelved.slots small,padded,List.filter_append,real]
  have fillers : (List.replicate (c.params.z + c.params.s - (tree b).length) (Block.dummy c.params.blockBytes)).filter
      (fun block => !block.isDummy) = [] := by
    apply List.filter_eq_nil_iff.mpr
    intro block member
    rw [List.eq_of_mem_replicate member]
    simp [Block.isDummy,Block.dummy,BlockId.isDummy]
  rw [fillers,List.append_nil]

-- What the backend is asked for, and what it answers, when a path is read.
def deep (c : RingOramClient B) (ids : List Nat) : List Nat := ids.filter fun b => !decide (b < c.params.top)

def reading (c : RingOramClient B) (ids : List Nat) : Except BackendFault (List EncryptedBucket) × B :=
  if (c.deep ids).isEmpty then (.ok [],c.backend) else BlockBackend.readPath (c.deep ids) c.backend

def writing [AesGcm] (c : RingOramClient B) (ids : List Nat) (fresh : Nat → List Block) : Except BackendFault Unit × B :=
  BlockBackend.writeBuckets (c.rewrites ids fresh) c.backend

-- Which buckets of a write-back the backend ended up with.
def arrived [AesGcm] (c : RingOramClient B) (ids : List Nat) (fresh : Nat → List Block) (b : Nat) : Bool :=
  decide (LossyBackend.bucket (c.writing ids fresh).2 b = store (c.rewrites ids fresh) (LossyBackend.bucket c.backend) b)

-- The client once a path's new frames are made: counters up, cache mirrored.
def resealed [AesGcm] (c : RingOramClient B) (ids : List Nat) (fresh : Nat → List Block) : RingOramClient B :=
  {c with counters:=bumped ids c.counters
          treetopCache:=(c.rewrites ids fresh).foldl (mirror c.params.top) c.treetopCache
          backend:=(c.writing ids fresh).2}

theorem reading_kept (c : RingOramClient B) (ids : List Nat) :
    LossyBackend.bucket (c.reading ids).2 = LossyBackend.bucket c.backend ∧
      BlockBackend.numBuckets (c.reading ids).2 = BlockBackend.numBuckets c.backend := by
  unfold reading
  split
  · exact ⟨rfl,rfl⟩
  · exact LossyBackend.read_kept _ _

variable [AesGcm] {c : RingOramClient B} {tree : Nat → List Block} {ids : List Nat}

theorem deep_inside (shelved : Shelved c tree) (inside : ∀ b ∈ ids, b < c.params.buckets) :
    ∀ b ∈ c.deep ids, b < BlockBackend.numBuckets c.backend := by
  intro b member
  rw [shelved.sized]
  exact inside b (List.mem_of_mem_filter member)

theorem reading_steady (shelved : Shelved c tree) (inside : ∀ b ∈ ids, b < c.params.buckets) (steady : Steady c.backend) :
    (∃ found, (c.reading ids).1 = .ok found) ∧ Steady (c.reading ids).2 := by
  unfold reading
  split
  · exact ⟨⟨_,rfl⟩,steady⟩
  · have answer := steady.read (deep_inside shelved inside)
    exact ⟨⟨_,answer.1⟩,answer.2⟩

theorem reading_answer (shelved : Shelved c tree) (inside : ∀ b ∈ ids, b < c.params.buckets) :
    (c.reading ids).1 = .ok ((c.deep ids).map c.holding) ∨
      (∃ error, (c.reading ids).1 = .error (.refused error)) ∨ (c.reading ids).1 = .error .dropped := by
  unfold reading
  split
  · rename_i none
    rw [List.isEmpty_iff.mp none]
    exact .inl rfl
  · rcases LossyBackend.read_answer _ _ (deep_inside shelved inside) with answered | lost
    · refine .inl (answered.trans (congrArg Except.ok (List.map_congr_left fun b member => ?_)))
      have stored : ¬ b < c.params.top := by simpa using (List.mem_filter.mp member).2
      rw [holding,if_neg stored]
    · exact .inr lost

theorem cacheLookup_ok (shelved : Shelved c tree) (inside : ∀ b ∈ ids, b < c.params.buckets) :
    ids.mapM (cacheLookup c.params.top c.treetopCache) =
      .ok (ids.map fun b => if b < c.params.top then some (c.holding b) else none) := by
  apply mapM_ok
  intro b member
  unfold cacheLookup
  by_cases shallow : b < c.params.top
  · have small := inside b member
    have present : b < c.treetopCache.length := by rw [shelved.cached]; omega
    simp [shallow,holding,present]
  · simp [shallow]

theorem readPathCached_run (shelved : Shelved c tree) (inside : ∀ b ∈ ids, b < c.params.buckets) :
    readPathCached ids c = match (c.reading ids).1 with
      | .ok _ => .ok (ids.map c.holding) {c with backend:=(c.reading ids).2}
      | .error e => .error e.fault {c with backend:=(c.reading ids).2} := by
  have whole : (fillHoles (ids.map fun b => if b < c.params.top then some (c.holding b) else none)
      ((c.deep ids).map c.holding)).mapM unwrapBucket = .ok (ids.map c.holding) := by
    unfold deep
    rw [fillHoles_deep,List.mapM_map]
    exact mapM_ok _ fun b _ => rfl
  have answer := reading_answer shelved inside
  unfold readPathCached
  rw [bind_ok (get_run c),bind_ok (checked_ok shelved.fits.cached c),bind_ok (checked_ok (cacheLookup_ok shelved inside) c)]
  by_cases none : (c.deep ids).isEmpty = true
  · have silent : c.reading ids = (.ok [],c.backend) := if_pos none
    rw [List.isEmpty_iff.mp none] at whole
    rw [silent]
    refine (congrFun (if_pos none) c).trans ?_
    rw [bind_ok (pure_run _ c)]
    exact checked_ok whole c
  · have asked : c.reading ids = BlockBackend.readPath (c.deep ids) c.backend := if_neg none
    have fetched := backendReadPath_run (c.deep ids) c
    refine (congrFun (if_neg none) c).trans ?_
    rw [asked] at answer ⊢
    rcases answer with answered | ⟨error,refused⟩ | dropped
    · rw [answered] at fetched ⊢
      exact (bind_ok fetched).trans (checked_ok whole _)
    · rw [refused] at fetched ⊢
      exact bind_error fetched
    · rw [dropped] at fetched ⊢
      exact bind_error fetched

theorem openPath_run (tampered : AesError → Fault) (shelved : Shelved c tree) (inside : ∀ b ∈ ids, b < c.params.buckets) :
    openPath tampered ids c = match (c.reading ids).1 with
      | .ok _ => .ok () {c with backend:=(c.reading ids).2,stash:=c.stash.gather (ids.flatMap tree)}
      | .error e => .error e.fault {c with backend:=(c.reading ids).2} := by
  have ran := readPathCached_run shelved inside
  unfold openPath
  cases answer : (c.reading ids).1 with
  | error e =>
      rw [answer] at ran
      exact bind_error ran
  | ok found =>
      rw [answer] at ran
      rw [bind_ok ran]
      have pairs : (ids.map c.holding).zip ids = ids.map fun b => (c.holding b,b) := by
        have zipped := List.zip_map' (f:=c.holding) (g:=fun b => b) (l:=ids)
        rwa [List.map_id'] at zipped
      have framed : ∀ pair ∈ ids.map fun b => (c.holding b,b),
          Shelf c.params (tree pair.2) ∧ ∃ w, pair.1 = sealed c.params c.key pair.2 w (tree pair.2) := by
        intro pair member
        obtain ⟨b,present,rfl⟩ := List.mem_map.mp member
        exact ⟨shelved.shelf b (inside b present),shelved.frame b (inside b present)⟩
      have absorbed := absorb_run (c:={c with backend:=(c.reading ids).2}) shelved.fits tampered
        _ c.stash framed
      rw [List.flatMap_map] at absorbed
      rw [pairs]
      exact absorbed

theorem writeBucketsCached_run (shelved : Shelved c tree) (fresh : Nat → List Block) :
    writeBucketsCached (c.rewrites ids fresh) {c with counters:=bumped ids c.counters} =
      match (c.writing ids fresh).1 with
      | .ok _ => .ok () (c.resealed ids fresh)
      | .error e => .error e.fault (c.resealed ids fresh) := by
  unfold writeBucketsCached
  rw [bind_ok (get_run _),bind_ok (checked_ok shelved.fits.cached _),bind_ok (set_run _ _)]
  exact backendWriteBuckets_run _ _

-- Of a path's buckets those near the root are new at once; of the others those
-- the backend has stored.
def refilled (top : Nat) (ids : List Nat) (fresh : Nat → List Block) (kept : Nat → Bool) (tree : Nat → List Block) :
    Nat → List Block :=
  fun b => if b ∈ ids ∧ (b < top ∨ kept b = true) then fresh b else tree b

theorem resealed_mirror (shelved : Shelved c tree) (inside : ∀ b ∈ ids, b < c.params.buckets) (fresh : Nat → List Block) :
    (c.resealed ids fresh).treetopCache.length = c.treetopCache.length ∧ ∀ b < c.params.top,
      (c.resealed ids fresh).treetopCache.getD b ⟨b,0,[]⟩ = store (c.rewrites ids fresh) c.holding b := by
  have mirrored := mirror_fold c.params.top c.treetopCache (c.rewrites ids fresh) (by
    intro eb member shallow
    obtain ⟨b,present,rfl⟩ := List.mem_map.mp member
    have small := inside b present
    have near : b < c.params.top := shallow
    show b < _
    rw [shelved.cached]
    omega)
  refine ⟨mirrored.1,fun b shallow => (mirrored.2 b shallow).trans ?_⟩
  apply store_local
  exact (if_pos shallow).symm

theorem resealed_holding (kept : Nat → Bool) (shelved : Shelved c tree) (inside : ∀ b ∈ ids, b < c.params.buckets)
    (mixed : ∀ b, LossyBackend.bucket (c.writing ids fresh).2 b =
      if kept b = true then store (c.rewrites ids fresh) (LossyBackend.bucket c.backend) b
      else LossyBackend.bucket c.backend b) (b : Nat) :
    (c.resealed ids fresh).holding b =
      if b < c.params.top ∨ kept b = true then store (c.rewrites ids fresh) c.holding b else c.holding b := by
  by_cases shallow : b < c.params.top
  · rw [if_pos (Or.inl shallow)]
    exact (if_pos shallow).trans ((resealed_mirror shelved inside fresh).2 b shallow)
  · have fetched : LossyBackend.bucket c.backend b = c.holding b := (if_neg shallow).symm
    refine (if_neg shallow).trans ((mixed b).trans ?_)
    by_cases stored : kept b = true
    · rw [if_pos stored,if_pos (Or.inr stored)]
      exact store_local _ fetched
    · rw [if_neg stored,if_neg (by simp [shallow,stored]),fetched]

theorem resealed_counter (shelved : Shelved c tree) (distinct : ids.Nodup) (inside : ∀ b ∈ ids, b < c.params.buckets)
    (fresh : Nat → List Block) (b : Nat) :
    (c.resealed ids fresh).counters.getD b 0 = c.counters.getD b 0 + if b ∈ ids then 1 else 0 :=
  bumped_getD distinct (fun b member => by rw [shelved.counted]; exact inside b member) b

theorem resealed_shelved (kept : Nat → Bool) (shelved : Shelved c tree) (distinct : ids.Nodup)
    (inside : ∀ b ∈ ids, b < c.params.buckets) (rooted : 0 ∈ ids) (shelves : ∀ b ∈ ids, Shelf c.params (fresh b))
    (mixed : ∀ b, LossyBackend.bucket (c.writing ids fresh).2 b =
      if kept b = true then store (c.rewrites ids fresh) (LossyBackend.bucket c.backend) b
      else LossyBackend.bucket c.backend b) :
    Shelved (c.resealed ids fresh) (refilled c.params.top ids fresh kept tree) := by
  refine ⟨shelved.fits,shelved.leaves,(bumped_length _ _).trans shelved.counted,?_,
    (resealed_mirror shelved inside fresh).1.trans shelved.cached,?_,?_,?_⟩
  · intro b
    rw [resealed_counter shelved distinct inside,resealed_counter shelved distinct inside,if_pos rooted]
    have below := shelved.steep b
    split <;> omega
  · exact (LossyBackend.write_count _ _).trans shelved.sized
  · intro b small
    unfold refilled
    split
    · rename_i opened
      exact shelves b opened.1
    · exact shelved.shelf b small
  · intro b small
    rw [resealed_holding kept shelved inside mixed]
    unfold refilled
    by_cases opened : b ∈ ids
    · by_cases new : b < c.params.top ∨ kept b = true
      · rw [if_pos new,if_pos ⟨opened,new⟩,rewrites_at distinct _ opened]
        exact ⟨_,rfl⟩
      · rw [if_neg new,if_neg (by simp [new])]
        exact shelved.frame b small
    · rw [rewrites_elsewhere _ opened,ite_self,if_neg (by simp [opened])]
      exact shelved.frame b small

-- The cache shows what is stored, under the counter the client expects.
def Synced (c : RingOramClient B) : Prop :=
  ∀ b < c.params.buckets, LossyBackend.bucket c.backend b = c.holding b ∧
    (c.holding b).bucketId = b ∧ (c.holding b).writeCounter = c.counters.getD b 0

theorem resealed_synced (shelved : Shelved c tree) (distinct : ids.Nodup) (inside : ∀ b ∈ ids, b < c.params.buckets)
    (all : ∀ b, c.arrived ids fresh b = true) (synced : Synced c) : Synced (c.resealed ids fresh) := by
  have view : ∀ b, LossyBackend.bucket (c.writing ids fresh).2 b = store (c.rewrites ids fresh) (LossyBackend.bucket c.backend) b :=
    fun b => of_decide_eq_true (all b)
  intro b small
  have held := resealed_holding (fun _ => true) shelved inside (fun b => (view b).trans (if_pos rfl).symm) b
  rw [if_pos (Or.inr rfl)] at held
  obtain ⟨stored,named,counted⟩ := synced b small
  have same : LossyBackend.bucket (c.resealed ids fresh).backend b = (c.resealed ids fresh).holding b := by
    rw [held]
    exact (view b).trans (store_local _ stored)
  rw [resealed_counter shelved distinct inside]
  refine ⟨same,?_⟩
  rw [held]
  by_cases opened : b ∈ ids
  · rw [rewrites_at distinct _ opened,if_pos opened]
    exact ⟨rfl,rfl⟩
  · rw [rewrites_elsewhere _ opened,if_neg opened]
    exact ⟨named,counted⟩

-- How a write-back can end, and what is then in the tree.
theorem writing_cases (shelved : Shelved c tree) (distinct : ids.Nodup) (inside : ∀ b ∈ ids, b < c.params.buckets)
    (rooted : 0 ∈ ids) (shelves : ∀ b ∈ ids, Shelf c.params (fresh b)) :
    Shelved (c.resealed ids fresh) (refilled c.params.top ids fresh (c.arrived ids fresh) tree) ∧
      ((c.writing ids fresh).1 = .ok () ∧ (∀ b, c.arrived ids fresh b = true) ∧
          (Steady c.backend → Steady (c.writing ids fresh).2) ∨
        ¬ Steady c.backend ∧ ((∃ error, (c.writing ids fresh).1 = .error (.refused error)) ∨
          (c.writing ids fresh).1 = .error .dropped)) := by
  have below : ∀ eb ∈ c.rewrites ids fresh, eb.bucketId < BlockBackend.numBuckets c.backend := by
    intro eb member
    obtain ⟨b,present,rfl⟩ := List.mem_map.mp member
    rw [shelved.sized]
    exact inside b present
  have failing : ∀ e, (c.writing ids fresh).1 = .error e → ¬ Steady c.backend := by
    intro e failed steady
    have answered := (steady.write below).1
    unfold writing at failed
    rw [failed] at answered
    cases answered
  have answer : ((c.writing ids fresh).1 = .ok () ∧
        LossyBackend.bucket (c.writing ids fresh).2 = store (c.rewrites ids fresh) (LossyBackend.bucket c.backend) ∨
      (∃ error, (c.writing ids fresh).1 = .error (.refused error)) ∧
        LossyBackend.bucket (c.writing ids fresh).2 = LossyBackend.bucket c.backend ∨
      (c.writing ids fresh).1 = .error .dropped ∧
        ∀ i, LossyBackend.bucket (c.writing ids fresh).2 i = LossyBackend.bucket c.backend i ∨
          LossyBackend.bucket (c.writing ids fresh).2 i = store (c.rewrites ids fresh) (LossyBackend.bucket c.backend) i) :=
    LossyBackend.write_answer _ _ below
  constructor
  · apply resealed_shelved _ shelved distinct inside rooted shelves
    intro b
    unfold arrived
    split
    · rename_i stored
      exact of_decide_eq_true stored
    · rename_i absent
      have other := fun same => absent (decide_eq_true same)
      rcases answer with ⟨_,content⟩ | ⟨_,content⟩ | ⟨_,content⟩
      · exact absurd (congrFun content b) other
      · exact congrFun content b
      · exact (content b).resolve_right other
  · rcases answer with ⟨stored,content⟩ | ⟨⟨error,refused⟩,_⟩ | ⟨dropped,_⟩
    · exact .inl ⟨stored,fun b => decide_eq_true (congrFun content b),fun steady => (steady.write below).2⟩
    · exact .inr ⟨failing _ refused,.inl ⟨error,refused⟩⟩
    · exact .inr ⟨failing _ dropped,.inr dropped⟩

end
end RingOramClient
end RingOram
