import GeloLightrag.RingOram.Steps

namespace RingOram
open Foundation

theorem mirror_range {f : Nat → EncryptedBucket} (named : ∀ b, (f b).bucketId = b) (top count : Nat) :
    ((List.range count).map f).foldl (mirror top) [] = (List.range (min top count)).map f := by
  induction count with
  | zero => simp
  | succ count ih =>
      rw [List.range_succ,List.map_append,List.foldl_append,ih]
      show mirror top _ (f count) = _
      unfold mirror growCache
      rw [named count]
      by_cases shallow : count < top
      · rw [if_pos shallow,Nat.min_eq_right (Nat.le_of_lt shallow),Nat.min_eq_right shallow,List.range_succ]
        simp
      · rw [if_neg shallow,Nat.min_eq_left (by omega),Nat.min_eq_left (by omega)]

namespace RingOramClient
section
variable {B : Type} [AesGcm] {c : RingOramClient B}

theorem setCounter_loop {f : Nat → EncryptedBucket} (ids : List Nat) (inside : ∀ b ∈ ids, b < c.counters.length) :
    (ids.mapM fun bid => do setCounter bid 1; return f bid : OramM B (List EncryptedBucket)) c =
      .ok (ids.map f) {c with counters:=ids.foldl (fun counters b => counters.set b 1) c.counters} := by
  induction ids generalizing c with
  | nil => rfl
  | cons b rest ih =>
      have here : setCounter b 1 c = .ok () {c with counters:=c.counters.set b 1} := by
        unfold setCounter
        rw [bind_ok (get_run c)]
        exact congrFun (if_pos (inside b List.mem_cons_self)) c
      have first : (do setCounter b 1; return f b : OramM B EncryptedBucket) c =
          .ok (f b) {c with counters:=c.counters.set b 1} := bind_ok here
      have later := ih (c:={c with counters:=c.counters.set b 1}) fun a member => by
        simpa using inside a (List.mem_cons_of_mem _ member)
      rw [List.mapM_cons,bind_ok first,bind_ok later]
      rfl

theorem ones (count : Nat) (counters : List Nat) (b : Nat) :
    ((List.range count).foldl (fun counters b => counters.set b 1) counters).length = counters.length ∧
      ((List.range count).foldl (fun counters b => counters.set b 1) counters).getD b 0 =
        if b < count ∧ b < counters.length then 1 else counters.getD b 0 := by
  induction count with
  | zero => simp
  | succ count ih =>
      rw [List.range_succ,List.foldl_append]
      obtain ⟨length,value⟩ := ih
      refine ⟨by simpa using length,?_⟩
      simp only [List.foldl_cons,List.foldl_nil,List.getD_eq_getElem?_getD,List.getElem?_set] at value ⊢
      rw [length]
      by_cases here : count = b
      · subst here
        by_cases inside : count < counters.length
        · simp [inside]
        · simp [inside]
      · rw [if_neg here,value]
        have same : (b < count+1 ∧ b < counters.length) ↔ (b < count ∧ b < counters.length) := by omega
        simp only [same]

end

variable {B : Type} [BlockBackend B] [LossyBackend B] [AesGcm]

def blank (backend : B) (params : RingOramParams) (key : Bytes) (tape : Nat → Nat) (hashes : HashOrder) : RingOramClient B :=
  ⟨backend,params,key,fun _ => none,.new,List.replicate params.buckets 0,0,false,0,0,⟨tape,0⟩,[],hashes,0⟩

def firstFrames (params : RingOramParams) (key : Bytes) : List EncryptedBucket :=
  (List.range params.buckets).map fun b => sealed params key b 1 []

-- The client over the tree of dummies that the first write pass leaves.
def planted (c : RingOramClient B) : RingOramClient B :=
  {c with counters:=(List.range c.params.buckets).foldl (fun counters b => counters.set b 1) c.counters
          treetopCache:=(firstFrames c.params c.key).foldl (mirror c.params.top) c.treetopCache
          backend:=(BlockBackend.writeBuckets (firstFrames c.params c.key) c.backend).2}

omit [LossyBackend B] in
theorem initializeTree_run {c : RingOramClient B} (fits : c.params.Fits) (counted : c.counters.length = c.params.buckets) :
    initializeTree c = match (BlockBackend.writeBuckets (firstFrames c.params c.key) c.backend).1 with
      | .ok _ => .ok () c.planted
      | .error e => .error e.fault c.planted := by
  have dummies : dummyBucket c.params = .ok (bucketPlaintext c.params []) := dummyBucket_ok fits
  unfold initializeTree
  rw [bind_ok (get_run c),bind_ok (checked_ok dummies c),bind_ok (checked_ok fits.count c)]
  have looped := setCounter_loop (c:=c) (f:=fun b => sealed c.params c.key b 1 []) (List.range c.params.buckets)
    fun b member => by rw [counted]; exact List.mem_range.mp member
  refine (bind_ok looped).trans ?_
  unfold writeBucketsCached
  rw [bind_ok (get_run _),bind_ok (checked_ok fits.cached _),bind_ok (set_run _ _)]
  exact backendWriteBuckets_run _ _

def nothing : Memory := fun _ => none

variable {backend : B} {params : RingOramParams} {key : Bytes} {tape : Nat → Nat} {hashes : HashOrder} {c : RingOramClient B}

omit [LossyBackend B] in
theorem planted_cache : (blank backend params key tape hashes).planted.treetopCache =
    (List.range (min params.top params.buckets)).map fun b => sealed params key b 1 [] :=
  mirror_range (fun _ => rfl) params.top params.buckets

theorem planted_first (sized : BlockBackend.numBuckets backend = params.buckets)
    (stored : (BlockBackend.writeBuckets (firstFrames params key) backend).1 = .ok ()) (small : b < params.buckets) :
    LossyBackend.bucket (blank backend params key tape hashes).planted.backend b = sealed params key b 1 [] := by
  have below : ∀ eb ∈ firstFrames params key, eb.bucketId < BlockBackend.numBuckets backend := by
    intro eb member
    obtain ⟨b,present,rfl⟩ := List.mem_map.mp member
    rw [sized]
    exact List.mem_range.mp present
  have view : LossyBackend.bucket (BlockBackend.writeBuckets (firstFrames params key) backend).2 =
      store (firstFrames params key) (LossyBackend.bucket backend) := by
    rcases LossyBackend.write_answer _ _ below with ⟨_,content⟩ | ⟨⟨error,refused⟩,_⟩ | ⟨dropped,_⟩
    · exact content
    · rw [stored] at refused; cases refused
    · rw [stored] at dropped; cases dropped
  have distinct : ((firstFrames params key).map EncryptedBucket.bucketId).Nodup := by
    have names : (firstFrames params key).map EncryptedBucket.bucketId = List.range params.buckets := by
      unfold firstFrames
      rw [List.map_map]
      exact List.map_id' _
    rw [names]
    exact List.nodup_range
  have member : sealed params key b 1 [] ∈ firstFrames params key := List.mem_map.mpr ⟨b,List.mem_range.mpr small,rfl⟩
  exact (congrFun view b).trans (store_at _ _ distinct member)

theorem planted_ready (fits : params.Fits) (leaves : 0 < params.nLeaves)
    (quota : 0 < params.a) (sized : BlockBackend.numBuckets backend = params.buckets)
    (stored : (BlockBackend.writeBuckets (firstFrames params key) backend).1 = .ok ()) :
    Ready (blank backend params key tape hashes).planted nothing emptied ∧
      Orderly (blank backend params key tape hashes).planted nothing emptied := by
  have cache : (blank backend params key tape hashes).planted.treetopCache =
      (List.range (min params.top params.buckets)).map fun b => sealed params key b 1 [] := planted_cache
  have first : ∀ b < params.buckets, LossyBackend.bucket (blank backend params key tape hashes).planted.backend b =
      sealed params key b 1 [] := fun b small => planted_first sized stored small
  have held : ∀ b < params.buckets, (blank backend params key tape hashes).planted.holding b = sealed params key b 1 [] := by
    intro b small
    by_cases shallow : b < params.top
    · refine (if_pos shallow).trans ?_
      rw [cache]
      have inside : b < min params.top params.buckets := by omega
      simp [inside]
    · exact (if_neg shallow).trans (first b small)
  have counters : ∀ b, (blank backend params key tape hashes).planted.counters.getD b 0 = if b < params.buckets then 1 else 0 := by
    intro b
    refine (ones params.buckets (List.replicate params.buckets 0) b).2.trans ?_
    by_cases small : b < params.buckets
    · simp [small]
    · simp [List.getD_eq_getElem?_getD,small]
  have named : Named params nothing fun _ => none := ⟨fun _ => rfl,nofun,nofun⟩
  have empty : ∀ x, x ∉ holdings params ((blank backend params key tape hashes).planted.placement emptied) := by
    intro x member
    rcases mem_holdings.mp member with inHand | ⟨b,_,inTree⟩
    · exact List.not_mem_nil inHand
    · exact List.not_mem_nil inTree
  have placed : Placed params nothing ((blank backend params key tape hashes).planted.placement emptied) := by
    refine ⟨named,fun x => ?_,fun _ _ _ member => absurd member List.not_mem_nil,fun _ _ => Nat.zero_le _⟩
    rw [Multiset.count_eq_zero.mpr (empty x),if_neg nofun]
  have counted : (blank backend params key tape hashes).planted.counters.length = params.buckets :=
    (ones params.buckets (List.replicate params.buckets 0) 0).1.trans List.length_replicate
  have synced : Synced (blank backend params key tape hashes).planted := by
    intro b small
    change b < params.buckets at small
    rw [counters b,if_pos small,held b small]
    exact ⟨first b small,rfl,rfl⟩
  refine ⟨⟨⟨⟨fits,leaves,counted,?_,?_,?_,fun _ _ => Shelf.nil _,?_⟩,placed.recoverable,leaves⟩,quota⟩,placed,synced⟩
  · intro b
    rw [counters,counters,if_pos (RingOramParams.buckets_pos params)]
    split <;> omega
  · rw [cache]; exact (List.length_map _).trans List.length_range
  · exact (LossyBackend.write_count _ _).trans sized
  · exact fun b small => ⟨1,held b small⟩

omit [LossyBackend B] in
theorem new_run (fits : params.Fits)
    (sized : BlockBackend.numBuckets backend = params.buckets) (tape : Nat → Nat) (hashes : HashOrder) :
    new backend params key tape hashes = match (BlockBackend.writeBuckets (firstFrames params key) backend).1 with
      | .ok _ => .ok (blank backend params key tape hashes).planted
      | .error e => .error e.fault := by
  have ran := initializeTree_run (c:=blank backend params key tape hashes) fits List.length_replicate
  unfold new
  rw [fits.count,fits.cached,sized]
  simp only [Except.mapError,bind,Except.bind,ne_eq,not_true_eq_false,if_false]
  change settled (initializeTree (blank backend params key tape hashes)) = _
  rw [ran]
  rw [show (blank backend params key tape hashes).params = params from rfl,
    show (blank backend params key tape hashes).key = key from rfl,
    show (blank backend params key tape hashes).backend = backend from rfl]
  cases (BlockBackend.writeBuckets (firstFrames params key) backend).1 <;> rfl

omit [LossyBackend B] in
theorem initializeTree_refused {c : RingOramClient B} (refused : dummyBucket c.params = .error text) :
    initializeTree c = .error (.panic text) c := by
  unfold initializeTree
  rw [bind_ok (get_run _)]
  apply bind_error
  rw [refused]
  rfl

omit [BlockBackend B] [LossyBackend B] [AesGcm] in
theorem dummyBucket_sized (made : dummyBucket params = .ok pt) :
    params.z + params.s < 2 ^ 32 ∧ (params.z + params.s) * (4 + params.blockBytes) < 2 ^ 63 := by
  obtain ⟨cap,counted,written⟩ := except_bind_ok.mp made
  obtain ⟨small,rfl⟩ := add32_ok.mp counted
  exact ⟨small,serialiseBucket_sized written⟩

omit [LossyBackend B] in
-- A client exists only over sizes that u32 arithmetic can express.
theorem new_fits (made : new backend params key tape hashes = .ok c) :
    params.Fits ∧ BlockBackend.numBuckets backend = params.buckets := by
  unfold new at made
  cases counted : params.numBuckets with
  | error text => rw [counted] at made; cases made
  | ok demand =>
      obtain ⟨shallow,rfl⟩ := RingOramParams.numBuckets_ok.mp counted
      cases cached : params.treetopBucketCount with
      | error text =>
          rw [counted,cached] at made
          simp only [Except.mapError,bind,Except.bind] at made
          split at made
          · cases made
          · cases made
      | ok top =>
          rw [counted,cached] at made
          simp only [Except.mapError,bind,Except.bind] at made
          split at made
          · cases made
          · rename_i sized
            change settled (initializeTree (blank backend params key tape hashes)) = _ at made
            cases dummy : dummyBucket params with
            | error text =>
                rw [initializeTree_refused (c:=blank backend params key tape hashes) dummy] at made
                cases made
            | ok pt =>
                obtain ⟨bucket,bytes⟩ := dummyBucket_sized dummy
                exact ⟨⟨Nat.le_of_lt_succ shallow,Nat.le_of_lt_succ (RingOramParams.treetopBucketCount_ok.mp cached).1,bucket,bytes⟩,
                  Classical.not_not.mp sized⟩

omit [LossyBackend B] in
theorem new_planted (made : new backend params key tape hashes = .ok c) :
    c = (blank backend params key tape hashes).planted ∧
      (BlockBackend.writeBuckets (firstFrames params key) backend).1 = .ok () := by
  obtain ⟨fits,sized⟩ := new_fits made
  have ran := @new_run B _ _ backend params key fits sized tape hashes
  rw [made] at ran
  cases stored : (BlockBackend.writeBuckets (firstFrames params key) backend).1 with
  | ok _ =>
      rw [stored] at ran
      cases ran
      exact ⟨rfl,rfl⟩
  | error e =>
      rw [stored] at ran
      cases ran

-- Whatever the backend, a client that was made is ready and holds nothing.
theorem new_ready (leaves : 0 < params.nLeaves) (quota : 0 < params.a) (made : new backend params key tape hashes = .ok c) :
    c.params = params ∧ Ready c nothing emptied ∧ Orderly c nothing emptied := by
  obtain ⟨fits,sized⟩ := new_fits made
  obtain ⟨rfl,stored⟩ := new_planted made
  exact ⟨rfl,planted_ready fits leaves quota sized stored⟩

theorem new_load (made : new backend params key tape hashes = .ok c) : c.load = 1 := by
  obtain ⟨rfl,_⟩ := new_planted made
  have first := (ones params.buckets (List.replicate params.buckets 0) 0).2
  rw [if_pos ⟨RingOramParams.buckets_pos params,by rw [List.length_replicate]; exact RingOramParams.buckets_pos params⟩] at first
  exact congrArg (· + 0) first

theorem new_steady (fits : params.Fits) (sized : BlockBackend.numBuckets backend = params.buckets) (steady : Steady backend)
    (key : Bytes) (tape : Nat → Nat) (hashes : HashOrder) :
    ∃ c, new backend params key tape hashes = .ok c ∧ Steady c.backend := by
  have below : ∀ eb ∈ firstFrames params key, eb.bucketId < BlockBackend.numBuckets backend := by
    intro eb member
    obtain ⟨b,present,rfl⟩ := List.mem_map.mp member
    rw [sized]
    exact List.mem_range.mp present
  have stored := steady.write below
  refine ⟨(blank backend params key tape hashes).planted,?_,stored.2⟩
  rw [new_run fits sized,stored.1]

end RingOramClient
end RingOram
