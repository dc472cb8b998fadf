import GeloLightrag.XorMm.Multimap

namespace XorMm
open Foundation

-- What a server sees of a call.
inductive Message where
  | read (bucketIds : List Nat)
  | write (buckets : List (Nat × Nat × Nat))
deriving DecidableEq,Repr

def EncryptedBucket.outline (eb : EncryptedBucket) : Nat × Nat × Nat := (eb.bucketId,eb.generation,eb.ciphertext.length)

structure Overheard (B : Type) where
  inner : B
  log : List Message

instance {B : Type} [ByteStoreBackend B] : ByteStoreBackend (Overheard B) where
  readBuckets ids be := ((ByteStoreBackend.readBuckets ids be.inner).1,
    ⟨(ByteStoreBackend.readBuckets ids be.inner).2,be.log ++ [.read ids]⟩)
  writeBuckets updates be := ((ByteStoreBackend.writeBuckets updates be.inner).1,
    ⟨(ByteStoreBackend.writeBuckets updates be.inner).2,be.log ++ [.write (updates.map EncryptedBucket.outline)]⟩)
  numBuckets be := ByteStoreBackend.numBuckets be.inner

theorem copyFromSlice_length (copied : copyFromSlice buf off v = .ok buf') : buf'.length = buf.length := by
  unfold copyFromSlice at copied
  split at copied
  · rename_i room
    cases copied
    simp; omega
  · cases copied

theorem writeValues_length {params : XorMmParams} (values : List Bytes) (i : Nat)
    (wrote : writeValues params i values buf = .ok buf') : buf'.length = buf.length := by
  induction values generalizing i buf with
  | nil => cases wrote; rfl
  | cons v rest ih =>
      unfold writeValues at wrote
      split at wrote
      · cases wrote
      · obtain ⟨middle,copied,later⟩ := except_bind_ok.mp wrote
        exact (ih (i+1) later).trans (copyFromSlice_length copied)

-- A bucket's text has one length, whatever is in it.
theorem serialise_length {bp : BucketPlain} {params : XorMmParams} (wrote : bp.serialise params = .ok pt) :
    pt.length = params.bucketPlaintextSize := by
  obtain ⟨first,copied,wrote⟩ := except_bind_ok.mp wrote
  obtain ⟨second,copied',wrote⟩ := except_bind_ok.mp wrote
  rw [writeValues_length _ _ wrote,copyFromSlice_length copied',copyFromSlice_length copied,List.length_set,List.length_replicate]

-- Where each key is, without what it holds.
def keysOf (t : Occupants) : Cuckoo.Table LogicalKey (List LogicalKey) :=
  ⟨fun b => (t.slots b).map Entry.key,t.rest.map Entry.key⟩

theorem keysOf_put {t t' : Occupants} (alike : keysOf t = keysOf t') (b : Nat) (same : e.key = e'.key) :
    keysOf (t.put b e) = keysOf (t'.put b e') := by
  obtain ⟨slots,rest⟩ := Cuckoo.Table.mk.inj alike
  refine Cuckoo.Table.mk.injEq .. ▸ ⟨?_,rest⟩
  funext i
  have held := congrFun slots i
  by_cases here : i = b
  · subst here
    simp [same]
  · simpa [Function.update_of_ne here] using held

theorem Stash.insert_keys (stash : Stash) (entry : Entry) :
    (stash.insert entry).map Entry.key = entry.key :: (stash.map Entry.key).filter fun key => decide (key ≠ entry.key) := by
  unfold Stash.insert
  rw [List.map_cons,List.filter_map]
  rfl

section
variable [Sha256] {params : XorMmParams} {seed1 seed2 : Bytes}

-- What one turn of the placement loop finds in tables with the same keys.
theorem slots_alike {t t' : Occupants} (alike : keysOf t = keysOf t') (b : Nat) :
    t.slots b = none ∧ t'.slots b = none ∨ ∃ e e', t.slots b = some e ∧ t'.slots b = some e' ∧ e.key = e'.key := by
  have held : (t.slots b).map Entry.key = (t'.slots b).map Entry.key := congrFun (Cuckoo.Table.mk.inj alike).1 b
  cases slot : t.slots b with
  | none =>
      rw [slot] at held
      exact .inl ⟨rfl,Option.map_eq_none_iff.mp held.symm⟩
  | some e =>
      rw [slot] at held
      obtain ⟨e',slot',same⟩ := Option.map_eq_some_iff.mp held.symm
      exact .inr ⟨e,e',rfl,slot',same.symm⟩

-- The placement loop looks at keys alone, down to the panic that it may end in.
theorem placeEntry_alike (left : Nat) {current current' : Entry} {t t' : Occupants} (which : Bool)
    (same : current.key = current'.key) (alike : keysOf t = keysOf t') :
    (placeEntry params seed1 seed2 left current which t).map keysOf =
      (placeEntry params seed1 seed2 left current' which t').map keysOf := by
  by_cases buckets : 0 < params.nBuckets
  · have candidates : ∀ {e e' : Entry} (which : Bool), e.key = e'.key →
        candidate params seed1 seed2 e which = candidate params seed1 seed2 e' which := by
      intro e e' which same
      unfold candidate
      rw [same]
    induction left generalizing current current' t t' which with
    | zero =>
        rw [placeEntry_turn buckets,placeEntry_turn buckets,candidates which same]
        have moved := keysOf_put alike (candidate params seed1 seed2 current' which) same
        rcases slots_alike alike (candidate params seed1 seed2 current' which) with ⟨free,free'⟩ | ⟨e,e',taken,taken',named⟩
        · rw [free,free']
          exact congrArg Except.ok moved
        · rw [taken,taken']
          cases add32 (params.maxKicks - 0) 1 with
          | error text => rfl
          | ok kicks =>
              have spilled : (t.rest.insert e).map Entry.key = (t'.rest.insert e').map Entry.key := by
                rw [Stash.insert_keys,Stash.insert_keys,named,(Cuckoo.Table.mk.inj alike).2]
              exact congrArg Except.ok (Cuckoo.Table.mk.injEq .. ▸ ⟨(Cuckoo.Table.mk.inj moved).1,spilled⟩)
    | succ left ih =>
        rw [placeEntry_turn buckets,placeEntry_turn buckets,candidates which same]
        have moved := keysOf_put alike (candidate params seed1 seed2 current' which) same
        rcases slots_alike alike (candidate params seed1 seed2 current' which) with ⟨free,free'⟩ | ⟨e,e',taken,taken',named⟩
        · rw [free,free']
          exact congrArg Except.ok moved
        · rw [taken,taken']
          cases add32 (params.maxKicks - (left+1)) 1 with
          | error text => rfl
          | ok kicks =>
              simp only [Except.bind]
              rw [candidates false named]
              exact ih _ named moved
  · have none_ : params.nBuckets = 0 := Nat.eq_zero_of_not_pos buckets
    have stopped : ∀ (current : Entry) (t : Occupants), placeEntry params seed1 seed2 left current which t =
        .error "attempt to calculate the remainder with a divisor of zero" := by
      intro current t
      unfold placeEntry hashBucket
      rw [if_pos none_]
      rfl
    rw [stopped,stopped]

theorem layOut_alike (first second : List Entry) {t t' : Occupants} (keys : first.map Entry.key = second.map Entry.key)
    (alike : keysOf t = keysOf t') :
    (first.foldlM (fun t entry => placeEntry params seed1 seed2 params.maxKicks entry false t) t).map keysOf =
      (second.foldlM (fun t entry => placeEntry params seed1 seed2 params.maxKicks entry false t) t').map keysOf := by
  induction first generalizing second t t' with
  | nil =>
      rw [List.map_eq_nil_iff.mp keys.symm]
      exact congrArg Except.ok alike
  | cons e rest ih =>
      cases second with
      | nil => cases keys
      | cons e' rest' =>
          rw [List.map_cons,List.map_cons,List.cons.injEq] at keys
          rw [List.foldlM_cons,List.foldlM_cons]
          rcases except_map_eq (placeEntry_alike params.maxKicks false keys.1 alike) with ⟨text,failed,failed'⟩ | ⟨u,u',placed,placed',after⟩
          · rw [failed,failed']
            rfl
          · rw [placed,placed']
            exact ih rest' keys.2 after

variable {B B' : Type} [ByteStoreBackend B] [ByteStoreBackend B'] [AesGcm] {entries : List (LogicalKey × List LogicalValue)}

theorem prepared_alike {first second : List (LogicalKey × List LogicalValue)} (keys : first.map Prod.fst = second.map Prod.fst) :
    (first.map (prepared params)).map Entry.key = (second.map (prepared params)).map Entry.key := by
  rw [prepared_keys,prepared_keys,keys]

def frameLength [AesGcm] (params : XorMmParams) : Nat :=
  (aesEncrypt [] 0 0 (List.replicate params.bucketPlaintextSize 0)).length

theorem sealBucket_outline [AesGcm.LengthOnly] (sealed : sealBucket params key g bid slot = .ok eb) :
    eb.outline = (bid,g,frameLength params) := by
  obtain ⟨pt,wrote,done⟩ := except_bind_ok.mp sealed
  cases done
  have long : (aesEncrypt key bid g pt).length = frameLength params := by
    apply AesGcm.LengthOnly.length_only
    rw [serialise_length wrote,List.length_replicate]
  unfold EncryptedBucket.outline
  rw [long]

theorem build_log [AesGcm.LengthOnly] {key : Bytes} {backend : B} {c : XorMmClient (Overheard B)}
    (made : XorMmClient.build entries params key seed1 seed2 (⟨backend,[]⟩ : Overheard B) = .ok c) :
    c.backend.log = [.write ((List.range params.nBuckets).map fun bid => (bid,1,frameLength params))] := by
  obtain ⟨_,t,updates,_,_,sealing,_,rfl⟩ := build_made made
  have outlines : updates.map EncryptedBucket.outline = (List.range params.nBuckets).map fun bid => (bid,1,frameLength params) := by
    have each : ∀ (bids : List Nat) (ebs : List EncryptedBucket),
        bids.mapM (fun bid => sealBucket params key 1 bid (t.slots bid)) = .ok ebs →
          ebs.map EncryptedBucket.outline = bids.map fun bid => (bid,1,frameLength params) := by
      intro bids
      induction bids with
      | nil => intro ebs ran; cases ran; rfl
      | cons bid rest ih =>
          intro ebs ran
          rw [List.mapM_cons] at ran
          obtain ⟨eb,head,ran⟩ := except_bind_ok.mp ran
          obtain ⟨tail,later,ran⟩ := except_bind_ok.mp ran
          cases ran
          rw [List.map_cons,List.map_cons,sealBucket_outline head,ih tail later]
    exact each _ _ sealing
  show [] ++ [Message.write (updates.map EncryptedBucket.outline)] = _
  rw [outlines]
  rfl

theorem getBatch_backend {c : XorMmClient B} (asked : c.bucketIds keys = .ok ids) :
    (c.getBatch keys).2 = {c with backend:=(ByteStoreBackend.readBuckets ids c.backend).2} := by
  unfold XorMmClient.getBatch
  rw [asked]
  simp only
  cases ByteStoreBackend.readBuckets ids c.backend with
  | mk answer backend => cases answer <;> rfl

-- A batch asks for two buckets a key, whatever the store answers.
theorem getBatch_log (c : XorMmClient (Overheard B)) (keys : List LogicalKey) :
    (c.getBatch keys).2.backend.log = c.backend.log ++
      match c.bucketIds keys with
      | .ok ids => [.read ids]
      | .error _ => [] := by
  cases asked : c.bucketIds keys with
  | error text =>
      unfold XorMmClient.getBatch
      rw [asked]
      exact (List.append_nil _).symm
  | ok ids => rw [getBatch_backend asked]; rfl

end

-- Two multimaps with the same keys in the same order look the same: where the keys
-- are, what is written, and what any batch of queries asks for.
theorem volume_hidden {B B' : Type} [ByteStoreBackend B] [ByteStoreBackend B'] [AesGcm] [AesGcm.LengthOnly] [Sha256]
    {params : XorMmParams} {first second : List (LogicalKey × List LogicalValue)}
    (keys : first.map Prod.fst = second.map Prod.fst) {key seed1 seed2 : Bytes} {backend : B} {backend' : B'}
    {c : XorMmClient (Overheard B)} {d : XorMmClient (Overheard B')}
    (made : XorMmClient.build first params key seed1 seed2 ⟨backend,[]⟩ = .ok c)
    (made' : XorMmClient.build second params key seed1 seed2 ⟨backend',[]⟩ = .ok d) :
    c.backend.log = d.backend.log ∧ c.backend.log = [.write ((List.range params.nBuckets).map fun bid => (bid,1,frameLength params))] ∧
      (∃ p p' t t', first.mapM (prepareEntry params) = .ok p ∧ second.mapM (prepareEntry params) = .ok p' ∧
        layOut params seed1 seed2 p = .ok t ∧ layOut params seed1 seed2 p' = .ok t' ∧ keysOf t = keysOf t' ∧
          c.stash = t.rest ∧ d.stash = t'.rest) ∧
        ∀ queries, (c.getBatch queries).2.backend.log = (d.getBatch queries).2.backend.log ∧
          (0 < params.nBuckets → ∃ ids, ids.length = 2 * queries.length ∧
            (c.getBatch queries).2.backend.log = c.backend.log ++ [.read ids]) := by
  have wrote := build_log made
  have wrote' := build_log made'
  obtain ⟨_,t,_,preparing,placed,_,_,rfl⟩ := build_made made
  obtain ⟨_,t',_,preparing',placed',_,_,rfl⟩ := build_made made'
  refine ⟨wrote.trans wrote'.symm,wrote,⟨_,_,t,t',preparing,preparing',placed,placed',?_,rfl,rfl⟩,fun queries => ⟨?_,fun buckets => ?_⟩⟩
  · have alike : (layOut params seed1 seed2 (first.map (prepared params))).map keysOf =
        (layOut params seed1 seed2 (second.map (prepared params))).map keysOf :=
      layOut_alike _ _ (prepared_alike keys) rfl
    rw [placed,placed'] at alike
    exact Except.ok.inj alike
  · rw [getBatch_log,getBatch_log,wrote,wrote']
    rfl
  · refine ⟨_,?_,by rw [getBatch_log,bucketIds_ok buckets]⟩
    rw [List.length_flatMap]
    simp [Nat.mul_comm]

theorem volume_hidden_two_buckets :
    ∃ c d, @XorMmClient.build _ _ AesGcm.framed Sha256.folded [(keyOf 1,[[7]]),(keyOf 2,[]),(keyOf 255,[[8],[],[9]])]
        {volumeBound:=2,valueBytes:=1,nBuckets:=2,maxKicks:=1} [] [0] [1] (⟨InMemoryByteStore.new 2,[]⟩ : Overheard _) = .ok c ∧
      @XorMmClient.build _ _ AesGcm.framed Sha256.folded [(keyOf 1,[]),(keyOf 2,[[5],[6]]),(keyOf 255,[[]])]
        {volumeBound:=2,valueBytes:=1,nBuckets:=2,maxKicks:=1} [] [0] [1] (⟨InMemoryByteStore.new 2,[]⟩ : Overheard _) = .ok d ∧
      (@XorMmClient.getBatch _ _ AesGcm.framed Sha256.folded [keyOf 255,keyOf 1,keyOf 3] c).2.backend.log =
        (@XorMmClient.getBatch _ _ AesGcm.framed Sha256.folded [keyOf 255,keyOf 1,keyOf 3] d).2.backend.log := by
  have went : (@XorMmClient.build _ _ AesGcm.framed Sha256.folded [(keyOf 1,[[7]]),(keyOf 2,[]),(keyOf 255,[[8],[],[9]])]
      {volumeBound:=2,valueBytes:=1,nBuckets:=2,maxKicks:=1} [] [0] [1] (⟨InMemoryByteStore.new 2,[]⟩ : Overheard _)).isOk = true := by
    decide +kernel
  have went' : (@XorMmClient.build _ _ AesGcm.framed Sha256.folded [(keyOf 1,[]),(keyOf 2,[[5],[6]]),(keyOf 255,[[]])]
      {volumeBound:=2,valueBytes:=1,nBuckets:=2,maxKicks:=1} [] [0] [1] (⟨InMemoryByteStore.new 2,[]⟩ : Overheard _)).isOk = true := by
    decide +kernel
  obtain ⟨c,made⟩ := except_isOk went
  obtain ⟨d,made'⟩ := except_isOk went'
  obtain ⟨_,_,_,asks⟩ := @volume_hidden _ _ _ _ AesGcm.framed AesGcm.framed_lengthOnly Sha256.folded _
    [(keyOf 1,[[7]]),(keyOf 2,[]),(keyOf 255,[[8],[],[9]])] [(keyOf 1,[]),(keyOf 2,[[5],[6]]),(keyOf 255,[[]])] rfl
    _ _ _ _ _ c d made made'
  exact ⟨c,d,made,made',(asks _).1⟩

end XorMm
