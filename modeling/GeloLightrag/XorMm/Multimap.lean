import GeloLightrag.XorMm.Client

namespace XorMm
open Foundation

-- A byte store that keeps what it is given and returns it.
class FaithfulStore (B : Type) [ByteStoreBackend B] where
  bucket : B → Nat → EncryptedBucket
  read : ∀ (ids : List Nat) (b : B), (∀ i ∈ ids, i < ByteStoreBackend.numBuckets b) →
    (ByteStoreBackend.readBuckets ids b).1 = .ok (ids.map (bucket b)) ∧
      bucket (ByteStoreBackend.readBuckets ids b).2 = bucket b ∧
        ByteStoreBackend.numBuckets (ByteStoreBackend.readBuckets ids b).2 = ByteStoreBackend.numBuckets b
  write : ∀ (updates : List EncryptedBucket) (b : B), (∀ eb ∈ updates, eb.bucketId < ByteStoreBackend.numBuckets b) →
    (updates.map EncryptedBucket.bucketId).Nodup → (ByteStoreBackend.writeBuckets updates b).1 = .ok () ∧
      ByteStoreBackend.numBuckets (ByteStoreBackend.writeBuckets updates b).2 = ByteStoreBackend.numBuckets b ∧
        ∀ eb ∈ updates, bucket (ByteStoreBackend.writeBuckets updates b).2 eb.bucketId = eb

namespace InMemoryByteStore

def bucket (be : InMemoryByteStore) (i : Nat) : EncryptedBucket := be.buckets.getD i ⟨i,0,[]⟩

theorem readBuckets_ok (be : InMemoryByteStore) (inside : ∀ i ∈ ids, i < be.buckets.length) :
    be.readBuckets ids = .ok (ids.map be.bucket) := by
  apply mapM_ok
  intro i member
  simp [bucket,inside i member]

theorem writeBuckets_ok (updates : List EncryptedBucket) (be : InMemoryByteStore)
    (inside : ∀ eb ∈ updates, eb.bucketId < be.buckets.length) :
    (be.writeBuckets updates).1 = .ok () ∧ (be.writeBuckets updates).2.buckets.length = be.buckets.length ∧
      (∀ i, (∀ eb ∈ updates, eb.bucketId ≠ i) → bucket (be.writeBuckets updates).2 i = be.bucket i) ∧
        ((updates.map EncryptedBucket.bucketId).Nodup → ∀ eb ∈ updates, bucket (be.writeBuckets updates).2 eb.bucketId = eb) := by
  induction updates generalizing be with
  | nil => exact ⟨rfl,rfl,fun _ _ => rfl,fun _ _ member => absurd member List.not_mem_nil⟩
  | cons eb rest ih =>
      have here := inside eb List.mem_cons_self
      obtain ⟨answered,sized,others,mine⟩ := ih ⟨be.buckets.set eb.bucketId eb⟩ fun other member => by
        simpa using inside other (List.mem_cons_of_mem _ member)
      rw [writeBuckets,if_pos here]
      refine ⟨answered,sized.trans List.length_set,fun i untouched => ?_,fun distinct other member => ?_⟩
      · refine (others i fun other member => untouched other (List.mem_cons_of_mem _ member)).trans ?_
        have apart := untouched eb List.mem_cons_self
        simp [bucket,apart]
      · obtain ⟨new,later⟩ := List.nodup_cons.mp distinct
        rcases List.mem_cons.mp member with rfl | member
        · refine (others other.bucketId fun eb member same => new (List.mem_map.mpr ⟨eb,member,same⟩)).trans ?_
          simp [bucket,here]
        · exact mine later other member

instance : FaithfulStore InMemoryByteStore where
  bucket := bucket
  read _ be inside := ⟨readBuckets_ok be inside,rfl,rfl⟩
  write updates be inside distinct :=
    have done := writeBuckets_ok updates be inside
    ⟨done.1,done.2.1,done.2.2.2 distinct⟩

end InMemoryByteStore

-- Stash inserts of keys not there add to it, and gets find what is there.
theorem Stash.insert_fresh {stash : Stash} {entry : Entry} (fresh : ∀ other ∈ stash, other.key ≠ entry.key) :
    stash.insert entry = entry :: stash := by
  unfold Stash.insert
  rw [List.filter_eq_self.mpr fun other member => decide_eq_true (fresh other member)]

section
variable [Sha256] {params : XorMmParams} {seed1 seed2 : Bytes}

def candidate (params : XorMmParams) (seed1 seed2 : Bytes) (entry : Entry) (which : Bool) : Nat :=
  hashWord entry.key (if which then seed2 else seed1) % params.nBuckets

theorem hashBucket_ok (buckets : 0 < n) (key : LogicalKey) (seed : Bytes) : hashBucket key seed n = .ok (hashWord key seed % n) :=
  if_neg (Nat.ne_of_gt buckets)

-- A turn of the placement loop, once the hashes are in range.
theorem placeEntry_turn (buckets : 0 < params.nBuckets) (left : Nat) (current : Entry) (which : Bool) (t : Occupants) :
    placeEntry params seed1 seed2 left current which t =
      match t.slots (candidate params seed1 seed2 current which) with
      | none => .ok (t.put (candidate params seed1 seed2 current which) current)
      | some displaced => (add32 (params.maxKicks - left) 1).bind fun _ =>
        match left with
        | 0 => .ok {t.put (candidate params seed1 seed2 current which) current with rest:=t.rest.insert displaced}
        | left+1 => placeEntry params seed1 seed2 left displaced
          (decide (candidate params seed1 seed2 current which = candidate params seed1 seed2 displaced false))
          (t.put (candidate params seed1 seed2 current which) current) := by
  have flip : ∀ displaced, (if candidate params seed1 seed2 current which = candidate params seed1 seed2 displaced false then true
      else if candidate params seed1 seed2 current which = candidate params seed1 seed2 displaced true then false else false) =
        decide (candidate params seed1 seed2 current which = candidate params seed1 seed2 displaced false) := by
    intro displaced
    split
    · rename_i same; exact (decide_eq_true same).symm
    · rename_i apart; rw [ite_self]; exact (decide_eq_false apart).symm
  conv_lhs =>
    unfold placeEntry
    simp only [hashBucket_ok buckets]
  change (match t.slots (candidate params seed1 seed2 current which) with | none => _ | some displaced => _) = _
  cases t.slots (candidate params seed1 seed2 current which) with
  | none => rfl
  | some displaced =>
      simp only
      rw [←flip displaced]
      cases left <;> rfl

-- The loop of the source is two-choice placement, but for the kick counter.
theorem placeEntry_place (buckets : 0 < params.nBuckets) (left : Nat) (current : Entry) (which : Bool) {t t' : Occupants}
    (placed : placeEntry params seed1 seed2 left current which t = .ok t') :
    t' = Cuckoo.place (candidate params seed1 seed2) Stash.insert left current which t := by
  induction left generalizing current which t with
  | zero =>
      rw [placeEntry_turn buckets] at placed
      unfold Cuckoo.place
      cases found : t.slots (candidate params seed1 seed2 current which) with
      | none =>
          rw [found] at placed
          exact (Except.ok.inj placed).symm
      | some displaced =>
          rw [found] at placed
          obtain ⟨_,_,placed⟩ := except_bind_ok.mp placed
          exact (Except.ok.inj placed).symm
  | succ left ih =>
      rw [placeEntry_turn buckets] at placed
      unfold Cuckoo.place
      cases found : t.slots (candidate params seed1 seed2 current which) with
      | none =>
          rw [found] at placed
          exact (Except.ok.inj placed).symm
      | some displaced =>
          rw [found] at placed
          obtain ⟨_,_,placed⟩ := except_bind_ok.mp placed
          exact ih displaced _ placed

-- Entries told apart by their keys.
def Keyed (entries : Multiset Entry) : Prop := (entries.map Entry.key).Nodup

def contents (params : XorMmParams) (t : Occupants) : Multiset Entry :=
  Cuckoo.items (fun stash : Stash => Multiset.ofList stash) params.nBuckets t

theorem placeEntry_contents (buckets : 0 < params.nBuckets) {left : Nat} {current : Entry} {which : Bool} {t t' : Occupants}
    (placed : placeEntry params seed1 seed2 left current which t = .ok t') (keyed : Keyed (current ::ₘ contents params t))
    (seated : Cuckoo.Seated (candidate params seed1 seed2) t) :
    contents params t' = current ::ₘ contents params t ∧ Cuckoo.Seated (candidate params seed1 seed2) t' := by
  rw [placeEntry_place buckets left current which placed]
  refine ⟨Cuckoo.place_items (fun _ _ less keyed => Multiset.nodup_of_le (Multiset.map_le_map less) keyed) ?_
    (fun _ _ => Nat.mod_lt _ buckets) left current which keyed,Cuckoo.place_seated left current which seated⟩
  intro entry stash keyed
  rw [Stash.insert_fresh]
  · rfl
  · intro other member same
    unfold Keyed at keyed
    rw [Multiset.map_cons,Multiset.nodup_cons] at keyed
    exact keyed.1 (Multiset.mem_map.mpr ⟨other,Multiset.mem_coe.mpr member,same⟩)

theorem layOut_contents (buckets : 0 < params.nBuckets) (prepared : List Entry) {t t' : Occupants}
    (placed : prepared.foldlM (fun t entry => placeEntry params seed1 seed2 params.maxKicks entry false t) t = .ok t')
    (keyed : Keyed ((prepared : Multiset Entry) + contents params t)) (seated : Cuckoo.Seated (candidate params seed1 seed2) t) :
    contents params t' = (prepared : Multiset Entry) + contents params t ∧ Cuckoo.Seated (candidate params seed1 seed2) t' := by
  induction prepared generalizing t with
  | nil =>
      cases placed
      exact ⟨(zero_add _).symm,seated⟩
  | cons entry rest ih =>
      rw [List.foldlM_cons] at placed
      obtain ⟨middle,first,later⟩ := except_bind_ok.mp placed
      have regroup : ((entry :: rest : List Entry) : Multiset Entry) + contents params t =
          (rest : Multiset Entry) + (entry ::ₘ contents params t) := by
        rw [←Multiset.cons_coe,Multiset.cons_add,Multiset.add_cons]
      rw [regroup] at keyed ⊢
      obtain ⟨held,seated⟩ := placeEntry_contents buckets first
        (Multiset.nodup_of_le (Multiset.map_le_map (Multiset.le_add_left _ _)) keyed) seated
      rw [←held] at keyed ⊢
      exact ih later keyed seated

end

section
variable {params : XorMmParams}

def pad (params : XorMmParams) (v : LogicalValue) : LogicalValue := v ++ List.replicate (params.valueBytes - v.length) 0

-- An entry as it is stored: its first values, padded, then blanks.
def prepared (params : XorMmParams) (entry : LogicalKey × List LogicalValue) : Entry :=
  ⟨entry.1,(entry.2.take params.volumeBound).map (pad params) ++
    List.replicate (params.volumeBound - (entry.2.take params.volumeBound).length) (List.replicate params.valueBytes 0),
    min entry.2.length params.volumeBound⟩

theorem prepareEntry_prepared {entry : LogicalKey × List LogicalValue} (ran : prepareEntry params entry = .ok e) :
    e = prepared params entry ∧ ∀ v ∈ entry.2.take params.volumeBound, v.length ≤ params.valueBytes := by
  obtain ⟨padded,padding,done⟩ := except_bind_ok.mp ran
  cases done
  have short : ∀ v b, padValue params v = .ok b → b = pad params v ∧ v.length ≤ params.valueBytes := by
    intro v b made
    unfold padValue at made
    split at made
    · cases made
    · rename_i fits
      cases made
      exact ⟨rfl,Nat.le_of_not_lt fits⟩
  obtain ⟨rfl,each⟩ := mapM_determined _ padding fun v _ b made => (short v b made).1
  exact ⟨by simp [prepared],fun v member => (short v _ (each v member)).2⟩

theorem prepared_full (entry : LogicalKey × List LogicalValue)
    (short : ∀ v ∈ entry.2.take params.volumeBound, v.length ≤ params.valueBytes) :
    BucketPlain.Full params (bucketPlain params (some (prepared params entry))) := by
  refine ⟨Nat.lt_of_le_of_lt (Nat.min_le_right _ _) params.words.1,?_,fun v member => ?_⟩
  · simp [bucketPlain,prepared]
  · rcases List.mem_append.mp member with value | blank
    · obtain ⟨w,source,rfl⟩ := List.mem_map.mp value
      have fits := short w source
      simp [pad]; omega
    · rw [List.eq_of_mem_replicate blank,List.length_replicate]

-- The values handed out of a stored entry.
def taken (params : XorMmParams) (entry : Entry) : List LogicalValue := entry.values.take (min entry.valueCount params.volumeBound)

theorem taken_prepared (entry : LogicalKey × List LogicalValue) :
    taken params (prepared params entry) = (entry.2.take params.volumeBound).map (pad params) := by
  have count : min (min entry.2.length params.volumeBound) params.volumeBound =
      ((entry.2.take params.volumeBound).map (pad params)).length := by
    rw [List.length_map,List.length_take]
    omega
  show List.take (min (min entry.2.length params.volumeBound) params.volumeBound) _ = _
  rw [count]
  exact List.take_left' rfl

-- The multimap that was built, as its caller means it.
def lookup (params : XorMmParams) (entries : List (LogicalKey × List LogicalValue)) (k : LogicalKey) : List LogicalValue :=
  match entries.find? fun entry => decide (entry.1 = k) with
  | some entry => (entry.2.take params.volumeBound).map (pad params)
  | none => []

theorem prepared_keys (params : XorMmParams) (entries : List (LogicalKey × List LogicalValue)) :
    (entries.map (prepared params)).map Entry.key = entries.map Prod.fst := by
  rw [List.map_map]
  rfl

end

section
variable {B : Type} [ByteStoreBackend B] [FaithfulStore B] [AesGcm] [Sha256]
variable {c : XorMmClient B} {t : Occupants} {params : XorMmParams} {entries : List (LogicalKey × List LogicalValue)}

-- A client over the frames of a table.
structure Serves (c : XorMmClient B) (t : Occupants) : Prop where
  stash : c.stash = t.rest
  sized : ByteStoreBackend.numBuckets c.backend = c.params.nBuckets
  full : ∀ bid < c.params.nBuckets, BucketPlain.Full c.params (bucketPlain c.params (t.slots bid))
  frame : ∀ bid < c.params.nBuckets, FaithfulStore.bucket c.backend bid =
    ⟨bid,1,aesEncrypt c.key bid 1 (bucketPlain c.params (t.slots bid)).flat⟩

-- A table that holds the entries, each of them once and where its key says.
structure Holds (params : XorMmParams) (seed1 seed2 : Bytes) (entries : List (LogicalKey × List LogicalValue)) (t : Occupants) :
    Prop where
  all : contents params t = Multiset.ofList (entries.map (prepared params))
  seated : Cuckoo.Seated (candidate params seed1 seed2) t

omit [Sha256] [AesGcm] in
theorem holds_slot {slot : Option Entry} {k : LogicalKey} :
    XorMmClient.holds (bucketPlain params slot) k = true ↔ ∃ entry, slot = some entry ∧ entry.key = k := by
  cases slot with
  | none => simp [XorMmClient.holds,bucketPlain,BucketPlain.dummy]
  | some entry =>
      show (true && (k.val == entry.key.val)) = true ↔ _
      rw [Bool.true_and,beq_iff_eq]
      constructor
      · intro same
        exact ⟨entry,rfl,congrArg LogicalKey.mk same.symm⟩
      · rintro ⟨_,again,rfl⟩
        cases again
        rfl

omit [ByteStoreBackend B] [FaithfulStore B] [AesGcm] in
-- Wherever an entry ended up, its key finds it and no other.
theorem choose_lookup (buckets : 0 < params.nBuckets) (distinct : (entries.map Prod.fst).Nodup)
    (held : Holds params seed1 seed2 entries t) (same : c.params = params) (stash : c.stash = t.rest) (k : LogicalKey) :
    c.choose (bucketPlain params (t.slots (hashWord k seed1 % params.nBuckets)))
      (bucketPlain params (t.slots (hashWord k seed2 % params.nBuckets))) k = lookup params entries k := by
  have source : ∀ x, x ∈ contents params t ↔ ∃ entry ∈ entries, prepared params entry = x := by
    intro x
    rw [held.all,Multiset.mem_coe,List.mem_map]
  have unique : ∀ x ∈ contents params t, ∀ y ∈ contents params t, x.key = y.key → x = y := by
    apply Multiset.inj_on_of_nodup_map
    rw [held.all,Multiset.map_coe,prepared_keys]
    exact distinct
  have slotted : ∀ b x, b < params.nBuckets → t.slots b = some x → x ∈ contents params t :=
    fun b x inside slot => Cuckoo.mem_items.mpr (.inr ⟨b,inside,slot⟩)
  have spilled : ∀ x ∈ t.rest, x ∈ contents params t :=
    fun x stashed => Cuckoo.mem_items.mpr (.inl (Multiset.mem_coe.mpr stashed))
  have first : hashWord k seed1 % params.nBuckets < params.nBuckets := Nat.mod_lt _ buckets
  have second : hashWord k seed2 % params.nBuckets < params.nBuckets := Nat.mod_lt _ buckets
  unfold XorMmClient.choose lookup
  rw [same,stash]
  cases found : entries.find? fun entry => decide (entry.1 = k) with
  | none =>
      have absent : ∀ x ∈ contents params t, x.key ≠ k := by
        rintro x member named
        obtain ⟨entry,present,rfl⟩ := (source x).mp member
        exact absurd (decide_eq_true (named : entry.1 = k)) (List.find?_eq_none.mp found entry present)
      have unheld : ∀ b < params.nBuckets, ¬ XorMmClient.holds (bucketPlain params (t.slots b)) k = true := by
        intro b inside matched
        obtain ⟨x,slot,named⟩ := holds_slot.mp matched
        exact absent x (slotted b x inside slot) named
      have unstashed : Stash.get t.rest k = none := by
        apply List.find?_eq_none.mpr
        intro x member
        have missing := absent x (spilled x member)
        simpa using missing
      rw [if_neg (unheld _ first),if_neg (unheld _ second),unstashed]
  | some entry =>
      have present := List.mem_of_find?_eq_some found
      have named : entry.1 = k := by simpa using List.find?_some found
      have member := (source _).mpr ⟨entry,present,rfl⟩
      have mine : ∀ x ∈ contents params t, x.key = k → x = prepared params entry :=
        fun x other same => unique x other _ member (same.trans named.symm)
      have handed : ∀ x, x = prepared params entry → x.values.take (min x.valueCount params.volumeBound) =
          (entry.2.take params.volumeBound).map (pad params) := by
        rintro _ rfl
        exact taken_prepared entry
      by_cases inFirst : XorMmClient.holds (bucketPlain params (t.slots (hashWord k seed1 % params.nBuckets))) k = true
      · rw [if_pos inFirst]
        obtain ⟨x,slot,same⟩ := holds_slot.mp inFirst
        rw [slot]
        exact handed x (mine x (slotted _ x first slot) same)
      · rw [if_neg inFirst]
        by_cases inSecond : XorMmClient.holds (bucketPlain params (t.slots (hashWord k seed2 % params.nBuckets))) k = true
        · rw [if_pos inSecond]
          obtain ⟨x,slot,same⟩ := holds_slot.mp inSecond
          rw [slot]
          exact handed x (mine x (slotted _ x second slot) same)
        · rw [if_neg inSecond]
          have stashed : prepared params entry ∈ t.rest := by
            rcases Cuckoo.mem_items.mp member with stashed | ⟨b,_,slot⟩
            · exact Multiset.mem_coe.mp stashed
            · obtain ⟨which,here⟩ := held.seated b _ slot
              have home : candidate params seed1 seed2 (prepared params entry) which =
                  hashWord k (if which then seed2 else seed1) % params.nBuckets := by
                rw [←named]
                rfl
              rw [here,home] at slot
              cases which with
              | false => exact absurd (holds_slot.mpr ⟨_,slot,named⟩) inFirst
              | true => exact absurd (holds_slot.mpr ⟨_,slot,named⟩) inSecond
          cases got : Stash.get t.rest k with
          | none => exact absurd (decide_eq_true (named : (prepared params entry).key = k)) (List.find?_eq_none.mp got _ stashed)
          | some x =>
              exact handed x (mine x (spilled x (List.mem_of_find?_eq_some got)) (by simpa using List.find?_some got))

-- A batch's answers lie two by two, in the order of its keys.
theorem pairs_get {α β : Type} (f g : α → β) (items : List α) (i : Nat) :
    (items.flatMap fun a => [f a,g a])[2*i]? = items[i]?.map f ∧ (items.flatMap fun a => [f a,g a])[2*i+1]? = items[i]?.map g := by
  induction items generalizing i with
  | nil => simp
  | cons a rest ih =>
      cases i with
      | zero => simp
      | succ i =>
          have next := ih i
          rw [show 2*(i+1) = 2*i+1+1 by omega]
          simpa using next

omit [FaithfulStore B] [AesGcm] [ByteStoreBackend B] in
theorem bucketIds_ok (buckets : 0 < c.params.nBuckets) (keys : List LogicalKey) :
    c.bucketIds keys = .ok (keys.flatMap fun k => [hashWord k c.seed1 % c.params.nBuckets,hashWord k c.seed2 % c.params.nBuckets]) := by
  have pairs := mapM_ok (f:=fun k => do
    let a ← hashBucket k c.seed1 c.params.nBuckets
    let b ← hashBucket k c.seed2 c.params.nBuckets
    return [a,b]) (g:=fun k => [hashWord k c.seed1 % c.params.nBuckets,hashWord k c.seed2 % c.params.nBuckets]) keys (by
      intro k _
      rw [hashBucket_ok buckets,hashBucket_ok buckets]
      rfl)
  unfold XorMmClient.bucketIds
  rw [pairs]
  rfl

theorem Serves.decrypt (serves : Serves c t) (inside : bid < c.params.nBuckets) :
    c.decrypt (FaithfulStore.bucket c.backend bid) = .ok (bucketPlain c.params (t.slots bid)).flat := by
  unfold XorMmClient.decrypt
  rw [serves.frame bid inside]
  simp only [aesDecrypt_aesEncrypt]
  rfl

theorem Serves.getBatch (serves : Serves c t) (buckets : 0 < c.params.nBuckets) (keys : List LogicalKey) :
    (c.getBatch keys).1 = .ok (keys.map fun k => c.choose
        (bucketPlain c.params (t.slots (hashWord k c.seed1 % c.params.nBuckets)))
        (bucketPlain c.params (t.slots (hashWord k c.seed2 % c.params.nBuckets))) k) ∧
      Serves (c.getBatch keys).2 t ∧ (c.getBatch keys).2.params = c.params ∧ (c.getBatch keys).2.seed1 = c.seed1 ∧
        (c.getBatch keys).2.seed2 = c.seed2 := by
  generalize asked : (keys.flatMap fun k =>
    [hashWord k c.seed1 % c.params.nBuckets,hashWord k c.seed2 % c.params.nBuckets]) = ids
  have inside : ∀ i ∈ ids, i < ByteStoreBackend.numBuckets c.backend := by
    intro i member
    rw [←asked] at member
    obtain ⟨k,_,one⟩ := List.mem_flatMap.mp member
    rw [serves.sized]
    rcases List.mem_cons.mp one with rfl | other
    · exact Nat.mod_lt _ buckets
    · rw [List.mem_singleton.mp other]
      exact Nat.mod_lt _ buckets
  obtain ⟨answered,kept,count⟩ := FaithfulStore.read ids c.backend inside
  have ran : c.getBatch keys = (keys.zipIdx.mapM fun ki => c.resolve (ids.map (FaithfulStore.bucket c.backend)) ki.2 ki.1,
      {c with backend:=(ByteStoreBackend.readBuckets ids c.backend).2}) := by
    unfold XorMmClient.getBatch
    rw [bucketIds_ok buckets,asked]
    simp only
    rw [←Prod.mk.eta (p:=ByteStoreBackend.readBuckets ids c.backend),answered]
  rw [ran]
  refine ⟨?_,⟨serves.stash,count.trans serves.sized,serves.full,fun bid small => by
    rw [kept]; exact serves.frame bid small⟩,rfl,rfl,rfl⟩
  have each := mapM_ok (f:=fun ki : LogicalKey × Nat => c.resolve (ids.map (FaithfulStore.bucket c.backend)) ki.2 ki.1)
    (g:=fun ki => c.choose (bucketPlain c.params (t.slots (hashWord ki.1 c.seed1 % c.params.nBuckets)))
        (bucketPlain c.params (t.slots (hashWord ki.1 c.seed2 % c.params.nBuckets))) ki.1) keys.zipIdx (by
      rintro ⟨k,i⟩ member
      have here : keys[i]? = some k := List.mk_mem_zipIdx_iff_getElem?.mp member
      have first : hashWord k c.seed1 % c.params.nBuckets < c.params.nBuckets := Nat.mod_lt _ buckets
      have second : hashWord k c.seed2 % c.params.nBuckets < c.params.nBuckets := Nat.mod_lt _ buckets
      obtain ⟨even,odd⟩ := pairs_get (fun k => hashWord k c.seed1 % c.params.nBuckets)
        (fun k => hashWord k c.seed2 % c.params.nBuckets) keys i
      rw [asked,here] at even odd
      have firstFull := BucketPlain.deserialise_flat (serves.full _ first)
      have secondFull := BucketPlain.deserialise_flat (serves.full _ second)
      unfold XorMmClient.resolve XorMmClient.nth
      simp only [List.getElem?_map,even,odd,Option.map_some,Option.elim_some,bind,Except.bind,serves.decrypt first,
        serves.decrypt second,firstFull,secondFull,Except.mapError]
      rfl)
  refine each.trans (congrArg Except.ok ?_)
  conv_rhs => rw [←List.zipIdx_map_fst 0 keys,List.map_map]
  rfl

omit [FaithfulStore B] in
-- What a build that returns has done: the entries prepared and laid out, and one
-- frame written for each slot.
theorem build_made {key : Bytes} {backend : B} (made : XorMmClient.build entries params key seed1 seed2 backend = .ok c) :
    ByteStoreBackend.numBuckets backend = params.nBuckets ∧ ∃ t updates,
      entries.mapM (prepareEntry params) = .ok (entries.map (prepared params)) ∧
        layOut params seed1 seed2 (entries.map (prepared params)) = .ok t ∧
          (List.range params.nBuckets).mapM (fun bid => sealBucket params key 1 bid (t.slots bid)) = .ok updates ∧
            (ByteStoreBackend.writeBuckets updates backend).1 = .ok () ∧
              c = ⟨(ByteStoreBackend.writeBuckets updates backend).2,params,key,seed1,seed2,1,t.rest⟩ := by
  unfold XorMmClient.build at made
  by_cases sized : ByteStoreBackend.numBuckets backend = params.nBuckets
  · rw [if_neg (fun wrong => wrong sized)] at made
    obtain ⟨listed,preparing,laid⟩ := except_bind_ok.mp made
    obtain ⟨t,placed,framed⟩ := except_bind_ok.mp laid
    obtain ⟨updates,sealing,wrote⟩ := except_bind_ok.mp framed
    rw [mapError_ok] at preparing placed sealing
    obtain ⟨rfl,_⟩ := mapM_determined _ preparing fun entry _ e ran => (prepareEntry_prepared ran).1
    refine ⟨sized,t,updates,preparing,placed,sealing,?_⟩
    cases answered : ByteStoreBackend.writeBuckets updates backend with
    | mk answer after =>
        rw [answered] at wrote
        cases answer with
        | error text => cases wrote
        | ok _ =>
            cases wrote
            exact ⟨rfl,rfl⟩
  · rw [if_pos sized] at made
    cases made

theorem slot_full (built : entries.mapM (prepareEntry params) = .ok (entries.map (prepared params)))
    (held : contents params t = Multiset.ofList (entries.map (prepared params))) (inside : bid < params.nBuckets) :
    BucketPlain.Full params (bucketPlain params (t.slots bid)) := by
  cases slot : t.slots bid with
  | none => exact BucketPlain.dummy_full params
  | some x =>
      have member : x ∈ contents params t := Cuckoo.mem_items.mpr (.inr ⟨bid,inside,slot⟩)
      rw [held,Multiset.mem_coe,List.mem_map] at member
      obtain ⟨entry,present,rfl⟩ := member
      obtain ⟨_,each⟩ := mapM_determined _ built fun entry _ e ran => (prepareEntry_prepared ran).1
      exact prepared_full entry (prepareEntry_prepared (each entry present)).2

theorem build_serves (buckets : 0 < params.nBuckets) (distinct : (entries.map Prod.fst).Nodup) {key : Bytes} {backend : B}
    (made : XorMmClient.build entries params key seed1 seed2 backend = .ok c) :
    c.params = params ∧ c.seed1 = seed1 ∧ c.seed2 = seed2 ∧ ∃ t, Serves c t ∧ Holds params seed1 seed2 entries t := by
  obtain ⟨sized,t,updates,built,placed,sealing,wrote,rfl⟩ := build_made made
  have empty : contents params (⟨fun _ => none,[]⟩ : Occupants) = 0 := by
    simp [contents,Cuckoo.items,Inventory.total]
  have keyed : Keyed (Multiset.ofList (entries.map (prepared params)) + contents params (⟨fun _ => none,[]⟩ : Occupants)) := by
    unfold Keyed
    rw [empty,add_zero,Multiset.map_coe,prepared_keys]
    exact distinct
  obtain ⟨held,seated⟩ := layOut_contents buckets _ placed keyed fun _ _ none => by cases none
  rw [empty,add_zero] at held
  have full := fun bid (inside : bid < params.nBuckets) => slot_full built held inside
  have frames : updates = (List.range params.nBuckets).map fun bid =>
      ⟨bid,1,aesEncrypt key bid 1 (bucketPlain params (t.slots bid)).flat⟩ := by
    refine (mapM_determined _ sealing fun bid member eb ran => ?_).1
    unfold sealBucket at ran
    rw [BucketPlain.serialise_flat (full bid (List.mem_range.mp member))] at ran
    exact (Except.ok.inj ran).symm
  have ids : updates.map EncryptedBucket.bucketId = List.range params.nBuckets := by
    rw [frames,List.map_map]
    exact List.map_id' _
  obtain ⟨_,count,stored⟩ := FaithfulStore.write updates backend (by
    intro eb member
    have named : eb.bucketId ∈ List.range params.nBuckets := by rw [←ids]; exact List.mem_map_of_mem member
    rw [sized]
    exact List.mem_range.mp named) (by rw [ids]; exact List.nodup_range)
  refine ⟨rfl,rfl,rfl,t,⟨rfl,count.trans sized,full,fun bid inside => ?_⟩,held,seated⟩
  have member : (⟨bid,1,aesEncrypt key bid 1 (bucketPlain params (t.slots bid)).flat⟩ : EncryptedBucket) ∈ updates := by
    rw [frames]
    exact List.mem_map.mpr ⟨bid,List.mem_range.mpr inside,rfl⟩
  exact stored _ member

end

-- Any batch of queries, after any batches before it, is answered key by key as the
-- multimap that was built.
theorem get_batch_looks_up {B : Type} [ByteStoreBackend B] [FaithfulStore B] [AesGcm] [Sha256] {params : XorMmParams}
    (buckets : 0 < params.nBuckets) {entries : List (LogicalKey × List LogicalValue)} (distinct : (entries.map Prod.fst).Nodup)
    {key seed1 seed2 : Bytes} {backend : B} {c : XorMmClient B}
    (made : XorMmClient.build entries params key seed1 seed2 backend = .ok c) (earlier : List (List LogicalKey))
    (keys : List LogicalKey) :
    ((earlier.foldl (fun c keys => (c.getBatch keys).2) c).getBatch keys).1 = .ok (keys.map (lookup params entries)) := by
  obtain ⟨same,first,second,t,serves,held⟩ := build_serves buckets distinct made
  have later : ∀ d : XorMmClient B, d.params = params → d.seed1 = seed1 → d.seed2 = seed2 → Serves d t →
      ((earlier.foldl (fun c keys => (c.getBatch keys).2) d).getBatch keys).1 = .ok (keys.map (lookup params entries)) := by
    induction earlier with
    | nil =>
        rintro d rfl rfl rfl serves
        refine (serves.getBatch buckets keys).1.trans (congrArg Except.ok ?_)
        exact List.map_congr_left fun k _ => choose_lookup buckets distinct held rfl serves.stash k
    | cons batch rest ih =>
        rintro d rfl rfl rfl serves
        obtain ⟨_,kept,params,seed1,seed2⟩ := serves.getBatch buckets batch
        exact ih _ params seed1 seed2 kept
  exact later c same first second serves

def keyOf (b : UInt8) : LogicalKey := ⟨List.replicate 32 b,List.length_replicate⟩

-- Three keys with the same two candidates: one of them ends in the stash.
theorem get_batch_looks_up_spilled :
    ∃ c, @XorMmClient.build _ _ AesGcm.framed Sha256.folded [(keyOf 1,[[7]]),(keyOf 2,[]),(keyOf 255,[[8],[],[9]])]
        {volumeBound:=2,valueBytes:=1,nBuckets:=2,maxKicks:=1} [] [0] [1] (InMemoryByteStore.new 2) = .ok c ∧
      (@XorMmClient.getBatch _ _ AesGcm.framed Sha256.folded [keyOf 255,keyOf 1,keyOf 3,keyOf 1] c).1 =
        .ok [[[8],[0]],[[7]],[],[[7]]] := by
  have went : (@XorMmClient.build _ _ AesGcm.framed Sha256.folded [(keyOf 1,[[7]]),(keyOf 2,[]),(keyOf 255,[[8],[],[9]])]
      {volumeBound:=2,valueBytes:=1,nBuckets:=2,maxKicks:=1} [] [0] [1] (InMemoryByteStore.new 2)).isOk = true := by
    decide +kernel
  obtain ⟨c,made⟩ := except_isOk went
  exact ⟨c,made,@get_batch_looks_up _ _ _ AesGcm.framed Sha256.folded _ (by decide) _ (by decide) _ _ _ _ c made [] _⟩

end XorMm
