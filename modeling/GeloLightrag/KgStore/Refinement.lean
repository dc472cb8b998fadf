import GeloLightrag.KgStore.PlainQuery

namespace KgStore
open Foundation Compass XorMm
open RingOram.RingOramClient (step Room)

section Runs
variable {B S F D : Type} [RingOram.BlockBackend B] [ByteStoreBackend S] [AesGcm] [Sha256] [HmacSha256] [Float32 F] [Metric F D]
  [PartialCmp D] [Add F] [Sub F] [Mul F] [Div F] [Zero F] [One F] [NatCast F] [PartialCmp F]

-- A call that returned: an answer, or one of the store's errors.
def Returned {σ α : Type} (x : EStateM KgFault σ α) (s t : σ) : Prop := (∃ a, x s = .ok a t) ∨ ∃ e, x s = .error (.error e) t

-- A store after any calls that returned, those that failed included.
inductive Asked (built : LightKgStore B S F) : LightKgStore B S F → Prop
  | built : Asked built built
  | adjacency {store next} (name : String) (prior : Asked built store) (ran : Returned (adjacencyForEntity name) store next) : Asked built next
  | srcChunks {store next} (name : String) (prior : Asked built store) (ran : Returned (srcChunksForEntity name) store next) : Asked built next
  | queried {store next} (llPerturbed hlPerturbed : List F) (queryParams : KgQueryParams) (order : Listing) (prior : Asked built store)
      (ran : Returned (queryContext (D:=D) llPerturbed hlPerturbed queryParams order) store next) : Asked built next

def Unreturned (e : KgFault) : Prop := ∀ error, e ≠ .error error

theorem Returned.upheld {σ α : Type} {x : EStateM KgFault σ α} {s t : σ} {inv : σ → Prop} (ran : Returned x s t) (upholds : UpholdsBut Unreturned inv x)
    (holds : inv s) : inv t := by
  rcases ran with ⟨a,ran⟩ | ⟨e,ran⟩
  · exact (upholds s holds).at_ok ran
  · exact ((upholds s holds).at_error ran).resolve_left fun bad => bad e rfl

variable [FaithfulStore S] {kg : ExtractedKg F} {params : LightKgParams F} {keys : Keying.DerivedKeysV2} {listing : Listing}
  {built store now : LightKgStore B S F}

theorem Answering.through {α : Type} {x : StoreM B S F α} (upholds : Upholds (Standing kg params keys listing) x)
    (frames : ∀ store, Frames (fun store => (store.entities,store.relations)) x store) : Upholds (Answering D kg params keys listing built) x :=
  upholds.beside frames (fun _ => Answering.standing) fun _ _ => Answering.moved

theorem searchEntities_answering (query : List F) (k : Nat) :
    UpholdsBut Unreturned (Answering D kg params keys listing built) (searchEntities (D:=D) query k : StoreM B S F (List Nat)) := by
  intro store answering
  unfold Ends searchEntities inIndex
  cases searched : layeredSearch (D:=D) query k store.entities with
  | ok ids index => exact ⟨answering.standing.searched.1,.searched answering.entities searched,answering.relations⟩
  | error e index =>
      cases e with
      | error e => exact .inr ⟨answering.standing.searched.1,.failed answering.entities searched,answering.relations⟩
      | dropped | panic | diverged => exact .inl nofun

theorem searchRelations_answering (query : List F) (k : Nat) :
    UpholdsBut Unreturned (Answering D kg params keys listing built) (searchRelations (D:=D) query k : StoreM B S F (List Nat)) := by
  intro store answering
  unfold Ends searchRelations inIndex
  cases searched : layeredSearch (D:=D) query k store.relations with
  | ok ids index => exact ⟨answering.standing.searched.2,answering.entities,.searched answering.relations searched⟩
  | error e index =>
      cases e with
      | error e => exact .inr ⟨answering.standing.searched.2,answering.entities,.failed answering.relations searched⟩
      | dropped | panic | diverged => exact .inl nofun

theorem adjacencyForEntity_keeps (name : String) : Upholds (Answering D kg params keys listing built) (adjacencyForEntity name : StoreM B S F (List String)) :=
  Answering.through (adjacencyForEntity_upholds name) (adjacencyForEntity_indices name)

theorem srcChunksForEntity_keeps (name : String) : Upholds (Answering D kg params keys listing built) (srcChunksForEntity name : StoreM B S F (List String)) :=
  Answering.through (srcChunksForEntity_upholds name) (srcChunksForEntity_indices name)

theorem fanOut_keeps (relationKeys entityNames : List String) (queryParams : KgQueryParams) :
    Upholds (Answering D kg params keys listing built) (fanOut relationKeys entityNames queryParams : StoreM B S F KgContext) := by
  refine Answering.through (fanOut_upholds _ _ _) fun store => ?_
  refine Frames.bind (Frames.mapM adjacencyForEntity_indices entityNames store) fun _ _ _ => Frames.bind (Frames.mapM srcChunksForEntity_indices entityNames _) fun _ _ _ => ?_
  refine Frames.bind (Frames.mapM (fun id s => ?_) _ _) fun _ _ _ => .pure _ _
  refine Frames.bind (Frames.get_bind ?_) fun _ _ _ => .pure _ _
  cases s.chunkText.get id with
  | error e => exact .throw _ _
  | ok text => exact .pure _ _

theorem relationHits_answering (hlPerturbed : List F) (queryParams : KgQueryParams) (order : Listing) : UpholdsBut Unreturned
    (Answering D kg params keys listing built) (relationHits (D:=D) hlPerturbed queryParams order : StoreM B S F (List String × List String)) := by
  unfold relationHits
  cases queryParams.shape with
  | local_ => exact .pure _
  | hybrid => exact .bind (searchRelations_answering hlPerturbed _) fun _ => .get_bind fun _ _ => .pure _

theorem queryContext_answering (llPerturbed hlPerturbed : List F) (queryParams : KgQueryParams) (order : Listing) : UpholdsBut Unreturned
    (Answering D kg params keys listing built) (queryContext (D:=D) llPerturbed hlPerturbed queryParams order : StoreM B S F KgContext) :=
  .bind (searchEntities_answering llPerturbed _) fun _ => .get_bind fun _ _ =>
    .bind (relationHits_answering hlPerturbed queryParams order) fun _ => .of_upholds (fanOut_keeps _ _ queryParams)

theorem Asked.answering (asked : Asked (D:=D) built now) (standing : Standing kg params keys listing built) : Answering D kg params keys listing built now := by
  induction asked with
  | built => exact ⟨standing,.built,.built⟩
  | adjacency name _ ran ih => exact ran.upheld (.of_upholds (adjacencyForEntity_keeps name)) ih
  | srcChunks name _ ran ih => exact ran.upheld (.of_upholds (srcChunksForEntity_keeps name)) ih
  | queried llPerturbed hlPerturbed queryParams order _ ran ih => exact ran.upheld (queryContext_answering llPerturbed hlPerturbed queryParams order) ih

end Runs

section Built
variable {B S F D : Type} [RingOram.BlockBackend B] [RingOram.LossyBackend B] [RingOram.FaithfulBackend B] [ByteStoreBackend S] [FaithfulStore S] [AesGcm]
  [Sha256] [HmacSha256] [Float32 F] [Metric F D] [PartialCmp D] [StrictCmp D] [LevelSampler F] [Add F] [Sub F] [Mul F] [Div F] [Neg F] [Zero F] [One F]
  [NatCast F] [PartialCmp F] [Quantised F]

-- An index after any searches answers as the bare search does while its client's counters
-- have room, and else stops as they do.
theorem search_as_bare {embeddings : List (List F)} {params : CompassIndexParams F} {backend : B} {generator : Bytes → Nat → Nat} {hashes : RingOram.HashOrder}
    {built index : CompassIndex B F} (made : fromPlaintextCorpusOn (D:=D) embeddings params backend generator hashes = .ok built)
    (served : Served (D:=D) built index) {query : List F} (shaped : query.length = params.hnsw.dim) (k : Nat) :
    ∃ ids reads, PlainHits (D:=D) embeddings params query k ids reads ∧
      (Throughout step Room index.oram (searchOps reads) → ∃ next, layeredSearch (D:=D) query k index = .ok ids next) ∧
      (¬ Throughout step Room index.oram (searchOps reads) → ∃ next, layeredSearch (D:=D) query k index = .error overflowed next) := by
  obtain ⟨h,hints,memory,planned,hinted,indexed,same,clear,tracks,stored⟩ := fromPlaintextCorpusOn_ok made
  have serves := served.serves indexed same.symm stored ⟨clear,tracks⟩
  obtain ⟨stop,beam,reads,_,kept,_⟩ := plain_run (D:=D) indexed same.symm shaped k (Beam.upheld_true _ _)
  have plain := layeredSearchInner_kept kept
  have works := layeredSearch_works stored serves shaped plain
  refine ⟨_,reads,⟨h,hints,planned,hinted,plain⟩,fun room => ?_,fun full => ?_⟩
  · obtain ⟨next,ran⟩ := works.ends_iff.mpr room
    exact ⟨next,(works.at_ok ran).1 ▸ ran⟩
  · cases ran : layeredSearch (D:=D) query k index with
    | ok ids next => exact absurd (works.at_ok ran).2.2.1 full
    | error e next => exact ⟨next,by rw [(works.at_error ran).1]⟩

variable {kg : ExtractedKg F} {params : LightKgParams F} {keys : Keying.DerivedKeysV2} {mkBlockBackend : CompassIndexParams F → B} {mkByteStore : XorMmParams → S}
  {generator : Bytes → Nat → Nat} {hashes : RingOram.HashOrder} {listing : Listing} {store now : LightKgStore B S F}

omit [RingOram.LossyBackend B] [RingOram.FaithfulBackend B] [FaithfulStore S] [StrictCmp D] in
theorem buildInner_indices (built : buildInner (D:=D) kg params keys mkBlockBackend mkByteStore generator hashes listing = .ok store) :
    fromPlaintextCorpusOn (D:=D) (kg.entities.map Entity.embedding) params.entities (mkBlockBackend params.entities) generator hashes = .ok store.entities ∧
      fromPlaintextCorpusOn (D:=D) (kg.relations.map Relation.embedding) params.relations (mkBlockBackend params.relations) generator hashes = .ok store.relations := by
  unfold buildInner at built
  obtain ⟨entities,first,built⟩ := except_bind_ok.mp built
  obtain ⟨relations,second,built⟩ := except_bind_ok.mp built
  obtain ⟨chunks,third,built⟩ := except_bind_ok.mp built
  obtain ⟨table,gathering,built⟩ := except_bind_ok.mp built
  obtain ⟨adjacency,fourth,built⟩ := except_bind_ok.mp built
  obtain ⟨table',gathering',built⟩ := except_bind_ok.mp built
  obtain ⟨srcChunks,fifth,built⟩ := except_bind_ok.mp built
  cases built
  exact ⟨mapError_ok.mp first,mapError_ok.mp second⟩

-- Room in the clients of a store for the searches of a query that read these nodes.
def Roomy (shape : QueryShape) (reads reads' : List Nat) (store : LightKgStore B S F) : Prop :=
  Throughout step Room store.entities.oram (searchOps reads) ∧ (shape = .hybrid → Throughout step Room store.relations.oram (searchOps reads'))

omit [RingOram.LossyBackend B] [RingOram.FaithfulBackend B] [FaithfulStore S] [StrictCmp D] [ByteStoreBackend S] [Sha256] [HmacSha256] [LevelSampler F] [Neg F] [Quantised F] in
theorem searchEntities_run {query : List F} {k : Nat} {ids : List Nat} {index : CompassIndex B F} (ran : layeredSearch (D:=D) query k store.entities = .ok ids index) :
    searchEntities (D:=D) query k store = .ok ids {store with entities:=index} := by
  unfold searchEntities inIndex
  rw [ran]

omit [RingOram.LossyBackend B] [RingOram.FaithfulBackend B] [FaithfulStore S] [StrictCmp D] [ByteStoreBackend S] [Sha256] [HmacSha256] [LevelSampler F] [Neg F] [Quantised F] in
theorem searchRelations_run {query : List F} {k : Nat} {ids : List Nat} {index : CompassIndex B F} (ran : layeredSearch (D:=D) query k store.relations = .ok ids index) :
    searchRelations (D:=D) query k store = .ok ids {store with relations:=index} := by
  unfold searchRelations inIndex
  rw [ran]

-- The relation hits of a query, and none in the local shape, whatever the entities' index.
theorem relationHits_as_bare {built : LightKgStore B S F} (answering : Answering D kg params keys listing built store)
    (made : fromPlaintextCorpusOn (D:=D) (kg.relations.map Relation.embedding) params.relations (mkBlockBackend params.relations) generator hashes = .ok built.relations)
    (few : kg.relations.length ≤ 2 ^ 32) {hlPerturbed : List F} {queryParams : KgQueryParams}
    (shaped : queryParams.shape = .hybrid → hlPerturbed.length = params.relations.hnsw.dim) (order : Listing) :
    ∃ rids reads, (match queryParams.shape with
        | .local_ => rids = []
        | .hybrid => PlainHits (D:=D) (kg.relations.map Relation.embedding) params.relations hlPerturbed queryParams.topKRelations rids reads) ∧
      ∀ entities, ((queryParams.shape = .hybrid → Throughout step Room store.relations.oram (searchOps reads)) →
        ∃ next, relationHits (D:=D) hlPerturbed queryParams order {store with entities:=entities} =
          .ok (rids.filterMap (lastName Relation.canonicalKey kg.relations),rids.flatMap fun id => (kg.relations[id]?).elim [] fun r => [r.src,r.tgt]) next) ∧
        (¬ (queryParams.shape = .hybrid → Throughout step Room store.relations.oram (searchOps reads)) →
          ∃ next, relationHits (D:=D) hlPerturbed queryParams order {store with entities:=entities} = .error (.panic "attempt to add with overflow") next) := by
  unfold relationHits
  cases shape : queryParams.shape with
  | local_ => exact ⟨[],[],rfl,fun entities => ⟨fun _ => ⟨_,rfl⟩,fun full => absurd nofun full⟩⟩
  | hybrid =>
      obtain ⟨rids,reads,hits,works,stops⟩ := search_as_bare made answering.relations (shaped shape) queryParams.topKRelations
      refine ⟨rids,reads,hits,fun entities => ⟨fun room => ?_,fun full => ?_⟩⟩
      · obtain ⟨index,ran⟩ := works (room rfl)
        have searched : searchRelations (D:=D) hlPerturbed queryParams.topKRelations {store with entities:=entities} =
            .ok rids {store with entities:=entities,relations:=index} := searchRelations_run ran
        refine ⟨{store with entities:=entities,relations:=index},(bind_ok searched).trans ((bind_ok (get_run _)).trans ?_)⟩
        show EStateM.Result.ok (_,_) _ = _
        rw [answering.standing.relationBlockId,answering.standing.relationEndpoints]
        simp only [inverted_lastName few,endpoints_found few]
      · obtain ⟨index,ran⟩ := stops fun room => full fun _ => room
        have stuck : searchRelations (D:=D) hlPerturbed queryParams.topKRelations {store with entities:=entities} =
            .error (.panic "attempt to add with overflow") {store with entities:=entities,relations:=index} := by
          unfold searchRelations inIndex
          rw [ran]
          rfl
        exact ⟨_,bind_error stuck⟩

-- A query of the encrypted store answers as that of the bare graph does, after whatever
-- was asked of the store, where the clients of its trees have room.
theorem query_as_bare (apartAdjacency : ApartKeys keys.emmAdjacencyKey adjacencyEntity (Known kg))
    (apartChunks : ApartKeys keys.emmSrcChunksKey srcChunksEntity (Known kg))
    (built : buildInner (D:=D) kg params keys mkBlockBackend mkByteStore generator hashes listing = .ok store) (asked : Asked (D:=D) store now)
    {llPerturbed hlPerturbed : List F} {queryParams : KgQueryParams} (shaped : llPerturbed.length = params.entities.hnsw.dim)
    (shaped' : queryParams.shape = .hybrid → hlPerturbed.length = params.relations.hnsw.dim) (order : Listing) :
    ∃ ids reads rids reads', PlainHits (D:=D) (kg.entities.map Entity.embedding) params.entities llPerturbed queryParams.topKEntities ids reads ∧
      (match queryParams.shape with
        | .local_ => rids = []
        | .hybrid => PlainHits (D:=D) (kg.relations.map Relation.embedding) params.relations hlPerturbed queryParams.topKRelations rids reads') ∧
      (Roomy queryParams.shape reads reads' now → ∃ next, queryContext (D:=D) llPerturbed hlPerturbed queryParams order now =
        settled (fun id => .error (.chunk (.notFound id))) next (plainContext kg queryParams ids rids params)) ∧
      (¬ Roomy queryParams.shape reads reads' now → ∃ next, queryContext (D:=D) llPerturbed hlPerturbed queryParams order now =
        .error (.panic "attempt to add with overflow") next) := by
  obtain ⟨standing,fewEntities,fewRelations⟩ := buildInner_standing (apartAdjacency.fewer fun a => .inr) (apartChunks.fewer fun a => .inl) built
  obtain ⟨entities,relations⟩ := buildInner_indices built
  have answering := asked.answering standing
  obtain ⟨ids,reads,hits,works,stops⟩ := search_as_bare entities answering.entities shaped queryParams.topKEntities
  obtain ⟨rids,reads',hits',rest⟩ := relationHits_as_bare answering relations (Nat.le_of_lt fewRelations) shaped' order
  refine ⟨ids,reads,rids,reads',hits,hits',fun roomy => ?_,fun full => ?_⟩
  · obtain ⟨index,ran⟩ := works roomy.1
    have searched := searchEntities_run ran
    have held := (searchEntities_answering llPerturbed queryParams.topKEntities now answering).at_ok searched
    obtain ⟨middle,found⟩ := (rest index).1 roomy.2
    have kept := (relationHits_answering hlPerturbed queryParams order _ held).at_ok found
    obtain ⟨last,answer,_⟩ := fanOut_settled ids rids queryParams kept apartAdjacency apartChunks
    refine ⟨last,(bind_ok searched).trans ((bind_ok (get_run _)).trans ((bind_ok found).trans (Eq.trans ?_ answer)))⟩
    show fanOut _ (retainNew [] (ids.filterMap (inverted order now.entityBlockId).get ++ _)) queryParams middle = _
    rw [answering.standing.entityBlockId]
    simp only [inverted_lastName (Nat.le_of_lt fewEntities)]
    rfl
  · by_cases room : Throughout step Room now.entities.oram (searchOps reads)
    · obtain ⟨index,ran⟩ := works room
      obtain ⟨last,stuck⟩ := (rest index).2 fun room' => full ⟨room,room'⟩
      exact ⟨last,(bind_ok (searchEntities_run ran)).trans ((bind_ok (get_run _)).trans (bind_error stuck))⟩
    · obtain ⟨index,ran⟩ := stops room
      have stuck : searchEntities (D:=D) llPerturbed queryParams.topKEntities now = .error (.panic "attempt to add with overflow") {now with entities:=index} := by
        unfold searchEntities inIndex
        rw [ran]
        rfl
      exact ⟨_,bind_error stuck⟩

end Built

section Lattice
attribute [local instance] byte_nonzero byteCast byteZero byteOne byteBits byteCodes byteMetric byteLevels byteDigest byteAead
local instance plainTags : HmacSha256 := .joined

theorem query_as_bare_met : ∃ store ids rids ctx next, smallStore metKg = .ok store ∧
    queryContext (D:=Nat) [0,0] [0,0] ⟨1,2,.hybrid,1⟩ .asStored store = .ok ctx next ∧ plainContext metKg ⟨1,2,.hybrid,1⟩ ids rids smallParams = .ok ctx := by
  have made : (smallStore metKg).isOk = true := by decide +kernel
  obtain ⟨store,built⟩ := except_isOk made
  have answers : ((smallStore metKg).toOption.bind fun store => answered (queryContext (D:=Nat) [0,0] [0,0] ⟨1,2,.hybrid,1⟩ .asStored store)) =
      some ⟨["a","b"],["a\x00b"],[("x","text")]⟩ := by decide +kernel
  rw [built] at answers
  obtain ⟨next,asked⟩ := answered_some.mp answers
  have names : ∀ a ∈ ["a","b"], ∀ b ∈ ["a","b"], deriveLogicalKey [] adjacencyEntity a = deriveLogicalKey [] adjacencyEntity b → a = b := by decide +kernel
  have sources : ∀ a ∈ ["a","b"], ∀ b ∈ ["a","b"], deriveLogicalKey [] srcChunksEntity a = deriveLogicalKey [] srcChunksEntity b → a = b := by decide +kernel
  have known : ∀ a, Known metKg a → a ∈ ["a","b"] := by
    rintro a (member | member)
    · exact member
    · exact (List.mem_pair.mp member).elim (fun is => is ▸ by decide) fun is => is ▸ by decide
  obtain ⟨ids,reads,rids,reads',_,_,works,stops⟩ :=
    @query_as_bare _ _ _ Nat _ _ _ _ _ _ _ _ _ _ _ _ _ _ _ _ _ _ _ _ _ _ _ metKg smallParams blankKeys _ _ _ _ _ store store
      (apart_of_list known names) (apart_of_list known sources) built .built [0,0] [0,0] ⟨1,2,.hybrid,1⟩ rfl (fun _ => rfl) .asStored
  by_cases room : Roomy QueryShape.hybrid reads reads' store
  · obtain ⟨last,ran⟩ := works room
    rw [asked] at ran
    cases told : plainContext metKg ⟨1,2,.hybrid,1⟩ ids rids smallParams with
    | error id =>
        rw [told] at ran
        cases ran
    | ok ctx =>
        rw [told] at ran
        cases ran
        exact ⟨store,ids,rids,_,next,built,asked,told⟩
  · obtain ⟨last,ran⟩ := stops room
    rw [asked] at ran
    cases ran

end Lattice
end KgStore
