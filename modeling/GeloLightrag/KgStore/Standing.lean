import GeloLightrag.Compass.Encrypted
import GeloLightrag.Foundation.Frame
import GeloLightrag.KgStore.Gathering
import GeloLightrag.KgStore.Query
import GeloLightrag.XorMm.Lookups

namespace KgStore
open Foundation Compass XorMm

section Lookup
variable [HmacSha256] {masterKey : Bytes} {label : String}

-- Names whose tags do not collide.
def ApartKeys (masterKey : Bytes) (label : String) (names : String → Prop) : Prop :=
  ∀ a b, names a → names b → deriveLogicalKey masterKey label a = deriveLogicalKey masterKey label b → a = b

theorem ApartKeys.fewer {names names' : String → Prop} (apart : ApartKeys masterKey label names) (fewer : ∀ a, names' a → names a) :
    ApartKeys masterKey label names' := fun a b first second => apart a b (fewer a first) (fewer b second)

def keyedEntries (masterKey : Bytes) (label : String) (listing : Listing) (table : HashTable String (List LogicalValue)) : List (LogicalKey × List LogicalValue) :=
  (listing.order table).map fun entry => (deriveLogicalKey masterKey label entry.1,entry.2)

variable {table : HashTable String (List LogicalValue)} {expected : String → List String} {named : String → Prop}

theorem keyedEntries_distinct (gathered : Gathered table expected named) (apart : ApartKeys masterKey label named) (listing : Listing) :
    ((keyedEntries masterKey label listing table).map Prod.fst).Nodup := by
  unfold keyedEntries
  rw [List.map_map]
  refine ((listing.listed table).map _).nodup_iff.mpr ?_
  have split : table.map (Prod.fst ∘ fun entry => (deriveLogicalKey masterKey label entry.1,entry.2)) =
      (table.map Prod.fst).map (deriveLogicalKey masterKey label) := by rw [List.map_map]; rfl
  rw [split]
  exact gathered.keyed.map_on fun a first b second => apart a b (gathered.names a first) (gathered.names b second)

-- A name's tag finds what the table has of the name.
theorem lookup_keyed (gathered : Gathered table expected named) {name : String} (apart : ApartKeys masterKey label fun a => named a ∨ a = name)
    (params : XorMmParams) (listing : Listing) :
    lookup params (keyedEntries masterKey label listing table) (deriveLogicalKey masterKey label name) =
      ((expected name).take params.volumeBound).map fun s => pad params (utf8 s) := by
  have stored := gathered.values name
  have only : ∀ entry ∈ keyedEntries masterKey label listing table, entry.1 = deriveLogicalKey masterKey label name → table.get name = some entry.2 := by
    intro entry member same
    obtain ⟨⟨other,values⟩,listed,rfl⟩ := List.mem_map.mp member
    have held := (listing.listed table).mem_iff.mp listed
    obtain rfl := apart other name (.inl (gathered.names other (List.mem_map.mpr ⟨_,held,rfl⟩))) (.inr rfl) same
    exact (HashTable.get_eq_some gathered.keyed).mpr held
  unfold lookup
  cases found : (keyedEntries masterKey label listing table).find? fun entry => decide (entry.1 = deriveLogicalKey masterKey label name) with
  | some entry =>
      have held := only entry (List.mem_of_find?_eq_some found) (by simpa using List.find?_some found)
      rw [held,Option.getD_some] at stored
      simp only [stored,←List.map_take,List.map_map]
      rfl
  | none =>
      have absent : table.get name = none := by
        rw [HashTable.get_eq_none]
        intro member
        obtain ⟨⟨other,values⟩,held,rfl⟩ := List.mem_map.mp member
        have listed := List.mem_map_of_mem (f:=fun entry => (deriveLogicalKey masterKey label entry.1,entry.2)) ((listing.listed table).mem_iff.mpr held)
        exact List.find?_eq_none.mp found _ listed (by simp)
      rw [absent,Option.getD_none] at stored
      rw [List.map_eq_nil_iff.mp stored.symm,List.take_nil]
      rfl

theorem keyedEntries_nonempty (masterKey : Bytes) (label : String) (listing : Listing) {table : HashTable String (List LogicalValue)} (some_ : table ≠ []) :
    keyedEntries masterKey label listing table ≠ [] := by
  intro none_
  have same := listing.listed table
  rw [List.map_eq_nil_iff.mp none_] at same
  exact some_ same.symm.eq_nil

end Lookup

section Corpus
variable {B F D : Type} [RingOram.BlockBackend B] [AesGcm] [Float32 F] [Sha256] [Metric F D] [PartialCmp D] [StrictCmp D] [LevelSampler F] [Add F] [Sub F]
  [Mul F] [Div F] [Neg F] [Zero F] [One F] [NatCast F] [PartialCmp F] [Quantised F] {embeddings : List (List F)} {params : CompassIndexParams F}
  {backend : B} {generator : Bytes → Nat → Nat} {hashes : RingOram.HashOrder} {index : CompassIndex B F}

-- An index is built of some vectors, and of no more than have a block id.
theorem corpus_few (made : fromPlaintextCorpusOn (D:=D) embeddings params backend generator hashes = .ok index) :
    embeddings ≠ [] ∧ embeddings.length < 2 ^ 32 := by
  unfold fromPlaintextCorpusOn at made
  obtain ⟨h,planned,made⟩ := except_bind_ok.mp made
  obtain ⟨oram,created,made⟩ := except_bind_ok.mp made
  obtain ⟨hints,hinted,made⟩ := except_bind_ok.mp made
  have planned := mapError_ok.mp planned
  obtain ⟨indexed,-,same⟩ := built_indexed planned (mapError_ok.mp hinted)
  refine ⟨?_,same ▸ indexed.few⟩
  rintro rfl
  cases planned

end Corpus

section Invariant
variable {B S F : Type} [ByteStoreBackend S] [FaithfulStore S] [AesGcm] [Sha256] [HmacSha256]

-- What stays of a build however the store is asked.
structure Standing (kg : ExtractedKg F) (params : LightKgParams F) (keys : Keying.DerivedKeysV2) (listing : Listing) (store : LightKgStore B S F) : Prop where
  bundle : store.keys = .fromDerived keys
  entityBlockId : store.entityBlockId = blockIds Entity.name kg.entities
  relationBlockId : store.relationBlockId = blockIds Relation.canonicalKey kg.relations
  relationEndpoints : store.relationEndpoints = HashTable.collect (kg.relations.zipIdx.map fun (r,i) => (i % 2 ^ 32,(r.src,r.tgt)))
  chunkText : store.chunkText = (AesChunkStore.new keys.aesChunkKey).putAll kg.chunks
  adjacency : ∃ table, Gathered table (relationKeys kg.relations) (· ∈ endpointNames kg.relations) ∧
    Stocked store.adjacency params.adjacency (keyedEntries keys.emmAdjacencyKey adjacencyEntity listing table)
  srcChunks : ∃ table, Gathered table (sourcesOf kg.entities) (· ∈ kg.entities.map Entity.name) ∧
    Stocked store.srcChunks params.srcChunks (keyedEntries keys.emmSrcChunksKey srcChunksEntity listing table)

variable {kg : ExtractedKg F} {params : LightKgParams F} {keys : Keying.DerivedKeysV2} {listing : Listing} {store : LightKgStore B S F}

theorem adjacencyForEntity_answers (name : String) (standing : Standing kg params keys listing store)
    (apart : ApartKeys keys.emmAdjacencyKey adjacencyEntity fun a => a ∈ endpointNames kg.relations ∨ a = name) :
    ∃ next, adjacencyForEntity name store = .ok (recalled ((relationKeys kg.relations name).take params.adjacency.volumeBound)) next ∧
      Standing kg params keys listing next := by
  obtain ⟨table,gathered,stocked⟩ := standing.adjacency
  have own : store.keys.emmAdjacency = keys.emmAdjacencyKey := by rw [standing.bundle]; rfl
  obtain ⟨answered,kept⟩ := stocked.get (deriveLogicalKey keys.emmAdjacencyKey adjacencyEntity name)
  rw [lookup_keyed gathered apart] at answered
  unfold adjacencyForEntity
  rw [own]
  cases ran : store.adjacency.get (deriveLogicalKey keys.emmAdjacencyKey adjacencyEntity name) with
  | mk answer after =>
      rw [ran] at answered kept
      cases answered
      exact ⟨{store with adjacency:=after},by simp only [readNames_stored],{standing with adjacency:=⟨table,gathered,kept⟩}⟩

theorem srcChunksForEntity_answers (name : String) (standing : Standing kg params keys listing store)
    (apart : ApartKeys keys.emmSrcChunksKey srcChunksEntity fun a => a ∈ kg.entities.map Entity.name ∨ a = name) :
    ∃ next, srcChunksForEntity name store = .ok (recalled ((sourcesOf kg.entities name).take params.srcChunks.volumeBound)) next ∧
      Standing kg params keys listing next := by
  obtain ⟨table,gathered,stocked⟩ := standing.srcChunks
  have own : store.keys.emmSrcChunks = keys.emmSrcChunksKey := by rw [standing.bundle]; rfl
  obtain ⟨answered,kept⟩ := stocked.get (deriveLogicalKey keys.emmSrcChunksKey srcChunksEntity name)
  rw [lookup_keyed gathered apart] at answered
  unfold srcChunksForEntity
  rw [own]
  cases ran : store.srcChunks.get (deriveLogicalKey keys.emmSrcChunksKey srcChunksEntity name) with
  | mk answer after =>
      rw [ran] at answered kept
      cases answered
      exact ⟨{store with srcChunks:=after},by simp only [readNames_stored],{standing with srcChunks:=⟨table,gathered,kept⟩}⟩

theorem Standing.searched {index : CompassIndex B F} (standing : Standing kg params keys listing store) :
    Standing kg params keys listing {store with entities:=index} ∧ Standing kg params keys listing {store with relations:=index} :=
  ⟨{standing with},{standing with}⟩

theorem adjacencyForEntity_upholds (name : String) :
    Upholds (Standing kg params keys listing) (adjacencyForEntity name : StoreM B S F (List String)) := by
  intro store standing
  obtain ⟨table,gathered,stocked⟩ := standing.adjacency
  have kept := (stocked.get (deriveLogicalKey store.keys.emmAdjacency adjacencyEntity name)).2
  unfold Ends adjacencyForEntity
  cases ran : store.adjacency.get (deriveLogicalKey store.keys.emmAdjacency adjacencyEntity name) with
  | mk answer after =>
      rw [ran] at kept
      cases answer with
      | error e => exact {standing with adjacency:=⟨table,gathered,kept⟩}
      | ok values => exact {standing with adjacency:=⟨table,gathered,kept⟩}

theorem srcChunksForEntity_upholds (name : String) :
    Upholds (Standing kg params keys listing) (srcChunksForEntity name : StoreM B S F (List String)) := by
  intro store standing
  obtain ⟨table,gathered,stocked⟩ := standing.srcChunks
  have kept := (stocked.get (deriveLogicalKey store.keys.emmSrcChunks srcChunksEntity name)).2
  unfold Ends srcChunksForEntity
  cases ran : store.srcChunks.get (deriveLogicalKey store.keys.emmSrcChunks srcChunksEntity name) with
  | mk answer after =>
      rw [ran] at kept
      cases answer with
      | error e => exact {standing with srcChunks:=⟨table,gathered,kept⟩}
      | ok values => exact {standing with srcChunks:=⟨table,gathered,kept⟩}

theorem fanOut_upholds (relationKeys entityNames : List String) (queryParams : KgQueryParams) :
    Upholds (Standing kg params keys listing) (fanOut relationKeys entityNames queryParams : StoreM B S F KgContext) := by
  refine .bind (.mapM adjacencyForEntity_upholds entityNames) fun adjacent => .bind (.mapM srcChunksForEntity_upholds entityNames) fun sources => ?_
  refine .bind (.mapM (fun id => ?_) _) fun chunks => .pure _
  refine .bind (.get_bind fun store _ => ?_) fun text => .pure _
  cases store.chunkText.get id with
  | error e => exact .throw _
  | ok text => exact .pure text

end Invariant

section Searching
variable {B S F D : Type} [RingOram.BlockBackend B] [AesGcm] [Float32 F] [Metric F D] [PartialCmp D] [Add F] [Sub F] [Mul F] [Div F] [Zero F] [One F]
  [NatCast F] [PartialCmp F]

theorem searchEntities_ends (query : List F) (k : Nat) (store : LightKgStore B S F) :
    Ends (searchEntities (D:=D) query k) store (fun _ next => ∃ index, next = {store with entities:=index}) fun _ next => ∃ index, next = {store with entities:=index} := by
  unfold Ends searchEntities inIndex
  cases layeredSearch (D:=D) query k store.entities with
  | ok a index => exact ⟨index,rfl⟩
  | error e index => exact ⟨index,rfl⟩

theorem searchRelations_ends (query : List F) (k : Nat) (store : LightKgStore B S F) :
    Ends (searchRelations (D:=D) query k) store (fun _ next => ∃ index, next = {store with relations:=index}) fun _ next => ∃ index, next = {store with relations:=index} := by
  unfold Ends searchRelations inIndex
  cases layeredSearch (D:=D) query k store.relations with
  | ok a index => exact ⟨index,rfl⟩
  | error e index => exact ⟨index,rfl⟩

variable [ByteStoreBackend S] [FaithfulStore S] [Sha256] [HmacSha256] {kg : ExtractedKg F} {params : LightKgParams F} {keys : Keying.DerivedKeysV2}
  {listing : Listing}

theorem searchEntities_upholds (query : List F) (k : Nat) :
    Upholds (Standing kg params keys listing) (searchEntities (D:=D) query k : StoreM B S F (List Nat)) := by
  intro store standing
  refine (searchEntities_ends query k store).imp ?_ ?_
  · rintro _ _ ⟨index,rfl⟩
    exact standing.searched.1
  · rintro _ _ ⟨index,rfl⟩
    exact standing.searched.1

theorem searchRelations_upholds (query : List F) (k : Nat) :
    Upholds (Standing kg params keys listing) (searchRelations (D:=D) query k : StoreM B S F (List Nat)) := by
  intro store standing
  refine (searchRelations_ends query k store).imp ?_ ?_
  · rintro _ _ ⟨index,rfl⟩
    exact standing.searched.2
  · rintro _ _ ⟨index,rfl⟩
    exact standing.searched.2

theorem relationHits_upholds (hlPerturbed : List F) (queryParams : KgQueryParams) (order : Listing) :
    Upholds (Standing kg params keys listing) (relationHits (D:=D) hlPerturbed queryParams order : StoreM B S F (List String × List String)) := by
  unfold relationHits
  cases queryParams.shape with
  | local_ => exact .pure _
  | hybrid => exact .bind (searchRelations_upholds hlPerturbed _) fun ids => .get_bind fun store _ => .pure _

theorem queryContext_upholds (llPerturbed hlPerturbed : List F) (queryParams : KgQueryParams) (order : Listing) :
    Upholds (Standing kg params keys listing) (queryContext (D:=D) llPerturbed hlPerturbed queryParams order : StoreM B S F KgContext) :=
  .bind (searchEntities_upholds llPerturbed _) fun ids => .get_bind fun store _ =>
    .bind (relationHits_upholds hlPerturbed queryParams order) fun hits => fanOut_upholds _ _ queryParams

end Searching

section Built
variable {B S F D : Type} [RingOram.BlockBackend B] [ByteStoreBackend S] [FaithfulStore S] [AesGcm] [Sha256] [HmacSha256] [Float32 F] [Metric F D]
  [PartialCmp D] [StrictCmp D] [LevelSampler F] [Add F] [Sub F] [Mul F] [Div F] [Neg F] [Zero F] [One F] [NatCast F] [PartialCmp F] [Quantised F]
  {kg : ExtractedKg F} {params : LightKgParams F} {keys : Keying.DerivedKeysV2} {mkBlockBackend : CompassIndexParams F → B} {mkByteStore : XorMmParams → S}
  {generator : Bytes → Nat → Nat} {hashes : RingOram.HashOrder} {listing : Listing} {store : LightKgStore B S F}

theorem buildInner_standing (apartAdjacency : ApartKeys keys.emmAdjacencyKey adjacencyEntity (· ∈ endpointNames kg.relations))
    (apartChunks : ApartKeys keys.emmSrcChunksKey srcChunksEntity (· ∈ kg.entities.map Entity.name))
    (built : buildInner (D:=D) kg params keys mkBlockBackend mkByteStore generator hashes listing = .ok store) :
    Standing kg params keys listing store ∧ kg.entities.length < 2 ^ 32 ∧ kg.relations.length < 2 ^ 32 := by
  unfold buildInner at built
  obtain ⟨entities,first,built⟩ := except_bind_ok.mp built
  obtain ⟨relations,second,built⟩ := except_bind_ok.mp built
  obtain ⟨chunks,third,built⟩ := except_bind_ok.mp built
  obtain ⟨table,gathering,built⟩ := except_bind_ok.mp built
  obtain ⟨adjacency,fourth,built⟩ := except_bind_ok.mp built
  obtain ⟨table',gathering',built⟩ := except_bind_ok.mp built
  obtain ⟨srcChunks,fifth,built⟩ := except_bind_ok.mp built
  cases built
  obtain ⟨someEntities,fewEntities⟩ := corpus_few (mapError_ok.mp first)
  obtain ⟨someRelations,fewRelations⟩ := corpus_few (mapError_ok.mp second)
  rw [List.length_map] at fewEntities fewRelations
  rw [Ne,List.map_eq_nil_iff] at someEntities someRelations
  have gathering := mapError_ok.mp gathering
  have gathering' := mapError_ok.mp gathering'
  have gathered := adjacencyEntries_gathers gathering
  have gathered' := srcChunksEntries_gathers gathering'
  have some_ := keyedEntries_nonempty keys.emmAdjacencyKey adjacencyEntity listing
    (fold_nonempty someRelations (fun _ _ _ => pushRelation_nonempty) gathering)
  have some' := keyedEntries_nonempty keys.emmSrcChunksKey srcChunksEntity listing
    (fold_nonempty someEntities (fun _ _ _ => pushSources_nonempty) gathering')
  refine ⟨⟨rfl,rfl,rfl,rfl,rfl,⟨table,gathered,?_⟩,table',gathered',?_⟩,fewEntities,fewRelations⟩
  · exact build_stocked some_ (keyedEntries_distinct gathered apartAdjacency listing) (mapError_ok.mp fourth)
  · exact build_stocked some' (keyedEntries_distinct gathered' apartChunks listing) (mapError_ok.mp fifth)

end Built
end KgStore
