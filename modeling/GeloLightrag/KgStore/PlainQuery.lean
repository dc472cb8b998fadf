import GeloLightrag.KgStore.Hits

namespace KgStore
open Foundation Compass XorMm

section Plain
variable {F : Type}

-- The name that a block is found under: that of its item, unless a later item has it.
def lastName {α : Type} (name : α → String) (items : List α) (id : Nat) : Option String :=
  items[id]?.bind fun item => if name item ∈ (items.drop (id + 1)).map name then none else some (name item)

theorem lastName_iff {α : Type} {name : α → String} {items : List α} {id : Nat} {key : String} :
    lastName name items id = some key ↔ LastOf name items key id := by
  unfold lastName LastOf
  cases found : items[id]? with
  | none => simp
  | some item =>
      have later : name item ∈ (items.drop (id + 1)).map name ↔ ∃ j other, id < j ∧ items[j]? = some other ∧ name other = name item := by
        rw [List.mem_map]
        constructor
        · rintro ⟨other,member,same⟩
          obtain ⟨j,here⟩ := List.mem_iff_getElem?.mp member
          rw [List.getElem?_drop] at here
          exact ⟨id + 1 + j,other,by omega,here,same⟩
        · rintro ⟨j,other,beyond,here,same⟩
          refine ⟨other,List.mem_iff_getElem?.mpr ⟨j - (id + 1),?_⟩,same⟩
          rw [List.getElem?_drop]
          exact (by congr 1; omega : items[id + 1 + (j - (id + 1))]? = items[j]?).trans here
      rw [Option.bind_some]
      constructor
      · intro is
        split at is
        · cases is
        · rename_i none_
          cases is
          exact ⟨⟨item,rfl,rfl⟩,fun j other beyond here same => none_ (later.mpr ⟨j,other,beyond,here,same⟩)⟩
      · rintro ⟨⟨_,is,rfl⟩,last⟩
        cases is
        rw [if_neg]
        intro again
        obtain ⟨j,other,beyond,here,same⟩ := later.mp again
        exact last j other beyond here same

def textOf (chunks : List (Chunk F)) (id : String) : Option String := (chunks.reverse.find? fun c => decide (c.id = id)).map Chunk.text

variable (kg : ExtractedKg F) (queryParams : KgQueryParams) (ids rids : List Nat)

-- The names that a query of the bare graph fans out from, where these are its hits.
def plainNames : List String :=
  retainNew [] (ids.filterMap (lastName Entity.name kg.entities) ++ rids.flatMap fun id => (kg.relations[id]?).elim [] fun r => [r.src,r.tgt])

def plainChunkIds (params : LightKgParams F) : List String :=
  retainNew [] ((plainNames kg ids rids).flatMap fun name =>
    (recalled ((sourcesOf kg.entities name).take params.srcChunks.volumeBound)).take queryParams.topKChunksPerEntity)

def plainTexts (chunkIds : List String) : Except String (List (String × String)) :=
  chunkIds.mapM fun id => (textOf kg.chunks id).elim (.error id) fun text => .ok (id,text)

-- What a query of the bare graph answers: the fan-out from its names, or the first chunk
-- that there is no text of.
def plainContext (params : LightKgParams F) : Except String KgContext :=
  (plainTexts kg (plainChunkIds kg queryParams ids rids params)).map fun chunks => {
    entities := plainNames kg ids rids
    relations := retainNew [] (rids.filterMap (lastName Relation.canonicalKey kg.relations) ++
      (plainNames kg ids rids).flatMap fun name => recalled ((relationKeys kg.relations name).take params.adjacency.volumeBound))
    chunks }

theorem known_plainName {name : String} (member : name ∈ plainNames kg ids rids) : Known kg name := by
  rw [plainNames,mem_retainNew,List.mem_append,List.mem_filterMap,List.mem_flatMap] at member
  rcases member.1 with ⟨id,_,last⟩ | ⟨rid,_,ended⟩
  · exact .inl (lastName_iff.mp last).known
  · cases found : kg.relations[rid]? with
    | none =>
        rw [found] at ended
        cases ended
    | some r =>
        rw [found] at ended
        exact .inr (List.mem_flatMap.mpr ⟨r,List.mem_of_getElem? found,ended⟩)

-- The hits of the plain search of the vectors, and the nodes that it reads.
def PlainHits {D : Type} [Metric F D] [PartialCmp D] [LevelSampler F] [Add F] [Sub F] [Mul F] [Div F] [Neg F] [Zero F] [One F] [NatCast F] [PartialCmp F]
    [Quantised F] (embeddings : List (List F)) (params : CompassIndexParams F) (query : List F) (k : Nat) (ids reads : List Nat) : Prop :=
  ∃ h hints, PlainHnsw.build (D:=D) embeddings params.hnsw = .ok h ∧ h.layer0DirectionalHints = .ok hints ∧
    layeredSearchInner (D:=D) (plainReader h.layer0Blocks) (cleartext h params hints) query k [] = .ok ids reads

end Plain

section Translation
variable {F α : Type} {name : α → String} {items : List α} {relations : List (Relation F)}

theorem inverted_lastName (few : items.length ≤ 2 ^ 32) (listing : Listing) (id : Nat) :
    (inverted listing (blockIds name items)).get id = lastName name items id :=
  Option.ext fun _ => (inverted_get few listing).trans lastName_iff.symm

theorem endpoints_found (few : relations.length ≤ 2 ^ 32) (id : Nat) :
    ((HashTable.collect (relations.zipIdx.map fun (r,i) => (i % 2 ^ 32,(r.src,r.tgt)))).get id).elim [] (fun ends => [ends.1,ends.2]) =
      (relations[id]?).elim [] fun r => [r.src,r.tgt] := by
  have same : (HashTable.collect (relations.zipIdx.map fun (r,i) => (i % 2 ^ 32,(r.src,r.tgt)))).get id = relations[id]?.map fun r => (r.src,r.tgt) :=
    Option.ext fun ends => by
      rw [endpoints_get few,Option.map_eq_some_iff]
      exact exists_congr fun r => and_congr_right fun _ => eq_comm
  rw [same]
  cases relations[id]? <;> rfl

end Translation

section Answers
variable {B S F : Type} [RingOram.BlockBackend B] [ByteStoreBackend S] [FaithfulStore S] [AesGcm] [Sha256] [HmacSha256]
  {kg : ExtractedKg F} {params : LightKgParams F} {keys : Keying.DerivedKeysV2} {listing : Listing} {store : LightKgStore B S F}

-- The indices that searches of the built ones lead to, beside what stays of the build.
structure Answering (D : Type) [Float32 F] [Metric F D] [PartialCmp D] [Add F] [Sub F] [Mul F] [Div F] [Zero F] [One F] [NatCast F] [PartialCmp F]
    (kg : ExtractedKg F) (params : LightKgParams F) (keys : Keying.DerivedKeysV2) (listing : Listing) (built store : LightKgStore B S F) : Prop where
  standing : Standing kg params keys listing store
  entities : Served (D:=D) built.entities store.entities
  relations : Served (D:=D) built.relations store.relations

theorem chunkText_settled (standing : Standing kg params keys listing store) (id : String) :
    (chunkText id : StoreM B S F String) store = settled (fun id => .error (.chunk (.notFound id))) store ((textOf kg.chunks id).elim (.error id) .ok) := by
  unfold chunkText
  rw [bind_ok (get_run store),standing.chunkText,AesChunkStore.get_putAll,textOf]
  cases (kg.chunks.reverse.find? fun c => decide (c.id = id)).map Chunk.text <;> rfl

omit [RingOram.BlockBackend B] [FaithfulStore S] in
theorem adjacencyForEntity_indices (name : String) (store : LightKgStore B S F) :
    Frames (fun store => (store.entities,store.relations)) (adjacencyForEntity name) store := by
  unfold Frames Ends adjacencyForEntity
  cases store.adjacency.get (deriveLogicalKey store.keys.emmAdjacency adjacencyEntity name) with
  | mk answer after => cases answer <;> rfl

omit [RingOram.BlockBackend B] [FaithfulStore S] in
theorem srcChunksForEntity_indices (name : String) (store : LightKgStore B S F) :
    Frames (fun store => (store.entities,store.relations)) (srcChunksForEntity name) store := by
  unfold Frames Ends srcChunksForEntity
  cases store.srcChunks.get (deriveLogicalKey store.keys.emmSrcChunks srcChunksEntity name) with
  | mk answer after => cases answer <;> rfl

variable {D : Type} [Float32 F] [Metric F D] [PartialCmp D] [Add F] [Sub F] [Mul F] [Div F] [Zero F] [One F] [NatCast F] [PartialCmp F]
  {built next : LightKgStore B S F}

theorem Answering.moved (answering : Answering D kg params keys listing built store) (standing : Standing kg params keys listing next)
    (same : (next.entities,next.relations) = (store.entities,store.relations)) : Answering D kg params keys listing built next :=
  have ⟨entities,relations⟩ := Prod.mk.inj same
  ⟨standing,entities ▸ answering.entities,relations ▸ answering.relations⟩

theorem adjacencyForEntity_answering (name : String) (answering : Answering D kg params keys listing built store)
    (apart : ApartKeys keys.emmAdjacencyKey adjacencyEntity fun a => a ∈ endpointNames kg.relations ∨ a = name) :
    ∃ next, adjacencyForEntity name store = .ok (recalled ((relationKeys kg.relations name).take params.adjacency.volumeBound)) next ∧
      Answering D kg params keys listing built next := by
  obtain ⟨next,answered,standing⟩ := adjacencyForEntity_answers name answering.standing apart
  exact ⟨next,answered,answering.moved standing ((adjacencyForEntity_indices name store).at_ok answered)⟩

theorem srcChunksForEntity_answering (name : String) (answering : Answering D kg params keys listing built store)
    (apart : ApartKeys keys.emmSrcChunksKey srcChunksEntity fun a => a ∈ kg.entities.map Entity.name ∨ a = name) :
    ∃ next, srcChunksForEntity name store = .ok (recalled ((sourcesOf kg.entities name).take params.srcChunks.volumeBound)) next ∧
      Answering D kg params keys listing built next := by
  obtain ⟨next,answered,standing⟩ := srcChunksForEntity_answers name answering.standing apart
  exact ⟨next,answered,answering.moved standing ((srcChunksForEntity_indices name store).at_ok answered)⟩

-- The fan-out from the names answers as that of the bare graph does.
theorem fanOut_settled (ids rids : List Nat) (queryParams : KgQueryParams) (answering : Answering D kg params keys listing built store)
    (apartAdjacency : ApartKeys keys.emmAdjacencyKey adjacencyEntity (Known kg)) (apartChunks : ApartKeys keys.emmSrcChunksKey srcChunksEntity (Known kg)) :
    ∃ next, fanOut (rids.filterMap (lastName Relation.canonicalKey kg.relations)) (plainNames kg ids rids) queryParams store =
        settled (fun id => .error (.chunk (.notFound id))) next (plainContext kg queryParams ids rids params) ∧
      Answering D kg params keys listing built next := by
  have known := fun name (member : name ∈ plainNames kg ids rids) => known_plainName kg ids rids member
  obtain ⟨middle,adjacent,held⟩ := Upholds.mapM_answered answering fun name member s holds =>
    adjacencyForEntity_answering name holds (apartAdjacency.fewer fun a is => is.elim .inr fun same => same ▸ known name member)
  obtain ⟨last,sources,kept⟩ := Upholds.mapM_answered held fun name member s holds =>
    srcChunksForEntity_answering name holds (apartChunks.fewer fun a is => is.elim .inl fun same => same ▸ known name member)
  refine ⟨last,?_,kept⟩
  unfold fanOut
  rw [bind_ok adjacent,bind_ok sources]
  have texts : ((plainChunkIds kg queryParams ids rids params).mapM fun id => do
      let text ← chunkText id
      return (id,text) : StoreM B S F (List (String × String))) last =
      settled (fun id => .error (.chunk (.notFound id))) last (plainTexts kg (plainChunkIds kg queryParams ids rids params)) :=
    mapM_settled (fun id => by
      have read := chunkText_settled kept.standing id
      cases found : textOf kg.chunks id with
      | none =>
          rw [found] at read
          exact bind_error read
      | some text =>
          rw [found] at read
          exact bind_ok read) _
  unfold plainContext
  have same : retainNew [] ((List.map (fun name => recalled ((sourcesOf kg.entities name).take params.srcChunks.volumeBound)) (plainNames kg ids rids)).flatMap
      fun ids => ids.take queryParams.topKChunksPerEntity) = plainChunkIds kg queryParams ids rids params := by
    rw [plainChunkIds,List.flatMap_map]
  rw [same]
  cases told : plainTexts kg (plainChunkIds kg queryParams ids rids params) with
  | error id =>
      rw [told] at texts
      exact bind_error texts
  | ok chunks =>
      rw [told] at texts
      rw [bind_ok texts,List.flatMap_def]
      rfl

end Answers
end KgStore
