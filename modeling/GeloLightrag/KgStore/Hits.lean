import GeloLightrag.KgStore.Adjacency

namespace KgStore
open Foundation Compass XorMm

section Translated
variable {α : Type} {name : α → String} {items : List α}

-- The names of hits: those that some hit is the last block of.
theorem mem_translated (few : items.length ≤ 2 ^ 32) (listing : Listing) {ids : List Nat} {key : String} :
    key ∈ ids.filterMap (inverted listing (blockIds name items)).get ↔ ∃ id ∈ ids, LastOf name items key id := by
  rw [List.mem_filterMap]
  constructor
  · rintro ⟨id,member,found⟩
    exact ⟨id,member,(inverted_get few listing).mp found⟩
  · rintro ⟨id,member,last⟩
    exact ⟨id,member,(inverted_get few listing).mpr last⟩

end Translated

section Endpoints
variable {F : Type} {relations : List (Relation F)}

theorem endpoints_get (few : relations.length ≤ 2 ^ 32) {id : Nat} {ends : String × String} :
    (HashTable.collect (relations.zipIdx.map fun (r,i) => (i % 2 ^ 32,(r.src,r.tgt)))).get id = some ends ↔
      ∃ r, relations[id]? = some r ∧ ends = (r.src,r.tgt) := by
  have words : (relations.zipIdx.map fun (r,i) => (i % 2 ^ 32,(r.src,r.tgt))) = relations.zipIdx.map fun (r,i) => (i,(r.src,r.tgt)) := by
    refine List.map_congr_left fun ⟨r,i⟩ member => ?_
    have inside : i < relations.length + 0 := List.snd_lt_of_mem_zipIdx member
    show (i % 2 ^ 32,(r.src,r.tgt)) = (i,(r.src,r.tgt))
    rw [Nat.mod_eq_of_lt (by omega)]
  have keyed : HashTable.Keyed (relations.zipIdx.map fun (r,i) => (i,(r.src,r.tgt))) := by
    unfold HashTable.Keyed
    rw [List.map_map]
    show (relations.zipIdx.map Prod.snd).Nodup
    rw [List.zipIdx_map_snd]
    exact List.nodup_range'
  rw [words,HashTable.get_collect keyed,List.mem_map]
  constructor
  · rintro ⟨⟨r,i⟩,member,same⟩
    cases same
    exact ⟨r,List.mem_zipIdx_iff_getElem?.mp member,rfl⟩
  · rintro ⟨r,found,rfl⟩
    exact ⟨(r,id),List.mem_zipIdx_iff_getElem?.mpr found,rfl⟩

-- The endpoints of the hits that are relations.
theorem mem_endpoints (few : relations.length ≤ 2 ^ 32) {ids : List Nat} {name : String} :
    (name ∈ ids.flatMap fun id => ((HashTable.collect (relations.zipIdx.map fun (r,i) => (i % 2 ^ 32,(r.src,r.tgt)))).get id).elim [] fun ends => [ends.1,ends.2]) ↔
      ∃ id ∈ ids, ∃ r, relations[id]? = some r ∧ r.touches name := by
  rw [List.mem_flatMap]
  have each : ∀ id, (name ∈ ((HashTable.collect (relations.zipIdx.map fun (r,i) => (i % 2 ^ 32,(r.src,r.tgt)))).get id).elim [] fun ends => [ends.1,ends.2]) ↔
      ∃ r, relations[id]? = some r ∧ r.touches name := by
    intro id
    constructor
    · intro member
      cases found : (HashTable.collect (relations.zipIdx.map fun (r,i) => (i % 2 ^ 32,(r.src,r.tgt)))).get id with
      | none =>
          rw [found] at member
          cases member
      | some ends =>
          obtain ⟨r,here,rfl⟩ := (endpoints_get few).mp found
          rw [found] at member
          refine ⟨r,here,?_⟩
          rcases List.mem_cons.mp member with rfl | member
          · exact .inl rfl
          · exact .inr (List.mem_singleton.mp member).symm
    · rintro ⟨r,here,touched⟩
      rw [(endpoints_get few).mpr ⟨r,here,rfl⟩]
      rcases touched with rfl | rfl
      · exact List.mem_cons_self
      · exact List.mem_cons_of_mem _ List.mem_cons_self
  exact exists_congr fun id => and_congr_right fun _ => each id

end Endpoints

-- The names that a query fans out from: those that an entity hit is the last of, and the
-- endpoints of the relation hits.
def Fanned {F : Type} (kg : ExtractedKg F) (ids rids : List Nat) (name : String) : Prop :=
  (∃ id ∈ ids, LastOf Entity.name kg.entities name id) ∨ ∃ rid ∈ rids, ∃ r, kg.relations[rid]? = some r ∧ r.touches name

-- A name of the graph.
def Known {F : Type} (kg : ExtractedKg F) (name : String) : Prop := name ∈ kg.entities.map Entity.name ∨ name ∈ endpointNames kg.relations

theorem LastOf.known {α : Type} {name : α → String} {items : List α} {key : String} {id : Nat} (last : LastOf name items key id) : key ∈ items.map name := by
  obtain ⟨⟨item,found,rfl⟩,_⟩ := last
  exact List.mem_map_of_mem (List.mem_of_getElem? found)

theorem Fanned.known {F : Type} {kg : ExtractedKg F} {ids rids : List Nat} {name : String} (fanned : Fanned kg ids rids name) : Known kg name := by
  rcases fanned with ⟨_,_,last⟩ | ⟨_,_,r,found,touched⟩
  · exact .inl last.known
  · refine .inr (List.mem_flatMap.mpr ⟨r,List.mem_of_getElem? found,?_⟩)
    rcases touched with rfl | rfl
    · exact List.mem_cons_self
    · exact List.mem_cons_of_mem _ List.mem_cons_self

section Returned
variable {B S F D : Type} [RingOram.BlockBackend B] [ByteStoreBackend S] [FaithfulStore S] [AesGcm] [Sha256] [HmacSha256] [Float32 F] [Metric F D]
  [PartialCmp D] [Add F] [Sub F] [Mul F] [Div F] [Zero F] [One F] [NatCast F] [PartialCmp F]
  {kg : ExtractedKg F} {params : LightKgParams F} {keys : Keying.DerivedKeysV2} {listing : Listing} {store next : LightKgStore B S F} {ctx : KgContext}

-- The names are returned, and their relations after the keys that came with them.
theorem fanOut_returns {relationKeys_ entityNames : List String} {queryParams : KgQueryParams} (standing : Standing kg params keys listing store)
    (apart : ApartKeys keys.emmAdjacencyKey adjacencyEntity (Known kg)) (known : ∀ name ∈ entityNames, Known kg name)
    (ran : fanOut relationKeys_ entityNames queryParams store = .ok ctx next) :
    ctx.entities = entityNames ∧ ∀ key, key ∈ ctx.relations ↔
      key ∈ relationKeys_ ∨ ∃ name ∈ entityNames, key ∈ recalled ((relationKeys kg.relations name).take params.adjacency.volumeBound) := by
  have each (name : String) (member : name ∈ entityNames) (s : LightKgStore B S F) (holds : Standing kg params keys listing s) :=
    adjacencyForEntity_answers name holds (apart.fewer fun a is => is.elim .inr fun same => same ▸ known name member)
  obtain ⟨middle,answered,_⟩ := Upholds.mapM_answered standing each
  unfold fanOut at ran
  rw [bind_ok answered] at ran
  obtain ⟨sources,_,_,ran⟩ := ok_of_bind ran
  obtain ⟨chunks,_,_,ran⟩ := ok_of_bind ran
  cases ran
  refine ⟨rfl,fun key => ?_⟩
  rw [mem_retainNew,List.mem_append,List.mem_flatten]
  simp

-- What the relation hits are read as.
theorem relationHits_returns {hlPerturbed : List F} {queryParams : KgQueryParams} {order : Listing} {found endpoints : List String}
    (standing : Standing kg params keys listing store) (ran : relationHits (D:=D) hlPerturbed queryParams order store = .ok (found,endpoints) next) :
    (queryParams.shape = .local_ ∧ found = [] ∧ endpoints = []) ∨
      (queryParams.shape = .hybrid ∧ ∃ rids, searchRelations (D:=D) hlPerturbed queryParams.topKRelations store = .ok rids next ∧
        found = rids.filterMap (inverted order (blockIds Relation.canonicalKey kg.relations)).get ∧
        endpoints = rids.flatMap fun id =>
          ((HashTable.collect (kg.relations.zipIdx.map fun (r,i) => (i % 2 ^ 32,(r.src,r.tgt)))).get id).elim [] fun ends => [ends.1,ends.2]) := by
  unfold relationHits at ran
  cases shape : queryParams.shape with
  | local_ =>
      rw [shape] at ran
      cases ran
      exact .inl ⟨rfl,rfl,rfl⟩
  | hybrid =>
      rw [shape] at ran
      obtain ⟨rids,middle,searched,ran⟩ := ok_of_bind ran
      rw [bind_ok (get_run middle)] at ran
      cases ran
      obtain ⟨index,rfl⟩ := (searchRelations_ends hlPerturbed queryParams.topKRelations store).at_ok searched
      exact .inr ⟨rfl,rids,searched,by rw [←standing.relationBlockId],by rw [←standing.relationEndpoints]⟩

variable [StrictCmp D] [LevelSampler F] [Neg F] [Quantised F] {mkBlockBackend : CompassIndexParams F → B} {mkByteStore : XorMmParams → S}
  {generator : Bytes → Nat → Nat} {hashes : RingOram.HashOrder} {reached : LightKgStore B S F}

-- An entity hit is in the context exactly where the last entity of its name is a hit too
-- or a relation hit ends in it, and a relation hit where the last relation of its key is
-- a hit too or the key is among the first relations of a name of the fan-out.
theorem hits_returned (apartAdjacency : ApartKeys keys.emmAdjacencyKey adjacencyEntity (Known kg))
    (apartChunks : ApartKeys keys.emmSrcChunksKey srcChunksEntity (· ∈ kg.entities.map Entity.name))
    (built : buildInner (D:=D) kg params keys mkBlockBackend mkByteStore generator hashes listing = .ok store)
    (ran : Reached (D:=D) store reached) {llPerturbed hlPerturbed : List F} {queryParams : KgQueryParams} {order : Listing}
    (asked : queryContext (D:=D) llPerturbed hlPerturbed queryParams order reached = .ok ctx next) :
    ∃ ids middle, searchEntities (D:=D) llPerturbed queryParams.topKEntities reached = .ok ids middle ∧
      ∃ rids, (match queryParams.shape with
        | .local_ => rids = []
        | .hybrid => ∃ last, searchRelations (D:=D) hlPerturbed queryParams.topKRelations middle = .ok rids last) ∧
        (∀ id ∈ ids, ∀ e, kg.entities[id]? = some e → (e.name ∈ ctx.entities ↔ Fanned kg ids rids e.name)) ∧
        ∀ rid ∈ rids, ∀ r, kg.relations[rid]? = some r →
          (r.canonicalKey ∈ ctx.relations ↔ (∃ other ∈ rids, LastOf Relation.canonicalKey kg.relations r.canonicalKey other) ∨
            ∃ name, Fanned kg ids rids name ∧ r.canonicalKey ∈ recalled ((relationKeys kg.relations name).take params.adjacency.volumeBound)) := by
  obtain ⟨standing,fewEntities,fewRelations⟩ := buildInner_standing (apartAdjacency.fewer fun a => .inr) apartChunks built
  have standing := ran.standing standing
  unfold queryContext at asked
  obtain ⟨ids,middle,searched,asked⟩ := ok_of_bind asked
  have held : Standing kg params keys listing middle := by
    obtain ⟨index,rfl⟩ := (searchEntities_ends llPerturbed queryParams.topKEntities reached).at_ok searched
    exact standing.searched.1
  rw [bind_ok (get_run middle),held.entityBlockId] at asked
  obtain ⟨⟨found,endpoints⟩,last,hits,asked⟩ := ok_of_bind asked
  have kept : Standing kg params keys listing last := (relationHits_upholds hlPerturbed queryParams order middle held).at_ok hits
  -- the relation hits, which are none in the local shape
  obtain ⟨rids,shaped,rfl,ended⟩ : ∃ rids, (match queryParams.shape with
      | .local_ => rids = []
      | .hybrid => ∃ last, searchRelations (D:=D) hlPerturbed queryParams.topKRelations middle = .ok rids last) ∧
      found = rids.filterMap (inverted order (blockIds Relation.canonicalKey kg.relations)).get ∧
      ∀ name, name ∈ endpoints ↔ ∃ rid ∈ rids, ∃ r, kg.relations[rid]? = some r ∧ r.touches name := by
    rcases relationHits_returns held hits with ⟨shape,rfl,rfl⟩ | ⟨shape,rids,searched,rfl,rfl⟩
    · exact ⟨[],by rw [shape],rfl,fun name => by simp⟩
    · exact ⟨rids,by rw [shape]; exact ⟨last,searched⟩,rfl,fun name => mem_endpoints (by omega)⟩
  have fanned : ∀ name, name ∈ retainNew [] (ids.filterMap (inverted order (blockIds Entity.name kg.entities)).get ++ endpoints) ↔ Fanned kg ids rids name := by
    intro name
    rw [mem_retainNew,List.mem_append,mem_translated (by omega),ended]
    exact and_iff_left List.not_mem_nil
  obtain ⟨names,relations⟩ := fanOut_returns kept apartAdjacency (fun name member => ((fanned name).mp member).known) asked
  refine ⟨ids,middle,searched,rids,shaped,fun id _ e _ => ?_,fun rid _ r _ => ?_⟩
  · rw [names,fanned]
  · rw [relations,mem_translated (by omega)]
    exact or_congr_right (exists_congr fun name => and_congr_left fun _ => fanned name)

end Returned

section Lattice
attribute [local instance] byte_nonzero byteCast byteZero byteOne byteBits byteCodes byteMetric byteLevels byteDigest byteAead
local instance concatTags : HmacSha256 := .joined

-- The answers of the two searches of a query, and of the query.
def asking (store : SmallStore) (query : List (Fin 256)) (queryParams : KgQueryParams) : Option (List Nat) × Option (List Nat) × Option KgContext :=
  (answered (searchEntities (D:=Nat) query queryParams.topKEntities store),
    answered ((searchEntities (D:=Nat) query queryParams.topKEntities >>= fun _ => searchRelations (D:=Nat) query queryParams.topKRelations) store),
    answered (queryContext (D:=Nat) query query queryParams .asStored store))

theorem hits_returned_met : ∃ store ctx next, smallStore metKg = .ok store ∧
    queryContext (D:=Nat) [0,0] [0,0] ⟨1,2,.hybrid,1⟩ .asStored store = .ok ctx next ∧ "a" ∈ ctx.entities ∧ "a\x00b" ∈ ctx.relations := by
  have made : (smallStore metKg).isOk = true := by decide +kernel
  obtain ⟨store,built⟩ := except_isOk made
  have answers : ((smallStore metKg).toOption.map fun store => asking store [0,0] ⟨1,2,.hybrid,1⟩) =
      some (some [0],some [0],some ⟨["a","b"],["a\x00b"],[("x","text")]⟩) := by decide +kernel
  rw [built] at answers
  obtain ⟨first,rest⟩ := Prod.mk.inj (Option.some.inj answers)
  obtain ⟨second,third⟩ := Prod.mk.inj rest
  obtain ⟨middle,searched⟩ := answered_some.mp first
  obtain ⟨last,both⟩ := answered_some.mp second
  obtain ⟨next,asked⟩ := answered_some.mp third
  rw [bind_ok searched] at both
  have names : ∀ a ∈ ["a","b"], ∀ b ∈ ["a","b"], deriveLogicalKey [] adjacencyEntity a = deriveLogicalKey [] adjacencyEntity b → a = b := by decide +kernel
  have entities : ∀ a ∈ metKg.entities.map Entity.name, ∀ b ∈ metKg.entities.map Entity.name,
      deriveLogicalKey [] srcChunksEntity a = deriveLogicalKey [] srcChunksEntity b → a = b := by decide +kernel
  have known : ∀ a, Known metKg a → a ∈ ["a","b"] := by
    rintro a (member | member)
    · exact member
    · exact (List.mem_pair.mp member).elim (fun is => is ▸ by decide) fun is => is ▸ by decide
  obtain ⟨ids,_,searched',rids,⟨_,both'⟩,entity,relation⟩ :=
    hits_returned (apart_of_list known names) (apart_of_list (fun _ member => member) entities) built .built asked
  rw [searched] at searched'
  cases searched'
  rw [both] at both'
  cases both'
  refine ⟨store,_,next,built,asked,(entity 0 List.mem_cons_self _ rfl).mpr (.inl ⟨0,List.mem_cons_self,?_⟩),
    (relation 0 List.mem_cons_self _ rfl).mpr (.inl ⟨0,List.mem_cons_self,?_⟩)⟩
  · exact (blockIds_get (by decide)).mp (by decide +kernel)
  · exact (blockIds_get (by decide)).mp (by decide +kernel)

-- Two entities of one name, and two relations of one key, of which the first is a hit.
def twiceKg : ExtractedKg (Fin 256) :=
  ⟨[⟨"x","text",[0,0]⟩],[⟨"a","",[0,0],["x"]⟩,⟨"a","",[9,0],["x"]⟩],
    [⟨"b","d","",[0,9],[]⟩,⟨"c","d","",[9,0],[]⟩,⟨"b","c","",[0,0],[]⟩,⟨"c","b","",[9,9],[]⟩]⟩

def tightMaps : XorMmParams := {volumeBound:=1,valueBytes:=8,nBuckets:=8,maxKicks:=8}

def tightStore (kg : ExtractedKg (Fin 256)) : Except KgFault SmallStore :=
  buildInner (D:=Nat) kg {smallParams with adjacency:=tightMaps} blankKeys (fun _ => .new 3) (fun p => .new p.nBuckets) (fun _ n => n) .asStored .asStored

theorem hits_dropped : ∃ store middle last next, tightStore twiceKg = .ok store ∧ searchEntities (D:=Nat) [0,0] 1 store = .ok [0] middle ∧
    searchRelations (D:=Nat) [0,0] 1 middle = .ok [2] last ∧
    queryContext (D:=Nat) [0,0] [0,0] ⟨1,2,.hybrid,1⟩ .asStored store = .ok ⟨["b","c"],["b\x00d","c\x00d"],[]⟩ next ∧
    (twiceKg.entities[0]?.map Entity.name) = some "a" ∧ (twiceKg.relations[2]?.map Relation.canonicalKey) = some "b\x00c" := by
  have made : (tightStore twiceKg).isOk = true := by decide +kernel
  obtain ⟨store,built⟩ := except_isOk made
  have answers : ((tightStore twiceKg).toOption.map fun store => asking store [0,0] ⟨1,2,.hybrid,1⟩) =
      some (some [0],some [2],some ⟨["b","c"],["b\x00d","c\x00d"],[]⟩) := by decide +kernel
  rw [built] at answers
  obtain ⟨first,rest⟩ := Prod.mk.inj (Option.some.inj answers)
  obtain ⟨second,third⟩ := Prod.mk.inj rest
  obtain ⟨middle,searched⟩ := answered_some.mp first
  obtain ⟨last,both⟩ := answered_some.mp second
  obtain ⟨next,asked⟩ := answered_some.mp third
  rw [bind_ok searched] at both
  exact ⟨store,middle,last,next,built,searched,both,asked,rfl,by decide +kernel⟩

end Lattice
end KgStore
