import GeloLightrag.KgStore.BlockIds
import GeloLightrag.KgStore.Standing

namespace KgStore
open Foundation Compass XorMm

section Asked
variable {B S F D : Type} [RingOram.BlockBackend B] [ByteStoreBackend S] [AesGcm] [Sha256] [HmacSha256] [Float32 F] [Metric F D]
  [PartialCmp D] [Add F] [Sub F] [Mul F] [Div F] [Zero F] [One F] [NatCast F] [PartialCmp F]

-- However a program ends, it ends in this state.
def Lands {ε σ α : Type} (x : EStateM ε σ α) (s t : σ) : Prop := (∃ a, x s = .ok a t) ∨ ∃ e, x s = .error e t

theorem Lands.upheld {ε σ α : Type} {x : EStateM ε σ α} {s t : σ} {inv : σ → Prop} (lands : Lands x s t) (upholds : Upholds inv x) (holds : inv s) : inv t := by
  rcases lands with ⟨a,ran⟩ | ⟨e,ran⟩
  · exact (upholds s holds).at_ok ran
  · exact (upholds s holds).at_error ran

-- The states in which a store has been asked anything.
inductive Reached (built : LightKgStore B S F) : LightKgStore B S F → Prop
  | built : Reached built built
  | adjacency {store next} (name : String) : Reached built store → Lands (adjacencyForEntity name) store next → Reached built next
  | srcChunks {store next} (name : String) : Reached built store → Lands (srcChunksForEntity name) store next → Reached built next
  | queried {store next} (llPerturbed hlPerturbed : List F) (params : KgQueryParams) (order : Listing) : Reached built store →
    Lands (queryContext (D:=D) llPerturbed hlPerturbed params order) store next → Reached built next

section Faithful
variable [FaithfulStore S] {kg : ExtractedKg F} {params : LightKgParams F} {keys : Keying.DerivedKeysV2} {listing : Listing}
  {store reached : LightKgStore B S F}

theorem Reached.standing (ran : Reached (D:=D) store reached) (standing : Standing kg params keys listing store) : Standing kg params keys listing reached := by
  induction ran with
  | built => exact standing
  | adjacency name _ lands ih => exact lands.upheld (adjacencyForEntity_upholds name) ih
  | srcChunks name _ lands ih => exact lands.upheld (srcChunksForEntity_upholds name) ih
  | queried llPerturbed hlPerturbed queryParams order _ lands ih =>
      exact lands.upheld (queryContext_upholds llPerturbed hlPerturbed queryParams order) ih

end Faithful

theorem swallows_apart {r r' : Relation F} (swallows : r.Swallows r') : r.canonicalKey = r'.canonicalKey ∧ ¬ r.SameEnds r' := by
  refine ⟨(canonicalKey_eq r r').mpr (.inr (.inl swallows)),fun same => ?_⟩
  obtain ⟨middle,longer,_⟩ := (swallows_toList r r').mp swallows
  rw [(r.sameEnds_iff r').mp same] at longer
  have lengths := congrArg List.length longer
  rw [List.length_append,List.length_cons] at lengths
  omega

-- Keys of different pairs differ, and lead to relations of their pairs, exactly where
-- no name of one relation holds what separates another's.
theorem keys_apart (relations : List (Relation F)) (few : relations.length ≤ 2 ^ 32) :
    ((∀ r ∈ relations, ∀ r' ∈ relations, r.canonicalKey = r'.canonicalKey → r.SameEnds r') ∧
      ∀ r ∈ relations, ∃ id r', (blockIds Relation.canonicalKey relations).get r.canonicalKey = some id ∧ relations[id]? = some r' ∧ r'.SameEnds r) ↔
        ∀ r ∈ relations, ∀ r' ∈ relations, ¬ r.Swallows r' := by
  constructor
  · rintro ⟨told,_⟩ r member r' member' swallows
    obtain ⟨same,apart⟩ := swallows_apart swallows
    exact apart (told r member r' member' same)
  · intro free
    have told : ∀ r ∈ relations, ∀ r' ∈ relations, r.canonicalKey = r'.canonicalKey → r.SameEnds r' := by
      intro r member r' member' same
      rcases (canonicalKey_eq r r').mp same with ends | swallows | swallows
      · exact (r.sameEnds_iff r').mpr ends
      · exact absurd swallows (free r member r' member')
      · exact absurd swallows (free r' member' r member)
    refine ⟨told,fun r member => ?_⟩
    obtain ⟨id,last⟩ := @lastOf_exists _ Relation.canonicalKey _ _ member
    obtain ⟨⟨r',found,same⟩,_⟩ := last
    exact ⟨id,r',(blockIds_get few).mpr ⟨⟨r',found,same⟩,‹_›⟩,found,told r' (List.mem_of_getElem? found) r member same⟩

section Claims
variable [FaithfulStore S] [StrictCmp D] [LevelSampler F] [Neg F] [Quantised F] {kg : ExtractedKg F} {params : LightKgParams F} {keys : Keying.DerivedKeysV2}
  {mkBlockBackend : CompassIndexParams F → B} {mkByteStore : XorMmParams → S} {generator : Bytes → Nat → Nat} {hashes : RingOram.HashOrder}
  {listing : Listing} {store : LightKgStore B S F}

-- A name's relations and chunks are answered as they were given exactly where none of
-- them ends in a NUL or is empty, and keys are as good as pairs where names hold no
-- separator of one another.
theorem adjacency_faithful (apartAdjacency : ApartKeys keys.emmAdjacencyKey adjacencyEntity (· ∈ endpointNames kg.relations))
    (apartChunks : ApartKeys keys.emmSrcChunksKey srcChunksEntity (· ∈ kg.entities.map Entity.name))
    (built : buildInner (D:=D) kg params keys mkBlockBackend mkByteStore generator hashes listing = .ok store) :
    (∀ reached, Reached (D:=D) store reached → ∀ name,
      ApartKeys keys.emmAdjacencyKey adjacencyEntity (fun a => a ∈ endpointNames kg.relations ∨ a = name) →
        ((∃ next, adjacencyForEntity name reached = .ok ((relationKeys kg.relations name).take params.adjacency.volumeBound) next) ↔
          ∀ r ∈ (touching kg.relations name).take params.adjacency.volumeBound, Lasting r.ends.2)) ∧
    (((∀ r ∈ kg.relations, ∀ r' ∈ kg.relations, r.canonicalKey = r'.canonicalKey → r.SameEnds r') ∧
      ∀ r ∈ kg.relations, ∃ id r', store.relationBlockId.get r.canonicalKey = some id ∧ kg.relations[id]? = some r' ∧ r'.SameEnds r) ↔
        ∀ r ∈ kg.relations, ∀ r' ∈ kg.relations, ¬ r.Swallows r') ∧
    ∀ reached, Reached (D:=D) store reached → ∀ name,
      ApartKeys keys.emmSrcChunksKey srcChunksEntity (fun a => a ∈ kg.entities.map Entity.name ∨ a = name) →
        ((∃ next, srcChunksForEntity name reached = .ok ((sourcesOf kg.entities name).take params.srcChunks.volumeBound) next) ↔
          ∀ c ∈ (sourcesOf kg.entities name).take params.srcChunks.volumeBound, Lasting c) := by
  obtain ⟨standing,_,few⟩ := buildInner_standing apartAdjacency apartChunks built
  refine ⟨fun reached ran name apart => ?_,?_,fun reached ran name apart => ?_⟩
  · obtain ⟨next,answered,_⟩ := adjacencyForEntity_answers name (ran.standing standing) apart
    rw [answered]
    have kept := recalled_eq ((relationKeys kg.relations name).take params.adjacency.volumeBound)
    have lasting : (∀ s ∈ (relationKeys kg.relations name).take params.adjacency.volumeBound, Lasting s) ↔
        ∀ r ∈ (touching kg.relations name).take params.adjacency.volumeBound, Lasting r.ends.2 := by
      unfold relationKeys
      rw [←List.map_take,List.forall_mem_map]
      simp only [lasting_key]
    rw [lasting] at kept
    rw [←kept]
    exact ⟨fun ⟨_,same⟩ => (EStateM.Result.ok.inj same).1,fun same => ⟨next,by rw [same]⟩⟩
  · rw [standing.relationBlockId]
    exact keys_apart kg.relations (by omega)
  · obtain ⟨next,answered,_⟩ := srcChunksForEntity_answers name (ran.standing standing) apart
    rw [answered,←recalled_eq]
    exact ⟨fun ⟨_,same⟩ => (EStateM.Result.ok.inj same).1,fun same => ⟨next,by rw [same]⟩⟩

end Claims
end Asked

section Lattice
attribute [local instance] byte_nonzero byteCast byteZero byteOne byteBits byteCodes byteMetric byteLevels byteDigest byteAead
local instance byteTags : HmacSha256 := .joined

def smallMaps : XorMmParams := {volumeBound:=4,valueBytes:=8,nBuckets:=8,maxKicks:=8}
def smallParams : LightKgParams (Fin 256) := ⟨cornered,cornered,cornered,smallMaps,smallMaps⟩
def blankKeys : Keying.DerivedKeysV2 := ⟨[],[],[],[],[],[],[],[]⟩

abbrev SmallStore := LightKgStore RingOram.InMemoryBlockBackend InMemoryByteStore (Fin 256)

def smallStore (kg : ExtractedKg (Fin 256)) : Except KgFault SmallStore :=
  buildInner (D:=Nat) kg smallParams blankKeys (fun _ => .new 3) (fun p => .new p.nBuckets) (fun _ n => n) .asStored .asStored

def metKg : ExtractedKg (Fin 256) := ⟨[⟨"x","text",[0,0]⟩],[⟨"a","",[0,0],["x"]⟩,⟨"b","",[9,0],["x"]⟩],[⟨"b","a","met",[0,9],["x"]⟩]⟩

theorem apart_of_list [HmacSha256] {masterKey : Bytes} {label : String} {names : List String} {named : String → Prop} (listed : ∀ a, named a → a ∈ names)
    (apart : ∀ a ∈ names, ∀ b ∈ names, deriveLogicalKey masterKey label a = deriveLogicalKey masterKey label b → a = b) :
    ApartKeys masterKey label named := fun a b first second => apart a (listed a first) b (listed b second)

theorem adjacency_faithful_met : ∃ store, smallStore metKg = .ok store ∧ (∃ next, adjacencyForEntity "b" store = .ok ["a\x00b"] next) ∧
    ∃ next, srcChunksForEntity "a" store = .ok ["x"] next := by
  have made : (smallStore metKg).isOk = true := by decide +kernel
  obtain ⟨store,built⟩ := except_isOk made
  have relations : ∀ a ∈ endpointNames metKg.relations, ∀ b ∈ endpointNames metKg.relations,
      deriveLogicalKey [] adjacencyEntity a = deriveLogicalKey [] adjacencyEntity b → a = b := by decide +kernel
  have entities : ∀ a ∈ metKg.entities.map Entity.name, ∀ b ∈ metKg.entities.map Entity.name,
      deriveLogicalKey [] srcChunksEntity a = deriveLogicalKey [] srcChunksEntity b → a = b := by decide +kernel
  obtain ⟨adjacency,_,chunks⟩ := adjacency_faithful (apart_of_list (fun _ member => member) relations) (apart_of_list (fun _ member => member) entities) built
  refine ⟨store,built,(adjacency store .built "b" (apart_of_list ?_ relations)).mpr (by decide +kernel),
    (chunks store .built "a" (apart_of_list ?_ entities)).mpr (by decide +kernel)⟩
  · rintro a (member | rfl)
    · exact member
    · decide
  · rintro a (member | rfl)
    · exact member
    · decide

-- A name that ends in a NUL, the empty name, and a name with a separator in it.
def nulKg : ExtractedKg (Fin 256) :=
  ⟨[⟨"x\x00","text",[0,0]⟩],[⟨"e","",[0,0],["x\x00",""]⟩],
    [⟨"a","b\x00","",[0,0],[]⟩,⟨"","","",[9,0],[]⟩,⟨"a","b\x00c","",[0,9],[]⟩,⟨"a\x00b","c","",[9,9],[]⟩]⟩

theorem nul_names_lost : ∃ store, smallStore nulKg = .ok store ∧
    (∃ next, adjacencyForEntity "a" store = .ok ["a\x00b","a\x00b\x00c"] next) ∧ relationKeys nulKg.relations "a" = ["a\x00b\x00","a\x00b\x00c"] ∧
    (∃ next, adjacencyForEntity "" store = .ok [] next) ∧ relationKeys nulKg.relations "" = ["\x00"] ∧
    (∃ next, srcChunksForEntity "e" store = .ok ["x"] next) ∧ sourcesOf nulKg.entities "e" = ["x\x00",""] ∧
    ∃ r ∈ nulKg.relations, ∃ r' ∈ nulKg.relations, r.canonicalKey = r'.canonicalKey ∧ ¬ r.SameEnds r' := by
  have made : (smallStore nulKg).isOk = true := by decide +kernel
  obtain ⟨store,built⟩ := except_isOk made
  have relations : ∀ a ∈ endpointNames nulKg.relations, ∀ b ∈ endpointNames nulKg.relations,
      deriveLogicalKey [] adjacencyEntity a = deriveLogicalKey [] adjacencyEntity b → a = b := by decide +kernel
  have entities : ∀ a ∈ nulKg.entities.map Entity.name, ∀ b ∈ nulKg.entities.map Entity.name,
      deriveLogicalKey [] srcChunksEntity a = deriveLogicalKey [] srcChunksEntity b → a = b := by decide +kernel
  obtain ⟨standing,_⟩ := buildInner_standing (apart_of_list (fun _ member => member) relations) (apart_of_list (fun _ member => member) entities) built
  have known : ∀ name ∈ endpointNames nulKg.relations, ApartKeys [] adjacencyEntity fun a => a ∈ endpointNames nulKg.relations ∨ a = name :=
    fun name listed => apart_of_list (fun a is => is.elim id fun same => same ▸ listed) relations
  obtain ⟨next,first,_⟩ := adjacencyForEntity_answers "a" standing (known "a" (by decide))
  obtain ⟨next',second,_⟩ := adjacencyForEntity_answers "" standing (known "" (by decide))
  obtain ⟨next'',third,_⟩ := srcChunksForEntity_answers "e" standing (apart_of_list (fun a is => by rcases is with member | rfl <;> [exact member; decide]) entities)
  refine ⟨store,built,⟨next,first.trans ?_⟩,by decide +kernel,⟨next',second.trans ?_⟩,by decide +kernel,⟨next'',third.trans ?_⟩,by decide +kernel,by decide +kernel⟩
  · exact congrArg (fun names => EStateM.Result.ok names next) (by decide +kernel)
  · exact congrArg (fun names => EStateM.Result.ok names next') (by decide +kernel)
  · exact congrArg (fun names => EStateM.Result.ok names next'') (by decide +kernel)

end Lattice
end KgStore
