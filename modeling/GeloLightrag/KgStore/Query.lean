import GeloLightrag.KgStore.Store

namespace KgStore
open Foundation Compass XorMm

inductive QueryShape where
  | local_
  | hybrid
deriving DecidableEq,Repr

structure KgQueryParams where
  topKEntities : Nat
  topKChunksPerEntity : Nat
  shape : QueryShape
  topKRelations : Nat
deriving DecidableEq,Repr

def KgQueryParams.default : KgQueryParams := ⟨5,2,.local_,5⟩

structure KgContext where
  entities : List String
  relations : List String
  chunks : List (String × String)
deriving DecidableEq,Repr

-- `items.retain(|item| seen.insert(item))`: of the equal items the first stays.
def retainNew (seen : List String) : List String → List String
  | [] => []
  | item :: rest => if item ∈ seen then retainNew seen rest else item :: retainNew (item :: seen) rest

theorem mem_retainNew {seen items : List String} {name : String} : name ∈ retainNew seen items ↔ name ∈ items ∧ name ∉ seen := by
  induction items generalizing seen with
  | nil => simp [retainNew]
  | cons item rest ih =>
      unfold retainNew
      split
      · rename_i old
        rw [ih,List.mem_cons]
        constructor
        · rintro ⟨member,new⟩
          exact ⟨.inr member,new⟩
        · rintro ⟨rfl | member,new⟩
          · exact absurd old new
          · exact ⟨member,new⟩
      · rename_i new
        rw [List.mem_cons,ih,List.mem_cons,List.mem_cons,not_or]
        constructor
        · rintro (rfl | ⟨member,_,fresh⟩)
          · exact ⟨.inl rfl,new⟩
          · exact ⟨.inr member,fresh⟩
        · rintro ⟨rfl | member,fresh⟩
          · exact .inl rfl
          · by_cases same : name = item
            · exact .inl same
            · exact .inr ⟨member,same,fresh⟩

section
variable {B S F D : Type} [RingOram.BlockBackend B] [ByteStoreBackend S] [AesGcm] [Sha256] [HmacSha256] [Float32 F] [Metric F D] [PartialCmp D]
  [Add F] [Sub F] [Mul F] [Div F] [Zero F] [One F] [NatCast F] [PartialCmp F]

def inIndex {α : Type} (wrap : CompassIndex B F → LightKgStore B S F) (x : IndexM B F α) (index : CompassIndex B F) :
    EStateM.Result KgFault (LightKgStore B S F) α :=
  match x index with
  | .ok a index => .ok a (wrap index)
  | .error e index => .error (.ofCompass e) (wrap index)

def searchEntities (query : List F) (k : Nat) : StoreM B S F (List Nat) := fun store =>
  inIndex (fun index => {store with entities:=index}) (layeredSearch (D:=D) query k) store.entities

def searchRelations (query : List F) (k : Nat) : StoreM B S F (List Nat) := fun store =>
  inIndex (fun index => {store with relations:=index}) (layeredSearch (D:=D) query k) store.relations

-- A map the other way, which has no name for a block that the map does not give.
def inverted (listing : Listing) (table : HashTable String Nat) : HashTable Nat String :=
  HashTable.collect ((listing.order table).map fun (name,id) => (id,name))

-- The hits of the relations, in the hybrid shape: the keys that the inverted map has of
-- them, and the endpoints.
def relationHits (hlPerturbed : List F) (params : KgQueryParams) (listing : Listing) : StoreM B S F (List String × List String) :=
  match params.shape with
  | .local_ => return ([],[])
  | .hybrid => do
    let relationBlockIds ← searchRelations (D:=D) hlPerturbed params.topKRelations
    let store ← get
    let relationIdToCanon := inverted listing store.relationBlockId
    return (relationBlockIds.filterMap relationIdToCanon.get,
      relationBlockIds.flatMap fun id => (store.relationEndpoints.get id).elim [] fun ends => [ends.1,ends.2])

-- The fan-out from the names: their relations and chunks, and the texts of these.
def fanOut (relationKeys entityNames : List String) (params : KgQueryParams) : StoreM B S F KgContext := do
  let adjacent ← entityNames.mapM adjacencyForEntity
  let allRelations := retainNew [] (relationKeys ++ adjacent.flatten)
  let sources ← entityNames.mapM srcChunksForEntity
  let chunkIds := retainNew [] (sources.flatMap fun ids => ids.take params.topKChunksPerEntity)
  let chunks ← chunkIds.mapM fun id => do
    let text ← chunkText id
    return (id,text)
  return ⟨entityNames,allRelations,chunks⟩

def queryContext (llPerturbed hlPerturbed : List F) (params : KgQueryParams) (listing : Listing) : StoreM B S F KgContext := do
  let entityBlockIds ← searchEntities (D:=D) llPerturbed params.topKEntities
  let store ← get
  let entityIdToName := inverted listing store.entityBlockId
  let entityNames := entityBlockIds.filterMap entityIdToName.get
  let (relationKeys,endpoints) ← relationHits (D:=D) hlPerturbed params listing
  fanOut relationKeys (retainNew [] (entityNames ++ endpoints)) params

end
end KgStore
