import GeloLightrag.KgStore.Values
import GeloLightrag.Keying.TwoPartyKdf

namespace KgStore
open Foundation Compass XorMm

structure LightKgParams (F : Type) where
  entities : CompassIndexParams F
  relations : CompassIndexParams F
  chunks : CompassIndexParams F
  adjacency : XorMmParams
  srcChunks : XorMmParams

structure KeyBundle where
  aesChunk : Bytes
  oramEntities : Bytes
  oramRelations : Bytes
  oramChunks : Bytes
  emmAdjacency : Bytes
  emmSrcChunks : Bytes

def KeyBundle.fromDerived (d : Keying.DerivedKeysV2) : KeyBundle :=
  ⟨d.aesChunkKey,d.oramEntitiesKey,d.oramRelationsKey,d.oramChunksKey,d.emmAdjacencyKey,d.emmSrcChunksKey⟩

structure LightKgStore (B S F : Type) where
  entities : CompassIndex B F
  relations : CompassIndex B F
  chunks : CompassIndex B F
  adjacency : XorMmClient S
  srcChunks : XorMmClient S
  chunkText : AesChunkStore
  entityBlockId : HashTable String Nat
  relationBlockId : HashTable String Nat
  relationEndpoints : HashTable Nat (String × String)
  chunkBlockId : HashTable String Nat
  keys : KeyBundle

inductive KgFault where
  | error (e : LightKgError)
  | dropped
  | panic (text : String)
  | diverged

def KgFault.ofCompass : CompassFault → KgFault
  | .error e => .error (.compass e)
  | .dropped => .dropped
  | .panic text => .panic text
  | .diverged => .diverged

def KgFault.ofXorMm : XorMm.Fault → KgFault
  | .error e => .error (.xorMm e)
  | .panic text => .panic text

def adjacencyEntity : String := "adjacency/entity"
def srcChunksEntity : String := "src_chunks/entity"

section Keys
variable [HmacSha256]

-- A tag is 32 bytes.
def deriveLogicalKey (masterKey : Bytes) (label name : String) : LogicalKey :=
  let tag := HmacSha256.mac masterKey (utf8 label ++ [0] ++ utf8 name)
  ⟨(tag ++ List.replicate 32 0).take 32,by simp⟩

end Keys

-- `entries.entry(name).or_default()` and its pushes.
def pushAll (entries : HashTable String (List LogicalValue)) (name : String) (values : List LogicalValue) : HashTable String (List LogicalValue) :=
  entries.insert name ((entries.get name).getD [] ++ values)

section Entries
variable {F : Type} (valueBytes : Nat)

-- Both endpoints of a relation have it, and a loop's one endpoint once.
def pushRelation (entries : HashTable String (List LogicalValue)) (r : Relation F) : Except LightKgError (HashTable String (List LogicalValue)) := do
  let value ← stringToValue r.canonicalKey valueBytes
  let entries := pushAll entries r.src [value]
  if r.src ≠ r.tgt then
    let value ← stringToValue r.canonicalKey valueBytes
    return pushAll entries r.tgt [value]
  else return entries

def pushSources (entries : HashTable String (List LogicalValue)) (e : Entity F) : Except LightKgError (HashTable String (List LogicalValue)) := do
  let values ← e.sourceChunks.mapM fun c => stringToValue c valueBytes
  return pushAll entries e.name values

def adjacencyEntries (relations : List (Relation F)) : Except LightKgError (HashTable String (List LogicalValue)) :=
  relations.foldlM (pushRelation valueBytes) []

def srcChunksEntries (entities : List (Entity F)) : Except LightKgError (HashTable String (List LogicalValue)) :=
  entities.foldlM (pushSources valueBytes) []

end Entries

section Building
variable {B S F D : Type} [RingOram.BlockBackend B] [ByteStoreBackend S] [AesGcm] [Sha256] [HmacSha256] [Float32 F] [Metric F D] [PartialCmp D]
  [LevelSampler F] [Add F] [Sub F] [Mul F] [Div F] [Neg F] [Zero F] [One F] [NatCast F] [PartialCmp F] [Quantised F]

def buildEmm (masterKey : Bytes) (label : String) (entries : HashTable String (List LogicalValue)) (params : XorMmParams) (backend : S)
    (listing : Listing) : Except KgFault (XorMmClient S) :=
  let prepared := (listing.order entries).map fun entry => (deriveLogicalKey masterKey label entry.1,entry.2)
  (XorMmClient.build prepared params masterKey (masterKey.take 16) (masterKey.drop 16) backend).mapError .ofXorMm

-- `items.enumerate()` as a map from what `name` gives to a block id.
def blockIds {α : Type} (name : α → String) (items : List α) : HashTable String Nat :=
  HashTable.collect (items.zipIdx.map fun (item,i) => (name item,i % 2 ^ 32))

-- The generator gives the words that a seed starts, and hash maps are listed in any
-- order.
def buildInner (kg : ExtractedKg F) (params : LightKgParams F) (keys : Keying.DerivedKeysV2) (mkBlockBackend : CompassIndexParams F → B)
    (mkByteStore : XorMmParams → S) (generator : Bytes → Nat → Nat) (hashes : RingOram.HashOrder) (listing : Listing) :
    Except KgFault (LightKgStore B S F) := do
  let bundle := KeyBundle.fromDerived keys
  let corpus := fun embeddings (params : CompassIndexParams F) =>
    (fromPlaintextCorpusOn (D:=D) embeddings params (mkBlockBackend params) generator hashes).mapError KgFault.ofCompass
  let entities ← corpus (kg.entities.map Entity.embedding) params.entities
  let relations ← corpus (kg.relations.map Relation.embedding) params.relations
  let chunks ← corpus (kg.chunks.map Chunk.embedding) params.chunks
  let relationEndpoints := HashTable.collect (kg.relations.zipIdx.map fun (r,i) => (i % 2 ^ 32,(r.src,r.tgt)))
  let chunkText := (AesChunkStore.new bundle.aesChunk).putAll kg.chunks
  let adjacencyEntries ← (adjacencyEntries params.adjacency.valueBytes kg.relations).mapError .error
  let adjacency ← buildEmm bundle.emmAdjacency adjacencyEntity adjacencyEntries params.adjacency (mkByteStore params.adjacency) listing
  let srcChunksEntries ← (srcChunksEntries params.srcChunks.valueBytes kg.entities).mapError .error
  let srcChunks ← buildEmm bundle.emmSrcChunks srcChunksEntity srcChunksEntries params.srcChunks (mkByteStore params.srcChunks) listing
  return {
    entities, relations, chunks, adjacency, srcChunks, chunkText, relationEndpoints
    entityBlockId := blockIds Entity.name kg.entities
    relationBlockId := blockIds Relation.canonicalKey kg.relations
    chunkBlockId := blockIds Chunk.id kg.chunks
    keys := bundle }

end Building

abbrev StoreM (B S F : Type) := EStateM KgFault (LightKgStore B S F)

section Asking
variable {B S F : Type} [ByteStoreBackend S] [AesGcm] [Sha256] [HmacSha256]

def adjacencyForEntity (entityName : String) : StoreM B S F (List String) := fun store =>
  match store.adjacency.get (deriveLogicalKey store.keys.emmAdjacency adjacencyEntity entityName) with
  | (.error e,adjacency) => .error (.ofXorMm e) {store with adjacency:=adjacency}
  | (.ok values,adjacency) => .ok (readNames values) {store with adjacency:=adjacency}

def srcChunksForEntity (entityName : String) : StoreM B S F (List String) := fun store =>
  match store.srcChunks.get (deriveLogicalKey store.keys.emmSrcChunks srcChunksEntity entityName) with
  | (.error e,srcChunks) => .error (.ofXorMm e) {store with srcChunks:=srcChunks}
  | (.ok values,srcChunks) => .ok (readNames values) {store with srcChunks:=srcChunks}

def chunkText (chunkId : String) : StoreM B S F String := do
  let store ← get
  match store.chunkText.get chunkId with
  | .error e => throw (.error (.chunk e))
  | .ok text => return text

end Asking
end KgStore
