import GeloLightrag.Foundation.Aead
import GeloLightrag.Foundation.Ranking
import GeloLightrag.RagCore.Schemes

namespace RagCore
open Foundation

structure DocumentChunk where
  id : String
  text : String
deriving DecidableEq,Repr

structure ChunkCiphertext where
  chunkId : String
  scheme : String
  nonce : Bytes
  ciphertext : Bytes
deriving DecidableEq,Repr

section Content
variable [AesGcm]

def encryptChunk (key : Bytes) (chunk : DocumentChunk) (nonce : Bytes) : ChunkCiphertext :=
  ⟨chunk.id,"aes-256-gcm",nonce,AesGcm.encrypt key nonce (utf8 chunk.text)⟩

def fromUtf8 (bytes : Bytes) : Option String := String.fromUTF8? ⟨bytes.toArray⟩

def decryptChunk (key : Bytes) (encrypted : ChunkCiphertext) : Except (Halted String) DocumentChunk := do
  if encrypted.scheme ≠ "aes-256-gcm" then throw (.error ("unsupported chunk encryption scheme: " ++ encrypted.scheme))
  let nonce ← nonceFromSlice encrypted.nonce
  let plaintext ← (AesGcm.decrypt key nonce encrypted.ciphertext).elim (.error (.error "failed to AES-decrypt chunk text")) .ok
  let text ← (fromUtf8 plaintext).elim (.error (.error "chunk plaintext is not valid utf-8")) .ok
  return ⟨encrypted.chunkId,text⟩

theorem decryptChunk_encryptChunk (key : Bytes) (chunk : DocumentChunk) (full : nonce.length = 12) :
    decryptChunk key (encryptChunk key chunk nonce) = .ok chunk := by
  have back : fromUtf8 (utf8 chunk.text) = some chunk.text := by
    have whole : (⟨(utf8 chunk.text).toArray⟩ : ByteArray) = chunk.text.toByteArray := by
      rw [utf8,String.toUTF8_eq_toByteArray,Array.toArray_toList]
    rw [fromUtf8,whole,String.fromUTF8?,dif_pos chunk.text.isValidUTF8]
    rfl
  simp [decryptChunk,encryptChunk,nonceFromSlice_full full,back,bind,Except.bind,pure,Except.pure]

end Content

section Distance
variable {F : Type} [Add F] [Mul F] [Div F] [Zero F] [LinearOrder F] [Elementary F]

def dot (lhs rhs : List F) : F := (lhs.zipWith (· * ·) rhs).foldl (· + ·) 0

def l2Norm (vector : List F) : F := Elementary.sqrt (dot vector vector)

def cosineSimilarity (lhs rhs : List F) : F :=
  if Elementary.isZero (l2Norm lhs) || Elementary.isZero (l2Norm rhs) then 0 else dot lhs rhs / (l2Norm lhs * l2Norm rhs)

-- `total_cmp` is the order of the scalars.
def scored (query : List F) (vectors : List (EncryptedEmbedding F)) : List (Nat × F) :=
  vectors.zipIdx.map fun (embedding,idx) => (idx,cosineSimilarity query embedding.vector)

def topKBySimilarity (query : List F) (vectors : List (EncryptedEmbedding F)) (k : Nat) : List (Nat × F) :=
  (sortBy (fun lhs rhs => compare rhs.2 lhs.2) (scored query vectors)).take k

structure StoredChunk (F : Type) where
  chunkId : String
  encryptedChunk : ChunkCiphertext
  embedding : EncryptedEmbedding F
deriving DecidableEq

structure InMemoryEncryptedIndex (F : Type) where
  records : List (StoredChunk F)
deriving DecidableEq

namespace InMemoryEncryptedIndex

def empty : InMemoryEncryptedIndex F := ⟨[]⟩

def insert (index : InMemoryEncryptedIndex F) (encryptedChunk : ChunkCiphertext) (embedding : EncryptedEmbedding F) :
    InMemoryEncryptedIndex F := ⟨index.records ++ [⟨encryptedChunk.chunkId,encryptedChunk,embedding⟩]⟩

def len (index : InMemoryEncryptedIndex F) : Nat := index.records.length

def search (index : InMemoryEncryptedIndex F) (encryptedQuery : EncryptedEmbedding F) (topK : Nat) :
    List (ChunkCiphertext × EncryptedEmbedding F × F) :=
  (topKBySimilarity encryptedQuery.vector (index.records.map StoredChunk.embedding) topK).filterMap fun (idx,score) =>
    index.records[idx]?.map fun record => (record.encryptedChunk,record.embedding,score)

end InMemoryEncryptedIndex
section Ranking
variable {query : List F} {vectors : List (EncryptedEmbedding F)}

theorem mem_scored : (i,score) ∈ scored query vectors ↔ ∃ e, vectors[i]? = some e ∧ score = cosineSimilarity query e.vector := by
  unfold scored
  constructor
  · intro member
    obtain ⟨⟨e,idx⟩,listed,is⟩ := List.mem_map.mp member
    cases is
    exact ⟨e,List.mem_zipIdx_iff_getElem?.mp listed,rfl⟩
  · rintro ⟨e,found,rfl⟩
    exact List.mem_map.mpr ⟨(e,i),List.mem_zipIdx_iff_getElem?.mpr found,rfl⟩

def ranked (query : List F) (vectors : List (EncryptedEmbedding F)) : List (Nat × F) :=
  sortBy (fun lhs rhs => compare rhs.2 lhs.2) (scored query vectors)

theorem ranked_perm (query : List F) (vectors : List (EncryptedEmbedding F)) : (ranked query vectors).Perm (scored query vectors) :=
  sortBy_perm _ _

theorem ranked_descending (query : List F) (vectors : List (EncryptedEmbedding F)) :
    (ranked query vectors).Pairwise fun (a b : Nat × F) => b.2 ≤ a.2 :=
  sortBy_pairwise (fun _ _ => compare_le_iff_le) (fun a b : Nat × F => le_total b.2 a.2) (fun _ _ _ first second => second.trans first) _

theorem scored_places (query : List F) (vectors : List (EncryptedEmbedding F)) : (scored query vectors).map Prod.fst = List.range vectors.length := by
  rw [scored,List.map_map,List.range_eq_range',←List.zipIdx_map_snd]
  rfl

-- Ties are in the order of the records.
theorem ranked_stable (query : List F) (vectors : List (EncryptedEmbedding F)) :
    (ranked query vectors).Pairwise (Stably (fun a b : Nat × F => b.2 ≤ a.2) fun a b => a.1 < b.1) := by
  refine sortBy_stable (fun _ _ => compare_le_iff_le) (fun a b : Nat × F => le_total b.2 a.2)
    (fun _ _ _ first second => second.trans first) ?_
  have rising := List.pairwise_lt_range (n:=vectors.length)
  rw [←scored_places query] at rising
  exact List.pairwise_map.mp rising

theorem topK_getElem? (k n : Nat) : (topKBySimilarity query vectors k)[n]? = if n < k then (ranked query vectors)[n]? else none := List.getElem?_take

-- What is strictly more similar stands strictly earlier.
theorem topK_before {i j k n : Nat} {x y : EncryptedEmbedding F} (first : vectors[i]? = some x) (second : vectors[j]? = some y)
    (closer : cosineSimilarity query y.vector < cosineSimilarity query x.vector)
    (hit : (topKBySimilarity query vectors k)[n]? = some (j,score)) :
    ∃ m < n, (topKBySimilarity query vectors k)[m]? = some (i,cosineSimilarity query x.vector) := by
  rw [topK_getElem?] at hit
  split at hit
  · rename_i inside
    have there : (i,cosineSimilarity query x.vector) ∈ ranked query vectors :=
      (ranked_perm query vectors).mem_iff.mpr (mem_scored.mpr ⟨x,first,rfl⟩)
    obtain ⟨m,short,at_⟩ := List.mem_iff_getElem.mp there
    obtain ⟨bound,here⟩ := List.getElem?_eq_some_iff.mp hit
    obtain ⟨e,found,is⟩ := mem_scored.mp ((ranked_perm query vectors).mem_iff.mp (List.mem_iff_getElem.mpr ⟨n,bound,here⟩))
    obtain rfl := Option.some.inj (second.symm.trans found)
    have earlier : m < n := by
      by_contra later
      rcases Nat.lt_or_eq_of_le (Nat.le_of_not_lt later) with behind | rfl
      · have ordered := List.pairwise_iff_getElem.mp (ranked_descending query vectors) n m bound short behind
        rw [at_,here,is] at ordered
        exact absurd closer (not_lt.mpr ordered)
      · have same := at_.symm.trans here
        have scores := (Prod.mk.inj same).2
        rw [is] at scores
        exact absurd closer (not_lt.mpr scores.le)
    exact ⟨m,earlier,by rw [topK_getElem?,if_pos (earlier.trans inside)]; exact List.getElem?_eq_some_iff.mpr ⟨short,at_⟩⟩
  · cases hit

end Ranking

-- A hit is a record of the index, the one its rank says.
theorem search_getElem? (index : InMemoryEncryptedIndex F) (encryptedQuery : EncryptedEmbedding F) (topK n : Nat) :
    (index.search encryptedQuery topK)[n]? =
      (topKBySimilarity encryptedQuery.vector (index.records.map StoredChunk.embedding) topK)[n]?.bind fun (idx,score) =>
        index.records[idx]?.map fun record => (record.encryptedChunk,record.embedding,score) := by
  refine held_getElem? (fun (idx,score) member => ?_) n
  have listed := (ranked_perm _ _).mem_iff.mp (List.mem_of_mem_take member)
  obtain ⟨e,found,_⟩ := mem_scored.mp listed
  rw [List.getElem?_map,Option.map_eq_some_iff] at found
  obtain ⟨record,held,_⟩ := found
  simp [held]

end Distance
end RagCore
