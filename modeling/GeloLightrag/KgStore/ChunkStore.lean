import GeloLightrag.Foundation.Digest
import GeloLightrag.Foundation.HashTable
import GeloLightrag.KgStore.Types
import GeloLightrag.RagCore.Storage

namespace KgStore
open Foundation RagCore

inductive ChunkStoreError where
  | notFound (id : String)
  | aead (text : String)
deriving DecidableEq,Repr

structure Encrypted where
  nonce : Bytes
  ciphertext : Bytes
deriving DecidableEq

structure AesChunkStore where
  key : Bytes
  entries : HashTable String Encrypted

def deriveNonce [Sha256] (chunkId : String) : Bytes := (Sha256.digest (utf8 chunkId)).take 12

theorem fromUtf8_utf8 (text : String) : fromUtf8 (utf8 text) = some text := by
  have whole : (⟨(utf8 text).toArray⟩ : ByteArray) = text.toByteArray := by
    rw [utf8,String.toUTF8_eq_toByteArray,Array.toArray_toList]
  rw [fromUtf8,whole,String.fromUTF8?,dif_pos text.isValidUTF8]
  rfl

namespace AesChunkStore
variable {F : Type} [Sha256] [AesGcm]

def new (key : Bytes) : AesChunkStore := ⟨key,[]⟩

def put (store : AesChunkStore) (c : Chunk F) : AesChunkStore :=
  let nonce := deriveNonce c.id
  {store with entries:=store.entries.insert c.id ⟨nonce,AesGcm.encrypt store.key nonce (utf8 c.text)⟩}

-- No chunk is too long for the cipher.
def putAll (store : AesChunkStore) (chunks : List (Chunk F)) : AesChunkStore := chunks.foldl put store

def get (store : AesChunkStore) (id : String) : Except ChunkStoreError String :=
  match store.entries.get id with
  | none => .error (.notFound id)
  | some rec =>
    match AesGcm.decrypt store.key rec.nonce rec.ciphertext with
    | none => .error (.aead ("decrypt " ++ id ++ ": aead::Error"))
    | some pt => (fromUtf8 pt).elim (.error (.aead ("utf8 " ++ id))) .ok

theorem putAll_append (store : AesChunkStore) (chunks : List (Chunk F)) (c : Chunk F) :
    putAll store (chunks ++ [c]) = put (putAll store chunks) c := by
  unfold putAll
  rw [List.foldl_append]
  rfl

-- What a chunk's id gives is the text of the last chunk that has it.
theorem get_putAll (key : Bytes) (chunks : List (Chunk F)) (id : String) :
    (putAll (new key) chunks).get id = ((chunks.reverse.find? fun c => decide (c.id = id)).map Chunk.text).elim (.error (.notFound id)) .ok := by
  have own : ∀ chunks : List (Chunk F), (putAll (new key) chunks).key = key := by
    intro chunks
    induction chunks using List.reverseRecOn with
    | nil => rfl
    | append_singleton chunks c ih => rw [putAll_append]; exact ih
  induction chunks using List.reverseRecOn with
  | nil => rfl
  | append_singleton chunks c ih =>
      rw [putAll_append,List.reverse_append,List.reverse_singleton,List.singleton_append]
      unfold put get
      by_cases same : c.id = id
      · subst same
        rw [List.find?_cons_of_pos (by simp)]
        simp [fromUtf8_utf8]
      · rw [List.find?_cons_of_neg (by simpa using same),←ih]
        unfold get
        simp only [HashTable.get_insert_of_ne fun again => same again.symm,own]

end AesChunkStore
end KgStore
