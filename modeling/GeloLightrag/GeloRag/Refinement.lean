import GeloLightrag.Foundation.Checked
import GeloLightrag.GeloRag.Requests
import Mathlib.Algebra.Order.Field.Basic

namespace GeloRag
open Foundation Keying RagCore GeloRagTwoPartyService

-- The plaintext index of a tenant: none before its first ingest and after a forget.
def noted (tenantId : String) (index : Option (List DocumentChunk)) : Call → Option (List DocumentChunk)
  | .ingestChunksFor other _ chunks => if tenantId = other then some (index.getD [] ++ chunks) else index
  | .queryFor _ _ _ _ => index
  | .forgetTenant other => if tenantId = other then none else index

def since (tenantId : String) (past : List Call) : Option (List DocumentChunk) := past.foldl (noted tenantId) none

-- A caller presents its tenant's own key.
def Presents (users : String → Bytes) : Call → Prop
  | .ingestChunksFor tenantId userXSk _ | .queryFor tenantId userXSk _ _ => userXSk = users tenantId
  | .forgetTenant _ => True

-- The embedder gives every text a vector that is not empty.
def Embeds {E F : Type} (around : Surroundings E F) : Prop :=
  ∀ e texts, ∃ vectors, (around.embed e texts).1 = .ok vectors ∧ vectors.length = texts.length ∧ ∀ vector ∈ vectors, vector ≠ []

theorem outcome_bind {ε σ α β : Type} (x : EStateM ε σ α) (g : α → β) (s : σ) :
    outcome ((do return g (← x) : EStateM ε σ β) s) = (outcome (x s)).map g := by
  show outcome ((x >>= fun a => pure (g a)) s) = _
  cases ran : x s with
  | ok a t => rw [bind_ok ran]; rfl
  | error e t => rw [bind_error ran]; rfl

theorem final_bind {ε σ α β : Type} (x : EStateM ε σ α) (g : α → β) (s : σ) :
    final ((do return g (← x) : EStateM ε σ β) s) = final (x s) := by
  show final ((x >>= fun a => pure (g a)) s) = _
  cases ran : x s with
  | ok a t => rw [bind_ok ran]; rfl
  | error e t => rw [bind_error ran]; rfl

section Runs
variable {E F : Type} [HkdfSha256] [HmacSha256] [AesGcm] [ChaCha20] [Add F] [Sub F] [Mul F] [Div F] [Neg F] [Zero F] [One F]
  [NatCast F] [LinearOrder F] [Elementary F] (around : Surroundings E F) {s : GeloRagTwoPartyService E F} {tenantId : String}

-- The two tables of the service hold the plaintext index of a tenant.
def Tracks (userXSk : Bytes) (tenantId : String) (index : Option (List DocumentChunk)) (s : GeloRagTwoPartyService E F) : Prop :=
  match index with
  | none => s.teeSecrets tenantId = none ∧ s.indices tenantId = none
  | some chunks => ∃ secret stored, s.teeSecrets tenantId = some secret ∧ s.indices tenantId = some stored ∧
      List.Forall₂ (Seals (sessionKeys around userXSk secret tenantId)) chunks stored.records

theorem Tracks.of_same {s' : GeloRagTwoPartyService E F} (tracks : Tracks around userXSk tenantId index s)
    (secrets : s'.teeSecrets tenantId = s.teeSecrets tenantId) (indices : s'.indices tenantId = s.indices tenantId) :
    Tracks around userXSk tenantId index s' := by
  unfold Tracks at tracks ⊢
  rwa [secrets,indices]

-- An ingest that ends well adds its chunks, under the secret the tenant has from now on.
theorem Tracks.ingested {s' : GeloRagTwoPartyService E F} (tracks : Tracks around userXSk tenantId index s)
    (kept : ∀ known, s.teeSecrets tenantId = some known → secret = known)
    (secrets : s'.teeSecrets = Function.update s.teeSecrets tenantId (some secret))
    (added : Added tenantId (sessionKeys around userXSk secret tenantId) chunks s s') :
    Tracks around userXSk tenantId (some (index.getD [] ++ chunks)) s' := by
  obtain ⟨new,stored,indices⟩ := added
  refine ⟨secret,_,by rw [secrets,Function.update_self],by rw [indices,Function.update_self],?_⟩
  cases index with
  | none =>
      have blank : s.entry tenantId = .empty := by rw [entry,tracks.2]; rfl
      rw [blank]
      exact stored
  | some before =>
      obtain ⟨known,held,secret_,index_,sealed_⟩ := tracks
      obtain rfl := kept known secret_
      have there : s.entry tenantId = held := by rw [entry,index_]; rfl
      rw [there]
      exact List.rel_append sealed_ stored

theorem embeds_ingest (embeds : Embeds around) (s : GeloRagTwoPartyService E F) (tenantId : String) (userXSk : Bytes) (chunks : List DocumentChunk) :
    ∃ secret s', (∀ known, s.teeSecrets tenantId = some known → secret = known) ∧ ingestChunksFor around tenantId userXSk chunks s = .ok () s' ∧
      s'.teeSecrets = Function.update s.teeSecrets tenantId (some secret) ∧ Added tenantId (sessionKeys around userXSk secret tenantId) chunks s s' := by
  obtain ⟨secret,kept,ends⟩ := ingestChunksFor_ends around s tenantId userXSk chunks
  obtain ⟨vectors,embedded,long,full⟩ := embeds s.embedder (chunks.map DocumentChunk.text)
  rw [List.length_map] at long
  cases ran : ingestChunksFor around tenantId userXSk chunks s with
  | ok _ s' =>
      obtain ⟨secrets,embeddings,same,_,added⟩ := ends.at_ok ran
      obtain rfl := Except.ok.inj (embedded.symm.trans same)
      rw [List.map_fst_zip (by omega)] at added
      exact ⟨secret,s',kept,rfl,secrets,added⟩
  | error e s' =>
      obtain ⟨_,⟨⟨text,failed⟩,_⟩ | ⟨embeddings,before,chunk,rest,same,split,_⟩⟩ := ends.at_error ran
      · rw [embedded] at failed
        cases failed
      · obtain rfl := Except.ok.inj (embedded.symm.trans same)
        have listed : (chunk,[]) ∈ chunks.zip vectors := by rw [split]; simp
        exact absurd rfl (full [] (List.of_mem_zip listed).2)

-- One call moves the tables as it moves the plaintext index, for every tenant.
theorem tracks_step (embeds : Embeds around) (users : String → Bytes) (call : Call) (presents : Presents users call)
    (tracks : Tracks around (users tenantId) tenantId index s) :
    Tracks around (users tenantId) tenantId (noted tenantId index call) (final (call.perform around s)) := by
  cases call with
  | ingestChunksFor other userXSk chunks =>
      obtain ⟨secret,s',kept,ran,secrets,added⟩ := embeds_ingest around embeds s other userXSk chunks
      have ended : final ((Call.ingestChunksFor other userXSk chunks).perform around s) = s' := by
        rw [Call.perform,bind_ok ran]
        rfl
      rw [ended,noted]
      split
      · rename_i same
        subst same
        cases presents
        exact tracks.ingested around kept secrets added
      · rename_i apart
        obtain ⟨new,_,indices⟩ := added
        exact tracks.of_same around (by rw [secrets,Function.update_of_ne apart]) (by rw [indices,Function.update_of_ne apart])
  | queryFor other userXSk text topK =>
      obtain ⟨_,secrets,indices⟩ := queryFor_run around s other userXSk text topK
      rw [Call.perform,final_bind,noted]
      exact tracks.of_same around (congrFun secrets tenantId) (congrFun indices tenantId)
  | forgetTenant other =>
      rw [noted]
      split
      · rename_i same
        subst same
        exact ⟨Function.update_self ..,Function.update_self ..⟩
      · rename_i apart
        exact tracks.of_same around (Function.update_of_ne apart ..) (Function.update_of_ne apart ..)

theorem tracks_run (embeds : Embeds around) (users : String → Bytes) (embedder : E) (past : List Call)
    (presented : ∀ call ∈ past, Presents users call) (tenantId : String) :
    Tracks around (users tenantId) tenantId (since tenantId past) (after around embedder past) := by
  have from_ : ∀ (calls : List Call) index (s : GeloRagTwoPartyService E F), (∀ call ∈ calls, Presents users call) →
      Tracks around (users tenantId) tenantId index s →
      Tracks around (users tenantId) tenantId (calls.foldl (noted tenantId) index) (calls.foldl (fun s call => final (call.perform around s)) s) := by
    intro calls
    induction calls with
    | nil => exact fun _ _ _ tracks => tracks
    | cons call rest ih =>
        intro index s presented tracks
        obtain ⟨presents,others⟩ := List.forall_mem_cons.mp presented
        exact ih _ _ others (tracks_step around embeds users call presents tracks)
  exact from_ past none _ presented ⟨rfl,rfl⟩

-- Calls of another tenant show nothing to this one, from any state.
theorem others_alike (s : GeloRagTwoPartyService E F) (call : Call) (apart : tenantId ≠ call.tenant) :
    Alike around tenantId s (final (call.perform around s)) := by
  cases call with
  | ingestChunksFor other userXSk chunks =>
      obtain ⟨secret,_,ends⟩ := ingestChunksFor_ends around s other userXSk chunks
      have ended : final ((Call.ingestChunksFor other userXSk chunks).perform around s) =
          final (ingestChunksFor around other userXSk chunks s) := final_bind ..
      replace apart : tenantId ≠ other := apart
      have untouched : ∀ s' : GeloRagTwoPartyService E F, s'.teeSecrets = Function.update s.teeSecrets other (some secret) →
          (∀ chunks, Added other (sessionKeys around userXSk secret other) chunks s s' → Alike around tenantId s s') := by
        rintro s' secrets chunks ⟨new,_,indices⟩
        exact .of_same around (by rw [secrets,Function.update_of_ne apart]) (by rw [indices,Function.update_of_ne apart])
      rw [ended]
      cases ran : ingestChunksFor around other userXSk chunks s with
      | ok _ s' =>
          obtain ⟨secrets,_,_,_,added⟩ := ends.at_ok ran
          exact untouched s' secrets _ added
      | error e s' =>
          obtain ⟨secrets,⟨_,indices⟩ | ⟨_,_,_,_,_,_,_,added⟩⟩ := ends.at_error ran
          · exact .of_same around (by rw [final,secrets,Function.update_of_ne apart]) (congrFun indices tenantId)
          · exact untouched s' secrets _ added
  | queryFor other userXSk text topK =>
      obtain ⟨_,secrets,indices⟩ := queryFor_run around s other userXSk text topK
      rw [Call.perform,final_bind]
      exact .of_same around (congrFun secrets tenantId) (congrFun indices tenantId)
  | forgetTenant other => exact .of_same around (Function.update_of_ne apart ..) (Function.update_of_ne apart ..)

def similarity (encryptedQuery : EncryptedEmbedding F) (records : List (StoredChunk F)) (i : Nat) : F :=
  (records[i]?.map fun record => cosineSimilarity encryptedQuery.vector record.embedding.vector).getD 0

-- The hits of a query over chunks and their records: the most similar first and ties
-- as they came in, each with the id and the text of its chunk.
structure Answered (encryptedQuery : EncryptedEmbedding F) (chunks : List DocumentChunk) (records : List (StoredChunk F)) (topK : Nat)
    (hits : List (RetrievalHit F)) : Prop where
  length : hits.length = min topK chunks.length
  ordered : ∃ order : List Nat, order.Perm (List.range chunks.length) ∧
    order.Pairwise (Stably (fun i j => similarity encryptedQuery records j ≤ similarity encryptedQuery records i) (· < ·)) ∧
    List.Forall₂ (fun i hit => ∃ chunk record, chunks[i]? = some chunk ∧ records[i]? = some record ∧
      hit = ⟨chunk.id,similarity encryptedQuery records i,chunk.text,record.embedding⟩) (order.take topK) hits

theorem mem_ranked {encryptedQuery : EncryptedEmbedding F} {records : List (StoredChunk F)} {place : Nat × F}
    (member : place ∈ RagCore.ranked encryptedQuery.vector (records.map StoredChunk.embedding)) :
    ∃ record, records[place.1]? = some record ∧ place.2 = similarity encryptedQuery records place.1 := by
  obtain ⟨e,found,is⟩ := mem_scored.mp ((ranked_perm _ _).mem_iff.mp member)
  rw [List.getElem?_map,Option.map_eq_some_iff] at found
  obtain ⟨record,held,rfl⟩ := found
  exact ⟨record,held,by rw [is,similarity,held]; rfl⟩

theorem openHits_search {keys : CapriseKey F × Bytes} {index : InMemoryEncryptedIndex F} (sealed_ : List.Forall₂ (Seals keys) chunks index.records)
    (encryptedQuery : EncryptedEmbedding F) (topK : Nat) :
    ∃ hits, openHits keys.2 (index.search encryptedQuery topK) = .ok hits ∧ Answered encryptedQuery chunks index.records topK hits := by
  have long := sealed_.length_eq
  have perm : ((RagCore.ranked encryptedQuery.vector (index.records.map StoredChunk.embedding)).map Prod.fst).Perm (List.range chunks.length) := by
    refine ((ranked_perm _ _).map Prod.fst).trans ?_
    rw [scored_places,List.length_map,long]
  obtain ⟨hits,opened,listed⟩ := mapM_held (ε:=Halted String) (R:=fun (place : Nat × F) (hit : RetrievalHit F) => ∃ chunk record,
      chunks[place.1]? = some chunk ∧ index.records[place.1]? = some record ∧
        hit = ⟨chunk.id,similarity encryptedQuery index.records place.1,chunk.text,record.embedding⟩)
    (p:=fun place => index.records[place.1]?.map fun record => (record.encryptedChunk,record.embedding,place.2))
    (f:=fun found => (decryptChunk keys.2 found.1).map fun chunk => (⟨chunk.id,found.2.2,chunk.text,found.2.1⟩ : RetrievalHit F))
    (topKBySimilarity encryptedQuery.vector (index.records.map StoredChunk.embedding) topK) fun place member => by
      obtain ⟨record,held,is⟩ := mem_ranked (List.mem_of_mem_take member)
      obtain ⟨chunk,stored,_,⟨nonce,full,encrypted⟩,_⟩ := paired sealed_ held
      refine ⟨(record.encryptedChunk,record.embedding,place.2),_,by simp only [held]; rfl,?_,chunk,record,stored,held,by rw [←is]⟩
      simp only [encrypted,decryptChunk_encryptChunk _ _ full]
      rfl
  refine ⟨hits,opened,?_,_,perm,?_,?_⟩
  · have places := perm.length_eq
    rw [List.length_map,List.length_range] at places
    rw [←listed.length_eq,←places]
    exact List.length_take
  · refine List.pairwise_map.mpr (List.Pairwise.imp_of_mem (fun first second stable => ?_) (ranked_stable _ _))
    obtain ⟨_,_,score⟩ := mem_ranked first
    obtain ⟨_,_,score'⟩ := mem_ranked second
    rw [Stably,score,score'] at stable
    exact stable
  · rw [←List.map_take,List.forall₂_map_left_iff]
    exact listed

-- The encrypted query of a text under the keys of a tenant.
def Asks (s : GeloRagTwoPartyService E F) (tenantId : String) (userXSk : Bytes) (text : String)
    (encryptedQuery : EncryptedEmbedding F) : Prop :=
  ∃ secret embedding others nonce, s.teeSecrets tenantId = some secret ∧ (around.embed s.embedder [text]).1 = .ok (embedding :: others) ∧
    (sessionKeys around userXSk secret tenantId).1.encryptQuery embedding nonce = .ok encryptedQuery

-- What a known tenant is answered.
theorem query_known (embeds : Embeds around) (tracks : Tracks around userXSk tenantId (some chunks) s) (text : String) (topK : Nat) :
    ∃ stored encryptedQuery hits, s.indices tenantId = some stored ∧
      Asks around s tenantId userXSk text encryptedQuery ∧ outcome (queryFor around tenantId userXSk text topK s) = .ok hits ∧ Answered encryptedQuery chunks stored.records topK hits := by
  obtain ⟨secret,stored,known,held,sealed_⟩ := tracks
  obtain ⟨vectors,embedded,long,full⟩ := embeds s.embedder [text]
  cases vectors with
  | nil => cases long
  | cons embedding others =>
      obtain ⟨e,asked⟩ := encryptQuery_some (sessionKeys around userXSk secret tenantId).1 (full embedding List.mem_cons_self) (around.osRng s.drawn 16)
      obtain ⟨hits,opened,answered⟩ := openHits_search sealed_ e topK
      refine ⟨stored,e,hits,held,⟨secret,embedding,others,_,known,embedded,asked⟩,?_,answered⟩
      rw [(queryFor_run ..).1]
      simp only [queryReply,known,held,embedded,asked,opened]

end Runs

section Refines
variable {E F : Type} [HkdfSha256] [HmacSha256] [AesGcm] [ChaCha20] [Add F] [Sub F] [Mul F] [Div F] [Neg F] [Zero F] [One F]
  [NatCast F] [LinearOrder F] [Elementary F]

-- What a query, the length and the other tenants see after some calls.
def Refines (around : Surroundings E F) (users : String → Bytes) (embedder : E) (past : List Call) : Prop :=
  (∀ tenantId text topK, match since tenantId past with
    | none => reply around embedder past (.queryFor tenantId (users tenantId) text topK) = .error (.unknownTenant tenantId)
    | some chunks => ∃ stored encryptedQuery hits, (after around embedder past).indices tenantId = some stored ∧
        Asks around (after around embedder past) tenantId (users tenantId) text encryptedQuery ∧
        reply around embedder past (.queryFor tenantId (users tenantId) text topK) = .ok (.hits hits) ∧
        Answered encryptedQuery chunks stored.records topK hits) ∧
    (∀ tenantId, (after around embedder past).indexLenFor tenantId = ((since tenantId past).map List.length).getD 0) ∧
    ∀ call tenantId, tenantId ≠ call.tenant → Alike around tenantId (after around embedder past) (after around embedder (past ++ [call]))

-- The service is one plaintext index for each tenant.
theorem refines_tenant_indices (around : Surroundings E F) (embeds : Embeds around) (users : String → Bytes) (embedder : E)
    (past : List Call) (presented : ∀ call ∈ past, Presents users call) : Refines around users embedder past := by
  refine ⟨fun tenantId text topK => ?_,fun tenantId => ?_,fun call tenantId apart => ?_⟩
  · have tracks := tracks_run around embeds users embedder past presented tenantId
    rw [reply,Call.perform,outcome_bind]
    cases known : since tenantId past with
    | none =>
        rw [known] at tracks
        rw [(queryFor_run ..).1]
        simp only [queryReply,tracks.1]
        rfl
    | some chunks =>
        rw [known] at tracks
        obtain ⟨stored,e,hits,held,asks,answer,answered⟩ := query_known around embeds tracks text topK
        exact ⟨stored,e,hits,held,asks,by rw [answer]; rfl,answered⟩
  · have tracks := tracks_run around embeds users embedder past presented tenantId
    rw [indexLenFor]
    cases known : since tenantId past with
    | none =>
        rw [known] at tracks
        rw [tracks.2]
        rfl
    | some chunks =>
        rw [known] at tracks
        obtain ⟨_,stored,_,held,sealed_⟩ := tracks
        rw [held]
        exact sealed_.length_eq.symm
  · rw [after,after,List.foldl_append]
    exact others_alike around _ call apart

end Refines

-- Surroundings whose embedder gives every text the same vector.
def plainSurroundings : Surroundings Unit Int := ⟨fun _ texts => (.ok (texts.map fun _ => [1]),()),⟨1,1⟩,.v1,fun _ length => List.replicate length 0,zeros_length⟩

theorem refines_two_tenants :
    @Refines Unit Int .joined .joined .framed .counting _ _ _ _ _ _ _ _ _ .integral plainSurroundings (fun _ => []) ()
      [.ingestChunksFor "a" [] [⟨"1","x"⟩,⟨"1","y"⟩],.forgetTenant "a",.ingestChunksFor "b" [] [⟨"1","z"⟩]] :=
  @refines_tenant_indices Unit Int .joined .joined .framed .counting _ _ _ _ _ _ _ _ _ .integral plainSurroundings
    (fun _ texts => ⟨texts.map fun _ => [1],rfl,List.length_map _,fun vector member => by
      obtain ⟨_,_,rfl⟩ := List.mem_map.mp member
      exact List.cons_ne_nil _ _⟩)
    (fun _ => []) () _ (by
      intro call member
      rcases List.mem_cons.mp member with rfl | member
      · rfl
      · rcases List.mem_cons.mp member with rfl | member
        · trivial
        · rcases List.mem_singleton.mp member with rfl
          rfl)

end GeloRag
