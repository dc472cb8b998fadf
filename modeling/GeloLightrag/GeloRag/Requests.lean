import GeloLightrag.GeloRag.Service

namespace GeloRag
open Foundation Keying RagCore GeloRagTwoPartyService

theorem draw_run {E F : Type} (around : Surroundings E F) (s : GeloRagTwoPartyService E F) (length : Nat) :
    draw around length s = .ok (around.osRng s.drawn length) {s with drawn:=s.drawn + 1} := rfl

theorem embedTexts_ok {E F : Type} {around : Surroundings E F} {s : GeloRagTwoPartyService E F} {embeddings : List (List F)}
    (embedded : (around.embed s.embedder texts).1 = .ok embeddings) :
    embedTexts around texts s = .ok embeddings {s with embedder:=(around.embed s.embedder texts).2} := by
  unfold embedTexts
  simp only [embedded]

theorem embedTexts_error {E F : Type} {around : Surroundings E F} {s : GeloRagTwoPartyService E F} (failed : (around.embed s.embedder texts).1 = .error text) :
    embedTexts around texts s = .error (.inner text) {s with embedder:=(around.embed s.embedder texts).2} := by
  unfold embedTexts
  simp only [failed]

section Requests
variable {E F : Type} [HkdfSha256] [HmacSha256] [AesGcm] [ChaCha20] [Add F] [Sub F] [Mul F] [Div F] [Neg F] [Zero F] [One F]
  [NatCast F] [LinearOrder F] [Elementary F] (around : Surroundings E F) {s : GeloRagTwoPartyService E F} {tenantId : String}

-- What a query answers, from the tenant's secret and index, the embedder and the next draw.
def queryReply (secret : Option Bytes) (index : Option (InMemoryEncryptedIndex F)) (embedder : E) (drawn : Nat)
    (tenantId : String) (userXSk : Bytes) (text : String) (topK : Nat) : Except TwoPartyError (List (RetrievalHit F)) :=
  match secret with
  | none => .error (.unknownTenant tenantId)
  | some teeSk =>
    match (around.embed embedder [text]).1 with
    | .error text => .error (.inner text)
    | .ok [] => .error (.panicked "index out of bounds: the len is 0 but the index is 0")
    | .ok (embedding :: _) =>
      match (sessionKeys around userXSk teeSk tenantId).1.encryptQuery embedding (around.osRng drawn 16) with
      | .error text => .error (.inner text)
      | .ok encryptedQuery =>
        match index with
        | none => .ok []
        | some index =>
          match openHits (sessionKeys (F:=F) around userXSk teeSk tenantId).2 (index.search encryptedQuery topK) with
          | .ok hits => .ok hits
          | .error halted => .error (.ofHalted halted)

-- A query answers so and leaves secrets and indices alone.
theorem queryFor_run (s : GeloRagTwoPartyService E F) (tenantId : String) (userXSk : Bytes) (text : String) (topK : Nat) :
    outcome (queryFor around tenantId userXSk text topK s) =
        queryReply around (s.teeSecrets tenantId) (s.indices tenantId) s.embedder s.drawn tenantId userXSk text topK ∧
      (final (queryFor around tenantId userXSk text topK s)).teeSecrets = s.teeSecrets ∧
      (final (queryFor around tenantId userXSk text topK s)).indices = s.indices := by
  unfold queryFor
  rw [bind_ok (get_run s)]
  cases known : s.teeSecrets tenantId with
  | none => exact ⟨rfl,rfl,rfl⟩
  | some teeSk =>
      simp only [queryReply]
      cases embedded : (around.embed s.embedder [text]).1 with
      | error text => rw [bind_error (embedTexts_error embedded)]; exact ⟨rfl,rfl,rfl⟩
      | ok embeddings =>
          rw [bind_ok (embedTexts_ok embedded)]
          cases embeddings with
          | nil => exact ⟨rfl,rfl,rfl⟩
          | cons embedding others =>
              simp only
              rw [bind_ok (draw_run around _ 16)]
              cases sealed_ : (sessionKeys around userXSk teeSk tenantId).1.encryptQuery embedding (around.osRng s.drawn 16) with
              | error text => exact ⟨rfl,rfl,rfl⟩
              | ok encryptedQuery =>
                  simp only
                  rw [bind_ok (get_run _)]
                  cases held : s.indices tenantId with
                  | none => exact ⟨rfl,rfl,rfl⟩
                  | some index =>
                      simp only
                      cases openHits (sessionKeys (F:=F) around userXSk teeSk tenantId).2 (index.search encryptedQuery topK) with
                      | ok hits => exact ⟨rfl,rfl,rfl⟩
                      | error halted => exact ⟨rfl,rfl,rfl⟩

-- A record of a chunk under the keys of a request.
def Seals (keys : CapriseKey F × Bytes) (chunk : DocumentChunk) (record : StoredChunk F) : Prop :=
  record.chunkId = chunk.id ∧ (∃ nonce, nonce.length = 12 ∧ record.encryptedChunk = encryptChunk keys.2 chunk nonce) ∧
    ∃ embedding nonce, keys.1.encryptDocument embedding nonce = .ok record.embedding

-- A tenant's index grown by records of some chunks, and nothing else of the store touched.
def Grown (tenantId : String) (keys : CapriseKey F × Bytes) (index : InMemoryEncryptedIndex F) (chunks : List DocumentChunk)
    (s s' : GeloRagTwoPartyService E F) : Prop :=
  s'.teeSecrets = s.teeSecrets ∧ ∃ new : List (StoredChunk F), List.Forall₂ (Seals keys) chunks new ∧
    s'.indices = Function.update s.indices tenantId (some ⟨index.records ++ new⟩)

theorem storeChunk_some (keys : CapriseKey F × Bytes) (chunk : DocumentChunk) {embedding : List F} (some_ : embedding ≠ [])
    (held : s.indices tenantId = some index) :
    ∃ s', storeChunk around tenantId keys chunk embedding s = .ok () s' ∧ Grown tenantId keys index [chunk] s s' := by
  obtain ⟨e,sealed_⟩ := encryptDocument_some keys.1 some_ (around.osRng s.drawn 16)
  unfold storeChunk
  rw [bind_ok (draw_run around s 16),sealed_]
  simp only
  rw [bind_ok (draw_run around _ 12)]
  refine ⟨_,rfl,rfl,[⟨chunk.id,encryptChunk keys.2 chunk (around.osRng (s.drawn + 1) 12),e⟩],
    .cons ⟨rfl,⟨_,around.osRng_length _ _,rfl⟩,_,_,sealed_⟩ .nil,?_⟩
  simp [putIndex,entry,held,InMemoryEncryptedIndex.insert,encryptChunk]

theorem storeChunk_nil (keys : CapriseKey F × Bytes) (chunk : DocumentChunk) (s : GeloRagTwoPartyService E F) :
    storeChunk around tenantId keys chunk [] s = .error (.inner "embedding must not be empty") {s with drawn:=s.drawn + 1} := by
  unfold storeChunk
  rw [bind_ok (draw_run around s 16),encryptDocument_nil]
  rfl

theorem Grown.trans (first : Grown tenantId keys index chunks s s') (second : ∀ index', s'.indices tenantId = some index' →
    Grown tenantId keys index' chunks' s' s'') : Grown tenantId keys index (chunks ++ chunks') s s'' := by
  obtain ⟨secrets,new,stored,is⟩ := first
  obtain ⟨secrets',new',stored',is'⟩ := second ⟨index.records ++ new⟩ (by rw [is]; exact Function.update_self ..)
  refine ⟨secrets'.trans secrets,new ++ new',List.rel_append stored stored',?_⟩
  rw [is',is,Function.update_idem,List.append_assoc]

-- Chunks are stored one by one up to the first whose embedding is empty.
theorem storeChunks_ends (keys : CapriseKey F × Bytes) (pairs : List (DocumentChunk × List F)) (held : s.indices tenantId = some index) :
    Ends (storeChunks around tenantId keys pairs) s
      (fun _ s' => (∀ pair ∈ pairs, pair.2 ≠ []) ∧ Grown tenantId keys index (pairs.map Prod.fst) s s')
      (fun _ s' => ∃ before chunk rest, pairs = before ++ (chunk,[]) :: rest ∧ (∀ pair ∈ before, pair.2 ≠ []) ∧
        Grown tenantId keys index (before.map Prod.fst) s s') := by
  induction pairs generalizing s index with
  | nil =>
      refine .ok rfl ⟨fun _ member => absurd member List.not_mem_nil,rfl,[],.nil,?_⟩
      simp [←held]
  | cons pair rest ih =>
      obtain ⟨chunk,embedding⟩ := pair
      by_cases empty : embedding = []
      · subst empty
        refine .error (bind_error (storeChunk_nil around keys chunk s)) ⟨[],chunk,rest,rfl,fun _ member => absurd member List.not_mem_nil,
          rfl,[],.nil,?_⟩
        simp [←held]
      · obtain ⟨s',stored,grown⟩ := storeChunk_some around keys chunk empty held
        obtain ⟨index',next⟩ : ∃ index', s'.indices tenantId = some index' := by
          obtain ⟨_,new,_,is⟩ := grown
          exact ⟨_,by rw [is]; exact Function.update_self ..⟩
        refine .after stored ((ih next).imp (fun _ s'' done => ?_) fun _ s'' failed => ?_)
        · refine ⟨List.forall_mem_cons.mpr ⟨empty,done.1⟩,grown.trans fun index'' held' => ?_⟩
          obtain rfl := Option.some.inj (next.symm.trans held')
          exact done.2
        · obtain ⟨before,chunk',rest',rfl,full,more⟩ := failed
          refine ⟨(chunk,embedding) :: before,chunk',rest',rfl,List.forall_mem_cons.mpr ⟨empty,full⟩,grown.trans fun index'' held' => ?_⟩
          obtain rfl := Option.some.inj (next.symm.trans held')
          exact more

theorem orCreateTeeSecret_run (s : GeloRagTwoPartyService E F) (tenantId : String) :
    ∃ secret drawn, (∀ known, s.teeSecrets tenantId = some known → secret = known) ∧ orCreateTeeSecret around tenantId s =
      .ok secret {s with teeSecrets:=Function.update s.teeSecrets tenantId (some secret),drawn:=drawn} := by
  unfold orCreateTeeSecret
  rw [bind_ok (get_run s)]
  cases held : s.teeSecrets tenantId with
  | some secret =>
      have same : Function.update s.teeSecrets tenantId (some secret) = s.teeSecrets := by rw [←held]; exact Function.update_eq_self ..
      exact ⟨secret,s.drawn,fun known same => Option.some.inj same,by rw [same]; rfl⟩
  | none =>
      refine ⟨around.osRng s.drawn 32,s.drawn + 1,fun known same => (Option.some_ne_none known same.symm).elim,?_⟩
      simp only
      rw [bind_ok (draw_run around s 32)]
      rfl

-- What an ingest adds to its tenant's index.
def Added (tenantId : String) (keys : CapriseKey F × Bytes) (chunks : List DocumentChunk) (s s' : GeloRagTwoPartyService E F) : Prop :=
  ∃ new : List (StoredChunk F), List.Forall₂ (Seals keys) chunks new ∧
    s'.indices = Function.update s.indices tenantId (some ⟨(s.entry tenantId).records ++ new⟩)

-- An ingest names the tenant's secret, whatever comes of it. It stores the chunks that
-- have an embedding, or those before the first empty one.
theorem ingestChunksFor_ends (s : GeloRagTwoPartyService E F) (tenantId : String) (userXSk : Bytes) (chunks : List DocumentChunk) :
    ∃ secret, (∀ known, s.teeSecrets tenantId = some known → secret = known) ∧
      Ends (ingestChunksFor around tenantId userXSk chunks) s
        (fun _ s' => s'.teeSecrets = Function.update s.teeSecrets tenantId (some secret) ∧
          ∃ embeddings, (around.embed s.embedder (chunks.map DocumentChunk.text)).1 = .ok embeddings ∧
            (∀ pair ∈ chunks.zip embeddings, pair.2 ≠ []) ∧
            Added tenantId (sessionKeys around userXSk secret tenantId) ((chunks.zip embeddings).map Prod.fst) s s')
        (fun _ s' => s'.teeSecrets = Function.update s.teeSecrets tenantId (some secret) ∧
          ((∃ text, (around.embed s.embedder (chunks.map DocumentChunk.text)).1 = .error text) ∧ s'.indices = s.indices ∨
            ∃ embeddings before chunk rest, (around.embed s.embedder (chunks.map DocumentChunk.text)).1 = .ok embeddings ∧
              chunks.zip embeddings = before ++ (chunk,[]) :: rest ∧ (∀ pair ∈ before, pair.2 ≠ []) ∧
              Added tenantId (sessionKeys around userXSk secret tenantId) (before.map Prod.fst) s s')) := by
  obtain ⟨secret,drawn,kept,created⟩ := orCreateTeeSecret_run around s tenantId
  refine ⟨secret,kept,.after created ?_⟩
  cases embedded : (around.embed s.embedder (chunks.map DocumentChunk.text)).1 with
  | error text => exact .error (bind_error (embedTexts_error embedded)) ⟨rfl,.inl ⟨⟨text,rfl⟩,rfl⟩⟩
  | ok embeddings =>
      refine .after (embedTexts_ok embedded) (.after (modify_run _ _) ?_)
      refine (storeChunks_ends around (sessionKeys around userXSk secret tenantId) (chunks.zip embeddings)
        (Function.update_self tenantId (some (s.entry tenantId)) s.indices)).imp (fun _ s' done => ?_) fun _ s' failed => ?_
      · obtain ⟨full,secrets,new,stored,is⟩ := done
        exact ⟨secrets,embeddings,rfl,full,new,stored,by rw [is]; exact Function.update_idem ..⟩
      · obtain ⟨before,chunk,rest,split,full,secrets,new,stored,is⟩ := failed
        exact ⟨secrets,.inr ⟨embeddings,before,chunk,rest,rfl,split,full,new,stored,by rw [is]; exact Function.update_idem ..⟩⟩

-- The store as it shows to the calls of a tenant: whether it is known, how many records
-- it has and what each query finds, from whatever state of the embedder and the generator.
structure Alike (tenantId : String) (s s' : GeloRagTwoPartyService E F) : Prop where
  known : s'.tenantKnown tenantId = s.tenantKnown tenantId
  len : s'.indexLenFor tenantId = s.indexLenFor tenantId
  query : ∀ userXSk text topK embedder drawn,
    outcome (queryFor around tenantId userXSk text topK {s' with embedder:=embedder,drawn:=drawn}) =
      outcome (queryFor around tenantId userXSk text topK {s with embedder:=embedder,drawn:=drawn})

theorem Alike.of_same {s' : GeloRagTwoPartyService E F} (secret : s'.teeSecrets tenantId = s.teeSecrets tenantId)
    (index : s'.indices tenantId = s.indices tenantId) : Alike around tenantId s s' := by
  refine ⟨by rw [tenantKnown,tenantKnown,secret],by rw [indexLenFor,indexLenFor,index],fun userXSk text topK embedder drawn => ?_⟩
  rw [(queryFor_run ..).1,(queryFor_run ..).1]
  simp only [secret,index]

-- An empty index shows no more than none.
theorem Alike.of_empty {s' : GeloRagTwoPartyService E F} (secret : s'.teeSecrets tenantId = s.teeSecrets tenantId)
    (index : s'.indices tenantId = some (s.entry tenantId)) : Alike around tenantId s s' := by
  cases held : s.indices tenantId with
  | some known => exact .of_same around secret (by rw [index,held,entry,held]; rfl)
  | none =>
      have blank : s'.indices tenantId = some .empty := by rw [index,entry,held]; rfl
      refine ⟨by rw [tenantKnown,tenantKnown,secret],by rw [indexLenFor,indexLenFor,blank,held]; rfl,
        fun userXSk text topK embedder drawn => ?_⟩
      rw [(queryFor_run ..).1,(queryFor_run ..).1]
      simp only [secret,blank,held,queryReply]
      have nothing : ∀ e : EncryptedEmbedding F, InMemoryEncryptedIndex.empty.search e topK = [] := fun e => by
        rw [InMemoryEncryptedIndex.search,List.filterMap_eq_nil_iff]
        exact fun _ _ => rfl
      simp only [nothing]
      rfl

end Requests
end GeloRag
