import GeloLightrag.Foundation.Machine
import GeloLightrag.Keying.TwoPartyKdf
import GeloLightrag.RagCore.Storage
import Mathlib.Logic.Function.Basic

namespace GeloRag
open Foundation Keying RagCore

structure SchemeParams (F : Type) where
  scale : F
  beta : F

-- What a service stands on and never changes: the embedder, whose calls may change
-- its own state, its parameters, and the operating system's generator, of which
-- the n-th draw of some length is fixed.
structure Surroundings (E F : Type) where
  embed : E → List String → Except String (List (List F)) × E
  schemeParams : SchemeParams F
  hkdfPolicy : HkdfPolicy
  osRng : Nat → Nat → Bytes
  osRng_length : ∀ drawn length, (osRng drawn length).length = length

theorem zeros_length (_ length : Nat) : (List.replicate length (0 : UInt8)).length = length := List.length_replicate

inductive TwoPartyError where
  | unknownTenant (tenantId : String)
  | inner (text : String)
  | panicked (text : String)
deriving DecidableEq,Repr

def TwoPartyError.ofHalted : Halted String → TwoPartyError
  | .error text => .inner text
  | .panic text => .panicked text

structure RetrievalHit (F : Type) where
  id : String
  score : F
  text : String
  embedding : EncryptedEmbedding F
deriving DecidableEq

structure GeloRagTwoPartyService (E F : Type) where
  embedder : E
  teeSecrets : String → Option Bytes
  indices : String → Option (InMemoryEncryptedIndex F)
  drawn : Nat

def GeloRagTwoPartyService.new {E F : Type} (embedder : E) : GeloRagTwoPartyService E F := ⟨embedder,fun _ => none,fun _ => none,0⟩

abbrev ServiceM (E F : Type) := EStateM TwoPartyError (GeloRagTwoPartyService E F)

namespace GeloRagTwoPartyService
variable {E F : Type}

def tenantKnown (service : GeloRagTwoPartyService E F) (tenantId : String) : Bool := (service.teeSecrets tenantId).isSome

def indexLenFor (service : GeloRagTwoPartyService E F) (tenantId : String) : Nat :=
  ((service.indices tenantId).map InMemoryEncryptedIndex.len).getD 0

-- `indices.entry(tenant_id).or_default()`, and what is put there.
def entry (service : GeloRagTwoPartyService E F) (tenantId : String) : InMemoryEncryptedIndex F :=
  (service.indices tenantId).getD .empty

def putIndex (service : GeloRagTwoPartyService E F) (tenantId : String) (index : InMemoryEncryptedIndex F) : GeloRagTwoPartyService E F :=
  {service with indices:=Function.update service.indices tenantId (some index)}

def forgetTenant (tenantId : String) : ServiceM E F Unit := modify fun s =>
  {s with teeSecrets:=Function.update s.teeSecrets tenantId none,indices:=Function.update s.indices tenantId none}

variable (around : Surroundings E F)

def draw (length : Nat) : ServiceM E F Bytes := fun s => .ok (around.osRng s.drawn length) {s with drawn:=s.drawn + 1}

def orCreateTeeSecret (tenantId : String) : ServiceM E F Bytes := do
  match (← get).teeSecrets tenantId with
  | some secret => return secret
  | none =>
    let secret ← draw around 32
    modify fun s => {s with teeSecrets:=Function.update s.teeSecrets tenantId (some secret)}
    return secret

def embedTexts (texts : List String) : ServiceM E F (List (List F)) := fun s =>
  let out := around.embed s.embedder texts
  match out.1 with
  | .ok embeddings => .ok embeddings {s with embedder:=out.2}
  | .error text => .error (.inner text) {s with embedder:=out.2}

section Requests
variable [HkdfSha256] [HmacSha256] [AesGcm] [ChaCha20] [Add F] [Sub F] [Mul F] [Div F] [Neg F] [Zero F] [One F] [NatCast F]
  [LinearOrder F] [Elementary F]

-- The scheme's key and the chunk key of one request.
def sessionKeys (userXSk teeSk : Bytes) (tenantId : String) : CapriseKey F × Bytes :=
  let derived := around.hkdfPolicy.derive userXSk teeSk tenantId
  (⟨around.schemeParams.scale,around.schemeParams.beta,derived.1⟩,derived.2)

def storeChunk (tenantId : String) (keys : CapriseKey F × Bytes) (chunk : DocumentChunk) (embedding : List F) : ServiceM E F Unit := do
  let nonce ← draw around 16
  match keys.1.encryptDocument embedding nonce with
  | .error text => throw (.inner text)
  | .ok encrypted =>
    let chunkNonce ← draw around 12
    modify fun s => s.putIndex tenantId ((s.entry tenantId).insert (encryptChunk keys.2 chunk chunkNonce) encrypted)

-- `for (chunk, embedding) in chunks.into_iter().zip(embeddings)`
def storeChunks (tenantId : String) (keys : CapriseKey F × Bytes) : List (DocumentChunk × List F) → ServiceM E F Unit
  | [] => return
  | (chunk,embedding) :: rest => do
    storeChunk around tenantId keys chunk embedding
    storeChunks tenantId keys rest

def ingestChunksFor (tenantId : String) (userXSk : Bytes) (chunks : List DocumentChunk) : ServiceM E F Unit := do
  let teeSk ← orCreateTeeSecret around tenantId
  let embeddings ← embedTexts around (chunks.map DocumentChunk.text)
  modify fun s => s.putIndex tenantId (s.entry tenantId)
  storeChunks around tenantId (sessionKeys around userXSk teeSk tenantId) (chunks.zip embeddings)

-- The hits of a search with their texts, or the first that does not open.
def openHits (aesKey : Bytes) (found : List (ChunkCiphertext × EncryptedEmbedding F × F)) : Except (Halted String) (List (RetrievalHit F)) :=
  found.mapM fun (encrypted,embedding,score) => (decryptChunk aesKey encrypted).map fun chunk => ⟨chunk.id,score,chunk.text,embedding⟩

def queryFor (tenantId : String) (userXSk : Bytes) (text : String) (topK : Nat) : ServiceM E F (List (RetrievalHit F)) := do
  match (← get).teeSecrets tenantId with
  | none => throw (.unknownTenant tenantId)
  | some teeSk =>
    let keys := sessionKeys around userXSk teeSk tenantId
    match ← embedTexts around [text] with
    | [] => throw (.panicked "index out of bounds: the len is 0 but the index is 0")
    | embedding :: _ =>
      let nonce ← draw around 16
      match keys.1.encryptQuery embedding nonce with
      | .error text => throw (.inner text)
      | .ok encryptedQuery =>
        match (← get).indices tenantId with
        | none => return []
        | some index =>
          match openHits keys.2 (index.search encryptedQuery topK) with
          | .ok hits => return hits
          | .error halted => throw (.ofHalted halted)

end Requests
end GeloRagTwoPartyService

inductive Call where
  | ingestChunksFor (tenantId : String) (userXSk : Bytes) (chunks : List DocumentChunk)
  | queryFor (tenantId : String) (userXSk : Bytes) (text : String) (topK : Nat)
  | forgetTenant (tenantId : String)

inductive Reply (F : Type) where
  | done
  | hits (hits : List (RetrievalHit F))

def Call.tenant : Call → String
  | .ingestChunksFor tenantId _ _ | .queryFor tenantId _ _ _ | .forgetTenant tenantId => tenantId

def outcome {ε σ α : Type} : EStateM.Result ε σ α → Except ε α
  | .ok a _ => .ok a
  | .error e _ => .error e

def final {ε σ α : Type} : EStateM.Result ε σ α → σ
  | .ok _ s | .error _ s => s

section Calls
variable {E F : Type} [HkdfSha256] [HmacSha256] [AesGcm] [ChaCha20] [Add F] [Sub F] [Mul F] [Div F] [Neg F] [Zero F] [One F]
  [NatCast F] [LinearOrder F] [Elementary F] (around : Surroundings E F)

def Call.perform : Call → ServiceM E F (Reply F)
  | .ingestChunksFor tenantId userXSk chunks => do
    GeloRagTwoPartyService.ingestChunksFor around tenantId userXSk chunks
    return .done
  | .queryFor tenantId userXSk text topK => do return .hits (← GeloRagTwoPartyService.queryFor around tenantId userXSk text topK)
  | .forgetTenant tenantId => do
    GeloRagTwoPartyService.forgetTenant tenantId
    return .done

-- The service after some calls, whether they failed or not.
def after (embedder : E) (past : List Call) : GeloRagTwoPartyService E F :=
  past.foldl (fun s call => final (call.perform around s)) (.new embedder)

def reply (embedder : E) (past : List Call) (call : Call) : Except TwoPartyError (Reply F) :=
  outcome (call.perform around (after around embedder past))

end Calls
end GeloRag
