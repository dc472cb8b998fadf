import GeloLightrag.Foundation.Aead
import GeloLightrag.Foundation.Digest
import GeloLightrag.Foundation.Ranking
import GeloLightrag.Foundation.SeededRng
import GeloLightrag.Foundation.Text

namespace Reranker
open Foundation

-- Texts and ids are the bytes of their strings.
structure RerankCandidate where
  chunkId : Bytes
  text : Bytes
deriving DecidableEq,Repr

structure RerankRequest where
  query : Bytes
  candidates : List RerankCandidate
  topK : Nat
  kMax : Nat
  queryId : Bytes

structure ScoredCandidate (S : Type) where
  chunkId : Bytes
  text : Bytes
  score : S

structure RankedItem where
  rank : Nat
  chunkId : Bytes
  text : Bytes
deriving DecidableEq,Repr

inductive RerankError where
  | forward (text : String)
  | invalidRequest (text : String)
  | aead (what : String)
deriving DecidableEq,Repr

section Scores
variable {S : Type} [PartialCmp S]

-- Only a NaN does not compare with itself.
def isNan (score : S) : Bool := (partialCmp score score).isNone

def byScore (a b : ScoredCandidate S) : Ordering :=
  match isNan a.score,isNan b.score with
  | true,true => .eq
  | true,false => .gt
  | false,true => .lt
  | false,false => cmpOrEqual b.score a.score

-- The runs of equal scores, each shuffled if it has more than one candidate. The
-- fuel is the length of what is left.
def tieShuffle {R : Type} [SeededRng R] : Nat → List (ScoredCandidate S) → R → List (ScoredCandidate S) × R
  | 0,rest,rng => (rest,rng)
  | _+1,[],rng => ([],rng)
  | fuel+1,c :: rest,rng =>
    let same := fun other : ScoredCandidate S => partialCmp other.score c.score == some .eq
    let run := if (rest.takeWhile same).isEmpty then ([c],rng) else SeededRng.shuffle rng (c :: rest.takeWhile same)
    let later := tieShuffle fuel (rest.dropWhile same) run.2
    (run.1 ++ later.1,later.2)

def topKWithTieShuffle {R : Type} [SeededRng R] (scored : List (ScoredCandidate S)) (topK : Nat) (rng : R) : List RankedItem × R :=
  if scored.isEmpty ∨ topK = 0 then ([],rng)
  else
    let shuffled := tieShuffle scored.length (sortBy byScore scored) rng
    ((shuffled.1.take topK).mapIdx fun idx c => ⟨idx % 2 ^ 32,c.chunkId,c.text⟩,shuffled.2)

end Scores

structure EncryptedRerankItem where
  nonce : Bytes
  ciphertext : Bytes
deriving DecidableEq,Repr

structure EncryptedRerankBundle where
  scheme : String
  items : List EncryptedRerankItem
deriving DecidableEq,Repr

inductive RerankPayload where
  | real (rank : Nat) (chunkId text : Bytes)
  | decoy
deriving DecidableEq,Repr

-- A byte of a JSON string.
def escapeByte (b : UInt8) : Bytes :=
  if b = 0x22 then ascii "\\\"" else if b = 0x5c then ascii "\\\\" else if 0x20 ≤ b then [b]
  else if b = 0x08 then ascii "\\b" else if b = 0x09 then ascii "\\t" else if b = 0x0a then ascii "\\n"
  else if b = 0x0c then ascii "\\f" else if b = 0x0d then ascii "\\r" else ascii "\\u00" ++ hexFixed 2 b.toNat

def jsonString (text : Bytes) : Bytes := ascii "\"" ++ text.flatMap escapeByte ++ ascii "\""

-- `serde_json::to_vec` of a payload: the tag, then the fields in order.
def RerankPayload.toJson : RerankPayload → Bytes
  | .real rank chunkId text =>
    ascii "\x7b\"kind\":\"real\",\"rank\":" ++ decimal rank ++ ascii ",\"chunk_id\":" ++ jsonString chunkId ++
      ascii ",\"text\":" ++ jsonString text ++ ascii "\x7d"
  | .decoy => ascii "\x7b\"kind\":\"decoy\"\x7d"

structure SessionKeyPolicy where
  version : String
  sessionSalt : Bytes
  sessionInfo : Bytes
  queryInfo : Bytes

structure SessionKey where
  bytes : Bytes
  policy : SessionKeyPolicy

def SessionKey.deriveQueryKey [HkdfSha256] (session : SessionKey) (queryId : Bytes) : Bytes :=
  HkdfSha256.derive session.bytes queryId session.policy.queryInfo 32

section Seal
variable {R : Type} [SeededRng R] [AesGcm]

def encryptPlain (key plain : Bytes) (rng : R) : EncryptedRerankItem × R :=
  let drawn := SeededRng.fillBytes rng 12
  (⟨drawn.1,AesGcm.encrypt key drawn.1 plain⟩,drawn.2)

def encryptPayload (key : Bytes) (payload : RerankPayload) (rng : R) : EncryptedRerankItem × R :=
  encryptPlain key payload.toJson rng

-- The filler's length is all that is read of it.
def encryptPayloadWithAad (key : Bytes) (payload : RerankPayload) (filler : Bytes) (rng : R) : EncryptedRerankItem × R :=
  let plain := payload.toJson
  encryptPlain key (plain ++ List.replicate (filler.length - plain.length) 0x20) rng

def sealRanked (key : Bytes) : List RankedItem → R → List EncryptedRerankItem × R
  | [],rng => ([],rng)
  | item :: rest,rng =>
    let sealed := encryptPayload key (.real item.rank item.chunkId item.text) rng
    let later := sealRanked key rest sealed.2
    (sealed.1 :: later.1,later.2)

def sealDecoys (key : Bytes) (decoyTextLen : Nat) : Nat → R → List EncryptedRerankItem × R
  | 0,rng => ([],rng)
  | count+1,rng =>
    let filler := SeededRng.fillBytes rng decoyTextLen
    let sealed := encryptPayloadWithAad key .decoy filler.1 filler.2
    let later := sealDecoys key decoyTextLen count sealed.2
    (sealed.1 :: later.1,later.2)

def EncryptedRerankBundle.seal (key : Bytes) (ranked : List RankedItem) (kMax : Nat) (rng : R) (decoyTextLen : Nat) :
    Except RerankError EncryptedRerankBundle :=
  if kMax < ranked.length then
    .error (.invalidRequest s!"ranked.len()={ranked.length} exceeds k_max={kMax}")
  else
    let reals := sealRanked key ranked rng
    let decoys := sealDecoys key decoyTextLen (kMax - ranked.length) reals.2
    .ok ⟨"aes-256-gcm.v1",(SeededRng.shuffle decoys.2 (reals.1 ++ decoys.1)).1⟩

end Seal

-- A service scores candidates, each of the request's in its order.
class RerankService (X S : Type) where
  scoreCandidates : X → RerankRequest → Except String (List (ScoredCandidate S)) × X
  in_order : ∀ service request scored, (scoreCandidates service request).1 = .ok scored →
    scored.map (fun c => (⟨c.chunkId,c.text⟩ : RerankCandidate)) = request.candidates

def decoyLen (request : RerankRequest) : Nat := ((request.candidates.map fun c => c.text.length).max?).getD 64

def rerank {X S : Type} (R : Type) [SeededRng R] [AesGcm] [HkdfSha256] [PartialCmp S] [RerankService X S] (service : X)
    (session : SessionKey) (request : RerankRequest) : Except RerankError EncryptedRerankBundle × X :=
  if request.topK = 0 then (.error (.invalidRequest "top_k must be > 0"),service)
  else if request.kMax < request.topK then
    (.error (.invalidRequest s!"top_k={request.topK} exceeds k_max={request.kMax}"),service)
  else
    match RerankService.scoreCandidates (S:=S) service request with
    | (.error text,next) => (.error (.forward text),next)
    | (.ok scored,next) =>
      let qkey := session.deriveQueryKey request.queryId
      let ranked := topKWithTieShuffle scored request.topK (SeededRng.fromSeed qkey : R)
      (EncryptedRerankBundle.seal qkey ranked.1 request.kMax ranked.2 (decoyLen request),next)

end Reranker
