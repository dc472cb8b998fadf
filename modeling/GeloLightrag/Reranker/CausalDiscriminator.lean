import GeloLightrag.Foundation.Checked
import GeloLightrag.Foundation.Splitting
import GeloLightrag.Reranker.Rerank

namespace Reranker
open Foundation

-- `inner` is the library's encoder with special tokens recognised, and its ids.
structure HfTokenizer where
  inner : Bytes → Except String (List UInt32)
  truncationCloseToken : Option UInt32

def HfTokenizer.fromFile (inner : Bytes → Except String (List UInt32)) : HfTokenizer := ⟨inner,none⟩

def HfTokenizer.withTruncationToken (tokenizer : HfTokenizer) (id : UInt32) : HfTokenizer :=
  {tokenizer with truncationCloseToken:=some id}

-- Errors are written with their contexts, the outermost first.
def HfTokenizer.encode (tokenizer : HfTokenizer) (text : Bytes) (maxLen : Nat) : Except String (List UInt32) :=
  match tokenizer.inner text with
  | .error e => .error s!"encoding text: tokenizer encode failure: {e}"
  | .ok ids =>
    if ids.length ≤ maxLen then .ok ids
    else
      match tokenizer.truncationCloseToken with
      | none => .ok (ids.take maxLen)
      | some close => .ok ((ids.take maxLen).set (maxLen - 1) close)

def queryMarker : Bytes := ascii "\x7bquery\x7d"
def documentMarker : Bytes := ascii "\x7bdocument\x7d"

def qwen3RerankerTemplate : Bytes := ascii "<|im_start|>system\nJudge whether the Document meets the requirements based on the Query. Answer only \"yes\" or \"no\".<|im_end|>\n<|im_start|>user\n<Query>: \x7bquery\x7d\n<Document>: \x7bdocument\x7d<|im_end|>\n<|im_start|>assistant\n<think>\n\n</think>\n\n"

-- `QWEN3_RERANKER_TEMPLATE.replace("{query}", query).replace("{document}", document)`,
-- which each of the three paths below writes out.
def prompt (query document : Bytes) : Bytes :=
  replaceAll documentMarker document (replaceAll queryMarker query qwen3RerankerTemplate)

inductive ScoringPath where
  | scorePair
  | scoreCandidatesBatched
  | scoreCandidatesParallel
deriving DecidableEq,Repr

def ScoringPath.prompt : ScoringPath → Bytes → RerankCandidate → Bytes
  | .scorePair,query,cand => Reranker.prompt query cand.text
  | .scoreCandidatesBatched,query,cand => Reranker.prompt query cand.text
  | .scoreCandidatesParallel,query,cand => Reranker.prompt query cand.text

-- The forward passes over an executor, which they leave changed, and the clone that a
-- worker runs on, with a stream of draws of its own.
class Forward (X Row : Type) where
  run : X → List UInt32 → Except String (List Row) × X
  runBatched : X → List (List UInt32) → Except String (List (List Row) × List Nat) × X
  cloneOn : X → Nat → X

-- `head` is the softmax of the yes and no logits that a hidden row gives.
structure CausalDiscriminatorRerankService (X Row S : Type) where
  tokenizer : HfTokenizer
  head : Row → S
  exec : X
  maxLen : Nat

-- What a path hands to the forward pass.
def ScoringPath.inputIds {X Row S : Type} (path : ScoringPath) (svc : CausalDiscriminatorRerankService X Row S) (query : Bytes)
    (cand : RerankCandidate) : Except String (List UInt32) :=
  svc.tokenizer.encode (path.prompt query cand) svc.maxLen

namespace CausalDiscriminatorRerankService
variable {X Row S : Type} [Forward X Row]

def scoreRow (svc : CausalDiscriminatorRerankService X Row S) (hidden : List Row) : Except String S :=
  match hidden.getLast? with
  | none => .error "attempt to subtract with overflow"
  | some last => .ok (svc.head last)

def scoreInputIds (svc : CausalDiscriminatorRerankService X Row S) (inputIds : List UInt32) :
    Except String S × CausalDiscriminatorRerankService X Row S :=
  match (Forward.run svc.exec inputIds : Except String (List Row) × X) with
  | (.error e,exec) => (.error e,{svc with exec})
  | (.ok hidden,exec) => (svc.scoreRow hidden,{svc with exec})

def scorePair (svc : CausalDiscriminatorRerankService X Row S) (query : Bytes) (cand : RerankCandidate) :
    Except String S × CausalDiscriminatorRerankService X Row S :=
  match ScoringPath.scorePair.inputIds svc query cand with
  | .error e => (.error e,svc)
  | .ok ids => svc.scoreInputIds ids

def lastValidRow (hidden3d : List (List Row)) (seqLens : List Nat) (b : Nat) : Except String Row :=
  match seqLens[b]? with
  | none => .error "index out of bounds"
  | some 0 => .error "attempt to subtract with overflow"
  | some (before+1) =>
    match hidden3d[b]? with
    | none => .error "slice index out of bounds"
    | some hidden => (hidden[before]?).elim (.error "slice index out of bounds") .ok

def scored (cand : RerankCandidate) (score : S) : ScoredCandidate S := ⟨cand.chunkId,cand.text,score⟩

def scoreCandidatesBatched (svc : CausalDiscriminatorRerankService X Row S) (request : RerankRequest) :
    Except String (List (ScoredCandidate S)) × CausalDiscriminatorRerankService X Row S :=
  match request.candidates.mapM (ScoringPath.scoreCandidatesBatched.inputIds svc request.query) with
  | .error e => (.error e,svc)
  | .ok prompts =>
    if prompts.isEmpty then (.ok [],svc)
    else
      match (Forward.runBatched svc.exec prompts : Except String (List (List Row) × List Nat) × X) with
      | (.error e,exec) => (.error e,{svc with exec})
      | (.ok (hidden3d,seqLens),exec) =>
        (request.candidates.zipIdx.mapM fun (cand,b) => do return scored cand (svc.head (← lastValidRow hidden3d seqLens b)),{svc with exec})

def scoreEach (query : Bytes) : List RerankCandidate → CausalDiscriminatorRerankService X Row S →
    Except String (List (ScoredCandidate S)) × CausalDiscriminatorRerankService X Row S
  | [],svc => (.ok [],svc)
  | cand :: rest,svc =>
    match svc.scorePair query cand with
    | (.error e,next) => (.error e,next)
    | (.ok score,next) =>
      match scoreEach query rest next with
      | (.error e,last) => (.error e,last)
      | (.ok others,last) => (.ok (scored cand score :: others),last)

-- Of several workers' errors the first is taken, where the source's pool may report any.
def scoreCandidatesParallel (svc : CausalDiscriminatorRerankService X Row S) (request : RerankRequest) :
    Except String (List (ScoredCandidate S)) × CausalDiscriminatorRerankService X Row S :=
  if request.candidates.length ≤ 1 then scoreEach request.query request.candidates svc
  else
    (request.candidates.zipIdx.mapM fun (cand,idx) => do
      let ids ← ScoringPath.scoreCandidatesParallel.inputIds svc request.query cand
      let hidden ← (Forward.run (Forward.cloneOn Row svc.exec idx) ids : Except String (List Row) × X).1
      return scored cand (← svc.scoreRow hidden),svc)

-- `forceLegacy` is `GELO_RERANKER_LEGACY_RAYON=1`.
def scoreCandidates (forceLegacy : Bool) (svc : CausalDiscriminatorRerankService X Row S) (request : RerankRequest) :
    Except String (List (ScoredCandidate S)) × CausalDiscriminatorRerankService X Row S :=
  if forceLegacy ∨ request.candidates.length ≤ 1 then svc.scoreCandidatesParallel request else svc.scoreCandidatesBatched request

-- What comes back is the request's candidates, each with its score.
def InOrder (candidates : List RerankCandidate) (scores : List (ScoredCandidate S)) : Prop :=
  scores.map (fun c => (⟨c.chunkId,c.text⟩ : RerankCandidate)) = candidates

theorem numbered_in_order {f : RerankCandidate × Nat → Except String (ScoredCandidate S)} {candidates : List RerankCandidate}
    (ran : candidates.zipIdx.mapM f = .ok scores) (each : ∀ item c, f item = .ok c → c.chunkId = item.1.chunkId ∧ c.text = item.1.text) :
    InOrder candidates scores := by
  have named := mapM_each ran each
  have paired : scores.map (fun c => (⟨c.chunkId,c.text⟩ : RerankCandidate)) = candidates.zipIdx.map Prod.fst := by
    clear ran
    generalize candidates.zipIdx = items at named
    induction named with
    | nil => rfl
    | cons same _ ih => rw [List.map_cons,List.map_cons,ih,same.1,same.2]
  exact paired.trans (List.zipIdx_map_fst 0 candidates)

theorem scoreEach_in_order (svc : CausalDiscriminatorRerankService X Row S) (query : Bytes) (candidates : List RerankCandidate)
    (ran : (scoreEach query candidates svc).1 = .ok scores) : InOrder candidates scores := by
  induction candidates generalizing svc scores with
  | nil =>
      cases ran
      rfl
  | cons cand rest ih =>
      unfold scoreEach at ran
      split at ran
      · cases ran
      · split at ran
        · cases ran
        · rename_i later
          cases ran
          exact congrArg (cand :: ·) (ih _ (congrArg Prod.fst later))

theorem scoreCandidates_in_order (forceLegacy : Bool) (svc : CausalDiscriminatorRerankService X Row S) (request : RerankRequest)
    (ran : (svc.scoreCandidates forceLegacy request).1 = .ok scores) : InOrder request.candidates scores := by
  unfold scoreCandidates at ran
  split at ran
  · unfold scoreCandidatesParallel at ran
    split at ran
    · exact scoreEach_in_order svc _ _ ran
    · refine numbered_in_order ran fun item c made => ?_
      obtain ⟨ids,_,later⟩ := except_bind_ok.mp made
      obtain ⟨hidden,_,later⟩ := except_bind_ok.mp later
      obtain ⟨score,_,same⟩ := except_bind_ok.mp later
      cases same
      exact ⟨rfl,rfl⟩
  · unfold scoreCandidatesBatched at ran
    split at ran
    · cases ran
    · rename_i prompts handed
      split at ran
      · rename_i none_
        cases ran
        rw [List.isEmpty_iff.mp none_] at handed
        exact (List.forall₂_nil_right_iff.mp (mapM_ok_iff.mp handed)).symm
      · split at ran
        · cases ran
        · refine numbered_in_order ran fun item c made => ?_
          obtain ⟨row,_,same⟩ := except_bind_ok.mp made
          cases same
          exact ⟨rfl,rfl⟩

@[reducible] def rerankService (forceLegacy : Bool) : RerankService (CausalDiscriminatorRerankService X Row S) S where
  scoreCandidates svc request := svc.scoreCandidates forceLegacy request
  in_order svc request _ ran := scoreCandidates_in_order forceLegacy svc request ran

end CausalDiscriminatorRerankService
end Reranker
