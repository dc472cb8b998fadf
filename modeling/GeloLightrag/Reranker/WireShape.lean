import GeloLightrag.Reranker.Rerank

namespace Reranker
open Foundation

-- What the host sees of a bundle's items.
def EncryptedRerankBundle.shape (bundle : EncryptedRerankBundle) : List (Nat × Nat) :=
  bundle.items.map fun item => (item.nonce.length,item.ciphertext.length)

def SameShape (kMax : Nat) (bundle bundle' : EncryptedRerankBundle) : Prop :=
  bundle.scheme = bundle'.scheme ∧ bundle.items.length = kMax ∧ bundle'.items.length = kMax ∧ bundle.shape.Perm bundle'.shape

-- Nothing in the text needs escaping.
def Plain (text : Bytes) : Prop := ∀ b ∈ text, 0x20 ≤ b ∧ b ≠ 0x22 ∧ b ≠ 0x5c

instance (text : Bytes) : Decidable (Plain text) := inferInstanceAs (Decidable (∀ b ∈ text, _))

section Ranking
variable {S R : Type} [PartialCmp S] [SeededRng R]

theorem run_perm {S : Type} (c : ScoredCandidate S) (others : List (ScoredCandidate S)) (rng : R) :
    (if others.isEmpty then ([c],rng) else SeededRng.shuffle rng (c :: others)).1.Perm (c :: others) := by
  split
  · rename_i alone
    rw [List.isEmpty_iff.mp alone]
  · exact SeededRng.shuffle_perm _ _

theorem tieShuffle_perm (fuel : Nat) (scored : List (ScoredCandidate S)) (rng : R) : (tieShuffle fuel scored rng).1.Perm scored := by
  induction fuel generalizing scored rng with
  | zero => exact .refl _
  | succ fuel ih =>
      cases scored with
      | nil => exact .refl _
      | cons c rest =>
          simp only [tieShuffle]
          generalize (fun other : ScoredCandidate S => partialCmp other.score c.score == some .eq) = same
          have whole : c :: rest = (c :: rest.takeWhile same) ++ rest.dropWhile same := by
            rw [List.cons_append,List.takeWhile_append_dropWhile]
          rw [whole]
          exact (run_perm c _ rng).append (ih _ _)

-- The ranks are the positions, of as many candidates as are kept.
theorem topK_ranks (scored : List (ScoredCandidate S)) (topK : Nat) (rng : R) :
    (topKWithTieShuffle scored topK rng).1.map RankedItem.rank = (List.range (min topK scored.length)).map (· % 2 ^ 32) := by
  unfold topKWithTieShuffle
  split
  · rename_i none
    rcases none with none | none
    · simp [List.isEmpty_iff.mp none]
    · simp [none]
  · have whole := ((tieShuffle_perm scored.length (sortBy byScore scored) rng).trans (sortBy_perm byScore scored)).length_eq
    refine List.ext_getElem (by simp [whole]) fun i _ _ => ?_
    simp

theorem topK_from (scored : List (ScoredCandidate S)) (topK : Nat) (rng : R) :
    ∀ item ∈ (topKWithTieShuffle scored topK rng).1, ∃ c ∈ scored, item.chunkId = c.chunkId ∧ item.text = c.text := by
  unfold topKWithTieShuffle
  split
  · exact fun item member => absurd member List.not_mem_nil
  · intro item member
    obtain ⟨idx,inside,rfl⟩ := List.mem_mapIdx.mp member
    have kept := List.mem_of_mem_take (List.getElem_mem inside)
    exact ⟨_,(sortBy_perm byScore scored).mem_iff.mp ((tieShuffle_perm _ _ rng).mem_iff.mp kept),rfl,rfl⟩

end Ranking

theorem plain_escape (plain : Plain text) : text.flatMap escapeByte = text := by
  induction text with
  | nil => rfl
  | cons b rest ih =>
      obtain ⟨printable,quote,slash⟩ := plain b List.mem_cons_self
      rw [List.flatMap_cons,ih fun other member => plain other (List.mem_cons_of_mem _ member)]
      simp [escapeByte,printable,quote,slash]

-- The bytes of a real payload around its rank, id and text, and of a decoy.
def envelope : Nat := (RerankPayload.toJson (.real 0 [] [])).length - (decimal 0).length

theorem real_length (rank : Nat) (plainId : Plain chunkId) (plainText : Plain text) :
    (RerankPayload.toJson (.real rank chunkId text)).length = envelope + (decimal rank).length + chunkId.length + text.length := by
  have short : (decimal 0).length = 1 := by decide
  simp only [envelope,RerankPayload.toJson,jsonString,plain_escape plainId,plain_escape plainText,List.flatMap_nil,
    List.length_append,List.length_nil,short]
  omega

theorem decoy_shorter : (RerankPayload.toJson .decoy).length < envelope := by decide

section Sealing
variable {R : Type} [SeededRng R] [AesGcm]

-- A shape with the text's tag taken off.
def Sized (tag : Nat) (items : List EncryptedRerankItem) (lengths : List Nat) : Prop :=
  items.map (fun item => (item.nonce.length,item.ciphertext.length)) = lengths.map fun n => (12,n + tag)

theorem encryptPlain_sized (overhead : ∀ key nonce p : Bytes, (AesGcm.encrypt key nonce p).length = p.length + tag) (key plain : Bytes) (rng : R) :
    Sized tag [(encryptPlain key plain rng).1] [plain.length] := by
  simp [Sized,encryptPlain,SeededRng.fillBytes_length,overhead]

theorem sealRanked_sized (overhead : ∀ key nonce p : Bytes, (AesGcm.encrypt key nonce p).length = p.length + tag) (key : Bytes)
    (ranked : List RankedItem) (rng : R) :
    Sized tag (sealRanked key ranked rng).1
      (ranked.map fun item => (RerankPayload.toJson (.real item.rank item.chunkId item.text)).length) := by
  induction ranked generalizing rng with
  | nil => rfl
  | cons item rest ih =>
      simp only [sealRanked,encryptPayload,Sized,List.map_cons,List.cons.injEq]
      exact ⟨by simpa [Sized] using encryptPlain_sized overhead key (RerankPayload.real item.rank item.chunkId item.text).toJson rng,ih _⟩

theorem sealDecoys_sized (overhead : ∀ key nonce p : Bytes, (AesGcm.encrypt key nonce p).length = p.length + tag) (key : Bytes)
    (decoyTextLen count : Nat) (rng : R) :
    Sized tag (sealDecoys key decoyTextLen count rng).1
      (List.replicate count (max (RerankPayload.toJson .decoy).length decoyTextLen)) := by
  induction count generalizing rng with
  | zero => rfl
  | succ count ih =>
      simp only [sealDecoys,Sized,List.map_cons,List.replicate_succ,List.cons.injEq]
      refine ⟨?_,ih _⟩
      have sized := encryptPlain_sized overhead key (RerankPayload.decoy.toJson ++
        List.replicate ((SeededRng.fillBytes rng decoyTextLen).1.length - RerankPayload.decoy.toJson.length) 0x20)
        (SeededRng.fillBytes rng decoyTextLen).2
      simp only [Sized,List.map_cons,List.map_nil,List.length_append,List.length_replicate,SeededRng.fillBytes_length,
        List.cons.injEq,and_true] at sized
      rw [encryptPayloadWithAad,SeededRng.fillBytes_length,sized]
      congr 1
      omega

end Sealing

-- The lengths of the plaintexts of a bundle that keeps so many candidates.
def lengthsOf (idLen textLen decoyTextLen kMax kept : Nat) : List Nat :=
  ((List.range kept).map fun i => envelope + (decimal (i % 2 ^ 32)).length + idLen + textLen) ++
    List.replicate (kMax - kept) (max (RerankPayload.toJson .decoy).length decoyTextLen)

structure Uniform (idLen textLen : Nat) (request : RerankRequest) : Prop where
  ids : ∀ c ∈ request.candidates, c.chunkId.length = idLen ∧ Plain c.chunkId
  texts : ∀ c ∈ request.candidates, c.text.length = textLen ∧ Plain c.text

theorem decoyLen_of (uniform : Uniform idLen textLen request) :
    decoyLen request = if request.candidates = [] then 64 else textLen := by
  unfold decoyLen
  cases listed : request.candidates with
  | nil => rfl
  | cons c rest =>
      have each : ∀ n ∈ (c :: rest).map fun c => c.text.length, n = textLen := by
        intro n member
        obtain ⟨d,inside,rfl⟩ := List.mem_map.mp member
        exact (uniform.texts d (by rw [listed]; exact inside)).1
      rw [if_neg (List.cons_ne_nil _ _)]
      cases most : ((c :: rest).map fun c => c.text.length).max? with
      | none => simp at most
      | some n => exact each n (List.max?_mem most)

-- The decoys are the shortest items, so that their number can be read off.
theorem kept_of_shape (sized : decoyTextLen ≤ textLen ∨ kept = 0 ∧ kept' = 0) (bound : kept ≤ kMax) (bound' : kept' ≤ kMax)
    (same : ((lengthsOf idLen textLen decoyTextLen kMax kept).map fun n => (12,n + tag)).Perm
      ((lengthsOf idLen textLen decoyTextLen kMax kept').map fun n => (12,n + tag))) : kept = kept' := by
  rcases sized with smaller | ⟨none,none'⟩
  · have counts := same.count_eq (12,max (RerankPayload.toJson .decoy).length decoyTextLen + tag)
    have total : ∀ k, ((lengthsOf idLen textLen decoyTextLen kMax k).map fun n => (12,n + tag)).count
        (12,max (RerankPayload.toJson .decoy).length decoyTextLen + tag) = kMax - k := by
      intro k
      have apart : (12,max (RerankPayload.toJson .decoy).length decoyTextLen + tag) ∉
          ((List.range k).map fun i => envelope + (decimal (i % 2 ^ 32)).length + idLen + textLen).map fun n => (12,n + tag) := by
        intro member
        simp only [List.mem_map] at member
        obtain ⟨_,⟨i,_,rfl⟩,equal⟩ := member
        have positive := decimal_length_pos (i % 2 ^ 32)
        have shorter := decoy_shorter
        simp only [Prod.mk.injEq,true_and] at equal
        omega
      unfold lengthsOf
      rw [List.map_append,List.count_append,List.count_eq_zero.mpr apart,List.map_replicate,List.count_replicate_self,Nat.zero_add]
    rw [total,total] at counts
    omega
  · rw [none,none']

section Service
variable {X S R : Type} [SeededRng R] [AesGcm] [HkdfSha256] [PartialCmp S] [RerankService X S]

omit [AesGcm] [HkdfSha256] in
theorem Uniform.ranked (uniform : Uniform idLen textLen request) {service : X} {scored : List (ScoredCandidate S)} {next : X}
    (scores : RerankService.scoreCandidates service request = (.ok scored,next)) (rng : R) :
    (topKWithTieShuffle scored request.topK rng).1.map (fun item => (RerankPayload.toJson (.real item.rank item.chunkId item.text)).length) =
      (List.range (min request.topK request.candidates.length)).map
        fun i => envelope + (decimal (i % 2 ^ 32)).length + idLen + textLen := by
  have order := RerankService.in_order service request scored (by rw [scores])
  have count : scored.length = request.candidates.length := by rw [←order,List.length_map]
  have ranks := topK_ranks scored request.topK rng
  rw [count] at ranks
  calc (topKWithTieShuffle scored request.topK rng).1.map (fun item => (RerankPayload.toJson (.real item.rank item.chunkId item.text)).length)
      = (topKWithTieShuffle scored request.topK rng).1.map (fun item => envelope + (decimal item.rank).length + idLen + textLen) := by
        refine List.map_congr_left fun item member => ?_
        obtain ⟨c,listed,sameId,sameText⟩ := topK_from scored request.topK rng item member
        have candidate : (⟨c.chunkId,c.text⟩ : RerankCandidate) ∈ request.candidates := by
          rw [←order]
          exact List.mem_map_of_mem listed
        obtain ⟨idSize,plainId⟩ := uniform.ids _ candidate
        obtain ⟨textSize,plainText⟩ := uniform.texts _ candidate
        rw [sameId,sameText,real_length _ plainId plainText,idSize,textSize]
    _ = ((topKWithTieShuffle scored request.topK rng).1.map RankedItem.rank).map
          (fun rank => envelope + (decimal rank).length + idLen + textLen) := by rw [List.map_map]; rfl
    _ = _ := by rw [ranks,List.map_map]; rfl

theorem rerank_shape (overhead : ∀ key nonce p : Bytes, (AesGcm.encrypt key nonce p).length = p.length + tag)
    (uniform : Uniform idLen textLen request) {service : X}
    (answered : (rerank (S:=S) R service session request).1 = .ok bundle) :
    bundle.scheme = "aes-256-gcm.v1" ∧ min request.topK request.candidates.length ≤ request.kMax ∧
      bundle.shape.Perm ((lengthsOf idLen textLen (decoyLen request) request.kMax
        (min request.topK request.candidates.length)).map fun n => (12,n + tag)) := by
  unfold rerank at answered
  split at answered
  · cases answered
  · split at answered
    · cases answered
    · split at answered
      · cases answered
      · rename_i scored next scores
        dsimp only at answered
        generalize drawn : topKWithTieShuffle scored request.topK (SeededRng.fromSeed (session.deriveQueryKey request.queryId) : R) =
          ranked at answered
        have lengths := uniform.ranked scores (SeededRng.fromSeed (session.deriveQueryKey request.queryId) : R)
        rw [drawn] at lengths
        have kept : ranked.1.length = min request.topK request.candidates.length := by
          have both := congrArg List.length lengths
          simpa using both
        unfold EncryptedRerankBundle.seal at answered
        split at answered
        · cases answered
        · rename_i within
          cases answered
          refine ⟨rfl,by rw [←kept]; exact Nat.not_lt.mp within,?_⟩
          unfold EncryptedRerankBundle.shape lengthsOf
          refine ((SeededRng.shuffle_perm _ _).map _).trans (.of_eq ?_)
          rw [List.map_append,List.map_append]
          have reals := sealRanked_sized overhead (session.deriveQueryKey request.queryId) ranked.1 ranked.2
          have decoys := sealDecoys_sized overhead (session.deriveQueryKey request.queryId) (decoyLen request)
            (request.kMax - ranked.1.length) (sealRanked (session.deriveQueryKey request.queryId) ranked.1 ranked.2).2
          rw [lengths] at reals
          rw [kept] at decoys ⊢
          exact congr (congrArg HAppend.hAppend reals) decoys

-- Two requests of one size are answered in one shape exactly when they keep the
-- same number of candidates.
theorem same_shape_iff_same_kept [AesGcm.FixedOverhead] {service service' : X} (sameMax : request.kMax = request'.kMax)
    (sameCount : request.candidates.length = request'.candidates.length) (uniform : Uniform idLen textLen request)
    (uniform' : Uniform idLen textLen request') (answered : (rerank (S:=S) R service session request).1 = .ok bundle)
    (answered' : (rerank (S:=S) R service' session' request').1 = .ok bundle') :
    SameShape request.kMax bundle bundle' ↔
      min request.topK request.candidates.length = min request'.topK request'.candidates.length := by
  obtain ⟨tag,overhead⟩ := AesGcm.FixedOverhead.overhead
  obtain ⟨scheme,bound,shape⟩ := rerank_shape overhead uniform answered
  obtain ⟨scheme',bound',shape'⟩ := rerank_shape overhead uniform' answered'
  have empty : request.candidates = [] ↔ request'.candidates = [] := by
    rw [←List.length_eq_zero_iff,←List.length_eq_zero_iff,sameCount]
  have decoys : decoyLen request' = decoyLen request := by
    rw [decoyLen_of uniform,decoyLen_of uniform']
    simp only [empty]
  rw [decoys,←sameMax] at shape'
  constructor
  · intro ⟨_,_,_,alike⟩
    refine kept_of_shape ?_ bound (sameMax ▸ bound') ((shape.symm.trans alike).trans shape')
    by_cases none : request.candidates = []
    · exact .inr ⟨by simp [none],by simp [empty.mp none]⟩
    · left
      rw [decoyLen_of uniform,if_neg none]
  · intro sameKept
    rw [←sameKept] at shape'
    have count : ∀ b : EncryptedRerankBundle, b.items.length = b.shape.length := fun b => (List.length_map _).symm
    have items : (lengthsOf idLen textLen (decoyLen request) request.kMax (min request.topK request.candidates.length)).length =
        request.kMax := by
      simp only [lengthsOf,List.length_append,List.length_map,List.length_range,List.length_replicate]
      omega
    refine ⟨scheme.trans scheme'.symm,?_,?_,shape.trans shape'.symm⟩
    · rw [count,shape.length_eq,List.length_map,items]
    · rw [count,shape'.length_eq,List.length_map,items]

end Service

@[reducible] def equalScores : RerankService Unit Nat where
  scoreCandidates := fun _ request => (.ok (request.candidates.map fun c => ⟨c.chunkId,c.text,0⟩),())
  in_order := by
    intro _ request scored answered
    cases answered
    rw [List.map_map]
    exact List.map_id _

@[reducible] def natCmp : PartialCmp Nat := ⟨fun a b => some (compare a b)⟩

def keepsOf (topK : Nat) : RerankRequest := ⟨[],[⟨ascii "a",ascii "x"⟩,⟨ascii "b",ascii "y"⟩],topK,2,[]⟩

def testSession : SessionKey := ⟨List.replicate 32 7,⟨"gelo-rerank.v1",[],[],[]⟩⟩

def answerOf (topK : Nat) : Except RerankError EncryptedRerankBundle :=
  (@rerank Unit Nat Nat SeededRng.counting .framed .joined natCmp equalScores () testSession (keepsOf topK)).1

theorem answerOf_shape (topK : Nat) (within : topK = 1 ∨ topK = 2) :
    (answerOf topK).map EncryptedRerankBundle.shape = .ok ((List.replicate topK (12,66)) ++ List.replicate (2 - topK) (12,32)) := by
  rcases within with rfl | rfl <;> decide +kernel

theorem answerOf_ok (topK : Nat) (within : topK = 1 ∨ topK = 2) : ∃ bundle, answerOf topK = .ok bundle ∧
    bundle.shape = (List.replicate topK (12,66)) ++ List.replicate (2 - topK) (12,32) := by
  have shape := answerOf_shape topK within
  cases answered : answerOf topK with
  | error e => rw [answered] at shape; cases shape
  | ok bundle =>
      rw [answered] at shape
      exact ⟨bundle,rfl,Except.ok.inj shape⟩

-- One candidate kept of two, and both: the decoy shows.
theorem decoy_shows : ∃ bundle bundle', answerOf 1 = .ok bundle ∧ answerOf 2 = .ok bundle' ∧ ¬SameShape 2 bundle bundle' := by
  obtain ⟨bundle,answered,shape⟩ := answerOf_ok 1 (.inl rfl)
  obtain ⟨bundle',answered',shape'⟩ := answerOf_ok 2 (.inr rfl)
  refine ⟨bundle,bundle',answered,answered',fun ⟨_,_,_,alike⟩ => ?_⟩
  rw [shape,shape'] at alike
  exact absurd alike (by decide)

theorem keepsOf_uniform (topK : Nat) : Uniform 1 1 (keepsOf topK) := by
  have each : ∀ c ∈ (keepsOf 0).candidates, (c.chunkId.length = 1 ∧ Plain c.chunkId) ∧ c.text.length = 1 ∧ Plain c.text := by decide +kernel
  exact ⟨fun c member => (each c member).1,fun c member => (each c member).2⟩

theorem same_shape_iff_same_kept_one_and_two : ∃ bundle bundle', answerOf 1 = .ok bundle ∧ answerOf 2 = .ok bundle' ∧
    (SameShape 2 bundle bundle' ↔ min 1 2 = min 2 2) := by
  obtain ⟨bundle,answered,_⟩ := answerOf_ok 1 (.inl rfl)
  obtain ⟨bundle',answered',_⟩ := answerOf_ok 2 (.inr rfl)
  refine ⟨bundle,bundle',answered,answered',?_⟩
  let _ := SeededRng.counting
  let _ := AesGcm.framed
  let _ := HkdfSha256.joined
  let _ := natCmp
  let _ := equalScores
  have := AesGcm.framed_fixedOverhead
  unfold answerOf at answered answered'
  exact same_shape_iff_same_kept (show (keepsOf 1).kMax = (keepsOf 2).kMax from rfl) rfl (keepsOf_uniform 1) (keepsOf_uniform 2)
    answered answered'

end Reranker
