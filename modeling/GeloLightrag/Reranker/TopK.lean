import GeloLightrag.Foundation.Binary32
import GeloLightrag.Foundation.Checked
import GeloLightrag.Reranker.Payload
import Mathlib.Data.List.Perm.Basic
import Mathlib.Data.List.ReduceOption
import Mathlib.Data.List.TakeWhile

namespace Reranker
open Foundation

section Ranking
variable {R : Type} [SeededRng R]

theorem isNan_iff (x : Binary32) : isNan x = x.isNan := by
  unfold isNan
  cases number : x.isNan with
  | true => rw [Binary32.partialCmp_nan (.inl number)]; rfl
  | false => rw [Binary32.partialCmp_number number number]; rfl

-- The one may stand in front of the other: its score is not the lower one, and
-- no NaN stands in front of a number.
def NotWorse (a b : ScoredCandidate Binary32) : Prop :=
  gt b.score a.score = false ∧ (a.score.isNan = true → b.score.isNan = true)

theorem byScore_iff (a b : ScoredCandidate Binary32) : byScore a b ≠ .gt ↔ NotWorse a b := by
  unfold byScore NotWorse
  rw [isNan_iff,isNan_iff,←Bool.not_eq_true,Binary32.gt_iff]
  cases first : a.score.isNan with
  | true => cases second : b.score.isNan <;> simp
  | false => cases second : b.score.isNan with
    | true => simp
    | false =>
        simp [cmpOrEqual,Binary32.partialCmp_number second first,compare_gt_iff_gt]

theorem notWorse_iff {a b : ScoredCandidate Binary32} : NotWorse a b ↔
    b.score.isNan = true ∨ (a.score.isNan = false ∧ b.score.place ≤ a.score.place) := by
  unfold NotWorse
  rw [←Bool.not_eq_true,Binary32.gt_iff]
  cases first : a.score.isNan <;> cases second : b.score.isNan <;> simp

theorem notWorse_total (a b : ScoredCandidate Binary32) : NotWorse a b ∨ NotWorse b a := by
  rw [notWorse_iff,notWorse_iff]
  cases first : a.score.isNan <;> cases second : b.score.isNan <;> simp [Int.le_total]

theorem notWorse_trans (a b c : ScoredCandidate Binary32) (first : NotWorse a b) (second : NotWorse b c) : NotWorse a c := by
  rw [notWorse_iff] at first second ⊢
  rcases second with nan | ⟨number,lower⟩
  · exact .inl nan
  · rcases first with nan | ⟨number',lower'⟩
    · rw [nan] at number
      cases number
    · exact .inr ⟨number',lower.trans lower'⟩

theorem sorted_ordered (scored : List (ScoredCandidate Binary32)) : (sortBy byScore scored).Pairwise NotWorse :=
  sortBy_pairwise byScore_iff notWorse_total notWorse_trans scored

-- What is shuffled with a candidate has its score.
theorem tied {a c : ScoredCandidate Binary32} (same : partialCmp a.score c.score = some .eq) : NotWorse a c ∧ NotWorse c a := by
  have numbers : a.score.isNan = false ∧ c.score.isNan = false := by
    by_contra nan
    have either : a.score.isNan = true ∨ c.score.isNan = true := by
      revert nan
      cases a.score.isNan <;> cases c.score.isNan <;> simp
    rw [Binary32.partialCmp_nan either] at same
    cases same
  rw [Binary32.partialCmp_number numbers.1 numbers.2,Option.some.injEq,compare_eq_iff_eq] at same
  exact ⟨notWorse_iff.mpr (.inr ⟨numbers.1,same.ge⟩),notWorse_iff.mpr (.inr ⟨numbers.2,same.le⟩)⟩

-- Shuffling the runs keeps the order.
theorem tieShuffle_ordered (fuel : Nat) (scored : List (ScoredCandidate Binary32)) (rng : R) (ordered : scored.Pairwise NotWorse) :
    (tieShuffle fuel scored rng).1.Pairwise NotWorse := by
  induction fuel generalizing scored rng with
  | zero => exact ordered
  | succ fuel ih =>
      cases scored with
      | nil => exact ordered
      | cons c rest =>
          simp only [tieShuffle]
          let same := fun other : ScoredCandidate Binary32 => partialCmp other.score c.score == some .eq
          have whole : c :: rest = (c :: rest.takeWhile same) ++ rest.dropWhile same := by
            rw [List.cons_append,List.takeWhile_append_dropWhile]
          rw [whole] at ordered
          obtain ⟨_,later,across⟩ := List.pairwise_append.mp ordered
          have centre : ∀ a ∈ c :: rest.takeWhile same, NotWorse a c ∧ NotWorse c a := by
            intro a member
            rcases List.mem_cons.mp member with rfl | inside
            · exact and_self_iff.mpr ((notWorse_total a a).elim id id)
            · have equal : same a = true := List.mem_takeWhile_imp inside
              exact tied (beq_iff_eq.mp equal)
          have run : (if (rest.takeWhile same).isEmpty then ([c],rng) else SeededRng.shuffle rng (c :: rest.takeWhile same)).1.Perm
              (c :: rest.takeWhile same) := run_perm c (rest.takeWhile same) rng
          refine List.pairwise_append.mpr ⟨?_,ih _ _ later,fun a inA b inB => ?_⟩
          · refine List.pairwise_of_forall_mem_list fun a inA b inB => ?_
            exact notWorse_trans a c b (centre a (run.mem_iff.mp inA)).1 (centre b (run.mem_iff.mp inB)).2
          · exact across a (run.mem_iff.mp inA) b ((tieShuffle_perm _ _ _).mem_iff.mp inB)

-- The kept candidates and the rest, as the service orders them.
theorem topK_ordered (scored : List (ScoredCandidate Binary32)) (topK : Nat) (some_ : 0 < topK) (rng : R) :
    ∃ kept omitted : List (ScoredCandidate Binary32), (kept ++ omitted).Perm scored ∧ kept.length = min topK scored.length ∧
      (kept ++ omitted).Pairwise NotWorse ∧
      (topKWithTieShuffle scored topK rng).1 = kept.mapIdx fun idx c => ⟨idx % 2 ^ 32,c.chunkId,c.text⟩ := by
  unfold topKWithTieShuffle
  by_cases none : scored.isEmpty = true
  · rw [List.isEmpty_iff.mp none]
    exact ⟨[],[],.refl _,by simp,.nil,by simp⟩
  · rw [if_neg (not_or.mpr ⟨none,some_.ne'⟩)]
    have moved := (tieShuffle_perm scored.length (sortBy byScore scored) rng).trans (sortBy_perm byScore scored)
    refine ⟨(tieShuffle scored.length (sortBy byScore scored) rng).1.take topK,
      (tieShuffle scored.length (sortBy byScore scored) rng).1.drop topK,?_,?_,?_,rfl⟩
    · rw [List.take_append_drop]
      exact moved
    · rw [List.length_take,moved.length_eq]
    · rw [List.take_append_drop]
      exact tieShuffle_ordered _ _ rng (sorted_ordered scored)

end Ranking

section Sealing
variable {R : Type} [SeededRng R] [AesGcm] [PayloadJson]

-- An item sealed under the key with this payload in it.
def Carries (key : Bytes) (item : EncryptedRerankItem) (payload : RerankPayload) : Prop :=
  item.nonce.length = 12 ∧ ∃ plain, item.ciphertext = AesGcm.encrypt key item.nonce plain ∧ PayloadJson.fromSlice plain = some payload

theorem Carries.opens {key : Bytes} {item : EncryptedRerankItem} (carries : Carries key item payload) : openItem key item = .ok payload.held := by
  obtain ⟨full,plain,sealed_,read⟩ := carries
  exact openItem_ok.mpr ⟨payload,⟨full,plain,by rw [sealed_,AesGcm.decrypt_encrypt],read⟩,rfl⟩

theorem Carries.other_key [AesGcm.KeyBound] {key key' : Bytes} {item : EncryptedRerankItem} (carries : Carries key item payload)
    (other : key' ≠ key) : openItem key' item = .error (.error (.aead "decrypt")) := by
  obtain ⟨full,plain,sealed_,_⟩ := carries
  unfold openItem
  rw [nonceFromSlice_full full,sealed_]
  simp [AesGcm.KeyBound.other_key other,bind,Except.bind]

variable [PayloadJson.Faithful]

theorem encryptPayload_carries (key : Bytes) {payload : RerankPayload} (typed : payload.Typed) (rng : R) :
    Carries key (encryptPayload key payload rng).1 payload := by
  have read := PayloadJson.Faithful.fromSlice_toJson payload 0 typed
  rw [List.replicate_zero,List.append_nil] at read
  exact ⟨SeededRng.fillBytes_length rng 12,payload.toJson,rfl,read⟩

theorem encryptPayloadWithAad_carries (key filler : Bytes) {payload : RerankPayload} (typed : payload.Typed) (rng : R) :
    Carries key (encryptPayloadWithAad key payload filler rng).1 payload :=
  ⟨SeededRng.fillBytes_length rng 12,_,rfl,PayloadJson.Faithful.fromSlice_toJson payload _ typed⟩

def RankedItem.payload (item : RankedItem) : RerankPayload := .real item.rank item.chunkId item.text
def RankedItem.opened (item : RankedItem) : DecryptedRerankItem := ⟨item.rank,item.chunkId,item.text⟩

theorem sealRanked_carries (key : Bytes) {ranked : List RankedItem} (typed : ∀ item ∈ ranked, item.payload.Typed) (rng : R) :
    List.Forall₂ (Carries key) (sealRanked key ranked rng).1 (ranked.map RankedItem.payload) := by
  induction ranked generalizing rng with
  | nil => exact .nil
  | cons item rest ih =>
      exact .cons (encryptPayload_carries key (typed item List.mem_cons_self) rng)
        (ih (fun other member => typed other (List.mem_cons_of_mem _ member)) _)

theorem sealDecoys_carries (key : Bytes) (decoyTextLen count : Nat) (rng : R) :
    List.Forall₂ (Carries key) (sealDecoys key decoyTextLen count rng).1 (List.replicate count .decoy) := by
  induction count generalizing rng with
  | zero => exact .nil
  | succ count ih => exact .cons (encryptPayloadWithAad_carries key _ (show RerankPayload.Typed .decoy from trivial) _) (ih _)

-- A bundle holds the ranked items and decoys for the rest of its places.
theorem seal_carries (key : Bytes) {ranked : List RankedItem} (typed : ∀ item ∈ ranked, item.payload.Typed) (within : ranked.length ≤ kMax)
    (rng : R) (decoyTextLen : Nat) : ∃ bundle payloads, EncryptedRerankBundle.seal key ranked kMax rng decoyTextLen = .ok bundle ∧
      bundle.scheme = "aes-256-gcm.v1" ∧ List.Forall₂ (Carries key) bundle.items payloads ∧
      payloads.Perm (ranked.map RankedItem.payload ++ List.replicate (kMax - ranked.length) RerankPayload.decoy) := by
  unfold EncryptedRerankBundle.seal
  rw [if_neg (Nat.not_lt.mpr within)]
  have each := List.rel_append (sealRanked_carries key typed rng)
    (sealDecoys_carries key decoyTextLen (kMax - ranked.length) (sealRanked key ranked rng).2)
  obtain ⟨payloads,listed,moved⟩ := List.perm_comp_forall₂ (SeededRng.shuffle_perm (sealDecoys key decoyTextLen (kMax - ranked.length)
    (sealRanked key ranked rng).2).2 _) each
  exact ⟨_,payloads,rfl,rfl,listed,moved⟩

theorem held_reals (ranked : List RankedItem) (decoys : Nat) :
    ((ranked.map RankedItem.payload ++ List.replicate decoys RerankPayload.decoy).map RerankPayload.held).reduceOption = ranked.map RankedItem.opened := by
  have none : ((List.replicate decoys RerankPayload.decoy).map RerankPayload.held).reduceOption = [] := by
    rw [List.map_replicate]
    exact List.reduceOption_replicate_none
  rw [List.map_append,List.reduceOption_append,none,List.append_nil,List.map_map]
  induction ranked with
  | nil => rfl
  | cons item rest ih => exact congrArg (List.cons item.opened) ih

-- Opened under its key a bundle gives the ranked items, by rank.
theorem carried_open {key : Bytes} {bundle : EncryptedRerankBundle} {ranked : List RankedItem} (tag : bundle.scheme = "aes-256-gcm.v1")
    (listed : List.Forall₂ (Carries key) bundle.items payloads)
    (moved : payloads.Perm (ranked.map RankedItem.payload ++ List.replicate decoys RerankPayload.decoy)) :
    ∃ opened, bundle.open key = .ok opened ∧ opened.Perm (ranked.map RankedItem.opened) ∧ ((ranked.map RankedItem.rank).Pairwise (· < ·) →
      opened = ranked.map RankedItem.opened) := by
  have each : List.Forall₂ (fun item held => openItem key item = .ok held) bundle.items (payloads.map RerankPayload.held) :=
    List.forall₂_map_right_iff.mpr (listed.imp fun _ _ => Carries.opens)
  have kept : (payloads.map RerankPayload.held).reduceOption.Perm (ranked.map RankedItem.opened) := by
    rw [←held_reals ranked decoys]
    exact (moved.map _).filterMap id
  refine ⟨_,open_ok_iff.mpr ⟨tag,_,each,rfl⟩,(sortBy_perm _ _).trans kept,fun rising => ?_⟩
  have ranks : (ranked.map RankedItem.opened).map DecryptedRerankItem.rank = ranked.map RankedItem.rank := by
    rw [List.map_map]
    rfl
  refine sortByKey_unique kept ?_ ?_
  · refine ((kept.map _).nodup_iff).mpr ?_
    rw [ranks]
    exact rising.imp Nat.ne_of_lt
  · refine List.pairwise_map.mp ?_
    rw [ranks]
    exact rising.imp Nat.le_of_lt

theorem carried_other_key [AesGcm.KeyBound] {key key' : Bytes} {bundle : EncryptedRerankBundle} (tag : bundle.scheme = "aes-256-gcm.v1")
    (listed : List.Forall₂ (Carries key) bundle.items payloads) (some_ : bundle.items ≠ []) (other : key' ≠ key) :
    bundle.open key' = .error (.error (.aead "decrypt")) := by
  obtain ⟨first,rest,items⟩ := List.exists_cons_of_ne_nil some_
  rw [items] at listed
  cases listed with
  | cons carries _ =>
      have refused : bundle.items.mapM (openItem key') = .error (.error (.aead "decrypt")) :=
        mapM_error_iff.mpr ⟨[],first,rest,items,fun b member => absurd member List.not_mem_nil,carries.other_key other⟩
      unfold EncryptedRerankBundle.open
      rw [if_neg (not_not.mpr tag),refused]
      rfl

end Sealing

-- The best of the candidates in the order of their scores, under the ranks from zero on.
def TopK (scored : List (ScoredCandidate Binary32)) (topK : Nat) (opened : List DecryptedRerankItem) : Prop :=
  ∃ kept omitted : List (ScoredCandidate Binary32), (kept ++ omitted).Perm scored ∧ kept.length = min topK scored.length ∧
    opened = kept.mapIdx (fun rank c => ⟨rank,c.chunkId,c.text⟩) ∧ kept.Pairwise NotWorse ∧ ∀ k ∈ kept, ∀ o ∈ omitted, NotWorse k o

theorem opened_mapIdx (kept : List (ScoredCandidate Binary32)) (few : kept.length ≤ 2 ^ 32) :
    (kept.mapIdx fun idx c => (⟨idx % 2 ^ 32,c.chunkId,c.text⟩ : RankedItem)).map RankedItem.opened =
      kept.mapIdx fun rank c => ⟨rank,c.chunkId,c.text⟩ := by
  refine List.ext_getElem (by simp) fun i inside _ => ?_
  have short : i < kept.length := by simpa using inside
  simp only [List.getElem_map,List.getElem_mapIdx,RankedItem.opened,Nat.mod_eq_of_lt (show i < 2 ^ 32 by omega)]

theorem ranks_rise (kept : List (ScoredCandidate Binary32)) (few : kept.length ≤ 2 ^ 32) :
    ((kept.mapIdx fun idx c => (⟨idx % 2 ^ 32,c.chunkId,c.text⟩ : RankedItem)).map RankedItem.rank).Pairwise (· < ·) := by
  have ranks : (kept.mapIdx fun idx c => (⟨idx % 2 ^ 32,c.chunkId,c.text⟩ : RankedItem)).map RankedItem.rank = List.range kept.length := by
    refine List.ext_getElem (by simp) fun i inside _ => ?_
    have short : i < kept.length := by simpa using inside
    simp only [List.getElem_map,List.getElem_mapIdx,List.getElem_range,Nat.mod_eq_of_lt (show i < 2 ^ 32 by omega)]
  rw [ranks]
  exact List.pairwise_lt_range

section Service
variable {X : Type} (R : Type) [SeededRng R] [AesGcm] [HkdfSha256] [PayloadJson] [RerankService X Binary32]

-- What the client makes of the answer, with the key of the query and with another.
def Recovers (service : X) (session : SessionKey) (request : RerankRequest) (scored : List (ScoredCandidate Binary32)) : Prop :=
  ∃ bundle, (rerank (S:=Binary32) R service session request).1 = .ok bundle ∧ bundle.items.length = request.kMax ∧
    (∃ opened, bundle.open (session.deriveQueryKey request.queryId) = .ok opened ∧ TopK scored request.topK opened) ∧
    ∀ key, key ≠ session.deriveQueryKey request.queryId → ∃ e, bundle.open key = .error (.error e)

variable [AesGcm.KeyBound] [PayloadJson.Faithful] {service next : X} {session : SessionKey} {request : RerankRequest}
  {scored : List (ScoredCandidate Binary32)}

omit [AesGcm] [HkdfSha256] [PayloadJson] [AesGcm.KeyBound] [PayloadJson.Faithful] in
theorem scored_length (scores : RerankService.scoreCandidates service request = (.ok scored,next)) : scored.length = request.candidates.length := by
  rw [←RerankService.in_order service request scored (by rw [scores]),List.length_map]

-- What is answered, before anything is said of the ranks.
theorem rerank_carries (some_ : 1 ≤ request.topK) (within : request.topK ≤ request.kMax)
    (texts : ∀ c ∈ request.candidates, IsText c.chunkId ∧ IsText c.text)
    (scores : RerankService.scoreCandidates service request = (.ok scored,next)) :
    ∃ (bundle : EncryptedRerankBundle) (kept omitted : List (ScoredCandidate Binary32)) (payloads : List RerankPayload),
      (rerank (S:=Binary32) R service session request).1 = .ok bundle ∧ (kept ++ omitted).Perm scored ∧
      kept.length = min request.topK scored.length ∧ (kept ++ omitted).Pairwise NotWorse ∧ bundle.scheme = "aes-256-gcm.v1" ∧
      List.Forall₂ (Carries (session.deriveQueryKey request.queryId)) bundle.items payloads ∧
      payloads.Perm ((kept.mapIdx fun idx c => (⟨idx % 2 ^ 32,c.chunkId,c.text⟩ : RankedItem)).map RankedItem.payload ++
        List.replicate (request.kMax - kept.length) RerankPayload.decoy) := by
  let rng : R := SeededRng.fromSeed (session.deriveQueryKey request.queryId)
  obtain ⟨kept,omitted,moved,long,ordered,ranked⟩ := topK_ordered scored request.topK (by omega) rng
  have typed : ∀ item ∈ (topKWithTieShuffle scored request.topK rng).1, item.payload.Typed := by
    intro item member
    obtain ⟨c,listed,sameId,sameText⟩ := topK_from scored request.topK rng item member
    have candidate : (⟨c.chunkId,c.text⟩ : RerankCandidate) ∈ request.candidates := by
      rw [←RerankService.in_order service request scored (by rw [scores])]
      exact List.mem_map_of_mem listed
    refine ⟨?_,sameId ▸ (texts _ candidate).1,sameText ▸ (texts _ candidate).2⟩
    rw [ranked] at member
    obtain ⟨idx,_,rfl⟩ := List.mem_mapIdx.mp member
    exact Nat.mod_lt _ (by decide)
  have length : (topKWithTieShuffle scored request.topK rng).1.length = kept.length := by rw [ranked,List.length_mapIdx]
  have fits : (topKWithTieShuffle scored request.topK rng).1.length ≤ request.kMax := by omega
  obtain ⟨bundle,payloads,answered,tag,listed,perm⟩ := seal_carries (session.deriveQueryKey request.queryId) typed
    fits (topKWithTieShuffle scored request.topK rng).2 (decoyLen request)
  rw [length,ranked] at perm
  refine ⟨bundle,kept,omitted,payloads,?_,moved,long,ordered,tag,listed,perm⟩
  unfold rerank
  rw [if_neg (by omega),if_neg (by omega),scores]
  exact answered

-- The item behind the last rank would have a rank of its own position, which no item has.
theorem ranks_run_out (some_ : 1 ≤ request.topK) (within : request.topK ≤ request.kMax)
    (texts : ∀ c ∈ request.candidates, IsText c.chunkId ∧ IsText c.text)
    (scores : RerankService.scoreCandidates service request = (.ok scored,next)) (many : 2 ^ 32 < min request.topK request.candidates.length) :
    ¬Recovers R service session request scored := by
  obtain ⟨bundle,kept,omitted,payloads,answered,_,long,_,tag,listed,perm⟩ := rerank_carries R some_ within texts scores
  obtain ⟨opened,ran,opens,_⟩ := carried_open tag listed perm
  rintro ⟨bundle',answered',_,⟨opened',ran',kept',omitted',_,long',is,_⟩,_⟩
  cases Except.ok.inj (answered.symm.trans answered')
  cases Except.ok.inj (ran.symm.trans ran')
  have count := scored_length scores
  have inside : 2 ^ 32 < kept'.length := by omega
  have last : (⟨2 ^ 32,(kept'[2 ^ 32]).chunkId,(kept'[2 ^ 32]).text⟩ : DecryptedRerankItem) ∈ opened := by
    rw [is]
    exact List.mem_mapIdx.mpr ⟨2 ^ 32,inside,rfl⟩
  obtain ⟨item,ranked,same⟩ := List.mem_map.mp (opens.mem_iff.mp last)
  obtain ⟨idx,_,rfl⟩ := List.mem_mapIdx.mp ranked
  have rank : idx % 2 ^ 32 = 2 ^ 32 := congrArg DecryptedRerankItem.rank same
  omega

-- The ranks are numbers of 32 bits: the client recovers the best candidates exactly
-- where no more are kept than there are ranks.
theorem top_k_recovered_iff (some_ : 1 ≤ request.topK) (within : request.topK ≤ request.kMax)
    (texts : ∀ c ∈ request.candidates, IsText c.chunkId ∧ IsText c.text)
    (scores : RerankService.scoreCandidates service request = (.ok scored,next)) :
    Recovers R service session request scored ↔ min request.topK request.candidates.length ≤ 2 ^ 32 := by
  constructor
  · intro recovers
    by_contra many
    exact ranks_run_out R some_ within texts scores (Nat.not_le.mp many) recovers
  · intro few
    obtain ⟨bundle,kept,omitted,payloads,answered,moved,long,ordered,tag,listed,perm⟩ := rerank_carries R some_ within texts scores
    obtain ⟨opened,ran,_,rising⟩ := carried_open tag listed perm
    rw [←scored_length scores,←long] at few
    have items : bundle.items.length = request.kMax := by
      rw [listed.length_eq,perm.length_eq]
      simp only [List.length_append,List.length_map,List.length_mapIdx,List.length_replicate]
      omega
    obtain ⟨best,_,across⟩ := List.pairwise_append.mp ordered
    refine ⟨bundle,answered,items,⟨opened,ran,kept,omitted,moved,long,?_,best,across⟩,fun key other => ⟨.aead "decrypt",?_⟩⟩
    · rw [rising (ranks_rise kept few),opened_mapIdx kept few]
    · exact carried_other_key tag listed (List.ne_nil_of_length_pos (by omega)) other

end Service

section Labelled

local instance labelledItems : AesGcm := .labelled
local instance labelledKeys : AesGcm.KeyBound := AesGcm.labelled_keyBound
local instance exactJson : PayloadJson := .exact
local instance exactJsonFaithful : PayloadJson.Faithful := exact_faithful
local instance countedTape : SeededRng Nat := .counting
local instance joinedKeys : HkdfSha256 := .joined

-- A score by the number of the candidate's place: one half, NaN, one, and zero from there on.
def scoreAt (i : Nat) : Binary32 := if i = 0 then ⟨0x3f000000⟩ else if i = 1 then ⟨0x7fc00000⟩ else if i = 2 then ⟨0x3f800000⟩ else ⟨0⟩

def scoredByPlace (request : RerankRequest) : List (ScoredCandidate Binary32) := request.candidates.mapIdx fun i c => ⟨c.chunkId,c.text,scoreAt i⟩

local instance placeScores : RerankService Unit Binary32 where
  scoreCandidates _ request := (.ok (scoredByPlace request),())
  in_order _ request scored answered := by
    cases answered
    exact List.ext_getElem (by simp [scoredByPlace]) fun i _ _ => by simp [scoredByPlace]

def letters : RerankCandidate := ⟨utf8 "a",utf8 "x"⟩

def repeated (topK count : Nat) : RerankRequest := ⟨[],List.replicate count letters,topK,topK,[]⟩

theorem repeated_texts (topK count : Nat) : ∀ c ∈ (repeated topK count).candidates, IsText c.chunkId ∧ IsText c.text := by
  intro c member
  rw [List.eq_of_mem_replicate member]
  exact ⟨⟨"a",rfl⟩,"x",rfl⟩

theorem repeated_count (topK count : Nat) : min (repeated topK count).topK (repeated topK count).candidates.length = min topK count := by
  rw [repeated,List.length_replicate]

-- One candidate more than there are ranks, all of them asked for.
theorem one_rank_too_few : ¬Recovers Nat () testSession (repeated (2 ^ 32 + 1) (2 ^ 32 + 1)) (scoredByPlace (repeated (2 ^ 32 + 1) (2 ^ 32 + 1))) :=
  ranks_run_out Nat (show 1 ≤ 2 ^ 32 + 1 by omega) (Nat.le_refl _) (repeated_texts _ _) rfl
    (by rw [repeated_count]; exact Nat.lt_succ_self _)

theorem top_k_recovered_iff_three_candidates : Recovers Nat () testSession (repeated 2 3) (scoredByPlace (repeated 2 3)) :=
  (top_k_recovered_iff Nat (show 1 ≤ 2 by omega) (Nat.le_refl _) (repeated_texts _ _) rfl).mpr
    (by rw [repeated_count]; omega)

end Labelled
end Reranker
