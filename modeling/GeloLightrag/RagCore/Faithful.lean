import GeloLightrag.Foundation.Angles
import GeloLightrag.Foundation.Literals
import GeloLightrag.RagCore.Storage
import Mathlib

namespace RagCore
open Foundation InnerProductGeometry
attribute [local instance] two_atLeastTwo

-- Exact arithmetic.
noncomputable instance : Elementary ℝ where
  sqrt := Real.sqrt
  ln := Real.log
  cos := Real.cos
  sin := Real.sin
  powf u e := u ^ e
  pi := Real.pi
  epsilon := 1 / ((2 ^ 23 : Nat) : ℝ)
  isZero x := open Classical in decide (x = 0)

section Vectors
variable {d : Nat} {v w : Fin d → ℝ}

abbrev point (v : Fin d → ℝ) : EuclideanSpace ℝ (Fin d) := WithLp.toLp 2 v

theorem exists_ofFn {l : List ℝ} (sized : l.length = d) : ∃ v : Fin d → ℝ, l = List.ofFn v := by
  subst sized
  exact ⟨l.get,(List.ofFn_get l).symm⟩

theorem zipWith_ofFn (f : ℝ → ℝ → ℝ) (v w : Fin d → ℝ) :
    (List.ofFn v).zipWith f (List.ofFn w) = List.ofFn fun i => f (v i) (w i) := by
  refine List.ext_getElem (by simp) fun i here there => ?_
  simp

theorem dot_ofFn (v w : Fin d → ℝ) : dot (List.ofFn v) (List.ofFn w) = inner ℝ (point v) (point w) := by
  rw [dot,zipWith_ofFn,←List.sum_eq_foldl,List.sum_ofFn,PiLp.inner_apply]
  exact Finset.sum_congr rfl fun i _ => by simp [mul_comm]

theorem l2Norm_ofFn (v : Fin d → ℝ) : l2Norm (List.ofFn v) = ‖point v‖ := by
  rw [l2Norm,dot_ofFn,real_inner_self_eq_norm_sq]
  exact Real.sqrt_sq (norm_nonneg _)

theorem disturbed_ofFn (v w : Fin d → ℝ) (s r : ℝ) :
    disturbed (List.ofFn v) (List.ofFn w) s r = List.ofFn (s • v + r • w) := by
  rw [disturbed,zipWith_ofFn]
  exact congrArg List.ofFn (funext fun i => by simp [mul_comm])

theorem cosineSimilarity_ofFn (some_ : point v ≠ 0) (other : point w ≠ 0) :
    cosineSimilarity (List.ofFn v) (List.ofFn w) = Real.cos (angle (point v) (point w)) := by
  have zeros : (Elementary.isZero (l2Norm (List.ofFn v)) || Elementary.isZero (l2Norm (List.ofFn w))) = false := by
    rw [l2Norm_ofFn,l2Norm_ofFn]
    simp [Elementary.isZero,some_,other]
  rw [cosineSimilarity,zeros,dot_ofFn,l2Norm_ofFn,l2Norm_ofFn,cos_angle]
  rfl

end Vectors

section Sampling
variable [HmacSha256] [ChaCha20]

theorem rawSamples_length (rng : Bytes) (dims i : Nat) : (rawSamples ℝ rng dims i).length = dims := by
  induction dims,i using rawSamples.induct with
  | case1 | case2 => rfl
  | case3 dims i ih => simp [rawSamples,ih]

-- The sampled direction is of norm one or zero.
theorem sampleUnitVector_norm (rng : Bytes) (dims : Nat) :
    ∃ w : Fin dims → ℝ, sampleUnitVector ℝ rng dims = List.ofFn w ∧ ‖point w‖ ≤ 1 := by
  obtain ⟨raw,is⟩ := exists_ofFn (rawSamples_length rng dims 0)
  have norm : Elementary.sqrt (((rawSamples ℝ rng dims 0).map fun v => v * v).foldl (· + ·) 0) = ‖point raw‖ := by
    rw [←l2Norm_ofFn,is,l2Norm,dot,List.zipWith_self]
  unfold sampleUnitVector
  simp only [norm]
  by_cases zero : ‖point raw‖ = 0
  · refine ⟨0,?_,by simp⟩
    have yes : Elementary.isZero ‖point raw‖ = true := by simpa [Elementary.isZero] using zero
    rw [yes]
    exact (List.ofFn_const dims 0).symm
  · refine ⟨fun i => raw i / ‖point raw‖,?_,?_⟩
    · have no : Elementary.isZero ‖point raw‖ = false := by simpa [Elementary.isZero] using zero
      rw [no,is,if_neg Bool.false_ne_true,List.map_ofFn]
      rfl
    · have scaled : point (fun i => raw i / ‖point raw‖) = ‖point raw‖⁻¹ • point raw := by
        ext i
        simp [div_eq_inv_mul]
      rw [scaled,norm_smul,norm_inv,norm_norm,inv_mul_cancel₀ zero]

theorem sampleUniformOpen01_open (rng : Bytes) : 0 < (sampleUniformOpen01 rng : ℝ) ∧ (sampleUniformOpen01 rng : ℝ) < 1 := by
  have small : (0 : ℝ) < Elementary.epsilon := by simp [Elementary.epsilon]
  have half : (Elementary.epsilon : ℝ) < 1 - Elementary.epsilon := by
    simp only [Elementary.epsilon]
    norm_num
  unfold sampleUniformOpen01 clamp
  split
  · constructor <;> linarith
  · split
    · constructor <;> linarith
    · constructor <;> linarith

theorem root_bounds (rng : Bytes) (dims : Nat) :
    0 ≤ (Elementary.powf (sampleUniformOpen01 rng) (1 / (dims : ℝ)) : ℝ) ∧ (Elementary.powf (sampleUniformOpen01 rng) (1 / (dims : ℝ)) : ℝ) ≤ 1 := by
  obtain ⟨positive,less⟩ := sampleUniformOpen01_open rng
  exact ⟨Real.rpow_nonneg positive.le _,Real.rpow_le_one positive.le less.le (by positivity)⟩

-- An encryption that scales by s and adds noise of at most a share of it.
def Noisy (s share : ℝ) (encrypt : List ℝ → Bytes → Except String (EncryptedEmbedding ℝ)) : Prop :=
  ∀ (d : Nat) (v : Fin d → ℝ) (nonce : Bytes) (e : EncryptedEmbedding ℝ), encrypt (List.ofFn v) nonce = .ok e →
    ∃ n : Fin d → ℝ, e.vector = List.ofFn (s • v + n) ∧ ‖point n‖ ≤ share * s

theorem noisy_radius {s radius share : ℝ} (rng : Bytes) (v : Fin d → ℝ) (low : 0 ≤ radius) (high : radius ≤ share * s) :
    ∃ n : Fin d → ℝ, disturbed (List.ofFn v) (sampleUnitVector ℝ rng d) s radius = List.ofFn (s • v + n) ∧ ‖point n‖ ≤ share * s := by
  obtain ⟨w,is,short⟩ := sampleUnitVector_norm rng d
  refine ⟨radius • w,by rw [is,disturbed_ofFn],?_⟩
  have scaled : point (radius • w) = radius • point w := rfl
  rw [scaled,norm_smul,Real.norm_of_nonneg low]
  nlinarith [norm_nonneg (point w)]

theorem CapriseKey.noisy {key : CapriseKey ℝ} (positive : 0 ≤ key.scaleFactor * key.beta) {coefficient : ℝ} (low : 0 ≤ coefficient)
    (label scheme : String) :
    Noisy key.scaleFactor (coefficient * key.beta) fun v nonce => key.encryptInternal v nonce label coefficient scheme := by
  intro d v nonce e encrypted
  simp only [CapriseKey.encryptInternal] at encrypted
  split at encrypted
  · cases encrypted
  · simp only [List.length_ofFn] at encrypted
    cases encrypted
    obtain ⟨positive',small⟩ := root_bounds (deriveRng key.seedKey nonce "caprise:radius") d
    refine noisy_radius _ v ?_ ?_
    · rw [mul_assoc coefficient]
      exact mul_nonneg (mul_nonneg low positive) positive'
    · rw [mul_assoc coefficient,mul_assoc coefficient key.beta,mul_comm key.beta]
      exact mul_le_of_le_one_right (mul_nonneg low positive) small

theorem SapKey.noisy {key : SapKey ℝ} (positive : 0 ≤ key.scaleFactor * key.beta) : Noisy key.scaleFactor (key.beta / 4) key.encryptWithNonce := by
  intro d v nonce e encrypted
  unfold SapKey.encryptWithNonce at encrypted
  split at encrypted
  · cases encrypted
  · simp only [List.length_ofFn] at encrypted
    cases encrypted
    obtain ⟨positive',small⟩ := root_bounds (deriveRng key.seedKey nonce "sap:radius") d
    refine noisy_radius _ v ?_ ?_
    · rw [mul_assoc]
      exact div_nonneg (mul_nonneg positive' positive) (by norm_num)
    · rw [mul_assoc,div_mul_eq_mul_div,mul_comm key.beta]
      push_cast
      exact div_le_div_of_nonneg_right (mul_le_of_le_one_left positive small) (by norm_num)

end Sampling
-- The distance of two embeddings, and the k-th least distance from a query.
noncomputable def distance (x y : List ℝ) : ℝ := l2Norm (x.zipWith (· - ·) y)

noncomputable def kthNearest (query : List ℝ) (documents : List (List ℝ)) (k : Nat) : Option ℝ :=
  ((documents.map (distance query)).insertionSort (· ≤ ·))[k - 1]?

-- The n-th hit of a search is the i-th record.
def Hit (index : InMemoryEncryptedIndex ℝ) (encryptedQuery : EncryptedEmbedding ℝ) (topK n i : Nat) : Prop :=
  ∃ score record, (topKBySimilarity encryptedQuery.vector (index.records.map StoredChunk.embedding) topK)[n]? = some (i,score) ∧
    index.records[i]? = some record ∧ (index.search encryptedQuery topK)[n]? = some (record.encryptedChunk,record.embedding,score)

noncomputable def similarityAt (index : InMemoryEncryptedIndex ℝ) (encryptedQuery : EncryptedEmbedding ℝ) (i : Nat) : Option ℝ :=
  index.records[i]?.map fun record => cosineSimilarity encryptedQuery.vector record.embedding.vector

-- An index of encrypted documents, each under a nonce of its own.
def Holds (encryptDocument : List ℝ → Bytes → Except String (EncryptedEmbedding ℝ)) (documents : List (List ℝ))
    (index : InMemoryEncryptedIndex ℝ) : Prop :=
  List.Forall₂ (fun x record => ∃ nonce, encryptDocument x nonce = .ok (StoredChunk.embedding record)) documents index.records

-- Documents whose distances from the query differ by more than beta are ranked by
-- them, and what is found is at most beta farther than the k-th nearest.
structure Ranks (beta : ℝ) (query : List ℝ) (documents : List (List ℝ)) (index : InMemoryEncryptedIndex ℝ)
    (encrypted : EncryptedEmbedding ℝ) : Prop where
  closer : ∀ i j x y, documents[i]? = some x → documents[j]? = some y → distance query x + beta < distance query y →
    ∃ s t, similarityAt index encrypted i = some s ∧ similarityAt index encrypted j = some t ∧ t < s
  earlier : ∀ i j x y, documents[i]? = some x → documents[j]? = some y → distance query x + beta < distance query y →
    ∀ topK n, Hit index encrypted topK n j → ∃ m < n, Hit index encrypted topK m i
  near : ∀ topK n i x worst, Hit index encrypted topK n i → documents[i]? = some x → kthNearest query documents topK = some worst →
    distance query x ≤ worst + beta

def BetaFaithful (beta : ℝ) (encryptQuery encryptDocument : List ℝ → Bytes → Except String (EncryptedEmbedding ℝ)) : Prop :=
  ∀ query documents index nonce encrypted, l2Norm query = 1 → (∀ x ∈ documents, x.length = query.length ∧ l2Norm x = 1) →
    encryptQuery query nonce = .ok encrypted → Holds encryptDocument documents index → Ranks beta query documents index encrypted

theorem distance_ofFn (v w : Fin d → ℝ) : distance (List.ofFn v) (List.ofFn w) = ‖point v - point w‖ := by
  rw [distance,zipWith_ofFn,l2Norm_ofFn]
  rfl

section Ranking
variable {index : InMemoryEncryptedIndex ℝ} {encrypted : EncryptedEmbedding ℝ} {query : List ℝ} {documents : List (List ℝ)} {beta : ℝ}

theorem hit_of_rank (rank : (topKBySimilarity encrypted.vector (index.records.map StoredChunk.embedding) topK)[n]? = some (i,score))
    (found : index.records[i]? = some record) : Hit index encrypted topK n i := by
  refine ⟨score,record,rank,found,?_⟩
  rw [search_getElem?,rank,Option.bind_some]
  simp [found]

theorem hit_before {i j topK n : Nat} {a b : StoredChunk ℝ} (first : index.records[i]? = some a) (second : index.records[j]? = some b)
    (closer : cosineSimilarity encrypted.vector b.embedding.vector < cosineSimilarity encrypted.vector a.embedding.vector)
    (hit : Hit index encrypted topK n j) : ∃ m < n, Hit index encrypted topK m i := by
  obtain ⟨score,_,rank,_,_⟩ := hit
  obtain ⟨m,earlier,rank'⟩ := topK_before (by rw [List.getElem?_map,first]; rfl) (by rw [List.getElem?_map,second]; rfl) closer rank
  exact ⟨m,earlier,hit_of_rank rank' first⟩

-- The documents no farther than some distance.
noncomputable def within (query : List ℝ) (documents : List (List ℝ)) (D : ℝ) : List Nat :=
  (documents.zipIdx.filter fun entry => distance query entry.1 ≤ D).map Prod.snd

theorem mem_within (member : j ∈ within query documents D) : ∃ y, documents[j]? = some y ∧ distance query y ≤ D := by
  obtain ⟨⟨y,idx⟩,listed,rfl⟩ := List.mem_map.mp member
  obtain ⟨present,close⟩ := List.mem_filter.mp listed
  exact ⟨y,List.mem_zipIdx_iff_getElem?.mp present,of_decide_eq_true close⟩

theorem within_nodup (query : List ℝ) (documents : List (List ℝ)) (D : ℝ) : (within query documents D).Nodup := by
  refine List.Nodup.sublist (List.filter_sublist.map Prod.snd) ?_
  rw [List.zipIdx_map_snd]
  exact List.nodup_range'

-- At least k of them are no farther than the k-th nearest.
theorem within_count (worst : kthNearest query documents topK = some D) (some_ : 0 < topK) : topK ≤ (within query documents D).length := by
  have counts : (within query documents D).length = (documents.map (distance query)).countP (· ≤ D) := by
    rw [within,List.length_map,←List.countP_eq_length_filter,List.countP_map]
    conv_rhs => rw [←List.zipIdx_map_fst 0 documents]
    rw [List.countP_map]
    rfl
  have sorted := List.pairwise_insertionSort (· ≤ ·) (documents.map (distance query))
  obtain ⟨inside,at_⟩ := List.getElem?_eq_some_iff.mp worst
  have first : (((documents.map (distance query)).insertionSort (· ≤ ·)).take topK).countP (· ≤ D) = topK := by
    rw [List.countP_eq_length.mpr,List.length_take,Nat.min_eq_left (by omega)]
    intro x member
    obtain ⟨m,short,rfl⟩ := List.mem_iff_getElem.mp member
    rw [List.getElem_take]
    rw [List.length_take] at short
    refine decide_eq_true ?_
    rcases Nat.lt_or_eq_of_le (show m ≤ topK - 1 by omega) with before | last
    · exact (List.pairwise_iff_getElem.mp sorted m (topK - 1) (by omega) inside before).trans at_.le
    · subst last; exact at_.le
  rw [counts,←(List.perm_insertionSort (· ≤ ·) (documents.map (distance query))).countP_eq]
  calc topK = _ := first.symm
    _ ≤ _ := (List.take_sublist topK _).countP_le

theorem ranks_of_similarity (holds : index.records.length = documents.length)
    (similar : ∀ (i j : Nat) (x y : List ℝ) (a b : StoredChunk ℝ), documents[i]? = some x → documents[j]? = some y → index.records[i]? = some a → index.records[j]? = some b →
      distance query x + beta < distance query y →
      cosineSimilarity encrypted.vector b.embedding.vector < cosineSimilarity encrypted.vector a.embedding.vector) :
    Ranks beta query documents index encrypted := by
  have record {i : Nat} {x : List ℝ} (listed : documents[i]? = some x) : ∃ a, index.records[i]? = some a := by
    have inside := (List.getElem?_eq_some_iff.mp listed).1
    exact ⟨_,List.getElem?_eq_getElem (by omega)⟩
  refine ⟨fun i j x y first second apart => ?_,fun i j x y first second apart topK n hit => ?_,
    fun topK n i x worst hit listed nearest => ?_⟩
  · obtain ⟨a,found⟩ := record first
    obtain ⟨b,found'⟩ := record second
    exact ⟨_,_,by rw [similarityAt,found]; rfl,by rw [similarityAt,found']; rfl,similar i j x y a b first second found found' apart⟩
  · obtain ⟨a,found⟩ := record first
    obtain ⟨b,found'⟩ := record second
    exact hit_before found found' (similar i j x y a b first second found found' apart) hit
  · by_contra far
    obtain ⟨score,_,rank,_,_⟩ := hit
    have below : n < topK := by
      rw [topK_getElem?] at rank
      split at rank
      · assumption
      · cases rank
    have covered : within query documents worst ⊆
        ((topKBySimilarity encrypted.vector (index.records.map StoredChunk.embedding) topK).take n).map Prod.fst := by
      intro j member
      obtain ⟨y,listed',close⟩ := mem_within member
      obtain ⟨a,found⟩ := record listed'
      obtain ⟨b,found'⟩ := record listed
      have closer := similar j i y x a b listed' listed found found' (by linarith)
      obtain ⟨m,earlier,_,_,rank',_,_⟩ := hit_before found found' closer (hit_of_rank rank found')
      exact List.mem_map.mpr ⟨_,List.mem_of_getElem? (by rw [List.getElem?_take,if_pos earlier]; exact rank'),rfl⟩
    have few := ((within_nodup query documents worst).subperm covered).length_le
    rw [List.length_map,List.length_take] at few
    have many := within_count nearest (by omega)
    omega

-- Noise whose shares on the query and on the documents are at most half of beta together
-- keeps the order of distances that differ by more than beta.
theorem faithful_of_noisy {s a b beta : ℝ} {encryptQuery encryptDocument : List ℝ → Bytes → Except String (EncryptedEmbedding ℝ)}
    (scale : 0 < s) (low : 0 ≤ a) (low' : 0 ≤ b) (budget : a + b ≤ beta / 2) (half : beta ≤ 2) (short : a < 1) (short' : b < 1)
    (queries : Noisy s a encryptQuery) (stored : Noisy s b encryptDocument) : BetaFaithful beta encryptQuery encryptDocument := by
  intro query documents index nonce encrypted unit units made holds
  refine ranks_of_similarity holds.length_eq.symm fun i j x y c e first second found found' apart => ?_
  have sealed_ {i : Nat} {x : List ℝ} {c : StoredChunk ℝ} (listed : documents[i]? = some x) (found : index.records[i]? = some c) :
      ∃ nonce, encryptDocument x nonce = .ok c.embedding := by
    obtain ⟨inside,is⟩ := List.getElem?_eq_some_iff.mp listed
    obtain ⟨inside',is'⟩ := List.getElem?_eq_some_iff.mp found
    have pair := List.forall₂_iff_get.mp holds |>.2 i inside inside'
    rwa [List.get_eq_getElem,List.get_eq_getElem,is,is'] at pair
  obtain ⟨nonce',made'⟩ := sealed_ first found
  obtain ⟨nonce'',made''⟩ := sealed_ second found'
  obtain ⟨sized,one⟩ := units x (List.mem_of_getElem? first)
  obtain ⟨sized',one'⟩ := units y (List.mem_of_getElem? second)
  generalize length : query.length = d at sized sized'
  obtain ⟨q,rfl⟩ := exists_ofFn length
  obtain ⟨v,rfl⟩ := exists_ofFn sized
  obtain ⟨w,rfl⟩ := exists_ofFn sized'
  obtain ⟨n,is,quiet⟩ := queries d q nonce encrypted made
  obtain ⟨m,is',quiet'⟩ := stored d v nonce' c.embedding made'
  obtain ⟨k,is'',quiet''⟩ := stored d w nonce'' e.embedding made''
  rw [l2Norm_ofFn] at unit one one'
  rw [distance_ofFn,distance_ofFn] at apart
  have loud {v n : Fin d → ℝ} {share : ℝ} (unit : ‖point v‖ = 1) (less : share < 1) (quiet : ‖point n‖ ≤ share * s) :
      point (s • v + n) ≠ 0 := (angle_noise unit (lt_of_le_of_lt quiet (by nlinarith))).1
  rw [is,is',is'',cosineSimilarity_ofFn (loud unit short quiet) (loud one' short' quiet''),
    cosineSimilarity_ofFn (loud unit short quiet) (loud one short' quiet')]
  exact cos_order unit one one' scale low low' budget half short short' quiet quiet' quiet'' apart

end Ranking

end RagCore
