import GeloLightrag.XorMm.Multimap

namespace XorMm
open Foundation
variable {B : Type} [ByteStoreBackend B] [FaithfulStore B] [AesGcm] [Sha256] {c : XorMmClient B} {params : XorMmParams}
  {entries : List (LogicalKey × List LogicalValue)}

-- A client that answers for the entries, whatever it was asked before.
structure Stocked (c : XorMmClient B) (params : XorMmParams) (entries : List (LogicalKey × List LogicalValue)) : Prop where
  own : c.params = params
  buckets : 0 < params.nBuckets
  distinct : (entries.map Prod.fst).Nodup
  table : ∃ t, Serves c t ∧ Holds params c.seed1 c.seed2 entries t

theorem Stocked.getBatch (stocked : Stocked c params entries) (keys : List LogicalKey) :
    (c.getBatch keys).1 = .ok (keys.map (lookup params entries)) ∧ Stocked (c.getBatch keys).2 params entries := by
  obtain ⟨rfl,buckets,distinct,t,serves,held⟩ := stocked
  obtain ⟨answered,kept,same,seed1,seed2⟩ := serves.getBatch buckets keys
  refine ⟨answered.trans (congrArg Except.ok (List.map_congr_left fun k _ => choose_lookup buckets distinct held rfl serves.stash k)),same,buckets,
    distinct,t,kept,?_⟩
  rw [seed1,seed2]
  exact held

theorem Stocked.get (stocked : Stocked c params entries) (key : LogicalKey) :
    (c.get key).1 = .ok (lookup params entries key) ∧ Stocked (c.get key).2 params entries := by
  obtain ⟨answered,kept⟩ := stocked.getBatch [key]
  unfold XorMmClient.get
  cases ran : c.getBatch [key] with
  | mk answer after =>
      rw [ran] at answered kept
      cases answered
      exact ⟨rfl,kept⟩

omit [FaithfulStore B] in
-- No entry can be placed in no buckets.
theorem build_buckets {key seed1 seed2 : Bytes} {backend : B} (some_ : entries ≠ [])
    (made : XorMmClient.build entries params key seed1 seed2 backend = .ok c) : 0 < params.nBuckets := by
  obtain ⟨_,t,_,_,placed,_⟩ := build_made made
  obtain ⟨entry,rest,rfl⟩ := List.exists_cons_of_ne_nil some_
  rw [Nat.pos_iff_ne_zero]
  intro none_
  unfold layOut at placed
  rw [List.map_cons,List.foldlM_cons] at placed
  obtain ⟨_,first,_⟩ := except_bind_ok.mp placed
  unfold placeEntry at first
  obtain ⟨_,hashed,_⟩ := except_bind_ok.mp first
  rw [hashBucket,if_pos none_] at hashed
  cases hashed

theorem build_stocked {key seed1 seed2 : Bytes} {backend : B} (some_ : entries ≠ []) (distinct : (entries.map Prod.fst).Nodup)
    (made : XorMmClient.build entries params key seed1 seed2 backend = .ok c) : Stocked c params entries := by
  have buckets := build_buckets some_ made
  obtain ⟨same,rfl,rfl,t,serves,held⟩ := build_serves buckets distinct made
  exact ⟨same,buckets,distinct,t,serves,held⟩

end XorMm
