import GeloLightrag.Foundation.Interleaving
import GeloLightrag.RestBackend.Server

namespace RestBackend
open Foundation

-- Write requests in flight on one tree, each with the inserts it has left. Any of them
-- goes next; a call that was dropped goes on like the others.
inductive Finishes [Msgpack] : Tree → List (List WireBucket) → Tree → Prop where
  | done (finished : ∀ inserts ∈ inFlight, inserts = []) : Finishes tree inFlight tree
  | insert {before : List (List WireBucket)} (rest : Finishes (insertBucket tree w) (before ++ inserts :: behind) final) :
      Finishes tree (before ++ (w :: inserts) :: behind) final

-- The stored bucket of each id written is the one of the highest counter.
def Newest [Msgpack] (requests : List (List WireBucket)) (final : Tree) : Prop :=
  ∀ w ∈ requests.flatten, ∃ stored ∈ requests.flatten, stored.bucketId = w.bucketId ∧
    final (bucketKey w.bucketId) = some (Msgpack.toVec stored) ∧
      ∀ other ∈ requests.flatten, other.bucketId = w.bucketId → other.writeCounter ≤ stored.writeCounter

def Serialised [Msgpack] (requests : List (List WireBucket)) : Prop :=
  ∀ tree final, Finishes tree requests final → Newest requests final

def Distinct (requests : List (List WireBucket)) : Prop :=
  requests.flatten.Pairwise fun a b => a.bucketId = b.bucketId → a.writeCounter ≠ b.writeCounter

-- No two requests write one id, and none writes it last with less than its highest counter.
structure Alone (requests : List (List WireBucket)) : Prop where
  own : ∀ before inserts behind, requests = before ++ inserts :: behind →
    ∀ w ∈ inserts, ∀ other ∈ (before ++ behind).flatten, other.bucketId ≠ w.bucketId
  rising : ∀ inserts ∈ requests, ∀ bid w, latest inserts bid = some w →
    ∀ other ∈ inserts, other.bucketId = bid → other.writeCounter ≤ w.writeCounter

theorem latest_mem (found : latest inserts bid = some w) : w ∈ inserts ∧ w.bucketId = bid := by
  have member := List.mem_filter.mp (List.mem_of_getLast? found)
  exact ⟨member.1,of_decide_eq_true member.2⟩

theorem latest_some (member : w ∈ inserts) : ∃ last, latest inserts w.bucketId = some last := by
  cases found : latest inserts w.bucketId with
  | some last => exact ⟨last,rfl⟩
  | none =>
      have listed : w ∈ inserts.filter (·.bucketId = w.bucketId) := List.mem_filter.mpr ⟨member,by simp⟩
      rw [List.getLast?_eq_none_iff.mp found] at listed
      cases listed

theorem mem_flatten_around {before : List (List WireBucket)} : w ∈ (before ++ inserts :: behind).flatten ↔ w ∈ inserts ∨ w ∈ (before ++ behind).flatten := by
  simp only [List.flatten_append,List.flatten_cons,List.mem_append]
  tauto

section Runs
variable [Msgpack] {requests : List (List WireBucket)} {tree final : Tree}

theorem finishes_iff : Finishes tree requests final ↔ ∃ order, Interleaves requests order ∧ final = order.foldl insertBucket tree := by
  constructor
  · intro finishes
    induction finishes with
    | done finished => exact ⟨[],.done finished,rfl⟩
    | insert rest ih =>
        obtain ⟨order,taken,is⟩ := ih
        exact ⟨_ :: order,.next taken,is⟩
  · rintro ⟨order,taken,rfl⟩
    induction taken generalizing tree with
    | done finished => exact .done finished
    | next rest ih => exact .insert ih

-- With one request left to its end, its last bucket of each id is what is stored.
theorem last_stored (before : List (List WireBucket)) (behind : List (List WireBucket)) (found : latest inserts bid = some w) :
    ∃ final, Finishes (fun _ => none) (before ++ inserts :: behind) final ∧ final (bucketKey bid) = some (Msgpack.toVec w) := by
  refine ⟨_,finishes_iff.mpr ⟨_,.last before inserts behind,rfl⟩,?_⟩
  rw [inserted_bucket,latest_append,found]
  rfl

theorem toVec_injective : Function.Injective (Msgpack.toVec : WireBucket → Bytes) := by
  intro w w' same
  have back := congrArg Msgpack.fromSlice same
  rw [Msgpack.faithful,Msgpack.faithful] at back
  exact Except.ok.inj back

theorem Serialised.highest {before : List (List WireBucket)} (serialised : Serialised (before ++ inserts :: behind)) (found : latest inserts bid = some w) :
    ∀ other ∈ (before ++ inserts :: behind).flatten, other.bucketId = bid → other.writeCounter ≤ w.writeCounter := by
  obtain ⟨final,finishes,stored⟩ := last_stored before behind found
  obtain ⟨member,rfl⟩ := latest_mem found
  obtain ⟨newest,_,_,is,highest⟩ := serialised _ _ finishes w (mem_flatten_around.mpr (.inl member))
  obtain rfl := toVec_injective (Option.some.inj (is.symm.trans stored))
  exact highest

theorem Serialised.alone (distinct : Distinct requests) (serialised : Serialised requests) : Alone requests := by
  constructor
  · rintro before inserts behind rfl w member other elsewhere same
    obtain ⟨last,found⟩ := latest_some member
    obtain ⟨inserts',listed,member'⟩ := List.mem_flatten.mp elsewhere
    obtain ⟨last',found'⟩ := latest_some member'
    have inside := latest_mem found
    have inside' := latest_mem found'
    have apart : last'.writeCounter ≠ last.writeCounter := by
      rw [Distinct,List.flatten_append,List.flatten_cons] at distinct
      obtain ⟨_,later,earlier⟩ := List.pairwise_append.mp distinct
      obtain ⟨_,_,further⟩ := List.pairwise_append.mp later
      rcases List.mem_append.mp listed with before' | behind'
      · exact earlier last' (List.mem_flatten_of_mem before' inside'.1) last (List.mem_append_left _ inside.1)
          (inside'.2.trans (same.trans inside.2.symm))
      · exact (further last inside.1 last' (List.mem_flatten_of_mem behind' inside'.1)
          (inside.2.trans (same.symm.trans inside'.2.symm))).symm
    have above := serialised.highest found last' (mem_flatten_around.mpr (.inr (List.mem_flatten_of_mem listed inside'.1)))
      (inside'.2.trans same)
    have here : inserts' ∈ before ++ inserts :: behind := by
      rcases List.mem_append.mp listed with before' | behind'
      · exact List.mem_append_left _ before'
      · exact List.mem_append_right _ (List.mem_cons_of_mem _ behind')
    obtain ⟨before',behind',whole⟩ := List.append_of_mem here
    rw [whole] at serialised
    have below := serialised.highest found' last (whole ▸ mem_flatten_around.mpr (.inl inside.1)) (inside.2.trans same.symm)
    exact apart (UInt32.le_antisymm above below)
  · intro inserts member bid w found other inside same
    obtain ⟨before,behind,rfl⟩ := List.append_of_mem member
    exact serialised.highest found other (mem_flatten_around.mpr (.inl inside)) same

-- The inserts of one id come from one request, so they keep its order.
theorem Alone.latest {before : List (List WireBucket)} (alone : Alone (before ++ inserts :: behind)) (taken : Interleaves (before ++ inserts :: behind) order)
    (member : w ∈ inserts) : latest order w.bucketId = latest inserts w.bucketId := by
  have others : (before ++ behind).flatten.filter (·.bucketId = w.bucketId) = [] :=
    List.filter_eq_nil_iff.mpr fun other elsewhere same => alone.own _ _ _ rfl w member other elsewhere (of_decide_eq_true same)
  have all : (order.filter (·.bucketId = w.bucketId)).Perm (inserts.filter (·.bucketId = w.bucketId)) := by
    have kept := taken.perm.filter (·.bucketId = w.bucketId)
    rw [List.flatten_append,List.filter_append,List.append_eq_nil_iff] at others
    rwa [List.flatten_append,List.flatten_cons,List.filter_append,List.filter_append,others.1,others.2,List.nil_append,
      List.append_nil] at kept
  have ordered := (taken.sublist inserts (List.mem_append_right _ List.mem_cons_self)).filter (·.bucketId = w.bucketId)
  unfold RestBackend.latest
  rw [ordered.eq_of_length all.length_eq.symm]

theorem Alone.serialised (alone : Alone requests) : Serialised requests := by
  intro tree final finishes w member
  obtain ⟨order,taken,rfl⟩ := finishes_iff.mp finishes
  obtain ⟨inserts,listed,inside⟩ := List.mem_flatten.mp member
  obtain ⟨before,behind,rfl⟩ := List.append_of_mem listed
  obtain ⟨last,found⟩ := latest_some inside
  have here := latest_mem found
  refine ⟨last,mem_flatten_around.mpr (.inl here.1),here.2,?_,fun other written same => ?_⟩
  · rw [inserted_bucket,alone.latest taken inside,found]
    rfl
  · rcases mem_flatten_around.mp written with own | elsewhere
    · exact alone.rising inserts listed _ last found other own same
    · exact absurd same (alone.own _ _ _ rfl w inside other elsewhere)

-- Requests in flight together leave the newest buckets, in whatever order their inserts
-- are taken, exactly when no id is written by two of them or out of order by one.
theorem serialised_iff (distinct : Distinct requests) : Serialised requests ↔ Alone requests := ⟨Serialised.alone distinct,Alone.serialised⟩

end Runs

theorem serialised_one : @Serialised rmp [[⟨3,1,[7]⟩,⟨3,2,[8]⟩]] ↔ Alone [[⟨3,1,[7]⟩,⟨3,2,[8]⟩]] := @serialised_iff rmp _ (by
  unfold Distinct
  decide)

-- The stale bucket of a dropped call arrives after the new one.
theorem stale_wins : Distinct [[⟨0,1,[1]⟩],[⟨0,2,[2]⟩]] ∧ ¬ @Serialised rmp [[⟨0,1,[1]⟩],[⟨0,2,[2]⟩]] ∧
    ∃ final, @Finishes rmp (fun _ => none) [[⟨0,1,[1]⟩],[⟨0,2,[2]⟩]] final ∧ final (bucketKey 0) = some (rmp.toVec ⟨0,1,[1]⟩) := by
  have distinct : Distinct [[⟨0,1,[1]⟩],[⟨0,2,[2]⟩]] := by unfold Distinct; decide
  refine ⟨distinct,fun serialised => ?_,@last_stored rmp [⟨0,1,[1]⟩] 0 ⟨0,1,[1]⟩ [] [[⟨0,2,[2]⟩]] rfl⟩
  have alone := @Serialised.alone rmp _ distinct serialised
  exact alone.own [] [⟨0,1,[1]⟩] [[⟨0,2,[2]⟩]] rfl ⟨0,1,[1]⟩ List.mem_cons_self ⟨0,2,[2]⟩ (by decide) rfl

end RestBackend
