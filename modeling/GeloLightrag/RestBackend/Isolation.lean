import GeloLightrag.Foundation.Ranking
import GeloLightrag.RestBackend.Server
import Mathlib.Data.List.Basic

namespace RestBackend
open Foundation

-- What a pair's own requests say: the buckets written under it in order, and the
-- size it was first initialised with.
def writes (pair : String × String) : Request → List WireBucket
  | .writeBuckets pair' buckets => if pair' = pair then buckets else []
  | _ => []

def written (past : List Request) (pair : String × String) : List WireBucket := past.flatMap (writes pair)

def declares (pair : String × String) : Request → Option UInt32
  | .init pair' numBuckets => if pair' = pair then some numBuckets else none
  | _ => none

def declared (past : List Request) (pair : String × String) : Option UInt32 := (past.filterMap (declares pair)).head?

-- One map for each (tenant, index): a read answers each id with the last bucket
-- written there, and fails exactly when one was never written.
def Served (past : List Request) : Request → Reply → Prop
  | .init pair numBuckets,reply =>
    reply = match declared past pair with
      | some existingCount => if existingCount ≠ numBuckets then .error (.error (mismatch existingCount numBuckets)) else .ok .done
      | none => .ok .done
  | .writeBuckets _ _,reply => reply = .ok .done
  | .readPath pair bucketIds,reply =>
    (∀ buckets, reply = .ok (.buckets buckets) ↔ bucketIds.map (latest (written past pair)) = buckets.map some) ∧
      ((∃ bid, reply = .error (.error (.missingBucket bid))) ↔ ∃ bid ∈ bucketIds, latest (written past pair) bid = none)

-- Every request under the pairs in use is served so, whatever came before, and only
-- requests under its own pair have a say in its reply.
def Isolated [Msgpack] (used : Set (String × String)) : Prop :=
  ∀ past request, (∀ r ∈ past ++ [request], r.pair ∈ used) →
    Served past request (reply past request) ∧
      reply past request = reply (past.filter fun r => r.pair = request.pair) request

section Histories

theorem written_snoc (past : List Request) (request : Request) (pair : String × String) :
    written (past ++ [request]) pair = written past pair ++ writes pair request := by
  simp [written]

theorem declared_snoc (past : List Request) (request : Request) (pair : String × String) :
    declared (past ++ [request]) pair = (declared past pair).or (declares pair request) := by
  unfold declared
  rw [List.filterMap_append,List.head?_append]
  cases spoken : declares pair request <;> simp [spoken]

theorem writes_elsewhere (other : request.pair ≠ pair) : writes pair request = [] := by
  cases request with
  | init | readPath => rfl
  | writeBuckets pair' buckets => exact if_neg other

theorem declares_elsewhere (other : request.pair ≠ pair) : declares pair request = none := by
  cases request with
  | readPath | writeBuckets => rfl
  | init pair' numBuckets => exact if_neg other

theorem written_own (past : List Request) (pair : String × String) :
    written (past.filter fun r => r.pair = pair) pair = written past pair := by
  induction past using List.reverseRecOn with
  | nil => rfl
  | append_singleton past request ih =>
      rw [List.filter_append,written_snoc]
      by_cases own : request.pair = pair
      · have kept : [request].filter (fun r => r.pair = pair) = [request] := by simp [own]
        rw [kept,written_snoc,ih]
      · have gone : [request].filter (fun r => r.pair = pair) = [] := by simp [own]
        rw [gone,List.append_nil,ih,writes_elsewhere own,List.append_nil]

theorem declared_own (past : List Request) (pair : String × String) :
    declared (past.filter fun r => r.pair = pair) pair = declared past pair := by
  induction past using List.reverseRecOn with
  | nil => rfl
  | append_singleton past request ih =>
      rw [List.filter_append,declared_snoc]
      by_cases own : request.pair = pair
      · have kept : [request].filter (fun r => r.pair = pair) = [request] := by simp [own]
        rw [kept,declared_snoc,ih]
      · have gone : [request].filter (fun r => r.pair = pair) = [] := by simp [own]
        rw [gone,List.append_nil,ih,declares_elsewhere own,Option.or_none]

-- The reply a pair's own history calls for.
def specified (past : List Request) : Request → Reply
  | .init pair numBuckets =>
    match declared past pair with
    | some existingCount => if existingCount ≠ numBuckets then .error (.error (mismatch existingCount numBuckets)) else .ok .done
    | none => .ok .done
  | .writeBuckets _ _ => .ok .done
  | .readPath pair bucketIds =>
    match bucketIds.find? fun bid => (latest (written past pair) bid).isNone with
    | some bid => .error (.error (.missingBucket bid))
    | none => .ok (.buckets (bucketIds.filterMap (latest (written past pair))))

theorem specified_own (past : List Request) (request : Request) :
    specified (past.filter fun r => r.pair = request.pair) request = specified past request := by
  cases request with
  | init pair numBuckets =>
      show specified (past.filter fun r => r.pair = pair) _ = _
      simp only [specified,declared_own]
  | writeBuckets pair buckets => rfl
  | readPath pair bucketIds =>
      show specified (past.filter fun r => r.pair = pair) _ = _
      simp only [specified,written_own]

theorem specified_served (past : List Request) (request : Request) : Served past request (specified past request) := by
  cases request with
  | init pair numBuckets => exact rfl
  | writeBuckets pair buckets => exact rfl
  | readPath pair bucketIds =>
      simp only [Served,specified]
      cases missing : bucketIds.find? fun bid => (latest (written past pair) bid).isNone with
      | some bid =>
          have absent : latest (written past pair) bid = none := by simpa using List.find?_some missing
          have asked := List.mem_of_find?_eq_some missing
          refine ⟨fun buckets => iff_of_false (fun same => by cases same) fun all => ?_,
            iff_of_true ⟨bid,rfl⟩ ⟨bid,asked,absent⟩⟩
          have held : none ∈ buckets.map some := all ▸ List.mem_map.mpr ⟨bid,asked,absent⟩
          simp at held
      | none =>
          have all : ∀ bid ∈ bucketIds, latest (written past pair) bid ≠ none := by
            simpa [Option.isSome_iff_ne_none] using List.find?_eq_none.mp missing
          refine ⟨fun buckets => ?_,iff_of_false (fun ⟨bid,same⟩ => by cases same) fun ⟨bid,asked,absent⟩ => all bid asked absent⟩
          rw [held_all all,List.map_inj_right fun _ _ => Option.some.inj]
          exact ⟨fun same => Answer.buckets.inj (Except.ok.inj same),fun same => by rw [same]⟩

theorem count_back (n : UInt32) : UInt32.ofNat (ofLeBytes ((leBytes 4 n.toNat).take 4)) = n := by
  have whole : (leBytes 4 n.toNat).take 4 = leBytes 4 n.toNat := List.take_of_length_le (by rw [leBytes_length])
  rw [whole,word_roundtrip n.toNat_lt,UInt32.ofNat_toNat]

end Histories

section Refinement
variable [Msgpack] {past : List Request} {pair : String × String}

-- A tree that keeps what a history says of its pair.
structure Keeps (past : List Request) (pair : String × String) (tree : Tree) : Prop where
  bucket : ∀ id, tree (bucketKey id) = (latest (written past pair) id).map Msgpack.toVec
  size : tree numBucketsKey = (declared past pair).map fun n => leBytes 4 n.toNat

theorem keeps_nothing (pair : String × String) : Keeps [] pair fun _ => none := ⟨fun _ => rfl,rfl⟩

theorem initHandler_run (keeps : Keeps past pair tree) (numBuckets : UInt32) :
    initHandler numBuckets tree = match declared past pair with
      | some existingCount =>
        if existingCount ≠ numBuckets then (.error (.error (mismatch existingCount numBuckets)),tree) else (.ok .done,tree)
      | none => (.ok .done,Function.update tree numBucketsKey (some (leBytes 4 numBuckets.toNat))) := by
  unfold initHandler
  rw [keeps.size]
  cases declared past pair with
  | none => rfl
  | some existingCount =>
      have long : ¬ (leBytes 4 existingCount.toNat).length < 4 := by rw [leBytes_length]; decide
      simp only [Option.map_some,if_neg long,count_back]

theorem readBuckets_kept (keeps : Keeps past pair tree) (bucketIds : List UInt32) :
    readBuckets tree bucketIds = match bucketIds.find? (fun bid => (latest (written past pair) bid).isNone) with
      | some bid => .error (.error (.missingBucket bid))
      | none => .ok (bucketIds.filterMap (latest (written past pair))) := by
  induction bucketIds with
  | nil => rfl
  | cons bid rest ih =>
      rw [readBuckets,keeps.bucket bid,ih]
      cases held : latest (written past pair) bid with
      | none => simp [held,bind,Except.bind]
      | some w =>
          have back : Msgpack.fromSlice (Msgpack.toVec w) = .ok w := Msgpack.faithful w
          cases missing : rest.find? (fun bid => (latest (written past pair) bid).isNone) with
          | none => simp [held,missing,back,bind,Except.bind,Except.mapError,pure,Except.pure]
          | some bid' => simp [held,missing,back,bind,Except.bind,Except.mapError]

theorem Keeps.own (keeps : Keeps past request.pair tree) : Keeps (past ++ [request]) request.pair (request.handler tree).2 := by
  cases request with
  | readPath pair bucketIds =>
      have nothing : writes pair (.readPath pair bucketIds) = [] := rfl
      have silent : declares pair (.readPath pair bucketIds) = none := rfl
      exact ⟨fun id => by rw [written_snoc,Request.pair,nothing,List.append_nil]; exact keeps.bucket id,
        by rw [declared_snoc,Request.pair,silent,Option.or_none]; exact keeps.size⟩
  | writeBuckets pair buckets =>
      have all : writes pair (.writeBuckets pair buckets) = buckets := if_pos rfl
      have silent : declares pair (.writeBuckets pair buckets) = none := rfl
      refine ⟨fun id => ?_,?_⟩
      · show buckets.foldl insertBucket tree (bucketKey id) = _
        rw [inserted_bucket,written_snoc,Request.pair,all,keeps.bucket id,latest_append,Option.map_or]
        rfl
      · show buckets.foldl insertBucket tree numBucketsKey = _
        rw [inserted_sentinel,declared_snoc,keeps.size,Request.pair,silent,Option.or_none]
  | init pair numBuckets =>
      have nothing : writes pair (.init pair numBuckets) = [] := rfl
      have stated : declares pair (.init pair numBuckets) = some numBuckets := if_pos rfl
      have tree' : (initHandler numBuckets tree).2 = match declared past pair with
          | some _ => tree
          | none => Function.update tree numBucketsKey (some (leBytes 4 numBuckets.toNat)) := by
        rw [initHandler_run keeps,Request.pair]
        cases declared past pair with
        | none => rfl
        | some existingCount => simp only []; split <;> rfl
      refine ⟨fun id => ?_,?_⟩
      · show (initHandler numBuckets tree).2 (bucketKey id) = _
        have bucket : tree (bucketKey id) = (latest (written past pair) id).map Msgpack.toVec := keeps.bucket id
        rw [written_snoc,Request.pair,nothing,List.append_nil,tree',←bucket]
        cases declared past pair with
        | none => exact Function.update_of_ne (bucketKey_ne id) _ _
        | some existingCount => rfl
      · show (initHandler numBuckets tree).2 numBucketsKey = _
        have size := keeps.size
        rw [declared_snoc,Request.pair,stated,tree']
        rw [Request.pair] at size
        cases spoken : declared past pair with
        | none => exact Function.update_self ..
        | some existingCount => rw [spoken] at size; exact size

theorem Keeps.other (keeps : Keeps past pair tree) (other : request.pair ≠ pair) : Keeps (past ++ [request]) pair tree :=
  ⟨fun id => by rw [written_snoc,writes_elsewhere other,List.append_nil]; exact keeps.bucket id,
    by rw [declared_snoc,declares_elsewhere other,Option.or_none]; exact keeps.size⟩

theorem after_snoc (past : List Request) (request : Request) : after (past ++ [request]) = (handle request (after past)).2 :=
  List.foldl_append ..

-- As long as no two pairs in use share a tree, every tree keeps its own pair's map.
theorem after_keeps {used : Set (String × String)} (apart : Set.InjOn treeName used) (past : List Request)
    (within : ∀ r ∈ past, r.pair ∈ used) (inUse : pair ∈ used) : Keeps past pair (after past (treeName pair)) := by
  induction past using List.reverseRecOn with
  | nil => exact keeps_nothing pair
  | append_singleton past request ih =>
      have earlier := ih fun r member => within r (List.mem_append_left _ member)
      have here := within request (List.mem_append_right _ List.mem_cons_self)
      rw [after_snoc]
      show Keeps _ _ (Function.update (after past) (treeName request.pair) (request.handler (after past (treeName request.pair))).2 (treeName pair))
      by_cases own : request.pair = pair
      · subst own
        rw [Function.update_self]
        exact earlier.own
      · rw [Function.update_of_ne fun same => own (apart inUse here same).symm]
        exact earlier.other own

theorem reply_specified {used : Set (String × String)} (apart : Set.InjOn treeName used) (past : List Request) (request : Request)
    (within : ∀ r ∈ past ++ [request], r.pair ∈ used) : reply past request = specified past request := by
  have keeps := after_keeps apart past (fun r member => within r (List.mem_append_left _ member))
    (within request (List.mem_append_right _ List.mem_cons_self))
  cases request with
  | writeBuckets pair buckets => rfl
  | init pair numBuckets =>
      replace keeps : Keeps past pair (after past (treeName pair)) := keeps
      show (initHandler numBuckets (after past (treeName pair))).1 = _
      rw [initHandler_run keeps,specified]
      cases declared past pair with
      | none => rfl
      | some existingCount => dsimp only; split <;> rfl
  | readPath pair bucketIds =>
      replace keeps : Keeps past pair (after past (treeName pair)) := keeps
      show (readBuckets (after past (treeName pair)) bucketIds).map Answer.buckets = _
      rw [readBuckets_kept keeps,specified]
      cases bucketIds.find? fun bid => (latest (written past pair) bid).isNone <;> rfl

theorem isolated_of_apart {used : Set (String × String)} (apart : Set.InjOn treeName used) : Isolated used := by
  intro past request within
  have own := reply_specified apart past request within
  refine ⟨own ▸ specified_served past request,?_⟩
  rw [own,reply_specified apart (past.filter fun r => r.pair = request.pair) request fun r member => ?_,specified_own]
  rcases List.mem_append.mp member with earlier | here
  · exact within r (List.mem_append_left _ (List.mem_filter.mp earlier).1)
  · exact within r (List.mem_append_right _ here)

-- A bucket written under one of two pairs that share a tree is read under the other.
theorem read_across (pair pair' : String × String) (shared : treeName pair = treeName pair') :
    reply [.writeBuckets pair' [⟨0,1,[]⟩]] (.readPath pair [0]) = .ok (.buckets [⟨0,1,[]⟩]) := by
  have held : after [.writeBuckets pair' [⟨0,1,[]⟩]] (treeName pair) (bucketKey 0) = some (Msgpack.toVec ⟨0,1,[]⟩) := by
    rw [shared]
    show Function.update (fun _ => fun _ => none) (treeName pair') (insertBucket (fun _ => none) ⟨0,1,[]⟩) (treeName pair') (bucketKey 0) = _
    rw [Function.update_self]
    exact Function.update_self ..
  show (readBuckets (after [.writeBuckets pair' [⟨0,1,[]⟩]] (treeName pair)) [0]).map Answer.buckets = _
  have back : Msgpack.fromSlice (Msgpack.toVec ⟨0,1,[]⟩) = .ok ⟨0,1,[]⟩ := Msgpack.faithful _
  simp [readBuckets,held,back,bind,Except.bind,Except.mapError,pure,Except.pure,Except.map]

theorem apart_of_isolated {used : Set (String × String)} (isolated : Isolated used) : Set.InjOn treeName used := by
  intro pair inUse pair' inUse' shared
  by_contra different
  have within : ∀ r ∈ [.writeBuckets pair' [⟨0,1,[]⟩]] ++ [Request.readPath pair [0]], r.pair ∈ used := by
    simp only [List.cons_append,List.nil_append,List.forall_mem_cons]
    exact ⟨inUse',inUse,fun _ member => absurd member List.not_mem_nil⟩
  have none : latest (written [.writeBuckets pair' [⟨0,1,[]⟩]] pair) 0 = none := by
    simp [written,writes,Ne.symm different,latest]
  have served := (isolated [.writeBuckets pair' [⟨0,1,[]⟩]] (.readPath pair [0]) within).1
  obtain ⟨bid,failed⟩ := served.2.mpr ⟨0,List.mem_cons_self,none⟩
  rw [read_across pair pair' shared] at failed
  cases failed

-- The pairs in use are told apart exactly as far as their joined names are.
theorem isolated_iff (used : Set (String × String)) : Isolated used ↔ Set.InjOn treeName used := ⟨apart_of_isolated,isolated_of_apart⟩

-- The tenant "a/b" with the index "c" and the tenant "a" with the index "b/c": what one
-- writes the other reads, where nothing was ever written.
omit [Msgpack] in
theorem slash_shared :
    @reply rmp [.writeBuckets ("a","b/c") [⟨0,1,[7]⟩]] (.readPath ("a/b","c") [0]) = .ok (.buckets [⟨0,1,[7]⟩]) ∧
      @reply rmp [] (.readPath ("a/b","c") [0]) = .error (.error (.missingBucket 0)) ∧ ¬ @Isolated rmp Set.univ := by
  refine ⟨by decide +kernel,by decide +kernel,fun isolated => ?_⟩
  have apart := @apart_of_isolated rmp Set.univ isolated
  have same := apart (Set.mem_univ ("a/b","c")) (Set.mem_univ ("a","b/c")) (by decide)
  exact absurd same (by decide)

-- A slash in no tenant's name is enough.
theorem isolated_of_plain {used : Set (String × String)} (plain : ∀ pair ∈ used, '/' ∉ pair.1.toList) : Isolated used := by
  refine isolated_of_apart fun pair inUse pair' inUse' same => ?_
  have chars : pair.1.toList ++ '/' :: pair.2.toList = pair'.1.toList ++ '/' :: pair'.2.toList := by
    simpa [treeName] using congrArg String.toList same
  obtain ⟨tenant,index⟩ := separator_cancel (plain pair inUse) (plain pair' inUse') chars
  exact Prod.ext (String.toList_inj.mp tenant) (String.toList_inj.mp index)

end Refinement
end RestBackend
