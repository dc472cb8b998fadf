import GeloLightrag.Foundation.Bytes
import Mathlib.Logic.Function.Basic
import Mathlib.Data.List.Nodup

namespace RingOram
open Foundation

structure EncryptedBucket where
  bucketId : Nat
  writeCounter : Nat
  ciphertext : Bytes
deriving DecidableEq,Repr

-- How a call can fail: an Err from the server, the operation's future dropped
-- while it waits, or a panic inside the backend.
inductive BackendFault where
  | refused (error : String)
  | dropped
  | panicked (text : String)
deriving DecidableEq,Repr

class BlockBackend (B : Type) where
  readPath : List Nat → B → Except BackendFault (List EncryptedBucket) × B
  writeBuckets : List EncryptedBucket → B → Except BackendFault Unit × B
  numBuckets : B → Nat

-- Buckets overwritten one after another.
def store (updates : List EncryptedBucket) (held : Nat → EncryptedBucket) : Nat → EncryptedBucket :=
  updates.foldl (fun held eb => Function.update held eb.bucketId eb) held

theorem store_elsewhere (updates : List EncryptedBucket) (held : Nat → EncryptedBucket)
    (untouched : ∀ eb ∈ updates, eb.bucketId ≠ b) : store updates held b = held b := by
  induction updates generalizing held with
  | nil => rfl
  | cons eb rest ih =>
      show store rest (Function.update held eb.bucketId eb) b = _
      rw [ih _ fun other member => untouched other (List.mem_cons_of_mem _ member)]
      exact Function.update_of_ne (untouched eb List.mem_cons_self).symm _ _

theorem store_at (updates : List EncryptedBucket) (held : Nat → EncryptedBucket)
    (distinct : (updates.map EncryptedBucket.bucketId).Nodup) (member : eb ∈ updates) :
    store updates held eb.bucketId = eb := by
  induction updates generalizing held with
  | nil => cases member
  | cons first rest ih =>
      rw [List.map_cons,List.nodup_cons] at distinct
      show store rest (Function.update held first.bucketId first) eb.bucketId = eb
      rcases List.mem_cons.mp member with rfl | later
      · rw [store_elsewhere rest _ fun other inside same => distinct.1 (List.mem_map.mpr ⟨other,inside,same⟩)]
        exact Function.update_self ..
      · exact ih _ distinct.2 later

theorem store_local (updates : List EncryptedBucket) {held other : Nat → EncryptedBucket} (same : held b = other b) :
    store updates held b = store updates other b := by
  induction updates generalizing held other with
  | nil => exact same
  | cons eb rest ih =>
      apply ih
      by_cases here : b = eb.bucketId
      · subst here; simp
      · simp [Function.update_of_ne here,same]

-- A backend that stores and returns buckets faithfully whenever it answers. A
-- refused write stored nothing; of a dropped one any buckets may have arrived.
class LossyBackend (B : Type) [BlockBackend B] where
  bucket : B → Nat → EncryptedBucket
  read_kept : ∀ (ids : List Nat) (b : B),
    bucket (BlockBackend.readPath ids b).2 = bucket b ∧
      BlockBackend.numBuckets (BlockBackend.readPath ids b).2 = BlockBackend.numBuckets b
  read_answer : ∀ (ids : List Nat) (b : B), (∀ i ∈ ids, i < BlockBackend.numBuckets b) →
    (BlockBackend.readPath ids b).1 = .ok (ids.map (bucket b)) ∨
      (∃ error, (BlockBackend.readPath ids b).1 = .error (.refused error)) ∨
        (BlockBackend.readPath ids b).1 = .error .dropped
  write_count : ∀ (updates : List EncryptedBucket) (b : B),
    BlockBackend.numBuckets (BlockBackend.writeBuckets updates b).2 = BlockBackend.numBuckets b
  write_answer : ∀ (updates : List EncryptedBucket) (b : B),
    (∀ eb ∈ updates, eb.bucketId < BlockBackend.numBuckets b) →
    (BlockBackend.writeBuckets updates b).1 = .ok () ∧
        bucket (BlockBackend.writeBuckets updates b).2 = store updates (bucket b) ∨
      (∃ error, (BlockBackend.writeBuckets updates b).1 = .error (.refused error)) ∧
        bucket (BlockBackend.writeBuckets updates b).2 = bucket b ∨
      (BlockBackend.writeBuckets updates b).1 = .error .dropped ∧
        ∀ i, bucket (BlockBackend.writeBuckets updates b).2 i = bucket b i ∨
          bucket (BlockBackend.writeBuckets updates b).2 i = store updates (bucket b) i

-- A backend in a state from which it answers every call within the tree.
def Steady {B : Type} [BlockBackend B] [LossyBackend B] (b : B) : Prop :=
  ∃ good : B → Prop, good b ∧ ∀ b, good b →
    (∀ ids : List Nat, (∀ i ∈ ids, i < BlockBackend.numBuckets b) →
      (BlockBackend.readPath ids b).1 = .ok (ids.map (LossyBackend.bucket b)) ∧ good (BlockBackend.readPath ids b).2) ∧
    ∀ updates : List EncryptedBucket, (∀ eb ∈ updates, eb.bucketId < BlockBackend.numBuckets b) →
      (BlockBackend.writeBuckets updates b).1 = .ok () ∧ good (BlockBackend.writeBuckets updates b).2

theorem Steady.read {B : Type} [BlockBackend B] [LossyBackend B] {b : B} (steady : Steady b)
    (inside : ∀ i ∈ ids, i < BlockBackend.numBuckets b) :
    (BlockBackend.readPath ids b).1 = .ok (ids.map (LossyBackend.bucket b)) ∧ Steady (BlockBackend.readPath ids b).2 := by
  obtain ⟨good,now,next⟩ := steady
  have answer := (next b now).1 ids inside
  exact ⟨answer.1,good,answer.2,next⟩

theorem Steady.write {B : Type} [BlockBackend B] [LossyBackend B] {b : B} (steady : Steady b)
    (inside : ∀ eb ∈ updates, eb.bucketId < BlockBackend.numBuckets b) :
    (BlockBackend.writeBuckets updates b).1 = .ok () ∧ Steady (BlockBackend.writeBuckets updates b).2 := by
  obtain ⟨good,now,next⟩ := steady
  have answer := (next b now).2 updates inside
  exact ⟨answer.1,good,answer.2,next⟩

class FaithfulBackend (B : Type) [BlockBackend B] [LossyBackend B] : Prop where
  reads : ∀ (ids : List Nat) (b : B), (∀ i ∈ ids, i < BlockBackend.numBuckets b) →
    (BlockBackend.readPath ids b).1 = .ok (ids.map (LossyBackend.bucket b))
  writes : ∀ (updates : List EncryptedBucket) (b : B),
    (∀ eb ∈ updates, eb.bucketId < BlockBackend.numBuckets b) → (BlockBackend.writeBuckets updates b).1 = .ok ()

theorem FaithfulBackend.steady {B : Type} [BlockBackend B] [LossyBackend B] [FaithfulBackend B] (b : B) : Steady b :=
  ⟨fun _ => True,trivial,fun b _ => ⟨fun ids inside => ⟨FaithfulBackend.reads ids b inside,trivial⟩,
    fun updates inside => ⟨FaithfulBackend.writes updates b inside,trivial⟩⟩⟩

structure InMemoryBlockBackend where
  buckets : List EncryptedBucket
  readCount : Nat
deriving DecidableEq

namespace InMemoryBlockBackend

def new (numBuckets : Nat) : InMemoryBlockBackend :=
  ⟨(List.range numBuckets).map fun bucketId => ⟨bucketId,0,[]⟩,0⟩

def outOfBounds : BackendFault := .panicked "index out of bounds"

def bucket (be : InMemoryBlockBackend) (i : Nat) : EncryptedBucket := be.buckets.getD i ⟨i,0,[]⟩

def readPath (ids : List Nat) (be : InMemoryBlockBackend) :
    Except BackendFault (List EncryptedBucket) × InMemoryBlockBackend :=
  (ids.mapM fun i => (be.buckets[i]?).elim (.error outOfBounds) .ok,{be with readCount:=be.readCount+ids.length})

def writeBuckets : List EncryptedBucket → InMemoryBlockBackend → Except BackendFault Unit × InMemoryBlockBackend
  | [],be => (.ok (),be)
  | eb :: rest,be =>
    if eb.bucketId < be.buckets.length then writeBuckets rest {be with buckets:=be.buckets.set eb.bucketId eb}
    else (.error outOfBounds,be)

instance : BlockBackend InMemoryBlockBackend where
  readPath := readPath
  writeBuckets := writeBuckets
  numBuckets be := be.buckets.length

theorem readPath_ok (be : InMemoryBlockBackend) (inside : ∀ i ∈ ids, i < be.buckets.length) :
    (be.readPath ids).1 = .ok (ids.map be.bucket) := by
  unfold readPath
  induction ids with
  | nil => rfl
  | cons i rest ih =>
      have here := inside i List.mem_cons_self
      have later := ih fun j member => inside j (List.mem_cons_of_mem _ member)
      simp only at later
      simp only [List.mapM_cons,List.map_cons,later]
      simp [bucket,here,bind,Except.bind,pure,Except.pure]

theorem bucket_set (be : InMemoryBlockBackend) (inside : eb.bucketId < be.buckets.length) :
    bucket {be with buckets:=be.buckets.set eb.bucketId eb} = Function.update be.bucket eb.bucketId eb := by
  funext i
  by_cases same : i = eb.bucketId
  · subst same; simp [bucket,inside]
  · simp [bucket,Ne.symm same,Function.update_of_ne same]

theorem writeBuckets_ok (be : InMemoryBlockBackend) (inside : ∀ eb ∈ updates, eb.bucketId < be.buckets.length) :
    (be.writeBuckets updates).1 = .ok () ∧ bucket (be.writeBuckets updates).2 = store updates be.bucket := by
  induction updates generalizing be with
  | nil => exact ⟨rfl,rfl⟩
  | cons eb rest ih =>
      have here := inside eb List.mem_cons_self
      rw [writeBuckets,if_pos here]
      have later := ih {be with buckets:=be.buckets.set eb.bucketId eb} fun other member => by
        simpa using inside other (List.mem_cons_of_mem _ member)
      rwa [bucket_set be here] at later

theorem writeBuckets_count (updates : List EncryptedBucket) (be : InMemoryBlockBackend) :
    (be.writeBuckets updates).2.buckets.length = be.buckets.length := by
  induction updates generalizing be with
  | nil => rfl
  | cons eb rest ih =>
      unfold writeBuckets
      split
      · rw [ih]; exact List.length_set
      · rfl

instance : LossyBackend InMemoryBlockBackend where
  bucket := bucket
  read_kept _ _ := ⟨rfl,rfl⟩
  read_answer _ be inside := .inl (readPath_ok be inside)
  write_count := writeBuckets_count
  write_answer _ be inside := .inl (writeBuckets_ok be inside)

instance : FaithfulBackend InMemoryBlockBackend where
  reads _ be inside := readPath_ok be inside
  writes _ be inside := (writeBuckets_ok be inside).1

end InMemoryBlockBackend
end RingOram
