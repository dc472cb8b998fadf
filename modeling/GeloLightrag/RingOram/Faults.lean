import GeloLightrag.RingOram.Refinement

namespace RingOram
open Foundation

-- The buckets a server holds, served by one that answers every call.
structure Snapshot where
  held : Nat → EncryptedBucket
  count : Nat

instance : BlockBackend Snapshot where
  readPath ids be := (.ok (ids.map be.held),be)
  writeBuckets updates be := (.ok (),{be with held:=store updates be.held})
  numBuckets be := be.count

instance : LossyBackend Snapshot where
  bucket be := be.held
  read_kept _ _ := ⟨rfl,rfl⟩
  read_answer _ _ _ := .inl rfl
  write_count _ _ := rfl
  write_answer _ _ _ := .inl ⟨rfl,rfl⟩

instance : FaithfulBackend Snapshot where
  reads _ _ _ := rfl
  writes _ _ _ := rfl

-- A server that refuses the calls which its plan says it will.
structure FlakyBackend where
  inner : InMemoryBlockBackend
  refusals : List Bool

namespace FlakyBackend

def refuses (be : FlakyBackend) : Bool := be.refusals.headD false

def timeout : BackendFault := .refused "timeout"

instance : BlockBackend FlakyBackend where
  readPath ids be :=
    if be.refuses then (.error timeout,{be with refusals:=be.refusals.tail})
    else
      let (answer,inner) := BlockBackend.readPath ids be.inner
      (answer,⟨inner,be.refusals.tail⟩)
  writeBuckets updates be :=
    if be.refuses then (.error timeout,{be with refusals:=be.refusals.tail})
    else
      let (answer,inner) := BlockBackend.writeBuckets updates be.inner
      (answer,⟨inner,be.refusals.tail⟩)
  numBuckets be := BlockBackend.numBuckets be.inner

instance : LossyBackend FlakyBackend where
  bucket be := LossyBackend.bucket be.inner
  read_kept ids be := by
    unfold BlockBackend.readPath BlockBackend.numBuckets instBlockBackend
    simp only
    split
    · exact ⟨rfl,rfl⟩
    · exact LossyBackend.read_kept ids be.inner
  read_answer ids be inside := by
    unfold BlockBackend.readPath instBlockBackend
    simp only
    split
    · exact .inr (.inl ⟨_,rfl⟩)
    · exact LossyBackend.read_answer ids be.inner inside
  write_count updates be := by
    unfold BlockBackend.writeBuckets BlockBackend.numBuckets instBlockBackend
    simp only
    split
    · rfl
    · exact LossyBackend.write_count updates be.inner
  write_answer updates be inside := by
    unfold BlockBackend.writeBuckets instBlockBackend
    simp only
    split
    · exact .inr (.inl ⟨⟨_,rfl⟩,rfl⟩)
    · exact LossyBackend.write_answer updates be.inner inside

end FlakyBackend

namespace RingOramClient
section
variable {B : Type} [BlockBackend B] [LossyBackend B] [AesGcm]
variable {c d : RingOramClient B} {memory : Memory} {tree : Nat → List Block} {op : Op} {id : BlockId}

-- The same client once its server answers again, with the buckets it then has.
def answering (c : RingOramClient B) : RingOramClient Snapshot where
  backend := ⟨LossyBackend.bucket c.backend,BlockBackend.numBuckets c.backend⟩
  params := c.params
  key := c.key
  posmap := c.posmap
  stash := c.stash
  counters := c.counters
  accessesSinceEvict := c.accessesSinceEvict
  deferEvictions := c.deferEvictions
  pendingEvictions := c.pendingEvictions
  evictCursor := c.evictCursor
  rng := c.rng
  treetopCache := c.treetopCache
  hashes := c.hashes
  scans := c.scans

theorem Ready.answering (ready : Ready c memory tree) : Ready c.answering memory tree := by
  obtain ⟨⟨⟨fits,leaves,counted,steep,cached,sized,shelf,frame⟩,recoverable,cursor⟩,quota⟩ := ready
  exact ⟨⟨⟨fits,leaves,counted,steep,cached,sized,shelf,frame⟩,recoverable,cursor⟩,quota⟩

theorem Ready.reads_back (ready : Ready c memory tree) (steady : Steady c.backend) (value : memory id = some payload)
    (room : c.Room (.read id)) : ∃ next, step c (.read id) = some (.payload payload,next) := by
  have answers : Answers c memory tree (.read id) :=
    perform_answers ready trivial room (fun unsteady => absurd steady unsteady) trivial trivial
  have meant : meaningOf c.params.blockBytes memory (.read id) = (.payload payload,memory) := by simp [meaningOf,value]
  rcases answers.step ready with ⟨next,stepped,_⟩ | ⟨_,_,_,_,unsteady,_⟩
  · rw [meant] at stepped
    exact ⟨next,stepped⟩
  · exact absurd steady unsteady

-- What is to be found after a step. An admit that its backend failed has mapped
-- its block already; a failed write has not replaced it yet.
def recollect (c : RingOramClient B) (memory : Memory) (op : Op) (reply : Reply) : Memory :=
  if reply.isFailure then remembered memory op else (meaningOf c.params.blockBytes memory op).2

def remembering (s : RingOramClient B × Memory) (op : Op) : Option (Reply × RingOramClient B × Memory) :=
  (step s.1 op).map fun answer => (answer.1,answer.2,recollect s.1 s.2 op answer.1)

-- What keeps a step harmless whatever its backend does: room in the counters, no
-- block that an unanswered eviction alone holds, and for a write a block that is
-- still in the stash and has no stale copy on the tree.
structure Harmless (c : RingOramClient B) (op : Op) : Prop where
  room : c.Room op
  spares : ∀ s, c.EvictsAt op s → s.Spares
  keeps : c.Keeps op
  alone : c.Alone op

def flushing : Nat → RingOramClient B → List (RingOramClient B)
  | 0,_ => []
  | turns+1,c => c :: match evictPath c with
    | .ok _ d => flushing turns {d with pendingEvictions:=d.pendingEvictions-1}
    | .error _ _ => []

omit [LossyBackend B] in
theorem mem_flushing {s : RingOramClient B} : s ∈ flushing turns c ↔ flushStarts turns c s := by
  induction turns generalizing c with
  | zero => simp [flushing,flushStarts]
  | succ turns ih =>
      unfold flushing flushStarts
      rw [List.mem_cons]
      cases evicted : evictPath c with
      | ok u d => simp [ih]
      | error e d => simp

-- The states of `EvictsAt`, listed.
def evictions (c : RingOramClient B) : Op → List (RingOramClient B)
  | .admitBlock id payload =>
    match admitAccess id payload c with
    | .ok _ d => d.inlineEviction.toList
    | .error _ _ => []
  | .read id =>
    match readAccess id c with
    | .ok _ d => d.inlineEviction.toList
    | .error _ _ => []
  | .write id payload =>
    if payload.length = c.params.blockBytes then
      match readAccess id c with
      | .ok _ d => d.inlineEviction.toList
      | .error _ _ => []
    else []
  | .setDeferEvictions _ => []
  | .flushEvictions => flushing c.pendingEvictions c

omit [LossyBackend B] in
theorem mem_evictions {s : RingOramClient B} : s ∈ c.evictions op ↔ c.EvictsAt op s := by
  cases op with
  | admitBlock id payload =>
      unfold evictions EvictsAt
      cases ran : admitAccess id payload c <;> simp [ran]
  | read id =>
      unfold evictions EvictsAt
      cases ran : readAccess id c <;> simp [ran]
  | write id payload =>
      unfold evictions EvictsAt
      cases ran : readAccess id c <;> simp [ran]
  | setDeferEvictions defer => simp [evictions,EvictsAt]
  | flushEvictions => exact mem_flushing

instance (c : RingOramClient B) : Decidable c.Spares :=
  match plan : c.evictionPlan with
  | .error text => .isTrue fun fresh left again => by rw [plan] at again; cases again
  | .ok (fresh,left) =>
    decidable_of_iff (((c.evictionPacked left).writing c.evictionPath fresh).1 ≠ .ok () →
        ∀ b ∈ c.evictionPath, ∀ x ∈ fresh b, b < c.params.top ∨ (c.evictionPacked left).arrived c.evictionPath fresh b = true ∨
          ∃ p, c.posmap x.id = some p ∧ ∃ d ∈ c.params.path p,
            ∃ y ∈ refilled c.params.top c.evictionPath fresh ((c.evictionPacked left).arrived c.evictionPath fresh) c.contents d,
              y.id = x.id)
      ⟨fun spares other left' again => by rw [plan] at again; cases again; exact spares,fun spares => spares fresh left plan⟩

instance (params : RingOramParams) (tree : Nat → List Block) (p : Nat) (id : BlockId) : Decidable (Sole params tree p id) := by
  unfold Sole; infer_instance

instance (c : RingOramClient B) : ∀ op, Decidable (c.Alone op)
  | .write id _ => match assigned : c.posmap id with
    | none => .isTrue fun p again => by rw [assigned] at again; cases again
    | some p => decidable_of_iff (Sole c.params c.contents p id)
      ⟨fun sole q again => by rw [assigned] at again; cases again; exact sole,fun alone => alone p assigned⟩
  | .admitBlock _ _ => .isTrue trivial
  | .read _ => .isTrue trivial
  | .setDeferEvictions _ => .isTrue trivial
  | .flushEvictions => .isTrue trivial

instance (memory : Memory) : ∀ op, Decidable (Fresh memory op)
  | .admitBlock id _ => inferInstanceAs (Decidable (memory id = none ∧ id.isDummy = false))
  | .read _ => .isTrue trivial
  | .write _ _ => .isTrue trivial
  | .setDeferEvictions _ => .isTrue trivial
  | .flushEvictions => .isTrue trivial

instance (c : RingOramClient B) (op : Op) : Decidable (c.Harmless op) :=
  decidable_of_iff (c.Room op ∧ (∀ s ∈ c.evictions op, s.Spares) ∧ c.Keeps op ∧ c.Alone op)
    ⟨fun h => ⟨h.1,fun s starts => h.2.1 s (mem_evictions.mpr starts),h.2.2.1,h.2.2.2⟩,
      fun h => ⟨h.room,fun s listed => h.spares s (mem_evictions.mp listed),h.keeps,h.alone⟩⟩

theorem meaningOf_succeeds (memory : Memory) (op : Op) : (meaningOf blockBytes memory op).1.isFailure = false := by
  cases op <;> simp only [meaningOf] <;> (repeat' split) <;> rfl

theorem remembering_step (ready : Ready c memory tree) (fresh : Fresh memory op) (harmless : c.Harmless op) :
    ∃ reply next memory' tree', remembering (c,memory) op = some (reply,next,memory') ∧ next.params = c.params ∧
      Ready next memory' tree' := by
  have answers := perform_answers ready fresh harmless.room (fun _ => harmless.spares) harmless.keeps harmless.alone
  unfold remembering
  rcases answers.step ready with ⟨next,stepped,params,_,_,tree',ready',_⟩ | ⟨reply,next,stepped,failed,_,params,_,tree',ready'⟩
  · refine ⟨_,next,_,tree',by rw [stepped]; rfl,params,?_⟩
    unfold recollect
    rw [meaningOf_succeeds]
    exact ready'
  · refine ⟨reply,next,_,tree',by rw [stepped]; rfl,params,?_⟩
    unfold recollect
    rw [failed]
    exact ready'

end

end RingOramClient
end RingOram
