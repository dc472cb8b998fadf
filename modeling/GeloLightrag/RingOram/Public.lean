import GeloLightrag.Foundation.Observation
import GeloLightrag.RingOram.Refinement

namespace RingOram
open Foundation

-- What a server sees of a call: the bucket ids read, and of each bucket written
-- its id, its write counter and the length of its ciphertext.
inductive Message where
  | read (bucketIds : List Nat)
  | write (buckets : List (Nat × Nat × Nat))
deriving DecidableEq,Repr

def EncryptedBucket.outline (eb : EncryptedBucket) : Nat × Nat × Nat := (eb.bucketId,eb.writeCounter,eb.ciphertext.length)

structure Overheard (B : Type) where
  inner : B
  log : List Message

namespace Overheard
variable {B : Type} [BlockBackend B]

instance : BlockBackend (Overheard B) where
  readPath ids be := ((BlockBackend.readPath ids be.inner).1,⟨(BlockBackend.readPath ids be.inner).2,be.log ++ [.read ids]⟩)
  writeBuckets updates be := ((BlockBackend.writeBuckets updates be.inner).1,
    ⟨(BlockBackend.writeBuckets updates be.inner).2,be.log ++ [.write (updates.map EncryptedBucket.outline)]⟩)
  numBuckets be := BlockBackend.numBuckets be.inner

instance [LossyBackend B] : LossyBackend (Overheard B) where
  bucket be := LossyBackend.bucket be.inner
  read_kept ids be := LossyBackend.read_kept ids be.inner
  read_answer ids be := LossyBackend.read_answer ids be.inner
  write_count updates be := LossyBackend.write_count updates be.inner
  write_answer updates be := LossyBackend.write_answer updates be.inner

instance [LossyBackend B] [FaithfulBackend B] : FaithfulBackend (Overheard B) where
  reads ids be := FaithfulBackend.reads ids be.inner
  writes updates be := FaithfulBackend.writes updates be.inner

end Overheard

-- The part of the client's state that no id, payload or path goes into.
structure Public where
  counters : List Nat
  accessesSinceEvict : Nat
  deferEvictions : Bool
  pendingEvictions : Nat
  evictCursor : Nat
  log : List Message
deriving DecidableEq

abbrev PublicM := EStateM Unit Public

namespace Public

def asked (params : RingOramParams) (ids : List Nat) (v : Public) : Public :=
  if (ids.filter fun b => !decide (b < params.top)).isEmpty then v
  else {v with log:=v.log ++ [.read (ids.filter fun b => !decide (b < params.top))]}

def rewritten (frame : Nat) (ids : List Nat) (v : Public) : Public :=
  {v with counters:=bumped ids v.counters,log:=v.log ++ [.write (ids.map fun b => (b,v.counters.getD b 0 + 1,frame))]}

-- The access to one path, and what the client does beside it. Nothing here
-- depends on which block an access is for.
def touch (params : RingOramParams) (frame leaf : Nat) : PublicM Unit := do
  modify (asked params (params.path leaf))
  let v ← get
  if v.counters.getD 0 0 + 1 < 2 ^ 32 then set (rewritten frame (params.path leaf) v) else throw ()

theorem touch_run (params : RingOramParams) (frame leaf : Nat) (v : Public) :
    touch params frame leaf v = if v.counters.getD 0 0 + 1 < 2 ^ 32
      then .ok () (rewritten frame (params.path leaf) (asked params (params.path leaf) v))
      else .error () (asked params (params.path leaf) v) := by
  have kept : (asked params (params.path leaf) v).counters = v.counters := by unfold asked; split <;> rfl
  unfold touch
  rw [bind_ok (modify_run _ v),bind_ok (get_run _),kept]
  split <;> rfl

def evict (params : RingOramParams) (frame : Nat) : PublicM Unit := do
  let v ← get
  set {v with evictCursor:=(v.evictCursor+1) % params.nLeaves}
  touch params frame (v.evictCursor % params.nLeaves)

def count (params : RingOramParams) (frame : Nat) : PublicM Unit := do
  let v ← get
  if params.a ≤ v.accessesSinceEvict+1 then
    set {v with accessesSinceEvict:=v.accessesSinceEvict+1-params.a}
    if v.deferEvictions then
      if v.pendingEvictions+1 < 2 ^ 32 then modify fun v => {v with pendingEvictions:=v.pendingEvictions+1} else throw ()
    else evict params frame
  else set {v with accessesSinceEvict:=v.accessesSinceEvict+1}

def flush (params : RingOramParams) (frame : Nat) : Nat → PublicM Unit
  | 0 => return ()
  | turns+1 => do
    evict params frame
    modify fun v => {v with pendingEvictions:=v.pendingEvictions-1}
    flush params frame turns

end Public

-- An operation with its id and payload taken away. Of an admit there remains
-- whether its payload has the size of a block, of a read the draw that its
-- path comes from.
inductive Event (α : Type) where
  | admitBlock (sized : Bool)
  | read (source : α)
  | write
  | setDeferEvictions (defer : Bool)
  | flushEvictions
deriving DecidableEq,Repr

namespace Event
variable {α β : Type}

def map (f : α → β) : Event α → Event β
  | .admitBlock sized => .admitBlock sized
  | .read source => .read (f source)
  | .write => .write
  | .setDeferEvictions defer => .setDeferEvictions defer
  | .flushEvictions => .flushEvictions

def source? : Event α → Option α
  | .read source => some source
  | _ => none

theorem map_map (f : α → β) (g : β → γ) (e : Event α) : (e.map f).map g = e.map fun a => g (f a) := by
  cases e <;> rfl

def shows (params : RingOramParams) (frame : Nat) : Event Nat → PublicM Unit
  | .admitBlock true => Public.count params frame
  | .admitBlock false => return ()
  | .read leaf => do
    Public.touch params frame leaf
    Public.count params frame
  | .write => return ()
  | .setDeferEvictions defer => modify fun v => {v with deferEvictions:=defer}
  | .flushEvictions => do
    let v ← get
    Public.flush params frame v.pendingEvictions

-- Events of one shape are renamings of each other once their sources are.
theorem renamed {es es' : List (Event α)} {π : α → α} (shape : es.map (map fun _ => ()) = es'.map (map fun _ => ()))
    (sources : (es'.filterMap source?).map π = es.filterMap source?) : es'.map (map π) = es := by
  induction es' generalizing es with
  | nil => exact (List.map_eq_nil_iff.mp shape).symm
  | cons e' rest' ih =>
      cases es with
      | nil => cases shape
      | cons e rest =>
          rw [List.map_cons,List.map_cons,List.cons.injEq] at shape
          obtain ⟨head,tail⟩ := shape
          rw [List.map_cons]
          cases e <;> cases e' <;> simp only [map,reduceCtorEq,Event.admitBlock.injEq,Event.setDeferEvictions.injEq] at head
          case admitBlock.admitBlock => rw [ih tail sources,head,map]
          case read.read =>
            simp only [source?,List.filterMap_cons,List.map_cons,List.cons.injEq] at sources
            rw [ih tail sources.2,map,sources.1]
          case write.write => rw [ih tail sources,map]
          case setDeferEvictions.setDeferEvictions => rw [ih tail sources,head,map]
          case flushEvictions.flushEvictions => rw [ih tail sources,map]

theorem sources_length {es es' : List (Event α)} (shape : es.map (map fun _ => ()) = es'.map (map fun _ => ())) :
    (es.filterMap source?).length = (es'.filterMap source?).length := by
  have counted : ∀ es : List (Event α), (es.filterMap source?).length = ((es.map (map fun _ => ())).filterMap source?).length := by
    intro es
    induction es with
    | nil => rfl
    | cons e rest ih =>
        cases e with
        | read source => exact congrArg Nat.succ ih
        | _ => exact ih
  rw [counted es,counted es',shape]

end Event

-- What the server sees of a run, up to the panic that ends it if one does.
def Public.overhear (params : RingOramParams) (frame : Nat) : Public → List (Event Nat) → List Message
  | v,[] => v.log
  | v,e :: rest =>
    match e.shows params frame v with
    | .ok _ w => overhear params frame w rest
    | .error _ w => w.log

namespace Op

def event {α : Type} (params : RingOramParams) (origin : BlockId → α) : Op → Event α
  | .admitBlock _ payload => .admitBlock (decide (payload.length = params.blockBytes))
  | .read id => .read (origin id)
  | .write _ _ => .write
  | .setDeferEvictions defer => .setDeferEvictions defer
  | .flushEvictions => .flushEvictions

def kind (params : RingOramParams) (op : Op) : Event Unit := op.event params fun _ => ()

-- The id that the operation draws a new path for.
def remaps (params : RingOramParams) : Op → Option BlockId
  | .admitBlock id payload => if payload.length = params.blockBytes then some id else none
  | .read id => some id
  | _ => none

def sized (params : RingOramParams) : Op → Bool
  | .admitBlock _ payload => decide (payload.length = params.blockBytes)
  | _ => true

theorem event_map {α β : Type} (params : RingOramParams) (origin : BlockId → α) (f : α → β) (op : Op) :
    (op.event params origin).map f = op.event params fun id => f (origin id) := by
  cases op <;> rfl

end Op

-- The run as events: `origin` is the number of the draw that each id was last
-- mapped by, and `drawn` the number of the next.
def events (params : RingOramParams) : Nat → (BlockId → Nat) → List Op → List (Event Nat)
  | _,_,[] => []
  | drawn,origin,op :: rest => op.event params origin ::
    match op.remaps params with
    | some id => events params (drawn+1) (Function.update origin id drawn) rest
    | none => events params drawn origin rest

theorem events_kinds (params : RingOramParams) (drawn : Nat) (origin : BlockId → Nat) (ops : List Op) :
    (events params drawn origin ops).map (Event.map fun _ => ()) = ops.map (Op.kind params) := by
  induction ops generalizing drawn origin with
  | nil => rfl
  | cons op rest ih =>
      rw [events,List.map_cons,List.map_cons,Op.event_map]
      congr 1
      cases op.remaps params with
      | some id => exact ih _ _
      | none => exact ih _ _

-- Reads are of ids already admitted.
def Known (memory : Memory) : Op → Prop
  | .read id => (memory id).isSome
  | _ => True

def Listed (memory : Memory) (op : Op) : Prop := RingOramClient.Admissible memory op ∧ Known memory op

-- Each known id has a draw of its own behind it.
structure Numbered (memory : Memory) (origin : BlockId → Nat) (drawn : Nat) : Prop where
  below : ∀ id, (memory id).isSome → origin id < drawn
  apart : ∀ id id', (memory id).isSome → (memory id').isSome → origin id = origin id' → id = id'

-- The draws that may yet be the source of a read.
def Unread (memory : Memory) (origin : BlockId → Nat) (drawn k : Nat) : Prop :=
  drawn ≤ k ∨ ∃ id, (memory id).isSome ∧ origin id = k

theorem Numbered.renumber {memory : Memory} {origin : BlockId → Nat} (numbered : Numbered memory origin drawn)
    (id : BlockId) (value : Bytes) :
    Numbered (Function.update memory id (some value)) (Function.update origin id drawn) (drawn+1) := by
  constructor
  · intro other held
    by_cases same : other = id
    · subst same; simp
    · rw [Function.update_of_ne same] at held ⊢
      exact Nat.lt_succ_of_lt (numbered.below other held)
  · intro one other held held' same
    by_cases first : one = id
    · by_cases second : other = id
      · exact first.trans second.symm
      · rw [Function.update_of_ne second] at held' same
        rw [first,Function.update_self] at same
        exact absurd (numbered.below other held') (by omega)
    · rw [Function.update_of_ne first] at held same
      by_cases second : other = id
      · rw [second,Function.update_self] at same
        exact absurd (numbered.below one held) (by omega)
      · rw [Function.update_of_ne second] at held' same
        exact numbered.apart one other held held' same

theorem Unread.earlier {memory : Memory} {origin : BlockId → Nat} {id : BlockId} {value : Bytes}
    (unread : Unread (Function.update memory id (some value)) (Function.update origin id drawn) (drawn+1) k) :
    drawn ≤ k ∨ ∃ other, other ≠ id ∧ (memory other).isSome ∧ origin other = k := by
  rcases unread with new | ⟨other,held,same⟩
  · exact .inl (Nat.le_of_succ_le new)
  · by_cases here : other = id
    · rw [here,Function.update_self] at same
      exact .inl (Nat.le_of_eq same)
    · rw [Function.update_of_ne here] at held same
      exact .inr ⟨other,here,held,same⟩

-- Each draw is the source of one read at most: an id read is mapped by a new draw.
theorem sources_distinct {params : RingOramParams} (ops : List Op) {drawn : Nat} {origin : BlockId → Nat} {memory : Memory}
    (numbered : Numbered memory origin drawn) (listed : Permitted (meaningOf params.blockBytes) Listed memory ops) :
    ((events params drawn origin ops).filterMap Event.source?).Nodup ∧
      ∀ k ∈ (events params drawn origin ops).filterMap Event.source?, Unread memory origin drawn k := by
  induction ops generalizing drawn origin memory with
  | nil => exact ⟨List.nodup_nil,fun k member => absurd member List.not_mem_nil⟩
  | cons op rest ih =>
      obtain ⟨⟨⟨fresh,plain⟩,known⟩,later⟩ := listed
      cases op with
      | admitBlock id payload =>
          unfold events
          by_cases sized : payload.length = params.blockBytes
          · have remapped : (Op.admitBlock id payload).remaps params = some id := if_pos sized
            have meant : meaningOf params.blockBytes memory (.admitBlock id payload) =
                (.done,Function.update memory id (some payload)) := if_pos sized
            rw [meant] at later
            rw [remapped]
            obtain ⟨distinct,ranged⟩ := ih (numbered.renumber id payload) later
            refine ⟨distinct,fun k member => ?_⟩
            exact (ranged k member).earlier.imp (fun new => new) fun ⟨other,_,held,same⟩ => ⟨other,held,same⟩
          · have kept : (Op.admitBlock id payload).remaps params = none := if_neg sized
            have meant : (meaningOf params.blockBytes memory (.admitBlock id payload)).2 = memory :=
              congrArg Prod.snd (if_neg sized)
            rw [meant] at later
            rw [kept]
            exact ih numbered later
      | read id =>
          obtain ⟨value,held⟩ := Option.isSome_iff_exists.mp known
          have meant : meaningOf params.blockBytes memory (.read id) = (.payload value,memory) := by simp [meaningOf,held]
          rw [meant,←update_value held] at later
          obtain ⟨distinct,ranged⟩ := ih (numbered.renumber id value) later
          have mine := numbered.below id known
          refine ⟨List.nodup_cons.mpr ⟨fun again => ?_,distinct⟩,fun k member => ?_⟩
          · rcases (ranged (origin id) again).earlier with new | ⟨other,apart,held',same⟩
            · omega
            · exact apart (numbered.apart other id held' known same)
          · rcases List.mem_cons.mp member with rfl | member
            · exact .inr ⟨id,known,rfl⟩
            · exact (ranged k member).earlier.imp (fun new => new) fun ⟨other,_,held',same⟩ => ⟨other,held',same⟩
      | write id payload => exact absurd plain Bool.noConfusion
      | setDeferEvictions defer => exact ih numbered later
      | flushEvictions => exact ih numbered later

end RingOram
