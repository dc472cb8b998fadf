import GeloLightrag.Foundation.Machine
import GeloLightrag.RingOram.Backend
import GeloLightrag.RingOram.Codec

namespace RingOram
open Foundation

inductive OramError where
  | unknownBlock (id : BlockId)
  | corrupted (source : AesError)
  | payloadSize (expected got : Nat)
  | backend (error : String)
deriving DecidableEq,Repr

-- An operation ends without a result by an Err, by its future being dropped, by a
-- panic, or never. Overflow checks and debug assertions count as panics.
inductive Fault where
  | error (e : OramError)
  | dropped
  | panic (text : String)
  | diverged
deriving DecidableEq,Repr

-- The PRNG as the sequence of words it yields and how many have been drawn.
structure Rng where
  tape : Nat → Nat
  drawn : Nat

structure RingOramClient (B : Type) where
  backend : B
  params : RingOramParams
  key : Bytes
  posmap : PositionMap
  stash : Stash
  counters : List Nat
  accessesSinceEvict : Nat
  deferEvictions : Bool
  pendingEvictions : Nat
  evictCursor : Nat
  rng : Rng
  treetopCache : List EncryptedBucket
  hashes : HashOrder
  scans : Nat

abbrev OramM (B : Type) := EStateM Fault (RingOramClient B)

def checked {B α : Type} : Except String α → OramM B α
  | .ok a => pure a
  | .error text => throw (.panic text)

theorem checked_ok {B α : Type} {x : Except String α} {a : α} (value : x = .ok a) (s : RingOramClient B) :
    (checked x : OramM B α) s = .ok a s := by
  rw [value]; rfl

theorem checked_error {B α : Type} {x : Except String α} {text : String} (value : x = .error text) (s : RingOramClient B) :
    (checked x : OramM B α) s = .error (.panic text) s := by
  rw [value]; rfl

def outOfBounds : String := "index out of bounds"

def BackendFault.fault : BackendFault → Fault
  | .refused error => .error (.backend error)
  | .dropped => .dropped
  | .panicked text => .panic text

-- `Vec<Option<EncryptedBucket>>` with the backend's answers put where the cache
-- had none.
def fillHoles : List (Option EncryptedBucket) → List EncryptedBucket → List (Option EncryptedBucket)
  | [],_ => []
  | some eb :: rest,deep => some eb :: fillHoles rest deep
  | none :: rest,eb :: deep => some eb :: fillHoles rest deep
  | none :: rest,[] => none :: fillHoles rest []

theorem fillHoles_deep (top : Nat) (h : Nat → EncryptedBucket) (ids : List Nat) :
    fillHoles (ids.map fun b => if b < top then some (h b) else none)
      ((ids.filter fun b => !decide (b < top)).map h) = ids.map fun b => some (h b) := by
  induction ids with
  | nil => rfl
  | cons b rest ih =>
      by_cases shallow : b < top
      · simp [shallow,fillHoles,ih]
      · simp [shallow,fillHoles,ih]

def growCache (idx : Nat) (cache : List EncryptedBucket) : List EncryptedBucket :=
  cache ++ (List.range' cache.length (idx + 1 - cache.length)).map fun bucketId => ⟨bucketId,0,[]⟩

def mirror (top : Nat) (cache : List EncryptedBucket) (eb : EncryptedBucket) : List EncryptedBucket :=
  if eb.bucketId < top then (growCache eb.bucketId cache).set eb.bucketId eb else cache

-- `bucket_contents` of eviction, looked up by bucket id instead of depth: the
-- deepest bucket of the path that the block's own path crosses and that has room.
def seat (z : Nat) (bucketIds crossed : List Nat) (contents : Nat → List Block) : Option Nat :=
  bucketIds.reverse.find? fun bid => crossed.contains bid && decide ((contents bid).length < z)

def repack (params : RingOramParams) (posmap : PositionMap) (bucketIds : List Nat) :
    List BlockId → (Nat → List Block) → Stash → Except String ((Nat → List Block) × Stash)
  | [],contents,stash => .ok (contents,stash)
  | blockId :: rest,contents,stash =>
    match posmap blockId with
    | none => .error "stash block must be in posmap"
    | some blockPath => do
      let crossed ← pathBuckets blockPath params.nLeaves
      match seat params.z bucketIds crossed contents with
      | none => repack params posmap bucketIds rest contents stash
      | some bid =>
        match stash.take blockId with
        | none => .error "just iterated, must still be present"
        | some (block,left) =>
          repack params posmap bucketIds rest (Function.update contents bid (contents bid ++ [block])) left

def padTo (cap blockBytes : Nat) (blocks : List Block) : List Block :=
  blocks ++ List.replicate (cap - blocks.length) (.dummy blockBytes)

namespace RingOramClient
variable {B : Type} [BlockBackend B]

def backendReadPath (bucketIds : List Nat) : OramM B (List EncryptedBucket) := do
  let client ← get
  let (answer,backend) := BlockBackend.readPath bucketIds client.backend
  set {client with backend:=backend}
  match answer with
  | .ok buckets => return buckets
  | .error e => throw e.fault

def backendWriteBuckets (buckets : List EncryptedBucket) : OramM B Unit := do
  let client ← get
  let (answer,backend) := BlockBackend.writeBuckets buckets client.backend
  set {client with backend:=backend}
  match answer with
  | .ok _ => return ()
  | .error e => throw e.fault

theorem backendReadPath_run (ids : List Nat) (c : RingOramClient B) :
    backendReadPath ids c = match (BlockBackend.readPath ids c.backend).1 with
      | .ok buckets => .ok buckets {c with backend:=(BlockBackend.readPath ids c.backend).2}
      | .error e => .error e.fault {c with backend:=(BlockBackend.readPath ids c.backend).2} := by
  unfold backendReadPath
  rw [bind_ok (get_run c)]
  cases BlockBackend.readPath ids c.backend with
  | mk answer backend => cases answer <;> rfl

theorem backendWriteBuckets_run (buckets : List EncryptedBucket) (c : RingOramClient B) :
    backendWriteBuckets buckets c = match (BlockBackend.writeBuckets buckets c.backend).1 with
      | .ok _ => .ok () {c with backend:=(BlockBackend.writeBuckets buckets c.backend).2}
      | .error e => .error e.fault {c with backend:=(BlockBackend.writeBuckets buckets c.backend).2} := by
  unfold backendWriteBuckets
  rw [bind_ok (get_run c)]
  cases BlockBackend.writeBuckets buckets c.backend with
  | mk answer backend => cases answer <;> rfl

def cacheLookup (top : Nat) (cache : List EncryptedBucket) (bid : Nat) : Except String (Option EncryptedBucket) :=
  if bid < top then
    match cache[bid]? with
    | some eb => .ok (some eb)
    | none => .error outOfBounds
  else .ok none

def unwrapBucket : Option EncryptedBucket → Except String EncryptedBucket
  | some eb => .ok eb
  | none => .error "every bucket either cached or backend-fetched"

def readPathCached (bucketIds : List Nat) : OramM B (List EncryptedBucket) := do
  let client ← get
  let top ← checked client.params.treetopBucketCount
  let out ← checked (bucketIds.mapM (cacheLookup top client.treetopCache))
  let deepIds := bucketIds.filter fun bid => !decide (bid < top)
  let deep ← if deepIds.isEmpty then pure [] else backendReadPath deepIds
  checked ((fillHoles out deep).mapM unwrapBucket)

def writeBucketsCached (buckets : List EncryptedBucket) : OramM B Unit := do
  let client ← get
  let top ← checked client.params.treetopBucketCount
  set {client with treetopCache:=buckets.foldl (mirror top) client.treetopCache}
  backendWriteBuckets buckets

def setCounter (bid value : Nat) : OramM B Unit := do
  let client ← get
  if bid < client.counters.length then set {client with counters:=client.counters.set bid value}
  else throw (.panic outOfBounds)

section
variable [AesGcm]

-- The loop common to `read` and `evict_path`; they differ in what a bucket that
-- does not authenticate ends in.
def absorb (tampered : AesError → Fault) : List (EncryptedBucket × Nat) → OramM B Unit
  | [] => return ()
  | (eb,bid) :: rest => do
    if eb.bucketId ≠ bid then throw (.panic "assertion failed: eb.bucket_id == bid")
    let client ← get
    match aesDecrypt client.key eb.bucketId eb.writeCounter eb.ciphertext with
    | .error e => throw (tampered e)
    | .ok pt => do
      let blocks ← checked (deserialiseBucket pt client.params)
      let stash ← checked (Stash.drain blocks client.stash)
      set {client with stash:=stash}
      absorb tampered rest

def openPath (tampered : AesError → Fault) (bucketIds : List Nat) : OramM B Unit := do
  let encrypted ← readPathCached bucketIds
  absorb tampered (encrypted.zip bucketIds)

-- One turn of a write-back loop: the counter goes up before the nonce is made.
def resealBucket (bid : Nat) (pt : Bytes) : OramM B EncryptedBucket := do
  let client ← get
  match client.counters[bid]? with
  | none => throw (.panic outOfBounds)
  | some old => do
    let counter ← checked (add32 old 1)
    set {client with counters:=client.counters.set bid counter}
    return ⟨bid,counter,aesEncrypt client.key bid counter pt⟩

def dummyBucket (params : RingOramParams) : Except String Bytes := do
  let cap ← params.bucketCapacity
  serialiseBucket (List.replicate cap (.dummy params.blockBytes)) params

def initializeTree : OramM B Unit := do
  let client ← get
  let pt ← checked (dummyBucket client.params)
  let count ← checked client.params.numBuckets
  let updates ← (List.range count).mapM fun bid => do
    setCounter bid 1
    return ⟨bid,1,aesEncrypt client.key bid 1 pt⟩
  writeBucketsCached updates

-- The client that a set-up leaves, or its fault.
def settled : EStateM.Result Fault (RingOramClient B) Unit → Except Fault (RingOramClient B)
  | .ok _ client => .ok client
  | .error e _ => .error e

def new (backend : B) (params : RingOramParams) (key : Bytes) (tape : Nat → Nat) (hashes : HashOrder) :
    Except Fault (RingOramClient B) := do
  let held := BlockBackend.numBuckets backend
  let demand ← params.numBuckets.mapError .panic
  if held ≠ demand then
    throw (.panic s!"backend size mismatch: backend has {held} buckets, params demand {demand}")
  let _ ← params.treetopBucketCount.mapError .panic
  let client : RingOramClient B :=
    ⟨backend,params,key,fun _ => none,.new,List.replicate demand 0,0,false,0,0,⟨tape,0⟩,[],hashes,0⟩
  settled (initializeTree client)

def freshPath : OramM B Nat := do
  let client ← get
  if client.params.nLeaves = 0 then throw (.panic "cannot sample empty range")
  set {client with rng:={client.rng with drawn:=client.rng.drawn+1}}
  return client.rng.tape client.rng.drawn % client.params.nLeaves

def evictPath : OramM B Unit := do
  let client ← get
  let nLeaves := client.params.nLeaves
  if nLeaves = 0 then throw (.panic "attempt to calculate the remainder with a divisor of zero")
  let path := client.evictCursor % nLeaves
  let cursor ← checked (add32 client.evictCursor 1)
  set {client with evictCursor:=cursor % nLeaves}
  let bucketIds ← checked (pathBuckets path nLeaves)
  openPath (fun _ => .panic "eviction path decrypt — tree contents must remain authentic") bucketIds
  let client ← get
  let cap ← checked client.params.bucketCapacity
  let candidateIds := client.hashes.order client.scans client.stash.ids
  let (contents,stash) ← checked (repack client.params client.posmap bucketIds candidateIds (fun _ => []) client.stash)
  set {client with stash:=stash,scans:=client.scans+1}
  let updates ← bucketIds.mapM fun bid => do
    let pt ← checked (serialiseBucket (padTo cap client.params.blockBytes (contents bid)) client.params)
    resealBucket bid pt
  writeBucketsCached updates

def addPending : OramM B Unit := do
  let client ← get
  let pending ← checked (add32 client.pendingEvictions 1)
  set {client with pendingEvictions:=pending}

-- The while loop of `maybe_evict`. Each turn takes a from the count, so the count
-- bounds the turns unless a is zero, when the loop never ends.
def maybeEvictTurns : Nat → OramM B Unit
  | 0 => do
    let client ← get
    if client.params.a ≤ client.accessesSinceEvict then throw .diverged
  | turns+1 => do
    let client ← get
    if client.params.a ≤ client.accessesSinceEvict then
      set {client with accessesSinceEvict:=client.accessesSinceEvict - client.params.a}
      if client.deferEvictions then addPending else evictPath
      maybeEvictTurns turns

def maybeEvict : OramM B Unit := do
  let client ← get
  maybeEvictTurns client.accessesSinceEvict

def countAccess : OramM B Unit := do
  let client ← get
  let accesses ← checked (add32 client.accessesSinceEvict 1)
  set {client with accessesSinceEvict:=accesses}

-- The end of `admit` and `read`: the access is counted, and may make an eviction due.
def afterAccess : OramM B Unit := do
  countAccess
  maybeEvict

def setDeferEvictions (defer : Bool) : OramM B Unit := modify fun client => {client with deferEvictions:=defer}

def flushTurns : Nat → OramM B Unit
  | 0 => return ()
  | turns+1 => do
    evictPath
    modify fun client => {client with pendingEvictions:=client.pendingEvictions-1}
    flushTurns turns

-- `while pending_evictions > 0`: each turn takes one from the count.
def flushEvictions : OramM B Unit := do
  let client ← get
  flushTurns client.pendingEvictions

-- The source's admit up to the access count.
def admitAccess (id : BlockId) (payload : Bytes) : OramM B Unit := do
  let client ← get
  if payload.length ≠ client.params.blockBytes then
    throw (.error (.payloadSize client.params.blockBytes payload.length))
  let path ← freshPath
  let client ← get
  let posmap ← checked (client.posmap.set id path)
  set {client with posmap:=posmap}
  let payload ← checked (payloadFromExact payload client.params.blockBytes)
  let client ← get
  let stash ← checked (client.stash.insert ⟨id,payload⟩)
  set {client with stash:=stash}

-- The source's admit, whose name is a keyword here.
def admitBlock (id : BlockId) (payload : Bytes) : OramM B Unit := do
  admitAccess id payload
  afterAccess

-- `read` up to its write-back; the payload leaves before the block is remapped.
def readAccess (id : BlockId) : OramM B Bytes := do
  let client ← get
  match client.posmap id with
  | none => throw (.error (.unknownBlock id))
  | some path => do
    let bucketIds ← checked (pathBuckets path client.params.nLeaves)
    openPath (fun e => .error (.corrupted e)) bucketIds
    let client ← get
    match client.stash.peek id with
    | none => throw (.panic "block claimed in posmap but missing post-read")
    | some block => do
      let newPath ← freshPath
      let client ← get
      let posmap ← checked (client.posmap.set id newPath)
      set {client with posmap:=posmap}
      let pt ← checked (dummyBucket client.params)
      let updates ← bucketIds.mapM fun bid => resealBucket bid pt
      writeBucketsCached updates
      return block.payload

def read (id : BlockId) : OramM B Bytes := do
  let payloadOut ← readAccess id
  afterAccess
  return payloadOut

def write (id : BlockId) (payload : Bytes) : OramM B Unit := do
  let client ← get
  if payload.length ≠ client.params.blockBytes then
    throw (.error (.payloadSize client.params.blockBytes payload.length))
  let _ ← read id
  let client ← get
  match client.stash.take id with
  | none => throw (.panic "read placed it in the stash")
  | some (entry,left) => do
    let payload ← checked (payloadFromExact payload client.params.blockBytes)
    let stash ← checked (left.insert {entry with payload:=payload})
    set {client with stash:=stash}

end
end RingOramClient

inductive Op where
  | admitBlock (id : BlockId) (payload : Bytes)
  | read (id : BlockId)
  | write (id : BlockId) (payload : Bytes)
  | setDeferEvictions (defer : Bool)
  | flushEvictions
deriving DecidableEq,Repr

inductive Reply where
  | done
  | payload (bytes : Bytes)
  | failed (e : OramError)
  | dropped
deriving DecidableEq,Repr

namespace RingOramClient
variable {B : Type} [BlockBackend B] [AesGcm]

def perform : Op → OramM B Reply
  | .admitBlock id payload => do admitBlock id payload; return .done
  | .read id => do return .payload (← read id)
  | .write id payload => do write id payload; return .done
  | .setDeferEvictions defer => do setDeferEvictions defer; return .done
  | .flushEvictions => do flushEvictions; return .done

-- A caller goes on after an Err or a dropped future, not after a panic.
def step (client : RingOramClient B) (op : Op) : Option (Reply × RingOramClient B) :=
  match perform op client with
  | .ok reply next => some (reply,next)
  | .error (.error e) next => some (.failed e,next)
  | .error .dropped next => some (.dropped,next)
  | .error _ _ => none

end RingOramClient
end RingOram
