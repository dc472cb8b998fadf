import GeloLightrag.Foundation.Noting
import GeloLightrag.RingOram.Flushing
import GeloLightrag.RingOram.Tree

namespace RingOram.RingOramClient
open Foundation

-- The pairs of bucket and write counter that encryptions are asked for, in order.
-- One whose counter is past a u32 stands for the addition that overflows there.
abbrev Sealings := List (Nat × Nat)
abbrev NotedM (B : Type) := EStateM Fault (RingOramClient B × Sealings)

namespace Noted
variable {B : Type} [BlockBackend B] [AesGcm]

-- The client's operations as they are, but that encryptions are noted.
def resealBucket (bid : Nat) (pt : Bytes) : NotedM B EncryptedBucket := do
  let (client,_) ← get
  match client.counters[bid]? with
  | none => pure ()
  | some old => note (bid,old + 1)
  quiet (RingOramClient.resealBucket bid pt)

def initializeTree : NotedM B Unit := do
  let (client,_) ← get
  let pt ← quiet (checked (dummyBucket client.params))
  let count ← quiet (checked client.params.numBuckets)
  let updates ← (List.range count).mapM fun bid => do
    quiet (setCounter bid 1)
    note (bid,1)
    return ⟨bid,1,aesEncrypt client.key bid 1 pt⟩
  quiet (writeBucketsCached updates)

def new (backend : B) (params : RingOramParams) (key : Bytes) (tape : Nat → Nat) (hashes : HashOrder) : Except Fault (RingOramClient B × Sealings) := do
  let held := BlockBackend.numBuckets backend
  let demand ← params.numBuckets.mapError .panic
  if held ≠ demand then
    throw (.panic s!"backend size mismatch: backend has {held} buckets, params demand {demand}")
  let _ ← params.treetopBucketCount.mapError .panic
  let client : RingOramClient B :=
    ⟨backend,params,key,fun _ => none,.new,List.replicate demand 0,0,false,0,0,⟨tape,0⟩,[],hashes,0⟩
  match initializeTree (client,[]) with
  | .ok _ s => .ok s
  | .error e _ => .error e

def evictPath : NotedM B Unit := do
  let (client,_) ← get
  let nLeaves := client.params.nLeaves
  if nLeaves = 0 then throw (.panic "attempt to calculate the remainder with a divisor of zero")
  let path := client.evictCursor % nLeaves
  let cursor ← quiet (checked (add32 client.evictCursor 1))
  quiet (set {client with evictCursor:=cursor % nLeaves})
  let bucketIds ← quiet (checked (pathBuckets path nLeaves))
  quiet (openPath (fun _ => .panic "eviction path decrypt — tree contents must remain authentic") bucketIds)
  let (client,_) ← get
  let cap ← quiet (checked client.params.bucketCapacity)
  let candidateIds := client.hashes.order client.scans client.stash.ids
  let (contents,stash) ← quiet (checked (repack client.params client.posmap bucketIds candidateIds (fun _ => []) client.stash))
  quiet (set {client with stash:=stash,scans:=client.scans+1})
  let updates ← bucketIds.mapM fun bid => do
    let pt ← quiet (checked (serialiseBucket (padTo cap client.params.blockBytes (contents bid)) client.params))
    resealBucket bid pt
  quiet (writeBucketsCached updates)

def maybeEvictTurns : Nat → NotedM B Unit
  | 0 => do
    let (client,_) ← get
    if client.params.a ≤ client.accessesSinceEvict then throw .diverged
  | turns+1 => do
    let (client,_) ← get
    if client.params.a ≤ client.accessesSinceEvict then
      quiet (set {client with accessesSinceEvict:=client.accessesSinceEvict - client.params.a})
      if client.deferEvictions then quiet addPending else evictPath
      maybeEvictTurns turns

def maybeEvict : NotedM B Unit := do
  let (client,_) ← get
  maybeEvictTurns client.accessesSinceEvict

def afterAccess : NotedM B Unit := do
  quiet countAccess
  maybeEvict

def flushTurns : Nat → NotedM B Unit
  | 0 => return ()
  | turns+1 => do
    evictPath
    quiet (modify fun client => {client with pendingEvictions:=client.pendingEvictions-1})
    flushTurns turns

def flushEvictions : NotedM B Unit := do
  let (client,_) ← get
  flushTurns client.pendingEvictions

def admitBlock (id : BlockId) (payload : Bytes) : NotedM B Unit := do
  quiet (admitAccess id payload)
  afterAccess

def readAccess (id : BlockId) : NotedM B Bytes := do
  let (client,_) ← get
  match client.posmap id with
  | none => throw (.error (.unknownBlock id))
  | some path => do
    let bucketIds ← quiet (checked (pathBuckets path client.params.nLeaves))
    quiet (openPath (fun e => .error (.corrupted e)) bucketIds)
    let (client,_) ← get
    match client.stash.peek id with
    | none => throw (.panic "block claimed in posmap but missing post-read")
    | some block => do
      let newPath ← quiet freshPath
      let (client,_) ← get
      let posmap ← quiet (checked (client.posmap.set id newPath))
      quiet (set {client with posmap:=posmap})
      let pt ← quiet (checked (dummyBucket client.params))
      let updates ← bucketIds.mapM fun bid => resealBucket bid pt
      quiet (writeBucketsCached updates)
      return block.payload

def read (id : BlockId) : NotedM B Bytes := do
  let payloadOut ← readAccess id
  afterAccess
  return payloadOut

def write (id : BlockId) (payload : Bytes) : NotedM B Unit := do
  let (client,_) ← get
  if payload.length ≠ client.params.blockBytes then
    throw (.error (.payloadSize client.params.blockBytes payload.length))
  let _ ← read id
  let (client,_) ← get
  match client.stash.take id with
  | none => throw (.panic "read placed it in the stash")
  | some (entry,left) => do
    let payload ← quiet (checked (payloadFromExact payload client.params.blockBytes))
    let stash ← quiet (checked (left.insert {entry with payload:=payload}))
    quiet (set {client with stash:=stash})

def perform : Op → NotedM B Reply
  | .admitBlock id payload => do admitBlock id payload; return .done
  | .read id => do return .payload (← read id)
  | .write id payload => do write id payload; return .done
  | .setDeferEvictions defer => do quiet (setDeferEvictions defer); return .done
  | .flushEvictions => do flushEvictions; return .done

end Noted

section Erasure
variable {B : Type} [BlockBackend B] [AesGcm]

namespace Noted

omit [BlockBackend B] in
theorem resealBucket_erases (bid : Nat) (pt : Bytes) : Erases (resealBucket (B:=B) bid pt) (RingOramClient.resealBucket bid pt) := by
  intro s
  unfold resealBucket
  cases held : s.1.counters[bid]? with
  | none =>
      have later := Erases.quiet (ν:=Nat × Nat) (RingOramClient.resealBucket (B:=B) bid pt) s
      unfold Agrees at later ⊢
      rw [bind_ok (get_run s)]
      simp only [held]
      exact later
  | some old =>
      have later := (Erases.quiet (RingOramClient.resealBucket (B:=B) bid pt)).noted (bid,old + 1) s
      unfold Agrees at later ⊢
      rw [bind_ok (get_run s)]
      simp only [held]
      exact later

theorem initializeTree_erases : Erases (initializeTree (B:=B)) RingOramClient.initializeTree := by
  refine .get fun s => .bind (.quiet _) fun pt => .bind (.quiet _) fun count => .bind (.mapM _ fun bid => ?_) fun updates => .quiet _
  exact .bind (.quiet _) fun _ => .noted _ (.pure _)

theorem evictPath_erases : Erases (evictPath (B:=B)) RingOramClient.evictPath := by
  refine .get fun s => ?_
  dsimp only
  split
  · exact .throw _
  · refine .bind (.quiet _) fun cursor => .bind (.quiet _) fun _ => .bind (.quiet _) fun bucketIds => .bind (.quiet _) fun _ => .get fun s => ?_
    refine .bind (.quiet _) fun cap => .bind (.quiet _) fun packed => .bind (.quiet _) fun _ => .bind (.mapM _ fun bid => ?_) fun updates => .quiet _
    exact .bind (.quiet _) fun pt => resealBucket_erases bid pt

theorem maybeEvictTurns_erases (turns : Nat) : Erases (maybeEvictTurns (B:=B) turns) (RingOramClient.maybeEvictTurns turns) := by
  induction turns with
  | zero =>
      refine .get fun s => ?_
      dsimp only
      split
      · exact .throw _
      · exact .pure _
  | succ turns ih =>
      refine .get fun s => ?_
      dsimp only
      split
      · refine .bind (.quiet _) fun _ => ?_
        split
        · exact .bind (.quiet _) fun _ => ih
        · exact evictPath_erases.bind fun _ => ih
      · exact .pure _

theorem afterAccess_erases : Erases (afterAccess (B:=B)) RingOramClient.afterAccess :=
  .bind (.quiet _) fun _ => .get fun _ => maybeEvictTurns_erases _

theorem flushTurns_erases (turns : Nat) : Erases (flushTurns (B:=B) turns) (RingOramClient.flushTurns turns) := by
  induction turns with
  | zero => exact .pure _
  | succ turns ih => exact evictPath_erases.bind fun _ => .bind (.quiet _) fun _ => ih

theorem readAccess_erases (id : BlockId) : Erases (readAccess (B:=B) id) (RingOramClient.readAccess id) := by
  refine .get fun (c,_) => ?_
  dsimp only
  cases c.posmap id with
  | none => exact .throw _
  | some path =>
      refine .bind (.quiet _) fun bucketIds => .bind (.quiet _) fun _ => .get fun (d,_) => ?_
      dsimp only
      cases d.stash.peek id with
      | none => exact .throw _
      | some block =>
          refine .bind (.quiet _) fun newPath => .get fun _ => .bind (.quiet _) fun posmap => .bind (.quiet _) fun _ => .bind (.quiet _) fun pt => ?_
          exact .bind (.mapM _ fun bid => resealBucket_erases bid pt) fun updates => .bind (.quiet _) fun _ => .pure _

theorem read_erases (id : BlockId) : Erases (read (B:=B) id) (RingOramClient.read id) :=
  (readAccess_erases id).bind fun payload => afterAccess_erases.bind fun _ => .pure payload

theorem write_erases (id : BlockId) (payload : Bytes) : Erases (write (B:=B) id payload) (RingOramClient.write id payload) := by
  refine .get fun s => ?_
  dsimp only
  split
  · exact .throw _
  · refine (read_erases id).bind fun _ => .get fun (d,_) => ?_
    dsimp only
    cases d.stash.take id with
    | none => exact .throw _
    | some taken => exact .bind (.quiet _) fun payload => .bind (.quiet _) fun stash => .quiet _

theorem perform_erases (op : Op) : Erases (perform (B:=B) op) (RingOramClient.perform op) := by
  cases op with
  | admitBlock id payload => exact .bind (.bind (.quiet _) fun _ => afterAccess_erases) fun _ => .pure _
  | read id => exact (read_erases id).bind fun payload => .pure _
  | write id payload => exact (write_erases id payload).bind fun _ => .pure _
  | setDeferEvictions defer => exact .bind (.quiet _) fun _ => .pure _
  | flushEvictions => exact .bind (.get fun _ => flushTurns_erases _) fun _ => .pure _

end Noted
end Erasure
end RingOram.RingOramClient
