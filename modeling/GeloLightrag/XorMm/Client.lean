import GeloLightrag.Foundation.Cuckoo
import GeloLightrag.Foundation.Digest
import GeloLightrag.XorMm.Bucket

namespace XorMm
open Foundation

structure EncryptedBucket where
  bucketId : Nat
  generation : Nat
  ciphertext : Bytes
deriving DecidableEq,Repr

-- The byte store answers every call unless it panics. A read leaves the buckets
-- alone but may change what the store keeps beside them.
class ByteStoreBackend (B : Type) where
  readBuckets : List Nat → B → Except String (List EncryptedBucket) × B
  writeBuckets : List EncryptedBucket → B → Except String Unit × B
  numBuckets : B → Nat

structure InMemoryByteStore where
  buckets : List EncryptedBucket
deriving DecidableEq

namespace InMemoryByteStore

def new (numBuckets : Nat) : InMemoryByteStore := ⟨(List.range numBuckets).map fun bucketId => ⟨bucketId,0,[]⟩⟩

def readBuckets (bucketIds : List Nat) (be : InMemoryByteStore) : Except String (List EncryptedBucket) :=
  bucketIds.mapM fun i => (be.buckets[i]?).elim (.error "index out of bounds") .ok

def writeBuckets : List EncryptedBucket → InMemoryByteStore → Except String Unit × InMemoryByteStore
  | [],be => (.ok (),be)
  | b :: rest,be =>
    if b.bucketId < be.buckets.length then writeBuckets rest ⟨be.buckets.set b.bucketId b⟩
    else (.error "index out of bounds",be)

instance : ByteStoreBackend InMemoryByteStore where
  readBuckets ids be := (be.readBuckets ids,be)
  writeBuckets := writeBuckets
  numBuckets be := be.buckets.length

end InMemoryByteStore

inductive XorMmError where
  | valueTooLong (got valueBytes : Nat)
  | corrupted (source : AesError)
deriving DecidableEq,Repr

-- Overflow checks and debug assertions count as panics.
inductive Fault where
  | error (e : XorMmError)
  | panic (text : String)
deriving DecidableEq,Repr

structure Entry where
  key : LogicalKey
  values : List Bytes
  valueCount : Nat
deriving DecidableEq

-- The stash is a hash map: an insert replaces what its key had.
abbrev Stash := List Entry

def Stash.insert (entry : Entry) (stash : Stash) : Stash := entry :: stash.filter fun other => decide (other.key ≠ entry.key)

def Stash.get (stash : Stash) (key : LogicalKey) : Option Entry := stash.find? fun entry => decide (entry.key = key)

abbrev Occupants := Cuckoo.Table Entry Stash

structure XorMmClient (B : Type) where
  backend : B
  params : XorMmParams
  key : Bytes
  seed1 : Bytes
  seed2 : Bytes
  generation : Nat
  stash : Stash

section
variable [Sha256]

def hashWord (key : LogicalKey) (seed : Bytes) : Nat := ofLeBytes ((Sha256.digest (seed ++ key.val.val)).take 8)

def hashBucket (key : LogicalKey) (seed : Bytes) (n : Nat) : Except String Nat :=
  if n = 0 then .error "attempt to calculate the remainder with a divisor of zero" else .ok (hashWord key seed % n)

-- The placement loop. `left` is max_kicks less the kicks so far, so that the check
-- `kicks > max_kicks` after a kick is the end of `left`.
def placeEntry (params : XorMmParams) (seed1 seed2 : Bytes) : Nat → Entry → Bool → Occupants → Except String Occupants
  | left,current,which,t => do
    let target ← hashBucket current.key (if which then seed2 else seed1) params.nBuckets
    match t.slots target with
    | none => return t.put target current
    | some displaced => do
      let a ← hashBucket displaced.key seed1 params.nBuckets
      let b ← hashBucket displaced.key seed2 params.nBuckets
      let which := if target = a then true else if target = b then false else false
      let _ ← add32 (params.maxKicks - left) 1
      match left with
      | 0 => return {t.put target current with rest:=t.rest.insert displaced}
      | left+1 => placeEntry params seed1 seed2 left displaced which (t.put target current)

def layOut (params : XorMmParams) (seed1 seed2 : Bytes) (prepared : List Entry) : Except String Occupants :=
  prepared.foldlM (fun t entry => placeEntry params seed1 seed2 params.maxKicks entry false t) ⟨fun _ => none,[]⟩

end

def padValue (params : XorMmParams) (v : LogicalValue) : Except XorMmError Bytes :=
  if params.valueBytes < v.length then .error (.valueTooLong v.length params.valueBytes)
  else .ok (v ++ List.replicate (params.valueBytes - v.length) 0)

-- Values past the volume bound are dropped before they are looked at.
def prepareEntry (params : XorMmParams) (entry : LogicalKey × List LogicalValue) : Except XorMmError Entry := do
  let padded ← (entry.2.take params.volumeBound).mapM (padValue params)
  return ⟨entry.1,padded ++ List.replicate (params.volumeBound - padded.length) (List.replicate params.valueBytes 0),
    min entry.2.length params.volumeBound⟩

def bucketPlain (params : XorMmParams) : Option Entry → BucketPlain
  | some entry => ⟨0,entry.key.val,entry.valueCount,entry.values⟩
  | none => .dummy params

def sealBucket [AesGcm] (params : XorMmParams) (key : Bytes) (generation bid : Nat) (slot : Option Entry) :
    Except String EncryptedBucket := do
  let pt ← (bucketPlain params slot).serialise params
  return ⟨bid,generation,aesEncrypt key bid generation pt⟩

namespace XorMmClient
variable {B : Type}

def bucketIds [Sha256] (client : XorMmClient B) (keys : List LogicalKey) : Except String (List Nat) := do
  let pairs ← keys.mapM fun k => do
    let a ← hashBucket k client.seed1 client.params.nBuckets
    let b ← hashBucket k client.seed2 client.params.nBuckets
    return [a,b]
  return pairs.flatten

def nth (encrypted : List EncryptedBucket) (i : Nat) : Except Fault EncryptedBucket :=
  (encrypted[i]?).elim (.error (.panic "index out of bounds")) .ok

def decrypt [AesGcm] (client : XorMmClient B) (eb : EncryptedBucket) : Except Fault Bytes :=
  (aesDecrypt client.key eb.bucketId eb.generation eb.ciphertext).mapError fun e => .error (.corrupted e)

def holds (bp : BucketPlain) (k : LogicalKey) : Bool := bp.dummyFlag == 0 && fingerprintMatches k bp.fingerprint

-- The key's values from the bucket that has its fingerprint, else from the stash.
def choose (client : XorMmClient B) (a b : BucketPlain) (k : LogicalKey) : List LogicalValue :=
  if holds a k then a.values.take (min a.valueCount client.params.volumeBound)
  else if holds b k then b.values.take (min b.valueCount client.params.volumeBound)
  else match client.stash.get k with
    | some entry => entry.values.take (min entry.valueCount client.params.volumeBound)
    | none => []

def resolve [AesGcm] (client : XorMmClient B) (encrypted : List EncryptedBucket) (i : Nat) (k : LogicalKey) :
    Except Fault (List LogicalValue) := do
  let ebA ← nth encrypted (2*i)
  let ebB ← nth encrypted (2*i+1)
  let ptA ← client.decrypt ebA
  let ptB ← client.decrypt ebB
  let bpA ← (BucketPlain.deserialise ptA client.params).mapError .panic
  let bpB ← (BucketPlain.deserialise ptB client.params).mapError .panic
  return client.choose bpA bpB k

variable [ByteStoreBackend B] [AesGcm] [Sha256]

def build (entries : List (LogicalKey × List LogicalValue)) (params : XorMmParams) (key seed1 seed2 : Bytes) (backend : B) :
    Except Fault (XorMmClient B) := do
  if ByteStoreBackend.numBuckets backend ≠ params.nBuckets then throw (.panic "backend size != params.n_buckets")
  let prepared ← (entries.mapM (prepareEntry params)).mapError .error
  let occupants ← (layOut params seed1 seed2 prepared).mapError .panic
  let generation := 1
  let updates ← ((List.range params.nBuckets).mapM fun bid =>
    sealBucket params key generation bid (occupants.slots bid)).mapError .panic
  match ByteStoreBackend.writeBuckets updates backend with
  | (.error text,_) => throw (.panic text)
  | (.ok _,backend) => return ⟨backend,params,key,seed1,seed2,generation,occupants.rest⟩

def getBatch (keys : List LogicalKey) (client : XorMmClient B) : Except Fault (List (List LogicalValue)) × XorMmClient B :=
  match client.bucketIds keys with
  | .error text => (.error (.panic text),client)
  | .ok ids =>
    match ByteStoreBackend.readBuckets ids client.backend with
    | (.error text,backend) => (.error (.panic text),{client with backend:=backend})
    | (.ok encrypted,backend) => (keys.zipIdx.mapM fun (k,i) => client.resolve encrypted i k,{client with backend:=backend})

def get (key : LogicalKey) (client : XorMmClient B) : Except Fault (List LogicalValue) × XorMmClient B :=
  match getBatch [key] client with
  | (.error e,client) => (.error e,client)
  | (.ok results,client) => (results.head?.elim (.error (.panic "one in, one out")) .ok,client)

end XorMmClient
end XorMm
