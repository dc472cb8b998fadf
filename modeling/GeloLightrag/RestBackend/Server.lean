import GeloLightrag.Foundation.Text
import Mathlib.Data.List.Induction
import Mathlib.Data.Set.Function
import Mathlib.Logic.Function.Basic

namespace RestBackend
open Foundation

structure WireBucket where
  bucketId : UInt32
  writeCounter : UInt32
  ciphertext : Bytes
deriving DecidableEq,Repr

-- The codec of the stored values, which gives back what it was given.
class Msgpack where
  toVec : WireBucket → Bytes
  fromSlice : Bytes → Except String WireBucket
  faithful : ∀ w, fromSlice (toVec w) = .ok w

-- The compact MessagePack form of a bucket: an array of three, two unsigned numbers
-- in their shortest forms, and a byte string, which is what is left after its header.
def packUint (n : Nat) : Bytes :=
  if n < 128 then [UInt8.ofNat n]
  else if n < 256 then 0xcc :: leBytes 1 n
  else if n < 65536 then 0xcd :: (leBytes 2 n).reverse
  else 0xce :: (leBytes 4 n).reverse

def uintWidth (tag : UInt8) : Except String Nat :=
  if tag = 0xcc then .ok 1 else if tag = 0xcd then .ok 2 else if tag = 0xce then .ok 4 else .error "invalid type"

def unpackUint : Bytes → Except String (Nat × Bytes)
  | [] => .error "unexpected end of file"
  | tag :: rest =>
    if tag.toNat < 128 then .ok (tag.toNat,rest)
    else do
      let width ← uintWidth tag
      return (ofLeBytes (rest.take width).reverse,rest.drop width)

theorem packUint_back (small : n < 2 ^ 32) (rest : Bytes) : unpackUint (packUint n ++ rest) = .ok (n,rest) := by
  have wide (tag : UInt8) (width : Nat) (big : ¬ tag.toNat < 128) (is : uintWidth tag = .ok width) (fits : n < 256 ^ width) :
      unpackUint (tag :: (leBytes width n).reverse ++ rest) = .ok (n,rest) := by
    have length : (leBytes width n).reverse.length = width := by rw [List.length_reverse,leBytes_length]
    rw [List.cons_append,unpackUint,if_neg big,is]
    show Except.ok _ = _
    rw [List.take_left' length,List.drop_left' length,List.reverse_reverse,word_roundtrip fits]
  unfold packUint
  split
  · rename_i short
    have digit : (UInt8.ofNat n).toNat = n := by rw [UInt8.toNat_ofNat']; omega
    show unpackUint (UInt8.ofNat n :: rest) = _
    rw [unpackUint,digit,if_pos short]
  · split
    · exact wide 0xcc 1 (by decide) rfl (by omega)
    · split
      · exact wide 0xcd 2 (by decide) rfl (by omega)
      · exact wide 0xce 4 (by decide) rfl (by omega)

def binHeader (length : Nat) : Bytes :=
  if length < 256 then 0xc4 :: leBytes 1 length
  else if length < 65536 then 0xc5 :: (leBytes 2 length).reverse
  else 0xc6 :: (leBytes 4 length).reverse

def unpackBin : Bytes → Except String Bytes
  | [] => .error "unexpected end of file"
  | tag :: rest =>
    if tag = 0xc4 then .ok (rest.drop 1) else if tag = 0xc5 then .ok (rest.drop 2) else if tag = 0xc6 then .ok (rest.drop 4)
    else .error "invalid type"

theorem binHeader_back (length : Nat) (rest : Bytes) : unpackBin (binHeader length ++ rest) = .ok rest := by
  unfold binHeader
  split
  · rfl
  · split
    · exact congrArg Except.ok (List.drop_left' (by simp))
    · exact congrArg Except.ok (List.drop_left' (by simp))

def rmp : Msgpack where
  toVec w := 0x93 :: (packUint w.bucketId.toNat ++ (packUint w.writeCounter.toNat ++ (binHeader w.ciphertext.length ++ w.ciphertext)))
  fromSlice
    | [] => .error "unexpected end of file"
    | tag :: rest => do
      if tag ≠ 0x93 then throw "invalid type"
      let (bucketId,rest) ← unpackUint rest
      let (writeCounter,rest) ← unpackUint rest
      return ⟨UInt32.ofNat bucketId,UInt32.ofNat writeCounter,← unpackBin rest⟩
  faithful w := by
    simp only [packUint_back w.bucketId.toNat_lt,packUint_back w.writeCounter.toNat_lt,binHeader_back,bind,Except.bind,pure,Except.pure,
      UInt32.ofNat_toNat]
    rfl

-- sled answers every call here, so its errors do not arise.
inductive ServerError where
  | codec (text : String)
  | missingBucket (bid : UInt32)
deriving DecidableEq,Repr

-- The status and the body an error is answered with.
def ServerError.intoResponse : ServerError → Nat × String
  | .codec text => (400,"codec error: " ++ text)
  | .missingBucket bid => (404,"missing bucket " ++ toString bid.toNat ++ " (server tree under-populated for tenant/index)")

inductive Fault where
  | error (e : ServerError)
  | panicked (text : String)
deriving DecidableEq,Repr

-- A sled tree, and a database that opens each tree by its name.
abbrev Tree := Bytes → Option Bytes
abbrev Db := String → Tree

-- `format!("{tenant}/{index}")`
def treeName (pair : String × String) : String := pair.1 ++ "/" ++ pair.2

def bucketKey (bucketId : UInt32) : Bytes := leBytes 4 bucketId.toNat

def numBucketsKey : Bytes := ascii "__num_buckets"

inductive Answer where
  | done
  | buckets (buckets : List WireBucket)
deriving DecidableEq,Repr

abbrev Reply := Except Fault Answer

def mismatch (existingCount numBuckets : UInt32) : ServerError :=
  .codec ("init mismatch: tree has " ++ toString existingCount.toNat ++ " buckets, request asks for " ++ toString numBuckets.toNat)

def initHandler (numBuckets : UInt32) (tree : Tree) : Reply × Tree :=
  match tree numBucketsKey with
  | some existing =>
    if existing.length < 4 then (.error (.panicked "range end index 4 out of range"),tree)
    else
      let existingCount := UInt32.ofNat (ofLeBytes (existing.take 4))
      if existingCount ≠ numBuckets then (.error (.error (mismatch existingCount numBuckets)),tree) else (.ok .done,tree)
  | none => (.ok .done,Function.update tree numBucketsKey (some (leBytes 4 numBuckets.toNat)))

section Handlers
variable [Msgpack]

def readBuckets (tree : Tree) : List UInt32 → Except Fault (List WireBucket)
  | [] => .ok []
  | bid :: rest => do
    let raw ← (tree (bucketKey bid)).elim (.error (.error (.missingBucket bid))) .ok
    let wire ← (Msgpack.fromSlice raw).mapError fun text => .error (.codec text)
    let others ← readBuckets tree rest
    return wire :: others

def readPathHandler (bucketIds : List UInt32) (tree : Tree) : Reply × Tree :=
  ((readBuckets tree bucketIds).map .buckets,tree)

def insertBucket (tree : Tree) (w : WireBucket) : Tree := Function.update tree (bucketKey w.bucketId) (some (Msgpack.toVec w))

def writeBucketsHandler (buckets : List WireBucket) (tree : Tree) : Reply × Tree := (.ok .done,buckets.foldl insertBucket tree)

end Handlers

-- Requests whose bodies parsed, each under the tenant and index of its path.
inductive Request where
  | init (pair : String × String) (numBuckets : UInt32)
  | readPath (pair : String × String) (bucketIds : List UInt32)
  | writeBuckets (pair : String × String) (buckets : List WireBucket)
deriving DecidableEq,Repr

def Request.pair : Request → String × String
  | .init pair _ | .readPath pair _ | .writeBuckets pair _ => pair

section Service
variable [Msgpack]

def Request.handler : Request → Tree → Reply × Tree
  | .init _ numBuckets => initHandler numBuckets
  | .readPath _ bucketIds => readPathHandler bucketIds
  | .writeBuckets _ buckets => writeBucketsHandler buckets

def handle (request : Request) (db : Db) : Reply × Db :=
  let out := request.handler (db (treeName request.pair))
  (out.1,Function.update db (treeName request.pair) out.2)

-- The database after some requests, and the reply to a further one.
def after (past : List Request) : Db := past.foldl (fun db request => (handle request db).2) fun _ _ => none

def reply (past : List Request) (request : Request) : Reply := (handle request (after past)).1

end Service

-- The last bucket a list of buckets holds for an id.
def latest (buckets : List WireBucket) (id : UInt32) : Option WireBucket := (buckets.filter (·.bucketId = id)).getLast?

theorem latest_append (earlier later : List WireBucket) (id : UInt32) :
    latest (earlier ++ later) id = (latest later id).or (latest earlier id) := by
  unfold latest
  rw [List.filter_append,List.getLast?_append]

theorem latest_one (w : WireBucket) (id : UInt32) : latest [w] id = if w.bucketId = id then some w else none := by
  unfold latest
  by_cases same : w.bucketId = id <;> simp [same]

theorem bucketKey_injective : Function.Injective bucketKey := fun a b same =>
  UInt32.toNat_inj.mp (leBytes_injective a.toNat_lt b.toNat_lt same)

theorem bucketKey_ne (id : UInt32) : bucketKey id ≠ numBucketsKey := by
  intro same
  have lengths := congrArg List.length same
  rw [bucketKey,leBytes_length] at lengths
  exact absurd lengths (by decide)

theorem inserted_bucket [Msgpack] (buckets : List WireBucket) (tree : Tree) (id : UInt32) :
    buckets.foldl insertBucket tree (bucketKey id) = ((latest buckets id).map Msgpack.toVec).or (tree (bucketKey id)) := by
  induction buckets using List.reverseRecOn with
  | nil => rfl
  | append_singleton rest w ih =>
      rw [List.foldl_append,List.foldl_cons,List.foldl_nil,latest_append,latest_one]
      by_cases same : w.bucketId = id
      · rw [if_pos same,insertBucket,same]
        exact Function.update_self ..
      · rw [if_neg same,insertBucket,Function.update_of_ne fun keys => same (bucketKey_injective keys).symm,ih]
        rfl

theorem inserted_sentinel [Msgpack] (buckets : List WireBucket) (tree : Tree) :
    buckets.foldl insertBucket tree numBucketsKey = tree numBucketsKey := by
  induction buckets generalizing tree with
  | nil => rfl
  | cons w rest ih =>
      rw [List.foldl_cons,ih]
      exact Function.update_of_ne (bucketKey_ne _).symm _ _

end RestBackend
