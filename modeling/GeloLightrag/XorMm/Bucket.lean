import GeloLightrag.Foundation.Aead
import GeloLightrag.Foundation.Checked

namespace XorMm
open Foundation

abbrev KeyFingerprint := {bytes : Bytes // bytes.length = 32}

structure LogicalKey where
  val : KeyFingerprint
deriving DecidableEq

abbrev LogicalValue := Bytes

structure XorMmParams where
  volumeBound : Nat
  valueBytes : Nat
  nBuckets : Nat
  maxKicks : Nat
  words : volumeBound < 2 ^ 32 ∧ valueBytes < 2 ^ 32 ∧ nBuckets < 2 ^ 32 ∧ maxKicks < 2 ^ 32 := by decide
deriving DecidableEq

def dummyFingerprint : KeyFingerprint := ⟨List.replicate 32 255,by decide⟩

-- The bucket before it is sealed. A dummy flag of 1 marks one that holds no key.
structure BucketPlain where
  dummyFlag : UInt8
  fingerprint : KeyFingerprint
  valueCount : Nat
  values : List Bytes
deriving DecidableEq

def fingerprintMatches (key : LogicalKey) (fingerprint : KeyFingerprint) : Bool := key.val == fingerprint

def header : Nat := 1 + 32 + 4

def XorMmParams.bucketPlaintextSize (params : XorMmParams) : Nat := header + params.volumeBound * params.valueBytes

-- `buf[off..off + v.len()].copy_from_slice(v)`
def copyFromSlice (buf : Bytes) (off : Nat) (v : Bytes) : Except String Bytes :=
  if off + v.length ≤ buf.length then .ok (buf.take off ++ v ++ buf.drop (off + v.length))
  else .error "range end index out of range for slice"

theorem copyFromSlice_over (before : Bytes) {old v : Bytes} (after : Bytes) (sized : old.length = v.length) :
    copyFromSlice (before ++ old ++ after) before.length v = .ok (before ++ v ++ after) := by
  have room : before.length + v.length ≤ (before ++ old ++ after).length := by simp [sized]
  have cut : (before ++ old ++ after).drop (before.length + v.length) = after := by
    rw [←sized,←List.length_append]
    exact List.drop_left' rfl
  unfold copyFromSlice
  rw [if_pos room,cut,List.append_assoc before old,List.take_left' rfl]

def writeValues (params : XorMmParams) : Nat → List Bytes → Bytes → Except String Bytes
  | _,[],buf => .ok buf
  | i,v :: rest,buf =>
    if v.length ≠ params.valueBytes then .error "value not pre-padded"
    else do
      let buf ← copyFromSlice buf (header + i * params.valueBytes) v
      writeValues params (i+1) rest buf

namespace BucketPlain

def dummy (params : XorMmParams) : BucketPlain :=
  ⟨1,dummyFingerprint,0,List.replicate params.volumeBound (List.replicate params.valueBytes 0)⟩

def serialise (bp : BucketPlain) (params : XorMmParams) : Except String Bytes := do
  let buf := (List.replicate params.bucketPlaintextSize (0 : UInt8)).set 0 bp.dummyFlag
  let buf ← copyFromSlice buf 1 bp.fingerprint.val
  let buf ← copyFromSlice buf 33 (leBytes 4 bp.valueCount)
  writeValues params 0 bp.values buf

def deserialise (bytes : Bytes) (params : XorMmParams) : Except String BucketPlain :=
  if whole : params.bucketPlaintextSize ≤ bytes.length then
    .ok {
      dummyFlag := bytes.headD 0
      fingerprint := ⟨(bytes.drop 1).take 32,by
        simp only [XorMmParams.bucketPlaintextSize,header] at whole
        simp only [List.length_take,List.length_drop]
        omega⟩
      valueCount := ofLeBytes ((bytes.drop 33).take 4)
      values := records params.valueBytes params.volumeBound (bytes.drop header) }
  else .error "bucket too small"

-- A bucket whose values fill it, each at its full width.
structure Full (params : XorMmParams) (bp : BucketPlain) : Prop where
  count : bp.valueCount < 2 ^ 32
  volume : bp.values.length = params.volumeBound
  width : ∀ v ∈ bp.values, v.length = params.valueBytes

def flat (bp : BucketPlain) : Bytes :=
  bp.dummyFlag :: (bp.fingerprint.val ++ (leBytes 4 bp.valueCount ++ bp.values.flatten))

variable {params : XorMmParams} {bp : BucketPlain}

theorem dummy_full (params : XorMmParams) : Full params (dummy params) := by
  refine ⟨Nat.two_pow_pos 32,List.length_replicate,fun v member => ?_⟩
  rw [List.eq_of_mem_replicate member,List.length_replicate]

theorem writeValues_over (values : List Bytes) (done : Bytes) (i : Nat) (placed : done.length = header + i * params.valueBytes)
    (width : ∀ v ∈ values, v.length = params.valueBytes) :
    writeValues params i values (done ++ List.replicate (values.length * params.valueBytes) 0) = .ok (done ++ values.flatten) := by
  induction values generalizing done i with
  | nil => simp [writeValues]
  | cons v rest ih =>
      have here := width v List.mem_cons_self
      have blank : List.replicate ((rest.length + 1) * params.valueBytes) (0 : UInt8) =
          List.replicate params.valueBytes 0 ++ List.replicate (rest.length * params.valueBytes) 0 := by
        rw [List.replicate_append_replicate,Nat.succ_mul,Nat.add_comm]
      have copied := copyFromSlice_over done
        (List.replicate (rest.length * params.valueBytes) 0) (by rw [List.length_replicate,here] : (List.replicate params.valueBytes (0 : UInt8)).length = v.length)
      have later := ih (done ++ v) (i+1) (by rw [List.length_append,placed,here,Nat.succ_mul,Nat.add_assoc])
        fun other member => width other (List.mem_cons_of_mem _ member)
      unfold writeValues
      rw [if_neg (fun wrong => wrong here),List.length_cons,blank,←List.append_assoc,←placed,copied]
      rw [List.flatten_cons,←List.append_assoc]
      exact later

theorem serialise_flat (full : Full params bp) : bp.serialise params = .ok bp.flat := by
  have wide : params.bucketPlaintextSize = 1 + (32 + (4 + bp.values.length * params.valueBytes)) := by
    unfold XorMmParams.bucketPlaintextSize header
    rw [full.volume]
    omega
  have blank : (List.replicate params.bucketPlaintextSize (0 : UInt8)).set 0 bp.dummyFlag =
      [bp.dummyFlag] ++ List.replicate 32 0 ++
        (List.replicate 4 0 ++ List.replicate (bp.values.length * params.valueBytes) 0) := by
    rw [wide,List.replicate_append_replicate,List.append_assoc,List.replicate_append_replicate,Nat.add_comm 1]
    rfl
  have first := copyFromSlice_over [bp.dummyFlag] (v:=bp.fingerprint.val)
    (List.replicate 4 0 ++ List.replicate (bp.values.length * params.valueBytes) 0)
    (by rw [List.length_replicate,bp.fingerprint.property] : (List.replicate 32 (0 : UInt8)).length = _)
  rw [List.length_singleton] at first
  have second := copyFromSlice_over ([bp.dummyFlag] ++ bp.fingerprint.val) (v:=leBytes 4 bp.valueCount)
    (List.replicate (bp.values.length * params.valueBytes) 0)
    (by rw [List.length_replicate,leBytes_length] : (List.replicate 4 (0 : UInt8)).length = _)
  have prior : ([bp.dummyFlag] ++ bp.fingerprint.val).length = 33 := by
    rw [List.length_append,bp.fingerprint.property]; rfl
  rw [prior,List.append_assoc _ (List.replicate 4 0)] at second
  have third := writeValues_over bp.values ([bp.dummyFlag] ++ bp.fingerprint.val ++ leBytes 4 bp.valueCount) 0
    (by rw [List.length_append,prior,leBytes_length,Nat.zero_mul]; rfl) full.width
  unfold serialise
  simp only [blank,bind,Except.bind,first,second,third]
  simp [flat]

theorem flat_length (full : Full params bp) : bp.flat.length = params.bucketPlaintextSize := by
  unfold flat XorMmParams.bucketPlaintextSize header
  rw [List.length_cons,List.length_append,List.length_append,leBytes_length,bp.fingerprint.property,
    flatten_length bp.values full.width,full.volume]
  omega

-- What a bucket held when it was sealed is what is read of it.
theorem deserialise_flat (full : Full params bp) : deserialise bp.flat params = .ok bp := by
  have print : (bp.flat.drop 1).take 32 = bp.fingerprint.val := List.take_left' bp.fingerprint.property
  have counted : (bp.flat.drop 33).take 4 = leBytes 4 bp.valueCount := by
    have tail : bp.flat.drop 33 = leBytes 4 bp.valueCount ++ bp.values.flatten := by
      show (bp.fingerprint.val ++ _).drop 32 = _
      exact List.drop_left' bp.fingerprint.property
    rw [tail]
    exact List.take_left' (leBytes_length _ _)
  have rows : records params.valueBytes params.volumeBound (bp.flat.drop header) = bp.values := by
    have tail : bp.flat.drop header = bp.values.flatten ++ [] := by
      show (bp.fingerprint.val ++ (leBytes 4 bp.valueCount ++ bp.values.flatten)).drop 36 = _
      rw [←List.append_assoc,List.append_nil]
      exact List.drop_left' (by rw [List.length_append,bp.fingerprint.property,leBytes_length])
    rw [tail,←full.volume]
    exact records_flatten bp.values [] full.width
  have count : ofLeBytes ((bp.flat.drop 33).take 4) = bp.valueCount := by
    rw [counted]
    exact word_roundtrip full.count
  unfold deserialise
  rw [dif_pos (Nat.le_of_eq (flat_length full).symm)]
  simp only [print,count,rows]
  rfl

end BucketPlain

-- nonce = bucket_id u32-LE, generation u32-LE, and four zeros.
def makeNonce (bucketId generation : Nat) : Bytes := leBytes 4 bucketId ++ leBytes 4 generation ++ List.replicate 4 0

inductive AesError where
  | authenticationFailed
deriving DecidableEq,Repr

section Frames
variable [AesGcm]

def aesEncrypt (key : Bytes) (bucketId generation : Nat) (pt : Bytes) : Bytes :=
  AesGcm.encrypt key (makeNonce bucketId generation) pt

def aesDecrypt (key : Bytes) (bucketId generation : Nat) (ct : Bytes) : Except AesError Bytes :=
  match AesGcm.decrypt key (makeNonce bucketId generation) ct with
  | some pt => .ok pt
  | none => .error .authenticationFailed

@[simp] theorem aesDecrypt_aesEncrypt : aesDecrypt key b g (aesEncrypt key b g pt) = .ok pt := by
  simp [aesDecrypt,aesEncrypt]

end Frames
end XorMm
