import GeloLightrag.Foundation.Aead
import GeloLightrag.RingOram.Stash
import GeloLightrag.RingOram.Tree

namespace RingOram
open Foundation

-- nonce = bucket_id u64-LE, then write_counter u32-LE.
def makeNonce (bucketId writeCounter : Nat) : Bytes := leBytes 8 bucketId ++ leBytes 4 writeCounter

theorem makeNonce_injective (inside : b < 2 ^ 32) (inside' : b' < 2 ^ 32) (word : w < 2 ^ 32) (word' : w' < 2 ^ 32)
    (same : makeNonce b w = makeNonce b' w') : b = b' ∧ w = w' := by
  obtain ⟨ids,counters⟩ := List.append_inj same (by simp)
  exact ⟨leBytes_injective (by omega) (by omega) ids,leBytes_injective (by omega) (by omega) counters⟩

def slotSize (params : RingOramParams) : Nat := 4 + params.blockBytes

def slotBytes (block : Block) : Bytes := leBytes 4 block.id.val.toNat ++ block.payload

def serialiseSlot (params : RingOramParams) (block : Block) : Except String Bytes :=
  if block.payload.length = params.blockBytes then .ok (slotBytes block) else .error "payload size mismatch"

-- A vector holds at most isize::MAX bytes.
def zeroed (size : Nat) : Except String Unit := if size < 2 ^ 63 then .ok () else .error "capacity overflow"

def serialiseBucket (blocks : List Block) (params : RingOramParams) : Except String Bytes := do
  let cap ← params.bucketCapacity
  let count := blocks.length
  if cap < count then throw s!"serialise_bucket: too many blocks ({count} > {cap})"
  zeroed (← mul64 cap (slotSize params))
  let slots ← blocks.mapM (serialiseSlot params)
  return (slots ++ List.replicate (cap - count) (slotBytes (.dummy params.blockBytes))).flatten

def deserialiseSlot (params : RingOramParams) (row : Bytes) : Except String Block := do
  let payload ← payloadFromExact ((row.drop 4).take params.blockBytes) params.blockBytes
  return ⟨⟨UInt32.ofNat (ofLeBytes (row.take 4))⟩,payload⟩

def deserialiseBucket (bytes : Bytes) (params : RingOramParams) : Except String (List Block) := do
  let cap ← params.bucketCapacity
  let size ← mul64 cap (slotSize params)
  if bytes.length ≠ size then throw "bucket size mismatch"
  (records (slotSize params) cap bytes).mapM (deserialiseSlot params)

inductive AesError where
  | authenticationFailed
deriving DecidableEq,Repr

section Frames
variable [AesGcm]

def aesEncrypt (key : Bytes) (bucketId writeCounter : Nat) (plaintext : Bytes) : Bytes :=
  AesGcm.encrypt key (makeNonce bucketId writeCounter) plaintext

def aesDecrypt (key : Bytes) (bucketId writeCounter : Nat) (ciphertext : Bytes) : Except AesError Bytes :=
  match AesGcm.decrypt key (makeNonce bucketId writeCounter) ciphertext with
  | some plaintext => .ok plaintext
  | none => .error .authenticationFailed

@[simp] theorem aesDecrypt_aesEncrypt : aesDecrypt key b w (aesEncrypt key b w plaintext) = .ok plaintext := by
  simp [aesDecrypt,aesEncrypt]

end Frames

-- A bucket's contents as the client means them: real blocks of the right size,
-- no more of them than there are slots.
structure Shelf (params : RingOramParams) (blocks : List Block) : Prop where
  room : blocks.length ≤ params.z + params.s
  sized : ∀ block ∈ blocks, block.payload.length = params.blockBytes
  real : ∀ block ∈ blocks, block.isDummy = false

theorem Shelf.nil (params : RingOramParams) : Shelf params [] := ⟨Nat.zero_le _,by simp,by simp⟩

def padded (params : RingOramParams) (blocks : List Block) : List Block :=
  blocks ++ List.replicate (params.z + params.s - blocks.length) (.dummy params.blockBytes)

def bucketPlaintext (params : RingOramParams) (blocks : List Block) : Bytes :=
  ((padded params blocks).map slotBytes).flatten

variable {params : RingOramParams} {blocks : List Block}

theorem padded_sized (sized : ∀ block ∈ blocks, block.payload.length = params.blockBytes) :
    ∀ block ∈ padded params blocks, block.payload.length = params.blockBytes := by
  intro block member
  rcases List.mem_append.mp member with genuine | filler
  · exact sized block genuine
  · rw [List.eq_of_mem_replicate filler]; simp [Block.dummy]

theorem padded_length (room : blocks.length ≤ params.z + params.s) : (padded params blocks).length = params.z + params.s := by
  simp [padded]; omega

theorem padded_padded (room : blocks.length ≤ params.z + params.s) : padded params (padded params blocks) = padded params blocks := by
  have full := padded_length room
  unfold padded at full ⊢
  rw [full,Nat.sub_self,List.replicate_zero,List.append_nil]

theorem slotBytes_length (sized : block.payload.length = params.blockBytes) :
    (slotBytes block).length = slotSize params := by
  simp [slotBytes,slotSize,sized]

theorem slots_sized (sized : ∀ block ∈ blocks, block.payload.length = params.blockBytes) :
    ∀ row ∈ (padded params blocks).map slotBytes, row.length = slotSize params := by
  intro row member
  obtain ⟨block,inside,rfl⟩ := List.mem_map.mp member
  exact slotBytes_length (padded_sized sized block inside)

theorem bucketPlaintext_length (room : blocks.length ≤ params.z + params.s) (sized : ∀ block ∈ blocks, block.payload.length = params.blockBytes) :
    (bucketPlaintext params blocks).length = (params.z + params.s) * slotSize params := by
  unfold bucketPlaintext
  rw [flatten_length _ (slots_sized sized),List.length_map,padded_length room]

theorem bucket_size (fits : params.Fits) : mul64 (params.z + params.s) (slotSize params) = .ok ((params.z + params.s) * slotSize params) ∧
    zeroed ((params.z + params.s) * slotSize params) = .ok () :=
  ⟨mul64_ok.mpr ⟨fits.bytes.trans (by decide),rfl⟩,if_pos fits.bytes⟩

-- Blocks written before padding and blocks padded by the caller give one text.
theorem serialiseBucket_ok (fits : params.Fits) (room : blocks.length ≤ params.z + params.s)
    (sized : ∀ block ∈ blocks, block.payload.length = params.blockBytes) :
    serialiseBucket blocks params = .ok (bucketPlaintext params blocks) := by
  have slots := mapM_ok (f:=serialiseSlot params) blocks fun block member => if_pos (sized block member)
  unfold serialiseBucket bucketPlaintext padded
  rw [fits.capacity]
  simp [bind,Except.bind,Nat.not_lt.mpr room,(bucket_size fits).1,(bucket_size fits).2,slots,pure,Except.pure]

theorem serialiseBucket_sized (written : serialiseBucket blocks params = .ok bytes) : (params.z + params.s) * slotSize params < 2 ^ 63 := by
  obtain ⟨cap,counted,written⟩ := except_bind_ok.mp written
  obtain ⟨_,rfl⟩ := add32_ok.mp counted
  dsimp only at written
  split at written
  · cases written
  · obtain ⟨size,product,written⟩ := except_bind_ok.mp written
    obtain ⟨_,rfl⟩ := mul64_ok.mp product
    obtain ⟨_,room,_⟩ := except_bind_ok.mp written
    unfold zeroed at room
    split at room
    · assumption
    · cases room

theorem serialiseBucket_padded (fits : params.Fits) (shelf : Shelf params blocks) :
    serialiseBucket (padded params blocks) params = .ok (bucketPlaintext params blocks) := by
  have whole := serialiseBucket_ok fits (Nat.le_of_eq (padded_length shelf.room)) (padded_sized shelf.sized)
  unfold bucketPlaintext at whole ⊢
  rwa [padded_padded shelf.room] at whole

theorem deserialiseSlot_slotBytes (sized : block.payload.length = params.blockBytes) :
    deserialiseSlot params (slotBytes block) = .ok block := by
  have whole : (slotBytes block).take 4 = leBytes 4 block.id.val.toNat := List.take_left' (by simp)
  have tail : (slotBytes block).drop 4 = block.payload := List.drop_left' (by simp)
  have named : UInt32.ofNat (ofLeBytes (leBytes 4 block.id.val.toNat)) = block.id.val := by
    rw [word_roundtrip block.id.val.toNat_lt,UInt32.ofNat_toNat]
  unfold deserialiseSlot payloadFromExact
  rw [whole,tail,List.take_of_length_le (Nat.le_of_eq sized),if_pos sized,named]
  rfl

-- What was sealed comes back slot for slot, dummies included.
theorem deserialiseBucket_bucketPlaintext (fits : params.Fits) (room : blocks.length ≤ params.z + params.s)
    (sized : ∀ block ∈ blocks, block.payload.length = params.blockBytes) :
    deserialiseBucket (bucketPlaintext params blocks) params = .ok (padded params blocks) := by
  have rows := records_flatten ((padded params blocks).map slotBytes) [] (slots_sized sized)
  rw [List.append_nil,List.length_map,padded_length room] at rows
  have parsed : ((padded params blocks).map slotBytes).mapM (deserialiseSlot params) = .ok (padded params blocks) := by
    rw [List.mapM_map]
    have each := mapM_ok (f:=deserialiseSlot params ∘ slotBytes) (g:=fun block => block) (padded params blocks)
      fun block member => deserialiseSlot_slotBytes (padded_sized sized block member)
    rw [List.map_id'] at each
    exact each
  unfold deserialiseBucket
  rw [fits.capacity]
  simp only [bind,Except.bind,(bucket_size fits).1,bucketPlaintext_length room sized,ne_eq,not_true_eq_false,if_false]
  show (records (slotSize params) (params.z + params.s) (bucketPlaintext params blocks)).mapM _ = _
  unfold bucketPlaintext
  rw [rows,parsed]

end RingOram
