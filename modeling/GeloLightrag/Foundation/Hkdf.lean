import GeloLightrag.Foundation.Digest
import Mathlib.Data.List.DropRight

namespace Foundation

-- What is left of a key when its last zeros go.
def stripped (key : Bytes) : Bytes := key.rdropWhile (· == 0)

theorem stripped_append (key : Bytes) (k : Nat) : stripped (key ++ List.replicate k 0) = stripped key := by
  induction k with
  | zero => simp
  | succ k ih =>
      rw [List.replicate_succ',←List.append_assoc,stripped,List.rdropWhile_concat_pos _ _ _ (by decide)]
      exact ih

theorem stripped_fill (key : Bytes) : ∃ k, key = stripped key ++ List.replicate k 0 := by
  refine ⟨(key.rtakeWhile (· == 0)).length,?_⟩
  have zeros : key.rtakeWhile (· == 0) = List.replicate (key.rtakeWhile (· == 0)).length 0 :=
    List.eq_replicate_iff.mpr ⟨rfl,fun b listed => by simpa using List.mem_rtakeWhile_imp listed⟩
  rw [←zeros]
  exact List.rdropWhile_append_rtakeWhile.symm

def blockLength : Nat := 64
def digestLength : Nat := 32

section Hmac
variable [Sha256]

-- A key longer than the hash's block is hashed, and every key is filled up to a
-- block with zeros.
def blockKey (key : Bytes) : Bytes :=
  let short := if key.length ≤ blockLength then key else Sha256.digest key
  short ++ List.replicate (blockLength - short.length) 0

def hmac (key message : Bytes) : Bytes :=
  Sha256.digest ((blockKey key).map (· ^^^ 0x5c) ++ Sha256.digest ((blockKey key).map (· ^^^ 0x36) ++ message))

def extract (salt ikm : Bytes) : Bytes := hmac salt ikm

-- Each block is over the one before it, the info and its own number.
def expandFrom (prk info : Bytes) : Nat → Nat → Bytes → Bytes
  | 0,_,_ => []
  | blocks+1,number,before =>
      let block := hmac prk (before ++ info ++ [UInt8.ofNat number])
      block ++ expandFrom prk info blocks (number + 1) block

def expand (prk info : Bytes) (len : Nat) : Bytes :=
  (expandFrom prk info ((len + digestLength - 1) / digestLength) 1 []).take len

@[reducible] def HkdfSha256.standard : HkdfSha256 := ⟨fun salt ikm info len => expand (extract salt ikm) info len⟩

-- No two calls have one result, unless their keys fill up to one block and their
-- messages are the same.
def CollisionFree (calls : List (Bytes × Bytes)) : Prop :=
  ∀ c ∈ calls, ∀ d ∈ calls, hmac c.1 c.2 = hmac d.1 d.2 → blockKey c.1 = blockKey d.1 ∧ c.2 = d.2

instance (calls : List (Bytes × Bytes)) : Decidable (CollisionFree calls) :=
  inferInstanceAs (Decidable (∀ c ∈ calls, ∀ d ∈ calls, _))

theorem blockKey_short (short : key.length ≤ blockLength) : blockKey key = key ++ List.replicate (blockLength - key.length) 0 := by
  simp only [blockKey,if_pos short]

-- Keys of a block at most enter as the same key when they differ in their last zeros only.
theorem blockKey_eq_iff (short : a.length ≤ blockLength) (short' : b.length ≤ blockLength) :
    blockKey a = blockKey b ↔ stripped a = stripped b := by
  rw [blockKey_short short,blockKey_short short']
  constructor
  · intro same
    have bare := congrArg stripped same
    rwa [stripped_append,stripped_append] at bare
  · intro same
    obtain ⟨j,fillA⟩ := stripped_fill a
    obtain ⟨k,fillB⟩ := stripped_fill b
    have lengthA := congrArg List.length fillA
    have lengthB := congrArg List.length fillB
    rw [List.length_append,List.length_replicate] at lengthA lengthB
    have total : j + (blockLength - a.length) = k + (blockLength - b.length) := by
      rw [same] at lengthA
      omega
    calc a ++ List.replicate (blockLength - a.length) 0
        = stripped a ++ List.replicate (j + (blockLength - a.length)) 0 := by
          rw [List.replicate_add,←List.append_assoc,←fillA]
      _ = stripped b ++ List.replicate (k + (blockLength - b.length)) 0 := by rw [same,total]
      _ = b ++ List.replicate (blockLength - b.length) 0 := by
          rw [List.replicate_add,←List.append_assoc,←fillB]

theorem hmac_blockKey (same : blockKey a = blockKey b) (message : Bytes) : hmac a message = hmac b message := by
  unfold hmac
  rw [same]

variable (hashed : ∀ message, (Sha256.digest message).length = digestLength)
include hashed

theorem hmac_length (key message : Bytes) : (hmac key message).length = digestLength := hashed _

theorem expand_block (prk info : Bytes) : expand prk info digestLength = hmac prk (info ++ [1]) := by
  have whole : expandFrom prk info 1 1 [] = hmac prk (info ++ [1]) := by simp [expandFrom]
  have one : (digestLength + digestLength - 1) / digestLength = 1 := by decide
  rw [expand,one,whole]
  exact List.take_of_length_le (le_of_eq (hmac_length hashed _ _))

-- A digest fills up to one block as itself.
theorem blockKey_hmac (same : blockKey (hmac a m) = blockKey (hmac b n)) : hmac a m = hmac b n := by
  have short : ∀ key message, (hmac key message).length ≤ blockLength := fun key message => by
    rw [hmac_length hashed]
    decide
  rw [blockKey_short (short a m),blockKey_short (short b n),hmac_length hashed,hmac_length hashed] at same
  exact List.append_cancel_right same

end Hmac

end Foundation
