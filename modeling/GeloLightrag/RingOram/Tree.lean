import GeloLightrag.Foundation.Checked
import GeloLightrag.Foundation.CompleteTree

namespace RingOram
open Foundation

-- All fields are u32. A PathId is the plain number it wraps.
structure RingOramParams where
  z : Nat
  s : Nat
  a : Nat
  blockBytes : Nat
  nLeaves : Nat
  treetopLevels : Nat
  words : z < 2 ^ 32 ∧ s < 2 ^ 32 ∧ a < 2 ^ 32 ∧ blockBytes < 2 ^ 32 ∧ nLeaves < 2 ^ 32 ∧ treetopLevels < 2 ^ 32 := by decide
deriving DecidableEq,Repr

def treeLevels (nLeaves : Nat) : Nat :=
  if nLeaves ≤ 1 then 1 else 32 - leadingZeros32 (nLeaves - 1) + 1

def totalBuckets (nLeaves : Nat) : Except String Nat := do
  sub32 (← shl32 1 (treeLevels nLeaves)) 1

-- The loop of `path_buckets`: each turn pushes the parent of the last bucket.
-- Building the list from its end makes the closing reversal unnecessary.
def climb : Nat → Nat → List Nat → Except String (List Nat)
  | 0,_,out => .ok out
  | turns+1,cur,out => do
    let below ← sub32 cur 1
    climb turns (below / 2) (below / 2 :: out)

def pathBuckets (p : Nat) (nLeaves : Nat) : Except String (List Nat) := do
  let levels := treeLevels nLeaves
  let row ← shl32 1 (levels - 1)
  let leafBucket ← add32 (← sub32 row 1) p
  climb (levels - 1) leafBucket [leafBucket]

namespace RingOramParams

def bucketCapacity (params : RingOramParams) : Except String Nat := add32 params.z params.s
def levels (params : RingOramParams) : Nat := treeLevels params.nLeaves
def numBuckets (params : RingOramParams) : Except String Nat := do
  sub32 (← shl32 1 params.levels) 1

def treetopBucketCount (params : RingOramParams) : Except String Nat :=
  if params.treetopLevels = 0 then .ok 0 else do sub32 (← shl32 1 params.treetopLevels) 1

end RingOramParams

theorem treeLevels_pos (nLeaves : Nat) : 0 < treeLevels nLeaves := by
  unfold treeLevels; split <;> omega

theorem treeLevels_log (many : 1 < nLeaves) (word : Nat.log2 (nLeaves - 1) < 32) :
    treeLevels nLeaves = Nat.log2 (nLeaves - 1) + 2 := by
  unfold treeLevels leadingZeros32
  rw [if_neg (by omega),if_neg (by omega)]
  omega

theorem leaves_fit (shallow : treeLevels nLeaves ≤ 32) : nLeaves ≤ 2 ^ (treeLevels nLeaves - 1) := by
  by_cases many : 1 < nLeaves
  · have word : Nat.log2 (nLeaves - 1) < 32 := by
      unfold treeLevels leadingZeros32 at shallow
      rw [if_neg (by omega),if_neg (by omega)] at shallow
      omega
    have bound := Nat.lt_log2_self (n:=nLeaves-1)
    rw [treeLevels_log many word,show Nat.log2 (nLeaves-1) + 2 - 1 = Nat.log2 (nLeaves-1) + 1 by omega]
    omega
  · have positive := Nat.two_pow_pos (treeLevels nLeaves - 1)
    omega

theorem treeLevels_le (bounded : nLeaves ≤ 2 ^ k) (word : k ≤ 32) : treeLevels nLeaves ≤ k + 1 := by
  by_cases many : 1 < nLeaves
  · have below : Nat.log2 (nLeaves - 1) < k := (Nat.log2_lt (by omega)).mpr (by omega)
    rw [treeLevels_log many (by omega)]
    omega
  · unfold treeLevels; rw [if_pos (by omega)]; omega

theorem climb_branch (depth leaf : Nat) (out : List Nat) :
    climb depth (CompleteTree.node depth leaf) (CompleteTree.node depth leaf :: out) =
      .ok (CompleteTree.branch (depth+1) leaf ++ out) := by
  induction depth generalizing leaf out with
  | zero => simp [climb,CompleteTree.branch]
  | succ depth ih =>
    have up := CompleteTree.parent_node depth leaf
    have below : 1 ≤ CompleteTree.node (depth+1) leaf := by
      unfold CompleteTree.node
      have positive := Nat.two_pow_pos depth
      rw [Nat.pow_succ]
      omega
    unfold CompleteTree.parent at up
    rw [climb,sub32_of below]
    show climb depth ((CompleteTree.node (depth+1) leaf - 1) / 2) _ = _
    rw [up,ih,CompleteTree.branch_succ (depth+1),List.append_assoc]
    rfl

-- Where the leaf row starts inside the word, the path is the branch to its leaf.
theorem pathBuckets_branch (shallow : treeLevels nLeaves ≤ 32) (inside : p < 2 ^ (treeLevels nLeaves - 1)) :
    pathBuckets p nLeaves = .ok (CompleteTree.branch (treeLevels nLeaves) p) := by
  have deep := treeLevels_pos nLeaves
  have positive := Nat.two_pow_pos (treeLevels nLeaves - 1)
  have row : 2 ^ (treeLevels nLeaves - 1) ≤ 2 ^ 31 := Nat.pow_le_pow_right (by decide) (by omega)
  have climbed := climb_branch (treeLevels nLeaves - 1) p []
  unfold CompleteTree.node at climbed
  unfold pathBuckets
  have shifted := one_shl32 (show treeLevels nLeaves - 1 < 32 by omega)
  have added := add32_of (show 2 ^ (treeLevels nLeaves - 1) - 1 + p < 2 ^ 32 by omega)
  have lessOne : sub32 (2 ^ (treeLevels nLeaves - 1)) 1 = .ok (2 ^ (treeLevels nLeaves - 1) - 1) := sub32_of positive
  simp only [shifted,lessOne,added,bind,Except.bind]
  rw [climbed,List.append_nil,Nat.sub_add_cancel deep]

namespace RingOramParams

-- The sizes that u32 arithmetic can express. The tree's bucket count 2^levels - 1
-- is computed by a shift that is refused at 32 levels, so 2^30 leaves is the most.
-- And a bucket's bytes are those of one vector.
structure Fits (params : RingOramParams) : Prop where
  tree : params.levels ≤ 31
  treetop : params.treetopLevels ≤ 31
  bucket : params.z + params.s < 2 ^ 32
  bytes : (params.z + params.s) * (4 + params.blockBytes) < 2 ^ 63

instance (params : RingOramParams) : Decidable params.Fits :=
  decidable_of_iff (params.levels ≤ 31 ∧ params.treetopLevels ≤ 31 ∧ params.z + params.s < 2 ^ 32 ∧
      (params.z + params.s) * (4 + params.blockBytes) < 2 ^ 63)
    ⟨fun h => ⟨h.1,h.2.1,h.2.2.1,h.2.2.2⟩,fun h => ⟨h.tree,h.treetop,h.bucket,h.bytes⟩⟩

def buckets (params : RingOramParams) : Nat := 2 ^ params.levels - 1
def top (params : RingOramParams) : Nat := 2 ^ params.treetopLevels - 1
def path (params : RingOramParams) (p : Nat) : List Nat := CompleteTree.branch params.levels p

theorem buckets_pos (params : RingOramParams) : 0 < params.buckets := by
  have wide : 2 ^ 1 ≤ 2 ^ params.levels := Nat.pow_le_pow_right (by decide) (treeLevels_pos _)
  unfold buckets; omega

variable {params : RingOramParams}

theorem numBuckets_ok : params.numBuckets = .ok n ↔ params.levels < 32 ∧ n = params.buckets := by
  unfold numBuckets
  rw [except_bind_ok]
  constructor
  · rintro ⟨row,shifted,less⟩
    obtain ⟨shallow,_⟩ := shl32_ok.mp shifted
    rw [one_shl32 shallow] at shifted
    cases shifted
    exact ⟨shallow,(sub32_ok.mp less).2.symm⟩
  · rintro ⟨shallow,rfl⟩
    exact ⟨_,one_shl32 shallow,sub32_of (Nat.two_pow_pos _)⟩

theorem treetopBucketCount_ok : params.treetopBucketCount = .ok n ↔ params.treetopLevels < 32 ∧ n = params.top := by
  unfold treetopBucketCount top
  split
  · rename_i none
    rw [none]
    simp [eq_comm]
  · rw [except_bind_ok]
    constructor
    · rintro ⟨row,shifted,less⟩
      obtain ⟨shallow,_⟩ := shl32_ok.mp shifted
      rw [one_shl32 shallow] at shifted
      cases shifted
      exact ⟨shallow,(sub32_ok.mp less).2.symm⟩
    · rintro ⟨shallow,rfl⟩
      exact ⟨_,one_shl32 shallow,sub32_of (Nat.two_pow_pos _)⟩

namespace Fits

theorem capacity (fits : params.Fits) : params.bucketCapacity = .ok (params.z + params.s) := add32_of fits.bucket
theorem count (fits : params.Fits) : params.numBuckets = .ok params.buckets :=
  numBuckets_ok.mpr ⟨Nat.lt_succ_of_le fits.tree,rfl⟩
theorem cached (fits : params.Fits) : params.treetopBucketCount = .ok params.top :=
  treetopBucketCount_ok.mpr ⟨Nat.lt_succ_of_le fits.treetop,rfl⟩


end Fits
end RingOramParams
end RingOram
