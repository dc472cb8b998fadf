import GeloLightrag.RingOram.Tree

namespace RingOram
open Foundation

-- A path from the root down, each bucket a child of the one before it.
structure RootPath (nLeaves : Nat) (path : List Nat) : Prop where
  length : path.length = treeLevels nLeaves
  root : path[0]? = some 0
  child : ∀ i b c, path[i]? = some b → path[i+1]? = some c → c = 2 * b + 1 ∨ c = 2 * b + 2

-- What the tree's functions compute for its size, with no check refused.
def Geometry (params : RingOramParams) : Prop :=
  ∃ count, params.numBuckets = .ok count ∧ totalBuckets params.nLeaves = .ok count ∧
    (∀ p < params.nLeaves, ∃ path, pathBuckets p params.nLeaves = .ok path ∧ RootPath params.nLeaves path ∧ ∀ b ∈ path, b < count) ∧
    ∀ p < params.nLeaves, ∀ q < params.nLeaves, ∀ path path', pathBuckets p params.nLeaves = .ok path →
      pathBuckets q params.nLeaves = .ok path' → path[treeLevels params.nLeaves - 1]? = path'[treeLevels params.nLeaves - 1]? → p = q

theorem branch_rootPath (small : p < 2 ^ (treeLevels nLeaves - 1)) : RootPath nLeaves (CompleteTree.branch (treeLevels nLeaves) p) where
  length := CompleteTree.branch_length _ _
  root := CompleteTree.branch_root (treeLevels_pos nLeaves) small
  child i b c here next := by
    have inside : i + 1 < treeLevels nLeaves := by
      by_contra beyond
      rw [List.getElem?_eq_none (by rw [CompleteTree.branch_length]; omega)] at next
      cases next
    rw [CompleteTree.branch_get (by omega)] at here
    rw [CompleteTree.branch_get inside] at next
    cases here
    cases next
    rw [←CompleteTree.branch_step inside]
    exact CompleteTree.node_child i _

-- Up to the largest size documented, the paths themselves are computed.
theorem pathBuckets_leaf (documented : nLeaves ≤ 2 ^ 31) (inside : p < nLeaves) :
    pathBuckets p nLeaves = .ok (CompleteTree.branch (treeLevels nLeaves) p) ∧ p < 2 ^ (treeLevels nLeaves - 1) := by
  have shallow := treeLevels_le documented (by decide)
  have small := Nat.lt_of_lt_of_le inside (leaves_fit shallow)
  exact ⟨pathBuckets_branch shallow small,small⟩

theorem treeLevels_deep (many : 2 ^ 30 < nLeaves) (documented : nLeaves ≤ 2 ^ 31) : treeLevels nLeaves = 32 := by
  have low : 30 ≤ Nat.log2 (nLeaves - 1) := (Nat.le_log2 (by omega)).mpr (by omega)
  have high : Nat.log2 (nLeaves - 1) < 31 := (Nat.log2_lt (by omega)).mpr (by omega)
  rw [treeLevels_log (by omega) (by omega)]
  omega

-- The count is one less than a shift by the number of levels, which is refused
-- at thirty-two.
theorem path_geometry_iff (params : RingOramParams) (documented : params.nLeaves ≤ 2 ^ 31) :
    Geometry params ↔ params.nLeaves ≤ 2 ^ 30 := by
  constructor
  · rintro ⟨count,counted,_⟩
    have shallow := (RingOramParams.numBuckets_ok.mp counted).1
    by_contra many
    have deep : params.levels = 32 := treeLevels_deep (by omega) documented
    omega
  · intro fits
    have shallow : params.levels ≤ 31 := treeLevels_le fits (by decide)
    have counted : params.numBuckets = .ok params.buckets := RingOramParams.numBuckets_ok.mpr ⟨by omega,rfl⟩
    refine ⟨params.buckets,counted,counted,fun p inside => ?_,fun p inside q inside' path path' one two leaves => ?_⟩
    · obtain ⟨computed,small⟩ := pathBuckets_leaf documented inside
      exact ⟨_,computed,branch_rootPath small,fun b member => CompleteTree.branch_bound small member⟩
    · rw [(pathBuckets_leaf documented inside).1] at one
      rw [(pathBuckets_leaf documented inside').1] at two
      cases one
      cases two
      rw [CompleteTree.branch_leaf (treeLevels_pos _),CompleteTree.branch_leaf (treeLevels_pos _)] at leaves
      have same := Option.some.inj leaves
      unfold CompleteTree.node at same
      omega

theorem path_geometry_iff_three_leaves : Geometry ⟨4,5,3,16,3,0,by decide⟩ :=
  (path_geometry_iff ⟨4,5,3,16,3,0,by decide⟩ (by decide)).mpr (by decide)

theorem count_refused_past_two_to_the_30 :
    ¬Geometry ⟨4,5,3,16,2 ^ 30 + 1,0,by decide⟩ ∧ totalBuckets (2 ^ 30 + 1) = .error "attempt to shift left with overflow" := by
  have deep : treeLevels (2 ^ 30 + 1) = 32 := treeLevels_deep (by decide) (by decide)
  have refused : totalBuckets (2 ^ 30 + 1) = .error "attempt to shift left with overflow" := by
    unfold totalBuckets
    rw [deep,shl32_refused (Nat.le_refl 32)]
    rfl
  refine ⟨?_,refused⟩
  rintro ⟨count,_,total,_⟩
  rw [show (RingOramParams.mk 4 5 3 16 (2 ^ 30 + 1) 0 (by decide)).nLeaves = 2 ^ 30 + 1 from rfl,refused] at total
  cases total

end RingOram
