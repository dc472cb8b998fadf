import GeloLightrag.Foundation.InPlace
import GeloLightrag.Foundation.QrFactor
import GeloLightrag.Gelo.Mask

set_option linter.unusedSectionVars false

namespace Gelo
open Foundation Orthonormal

namespace Haar
variable {F : Type} [Field F] [LinearOrder F] [IsStrictOrderedRing F]

-- One row of a pass: the entries of row r from column k on, m of them, less a
-- multiple of a vector. A zero coefficient leaves the row alone.
def lessRow (k m r : Nat) (coef : F) (x : Nat → F) (a : Nat → Nat → F) : Nat → Nat → F :=
  if coef = 0 then a else fun i j => if i = r ∧ k ≤ j ∧ j < k + m then a i j - coef * x (j - k) else a i j

-- The first m entries of the scratch are cleared and then gather vᵀ A[k:, k:], row by
-- row; the entries after them stay as they were.
def rank1HouseholderUpdateRows (k m : Nat) (v : Nat → F) (a : Nat → Nat → F) (dotBuf : Nat → F) : (Nat → Nat → F) × (Nat → F) :=
  let cleared := fun j => if j < m then 0 else dotBuf j
  let dot := (List.range m).foldl (fun dot i j => if j < m then dot j + v i * a (k + i) (k + j) else dot j) cleared
  ((List.range m).foldl (fun a i => lessRow k m (k + i) (((2 : Nat) : F) * v i) dot a) a,dot)

-- Here the scratch takes one entry for each row of q.
def rank1HouseholderUpdateCols (n k m : Nat) (v : Nat → F) (q : Nat → Nat → F) (dotBuf : Nat → F) : (Nat → Nat → F) × (Nat → F) :=
  let dot := (List.range n).foldl (fun dot r => Function.update dot r (∑ c ∈ Finset.range m, q r (k + c) * v c)) dotBuf
  ((List.range n).foldl (fun q r => lessRow k m r (((2 : Nat) : F) * dot r) v q) q,dot)

structure Factoring (F : Type) where
  a : Nat → Nat → F
  q : Nat → Nat → F
  vBuf : Nat → F
  dotBuf : Nat → F

-- One turn of the loop over the columns. `negligible` is the test of a length against
-- the threshold.
def factorColumn (sqrt : F → F) (negligible : F → Bool) (n : Nat) (s : Factoring F) (k : Nat) : Factoring F :=
  let m := n - k
  let sigma := sqrt (∑ i ∈ Finset.Ico k n, s.a i k * s.a i k)
  if negligible sigma then s
  else
    let sign : F := if 0 ≤ s.a k k then 1 else -1
    let alpha := -sign * sigma
    let v0 := s.a k k - alpha
    let vNorm := sqrt (v0 * v0 + ∑ i ∈ Finset.Ico (k+1) n, s.a i k * s.a i k)
    if negligible vNorm then s
    else
      let v := fun l => if l = 0 then v0 / vNorm else if l < m then s.a (k + l) k / vNorm else s.vBuf l
      let rows := rank1HouseholderUpdateRows k m v s.a s.dotBuf
      let cols := rank1HouseholderUpdateCols n k m v s.q rows.2
      ⟨rows.1,cols.1,v,cols.2⟩

-- A column of q is negated where the diagonal of a is negative.
def negateColumn (a q : Nat → Nat → F) (i : Nat) : Nat → Nat → F :=
  if a i i < 0 then fun r c => if c = i then -q r c else q r c else q

-- `sample_haar_orthogonal` on the matrix of its draws.
def haarFactor (sqrt : F → F) (negligible : F → Bool) (n : Nat) (g : Nat → Nat → F) : Nat → Nat → F :=
  let s := (List.range (n - 1)).foldl (factorColumn sqrt negligible n) ⟨g,eye,fun _ => 0,fun _ => 0⟩
  (List.range n).foldl (negateColumn s.a) s.q

end Haar
end Gelo
