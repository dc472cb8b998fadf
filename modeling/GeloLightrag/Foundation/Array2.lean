import Mathlib.Algebra.Algebra.Defs
import Mathlib.Algebra.BigOperators.Group.Finset.Sigma
import Mathlib.Algebra.BigOperators.Pi
import Mathlib.Algebra.BigOperators.Ring.Finset
import Mathlib.Algebra.Group.Nat.Defs
import Mathlib.Algebra.Module.LinearMap.End
import Mathlib.Algebra.Module.Pi

namespace Foundation

-- A matrix that carries its shape. Outside the shape every entry is zero, so two
-- arrays of one shape with the same entries are the same array.
structure Array2 (F : Type) [Zero F] where
  nrows : Nat
  ncols : Nat
  entry : Nat → Nat → F
  blank : ∀ i j, ¬(i < nrows ∧ j < ncols) → entry i j = 0

namespace Array2
variable {F : Type}

section Shapes
variable [Zero F]

def of (nrows ncols : Nat) (f : Nat → Nat → F) : Array2 F :=
  ⟨nrows,ncols,fun i j => if i < nrows ∧ j < ncols then f i j else 0,fun _ _ outside => if_neg outside⟩

theorem of_entry {f : Nat → Nat → F} (row : i < n) (col : j < d) : (of n d f).entry i j = f i j := if_pos ⟨row,col⟩

theorem eq_of {a b : Array2 F} (rows : a.nrows = b.nrows) (cols : a.ncols = b.ncols)
    (same : ∀ i < a.nrows, ∀ j < a.ncols, a.entry i j = b.entry i j) : a = b := by
  have entries : a.entry = b.entry := by
    funext i j
    by_cases inside : i < a.nrows ∧ j < a.ncols
    · exact same i inside.1 j inside.2
    · rw [a.blank i j inside,b.blank i j (by rw [←rows,←cols]; exact inside)]
  cases a
  cases b
  cases rows
  cases cols
  cases entries
  rfl

def zeros (nrows ncols : Nat) : Array2 F := of nrows ncols fun _ _ => 0

-- The rows from lo to below hi.
def rows (lo hi : Nat) (a : Array2 F) : Array2 F := of (hi - lo) a.ncols fun i j => a.entry (lo + i) j

-- The rows from lo to below hi replaced.
def fillRows (lo hi : Nat) (f : Nat → Nat → F) (a : Array2 F) : Array2 F :=
  of a.nrows a.ncols fun i j => if lo ≤ i ∧ i < hi then f (i - lo) j else a.entry i j

-- Blocks of size rows each, one below the other.
def concat (size ncols : Nat) (blocks : List (Array2 F)) : Array2 F :=
  of (blocks.length * size) ncols fun i j => (blocks[i / size]?).elim 0 fun block => block.entry (i % size) j

theorem rows_entry {a : Array2 F} (row : i < (a.rows lo hi).nrows) (col : j < (a.rows lo hi).ncols) :
    (a.rows lo hi).entry i j = a.entry (lo + i) j := of_entry row col

@[simp] theorem fillRows_nrows (lo hi : Nat) (f : Nat → Nat → F) (a : Array2 F) : (a.fillRows lo hi f).nrows = a.nrows := rfl

@[simp] theorem fillRows_ncols (lo hi : Nat) (f : Nat → Nat → F) (a : Array2 F) : (a.fillRows lo hi f).ncols = a.ncols := rfl

theorem fillRows_entry {f : Nat → Nat → F} {a : Array2 F} (row : i < a.nrows) (col : j < a.ncols) :
    (a.fillRows lo hi f).entry i j = if lo ≤ i ∧ i < hi then f (i - lo) j else a.entry i j := of_entry row col

theorem rows_all (a : Array2 F) : a.rows 0 a.nrows = a := by
  refine eq_of (Nat.sub_zero _) rfl ?_
  intro i row j col
  rw [rows_entry row col,Nat.zero_add]

-- A block of a concatenation.
theorem concat_block {blocks : List (Array2 F)} (listed : blocks[b]? = some block) (tall : block.nrows = size)
    (wide : block.ncols = d) : (concat size d blocks).rows (b * size) ((b+1) * size) = block := by
  have span : (b+1) * size - b * size = size := by rw [Nat.succ_mul,Nat.add_sub_cancel_left]
  refine eq_of (span.trans tall.symm) wide.symm ?_
  intro i row j col
  have inside : i < size := by rw [←span]; exact row
  have size_pos : 0 < size := Nat.zero_lt_of_lt inside
  have before : b < blocks.length := by
    by_contra beyond
    rw [List.getElem?_eq_none (Nat.le_of_not_lt beyond)] at listed
    cases listed
  have below : b * size + i < blocks.length * size :=
    calc b * size + i < b * size + size := Nat.add_lt_add_left inside _
      _ = (b+1) * size := (Nat.succ_mul b size).symm
      _ ≤ blocks.length * size := Nat.mul_le_mul_right _ before
  have quotient : (b * size + i) / size = b := by
    rw [Nat.mul_comm,Nat.mul_add_div size_pos,Nat.div_eq_of_lt inside,Nat.add_zero]
  have remainder : (b * size + i) % size = i := by
    rw [Nat.mul_comm,Nat.mul_add_mod,Nat.mod_eq_of_lt inside]
  rw [rows_entry row col,concat,of_entry below (show j < d from col),quotient,remainder,listed]
  rfl

theorem of_self {x : Array2 F} (tall : x.nrows = n) (wide : x.ncols = d) : of n d x.entry = x :=
  eq_of tall.symm wide.symm fun _ row _ col => of_entry row col

-- Cutting into blocks and laying them out again.
theorem concat_cut {x : Array2 F} (some : 0 < size) (tall : x.nrows = count * size) :
    concat size x.ncols ((List.range count).map fun b => x.rows (b * size) ((b+1) * size)) = x := by
  have length : ((List.range count).map fun b => x.rows (b * size) ((b+1) * size)).length = count := by
    rw [List.length_map,List.length_range]
  refine eq_of (by rw [tall]; show List.length _ * size = _; rw [length]) rfl ?_
  intro i row j col
  have row' : i < count * size := by rw [←length]; exact row
  have before : i / size < count := Nat.div_lt_of_lt_mul (by rw [Nat.mul_comm]; exact row')
  have span : (i / size + 1) * size - i / size * size = size := by rw [Nat.succ_mul,Nat.add_sub_cancel_left]
  have block : ((List.range count).map fun b => x.rows (b * size) ((b+1) * size))[i / size]? =
      .some (x.rows (i / size * size) ((i / size + 1) * size)) := by
    rw [List.getElem?_map,List.getElem?_range before]; rfl
  rw [concat,of_entry (show i < List.length _ * size by rw [length]; exact row') (show j < x.ncols from col),block]
  show (x.rows _ _).entry (i % size) j = _
  have inside : i % size < (x.rows (i / size * size) ((i / size + 1) * size)).nrows :=
    Nat.lt_of_lt_of_le (Nat.mod_lt i some) (Nat.le_of_eq span.symm)
  rw [rows_entry inside (show j < x.ncols from col),Nat.mul_comm,Nat.div_add_mod]

end Shapes

section Products
variable [CommRing F]

def dot (a b : Array2 F) : Array2 F :=
  of a.nrows b.ncols fun i j => ∑ k ∈ Finset.range a.ncols, a.entry i k * b.entry k j

def transpose (a : Array2 F) : Array2 F := of a.ncols a.nrows fun i j => a.entry j i

def identity (n : Nat) : Array2 F := of n n fun i j => if i = j then 1 else 0

theorem dot_entry {a b : Array2 F} (col : j < b.ncols) :
    (a.dot b).entry i j = ∑ k ∈ Finset.range a.ncols, a.entry i k * b.entry k j := by
  by_cases row : i < a.nrows
  · exact of_entry row col
  · rw [(a.dot b).blank i j fun inside => row inside.1]
    refine (Finset.sum_eq_zero fun k _ => ?_).symm
    rw [a.blank i k fun inside => row inside.1,zero_mul]

theorem dot_assoc (a b c : Array2 F) : (a.dot b).dot c = a.dot (b.dot c) := by
  refine eq_of rfl rfl ?_
  intro i row j col
  have col' : j < c.ncols := col
  rw [dot_entry col',dot_entry (show j < (b.dot c).ncols from col')]
  calc ∑ l ∈ Finset.range b.ncols, (a.dot b).entry i l * c.entry l j
      = ∑ l ∈ Finset.range b.ncols, ∑ k ∈ Finset.range a.ncols, a.entry i k * (b.entry k l * c.entry l j) := by
        refine Finset.sum_congr rfl fun l member => ?_
        rw [dot_entry (Finset.mem_range.mp member),Finset.sum_mul]
        exact Finset.sum_congr rfl fun k _ => mul_assoc _ _ _
    _ = ∑ k ∈ Finset.range a.ncols, a.entry i k * (b.dot c).entry k j := by
        rw [Finset.sum_comm]
        refine Finset.sum_congr rfl fun k _ => ?_
        rw [dot_entry col',Finset.mul_sum]

theorem rows_dot {a w : Array2 F} : (a.dot w).rows lo hi = (a.rows lo hi).dot w := by
  refine eq_of rfl rfl ?_
  intro i row j col
  have row' : i < (a.rows lo hi).nrows := row
  rw [rows_entry row col,dot_entry (show j < w.ncols from col),dot_entry (show j < w.ncols from col)]
  refine Finset.sum_congr rfl fun k member => ?_
  rw [rows_entry row' (Finset.mem_range.mp member)]

-- A linear map taken over every column.
def onColumns (T : Module.End F (Nat → F)) (x : Array2 F) : Array2 F :=
  of x.nrows x.ncols fun i j => T (fun k => x.entry k j) i

@[simp] theorem onColumns_nrows (T : Module.End F (Nat → F)) (x : Array2 F) : (onColumns T x).nrows = x.nrows := rfl

@[simp] theorem dot_nrows (a b : Array2 F) : (a.dot b).nrows = a.nrows := rfl

theorem onColumns_entry {T : Module.End F (Nat → F)} {x : Array2 F} (row : i < x.nrows) (col : j < x.ncols) :
    (onColumns T x).entry i j = T (fun k => x.entry k j) i := of_entry row col

-- It only mixes rows, so a product from the right may be taken before or after it.
theorem onColumns_dot (T : Module.End F (Nat → F)) (x w : Array2 F) :
    (onColumns T x).dot w = onColumns T (x.dot w) := by
  refine eq_of rfl rfl ?_
  intro i row j col
  have column : (fun k => (x.dot w).entry k j) = ∑ l ∈ Finset.range x.ncols, w.entry l j • fun k => x.entry k l := by
    funext k
    rw [dot_entry (show j < w.ncols from col),Finset.sum_apply]
    refine Finset.sum_congr rfl fun l _ => ?_
    rw [Pi.smul_apply,smul_eq_mul,mul_comm]
  have row' : i < (x.dot w).nrows := row
  have col' : j < (x.dot w).ncols := col
  rw [dot_entry (show j < w.ncols from col),onColumns_entry row' col',column,map_sum,Finset.sum_apply]
  refine Finset.sum_congr rfl fun l member => ?_
  rw [map_smul,Pi.smul_apply,smul_eq_mul,onColumns_entry (show i < x.nrows from row) (Finset.mem_range.mp member),mul_comm]

-- What the first n rows of the result depend on.
def Local (n : Nat) (T : Module.End F (Nat → F)) : Prop :=
  ∀ v w : Nat → F, (∀ k < n, v k = w k) → ∀ i < n, T v i = T w i

def Inverts (n : Nat) (U T : Module.End F (Nat → F)) : Prop := ∀ v : Nat → F, ∀ i < n, U (T v) i = v i

theorem onColumns_mul {S : Module.End F (Nat → F)} (T : Module.End F (Nat → F)) {x : Array2 F} (near : Local x.nrows S) :
    onColumns S (onColumns T x) = onColumns (S * T) x := by
  refine eq_of rfl rfl ?_
  intro i row j col
  have row' : i < x.nrows := row
  have col' : j < x.ncols := col
  rw [onColumns_entry row' col',onColumns_entry (show i < (onColumns T x).nrows from row) (show j < (onColumns T x).ncols from col)]
  exact near _ _ (fun k small => onColumns_entry small col') i row'

-- Masking, a product on the masked side, and unmasking: the plain product.
theorem unmask_dot {U T : Module.End F (Nat → F)} (near : Local n U) (inverse : Inverts n U T) {x : Array2 F}
    (tall : x.nrows = n) (w : Array2 F) : onColumns U ((onColumns T x).dot w) = x.dot w := by
  rw [onColumns_dot]
  refine eq_of rfl rfl ?_
  intro i row j col
  have row' : i < (onColumns T (x.dot w)).nrows := row
  have col' : j < (x.dot w).ncols := col
  have cut := near (fun k => (onColumns T (x.dot w)).entry k j) (T fun k => (x.dot w).entry k j)
    (fun k small => onColumns_entry (show k < (x.dot w).nrows from tall ▸ small) col') i (tall ▸ row')
  rw [onColumns_entry row' col',cut,inverse _ i (tall ▸ row')]

end Products
end Array2
end Foundation
