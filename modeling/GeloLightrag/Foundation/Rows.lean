import GeloLightrag.Foundation.Array2

namespace Foundation
namespace Array2
variable {F : Type}

section Zero
variable [Zero F]

-- A row with nothing past its width.
def cut (d : Nat) (f : Nat → F) : Nat → F := fun j => if j < d then f j else 0

theorem cut_at {f : Nat → F} (col : j < d) : cut d f j = f j := if_pos col

theorem cut_past {f : Nat → F} (past : ¬j < d) : cut d f j = 0 := if_neg past

theorem cut_congr {f g : Nat → F} (same : ∀ j < d, f j = g j) : cut d f = cut d g := by
  funext j
  by_cases col : j < d
  · rw [cut_at col,cut_at col,same j col]
  · rw [cut_past col,cut_past col]

theorem of_row {f : Nat → Nat → F} (row : i < n) : (of n d f).entry i = cut d (f i) := by
  funext j
  by_cases col : j < d
  · rw [of_entry row col,cut_at col]
  · rw [(of n d f).blank i j fun inside => col inside.2,cut_past col]

theorem cut_entry (a : Array2 F) (i : Nat) : cut a.ncols (a.entry i) = a.entry i := by
  funext j
  by_cases col : j < a.ncols
  · exact cut_at col
  · rw [cut_past col,a.blank i j fun inside => col inside.2]

theorem eq_of_rows {a b : Array2 F} (tall : a.nrows = b.nrows) (wide : a.ncols = b.ncols)
    (same : ∀ i < a.nrows, a.entry i = b.entry i) : a = b :=
  eq_of tall wide fun i row j _ => congrFun (same i row) j

theorem ext_row {a b : Array2 F} (same : ∀ j < d, a.entry i j = b.entry i' j) (left : a.ncols = d) (right : b.ncols = d) :
    a.entry i = b.entry i' := by
  rw [←cut_entry a i,←cut_entry b i',left,right]
  exact cut_congr same

@[simp] theorem of_nrows {f : Nat → Nat → F} : (of n d f).nrows = n := rfl
@[simp] theorem of_ncols {f : Nat → Nat → F} : (of n d f).ncols = d := rfl

-- The columns from lo on, width of them.
def columns (lo width : Nat) (a : Array2 F) : Array2 F := of a.nrows width fun i j => a.entry i (lo + j)

-- Blocks of one width side by side.
def beside (n width : Nat) (blocks : List (Array2 F)) : Array2 F :=
  of n (blocks.length * width) fun i j => (blocks[j / width]?).elim 0 fun block => block.entry i (j % width)

end Zero

section Products
variable [CommRing F]

def times (w : Array2 F) (r : Nat → F) : Nat → F := cut w.ncols fun j => ∑ k ∈ Finset.range w.nrows, r k * w.entry k j

theorem dot_row {a w : Array2 F} (conform : a.ncols = w.nrows) (row : i < a.nrows) : (a.dot w).entry i = times w (a.entry i) := by
  unfold dot times
  rw [of_row row,conform]

end Products
end Array2
end Foundation
