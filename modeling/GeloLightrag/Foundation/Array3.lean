import GeloLightrag.Foundation.Array2
import Mathlib.Data.List.GetD

namespace Foundation

namespace Array2
variable {F : Type} [Zero F]

def row (a : Array2 F) (i : Nat) : List F := (List.range a.ncols).map (a.entry i)

def rowList (a : Array2 F) : List (List F) := (List.range a.nrows).map a.row

@[simp] theorem row_length (a : Array2 F) (i : Nat) : (a.row i).length = a.ncols := by simp [row]

@[simp] theorem rowList_length (a : Array2 F) : a.rowList.length = a.nrows := by simp [rowList]

theorem eq_of_rowList {a b : Array2 F} (wide : a.ncols = b.ncols) (rows : a.rowList = b.rowList) : a = b := by
  have tall : a.nrows = b.nrows := by rw [←rowList_length a,rows,rowList_length]
  refine eq_of tall wide fun i row j col => ?_
  have lines : a.row i = b.row i := by
    have both := congrArg (fun listed => listed[i]?) rows
    simp only [rowList,List.getElem?_map,List.getElem?_range row,List.getElem?_range (tall ▸ row),Option.map_some] at both
    exact Option.some.inj both
  have both := congrArg (fun entries => entries[j]?) lines
  simp only [Array2.row,List.getElem?_map,List.getElem?_range col,List.getElem?_range (wide ▸ col),Option.map_some] at both
  exact Option.some.inj both

end Array2

-- Planes of equal matrices in one flat buffer: entry (b, p, d) lies at
-- (b * rows + p) * cols + d.
structure Array3 (F : Type) where
  planes : Nat
  rows : Nat
  cols : Nat
  data : List F
  full : data.length = planes * rows * cols

namespace Array3
variable {F : Type} [Zero F]

def zeros (planes rows cols : Nat) : Array3 F := ⟨planes,rows,cols,List.replicate (planes * rows * cols) 0,List.length_replicate⟩

def offset (a : Array3 F) (b p d : Nat) : Nat := (b * a.rows + p) * a.cols + d

def at_ (a : Array3 F) (b p d : Nat) : F := a.data.getD (a.offset b p d) 0

-- `a.slice(s![b, ..len, ..])`
def slice (a : Array3 F) (b len : Nat) : Array2 F := .of len a.cols (a.at_ b)

-- `a.slice_mut(s![b, lo..lo + source.nrows(), ..]).assign(&source)`: a position of the
-- buffer is within the slice or keeps its value.
def assign (a : Array3 F) (b lo : Nat) (source : Array2 F) : Array3 F where
  planes := a.planes
  rows := a.rows
  cols := a.cols
  data := a.data.mapIdx fun i old =>
    let p := i / a.cols % a.rows
    if i / a.cols / a.rows = b ∧ lo ≤ p ∧ p < lo + source.nrows then source.entry (p - lo) (i % a.cols) else old
  full := by rw [List.length_mapIdx]; exact a.full

variable {a : Array3 F} {source : Array2 F}

@[simp] theorem assign_rows : (a.assign b lo source).rows = a.rows := rfl
@[simp] theorem assign_cols : (a.assign b lo source).cols = a.cols := rfl
@[simp] theorem assign_planes : (a.assign b lo source).planes = a.planes := rfl

omit [Zero F] in
theorem offset_inside (plane : b < a.planes) (row : p < a.rows) (col : d < a.cols) : a.offset b p d < a.data.length := by
  rw [a.full]
  unfold offset
  calc (b * a.rows + p) * a.cols + d < (b * a.rows + p) * a.cols + a.cols := Nat.add_lt_add_left col _
    _ = (b * a.rows + p + 1) * a.cols := (Nat.succ_mul _ _).symm
    _ ≤ (b * a.rows + a.rows) * a.cols := Nat.mul_le_mul_right _ (by omega)
    _ = (b + 1) * a.rows * a.cols := by rw [Nat.succ_mul]
    _ ≤ a.planes * a.rows * a.cols := Nat.mul_le_mul_right _ (Nat.mul_le_mul_right _ plane)

omit [Zero F] in
-- The strides keep rows of different planes, and positions of different rows, apart.
theorem offset_parts (row : p < a.rows) (col : d < a.cols) : a.offset b p d % a.cols = d ∧
    a.offset b p d / a.cols % a.rows = p ∧ a.offset b p d / a.cols / a.rows = b := by
  unfold offset
  have width : 0 < a.cols := Nat.zero_lt_of_lt col
  have height : 0 < a.rows := Nat.zero_lt_of_lt row
  have line : ((b * a.rows + p) * a.cols + d) / a.cols = b * a.rows + p := by
    rw [Nat.mul_comm,Nat.mul_add_div width,Nat.div_eq_of_lt col,Nat.add_zero]
  refine ⟨?_,?_,?_⟩
  · rw [Nat.mul_comm,Nat.mul_add_mod,Nat.mod_eq_of_lt col]
  · rw [line,Nat.mul_comm,Nat.mul_add_mod,Nat.mod_eq_of_lt row]
  · rw [line,Nat.mul_comm,Nat.mul_add_div height,Nat.div_eq_of_lt row,Nat.add_zero]

theorem assign_at (plane : b' < a.planes) (row : p < a.rows) (col : d < a.cols) :
    (a.assign b lo source).at_ b' p d =
      if b' = b ∧ lo ≤ p ∧ p < lo + source.nrows then source.entry (p - lo) d else a.at_ b' p d := by
  have inside := offset_inside plane row col
  obtain ⟨column,line,plane_⟩ := offset_parts (b:=b') row col
  unfold at_
  have same : (a.assign b lo source).offset b' p d = a.offset b' p d := rfl
  rw [same]
  simp only [List.getD_eq_getElem?_getD,assign,List.getElem?_mapIdx,List.getElem?_eq_getElem inside,Option.map_some,
    Option.getD_some,column,line,plane_]

def of (planes rows cols : Nat) (f : Nat → Nat → Nat → F) : Array3 F where
  planes := planes
  rows := rows
  cols := cols
  data := (List.range (planes * rows * cols)).map fun i => f (i / cols / rows) (i / cols % rows) (i % cols)
  full := by rw [List.length_map,List.length_range]

-- `a.index_axis(Axis(0), b)` of a plane that is there.
def plane (a : Array3 F) (b : Nat) : Array2 F := a.slice b a.rows

-- `a.permuted_axes([0, 2, 1])`
def transposed (a : Array3 F) : Array3 F := of a.planes a.cols a.rows fun b p d => a.at_ b d p

def stack (rows cols : Nat) (blocks : List (Array2 F)) : Array3 F :=
  of blocks.length rows cols fun b p d => (blocks[b]?).elim 0 fun block => block.entry p d

section Indexed
variable {f g : Nat → Nat → Nat → F} {n m k : Nat}

omit [Zero F] in
@[simp] theorem of_planes : (of n m k f).planes = n := rfl
omit [Zero F] in
@[simp] theorem of_rows : (of n m k f).rows = m := rfl
omit [Zero F] in
@[simp] theorem of_cols : (of n m k f).cols = k := rfl

theorem of_at (plane : b < n) (row : p < m) (col : d < k) : (of n m k f).at_ b p d = f b p d := by
  have place := offset_inside (a:=of n m k f) plane row col
  obtain ⟨column,line,plane_⟩ := offset_parts (a:=of n m k f) (b:=b) row col
  rw [(of n m k f).full] at place
  unfold at_
  simp only [List.getD_eq_getElem?_getD]
  simp only [of_planes,of_rows,of_cols] at place column line plane_
  have listed : (of n m k f).data[(of n m k f).offset b p d]? = some (f b p d) := by
    show ((List.range (n * m * k)).map _)[_]? = _
    rw [List.getElem?_map,List.getElem?_range place,Option.map_some,column,line,plane_]
  rw [listed,Option.getD_some]

omit [Zero F] in
theorem of_congr (same : ∀ b < n, ∀ p < m, ∀ d < k, f b p d = g b p d) : of n m k f = of n m k g := by
  have entries : (List.range (n * m * k)).map (fun i => f (i / k / m) (i / k % m) (i % k)) =
      (List.range (n * m * k)).map fun i => g (i / k / m) (i / k % m) (i % k) := by
    refine List.map_congr_left fun i inside => ?_
    have below := List.mem_range.mp inside
    have line : i / k < n * m := Nat.div_lt_of_lt_mul (by rw [Nat.mul_comm]; exact below)
    have wide : 0 < k := Nat.pos_of_ne_zero fun none => by rw [none,Nat.mul_zero] at below; cases below
    have tall : 0 < m := Nat.pos_of_ne_zero fun none => by rw [none,Nat.mul_zero] at line; cases line
    exact same _ (Nat.div_lt_of_lt_mul (by rw [Nat.mul_comm]; exact line)) _ (Nat.mod_lt _ tall) _ (Nat.mod_lt _ wide)
  unfold of
  simp only [entries]

theorem of_injective (same : of n m k f = of n m k g) (plane : b < n) (row : p < m) (col : d < k) : f b p d = g b p d := by
  rw [←of_at (f:=f) plane row col,←of_at (f:=g) plane row col,same]

theorem of_self (a : Array3 F) : of a.planes a.rows a.cols a.at_ = a := by
  obtain ⟨planes,rows,cols,data,full⟩ := a
  have entries : (List.range (planes * rows * cols)).map (fun i =>
      at_ ⟨planes,rows,cols,data,full⟩ (i / cols / rows) (i / cols % rows) (i % cols)) = data := by
    refine List.ext_getElem? fun i => ?_
    by_cases inside : i < planes * rows * cols
    · have place : (i / cols / rows * rows + i / cols % rows) * cols + i % cols = i := by
        rw [Nat.mul_comm (i / cols / rows),Nat.div_add_mod,Nat.mul_comm,Nat.div_add_mod]
      rw [List.getElem?_map,List.getElem?_range inside,Option.map_some]
      unfold at_ offset
      dsimp only
      rw [place,List.getD_eq_getElem?_getD,List.getElem?_eq_getElem (full ▸ inside),Option.getD_some]
    · rw [List.getElem?_eq_none (by simpa using Nat.le_of_not_lt inside),List.getElem?_eq_none (full ▸ Nat.le_of_not_lt inside)]
  unfold of
  simp only [entries]

theorem stack_range (rows cols n : Nat) (f : Nat → Array2 F) :
    stack rows cols ((List.range n).map f) = of n rows cols fun b => (f b).entry := by
  unfold stack
  rw [List.length_map,List.length_range]
  refine of_congr fun b plane p _ d _ => ?_
  rw [List.getElem?_map,List.getElem?_range plane]
  rfl

end Indexed

-- The rows a plane shows up to a length.
def shown (a : Array3 F) (b len : Nat) : List (List F) := (a.slice b len).rowList

theorem shown_eq (a : Array3 F) (b len : Nat) :
    a.shown b len = (List.range len).map fun p => (List.range a.cols).map (a.at_ b p) := by
  unfold shown Array2.rowList
  refine List.map_congr_left fun p row => List.map_congr_left fun d col => ?_
  exact Array2.of_entry (List.mem_range.mp row) (List.mem_range.mp col)

theorem shown_assign (plane : b < a.planes) (room : lo + source.nrows ≤ a.rows) (wide : source.ncols = a.cols) :
    (a.assign b lo source).shown b (lo + source.nrows) = a.shown b lo ++ source.rowList := by
  rw [shown_eq,shown_eq,List.range_add,List.map_append,List.map_map]
  congr 1
  · refine List.map_congr_left fun p row => List.map_congr_left fun d col => ?_
    have below := List.mem_range.mp row
    rw [assign_at plane (by omega) (List.mem_range.mp col),if_neg (by omega)]
  · unfold Array2.rowList Array2.row
    refine List.map_congr_left fun p row => ?_
    rw [wide]
    refine List.map_congr_left fun d col => ?_
    have below := List.mem_range.mp row
    show (a.assign b lo source).at_ b (lo + p) d = source.entry p d
    rw [assign_at plane (by omega) (List.mem_range.mp col),if_pos ⟨rfl,by omega,by omega⟩,Nat.add_sub_cancel_left]

theorem shown_elsewhere (other : b' ≠ b) (plane : b' < a.planes) (room : len ≤ a.rows) :
    (a.assign b lo source).shown b' len = a.shown b' len := by
  rw [shown_eq,shown_eq]
  refine List.map_congr_left fun p row => List.map_congr_left fun d col => ?_
  have below := List.mem_range.mp row
  rw [assign_at plane (by omega) (List.mem_range.mp col),if_neg (by simp [other])]

end Array3
end Foundation
