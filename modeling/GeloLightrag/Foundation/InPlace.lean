import GeloLightrag.Foundation.Array2
import Mathlib.Data.Set.Lattice
import Mathlib.Data.List.Nodup

namespace Foundation
namespace InPlace

section Footprints
variable {α β σ ι : Type}

-- f taken over the cells of W; every other cell is as it was.
def Updates (f : (α → β) → α → β) (W : Set α) (m m' : α → β) : Prop :=
  (∀ a ∈ W, m' a = f m a) ∧ ∀ a, a ∉ W → m' a = m a

-- What f gives on W depends on W only.
def Within (f : (α → β) → α → β) (W : Set α) : Prop :=
  ∀ m m' : α → β, (∀ a ∈ W, m a = m' a) → ∀ a ∈ W, f m a = f m' a

theorem updates_none {f : (α → β) → α → β} (m : α → β) : Updates f ∅ m m :=
  ⟨fun _ inside => inside.elim,fun _ _ => rfl⟩

theorem Updates.same {f : (α → β) → α → β} (updated : Updates f V m m') (equal : V = W) : Updates f W m m' := equal ▸ updated

theorem Updates.seq {f : (α → β) → α → β} (first : Updates f V m m') (second : Updates f W m' m'') (own : Within f W)
    (apart : ∀ a ∈ V, a ∉ W) : Updates f (V ∪ W) m m'' := by
  constructor
  · intro a inside
    rcases inside with early | late
    · rw [second.2 a (apart a early),first.1 a early]
    · rw [second.1 a late]
      exact own m' m (fun b within => first.2 b fun early => apart b early within) a late
  · intro a outside
    rw [second.2 a fun late => outside (.inr late),first.2 a fun early => outside (.inl early)]

-- Steps over disjoint cells are one step over all of them, whatever their order.
theorem updates_foldl {f : (α → β) → α → β} {W : ι → Set α} {step : σ → ι → σ} (read : σ → α → β) :
    ∀ (items : List ι) (s : σ), (∀ x ∈ items, ∀ s, Updates f (W x) (read s) (read (step s x))) →
      (∀ x ∈ items, Within f (W x)) → items.Pairwise (fun x y => ∀ a ∈ W x, a ∉ W y) →
      Updates f {a | ∃ x ∈ items, a ∈ W x} (read s) (read (items.foldl step s))
  | [],s,_,_,_ => (updates_none (read s)).same (Set.ext fun a => ⟨fun inside => inside.elim,fun ⟨_,member,_⟩ => by cases member⟩)
  | x :: rest,s,each,own,apart => by
    obtain ⟨here,later⟩ := List.pairwise_cons.mp apart
    have tail := updates_foldl read rest (step s x) (fun y member => each y (List.mem_cons_of_mem x member))
      (fun y member => own y (List.mem_cons_of_mem x member)) later
    have head := each x List.mem_cons_self s
    have whole : Within f {a | ∃ y ∈ rest, a ∈ W y} := by
      intro m m' alike a ⟨y,member,inside⟩
      exact own y (List.mem_cons_of_mem x member) m m' (fun b within => alike b ⟨y,member,within⟩) a inside
    refine (head.seq tail whole fun a inside ⟨y,member,late⟩ => here y member a inside late).same ?_
    ext a
    constructor
    · rintro (inside | ⟨y,member,inside⟩)
      · exact ⟨x,List.mem_cons_self,inside⟩
      · exact ⟨y,List.mem_cons_of_mem x member,inside⟩
    · rintro ⟨y,member,inside⟩
      rcases List.mem_cons.mp member with rfl | member
      · exact .inl inside
      · exact .inr ⟨y,member,inside⟩

theorem updates_update [DecidableEq α] {f : (α → β) → α → β} {m : α → β} (value : v = f m p) :
    Updates f {p} m (Function.update m p v) := by
  constructor
  · rintro a rfl
    rw [Function.update_self,value]
  · intro a other
    exact Function.update_of_ne other v m

-- Two loops, one inside the other, that write one cell at a time.
theorem updates_grid {f : (α → β) → α → β} {body : (α → β) → Nat → Nat → α → β} (cell : Nat → Nat → α) (p q : Nat)
    (apart : ∀ x < p, ∀ y < q, ∀ x' < p, ∀ y' < q, cell x y = cell x' y' → x = x' ∧ y = y')
    (each : ∀ x < p, ∀ y < q, ∀ m, Updates f {cell x y} m (body m x y)) (own : ∀ x < p, ∀ y < q, Within f {cell x y}) (m : α → β) :
    Updates f {a | ∃ x < p, ∃ y < q, a = cell x y} m
      ((List.range p).foldl (fun m x => (List.range q).foldl (fun m y => body m x y) m) m) := by
  have row : ∀ x < p, ∀ m, Updates f {a | ∃ y < q, a = cell x y} m ((List.range q).foldl (fun m y => body m x y) m) := by
    intro x low m
    refine (updates_foldl (W:=fun y => {cell x y}) id (List.range q) m (fun y member m => each x low y (List.mem_range.mp member) m)
      (fun y member => own x low y (List.mem_range.mp member)) ?_).same ?_
    · refine List.nodup_range.pairwise_of_forall_ne ?_
      rintro y member y' member' different a rfl same
      exact different (apart x low y (List.mem_range.mp member) x low y' (List.mem_range.mp member') same).2
    · exact Set.ext fun a => ⟨fun ⟨y,member,same⟩ => ⟨y,List.mem_range.mp member,same⟩,fun ⟨y,small,same⟩ =>
        ⟨y,List.mem_range.mpr small,same⟩⟩
  have rowOwn : ∀ x < p, Within f {a | ∃ y < q, a = cell x y} := by
    rintro x low m m' alike a ⟨y,small,rfl⟩
    exact own x low y small m m' (fun b same => alike b ⟨y,small,same⟩) _ rfl
  refine (updates_foldl (W:=fun x => {a | ∃ y < q, a = cell x y}) id (List.range p) m
    (fun x member m => row x (List.mem_range.mp member) m) (fun x member => rowOwn x (List.mem_range.mp member)) ?_).same ?_
  · refine List.nodup_range.pairwise_of_forall_ne ?_
    rintro x member x' member' different a ⟨y,small,rfl⟩ ⟨y',small',same⟩
    exact different (apart x (List.mem_range.mp member) y small x' (List.mem_range.mp member') y' small' same).1
  · exact Set.ext fun a => ⟨fun ⟨x,member,inside⟩ => ⟨x,List.mem_range.mp member,inside⟩,fun ⟨x,low,inside⟩ =>
      ⟨x,List.mem_range.mpr low,inside⟩⟩

end Footprints

section Memory
variable {F : Type}

-- A register of width values stored at p.
def store (p width : Nat) (register : Nat → F) (m : Nat → F) : Nat → F :=
  fun a => if p ≤ a ∧ a < p + width then register (a - p) else m a

-- The cells from p on taken through g.
def rewrite (p width : Nat) (g : F → F) (m : Nat → F) : Nat → F :=
  fun a => if p ≤ a ∧ a < p + width then g (m a) else m a

def storeAll (p : Nat → Nat) (width : Nat) (register : Nat → Nat → F) (order : List Nat) (m : Nat → F) : Nat → F :=
  order.foldl (fun m lane => store (p lane) width (register lane) m) m

theorem storeAll_miss {p : Nat → Nat} {register : Nat → Nat → F} : ∀ (order : List Nat) (m : Nat → F),
    (∀ lane ∈ order, ¬(p lane ≤ a ∧ a < p lane + width)) → storeAll p width register order m a = m a
  | [],_,_ => rfl
  | lane :: rest,m,miss => by
    have later : storeAll p width register rest (store (p lane) width (register lane) m) a =
        store (p lane) width (register lane) m a :=
      storeAll_miss rest _ fun other member => miss other (List.mem_cons_of_mem lane member)
    show storeAll p width register rest (store (p lane) width (register lane) m) a = m a
    rw [later]
    exact if_neg (miss lane List.mem_cons_self)

-- Where only one lane's register covers a cell, the cell holds that lane's value.
theorem storeAll_hit {p : Nat → Nat} {register : Nat → Nat → F} (covers : p lane ≤ a ∧ a < p lane + width) :
    ∀ (order : List Nat) (m : Nat → F), lane ∈ order →
      (∀ other ∈ order, p other ≤ a ∧ a < p other + width → other = lane) →
      storeAll p width register order m a = register lane (a - p lane)
  | [],_,member,_ => by cases member
  | first :: rest,m,member,only => by
    show storeAll p width register rest (store (p first) width (register first) m) a = _
    by_cases again : lane ∈ rest
    · exact storeAll_hit covers rest _ again fun other later => only other (List.mem_cons_of_mem first later)
    · have here : first = lane := ((List.mem_cons.mp member).resolve_right again).symm
      rw [storeAll_miss rest _ fun other later inside => again (only other (List.mem_cons_of_mem first later) inside ▸ later),
        here]
      exact if_pos covers

end Memory

-- Rows of d cells one after another.
section Rows
variable {F : Type}

theorem cell_row {i j d : Nat} (low : j < d) : (i * d + j) / d = i := by
  rw [Nat.mul_comm,Nat.mul_add_div (Nat.zero_lt_of_lt low),Nat.div_eq_of_lt low,Nat.add_zero]

theorem cell_col {i j d : Nat} (low : j < d) : (i * d + j) % d = j := by
  rw [Nat.mul_comm,Nat.mul_add_mod,Nat.mod_eq_of_lt low]

theorem cell_split (a d : Nat) : a / d * d + a % d = a := by rw [Nat.mul_comm]; exact Nat.div_add_mod a d

-- A run of cells inside row r.
theorem run_in_row {a d k r width : Nat} (fits : k + width ≤ d) : r * d + k ≤ a ∧ a < r * d + k + width ↔ a / d = r ∧ k ≤ a % d ∧ a % d < k + width := by
  constructor
  · rintro ⟨low,high⟩
    obtain ⟨t,rfl⟩ := Nat.exists_eq_add_of_le low
    have small : k + t < d := by omega
    rw [Nat.add_assoc,cell_row small,cell_col small]
    omega
  · rintro ⟨rfl,low,high⟩
    have whole := cell_split a d
    omega

variable [CommRing F]

-- A map on columns, taken over every column of the cells.
def colwise (d : Nat) (T : Module.End F (Nat → F)) (m : Nat → F) (a : Nat) : F := T (fun i => m (i * d + a % d)) (a / d)

-- What an operation in place does to the n rows of d cells it is given.
def Pass (n d : Nat) (T : Module.End F (Nat → F)) (m m' : Nat → F) : Prop := Updates (colwise d T) {a | a < n * d} m m'

theorem pass_one (n d : Nat) (m : Nat → F) : Pass n d 1 m m :=
  ⟨fun a _ => (congrArg m (cell_split a d)).symm,fun _ _ => rfl⟩

theorem pass_empty (n : Nat) (T : Module.End F (Nat → F)) (m : Nat → F) : Pass n 0 T m m :=
  ⟨fun _ inside => absurd inside (Nat.not_lt_zero _),fun _ _ => rfl⟩

theorem Pass.cell {T : Module.End F (Nat → F)} (passed : Pass n d T m m') (row : i < n) (col : j < d) :
    m' (i * d + j) = T (fun k => m (k * d + j)) i := by
  have inside : i * d + j < n * d := by
    calc i * d + j < i * d + d := Nat.add_lt_add_left col _
      _ = (i+1) * d := (Nat.succ_mul i d).symm
      _ ≤ n * d := Nat.mul_le_mul_right d row
  have here := passed.1 _ inside
  rw [colwise,cell_row col,cell_col col] at here
  exact here

theorem Pass.frame {T : Module.End F (Nat → F)} (passed : Pass n d T m m') (beyond : n * d ≤ a) : m' a = m a :=
  passed.2 a (Nat.not_lt.mpr beyond)

theorem Pass.seq {S T : Module.End F (Nat → F)} (first : Pass n d T m m') (second : Pass n d S m' m'') (near : Array2.Local n S) :
    Pass n d (S * T) m m'' := by
  constructor
  · intro a inside
    have filled : 0 < d := by
      rcases Nat.eq_zero_or_pos d with rfl | some
      · exact absurd inside (Nat.not_lt_zero _)
      · exact some
    have row : a / d < n := Nat.div_lt_of_lt_mul (by rw [Nat.mul_comm]; exact inside)
    rw [second.1 a inside]
    exact near _ _ (fun k small => first.cell small (Nat.mod_lt a filled)) _ row
  · intro a outside
    rw [second.2 a outside,first.2 a outside]

-- The matrix in row-major order, and what its cells hold after a pass.
def cells (x : Array2 F) : Nat → F := fun a => x.entry (a / x.ncols) (a % x.ncols)

def ofCells (n d : Nat) (m : Nat → F) : Array2 F := Array2.of n d fun i j => m (i * d + j)

theorem cells_at (x : Array2 F) (col : j < x.ncols) : cells x (i * x.ncols + j) = x.entry i j := by
  unfold cells
  rw [cell_row col,cell_col col]

theorem ofCells_cells (x : Array2 F) : ofCells x.nrows x.ncols (cells x) = x :=
  Array2.eq_of rfl rfl fun _ row _ col => (Array2.of_entry row col).trans (cells_at x col)

theorem Pass.array {T : Module.End F (Nat → F)} (passed : Pass n d T m m') (near : Array2.Local n T) :
    ofCells n d m' = Array2.onColumns T (ofCells n d m) := by
  refine Array2.eq_of rfl rfl ?_
  intro i row j col
  have row' : i < n := row
  have col' : j < d := col
  rw [ofCells,Array2.of_entry row' col',passed.cell row' col',Array2.onColumns_entry (show i < (ofCells n d m).nrows from row') col']
  have column : ∀ k < n, m (k * d + j) = (ofCells n d m).entry k j := fun k small =>
    (@Array2.of_entry _ _ k n j d (fun i j => m (i * d + j)) small col').symm
  exact near _ _ column i row'

end Rows
end InPlace
end Foundation
