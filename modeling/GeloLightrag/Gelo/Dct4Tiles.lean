import GeloLightrag.Gelo.Dct4
import GeloLightrag.Gelo.Hd3Operator

set_option linter.unusedSectionVars false

namespace Gelo
namespace Dct4
open Foundation Array2 InPlace Walsh
open Hd3 (Signs negative forEach_perm)

section Rows
variable {F : Type} [Field F] {n : Nat}

-- A map on columns taken over the rows of a tile.
def rowwise (n : Nat) (T : Module.End F (Nat → F)) (t : Nat → F) (a : Nat) : F := T (fun k => t (a / n * n + k)) (a % n)

def RowPass (tileD n : Nat) (T : Module.End F (Nat → F)) (t t' : Nat → F) : Prop := Updates (rowwise n T) {a | a < tileD * n} t t'

-- The first n rows of a column through a map of the n values.
def lift (C : Module.End F (Fin n → F)) : Module.End F (Nat → F) where
  toFun v := padded (C fun k => v k)
  map_add' v w := by
    funext i
    show padded (C fun k => v k + w k) i = padded (C fun k => v k) i + padded (C fun k => w k) i
    rw [show (fun k : Fin n => v k + w k) = (fun k : Fin n => v k) + fun k : Fin n => w k from rfl,map_add]
    unfold padded
    split
    · rfl
    · rw [add_zero]
  map_smul' c v := by
    funext i
    show padded (C fun k => c * v k) i = c * padded (C fun k => v k) i
    rw [show (fun k : Fin n => c * v k) = c • fun k : Fin n => v k from rfl,map_smul]
    unfold padded
    split
    · rfl
    · rw [mul_zero]

theorem lift_at (C : Module.End F (Fin n → F)) (v : Nat → F) (low : i < n) : lift C v i = C (fun k => v k) ⟨i,low⟩ := dif_pos low

theorem local_lift (C : Module.End F (Fin n → F)) : Local n (lift C) := by
  intro v w same i low
  rw [lift_at C v low,lift_at C w low]
  exact congrArg (fun u => C u ⟨i,low⟩) (funext fun k => same k k.isLt)

theorem lift_twice {C : Module.End F (Fin n → F)} {s : F} (square : C * C = s • 1) : lift C * lift C = s • Walsh.cut n := by
  ext v i
  show lift C (lift C v) i = s * if i < n then v i else 0
  by_cases low : i < n
  · have inner : (fun k : Fin n => lift C v k) = C fun k => v k := funext fun k => lift_at C v k.isLt
    rw [lift_at C _ low,inner,if_pos low,←Module.End.mul_apply,square]
    rfl
  · rw [if_neg low,mul_zero]
    exact dif_neg low

theorem cut_lift (C : Module.End F (Fin n → F)) : Walsh.cut n * lift C = lift C := by
  ext v i
  show (if i < n then lift C v i else 0) = lift C v i
  by_cases low : i < n
  · rw [if_pos low]
  · rw [if_neg low]
    exact (show lift C v i = 0 from dif_neg low).symm

theorem rowwise_within {T : Module.End F (Nat → F)} (some : 0 < n) (near : Local n T) (j : Nat) :
    Within (rowwise n T) {a | a / n = j} := by
  intro t t' alike a row
  refine near _ _ (fun k small => alike _ ?_) _ (Nat.mod_lt a some)
  show (a / n * n + k) / n = j
  rw [cell_row small]
  exact row

theorem RowPass.cell {T : Module.End F (Nat → F)} (passed : RowPass tileD n T t t') (row : j < tileD) (col : i < n) :
    t' (j * n + i) = T (fun k => t (j * n + k)) i := by
  have inside : j * n + i < tileD * n := by
    calc j * n + i < j * n + n := Nat.add_lt_add_left col _
      _ = (j+1) * n := (Nat.succ_mul j n).symm
      _ ≤ tileD * n := Nat.mul_le_mul_right n row
  have here := passed.1 _ inside
  rw [rowwise,cell_row col,cell_col col] at here
  exact here

theorem RowPass.seq {S T : Module.End F (Nat → F)} (some : 0 < n) (first : RowPass tileD n T t t') (second : RowPass tileD n S t' t'')
    (near : Local n S) : RowPass tileD n (S * T) t t'' := by
  constructor
  · intro a inside
    have row : a / n < tileD := (Nat.div_lt_iff_lt_mul some).mpr inside
    rw [second.1 a inside]
    exact near _ _ (fun k small => first.cell row small) _ (Nat.mod_lt a some)
  · intro a outside
    rw [second.2 a outside,first.2 a outside]

theorem grid_cells (some : 0 < n) : {a | ∃ j < tileD, ∃ i < n, a = j * n + i} = {a | a < tileD * n} := by
  ext a
  constructor
  · rintro ⟨j,row,i,col,rfl⟩
    have below : (j * n + i) / n < tileD := by rw [cell_row col]; exact row
    exact (Nat.div_lt_iff_lt_mul some).mp below
  · intro inside
    exact ⟨a / n,(Nat.div_lt_iff_lt_mul some).mpr inside,a % n,Nat.mod_lt a some,(cell_split a n).symm⟩

theorem grid_apart : ∀ x < tileD, ∀ y < n, ∀ x' < tileD, ∀ y' < n, x * n + y = x' * n + y' → x = x' ∧ y = y' := by
  intro x _ y col x' _ y' col' same
  have rows := congrArg (· / n) same
  have cols := congrArg (· % n) same
  simp only [cell_row col,cell_row col',cell_col col,cell_col col'] at rows cols
  exact ⟨rows,cols⟩

-- A row is read, transformed and put back; the scratch it was worked out in
-- enters no cell.
theorem processRow_updates (planned : Planned F n) (some : 0 < n) (j : Nat) (s : (Nat → F) × (Nat → F)) :
    Updates (rowwise n (lift planned.map)) {a | a / n = j} s.1 (processRow planned s j).1 := by
  have cells : ∀ a, j * n ≤ a ∧ a < j * n + n ↔ a / n = j := Hd3.row_cells some
  have result : (processRow planned s j).1 = store (j * n) n (padded (planned.map (rowOf s.1 j))) s.1 :=
    congrArg (fun row => store (j * n) n (padded row) s.1) (planned.linear _ s.2)
  rw [result]
  constructor
  · intro a row
    have place : a - j * n = a % n := by
      have whole := cell_split a n
      rw [show a / n = j from row] at whole
      omega
    refine (if_pos ((cells a).mpr row)).trans ?_
    rw [place,rowwise,show a / n = j from row]
    rfl
  · exact fun a outside => if_neg fun inside => outside ((cells a).mp inside)

theorem processRows_pass (planned : Planned F n) (some : 0 < n) (tileD : Nat) (s : (Nat → F) × (Nat → F)) :
    RowPass tileD n (lift planned.map) s.1 (processRows planned tileD s).1 := by
  refine (updates_foldl (W:=fun j => {a | a / n = j}) Prod.fst (List.range tileD) s
    (fun j _ s => processRow_updates planned some j s) (fun j _ => rowwise_within some (local_lift _) j) ?_).same ?_
  · exact List.nodup_range.pairwise_of_forall_ne fun j _ j' _ different a row row' => different (row.symm.trans row')
  · exact Set.ext fun a => ⟨fun ⟨j,member,row⟩ => (Nat.div_lt_iff_lt_mul some).mp
      (show a / n < tileD from (show a / n = j from row) ▸ List.mem_range.mp member),
      fun inside => ⟨a / n,List.mem_range.mpr ((Nat.div_lt_iff_lt_mul some).mpr inside),rfl⟩⟩

end Rows

section Cascades
variable {F : Type} [Field F] [LinearOrder F] {n : Nat}

theorem rowwise_flip (negative : Nat → Bool) (low : i < n) (t : Nat → F) (j : Nat) :
    rowwise n (flip negative) t (j * n + i) = if negative i then -t (j * n + i) else t (j * n + i) := by
  show (if negative ((j * n + i) % n) then -t ((j * n + i) / n * n + (j * n + i) % n)
    else t ((j * n + i) / n * n + (j * n + i) % n)) = _
  rw [cell_col low,cell_row low]

theorem rowwise_scaled (f : Nat → F) (low : i < n) (t : Nat → F) (j : Nat) :
    rowwise n (scaled f) t (j * n + i) = t (j * n + i) * f i := by
  show t ((j * n + i) / n * n + (j * n + i) % n) * f ((j * n + i) % n) = _
  rw [cell_col low,cell_row low]

theorem applySignDiagInTile_pass (some : 0 < n) (tileD : Nat) (diag : List F) (t : Nat → F) :
    RowPass tileD n (flip (negative diag)) t (applySignDiagInTile tileD n diag t) := by
  refine (updates_grid (fun j i => j * n + i) tileD n grid_apart ?_ ?_ t).same (grid_cells some)
  · intro j _ i low t
    by_cases below : diag.getD i 1 < 0
    · rw [if_pos below]
      exact updates_update ((rowwise_flip _ low t j).trans (if_pos (decide_eq_true below))).symm
    · rw [if_neg below]
      refine ⟨?_,fun _ _ => rfl⟩
      rintro a rfl
      exact ((rowwise_flip _ low t j).trans (if_neg (by simpa [negative] using below))).symm
  · rintro j _ i low t t' alike a rfl
    rw [rowwise_flip _ low,rowwise_flip _ low,alike _ rfl]

theorem applyScaledDiagInTile_pass (some : 0 < n) (tileD : Nat) (diag : List F) (factor : F) (t : Nat → F) :
    RowPass tileD n (scaled fun i => diag.getD i 1 * factor) t (applyScaledDiagInTile tileD n diag factor t) := by
  refine (updates_grid (fun j i => j * n + i) tileD n grid_apart ?_ ?_ t).same (grid_cells some)
  · intro j _ i low t
    exact updates_update (rowwise_scaled (fun i => diag.getD i 1 * factor) low t j).symm
  · rintro j _ i low t t' alike a rfl
    rw [rowwise_scaled _ low,rowwise_scaled _ low,alike _ rfl]

def cascadeMap (C : Module.End F (Fin n → F)) (d1 d2 d3 : List F) (factor : F) : Module.End F (Nat → F) :=
  (scaled fun i => d3.getD i 1 * factor) * (lift C * (Walsh.flip (negative d2) * (lift C * (Walsh.flip (negative d1) * lift C))))

def inverseMap (C : Module.End F (Fin n → F)) (d1 d2 d3 : List F) (factor : F) : Module.End F (Nat → F) :=
  lift C * (Walsh.flip (negative d1) * (lift C * (Walsh.flip (negative d2) * (lift C * scaled fun i => d3.getD i 1 * factor))))

theorem local_cascadeMap (C : Module.End F (Fin n → F)) (d1 d2 d3 : List F) (factor : F) :
    Local n (cascadeMap C d1 d2 d3 factor) :=
  local_mul (local_scaled _ _) (local_mul (local_lift C) (local_mul (local_flip _ _)
    (local_mul (local_lift C) (local_mul (local_flip _ _) (local_lift C)))))

theorem local_inverseMap (C : Module.End F (Fin n → F)) (d1 d2 d3 : List F) (factor : F) :
    Local n (inverseMap C d1 d2 d3 factor) :=
  local_mul (local_lift C) (local_mul (local_flip _ _) (local_mul (local_lift C) (local_mul (local_flip _ _)
    (local_mul (local_lift C) (local_scaled _ _)))))

theorem cascadeApplyInTile_pass (planned : Planned F n) (some : 0 < n) (d1 d2 d3 : List F) (factor : F) (tileD : Nat)
    (s : (Nat → F) × (Nat → F)) :
    RowPass tileD n (cascadeMap planned.map d1 d2 d3 factor) s.1 (cascadeApplyInTile planned tileD d1 d2 d3 factor s).1 := by
  have first := processRows_pass planned some tileD s
  have second := first.seq some (applySignDiagInTile_pass some tileD d1 _) (local_flip _ _)
  have third := second.seq some (processRows_pass planned some tileD (_,(processRows planned tileD s).2)) (local_lift _)
  have fourth := third.seq some (applySignDiagInTile_pass some tileD d2 _) (local_flip _ _)
  have fifth := fourth.seq some (processRows_pass planned some tileD (_,(processRows planned tileD
    (applySignDiagInTile tileD n d1 (processRows planned tileD s).1,(processRows planned tileD s).2)).2)) (local_lift _)
  exact fifth.seq some (applyScaledDiagInTile_pass some tileD d3 factor _) (local_scaled _ _)

theorem cascadeUnapplyInTile_pass (planned : Planned F n) (some : 0 < n) (d1 d2 d3 : List F) (factor : F) (tileD : Nat)
    (s : (Nat → F) × (Nat → F)) :
    RowPass tileD n (inverseMap planned.map d1 d2 d3 factor) s.1 (cascadeUnapplyInTile planned tileD d1 d2 d3 factor s).1 := by
  have first := applyScaledDiagInTile_pass some tileD d3 factor s.1
  have second := first.seq some (processRows_pass planned some tileD (applyScaledDiagInTile tileD n d3 factor s.1,s.2)) (local_lift _)
  have third := second.seq some (applySignDiagInTile_pass some tileD d2 _) (local_flip _ _)
  have fourth := third.seq some (processRows_pass planned some tileD (_,(processRows planned tileD
    (applyScaledDiagInTile tileD n d3 factor s.1,s.2)).2)) (local_lift _)
  have fifth := fourth.seq some (applySignDiagInTile_pass some tileD d1 _) (local_flip _ _)
  exact fifth.seq some (processRows_pass planned some tileD _) (local_lift _)

end Cascades

section Tiles
variable {F : Type} [Field F] [LinearOrder F] {n d : Nat}

-- The cells of the columns a tile covers.
def TileCells (n d tileStart tileD : Nat) : Set Nat := {a | a < n * d ∧ tileStart ≤ a % d ∧ a % d < tileStart + tileD}

theorem tile_cell {n d tileStart tileD i j : Nat} (inside : tileStart + tileD ≤ d) (low : j < tileD) :
    (i * d + tileStart + j) / d = i ∧ (i * d + tileStart + j) % d = tileStart + j := by
  rw [Nat.add_assoc,cell_row (by omega),cell_col (by omega)]
  exact ⟨rfl,rfl⟩

theorem tile_cells (filled : 0 < d) (inside : tileStart + tileD ≤ d) :
    {a | ∃ i < n, ∃ j < tileD, a = i * d + tileStart + j} = TileCells n d tileStart tileD := by
  ext a
  constructor
  · rintro ⟨i,row,j,low,rfl⟩
    obtain ⟨place,col⟩ := tile_cell (n:=n) (i:=i) inside low
    refine ⟨(Nat.div_lt_iff_lt_mul filled).mp (by rw [place]; exact row),?_⟩
    rw [col]
    omega
  · rintro ⟨bounded,low,high⟩
    have whole := cell_split a d
    exact ⟨a / d,(Nat.div_lt_iff_lt_mul filled).mpr bounded,a % d - tileStart,by omega,by omega⟩

theorem tile_apart (inside : tileStart + tileD ≤ d) : ∀ x < n, ∀ y < tileD, ∀ x' < n, ∀ y' < tileD,
    x * d + tileStart + y = x' * d + tileStart + y' → x = x' ∧ y = y' := by
  intro x _ y low x' _ y' low' same
  obtain ⟨row,col⟩ := tile_cell (n:=n) (i:=x) inside low
  obtain ⟨row',col'⟩ := tile_cell (n:=n) (i:=x') inside low'
  rw [same] at row col
  exact ⟨row.symm.trans row',by omega⟩

theorem copyTileIn_cell (slice : Nat → F) (tileBuf : Nat → F) (row : i < n) (low : j < tileD) :
    copyTileIn slice n d tileStart tileD tileBuf (j * n + i) = slice (i * d + tileStart + j) := by
  have copied : Updates (fun _ a => slice (a % n * d + tileStart + a / n)) {a | ∃ i < n, ∃ j < tileD, a = j * n + i} tileBuf
      (copyTileIn slice n d tileStart tileD tileBuf) := by
    refine updates_grid (fun i j => j * n + i) n tileD ?_ ?_ (fun _ _ _ _ _ _ _ _ _ => rfl) tileBuf
    · intro x col y _ x' col' y' _ same
      have rows := congrArg (· / n) same
      have cols := congrArg (· % n) same
      simp only [cell_row col,cell_row col',cell_col col,cell_col col'] at rows cols
      exact ⟨cols,rows⟩
    · intro i col j _ t
      exact updates_update (by rw [cell_row col,cell_col col])
  refine (copied.1 _ ⟨i,row,j,low,rfl⟩).trans ?_
  show slice ((j * n + i) % n * d + tileStart + (j * n + i) / n) = _
  rw [cell_row row,cell_col row]

theorem copyTileOut_updates (tileBuf slice : Nat → F) (filled : 0 < d) (inside : tileStart + tileD ≤ d) :
    Updates (fun _ a => tileBuf ((a % d - tileStart) * n + a / d)) (TileCells n d tileStart tileD) slice
      (copyTileOut tileBuf tileD n slice d tileStart) := by
  refine (updates_grid (fun i j => i * d + tileStart + j) n tileD (tile_apart inside) ?_ (fun _ _ _ _ _ _ _ _ _ => rfl)
    slice).same (tile_cells filled inside)
  intro i _ j low m
  obtain ⟨row,col⟩ := tile_cell (n:=n) (i:=i) inside low
  exact updates_update (by rw [row,col,Nat.add_sub_cancel_left])

-- Copied in, taken through T, and copied out: T on the tile's columns,
-- whatever the scratch held.
theorem tile_updates {T : Module.End F (Nat → F)} (near : Local n T) (filled : 0 < d) (inside : tileStart + tileD ≤ d)
    {slice stale done : Nat → F} (passed : RowPass tileD n T (copyTileIn slice n d tileStart tileD stale) done) :
    Updates (colwise d T) (TileCells n d tileStart tileD) slice (copyTileOut done tileD n slice d tileStart) := by
  have out := copyTileOut_updates (n:=n) done slice filled inside
  refine ⟨fun a covered => ?_,out.2⟩
  obtain ⟨bounded,low,high⟩ := covered
  have row : a / d < n := (Nat.div_lt_iff_lt_mul filled).mpr bounded
  refine (out.1 a ⟨bounded,low,high⟩).trans ((passed.cell (by omega) row).trans ?_)
  refine near _ _ (fun k small => ?_) _ row
  rw [copyTileIn_cell slice stale small (by omega),show k * d + tileStart + (a % d - tileStart) = k * d + a % d by omega]

theorem processTile_updates {planned : Planned F n} {T : Module.End F (Nat → F)} (near : Local n T)
    (cascade : Nat → (Nat → F) × (Nat → F) → (Nat → F) × (Nat → F)) (passes : ∀ tileD s, RowPass tileD n T s.1 (cascade tileD s).1)
    (filled : 0 < d) (worker : Nat → Nat) (s : (Nat → F) × (Nat → TileScratch F)) (within : tIdx * dct4CascadeTile < d) :
    Updates (colwise d T) (TileCells n d (tIdx * dct4CascadeTile) (min (tIdx * dct4CascadeTile + dct4CascadeTile) d - tIdx * dct4CascadeTile))
      s.1 (processTile planned cascade d worker s tIdx).1 := by
  have inside : tIdx * dct4CascadeTile + (min (tIdx * dct4CascadeTile + dct4CascadeTile) d - tIdx * dct4CascadeTile) ≤ d := by omega
  exact tile_updates near filled inside (passes _ (_,_))

theorem tile_within {T : Module.End F (Nat → F)} (near : Local n T) (filled : 0 < d) (tileStart tileD : Nat) :
    Within (colwise d T) (TileCells n d tileStart tileD) := by
  rintro m m' alike a ⟨bounded,low,high⟩
  have row : a / d < n := (Nat.div_lt_iff_lt_mul filled).mpr bounded
  have col := Nat.mod_lt a filled
  refine near _ _ (fun k small => alike _ ⟨(Nat.div_lt_iff_lt_mul filled).mp ?_,?_⟩) _ row
  · rw [cell_row col]
    exact small
  · rw [cell_col col]
    exact ⟨low,high⟩

-- The tiles cover every column once, so any order on any threads will do.
theorem overTiles_pass {planned : Planned F n} {T : Module.End F (Nat → F)} (near : Local n T)
    (cascade : Nat → (Nat → F) × (Nat → F) → (Nat → F) × (Nat → F)) (passes : ∀ tileD s, RowPass tileD n T s.1 (cascade tileD s).1)
    (tall : 2 ≤ n) (pool : Pool) (s : (Nat → F) × (Nat → TileScratch F)) : Pass n d T s.1 (overTiles pool planned cascade d s).1 := by
  unfold overTiles
  by_cases none : d = 0
  · rw [if_pos (.inr none),none]
    exact pass_empty _ _ _
  · have filled : 0 < d := Nat.pos_of_ne_zero none
    rw [if_neg (by omega)]
    obtain ⟨order,perm,run⟩ := forEach_perm pool.rayon (decide (dct4RayonColThreshold ≤ d))
      (List.range ((d + dct4CascadeTile - 1) / dct4CascadeTile))
      (processTile planned cascade d (if decide (dct4RayonColThreshold ≤ d) then pool.worker else fun _ => pool.current)) s
    dsimp only
    rw [run]
    have listed : ∀ t, t ∈ order ↔ t * dct4CascadeTile < d := by
      intro t
      rw [perm.mem_iff,List.mem_range,dct4CascadeTile]
      omega
    refine (updates_foldl (W:=fun t => TileCells n d (t * dct4CascadeTile)
      (min (t * dct4CascadeTile + dct4CascadeTile) d - t * dct4CascadeTile)) Prod.fst order s ?_ ?_ ?_).same ?_
    · exact fun t member s => processTile_updates near cascade passes filled _ s ((listed t).mp member)
    · exact fun t _ => tile_within near filled _ _
    · refine (perm.nodup_iff.mpr List.nodup_range).pairwise_of_forall_ne fun t _ t' _ different a covered covered' => different ?_
      obtain ⟨_,low,high⟩ := covered
      obtain ⟨_,low',high'⟩ := covered'
      simp only [dct4CascadeTile] at low high low' high'
      omega
    · ext a
      constructor
      · exact fun ⟨_,_,covered⟩ => covered.1
      · intro bounded
        have col := Nat.mod_lt a filled
        refine ⟨a % d / dct4CascadeTile,(listed _).mpr ?_,bounded,?_⟩
        · simp only [dct4CascadeTile]
          omega
        · simp only [dct4CascadeTile]
          omega

end Tiles
end Dct4
end Gelo
