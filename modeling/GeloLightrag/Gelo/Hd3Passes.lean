import GeloLightrag.Gelo.Hd3

namespace Gelo
namespace Hd3
open Foundation InPlace Walsh

section Butterflies
variable {F : Type} [CommRing F]

-- The cells of the rows R, columns lo to below hi.
def Block (d radix : Nat) (R : Nat → Nat) (lo hi : Nat) : Set Nat :=
  {a | (∃ lane < radix, a / d = R lane) ∧ lo ≤ a % d ∧ a % d < hi}

-- On the rows R the map T is op over their values.
structure Acts (T : Module.End F (Nat → F)) (op : (Nat → F) → Nat → F) (radix : Nat) (R : Nat → Nat) : Prop where
  apart : ∀ i < radix, ∀ j < radix, R i = R j → i = j
  value : ∀ v, ∀ lane < radix, T v (R lane) = op (fun i => v (R i)) lane
  reads : ∀ x y : Nat → F, (∀ i < radix, x i = y i) → ∀ lane < radix, op x lane = op y lane

theorem Acts.within {T : Module.End F (Nat → F)} (acts : Acts T op radix R) (lo : Nat) (inside : hi ≤ d) :
    Within (colwise d T) (Block d radix R lo hi) := by
  rintro m m' alike a ⟨⟨lane,small,row⟩,low,high⟩
  have col : a % d < d := Nat.lt_of_lt_of_le high inside
  unfold colwise
  rw [row,acts.value _ lane small,acts.value _ lane small]
  refine acts.reads _ _ (fun i near => alike _ ⟨⟨i,near,cell_row col⟩,?_⟩) lane small
  rw [cell_col col]
  exact ⟨low,high⟩

theorem lanes_updates {T : Module.End F (Nat → F)} (acts : Acts T op radix R) (stored : order.Perm (List.range radix))
    (fits : k + width ≤ d) (m : Nat → F) :
    Updates (colwise d T) (Block d radix R k (k + width)) m (lanes op order (fun i => R i * d) k width m) := by
  have listed : ∀ lane, lane ∈ order ↔ lane < radix := fun lane => stored.mem_iff.trans List.mem_range
  constructor
  · rintro a ⟨⟨lane,small,row⟩,low,high⟩
    have covers := (run_in_row fits).mpr ⟨row,low,high⟩
    have only : ∀ other ∈ order, R other * d + k ≤ a ∧ a < R other * d + k + width → other = lane := by
      intro other member inside
      exact acts.apart other ((listed other).mp member) lane small (((run_in_row fits).mp inside).1.symm.trans row)
    have whole := cell_split a d
    have place : ∀ i, R i * d + k + (a - (R lane * d + k)) = R i * d + a % d := by
      intro i
      rw [row] at whole
      omega
    unfold lanes colwise
    rw [storeAll_hit (p:=fun lane => R lane * d + k) covers order m ((listed lane).mpr small) only,row,acts.value _ lane small]
    exact congrArg (fun x => op x lane) (funext fun i => congrArg m (place i))
  · intro a outside
    refine storeAll_miss (p:=fun lane => R lane * d + k) order m fun lane member inside => outside ?_
    obtain ⟨row,low,high⟩ := (run_in_row fits).mp inside
    exact ⟨⟨lane,(listed lane).mp member,row⟩,low,high⟩

-- The loop stops short of one more vector.
theorem sweep_updates {T : Module.End F (Nat → F)} (acts : Acts T op radix R) (stored : order.Perm (List.range radix))
    (wide : 0 < width) : ∀ fuel k m, k ≤ d → d - k ≤ fuel → ∃ reached m',
      sweep op order (fun i => R i * d) width d fuel k m = (reached,m') ∧ k ≤ reached ∧ reached ≤ d ∧ d < reached + width ∧
        Updates (colwise d T) (Block d radix R k reached) m m' := by
  intro fuel
  have stop : ∀ k (m : Nat → F), k ≤ d → d < k + width → k ≤ k ∧ k ≤ d ∧ d < k + width ∧
      Updates (colwise d T) (Block d radix R k k) m m := fun k m inside done =>
    ⟨Nat.le_refl k,inside,done,(updates_none m).same
      (Set.ext fun a => ⟨fun none => none.elim,fun ⟨_,low,high⟩ => absurd high (Nat.not_lt.mpr low)⟩)⟩
  induction fuel with
  | zero =>
    intro k m inside enough
    exact ⟨k,m,rfl,stop k m inside (by omega)⟩
  | succ fuel ih =>
    intro k m inside enough
    by_cases more : k + width ≤ d
    · obtain ⟨reached,m',run,low,high,done,rest⟩ := ih (k + width) (lanes op order (fun i => R i * d) k width m) more (by omega)
      refine ⟨reached,m',(if_pos more).trans run,by omega,high,done,?_⟩
      refine ((lanes_updates acts stored more m).seq rest (acts.within _ high)
        fun a early late => absurd early.2.2 (Nat.not_lt.mpr late.2.1)).same ?_
      ext a
      constructor
      · rintro (⟨row,low',high'⟩ | ⟨row,low',high'⟩)
        · exact ⟨row,low',by omega⟩
        · exact ⟨row,by omega,high'⟩
      · rintro ⟨row,low',high'⟩
        rcases Nat.lt_or_ge (a % d) (k + width) with early | late
        · exact .inl ⟨row,low',early⟩
        · exact .inr ⟨row,late,high'⟩
    · exact ⟨k,m,if_neg more,stop k m inside (by omega)⟩

-- What a butterfly over whole rows does, whichever registers it uses.
def Sweeps (op : (Nat → F) → Nat → F) (radix : Nat) (butterfly : (Nat → Nat) → Nat → (Nat → F) → Nat → F) : Prop :=
  ∀ {T : Module.End F (Nat → F)} {R : Nat → Nat} {d : Nat} (m : Nat → F), 0 < d → Acts T op radix R →
    Updates (colwise d T) {a | ∃ lane < radix, a / d = R lane} m (butterfly (fun i => R i * d) d m)

theorem block_whole (filled : 0 < d) (R : Nat → Nat) : Block d radix R 0 d = {a | ∃ lane < radix, a / d = R lane} :=
  Set.ext fun a => ⟨fun inside => inside.1,fun row => ⟨row,Nat.zero_le _,Nat.mod_lt a filled⟩⟩

theorem scalar_sweeps (stored : order.Perm (List.range radix)) :
    Sweeps (F:=F) op radix fun rows d m => (sweep op order rows 1 d d 0 m).2 := by
  intro T R d m filled acts
  obtain ⟨reached,m',run,_,high,done,updated⟩ := sweep_updates (d:=d) acts stored Nat.one_pos d 0 m (Nat.zero_le d) (by omega)
  have all : reached = d := by omega
  show Updates _ _ m (sweep op order (fun i => R i * d) 1 d d 0 m).2
  rw [run]
  exact updated.same (by rw [all]; exact block_whole filled R)

theorem vectored_sweeps (stored : order.Perm (List.range radix)) (tail : tailOrder.Perm (List.range radix)) (wide : 0 < width) :
    Sweeps (F:=F) op radix (vectored op order tailOrder width) := by
  intro T R d m filled acts
  obtain ⟨k,m',run,_,inside,_,first⟩ := sweep_updates (d:=d) acts stored wide d 0 m (Nat.zero_le d) (by omega)
  obtain ⟨reached,m'',rest,low,high,done,second⟩ := sweep_updates (d:=d) acts tail Nat.one_pos d k m' inside (by omega)
  have all : reached = d := by omega
  subst all
  have result : vectored op order tailOrder width (fun i => R i * reached) reached m = m'' := by
    unfold vectored
    rw [run]
    exact congrArg Prod.snd rest
  rw [result]
  refine (first.seq second (acts.within _ (Nat.le_refl _)) fun a early late => absurd early.2.2 (Nat.not_lt.mpr late.2.1)).same ?_
  rw [←block_whole filled R]
  ext a
  constructor
  · rintro (⟨row,low',high'⟩ | ⟨row,low',high'⟩)
    · exact ⟨row,low',by omega⟩
    · exact ⟨row,Nat.zero_le _,high'⟩
  · rintro ⟨row,low',high'⟩
    rcases Nat.lt_or_ge (a % reached) k with early | late
    · exact .inl ⟨row,low',early⟩
    · exact .inr ⟨row,late,high'⟩

theorem butterflyOct_sweeps (useAvx512 useAvx2 : Bool) : Sweeps (F:=F) octLevels 8 (butterflyOct useAvx512 useAvx2) := by
  intro T R d m filled acts
  unfold butterflyOct
  split
  · exact vectored_sweeps (by decide) (by decide) (by decide) m filled acts
  · split
    · exact vectored_sweeps (by decide) (by decide) (by decide) m filled acts
    · exact scalar_sweeps (show octScalarOrder.Perm (List.range 8) by decide) m filled acts

theorem butterflyPair_sweeps (useAvx512 useAvx2 : Bool) : Sweeps (F:=F) pairLevel 2 (butterflyPair useAvx512 useAvx2) := by
  intro T R d m filled acts
  unfold butterflyPair
  split
  · exact vectored_sweeps (by decide) (by decide) (by decide) m filled acts
  · split
    · exact vectored_sweeps (by decide) (by decide) (by decide) m filled acts
    · exact scalar_sweeps (show pairOrder.Perm (List.range 2) by decide) m filled acts

-- The rows of a group in chunk c.
theorem lane_place {c h j lane radix : Nat} (low : j < h) (small : lane < radix) :
    (c * (radix * h) + (j + lane * h)) / (radix * h) = c ∧ (c * (radix * h) + (j + lane * h)) / h % radix = lane ∧
      (c * (radix * h) + (j + lane * h)) % h = j := by
  have flat : c * (radix * h) + (j + lane * h) = (c * radix + lane) * h + j := by ring
  rw [flat,Nat.mul_comm radix h,←Nat.div_div_eq_div_mul,cell_row low,cell_col low,cell_row small,cell_col small]
  exact ⟨rfl,rfl,rfl⟩

theorem lane_row (r radix h : Nat) : r = r / (radix * h) * (radix * h) + (r % h + r / h % radix * h) := by
  have outer := cell_split (r / h) radix
  calc r = r / h * h + r % h := (cell_split r h).symm
    _ = (r / h / radix * radix + r / h % radix) * h + r % h := by rw [outer]
    _ = r / (radix * h) * (radix * h) + (r % h + r / h % radix * h) := by
        rw [Nat.div_div_eq_div_mul,Nat.mul_comm h radix]; ring

theorem group_rows {c h j radix : Nat} (low : j < h) (some : 0 < radix) (r : Nat) :
    (∃ lane < radix, r = c * (radix * h) + (j + lane * h)) ↔ r / (radix * h) = c ∧ r % h = j := by
  constructor
  · rintro ⟨lane,small,rfl⟩
    obtain ⟨chunk,_,place⟩ := lane_place (c:=c) low small
    exact ⟨chunk,place⟩
  · rintro ⟨rfl,rfl⟩
    exact ⟨r / h % radix,Nat.mod_lt _ some,lane_row r radix h⟩

-- A stage: op over the rows at distance h in each chunk of radix * h rows.
structure Staged (T : Module.End F (Nat → F)) (op : (Nat → F) → Nat → F) (radix h : Nat) : Prop where
  value : ∀ v i, T v i = op (fun lane => v (i / (radix * h) * (radix * h) + (i % h + lane * h))) (i / h % radix)
  reads : ∀ x y : Nat → F, (∀ i < radix, x i = y i) → ∀ lane < radix, op x lane = op y lane
  spread : 0 < radix ∧ 0 < h

theorem Staged.acts {T : Module.End F (Nat → F)} (staged : Staged T op radix h) (low : j < h) (c : Nat) :
    Acts T op radix fun lane => c * (radix * h) + (j + lane * h) where
  apart i near k near' same := by
    have first := (lane_place (c:=c) low near).2.1
    rw [same,(lane_place (c:=c) low near').2.1] at first
    exact first.symm
  value v lane small := by
    obtain ⟨chunk,turn,place⟩ := lane_place (c:=c) low small
    rw [staged.value,chunk,turn,place]
  reads := staged.reads

-- Cells chosen by the chunk of their row and its place among the groups.
theorem Staged.within {T : Module.End F (Nat → F)} (staged : Staged T op radix h) (P : Nat → Nat → Prop) (d : Nat) :
    Within (colwise d T) {a | 0 < d ∧ P (a / d / (radix * h)) (a / d % h)} := by
  rintro m m' alike a ⟨filled,chosen⟩
  have col : a % d < d := Nat.mod_lt a filled
  unfold colwise
  rw [staged.value,staged.value]
  refine staged.reads _ _ (fun i near => alike _ ⟨filled,?_⟩) _ (Nat.mod_lt _ staged.spread.1)
  obtain ⟨chunk,_,place⟩ := lane_place (c:=a / d / (radix * h)) (Nat.mod_lt (a / d) staged.spread.2) near
  rw [cell_row col,chunk,place]
  exact chosen

-- The break is never taken inside a full chunk.
theorem groups_updates {T : Module.End F (Nat → F)} (staged : Staged T op radix h) (sweeps : Sweeps op radix butterfly)
    (filled : 0 < d) (c : Nat) : ∀ left j m, left + j = h →
      Updates (colwise d T) {a | 0 < d ∧ (a / d / (radix * h) = c ∧ j ≤ a / d % h)} m
        (groups radix butterfly ⟨c * (radix * h * d),radix * h * d⟩ h d left j m)
  | 0,j,m,all => (updates_none m).same <| Set.ext fun a => ⟨fun none => none.elim,fun ⟨_,_,late⟩ =>
      absurd (Nat.mod_lt (a / d) staged.spread.2) (by omega)⟩
  | left+1,j,m,all => by
    have low : j < h := by omega
    have room : (j + (radix - 1) * h) * d + d ≤ radix * h * d := by
      obtain ⟨more,rfl⟩ := Nat.exists_eq_succ_of_ne_zero staged.spread.1.ne'
      calc (j + more * h) * d + d = (j + 1 + more * h) * d := by ring
        _ ≤ (h + more * h) * d := Nat.mul_le_mul_right d (by omega)
        _ = (more + 1) * h * d := by ring
    have pointers : (fun i => c * (radix * h * d) + (j + i * h) * d) = fun i => (c * (radix * h) + (j + i * h)) * d :=
      funext fun i => by ring
    unfold groups
    rw [if_neg (Nat.not_lt.mpr room),pointers]
    have here := sweeps (T:=T) m filled (staged.acts low c)
    have rest := groups_updates staged sweeps filled c left (j+1)
      (butterfly (fun i => (c * (radix * h) + (j + i * h)) * d) d m) (by omega)
    refine (here.seq rest (staged.within (fun chunk place => chunk = c ∧ j + 1 ≤ place) d) ?_).same ?_
    · intro a early late
      obtain ⟨_,place⟩ := (group_rows low staged.spread.1 (a / d)).mp early
      exact absurd late.2.2 (by omega)
    · ext a
      constructor
      · rintro (early | ⟨_,chunk,late⟩)
        · obtain ⟨chunk,place⟩ := (group_rows low staged.spread.1 (a / d)).mp early
          exact ⟨filled,chunk,Nat.le_of_eq place.symm⟩
        · exact ⟨filled,chunk,Nat.le_of_succ_le late⟩
      · rintro ⟨_,chunk,late⟩
        rcases Nat.eq_or_lt_of_le late with same | later
        · exact .inl ((group_rows low staged.spread.1 (a / d)).mpr ⟨chunk,same.symm⟩)
        · exact .inr ⟨filled,chunk,later⟩

theorem chunksMut_full (count : Nat) (some : 0 < size) :
    chunksMut (count * size) size = (List.range count).map fun c => ⟨c * size,size⟩ := by
  have number : (count * size + size - 1) / size = count := by
    rw [Nat.add_sub_assoc some,cell_row (Nat.sub_lt some Nat.one_pos)]
  unfold chunksMut
  rw [number]
  refine List.map_congr_left fun c member => ?_
  have inside : c + 1 ≤ count := List.mem_range.mp member
  have left : size ≤ count * size - c * size := by
    have grown := Nat.mul_le_mul_right size inside
    rw [Nat.succ_mul] at grown
    omega
  rw [Nat.min_eq_left left]

end Butterflies

theorem forEach_perm {σ α : Type} (rayon : Rayon) (useRayon : Bool) (items : List α) (body : σ → α → σ) (s : σ) :
    ∃ order : List α, order.Perm items ∧ forEach rayon useRayon items body s = order.foldl body s := by
  cases useRayon with
  | true => exact ⟨rayon.order items,rayon.perm items,rfl⟩
  | false => exact ⟨items,List.Perm.refl items,rfl⟩

section Stages
variable {F : Type} [CommRing F]

-- Every cell lies in one chunk, so the chunks may be taken in any order.
theorem stage_pass {T : Module.End F (Nat → F)} (staged : Staged T op radix h) (sweeps : Sweeps op radix butterfly)
    (filled : 0 < d) (rayon : Rayon) (useRayon : Bool) (count : Nat) (m : Nat → F) :
    Pass (count * (radix * h)) d T m (forEach rayon useRayon (chunksMut (count * (radix * h) * d) (radix * h * d))
      (fun m chunk => groups radix butterfly chunk h d h 0 m) m) := by
  have size : 0 < radix * h * d := Nat.mul_pos (Nat.mul_pos staged.spread.1 staged.spread.2) filled
  have tall : 0 < radix * h := Nat.mul_pos staged.spread.1 staged.spread.2
  rw [Nat.mul_assoc count,chunksMut_full count size]
  obtain ⟨order,perm,run⟩ := forEach_perm rayon useRayon ((List.range count).map fun c => Chunk.mk (c * (radix * h * d)) (radix * h * d))
    (fun m chunk => groups radix butterfly chunk h d h 0 m) m
  rw [run]
  have listed : ∀ chunk ∈ order, ∃ c < count, chunk = ⟨c * (radix * h * d),radix * h * d⟩ := by
    intro chunk member
    obtain ⟨c,inside,rfl⟩ := List.mem_map.mp (perm.mem_iff.mp member)
    exact ⟨c,List.mem_range.mp inside,rfl⟩
  have distinct : order.Nodup := by
    refine perm.nodup_iff.mpr (List.nodup_range.map fun c c' same => ?_)
    exact Nat.eq_of_mul_eq_mul_right size (congrArg Chunk.start same)
  have start : ∀ c, c * (radix * h * d) / (radix * h * d) = c := fun c => Nat.mul_div_cancel c size
  refine (updates_foldl (W:=fun chunk : Chunk => {a | 0 < d ∧ (a / d / (radix * h) = chunk.start / (radix * h * d) ∧ 0 ≤ a / d % h)})
    id order m ?_ ?_ ?_).same ?_
  · intro chunk member s
    obtain ⟨c,_,rfl⟩ := listed chunk member
    simp only [start]
    exact groups_updates staged sweeps filled c h 0 s rfl
  · intro chunk _
    exact staged.within (fun c place => c = chunk.start / (radix * h * d) ∧ 0 ≤ place) d
  · refine distinct.pairwise_of_forall_ne fun chunk member other member' different a inside inside' => different ?_
    obtain ⟨c,_,rfl⟩ := listed chunk member
    obtain ⟨c',_,rfl⟩ := listed other member'
    have same := inside.2.1.symm.trans inside'.2.1
    simp only [start] at same
    rw [same]
  · ext a
    constructor
    · rintro ⟨chunk,member,_,here,_⟩
      obtain ⟨c,low,rfl⟩ := listed chunk member
      simp only [start] at here
      have row : a / d < count * (radix * h) := by
        have small : a / d / (radix * h) < count := here ▸ low
        exact (Nat.div_lt_iff_lt_mul tall).mp small
      exact (Nat.div_lt_iff_lt_mul filled).mp row
    · intro inside
      have row : a / d < count * (radix * h) := (Nat.div_lt_iff_lt_mul filled).mpr inside
      have low : a / d / (radix * h) < count := (Nat.div_lt_iff_lt_mul tall).mpr row
      refine ⟨⟨a / d / (radix * h) * (radix * h * d),radix * h * d⟩,perm.mem_iff.mpr (List.mem_map.mpr
        ⟨a / d / (radix * h),List.mem_range.mpr low,rfl⟩),filled,?_,Nat.zero_le _⟩
      simp only [start]

theorem octLevels_butterfly : octLevels (F:=F) = Walsh.butterflyOct := by
  funext x lane
  match lane with
  | 0 | 1 | 2 | 3 | 4 | 5 | 6 => rfl
  | _+7 => rfl

theorem radix8_staged (some : 0 < h) : Staged (F:=F) (radix8 h) octLevels 8 h where
  value v i := by
    rw [octLevels_butterfly,radix8_apply]
    exact congrArg (fun x => Walsh.butterflyOct x (i / h % 8)) (funext fun lane => congrArg v (by ring))
  reads x y same lane small := by
    rw [octLevels_butterfly]
    interval_cases lane <;> simp only [Walsh.butterflyOct,same 0 (by decide),same 1 (by decide),same 2 (by decide),
      same 3 (by decide),same 4 (by decide),same 5 (by decide),same 6 (by decide),same 7 (by decide)]
  spread := ⟨by decide,some⟩

theorem radix2_staged (some : 0 < h) : Staged (F:=F) (radix2 h) pairLevel 2 h where
  value v i := by
    have row := lane_row i 2 h
    rw [radix2_apply]
    rcases Nat.mod_two_eq_zero_or_one (i / h) with even | odd
    · rw [even,Nat.zero_mul,Nat.add_zero] at row
      rw [even,if_pos rfl]
      show _ = v (i / (2 * h) * (2 * h) + (i % h + 0 * h)) + v (i / (2 * h) * (2 * h) + (i % h + 1 * h))
      rw [Nat.zero_mul,Nat.one_mul,Nat.add_zero,←Nat.add_assoc,←row]
    · rw [odd,Nat.one_mul] at row
      rw [odd,if_neg (by decide)]
      show _ = v (i / (2 * h) * (2 * h) + (i % h + 0 * h)) - v (i / (2 * h) * (2 * h) + (i % h + 1 * h))
      rw [Nat.zero_mul,Nat.one_mul,Nat.add_zero,←row]
      have below : i - h = i / (2 * h) * (2 * h) + i % h := by omega
      rw [below]
  reads x y same lane small := by
    interval_cases lane <;> simp only [pairLevel,same 0 (by decide),same 1 (by decide)]
  spread := ⟨by decide,some⟩

-- From distance 2^a on, the stages left are done, eight rows at a time or two.
theorem stages_pass (useAvx512 useAvx2 : Bool) (rayon : Rayon) (useRayon : Bool) (k : Nat) (filled : 0 < d) :
    ∀ fuel a (m : Nat → F), a ≤ k → k ≤ a + fuel →
      Pass (2 ^ k) d (walsh a (k - a)) m (stages useAvx512 useAvx2 rayon useRayon (2 ^ k * d) (2 ^ k) d fuel (2 ^ a) m)
  | 0,a,m,small,enough => by
    rw [show k - a = 0 by omega]
    exact pass_one _ _ m
  | fuel+1,a,m,small,enough => by
    have positive := Nat.two_pow_pos a
    unfold stages
    by_cases more : 2 ^ a < 2 ^ k
    · have step : a < k := (Nat.pow_lt_pow_iff_right (by decide)).mp more
      rw [if_pos more]
      split
      · rename_i eight
        have next : 2 ^ a * 8 ≤ 2 ^ k := by
          unfold checkedMul at eight
          split at eight
          · exact of_decide_eq_true eight
          · cases eight
        have three : a + 3 ≤ k := (Nat.pow_le_pow_iff_right (by decide)).mp (two_pow_eight a ▸ next)
        have whole : 2 ^ k = 2 ^ (k - (a+3)) * (8 * 2 ^ a) := by
          rw [Nat.mul_comm 8,two_pow_eight,←pow_add,Nat.sub_add_cancel three]
        have stage := stage_pass (radix8_staged (F:=F) positive) (butterflyOct_sweeps useAvx512 useAvx2) filled rayon useRayon
          (2 ^ (k - (a+3))) m
        rw [←whole] at stage
        rw [show fwhtRadix8Factor = 8 from rfl,two_pow_eight,←walsh_radix8 three]
        exact stage.seq (stages_pass useAvx512 useAvx2 rayon useRayon k filled fuel (a+3) _ three (by omega))
          (local_walsh _ _ (by omega))
      · have whole : 2 ^ k = 2 ^ (k - (a+1)) * (2 * 2 ^ a) := by
          rw [Nat.mul_comm 2,←pow_succ,←pow_add,Nat.sub_add_cancel step]
        have stage := stage_pass (radix2_staged (F:=F) positive) (butterflyPair_sweeps useAvx512 useAvx2) filled rayon useRayon
          (2 ^ (k - (a+1))) m
        rw [←whole] at stage
        rw [←pow_succ,←walsh_radix2 step]
        exact stage.seq (stages_pass useAvx512 useAvx2 rayon useRayon k filled fuel (a+1) _ step (by omega))
          (local_walsh _ _ (by omega))
    · have stop : k ≤ a := (Nat.pow_le_pow_iff_right (by decide)).mp (Nat.le_of_not_lt more)
      rw [if_neg more,show k - a = 0 by omega]
      exact pass_one _ _ m

theorem fwhtRowsInplaceSlice_pass (cpu : Cpu) (rayon : Rayon) (k d : Nat) (m : Nat → F) :
    Pass (2 ^ k) d (walsh 0 k) m (fwhtRowsInplaceSlice cpu rayon (2 ^ k * d) (2 ^ k) d m) := by
  unfold fwhtRowsInplaceSlice
  split
  · rename_i trivial
    rcases trivial with one | none
    · have single : k = 0 := by
        rcases Nat.eq_zero_or_pos k with rfl | some
        · rfl
        · exact absurd one (Nat.not_lt.mpr (Nat.pow_le_pow_right (by decide) some : 2 ^ 1 ≤ 2 ^ k))
      subst single
      exact pass_one _ _ m
    · rw [none]
      exact pass_empty _ _ m
  · rename_i work
    have filled : 0 < d := by omega
    exact stages_pass _ _ rayon _ k filled (2 ^ k) 0 m (Nat.zero_le k) (by rw [Nat.zero_add]; exact Nat.le_of_lt Nat.lt_two_pow_self)

end Stages

section Diagonals
variable {F : Type} [Field F] [LinearOrder F]

theorem signedRows_listed {d : List F} (some : 0 < cols) (useRayon : Bool) :
    signedRows (d.length * cols) cols d useRayon = d.zipIdx.map fun sign => (⟨sign.2 * cols,cols⟩,sign.1) := by
  cases useRayon with
  | false => rfl
  | true =>
    show (chunksMut (d.length * cols) cols).zip d = _
    rw [chunksMut_full d.length some]
    refine List.ext_getElem (by simp) fun i low low' => ?_
    simp

-- A row at a time, each with its sign, in any order.
theorem rows_pass {T : Module.End F (Nat → F)} {body : (Nat → F) → Chunk × F → Nat → F} {d : List F} (some : 0 < cols)
    (each : ∀ i s, d[i]? = .some s → ∀ m, Updates (colwise cols T) {a | a / cols = i} m (body m (⟨i * cols,cols⟩,s)))
    (own : ∀ i, Within (colwise cols T) {a | a / cols = i}) (rayon : Rayon) (useRayon : Bool) (m : Nat → F) :
    Pass d.length cols T m (forEach rayon useRayon (signedRows (d.length * cols) cols d useRayon) body m) := by
  rw [signedRows_listed some]
  obtain ⟨order,perm,run⟩ := forEach_perm rayon useRayon (d.zipIdx.map fun sign => (Chunk.mk (sign.2 * cols) cols,sign.1)) body m
  rw [run]
  have listed : ∀ row ∈ order, ∃ i, d[i]? = .some row.2 ∧ row.1 = ⟨i * cols,cols⟩ := by
    intro row member
    obtain ⟨⟨s,i⟩,inside,rfl⟩ := List.mem_map.mp (perm.mem_iff.mp member)
    exact ⟨i,List.mem_zipIdx_iff_getElem?.mp inside,rfl⟩
  have start : ∀ i, i * cols / cols = i := fun i => Nat.mul_div_cancel i some
  have distinct : order.Nodup := by
    refine perm.nodup_iff.mpr ?_
    refine List.Nodup.of_map (fun row : Chunk × F => row.1.start / cols) ?_
    rw [List.map_map,show ((fun row : Chunk × F => row.1.start / cols) ∘ fun sign : F × Nat => (Chunk.mk (sign.2 * cols) cols,sign.1)) =
      Prod.snd from funext fun sign => start sign.2,List.zipIdx_map_snd]
    exact List.nodup_range'
  refine (updates_foldl (W:=fun row : Chunk × F => {a | a / cols = row.1.start / cols}) id order m ?_ ?_ ?_).same ?_
  · rintro ⟨chunk,s⟩ member m
    obtain ⟨i,found,rfl⟩ := listed _ member
    simp only [start]
    exact each i s found m
  · intro row _
    exact own _
  · refine distinct.pairwise_of_forall_ne ?_
    rintro ⟨chunk,s⟩ member ⟨chunk',s'⟩ member' different a inside inside'
    obtain ⟨i,found,rfl⟩ := listed _ member
    obtain ⟨j,found',rfl⟩ := listed _ member'
    have same : i = j := by
      have both : i * cols / cols = j * cols / cols := inside.symm.trans inside'
      rwa [start,start] at both
    subst same
    have sign : s = s' := Option.some.inj (found.symm.trans found')
    exact different (by rw [sign])
  · ext a
    constructor
    · rintro ⟨⟨chunk,s⟩,member,inside⟩
      obtain ⟨i,found,rfl⟩ := listed _ member
      have row : a / cols = i := inside.trans (start i)
      exact (Nat.div_lt_iff_lt_mul some).mp (row ▸ (List.getElem?_eq_some_iff.mp found).1)
    · intro inside
      have row : a / cols < d.length := (Nat.div_lt_iff_lt_mul some).mpr inside
      refine ⟨(⟨a / cols * cols,cols⟩,d[a / cols]),perm.mem_iff.mpr (List.mem_map.mpr ⟨(d[a / cols],a / cols),?_,rfl⟩),(start _).symm⟩
      exact List.mem_zipIdx_iff_getElem?.mpr (List.getElem?_eq_getElem row)

theorem colwise_flip (negative : Nat → Bool) (d : Nat) (m : Nat → F) (a : Nat) :
    colwise d (flip negative) m a = if negative (a / d) then -m a else m a := by
  show (if negative (a / d) then -m (a / d * d + a % d) else m (a / d * d + a % d)) = _
  rw [cell_split]

theorem colwise_scaled (f : Nat → F) (d : Nat) (m : Nat → F) (a : Nat) : colwise d (scaled f) m a = m a * f (a / d) := by
  show m (a / d * d + a % d) * f (a / d) = _
  rw [cell_split]

theorem row_cells {i cols : Nat} (some : 0 < cols) (a : Nat) : i * cols ≤ a ∧ a < i * cols + cols ↔ a / cols = i := by
  have run : i * cols + 0 ≤ a ∧ a < i * cols + 0 + cols ↔ a / cols = i ∧ 0 ≤ a % cols ∧ a % cols < 0 + cols := run_in_row (by omega)
  rw [Nat.add_zero,Nat.zero_add] at run
  exact run.trans ⟨fun inside => inside.1,fun row => ⟨row,Nat.zero_le _,Nat.mod_lt a some⟩⟩

theorem applyDiagInplaceSlice_pass {d : List F} (long : d.length = n) (rayon : Rayon) (cols : Nat) (m : Nat → F) :
    Pass n cols (flip fun i => decide (d.getD i 1 < 0)) m (applyDiagInplaceSlice rayon (n * cols) d cols m) := by
  subst long
  unfold applyDiagInplaceSlice
  split
  · rename_i none
    rw [none]
    exact pass_empty _ _ m
  · rename_i filled
    have some : 0 < cols := Nat.pos_of_ne_zero filled
    refine rows_pass some ?_ ?_ rayon _ m
    · intro i s found m
      have sign : d.getD i 1 = s := by rw [List.getD_eq_getElem?_getD,found]; rfl
      have value : ∀ a, a / cols = i → colwise cols (flip fun i => decide (d.getD i 1 < 0)) m a = if s < 0 then -m a else m a := by
        intro a row
        rw [colwise_flip,row,sign]
        by_cases negative : s < 0 <;> simp [negative]
      constructor
      · intro a row
        rw [value a row]
        unfold flipRow rewrite
        by_cases negative : s < 0
        · rw [if_pos negative,if_pos negative]
          exact if_pos ((row_cells some a).mpr row)
        · rw [if_neg negative,if_neg negative]
      · intro a outside
        unfold flipRow rewrite
        split
        · exact if_neg fun inside => outside ((row_cells some a).mp inside)
        · rfl
    · intro i m m' alike a row
      rw [colwise_flip,colwise_flip,alike a row]

theorem applyDiagScaledInplaceSlice_pass {d : List F} (long : d.length = n) (rayon : Rayon) (cols : Nat) (factor : F)
    (m : Nat → F) :
    Pass n cols (scaled fun i => d.getD i 1 * factor) m (applyDiagScaledInplaceSlice rayon (n * cols) d cols factor m) := by
  subst long
  unfold applyDiagScaledInplaceSlice
  split
  · rename_i none
    rw [none]
    exact pass_empty _ _ m
  · rename_i filled
    have some : 0 < cols := Nat.pos_of_ne_zero filled
    refine rows_pass some ?_ ?_ rayon _ m
    · intro i s found m
      have sign : d.getD i 1 = s := by rw [List.getD_eq_getElem?_getD,found]; rfl
      constructor
      · intro a row
        rw [colwise_scaled,show a / cols = i from row,sign]
        exact if_pos ((row_cells some a).mpr row)
      · intro a outside
        exact if_neg fun inside => outside ((row_cells some a).mp inside)
    · intro i m m' alike a row
      rw [colwise_scaled,colwise_scaled,alike a row]

end Diagonals
end Hd3
end Gelo
