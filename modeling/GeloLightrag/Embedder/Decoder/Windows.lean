import GeloLightrag.Embedder.Decoder.Attention
import GeloLightrag.Foundation.Softmax

set_option linter.unusedSectionVars false

namespace Embedder
open Foundation Array2 Gelo

section Rows
variable {F : Type} [Field F] [LinearOrder F] [IsStrictOrderedRing F] [Platform F] [Exponential F]

-- The places a row shows.
def seen (count : Nat) (hidden : Nat → Bool) : Finset Nat := (Finset.range count).filter fun j => hidden j = false

variable {count : Nat} {hidden : Nat → Bool} {x : Nat → F}

theorem mem_seen : j ∈ seen count hidden ↔ j < count ∧ hidden j = false := by
  unfold seen
  rw [Finset.mem_filter,Finset.mem_range]

def shownScore (hidden : Nat → Bool) (x : Nat → F) (j : Nat) : Option F := if hidden j then none else some (x j)

theorem top_seen (some_ : (seen count hidden).Nonempty) :
    ((List.range count).filterMap (shownScore hidden x)).max? = some (peak (seen count hidden) x) := by
  have greatest : IsGreatest (x '' (seen count hidden)) (peak (seen count hidden) x) := by
    unfold peak
    rw [dif_pos some_]
    exact sup_greatest some_ x
  have listed (y : F) : y ∈ (List.range count).filterMap (shownScore hidden x) ↔ y ∈ x '' (seen count hidden) := by
    rw [List.mem_filterMap]
    constructor
    · rintro ⟨j,inside,is⟩
      unfold shownScore at is
      split at is
      · cases is
      · rename_i shown
        cases is
        exact ⟨j,mem_seen.mpr ⟨List.mem_range.mp inside,Bool.eq_false_of_not_eq_true shown⟩,rfl⟩
    · rintro ⟨j,member,rfl⟩
      obtain ⟨inside,shown⟩ := mem_seen.mp member
      exact ⟨j,List.mem_range.mpr inside,by unfold shownScore; rw [shown]; rfl⟩
  rw [List.max?_eq_some_iff]
  exact ⟨(listed _).mpr greatest.1,fun y member => greatest.2 ((listed y).mp member)⟩

-- The softmax of a row is the share of what it shows, and nothing elsewhere.
theorem softmaxInplace_share (positive : ∀ y : F, 0 < Exponential.exp y) (some_ : (seen count hidden).Nonempty) :
    softmaxInplace count (shownScore hidden x) = fun j => if hidden j then 0 else
      share Exponential.exp (seen count hidden) (fun l => x l - peak (seen count hidden) x) j := by
  let top := peak (seen count hidden) x
  let e := fun j => (shownScore hidden x j).elim 0 fun s => Exponential.exp (s - top)
  have shown {j : Nat} (shown : hidden j = false) : e j = Exponential.exp (x j - top) := by simp [e,shownScore,shown]
  have total : ∑ l ∈ Finset.range count, e l = ∑ l ∈ seen count hidden, Exponential.exp (x l - top) := by
    unfold seen
    rw [Finset.sum_filter]
    refine Finset.sum_congr rfl fun l _ => ?_
    cases dark : hidden l with
    | false => rw [if_pos rfl,shown dark]
    | true => simp [e,shownScore,dark]
  have mass : 0 < ∑ l ∈ Finset.range count, e l := by
    rw [total]
    exact Finset.sum_pos (fun l _ => positive _) some_
  unfold softmaxInplace
  rw [top_seen some_]
  dsimp only
  funext j
  rw [if_pos mass]
  show e j * (1 / ∑ l ∈ Finset.range count, e l) = _
  rw [total]
  cases dark : hidden j with
  | false => rw [if_neg (by simp),shown dark]; rfl
  | true => simp [e,shownScore,dark]

-- A row of values weighed with it.
theorem weighed_attended (positive : ∀ y : F, 0 < Exponential.exp y) (some_ : (seen count hidden).Nonempty) (v : Nat → F) :
    ∑ j ∈ Finset.range count, softmaxInplace count (shownScore hidden x) j * v j = attended Exponential.exp (seen count hidden) x v := by
  rw [softmaxInplace_share positive some_]
  unfold attended
  show _ = ∑ j ∈ (Finset.range count).filter _, _
  rw [Finset.sum_filter]
  refine Finset.sum_congr rfl fun j _ => ?_
  cases dark : hidden j with
  | false => simp [dark]
  | true => simp [dark]

end Rows

section Heads
variable {F : Type} [Field F] [LinearOrder F] [IsStrictOrderedRing F] [Platform F] [Exponential F]

-- softmax(Q * Kt / sqrt(d)) * V of one query head over the keys each row sees.
def gqaHead (visible : Nat → Finset Nat) (q k v : Array2 F) (group headDim qh : Nat) : Array2 F :=
  of q.nrows headDim fun i d => attended Exponential.exp (visible i)
    (fun j => (∑ l ∈ Finset.range headDim, q.entry i (qh * headDim + l) * k.entry j (qh / group * headDim + l)) * (1 / Platform.sqrt (headDim : F)))
    fun j => v.entry j (qh / group * headDim + d)

def gqa (visible : Nat → Finset Nat) (q k v : Array2 F) (numQHeads numKvHeads headDim : Nat) : Array2 F :=
  Array2.beside q.nrows headDim ((List.range numQHeads).map (gqaHead visible q k v (numQHeads / numKvHeads) headDim))

theorem gqaHead_congr {visible visible' : Nat → Finset Nat} {q k v : Array2 F} (same : ∀ i < q.nrows, visible i = visible' i)
    (group headDim qh : Nat) : gqaHead visible q k v group headDim qh = gqaHead visible' q k v group headDim qh := by
  refine eq_of rfl rfl fun i row d col => ?_
  have row' : i < q.nrows := row
  have col' : d < headDim := col
  unfold gqaHead
  rw [of_entry row' col',of_entry row' col',same i row']

-- What a kernel does for one head.
def perHead (q k v : Array2 F) (numQHeads numKvHeads headDim : Nat) (hidden : Nat → Nat → Bool) (qh : Nat) : Except String (Array2 F) := do
  let group := numQHeads / numKvHeads
  let scores ← headScores q k (qh * headDim) (qh / group * headDim) headDim
  headContext hidden (1 / Platform.sqrt (headDim : F)) scores v (qh / group * headDim) headDim

variable {q k v : Array2 F} {hidden : Nat → Nat → Bool}

theorem perHead_runs (tall : v.nrows = k.nrows) (numQHeads numKvHeads headDim : Nat) (hidden : Nat → Nat → Bool) (qh : Nat) :
    ∃ ctx, perHead q k v numQHeads numKvHeads headDim hidden qh = .ok ctx ∧ ctx.nrows = q.nrows ∧ ctx.ncols = headDim := by
  refine ⟨_,except_bind_ok.mpr ⟨_,if_pos rfl,if_pos tall.symm⟩,rfl,rfl⟩

theorem perHead_exact (positive : ∀ y : F, 0 < Exponential.exp y) (tall : v.nrows = k.nrows)
    (some_ : ∀ i < q.nrows, (seen k.nrows (hidden i)).Nonempty) (numQHeads numKvHeads headDim qh : Nat) :
    perHead q k v numQHeads numKvHeads headDim hidden qh =
      .ok (gqaHead (fun i => seen k.nrows (hidden i)) q k v (numQHeads / numKvHeads) headDim qh) := by
  let queries := columns (qh * headDim) headDim q
  let keys := columns (qh / (numQHeads / numKvHeads) * headDim) headDim k
  let scores := queries.dot keys.transpose
  refine except_bind_ok.mpr ⟨scores,if_pos rfl,(if_pos tall.symm).trans (congrArg Except.ok ?_)⟩
  refine eq_of rfl rfl fun i row d col => ?_
  have row' : i < q.nrows := row
  have col' : d < headDim := col
  have score {j : Nat} (inside : j < k.nrows) : scores.entry i j =
      ∑ l ∈ Finset.range headDim, q.entry i (qh * headDim + l) * k.entry j (qh / (numQHeads / numKvHeads) * headDim + l) := by
    refine (dot_entry (show j < keys.transpose.ncols from inside)).trans (Finset.sum_congr rfl fun l member => ?_)
    have within : l < headDim := Finset.mem_range.mp member
    have left : queries.entry i l = q.entry i (qh * headDim + l) := of_entry row' within
    have across : keys.transpose.entry l j = keys.entry j l := of_entry within inside
    have right : keys.entry j l = k.entry j (qh / (numQHeads / numKvHeads) * headDim + l) := of_entry inside within
    rw [left,across,right]
  let raw : Nat → F := fun j => scores.entry i j * (1 / Platform.sqrt (headDim : F))
  let values := columns (qh / (numQHeads / numKvHeads) * headDim) headDim v
  have weights {j : Nat} (inside : j < k.nrows) : (of scores.nrows scores.ncols fun i => softmaxInplace scores.ncols
      (masked hidden (1 / Platform.sqrt (headDim : F)) scores i)).entry i j = softmaxInplace k.nrows (shownScore (hidden i) raw) j :=
    of_entry row' inside
  have meant : (gqaHead (fun i => seen k.nrows (hidden i)) q k v (numQHeads / numKvHeads) headDim qh).entry i d = _ := of_entry row' col'
  rw [dot_entry (show d < values.ncols from col'),meant]
  calc ∑ j ∈ Finset.range k.nrows, (of scores.nrows scores.ncols fun i => softmaxInplace scores.ncols
          (masked hidden (1 / Platform.sqrt (headDim : F)) scores i)).entry i j * values.entry j d
      = ∑ j ∈ Finset.range k.nrows, softmaxInplace k.nrows (shownScore (hidden i) raw) j * values.entry j d :=
        Finset.sum_congr rfl fun j member => by rw [weights (Finset.mem_range.mp member)]
    _ = attended Exponential.exp (seen k.nrows (hidden i)) raw fun j => values.entry j d := weighed_attended positive (some_ i row') _
    _ = _ := by
        refine attended_congr (fun j member => ?_) fun j member => ?_
        · show scores.entry i j * _ = _
          rw [score (mem_seen.mp member).1]
        · exact of_entry (tall ▸ (mem_seen.mp member).1) col'

end Heads
section Paths
variable {F : Type} [Zero F]

-- `out.slice_mut(s![.., lo..lo + width]).assign(&ctx)`
def putColumns (lo width : Nat) (ctx out : Array2 F) : Except String (Array2 F) :=
  if lo + width ≤ out.ncols then do
    let source ← spread out.nrows width ctx
    return of out.nrows out.ncols fun i j => if lo ≤ j ∧ j < lo + width then source.entry i (j - lo) else out.entry i j
  else .error Gelo.outOfBounds

def serialHeads (n numQHeads headDim : Nat) (head : Nat → Except String (Array2 F)) : Except String (Array2 F) :=
  (List.range numQHeads).foldlM (fun out qh => do putColumns (qh * headDim) headDim (← head qh) out) (zeros n (numQHeads * headDim))

-- `axis_chunks_iter_mut(Axis(1), headDim)`: the chunks are disjoint, and the threads take
-- them in any order.
def chunkCount (ncols headDim : Nat) : Nat := (ncols + headDim - 1) / headDim

def parallelHeads (order : List Nat) (n numQHeads headDim : Nat) (head : Nat → Except String (Array2 F)) : Except String (Array2 F) :=
  if headDim = 0 then .error "ndarray: chunk size must be nonzero"
  else order.foldlM (fun out qh => do
    putColumns (qh * headDim) (min headDim (numQHeads * headDim - qh * headDim)) (← head qh) out) (zeros n (numQHeads * headDim))

variable {n numQHeads headDim : Nat} {head : Nat → Except String (Array2 F)} {ctx : Nat → Array2 F}

theorem chunkCount_heads (wide : 0 < headDim) (numQHeads : Nat) : chunkCount (numQHeads * headDim) headDim = numQHeads := by
  unfold chunkCount
  rw [Nat.add_sub_assoc wide,Nat.mul_comm,Nat.mul_add_div wide,Nat.div_eq_of_lt (by omega),Nat.add_zero]

-- The columns of the heads written so far are theirs, the others as before.
theorem putHeads_run (wide : 0 < headDim) (answers : ∀ qh < numQHeads, head qh = .ok (ctx qh) ∧ (ctx qh).nrows = n ∧ (ctx qh).ncols = headDim)
    {width : Nat → Nat} (full : ∀ qh < numQHeads, width qh = headDim) (order : List Nat) (inside : ∀ qh ∈ order, qh < numQHeads)
    (start : Array2 F) (tall : start.nrows = n) (span : start.ncols = numQHeads * headDim) :
    ∃ out, order.foldlM (fun out qh => do putColumns (qh * headDim) (width qh) (← head qh) out) start = .ok out ∧
      out.nrows = n ∧ out.ncols = numQHeads * headDim ∧ ∀ i < n, ∀ j < numQHeads * headDim,
        out.entry i j = if j / headDim ∈ order then (ctx (j / headDim)).entry i (j % headDim) else start.entry i j := by
  induction order generalizing start with
  | nil => exact ⟨start,rfl,tall,span,fun i _ j _ => (if_neg List.not_mem_nil).symm⟩
  | cons qh rest ih =>
    have before : qh < numQHeads := inside qh List.mem_cons_self
    obtain ⟨answered,rows,cols⟩ := answers qh before
    have within : qh * headDim + headDim ≤ numQHeads * headDim := by
      rw [←Nat.succ_mul]
      exact Nat.mul_le_mul_right _ before
    let middle := of start.nrows start.ncols fun i j =>
      if qh * headDim ≤ j ∧ j < qh * headDim + headDim then (ctx qh).entry i (j - qh * headDim) else start.entry i j
    have put : putColumns (qh * headDim) (width qh) (ctx qh) start = .ok middle := by
      have fitted : spread start.nrows headDim (ctx qh) = .ok (ctx qh) := by
        rw [tall,←rows,←cols]
        exact spread_fits _
      unfold putColumns
      rw [full qh before,if_pos (by rw [span]; exact within)]
      exact except_bind_ok.mpr ⟨_,fitted,rfl⟩
    obtain ⟨out,ran,tall',span',entries⟩ := ih (fun qh member => inside qh (List.mem_cons_of_mem _ member)) middle tall span
    refine ⟨out,?_,tall',span',fun i row j col => ?_⟩
    · rw [List.foldlM_cons]
      exact except_bind_ok.mpr ⟨middle,except_bind_ok.mpr ⟨_,answered,put⟩,ran⟩
    · have here : middle.entry i j = if j / headDim = qh then (ctx (j / headDim)).entry i (j % headDim) else start.entry i j := by
        refine (of_entry (tall.symm ▸ row) (span.symm ▸ col)).trans ?_
        by_cases mine : j / headDim = qh
        · have place : qh * headDim + j % headDim = j := by rw [←mine,Nat.mul_comm,Nat.div_add_mod]
          have short := Nat.mod_lt j wide
          rw [if_pos mine,if_pos ⟨by omega,by omega⟩,mine]
          congr 1
          omega
        · rw [if_neg mine,if_neg fun span => mine (Nat.div_eq_of_lt_le span.1 (by rw [Nat.succ_mul]; exact span.2))]
      rw [entries i row j col,here]
      by_cases later : j / headDim ∈ rest
      · rw [if_pos later,if_pos (List.mem_cons_of_mem _ later)]
      · by_cases mine : j / headDim = qh
        · rw [if_neg later,if_pos mine,if_pos (mine ▸ List.mem_cons_self)]
        · rw [if_neg later,if_neg mine,if_neg fun listed => (List.mem_cons.mp listed).elim mine later]

theorem putHeads_all (wide : 0 < headDim) (answers : ∀ qh < numQHeads, head qh = .ok (ctx qh) ∧ (ctx qh).nrows = n ∧ (ctx qh).ncols = headDim)
    {width : Nat → Nat} (full : ∀ qh < numQHeads, width qh = headDim) {order : List Nat} (all : order.Perm (List.range numQHeads)) :
    order.foldlM (fun out qh => do putColumns (qh * headDim) (width qh) (← head qh) out) (zeros n (numQHeads * headDim)) =
      .ok (Array2.beside n headDim ((List.range numQHeads).map ctx)) := by
  obtain ⟨out,ran,tall,span,entries⟩ := putHeads_run wide answers full order (fun qh member => List.mem_range.mp (all.mem_iff.mp member))
    (zeros n (numQHeads * headDim)) rfl rfl
  have count : ((List.range numQHeads).map ctx).length = numQHeads := by rw [List.length_map,List.length_range]
  rw [ran]
  refine congrArg Except.ok (eq_of tall (by rw [span]; show _ = List.length _ * headDim; rw [count]) fun i row j col => ?_)
  rw [tall] at row
  rw [span] at col
  have which : j / headDim < numQHeads := Nat.div_lt_of_lt_mul (by rw [Nat.mul_comm]; exact col)
  rw [entries i row j col,if_pos (all.mem_iff.mpr (List.mem_range.mpr which))]
  unfold Array2.beside
  rw [of_entry row (by rw [count]; exact col),List.getElem?_map,List.getElem?_range which]
  rfl

end Paths
section Kernels
variable {F : Type} [Field F] [LinearOrder F] [IsStrictOrderedRing F] [Platform F] [Exponential F] {q k v : Array2 F}
  {numQHeads numKvHeads headDim : Nat}

theorem attendHeads_paths (wide : 0 < headDim) (tall : v.nrows = k.nrows) (hidden : Nat → Nat → Bool) {order : List Nat}
    (all : order.Perm (List.range (chunkCount (numQHeads * headDim) headDim))) :
    parallelHeads order q.nrows numQHeads headDim (perHead q k v numQHeads numKvHeads headDim hidden) =
        attendHeads q k v numQHeads numKvHeads headDim hidden ∧
      serialHeads q.nrows numQHeads headDim (perHead q k v numQHeads numKvHeads headDim hidden) =
        attendHeads q k v numQHeads numKvHeads headDim hidden := by
  choose ctx answers using perHead_runs (q:=q) tall numQHeads numKvHeads headDim hidden
  rw [chunkCount_heads wide] at all
  have together : attendHeads q k v numQHeads numKvHeads headDim hidden = .ok (Array2.beside q.nrows headDim ((List.range numQHeads).map ctx)) :=
    except_bind_ok.mpr ⟨_,mapM_ok (f:=perHead q k v numQHeads numKvHeads headDim hidden) _ fun qh _ => (answers qh).1,rfl⟩
  have chunk (qh : Nat) (before : qh < numQHeads) : min headDim (numQHeads * headDim - qh * headDim) = headDim := by
    rw [←Nat.sub_mul]
    exact Nat.min_eq_left (Nat.le_mul_of_pos_left _ (Nat.sub_pos_of_lt before))
  rw [together]
  refine ⟨?_,putHeads_all wide (fun qh _ => answers qh) (fun _ _ => rfl) (List.Perm.refl _)⟩
  unfold parallelHeads
  rw [if_neg wide.ne']
  exact putHeads_all wide (fun qh _ => answers qh) chunk all

theorem attendHeads_exact (positive : ∀ y : F, 0 < Exponential.exp y) (tall : v.nrows = k.nrows) {hidden : Nat → Nat → Bool}
    {visible : Nat → Finset Nat} (sees : ∀ i < q.nrows, seen k.nrows (hidden i) = visible i ∧ (visible i).Nonempty) :
    attendHeads q k v numQHeads numKvHeads headDim hidden = .ok (gqa visible q k v numQHeads numKvHeads headDim) := by
  have heads (qh : Nat) : perHead q k v numQHeads numKvHeads headDim hidden qh =
      .ok (gqaHead visible q k v (numQHeads / numKvHeads) headDim qh) := by
    rw [perHead_exact positive tall fun i row => (sees i row).1 ▸ (sees i row).2]
    exact congrArg Except.ok (gqaHead_congr (fun i row => (sees i row).1) _ _ _)
  exact except_bind_ok.mpr ⟨_,mapM_ok (f:=perHead q k v numQHeads numKvHeads headDim hidden) _ fun qh _ => heads qh,rfl⟩

-- The keys up to a query's own place, of which the window shows the last.
def upTo (place : Nat) : Finset Nat := Finset.range (place + 1)
def lastUpTo (window place : Nat) : Finset Nat := (upTo place).filter fun j => place < j + window

theorem seen_causal (inside : place < count) : seen count (fun j => decide (place < j)) = upTo place := by
  ext j
  rw [mem_seen,upTo,Finset.mem_range,decide_eq_false_iff_not]
  omega

theorem seen_window (inside : place < count) (some_ : 0 < window) :
    seen count (fun j => decide (j < place - (window - 1)) || decide (place < j)) = lastUpTo window place := by
  ext j
  rw [mem_seen,lastUpTo,upTo,Finset.mem_filter,Finset.mem_range,Bool.or_eq_false_iff,decide_eq_false_iff_not,decide_eq_false_iff_not]
  omega

theorem gqa_entry {visible : Nat → Finset Nat} (row : i < q.nrows) (col : c < numQHeads * headDim) :
    (gqa visible q k v numQHeads numKvHeads headDim).entry i c =
      (gqaHead visible q k v (numQHeads / numKvHeads) headDim (c / headDim)).entry i (c % headDim) := by
  have which : c / headDim < numQHeads := Nat.div_lt_of_lt_mul (by rw [Nat.mul_comm]; exact col)
  unfold gqa Array2.beside
  rw [of_entry row (by rw [List.length_map,List.length_range]; exact col),List.getElem?_map,List.getElem?_range which]
  rfl

theorem gqa_ncols (visible : Nat → Finset Nat) : (gqa visible q k v numQHeads numKvHeads headDim).ncols = numQHeads * headDim := by
  show List.length _ * headDim = _
  rw [List.length_map,List.length_range]

theorem rows_at {a : Array2 F} (row : i < hi - lo) (c : Nat) : (a.rows lo hi).entry i c = a.entry (lo + i) c := by
  by_cases col : c < a.ncols
  · exact rows_entry row col
  · rw [(a.rows lo hi).blank i c fun inside => col inside.2,a.blank (lo + i) c fun inside => col inside.2]

-- Rows of the queries attend as they do among all the others.
theorem gqa_rows {visible : Nat → Finset Nat} (high : hi ≤ q.nrows) :
    gqa (fun i => visible (lo + i)) (q.rows lo hi) k v numQHeads numKvHeads headDim =
      (gqa visible q k v numQHeads numKvHeads headDim).rows lo hi := by
  refine eq_of rfl ((gqa_ncols _).trans (gqa_ncols _).symm) fun i row c col => ?_
  have row' : i < hi - lo := row
  have inside : lo + i < q.nrows := by omega
  have col' : c < numQHeads * headDim := by rw [gqa_ncols] at col; exact col
  have short : c % headDim < headDim := Nat.mod_lt _ (Nat.pos_of_ne_zero fun none => by rw [none,Nat.mul_zero] at col'; cases col')
  rw [rows_at row',gqa_entry (show i < (q.rows lo hi).nrows from row') col',gqa_entry inside col']
  unfold gqaHead
  rw [of_entry (show i < (q.rows lo hi).nrows from row') short,of_entry inside short]
  simp only [rows_at row']

variable (positive : ∀ y : F, 0 < Exponential.exp y) (grouped : groupedHeads numQHeads numKvHeads = .ok ()) (wide : 0 < headDim)
  (tall : v.nrows = k.nrows) (keys : k.ncols = numKvHeads * headDim) (values : v.ncols = numKvHeads * headDim)

theorem headWidths_ok (queries : q.ncols = numQHeads * headDim) (keys : k.ncols = numKvHeads * headDim) (values : v.ncols = numKvHeads * headDim) :
    headWidths q k v numQHeads numKvHeads headDim = .ok () :=
  except_bind_ok.mpr ⟨(),if_pos queries,except_bind_ok.mpr ⟨(),if_pos keys,if_pos values⟩⟩

theorem cachedRows_ok (tall : v.nrows = k.nrows) (room : q.nrows + qPosOffset ≤ k.nrows) (kind : String) :
    cachedRows q k v qPosOffset kind = .ok () :=
  except_bind_ok.mpr ⟨(),if_pos tall,if_pos room⟩

include positive grouped tall keys values

theorem causalGqaAttention_exact (queries : q.ncols = numQHeads * headDim) (square : q.nrows = k.nrows) :
    causalGqaAttention q k v numQHeads numKvHeads headDim = .ok (gqa upTo q k v numQHeads numKvHeads headDim) := by
  refine except_bind_ok.mpr ⟨(),grouped,except_bind_ok.mpr ⟨(),headWidths_ok queries keys values,attendHeads_exact positive tall fun i row => ?_⟩⟩
  exact ⟨seen_causal (square ▸ row),⟨0,Finset.mem_range.mpr (Nat.succ_pos i)⟩⟩

theorem causalGqaAttentionCached_exact (queries : q.ncols = numQHeads * headDim) (room : q.nrows + qPosOffset ≤ k.nrows) :
    causalGqaAttentionCached q k v numQHeads numKvHeads headDim qPosOffset =
      .ok (gqa (fun i => upTo (qPosOffset + i)) q k v numQHeads numKvHeads headDim) := by
  refine except_bind_ok.mpr ⟨(),grouped,except_bind_ok.mpr ⟨(),cachedRows_ok tall room _,except_bind_ok.mpr ⟨(),headWidths_ok queries keys values,
    attendHeads_exact positive tall fun i row => ?_⟩⟩⟩
  exact ⟨seen_causal (by omega),⟨0,Finset.mem_range.mpr (Nat.succ_pos _)⟩⟩

theorem causalGqaAttentionSwaCached_exact (queries : q.ncols = numQHeads * headDim) (room : q.nrows + qPosOffset ≤ k.nrows) (some_ : 0 < window) :
    causalGqaAttentionSwaCached q k v numQHeads numKvHeads headDim qPosOffset window =
      .ok (gqa (fun i => lastUpTo window (qPosOffset + i)) q k v numQHeads numKvHeads headDim) := by
  refine except_bind_ok.mpr ⟨(),grouped,except_bind_ok.mpr ⟨(),if_pos some_,except_bind_ok.mpr ⟨(),cachedRows_ok tall room _,
    except_bind_ok.mpr ⟨(),headWidths_ok queries keys values,attendHeads_exact positive tall fun i row => ?_⟩⟩⟩⟩
  refine ⟨seen_window (by omega) some_,⟨qPosOffset + i,?_⟩⟩
  rw [lastUpTo,Finset.mem_filter,upTo,Finset.mem_range]
  omega

omit grouped in
include wide in
-- A suffix of the queries over the cache, a window of it, and either path over the heads.
theorem cached_attention_exact (some_ : 0 < numKvHeads) (more : numKvHeads ≤ numQHeads) (integral : numQHeads % numKvHeads = 0) :
    (∀ q : Array2 F, q.ncols = numQHeads * headDim → q.nrows = k.nrows → ∃ full,
      causalGqaAttention q k v numQHeads numKvHeads headDim = .ok full ∧ ∀ nQ ≤ k.nrows,
        causalGqaAttentionCached (q.rows (k.nrows - nQ) k.nrows) k v numQHeads numKvHeads headDim (k.nrows - nQ) =
          .ok (full.rows (k.nrows - nQ) k.nrows)) ∧
    (∀ (q : Array2 F) (qPosOffset : Nat), q.ncols = numQHeads * headDim → q.nrows + qPosOffset ≤ k.nrows →
      causalGqaAttentionCached q k v numQHeads numKvHeads headDim qPosOffset =
        .ok (gqa (fun i => upTo (qPosOffset + i)) q k v numQHeads numKvHeads headDim) ∧
      ∀ window, 0 < window → causalGqaAttentionSwaCached q k v numQHeads numKvHeads headDim qPosOffset window =
          .ok (gqa (fun i => lastUpTo window (qPosOffset + i)) q k v numQHeads numKvHeads headDim) ∧
        (k.nrows ≤ window → causalGqaAttentionSwaCached q k v numQHeads numKvHeads headDim qPosOffset window =
          causalGqaAttentionCached q k v numQHeads numKvHeads headDim qPosOffset)) ∧
    ∀ (q : Array2 F) (hidden : Nat → Nat → Bool) (order : List Nat), order.Perm (List.range (chunkCount (numQHeads * headDim) headDim)) →
      parallelHeads order q.nrows numQHeads headDim (perHead q k v numQHeads numKvHeads headDim hidden) =
          attendHeads q k v numQHeads numKvHeads headDim hidden ∧
        serialHeads q.nrows numQHeads headDim (perHead q k v numQHeads numKvHeads headDim hidden) =
          attendHeads q k v numQHeads numKvHeads headDim hidden := by
  have grouped : groupedHeads numQHeads numKvHeads = .ok () :=
    except_bind_ok.mpr ⟨(),if_pos more,except_bind_ok.mpr ⟨(),if_pos some_.ne',if_pos integral⟩⟩
  refine ⟨fun q queries square => ⟨_,causalGqaAttention_exact positive grouped tall keys values queries square,fun nQ short => ?_⟩,
    fun q qPosOffset queries room => ⟨causalGqaAttentionCached_exact positive grouped tall keys values queries room,fun window shows => ?_⟩,
    fun q hidden order all => attendHeads_paths wide tall hidden all⟩
  · have rows : (q.rows (k.nrows - nQ) k.nrows).nrows + (k.nrows - nQ) ≤ k.nrows := by
      show k.nrows - (k.nrows - nQ) + (k.nrows - nQ) ≤ k.nrows
      omega
    rw [causalGqaAttentionCached_exact positive grouped tall keys values (q:=q.rows (k.nrows - nQ) k.nrows) queries rows]
    exact congrArg Except.ok (gqa_rows (Nat.le_of_eq square.symm))
  · have windowed := causalGqaAttentionSwaCached_exact positive grouped tall keys values queries room shows
    refine ⟨windowed,fun wider => ?_⟩
    have same : gqa (fun i => lastUpTo window (qPosOffset + i)) q k v numQHeads numKvHeads headDim =
        gqa (fun i => upTo (qPosOffset + i)) q k v numQHeads numKvHeads headDim := by
      refine congrArg (Array2.beside q.nrows headDim) (List.map_congr_left fun qh _ => gqaHead_congr (fun i row => ?_) _ _ _)
      refine Finset.filter_true_of_mem fun j member => ?_
      have inside := Finset.mem_range.mp member
      omega
    rw [windowed,same,causalGqaAttentionCached_exact positive grouped tall keys values queries room]

end Kernels

section Counted
local instance countedPlatform : Platform ℚ :=
  ⟨fun _ _ _ => 0,fun _ _ count => List.replicate count 0,id,id,fun _ _ => (fun _ => 0,0),fun _ _ => (fun _ => 0,16),
    fun _ _ => (fun _ => 1,1),fun _ _ _ => 0⟩
local instance counted : Exponential ℚ := ⟨fun x => if x < 0 then 1 else 3⟩

-- Two heads on one of keys, three rows: the last two of them, and a window of two.
theorem cached_attention_exact_three_rows :
    (∃ full, causalGqaAttention (of 3 2 fun i j => ((i + j : Nat) : ℚ)) (of 3 1 fun i _ => (i : ℚ)) (of 3 1 fun i _ => (i + 5 : ℚ)) 2 1 1 = .ok full ∧
      ∀ nQ ≤ 3, causalGqaAttentionCached ((of 3 2 fun i j => ((i + j : Nat) : ℚ)).rows (3 - nQ) 3) (of 3 1 fun i _ => (i : ℚ))
        (of 3 1 fun i _ => (i + 5 : ℚ)) 2 1 1 (3 - nQ) = .ok (full.rows (3 - nQ) 3)) ∧
      causalGqaAttentionSwaCached (of 1 2 fun _ j => (j : ℚ)) (of 3 1 fun i _ => (i : ℚ)) (of 3 1 fun i _ => (i + 5 : ℚ)) 2 1 1 2 2 =
        .ok (gqa (fun i => lastUpTo 2 (2 + i)) (of 1 2 fun _ j => (j : ℚ)) (of 3 1 fun i _ => (i : ℚ)) (of 3 1 fun i _ => (i + 5 : ℚ)) 2 1 1) := by
  have positive (y : ℚ) : 0 < Exponential.exp y := by
    show (0 : ℚ) < if y < 0 then 1 else 3
    split <;> norm_num
  obtain ⟨suffix,windows,_⟩ := @cached_attention_exact ℚ _ _ _ _ _ (of 3 1 fun i _ => (i : ℚ)) (of 3 1 fun i _ => (i + 5 : ℚ)) 2 1 1
    positive (by decide) rfl rfl rfl (by decide) (by decide) (by decide)
  exact ⟨suffix _ rfl rfl,((windows (of 1 2 fun _ j => (j : ℚ)) 2 rfl (by decide)).2 2 (by decide)).1⟩

end Counted
end Embedder
