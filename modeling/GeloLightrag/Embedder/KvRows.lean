import GeloLightrag.Embedder.KvCache
import GeloLightrag.Foundation.Agreement
import Mathlib.Data.List.Forall2

namespace Embedder
open Foundation

-- What the cache is for: the rows each layer has been given for each sequence.
structure RowLog (F : Type) where
  k : Nat → Nat → List (List F)
  v : Nat → Nat → List (List F)

section
variable {F : Type} [KvScalar F]

def RowLog.empty : RowLog F := ⟨fun _ _ => [],fun _ _ => []⟩

def appendedRows (rows : Nat → Nat → List (List F)) (li : Nat) (targets : List Nat) (new : Nat → List (List F)) :
    Nat → Nat → List (List F) :=
  fun li' b => if li' = li ∧ b ∈ targets then rows li' b ++ new b else rows li' b

def KvOp.meaning (batchSize : Nat) (log : RowLog F) : KvOp F → RowLog F
  | .appendPrefill li b newK newV =>
    ⟨appendedRows log.k li [b] fun _ => newK.rowList,appendedRows log.v li [b] fun _ => newV.rowList⟩
  | .appendDecode li newK newV =>
    ⟨appendedRows log.k li (List.range batchSize) fun b => [newK.row b],
      appendedRows log.v li (List.range batchSize) fun b => [newV.row b]⟩
  | .reset => .empty

def logOf (batchSize : Nat) (log : RowLog F) (ops : List (KvOp F)) : RowLog F := ops.foldl (KvOp.meaning batchSize) log

def KvOp.Touches (li b : Nat) : KvOp F → Prop
  | .appendPrefill li' b' _ _ => li' = li ∧ b' = b
  | .appendDecode li' _ _ => li' = li
  | .reset => True

-- What a shared layer's debug assertions let through: K and V rows that differ by
-- less than the bound of the one or are equal in the sense of the other.
def Near (x y : F) : Prop := KvScalar.eq x y = true ∨ KvScalar.close x y = true

def NearRows (k v : List (List F)) : Prop := List.Forall₂ (List.Forall₂ Near) k v

-- An append of one matrix as K and as V, which the assertions cannot tell apart.
def KvOp.Tied : KvOp F → Prop
  | .appendPrefill _ _ newK newV => newK = newV ∧ arraysEqual newK newV = true
  | .appendDecode _ newK newV => newK = newV ∧ ∀ kvDim b, rowsClose kvDim newK newV b = true
  | .reset => True

structure Shaped (batchSize cap kvDim : Nat) (store : Array3 F) : Prop where
  planes : store.planes = batchSize
  rows : store.rows = cap
  cols : store.cols = kvDim

theorem Shaped.assign {store : Array3 F} (shaped : Shaped batchSize cap kvDim store) (b lo : Nat) (source : Array2 F) :
    Shaped batchSize cap kvDim (store.assign b lo source) := ⟨shaped.planes,shaped.rows,shaped.cols⟩

-- One buffer against the rows of each sequence.
structure Stores (batchSize cap kvDim : Nat) (lens : Nat → Nat) (rows : Nat → List (List F)) (store : Array3 F) : Prop where
  shaped : Shaped batchSize cap kvDim store
  shown : ∀ b < batchSize, store.shown b (lens b) = rows b

variable {batchSize cap kvDim : Nat} {lens : Nat → Nat} {rows : Nat → List (List F)} {store : Array3 F}

theorem Stores.put (stores : Stores batchSize cap kvDim lens rows store) (bounded : ∀ b < batchSize, lens b ≤ cap)
    (inside : b < batchSize) (source : Array2 F) (wide : source.ncols = kvDim) (room : lens b + source.nrows ≤ cap) :
    Stores batchSize cap kvDim (Function.update lens b (lens b + source.nrows)) (Function.update rows b (rows b ++ source.rowList))
      (store.assign b (lens b) source) := by
  obtain ⟨shaped,shown⟩ := stores
  refine ⟨shaped.assign _ _ _,fun b' inside' => ?_⟩
  by_cases same : b' = b
  · subst same
    simp only [Function.update_self]
    rw [Array3.shown_assign (by rw [shaped.planes]; exact inside') (by rw [shaped.rows]; exact room)
      (by rw [shaped.cols]; exact wide),shown b' inside']
  · simp only [Function.update_of_ne same]
    rw [Array3.shown_elsewhere same (by rw [shaped.planes]; exact inside') (by rw [shaped.rows]; exact bounded b' inside')]
    exact shown b' inside'

-- One layer; a shared one keeps the K rows only.
structure LayerHolds (batchSize cap kvDim : Nat) (tied : Bool) (k v : Nat → List (List F)) (layer : LayerKvCache F) : Prop where
  counted : layer.lens.length = batchSize
  bounded : ∀ b < batchSize, layer.lenB b ≤ cap
  stored : match layer.storage with
    | .separate ks vs => tied = false ∧ Stores batchSize cap kvDim layer.lenB k ks ∧ Stores batchSize cap kvDim layer.lenB v vs
    | .shared kv => tied = true ∧ Stores batchSize cap kvDim layer.lenB k kv ∧ ∀ b < batchSize, NearRows (k b) (v b)

variable {tied : Bool} {k v : Nat → List (List F)} {layer grown : LayerKvCache F}

theorem lenB_set (inside : b < layer.lens.length) (value : Nat) (store : LayerKvStore F) :
    LayerKvCache.lenB ⟨store,layer.lens.set b value⟩ = Function.update layer.lenB b value := by
  funext b'
  unfold LayerKvCache.lenB
  by_cases same : b' = b
  · subst same
    simp [List.getD_eq_getElem?_getD,inside]
  · simp [List.getD_eq_getElem?_getD,List.getElem?_set,Ne.symm same,Function.update_of_ne same]

theorem put_holds (holds : LayerHolds batchSize cap kvDim tied k v layer) (inside : b < batchSize) {newK newV : Array2 F}
    (wideK : newK.ncols = kvDim) (wideV : newV.ncols = kvDim) (equal : newV.nrows = newK.nrows) (room : layer.lenB b + newK.nrows ≤ cap)
    (near : equal_ = true → NearRows newK.rowList newV.rowList) (written : KvCache.put layer b newK newV equal_ text = .ok grown) :
    LayerHolds batchSize cap kvDim tied (Function.update k b (k b ++ newK.rowList)) (Function.update v b (v b ++ newV.rowList)) grown ∧
      grown.lenB = Function.update layer.lenB b (layer.lenB b + newK.nrows) := by
  obtain ⟨counted,bounded,stored⟩ := holds
  have here : b < layer.lens.length := by rw [counted]; exact inside
  have grows : ∀ b' < batchSize, Function.update layer.lenB b (layer.lenB b + newK.nrows) b' ≤ cap := by
    intro b' inside'
    by_cases same : b' = b
    · rw [same,Function.update_self]; exact room
    · rw [Function.update_of_ne same]; exact bounded b' inside'
  unfold KvCache.put at written
  cases at_ : layer.storage with
  | separate ks vs =>
      rw [at_] at stored written
      cases written
      have cursor := lenB_set here (layer.lenB b + newK.nrows) (.separate (ks.assign b (layer.lenB b) newK) (vs.assign b (layer.lenB b) newV))
      refine ⟨⟨by rw [List.length_set]; exact counted,by rw [cursor]; exact grows,stored.1,?_,?_⟩,cursor⟩
      · rw [cursor]
        exact stored.2.1.put bounded inside newK wideK room
      · rw [cursor]
        have later := stored.2.2.put bounded inside newV wideV (by rw [equal]; exact room)
        rwa [equal] at later
  | shared kv =>
      rw [at_] at stored written
      cases equal_ with
      | false => cases written
      | true =>
          cases written
          have cursor := lenB_set here (layer.lenB b + newK.nrows) (.shared (kv.assign b (layer.lenB b) newK))
          refine ⟨⟨by rw [List.length_set]; exact counted,by rw [cursor]; exact grows,stored.1,?_,?_⟩,cursor⟩
          · rw [cursor]
            exact stored.2.1.put bounded inside newK wideK room
          · intro b' inside'
            by_cases same : b' = b
            · subst same
              simp only [Function.update_self]
              exact List.rel_append (stored.2.2 b' inside') (near rfl)
            · simp only [Function.update_of_ne same]
              exact stored.2.2 b' inside'

-- The whole cache against the log.
structure Holds (batchSize cap kvDim : Nat) (shared : List Bool) (log : RowLog F) (cache : KvCache F) : Prop where
  batch : cache.batchSize = batchSize
  capacity : cache.maxCacheLen = cap
  width : cache.kvDim = kvDim
  count : cache.layers.length = shared.length
  layer : ∀ li layer, cache.layers[li]? = some layer →
    LayerHolds batchSize cap kvDim (shared.getD li false) (log.k li) (log.v li) layer

variable {shared : List Bool} {log : RowLog F} {cache next : KvCache F}

theorem Holds.set (holds : Holds batchSize cap kvDim shared log cache) {log' : RowLog F}
    (others : ∀ li', li' ≠ li → log'.k li' = log.k li' ∧ log'.v li' = log.v li')
    (new : LayerHolds batchSize cap kvDim (shared.getD li false) (log'.k li) (log'.v li) grown) :
    Holds batchSize cap kvDim shared log' {cache with layers:=cache.layers.set li grown} := by
  refine ⟨holds.batch,holds.capacity,holds.width,by simpa using holds.count,fun li' layer at_ => ?_⟩
  by_cases same : li' = li
  · subst same
    rw [List.getElem?_set] at at_
    simp only [if_true] at at_
    split at at_
    · cases at_
      exact new
    · cases at_
  · rw [(others li' same).1,(others li' same).2]
    refine holds.layer li' layer ?_
    rwa [List.getElem?_set_ne (Ne.symm same)] at at_

theorem demand_then {α : Type} {p : Prop} [Decidable p] {text : String} {rest : Unit → KvM F α} {a : α}
    (ran : (KvCache.demand p text >>= rest) cache = .ok a next) : p ∧ rest () cache = .ok a next := by
  obtain ⟨_,_,asked,ran⟩ := ok_of_bind ran
  unfold KvCache.demand at asked
  split at asked
  · cases asked
    exact ⟨‹_›,ran⟩
  · cases asked

theorem layerAt_then {α : Type} {rest : LayerKvCache F → KvM F α} {a : α}
    (ran : (KvCache.layerAt li >>= rest) cache = .ok a next) :
    ∃ layer, cache.layers[li]? = some layer ∧ rest layer cache = .ok a next := by
  obtain ⟨layer,_,read,ran⟩ := ok_of_bind ran
  unfold KvCache.layerAt at read
  rw [bind_ok (get_run cache)] at read
  cases found : cache.layers[li]? with
  | none => rw [found] at read; cases read
  | some layer =>
      rw [found] at read
      cases read
      exact ⟨layer,rfl,ran⟩

omit [KvScalar F] in
theorem checked_then {α β : Type} {x : Except KvFault α} {rest : α → KvM F β} {b : β}
    (ran : (KvCache.checked x >>= rest) cache = .ok b next) : ∃ a, x = .ok a ∧ rest a cache = .ok b next := by
  obtain ⟨a,_,read,ran⟩ := ok_of_bind ran
  cases x with
  | ok a =>
      cases read
      exact ⟨a,rfl,ran⟩
  | error e => cases read

theorem appendedRows_one (rows : Nat → Nat → List (List F)) (li b : Nat) (new : Nat → List (List F)) :
    appendedRows rows li [b] new li = Function.update (rows li) b (rows li b ++ new b) := by
  funext b'
  by_cases same : b' = b
  · subst same; simp [appendedRows]
  · simp [appendedRows,Function.update_of_ne same,same]

omit [KvScalar F] in
theorem appendedRows_other {rows : Nat → Nat → List (List F)} (other : li' ≠ li) : appendedRows rows li targets new li' = rows li' := by
  funext b
  simp [appendedRows,other]

omit [KvScalar F] in
theorem appendedRows_nil (rows : Nat → Nat → List (List F)) (li : Nat) (new : Nat → List (List F)) :
    appendedRows rows li [] new = rows := by
  funext li' b
  simp [appendedRows]

omit [KvScalar F] in
theorem appendedRows_cons {rows : Nat → Nat → List (List F)} (fresh : b ∉ rest) (same : first b = new b) :
    appendedRows (appendedRows rows li [b] first) li rest new = appendedRows rows li (b :: rest) new := by
  funext li' b'
  by_cases here : li' = li
  · by_cases at_ : b' = b
    · subst at_; simp [appendedRows,here,fresh,same]
    · simp [appendedRows,here,at_]
  · simp [appendedRows,here]

def RowLog.appended (log : RowLog F) (li : Nat) (targets : List Nat) (newK newV : Nat → List (List F)) : RowLog F :=
  ⟨appendedRows log.k li targets newK,appendedRows log.v li targets newV⟩

-- The rows of one sequence.
theorem Holds.put (holds : Holds batchSize cap kvDim shared log cache) (found : cache.layers[li]? = some layer)
    (inside : b < batchSize) (newK newV : Array2 F) (wideK : newK.ncols = kvDim) (wideV : newV.ncols = kvDim)
    (equal : newV.nrows = newK.nrows) (room : layer.lenB b + newK.nrows ≤ cap)
    (near : equal_ = true → NearRows newK.rowList newV.rowList) (written : KvCache.put layer b newK newV equal_ text = .ok grown) :
    Holds batchSize cap kvDim shared (log.appended li [b] (fun _ => newK.rowList) fun _ => newV.rowList)
      {cache with layers:=cache.layers.set li grown} := by
  refine holds.set (fun li' other => ⟨appendedRows_other other,appendedRows_other other⟩) ?_
  simp only [RowLog.appended,appendedRows_one]
  exact (put_holds (holds.layer li layer found) inside wideK wideV equal room near written).1

theorem near_of_equal {newK newV : Array2 F} (equal : arraysEqual newK newV = true) : NearRows newK.rowList newV.rowList := by
  simp only [arraysEqual,Bool.and_eq_true,decide_eq_true_eq,List.all_eq_true,List.mem_range] at equal
  obtain ⟨⟨rows,cols⟩,same⟩ := equal
  unfold NearRows Array2.rowList Array2.row
  rw [←rows,←cols,List.forall₂_map_left_iff,List.forall₂_map_right_iff,List.forall₂_same]
  intro i row
  rw [List.forall₂_map_left_iff,List.forall₂_map_right_iff,List.forall₂_same]
  exact fun d col => .inl (same i (List.mem_range.mp row) d (List.mem_range.mp col))

theorem oneRow_rowList (a : Array2 F) (b : Nat) : (oneRow a b).rowList = [a.row b] := by
  simp only [oneRow,Array2.rowList,Array2.row,Array2.of,List.range_one,List.map_cons,List.map_nil]
  refine congrArg (fun row => [row]) (List.map_congr_left fun d col => ?_)
  exact if_pos ⟨Nat.one_pos,List.mem_range.mp col⟩

theorem near_of_close {newK newV : Array2 F} (close : rowsClose kvDim newK newV b = true) (wideK : newK.ncols = kvDim)
    (wideV : newV.ncols = kvDim) : NearRows (oneRow newK b).rowList (oneRow newV b).rowList := by
  simp only [rowsClose,List.all_eq_true,List.mem_range] at close
  rw [oneRow_rowList,oneRow_rowList]
  unfold NearRows Array2.row
  rw [wideK,wideV,List.forall₂_cons,List.forall₂_map_left_iff,List.forall₂_map_right_iff,List.forall₂_same]
  exact ⟨fun d col => .inr (close d (List.mem_range.mp col)),.nil⟩

theorem appendPrefill_holds (holds : Holds batchSize cap kvDim shared log cache)
    (ran : KvCache.appendPrefill li b newK newV cache = .ok () next) :
    Holds batchSize cap kvDim shared (log.appended li [b] (fun _ => newK.rowList) fun _ => newV.rowList) next := by
  unfold KvCache.appendPrefill at ran
  rw [bind_ok (get_run cache)] at ran
  obtain ⟨layer,found,ran⟩ := layerAt_then ran
  obtain ⟨inside,ran⟩ := demand_then ran
  obtain ⟨equal,ran⟩ := demand_then ran
  obtain ⟨wideK,ran⟩ := demand_then ran
  obtain ⟨wideV,ran⟩ := demand_then ran
  obtain ⟨room,ran⟩ := demand_then ran
  obtain ⟨grown,written,ran⟩ := checked_then ran
  cases ran
  exact holds.put found (holds.batch ▸ inside) newK newV (holds.width ▸ wideK) (holds.width ▸ wideV) equal (holds.capacity ▸ room)
    near_of_equal written

-- Each turn of the loop finds the cache of the turns before it.
theorem appendRows_holds (holds : Holds batchSize cap kvDim shared log cache) (wideK : newK.ncols = kvDim)
    (wideV : newV.ncols = kvDim) (inside : ∀ b ∈ targets, b < batchSize) (apart : targets.Nodup)
    (ran : KvCache.appendRows li newK newV targets cache = .ok () next) :
    Holds batchSize cap kvDim shared (log.appended li targets (fun b => [newK.row b]) fun b => [newV.row b]) next := by
  induction targets generalizing cache log with
  | nil =>
      cases ran
      have nothing : log.appended li [] (fun b => [newK.row b]) (fun b => [newV.row b]) = log := by
        simp [RowLog.appended,appendedRows_nil]
      rw [nothing]
      exact holds
  | cons b rest ih =>
      unfold KvCache.appendRows at ran
      rw [bind_ok (get_run cache)] at ran
      obtain ⟨layer,found,ran⟩ := layerAt_then ran
      obtain ⟨room,ran⟩ := demand_then ran
      obtain ⟨grown,written,ran⟩ := checked_then ran
      rw [KvCache.setLayer,bind_ok (modify_run _ cache)] at ran
      obtain ⟨fresh,others⟩ := List.nodup_cons.mp apart
      have first := holds.put found (inside b List.mem_cons_self) (oneRow newK b) (oneRow newV b) wideK wideV rfl
        (holds.capacity ▸ room) (fun close => near_of_close close (wideK.trans holds.width.symm) (wideV.trans holds.width.symm)) written
      have last := ih first (fun b' member => inside b' (List.mem_cons_of_mem _ member)) others ran
      simp only [RowLog.appended,oneRow_rowList] at last ⊢
      rwa [appendedRows_cons fresh (by rfl),appendedRows_cons fresh (by rfl)] at last

theorem appendDecode_holds (holds : Holds batchSize cap kvDim shared log cache)
    (ran : KvCache.appendDecode li newK newV cache = .ok () next) :
    Holds batchSize cap kvDim shared
      (log.appended li (List.range batchSize) (fun b => [newK.row b]) fun b => [newV.row b]) next := by
  unfold KvCache.appendDecode at ran
  rw [bind_ok (get_run cache)] at ran
  obtain ⟨_,_,ran⟩ := layerAt_then ran
  obtain ⟨_,ran⟩ := demand_then ran
  obtain ⟨_,ran⟩ := demand_then ran
  obtain ⟨wideK,ran⟩ := demand_then ran
  obtain ⟨wideV,ran⟩ := demand_then ran
  rw [holds.batch] at ran
  exact appendRows_holds holds (holds.width ▸ wideK) (holds.width ▸ wideV) (fun b => List.mem_range.mp) List.nodup_range ran

omit [KvScalar F] in
theorem reset_lenB (layer : LayerKvCache F) (b : Nat) : LayerKvCache.lenB {layer with lens:=layer.lens.map fun _ => 0} b = 0 := by
  unfold LayerKvCache.lenB
  simp [List.getD_eq_getElem?_getD]

theorem Stores.none (shaped : Shaped batchSize cap kvDim store) (cleared : ∀ b, lens b = 0) :
    Stores batchSize cap kvDim lens (fun _ => []) store :=
  ⟨shaped,fun b _ => by rw [cleared,Array3.shown_eq]; rfl⟩

theorem reset_holds (holds : Holds batchSize cap kvDim shared log cache) (ran : KvCache.reset cache = .ok () next) :
    Holds batchSize cap kvDim shared .empty next := by
  cases ran
  refine ⟨holds.batch,holds.capacity,holds.width,by simpa using holds.count,fun li layer at_ => ?_⟩
  rw [List.getElem?_map] at at_
  obtain ⟨before,found,rfl⟩ := Option.map_eq_some_iff.mp at_
  obtain ⟨counted,_,stored⟩ := holds.layer li before found
  refine ⟨by simpa using counted,fun b _ => by rw [reset_lenB]; exact Nat.zero_le _,?_⟩
  cases kept : before.storage with
  | separate ks vs =>
      rw [kept] at stored
      exact ⟨stored.1,.none stored.2.1.shaped (reset_lenB before),.none stored.2.2.shaped (reset_lenB before)⟩
  | shared kv =>
      rw [kept] at stored
      exact ⟨stored.1,.none stored.2.1.shaped (reset_lenB before),fun _ _ => .nil⟩

theorem perform_holds (holds : Holds batchSize cap kvDim shared log cache) (op : KvOp F)
    (ran : KvCache.perform op cache = .ok () next) : Holds batchSize cap kvDim shared (op.meaning batchSize log) next := by
  cases op with
  | appendPrefill li b newK newV => exact appendPrefill_holds holds ran
  | appendDecode li newK newV => exact appendDecode_holds holds ran
  | reset => exact reset_holds holds ran

theorem step_done {op : KvOp F} (stepped : KvCache.step cache op = some (.done,next)) : KvCache.perform op cache = .ok () next := by
  unfold KvCache.step at stepped
  split at stepped
  · cases stepped; assumption
  · cases stepped
  · cases stepped

end
end Embedder
