import GeloLightrag.Embedder.KvRows

namespace Embedder
open Foundation

section
variable {F : Type} [KvScalar F] {batchSize cap kvDim : Nat} {shared : List Bool} {log : RowLog F} {cache next : KvCache F}

theorem run_holds (holds : Holds batchSize cap kvDim shared log cache) {ops : List (KvOp F)}
    (ran : run KvCache.step cache ops = some (replies,next)) (done : ∀ reply ∈ replies, reply = .done) :
    Holds batchSize cap kvDim shared (logOf batchSize log ops) next := by
  induction ops generalizing cache log replies with
  | nil =>
      cases ran
      exact holds
  | cons op rest ih =>
      simp only [run,Option.bind_eq_bind,Option.bind_eq_some_iff,Prod.exists] at ran
      obtain ⟨reply,middle,stepped,later,last,ran,final⟩ := ran
      cases final
      have fine := done reply List.mem_cons_self
      subst fine
      exact ih (perform_holds holds op (step_done stepped)) ran fun other member => done other (List.mem_cons_of_mem _ member)

theorem new_holds (made : KvCache.newWithSharingBatched batchSize numLayers cap kvDim shared = .ok cache) :
    Holds batchSize cap kvDim shared (.empty : RowLog F) cache ∧ shared.length = numLayers := by
  unfold KvCache.newWithSharingBatched at made
  split at made
  · cases made
    refine ⟨⟨rfl,rfl,rfl,by simp,fun li layer at_ => ?_⟩,‹_›⟩
    rw [List.getElem?_map] at at_
    obtain ⟨tied,listed,rfl⟩ := Option.map_eq_some_iff.mp at_
    have mask : shared.getD li false = tied := by rw [List.getD_eq_getElem?_getD,listed]; rfl
    have cleared : ∀ b, LayerKvCache.lenB (LayerKvCache.new tied batchSize cap kvDim : LayerKvCache F) b = 0 := by
      intro b
      simp only [LayerKvCache.lenB,LayerKvCache.new,List.getD_eq_getElem?_getD,List.getElem?_replicate]
      split <;> rfl
    have blank : Shaped batchSize cap kvDim (Array3.zeros batchSize cap kvDim : Array3 F) := ⟨rfl,rfl,rfl⟩
    rw [mask]
    refine ⟨List.length_replicate,fun b _ => by rw [cleared]; exact Nat.zero_le _,?_⟩
    cases tied with
    | false => exact ⟨rfl,.none blank cleared,.none blank cleared⟩
    | true => exact ⟨rfl,.none blank cleared,fun _ _ => .nil⟩
  · cases made

-- What the views show.
theorem Holds.view (holds : Holds batchSize cap kvDim shared log cache) (at_ : li < shared.length) (inside : b < batchSize) :
    ∃ k v, cache.viewB li b = .ok (k,v) ∧ k.rowList = log.k li b ∧ k.ncols = kvDim ∧ v.ncols = kvDim ∧
      v.rowList = (if shared.getD li false then log.k li b else log.v li b) ∧
      (shared.getD li false = true → NearRows (log.k li b) (log.v li b)) := by
  have there : li < cache.layers.length := by rw [holds.count]; exact at_
  have found := List.getElem?_eq_getElem there
  obtain ⟨counted,bounded,stored⟩ := holds.layer li _ found
  have view : cache.viewB li b = .ok ((cache.layers[li]).viewB b) := by
    unfold KvCache.viewB
    rw [found]
    exact if_pos (by rw [holds.batch]; exact inside)
  unfold LayerKvCache.viewB at view
  cases kept : (cache.layers[li]).storage with
  | separate ks vs =>
      rw [kept] at stored view
      obtain ⟨tied,keys,values⟩ := stored
      refine ⟨_,_,view,keys.shown b inside,keys.shaped.cols,values.shaped.cols,?_,fun is => absurd is (by simp only [tied,Bool.false_eq_true,not_false_eq_true])⟩
      simp only [tied,Bool.false_eq_true,if_false]
      exact values.shown b inside
  | shared kv =>
      rw [kept] at stored view
      obtain ⟨tied,keys,near⟩ := stored
      refine ⟨_,_,view,keys.shown b inside,keys.shaped.cols,keys.shaped.cols,?_,fun _ => near b inside⟩
      simp only [tied,if_true]
      exact keys.shown b inside

theorem untouched (op : KvOp F) (apart : ¬op.Touches li b) (batchSize : Nat) :
    (op.meaning batchSize log).k li b = log.k li b ∧ (op.meaning batchSize log).v li b = log.v li b := by
  cases op with
  | appendPrefill li' b' newK newV =>
      have other : ¬(li = li' ∧ b ∈ [b']) := fun ⟨layer,member⟩ => apart ⟨layer.symm,(List.mem_singleton.mp member).symm⟩
      exact ⟨if_neg other,if_neg other⟩
  | appendDecode li' newK newV =>
      have other : ¬(li = li' ∧ b ∈ List.range batchSize) := fun ⟨layer,_⟩ => apart layer.symm
      exact ⟨if_neg other,if_neg other⟩
  | reset => exact absurd trivial apart

theorem tied_log {ops : List (KvOp F)} (tied : ∀ op ∈ ops, op.Tied) (now : log.k = log.v) :
    (logOf batchSize log ops).k = (logOf batchSize log ops).v := by
  induction ops generalizing log with
  | nil => exact now
  | cons op rest ih =>
      refine ih (fun other member => tied other (List.mem_cons_of_mem _ member)) ?_
      have here := tied op List.mem_cons_self
      cases op with
      | appendPrefill li b newK newV => simp only [KvOp.meaning,now,here.1]
      | appendDecode li newK newV => simp only [KvOp.meaning,now,here.1]
      | reset => rfl

-- A layer of the shared kind beside one of the separate kind with the same rows as
-- K and as V.
structure LayerTwins (c d : LayerKvCache F) : Prop where
  lens : c.lens = d.lens
  stored : ∃ kv, (c.storage = .shared kv ∨ c.storage = .separate kv kv) ∧ d.storage = .separate kv kv

theorem LayerTwins.viewB {c d : LayerKvCache F} (twins : LayerTwins c d) (b : Nat) : c.viewB b = d.viewB b := by
  obtain ⟨lens,kv,kept,kept'⟩ := twins
  unfold LayerKvCache.viewB LayerKvCache.lenB
  rcases kept with kept | kept <;> simp only [kept,kept',lens]

theorem LayerTwins.put {c d : LayerKvCache F} (twins : LayerTwins c d) (b : Nat) (rows : Array2 F) (text : String) :
    ∃ c' d', KvCache.put c b rows rows true text = .ok c' ∧ KvCache.put d b rows rows true text = .ok d' ∧ LayerTwins c' d' := by
  obtain ⟨lens,kv,kept,kept'⟩ := twins
  have cursor : c.lenB b = d.lenB b := by unfold LayerKvCache.lenB; rw [lens]
  unfold KvCache.put
  rw [kept']
  rcases kept with kept | kept
  · rw [kept]
    exact ⟨_,_,rfl,rfl,by rw [lens,cursor],_,.inl (by rw [cursor]),rfl⟩
  · rw [kept]
    exact ⟨_,_,rfl,rfl,by rw [lens,cursor],_,.inr (by rw [cursor]),rfl⟩

def Twins (c d : KvCache F) : Prop :=
  ∃ layers, d = {c with layers:=layers} ∧ List.Forall₂ LayerTwins c.layers layers

theorem Twins.layer (twins : Twins c d) (li : Nat) : (c.layers[li]? = none ∧ d.layers[li]? = none) ∨
    ∃ x y : LayerKvCache F, c.layers[li]? = some x ∧ d.layers[li]? = some y ∧ LayerTwins x y := by
  obtain ⟨layers,rfl,each⟩ := twins
  have here := List.forall₂_iff_get.mp each
  by_cases listed : li < c.layers.length
  · have listed' : li < layers.length := by rw [←here.1]; exact listed
    exact .inr ⟨_,_,List.getElem?_eq_getElem listed,List.getElem?_eq_getElem listed',here.2 li listed listed'⟩
  · refine .inl ⟨List.getElem?_eq_none (Nat.not_lt.mp listed),List.getElem?_eq_none ?_⟩
    rw [←here.1]
    exact Nat.not_lt.mp listed

theorem Twins.view {c d : KvCache F} (twins : Twins c d) (li b : Nat) : c.viewB li b = d.viewB li b := by
  unfold KvCache.viewB
  rcases twins.layer li with ⟨none,none'⟩ | ⟨x,y,found,found',alike⟩
  · rw [none,none']
  · obtain ⟨layers,rfl,each⟩ := twins
    rw [found,found']
    simp only [alike.viewB]

theorem Twins.set {c d : KvCache F} {x y : LayerKvCache F} (twins : Twins c d) (li : Nat) (alike : LayerTwins x y) :
    Twins {c with layers:=c.layers.set li x} {d with layers:=d.layers.set li y} := by
  obtain ⟨layers,rfl,each⟩ := twins
  refine ⟨_,rfl,?_⟩
  have here := List.forall₂_iff_get.mp each
  refine List.forall₂_iff_get.mpr ⟨by simpa using here.1,fun i listed listed' => ?_⟩
  simp only [List.get_eq_getElem,List.getElem_set]
  split
  · exact alike
  · exact here.2 i (by simpa using listed) (by simpa using listed')

theorem Twins.reset {c d : KvCache F} (twins : Twins c d) :
    Twins {c with layers:=c.layers.map fun layer => {layer with lens:=layer.lens.map fun _ => 0}}
      {d with layers:=d.layers.map fun layer => {layer with lens:=layer.lens.map fun _ => 0}} := by
  obtain ⟨layers,rfl,each⟩ := twins
  refine ⟨_,rfl,?_⟩
  rw [List.forall₂_map_left_iff,List.forall₂_map_right_iff]
  exact each.imp fun x y alike => ⟨by rw [alike.lens],alike.stored⟩

omit [KvScalar F] in
theorem demand_agrees {α : Type} {p : Prop} [Decidable p] {text : String} {f g : Unit → KvM F α} (now : Twins c d)
    (rest : p → Agrees Twins (f ()) c (g ()) d) :
    Agrees Twins (KvCache.demand p text >>= f) c (KvCache.demand p text >>= g) d := by
  unfold KvCache.demand
  by_cases met : p
  · simp only [if_pos met]
    exact .after (pure_run () c) (pure_run () d) (rest met)
  · simp only [if_neg met]
    exact .error (bind_error (throw_run _ c)) (bind_error (throw_run _ d)) now

theorem layerAt_none (missing : cache.layers[li]? = none) : (KvCache.layerAt li : KvM F _) cache =
    .error (.error s!"KvCache layer index {li} out of range") cache := by
  unfold KvCache.layerAt
  rw [bind_ok (get_run cache),missing]
  rfl

theorem layerAt_some (found : cache.layers[li]? = some layer) : (KvCache.layerAt li : KvM F _) cache = .ok layer cache := by
  unfold KvCache.layerAt
  rw [bind_ok (get_run cache),found]
  rfl

theorem layerAt_agrees {α : Type} {f g : LayerKvCache F → KvM F α} (now : Twins c d)
    (rest : ∀ x y, LayerTwins x y → Agrees Twins (f x) c (g y) d) :
    Agrees Twins (KvCache.layerAt li >>= f) c (KvCache.layerAt li >>= g) d := by
  rcases now.layer li with ⟨none,none'⟩ | ⟨x,y,found,found',alike⟩
  · exact .error (bind_error (layerAt_none none)) (bind_error (layerAt_none none')) now
  · exact .after (layerAt_some found) (layerAt_some found') (rest x y alike)

-- The rows written and the layer put back.
theorem put_agrees {α : Type} {c d : KvCache F} {x y : LayerKvCache F} {rest rest' : KvM F α} (now : Twins c d) (alike : LayerTwins x y)
    (li b : Nat) (rows : Array2 F) (text : String)
    (later : ∀ c' d', Twins c' d' → Agrees Twins rest c' rest' d') :
    Agrees Twins (KvCache.checked (KvCache.put x b rows rows true text) >>= fun grown => KvCache.setLayer li grown >>= fun _ => rest) c
      (KvCache.checked (KvCache.put y b rows rows true text) >>= fun grown => KvCache.setLayer li grown >>= fun _ => rest') d := by
  obtain ⟨x',y',made,made',alike'⟩ := alike.put b rows text
  rw [made,made']
  exact .after (pure_run x' c) (pure_run y' d) (.after (modify_run _ c) (modify_run _ d) (later _ _ (now.set li alike')))

theorem appendPrefill_agrees (now : Twins c d) (equal : arraysEqual rows rows = true) (li b : Nat) :
    Agrees Twins (KvCache.appendPrefill (F:=F) li b rows rows) c (KvCache.appendPrefill li b rows rows) d := by
  unfold KvCache.appendPrefill
  refine .after (get_run c) (get_run d) (layerAt_agrees now fun x y alike => ?_)
  obtain ⟨layers,rfl,_⟩ := id now
  have cursor : y.lenB b = x.lenB b := by unfold LayerKvCache.lenB; rw [alike.lens]
  dsimp only
  rw [cursor,equal]
  refine demand_agrees now fun _ => demand_agrees now fun _ => demand_agrees now fun _ => demand_agrees now fun _ =>
    demand_agrees now fun _ => ?_
  exact put_agrees now alike li b rows _ fun _ _ then_ => .pure () then_

theorem appendRows_agrees (close : ∀ kvDim b, rowsClose (F:=F) kvDim rows rows b = true) (li : Nat) (targets : List Nat) (now : Twins c d) :
    Agrees Twins (KvCache.appendRows li rows rows targets) c (KvCache.appendRows li rows rows targets) d := by
  induction targets generalizing c d with
  | nil => exact .pure () now
  | cons b rest ih =>
      unfold KvCache.appendRows
      refine .after (get_run c) (get_run d) (layerAt_agrees now fun x y alike => ?_)
      obtain ⟨layers,rfl,_⟩ := id now
      have cursor : y.lenB b = x.lenB b := by unfold LayerKvCache.lenB; rw [alike.lens]
      dsimp only
      rw [cursor,close]
      exact demand_agrees now fun _ => put_agrees now alike li b (oneRow rows b) _ fun c' d' then_ => ih then_

theorem appendDecode_agrees (now : Twins c d) (close : ∀ kvDim b, rowsClose (F:=F) kvDim rows rows b = true) (li : Nat) :
    Agrees Twins (KvCache.appendDecode li rows rows) c (KvCache.appendDecode li rows rows) d := by
  unfold KvCache.appendDecode
  refine .after (get_run c) (get_run d) (layerAt_agrees now fun x y alike => ?_)
  obtain ⟨layers,rfl,_⟩ := id now
  refine demand_agrees now fun _ => demand_agrees now fun _ => demand_agrees now fun _ => demand_agrees now fun _ => ?_
  exact appendRows_agrees close li _ now

theorem step_in_step {c d : KvCache F} (op : KvOp F) (tied : op.Tied) (now : Twins c d) :
    InStep Twins (KvCache.step c op) (KvCache.step d op) := by
  have performs : Agrees Twins (KvCache.perform op) c (KvCache.perform op) d := by
    cases op with
    | appendPrefill li b newK newV =>
        obtain ⟨rfl,equal⟩ := tied
        exact appendPrefill_agrees now equal li b
    | appendDecode li newK newV =>
        obtain ⟨rfl,close⟩ := tied
        exact appendDecode_agrees now close li
    | reset => exact .ok (modify_run _ c) (modify_run _ d) now.reset
  unfold KvCache.step
  unfold Agrees at performs
  split at performs
  · rename_i ran ran'
    rw [ran,ran']
    exact ⟨rfl,performs.2⟩
  · rename_i e _ e' _ ran ran'
    rw [ran,ran']
    obtain ⟨rfl,after⟩ := performs
    cases e with
    | error text => exact ⟨rfl,after⟩
    | panic text => trivial
  · exact performs.elim

theorem new_twins (shared : List Bool) (batchSize cap kvDim : Nat) :
    Twins (F:=F) ⟨shared.map fun tied => .new tied batchSize cap kvDim,cap,kvDim,batchSize⟩
      (KvCache.newBatched batchSize shared.length cap kvDim) := by
  refine ⟨_,rfl,?_⟩
  rw [←List.map_const',List.forall₂_map_left_iff,List.forall₂_map_right_iff,List.forall₂_same]
  intro tied _
  refine ⟨rfl,.zeros batchSize cap kvDim,?_,rfl⟩
  cases tied with
  | false => exact .inr rfl
  | true => exact .inl rfl

end

-- Exact numbers, compared as the assertions compare.
@[reducible] def exactScalar : KvScalar Rat where
  zero := Rat.ofInt 0
  eq := fun x y => decide (x = y)
  close := fun x y => decide ((x.sub y).num.natAbs * 1000000000 < (x.sub y).den)

def cellOf (x : Rat) : @Array2 Rat exactScalar.toZero := @Array2.of Rat exactScalar.toZero 1 1 fun _ _ => x

def tiedAppends : List (@KvOp Rat exactScalar.toZero) :=
  [.appendPrefill 0 0 (cellOf (.ofInt 0)) (cellOf (.ofInt 0)),.appendDecode 0 (cellOf (.ofInt 1)) (cellOf (.ofInt 1)),
    .appendPrefill 1 0 (cellOf (.ofInt 0)) (cellOf (.ofInt 1))]

end Embedder
