import GeloLightrag.Embedder.KvRefinement

namespace Embedder
open Foundation

section
variable {F : Type} [KvScalar F]

-- What a caller sees of a cache: the views and the lengths.
def SeenAlike (c d : KvCache F) : Prop :=
  (∀ li b, c.viewB li b = d.viewB li b) ∧
    ∀ li b : Nat, c.layers[li]?.map (LayerKvCache.lenB · b) = d.layers[li]?.map (LayerKvCache.lenB · b)

def LayerKvCache.Full (layer : LayerKvCache F) (cap b : Nat) : Prop := ¬layer.lenB b + 1 ≤ cap

-- What the loop asserts of the rows of sequence b.
def LayerKvCache.Lets (layer : LayerKvCache F) (kvDim : Nat) (newK newV : Array2 F) (b : Nat) : Prop :=
  layer.isShared = false ∨ rowsClose kvDim newK newV b = true

def KvCache.Fits (cache : KvCache F) (newK newV : Array2 F) : Prop :=
  newK.nrows = cache.batchSize ∧ newV.nrows = cache.batchSize ∧ newK.ncols = cache.kvDim ∧ newV.ncols = cache.kvDim

-- A decode append stops at a full sequence, if it does, before it has written a row.
def KvOp.StopsClean (cache : KvCache F) : KvOp F → Prop
  | .appendDecode li newK newV => ∀ layer, cache.layers[li]? = some layer → cache.Fits newK newV →
    ∀ b < cache.batchSize, layer.Full cache.maxCacheLen b →
      (∀ earlier < b, ¬layer.Full cache.maxCacheLen earlier ∧ layer.Lets cache.kvDim newK newV earlier) → b = 0
  | _ => True

-- One length for each sequence of the batch.
def KvCache.Counted (cache : KvCache F) : Prop :=
  ∀ (li : Nat) (layer : LayerKvCache F), cache.layers[li]? = some layer → layer.lens.length = cache.batchSize

variable {cache : KvCache F} {layer grown : LayerKvCache F}

theorem put_lets (layer : LayerKvCache F) (b : Nat) (k v : Array2 F) (tied : Bool) (text : String) :
    (layer.isShared = true ∧ tied = false ∧ KvCache.put layer b k v tied text = .error (.panic text)) ∨
    (layer.isShared = false ∨ tied = true) ∧ ∃ grown, KvCache.put layer b k v tied text = .ok grown ∧
      grown.isShared = layer.isShared ∧ grown.lens = layer.lens.set b (layer.lenB b + k.nrows) := by
  unfold KvCache.put LayerKvCache.isShared
  cases layer.storage with
  | separate ks vs => exact .inr ⟨.inl rfl,_,rfl,rfl,rfl⟩
  | shared kv =>
    cases tied with
    | true => exact .inr ⟨.inr rfl,_,rfl,rfl,rfl⟩
    | false => exact .inl ⟨rfl,rfl,rfl⟩

theorem lenB_moved (inside : b < layer.lens.length) (moved : grown.lens = layer.lens.set b value) :
    grown.lenB = Function.update layer.lenB b value := by
  obtain ⟨storage,lens⟩ := grown
  cases moved
  exact lenB_set inside value storage

omit [KvScalar F] in
theorem KvCache.Counted.set (counted : cache.Counted) (found : cache.layers[li]? = some layer) (same : grown.lens.length = layer.lens.length) :
    KvCache.Counted {cache with layers:=cache.layers.set li grown} := by
  intro li' layer' at_
  by_cases here : li' = li
  · subst here
    rw [List.getElem?_set_self (List.getElem?_eq_some_iff.mp found).1] at at_
    cases at_
    exact same.trans (counted _ _ found)
  · rw [List.getElem?_set_ne (Ne.symm here)] at at_
    exact counted _ _ at_

omit [KvScalar F] in
theorem demand_met {α : Type} {p : Prop} [Decidable p] {text : String} {rest : Unit → KvM F α} (met : p) :
    (KvCache.demand p text >>= rest) cache = rest () cache := by
  unfold KvCache.demand
  rw [if_pos met]
  rfl

omit [KvScalar F] in
theorem demand_unmet {α : Type} {p : Prop} [Decidable p] {text : String} {rest : Unit → KvM F α} (unmet : ¬p) :
    (KvCache.demand p text >>= rest) cache = .error (.error text) cache := by
  unfold KvCache.demand
  rw [if_neg unmet]
  rfl

-- How the loop over the sequences ends, told on the lengths it started from.
inductive LoopEnd (newK newV : Array2 F) (layer : LayerKvCache F) (li : Nat) (targets : List Nat) (cache : KvCache F) :
    EStateM.Result KvFault (KvCache F) Unit → Prop
  | done {next : KvCache F} : (∀ b ∈ targets, ¬layer.Full cache.maxCacheLen b) → LoopEnd newK newV layer li targets cache (.ok () next)
  | asserted {next : KvCache F} : targets = l ++ b :: r → (∀ b ∈ l, ¬layer.Full cache.maxCacheLen b) → ¬layer.Full cache.maxCacheLen b →
      ¬layer.Lets cache.kvDim newK newV b → LoopEnd newK newV layer li targets cache (.error (.panic text) next)
  | full {next : KvCache F} : targets = l ++ b :: r → layer.Full cache.maxCacheLen b →
      (∀ b ∈ l, ¬layer.Full cache.maxCacheLen b ∧ layer.Lets cache.kvDim newK newV b) → (l = [] → next = cache) →
      (∃ later, next.layers[li]? = some later ∧ (∀ b ∈ l, later.lenB b = layer.lenB b + 1) ∧
        ∀ b ∉ l, later.lenB b = layer.lenB b) →
      LoopEnd newK newV layer li targets cache (.error (.error text) next)

theorem appendRows_ends (newK newV : Array2 F) (targets : List Nat) (found : cache.layers[li]? = some layer) (apart : targets.Nodup)
    (inside : ∀ b ∈ targets, b < layer.lens.length) :
    LoopEnd newK newV layer li targets cache (KvCache.appendRows li newK newV targets cache) := by
  induction targets generalizing cache layer with
  | nil => exact .done fun b member => absurd member List.not_mem_nil
  | cons b rest ih =>
    obtain ⟨fresh,others⟩ := List.nodup_cons.mp apart
    unfold KvCache.appendRows
    rw [bind_ok (get_run cache),bind_ok (layerAt_some found)]
    by_cases room : layer.lenB b + 1 ≤ cache.maxCacheLen
    · rw [demand_met room]
      rcases put_lets layer b (oneRow newK b) (oneRow newV b) (rowsClose cache.kvDim newK newV b)
        s!"KvCache: layer {li} is K=V shared but decode append got K != V at b={b}" with ⟨shared,apart_,stopped⟩ | ⟨lets,grown,written,kind,moved⟩
      · rw [stopped]
        refine .asserted (l:=[]) rfl (fun b member => absurd member List.not_mem_nil) (not_not.mpr room) fun lets => ?_
        rcases lets with separate | close
        · rw [shared] at separate; cases separate
        · rw [apart_] at close; cases close
      · have here := inside b List.mem_cons_self
        have cursor : grown.lenB = Function.update layer.lenB b (layer.lenB b + 1) := lenB_moved here moved
        have elsewhere {b' : Nat} (other : b' ≠ b) : grown.lenB b' = layer.lenB b' := by rw [cursor,Function.update_of_ne other]
        have rest_ {b' : Nat} (member : b' ∈ rest) : b' ≠ b := fun same => fresh (same ▸ member)
        have found' : ({cache with layers:=cache.layers.set li grown} : KvCache F).layers[li]? = some grown := List.getElem?_set_self (List.getElem?_eq_some_iff.mp found).1
        have later := ih found' others
          fun b' member => by rw [moved,List.length_set]; exact inside b' (List.mem_cons_of_mem _ member)
        have goes : (KvCache.checked (KvCache.put layer b (oneRow newK b) (oneRow newV b) (rowsClose cache.kvDim newK newV b)
            s!"KvCache: layer {li} is K=V shared but decode append got K != V at b={b}") >>= fun grown =>
              KvCache.setLayer li grown >>= fun _ => KvCache.appendRows li newK newV rest) cache =
            KvCache.appendRows li newK newV rest {cache with layers:=cache.layers.set li grown} := by
          rw [written]
          rfl
        rw [goes]
        have full {b' : Nat} (member : b' ∈ rest) : grown.Full cache.maxCacheLen b' ↔ layer.Full cache.maxCacheLen b' := by
          unfold LayerKvCache.Full
          rw [elsewhere (rest_ member)]
        have lets' (b' : Nat) : grown.Lets cache.kvDim newK newV b' ↔ layer.Lets cache.kvDim newK newV b' := by
          unfold LayerKvCache.Lets
          rw [kind]
        generalize KvCache.appendRows li newK newV rest {cache with layers:=cache.layers.set li grown} = ending at later ⊢
        cases later with
        | done none =>
          refine .done fun b' member => ?_
          rcases List.mem_cons.mp member with rfl | member
          · exact not_not.mpr room
          · exact fun is => none b' member ((full member).mpr is)
        | @asserted before p after _ _ split earlier open_ refused =>
          have member {b' : Nat} (listed : b' ∈ before ++ [p]) : b' ∈ rest := by
            rw [split,List.append_cons]
            exact List.mem_append_left _ listed
          refine .asserted (l:=b :: before) (by rw [split,List.cons_append]) (fun b' listed => ?_)
            (fun is => open_ ((full (member (by simp))).mpr is)) fun lets => refused ((lets' p).mpr lets)
          rcases List.mem_cons.mp listed with rfl | listed
          · exact not_not.mpr room
          · exact fun is => earlier b' listed ((full (member (List.mem_append_left _ listed))).mpr is)
        | @full before p after _ _ split stops earlier same lengths =>
          have member {b' : Nat} (listed : b' ∈ before ++ [p]) : b' ∈ rest := by
            rw [split,List.append_cons]
            exact List.mem_append_left _ listed
          obtain ⟨last,at_,grew,still⟩ := lengths
          refine .full (l:=b :: before) (by rw [split,List.cons_append]) ((full (member (by simp))).mp stops) (fun b' listed => ?_)
            (fun none => by cases none) ⟨last,at_,fun b' listed => ?_,fun b' unlisted => ?_⟩
          · rcases List.mem_cons.mp listed with rfl | listed
            · exact ⟨not_not.mpr room,lets⟩
            · obtain ⟨open_,lets_⟩ := earlier b' listed
              exact ⟨fun is => open_ ((full (member (List.mem_append_left _ listed))).mpr is),(lets' b').mp lets_⟩
          · rcases List.mem_cons.mp listed with rfl | listed
            · rw [still b' fun listed => fresh (member (List.mem_append_left _ listed)),cursor,Function.update_self]
            · rw [grew b' listed,elsewhere (rest_ (member (List.mem_append_left _ listed)))]
          · obtain ⟨other,unlisted⟩ := not_or.mp (List.mem_cons.not.mp unlisted)
            rw [still b' unlisted,elsewhere other]
    · rw [demand_unmet room]
      exact .full (l:=[]) rfl room (fun b member => absurd member List.not_mem_nil) (fun _ => rfl)
        ⟨layer,found,fun b member => absurd member List.not_mem_nil,fun _ _ => rfl⟩

abbrev KeepsCounted (x : KvM F Unit) (cache : KvCache F) : Prop := Ends x cache (fun _ next => next.Counted) fun _ next => next.Counted

theorem put_counted (counted : cache.Counted) (found : cache.layers[li]? = some layer) (b : Nat) (k v : Array2 F) (tied : Bool)
    (text : String) {x : KvM F Unit} (later : ∀ next : KvCache F, next.Counted → KeepsCounted x next) :
    KeepsCounted (KvCache.checked (KvCache.put layer b k v tied text) >>= fun grown => KvCache.setLayer li grown >>= fun _ => x) cache := by
  rcases put_lets layer b k v tied text with ⟨_,_,stopped⟩ | ⟨_,grown,written,_,moved⟩
  · rw [stopped]
    exact .error (bind_error (throw_run _ cache)) counted
  · rw [written]
    refine .after (pure_run grown cache) (.after (modify_run _ cache) (later _ ?_))
    exact counted.set found (by rw [moved,List.length_set])

omit [KvScalar F] in
theorem demand_ends {α : Type} {p : Prop} [Decidable p] {text : String} {rest : Unit → KvM F α} {done : α → KvCache F → Prop}
    {failed : KvFault → KvCache F → Prop} (now : ∀ e, failed e cache) (later : p → Ends (rest ()) cache done failed) :
    Ends (KvCache.demand p text >>= rest) cache done failed := by
  by_cases met : p
  · unfold KvCache.demand
    rw [if_pos met]
    exact .after (pure_run () cache) (later met)
  · exact .error (demand_unmet met) (now _)

theorem layerAt_ends {α : Type} {rest : LayerKvCache F → KvM F α} {done : α → KvCache F → Prop} {failed : KvFault → KvCache F → Prop}
    (now : ∀ e, failed e cache) (later : ∀ layer, cache.layers[li]? = some layer → Ends (rest layer) cache done failed) :
    Ends (KvCache.layerAt li >>= rest) cache done failed := by
  cases found : cache.layers[li]? with
  | none => exact .error (bind_error (layerAt_none found)) (now _)
  | some layer => exact .after (layerAt_some found) (later layer found)

theorem appendRows_counted (newK newV : Array2 F) (targets : List Nat) (counted : cache.Counted) :
    KeepsCounted (KvCache.appendRows li newK newV targets) cache := by
  induction targets generalizing cache with
  | nil => exact .ok (pure_run () cache) counted
  | cons b rest ih =>
    unfold KvCache.appendRows
    refine .after (get_run cache) (layerAt_ends (fun _ => counted) fun layer found => demand_ends (fun _ => counted) fun _ => ?_)
    exact put_counted counted found b _ _ _ _ fun next counted => ih counted

theorem perform_counted (counted : cache.Counted) (op : KvOp F) : KeepsCounted (KvCache.perform op) cache := by
  cases op with
  | appendPrefill li b newK newV =>
    refine .after (get_run cache) (layerAt_ends (fun _ => counted) fun layer found => demand_ends (fun _ => counted) fun _ =>
      demand_ends (fun _ => counted) fun _ => demand_ends (fun _ => counted) fun _ => demand_ends (fun _ => counted) fun _ => demand_ends (fun _ => counted) fun _ => ?_)
    have put := put_counted counted found b newK newV (arraysEqual newK newV) s!"KvCache: layer {li} is K=V shared but append got K != V"
      (x:=pure ()) fun next counted => .ok (pure_run () next) counted
    simpa using put
  | appendDecode li newK newV =>
    refine .after (get_run cache) (layerAt_ends (fun _ => counted) fun layer found => demand_ends (fun _ => counted) fun _ =>
      demand_ends (fun _ => counted) fun _ => demand_ends (fun _ => counted) fun _ => demand_ends (fun _ => counted) fun _ => ?_)
    exact appendRows_counted newK newV _ counted
  | reset =>
    refine .ok (modify_run _ cache) fun li layer at_ => ?_
    rw [List.getElem?_map] at at_
    obtain ⟨before,found,rfl⟩ := Option.map_eq_some_iff.mp at_
    exact (List.length_map _).trans (counted li before found)

theorem step_counted (s : KvCache F) (op : KvOp F) (reply : KvReply) (next : KvCache F) (counted : s.Counted)
    (stepped : KvCache.step s op = some (reply,next)) : next.Counted := by
  have ends := perform_counted counted op
  unfold KvCache.step at stepped
  split at stepped
  · cases stepped
    exact ends.at_ok ‹_›
  · cases stepped
    exact ends.at_error ‹_›
  · cases stepped

theorem new_counted (made : KvCache.newWithSharingBatched (F:=F) batchSize numLayers cap kvDim shared = .ok cache) : cache.Counted := by
  obtain ⟨holds,_⟩ := new_holds made
  exact fun li layer found => (holds.layer li layer found).counted.trans holds.batch.symm

-- A prefill append that fails has written nothing.
theorem appendPrefill_fails {next : KvCache F} (ran : KvCache.appendPrefill li b newK newV cache = .error (.error text) next) : next = cache := by
  have ends : Ends (KvCache.appendPrefill li b newK newV) cache (fun _ _ => True) fun _ t => t = cache := by
    refine .after (get_run cache) (layerAt_ends (fun _ => rfl) fun layer found => demand_ends (fun _ => rfl) fun _ =>
      demand_ends (fun _ => rfl) fun _ => demand_ends (fun _ => rfl) fun _ => demand_ends (fun _ => rfl) fun _ => demand_ends (fun _ => rfl) fun _ => ?_)
    rcases put_lets layer b newK newV (arraysEqual newK newV) s!"KvCache: layer {li} is K=V shared but append got K != V" with
      ⟨_,_,stopped⟩ | ⟨_,grown,written,_,_⟩
    · rw [stopped]
      exact .error (bind_error (throw_run _ cache)) rfl
    · rw [written]
      exact .after (pure_run grown cache) (.ok (modify_run _ cache) trivial)
  exact ends.at_error ran

theorem appendDecode_cases (li : Nat) (newK newV : Array2 F) (cache : KvCache F) :
    (∃ text, KvCache.appendDecode li newK newV cache = .error (.error text) cache ∧
      ∀ layer, cache.layers[li]? = some layer → ¬cache.Fits newK newV) ∨
    ∃ layer, cache.layers[li]? = some layer ∧ cache.Fits newK newV ∧
      KvCache.appendDecode li newK newV cache = KvCache.appendRows li newK newV (List.range cache.batchSize) cache := by
  unfold KvCache.appendDecode
  rw [bind_ok (get_run cache)]
  cases found : cache.layers[li]? with
  | none => exact .inl ⟨_,bind_error (layerAt_none found),fun layer is => by cases is⟩
  | some layer =>
    rw [bind_ok (layerAt_some found)]
    by_cases tallK : newK.nrows = cache.batchSize
    · by_cases tallV : newV.nrows = cache.batchSize
      · by_cases wideK : newK.ncols = cache.kvDim
        · by_cases wideV : newV.ncols = cache.kvDim
          · refine .inr ⟨layer,rfl,⟨tallK,tallV,wideK,wideV⟩,?_⟩
            rw [demand_met tallK,demand_met tallV,demand_met wideK,demand_met wideV]
          · rw [demand_met tallK,demand_met tallV,demand_met wideK,demand_unmet wideV]
            exact .inl ⟨_,rfl,fun _ _ fits => wideV fits.2.2.2⟩
        · rw [demand_met tallK,demand_met tallV,demand_unmet wideK]
          exact .inl ⟨_,rfl,fun _ _ fits => wideK fits.2.2.1⟩
      · rw [demand_met tallK,demand_unmet tallV]
        exact .inl ⟨_,rfl,fun _ _ fits => tallV fits.2.1⟩
    · rw [demand_unmet tallK]
      exact .inl ⟨_,rfl,fun _ _ fits => tallK fits.1⟩

theorem step_failed {op : KvOp F} {next : KvCache F} : KvCache.step cache op = some (.failed text,next) ↔
    KvCache.perform op cache = .error (.error text) next := by
  unfold KvCache.step
  cases KvCache.perform op cache with
  | ok _ t => simp
  | error e t => cases e with
    | error text' => simp
    | panic text' => simp

theorem range_split {before after : List Nat} (split : List.range n = before ++ p :: after) : p < n ∧ ∀ b, b ∈ before ↔ b < p := by
  have size := congrArg List.length split
  have place := congrArg (fun items => items[before.length]?) split
  simp only [List.length_range,List.length_append,List.length_cons] at size
  rw [List.getElem?_append_right (Nat.le_refl _),Nat.sub_self,List.getElem?_cons_zero,List.getElem?_range (by omega)] at place
  cases place
  refine ⟨by omega,fun b => ?_⟩
  have front : List.range before.length = before := by
    have both := congrArg (List.take before.length) split
    rwa [List.take_left,List.take_range,Nat.min_eq_left (by omega)] at both
  rw [←front,List.mem_range,List.length_range]

-- A failed append leaves what can be seen of the cache as it was exactly where the
-- sequence that is full is the first one written to.
theorem appends_atomic_iff (made : KvCache.newWithSharingBatched (F:=F) batchSize numLayers cap kvDim shared = .ok cache)
    {s : KvCache F} (ran : run KvCache.step cache ops = some (replies,s)) (op : KvOp F) :
    (∀ text next, KvCache.step s op = some (.failed text,next) → SeenAlike s next) ↔ op.StopsClean s := by
  have counted : s.Counted := run_upholds step_counted (new_counted made) ran
  have still {next : KvCache F} (same : next = s) : SeenAlike s next := by
    rw [same]
    exact ⟨fun _ _ => rfl,fun _ _ => rfl⟩
  cases op with
  | appendPrefill li b newK newV =>
    exact iff_of_true (fun text next stepped => still (appendPrefill_fails (step_failed.mp stepped))) trivial
  | reset => exact iff_of_true (fun text next stepped => by cases step_failed.mp stepped) trivial
  | appendDecode li newK newV =>
    rcases appendDecode_cases li newK newV s with ⟨text,ran,unfit⟩ | ⟨layer,found,fits,ran⟩
    · refine iff_of_true (fun text' next stepped => ?_) fun layer found fits => absurd fits (unfit layer found)
      cases ran.symm.trans (step_failed.mp stepped)
      exact still rfl
    · have ends := appendRows_ends newK newV (List.range s.batchSize) found List.nodup_range
        fun b member => by rw [counted li layer found]; exact List.mem_range.mp member
      have performs : KvCache.perform (.appendDecode li newK newV) s = KvCache.appendRows li newK newV (List.range s.batchSize) s := ran
      simp only [step_failed,performs]
      generalize KvCache.appendRows li newK newV (List.range s.batchSize) s = ending at ends
      have clean : (KvOp.appendDecode li newK newV).StopsClean s ↔ ∀ b < s.batchSize, layer.Full s.maxCacheLen b →
          (∀ earlier < b, ¬layer.Full s.maxCacheLen earlier ∧ layer.Lets s.kvDim newK newV earlier) → b = 0 := by
        refine ⟨fun all => all layer found fits,fun all layer' found' _ => ?_⟩
        cases found.symm.trans found'
        exact all
      rw [clean]
      cases ends with
      | done none =>
        refine iff_of_true (fun text next failed => by cases failed) fun b inside full _ => ?_
        exact absurd full (none b (List.mem_range.mpr inside))
      | @asserted before p after _ _ split earlier open_ refused =>
        obtain ⟨_,below⟩ := range_split split
        refine iff_of_true (fun text next failed => by cases failed) fun b inside full lets => ?_
        -- No sequence up to the one asserted of is full, and none after it is reached.
        rcases Nat.lt_trichotomy b p with less | same | more
        · exact absurd full (earlier b ((below b).mpr less))
        · exact absurd full (same ▸ open_)
        · exact absurd (lets p more).2 refused
      | @full before p after text last split full earlier same lengths =>
        obtain ⟨inside,below⟩ := range_split split
        constructor
        · intro alike b _ _ clear
          obtain ⟨later,at_,grew,_⟩ := lengths
          have first : p = 0 := by
            by_contra moved
            have one := grew 0 ((below 0).mpr (Nat.pos_of_ne_zero moved))
            have both := (alike text last rfl).2 li 0
            rw [found,at_,Option.map_some,Option.map_some,one] at both
            exact absurd (Option.some.inj both) (Nat.ne_of_lt (Nat.lt_succ_self _))
          by_contra other
          exact (clear 0 (Nat.pos_of_ne_zero other)).1 (first ▸ full)
        · intro first text' next failed
          cases failed
          have zero := first p inside full fun b less => earlier b ((below b).mpr less)
          refine still (same (List.eq_nil_iff_forall_not_mem.mpr fun b member => ?_))
          have less := (below b).mp member
          omega

end

-- Two sequences of room for two rows, one of which is full.
def halfFull (b : Nat) : List (@KvOp Rat exactScalar.toZero) :=
  [.appendPrefill 0 b (@Array2.of Rat exactScalar.toZero 2 1 fun _ _ => .ofInt 1) (@Array2.of Rat exactScalar.toZero 2 1 fun _ _ => .ofInt 1)]

def oneEach : @KvOp Rat exactScalar.toZero :=
  .appendDecode 0 (@Array2.of Rat exactScalar.toZero 2 1 fun _ _ => .ofInt 9) (@Array2.of Rat exactScalar.toZero 2 1 fun _ _ => .ofInt 9)

theorem appends_atomic_iff_first_full : ∃ cache s, @KvCache.newWithSharingBatched Rat exactScalar 2 1 2 1 [false] = .ok cache ∧
    run (@KvCache.step Rat exactScalar) cache (halfFull 0) = some ([.done],s) ∧
    ∀ text next, @KvCache.step Rat exactScalar s oneEach = some (.failed text,next) → @SeenAlike Rat exactScalar s next := by
  refine ⟨_,_,rfl,rfl,?_⟩
  have made : @KvCache.newWithSharingBatched Rat exactScalar 2 1 2 1 [false] = .ok _ := rfl
  refine (@appends_atomic_iff Rat exactScalar _ _ _ _ _ _ (halfFull 0) [KvReply.done] made _ rfl oneEach).mpr fun layer found _ b _ _ clear => ?_
  by_contra other
  refine (clear 0 (Nat.pos_of_ne_zero other)).1 ?_
  cases found
  unfold LayerKvCache.Full
  decide +kernel

-- The second full: the first has had its row when the loop comes to it.
theorem failed_decode_advances : ∃ cache s next, @KvCache.newWithSharingBatched Rat exactScalar 2 1 2 1 [false] = .ok cache ∧
    run (@KvCache.step Rat exactScalar) cache (halfFull 1) = some ([.done],s) ∧
    @KvCache.step Rat exactScalar s oneEach = some (.failed "KvCache overflow: layer 0 sequence 1 cur 2 + 1 > max_cache_len 2",next) ∧
    ¬@SeenAlike Rat exactScalar s next := by
  refine ⟨_,_,_,rfl,rfl,rfl,fun alike => ?_⟩
  have both := alike.2 0 0
  revert both
  decide +kernel

end Embedder
