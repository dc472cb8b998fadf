import GeloLightrag.Compass.Walks

namespace Compass
open Foundation
open Foundation.Proximity

section
variable {F D : Type} [Metric F D] [PartialCmp D] {embeddings : List (List F)}

-- Only Algorithm 4 reserves its list beforehand.
def Reservable (may : Prop) (heuristic : NeighbourHeuristic) (m : Nat) : Prop := heuristic = .algorithm4 → may ∨ 4 * m < 2 ^ 63

theorem diverse_ok (cand : NodeDist D) (known : cand.id < embeddings.length) (selected : List Nat)
    (others : ∀ s ∈ selected, s < embeddings.length) : ∃ answer, diverse embeddings cand selected = .ok answer := by
  induction selected with
  | nil => exact ⟨true,rfl⟩
  | cons s rest ih =>
      obtain ⟨answer,later⟩ := ih fun other member => others other (List.mem_cons_of_mem _ member)
      unfold diverse
      rw [distance_ok known (others s List.mem_cons_self)]
      by_cases close : lt (apart embeddings cand.id s) cand.dist = true
      · exact ⟨false,by simp [close,bind,Except.bind,pure,Except.pure]⟩
      · exact ⟨answer,by simp [close,bind,Except.bind,later]⟩

theorem algorithm4Turns_ok (q m : Nat) (candidates : List (NodeDist D)) (selected : List Nat)
    (known : ∀ a ∈ candidates.map NodeDist.id, a < embeddings.length) (chosen : ∀ a ∈ selected, a < embeddings.length) :
    Gives may (algorithm4Turns embeddings q m candidates selected) fun out => ∃ picked, out = selected ++ picked ∧
      picked.Sublist (candidates.map NodeDist.id) ∧ (selected.length ≤ m → out.length ≤ m) ∧
      (0 < m → q ∉ candidates.map NodeDist.id → candidates ≠ [] → out ≠ []) := by
  induction candidates generalizing selected with
  | nil => exact .pure ⟨[],by simp⟩
  | cons cand rest ih =>
      have later := fun a member => known a (List.mem_cons_of_mem _ member)
      unfold algorithm4Turns
      by_cases itself : cand.id = q
      · rw [if_pos itself]
        refine (ih selected later chosen).imp fun out reached => ?_
        obtain ⟨picked,is,among,short,_⟩ := reached
        exact ⟨picked,is,.cons _ among,short,fun _ absent => absurd itself.symm (by simp at absent; exact absent.1)⟩
      · rw [if_neg itself]
        by_cases full : m ≤ selected.length
        · rw [if_pos full]
          refine .pure ⟨[],by simp,by simp,id,fun room _ _ empty => ?_⟩
          rw [empty] at full
          simp at full
          omega
        · rw [if_neg full]
          have here : cand.id < embeddings.length := known cand.id List.mem_cons_self
          obtain ⟨answer,decided⟩ := diverse_ok cand here selected chosen
          refine .after (index_inside here) (.after decided ?_)
          cases answer with
          | true =>
              have all : ∀ a ∈ selected ++ [cand.id], a < embeddings.length := by
                intro a member
                rcases List.mem_append.mp member with old | new
                · exact chosen a old
                · rw [List.mem_singleton.mp new]; exact here
              refine (ih (selected ++ [cand.id]) later all).imp fun out reached => ?_
              obtain ⟨picked,is,among,short,_⟩ := reached
              refine ⟨cand.id :: picked,by rw [is]; simp,.cons_cons _ among,fun _ => short (by simp; omega),?_⟩
              intro _ _ _ empty
              rw [is] at empty
              simp at empty
          | false =>
              refine (ih selected later chosen).imp fun out reached => ?_
              obtain ⟨picked,is,among,short,_⟩ := reached
              refine ⟨picked,is,.cons _ among,short,fun _ _ _ empty => ?_⟩
              have none_ : selected = [] := (List.append_eq_nil_iff.mp (is.symm.trans empty)).1
              rw [none_] at decided
              cases decided

-- Both heuristics keep some of what they are offered, and something if they may.
theorem selectNeighbours_ok (heuristic : NeighbourHeuristic) (reserve : Reservable may heuristic m) (here : q < embeddings.length)
    (candidates : List (NodeDist D)) (known : ∀ a ∈ candidates.map NodeDist.id, a < embeddings.length)
    (others : q ∉ candidates.map NodeDist.id) :
    Gives may (selectNeighbours embeddings heuristic q candidates m) (Kept m (candidates.map NodeDist.id)) := by
  have order := sorted_ids candidates
  cases heuristic with
  | algorithm4 =>
      refine .after (index_inside here) ?_
      have room : Gives may (withCapacity m) fun _ => True := by
        unfold withCapacity
        split
        · trivial
        · rename_i full
          exact (reserve rfl).resolve_right full
      refine room.bind fun _ _ => ?_
      refine (algorithm4Turns_ok q m _ [] (fun a member => known a (order.mem_iff.mp member)) (by simp)).imp fun out reached => ?_
      obtain ⟨picked,is,among,short,filled⟩ := reached
      rw [List.nil_append] at is
      subst is
      refine .of_perm order ⟨among.subset,fun distinct => distinct.sublist among,short (Nat.zero_le _),fun room some_ => ?_⟩
      exact filled room (fun member => others (order.mem_iff.mp member)) fun empty => some_ (by rw [empty]; rfl)
  | simple =>
      refine .pure (.of_perm order ?_)
      rw [List.map_take]
      refine ⟨List.take_subset _ _,fun distinct => distinct.sublist (List.take_sublist _ _),by simp,fun room some_ => ?_⟩
      intro empty
      rw [List.take_eq_nil_iff] at empty
      rcases empty with zero | none_
      · omega
      · exact some_ none_

variable {params : PlainHnswParams F} {layers : Layers} {n top layer x : Nat}

theorem relink_ok (reserve : ∀ layer, Reservable may params.neighbourHeuristic (maxM params layer)) (sized : layers.Sized n top) (inside : layer ≤ top) (node : s < n)
    (known : ∀ a ∈ layers.links layer s ++ [x], a < embeddings.length) (here : s < embeddings.length)
    (others : s ∉ layers.links layer s ++ [x]) :
    Gives may (relink embeddings params x layer s layers) fun next => next.Sized n top ∧
      ∃ kept, Kept (maxM params layer) (layers.links layer s ++ [x]) kept ∧
        ∀ l, next.table l = if l = layer then Function.update (layers.table layer) s (some kept) else layers.table l := by
  unfold relink
  refine .after (Layers.neighboursOf_ok sized inside node) ?_
  dsimp only
  split
  · have measured := mapM_ok (f:=fun id => do return NodeDist.mk id (← distance embeddings s id))
      (g:=fun id => NodeDist.mk id (apart embeddings s id)) (layers.links layer s ++ [x]) fun a member => by
        rw [distance_ok here (known a member)]; rfl
    have ids : ((layers.links layer s ++ [x]).map fun id => NodeDist.mk id (apart embeddings s id)).map NodeDist.id =
        layers.links layer s ++ [x] := by
      rw [List.map_map]
      exact List.map_id' _
    refine .after measured ?_
    refine (selectNeighbours_ok _ (reserve layer) here _ (by rw [ids]; exact known) (by rw [ids]; exact others)).bind fun kept made => ?_
    rw [ids] at made
    exact (Layers.setNeighbours_ok sized inside node kept).imp fun next reached => ⟨reached.1,kept,made,reached.2⟩
  · rename_i short
    exact (Layers.setNeighbours_ok sized inside node _).imp fun next reached => ⟨reached.1,_,.whole (by omega),reached.2⟩

theorem links_of_table {next : Layers} (same : next.table l = layers.table l) : next.links l = layers.links l := by
  funext a
  unfold Layers.links
  rw [same]

theorem links_of_update {next : Layers} (updated : next.table l = Function.update (layers.table l) a (some list)) :
    next.links l = Function.update (layers.links l) a list := by
  funext b
  unfold Layers.links
  rw [updated]
  by_cases same : b = a
  · simp [same]
  · simp [same]

-- One layer's turn: the new list, the links back, and nothing else.
theorem linkAt_ok (reserve : ∀ layer, Reservable may params.neighbourHeuristic (maxM params layer)) (sized : layers.Sized n top) (inside : layer ≤ top) (node : x < n)
    (here : x < embeddings.length) {present : Nat → Prop} (well : WellLinked (maxM params layer) present (layers.links layer))
    (known : ∀ a, present a → a < n ∧ a < embeddings.length) (absent : ¬ present x) (selected : List Nat)
    (distinct : selected.Nodup) (old : ∀ s ∈ selected, present s) :
    Gives may (linkAt embeddings params x layer selected layers) fun next => next.Sized n top ∧
      Linked (maxM params layer) (layers.links layer) x selected (next.links layer) ∧
      (∀ l, l ≠ layer → next.table l = layers.table l) ∧
      ∀ a, (next.table layer a).isSome ↔ a = x ∨ a ∈ selected ∨ (layers.table layer a).isSome := by
  have new : x ∉ selected := fun member => absent (old x member)
  unfold linkAt
  refine (Layers.setNeighbours_ok sized inside node selected).bind fun first written => ?_
  have own : first.table layer = Function.update (layers.table layer) x (some selected) := by rw [written.2,if_pos rfl]
  have start : first.links layer = Function.update (layers.links layer) x selected := links_of_update own
  refine (Gives.foldlM (fun finished next => next.Sized n top ∧ next.links layer x = selected ∧
      (∀ s ∈ finished, Kept (maxM params layer) (layers.links layer s ++ [x]) (next.links layer s)) ∧
      (∀ a, a ≠ x → a ∉ finished → next.links layer a = layers.links layer a) ∧
      (∀ l, l ≠ layer → next.table l = layers.table l) ∧
      ∀ a, (next.table layer a).isSome ↔ a = x ∨ a ∈ finished ∨ (layers.table layer a).isSome) ?_ ?_).imp ?_
  · refine ⟨written.1,by rw [start]; simp,by simp,fun a other _ => by rw [start]; simp [other],fun l other => by rw [written.2,if_neg other],?_⟩
    intro a
    rw [own]
    by_cases same : a = x
    · simp [same]
    · simp [same]
  · rintro finished s rest next whole ⟨sized',own',back,frame,outside,keys⟩
    have member : s ∈ selected := by rw [whole]; simp
    have fresh : s ∉ finished := by
      rw [whole] at distinct
      intro again
      exact (List.nodup_append'.mp distinct).2.2 again List.mem_cons_self
    have other : s ≠ x := fun same => new (same ▸ member)
    have was := frame s other fresh
    have present_ := old s member
    have targets : ∀ a ∈ next.links layer s ++ [x], a < embeddings.length := by
      intro a among
      rw [was] at among
      rcases List.mem_append.mp among with before | last
      · exact (known a (well.target s a before)).2
      · rw [List.mem_singleton.mp last]; exact here
    have selfless : s ∉ next.links layer s ++ [x] := by
      rw [was]
      intro among
      rcases List.mem_append.mp among with before | last
      · exact well.apart s before
      · exact other (List.mem_singleton.mp last)
    refine (relink_ok reserve sized' inside (known s present_).1 targets (known s present_).2 selfless).imp fun after reached => ?_
    obtain ⟨sized'',kept,made,tables⟩ := reached
    have updated := tables layer
    rw [if_pos rfl] at updated
    have lists := links_of_update updated
    rw [was] at made
    refine ⟨sized'',by rw [lists]; simp [Ne.symm other,own'],?_,?_,?_,?_⟩
    · intro a among
      rw [lists]
      by_cases same : a = s
      · subst same
        simpa using made
      · have earlier : a ∈ finished := by simpa [same] using among
        simpa [same] using back a earlier
    · intro a away notYet
      rw [lists]
      have apart_ : a ≠ s := by rintro rfl; simp at notYet
      simpa [apart_] using frame a away fun again => notYet (List.mem_append_left _ again)
    · intro l away
      rw [tables l,if_neg away]
      exact outside l away
    · intro a
      rw [updated]
      by_cases same : a = s
      · simp [same]
      · simp [same,keys a]
  · rintro next ⟨sized',own',back,frame,outside,keys⟩
    exact ⟨sized',⟨own',back,frame⟩,outside,keys⟩

-- The nodes that a layer holds.
def presentAt (levels inserted : List Nat) (layer a : Nat) : Prop := a ∈ inserted ∧ layer ≤ levels.getD a 0

structure Layered (params : PlainHnswParams F) (n top : Nat) (present : Nat → Nat → Prop) (layers : Layers) : Prop where
  sized : layers.Sized n top
  well : ∀ l ≤ top, WellLinked (maxM params l) (present l) (layers.links l)
  keys : ∀ l, 0 < l → l ≤ top → ∀ a, (layers.table l a).isSome ↔ present l a

theorem Layered.congr {present present' : Nat → Nat → Prop} (same : ∀ l ≤ top, ∀ a, present l a ↔ present' l a)
    (layered : Layered params n top present layers) : Layered params n top present' layers :=
  ⟨layered.sized,fun l inside => .congr (same l inside) rfl (layered.well l inside),
    fun l above inside a => (layered.keys l above inside a).trans (same l inside a)⟩

variable {levels inserted : List Nat}

-- A node's turn at one layer, before whatever follows it.
theorem layerTurn_ok (reserve : ∀ layer, Reservable may params.neighbourHeuristic (maxM params layer)) (node : x < n) (here : x < embeddings.length) (absent : x ∉ inserted)
    (known : ∀ a ∈ inserted, a < n ∧ a < embeddings.length) (inside : layer ≤ top) {entries : List Nat}
    {present : Nat → Nat → Prop} (layered : Layered params n top present layers)
    (old : ∀ a, present layer a ↔ presentAt levels inserted layer a)
    (fine : ∀ e ∈ entries, e ∈ inserted → layer ≤ levels.getD e 0) (some_ : ∃ e ∈ entries, e ∈ inserted)
    {rest : List Nat → Layers → Except String Layers} {holds : Layers → Prop}
    (later : ∀ selected next, Layered params n top (fun l a => (l = layer ∧ a = x) ∨ present l a) next → (0 < maxM params layer → selected ≠ []) →
      (∀ s ∈ selected, presentAt levels inserted layer s ∧ ∃ e ∈ entries, e ∈ inserted ∧ Reach (layers.links layer) e s) →
      Linked (maxM params layer) (layers.links layer) x selected (next.links layer) →
      (∀ l, l ≠ layer → next.table l = layers.table l) → Gives may (rest selected next) holds) :
    Gives may (do
      let candidates ← beamSearchLayer embeddings x entries layer params.efConstruction layers inserted
      let selected ← selectNeighbours embeddings params.neighbourHeuristic x candidates (maxM params layer)
      let next ← linkAt embeddings params x layer selected layers
      rest selected next) holds := by
  have well := layered.well layer inside
  have present_ : ∀ a, present layer a → a ∈ inserted ∧ layer ≤ levels.getD a 0 := fun a => (old a).mp
  have begun : ∀ e ∈ entries, e ∈ inserted → ∃ e' ∈ entries, e' ∈ inserted ∧ Reach (layers.links layer) e' e :=
    fun e member inserted_ => ⟨e,member,inserted_,.refl⟩
  refine (beamSearchLayer_ok (fun a => ∃ e ∈ entries, e ∈ inserted ∧ Reach (layers.links layer) e a) layered.sized inside here
    known ?_ begun some_).bind fun candidates found => ?_
  · rintro a _ ⟨e,member,inserted_,path⟩ b edge _
    exact ⟨e,member,inserted_,path.tail edge⟩
  obtain ⟨distinct,met,filled⟩ := found
  have others : x ∉ candidates.map NodeDist.id := fun member => absent (met x member).1
  refine (selectNeighbours_ok _ (reserve layer) here candidates (fun a member => (known a (met a member).1).2)
    others).bind fun selected kept => ?_
  have chosen : ∀ s ∈ selected, presentAt levels inserted layer s ∧ ∃ e ∈ entries, e ∈ inserted ∧ Reach (layers.links layer) e s := by
    intro s member
    obtain ⟨inserted_,e,entered,inside_,path⟩ := met s (kept.among member)
    have start : present layer e := (old e).mpr ⟨inside_,fine e entered inside_⟩
    exact ⟨(old s).mp (well.reach start path),e,entered,inside_,path⟩
  have fresh : ¬ present layer x := fun held => absent (present_ x held).1
  refine (linkAt_ok reserve layered.sized inside node here well (fun a held => known a (present_ a held).1) fresh selected
    (kept.distinct distinct) fun s member => (old s).mpr (chosen s member).1).bind fun next linked => ?_
  obtain ⟨sized,link,outside,keys⟩ := linked
  refine later selected next ⟨sized,fun l within => ?_,fun l above within a => ?_⟩ (fun room => kept.some_left room filled) chosen link outside
  · by_cases same : l = layer
    · subst same
      refine .congr (fun a => by simp) rfl (well.linked fresh (kept.distinct distinct) kept.bounded ?_ link)
      exact fun s member => (old s).mpr (chosen s member).1
    · exact .congr (fun a => by simp [same]) (links_of_table (outside l same)).symm (layered.well l within)
  · by_cases same : l = layer
    · subst same
      rw [keys a]
      constructor
      · rintro (own | picked | before)
        · exact .inl ⟨rfl,own⟩
        · exact .inr ((old a).mpr (chosen a picked).1)
        · exact .inr ((layered.keys l above within a).mp before)
      · rintro (⟨_,own⟩ | before)
        · exact .inl own
        · exact .inr (.inr ((layered.keys l above within a).mpr before))
    · rw [outside l same,layered.keys l above within a]
      simp [same]

-- From the node's own level to the ground, layer by layer. What the lower layers
-- hold does not change before their turn.
theorem linkDown_ok (reserve : ∀ layer, Reservable may params.neighbourHeuristic (maxM params layer)) (node : x < n)
    (here : x < embeddings.length) (absent : x ∉ inserted)
    (known : ∀ a ∈ inserted, a < n ∧ a < embeddings.length) (layer : Nat) (inside : layer ≤ top)
    (led : presentAt levels inserted layer current) (entries : List Nat)
    {present : Nat → Nat → Prop} (layered : Layered params n top present layers)
    (old : ∀ l ≤ layer, ∀ a, present l a ↔ presentAt levels inserted l a)
    (fine : ∀ e ∈ entries, e ∈ inserted → layer ≤ levels.getD e 0) (some_ : ∃ e ∈ entries, e ∈ inserted) :
    Gives may (linkDown embeddings params x current inserted layer entries layers) fun next =>
      Layered params n top (fun l a => (l ≤ layer ∧ a = x) ∨ present l a) next ∧
      ∃ chosen, (0 < maxM params 0 → chosen ≠ []) ∧ (∀ s ∈ chosen, s ∈ inserted) ∧
        Linked (maxM params 0) (layers.links 0) x chosen (next.links 0) ∧
        (layer = 0 → ∀ s ∈ chosen, ∃ e ∈ entries, e ∈ inserted ∧ Reach (layers.links 0) e s) := by
  induction layer generalizing entries layers present with
  | zero =>
      unfold linkDown
      refine layerTurn_ok reserve node here absent known inside layered (old 0 (Nat.le_refl _)) fine some_ ?_
      intro selected next grown filled chosen link _
      refine .pure ⟨grown.congr fun l _ a => ?_,selected,filled,fun s member => (chosen s member).1.1,link,?_⟩
      · simp
      · exact fun _ s member => (chosen s member).2
  | succ layer ih =>
      unfold linkDown
      refine layerTurn_ok reserve node here absent known inside layered (old (layer+1) (Nat.le_refl _)) fine some_ ?_
      intro selected next grown _ chosen _ outside
      have below : presentAt levels inserted layer current := ⟨led.1,Nat.le_of_succ_le led.2⟩
      have entered : ∀ e ∈ (if selected.isEmpty then [current] else selected), presentAt levels inserted layer e := by
        intro e member
        split at member
        · rw [List.mem_singleton.mp member]; exact below
        · exact ⟨(chosen e member).1.1,Nat.le_of_succ_le (chosen e member).1.2⟩
      have first : ∃ e ∈ (if selected.isEmpty then [current] else selected), e ∈ inserted := by
        split
        · exact ⟨current,List.mem_singleton_self _,below.1⟩
        · rename_i filled
          obtain ⟨s,member⟩ := List.exists_mem_of_ne_nil selected (by simpa using filled)
          exact ⟨s,member,(chosen s member).1.1⟩
      refine (ih (by omega) below _ grown ?_ (fun e member _ => (entered e member).2) first).imp ?_
      · intro l under a
        rw [←old l (by omega) a]
        simp [show l ≠ layer + 1 by omega]
      · rintro last ⟨done,chosen',some',old',link,_⟩
        rw [links_of_table (outside 0 (by omega))] at link
        refine ⟨done.congr fun l _ a => ?_,chosen',some',old',link,fun zero => absurd zero (by omega)⟩
        constructor
        · rintro (⟨under,same⟩ | ⟨is,same⟩ | before)
          · exact .inl ⟨by omega,same⟩
          · exact .inl ⟨by omega,same⟩
          · exact .inr before
        · rintro (⟨under,same⟩ | before)
          · by_cases level : l = layer + 1
            · exact .inr (.inl ⟨level,same⟩)
            · exact .inl ⟨by omega,same⟩
          · exact .inr (.inr before)

end
end Compass
