import GeloLightrag.Compass.Ranked
import GeloLightrag.Compass.Reachability

namespace Compass
open Foundation
open Foundation.Proximity

theorem orPanic_ok {α σ : Type} {x : Except String α} {a : α} (value : x = .ok a) (s : σ) : (orPanic x : EStateM CompassFault σ α) s = .ok a s := by
  rw [value]; rfl

theorem plainReader_run {F : Type} {blocks : List (NodeBlock F)} {id : Nat} {node : NodeBlock F} (found : blocks[id]? = some node) (log : List Nat) :
    plainReader blocks id log = .ok node (log ++ [id]) := by
  unfold plainReader
  rw [bind_ok (orPanic_ok (index_ok.mpr found) log)]
  rfl

namespace Beam
variable {D : Type} [PartialCmp D] {ef n : Nat} {dist : Nat → D} {links : Nat → List Nat} {start : Nat} {extra : Beam D → Prop}
  {wide : Prop} {pending : Nat → Prop} {beam next : Beam D}

-- What stays true of a beam as candidates leave it and fresh nodes are offered to it.
structure Upheld (ef : Nat) (dist : Nat → D) (extra : Beam D → Prop) : Prop where
  start : ∀ a, extra (startBeam (a,dist a))
  taken : ∀ beam candidates, extra beam → extra {beam with candidates:=candidates}
  offered : ∀ beam next a, extra beam → Beam.offer ef ⟨a,dist a⟩ {beam with visited:=a :: beam.visited} = .ok next → extra next

theorem upheld_true (ef : Nat) (dist : Nat → D) : Upheld ef dist fun _ => True := ⟨fun _ => trivial,fun _ _ _ => trivial,fun _ _ _ _ _ => trivial⟩

theorem upheld_ranked {D : Type} [LinearOrder D] (ef : Nat) (dist : Nat → D) : Upheld ef dist (Ranked ef dist) :=
  ⟨fun a => ranked_keep (ranked_new ef dist).heap (ranked_new ef dist).measured a ⟨a,dist a⟩ rfl fun _ member => absurd member List.not_mem_nil,
    fun _ _ ranked => ⟨ranked.heap,ranked.measured,ranked.dominated⟩,fun _ _ a ranked offered => ranked.offered a offered⟩

-- What a search keeps true. A wide one has room for all nodes and follows whole
-- lists: it keeps each node it meets, and has followed its list unless the node is
-- still a candidate, or pending.
structure Searching (n : Nat) (links : Nat → List Nat) (start : Nat) (ef : Nat) (extra : Beam D → Prop) (wide : Prop) (pending : Nat → Prop) (beam : Beam D) : Prop where
  sound : Sound (List.range n) (Reach links start) beam
  besides : extra beam
  some_ : 0 < beam.top.size
  small : beam.top.size ≤ max ef 1
  entered : start ∈ beam.visited
  whole : wide → (∀ v ∈ beam.visited, v ∈ ids beam.top) ∧
    ∀ v ∈ beam.visited, v ∈ ids beam.candidates ∨ pending v ∨ ∀ b ∈ links v, b ∈ beam.visited

theorem searching_start (upheld : Upheld ef dist extra) (inside : start < n) :
    Searching n links start ef extra wide (fun _ => False) (startBeam (start,dist start)) := by
  have top : ids (BinaryHeap.new.push OrderedNode.le (⟨start,dist start⟩ : OrderedNode D)) = [start] := List.perm_singleton.mp (ids_push ..)
  have queue : ids (BinaryHeap.new.push OrderedNode.geq (⟨start,dist start⟩ : OrderedNode D)) = [start] := List.perm_singleton.mp (ids_push ..)
  have size : (BinaryHeap.new.push OrderedNode.le (⟨start,dist start⟩ : OrderedNode D)).size = 1 := by rw [←size_ids,top]; rfl
  refine ⟨⟨List.nodup_singleton _,?_,?_,?_,?_⟩,?_,?_,?_,List.mem_singleton.mpr rfl,fun _ => ⟨?_,?_⟩⟩
  · intro a member
    rw [List.mem_singleton.mp member]
    exact ⟨List.mem_range.mpr inside,.refl⟩
  · intro a member
    change a ∈ ids (BinaryHeap.new.push OrderedNode.geq _) at member
    rwa [queue] at member
  · intro a member
    change a ∈ ids (BinaryHeap.new.push OrderedNode.le _) at member
    rwa [top] at member
  · change (ids (BinaryHeap.new.push OrderedNode.le _)).Nodup
    rw [top]
    exact List.nodup_singleton _
  · exact upheld.start start
  · exact size.ge
  · exact size.le.trans (Nat.le_max_right _ _)
  · intro v member
    change v ∈ ids (BinaryHeap.new.push OrderedNode.le _)
    rwa [top]
  · intro v member
    refine .inl ?_
    change v ∈ ids (BinaryHeap.new.push OrderedNode.geq _)
    rwa [queue]

theorem offer_total (node : OrderedNode D) (some_ : 0 < beam.top.size) : ∃ next, offer ef node beam = .ok next := by
  unfold offer
  split
  · exact ⟨_,rfl⟩
  · obtain ⟨d,read⟩ := farthest_ok beam some_
    rw [read]
    by_cases nearer : lt node.dist d = true
    · exact ⟨_,by simp [nearer,bind,Except.bind]; rfl⟩
    · exact ⟨_,by simp [nearer,bind,Except.bind]; rfl⟩

-- The kept nodes leave room while one is not met.
theorem Sound.slack (sound : Sound (List.range n) (Reach links start) beam) (inside : a < n) (fresh : a ∉ beam.visited) : beam.top.size < n := by
  have kept := (sound.once.subperm fun b member => sound.kept b member).length_le
  have among : a :: beam.visited ⊆ List.range n := List.cons_subset.mpr ⟨List.mem_range.mpr inside,fun b before => (sound.met b before).1⟩
  have met := ((List.nodup_cons.mpr ⟨fresh,sound.distinct⟩).subperm among).length_le
  rw [size_ids] at kept
  rw [List.length_cons,List.length_range] at met
  omega

-- A node met for the first time.
theorem Searching.offered (upheld : Upheld ef dist extra) (roomy : wide → n ≤ ef) (searching : Searching n links start ef extra wide pending beam) (inside : a < n) (reached : Reach links start a) (fresh : a ∉ beam.visited) :
    ∃ next, offer ef ⟨a,dist a⟩ {beam with visited:=a :: beam.visited} = .ok next ∧ Searching n links start ef extra wide pending next ∧
      next.visited = a :: beam.visited ∧ demand (List.range n) next ≤ demand (List.range n) beam := by
  have total : ∃ next, offer ef ⟨a,dist a⟩ ({beam with visited:=a :: beam.visited} : Beam D) = .ok next := offer_total _ searching.some_
  obtain ⟨next,offered⟩ := total
  obtain ⟨visited,new⟩ := searching.sound.visit (List.mem_range.mpr inside) reached fresh
  have counted := visit_demand (n:=a) beam visited.room
  have slack := searching.sound.slack inside fresh
  have besides := upheld.offered beam next a searching.besides offered
  refine ⟨next,offered,?_⟩
  rcases offer_cases offered with ⟨room,rfl⟩ | ⟨full,far,rest,popped,peeked,⟨nearer,rfl⟩ | ⟨farther,rfl⟩⟩
  · have kept := visited.keep ⟨a,dist a⟩ List.mem_cons_self new
    refine ⟨⟨kept,besides,?_,?_,List.mem_cons_of_mem _ searching.entered,fun broad => ⟨?_,?_⟩⟩,rfl,by rw [keep_demand',counted]⟩
    · rw [(keep_demand _ _).2]
      exact Nat.succ_pos _
    · rw [(keep_demand _ _).2]
      exact (Nat.succ_le_of_lt room).trans (Nat.le_max_left _ _)
    · intro v member
      refine (ids_push _ _ _).mem_iff.mpr ?_
      rcases List.mem_cons.mp member with rfl | met
      · exact List.mem_cons_self
      · exact List.mem_cons_of_mem _ ((searching.whole broad).1 v met)
    · intro v member
      rcases List.mem_cons.mp member with rfl | met
      · exact .inl ((ids_push _ _ _).mem_iff.mpr List.mem_cons_self)
      · exact ((searching.whole broad).2 v met).imp (fun queued => (ids_push _ _ _).mem_iff.mpr (List.mem_cons_of_mem _ queued))
          (Or.imp id fun followed b edge => List.mem_cons_of_mem _ (followed b edge))
  · have split := ids_pop popped
    have size : rest.size + 1 = beam.top.size := by
      rw [←size_ids,←size_ids beam.top,split.length_eq,List.length_cons]
    have fewer : ∀ v ∈ ids rest, v ∈ ids beam.top := fun v member => split.mem_iff.mpr (List.mem_cons_of_mem _ member)
    have dropped : Sound (List.range n) (Reach links start) {beam with top:=rest,visited:=a :: beam.visited} :=
      ⟨visited.distinct,visited.met,visited.queued,fun v member => visited.kept v (fewer v member),
        (List.nodup_cons.mp (split.nodup_iff.mp searching.sound.once)).2⟩
    have kept := dropped.keep ⟨a,dist a⟩ List.mem_cons_self fun member => new (fewer a member)
    refine ⟨⟨kept,besides,?_,?_,List.mem_cons_of_mem _ searching.entered,fun broad => absurd full (by change ¬ ef ≤ beam.top.size; have := roomy broad; omega)⟩,rfl,?_⟩
    · rw [(keep_demand _ _).2]
      exact Nat.succ_pos _
    · rw [(keep_demand _ _).2]
      exact size.le.trans searching.small
    · rw [keep_demand']
      exact counted.le
  · exact ⟨⟨visited,besides,searching.some_,searching.small,List.mem_cons_of_mem _ searching.entered,
      fun broad => absurd full (by change ¬ ef ≤ beam.top.size; have := roomy broad; omega)⟩,rfl,by omega⟩

section Graph
variable {F : Type} [Metric F D] [Add F] [Sub F] [Mul F] [Div F] [Zero F] [One F] [NatCast F] [PartialCmp F]
  {blocks : List (NodeBlock F)} {clear : Cleartext F} {query : List F}

-- The blocks are those of a graph, whose lists a search can filter.
structure Describes (n : Nat) (dist : Nat → D) (links : Nat → List Nat) (wide : Prop) (clear : Cleartext F) (query : List F)
    (blocks : List (NodeBlock F)) : Prop where
  block : ∀ id < n, ∃ node, blocks[id]? = some node ∧ cosineDistance query node.embedding = dist id ∧
    ∃ ids, candidatesForFetch clear query id node = .ok ids ∧ ids ⊆ links id ∧ (wide → links id ⊆ ids)
  target : ∀ a < n, ∀ b ∈ links a, b < n

theorem fetchAll_ok (upheld : Upheld ef dist extra) (describes : Describes n dist links wide clear query blocks) (roomy : wide → n ≤ ef) (nbrs : List Nat)
    (fine : ∀ b ∈ nbrs, b < n ∧ Reach links start b) (searching : Searching n links start ef extra wide pending beam) (log : List Nat) :
    ∃ next log', fetchAll (plainReader blocks) query ef nbrs beam log = .ok next log' ∧ Searching n links start ef extra wide pending next ∧
      (∀ v ∈ nbrs, v ∈ next.visited) ∧ (∀ v ∈ beam.visited, v ∈ next.visited) ∧ demand (List.range n) next ≤ demand (List.range n) beam := by
  induction nbrs generalizing beam log with
  | nil => exact ⟨beam,log,rfl,searching,fun _ member => absurd member List.not_mem_nil,fun _ => id,Nat.le_refl _⟩
  | cons b rest ih =>
      have others := fun v member => fine v (List.mem_cons_of_mem _ member)
      unfold fetchAll
      by_cases met : b ∈ beam.visited
      · rw [if_pos met]
        obtain ⟨next,log',ran,after,all,grown,less⟩ := ih others searching log
        refine ⟨next,log',ran,after,fun v member => ?_,grown,less⟩
        rcases List.mem_cons.mp member with rfl | member
        · exact grown v met
        · exact all v member
      · rw [if_neg met]
        obtain ⟨inside,reached⟩ := fine b List.mem_cons_self
        obtain ⟨node,found,measured,_⟩ := describes.block b inside
        obtain ⟨first,offered,after,visited,less⟩ := searching.offered upheld roomy inside reached met
        obtain ⟨next,log',ran,last,all,grown,less'⟩ := ih others after (log ++ [b])
        refine ⟨next,log',?_,last,fun v member => ?_,fun v member => grown v (by rw [visited]; exact List.mem_cons_of_mem _ member),less'.trans less⟩
        · rw [bind_ok (plainReader_run found log),measured,bind_ok (orPanic_ok offered _)]
          exact ran
        · rcases List.mem_cons.mp member with rfl | member
          · exact grown v (by rw [visited]; exact List.mem_cons_self)
          · exact all v member

theorem closed_total (c : OrderedNode D) (some_ : 0 < beam.top.size) : ∃ stop, closed ef c beam = .ok stop ∧ (stop = true → ef ≤ beam.top.size) := by
  unfold closed
  split
  · rename_i full
    obtain ⟨d,read⟩ := farthest_ok beam some_
    exact ⟨_,by rw [read]; rfl,fun _ => full⟩
  · exact ⟨false,rfl,Bool.noConfusion⟩

-- As many nodes as there are have all been met.
theorem Sound.everything (sound : Sound (List.range n) (Reach links start) beam) (full : n ≤ beam.top.size) (inside : b < n) : b ∈ beam.visited := by
  by_contra fresh
  exact absurd (sound.slack inside fresh) (Nat.not_lt.mpr full)

-- The loop ends, and a wide one has met all that can be reached.
theorem searchTurns_ok (upheld : Upheld ef dist extra) (describes : Describes n dist links wide clear query blocks) (roomy : wide → n ≤ ef) (left : Nat)
    (searching : Searching n links start ef extra wide (fun _ => False) beam) (enough : demand (List.range n) beam < left) (log : List Nat) :
    ∃ last log', searchTurns (plainReader blocks) clear query ef left beam log = .ok last log' ∧
      Searching n links start ef extra wide (fun _ => True) last ∧ (wide → ∀ v ∈ last.visited, ∀ b ∈ links v, b ∈ last.visited) := by
  induction left generalizing beam log with
  | zero => omega
  | succ left ih =>
      unfold searchTurns
      cases popped : beam.candidates.pop OrderedNode.geq with
      | none =>
          refine ⟨beam,log,rfl,⟨searching.sound,searching.besides,searching.some_,searching.small,searching.entered,fun broad =>
            ⟨(searching.whole broad).1,fun v met => .inr (.inl trivial)⟩⟩,fun broad v met => ?_⟩
          rcases (searching.whole broad).2 v met with queued | pending | followed
          · rw [ids,BinaryHeap.pop_none.mp popped] at queued
            cases queued
          · exact pending.elim
          · exact followed
      | some answer =>
          obtain ⟨c,candidates⟩ := answer
          have split := ids_pop popped
          have smaller : candidates.size + 1 = beam.candidates.size := by
            rw [←size_ids,←size_ids,split.length_eq,List.length_cons]
          have met := searching.sound.queued c.id (split.mem_iff.mpr List.mem_cons_self)
          obtain ⟨inside,reached⟩ := searching.sound.met c.id met
          rw [List.mem_range] at inside
          have taken : Sound (List.range n) (Reach links start) {beam with candidates:=candidates} :=
            ⟨searching.sound.distinct,searching.sound.met,fun a member => searching.sound.queued a (split.mem_iff.mpr (List.mem_cons_of_mem _ member)),
              searching.sound.kept,searching.sound.once⟩
          have besides := upheld.taken beam candidates searching.besides
          have less : demand (List.range n) {beam with candidates:=candidates} + 1 = demand (List.range n) beam := by
            show candidates.size + ((List.range n).length - beam.visited.length) + 1 = beam.candidates.size + ((List.range n).length - beam.visited.length)
            omega
          have some_ : 0 < ({beam with candidates:=candidates} : Beam D).top.size := searching.some_
          have total : ∃ stop, closed ef c {beam with candidates:=candidates} = .ok stop ∧ (stop = true → ef ≤ beam.top.size) := closed_total c some_
          obtain ⟨stop,decided,when_⟩ := total
          dsimp only
          rw [bind_ok (orPanic_ok decided log)]
          cases stop with
          | true =>
              refine ⟨_,log,rfl,⟨taken,besides,searching.some_,searching.small,searching.entered,fun broad =>
                ⟨(searching.whole broad).1,fun v met => .inr (.inl trivial)⟩⟩,fun broad v met b edge => ?_⟩
              have all : n ≤ ({beam with candidates:=candidates} : Beam D).top.size := (roomy broad).trans (when_ rfl)
              exact taken.everything all (describes.target v (List.mem_range.mp (taken.met v met).1) b edge)
          | false =>
              obtain ⟨node,found,_,ids_,chosen,among,every⟩ := describes.block c.id inside
              have now : Searching n links start ef extra wide (fun v => v = c.id) {beam with candidates:=candidates} := by
                refine ⟨taken,besides,searching.some_,searching.small,searching.entered,fun broad => ⟨(searching.whole broad).1,fun v met => ?_⟩⟩
                rcases (searching.whole broad).2 v met with queued | pending | followed
                · rcases List.mem_cons.mp (split.mem_iff.mp queued) with rfl | still
                  · exact .inr (.inl rfl)
                  · exact .inl still
                · exact pending.elim
                · exact .inr (.inr followed)
              obtain ⟨next,log',ran,after,all,_,less'⟩ := fetchAll_ok upheld describes roomy ids_ (fun b member =>
                ⟨describes.target c.id inside b (among member),.tail reached (among member)⟩) now (log ++ [c.id])
              have later : Searching n links start ef extra wide (fun _ => False) next := by
                refine ⟨after.sound,after.besides,after.some_,after.small,after.entered,fun broad => ⟨(after.whole broad).1,fun v met => ?_⟩⟩
                rcases (after.whole broad).2 v met with queued | rfl | followed
                · exact .inl queued
                · exact .inr (.inr fun b edge => all b (every broad edge))
                · exact .inr (.inr followed)
              obtain ⟨last,log'',ran',ends⟩ := ih later (by omega) log'
              refine ⟨last,log'',?_,ends⟩
              rw [if_neg Bool.false_ne_true,bind_ok (plainReader_run found log),bind_ok (orPanic_ok chosen _),bind_ok ran]
              exact ran'

end Graph
end Beam

section Descent
variable {F D : Type} [Metric F D] [PartialCmp D] [StrictCmp D] {upperLayers : List (UpperLayer F)} {query : List F} {count : Nat} {dist : Nat → D}

-- Each move comes nearer, to a node of the layer.
theorem upperHop_nearer {layer : Nat} (known : ∀ id embedding, upperLayerEmbedding upperLayers id layer = some embedding →
    id < count ∧ cosineDistance query embedding = dist id) (nbrs : List Nat) (best : Nat × D) (improved : Bool) :
    upperHop upperLayers query layer nbrs best improved = (best,improved) ∨
      ∃ id < count, lt (dist id) best.2 = true ∧ upperHop upperLayers query layer nbrs best improved = ((id,dist id),true) := by
  induction nbrs generalizing best improved with
  | nil => exact .inl rfl
  | cons a rest ih =>
      unfold upperHop
      cases held : upperLayerEmbedding upperLayers a layer with
      | none => exact ih best improved
      | some embedding =>
          obtain ⟨inside,measured⟩ := known a embedding held
          dsimp only
          rw [measured]
          split
          · rename_i nearer
            rcases ih (a,dist a) true with stayed | ⟨id,small,less,moved⟩
            · exact .inr ⟨a,inside,nearer,stayed⟩
            · exact .inr ⟨id,small,StrictCmp.trans _ _ _ less nearer,moved⟩
          · exact ih best improved

theorem upperTurns_ok {layer : Nat} (known : ∀ id embedding, upperLayerEmbedding upperLayers id layer = some embedding →
    id < count ∧ cosineDistance query embedding = dist id) (turns id : Nat) (enough : (nearer count dist (dist id)).card < turns) :
    ∃ stop, upperTurns upperLayers query layer turns (id,dist id) = .ok (stop,dist stop) := by
  induction turns generalizing id with
  | zero => omega
  | succ turns ih =>
      unfold upperTurns
      rcases upperHop_nearer known (upperLayerNeighbours upperLayers id layer) (id,dist id) false with stayed | ⟨next,inside,less,moved⟩
      · exact ⟨id,by simp only [stayed]; rfl⟩
      · have shrunk : (nearer count dist (dist next)).card < (nearer count dist (dist id)).card := nearer_shrinks inside less
        obtain ⟨stop,ran⟩ := ih next (by omega)
        exact ⟨stop,by simp only [moved]; exact ran⟩

theorem upperDescent_ok (layer : Nat) (known : ∀ l ≤ layer, ∀ id embedding, upperLayerEmbedding upperLayers id l = some embedding →
    id < count ∧ cosineDistance query embedding = dist id) (turns id : Nat) (enough : count < turns) :
    ∃ stop, upperDescent upperLayers query turns layer (id,dist id) = .ok (stop,dist stop) := by
  induction layer generalizing id with
  | zero => exact ⟨id,rfl⟩
  | succ layer ih =>
      obtain ⟨next,ran⟩ := upperTurns_ok (known (layer + 1) (Nat.le_refl _)) turns id (Nat.lt_of_le_of_lt (nearer_card _ _ _) enough)
      obtain ⟨stop,ended⟩ := ih (fun l low => known l (Nat.le_succ_of_le low)) next
      refine ⟨stop,?_⟩
      unfold upperDescent
      rw [ran]
      exact ended

end Descent

section Indexed
variable {F D : Type} [Metric F D] [Add F] [Sub F] [Mul F] [Div F] [Neg F] [Zero F] [One F] [NatCast F] [PartialCmp F] [Quantised F]
  {h : PlainHnsw F} {hints : List NodeHints} {query : List F}

def measure (query : List F) (h : PlainHnsw F) (id : Nat) : D := cosineDistance query (h.embeddings.getD id [])

-- What a built index has: a well-formed graph of embeddings of one length, and hints
-- for all its nodes.
structure Indexed (h : PlainHnsw F) (hints : List NodeHints) : Prop where
  well : h.WellFormed
  dims : ∀ e ∈ h.embeddings, e.length = h.params.dim
  hinted : h.layer0DirectionalHints = .ok hints
  few : h.embeddings.length < 2 ^ 32

omit [Metric F D] in
theorem Indexed.hint (indexed : Indexed h hints) {id : Nat} (inside : id < h.embeddings.length) : ∃ hint, hints[id]? = some hint ∧
    ∀ packed ∈ hint.packedHints, packed.length = (h.params.dim + 1) / 2 := by
  have listed := mapM_each (R:=fun (item : List F × Nat) hint => ∃ nbrs, directionalHints h.embeddings item.1 nbrs = .ok hint) indexed.hinted
    fun item hint ran => by
      obtain ⟨nbrs,_,made⟩ := except_bind_ok.mp ran
      exact ⟨nbrs,made⟩
  have long := listed.length_eq
  rw [List.length_zipIdx] at long
  have here : hints[id]? = some (hints.get ⟨id,by omega⟩) := List.getElem?_eq_getElem (by omega)
  obtain ⟨⟨x,i⟩,at_,nbrs,made⟩ := paired listed here
  refine ⟨_,here,fun packed member => ?_⟩
  obtain ⟨packs,ran,last⟩ := except_bind_ok.mp made
  have is := Except.ok.inj last
  rw [←is] at member
  obtain ⟨j,at_'⟩ := List.mem_iff_getElem?.mp member
  obtain ⟨n,_,whole⟩ := paired (mapM_each (R:=fun (n : Nat) packed => ∃ e, index h.embeddings n = .ok e ∧ packed = packDirection (e.zipWith (· - ·) x)) ran
    fun n packed ran => by
      obtain ⟨e,found,done⟩ := except_bind_ok.mp ran
      exact ⟨e,found,(Except.ok.inj done).symm⟩) at_'
  obtain ⟨e,found,rfl⟩ := whole
  have first := indexed.dims e (List.mem_of_getElem? (index_ok.mp found))
  rw [List.getElem?_zipIdx,Option.map_eq_some_iff] at at_
  obtain ⟨x',found',same⟩ := at_
  cases same
  have second := indexed.dims x (List.mem_of_getElem? found')
  rw [packDirection_length,List.length_zipWith,first,second,Nat.min_self]

omit [Metric F D] in
theorem Indexed.count (indexed : Indexed h hints) : hints.length = h.embeddings.length := by
  have listed := (mapM_each (R:=fun (_ : List F × Nat) (_ : NodeHints) => True) indexed.hinted fun _ _ _ => trivial).length_eq
  rw [←listed,List.length_zipIdx]

omit [Metric F D] [Add F] [Sub F] [Mul F] [Div F] [Neg F] [Zero F] [One F] [NatCast F] [PartialCmp F] [Quantised F] in
theorem layer0Blocks_at (well : h.WellFormed) {id : Nat} (inside : id < h.embeddings.length) :
    h.layer0Blocks[id]? = some ⟨h.embeddings.getD id [],h.neighbours 0 id⟩ := by
  have inside' : id < h.layer0.length := by rw [well.sized.1]; exact inside
  have list : h.neighbours 0 id = h.layer0.get ⟨id,inside'⟩ := by
    simp [PlainHnsw.neighbours,PlainHnsw.layers,Layers.links,Layers.table,inside']
  have vector : h.embeddings.getD id [] = h.embeddings.get ⟨id,inside⟩ := by simp [inside]
  rw [list,vector,PlainHnsw.layer0Blocks,List.getElem?_zipWith,List.getElem?_eq_getElem inside,List.getElem?_eq_getElem inside']
  rfl

omit [Neg F] [Quantised F] in
-- The filter answers for every node, with some of its neighbours.
theorem candidatesForFetch_ok {clear : Cleartext F} {c : Nat} {node : NodeBlock F} {hint : NodeHints} (found : clear.layer0Hints[c]? = some hint)
    (long : ∀ packed ∈ hint.packedHints, (query.zipWith (· - ·) node.embedding).length ≤ 2 * packed.length) :
    ∃ ids, candidatesForFetch clear query c node = .ok ids ∧ ids ⊆ node.neighbors ∧
      (node.neighbors.length ≤ clear.params.efN → ids = node.neighbors) := by
  unfold candidatesForFetch
  split
  · exact ⟨_,rfl,List.Subset.refl _,fun _ => rfl⟩
  · rename_i many
    obtain ⟨scored,ran,listed⟩ := mapM_related (ε:=String) (R:=fun (item : Nat × Bytes) (out : F × Nat) => out.2 = item.1)
      (f:=fun item => do return (← scorePacked item.2 (query.zipWith (· - ·) node.embedding),item.1)) (node.neighbors.zip hint.packedHints)
      fun item member => by
        obtain ⟨score,scored⟩ := scorePacked_ok (long item.2 (List.of_mem_zip member).2)
        exact ⟨(score,item.1),by simp only [scored]; rfl,rfl⟩
    refine ⟨((sortBy (fun a b => cmpOrEqual b.1 a.1) scored).take clear.params.efN).map Prod.snd,?_,fun id member => ?_,fun few => absurd few many⟩
    · exact except_bind_ok.mpr ⟨hint,index_ok.mpr found,except_bind_ok.mpr ⟨scored,ran,rfl⟩⟩
    · obtain ⟨out,taken,rfl⟩ := List.mem_map.mp member
      obtain ⟨j,at_⟩ := List.mem_iff_getElem?.mp ((sortBy_perm _ scored).mem_iff.mp (List.mem_of_mem_take taken))
      obtain ⟨item,source,is⟩ := paired listed at_
      rw [is]
      exact (List.of_mem_zip (List.mem_of_getElem? source)).1

theorem Indexed.describes [PartialCmp D] (indexed : Indexed h hints) {clear : Cleartext F} (same : clear.layer0Hints = hints) (shaped : query.length = h.params.dim)
    {wide : Prop} (unfiltered : wide → h.params.maxNeighborsL0 ≤ clear.params.efN) :
    Beam.Describes h.embeddings.length (measure query h) (h.neighbours 0) wide clear query h.layer0Blocks := by
  refine ⟨fun id inside => ?_,fun a _ b edge => (indexed.well.leveled 0 (Nat.zero_le _) a b edge).1⟩
  obtain ⟨hint,found,packed⟩ := indexed.hint inside
  rw [←same] at found
  have filtered : ∃ ids, candidatesForFetch clear query id ⟨h.embeddings.getD id [],h.neighbours 0 id⟩ = .ok ids ∧ ids ⊆ h.neighbours 0 id ∧
      ((h.neighbours 0 id).length ≤ clear.params.efN → ids = h.neighbours 0 id) := candidatesForFetch_ok found fun bytes member => by
    rw [packed bytes member,List.length_zipWith,shaped]
    omega
  obtain ⟨ids,chosen,among,all⟩ := filtered
  refine ⟨_,layer0Blocks_at indexed.well inside,rfl,ids,chosen,among,fun broad => ?_⟩
  rw [all ((indexed.well.bounded 0 (Nat.zero_le _) id).trans (unfiltered broad))]
  exact List.Subset.refl _

omit [Add F] [Sub F] [Mul F] [Div F] [Neg F] [Zero F] [One F] [NatCast F] [PartialCmp F] [Quantised F] in
-- The cache has the embeddings of the graph's nodes.
theorem upperLayerEmbedding_cache (well : h.WellFormed) {layer id : Nat} {embedding : List F}
    (held : upperLayerEmbedding (buildUpperLayerCache h) id layer = some embedding) :
    id < h.embeddings.length ∧ cosineDistance query embedding = measure query h id := by
  unfold upperLayerEmbedding at held
  split at held
  · cases held
  · obtain ⟨nodes,at_,found⟩ := Option.bind_eq_some_iff.mp held
    rw [buildUpperLayerCache,List.getElem?_map,Option.map_eq_some_iff] at at_
    obtain ⟨adj,listed,rfl⟩ := at_
    obtain ⟨node,present,rfl⟩ := Option.map_eq_some_iff.mp found
    obtain ⟨neighbours,key,rfl⟩ := Option.map_eq_some_iff.mp present
    obtain ⟨inside,is⟩ := List.getElem?_eq_some_iff.mp listed
    exact ⟨((well.keyed _ inside id).mp (by rw [is,key]; rfl)).1,rfl⟩

omit [Add F] [Sub F] [Mul F] [Div F] [Neg F] [Zero F] [One F] [NatCast F] [PartialCmp F] [Quantised F] in
theorem entryDistance_ok (well : h.WellFormed) {clear : Cleartext F} (entry : clear.entry = h.entry) (top : clear.topLayer = h.topLayer)
    (cache : clear.upperLayers = buildUpperLayerCache h) :
    ∃ log, entryDistance (plainReader h.layer0Blocks) clear query [] = .ok (measure query h h.entry) log := by
  unfold entryDistance
  rw [entry,top,cache]
  split
  · rw [bind_ok (plainReader_run (layer0Blocks_at well well.entered.1) [])]
    exact ⟨_,rfl⟩
  · rename_i tall
    have inside : h.topLayer - 1 < h.upper.length := by rw [well.sized.2.2]; omega
    have key := (well.keyed _ inside h.entry).mpr ⟨well.entered.1,by rw [well.entered.2]; omega⟩
    obtain ⟨neighbours,listed⟩ := Option.isSome_iff_exists.mp key
    have held : upperLayerEmbedding (buildUpperLayerCache h) h.entry h.topLayer = some (h.embeddings.getD h.entry []) := by
      unfold upperLayerEmbedding buildUpperLayerCache
      rw [if_neg tall,List.getElem?_map,List.getElem?_eq_getElem inside]
      simp [listed]
    rw [held]
    exact ⟨[],rfl⟩

end Indexed

section Results
variable {D : Type} [LinearOrder D]

-- Before another by distance, and by id where the distances are equal.
def Nearer (dist : Nat → D) (a b : Nat) : Prop := dist a < dist b ∨ dist a = dist b ∧ a < b

-- The answer is the first of the kept nodes.
theorem nearest_ranked {beam : Beam D} {dist : Nat → D} (measured : ∀ node ∈ beam.top.toList, node.dist = dist node.id)
    (once : (Beam.ids beam.top).Nodup) (k : Nat) :
    ∃ kept : List Nat, beam.nearest k = kept.take k ∧ kept.Perm (Beam.ids beam.top) ∧ kept.Pairwise (Nearer dist) := by
  have order := sortBy_perm OrderedNode.cmp beam.top.toList
  have names : ((sortBy OrderedNode.cmp beam.top.toList).map OrderedNode.id).Perm (Beam.ids beam.top) := order.map _
  refine ⟨_,List.map_take,names,?_⟩
  have sorted : (sortBy OrderedNode.cmp beam.top.toList).Pairwise fun a b => OrderedNode.le a b = true :=
    sortBy_pairwise (fun a b => by simp [OrderedNode.le]) OrderedNode.le_total OrderedNode.le_trans _
  have apart_ := names.nodup_iff.mpr once
  rw [List.pairwise_map]
  refine (sorted.and (List.pairwise_map.mp apart_)).imp_of_mem fun first second both => ?_
  obtain ⟨before,differ⟩ := both
  rw [OrderedNode.le_iff,measured _ (order.mem_iff.mp first),measured _ (order.mem_iff.mp second)] at before
  exact before.imp id fun tie => ⟨tie.1,Nat.lt_of_le_of_ne tie.2 differ⟩

end Results

-- The fields in the clear of an index on a graph.
def cleartext {F : Type} (h : PlainHnsw F) (params : CompassIndexParams F) (hints : List NodeHints) : Cleartext F :=
  ⟨params,h.entry,h.topLayer,buildUpperLayerCache h,hints⟩

section Answers
variable {F D : Type} [Metric F D] [Add F] [Sub F] [Mul F] [Div F] [Neg F] [Zero F] [One F] [NatCast F] [PartialCmp F] [Quantised F]
  {h : PlainHnsw F} {hints : List NodeHints} {params : CompassIndexParams F} {query : List F}

-- A search has room for every node, and no list is filtered.
def Wide (h : PlainHnsw F) (params : CompassIndexParams F) (k : Nat) : Prop :=
  h.embeddings.length ≤ max params.efSearch k ∧ params.hnsw.maxNeighborsL0 ≤ params.efN

-- Over the blocks a search ends, whatever the distances compare as.
theorem plain_run [PartialCmp D] [StrictCmp D] (indexed : Indexed h hints) (same : params.hnsw = h.params) (shaped : query.length = params.hnsw.dim) (k : Nat)
    {extra : Beam D → Prop} (upheld : Beam.Upheld (max params.efSearch k) (measure query h) extra) :
    ∃ stop beam reads, upperDescent (buildUpperLayerCache h) query (turnLimit (cleartext h params hints)) h.topLayer
        (h.entry,(measure query h h.entry : D)) = .ok (stop,measure query h stop) ∧
      keptBeam (plainReader h.layer0Blocks) (cleartext h params hints) query k [] = .ok beam reads ∧
      Beam.Searching h.embeddings.length (h.neighbours 0) stop (max params.efSearch k) extra (Wide h params k) (fun _ => True) beam ∧
      (Wide h params k → ∀ v ∈ beam.visited, ∀ b ∈ h.neighbours 0 v, b ∈ beam.visited) := by
  rw [same] at shaped
  have limit : turnLimit (cleartext h params hints) = h.embeddings.length + 1 := by rw [turnLimit,cleartext,indexed.count]
  have known : ∀ l ≤ h.topLayer, ∀ id embedding, upperLayerEmbedding (buildUpperLayerCache h) id l = some embedding →
      id < h.embeddings.length ∧ (cosineDistance query embedding : D) = measure query h id :=
    fun _ _ _ _ held => upperLayerEmbedding_cache indexed.well held
  obtain ⟨stop,ran⟩ := upperDescent_ok h.topLayer known (turnLimit (cleartext h params hints)) h.entry (by omega)
  have lands := (descent_lands indexed.well query _ _ ran).1
  have describes : Beam.Describes h.embeddings.length (measure (D:=D) query h) (h.neighbours 0) (Wide h params k) (cleartext h params hints) query h.layer0Blocks :=
    indexed.describes rfl shaped fun broad => same ▸ broad.2
  have start : Beam.Searching h.embeddings.length (h.neighbours 0) stop (max params.efSearch k) extra (Wide h params k) (fun _ => False)
      (startBeam (stop,measure query h stop)) := Beam.searching_start upheld lands
  have few : Beam.demand (List.range h.embeddings.length) (startBeam (stop,(measure query h stop : D))) <
      turnLimit (cleartext h params hints) := by
    have queue : (startBeam (stop,(measure query h stop : D))).candidates.size = 1 := by
      have one := (Beam.ids_push OrderedNode.geq BinaryHeap.new (⟨stop,measure query h stop⟩ : OrderedNode D)).length_eq
      rw [Beam.size_ids] at one
      exact one
    rw [Beam.demand,queue,limit,List.length_range]
    show 1 + (h.embeddings.length - 1) < h.embeddings.length + 1
    omega
  have begun : ∃ log, entryDistance (plainReader h.layer0Blocks) (cleartext h params hints) query [] = .ok (measure (D:=D) query h h.entry) log :=
    entryDistance_ok indexed.well rfl rfl rfl
  obtain ⟨log,begun⟩ := begun
  obtain ⟨beam,reads,searched,ended,closed⟩ := Beam.searchTurns_ok upheld describes (fun broad => broad.1) _ start few log
  exact ⟨stop,beam,reads,ran,(bind_ok begun).trans ((bind_ok (orPanic_ok ran log)).trans searched),ended,closed⟩

variable [LinearOrder D]

-- What a search answers from the node at which the descent stops: the first of the
-- nodes it keeps, by distance and id. No node it has evaluated besides is nearer than
-- one of these; and with room for all nodes, and no filter, they are all that the
-- layer-0 lists lead to.
def Answers (h : PlainHnsw F) (params : CompassIndexParams F) (query : List F) (k stop : Nat) (evaluated answer : List Nat) : Prop :=
  ∃ kept : List Nat, answer = kept.take k ∧ kept.Pairwise (Nearer (measure query h)) ∧ kept.length ≤ max (max params.efSearch k) 1 ∧
    (∀ v ∈ kept, v ∈ evaluated) ∧ (∀ v ∈ evaluated, v < h.embeddings.length ∧ Reach (h.neighbours 0) stop v) ∧
    (∀ v ∈ evaluated, v ∉ kept → ∀ u ∈ kept, ¬ measure query h v < measure query h u) ∧
    (Wide h params k → ∀ v, v ∈ kept ↔ Reach (h.neighbours 0) stop v)

-- Where the distances are ordered it answers so.
theorem plain_search (indexed : Indexed h hints) (same : params.hnsw = h.params) (shaped : query.length = params.hnsw.dim) (k : Nat) :
    ∃ stop beam reads, upperDescent (buildUpperLayerCache h) query (turnLimit (cleartext h params hints)) h.topLayer
        (h.entry,measure query h h.entry) = .ok (stop,measure query h stop) ∧
      keptBeam (plainReader h.layer0Blocks) (cleartext h params hints) query k [] = .ok beam reads ∧
      Answers h params query k stop beam.visited (beam.nearest k) := by
  obtain ⟨stop,beam,reads,ran,searched,ended,closed⟩ := plain_run indexed same shaped k (Beam.upheld_ranked _ _)
  refine ⟨stop,beam,reads,ran,searched,?_⟩
  have ranked := ended.besides
  obtain ⟨kept,answer,perm,sorted⟩ := nearest_ranked ranked.measured ended.sound.once k
  have inside : ∀ v ∈ kept, v ∈ beam.visited := fun v member => ended.sound.kept v (perm.mem_iff.mp member)
  refine ⟨kept,answer,sorted,?_,inside,fun v met => ?_,fun v met out u member closer => ?_,fun wide v => ⟨fun member => ?_,fun path => ?_⟩⟩
  · rw [perm.length_eq,Beam.size_ids]
    exact ended.small
  · obtain ⟨small,reached⟩ := ended.sound.met v met
    exact ⟨List.mem_range.mp small,reached⟩
  · obtain ⟨node,listed,rfl⟩ := List.mem_map.mp (perm.mem_iff.mp member)
    rcases ranked.dominated v met with held | ⟨_,others⟩
    · exact out (perm.mem_iff.mpr held)
    · have least := others node listed
      rw [ranked.measured node listed] at least
      exact absurd closer (not_lt.mpr least)
  · exact (ended.sound.met v (inside v member)).2
  · exact perm.mem_iff.mpr ((ended.whole wide).1 v (path.stays (closed wide) ended.entered))

end Answers
end Compass
