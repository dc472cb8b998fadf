import GeloLightrag.Compass.Search
import GeloLightrag.Foundation.HeapOrder

namespace Compass
open Foundation

namespace OrderedNode
variable {D : Type} [LinearOrder D]

-- The order of both heaps: by distance and then by id.
theorem le_iff {a b : OrderedNode D} : le a b = true ↔ a.dist < b.dist ∨ a.dist = b.dist ∧ a.id ≤ b.id := by
  unfold le cmp cmpOrEqual
  simp only [partialCmp,Option.getD_some,bne_iff_ne,ne_eq]
  rcases lt_trichotomy a.dist b.dist with less | same | more
  · simp [compare_lt_iff_lt.mpr less,less,Ordering.then]
  · simp [same,Ordering.then,Nat.compare_eq_gt]
  · simp [compare_gt_iff_gt.mpr more,Ordering.then,not_lt.mpr more.le,more.ne']

theorem le_total (a b : OrderedNode D) : le a b = true ∨ le b a = true := by
  rw [le_iff,le_iff]
  rcases lt_trichotomy a.dist b.dist with less | same | more
  · exact .inl (.inl less)
  · exact (Nat.le_total a.id b.id).imp (fun first => .inr ⟨same,first⟩) fun first => .inr ⟨same.symm,first⟩
  · exact .inr (.inl more)

theorem le_trans (a b c : OrderedNode D) (first : le a b = true) (second : le b c = true) : le a c = true := by
  rw [le_iff] at *
  rcases first with less | ⟨same,small⟩
  · exact .inl (second.elim less.trans fun here => here.1 ▸ less)
  · rcases second with less | ⟨same',small'⟩
    · exact .inl (same ▸ less)
    · exact .inr ⟨same.trans same',Nat.le_trans small small'⟩

theorem dist_le {a b : OrderedNode D} (before : le a b = true) : a.dist ≤ b.dist := (le_iff.mp before).elim (fun less => less.le) fun here => here.1.le

end OrderedNode

namespace Beam
section
variable {D : Type} [PartialCmp D] {ef : Nat} {beam next : Beam D}

omit [PartialCmp D] in
theorem farthest_run (far : beam.farthest = .ok d) : ∃ node, beam.top.peek = some node ∧ node.dist = d := by
  unfold farthest at far
  cases peeked : beam.top.peek with
  | none => rw [peeked] at far; cases far
  | some node => rw [peeked] at far; exact ⟨node,rfl,Except.ok.inj far⟩

-- A node is kept while there is room, or takes the place of the farthest.
theorem offer_cases {node : OrderedNode D} (offered : beam.offer ef node = .ok next) :
    beam.top.size < ef ∧ next = beam.keep node ∨
      ef ≤ beam.top.size ∧ ∃ far rest, beam.top.pop OrderedNode.le = some (far,rest) ∧ beam.top.peek = some far ∧
        (lt node.dist far.dist = true ∧ next = Beam.keep node {beam with top:=rest} ∨ ¬ lt node.dist far.dist = true ∧ next = beam) := by
  unfold offer at offered
  split at offered
  · rename_i room
    cases offered
    exact .inl ⟨room,rfl⟩
  · rename_i full
    obtain ⟨d,read,later⟩ := except_bind_ok.mp offered
    obtain ⟨far,peeked,rfl⟩ := farthest_run read
    have some_ : beam.top.pop OrderedNode.le ≠ none := fun none_ => by
      have empty := BinaryHeap.pop_none.mp none_
      have listed : far ∈ beam.top.toList := List.mem_iff_getElem?.mpr ⟨0,by rw [BinaryHeap.toList,Array.getElem?_toList]; exact peeked⟩
      rw [empty] at listed
      cases listed
    obtain ⟨⟨top,rest⟩,popped⟩ := Option.ne_none_iff_exists'.mp some_
    obtain rfl := Option.some.inj ((BinaryHeap.pop_peek popped).symm.trans peeked)
    refine .inr ⟨Nat.le_of_not_lt full,top,rest,popped,peeked,?_⟩
    split at later
    · rename_i nearer
      cases later
      refine .inl ⟨nearer,?_⟩
      unfold dropFarthest
      rw [popped]
    · rename_i farther
      cases later
      exact .inr ⟨farther,rfl⟩

end

variable {D : Type} [LinearOrder D] {ef : Nat} {dist : Nat → D} {beam next : Beam D}

-- What is kept is the nearest of what has been met: the heap is one, the distances
-- are those of the nodes, and a node met and not kept is no nearer than any kept.
structure Ranked (ef : Nat) (dist : Nat → D) (beam : Beam D) : Prop where
  heap : BinaryHeap.Heap OrderedNode.le beam.top
  measured : ∀ node ∈ beam.top.toList, node.dist = dist node.id
  dominated : ∀ v ∈ beam.visited, v ∈ ids beam.top ∨ ef ≤ beam.top.size ∧ ∀ node ∈ beam.top.toList, node.dist ≤ dist v

theorem ranked_new (ef : Nat) (dist : Nat → D) : Ranked ef dist ⟨[],.new,.new⟩ :=
  ⟨BinaryHeap.heap_new,fun _ member => absurd member List.not_mem_nil,fun _ member => absurd member List.not_mem_nil⟩

-- A node met for the first time and kept.
theorem ranked_keep (heap : BinaryHeap.Heap OrderedNode.le beam.top) (measured : ∀ node ∈ beam.top.toList, node.dist = dist node.id)
    (n : Nat) (node : OrderedNode D) (own : node = ⟨n,dist n⟩)
    (kept : ∀ v ∈ beam.visited, v ∈ ids beam.top ∨ ef ≤ (beam.keep node).top.size ∧ dist n ≤ dist v ∧ ∀ other ∈ beam.top.toList, other.dist ≤ dist v) :
    Ranked ef dist {(beam.keep node) with visited:=n :: beam.visited} := by
  have listed := @BinaryHeap.push_perm _ OrderedNode.le beam.top node
  refine ⟨BinaryHeap.heap_push OrderedNode.le_total OrderedNode.le_trans heap node,fun other member => ?_,fun v member => ?_⟩
  · rcases List.mem_cons.mp (listed.mem_iff.mp member) with rfl | before
    · rw [own]
    · exact measured other before
  · rcases List.mem_cons.mp member with rfl | met
    · exact .inl ((ids_push _ _ node).mem_iff.mpr (by rw [own]; exact List.mem_cons_self))
    · rcases kept v met with held | ⟨full,near,others⟩
      · exact .inl ((ids_push _ _ node).mem_iff.mpr (List.mem_cons_of_mem _ held))
      · refine .inr ⟨full,fun other inside => ?_⟩
        rcases List.mem_cons.mp (listed.mem_iff.mp inside) with rfl | before
        · rw [own]; exact near
        · exact others other before

theorem Ranked.offered (ranked : Ranked ef dist beam) (n : Nat)
    (offered : Beam.offer ef ⟨n,dist n⟩ {beam with visited:=n :: beam.visited} = .ok next) : Ranked ef dist next := by
  rcases offer_cases offered with ⟨room,rfl⟩ | ⟨full,far,rest,popped,peeked,⟨closer,rfl⟩ | ⟨beyond,rfl⟩⟩
  · exact ranked_keep ranked.heap ranked.measured n ⟨n,dist n⟩ rfl fun v met => (ranked.dominated v met).imp id fun held =>
      absurd room (Nat.not_lt.mpr held.1)
  · have nearer := lt_iff.mp closer
    have split := BinaryHeap.pop_perm popped
    have above := BinaryHeap.greatest OrderedNode.le_total OrderedNode.le_trans ranked.heap peeked
    have fewer : ∀ node ∈ rest.toList, node ∈ beam.top.toList := fun node member => split.mem_iff.mpr (List.mem_cons_of_mem _ member)
    have size : rest.size + 1 = beam.top.size := by
      have counted := split.length_eq
      rw [List.length_cons,BinaryHeap.toList_length,BinaryHeap.toList_length] at counted
      exact counted.symm
    have farthest : far.dist = dist far.id := ranked.measured far (split.mem_iff.mpr List.mem_cons_self)
    have left : BinaryHeap.Heap OrderedNode.le ({beam with top:=rest} : Beam D).top :=
      BinaryHeap.heap_pop OrderedNode.le_total OrderedNode.le_trans ranked.heap popped
    refine ranked_keep left (fun node member => ranked.measured node (fewer node member)) n ⟨n,dist n⟩ rfl fun v met => ?_
    have grown : ef ≤ (Beam.keep ⟨n,dist n⟩ {beam with top:=rest}).top.size := by
      rw [(keep_demand _ _).2]
      exact full.trans size.ge
    rcases ranked.dominated v met with held | ⟨_,others⟩
    · rcases List.mem_cons.mp ((ids_pop popped).mem_iff.mp held) with rfl | stays
      · refine .inr ⟨grown,farthest ▸ nearer.le,fun other member => farthest ▸ OrderedNode.dist_le (above other (fewer other member))⟩
      · exact .inl stays
    · exact .inr ⟨grown,nearer.le.trans (others far (split.mem_iff.mpr List.mem_cons_self)),fun other member => others other (fewer other member)⟩
  · have farther : far.dist ≤ dist n := not_lt.mp fun nearer => beyond (lt_iff.mpr nearer)
    refine ⟨ranked.heap,ranked.measured,fun v member => ?_⟩
    rcases List.mem_cons.mp member with rfl | met
    · have above := BinaryHeap.greatest OrderedNode.le_total OrderedNode.le_trans ranked.heap peeked
      exact .inr ⟨full,fun other inside => (OrderedNode.dist_le (above other inside)).trans farther⟩
    · exact ranked.dominated v met

section Building
variable {F : Type} [Metric F D] {embeddings : List (List F)} {target : Nat}

omit [LinearOrder D] in
theorem distance_apart (measured : distance embeddings a b = .ok d) : d = apart embeddings a b := by
  unfold distance at measured
  obtain ⟨left,first,rest⟩ := except_bind_ok.mp measured
  obtain ⟨right,second,last⟩ := except_bind_ok.mp rest
  cases last
  rw [apart,List.getD_eq_getElem?_getD,List.getD_eq_getElem?_getD,index_ok.mp first,index_ok.mp second]
  rfl

-- The entry points are all kept.
theorem seed_ranked (inserted entries : List Nat) (ranked : Ranked ef (apart embeddings target) beam) (all : ∀ v ∈ beam.visited, v ∈ ids beam.top) :
    Gives True (seed embeddings target inserted entries beam) fun next => Ranked ef (apart embeddings target) next := by
  induction entries generalizing beam with
  | nil => exact ranked
  | cons e rest ih =>
      unfold seed
      split
      · cases measured : distance embeddings target e with
        | error text => exact .intro
        | ok d =>
            obtain rfl := distance_apart measured
            have kept := @ranked_keep _ _ ef _ _ ranked.heap ranked.measured e ⟨e,apart embeddings target e⟩ rfl fun v met => .inl (all v met)
            refine ih kept fun v met => ?_
            rcases List.mem_cons.mp met with rfl | met
            · exact (ids_push _ _ _).mem_iff.mpr List.mem_cons_self
            · exact (ids_push _ _ _).mem_iff.mpr (List.mem_cons_of_mem _ (all v met))
      · exact ih ranked all

theorem consider_ranked (inserted : List Nat) (n : Nat) (ranked : Ranked ef (apart embeddings target) beam) :
    Gives True (consider embeddings target ef inserted n beam) fun next => Ranked ef (apart embeddings target) next := by
  have parts : consider embeddings target ef inserted n beam = if n ∉ inserted ∨ n ∈ beam.visited then .ok beam
      else (distance embeddings target n).bind fun d => Beam.offer ef ⟨n,d⟩ {beam with visited:=n :: beam.visited} := rfl
  rw [parts]
  split
  · exact ranked
  · cases measured : distance embeddings target n with
    | error text => exact .intro
    | ok d =>
        obtain rfl := distance_apart measured
        show Gives True (Beam.offer ef _ _) _
        cases offered : Beam.offer ef ⟨n,apart embeddings target n⟩ {beam with visited:=n :: beam.visited} with
        | error text => exact .intro
        | ok next => exact ranked.offered n offered

theorem considerAll_ranked (inserted nbrs : List Nat) (ranked : Ranked ef (apart embeddings target) beam) :
    Gives True (considerAll embeddings target ef inserted nbrs beam) fun next => Ranked ef (apart embeddings target) next := by
  induction nbrs generalizing beam with
  | nil => exact ranked
  | cons n rest ih => exact (consider_ranked inserted n ranked).bind fun next reached => ih reached

theorem turns_ranked (layer : Nat) (inserted : List Nat) (layers : Layers) (left : Nat) (ranked : Ranked ef (apart embeddings target) beam) :
    Gives True (turns embeddings target layer ef inserted layers left beam) fun next => Ranked ef (apart embeddings target) next := by
  induction left generalizing beam with
  | zero => exact .intro
  | succ left ih =>
      unfold turns
      split
      · exact ranked
      · rename_i c candidates _
        have taken : Ranked ef (apart embeddings target) {beam with candidates:=candidates} := ⟨ranked.heap,ranked.measured,ranked.dominated⟩
        refine @Gives.bind _ _ _ _ _ _ (fun _ => True) _ (by cases closed ef c {beam with candidates:=candidates} <;> trivial) fun stop _ => ?_
        cases stop with
        | true => exact taken
        | false =>
            refine @Gives.bind _ _ _ _ _ _ (fun _ => True) _ (by cases layers.neighboursOf c.id layer <;> trivial) fun nbrs _ => ?_
            exact (considerAll_ranked inserted nbrs taken).bind fun next reached => ih reached

-- The list a build searches for: what the beam keeps, and no node met besides is
-- nearer than one of these.
theorem beamSearchLayer_dominates {entries inserted : List Nat} {layer : Nat} {layers : Layers} {out : List (NodeDist D)}
    (ran : beamSearchLayer embeddings target entries layer ef layers inserted = .ok out) :
    ∃ seeded beam : Beam D, seed embeddings target inserted entries ⟨[],.new,.new⟩ = .ok seeded ∧
      turns embeddings target layer ef inserted layers (inserted.length + 1) seeded = .ok beam ∧
      (out.map NodeDist.id).Perm (ids beam.top) ∧ (∀ u ∈ out, u.dist = apart embeddings target u.id) ∧
      ∀ v ∈ beam.visited, v ∉ out.map NodeDist.id → ∀ u ∈ out, ¬ apart embeddings target v < u.dist := by
  obtain ⟨_,_,ran⟩ := except_bind_ok.mp ran
  obtain ⟨seeded,sown,ran⟩ := except_bind_ok.mp ran
  obtain ⟨beam,searched,ran⟩ := except_bind_ok.mp ran
  cases ran
  have first := @seed_ranked _ _ ef _ _ _ embeddings target inserted entries (ranked_new ef (apart embeddings target)) fun v met => absurd met List.not_mem_nil
  rw [sown] at first
  have last := turns_ranked layer inserted layers (inserted.length + 1) first
  rw [searched] at last
  have listed : ∀ u : NodeDist D, u ∈ NodeDist.sorted (beam.top.toList.map fun node => ⟨node.id,node.dist⟩) → ∃ node ∈ beam.top.toList, u = ⟨node.id,node.dist⟩ := by
    intro u member
    obtain ⟨node,held,same⟩ := List.mem_map.mp ((sortBy_perm _ _).mem_iff.mp member)
    exact ⟨node,held,same.symm⟩
  have order : ((NodeDist.sorted (beam.top.toList.map fun node => NodeDist.mk node.id node.dist)).map NodeDist.id).Perm (ids beam.top) := by
    refine (sorted_ids _).trans ?_
    rw [List.map_map]
    exact .refl _
  refine ⟨seeded,beam,sown,searched,order,fun u member => ?_,fun v met out u member => ?_⟩
  · obtain ⟨node,held,rfl⟩ := listed u member
    exact last.measured node held
  · obtain ⟨node,held,rfl⟩ := listed u member
    rcases last.dominated v met with kept | ⟨_,others⟩
    · exact absurd (order.mem_iff.mpr kept) out
    · exact not_lt.mpr (others node held)

end Building
end Beam
end Compass
