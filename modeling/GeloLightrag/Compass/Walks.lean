import Mathlib.Data.Finset.Card
import Mathlib.Data.Finset.Filter
import Mathlib.Data.Finset.Range
import GeloLightrag.Compass.HnswPlain
import GeloLightrag.Foundation.Proximity

namespace Compass
open Foundation

theorem index_ok {items : List α} : index items i = .ok a ↔ items[i]? = some a := by
  unfold index
  cases items[i]? <;> simp

theorem index_inside {items : List α} (inside : i < items.length) : index items i = .ok items[i] :=
  index_ok.mpr (List.getElem?_eq_getElem inside)

namespace Layers

def table (layers : Layers) (layer : Nat) : Nat → Option (List Nat) :=
  if layer = 0 then fun id => layers.layer0[id]? else layers.upper.getD (layer - 1) fun _ => none

def links (layers : Layers) (layer id : Nat) : List Nat := (layers.table layer id).getD []

structure Sized (layers : Layers) (n top : Nat) : Prop where
  base : layers.layer0.length = n
  above : layers.upper.length = top

variable {layers : Layers} {n top : Nat}

theorem neighboursOf_ok (sized : layers.Sized n top) (inside : layer ≤ top) (node : a < n) :
    layers.neighboursOf a layer = .ok (layers.links layer a) := by
  unfold neighboursOf links table
  by_cases ground : layer = 0
  · have here : a < layers.layer0.length := by rw [sized.base]; exact node
    simp [ground,index_inside here,here]
  · have here : layer - 1 < layers.upper.length := by rw [sized.above]; omega
    simp [ground,index_inside here,here,bind,Except.bind,pure,Except.pure]

theorem setNeighbours_ok (sized : layers.Sized n top) (inside : layer ≤ top) (node : a < n) (neighbours : List Nat) :
    Gives may (layers.setNeighbours a layer neighbours) fun next => next.Sized n top ∧
      ∀ l, next.table l = if l = layer then Function.update (layers.table layer) a (some neighbours) else layers.table l := by
  unfold setNeighbours
  by_cases ground : layer = 0
  · have here : a < layers.layer0.length := by rw [sized.base]; exact node
    rw [if_pos ground]
    refine .after (index_inside here) (.pure ⟨⟨by simpa using sized.base,sized.above⟩,fun l => ?_⟩)
    by_cases same : l = layer
    · funext b
      by_cases this : b = a
      · simp [same,ground,table,this,here]
      · simp [same,ground,table,List.getElem?_set,Ne.symm this,this]
    · have above : l ≠ 0 := fun zero => same (zero.trans ground.symm)
      simp [same,table,above]
  · have here : layer - 1 < layers.upper.length := by rw [sized.above]; omega
    rw [if_neg ground]
    refine .after (index_inside here) (.pure ⟨⟨sized.base,by simpa using sized.above⟩,fun l => ?_⟩)
    by_cases same : l = layer
    · simp [same,ground,table,here]
    · by_cases zero : l = 0
      · simp [zero,table,Ne.symm ground]
      · have apart : layer - 1 ≠ l - 1 := by omega
        simp [same,table,zero,List.getD_eq_getElem?_getD,List.getElem?_set,apart]

end Layers

section
variable {F D : Type} [Metric F D] {embeddings : List (List F)}

-- The distance between two nodes, without the bounds checks.
def apart (embeddings : List (List F)) (a b : Nat) : D := cosineDistance (embeddings.getD a []) (embeddings.getD b [])

theorem distance_ok (left : a < embeddings.length) (right : b < embeddings.length) :
    distance embeddings a b = .ok (apart embeddings a b) := by
  unfold distance apart
  rw [index_inside left,index_inside right]
  simp [left,right,bind,Except.bind,pure,Except.pure]

section Descent
variable [PartialCmp D] [StrictCmp D]

theorem hop_ok (here : target < embeddings.length) (nbrs : List Nat) (known : ∀ a ∈ nbrs, a < embeddings.length)
    (best : Nat × D) (improved : Bool) :
    Gives may (hop embeddings target nbrs best improved) fun out => out = (best,improved) ∨
      (out.1.1 ∈ nbrs ∧ out.1.2 = apart embeddings target out.1.1 ∧ lt out.1.2 best.2 = true ∧ out.2 = true) := by
  induction nbrs generalizing best improved with
  | nil => exact .pure (.inl rfl)
  | cons a rest ih =>
      have others := fun b member => known b (List.mem_cons_of_mem _ member)
      refine .after (distance_ok here (known a List.mem_cons_self)) ?_
      split
      · rename_i nearer
        refine (ih others _ true).imp fun out reached => .inr ?_
        rcases reached with rfl | ⟨member,is,closer,flag⟩
        · exact ⟨List.mem_cons_self,rfl,nearer,rfl⟩
        · exact ⟨List.mem_cons_of_mem _ member,is,StrictCmp.trans _ _ _ closer nearer,flag⟩
      · refine (ih others best improved).imp fun out reached => ?_
        rcases reached with same | ⟨member,is,closer,flag⟩
        · exact .inl same
        · exact .inr ⟨List.mem_cons_of_mem _ member,is,closer,flag⟩

-- The nodes that are nearer than the best so far.
def nearer (n : Nat) (d : Nat → D) (bound : D) : Finset Nat := (Finset.range n).filter fun a => lt (d a) bound = true

theorem nearer_shrinks {d : Nat → D} (node : a < n) (closer : lt (d a) bound = true) :
    (nearer n d (d a)).card < (nearer n d bound).card := by
  apply Finset.card_lt_card
  constructor
  · intro b member
    obtain ⟨known,nearest⟩ := Finset.mem_filter.mp member
    exact Finset.mem_filter.mpr ⟨known,StrictCmp.trans _ _ _ nearest closer⟩
  · intro all
    have itself := all (Finset.mem_filter.mpr ⟨Finset.mem_range.mpr node,closer⟩)
    rw [nearer,Finset.mem_filter,StrictCmp.irrefl] at itself
    exact absurd itself.2 Bool.false_ne_true

theorem nearer_card (n : Nat) (d : Nat → D) (bound : D) : (nearer n d bound).card ≤ n := by
  refine (Finset.card_filter_le _ _).trans ?_
  rw [Finset.card_range]

variable {layers : Layers} {n top layer : Nat} {holds : Nat → Prop}

theorem greedyTurns_ok (sized : layers.Sized n top) (inside : layer ≤ top) (here : target < embeddings.length)
    (known : ∀ a, holds a → a < n ∧ a < embeddings.length) (closed : ∀ a, holds a → ∀ b ∈ layers.links layer a, holds b)
    (turns : Nat) (best : Nat × D) (now : holds best.1)
    (enough : (nearer embeddings.length (apart embeddings target) best.2).card < turns) :
    Gives may (greedyTurns embeddings target layer layers turns best) fun out => holds out.1 := by
  induction turns generalizing best with
  | zero => omega
  | succ turns ih =>
      unfold greedyTurns
      refine .after (Layers.neighboursOf_ok sized inside (known _ now).1) ?_
      refine (hop_ok here _ (fun a member => (known a (closed _ now a member)).2) best false).bind fun out reached => ?_
      obtain ⟨next,improved⟩ := out
      rcases reached with same | ⟨member,is,closer,flag⟩
      · cases same
        exact .pure now
      · simp only at flag member is closer
        subst flag
        have held := closed _ now _ member
        refine ih next held ?_
        rw [is] at closer ⊢
        have shrunk := nearer_shrinks (d:=apart embeddings target) (known _ held).2 closer
        omega

theorem greedyOneHop_ok (sized : layers.Sized n top) (inside : layer ≤ top) (here : target < embeddings.length)
    (known : ∀ a, holds a → a < n ∧ a < embeddings.length) (closed : ∀ a, holds a → ∀ b ∈ layers.links layer a, holds b)
    (now : holds start) (startDist : D) :
    Gives may (greedyOneHop embeddings target start startDist layer layers) fun out => holds out.1 := by
  refine .after (index_inside here) (greedyTurns_ok sized inside here known closed _ _ now ?_)
  exact Nat.lt_succ_of_le (nearer_card _ _ _)

end Descent

namespace Beam
variable [PartialCmp D]

def ids (heap : BinaryHeap (OrderedNode D)) : List Nat := heap.toList.map OrderedNode.id

-- What the search keeps true of its three collections, for the nodes it may meet.
structure Sound (inserted : List Nat) (holds : Nat → Prop) (beam : Beam D) : Prop where
  distinct : beam.visited.Nodup
  met : ∀ a ∈ beam.visited, a ∈ inserted ∧ holds a
  queued : ∀ a ∈ ids beam.candidates, a ∈ beam.visited
  kept : ∀ a ∈ ids beam.top, a ∈ beam.visited
  once : (ids beam.top).Nodup

def demand (inserted : List Nat) (beam : Beam D) : Nat := beam.candidates.size + (inserted.length - beam.visited.length)

variable {inserted : List Nat} {holds : Nat → Prop} {beam : Beam D}

theorem ids_push (le : OrderedNode D → OrderedNode D → Bool) (heap : BinaryHeap (OrderedNode D)) (node : OrderedNode D) :
    (ids (heap.push le node)).Perm (node.id :: ids heap) := (heap.push_perm node).map OrderedNode.id

theorem ids_pop {heap rest : BinaryHeap (OrderedNode D)} {le : OrderedNode D → OrderedNode D → Bool}
    (popped : heap.pop le = some (node,rest)) : (ids heap).Perm (node.id :: ids rest) :=
  (BinaryHeap.pop_perm popped).map OrderedNode.id

theorem size_ids (heap : BinaryHeap (OrderedNode D)) : (ids heap).length = heap.size := by simp [ids]

theorem Sound.room (sound : Sound inserted holds beam) : beam.visited.length ≤ inserted.length :=
  (sound.distinct.subperm fun a member => (sound.met a member).1).length_le

-- A fresh node is visited; whether it is kept as well is another matter.
theorem Sound.visit (sound : Sound inserted holds beam) (present : n ∈ inserted) (fine : holds n) (fresh : n ∉ beam.visited) :
    Sound inserted holds {beam with visited:=n :: beam.visited} ∧ n ∉ ids beam.top := by
  refine ⟨⟨List.nodup_cons.mpr ⟨fresh,sound.distinct⟩,?_,?_,?_,sound.once⟩,fun member => fresh (sound.kept n member)⟩
  · intro a member
    rcases List.mem_cons.mp member with rfl | before
    · exact ⟨present,fine⟩
    · exact sound.met a before
  · exact fun a member => List.mem_cons_of_mem _ (sound.queued a member)
  · exact fun a member => List.mem_cons_of_mem _ (sound.kept a member)

theorem Sound.keep (sound : Sound inserted holds beam) (node : OrderedNode D) (visited : node.id ∈ beam.visited) (new : node.id ∉ ids beam.top) :
    Sound inserted holds (beam.keep node) := by
  refine ⟨sound.distinct,sound.met,?_,?_,?_⟩
  · intro a member
    rcases List.mem_cons.mp ((ids_push _ _ node).mem_iff.mp member) with rfl | before
    · exact visited
    · exact sound.queued a before
  · intro a member
    rcases List.mem_cons.mp ((ids_push _ _ node).mem_iff.mp member) with rfl | before
    · exact visited
    · exact sound.kept a before
  · exact (ids_push _ _ node).nodup_iff.mpr (List.nodup_cons.mpr ⟨new,sound.once⟩)

theorem Sound.dropFarthest (sound : Sound inserted holds beam) :
    Sound inserted holds beam.dropFarthest ∧ ∀ a ∈ ids beam.dropFarthest.top, a ∈ ids beam.top := by
  unfold Beam.dropFarthest
  cases popped : beam.top.pop OrderedNode.le with
  | none => exact ⟨sound,fun _ => id⟩
  | some answer =>
      obtain ⟨node,rest⟩ := answer
      have split := ids_pop popped
      have fewer : ∀ a ∈ ids rest, a ∈ ids beam.top := fun a member => split.mem_iff.mpr (List.mem_cons_of_mem _ member)
      exact ⟨⟨sound.distinct,sound.met,sound.queued,fun a member => sound.kept a (fewer a member),
        (List.nodup_cons.mp (split.nodup_iff.mp sound.once)).2⟩,fewer⟩

theorem keep_demand (node : OrderedNode D) (beam : Beam D) :
    (beam.keep node).candidates.size = beam.candidates.size + 1 ∧ (beam.keep node).top.size = beam.top.size + 1 := by
  have queued := (ids_push OrderedNode.geq beam.candidates node).length_eq
  have kept := (ids_push OrderedNode.le beam.top node).length_eq
  rw [size_ids,List.length_cons,size_ids] at queued kept
  exact ⟨queued,kept⟩

@[simp] theorem dropFarthest_candidates (beam : Beam D) : beam.dropFarthest.candidates = beam.candidates := by
  unfold dropFarthest; split <;> rfl

theorem farthest_ok (beam : Beam D) (some_ : 0 < beam.top.size) : ∃ d, beam.farthest = .ok d := by
  have held : beam.top.toList ≠ [] := by
    rw [←BinaryHeap.toList_length] at some_
    exact List.ne_nil_of_length_pos some_
  obtain ⟨node,_,peeked⟩ := BinaryHeap.peek_some held
  exact ⟨node.dist,by simp [farthest,peeked]⟩

theorem visit_demand (beam : Beam D) (room : beam.visited.length < inserted.length) :
    demand inserted {beam with visited:=n :: beam.visited} + 1 = demand inserted beam := by
  show beam.candidates.size + (inserted.length - (beam.visited.length + 1)) + 1 = beam.candidates.size + (inserted.length - beam.visited.length)
  omega

theorem keep_demand' (inserted : List Nat) (node : OrderedNode D) (beam : Beam D) :
    demand inserted (beam.keep node) = demand inserted beam + 1 := by
  show (beam.keep node).candidates.size + (inserted.length - beam.visited.length) = beam.candidates.size + (inserted.length - beam.visited.length) + 1
  rw [(keep_demand node beam).1]
  omega

section
variable {target ef layer n top : Nat} {layers : Layers}

theorem seed_ok (here : target < embeddings.length) (known : ∀ a ∈ inserted, a < embeddings.length) (entries : List Nat)
    (fine : ∀ e ∈ entries, e ∈ inserted → holds e) (sound : Sound inserted holds beam)
    (some_ : 0 < beam.top.size ∨ ∃ e ∈ entries, e ∈ inserted ∧ e ∉ beam.visited) :
    Gives may (seed embeddings target inserted entries beam) fun next =>
      Sound inserted holds next ∧ demand inserted next ≤ demand inserted beam ∧ 0 < next.top.size := by
  induction entries generalizing beam with
  | nil =>
      rcases some_ with held | ⟨e,member,_⟩
      · exact .pure ⟨sound,Nat.le_refl _,held⟩
      · cases member
  | cons e rest ih =>
      have others := fun b member => fine b (List.mem_cons_of_mem _ member)
      unfold seed
      split
      · rename_i admitted
        refine .after (distance_ok here (known e admitted.1)) ?_
        obtain ⟨visited,new⟩ := sound.visit admitted.1 (fine e List.mem_cons_self admitted.1) admitted.2
        have room : beam.visited.length < inserted.length := visited.room
        have kept := visited.keep ⟨e,apart embeddings target e⟩ List.mem_cons_self new
        refine (ih others kept (.inl ?_)).imp fun next reached => ⟨reached.1,?_,reached.2.2⟩
        · rw [(keep_demand _ _).2]
          omega
        · have counted := visit_demand (n:=e) beam room
          have added := keep_demand' inserted ⟨e,apart embeddings target e⟩ {beam with visited:=e :: beam.visited}
          exact reached.2.1.trans (by rw [added,counted])
      · rename_i passed
        refine ih others sound (some_.imp id fun found => ?_)
        obtain ⟨e',member,present,fresh⟩ := found
        rcases List.mem_cons.mp member with rfl | later
        · exact absurd ⟨present,fresh⟩ passed
        · exact ⟨e',later,present,fresh⟩

theorem consider_ok (here : target < embeddings.length) (known : ∀ a ∈ inserted, a < embeddings.length)
    (fine : n ∈ inserted → holds n) (sound : Sound inserted holds beam) (some_ : 0 < beam.top.size) :
    Gives may (consider embeddings target ef inserted n beam) fun next =>
      Sound inserted holds next ∧ demand inserted next ≤ demand inserted beam ∧ 0 < next.top.size := by
  unfold consider
  by_cases passed : n ∉ inserted ∨ n ∈ beam.visited
  · rw [if_pos passed]
    exact .pure ⟨sound,Nat.le_refl _,some_⟩
  · rw [if_neg passed]
    have present : n ∈ inserted := by simpa using fun absent => passed (.inl absent)
    have fresh : n ∉ beam.visited := fun old => passed (.inr old)
    obtain ⟨visited,new⟩ := sound.visit present (fine present) fresh
    have counted := visit_demand (n:=n) beam visited.room
    refine .after (distance_ok here (known n present)) ?_
    dsimp only
    split
    · have kept := visited.keep ⟨n,apart embeddings target n⟩ List.mem_cons_self new
      refine .pure ⟨kept,?_,?_⟩
      · rw [keep_demand',counted]
      · rw [(keep_demand _ _).2]
        omega
    · obtain ⟨d,read⟩ := farthest_ok {beam with visited:=n :: beam.visited} some_
      refine .after read ?_
      split
      · obtain ⟨dropped,fewer⟩ := visited.dropFarthest
        have remembered : n ∈ (Beam.dropFarthest {beam with visited:=n :: beam.visited}).visited := by
          unfold Beam.dropFarthest
          split <;> exact List.mem_cons_self
        have kept := dropped.keep ⟨n,apart embeddings target n⟩ remembered fun member => new (fewer n member)
        refine .pure ⟨kept,?_,?_⟩
        · have same : demand inserted (Beam.dropFarthest {beam with visited:=n :: beam.visited}) =
              demand inserted {beam with visited:=n :: beam.visited} := by
            unfold Beam.dropFarthest
            split <;> rfl
          rw [keep_demand',same,counted]
        · rw [(keep_demand _ _).2]
          omega
      · exact .pure ⟨visited,by omega,some_⟩

theorem considerAll_ok (here : target < embeddings.length) (known : ∀ a ∈ inserted, a < embeddings.length)
    (nbrs : List Nat) (fine : ∀ n ∈ nbrs, n ∈ inserted → holds n) (sound : Sound inserted holds beam) (some_ : 0 < beam.top.size) :
    Gives may (considerAll embeddings target ef inserted nbrs beam) fun next =>
      Sound inserted holds next ∧ demand inserted next ≤ demand inserted beam ∧ 0 < next.top.size := by
  induction nbrs generalizing beam with
  | nil => exact .pure ⟨sound,Nat.le_refl _,some_⟩
  | cons n rest ih =>
      refine (consider_ok here known (fine n List.mem_cons_self) sound some_).bind fun next reached => ?_
      refine (ih (fun b member => fine b (List.mem_cons_of_mem _ member)) reached.1 reached.2.2).imp fun last later => ?_
      exact ⟨later.1,later.2.1.trans reached.2.1,later.2.2⟩

theorem turns_ok (sized : layers.Sized n top) (inside : layer ≤ top) (here : target < embeddings.length)
    (known : ∀ a ∈ inserted, a < n ∧ a < embeddings.length)
    (closed_ : ∀ a ∈ inserted, holds a → ∀ b ∈ layers.links layer a, b ∈ inserted → holds b) (left : Nat)
    (sound : Sound inserted holds beam) (some_ : 0 < beam.top.size) (enough : demand inserted beam < left) :
    Gives may (turns embeddings target layer ef inserted layers left beam) fun next =>
      Sound inserted holds next ∧ 0 < next.top.size := by
  induction left generalizing beam with
  | zero => omega
  | succ left ih =>
      unfold turns
      cases popped : beam.candidates.pop OrderedNode.geq with
      | none => exact .pure ⟨sound,some_⟩
      | some answer =>
          obtain ⟨c,candidates⟩ := answer
          have split := ids_pop popped
          have smaller : candidates.size + 1 = beam.candidates.size := by
            rw [←size_ids,←size_ids,split.length_eq,List.length_cons]
          have visited := sound.queued c.id (split.mem_iff.mpr List.mem_cons_self)
          have taken : Sound inserted holds {beam with candidates:=candidates} :=
            ⟨sound.distinct,sound.met,fun a member => sound.queued a (split.mem_iff.mpr (List.mem_cons_of_mem _ member)),
              sound.kept,sound.once⟩
          have less : demand inserted {beam with candidates:=candidates} + 1 = demand inserted beam := by
            show candidates.size + (inserted.length - beam.visited.length) + 1 = beam.candidates.size + (inserted.length - beam.visited.length)
            omega
          obtain ⟨present,fine⟩ := sound.met c.id visited
          have decided : ∃ stop, closed ef c {beam with candidates:=candidates} = .ok stop := by
            unfold closed
            split
            · obtain ⟨d,read⟩ := farthest_ok {beam with candidates:=candidates} some_
              exact ⟨_,by rw [read]; rfl⟩
            · exact ⟨false,rfl⟩
          obtain ⟨stop,decided⟩ := decided
          refine .after decided ?_
          cases stop with
          | true => exact .pure ⟨taken,some_⟩
          | false =>
              refine .after (Layers.neighboursOf_ok sized inside (known _ present).1) ?_
              refine (considerAll_ok here (fun a member => (known a member).2) _ (closed_ c.id present fine) taken
                some_).bind fun next reached => ?_
              exact ih reached.1 reached.2.2 (by omega)

end
end Beam

theorem sorted_ids [PartialCmp D] (nodes : List (NodeDist D)) :
    ((NodeDist.sorted nodes).map NodeDist.id).Perm (nodes.map NodeDist.id) := (sortBy_perm _ nodes).map _

-- The search finds distinct inserted nodes, at least one, and none outside what the
-- lists lead to from its entry points.
theorem beamSearchLayer_ok [PartialCmp D] {layers : Layers} (holds : Nat → Prop) (sized : layers.Sized n top) (inside : layer ≤ top)
    (here : target < embeddings.length) (known : ∀ a ∈ inserted, a < n ∧ a < embeddings.length)
    (closed : ∀ a ∈ inserted, holds a → ∀ b ∈ layers.links layer a, b ∈ inserted → holds b)
    (fine : ∀ e ∈ entries, e ∈ inserted → holds e) (some_ : ∃ e ∈ entries, e ∈ inserted) :
    Gives may (beamSearchLayer embeddings target entries layer ef layers inserted) fun out =>
      (out.map NodeDist.id).Nodup ∧ (∀ a ∈ out.map NodeDist.id, a ∈ inserted ∧ holds a) ∧ out.map NodeDist.id ≠ [] := by
  have start : Beam.Sound (D:=D) inserted holds ⟨[],.new,.new⟩ := by
    constructor <;> simp [Beam.ids]
  have entered : 0 < (BinaryHeap.new : BinaryHeap (OrderedNode D)).size ∨ ∃ e ∈ entries, e ∈ inserted ∧ e ∉ ([] : List Nat) := by
    obtain ⟨e,member,present⟩ := some_
    exact .inr ⟨e,member,present,List.not_mem_nil⟩
  refine .after (index_inside here) ?_
  refine (Beam.seed_ok here (fun a member => (known a member).2) entries fine start entered).bind fun seeded reached => ?_
  have enough : Beam.demand inserted seeded < inserted.length + 1 := by
    have bound : Beam.demand (D:=D) inserted ⟨[],.new,.new⟩ = inserted.length := by simp [Beam.demand,BinaryHeap.size,BinaryHeap.new]
    omega
  refine (Beam.turns_ok sized inside here known closed _ reached.1 reached.2.2 enough).bind fun beam found => ?_
  have order : ((NodeDist.sorted (beam.top.toList.map fun node => NodeDist.mk node.id node.dist)).map NodeDist.id).Perm
      (Beam.ids beam.top) := by
    refine (sorted_ids _).trans ?_
    rw [List.map_map]
    exact .refl _
  refine .pure ⟨order.nodup_iff.mpr found.1.once,fun a member => found.1.met a (found.1.kept a (order.mem_iff.mp member)),?_⟩
  intro empty
  have none_ := order.length_eq
  rw [empty,Beam.size_ids] at none_
  have held := found.2
  simp only [List.length_nil] at none_
  omega

end
end Compass
