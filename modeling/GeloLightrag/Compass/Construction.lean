import Mathlib.Data.List.Range
import GeloLightrag.Compass.HnswInvariant

namespace Compass
open Foundation
open Foundation.Proximity

def PlainHnsw.layers {F : Type} (h : PlainHnsw F) : Layers := ⟨h.layer0,h.upper⟩

section
variable {F D : Type} [Metric F D] [PartialCmp D] [StrictCmp D] {embeddings : List (List F)} {params : PlainHnswParams F}
  {levels inserted : List Nat} {layers : Layers} {n top entry x lx : Nat}

theorem descend_ok (here : x < embeddings.length) (known : ∀ a ∈ inserted, a < n ∧ a < embeddings.length)
    (layered : Layered params n top (presentAt levels inserted) layers) (first : presentAt levels inserted top entry)
    (low : lx ≤ top) (word : may ∨ lx + 1 < 2 ^ 32) :
    Gives may (descend embeddings entry top x lx layers) fun out => presentAt levels inserted lx out.1 ∧ (top = 0 → out.1 = entry) := by
  unfold descend
  refine .after (distance_ok here (known entry first.1).2) ?_
  have added : Gives may (add32 lx 1) fun lowest => lowest = lx + 1 := by
    unfold add32
    split
    · rfl
    · rename_i full
      exact word.resolve_right full
  refine added.bind fun lowest is => ?_
  subst is
  have falling : (List.range' (lx + 1) (top + 1 - (lx + 1))).reverse.Pairwise fun a b => b < a :=
    List.pairwise_reverse.mpr List.pairwise_lt_range'
  have ranged : ∀ l ∈ (List.range' (lx + 1) (top + 1 - (lx + 1))).reverse, lx < l ∧ l ≤ top := by
    intro l member
    obtain ⟨i,small,is⟩ := List.mem_range'.mp (List.mem_reverse.mp member)
    omega
  refine (Gives.foldlM (fun finished out => (presentAt levels inserted lx out.1 ∧ (top = 0 → out.1 = entry)) ∧
    ∀ l ∈ (List.range' (lx + 1) (top + 1 - (lx + 1))).reverse, l ∉ finished → presentAt levels inserted l out.1) ?_ ?_).imp
      fun out reached => reached.1
  · exact ⟨⟨⟨first.1,low.trans first.2⟩,fun _ => rfl⟩,fun l member _ => ⟨first.1,(ranged l member).2.trans first.2⟩⟩
  · rintro finished l rest out whole ⟨now,coming⟩
    have member : l ∈ (List.range' (lx + 1) (top + 1 - (lx + 1))).reverse := by rw [whole]; simp
    obtain ⟨above,inside⟩ := ranged l member
    rw [whole] at falling
    obtain ⟨_,after,before⟩ := List.pairwise_append.mp falling
    have next : l ∉ finished := fun again => absurd (before l again l List.mem_cons_self) (lt_irrefl l)
    have closed : ∀ a, presentAt levels inserted l a → ∀ b ∈ layers.links l a, presentAt levels inserted l b :=
      fun a _ b edge => (layered.well l inside).target a b edge
    refine (greedyOneHop_ok layered.sized inside here (fun a held => known a held.1) closed (coming l member next) out.2).imp ?_
    intro best held
    refine ⟨⟨⟨held.1,(Nat.le_of_lt above).trans held.2⟩,fun zero => by omega⟩,fun l' member' notYet => ⟨held.1,?_⟩⟩
    rw [whole] at member'
    have later : l' ∈ rest := by
      rcases List.mem_append.mp member' with earlier | same
      · exact absurd (List.mem_append_left _ earlier) notYet
      · rcases List.mem_cons.mp same with rfl | later
        · simp at notYet
        · exact later
    exact (Nat.le_of_lt ((List.pairwise_cons.mp after).1 l' later)).trans held.2

-- The state between two insertions.
structure Grown (params : PlainHnswParams F) (levels : List Nat) (n top : Nat) (growing : Growing) : Prop where
  layered : Layered params n top (presentAt levels growing.inserted) growing.layers
  known : ∀ a ∈ growing.inserted, a < n
  filled : 0 < maxM params 0 → 2 ≤ growing.inserted.length → ∀ a ∈ growing.inserted, growing.layers.links 0 a ≠ []

-- What an insertion does to the ground layer once there is something to link to.
structure Attached (params : PlainHnswParams F) (top entry x : Nat) (growing next : Growing) : Prop where
  chosen : 0 < maxM params 0 → next.layers.links 0 x ≠ []
  old : ∀ s ∈ next.layers.links 0 x, s ∈ growing.inserted
  linked : Linked (maxM params 0) (growing.layers.links 0) x (next.layers.links 0 x) (next.layers.links 0)
  led : top = 0 → ∀ s ∈ next.layers.links 0 x, Reach (growing.layers.links 0) entry s

variable {growing : Growing}

theorem presentAt_cons (levels inserted : List Nat) (x l a : Nat) :
    presentAt levels (x :: inserted) l a ↔ (l ≤ levels.getD x 0 ∧ a = x) ∨ presentAt levels inserted l a := by
  unfold presentAt
  rw [List.mem_cons]
  constructor
  · rintro ⟨rfl | before,high⟩
    · exact .inl ⟨high,rfl⟩
    · exact .inr ⟨before,high⟩
  · rintro (⟨high,rfl⟩ | ⟨before,high⟩)
    · exact ⟨.inl rfl,high⟩
    · exact ⟨.inr before,high⟩

theorem insertNode_ok (reserve : ∀ layer, Reservable may params.neighbourHeuristic (maxM params layer)) (many : n ≤ embeddings.length) (sampled : levels.length = n) (node : x < n)
    (grown : Grown params levels n top growing) (absent : x ∉ growing.inserted) (low : levels.getD x 0 ≤ top)
    (word : may ∨ levels.getD x 0 + 1 < 2 ^ 32) (started : presentAt levels growing.inserted top entry) :
    Gives may (insertNode embeddings params levels entry top x growing) fun next => next.inserted = x :: growing.inserted ∧
      Grown params levels n top next ∧ Attached params top entry x growing next := by
  have here : x < embeddings.length := Nat.lt_of_lt_of_le node many
  have inside : ∀ a ∈ growing.inserted, a < n ∧ a < embeddings.length :=
    fun a member => ⟨grown.known a member,Nat.lt_of_lt_of_le (grown.known a member) many⟩
  have level : index levels x = .ok (levels.getD x 0) := by
    have small : x < levels.length := by rw [sampled]; exact node
    rw [index_inside small]
    simp [small]
  have nonempty : ¬ growing.inserted.isEmpty = true := by
    intro empty
    have none_ := started.1
    rw [List.isEmpty_iff.mp empty] at none_
    exact List.not_mem_nil none_
  unfold insertNode
  refine .after level ?_
  rw [if_neg nonempty]
  refine (descend_ok here inside grown.layered started low word).bind fun current reached => ?_
  obtain ⟨⟨at_,high⟩,first⟩ := reached
  refine (linkDown_ok reserve node here absent inside (levels.getD x 0) low ⟨at_,high⟩ [current.1] grown.layered (fun _ _ _ => .rfl)
    (by simpa using fun _ => high) ⟨current.1,by simp,at_⟩).bind fun next done => ?_
  obtain ⟨layered,chosen,some_,old,link,led⟩ := done
  have own : next.links 0 x = chosen := link.own
  have attached : Attached params top entry x growing ⟨x :: growing.inserted,next⟩ := by
    refine ⟨fun room => by rw [own]; exact some_ room,by rw [own]; exact old,by rw [own]; exact link,fun zero s member => ?_⟩
    rw [own] at member
    obtain ⟨e,entered,_,path⟩ := led (by omega) s member
    rw [List.mem_singleton.mp entered,first zero] at path
    exact path
  refine .pure ⟨rfl,⟨layered.congr fun l _ a => (presentAt_cons _ _ _ _ _).symm,?_,?_⟩,attached⟩
  · intro a member
    rcases List.mem_cons.mp member with rfl | before
    · exact node
    · exact grown.known a before
  · intro room _ a member
    refine link.nonempty (fun b => b ∈ growing.inserted) room (some_ room) ?_ a (List.mem_cons.mp member)
    intro b before
    by_cases several : 2 ≤ growing.inserted.length
    · exact .inl (grown.filled room several b before)
    · obtain ⟨s,picked⟩ := List.exists_mem_of_ne_nil chosen (some_ room)
      have one : growing.inserted.length = 1 := by
        have held := List.length_pos_of_mem before
        omega
      obtain ⟨only,is⟩ := List.length_eq_one_iff.mp one
      have same := old s picked
      rw [is] at same before
      rw [List.mem_singleton.mp before,←List.mem_singleton.mp same]
      exact .inr picked

theorem blankLayers_links (n top l a : Nat) : (blankLayers n top).links l a = [] := by
  unfold Layers.links Layers.table blankLayers
  by_cases ground : l = 0
  · by_cases small : a < n
    · simp [ground,small]
    · simp [ground,small]
  · by_cases inside : l - 1 < top
    · simp [ground,inside]
    · simp [ground,inside]

-- The first node gets an empty list at each of its layers.
theorem plantFirst_ok (node : x < n) (low : lx ≤ top) :
    Gives may (plantFirst x lx (blankLayers n top)) fun next => next.Sized n top ∧ (∀ l a, next.links l a = []) ∧
      ∀ l, 0 < l → l ≤ top → ∀ a, (next.table l a).isSome ↔ l ≤ lx ∧ a = x := by
  refine (Gives.foldlM (fun finished next => next.Sized n top ∧ (∀ l a, next.links l a = []) ∧
    ∀ l, 0 < l → l ≤ top → ∀ a, (next.table l a).isSome ↔ l - 1 ∈ finished ∧ a = x) ?_ ?_).imp ?_
  · refine ⟨⟨by simp [blankLayers],by simp [blankLayers]⟩,blankLayers_links n top,fun l above inside a => ?_⟩
    simp [Layers.table,blankLayers,show l ≠ 0 by omega,show l - 1 < top by omega]
  · rintro finished l rest next whole ⟨sized,empty,keys⟩
    have small : l < lx := List.mem_range.mp (by rw [whole]; simp)
    refine (Layers.setNeighbours_ok sized (by omega : l + 1 ≤ top) node []).imp fun after reached => ?_
    refine ⟨reached.1,fun l' a => ?_,fun l' above inside a => ?_⟩
    · by_cases same : l' = l + 1
      · have lists := links_of_update (by rw [reached.2,if_pos rfl] : after.table (l+1) = Function.update (next.table (l+1)) x (some []))
        rw [same,lists]
        by_cases this : a = x
        · simp [this]
        · simpa [this] using empty (l+1) a
      · rw [links_of_table (by rw [reached.2,if_neg same] : after.table l' = next.table l')]
        exact empty l' a
    · rw [reached.2]
      by_cases same : l' = l + 1
      · have keyed := keys l' above inside a
        subst same
        by_cases this : a = x
        · simp [this]
        · simpa [this] using keyed
      · rw [if_neg same,keys l' above inside a]
        simp [show l' - 1 ≠ l by omega]
  · rintro next ⟨sized,empty,keys⟩
    refine ⟨sized,empty,fun l above inside a => ?_⟩
    rw [keys l above inside a,List.mem_range]
    constructor
    · exact fun held => ⟨by omega,held.2⟩
    · exact fun held => ⟨by omega,held.2⟩

theorem insertFirst_ok (embeddings : List (List F)) (params : PlainHnswParams F) (sampled : levels.length = n) (node : x < n) (low : levels.getD x 0 ≤ top) :
    Gives may (insertNode embeddings params levels entry top x ⟨[],blankLayers n top⟩) fun next => next.inserted = [x] ∧
      Grown params levels n top next := by
  have level : index levels x = .ok (levels.getD x 0) := by
    have small : x < levels.length := by rw [sampled]; exact node
    rw [index_inside small]
    simp [small]
  unfold insertNode
  refine .after level ?_
  rw [if_pos (by rfl)]
  refine (plantFirst_ok node low).bind fun next planted => .pure ⟨rfl,⟨planted.1,?_,?_⟩,by simpa using node,by simp⟩
  · intro l _
    obtain ⟨_,empty,_⟩ := planted
    constructor <;> simp [empty]
  · intro l above inside a
    rw [planted.2.2 l above inside a]
    unfold presentAt
    constructor
    · rintro ⟨high,rfl⟩
      exact ⟨List.mem_singleton_self _,high⟩
    · rintro ⟨member,high⟩
      obtain rfl := List.mem_singleton.mp member
      exact ⟨high,rfl⟩

theorem insertionOrder_perm (levels : List Nat) (n : Nat) : (insertionOrder levels n).Perm (List.range n) := sortBy_perm _ _

theorem insertionOrder_pairwise (levels : List Nat) (n : Nat) : (insertionOrder levels n).Pairwise fun a b =>
    levels.getD b 0 < levels.getD a 0 ∨ levels.getD a 0 = levels.getD b 0 ∧ a ≤ b := by
  apply sortBy_pairwise
  · intro a b
    generalize levels.getD a 0 = high
    generalize levels.getD b 0 = low
    rcases Nat.lt_trichotomy low high with less | same | more
    · simp [Nat.compare_eq_lt.mpr less,less]
    · simp [same,Nat.compare_ne_gt]
    · simp [Nat.compare_eq_gt.mpr more]
      omega
  · intro a b
    omega
  · intro a b c
    omega

-- No two nodes at the level whose successor is no u32.
def LoneSummit (levels : List Nat) : Prop :=
  ∀ i j : Nat, levels[i]? = some 4294967295 → levels[j]? = some 4294967295 → i = j

theorem sampleLevels_length {F : Type} [LevelSampler F] (params : PlainHnswParams F) (n : Nat) : (sampleLevels params n).length = n := by
  simp [sampleLevels]

theorem sampleLevels_word {F : Type} [LevelSampler F] (params : PlainHnswParams F) (n i : Nat) :
    (sampleLevels params n).getD i 0 < 2 ^ 32 := by
  unfold sampleLevels
  by_cases small : i < n
  · have word := (LevelSampler.level params.ml params.buildSeed i).toNat_lt
    simpa [small] using word
  · simp [small]

theorem top_spec (levels : List Nat) (i : Nat) : levels.getD i 0 ≤ levels.max?.getD 0 := by
  cases highest : levels.max? with
  | none => simp [List.max?_eq_none_iff.mp highest]
  | some top =>
      obtain ⟨_,bound⟩ := List.max?_eq_some_iff.mp highest
      by_cases small : i < levels.length
      · have at_ := bound levels[i] (List.getElem_mem small)
        simpa [small] using at_
      · simp [small]

end

section
variable {F D : Type} [Metric F D] [PartialCmp D] [StrictCmp D]

-- The insertions after the first, one by one.
inductive Growth (embeddings : List (List F)) (params : PlainHnswParams F) (levels : List Nat) (n top entry : Nat) :
    List Nat → Growing → Growing → Prop where
  | done : Growth embeddings params levels n top entry [] growing growing
  | step : insertNode embeddings params levels entry top x growing = .ok next → Grown params levels n top growing →
      x ∉ growing.inserted → next.inserted = x :: growing.inserted → entry ∈ growing.inserted →
      (∀ a ∈ growing.inserted, levels.getD x 0 ≤ levels.getD a 0) → Attached params top entry x growing next →
      Growth embeddings params levels n top entry rest next last → Growth embeddings params levels n top entry (x :: rest) growing last

-- What a build goes through: the entry, and then everything below it.
structure Built (embeddings : List (List F)) (params : PlainHnswParams F) (levels : List Nat) (n top entry : Nat) (rest : List Nat)
    (first last : Growing) : Prop where
  order : insertionOrder levels n = entry :: rest
  planted : insertNode embeddings params levels entry top entry ⟨[],blankLayers n top⟩ = .ok first
  alone : first.inserted = [entry]
  start : Grown params levels n top first
  all : last.inserted = rest.reverse ++ [entry]
  final : Grown params levels n top last
  growth : Growth embeddings params levels n top entry rest first last

end

section
variable {F D : Type} [Metric F D] [PartialCmp D] [StrictCmp D] {embeddings : List (List F)} {params : PlainHnswParams F}
  {levels : List Nat} {n top entry : Nat} {growing : Growing}

theorem rest_grows (entry : Nat) (reserve : ∀ layer, Reservable may params.neighbourHeuristic (maxM params layer)) (many : n ≤ embeddings.length)
    (sampled : levels.length = n) (rest : List Nat)
    (fit : ∀ x ∈ rest, x < n ∧ levels.getD x 0 ≤ top ∧ (may ∨ levels.getD x 0 + 1 < 2 ^ 32))
    (ordered : rest.Pairwise fun a b => a ≠ b ∧ levels.getD b 0 ≤ levels.getD a 0)
    (after : ∀ x ∈ rest, ∀ a ∈ growing.inserted, a ≠ x ∧ levels.getD x 0 ≤ levels.getD a 0)
    (grown : Grown params levels n top growing) (started : presentAt levels growing.inserted top entry) :
    Gives may (rest.foldlM (fun growing x => insertNode embeddings params levels entry top x growing) growing) fun last =>
      last.inserted = rest.reverse ++ growing.inserted ∧ Grown params levels n top last ∧
      Growth embeddings params levels n top entry rest growing last := by
  induction rest generalizing growing with
  | nil => exact .pure ⟨rfl,grown,.done⟩
  | cons x rest ih =>
      obtain ⟨node,low,word⟩ := fit x List.mem_cons_self
      obtain ⟨here,later⟩ := List.pairwise_cons.mp ordered
      have earlier := after x List.mem_cons_self
      have absent : x ∉ growing.inserted := fun member => (earlier x member).1 rfl
      rw [List.foldlM_cons]
      refine (insertNode_ok reserve many sampled node grown absent low word started).bind_run fun next inserted_ reached => ?_
      obtain ⟨is,grown',attached⟩ := reached
      have extended : ∀ y ∈ rest, ∀ a ∈ next.inserted, a ≠ y ∧ levels.getD y 0 ≤ levels.getD a 0 := by
        intro y member a present
        rw [is] at present
        rcases List.mem_cons.mp present with rfl | before
        · exact here y member
        · exact after y (List.mem_cons_of_mem _ member) a before
      refine (ih (fun y member => fit y (List.mem_cons_of_mem _ member)) later extended grown'
        ⟨by rw [is]; exact List.mem_cons_of_mem _ started.1,started.2⟩).imp fun last reached => ?_
      obtain ⟨all,final,growth⟩ := reached
      refine ⟨by rw [all,is]; simp,final,.step inserted_ grown absent is started.1 (fun a member => (earlier a member).2) attached growth⟩

-- The first node of the order is at the highest level.
theorem insertionOrder_head {rest : List Nat} (sampled : levels.length = n) (order : insertionOrder levels n = entry :: rest) :
    entry < n ∧ levels.getD entry 0 = levels.max?.getD 0 ∧ (∀ x ∈ rest, x < n ∧ x ≠ entry) ∧
      ∀ id < n, id = entry ∨ levels.getD id 0 < levels.getD entry 0 ∨ levels.getD entry 0 = levels.getD id 0 ∧ entry ≤ id := by
  have shuffled := insertionOrder_perm levels n
  have sorted := insertionOrder_pairwise levels n
  have distinct : (insertionOrder levels n).Nodup := shuffled.nodup_iff.mpr List.nodup_range
  rw [order] at shuffled sorted distinct
  have within : ∀ x ∈ entry :: rest, x < n := fun x member => List.mem_range.mp (shuffled.mem_iff.mp member)
  have ranked : ∀ id < n, id = entry ∨ levels.getD id 0 < levels.getD entry 0 ∨
      levels.getD entry 0 = levels.getD id 0 ∧ entry ≤ id := by
    intro id small
    rcases List.mem_cons.mp (shuffled.mem_iff.mpr (List.mem_range.mpr small)) with same | later
    · exact .inl same
    · exact .inr ((List.pairwise_cons.mp sorted).1 id later)
  refine ⟨within entry List.mem_cons_self,?_,fun x member => ⟨within x (List.mem_cons_of_mem _ member),?_⟩,ranked⟩
  · refine Nat.le_antisymm (top_spec levels entry) ?_
    cases highest : levels.max? with
    | none => exact Nat.zero_le _
    | some top =>
        obtain ⟨held,_⟩ := List.max?_eq_some_iff.mp highest
        obtain ⟨i,inside,is⟩ := List.getElem_of_mem held
        have own : levels.getD i 0 = top := by simp [inside,is]
        rcases ranked i (by omega) with rfl | below
        · exact Nat.le_of_eq own.symm
        · show top ≤ _
          omega
  · rintro rfl
    exact (List.nodup_cons.mp distinct).1 member

theorem build_ok [LevelSampler F] (embeddings : List (List F)) (reserve : ∀ layer, Reservable may params.neighbourHeuristic (maxM params layer))
    (some_ : may ∨ embeddings.length % 2 ^ 32 ≠ 0) (dims : may ∨ ∀ e ∈ embeddings, e.length = params.dim)
    (lone : may ∨ LoneSummit (sampleLevels params (embeddings.length % 2 ^ 32))) :
    Gives may (PlainHnsw.build embeddings params) fun h => ∃ entry rest first last,
      Built embeddings params (sampleLevels params (embeddings.length % 2 ^ 32)) (embeddings.length % 2 ^ 32)
        ((sampleLevels params (embeddings.length % 2 ^ 32)).max?.getD 0) entry rest first last ∧
      h = ⟨params,embeddings,sampleLevels params (embeddings.length % 2 ^ 32),last.layers.layer0,last.layers.upper,entry,
        (sampleLevels params (embeddings.length % 2 ^ 32)).max?.getD 0⟩ := by
  unfold PlainHnsw.build
  dsimp only
  have many : embeddings.length % 2 ^ 32 ≤ embeddings.length := Nat.mod_le _ _
  have fits : ∀ x, (sampleLevels params (embeddings.length % 2 ^ 32)).getD x 0 < 2 ^ 32 := sampleLevels_word params _
  have sampled := sampleLevels_length params (embeddings.length % 2 ^ 32)
  generalize embeddings.length % 2 ^ 32 = n at some_ lone many fits sampled ⊢
  generalize sampleLevels params n = levels at lone fits sampled ⊢
  split
  · rename_i none_
    exact some_.resolve_right fun positive => positive none_
  rename_i positive
  split
  · rename_i mismatch
    refine dims.resolve_right fun all => ?_
    obtain ⟨e,member,differs⟩ := List.any_eq_true.mp mismatch
    exact of_decide_eq_true differs (all e member)
  cases order : insertionOrder levels n with
  | nil =>
      have none_ := (insertionOrder_perm levels n).length_eq
      rw [order,List.length_range] at none_
      exact absurd none_.symm positive
  | cons entry rest =>
      obtain ⟨node,summit,others,ranked⟩ := insertionOrder_head sampled order
      have sorted := insertionOrder_pairwise levels n
      have distinct : (insertionOrder levels n).Nodup := (insertionOrder_perm levels n).nodup_iff.mpr List.nodup_range
      rw [order] at sorted distinct
      have word : ∀ x ∈ rest, may ∨ levels.getD x 0 + 1 < 2 ^ 32 := by
        intro x member
        refine lone.imp id fun alone => ?_
        obtain ⟨small,apart_⟩ := others x member
        by_contra full
        have at_ : ∀ a, a < n → levels.getD a 0 = 4294967295 → levels[a]? = some 4294967295 := by
          intro a inside value
          rw [←sampled] at inside
          simpa [inside] using value
        have below := top_spec levels x
        have bound := fits x
        have bound' := fits entry
        exact apart_ (alone x entry (at_ x small (by omega)) (at_ entry node (by omega)))
      have head : index (entry :: rest) 0 = .ok entry := rfl
      refine .after head ?_
      rw [List.foldlM_cons]
      refine Gives.bind ?_ fun last reached => .pure reached
      refine (insertFirst_ok embeddings params sampled node (top_spec levels entry)).bind_run
        fun first planted reached => ?_
      obtain ⟨alone,start⟩ := reached
      refine (rest_grows entry reserve many sampled rest
        (fun x member => ⟨(others x member).1,top_spec levels x,word x member⟩) ?_ ?_ start
        ⟨by rw [alone]; exact List.mem_singleton_self _,by rw [summit]⟩).imp fun last done => ?_
      · refine (List.pairwise_cons.mp sorted).2.imp₂ (fun a b ordered apart_ => ⟨apart_,by omega⟩) (List.nodup_cons.mp distinct).2
      · intro x member a present
        rw [alone] at present
        obtain rfl := List.mem_singleton.mp present
        have below := (List.pairwise_cons.mp sorted).1 x member
        exact ⟨(others x member).2.symm,by omega⟩
      · obtain ⟨all,final,growth⟩ := done
        exact ⟨entry,rest,first,last,⟨order,planted,alone,start,by rw [all,alone],final,growth⟩,rfl⟩

end
end Compass
