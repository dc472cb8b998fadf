import GeloLightrag.Compass.Construction

namespace Compass
open Foundation

def PlainHnsw.neighbours {F : Type} (h : PlainHnsw F) (layer id : Nat) : List Nat := h.layers.links layer id
def PlainHnsw.level {F : Type} (h : PlainHnsw F) (id : Nat) : Nat := h.levels.getD id 0

-- `upper[l - 1]` is the adjacency at layer l; a key of it is a node with a list there.
structure PlainHnsw.WellFormed {F : Type} (h : PlainHnsw F) : Prop where
  sized : h.layer0.length = h.embeddings.length ∧ h.levels.length = h.embeddings.length ∧ h.upper.length = h.topLayer
  bounded : ∀ l ≤ h.topLayer, ∀ id, (h.neighbours l id).length ≤ maxM h.params l
  distinct : ∀ l ≤ h.topLayer, ∀ id, (h.neighbours l id).Nodup
  apart : ∀ l ≤ h.topLayer, ∀ id, id ∉ h.neighbours l id
  leveled : ∀ l ≤ h.topLayer, ∀ id, ∀ y ∈ h.neighbours l id, y < h.embeddings.length ∧ l ≤ h.level y
  keyed : ∀ l (inside : l < h.upper.length) (id : Nat), ((h.upper[l]) id).isSome ↔ id < h.embeddings.length ∧ l + 1 ≤ h.level id
  entered : h.entry < h.embeddings.length ∧ h.level h.entry = h.topLayer
  highest : ∀ id < h.embeddings.length, h.level id ≤ h.topLayer
  lowest : ∀ id < h.embeddings.length, h.level id = h.topLayer → h.entry ≤ id
  filled : 1 ≤ h.params.maxNeighborsL0 → 2 ≤ h.embeddings.length → ∀ id < h.embeddings.length, h.neighbours 0 id ≠ []

section
variable {F D : Type} [Metric F D] {embeddings : List (List F)} {params : PlainHnswParams F}

section
variable [PartialCmp D] [StrictCmp D]

omit [StrictCmp D] in
theorem Built.inserted {levels : List Nat} {n top entry : Nat} {rest : List Nat} {first last : Growing}
    (built : Built embeddings params levels n top entry rest first last) (a : Nat) : a ∈ last.inserted ↔ a < n := by
  have shuffled := insertionOrder_perm levels n
  rw [built.order] at shuffled
  rw [←List.mem_range,←shuffled.mem_iff,built.all]
  simp [or_comm]

theorem Built.well_formed {levels : List Nat} {entry : Nat} {rest : List Nat} {first last : Growing}
    (built : Built embeddings params levels embeddings.length (levels.max?.getD 0) entry rest first last)
    (sampled : levels.length = embeddings.length) :
    PlainHnsw.WellFormed ⟨params,embeddings,levels,last.layers.layer0,last.layers.upper,entry,levels.max?.getD 0⟩ := by
  obtain ⟨layered,known,filled⟩ := built.final
  have member := built.inserted
  obtain ⟨node,summit,_,ranked⟩ := insertionOrder_head sampled built.order
  constructor
  · exact ⟨layered.sized.base,sampled,layered.sized.above⟩
  · exact fun l inside => (layered.well l inside).bounded
  · exact fun l inside => (layered.well l inside).distinct
  · exact fun l inside => (layered.well l inside).apart
  · intro l inside id y edge
    obtain ⟨present,high⟩ := (layered.well l inside).target id y edge
    exact ⟨known y present,high⟩
  · intro l inside id
    have short : l < levels.max?.getD 0 := by rw [←layered.sized.above]; exact inside
    have keys := layered.keys (l + 1) (by omega) short id
    rw [presentAt,member] at keys
    have inside' : l < last.layers.upper.length := inside
    refine Iff.trans ?_ keys
    simp [Layers.table,inside']
  · exact ⟨node,summit⟩
  · exact fun id _ => top_spec levels id
  · intro id small high
    have level : levels.getD id 0 = levels.max?.getD 0 := high
    rcases ranked id small with rfl | below | ⟨_,before⟩
    · exact Nat.le_refl _
    · omega
    · exact before
  · intro room several id small
    have count : last.inserted.length = embeddings.length := by
      have size := (insertionOrder_perm levels embeddings.length).length_eq
      rw [List.length_range,built.order] at size
      rw [built.all,←size]
      simp
    exact filled room (by rw [count]; exact several) id ((member id).mpr small)

end

-- The graph of a build is well formed, whatever levels are drawn and whatever the
-- distance, as long as node ids and the level after a node's own are u32s and the
-- lists can be reserved.
theorem build_well_formed [LinearOrder D] [LevelSampler F] (embeddings : List (List F)) (params : PlainHnswParams F) (some_ : embeddings ≠ [])
    (dims : ∀ e ∈ embeddings, e.length = params.dim) (few : embeddings.length < 2 ^ 32)
    (lone : LoneSummit (sampleLevels params embeddings.length))
    (reserve : params.neighbourHeuristic = .algorithm4 →
      4 * params.maxNeighborsL0 < 2 ^ 63 ∧ 4 * params.maxNeighborsUpper < 2 ^ 63) :
    ∃ h, PlainHnsw.build embeddings params = .ok h ∧ h.WellFormed ∧ h.params = params ∧ h.embeddings = embeddings ∧
      h.levels = sampleLevels params embeddings.length := by
  have size : embeddings.length % 2 ^ 32 = embeddings.length := Nat.mod_eq_of_lt few
  have bounds : ∀ layer, Reservable False params.neighbourHeuristic (maxM params layer) := by
    intro layer selected
    unfold maxM
    split
    · exact .inr (reserve selected).1
    · exact .inr (reserve selected).2
  have ran := build_ok embeddings bounds
    (.inr (by rw [size]; exact Nat.ne_of_gt (List.length_pos_of_ne_nil some_))) (.inr dims) (.inr (by rw [size]; exact lone))
  rw [size] at ran
  obtain ⟨h,made,entry,rest,first,last,built,rfl⟩ := ran.yields
  exact ⟨_,made,built.well_formed (sampleLevels_length params _),rfl,rfl,rfl⟩

theorem LoneSummit.of_low {levels : List Nat} (low : ∀ l ∈ levels, l ≠ 4294967295) : LoneSummit levels :=
  fun _ _ first _ => absurd rfl (low _ (List.mem_of_getElem? first))

end

section
variable {F D : Type} [Metric F D] [PartialCmp D] {embeddings : List (List F)} {params : PlainHnswParams F}

theorem insertNode_inserted {growing next : Growing}
    (ran : insertNode embeddings params levels entry top x growing = .ok next) : next.inserted = x :: growing.inserted := by
  unfold insertNode at ran
  obtain ⟨lx,_,later⟩ := except_bind_ok.mp ran
  split at later
  · obtain ⟨layers,_,done⟩ := except_bind_ok.mp later
    cases done
    rfl
  · obtain ⟨current,_,later'⟩ := except_bind_ok.mp later
    obtain ⟨layers,_,done⟩ := except_bind_ok.mp later'
    cases done
    rfl

-- A second node at the highest u32 level has no level above its own to descend to.
theorem insertNode_summit {growing : Growing} (level : levels[x]? = some 4294967295) (started : growing.inserted ≠ []) :
    ¬ ∃ next, insertNode embeddings params levels entry top x growing = .ok next := by
  rintro ⟨next,ran⟩
  unfold insertNode at ran
  obtain ⟨lx,read,later⟩ := except_bind_ok.mp ran
  cases (index_ok.mp read).symm.trans level
  rw [if_neg (by simpa using started)] at later
  obtain ⟨current,descended,_⟩ := except_bind_ok.mp later
  unfold descend at descended
  obtain ⟨d,_,descended'⟩ := except_bind_ok.mp descended
  obtain ⟨lowest,added,_⟩ := except_bind_ok.mp descended'
  exact absurd (add32_ok.mp added).1 (by decide)

end

theorem build_parts {F D : Type} [Metric F D] [PartialCmp D] [LevelSampler F] {embeddings : List (List F)} {params : PlainHnswParams F}
    {h : PlainHnsw F} (made : PlainHnsw.build embeddings params = .ok h) : embeddings.length % 2 ^ 32 ≠ 0 ∧
      ∃ entry grown, (insertionOrder (sampleLevels params (embeddings.length % 2 ^ 32)) (embeddings.length % 2 ^ 32)).foldlM
        (fun growing x => insertNode embeddings params (sampleLevels params (embeddings.length % 2 ^ 32)) entry
          ((sampleLevels params (embeddings.length % 2 ^ 32)).max?.getD 0) x growing)
        ⟨[],blankLayers (embeddings.length % 2 ^ 32) ((sampleLevels params (embeddings.length % 2 ^ 32)).max?.getD 0)⟩ = .ok grown := by
  unfold PlainHnsw.build at made
  dsimp only at made
  split at made
  · cases made
  · rename_i some_
    split at made
    · cases made
    · obtain ⟨entry,_,later⟩ := except_bind_ok.mp made
      obtain ⟨grown,ran,_⟩ := except_bind_ok.mp later
      exact ⟨some_,entry,grown,ran⟩

theorem build_summits {F D : Type} [Metric F D] [PartialCmp D] [LevelSampler F] {embeddings : List (List F)} {params : PlainHnswParams F}
    (order : insertionOrder (sampleLevels params (embeddings.length % 2 ^ 32)) (embeddings.length % 2 ^ 32) = a :: b :: rest)
    (level : (sampleLevels params (embeddings.length % 2 ^ 32))[b]? = some 4294967295) :
    ¬ ∃ h, PlainHnsw.build embeddings params = .ok h := by
  rintro ⟨h,made⟩
  obtain ⟨_,entry,grown,ran⟩ := build_parts made
  rw [order,List.foldlM_cons] at ran
  obtain ⟨first,planted,later⟩ := except_bind_ok.mp ran
  rw [List.foldlM_cons] at later
  obtain ⟨second,inserted_,_⟩ := except_bind_ok.mp later
  have started : first.inserted ≠ [] := by
    rw [insertNode_inserted planted]
    exact List.cons_ne_nil _ _
  exact insertNode_summit level started ⟨second,inserted_⟩

-- Vectors of no components, all at one point; and the cosine distance of vectors of
-- length one.
@[reducible] def onePoint : Metric Unit Nat := ⟨fun _ _ => 0⟩
@[reducible] def unitVectors : Metric Int Int := ⟨fun a b => Int.sub (.ofNat 1) (((a.zip b).map fun xy => Int.mul xy.1 xy.2).foldr Int.add (.ofNat 0))⟩
@[reducible] def levelsOf {F : Type} (levels : List UInt32) : LevelSampler F := ⟨fun _ _ i => levels.getD i 0⟩

def threeAndOne : List (List Int) := [[1,0],[0,1],[1,0],[1,0]]
def planar (heuristic : NeighbourHeuristic) : PlainHnswParams Int := ⟨2,2,2,4,0,[],heuristic⟩

theorem build_well_formed_four_nodes :
    ∃ h, @PlainHnsw.build Int Int unitVectors _ (levelsOf [0,1,1,0]) threeAndOne (planar .algorithm4) = .ok h ∧ h.WellFormed ∧
      h.params = planar .algorithm4 ∧ h.embeddings = threeAndOne ∧
      h.levels = @sampleLevels Int (levelsOf [0,1,1,0]) (planar .algorithm4) 4 :=
  @build_well_formed Int Int unitVectors _ (levelsOf [0,1,1,0]) threeAndOne (planar .algorithm4) (by decide) (by decide)
    (by decide) (.of_low (by decide)) (by decide)

def dimensionless (maxNeighbors : Nat) : PlainHnswParams Unit := ⟨0,maxNeighbors,maxNeighbors,1,(),[],.algorithm4⟩

theorem refused_builds :
    (¬ ∃ h, @PlainHnsw.build Unit Nat onePoint _ (levelsOf []) (List.replicate (2 ^ 32) []) (dimensionless 1) = .ok h) ∧
      (¬ ∃ h, @PlainHnsw.build Unit Nat onePoint _ (levelsOf [4294967295,4294967295]) [[],[]] (dimensionless 1) = .ok h) ∧
      ¬ ∃ h, @PlainHnsw.build Unit Nat onePoint _ (levelsOf []) [[],[]] (dimensionless (2 ^ 61)) = .ok h := by
  refine ⟨?_,?_,?_⟩
  · rintro ⟨h,made⟩
    have counted := (@build_parts _ _ onePoint _ (levelsOf []) _ _ _ made).1
    rw [List.length_replicate,Nat.mod_self] at counted
    exact counted rfl
  · exact @build_summits 0 1 [] Unit Nat onePoint _ (levelsOf [4294967295,4294967295]) [[],[]] (dimensionless 1) (by decide) (by decide)
  · rintro ⟨h,made⟩
    cases made

end Compass
