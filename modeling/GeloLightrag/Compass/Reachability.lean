import GeloLightrag.Compass.Descent

namespace Compass
open Foundation
open Foundation.Proximity

-- Where a descent through the upper layers can end: at the entry if there are none,
-- else at a node that has a level of its own.
def Landing (levels : List Nat) (top entry a : Nat) : Prop := if top = 0 then a = entry else 1 ≤ levels.getD a 0

section
variable {F D : Type} [Metric F D] [PartialCmp D]

-- An insertion cuts nothing where every node that a list drops from the ground
-- layer can still be reached from every landing node.
def CutsNothing (embeddings : List (List F)) (params : PlainHnswParams F) (levels : List Nat) (entry top : Nat) :
    List Nat → Growing → Prop
  | [],_ => True
  | x :: rest,growing =>
    match insertNode embeddings params levels entry top x growing with
    | .ok next => Uncut (Landing levels top entry) (fun a => a ∈ growing.inserted) (growing.layers.links 0) x
        (next.layers.links 0 x) (next.layers.links 0) ∧ CutsNothing embeddings params levels entry top rest next
    | .error _ => True

def BuildCutsNothing [LevelSampler F] (embeddings : List (List F)) (params : PlainHnswParams F) : Prop :=
  let n := embeddings.length
  let levels := sampleLevels params n
  let top := levels.max?.getD 0
  match insertionOrder levels n with
  | [] => True
  | entry :: rest =>
    match insertNode embeddings params levels entry top entry ⟨[],blankLayers n top⟩ with
    | .ok first => CutsNothing embeddings params levels entry top rest first
    | .error _ => True

variable {embeddings : List (List F)} {params : PlainHnswParams F} {levels : List Nat} {n top entry : Nat} {growing next : Growing}

theorem Attached.settles (attached : Attached params top entry x growing next)
    (room : 0 < maxM params 0) (absent : x ∉ growing.inserted) (started : entry ∈ growing.inserted)
    (higher : ∀ a ∈ growing.inserted, levels.getD x 0 ≤ levels.getD a 0) (lands : Landing levels top entry x) :
    ∃ s ∈ next.layers.links 0 x, Landing levels top entry s := by
  unfold Landing at lands ⊢
  split at lands
  · exact absurd (lands ▸ started) absent
  · rename_i tall
    obtain ⟨s,member⟩ := List.exists_mem_of_ne_nil _ (attached.chosen room)
    have above := higher s (attached.old s member)
    exact ⟨s,member,by rw [if_neg tall]; omega⟩

theorem Grown.hollow (grown : Grown params levels n top growing) (absent : x ∉ growing.inserted) : growing.layers.links 0 x = [] :=
  (grown.layered.well 0 (Nat.zero_le _)).source x fun present => absent present.1

theorem Growth.covered {rest : List Nat} {last : Growing} (room : 0 < maxM params 0)
    (growth : Growth embeddings params levels n top entry rest growing last)
    (uncut : CutsNothing embeddings params levels entry top rest growing)
    (covered : Covered (Landing levels top entry) (fun a => a ∈ growing.inserted) (growing.layers.links 0)) :
    Covered (Landing levels top entry) (fun a => a ∈ last.inserted) (last.layers.links 0) := by
  induction growth with
  | done => exact covered
  | step ran grown absent is started higher attached _ ih =>
      unfold CutsNothing at uncut
      rw [ran] at uncut
      refine ih uncut.2 ?_
      have grown_on := covered.linked attached.linked (grown.hollow absent) (attached.chosen room) attached.old
        (attached.settles room absent started higher) uncut.1
      intro e lands present a target
      rw [is] at present target
      exact grown_on e lands (List.mem_cons.mp present) a (List.mem_cons.mp target)

-- On a single layer nothing that is out of the entry's reach is ever linked again.
theorem Attached.confined (attached : Attached params 0 entry x growing next)
    (path : Reach (next.layers.links 0) entry a) : a = x ∨ Reach (growing.layers.links 0) entry a := by
  induction path with
  | refl => exact .inr .refl
  | @tail b c _ edge ih =>
      rcases ih with rfl | reached
      · exact .inr (attached.led rfl c edge)
      · by_cases same : b = x
        · exact .inr (attached.led rfl c (same ▸ edge))
        · by_cases among : b ∈ next.layers.links 0 x
          · rcases List.mem_append.mp ((attached.linked.back b among).among edge) with before | last
            · exact .inr (reached.tail before)
            · exact .inl (List.mem_singleton.mp last)
          · rw [attached.linked.frame b same among] at edge
            exact .inr (reached.tail edge)

theorem Growth.uncut {rest : List Nat} {last : Growing} (growth : Growth embeddings params levels n 0 entry rest growing last)
    (reached : ∀ a ∈ last.inserted, Reach (last.layers.links 0) entry a) :
    CutsNothing embeddings params levels entry 0 rest growing ∧ ∀ a ∈ growing.inserted, Reach (growing.layers.links 0) entry a := by
  induction growth with
  | done => exact ⟨trivial,reached⟩
  | step ran grown absent is _ _ attached _ ih =>
      obtain ⟨later,now⟩ := ih reached
      refine ⟨?_,fun a member => ?_⟩
      · unfold CutsNothing
        rw [ran]
        refine ⟨Covered.uncut (fun e lands _ a inside => ?_) (.congr (fun a => by simp [presentAt]) rfl
          (grown.layered.well 0 (Nat.zero_le _))),later⟩
        obtain rfl : e = entry := by simpa [Landing] using lands
        exact now a (by rw [is]; exact List.mem_cons.mpr inside)
      · have after := now a (by rw [is]; exact List.mem_cons_of_mem _ member)
        exact (attached.confined after).resolve_left fun same => absent (same ▸ member)

end

section
variable {F D : Type} [Metric F D]

theorem Built.covered_first [PartialCmp D] {embeddings : List (List F)} {params : PlainHnswParams F} {levels : List Nat} {n top entry : Nat}
    {rest : List Nat} {first last : Growing} (built : Built embeddings params levels n top entry rest first last) :
    Covered (Landing levels top entry) (fun a => a ∈ first.inserted) (first.layers.links 0) := by
  intro e _ present a target
  rw [built.alone] at present target
  rw [List.mem_singleton.mp present,List.mem_singleton.mp target]
  exact .refl

theorem descent_lands [PartialCmp D] {h : PlainHnsw F} (well : h.WellFormed) (query : List F) (turns : Nat) (start : D)
    {e : Nat} {d : D} (ended : upperDescent (buildUpperLayerCache h) query turns h.topLayer (h.entry,start) = .ok (e,d)) :
    e < h.embeddings.length ∧ Landing h.levels h.topLayer h.entry e := by
  refine (upperDescent_holds (fun a => a < h.embeddings.length ∧ Landing h.levels h.topLayer h.entry a) turns h.topLayer
    ?_ (h.entry,start) ⟨well.entered.1,?_⟩).at_ok ended
  · intro l above inside a _ b edge
    rw [upperLayerNeighbours_cache h above] at edge
    obtain ⟨small,high⟩ := well.leveled l inside a b edge
    unfold PlainHnsw.level at high
    exact ⟨small,by unfold Landing; rw [if_neg (by omega)]; omega⟩
  · have level := well.entered.2
    unfold PlainHnsw.level at level
    unfold Landing
    split
    · rfl
    · rename_i tall
      exact Nat.pos_of_ne_zero (level.trans_ne tall)

end

-- Three equal vectors and one at a right angle to them, two neighbours each: the
-- last insertion makes the first node drop the odd one, and nothing else leads there.
def OutlierCutOff (heuristic : NeighbourHeuristic) : Prop :=
  ∃ h, @PlainHnsw.build Int Int unitVectors _ (levelsOf []) threeAndOne (planar heuristic) = .ok h ∧
    @upperDescent _ _ unitVectors _ (buildUpperLayerCache h) [1,0] 5 h.topLayer (h.entry,0) = .ok (0,0) ∧
    ¬ Reach (h.neighbours 0) 0 1

end Compass
