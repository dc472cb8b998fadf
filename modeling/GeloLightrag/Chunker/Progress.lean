import GeloLightrag.Chunker.TokenBased
import Mathlib.Tactic

namespace Chunker
open Foundation Foundation.Text

section Boundaries
variable {s : Text}

theorem lowered_boundary (s : Text) (i : Nat) : s.isCharBoundary (lowered s i) = true := by
  induction i with
  | zero => exact boundary_zero s
  | succ i ih =>
      rw [lowered]
      split
      · assumption
      · exact ih

theorem lowered_le (s : Text) (i : Nat) : lowered s i ≤ i := by
  induction i with
  | zero => exact Nat.le_refl 0
  | succ i ih =>
      rw [lowered]
      split
      · exact Nat.le_refl _
      · exact Nat.le_succ_of_le ih

theorem le_lowered (boundary : s.isCharBoundary j = true) (below : j ≤ i) : j ≤ lowered s i := by
  induction i with
  | zero => exact below
  | succ i ih =>
      rw [lowered]
      split
      · exact below
      · rename_i inside
        rcases Nat.lt_or_eq_of_le below with lower | rfl
        · exact ih (Nat.le_of_lt_succ lower)
        · exact absurd boundary inside

-- The floor of an offset is the last boundary up to it.
theorem floor_boundary (s : Text) (i : Nat) : s.isCharBoundary (floorCharBoundary s i) = true := by
  unfold floorCharBoundary
  split
  · exact boundary_size s
  · exact lowered_boundary s i

theorem floor_le (_ : i ≤ s.size) : floorCharBoundary s i ≤ i := by
  unfold floorCharBoundary
  split
  · assumption
  · exact lowered_le s i

theorem le_floor (boundary : s.isCharBoundary j = true) (below : j ≤ i) : j ≤ floorCharBoundary s i := by
  unfold floorCharBoundary
  split
  · exact boundary_le boundary
  · exact le_lowered boundary below

theorem floor_of_boundary (boundary : s.isCharBoundary i = true) : floorCharBoundary s i = i :=
  Nat.le_antisymm (floor_le (boundary_le boundary)) (le_floor boundary (Nat.le_refl i))

theorem floor_near (inside : i ≤ s.size) : i < floorCharBoundary s i + 4 := by
  obtain ⟨j,boundary,below,near⟩ := boundary_near inside
  have := le_floor boundary below
  omega

theorem raised_spec (s : Text) (left i : Nat) (reach : i + left = s.size) :
    s.isCharBoundary (raised s left i) = true ∧ i ≤ raised s left i := by
  induction left generalizing i with
  | zero =>
      have last : i = s.size := reach
      exact ⟨last ▸ boundary_size s,Nat.le_refl i⟩
  | succ left ih =>
      rw [raised]
      split
      · exact ⟨by assumption,Nat.le_refl i⟩
      · obtain ⟨boundary,above⟩ := ih (i+1) (by omega)
        exact ⟨boundary,by omega⟩

theorem ceil_boundary (s : Text) (i : Nat) : s.isCharBoundary (ceilCharBoundary s i) = true := by
  unfold ceilCharBoundary
  split
  · exact boundary_size s
  · exact (raised_spec s _ i (by omega)).1

theorem le_ceil (inside : i ≤ s.size) : i ≤ ceilCharBoundary s i := by
  unfold ceilCharBoundary
  split
  · exact inside
  · exact (raised_spec s _ i (by omega)).2

theorem ceil_of_boundary (boundary : s.isCharBoundary i = true) : ceilCharBoundary s i = i := by
  unfold ceilCharBoundary
  split
  · exact Nat.le_antisymm (by assumption) (boundary_le boundary)
  · obtain ⟨left,some⟩ := Nat.exists_eq_add_one.mpr (show 0 < s.size - i by omega)
    rw [some,raised,if_pos boundary]

end Boundaries

section Splitting
variable {text : Text} {separators : List Text}

-- A separator's end is a boundary past the start of the search.
theorem firstSeparator_spec (low : text.isCharBoundary a = true) (high : text.isCharBoundary b = true) (ordered : a ≤ b)
    (nonempty : ∀ separator ∈ separators, separator ≠ []) :
    ∃ found, firstSeparator text a b separators = .ok found ∧
      ∀ split, found = some split → text.isCharBoundary split = true ∧ a < split := by
  induction separators with
  | nil => exact ⟨none,rfl,fun _ absent => by cases absent⟩
  | cons separator rest ih =>
      obtain ⟨first,middle,last,rfl,rfl,rfl⟩ := cut_twice low high ordered
      rw [firstSeparator,slice_append]
      cases found : Text.rfind separator middle with
      | none =>
          have later := ih fun other member => nonempty other (List.mem_cons_of_mem _ member)
          simpa [found,bind,Except.bind] using later
      | some pos =>
          obtain ⟨before,after,rfl,rfl⟩ := rfind_some found
          have advance := size_pos (nonempty separator List.mem_cons_self)
          refine ⟨some (first.size + before.size + separator.size),by simp [found,bind,Except.bind,pure,Except.pure],?_⟩
          intro split is
          cases is
          refine ⟨isCharBoundary_iff.mpr ⟨first ++ (before ++ separator),after ++ last,by simp,by simp [Nat.add_assoc]⟩,by omega⟩

-- A split point lies past three quarters of the window, or at its end.
theorem findSplitPointInternal_spec {tokens : Nat} (nonempty : ∀ separator ∈ separators, separator ≠ [])
    (fits : text.size ≤ tokens * 4) :
    ∃ split, findSplitPointInternal text (tokens * 4) separators = .ok split ∧ text.isCharBoundary split = true ∧
      (tokens * 3 < split ∨ split = text.size) := by
  have quarter : tokens * 4 - tokens * 4 / 4 = tokens * 3 := by omega
  have wholly : floorCharBoundary text (min (tokens * 4) text.size) = text.size := by
    rw [Nat.min_eq_right fits,floor_of_boundary (boundary_size text)]
  unfold findSplitPointInternal
  simp only [quarter,wholly]
  by_cases narrow : text.size ≤ floorCharBoundary text (tokens * 3)
  · exact ⟨text.size,by rw [if_pos narrow]; rfl,boundary_size text,.inr rfl⟩
  · rw [if_neg narrow]
    obtain ⟨found,searched,spec⟩ := firstSeparator_spec (floor_boundary text (tokens * 3)) (boundary_size text)
      (by omega) nonempty
    rw [searched]
    cases found with
    | none => exact ⟨text.size,rfl,boundary_size text,.inr rfl⟩
    | some split =>
        obtain ⟨boundary,past⟩ := spec split rfl
        refine ⟨split,rfl,boundary,.inl ?_⟩
        by_contra early
        exact absurd (le_floor boundary (Nat.le_of_not_lt early)) (by omega)

-- Where a turn resumes after a chunk that ends at a boundary.
def resume (text : Text) (actualEnd overlap : Nat) : Nat :=
  if actualEnd ≤ ceilCharBoundary text (actualEnd - overlap) then actualEnd else ceilCharBoundary text (actualEnd - overlap)

theorem resume_spec (ends : text.isCharBoundary actualEnd = true) (overlap : Nat) :
    text.isCharBoundary (resume text actualEnd overlap) = true ∧ actualEnd - overlap ≤ resume text actualEnd overlap := by
  have above := le_ceil (s:=text) (i:=actualEnd - overlap) (by have := boundary_le ends; omega)
  unfold resume
  split
  · exact ⟨ends,Nat.sub_le _ _⟩
  · exact ⟨ceil_boundary text _,above⟩

-- A turn that does not finish cuts its window at the split point found there.
theorem splitTurn_again (before : Text) {window : Text} (last : Text) {targetSize split : Nat} (overlap minSize : Nat) (chunks : List Text)
    (long : targetSize < (window ++ last).size)
    (fills : floorCharBoundary (before ++ (window ++ last)) (before.size + targetSize) = before.size + window.size)
    (splits : findSplitPointInternal window targetSize separators = .ok split) (boundary : window.isCharBoundary split = true) :
    ∃ more, splitTurn (before ++ (window ++ last)) targetSize overlap minSize separators (before.size,chunks) =
      .ok (.again (resume (before ++ (window ++ last)) (before.size + split) overlap,more)) := by
  obtain ⟨content,after,rfl,rfl⟩ := isCharBoundary_iff.mp boundary
  have here : (before ++ (content ++ after ++ last)).isCharBoundary (before.size + content.size) = true :=
    boundary_within before _ last boundary
  have at_ : (before ++ (content ++ after ++ last)).isCharBoundary before.size = true := isCharBoundary_iff.mpr ⟨before,_,rfl,rfl⟩
  have length : (before ++ (content ++ after ++ last)).size = before.size + (content ++ after ++ last).size := size_append _ _
  have inside : before.size + (content ++ after).size ≤ (before ++ (content ++ after ++ last)).size := by
    rw [length,size_append _ last]
    omega
  have kept : slice (before ++ (content ++ after ++ last)) before.size (before.size + content.size) = .ok content := by
    rw [List.append_assoc content]
    exact slice_append before content (after ++ last)
  have going : ¬ (before ++ (content ++ after ++ last)).size ≤ before.size := by omega
  have more : ¬ (content ++ after ++ last).size ≤ targetSize := by omega
  refine ⟨if minSize ≤ content.size then chunks ++ [content] else chunks,?_⟩
  simp only [splitTurn,if_neg going,ceil_of_boundary at_,sliceFrom_append,bind,Except.bind,pure,Except.pure,if_neg more,fills,
    Nat.min_eq_left inside,slice_append,splits,floor_of_boundary here,kept]
  rfl

-- With a quarter of the window for the separators and no more overlap than the rest, a
-- turn moves on.
theorem splitTurn_advances {tokens overlap pos : Nat} (nonempty : ∀ separator ∈ separators, separator ≠ [])
    (some_ : 0 < tokens) (slack : overlap * 4 ≤ tokens * 3) (minSize : Nat) (at_ : text.isCharBoundary pos = true)
    (chunks : List Text) :
    (∃ out, splitTurn text (tokens * 4) (overlap * 4) minSize separators (pos,chunks) = .ok (.leave out)) ∨
      ∃ next more, splitTurn text (tokens * 4) (overlap * 4) minSize separators (pos,chunks) = .ok (.again (next,more)) ∧
        text.isCharBoundary next = true ∧ pos < next := by
  by_cases finished : text.size ≤ pos
  · exact .inl ⟨chunks,by simp only [splitTurn,if_pos finished]; rfl⟩
  obtain ⟨before,remaining,rfl,rfl⟩ := isCharBoundary_iff.mp at_
  by_cases short : remaining.size ≤ tokens * 4
  · refine .inl ⟨chunks ++ [remaining],?_⟩
    simp only [splitTurn,if_neg finished,ceil_of_boundary at_,sliceFrom_append,bind,Except.bind,pure,Except.pure,if_pos short]
  right
  have reach : before.size + tokens * 4 ≤ (before ++ remaining).size := by rw [size_append]; omega
  have near := floor_near reach
  have low := floor_le reach
  obtain ⟨first,window,last,whole,same,stop⟩ := cut_twice at_ (floor_boundary _ _)
    (le_floor at_ (Nat.le_add_right before.size (tokens * 4)))
  obtain ⟨rfl,rfl⟩ := append_inj whole same.symm
  obtain ⟨split,splits,boundary,far⟩ := findSplitPointInternal_spec nonempty (show window.size ≤ tokens * 4 by omega)
  obtain ⟨more,turned⟩ := splitTurn_again before last (overlap * 4) minSize chunks (by omega) stop.symm splits boundary
  have resumed := resume_spec (boundary_within before window last boundary) (overlap * 4)
  exact ⟨_,more,turned,resumed.1,by omega⟩

end Splitting

-- What a request's configuration needs so that no text keeps the chunker going: the
-- products fit, and a window is either longer than any text or nonempty with an
-- overlap of at most three quarters of it.
def isizeMax : Nat := 2 ^ 63 - 1

def Progresses (config : ChunkerConfig) : Prop :=
  config.chunkSize * 4 < 2 ^ 64 ∧ config.chunkOverlap * 4 < 2 ^ 64 ∧ config.minChunkSize * 4 < 2 ^ 64 ∧
    (isizeMax ≤ config.chunkSize * 4 ∨ 0 < config.chunkSize ∧ config.chunkOverlap * 4 ≤ config.chunkSize * 3)

theorem splitTextInternal_returns {text : Text} {tokens overlap : Nat} {separators : List Text}
    (nonempty : ∀ separator ∈ separators, separator ≠ []) (some_ : 0 < tokens) (slack : overlap * 4 ≤ tokens * 3) (minSize : Nat) :
    ∃ turns chunks, splitTextInternal text (tokens * 4) (overlap * 4) minSize separators turns = some (.ok chunks) := by
  unfold splitTextInternal
  split
  · exact ⟨0,_,rfl⟩
  · refine leaves (fun state => text.isCharBoundary state.1 = true) (fun state => text.size - state.1) ?_ ?_
    · exact boundary_zero text
    · rintro ⟨pos,chunks⟩ at_
      rcases splitTurn_advances nonempty some_ slack minSize at_ chunks with done | ⟨next,more,turned,boundary,further⟩
      · exact .inl done
      · have inside := boundary_le boundary
        exact .inr ⟨(next,more),turned,boundary,by simp only; omega⟩

theorem default_nonempty : ∀ separator ∈ defaultSeparators, separator ≠ [] := by decide

theorem chunk_returns {config : ChunkerConfig} (nonempty : ∀ separator ∈ config.separators, separator ≠ [])
    (progresses : Progresses config) {content : Text} (addressable : content.size ≤ isizeMax) :
    ∃ chunks, Returns content config chunks := by
  obtain ⟨size,overlap,least,room⟩ := progresses
  unfold Returns
  by_cases blank : content.trim.isEmpty = true
  · exact ⟨[],0,by rw [chunk,if_pos blank]⟩
  have run (turns : Nat) : chunk content config turns =
      splitTextInternal content (config.chunkSize * 4) (config.chunkOverlap * 4) (config.minChunkSize * 4) config.separators turns := by
    unfold chunk mulUsize
    rw [if_neg blank,if_pos size,if_pos overlap,if_pos least]
  rcases room with wide | ⟨some_,slack⟩
  · exact ⟨[content],0,by rw [run,splitTextInternal,if_pos (addressable.trans wide)]⟩
  · obtain ⟨turns,chunks,returned⟩ := @splitTextInternal_returns content _ _ _ nonempty some_ slack (config.minChunkSize * 4)
    exact ⟨chunks,turns,(run turns).trans returned⟩

-- A text whose only separator ends just past three quarters of the first window.
def spaced (tokens : Nat) : Text := List.replicate (tokens * 3) 'a' ++ ' ' :: List.replicate tokens 'a'

theorem spaced_size (tokens : Nat) : (spaced tokens).size = tokens * 4 + 1 := by
  have a : 'a'.utf8Size = 1 := rfl
  have space : ' '.utf8Size = 1 := rfl
  rw [spaced,size_append,size_cons,size_replicate,size_replicate,a,space]
  omega

theorem rfind_space (n : Nat) : Text.rfind [' '] (' ' :: List.replicate n 'a') = some 0 := by
  rw [Text.rfind,rfind_none List.mem_cons_self (by simp)]
  rfl

theorem firstSeparator_space (first : Text) (n : Nat) (b : Nat) (whole : b = first.size + size (' ' :: List.replicate n 'a')) :
    firstSeparator (first ++ ' ' :: List.replicate n 'a') first.size b defaultSeparators = .ok (some (first.size + 1)) := by
  have cut : slice (first ++ ' ' :: List.replicate n 'a') first.size b = .ok (' ' :: List.replicate n 'a') := by
    rw [whole]
    simpa using slice_append first (' ' :: List.replicate n 'a') []
  have skipped {separator : Text} {rest : List Text} {c : Char} (listed : c ∈ separator) (missing : c ∉ ' ' :: List.replicate n 'a') :
      firstSeparator (first ++ ' ' :: List.replicate n 'a') first.size b (separator :: rest) =
        firstSeparator (first ++ ' ' :: List.replicate n 'a') first.size b rest := by
    simp only [firstSeparator,cut,rfind_none listed missing,bind,Except.bind]
  have absent {c : Char} (other : c ≠ ' ') (other' : c ≠ 'a') : c ∉ ' ' :: List.replicate n 'a' := by simp [other,other']
  have newline := absent (c:= '\n') (by decide) (by decide)
  rw [defaultSeparators,skipped List.mem_cons_self newline,skipped List.mem_cons_self newline,
    skipped List.mem_cons_self (absent (c:= '.') (by decide) (by decide)),skipped List.mem_cons_self (absent (c:= '!') (by decide) (by decide)),
    skipped List.mem_cons_self (absent (c:= '?') (by decide) (by decide)),skipped List.mem_cons_self (absent (c:= ';') (by decide) (by decide)),
    skipped List.mem_cons_self (absent (c:= ',') (by decide) (by decide))]
  simp only [firstSeparator,cut,rfind_space,bind,Except.bind]
  rfl

theorem spaced_split (more : Nat) :
    findSplitPointInternal (List.replicate ((more+1) * 3) 'a' ++ ' ' :: List.replicate more 'a') ((more+1) * 4) defaultSeparators =
      .ok ((more+1) * 3 + 1) := by
  have a : 'a'.utf8Size = 1 := rfl
  have space : ' '.utf8Size = 1 := rfl
  have first : size (List.replicate ((more+1) * 3) 'a') = (more+1) * 3 := by rw [size_replicate,a,Nat.mul_one]
  have later : size (' ' :: List.replicate more 'a') = more+1 := by rw [size_cons,size_replicate,a,space]; omega
  have length : size (List.replicate ((more+1) * 3) 'a' ++ ' ' :: List.replicate more 'a') = (more+1) * 4 := by
    rw [size_append,first,later]; omega
  have starts : floorCharBoundary (List.replicate ((more+1) * 3) 'a' ++ ' ' :: List.replicate more 'a') ((more+1) * 3) = (more+1) * 3 :=
    floor_of_boundary (isCharBoundary_iff.mpr ⟨_,_,rfl,first⟩)
  have quarter : (more+1) * 4 - (more+1) * 4 / 4 = (more+1) * 3 := by omega
  have wholly : floorCharBoundary (List.replicate ((more+1) * 3) 'a' ++ ' ' :: List.replicate more 'a') ((more+1) * 4) = (more+1) * 4 :=
    floor_of_boundary (length ▸ boundary_size _)
  have found := firstSeparator_space (List.replicate ((more+1) * 3) 'a') more ((more+1) * 4) (by rw [first,later]; omega)
  rw [first] at found
  have narrow : ¬ (more+1) * 4 ≤ (more+1) * 3 := by omega
  simp only [findSplitPointInternal,quarter,length,Nat.min_self,starts,wholly,if_neg narrow,found]
  rfl

-- The overlap then reaches back to the start, and the turn is taken again.
theorem spaced_turn {tokens overlap : Nat} (some_ : 0 < tokens) (reaches : tokens * 3 < overlap * 4) (minSize : Nat) (chunks : List Text) :
    ∃ more, splitTurn (spaced tokens) (tokens * 4) (overlap * 4) minSize defaultSeparators (0,chunks) = .ok (.again (0,more)) := by
  obtain ⟨n,rfl⟩ := Nat.exists_eq_add_one.mpr some_
  have a : 'a'.utf8Size = 1 := rfl
  have space : ' '.utf8Size = 1 := rfl
  have ends : spaced (n+1) = List.replicate ((n+1) * 3) 'a' ++ ' ' :: List.replicate n 'a' ++ ['a'] := by
    rw [spaced,List.replicate_succ']
    simp
  have window : size (List.replicate ((n+1) * 3) 'a' ++ ' ' :: List.replicate n 'a') = (n+1) * 4 := by
    rw [size_append,size_cons,size_replicate,size_replicate,a,space]; omega
  have fills : floorCharBoundary (spaced (n+1)) ((n+1) * 4) = (n+1) * 4 :=
    floor_of_boundary (isCharBoundary_iff.mpr ⟨_,_,ends,window⟩)
  have boundary : isCharBoundary (List.replicate ((n+1) * 3) 'a' ++ ' ' :: List.replicate n 'a') ((n+1) * 3 + 1) = true :=
    isCharBoundary_iff.mpr ⟨List.replicate ((n+1) * 3) 'a' ++ [' '],List.replicate n 'a',by simp,by
      rw [size_append,size_cons,size_nil,size_replicate,a,space]; omega⟩
  obtain ⟨more,turned⟩ := splitTurn_again [] ['a'] (overlap * 4) minSize chunks (by rw [←ends,spaced_size]; omega) (by
    rw [List.nil_append,←ends,window]; simpa using fills) (spaced_split n) boundary
  refine ⟨more,?_⟩
  rw [List.nil_append,←ends] at turned
  have back : resume (spaced (n+1)) (size [] + ((n+1) * 3 + 1)) (overlap * 4) = 0 := by
    have none : size [] + ((n+1) * 3 + 1) - overlap * 4 = 0 := by rw [size_nil]; omega
    rw [resume,none,ceil_of_boundary (boundary_zero _),if_neg (by omega)]
  rwa [back] at turned

-- A single character stands before an empty window.
theorem letter_turn (overlap minSize : Nat) (chunks : List Text) :
    ∃ more, splitTurn ['a'] 0 overlap minSize defaultSeparators (0,chunks) = .ok (.again (0,more)) := by
  have split : findSplitPointInternal [] 0 defaultSeparators = .ok 0 := rfl
  obtain ⟨more,turned⟩ := splitTurn_again [] ['a'] overlap minSize chunks (by decide) rfl split rfl
  have back : resume ['a'] 0 overlap = 0 := by
    rw [resume,Nat.zero_sub]
    rfl
  exact ⟨more,by rw [←back]; exact turned⟩

theorem chunk_stalls {config : ChunkerConfig} {content : Text} (visible : 'a' ∈ content) (separators : config.separators = defaultSeparators)
    (fits : config.chunkSize * 4 < 2 ^ 64 ∧ config.chunkOverlap * 4 < 2 ^ 64 ∧ config.minChunkSize * 4 < 2 ^ 64)
    (long : config.chunkSize * 4 < content.size)
    (turn : ∀ chunks, ∃ more, splitTurn content (config.chunkSize * 4) (config.chunkOverlap * 4) (config.minChunkSize * 4)
      defaultSeparators (0,chunks) = .ok (.again (0,more))) (turns : Nat) : chunk content config turns = none := by
  have seen : ¬ content.trim.isEmpty = true := fun blank => trim_nonempty visible (by decide) (List.isEmpty_iff.mp blank)
  unfold chunk mulUsize splitTextInternal
  rw [if_neg seen,if_pos fits.1,if_pos fits.2.1,if_pos fits.2.2,separators]
  simp only [if_neg (Nat.not_le.mpr long)]
  refine stays (fun state => state.1 = 0) rfl ?_ turns
  rintro ⟨_,chunks⟩ rfl
  obtain ⟨more,turned⟩ := turn chunks
  exact ⟨(0,more),turned,rfl⟩

theorem not_returns_of_overflow {config : ChunkerConfig}
    (wide : ¬ (config.chunkSize * 4 < 2 ^ 64 ∧ config.chunkOverlap * 4 < 2 ^ 64 ∧ config.minChunkSize * 4 < 2 ^ 64)) (chunks : List Text) :
    ¬ Returns ['a'] config chunks := by
  rintro ⟨turns,returned⟩
  unfold chunk mulUsize at returned
  rw [if_neg (by decide)] at returned
  by_cases size : config.chunkSize * 4 < 2 ^ 64
  · by_cases overlap : config.chunkOverlap * 4 < 2 ^ 64
    · have least : ¬ config.minChunkSize * 4 < 2 ^ 64 := fun least => wide ⟨size,overlap,least⟩
      simp only [if_pos size,if_pos overlap,if_neg least] at returned
      cases returned
    · simp only [if_pos size,if_neg overlap] at returned
      cases returned
  · simp only [if_neg size] at returned
    cases returned

theorem chunk_returns_iff (overrides : Option ChunkerOverride) :
    (∀ content : Text, content.size ≤ isizeMax → ∃ chunks, Returns content (buildChunkerConfig overrides) chunks) ↔
      Progresses (buildChunkerConfig overrides) := by
  have separators : (buildChunkerConfig overrides).separators = defaultSeparators := by cases overrides <;> rfl
  constructor
  · intro returns
    by_contra stuck
    by_cases fits : (buildChunkerConfig overrides).chunkSize * 4 < 2 ^ 64 ∧ (buildChunkerConfig overrides).chunkOverlap * 4 < 2 ^ 64 ∧
        (buildChunkerConfig overrides).minChunkSize * 4 < 2 ^ 64
    · have short : (buildChunkerConfig overrides).chunkSize * 4 < isizeMax := by
        by_contra wide
        exact stuck ⟨fits.1,fits.2.1,fits.2.2,.inl (Nat.le_of_not_lt wide)⟩
      rcases Nat.eq_zero_or_pos (buildChunkerConfig overrides).chunkSize with none | some_
      · obtain ⟨chunks,turns,returned⟩ := returns ['a'] (by decide)
        rw [chunk_stalls List.mem_cons_self separators fits (by rw [none]; decide) (by rw [none]; exact letter_turn _ _)] at returned
        cases returned
      · have reaches : (buildChunkerConfig overrides).chunkSize * 3 < (buildChunkerConfig overrides).chunkOverlap * 4 := by
          by_contra slack
          exact stuck ⟨fits.1,fits.2.1,fits.2.2,.inr ⟨some_,Nat.le_of_not_lt slack⟩⟩
        obtain ⟨chunks,turns,returned⟩ := returns (spaced (buildChunkerConfig overrides).chunkSize) (by rw [spaced_size]; omega)
        rw [chunk_stalls (by simp [spaced,some_.ne']) separators fits (by rw [spaced_size]; omega) (spaced_turn some_ reaches _)] at returned
        cases returned
    · obtain ⟨chunks,returned⟩ := returns ['a'] (by decide)
      exact not_returns_of_overflow fits chunks returned
  · exact fun progresses content addressable => chunk_returns (separators ▸ default_nonempty) progresses addressable

-- Chunks of sixteen tokens that overlap by fifteen.
theorem spaced_never_returns :
    (buildChunkerConfig (some ⟨some 16,some 15,none⟩)).chunkOverlap < (buildChunkerConfig (some ⟨some 16,some 15,none⟩)).chunkSize ∧
      ¬ ∃ chunks, Returns (List.replicate 48 'a' ++ ' ' :: List.replicate 16 'a') (buildChunkerConfig (some ⟨some 16,some 15,none⟩)) chunks := by
  refine ⟨by decide,?_⟩
  rintro ⟨chunks,turns,returned⟩
  have stalled := @chunk_stalls (buildChunkerConfig (some ⟨some 16,some 15,none⟩)) (spaced 16) (by decide) rfl
    (by decide) (by decide) (spaced_turn (by decide) (by decide) _) turns
  cases stalled.symm.trans returned

end Chunker
