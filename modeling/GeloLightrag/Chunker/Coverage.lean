import GeloLightrag.Chunker.Progress
import GeloLightrag.Foundation.Checked

namespace Chunker
open Foundation Foundation.Text

section Pieces
variable {text : Text} {separators : List Text}

theorem slice_ok (cut : text.slice a b = .ok middle) :
    ∃ first last, text = first ++ (middle ++ last) ∧ first.size = a ∧ first.size + middle.size = b := by
  unfold slice at cut
  cases outer : text.cutAt b with
  | none => rw [outer] at cut; cases cut
  | some halves =>
      obtain ⟨front,last⟩ := halves
      rw [outer,Option.bind_some] at cut
      cases inner : front.cutAt a with
      | none => rw [inner] at cut; cases cut
      | some halves =>
          obtain ⟨first,rest⟩ := halves
          rw [inner] at cut
          cases cut
          obtain ⟨whole,high⟩ := cutAt_some outer
          obtain ⟨rfl,low⟩ := cutAt_some inner
          exact ⟨first,last,by rw [whole,List.append_assoc],low,by rw [←high,size_append]⟩

theorem firstSeparator_le (searched : firstSeparator text a b separators = .ok (some split)) : split ≤ b := by
  induction separators with
  | nil => cases searched
  | cons separator rest ih =>
      obtain ⟨middle,cut,searched⟩ := except_bind_ok.mp searched
      obtain ⟨first,last,_,low,high⟩ := slice_ok cut
      cases found : Text.rfind separator middle with
      | none =>
          simp only [found] at searched
          exact ih searched
      | some pos =>
          simp only [found] at searched
          cases searched
          obtain ⟨before,after,rfl,rfl⟩ := rfind_some found
          simp only [size_append] at high
          omega

-- A split point lies in the window, and no further than the target.
theorem findSplitPointInternal_le (found : findSplitPointInternal text target separators = .ok split) : split ≤ target ∧ split ≤ text.size := by
  have below := floor_le (s:=text) (i:=min target text.size) (Nat.min_le_right _ _)
  have bound : floorCharBoundary text (min target text.size) ≤ target ∧ floorCharBoundary text (min target text.size) ≤ text.size :=
    ⟨below.trans (Nat.min_le_left _ _),below.trans (Nat.min_le_right _ _)⟩
  unfold findSplitPointInternal at found
  dsimp only at found
  split at found
  · cases found
    exact bound
  · obtain ⟨answer,searched,found⟩ := except_bind_ok.mp found
    cases answer with
    | none =>
        cases found
        exact bound
    | some split =>
        cases found
        have last := firstSeparator_le searched
        omega

-- The pieces that the loop cuts from a position on, by their offsets. The last is the
-- rest of the text.
inductive Cuts (text : Text) (targetSize overlap : Nat) (separators : List Text) : Nat → List (Nat × Nat) → Prop where
  | last {pos : Nat} (at_ : text.isCharBoundary pos = true) (short : text.size - pos ≤ targetSize) : Cuts text targetSize overlap separators pos [(pos,text.size)]
  | piece {pos split : Nat} {window : Text} {rest : List (Nat × Nat)} (at_ : text.isCharBoundary pos = true) (long : targetSize < text.size - pos)
      (cut : text.slice pos (floorCharBoundary text (pos + targetSize)) = .ok window)
      (found : findSplitPointInternal window targetSize separators = .ok split)
      (later : Cuts text targetSize overlap separators (resume text (floorCharBoundary text (pos + split)) overlap) rest) :
      Cuts text targetSize overlap separators pos ((pos,floorCharBoundary text (pos + split)) :: rest)

-- What one turn does: at a boundary before the end it leaves with the rest, or cuts a
-- piece that ends before the text does.
theorem splitTurn_cases {pos : Nat} (at_ : text.isCharBoundary pos = true) (inside : pos < text.size)
    (ran : splitTurn text targetSize overlap minSize separators (pos,chunks) = .ok turn) :
    (∃ remaining, text.size - pos ≤ targetSize ∧ text.slice pos text.size = .ok remaining ∧ turn = .leave (chunks ++ [remaining])) ∨
      ∃ window split content, targetSize < text.size - pos ∧ text.slice pos (floorCharBoundary text (pos + targetSize)) = .ok window ∧
        findSplitPointInternal window targetSize separators = .ok split ∧ text.slice pos (floorCharBoundary text (pos + split)) = .ok content ∧
        turn = .again (resume text (floorCharBoundary text (pos + split)) overlap,if minSize ≤ content.size then chunks ++ [content] else chunks) := by
  obtain ⟨before,remaining,rfl,rfl⟩ := isCharBoundary_iff.mp at_
  have rest : (before ++ remaining).size - before.size = remaining.size := by rw [size_append]; omega
  simp only [splitTurn,if_neg (Nat.not_le.mpr inside),ceil_of_boundary at_,sliceFrom_append,bind,Except.bind,pure,Except.pure] at ran
  split at ran
  · rename_i short
    cases ran
    refine .inl ⟨remaining,rest ▸ short,?_,rfl⟩
    have whole := slice_append before remaining []
    rwa [List.append_nil,←size_append] at whole
  · rename_i long
    have high : floorCharBoundary (before ++ remaining) (before.size + targetSize) ≤ (before ++ remaining).size := boundary_le (floor_boundary _ _)
    rw [Nat.min_eq_left high] at ran
    cases cut : (before ++ remaining).slice before.size (floorCharBoundary (before ++ remaining) (before.size + targetSize)) with
    | error text => rw [cut] at ran; cases ran
    | ok window =>
        rw [cut] at ran
        dsimp only at ran
        cases found : findSplitPointInternal window targetSize separators with
        | error text => rw [found] at ran; cases ran
        | ok split =>
            rw [found] at ran
            dsimp only at ran
            cases kept : (before ++ remaining).slice before.size (floorCharBoundary (before ++ remaining) (before.size + split)) with
            | error text => rw [kept] at ran; cases ran
            | ok content =>
                rw [kept] at ran
                cases ran
                exact .inr ⟨window,split,content,by omega,rfl,found,kept,rfl⟩

theorem raised_le (boundary : text.isCharBoundary j = true) (above : i ≤ j) (left : Nat) : raised text left i ≤ j := by
  induction left generalizing i with
  | zero => exact above
  | succ left ih =>
      rw [raised]
      split
      · exact above
      · rename_i inside
        rcases Nat.lt_or_eq_of_le above with lower | rfl
        · exact ih lower
        · exact absurd boundary inside

theorem ceil_le (boundary : text.isCharBoundary j = true) (above : i ≤ j) : ceilCharBoundary text i ≤ j := by
  unfold ceilCharBoundary
  split
  · rename_i past
    exact past.trans above
  · exact raised_le boundary above _

theorem resume_le (text : Text) (actualEnd overlap : Nat) : resume text actualEnd overlap ≤ actualEnd := by
  unfold resume
  split
  · exact Nat.le_refl _
  · omega

namespace Cuts
variable {targetSize overlap pos : Nat} {spans : List (Nat × Nat)}

theorem piece_bounds {window : Text} {split : Nat} (at_ : text.isCharBoundary pos = true) (long : targetSize < text.size - pos)
    (found : findSplitPointInternal window targetSize separators = .ok split) :
    pos ≤ floorCharBoundary text (pos + split) ∧ floorCharBoundary text (pos + split) < text.size ∧
      floorCharBoundary text (pos + split) - pos ≤ targetSize := by
  have short := (findSplitPointInternal_le found).1
  have low := le_floor at_ (Nat.le_add_right pos split)
  have high := floor_le (s:=text) (i:=pos + split) (by omega)
  omega

theorem head (cuts : Cuts text targetSize overlap separators pos spans) : ∃ stop rest, spans = (pos,stop) :: rest := by
  cases cuts with
  | last at_ short => exact ⟨_,_,rfl⟩
  | piece at_ long cut found later => exact ⟨_,_,rfl⟩

theorem whole (cuts : Cuts text targetSize overlap separators pos spans) : ∀ span ∈ spans,
    text.isCharBoundary span.1 = true ∧ text.isCharBoundary span.2 = true ∧ span.1 ≤ span.2 ∧ span.2 - span.1 ≤ targetSize := by
  induction cuts with
  | last at_ short =>
      intro span member
      obtain rfl := List.mem_singleton.mp member
      exact ⟨at_,boundary_size text,boundary_le at_,short⟩
  | piece at_ long cut found later ih =>
      intro span member
      rcases List.mem_cons.mp member with rfl | member
      · obtain ⟨low,_,small⟩ := piece_bounds at_ long found
        exact ⟨at_,floor_boundary _ _,low,small⟩
      · exact ih span member

theorem ends (cuts : Cuts text targetSize overlap separators pos spans) : spans.getLast?.map Prod.snd = some text.size := by
  induction cuts with
  | last at_ short => rfl
  | piece at_ long cut found later ih =>
      obtain ⟨stop,rest,rfl⟩ := later.head
      rw [List.getLast?_cons_cons]
      exact ih

theorem before_end (cuts : Cuts text targetSize overlap separators pos spans) : ∀ span ∈ spans.dropLast, span.2 < text.size := by
  induction cuts with
  | last at_ short => exact fun _ member => absurd member List.not_mem_nil
  | piece at_ long cut found later ih =>
      obtain ⟨stop,rest,rfl⟩ := later.head
      intro span member
      rw [List.dropLast_cons_cons] at member
      rcases List.mem_cons.mp member with rfl | member
      · exact (piece_bounds at_ long found).2.1
      · exact ih span member

theorem unique {spans' : List (Nat × Nat)} (cuts : Cuts text targetSize overlap separators pos spans)
    (cuts' : Cuts text targetSize overlap separators pos spans') : spans = spans' := by
  induction cuts generalizing spans' with
  | last at_ short =>
      cases cuts' with
      | last => rfl
      | piece _ long => exact absurd long (Nat.not_lt.mpr short)
  | piece at_ long cut found later ih =>
      cases cuts' with
      | last _ short => exact absurd long (Nat.not_lt.mpr short)
      | piece _ _ cut' found' later' =>
          cases cut.symm.trans cut'
          cases found.symm.trans found'
          rw [ih later']

-- The loop goes on from within the piece it has cut, and not before its start if it is
-- longer than the overlap: else it would be back where it was, or before.
theorem joined (cuts : Cuts text targetSize overlap separators pos spans) :
    spans.IsChain (fun a b => b.1 ≤ a.2 ∧ a.1 ≤ b.1) ↔ ∀ span ∈ spans.dropLast, overlap ≤ span.2 - span.1 := by
  induction cuts with
  | last at_ short => exact ⟨fun _ _ member => absurd member List.not_mem_nil,fun _ => .singleton _⟩
  | @piece pos split window rest at_ long cut found later ih =>
      have again := Cuts.piece at_ long cut found later
      obtain ⟨low,_,_⟩ := piece_bounds at_ long found
      obtain ⟨stop,tail,rfl⟩ := later.head
      rw [List.dropLast_cons_cons,List.isChain_cons_cons,ih,List.forall_mem_cons]
      refine and_congr ⟨fun onward => ?_,fun enough => ⟨resume_le _ _ _,?_⟩⟩ Iff.rfl
      · by_contra short
        have back : resume text (floorCharBoundary text (pos + split)) overlap ≤ pos := by
          have lands := ceil_le at_ (show floorCharBoundary text (pos + split) - overlap ≤ pos by simp only at short; omega)
          unfold resume
          split <;> omega
        have same : resume text (floorCharBoundary text (pos + split)) overlap = pos := Nat.le_antisymm back onward.2
        rw [same] at later again
        have equal := congrArg List.length (again.unique later)
        simp at equal
      · have past := (resume_spec (floor_boundary text (pos + split)) overlap).2
        simp only at enough ⊢
        omega

end Cuts

-- The chunks of the pieces that are as long as the least, or last.
def cut (text : Text) (span : Nat × Nat) : Text := (text.slice span.1 span.2).toOption.getD []
def kept (text : Text) (minSize : Nat) (span : Nat × Nat) : Bool := decide (minSize ≤ span.2 - span.1) || decide (span.2 = text.size)
def emitted (text : Text) (minSize : Nat) (spans : List (Nat × Nat)) : List Text := (spans.filter (kept text minSize)).map (cut text)

theorem cut_slice (sliced : text.slice a b = .ok content) : cut text (a,b) = content ∧ content.size = b - a := by
  obtain ⟨first,last,_,low,high⟩ := slice_ok sliced
  exact ⟨by unfold cut; rw [sliced]; rfl,by omega⟩

theorem emitted_cons (minSize : Nat) (span : Nat × Nat) (rest : List (Nat × Nat)) :
    emitted text minSize (span :: rest) = (if kept text minSize span then [cut text span] else []) ++ emitted text minSize rest := by
  unfold emitted
  rw [List.filter_cons]
  split <;> rfl

theorem loop_cuts {targetSize overlap minSize turns pos : Nat} {chunks out : List Text} (at_ : text.isCharBoundary pos = true) (inside : pos < text.size)
    (ran : loop (splitTurn text targetSize overlap minSize separators) turns (pos,chunks) = some (.ok out)) :
    ∃ spans, Cuts text targetSize overlap separators pos spans ∧ out = chunks ++ emitted text minSize spans := by
  induction turns generalizing pos chunks with
  | zero => cases ran
  | succ turns ih =>
      cases turned : splitTurn text targetSize overlap minSize separators (pos,chunks) with
      | error text => simp only [loop,turned] at ran; cases ran
      | ok turn =>
          simp only [loop,turned] at ran
          rcases splitTurn_cases at_ inside turned with ⟨remaining,short,sliced,rfl⟩ | ⟨window,split,content,long,cut_,found,sliced,rfl⟩
          · cases ran
            refine ⟨_,.last at_ short,?_⟩
            rw [emitted,List.filter_singleton,show kept text minSize (pos,text.size) = true by simp [kept]]
            simp [(cut_slice sliced).1]
          · obtain ⟨low,high,small⟩ := Cuts.piece_bounds at_ long found
            have onward := resume_spec (floor_boundary text (pos + split)) overlap
            obtain ⟨spans,later,rfl⟩ := ih onward.1 ((resume_le _ _ _).trans_lt high) ran
            obtain ⟨is,sized⟩ := cut_slice sliced
            refine ⟨_,.piece at_ long cut_ found later,?_⟩
            have keeps : kept text minSize (pos,floorCharBoundary text (pos + split)) = decide (minSize ≤ content.size) := by
              rw [kept,sized,decide_eq_false (show ¬ floorCharBoundary text (pos + split) = text.size by omega),Bool.or_false]
            rw [emitted_cons,keeps,is]
            by_cases enough : minSize ≤ content.size
            · rw [if_pos enough,if_pos (decide_eq_true enough),List.append_assoc]
            · rw [if_neg enough,if_neg (by simp [enough]),List.nil_append]

-- Every piece becomes a chunk where none of them but the last can be short of the
-- least.
theorem emitted_all {minSize : Nat} {spans : List (Nat × Nat)} (ends : spans.getLast?.map Prod.snd = some text.size)
    (before_end : ∀ span ∈ spans.dropLast, span.2 < text.size) :
    emitted text minSize spans = spans.map (cut text) ↔ ∀ span ∈ spans.dropLast, minSize ≤ span.2 - span.1 := by
  obtain ⟨final,last_,at_⟩ := Option.map_eq_some_iff.mp ends
  have split : spans = spans.dropLast ++ [final] := (List.dropLast_append_getLast? final last_).symm
  have whole : emitted text minSize spans = spans.map (cut text) ↔ ∀ span ∈ spans, kept text minSize span = true := by
    rw [←List.length_filter_eq_length_iff]
    constructor
    · intro same
      simpa [emitted] using congrArg List.length same
    · intro full
      rw [emitted,(List.filter_sublist (p:=kept text minSize) (l:=spans)).eq_of_length full]
  rw [whole]
  constructor
  · intro all span member
    have keeps := all span (by rw [split]; exact List.mem_append_left _ member)
    have inside := before_end span member
    simp only [kept,Bool.or_eq_true,decide_eq_true_eq] at keeps
    omega
  · intro enough span member
    rw [split] at member
    rcases List.mem_append.mp member with member | member
    · simp [kept,enough span member]
    · obtain rfl := List.mem_singleton.mp member
      simp [kept,at_]

end Pieces

-- Chunks that lose nothing of a text: the first starts it, each next one starts within
-- the one before, the last ends it, and none is larger than the target.
structure Covered (text : Text) (targetSize : Nat) (spans : List (Nat × Nat)) : Prop where
  starts : spans.head?.map Prod.fst = some 0
  ends : spans.getLast?.map Prod.snd = some text.size
  joined : spans.IsChain fun a b => b.1 ≤ a.2 ∧ a.1 ≤ b.1
  whole : ∀ span ∈ spans, text.isCharBoundary span.1 = true ∧ text.isCharBoundary span.2 = true ∧ span.1 ≤ span.2 ∧ span.2 - span.1 ≤ targetSize

-- Each byte is in one of them.
theorem chain_everywhere {spans : List (Nat × Nat)} (starts : spans.head?.map Prod.fst = some first) (ends : spans.getLast?.map Prod.snd = some last)
    (joined : spans.IsChain fun a b => b.1 ≤ a.2 ∧ a.1 ≤ b.1) (i : Nat) (from_ : first ≤ i) (below : i < last) :
    ∃ span ∈ spans, span.1 ≤ i ∧ i < span.2 := by
  induction spans generalizing first with
  | nil => cases starts
  | cons span rest ih =>
      cases starts
      cases rest with
      | nil =>
          cases ends
          exact ⟨span,List.mem_cons_self,from_,below⟩
      | cons next rest =>
          obtain ⟨⟨touches,_⟩,later⟩ := List.isChain_cons_cons.mp joined
          by_cases here : i < span.2
          · exact ⟨span,List.mem_cons_self,from_,here⟩
          · rw [List.getLast?_cons_cons] at ends
            obtain ⟨found,member,bounds⟩ := ih rfl ends later (by omega)
            exact ⟨found,List.mem_cons_of_mem _ member,bounds⟩

theorem mulUsize_ok (product : mulUsize x y = .ok z) : x * y < 2 ^ 64 ∧ x * y = z := by
  unfold mulUsize at product
  split at product
  · cases product
    exact ⟨by assumption,rfl⟩
  · cases product

end Chunker
