import GeloLightrag.Foundation.BinaryHeap

namespace Foundation.BinaryHeap
variable {α : Type} {le : α → α → Bool} {data : Array α}

-- An element is not above its parent's.
def Under (le : α → α → Bool) (data : Array α) (i : Nat) : Prop :=
  ∀ a b, 0 < i → data[i]? = some a → data[(i - 1) / 2]? = some b → le a b = true

-- The children of a position are not above the parent of it.
def Spanned (le : α → α → Bool) (data : Array α) (pos : Nat) : Prop :=
  ∀ i a b, (i - 1) / 2 = pos → 0 < i → 0 < pos → data[i]? = some a → data[(pos - 1) / 2]? = some b → le a b = true

def Heap (le : α → α → Bool) (heap : BinaryHeap α) : Prop := ∀ i, Under le heap.data i

-- A heap but for one element, which may be too great or, the other way, too small.
structure SiftingUp (le : α → α → Bool) (data : Array α) (pos : Nat) : Prop where
  rest : ∀ i, i ≠ pos → Under le data i
  spanned : Spanned le data pos

structure SiftingDown (le : α → α → Bool) (data : Array α) (pos : Nat) : Prop where
  rest : ∀ i, i ≠ pos → (i - 1) / 2 ≠ pos → Under le data i
  spanned : Spanned le data pos

theorem swapped {i j : Nat} (first : data[i]? = some a) (second : data[j]? = some b) (k : Nat) :
    (data.swapIfInBounds i j)[k]? = if j = k then some a else if i = k then some b else data[k]? := by
  obtain ⟨inside,rfl⟩ := Array.getElem?_eq_some_iff.mp first
  obtain ⟨inside',rfl⟩ := Array.getElem?_eq_some_iff.mp second
  rw [Array.swapIfInBounds_def,dif_pos inside,dif_pos inside',Array.getElem?_swap]

theorem childless (short : data.size ≤ 2 * pos + 1) (child : (i - 1) / 2 = pos) (later : 0 < i) : data[i]? = none :=
  Array.getElem?_eq_none (by omega)

section Order
variable (total : ∀ a b, le a b = true ∨ le b a = true) (trans : ∀ a b c, le a b = true → le b c = true → le a c = true)
include total trans

theorem SiftingUp.swap {pos : Nat} {element above : α} (sifting : SiftingUp le data pos) (inner : 0 < pos) (here : data[pos]? = some element)
    (parent : data[(pos - 1) / 2]? = some above) (greater : ¬le element above = true) :
    SiftingUp le (data.swapIfInBounds pos ((pos - 1) / 2)) ((pos - 1) / 2) := by
  have lower : le above element = true := (total above element).resolve_right greater
  have moved := swapped here parent
  have up : (pos - 1) / 2 ≠ pos := by omega
  constructor
  · intro i other a b later at_ over_
    rw [moved,if_neg other.symm] at at_
    rw [moved] at over_
    by_cases same : pos = i
    · subst same
      rw [if_pos rfl] at at_ over_
      cases at_
      cases over_
      exact lower
    · rw [if_neg same] at at_
      by_cases sibling : (pos - 1) / 2 = (i - 1) / 2
      · rw [if_pos sibling] at over_
        cases over_
        exact trans _ _ _ (sifting.rest i (Ne.symm same) a above later at_ (by rw [←sibling]; exact parent)) lower
      · rw [if_neg sibling] at over_
        by_cases child : pos = (i - 1) / 2
        · rw [if_pos child] at over_
          cases over_
          exact sifting.spanned i a above child.symm later inner at_ parent
        · rw [if_neg child] at over_
          exact sifting.rest i (Ne.symm same) a b later at_ over_
  · intro i a b child later outer at_ over_
    have apart : (pos - 1) / 2 ≠ ((pos - 1) / 2 - 1) / 2 := by omega
    have apart' : pos ≠ ((pos - 1) / 2 - 1) / 2 := by omega
    rw [moved,if_neg apart,if_neg apart'] at over_
    have step := sifting.rest _ up above b outer parent over_
    rw [moved,if_neg (by omega)] at at_
    by_cases same : pos = i
    · rw [if_pos same] at at_
      cases at_
      exact step
    · rw [if_neg same] at at_
      exact trans _ _ _ (sifting.rest i (Ne.symm same) a above later at_ (by rw [child]; exact parent)) step

theorem siftUp_heap (turns pos : Nat) (enough : pos ≤ turns) (sifting : SiftingUp le data pos) : ∀ i, Under le (siftUp le turns data pos) i := by
  induction turns generalizing data pos with
  | zero =>
      obtain rfl := Nat.le_zero.mp enough
      intro i
      by_cases first : i = 0
      · subst first
        exact fun _ _ later => absurd later (Nat.lt_irrefl 0)
      · exact sifting.rest i first
  | succ turns ih =>
      unfold siftUp
      dsimp only
      have settled : (∀ a b, 0 < pos → data[pos]? = some a → data[(pos - 1) / 2]? = some b → le a b = true) → ∀ i, Under le data i := by
        intro own i
        by_cases same : i = pos
        · subst same; exact own
        · exact sifting.rest i same
      split
      · rename_i element above here parent
        split
        · rename_i done
          refine settled fun a b later at_ over_ => ?_
          rw [here] at at_
          rw [parent] at over_
          cases at_
          cases over_
          exact done.resolve_left (Nat.pos_iff_ne_zero.mp later)
        · rename_i going
          rw [not_or] at going
          exact ih _ (by omega) (sifting.swap total trans (Nat.pos_of_ne_zero going.1) here parent going.2)
      · rename_i missing
        exact settled fun a b _ at_ over_ => absurd over_ (missing a b at_)

-- The greater of two children takes the place of what sinks.
theorem SiftingDown.swap {pos greater other : Nat} {element up : α} (sifting : SiftingDown le data pos) (here : data[pos]? = some element)
    (child : data[greater]? = some up) (one : greater = 2 * pos + 1 ∧ other = 2 * pos + 2 ∨ greater = 2 * pos + 2 ∧ other = 2 * pos + 1)
    (second : ∀ b, data[other]? = some b → le b up = true) :
    SiftingDown le (data.swapIfInBounds pos greater) greater := by
  have moved := swapped here child
  constructor
  · intro i own apart a b later at_ over_
    rw [moved,if_neg own.symm] at at_
    rw [moved,if_neg apart.symm] at over_
    by_cases same : pos = i
    · subst same
      rw [if_pos rfl] at at_
      cases at_
      rw [if_neg (by omega)] at over_
      exact sifting.spanned greater up b (by omega) (by omega) later child over_
    · rw [if_neg same] at at_
      by_cases sibling : pos = (i - 1) / 2
      · rw [if_pos sibling] at over_
        cases over_
        obtain rfl : i = other := by omega
        exact second a at_
      · rw [if_neg sibling] at over_
        exact sifting.rest i (Ne.symm same) (Ne.symm sibling) a b later at_ over_
  · intro i a b under later inner at_ over_
    rw [moved,if_neg (by omega),if_neg (by omega)] at at_
    rw [moved,if_neg (by omega),if_pos (by omega)] at over_
    cases over_
    exact sifting.rest i (by omega) (by omega) a up later at_ (by rw [under]; exact child)

theorem SiftingDown.leaf {pos : Nat} (sifting : SiftingDown le data pos) (short : data.size ≤ 2 * pos + 1) : SiftingUp le data pos := by
  refine ⟨fun i other => ?_,sifting.spanned⟩
  by_cases child : (i - 1) / 2 = pos
  · intro a b later at_ _
    rw [childless short child later] at at_
    cases at_
  · exact sifting.rest i other child

theorem siftDown_sifts (turns pos : Nat) (enough : data.size ≤ turns + pos) (inside : pos < data.size) (sifting : SiftingDown le data pos) :
    SiftingUp le (siftDown le turns data pos).1 (siftDown le turns data pos).2 := by
  induction turns generalizing data pos with
  | zero => omega
  | succ turns ih =>
      have here : data[pos]? = some data[pos] := Array.getElem?_eq_getElem inside
      unfold siftDown
      dsimp only
      split
      · rename_i left right first second
        obtain ⟨room,_⟩ := Array.getElem?_eq_some_iff.mp second
        split
        · rename_i less
          refine ih _ (by rw [Array.size_swapIfInBounds]; omega) (by rw [Array.size_swapIfInBounds]; omega)
            (sifting.swap total trans here second (.inr ⟨rfl,rfl⟩) fun b found => ?_)
          rw [first] at found
          cases found
          exact less
        · rename_i more
          refine ih _ (by rw [Array.size_swapIfInBounds]; omega) (by rw [Array.size_swapIfInBounds]; omega)
            (sifting.swap total trans here first (.inl ⟨rfl,rfl⟩) fun b found => ?_)
          rw [second] at found
          cases found
          exact (total left right).resolve_left more
      · rename_i left first second
        have last : data.size ≤ 2 * pos + 2 := Array.getElem?_eq_none_iff.mp second
        refine (sifting.swap total trans here first (.inl ⟨rfl,rfl⟩) fun b found => ?_).leaf total trans (by
          rw [Array.size_swapIfInBounds]; omega)
        rw [second] at found
        cases found
      · rename_i none_ lone
        refine sifting.leaf total trans ?_
        by_contra room
        have first : data[2 * pos + 1]? = some data[2 * pos + 1] := Array.getElem?_eq_getElem (by omega)
        cases second : data[2 * pos + 2]? with
        | none => exact lone _ first second
        | some right => exact none_ _ _ first second

theorem siftDownToBottom_heap (sifting : SiftingDown le data 0) : ∀ i, Under le (siftDownToBottom le data) i := by
  unfold siftDownToBottom
  by_cases some_ : 0 < data.size
  · exact siftUp_heap total trans _ _ (Nat.le_refl _) (siftDown_sifts total trans _ _ (Nat.le_refl _) some_ sifting)
  · have empty : data = #[] := Array.size_eq_zero_iff.mp (by omega)
    subst empty
    intro i a b _ at_
    change (#[] : Array α)[i]? = some a at at_
    cases at_

theorem heap_push {heap : BinaryHeap α} (ordered : Heap le heap) (element : α) : Heap le (heap.push le element) := by
  refine siftUp_heap total trans _ _ (Nat.le_refl _) ⟨fun i other a b later at_ over_ => ?_,fun i a b child later _ at_ _ => ?_⟩
  · rw [Array.getElem?_push,if_neg (by exact other)] at at_
    obtain ⟨inside,_⟩ := Array.getElem?_eq_some_iff.mp at_
    rw [Array.getElem?_push,if_neg (by omega)] at over_
    exact ordered i a b later at_ over_
  · change (i - 1) / 2 = heap.data.size at child
    rw [@childless _ _ heap.data.size _ (by rw [Array.size_push]; omega) child later] at at_
    cases at_

theorem greatest {heap : BinaryHeap α} (ordered : Heap le heap) (peeked : heap.peek = some top) : ∀ a ∈ heap.toList, le a top = true := by
  have all : ∀ (i : Nat) a, heap.data[i]? = some a → le a top = true := by
    intro i
    induction i using Nat.strongRecOn with
    | _ i ih =>
        intro a at_
        by_cases first : i = 0
        · subst first
          obtain rfl := Option.some.inj (at_.symm.trans peeked)
          exact (total a a).elim id id
        · obtain ⟨inside,_⟩ := Array.getElem?_eq_some_iff.mp at_
          have parent : heap.data[(i - 1) / 2]? = some heap.data[(i - 1) / 2] := Array.getElem?_eq_getElem (by omega)
          exact trans _ _ _ (ordered i a _ (Nat.pos_of_ne_zero first) at_ parent) (ih _ (by omega) _ parent)
  intro a member
  obtain ⟨i,at_⟩ := List.mem_iff_getElem?.mp member
  exact all i a (by rw [←Array.getElem?_toList]; exact at_)

theorem heap_pop {heap rest : BinaryHeap α} (ordered : Heap le heap) (popped : heap.pop le = some (top,rest)) : Heap le rest := by
  obtain ⟨_,last,same⟩ := Option.map_eq_some_iff.mp popped
  cases same
  have some_ : 0 < heap.data.size := by
    by_contra none_
    rw [Array.size_eq_zero_iff.mp (Nat.le_zero.mp (Nat.le_of_not_lt none_))] at last
    cases last
  have moved := swapped (Array.getElem?_eq_getElem some_) (Array.getElem?_eq_getElem (show heap.data.size - 1 < heap.data.size by omega))
  have held : ∀ (i : Nat) a, 0 < i → (heap.data.swapIfInBounds 0 (heap.data.size - 1)).pop[i]? = some a → heap.data[i]? = some a := by
    intro i a later at_
    obtain ⟨inside,_⟩ := Array.getElem?_eq_some_iff.mp at_
    rw [Array.size_pop,Array.size_swapIfInBounds] at inside
    rwa [Array.getElem?_pop,if_pos (by rw [Array.size_swapIfInBounds]; exact inside),moved,if_neg (by omega),if_neg (by omega)] at at_
  refine siftDownToBottom_heap total trans ⟨fun i other deep a b later at_ over_ => ?_,fun _ _ _ _ _ outer => absurd outer (Nat.lt_irrefl 0)⟩
  exact ordered i a b later (held i a later at_) (held _ b (Nat.pos_of_ne_zero deep) over_)

end Order

theorem heap_new : Heap le (new : BinaryHeap α) := fun i a b _ at_ => by cases at_

theorem pop_peek {heap rest : BinaryHeap α} (popped : heap.pop le = some (top,rest)) : heap.peek = some top := by
  obtain ⟨_,last,same⟩ := Option.map_eq_some_iff.mp popped
  cases same
  have some_ : 0 < heap.data.size := by
    by_contra none_
    rw [Array.size_eq_zero_iff.mp (Nat.le_zero.mp (Nat.le_of_not_lt none_))] at last
    cases last
  rw [Array.back?_eq_getElem?,swapped (Array.getElem?_eq_getElem some_)
    (Array.getElem?_eq_getElem (show heap.data.size - 1 < heap.data.size by omega)),Array.size_swapIfInBounds,if_pos rfl] at last
  rw [←last,peek]
  exact Array.getElem?_eq_getElem some_

end Foundation.BinaryHeap
