import Mathlib.Data.List.Perm.Basic

namespace Foundation

-- The standard library's max-heap: a vector whose elements move as its own
-- sift_up and sift_down_to_bottom move them, for any comparison `le`. Elements
-- that compare equal therefore come out, and lie, where they do there.
structure BinaryHeap (α : Type) where
  data : Array α

namespace BinaryHeap
variable {α : Type} {le : α → α → Bool}

def new : BinaryHeap α := ⟨#[]⟩

def size (heap : BinaryHeap α) : Nat := heap.data.size
def peek (heap : BinaryHeap α) : Option α := heap.data[0]?
def toList (heap : BinaryHeap α) : List α := heap.data.toList

-- The parent of a position is nearer the root, so the position bounds the turns.
def siftUp (le : α → α → Bool) : Nat → Array α → Nat → Array α
  | 0,data,_ => data
  | turns+1,data,pos =>
    let parent := (pos - 1) / 2
    match data[pos]?,data[parent]? with
    | some element,some above =>
      if pos = 0 ∨ le element above then data else siftUp le turns (data.swapIfInBounds pos parent) parent
    | _,_ => data

-- To the bottom first, always to the greater child, whatever the sifted element.
def siftDown (le : α → α → Bool) : Nat → Array α → Nat → Array α × Nat
  | 0,data,pos => (data,pos)
  | turns+1,data,pos =>
    let child := 2 * pos + 1
    match data[child]?,data[child+1]? with
    | some left,some right =>
      let greater := if le left right then child + 1 else child
      siftDown le turns (data.swapIfInBounds pos greater) greater
    | some _,none => (data.swapIfInBounds pos child,child)
    | _,_ => (data,pos)

def siftDownToBottom (le : α → α → Bool) (data : Array α) : Array α :=
  let (sunk,pos) := siftDown le data.size data 0
  siftUp le pos sunk pos

def push (le : α → α → Bool) (heap : BinaryHeap α) (element : α) : BinaryHeap α :=
  ⟨siftUp le heap.size (heap.data.push element) heap.size⟩

def pop (le : α → α → Bool) (heap : BinaryHeap α) : Option (α × BinaryHeap α) :=
  let swapped := heap.data.swapIfInBounds 0 (heap.data.size - 1)
  swapped.back?.map fun top => (top,⟨siftDownToBottom le swapped.pop⟩)

theorem swap_perm (data : Array α) (i j : Nat) : (data.swapIfInBounds i j).toList.Perm data.toList := by
  rw [Array.swapIfInBounds_def]
  split
  · split
    · exact Array.perm_iff_toList_perm.mp (Array.swap_perm _ _)
    · exact .refl _
  · exact .refl _

theorem siftUp_perm (turns : Nat) (data : Array α) (pos : Nat) : (siftUp le turns data pos).toList.Perm data.toList := by
  induction turns generalizing data pos with
  | zero => exact .refl _
  | succ turns ih =>
      unfold siftUp
      dsimp only
      split
      · split
        · exact .refl _
        · exact (ih _ _).trans (swap_perm _ _ _)
      · exact .refl _

theorem siftDown_perm (turns : Nat) (data : Array α) (pos : Nat) : (siftDown le turns data pos).1.toList.Perm data.toList := by
  induction turns generalizing data pos with
  | zero => exact .refl _
  | succ turns ih =>
      unfold siftDown
      dsimp only
      split
      · exact (ih _ _).trans (swap_perm _ _ _)
      · exact swap_perm _ _ _
      · exact .refl _

theorem siftDownToBottom_perm (data : Array α) : (siftDownToBottom le data).toList.Perm data.toList :=
  (siftUp_perm _ _ _).trans (siftDown_perm _ _ _)

@[simp] theorem new_toList : (new : BinaryHeap α).toList = [] := rfl

@[simp] theorem toList_length (heap : BinaryHeap α) : heap.toList.length = heap.size := by simp [toList,size]

theorem push_perm (heap : BinaryHeap α) (element : α) : (heap.push le element).toList.Perm (element :: heap.toList) := by
  refine (siftUp_perm _ _ _).trans ?_
  rw [Array.toList_push]
  exact List.perm_append_singleton _ _

theorem pop_perm {heap rest : BinaryHeap α} (popped : heap.pop le = some (top,rest)) :
    heap.toList.Perm (top :: rest.toList) := by
  unfold pop at popped
  obtain ⟨_,last,same⟩ := Option.map_eq_some_iff.mp popped
  cases same
  have swapped := swap_perm heap.data 0 (heap.data.size - 1)
  refine swapped.symm.trans ?_
  rw [Array.back?_eq_getElem?,←Array.getElem?_toList] at last
  have split : (heap.data.swapIfInBounds 0 (heap.data.size - 1)).toList.dropLast ++ [top] =
      (heap.data.swapIfInBounds 0 (heap.data.size - 1)).toList := by
    apply List.dropLast_append_getLast?
    rw [List.getLast?_eq_getElem?]
    simpa using last
  rw [←split]
  refine (List.perm_append_singleton _ _).trans (.cons _ ?_)
  refine .trans ?_ (siftDownToBottom_perm _).symm
  rw [Array.toList_pop]

theorem pop_none {heap : BinaryHeap α} : heap.pop le = none ↔ heap.toList = [] := by
  have same := swap_perm heap.data 0 (heap.data.size - 1)
  unfold pop
  rw [Option.map_eq_none_iff,Array.back?_eq_none_iff,←Array.toList_eq_nil_iff]
  constructor
  · intro empty
    rw [empty] at same
    exact same.symm.eq_nil
  · intro empty
    rw [show heap.data.toList = [] from empty] at same
    exact same.eq_nil

theorem peek_some {heap : BinaryHeap α} (held : heap.toList ≠ []) : ∃ top ∈ heap.toList, heap.peek = some top := by
  have room : 0 < heap.data.size := by
    rw [←Array.length_toList]
    exact List.length_pos_of_ne_nil held
  exact ⟨heap.data[0],Array.getElem_mem_toList room,by simp [peek,room]⟩

end BinaryHeap
end Foundation
