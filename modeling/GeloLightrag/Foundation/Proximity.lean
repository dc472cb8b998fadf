import Mathlib.Data.List.Nodup
import Mathlib.Logic.Relation

namespace Foundation

-- Directed graphs given by neighbour lists, which grow a node at a time: the new
-- node is linked to some old ones, they back to it, and a list that gets too
-- long is pruned.
namespace Proximity
variable {α : Type}

-- What a pruning rule may make of a list it is offered.
structure Kept (most : Nat) (offered kept : List α) : Prop where
  among : kept ⊆ offered
  distinct : offered.Nodup → kept.Nodup
  bounded : kept.length ≤ most
  some_left : 0 < most → offered ≠ [] → kept ≠ []

structure WellLinked (most : Nat) (present : α → Prop) (links : α → List α) : Prop where
  bounded : ∀ a, (links a).length ≤ most
  distinct : ∀ a, (links a).Nodup
  apart : ∀ a, a ∉ links a
  target : ∀ a, ∀ b ∈ links a, present b
  source : ∀ a, ¬ present a → links a = []

structure Linked (most : Nat) (links : α → List α) (x : α) (chosen : List α) (next : α → List α) : Prop where
  own : next x = chosen
  back : ∀ s ∈ chosen, Kept most (links s ++ [x]) (next s)
  frame : ∀ a, a ≠ x → a ∉ chosen → next a = links a

def Reach (links : α → List α) : α → α → Prop := Relation.ReflTransGen fun a b => b ∈ links a

theorem Reach.stays {links : α → List α} {inside : List α} (path : Reach links a b) (closed : ∀ c ∈ inside, ∀ d ∈ links c, d ∈ inside)
    (start : a ∈ inside) : b ∈ inside := by
  induction path with
  | refl => exact start
  | tail _ edge ih => exact closed _ ih _ edge

variable {most : Nat} {present : α → Prop} {links next : α → List α} {x : α} {chosen : List α}

theorem Kept.whole {offered : List α} (short : offered.length ≤ most) : Kept most offered offered :=
  ⟨List.Subset.refl _,id,short,fun _ => id⟩

theorem Kept.of_perm {offered offered' kept : List α} (order : offered.Perm offered') (made : Kept most offered kept) :
    Kept most offered' kept :=
  ⟨fun _ member => order.mem_iff.mp (made.among member),fun distinct => made.distinct (order.nodup_iff.mpr distinct),made.bounded,
    fun room some_ => made.some_left room fun empty => some_ (empty ▸ order).nil_eq.symm⟩

theorem WellLinked.congr {present' : α → Prop} {links' : α → List α} (same : ∀ a, present a ↔ present' a) (equal : links = links')
    (well : WellLinked most present links) : WellLinked most present' links' := by
  obtain rfl : present = present' := funext fun a => propext (same a)
  exact equal ▸ well

theorem WellLinked.reach (well : WellLinked most present links) (start : present a) (path : Reach links a b) : present b := by
  induction path with
  | refl => exact start
  | tail _ edge _ => exact well.target _ _ edge

theorem WellLinked.empty (most : Nat) : WellLinked most (fun _ : α => False) fun _ => [] :=
  ⟨fun _ => Nat.zero_le _,fun _ => List.nodup_nil,fun _ => List.not_mem_nil,fun _ _ member => absurd member List.not_mem_nil,
    fun _ _ => rfl⟩

theorem WellLinked.linked (well : WellLinked most present links) (absent : ¬ present x) (distinct : chosen.Nodup)
    (short : chosen.length ≤ most) (old : ∀ s ∈ chosen, present s) (linked : Linked most links x chosen next) :
    WellLinked most (fun a => a = x ∨ present a) next := by
  have new : x ∉ chosen := fun member => absent (old x member)
  have cases_ : ∀ a, (a = x ∧ next a = chosen) ∨ (a ≠ x ∧ a ∈ chosen ∧ Kept most (links a ++ [x]) (next a)) ∨
      (a ≠ x ∧ a ∉ chosen ∧ next a = links a) := by
    intro a
    by_cases same : a = x
    · exact .inl ⟨same,by rw [same]; exact linked.own⟩
    · by_cases among : a ∈ chosen
      · exact .inr (.inl ⟨same,among,linked.back a among⟩)
      · exact .inr (.inr ⟨same,among,linked.frame a same among⟩)
  have unlinked : ∀ a, x ∉ links a := fun a member => absent (well.target a x member)
  constructor
  · intro a
    rcases cases_ a with ⟨_,is⟩ | ⟨_,_,kept⟩ | ⟨_,_,is⟩
    · rw [is]; exact short
    · exact kept.bounded
    · rw [is]; exact well.bounded a
  · intro a
    rcases cases_ a with ⟨_,is⟩ | ⟨_,_,kept⟩ | ⟨_,_,is⟩
    · rw [is]; exact distinct
    · refine kept.distinct (List.nodup_append'.mpr ⟨well.distinct a,List.nodup_singleton x,?_⟩)
      simpa using unlinked a
    · rw [is]; exact well.distinct a
  · intro a
    rcases cases_ a with ⟨rfl,is⟩ | ⟨other,_,kept⟩ | ⟨_,_,is⟩
    · rw [is]; exact new
    · intro itself
      rcases List.mem_append.mp (kept.among itself) with linked_ | last
      · exact well.apart a linked_
      · exact other (List.mem_singleton.mp last)
    · rw [is]; exact well.apart a
  · intro a b member
    rcases cases_ a with ⟨_,is⟩ | ⟨_,_,kept⟩ | ⟨_,_,is⟩
    · exact .inr (old b (is ▸ member))
    · rcases List.mem_append.mp (kept.among member) with before | last
      · exact .inr (well.target a b before)
      · exact .inl (List.mem_singleton.mp last)
    · exact .inr (well.target a b (is ▸ member))
  · intro a outside
    rcases cases_ a with ⟨same,_⟩ | ⟨_,among,_⟩ | ⟨_,_,is⟩
    · exact absurd (.inl same) outside
    · exact absurd (.inr (old a among)) outside
    · rw [is]; exact well.source a fun inside => outside (.inr inside)

-- Lists stay non-empty, and the only node of a graph gets its first neighbour.
theorem Linked.nonempty (present : α → Prop) (linked : Linked most links x chosen next) (room : 0 < most) (some_ : chosen ≠ [])
    (filled : ∀ a, present a → links a ≠ [] ∨ a ∈ chosen) : ∀ a, a = x ∨ present a → next a ≠ [] := by
  intro a inside
  by_cases same : a = x
  · rw [same,linked.own]; exact some_
  · by_cases among : a ∈ chosen
    · exact (linked.back a among).some_left room (by simp)
    · rw [linked.frame a same among]
      rcases inside with is | before
      · exact absurd is same
      · exact (filled a before).resolve_right among

-- Every node present can be reached from every landing node that is.
def Covered (landing present : α → Prop) (links : α → List α) : Prop :=
  ∀ e, landing e → present e → ∀ a, present a → Reach links e a

-- No landing node loses a node that one of the changed lists dropped.
def Uncut (landing present : α → Prop) (links : α → List α) (x : α) (chosen : List α) (next : α → List α) : Prop :=
  ∀ s ∈ chosen, ∀ y ∈ links s ++ [x], y ∉ next s → ∀ e, landing e → present e → Reach next e y

variable {landing : α → Prop}

-- An old path from a landing node still leads where it did: an edge of it is there
-- yet or its end was dropped, and what was dropped is in reach.
theorem Linked.reach (linked : Linked most links x chosen next) (hollow : links x = [])
    (uncut : Uncut landing present links x chosen next) (lands : landing e) (here : present e) (path : Reach links e a) :
    Reach next e a := by
  induction path with
  | refl => exact .refl
  | @tail b c walked edge ih =>
      by_cases still : c ∈ next b
      · exact ih.tail still
      · by_cases among : b ∈ chosen
        · exact uncut b among c (List.mem_append_left _ edge) still e lands here
        · have other : b ≠ x := by
            rintro rfl
            rw [hollow] at edge
            exact List.not_mem_nil edge
          rw [linked.frame b other among] at still
          exact absurd edge still

theorem Covered.linked (covered : Covered landing present links) (linked : Linked most links x chosen next)
    (hollow : links x = []) (some_ : chosen ≠ []) (old : ∀ s ∈ chosen, present s)
    (settles : landing x → ∃ s ∈ chosen, landing s) (uncut : Uncut landing present links x chosen next) :
    Covered landing (fun a => a = x ∨ present a) next := by
  obtain ⟨s,among⟩ := List.exists_mem_of_ne_nil chosen some_
  have everywhere : ∀ e, landing e → present e → ∀ a, a = x ∨ present a → Reach next e a := by
    intro e lands here a inside
    rcases inside with rfl | before
    · by_cases back : a ∈ next s
      · exact (linked.reach hollow uncut lands here (covered e lands here s (old s among))).tail back
      · exact uncut s among a (by simp) back e lands here
    · exact linked.reach hollow uncut lands here (covered e lands here a before)
  intro e lands inside a target
  rcases inside with rfl | before
  · obtain ⟨via,among',lands'⟩ := settles lands
    have step : via ∈ next e := by rw [linked.own]; exact among'
    exact .head step (everywhere via lands' (old via among') a target)
  · exact everywhere e lands before a target

theorem Covered.uncut (covered : Covered landing (fun a => a = x ∨ present a) next) (well : WellLinked most present links) :
    Uncut landing present links x chosen next := by
  intro s _ y offered _ e lands here
  refine covered e lands (.inr here) y ?_
  rcases List.mem_append.mp offered with before | last
  · exact .inr (well.target s y before)
  · exact .inl (List.mem_singleton.mp last)

end Proximity
end Foundation
