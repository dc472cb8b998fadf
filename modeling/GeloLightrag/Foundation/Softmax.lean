import Mathlib.Algebra.Order.BigOperators.Group.Finset
import Mathlib.Algebra.Order.Field.Basic
import Mathlib.Tactic.Linarith
import Mathlib.Tactic.Ring

namespace Foundation
variable {ι F : Type} [Field F] [LinearOrder F] [IsStrictOrderedRing F]

structure ExpLaws (e : F → F) : Prop where
  positive : ∀ x, 0 < e x
  add : ∀ x y, e (x + y) = e x * e y
  injective : Function.Injective e

-- What an entry has of the whole.
def share (e : F → F) (s : Finset ι) (x : ι → F) (j : ι) : F := e (x j) * (1 / ∑ l ∈ s, e (x l))

variable {e : F → F} {s : Finset ι} {x y : ι → F}

theorem total_pos (laws : ExpLaws e) (member : j ∈ s) : 0 < 1 / ∑ l ∈ s, e (x l) :=
  one_div_pos.mpr (Finset.sum_pos (fun l _ => laws.positive (x l)) ⟨j,member⟩)

-- Shares tell how far the entries lie from each other.
theorem shares_tell (laws : ExpLaws e) (same : ∀ j ∈ s, share e s x j = share e s y j) (left : j ∈ s) (right : l ∈ s) :
    x j - x l = y j - y l := by
  have one := same j left
  have other := same l right
  unfold share at one other
  have xs := total_pos (x:=x) laws left
  have ys := total_pos (x:=y) laws left
  generalize 1 / ∑ l ∈ s, e (x l) = cx at one other xs
  generalize 1 / ∑ l ∈ s, e (y l) = cy at one other ys
  have crossed : e (x j) * e (y l) * (cx * cy) = e (y j) * e (x l) * (cx * cy) := by
    calc e (x j) * e (y l) * (cx * cy) = e (x j) * cx * (e (y l) * cy) := by ring
      _ = e (y j) * cy * (e (x l) * cx) := by rw [one,other]
      _ = e (y j) * e (x l) * (cx * cy) := by ring
  have cancelled := mul_right_cancel₀ (mul_pos xs ys).ne' crossed
  rw [←laws.add,←laws.add] at cancelled
  have sums := laws.injective cancelled
  linarith

def fined (c : F) (b : Bool) : F := if b then c else 0

-- Two ways to fine entries that leave the same distances fine the same entries, if each
-- spares one.
theorem fines_tell {c : F} (real : c ≠ 0) {b b' : ι → Bool}
    (same : ∀ j ∈ s, ∀ l ∈ s, fined c (b j) - fined c (b l) = fined c (b' j) - fined c (b' l))
    (spares : ∃ l ∈ s, b l = false) (spares' : ∃ l ∈ s, b' l = false) (member : j ∈ s) : b j = b' j := by
  obtain ⟨l,inside,spared⟩ := spares
  obtain ⟨l',inside',spared'⟩ := spares'
  have first := same j member l inside
  have second := same j member l' inside'
  rw [spared] at first
  rw [spared'] at second
  cases fine : b j with
  | true =>
    cases fine' : b' j with
    | true => rfl
    | false =>
      rw [fine,fine'] at first
      cases other : b' l with
      | true => rw [other] at first; exact absurd (by simp [fined] at first; linarith) real
      | false => rw [other] at first; exact absurd (by simpa [fined] using first) real
  | false =>
    cases fine' : b' j with
    | false => rfl
    | true =>
      rw [fine,fine'] at second
      cases other : b l' with
      | true => rw [other] at second; exact absurd (by simp [fined] at second; linarith) real
      | false => rw [other] at second; exact absurd (by simpa [fined] using second.symm) real

section Attended
variable {F : Type} [Field F] [LinearOrder F] [DecidableEq ι]

-- The largest of the entries, where there are any.
def peak (s : Finset ι) (x : ι → F) : F := if some : s.Nonempty then s.sup' some x else 0

-- The values weighed with the softmax of the scores, the largest score taken off first.
def attended (e : F → F) (s : Finset ι) (x v : ι → F) : F := ∑ j ∈ s, share e s (fun l => x l - peak s x) j * v j

variable {e : F → F} {s : Finset ι} {x y v w : ι → F}

omit [Field F] [DecidableEq ι] in
theorem sup_greatest (some : s.Nonempty) (x : ι → F) : IsGreatest (x '' s) (s.sup' some x) := by
  obtain ⟨j,member,is⟩ := s.exists_mem_eq_sup' some x
  refine ⟨⟨j,member,is.symm⟩,?_⟩
  rintro _ ⟨l,member,rfl⟩
  exact s.le_sup' x member

omit [DecidableEq ι] in
theorem peak_of {top : F} (greatest : IsGreatest (x '' s) top) : peak s x = top := by
  obtain ⟨_,member,_⟩ := greatest.1
  unfold peak
  rw [dif_pos ⟨_,member⟩]
  exact (sup_greatest _ x).unique greatest

omit [DecidableEq ι] in
theorem peak_congr (same : ∀ j ∈ s, x j = y j) : peak s x = peak s y := by
  unfold peak
  split
  · exact Finset.sup'_congr _ rfl same
  · rfl

omit [DecidableEq ι] in
theorem attended_congr (scores : ∀ j ∈ s, x j = y j) (values : ∀ j ∈ s, v j = w j) : attended e s x v = attended e s y w := by
  unfold attended share
  rw [peak_congr scores]
  have total : ∑ l ∈ s, e (x l - peak s y) = ∑ l ∈ s, e (y l - peak s y) :=
    Finset.sum_congr rfl fun l inside => by rw [scores l inside]
  refine Finset.sum_congr rfl fun j member => ?_
  dsimp only
  rw [total,scores j member,values j member]

theorem peak_image {κ : Type} (f : κ → ι) (s : Finset κ) (x : ι → F) : peak (s.image f) x = peak s (x ∘ f) := by
  rcases s.eq_empty_or_nonempty with rfl | some
  · rfl
  · refine peak_of ?_
    rw [Finset.coe_image,←Set.image_comp]
    unfold peak
    rw [dif_pos some]
    exact sup_greatest some _

-- The order of the places does not matter.
theorem attended_image {κ : Type} {f : κ → ι} {s : Finset κ} (injective : Set.InjOn f s) (x v : ι → F) :
    attended e (s.image f) x v = attended e s (x ∘ f) (v ∘ f) := by
  unfold attended share
  rw [peak_image,Finset.sum_image injective,Finset.sum_image injective]
  rfl

end Attended
end Foundation
