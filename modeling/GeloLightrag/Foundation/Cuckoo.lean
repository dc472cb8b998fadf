import GeloLightrag.Foundation.Inventory
import Mathlib.Data.Multiset.MapFold

namespace Foundation.Cuckoo

-- Two-choice placement. A slot holds one item at most; what a chain of
-- displacements ends with is spilled to the rest.
structure Table (α ρ : Type) where
  slots : Nat → Option α
  rest : ρ

variable {α ρ : Type}

def Table.put (t : Table α ρ) (b : Nat) (a : α) : Table α ρ := {t with slots:=Function.update t.slots b (some a)}

@[simp] theorem Table.put_rest (t : Table α ρ) (b : Nat) (a : α) : (t.put b a).rest = t.rest := rfl
@[simp] theorem Table.put_slots (t : Table α ρ) (b : Nat) (a : α) : (t.put b a).slots = Function.update t.slots b (some a) := rfl

-- A displaced item goes to its other candidate. After `left` more displacements
-- the item then in hand is spilled.
def place (candidate : α → Bool → Nat) (spill : α → ρ → ρ) : Nat → α → Bool → Table α ρ → Table α ρ
  | 0,current,which,t =>
    let moved := t.put (candidate current which) current
    match t.slots (candidate current which) with
    | none => moved
    | some displaced => {moved with rest:=spill displaced moved.rest}
  | left+1,current,which,t =>
    let moved := t.put (candidate current which) current
    match t.slots (candidate current which) with
    | none => moved
    | some displaced => place candidate spill left displaced (decide (candidate current which = candidate displaced false)) moved

-- Each item that has a slot is in one of its two.
def Seated (candidate : α → Bool → Nat) (t : Table α ρ) : Prop :=
  ∀ b a, t.slots b = some a → ∃ which, b = candidate a which

theorem Seated.put {candidate : α → Bool → Nat} {t : Table α ρ} (seated : Seated candidate t) (a : α) (which : Bool) :
    Seated candidate (t.put (candidate a which) a) := by
  intro b x held
  by_cases here : b = candidate a which
  · subst here
    rw [Table.put_slots,Function.update_self] at held
    cases held
    exact ⟨which,rfl⟩
  · rw [Table.put_slots,Function.update_of_ne here] at held
    exact seated b x held

theorem place_seated {candidate : α → Bool → Nat} {spill : α → ρ → ρ} (left : Nat) (current : α) (which : Bool) {t : Table α ρ}
    (seated : Seated candidate t) : Seated candidate (place candidate spill left current which t) := by
  induction left generalizing current which t with
  | zero =>
    unfold place
    cases t.slots (candidate current which) with
    | none => exact seated.put current which
    | some displaced => exact seated.put current which
  | succ left ih =>
    unfold place
    cases t.slots (candidate current which) with
    | none => exact seated.put current which
    | some displaced => exact ih displaced _ (seated.put current which)

-- All items, in the slots below n and in what `held` makes of the rest.
def items (held : ρ → Multiset α) (n : Nat) (t : Table α ρ) : Multiset α :=
  Inventory.total (held t.rest) (fun b => ((t.slots b).toList : Multiset α)) (Finset.range n)

variable (held : ρ → Multiset α) {n : Nat}

theorem mem_items {held : ρ → Multiset α} {t : Table α ρ} : a ∈ items held n t ↔ a ∈ held t.rest ∨ ∃ b < n, t.slots b = some a := by
  simp [items,Inventory.mem_total]

-- Taking what a slot held in hand for what is put there keeps the items.
theorem items_put (t : Table α ρ) (a : α) (inside : b < n) :
    items held n (t.put b a) + ((t.slots b).toList : Multiset α) = a ::ₘ items held n t := by
  have fresh : (fun i => (((t.put b a).slots i).toList : Multiset α)) =
      Inventory.refill (fun i => ((t.slots i).toList : Multiset α)) (fun _ => {a}) {b} := by
    funext i
    unfold Inventory.refill
    by_cases here : i = b
    · subst here; simp
    · simp [here]
  have sums := Inventory.refill_sum (Finset.singleton_subset_iff.mpr (Finset.mem_range.mpr inside))
    (fun i => ((t.slots i).toList : Multiset α)) fun _ => {a}
  unfold items Inventory.total
  rw [Table.put_rest,fresh]
  rw [Finset.sum_singleton,Finset.sum_singleton] at sums
  rw [add_assoc,sums,←add_assoc,add_comm,Multiset.singleton_add]

theorem items_free {t : Table α ρ} (free : t.slots b = none) (a : α) (inside : b < n) :
    items held n (t.put b a) = a ::ₘ items held n t := by
  have moved := items_put held t a inside
  rw [free] at moved
  simpa using moved

theorem items_displaced {t : Table α ρ} (taken : t.slots b = some displaced) (a : α) (inside : b < n) :
    displaced ::ₘ items held n (t.put b a) = a ::ₘ items held n t := by
  have moved := items_put held t a inside
  rwa [taken,Option.toList_some,Multiset.coe_singleton,add_comm,Multiset.singleton_add] at moved

-- No item is lost or made, whatever the chain. `lawful` says which items the rest
-- can tell apart: a rest kept by key holds one item a key.
theorem place_items {held : ρ → Multiset α} {candidate : α → Bool → Nat} {spill : α → ρ → ρ} {lawful : Multiset α → Prop}
    (fewer : ∀ s t, s ≤ t → lawful t → lawful s)
    (spilled : ∀ a r, lawful (a ::ₘ held r) → held (spill a r) = a ::ₘ held r)
    (inside : ∀ a which, candidate a which < n) (left : Nat) (current : α) (which : Bool) {t : Table α ρ}
    (allowed : lawful (current ::ₘ items held n t)) :
    items held n (place candidate spill left current which t) = current ::ₘ items held n t := by
  induction left generalizing current which t with
  | zero =>
    unfold place
    cases found : t.slots (candidate current which) with
    | none => exact items_free held found current (inside current which)
    | some displaced =>
      have same := items_displaced held found current (inside current which)
      have part : displaced ::ₘ held t.rest ≤ displaced ::ₘ items held n (t.put (candidate current which) current) :=
        Multiset.cons_le_cons displaced (Multiset.le_add_right _ _)
      have kept := spilled displaced t.rest (fewer _ _ (part.trans (le_of_eq same)) allowed)
      rw [←same]
      unfold items Inventory.total
      simp only [Table.put_rest,kept]
      exact Multiset.cons_add displaced _ _
  | succ left ih =>
    unfold place
    cases found : t.slots (candidate current which) with
    | none => exact items_free held found current (inside current which)
    | some displaced =>
      have same := items_displaced held found current (inside current which)
      rw [←same]
      exact ih displaced _ (by rw [same]; exact allowed)

end Foundation.Cuckoo
