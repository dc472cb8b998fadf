import Mathlib.Data.List.Nodup
import Mathlib.Data.List.Sort

namespace Foundation

-- A comparison that some pairs need not have, as floats have none for a NaN.
class PartialCmp (D : Type) where
  partialCmp : D → D → Option Ordering

export PartialCmp (partialCmp)

def lt {D : Type} [PartialCmp D] (a b : D) : Bool := partialCmp a b == some .lt
def gt {D : Type} [PartialCmp D] (a b : D) : Bool := partialCmp a b == some .gt

-- `a.partial_cmp(&b).unwrap_or(Equal)`
def cmpOrEqual {D : Type} [PartialCmp D] (a b : D) : Ordering := (partialCmp a b).getD .eq

-- A stable sort, as `sort_by` is.
def sortBy {α : Type} (cmp : α → α → Ordering) (items : List α) : List α :=
  items.insertionSort fun a b => cmp a b ≠ .gt

theorem sortBy_perm {α : Type} (cmp : α → α → Ordering) (items : List α) : (sortBy cmp items).Perm items :=
  List.perm_insertionSort _ _

theorem sortBy_pairwise {α : Type} {cmp : α → α → Ordering} {before : α → α → Prop} (means : ∀ a b, cmp a b ≠ .gt ↔ before a b)
    (total : ∀ a b, before a b ∨ before b a) (chain : ∀ a b c, before a b → before b c → before a c) (items : List α) :
    (sortBy cmp items).Pairwise before := by
  haveI : Std.Total fun a b => cmp a b ≠ .gt := ⟨fun a b => (total a b).imp (means a b).mpr (means b a).mpr⟩
  haveI : IsTrans α fun a b => cmp a b ≠ .gt :=
    ⟨fun a b c first second => (means a c).mpr (chain a b c ((means a b).mp first) ((means b c).mp second))⟩
  exact (List.pairwise_insertionSort _ items).imp (means _ _).mp

-- What compares equal stays in the order it was listed in.
def Stably {α : Type} (before early : α → α → Prop) (a b : α) : Prop := before a b ∧ (before b a → early a b)

theorem insert_stable {α : Type} {cmp : α → α → Ordering} {before early : α → α → Prop} (means : ∀ a b, cmp a b ≠ .gt ↔ before a b)
    (total : ∀ a b, before a b ∨ before b a) (chain : ∀ a b c, before a b → before b c → before a c) {a : α} {sorted : List α}
    (ordered : sorted.Pairwise (Stably before early)) (first : ∀ x ∈ sorted, early a x) :
    (List.orderedInsert (fun a b => cmp a b ≠ .gt) a sorted).Pairwise (Stably before early) := by
  induction sorted with
  | nil => exact List.pairwise_singleton _ _
  | cons b rest ih =>
      obtain ⟨here,later⟩ := List.pairwise_cons.mp ordered
      rw [List.orderedInsert_cons]
      by_cases stops : cmp a b ≠ .gt
      · have ahead := (means a b).mp stops
        rw [if_pos stops]
        refine List.pairwise_cons.mpr ⟨fun x member => ⟨?_,fun _ => first x member⟩,ordered⟩
        rcases List.mem_cons.mp member with rfl | inside
        · exact ahead
        · exact chain a b x ahead (here x inside).1
      · rw [if_neg stops]
        refine List.pairwise_cons.mpr ⟨fun x member => ?_,ih later fun x member => first x (List.mem_cons_of_mem _ member)⟩
        rcases (List.mem_orderedInsert _).mp member with rfl | inside
        · have behind : ¬ before x b := fun ahead => stops ((means x b).mpr ahead)
          exact ⟨(total x b).resolve_left behind,fun ahead => absurd ahead behind⟩
        · exact here x inside

theorem sortBy_stable {α : Type} {cmp : α → α → Ordering} {before early : α → α → Prop} (means : ∀ a b, cmp a b ≠ .gt ↔ before a b)
    (total : ∀ a b, before a b ∨ before b a) (chain : ∀ a b c, before a b → before b c → before a c) {items : List α}
    (listed : items.Pairwise early) : (sortBy cmp items).Pairwise (Stably before early) := by
  induction items with
  | nil => exact List.Pairwise.nil
  | cons a rest ih =>
      obtain ⟨first,later⟩ := List.pairwise_cons.mp listed
      exact insert_stable means total chain (ih later) fun x member => first x ((sortBy_perm cmp rest).mem_iff.mp member)

-- `sort_by_key`
def sortByKey {α : Type} (key : α → Nat) (items : List α) : List α := sortBy (fun a b => compare (key a) (key b)) items

theorem sortByKey_pairwise {α : Type} (key : α → Nat) (items : List α) : (sortByKey key items).Pairwise fun a b => key a ≤ key b :=
  sortBy_pairwise (fun _ _ => compare_le_iff_le) (fun a b => Nat.le_total (key a) (key b)) (fun _ _ _ => Nat.le_trans) items

-- Items of different keys have one order to be sorted into.
theorem sortByKey_unique {α : Type} {key : α → Nat} {items sorted : List α} (same : items.Perm sorted) (distinct : (items.map key).Nodup)
    (ordered : sorted.Pairwise fun a b => key a ≤ key b) : sortByKey key items = sorted := by
  refine List.Perm.eq_of_pairwise (fun a b inA inB up down => ?_) (sortByKey_pairwise key items) ordered
    ((sortBy_perm _ items).trans same)
  exact List.inj_on_of_nodup_map distinct ((sortBy_perm _ items).mem_iff.mp inA) (same.mem_iff.mpr inB) (Nat.le_antisymm up down)

theorem sortByKey_perm {α : Type} {key : α → Nat} {items items' : List α} (same : items.Perm items') (distinct : (items.map key).Nodup) :
    sortByKey key items = sortByKey key items' :=
  sortByKey_unique (same.trans (sortBy_perm _ items').symm) distinct (sortByKey_pairwise key items')

instance (priority := low) PartialCmp.ofLinearOrder (D : Type) [LinearOrder D] : PartialCmp D := ⟨fun a b => some (compare a b)⟩

-- A selection that leaves nothing out keeps every place.
theorem held_all {α β : Type} {f : α → Option β} {xs : List α} (all : ∀ x ∈ xs, f x ≠ none) : xs.map f = (xs.filterMap f).map some := by
  induction xs with
  | nil => rfl
  | cons x rest ih =>
      obtain ⟨b,held⟩ := Option.ne_none_iff_exists'.mp (all x List.mem_cons_self)
      rw [List.map_cons,List.filterMap_cons_some held,List.map_cons,held,ih fun y member => all y (List.mem_cons_of_mem _ member)]

theorem held_getElem? {α β : Type} {f : α → Option β} {xs : List α} (all : ∀ x ∈ xs, f x ≠ none) (n : Nat) :
    (xs.filterMap f)[n]? = xs[n]?.bind f := by
  have places := congrArg (·[n]?) (held_all all)
  simp only [List.getElem?_map] at places
  cases listed : xs[n]? with
  | none =>
      rw [listed,Option.map_none,eq_comm,Option.map_eq_none_iff] at places
      exact places
  | some x =>
      rw [listed,Option.map_some,eq_comm,Option.map_eq_some_iff] at places
      obtain ⟨b,found,is⟩ := places
      exact found.trans is

theorem held_forall₂ {α β : Type} {f : α → Option β} {xs : List α} (all : ∀ x ∈ xs, f x ≠ none) :
    List.Forall₂ (fun x b => f x = some b) xs (xs.filterMap f) := by
  induction xs with
  | nil => exact .nil
  | cons x rest ih =>
      obtain ⟨b,held⟩ := Option.ne_none_iff_exists'.mp (all x List.mem_cons_self)
      rw [List.filterMap_cons_some held]
      exact .cons held (ih fun y member => all y (List.mem_cons_of_mem _ member))

-- What `<` always is, on floats with a NaN too.
class StrictCmp (D : Type) [PartialCmp D] : Prop where
  irrefl : ∀ a : D, lt a a = false
  trans : ∀ a b c : D, lt a b = true → lt b c = true → lt a c = true

theorem lt_iff {D : Type} [LinearOrder D] {a b : D} : lt a b = true ↔ a < b := by
  simp [lt,partialCmp,compare_lt_iff_lt]

instance (D : Type) [LinearOrder D] : StrictCmp D where
  irrefl a := by simp [lt,partialCmp]
  trans a b c := by
    rw [lt_iff,lt_iff,lt_iff]
    exact lt_trans

end Foundation
