import Mathlib.Data.List.Dedup
import Mathlib.Order.Lattice

namespace Foundation

-- A map listed in the order of its keys.
abbrev OrderedTable (K V : Type) := List (K × V)

namespace OrderedTable
variable {K V α : Type} [LinearOrder K]

-- The entry of a key is changed, or put in its place among the others.
def upsert (key : K) (change : Option V → V) : OrderedTable K V → OrderedTable K V
  | [] => [(key,change none)]
  | entry :: rest =>
    if key < entry.1 then (key,change none) :: entry :: rest
    else if key = entry.1 then (key,change (some entry.2)) :: rest
    else entry :: upsert key change rest

def Ordered (table : OrderedTable K V) : Prop := table.Pairwise fun a b => a.1 < b.1

-- A table that has for each key the value that is expected of it.
def Lists (table : OrderedTable K V) (expected : K → Option V) : Prop := Ordered table ∧ ∀ key value, (key,value) ∈ table ↔ expected key = some value

variable {table : OrderedTable K V} {key : K} {change : Option V → V} {expected : K → Option V}

theorem mem_upsert {entry : K × V} (member : entry ∈ upsert key change table) : entry.1 = key ∨ entry ∈ table := by
  induction table with
  | nil => exact .inl (by rw [List.mem_singleton.mp member])
  | cons first rest ih =>
      unfold upsert at member
      split at member
      · rcases List.mem_cons.mp member with rfl | old
        · exact .inl rfl
        · exact .inr old
      · split at member
        · rcases List.mem_cons.mp member with rfl | old
          · exact .inl rfl
          · exact .inr (List.mem_cons_of_mem _ old)
        · rcases List.mem_cons.mp member with rfl | old
          · exact .inr List.mem_cons_self
          · exact (ih old).imp_right (List.mem_cons_of_mem _)

theorem Ordered.upsert (ordered : Ordered table) : Ordered (upsert key change table) := by
  induction table with
  | nil => exact List.pairwise_singleton _ _
  | cons first rest ih =>
      obtain ⟨below,later⟩ := List.pairwise_cons.mp ordered
      unfold OrderedTable.upsert
      split
      · rename_i less
        refine List.pairwise_cons.mpr ⟨fun entry member => ?_,ordered⟩
        rcases List.mem_cons.mp member with rfl | member
        · exact less
        · exact less.trans (below entry member)
      · rename_i past
        split
        · rename_i same
          exact List.pairwise_cons.mpr ⟨fun entry member => same ▸ below entry member,later⟩
        · rename_i apart
          refine List.pairwise_cons.mpr ⟨fun entry member => ?_,ih later⟩
          rcases mem_upsert member with is | old
          · rw [is]
            exact lt_of_le_of_ne (le_of_not_gt past) (Ne.symm apart)
          · exact below entry old

theorem lookup_cons (first : K × V) (rest : OrderedTable K V) (key : K) :
    List.lookup key (first :: rest) = if key = first.1 then some first.2 else rest.lookup key := by
  rw [List.lookup_cons]
  by_cases same : key = first.1
  · rw [if_pos same,same,beq_self_eq_true]
  · rw [if_neg same,beq_eq_false_iff_ne.mpr same]

theorem lookup_none (later : ∀ entry ∈ table, key < entry.1) : table.lookup key = none :=
  List.lookup_eq_none_iff.mpr fun entry member => bne_iff_ne.mpr (ne_of_lt (later entry member))

-- Where every key is there once, what is listed is what is found.
theorem Ordered.mem_iff_lookup (ordered : Ordered table) {value : V} : (key,value) ∈ table ↔ table.lookup key = some value := by
  induction table with
  | nil => exact iff_of_false List.not_mem_nil nofun
  | cons first rest ih =>
      obtain ⟨below,later⟩ := List.pairwise_cons.mp ordered
      rw [List.mem_cons,lookup_cons]
      by_cases same : key = first.1
      · subst same
        have fresh : (first.1,value) ∉ rest := fun member => absurd (below _ member) (lt_irrefl first.1)
        rw [if_pos rfl,or_iff_left fresh,Option.some.injEq,Prod.ext_iff]
        exact (and_iff_right rfl).trans eq_comm
      · rw [if_neg same,←ih later]
        exact or_iff_right fun is => same (congrArg Prod.fst is)

theorem Ordered.lookup_upsert (ordered : Ordered table) (asked : K) :
    (OrderedTable.upsert key change table).lookup asked = if asked = key then some (change (table.lookup key)) else table.lookup asked := by
  induction table with
  | nil => exact lookup_cons _ _ _
  | cons first rest ih =>
      obtain ⟨below,later⟩ := List.pairwise_cons.mp ordered
      unfold OrderedTable.upsert
      split
      · rename_i less
        have fresh : List.lookup key (first :: rest) = none := lookup_none fun entry member => by
          rcases List.mem_cons.mp member with rfl | member
          · exact less
          · exact less.trans (below entry member)
        rw [fresh]
        exact lookup_cons _ _ _
      · split
        · rename_i same
          subst same
          rw [lookup_cons,lookup_cons,lookup_cons,if_pos rfl]
          split <;> rfl
        · rename_i apart
          rw [lookup_cons,lookup_cons,lookup_cons,ih later,if_neg apart]
          by_cases same : asked = first.1
          · rw [if_pos same,if_pos same,if_neg fun is => apart (is.symm.trans same)]
          · rw [if_neg same,if_neg same]

theorem Lists.lookup (lists : Lists table expected) (key : K) : table.lookup key = expected key :=
  Option.ext fun value => lists.1.mem_iff_lookup.symm.trans (lists.2 key value)

-- The value of the key is changed from what was there, and no other.
theorem Lists.upsert [DecidableEq K] (lists : Lists table expected) : Lists (upsert key change table) (Function.update expected key (some (change (expected key)))) := by
  refine ⟨lists.1.upsert,fun asked value => ?_⟩
  rw [lists.1.upsert.mem_iff_lookup,lists.1.lookup_upsert,lists.lookup,lists.lookup]
  by_cases same : asked = key
  · subst same
    rw [if_pos rfl,Function.update_self]
  · rw [if_neg same,Function.update_of_ne same]

-- What a run of changes leaves at a key: the changes of its own items, in order.
def changed (change : α → Option V → V) (start : Option V) (items : List α) : Option V := items.foldl (fun value item => some (change item value)) start

theorem Lists.foldl [DecidableEq K] {name : α → K} {change : α → Option V → V} (lists : Lists table expected) (items : List α) :
    Lists (items.foldl (fun table item => OrderedTable.upsert (name item) (change item) table) table)
      fun key => changed change (expected key) (items.filter fun item => decide (name item = key)) := by
  induction items generalizing table expected with
  | nil => exact lists
  | cons item rest ih =>
      have one : Lists (OrderedTable.upsert (name item) (change item) table) _ := lists.upsert
      have grown := ih one
      refine ⟨grown.1,fun key value => (grown.2 key value).trans ?_⟩
      dsimp only
      by_cases same : name item = key
      · subst same
        rw [Function.update_self,List.filter_cons_of_pos (by simp)]
        rfl
      · rw [Function.update_of_ne (Ne.symm same),List.filter_cons_of_neg (by simpa using same)]

theorem lists_nil : Lists ([] : OrderedTable K V) fun _ => none := ⟨List.Pairwise.nil,fun _ _ => iff_of_false List.not_mem_nil nofun⟩

end OrderedTable
end Foundation
