import Mathlib.Data.List.Induction
import Mathlib.Data.List.Nodup

namespace Foundation

-- A hash map is its entries, one for each key. The order of the list is no order of
-- the map: what lists its entries may list them in any.
abbrev HashTable (K V : Type) := List (K × V)

structure Listing where
  order : {α : Type} → List α → List α
  listed : ∀ {α : Type} (entries : List α), (order entries).Perm entries

def Listing.asStored : Listing := ⟨fun entries => entries,fun entries => List.Perm.refl entries⟩

namespace HashTable
variable {K V : Type} [DecidableEq K]

def get (table : HashTable K V) (key : K) : Option V := (table.find? fun entry => decide (entry.1 = key)).map Prod.snd

def insert (table : HashTable K V) (key : K) (value : V) : HashTable K V := (key,value) :: table.filter fun entry => decide (entry.1 ≠ key)

-- `entries.collect()`: of the entries of one key the last stays.
def collect (entries : List (K × V)) : HashTable K V := entries.foldl (fun table entry => table.insert entry.1 entry.2) []

def Keyed (table : HashTable K V) : Prop := (table.map Prod.fst).Nodup

variable {table table' : HashTable K V} {key other : K} {value : V}

omit [DecidableEq K] in
theorem keyed_nil : Keyed ([] : HashTable K V) := List.nodup_nil

theorem keyed_insert (keyed : Keyed table) (key : K) (value : V) : Keyed (table.insert key value) := by
  unfold Keyed insert
  rw [List.map_cons,List.nodup_cons]
  refine ⟨fun member => ?_,(List.filter_sublist.map _).nodup keyed⟩
  obtain ⟨entry,kept,same⟩ := List.mem_map.mp member
  exact of_decide_eq_true (List.mem_filter.mp kept).2 same

theorem keyed_collect (entries : List (K × V)) : Keyed (collect entries) :=
  List.foldlRecOn entries _ keyed_nil fun _ keyed entry _ => keyed_insert keyed entry.1 entry.2

@[simp] theorem get_nil : get ([] : HashTable K V) key = none := rfl

@[simp] theorem get_cons_self : get ((key,value) :: table) key = some value := by
  unfold get
  rw [List.find?_cons_of_pos (by simp)]
  rfl

theorem get_cons_of_ne (apart : key ≠ other) : get ((key,value) :: table) other = get table other := by
  unfold get
  rw [List.find?_cons_of_neg (by simpa using apart)]

@[simp] theorem get_insert_self : (table.insert key value).get key = some value := get_cons_self

theorem get_insert_of_ne (apart : other ≠ key) : (table.insert key value).get other = table.get other := by
  unfold insert
  rw [get_cons_of_ne apart.symm]
  unfold get
  rw [List.find?_filter]
  congr 2
  funext entry
  by_cases same : entry.1 = other
  · subst same
    simp [apart]
  · simp [same]

theorem get_eq_some (keyed : Keyed table) : table.get key = some value ↔ (key,value) ∈ table := by
  induction table with
  | nil => simp
  | cons entry rest ih =>
      obtain ⟨k,v⟩ := entry
      have later := List.nodup_cons.mp (keyed : (k :: rest.map Prod.fst).Nodup)
      by_cases same : k = key
      · subst same
        rw [get_cons_self]
        constructor
        · rintro ⟨⟩
          exact List.mem_cons_self
        · intro member
          rcases List.mem_cons.mp member with same | member
          · cases same
            rfl
          · exact absurd (List.mem_map.mpr ⟨_,member,rfl⟩) later.1
      · rw [get_cons_of_ne same,ih later.2,List.mem_cons,Prod.mk.injEq]
        exact ⟨.inr,fun member => member.resolve_left fun here => same here.1.symm⟩

theorem get_eq_none : table.get key = none ↔ key ∉ table.map Prod.fst := by
  unfold get
  rw [Option.map_eq_none_iff,List.find?_eq_none]
  constructor
  · rintro none_ member
    obtain ⟨entry,held,same⟩ := List.mem_map.mp member
    exact none_ entry held (decide_eq_true same)
  · intro missing entry held same
    exact missing (List.mem_map.mpr ⟨entry,held,of_decide_eq_true same⟩)

-- A listing of the entries says no more than the map.
theorem get_perm (keyed : Keyed table) (same : table'.Perm table) : table'.get key = table.get key := by
  have keyed' : Keyed table' := (same.map Prod.fst).nodup_iff.mpr keyed
  apply Option.ext
  intro value
  rw [get_eq_some keyed',get_eq_some keyed,same.mem_iff]

theorem collect_concat (entries : List (K × V)) (entry : K × V) : collect (entries ++ [entry]) = (collect entries).insert entry.1 entry.2 := by
  unfold collect
  rw [List.foldl_append]
  rfl

-- Entries of different keys are all in the map they are collected to.
theorem get_collect {entries : List (K × V)} (keyed : Keyed entries) : (collect entries).get key = some value ↔ (key,value) ∈ entries := by
  induction entries using List.reverseRecOn with
  | nil => simp [collect]
  | append_singleton entries entry ih =>
      obtain ⟨k,v⟩ := entry
      unfold Keyed at keyed
      rw [List.map_append,List.nodup_append] at keyed
      rw [collect_concat,List.mem_append,List.mem_singleton,Prod.mk.injEq]
      by_cases same : key = k
      · subst same
        have fresh : (key,value) ∉ entries := fun member => keyed.2.2 key (List.mem_map.mpr ⟨_,member,rfl⟩) key List.mem_cons_self rfl
        rw [get_insert_self,Option.some.injEq]
        exact ⟨fun is => .inr ⟨rfl,is.symm⟩,fun is => (is.resolve_left fresh).2.symm⟩
      · rw [get_insert_of_ne same,ih keyed.1]
        exact ⟨.inl,fun is => is.resolve_right fun here => same here.1⟩

end HashTable
end Foundation
