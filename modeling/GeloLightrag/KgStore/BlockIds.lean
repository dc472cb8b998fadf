import GeloLightrag.KgStore.Query

namespace KgStore
open Foundation
variable {α : Type} {name : α → String} {items : List α} {key : String}

-- The block of a name is the last of the items that have it.
def LastOf (name : α → String) (items : List α) (key : String) (id : Nat) : Prop :=
  (∃ item, items[id]? = some item ∧ name item = key) ∧ ∀ j item, id < j → items[j]? = some item → name item ≠ key

theorem lastOf_concat {item : α} {id : Nat} :
    LastOf name (items ++ [item]) key id ↔ if name item = key then id = items.length else LastOf name items key id := by
  have end_ : (items ++ [item])[items.length]? = some item := by rw [List.getElem?_append_right (Nat.le_refl _),Nat.sub_self]; rfl
  have later : ∀ {j other}, (items ++ [item])[j]? = some other → (j < items.length ∧ items[j]? = some other) ∨ (j = items.length ∧ other = item) := by
    intro j other found
    rcases Nat.lt_trichotomy j items.length with before | same | after
    · exact .inl ⟨before,by rwa [List.getElem?_append_left before] at found⟩
    · subst same
      rw [end_] at found
      exact .inr ⟨rfl,(Option.some.inj found).symm⟩
    · rw [List.getElem?_eq_none (by rw [List.length_append,List.length_singleton]; omega)] at found
      cases found
  split
  · rename_i named
    constructor
    · rintro ⟨⟨other,found,_⟩,last⟩
      rcases later found with ⟨before,_⟩ | ⟨is,_⟩
      · exact absurd named (last _ _ before end_)
      · exact is
    · rintro rfl
      refine ⟨⟨item,end_,named⟩,fun j other beyond found => ?_⟩
      rcases later found with ⟨before,_⟩ | ⟨is,_⟩ <;> omega
  · rename_i unnamed
    constructor
    · rintro ⟨⟨other,found,same⟩,last⟩
      rcases later found with ⟨before,found⟩ | ⟨_,rfl⟩
      · refine ⟨⟨other,found,same⟩,fun j another beyond listed => last j another beyond ?_⟩
        rwa [List.getElem?_append_left (List.getElem?_eq_some_iff.mp listed).1]
      · exact absurd same unnamed
    · rintro ⟨⟨other,found,same⟩,last⟩
      refine ⟨⟨other,by rwa [List.getElem?_append_left (List.getElem?_eq_some_iff.mp found).1],same⟩,fun j another beyond listed => ?_⟩
      rcases later listed with ⟨_,listed⟩ | ⟨_,rfl⟩
      · exact last j another beyond listed
      · exact unnamed

theorem blockIds_get (few : items.length ≤ 2 ^ 32) {id : Nat} : (blockIds name items).get key = some id ↔ LastOf name items key id := by
  induction items using List.reverseRecOn with
  | nil => simp [blockIds,HashTable.collect,LastOf]
  | append_singleton items item ih =>
      rw [List.length_append,List.length_singleton] at few
      have word : items.length % 2 ^ 32 = items.length := Nat.mod_eq_of_lt (by omega)
      have grown : blockIds name (items ++ [item]) = (blockIds name items).insert (name item) items.length := by
        unfold blockIds
        rw [List.zipIdx_append,List.map_append,Nat.zero_add]
        exact (HashTable.collect_concat _ _).trans (congrArg (HashTable.insert _ (name item)) word)
      rw [grown,lastOf_concat]
      split
      · rename_i same
        subst same
        rw [HashTable.get_insert_self,Option.some.injEq,eq_comm]
      · rename_i apart
        rw [HashTable.get_insert_of_ne fun same => apart same.symm]
        exact ih (by omega)

theorem lastOf_exists {item : α} (member : item ∈ items) : ∃ id, LastOf name items (name item) id := by
  induction items using List.reverseRecOn with
  | nil => cases member
  | append_singleton items other ih =>
      simp only [lastOf_concat]
      by_cases same : name other = name item
      · exact ⟨items.length,by rw [if_pos same]⟩
      · rcases List.mem_append.mp member with member | member
        · obtain ⟨id,last⟩ := ih member
          exact ⟨id,by rwa [if_neg same]⟩
        · cases List.mem_singleton.mp member
          exact absurd rfl same

theorem lastOf_unique {key' : String} {id : Nat} (first : LastOf name items key id) (second : LastOf name items key' id) : key = key' := by
  obtain ⟨⟨item,found,rfl⟩,_⟩ := first
  obtain ⟨⟨other,again,rfl⟩,_⟩ := second
  rw [found] at again
  cases again
  rfl

-- The other way only the last block of a name has it.
theorem inverted_get (few : items.length ≤ 2 ^ 32) (listing : Listing) {id : Nat} :
    (inverted listing (blockIds name items)).get id = some key ↔ LastOf name items key id := by
  have keyed : HashTable.Keyed (blockIds name items) := HashTable.keyed_collect _
  have listed := listing.listed (blockIds name items)
  have entries : ∀ entry : String × Nat, entry ∈ listing.order (blockIds name items) ↔ LastOf name items entry.1 entry.2 := by
    intro entry
    rw [listed.mem_iff,←blockIds_get few,HashTable.get_eq_some keyed]
  unfold inverted
  rw [HashTable.get_collect]
  · rw [List.mem_map]
    constructor
    · rintro ⟨entry,member,same⟩
      cases same
      exact (entries entry).mp member
    · intro last
      exact ⟨(key,id),(entries (key,id)).mpr last,rfl⟩
  · unfold HashTable.Keyed
    rw [List.map_map]
    have distinct : (listing.order (blockIds name items)).Nodup := listed.nodup_iff.mpr (List.Nodup.of_map _ keyed)
    refine distinct.map_on fun first member second member' same => ?_
    have ids : first.2 = second.2 := same
    have one := (entries first).mp member
    rw [ids] at one
    exact Prod.ext (lastOf_unique one ((entries second).mp member')) ids

end KgStore
