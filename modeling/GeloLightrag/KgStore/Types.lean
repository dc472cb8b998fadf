import Mathlib.Data.String.Basic

namespace KgStore

structure Chunk (F : Type) where
  id : String
  text : String
  embedding : List F

structure Entity (F : Type) where
  name : String
  description : String
  embedding : List F
  sourceChunks : List String

structure Relation (F : Type) where
  src : String
  tgt : String
  description : String
  embedding : List F
  sourceChunks : List String

structure ExtractedKg (F : Type) where
  chunks : List (Chunk F)
  entities : List (Entity F)
  relations : List (Relation F)

-- The order of strings by code points is that of their UTF-8 bytes.
def Relation.ends {F : Type} (r : Relation F) : String × String := if r.src ≤ r.tgt then (r.src,r.tgt) else (r.tgt,r.src)

def Relation.canonicalKey {F : Type} (r : Relation F) : String := r.ends.1 ++ "\x00" ++ r.ends.2

section
variable {F : Type} (r r' : Relation F)

-- Relations between the same two entities, either way.
def Relation.SameEnds : Prop := (r.src = r'.src ∧ r.tgt = r'.tgt) ∨ (r.src = r'.tgt ∧ r.tgt = r'.src)

instance : Decidable (r.SameEnds r') := inferInstanceAs (Decidable (_ ∨ _))

def Relation.touches (name : String) : Prop := r.src = name ∨ r.tgt = name

instance (name : String) : Decidable (r.touches name) := inferInstanceAs (Decidable (_ ∨ _))

theorem Relation.touches_iff (name : String) : r.touches name ↔ r.src = name ∨ r.tgt = name := Iff.rfl

theorem Relation.sameEnds_iff : r.SameEnds r' ↔ r.ends = r'.ends := by
  unfold SameEnds ends
  split <;> split <;> rename_i first second <;> rw [Prod.mk.injEq]
  · constructor
    · rintro (same | ⟨one,two⟩)
      · exact same
      · rw [one,two] at first
        have equal := le_antisymm second first
        exact ⟨one.trans equal.symm,two.trans equal⟩
    · exact .inl
  · constructor
    · rintro (⟨one,two⟩ | same)
      · rw [one,two] at first
        exact absurd first second
      · exact same
    · exact .inr
  · constructor
    · rintro (⟨one,two⟩ | ⟨one,two⟩)
      · rw [one,two] at first
        exact absurd second first
      · exact ⟨two,one⟩
    · rintro ⟨one,two⟩
      exact .inr ⟨two,one⟩
  · constructor
    · rintro (⟨one,two⟩ | ⟨one,two⟩)
      · exact ⟨two,one⟩
      · rw [one,two] at first
        exact absurd (le_of_not_ge second) first
    · rintro ⟨one,two⟩
      exact .inl ⟨two,one⟩

-- The separator of one is a NUL in an endpoint of the other.
def Relation.Swallows : Prop := ∃ middle, r'.ends.1 = r.ends.1 ++ "\x00" ++ middle ∧ r.ends.2 = middle ++ "\x00" ++ r'.ends.2

theorem canonicalKey_toList : r.canonicalKey.toList = r.ends.1.toList ++ '\x00' :: r.ends.2.toList := by
  unfold Relation.canonicalKey
  rw [String.toList_append,String.toList_append,List.append_assoc]
  rfl

theorem swallows_toList : r.Swallows r' ↔
    ∃ middle, r'.ends.1.toList = r.ends.1.toList ++ '\x00' :: middle ∧ r.ends.2.toList = middle ++ '\x00' :: r'.ends.2.toList := by
  have nul : "\x00".toList = ['\x00'] := rfl
  constructor
  · rintro ⟨middle,first,second⟩
    refine ⟨middle.toList,?_,?_⟩
    · rw [first,String.toList_append,String.toList_append,List.append_assoc,nul,List.singleton_append]
    · rw [second,String.toList_append,String.toList_append,List.append_assoc,nul,List.singleton_append]
  · rintro ⟨middle,first,second⟩
    refine ⟨String.ofList middle,String.toList_inj.mp ?_,String.toList_inj.mp ?_⟩
    · rw [first,String.toList_append,String.toList_append,List.append_assoc,nul,String.toList_ofList,List.singleton_append]
    · rw [second,String.toList_append,String.toList_append,List.append_assoc,nul,String.toList_ofList,List.singleton_append]

-- A key is told from another but for the NULs in names.
theorem canonicalKey_eq : r.canonicalKey = r'.canonicalKey ↔ r.ends = r'.ends ∨ r.Swallows r' ∨ r'.Swallows r := by
  rw [←String.toList_inj,canonicalKey_toList,canonicalKey_toList,swallows_toList,swallows_toList]
  constructor
  · intro same
    rcases List.append_eq_append_iff.mp same with ⟨more,first,second⟩ | ⟨more,first,second⟩
    · cases more with
      | nil => exact .inl (Prod.ext (String.toList_inj.mp (by rw [first,List.append_nil])) (String.toList_inj.mp (List.cons.inj second).2))
      | cons c middle =>
          obtain ⟨rfl,rest⟩ := List.cons.inj second
          exact .inr (.inl ⟨middle,first,rest⟩)
    · cases more with
      | nil => exact .inl (Prod.ext (String.toList_inj.mp (by rw [first,List.append_nil])) (String.toList_inj.mp (List.cons.inj second).2.symm))
      | cons c middle =>
          obtain ⟨rfl,rest⟩ := List.cons.inj second
          exact .inr (.inr ⟨middle,first,rest⟩)
  · rintro (same | ⟨middle,first,second⟩ | ⟨middle,first,second⟩)
    · rw [same]
    · rw [first,second,List.append_assoc,List.cons_append]
    · rw [first,second,List.append_assoc,List.cons_append]

end
end KgStore
