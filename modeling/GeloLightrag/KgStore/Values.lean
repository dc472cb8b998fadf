import GeloLightrag.Compass.Index
import GeloLightrag.KgStore.ChunkStore
import GeloLightrag.XorMm.Multimap
import Mathlib.Data.List.DropRight

namespace KgStore
open Foundation RagCore

-- The errors of the parts, and a value that is too long for its map.
inductive LightKgError where
  | compass (e : Compass.CompassIndexError)
  | xorMm (e : XorMm.XorMmError)
  | chunk (e : ChunkStoreError)
  | inconsistent (value : String) (valueBytes : Nat)

def stringToValue (s : String) (valueBytes : Nat) : Except LightKgError XorMm.LogicalValue :=
  if valueBytes < (utf8 s).length then .error (.inconsistent s valueBytes) else .ok (utf8 s)

def stripTrailingNuls (v : Bytes) : Bytes := v.rdropWhile fun b => b == 0

-- The strings that a map's values are read as.
def readNames (values : List XorMm.LogicalValue) : List String :=
  (values.filterMap fun v => fromUtf8 (stripTrailingNuls v)).filter fun s => decide (s ≠ "")

-- What is left of strings by their storing: each without its last NULs, and none that
-- has nothing else.
def stripNuls (s : String) : String := String.ofList (s.toList.rdropWhile fun c => c == '\x00')

def recalled (names : List String) : List String := (names.map stripNuls).filter fun s => decide (s ≠ "")

-- A string that is read as it was stored.
def Lasting (s : String) : Prop := s ≠ "" ∧ s.toList.getLast? ≠ some '\x00'

instance (s : String) : Decidable (Lasting s) := inferInstanceAs (Decidable (_ ∧ _))

theorem utf8_ofList (l : List Char) : utf8 (String.ofList l) = l.flatMap String.utf8EncodeChar := by
  rw [utf8,String.toUTF8_eq_toByteArray,String.toByteArray_ofList]
  simp [List.utf8Encode]

-- The bytes of a character end in zero for NUL alone.
theorem encoded_last (c : Char) : ∃ front b, String.utf8EncodeChar c = front ++ [b] ∧ (b = 0 ↔ c = '\x00') := by
  have word : ∀ n < 256, UInt8.ofNat n = 0 ↔ n = 0 := by
    intro n small
    rw [←UInt8.toNat_inj,UInt8.toNat_ofNat']
    show n % 2 ^ 8 = 0 ↔ n = 0
    omega
  have nul : c = '\x00' ↔ c.val.toNat = 0 := by
    rw [←Char.toNat_inj]
    rfl
  unfold String.utf8EncodeChar
  rw [nul]
  dsimp only
  have low := Nat.mod_lt c.val.toNat (y:=64) (by decide)
  have last : UInt8.ofNat (c.val.toNat % 64 + 128) = 0 ↔ c.val.toNat % 64 + 128 = 0 := word _ (by omega)
  split
  · exact ⟨[],_,rfl,word _ (by omega)⟩
  split
  · exact ⟨[_],_,rfl,last.trans (by omega)⟩
  split
  · exact ⟨[_,_],_,rfl,last.trans (by omega)⟩
  · exact ⟨[_,_,_],_,rfl,last.trans (by omega)⟩

theorem strip_encoded (l : List Char) : stripTrailingNuls (l.flatMap String.utf8EncodeChar) = (l.rdropWhile fun c => c == '\x00').flatMap String.utf8EncodeChar := by
  unfold stripTrailingNuls
  induction l using List.reverseRecOn with
  | nil => simp
  | append_singleton l c ih =>
      obtain ⟨front,b,whole,zero⟩ := encoded_last c
      rw [List.flatMap_append,List.flatMap_singleton]
      by_cases nul : c = '\x00'
      · subst nul
        rw [List.rdropWhile_concat_pos _ _ _ (by simp),←ih]
        exact List.rdropWhile_concat_pos _ _ _ (by decide)
      · rw [List.rdropWhile_concat_neg _ _ _ (by simpa using nul),List.flatMap_append,List.flatMap_singleton,whole,←List.append_assoc]
        refine List.rdropWhile_concat_neg _ _ _ ?_
        simpa [zero] using nul

theorem strip_padded (v : Bytes) (n : Nat) : stripTrailingNuls (v ++ List.replicate n 0) = stripTrailingNuls v := by
  induction n with
  | zero => rw [List.replicate_zero,List.append_nil]
  | succ n ih =>
      rw [List.replicate_succ',←List.append_assoc,←ih]
      exact List.rdropWhile_concat_pos _ _ _ (by decide)

theorem strip_utf8 (s : String) : stripTrailingNuls (utf8 s) = utf8 (stripNuls s) := by
  rw [stripNuls,utf8_ofList,←strip_encoded,←utf8_ofList,String.ofList_toList]

theorem readNames_stored (params : XorMm.XorMmParams) (names : List String) :
    readNames (names.map fun s => XorMm.pad params (utf8 s)) = recalled names := by
  unfold readNames recalled
  rw [List.filterMap_map]
  congr 1
  rw [←List.filterMap_eq_map]
  refine List.filterMap_congr fun s _ => ?_
  show fromUtf8 (stripTrailingNuls (utf8 s ++ List.replicate _ 0)) = some (stripNuls s)
  rw [strip_padded,strip_utf8,fromUtf8_utf8]

theorem stripNuls_eq (s : String) : stripNuls s = s ↔ s.toList.getLast? ≠ some '\x00' := by
  rw [stripNuls,←String.toList_inj,String.toList_ofList,List.rdropWhile_eq_self_iff]
  cases whole : s.toList.getLast? with
  | none => simp [List.getLast?_eq_none_iff.mp whole]
  | some c =>
      have some_ : s.toList ≠ [] := by
        rintro empty
        rw [empty] at whole
        cases whole
      rw [List.getLast?_eq_some_getLast some_,Option.some.injEq] at whole
      simp [some_,whole]

theorem map_eq_self {α : Type} {f : α → α} {l : List α} : l.map f = l ↔ ∀ a ∈ l, f a = a := by
  conv_lhs => rhs; rw [←List.map_id l]
  exact List.map_inj_left

-- They are read as they were exactly where none loses anything.
theorem recalled_eq (names : List String) : recalled names = names ↔ ∀ s ∈ names, Lasting s := by
  unfold recalled
  constructor
  · intro same
    have all : (names.map stripNuls).filter (fun s => decide (s ≠ "")) = names.map stripNuls := by
      refine List.filter_sublist.eq_of_length ?_
      rw [same,List.length_map]
    rw [all] at same
    intro s member
    have kept : stripNuls s = s := map_eq_self.mp same s member
    have some_ := List.filter_eq_self.mp all (stripNuls s) (List.mem_map_of_mem member)
    rw [kept] at some_
    exact ⟨of_decide_eq_true some_,(stripNuls_eq s).mp kept⟩
  · intro lasting
    have kept : names.map stripNuls = names := map_eq_self.mpr fun s member => (stripNuls_eq s).mpr (lasting s member).2
    rw [kept,List.filter_eq_self]
    exact fun s member => decide_eq_true (lasting s member).1

-- A relation's key loses nothing where its later endpoint does not.
theorem lasting_key {F : Type} (r : Relation F) : Lasting r.canonicalKey ↔ Lasting r.ends.2 := by
  have some_ : r.canonicalKey ≠ "" := by
    rw [Ne,←String.toList_inj,canonicalKey_toList]
    simp
  have empty : r.ends.2 ≠ "" ↔ r.ends.2.toList ≠ [] := not_congr String.toList_inj.symm
  unfold Lasting
  rw [canonicalKey_toList,empty]
  cases later : r.ends.2.toList with
  | nil => simp
  | cons c rest =>
      have last : (r.ends.1.toList ++ '\x00' :: c :: rest).getLast? = (c :: rest).getLast? := by
        rw [List.getLast?_append_of_ne_nil _ (List.cons_ne_nil _ _),List.getLast?_cons_cons]
      rw [last]
      simp [some_]

end KgStore
