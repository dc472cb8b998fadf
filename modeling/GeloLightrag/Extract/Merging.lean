import GeloLightrag.Extract.Parser
import GeloLightrag.Foundation.OrderedTable
import Mathlib.Data.Char
import Mathlib.Data.List.Induction
import Mathlib.Data.List.Infix
import Mathlib.Data.List.Lex
import Mathlib.Data.Prod.Lex

namespace Extract
open Foundation

-- A description is appended unless it is empty or already there.
def mergeDescription (existing description : Text) : Text :=
  if description ≠ [] ∧ ¬ description <:+: existing then
    if existing = [] then description else existing ++ '\n' :: description
  else existing

def mergeSource (sourceChunks : List Text) (chunkId : Text) : List Text := if chunkId ∈ sourceChunks then sourceChunks else sourceChunks ++ [chunkId]

structure MergedEntity where
  name : Text
  description : Text
  sourceChunks : List Text
deriving DecidableEq,Repr

structure MergedRelation where
  src : Text
  tgt : Text
  description : Text
  sourceChunks : List Text
deriving DecidableEq,Repr

def mergeEntity (chunkId : Text) (d : EntityDraft) : Option MergedEntity → MergedEntity
  | none => ⟨d.name,d.description,[chunkId]⟩
  | some existing => {existing with
      description := mergeDescription existing.description d.description
      sourceChunks := mergeSource existing.sourceChunks chunkId }

def mergeEntities (acc : OrderedTable Text MergedEntity) (drafts : List EntityDraft) (chunkId : Text) : OrderedTable Text MergedEntity :=
  drafts.foldl (fun acc d => acc.upsert d.name (mergeEntity chunkId d)) acc

section Relations
variable {F : Type}

-- The order of texts by code points is that of their UTF-8 bytes.
def RelationDraft.key (d : RelationDraft F) : Text ×ₗ Text := toLex (if d.src ≤ d.tgt then (d.src,d.tgt) else (d.tgt,d.src))

def mergeRelation (chunkId : Text) (d : RelationDraft F) : Option MergedRelation → MergedRelation
  | none => ⟨(ofLex d.key).1,(ofLex d.key).2,d.description,[chunkId]⟩
  | some existing => {existing with
      description := mergeDescription existing.description d.description
      sourceChunks := mergeSource existing.sourceChunks chunkId }

def mergeRelations (acc : OrderedTable (Text ×ₗ Text) MergedRelation) (drafts : List (RelationDraft F)) (chunkId : Text) : OrderedTable (Text ×ₗ Text) MergedRelation :=
  drafts.foldl (fun acc d => acc.upsert d.key (mergeRelation chunkId d)) acc

end Relations

def dangles (entities : OrderedTable Text MergedEntity) (r : MergedRelation) : Bool :=
  decide (¬ (r.src ∈ entities.map Prod.fst ∧ r.tgt ∈ entities.map Prod.fst))

section Texts
variable {existing description : Text} {descriptions : List Text}

theorem mergeDescription_front (existing description : Text) : existing <+: mergeDescription existing description := by
  unfold mergeDescription
  split
  · split
    · rename_i none_
      exact none_ ▸ List.nil_prefix
    · exact List.prefix_append _ _
  · exact List.prefix_refl _

theorem mergeDescription_inside (existing description : Text) : description <:+: mergeDescription existing description := by
  unfold mergeDescription
  split
  · split
    · exact List.infix_refl _
    · exact (List.suffix_append (existing ++ ['\n']) description).isInfix.trans (by rw [List.append_assoc]; exact List.infix_refl _)
  · rename_i there
    by_cases none_ : description = []
    · exact none_ ▸ List.nil_infix
    · by_contra absent
      exact there ⟨none_,absent⟩

theorem mergeDescription_nil (description : Text) : mergeDescription [] description = description := by
  unfold mergeDescription
  split
  · rfl
  · rename_i there
    by_cases none_ : description = []
    · exact none_.symm
    · exact absurd ⟨none_,fun inside => none_ (List.infix_nil.mp inside)⟩ there

-- What is merged stays in front, and has every description in it.
theorem merged_front (existing : Text) (descriptions : List Text) : existing <+: descriptions.foldl mergeDescription existing := by
  induction descriptions generalizing existing with
  | nil => exact List.prefix_refl _
  | cons description rest ih => exact (mergeDescription_front existing description).trans (ih _)

theorem merged_inside (existing : Text) : ∀ description ∈ descriptions, description <:+: descriptions.foldl mergeDescription existing := by
  induction descriptions generalizing existing with
  | nil => exact fun _ member => absurd member List.not_mem_nil
  | cons first rest ih =>
      intro description member
      rcases List.mem_cons.mp member with rfl | member
      · exact (mergeDescription_inside existing description).trans (merged_front _ rest).isInfix
      · exact ih _ description member

-- The first that is not empty is in front.
theorem merged_first (first : descriptions.find? (fun description => decide (description ≠ [])) = some description) :
    description <+: descriptions.foldl mergeDescription [] := by
  induction descriptions with
  | nil => cases first
  | cons d rest ih =>
      rw [List.foldl_cons,mergeDescription_nil]
      by_cases none_ : d = []
      · subst none_
        exact ih first
      · rw [List.find?_cons_of_pos (by simpa using none_)] at first
        cases first
        exact merged_front _ rest

-- The chunks are listed once each, as they first come.
theorem merged_sources (ids : List Text) : ids.foldl mergeSource [] = ids.reverse.dedup.reverse := by
  induction ids using List.reverseRecOn with
  | nil => rfl
  | append_singleton ids id ih =>
      rw [List.foldl_append,List.foldl_cons,List.foldl_nil,ih,List.reverse_append,List.reverse_singleton,List.singleton_append]
      unfold mergeSource
      by_cases there : id ∈ ids.reverse
      · rw [List.dedup_cons_of_mem there,if_pos (List.mem_reverse.mpr (List.mem_dedup.mpr there))]
      · rw [List.dedup_cons_of_notMem there,List.reverse_cons,if_neg fun member => there (List.mem_dedup.mp (List.mem_reverse.mp member))]

end Texts
end Extract
