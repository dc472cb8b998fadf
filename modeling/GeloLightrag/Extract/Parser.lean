import GeloLightrag.Foundation.Splitting
import GeloLightrag.Foundation.Utf8

namespace Extract
open Foundation

-- The numbers that `str::parse` reads.
class ParseFloat (F : Type) where
  parse : Text → Option F

structure TupleConfig where
  tupleDelimiter : Text
  recordDelimiter : Text
  completionDelimiter : Text

def defaultTupleDelimiter : Text := ['<','|','>']
def defaultRecordDelimiter : Text := ['#','#']
def defaultCompletionDelimiter : Text := ['<','|','C','O','M','P','L','E','T','E','|','>']

def TupleConfig.default : TupleConfig := ⟨defaultTupleDelimiter,defaultRecordDelimiter,defaultCompletionDelimiter⟩

structure EntityDraft where
  name : Text
  entityType : Text
  description : Text
deriving DecidableEq,Repr

structure RelationDraft (F : Type) where
  src : Text
  tgt : Text
  description : Text
  keywords : Text
  strength : F
deriving DecidableEq,Repr

structure ParseTrailer where
  sawCompletion : Bool
  malformedRecords : Nat
deriving DecidableEq,Repr

def stripOuterParens (s : Text) : Option Text :=
  let s := s.trim
  if s.head? ≠ some '(' ∨ s.getLast? ≠ some ')' then none
  else if s.size < 2 then none
  else some s.tail.dropLast

-- The quotes that go together.
def quotes : List (Char × Char) := [('"','"'),('\'','\''),(Char.ofNat 0x201C,Char.ofNat 0x201D)]

def wrapped (s : Text) : Bool := decide (2 ≤ s.length) && quotes.any fun pair => s.head? == some pair.1 && s.getLast? == some pair.2

def unquote (s : Text) : Text :=
  let s := s.trim
  if wrapped s then Text.trim s.tail.dropLast else s

-- A description may hold the delimiter: the fields past the second are joined again,
-- by the default delimiter whatever the one they were split at.
def parseEntity : List Text → Option EntityDraft
  | name :: entityType :: description :: more =>
    let name := unquote name
    let entityType := unquote entityType
    let description := if more = [] then unquote description else Text.trim (joinWith defaultTupleDelimiter (description :: more))
    if name = [] then none else some ⟨name,entityType,description⟩
  | _ => none

section Records
variable {F : Type} [ParseFloat F]

def parseRelationship : List Text → Option (RelationDraft F)
  | src :: tgt :: description :: keywords :: strength :: _ => do
    let src := unquote src
    let tgt := unquote tgt
    let description := unquote description
    let keywords := unquote keywords
    let strength ← ParseFloat.parse (unquote strength)
    if src = [] ∨ tgt = [] then none else some ⟨src,tgt,description,keywords,strength⟩
  | _ => none

inductive Outcome (F : Type) where
  | blank
  | malformed
  | entity (draft : EntityDraft)
  | relation (draft : RelationDraft F)
deriving DecidableEq,Repr

def entityKind : Text := ['e','n','t','i','t','y']
def relationshipKind : Text := ['r','e','l','a','t','i','o','n','s','h','i','p']

-- What one turn of the loop makes of its record.
def readRecord (cfg : TupleConfig) (record : Text) : Outcome F :=
  let trimmed := record.trim
  if trimmed.isEmpty then .blank
  else
    match stripOuterParens trimmed with
    | none => .malformed
    | some inner =>
      match splitAround cfg.tupleDelimiter inner with
      | [] => .malformed
      | kind :: fields =>
        let kind := unquote (Text.trim kind)
        if kind = entityKind then (parseEntity fields).elim .malformed .entity
        else if kind = relationshipKind then (parseRelationship fields).elim .malformed .relation
        else .malformed

abbrev Stream (F : Type) := List EntityDraft × List (RelationDraft F) × ParseTrailer

def Outcome.note : Stream F → Outcome F → Stream F
  | stream,.blank => stream
  | (entities,relations,trailer),.malformed => (entities,relations,{trailer with malformedRecords:=trailer.malformedRecords+1})
  | (entities,relations,trailer),.entity draft => (entities ++ [draft],relations,trailer)
  | (entities,relations,trailer),.relation draft => (entities,relations ++ [draft],trailer)

def parseTupleStream (raw : Text) (cfg : TupleConfig) : Stream F :=
  let found := before cfg.completionDelimiter raw
  let stream := found.getD raw
  (splitAround cfg.recordDelimiter stream).foldl (fun state record => Outcome.note state (readRecord cfg record)) ([],[],⟨found.isSome,0⟩)

def Outcome.draftedEntity : Outcome F → Option EntityDraft
  | .entity draft => some draft
  | _ => none

def Outcome.draftedRelation : Outcome F → Option (RelationDraft F)
  | .relation draft => some draft
  | _ => none

def Outcome.isMalformed : Outcome F → Bool
  | .malformed => true
  | _ => false

-- Records do not touch each other: the stream gives what each of them gives, in order.
theorem note_all (outcomes : List (Outcome F)) (entities : List EntityDraft) (relations : List (RelationDraft F)) (saw : Bool) (malformed : Nat) :
    outcomes.foldl Outcome.note (entities,relations,⟨saw,malformed⟩) =
      (entities ++ outcomes.filterMap Outcome.draftedEntity,relations ++ outcomes.filterMap Outcome.draftedRelation,
        ⟨saw,malformed + outcomes.countP Outcome.isMalformed⟩) := by
  induction outcomes generalizing entities relations malformed with
  | nil => simp
  | cons outcome rest ih =>
      rw [List.foldl_cons]
      cases outcome with
      | blank => exact ih entities relations malformed
      | malformed =>
          refine (ih entities relations (malformed + 1)).trans ?_
          simp [List.filterMap_cons,List.countP_cons,Outcome.draftedEntity,Outcome.draftedRelation,Outcome.isMalformed,Nat.add_assoc,Nat.add_comm 1]
      | entity draft =>
          refine (ih (entities ++ [draft]) relations malformed).trans ?_
          simp [List.filterMap_cons,Outcome.draftedEntity,Outcome.draftedRelation,Outcome.isMalformed]
      | relation draft =>
          refine (ih entities (relations ++ [draft]) malformed).trans ?_
          simp [List.filterMap_cons,Outcome.draftedEntity,Outcome.draftedRelation,Outcome.isMalformed]

theorem parseTupleStream_records (raw : Text) (cfg : TupleConfig) :
    (parseTupleStream raw cfg : Stream F) =
      let outcomes := (splitAround cfg.recordDelimiter ((before cfg.completionDelimiter raw).getD raw)).map (readRecord cfg)
      (outcomes.filterMap Outcome.draftedEntity,outcomes.filterMap Outcome.draftedRelation,
        ⟨(before cfg.completionDelimiter raw).isSome,outcomes.countP Outcome.isMalformed⟩) := by
  unfold parseTupleStream
  rw [←List.foldl_map,note_all]
  simp

end Records
end Extract
