import GeloLightrag.Extract.RoundTrip

namespace Extract
open Foundation

def quoteMarks : List Char := ['"','\'',Char.ofNat 0x201C,Char.ofNat 0x201D]

-- What trimming and unquoting leave in place.
def keeps (c : Char) : Bool := !isWhitespace c && !quoteMarks.contains c

section Cores
variable {text : Text}

theorem trim_within (text : Text) : ∃ front back : Text, text = front ++ (text.trim ++ back) ∧ (∀ c ∈ front, isWhitespace c = true) ∧
    ∀ c ∈ back, isWhitespace c = true := by
  refine ⟨text.takeWhile isWhitespace,((text.dropWhile isWhitespace).reverse.takeWhile isWhitespace).reverse,?_,fun c member => List.mem_takeWhile_imp member,
    fun c member => List.mem_takeWhile_imp (List.mem_reverse.mp member)⟩
  unfold Text.trim
  rw [←List.reverse_append,List.takeWhile_append_dropWhile,List.reverse_reverse,List.takeWhile_append_dropWhile]

theorem keeps_blank (blank : ∀ c ∈ text, isWhitespace c = true) : text.filter keeps = [] := by
  rw [List.filter_eq_nil_iff]
  intro c member kept
  unfold keeps at kept
  rw [blank c member] at kept
  cases kept

theorem keeps_trim (text : Text) : text.trim.filter keeps = text.filter keeps := by
  obtain ⟨front,back,whole,first,last⟩ := trim_within text
  conv_rhs => rw [whole,List.filter_append,List.filter_append,keeps_blank first,keeps_blank last,List.nil_append,List.append_nil]

theorem trim_length (text : Text) : text.trim.length ≤ text.length := by
  obtain ⟨front,back,whole,-⟩ := trim_within text
  conv_rhs => rw [whole]
  rw [List.length_append,List.length_append]
  omega

-- A text in quotes is a mark, what is inside and a mark.
theorem wrapped_parts (inQuotes : wrapped text = true) : ∃ a b, a ∈ quoteMarks ∧ b ∈ quoteMarks ∧ text = a :: (text.tail.dropLast ++ [b]) := by
  unfold wrapped at inQuotes
  rw [Bool.and_eq_true,decide_eq_true_eq,List.any_eq_true] at inQuotes
  obtain ⟨wide,pair,member,ends⟩ := inQuotes
  rw [Bool.and_eq_true,beq_iff_eq,beq_iff_eq] at ends
  have marks : ∀ pair ∈ quotes, pair.1 ∈ quoteMarks ∧ pair.2 ∈ quoteMarks := by decide
  refine ⟨pair.1,pair.2,(marks pair member).1,(marks pair member).2,?_⟩
  cases text with
  | nil => cases ends.1
  | cons a rest =>
      have some_ : rest ≠ [] := by
        rintro rfl
        rw [List.length_singleton] at wide
        omega
      have last := ends.2
      rw [List.getLast?_cons_of_ne_nil some_,List.getLast?_eq_some_getLast some_,Option.some.injEq] at last
      cases ends.1
      rw [List.tail_cons,←last,List.dropLast_append_getLast]

theorem unquote_cases (text : Text) : (wrapped text.trim = false ∧ unquote text = text.trim) ∨
    (wrapped text.trim = true ∧ unquote text = Text.trim text.trim.tail.dropLast) := by
  unfold unquote
  cases inQuotes : wrapped text.trim with
  | false => exact .inl ⟨rfl,if_neg (by rw [inQuotes]; exact Bool.false_ne_true)⟩
  | true => exact .inr ⟨rfl,if_pos inQuotes⟩

theorem keeps_unquote (text : Text) : (unquote text).filter keeps = text.filter keeps := by
  rcases unquote_cases text with ⟨-,plain⟩ | ⟨inQuotes,inner⟩
  · rw [plain,keeps_trim]
  · obtain ⟨a,b,first,last,whole⟩ := wrapped_parts inQuotes
    have dropped : ∀ c ∈ quoteMarks, keeps c = false := List.all_iff_forall_prop.mp (by decide)
    rw [inner,keeps_trim,←keeps_trim text]
    conv_rhs => rw [whole]
    rw [List.filter_cons_of_neg (by rw [dropped a first]; exact Bool.false_ne_true),List.filter_append,
      List.filter_cons_of_neg (by rw [dropped b last]; exact Bool.false_ne_true),List.filter_nil,List.append_nil]

-- A text that unquoting only trims is in no quotes.
theorem unquote_trims (text : Text) : unquote text = text.trim ↔ wrapped text.trim = false := by
  rcases unquote_cases text with ⟨bare,plain⟩ | ⟨inQuotes,inner⟩
  · exact ⟨fun _ => bare,fun _ => plain⟩
  · refine ⟨fun same => ?_,fun bare => absurd (inQuotes.symm.trans bare) (by decide)⟩
    obtain ⟨a,b,-,-,whole⟩ := wrapped_parts inQuotes
    have short := trim_length text.trim.tail.dropLast
    have wide := congrArg List.length whole
    rw [←inner,same] at short
    rw [List.length_cons,List.length_append] at wide
    omega

theorem count_unquote {c : Char} (kept : keeps c = true) (text : Text) : (unquote text).count c = text.count c := by
  rw [←List.count_filter kept,keeps_unquote,List.count_filter kept]

end Cores

section Fields
variable {F : Type} [ParseFloat F]

-- The kind and the fields that a record is split into.
def recordFields (cfg : TupleConfig) (record : Text) : Option (Text × List Text) :=
  match stripOuterParens record.trim with
  | none => none
  | some inner =>
    match splitAround cfg.tupleDelimiter inner with
    | [] => none
    | kind :: fields => some (unquote (Text.trim kind),fields)

theorem readRecord_fields {cfg : TupleConfig} {record kind : Text} {fields : List Text} (found : recordFields cfg record = some (kind,fields)) :
    (readRecord cfg record : Outcome F) =
      if kind = entityKind then (parseEntity fields).elim .malformed .entity
      else if kind = relationshipKind then (parseRelationship fields).elim .malformed .relation
      else .malformed := by
  unfold recordFields at found
  unfold readRecord
  have some_ : record.trim.isEmpty = false := by
    cases whole : record.trim with
    | nil =>
        rw [whole] at found
        cases found
    | cons c rest => rfl
  simp only [some_,Bool.false_eq_true,if_false]
  cases stripped : stripOuterParens record.trim with
  | none =>
      rw [stripped] at found
      cases found
  | some inner =>
      rw [stripped] at found
      cases split : splitAround cfg.tupleDelimiter inner with
      | nil => simp [split] at found
      | cons first rest =>
          simp only [split,Option.some.injEq,Prod.mk.injEq] at found
          obtain ⟨rfl,rfl⟩ := found
          simp only [split]

-- The draft of five texts that the delimiter between them makes the fields of the record.
def AsWritten (delimiter : Text) (fields : List Text) (draft : RelationDraft F) : Prop :=
  ∃ src tgt description keywords strength,joinWith delimiter [src,tgt,description,keywords,strength] = joinWith delimiter fields ∧
    unquote src = draft.src ∧ unquote tgt = draft.tgt ∧ unquote description = draft.description ∧ unquote keywords = draft.keywords ∧
    ParseFloat.parse (unquote strength) = some draft.strength

-- What a record with delimiters inside its fields should give: the description of an
-- entity is the text after its type, and a relation is as written or none.
structure Kept (cfg : TupleConfig) (record : Text) (outcome : Outcome F) : Prop where
  entity : ∀ {name type_ first more}, recordFields cfg record = some (entityKind,name :: type_ :: first :: more) → more ≠ [] → unquote name ≠ [] →
    outcome = .entity ⟨unquote name,unquote type_,unquote (joinWith cfg.tupleDelimiter (first :: more))⟩
  relation : ∀ {fields}, recordFields cfg record = some (relationshipKind,fields) → 5 < fields.length →
    outcome = .malformed ∨ ∃ draft, outcome = .relation draft ∧ AsWritten cfg.tupleDelimiter fields draft

-- The delimiter is the default one and the description not in quotes; the first five of
-- more fields are no relation.
structure Clean (F : Type) [ParseFloat F] (cfg : TupleConfig) (record : Text) : Prop where
  entity : ∀ {name type_ first more}, recordFields cfg record = some (entityKind,name :: type_ :: first :: more) → more ≠ [] → unquote name ≠ [] →
    cfg.tupleDelimiter = defaultTupleDelimiter ∧ wrapped (Text.trim (joinWith cfg.tupleDelimiter (first :: more))) = false
  relation : ∀ {src tgt description keywords strength more}, recordFields cfg record = some (relationshipKind,src :: tgt :: description :: keywords :: strength :: more) →
    more ≠ [] → (ParseFloat.parse (unquote strength) : Option F) = none ∨ unquote src = [] ∨ unquote tgt = []

-- A delimiter without white space and quotes, that no number looks like.
structure Marking (F : Type) [ParseFloat F] (delimiter : Text) : Prop where
  kept : ∀ c ∈ delimiter, keeps c = true
  told : ∃ c ∈ delimiter, ∀ text : Text, c ∈ text → (ParseFloat.parse text : Option F) = none

variable {cfg : TupleConfig} {delimiter : Text}

theorem delimiter_kept : ∀ c ∈ defaultTupleDelimiter, keeps c = true := List.all_iff_forall_prop.mp (by decide)

-- The text of a description with the default delimiter for the configured one.
theorem rejoined_kept {first : Text} {more : List Text} (some_ : more ≠ []) (kept : ∀ c ∈ delimiter, keeps c = true) :
    Text.trim (joinWith defaultTupleDelimiter (first :: more)) = unquote (joinWith delimiter (first :: more)) ↔
      delimiter = defaultTupleDelimiter ∧ wrapped (Text.trim (joinWith delimiter (first :: more))) = false := by
  constructor
  · intro same
    have cores := congrArg (List.filter keeps) same
    rw [keeps_trim,keeps_unquote,filter_joinWith,filter_joinWith,List.filter_eq_self.mpr kept,
      List.filter_eq_self.mpr delimiter_kept,List.map_cons] at cores
    have told := separator_of_join (by rwa [Ne,List.map_eq_nil_iff]) cores
    subst told
    exact ⟨rfl,(unquote_trims _).mp same.symm⟩
  · rintro ⟨rfl,bare⟩
    exact ((unquote_trims _).mpr bare).symm

theorem parseEntity_more {name type_ first : Text} {more : List Text} (some_ : more ≠ []) (named : unquote name ≠ []) :
    parseEntity (name :: type_ :: first :: more) =
      some ⟨unquote name,unquote type_,Text.trim (joinWith defaultTupleDelimiter (first :: more))⟩ := by
  simp only [parseEntity,if_neg some_,if_neg named]

theorem readRecord_more {record name type_ first : Text} {more : List Text}
    (found : recordFields cfg record = some (entityKind,name :: type_ :: first :: more)) (some_ : more ≠ []) (named : unquote name ≠ []) :
    (readRecord cfg record : Outcome F) = .entity ⟨unquote name,unquote type_,Text.trim (joinWith defaultTupleDelimiter (first :: more))⟩ := by
  rw [readRecord_fields found,if_pos rfl,parseEntity_more some_ named]
  rfl

theorem readRecord_five {record src tgt description keywords strength : Text} {more : List Text}
    (found : recordFields cfg record = some (relationshipKind,src :: tgt :: description :: keywords :: strength :: more)) :
    (readRecord cfg record : Outcome F) =
      match (ParseFloat.parse (unquote strength) : Option F) with
      | none => .malformed
      | some x => if unquote src = [] ∨ unquote tgt = [] then .malformed else .relation ⟨unquote src,unquote tgt,unquote description,unquote keywords,x⟩ := by
  rw [readRecord_fields found,if_neg (by decide),if_pos rfl]
  simp only [parseRelationship,bind,Option.bind]
  cases (ParseFloat.parse (unquote strength) : Option F) with
  | none => rfl
  | some x =>
      simp only
      split <;> rfl

-- What is counted of a mark in five fields is missed in the texts that give the first
-- five of more.
theorem not_as_written {c : Char} {src tgt description keywords strength : Text} {more : List Text} (held : c ∈ delimiter) (kept : keeps c = true)
    (told : ∀ text : Text, c ∈ text → (ParseFloat.parse text : Option F) = none) (some_ : more ≠ []) (x : F) :
    ¬ AsWritten delimiter (src :: tgt :: description :: keywords :: strength :: more)
      (⟨unquote src,unquote tgt,unquote description,unquote keywords,x⟩ : RelationDraft F) := by
  rintro ⟨src',tgt',description',keywords',strength',same,one,two,three,four,read⟩
  have counts := congrArg (List.countP (· == c)) same
  rw [countP_joinWith,countP_joinWith] at counts
  simp only [List.map_cons,List.map_nil,List.sum_cons,List.sum_nil,List.length_cons,List.length_nil] at counts
  change List.count c src' + (List.count c tgt' + (List.count c description' + (List.count c keywords' + (List.count c strength' + 0)))) +
    (0 + 1 + 1 + 1 + 1) * List.count c delimiter = _ at counts
  rw [←count_unquote kept src',←count_unquote kept tgt',←count_unquote kept description',←count_unquote kept keywords',one,two,three,four,
    count_unquote kept,count_unquote kept,count_unquote kept,count_unquote kept] at counts
  change _ = List.count c src + (List.count c tgt + (List.count c description + (List.count c keywords + (List.count c strength + _)))) +
    (more.length + 1 + 1 + 1 + 1) * List.count c delimiter at counts
  have inside : c ∉ unquote strength' := fun inside => by
    rw [told _ inside] at read
    cases read
  have none_ := List.count_eq_zero.mpr inside
  rw [count_unquote kept] at none_
  have marked := List.count_pos_iff.mpr held
  have longer := List.length_pos_iff.mpr some_
  simp only [Nat.add_mul] at counts
  have again := Nat.le_mul_of_pos_left (List.count c delimiter) longer
  omega

theorem clean_kept {record : Text} (clean : Clean F cfg record) : Kept cfg record (readRecord cfg record : Outcome F) := by
  constructor
  · intro name type_ first more found some_ named
    obtain ⟨default_,bare⟩ := clean.entity found some_ named
    rw [readRecord_more found some_ named,(@rejoined_kept cfg.tupleDelimiter _ _ some_ (default_ ▸ delimiter_kept)).mpr ⟨default_,bare⟩]
  · intro fields found many
    match fields,many with
    | src :: tgt :: description :: keywords :: strength :: surplus :: more,_ =>
        rw [readRecord_five found]
        rcases clean.relation found (List.cons_ne_nil _ _) with number | ends
        · rw [number]
          exact .inl rfl
        · cases (ParseFloat.parse (unquote strength) : Option F) with
          | none => exact .inl rfl
          | some x => exact .inl (if_pos ends)

theorem kept_clean {record : Text} (marking : Marking F cfg.tupleDelimiter) (kept : Kept cfg record (readRecord cfg record : Outcome F)) : Clean F cfg record := by
  constructor
  · intro name type_ first more found some_ named
    have outcome := kept.entity found some_ named
    rw [readRecord_more found some_ named] at outcome
    exact (rejoined_kept some_ marking.kept).mp (congrArg EntityDraft.description (Outcome.entity.inj outcome))
  · intro src tgt description keywords strength more found some_
    have outcome := kept.relation found (by
      have longer := List.length_pos_iff.mpr some_
      simp only [List.length_cons]
      omega)
    rw [readRecord_five found] at outcome
    cases number : (ParseFloat.parse (unquote strength) : Option F) with
    | none => exact .inl rfl
    | some x =>
        refine .inr (Decidable.of_not_not fun named => ?_)
        simp only [number,if_neg named] at outcome
        rcases outcome with outcome | ⟨draft,outcome,written⟩
        · cases outcome
        · obtain ⟨c,held,told⟩ := marking.told
          cases outcome
          exact not_as_written held (marking.kept c held) told some_ x written

-- The stream gives what each of its records gives, and a record is kept where it is
-- clean, and nowhere else if its delimiter can be told from numbers, spaces and quotes.
theorem surplus_kept (cfg : TupleConfig) (raw : Text) :
    let records := splitAround cfg.recordDelimiter ((before cfg.completionDelimiter raw).getD raw)
    let outcomes := records.map (readRecord (F:=F) cfg)
    parseTupleStream raw cfg = (outcomes.filterMap Outcome.draftedEntity,outcomes.filterMap Outcome.draftedRelation,
      ⟨(before cfg.completionDelimiter raw).isSome,outcomes.countP Outcome.isMalformed⟩) ∧
      ∀ record ∈ records, (Clean F cfg record → Kept cfg record (readRecord cfg record : Outcome F)) ∧
        (Marking F cfg.tupleDelimiter → (Kept cfg record (readRecord cfg record : Outcome F) ↔ Clean F cfg record)) :=
  ⟨parseTupleStream_records raw cfg,fun _ _ => ⟨clean_kept,fun marking => ⟨kept_clean marking,clean_kept⟩⟩⟩

end Fields

def barRecord : Text := ['(','e','n','t','i','t','y','|','A','|','t','|','a','|','b',')']
def barConfig : TupleConfig := ⟨['|'],['#','#'],defaultCompletionDelimiter⟩

def plainRecord : Text := parenthesised [quotedKind entityKind,['A'],['t'],['a','<','|','>','b']]
def inQuotesRecord : Text := parenthesised [quotedKind entityKind,['A'],['t'],['"','a','<','|','>','b','"']]
def sixFieldsRecord : Text := parenthesised [quotedKind relationshipKind,['A'],['B'],['m','e','t'],['a','t'],['5'],['7']]

theorem surplus_kept_alice : Kept .default plainRecord (readRecord .default plainRecord : Outcome Digit) := by
  have found : recordFields .default plainRecord = some (entityKind,[['A'],['t'],['a'],['b']]) := by decide
  have clean : Clean Digit .default plainRecord := by
    constructor
    · intro name type_ first more again _ _
      rw [found] at again
      cases again
      decide
    · intro src tgt description keywords strength more again
      rw [found] at again
      cases again
  exact ((surplus_kept .default plainRecord).2 plainRecord (by decide)).1 clean

theorem digit_marks (text : Text) (held : '<' ∈ text) : (ParseFloat.parse text : Option Digit) = none := by
  match text,held with
  | [c],held =>
      cases List.mem_singleton.mp held
      rfl
  | [],held => cases held
  | c :: d :: rest,_ => rfl

-- The bar of a configuration becomes the default delimiter, a description with the
-- delimiter stays in its quotes, and a sixth field shifts the keywords and the strength.
theorem surplus_lost :
    (parseTupleStream barRecord barConfig : Stream Digit) = ([⟨['A'],['t'],['a','<','|','>','b']⟩],[],⟨false,0⟩) ∧
      ¬ Kept barConfig barRecord (readRecord barConfig barRecord : Outcome Digit) ∧
      (parseTupleStream inQuotesRecord .default : Stream Digit) = ([⟨['A'],['t'],['"','a','<','|','>','b','"']⟩],[],⟨false,0⟩) ∧
      ¬ Kept .default inQuotesRecord (readRecord .default inQuotesRecord : Outcome Digit) ∧
      (parseTupleStream sixFieldsRecord .default : Stream Digit) = ([],[⟨['A'],['B'],['m','e','t'],['a','t'],⟨5⟩⟩],⟨false,0⟩) ∧
      ¬ Kept .default sixFieldsRecord (readRecord .default sixFieldsRecord : Outcome Digit) := by
  refine ⟨by decide,fun kept => ?_,by decide,fun kept => ?_,by decide,fun kept => ?_⟩
  · have fields : recordFields barConfig barRecord = some (entityKind,['A'] :: ['t'] :: ['a'] :: [['b']]) := by decide
    exact absurd (kept.entity fields (by decide) (by decide)) (by decide)
  · have fields : recordFields .default inQuotesRecord = some (entityKind,['A'] :: ['t'] :: ['"','a'] :: [['b','"']]) := by decide
    exact absurd (kept.entity fields (by decide) (by decide)) (by decide)
  · have fields : recordFields .default sixFieldsRecord = some (relationshipKind,[['A'],['B'],['m','e','t'],['a','t'],['5'],['7']]) := by decide
    have outcome : (readRecord .default sixFieldsRecord : Outcome Digit) = .relation ⟨['A'],['B'],['m','e','t'],['a','t'],⟨5⟩⟩ := by decide
    have read := kept.relation fields (by decide)
    rw [outcome] at read
    rcases read with read | ⟨draft,read,written⟩
    · cases read
    · cases read
      exact not_as_written (c:= '<') (by decide) (by decide) digit_marks (List.cons_ne_nil _ _) ⟨5⟩ written

end Extract
