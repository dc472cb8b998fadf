import GeloLightrag.Extract.Parser
import Mathlib.Data.Bool.AllAny

namespace Extract
open Foundation

def numerals : List Char := ['-','.','0','1','2','3','4','5','6','7','8','9']

-- What `{}` writes of a finite number is made of digits, and is read back as it.
class DisplayFloat (F : Type) extends ParseFloat F where
  display : F → Text
  finite : F → Prop
  plain : ∀ x, finite x → ∀ c ∈ display x, c ∈ numerals
  parse_display : ∀ x, finite x → parse (display x) = some x

section Trimming
variable {text : Text}

-- A text that neither starts nor ends with white space.
def Trimmed (text : Text) : Prop := (∀ c, text.head? = some c → isWhitespace c = false) ∧ ∀ c, text.getLast? = some c → isWhitespace c = false

theorem dropWhile_head {l : Text} (first : ∀ c, l.head? = some c → isWhitespace c = false) : l.dropWhile isWhitespace = l := by
  cases l with
  | nil => rfl
  | cons c rest => rw [List.dropWhile_cons_of_neg (by rw [first c rfl]; exact Bool.false_ne_true)]

theorem trim_trimmed (trimmed : Trimmed text) : text.trim = text := by
  unfold Text.trim
  rw [dropWhile_head trimmed.1,dropWhile_head (fun c last => trimmed.2 c (by rwa [List.head?_reverse] at last)),List.reverse_reverse]

theorem head_dropWhile_not (l : Text) (c : Char) (first : (l.dropWhile isWhitespace).head? = some c) : isWhitespace c = false := by
  induction l with
  | nil => cases first
  | cons d rest ih =>
      cases spaced : isWhitespace d with
      | true => rw [List.dropWhile_cons_of_pos spaced] at first; exact ih first
      | false =>
          rw [List.dropWhile_cons_of_neg (by rw [spaced]; exact Bool.false_ne_true)] at first
          cases first
          exact spaced

theorem trimmed_trim (text : Text) : Trimmed text.trim := by
  refine ⟨fun c first => ?_,fun c last => ?_⟩
  · unfold Text.trim at first
    rw [List.head?_reverse] at first
    -- the last of what is left of the reversed text is the first of the front-trimmed one
    have suffix_ := List.dropWhile_suffix (p:=isWhitespace) (l:=(text.dropWhile isWhitespace).reverse)
    obtain ⟨front,whole⟩ := suffix_
    have head : (text.dropWhile isWhitespace).head? = some c := by
      rw [←List.getLast?_reverse,←whole,List.getLast?_append,first]
      rfl
    exact head_dropWhile_not text c head
  · unfold Text.trim at last
    rw [List.getLast?_reverse] at last
    exact head_dropWhile_not _ c last

theorem trim_trim (text : Text) : Text.trim text.trim = text.trim := trim_trimmed (trimmed_trim text)

theorem unquote_plain (trimmed : text.trim = text) (bare : wrapped text = false) : unquote text = text := by
  unfold unquote
  simp only [trimmed,bare,Bool.false_eq_true,if_false]

theorem trim_blank (blank : ∀ c ∈ text, isWhitespace c = true) : text.trim = [] := by
  unfold Text.trim
  rw [List.dropWhile_eq_nil_iff.mpr blank]
  rfl

end Trimming

-- A draft as a model writes it, or a record of white space only.
inductive Item (F : Type) where
  | entity (draft : EntityDraft)
  | relation (draft : RelationDraft F)
  | blank (space : Text)

section Rendering
variable {F : Type} [DisplayFloat F]

def quotedKind (kind : Text) : Text := '"' :: kind ++ ['"']

def parenthesised (fields : List Text) : Text := '(' :: joinWith defaultTupleDelimiter fields ++ [')']

-- The formats that the prompt asks for.
def Item.render : Item F → Text
  | .entity draft => parenthesised [quotedKind entityKind,draft.name,draft.entityType,draft.description]
  | .relation draft =>
    parenthesised [quotedKind relationshipKind,draft.src,draft.tgt,draft.description,draft.keywords,DisplayFloat.display draft.strength]
  | .blank space => space

-- A field that its record can be told from: trimmed, not in quotes of its own, and
-- without the delimiters around the record.
structure PlainField (text : Text) : Prop where
  trimmed : text.trim = text
  bare : wrapped text = false
  oneRecord : ¬ defaultRecordDelimiter <:+: text
  going : ¬ defaultCompletionDelimiter <:+: text

def Undivided (text : Text) : Prop := ¬ defaultTupleDelimiter <:+: text

def Item.Valid : Item F → Prop
  | .entity draft => PlainField draft.name ∧ PlainField draft.entityType ∧ PlainField draft.description ∧ Undivided draft.name ∧
    Undivided draft.entityType ∧ draft.name ≠ []
  | .relation draft => PlainField draft.src ∧ PlainField draft.tgt ∧ PlainField draft.description ∧ PlainField draft.keywords ∧
    Undivided draft.src ∧ Undivided draft.tgt ∧ Undivided draft.description ∧ Undivided draft.keywords ∧ draft.src ≠ [] ∧ draft.tgt ≠ [] ∧
    DisplayFloat.finite draft.strength
  | .blank space => ∀ c ∈ space, isWhitespace c = true

def Item.outcome : Item F → Outcome F
  | .entity draft => .entity draft
  | .relation draft => .relation draft
  | .blank _ => .blank

section Delimiting
variable {pattern : Text}

omit [DisplayFloat F] in
theorem free_of_chars {text : Text} {good : Char → Prop} (all : ∀ c ∈ text, good c) (held : d ∈ pattern) (bad : ¬ good d) : ¬ pattern <:+: text :=
  fun inside => bad (all d (inside.subset held))

-- What the delimiters around a record have that the marks inside it do not.
structure Outer (pattern : Text) : Prop where
  opens : '<' ∉ pattern.tail
  closes : '>' ∉ pattern.dropLast
  parens : '(' ∉ pattern.dropLast ∧ ')' ∉ pattern.tail
  marks : ¬ pattern <:+: defaultTupleDelimiter ∧ ¬ pattern <:+: ['('] ∧ ¬ pattern <:+: [')']

theorem free_joinWith {fields : List Text} (outer : Outer pattern) (free : ∀ field ∈ fields, ¬ pattern <:+: field) :
    ¬ pattern <:+: joinWith defaultTupleDelimiter fields := by
  induction fields with
  | nil => exact fun inside => outer.marks.2.1 (inside.trans (List.nil_infix))
  | cons field rest ih =>
      have later := ih fun other member => free other (List.mem_cons_of_mem _ member)
      cases rest with
      | nil => exact free field List.mem_cons_self
      | cons next rest =>
          rw [joinWith_cons (List.cons_ne_nil _ _)]
          exact not_across_head (by rfl) outer.opens (free field List.mem_cons_self) (not_across_last (by rfl) outer.closes outer.marks.1 later)

theorem free_parenthesised {fields : List Text} (outer : Outer pattern) (free : ∀ field ∈ fields, ¬ pattern <:+: field) :
    ¬ pattern <:+: parenthesised fields := by
  have inner := free_joinWith outer free
  have closed : ¬ pattern <:+: joinWith defaultTupleDelimiter fields ++ [')'] := not_across_head rfl outer.parens.2 inner outer.marks.2.2
  exact not_across_last (a:=['(']) rfl outer.parens.1 outer.marks.2.1 closed

theorem record_outer : Outer defaultRecordDelimiter := ⟨by decide,by decide,by decide,by decide⟩
theorem completion_outer : Outer defaultCompletionDelimiter := ⟨by decide,by decide,by decide,by decide⟩

end Delimiting

theorem wrapped_bare {text : Text} (bare : ∀ c, text.head? = some c → ∀ pair ∈ quotes, c ≠ pair.1) : wrapped text = false := by
  unfold wrapped
  rw [Bool.and_eq_false_iff]
  refine .inr (List.any_eq_false.mpr fun pair member both => ?_)
  rw [Bool.and_eq_true,beq_iff_eq] at both
  exact bare pair.1 both.1 pair member rfl

theorem display_plain {x : F} (finite : DisplayFloat.finite x) : PlainField (DisplayFloat.display x) ∧ Undivided (DisplayFloat.display x) := by
  have marks := DisplayFloat.plain x finite
  have visible : ∀ c ∈ numerals, isWhitespace c = false := List.all_iff_forall_prop.mp (by decide)
  have told : ∀ c ∈ numerals, (quotes.all fun pair => c ≠ pair.1) = true := List.all_iff_forall_prop.mp (by decide)
  have bare : ∀ c ∈ numerals, ∀ pair ∈ quotes, c ≠ pair.1 := fun c numeral => List.all_iff_forall_prop.mp (told c numeral)
  refine ⟨⟨trim_trimmed ⟨fun c first => visible c (marks c (List.mem_of_mem_head? first)),fun c last => visible c (marks c (List.mem_of_getLast? last))⟩,
    wrapped_bare fun c first => bare c (marks c (List.mem_of_mem_head? first)),free_of_chars marks List.mem_cons_self (by decide),
    free_of_chars marks List.mem_cons_self (by decide)⟩,free_of_chars marks List.mem_cons_self (by decide)⟩

omit [DisplayFloat F] in
theorem tuple_apart {text : Text} (undivided : Undivided text) : Apart defaultTupleDelimiter text := .of_unbordered undivided (by decide)

theorem stripOuterParens_parenthesised (fields : List Text) :
    Text.trim (parenthesised fields) = parenthesised fields ∧ stripOuterParens (parenthesised fields) = some (joinWith defaultTupleDelimiter fields) := by
  have last : (parenthesised fields).getLast? = some ')' := by
    unfold parenthesised
    rw [List.getLast?_append_of_ne_nil _ (List.cons_ne_nil _ _)]
    rfl
  have trimmed : Text.trim (parenthesised fields) = parenthesised fields := by
    refine trim_trimmed ⟨fun c first => ?_,fun c final => ?_⟩
    · cases first
      decide
    · rw [last] at final
      cases final
      decide
  have wide : ¬ Text.size (parenthesised fields) < 2 := by
    unfold parenthesised
    rw [Text.size_append,Text.size_cons]
    have open_ : '('.utf8Size = 1 := rfl
    have close : Text.size [')'] = 1 := rfl
    omega
  have inner : (parenthesised fields).tail.dropLast = joinWith defaultTupleDelimiter fields := by
    unfold parenthesised
    rw [List.cons_append,List.tail_cons,List.dropLast_concat]
  refine ⟨trimmed,?_⟩
  unfold stripOuterParens
  simp only [trimmed,last]
  rw [if_neg (by simp [parenthesised]),if_neg wide,inner]

section Reading

theorem tuple_nonempty : defaultTupleDelimiter ≠ [] := List.cons_ne_nil _ _

-- The fields of a written record, of which the last may be in pieces.
theorem readRecord_written (kind : Text) (parts : List Text) (last : Text) (free : Undivided (quotedKind kind)) (undivided : ∀ part ∈ parts, Undivided part) :
    (readRecord .default (parenthesised (quotedKind kind :: parts ++ [last])) : Outcome F) =
      if unquote (Text.trim (quotedKind kind)) = entityKind then (parseEntity (parts ++ splitAround defaultTupleDelimiter last)).elim .malformed .entity
      else if unquote (Text.trim (quotedKind kind)) = relationshipKind then
        (parseRelationship (parts ++ splitAround defaultTupleDelimiter last)).elim .malformed .relation
      else .malformed := by
  obtain ⟨trimmed,stripped⟩ := stripOuterParens_parenthesised (quotedKind kind :: parts ++ [last])
  have split : splitAround defaultTupleDelimiter (joinWith defaultTupleDelimiter (quotedKind kind :: parts ++ [last])) =
      quotedKind kind :: (parts ++ splitAround defaultTupleDelimiter last) := by
    rw [splitAround_joinWith tuple_nonempty]
    · rfl
    · intro part member
      rcases List.mem_cons.mp member with rfl | member
      · exact tuple_apart free
      · exact tuple_apart (undivided part member)
  unfold readRecord
  simp only [trimmed,stripped]
  rw [if_neg (by simp [parenthesised])]
  simp only [TupleConfig.default,split]

theorem parseEntity_written {draft : EntityDraft} (name : PlainField draft.name) (type_ : PlainField draft.entityType) (description : PlainField draft.description)
    (named : draft.name ≠ []) : parseEntity ([draft.name,draft.entityType] ++ splitAround defaultTupleDelimiter draft.description) = some draft := by
  have whole := joinWith_splitAround tuple_nonempty draft.description
  obtain ⟨first,more,split⟩ := List.exists_cons_of_ne_nil (splitAround_nonempty defaultTupleDelimiter draft.description)
  rw [split] at whole ⊢
  simp only [List.cons_append,List.nil_append,parseEntity]
  rw [unquote_plain name.trimmed name.bare,unquote_plain type_.trimmed type_.bare,if_neg named]
  split
  · rename_i none_
    subst none_
    cases whole
    rw [unquote_plain description.trimmed description.bare]
  · rw [whole,description.trimmed]

theorem readRecord_render (item : Item F) (valid : item.Valid) : readRecord .default item.render = item.outcome := by
  cases item with
  | entity draft =>
      obtain ⟨name,type_,description,whole,whole',named⟩ := valid
      have read := readRecord_written (F:=F) entityKind [draft.name,draft.entityType] draft.description
        (by unfold Undivided; decide) fun part member => by
          simp only [List.mem_cons,List.not_mem_nil,or_false] at member
          rcases member with rfl | rfl <;> assumption
      refine read.trans ?_
      rw [if_pos (by decide),parseEntity_written name type_ description named]
      rfl
  | relation draft =>
      obtain ⟨src,tgt,description,keywords,one,two,three,four,starts,ends,finite⟩ := valid
      obtain ⟨number,five⟩ := display_plain finite
      have read := readRecord_written (F:=F) relationshipKind [draft.src,draft.tgt,draft.description,draft.keywords]
        (DisplayFloat.display draft.strength) (by unfold Undivided; decide) fun part member => by
          simp only [List.mem_cons,List.not_mem_nil,or_false] at member
          rcases member with rfl | rfl | rfl | rfl <;> assumption
      refine read.trans ?_
      rw [if_neg (by decide),if_pos (by decide),splitAround_free tuple_nonempty five]
      simp only [List.cons_append,List.nil_append,parseRelationship,unquote_plain src.trimmed src.bare,unquote_plain tgt.trimmed tgt.bare,
        unquote_plain description.trimmed description.bare,unquote_plain keywords.trimmed keywords.bare,unquote_plain number.trimmed number.bare,
        DisplayFloat.parse_display _ finite,bind,Option.bind,starts,ends,or_self,if_false]
      rfl
  | blank space =>
      unfold readRecord Item.render
      rw [trim_blank valid]
      rfl

end Reading

-- The delimiters around records do not occur in one.
theorem render_free {pattern : Text} (outer : Outer pattern) (item : Item F) (valid : item.Valid)
    (free : ∀ field, PlainField field → ¬ pattern <:+: field) (kinds : ¬ pattern <:+: quotedKind entityKind ∧ ¬ pattern <:+: quotedKind relationshipKind)
    (visible : ∃ c ∈ pattern, isWhitespace c = false) : ¬ pattern <:+: item.render := by
  cases item with
  | entity draft =>
      obtain ⟨name,type_,description,-⟩ := valid
      refine free_parenthesised outer fun field member => ?_
      simp only [List.mem_cons,List.not_mem_nil,or_false] at member
      rcases member with rfl | rfl | rfl | rfl
      · exact kinds.1
      · exact free _ name
      · exact free _ type_
      · exact free _ description
  | relation draft =>
      obtain ⟨src,tgt,description,keywords,-,-,-,-,-,-,finite⟩ := valid
      refine free_parenthesised outer fun field member => ?_
      simp only [List.mem_cons,List.not_mem_nil,or_false] at member
      rcases member with rfl | rfl | rfl | rfl | rfl | rfl
      · exact kinds.2
      · exact free _ src
      · exact free _ tgt
      · exact free _ description
      · exact free _ keywords
      · exact free _ (display_plain finite).1
  | blank space =>
      obtain ⟨c,held,shown⟩ := visible
      exact free_of_chars valid held (by rw [shown]; exact Bool.false_ne_true)

theorem render_record_free (item : Item F) (valid : item.Valid) : ¬ defaultRecordDelimiter <:+: item.render :=
  render_free record_outer item valid (fun _ plain => plain.oneRecord) (by decide) ⟨'#',by decide,by decide⟩

theorem render_completion_free (item : Item F) (valid : item.Valid) : ¬ defaultCompletionDelimiter <:+: item.render :=
  render_free completion_outer item valid (fun _ plain => plain.going) (by decide) ⟨'<',by decide,by decide⟩

-- A record ends in a parenthesis or in white space, so that no mark after it starts in it.
theorem render_apart (item : Item F) (valid : item.Valid) : Apart defaultRecordDelimiter item.render := by
  refine .of_last (render_record_free item valid) fun c last => ?_
  have marks : ∀ d ∈ defaultRecordDelimiter.dropLast, d ≠ ')' ∧ isWhitespace d = false := List.all_iff_forall_prop.mp (by decide)
  intro held
  cases item with
  | entity draft =>
      unfold Item.render parenthesised at last
      rw [List.getLast?_append_of_ne_nil _ (List.cons_ne_nil _ _)] at last
      cases last
      exact (marks _ held).1 rfl
  | relation draft =>
      unfold Item.render parenthesised at last
      rw [List.getLast?_append_of_ne_nil _ (List.cons_ne_nil _ _)] at last
      cases last
      exact (marks _ held).1 rfl
  | blank space =>
      have spaced := valid c (List.mem_of_getLast? last)
      rw [(marks c held).2] at spaced
      cases spaced

theorem completion_nonempty : defaultCompletionDelimiter ≠ [] := List.cons_ne_nil _ _

theorem stream_free (items : List (Item F)) (valid : ∀ item ∈ items, item.Valid) :
    ¬ defaultCompletionDelimiter <:+: joinWith defaultRecordDelimiter (items.map Item.render) := by
  induction items with
  | nil => exact fun inside => absurd (List.infix_nil.mp inside) completion_nonempty
  | cons item rest ih =>
      have first := render_completion_free item (valid item List.mem_cons_self)
      have later := ih fun other member => valid other (List.mem_cons_of_mem _ member)
      cases rest with
      | nil => exact first
      | cons next rest =>
          rw [List.map_cons,joinWith_cons (by simp)]
          exact not_across_head (c:= '#') (by rfl) (by decide) first (not_across_last (c:= '#') (by rfl) (by decide) (by decide) later)

-- The records of the stream are those written, or one without text where none is.
theorem split_stream (items : List (Item F)) (valid : ∀ item ∈ items, item.Valid) :
    splitAround defaultRecordDelimiter (joinWith defaultRecordDelimiter (items.map Item.render)) = if items = [] then [[]] else items.map Item.render := by
  have some_ : defaultRecordDelimiter ≠ [] := List.cons_ne_nil _ _
  rcases List.eq_nil_or_concat items with rfl | ⟨front,last,rfl⟩
  · rfl
  · rw [List.concat_eq_append] at valid ⊢
    rw [if_neg (by simp),List.map_append,List.map_singleton,splitAround_joinWith some_ fun part member => ?_,
      splitAround_free some_ (render_record_free last (valid last (by simp)))]
    obtain ⟨item,held,rfl⟩ := List.mem_map.mp member
    exact render_apart item (valid item (List.mem_append_left _ held))

-- The drafts that the items stand for.
def Item.asEntity : Item F → Option EntityDraft
  | .entity draft => some draft
  | _ => none

def Item.asRelation : Item F → Option (RelationDraft F)
  | .relation draft => some draft
  | _ => none

omit [DisplayFloat F] in
theorem outcomes_of (items : List (Item F)) :
    (items.map Item.outcome).filterMap Outcome.draftedEntity = items.filterMap Item.asEntity ∧
      (items.map Item.outcome).filterMap Outcome.draftedRelation = items.filterMap Item.asRelation ∧
        (items.map Item.outcome).countP Outcome.isMalformed = 0 := by
  refine ⟨?_,?_,?_⟩
  · rw [List.filterMap_map]
    exact List.filterMap_congr fun item _ => by cases item <;> rfl
  · rw [List.filterMap_map]
    exact List.filterMap_congr fun item _ => by cases item <;> rfl
  · rw [List.countP_eq_zero]
    intro outcome member
    obtain ⟨item,_,rfl⟩ := List.mem_map.mp member
    cases item <;> exact Bool.false_ne_true

-- What is written in the prompt's formats is read back as it was, whatever follows.
theorem written_is_read (items : List (Item F)) (valid : ∀ item ∈ items, item.Valid) (after : Text) :
    parseTupleStream (joinWith defaultRecordDelimiter (items.map Item.render) ++ (defaultCompletionDelimiter ++ after)) .default =
      (items.filterMap Item.asEntity,items.filterMap Item.asRelation,⟨true,0⟩) := by
  have found : before TupleConfig.default.completionDelimiter _ = _ :=
    before_apart completion_nonempty (Apart.of_unbordered (stream_free items valid) (by decide)) after
  have read : (splitAround TupleConfig.default.recordDelimiter (joinWith defaultRecordDelimiter (items.map Item.render))).map (readRecord (F:=F) .default) =
      if items = [] then [.blank] else items.map Item.outcome := by
    show (splitAround defaultRecordDelimiter _).map _ = _
    rw [split_stream items valid]
    split
    · rfl
    · rw [List.map_map]
      exact List.map_congr_left fun item member => readRecord_render item (valid item member)
  obtain ⟨entities,relations,none_⟩ := outcomes_of items
  rw [parseTupleStream_records]
  simp only [found,Option.getD_some,Option.isSome_some,read]
  split
  · rename_i empty
    subst empty
    rfl
  · rw [entities,relations,none_]

end Rendering

-- Strengths of one digit.
structure Digit where
  value : Fin 10
deriving DecidableEq

def Digit.ofChar : Char → Option Digit
  | '0' => some ⟨0⟩ | '1' => some ⟨1⟩ | '2' => some ⟨2⟩ | '3' => some ⟨3⟩ | '4' => some ⟨4⟩
  | '5' => some ⟨5⟩ | '6' => some ⟨6⟩ | '7' => some ⟨7⟩ | '8' => some ⟨8⟩ | '9' => some ⟨9⟩
  | _ => none

instance : DisplayFloat Digit where
  parse
    | [c] => Digit.ofChar c
    | _ => none
  display x := [Char.ofNat (48 + x.value.val)]
  finite _ := True
  plain x _ := by
    obtain ⟨value⟩ := x
    refine List.all_iff_forall_prop.mp ?_
    revert value
    decide
  parse_display x _ := by
    obtain ⟨value⟩ := x
    revert value
    decide

def writtenItems : List (Item Digit) :=
  [.entity ⟨['A','l','i','c','e'],['p','e','r','s','o','n'],['m','e','t','<','|','>','B','o','b']⟩,.blank [' '],
    .relation ⟨['A','l','i','c','e'],['B','o','b'],['m','e','t'],['m','e','e','t','i','n','g'],⟨7⟩⟩]

theorem written_is_read_alice :
    (∀ item ∈ writtenItems, item.Valid) ∧
      parseTupleStream (joinWith defaultRecordDelimiter (writtenItems.map Item.render) ++ (defaultCompletionDelimiter ++ ['b','y','e'])) .default =
        (writtenItems.filterMap Item.asEntity,writtenItems.filterMap Item.asRelation,⟨true,0⟩) := by
  have valid : ∀ item ∈ writtenItems, item.Valid := by
    intro item member
    simp only [writtenItems,List.mem_cons,List.not_mem_nil,or_false] at member
    rcases member with rfl | rfl | rfl
    · refine ⟨⟨?_,?_,?_,?_⟩,⟨?_,?_,?_,?_⟩,⟨?_,?_,?_,?_⟩,?_,?_,?_⟩ <;> first | decide | (unfold Undivided; decide)
    · exact List.all_iff_forall_prop.mp (by decide)
    · refine ⟨⟨?_,?_,?_,?_⟩,⟨?_,?_,?_,?_⟩,⟨?_,?_,?_,?_⟩,⟨?_,?_,?_,?_⟩,?_,?_,?_,?_,?_,?_,trivial⟩ <;> first | decide | (unfold Undivided; decide)
  exact ⟨valid,written_is_read writtenItems valid ['b','y','e']⟩

end Extract
