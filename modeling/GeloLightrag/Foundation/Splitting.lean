import Mathlib.Algebra.GroupWithZero.Nat
import Mathlib.Data.List.Basic

namespace Foundation
variable {α : Type} [DecidableEq α]

-- A text is cut at the occurrences of a pattern, found from the left and apart from
-- each other. The first argument counts what is left of an occurrence.
def splitGo (pattern : List α) : Nat → List α → List (List α)
  | _,[] => [[]]
  | skip+1,_ :: rest => splitGo pattern skip rest
  | 0,c :: rest =>
    if pattern.isPrefixOf (c :: rest) then [] :: splitGo pattern (pattern.length - 1) rest
    else (splitGo pattern 0 rest).modifyHead (c :: ·)

-- `text.split(pattern)`. The empty pattern occurs around every character.
def splitAround (pattern text : List α) : List (List α) :=
  if pattern = [] then [] :: (text.map fun c => [c]) ++ [[]] else splitGo pattern 0 text

-- `&text[..text.find(pattern)?]`
def before (pattern : List α) : List α → Option (List α)
  | [] => if pattern = [] then some [] else none
  | c :: rest => if pattern.isPrefixOf (c :: rest) then some [] else (before pattern rest).map (c :: ·)

-- `parts.join(separator)`
def joinWith (separator : List α) : List (List α) → List α
  | [] => []
  | [part] => part
  | part :: next :: rest => part ++ (separator ++ joinWith separator (next :: rest))

omit [DecidableEq α] in
theorem joinWith_cons {separator part : List α} {rest : List (List α)} (more : rest ≠ []) :
    joinWith separator (part :: rest) = part ++ (separator ++ joinWith separator rest) := by
  cases rest with
  | nil => exact absurd rfl more
  | cons next rest => rfl

-- No occurrence of the pattern starts in a text that the pattern follows.
def Apart (pattern text : List α) : Prop := ∀ front back, text = front ++ back → back ≠ [] → ¬ pattern <+: back ++ pattern

section Cutting
variable {pattern text rest : List α} {c : α}

omit [DecidableEq α] in
theorem Apart.tail (apart : Apart pattern (c :: text)) : Apart pattern text :=
  fun front back whole some_ => apart (c :: front) back (by rw [whole]; rfl) some_

omit [DecidableEq α] in
theorem Apart.here (apart : Apart pattern (c :: text)) (rest : List α) : ¬ pattern <+: c :: (text ++ (pattern ++ rest)) := by
  intro starts
  have whole : c :: (text ++ (pattern ++ rest)) = c :: text ++ pattern ++ rest := by simp
  rw [whole] at starts
  refine apart [] (c :: text) rfl (List.cons_ne_nil _ _) (List.prefix_of_prefix_length_le starts (List.prefix_append _ rest) ?_)
  rw [List.length_append]
  exact Nat.le_add_left _ _

theorem splitGo_drop (pattern : List α) (skip : Nat) (text : List α) : splitGo pattern skip text = splitGo pattern 0 (text.drop skip) := by
  induction skip generalizing text with
  | zero => rfl
  | succ skip ih =>
      cases text with
      | nil => simp [splitGo]
      | cons c rest => exact ih rest

theorem splitGo_nonempty (pattern : List α) (skip : Nat) (text : List α) : splitGo pattern skip text ≠ [] := by
  induction text generalizing skip with
  | nil => cases skip <;> exact List.cons_ne_nil _ _
  | cons c rest ih =>
      cases skip with
      | succ skip => exact ih skip
      | zero =>
          unfold splitGo
          split
          · exact List.cons_ne_nil _ _
          · cases found : splitGo pattern 0 rest with
            | nil => exact absurd found (ih 0)
            | cons part parts => exact List.cons_ne_nil _ _

theorem splitAround_nonempty (pattern text : List α) : splitAround pattern text ≠ [] := by
  unfold splitAround
  split
  · exact List.cons_ne_nil _ _
  · exact splitGo_nonempty pattern 0 text

variable (some_ : pattern ≠ [])
include some_

theorem splitAround_pattern (rest : List α) : splitAround pattern (pattern ++ rest) = [] :: splitAround pattern rest := by
  unfold splitAround
  rw [if_neg some_,if_neg some_]
  cases pattern with
  | nil => exact absurd rfl some_
  | cons c tail =>
      have starts : (c :: tail).isPrefixOf (c :: (tail ++ rest)) = true := List.isPrefixOf_iff_prefix.mpr (List.prefix_append (c :: tail) rest)
      rw [List.cons_append,splitGo,if_pos starts,splitGo_drop]
      simp

theorem splitAround_cons (not : ¬ pattern <+: c :: rest) : splitAround pattern (c :: rest) = (splitAround pattern rest).modifyHead (c :: ·) := by
  unfold splitAround
  rw [if_neg some_,if_neg some_,splitGo,if_neg fun starts => not (List.isPrefixOf_iff_prefix.mp starts)]

-- A text is cut off where the pattern follows it, unless an occurrence begins before.
theorem splitAround_apart (apart : Apart pattern text) (rest : List α) :
    splitAround pattern (text ++ (pattern ++ rest)) = text :: splitAround pattern rest := by
  induction text with
  | nil => exact splitAround_pattern some_ rest
  | cons c text ih =>
      show splitAround pattern (c :: (text ++ (pattern ++ rest))) = _
      rw [splitAround_cons some_ (apart.here rest),ih apart.tail]
      rfl

theorem splitAround_free (free : ¬ pattern <:+: text) : splitAround pattern text = [text] := by
  induction text with
  | nil =>
      unfold splitAround
      rw [if_neg some_]
      rfl
  | cons c text ih =>
      rw [splitAround_cons some_ fun starts => free starts.isInfix,ih fun inside => free (inside.trans (List.suffix_cons c text).isInfix)]
      rfl

theorem splitAround_joinWith {parts : List (List α)} {last : List α} (apart : ∀ part ∈ parts, Apart pattern part) :
    splitAround pattern (joinWith pattern (parts ++ [last])) = parts ++ splitAround pattern last := by
  induction parts with
  | nil => rfl
  | cons part parts ih =>
      rw [List.cons_append,joinWith_cons (by simp),splitAround_apart some_ (apart part List.mem_cons_self),
        ih fun other member => apart other (List.mem_cons_of_mem _ member)]
      rfl

theorem joinWith_splitAround (text : List α) : joinWith pattern (splitAround pattern text) = text := by
  unfold splitAround
  rw [if_neg some_]
  suffices all : ∀ skip text, joinWith pattern (splitGo pattern skip text) = text.drop skip from all 0 text
  intro skip text
  induction text generalizing skip with
  | nil => cases skip <;> rfl
  | cons c rest ih =>
      cases skip with
      | succ skip => exact ih skip
      | zero =>
          unfold splitGo
          split
          · rename_i starts
            obtain ⟨tail,whole⟩ := List.isPrefixOf_iff_prefix.mp starts
            rw [joinWith_cons (splitGo_nonempty _ _ _),ih]
            cases pattern with
            | nil => exact absurd rfl some_
            | cons d more =>
                cases whole
                simp
          · have later := ih 0
            cases found : splitGo pattern 0 rest with
            | nil => exact absurd found (splitGo_nonempty _ _ _)
            | cons part parts =>
                rw [found] at later
                cases parts with
                | nil =>
                    show c :: part = c :: rest
                    exact congrArg (c :: ·) later
                | cons next parts =>
                    show c :: part ++ (pattern ++ joinWith pattern (next :: parts)) = c :: rest
                    exact congrArg (c :: ·) later

theorem before_apart (apart : Apart pattern text) (rest : List α) : before pattern (text ++ (pattern ++ rest)) = some text := by
  induction text with
  | nil =>
      cases pattern with
      | nil => exact absurd rfl some_
      | cons c tail =>
          have starts : (c :: tail).isPrefixOf (c :: (tail ++ rest)) = true := List.isPrefixOf_iff_prefix.mpr (List.prefix_append (c :: tail) rest)
          rw [List.nil_append,List.cons_append,before,if_pos starts]
  | cons c text ih =>
      show before pattern (c :: (text ++ (pattern ++ rest))) = _
      rw [before,if_neg fun starts => apart.here rest (List.isPrefixOf_iff_prefix.mp starts),ih apart.tail]
      rfl

end Cutting

section Joining
variable {a b : List α}

omit [DecidableEq α]

theorem filter_joinWith (keep : α → Bool) (separator : List α) (parts : List (List α)) :
    (joinWith separator parts).filter keep = joinWith (separator.filter keep) (parts.map (List.filter keep)) := by
  induction parts with
  | nil => rfl
  | cons part rest ih =>
      cases rest with
      | nil => rfl
      | cons next rest =>
          rw [joinWith_cons (List.cons_ne_nil next rest),List.filter_append,List.filter_append,ih]
          rfl

theorem countP_joinWith (good : α → Bool) (separator part : List α) (rest : List (List α)) :
    (joinWith separator (part :: rest)).countP good = part.countP good + (rest.map (List.countP good)).sum + rest.length * separator.countP good := by
  induction rest generalizing part with
  | nil => simp [joinWith]
  | cons next rest ih =>
      rw [joinWith_cons (List.cons_ne_nil _ _),List.countP_append,List.countP_append,ih next,List.map_cons,List.sum_cons,List.length_cons,Nat.succ_mul]
      omega

-- The text tells the separator once it is in it.
theorem separator_of_join {part : List α} {rest : List (List α)} (more : rest ≠ []) (same : joinWith a (part :: rest) = joinWith b (part :: rest)) : a = b := by
  have lengths := congrArg (List.countP fun _ => true) same
  rw [countP_joinWith,countP_joinWith,List.countP_true] at lengths
  have wide : a.length = b.length := Nat.eq_of_mul_eq_mul_left (List.length_pos_iff.mpr more) (by omega)
  rw [joinWith_cons more,joinWith_cons more,List.append_cancel_left_eq] at same
  exact (List.append_inj same wide).1

end Joining

section Occurrences
variable {pattern a b : List α} {c : α}

omit [DecidableEq α]

-- An occurrence in one text followed by another is in one of them, or across.
theorem not_infix_append (first : ¬ pattern <:+: a) (second : ¬ pattern <:+: b)
    (across : ∀ u v, pattern = u ++ v → u ≠ [] → v ≠ [] → u <:+ a → ¬ v <+: b) : ¬ pattern <:+: a ++ b := by
  intro inside
  rcases List.infix_append_iff_ne_nil.mp inside with inside | inside | ⟨u,v,some_,more,whole,ends,starts⟩
  · exact first inside
  · exact second inside
  · exact across u v whole some_ more ends starts

-- None is across where the second text starts with what the pattern has at most at its
-- start, or the first ends with what it has at most at its end.
theorem not_across_head (starts : b.head? = some c) (tail : c ∉ pattern.tail) (first : ¬ pattern <:+: a) (second : ¬ pattern <:+: b) :
    ¬ pattern <:+: a ++ b := by
  refine not_infix_append first second fun u v whole some_ more _ prefix_ => tail ?_
  obtain ⟨d,v,rfl⟩ := List.exists_cons_of_ne_nil more
  obtain ⟨e,u,rfl⟩ := List.exists_cons_of_ne_nil some_
  obtain ⟨rest,rfl⟩ := prefix_
  cases starts
  rw [whole]
  exact List.mem_append_right _ List.mem_cons_self

theorem not_across_last (ends : a.getLast? = some c) (front : c ∉ pattern.dropLast) (first : ¬ pattern <:+: a) (second : ¬ pattern <:+: b) :
    ¬ pattern <:+: a ++ b := by
  refine not_infix_append first second fun u v whole some_ more suffix_ _ => front ?_
  have last : u.getLast? = some c := by
    obtain ⟨rest,rfl⟩ := suffix_
    rwa [List.getLast?_append_of_ne_nil _ some_] at ends
  rw [whole,List.dropLast_append_of_ne_nil more]
  exact List.mem_append_left _ (List.mem_of_getLast? last)

-- A text without the pattern that ends as the pattern does not start, or a pattern that
-- does not start as it ends.
theorem Apart.of_free (free : ¬ pattern <:+: a) (loose : ∀ u v, pattern = u ++ v → u ≠ [] → v ≠ [] → u <:+ a → ¬ v <+: pattern) : Apart pattern a := by
  rintro front back rfl some_ starts
  rcases List.prefix_or_prefix_of_prefix starts (List.prefix_append back pattern) with inside | ⟨v,whole⟩
  · exact free (inside.isInfix.trans (List.suffix_append front back).isInfix)
  · rw [←whole] at starts
    have again := (List.prefix_append_right_inj back).mp starts
    rw [whole] at again
    have more : v ≠ [] := by
      rintro rfl
      rw [List.append_nil] at whole
      exact free (whole ▸ (List.suffix_append front back).isInfix)
    exact loose back v whole.symm some_ more (List.suffix_append front back) again

-- Nothing that the pattern starts with ends it.
theorem Apart.of_unbordered (free : ¬ pattern <:+: a) (unbordered : ∀ k < pattern.length, 0 < k → ¬ pattern.drop k <+: pattern) : Apart pattern a := by
  refine .of_free free fun u v whole some_ more _ starts => ?_
  have length := congrArg List.length whole
  rw [List.length_append] at length
  have some_ := List.length_pos_iff.mpr some_
  have more := List.length_pos_iff.mpr more
  refine unbordered u.length (by omega) some_ ?_
  rw [whole] at starts ⊢
  rwa [List.drop_left]

theorem Apart.of_last (free : ¬ pattern <:+: a) (ends : ∀ c, a.getLast? = some c → c ∉ pattern.dropLast) : Apart pattern a := by
  refine .of_free free fun u v whole some_ more suffix_ _ => ?_
  obtain ⟨rest,rfl⟩ := suffix_
  obtain ⟨c,last⟩ := Option.isSome_iff_exists.mp (List.getLast?_isSome.mpr some_)
  refine ends c (by rw [List.getLast?_append_of_ne_nil _ some_,last]) ?_
  rw [whole,List.dropLast_append_of_ne_nil more]
  exact List.mem_append_left _ (List.mem_of_getLast? last)

end Occurrences

section Replacing
variable {pattern put a b : List α} {c : α}

-- `text.replace(pattern, to)`
def replaceAll (pattern put text : List α) : List α := joinWith put (splitAround pattern text)

theorem splitAround_occurs (some_ : pattern ≠ []) (inside : pattern <:+: a) : 2 ≤ (splitAround pattern a).length := by
  induction a with
  | nil => exact absurd (List.infix_nil.mp inside) some_
  | cons c rest ih =>
      by_cases starts : pattern <+: c :: rest
      · obtain ⟨later,whole⟩ := starts
        rw [←whole,splitAround_pattern some_,List.length_cons]
        have more := List.length_pos_iff.mpr (splitAround_nonempty pattern later)
        omega
      · rw [splitAround_cons some_ starts,List.length_modifyHead]
        exact ih ((List.infix_cons_iff.mp inside).resolve_left starts)

theorem replaceAll_self (some_ : pattern ≠ []) (text : List α) : replaceAll pattern pattern text = text := joinWith_splitAround some_ text

theorem replaceAll_free (some_ : pattern ≠ []) (free : ¬ pattern <:+: a) : replaceAll pattern put a = a := by
  rw [replaceAll,splitAround_free some_ free]
  rfl

theorem replaceAll_pattern (some_ : pattern ≠ []) (rest : List α) : replaceAll pattern put (pattern ++ rest) = put ++ replaceAll pattern put rest := by
  rw [replaceAll,splitAround_pattern some_,joinWith_cons (splitAround_nonempty pattern rest)]
  rfl

theorem replaceAll_cons (some_ : pattern ≠ []) (not : ¬ pattern <+: c :: a) : replaceAll pattern put (c :: a) = c :: replaceAll pattern put a := by
  rw [replaceAll,splitAround_cons some_ not,replaceAll]
  cases found : splitAround pattern a with
  | nil => exact absurd found (splitAround_nonempty pattern a)
  | cons part parts =>
      cases parts with
      | nil => rfl
      | cons next parts =>
          show joinWith put ((c :: part) :: next :: parts) = _
          rw [joinWith_cons (List.cons_ne_nil next parts),joinWith_cons (List.cons_ne_nil next parts)]
          rfl

-- What begins in one text ends in it.
def Contained (pattern a b : List α) : Prop := ∀ front back, a = front ++ back → back ≠ [] → pattern <+: back ++ b → pattern <+: back

theorem replaceAll_append (some_ : pattern ≠ []) (contained : Contained pattern a b) :
    replaceAll pattern put (a ++ b) = replaceAll pattern put a ++ replaceAll pattern put b := by
  induction size : a.length using Nat.strongRecOn generalizing a with
  | _ n ih =>
      cases a with
      | nil =>
          rw [replaceAll_free (a:=[]) some_ fun inside => some_ (List.infix_nil.mp inside)]
          rfl
      | cons c rest =>
          by_cases starts : pattern <+: c :: rest
          · obtain ⟨later,whole⟩ := starts
            have shorter : later.length < n := by
              have lengths := congrArg List.length whole
              have wide := List.length_pos_iff.mpr some_
              rw [List.length_append] at lengths
              omega
            have inner : Contained pattern later b := fun front back split => contained (pattern ++ front) back (by rw [←whole,split,List.append_assoc])
            rw [←whole,List.append_assoc,replaceAll_pattern some_,replaceAll_pattern some_,ih _ shorter inner rfl,List.append_assoc]
          · have inner : Contained pattern rest b := fun front back split => contained (c :: front) back (by rw [split]; rfl)
            have neither : ¬ pattern <+: c :: (rest ++ b) := fun here => starts (contained [] (c :: rest) rfl (List.cons_ne_nil c rest) here)
            have shorter : rest.length < n := by
              rw [←size]
              exact Nat.lt_succ_self _
            rw [List.cons_append,replaceAll_cons some_ neither,replaceAll_cons some_ starts,ih _ shorter inner rfl]
            rfl

omit [DecidableEq α] in
theorem Contained.of_absent (head : pattern.head? = some c) (absent : c ∉ a) : Contained pattern a b := by
  rintro front back rfl some_ starts
  obtain ⟨d,back,rfl⟩ := List.exists_cons_of_ne_nil some_
  obtain ⟨rest,whole⟩ := starts
  have first := congrArg List.head? whole
  rw [List.head?_append,head] at first
  cases first
  exact absurd (List.mem_append_right front List.mem_cons_self) absent

omit [DecidableEq α] in
theorem Contained.of_head (head : b.head? = some c) (absent : c ∉ pattern) : Contained pattern a b := by
  rintro front back rfl some_ starts
  rcases List.prefix_or_prefix_of_prefix starts (List.prefix_append back b) with inside | ⟨v,rfl⟩
  · exact inside
  · obtain ⟨rest,rfl⟩ := (List.prefix_append_right_inj back).mp starts
    cases v with
    | nil =>
        exact (List.append_nil back).symm ▸ List.prefix_rfl
    | cons d v =>
        cases head
        exact absurd (List.mem_append_right back List.mem_cons_self) absent

omit [DecidableEq α] in
theorem Contained.of_unbordered (unbordered : ∀ k < pattern.length, 0 < k → ¬ pattern.drop k <+: pattern) : Contained pattern a (pattern ++ b) := by
  rintro front back rfl some_ starts
  rcases List.prefix_or_prefix_of_prefix starts (List.prefix_append back (pattern ++ b)) with inside | ⟨v,whole⟩
  · exact inside
  · cases v with
    | nil =>
        exact whole ▸ (List.append_nil back).symm ▸ List.prefix_rfl
    | cons d v =>
        rw [←whole] at starts
        have later := (List.prefix_append_right_inj back).mp starts
        rw [whole] at later
        have lengths := congrArg List.length whole
        rw [List.length_append,List.length_cons] at lengths
        have short : d :: v <+: pattern := List.prefix_of_prefix_length_le later (List.prefix_append pattern b) (by rw [List.length_cons]; omega)
        refine absurd ?_ (unbordered back.length (by omega) (List.length_pos_iff.mpr some_))
        rwa [←whole,List.drop_left,whole]

-- A replacement that leaves the text as it was found nothing, or put back what it found.
theorem replaceAll_unchanged_iff (some_ : pattern ≠ []) (text : List α) : replaceAll pattern put text = text ↔ ¬ pattern <:+: text ∨ put = pattern := by
  constructor
  · intro same
    by_contra neither
    obtain ⟨inside,other⟩ := not_or.mp neither
    have whole := joinWith_splitAround some_ text
    cases parts : splitAround pattern text with
    | nil => exact splitAround_nonempty pattern text parts
    | cons part rest =>
        rw [parts] at whole
        rw [replaceAll,parts] at same
        have more : rest ≠ [] := by
          rintro rfl
          have several := splitAround_occurs some_ (not_not.mp inside)
          rw [parts,List.length_singleton] at several
          omega
        exact other (separator_of_join more (same.trans whole.symm))
  · rintro (free | rfl)
    · exact replaceAll_free some_ free
    · exact replaceAll_self some_ text

end Replacing
end Foundation
