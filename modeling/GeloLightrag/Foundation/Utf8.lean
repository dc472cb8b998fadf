import Mathlib.Algebra.BigOperators.Group.List.Basic
import Mathlib.Algebra.GroupWithZero.Nat
import Mathlib.Data.List.TakeWhile

namespace Foundation

-- A text is its characters; offsets into it count the bytes of its UTF-8 form.
abbrev Text := List Char

def Text.size (text : Text) : Nat := (text.map Char.utf8Size).sum

-- The two halves of a text at an offset that falls between characters.
def Text.cutAt : Text → Nat → Option (Text × Text)
  | text,0 => some ([],text)
  | [],_+1 => none
  | c :: rest,n+1 => if c.utf8Size ≤ n+1 then (Text.cutAt rest (n+1 - c.utf8Size)).map fun halves => (c :: halves.1,halves.2) else none

def Text.isCharBoundary (text : Text) (i : Nat) : Bool := (text.cutAt i).isSome

-- `&text[from..]` and `&text[from..to]`.
def Text.sliceFrom (text : Text) (start : Nat) : Except String Text :=
  ((text.cutAt start).map Prod.snd).elim (.error "byte index is not a char boundary") .ok

def Text.slice (text : Text) (start stop : Nat) : Except String Text :=
  (((text.cutAt stop).bind fun halves => halves.1.cutAt start).map Prod.snd).elim (.error "byte index is not a char boundary") .ok

-- The offset of the last occurrence of a pattern.
def Text.rfind (pattern : Text) : Text → Option Nat
  | [] => if pattern = [] then some 0 else none
  | c :: rest =>
    match Text.rfind pattern rest with
    | some i => some (c.utf8Size + i)
    | none => if pattern.isPrefixOf (c :: rest) then some 0 else none

-- The characters with the White_Space property.
def isWhitespace (c : Char) : Bool :=
  (9 ≤ c.toNat && c.toNat ≤ 13) || (0x2000 ≤ c.toNat && c.toNat ≤ 0x200A) ||
    [0x20,0x85,0xA0,0x1680,0x2028,0x2029,0x202F,0x205F,0x3000].contains c.toNat

def Text.trim (text : Text) : Text := ((text.dropWhile isWhitespace).reverse.dropWhile isWhitespace).reverse

namespace Text

@[simp] theorem size_nil : size [] = 0 := rfl
@[simp] theorem size_cons (c : Char) (rest : Text) : size (c :: rest) = c.utf8Size + size rest := rfl
@[simp] theorem size_append (a b : Text) : size (a ++ b) = size a + size b := by simp [size]
@[simp] theorem size_replicate (n : Nat) (c : Char) : size (List.replicate n c) = n * c.utf8Size := by simp [size]

theorem size_pos (nonempty : text ≠ []) : 0 < size text := by
  cases text with
  | nil => exact absurd rfl nonempty
  | cons c rest => exact Nat.add_pos_left c.utf8Size_pos _

theorem cutAt_append (first second : Text) : cutAt (first ++ second) (size first) = some (first,second) := by
  induction first with
  | nil => cases second <;> rfl
  | cons c rest ih =>
      obtain ⟨n,positive⟩ := Nat.exists_eq_add_one.mpr (size_pos (List.cons_ne_nil c rest))
      have split : n+1 - c.utf8Size = size rest := by rw [←positive,size_cons]; omega
      rw [positive,List.cons_append,cutAt,if_pos (by rw [←positive,size_cons]; omega),split,ih]
      rfl

theorem cutAt_some (cut : cutAt text n = some (first,second)) : text = first ++ second ∧ size first = n := by
  induction text,n using cutAt.induct generalizing first second with
  | case1 text => rw [cutAt] at cut; cases cut; exact ⟨rfl,rfl⟩
  | case2 n => cases cut
  | case3 c rest n fits ih =>
      rw [cutAt,if_pos fits] at cut
      obtain ⟨⟨before,after⟩,found,is⟩ := Option.map_eq_some_iff.mp cut
      cases is
      obtain ⟨whole,length⟩ := ih found
      exact ⟨by rw [whole]; rfl,by rw [size_cons,length]; omega⟩
  | case4 c rest n narrow => rw [cutAt,if_neg narrow] at cut; cases cut

theorem isCharBoundary_iff : isCharBoundary text i = true ↔ ∃ first second, text = first ++ second ∧ size first = i := by
  rw [isCharBoundary,Option.isSome_iff_exists]
  constructor
  · rintro ⟨⟨first,second⟩,cut⟩
    exact ⟨first,second,cutAt_some cut⟩
  · rintro ⟨first,second,rfl,rfl⟩
    exact ⟨_,cutAt_append first second⟩

theorem boundary_zero (text : Text) : isCharBoundary text 0 = true := isCharBoundary_iff.mpr ⟨[],text,rfl,rfl⟩
theorem boundary_size (text : Text) : isCharBoundary text (size text) = true :=
  isCharBoundary_iff.mpr ⟨text,[],(List.append_nil _).symm,rfl⟩

theorem boundary_le (boundary : isCharBoundary text i = true) : i ≤ size text := by
  obtain ⟨first,second,rfl,rfl⟩ := isCharBoundary_iff.mp boundary
  rw [size_append]
  exact Nat.le_add_right _ _

theorem boundary_near (inside : i ≤ size text) : ∃ j, isCharBoundary text j = true ∧ j ≤ i ∧ i < j + 4 := by
  induction text generalizing i with
  | nil => exact ⟨0,boundary_zero [],Nat.zero_le _,by rw [size_nil] at inside; omega⟩
  | cons c rest ih =>
      by_cases before : i < c.utf8Size
      · exact ⟨0,boundary_zero _,Nat.zero_le _,by have := c.utf8Size_le_four; omega⟩
      · rw [size_cons] at inside
        obtain ⟨j,boundary,low,near⟩ := ih (i:=i - c.utf8Size) (by omega)
        obtain ⟨first,second,rfl,rfl⟩ := isCharBoundary_iff.mp boundary
        exact ⟨c.utf8Size + size first,isCharBoundary_iff.mpr ⟨c :: first,second,rfl,rfl⟩,by omega,by omega⟩

-- The halves of a text are told by the size of the first.
theorem append_inj {first first' second second' : Text} (whole : first ++ second = first' ++ second')
    (same : size first = size first') : first = first' ∧ second = second' := by
  have cut := cutAt_append first' second'
  rw [←whole,←same,cutAt_append] at cut
  exact Prod.mk.inj (Option.some.inj cut)

-- A text cut at two of its boundaries.
theorem cut_twice (low : isCharBoundary text a = true) (high : isCharBoundary text b = true) (ordered : a ≤ b) :
    ∃ first middle last, text = first ++ (middle ++ last) ∧ size first = a ∧ size first + size middle = b := by
  obtain ⟨first,second,rfl,rfl⟩ := isCharBoundary_iff.mp low
  obtain ⟨first',second',whole,rfl⟩ := isCharBoundary_iff.mp high
  rcases List.append_eq_append_iff.mp whole with ⟨middle,rfl,rfl⟩ | ⟨middle,rfl,rfl⟩
  · exact ⟨first,middle,second',rfl,rfl,(size_append _ _).symm⟩
  · have short : size middle = 0 := by rw [size_append] at ordered; omega
    have none : middle = [] := by
      by_contra nonempty
      exact absurd (size_pos nonempty) (by omega)
    subst none
    exact ⟨first',[],second,by simp,by simp,by simp⟩

theorem sliceFrom_append (first second : Text) : sliceFrom (first ++ second) (size first) = .ok second := by
  rw [sliceFrom,cutAt_append]
  rfl

theorem slice_append (first middle last : Text) :
    slice (first ++ (middle ++ last)) (size first) (size first + size middle) = .ok middle := by
  have outer : cutAt (first ++ (middle ++ last)) (size first + size middle) = some (first ++ middle,last) := by
    rw [←size_append,←List.append_assoc]
    exact cutAt_append _ _
  rw [slice,outer,Option.bind_some,cutAt_append]
  rfl

theorem boundary_within (first middle last : Text) (boundary : isCharBoundary middle j = true) :
    isCharBoundary (first ++ (middle ++ last)) (size first + j) = true := by
  obtain ⟨before,after,rfl,rfl⟩ := isCharBoundary_iff.mp boundary
  exact isCharBoundary_iff.mpr ⟨first ++ before,after ++ last,by simp,size_append _ _⟩

theorem rfind_some (found : rfind pattern text = some i) : ∃ before after, text = before ++ (pattern ++ after) ∧ size before = i := by
  induction text generalizing i with
  | nil =>
      rw [rfind] at found
      split at found
      · rename_i empty
        cases found
        exact ⟨[],[],by simp [empty],rfl⟩
      · cases found
  | cons c rest ih =>
      rw [rfind] at found
      cases later : rfind pattern rest with
      | some j =>
          simp only [later,Option.some.injEq] at found
          obtain ⟨before,after,rfl,rfl⟩ := ih later
          exact ⟨c :: before,after,rfl,found⟩
      | none =>
          simp only [later] at found
          split at found
          · rename_i starts
            cases found
            obtain ⟨after,whole⟩ := List.isPrefixOf_iff_prefix.mp starts
            exact ⟨[],after,whole.symm,rfl⟩
          · cases found

theorem trim_nonempty (present : c ∈ text) (visible : isWhitespace c = false) : trim text ≠ [] := by
  have stops {l : Text} {a : Char} (listed : a ∈ l) (seen : isWhitespace a = false) : l.dropWhile isWhitespace ≠ [] := by
    intro gone
    rw [List.dropWhile_eq_nil_iff.mp gone a listed] at seen
    cases seen
  have head := List.head_dropWhile_not isWhitespace (stops present visible)
  have listed := List.mem_reverse.mpr (List.head_mem (stops present visible))
  exact fun empty => stops listed head (List.reverse_eq_nil_iff.mp empty)

theorem rfind_none (listed : c ∈ pattern) (missing : c ∉ text) : rfind pattern text = none := by
  cases found : rfind pattern text with
  | none => rfl
  | some i =>
      obtain ⟨before,after,rfl,_⟩ := rfind_some found
      simp [listed] at missing

end Text
end Foundation
