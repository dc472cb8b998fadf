import GeloLightrag.Foundation.Bytes
import Mathlib.Data.List.Forall2

namespace Foundation

-- The bytes of a text in ASCII.
def byteOf (c : Char) : UInt8 := UInt8.ofNat c.toNat

def ascii (text : String) : Bytes := text.toList.map byteOf

-- A literal is the list of its characters to the kernel.
theorem ascii_ofList (chars : List Char) : ascii (String.ofList chars) = chars.map byteOf := congrArg (List.map byteOf) String.toList_ofList

def utf8 (text : String) : Bytes := text.toUTF8.data.toList

def newline : UInt8 := 10

-- `{}` of an unsigned integer.
def decimal (n : Nat) : Bytes := (Nat.toDigits 10 n).map byteOf

def hexDigit (d : Nat) : UInt8 := UInt8.ofNat (if d < 10 then 48 + d else 87 + d)

-- `{:0width$x}` of an integer below 16 ^ width.
def hexFixed : Nat → Nat → Bytes
  | 0,_ => []
  | width+1,n => hexFixed width (n / 16) ++ [hexDigit (n % 16)]

theorem charOf_byteOf (c : Char) (digit : c.isDigit = true) : Char.ofNat (byteOf c).toNat = c := by
  have range : 48 ≤ c.toNat ∧ c.toNat ≤ 57 := by
    simp only [Char.isDigit,Bool.and_eq_true,decide_eq_true_eq,ge_iff_le,UInt32.le_iff_toNat_le] at digit
    exact digit
  have small : (byteOf c).toNat = c.toNat := by
    rw [byteOf,UInt8.toNat_ofNat']
    omega
  rw [small]
  exact Char.ofNat_toNat c

theorem decimal_digits (n : Nat) : (decimal n).map (fun b => Char.ofNat b.toNat) = Nat.toDigits 10 n := by
  rw [decimal,List.map_map]
  calc (Nat.toDigits 10 n).map ((fun b => Char.ofNat b.toNat) ∘ byteOf) = (Nat.toDigits 10 n).map fun c => c :=
        List.map_congr_left fun c member => charOf_byteOf c (Nat.isDigit_of_mem_toDigits (by decide) (by decide) member)
    _ = Nat.toDigits 10 n := List.map_id' _

theorem decimal_injective (same : decimal m = decimal n) : m = n := by
  have digits := congrArg (List.map fun b => Char.ofNat b.toNat) same
  rw [decimal_digits,decimal_digits] at digits
  have value := congrArg (fun cs => Nat.ofDigitChars 10 cs 0) digits
  rwa [Nat.ofDigitChars_ten_toDigits,Nat.ofDigitChars_ten_toDigits] at value

theorem decimal_length_pos (n : Nat) : 0 < (decimal n).length := by
  rw [decimal,List.length_map]
  exact Nat.length_toDigits_pos

theorem hexDigit_toNat (small : d < 16) : (hexDigit d).toNat = if d < 10 then 48 + d else 87 + d := by
  rw [hexDigit,UInt8.toNat_ofNat']
  split <;> omega

theorem hexDigit_injective (small : d < 16) (small' : d' < 16) (same : hexDigit d = hexDigit d') : d = d' := by
  have values := congrArg UInt8.toNat same
  rw [hexDigit_toNat small,hexDigit_toNat small'] at values
  split at values <;> split at values <;> omega

@[simp] theorem hexFixed_length (width n : Nat) : (hexFixed width n).length = width := by
  induction width generalizing n with
  | zero => rfl
  | succ width ih => simp [hexFixed,ih]

theorem hexFixed_injective (left : m < 16 ^ width) (right : n < 16 ^ width) (same : hexFixed width m = hexFixed width n) : m = n := by
  induction width generalizing m n with
  | zero => simp at left right; omega
  | succ width ih =>
      obtain ⟨high,low⟩ := List.append_inj same (by simp)
      have digits := hexDigit_injective (Nat.mod_lt m (by decide)) (Nat.mod_lt n (by decide)) (List.cons.inj low).1
      have upper := ih (by rw [Nat.pow_succ] at left; omega) (by rw [Nat.pow_succ] at right; omega) high
      omega

-- A value that a newline ends.
def OneLine (value : Bytes) : Prop := newline ∉ value

theorem decimal_oneLine (n : Nat) : OneLine (decimal n) := by
  intro member
  obtain ⟨c,listed,is⟩ := List.mem_map.mp member
  have digit := charOf_byteOf c (Nat.isDigit_of_mem_toDigits (by decide) (by decide) listed)
  rw [is] at digit
  have isDigit := Nat.isDigit_of_mem_toDigits (by decide) (by decide) listed
  rw [←digit] at isDigit
  exact absurd isDigit (by decide)

theorem hexFixed_oneLine (width n : Nat) : OneLine (hexFixed width n) := by
  induction width generalizing n with
  | zero => exact List.not_mem_nil
  | succ width ih =>
      intro member
      rcases List.mem_append.mp member with earlier | last
      · exact ih _ earlier
      · have values := congrArg UInt8.toNat (List.mem_singleton.mp last)
        rw [hexDigit_toNat (Nat.mod_lt n (by decide))] at values
        have ten : newline.toNat = 10 := rfl
        split at values <;> omega

theorem OneLine.append (first : OneLine a) (second : OneLine b) : OneLine (a ++ b) := fun member =>
  (List.mem_append.mp member).elim first second

theorem OneLine.flatten {parts : List Bytes} (each : ∀ part ∈ parts, OneLine part) : OneLine parts.flatten := by
  intro member
  obtain ⟨part,listed,inside⟩ := List.mem_flatten.mp member
  exact each part listed inside

-- Labelled values, one to a line.
def line (field : Bytes × Bytes) : Bytes := field.1 ++ field.2 ++ [newline]

-- What comes before the first separator is told.
theorem separator_cancel {α : Type} {sep : α} {v v' rest rest' : List α} (here : sep ∉ v) (here' : sep ∉ v')
    (same : v ++ sep :: rest = v' ++ sep :: rest') : v = v' ∧ rest = rest' := by
  induction v generalizing v' with
  | nil =>
      cases v' with
      | nil => exact ⟨rfl,(List.cons.inj same).2⟩
      | cons b tail => exact absurd (List.mem_cons.mpr (.inl (List.cons.inj same).1)) here'
  | cons a tail ih =>
      cases v' with
      | nil => exact absurd (List.mem_cons.mpr (.inl (List.cons.inj same).1.symm)) here
      | cons b tail' =>
          obtain ⟨head,others⟩ := List.cons.inj same
          obtain ⟨equal,last⟩ := ih (fun member => here (List.mem_cons_of_mem _ member))
            (fun member => here' (List.mem_cons_of_mem _ member)) others
          exact ⟨by rw [head,equal],last⟩

-- Fields under the same labels in the same order are told apart by their lines.
theorem lines_injective {fields fields' : List (Bytes × Bytes)} (labels : fields.map Prod.fst = fields'.map Prod.fst)
    (short : ∀ field ∈ fields, OneLine field.2) (short' : ∀ field ∈ fields', OneLine field.2)
    (same : fields.flatMap line = fields'.flatMap line) : fields = fields' := by
  induction fields generalizing fields' with
  | nil => exact (List.map_eq_nil_iff.mp labels.symm).symm
  | cons field rest ih =>
      cases fields' with
      | nil => simp at labels
      | cons field' rest' =>
          simp only [List.map_cons,List.cons.injEq] at labels
          simp only [List.flatMap_cons,line,labels.1,List.append_assoc,List.singleton_append] at same
          obtain ⟨value,others⟩ := separator_cancel (short field List.mem_cons_self) (short' field' List.mem_cons_self)
            (List.append_cancel_left same)
          have tail := ih labels.2 (fun other member => short other (List.mem_cons_of_mem _ member))
            (fun other member => short' other (List.mem_cons_of_mem _ member)) others
          rw [tail,Prod.ext labels.1 value]

end Foundation
