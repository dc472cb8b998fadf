import Mathlib.Algebra.Group.Nat.Defs
import Mathlib.Data.List.Basic

namespace Foundation

abbrev Bytes := List UInt8

-- Little-endian words of a fixed width. The width is a byte count; digits past
-- it are dropped, as a cast to the machine word would drop them.
def leBytes : Nat → Nat → Bytes
  | 0,_ => []
  | width+1,n => UInt8.ofNat n :: leBytes width (n / 256)

def ofLeBytes : Bytes → Nat
  | [] => 0
  | b :: rest => b.toNat + 256 * ofLeBytes rest

@[simp] theorem leBytes_length (width n : Nat) : (leBytes width n).length = width := by
  induction width generalizing n with
  | zero => rfl
  | succ width ih => simp [leBytes,ih]

theorem ofLeBytes_leBytes (width n : Nat) : ofLeBytes (leBytes width n) = n % 256 ^ width := by
  induction width generalizing n with
  | zero => simp [leBytes,ofLeBytes,Nat.mod_one]
  | succ width ih =>
    have digit : (UInt8.ofNat n).toNat = n % 256 := by simp
    rw [leBytes,ofLeBytes,ih,digit,Nat.pow_succ,Nat.mul_comm (256 ^ width),Nat.mod_mul]

theorem word_roundtrip (small : n < 256 ^ width) : ofLeBytes (leBytes width n) = n := by
  rw [ofLeBytes_leBytes,Nat.mod_eq_of_lt small]

theorem leBytes_injective (left : m < 256 ^ width) (right : n < 256 ^ width)
    (same : leBytes width m = leBytes width n) : m = n := by
  have decoded := congrArg ofLeBytes same
  rwa [word_roundtrip left,word_roundtrip right] at decoded

-- A table of equal-sized records, laid end to end and cut again at the same size.
def records (size : Nat) : Nat → Bytes → List Bytes
  | 0,_ => []
  | count+1,bytes => bytes.take size :: records size count (bytes.drop size)

theorem records_flatten (rows : List Bytes) (suffix : Bytes)
    (sized : ∀ row ∈ rows, row.length = size) :
    records size rows.length (rows.flatten ++ suffix) = rows := by
  induction rows with
  | nil => rfl
  | cons row rest ih =>
    have head : row.length = size := sized row (List.mem_cons_self)
    have tail : ∀ other ∈ rest, other.length = size :=
      fun other member => sized other (List.mem_cons_of_mem _ member)
    simp only [List.length_cons,records,List.flatten_cons,List.append_assoc]
    rw [List.take_left' head,List.drop_left' head,ih tail]

theorem flatten_length (rows : List Bytes) (sized : ∀ row ∈ rows, row.length = size) :
    rows.flatten.length = rows.length * size := by
  induction rows with
  | nil => simp
  | cons row rest ih =>
    have tail := ih (fun other member => sized other (List.mem_cons_of_mem _ member))
    rw [List.flatten_cons,List.length_append,tail,sized row List.mem_cons_self,List.length_cons]
    rw [Nat.succ_mul,Nat.add_comm]

theorem records_length (size count : Nat) (bytes : Bytes) : (records size count bytes).length = count := by
  induction count generalizing bytes with
  | zero => rfl
  | succ count ih => simp [records,ih]

end Foundation
