import Mathlib.Algebra.Order.Field.Basic

namespace Foundation

-- Numbers as floating point has them: infinities, and one value that is no number.
inductive Ieee (K : Type) where
  | finite (x : K)
  | infinite (negative : Bool)
  | nan
deriving DecidableEq

-- What an exact result is rounded to, which may be an infinity.
class Rounding (K : Type) where
  round : K → Ieee K

namespace Ieee
variable {K : Type}

def IsFinite : Ieee K → Prop
  | finite _ => True
  | _ => False

instance : DecidablePred (IsFinite (K:=K))
  | finite _ => .isTrue trivial
  | infinite _ => .isFalse id
  | nan => .isFalse id

theorem isFinite_iff {x : Ieee K} : x.IsFinite ↔ ∃ y, x = finite y := by
  cases x with
  | finite y => exact iff_of_true trivial ⟨y,rfl⟩
  | infinite s => exact iff_of_false id nofun
  | nan => exact iff_of_false id nofun

section
variable [Field K] [LinearOrder K] [Rounding K]

instance : Zero (Ieee K) := ⟨finite 0⟩

def neg : Ieee K → Ieee K
  | finite x => finite (-x)
  | infinite s => infinite (!s)
  | nan => nan

def add : Ieee K → Ieee K → Ieee K
  | finite x,finite y => Rounding.round (x + y)
  | finite _,infinite t => infinite t
  | infinite s,finite _ => infinite s
  | infinite s,infinite t => if s = t then infinite s else nan
  | nan,_ => nan
  | _,nan => nan

def sub (x y : Ieee K) : Ieee K := add x (neg y)

-- An infinity times zero is no number.
def scaled (s : Bool) (y : K) : Ieee K := if y = 0 then nan else infinite (s ^^ decide (y < 0))

def mul : Ieee K → Ieee K → Ieee K
  | finite x,finite y => Rounding.round (x * y)
  | finite x,infinite t => scaled t x
  | infinite s,finite y => scaled s y
  | infinite s,infinite t => infinite (s ^^ t)
  | nan,_ => nan
  | _,nan => nan

def abs : Ieee K → Ieee K
  | finite x => finite |x|
  | infinite _ => infinite false
  | nan => nan

-- Below: nothing is below or above what is no number.
def lt : Ieee K → Ieee K → Bool
  | finite x,finite y => decide (x < y)
  | finite _,infinite t => !t
  | infinite s,finite _ => s
  | infinite s,infinite t => s && !t
  | nan,_ => false
  | _,nan => false

-- The greater, and of a number and none the number.
def max (x y : Ieee K) : Ieee K :=
  match x,y with
  | nan,y => y
  | x,nan => x
  | x,y => if lt x y then y else x

variable {x y : Ieee K}

-- Whatever an operation is given that is not finite, its result is not.
theorem add_finite (whole : (add x y).IsFinite) : x.IsFinite ∧ y.IsFinite := by
  cases x with
  | finite a =>
      cases y with
      | finite b => exact ⟨trivial,trivial⟩
      | infinite t => exact whole.elim
      | nan => exact whole.elim
  | infinite s =>
      cases y with
      | finite b => exact whole.elim
      | infinite t =>
          have met : add (infinite s) (infinite t) = (if s = t then infinite s else nan : Ieee K) := rfl
          rw [met] at whole
          by_cases same : s = t
          · rw [if_pos same] at whole
            exact whole.elim
          · rw [if_neg same] at whole
            exact whole.elim
      | nan => exact whole.elim
  | nan => exact whole.elim

omit [Rounding K] in
theorem scaled_infinite (s : Bool) (y : K) : ¬ (scaled s y).IsFinite := by
  unfold scaled
  split <;> exact id

theorem mul_finite (whole : (mul x y).IsFinite) : x.IsFinite ∧ y.IsFinite := by
  cases x with
  | finite a =>
      cases y with
      | finite b => exact ⟨trivial,trivial⟩
      | infinite t => exact absurd whole (scaled_infinite t a)
      | nan => exact whole.elim
  | infinite s =>
      cases y with
      | finite b => exact absurd whole (scaled_infinite s b)
      | infinite t => exact whole.elim
      | nan => exact whole.elim
  | nan => exact whole.elim

omit [LinearOrder K] [Rounding K] in
@[simp] theorem neg_finite : (neg x).IsFinite ↔ x.IsFinite := by cases x <;> exact Iff.rfl

omit [Rounding K] in
@[simp] theorem abs_finite : (abs x).IsFinite ↔ x.IsFinite := by cases x <;> exact Iff.rfl

omit [Rounding K] in
@[simp] theorem max_top (x : Ieee K) : max (infinite false) x = infinite false := by cases x <;> rfl

omit [Rounding K] in
@[simp] theorem top_max (x : Ieee K) : max x (infinite false) = infinite false := by
  cases x with
  | finite x => rfl
  | infinite s => cases s <;> rfl
  | nan => rfl

-- A number made no less than a finite one is not taken below by the infinity.
theorem add_top (x : Ieee K) (c : K) : add (max x (finite c)) (infinite false) = infinite false := by
  cases x with
  | finite x =>
      have greater : max (finite x) (finite c) = (if lt (finite x) (finite c) = true then finite c else finite x : Ieee K) := rfl
      rw [greater]
      split <;> rfl
  | infinite s => cases s <;> rfl
  | nan => rfl

-- A difference of anything else than two finite numbers is no number, or infinite as one of
-- the two.
theorem abs_sub_cases (unbounded : ¬ (x.IsFinite ∧ y.IsFinite)) :
    abs (sub x y) = nan ∨ (abs (sub x y) = infinite false ∧ (abs x = infinite false ∨ abs y = infinite false)) := by
  cases x with
  | finite a =>
      cases y with
      | finite b => exact absurd ⟨trivial,trivial⟩ unbounded
      | infinite t => exact .inr ⟨rfl,.inr rfl⟩
      | nan => exact .inl rfl
  | infinite s =>
      cases y with
      | finite b => exact .inr ⟨rfl,.inl rfl⟩
      | infinite t =>
          have met : sub (infinite s) (infinite t) = (if s = !t then infinite s else nan : Ieee K) := rfl
          rw [met]
          by_cases same : s = !t
          · rw [if_pos same]
            exact .inr ⟨rfl,.inl rfl⟩
          · rw [if_neg same]
            exact .inl rfl
      | nan => exact .inl rfl
  | nan => exact .inl rfl

omit [Rounding K] in
theorem lt_nan (x : Ieee K) : lt x nan = false := by cases x <;> rfl

-- Nothing is above the infinity.
omit [Rounding K] in
theorem lt_top (x : Ieee K) : lt (infinite false) x = false := by
  cases x <;> rfl

end
end Ieee

-- Sums in some order of the additions.
structure Summation (K : Type) where
  sum : List (Ieee K) → Ieee K
  spoiled : ∀ l, (sum l).IsFinite → ∀ x ∈ l, x.IsFinite

namespace Summation
variable {K : Type} [Field K] [LinearOrder K] [Rounding K]

def leftToRight : Summation K := by
  refine ⟨fun l => l.foldl Ieee.add 0,fun l whole => ?_⟩
  have each : ∀ (l : List (Ieee K)) start, (l.foldl Ieee.add start).IsFinite → start.IsFinite ∧ ∀ x ∈ l, x.IsFinite := by
    intro l
    induction l with
    | nil => exact fun start whole => ⟨whole,fun _ member => absurd member List.not_mem_nil⟩
    | cons x rest ih =>
        intro start whole
        obtain ⟨first,later⟩ := ih _ whole
        exact ⟨(Ieee.add_finite first).1,fun y member => (List.mem_cons.mp member).elim (fun same => same ▸ (Ieee.add_finite first).2) (later y)⟩
  exact (each l 0 whole).2

end Summation
end Foundation
