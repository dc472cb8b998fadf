import GeloLightrag.Foundation.Ieee
import GeloLightrag.Foundation.Literals
import GeloLightrag.Gelo.Soundness

set_option linter.unusedSectionVars false

-- U-Verify once more, on numbers that may be infinite or no numbers.
namespace Gelo.NonFinite
open Foundation Ieee
attribute [local instance] forty_atLeastTwo

section Probes
variable {K : Type} [Field K] [LinearOrder K] [Rounding K] [Platform (Ieee K)]

def F32_EPS : Ieee K := finite (((11920929 : Nat) : K) / ((10 ^ 14 : Nat) : K))
def ROUNDOFF_CUSHION : Ieee K := finite 40
def ABS_FLOOR : Ieee K := finite (1 / ((10 ^ 4 : Nat) : K))

def ofNat (n : Nat) : Ieee K := Rounding.round (n : K)
def ofInt (n : Int) : Ieee K := finite (n : K)

def infNorm (m : Array2 (Ieee K)) : Ieee K :=
  (List.range m.nrows).foldl (fun acc i => (List.range m.ncols).foldl (fun acc j => max acc (abs (m.entry i j))) acc) 0

section
variable (order : Summation K)

-- A matrix times a vector.
def dot (a : Array2 (Ieee K)) (v : Nat → Ieee K) (i : Nat) : Ieee K := order.sum ((List.range a.ncols).map fun j => mul (a.entry i j) (v j))

def expected (a b : Array2 (Ieee K)) (r : Nat → Ieee K) : Nat → Ieee K := dot order a (dot order b r)
def observed (z : Array2 (Ieee K)) (r : Nat → Ieee K) : Nat → Ieee K := dot order z r

def difference (a b z : Array2 (Ieee K)) (r : Nat → Ieee K) (i : Nat) : Ieee K := abs (sub (expected order a b r i) (observed order z r i))

def tolerance (a b z : Array2 (Ieee K)) (roundoffBound : Ieee K) (r : Nat → Ieee K) (i : Nat) : Ieee K :=
  let scale := max (max (abs (expected order a b r i)) (abs (observed order z r i))) (finite 1)
  add (max roundoffBound ABS_FLOOR) (mul (finite (1 / ((10 ^ 4 : Nat) : K))) scale)

def probeMismatch (a b z : Array2 (Ieee K)) (roundoffBound : Ieee K) (r : Nat → Ieee K) : Option Nat :=
  (List.range a.nrows).find? fun i => lt (tolerance order a b z roundoffBound r i) (difference order a b z r i)

def probes (a b z : Array2 (Ieee K)) (roundoffBound : Ieee K) : Nat → Nat → ChaCha20Rng → Except String Unit × ChaCha20Rng
  | 0,_,rng => (.ok (),rng)
  | left+1,probeIdx,rng =>
    let (drawn,used) := Platform.probe (Ieee K) b.ncols (rng.words (Ieee K))
    match probeMismatch order a b z roundoffBound fun i => ofInt (drawn i) with
    | some i => (.error s!"U-Verify mismatch (probe {probeIdx} row {i})",rng.advance used)
    | none => probes a b z roundoffBound left (probeIdx+1) (rng.advance used)

def roundoffBound (a b : Array2 (Ieee K)) : Ieee K :=
  mul (mul (mul (mul (mul ROUNDOFF_CUSHION (ofNat (a.ncols + b.ncols))) F32_EPS) (infNorm a)) (infNorm b)) (ofNat PROBE_L)

def verifyOffload (nProbes : Nat) (a b z : Array2 (Ieee K)) (rng : ChaCha20Rng) : Except String Unit × ChaCha20Rng :=
  if nProbes = 0 then (.ok (),rng)
  else if b.nrows ≠ a.ncols then
    (.error s!"U-Verify shape: A is ({a.nrows},{a.ncols}) but B is ({b.nrows},{b.ncols})",rng)
  else if ¬(z.nrows = a.nrows ∧ z.ncols = b.ncols) then
    (.error s!"U-Verify shape: A·B should be ({a.nrows},{b.ncols}) but Z is ({z.nrows},{z.ncols})",rng)
  else probes order a b z (roundoffBound a b) nProbes 0 rng

-- A row that the comparison catches, with two finite values to compare.
def Caught (a b z : Array2 (Ieee K)) (r : Nat → Ieee K) (i : Nat) : Prop :=
  (expected order a b r i).IsFinite ∧ (observed order z r i).IsFinite ∧ lt (tolerance order a b z (roundoffBound a b) r i) (difference order a b z r i) = true

def drawn (p : Nat) (rng : ChaCha20Rng) (n j : Nat) : Ieee K := ofInt (probeDraw (Ieee K) p rng n j)

variable {order} {a b z : Array2 (Ieee K)}

-- Where a value is not finite the difference is no number, or the tolerance is infinite too:
-- the row goes through.
theorem caught_finite [IsStrictOrderedRing K] {bound : Ieee K} {r : Nat → Ieee K} {i : Nat}
    (caught : lt (tolerance order a b z bound r i) (difference order a b z r i) = true) :
    (expected order a b r i).IsFinite ∧ (observed order z r i).IsFinite := by
  by_contra unbounded
  rcases abs_sub_cases unbounded with none_ | ⟨infinite_,one⟩
  · unfold difference at caught
    rw [none_,lt_nan] at caught
    cases caught
  · have positive : (0 : K) < 1 / ((10 ^ 4 : Nat) : K) := by positivity
    have scale : max (max (abs (expected order a b r i)) (abs (observed order z r i))) (finite 1) = infinite false := by
      rcases one with top | top
      · rw [top,max_top,max_top]
      · rw [top,top_max,max_top]
    have slack : mul (finite (1 / ((10 ^ 4 : Nat) : K))) (infinite false) = infinite false := by
      have met : mul (finite (1 / ((10 ^ 4 : Nat) : K))) (infinite false) = Ieee.scaled false (1 / ((10 ^ 4 : Nat) : K)) := rfl
      rw [met,Ieee.scaled,if_neg positive.ne',decide_eq_false (not_lt.mpr positive.le)]
      rfl
    have wide : tolerance order a b z bound r i = infinite false := by
      unfold tolerance
      simp only [scale,slack]
      exact add_top _ _
    rw [wide,lt_top] at caught
    cases caught

-- An entry that is not finite makes its row's value so, whatever the probe.
theorem observed_spoiled {r : Nat → Ieee K} {i j : Nat} (col : j < z.ncols) (spoiled : ¬ (z.entry i j).IsFinite) : ¬ (observed order z r i).IsFinite := by
  intro whole
  have terms := order.spoiled _ whole
  exact spoiled (mul_finite (terms _ (List.mem_map_of_mem (List.mem_range.mpr col)))).1

theorem probes_error (left probeIdx : Nat) (rng : ChaCha20Rng) (bound : Ieee K) :
    (∃ text, (probes order a b z bound left probeIdx rng).1 = .error text) ↔
      ∃ n < left, ∃ i < a.nrows, lt (tolerance order a b z bound (drawn b.ncols rng n) i) (difference order a b z (drawn b.ncols rng n) i) = true := by
  induction left generalizing probeIdx rng with
  | zero =>
      refine iff_of_false ?_ ?_
      · rintro ⟨text,failed⟩
        cases failed
      · rintro ⟨n,inside,_⟩
        exact absurd inside (Nat.not_lt_zero n)
  | succ left ih =>
      have later := ih (probeIdx+1) (rng.advance (Platform.probe (Ieee K) b.ncols (rng.words (Ieee K))).2)
      unfold probes
      have first : (fun i => ofInt ((Platform.probe (Ieee K) b.ncols (rng.words (Ieee K))).1 i) : Nat → Ieee K) = drawn b.ncols rng 0 := rfl
      simp only [first]
      cases met : probeMismatch order a b z bound (drawn b.ncols rng 0) with
      | some i =>
          unfold probeMismatch at met
          have caught := List.find?_some met
          exact iff_of_true ⟨_,rfl⟩ ⟨0,Nat.succ_pos left,i,List.mem_range.mp (List.mem_of_find?_eq_some met),caught⟩
      | none =>
          refine later.trans ⟨?_,?_⟩
          · rintro ⟨n,inside,i,row,caught⟩
            exact ⟨n+1,Nat.succ_lt_succ inside,i,row,caught⟩
          · rintro ⟨n,inside,i,row,caught⟩
            cases n with
            | zero => exact absurd caught (List.find?_eq_none.mp met i (List.mem_range.mpr row))
            | succ n => exact ⟨n,Nat.lt_of_succ_lt_succ inside,i,row,caught⟩

end
end Probes

section Lattice

local instance exactRounding : Rounding ℚ := ⟨finite⟩

-- Probes of ones.
local instance unitPlatform : Platform (Ieee ℚ) :=
  ⟨fun _ _ _ => 0,fun _ _ count => List.replicate count 0,id,id,fun _ _ => (fun _ => 0,0),fun _ _ => (fun _ => 0,16),
    fun _ _ => (fun _ => 1,1),fun _ _ _ => 0⟩

def columnOf (entries : List (Ieee ℚ)) : Array2 (Ieee ℚ) := .of entries.length 1 fun i _ => entries.getD i 0

end Lattice
end Gelo.NonFinite
