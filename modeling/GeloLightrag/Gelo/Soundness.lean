import GeloLightrag.Foundation.Grid
import GeloLightrag.Gelo.Verified

set_option linter.unusedSectionVars false

namespace Gelo
open Foundation Array2

section Drawn
variable (F : Type) [Zero F] [Platform F]

-- The generator before the n-th probe of a call that goes on, and the probe.
def probeStart (p : Nat) : Nat → ChaCha20Rng → ChaCha20Rng
  | 0,rng => rng
  | n+1,rng => probeStart p n (rng.advance (Platform.probe F p (rng.words F)).2)

def probeDraw (p : Nat) (rng : ChaCha20Rng) (n : Nat) : Nat → Int := (Platform.probe F p ((probeStart F p n rng).words F)).1

def drawnProbe (p : Nat) (rng : ChaCha20Rng) (n : Nat) (j : Fin p) : Int := probeDraw F p rng n j

end Drawn

section Exact
variable {F : Type} [Field F] [LinearOrder F] [IsStrictOrderedRing F] [Platform F]

-- The bound that one call computes up front.
def roundoffBound (a b : Array2 F) : F :=
  ROUNDOFF_CUSHION * ((a.ncols + b.ncols : Nat) : F) * F32_EPS * infNorm a * infNorm b * PROBE_L

-- The two values of a row under a probe, and what they may lie apart.
def expected (a b : Array2 F) (r : Nat → F) (i : Nat) : F := (a.dot (b.dot (column b.ncols r))).entry i 0
def observed (b z : Array2 F) (r : Nat → F) (i : Nat) : F := (z.dot (column b.ncols r)).entry i 0
def tolerance (a b z : Array2 F) (r : Nat → F) (i : Nat) : F :=
  max (roundoffBound a b) ABS_FLOOR + 1 / ((10 ^ 4 : Nat) : F) * max (max |expected a b r i| |observed b z r i|) 1

-- The probe vectors, {-L..L}^p.
def probeEntries : Finset Int := (Finset.range (2 * PROBE_L + 1)).image fun n : Nat => (n : Int) - PROBE_L
def probeVectors (p : Nat) : Finset (Fin p → Int) := Grid.vectors (Fin p) probeEntries

def coefficients {p : Nat} (r : Fin p → Int) (j : Nat) : F := if inside : j < p then (r ⟨j,inside⟩ : F) else 0

def Passes (a b z : Array2 F) (r : Fin b.ncols → Int) : Prop := probeMismatch a b z (roundoffBound a b) (coefficients r) = none

instance (a b z : Array2 F) : DecidablePred (Passes a b z) := fun _ => inferInstanceAs (Decidable (_ = none))

theorem mem_probeEntries {d : Int} : d ∈ probeEntries ↔ -(PROBE_L : Int) ≤ d ∧ d ≤ PROBE_L := by
  unfold probeEntries PROBE_L
  rw [Finset.mem_image]
  constructor
  · rintro ⟨n,member,rfl⟩
    have inside := Finset.mem_range.mp member
    omega
  · rintro ⟨low,high⟩
    exact ⟨(d + 3).toNat,Finset.mem_range.mpr (by omega),by omega⟩

theorem probeEntries_card : probeEntries.card = 2 * PROBE_L + 1 := rfl

theorem probeVectors_nonempty (p : Nat) : (probeVectors p).Nonempty :=
  ⟨fun _ => 0,Grid.mem_vectors.mpr fun _ => mem_probeEntries.mpr (by unfold PROBE_L; omega)⟩

-- The largest tolerance of a row over all probe vectors.
def largestTolerance (a b z : Array2 F) (i : Nat) : F :=
  (probeVectors b.ncols).sup' (probeVectors_nonempty b.ncols) fun r => tolerance a b z (coefficients r) i

theorem passes_iff {a b z : Array2 F} {r : Fin b.ncols → Int} :
    Passes a b z r ↔ ∀ i < a.nrows, |expected a b (coefficients r) i - observed b z (coefficients r) i| ≤ tolerance a b z (coefficients r) i := by
  unfold Passes probeMismatch
  rw [List.find?_eq_none]
  simp only [List.mem_range,decide_eq_true_eq,not_lt]
  exact Iff.rfl

theorem coefficients_column {p : Nat} (r : Fin p → Int) {j : Nat} (inside : j < p) : (column p (coefficients r : Nat → F)).entry j 0 = (r ⟨j,inside⟩ : F) := by
  rw [column,of_entry inside Nat.one_pos,coefficients,dif_pos inside]

theorem expected_eq {a b : Array2 F} (r : Nat → F) (i : Nat) :
    expected a b r i = ∑ j ∈ Finset.range b.ncols, (a.dot b).entry i j * (column b.ncols r).entry j 0 := by
  unfold expected
  rw [←dot_assoc,dot_entry (show 0 < (column b.ncols r).ncols from Nat.one_pos)]
  rfl

theorem observed_eq {b z : Array2 F} (wide : z.ncols = b.ncols) (r : Nat → F) (i : Nat) :
    observed b z r i = ∑ j ∈ Finset.range b.ncols, z.entry i j * (column b.ncols r).entry j 0 := by
  unfold observed
  rw [dot_entry (show 0 < (column b.ncols r).ncols from Nat.one_pos),wide]

-- Two probes that differ at one column see the difference of that column alone, as many
-- times as they differ by.
theorem differences_apart {a b z : Array2 F} (wide : z.ncols = b.ncols) (i : Nat) {j : Fin b.ncols} {r r' : Fin b.ncols → Int}
    (apart : ∀ l, l ≠ j → r l = r' l) :
    (expected a b (coefficients r) i - observed b z (coefficients r) i) - (expected a b (coefficients r') i - observed b z (coefficients r') i) =
      ((a.dot b).entry i j - z.entry i j) * ((r j - r' j : Int) : F) := by
  have entry : ∀ l, l ∈ Finset.range b.ncols → l ≠ j →
      ((a.dot b).entry i l - z.entry i l) * ((column b.ncols (coefficients r : Nat → F)).entry l 0 - (column b.ncols (coefficients r')).entry l 0) = 0 := by
    intro l member other
    have inside := Finset.mem_range.mp member
    rw [coefficients_column r inside,coefficients_column r' inside,apart ⟨l,inside⟩ fun same => other (congrArg Fin.val same),sub_self,mul_zero]
  rw [expected_eq,expected_eq,observed_eq wide,observed_eq wide,←Finset.sum_sub_distrib,←Finset.sum_sub_distrib,←Finset.sum_sub_distrib]
  rw [Finset.sum_eq_single_of_mem j.val (Finset.mem_range.mpr j.isLt) fun l member other => by rw [←entry l member other]; ring]
  rw [coefficients_column r j.isLt,coefficients_column r' j.isLt]
  push_cast
  ring

theorem passing_pinned {a b z : Array2 F} (wide : z.ncols = b.ncols) {i : Nat} (row : i < a.nrows) (j : Fin b.ncols)
    (tampered : 2 * largestTolerance a b z i < |z.entry i j - (a.dot b).entry i j|) :
    ∀ r ∈ probeVectors b.ncols, ∀ r' ∈ probeVectors b.ncols, Passes a b z r → Passes a b z r' → (∀ l, l ≠ j → r l = r' l) → r j = r' j := by
  intro r member r' member' passed passed' apart
  by_contra differ
  have within : ∀ r ∈ probeVectors b.ncols, Passes a b z r →
      |expected a b (coefficients r) i - observed b z (coefficients r) i| ≤ largestTolerance a b z i := by
    intro r member passed
    exact (passes_iff.mp passed i row).trans (Finset.le_sup' (fun r => tolerance a b z (coefficients r) i) member)
  have step : (1 : F) ≤ |((r j - r' j : Int) : F)| := by
    rw [←Int.cast_abs]
    exact_mod_cast Int.one_le_abs (sub_ne_zero.mpr differ)
  have bound : |z.entry i j - (a.dot b).entry i j| ≤ 2 * largestTolerance a b z i := by
    calc |z.entry i j - (a.dot b).entry i j|
        ≤ |z.entry i j - (a.dot b).entry i j| * |((r j - r' j : Int) : F)| := le_mul_of_one_le_right (abs_nonneg _) step
      _ = |(expected a b (coefficients r) i - observed b z (coefficients r) i) - (expected a b (coefficients r') i - observed b z (coefficients r') i)| := by
          rw [differences_apart wide i apart,abs_mul,abs_sub_comm]
      _ ≤ |expected a b (coefficients r) i - observed b z (coefficients r) i| + |expected a b (coefficients r') i - observed b z (coefficients r') i| :=
          abs_sub _ _
      _ ≤ largestTolerance a b z i + largestTolerance a b z i := add_le_add (within r member passed) (within r' member' passed')
      _ = 2 * largestTolerance a b z i := (two_mul _).symm
  exact absurd tampered (not_lt.mpr bound)

theorem drawn_column {p : Nat} (rng : ChaCha20Rng) (n : Nat) :
    column p (coefficients (drawnProbe F p rng n) : Nat → F) = column p fun j => (probeDraw F p rng n j : F) := by
  refine eq_of rfl rfl fun j row l col => ?_
  obtain rfl : l = 0 := Nat.lt_one_iff.mp col
  rw [coefficients_column _ (show j < p from row),column,of_entry (show j < p from row) Nat.one_pos]
  rfl

-- Probing goes through exactly where every probe drawn passes.
theorem probes_ok {a b z : Array2 F} (left probeIdx : Nat) (rng : ChaCha20Rng) :
    (probes a b z (roundoffBound a b) left probeIdx rng).1 = .ok () ↔ ∀ n < left, Passes a b z (drawnProbe F b.ncols rng n) := by
  induction left generalizing probeIdx rng with
  | zero => exact iff_of_true rfl fun n inside => absurd inside (Nat.not_lt_zero n)
  | succ left ih =>
      have first : probeMismatch a b z (roundoffBound a b) (fun i => ((Platform.probe F b.ncols (rng.words F)).1 i : F)) =
          probeMismatch a b z (roundoffBound a b) (coefficients (drawnProbe F b.ncols rng 0)) := by
        have same := drawn_column (F:=F) (p:=b.ncols) rng 0
        unfold probeMismatch
        rw [same]
        rfl
      have later := ih (probeIdx+1) (rng.advance (Platform.probe F b.ncols (rng.words F)).2)
      unfold probes
      simp only [first]
      cases passed : probeMismatch a b z (roundoffBound a b) (coefficients (drawnProbe F b.ncols rng 0)) with
      | some i =>
          refine iff_of_false nofun fun all => ?_
          have one : probeMismatch _ _ _ _ _ = none := all 0 (Nat.succ_pos left)
          rw [passed] at one
          cases one
      | none =>
          refine later.trans ⟨fun all n inside => ?_,fun all n inside => all (n+1) (Nat.succ_lt_succ inside)⟩
          cases n with
          | zero => exact passed
          | succ n => exact all n (Nat.lt_of_succ_lt_succ inside)

-- U-Verify in exact arithmetic: it accepts the product, and of what differs from it by
-- more than twice the tolerance at most one in 2L + 1 for each probe.
theorem verify_complete_sound {a b z : Array2 F} (conform : b.nrows = a.ncols) (tall : z.nrows = a.nrows) (wide : z.ncols = b.ncols) :
    (z = a.dot b → (∀ r, Passes a b z r) ∧ ∀ nProbes rng, (verifyOffload nProbes a b z rng).1 = .ok ()) ∧
    (∀ nProbes rng, (verifyOffload nProbes a b z rng).1 = .ok () ↔ ∀ n < nProbes, Passes a b z (drawnProbe F b.ncols rng n)) ∧
    ∀ i < a.nrows, ∀ j < b.ncols, 2 * largestTolerance a b z i < |z.entry i j - (a.dot b).entry i j| →
      ((probeVectors b.ncols).filter (Passes a b z)).card ≤ (2 * PROBE_L + 1) ^ (b.ncols - 1) ∧
      ∀ k, ((Grid.vectors (Fin k) (probeVectors b.ncols)).filter fun t => ∀ n, Passes a b z (t n)).card * (2 * PROBE_L + 1) ^ k ≤
        (Grid.vectors (Fin k) (probeVectors b.ncols)).card := by
  refine ⟨?_,fun nProbes rng => ?_,fun i row j col tampered => ?_⟩
  · rintro rfl
    exact ⟨fun r => exact_probe a b _ _,fun nProbes rng => verifyOffload_exact nProbes conform rng⟩
  · unfold verifyOffload
    split
    · rename_i off
      exact iff_of_true rfl fun n inside => absurd inside (by omega)
    · rw [if_neg (not_not.mpr conform),if_neg (not_not.mpr ⟨tall,wide⟩)]
      exact probes_ok nProbes 0 rng
  · have few := Grid.card_pinned probeEntries (Passes a b z) ⟨j,col⟩ (passing_pinned wide row ⟨j,col⟩ tampered)
    rw [probeEntries_card,Fintype.card_fin] at few
    refine ⟨few,fun k => ?_⟩
    rw [Grid.card_tuples,Grid.card_vectors,Fintype.card_fin,probeVectors,Grid.card_vectors,probeEntries_card,Fintype.card_fin,←Nat.mul_pow]
    refine Nat.pow_le_pow_left ?_ k
    calc _ ≤ (2 * PROBE_L + 1) ^ (b.ncols - 1) * (2 * PROBE_L + 1) := Nat.mul_le_mul_right _ few
      _ = (2 * PROBE_L + 1) ^ b.ncols := by rw [←Nat.pow_succ,Nat.succ_eq_add_one,Nat.sub_add_cancel (by omega)]

end Exact

theorem verify_complete_sound_five :
    ((probeVectors 1).filter (Passes (ones.plane 0) (ones.transposed.plane 0) (fives.plane 0))).card ≤ 1 ∧
      (verifyOffload 2 (ones.plane 0) (ones.transposed.plane 0) ((ones.plane 0).dot (ones.transposed.plane 0)) ⟨[],0,0⟩).1 = .ok () := by
  obtain ⟨_,_,few⟩ := verify_complete_sound (a:=ones.plane 0) (b:=ones.transposed.plane 0) (z:=fives.plane 0) rfl rfl rfl
  obtain ⟨complete,_⟩ := verify_complete_sound (a:=ones.plane 0) (b:=ones.transposed.plane 0) (z:=(ones.plane 0).dot (ones.transposed.plane 0)) rfl rfl rfl
  exact ⟨(few 0 Nat.one_pos 0 Nat.one_pos (by decide +kernel)).1,(complete rfl).2 2 _⟩

end Gelo
