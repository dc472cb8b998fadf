import GeloLightrag.Gelo.Mask

set_option linter.unusedSectionVars false

namespace Gelo
open Foundation Array2

section Probes
variable {F : Type} [Field F] [LinearOrder F] [IsStrictOrderedRing F] [Platform F]

def PROBE_L : Nat := 3
def F32_EPS : F := ((11920929 : Nat) : F) / ((10 ^ 14 : Nat) : F)
def ROUNDOFF_CUSHION : F := 40
def ABS_FLOOR : F := 1 / ((10 ^ 4 : Nat) : F)

def infNorm (m : Array2 F) : F :=
  (List.range m.nrows).foldl (fun acc i => (List.range m.ncols).foldl (fun acc j => max acc |m.entry i j|) acc) 0

-- A column vector.
def column (n : Nat) (v : Nat → F) : Array2 F := of n 1 fun i _ => v i

-- One probe: the first row whose two values lie apart by more than the tolerance.
def probeMismatch (a b z : Array2 F) (roundoffBound : F) (r : Nat → F) : Option Nat :=
  let expected := a.dot (b.dot (column b.ncols r))
  let observed := z.dot (column b.ncols r)
  (List.range a.nrows).find? fun i =>
    let diff := |expected.entry i 0 - observed.entry i 0|
    let scale := max (max |expected.entry i 0| |observed.entry i 0|) 1
    decide (max roundoffBound ABS_FLOOR + 1 / ((10 ^ 4 : Nat) : F) * scale < diff)

def probes (a b z : Array2 F) (roundoffBound : F) : Nat → Nat → ChaCha20Rng → Except String Unit × ChaCha20Rng
  | 0,_,rng => (.ok (),rng)
  | left+1,probeIdx,rng =>
    let (drawn,used) := Platform.probe F b.ncols (rng.words F)
    match probeMismatch a b z roundoffBound fun i => (drawn i : F) with
    | some i => (.error s!"U-Verify mismatch (probe {probeIdx} row {i})",rng.advance used)
    | none => probes a b z roundoffBound left (probeIdx+1) (rng.advance used)

def verifyOffload (nProbes : Nat) (a b z : Array2 F) (rng : ChaCha20Rng) : Except String Unit × ChaCha20Rng :=
  if nProbes = 0 then (.ok (),rng)
  else if b.nrows ≠ a.ncols then
    (.error s!"U-Verify shape: A is ({a.nrows},{a.ncols}) but B is ({b.nrows},{b.ncols})",rng)
  else if ¬(z.nrows = a.nrows ∧ z.ncols = b.ncols) then
    (.error s!"U-Verify shape: A·B should be ({a.nrows},{b.ncols}) but Z is ({z.nrows},{z.ncols})",rng)
  else probes a b z (ROUNDOFF_CUSHION * ((a.ncols + b.ncols : Nat) : F) * F32_EPS * infNorm a * infNorm b * PROBE_L) nProbes 0 rng

-- The exact product leaves every probe without a difference.
theorem exact_probe (a b : Array2 F) (roundoffBound : F) (r : Nat → F) :
    probeMismatch a b (a.dot b) roundoffBound r = none := by
  unfold probeMismatch
  refine List.find?_eq_none.mpr fun i _ mismatch => ?_
  have tolerance : 0 < max roundoffBound ABS_FLOOR := lt_of_lt_of_le (show (0 : F) < 1 / ((10 ^ 4 : Nat) : F) by positivity) (le_max_right _ _)
  have wider := of_decide_eq_true mismatch
  rw [dot_assoc,sub_self,abs_zero] at wider
  have scale : (0 : F) < max (max |(a.dot (b.dot (column b.ncols r))).entry i 0| |(a.dot (b.dot (column b.ncols r))).entry i 0|) 1 :=
    lt_of_lt_of_le one_pos (le_max_right _ _)
  exact absurd wider (not_lt.mpr (le_of_lt (by positivity)))

theorem exact_probes (a b : Array2 F) (roundoffBound : F) :
    ∀ left probeIdx rng, (probes a b (a.dot b) roundoffBound left probeIdx rng).1 = .ok ()
  | 0,_,_ => rfl
  | left+1,probeIdx,rng => by
    simp only [probes,exact_probe]
    exact exact_probes a b roundoffBound left (probeIdx+1) _

theorem verifyOffload_exact (nProbes : Nat) {a b : Array2 F} (conform : b.nrows = a.ncols) (rng : ChaCha20Rng) :
    (verifyOffload nProbes a b (a.dot b) rng).1 = .ok () := by
  unfold verifyOffload
  by_cases off : nProbes = 0
  · rw [if_pos off]
  · rw [if_neg off,if_neg (not_not.mpr conform),if_neg (not_not.mpr ⟨rfl,rfl⟩)]
    exact exact_probes a b _ _ _ _

-- Probing draws from the mask generator and leaves its seed and stream alone.
theorem probes_draw (a b z : Array2 F) (roundoffBound : F) :
    ∀ left probeIdx rng, ∃ used, (probes a b z roundoffBound left probeIdx rng).2 = rng.advance used
  | 0,_,_ => ⟨0,rfl⟩
  | left+1,probeIdx,rng => by
    unfold probes
    simp only
    split
    · exact ⟨_,rfl⟩
    · obtain ⟨used,later⟩ := probes_draw a b z roundoffBound left (probeIdx+1) (rng.advance (Platform.probe F b.ncols (rng.words F)).2)
      exact ⟨_,later.trans (by simp only [ChaCha20Rng.advance,Nat.add_assoc]; rfl)⟩

theorem verifyOffload_draw (nProbes : Nat) (a b z : Array2 F) (rng : ChaCha20Rng) :
    ∃ used, (verifyOffload nProbes a b z rng).2 = rng.advance used := by
  unfold verifyOffload
  split
  · exact ⟨0,rfl⟩
  · split
    · exact ⟨0,rfl⟩
    · split
      · exact ⟨0,rfl⟩
      · exact probes_draw _ _ _ _ _ _ _

end Probes
end Gelo
