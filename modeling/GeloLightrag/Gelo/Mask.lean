import GeloLightrag.Foundation.Bytes
import GeloLightrag.Foundation.Orthonormal
import GeloLightrag.Foundation.Walsh
import Mathlib.Algebra.Order.BigOperators.Ring.Finset
import Mathlib.Algebra.Order.Field.Basic
import Mathlib.Order.Interval.Finset.Nat

set_option linter.unusedSectionVars false

namespace Gelo
open Foundation Array2 Walsh Orthonormal

-- The mask generator by its seed, its stream, and how many words of the stream
-- it has given out.
structure ChaCha20Rng where
  seed : Bytes
  stream : Nat
  wordPos : Nat
deriving DecidableEq

-- The shield generator by its seed and how many words it has given out.
structure Xoshiro256PlusPlus where
  seed : Bytes
  drawn : Nat
deriving DecidableEq

-- What the crate takes from elsewhere: the words of the two generators, the
-- square root and the power 3/2, what the normal sampler, the polar method and
-- the probes make of a generator's words and how many they use, and the kernel
-- of the cosine transform of type IV.
class Platform (F : Type) [Zero F] where
  chachaWord : Bytes → Nat → Nat → Nat
  xoshiroBytes : Bytes → Nat → Nat → Bytes
  sqrt : F → F
  threeHalves : F → F
  normals : Nat → (Nat → Nat) → (Nat → F) × Nat
  polar : Nat → Xoshiro256PlusPlus → (Nat → F) × Nat
  probe : Nat → (Nat → Nat) → (Nat → Int) × Nat
  dct4 : Nat → Nat → Nat → F

section Generators
variable {F : Type} [Zero F] [Platform F]

def ChaCha20Rng.words (F : Type) [Zero F] [Platform F] (rng : ChaCha20Rng) (i : Nat) : Nat :=
  Platform.chachaWord F rng.seed rng.stream (rng.wordPos + i)

def ChaCha20Rng.advance (count : Nat) (rng : ChaCha20Rng) : ChaCha20Rng := {rng with wordPos:=rng.wordPos+count}

def ChaCha20Rng.setStream (stream : Nat) (rng : ChaCha20Rng) : ChaCha20Rng := {rng with stream:=stream}

def Xoshiro256PlusPlus.advance (count : Nat) (rng : Xoshiro256PlusPlus) : Xoshiro256PlusPlus := {rng with drawn:=rng.drawn+count}

end Generators

def doubled (n : Nat) : Nat → Nat → Nat
  | 0,p => p
  | fuel+1,p => if n ≤ p then p else doubled n fuel (2 * p)

def nextPowerOfTwo (n : Nat) : Nat := doubled n n 1

theorem doubled_power (n : Nat) : ∀ fuel m, ∃ k, doubled n fuel (2 ^ m) = 2 ^ k
  | 0,m => ⟨m,rfl⟩
  | fuel+1,m => by
    unfold doubled
    by_cases enough : n ≤ 2 ^ m
    · exact ⟨m,if_pos enough⟩
    · rw [if_neg enough,←pow_succ']
      exact doubled_power n fuel (m+1)

theorem nextPowerOfTwo_power (n : Nat) : ∃ k, nextPowerOfTwo n = 2 ^ k := doubled_power n n 0

theorem doubled_reaches (n : Nat) : ∀ fuel m, n ≤ m + fuel → n ≤ doubled n fuel (2 ^ m)
  | 0,m,near => Nat.le_trans near (Nat.le_of_lt Nat.lt_two_pow_self)
  | fuel+1,m,near => by
    unfold doubled
    by_cases enough : n ≤ 2 ^ m
    · rw [if_pos enough]; exact enough
    · rw [if_neg enough,←pow_succ']
      exact doubled_reaches n fuel (m+1) (by omega)

theorem le_nextPowerOfTwo (n : Nat) : n ≤ nextPowerOfTwo n := doubled_reaches n n 0 (by omega)

theorem doubled_two_pow (m : Nat) : ∀ fuel a, a ≤ m → m ≤ a + fuel → doubled (2 ^ m) fuel (2 ^ a) = 2 ^ m
  | 0,a,low,high => by rw [show a = m by omega]; rfl
  | fuel+1,a,low,high => by
    unfold doubled
    by_cases reached : a = m
    · rw [reached,if_pos (Nat.le_refl _)]
    · have below : 2 ^ a < 2 ^ m := Nat.pow_lt_pow_right (by decide) (by omega)
      rw [if_neg (Nat.not_le.mpr below),←pow_succ']
      exact doubled_two_pow m fuel (a+1) (by omega) (by omega)

theorem nextPowerOfTwo_two_pow (m : Nat) : nextPowerOfTwo (2 ^ m) = 2 ^ m :=
  doubled_two_pow m (2 ^ m) 0 (Nat.zero_le m) (by rw [Nat.zero_add]; exact Nat.le_of_lt Nat.lt_two_pow_self)

inductive MaskKind where
  | haar
  | hd3
  | dct4
  | auto
deriving DecidableEq

def hd3AutoMaxPadRatioNum : Nat := 8
def hd3AutoMaxPadRatioDen : Nat := 5

def resolveMaskKindForShape (kind : MaskKind) (s : Nat) : MaskKind :=
  match kind with
  | .auto =>
    let sPad := max (nextPowerOfTwo s) 2
    if sPad * hd3AutoMaxPadRatioDen ≤ s * hd3AutoMaxPadRatioNum then .hd3 else .dct4
  | kind => kind

-- Rows of the masked operand for s rows of data and shield.
def stackedRows (resolved : MaskKind) (s : Nat) : Nat :=
  match resolved with
  | .hd3 => max (nextPowerOfTwo s) 2
  | _ => s

theorem resolved_not_auto (kind : MaskKind) (s : Nat) : resolveMaskKindForShape kind s ≠ .auto := by
  unfold resolveMaskKindForShape
  cases kind with
  | auto => simp only; split <;> exact fun same => by cases same
  | haar => exact fun same => by cases same
  | hd3 => exact fun same => by cases same
  | dct4 => exact fun same => by cases same

theorem le_stackedRows (resolved : MaskKind) (s : Nat) : s ≤ stackedRows resolved s := by
  unfold stackedRows
  cases resolved with
  | hd3 => exact Nat.le_trans (le_nextPowerOfTwo s) (Nat.le_max_left _ _)
  | _ => exact Nat.le_refl s

-- The padded size of a Hadamard mask is a power of two.
theorem stackedRows_hd3 (s : Nat) : nextPowerOfTwo (stackedRows .hd3 s) = stackedRows .hd3 s := by
  obtain ⟨k,power⟩ := nextPowerOfTwo_power s
  have size : stackedRows .hd3 s = 2 ^ max k 1 := by
    unfold stackedRows
    simp only
    rw [power]
    rcases Nat.eq_zero_or_pos k with rfl | some
    · rfl
    · have two : 2 ≤ 2 ^ k := by
        calc 2 = 2 ^ 1 := rfl
          _ ≤ 2 ^ k := Nat.pow_le_pow_right (by decide) some
      rw [Nat.max_eq_left two,Nat.max_eq_left some]
  rw [size]
  exact nextPowerOfTwo_two_pow _

section Masks
variable {F : Type} [Field F] [LinearOrder F] [IsStrictOrderedRing F] [Platform F]

-- Each diagonal takes n bits, thirty-two of them from a word.
def sampleDiag (n : Nat) (rng : ChaCha20Rng) : List F × ChaCha20Rng :=
  ((List.range n).map fun i => if (rng.words F (i / 32)).testBit (i % 32) then 1 else -1,rng.advance ((n + 31) / 32))

theorem sampleDiag_signs {n : Nat} {rng : ChaCha20Rng} : ∀ x ∈ (sampleDiag (F:=F) n rng).1, x = 1 ∨ x = -1 := by
  intro x member
  obtain ⟨i,_,rfl⟩ := List.mem_map.mp member
  by_cases bit : (rng.words F (i / 32)).testBit (i % 32)
  · exact .inl (if_pos bit)
  · exact .inr (if_neg bit)

structure Hd3Mask (F : Type) [Field F] where
  n : Nat
  d1 : List F
  d2 : List F
  d3 : List F
  invNorm : F
  power : ∃ m, n = 2 ^ m
  signs : ∀ x ∈ d3, x = 1 ∨ x = -1

namespace Hd3Mask

def fresh (n : Nat) (rng : ChaCha20Rng) : Except String (Hd3Mask F × ChaCha20Rng) :=
  if size : nextPowerOfTwo n = n then
    let (d1,rng) := sampleDiag n rng
    let (d2,rng) := sampleDiag n rng
    .ok (⟨n,d1,d2,(sampleDiag n rng).1,1 / Platform.threeHalves (n : F),size ▸ nextPowerOfTwo_power n,sampleDiag_signs⟩,
      (sampleDiag (F:=F) n rng).2)
  else .error s!"Hd3Mask::fresh: n must be a positive power of two, got {n}"

end Hd3Mask

def fwhtRowsInplace (buf : Array2 F) : Array2 F := buf.onColumns (transform buf.nrows buf.nrows 1)

def applyDiagInplace (d : List F) (buf : Array2 F) : Array2 F := buf.onColumns (flip fun i => decide (d.getD i 1 < 0))

def applyDiagScaledInplace (d : List F) (factor : F) (buf : Array2 F) : Array2 F :=
  buf.onColumns (scaled fun i => d.getD i 1 * factor)

def Hd3Mask.applyInPlace (m : Hd3Mask F) (buf : Array2 F) : Except String (Array2 F) :=
  if buf.nrows = m.n then
    .ok (applyDiagScaledInplace m.d3 m.invNorm (fwhtRowsInplace (applyDiagInplace m.d2 (fwhtRowsInplace
      (applyDiagInplace m.d1 (fwhtRowsInplace buf))))))
  else .error s!"Hd3Mask::apply_in_place: buf has {buf.nrows} rows, expected {m.n}"

def Hd3Mask.unapplyInPlace (m : Hd3Mask F) (buf : Array2 F) : Except String (Array2 F) :=
  if buf.nrows = m.n then
    .ok (fwhtRowsInplace (applyDiagInplace m.d1 (fwhtRowsInplace (applyDiagInplace m.d2 (fwhtRowsInplace
      (applyDiagScaledInplace m.d3 m.invNorm buf))))))
  else .error s!"Hd3Mask::unapply_in_place: buf has {buf.nrows} rows, expected {m.n}"

structure Dct4Mask (F : Type) [Field F] where
  n : Nat
  d1 : List F
  d2 : List F
  d3 : List F
  invNorm : F
  signs : ∀ x ∈ d3, x = 1 ∨ x = -1

def Dct4Mask.fresh (n : Nat) (rng : ChaCha20Rng) : Except String (Dct4Mask F × ChaCha20Rng) :=
  if 0 < n then
    let (d1,rng) := sampleDiag n rng
    let (d2,rng) := sampleDiag n rng
    .ok (⟨n,d1,d2,(sampleDiag n rng).1,Platform.threeHalves (((2 : Nat) : F) / (n : F)),sampleDiag_signs⟩,(sampleDiag (F:=F) n rng).2)
  else .error s!"Dct4Mask::fresh: n must be positive, got {n}"

-- One pass of the planner's transform over every column; the tiles of sixteen
-- columns only group them.
def processDct4 (buf : Array2 F) : Array2 F := buf.onColumns (kernel buf.nrows (Platform.dct4 buf.nrows))

def Dct4Mask.applyInPlace (m : Dct4Mask F) (buf : Array2 F) : Except String (Array2 F) :=
  if buf.nrows = m.n then
    if m.n < 2 then .ok buf
    else .ok (applyDiagScaledInplace m.d3 m.invNorm (processDct4 (applyDiagInplace m.d2 (processDct4
      (applyDiagInplace m.d1 (processDct4 buf))))))
  else .error s!"Dct4Mask::apply_in_place: buf has {buf.nrows} rows, expected {m.n}"

def Dct4Mask.unapplyInPlace (m : Dct4Mask F) (buf : Array2 F) : Except String (Array2 F) :=
  if buf.nrows = m.n then
    if m.n < 2 then .ok buf
    else .ok (processDct4 (applyDiagInplace m.d1 (processDct4 (applyDiagInplace m.d2 (processDct4
      (applyDiagScaledInplace m.d3 m.invNorm buf))))))
  else .error s!"Dct4Mask::unapply_in_place: buf has {buf.nrows} rows, expected {m.n}"

-- `v_buf`, with zeros above its block.
def vBuf (k : Nat) (v0 vNorm : F) (column : Nat → F) (l : Nat) : F :=
  if l < k then 0 else if l = k then v0 / vNorm else column l / vNorm

-- The reflection that clears column k of a, taken over a and over the product q
-- of the reflections so far.
def householder (n : Nat) (aq : (Nat → Nat → F) × (Nat → Nat → F)) (k : Nat) : (Nat → Nat → F) × (Nat → Nat → F) :=
  let (a,q) := aq
  let sigma : F := Platform.sqrt (∑ i ∈ Finset.Ico k n, a i k * a i k)
  if sigma < 1 / 10 ^ 30 then (a,q)
  else
    let sign : F := if 0 ≤ a k k then 1 else -1
    let v0 := a k k - -sign * sigma
    let vNorm : F := Platform.sqrt (v0 * v0 + ∑ i ∈ Finset.Ico (k+1) n, a i k * a i k)
    if vNorm < 1 / 10 ^ 30 then (a,q)
    else
      let v := vBuf k v0 vNorm fun l => a l k
      (fun i j => if k ≤ i ∧ k ≤ j then a i j - ((2 : Nat) : F) * v i * ∑ l ∈ Finset.Ico k n, v l * a l j else a i j,reflect n v q)

def sampleHaarOrthogonal (n : Nat) (rng : ChaCha20Rng) : Array2 F × ChaCha20Rng :=
  let (normal,used) := Platform.normals (n * n) (rng.words F)
  let (a,q) := (List.range (n - 1)).foldl (householder n) (fun i j => normal (i * n + j),eye)
  (of n n (signed (fun i => decide (a i i < 0)) q),rng.advance used)

structure GeloMask (F : Type) [Zero F] where
  a : Array2 F
  square : a.ncols = a.nrows

def GeloMask.fresh (n : Nat) (rng : ChaCha20Rng) : GeloMask F × ChaCha20Rng :=
  (⟨(sampleHaarOrthogonal n rng).1,rfl⟩,(sampleHaarOrthogonal (F:=F) n rng).2)

def GeloMask.apply (m : GeloMask F) (hidden : Array2 F) : Except String (Array2 F) :=
  if hidden.nrows = m.a.nrows then .ok (m.a.dot hidden) else .error "hidden row count must equal mask n"

def GeloMask.unapply (m : GeloMask F) (maskedOutput : Array2 F) : Except String (Array2 F) :=
  if maskedOutput.nrows = m.a.nrows then .ok (m.a.transpose.dot maskedOutput)
  else .error "masked output row count must equal mask n"

inductive MaskFamily (F : Type) [Field F] where
  | haar (mask : GeloMask F)
  | hd3 (mask : Hd3Mask F)
  | dct4 (mask : Dct4Mask F)

namespace MaskFamily

def n : MaskFamily F → Nat
  | .haar mask => mask.a.nrows
  | .hd3 mask => mask.n
  | .dct4 mask => mask.n

def apply : MaskFamily F → Array2 F → Except String (Array2 F)
  | .haar mask => mask.apply
  | .hd3 mask => mask.applyInPlace
  | .dct4 mask => mask.applyInPlace

def unapplyTake : MaskFamily F → Array2 F → Except String (Array2 F)
  | .haar mask => mask.unapply
  | .hd3 mask => mask.unapplyInPlace
  | .dct4 mask => mask.unapplyInPlace

theorem apply_rows {mask : MaskFamily F} (applied : mask.apply x = .ok u) : x.nrows = mask.n := by
  by_contra other
  cases mask with
  | haar mask =>
    rw [show (MaskFamily.haar mask).apply x = .error _ from if_neg other] at applied
    cases applied
  | hd3 mask =>
    rw [show (MaskFamily.hd3 mask).apply x = .error _ from if_neg other] at applied
    cases applied
  | dct4 mask =>
    rw [show (MaskFamily.dct4 mask).apply x = .error _ from if_neg other] at applied
    cases applied

end MaskFamily

-- The arms of the match on the resolved kind, the same at every place that
-- samples a mask.
def sampleMask (resolved : MaskKind) (rows : Nat) (rng : ChaCha20Rng) : Except String (MaskFamily F × ChaCha20Rng) :=
  match resolved with
  | .haar => .ok (.haar (GeloMask.fresh rows rng).1,(GeloMask.fresh (F:=F) rows rng).2)
  | .hd3 => (Hd3Mask.fresh rows rng).map fun drawn => (.hd3 drawn.1,drawn.2)
  | .dct4 => (Dct4Mask.fresh rows rng).map fun drawn => (.dct4 drawn.1,drawn.2)
  | .auto => .error "Auto resolved above"

theorem sampleMask_size {rng : ChaCha20Rng} {drawn : MaskFamily F × ChaCha20Rng}
    (sampled : sampleMask resolved n rng = .ok drawn) : drawn.1.n = n := by
  cases resolved with
  | haar => cases sampled; rfl
  | hd3 =>
    simp only [sampleMask,Hd3Mask.fresh] at sampled
    split at sampled
    · cases sampled; rfl
    · cases sampled
  | dct4 =>
    simp only [sampleMask,Dct4Mask.fresh] at sampled
    split at sampled
    · cases sampled; rfl
    · cases sampled
  | auto => cases sampled

-- Sampling stops on an empty cosine mask only.
theorem sampleMask_ok (kind : MaskKind) (rng : ChaCha20Rng) (filled : resolveMaskKindForShape kind s = .dct4 → 0 < s) :
    ∃ drawn, sampleMask (F:=F) (resolveMaskKindForShape kind s) (stackedRows (resolveMaskKindForShape kind s) s) rng = .ok drawn := by
  have settled := resolved_not_auto kind s
  cases resolved : resolveMaskKindForShape kind s with
  | haar => exact ⟨_,rfl⟩
  | hd3 =>
    simp only [sampleMask,Hd3Mask.fresh]
    rw [dif_pos (stackedRows_hd3 s)]
    exact ⟨_,rfl⟩
  | dct4 =>
    simp only [sampleMask,Dct4Mask.fresh]
    rw [if_pos (show 0 < stackedRows .dct4 s from filled resolved)]
    exact ⟨_,rfl⟩
  | auto => exact absurd resolved settled

end Masks
end Gelo
