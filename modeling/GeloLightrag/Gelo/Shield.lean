import GeloLightrag.Gelo.Mask

set_option linter.unusedSectionVars false

namespace Gelo
open Foundation Array2

structure ShieldConfig (F : Type) where
  k : Nat
  energyScale : F
deriving DecidableEq

def ShieldConfig.NONE {F : Type} [Zero F] : ShieldConfig F := ⟨0,0⟩

def ShieldConfig.enabled {F : Type} (cfg : ShieldConfig F) : Bool := decide (0 < cfg.k)

def shieldKForBatch (n kBase : Nat) : Nat := max (nextPowerOfTwo (n + kBase) - n) kBase

theorem shieldKForBatch_base (n kBase : Nat) : kBase ≤ shieldKForBatch n kBase := Nat.le_max_right _ _

section Rows
variable {F : Type} [Field F] [LinearOrder F] [IsStrictOrderedRing F] [Platform F]

-- `fill_gaussian`: nothing is drawn for an empty slab or a zero deviation.
def gaussian (count : Nat) (sigma : F) (rng : Xoshiro256PlusPlus) : (Nat → F) × Xoshiro256PlusPlus :=
  if count = 0 ∨ sigma = 0 then (fun _ => 0,rng)
  else (fun i => sigma * (Platform.polar count rng).1 i,rng.advance (Platform.polar (F:=F) count rng).2)

def meanRowNorm (m : Array2 F) : F :=
  if m.nrows = 0 then 0
  else (∑ i ∈ Finset.range m.nrows, Platform.sqrt (∑ j ∈ Finset.range m.ncols, m.entry i j * m.entry i j)) / m.nrows

def shieldSigma (cfg : ShieldConfig F) (hidden : Array2 F) : F :=
  if hidden.ncols = 0 then 0 else cfg.energyScale * meanRowNorm hidden / Platform.sqrt (hidden.ncols : F)

-- The rows of a stacked operand: the data, the shield rows up to shieldEnd, and
-- zeros. The buffer may hold the rows of an earlier call.
def stackRows (hidden : Array2 F) (shieldEnd : Nat) (noise : Nat → F) (buf : Array2 F) : Array2 F :=
  ((buf.fillRows 0 hidden.nrows hidden.entry).fillRows hidden.nrows shieldEnd fun i j => noise (i * hidden.ncols + j)).fillRows
    shieldEnd buf.nrows fun _ _ => 0

theorem stackRows_entry {hidden buf : Array2 F} {noise : Nat → F} (room : hidden.nrows ≤ shieldEnd)
    (wide : buf.ncols = hidden.ncols) (row : i < buf.nrows) (col : j < hidden.ncols) :
    (stackRows hidden shieldEnd noise buf).entry i j = if i < hidden.nrows then hidden.entry i j
      else if i < shieldEnd then noise ((i - hidden.nrows) * hidden.ncols + j) else 0 := by
  have col' : j < buf.ncols := wide ▸ col
  unfold stackRows
  have layer : ∀ (lo hi : Nat) (f : Nat → Nat → F) (under : Array2 F), under.nrows = buf.nrows → under.ncols = buf.ncols →
      (under.fillRows lo hi f).entry i j = if lo ≤ i ∧ i < hi then f (i - lo) j else under.entry i j :=
    fun _ _ _ _ rows cols => fillRows_entry (rows ▸ row) (cols ▸ col')
  rw [layer,layer,layer]
  · by_cases data : i < hidden.nrows
    · rw [if_neg (by omega),if_neg (by omega),if_pos ⟨Nat.zero_le i,data⟩,if_pos data]
      rfl
    · rw [if_neg data]
      by_cases shield : i < shieldEnd
      · rw [if_neg (by omega),if_pos ⟨Nat.le_of_not_lt data,shield⟩,if_pos shield]
      · rw [if_pos ⟨Nat.le_of_not_lt shield,row⟩,if_neg shield]
  all_goals rfl

-- The data comes back out of the top of the stack, whatever lies below it.
theorem stackRows_data (hidden buf : Array2 F) (noise : Nat → F) (room : hidden.nrows ≤ shieldEnd)
    (tall : hidden.nrows ≤ buf.nrows) (wide : buf.ncols = hidden.ncols) :
    (stackRows hidden shieldEnd noise buf).rows 0 hidden.nrows = hidden := by
  refine eq_of (Nat.sub_zero _) wide ?_
  intro i row j col
  have low : i < hidden.nrows := by rw [←Nat.sub_zero hidden.nrows]; exact row
  rw [rows_entry row col,Nat.zero_add,stackRows_entry room wide (Nat.lt_of_lt_of_le low tall) (wide ▸ col),if_pos low]

end Rows
end Gelo
