import GeloLightrag.Foundation.Bytes
import Mathlib.Data.List.Range

namespace Foundation

-- A generator that a seed starts. A shuffle asks it for the order in which the
-- positions of a slice are left.
class SeededRng (R : Type) where
  fromSeed : Bytes → R
  fillBytes : R → Nat → Bytes × R
  order : R → Nat → List Nat × R
  fillBytes_length : ∀ rng n, (fillBytes rng n).1.length = n
  order_perm : ∀ rng n, (order rng n).1.Perm (List.range n)

namespace SeededRng
variable {R : Type} [SeededRng R]

def shuffle {α : Type} (rng : R) (items : List α) : List α × R :=
  let drawn := order rng items.length
  (drawn.1.filterMap fun i => items[i]?,drawn.2)

theorem filterMap_range {α : Type} (items : List α) : ((List.range items.length).filterMap fun i => items[i]?) = items := by
  induction items with
  | nil => rfl
  | cons a rest ih =>
      rw [List.length_cons,List.range_succ_eq_map,List.filterMap_cons]
      simp only [List.getElem?_cons_zero,List.filterMap_map]
      exact congrArg (List.cons a) ih

theorem shuffle_perm {α : Type} (rng : R) (items : List α) : (shuffle rng items).1.Perm items := by
  have moved := (order_perm rng items.length).filterMap fun i => items[i]?
  rwa [filterMap_range] at moved

-- A stand-in that can be run: it counts, and leaves slices as they are.
@[reducible] def counting : SeededRng Nat where
  fromSeed := fun seed => seed.length
  fillBytes := fun drawn n => (List.replicate n (UInt8.ofNat drawn),drawn + 1)
  order := fun drawn n => (List.range n,drawn + 1)
  fillBytes_length := fun _ _ => List.length_replicate
  order_perm := fun _ _ => .refl _

end SeededRng
end Foundation
