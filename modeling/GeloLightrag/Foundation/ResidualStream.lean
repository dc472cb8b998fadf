import Mathlib.Algebra.Group.Hom.Defs

namespace Foundation

-- What a layer reads at each position of a stream, what it makes of all of it together,
-- and what it adds back at each.
structure Sublayer (ι R A B : Type) where
  read : R → A
  core : (ι → A) → ι → B
  write : B → R

def Sublayer.run {ι R A B : Type} [Add R] (layer : Sublayer ι R A B) (stream : ι → R) : ι → R :=
  fun i => stream i + layer.write (layer.core (fun j => layer.read (stream j)) i)

-- The layers read the same from a stream and its image, and write alike.
structure Carries {ι R R' A B : Type} (f : R → R') (layer : Sublayer ι R A B) (layer' : Sublayer ι R' A B) : Prop where
  read : ∀ x, layer'.read (f x) = layer.read x
  core : layer'.core = layer.core
  write : ∀ b, layer'.write b = f (layer.write b)

section Carried
variable {ι R R' A B : Type} [AddZeroClass R] [AddZeroClass R'] {layer : Sublayer ι R A B} {layer' : Sublayer ι R' A B}

theorem Carries.run {f : R →+ R'} (carries : Carries f layer layer') (stream : ι → R) :
    layer'.run (fun i => f (stream i)) = fun i => f (layer.run stream i) := by
  funext i
  unfold Sublayer.run
  rw [map_add,carries.core,carries.write]
  simp only [carries.read]

end Carried

section Stages
variable {X Y : Type}

-- A state after so many stages.
def passed (stage : Nat → X → X) (start : X) : Nat → X
  | 0 => start
  | k+1 => stage k (passed stage start k)

theorem passed_carried {stage : Nat → X → X} {stage' : Nat → Y → Y} {f : X → Y} (carried : ∀ k x, stage' k (f x) = f (stage k x)) (start : X) (k : Nat) :
    passed stage' (f start) k = f (passed stage start k) := by
  induction k with
  | zero => rfl
  | succ k ih => rw [passed,passed,ih,carried]

-- Two runs agree all along where each stage of one takes what the other run has there
-- to what it has next.
theorem passed_agree {stage stage' : Nat → X → X} {start : X} {n : Nat} :
    (∀ k ≤ n, passed stage' start k = passed stage start k) ↔ ∀ k < n, stage' k (passed stage start k) = passed stage start (k + 1) := by
  constructor
  · intro agree k inside
    rw [←agree k (Nat.le_of_lt inside)]
    exact agree (k + 1) inside
  · intro next k
    induction k with
    | zero => exact fun _ => rfl
    | succ k ih =>
        intro inside
        rw [passed,ih (by omega)]
        exact next k inside

end Stages
end Foundation
