import Mathlib.Order.WellFounded

namespace Foundation

-- One turn of a while loop goes round again or leaves with a value.
inductive Turn (σ α : Type) where
  | again (s : σ)
  | leave (a : α)

section Loops
variable {ε σ α : Type} {body : σ → Except ε (Turn σ α)}

-- The first turns of a loop: none while it still goes round.
def loop (body : σ → Except ε (Turn σ α)) : Nat → σ → Option (Except ε α)
  | 0,_ => none
  | turns+1,s =>
    match body s with
    | .error e => some (.error e)
    | .ok (.leave a) => some (.ok a)
    | .ok (.again t) => loop body turns t

theorem loop_leave (left : body s = .ok (.leave a)) (turns : Nat) : loop body (turns+1) s = some (.ok a) := by
  simp only [loop,left]

theorem loop_again (turned : body s = .ok (.again t)) (turns : Nat) : loop body (turns+1) s = loop body turns t := by
  simp only [loop,turned]

-- A loop whose every turn leaves or lowers a variant leaves, with what its turns leave with.
theorem leaves_with (invariant : σ → Prop) (variant : σ → Nat) (left : α → Prop) (begun : invariant s)
    (turn : ∀ s, invariant s → (∃ a, body s = .ok (.leave a) ∧ left a) ∨
      ∃ t, body s = .ok (.again t) ∧ invariant t ∧ variant t < variant s) :
    ∃ turns a, loop body turns s = some (.ok a) ∧ left a := by
  induction measured : variant s using Nat.strong_induction_on generalizing s with
  | h v ih =>
      rcases turn s begun with ⟨a,leaving,holds⟩ | ⟨t,turned,kept,lower⟩
      · exact ⟨1,a,loop_leave leaving 0,holds⟩
      · obtain ⟨turns,a,later,holds⟩ := ih (variant t) (measured ▸ lower) kept rfl
        exact ⟨turns+1,a,(loop_again turned turns).trans later,holds⟩

theorem leaves (invariant : σ → Prop) (variant : σ → Nat) (begun : invariant s)
    (turn : ∀ s, invariant s → (∃ a, body s = .ok (.leave a)) ∨
      ∃ t, body s = .ok (.again t) ∧ invariant t ∧ variant t < variant s) :
    ∃ turns a, loop body turns s = some (.ok a) := by
  obtain ⟨turns,a,looped,_⟩ := leaves_with invariant variant (fun _ => True) begun fun s held =>
    (turn s held).imp (fun ⟨a,leaving⟩ => ⟨a,leaving,trivial⟩) id
  exact ⟨turns,a,looped⟩

-- One that can always go round again never does.
theorem stays (invariant : σ → Prop) (begun : invariant s)
    (turn : ∀ s, invariant s → ∃ t, body s = .ok (.again t) ∧ invariant t) (turns : Nat) : loop body turns s = none := by
  induction turns generalizing s with
  | zero => rfl
  | succ turns ih =>
      obtain ⟨t,turned,kept⟩ := turn s begun
      exact (loop_again turned turns).trans (ih kept)

end Loops
end Foundation
