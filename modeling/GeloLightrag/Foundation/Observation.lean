import GeloLightrag.Foundation.Machine
import Mathlib.Logic.Equiv.Basic

namespace Foundation

-- What a program lets be seen of itself: on the visible part of its state it runs
-- as a program of that part alone, to the same end. `done` says what else holds
-- where it ends well.
def Shows {ε σ τ α : Type} (view : σ → τ) (x : EStateM ε σ α) (s : σ) (y : EStateM Unit τ Unit) (done : α → σ → Prop) : Prop :=
  match x s with
  | .ok a t => y (view s) = .ok () (view t) ∧ done a t
  | .error _ t => y (view s) = .error () (view t)

namespace Shows
variable {ε σ τ α β : Type} {view : σ → τ} {x : EStateM ε σ α} {f : α → EStateM ε σ β} {y z : EStateM Unit τ Unit}

theorem ok {done : α → σ → Prop} (ran : x s = .ok a t) (shown : y (view s) = .ok () (view t)) (holds : done a t) :
    Shows view x s y done := by
  unfold Shows; rw [ran]; exact ⟨shown,holds⟩

theorem error {done : α → σ → Prop} (ran : x s = .error e t) (shown : y (view s) = .error () (view t)) :
    Shows view x s y done := by
  unfold Shows; rw [ran]; exact shown

theorem bind {middle : α → σ → Prop} {done : β → σ → Prop} (first : Shows view x s y middle)
    (rest : ∀ a t, x s = .ok a t → middle a t → Shows view (f a) t z done) :
    Shows view (x >>= f) s (y >>= fun _ => z) done := by
  unfold Shows at first
  cases ran : x s with
  | error e t =>
      rw [ran] at first
      exact .error (bind_error ran) (bind_error first)
  | ok a t =>
      rw [ran] at first
      have later := rest a t ran first.2
      unfold Shows at later ⊢
      rw [bind_ok ran,bind_ok first.1]
      exact later

theorem step {done : β → σ → Prop} (ran : x s = .ok a t) (shown : y (view s) = .ok () (view t))
    (rest : Shows view (f a) t z done) : Shows view (x >>= f) s (y >>= fun _ => z) done := by
  unfold Shows at rest ⊢
  rw [bind_ok ran,bind_ok shown]
  exact rest

-- A step that changes nothing visible.
theorem after {done : β → σ → Prop} (ran : x s = .ok a t) (hidden : view t = view s) (rest : Shows view (f a) t y done) :
    Shows view (x >>= f) s y done := by
  unfold Shows at rest ⊢
  rw [bind_ok ran,←hidden]
  exact rest

theorem finish {done : α → σ → Prop} {done' : β → σ → Prop} {g : α → β} (shows_ : Shows view x s y done)
    (holds : ∀ a t, done a t → done' (g a) t) : Shows view (x >>= fun a => pure (g a)) s y done' := by
  unfold Shows at shows_
  cases ran : x s with
  | ok a t =>
      rw [ran] at shows_
      exact .ok (bind_ok ran) shows_.1 (holds a t shows_.2)
  | error e t =>
      rw [ran] at shows_
      exact .error (bind_error ran) shows_

theorem congr {done : α → σ → Prop} {x' : EStateM ε σ α} {y' : EStateM Unit τ Unit} (same : x s = x' s)
    (same' : y (view s) = y' (view s)) (shows_ : Shows view x' s y' done) : Shows view x s y done := by
  unfold Shows at shows_ ⊢
  rw [same,same']
  exact shows_

end Shows

-- Two lists of distinct names are renamings of each other by one permutation.
theorem exists_renaming {α : Type} [DecidableEq α] {names names' : List α} (distinct : names.Nodup) (distinct' : names'.Nodup)
    (long : names.length = names'.length) : ∃ π : Equiv.Perm α, names'.map π = names := by
  induction names' generalizing names with
  | nil => exact ⟨.refl α,(List.length_eq_zero_iff.mp long).symm⟩
  | cons new rest' ih =>
    cases names with
    | nil => cases long
    | cons old rest =>
      obtain ⟨fresh,later⟩ := List.nodup_cons.mp distinct
      obtain ⟨fresh',later'⟩ := List.nodup_cons.mp distinct'
      obtain ⟨π,renamed⟩ := ih later later' (Nat.succ.inj long)
      refine ⟨π.trans (Equiv.swap (π new) old),?_⟩
      have kept : ∀ k ∈ rest', Equiv.swap (π new) old (π k) = π k := by
        intro k member
        apply Equiv.swap_apply_of_ne_of_ne
        · intro same
          exact fresh' (π.injective same ▸ member)
        · rintro same
          exact fresh (by rw [←renamed,←same]; exact List.mem_map_of_mem member)
      have tail : rest'.map (π.trans (Equiv.swap (π new) old)) = rest'.map π := List.map_congr_left kept
      rw [List.map_cons,tail,renamed]
      simp

end Foundation
