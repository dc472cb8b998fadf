import GeloLightrag.Foundation.Agreement

namespace Foundation

section
variable {ε σ ν α β : Type}

-- A program that makes notes beside its state. What makes none is run as it is.
def quiet (x : EStateM ε σ α) : EStateM ε (σ × List ν) α := fun s =>
  match x s.1 with
  | .ok a t => .ok a (t,s.2)
  | .error e t => .error e (t,s.2)

def note (n : ν) : EStateM ε (σ × List ν) Unit := modify fun s => (s.1,s.2 ++ [n])

theorem quiet_ok {x : EStateM ε σ α} {s : σ × List ν} (ran : x s.1 = .ok a t) : quiet x s = .ok a (t,s.2) := by
  unfold quiet; rw [ran]

theorem quiet_error {x : EStateM ε σ α} {s : σ × List ν} (ran : x s.1 = .error e t) : quiet x s = .error e (t,s.2) := by
  unfold quiet; rw [ran]

-- A program that without its notes is another.
abbrev Erases (x : EStateM ε (σ × List ν) α) (y : EStateM ε σ α) : Prop := ∀ s, Agrees (fun s t => s.1 = t) x s y s.1

namespace Erases
variable {x : EStateM ε (σ × List ν) α} {y : EStateM ε σ α} {f : α → EStateM ε (σ × List ν) β} {g : α → EStateM ε σ β}

theorem quiet (x : EStateM ε σ α) : Erases (ν:=ν) (quiet x) x := by
  intro s
  cases ran : x s.1 with
  | ok a t => exact .ok (quiet_ok ran) ran rfl
  | error e t => exact .error (quiet_error ran) ran rfl

theorem pure (a : α) : Erases (Pure.pure a : EStateM ε (σ × List ν) α) (Pure.pure a) := fun _ => .pure a rfl
theorem throw (e : ε) : Erases (throw e : EStateM ε (σ × List ν) α) (throw e) := fun _ => .throw e rfl

theorem bind (first : Erases x y) (rest : ∀ a, Erases (f a) (g a)) : Erases (x >>= f) (y >>= g) := by
  intro s
  refine .bind (first s) fun a t u _ same => ?_
  subst same
  exact rest a t

theorem get {f : σ × List ν → EStateM ε (σ × List ν) β} {g : σ → EStateM ε σ β} (rest : ∀ s, Erases (f s) (g s.1)) :
    Erases (MonadState.get >>= f) (MonadState.get >>= g) := fun s => .after (get_run s) (get_run s.1) (rest s s)

-- A note and then the program.
theorem noted (n : ν) (rest : Erases x y) : Erases (note n >>= fun _ => x) y := by
  intro s
  have later := rest (s.1,s.2 ++ [n])
  unfold Agrees at later ⊢
  rw [bind_ok (show note n s = .ok () (s.1,s.2 ++ [n]) from rfl)]
  exact later

theorem ok {s : σ × List ν} {a : α} {t : σ} (erases : Erases x y) (ran : y s.1 = .ok a t) : ∃ noted, x s = .ok a (t,noted) := by
  have together := erases s
  unfold Agrees at together
  rw [ran] at together
  cases ran' : x s with
  | ok b u =>
      rw [ran'] at together
      obtain ⟨rfl,rfl⟩ := together
      exact ⟨u.2,rfl⟩
  | error e u => rw [ran'] at together; exact together.elim

theorem error {s : σ × List ν} {e : ε} {t : σ} (erases : Erases x y) (ran : y s.1 = .error e t) : ∃ noted, x s = .error e (t,noted) := by
  have together := erases s
  unfold Agrees at together
  rw [ran] at together
  cases ran' : x s with
  | ok b u => rw [ran'] at together; exact together.elim
  | error e' u =>
      rw [ran'] at together
      obtain ⟨rfl,rfl⟩ := together
      exact ⟨u.2,rfl⟩

-- The value without the notes.
theorem erased {s t : σ × List ν} {a : α} (erases : Erases x y) (ran : x s = .ok a t) : y s.1 = .ok a t.1 := by
  have together := erases s
  unfold Agrees at together
  rw [ran] at together
  cases ran' : y s.1 with
  | ok b u =>
      rw [ran'] at together
      obtain ⟨rfl,rfl⟩ := together
      rfl
  | error e u => rw [ran'] at together; exact together.elim

theorem mapM {f : α → EStateM ε (σ × List ν) β} {g : α → EStateM ε σ β} (items : List α) (each : ∀ a, Erases (f a) (g a)) :
    Erases (items.mapM f) (items.mapM g) := by
  induction items with
  | nil => exact .pure []
  | cons a rest ih =>
      rw [List.mapM_cons,List.mapM_cons]
      exact (each a).bind fun b => ih.bind fun bs => .pure (b :: bs)

end Erases
end
end Foundation
