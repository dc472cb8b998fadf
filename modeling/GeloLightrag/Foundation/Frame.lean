import GeloLightrag.Foundation.Machine

namespace Foundation

-- However a program ends, it has left a part of the state alone.
def Frames {ε σ α β : Type} (view : σ → β) (x : EStateM ε σ α) (s : σ) : Prop := Ends x s (fun _ t => view t = view s) fun _ t => view t = view s

namespace Frames
variable {ε σ α β γ : Type} {view : σ → β} {x : EStateM ε σ α} {f : α → EStateM ε σ γ} {s t : σ}

theorem pure (a : α) (s : σ) : Frames view (Pure.pure a : EStateM ε σ α) s := rfl

theorem throw (e : ε) (s : σ) : Frames view (throw e : EStateM ε σ α) s := rfl

theorem set (same : view t = view s) : Frames view (MonadStateOf.set t : EStateM ε σ PUnit) s := same

-- What follows from a view that is left alone is left alone.
theorem through {view' : σ → γ} (wider : Frames view x s) (from_ : ∀ t, view t = view s → view' t = view' s) : Frames view' x s :=
  Ends.imp wider (fun _ t => from_ t) fun _ t => from_ t

theorem bind (first : Frames view x s) (rest : ∀ a t, view t = view s → Frames view (f a) t) : Frames view (x >>= f) s := by
  refine Ends.bind first fun a t _ same => ?_
  exact (rest a t same).imp (fun _ _ later => later.trans same) fun _ _ later => later.trans same

theorem get_bind {f : σ → EStateM ε σ γ} (rest : Frames view (f s) s) : Frames view (get >>= f) s := Ends.after (get_run s) rest

theorem mapM {f : α → EStateM ε σ γ} (each : ∀ a s, Frames view (f a) s) (items : List α) (s : σ) : Frames view (items.mapM f) s := by
  induction items generalizing s with
  | nil => exact .pure [] s
  | cons a rest ih =>
      rw [List.mapM_cons]
      exact (each a s).bind fun b t _ => (ih t).bind fun bs u _ => .pure (b :: bs) u

end Frames

-- However a program ends, it has kept what held of the state.
def Upholds {ε σ α : Type} (inv : σ → Prop) (x : EStateM ε σ α) : Prop := ∀ s, inv s → Ends x s (fun _ => inv) fun _ => inv

namespace Upholds
variable {ε σ α β : Type} {inv : σ → Prop} {x : EStateM ε σ α} {f : α → EStateM ε σ β}

theorem pure (a : α) : Upholds inv (Pure.pure a : EStateM ε σ α) := fun _ holds => holds

theorem throw (e : ε) : Upholds inv (throw e : EStateM ε σ α) := fun _ holds => holds

theorem bind (first : Upholds inv x) (rest : ∀ a, Upholds inv (f a)) : Upholds inv (x >>= f) := fun s holds =>
  Ends.bind (first s holds) fun a t _ held => rest a t held

theorem get_bind {f : σ → EStateM ε σ β} (rest : ∀ s, inv s → Upholds inv (f s)) : Upholds inv (get >>= f) := fun s holds =>
  Ends.after (get_run s) (rest s holds s holds)

theorem mapM {f : α → EStateM ε σ β} (each : ∀ a, Upholds inv (f a)) (items : List α) : Upholds inv (items.mapM f) := by
  induction items with
  | nil => exact .pure []
  | cons a rest ih =>
      rw [List.mapM_cons]
      exact (each a).bind fun b => ih.bind fun bs => .pure (b :: bs)

-- Calls that each answer while something holds answer in turn.
theorem mapM_answered {f : α → EStateM ε σ β} {answer : α → β} {items : List α} {s : σ} (start : inv s)
    (each : ∀ a ∈ items, ∀ s, inv s → ∃ t, f a s = .ok (answer a) t ∧ inv t) : ∃ t, items.mapM f s = .ok (items.map answer) t ∧ inv t := by
  induction items generalizing s with
  | nil => exact ⟨s,rfl,start⟩
  | cons a rest ih =>
      obtain ⟨t,first,held⟩ := each a List.mem_cons_self s start
      obtain ⟨u,later,kept⟩ := ih held fun b member => each b (List.mem_cons_of_mem _ member)
      refine ⟨u,?_,kept⟩
      rw [List.mapM_cons,bind_ok first,bind_ok later]
      rfl

-- What is kept beside a part of the state that is left alone.
theorem beside {inv' : σ → Prop} {view : σ → β} (upholds : Upholds inv x) (frames : ∀ s, Frames view x s) (weaker : ∀ s, inv' s → inv s)
    (moved : ∀ s t, inv' s → inv t → view t = view s → inv' t) : Upholds inv' x := fun s holds => by
  have kept := upholds s (weaker s holds)
  have same : Ends x s (fun _ t => view t = view s) fun _ t => view t = view s := frames s
  cases ran : x s with
  | ok a t => exact .ok ran (moved s t holds (kept.at_ok ran) (same.at_ok ran))
  | error e t => exact .error ran (moved s t holds (kept.at_error ran) (same.at_error ran))

end Upholds

-- It has kept it unless it ended by one of some failures.
def UpholdsBut {ε σ α : Type} (bad : ε → Prop) (inv : σ → Prop) (x : EStateM ε σ α) : Prop := ∀ s, inv s → Ends x s (fun _ => inv) fun e t => bad e ∨ inv t

namespace UpholdsBut
variable {ε σ α β : Type} {bad : ε → Prop} {inv : σ → Prop} {x : EStateM ε σ α} {f : α → EStateM ε σ β}

theorem pure (a : α) : UpholdsBut bad inv (Pure.pure a : EStateM ε σ α) := fun _ holds => holds

theorem of_upholds (upholds : Upholds inv x) : UpholdsBut bad inv x := fun s holds => (upholds s holds).imp (fun _ _ held => held) fun _ _ => .inr

theorem bind (first : UpholdsBut bad inv x) (rest : ∀ a, UpholdsBut bad inv (f a)) : UpholdsBut bad inv (x >>= f) := fun s holds =>
  Ends.bind (first s holds) fun a t _ held => rest a t held

theorem get_bind {f : σ → EStateM ε σ β} (rest : ∀ s, inv s → UpholdsBut bad inv (f s)) : UpholdsBut bad inv (get >>= f) := fun s holds =>
  Ends.after (get_run s) (rest s holds s holds)

end UpholdsBut

-- How a program ends that reads a state and leaves it as it is.
def settled {ε ε' σ α : Type} (wrap : ε' → ε) (s : σ) : Except ε' α → EStateM.Result ε σ α
  | .ok a => .ok a s
  | .error e => .error (wrap e) s

theorem mapM_settled {ε ε' σ α β : Type} {wrap : ε' → ε} {s : σ} {f : α → EStateM ε σ β} {g : α → Except ε' β} (each : ∀ a, f a s = settled wrap s (g a))
    (items : List α) : items.mapM f s = settled wrap s (items.mapM g) := by
  induction items with
  | nil => rfl
  | cons a rest ih =>
      rw [List.mapM_cons,List.mapM_cons]
      cases first : g a with
      | error e => exact bind_error ((each a).trans (congrArg _ first))
      | ok b =>
          rw [bind_ok ((each a).trans (congrArg _ first))]
          cases later : rest.mapM g with
          | error e => exact bind_error (ih.trans (congrArg _ later))
          | ok bs => exact bind_ok (ih.trans (congrArg _ later))

end Foundation
