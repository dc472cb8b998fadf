import GeloLightrag.Foundation.Machine

namespace Foundation

-- Two programs side by side: from related states to the same value or the same
-- failure, in related states again.
def Agrees {ε σ τ α : Type} (related : σ → τ → Prop) (x : EStateM ε σ α) (s : σ) (y : EStateM ε τ α) (t : τ) : Prop :=
  match x s,y t with
  | .ok a next,.ok b next' => a = b ∧ related next next'
  | .error e last,.error e' last' => e = e' ∧ related last last'
  | _,_ => False

namespace Agrees
variable {ε σ τ α β : Type} {related : σ → τ → Prop} {x : EStateM ε σ α} {y : EStateM ε τ α}
  {f : α → EStateM ε σ β} {g : α → EStateM ε τ β}

theorem ok (ran : x s = .ok a s') (ran' : y t = .ok a t') (after : related s' t') : Agrees related x s y t := by
  unfold Agrees; rw [ran,ran']; exact ⟨rfl,after⟩

theorem error (ran : x s = .error e s') (ran' : y t = .error e t') (after : related s' t') : Agrees related x s y t := by
  unfold Agrees; rw [ran,ran']; exact ⟨rfl,after⟩

theorem throw (e : ε) (now : related s t) :
    Agrees related (throw e : EStateM ε σ α) s (throw e : EStateM ε τ α) t := ⟨rfl,now⟩

theorem pure (a : α) (now : related s t) :
    Agrees related (Pure.pure a : EStateM ε σ α) s (Pure.pure a : EStateM ε τ α) t := ⟨rfl,now⟩

theorem bind (first : Agrees related x s y t)
    (rest : ∀ a s' t', x s = .ok a s' → related s' t' → Agrees related (f a) s' (g a) t') :
    Agrees related (x >>= f) s (y >>= g) t := by
  unfold Agrees at first
  cases ran : x s with
  | ok a s' =>
      cases ran' : y t with
      | ok b t' =>
          rw [ran,ran'] at first
          obtain ⟨rfl,after⟩ := first
          have later := rest a s' t' ran after
          unfold Agrees
          rw [bind_ok ran,bind_ok ran']
          exact later
      | error e t' => rw [ran,ran'] at first; exact first.elim
  | error e s' =>
      cases ran' : y t with
      | ok b t' => rw [ran,ran'] at first; exact first.elim
      | error e' t' =>
          rw [ran,ran'] at first
          obtain ⟨rfl,after⟩ := first
          exact .error (bind_error ran) (bind_error ran') after

-- A step that may yield different values, such as a look at the state.
theorem after {f : α → EStateM ε σ γ} {g : β → EStateM ε τ γ} {y : EStateM ε τ β} (ran : x s = .ok a s') (ran' : y t = .ok b t')
    (rest : Agrees related (f a) s' (g b) t') : Agrees related (x >>= f) s (y >>= g) t := by
  unfold Agrees at rest ⊢
  rw [bind_ok ran,bind_ok ran']
  exact rest

theorem mapM {f : α → EStateM ε σ β} {g : α → EStateM ε τ β} (items : List α) (now : related s t)
    (each : ∀ a ∈ items, ∀ s t, related s t → Agrees related (f a) s (g a) t) :
    Agrees related (items.mapM f) s (items.mapM g) t := by
  induction items generalizing s t with
  | nil => exact .pure [] now
  | cons a rest ih =>
      rw [List.mapM_cons,List.mapM_cons]
      refine .bind (each a List.mem_cons_self s t now) fun b s' t' _ then_ => ?_
      refine .bind (ih then_ fun other member => each other (List.mem_cons_of_mem _ member)) fun bs s' t' _ last => ?_
      exact .pure (b :: bs) last

end Agrees

-- What two machines answer: the same, with related states, or nothing at all.
def InStep {σ τ α : Type} (related : σ → τ → Prop) : Option (α × σ) → Option (α × τ) → Prop
  | some (a,s),some (b,t) => a = b ∧ related s t
  | none,none => True
  | _,_ => False

theorem InStep.imp {σ τ α : Type} {related related' : σ → τ → Prop} {x : Option (α × σ)} {y : Option (α × τ)}
    (weaker : ∀ s t, related s t → related' s t) (together : InStep related x y) : InStep related' x y := by
  cases x with
  | none => cases y with
    | none => trivial
    | some _ => exact together.elim
  | some answer => cases y with
    | none => exact together.elim
    | some _ => exact ⟨together.1,weaker _ _ together.2⟩

theorem run_in_step {σ τ Op Reply : Type} {s : σ} {t : τ} {related : σ → τ → Prop} {step : σ → Op → Option (Reply × σ)}
    {step' : τ → Op → Option (Reply × τ)} (ops : List Op)
    (each : ∀ op ∈ ops, ∀ s t, related s t → InStep related (step s op) (step' t op)) (now : related s t) :
    InStep related (run step s ops) (run step' t ops) := by
  induction ops generalizing s t with
  | nil => exact ⟨rfl,now⟩
  | cons op rest ih =>
      have here := each op List.mem_cons_self s t now
      cases stepped : step s op with
      | none =>
          cases stepped' : step' t op with
          | none => simp [run,stepped,stepped',InStep]
          | some answer => rw [stepped,stepped'] at here; exact here.elim
      | some answer =>
          cases stepped' : step' t op with
          | none => rw [stepped,stepped'] at here; exact here.elim
          | some answer' =>
              obtain ⟨reply,next⟩ := answer
              obtain ⟨reply',next'⟩ := answer'
              rw [stepped,stepped'] at here
              obtain ⟨rfl,then_⟩ := here
              have later := ih (fun other member => each other (List.mem_cons_of_mem _ member)) then_
              cases ran : run step next rest with
              | none =>
                  cases ran' : run step' next' rest with
                  | none => simp [run,stepped,stepped',ran,ran',InStep]
                  | some last => rw [ran,ran'] at later; exact later.elim
              | some last =>
                  cases ran' : run step' next' rest with
                  | none => rw [ran,ran'] at later; exact later.elim
                  | some last' =>
                      rw [ran,ran'] at later
                      obtain ⟨same,final⟩ := later
                      simp [run,stepped,stepped',ran,ran',InStep,same,final]

end Foundation
