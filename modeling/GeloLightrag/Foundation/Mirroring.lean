import GeloLightrag.Foundation.Machine

namespace Foundation

section Sequences
variable {σ Op Reply : Type} {step : σ → Op → Option (Reply × σ)} {room : σ → Op → Prop}

theorem run_append (ran : run step s first = some (replies,t)) (rest : List Op) :
    run step s (first ++ rest) = (run step t rest).map fun out => (replies ++ out.1,out.2) := by
  induction first generalizing s replies with
  | nil =>
      cases ran
      cases later : run step t rest with
      | none => simp [later]
      | some out => simp [later]
  | cons op first ih =>
      cases stepped : step s op with
      | none => simp [run,stepped] at ran
      | some answer =>
          obtain ⟨reply,next⟩ := answer
          cases later : run step next first with
          | none => simp [run,stepped,later] at ran
          | some out =>
              obtain ⟨others,last⟩ := out
              simp [run,stepped,later] at ran
              obtain ⟨rfl,rfl⟩ := ran
              rw [List.cons_append]
              cases tail : run step last rest with
              | none => simp [run,stepped,ih later,tail]
              | some out => simp [run,stepped,ih later,tail]

theorem throughout_append (ran : run step s first = some (replies,t)) (rest : List Op) :
    Throughout step room s (first ++ rest) ↔ Throughout step room s first ∧ Throughout step room t rest := by
  induction first generalizing s replies with
  | nil =>
      cases ran
      exact ⟨fun all => ⟨trivial,all⟩,fun both => both.2⟩
  | cons op first ih =>
      cases stepped : step s op with
      | none => simp [run,stepped] at ran
      | some answer =>
          obtain ⟨reply,next⟩ := answer
          cases later : run step next first with
          | none => simp [run,stepped,later] at ran
          | some out =>
              obtain ⟨others,last⟩ := out
              simp [run,stepped,later] at ran
              obtain ⟨rfl,rfl⟩ := ran
              simp only [List.cons_append,Throughout,stepped,ih later,and_assoc]

theorem Throughout.front (all : Throughout step room s (first ++ rest)) : Throughout step room s first := by
  induction first generalizing s with
  | nil => trivial
  | cons op first ih =>
      refine ⟨all.1,?_⟩
      have later := all.2
      cases stepped : step s op with
      | none => trivial
      | some answer =>
          rw [stepped] at later
          exact ih later

end Sequences

section Programs
variable {ε σ τ ι α β Op Reply : Type} (view : τ → σ) (step : σ → Op → Option (Reply × σ)) (room : σ → Op → Prop) (holds : τ → Prop) (full : ε)

-- A program over a machine that gets to a value by some operations: it does if the
-- machine has room for all of them, and else ends as a full machine does.
def Works (ops : List Op) (x : EStateM ε τ α) (s : τ) (a : α) : Prop :=
  Ends x s (fun b t => b = a ∧ holds t ∧ Throughout step room (view s) ops ∧ ∃ replies, run step (view s) ops = some (replies,view t))
    fun e _ => e = full ∧ ¬ Throughout step room (view s) ops

-- Beside a program that only notes what it asks: each value of the latter is got to
-- by what has been noted on the way.
def Mirrors {ε' : Type} (ask : ι → Op) (x : EStateM ε τ α) (y : EStateM ε' (List ι) α) : Prop :=
  ∀ log a log', y log = .ok a log' → ∃ asked, log' = log ++ asked ∧
    ∀ s, holds s → Works view step room holds full (asked.map ask) x s a

variable {view step room holds full} {x : EStateM ε τ α} {f : α → EStateM ε τ β} {s : τ} {ops ops' : List Op}

namespace Works

theorem pure (a : α) (now : holds s) : Works view step room holds full [] (Pure.pure a) s a := ⟨rfl,now,trivial,[],rfl⟩

theorem bind (first : Works view step room holds full ops x s a) (rest : ∀ t, holds t → Works view step room holds full ops' (f a) t b) :
    Works view step room holds full (ops ++ ops') (x >>= f) s b := by
  unfold Works at first ⊢
  cases ran : x s with
  | error e t =>
      obtain ⟨stopped,small⟩ := first.at_error ran
      exact .error (bind_error ran) ⟨stopped,fun all => small all.front⟩
  | ok a' t =>
      obtain ⟨rfl,kept,roomy,replies,moved⟩ := first.at_ok ran
      refine .after ran ((rest t kept).imp ?_ ?_)
      · rintro b' u ⟨rfl,last,roomy',replies',moved'⟩
        refine ⟨rfl,last,(throughout_append moved ops').mpr ⟨roomy,roomy'⟩,replies ++ replies',?_⟩
        rw [run_append moved,moved']
        rfl
      · rintro e u ⟨rfl,small⟩
        exact ⟨rfl,fun all => small ((throughout_append moved ops').mp all).2⟩

theorem last (first : Works view step room holds full ops x s a) (rest : ∀ t, f a t = .ok b t) : Works view step room holds full ops (x >>= f) s b := by
  have all := first.bind fun t kept => (Ends.ok (rest t) ⟨rfl,kept,trivial,[],rfl⟩ : Works view step room holds full [] (f a) t b)
  rwa [List.append_nil] at all

theorem get_bind {f : τ → EStateM ε τ β} (rest : Works view step room holds full ops (f s) s b) :
    Works view step room holds full ops (get >>= f) s b := Ends.after (get_run s) rest

-- With room it ends well, and only then.
theorem ends_iff (works : Works view step room holds full ops x s a) : (∃ t, x s = .ok a t) ↔ Throughout step room (view s) ops := by
  cases ran : x s with
  | error e t =>
      obtain ⟨_,small⟩ := works.at_error ran
      exact iff_of_false (by rintro ⟨_,other⟩; cases other) small
  | ok b t =>
      obtain ⟨rfl,_,roomy,_⟩ := works.at_ok ran
      exact iff_of_true ⟨t,rfl⟩ roomy

end Works

namespace Mirrors
variable {ε' : Type} {ask : ι → Op} {y : EStateM ε' (List ι) α} {g : α → EStateM ε' (List ι) β}

theorem pure (a : α) : Mirrors view step room holds full ask (Pure.pure a) (Pure.pure a : EStateM ε' (List ι) α) := by
  intro log b log' ran
  cases ran
  exact ⟨[],(List.append_nil log).symm,fun s now => .pure a now⟩

theorem stuck (e : ε') : Mirrors view step room holds full ask x (throw e : EStateM ε' (List ι) α) := by
  intro log b log' ran
  cases ran

theorem bind (first : Mirrors view step room holds full ask x y) (rest : ∀ a, Mirrors view step room holds full ask (f a) (g a)) :
    Mirrors view step room holds full ask (x >>= f) (y >>= g) := by
  intro log b log'' ran
  obtain ⟨a,log',one,two⟩ := ok_of_bind ran
  obtain ⟨asked,rfl,begins⟩ := first log a log' one
  obtain ⟨more,rfl,continues⟩ := rest a _ b log'' two
  refine ⟨asked ++ more,List.append_assoc .., fun s now => ?_⟩
  rw [List.map_append]
  exact (begins s now).bind continues

end Mirrors
end Programs
end Foundation
