import Mathlib.Data.List.Basic

namespace Foundation

-- Programs over a state that survives a failure: EStateM keeps the state at the
-- point of a throw, as a mutable receiver does when its method returns early.
section Effects
variable {ε σ α β : Type} {x : EStateM ε σ α} {f : α → EStateM ε σ β}

theorem bind_ok (ran : x s = .ok a t) : (x >>= f) s = f a t := by
  show EStateM.bind x f s = _
  simp [EStateM.bind,ran]

theorem bind_error (ran : x s = .error e t) : (x >>= f) s = .error e t := by
  show EStateM.bind x f s = _
  simp [EStateM.bind,ran]

theorem bind_cases (ran : (x >>= f) s = r) :
    (∃ a t, x s = .ok a t ∧ f a t = r) ∨ ∃ e t, x s = .error e t ∧ r = .error e t := by
  cases first : x s with
  | ok a t => exact .inl ⟨a,t,rfl,by rwa [bind_ok first] at ran⟩
  | error e t => exact .inr ⟨e,t,rfl,by rw [bind_error first] at ran; exact ran.symm⟩

theorem ok_of_bind (ran : (x >>= f) s = .ok b u) : ∃ a t, x s = .ok a t ∧ f a t = .ok b u := by
  rcases bind_cases ran with done | ⟨_,_,_,failed⟩
  · exact done
  · cases failed

theorem pure_run (a : α) (s : σ) : (pure a : EStateM ε σ α) s = .ok a s := rfl
theorem get_run (s : σ) : (get : EStateM ε σ σ) s = .ok s s := rfl
theorem set_run (s t : σ) : (set t : EStateM ε σ PUnit) s = .ok () t := rfl
theorem modify_run (g : σ → σ) (s : σ) : (modify g : EStateM ε σ Unit) s = .ok () (g s) := rfl
theorem throw_run (e : ε) (s : σ) : (throw e : EStateM ε σ α) s = .error e s := rfl

-- Where a program can end from a state: a value and a state, or a failure and a
-- state. A failure ends a sequence, so both halves of a bind must allow it.
def Ends (x : EStateM ε σ α) (s : σ) (done : α → σ → Prop) (failed : ε → σ → Prop) : Prop :=
  match x s with
  | .ok a t => done a t
  | .error e t => failed e t

theorem Ends.ok {done : α → σ → Prop} {failed : ε → σ → Prop} (ran : x s = .ok a t) (holds : done a t) :
    Ends x s done failed := by
  unfold Ends; rw [ran]; exact holds

theorem Ends.error {done : α → σ → Prop} {failed : ε → σ → Prop} (ran : x s = .error e t) (holds : failed e t) :
    Ends x s done failed := by
  unfold Ends; rw [ran]; exact holds

theorem Ends.at_ok {done : α → σ → Prop} {failed : ε → σ → Prop} (ends : Ends x s done failed) (ran : x s = .ok a t) :
    done a t := by
  unfold Ends at ends; rw [ran] at ends; exact ends

theorem Ends.at_error {done : α → σ → Prop} {failed : ε → σ → Prop} (ends : Ends x s done failed)
    (ran : x s = .error e t) : failed e t := by
  unfold Ends at ends; rw [ran] at ends; exact ends

theorem Ends.answer {a : α} (ends : Ends x s (fun out _ => out = a) (fun _ _ => False)) : ∃ t, x s = .ok a t := by
  unfold Ends at ends
  cases ran : x s with
  | ok out t => rw [ran] at ends; exact ⟨t,by rw [ends]⟩
  | error e t => rw [ran] at ends; exact ends.elim

theorem Ends.yields {done : α → σ → Prop} (ends : Ends x s done (fun _ _ => False)) : ∃ a t, x s = .ok a t ∧ done a t := by
  unfold Ends at ends
  cases ran : x s with
  | ok a t => rw [ran] at ends; exact ⟨a,t,rfl,ends⟩
  | error e t => rw [ran] at ends; exact ends.elim

-- What a program answers, if it does.
def answered : EStateM.Result ε σ α → Option α
  | .ok a _ => some a
  | .error _ _ => none

theorem answered_some {r : EStateM.Result ε σ α} {a : α} : answered r = some a ↔ ∃ t, r = .ok a t := by
  cases r with
  | ok out t => simp [answered]
  | error e t => simp [answered]

theorem Ends.after {done : β → σ → Prop} {failed : ε → σ → Prop} (ran : x s = .ok a t) (rest : Ends (f a) t done failed) :
    Ends (x >>= f) s done failed := by
  unfold Ends; rw [bind_ok ran]; exact rest

theorem Ends.bind {middle : α → σ → Prop} {done : β → σ → Prop} {failed : ε → σ → Prop}
    (first : Ends x s middle failed) (rest : ∀ a t, x s = .ok a t → middle a t → Ends (f a) t done failed) :
    Ends (x >>= f) s done failed := by
  unfold Ends at first
  cases ran : x s with
  | ok a t =>
      rw [ran] at first
      have later := rest a t ran first
      unfold Ends
      rw [bind_ok ran]
      exact later
  | error e t =>
      rw [ran] at first
      exact .error (bind_error ran) first

theorem Ends.imp {done done' : α → σ → Prop} {failed failed' : ε → σ → Prop} (ends : Ends x s done failed)
    (finish : ∀ a t, done a t → done' a t) (fail : ∀ e t, failed e t → failed' e t) : Ends x s done' failed' := by
  unfold Ends at ends ⊢
  cases ran : x s with
  | ok a t => rw [ran] at ends; exact finish a t ends
  | error e t => rw [ran] at ends; exact fail e t ends

theorem mapM_answers {f : α → EStateM ε σ β} {meant : α → β → Prop} {items : List α}
    (each : ∀ a ∈ items, ∀ s b t, f a s = .ok b t → meant a b) (ran : items.mapM f s = .ok bs t) :
    ∀ b ∈ bs, ∃ a ∈ items, meant a b := by
  induction items generalizing s bs with
  | nil =>
      cases ran
      exact fun b member => absurd member List.not_mem_nil
  | cons a rest ih =>
      rw [List.mapM_cons] at ran
      rcases bind_cases ran with ⟨b,middle,first,later⟩ | ⟨e,_,_,failed⟩
      · rcases bind_cases later with ⟨others,last,tail,done⟩ | ⟨e,_,_,failed⟩
        · cases done
          intro other member
          rcases List.mem_cons.mp member with rfl | inside
          · exact ⟨a,List.mem_cons_self,each a List.mem_cons_self _ _ _ first⟩
          · obtain ⟨source,present,is⟩ := ih (fun item inside => each item (List.mem_cons_of_mem _ inside)) tail other inside
            exact ⟨source,List.mem_cons_of_mem _ present,is⟩
        · cases failed
      · cases failed

theorem mapM_length {f : α → EStateM ε σ β} {items : List α} (ran : items.mapM f s = .ok bs t) : bs.length = items.length := by
  induction items generalizing s bs with
  | nil => cases ran; rfl
  | cons a rest ih =>
      rw [List.mapM_cons] at ran
      obtain ⟨b,middle,_,later⟩ := ok_of_bind ran
      obtain ⟨others,last,tail,done⟩ := ok_of_bind later
      cases done
      rw [List.length_cons,List.length_cons,ih tail]

-- A relation every step of a program keeps, whichever way it ends.
def Preserves (keeps : σ → σ → Prop) (x : EStateM ε σ α) : Prop :=
  ∀ s, Ends x s (fun _ t => keeps s t) (fun _ t => keeps s t)

section Preservation
variable {keeps : σ → σ → Prop}

theorem Preserves.pure (still : ∀ s, keeps s s) (a : α) : Preserves keeps (Pure.pure a : EStateM ε σ α) := fun s => still s

theorem Preserves.throw (still : ∀ s, keeps s s) (e : ε) : Preserves keeps (throw e : EStateM ε σ α) := fun s => still s

theorem Preserves.modify (g : σ → σ) (moves : ∀ s, keeps s (g s)) : Preserves keeps (modify g : EStateM ε σ Unit) :=
  fun s => moves s

theorem Preserves.bind (chain : ∀ s t u, keeps s t → keeps t u → keeps s u) (first : Preserves keeps x)
    (rest : ∀ a, Preserves keeps (f a)) : Preserves keeps (x >>= f) := fun s =>
  .bind ((first s).imp (fun _ _ kept => kept) fun _ _ kept => kept) fun a t _ kept =>
    (rest a t).imp (fun _ _ later => chain s t _ kept later) fun _ _ later => chain s t _ kept later

theorem Preserves.and {keeps' : σ → σ → Prop} (one : Preserves keeps x) (other : Preserves keeps' x) :
    Preserves (fun s t => keeps s t ∧ keeps' s t) x := by
  intro s
  have first := one s
  have second := other s
  unfold Ends at first second ⊢
  cases ran : x s with
  | ok a t => rw [ran] at first second; exact ⟨first,second⟩
  | error e t => rw [ran] at first second; exact ⟨first,second⟩

-- What follows a look at the state may be shown for that state.
theorem Preserves.after_get {g : σ → EStateM ε σ β}
    (rest : ∀ s, Ends (g s) s (fun _ t => keeps s t) (fun _ t => keeps s t)) :
    Preserves keeps ((get : EStateM ε σ σ) >>= g) := fun s => .after (get_run s) (rest s)

end Preservation

end Effects

-- A machine answers an operation or stops for good; a run answers a list of them.
section Runs
variable {σ μ Op Reply : Type}

def run (step : σ → Op → Option (Reply × σ)) : σ → List Op → Option (List Reply × σ)
  | s,[] => some ([],s)
  | s,op :: rest => do
    let (reply,next) ← step s op
    let (replies,last) ← run step next rest
    return (reply :: replies,last)

def meaning (spec : μ → Op → Reply × μ) : μ → List Op → List Reply × μ
  | m,[] => ([],m)
  | m,op :: rest =>
    let (reply,next) := spec m op
    let (replies,last) := meaning spec next rest
    (reply :: replies,last)

-- A condition asked of the state before each operation of a run.
def Throughout (step : σ → Op → Option (Reply × σ)) (condition : σ → Op → Prop) : σ → List Op → Prop
  | _,[] => True
  | s,op :: rest => condition s op ∧
    match step s op with
    | some (_,next) => Throughout step condition next rest
    | none => True

instance decidableThroughout (step : σ → Op → Option (Reply × σ)) (condition : σ → Op → Prop)
    [∀ s op, Decidable (condition s op)] : ∀ s ops, Decidable (Throughout step condition s ops)
  | _,[] => inferInstanceAs (Decidable True)
  | s,op :: rest =>
    match stepped : step s op with
    | some (_,next) =>
      match decidableThroughout step condition next rest with
      | .isTrue later => decidable_of_iff (condition s op) ⟨fun h => ⟨h,by rw [stepped]; exact later⟩,fun h => h.1⟩
      | .isFalse later => .isFalse fun h => later (by have tail := h.2; rw [stepped] at tail; exact tail)
    | none => decidable_of_iff (condition s op) ⟨fun h => ⟨h,by rw [stepped]; trivial⟩,fun h => h.1⟩

def Permitted (spec : μ → Op → Reply × μ) (allowed : μ → Op → Prop) : μ → List Op → Prop
  | _,[] => True
  | m,op :: rest => allowed m op ∧ Permitted spec allowed (spec m op).2 rest

variable {step : σ → Op → Option (Reply × σ)} {spec : μ → Op → Reply × μ}
  {relates : σ → μ → Prop} {condition : σ → Op → Prop} {allowed : μ → Op → Prop}

theorem Permitted.of_forall (all : ∀ m op, allowed m op) : Permitted spec allowed m ops := by
  induction ops generalizing m with
  | nil => trivial
  | cons op rest ih => exact ⟨all m op,ih⟩

-- Forward simulation, once for all operations: a step that meets its condition
-- answers as the meaning does and keeps the relation, so a whole run does.
theorem run_refines
    (simulates : ∀ s m op, relates s m → allowed m op → condition s op →
      ∃ next, step s op = some ((spec m op).1,next) ∧ relates next (spec m op).2)
    (related : relates s m) (permitted : Permitted spec allowed m ops)
    (conditioned : Throughout step condition s ops) :
    ∃ last, run step s ops = some ((meaning spec m ops).1,last) ∧ relates last (meaning spec m ops).2 := by
  induction ops generalizing s m with
  | nil => exact ⟨s,rfl,related⟩
  | cons op rest ih =>
    obtain ⟨next,stepped,kept⟩ := simulates s m op related permitted.1 conditioned.1
    have later := conditioned.2
    rw [stepped] at later
    obtain ⟨last,ran,final⟩ := ih kept permitted.2 later
    refine ⟨last,?_,final⟩
    simp [run,stepped,ran,meaning]

-- A machine run beside its meaning, for conditions on both.
def beside (step : σ → Op → Option (Reply × σ)) (spec : μ → Op → Reply × μ) (both : σ × μ) (op : Op) : Option (Reply × (σ × μ)) :=
  (step both.1 op).map fun out => (out.1,(out.2,(spec both.2 op).2))

theorem run_beside (ops : List Op) (s : σ) (m : μ) :
    run (beside step spec) (s,m) ops = (run step s ops).map fun out => (out.1,(out.2,(meaning spec m ops).2)) := by
  induction ops generalizing s m with
  | nil => rfl
  | cons op rest ih =>
    cases stepped : step s op with
    | none => simp [run,beside,stepped]
    | some answer =>
      cases later : run step answer.2 rest with
      | none => simp [run,beside,stepped,ih,later]
      | some tail => simp [run,beside,stepped,ih,later,meaning]

-- The converse: a machine that stops wherever the condition fails has met it all
-- along a run that went through.
theorem run_throughout
    (requires : ∀ s m op reply next, relates s m → allowed m op → step s op = some (reply,next) →
      condition s op ∧ relates next (spec m op).2)
    (related : relates s m) (permitted : Permitted spec allowed m ops) (ran : run step s ops = some result) :
    Throughout step condition s ops := by
  induction ops generalizing s m result with
  | nil => trivial
  | cons op rest ih =>
    cases stepped : step s op with
    | none => simp [run,stepped] at ran
    | some answer =>
      obtain ⟨reply,next⟩ := answer
      obtain ⟨met,kept⟩ := requires s m op reply next related permitted.1 stepped
      refine ⟨met,?_⟩
      rw [stepped]
      cases later : run step next rest with
      | none => simp [run,stepped,later] at ran
      | some tail => exact ih kept permitted.2 later

-- An invariant under which no step stops, for machines whose replies no plain
-- meaning fixes.
theorem run_keeps {holds : σ → Prop}
    (progress : ∀ s op, holds s → condition s op → ∃ reply next, step s op = some (reply,next) ∧ holds next)
    (start : holds s) (conditioned : Throughout step condition s ops) :
    ∃ replies last, run step s ops = some (replies,last) ∧ holds last := by
  induction ops generalizing s with
  | nil => exact ⟨[],s,rfl,start⟩
  | cons op rest ih =>
    obtain ⟨reply,next,stepped,kept⟩ := progress s op start conditioned.1
    have later := conditioned.2
    rw [stepped] at later
    obtain ⟨replies,last,ran,final⟩ := ih kept later
    exact ⟨reply :: replies,last,by simp [run,stepped,ran],final⟩

-- A machine inside another: the outer one runs as the inner one, at every point of a
-- sequence, exactly if every step it takes is the inner machine's.
theorem run_wrapped_iff {τ : Type} {step' : τ → Op → Option (Reply × τ)} (wrap : σ → τ)
    (responds : ∀ s op, ∃ reply next, step s op = some (reply,next))
    (responds' : ∀ t op, ∃ reply next, step' t op = some (reply,next)) (ops : List Op) (s : σ) :
    (∀ before, before <+: ops → run step' (wrap s) before = (run step s before).map fun out => (out.1,wrap out.2)) ↔
      Throughout step (fun s op => step' (wrap s) op = (step s op).map fun out => (out.1,wrap out.2)) s ops := by
  induction ops generalizing s with
  | nil => exact iff_of_true (fun before inside => by rw [List.prefix_nil.mp inside]; rfl) trivial
  | cons op rest ih =>
    obtain ⟨reply,next,stepped⟩ := responds s op
    have later (alike : step' (wrap s) op = some (reply,wrap next)) (before : List Op) :
        run step' (wrap s) (op :: before) = (run step s (op :: before)).map (fun out => (out.1,wrap out.2)) ↔
          run step' (wrap next) before = (run step next before).map fun out => (out.1,wrap out.2) := by
      cases ran' : run step' (wrap next) before with
      | none => cases ran : run step next before with
        | none => simp [run,alike,stepped,ran,ran']
        | some out => simp [run,alike,stepped,ran,ran']
      | some out' => cases ran : run step next before with
        | none => simp [run,alike,stepped,ran,ran']
        | some out => simp [run,alike,stepped,ran,ran',Prod.ext_iff]
    simp only [Throughout,stepped,Option.map_some]
    constructor
    · intro together
      have alike : step' (wrap s) op = some (reply,wrap next) := by
        obtain ⟨reply',next',stepped'⟩ := responds' (wrap s) op
        have one := together [op] (List.prefix_append [op] rest)
        simp [run,stepped,stepped'] at one
        rw [stepped',one.1,one.2]
      exact ⟨alike,(ih next).mp fun before inside => (later alike before).mp (together _ (List.cons_prefix_cons.mpr ⟨rfl,inside⟩))⟩
    · rintro ⟨alike,together⟩ before inside
      cases before with
      | nil => rfl
      | cons first before =>
        obtain ⟨rfl,shorter⟩ := List.cons_prefix_cons.mp inside
        exact (later alike before).mpr ((ih next).mpr together before shorter)

-- What every step keeps, a run keeps.
theorem run_upholds {holds : σ → Prop} (keeps : ∀ s op reply next, holds s → step s op = some (reply,next) → holds next)
    (start : holds s) (ran : run step s ops = some (replies,last)) : holds last := by
  induction ops generalizing s replies with
  | nil =>
    cases ran
    exact start
  | cons op rest ih =>
    simp only [run,Option.bind_eq_bind,Option.bind_eq_some_iff,Prod.exists] at ran
    obtain ⟨reply,middle,stepped,later,final,ran,is⟩ := ran
    cases is
    exact ih (keeps s op reply middle start stepped) ran

end Runs

end Foundation
