import Mathlib.Algebra.Group.Nat.Defs
import Mathlib.Data.List.Forall2
import Mathlib.Data.Nat.Log

namespace Foundation

-- Unsigned 32-bit arithmetic with overflow checks on: an operation whose exact
-- result leaves the word, and a shift by the word's width or more, is refused
-- with the text of the run-time check. Bits shifted out at the top are lost.
def add32 (x y : Nat) : Except String Nat :=
  if x + y < 2 ^ 32 then .ok (x + y) else .error "attempt to add with overflow"

def sub32 (x y : Nat) : Except String Nat :=
  if y ≤ x then .ok (x - y) else .error "attempt to subtract with overflow"

def shl32 (x n : Nat) : Except String Nat :=
  if n < 32 then .ok (x * 2 ^ n % 2 ^ 32) else .error "attempt to shift left with overflow"

-- The same for usizes, which are 64 bits wide.
def add64 (x y : Nat) : Except String Nat :=
  if x + y < 2 ^ 64 then .ok (x + y) else .error "attempt to add with overflow"

def mul64 (x y : Nat) : Except String Nat :=
  if x * y < 2 ^ 64 then .ok (x * y) else .error "attempt to multiply with overflow"

def checkedMul (x y : Nat) : Option Nat := if x * y < 2 ^ 64 then some (x * y) else none

def saturatingMul (x y : Nat) : Nat := min (x * y) (2 ^ 64 - 1)

def leadingZeros32 (x : Nat) : Nat := if x = 0 then 32 else 31 - Nat.log2 x

@[simp] theorem add32_ok : add32 x y = .ok z ↔ x + y < 2 ^ 32 ∧ x + y = z := by
  unfold add32; split <;> simp_all

@[simp] theorem sub32_ok : sub32 x y = .ok z ↔ y ≤ x ∧ x - y = z := by
  unfold sub32; split <;> simp_all

@[simp] theorem shl32_ok : shl32 x n = .ok z ↔ n < 32 ∧ x * 2 ^ n % 2 ^ 32 = z := by
  unfold shl32; split <;> simp_all

@[simp] theorem add64_ok : add64 x y = .ok z ↔ x + y < 2 ^ 64 ∧ x + y = z := by
  unfold add64; split <;> simp_all

@[simp] theorem mul64_ok : mul64 x y = .ok z ↔ x * y < 2 ^ 64 ∧ x * y = z := by
  unfold mul64; split <;> simp_all

theorem add32_of (fits : x + y < 2 ^ 32) : add32 x y = .ok (x + y) := add32_ok.mpr ⟨fits,rfl⟩
theorem sub32_of (fits : y ≤ x) : sub32 x y = .ok (x - y) := sub32_ok.mpr ⟨fits,rfl⟩

theorem one_shl32 (fits : n < 32) : shl32 1 n = .ok (2 ^ n) := by
  have bound : 2 ^ n < 2 ^ 32 := Nat.pow_lt_pow_right (by decide) fits
  exact shl32_ok.mpr ⟨fits,by rw [Nat.one_mul,Nat.mod_eq_of_lt bound]⟩

theorem shl32_refused (wide : 32 ≤ n) : shl32 x n = .error "attempt to shift left with overflow" := by
  unfold shl32; rw [if_neg (by omega)]

theorem add32_refused (full : 2 ^ 32 ≤ x + y) : add32 x y = .error "attempt to add with overflow" := by
  unfold add32; rw [if_neg (by omega)]

theorem except_bind_ok {x : Except ε α} {f : α → Except ε β} :
    (x >>= f) = .ok b ↔ ∃ a, x = .ok a ∧ f a = .ok b := by
  cases x with
  | error e => simp [bind,Except.bind]
  | ok a => simp [bind,Except.bind]

theorem except_isOk {x : Except ε α} (ok : x.isOk = true) : ∃ a, x = .ok a := by
  cases x with
  | error e => cases ok
  | ok a => exact ⟨a,rfl⟩

-- What holds of a computation's value. It may fail only if `may` does: with False
-- it succeeds, with True nothing is said of its failures.
def Gives (may : Prop) (x : Except ε α) (holds : α → Prop) : Prop :=
  match x with
  | .ok a => holds a
  | .error _ => may

namespace Gives
variable {may : Prop} {x : Except ε α} {f : α → Except ε β}

theorem pure {holds : α → Prop} (now : holds a) : Gives may (Pure.pure a : Except ε α) holds := now

theorem fail {holds : α → Prop} (allowed : may) (e : ε) : Gives may (.error e) holds := allowed

theorem ok {holds : α → Prop} (ran : x = .ok a) (now : holds a) : Gives may x holds := by
  rw [ran]; exact now

theorem bind {middle : α → Prop} {holds : β → Prop} (first : Gives may x middle) (rest : ∀ a, middle a → Gives may (f a) holds) :
    Gives may (x >>= f) holds := by
  cases x with
  | ok a => exact rest a first
  | error e => exact first

theorem bind_run {middle : α → Prop} {holds : β → Prop} (first : Gives may x middle)
    (rest : ∀ a, x = .ok a → middle a → Gives may (f a) holds) : Gives may (x >>= f) holds := by
  cases x with
  | ok a => exact rest a rfl first
  | error e => exact first

theorem after {holds : β → Prop} (ran : x = .ok a) (rest : Gives may (f a) holds) : Gives may (x >>= f) holds := by
  rw [ran]; exact rest

theorem imp {holds weaker : α → Prop} (gives : Gives may x holds) (follows : ∀ a, holds a → weaker a) : Gives may x weaker := by
  cases x with
  | ok a => exact follows a gives
  | error e => exact gives

theorem at_ok {holds : α → Prop} (gives : Gives may x holds) (ran : x = .ok a) : holds a := by
  rw [ran] at gives; exact gives

theorem yields {holds : α → Prop} (gives : Gives False x holds) : ∃ a, x = .ok a ∧ holds a := by
  cases x with
  | ok a => exact ⟨a,rfl,gives⟩
  | error e => exact gives.elim

-- A loop, with an invariant over the items that are done.
theorem foldlM {turn : β → α → Except ε β} {items : List α} {start : β} (invariant : List α → β → Prop)
    (first : invariant [] start)
    (each : ∀ finished a rest b, items = finished ++ a :: rest → invariant finished b →
      Gives may (turn b a) (invariant (finished ++ [a]))) : Gives may (items.foldlM turn start) (invariant items) := by
  suffices general : ∀ rest finished b, items = finished ++ rest → invariant finished b →
      Gives may (rest.foldlM turn b) (invariant items) from general items [] start rfl first
  intro rest
  induction rest with
  | nil =>
      intro finished b whole now
      rw [whole,List.append_nil]
      exact now
  | cons a rest ih =>
      intro finished b whole now
      rw [List.foldlM_cons]
      refine (each finished a rest b whole now).bind fun next then_ => ?_
      exact ih (finished ++ [a]) next (by rw [whole]; simp) then_

end Gives

theorem mapError_ok {x : Except ε α} {f : ε → ε'} : x.mapError f = .ok a ↔ x = .ok a := by
  cases x <;> simp [Except.mapError]

-- Two computations with the same image end alike.
theorem except_map_eq {x : Except ε α} {y : Except ε β} {f : α → γ} {g : β → γ} (same : x.map f = y.map g) :
    (∃ e, x = .error e ∧ y = .error e) ∨ ∃ a b, x = .ok a ∧ y = .ok b ∧ f a = g b := by
  cases x with
  | error e =>
      cases y with
      | error e' => cases same; exact .inl ⟨e,rfl,rfl⟩
      | ok b => cases same
  | ok a =>
      cases y with
      | error e => cases same
      | ok b => exact .inr ⟨a,b,rfl,rfl,Except.ok.inj same⟩

theorem mapM_ok {f : α → Except ε β} {g : α → β} (items : List α) (each : ∀ a ∈ items, f a = .ok (g a)) :
    items.mapM f = .ok (items.map g) := by
  induction items with
  | nil => rfl
  | cons item rest ih =>
      rw [List.mapM_cons,each item List.mem_cons_self,ih fun a member => each a (List.mem_cons_of_mem _ member)]
      rfl

theorem mapM_ok_iff {f : α → Except ε β} {items : List α} : items.mapM f = .ok out ↔ List.Forall₂ (fun a b => f a = .ok b) items out := by
  induction items generalizing out with
  | nil => exact ⟨fun ran => by cases ran; exact .nil,fun listed => by cases listed; rfl⟩
  | cons item rest ih =>
      rw [List.mapM_cons]
      constructor
      · intro ran
        obtain ⟨b,first,others⟩ := except_bind_ok.mp ran
        obtain ⟨later,looped,last⟩ := except_bind_ok.mp others
        cases last
        exact .cons first (ih.mp looped)
      · intro listed
        cases listed with
        | cons first later =>
            rw [first,ih.mpr later]
            rfl

-- A loop fails with the first item that does.
theorem mapM_error_iff {f : α → Except ε β} {items : List α} : items.mapM f = .error e ↔
    ∃ before a after, items = before ++ a :: after ∧ (∀ b ∈ before, ∃ c, f b = .ok c) ∧ f a = .error e := by
  induction items with
  | nil => exact ⟨(by cases ·),fun ⟨before,a,after,whole,_⟩ => by simp at whole⟩
  | cons item rest ih =>
      rw [List.mapM_cons]
      constructor
      · intro failed
        cases first : f item with
        | error e' =>
            rw [first] at failed
            cases failed
            exact ⟨[],item,rest,rfl,fun b member => absurd member List.not_mem_nil,first⟩
        | ok c =>
            cases later : rest.mapM f with
            | ok cs => rw [first,later] at failed; cases failed
            | error e' =>
                rw [first,later] at failed
                cases failed
                obtain ⟨before,a,after,whole,fine,refused⟩ := ih.mp later
                refine ⟨item :: before,a,after,by rw [whole]; rfl,fun b member => ?_,refused⟩
                rcases List.mem_cons.mp member with rfl | inside
                · exact ⟨c,first⟩
                · exact fine b inside
      · rintro ⟨before,a,after,whole,fine,refused⟩
        cases before with
        | nil =>
            cases whole
            rw [refused]
            rfl
        | cons b before =>
            cases whole
            obtain ⟨c,first⟩ := fine item List.mem_cons_self
            rw [first,ih.mpr ⟨before,a,after,rfl,fun b member => fine b (List.mem_cons_of_mem _ member),refused⟩]
            rfl

theorem mapM_determined {f : α → Except ε β} {g : α → β} (items : List α) (ran : items.mapM f = .ok out)
    (each : ∀ a ∈ items, ∀ b, f a = .ok b → b = g a) : out = items.map g ∧ ∀ a ∈ items, f a = .ok (g a) := by
  induction items generalizing out with
  | nil =>
      cases ran
      exact ⟨rfl,fun a member => absurd member List.not_mem_nil⟩
  | cons item rest ih =>
      rw [List.mapM_cons] at ran
      obtain ⟨b,first,others⟩ := except_bind_ok.mp ran
      obtain ⟨later,looped,last⟩ := except_bind_ok.mp others
      cases last
      obtain ⟨rfl,tail⟩ := ih looped fun a member => each a (List.mem_cons_of_mem _ member)
      obtain rfl := each item List.mem_cons_self b first
      refine ⟨rfl,fun a member => ?_⟩
      rcases List.mem_cons.mp member with rfl | member
      · exact first
      · exact tail a member

theorem mapM_each {f : α → Except ε β} {R : α → β → Prop} {items : List α} (ran : items.mapM f = .ok out)
    (each : ∀ a b, f a = .ok b → R a b) : List.Forall₂ R items out := (mapM_ok_iff.mp ran).imp each

theorem mapM_related {f : α → Except ε β} {R : α → β → Prop} (items : List α)
    (each : ∀ a ∈ items, ∃ b, f a = .ok b ∧ R a b) : ∃ out, items.mapM f = .ok out ∧ List.Forall₂ R items out := by
  induction items with
  | nil => exact ⟨[],rfl,.nil⟩
  | cons item rest ih =>
      obtain ⟨b,first,related⟩ := each item List.mem_cons_self
      obtain ⟨out,looped,others⟩ := ih fun a member => each a (List.mem_cons_of_mem _ member)
      refine ⟨b :: out,?_,.cons related others⟩
      rw [List.mapM_cons,first,looped]
      rfl

theorem paired {R : α → β → Prop} {xs : List α} {ys : List β} {i : Nat} (related : List.Forall₂ R xs ys) (held : ys[i]? = some y) :
    ∃ x, xs[i]? = some x ∧ R x y := by
  induction related generalizing i with
  | nil => cases held
  | cons first others ih =>
      cases i with
      | zero => cases held; exact ⟨_,rfl,first⟩
      | succ i => exact ih held

theorem mapM_held {γ : Type} {p : α → Option γ} {f : γ → Except ε β} {R : α → β → Prop} (items : List α)
    (each : ∀ a ∈ items, ∃ c b, p a = some c ∧ f c = .ok b ∧ R a b) :
    ∃ out, (items.filterMap p).mapM f = .ok out ∧ List.Forall₂ R items out := by
  induction items with
  | nil => exact ⟨[],rfl,.nil⟩
  | cons item rest ih =>
      obtain ⟨c,b,held,first,related⟩ := each item List.mem_cons_self
      obtain ⟨out,looped,others⟩ := ih fun a member => each a (List.mem_cons_of_mem _ member)
      refine ⟨b :: out,?_,.cons related others⟩
      rw [List.filterMap_cons_some held,List.mapM_cons,first,looped]
      rfl

end Foundation
