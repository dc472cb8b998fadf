import Mathlib.Data.List.Flatten
import Mathlib.Data.List.Nodup

namespace Foundation.Linearization

-- What callers see of an object that many use at once.
inductive Event (Call Reply : Type) where
  | invoked (caller : Nat) (call : Call)
  | returned (caller : Nat) (reply : Reply)

-- A call in the sequential order, with its answer.
structure Entry (Call Reply : Type) where
  caller : Nat
  call : Call
  reply : Reply

section
variable {σ κ Call Reply : Type}

-- The order is kept in blocks. A block is one call that took effect when the
-- history had the block's length, and the calls that took effect just before it
-- although they were answered later; with it stand the states around the call.
structure Block (σ κ Call Reply : Type) where
  key : κ
  late : List (Entry Call Reply)
  before : σ
  main : Entry Call Reply
  after : σ
  since : Nat

def Block.entries (block : Block σ κ Call Reply) : List (Entry Call Reply) := block.late ++ [block.main]

def order (blocks : List (Block σ κ Call Reply)) : List (Entry Call Reply) := blocks.flatMap Block.entries

def callers (blocks : List (Block σ κ Call Reply)) : List Nat := (order blocks).map Entry.caller

variable (spec : σ → Call → Reply → σ → Prop)

-- The calls one after the other, each with the answer of the specification.
def Replays : σ → List (Entry Call Reply) → σ → Prop
  | s,[],t => s = t
  | s,e :: rest,t => ∃ next, spec s e.call e.reply next ∧ Replays next rest t

def Chain : σ → List (Block σ κ Call Reply) → σ → Prop
  | s,[],t => s = t
  | s,block :: rest,t => Replays spec s block.late block.before ∧ spec block.before block.main.call block.main.reply block.after ∧
    Chain block.after rest t

variable {spec} {s t u : σ} {history : List (Event Call Reply)} {blocks before after : List (Block σ κ Call Reply)}
  {block : Block σ κ Call Reply} {e : Entry Call Reply}

theorem Replays.append (first : Replays spec s xs t) (second : Replays spec t ys u) : Replays spec s (xs ++ ys) u := by
  induction xs generalizing s with
  | nil =>
      cases first
      exact second
  | cons e rest ih =>
      obtain ⟨next,here,later⟩ := first
      exact ⟨next,here,ih later⟩

theorem Replays.one (now : spec s e.call e.reply t) : Replays spec s [e] t := ⟨t,now,rfl⟩

theorem Chain.replays (chain : Chain spec s blocks t) : Replays spec s (order blocks) t := by
  induction blocks generalizing s with
  | nil => exact chain
  | cons block rest ih =>
      obtain ⟨late,main,later⟩ := chain
      exact (late.append (.one main)).append (ih later)

theorem Chain.split (chain : Chain spec s (before ++ block :: after) t) :
    ∃ m, Chain spec s before m ∧ Chain spec m (block :: after) t := by
  induction before generalizing s with
  | nil => exact ⟨s,rfl,chain⟩
  | cons b rest ih =>
      obtain ⟨late,main,later⟩ := chain
      obtain ⟨m,first,second⟩ := ih later
      exact ⟨m,⟨late,main,first⟩,second⟩

theorem Chain.append (first : Chain spec s before t) (second : Chain spec t after u) : Chain spec s (before ++ after) u := by
  induction before generalizing s with
  | nil =>
      cases first
      exact second
  | cons b rest ih =>
      obtain ⟨late,main,later⟩ := first
      exact ⟨late,main,ih later⟩

def Block.joined (block : Block σ κ Call Reply) (e : Entry Call Reply) (before : σ) : Block σ κ Call Reply :=
  {block with late:=block.late ++ [e],before:=before}

-- A call that joins a block leaves what comes after the block as it was.
theorem Chain.join (chain : Chain spec s (before ++ block :: after) t) (now : spec block.before e.call e.reply m)
    (still : spec m block.main.call block.main.reply block.after) : Chain spec s (before ++ block.joined e m :: after) t := by
  obtain ⟨start,first,late,_,rest⟩ := chain.split
  exact first.append ⟨late.append (.one now),still,rest⟩

-- A call takes effect after it was invoked and before it returned.
structure Within (history : List (Event Call Reply)) (since : Nat) (e : Entry Call Reply) : Prop where
  started : ∃ k < since, history[k]? = some (.invoked e.caller e.call)
  finished : ∀ k reply, history[k]? = some (.returned e.caller reply) → since ≤ k ∧ reply = e.reply

variable (spec) in
structure Log (start : σ) (history : List (Event Call Reply)) (blocks : List (Block σ κ Call Reply)) (now : σ) : Prop where
  chain : Chain spec start blocks now
  sorted : blocks.Pairwise fun x y => x.since ≤ y.since
  past : ∀ b ∈ blocks, b.since ≤ history.length
  within : ∀ b ∈ blocks, ∀ e ∈ b.entries, Within history b.since e
  apart : (callers blocks).Nodup
  invokedOnce : ∀ (i j caller : Nat) (call call' : Call), history[i]? = some (.invoked caller call) →
    history[j]? = some (.invoked caller call') → i = j
  answered : ∀ caller reply, Event.returned caller reply ∈ history → ∃ e ∈ order blocks, e.caller = caller ∧ e.reply = reply

theorem mem_order : e ∈ order blocks ↔ ∃ b ∈ blocks, e ∈ b.entries := List.mem_flatMap

theorem mem_callers {caller : Nat} : caller ∈ callers blocks ↔ ∃ e ∈ order blocks, e.caller = caller := List.mem_map

theorem getElem?_snoc {α : Type} {xs : List α} {x a : α} {k : Nat} (found : (xs ++ [x])[k]? = some a) :
    xs[k]? = some a ∨ k = xs.length ∧ x = a := by
  rcases Nat.lt_trichotomy k xs.length with inside | rfl | beyond
  · left
    rwa [List.getElem?_append_left inside] at found
  · right
    simpa using found
  · rw [List.getElem?_eq_none (by simp; omega)] at found
    cases found

theorem getElem?_grow {α : Type} {xs : List α} {a : α} {k : Nat} (found : xs[k]? = some a) (x : α) : (xs ++ [x])[k]? = some a := by
  rw [List.getElem?_append_left (List.getElem?_eq_some_iff.mp found).1]
  exact found

theorem Within.grow {since : Nat} (within : Within history since e) (event : Event Call Reply)
    (fresh : ∀ reply, event = .returned e.caller reply → since ≤ history.length ∧ reply = e.reply) :
    Within (history ++ [event]) since e := by
  obtain ⟨⟨k,early,invoked⟩,finished⟩ := within
  refine ⟨⟨k,early,getElem?_grow invoked event⟩,fun j reply at_ => ?_⟩
  rcases getElem?_snoc at_ with old | ⟨rfl,new⟩
  · exact finished j reply old
  · exact fresh reply new

namespace Log
variable {start now next : σ} {caller : Nat} {call : Call} {reply : Reply}

theorem started (log : Log spec start history blocks now) (placed : e ∈ order blocks) : Event.invoked e.caller e.call ∈ history := by
  obtain ⟨b,member,inside⟩ := mem_order.mp placed
  obtain ⟨k,_,at_⟩ := (log.within b member e inside).started
  exact List.mem_of_getElem? at_

-- A call begins.
theorem invoke (log : Log spec start history blocks now) (fresh : ∀ call, Event.invoked caller call ∉ history) (call : Call) :
    Log spec start (history ++ [.invoked caller call]) blocks now where
  chain := log.chain
  sorted := log.sorted
  past b member := by
    rw [List.length_append]
    exact Nat.le_add_right_of_le (log.past b member)
  within b member e inside := (log.within b member e inside).grow _ fun _ other => by cases other
  apart := log.apart
  invokedOnce i j c call' call'' at_ at_' := by
    rcases getElem?_snoc at_ with old | ⟨rfl,new⟩ <;> rcases getElem?_snoc at_' with old' | ⟨rfl,new'⟩
    · exact log.invokedOnce i j c call' call'' old old'
    · cases new'
      exact absurd (List.mem_of_getElem? old) (fresh _)
    · cases new
      exact absurd (List.mem_of_getElem? old') (fresh _)
    · rfl
  answered c r member := by
    rcases List.mem_append.mp member with old | new
    · exact log.answered c r old
    · cases List.mem_singleton.mp new

-- A call that has its place returns.
theorem answer (log : Log spec start history blocks now) (placed : e ∈ order blocks) :
    Log spec start (history ++ [.returned e.caller e.reply]) blocks now where
  chain := log.chain
  sorted := log.sorted
  past b member := by
    rw [List.length_append]
    exact Nat.le_add_right_of_le (log.past b member)
  within b member e' inside := by
    refine (log.within b member e' inside).grow _ fun r same => ?_
    injection same with one reply_
    have distinct := List.inj_on_of_nodup_map log.apart (mem_order.mpr ⟨b,member,inside⟩) placed one.symm
    rw [distinct]
    exact ⟨log.past b member,reply_.symm⟩
  apart := log.apart
  invokedOnce i j c call' call'' at_ at_' := by
    rcases getElem?_snoc at_ with old | ⟨_,new⟩
    · rcases getElem?_snoc at_' with old' | ⟨_,new'⟩
      · exact log.invokedOnce i j c call' call'' old old'
      · cases new'
    · cases new
  answered c r member := by
    rcases List.mem_append.mp member with old | new
    · exact log.answered c r old
    · cases List.mem_singleton.mp new
      exact ⟨e,placed,rfl,rfl⟩

theorem within_now (invoked : Event.invoked caller call ∈ history) (running : ∀ reply, Event.returned caller reply ∉ history) :
    Within history history.length ⟨caller,call,reply⟩ := by
  obtain ⟨k,inside,at_⟩ := List.mem_iff_getElem.mp invoked
  exact ⟨⟨k,inside,by rw [List.getElem?_eq_getElem inside,at_]⟩,fun j r found => absurd (List.mem_of_getElem? found) (running r)⟩

-- A running call takes effect now.
theorem place (log : Log spec start history blocks now) (key : κ) (invoked : Event.invoked caller call ∈ history)
    (running : ∀ reply, Event.returned caller reply ∉ history) (fresh : caller ∉ callers blocks) (steps : spec now call reply next) :
    Log spec start history (blocks ++ [⟨key,[],now,⟨caller,call,reply⟩,next,history.length⟩]) next where
  chain := log.chain.append ⟨rfl,steps,rfl⟩
  sorted := by
    rw [List.pairwise_append]
    exact ⟨log.sorted,List.pairwise_singleton _ _,fun b member b' last => by
      rw [List.mem_singleton.mp last]; exact log.past b member⟩
  past b member := by
    rcases List.mem_append.mp member with old | new
    · exact log.past b old
    · cases List.mem_singleton.mp new
      exact Nat.le_refl _
  within b member e inside := by
    rcases List.mem_append.mp member with old | new
    · exact log.within b old e inside
    · cases List.mem_singleton.mp new
      cases List.mem_singleton.mp inside
      exact within_now invoked running
  apart := by
    have longer : callers (blocks ++ [⟨key,[],now,⟨caller,call,reply⟩,next,history.length⟩]) = callers blocks ++ [caller] := by
      simp [callers,order,Block.entries]
    rw [longer,List.nodup_append]
    exact ⟨log.apart,List.nodup_singleton _,fun c member c' last => by
      rw [List.mem_singleton.mp last]; exact fun same => fresh (same ▸ member)⟩
  invokedOnce := log.invokedOnce
  answered c r member := by
    obtain ⟨e,listed,is⟩ := log.answered c r member
    exact ⟨e,by simp only [order,List.flatMap_append]; exact List.mem_append_left _ listed,is⟩

theorem order_join (before after : List (Block σ κ Call Reply)) (block : Block σ κ Call Reply) (e : Entry Call Reply) (m : σ) :
    (order (before ++ block.joined e m :: after)).Perm (e :: order (before ++ block :: after)) := by
  have early : ∀ l : List (Entry Call Reply), (l ++ (block.late ++ [e] ++ [block.main] ++ order after)).Perm
      (e :: (l ++ (block.late ++ [block.main] ++ order after))) := by
    intro l
    rw [List.append_assoc block.late,List.append_assoc block.late,List.singleton_append,List.cons_append,←List.append_assoc l]
    exact List.perm_middle.trans (.of_eq (by simp))
  simpa [order,Block.entries,Block.joined] using early (order before)

-- A running call that began before a block takes effect with it.
theorem join (log : Log spec start history (before ++ block :: after) now) (invoked : ∃ k < block.since, history[k]? = some (.invoked caller call))
    (running : ∀ reply, Event.returned caller reply ∉ history) (fresh : caller ∉ callers (before ++ block :: after))
    (steps : spec block.before call reply m) (still : spec m block.main.call block.main.reply block.after) :
    Log spec start history (before ++ block.joined ⟨caller,call,reply⟩ m :: after) now where
  chain := log.chain.join steps still
  sorted := by
    have sorted := log.sorted
    rw [List.pairwise_append,List.pairwise_cons] at sorted ⊢
    exact ⟨sorted.1,sorted.2.1,fun x first y later => by
      rcases List.mem_cons.mp later with rfl | later
      · exact sorted.2.2 x first block List.mem_cons_self
      · exact sorted.2.2 x first y (List.mem_cons_of_mem _ later)⟩
  past b member := by
    rcases List.mem_append.mp member with first | later
    · exact log.past b (List.mem_append_left _ first)
    · rcases List.mem_cons.mp later with rfl | later
      · exact log.past block (List.mem_append_right _ List.mem_cons_self)
      · exact log.past b (List.mem_append_right _ (List.mem_cons_of_mem _ later))
  within b member e inside := by
    rcases List.mem_append.mp member with first | later
    · exact log.within b (List.mem_append_left _ first) e inside
    · rcases List.mem_cons.mp later with rfl | later
      · have old := log.within block (List.mem_append_right _ List.mem_cons_self)
        rcases List.mem_append.mp inside with inside | inside
        · rcases List.mem_append.mp inside with inside | inside
          · exact old e (List.mem_append_left _ inside)
          · rw [List.mem_singleton.mp inside]
            exact ⟨invoked,fun j r found => absurd (List.mem_of_getElem? found) (running r)⟩
        · exact old e (List.mem_append_right _ inside)
      · exact log.within b (List.mem_append_right _ (List.mem_cons_of_mem _ later)) e inside
  apart := by
    refine (((order_join before after block ⟨caller,call,reply⟩ m).map Entry.caller).nodup_iff).mpr ?_
    exact List.nodup_cons.mpr ⟨fresh,log.apart⟩
  invokedOnce := log.invokedOnce
  answered c r member := by
    obtain ⟨e,listed,is⟩ := log.answered c r member
    exact ⟨e,(order_join before after block ⟨caller,call,reply⟩ m).mem_iff.mpr (List.mem_cons_of_mem _ listed),is⟩

theorem new (start : σ) : Log spec start ([] : List (Event Call Reply)) ([] : List (Block σ κ Call Reply)) start where
  chain := rfl
  sorted := .nil
  past b member := absurd member List.not_mem_nil
  within b member := absurd member List.not_mem_nil
  apart := .nil
  invokedOnce i j c call call' at_ := by cases at_
  answered c r member := absurd member List.not_mem_nil

-- A call that returned before another was invoked stands before it.
theorem real_time (log : Log spec start history blocks now) {x y : Entry Call Reply} (placed : x ∈ order blocks) (placed' : y ∈ order blocks)
    {i j : Nat} {reply : Reply} {call : Call} (returned : history[i]? = some (.returned x.caller reply))
    (invoked : history[j]? = some (.invoked y.caller call)) (earlier : i < j) : [x,y].Sublist (order blocks) := by
  obtain ⟨b,member,inside⟩ := mem_order.mp placed
  obtain ⟨b',member',inside'⟩ := mem_order.mp placed'
  have finished := ((log.within b member x inside).finished i reply returned).1
  obtain ⟨k,started,at_⟩ := (log.within b' member' y inside').started
  have same := log.invokedOnce j k _ _ _ invoked at_
  have apart : b.since < b'.since := by omega
  obtain ⟨p,bounded,is⟩ := List.mem_iff_getElem.mp member
  obtain ⟨q,bounded',is'⟩ := List.mem_iff_getElem.mp member'
  have ordered : p < q := by
    by_contra late
    rcases Nat.lt_or_eq_of_le (Nat.not_lt.mp late) with reversed | equal
    · have sorted := List.pairwise_iff_getElem.mp log.sorted q p bounded' bounded reversed
      rw [is,is'] at sorted
      omega
    · subst equal
      rw [is] at is'
      rw [is'] at apart
      omega
  have first : b ∈ blocks.take q := by
    rw [←is]
    exact List.mem_take_iff_getElem.mpr ⟨p,by omega,rfl⟩
  have second : b' ∈ blocks.drop q := by
    rw [←is',List.drop_eq_getElem_cons bounded']
    exact List.mem_cons_self
  have both : [b,b'].Sublist blocks := by
    have pair := (List.singleton_sublist.mpr first).append (List.singleton_sublist.mpr second)
    rwa [List.take_append_drop] at pair
  refine List.Sublist.trans ?_ (both.flatMap Block.entries)
  simp only [List.flatMap_cons,List.flatMap_nil,List.append_nil]
  exact (List.singleton_sublist.mpr inside).append (List.singleton_sublist.mpr inside')

end Log
end
end Foundation.Linearization
