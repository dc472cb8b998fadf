import GeloLightrag.RingOram.Operations

namespace RingOram
open Foundation

namespace RingOramClient
variable {B : Type} [BlockBackend B] [AesGcm] {c d : RingOramClient B}

-- The state in which the eviction made due by one more access starts.
def due (c : RingOramClient B) : RingOramClient B := {c with accessesSinceEvict:=c.accessesSinceEvict+1-c.params.a}

def inlineEviction (c : RingOramClient B) : Option (RingOramClient B) :=
  if c.params.a ≤ c.accessesSinceEvict+1 ∧ c.deferEvictions = false then some c.due else none

omit [BlockBackend B] [AesGcm] in
theorem inlineEviction_due (starts : c.inlineEviction = some s) : s = c.due ∧ c.params.a ≤ c.accessesSinceEvict+1 ∧ c.deferEvictions = false := by
  unfold inlineEviction at starts
  split at starts
  · rename_i due
    cases starts
    exact ⟨rfl,due⟩
  · cases starts

theorem word (c : RingOramClient B) : c.params.a < 2 ^ 32 := c.params.words.2.2.1

theorem maybeEvictTurns_idle (turns : Nat) (small : c.accessesSinceEvict < c.params.a) : maybeEvictTurns turns c = .ok () c := by
  cases turns with
  | zero => exact (bind_ok (get_run c)).trans (congrFun (if_neg (Nat.not_le_of_lt small)) c)
  | succ turns => exact (bind_ok (get_run c)).trans (congrFun (if_neg (Nat.not_le_of_lt small)) c)

theorem countAccess_run (small : c.accessesSinceEvict < c.params.a) :
    countAccess c = .ok () {c with accessesSinceEvict:=c.accessesSinceEvict+1} := by
  have bound := word c
  unfold countAccess
  rw [bind_ok (get_run c)]
  exact bind_ok (checked_ok (add32_of (by omega)) c)

theorem afterAccess_idle (small : c.accessesSinceEvict+1 < c.params.a) :
    afterAccess c = .ok () {c with accessesSinceEvict:=c.accessesSinceEvict+1} := by
  unfold afterAccess
  rw [bind_ok (countAccess_run (by omega))]
  unfold maybeEvict
  rw [bind_ok (get_run _)]
  exact maybeEvictTurns_idle _ small

-- The loop of `maybe_evict` then has one turn to make, and no second one.
theorem afterAccess_turn (small : c.accessesSinceEvict < c.params.a) (full : c.params.a ≤ c.accessesSinceEvict+1) :
    afterAccess c = ((if c.deferEvictions then addPending else evictPath) >>= fun _ =>
      maybeEvictTurns c.accessesSinceEvict : OramM B Unit) c.due := by
  unfold afterAccess
  rw [bind_ok (countAccess_run small)]
  unfold maybeEvict
  rw [bind_ok (get_run _)]
  show maybeEvictTurns (c.accessesSinceEvict+1) _ = _
  rw [maybeEvictTurns,bind_ok (get_run _)]
  refine (congrFun (if_pos full) _).trans ?_
  refine (bind_ok (set_run _ _)).trans ?_
  by_cases defer : c.deferEvictions = true
  · rw [if_pos defer,if_pos defer]
    rfl
  · rw [if_neg defer,if_neg defer]
    rfl

theorem afterAccess_evict (small : c.accessesSinceEvict < c.params.a) (inline : c.inlineEviction = some s) :
    afterAccess c = (evictPath >>= fun _ => maybeEvictTurns c.accessesSinceEvict : OramM B Unit) s ∧
      s.accessesSinceEvict < s.params.a := by
  obtain ⟨rfl,full,prompt⟩ := inlineEviction_due inline
  refine ⟨?_,?_⟩
  · rw [afterAccess_turn small full,if_neg (by rw [prompt]; exact Bool.false_ne_true)]
  · show c.accessesSinceEvict+1-c.params.a < c.params.a
    omega

omit [AesGcm] [BlockBackend B] in
theorem addPending_run (room : c.pendingEvictions+1 < 2 ^ 32) :
    addPending c = .ok () {c with pendingEvictions:=c.pendingEvictions+1} := by
  unfold addPending
  rw [bind_ok (get_run c)]
  exact bind_ok (checked_ok (add32_of room) c)

omit [AesGcm] [BlockBackend B] in
theorem addPending_overflow (full : 2 ^ 32 ≤ c.pendingEvictions+1) :
    addPending c = .error (.panic "attempt to add with overflow") c := by
  unfold addPending
  rw [bind_ok (get_run c),add32_refused full]
  rfl

-- What the u32 counters carry: paths rewritten so far, and evictions put off. An
-- operation adds two at most, a flush only turns the second into the first.
def load (c : RingOramClient B) : Nat := c.root + c.pendingEvictions

-- Room in the counters for what one more access makes due, after `writes` paths
-- rewritten.
def Headroom (c : RingOramClient B) (writes : Nat) : Prop :=
  c.params.a ≤ c.accessesSinceEvict+1 →
    if c.deferEvictions then c.pendingEvictions+1 < 2 ^ 32 else c.root + writes + 1 < 2 ^ 32

end RingOramClient

namespace RingOramClient
variable {B : Type} [BlockBackend B] [LossyBackend B] [AesGcm]
variable {c d : RingOramClient B} {memory : Memory} {tree : Nat → List Block}

-- The client between operations.
structure Ready (c : RingOramClient B) (memory : Memory) (tree : Nat → List Block) : Prop extends Sound c memory tree where
  quota : c.accessesSinceEvict < c.params.a

theorem Sound.same (sound : Sound c memory tree) (params : d.params = c.params) (key : d.key = c.key)
    (counters : d.counters = c.counters) (cache : d.treetopCache = c.treetopCache) (backend : d.backend = c.backend)
    (posmap : d.posmap = c.posmap) (stash : d.stash = c.stash) (cursor : d.evictCursor = c.evictCursor) : Sound d memory tree := by
  refine ⟨sound.shelved.same params key counters cache (by rw [backend]) (by rw [backend]),?_,?_⟩
  · have held := sound.recoverable
    unfold placement at held ⊢
    rwa [params,posmap,stash]
  · rw [cursor,params]
    exact sound.cursor

theorem Alike.load (alike : Alike c d) (grown : d.root ≤ c.root + k) : d.load ≤ c.load + k := by
  unfold RingOramClient.load
  rw [alike.pending]
  omega

theorem afterAccess_ends (sound : Sound c memory tree) (quota : c.accessesSinceEvict < c.params.a) (room : Headroom c 0)
    (spares : ¬ Steady c.backend → ∀ s, c.inlineEviction = some s → s.Spares) :
    Ends afterAccess c
      (fun _ d => d.params = c.params ∧ d.load ≤ c.load + 1 ∧ (Steady c.backend → Steady d.backend) ∧
        (c.inlineEviction = none → d.stash = c.stash) ∧
        (∀ s fresh left, c.inlineEviction = some s → s.evictionPlan = .ok (fresh,left) → d.stash = left) ∧
          ∃ tree', Ready d memory tree' ∧ (Orderly c memory tree → Orderly d memory tree') ∧
            ∀ id, (∃ x ∈ d.stash.blocks, x.id = id) → Absent c.params tree id → Absent c.params tree' id)
      (fun e d => Lost e ∧ ¬ Steady c.backend ∧ d.params = c.params ∧ d.load ≤ c.load + 1 ∧
        ∃ tree', Ready d memory tree') := by
  cases inline : c.inlineEviction with
  | some s =>
      obtain ⟨ran,small⟩ := afterAccess_evict quota inline
      obtain ⟨rfl,full,prompt⟩ := inlineEviction_due inline
      have free := room full
      rw [if_neg (by rw [prompt]; exact Bool.false_ne_true)] at free
      have evicting := evictPath_ends (sound.same (d:=c.due) rfl rfl rfl rfl rfl rfl rfl rfl) free
        fun unsteady => spares unsteady _ inline
      unfold Ends at evicting ⊢
      rw [ran]
      cases evicted : evictPath c.due with
      | ok u d =>
          rw [evicted] at evicting
          obtain ⟨alike,grown,steady,planned,tree',sound',orderly,absent⟩ := evicting
          have quota' : d.accessesSinceEvict < d.params.a := by rw [alike.accesses,alike.params]; exact small
          rw [bind_ok evicted,maybeEvictTurns_idle _ quota']
          refine ⟨alike.params,alike.load (Nat.le_of_eq grown),steady,nofun,?_,tree',⟨sound',quota'⟩,fun before => orderly ⟨before.placed,before.synced⟩,absent⟩
          intro s fresh left same plan
          cases same
          exact planned fresh left plan
      | error e d =>
          rw [evicted] at evicting
          obtain ⟨lost,unsteady,alike,grown,tree',sound'⟩ := evicting
          have quota' : d.accessesSinceEvict < d.params.a := by rw [alike.accesses,alike.params]; exact small
          rw [bind_error evicted]
          exact ⟨lost,unsteady,alike.params,alike.load grown,tree',sound',quota'⟩
  | none =>
      by_cases full : c.params.a ≤ c.accessesSinceEvict+1
      · have defer : c.deferEvictions = true := by
          unfold inlineEviction at inline
          split at inline
          · cases inline
          · rename_i idle
            cases flag : c.deferEvictions with
            | true => rfl
            | false => exact absurd ⟨full,flag⟩ idle
        have free := room full
        rw [if_pos defer] at free
        have small : c.due.accessesSinceEvict < c.due.params.a := by
          show c.accessesSinceEvict+1-c.params.a < c.params.a
          omega
        have ran : afterAccess c = .ok () {c.due with pendingEvictions:=c.pendingEvictions+1} := by
          rw [afterAccess_turn quota full,if_pos defer,bind_ok (addPending_run (c:=c.due) free)]
          exact maybeEvictTurns_idle _ small
        exact .ok ran ⟨rfl,Nat.le_refl _,id,fun _ => rfl,nofun,tree,⟨sound.same rfl rfl rfl rfl rfl rfl rfl rfl,small⟩,
          fun before => ⟨before.placed,before.synced⟩,fun _ _ absent => absent⟩
      · exact .ok (afterAccess_idle (Nat.lt_of_not_le full)) ⟨rfl,Nat.le_succ _,id,fun _ => rfl,nofun,tree,
          ⟨sound.same rfl rfl rfl rfl rfl rfl rfl rfl,Nat.lt_of_not_le full⟩,
          fun before => ⟨before.placed,before.synced⟩,fun _ _ absent => absent⟩

theorem afterAccess_overflow (sound : Sound c memory tree) (quota : c.accessesSinceEvict < c.params.a)
    (good : Steady c.backend) (full : ¬ Headroom c 0) :
    ∃ d, afterAccess c = .error (.panic "attempt to add with overflow") d := by
  unfold Headroom at full
  rw [Classical.not_imp] at full
  obtain ⟨due,full⟩ := full
  rw [afterAccess_turn quota due]
  split
  · rename_i defer
    rw [if_pos defer] at full
    exact ⟨_,bind_error (addPending_overflow (c:=c.due) (Nat.le_of_not_lt full))⟩
  · rename_i prompt
    rw [if_neg prompt] at full
    obtain ⟨d,panicked⟩ := evictPath_overflow (sound.same (d:=c.due) rfl rfl rfl rfl rfl rfl rfl rfl) good (Nat.le_of_not_lt full)
    exact ⟨d,bind_error panicked⟩

end RingOramClient
end RingOram
