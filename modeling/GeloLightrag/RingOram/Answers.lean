import GeloLightrag.RingOram.Steps

namespace RingOram
open Foundation

-- The meaning of each operation on the plain map.
def meaningOf (blockBytes : Nat) (memory : Memory) : Op → Reply × Memory
  | .admitBlock id payload =>
    if payload.length = blockBytes then (.done,Function.update memory id (some payload))
    else (.failed (.payloadSize blockBytes payload.length),memory)
  | .read id =>
    match memory id with
    | some payload => (.payload payload,memory)
    | none => (.failed (.unknownBlock id),memory)
  | .write id payload =>
    if payload.length = blockBytes then
      match memory id with
      | some _ => (.done,Function.update memory id (some payload))
      | none => (.failed (.unknownBlock id),memory)
    else (.failed (.payloadSize blockBytes payload.length),memory)
  | .setDeferEvictions _ => (.done,memory)
  | .flushEvictions => (.done,memory)

-- An id is admitted at most once, and never the dummy id.
def Fresh (memory : Memory) : Op → Prop
  | .admitBlock id _ => memory id = none ∧ id.isDummy = false
  | _ => True

namespace RingOramClient
variable {B : Type} [BlockBackend B] [LossyBackend B] [AesGcm]
variable {c d : RingOramClient B} {memory : Memory} {tree : Nat → List Block} {id : BlockId} {payload : Bytes}

-- The states in which the evictions of a flush start, the last of them included.
def flushStarts : Nat → RingOramClient B → RingOramClient B → Prop
  | 0,_,_ => False
  | turns+1,c,s => s = c ∨ ∃ d, evictPath c = .ok () d ∧
      flushStarts turns {d with pendingEvictions:=d.pendingEvictions-1} s

-- The states in which an eviction starts while the operation runs.
def EvictsAt (c : RingOramClient B) : Op → RingOramClient B → Prop
  | .admitBlock id payload,s => ∃ d, admitAccess id payload c = .ok () d ∧ d.inlineEviction = some s
  | .read id,s => ∃ a d, readAccess id c = .ok a d ∧ d.inlineEviction = some s
  | .write id payload,s => payload.length = c.params.blockBytes ∧
      ∃ a d, readAccess id c = .ok a d ∧ d.inlineEviction = some s
  | .setDeferEvictions _,_ => False
  | .flushEvictions,s => flushStarts c.pendingEvictions c s

-- Room in the u32 counters for the writes and the pending eviction of a step.
def Room (c : RingOramClient B) : Op → Prop
  | .admitBlock _ payload => payload.length = c.params.blockBytes → c.Headroom 0
  | .read id => (c.posmap id).isSome → c.root + 1 < 2 ^ 32 ∧ c.Headroom 1
  | .write id payload => payload.length = c.params.blockBytes → (c.posmap id).isSome → c.root + 1 < 2 ^ 32 ∧ c.Headroom 1
  | .setDeferEvictions _ => True
  | .flushEvictions => 0 < c.pendingEvictions → c.root + c.pendingEvictions < 2 ^ 32

-- A write finds its block where `read` put it: no eviction starts inside that
-- read, or the one that does leaves the block in the stash.
def Keeps (c : RingOramClient B) : Op → Prop
  | .write id payload => ∀ s, c.EvictsAt (.write id payload) s →
      ∀ fresh left, s.evictionPlan = .ok (fresh,left) → ∃ x ∈ left.blocks, x.id = id
  | _ => True

-- The same, computed.
def keepsBlock (c : RingOramClient B) (id : BlockId) (payload : Bytes) : Bool :=
  if payload.length = c.params.blockBytes then
    match readAccess id c with
    | .error _ _ => true
    | .ok _ d =>
      match d.inlineEviction with
      | none => true
      | some s =>
        match s.evictionPlan with
        | .error _ => true
        | .ok (_,left) => (left.peek id).isSome
  else true

theorem keepsBlock_iff : c.keepsBlock id payload = true ↔ c.Keeps (.write id payload) := by
  unfold keepsBlock Keeps EvictsAt
  split
  · rename_i sized
    cases ran : readAccess id c with
    | error e d => simp [ran]
    | ok a d =>
        cases starts : d.inlineEviction with
        | none => simp [sized,ran,starts]
        | some s =>
            cases plan : s.evictionPlan with
            | error text => simp [sized,ran,starts,plan]
            | ok packed =>
                obtain ⟨fresh,left⟩ := packed
                simp [sized,ran,starts,plan,Option.isSome_iff_exists,Stash.peek_some]
  · rename_i unsized
    simp [unsized]

instance (c : RingOramClient B) : ∀ op, Decidable (c.Keeps op)
  | .write id payload => decidable_of_iff (c.keepsBlock id payload = true) keepsBlock_iff
  | .admitBlock _ _ => .isTrue trivial
  | .read _ => .isTrue trivial
  | .setDeferEvictions _ => .isTrue trivial
  | .flushEvictions => .isTrue trivial

instance (c : RingOramClient B) (writes : Nat) : Decidable (c.Headroom writes) := by
  unfold Headroom; infer_instance

instance (c : RingOramClient B) : ∀ op, Decidable (c.Room op)
  | .admitBlock _ payload => inferInstanceAs (Decidable (payload.length = c.params.blockBytes → c.Headroom 0))
  | .read id => inferInstanceAs (Decidable ((c.posmap id).isSome → c.root + 1 < 2 ^ 32 ∧ c.Headroom 1))
  | .write id payload => inferInstanceAs
      (Decidable (payload.length = c.params.blockBytes → (c.posmap id).isSome → c.root + 1 < 2 ^ 32 ∧ c.Headroom 1))
  | .setDeferEvictions _ => .isTrue trivial
  | .flushEvictions => inferInstanceAs (Decidable (0 < c.pendingEvictions → c.root + c.pendingEvictions < 2 ^ 32))

-- A block about to be overwritten has no copy outside its path, as one that a
-- failed write-back left behind would be.
def Alone (c : RingOramClient B) : Op → Prop
  | .write id _ => ∀ p, c.posmap id = some p → Sole c.params c.contents p id
  | _ => True

theorem flushTurns_ends (turns : Nat) (ready : Ready c memory tree)
    (room : 0 < turns → c.root + turns < 2 ^ 32) (few : turns ≤ c.pendingEvictions) (spares : ¬ Steady c.backend → ∀ s, flushStarts turns c s → s.Spares) :
    Ends (flushTurns turns) c
      (fun _ d => d.params = c.params ∧ d.load ≤ c.load ∧ (Steady c.backend → Steady d.backend) ∧
        ∃ tree', Ready d memory tree' ∧ (Orderly c memory tree → Orderly d memory tree'))
      (fun e d => Lost e ∧ ¬ Steady c.backend ∧ d.params = c.params ∧ d.load ≤ c.load + 1 ∧
        ∃ tree', Ready d memory tree') := by
  induction turns generalizing c tree with
  | zero => exact .ok rfl ⟨rfl,Nat.le_refl _,id,tree,ready,id⟩
  | succ turns ih =>
      have evicting := evictPath_ends ready.toSound (by have free := room (Nat.succ_pos turns); omega) fun unsteady => spares unsteady c (.inl rfl)
      unfold flushTurns
      unfold Ends at evicting
      cases evicted : evictPath c with
      | error e d =>
          rw [evicted] at evicting
          obtain ⟨lost,unsteady,alike,grown,tree',sound⟩ := evicting
          exact .error (bind_error evicted) ⟨lost,unsteady,alike.params,alike.load grown,tree',sound,by
            rw [alike.accesses,alike.params]; exact ready.quota⟩
      | ok u d =>
          rw [evicted] at evicting
          obtain ⟨alike,grown,steady,_,tree',sound,orderly,_⟩ := evicting
          have next : Ready {d with pendingEvictions:=d.pendingEvictions-1} memory tree' :=
            ⟨sound.same rfl rfl rfl rfl rfl rfl rfl rfl,by
              show d.accessesSinceEvict < d.params.a
              rw [alike.accesses,alike.params]; exact ready.quota⟩
          have fewer : turns ≤ d.pendingEvictions-1 := by rw [alike.pending]; omega
          have rest := ih next (by
            intro _
            have free := room (Nat.succ_pos turns)
            show d.root + turns < _
            omega) fewer fun unsteady s starts =>
            spares (fun good => unsteady (steady good)) s (.inr ⟨d,evicted,starts⟩)
          have less : ({d with pendingEvictions:=d.pendingEvictions-1} : RingOramClient B).load ≤ c.load := by
            show d.root + (d.pendingEvictions-1) ≤ c.root + c.pendingEvictions
            rw [alike.pending]
            omega
          unfold Ends at rest ⊢
          rw [bind_ok evicted,bind_ok (modify_run _ d)]
          cases flushed : flushTurns turns {d with pendingEvictions:=d.pendingEvictions-1} with
          | ok v e =>
              rw [flushed] at rest
              obtain ⟨params,low,later,tree'',ready'',orderly''⟩ := rest
              exact ⟨params.trans alike.params,low.trans less,fun good => later (steady good),tree'',ready'',
                fun before => orderly'' ⟨(orderly before).placed,(orderly before).synced⟩⟩
          | error f e =>
              rw [flushed] at rest
              obtain ⟨lost,unsteady,params,low,after⟩ := rest
              exact ⟨lost,fun good => unsteady (steady good),params.trans alike.params,
                low.trans (Nat.add_le_add_right less 1),after⟩

omit [BlockBackend B] [LossyBackend B] [AesGcm] in
theorem Alike.headroom (alike : Alike c d) (grown : d.root = c.root + k) : d.Headroom 0 ↔ c.Headroom k := by
  unfold Headroom
  rw [alike.params,alike.accesses,alike.defer,alike.pending,grown]

theorem read_ends (ready : Ready c memory tree) (assigned : c.posmap id = some p)
    (room : c.root + 1 < 2 ^ 32 ∧ c.Headroom 1)
    (spares : ¬ Steady c.backend → ∀ s, c.EvictsAt (.read id) s → s.Spares) :
    Ends (read id) c
      (fun a d => memory id = some a ∧ d.params = c.params ∧ d.load ≤ c.load + 2 ∧ (Steady c.backend → Steady d.backend) ∧
        ∃ tree', Ready d memory tree' ∧ (Orderly c memory tree → Orderly d memory tree') ∧
          ((∀ s, c.EvictsAt (.read id) s → ∀ fresh left, s.evictionPlan = .ok (fresh,left) → ∃ x ∈ left.blocks, x.id = id) →
            Sole c.params tree p id → (∃ x ∈ d.stash.blocks, x.id = id) ∧ Absent c.params tree' id) ∧
          ∀ s, c.EvictsAt (.read id) s → ∀ fresh left, s.evictionPlan = .ok (fresh,left) → d.stash = left)
      (fun e d => Lost e ∧ ¬ Steady c.backend ∧ d.params = c.params ∧ d.load ≤ c.load + 2 ∧
        ∃ tree', Ready d memory tree') := by
  have accessing := readAccess_ends ready.toSound assigned room.1
  unfold read
  apply Ends.bind (accessing.imp (fun _ _ done => done) ?_)
  · rintro a d ran ⟨value,alike,grown,steady,held,tree',sound,orderly,sole⟩
    have quota : d.accessesSinceEvict < d.params.a := by rw [alike.accesses,alike.params]; exact ready.quota
    have read := alike.load (Nat.le_of_eq grown)
    have ending := afterAccess_ends sound quota ((alike.headroom grown).mpr room.2) fun unsteady s starts =>
      spares (fun good => unsteady (steady good)) s ⟨a,d,ran,starts⟩
    apply Ends.bind (ending.imp (fun _ _ done => done) ?_)
    · rintro _ e _ ⟨params,low,later,idle,evicted,tree'',ready',orderly',absent⟩
      refine .ok (pure_run a e) ⟨value,params.trans alike.params,low.trans (Nat.add_le_add_right read 1),fun good => later (steady good),tree'',ready',
        fun before => orderly' (orderly before),fun stays alone => ?_,?_⟩
      rotate_left
      · rintro s ⟨a',d',ran',starts⟩ fresh left plan
        rw [ran] at ran'
        cases ran'
        exact evicted s fresh left starts plan
      have inHand : ∃ x ∈ e.stash.blocks, x.id = id := by
        cases starts : d.inlineEviction with
        | none => rw [idle starts]; exact held
        | some s =>
            obtain ⟨rfl,_⟩ := inlineEviction_due starts
            have begun : Sound d.due memory tree' := sound.same rfl rfl rfl rfl rfl rfl rfl rfl
            obtain ⟨fresh,left,plan,_⟩ := begun.plan
            rw [evicted _ fresh left starts plan]
            exact stays _ ⟨a,d,ran,starts⟩ fresh left plan
      refine ⟨inHand,?_⟩
      have gone := absent id inHand
      rw [alike.params] at gone
      exact gone (sole alone)
    · rintro e t ⟨lost,unsteady,params,low,after⟩
      exact ⟨lost,fun good => unsteady (steady good),params.trans alike.params,low.trans (Nat.add_le_add_right read 1),after⟩
  · rintro e d ⟨lost,unsteady,alike,grown,tree',sound⟩
    exact ⟨lost,unsteady,alike.params,(alike.load grown).trans (Nat.le_succ _),tree',sound,by rw [alike.accesses,alike.params]; exact ready.quota⟩

-- What a step leaves to be found when its backend failed it.
def remembered (memory : Memory) : Op → Memory
  | .admitBlock id payload => Function.update memory id (some payload)
  | _ => memory

-- What a step of a sound client comes to, whatever the operation: the reply of
-- the plain map and the next sound state, or a backend failure and a sound state.
def Answers (c : RingOramClient B) (memory : Memory) (tree : Nat → List Block) (op : Op) : Prop :=
  Ends (perform op) c
    (fun reply d => reply = (meaningOf c.params.blockBytes memory op).1 ∧ d.params = c.params ∧ d.load ≤ c.load + 2 ∧
      (Steady c.backend → Steady d.backend) ∧ ∃ tree', Ready d (meaningOf c.params.blockBytes memory op).2 tree' ∧
        (Orderly c memory tree → Orderly d (meaningOf c.params.blockBytes memory op).2 tree'))
    (fun e d => (∃ error, e = .error error ∧ meaningOf c.params.blockBytes memory op = (.failed error,memory) ∧ d = c) ∨
      (Lost e ∧ ¬ Steady c.backend ∧ d.params = c.params ∧ d.load ≤ c.load + 2 ∧
        ∃ tree', Ready d (remembered memory op) tree'))

omit [LossyBackend B] in
theorem read_unknown (unmapped : c.posmap id = none) : perform (.read id) c = .error (.error (.unknownBlock id)) c := by
  have ran : readAccess id c = .error (.error (.unknownBlock id)) c := by
    unfold readAccess
    rw [bind_ok (get_run c)]
    simp only [unmapped]
    rfl
  exact bind_error (bind_error ran)

omit [LossyBackend B] in
theorem admit_refused (unsized : payload.length ≠ c.params.blockBytes) :
    perform (.admitBlock id payload) c = .error (.error (.payloadSize c.params.blockBytes payload.length)) c := by
  have ran : admitAccess id payload c = .error (.error (.payloadSize c.params.blockBytes payload.length)) c := by
    unfold admitAccess
    rw [bind_ok (get_run c)]
    exact (congrFun (if_pos unsized) c).trans rfl
  exact bind_error (bind_error ran)

theorem read_answers (ready : Ready c memory tree) (room : c.Room (.read id))
    (spares : ¬ Steady c.backend → ∀ s, c.EvictsAt (.read id) s → s.Spares) : Answers c memory tree (.read id) := by
  unfold Answers
  cases assigned : c.posmap id with
  | none =>
      refine .error (read_unknown assigned) (.inl ⟨_,rfl,?_,rfl⟩)
      simp [meaningOf,ready.recoverable.named.unknown assigned]
  | some p =>
      unfold perform
      have reading := read_ends ready assigned (room (by rw [assigned]; rfl)) spares
      apply Ends.bind (reading.imp (fun _ _ done => done) ?_)
      · rintro a d _ ⟨value,params,low,steady,tree',ready',orderly,_⟩
        have meant : meaningOf c.params.blockBytes memory (.read id) = (.payload a,memory) := by simp [meaningOf,value]
        rw [meant]
        exact .ok (pure_run _ d) ⟨rfl,params,low,steady,tree',ready',orderly⟩
      · rintro e d failed
        exact .inr failed

theorem admit_answers (ready : Ready c memory tree) (fresh : Fresh memory (.admitBlock id payload))
    (room : c.Room (.admitBlock id payload)) (spares : ¬ Steady c.backend → ∀ s, c.EvictsAt (.admitBlock id payload) s → s.Spares) :
    Answers c memory tree (.admitBlock id payload) := by
  unfold Answers perform
  by_cases sized : payload.length = c.params.blockBytes
  · obtain ⟨d,ran,alike,same,backend,sound,orderly⟩ := admitAccess_sound ready.toSound fresh.1 fresh.2 sized
    have meant : meaningOf c.params.blockBytes memory (.admitBlock id payload) =
        (.done,Function.update memory id (some payload)) := if_pos sized
    have quota : d.accessesSinceEvict < d.params.a := by rw [alike.accesses,alike.params]; exact ready.quota
    have free : d.Headroom 0 := (alike.headroom (same.trans (Nat.add_zero _).symm)).mpr (room sized)
    have ending := afterAccess_ends sound quota free fun unsteady s starts =>
      spares (by rwa [backend] at unsteady) s ⟨d,ran,starts⟩
    have light : ∀ k l, k ≤ l → d.load + k ≤ c.load + l := by
      intro k l more
      have equal : d.load = c.load := by unfold load; rw [same,alike.pending]
      omega
    rw [meant]
    have whole := Ends.after (f:=fun _ => afterAccess) ran ending
    apply Ends.bind (whole.imp (fun _ _ done => done) ?_)
    · rintro _ e _ ⟨params,low,steady,_,_,tree',ready',orderly',_⟩
      rw [backend] at steady
      exact .ok (pure_run _ e) ⟨rfl,params.trans alike.params,low.trans (light 1 2 (by decide)),steady,tree',ready',fun before => orderly' (orderly before)⟩
    · rintro e t ⟨lost,unsteady,params,low,after⟩
      rw [backend] at unsteady
      exact .inr ⟨lost,unsteady,params.trans alike.params,low.trans (light 1 2 (by decide)),after⟩
  · exact .error (admit_refused sized) (.inl ⟨_,rfl,if_neg sized,rfl⟩)

omit [LossyBackend B] in
theorem write_opening (sized : payload.length = c.params.blockBytes) :
    write id payload c = (read id >>= fun _ => get >>= fun client =>
      match client.stash.take id with
      | none => throw (.panic "read placed it in the stash")
      | some (entry,left) => do
        let payload ← checked (payloadFromExact payload client.params.blockBytes)
        let stash ← checked (left.insert {entry with payload:=payload})
        set {client with stash:=stash} : OramM B Unit) c := by
  unfold write
  rw [bind_ok (get_run c)]
  exact congrFun (if_neg (fun wrong => wrong sized)) c

theorem write_answers (ready : Ready c memory tree) (room : c.Room (.write id payload))
    (spares : ¬ Steady c.backend → ∀ s, c.EvictsAt (.write id payload) s → s.Spares) (keeps : c.Keeps (.write id payload))
    (alone : c.Alone (.write id payload)) :
    Answers c memory tree (.write id payload) := by
  unfold Answers perform
  by_cases sized : payload.length = c.params.blockBytes
  · have opening : write id payload c = _ := write_opening sized
    cases assigned : c.posmap id with
    | none =>
        have unknown := ready.recoverable.named.unknown assigned
        have ran : write id payload c = .error (.error (.unknownBlock id)) c := by
          refine opening.trans (bind_error ?_)
          unfold read
          apply bind_error
          unfold readAccess
          rw [bind_ok (get_run c)]
          simp only [assigned]
          rfl
        refine .error (bind_error ran) (.inl ⟨_,rfl,?_,rfl⟩)
        simp [meaningOf,unknown,sized]
    | some p =>
        have evicts : ∀ s, c.EvictsAt (.read id) s → c.EvictsAt (.write id payload) s := fun s starts => ⟨sized,starts⟩
        have reading := read_ends ready assigned (room sized (by rw [assigned]; rfl)) fun unsteady s starts =>
          spares unsteady s (evicts s starts)
        have leaf := ready.recoverable.named.leaf id p assigned
        obtain ⟨old,value⟩ := ready.recoverable.named.value assigned
        have real := (ready.recoverable.named.sound id old value).1
        have meant : meaningOf c.params.blockBytes memory (.write id payload) =
            (.done,Function.update memory id (some payload)) := by simp [meaningOf,value,sized]
        have sole : Sole c.params tree p id := by
          intro b small closed x member
          have apart := alone p assigned b small closed x
          rw [ready.shelved.contents small] at apart
          exact apart member
        rw [meant]
        have whole : Ends (write id payload) c
            (fun _ d => d.params = c.params ∧ d.load ≤ c.load + 2 ∧ (Steady c.backend → Steady d.backend) ∧
              ∃ tree', Ready d (Function.update memory id (some payload)) tree' ∧
                (Orderly c memory tree → Orderly d (Function.update memory id (some payload)) tree'))
            (fun e d => Lost e ∧ ¬ Steady c.backend ∧ d.params = c.params ∧ d.load ≤ c.load + 2 ∧
              ∃ tree', Ready d memory tree') := by
          unfold Ends
          rw [opening]
          apply Ends.bind (reading.imp (fun _ _ done => done) fun _ _ failed => failed)
          rintro a d _ ⟨_,params,low,steady,tree',ready',orderly,holds,_⟩
          obtain ⟨⟨x,held,named⟩,absent⟩ := holds (fun s starts => keeps s (evicts s starts)) sole
          have taken : d.stash.take id = some (x,d.stash.erase id) := by
            unfold Stash.take
            rw [Stash.peek_some.mpr ⟨held,named⟩]
            rfl
          have exact_ : payloadFromExact payload d.params.blockBytes = .ok payload := if_pos (by rw [params]; exact sized)
          have fresh := Stash.peek_erased d.stash id
          have pushed : (d.stash.erase id).insert {x with payload:=payload} = .ok ((d.stash.erase id).push ⟨id,payload⟩ fresh) := by
            rw [named]
            simp [Stash.insert,Block.isDummy,real,fresh]
          obtain ⟨q,again,leaf'⟩ := ready'.recoverable.named.assigned value
          have still : Function.update d.posmap id (some q) = d.posmap := by
            rw [←again]
            exact Function.update_eq_self ..
          refine Ends.ok (a:=()) (t:={d with stash:=(d.stash.erase id).push ⟨id,payload⟩ fresh}) ?_ ⟨params,low,steady,tree',⟨⟨
            ready'.shelved.same rfl rfl rfl rfl rfl rfl,?_,ready'.cursor⟩,ready'.quota⟩,fun before => ⟨?_,(orderly before).synced⟩⟩
          · rw [bind_ok (get_run d),taken]
            exact bind_ok (checked_ok exact_ d) |>.trans (bind_ok (checked_ok pushed d))
          · have put := ready'.recoverable.put (d.stash.erase id) fresh (fun y apart => (Stash.erase_others d.stash apart).1)
              (by rw [params]; exact absent) leaf' real (by rw [params]; exact sized)
            change Recoverable d.params _ ⟨Function.update d.posmap id (some q),_,tree'⟩ at put
            rwa [still] at put
          · have put := (orderly before).placed.put (d.stash.erase id) fresh (fun y apart => (Stash.erase_others d.stash apart).2)
              (by rw [params]; exact absent) leaf' real (by rw [params]; exact sized)
            change Placed d.params _ ⟨Function.update d.posmap id (some q),_,tree'⟩ at put
            rwa [still] at put
        apply Ends.bind (whole.imp (fun _ _ done => done) fun _ _ failed => .inr failed)
        rintro _ d _ done
        exact .ok (pure_run _ d) ⟨rfl,done⟩
  · have ran : write id payload c = .error (.error (.payloadSize c.params.blockBytes payload.length)) c := by
      unfold write
      rw [bind_ok (get_run c)]
      exact (congrFun (if_pos sized) c).trans rfl
    exact .error (bind_error ran) (.inl ⟨_,rfl,if_neg sized,rfl⟩)

-- The eviction inside the read put the block back on the tree: the write panics.
theorem write_panics (ready : Ready c memory tree) (good : Steady c.backend) (assigned : c.posmap id = some p)
    (sized : payload.length = c.params.blockBytes) (room : c.root + 1 < 2 ^ 32 ∧ c.Headroom 1) (moved : ¬ c.Keeps (.write id payload)) :
    ∃ d, perform (.write id payload) c = .error (.panic "read placed it in the stash") d := by
  have reading := read_ends ready assigned room fun unsteady => absurd good unsteady
  unfold Ends at reading
  cases ran : read id c with
  | error e d =>
      rw [ran] at reading
      exact absurd good reading.2.1
  | ok a d =>
      rw [ran] at reading
      obtain ⟨_,_,_,_,_,_,_,_,evicted⟩ := reading
      have gone : d.stash.take id = none := by
        by_contra present
        apply moved
        rintro s ⟨_,starts⟩ fresh left plan
        rw [←evicted s starts fresh left plan]
        cases found : d.stash.peek id with
        | none => exact absurd (by simp [Stash.take,found]) present
        | some x => exact ⟨x,Stash.peek_some.mp found⟩
      refine ⟨d,bind_error ?_⟩
      rw [write_opening sized,bind_ok ran,bind_ok (get_run d),gone]
      rfl

theorem perform_answers (ready : Ready c memory tree) (fresh : Fresh memory op) (room : c.Room op)
    (spares : ¬ Steady c.backend → ∀ s, c.EvictsAt op s → s.Spares) (keeps : c.Keeps op) (alone : c.Alone op) :
    Answers c memory tree op := by
  cases op with
  | admitBlock id payload => exact admit_answers ready fresh room spares
  | read id => exact read_answers ready room spares
  | write id payload => exact write_answers ready room spares keeps alone
  | setDeferEvictions defer =>
      exact Ends.ok (t:={c with deferEvictions:=defer}) rfl ⟨rfl,rfl,Nat.le_add_right _ 2,fun good => good,tree,
        ⟨ready.toSound.same rfl rfl rfl rfl rfl rfl rfl rfl,ready.quota⟩,fun before => ⟨before.placed,before.synced⟩⟩
  | flushEvictions =>
      have flushing : Ends flushEvictions c _ _ := Ends.after (get_run c) 
        (flushTurns_ends c.pendingEvictions ready room (Nat.le_refl _) spares)
      apply Ends.bind (flushing.imp (fun _ _ done => done) ?_)
      · rintro _ d _ ⟨params,low,after⟩
        exact .ok (pure_run _ d) ⟨rfl,params,low.trans (Nat.le_add_right _ 2),after⟩
      · rintro e d ⟨lost,unsteady,params,low,after⟩
        exact .inr ⟨lost,unsteady,params,low.trans (Nat.le_succ _),after⟩

theorem flushTurns_overflow (turns : Nat) (ready : Ready c memory tree) (good : Steady c.backend)
    (few : 0 < turns) (full : 2 ^ 32 ≤ c.root + turns) :
    ∃ d, flushTurns turns c = .error (.panic "attempt to add with overflow") d := by
  induction turns generalizing c tree with
  | zero => cases few
  | succ turns ih =>
      unfold flushTurns
      by_cases room : c.root + 1 < 2 ^ 32
      · have evicting := evictPath_ends ready.toSound room fun unsteady => absurd good unsteady
        unfold Ends at evicting
        cases evicted : evictPath c with
        | error e d =>
            rw [evicted] at evicting
            exact absurd good evicting.2.1
        | ok u d =>
            rw [evicted] at evicting
            obtain ⟨alike,grown,steady,_,tree',sound,_⟩ := evicting
            have next : Ready {d with pendingEvictions:=d.pendingEvictions-1} memory tree' :=
              ⟨sound.same rfl rfl rfl rfl rfl rfl rfl rfl,by
                show d.accessesSinceEvict < d.params.a
                rw [alike.accesses,alike.params]; exact ready.quota⟩
            rw [bind_ok evicted,bind_ok (modify_run _ d)]
            exact ih next (steady good) (by omega) (by
              show _ ≤ d.root + turns
              omega)
      · obtain ⟨d,panicked⟩ := evictPath_overflow ready.toSound good (Nat.le_of_not_lt room)
        exact ⟨d,bind_error panicked⟩

-- Without the room a step needs it panics: `Room` asks no more than is needed.
theorem perform_overflow (ready : Ready c memory tree) (good : Steady c.backend) (fresh : Fresh memory op)
    (full : ¬ c.Room op) : ∃ d, perform op c = .error (.panic "attempt to add with overflow") d := by
  have reads : ∀ id, (c.posmap id).isSome = true → ¬ (c.root + 1 < 2 ^ 32 ∧ c.Headroom 1) →
      ∃ d, read id c = .error (.panic "attempt to add with overflow") d := by
    intro id mapped full
    obtain ⟨p,assigned⟩ := Option.isSome_iff_exists.mp mapped
    by_cases room : c.root + 1 < 2 ^ 32
    · have accessing := readAccess_ends ready.toSound assigned room
      unfold Ends at accessing
      unfold read
      cases ran : readAccess id c with
      | error e d =>
          rw [ran] at accessing
          exact absurd good accessing.2.1
      | ok a d =>
          rw [ran] at accessing
          obtain ⟨_,alike,grown,steady,_,tree',sound,_⟩ := accessing
          obtain ⟨e,panicked⟩ := afterAccess_overflow sound (by rw [alike.accesses,alike.params]; exact ready.quota)
            (steady good) fun free => full ⟨room,(alike.headroom grown).mp free⟩
          rw [bind_ok ran]
          exact ⟨e,bind_error panicked⟩
    · obtain ⟨d,panicked⟩ := readAccess_overflow ready.toSound assigned good (Nat.le_of_not_lt room)
      exact ⟨d,bind_error panicked⟩
  cases op with
  | admitBlock id payload =>
      obtain ⟨sized,full⟩ := Classical.not_imp.mp full
      obtain ⟨d,ran,alike,same,backend,sound,_⟩ := admitAccess_sound ready.toSound fresh.1 fresh.2 sized
      obtain ⟨e,panicked⟩ := afterAccess_overflow sound (by rw [alike.accesses,alike.params]; exact ready.quota)
        (by rw [backend]; exact good) fun free => full ((alike.headroom (same.trans (Nat.add_zero _).symm)).mp free)
      exact ⟨e,bind_error ((bind_ok ran).trans panicked)⟩
  | read id =>
      obtain ⟨mapped,full⟩ := Classical.not_imp.mp full
      obtain ⟨d,panicked⟩ := reads id mapped full
      exact ⟨d,bind_error panicked⟩
  | write id payload =>
      obtain ⟨sized,full⟩ := Classical.not_imp.mp full
      obtain ⟨mapped,full⟩ := Classical.not_imp.mp full
      obtain ⟨d,panicked⟩ := reads id mapped full
      exact ⟨d,bind_error ((write_opening sized).trans (bind_error panicked))⟩
  | setDeferEvictions defer => exact absurd trivial full
  | flushEvictions =>
      obtain ⟨some_,full⟩ := Classical.not_imp.mp full
      obtain ⟨d,panicked⟩ := flushTurns_overflow c.pendingEvictions ready good some_ (Nat.le_of_not_lt full)
      exact ⟨d,bind_error ((bind_ok (get_run c)).trans panicked)⟩

end RingOramClient
end RingOram
