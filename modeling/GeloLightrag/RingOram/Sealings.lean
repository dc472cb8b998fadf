import GeloLightrag.Foundation.Mirroring
import GeloLightrag.RingOram.Nonces
import GeloLightrag.RingOram.Refinement

namespace RingOram.RingOramClient
open Foundation

section Relations
variable {B : Type}

def counter (c : RingOramClient B) (b : Nat) : Nat := c.counters.getD b 0

-- What the counters' bounds rest on: paths are of the tree, and the root, which is
-- on all of them, is written as often as any bucket.
structure Level (c : RingOramClient B) : Prop where
  fits : c.params.Fits
  leaf : ∀ id p, c.posmap id = some p → p < c.params.nLeaves
  level : ∀ b, c.counter b ≤ c.counter 0

-- Of what an operation notes each pair is new: its counter is past the one before
-- the operation, and not past the one after it.
structure Noticed (s t : RingOramClient B × Sealings) : Prop where
  sized : t.1.counters.length = s.1.counters.length
  rises : ∀ b, s.1.counter b ≤ t.1.counter b
  fresh : ∃ more, t.2 = s.2 ++ more ∧ more.Nodup ∧ ∀ p ∈ more, p.1 < s.1.counters.length ∧ s.1.counter p.1 < p.2 ∧ p.2 ≤ t.1.counter p.1

-- The root is written so many times at most.
structure Written (n : Nat) (s t : RingOramClient B × Sealings) : Prop extends Noticed s t where
  same : t.1.params = s.1.params
  level : Level t.1
  few : t.1.counter 0 ≤ s.1.counter 0 + n

-- The end of a program for which a counter has run out: its last note is of that.
def Worn (n : Nat) (s : RingOramClient B × Sealings) (e : Fault) (t : RingOramClient B × Sealings) : Prop :=
  e = .panic "attempt to add with overflow" ∧ ∃ mid b, Noticed s mid ∧ b < mid.1.counters.length ∧ t = (mid.1,mid.2 ++ [(b,mid.1.counter b + 1)]) ∧ 2 ^ 32 ≤ mid.1.counter b + 1 ∧ mid.1.counter b + 1 ≤ s.1.counter 0 + n

variable {s t u : RingOramClient B × Sealings} {n m : Nat}

theorem Noticed.refl (s : RingOramClient B × Sealings) : Noticed s s :=
  ⟨rfl,fun _ => Nat.le_refl _,[],(List.append_nil _).symm,List.nodup_nil,fun _ member => absurd member List.not_mem_nil⟩

theorem Noticed.trans (first : Noticed s t) (second : Noticed t u) : Noticed s u := by
  obtain ⟨more,noted,distinct,past⟩ := first.fresh
  obtain ⟨more',noted',distinct',past'⟩ := second.fresh
  refine ⟨second.sized.trans first.sized,fun b => (first.rises b).trans (second.rises b),more ++ more',by rw [noted',noted,List.append_assoc],?_,fun p member => ?_⟩
  · refine List.nodup_append.mpr ⟨distinct,distinct',fun p member q member' same => ?_⟩
    subst same
    exact absurd (past p member).2.2 (Nat.not_le.mpr (past' p member').2.1)
  · rcases List.mem_append.mp member with before | after
    · exact ⟨(past p before).1,(past p before).2.1,(past p before).2.2.trans (second.rises p.1)⟩
    · exact ⟨first.sized ▸ (past' p after).1,(first.rises p.1).trans_lt (past' p after).2.1,(past' p after).2.2⟩

theorem Written.refl (level : Level s.1) : Written 0 s s := ⟨.refl s,rfl,level,Nat.le_refl _⟩

theorem Written.trans (first : Written n s t) (second : Written m t u) : Written (n + m) s u := by
  have one := first.few
  have two := second.few
  exact ⟨first.toNoticed.trans second.toNoticed,second.same.trans first.same,second.level,by omega⟩

theorem Written.more (written : Written n s t) (more : n ≤ m) : Written m s t :=
  ⟨written.toNoticed,written.same,written.level,written.few.trans (Nat.add_le_add_left more _)⟩

theorem Worn.more {e : Fault} (worn : Worn n s e t) (more : n ≤ m) : Worn m s e t := by
  obtain ⟨panics,mid,b,noticed,inside,is,full,bounded⟩ := worn
  exact ⟨panics,mid,b,noticed,inside,is,full,by omega⟩

theorem Worn.after {e : Fault} (first : Written n s t) (worn : Worn m t e u) : Worn (n + m) s e u := by
  obtain ⟨panics,mid,b,noticed,inside,is,full,bounded⟩ := worn
  have few := first.few
  exact ⟨panics,mid,b,first.toNoticed.trans noticed,inside,is,full,by omega⟩

-- A step that changes no counter.
theorem Written.quiet {c d : RingOramClient B} {noted : Sealings} (level : Level d) (params : d.params = c.params) (counters : d.counters = c.counters) :
    Written 0 (c,noted) (d,noted) := by
  have alike : ∀ b, d.counter b = c.counter b := fun b => by rw [counter,counter,counters]
  exact ⟨⟨congrArg List.length counters,fun b => (alike b).ge,[],(List.append_nil _).symm,List.nodup_nil,fun _ member => absurd member List.not_mem_nil⟩,params,level,(alike 0).le⟩

theorem Level.spared {c d : RingOramClient B} (level : Level c) (same : bystanders d = bystanders c) : Level d := by
  obtain ⟨params,_,_,_,posmap,counters⟩ := bystanders_iff.mp same
  exact ⟨params ▸ level.fits,fun id p held => by rw [params]; exact level.leaf id p (posmap ▸ held),fun b => by
    rw [counter,counter,counters]; exact level.level b⟩

end Relations

section Batches
variable {B α : Type} {s t u : RingOramClient B × Sealings} {ids : List Nat}

-- Some buckets have been sealed anew, each once, and nothing else has changed.
structure Sealed (ids : List Nat) (s t : RingOramClient B × Sealings) : Prop where
  inside : ∀ b ∈ ids, b < s.1.counters.length
  sized : t.1.counters.length = s.1.counters.length
  counts : ∀ b, t.1.counter b = s.1.counter b + if b ∈ ids then 1 else 0
  noted : t.2 = s.2 ++ ids.map fun b => (b,s.1.counter b + 1)
  others : t.1 = {s.1 with counters:=t.1.counters}

-- A bucket's counter has run out when it is to be sealed.
def Refused (b : Nat) (s : RingOramClient B × Sealings) (e : Fault) (t : RingOramClient B × Sealings) : Prop :=
  e = .panic "attempt to add with overflow" ∧ b < s.1.counters.length ∧ t = (s.1,s.2 ++ [(b,s.1.counter b + 1)]) ∧ 2 ^ 32 ≤ s.1.counter b + 1

def SealsAt (b : Nat) (x : NotedM B α) : Prop := ∀ s, Ends x s (fun _ t => Sealed [b] s t) fun e t => t = s ∨ Refused b s e t

theorem Sealed.nothing (s : RingOramClient B × Sealings) : Sealed [] s s := ⟨fun _ member => absurd member List.not_mem_nil,rfl,fun _ => rfl,(List.append_nil _).symm,rfl⟩

theorem Sealed.join {b : Nat} (first : Sealed [b] s t) (rest : Sealed ids t u) (apart : b ∉ ids) : Sealed (b :: ids) s u := by
  refine ⟨fun x member => ?_,rest.sized.trans first.sized,fun x => ?_,?_,?_⟩
  · rcases List.mem_cons.mp member with rfl | later
    · exact first.inside x List.mem_cons_self
    · exact first.sized ▸ rest.inside x later
  · rw [rest.counts,first.counts]
    by_cases same : x = b
    · subst same
      simp [apart]
    · simp [same]
  · have alike : ids.map (fun x => (x,t.1.counter x + 1)) = ids.map fun x => (x,s.1.counter x + 1) := by
      refine List.map_congr_left fun x member => ?_
      have other : x ∉ [b] := fun single => apart (by rwa [List.mem_singleton.mp single] at member)
      rw [first.counts,if_neg other,Nat.add_zero]
    rw [rest.noted,first.noted,alike,List.append_assoc]
    rfl
  · rw [rest.others,first.others]

theorem mapM_seals {g : Nat → NotedM B α} (each : ∀ b, SealsAt b (g b)) (distinct : ids.Nodup) (s : RingOramClient B × Sealings) :
    Ends (ids.mapM g) s (fun _ t => Sealed ids s t)
      fun e t => ∃ done mid, done <+: ids ∧ Sealed done s mid ∧ (t = mid ∨ ∃ b ∈ ids, b ∉ done ∧ Refused b mid e t) := by
  induction ids generalizing s with
  | nil => exact Sealed.nothing s
  | cons b rest ih =>
      obtain ⟨apart,distinct⟩ := List.nodup_cons.mp distinct
      rw [List.mapM_cons]
      refine .bind ((each b s).imp (fun _ _ done => done) fun _ t failed => ?_) fun a t _ first => .bind ((ih distinct t).imp (fun _ _ done => done) fun _ u failed => ?_)
        fun as u _ later => first.join later apart
      · refine ⟨[],s,List.nil_prefix,.nothing s,failed.imp id fun refused => ⟨b,List.mem_cons_self,List.not_mem_nil,refused⟩⟩
      · obtain ⟨done,mid,front,later,ended⟩ := failed
        refine ⟨b :: done,mid,List.cons_prefix_cons.mpr ⟨rfl,front⟩,first.join later fun member => apart (front.subset member),ended.imp id ?_⟩
        rintro ⟨x,member,new,refused⟩
        refine ⟨x,List.mem_cons_of_mem _ member,fun inside => ?_,refused⟩
        rcases List.mem_cons.mp inside with rfl | inside
        · exact apart member
        · exact new inside

theorem Sealed.noticed (sealed_ : Sealed ids s t) (distinct : ids.Nodup) : Noticed s t := by
  refine ⟨sealed_.sized,fun b => by rw [sealed_.counts]; exact Nat.le_add_right _ _,_,sealed_.noted,?_,fun p member => ?_⟩
  · exact distinct.map fun a b same => (Prod.mk.inj same).1
  · obtain ⟨b,inside,rfl⟩ := List.mem_map.mp member
    exact ⟨sealed_.inside b inside,Nat.lt_succ_self _,by rw [sealed_.counts,if_pos inside]⟩

-- The buckets of a path, or those of them that come first.
theorem Sealed.written (sealed_ : Sealed ids s t) (distinct : ids.Nodup) (level : Level s.1) (rooted : ids = [] ∨ 0 ∈ ids) : Written 1 s t := by
  have params : t.1.params = s.1.params := by rw [sealed_.others]
  have posmap : t.1.posmap = s.1.posmap := by rw [sealed_.others]
  refine ⟨sealed_.noticed distinct,params,⟨params ▸ level.fits,fun id p held => by rw [params]; exact level.leaf id p (posmap ▸ held),fun b => ?_⟩,?_⟩
  · rw [sealed_.counts,sealed_.counts]
    have below := level.level b
    rcases rooted with rfl | first
    · exact below
    · rw [if_pos first]
      split <;> omega
  · rw [sealed_.counts]
    split <;> omega

-- What a batch over a path comes to.
theorem mapM_written {g : Nat → NotedM B α} (each : ∀ b, SealsAt b (g b)) (distinct : ids.Nodup) (root : ids.head? = some 0) (level : Level s.1) :
    Ends (ids.mapM g) s (fun _ t => Written 1 s t ∧ t.1 = {s.1 with counters:=t.1.counters}) fun e t => Written 1 s t ∨ Worn 1 s e t := by
  refine (mapM_seals each distinct s).imp (fun _ t done => ⟨done.written distinct level (.inr (List.mem_of_mem_head? root)),done.others⟩) fun _ t failed => ?_
  obtain ⟨done,mid,front,sealed_,ended⟩ := failed
  have distinct' := distinct.sublist front.sublist
  have rooted : done = [] ∨ 0 ∈ done := by
    cases done with
    | nil => exact .inl rfl
    | cons b rest =>
        obtain ⟨tail,rfl⟩ := front
        cases root
        exact .inr List.mem_cons_self
  rcases ended with rfl | ⟨b,_,new,panics,inside,is,full⟩
  · exact .inl (sealed_.written distinct' level rooted)
  · refine .inr ⟨panics,mid,b,sealed_.noticed distinct',inside,is,full,?_⟩
    rw [sealed_.counts,if_neg new]
    have below := level.level b
    omega

variable [AesGcm]

theorem resealBucket_seals (b : Nat) (pt : Bytes) : SealsAt (B:=B) b (Noted.resealBucket b pt) := by
  intro s
  unfold Noted.resealBucket
  refine .after (get_run s) ?_
  cases held : s.1.counters[b]? with
  | none =>
      have ran : RingOramClient.resealBucket b pt s.1 = .error (.panic outOfBounds) s.1 := by
        unfold resealBucket
        rw [bind_ok (get_run s.1),held]
        rfl
      simp only [held]
      exact .error (quiet_error ran) (.inl rfl)
  | some old =>
      have value : s.1.counter b = old := by rw [counter,List.getD_eq_getElem?_getD,held]; rfl
      have inside : b < s.1.counters.length := (List.getElem?_eq_some_iff.mp held).1
      simp only [held]
      refine .after (show note (b,old + 1) s = .ok () (s.1,s.2 ++ [(b,old + 1)]) from rfl) ?_
      by_cases room : old + 1 < 2 ^ 32
      · have ran : RingOramClient.resealBucket b pt s.1 = .ok ⟨b,old + 1,aesEncrypt s.1.key b (old + 1) pt⟩ {s.1 with counters:=s.1.counters.set b (old + 1)} := by
          unfold resealBucket
          rw [bind_ok (get_run s.1),held]
          exact bind_ok (checked_ok (add32_ok.mpr ⟨room,rfl⟩) s.1)
        refine .ok (quiet_ok ran) ⟨fun x member => List.mem_singleton.mp member ▸ inside,List.length_set,fun x => ?_,?_,rfl⟩
        · show (s.1.counters.set b (old + 1)).getD x 0 = s.1.counter x + _
          rw [List.getD_eq_getElem?_getD,List.getElem?_set]
          by_cases same : b = x
          · subst same
            simp [inside,value]
          · simp [same,Ne.symm same,counter]
        · rw [List.map_singleton,value]
      · have ran : RingOramClient.resealBucket b pt s.1 = .error (.panic "attempt to add with overflow") s.1 := by
          unfold resealBucket
          rw [bind_ok (get_run s.1),held]
          apply bind_error
          rw [add32_refused (Nat.le_of_not_lt room)]
          rfl
        refine .error (quiet_error ran) (.inr ⟨rfl,inside,?_,?_⟩)
        · rw [value]
        · rw [value]
          exact Nat.le_of_not_lt room

theorem serialised_seals (b : Nat) (x : Except String Bytes) :
    SealsAt (B:=B) b (do let pt ← quiet (checked x); Noted.resealBucket b pt) := by
  intro s
  cases x with
  | ok pt => exact .after (quiet_ok (checked_ok rfl s.1)) (resealBucket_seals b pt s)
  | error text => exact .error (bind_error (quiet_error (checked_error rfl s.1))) (.inl rfl)

end Batches

section Programs
variable {B α β : Type} {s : RingOramClient B × Sealings} {n m : Nat} {x : NotedM B α} {f : α → NotedM B β} {done : α → RingOramClient B × Sealings → Prop}
  {done' : β → RingOramClient B × Sealings → Prop}

-- A program that writes the root so many times at most, however it ends.
def Writes (n : Nat) (x : NotedM B α) (s : RingOramClient B × Sealings) (done : α → RingOramClient B × Sealings → Prop) : Prop :=
  Ends x s (fun a t => Written n s t ∧ done a t) fun e t => Written n s t ∨ Worn n s e t

namespace Writes

theorem pure (level : Level s.1) (a : α) (now : done a s) : Writes 0 (Pure.pure a) s done := ⟨.refl level,now⟩

theorem throw (level : Level s.1) (e : Fault) : Writes 0 (throw e) s done := .inl (.refl level)

theorem more (writes : Writes n x s done) (less : n ≤ m) : Writes m x s done :=
  Ends.imp writes (fun _ _ ended => ⟨ended.1.more less,ended.2⟩) fun _ _ ended => ended.imp (·.more less) (·.more less)

theorem bind (first : Writes n x s done) (rest : ∀ a t, Written n s t → done a t → Writes m (f a) t done') : Writes (n + m) (x >>= f) s done' := by
  refine Ends.bind (Ends.imp first (fun _ _ ended => ended) fun _ _ ended => ended.imp (·.more (Nat.le_add_right n m)) (·.more (Nat.le_add_right n m))) fun a t _ ended => ?_
  exact Ends.imp (rest a t ended.1 ended.2) (fun _ _ later => ⟨ended.1.trans later.1,later.2⟩) fun _ _ later => later.imp ended.1.trans (Worn.after ended.1)

theorem get {f : RingOramClient B × Sealings → NotedM B β} (rest : Writes n (f s) s done') : Writes n (MonadState.get >>= f) s done' := Ends.after (get_run s) rest

-- First what writes nothing.
theorem then_ (first : Writes 0 x s done) (rest : ∀ a t, Written 0 s t → done a t → Writes m (f a) t done') : Writes m (x >>= f) s done' :=
  (first.bind rest).more (Nat.zero_add m).le

-- Last what writes nothing.
theorem before (first : Writes n x s done) (rest : ∀ a t, Written n s t → done a t → Writes 0 (f a) t done') : Writes n (x >>= f) s done' := first.bind rest

theorem quiet {y : OramM B α} (ends : Ends y s.1 (fun a d => (Level d ∧ d.params = s.1.params ∧ d.counters = s.1.counters) ∧ ∀ noted, done a (d,noted))
    fun _ d => Level d ∧ d.params = s.1.params ∧ d.counters = s.1.counters) : Writes 0 (quiet y) s done := by
  cases ran : y s.1 with
  | ok a d =>
      obtain ⟨⟨level,params,counters⟩,ended⟩ := ends.at_ok ran
      exact Ends.ok (quiet_ok ran) ⟨.quiet level params counters,ended _⟩
  | error e d =>
      obtain ⟨level,params,counters⟩ := ends.at_error ran
      exact Ends.error (quiet_error ran) (.inl (.quiet level params counters))

theorem spared {y : OramM B α} (level : Level s.1) (spares : Frames bystanders y s.1) : Writes 0 (Foundation.quiet y) s fun _ t => bystanders t.1 = bystanders s.1 := by
  have kept : ∀ d, bystanders d = bystanders s.1 → Level d ∧ d.params = s.1.params ∧ d.counters = s.1.counters := fun d same =>
    ⟨level.spared same,(bystanders_iff.mp same).1,(bystanders_iff.mp same).2.2.2.2.2⟩
  exact .quiet (Ends.imp spares (fun _ d same => ⟨kept d same,fun _ => same⟩) fun _ d same => kept d same)

-- A checked value leaves the state as it is.
theorem checked {y : Except String α} (level : Level s.1) (rest : ∀ a, y = .ok a → Writes n (f a) s done') :
    Writes n (Foundation.quiet (RingOram.checked y) >>= f) s done' := by
  cases y with
  | ok a => exact Ends.after (quiet_ok (checked_ok rfl s.1)) (rest a rfl)
  | error text =>
      have stuck : (Foundation.quiet (RingOram.checked (.error text)) : NotedM B α) s = .error (.panic text) s := quiet_error rfl
      exact Ends.error (bind_error stuck) (.inl ((Written.refl level).more (Nat.zero_le n)))

end Writes

-- The counts an eviction leaves alone.
def pace (c : RingOramClient B) : Bool × Nat × Nat := (c.deferEvictions,c.accessesSinceEvict,c.pendingEvictions)

theorem pace_spared {c d : RingOramClient B} (same : bystanders d = bystanders c) : pace d = pace c := by
  obtain ⟨_,defer,pending,accesses,_⟩ := bystanders_iff.mp same
  rw [pace,pace,defer,pending,accesses]

variable [BlockBackend B] [AesGcm]

theorem evictPath_writes (level : Level s.1) : Writes 1 Noted.evictPath s fun _ t => pace t.1 = pace s.1 := by
  refine .get ?_
  dsimp only
  split
  · exact (Writes.throw level _).more (Nat.zero_le 1)
  · rename_i leaves
    have leaf : s.1.evictCursor % s.1.params.nLeaves < s.1.params.nLeaves := Nat.mod_lt _ (Nat.pos_of_ne_zero leaves)
    refine .checked level fun cursor _ => ?_
    have moved : Writes 0 (quiet (set {s.1 with evictCursor:=cursor % s.1.params.nLeaves})) s fun _ t => bystanders t.1 = bystanders s.1 := .spared level (.set rfl)
    refine moved.then_ fun _ t1 w1 k1 => ?_
    refine .checked w1.level fun bucketIds found => ?_
    rw [pathBuckets_path level.fits leaf] at found
    cases found
    refine (Writes.spared w1.level (openPath_spares _ _ _)).then_ fun _ t2 w2 k2 => .get (.checked w2.level fun cap _ => .checked w2.level fun packed _ => ?_)
    have put : Writes 0 (quiet (set {t2.1 with stash:=packed.2,scans:=t2.1.scans+1})) t2 fun _ t => bystanders t.1 = bystanders t2.1 := .spared w2.level (.set rfl)
    refine put.then_ fun _ t3 w3 k3 => ?_
    have batch := @mapM_written B _ t3 (s.1.params.path (s.1.evictCursor % s.1.params.nLeaves)) _ (fun bid => serialised_seals (B:=B) bid
      (serialiseBucket (padTo cap t2.1.params.blockBytes (packed.1 bid)) t2.1.params)) (path_nodup level.fits leaf) (path_root level.fits leaf) w3.level
    refine Writes.before batch fun updates t4 w4 others => Ends.imp (Writes.spared w4.level (writeBucketsCached_spares updates _)) (fun _ t5 ended => ⟨ended.1,?_⟩)
      fun _ _ failed => failed
    have batched : pace t4.1 = pace t3.1 := by rw [others]; rfl
    exact (pace_spared ended.2).trans (batched.trans (pace_spared (k3.trans (k2.trans k1))))

-- The evictions that an access count makes due, in so many turns where nothing is
-- taken from the count.
def evictionsAt (c : RingOramClient B) (turns : Nat) : Nat :=
  if c.deferEvictions then 0 else if c.params.a = 0 then turns else c.accessesSinceEvict / c.params.a

omit [BlockBackend B] [AesGcm] in
theorem addPending_ends (c : RingOramClient B) : Ends addPending c (fun _ d => d = {c with pendingEvictions:=d.pendingEvictions}) fun _ d => d = c := by
  refine .after (get_run c) ?_
  cases counted : add32 c.pendingEvictions 1 with
  | error text => exact .error (bind_error (checked_error rfl c)) rfl
  | ok pending => exact .after (checked_ok rfl c) rfl

omit [BlockBackend B] [AesGcm] in
theorem Level.moved {c d : RingOramClient B} (level : Level c) (params : d.params = c.params) (posmap : d.posmap = c.posmap) (counters : d.counters = c.counters) :
    Level d :=
  ⟨params ▸ level.fits,fun id p held => by rw [params]; exact level.leaf id p (posmap ▸ held),fun b => by rw [counter,counter,counters]; exact level.level b⟩

omit [BlockBackend B] [AesGcm] in
theorem evictionsAt_alike {c d : RingOramClient B} (turns : Nat) (params : d.params = c.params) (defer : d.deferEvictions = c.deferEvictions)
    (accesses : d.accessesSinceEvict = c.accessesSinceEvict) : evictionsAt d turns = evictionsAt c turns := by
  simp only [evictionsAt,params,defer,accesses]

omit [BlockBackend B] [AesGcm] in
-- One eviction that is due, and what it leaves.
theorem evictionsAt_due {c : RingOramClient B} (turns : Nat) (prompt : c.deferEvictions = false) (due : c.params.a ≤ c.accessesSinceEvict) :
    evictionsAt c (turns + 1) = 1 + evictionsAt {c with accessesSinceEvict:=c.accessesSinceEvict - c.params.a} turns := by
  by_cases quota : c.params.a = 0
  · simp [evictionsAt,prompt,quota,Nat.add_comm]
  · have shorter := Nat.div_eq_sub_div (Nat.pos_of_ne_zero quota) due
    simp [evictionsAt,prompt,quota,shorter,Nat.add_comm]

theorem maybeEvictTurns_writes (turns : Nat) (level : Level s.1) : Writes (evictionsAt s.1 turns) (Noted.maybeEvictTurns turns) s fun _ _ => True := by
  induction turns generalizing s with
  | zero =>
      refine .get ?_
      dsimp only
      split
      · exact (Writes.throw level _).more (Nat.zero_le _)
      · exact (Writes.pure level _ trivial).more (Nat.zero_le _)
  | succ turns ih =>
      refine .get ?_
      dsimp only
      split
      · rename_i due
        have moved : Writes 0 (quiet (set {s.1 with accessesSinceEvict:=s.1.accessesSinceEvict - s.1.params.a})) s
            fun _ t => t.1 = {s.1 with accessesSinceEvict:=s.1.accessesSinceEvict - s.1.params.a} :=
          .quiet ⟨⟨level.moved rfl rfl rfl,rfl,rfl⟩,fun _ => rfl⟩
        refine moved.then_ fun _ t w is => ?_
        cases defer : s.1.deferEvictions with
        | true =>
            have added : Writes 0 (quiet addPending) t fun _ u => u.1 = {t.1 with pendingEvictions:=u.1.pendingEvictions} := by
              refine .quiet ((addPending_ends t.1).imp (fun _ d same => ?_) fun _ d same => ?_)
              · rw [same]
                exact ⟨⟨w.level.moved rfl rfl rfl,rfl,rfl⟩,fun _ => rfl⟩
              · rw [same]
                exact ⟨w.level,rfl,rfl⟩
            refine added.then_ fun _ u w' is' => (ih w'.level).more ?_
            have still : u.1.deferEvictions = true := by rw [is',is]; exact defer
            simp only [evictionsAt,still,if_true,Nat.zero_le]
        | false =>
            rw [evictionsAt_due turns defer due]
            refine Writes.bind (evictPath_writes w.level) fun _ u w' paced => ?_
            rw [pace,pace,Prod.mk.injEq,Prod.mk.injEq] at paced
            have later := ih w'.level
            rwa [evictionsAt_alike turns w'.same paced.1 paced.2.1,is] at later
      · exact (Writes.pure level _ trivial).more (Nat.zero_le _)

-- Those that the next access makes due.
def evictionsDue (c : RingOramClient B) : Nat := evictionsAt {c with accessesSinceEvict:=c.accessesSinceEvict+1} (c.accessesSinceEvict + 1)

omit [BlockBackend B] [AesGcm] in
theorem evictionsDue_alike {c d : RingOramClient B} (params : d.params = c.params) (paced : pace d = pace c) : evictionsDue d = evictionsDue c := by
  rw [pace,pace,Prod.mk.injEq,Prod.mk.injEq] at paced
  simp only [evictionsDue,evictionsAt,params,paced.1,paced.2.1]

theorem afterAccess_writes (level : Level s.1) : Writes (evictionsDue s.1) Noted.afterAccess s fun _ _ => True := by
  have counting : Writes 0 (quiet countAccess) s fun _ t => t.1 = {s.1 with accessesSinceEvict:=s.1.accessesSinceEvict+1} := by
    refine .quiet (.after (get_run s.1) ?_)
    cases counted : add32 s.1.accessesSinceEvict 1 with
    | error text => exact .error (bind_error (checked_error rfl s.1)) ⟨level,rfl,rfl⟩
    | ok accesses =>
        obtain ⟨_,rfl⟩ := add32_ok.mp counted
        exact .after (checked_ok rfl s.1) ⟨⟨level.moved rfl rfl rfl,rfl,rfl⟩,fun _ => rfl⟩
  refine counting.then_ fun _ t w is => .get ?_
  have later := maybeEvictTurns_writes t.1.accessesSinceEvict w.level
  have due : evictionsAt t.1 t.1.accessesSinceEvict = evictionsDue s.1 := by rw [is]; rfl
  rwa [due] at later

theorem flushTurns_writes (turns : Nat) (level : Level s.1) : Writes turns (Noted.flushTurns turns) s fun _ _ => True := by
  induction turns generalizing s with
  | zero => exact .pure level _ trivial
  | succ turns ih =>
      refine Writes.more (Writes.bind (evictPath_writes level) fun _ t w _ => ?_) (Nat.add_comm 1 turns).le
      have moved : Writes 0 (quiet (modify fun client => {client with pendingEvictions:=client.pendingEvictions-1})) t fun _ _ => True :=
        .quiet ⟨⟨w.level.moved rfl rfl rfl,rfl,rfl⟩,fun _ => trivial⟩
      exact moved.then_ fun _ u w' _ => ih w'.level

omit [BlockBackend B] [AesGcm] in
-- A leaf drawn for a block.
theorem Level.assigned {c : RingOramClient B} {posmap : PositionMap} {path : Nat} {id : BlockId} (level : Level c) (leaf : path < c.params.nLeaves)
    (stored : PositionMap.set c.posmap id path = .ok posmap) : Level {c with posmap:=posmap} := by
  refine ⟨level.fits,fun other p held => ?_,level.level⟩
  change posmap other = some p at held
  unfold PositionMap.set at stored
  split at stored
  · cases stored
  · cases stored
    by_cases same : other = id
    · rw [same,Function.update_self] at held
      cases held
      exact leaf
    · rw [Function.update_of_ne same] at held
      exact level.leaf other p held

omit [BlockBackend B] [AesGcm] in
theorem freshPath_draws (c : RingOramClient B) : Ends freshPath c (fun path d => bystanders d = bystanders c ∧ path < c.params.nLeaves) fun _ d => d = c := by
  refine .after (get_run c) ?_
  split
  · exact (rfl : c = c)
  · rename_i leaves
    exact ⟨rfl,Nat.mod_lt _ (Nat.pos_of_ne_zero leaves)⟩

omit [BlockBackend B] [AesGcm] in
theorem admitAccess_draws {c : RingOramClient B} (level : Level c) (id : BlockId) (payload : Bytes) : Ends (admitAccess id payload) c
    (fun _ d => (Level d ∧ d.params = c.params ∧ d.counters = c.counters) ∧ pace d = pace c) fun _ d => Level d ∧ d.params = c.params ∧ d.counters = c.counters := by
  refine .after (get_run c) ?_
  split
  · exact ⟨level,rfl,rfl⟩
  · refine .bind ((freshPath_draws c).imp (fun _ _ ended => ended) fun _ d same => by rw [same]; exact ⟨level,rfl,rfl⟩) fun path d _ ended => .after (get_run d) ?_
    obtain ⟨params,_,_,_,_,counters⟩ := bystanders_iff.mp ended.1
    have here := level.spared ended.1
    cases stored : PositionMap.set d.posmap id path with
    | error text => exact .error (bind_error (checked_error rfl d)) ⟨here,params,counters⟩
    | ok posmap =>
        have next := here.assigned (by rw [params]; exact ended.2) stored
        have paced : pace d = pace c := pace_spared ended.1
        refine .after (checked_ok rfl d) (.after (set_run _ _) ?_)
        cases whole : payloadFromExact payload d.params.blockBytes with
        | error text => exact .error (bind_error (checked_error rfl _)) ⟨next,params,counters⟩
        | ok bytes =>
            refine .after (checked_ok rfl _) (.after (get_run _) ?_)
            cases inserted : d.stash.insert ⟨id,bytes⟩ with
            | error text => exact .error (bind_error (checked_error rfl _)) ⟨next,params,counters⟩
            | ok stash => exact .after (checked_ok rfl _) ⟨⟨next.moved rfl rfl rfl,params,counters⟩,paced⟩

theorem readAccess_writes (id : BlockId) (level : Level s.1) : Writes 1 (Noted.readAccess id) s fun _ t => pace t.1 = pace s.1 := by
  refine .get ?_
  dsimp only
  cases assigned : s.1.posmap id with
  | none => exact (Writes.throw level _).more (Nat.zero_le 1)
  | some path =>
      have leaf := level.leaf id path assigned
      refine .checked level fun bucketIds found => ?_
      rw [pathBuckets_path level.fits leaf] at found
      cases found
      refine (Writes.spared level (openPath_spares _ _ _)).then_ fun _ t1 w1 k1 => .get ?_
      cases t1.1.stash.peek id with
      | none => exact (Writes.throw w1.level _).more (Nat.zero_le 1)
      | some block =>
          have drawn : Writes 0 (quiet freshPath) t1 fun path t => bystanders t.1 = bystanders t1.1 ∧ path < t1.1.params.nLeaves := by
            refine .quiet ((freshPath_draws t1.1).imp (fun path d ended => ?_) fun _ d same => ?_)
            · obtain ⟨params,_,_,_,_,counters⟩ := bystanders_iff.mp ended.1
              exact ⟨⟨w1.level.spared ended.1,params,counters⟩,fun _ => ended⟩
            · rw [same]
              exact ⟨w1.level,rfl,rfl⟩
          refine drawn.then_ fun newPath t2 w2 ended => .get (.checked w2.level fun posmap stored => ?_)
          have next := w2.level.assigned (by rw [(bystanders_iff.mp ended.1).1]; exact ended.2) stored
          have put : Writes 0 (quiet (set {t2.1 with posmap:=posmap})) t2 fun _ t => t.1 = {t2.1 with posmap:=posmap} :=
            .quiet ⟨⟨next,rfl,rfl⟩,fun _ => rfl⟩
          refine put.then_ fun _ t3 w3 is => .checked w3.level fun pt _ => ?_
          have batch := @mapM_written B _ t3 (s.1.params.path path) _ (fun bid => resealBucket_seals (B:=B) bid pt) (path_nodup level.fits leaf)
            (path_root level.fits leaf) w3.level
          refine Writes.before batch fun updates t4 w4 others => (Writes.spared w4.level (writeBucketsCached_spares updates _)).then_ fun _ t5 w5 k5 => .pure w5.level _ ?_
          have batched : pace t4.1 = pace t3.1 := by rw [others]; rfl
          have moved : pace t3.1 = pace t2.1 := by rw [is]; rfl
          exact (pace_spared k5).trans (batched.trans (moved.trans (pace_spared (ended.1.trans k1))))

theorem read_writes (id : BlockId) (level : Level s.1) : Writes (1 + evictionsDue s.1) (Noted.read id) s fun _ _ => True := by
  refine Writes.bind (readAccess_writes id level) fun payload t w paced => ?_
  have later := afterAccess_writes w.level
  rw [evictionsDue_alike w.same paced] at later
  exact later.before fun _ u w' _ => .pure w'.level payload trivial

-- How often an operation can write the root.
def writes (c : RingOramClient B) : Op → Nat
  | .admitBlock _ _ => evictionsDue c
  | .read _ => 1 + evictionsDue c
  | .write _ _ => 1 + evictionsDue c
  | .setDeferEvictions _ => 0
  | .flushEvictions => c.pendingEvictions

theorem perform_writes (op : Op) (level : Level s.1) : Writes (writes s.1 op) (Noted.perform op) s fun _ _ => True := by
  cases op with
  | admitBlock id payload =>
      have admitted : Writes 0 (quiet (admitAccess id payload)) s fun _ t => pace t.1 = pace s.1 :=
        .quiet ((admitAccess_draws level id payload).imp (fun _ _ ended => ⟨ended.1,fun _ => ended.2⟩) fun _ _ failed => failed)
      have accessed : Writes (evictionsDue s.1) (Noted.admitBlock id payload) s fun _ _ => True := admitted.then_ fun _ t w paced => by
        have later := afterAccess_writes w.level
        rwa [evictionsDue_alike w.same paced] at later
      exact accessed.before fun _ u w _ => .pure w.level _ trivial
  | read id => exact Writes.before (read_writes id level) fun payload t w _ => .pure w.level _ trivial
  | write id payload =>
      have written : Writes (1 + evictionsDue s.1) (Noted.write id payload) s fun _ _ => True := by
        refine .get ?_
        dsimp only
        split
        · exact (Writes.throw level _).more (Nat.zero_le _)
        · refine Writes.before (read_writes id level) fun _ t w _ => .get ?_
          cases t.1.stash.take id with
          | none => exact .throw w.level _
          | some taken => exact .checked w.level fun bytes _ => .checked w.level fun stash _ => .quiet ⟨⟨w.level.moved rfl rfl rfl,rfl,rfl⟩,fun _ => trivial⟩
      exact written.before fun _ u w _ => .pure w.level _ trivial
  | setDeferEvictions defer =>
      have moved : Writes 0 (quiet (setDeferEvictions defer)) s fun _ _ => True := .quiet ⟨⟨level.moved rfl rfl rfl,rfl,rfl⟩,fun _ => trivial⟩
      exact moved.then_ fun _ t w _ => .pure w.level _ trivial
  | flushEvictions => exact Writes.before (Writes.get (flushTurns_writes s.1.pendingEvictions level)) fun _ u w _ => .pure w.level _ trivial

end Programs

section Runs
variable {B : Type} [BlockBackend B] [AesGcm] {s t : RingOramClient B × Sealings} {op : Op} {ops : List Op}

-- A step notes new pairs only. All of their counters are u32s if the root's is far
-- enough from its end.
theorem perform_noticed (op : Op) (level : Level s.1) : Ends (Noted.perform op) s
    (fun _ t => Written (writes s.1 op) s t) fun e t => Written (writes s.1 op) s t ∨ Worn (writes s.1 op) s e t :=
  Ends.imp (perform_writes op level) (fun _ _ ended => ended.1) fun _ _ failed => failed

-- The states in which a run leaves the client, and what it has noted: a panic is the
-- end of the run.
def Noted.play : RingOramClient B × Sealings → List Op → RingOramClient B × Sealings
  | s,[] => s
  | s,op :: rest =>
    match Noted.perform op s with
    | .ok _ t => play t rest
    | .error (.error _) t => play t rest
    | .error .dropped t => play t rest
    | .error _ t => t

def Noted.step (s : RingOramClient B × Sealings) (op : Op) : Option (Reply × (RingOramClient B × Sealings)) :=
  match Noted.perform op s with
  | .ok reply next => some (reply,next)
  | .error (.error e) next => some (.failed e,next)
  | .error .dropped next => some (.dropped,next)
  | .error _ _ => none

-- The root's counter is far from its end before an operation.
def Unworn (c : RingOramClient B) (op : Op) : Prop := 0 < c.params.a ∧ c.counter 0 + writes c op < 2 ^ 32

instance (c : RingOramClient B) (op : Op) : Decidable (Unworn c op) := inferInstanceAs (Decidable (_ ∧ _))

-- What has been noted so far: each pair once, and none past its bucket's counter.
structure Recorded (s : RingOramClient B × Sealings) : Prop where
  distinct : s.2.Nodup
  below : ∀ p ∈ s.2, p.1 < s.1.counters.length ∧ p.2 ≤ s.1.counter p.1

omit [BlockBackend B] [AesGcm] in
theorem Recorded.noticed (recorded : Recorded s) (noticed : Noticed s t) : Recorded t := by
  obtain ⟨more,noted,distinct,past⟩ := noticed.fresh
  refine ⟨?_,fun p member => ?_⟩
  · rw [noted]
    refine List.nodup_append.mpr ⟨recorded.distinct,distinct,fun p before q after same => ?_⟩
    subst same
    exact absurd (recorded.below p before).2 (Nat.not_le.mpr (past p after).2.1)
  · rw [noted] at member
    rw [noticed.sized]
    rcases List.mem_append.mp member with before | after
    · exact ⟨(recorded.below p before).1,(recorded.below p before).2.trans (noticed.rises p.1)⟩
    · exact ⟨(past p after).1,(past p after).2.2⟩

omit [BlockBackend B] [AesGcm] in
theorem Written.words {n : Nat} (written : Written n s t) (room : s.1.counter 0 + n < 2 ^ 32) (words : ∀ p ∈ s.2, p.2 < 2 ^ 32) : ∀ p ∈ t.2, p.2 < 2 ^ 32 := by
  obtain ⟨more,noted,_,past⟩ := written.fresh
  intro p member
  rw [noted] at member
  rcases List.mem_append.mp member with before | after
  · exact words p before
  · have low := (past p after).2.2
    have level := written.level.level p.1
    have few := written.few
    omega

-- The whole record of a run, up to where it ends.
structure Accounted (buckets : Nat) (careful : Prop) (noted : Sealings) : Prop where
  distinct : noted.Nodup
  inside : ∀ p ∈ noted, p.1 < buckets
  words : careful → ∀ p ∈ noted, p.2 < 2 ^ 32

omit [BlockBackend B] [AesGcm] in
theorem Worn.accounted {n : Nat} {e : Fault} {careful : Prop} (recorded : Recorded s) (worn : Worn n s e t) (room : careful → s.1.counter 0 + n < 2 ^ 32) :
    Accounted s.1.counters.length careful t.2 := by
  obtain ⟨_,mid,b,noticed,inside,rfl,full,bounded⟩ := worn
  have before := recorded.noticed noticed
  rw [noticed.sized] at inside
  refine ⟨List.nodup_append.mpr ⟨before.distinct,List.nodup_singleton _,fun p held q single same => ?_⟩,fun p member => ?_,fun careful => absurd (room careful) (by omega)⟩
  · rw [←same,List.mem_singleton] at single
    have low := (before.below p held).2
    rw [single] at low
    exact absurd low (Nat.not_succ_le_self _)
  · rcases List.mem_append.mp member with held | single
    · rw [←noticed.sized]
      exact (before.below p held).1
    · rw [List.mem_singleton.mp single]
      exact inside

theorem play_accounted (ops : List Op) (level : Level s.1) (recorded : Recorded s) :
    Accounted s.1.counters.length (Throughout Noted.step (fun s op => Unworn s.1 op) s ops ∧ ∀ p ∈ s.2, p.2 < 2 ^ 32) (Noted.play s ops).2 := by
  induction ops generalizing s with
  | nil => exact ⟨recorded.distinct,fun p member => (recorded.below p member).1,fun careful => careful.2⟩
  | cons op rest ih =>
      have noticed := perform_noticed op level
      -- the run goes on from what the operation leaves
      have onward : ∀ t reply, Written (writes s.1 op) s t → Noted.step s op = some (reply,t) →
          Accounted s.1.counters.length (Throughout Noted.step (fun s op => Unworn s.1 op) s (op :: rest) ∧ ∀ p ∈ s.2, p.2 < 2 ^ 32) (Noted.play t rest).2 := by
        intro t reply written stepped
        obtain ⟨distinct,inside,words⟩ := ih written.level (recorded.noticed written.toNoticed)
        rw [written.sized] at inside
        refine ⟨distinct,inside,fun careful => words ⟨?_,written.words careful.1.1.2 careful.2⟩⟩
        have later := careful.1.2
        rwa [stepped] at later
      unfold Noted.play
      cases ran : Noted.perform op s with
      | ok reply t => exact onward t reply (noticed.at_ok ran) (by unfold Noted.step; rw [ran])
      | error e t =>
          have ended := noticed.at_error ran
          rcases ended with written | worn
          · cases e with
            | error e => exact onward t _ written (by unfold Noted.step; rw [ran])
            | dropped => exact onward t _ written (by unfold Noted.step; rw [ran])
            | _ =>
                have last := recorded.noticed written.toNoticed
                exact ⟨last.distinct,fun p member => written.sized ▸ (last.below p member).1,fun careful => written.words careful.1.1.2 careful.2⟩
          · have panics := worn.1
            subst panics
            exact worn.accounted recorded fun careful => careful.1.1.2

end Runs

section Creation
variable {B : Type} [BlockBackend B] [AesGcm] {backend : B} {params : RingOramParams} {key : Bytes} {tape : Nat → Nat} {hashes : HashOrder}
  {s t : RingOramClient B × Sealings}

theorem Noted.new_erased (made : Noted.new backend params key tape hashes = .ok s) :
    RingOramClient.new backend params key tape hashes = .ok s.1 ∧ params.Fits ∧ Noted.initializeTree (blank backend params key tape hashes,[]) = .ok () s := by
  unfold Noted.new at made
  cases counted : params.numBuckets with
  | error text => rw [counted] at made; cases made
  | ok demand =>
      obtain ⟨_,rfl⟩ := RingOramParams.numBuckets_ok.mp counted
      cases cached : params.treetopBucketCount with
      | error text =>
          rw [counted,cached] at made
          simp only [Except.mapError,bind,Except.bind] at made
          split at made
          · cases made
          · cases made
      | ok top =>
          rw [counted,cached] at made
          simp only [Except.mapError,bind,Except.bind] at made
          split at made
          · cases made
          · rename_i sized
            cases ran : Noted.initializeTree (blank backend params key tape hashes,[]) with
            | error e t =>
                unfold blank at ran
                rw [ran] at made
                cases made
            | ok u t =>
                have unfolded := ran
                unfold blank at unfolded
                rw [unfolded] at made
                cases made
                have own : RingOramClient.new backend params key tape hashes = .ok s.1 := by
                  unfold RingOramClient.new
                  rw [counted,cached]
                  simp only [Except.mapError,bind,Except.bind]
                  rw [if_neg sized]
                  show settled (RingOramClient.initializeTree (blank backend params key tape hashes)) = _
                  rw [Noted.initializeTree_erases.erased ran]
                  rfl
                exact ⟨own,(new_fits own).1,rfl⟩

omit [BlockBackend B] in
-- The first pass over the buckets seals each of them, at one.
theorem initial_sealed (key pt : Bytes) (ids : List Nat) (distinct : ids.Nodup) (zero : ∀ b ∈ ids, s.1.counter b = 0) :
    Ends (ids.mapM fun bid => do
      quiet (setCounter bid 1)
      note (bid,1)
      return (⟨bid,1,aesEncrypt key bid 1 pt⟩ : EncryptedBucket)) s (fun _ t => Sealed ids s t) fun _ _ => True := by
  induction ids generalizing s with
  | nil => exact Sealed.nothing s
  | cons b rest ih =>
      obtain ⟨apart,distinct⟩ := List.nodup_cons.mp distinct
      rw [List.mapM_cons]
      have first : Ends (do
          quiet (setCounter b 1)
          note (b,1)
          return (⟨b,1,aesEncrypt key b 1 pt⟩ : EncryptedBucket)) s (fun _ t => Sealed [b] s t) fun _ _ => True := by
        have bare := zero b List.mem_cons_self
        by_cases inside : b < s.1.counters.length
        · have put : setCounter b 1 s.1 = .ok () {s.1 with counters:=s.1.counters.set b 1} := by
            unfold setCounter
            rw [bind_ok (get_run s.1),if_pos inside]
            rfl
          refine .after (quiet_ok put) (.after (show note (b,1) _ = .ok () ({s.1 with counters:=s.1.counters.set b 1},s.2 ++ [(b,1)]) from rfl) ?_)
          refine ⟨fun x member => List.mem_singleton.mp member ▸ inside,List.length_set,fun x => ?_,by rw [List.map_singleton,bare],rfl⟩
          show (s.1.counters.set b 1).getD x 0 = s.1.counter x + _
          rw [List.getD_eq_getElem?_getD,List.getElem?_set]
          by_cases same : b = x
          · subst same
            simp [inside,bare]
          · simp [same,Ne.symm same,counter]
        · have refused : setCounter b 1 s.1 = .error (.panic outOfBounds) s.1 := by
            unfold setCounter
            rw [bind_ok (get_run s.1),if_neg inside]
            rfl
          exact .error (bind_error (quiet_error refused)) trivial
      refine first.bind fun a t _ sealed_ => ?_
      have zero' : ∀ x ∈ rest, t.1.counter x = 0 := by
        intro x member
        have other : x ∉ [b] := fun single => apart (by rwa [List.mem_singleton.mp single] at member)
        rw [sealed_.counts,if_neg other,zero x (List.mem_cons_of_mem _ member)]
      exact (ih distinct zero').bind fun as u _ later => sealed_.join later apart

theorem Noted.initializeTree_written (fits : params.Fits) (ran : Noted.initializeTree (blank backend params key tape hashes,[]) = .ok () s) :
    Written 1 (blank backend params key tape hashes,[]) s := by
  have level : Level (blank backend params key tape hashes) :=
    ⟨fits,fun id p held => (by cases held),fun b => by simp [counter,blank,List.getD_eq_getElem?_getD,List.getElem?_replicate]; split <;> simp⟩
  have zero : ∀ b, (blank backend params key tape hashes).counter b = 0 := by
    intro b
    simp only [counter,blank,List.getD_eq_getElem?_getD,List.getElem?_replicate]
    split <;> rfl
  have spec : Ends Noted.initializeTree (blank backend params key tape hashes,[]) (fun _ t => Written 1 (blank backend params key tape hashes,[]) t)
      fun _ _ => True := by
    refine .after (get_run _) ?_
    cases made : dummyBucket (blank backend params key tape hashes).params with
    | error text => exact .error (bind_error (quiet_error (checked_error made _))) trivial
    | ok pt =>
        refine .after (quiet_ok (checked_ok made _)) ?_
        cases counted : (blank backend params key tape hashes).params.numBuckets with
        | error text => exact .error (bind_error (quiet_error (checked_error rfl _))) trivial
        | ok count =>
            refine .after (quiet_ok (checked_ok rfl _)) ?_
            obtain ⟨_,rfl⟩ := RingOramParams.numBuckets_ok.mp counted
            refine (initial_sealed key pt (List.range params.buckets) List.nodup_range fun b _ => zero b).bind fun updates t _ sealed_ => ?_
            have written := sealed_.written List.nodup_range level (.inr (List.mem_range.mpr (RingOramParams.buckets_pos params)))
            have last := Writes.spared written.level (writeBucketsCached_spares updates t.1)
            exact Ends.imp last (fun _ u ended => written.trans ended.1) fun _ _ _ => trivial
  exact spec.at_ok ran

-- No pair of bucket and counter is encrypted under twice, in any run and over any
-- backend; and none of the counters runs out in a run that keeps the root's far
-- enough from its end.
theorem nonces_never_repeat (made : Noted.new backend params key tape hashes = .ok s) :
    new backend params key tape hashes = .ok s.1 ∧ (∀ op, Erases (Noted.perform (B:=B) op) (perform op)) ∧ ∀ ops,
      (Noted.play s ops).2.Nodup ∧ (((Noted.play s ops).2.filter fun p => decide (p.2 < 2 ^ 32)).map fun p => makeNonce p.1 p.2).Nodup ∧
        (Throughout Noted.step (fun s op => Unworn s.1 op) s ops → ∀ p ∈ (Noted.play s ops).2, p.2 < 2 ^ 32) := by
  obtain ⟨own,fits,ran⟩ := Noted.new_erased made
  have written := Noted.initializeTree_written fits ran
  have nothing_ : Recorded (blank backend params key tape hashes,([] : Sealings)) := ⟨List.nodup_nil,fun p member => absurd member List.not_mem_nil⟩
  have words : ∀ p ∈ s.2, p.2 < 2 ^ 32 := written.words (by
    show (List.replicate params.buckets 0).getD 0 0 + 1 < 2 ^ 32
    rw [List.getD_eq_getElem?_getD,List.getElem?_replicate,if_pos (RingOramParams.buckets_pos params)]
    decide) fun p member => absurd member List.not_mem_nil
  refine ⟨own,Noted.perform_erases,fun ops => ?_⟩
  obtain ⟨distinct,inside,low⟩ := play_accounted ops written.level (nothing_.noticed written.toNoticed)
  refine ⟨distinct,?_,fun careful => low ⟨careful,words⟩⟩
  have buckets : s.1.counters.length = params.buckets := by
    rw [written.sized]
    exact List.length_replicate
  have small : params.buckets < 2 ^ 32 := by
    have wide : 2 ^ params.levels ≤ 2 ^ 31 := Nat.pow_le_pow_right (by decide) fits.tree
    unfold RingOramParams.buckets
    omega
  refine (distinct.filter _).map_on fun p first q second same => ?_
  rw [List.mem_filter] at first second
  have one := inside p first.1
  have two := inside q second.1
  obtain ⟨ids,counters⟩ := makeNonce_injective (by omega) (by omega) (of_decide_eq_true first.2) (of_decide_eq_true second.2) same
  exact Prod.ext ids counters

end Creation

theorem nonces_never_repeat_one_bucket :
    ∃ s, @Noted.new _ _ AesGcm.framed (InMemoryBlockBackend.new 1) {z:=1,s:=1,a:=2,blockBytes:=1,nLeaves:=1,treetopLevels:=0}
        [] (fun n => n) .asStored = .ok s ∧ (@Noted.play _ _ AesGcm.framed s [.admitBlock ⟨7⟩ [1],.read ⟨7⟩,.read ⟨8⟩]).2.Nodup ∧
      ∀ p ∈ (@Noted.play _ _ AesGcm.framed s [.admitBlock ⟨7⟩ [1],.read ⟨7⟩,.read ⟨8⟩]).2, p.2 < 2 ^ 32 := by
  cases made : @Noted.new _ _ AesGcm.framed (InMemoryBlockBackend.new 1) {z:=1,s:=1,a:=2,blockBytes:=1,nLeaves:=1,treetopLevels:=0} [] (fun n => n) .asStored with
  | error e => cases made
  | ok s =>
      obtain ⟨_,_,runs⟩ := @nonces_never_repeat _ _ AesGcm.framed _ _ _ _ _ _ made
      obtain ⟨distinct,_,low⟩ := runs [.admitBlock ⟨7⟩ [1],.read ⟨7⟩,.read ⟨8⟩]
      cases made
      exact ⟨_,rfl,distinct,low (by decide +kernel)⟩

section Exhaustion
variable {B : Type} [BlockBackend B] [LossyBackend B] [AesGcm] {c next : RingOramClient B} {params : RingOramParams} {memory : Memory} {tree : Nat → List Block}
  {id : BlockId} {reply : Reply}

theorem Sound.levelled (sound : Sound c memory tree) : Level c := ⟨sound.shelved.fits,sound.recoverable.named.leaf,sound.shelved.steep⟩

omit [LossyBackend B] in
theorem step_rises {op : Op} (level : Level c) (stepped : step c op = some (reply,next)) : c.counter 0 ≤ next.counter 0 := by
  have spec := perform_noticed (s:=(c,[])) op level
  have erases := Noted.perform_erases (B:=B) op
  unfold step at stepped
  cases ran : perform op c with
  | ok a d =>
      rw [ran] at stepped
      cases stepped
      obtain ⟨noted,ran'⟩ := erases.ok (s:=(c,[])) ran
      exact (spec.at_ok ran').rises 0
  | error e d =>
      rw [ran] at stepped
      obtain ⟨noted,ran'⟩ := erases.error (s:=(c,[])) ran
      have ended := spec.at_error ran'
      cases e with
      | error e =>
          cases stepped
          exact (ended.resolve_right fun worn => nomatch worn.1).rises 0
      | dropped =>
          cases stepped
          exact (ended.resolve_right fun worn => nomatch worn.1).rises 0
      | panic text => cases stepped
      | diverged => cases stepped

-- A read writes the root, at least once.
-- A read of a known block that goes well is the client's own.
theorem step_reads (tracks : Tracks params c memory) (known : (memory id).isSome) (stepped : step c (.read id) = some (reply,next)) :
    ∃ bytes, read id c = .ok bytes next := by
  obtain ⟨bytes,held⟩ := Option.isSome_iff_exists.mp known
  obtain ⟨_,answered,_⟩ := tracks_step tracks (show Fresh memory (.read id) from trivial) (tracks_room tracks (show Fresh memory (.read id) from trivial) stepped) trivial
  rw [stepped] at answered
  have is : reply = .payload bytes := by
    rw [(Prod.mk.inj (Option.some.inj answered)).1]
    simp [meaningOf,held]
  subst is
  unfold step at stepped
  cases ran : perform (.read id) c with
  | ok a d =>
      rw [ran] at stepped
      cases stepped
      obtain ⟨_,_,reading,done⟩ := ok_of_bind ran
      cases done
      exact ⟨_,reading⟩
  | error e d =>
      rw [ran] at stepped
      cases e with
      | _ => cases stepped

theorem read_raises (tracks : Tracks params c memory) (known : (memory id).isSome) (stepped : step c (.read id) = some (reply,next)) :
    c.counter 0 + 1 ≤ next.counter 0 := by
  have room := tracks_room tracks (show Fresh memory (.read id) from trivial) stepped
  obtain ⟨bytes,reading⟩ := step_reads tracks known stepped
  obtain ⟨_,_,tree,ready,_⟩ := tracks
  have mapped := ready.recoverable.named.known id
  change (c.posmap id).isSome = _ at mapped
  rw [known] at mapped
  obtain ⟨p,assigned⟩ := Option.isSome_iff_exists.mp mapped
  obtain ⟨_,d,accessed,after⟩ := ok_of_bind reading
  obtain ⟨_,_,counted,done⟩ := ok_of_bind after
  cases done
  obtain ⟨_,_,raised,_,_,_,sound,_⟩ := (readAccess_ends ready.toSound assigned (room mapped).1).at_ok accessed
  obtain ⟨noted,counted'⟩ := Noted.afterAccess_erases.ok (s:=(d,[])) counted
  have later := (Ends.at_ok (afterAccess_writes (s:=(d,[])) (Sound.levelled sound)) counted').1.rises 0
  exact raised.ge.trans later

-- Runs that leave the memory as it is: a read in one is a write of the root.
theorem run_raises {ops : List Op} {replies : List Reply} {last : RingOramClient B} (tracks : Tracks params c memory)
    (still : ∀ op ∈ ops, Admissible memory op ∧ (meaningOf params.blockBytes memory op).2 = memory) (ran : run step c ops = some (replies,last)) :
    c.counter 0 ≤ last.counter 0 ∧ ∀ id, .read id ∈ ops → (memory id).isSome → c.counter 0 + 1 ≤ last.counter 0 := by
  induction ops generalizing c replies with
  | nil =>
      cases ran
      exact ⟨Nat.le_refl _,fun id member => absurd member List.not_mem_nil⟩
  | cons op rest ih =>
      unfold run at ran
      obtain ⟨⟨reply,next⟩,stepped,later⟩ := Option.bind_eq_some_iff.mp ran
      obtain ⟨⟨replies',last'⟩,went,done⟩ := Option.bind_eq_some_iff.mp later
      cases done
      obtain ⟨allowed,same⟩ := still op List.mem_cons_self
      have after := (admissible_step tracks allowed stepped).2
      rw [same] at after
      obtain ⟨grows,reads⟩ := ih after (fun op member => still op (List.mem_cons_of_mem _ member)) went
      have first : c.counter 0 ≤ next.counter 0 := by
        obtain ⟨_,_,tree,ready,_⟩ := tracks
        exact step_rises (Sound.levelled ready.toSound) stepped
      refine ⟨first.trans grows,fun id member known => ?_⟩
      rcases List.mem_cons.mp member with rfl | later
      · exact (read_raises tracks known stepped).trans grows
      · exact (Nat.add_le_add_right first 1).trans (reads id later known)

-- Reads of one block until none is left room for: it is the root that runs out.
theorem reads_run_out (tracks : Tracks params c memory) (known : (memory id).isSome) (inline : c.deferEvictions = false) :
    ∃ reads replies last, run step c (List.replicate reads (.read id)) = some (replies,last) ∧ Tracks params last memory ∧ ¬ last.Room (.read id) ∧
      2 ^ 32 ≤ last.counter 0 + 2 := by
  by_contra never
  have always : ∀ m, ∃ replies last, run step c (List.replicate m (.read id)) = some (replies,last) ∧ Tracks params last memory ∧ last.deferEvictions = false ∧
      m ≤ last.counter 0 := by
    intro m
    induction m with
    | zero => exact ⟨[],c,rfl,tracks,inline,Nat.zero_le _⟩
    | succ m ih =>
        obtain ⟨replies,last,ran,kept,undeferred,grown⟩ := ih
        have room : last.Room (.read id) := by
          by_contra full
          refine never ⟨m,replies,last,ran,kept,full,?_⟩
          obtain ⟨_,full⟩ := Classical.not_imp.mp full
          have head : ¬ last.counter 0 + 1 < 2 ^ 32 ∨ ¬ last.Headroom 1 := not_and_or.mp full
          rcases head with low | low
          · omega
          · obtain ⟨_,low⟩ := Classical.not_imp.mp low
            rw [undeferred] at low
            change ¬ last.counter 0 + 1 + 1 < 2 ^ 32 at low
            omega
        obtain ⟨next,stepped,after,_⟩ := tracks_step kept (show Fresh memory (.read id) from trivial) room trivial
        have still : (meaningOf params.blockBytes memory (.read id)).2 = memory := by
          obtain ⟨bytes,held⟩ := Option.isSome_iff_exists.mp known
          simp [meaningOf,held]
        rw [still] at after
        have one : run step last [.read id] = some ([(meaningOf params.blockBytes memory (.read id)).1],next) := by simp [run,stepped]
        have raised := read_raises kept known stepped
        obtain ⟨_,reading⟩ := step_reads kept known stepped
        refine ⟨replies ++ [(meaningOf params.blockBytes memory (.read id)).1],next,?_,after,((read_defers id last).at_ok reading).trans undeferred,by omega⟩
        rw [List.replicate_succ',run_append ran,one]
        rfl
  obtain ⟨replies,last,ran,kept,undeferred,grown⟩ := always (2 ^ 32)
  by_cases room : last.Room (.read id)
  · obtain ⟨_,_,tree,ready,_⟩ := kept
    have mapped := ready.recoverable.named.known id
    change (last.posmap id).isSome = _ at mapped
    rw [known] at mapped
    have small := (room mapped).1
    change last.counter 0 + 1 < 2 ^ 32 at small
    omega
  · exact never ⟨_,replies,last,ran,kept,room,by omega⟩

end Exhaustion

-- One block read over and over: its counters run out, and the addition is refused.
theorem counters_run_out :
    ∃ c d last e reads replies, @new _ _ AesGcm.framed (InMemoryBlockBackend.new 1) {z:=1,s:=1,a:=2,blockBytes:=1,nLeaves:=1,treetopLevels:=0}
        [] (fun n => n) .asStored = .ok c ∧ @step _ _ AesGcm.framed c (.admitBlock ⟨7⟩ [1]) = some (.done,d) ∧
      run (@step _ _ AesGcm.framed) d (List.replicate reads (.read ⟨7⟩)) = some (replies,last) ∧ 2 ^ 32 ≤ last.counter 0 + 2 ∧
      @perform _ _ AesGcm.framed (.read ⟨7⟩) last = .error (.panic "attempt to add with overflow") e := by
  let one : RingOramParams := {z:=1,s:=1,a:=2,blockBytes:=1,nLeaves:=1,treetopLevels:=0}
  let first := @planted _ _ AesGcm.framed (blank (InMemoryBlockBackend.new 1) one [] (fun n => n) .asStored)
  have made : @new _ _ AesGcm.framed (InMemoryBlockBackend.new 1) one [] (fun n => n) .asStored = .ok first := rfl
  have tracks := @made_tracks _ _ _ _ AesGcm.framed one (by decide) (by decide) _ _ _ _ _ made
  have room : first.Room (.admitBlock ⟨7⟩ [1]) := by decide +kernel
  obtain ⟨d,admitted,kept,_⟩ := @tracks_step _ _ _ AesGcm.framed _ _ _ _ tracks (show Fresh nothing (.admitBlock ⟨7⟩ [1]) from ⟨rfl,rfl⟩) room trivial
  have inline : d.deferEvictions = false := by
    have computed : (@step _ _ AesGcm.framed first (.admitBlock ⟨7⟩ [1])).map (fun r => r.2.deferEvictions) = some false := by decide +kernel
    rw [admitted] at computed
    exact Option.some.inj computed
  obtain ⟨reads,replies,last,ran,after,full,spent⟩ := @reads_run_out _ _ _ AesGcm.framed _ _ _ ⟨7⟩ kept (by decide) inline
  obtain ⟨_,good,tree,ready,_⟩ := after
  obtain ⟨e,panicked⟩ := @perform_overflow _ _ _ AesGcm.framed _ _ _ _ ready good (show Fresh _ (.read ⟨7⟩) from trivial) full
  exact ⟨first,d,last,e,reads,replies,made,admitted,ran,spent,panicked⟩

end RingOram.RingOramClient
