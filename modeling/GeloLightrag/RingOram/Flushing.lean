import GeloLightrag.Foundation.Frame
import GeloLightrag.RingOram.Client

namespace RingOram.RingOramClient
open Foundation

-- What an eviction has no part in.
def settings {B : Type} (c : RingOramClient B) : RingOramParams × Bool × Nat := (c.params,c.deferEvictions,c.pendingEvictions)

-- What opening a path or writing one has no part in.
def bystanders {B : Type} (c : RingOramClient B) : RingOramParams × Bool × Nat × Nat × PositionMap × List Nat :=
  (c.params,c.deferEvictions,c.pendingEvictions,c.accessesSinceEvict,c.posmap,c.counters)

theorem bystanders_iff {B : Type} {c d : RingOramClient B} : bystanders d = bystanders c ↔ d.params = c.params ∧ d.deferEvictions = c.deferEvictions ∧
    d.pendingEvictions = c.pendingEvictions ∧ d.accessesSinceEvict = c.accessesSinceEvict ∧ d.posmap = c.posmap ∧ d.counters = c.counters := by
  simp only [bystanders,Prod.mk.injEq]

theorem settings_spared {B : Type} {c : RingOramClient B} (d : RingOramClient B) (same : bystanders d = bystanders c) : settings d = settings c := by
  obtain ⟨params,defer,pending,_⟩ := bystanders_iff.mp same
  rw [settings,settings,params,defer,pending]

variable {B : Type} [BlockBackend B]

omit [BlockBackend B] in
theorem checked_spares {α : Type} (x : Except String α) (c : RingOramClient B) : Frames bystanders (checked x : OramM B α) c := by
  cases x with
  | ok a => exact .pure a c
  | error text => exact .throw _ c

theorem backendReadPath_spares (ids : List Nat) (c : RingOramClient B) : Frames bystanders (backendReadPath ids) c := by
  unfold Frames Ends
  rw [backendReadPath_run]
  cases (BlockBackend.readPath ids c.backend).1 <;> rfl

theorem writeBucketsCached_spares (buckets : List EncryptedBucket) (c : RingOramClient B) : Frames bystanders (writeBucketsCached buckets) c := by
  refine .get_bind ((checked_spares _ c).bind fun top d same => .bind (.set same.symm) fun _ d _ => ?_)
  unfold Frames Ends
  rw [backendWriteBuckets_run]
  cases (BlockBackend.writeBuckets buckets d.backend).1 <;> rfl

theorem readPathCached_spares (ids : List Nat) (c : RingOramClient B) : Frames bystanders (readPathCached ids) c := by
  refine .get_bind ((checked_spares _ c).bind fun top d _ => (checked_spares _ d).bind fun out d _ => ?_)
  dsimp only
  split
  · exact (checked_spares _ d)
  · exact (backendReadPath_spares _ d).bind fun deep d _ => checked_spares _ d

variable [AesGcm]

omit [BlockBackend B] in
theorem absorb_spares (tampered : AesError → Fault) (pairs : List (EncryptedBucket × Nat)) (c : RingOramClient B) : Frames bystanders (absorb tampered pairs) c := by
  induction pairs generalizing c with
  | nil => exact .pure () c
  | cons pair rest ih =>
      obtain ⟨eb,bid⟩ := pair
      unfold absorb
      split
      · exact .throw _ c
      · refine .get_bind ?_
        split
        · exact .throw _ c
        · exact (checked_spares _ c).bind fun blocks d first => (checked_spares _ d).bind fun stash d second =>
            .bind (.set (first.symm.trans second.symm)) fun _ d _ => ih d

theorem openPath_spares (tampered : AesError → Fault) (ids : List Nat) (c : RingOramClient B) : Frames bystanders (openPath tampered ids) c :=
  (readPathCached_spares ids c).bind fun _ d _ => absorb_spares tampered _ d

omit [BlockBackend B] [AesGcm] in
theorem checked_frames {α : Type} (x : Except String α) (c : RingOramClient B) : Frames settings (checked x : OramM B α) c :=
  (checked_spares x c).through settings_spared

omit [BlockBackend B] in
theorem resealBucket_frames (bid : Nat) (pt : Bytes) (c : RingOramClient B) : Frames settings (resealBucket bid pt) c := by
  refine .get_bind ?_
  split
  · exact .throw _ c
  · exact (checked_frames _ c).bind fun counter d first => .bind (.set first.symm) fun _ d _ => .pure _ d

theorem evictPath_frames (c : RingOramClient B) : Frames settings evictPath c := by
  refine .get_bind ?_
  dsimp only
  split
  · exact .throw _ c
  · refine (checked_frames _ c).bind fun cursor d first => .bind (.set first.symm) fun _ d _ => (checked_frames _ d).bind fun ids d _ => ?_
    refine Frames.bind ((openPath_spares _ _ d).through settings_spared) fun _ d _ => .get_bind ?_
    refine (checked_frames _ d).bind fun cap e first => (checked_frames _ e).bind fun packed e second => ?_
    refine .bind (.set (first.symm.trans second.symm)) fun _ d _ => (Frames.mapM (fun bid e => ?_) _ d).bind fun updates d _ =>
      (writeBucketsCached_spares updates d).through settings_spared
    exact (checked_frames _ e).bind fun pt e _ => resealBucket_frames bid pt e

theorem evictPath_settings {c d : RingOramClient B} (ran : evictPath c = .ok () d) :
    d.params = c.params ∧ d.deferEvictions = c.deferEvictions ∧ d.pendingEvictions = c.pendingEvictions := by
  have same : settings d = settings c := (evictPath_frames c).at_ok ran
  rwa [settings,settings,Prod.mk.injEq,Prod.mk.injEq] at same

-- A flush leaves the deferral as it was, and one that ends well leaves nothing pending.
theorem flushTurns_settles (turns : Nat) (c : RingOramClient B) : Ends (flushTurns turns) c
    (fun _ d => d.deferEvictions = c.deferEvictions ∧ d.pendingEvictions = c.pendingEvictions - turns)
    (fun _ d => d.deferEvictions = c.deferEvictions) := by
  induction turns generalizing c with
  | zero => exact ⟨rfl,rfl⟩
  | succ turns ih =>
      cases ran : evictPath c with
      | error e d =>
          have same : settings d = settings c := (evictPath_frames c).at_error ran
          rw [settings,settings,Prod.mk.injEq,Prod.mk.injEq] at same
          exact .error (bind_error ran) same.2.1
      | ok _ d =>
          obtain ⟨_,defer,pending⟩ := evictPath_settings ran
          refine .after ran (.after (modify_run _ d) ((ih {d with pendingEvictions:=d.pendingEvictions - 1}).imp (fun _ last done => ?_) fun _ last same => ?_))
          · refine ⟨done.1.trans defer,done.2.trans ?_⟩
            show d.pendingEvictions - 1 - turns = c.pendingEvictions - (turns + 1)
            omega
          · exact same.trans defer

theorem flushEvictions_settles (c : RingOramClient B) : Ends flushEvictions c
    (fun _ d => d.deferEvictions = c.deferEvictions ∧ d.pendingEvictions = 0) (fun _ d => d.deferEvictions = c.deferEvictions) := by
  refine .after (get_run c) ((flushTurns_settles c.pendingEvictions c).imp (fun _ d done => ⟨done.1,done.2.trans (Nat.sub_self _)⟩) fun _ _ same => same)

-- Without a quota an access never gets to its end.
theorem maybeEvictTurns_endless (turns : Nat) {c : RingOramClient B} (none_ : c.params.a = 0) : ¬ ∃ d, maybeEvictTurns turns c = .ok () d := by
  rintro ⟨d,ran⟩
  induction turns generalizing c with
  | zero =>
      unfold maybeEvictTurns at ran
      rw [bind_ok (get_run c)] at ran
      simp only [none_,Nat.zero_le,if_true] at ran
      cases ran
  | succ turns ih =>
      unfold maybeEvictTurns at ran
      rw [bind_ok (get_run c)] at ran
      simp only [none_,Nat.zero_le,if_true] at ran
      rw [bind_ok (set_run _ _)] at ran
      split at ran
      · obtain ⟨_,e,added,later⟩ := ok_of_bind ran
        have same : e.params.a = 0 := by
          unfold addPending at added
          obtain ⟨_,_,got,rest⟩ := ok_of_bind added
          cases got
          obtain ⟨pending,f,counted,last⟩ := ok_of_bind rest
          cases last
          exact none_
        exact ih same later
      · obtain ⟨_,e,evicted,later⟩ := ok_of_bind ran
        have kept := (evictPath_settings evicted).1
        exact ih (by rw [kept]; exact none_) later

omit [AesGcm] [BlockBackend B] in
theorem freshPath_frames (c : RingOramClient B) : Frames settings freshPath c := by
  refine .get_bind ?_
  split
  · exact .throw _ c
  · exact .bind (.set rfl) fun _ d _ => .pure _ d

omit [AesGcm] [BlockBackend B] in
theorem admitAccess_frames (id : BlockId) (payload : Bytes) (c : RingOramClient B) : Frames settings (admitAccess id payload) c := by
  refine .get_bind ?_
  split
  · exact .throw _ c
  · refine (freshPath_frames c).bind fun path d _ => .get_bind ((checked_frames _ d).bind fun posmap e same => .bind (.set same.symm) fun _ d _ => ?_)
    exact (checked_frames _ d).bind fun bytes d _ => .get_bind ((checked_frames _ d).bind fun stash e same => .set same.symm)

omit [AesGcm] [BlockBackend B] in
theorem countAccess_frames (c : RingOramClient B) : Frames settings countAccess c :=
  .get_bind ((checked_frames _ c).bind fun _ _ same => .set same.symm)

theorem readAccess_frames (id : BlockId) (c : RingOramClient B) : Frames settings (readAccess id) c := by
  refine .get_bind ?_
  split
  · exact .throw _ c
  · refine (checked_frames _ c).bind fun ids d _ => Frames.bind ((openPath_spares _ _ d).through settings_spared) fun _ d _ => .get_bind ?_
    split
    · exact .throw _ d
    · refine (freshPath_frames d).bind fun path d _ => .get_bind ((checked_frames _ d).bind fun posmap e first => .bind (.set first.symm) fun _ d _ => ?_)
      refine (checked_frames _ d).bind fun pt d _ => (Frames.mapM (fun bid e => resealBucket_frames bid pt e) _ d).bind fun updates d _ => ?_
      exact ((writeBucketsCached_spares updates d).through settings_spared).bind fun _ d _ => .pure _ d

omit [BlockBackend B] [AesGcm] in
theorem settings_defer {c : RingOramClient B} (d : RingOramClient B) (same : settings d = settings c) : d.deferEvictions = c.deferEvictions :=
  (Prod.mk.inj (Prod.mk.inj same).2).1

theorem maybeEvictTurns_defers (turns : Nat) (c : RingOramClient B) : Frames deferEvictions (maybeEvictTurns turns) c := by
  induction turns generalizing c with
  | zero =>
      refine .get_bind ?_
      split
      · exact .throw _ c
      · exact .pure () c
  | succ turns ih =>
      refine .get_bind ?_
      split
      · refine .bind (.set rfl) fun _ d _ => ?_
        dsimp only
        split
        · refine .bind (.get_bind (((checked_frames _ d).through settings_defer).bind fun pending e first => .set first.symm)) fun _ d _ => ih d
        · exact ((evictPath_frames d).through settings_defer).bind fun _ d _ => ih d
      · exact .pure () c

-- Only `set_defer_evictions` changes the deferral.
theorem read_defers (id : BlockId) (c : RingOramClient B) : Frames deferEvictions (read id) c :=
  ((readAccess_frames id c).through settings_defer).bind fun payload d _ =>
    .bind (((countAccess_frames d).through settings_defer).bind fun _ d _ => .get_bind (maybeEvictTurns_defers _ d)) fun _ d _ => .pure payload d

-- A block is only admitted where there are leaves, and a quota.
theorem admitBlock_needs {id : BlockId} {payload : Bytes} {c d : RingOramClient B} (ran : admitBlock id payload c = .ok () d) :
    0 < c.params.nLeaves ∧ 0 < c.params.a := by
  obtain ⟨_,held,admitted,accessed⟩ := ok_of_bind ran
  obtain ⟨_,counted,added,evicting⟩ := ok_of_bind accessed
  have same : settings held = settings c := (admitAccess_frames id payload c).at_ok admitted
  have same' : settings counted = settings held := (countAccess_frames held).at_ok added
  constructor
  · refine Nat.pos_of_ne_zero fun none_ => ?_
    unfold admitAccess at admitted
    rw [bind_ok (get_run c)] at admitted
    split at admitted
    · cases admitted
    · have stuck : freshPath c = .error (.panic "cannot sample empty range") c := by
        unfold freshPath
        rw [bind_ok (get_run c),if_pos none_]
        rfl
      obtain ⟨path,_,drawn,_⟩ := ok_of_bind admitted
      rw [stuck] at drawn
      cases drawn
  · refine Nat.pos_of_ne_zero fun none_ => ?_
    have left : counted.params = c.params := congrArg Prod.fst (same'.trans same)
    rw [←left] at none_
    unfold maybeEvict at evicting
    rw [bind_ok (get_run counted)] at evicting
    exact maybeEvictTurns_endless _ none_ ⟨d,evicting⟩

end RingOram.RingOramClient
