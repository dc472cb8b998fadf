import GeloLightrag.Gelo.Exact
import GeloLightrag.Gelo.Frame

set_option linter.unusedSectionVars false

namespace Gelo
open Foundation Array2
namespace InProcessTrustedExecutor
variable {E F : Type} [Field F] [LinearOrder F] [IsStrictOrderedRing F] [Platform F] [GpuOffloadEngine E F]

-- The calls on an executor. The attention offloads mask their own operands; of
-- the executor they move the mask generator only.
inductive Call (F : Type) [Field F] where
  | withMaskKind (kind : MaskKind)
  | withSmallNShield (cfg : Option (Nat × ShieldConfig F))
  | setShield (shield : ShieldConfig F)
  | withPerForwardMask (shield : ShieldConfig F)
  | withPerOffloadMask
  | withVerifyProbes (n : Nat)
  | setRngStream (stream : Nat)
  | clone
  | provisionWeight (handle : WeightHandle) (weight : Array2 F)
  | provisionWeightShared (handle : WeightHandle) (weight : Array2 F)
  | beginForwardPass (n : Nat)
  | beginPrefillPass (batchSize nMax : Nat)
  | beginDecodePass (shared : Bool) (batchSize : Nat)
  | endForwardPass
  | offloadLinear (handle : WeightHandle) (hidden : Array2 F)
  | offloadQkv (layer : Nat) (hidden : Array2 F)
  | offloadLinearMany (handles : List WeightHandle) (hidden : Array2 F)
  | offloadAttention (words : Nat)

def discard {α : Type} (x : ExecM E F α) : ExecM E F Unit := do
  let _ ← x
  return ()

def perform : Call F → ExecM E F Unit
  | .withMaskKind kind => modify (withMaskKind kind)
  | .withSmallNShield cfg => modify (withSmallNShield cfg)
  | .setShield shield => modify (setShield shield)
  | .withPerForwardMask shield => do
    let s ← get
    let t ← orPanic (withPerForwardMask shield s)
    set t
  | .withPerOffloadMask => modify withPerOffloadMask
  | .withVerifyProbes n => modify (withVerifyProbes n)
  | .setRngStream stream => modify (setRngStream stream)
  | .clone => modify clone
  | .provisionWeight handle weight => provisionWeight handle weight
  | .provisionWeightShared handle weight => provisionWeightShared handle weight
  | .beginForwardPass n => beginForwardPass n
  | .beginPrefillPass batchSize nMax => beginPrefillPass batchSize nMax
  | .beginDecodePass shared batchSize => beginDecodePass shared batchSize
  | .endForwardPass => endForwardPass
  | .offloadLinear handle hidden => discard (offloadLinear handle hidden)
  | .offloadQkv layer hidden => discard (offloadQkv layer hidden)
  | .offloadLinearMany handles hidden => discard (offloadLinearMany handles hidden)
  | .offloadAttention words => modify fun s => {s with rng:=s.rng.advance words}

-- The state after a call, however it ended.
def next (s : InProcessTrustedExecutor E F) (call : Call F) : InProcessTrustedExecutor E F :=
  match perform call s with
  | .ok _ t => t
  | .error _ t => t

theorem Ends.next {s : InProcessTrustedExecutor E F} {P : InProcessTrustedExecutor E F → Prop}
    (ends : Ends (perform call) s (fun _ t => P t) (fun _ t => P t)) : P (next s call) := by
  unfold Ends at ends
  unfold InProcessTrustedExecutor.next
  cases ran : perform call s with
  | ok a t => rw [ran] at ends; exact ends
  | error e t => rw [ran] at ends; exact ends

-- Every state that calls lead to, failed ones included.
inductive Reachable : InProcessTrustedExecutor E F → Prop where
  | withSeed (engine : E) (seed : Bytes) : Reachable (withSeed engine seed)
  | withShield (engine : E) (seed : Bytes) (shield : ShieldConfig F) : Reachable (withShield engine seed shield)
  | answered : Reachable s → perform call s = .ok () t → Reachable t
  | failed : Reachable s → perform call s = .error e t → Reachable t

def SessionSound : SessionKind F → Prop
  | .single mask _ => mask.Orthogonal
  | .perSequence masks dataN batchSize => 0 < batchSize ∧ 0 < dataN ∧ masks.length = batchSize ∧
      ∃ size, dataN ≤ size ∧ ∀ mask ∈ masks, mask.Orthogonal ∧ mask.n = size

-- Sessions exist in per-forward mode only, and their masks are orthogonal.
structure Sound (s : InProcessTrustedExecutor E F) : Prop where
  idle : s.perForwardMask = false → s.session = none
  masks : ∀ session, s.session = some session → SessionSound session

theorem Sound.sessionless {s t : InProcessTrustedExecutor E F} (none : t.session = .none) : Sound t :=
  ⟨fun _ => none,fun session held => by rw [none] at held; cases held⟩

theorem Sound.same {s t : InProcessTrustedExecutor E F} (sound : Sound s) (session : t.session = s.session)
    (mode : t.perForwardMask = s.perForwardMask) : Sound t :=
  ⟨fun idle => session.trans (sound.idle (mode.symm.trans idle)),fun held some => sound.masks held (session.symm.trans some)⟩

theorem Frame.sound {s t : InProcessTrustedExecutor E F} (frame : Frame s t) (sound : Sound s) : Sound t :=
  sound.same frame.session frame.perForwardMask

theorem drawFor_sound [ExactPlatform F] (n : Nat) (s : InProcessTrustedExecutor E F) :
    Ends (drawFor n) s (fun mask t => Frame s t ∧ mask.Orthogonal ∧
      mask.n = stackedRows (resolveMaskKindForShape s.maskKind n) n) (fun _ t => Frame s t) := by
  refine .after (get_run s) ?_
  cases sampled : sampleMask (F:=F) (resolveMaskKindForShape s.maskKind n)
      (stackedRows (resolveMaskKindForShape s.maskKind n) n) s.rng with
  | ok drawn =>
    obtain ⟨orthogonal,size⟩ := sampleMask_orthogonal sampled
    have kept := drawMask_frame (E:=E) (F:=F) (resolveMaskKindForShape s.maskKind n)
      (stackedRows (resolveMaskKindForShape s.maskKind n) n) s
    unfold Ends at kept
    rw [drawMask_ok sampled] at kept
    exact .ok (drawMask_ok sampled) ⟨kept,orthogonal,size⟩
  | error text => exact .error (drawMask_error sampled) (.refl s)

theorem drawMasks_sound [ExactPlatform F] (n : Nat) : ∀ count (s : InProcessTrustedExecutor E F),
    Ends (drawMasks n count) s (fun masks t => Frame s t ∧ masks.length = count ∧ ∀ mask ∈ masks, mask.Orthogonal ∧
      mask.n = stackedRows (resolveMaskKindForShape s.maskKind n) n) (fun _ t => Frame s t)
  | 0,s => .ok (pure_run [] s) ⟨.refl s,rfl,fun mask member => absurd member List.not_mem_nil⟩
  | count+1,s => by
    refine .bind ((drawFor_sound n s).imp (fun _ _ h => h) fun _ _ h => h) fun mask t _ drawn => ?_
    obtain ⟨frame,orthogonal,size⟩ := drawn
    refine .bind ((drawMasks_sound n count t).imp (fun _ _ h => h) fun _ _ later => frame.trans later) fun masks u _ rest => ?_
    obtain ⟨later,length,sized⟩ := rest
    rw [frame.maskKind] at sized
    refine .ok (pure_run _ u) ⟨frame.trans later,by rw [List.length_cons,length],fun other member => ?_⟩
    rcases List.mem_cons.mp member with rfl | member
    · exact ⟨orthogonal,size⟩
    · exact sized other member

theorem enterSingle_sound [ExactPlatform F] {s : InProcessTrustedExecutor E F} (per : s.perForwardMask = true)
    (sound : Sound s) (n : Nat) (shield : ShieldConfig F) :
    Ends (enterSingle n shield) s (fun _ t => Sound t) (fun _ t => Sound t) := by
  have changed : Sound {s with shield:=shield} := sound.same rfl rfl
  refine .after (modify_run _ s) ?_
  refine .bind ((drawFor_sound _ _).imp (fun _ _ h => h) fun _ _ frame => frame.sound changed) fun mask t _ drawn => ?_
  refine .ok (modify_run _ t) ⟨fun idle => ?_,fun session held => ?_⟩
  · have still : t.perForwardMask = true := drawn.1.perForwardMask.trans per
    exact absurd (still.symm.trans idle) (by decide)
  · cases held
    exact drawn.2.1

theorem enterBatch_sound [ExactPlatform F] {s : InProcessTrustedExecutor E F} (per : s.perForwardMask = true)
    (sound : Sound s) (some : 0 < batchSize) (tall : 0 < n) (shield : ShieldConfig F) :
    Ends (enterBatch batchSize n shield) s (fun _ t => Sound t) (fun _ t => Sound t) := by
  have changed : Sound {s with shield:=shield} := sound.same rfl rfl
  refine .after (modify_run _ s) ?_
  refine .bind ((drawMasks_sound _ _ _).imp (fun _ _ h => h) fun _ _ frame => frame.sound changed) fun masks t _ drawn => ?_
  refine .ok (modify_run _ t) ⟨fun idle => ?_,fun session held => ?_⟩
  · have still : t.perForwardMask = true := drawn.1.perForwardMask.trans per
    exact absurd (still.symm.trans idle) (by decide)
  · cases held
    exact ⟨some,tall,drawn.2.1,_,Nat.le_trans (Nat.le_add_right n shield.k) (le_stackedRows _ _),drawn.2.2⟩

theorem preserved_sound {α : Type} {x : ExecM E F α} (keeps : Preserves Frame x) {s : InProcessTrustedExecutor E F}
    (sound : Sound s) : Ends (discard x) s (fun _ t => Sound t) (fun _ t => Sound t) :=
  .bind ((keeps s).imp (fun _ _ frame => frame.sound sound) fun _ _ frame => frame.sound sound) fun _ t _ kept =>
    .ok (pure_run () t) kept

theorem register_sound {s : InProcessTrustedExecutor E F} (sound : Sound s) (handle : WeightHandle) (weight : Array2 F) :
    Ends (register handle weight) s (fun _ t => Sound t) (fun _ t => Sound t) := by
  obtain ⟨engine,ends⟩ := register_ends handle weight s
  have swapped : Sound {s with engine:=engine} := sound.same rfl rfl
  exact ends.imp (fun _ _ same => same ▸ swapped) fun _ _ same => same ▸ swapped

theorem cacheWeight_sound {s : InProcessTrustedExecutor E F} (sound : Sound s) (handle : WeightHandle) (weight : Array2 F) :
    Sound (cacheWeight handle weight s) := by
  unfold cacheWeight
  split
  · exact sound.same rfl rfl
  · exact sound

theorem perform_sound [ExactPlatform F] {s : InProcessTrustedExecutor E F} (sound : Sound s) (call : Call F) :
    Ends (perform call) s (fun _ t => Sound t) (fun _ t => Sound t) := by
  cases call with
  | withMaskKind kind => exact .sessionless (s:=s) rfl
  | withSmallNShield cfg =>
    show Sound (withSmallNShield cfg s)
    cases cfg with
    | none => exact sound.same rfl rfl
    | some cfg => exact sound.same rfl rfl
  | setShield shield => exact sound.same rfl rfl
  | withPerForwardMask shield =>
    refine .after (get_run s) ?_
    by_cases enabled : shield.enabled = true
    · have switched : withPerForwardMask shield s = .ok {s with perForwardMask:=true,shield:=shield} := if_pos enabled
      rw [switched]
      exact .after (t:=s) rfl ⟨fun idle => (by cases idle),sound.masks⟩
    · obtain ⟨text,refused⟩ : ∃ text, withPerForwardMask shield s = .error text := ⟨_,if_neg enabled⟩
      rw [refused]
      exact sound
  | withPerOffloadMask => exact .sessionless (s:=s) rfl
  | withVerifyProbes n => exact sound.same rfl rfl
  | setRngStream stream => exact sound.same rfl rfl
  | clone => exact .sessionless (s:=s) rfl
  | provisionWeight handle weight =>
    exact .after (modify_run _ s) (register_sound (cacheWeight_sound sound handle weight) handle weight)
  | provisionWeightShared handle weight =>
    exact .bind (register_sound sound handle weight) fun _ t _ kept =>
      .ok (modify_run _ t) (cacheWeight_sound kept handle weight)
  | beginForwardPass n =>
    refine .after (get_run s) ?_
    split
    · rename_i per
      exact enterSingle_sound per sound _ _
    · exact sound
  | beginPrefillPass batchSize nMax =>
    refine .after (get_run s) ?_
    split
    · rename_i per
      split
      · exact sound
      · split
        · exact sound
        · exact enterBatch_sound per sound (by omega) (by omega) _
    · exact sound
  | beginDecodePass shared batchSize =>
    refine .after (get_run s) ?_
    split
    · rename_i per
      split
      · exact sound
      · split
        · exact enterSingle_sound per sound _ _
        · exact enterBatch_sound per sound (by omega) Nat.one_pos _
    · exact sound
  | endForwardPass => exact .sessionless (s:=s) rfl
  | offloadLinear handle hidden => exact preserved_sound (offloadLinear_frame handle hidden) sound
  | offloadQkv layer hidden => exact preserved_sound (offloadQkv_frame layer hidden) sound
  | offloadLinearMany handles hidden => exact preserved_sound (offloadLinearMany_frame handles hidden) sound
  | offloadAttention words => exact sound.same rfl rfl

theorem reachable_sound [ExactPlatform F] {s : InProcessTrustedExecutor E F} (reached : Reachable s) : Sound s := by
  induction reached with
  | withSeed engine seed => exact .sessionless (s:=withSeed engine seed) rfl
  | withShield engine seed shield => exact .sessionless (s:=withShield engine seed shield) rfl
  | answered _ ran ih => exact (perform_sound ih _).at_ok ran
  | failed _ ran ih => exact (perform_sound ih _).at_error ran

end InProcessTrustedExecutor
end Gelo
