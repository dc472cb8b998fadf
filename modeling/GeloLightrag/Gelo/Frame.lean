import GeloLightrag.Gelo.Executor

set_option linter.unusedSectionVars false

namespace Gelo
open Foundation Array2
namespace InProcessTrustedExecutor
variable {E F : Type} [Field F] [LinearOrder F] [IsStrictOrderedRing F] [Platform F] [GpuOffloadEngine E F]

-- What an offload leaves alone: the configuration and the session stay, the
-- generators move forward on their own streams, and the record grows.
structure Frame (s t : InProcessTrustedExecutor E F) : Prop where
  session : t.session = s.session
  perForwardMask : t.perForwardMask = s.perForwardMask
  maskKind : t.maskKind = s.maskKind
  shield : t.shield = s.shield
  shieldDefault : t.shieldDefault = s.shieldDefault
  shieldSmallN : t.shieldSmallN = s.shieldSmallN
  shieldSmallNMax : t.shieldSmallNMax = s.shieldSmallNMax
  verifyProbes : t.verifyProbes = s.verifyProbes
  weights : t.weights = s.weights
  rng : ∃ words, t.rng = s.rng.advance words
  shieldRng : ∃ words, t.shieldRng = s.shieldRng.advance words
  trace : ∃ events, t.trace = s.trace ++ events

theorem Frame.refl (s : InProcessTrustedExecutor E F) : Frame s s :=
  ⟨rfl,rfl,rfl,rfl,rfl,rfl,rfl,rfl,rfl,⟨0,rfl⟩,⟨0,rfl⟩,⟨[],(List.append_nil _).symm⟩⟩

theorem Frame.trans {s t u : InProcessTrustedExecutor E F} (first : Frame s t) (second : Frame t u) : Frame s u := by
  obtain ⟨a,moved⟩ := first.rng
  obtain ⟨b,later⟩ := second.rng
  obtain ⟨c,drawn⟩ := first.shieldRng
  obtain ⟨d,again⟩ := second.shieldRng
  obtain ⟨events,grown⟩ := first.trace
  obtain ⟨more,longer⟩ := second.trace
  refine ⟨second.session.trans first.session,second.perForwardMask.trans first.perForwardMask,
    second.maskKind.trans first.maskKind,second.shield.trans first.shield,second.shieldDefault.trans first.shieldDefault,
    second.shieldSmallN.trans first.shieldSmallN,second.shieldSmallNMax.trans first.shieldSmallNMax,
    second.verifyProbes.trans first.verifyProbes,second.weights.trans first.weights,⟨a + b,?_⟩,⟨c + d,?_⟩,⟨events ++ more,?_⟩⟩
  · rw [later,moved]; simp only [ChaCha20Rng.advance,Nat.add_assoc]
  · rw [again,drawn]; simp only [Xoshiro256PlusPlus.advance,Nat.add_assoc]
  · rw [longer,grown,List.append_assoc]

theorem framed {α β : Type} {x : ExecM E F α} {f : α → ExecM E F β} (first : Preserves Frame x)
    (rest : ∀ a, Preserves Frame (f a)) : Preserves Frame (x >>= f) :=
  .bind (fun _ _ _ => Frame.trans) first rest

theorem orPanic_frame {α : Type} (x : Except String α) : Preserves Frame (orPanic x : ExecM E F α) := by
  intro s
  unfold orPanic Ends
  cases x with
  | ok a => exact .refl s
  | error text => exact .refl s

theorem sampleMask_draw {rng : ChaCha20Rng} {drawn : MaskFamily F × ChaCha20Rng}
    (sampled : sampleMask resolved n rng = .ok drawn) : ∃ words, drawn.2 = rng.advance words := by
  cases resolved with
  | haar => cases sampled; exact ⟨_,rfl⟩
  | hd3 =>
    simp only [sampleMask,Hd3Mask.fresh] at sampled
    split at sampled
    · cases sampled; exact ⟨_,by simp only [sampleDiag,ChaCha20Rng.advance,Nat.add_assoc]; rfl⟩
    · cases sampled
  | dct4 =>
    simp only [sampleMask,Dct4Mask.fresh] at sampled
    split at sampled
    · cases sampled; exact ⟨_,by simp only [sampleDiag,ChaCha20Rng.advance,Nat.add_assoc]; rfl⟩
    · cases sampled
  | auto => cases sampled

theorem drawMask_frame (resolved : MaskKind) (n : Nat) : Preserves Frame (drawMask resolved n : ExecM E F (MaskFamily F)) := by
  intro s
  cases sampled : sampleMask (F:=F) resolved n s.rng with
  | ok drawn =>
    exact .ok (drawMask_ok sampled) ⟨rfl,rfl,rfl,rfl,rfl,rfl,rfl,rfl,rfl,sampleMask_draw sampled,⟨0,rfl⟩,⟨_,rfl⟩⟩
  | error text => exact .error (drawMask_error sampled) (.refl s)

theorem gaussian_draw (count : Nat) (sigma : F) (rng : Xoshiro256PlusPlus) :
    ∃ words, (gaussian count sigma rng).2 = rng.advance words := by
  unfold gaussian
  split
  · exact ⟨0,rfl⟩
  · exact ⟨_,rfl⟩

theorem fillShieldRows_frame (count : Nat) (sigma : F) : Preserves Frame (fillShieldRows count sigma : ExecM E F (Nat → F)) := by
  intro s
  refine ⟨rfl,rfl,rfl,rfl,rfl,rfl,rfl,rfl,rfl,⟨0,rfl⟩,gaussian_draw count sigma s.shieldRng,?_⟩
  by_cases none : count = 0 ∨ sigma = 0
  · exact ⟨[],(if_pos none).trans (List.append_nil _).symm⟩
  · exact ⟨_,if_neg none⟩

theorem operandMask_frame (n : Nat) : Preserves Frame (operandMask n : ExecM E F (MaskFamily F)) := by
  unfold operandMask
  refine .after_get fun s => ?_
  simp only
  by_cases per : s.perForwardMask
  · rw [if_pos per]
    cases s.session with
    | none => exact Frame.refl s
    | some session =>
      cases session with
      | single mask dataN =>
        by_cases fits : dataN = n ∧ mask.n = stackedRows (resolveMaskKindForShape s.maskKind (n + s.shield.k)) (n + s.shield.k)
        · simp only [if_pos fits]; exact Frame.refl s
        · simp only [if_neg fits]; exact Frame.refl s
      | perSequence masks dataN batchSize => exact Frame.refl s
  · rw [if_neg per]
    exact drawMask_frame _ _ s

theorem maskOperand_frame (hidden : Array2 F) (mask : MaskFamily F) :
    Preserves Frame (maskOperand hidden mask : ExecM E F (Array2 F)) := by
  unfold maskOperand
  refine .after_get fun s => ?_
  simp only
  split
  · refine framed (fillShieldRows_frame _ _) (fun noise => ?_) s
    refine framed (.modify _ fun t => ?_) fun _ => orPanic_frame _
    exact ⟨rfl,rfl,rfl,rfl,rfl,rfl,rfl,rfl,rfl,⟨0,rfl⟩,⟨0,rfl⟩,⟨[],(List.append_nil _).symm⟩⟩
  · exact framed (fillShieldRows_frame _ _) (fun noise => orPanic_frame _) s

theorem buildShieldedAndApply_frame (hidden : Array2 F) :
    Preserves Frame (buildShieldedAndApply hidden : ExecM E F (MaskFamily F × Array2 F)) :=
  framed (operandMask_frame _) fun mask => framed (maskOperand_frame _ mask) fun _ => .pure Frame.refl _

theorem returnApplyScratch_frame (buf : Array2 F) : Preserves Frame (returnApplyScratch buf : ExecM E F Unit) := by
  refine .modify _ fun s => ?_
  split
  · exact ⟨rfl,rfl,rfl,rfl,rfl,rfl,rfl,rfl,rfl,⟨0,rfl⟩,⟨0,rfl⟩,⟨[],(List.append_nil _).symm⟩⟩
  · exact .refl s

theorem returnPerSeqApplyScratch_frame (buf : Array2 F) : Preserves Frame (returnPerSeqApplyScratch buf : ExecM E F Unit) := by
  refine .modify _ fun s => ?_
  split
  · exact ⟨rfl,rfl,rfl,rfl,rfl,rfl,rfl,rfl,rfl,⟨0,rfl⟩,⟨0,rfl⟩,⟨[],(List.append_nil _).symm⟩⟩
  · exact .refl s

theorem runRegisteredLinear_frame (handles : List WeightHandle) (operand : Array2 F) :
    Preserves Frame (runRegisteredLinear handles operand : ExecM E F (List (Array2 F))) := by
  intro s
  cases answered : (GpuOffloadEngine.runRegisteredLinear handles operand s.engine).1 with
  | ok outs =>
    exact .ok (runRegisteredLinear_ok answered) ⟨rfl,rfl,rfl,rfl,rfl,rfl,rfl,rfl,rfl,⟨0,rfl⟩,⟨0,rfl⟩,⟨_,rfl⟩⟩
  | error text =>
    exact .error (runRegisteredLinear_error answered) ⟨rfl,rfl,rfl,rfl,rfl,rfl,rfl,rfl,rfl,⟨0,rfl⟩,⟨0,rfl⟩,⟨_,rfl⟩⟩

theorem verifyOutputs_frame (operand : Array2 F) : ∀ pairs, Preserves Frame (verifyOutputs operand pairs : ExecM E F Unit)
  | [] => .pure Frame.refl ()
  | (handle,observed) :: rest => by
    unfold verifyOutputs
    refine .after_get fun s => ?_
    cases s.weights handle with
    | none => exact Frame.refl s
    | some weight =>
      have drew : Frame s {s with rng:=(verifyOffload s.verifyProbes operand weight observed s.rng).2} :=
        ⟨rfl,rfl,rfl,rfl,rfl,rfl,rfl,rfl,rfl,verifyOffload_draw _ _ _ _ _,⟨0,rfl⟩,⟨[],(List.append_nil _).symm⟩⟩
      refine .after (set_run _ _) ?_
      cases (verifyOffload s.verifyProbes operand weight observed s.rng).1 with
      | ok _ => exact (verifyOutputs_frame operand rest _).imp (fun _ _ later => drew.trans later) fun _ _ later => drew.trans later
      | error text => exact drew

theorem request_frame (handles : List WeightHandle) (operand : Array2 F) (wrongCount : Nat → String) :
    Preserves Frame (request handles operand wrongCount : ExecM E F (List (Array2 F))) := by
  refine framed (runRegisteredLinear_frame handles operand) fun outs => ?_
  by_cases counted : outs.length = handles.length
  · rw [if_pos counted]
    refine .after_get fun s => ?_
    by_cases probing : 0 < s.verifyProbes
    · rw [if_pos probing]
      exact framed (verifyOutputs_frame operand _) (fun _ => .pure Frame.refl _) s
    · rw [if_neg probing]
      exact Frame.refl s
  · rw [if_neg counted]
    exact .throw Frame.refl _

theorem offloadSingle_frame (handles : List WeightHandle) (hidden : Array2 F) (wrongCount : Nat → String) :
    Preserves Frame (offloadSingle handles hidden wrongCount : ExecM E F (List (Array2 F))) :=
  framed (buildShieldedAndApply_frame hidden) fun _ => framed (request_frame _ _ _) fun _ =>
    framed (orPanic_frame _) fun _ => framed (orPanic_frame _) fun _ => framed (returnApplyScratch_frame _) fun _ =>
    .pure Frame.refl _

theorem buildPerSequenceMasked_frame (hidden : Array2 F) (masks : List (MaskFamily F)) (dataN batchSize : Nat) :
    Preserves Frame (buildPerSequenceMasked hidden masks dataN batchSize : ExecM E F (Array2 F)) := by
  cases masks with
  | nil => exact .throw Frame.refl _
  | cons first rest =>
    refine .after_get fun s => .after (set_run _ _) ?_
    have drew : Frame s {s with
        perSeqApplyScratch:=Function.update s.perSeqApplyScratch hidden.ncols none
        shieldRng:=s.shieldRng.advance (4 * batchSize)
        trace:=if batchSize = 0 then s.trace else s.trace ++ [Event.shield s.shieldRng]} := by
      refine ⟨rfl,rfl,rfl,rfl,rfl,rfl,rfl,rfl,rfl,⟨0,rfl⟩,⟨_,rfl⟩,?_⟩
      by_cases empty : batchSize = 0
      · exact ⟨[],(if_pos empty).trans (List.append_nil _).symm⟩
      · exact ⟨_,if_neg empty⟩
    split
    · exact drew
    · exact (framed (orPanic_frame _) (fun _ => .pure Frame.refl _) _).imp (fun _ _ later => drew.trans later)
        fun _ _ later => drew.trans later

theorem offloadPerSequence_frame (handles : List WeightHandle) (hidden : Array2 F) (masks : List (MaskFamily F))
    (dataN batchSize : Nat) (wrongCount : Nat → String) :
    Preserves Frame (offloadPerSequence handles hidden masks dataN batchSize wrongCount : ExecM E F (List (Array2 F))) :=
  framed (buildPerSequenceMasked_frame _ _ _ _) fun _ => framed (request_frame _ _ _) fun _ =>
    framed (orPanic_frame _) fun _ => framed (returnPerSeqApplyScratch_frame _) fun _ => .pure Frame.refl _

theorem only_frame (outs : List (Array2 F)) : Preserves Frame (only outs : ExecM E F (Array2 F)) := by
  cases outs with
  | nil => exact .throw Frame.refl _
  | cons out rest => exact .pure Frame.refl _

theorem offloadLinear_frame (handle : WeightHandle) (hidden : Array2 F) :
    Preserves Frame (offloadLinear handle hidden : ExecM E F (Array2 F)) := by
  unfold offloadLinear
  refine .after_get fun s => ?_
  split
  · split
    · exact Frame.refl s
    · split
      · exact Frame.refl s
      · exact framed (offloadPerSequence_frame _ _ _ _ _ _) (fun outs => only_frame outs) s
  · exact framed (offloadSingle_frame _ _ _) (fun outs => only_frame outs) s

theorem offloadTogether_frame (handles : List WeightHandle) (hidden : Array2 F) :
    Preserves Frame (offloadTogether handles hidden : ExecM E F (List (Array2 F))) := by
  unfold offloadTogether
  refine .after_get fun s => ?_
  split
  · exact offloadPerSequence_frame _ _ _ _ _ _ s
  · exact offloadSingle_frame _ _ _ s

theorem offloadQkv_frame (layer : Nat) (hidden : Array2 F) :
    Preserves Frame (offloadQkv layer hidden : ExecM E F (Array2 F × Array2 F × Array2 F)) := by
  refine framed (offloadTogether_frame _ hidden) fun outs => ?_
  split
  · exact .pure Frame.refl _
  · exact .throw Frame.refl _

theorem offloadLinearMany_frame (handles : List WeightHandle) (hidden : Array2 F) :
    Preserves Frame (offloadLinearMany handles hidden : ExecM E F (List (Array2 F))) := by
  unfold offloadLinearMany
  split
  · exact .pure Frame.refl _
  · exact offloadTogether_frame handles hidden

end InProcessTrustedExecutor
end Gelo
