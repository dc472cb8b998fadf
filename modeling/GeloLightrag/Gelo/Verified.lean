import GeloLightrag.Gelo.Frame
import GeloLightrag.Gelo.Recorded

set_option linter.unusedSectionVars false

namespace Gelo
open Foundation Array2

-- What an engine claims to have multiplied, and what it returned for it.
structure Product (F : Type) [Zero F] where
  a : Array2 F
  b : Array2 F
  z : Array2 F

section Products
variable {F : Type} [Field F] [LinearOrder F] [IsStrictOrderedRing F] [Platform F]

-- The products an exchange returned, the weights as this side keeps them. A fused
-- attention is no product.
def products (weights : WeightHandle → Option (Array2 F)) : Exchange F → Option (List (Product F))
  | .registeredLinear handles operand (.ok outs) =>
    (handles.zip outs).mapM fun pair => (weights pair.1).map fun weight => ⟨operand,weight,pair.2⟩
  | .matmulDynamic lhs rhs (.ok z) => some [⟨lhs,rhs,z⟩]
  | .runtimeMatmul lhs rhs (.ok z) => some ((List.range lhs.planes).map fun h => ⟨lhs.plane h,rhs.plane h,z.plane h⟩)
  | .fusedAttention _ _ _ _ _ (.ok _) => none
  | _ => some []

-- Probe after probe accepted, the generator moving from one state to the other.
inductive Accepted (nProbes : Nat) : List (Product F) → ChaCha20Rng → ChaCha20Rng → Prop where
  | nil : Accepted nProbes [] rng rng
  | cons : verifyOffload nProbes p.a p.b p.z rng = (.ok (),next) → Accepted nProbes rest next last →
      Accepted nProbes (p :: rest) rng last

-- Every product that came back has been accepted, and the last probe is the last
-- thing the mask generator was used for.
def VouchedFor (nProbes : Nat) (weights : WeightHandle → Option (Array2 F)) (crossed : List (Exchange F)) (last : ChaCha20Rng) : Prop :=
  ∃ claimed start, crossed.mapM (products weights) = some claimed ∧ Accepted nProbes claimed.flatten start last

theorem vouched_nil (nProbes : Nat) (weights : WeightHandle → Option (Array2 F)) (last : ChaCha20Rng) :
    VouchedFor nProbes weights [] last := ⟨[],last,rfl,.nil⟩

theorem vouched_one {weights : WeightHandle → Option (Array2 F)} (returned : products weights exchange = some claimed)
    (accepted : Accepted nProbes claimed start last) : VouchedFor nProbes weights [exchange] last :=
  ⟨[claimed],start,by rw [List.mapM_cons,returned]; rfl,by simpa using accepted⟩

end Products

namespace InProcessTrustedExecutor
variable {E F : Type} [Field F]

-- Programs that leave the engine, and those that leave the generator too.
def Still (s t : InProcessTrustedExecutor E F) : Prop := t.engine = s.engine
def Frozen (s t : InProcessTrustedExecutor E F) : Prop := t.engine = s.engine ∧ t.rng = s.rng

theorem still_refl (s : InProcessTrustedExecutor E F) : Still s s := rfl
theorem still_trans (s t u : InProcessTrustedExecutor E F) (first : Still s t) (second : Still t u) : Still s u := second.trans first
theorem frozen_refl (s : InProcessTrustedExecutor E F) : Frozen s s := ⟨rfl,rfl⟩
theorem frozen_trans (s t u : InProcessTrustedExecutor E F) (first : Frozen s t) (second : Frozen t u) : Frozen s u :=
  ⟨second.1.trans first.1,second.2.trans first.2⟩

theorem orPanic_frozen {α : Type} (x : Except String α) : Preserves Frozen (orPanic x : ExecM E F α) := by
  cases x with
  | ok a => exact frozen_refl
  | error text => exact frozen_refl

theorem orPanic_still {α : Type} (x : Except String α) : Preserves Still (orPanic x : ExecM E F α) := fun s =>
  (orPanic_frozen x s).imp (fun _ _ frozen => frozen.1) fun _ _ frozen => frozen.1

variable [LinearOrder F] [IsStrictOrderedRing F] [Platform F] [GpuOffloadEngine E F]

theorem drawMask_still (resolved : MaskKind) (n : Nat) : Preserves Still (drawMask resolved n : ExecM E F (MaskFamily F)) := by
  intro s
  cases sampled : sampleMask (F:=F) resolved n s.rng with
  | ok drawn => exact .ok (drawMask_ok sampled) rfl
  | error text => exact .error (drawMask_error sampled) rfl

theorem operandMask_still (n : Nat) : Preserves Still (operandMask n : ExecM E F (MaskFamily F)) := by
  unfold operandMask
  refine .after_get fun s => ?_
  dsimp only
  split
  · split
    · split <;> exact still_refl s
    · exact still_refl s
    · exact still_refl s
  · exact drawMask_still _ _ s

theorem maskOperand_still (hidden : Array2 F) (mask : MaskFamily F) :
    Preserves Still (maskOperand hidden mask : ExecM E F (Array2 F)) := by
  unfold maskOperand
  refine .after_get fun s => ?_
  dsimp only
  have filled (count : Nat) (sigma : F) : Preserves Still (fillShieldRows count sigma : ExecM E F (Nat → F)) := fun s => rfl
  split
  · refine Preserves.bind still_trans (filled _ _) (fun noise => ?_) s
    exact .bind still_trans (.modify _ fun t => rfl) fun _ => orPanic_still _
  · exact Preserves.bind still_trans (filled _ _) (fun noise => orPanic_still _) s

theorem buildShieldedAndApply_still (hidden : Array2 F) :
    Preserves Still (buildShieldedAndApply hidden : ExecM E F (MaskFamily F × Array2 F)) :=
  .bind still_trans (operandMask_still _) fun mask => .bind still_trans (maskOperand_still _ mask) fun _ => .pure still_refl _

theorem buildPerSequenceMasked_still (hidden : Array2 F) (masks : List (MaskFamily F)) (dataN batchSize : Nat) :
    Preserves Still (buildPerSequenceMasked hidden masks dataN batchSize : ExecM E F (Array2 F)) := by
  cases masks with
  | nil => exact .throw still_refl _
  | cons first rest =>
    refine .after_get fun s => .after (set_run _ _) ?_
    split
    · exact still_refl s
    · exact Preserves.bind still_trans (orPanic_still _) (fun _ => .pure still_refl _) _

theorem returnApplyScratch_frozen (buf : Array2 F) : Preserves Frozen (returnApplyScratch buf : ExecM E F Unit) := by
  refine .modify _ fun s => ?_
  split
  · exact ⟨rfl,rfl⟩
  · exact frozen_refl s

theorem returnPerSeqApplyScratch_frozen (buf : Array2 F) : Preserves Frozen (returnPerSeqApplyScratch buf : ExecM E F Unit) := by
  refine .modify _ fun s => ?_
  split
  · exact ⟨rfl,rfl⟩
  · exact frozen_refl s

-- What a call on the executor leaves on the transcript is vouched for.
def Vouched (s t : InProcessTrustedExecutor (Recorded E F) F) : Prop :=
  ∃ crossed, t.engine.transcript = s.engine.transcript ++ crossed ∧ VouchedFor s.verifyProbes s.weights crossed t.rng

theorem Vouched.later {s t u : InProcessTrustedExecutor (Recorded E F) F} (vouched : Vouched s t) (frozen : Frozen t u) : Vouched s u := by
  obtain ⟨crossed,grown,accepted⟩ := vouched
  exact ⟨crossed,by rw [frozen.1,grown],by rw [frozen.2]; exact accepted⟩

theorem Vouched.earlier {s t u : InProcessTrustedExecutor (Recorded E F) F} (frame : Frame s t) (still : Still s t)
    (vouched : Vouched t u) : Vouched s u := by
  obtain ⟨crossed,grown,accepted⟩ := vouched
  rw [frame.verifyProbes,frame.weights] at accepted
  exact ⟨crossed,by rw [grown,show t.engine = s.engine from still],accepted⟩

-- The probes of one answer, output by output.
theorem verifyOutputs_accepts (operand : Array2 F) (pairs : List (WeightHandle × Array2 F)) (s : InProcessTrustedExecutor E F) :
    Ends (verifyOutputs operand pairs) s (fun _ t => t.engine = s.engine ∧
      ∃ claimed, (pairs.mapM fun pair => (s.weights pair.1).map fun weight => (⟨operand,weight,pair.2⟩ : Product F)) = some claimed ∧
        Accepted s.verifyProbes claimed s.rng t.rng) (fun _ _ => True) := by
  induction pairs generalizing s with
  | nil => exact .ok (pure_run () s) ⟨rfl,[],rfl,.nil⟩
  | cons pair rest ih =>
    unfold verifyOutputs
    refine .after (get_run s) ?_
    cases kept : s.weights pair.1 with
    | none => exact .error (throw_run _ s) trivial
    | some weight =>
      dsimp only
      refine .after (set_run _ _) ?_
      cases checked : verifyOffload s.verifyProbes operand weight pair.2 s.rng with
      | mk answer rng =>
        cases answer with
        | error text => exact .error (throw_run _ _) trivial
        | ok _ =>
          refine (ih {s with rng:=rng}).imp (fun _ t later => ?_) fun _ _ _ => trivial
          obtain ⟨engine,claimed,returned,accepted⟩ := later
          refine ⟨engine,⟨operand,weight,pair.2⟩ :: claimed,?_,.cons checked accepted⟩
          rw [List.mapM_cons,kept]
          simp only [Option.map_some]
          rw [show (rest.mapM _ : Option (List (Product F))) = some claimed from returned]
          rfl

theorem request_vouched (handles : List WeightHandle) (operand : Array2 F) (wrongCount : Nat → String)
    {s : InProcessTrustedExecutor (Recorded E F) F} (probing : 0 < s.verifyProbes) :
    Ends (request handles operand wrongCount) s (fun _ t => Vouched s t) (fun _ _ => True) := by
  unfold request
  cases answered : (GpuOffloadEngine.runRegisteredLinear handles operand s.engine).1 with
  | error text => exact .error (bind_error (runRegisteredLinear_error answered)) trivial
  | ok outs =>
    refine .after (runRegisteredLinear_ok answered) ?_
    split
    · refine .after (get_run _) ?_
      rw [if_pos (show 0 < s.verifyProbes from probing)]
      refine .bind (verifyOutputs_accepts operand (handles.zip outs) _) fun _ t _ checked => .ok (pure_run outs t) ?_
      obtain ⟨engine,claimed,returned,accepted⟩ := checked
      have noted : (GpuOffloadEngine.runRegisteredLinear handles operand s.engine).2.transcript =
          s.engine.transcript ++ [.registeredLinear handles operand (.ok outs)] := by rw [←answered]; rfl
      exact ⟨[.registeredLinear handles operand (.ok outs)],by rw [engine,noted],vouched_one returned accepted⟩
    · exact .error (throw_run _ _) trivial

theorem offloadSingle_vouched (handles : List WeightHandle) (hidden : Array2 F) (wrongCount : Nat → String)
    {s : InProcessTrustedExecutor (Recorded E F) F} (probing : 0 < s.verifyProbes) :
    Ends (offloadSingle handles hidden wrongCount) s (fun _ t => Vouched s t) (fun _ _ => True) := by
  have built := ((buildShieldedAndApply_frame (E:=Recorded E F) hidden).and (buildShieldedAndApply_still hidden)) s
  refine .bind (built.imp (fun _ _ both => both) fun _ _ _ => trivial) fun drawn t _ both => ?_
  refine .bind (request_vouched handles drawn.2 wrongCount (by rw [both.1.verifyProbes]; exact probing)) fun outs u _ vouched => ?_
  have rest : Preserves Frozen (do
      let unmasked ← orPanic (outs.mapM drawn.1.unapplyTake)
      let stripped ← orPanic (unmasked.mapM (stripShield hidden.nrows))
      returnApplyScratch drawn.2
      return stripped : ExecM (Recorded E F) F (List (Array2 F))) :=
    .bind frozen_trans (orPanic_frozen _) fun _ => .bind frozen_trans (orPanic_frozen _) fun _ =>
      .bind frozen_trans (returnApplyScratch_frozen _) fun _ => .pure frozen_refl _
  exact (rest u).imp (fun _ _ frozen => .earlier both.1 both.2 (vouched.later frozen)) fun _ _ _ => trivial

theorem offloadPerSequence_vouched (handles : List WeightHandle) (hidden : Array2 F) (masks : List (MaskFamily F))
    (dataN batchSize : Nat) (wrongCount : Nat → String) {s : InProcessTrustedExecutor (Recorded E F) F}
    (probing : 0 < s.verifyProbes) :
    Ends (offloadPerSequence handles hidden masks dataN batchSize wrongCount) s (fun _ t => Vouched s t) (fun _ _ => True) := by
  have built := ((buildPerSequenceMasked_frame (E:=Recorded E F) hidden masks dataN batchSize).and
    (buildPerSequenceMasked_still hidden masks dataN batchSize)) s
  refine .bind (built.imp (fun _ _ both => both) fun _ _ _ => trivial) fun concatMasked t _ both => ?_
  refine .bind (request_vouched handles concatMasked wrongCount (by rw [both.1.verifyProbes]; exact probing)) fun outs u _ vouched => ?_
  have rest : Preserves Frozen (do
      let results ← orPanic (outs.mapM (unmaskPerSequence masks dataN batchSize))
      returnPerSeqApplyScratch concatMasked
      return results : ExecM (Recorded E F) F (List (Array2 F))) :=
    .bind frozen_trans (orPanic_frozen _) fun _ => .bind frozen_trans (returnPerSeqApplyScratch_frozen _) fun _ =>
      .pure frozen_refl _
  exact (rest u).imp (fun _ _ frozen => .earlier both.1 both.2 (vouched.later frozen)) fun _ _ _ => trivial

theorem only_frozen (outs : List (Array2 F)) : Preserves Frozen (only outs : ExecM E F (Array2 F)) := by
  cases outs with
  | nil => exact .throw frozen_refl _
  | cons out rest => exact .pure frozen_refl _

theorem Vouched.of_still {s t : InProcessTrustedExecutor (Recorded E F) F} (still : Still s t) : Vouched s t :=
  ⟨[],by rw [show t.engine = s.engine from still,List.append_nil],vouched_nil _ _ _⟩

-- An answer without a matrix.
theorem Vouched.of_unit {s t : InProcessTrustedExecutor (Recorded E F) F} {exchange : Exchange F}
    (noted : t.engine.transcript = s.engine.transcript ++ [exchange]) (returned : products s.weights exchange = some []) :
    Vouched s t := ⟨[exchange],noted,vouched_one returned .nil⟩

theorem register_notes (handle : WeightHandle) (weight : Array2 F) (s : InProcessTrustedExecutor (Recorded E F) F) :
    Ends (register handle weight) s (fun _ t => t.engine.transcript =
      s.engine.transcript ++ [.registerWeight handle weight (.ok ())]) (fun _ _ => True) := by
  unfold register Ends
  cases answered : (GpuOffloadEngine.registerWeight handle weight s.engine).1 with
  | ok _ =>
    simp only [answered]
    rw [←answered]
    rfl
  | error text => simp only [answered]

theorem cacheWeight_engine (handle : WeightHandle) (weight : Array2 F) (s : InProcessTrustedExecutor E F) :
    (cacheWeight handle weight s).engine = s.engine := by
  unfold cacheWeight
  split <;> rfl

theorem Vouched.refl (s : InProcessTrustedExecutor (Recorded E F) F) : Vouched s s := .of_still rfl

section Linear
variable {s : InProcessTrustedExecutor (Recorded E F) F} (probing : 0 < s.verifyProbes)
include probing

theorem offloadLinear_vouched (handle : WeightHandle) (hidden : Array2 F) :
    Ends (offloadLinear handle hidden) s (fun _ t => Vouched s t) (fun _ _ => True) := by
  have finish (outs : List (Array2 F)) (t : InProcessTrustedExecutor (Recorded E F) F) (vouched : Vouched s t) :
      Ends (only outs : ExecM (Recorded E F) F (Array2 F)) t (fun _ u => Vouched s u) (fun _ _ => True) :=
    (only_frozen outs t).imp (fun _ _ frozen => vouched.later frozen) fun _ _ _ => trivial
  unfold offloadLinear
  refine .after (get_run s) ?_
  split
  · split
    · exact .error (throw_run _ s) trivial
    · split
      · exact .error (throw_run _ s) trivial
      · exact .bind (offloadPerSequence_vouched _ _ _ _ _ _ probing) fun outs t _ => finish outs t
  · exact .bind (offloadSingle_vouched _ _ _ probing) fun outs t _ => finish outs t

theorem offloadTogether_vouched (handles : List WeightHandle) (hidden : Array2 F) :
    Ends (offloadTogether handles hidden) s (fun _ t => Vouched s t) (fun _ _ => True) := by
  unfold offloadTogether
  refine .after (get_run s) ?_
  split
  · exact offloadPerSequence_vouched _ _ _ _ _ _ probing
  · exact offloadSingle_vouched _ _ _ probing

theorem offloadQkv_vouched (layer : Nat) (hidden : Array2 F) :
    Ends (offloadQkv layer hidden) s (fun _ t => Vouched s t) (fun _ _ => True) := by
  refine .bind (offloadTogether_vouched probing _ hidden) fun outs t _ vouched => ?_
  split
  · exact .ok (pure_run _ t) vouched
  · exact .error (throw_run _ t) trivial

theorem offloadLinearMany_vouched (handles : List WeightHandle) (hidden : Array2 F) :
    Ends (offloadLinearMany handles hidden) s (fun _ t => Vouched s t) (fun _ _ => True) := by
  unfold offloadLinearMany
  split
  · exact .ok (pure_run _ s) (.refl s)
  · exact offloadTogether_vouched probing handles hidden

end Linear

end InProcessTrustedExecutor

namespace OutAttnMult
variable {E F : Type} [Field F] [LinearOrder F] [IsStrictOrderedRing F] [Platform F] [Sampling F] [RuntimeEngine E F]

theorem setupStack_draws (q kt : Array2 F) : Draws (setupStack q kt : OffloadM (Recorded E F) (Stacked F)) := by
  have normal (rows cols : Nat) : Draws (sampleNormal rows cols : OffloadM (Recorded E F) (Array2 F)) :=
    (draw_draws _).bind fun z => .pure _
  exact (normal _ _).bind fun rQ => (normal _ _).bind fun rKt => (draw_draws _).bind fun a => (draw_draws _).bind fun b =>
    (draw_draws _).bind fun lambdaQ => (draw_draws _).bind fun lambdaK => .pure _

theorem verify_accepts (nProbes : Nat) (a b z : Array2 F) (s : Offload (Recorded E F)) :
    Ends (verify nProbes a b z) s (fun _ t => t.engine = s.engine ∧ verifyOffload nProbes a b z s.rng = (.ok (),t.rng))
      (fun _ _ => True) := by
  cases checked : verifyOffload nProbes a b z s.rng with
  | mk answer rng => cases answer with
    | ok _ => exact .ok (a:=()) (t:={s with rng:=rng}) (by simp only [verify,checked]) ⟨rfl,rfl⟩
    | error text => exact .error (e:=.error text) (t:={s with rng:=rng}) (by simp only [verify,checked]) trivial

theorem verifyHeads_accepts (nProbes : Nat) (stackedQ stackedKt tilde : Array3 F) (heads : List Nat) (s : Offload (Recorded E F)) :
    Ends (verifyHeads nProbes stackedQ stackedKt tilde heads) s (fun _ t => t.engine = s.engine ∧
      Accepted nProbes (heads.map fun h => ⟨stackedQ.plane h,stackedKt.plane h,tilde.plane h⟩) s.rng t.rng) (fun _ _ => True) := by
  induction heads generalizing s with
  | nil => exact .ok (pure_run () s) ⟨rfl,.nil⟩
  | cons h rest ih =>
    unfold verifyHeads indexAxis
    split
    · refine .after (pure_run _ s) (.bind (verify_accepts nProbes _ _ _ s) fun _ t _ one => ?_)
      refine (ih t).imp (fun _ u later => ⟨later.1.trans one.1,?_⟩) fun _ _ _ => trivial
      exact .cons one.2 later.2
    · exact .error (bind_error (throw_run _ s)) trivial

theorem orStop_same {α : Type} (x : Except String α) (s : Offload (Recorded E F)) :
    Ends (orStop x) s (fun _ t => t = s) (fun _ _ => True) := by
  cases x with
  | ok a => exact .ok (pure_run a s) rfl
  | error text => exact .error (throw_run _ s) trivial

variable {nProbes : Nat} (probing : 0 < nProbes) (weights : WeightHandle → Option (Array2 F))
include probing

theorem offloadQkt_vouched (q kt : Array2 F) (s : Offload (Recorded E F)) :
    Ends (offloadQkt q kt nProbes) s (fun _ t => ∃ crossed, Crossed crossed s t ∧ VouchedFor nProbes weights crossed t.rng)
      (fun _ _ => True) := by
  unfold offloadQkt
  dsimp only
  split
  · exact .error (throw_run _ s) trivial
  · refine .bind ((setupStack_draws q kt s).imp (fun _ _ kept => kept) fun _ _ _ => trivial) fun drawn t _ kept => ?_
    cases answered : (RuntimeEngine.matmulDynamic drawn.q drawn.kt t.engine).1 with
    | error text => exact .error (bind_error (ask_error answered)) trivial
    | ok tilde =>
      refine .after (ask_ok answered) ?_
      refine .bind (verify_accepts nProbes _ _ _ _) fun _ u _ checked => ?_
      refine (orStop_same (recoverQkt q.nrows drawn tilde) u).imp (fun _ v same => ?_) fun _ _ _ => trivial
      cases same
      have noted : (RuntimeEngine.matmulDynamic drawn.q drawn.kt t.engine).2.transcript =
          t.engine.transcript ++ [.matmulDynamic drawn.q drawn.kt (.ok tilde)] := by rw [←answered]; rfl
      have asked : Crossed [.matmulDynamic drawn.q drawn.kt (.ok tilde)] t u := by
        unfold Crossed
        rw [checked.1,noted]
      have returned : products weights (.matmulDynamic drawn.q drawn.kt (.ok tilde)) = some [⟨drawn.q,drawn.kt,tilde⟩] := rfl
      exact ⟨_,kept.trans asked,vouched_one returned (.cons checked.2 .nil)⟩

theorem offloadQktBatched_vouched (q kt : Array3 F) (s : Offload (Recorded E F)) :
    Ends (offloadQktBatched q kt nProbes) s (fun _ t => ∃ crossed, Crossed crossed s t ∧ VouchedFor nProbes weights crossed t.rng)
      (fun _ _ => True) := by
  unfold offloadQktBatched
  dsimp only
  split
  · exact .error (throw_run _ s) trivial
  · have drawing := Draws.mapM (fun hi => setupStack_draws (E:=E) (q.plane hi) (kt.plane hi)) (List.range q.planes)
    refine .bind ((drawing s).imp (fun _ _ kept => kept) fun _ _ _ => trivial) fun heads t drew kept => ?_
    have counted : heads.length = q.planes := by rw [mapM_length drew,List.length_range]
    let stackedQ := Array3.stack (2 * q.rows) q.cols (heads.map (·.q))
    let stackedKt := Array3.stack q.cols (2 * q.rows) (heads.map (·.kt))
    cases answered : (RuntimeEngine.runRuntimeMatmul stackedQ stackedKt t.engine).1 with
    | error text => exact .error (bind_error (ask_error answered)) trivial
    | ok tilde =>
      refine .after (ask_ok answered) ?_
      refine .bind (verifyHeads_accepts nProbes _ _ _ _ _) fun _ u _ checked => ?_
      refine .bind ((orStop_same _ u).imp (fun _ _ same => same) fun _ _ _ => trivial) fun recovered _ _ same => ?_
      cases same
      have noted : (RuntimeEngine.runRuntimeMatmul stackedQ stackedKt t.engine).2.transcript =
          t.engine.transcript ++ [.runtimeMatmul stackedQ stackedKt (.ok tilde)] := by rw [←answered]; rfl
      have asked : Crossed [.runtimeMatmul stackedQ stackedKt (.ok tilde)] t u := by
        unfold Crossed
        rw [checked.1,noted]
      have planes : stackedQ.planes = q.planes := by
        show (heads.map (·.q)).length = q.planes
        rw [List.length_map,counted]
      have accepted : Accepted nProbes ((List.range stackedQ.planes).map fun h =>
          ⟨stackedQ.plane h,stackedKt.plane h,tilde.plane h⟩) t.rng u.rng := by
        rw [planes]
        exact checked.2
      have returned : products weights (.runtimeMatmul stackedQ stackedKt (.ok tilde)) = some ((List.range stackedQ.planes).map fun h =>
        ⟨stackedQ.plane h,stackedKt.plane h,tilde.plane h⟩) := rfl
      exact .ok (pure_run _ u) ⟨_,kept.trans asked,vouched_one returned accepted⟩

end OutAttnMult

namespace FullExecutor
open InProcessTrustedExecutor
variable {E F : Type} [Field F] [LinearOrder F] [IsStrictOrderedRing F] [Platform F] [Sampling F] [Exponential F]
  [GpuOffloadEngine E F] [RuntimeEngine E F]

section Lifting
variable {α : Type} {s : FullExecutor E F}

theorem onCore_ends {x : ExecM E F α} {done : α → InProcessTrustedExecutor E F → Prop}
    {failed : Fault → InProcessTrustedExecutor E F → Prop} (ends : Ends x s.core done failed) :
    Ends (onCore x) s (fun a t => done a t.core) (fun e t => failed e t.core) := by
  unfold Ends at ends
  cases ran : x s.core with
  | ok a core => rw [ran] at ends; exact .ok (t:={s with core:=core}) (by simp only [onCore,ran]) ends
  | error e core => rw [ran] at ends; exact .error (t:={s with core:=core}) (by simp only [onCore,ran]) ends

theorem lend_ends {x : FullExecutor E F → OffloadM E α} {done : α → Offload E → Prop} {failed : Fault → Offload E → Prop}
    (ends : Ends (x s) ⟨s.core.engine,s.core.rng⟩ done failed) :
    Ends (lend x) s (fun a t => ∃ left, t.core = {s.core with engine:=left.engine,rng:=left.rng} ∧ done a left)
      (fun e t => ∃ left, t.core = {s.core with engine:=left.engine,rng:=left.rng} ∧ failed e left) := by
  unfold Ends at ends
  cases ran : x s ⟨s.core.engine,s.core.rng⟩ with
  | ok a left =>
    rw [ran] at ends
    exact .ok (t:={s with core:={s.core with engine:=left.engine,rng:=left.rng}}) (by simp only [lend,ran]) ⟨left,rfl,ends⟩
  | error e left =>
    rw [ran] at ends
    exact .error (t:={s with core:={s.core with engine:=left.engine,rng:=left.rng}}) (by simp only [lend,ran]) ⟨left,rfl,ends⟩

theorem replying_ends {reply : α → TrustedReply F} {x : FullM E F α} {done : FullExecutor E F → Prop}
    {failed : Fault → FullExecutor E F → Prop} (ends : Ends x s (fun _ t => done t) failed) :
    Ends (replying reply x) s (fun _ t => done t) failed :=
  .bind ends fun a t _ now => .ok (pure_run _ t) now

end Lifting

-- Programs on the executor that leave the number of probes.
def Probing {α : Type} (x : ExecM E F α) : Prop := Preserves (fun s t => t.verifyProbes = s.verifyProbes) x

theorem framed_probing {α : Type} {x : ExecM E F α} (frame : Preserves Frame x) : Probing x := fun s =>
  (frame s).imp (fun _ _ kept => kept.verifyProbes) fun _ _ kept => kept.verifyProbes

theorem Probing.bind {α β : Type} {x : ExecM E F α} {f : α → ExecM E F β} (first : Probing x) (rest : ∀ a, Probing (f a)) :
    Probing (x >>= f) := Preserves.bind (fun _ _ _ one two => two.trans one) first rest

theorem Probing.modify {g : InProcessTrustedExecutor E F → InProcessTrustedExecutor E F} (kept : ∀ s, (g s).verifyProbes = s.verifyProbes) :
    Probing (modify g) := Preserves.modify g kept

-- Programs that leave the engine besides.
def Apart {α : Type} (x : ExecM E F α) : Prop :=
  Preserves (fun s t => t.engine = s.engine ∧ t.verifyProbes = s.verifyProbes) x

theorem Apart.pure {α : Type} (a : α) : Apart (pure a : ExecM E F α) := fun _ => ⟨rfl,rfl⟩

theorem Apart.bind {α β : Type} {x : ExecM E F α} {f : α → ExecM E F β} (first : Apart x) (rest : ∀ a, Apart (f a)) :
    Apart (x >>= f) := Preserves.bind (fun _ _ _ one two => ⟨two.1.trans one.1,two.2.trans one.2⟩) first rest

theorem drawMask_apart (resolved : MaskKind) (n : Nat) : Apart (drawMask resolved n : ExecM E F (MaskFamily F)) := fun s =>
  ((drawMask_frame resolved n).and (drawMask_still resolved n) s).imp (fun _ _ kept => ⟨kept.2,kept.1.verifyProbes⟩)
    fun _ _ kept => ⟨kept.2,kept.1.verifyProbes⟩

theorem drawFor_apart (rows : Nat) : Apart (drawFor rows : ExecM E F (MaskFamily F)) := .after_get fun s => drawMask_apart _ _ s

theorem drawMasks_apart (rows : Nat) : ∀ count, Apart (drawMasks rows count : ExecM E F (List (MaskFamily F)))
  | 0 => .pure []
  | count+1 => Apart.bind (drawFor_apart rows) fun mask => .bind (drawMasks_apart rows count) fun masks => .pure (mask :: masks)

theorem enterSingle_apart (n : Nat) (shield : ShieldConfig F) : Apart (enterSingle n shield : ExecM E F Unit) := by
  refine Apart.bind (.modify _ fun _ => ⟨rfl,rfl⟩) fun _ => ?_
  refine Apart.bind (drawFor_apart _) fun mask => ?_
  exact .modify _ fun _ => ⟨rfl,rfl⟩

theorem enterBatch_apart (batchSize n : Nat) (shield : ShieldConfig F) : Apart (enterBatch batchSize n shield : ExecM E F Unit) := by
  refine Apart.bind (.modify _ fun _ => ⟨rfl,rfl⟩) fun _ => ?_
  refine Apart.bind (drawMasks_apart _ _) fun masks => ?_
  exact .modify _ fun _ => ⟨rfl,rfl⟩

theorem beginForwardPass_apart (n : Nat) : Apart (beginForwardPass n : ExecM E F Unit) := by
  refine .after_get fun s => ?_
  split
  · exact enterSingle_apart _ _ s
  · exact .ok (pure_run () s) ⟨rfl,rfl⟩

theorem beginPrefillPass_apart (batchSize n : Nat) : Apart (beginPrefillPass batchSize n : ExecM E F Unit) := by
  refine .after_get fun s => ?_
  split
  · split
    · exact .error (throw_run _ s) ⟨rfl,rfl⟩
    · split
      · exact .error (throw_run _ s) ⟨rfl,rfl⟩
      · exact enterBatch_apart _ _ _ s
  · exact .ok (pure_run () s) ⟨rfl,rfl⟩

theorem beginDecodePass_apart (shared : Bool) (batchSize : Nat) : Apart (beginDecodePass shared batchSize : ExecM E F Unit) := by
  refine .after_get fun s => ?_
  split
  · split
    · exact .error (throw_run _ s) ⟨rfl,rfl⟩
    · split
      · exact enterSingle_apart _ _ s
      · exact enterBatch_apart _ _ _ s
  · exact .ok (pure_run () s) ⟨rfl,rfl⟩

theorem Apart.probing {α : Type} {x : ExecM E F α} (apart : Apart x) : Probing x := fun s =>
  (apart s).imp (fun _ _ kept => kept.2) fun _ _ kept => kept.2

theorem register_probing (handle : WeightHandle) (weight : Array2 F) : Probing (register handle weight : ExecM E F Unit) := by
  intro s
  obtain ⟨engine,ends⟩ := register_ends handle weight s
  exact ends.imp (fun _ _ same => same ▸ rfl) fun _ _ same => same ▸ rfl

theorem cacheWeight_probing (handle : WeightHandle) (weight : Array2 F) (s : InProcessTrustedExecutor E F) :
    (cacheWeight handle weight s).verifyProbes = s.verifyProbes := by
  unfold cacheWeight
  split <;> rfl

-- Every call leaves the number of probes.
theorem probes_kept (call : TrustedCall F) :
    Preserves (fun s t : FullExecutor E F => t.core.verifyProbes = s.core.verifyProbes) (answer call) := by
  intro s
  have lifted {α : Type} (reply : α → TrustedReply F) {x : ExecM E F α} (probing : Probing x) :
      Ends (replying reply (onCore x)) s (fun _ t => t.core.verifyProbes = s.core.verifyProbes)
        (fun _ t => t.core.verifyProbes = s.core.verifyProbes) := replying_ends (onCore_ends (probing s.core))
  have lent {α : Type} (reply : α → TrustedReply F) (x : FullExecutor E F → OffloadM E α) :
      Ends (replying reply (lend x)) s (fun _ t => t.core.verifyProbes = s.core.verifyProbes)
        (fun _ t => t.core.verifyProbes = s.core.verifyProbes) := by
    have ends : Ends (x s) ⟨s.core.engine,s.core.rng⟩ (fun _ _ => True) (fun _ _ => True) := by
      unfold Ends
      split <;> trivial
    exact replying_ends ((lend_ends ends).imp (fun _ _ ⟨_,same,_⟩ => by rw [same]) fun _ _ ⟨_,same,_⟩ => by rw [same])
  cases call with
  | provisionWeight handle weight =>
    exact lifted _ ((Probing.modify (cacheWeight_probing handle weight)).bind fun _ => register_probing handle weight)
  | provisionWeightShared handle weight =>
    exact lifted _ ((register_probing handle weight).bind fun _ => .modify (cacheWeight_probing handle weight))
  | provisionWeightBf16 handle weight => exact lent _ _
  | provisionWeightBf16Shared handle weight => exact lent _ _
  | beginForwardPass n => exact lifted _ (beginForwardPass_apart n).probing
  | endForwardPass => exact lifted _ (.modify fun _ => rfl)
  | beginPrefillPass batchSize n => exact lifted _ (beginPrefillPass_apart batchSize n).probing
  | beginDecodePass shared batchSize => exact lifted _ (beginDecodePass_apart shared batchSize).probing
  | beginForwardSession shared shape =>
    cases shape with
    | single n => exact lifted _ (beginForwardPass_apart n).probing
    | prefillBatch batchSize n => exact lifted _ (beginPrefillPass_apart batchSize n).probing
    | decodeBatch batchSize => exact lifted _ (beginDecodePass_apart shared batchSize).probing
  | setRngStream stream => exact lifted _ (.modify fun _ => rfl)
  | provisionPleTable table => exact replying_ends (.ok (modify_run _ s) rfl)
  | pleGather tokenIds layerIdx =>
    refine replying_ends (.after (get_run s) ?_)
    cases s.pleTable with
    | none => exact .error (throw_run _ s) rfl
    | some table =>
      dsimp only
      cases table.gather tokenIds layerIdx with
      | ok rows => exact .ok (pure_run rows s) rfl
      | error text => exact .error (throw_run _ s) rfl
  | offloadLinear handle hidden => exact lifted _ (framed_probing (offloadLinear_frame handle hidden))
  | offloadQkv layer hidden => exact lifted _ (framed_probing (offloadQkv_frame layer hidden))
  | offloadLinearMany handles hidden => exact lifted _ (framed_probing (offloadLinearMany_frame handles hidden))
  | offloadAttentionQkt q kt => exact lent _ _
  | offloadAttentionQktBatched q kt => exact lent _ _
  | offloadAttentionPermuted q k v scale mask => exact lent _ _
  | offloadAttentionPermutedCached q k v scale qPosOffset mask => exact lent _ _

-- The attention offloads that get past their shape checks.
def Unprobed : TrustedCall F → Prop
  | .offloadAttentionPermuted q k v _ _ => dims k = dims q ∧ dims v = dims q
  | .offloadAttentionPermutedCached q k v _ qPosOffset _ => CachedShapes q k v ∧ qPosOffset + q.rows ≤ k.rows
  | _ => False

theorem lend_refused {α : Type} {x : FullExecutor E F → OffloadM E α} {s : FullExecutor E F} (throws : x s = throw fault)
    {done : α → FullExecutor E F → Prop} : Ends (lend x) s done (fun _ _ => True) :=
  .error (e:=fault) (t:=s) (by unfold lend; rw [throws]; rfl) trivial

theorem ask_unit (call : E → Except String Unit × E) (note : Except String Unit → Exchange F) {nProbes : Nat}
    {weights : WeightHandle → Option (Array2 F)} (returned : products weights (note (.ok ())) = some []) (s : Offload (Recorded E F)) :
    Ends (ask (Recorded.record call note)) s (fun _ t => ∃ crossed, Crossed crossed s t ∧ VouchedFor nProbes weights crossed t.rng)
      (fun _ _ => True) := by
  cases answered : (Recorded.record call note s.engine).1 with
  | ok _ =>
    refine .ok (ask_ok answered) ⟨[note (.ok ())],?_,vouched_one returned .nil⟩
    rw [←answered]
    rfl
  | error text => exact .error (ask_error answered) trivial

-- A call that returns has had everything vouched for that the engine gave it.
theorem answer_vouched {s : FullExecutor (Recorded E F) F} (probing : 0 < s.core.verifyProbes) {call : TrustedCall F}
    (probed : ¬Unprobed call) : Ends (answer call) s (fun _ t => Vouched s.core t.core) (fun _ _ => True) := by
  have lifted {α : Type} (reply : α → TrustedReply F) {x : ExecM (Recorded E F) F α}
      (ends : Ends x s.core (fun _ t => Vouched s.core t) (fun _ _ => True)) :
      Ends (replying reply (onCore x)) s (fun _ t => Vouched s.core t.core) (fun _ _ => True) := replying_ends (onCore_ends ends)
  have lent {α : Type} (reply : α → TrustedReply F) {x : FullExecutor (Recorded E F) F → OffloadM (Recorded E F) α}
      (ends : Ends (x s) ⟨s.core.engine,s.core.rng⟩ (fun _ t => ∃ crossed, Crossed crossed ⟨s.core.engine,s.core.rng⟩ t ∧
        VouchedFor s.core.verifyProbes s.core.weights crossed t.rng) (fun _ _ => True)) :
      Ends (replying reply (lend x)) s (fun _ t => Vouched s.core t.core) (fun _ _ => True) := by
    refine replying_ends ((lend_ends ends).imp (fun _ t ended => ?_) fun _ _ _ => trivial)
    obtain ⟨left,same,crossed,grown,accepted⟩ := ended
    rw [same]
    exact ⟨crossed,grown,accepted⟩
  have apart (reply : Unit → TrustedReply F) {x : ExecM (Recorded E F) F Unit} (apart : Apart x) :
      Ends (replying reply (onCore x)) s (fun _ t => Vouched s.core t.core) (fun _ _ => True) :=
    lifted reply ((apart s.core).imp (fun _ _ kept => .of_still kept.1) fun _ _ _ => trivial)
  cases call with
  | provisionWeight handle weight =>
    refine lifted _ (.after (modify_run _ _) ((register_notes handle weight _).imp (fun _ t noted => ?_) fun _ _ _ => trivial))
    exact .of_unit (by rw [noted,cacheWeight_engine]) rfl
  | provisionWeightShared handle weight =>
    refine lifted _ (.bind (register_notes handle weight _) fun _ t _ noted => .ok (modify_run _ t) ?_)
    exact .of_unit (by rw [cacheWeight_engine,noted]) rfl
  | provisionWeightBf16 handle weight =>
    exact lent _ (ask_unit _ (.registerWeightBf16 handle weight) rfl _)
  | provisionWeightBf16Shared handle weight =>
    exact lent _ (ask_unit _ (.registerWeightBf16Shared handle weight) rfl _)
  | beginForwardPass n => exact apart _ (beginForwardPass_apart n)
  | endForwardPass => exact apart _ (.modify _ fun _ => ⟨rfl,rfl⟩)
  | beginPrefillPass batchSize n => exact apart _ (beginPrefillPass_apart batchSize n)
  | beginDecodePass shared batchSize => exact apart _ (beginDecodePass_apart shared batchSize)
  | beginForwardSession shared shape =>
    cases shape with
    | single n => exact apart _ (beginForwardPass_apart n)
    | prefillBatch batchSize n => exact apart _ (beginPrefillPass_apart batchSize n)
    | decodeBatch batchSize => exact apart _ (beginDecodePass_apart shared batchSize)
  | setRngStream stream => exact apart _ (.modify _ fun _ => ⟨rfl,rfl⟩)
  | provisionPleTable table => exact replying_ends (.ok (modify_run _ s) (.refl s.core))
  | pleGather tokenIds layerIdx =>
    refine replying_ends (.after (get_run s) ?_)
    cases s.pleTable with
    | none => exact .error (throw_run _ s) trivial
    | some table =>
      dsimp only
      cases table.gather tokenIds layerIdx with
      | ok rows => exact .ok (pure_run rows s) (.refl s.core)
      | error text => exact .error (throw_run _ s) trivial
  | offloadLinear handle hidden => exact lifted _ (offloadLinear_vouched probing handle hidden)
  | offloadQkv layer hidden => exact lifted _ (offloadQkv_vouched probing layer hidden)
  | offloadLinearMany handles hidden => exact lifted _ (offloadLinearMany_vouched probing handles hidden)
  | offloadAttentionQkt q kt => exact lent _ (OutAttnMult.offloadQkt_vouched probing _ q kt _)
  | offloadAttentionQktBatched q kt => exact lent _ (OutAttnMult.offloadQktBatched_vouched probing _ q kt _)
  | offloadAttentionPermuted q k v scale mask =>
    rcases permutedAttention_cases (E:=Recorded E F) q k v scale mask s.permAttn with ⟨text,_,refused⟩ | ⟨keys,values,_⟩
    · exact replying_ends (lend_refused refused)
    · exact absurd ⟨keys,values⟩ probed
  | offloadAttentionPermutedCached q k v scale qPosOffset mask =>
    rcases permutedAttentionCached_cases (E:=Recorded E F) q k v scale qPosOffset mask s.permAttn with
      ⟨text,_,_,refused⟩ | ⟨_,stopped⟩ | ⟨_,shapes,_⟩
    · exact replying_ends (lend_refused refused)
    · exact replying_ends (lend_refused stopped)
    · exact absurd shapes probed

-- Over any sequence of calls, whatever the engine answers: every call that returns has had
-- all that the engine gave it vouched for, if no call is an attention offload that skips
-- the probes.
theorem offloads_verified {s : FullExecutor (Recorded E F) F} {calls : List (TrustedCall F)} (probing : 0 < s.core.verifyProbes)
    (probed : ∀ call ∈ calls, ¬Unprobed call) :
    Throughout respond (fun s call => ∀ reply t, respond s call = some (.ok reply,t) → Vouched s.core t.core) s calls := by
  induction calls generalizing s with
  | nil => trivial
  | cons call rest ih =>
    have vouched := answer_vouched probing (probed call List.mem_cons_self)
    have kept := probes_kept call s
    refine ⟨fun reply t answered => ?_,?_⟩
    · unfold respond at answered
      cases ran : answer call s with
      | ok reply' t' => rw [ran] at answered; cases answered; exact vouched.at_ok ran
      | error fault t' => rw [ran] at answered; cases answered
    · have later {t : FullExecutor (Recorded E F) F} (same : t.core.verifyProbes = s.core.verifyProbes) :=
        ih (s:=t) (by rw [same]; exact probing) fun call member => probed call (List.mem_cons_of_mem _ member)
      unfold respond
      cases ran : answer call s with
      | ok reply t => exact later (kept.at_ok ran)
      | error fault t => exact later (kept.at_error ran)

end FullExecutor

section Tampered

-- Probes of ones, and an engine that answers five to everything.
instance onesPlatform : Platform ℚ :=
  ⟨fun _ _ _ => 0,fun _ _ count => List.replicate count 0,id,id,fun _ _ => (fun _ => 0,0),fun _ _ => (fun _ => 0,16),
    fun _ _ => (fun _ => 1,1),fun _ _ _ => 0⟩
instance onesSampling : Sampling ℚ := unshuffled ℚ
instance onesExponential : Exponential ℚ := ⟨fun _ => 1⟩

structure Tampering where

def fives : Array3 ℚ := ⟨1,1,1,[5],rfl⟩
def ones : Array3 ℚ := ⟨1,1,1,[1],rfl⟩

instance : GpuOffloadEngine Tampering ℚ := ⟨fun _ _ engine => (.ok (),engine),fun _ _ engine => (.ok [],engine)⟩
instance : RuntimeEngine Tampering ℚ :=
  ⟨fun _ _ engine => (.ok (),engine),fun _ _ engine => (.ok (),engine),fun _ _ engine => (.ok (fives.plane 0),engine),
    fun _ _ engine => (.ok fives,engine),fun _ _ _ _ _ engine => (.ok fives,engine)⟩

def probed : FullExecutor (Recorded Tampering ℚ) ℚ :=
  ⟨.withVerifyProbes 1 (.withSeed ⟨⟨⟩,[]⟩ []),⟨0,30,false⟩,none⟩

def bound : ℚ :=
  ROUNDOFF_CUSHION * (((ones.plane 0).ncols + (ones.transposed.plane 0).ncols : Nat) : ℚ) * F32_EPS * infNorm (ones.plane 0) *
    infNorm (ones.transposed.plane 0) * PROBE_L

-- A probed linear offload and a probed attention product, the engine answering five.
theorem offloads_verified_when_tampered : 0 < probed.core.verifyProbes ∧
    Throughout respond (fun s call => ∀ reply t, respond s call = some (.ok reply,t) →
        InProcessTrustedExecutor.Vouched s.core t.core) probed
      [.beginForwardPass 1,.offloadLinear ⟨0,.q⟩ (ones.plane 0),.offloadAttentionQkt (ones.plane 0) (ones.plane 0)] := by
  have probing : 0 < probed.core.verifyProbes := Nat.one_pos
  refine ⟨probing,FullExecutor.offloads_verified probing fun call member => ?_⟩
  simp only [List.mem_cons,List.not_mem_nil,or_false] at member
  rcases member with rfl | rfl | rfl <;> exact id

-- One times one is not five, and no state of the generator makes it pass.
theorem five_rejected (rng : ChaCha20Rng) :
    (verifyOffload 1 (ones.plane 0) (ones.transposed.plane 0) (fives.plane 0) rng).1 = .error "U-Verify mismatch (probe 0 row 0)" := by
  have apart : probeMismatch (ones.plane 0) (ones.transposed.plane 0) (fives.plane 0) bound (fun _ => ((1 : Int) : ℚ)) = some 0 := by
    decide +kernel
  unfold verifyOffload
  rw [if_neg (by decide),if_neg (by decide),if_neg (by decide)]
  show (probes _ _ _ bound 1 0 rng).1 = _
  unfold probes
  dsimp only [Platform.probe]
  rw [apart]
  rfl

-- The permuted attention over one head of one row: the caller gets the five.
theorem permuted_answer_unprobed : ∃ t later, 0 < probed.core.verifyProbes ∧
    respond probed (.offloadAttentionPermuted ones ones ones 1 .none) = some (.ok (.tensor fives),t) ∧
    t.core.engine.transcript = [.runtimeMatmul ones ones.transposed (.ok fives),later] ∧
    (∀ rng, (verifyOffload 1 (ones.plane 0) (ones.transposed.plane 0) (fives.plane 0) rng).1 ≠ .ok ()) ∧
    ¬InProcessTrustedExecutor.Vouched probed.core t.core := by
  have rejected (rng : ChaCha20Rng) : (verifyOffload 1 (ones.plane 0) (ones.transposed.plane 0) (fives.plane 0) rng).1 ≠ .ok () := by
    rw [five_rejected rng]
    exact fun same => by cases same
  refine ⟨_,_,Nat.one_pos,rfl,rfl,rejected,?_⟩
  rintro ⟨crossed,grown,claimed,start,returned,accepted⟩
  have both : crossed = [.runtimeMatmul ones ones.transposed (.ok fives),_] := grown.symm
  rw [both,List.mapM_cons] at returned
  obtain ⟨_,first,returned⟩ := Option.bind_eq_some_iff.mp returned
  obtain ⟨others,_,done⟩ := Option.bind_eq_some_iff.mp returned
  cases first
  cases done
  cases accepted with
  | cons checked _ => exact rejected start (congrArg Prod.fst checked)

end Tampered
end Gelo
