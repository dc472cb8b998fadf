import GeloLightrag.Foundation.Checked
import GeloLightrag.Gelo.Parity

set_option linter.unusedSectionVars false

namespace Gelo
open Foundation Array2
namespace InProcessTrustedExecutor
variable {E F : Type} [Field F] [LinearOrder F] [IsStrictOrderedRing F] [Platform F] [GpuOffloadEngine E F]

-- The operands handed over between two states.
def Uploaded (s t : InProcessTrustedExecutor E F) (u : Array2 F) : Prop :=
  ∃ events, t.trace = s.trace ++ events ∧ Event.upload u ∈ events

def Uploads (allowed : Array2 F → Prop) (s t : InProcessTrustedExecutor E F) : Prop :=
  ∃ events, t.trace = s.trace ++ events ∧ ∀ u, Event.upload u ∈ events → allowed u

theorem Uploads.refl (allowed : Array2 F → Prop) (s : InProcessTrustedExecutor E F) : Uploads allowed s s :=
  ⟨[],(List.append_nil _).symm,fun _ member => absurd member List.not_mem_nil⟩

theorem Uploads.still {allowed : Array2 F → Prop} {s t : InProcessTrustedExecutor E F} (same : t.trace = s.trace) :
    Uploads allowed s t :=
  ⟨[],same.trans (List.append_nil _).symm,fun _ member => absurd member List.not_mem_nil⟩

theorem Uploads.trans {allowed : Array2 F → Prop} {s t u : InProcessTrustedExecutor E F} (first : Uploads allowed s t)
    (second : Uploads allowed t u) : Uploads allowed s u := by
  obtain ⟨events,grown,each⟩ := first
  obtain ⟨more,longer,every⟩ := second
  refine ⟨events ++ more,by rw [longer,grown,List.append_assoc],fun operand member => ?_⟩
  rcases List.mem_append.mp member with early | late
  · exact each operand early
  · exact every operand late

theorem Uploads.imp {allowed wider : Array2 F → Prop} {s t : InProcessTrustedExecutor E F} (uploads : Uploads allowed s t)
    (weaken : ∀ u, allowed u → wider u) : Uploads wider s t := by
  obtain ⟨events,grown,each⟩ := uploads
  exact ⟨events,grown,fun u member => weaken u (each u member)⟩

theorem Uploads.uploaded {allowed : Array2 F → Prop} {s t : InProcessTrustedExecutor E F} (uploads : Uploads allowed s t)
    (uploaded : Uploaded s t u) : allowed u := by
  obtain ⟨events,grown,each⟩ := uploads
  obtain ⟨others,longer,member⟩ := uploaded
  rw [grown] at longer
  rw [List.append_cancel_left longer] at each
  exact each u member

-- Data on top of at least k rows that the generator filled at the deviation the
-- data calls for.
structure Covered (k : Nat) (cfg : ShieldConfig F) (rng : Xoshiro256PlusPlus) (data stacked : Array2 F) : Prop where
  wide : stacked.ncols = data.ncols
  top : stacked.rows 0 data.nrows = data
  room : data.nrows + k ≤ stacked.nrows
  drawn : ∃ count, ∀ i < k, ∀ j < data.ncols, i * data.ncols + j < count ∧
    stacked.entry (data.nrows + i) j = (gaussian count (shieldSigma cfg data) rng).1 (i * data.ncols + j)

-- What an offload of hidden hands over in state s: the data, block by block, under
-- the masks of the session, each stacked on k shield rows or more.
def ShieldedOperand (s : InProcessTrustedExecutor E F) (k : Nat) (hidden u : Array2 F) : Prop :=
  match s.session with
  | none => False
  | some (.single mask _) => ∃ stacked, mask.apply stacked = .ok u ∧ Covered k s.shield s.shieldRng hidden stacked
  | some (.perSequence masks dataN batchSize) => ∃ size blocks, u = concat size hidden.ncols blocks ∧
      List.Forall₂ (fun b block => ∃ mask stacked, masks[b]? = some mask ∧ mask.apply stacked = .ok block ∧
        Covered k s.shield ⟨Platform.xoshiroBytes F s.shieldRng.seed (s.shieldRng.drawn + 4 * b) 32,0⟩
          (hidden.rows (b * dataN) ((b+1) * dataN)) stacked) (List.range batchSize) blocks

theorem stackRows_covered (cfg : ShieldConfig F) (rng : Xoshiro256PlusPlus) (hidden buf : Array2 F)
    (room : hidden.nrows + k ≤ last) (inside : last ≤ buf.nrows) (wide : buf.ncols = hidden.ncols) :
    Covered k cfg rng hidden (stackRows hidden last
      (gaussian ((last - hidden.nrows) * hidden.ncols) (shieldSigma cfg hidden) rng).1 buf) := by
  refine ⟨wide,stackRows_data _ _ _ (by omega) (by omega) wide,Nat.le_trans room inside,
    (last - hidden.nrows) * hidden.ncols,fun i low j col => ?_⟩
  have row : hidden.nrows + i < buf.nrows := by omega
  refine ⟨?_,?_⟩
  · calc i * hidden.ncols + j < i * hidden.ncols + hidden.ncols := Nat.add_lt_add_left col _
      _ = (i+1) * hidden.ncols := (Nat.succ_mul i _).symm
      _ ≤ (last - hidden.nrows) * hidden.ncols := Nat.mul_le_mul_right _ (by omega)
  · rw [stackRows_entry (by omega) wide row col,if_neg (by omega),if_pos (by omega),Nat.add_sub_cancel_left]

-- Between two states of a run: the pass mode, the shields to choose from, and
-- under a session a shield of k rows or more with masks that leave room for it.
def SessionRoom (k : Nat) : SessionKind F → Prop
  | .single _ _ => True
  | .perSequence masks dataN _ => ∃ size, dataN + k ≤ size ∧ ∀ mask ∈ masks, mask.n = size

structure Shielding (k : Nat) (origin s : InProcessTrustedExecutor E F) : Prop where
  perForwardMask : s.perForwardMask = true
  shieldDefault : s.shieldDefault = origin.shieldDefault
  shieldSmallN : s.shieldSmallN = origin.shieldSmallN
  shieldSmallNMax : s.shieldSmallNMax = origin.shieldSmallNMax
  session : ∀ session, s.session = some session → k ≤ s.shield.k ∧ SessionRoom s.shield.k session

theorem Shielding.framed {origin s t : InProcessTrustedExecutor E F} (shielding : Shielding k origin s) (frame : Frame s t) :
    Shielding k origin t := by
  refine ⟨frame.perForwardMask.trans shielding.perForwardMask,frame.shieldDefault.trans shielding.shieldDefault,
    frame.shieldSmallN.trans shielding.shieldSmallN,frame.shieldSmallNMax.trans shielding.shieldSmallNMax,fun session held => ?_⟩
  rw [frame.shield]
  exact shielding.session session (frame.session.symm.trans held)

theorem orPanic_uploads {α : Type} (allowed : Array2 F → Prop) (x : Except String α) :
    Preserves (Uploads allowed) (orPanic x : ExecM E F α) := by
  intro s
  cases x with
  | ok a => exact Uploads.refl allowed s
  | error text => exact Uploads.refl allowed s

theorem verifyOutputs_uploads (allowed : Array2 F → Prop) (operand : Array2 F) :
    ∀ pairs, Preserves (Uploads allowed) (verifyOutputs operand pairs : ExecM E F Unit)
  | [] => .pure (Uploads.refl allowed) ()
  | (handle,observed) :: rest => by
    unfold verifyOutputs
    refine .after_get fun s => ?_
    cases s.weights handle with
    | none => exact Uploads.refl allowed s
    | some weight =>
      have drew : Uploads allowed s {s with rng:=(verifyOffload s.verifyProbes operand weight observed s.rng).2} := .still rfl
      refine .after (set_run _ _) ?_
      cases (verifyOffload s.verifyProbes operand weight observed s.rng).1 with
      | ok _ =>
        exact (verifyOutputs_uploads allowed operand rest _).imp (fun _ _ later => drew.trans later) fun _ _ later => drew.trans later
      | error text => exact drew

-- A request hands over its operand and nothing else.
theorem request_uploads (handles : List WeightHandle) (operand : Array2 F) (wrongCount : Nat → String) :
    Preserves (Uploads (· = operand)) (request handles operand wrongCount : ExecM E F (List (Array2 F))) := by
  have handed : ∀ s engine, Uploads (· = operand) s
      ({s with engine:=engine,trace:=s.trace ++ [.upload operand]} : InProcessTrustedExecutor E F) := fun s engine =>
    ⟨_,rfl,fun u member => by cases List.mem_singleton.mp member; rfl⟩
  refine .bind (fun _ _ _ => Uploads.trans) (fun s => ?_) fun outs => ?_
  · cases answered : (GpuOffloadEngine.runRegisteredLinear handles operand s.engine).1 with
    | ok outs => exact .ok (runRegisteredLinear_ok answered) (handed s _)
    | error text => exact .error (runRegisteredLinear_error answered) (handed s _)
  · by_cases counted : outs.length = handles.length
    · rw [if_pos counted]
      refine .after_get fun s => ?_
      by_cases probing : 0 < s.verifyProbes
      · rw [if_pos probing]
        exact Preserves.bind (fun _ _ _ => Uploads.trans) (verifyOutputs_uploads _ _ _)
          (fun _ => .pure (Uploads.refl _) _) s
      · rw [if_neg probing]
        exact Uploads.refl _ s
    · rw [if_neg counted]
      exact .throw (Uploads.refl _) _

theorem operandMask_session {s : InProcessTrustedExecutor E F} (per : s.perForwardMask = true) (n : Nat) :
    Ends (operandMask n) s (fun mask t => t = s ∧ (∃ dataN, s.session = some (.single mask dataN)) ∧ mask.n = s.operandRows n)
      (fun _ t => t = s) := by
  refine .after (get_run s) ?_
  rw [if_pos per]
  cases held : s.session with
  | none => exact .error (throw_run _ s) rfl
  | some session =>
    cases session with
    | single mask dataN =>
      by_cases fits : dataN = n ∧ mask.n = s.operandRows n
      · exact .ok (congrFun (if_pos fits) s) ⟨rfl,⟨dataN,rfl⟩,fits.2⟩
      · exact .error (congrFun (if_neg fits) s) rfl
    | perSequence masks dataN batchSize => exact .error (throw_run _ s) rfl

theorem shieldEnd_room (mask : MaskFamily F) (above : n + k ≤ shielded) (room : n + k ≤ stackedN) :
    n + k ≤ shieldEnd mask shielded stackedN ∧ (shielded ≤ stackedN → shieldEnd mask shielded stackedN ≤ stackedN) := by
  refine ⟨le_shieldEnd mask above room,fun _ => ?_⟩
  cases mask with
  | dct4 mask => exact Nat.le_refl _
  | haar mask => exact Nat.min_le_right _ _
  | hd3 mask => exact Nat.min_le_right _ _

theorem fillShieldRows_uploads (allowed : Array2 F → Prop) (count : Nat) (sigma : F) :
    Preserves (Uploads allowed) (fillShieldRows count sigma : ExecM E F (Nat → F)) := by
  intro s
  show Uploads allowed s _
  by_cases none : count = 0 ∨ sigma = 0
  · exact .still (if_pos none)
  · exact ⟨_,if_neg none,fun u member => by cases List.mem_singleton.mp member⟩

-- Within a pass the operand is stacked on the rows the shield generator gives.
theorem maskOperand_covered {s : InProcessTrustedExecutor E F} (per : s.perForwardMask = true) (some : 0 < s.shield.k)
    (hidden : Array2 F) (mask : MaskFamily F) :
    Ends (maskOperand hidden mask) s (fun u t => Uploads (fun _ => False) s t ∧
      ∃ stacked, mask.apply stacked = .ok u ∧ Covered s.shield.k s.shield s.shieldRng hidden stacked)
      (fun _ t => Uploads (fun _ => False) s t) := by
  have room : hidden.nrows + s.shield.k ≤ s.operandRows hidden.nrows := le_stackedRows _ _
  obtain ⟨tall,wide⟩ := reuse_shape s.stackedScratch (s.operandRows hidden.nrows) hidden.ncols
  obtain ⟨covers,inside⟩ := shieldEnd_room mask (Nat.le_refl (hidden.nrows + s.shield.k)) room
  have filled := fillShieldRows_uploads (E:=E) (fun _ : Array2 F => False)
    ((shieldEnd mask (hidden.nrows + s.shield.k) (s.operandRows hidden.nrows) - hidden.nrows) * hidden.ncols)
    (shieldSigma s.shield hidden) s
  refine .after (get_run s) ?_
  rw [if_pos (by rw [per]; exact decide_eq_true some)]
  refine .after (t:=_) rfl (.after (modify_run _ _) ?_)
  have covered := stackRows_covered s.shield s.shieldRng hidden _ covers (tall.symm ▸ inside room) wide
  unfold orPanic Ends
  cases image : mask.apply _ with
  | ok u => exact ⟨filled,_,image,covered⟩
  | error text => exact filled

theorem Covered.fewer {cfg : ShieldConfig F} {rng : Xoshiro256PlusPlus} {data stacked : Array2 F} (covered : Covered k cfg rng data stacked) (fewer : few ≤ k) :
    Covered few cfg rng data stacked := by
  obtain ⟨count,drawn⟩ := covered.drawn
  exact ⟨covered.wide,covered.top,Nat.le_trans (Nat.add_le_add_left fewer _) covered.room,count,fun i low =>
    drawn i (Nat.lt_of_lt_of_le low fewer)⟩

theorem uploading {α β : Type} {x : ExecM E F α} {f : α → ExecM E F β} {allowed : Array2 F → Prop}
    (first : Preserves (Uploads allowed) x) (rest : ∀ a, Preserves (Uploads allowed) (f a)) :
    Preserves (Uploads allowed) (x >>= f) :=
  .bind (fun _ _ _ => Uploads.trans) first rest

-- What both kinds of offload do with the operand once it is built.
theorem handed_uploads {α : Type} (handles : List WeightHandle) {operand : Array2 F} (wrongCount : Nat → String)
    {rest : List (Array2 F) → ExecM E F α} (allowed : Array2 F → Prop) (meant : allowed operand)
    (after : ∀ outs, Preserves (Uploads allowed) (rest outs)) :
    Preserves (Uploads allowed) (request handles operand wrongCount >>= rest) :=
  uploading (fun s => (request_uploads handles operand wrongCount s).imp
    (fun _ _ same => same.imp fun _ equal => equal ▸ meant) fun _ _ same => same.imp fun _ equal => equal ▸ meant) after

theorem returnApplyScratch_uploads (allowed : Array2 F → Prop) (buf : Array2 F) :
    Preserves (Uploads allowed) (returnApplyScratch buf : ExecM E F Unit) := by
  refine .modify _ fun s => ?_
  split
  · exact .still rfl
  · exact .refl _ s

theorem returnPerSeqApplyScratch_uploads (allowed : Array2 F → Prop) (buf : Array2 F) :
    Preserves (Uploads allowed) (returnPerSeqApplyScratch buf : ExecM E F Unit) := by
  refine .modify _ fun s => ?_
  split
  · exact .still rfl
  · exact .refl _ s

theorem buildShieldedAndApply_covered {origin s : InProcessTrustedExecutor E F} (shielding : Shielding k origin s)
    (some : 0 < k) (hidden : Array2 F) :
    Ends (buildShieldedAndApply hidden) s (fun built t => Uploads (fun _ => False) s t ∧ ShieldedOperand s k hidden built.2)
      (fun _ t => Uploads (fun _ => False) s t) := by
  refine .bind ((operandMask_session shielding.perForwardMask hidden.nrows).imp (fun _ _ h => h)
    fun _ t same => .still (by rw [same])) fun mask t _ masked => ?_
  obtain ⟨rfl,⟨dataN,held⟩,_⟩ := masked
  obtain ⟨enough,_⟩ := shielding.session _ held
  refine .bind (maskOperand_covered shielding.perForwardMask (Nat.lt_of_lt_of_le some enough) hidden mask) fun u v _ covered => ?_
  refine .ok (pure_run _ v) ⟨covered.1,?_⟩
  obtain ⟨stacked,image,under⟩ := covered.2
  unfold ShieldedOperand
  rw [held]
  exact ⟨stacked,image,under.fewer enough⟩

theorem Uploads.nothing {allowed : Array2 F → Prop} {s t : InProcessTrustedExecutor E F} (none : Uploads (fun _ => False) s t) :
    Uploads allowed s t := none.imp fun _ impossible => impossible.elim

theorem offloadSingle_uploads {origin s : InProcessTrustedExecutor E F} (shielding : Shielding k origin s) (some : 0 < k)
    (handles : List WeightHandle) (hidden : Array2 F) (wrongCount : Nat → String) :
    Ends (offloadSingle handles hidden wrongCount) s (fun _ t => Uploads (ShieldedOperand s k hidden) s t)
      (fun _ t => Uploads (ShieldedOperand s k hidden) s t) := by
  refine .bind ((buildShieldedAndApply_covered shielding some hidden).imp (fun _ _ h => h) fun _ _ none => none.nothing)
    fun built t _ operand => ?_
  have later := handed_uploads (E:=E) handles wrongCount (ShieldedOperand s k hidden)
    operand.2 (fun outs => uploading (orPanic_uploads _ (outs.mapM built.1.unapplyTake)) fun unmasked =>
      uploading (orPanic_uploads _ (unmasked.mapM (stripShield hidden.nrows))) fun stripped =>
      uploading (returnApplyScratch_uploads _ built.2) fun _ => .pure (Uploads.refl _) stripped) t
  exact later.imp (fun _ _ more => operand.1.nothing.trans more) fun _ _ more => operand.1.nothing.trans more

theorem buildPerSequenceMasked_covered {origin s : InProcessTrustedExecutor E F} (shielding : Shielding k origin s)
    (held : s.session = some (.perSequence masks dataN batchSize)) (hidden : Array2 F) :
    Ends (buildPerSequenceMasked hidden masks dataN batchSize) s (fun u t => Uploads (fun _ => False) s t ∧
      ShieldedOperand s k hidden u) (fun _ t => Uploads (fun _ => False) s t) := by
  obtain ⟨enough,size,room,sized⟩ := shielding.session _ held
  cases masks with
  | nil => exact .error (throw_run _ s) (.refl _ s)
  | cons first rest =>
    have height : first.n = size := sized first List.mem_cons_self
    have drew : Uploads (fun _ => False) s {s with
        perSeqApplyScratch:=Function.update s.perSeqApplyScratch hidden.ncols none
        shieldRng:=s.shieldRng.advance (4 * batchSize)
        trace:=if batchSize = 0 then s.trace else s.trace ++ [Event.shield s.shieldRng]} := by
      by_cases empty : batchSize = 0
      · exact .still (if_pos empty)
      · exact ⟨_,if_neg empty,fun u member => by cases List.mem_singleton.mp member⟩
    refine .after (get_run s) (.after (set_run _ _) ?_)
    split
    · exact .error (throw_run _ _) drew
    · let buf := reuse s.perSeqApplyScratch (batchSize * first.n) hidden.ncols
      let seed := fun b => Platform.xoshiroBytes F s.shieldRng.seed (s.shieldRng.drawn + 4 * b) 32
      cases ran : (List.range batchSize).mapM (maskedBlock s.shield hidden buf (first :: rest) dataN first.n seed) with
      | error text => exact .error (bind_error (orPanic_error rfl _)) drew
      | ok blocks =>
        refine .after (orPanic_ok rfl _) (.ok (pure_run _ _) ⟨drew,?_⟩)
        unfold ShieldedOperand
        rw [held]
        refine ⟨first.n,blocks,rfl,mapM_each ran fun b block masked => ?_⟩
        unfold maskedBlock at masked
        split at masked
        · cases masked
        · rename_i mask listed
          obtain ⟨stacked,built,image⟩ := except_bind_ok.mp masked
          refine ⟨mask,stacked,listed,image,?_⟩
          unfold sequenceBlock at built
          split at built
          · cases built
            have wide : (buf.rows (b * first.n) ((b+1) * first.n)).ncols = hidden.ncols := (reuse_shape _ _ _).2
            have tall := sequence_rows buf b first.n
            have cut := sequence_rows hidden b dataN
            have covers : min (dataN + s.shield.k) first.n = dataN + s.shield.k := Nat.min_eq_left (height ▸ room)
            have below : (hidden.rows (b * dataN) ((b+1) * dataN)).nrows + s.shield.k ≤ min (dataN + s.shield.k) first.n := by
              rw [cut,covers]
            have under := stackRows_covered s.shield ⟨seed b,0⟩ (hidden.rows (b * dataN) ((b+1) * dataN))
              (buf.rows (b * first.n) ((b+1) * first.n)) below (by rw [tall]; exact Nat.min_le_right _ _) wide
            rw [cut] at under
            exact under.fewer enough
          · cases built

theorem offloadPerSequence_uploads {origin s : InProcessTrustedExecutor E F} (shielding : Shielding k origin s)
    (held : s.session = some (.perSequence masks dataN batchSize)) (handles : List WeightHandle) (hidden : Array2 F)
    (wrongCount : Nat → String) :
    Ends (offloadPerSequence handles hidden masks dataN batchSize wrongCount) s
      (fun _ t => Uploads (ShieldedOperand s k hidden) s t) (fun _ t => Uploads (ShieldedOperand s k hidden) s t) := by
  refine .bind ((buildPerSequenceMasked_covered shielding held hidden).imp (fun _ _ h => h) fun _ _ none => none.nothing)
    fun operand t _ built => ?_
  have later := handed_uploads (E:=E) handles wrongCount (ShieldedOperand s k hidden)
    built.2 (fun outs => uploading (orPanic_uploads _ (outs.mapM (unmaskPerSequence masks dataN batchSize))) fun results =>
      uploading (returnPerSeqApplyScratch_uploads _ operand) fun _ => .pure (Uploads.refl _) results) t
  exact later.imp (fun _ _ more => built.1.nothing.trans more) fun _ _ more => built.1.nothing.trans more

theorem offloadTogether_uploads {origin s : InProcessTrustedExecutor E F} (shielding : Shielding k origin s) (some : 0 < k)
    (handles : List WeightHandle) (hidden : Array2 F) :
    Ends (offloadTogether handles hidden) s (fun _ t => Uploads (ShieldedOperand s k hidden) s t)
      (fun _ t => Uploads (ShieldedOperand s k hidden) s t) := by
  refine .after (get_run s) ?_
  split
  · rename_i held
    exact offloadPerSequence_uploads shielding held handles hidden _
  · exact offloadSingle_uploads shielding some handles hidden _

theorem offloadLinear_uploads {origin s : InProcessTrustedExecutor E F} (shielding : Shielding k origin s) (some : 0 < k)
    (handle : WeightHandle) (hidden : Array2 F) :
    Ends (offloadLinear handle hidden) s (fun _ t => Uploads (ShieldedOperand s k hidden) s t)
      (fun _ t => Uploads (ShieldedOperand s k hidden) s t) := by
  have first : ∀ outs t, Uploads (ShieldedOperand s k hidden) s t → Ends (only outs : ExecM E F (Array2 F)) t
      (fun _ u => Uploads (ShieldedOperand s k hidden) s u) (fun _ u => Uploads (ShieldedOperand s k hidden) s u) := by
    intro outs t handed
    cases outs with
    | nil => exact .error (throw_run _ t) handed
    | cons out rest => exact .ok (pure_run _ t) handed
  refine .after (get_run s) ?_
  split
  · rename_i held
    split
    · exact .error (throw_run _ s) (.refl _ s)
    · split
      · exact .error (throw_run _ s) (.refl _ s)
      · exact .bind (offloadPerSequence_uploads shielding held [handle] hidden oneCount) fun outs t _ => first outs t
  · exact .bind (offloadSingle_uploads shielding some [handle] hidden oneCount) fun outs t _ => first outs t

theorem drawFor_size (some : 0 < n) (s : InProcessTrustedExecutor E F) : Ends (drawFor n) s
    (fun mask t => Frame s t ∧ mask.n = stackedRows (resolveMaskKindForShape s.maskKind n) n) (fun _ _ => False) := by
  obtain ⟨drawn,sampled⟩ := sampleMask_ok (F:=F) s.maskKind s.rng (s:=n) fun _ => some
  have ran := drawMask_ok (E:=E) sampled
  exact .after (get_run s) (.ok ran ⟨(drawMask_frame _ _ s).at_ok ran,sampleMask_size sampled⟩)

theorem drawMasks_size (some : 0 < n) : ∀ count (s : InProcessTrustedExecutor E F), Ends (drawMasks n count) s
    (fun masks t => Frame s t ∧ ∀ mask ∈ masks, mask.n = stackedRows (resolveMaskKindForShape s.maskKind n) n) (fun _ _ => False)
  | 0,s => .ok (pure_run [] s) ⟨.refl s,fun mask member => absurd member List.not_mem_nil⟩
  | count+1,s => by
    refine .bind (drawFor_size some s) fun mask t _ drawn => .bind (drawMasks_size some count t) fun masks u _ rest => ?_
    obtain ⟨frame,size⟩ := drawn
    obtain ⟨later,sized⟩ := rest
    rw [frame.maskKind] at sized
    refine .ok (pure_run _ u) ⟨frame.trans later,fun other member => ?_⟩
    rcases List.mem_cons.mp member with rfl | member
    · exact size
    · exact sized other member

theorem enterSingle_shields {origin s : InProcessTrustedExecutor E F} (shielding : Shielding k origin s) (some : 0 < k)
    {shield : ShieldConfig F} (enough : k ≤ shield.k) (n : Nat) :
    Ends (enterSingle n shield) s (fun _ t => Shielding k origin t) (fun _ _ => False) := by
  refine .after (modify_run _ s) (.bind (drawFor_size (by omega) _) fun mask t _ drawn => .ok (modify_run _ t) ?_)
  obtain ⟨frame,_⟩ := drawn
  refine ⟨frame.perForwardMask.trans shielding.perForwardMask,frame.shieldDefault.trans shielding.shieldDefault,
    frame.shieldSmallN.trans shielding.shieldSmallN,frame.shieldSmallNMax.trans shielding.shieldSmallNMax,fun session held => ?_⟩
  cases held
  exact ⟨frame.shield ▸ enough,trivial⟩

theorem enterBatch_shields {origin s : InProcessTrustedExecutor E F} (shielding : Shielding k origin s) (some : 0 < k)
    {shield : ShieldConfig F} (enough : k ≤ shield.k) (batchSize n : Nat) :
    Ends (enterBatch batchSize n shield) s (fun _ t => Shielding k origin t) (fun _ _ => False) := by
  refine .after (modify_run _ s) (.bind (drawMasks_size (by omega) _ _) fun masks t _ drawn => .ok (modify_run _ t) ?_)
  obtain ⟨frame,sized⟩ := drawn
  refine ⟨frame.perForwardMask.trans shielding.perForwardMask,frame.shieldDefault.trans shielding.shieldDefault,
    frame.shieldSmallN.trans shielding.shieldSmallN,frame.shieldSmallNMax.trans shielding.shieldSmallNMax,fun session held => ?_⟩
  cases held
  have same : t.shield = shield := frame.shield
  exact ⟨same ▸ enough,_,by show n + t.shield.k ≤ _; rw [same]; exact le_stackedRows _ _,sized⟩

-- The calls of a forward pass, and the operand of those that offload.
def Call.inPass : Call F → Bool
  | .beginForwardPass _ | .beginPrefillPass _ _ | .beginDecodePass _ _ | .endForwardPass => true
  | .offloadLinear _ _ | .offloadQkv _ _ | .offloadLinearMany _ _ | .offloadAttention _ => true
  | _ => false

def Call.operand : Call F → Option (Array2 F)
  | .offloadLinear _ hidden => some hidden
  | .offloadQkv _ hidden => some hidden
  | .offloadLinearMany _ hidden => some hidden
  | _ => none

-- Every operand a run hands over is shielded.
def ShieldsThroughout (k : Nat) : InProcessTrustedExecutor E F → List (Call F) → Prop
  | _,[] => True
  | s,call :: rest => (∀ hidden, call.operand = some hidden → ∀ u, Uploaded s (next s call) u → ShieldedOperand s k hidden u) ∧
      ShieldsThroughout k (next s call) rest

-- The shield a pass would switch to has k rows or more.
def Promises (k : Nat) (s : InProcessTrustedExecutor E F) : Call F → Prop
  | .beginForwardPass n => k ≤ (s.shieldFor n).k
  | .beginPrefillPass batchSize nMax => batchSize = 0 ∨ nMax = 0 ∨ k ≤ (s.shieldFor nMax).k
  | .beginDecodePass shared batchSize => batchSize = 0 ∨
      if shared then k ≤ shieldKForBatch batchSize (max s.shieldDefault.k 1) else k ≤ (s.shieldFor 1).k
  | _ => True

theorem Shielding.shieldFor {origin s : InProcessTrustedExecutor E F} (shielding : Shielding k origin s) (n : Nat) :
    s.shieldFor n = origin.shieldFor n := by
  unfold InProcessTrustedExecutor.shieldFor
  rw [shielding.shieldSmallN,shielding.shieldSmallNMax,shielding.shieldDefault]

theorem discard_ends {α : Type} {x : ExecM E F α} {s : InProcessTrustedExecutor E F}
    {P : InProcessTrustedExecutor E F → Prop} (ends : Ends x s (fun _ t => P t) (fun _ t => P t)) :
    Ends (discard x) s (fun _ t => P t) (fun _ t => P t) :=
  .bind ends fun _ t _ holds => .ok (pure_run () t) holds

theorem call_shields {origin s : InProcessTrustedExecutor E F} (shielding : Shielding k origin s) (some : 0 < k)
    {call : Call F} (inPass : call.inPass = true) (promises : Promises k origin call) : Shielding k origin (next s call) := by
  have closed : ∀ t : InProcessTrustedExecutor E F, t.perForwardMask = s.perForwardMask → t.shieldDefault = s.shieldDefault →
      t.shieldSmallN = s.shieldSmallN → t.shieldSmallNMax = s.shieldSmallNMax → t.session = none → Shielding k origin t :=
    fun t per fallback small most idle => ⟨per.trans shielding.perForwardMask,fallback.trans shielding.shieldDefault,
      small.trans shielding.shieldSmallN,most.trans shielding.shieldSmallNMax,fun session held => by rw [idle] at held; cases held⟩
  have entered : ∀ {x : ExecM E F Unit}, Ends x s (fun _ t => Shielding k origin t) (fun _ _ => False) →
      Ends x s (fun _ t => Shielding k origin t) (fun _ t => Shielding k origin t) :=
    fun ends => ends.imp (fun _ _ h => h) fun _ _ h => h.elim
  have kept : ∀ {α : Type} {x : ExecM E F α}, Preserves Frame x →
      Ends (discard x) s (fun _ t => Shielding k origin t) (fun _ t => Shielding k origin t) := fun keeps =>
    discard_ends ((keeps s).imp (fun _ _ frame => shielding.framed frame) fun _ _ frame => shielding.framed frame)
  refine Ends.next ?_
  cases call with
  | beginForwardPass n =>
    refine .after (get_run s) ?_
    rw [if_pos shielding.perForwardMask]
    exact entered (enterSingle_shields shielding some (by rw [shielding.shieldFor]; exact promises) n)
  | beginPrefillPass batchSize nMax =>
    refine .after (get_run s) ?_
    rw [if_pos shielding.perForwardMask]
    split
    · exact shielding
    · split
      · exact shielding
      · rename_i filled tall
        rcases promises with empty | flat | enough
        · exact absurd empty filled
        · exact absurd flat tall
        · exact entered (enterBatch_shields shielding some (by rw [shielding.shieldFor]; exact enough) batchSize nMax)
  | beginDecodePass shared batchSize =>
    refine .after (get_run s) ?_
    rw [if_pos shielding.perForwardMask]
    split
    · exact shielding
    · rename_i filled
      rcases promises with empty | enough
      · exact absurd empty filled
      · split
        · rename_i together
          rw [if_pos together] at enough
          exact entered (enterSingle_shields shielding some (by rw [shielding.shieldDefault]; exact enough) batchSize)
        · rename_i apart
          rw [if_neg apart] at enough
          exact entered (enterBatch_shields shielding some (by rw [shielding.shieldFor]; exact enough) batchSize 1)
  | endForwardPass => exact closed _ rfl rfl rfl rfl rfl
  | offloadLinear handle hidden => exact kept (offloadLinear_frame handle hidden)
  | offloadQkv layer hidden => exact kept (offloadQkv_frame layer hidden)
  | offloadLinearMany handles hidden => exact kept (offloadLinearMany_frame handles hidden)
  | offloadAttention words =>
    exact shielding.framed ⟨rfl,rfl,rfl,rfl,rfl,rfl,rfl,rfl,rfl,⟨words,rfl⟩,⟨0,rfl⟩,⟨[],(List.append_nil _).symm⟩⟩
  | _ => cases inPass

theorem call_uploads {origin s : InProcessTrustedExecutor E F} (shielding : Shielding k origin s) (some : 0 < k)
    {call : Call F} {hidden : Array2 F} (offloads : call.operand = .some hidden) : Uploads (ShieldedOperand s k hidden) s (next s call) := by
  refine Ends.next ?_
  cases call with
  | offloadLinear handle _ =>
    cases offloads
    exact discard_ends (offloadLinear_uploads shielding some handle hidden)
  | offloadQkv layer _ =>
    cases offloads
    refine discard_ends (.bind (offloadTogether_uploads shielding some _ hidden) fun outs t _ handed => ?_)
    split
    · exact .ok (pure_run _ t) handed
    · exact .error (throw_run _ t) handed
  | offloadLinearMany handles _ =>
    cases offloads
    refine discard_ends ?_
    unfold offloadLinearMany
    split
    · exact .ok (pure_run _ s) (.refl _ s)
    · exact offloadTogether_uploads shielding some handles hidden
  | _ => cases offloads

theorem run_shields {origin : InProcessTrustedExecutor E F} (some : 0 < k) (calls : List (Call F))
    (inPass : ∀ call ∈ calls, call.inPass = true) (promises : ∀ call ∈ calls, Promises k origin call)
    {s : InProcessTrustedExecutor E F} (shielding : Shielding k origin s) : ShieldsThroughout k s calls := by
  induction calls generalizing s with
  | nil => trivial
  | cons call rest ih =>
    refine ⟨fun hidden offloads u handed => (call_uploads shielding some offloads).uploaded handed,?_⟩
    exact ih (fun other member => inPass other (List.mem_cons_of_mem _ member))
      (fun other member => promises other (List.mem_cons_of_mem _ member))
      (call_shields shielding some (inPass call List.mem_cons_self) (promises call List.mem_cons_self))

-- What chains of the builders give.
inductive Built : InProcessTrustedExecutor E F → Prop where
  | withSeed (engine : E) (seed : Bytes) : Built (withSeed engine seed)
  | withShield (engine : E) (seed : Bytes) (shield : ShieldConfig F) : Built (withShield engine seed shield)
  | withMaskKind (kind : MaskKind) : Built s → Built (withMaskKind kind s)
  | withSmallNShield (cfg : Option (Nat × ShieldConfig F)) : Built s → Built (withSmallNShield cfg s)
  | withPerForwardMask {shield : ShieldConfig F} : Built s → withPerForwardMask shield s = .ok t → Built t
  | withPerOffloadMask : Built s → Built (withPerOffloadMask s)
  | withVerifyProbes (n : Nat) : Built s → Built (withVerifyProbes n s)

theorem withPerForwardMask_ok {s t : InProcessTrustedExecutor E F} {shield : ShieldConfig F}
    (accepted : withPerForwardMask shield s = .ok t) : 0 < shield.k ∧ t = {s with perForwardMask:=true,shield:=shield} := by
  unfold withPerForwardMask at accepted
  split at accepted
  · rename_i enabled
    cases accepted
    exact ⟨of_decide_eq_true enabled,rfl⟩
  · cases accepted

theorem built_idle {s : InProcessTrustedExecutor E F} (built : Built s) : s.session = none := by
  induction built with
  | withSeed engine seed => rfl
  | withShield engine seed shield => rfl
  | withMaskKind kind _ _ => rfl
  | withSmallNShield cfg _ ih =>
    cases cfg with
    | none => exact ih
    | some cfg => exact ih
  | withPerForwardMask _ accepted ih =>
    rw [(withPerForwardMask_ok accepted).2]
    exact ih
  | withPerOffloadMask _ _ => rfl
  | withVerifyProbes n _ ih => exact ih

end InProcessTrustedExecutor
end Gelo
