import GeloLightrag.Foundation.Checked
import GeloLightrag.Gelo.Sessions

set_option linter.unusedSectionVars false

namespace Gelo
open Foundation Array2

-- An engine that answers with the products with the weights it holds.
class ExactEngine (E F : Type) [Field F] [GpuOffloadEngine E F] where
  registered : E → WeightHandle → Option (Array2 F)
  product : ∀ (handles : List WeightHandle) (operand : Array2 F) (engine : E) (ws : List (Array2 F)),
    handles.map (registered engine) = ws.map some → (∀ w ∈ ws, w.nrows = operand.ncols) →
    (GpuOffloadEngine.runRegisteredLinear handles operand engine).1 = .ok (ws.map operand.dot)

-- The reference engine keeps the weights in a map.
structure ReferenceCpuEngine (F : Type) [Zero F] where
  weights : WeightHandle → Option (Array2 F)

namespace ReferenceCpuEngine
variable {F : Type} [CommRing F]

def registerWeight (handle : WeightHandle) (weight : Array2 F) (engine : ReferenceCpuEngine F) : ReferenceCpuEngine F :=
  ⟨Function.update engine.weights handle (some weight)⟩

def matmul (engine : ReferenceCpuEngine F) (input : Array2 F) (handle : WeightHandle) : Except String (Array2 F) :=
  match engine.weights handle with
  | none => .error s!"weight {handle.debug} not registered with engine"
  | some w =>
    if input.ncols = w.nrows then .ok (input.dot w)
    else .error s!"matmul shape mismatch: input cols {input.ncols} != weight rows {w.nrows}"

end ReferenceCpuEngine

section Reference
variable {F : Type} [Field F]

instance : GpuOffloadEngine (ReferenceCpuEngine F) F where
  registerWeight handle weight engine := (.ok (),engine.registerWeight handle weight)
  runRegisteredLinear handles operand engine := (handles.mapM (engine.matmul operand),engine)

theorem matmul_products {engine : ReferenceCpuEngine F} {operand : Array2 F} :
    ∀ {handles : List WeightHandle} {ws : List (Array2 F)}, handles.map engine.weights = ws.map some →
    (∀ w ∈ ws, w.nrows = operand.ncols) → handles.mapM (engine.matmul operand) = .ok (ws.map operand.dot)
  | [],[],_,_ => rfl
  | [],_ :: _,same,_ => by cases same
  | _ :: _,[],same,_ => by cases same
  | handle :: handles,w :: ws,same,conform => by
    rw [List.map_cons,List.map_cons] at same
    have product : engine.matmul operand handle = .ok (operand.dot w) := by
      unfold ReferenceCpuEngine.matmul
      rw [List.head_eq_of_cons_eq same]
      exact if_pos (conform w List.mem_cons_self).symm
    rw [List.mapM_cons,product,matmul_products (List.tail_eq_of_cons_eq same) fun other listed =>
      conform other (List.mem_cons_of_mem _ listed)]
    rfl

instance : ExactEngine (ReferenceCpuEngine F) F where
  registered := ReferenceCpuEngine.weights
  product _ _ _ _ := matmul_products

end Reference

namespace InProcessTrustedExecutor
variable {E F : Type} [Field F] [LinearOrder F] [IsStrictOrderedRing F] [Platform F] [GpuOffloadEngine E F]

-- When the session is one for this operand: the pass was begun for as many rows
-- under this shield, or the batch for as many blocks, or there is no session to
-- ask for one.
def SessionFits (s : InProcessTrustedExecutor E F) (hidden : Array2 F) (ws : List (Array2 F)) : Prop :=
  match s.session with
  | some (.single mask dataN) => dataN = hidden.nrows ∧ mask.n = s.operandRows hidden.nrows
  | some (.perSequence _ dataN batchSize) =>
    hidden.nrows = batchSize * dataN ∧ 0 < hidden.ncols ∧ ∀ w ∈ ws, 0 < w.ncols
  | none => s.perForwardMask = false ∧
    (resolveMaskKindForShape s.maskKind (hidden.nrows + s.shield.k) = .dct4 → 0 < hidden.nrows + s.shield.k)

-- The weights are on the engine, and cached where they are to be checked.
structure Provisioned [ExactEngine E F] (s : InProcessTrustedExecutor E F) (width : Nat)
    (handles : List WeightHandle) (ws : List (Array2 F)) : Prop where
  conform : ∀ w ∈ ws, w.nrows = width
  registered : handles.map (ExactEngine.registered s.engine) = ws.map some
  cached : 0 < s.verifyProbes → handles.map s.weights = ws.map some

variable {hidden : Array2 F}

theorem session_per {s : InProcessTrustedExecutor E F} {session : SessionKind F} (sound : Sound s)
    (held : s.session = some session) :
    s.perForwardMask = true := by
  by_contra idle
  have none := sound.idle (Bool.eq_false_of_not_eq_true idle)
  rw [held] at none
  cases none

theorem operandMask_run [ExactPlatform F] {s : InProcessTrustedExecutor E F} (sound : Sound s)
    (unbatched : ∀ masks dataN batchSize, s.session ≠ some (.perSequence masks dataN batchSize))
    (fits : SessionFits s hidden ws) : Ends (operandMask hidden.nrows) s (fun mask t => t.engine = s.engine ∧
      mask.Orthogonal ∧ mask.n = s.operandRows hidden.nrows) (fun _ _ => False) := by
  unfold SessionFits at fits
  refine .after (get_run s) ?_
  cases held : s.session with
  | none =>
    rw [held] at fits
    obtain ⟨drawn,sampled⟩ := sampleMask_ok (F:=F) s.maskKind s.rng fits.2
    rw [if_neg (by rw [fits.1]; decide)]
    exact .ok (drawMask_ok sampled) ⟨rfl,sampleMask_orthogonal sampled⟩
  | some session =>
    have per := session_per sound held
    cases session with
    | single mask dataN =>
      rw [held] at fits
      rw [if_pos per]
      exact .ok (congrFun (if_pos ⟨fits.1,fits.2⟩) s) ⟨rfl,sound.masks _ held,fits.2⟩
    | perSequence masks dataN batchSize => exact absurd held (unbatched _ _ _)

-- A masked operand gives the plain product back.
def Hides (mask : MaskFamily F) (hidden u : Array2 F) : Prop :=
  u.nrows = mask.n ∧ u.ncols = hidden.ncols ∧
    ∀ w, ∃ full, mask.unapplyTake (u.dot w) = .ok full ∧ stripShield hidden.nrows full = .ok (hidden.dot w)

-- Whatever is stacked under the data.
theorem hides_stack [ExactPlatform F] {mask : MaskFamily F} (orthogonal : mask.Orthogonal) (hidden stacked : Array2 F)
    (tall : stacked.nrows = mask.n) (wide : stacked.ncols = hidden.ncols) (room : hidden.nrows ≤ stacked.nrows)
    (data : stacked.rows 0 hidden.nrows = hidden) : ∃ u, mask.apply stacked = .ok u ∧ Hides mask hidden u := by
  obtain ⟨u,image,rows,cols,undone⟩ := MaskFamily.unmask orthogonal tall
  refine ⟨u,image,rows.trans tall,cols.trans wide,fun w => ⟨stacked.dot w,undone w,?_⟩⟩
  have stripped : stripShield hidden.nrows (stacked.dot w) = .ok ((stacked.dot w).rows 0 hidden.nrows) := if_pos room
  rw [stripped,rows_dot,data]

theorem stacked_run [ExactPlatform F] {mask : MaskFamily F} (orthogonal : mask.Orthogonal) (stacked : Array2 F)
    (tall : stacked.nrows = mask.n) (wide : stacked.ncols = hidden.ncols) (room : hidden.nrows ≤ stacked.nrows)
    (data : stacked.rows 0 hidden.nrows = hidden) (s : InProcessTrustedExecutor E F) :
    Ends (orPanic (mask.apply stacked)) s (fun u t => t.engine = s.engine ∧ Hides mask hidden u) (fun _ _ => False) := by
  obtain ⟨u,image,hides⟩ := hides_stack orthogonal hidden stacked tall wide room data
  rw [image]
  exact .ok (t:=s) rfl ⟨rfl,hides⟩

theorem maskOperand_run [ExactPlatform F] {s : InProcessTrustedExecutor E F} {mask : MaskFamily F}
    (orthogonal : mask.Orthogonal) (size : mask.n = s.operandRows hidden.nrows) :
    Ends (maskOperand hidden mask) s (fun u t => t.engine = s.engine ∧ Hides mask hidden u) (fun _ _ => False) := by
  have room : hidden.nrows ≤ s.operandRows hidden.nrows :=
    Nat.le_trans (Nat.le_add_right _ _) (le_stackedRows _ _)
  refine .after (get_run s) ?_
  by_cases scratch : (s.perForwardMask && s.shield.enabled) = true
  · obtain ⟨tall,wide⟩ := reuse_shape s.stackedScratch (s.operandRows hidden.nrows) hidden.ncols
    rw [if_pos scratch]
    refine .after (t:=_) rfl (.after (modify_run _ _) ?_)
    exact stacked_run orthogonal (stackRows hidden _ _ (reuse _ _ _)) (tall.trans size.symm) wide (tall.symm ▸ room)
      (stackRows_data _ _ _ (le_shieldEnd mask (Nat.le_add_right _ _) room) (tall.symm ▸ room) wide) _
  · let blank : Array2 F := zeros (s.operandRows hidden.nrows) hidden.ncols
    have tall : blank.nrows = s.operandRows hidden.nrows := rfl
    have wide : blank.ncols = hidden.ncols := rfl
    rw [if_neg scratch]
    refine .after (t:=_) rfl ?_
    exact stacked_run orthogonal (stackRows hidden (hidden.nrows + s.shield.k) _ blank) (tall.trans size.symm) wide
      (tall.symm ▸ room) (stackRows_data _ _ _ (Nat.le_add_right _ _) (tall.symm ▸ room) wide) _

theorem buildShieldedAndApply_run [ExactPlatform F] {s : InProcessTrustedExecutor E F} (sound : Sound s)
    (unbatched : ∀ masks dataN batchSize, s.session ≠ some (.perSequence masks dataN batchSize))
    (fits : SessionFits s hidden ws) : Ends (buildShieldedAndApply hidden) s
      (fun built t => t.engine = s.engine ∧ Frame s t ∧ Hides built.1 hidden built.2) (fun _ _ => False) := by
  refine .bind (operandMask_run sound unbatched fits) fun mask t ran drawn => ?_
  have frame := (operandMask_frame hidden.nrows s).at_ok ran
  have size : mask.n = t.operandRows hidden.nrows := by
    rw [drawn.2.2,operandRows,operandRows,frame.maskKind,frame.shield]
  refine .bind (maskOperand_run drawn.2.1 size) fun masked u masked_ran hides => ?_
  have later := (maskOperand_frame hidden mask t).at_ok masked_ran
  exact .ok (pure_run _ u) ⟨hides.1.trans drawn.1,frame.trans later,hides.2⟩

theorem verifyOutputs_run {operand : Array2 F} : ∀ (pairs : List (WeightHandle × Array2 F)) (s : InProcessTrustedExecutor E F),
    (∀ pair ∈ pairs, ∃ w, s.weights pair.1 = some w ∧ w.nrows = operand.ncols ∧ pair.2 = operand.dot w) →
    Ends (verifyOutputs operand pairs) s (fun _ _ => True) (fun _ _ => False)
  | [],s,_ => .ok (pure_run () s) trivial
  | (handle,observed) :: rest,s,honest => by
    obtain ⟨w,cached,conform,product⟩ := honest _ List.mem_cons_self
    have passed := verifyOffload_exact s.verifyProbes conform s.rng
    refine .after (get_run s) ?_
    simp only at cached product
    simp only [cached,product]
    refine .after (set_run _ _) ?_
    rw [passed]
    exact verifyOutputs_run rest _ fun pair member => honest pair (List.mem_cons_of_mem _ member)

theorem zip_products {f : WeightHandle → Option (Array2 F)} {g : Array2 F → Array2 F} :
    ∀ {handles : List WeightHandle} {ws : List (Array2 F)}, handles.map f = ws.map some →
    ∀ pair ∈ handles.zip (ws.map g), ∃ w ∈ ws, f pair.1 = some w ∧ pair.2 = g w
  | [],_,_,_,member => by cases member
  | _ :: _,[],same,_,_ => by cases same
  | handle :: handles,w :: ws,same,pair,member => by
    rw [List.map_cons,List.map_cons] at same
    rcases List.mem_cons.mp member with rfl | member
    · exact ⟨w,List.mem_cons_self,List.head_eq_of_cons_eq same,rfl⟩
    · obtain ⟨other,listed,held,product⟩ := zip_products (List.tail_eq_of_cons_eq same) pair member
      exact ⟨other,List.mem_cons_of_mem _ listed,held,product⟩

theorem request_run [ExactEngine E F] {s : InProcessTrustedExecutor E F} (operand : Array2 F)
    (ready : Provisioned s operand.ncols handles ws) (wrongCount : Nat → String) :
    Ends (request handles operand wrongCount) s (fun outs _ => outs = ws.map operand.dot) (fun _ _ => False) := by
  have answered := ExactEngine.product handles operand s.engine ws ready.registered ready.conform
  have counted : (ws.map operand.dot).length = handles.length := by
    have length := congrArg List.length ready.registered
    rw [List.length_map,List.length_map] at length
    rw [List.length_map,length]
  refine .after (runRegisteredLinear_ok answered) ?_
  rw [if_pos counted]
  refine .after (get_run _) ?_
  by_cases probing : 0 < s.verifyProbes
  · rw [if_pos (show 0 < InProcessTrustedExecutor.verifyProbes _ from probing)]
    refine .bind (verifyOutputs_run _ _ fun pair member => ?_) fun _ t _ _ => .ok (pure_run _ t) rfl
    obtain ⟨w,listed,cached,product⟩ := zip_products (ready.cached probing) pair member
    exact ⟨w,cached,ready.conform w listed,product⟩
  · rw [if_neg (show ¬0 < InProcessTrustedExecutor.verifyProbes _ from probing)]
    exact .ok (pure_run _ _) rfl

theorem Provisioned.moved [ExactEngine E F] {s t : InProcessTrustedExecutor E F} (ready : Provisioned s width handles ws)
    (engine : t.engine = s.engine) (frame : Frame s t) : Provisioned t width handles ws :=
  ⟨ready.conform,by rw [engine]; exact ready.registered,by rw [frame.verifyProbes,frame.weights]; exact ready.cached⟩

theorem offloadSingle_run [ExactPlatform F] [ExactEngine E F] {s : InProcessTrustedExecutor E F} (sound : Sound s)
    (unbatched : ∀ masks dataN batchSize, s.session ≠ some (.perSequence masks dataN batchSize))
    (fits : SessionFits s hidden ws) (ready : Provisioned s hidden.ncols handles ws) (wrongCount : Nat → String) :
    Ends (offloadSingle handles hidden wrongCount) s (fun outs _ => outs = ws.map hidden.dot) (fun _ _ => False) := by
  refine .bind (buildShieldedAndApply_run sound unbatched fits) fun built t _ hidden_ran => ?_
  obtain ⟨engine,frame,rows,cols,recovers⟩ := hidden_ran
  have moved := ready.moved engine frame
  rw [←cols] at moved
  refine .bind (request_run _ moved wrongCount) fun outs u _ products => ?_
  choose full undone stripped using recovers
  have unmasked : outs.mapM built.1.unapplyTake = .ok (ws.map full) := by
    rw [products,List.mapM_map]
    exact mapM_ok ws fun w _ => undone w
  have strips : (ws.map full).mapM (stripShield hidden.nrows) = .ok (ws.map hidden.dot) := by
    rw [List.mapM_map]
    exact mapM_ok ws fun w _ => stripped w
  show Ends (do
    let unmasked ← orPanic (outs.mapM built.1.unapplyTake)
    let stripped ← orPanic (unmasked.mapM (stripShield hidden.nrows))
    returnApplyScratch built.2
    return stripped) u _ _
  rw [unmasked]
  refine .after (t:=u) rfl ?_
  rw [strips]
  exact .after (t:=u) rfl (.after (modify_run _ u) (.ok (pure_run _ _) rfl))

theorem sequenceBlock_run (shield : ShieldConfig F) (hidden buf : Array2 F) (inside : (b+1) * dataN ≤ hidden.nrows)
    (room : dataN ≤ stackedN) (wide : buf.ncols = hidden.ncols) (seed : Bytes) :
    ∃ stacked, sequenceBlock shield hidden buf dataN stackedN b seed = .ok stacked ∧ stacked.nrows = stackedN ∧
      stacked.ncols = hidden.ncols ∧ stacked.rows 0 dataN = hidden.rows (b * dataN) ((b+1) * dataN) := by
  have cut := sequence_rows hidden b dataN
  have tall := sequence_rows buf b stackedN
  refine ⟨_,if_pos ⟨inside,room⟩,tall,wide,?_⟩
  have below : (hidden.rows (b * dataN) ((b+1) * dataN)).nrows ≤ min (dataN + shield.k) stackedN := by
    rw [cut]
    exact Nat.le_min.mpr ⟨Nat.le_add_right _ _,room⟩
  have data := stackRows_data (hidden.rows (b * dataN) ((b+1) * dataN)) (buf.rows (b * stackedN) ((b+1) * stackedN))
    (gaussian ((min (dataN + shield.k) stackedN - dataN) * hidden.ncols)
      (shieldSigma shield (hidden.rows (b * dataN) ((b+1) * dataN))) ⟨seed,0⟩).1 below (by rw [cut,tall]; exact room) wide
  rw [cut] at data
  exact data

theorem buildPerSequenceMasked_run [ExactPlatform F] {s : InProcessTrustedExecutor E F} {masks : List (MaskFamily F)}
    (some : 0 < batchSize) (tall : 0 < dataN) (counted : masks.length = batchSize) (room : dataN ≤ size)
    (sized : ∀ mask ∈ masks, mask.Orthogonal ∧ mask.n = size) (rows : hidden.nrows = batchSize * dataN)
    (wide : 0 < hidden.ncols) : Ends (buildPerSequenceMasked hidden masks dataN batchSize) s
      (fun operand t => t.engine = s.engine ∧ ∃ blocks, operand = concat size hidden.ncols blocks ∧
        List.Forall₂ (fun b u => ∃ mask, masks[b]? = .some mask ∧ mask.n = size ∧
          Hides mask (hidden.rows (b * dataN) ((b+1) * dataN)) u) (List.range batchSize) blocks) (fun _ _ => False) := by
  cases masks with
  | nil => rw [List.length_nil] at counted; omega
  | cons first rest =>
    have height : first.n = size := (sized first List.mem_cons_self).2
    refine .after (get_run s) (.after (set_run _ _) ?_)
    rw [if_neg (by rw [height]; exact Nat.mul_ne_zero (by omega) (by omega))]
    let buf := reuse s.perSeqApplyScratch (batchSize * first.n) hidden.ncols
    let seed := fun b => Platform.xoshiroBytes F s.shieldRng.seed (s.shieldRng.drawn + 4 * b) 32
    obtain ⟨blocks,ran,related⟩ := mapM_related (R:=fun b u => ∃ mask, (first :: rest)[b]? = .some mask ∧ mask.n = size ∧
        Hides mask (hidden.rows (b * dataN) ((b+1) * dataN)) u)
      (f:=maskedBlock s.shield hidden buf (first :: rest) dataN first.n seed) (List.range batchSize) fun b member => by
        have before := List.mem_range.mp member
        have listed : (first :: rest)[b]? = .some ((first :: rest)[b]) := List.getElem?_eq_getElem (counted ▸ before)
        obtain ⟨orthogonal,mask_size⟩ := sized _ (List.getElem_mem (counted ▸ before))
        obtain ⟨stacked,built,stackedRows,stackedCols,data⟩ := sequenceBlock_run s.shield hidden buf
          (b:=b) (rows ▸ Nat.mul_le_mul_right dataN before) (height ▸ room) (reuse_shape _ _ _).2 (seed b)
        obtain ⟨u,image,hides⟩ := hides_stack orthogonal (hidden.rows (b * dataN) ((b+1) * dataN)) stacked
          (stackedRows.trans (height.trans mask_size.symm)) stackedCols
          (by rw [sequence_rows,stackedRows,height]; exact room) (by rw [sequence_rows]; exact data)
        refine ⟨u,?_,_,listed,mask_size,hides⟩
        unfold maskedBlock
        rw [listed]
        exact except_bind_ok.mpr ⟨stacked,built,image⟩
    exact .after (orPanic_ok ran _) (.ok (pure_run _ _) ⟨rfl,blocks,by rw [height],related⟩)

theorem unmaskPerSequence_run {masks : List (MaskFamily F)} {blocks : List (Array2 F)} {w : Array2 F} (tall : 0 < dataN)
    (some : 0 < size) (head : ∃ first rest, masks = first :: rest ∧ first.n = size)
    (rows : hidden.nrows = batchSize * dataN) (wide : 0 < w.ncols)
    (related : List.Forall₂ (fun b u => ∃ mask, masks[b]? = .some mask ∧ mask.n = size ∧
      Hides mask (hidden.rows (b * dataN) ((b+1) * dataN)) u) (List.range batchSize) blocks) :
    unmaskPerSequence masks dataN batchSize ((concat size hidden.ncols blocks).dot w) = .ok (hidden.dot w) := by
  obtain ⟨first,rest,rfl,height⟩ := head
  have length : blocks.length = batchSize := by rw [←related.length_eq,List.length_range]
  have chunks : (batchSize * size + size - 1) / size = batchSize := by
    rw [show batchSize * size + size - 1 = size * batchSize + (size - 1) by rw [Nat.mul_comm]; omega,
      Nat.mul_add_div some,Nat.div_eq_of_lt (by omega),Nat.add_zero]
  have total : ((concat size hidden.ncols blocks).dot w).nrows = batchSize * size := by
    show blocks.length * size = _
    rw [length]
  have each := mapM_ok (f:=unmaskedBlock (first :: rest) dataN size ((concat size hidden.ncols blocks).dot w))
    (g:=fun b => (hidden.dot w).rows (b * dataN) ((b+1) * dataN)) (List.range batchSize) fun b member => by
      have before := List.mem_range.mp member
      obtain ⟨u,listed⟩ : ∃ u, blocks[b]? = .some u := ⟨_,List.getElem?_eq_getElem (length ▸ before)⟩
      have at_b := related.get (by rw [List.length_range]; exact before) (by rw [length]; exact before)
      simp only [List.get_eq_getElem,List.getElem_range] at at_b
      obtain ⟨mask,held,mask_size,hidden_rows,hidden_cols,recovers⟩ := at_b
      have inside : b < blocks.length := length ▸ before
      have same : blocks[b] = u := by
        rw [List.getElem?_eq_getElem inside] at listed
        exact Option.some.inj listed
      obtain ⟨full,undone,stripped⟩ := recovers w
      unfold unmaskedBlock
      rw [held]
      refine except_bind_ok.mpr ⟨full,?_,?_⟩
      · rw [total,Nat.min_eq_left (Nat.mul_le_mul_right size before),rows_dot,concat_block listed
          (same ▸ hidden_rows.trans mask_size) (same ▸ hidden_cols),←same]
        exact undone
      · rw [sequence_rows] at stripped
        rw [stripped,rows_dot]
  unfold unmaskPerSequence
  simp only
  rw [if_neg (by
    rw [height]
    exact not_or.mpr ⟨Nat.mul_ne_zero (by omega) (Nat.ne_of_gt wide),Nat.mul_ne_zero (by omega) (Nat.ne_of_gt wide)⟩),
    total,height,chunks,Nat.min_self]
  refine except_bind_ok.mpr ⟨_,each,?_⟩
  rw [show ((concat size hidden.ncols blocks).dot w).ncols = (hidden.dot w).ncols from rfl,
    concat_cut (x:=hidden.dot w) tall rows,of_self (x:=hidden.dot w) rows rfl]

theorem offloadPerSequence_run [ExactPlatform F] [ExactEngine E F] {s : InProcessTrustedExecutor E F}
    {masks : List (MaskFamily F)} (masked : SessionSound (.perSequence masks dataN batchSize))
    (rows : hidden.nrows = batchSize * dataN) (wide : 0 < hidden.ncols) (broad : ∀ w ∈ ws, 0 < w.ncols)
    (ready : Provisioned s hidden.ncols handles ws) (wrongCount : Nat → String) :
    Ends (offloadPerSequence handles hidden masks dataN batchSize wrongCount) s (fun outs _ => outs = ws.map hidden.dot)
      (fun _ _ => False) := by
  obtain ⟨some,tall,counted,size,room,sized⟩ := masked
  have head : ∃ first rest, masks = first :: rest ∧ first.n = size := by
    cases masks with
    | nil => rw [List.length_nil] at counted; omega
    | cons first rest => exact ⟨first,rest,rfl,(sized first List.mem_cons_self).2⟩
  refine .bind (buildPerSequenceMasked_run some tall counted room sized rows wide) fun operand t ran built => ?_
  obtain ⟨engine,blocks,rfl,related⟩ := built
  have moved := ready.moved engine ((buildPerSequenceMasked_frame hidden masks dataN batchSize s).at_ok ran)
  refine .bind (request_run (concat size hidden.ncols blocks) moved wrongCount) fun outs u _ products => ?_
  have unmasked : outs.mapM (unmaskPerSequence masks dataN batchSize) = .ok (ws.map hidden.dot) := by
    rw [products,List.mapM_map]
    exact mapM_ok ws fun w listed =>
      unmaskPerSequence_run tall (Nat.lt_of_lt_of_le tall room) head rows (broad w listed) related
  exact .after (orPanic_ok unmasked u) (.after (modify_run _ u) (.ok (pure_run _ _) rfl))

theorem offloadTogether_run [ExactPlatform F] [ExactEngine E F] {s : InProcessTrustedExecutor E F} (sound : Sound s)
    (fits : SessionFits s hidden ws) (ready : Provisioned s hidden.ncols handles ws) :
    Ends (offloadTogether handles hidden) s (fun outs _ => outs = ws.map hidden.dot) (fun _ _ => False) := by
  refine .after (get_run s) ?_
  cases held : s.session with
  | none => exact offloadSingle_run sound (fun _ _ _ => by rw [held]; exact nofun) fits ready _
  | some session =>
    cases session with
    | single mask dataN =>
      exact offloadSingle_run sound (fun _ _ _ same => by rw [held] at same; cases same) fits ready _
    | perSequence masks dataN batchSize =>
      unfold SessionFits at fits
      rw [held] at fits
      exact offloadPerSequence_run (sound.masks _ held) fits.1 fits.2.1 fits.2.2 ready _

theorem offloadLinear_run [ExactPlatform F] [ExactEngine E F] {s : InProcessTrustedExecutor E F} (sound : Sound s)
    (fits : SessionFits s hidden [w]) (ready : Provisioned s hidden.ncols [handle] [w]) :
    Ends (offloadLinear handle hidden) s (fun out _ => out = hidden.dot w) (fun _ _ => False) := by
  have first : ∀ outs t, outs = [w].map hidden.dot → Ends (only outs : ExecM E F (Array2 F)) t
      (fun out _ => out = hidden.dot w) (fun _ _ => False) := by
    intro outs t products
    rw [products]
    exact .ok (pure_run _ t) rfl
  refine .after (get_run s) ?_
  cases held : s.session with
  | none =>
    exact .bind (offloadSingle_run sound (fun _ _ _ => by rw [held]; exact nofun) fits ready oneCount) fun outs t _ => first outs t
  | some session =>
    cases session with
    | single mask dataN =>
      exact .bind (offloadSingle_run sound (fun _ _ _ same => by rw [held] at same; cases same) fits ready oneCount)
        fun outs t _ => first outs t
    | perSequence masks dataN batchSize =>
      unfold SessionFits at fits
      rw [held] at fits
      have per := session_per sound held
      simp only
      rw [if_neg (not_not.mpr fits.1),if_neg (by rw [per]; decide)]
      exact .bind (offloadPerSequence_run (sound.masks _ held) fits.1 fits.2.1 fits.2.2 ready oneCount) fun outs t _ => first outs t

-- Every offload of a state that calls can lead to, in a session that fits it,
-- gives the plain products.
theorem offloads_exact [ExactPlatform F] [ExactEngine E F] {s : InProcessTrustedExecutor E F} (reached : Reachable s)
    (hidden : Array2 F) :
    (∀ handle w, SessionFits s hidden [w] → Provisioned s hidden.ncols [handle] [w] →
      ∃ t, offloadLinear handle hidden s = .ok (hidden.dot w) t) ∧
    (∀ layer wq wk wv, SessionFits s hidden [wq,wk,wv] →
      Provisioned s hidden.ncols [⟨layer,.q⟩,⟨layer,.k⟩,⟨layer,.v⟩] [wq,wk,wv] →
      ∃ t, offloadQkv layer hidden s = .ok (hidden.dot wq,hidden.dot wk,hidden.dot wv) t) ∧
    (∀ handles ws, SessionFits s hidden ws → Provisioned s hidden.ncols handles ws →
      ∃ t, offloadLinearMany handles hidden s = .ok (ws.map hidden.dot) t) := by
  have sound := reachable_sound reached
  refine ⟨fun handle w fits ready => Ends.answer (offloadLinear_run sound fits ready),fun layer wq wk wv fits ready => ?_,
    fun handles ws fits ready => ?_⟩
  · obtain ⟨t,ran⟩ := Ends.answer (offloadTogether_run sound fits ready)
    exact ⟨t,bind_ok ran⟩
  · unfold offloadLinearMany
    by_cases empty : handles.isEmpty = true
    · have none : ws = [] := by
        have length := congrArg List.length ready.registered
        rw [List.isEmpty_iff.mp empty,List.map_nil,List.length_map] at length
        exact List.eq_nil_of_length_eq_zero length.symm
      rw [if_pos empty,none]
      exact ⟨s,rfl⟩
    · rw [if_neg empty]
      exact Ends.answer (offloadTogether_run sound fits ready)

theorem offloads_exact_per_offload :
    ∃ t, offloadLinear ⟨0,.q⟩ (identity 2) (withShield ⟨fun _ => some (identity 2)⟩ [7] ⟨1,4⟩ :
      InProcessTrustedExecutor (ReferenceCpuEngine ℝ) ℝ) = .ok ((identity 2).dot (identity 2)) t :=
  (offloads_exact (E:=ReferenceCpuEngine ℝ) (F:=ℝ) (.withShield ⟨fun _ => some (identity 2)⟩ [7] ⟨1,4⟩) (identity 2)).1
    ⟨0,.q⟩ (identity 2) ⟨rfl,fun _ => Nat.succ_pos _⟩
    ⟨fun w listed => by rw [List.mem_singleton.mp listed]; rfl,rfl,fun probing => absurd probing (Nat.lt_irrefl 0)⟩

-- Outside a pass a per-forward executor answers no offload.
theorem no_session_panics : ¬∃ t, offloadLinear ⟨0,.q⟩ (identity 2) (withSeed ⟨fun _ => some (identity 2)⟩ [7] :
    InProcessTrustedExecutor (ReferenceCpuEngine ℝ) ℝ) = .ok ((identity 2).dot (identity 2)) t := by
  rintro ⟨t,ran⟩
  cases ran

end InProcessTrustedExecutor
end Gelo
