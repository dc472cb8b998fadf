import GeloLightrag.Foundation.Machine
import GeloLightrag.Gelo.Integrity
import GeloLightrag.Gelo.Shield

set_option linter.unusedSectionVars false

namespace Gelo
open Foundation Array2

inductive WeightKind where
  | q
  | k
  | v
  | o
  | ffnGate
  | ffnUp
  | ffnDown
  | lmHead
deriving DecidableEq

structure WeightHandle where
  layer : Nat
  kind : WeightKind
deriving DecidableEq

def WeightKind.debug : WeightKind → String
  | .q => "Q"
  | .k => "K"
  | .v => "V"
  | .o => "O"
  | .ffnGate => "FfnGate"
  | .ffnUp => "FfnUp"
  | .ffnDown => "FfnDown"
  | .lmHead => "LmHead"

def WeightHandle.debug (handle : WeightHandle) : String :=
  "WeightHandle \x7b layer: " ++ toString handle.layer ++ ", kind: " ++ handle.kind.debug ++ " \x7d"

-- A call ends without a result by an Err or by a panic.
inductive Fault where
  | error (text : String)
  | panic (text : String)
deriving DecidableEq

class GpuOffloadEngine (E F : Type) [Zero F] where
  registerWeight : WeightHandle → Array2 F → E → Except String Unit × E
  runRegisteredLinear : List WeightHandle → Array2 F → E → Except String (List (Array2 F)) × E

-- What a call drew and what it handed to the engine, in order. The source keeps
-- no such record and no function below reads it.
inductive Event (F : Type) [Zero F] where
  | mask (rng : ChaCha20Rng)
  | shield (rng : Xoshiro256PlusPlus)
  | upload (operand : Array2 F)

inductive SessionKind (F : Type) [Field F] where
  | single (mask : MaskFamily F) (dataN : Nat)
  | perSequence (masks : List (MaskFamily F)) (dataN batchSize : Nat)

structure InProcessTrustedExecutor (E F : Type) [Field F] where
  engine : E
  rng : ChaCha20Rng
  shieldRng : Xoshiro256PlusPlus
  shield : ShieldConfig F
  shieldDefault : ShieldConfig F
  shieldSmallN : Option (ShieldConfig F)
  shieldSmallNMax : Nat
  verifyProbes : Nat
  weights : WeightHandle → Option (Array2 F)
  perForwardMask : Bool
  session : Option (SessionKind F)
  stackedScratch : Nat → Option (Array2 F)
  perSeqApplyScratch : Nat → Option (Array2 F)
  maskKind : MaskKind
  trace : List (Event F)

abbrev ExecM (E F : Type) [Field F] := EStateM Fault (InProcessTrustedExecutor E F)

def orPanic {E F α : Type} [Field F] (x : Except String α) : ExecM E F α := fun s =>
  match x with
  | .ok a => .ok a s
  | .error text => .error (.panic text) s

theorem orPanic_ok {E F α : Type} [Field F] {x : Except String α} {a : α} (value : x = .ok a)
    (s : InProcessTrustedExecutor E F) : (orPanic x : ExecM E F α) s = .ok a s := by
  rw [value]; rfl

theorem orPanic_error {E F α : Type} [Field F] {x : Except String α} (refused : x = .error text)
    (s : InProcessTrustedExecutor E F) : (orPanic x : ExecM E F α) s = .error (.panic text) s := by
  rw [refused]; rfl

def outOfBounds : String := "index out of bounds"

namespace InProcessTrustedExecutor
variable {E F : Type} [Field F] [LinearOrder F] [IsStrictOrderedRing F] [Platform F] [GpuOffloadEngine E F]

def SHIELD_RNG_STREAM : Nat := 0xCAFEF00D5EEDE11D

def deriveShieldRng (F : Type) [Zero F] [Platform F] (seed : Bytes) : Xoshiro256PlusPlus :=
  ⟨(List.range 8).flatMap fun i => leBytes 4 (Platform.chachaWord F seed SHIELD_RNG_STREAM i),0⟩

def withSeed (engine : E) (seed : Bytes) : InProcessTrustedExecutor E F where
  engine := engine
  rng := ⟨seed,0,0⟩
  shieldRng := deriveShieldRng F seed
  shield := ⟨8,4⟩
  shieldDefault := ⟨8,4⟩
  shieldSmallN := some ⟨15,4⟩
  shieldSmallNMax := 1
  verifyProbes := 0
  weights := fun _ => none
  perForwardMask := true
  session := none
  stackedScratch := fun _ => none
  perSeqApplyScratch := fun _ => none
  maskKind := .auto
  trace := []

def withShield (engine : E) (seed : Bytes) (shield : ShieldConfig F) : InProcessTrustedExecutor E F where
  engine := engine
  rng := ⟨seed,0,0⟩
  shieldRng := deriveShieldRng F seed
  shield := shield
  shieldDefault := shield
  shieldSmallN := none
  shieldSmallNMax := 0
  verifyProbes := 0
  weights := fun _ => none
  perForwardMask := false
  session := none
  stackedScratch := fun _ => none
  perSeqApplyScratch := fun _ => none
  maskKind := .haar
  trace := []

-- The clone of a worker. What it draws and uploads is its own.
def clone (s : InProcessTrustedExecutor E F) : InProcessTrustedExecutor E F :=
  {s with session:=none,stackedScratch:=fun _ => none,perSeqApplyScratch:=fun _ => none,trace:=[]}

def cleared (s : InProcessTrustedExecutor E F) : InProcessTrustedExecutor E F :=
  {s with stackedScratch:=fun _ => none,perSeqApplyScratch:=fun _ => none}

-- `with_haar_mask`, `with_hd3_mask`, `with_dct4_mask` and `with_auto_mask`.
def withMaskKind (kind : MaskKind) (s : InProcessTrustedExecutor E F) : InProcessTrustedExecutor E F :=
  {s.cleared with maskKind:=kind,session:=none}

def withSmallNShield (cfg : Option (Nat × ShieldConfig F)) (s : InProcessTrustedExecutor E F) : InProcessTrustedExecutor E F :=
  match cfg with
  | some (maxN,shield) => {s with shieldSmallN:=some shield,shieldSmallNMax:=maxN}
  | none => {s with shieldSmallN:=none,shieldSmallNMax:=0}

def setShield (shield : ShieldConfig F) (s : InProcessTrustedExecutor E F) : InProcessTrustedExecutor E F :=
  {s with shield:=shield,shieldDefault:=shield}

def withPerForwardMask (shield : ShieldConfig F) (s : InProcessTrustedExecutor E F) :
    Except String (InProcessTrustedExecutor E F) :=
  if shield.enabled then .ok {s with perForwardMask:=true,shield:=shield}
  else .error "per-forward-pass mask requires shield to be enabled; pass `ShieldConfig::new(k>0, energy_scale>0)`"

def withPerOffloadMask (s : InProcessTrustedExecutor E F) : InProcessTrustedExecutor E F :=
  {s.cleared with perForwardMask:=false,shield:=.NONE,session:=none}

def withVerifyProbes (n : Nat) (s : InProcessTrustedExecutor E F) : InProcessTrustedExecutor E F := {s with verifyProbes:=n}

def setRngStream (stream : Nat) (s : InProcessTrustedExecutor E F) : InProcessTrustedExecutor E F :=
  {s with rng:=s.rng.setStream stream}

def register (handle : WeightHandle) (weight : Array2 F) : ExecM E F Unit := fun s =>
  let (answer,engine) := GpuOffloadEngine.registerWeight handle weight s.engine
  match answer with
  | .ok _ => .ok () {s with engine:=engine}
  | .error text => .error (.error text) {s with engine:=engine}

theorem register_ends (handle : WeightHandle) (weight : Array2 F) (s : InProcessTrustedExecutor E F) :
    ∃ engine, Ends (register handle weight) s (fun _ t => t = {s with engine:=engine}) (fun _ t => t = {s with engine:=engine}) := by
  refine ⟨(GpuOffloadEngine.registerWeight handle weight s.engine).2,?_⟩
  cases answered : (GpuOffloadEngine.registerWeight handle weight s.engine).1 with
  | ok _ => exact .ok (a:=()) (by simp only [register,answered]) rfl
  | error text => exact .error (e:=.error text) (by simp only [register,answered]) rfl

def cacheWeight (handle : WeightHandle) (weight : Array2 F) (s : InProcessTrustedExecutor E F) : InProcessTrustedExecutor E F :=
  if 0 < s.verifyProbes then {s with weights:=Function.update s.weights handle (some weight)} else s

def provisionWeight (handle : WeightHandle) (weight : Array2 F) : ExecM E F Unit := do
  modify (cacheWeight handle weight)
  register handle weight

def provisionWeightShared (handle : WeightHandle) (weight : Array2 F) : ExecM E F Unit := do
  register handle weight
  modify (cacheWeight handle weight)

-- Every place that samples a mask draws it this way.
def drawMask (resolved : MaskKind) (rows : Nat) : ExecM E F (MaskFamily F) := fun s =>
  match sampleMask resolved rows s.rng with
  | .ok drawn => .ok drawn.1 {s with rng:=drawn.2,trace:=s.trace ++ [.mask s.rng]}
  | .error text => .error (.panic text) s

theorem drawMask_ok {s : InProcessTrustedExecutor E F} {drawn : MaskFamily F × ChaCha20Rng}
    (sampled : sampleMask resolved n s.rng = .ok drawn) :
    drawMask resolved n s = .ok drawn.1 {s with rng:=drawn.2,trace:=s.trace ++ [.mask s.rng]} := by
  unfold drawMask
  rw [sampled]

theorem drawMask_error {s : InProcessTrustedExecutor E F} (refused : sampleMask (F:=F) resolved n s.rng = .error text) :
    drawMask resolved n s = .error (.panic text) s := by
  unfold drawMask
  rw [refused]

-- The shield of a pass over n rows.
def shieldFor (s : InProcessTrustedExecutor E F) (n : Nat) : ShieldConfig F :=
  match s.shieldSmallN with
  | some small => if n ≤ s.shieldSmallNMax then small else s.shieldDefault
  | none => s.shieldDefault

def drawFor (rows : Nat) : ExecM E F (MaskFamily F) := do
  let s ← get
  let resolved := resolveMaskKindForShape s.maskKind rows
  drawMask resolved (stackedRows resolved rows)

def drawMasks (rows : Nat) : Nat → ExecM E F (List (MaskFamily F))
  | 0 => return []
  | count+1 => do
    let mask ← drawFor rows
    let masks ← drawMasks rows count
    return mask :: masks

def enter (session : SessionKind F) : ExecM E F Unit := modify fun s => {s.cleared with session:=some session}

def enterSingle (n : Nat) (shield : ShieldConfig F) : ExecM E F Unit := do
  modify fun s => {s with shield:=shield}
  let mask ← drawFor (n + shield.k)
  enter (.single mask n)

def enterBatch (batchSize n : Nat) (shield : ShieldConfig F) : ExecM E F Unit := do
  modify fun s => {s with shield:=shield}
  let masks ← drawMasks (n + shield.k) batchSize
  enter (.perSequence masks n batchSize)

def beginForwardPass (n : Nat) : ExecM E F Unit := do
  let s ← get
  if s.perForwardMask then enterSingle n (s.shieldFor n)

def endForwardPass : ExecM E F Unit := modify fun s => {s.cleared with session:=none}

def beginPrefillPass (batchSize nMax : Nat) : ExecM E F Unit := do
  let s ← get
  if s.perForwardMask then
    if batchSize = 0 then throw (.error "begin_prefill_pass: batch_size must be > 0")
    else if nMax = 0 then throw (.error "begin_prefill_pass: n_max must be > 0")
    else enterBatch batchSize nMax (s.shieldFor nMax)

-- `BATCHED_DECODE_SHARED_A` is read at each call.
def beginDecodePass (shared : Bool) (batchSize : Nat) : ExecM E F Unit := do
  let s ← get
  if s.perForwardMask then
    if batchSize = 0 then throw (.error "begin_decode_pass: batch_size must be > 0")
    else if shared then
      enterSingle batchSize ⟨shieldKForBatch batchSize (max s.shieldDefault.k 1),s.shieldDefault.energyScale⟩
    else enterBatch batchSize 1 (s.shieldFor 1)

-- `fill_shield_rows_inline` over the shield generator.
def fillShieldRows (count : Nat) (sigma : F) : ExecM E F (Nat → F) := fun s =>
  let drawn := gaussian count sigma s.shieldRng
  .ok drawn.1 {s with shieldRng:=drawn.2,trace:=if count = 0 ∨ sigma = 0 then s.trace else s.trace ++ [.shield s.shieldRng]}

-- The rows of the masked operand of an unbatched offload.
def operandRows (s : InProcessTrustedExecutor E F) (n : Nat) : Nat :=
  stackedRows (resolveMaskKindForShape s.maskKind (n + s.shield.k)) (n + s.shield.k)

-- The mask of an unbatched offload over n rows: the one of the pass, or a fresh one.
def operandMask (n : Nat) : ExecM E F (MaskFamily F) := do
  let s ← get
  let resolved := resolveMaskKindForShape s.maskKind (n + s.shield.k)
  let stackedN := stackedRows resolved (n + s.shield.k)
  if s.perForwardMask then
    match s.session with
    | some (.single mask dataN) =>
      if dataN = n ∧ mask.n = stackedN then return mask
      else throw (.panic s!"per-forward-pass mask: offload n={n} (stacked {stackedN}) doesn't match session n={dataN} (stacked {mask.n}); did you forget to call begin_forward_pass for the new shape?")
    | some (.perSequence _ _ _) =>
      throw (.panic "build_shielded_and_apply called under PerSequence session — batched callers must use the batched offload path (M1.11 R1.2)")
    | none =>
      throw (.panic "per-forward-pass mode but no session mask — embedder must call begin_forward_pass(n) before any offload_*")
  else drawMask resolved stackedN

-- A kept buffer if one of this width and shape is there.
def reuse (scratch : Nat → Option (Array2 F)) (nrows ncols : Nat) : Array2 F :=
  match scratch ncols with
  | some buf => if buf.nrows = nrows ∧ buf.ncols = ncols then buf else zeros nrows ncols
  | none => zeros nrows ncols

theorem reuse_shape (scratch : Nat → Option (Array2 F)) (n d : Nat) : (reuse scratch n d).nrows = n ∧ (reuse scratch n d).ncols = d := by
  unfold reuse
  split
  · split
    · rename_i shape
      exact shape
    · exact ⟨rfl,rfl⟩
  · exact ⟨rfl,rfl⟩

-- Where the shield rows end, and what stays in the scratch: `apply` overwrites
-- the buffer of a structured mask, so it leaves with the operand.
def shieldEnd (mask : MaskFamily F) (shielded stackedN : Nat) : Nat :=
  match mask with
  | .dct4 _ => stackedN
  | _ => min shielded stackedN

theorem le_shieldEnd (mask : MaskFamily F) (above : n ≤ shielded) (room : n ≤ stackedN) : n ≤ shieldEnd mask shielded stackedN := by
  cases mask with
  | dct4 mask => exact room
  | haar mask => exact Nat.le_min.mpr ⟨above,room⟩
  | hd3 mask => exact Nat.le_min.mpr ⟨above,room⟩

def leftBehind (mask : MaskFamily F) (stacked : Array2 F) : Option (Array2 F) :=
  match mask with
  | .haar _ => some stacked
  | _ => none

def maskOperand (hidden : Array2 F) (mask : MaskFamily F) : ExecM E F (Array2 F) := do
  let s ← get
  let shielded := hidden.nrows + s.shield.k
  let stackedN := stackedRows (resolveMaskKindForShape s.maskKind shielded) shielded
  if s.perForwardMask && s.shield.enabled then
    let buf := reuse s.stackedScratch stackedN hidden.ncols
    let last := shieldEnd mask shielded stackedN
    let noise ← fillShieldRows ((last - hidden.nrows) * hidden.ncols) (shieldSigma s.shield hidden)
    let stacked := stackRows hidden last noise buf
    modify fun s => {s with stackedScratch:=Function.update s.stackedScratch hidden.ncols (leftBehind mask stacked)}
    orPanic (mask.apply stacked)
  else
    let noise ← fillShieldRows (s.shield.k * hidden.ncols) (if s.shield.enabled then shieldSigma s.shield hidden else 0)
    orPanic (mask.apply (stackRows hidden shielded noise (zeros stackedN hidden.ncols)))

def buildShieldedAndApply (hidden : Array2 F) : ExecM E F (MaskFamily F × Array2 F) := do
  let mask ← operandMask hidden.nrows
  let masked ← maskOperand hidden mask
  return (mask,masked)

def pools (kind : MaskKind) : Bool :=
  match kind with
  | .haar => false
  | _ => true

def returnApplyScratch (buf : Array2 F) : ExecM E F Unit := modify fun s =>
  if s.perForwardMask && s.shield.enabled && pools s.maskKind then
    {s with stackedScratch:=Function.update s.stackedScratch buf.ncols (some buf)}
  else s

def returnPerSeqApplyScratch (buf : Array2 F) : ExecM E F Unit := modify fun s =>
  if s.perForwardMask && pools s.maskKind then
    {s with perSeqApplyScratch:=Function.update s.perSeqApplyScratch buf.ncols (some buf)}
  else s

def runRegisteredLinear (handles : List WeightHandle) (operand : Array2 F) : ExecM E F (List (Array2 F)) := fun s =>
  let (answer,engine) := GpuOffloadEngine.runRegisteredLinear handles operand s.engine
  match answer with
  | .ok outs => .ok outs {s with engine:=engine,trace:=s.trace ++ [.upload operand]}
  | .error text => .error (.error text) {s with engine:=engine,trace:=s.trace ++ [.upload operand]}

theorem runRegisteredLinear_ok {s : InProcessTrustedExecutor E F} {operand : Array2 F}
    (answered : (GpuOffloadEngine.runRegisteredLinear handles operand s.engine).1 = .ok outs) :
    runRegisteredLinear handles operand s = .ok outs {s with
      engine:=(GpuOffloadEngine.runRegisteredLinear handles operand s.engine).2,trace:=s.trace ++ [.upload operand]} := by
  simp only [runRegisteredLinear,answered]

theorem runRegisteredLinear_error {s : InProcessTrustedExecutor E F} {operand : Array2 F}
    (refused : (GpuOffloadEngine.runRegisteredLinear handles operand s.engine).1 = .error text) :
    runRegisteredLinear handles operand s = .error (.error text) {s with
      engine:=(GpuOffloadEngine.runRegisteredLinear handles operand s.engine).2,trace:=s.trace ++ [.upload operand]} := by
  simp only [runRegisteredLinear,refused]

def verifyOutputs (operand : Array2 F) : List (WeightHandle × Array2 F) → ExecM E F Unit
  | [] => return
  | (handle,observed) :: rest => do
    let s ← get
    match s.weights handle with
    | none => throw (.error s!"verify_probes>0 but weight {handle.debug} not cached in TEE")
    | some weight =>
      let checked := verifyOffload s.verifyProbes operand weight observed s.rng
      set {s with rng:=checked.2}
      match checked.1 with
      | .ok _ => verifyOutputs operand rest
      | .error text => throw (.error text)

-- One request to the engine, its length check, and the probes.
def request (handles : List WeightHandle) (operand : Array2 F) (wrongCount : Nat → String) : ExecM E F (List (Array2 F)) := do
  let outs ← runRegisteredLinear handles operand
  if outs.length = handles.length then
    let s ← get
    if 0 < s.verifyProbes then verifyOutputs operand (handles.zip outs)
    return outs
  else throw (.error (wrongCount outs.length))

def stripShield (n : Nat) (unmasked : Array2 F) : Except String (Array2 F) :=
  if n ≤ unmasked.nrows then .ok (unmasked.rows 0 n) else .error outOfBounds

def offloadSingle (handles : List WeightHandle) (hidden : Array2 F) (wrongCount : Nat → String) :
    ExecM E F (List (Array2 F)) := do
  let (mask,masked) ← buildShieldedAndApply hidden
  let outs ← request handles masked wrongCount
  let unmasked ← orPanic (outs.mapM mask.unapplyTake)
  let stripped ← orPanic (unmasked.mapM (stripShield hidden.nrows))
  returnApplyScratch masked
  return stripped

-- One sequence's block of the batched operand, its shield rows from a generator
-- of its own.
def sequenceBlock (shield : ShieldConfig F) (hidden buf : Array2 F) (dataN stackedN b : Nat) (seed : Bytes) :
    Except String (Array2 F) :=
  if (b+1) * dataN ≤ hidden.nrows ∧ dataN ≤ stackedN then
    let sub := hidden.rows (b * dataN) ((b+1) * dataN)
    let shieldEnd := min (dataN + shield.k) stackedN
    let noise := (gaussian ((shieldEnd - dataN) * hidden.ncols) (shieldSigma shield sub) ⟨seed,0⟩).1
    .ok (stackRows sub shieldEnd noise (buf.rows (b * stackedN) ((b+1) * stackedN)))
  else .error outOfBounds

theorem sequence_rows (hidden : Array2 F) (b dataN : Nat) : (hidden.rows (b * dataN) ((b+1) * dataN)).nrows = dataN := by
  show (b+1) * dataN - b * dataN = dataN
  rw [Nat.succ_mul,Nat.add_sub_cancel_left]

def maskedBlock (shield : ShieldConfig F) (hidden buf : Array2 F) (masks : List (MaskFamily F)) (dataN stackedN : Nat)
    (seed : Nat → Bytes) (b : Nat) : Except String (Array2 F) :=
  match masks[b]? with
  | none => .error outOfBounds
  | some mask => do mask.apply (← sequenceBlock shield hidden buf dataN stackedN b (seed b))

def buildPerSequenceMasked (hidden : Array2 F) (masks : List (MaskFamily F)) (dataN batchSize : Nat) :
    ExecM E F (Array2 F) := do
  match masks with
  | [] => throw (.panic outOfBounds)
  | first :: _ =>
    let s ← get
    let stackedN := first.n
    let buf := reuse s.perSeqApplyScratch (batchSize * stackedN) hidden.ncols
    let seed := fun b => Platform.xoshiroBytes F s.shieldRng.seed (s.shieldRng.drawn + 4 * b) 32
    set {s with
      perSeqApplyScratch:=Function.update s.perSeqApplyScratch hidden.ncols none
      shieldRng:=s.shieldRng.advance (4 * batchSize)
      trace:=if batchSize = 0 then s.trace else s.trace ++ [Event.shield s.shieldRng]}
    if stackedN * hidden.ncols = 0 then throw (.panic "chunk size must not be zero")
    else
      let blocks ← orPanic ((List.range batchSize).mapM (maskedBlock s.shield hidden buf masks dataN stackedN seed))
      return concat stackedN hidden.ncols blocks

-- A last chunk cut short is refused by the mask.
def unmaskedBlock (masks : List (MaskFamily F)) (dataN stackedN : Nat) (concatOut : Array2 F) (b : Nat) :
    Except String (Array2 F) :=
  match masks[b]? with
  | none => .error outOfBounds
  | some mask => do
    stripShield dataN (← mask.unapplyTake (concatOut.rows (b * stackedN) (min ((b+1) * stackedN) concatOut.nrows)))

-- Sequences past the last chunk keep the zeros of the output.
def unmaskPerSequence (masks : List (MaskFamily F)) (dataN batchSize : Nat) (concatOut : Array2 F) :
    Except String (Array2 F) :=
  match masks with
  | [] => .error outOfBounds
  | first :: _ =>
    let stackedN := first.n
    if stackedN * concatOut.ncols = 0 ∨ dataN * concatOut.ncols = 0 then .error "chunk size must not be zero"
    else do
      let chunks := (concatOut.nrows + stackedN - 1) / stackedN
      let blocks ← (List.range (min batchSize chunks)).mapM (unmaskedBlock masks dataN stackedN concatOut)
      .ok (of (batchSize * dataN) concatOut.ncols (concat dataN concatOut.ncols blocks).entry)

def offloadPerSequence (handles : List WeightHandle) (hidden : Array2 F) (masks : List (MaskFamily F))
    (dataN batchSize : Nat) (wrongCount : Nat → String) : ExecM E F (List (Array2 F)) := do
  let concatMasked ← buildPerSequenceMasked hidden masks dataN batchSize
  let outs ← request handles concatMasked wrongCount
  let results ← orPanic (outs.mapM (unmaskPerSequence masks dataN batchSize))
  returnPerSeqApplyScratch concatMasked
  return results

def manyCount (expected got : Nat) : String := s!"engine.matmul_many returned {got} results; expected {expected}"

def oneCount (got : Nat) : String := s!"engine.run_registered_linear returned {got} results; expected 1"

def only (outs : List (Array2 F)) : ExecM E F (Array2 F) :=
  match outs with
  | out :: _ => return out
  | [] => throw (.panic "len checked above")

def offloadLinear (handle : WeightHandle) (hidden : Array2 F) : ExecM E F (Array2 F) := do
  let s ← get
  match s.session with
  | some (.perSequence masks dataN batchSize) =>
    if hidden.nrows ≠ batchSize * dataN then
      throw (.panic s!"offload_linear_per_sequence: hidden has {hidden.nrows} rows; expected B*data_n = {batchSize}*{dataN} = {batchSize * dataN}")
    else if !s.perForwardMask then
      throw (.error "PerSequence session but per_forward_mask is false — batched offload requires paper-parity mode")
    else
      let outs ← offloadPerSequence [handle] hidden masks dataN batchSize oneCount
      only outs
  | _ =>
    let outs ← offloadSingle [handle] hidden oneCount
    only outs

def offloadTogether (handles : List WeightHandle) (hidden : Array2 F) : ExecM E F (List (Array2 F)) := do
  let s ← get
  match s.session with
  | some (.perSequence masks dataN batchSize) =>
    offloadPerSequence handles hidden masks dataN batchSize (manyCount handles.length)
  | _ => offloadSingle handles hidden (manyCount handles.length)

def offloadQkv (layer : Nat) (hidden : Array2 F) : ExecM E F (Array2 F × Array2 F × Array2 F) := do
  let outs ← offloadTogether [⟨layer,.q⟩,⟨layer,.k⟩,⟨layer,.v⟩] hidden
  match outs with
  | [q,k,v] => return (q,k,v)
  | _ => throw (.panic "len checked above")

def offloadLinearMany (handles : List WeightHandle) (hidden : Array2 F) : ExecM E F (List (Array2 F)) :=
  if handles.isEmpty then return []
  else offloadTogether handles hidden

end InProcessTrustedExecutor
end Gelo
