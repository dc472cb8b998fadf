import GeloLightrag.Gelo.ReferenceRuntime
import GeloLightrag.Gelo.ShieldRows

set_option linter.unusedSectionVars false

namespace Gelo
open Foundation Array2

-- The executor inside; the identities and the issuer of evidence enter no call.
structure SnpTrustedExecutor (E F : Type) [Field F] [LinearOrder F] where
  inner : FullExecutor E F

namespace SnpTrustedExecutor
variable {E F : Type} [Field F] [LinearOrder F] [IsStrictOrderedRing F] [Platform F] [Sampling F] [Exponential F]
  [GpuOffloadEngine E F] [RuntimeEngine E F]

def forward {α : Type} (x : FullM E F α) : EStateM Fault (SnpTrustedExecutor E F) α := fun s =>
  match x s.inner with
  | .ok a inner => .ok a ⟨inner⟩
  | .error e inner => .error e ⟨inner⟩

instance trusted : TrustedExecutor (SnpTrustedExecutor E F) F where
  beginForwardPass n := forward (TrustedExecutor.beginForwardPass n)
  endForwardPass := forward TrustedExecutor.endForwardPass
  provisionWeight handle weight := forward (TrustedExecutor.provisionWeight handle weight)
  provisionWeightShared handle weight := forward (TrustedExecutor.provisionWeightShared handle weight)
  provisionWeightBf16 handle weight := forward (TrustedExecutor.provisionWeightBf16 handle weight)
  provisionWeightBf16Shared handle weight := forward (TrustedExecutor.provisionWeightBf16Shared handle weight)
  offloadLinear handle hidden := forward (TrustedExecutor.offloadLinear handle hidden)
  offloadQkv layer hidden := forward (TrustedExecutor.offloadQkv layer hidden)
  offloadLinearMany handles hidden := forward (TrustedExecutor.offloadLinearMany handles hidden)
  setRngStream stream := forward (TrustedExecutor.setRngStream stream)
  offloadAttentionQkt q kt := forward (TrustedExecutor.offloadAttentionQkt q kt)
  offloadAttentionQktBatched q kt := forward (TrustedExecutor.offloadAttentionQktBatched q kt)

-- The same outcome with the executor inside the wrapper.
def carried {α : Type} : EStateM.Result Fault (FullExecutor E F) α → EStateM.Result Fault (SnpTrustedExecutor E F) α
  | .ok a t => .ok a ⟨t⟩
  | .error e t => .error e ⟨t⟩

theorem carried_injective {α : Type} {x y : EStateM.Result Fault (FullExecutor E F) α} (same : carried x = carried y) : x = y := by
  cases x with
  | ok a t => cases y with
    | ok b u => cases same; rfl
    | error e u => cases same
  | error e t => cases y with
    | ok b u => cases same
    | error e' u => cases same; rfl

theorem forward_run {α : Type} (x : FullM E F α) (s : FullExecutor E F) : forward x ⟨s⟩ = carried (x s) := by
  unfold forward carried
  cases x s <;> rfl

section Replies
variable {α : Type} {reply : α → TrustedReply F} {x : FullM E F α} {y : EStateM Fault (SnpTrustedExecutor E F) α}
  {s : FullExecutor E F}

theorem replying_carried (same : y ⟨s⟩ = carried (x s)) : replying reply y ⟨s⟩ = carried (replying reply x s) := by
  unfold replying
  cases ran : x s with
  | ok a t => rw [ran] at same; rw [bind_ok ran,bind_ok same]; rfl
  | error e t => rw [ran] at same; rw [bind_error ran,bind_error same]; rfl

theorem carried_of_replying (injective : Function.Injective reply)
    (same : replying reply y ⟨s⟩ = carried (replying reply x s)) : y ⟨s⟩ = carried (x s) := by
  unfold replying at same
  cases ran : x s with
  | ok a t =>
    rw [bind_ok ran] at same
    cases ran' : y ⟨s⟩ with
    | ok b u =>
      rw [bind_ok ran'] at same
      obtain ⟨values,states⟩ := EStateM.Result.ok.inj same
      cases injective values
      cases states
      rfl
    | error e u => rw [bind_error ran'] at same; cases same
  | error e t =>
    rw [bind_error ran] at same
    cases ran' : y ⟨s⟩ with
    | ok b u => rw [bind_ok ran'] at same; cases same
    | error e' u => rw [bind_error ran'] at same; cases same; rfl

end Replies

-- The shield of a decode step under one shared mask.
def sharedShield (s : InProcessTrustedExecutor E F) (batchSize : Nat) : ShieldConfig F :=
  ⟨shieldKForBatch batchSize (max s.shieldDefault.k 1),s.shieldDefault.energyScale⟩

-- Where the trait's own body does what the executor inside would: the pass of a
-- batch, outside the per-forward mode, or a decode step whose shared mask is the one of a
-- single pass. A cached attention stops alike where the position overflows.
def PrefillAlike (s : InProcessTrustedExecutor E F) : Prop := s.perForwardMask = false

def DecodeAlike (s : InProcessTrustedExecutor E F) (shared : Bool) (batchSize : Nat) : Prop :=
  s.perForwardMask = false ∨ (shared = true ∧ 0 < batchSize ∧ s.shieldFor batchSize = sharedShield s batchSize)

def Forwards (s : FullExecutor E F) : TrustedCall F → Prop
  | .beginPrefillPass _ _ => PrefillAlike s.core
  | .beginDecodePass shared batchSize => DecodeAlike s.core shared batchSize
  | .beginForwardSession _ (.prefillBatch _ _) => PrefillAlike s.core
  | .beginForwardSession shared (.decodeBatch batchSize) => DecodeAlike s.core shared batchSize
  | .provisionPleTable _ => False
  | .pleGather _ _ => False
  | .offloadAttentionPermuted _ _ _ _ _ => False
  | .offloadAttentionPermutedCached q k v _ qPosOffset _ => Overflows q k v qPosOffset
  | _ => True

section Sessions
open InProcessTrustedExecutor

theorem enterSingle_ends (some : 0 < n) (shield : ShieldConfig F) (s : InProcessTrustedExecutor E F) :
    Ends (enterSingle n shield) s (fun _ t => t.shield = shield ∧ ∃ mask, t.session = .some (.single mask n)) (fun _ _ => False) := by
  refine .after (modify_run _ s) (.bind (drawFor_size (by omega) _) fun mask t _ drawn => .ok (modify_run _ t) ?_)
  exact ⟨drawn.1.shield,mask,rfl⟩

theorem enterBatch_ends (some : 0 < n) (batchSize : Nat) (shield : ShieldConfig F) (s : InProcessTrustedExecutor E F) :
    Ends (enterBatch batchSize n shield) s (fun _ t => ∃ masks, t.session = .some (.perSequence masks n batchSize)) (fun _ _ => False) :=
  .after (modify_run _ s) (.bind (drawMasks_size (by omega) _ _) fun masks t _ _ => .ok (modify_run _ t) ⟨masks,rfl⟩)

theorem beginForwardPass_run (n : Nat) (s : InProcessTrustedExecutor E F) :
    beginForwardPass n s = if s.perForwardMask then enterSingle n (s.shieldFor n) s else .ok () s := by
  unfold beginForwardPass
  rw [bind_ok (get_run s)]
  split <;> rfl

theorem beginPrefillPass_run (batchSize n : Nat) (s : InProcessTrustedExecutor E F) :
    beginPrefillPass batchSize n s = if s.perForwardMask then
      if batchSize = 0 then .error (.error "begin_prefill_pass: batch_size must be > 0") s
      else if n = 0 then .error (.error "begin_prefill_pass: n_max must be > 0") s
      else enterBatch batchSize n (s.shieldFor n) s else .ok () s := by
  unfold beginPrefillPass
  rw [bind_ok (get_run s)]
  split
  · split
    · rfl
    · split <;> rfl
  · rfl

theorem beginDecodePass_run (shared : Bool) (batchSize : Nat) (s : InProcessTrustedExecutor E F) :
    beginDecodePass shared batchSize s = if s.perForwardMask then
      if batchSize = 0 then .error (.error "begin_decode_pass: batch_size must be > 0") s
      else if shared then enterSingle batchSize (sharedShield s batchSize) s
      else enterBatch batchSize 1 (s.shieldFor 1) s else .ok () s := by
  unfold beginDecodePass
  rw [bind_ok (get_run s)]
  split
  · split
    · rfl
    · split <;> rfl
  · rfl

-- One mask over all rows is not one mask for each sequence.
theorem single_ne_batch {s : InProcessTrustedExecutor E F} (rows : 0 < m) (some : 0 < n) (shield shield' : ShieldConfig F) :
    enterSingle m shield s ≠ enterBatch batchSize n shield' s := by
  intro same
  have one := enterSingle_ends rows shield s
  have many := enterBatch_ends some batchSize shield' s
  unfold Ends at one many
  cases ran : enterSingle m shield s with
  | ok a t =>
    rw [ran] at one same
    rw [←same] at many
    obtain ⟨_,mask,single⟩ := one
    obtain ⟨masks,batch⟩ := many
    rw [single] at batch
    cases batch
  | error e t => rw [ran] at one; exact one

theorem drawMask_panics (resolved : MaskKind) (rows : Nat) (s : InProcessTrustedExecutor E F) :
    Ends (drawMask resolved rows) s (fun _ _ => True) (fun fault _ => ∃ text, fault = .panic text) := by
  cases sampled : sampleMask (F:=F) resolved rows s.rng with
  | ok drawn => exact .ok (drawMask_ok sampled) trivial
  | error text => exact .error (drawMask_error sampled) ⟨text,rfl⟩

-- A pass that cannot draw its mask panics; an empty batch is refused.
theorem enterSingle_panics (n : Nat) (shield : ShieldConfig F) (s : InProcessTrustedExecutor E F) :
    Ends (enterSingle n shield) s (fun _ _ => True) (fun fault _ => ∃ text, fault = .panic text) := by
  refine .after (modify_run _ s) (.bind (.after (get_run _) (drawMask_panics _ _ _)) fun mask t _ _ => ?_)
  exact .ok (modify_run _ t) trivial

theorem single_ne_refusal (n : Nat) (shield : ShieldConfig F) (s t : InProcessTrustedExecutor E F) (text : String) :
    enterSingle n shield s ≠ .error (.error text) t := by
  intro same
  obtain ⟨_,panics⟩ := (enterSingle_panics n shield s).at_error same
  cases panics

theorem prefill_core (batchSize n : Nat) (s : InProcessTrustedExecutor E F) :
    beginForwardPass (saturatingMul batchSize n) s = beginPrefillPass batchSize n s ↔ PrefillAlike s := by
  rw [beginForwardPass_run,beginPrefillPass_run]
  unfold PrefillAlike
  cases per : s.perForwardMask with
  | false => simp
  | true =>
    simp only [if_true,Bool.true_eq_false,iff_false]
    split
    · exact single_ne_refusal _ _ _ _ _
    · split
      · exact single_ne_refusal _ _ _ _ _
      · rename_i sequences rows
        have wide : 0 < saturatingMul batchSize n :=
          Nat.lt_min.mpr ⟨Nat.mul_pos (Nat.pos_of_ne_zero sequences) (Nat.pos_of_ne_zero rows),by decide⟩
        exact single_ne_batch wide (Nat.pos_of_ne_zero rows) _ _

theorem decode_core (shared : Bool) (batchSize : Nat) (s : InProcessTrustedExecutor E F) :
    beginForwardPass batchSize s = beginDecodePass shared batchSize s ↔ DecodeAlike s shared batchSize := by
  rw [beginForwardPass_run,beginDecodePass_run]
  unfold DecodeAlike
  cases per : s.perForwardMask with
  | false => simp
  | true =>
    simp only [if_true,Bool.true_eq_false,false_or]
    split
    · rename_i none
      exact ⟨fun same => absurd same (single_ne_refusal _ _ _ _ _),fun alike => by omega⟩
    · rename_i sequences
      have some := Nat.pos_of_ne_zero sequences
      cases shared with
      | false => exact ⟨fun same => absurd same (single_ne_batch some Nat.one_pos _ _),fun alike => by cases alike.1⟩
      | true =>
        refine ⟨fun same => ⟨rfl,some,?_⟩,fun alike => by rw [alike.2.2]; rfl⟩
        have one := enterSingle_ends some (s.shieldFor batchSize) s
        have other := enterSingle_ends some (sharedShield s batchSize) s
        unfold Ends at one other
        rw [same] at one
        cases ran : enterSingle batchSize (sharedShield s batchSize) s with
        | ok a t =>
          simp only [if_true,ran] at one other
          exact one.1.symm.trans other.1
        | error e t => rw [ran] at other; exact other.elim

end Sessions

section Attention

def lastState {ε σ α : Type} : EStateM.Result ε σ α → σ
  | .ok _ t => t
  | .error _ t => t

theorem lastState_carried {α : Type} (x : EStateM.Result Fault (FullExecutor E F) α) : lastState (carried x) = ⟨lastState x⟩ := by
  cases x <;> rfl

-- The trait's own attention ends where it began: with a value, with a panic, or with a
-- refusal of its own.
inductive OwnBody {α : Type} (s : SnpTrustedExecutor E F) : EStateM.Result Fault (SnpTrustedExecutor E F) α → Prop where
  | value (out : α) : OwnBody s (.ok out s)
  | panic (text : String) : OwnBody s (.error (.panic text) s)
  | refusal (text : String) : Opens 'o' text → OwnBody s (.error (.error text) s)

theorem OwnBody.still {α : Type} {s : SnpTrustedExecutor E F} {r : EStateM.Result Fault (SnpTrustedExecutor E F) α}
    (own : OwnBody s r) : lastState r = s := by
  cases own <;> rfl

theorem OwnBody.refused_ne {α : Type} {s : SnpTrustedExecutor E F} {r : EStateM.Result Fault (SnpTrustedExecutor E F) α}
    (own : OwnBody s r) (opens : Opens 'p' text) (t : FullExecutor E F) : r ≠ carried (.error (.error text) t) := by
  cases own with
  | value out => exact fun same => by cases same
  | panic text' => exact fun same => by cases same
  | refusal text' opens' =>
    intro same
    obtain ⟨faults,_⟩ := EStateM.Result.error.inj same
    exact opens'.ne opens (by decide) (Fault.error.inj faults)

theorem permuted_own (q k v : Array3 F) (scale : F) (mask : AttentionMask) (s : SnpTrustedExecutor E F) :
    OwnBody s ((TrustedExecutor.offloadAttentionPermuted q k v scale mask : EStateM Fault (SnpTrustedExecutor E F) _) s) := by
  show OwnBody s ((match plainAttention q k v scale 0 mask with
    | .ok out => return out
    | .error text => throw (.panic text) : EStateM Fault (SnpTrustedExecutor E F) (Array3 F)) s)
  cases plainAttention q k v scale 0 mask with
  | ok out => exact .value out
  | error text => exact .panic text

theorem permuted_cached_body (q k v : Array3 F) (scale : F) (qPosOffset : Nat) (mask : AttentionMask) :
    (TrustedExecutor.offloadAttentionPermutedCached q k v scale qPosOffset mask :
      EStateM Fault (SnpTrustedExecutor E F) (Array3 F)) =
    if k.rows < q.rows then throw (.error s!"offload_attention_permuted_cached: n_q ({q.rows}) > n_kv ({k.rows})")
    else if 2 ^ 64 ≤ qPosOffset + q.rows then throw (.panic "attempt to add with overflow")
    else if k.rows < qPosOffset + q.rows then
      throw (.error s!"offload_attention_permuted_cached: q_pos_offset ({qPosOffset}) + n_q ({q.rows}) must be ≤ n_kv ({k.rows})")
    else match plainAttention q k v scale qPosOffset mask with
      | .ok out => return out
      | .error text => throw (.panic text) := rfl

theorem permuted_cached_own (q k v : Array3 F) (scale : F) (qPosOffset : Nat) (mask : AttentionMask) (s : SnpTrustedExecutor E F) :
    OwnBody s ((TrustedExecutor.offloadAttentionPermutedCached q k v scale qPosOffset mask :
      EStateM Fault (SnpTrustedExecutor E F) _) s) := by
  rw [permuted_cached_body]
  split
  · exact .refusal _ (by simp [Opens,toString])
  · split
    · exact .panic _
    · split
      · exact .refusal _ (by simp [Opens,toString])
      · cases plainAttention q k v scale qPosOffset mask with
        | ok out => exact .value out
        | error text => exact .panic text

theorem lend_throw {α : Type} {x : FullExecutor E F → OffloadM E α} {s : FullExecutor E F} (throws : x s = throw fault) :
    lend x s = .error fault s := by
  unfold lend
  rw [throws]
  rfl

theorem lend_asks {α : Type} {x : FullExecutor (Recorded E F) F → OffloadM (Recorded E F) α} {s : FullExecutor (Recorded E F) F}
    (asks : Asks (x s)) : lastState (lend x s) ≠ s := by
  intro same
  have kept := congrArg (fun t => t.core.engine.transcript) same
  have crossed := asks ⟨s.core.engine,s.core.rng⟩
  unfold Ends at crossed
  unfold lend at kept
  cases ran : x s ⟨s.core.engine,s.core.rng⟩ with
  | ok a left =>
    rw [ran] at crossed kept
    obtain ⟨one,new,longer⟩ := crossed
    exact absurd (List.append_right_eq_self.mp (longer.symm.trans kept)) (List.cons_ne_nil one new)
  | error e left =>
    rw [ran] at crossed kept
    obtain ⟨one,new,longer⟩ := crossed
    exact absurd (List.append_right_eq_self.mp (longer.symm.trans kept)) (List.cons_ne_nil one new)

theorem OwnBody.asked_ne {α : Type} {x : FullExecutor (Recorded E F) F → OffloadM (Recorded E F) α} {s : FullExecutor (Recorded E F) F}
    {r : EStateM.Result Fault (SnpTrustedExecutor (Recorded E F) F) α} (own : OwnBody ⟨s⟩ r) (asks : Asks (x s)) :
    r ≠ carried (lend x s) := by
  intro same
  have states := congrArg lastState same
  rw [own.still,lastState_carried] at states
  exact lend_asks asks (congrArg SnpTrustedExecutor.inner states).symm

theorem permuted_ne (q k v : Array3 F) (scale : F) (mask : AttentionMask) (s : FullExecutor (Recorded E F) F) :
    (TrustedExecutor.offloadAttentionPermuted q k v scale mask : EStateM Fault (SnpTrustedExecutor (Recorded E F) F) _) ⟨s⟩ ≠
      carried ((TrustedExecutor.offloadAttentionPermuted q k v scale mask : FullM (Recorded E F) F _) s) := by
  have own := permuted_own q k v scale mask (⟨s⟩ : SnpTrustedExecutor (Recorded E F) F)
  show _ ≠ carried (lend (fun s => permutedAttention q k v scale mask s.permAttn) s)
  rcases permutedAttention_cases (E:=Recorded E F) q k v scale mask s.permAttn with ⟨text,opens,refused⟩ | ⟨_,_,asked⟩
  · rw [lend_throw (x:=fun s => permutedAttention q k v scale mask s.permAttn) refused]
    exact own.refused_ne opens s
  · refine own.asked_ne (x:=fun s => permutedAttention q k v scale mask s.permAttn) ?_
    rw [asked]
    exact Draws.asks (draw_draws _) fun perm => permutedAttentionUnder_asks _ _ _ _ _ _ _

theorem permuted_cached_iff (q k v : Array3 F) (scale : F) (qPosOffset : Nat) (mask : AttentionMask)
    (s : FullExecutor (Recorded E F) F) :
    (TrustedExecutor.offloadAttentionPermutedCached q k v scale qPosOffset mask :
        EStateM Fault (SnpTrustedExecutor (Recorded E F) F) _) ⟨s⟩ =
      carried ((TrustedExecutor.offloadAttentionPermutedCached q k v scale qPosOffset mask : FullM (Recorded E F) F _) s) ↔
      Overflows q k v qPosOffset := by
  have own := permuted_cached_own q k v scale qPosOffset mask (⟨s⟩ : SnpTrustedExecutor (Recorded E F) F)
  show _ = carried (lend (fun s => permutedAttentionCached q k v scale qPosOffset mask s.permAttn) s) ↔ _
  rcases permutedAttentionCached_cases (E:=Recorded E F) q k v scale qPosOffset mask s.permAttn with
    ⟨text,opens,within,refused⟩ | ⟨over_,stopped⟩ | ⟨within,_,asked⟩
  · rw [lend_throw (x:=fun s => permutedAttentionCached q k v scale qPosOffset mask s.permAttn) refused]
    exact ⟨fun same => absurd same (own.refused_ne opens s),fun over_ => absurd over_ within⟩
  · rw [lend_throw (x:=fun s => permutedAttentionCached q k v scale qPosOffset mask s.permAttn) stopped]
    refine ⟨fun _ => over_,fun _ => ?_⟩
    rw [permuted_cached_body,if_neg (Nat.not_lt.mpr over_.1.2.2),if_pos over_.2]
    rfl
  · refine ⟨fun same => absurd same (own.asked_ne (x:=fun s => permutedAttentionCached q k v scale qPosOffset mask s.permAttn) ?_),
      fun over_ => absurd over_ within⟩
    rw [asked]
    exact Draws.asks (draw_draws _) fun permQ => Draws.asks (draw_draws _) fun permKv =>
      permutedAttentionCachedUnder_asks _ _ _ _ _ _ _ _ _

end Attention

section Calls
variable {s : FullExecutor (Recorded E F) F}

theorem onCore_eq {α : Type} {x y : ExecM E F α} {s : FullExecutor E F} : onCore x s = onCore y s ↔ x s.core = y s.core := by
  refine ⟨fun same => ?_,fun same => by unfold onCore; rw [same]⟩
  unfold onCore at same
  cases left : x s.core with
  | ok a core => cases right : y s.core with
    | ok b core' => rw [left,right] at same; cases same; rfl
    | error e core' => rw [left,right] at same; cases same
  | error e core => cases right : y s.core with
    | ok b core' => rw [left,right] at same; cases same
    | error e' core' => rw [left,right] at same; cases same; rfl

theorem prefill_iff (batchSize n : Nat) (s : FullExecutor E F) :
    (TrustedExecutor.beginPrefillPass batchSize n : EStateM Fault (SnpTrustedExecutor E F) Unit) ⟨s⟩ =
      carried ((TrustedExecutor.beginPrefillPass batchSize n : FullM E F Unit) s) ↔ PrefillAlike s.core := by
  have own : (TrustedExecutor.beginPrefillPass batchSize n : EStateM Fault (SnpTrustedExecutor E F) Unit) ⟨s⟩ =
      carried (onCore (InProcessTrustedExecutor.beginForwardPass (saturatingMul batchSize n)) s) := forward_run _ s
  rw [own,←prefill_core batchSize n s.core,←onCore_eq]
  exact ⟨carried_injective,fun same => congrArg carried same⟩

theorem decode_iff (shared : Bool) (batchSize : Nat) (s : FullExecutor E F) :
    (TrustedExecutor.beginDecodePass shared batchSize : EStateM Fault (SnpTrustedExecutor E F) Unit) ⟨s⟩ =
      carried ((TrustedExecutor.beginDecodePass shared batchSize : FullM E F Unit) s) ↔ DecodeAlike s.core shared batchSize := by
  have own : (TrustedExecutor.beginDecodePass shared batchSize : EStateM Fault (SnpTrustedExecutor E F) Unit) ⟨s⟩ =
      carried (onCore (InProcessTrustedExecutor.beginForwardPass batchSize) s) := forward_run _ s
  rw [own,←decode_core shared batchSize s.core,←onCore_eq]
  exact ⟨carried_injective,fun same => congrArg carried same⟩

theorem replying_iff {α : Type} {reply : α → TrustedReply F} {x : FullM E F α} {y : EStateM Fault (SnpTrustedExecutor E F) α}
    {s : FullExecutor E F} (injective : Function.Injective reply) :
    replying reply y ⟨s⟩ = carried (replying reply x s) ↔ y ⟨s⟩ = carried (x s) :=
  ⟨carried_of_replying injective,replying_carried⟩

theorem done_injective : Function.Injective fun _ : Unit => (.done : TrustedReply F) := fun _ _ _ => rfl

def gathered : Option (PleTable F) → List Nat → Nat → FullM E F (Array2 F)
  | none,_,_ => throw (.error "ple_gather: no PLE table provisioned")
  | some table,tokenIds,layerIdx =>
    match table.gather tokenIds layerIdx with
    | .ok rows => return rows
    | .error text => throw (.error text)

theorem gather_ne (tokenIds : List Nat) (layerIdx : Nat) (s : FullExecutor E F) :
    (TrustedExecutor.pleGather tokenIds layerIdx : EStateM Fault (SnpTrustedExecutor E F) (Array2 F)) ⟨s⟩ ≠
      carried ((TrustedExecutor.pleGather tokenIds layerIdx : FullM E F (Array2 F)) s) := by
  have own : (TrustedExecutor.pleGather tokenIds layerIdx : EStateM Fault (SnpTrustedExecutor E F) (Array2 F)) ⟨s⟩ =
      .error (.error "TrustedExecutor: ple_gather called without a provisioned PLE table") ⟨s⟩ := rfl
  have inside : (TrustedExecutor.pleGather tokenIds layerIdx : FullM E F (Array2 F)) s = gathered s.pleTable tokenIds layerIdx s := by
    rcases s with ⟨core,permAttn,_ | table⟩ <;> rfl
  rw [own,inside]
  intro same
  cases provisioned : s.pleTable with
  | none =>
    rw [provisioned] at same
    obtain ⟨faults,_⟩ := EStateM.Result.error.inj same
    exact absurd (Fault.error.inj faults) (by decide)
  | some table =>
    rw [provisioned] at same
    unfold gathered at same
    cases found : table.gather tokenIds layerIdx with
    | ok rows => simp only [found] at same; cases same
    | error text =>
      simp only [found] at same
      obtain ⟨faults,_⟩ := EStateM.Result.error.inj same
      have opens : Opens 'T' "TrustedExecutor: ple_gather called without a provisioned PLE table" := by simp [Opens]
      exact opens.ne (PleTable.gather_refuses found) (by decide) (Fault.error.inj faults)

-- One call comes out alike exactly where it is forwarded or the trait's body does the same.
theorem answer_iff (s : FullExecutor (Recorded E F) F) (call : TrustedCall F) :
    answer call (⟨s⟩ : SnpTrustedExecutor (Recorded E F) F) = carried (answer call s) ↔ Forwards s call := by
  cases call with
  | beginPrefillPass batchSize n => exact (replying_iff done_injective).trans (prefill_iff batchSize n s)
  | beginDecodePass shared batchSize => exact (replying_iff done_injective).trans (decode_iff shared batchSize s)
  | beginForwardSession shared shape =>
    cases shape with
    | single n => exact iff_of_true (replying_carried (forward_run _ s)) trivial
    | prefillBatch batchSize n => exact (replying_iff done_injective).trans (prefill_iff batchSize n s)
    | decodeBatch batchSize => exact (replying_iff done_injective).trans (decode_iff shared batchSize s)
  | provisionPleTable table => exact iff_of_false (fun same => by cases same) id
  | pleGather tokenIds layerIdx =>
    exact iff_of_false (fun same => gather_ne tokenIds layerIdx s (carried_of_replying (fun a b same => by cases same; rfl) same)) id
  | offloadAttentionPermuted q k v scale mask =>
    exact iff_of_false (fun same => permuted_ne q k v scale mask s (carried_of_replying (fun a b same => by cases same; rfl) same)) id
  | offloadAttentionPermutedCached q k v scale qPosOffset mask =>
    exact (replying_iff fun a b same => by cases same; rfl).trans (permuted_cached_iff q k v scale qPosOffset mask s)
  | provisionWeight handle weight => exact iff_of_true (replying_carried (forward_run _ s)) trivial
  | provisionWeightShared handle weight => exact iff_of_true (replying_carried (forward_run _ s)) trivial
  | provisionWeightBf16 handle weight => exact iff_of_true (replying_carried (forward_run _ s)) trivial
  | provisionWeightBf16Shared handle weight => exact iff_of_true (replying_carried (forward_run _ s)) trivial
  | beginForwardPass n => exact iff_of_true (replying_carried (forward_run _ s)) trivial
  | endForwardPass => exact iff_of_true (replying_carried (forward_run _ s)) trivial
  | setRngStream stream => exact iff_of_true (replying_carried (forward_run _ s)) trivial
  | offloadLinear handle hidden => exact iff_of_true (replying_carried (forward_run _ s)) trivial
  | offloadQkv layer hidden => exact iff_of_true (replying_carried (forward_run _ s)) trivial
  | offloadLinearMany handles hidden => exact iff_of_true (replying_carried (forward_run _ s)) trivial
  | offloadAttentionQkt q kt => exact iff_of_true (replying_carried (forward_run _ s)) trivial
  | offloadAttentionQktBatched q kt => exact iff_of_true (replying_carried (forward_run _ s)) trivial

theorem respond_iff (s : FullExecutor (Recorded E F) F) (call : TrustedCall F) :
    respond (⟨s⟩ : SnpTrustedExecutor (Recorded E F) F) call = (respond s call).map (fun out => (out.1,⟨out.2⟩)) ↔ Forwards s call := by
  rw [←answer_iff]
  unfold respond
  cases answer call (⟨s⟩ : SnpTrustedExecutor (Recorded E F) F) with
  | ok reply t => cases answer call s with
    | ok reply' t' => simp [carried]
    | error fault t' => simp [carried]
  | error fault t => cases answer call s with
    | ok reply' t' => simp [carried]
    | error fault' t' => simp [carried]

end Calls

section Example

noncomputable instance realSampling : Sampling ℝ := unshuffled ℝ

theorem replying_core {x : ExecM E F Unit} {s : FullExecutor E F} (ran : x s.core = .ok () t) :
    replying (fun _ => (.done : TrustedReply F)) (onCore x) s = .ok .done {s with core:=t} := by
  have lifted : onCore x s = .ok () {s with core:=t} := by unfold onCore; rw [ran]
  exact bind_ok lifted

-- A fresh executor, in the per-forward mode.
noncomputable def fresh : FullExecutor (Recorded (ReferenceCpuEngine ℝ) ℝ) ℝ :=
  ⟨.withSeed ⟨⟨fun _ => none⟩,[]⟩ [],⟨((0 : Nat) : ℝ),((30 : Nat) : ℝ),false⟩,none⟩

end Example

end SnpTrustedExecutor
end Gelo
