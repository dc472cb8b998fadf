import GeloLightrag.Foundation.Softmax
import GeloLightrag.Gelo.ReferenceRuntime
import Mathlib.Order.Interval.Finset.Fin

set_option linter.unusedSectionVars false

namespace Gelo
open Foundation Array2

section Sent
variable {F : Type} [Field F] [LinearOrder F] [IsStrictOrderedRing F] [Platform F] [Exponential F]

-- What an engine that multiplies as it is told has been sent and has answered, whether
-- the program then stopped or not.
def heard {E α : Type} (x : OffloadM (Recorded E F) α) (s : Offload (Recorded E F)) : List (Exchange F) :=
  match x s with
  | .ok _ t => t.engine.transcript
  | .error _ t => t.engine.transcript

theorem heard_of {E α : Type} {x : OffloadM (Recorded E F) α} {s : Offload (Recorded E F)} {new : List (Exchange F)}
    (ends : Ends x s (fun _ t => Crossed new s t) (fun _ t => Crossed new s t)) : heard x s = s.engine.transcript ++ new := by
  unfold heard
  unfold Ends at ends
  cases ran : x s with
  | ok a t => rw [ran] at ends; exact ends
  | error e t => rw [ran] at ends; exact ends

def product (lhs rhs : Array3 F) : Array3 F := .of lhs.planes lhs.rows rhs.cols fun b => ((lhs.plane b).dot (rhs.plane b)).entry

omit [LinearOrder F] [IsStrictOrderedRing F] [Platform F] [Exponential F] in
theorem matmulDynamicBatched_fits {a b : Array3 F} (planes : b.planes = a.planes) (inner : b.rows = a.cols) :
    ReferenceCpuEngine.matmulDynamicBatched a b = .ok (product a b) := by
  have each (p : Nat) : ReferenceCpuEngine.matmulDynamic (a.plane p) (b.plane p) = .ok ((a.plane p).dot (b.plane p)) :=
    if_pos inner.symm
  unfold ReferenceCpuEngine.matmulDynamicBatched
  rw [if_neg (by simp [planes,inner])]
  simp only [each]
  rw [mapM_ok (g:=fun p => (a.plane p).dot (b.plane p)) _ fun _ _ => rfl]
  exact congrArg Except.ok (Array3.stack_range _ _ _ _)

def penalty (mask : AttentionMask) (neg : F) (blocked : Nat → Nat → Bool) (i j : Nat) : F :=
  match mask with
  | .none => 0
  | .causal => fined (-neg) (blocked i j)

def penalised (mask : AttentionMask) (neg : F) (blocked : Nat → Nat → Bool) (scores : Array3 F) : Array3 F :=
  .of scores.planes scores.rows scores.cols fun h i j => scores.at_ h i j + penalty mask neg blocked i j

theorem addMask_fits (mask : AttentionMask) (neg : F) (blocked : Nat → Nat → Bool) (scores : Array3 F) :
    addMask mask neg blocked scores.planes scores.rows scores.cols scores = .ok (penalised mask neg blocked scores) := by
  unfold addMask penalised penalty
  cases mask with
  | none => simp only [add_zero,Array3.of_self]
  | causal =>
    dsimp only
    rw [if_pos (.inr ⟨Nat.le_refl _,Nat.le_refl _,Nat.le_refl _⟩)]
    refine congrArg Except.ok (Array3.of_congr fun h plane i row j col => ?_)
    simp only [plane,row,col,true_and,fined]

theorem softmaxHeads_fits (scores : Array3 F) :
    softmaxHeads scores.planes scores.rows scores.cols scores = .ok (ReferenceCpuEngine.softmaxBatched scores) := by
  unfold softmaxHeads
  rw [mapM_ok (g:=fun h => softmaxRowwise (scores.plane h)) _ fun h inside => ?_]
  · exact congrArg Except.ok (Array3.stack_range _ _ _ _)
  · unfold indexAxis
    rw [if_pos (List.mem_range.mp inside)]
    exact spread_fits (softmaxRowwise (scores.plane h))

def scoresOf (q k : Array3 F) : Array3 F := product q k.transposed

def probsOf (q k : Array3 F) (scale : F) (mask : AttentionMask) (neg : F) (blocked : Nat → Nat → Bool) : Array3 F :=
  ReferenceCpuEngine.softmaxBatched (penalised mask neg blocked (scaled scale (scoresOf q k)))

-- The two products of an attention whose softmax stays on this side.
def sent (q k v : Array3 F) (scale : F) (mask : AttentionMask) (neg : F) (blocked : Nat → Nat → Bool) : List (Exchange F) :=
  let probs := probsOf q k scale mask neg blocked
  [.runtimeMatmul q k.transposed (.ok (scoresOf q k)),.runtimeMatmul probs v (.ok (product probs v))]

theorem attendWithSoftmaxHere_sends {q k v : Array3 F} (keys : dims k = (q.planes,k.rows,q.cols))
    (values : dims v = (q.planes,k.rows,q.cols)) (scale : F) (mask : AttentionMask) (neg : F) (blocked : Nat → Nat → Bool)
    (s : Offload (Recorded (ReferenceCpuEngine F) F)) :
    Ends (attendWithSoftmaxHere q k v scale mask neg blocked) s (fun _ t => Crossed (sent q k v scale mask neg blocked) s t)
      (fun _ _ => False) := by
  obtain ⟨planes,rest⟩ := Prod.mk.inj keys
  obtain ⟨_,width⟩ := Prod.mk.inj rest
  obtain ⟨planes',rest'⟩ := Prod.mk.inj values
  obtain ⟨rows',_⟩ := Prod.mk.inj rest'
  have first : (RuntimeEngine.runRuntimeMatmul q k.transposed s.engine).1 = .ok (scoresOf q k) :=
    matmulDynamicBatched_fits planes width
  refine .after (ask_ok first) ?_
  have masked : addMask mask neg blocked q.planes q.rows k.rows (scaled scale (scoresOf q k)) =
      .ok (penalised mask neg blocked (scaled scale (scoresOf q k))) := addMask_fits mask neg blocked _
  rw [masked]
  refine .after rfl ?_
  have probs : softmaxHeads q.planes q.rows k.rows (penalised mask neg blocked (scaled scale (scoresOf q k))) =
      .ok (probsOf q k scale mask neg blocked) := softmaxHeads_fits _
  rw [probs]
  refine .after rfl ?_
  have second : (RuntimeEngine.runRuntimeMatmul (probsOf q k scale mask neg blocked) v
      (RuntimeEngine.runRuntimeMatmul q k.transposed s.engine).2).1 = .ok (product (probsOf q k scale mask neg blocked) v) :=
    matmulDynamicBatched_fits planes' rows'
  refine .ok (ask_ok second) ?_
  have answered : (RuntimeEngine.runRuntimeMatmul q k.transposed s.engine.engine).1 = .ok (scoresOf q k) := first
  have answered' : (RuntimeEngine.runRuntimeMatmul (probsOf q k scale mask neg blocked) v
      (RuntimeEngine.runRuntimeMatmul q k.transposed s.engine).2.engine).1 = .ok (product (probsOf q k scale mask neg blocked) v) := second
  show _ ++ [Exchange.runtimeMatmul _ _ _] ++ [Exchange.runtimeMatmul _ _ _] = _
  rw [answered,List.append_assoc]
  exact congrArg (fun answer => _ ++ ([_] ++ [Exchange.runtimeMatmul _ _ answer])) answered'

theorem noised_quiet {E : Type} {cfg : PermAttnConfig F} (quiet : cfg.noiseSigma = 0) (q k : Array3 F) (s : Offload E) :
    noised cfg q k s = .ok (q,k) s := by
  unfold noised
  rw [if_neg (by rw [quiet]; exact lt_irrefl 0)]
  rfl

theorem orStop_crossed {E α : Type} {new : List (Exchange F)} (x : Except String α) {s t : Offload (Recorded E F)}
    (crossed : Crossed new s t) : Ends (orStop x) t (fun _ u => Crossed new s u) (fun _ u => Crossed new s u) := by
  cases x with
  | ok a => exact crossed
  | error text => exact crossed

theorem ask_crossed {E α : Type} (call : E → Except String α × E) (note : Except String α → Exchange F) (s : Offload (Recorded E F)) :
    Ends (ask (Recorded.record call note)) s (fun _ t => Crossed [note (call s.engine.engine).1] s t)
      (fun _ t => Crossed [note (call s.engine.engine).1] s t) := by
  cases answered : (Recorded.record call note s.engine).1 with
  | ok a => exact .ok (ask_ok answered) rfl
  | error text => exact .error (ask_error answered) rfl

theorem permutedAttentionUnder_heard {cfg : PermAttnConfig F} (quiet : cfg.noiseSigma = 0) {q k v : Array3 F} (keys : dims k = dims q)
    (values : dims v = dims q) (perm : List Nat) (scale : F) (mask : AttentionMask) (s : Offload (Recorded (ReferenceCpuEngine F) F)) :
    heard (permutedAttentionUnder perm q k v scale mask cfg) s = s.engine.transcript ++
      sent (permuteRows perm q) (permuteRows perm k) (permuteRows perm v) scale mask cfg.causalMaskNeg
        fun i j => decide (perm.getD i 0 < perm.getD j 0) := by
  obtain ⟨planes,rest⟩ := Prod.mk.inj keys
  obtain ⟨rows,cols⟩ := Prod.mk.inj rest
  obtain ⟨planes',rest'⟩ := Prod.mk.inj values
  obtain ⟨rows',cols'⟩ := Prod.mk.inj rest'
  have keys_ : dims (permuteRows perm k) = (q.planes,k.rows,q.cols) := by
    show (k.planes,k.rows,k.cols) = _
    rw [planes,cols]
  have values_ : dims (permuteRows perm v) = (q.planes,k.rows,q.cols) := by
    show (v.planes,v.rows,v.cols) = _
    rw [planes',rows',cols',rows]
  refine heard_of (.after (noised_quiet quiet _ _ s) ?_)
  refine Ends.bind ((attendWithSoftmaxHere_sends (q:=permuteRows perm q) keys_ values_ _ _ _ _ s).imp (fun _ _ sends => sends)
    fun _ _ never => never.elim) fun out t _ crossed => ?_
  exact orStop_crossed _ crossed

theorem permutedAttentionCachedUnder_heard {cfg : PermAttnConfig F} (quiet : cfg.noiseSigma = 0) {q k v : Array3 F}
    (shapes : CachedShapes q k v) (permQ permKv : List Nat) (scale : F) (qPosOffset : Nat) (mask : AttentionMask)
    (s : Offload (Recorded (ReferenceCpuEngine F) F)) :
    heard (permutedAttentionCachedUnder permQ permKv q k v scale qPosOffset mask cfg) s = s.engine.transcript ++
      let qPerm := permuteRows permQ q
      let kPerm := permuteRows permKv k
      let vPerm := permuteRows permKv v
      if cfg.decodeSoftmaxOnGpu && maskIsNoop mask q.rows k.rows qPosOffset then
        [.fusedAttention qPerm kPerm vPerm scale none (ReferenceCpuEngine.fusedAttentionBatched qPerm kPerm vPerm scale none)]
      else sent qPerm kPerm vPerm scale mask cfg.causalMaskNeg fun i j => decide (qPosOffset + permQ.getD i 0 < permKv.getD j 0) := by
  refine heard_of (.after (noised_quiet quiet _ _ s) ?_)
  dsimp only
  split
  · exact Ends.bind (ask_crossed _ _ s) fun out t _ crossed => orStop_crossed _ crossed
  · refine Ends.bind ((attendWithSoftmaxHere_sends (q:=permuteRows permQ q) (k:=permuteRows permKv k) (v:=permuteRows permKv v)
      shapes.1 shapes.2.1 _ _ _ _ s).imp (fun _ _ sends => sends) fun _ _ never => never.elim) fun out t _ crossed => ?_
    exact orStop_crossed _ crossed

-- Where the mask changes nothing, or blocks the same, the engine is sent the same.
theorem sent_alike {q k v : Array3 F} {scale : F} {mask : AttentionMask} {neg : F} {blocked blocked' : Nat → Nat → Bool}
    (same : mask = .none ∨ neg = 0 ∨ ∀ i < q.rows, ∀ j < k.rows, blocked i j = blocked' i j) :
    sent q k v scale mask neg blocked = sent q k v scale mask neg blocked' := by
  have probs : probsOf q k scale mask neg blocked = probsOf q k scale mask neg blocked' := by
    refine congrArg ReferenceCpuEngine.softmaxBatched (Array3.of_congr fun h _ i row j col => congrArg _ ?_)
    unfold penalty
    cases mask with
    | none => rfl
    | causal =>
      rcases same with other | flat | same
      · cases other
      · simp [flat,fined]
      · exact congrArg (fined (-neg)) (same i row j col)
  unfold sent
  rw [probs]

theorem transposed_injective {a b : Array3 F} (same : a.transposed = b.transposed) : a = b := by
  have back (c : Array3 F) : c.transposed.transposed = c := by
    unfold Array3.transposed
    refine Eq.trans (Array3.of_congr fun h plane p row d col => ?_) (Array3.of_self c)
    exact Array3.of_at plane col row
  rw [←back a,same,back b]

-- The softmax of a row, entry by entry, is each entry's share.
theorem softmaxBatched_at {a : Array3 F} (plane : h < a.planes) (row : i < a.rows) (col : j < a.cols) :
    (ReferenceCpuEngine.softmaxBatched a).at_ h i j =
      share Exponential.exp (Finset.range a.cols) (fun j => a.at_ h i j - rowMax (a.plane h) i) j := by
  have entry {j : Nat} (col : j < a.cols) : (a.plane h).entry i j = a.at_ h i j := of_entry row col
  unfold ReferenceCpuEngine.softmaxBatched
  rw [Array3.of_at plane row col]
  unfold softmaxRowwise share
  rw [of_entry (show i < (a.plane h).nrows from row) (show j < (a.plane h).ncols from col)]
  dsimp only
  rw [entry col]
  congr 2
  refine Finset.sum_congr rfl fun l member => ?_
  rw [entry (Finset.mem_range.mp member)]

-- What the engine is sent tells the tensors, and from the softmax rows the blocked places.
theorem sent_tells (laws : ExpLaws (Exponential.exp : F → F)) {q k v q' k' v' : Array3 F} {scale neg : F}
    {blocked blocked' : Nat → Nat → Bool} (some : 0 < q.planes) (real : neg ≠ 0)
    (spares : ∀ i < q.rows, ∃ j < k.rows, blocked i j = false) (spares' : ∀ i < q.rows, ∃ j < k.rows, blocked' i j = false)
    (same : sent q k v scale .causal neg blocked = sent q' k' v' scale .causal neg blocked') :
    (q = q' ∧ k = k' ∧ v = v') ∧ ∀ i < q.rows, ∀ j < k.rows, blocked i j = blocked' i j := by
  unfold sent at same
  obtain ⟨first,rest⟩ := List.cons.inj same
  obtain ⟨second,_⟩ := List.cons.inj rest
  obtain ⟨queries,keys,_⟩ := Exchange.runtimeMatmul.inj first
  obtain ⟨probs,values,_⟩ := Exchange.runtimeMatmul.inj second
  have keys := transposed_injective keys
  cases queries
  cases keys
  refine ⟨⟨rfl,rfl,values⟩,fun i row j col => ?_⟩
  have fines : ∀ j ∈ Finset.range k.rows, ∀ l ∈ Finset.range k.rows, fined (-neg) (blocked i j) - fined (-neg) (blocked i l) =
      fined (-neg) (blocked' i j) - fined (-neg) (blocked' i l) := by
    intro j left l right
    let raw := scaled scale (scoresOf q k)
    have shares : ∀ j ∈ Finset.range k.rows,
        share Exponential.exp (Finset.range k.rows)
          (fun j => (penalised .causal neg blocked raw).at_ 0 i j - rowMax ((penalised .causal neg blocked raw).plane 0) i) j =
        share Exponential.exp (Finset.range k.rows)
          (fun j => (penalised .causal neg blocked' raw).at_ 0 i j - rowMax ((penalised .causal neg blocked' raw).plane 0) i) j := by
      intro j member
      have col := Finset.mem_range.mp member
      have both := congrArg (fun a => a.at_ 0 i j) probs
      unfold probsOf at both
      rw [softmaxBatched_at (a:=penalised .causal neg blocked raw) some row col,
        softmaxBatched_at (a:=penalised .causal neg blocked' raw) some row col] at both
      exact both
    have apart := shares_tell laws shares left right
    have place (b : Nat → Nat → Bool) {j : Nat} (member : j ∈ Finset.range k.rows) :
        (penalised .causal neg b raw).at_ 0 i j = raw.at_ 0 i j + fined (-neg) (b i j) :=
      Array3.of_at (f:=fun h i j => raw.at_ h i j + penalty .causal neg b i j) some row (Finset.mem_range.mp member)
    rw [place blocked left,place blocked right,place blocked' left,place blocked' right] at apart
    linarith
  obtain ⟨l,inside,spared⟩ := spares i row
  obtain ⟨l',inside',spared'⟩ := spares' i row
  exact fines_tell (neg_ne_zero.mpr real) fines ⟨l,Finset.mem_range.mpr inside,spared⟩
    ⟨l',Finset.mem_range.mpr inside',spared'⟩ (Finset.mem_range.mpr col)

end Sent

section Orders

-- A permutation of n rows as the list the sampler returns.
def rowsOf (π : Equiv.Perm (Fin n)) : List Nat := List.ofFn fun i => (π i).val

theorem rowsOf_at (π : Equiv.Perm (Fin n)) (i : Fin n) : (rowsOf π).getD i 0 = π i := by
  simp [rowsOf]

theorem rowsOf_lt (π : Equiv.Perm (Fin n)) (below : i < n) : (rowsOf π).getD i 0 < n := by
  rw [rowsOf_at π ⟨i,below⟩]
  exact (π ⟨i,below⟩).isLt

variable {F : Type} [Field F]

theorem permuteRows_mul {a : Array3 F} (tall : a.rows = n) (σ π : Equiv.Perm (Fin n)) :
    permuteRows (rowsOf π) (permuteRows (rowsOf σ) a) = permuteRows (rowsOf (σ * π)) a := by
  refine Array3.of_congr fun h plane i row j col => ?_
  have row' : i < n := tall ▸ row
  show (permuteRows (rowsOf σ) a).at_ h ((rowsOf π).getD i 0) j = a.at_ h ((rowsOf (σ * π)).getD i 0) j
  rw [permuteRows,Array3.of_at (n:=a.planes) (m:=a.rows) (k:=a.cols) plane (tall ▸ rowsOf_lt π row') col,rowsOf_at π ⟨i,row'⟩,rowsOf_at σ,rowsOf_at (σ * π) ⟨i,row'⟩]
  rfl

theorem permuteRows_one {a : Array3 F} (tall : a.rows = n) : permuteRows (rowsOf (1 : Equiv.Perm (Fin n))) a = a := by
  refine Eq.trans (Array3.of_congr fun h _ i row j _ => ?_) (Array3.of_self a)
  rw [rowsOf_at 1 ⟨i,tall ▸ row⟩]
  rfl

theorem permuteRows_none {a : Array3 F} (none : a.planes = 0) (perm : List Nat) : permuteRows perm a = a := by
  refine Eq.trans (Array3.of_congr fun h plane => ?_) (Array3.of_self a)
  rw [none] at plane
  cases plane

-- Only one order of the places orders them as they stand.
theorem order_tells {π : Equiv.Perm (Fin n)} (same : ∀ i j, π i < π j ↔ i < j) : π = 1 := by
  have lifted : (⟨π,fun {i j} => by rw [←not_lt,←not_lt,same]⟩ : Fin n ≃o Fin n) = OrderIso.refl _ := Subsingleton.elim _ _
  exact congrArg RelIso.toEquiv lifted

-- A prefix of the places goes onto a prefix as long.
theorem prefix_tells {π : Equiv.Perm (Fin n)} (inside : lo < n) (inside' : hi < n) (same : ∀ j, lo < j.val ↔ hi < (π j).val) :
    lo = hi := by
  have images : (Finset.univ.filter fun j : Fin n => hi < j.val) = (Finset.univ.filter fun j : Fin n => lo < j.val).map π.toEmbedding := by
    ext j
    simp only [Finset.mem_filter,Finset.mem_univ,true_and,Finset.mem_map,Equiv.coe_toEmbedding]
    constructor
    · intro above
      exact ⟨π.symm j,(same _).mpr (by rw [Equiv.apply_symm_apply]; exact above),Equiv.apply_symm_apply _ _⟩
    · rintro ⟨l,above,rfl⟩
      exact (same l).mp above
  have above (t : Fin n) : (Finset.univ.filter fun j : Fin n => t.val < j.val).card = n - 1 - t.val := by
    rw [←Fin.card_Ioi]
    congr 1
    ext j
    rw [Finset.mem_filter,Finset.mem_Ioi]
    exact ⟨fun member => member.2,fun later => ⟨Finset.mem_univ _,later⟩⟩
  have sizes := congrArg Finset.card images
  rw [Finset.card_map,above ⟨lo,inside⟩,above ⟨hi,inside'⟩] at sizes
  dsimp only at sizes
  omega

-- Places of which each query sees as many as before, the same ones.
def KeepsShown (qPosOffset nQ : Nat) (π : Equiv.Perm (Fin n)) : Prop :=
  ∀ i < nQ, ∀ j : Fin n, qPosOffset + i < (π j).val ↔ qPosOffset + i < j.val

end Orders

section Hidden
variable {F : Type} [Field F] [LinearOrder F] [IsStrictOrderedRing F] [Platform F] [Exponential F]

-- What the engine sees of an attention, over all that the sampler may return.
def transcripts (n : Nat) (q k v : Array3 F) (scale : F) (mask : AttentionMask) (cfg : PermAttnConfig F)
    (s : Offload (Recorded (ReferenceCpuEngine F) F)) : Multiset (List (Exchange F)) :=
  (Finset.univ : Finset (Equiv.Perm (Fin n))).val.map fun π => heard (permutedAttentionUnder (rowsOf π) q k v scale mask cfg) s

def transcriptsCached (nQ nKv : Nat) (q k v : Array3 F) (scale : F) (qPosOffset : Nat) (mask : AttentionMask) (cfg : PermAttnConfig F)
    (s : Offload (Recorded (ReferenceCpuEngine F) F)) : Multiset (List (Exchange F)) :=
  (Finset.univ : Finset (Equiv.Perm (Fin nQ) × Equiv.Perm (Fin nKv))).val.map fun π =>
    heard (permutedAttentionCachedUnder (rowsOf π.1) (rowsOf π.2) q k v scale qPosOffset mask cfg) s

-- The same things seen, if one order of the draws answers for the other.
theorem same_seen {ι α : Type} [Fintype ι] {f g : ι → α} (e : ι ≃ ι) (same : ∀ x, g x = f (e x)) :
    Finset.univ.val.map f = Finset.univ.val.map g := by
  calc Finset.univ.val.map f = (Finset.univ.val.map e).map f := by rw [Multiset.map_univ_val_equiv]
    _ = Finset.univ.val.map (f ∘ e) := Multiset.map_map _ _ _
    _ = Finset.univ.val.map g := Multiset.map_congr rfl fun x _ => (same x).symm

theorem seen_too {ι α : Type} [Fintype ι] {f g : ι → α} (same : Finset.univ.val.map f = Finset.univ.val.map g) (x : ι) :
    ∃ y, g y = f x := by
  have listed : f x ∈ Finset.univ.val.map f := Multiset.mem_map_of_mem f (Finset.mem_univ_val x)
  rw [same] at listed
  obtain ⟨y,_,seen⟩ := Multiset.mem_map.mp listed
  exact ⟨y,seen⟩

variable {cfg : PermAttnConfig F} (laws : ExpLaws (Exponential.exp : F → F)) (quiet : cfg.noiseSigma = 0)

theorem ordered (π : Equiv.Perm (Fin n)) (row : i < n) (col : j < n) :
    decide ((rowsOf π).getD i 0 < (rowsOf π).getD j 0) = decide (π ⟨i,row⟩ < π ⟨j,col⟩) := by
  rw [rowsOf_at π ⟨i,row⟩,rowsOf_at π ⟨j,col⟩]
  rfl

include laws quiet in
-- Where tokens change places with others, the rows of the softmax tell it.
theorem permuted_hidden_iff {q k v : Array3 F} (keys : dims k = dims q) (values : dims v = dims q) (scale : F) (mask : AttentionMask)
    (s : Offload (Recorded (ReferenceCpuEngine F) F)) (σ : Equiv.Perm (Fin q.rows)) :
    transcripts q.rows q k v scale mask cfg s =
        transcripts q.rows (permuteRows (rowsOf σ) q) (permuteRows (rowsOf σ) k) (permuteRows (rowsOf σ) v) scale mask cfg s ↔
      mask = .none ∨ cfg.causalMaskNeg = 0 ∨
        permuteRows (rowsOf σ) q = q ∧ permuteRows (rowsOf σ) k = k ∧ permuteRows (rowsOf σ) v = v := by
  have tallK : k.rows = q.rows := (Prod.mk.inj (Prod.mk.inj keys).2).1
  have tallV : v.rows = q.rows := (Prod.mk.inj (Prod.mk.inj values).2).1
  have moved (π : Equiv.Perm (Fin q.rows)) := permutedAttentionUnder_heard quiet (q:=permuteRows (rowsOf σ) q)
    (k:=permuteRows (rowsOf σ) k) (v:=permuteRows (rowsOf σ) v) keys values (rowsOf π) scale mask s
  have stayed (π : Equiv.Perm (Fin q.rows)) := permutedAttentionUnder_heard quiet keys values (rowsOf π) scale mask s
  simp only [permuteRows_mul rfl,permuteRows_mul tallK,permuteRows_mul tallV] at moved
  constructor
  · intro same
    by_cases flat : mask = .none ∨ cfg.causalMaskNeg = 0
    · exact flat.imp_right .inl
    refine .inr (.inr ?_)
    obtain ⟨causal,real⟩ := not_or.mp flat
    have masked : mask = .causal := by cases mask with
      | none => exact absurd rfl causal
      | causal => rfl
    subst masked
    rcases Nat.eq_zero_or_pos q.planes with none | heads
    · have keys_ := (Prod.mk.inj keys).1.trans none
      have values_ := (Prod.mk.inj values).1.trans none
      exact ⟨permuteRows_none none _,permuteRows_none keys_ _,permuteRows_none values_ _⟩
    obtain ⟨π,seen⟩ := seen_too same 1
    rw [moved,stayed,permuteRows_one rfl,permuteRows_one tallK,permuteRows_one tallV] at seen
    -- A query sees itself in every order.
    have spares (π : Equiv.Perm (Fin q.rows)) : ∀ i < q.rows, ∃ j < k.rows,
        decide ((rowsOf π).getD i 0 < (rowsOf π).getD j 0) = false :=
      fun i row => ⟨i,tallK ▸ row,decide_eq_false (lt_irrefl _)⟩
    obtain ⟨⟨queries,keys_,values_⟩,blocks⟩ := sent_tells laws (q:=permuteRows (rowsOf (σ * π)) q) (k:=permuteRows (rowsOf (σ * π)) k)
      heads real (spares π) (spares 1) (List.append_cancel_left seen)
    have still : π = 1 := order_tells fun i j => by
      have both := blocks i i.isLt j (tallK.symm ▸ j.isLt)
      rw [ordered π i.isLt j.isLt,ordered 1 i.isLt j.isLt] at both
      exact decide_eq_decide.mp both
    rw [still,mul_one] at queries keys_ values_
    exact ⟨queries,keys_,values_⟩
  · rintro (free | flat | ⟨queries,keys_,values_⟩)
    · refine same_seen (Equiv.mulLeft σ) fun π => ?_
      rw [moved,stayed]
      exact congrArg _ (sent_alike (.inl free))
    · refine same_seen (Equiv.mulLeft σ) fun π => ?_
      rw [moved,stayed]
      exact congrArg _ (sent_alike (.inr (.inl flat)))
    · rw [queries,keys_,values_]

theorem beyond (qPosOffset : Nat) (πQ : Equiv.Perm (Fin m)) (πKv : Equiv.Perm (Fin n)) (row : i < m) (col : j < n) :
    decide (qPosOffset + (rowsOf πQ).getD i 0 < (rowsOf πKv).getD j 0) = decide (qPosOffset + (πQ ⟨i,row⟩).val < (πKv ⟨j,col⟩).val) := by
  rw [rowsOf_at πQ ⟨i,row⟩,rowsOf_at πKv ⟨j,col⟩]

include laws quiet in
-- Cached rows may change places unseen where no query tells them apart, or the engine
-- computes the softmax.
theorem cached_hidden_iff {q k v : Array3 F} (shapes : CachedShapes q k v) (room : qPosOffset + q.rows ≤ k.rows) (scale : F)
    (mask : AttentionMask) (s : Offload (Recorded (ReferenceCpuEngine F) F)) (σ : Equiv.Perm (Fin k.rows)) :
    transcriptsCached q.rows k.rows q k v scale qPosOffset mask cfg s =
        transcriptsCached q.rows k.rows q (permuteRows (rowsOf σ) k) (permuteRows (rowsOf σ) v) scale qPosOffset mask cfg s ↔
      (cfg.decodeSoftmaxOnGpu && maskIsNoop mask q.rows k.rows qPosOffset) = true ∨ mask = .none ∨ cfg.causalMaskNeg = 0 ∨
        ∃ y : Equiv.Perm (Fin k.rows), KeepsShown qPosOffset q.rows y ∧
          permuteRows (rowsOf σ) k = permuteRows (rowsOf y) k ∧ permuteRows (rowsOf σ) v = permuteRows (rowsOf y) v := by
  have tallV : v.rows = k.rows := (Prod.mk.inj (Prod.mk.inj shapes.2.1).2).1
  have moved (π : Equiv.Perm (Fin q.rows) × Equiv.Perm (Fin k.rows)) := permutedAttentionCachedUnder_heard quiet (q:=q)
    (k:=permuteRows (rowsOf σ) k) (v:=permuteRows (rowsOf σ) v) shapes (rowsOf π.1) (rowsOf π.2) scale qPosOffset mask s
  have stayed (π : Equiv.Perm (Fin q.rows) × Equiv.Perm (Fin k.rows)) :=
    permutedAttentionCachedUnder_heard quiet shapes (rowsOf π.1) (rowsOf π.2) scale qPosOffset mask s
  simp only [permuteRows_mul rfl,permuteRows_mul tallV] at moved
  by_cases fused : (cfg.decodeSoftmaxOnGpu && maskIsNoop mask q.rows k.rows qPosOffset) = true
  · refine iff_of_true (same_seen (Equiv.prodCongr (Equiv.refl _) (Equiv.mulLeft σ)) fun π => ?_) (.inl fused)
    rw [moved,stayed]
    dsimp only
    rw [if_pos (show (cfg.decodeSoftmaxOnGpu && maskIsNoop mask q.rows (permuteRows (rowsOf σ) k).rows qPosOffset) = true from fused),
      if_pos fused]
    rfl
  have moved_ (π : Equiv.Perm (Fin q.rows) × Equiv.Perm (Fin k.rows)) := (moved π).trans (congrArg _ (if_neg fused))
  have stayed_ (π : Equiv.Perm (Fin q.rows) × Equiv.Perm (Fin k.rows)) := (stayed π).trans (congrArg _ (if_neg fused))
  constructor
  · intro same
    by_cases flat : mask = .none ∨ cfg.causalMaskNeg = 0
    · exact .inr (flat.imp_right .inl)
    refine .inr (.inr (.inr ?_))
    obtain ⟨causal,real⟩ := not_or.mp flat
    have masked : mask = .causal := by cases mask with
      | none => exact absurd rfl causal
      | causal => rfl
    subst masked
    rcases Nat.eq_zero_or_pos q.planes with none | heads
    · have keys_ := (Prod.mk.inj shapes.1).1.trans none
      have values_ := (Prod.mk.inj shapes.2.1).1.trans none
      refine ⟨1,fun i _ j => Iff.rfl,?_,?_⟩
      · rw [permuteRows_none keys_,permuteRows_none keys_]
      · rw [permuteRows_none values_,permuteRows_none values_]
    obtain ⟨π,seen⟩ := seen_too same.symm (1,1)
    rw [moved_,stayed_] at seen
    -- Every query sees the cached row that was the first.
    have spares (π : Equiv.Perm (Fin q.rows) × Equiv.Perm (Fin k.rows)) : ∀ i < q.rows, ∃ j < k.rows,
        decide (qPosOffset + (rowsOf π.1).getD i 0 < (rowsOf π.2).getD j 0) = false := fun i row => by
      have first : 0 < k.rows := by omega
      refine ⟨(π.2.symm ⟨0,first⟩).val,Fin.isLt _,decide_eq_false ?_⟩
      rw [rowsOf_at π.2 (π.2.symm ⟨0,first⟩),Equiv.apply_symm_apply]
      exact Nat.not_lt_zero _
    obtain ⟨⟨_,keys_,values_⟩,blocks⟩ := sent_tells laws (q:=permuteRows (rowsOf π.1) q) (k:=permuteRows (rowsOf π.2) k)
      heads real (spares π) (spares (1,1)) (List.append_cancel_left seen)
    have counted (i : Nat) (row : i < q.rows) (j : Fin k.rows) :
        qPosOffset + i < j.val ↔ qPosOffset + (π.1 ⟨i,row⟩).val < (π.2 j).val := by
      have both := ((beyond qPosOffset π.1 π.2 row j.isLt).symm.trans (blocks i row j j.isLt)).trans
        (beyond qPosOffset (1 : Equiv.Perm (Fin q.rows)) (1 : Equiv.Perm (Fin k.rows)) row j.isLt)
      exact (decide_eq_decide.mp both).symm
    refine ⟨π.2,fun i row j => ?_,?_,?_⟩
    · have place := (π.1 ⟨i,row⟩).isLt
      have level : qPosOffset + i = qPosOffset + (π.1 ⟨i,row⟩).val :=
        prefix_tells (π:=π.2) (by omega) (by omega) (counted i row)
      rw [counted i row j,←level]
    · rw [keys_]
      rfl
    · rw [values_]
      rfl
  · rintro (engine | free | flat | ⟨y,kept,keys_,values_⟩)
    · exact absurd engine fused
    · refine same_seen (Equiv.prodCongr (Equiv.refl _) (Equiv.mulLeft σ)) fun π => ?_
      rw [moved_,stayed_]
      exact congrArg _ (sent_alike (.inl free))
    · refine same_seen (Equiv.prodCongr (Equiv.refl _) (Equiv.mulLeft σ)) fun π => ?_
      rw [moved_,stayed_]
      exact congrArg _ (sent_alike (.inr (.inl flat)))
    · refine same_seen (Equiv.prodCongr (Equiv.refl _) (Equiv.mulLeft y)) fun π => ?_
      have keys' : permuteRows (rowsOf (σ * π.2)) k = permuteRows (rowsOf (y * π.2)) k := by
        rw [←permuteRows_mul rfl,keys_,permuteRows_mul rfl]
      have values' : permuteRows (rowsOf (σ * π.2)) v = permuteRows (rowsOf (y * π.2)) v := by
        rw [←permuteRows_mul tallV,values_,permuteRows_mul tallV]
      rw [moved_,stayed_,keys',values']
      refine congrArg _ (sent_alike (.inr (.inr fun i row j col => ?_)))
      have row' : i < q.rows := row
      have col' : j < k.rows := col
      have shown := kept (π.1 ⟨i,row'⟩).val (π.1 ⟨i,row'⟩).isLt (π.2 ⟨j,col'⟩)
      rw [beyond qPosOffset π.1 π.2 row' col']
      refine Eq.trans (decide_eq_decide.mpr shown.symm) (beyond qPosOffset π.1 (y * π.2) row' col').symm

-- When the engine cannot tell where the tokens were: over all draws of the sampler it
-- sees the same things of the tensors and of the tensors with their rows moved.
theorem token_order_hidden_iff (laws : ExpLaws (Exponential.exp : F → F)) (quiet : cfg.noiseSigma = 0) (scale : F) (mask : AttentionMask)
    (s : Offload (Recorded (ReferenceCpuEngine F) F)) :
    (∀ q k v : Array3 F, dims k = dims q → dims v = dims q → ∀ σ : Equiv.Perm (Fin q.rows),
      (transcripts q.rows q k v scale mask cfg s =
          transcripts q.rows (permuteRows (rowsOf σ) q) (permuteRows (rowsOf σ) k) (permuteRows (rowsOf σ) v) scale mask cfg s ↔
        mask = .none ∨ cfg.causalMaskNeg = 0 ∨
          permuteRows (rowsOf σ) q = q ∧ permuteRows (rowsOf σ) k = k ∧ permuteRows (rowsOf σ) v = v)) ∧
    ∀ (q k v : Array3 F) (qPosOffset : Nat), CachedShapes q k v → qPosOffset + q.rows ≤ k.rows → ∀ σ : Equiv.Perm (Fin k.rows),
      (transcriptsCached q.rows k.rows q k v scale qPosOffset mask cfg s =
          transcriptsCached q.rows k.rows q (permuteRows (rowsOf σ) k) (permuteRows (rowsOf σ) v) scale qPosOffset mask cfg s ↔
        (cfg.decodeSoftmaxOnGpu && maskIsNoop mask q.rows k.rows qPosOffset) = true ∨ mask = .none ∨ cfg.causalMaskNeg = 0 ∨
          ∃ y : Equiv.Perm (Fin k.rows), KeepsShown qPosOffset q.rows y ∧
            permuteRows (rowsOf σ) k = permuteRows (rowsOf y) k ∧ permuteRows (rowsOf σ) v = permuteRows (rowsOf y) v) :=
  ⟨fun _ _ _ keys values σ => permuted_hidden_iff laws quiet keys values scale mask s σ,
    fun _ _ _ _ shapes room σ => cached_hidden_iff laws quiet shapes room scale mask s σ⟩

end Hidden

section Example

theorem realExp_laws : ExpLaws (Exponential.exp : ℝ → ℝ) := ⟨Real.exp_pos,Real.exp_add,Real.exp_injective⟩

-- One head, two tokens of one feature, two apart.
def pair : Array3 ℝ := ⟨1,2,1,[0,1],rfl⟩

def swap : Equiv.Perm (Fin 2) := Equiv.swap 0 1

noncomputable def DISABLED_NOISE : PermAttnConfig ℝ := ⟨0,30,false⟩

noncomputable def unasked : Offload (Recorded (ReferenceCpuEngine ℝ) ℝ) := ⟨⟨⟨fun _ => none⟩,[]⟩,⟨[],0,0⟩⟩

theorem token_order_hidden_unmasked :
    transcripts 2 pair pair pair 1 .none DISABLED_NOISE unasked =
      transcripts 2 (permuteRows (rowsOf swap) pair) (permuteRows (rowsOf swap) pair) (permuteRows (rowsOf swap) pair) 1 .none
        DISABLED_NOISE unasked :=
  ((token_order_hidden_iff realExp_laws rfl 1 .none unasked).1 pair pair pair rfl rfl swap).mpr (.inl rfl)

-- Under the causal mask the rows sent back for the second product give the swap away.
theorem swap_seen :
    transcripts 2 pair pair pair 1 .causal DISABLED_NOISE unasked ≠
      transcripts 2 (permuteRows (rowsOf swap) pair) (permuteRows (rowsOf swap) pair) (permuteRows (rowsOf swap) pair) 1 .causal
        DISABLED_NOISE unasked := by
  intro same
  rcases (permuted_hidden_iff realExp_laws rfl (q:=pair) (k:=pair) (v:=pair) rfl rfl 1 .causal unasked swap).mp same with
    free | flat | ⟨moved,_,_⟩
  · cases free
  · have flat : (30 : ℝ) = 0 := flat
    norm_num at flat
  · have first := congrArg (fun a => a.at_ 0 0 0) moved
    unfold permuteRows at first
    rw [Array3.of_at (show 0 < pair.planes by decide) (show 0 < pair.rows by decide) (show 0 < pair.cols by decide)] at first
    have first : (1 : ℝ) = 0 := first
    exact one_ne_zero first

end Example
end Gelo
