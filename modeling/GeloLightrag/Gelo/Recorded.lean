import GeloLightrag.Gelo.Trusted

set_option linter.unusedSectionVars false

namespace Gelo
open Foundation Array2

-- What crosses to the engine and comes back, one request at a time.
inductive Exchange (F : Type) [Zero F] where
  | registerWeight (handle : WeightHandle) (weight : Array2 F) (answer : Except String Unit)
  | registerWeightBf16 (handle : WeightHandle) (weight : Array2 (BitVec 16)) (answer : Except String Unit)
  | registerWeightBf16Shared (handle : WeightHandle) (weight : Array2 (BitVec 16)) (answer : Except String Unit)
  | registeredLinear (handles : List WeightHandle) (operand : Array2 F) (answer : Except String (List (Array2 F)))
  | matmulDynamic (lhs rhs : Array2 F) (answer : Except String (Array2 F))
  | runtimeMatmul (lhs rhs : Array3 F) (answer : Except String (Array3 F))
  | fusedAttention (q k v : Array3 F) (scale : F) (mask : Option (Array3 F)) (answer : Except String (Array3 F))

-- An engine that keeps a transcript and is otherwise the engine it holds.
structure Recorded (E F : Type) [Zero F] where
  engine : E
  transcript : List (Exchange F)

namespace Recorded
variable {E F : Type} [Zero F]

def record {α : Type} (call : E → Except String α × E) (note : Except String α → Exchange F) (s : Recorded E F) :
    Except String α × Recorded E F :=
  ((call s.engine).1,⟨(call s.engine).2,s.transcript ++ [note (call s.engine).1]⟩)

instance [GpuOffloadEngine E F] : GpuOffloadEngine (Recorded E F) F where
  registerWeight handle weight := record (GpuOffloadEngine.registerWeight handle weight) (.registerWeight handle weight)
  runRegisteredLinear handles operand :=
    record (GpuOffloadEngine.runRegisteredLinear handles operand) (.registeredLinear handles operand)

instance [RuntimeEngine E F] : RuntimeEngine (Recorded E F) F where
  registerWeightBf16 handle weight := record (RuntimeEngine.registerWeightBf16 F handle weight) (.registerWeightBf16 handle weight)
  registerWeightBf16Shared handle weight :=
    record (RuntimeEngine.registerWeightBf16Shared F handle weight) (.registerWeightBf16Shared handle weight)
  matmulDynamic lhs rhs := record (RuntimeEngine.matmulDynamic lhs rhs) (.matmulDynamic lhs rhs)
  runRuntimeMatmul lhs rhs := record (RuntimeEngine.runRuntimeMatmul lhs rhs) (.runtimeMatmul lhs rhs)
  runFusedAttention q k v scale mask :=
    record (RuntimeEngine.runFusedAttention q k v scale mask) (.fusedAttention q k v scale mask)

end Recorded

section Hearing
variable {E F : Type} [Zero F]

-- What an attention offload put on the transcript between two states.
def Crossed (new : List (Exchange F)) (s t : Offload (Recorded E F)) : Prop :=
  t.engine.transcript = s.engine.transcript ++ new

theorem Crossed.trans {s t u : Offload (Recorded E F)} (first : Crossed xs s t) (second : Crossed ys t u) : Crossed (xs ++ ys) s u := by
  unfold Crossed at first second ⊢
  rw [second,first,List.append_assoc]

theorem crossed_nil (s : Offload (Recorded E F)) : Crossed [] s s := (List.append_nil _).symm

-- Programs that only draw: they ask nothing and do not fail.
def Draws {α : Type} (x : OffloadM (Recorded E F) α) : Prop := ∀ s, Ends x s (fun _ t => Crossed [] s t) (fun _ _ => False)

theorem Draws.pure {α : Type} (a : α) : Draws (pure a : OffloadM (Recorded E F) α) := crossed_nil

theorem Draws.bind {α β : Type} {x : OffloadM (Recorded E F) α} {f : α → OffloadM (Recorded E F) β} (first : Draws x)
    (rest : ∀ a, Draws (f a)) : Draws (x >>= f) := fun s =>
  Ends.bind (first s) fun a t _ kept => (rest a t).imp (fun _ _ later => kept.trans later) fun _ _ never => never

theorem Draws.mapM {α β : Type} {f : α → OffloadM (Recorded E F) β} (each : ∀ a, Draws (f a)) (items : List α) :
    Draws (items.mapM f) := by
  induction items with
  | nil => exact .pure []
  | cons a rest ih =>
    rw [List.mapM_cons]
    exact (each a).bind fun b => ih.bind fun bs => .pure (b :: bs)

-- Programs that leave the transcript as it is or longer.
def Hears {α : Type} (x : OffloadM (Recorded E F) α) : Prop := Preserves (fun s t => ∃ new, Crossed new s t) x

theorem Hears.bind {α β : Type} {x : OffloadM (Recorded E F) α} {f : α → OffloadM (Recorded E F) β} (first : Hears x)
    (rest : ∀ a, Hears (f a)) : Hears (x >>= f) :=
  Preserves.bind (fun _ _ _ ⟨xs,one⟩ ⟨ys,two⟩ => ⟨xs ++ ys,one.trans two⟩) first rest

theorem orStop_hears {α : Type} (x : Except String α) : Hears (orStop x : OffloadM (Recorded E F) α) := by
  cases x with
  | ok a => exact fun s => ⟨[],crossed_nil s⟩
  | error text => exact fun s => ⟨[],crossed_nil s⟩

-- Programs that put at least one exchange on it.
def Asks {α : Type} (x : OffloadM (Recorded E F) α) : Prop := Preserves (fun s t => ∃ one new, Crossed (one :: new) s t) x

theorem ask_asks {α : Type} (call : E → Except String α × E) (note : Except String α → Exchange F) :
    Asks (ask (Recorded.record call note)) := by
  intro s
  cases answered : (Recorded.record call note s.engine).1 with
  | ok a => exact .ok (ask_ok answered) ⟨_,[],rfl⟩
  | error text => exact .error (ask_error answered) ⟨_,[],rfl⟩

theorem Asks.hears {α : Type} {x : OffloadM (Recorded E F) α} (asks : Asks x) : Hears x := fun s =>
  (asks s).imp (fun _ _ ⟨one,new,crossed⟩ => ⟨one :: new,crossed⟩) fun _ _ ⟨one,new,crossed⟩ => ⟨one :: new,crossed⟩

theorem Asks.bind {α β : Type} {x : OffloadM (Recorded E F) α} {f : α → OffloadM (Recorded E F) β} (first : Asks x)
    (rest : ∀ a, Hears (f a)) : Asks (x >>= f) := fun s => by
  refine Ends.bind ((first s).imp (fun _ _ asked => asked) fun _ _ asked => asked) fun a t _ asked => ?_
  obtain ⟨one,new,crossed⟩ := asked
  exact (rest a t).imp (fun _ _ ⟨more,later⟩ => ⟨one,new ++ more,crossed.trans later⟩)
    fun _ _ ⟨more,later⟩ => ⟨one,new ++ more,crossed.trans later⟩

theorem Draws.asks {α β : Type} {x : OffloadM (Recorded E F) α} {f : α → OffloadM (Recorded E F) β} (first : Draws x)
    (rest : ∀ a, Asks (f a)) : Asks (x >>= f) := fun s =>
  Ends.bind ((first s).imp (fun _ _ kept => kept) fun _ _ never => never.elim) fun a t _ kept =>
    (rest a t).imp (fun _ _ ⟨one,new,crossed⟩ => ⟨one,new,kept.trans crossed⟩) fun _ _ ⟨one,new,crossed⟩ => ⟨one,new,kept.trans crossed⟩

end Hearing

section Attending
variable {E F : Type} [Field F] [LinearOrder F] [IsStrictOrderedRing F] [Platform F]

theorem draw_draws {α : Type} (sample : (Nat → Nat) → α × Nat) : Draws (draw F sample : OffloadM (Recorded E F) α) :=
  fun s => crossed_nil s

theorem addGaussian3d_draws (sigma : F) (a : Array3 F) : Draws (addGaussian3d sigma a : OffloadM (Recorded E F) (Array3 F)) := by
  unfold addGaussian3d
  split
  · exact .pure a
  · split
    · exact (draw_draws _).bind fun z => .pure _
    · exact (draw_draws _).bind fun seeds => .pure _

theorem noised_draws (cfg : PermAttnConfig F) (q k : Array3 F) :
    Draws (noised cfg q k : OffloadM (Recorded E F) (Array3 F × Array3 F)) := by
  unfold noised
  split
  · exact (addGaussian3d_draws _ _).bind fun q => (addGaussian3d_draws _ _).bind fun k => .pure _
  · exact .pure _

variable [RuntimeEngine E F] [Exponential F]

theorem attendWithSoftmaxHere_asks (q k v : Array3 F) (scale : F) (mask : AttentionMask) (neg : F) (blocked : Nat → Nat → Bool) :
    Asks (attendWithSoftmaxHere q k v scale mask neg blocked : OffloadM (Recorded E F) (Array3 F)) := by
  refine Asks.bind (ask_asks _ _) fun scores => ?_
  refine Hears.bind (orStop_hears _) fun masked => ?_
  exact Hears.bind (orStop_hears _) fun probs => (ask_asks _ _).hears

theorem permutedAttentionUnder_asks (perm : List Nat) (q k v : Array3 F) (scale : F) (mask : AttentionMask) (cfg : PermAttnConfig F) :
    Asks (permutedAttentionUnder perm q k v scale mask cfg : OffloadM (Recorded E F) (Array3 F)) :=
  Draws.asks (noised_draws _ _ _) fun _ => .bind (attendWithSoftmaxHere_asks _ _ _ _ _ _ _) fun _ => orStop_hears _

theorem permutedAttentionCachedUnder_asks (permQ permKv : List Nat) (q k v : Array3 F) (scale : F) (qPosOffset : Nat)
    (mask : AttentionMask) (cfg : PermAttnConfig F) :
    Asks (permutedAttentionCachedUnder permQ permKv q k v scale qPosOffset mask cfg : OffloadM (Recorded E F) (Array3 F)) := by
  refine Draws.asks (noised_draws _ _ _) fun (qPerm,kPerm) => ?_
  dsimp only
  split
  · exact .bind (ask_asks _ _) fun outPerm => orStop_hears _
  · exact .bind (attendWithSoftmaxHere_asks _ _ _ _ _ _ _) fun outPerm => orStop_hears _

end Attending
end Gelo
