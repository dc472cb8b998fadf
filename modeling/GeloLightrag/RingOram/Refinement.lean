import GeloLightrag.RingOram.Answers
import GeloLightrag.RingOram.Creation

namespace RingOram
open Foundation

def Op.isWrite : Op → Bool
  | .write _ _ => true
  | _ => false

def Reply.isFailure : Reply → Bool
  | .failed (.backend _) => true
  | .dropped => true
  | _ => false

namespace RingOramClient
section
variable {B : Type} [BlockBackend B] [LossyBackend B] [AesGcm]
variable {c d : RingOramClient B} {memory : Memory} {tree : Nat → List Block} {op : Op} {params : RingOramParams} {id : BlockId}

theorem Answers.step (ready : Ready c memory tree) (answers : Answers c memory tree op) :
    (∃ next, step c op = some ((meaningOf c.params.blockBytes memory op).1,next) ∧ next.params = c.params ∧
      next.load ≤ c.load + 2 ∧ (Steady c.backend → Steady next.backend) ∧
        ∃ tree', Ready next (meaningOf c.params.blockBytes memory op).2 tree' ∧
          (Orderly c memory tree → Orderly next (meaningOf c.params.blockBytes memory op).2 tree')) ∨
      ∃ reply next, step c op = some (reply,next) ∧ reply.isFailure = true ∧ ¬ Steady c.backend ∧ next.params = c.params ∧
        next.load ≤ c.load + 2 ∧ ∃ tree', Ready next (remembered memory op) tree' := by
  unfold Answers Ends at answers
  unfold RingOramClient.step
  cases ran : perform op c with
  | ok reply d =>
      rw [ran] at answers
      obtain ⟨rfl,params,low,steady,after⟩ := answers
      exact .inl ⟨d,rfl,params,low,steady,after⟩
  | error e d =>
      rw [ran] at answers
      rcases answers with ⟨error,rfl,meant,rfl⟩ | ⟨lost,unsteady,params,low,after⟩
      · rw [meant]
        exact .inl ⟨d,rfl,rfl,Nat.le_add_right _ 2,fun good => good,tree,ready,fun before => before⟩
      · rcases lost with ⟨error,rfl⟩ | rfl
        · exact .inr ⟨.failed (.backend error),d,rfl,rfl,unsteady,params,low,after⟩
        · exact .inr ⟨.dropped,d,rfl,rfl,unsteady,params,low,after⟩

-- The client holds just what the plain map holds, and no backend call has failed.
def Tracks (params : RingOramParams) (c : RingOramClient B) (memory : Memory) : Prop :=
  c.params = params ∧ Steady c.backend ∧ ∃ tree, Ready c memory tree ∧ Orderly c memory tree

theorem Tracks.alone (tracks : Tracks params c memory) (op : Op) : c.Alone op := by
  obtain ⟨_,_,tree,ready,orderly⟩ := tracks
  cases op with
  | write id payload =>
      intro p assigned b small closed x member same
      rw [ready.shelved.contents small] at member
      obtain ⟨q,again,crossed⟩ := orderly.placed.home b small x member
      change c.posmap x.id = some q at again
      rw [same,assigned] at again
      cases again
      exact closed crossed
  | _ => trivial

theorem tracks_step (tracks : Tracks params c memory) (fresh : Fresh memory op) (room : c.Room op) (keeps : c.Keeps op) :
    ∃ next, step c op = some ((meaningOf params.blockBytes memory op).1,next) ∧
      Tracks params next (meaningOf params.blockBytes memory op).2 ∧ next.load ≤ c.load + 2 := by
  have alone := tracks.alone op
  obtain ⟨rfl,good,tree,ready,orderly⟩ := tracks
  have answers := perform_answers ready fresh room (fun unsteady => absurd good unsteady) keeps alone
  rcases answers.step ready with ⟨next,stepped,params,low,steady,tree',ready',orderly'⟩ | ⟨_,_,_,_,unsteady,_⟩
  · exact ⟨next,stepped,⟨params,steady good,tree',ready',orderly' orderly⟩,low⟩
  · exact absurd good unsteady

theorem Tracks.unknown (tracks : Tracks params c memory) (missing : memory id = none) :
    step c (.read id) = some (.failed (.unknownBlock id),c) := by
  obtain ⟨_,_,tree,ready,_⟩ := tracks
  have known := ready.recoverable.named.known id
  change (c.posmap id).isSome = _ at known
  rw [missing] at known
  have unmapped : c.posmap id = none := Option.not_isSome_iff_eq_none.mp (by rw [known]; exact Bool.false_ne_true)
  unfold step
  rw [read_unknown unmapped]

omit [BlockBackend B] [LossyBackend B] [AesGcm] in
theorem room_of_load (light : c.load + 2 < 2 ^ 32) (op : Op) : c.Room op := by
  unfold load at light
  have head : ∀ writes, writes ≤ 1 → c.Headroom writes := by
    intro writes few
    intro _
    split <;> omega
  cases op with
  | admitBlock id payload => exact fun _ => head 0 (Nat.zero_le 1)
  | read id => exact fun _ => ⟨by omega,head 1 (Nat.le_refl 1)⟩
  | write id payload => exact fun _ _ => ⟨by omega,head 1 (Nat.le_refl 1)⟩
  | setDeferEvictions defer => trivial
  | flushEvictions => exact fun _ => by omega

def Admissible (memory : Memory) (op : Op) : Prop := Fresh memory op ∧ op.isWrite = false

theorem Admissible.keeps {op : Op} (allowed : Admissible memory op) (c : RingOramClient B) : c.Keeps op := by
  cases op with
  | write id payload => exact absurd allowed.2 Bool.noConfusion
  | _ => trivial

theorem tracks_room (tracks : Tracks params c memory) (fresh : Fresh memory op) (stepped : step c op = some (reply,next)) :
    c.Room op := by
  by_contra full
  obtain ⟨_,good,tree,ready,_⟩ := tracks
  obtain ⟨d,panicked⟩ := perform_overflow ready good fresh full
  unfold step at stepped
  rw [panicked] at stepped
  cases stepped

theorem admissible_step (tracks : Tracks params c memory) (allowed : Admissible memory op) (stepped : step c op = some (reply,next)) :
    c.Room op ∧ Tracks params next (meaningOf params.blockBytes memory op).2 := by
  have room := tracks_room tracks allowed.1 stepped
  obtain ⟨after,answered,tracked,_⟩ := tracks_step tracks allowed.1 room (allowed.keeps c)
  rw [stepped] at answered
  cases answered
  exact ⟨room,tracked⟩

-- Two counts a step at most: any run of fewer than 2^31 operations has room.
theorem short_run_room (tracks : Tracks params c memory)
    (permitted : Permitted (meaningOf params.blockBytes) Admissible memory ops)
    (short : c.load + 2 * ops.length < 2 ^ 32) : Throughout step Room c ops := by
  induction ops generalizing c memory with
  | nil => trivial
  | cons op rest ih =>
      rw [List.length_cons] at short
      have room := room_of_load (c:=c) (by omega) op
      refine ⟨room,?_⟩
      obtain ⟨after,answered,tracked,low⟩ := tracks_step tracks permitted.1.1 room (permitted.1.keeps c)
      rw [answered]
      exact ih tracked permitted.2 (by omega)

end

theorem new_iff {B : Type} [BlockBackend B] [LossyBackend B] [FaithfulBackend B] [AesGcm] {params : RingOramParams}
    {backend : B} (sized : BlockBackend.numBuckets backend = params.buckets) (key : Bytes) (tape : Nat → Nat)
    (hashes : HashOrder) : (∃ c, new backend params key tape hashes = .ok c) ↔ params.Fits := by
  constructor
  · rintro ⟨c,made⟩
    exact (new_fits made).1
  · intro fits
    obtain ⟨c,made,_⟩ := new_steady fits sized (FaithfulBackend.steady backend) key tape hashes
    exact ⟨c,made⟩

theorem made_tracks {B : Type} [BlockBackend B] [LossyBackend B] [FaithfulBackend B] [AesGcm] {params : RingOramParams}
    (leaves : 0 < params.nLeaves) (quota : 0 < params.a) {backend : B} {key : Bytes} {tape : Nat → Nat} {hashes : HashOrder}
    {c : RingOramClient B} (made : new backend params key tape hashes = .ok c) : Tracks params c nothing := by
  obtain ⟨same,ready,orderly⟩ := new_ready leaves quota made
  exact ⟨same,FaithfulBackend.steady c.backend,emptied,ready,orderly⟩

-- Admits, reads, deferral and flushes in any order: the client answers as a plain
-- map does exactly in the runs that keep its u32 counters in range.
theorem refines_plain_map {B : Type} [BlockBackend B] [LossyBackend B] [FaithfulBackend B] [AesGcm] {params : RingOramParams}
    (leaves : 0 < params.nLeaves) (quota : 0 < params.a) {backend : B}
    (sized : BlockBackend.numBuckets backend = params.buckets) (key : Bytes) (tape : Nat → Nat) (hashes : HashOrder) :
    ((∃ c, new backend params key tape hashes = .ok c) ↔ params.Fits) ∧
      ∀ c, new backend params key tape hashes = .ok c →
        ∀ ops, Permitted (meaningOf params.blockBytes) Admissible nothing ops →
          ((∃ last, run step c ops = some ((meaning (meaningOf params.blockBytes) nothing ops).1,last) ∧
            ∀ id, (meaning (meaningOf params.blockBytes) nothing ops).2 id = none →
              step last (.read id) = some (.failed (.unknownBlock id),last)) ↔ Throughout step Room c ops) := by
  refine ⟨new_iff sized key tape hashes,fun c made ops permitted => ⟨?_,fun room => ?_⟩⟩
  · rintro ⟨last,ran,_⟩
    exact run_throughout (fun _ _ _ _ _ related allowed stepped => admissible_step related allowed stepped)
      (made_tracks leaves quota made) permitted ran
  · obtain ⟨last,ran,tracked⟩ := run_refines (s:=c) (by
      intro s memory op related allowed free
      obtain ⟨next,stepped,tracked,_⟩ := tracks_step related allowed.1 free (allowed.keeps s)
      exact ⟨next,stepped,tracked⟩) (made_tracks leaves quota made) permitted room
    exact ⟨last,ran,fun id missing => tracked.unknown missing⟩

-- 2^31 leaves is a u32 like any other, but the tree over them has 2^32 - 1
-- buckets and `1u32 << 32` is refused.
theorem leaves_two_to_the_31 :
    @new _ _ AesGcm.framed (InMemoryBlockBackend.new 0) {z:=4,s:=5,a:=3,blockBytes:=16,nLeaves:=2147483648,treetopLevels:=0}
      [] (fun n => n) .asStored = .error (.panic "attempt to shift left with overflow") := rfl

theorem refines_plain_map_three_buckets :
    ∃ c last, @new _ _ AesGcm.framed (InMemoryBlockBackend.new 3) {z:=1,s:=1,a:=2,blockBytes:=1,nLeaves:=2,treetopLevels:=1}
        [] (fun n => n) .asStored = .ok c ∧
      run (@step _ _ AesGcm.framed) c [.admitBlock ⟨7⟩ [1],.admitBlock ⟨8⟩ [2],.read ⟨7⟩,.read ⟨9⟩,.setDeferEvictions true,.read ⟨8⟩,
        .flushEvictions] = some ([.done,.done,.payload [1],.failed (.unknownBlock ⟨9⟩),.done,.payload [2],.done],last) := by
  obtain ⟨fitting,runs⟩ := @refines_plain_map _ _ _ _ AesGcm.framed
    {z:=1,s:=1,a:=2,blockBytes:=1,nLeaves:=2,treetopLevels:=1} (by decide) (by decide)
    (InMemoryBlockBackend.new 3) rfl [] (fun n => n) .asStored
  obtain ⟨c,made⟩ := fitting.mpr (by decide)
  have permitted : Permitted (meaningOf 1) Admissible nothing
      [.admitBlock ⟨7⟩ [1],.admitBlock ⟨8⟩ [2],.read ⟨7⟩,.read ⟨9⟩,.setDeferEvictions true,.read ⟨8⟩,.flushEvictions] :=
    ⟨⟨⟨rfl,rfl⟩,rfl⟩,⟨⟨rfl,rfl⟩,rfl⟩,⟨trivial,rfl⟩,⟨trivial,rfl⟩,⟨trivial,rfl⟩,⟨trivial,rfl⟩,⟨trivial,rfl⟩,trivial⟩
  have tracks := @made_tracks _ _ _ _ AesGcm.framed _ (by decide) (by decide) _ _ _ _ _ made
  obtain ⟨last,ran,_⟩ := (runs c made _ permitted).mpr
    (@short_run_room _ _ _ AesGcm.framed _ _ _ _ tracks permitted (by rw [@new_load _ _ _ AesGcm.framed _ _ _ _ _ _ made]; decide))
  exact ⟨c,last,made,ran⟩

-- The same with writes. A write overwrites just its block, and fails in the one
-- case that the eviction inside it takes the block out of the stash again.
theorem writes_as_plain_map {B : Type} [BlockBackend B] [LossyBackend B] [FaithfulBackend B] [AesGcm] {params : RingOramParams}
    (leaves : 0 < params.nLeaves) (quota : 0 < params.a) {backend : B} {key : Bytes} {tape : Nat → Nat} {hashes : HashOrder}
    {c : RingOramClient B} (made : new backend params key tape hashes = .ok c) {ops : List Op}
    (permitted : Permitted (meaningOf params.blockBytes) Fresh nothing ops)
    (room : Throughout step (fun s op => Room s op ∧ Keeps s op) c ops) :
    ∃ last, run step c ops = some ((meaning (meaningOf params.blockBytes) nothing ops).1,last) ∧
      ∀ id payload, ((meaning (meaningOf params.blockBytes) nothing ops).2 id).isSome →
        payload.length = params.blockBytes → last.Room (.write id payload) →
        ((∃ next, step last (.write id payload) = some (.done,next) ∧
          ∀ other, next.Room (.read other) → ∃ after, step next (.read other) = some ((meaningOf params.blockBytes
            (Function.update (meaning (meaningOf params.blockBytes) nothing ops).2 id (some payload)) (.read other)).1,after)) ↔
          last.Keeps (.write id payload)) := by
  obtain ⟨last,ran,tracked⟩ := run_refines (s:=c) (by
    intro s memory op related allowed free
    obtain ⟨next,stepped,tracked,_⟩ := tracks_step related allowed free.1 free.2
    exact ⟨next,stepped,tracked⟩) (made_tracks leaves quota made) permitted room
  refine ⟨last,ran,fun id payload present whole free => ⟨?_,?_⟩⟩
  · rintro ⟨next,stepped,_⟩
    by_contra moved
    obtain ⟨same,good,tree,ready,_⟩ := tracked
    obtain ⟨value,known⟩ := Option.isSome_iff_exists.mp present
    obtain ⟨p,assigned,_⟩ := ready.recoverable.named.assigned known
    have sized : payload.length = last.params.blockBytes := by rw [same]; exact whole
    obtain ⟨d,panicked⟩ := write_panics ready good assigned sized (free sized (by
      show (last.posmap id).isSome = true
      change last.posmap id = some p at assigned
      rw [assigned]; rfl)) moved
    unfold step at stepped
    rw [panicked] at stepped
    cases stepped
  · intro keeps
    obtain ⟨value,known⟩ := Option.isSome_iff_exists.mp present
    have rewriting : Fresh (meaning (meaningOf params.blockBytes) nothing ops).2 (.write id payload) := trivial
    obtain ⟨next,stepped,after,_⟩ := tracks_step tracked rewriting free keeps
    have meant : meaningOf params.blockBytes (meaning (meaningOf params.blockBytes) nothing ops).2 (.write id payload) =
        (.done,Function.update (meaning (meaningOf params.blockBytes) nothing ops).2 id (some payload)) := by
      simp [meaningOf,whole,known]
    rw [meant] at stepped after
    refine ⟨next,stepped,fun other room => ?_⟩
    have reading : Fresh (Function.update (meaning (meaningOf params.blockBytes) nothing ops).2 id (some payload))
        (.read other) := trivial
    obtain ⟨final,answered,_,_⟩ := tracks_step after reading room trivial
    exact ⟨final,answered⟩

-- With an eviction after every access the one inside the write puts the block
-- back on the tree, and `write` panics.
theorem write_evicted :
    ((@new _ _ AesGcm.framed (InMemoryBlockBackend.new 1) {z:=1,s:=0,a:=1,blockBytes:=1,nLeaves:=1,treetopLevels:=0}
        [] (fun n => n) .asStored).toOption.map fun c =>
      ((run (@step _ _ AesGcm.framed) c [.admitBlock ⟨7⟩ [1]]).map Prod.fst,
        (run (@step _ _ AesGcm.framed) c [.admitBlock ⟨7⟩ [1],.write ⟨7⟩ [2]]).map Prod.fst)) = some (some [.done],none) := by
  decide +kernel

theorem writes_as_plain_map_three_buckets :
    ∃ c last next, @new _ _ AesGcm.framed (InMemoryBlockBackend.new 3) {z:=1,s:=1,a:=2,blockBytes:=1,nLeaves:=2,treetopLevels:=1}
        [] (fun n => n) .asStored = .ok c ∧
      run (@step _ _ AesGcm.framed) c [.admitBlock ⟨7⟩ [1],.setDeferEvictions true,.write ⟨7⟩ [2],.read ⟨7⟩,.flushEvictions] =
        some ([.done,.done,.done,.payload [2],.done],last) ∧
      @step _ _ AesGcm.framed last (.write ⟨7⟩ [3]) = some (.done,next) := by
  have first : @new _ _ AesGcm.framed (InMemoryBlockBackend.new 3) {z:=1,s:=1,a:=2,blockBytes:=1,nLeaves:=2,treetopLevels:=1}
      [] (fun n => n) .asStored = .ok (@planted _ _ AesGcm.framed (blank (InMemoryBlockBackend.new 3)
        {z:=1,s:=1,a:=2,blockBytes:=1,nLeaves:=2,treetopLevels:=1} [] (fun n => n) .asStored)) := rfl
  obtain ⟨last,ran,overwrites⟩ := @writes_as_plain_map _ _ _ _ AesGcm.framed _ (by decide) (by decide) _ _ _ _ _ first
    [.admitBlock ⟨7⟩ [1],.setDeferEvictions true,.write ⟨7⟩ [2],.read ⟨7⟩,.flushEvictions]
    ⟨⟨rfl,rfl⟩,trivial,trivial,trivial,trivial,trivial⟩ (by decide +kernel)
  have free : (run (@step _ _ AesGcm.framed) (@planted _ _ AesGcm.framed (blank (InMemoryBlockBackend.new 3)
      {z:=1,s:=1,a:=2,blockBytes:=1,nLeaves:=2,treetopLevels:=1} [] (fun n => n) .asStored))
      [.admitBlock ⟨7⟩ [1],.setDeferEvictions true,.write ⟨7⟩ [2],.read ⟨7⟩,.flushEvictions]).map (fun r =>
        decide (Room r.2 (.write ⟨7⟩ [3]) ∧ @Keeps _ _ _ AesGcm.framed r.2 (.write ⟨7⟩ [3]))) = some true := by
    decide +kernel
  rw [ran] at free
  obtain ⟨room,keeps⟩ := of_decide_eq_true (Option.some.inj free)
  obtain ⟨next,written,_⟩ := (overwrites ⟨7⟩ [3] rfl rfl room).mpr keeps
  exact ⟨_,last,next,first,ran,written⟩

end RingOramClient
end RingOram
