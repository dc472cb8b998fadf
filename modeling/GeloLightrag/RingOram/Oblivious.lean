import GeloLightrag.RingOram.Public

namespace RingOram
open Foundation

namespace RingOramClient

def frameLength [AesGcm] (params : RingOramParams) : Nat := (aesEncrypt [] 0 0 (bucketPlaintext params [])).length

theorem sealed_length [AesGcm] [AesGcm.LengthOnly] {params : RingOramParams} (shelf : Shelf params blocks) (key : Bytes)
    (b w : Nat) : (sealed params key b w blocks).ciphertext.length = frameLength params := by
  apply AesGcm.LengthOnly.length_only
  rw [bucketPlaintext_length shelf.room shelf.sized,bucketPlaintext_length (Shelf.nil params).room (Shelf.nil params).sized]

section
variable {B : Type}

def view (c : RingOramClient (Overheard B)) : Public :=
  ⟨c.counters,c.accessesSinceEvict,c.deferEvictions,c.pendingEvictions,c.evictCursor,c.backend.log⟩

variable [BlockBackend B]

theorem view_reading (c : RingOramClient (Overheard B)) (ids : List Nat) :
    (⟨c.counters,c.accessesSinceEvict,c.deferEvictions,c.pendingEvictions,c.evictCursor,(c.reading ids).2.log⟩ : Public) =
      Public.asked c.params ids (view c) := by
  unfold reading Public.asked deep view
  split <;> rfl

theorem view_resealed [AesGcm] [AesGcm.LengthOnly] {c : RingOramClient (Overheard B)} {fresh : Nat → List Block}
    (shelves : ∀ b ∈ ids, Shelf c.params (fresh b)) :
    view (c.resealed ids fresh) = Public.rewritten (frameLength c.params) ids (view c) := by
  have outlines : (c.rewrites ids fresh).map EncryptedBucket.outline =
      ids.map fun b => (b,c.counters.getD b 0 + 1,frameLength c.params) := by
    unfold rewrites
    rw [List.map_map]
    apply List.map_congr_left
    intro b member
    show (b,c.counters.getD b 0 + 1,_) = _
    rw [sealed_length (shelves b member)]
  show (⟨_,_,_,_,_,c.backend.log ++ [.write ((c.rewrites ids fresh).map EncryptedBucket.outline)]⟩ : Public) = _
  rw [outlines]
  rfl

variable [LossyBackend B] [FaithfulBackend B] [AesGcm] [AesGcm.LengthOnly]
variable {c d : RingOramClient (Overheard B)} {memory : Memory} {tree : Nat → List Block} {id : BlockId} {payload : Bytes}

theorem evictPath_shows (sound : Sound c memory tree) :
    Shows view evictPath c (Public.evict c.params (frameLength c.params)) fun _ d =>
      Alike c d ∧ d.posmap = c.posmap ∧ d.rng = c.rng ∧ ∃ tree', Sound d memory tree' := by
  obtain ⟨fresh,left,plan,_,shelves⟩ := sound.plan
  have ran := evictPath_run sound.turning plan shelves
  have steady := FaithfulBackend.steady c.backend
  obtain ⟨found,answered⟩ := (reading_steady sound.shelved sound.turning.inside steady).1
  have asking : view (c.evictionPacked left) = Public.asked c.params c.evictionPath
      {view c with evictCursor:=(c.evictCursor+1) % c.params.nLeaves} :=
    view_reading {c with evictCursor:=(c.evictCursor+1) % c.params.nLeaves} c.evictionPath
  have shown : Public.evict c.params (frameLength c.params) (view c) = Public.touch c.params (frameLength c.params)
      (c.evictCursor % c.params.nLeaves) {view c with evictCursor:=(c.evictCursor+1) % c.params.nLeaves} := by
    unfold Public.evict
    rw [bind_ok (get_run _),bind_ok (set_run _ _)]
    rfl
  rw [Public.touch_run] at shown
  rw [answered] at ran
  change evictPath c = if c.root + 1 < 2 ^ 32 then _ else _ at ran
  by_cases room : c.root + 1 < 2 ^ 32
  · rw [if_pos room] at ran
    have stored : ((c.evictionPacked left).writing c.evictionPath fresh).1 = .ok () := by
      rcases (writing_cases (sound.turning.packed left) sound.turning.distinct sound.turning.inside (List.mem_of_mem_head? sound.turning.rooted) shelves).2 with
        ⟨stored,_⟩ | ⟨unsteady,_⟩
      · exact stored
      · exact absurd (FaithfulBackend.steady _) unsteady
    rw [stored] at ran
    have ends := evictPath_ends sound room fun unsteady => absurd steady unsteady
    unfold Ends at ends
    rw [ran] at ends
    obtain ⟨alike,_,_,_,tree',sound',_⟩ := ends
    refine .ok ran ?_ ⟨alike,rfl,rfl,tree',sound'⟩
    rw [shown,view_resealed (c:=c.evictionPacked left) shelves,asking]
    exact if_pos room
  · rw [if_neg room] at ran
    refine .error ran ?_
    rw [shown,asking]
    exact if_neg room

theorem readAccess_shows (sound : Sound c memory tree) (assigned : c.posmap id = some p) :
    Shows view (readAccess id) c (Public.touch c.params (frameLength c.params) p) fun _ d =>
      Alike c d ∧ d.posmap = Function.update c.posmap id (some c.draw) ∧ d.rng = c.drawn.rng ∧ ∃ tree', Sound d memory tree' := by
  have leaf := sound.recoverable.named.leaf id p assigned
  have inside : ∀ b ∈ c.params.path p, b < c.params.buckets := fun b member => path_inside sound.shelved.fits leaf member
  obtain ⟨y,held,named⟩ := sound.opened_holds assigned
  have ran := readAccess_run sound.shelved assigned (sound.recoverable.named.leaf _ _ assigned) (sound.recoverable.named.real assigned) (Stash.peek_some.mpr ⟨held,named⟩)
  have steady := FaithfulBackend.steady c.backend
  obtain ⟨found,answered⟩ := (reading_steady sound.shelved inside steady).1
  have shown := Public.touch_run c.params (frameLength c.params) p (view c)
  have kept := reading_kept c (c.params.path p)
  have shelves : ∀ b ∈ c.params.path p, Shelf c.params (emptied b) := fun b _ => Shelf.nil _
  rw [answered] at ran
  simp only at ran
  generalize packing : c.readPacked p id ((c.placement tree).opened (c.params.path p)) = packed at ran
  have asking : view packed = Public.asked c.params (c.params.path p) (view c) := by
    rw [←packing]
    exact view_reading c (c.params.path p)
  by_cases room : c.root + 1 < 2 ^ 32
  · rw [if_pos room] at ran
    have shelved : Shelved packed tree := by
      subst packing
      exact sound.shelved.same rfl rfl rfl rfl kept.1 kept.2
    have stored : (packed.writing (c.params.path p) emptied).1 = .ok () := by
      subst packing
      rcases (writing_cases shelved (path_nodup sound.shelved.fits leaf) inside
          (List.mem_of_mem_head? (path_root sound.shelved.fits leaf)) shelves).2 with ⟨stored,_⟩ | ⟨unsteady,_⟩
      · exact stored
      · exact absurd (FaithfulBackend.steady _) unsteady
    rw [stored] at ran
    have ends := readAccess_ends sound assigned room
    unfold Ends at ends
    rw [ran] at ends
    obtain ⟨_,alike,_,_,_,tree',sound',_⟩ := ends
    subst packing
    refine .ok ran ?_ ⟨alike,rfl,rfl,tree',sound'⟩
    rw [shown,view_resealed (c:=c.readPacked p id _) shelves,asking]
    exact if_pos room
  · rw [if_neg room] at ran
    refine .error ran ?_
    rw [shown,asking]
    exact if_neg room

theorem afterAccess_shows (sound : Sound c memory tree) (quota : c.accessesSinceEvict < c.params.a) :
    Shows view afterAccess c (Public.count c.params (frameLength c.params)) fun _ d => d.posmap = c.posmap ∧ d.rng = c.rng := by
  by_cases full : c.params.a ≤ c.accessesSinceEvict+1
  · have counted : Public.count c.params (frameLength c.params) (view c) =
        (if c.deferEvictions then
          if c.pendingEvictions+1 < 2 ^ 32 then modify fun v => {v with pendingEvictions:=v.pendingEvictions+1} else throw ()
        else Public.evict c.params (frameLength c.params) : PublicM Unit) (view c.due) := by
      unfold Public.count
      rw [bind_ok (get_run _)]
      refine (congrFun (if_pos full) _).trans ?_
      rw [bind_ok (set_run _ _)]
      rfl
    by_cases defer : c.deferEvictions = true
    · rw [if_pos defer] at counted
      have turned := afterAccess_turn quota full
      rw [if_pos defer] at turned
      by_cases room : c.pendingEvictions+1 < 2 ^ 32
      · rw [if_pos room] at counted
        rw [bind_ok (addPending_run (c:=c.due) room)] at turned
        have small : c.due.accessesSinceEvict < c.due.params.a := by
          show c.accessesSinceEvict+1-c.params.a < c.params.a
          omega
        exact .ok (turned.trans (maybeEvictTurns_idle _ small)) counted ⟨rfl,rfl⟩
      · rw [if_neg room] at counted
        exact .error (turned.trans (bind_error (addPending_overflow (c:=c.due) (Nat.le_of_not_lt room)))) counted
    · rw [if_neg defer] at counted
      obtain ⟨turned,small⟩ := afterAccess_evict (s:=c.due) quota (if_pos ⟨full,Bool.eq_false_iff.mpr defer⟩)
      have evicting := evictPath_shows (sound.same (d:=c.due) rfl rfl rfl rfl rfl rfl rfl rfl)
      unfold Shows at evicting ⊢
      rw [turned,counted]
      cases evicted : evictPath c.due with
      | error e d =>
          rw [evicted] at evicting
          rw [bind_error evicted]
          exact evicting
      | ok u d =>
          rw [evicted] at evicting
          obtain ⟨shown,alike,mapped,rng,_⟩ := evicting
          rw [bind_ok evicted,maybeEvictTurns_idle _ (by rw [alike.accesses,alike.params]; exact small)]
          exact ⟨shown,mapped,rng⟩
  · refine .ok (afterAccess_idle (Nat.lt_of_not_le full)) ?_ ⟨rfl,rfl⟩
    unfold Public.count
    rw [bind_ok (get_run _)]
    exact congrFun (if_neg full) _

theorem flushTurns_shows (turns : Nat) (sound : Sound c memory tree) :
    Shows view (flushTurns turns) c (Public.flush c.params (frameLength c.params) turns) fun _ d =>
      d.posmap = c.posmap ∧ d.rng = c.rng := by
  induction turns generalizing c tree with
  | zero => exact .ok rfl rfl ⟨rfl,rfl⟩
  | succ turns ih =>
      unfold flushTurns Public.flush
      apply Shows.bind (evictPath_shows sound)
      rintro u d evicted ⟨alike,mapped,rng,tree',sound'⟩
      have later : Shows view (flushTurns turns) {d with pendingEvictions:=d.pendingEvictions-1}
          (Public.flush c.params (frameLength c.params) turns) fun _ e => e.posmap = c.posmap ∧ e.rng = c.rng := by
        rw [←alike.params,←mapped,←rng]
        exact ih (c:={d with pendingEvictions:=d.pendingEvictions-1}) (sound'.same rfl rfl rfl rfl rfl rfl rfl rfl)
      exact Shows.step (modify_run _ d) (modify_run _ (view d)) later

-- The leaf that an id is mapped to is the one its last draw came to.
def Traced (c : RingOramClient (Overheard B)) (origin : BlockId → Nat) : Prop :=
  ∀ id p, c.posmap id = some p → p = c.rng.tape (origin id) % c.params.nLeaves

omit [BlockBackend B] [LossyBackend B] [FaithfulBackend B] [AesGcm] [AesGcm.LengthOnly] in
theorem Traced.same {origin : BlockId → Nat} (traced : Traced c origin) (params : d.params = c.params)
    (posmap : d.posmap = c.posmap) (rng : d.rng = c.rng) : Traced d origin := by
  unfold Traced
  rw [params,posmap,rng]
  exact traced

omit [BlockBackend B] [LossyBackend B] [FaithfulBackend B] [AesGcm] [AesGcm.LengthOnly] in
theorem Traced.remapped {origin : BlockId → Nat} (traced : Traced c origin) (params : d.params = c.params)
    (posmap : d.posmap = Function.update c.posmap id (some c.draw)) (rng : d.rng = c.drawn.rng) :
    Traced d (Function.update origin id c.rng.drawn) := by
  unfold Traced
  rw [params,posmap,rng]
  intro other p assigned
  by_cases same : other = id
  · rw [same,Function.update_self] at assigned
    cases assigned
    rw [same,Function.update_self]
    rfl
  · rw [Function.update_of_ne same] at assigned ⊢
    exact traced other p assigned

def leafOf (c : RingOramClient (Overheard B)) (origin : BlockId → Nat) (id : BlockId) : Nat :=
  c.rng.tape (origin id) % c.params.nLeaves

-- What an operation does to the path assignments.
def Remapping (c d : RingOramClient (Overheard B)) (op : Op) : Prop :=
  match op.remaps c.params with
  | some id => d.posmap = Function.update c.posmap id (some c.draw) ∧ d.rng = c.drawn.rng
  | none => d.posmap = c.posmap ∧ d.rng = c.rng

theorem perform_shows {origin : BlockId → Nat} (ready : Ready c memory tree) (traced : Traced c origin)
    (listed : Listed memory op) (sized : op.sized c.params = true) :
    Shows view (perform op) c ((op.event c.params (c.leafOf origin)).shows c.params (frameLength c.params))
      fun _ d => Remapping c d op := by
  obtain ⟨⟨fresh,plain⟩,known⟩ := listed
  cases op with
  | admitBlock id payload =>
      have whole : payload.length = c.params.blockBytes := of_decide_eq_true sized
      have shown : (Op.admitBlock id payload).event c.params (c.leafOf origin) = .admitBlock true := congrArg Event.admitBlock sized
      have remapped : (Op.admitBlock id payload).remaps c.params = some id := if_pos whole
      obtain ⟨d,ran,alike,_,backend,sound,_⟩ := admitAccess_sound ready.toSound fresh.1 fresh.2 whole
      obtain ⟨unheld,_⟩ := ready.recoverable.unknown fresh.1
      have explicit := admitAccess_run ready.shelved.leaves whole fresh.2 unheld
      rw [ran] at explicit
      cases explicit
      have counting := afterAccess_shows sound (by rw [alike.accesses,alike.params]; exact ready.quota)
      rw [shown]
      apply Shows.finish (Shows.after ran rfl counting)
      rintro _ e ⟨posmap,rng⟩
      unfold Remapping
      rw [remapped]
      exact ⟨posmap,rng⟩
  | read id =>
      have mapped : (c.posmap id).isSome := (ready.recoverable.named.known id).trans known
      obtain ⟨p,assigned⟩ := Option.isSome_iff_exists.mp mapped
      have shown : (Op.read id).event c.params (c.leafOf origin) = .read p := congrArg Event.read (traced id p assigned).symm
      rw [shown]
      have reading : Shows view (read id) c (Event.shows c.params (frameLength c.params) (.read p)) fun _ d =>
          Remapping c d (.read id) := by
        apply Shows.bind (readAccess_shows ready.toSound assigned)
        rintro a d _ ⟨alike,posmap,rng,tree',sound'⟩
        have counting := afterAccess_shows sound' (by rw [alike.accesses,alike.params]; exact ready.quota)
        rw [alike.params] at counting
        exact Shows.finish counting fun _ e ⟨posmap',rng'⟩ => ⟨posmap'.trans posmap,rng'.trans rng⟩
      exact Shows.finish reading fun _ _ done => done
  | write id payload => exact absurd plain Bool.noConfusion
  | setDeferEvictions defer => exact .ok (t:={c with deferEvictions:=defer}) rfl rfl ⟨rfl,rfl⟩
  | flushEvictions =>
      have flushing : Shows view flushEvictions c (Event.shows c.params (frameLength c.params) .flushEvictions) fun _ d =>
          Remapping c d .flushEvictions :=
        Shows.congr (bind_ok (get_run c)) (bind_ok (get_run (view c))) (flushTurns_shows c.pendingEvictions ready.toSound)
      exact Shows.finish flushing fun _ _ done => done

-- What the server has been asked when the run is over, or has panicked.
def trace : RingOramClient (Overheard B) → List Op → List Message
  | c,[] => c.backend.log
  | c,op :: rest =>
    match perform op c with
    | .ok _ d => trace d rest
    | .error (.error _) d => trace d rest
    | .error .dropped d => trace d rest
    | .error _ d => d.backend.log

theorem perform_stops {params : RingOramParams} (tracks : Tracks params c memory) (listed : Listed memory op)
    (sized : op.sized params = true) (stopped : perform op c = .error e d) : ∃ text, e = .panic text := by
  obtain ⟨⟨fresh,plain⟩,known⟩ := listed
  have alone := tracks.alone op
  obtain ⟨rfl,steady,tree,ready,_⟩ := tracks
  by_cases room : c.Room op
  · have answers := perform_answers ready fresh room (fun unsteady => absurd steady unsteady)
      (Admissible.keeps ⟨fresh,plain⟩ c) alone
    unfold Answers Ends at answers
    rw [stopped] at answers
    rcases answers with ⟨error,_,meant,_⟩ | ⟨_,unsteady,_⟩
    · cases op with
      | admitBlock id payload =>
          have whole : payload.length = c.params.blockBytes := of_decide_eq_true sized
          rw [show meaningOf c.params.blockBytes memory (.admitBlock id payload) = _ from if_pos whole] at meant
          cases meant
      | read id =>
          obtain ⟨value,held⟩ := Option.isSome_iff_exists.mp known
          rw [show meaningOf c.params.blockBytes memory (.read id) = (.payload value,memory) by simp [meaningOf,held]] at meant
          cases meant
      | write id payload => exact absurd plain Bool.noConfusion
      | setDeferEvictions defer => cases meant
      | flushEvictions => cases meant
    · exact absurd steady unsteady
  · obtain ⟨_,panicked⟩ := perform_overflow ready steady fresh room
    rw [panicked] at stopped
    cases stopped
    exact ⟨_,rfl⟩

omit [FaithfulBackend B] [AesGcm.LengthOnly] [LossyBackend B] in
theorem perform_unsized (unsized : op.sized c.params = false) :
    (∃ e, perform op c = .error (.error e) c) ∧ op.remaps c.params = none ∧
      ∀ origin : BlockId → Nat, op.event c.params origin = .admitBlock false := by
  cases op with
  | admitBlock id payload =>
      have short : ¬ payload.length = c.params.blockBytes := of_decide_eq_false unsized
      refine ⟨⟨_,bind_error (bind_error (e:=Fault.error (.payloadSize c.params.blockBytes payload.length)) ?_)⟩,if_neg short,
        fun origin => congrArg Event.admitBlock unsized⟩
      unfold admitAccess
      rw [bind_ok (get_run c)]
      exact (congrFun (if_pos short) c).trans rfl
  | _ => cases unsized

-- Nothing in what the server sees depends on an id or a payload but through the
-- draw behind each read.
theorem trace_overheard {params : RingOramParams} {origin : BlockId → Nat} (tracks : Tracks params c memory)
    (traced : Traced c origin) (listed : Permitted (meaningOf params.blockBytes) Listed memory ops) :
    trace c ops = Public.overhear params (frameLength params) (view c)
      ((events params c.rng.drawn origin ops).map (Event.map fun k => c.rng.tape k % params.nLeaves)) := by
  induction ops generalizing c memory origin with
  | nil => rfl
  | cons op rest ih =>
      have same := tracks.1
      obtain ⟨allowed,later⟩ := listed
      have stepping := fun reply d (stepped : step c op = some (reply,d)) => (admissible_step tracks allowed.1 stepped).2
      rw [events,List.map_cons,Op.event_map]
      unfold trace Public.overhear
      by_cases sized : op.sized params = true
      · obtain ⟨rfl,_,tree,ready,_⟩ := tracks
        have shown := perform_shows ready traced allowed sized
        unfold Shows leafOf at shown
        cases ran : perform op c with
        | ok reply d =>
            rw [ran] at shown
            have tracks' := stepping reply d (by unfold step; rw [ran])
            rw [shown.1]
            have remapping := shown.2
            unfold Remapping at remapping
            cases remapped : op.remaps c.params with
            | some id =>
                rw [remapped] at remapping
                have rest' := ih tracks' (traced.remapped tracks'.1 remapping.1 remapping.2) later
                rw [remapping.2] at rest'
                exact rest'
            | none =>
                rw [remapped] at remapping
                have rest' := ih tracks' (traced.same tracks'.1 remapping.1 remapping.2) later
                rw [remapping.2] at rest'
                exact rest'
        | error e d =>
            rw [ran] at shown
            rw [shown]
            obtain ⟨text,rfl⟩ := perform_stops ⟨rfl,FaithfulBackend.steady _,tree,ready,‹_›⟩ allowed sized ran
            rfl
      · rw [←same] at sized ⊢
        obtain ⟨⟨e,ran⟩,kept,shape⟩ := perform_unsized (Bool.not_eq_true _ ▸ sized)
        have tracks' := stepping (.failed e) c (by unfold step; rw [ran])
        rw [ran,shape,kept]
        rw [same]
        exact ih tracks' traced later

-- The first write of the whole tree.
theorem new_view {params : RingOramParams} {backend : B} {key : Bytes} {tape : Nat → Nat} {hashes : HashOrder}
    (made : new (⟨backend,[]⟩ : Overheard B) params key tape hashes = .ok c) :
    view c = ⟨(List.range params.buckets).foldl (fun counters b => counters.set b 1) (List.replicate params.buckets 0),0,false,0,0,
        [.write ((List.range params.buckets).map fun b => (b,1,frameLength params))]⟩ ∧
      c.rng = ⟨tape,0⟩ ∧ Traced c fun _ => 0 := by
  obtain ⟨rfl,_⟩ := new_planted made
  have outlines : (firstFrames params key).map EncryptedBucket.outline =
      (List.range params.buckets).map fun b => (b,1,frameLength params) := by
    unfold firstFrames
    rw [List.map_map]
    apply List.map_congr_left
    intro b _
    show (b,1,_) = _
    rw [sealed_length (Shelf.nil params)]
  refine ⟨?_,rfl,nofun⟩
  show (⟨_,0,false,0,0,[] ++ [.write ((firstFrames params key).map EncryptedBucket.outline)]⟩ : Public) = _
  rw [outlines]
  rfl

end

-- Two runs of the same kinds of operations are alike to the server, up to a
-- renaming of the draws, and no draw is the path of two reads.
theorem oblivious [AesGcm] [AesGcm.LengthOnly] {params : RingOramParams} (leaves : 0 < params.nLeaves) (quota : 0 < params.a)
    {first second : List Op} (listed : Permitted (meaningOf params.blockBytes) Listed nothing first)
    (listed' : Permitted (meaningOf params.blockBytes) Listed nothing second)
    (kinds : first.map (Op.kind params) = second.map (Op.kind params)) :
    (∃ π : Equiv.Perm Nat, ∀ {B B' : Type} [BlockBackend B] [LossyBackend B] [FaithfulBackend B] [BlockBackend B'] [LossyBackend B']
        [FaithfulBackend B'] {backend : B} {backend' : B'} {key key' : Bytes} {tape : Nat → Nat} {hashes hashes' : HashOrder}
        {c : RingOramClient (Overheard B)} {d : RingOramClient (Overheard B')},
        new ⟨backend,[]⟩ params key tape hashes = .ok c → new ⟨backend',[]⟩ params key' (fun k => tape (π k)) hashes' = .ok d →
          trace c first = trace d second) ∧
      ((events params 0 (fun _ => 0) first).filterMap Event.source?).Nodup ∧
      ∀ {B : Type} [BlockBackend B] [LossyBackend B] [FaithfulBackend B] {backend : B} {key : Bytes} {tape : Nat → Nat}
        {hashes : HashOrder} {c : RingOramClient (Overheard B)}, new ⟨backend,[]⟩ params key tape hashes = .ok c →
          trace c first = Public.overhear params (frameLength params) (view c)
            ((events params 0 (fun _ => 0) first).map (Event.map fun k => tape k % params.nLeaves)) := by
  have numbered : Numbered nothing (fun _ => 0) 0 := ⟨fun _ held => absurd held Bool.noConfusion,fun _ _ held => absurd held Bool.noConfusion⟩
  have distinct := (sources_distinct first numbered listed).1
  have shape : (events params 0 (fun _ => 0) first).map (Event.map fun _ => ()) =
      (events params 0 (fun _ => 0) second).map (Event.map fun _ => ()) := by
    rw [events_kinds,events_kinds,kinds]
  obtain ⟨π,renames⟩ := exists_renaming distinct (sources_distinct second numbered listed').1 (Event.sources_length shape)
  have same := Event.renamed shape renames
  refine ⟨⟨π,?_⟩,distinct,?_⟩
  · intro B B' _ _ _ _ _ _ backend backend' key key' tape hashes hashes' c d made made'
    obtain ⟨shown,rng,traced⟩ := new_view made
    obtain ⟨shown',rng',traced'⟩ := new_view made'
    rw [trace_overheard (made_tracks leaves quota made) traced listed,trace_overheard (made_tracks leaves quota made') traced' listed',
      shown,shown',rng,rng',←same,List.map_map]
    congr 1
    exact List.map_congr_left fun e _ => Event.map_map _ _ e
  · intro B _ _ _ backend key tape hashes c made
    obtain ⟨_,rng,traced⟩ := new_view made
    rw [trace_overheard (made_tracks leaves quota made) traced listed,rng]

theorem oblivious_three_buckets :
    ∃ π : Equiv.Perm Nat, ∀ tape : Nat → Nat, ∃ c d,
      @new _ _ AesGcm.framed (⟨InMemoryBlockBackend.new 3,[]⟩ : Overheard InMemoryBlockBackend)
        {z:=1,s:=1,a:=2,blockBytes:=1,nLeaves:=2,treetopLevels:=1} [1] tape .asStored = .ok c ∧
      @new _ _ AesGcm.framed (⟨InMemoryBlockBackend.new 3,[]⟩ : Overheard InMemoryBlockBackend)
        {z:=1,s:=1,a:=2,blockBytes:=1,nLeaves:=2,treetopLevels:=1} [2] (fun k => tape (π k)) .asStored = .ok d ∧
      @trace _ _ AesGcm.framed c [.admitBlock ⟨7⟩ [1],.admitBlock ⟨8⟩ [2],.read ⟨7⟩,.read ⟨7⟩,.setDeferEvictions true,.read ⟨8⟩,.flushEvictions] =
        @trace _ _ AesGcm.framed d [.admitBlock ⟨3⟩ [4],.admitBlock ⟨2⟩ [4],.read ⟨2⟩,.read ⟨3⟩,.setDeferEvictions true,.read ⟨2⟩,.flushEvictions] := by
  have listed : Permitted (meaningOf 1) Listed nothing
      [.admitBlock ⟨7⟩ [1],.admitBlock ⟨8⟩ [2],.read ⟨7⟩,.read ⟨7⟩,.setDeferEvictions true,.read ⟨8⟩,.flushEvictions] :=
    ⟨⟨⟨⟨rfl,rfl⟩,rfl⟩,trivial⟩,⟨⟨⟨rfl,rfl⟩,rfl⟩,trivial⟩,⟨⟨trivial,rfl⟩,rfl⟩,⟨⟨trivial,rfl⟩,rfl⟩,⟨⟨trivial,rfl⟩,trivial⟩,
      ⟨⟨trivial,rfl⟩,rfl⟩,⟨⟨trivial,rfl⟩,trivial⟩,trivial⟩
  have listed' : Permitted (meaningOf 1) Listed nothing
      [.admitBlock ⟨3⟩ [4],.admitBlock ⟨2⟩ [4],.read ⟨2⟩,.read ⟨3⟩,.setDeferEvictions true,.read ⟨2⟩,.flushEvictions] :=
    ⟨⟨⟨⟨rfl,rfl⟩,rfl⟩,trivial⟩,⟨⟨⟨rfl,rfl⟩,rfl⟩,trivial⟩,⟨⟨trivial,rfl⟩,rfl⟩,⟨⟨trivial,rfl⟩,rfl⟩,⟨⟨trivial,rfl⟩,trivial⟩,
      ⟨⟨trivial,rfl⟩,rfl⟩,⟨⟨trivial,rfl⟩,trivial⟩,trivial⟩
  obtain ⟨⟨π,alike⟩,_⟩ := @oblivious AesGcm.framed AesGcm.framed_lengthOnly
    {z:=1,s:=1,a:=2,blockBytes:=1,nLeaves:=2,treetopLevels:=1} (by decide) (by decide) _ _ listed listed' (by decide)
  refine ⟨π,fun tape => ?_⟩
  obtain ⟨c,made,_⟩ := @new_steady (Overheard InMemoryBlockBackend) _ _ AesGcm.framed ⟨InMemoryBlockBackend.new 3,[]⟩
    {z:=1,s:=1,a:=2,blockBytes:=1,nLeaves:=2,treetopLevels:=1} (by decide) rfl (FaithfulBackend.steady _) [1] tape .asStored
  obtain ⟨d,made',_⟩ := @new_steady (Overheard InMemoryBlockBackend) _ _ AesGcm.framed ⟨InMemoryBlockBackend.new 3,[]⟩
    {z:=1,s:=1,a:=2,blockBytes:=1,nLeaves:=2,treetopLevels:=1} (by decide) rfl (FaithfulBackend.steady _) [2]
    (fun k => tape (π k)) .asStored
  exact ⟨c,d,made,made',alike made made'⟩

end RingOramClient
end RingOram
