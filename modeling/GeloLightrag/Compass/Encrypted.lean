import GeloLightrag.Compass.Exactness
import GeloLightrag.Compass.Index
import GeloLightrag.Foundation.Mirroring
import GeloLightrag.RingOram.Flushing
import GeloLightrag.RingOram.Refinement
import GeloLightrag.RingOram.Sealings
import Mathlib.Algebra.Order.Field.Basic

namespace Compass
open Foundation

section Graph
variable {F D : Type} [Metric F D] [PartialCmp D] [LevelSampler F] [Add F] [Sub F] [Mul F] [Div F] [Neg F] [Zero F] [One F] [NatCast F] [PartialCmp F]
  [Quantised F] {embeddings : List (List F)} {params : PlainHnswParams F} {h : PlainHnsw F} {hints : List NodeHints}

omit [Add F] [Sub F] [Mul F] [Div F] [Neg F] [Zero F] [One F] [NatCast F] [PartialCmp F] [Quantised F] in
theorem build_dims (made : PlainHnsw.build embeddings params = .ok h) : ∀ e ∈ embeddings, e.length = params.dim := by
  intro e member
  by_contra differs
  unfold PlainHnsw.build at made
  dsimp only at made
  split at made
  · cases made
  · rw [if_pos (List.any_eq_true.mpr ⟨e,member,decide_eq_true differs⟩)] at made
    cases made

omit [LevelSampler F] in
-- There are hints for each embedding only if each of them is a node.
theorem layer0DirectionalHints_nodes (hinted : h.layer0DirectionalHints = .ok hints) : h.embeddings.length ≤ h.layer0.length := by
  by_contra more
  have inside := Nat.lt_of_not_le more
  have counted := (mapM_each (R:=fun (_ : List F × Nat) (_ : NodeHints) => True) hinted fun _ _ _ => trivial).length_eq
  rw [List.length_zipIdx] at counted
  have listed := mapM_each (R:=fun (item : List F × Nat) (_ : NodeHints) => item.2 < h.layer0.length) hinted fun item hint ran => by
    obtain ⟨nbrs,found,_⟩ := except_bind_ok.mp ran
    exact (List.getElem?_eq_some_iff.mp (index_ok.mp found)).1
  obtain ⟨⟨x,id⟩,at_,small⟩ := paired listed (List.getElem?_eq_getElem (i:=h.layer0.length) (by omega))
  rw [List.getElem?_zipIdx,Option.map_eq_some_iff] at at_
  obtain ⟨_,_,same⟩ := at_
  cases same
  exact absurd small (by show ¬ 0 + h.layer0.length < h.layer0.length; omega)

theorem built_indexed [StrictCmp D] (made : PlainHnsw.build embeddings params = .ok h) (hinted : h.layer0DirectionalHints = .ok hints) :
    Indexed h hints ∧ h.params = params ∧ h.embeddings = embeddings := by
  have dims := build_dims made
  have given : Gives True (PlainHnsw.build embeddings params) _ := build_ok embeddings (fun _ _ => .inl trivial) (.inl trivial) (.inl trivial) (.inl trivial)
  rw [made] at given
  obtain ⟨entry,rest,first,last,built,rfl⟩ := given
  have nodes := layer0DirectionalHints_nodes hinted
  obtain ⟨layered,_,_⟩ := built.final
  have base := layered.sized.base
  change embeddings.length ≤ last.layers.layer0.length at nodes
  rw [base] at nodes
  have size : embeddings.length % 2 ^ 32 = embeddings.length := Nat.le_antisymm (Nat.mod_le _ _) nodes
  have few : embeddings.length < 2 ^ 32 := by
    have := Nat.mod_lt embeddings.length (y:=2 ^ 32) (by decide)
    omega
  rw [size] at built hinted ⊢
  exact ⟨⟨built.well_formed (sampleLevels_length params _),dims,hinted,few⟩,rfl,rfl⟩

end Graph

theorem blockId_apart (first : a < 2 ^ 32) (second : b < 2 ^ 32) (same : blockId a = blockId b) : a = b := by
  have words := congrArg (fun id : RingOram.BlockId => id.val.toNat) same
  simp only [blockId,UInt32.toNat_ofNat'] at words
  omega

theorem blockId_real (small : a < 2 ^ 32 - 1) : (blockId a).isDummy = false := by
  refine decide_eq_false fun same => ?_
  have word := congrArg (fun id : RingOram.BlockId => id.val.toNat) same
  simp only [blockId,RingOram.BlockId.dummy,UInt32.toNat_ofNat'] at word
  change a % 2 ^ 32 = 4294967295 at word
  omega

theorem fromCodec_ok {α σ : Type} {x : Except CodecFault α} {a : α} {s t : σ} (ran : (fromCodec x : EStateM CompassFault σ α) s = .ok a t) :
    x = .ok a ∧ s = t := by
  cases x with
  | error e => cases ran
  | ok a => cases ran; exact ⟨rfl,rfl⟩

section Storing
open RingOram (Memory)
open RingOram.RingOramClient
variable {B F : Type} [RingOram.BlockBackend B] [RingOram.LossyBackend B] [AesGcm] [Float32 F] {params : CompassIndexParams F}
  {oram oram' : RingOram.RingOramClient B} {memory : Memory}

-- A memory has a node in the block of its id.
def Stored (params : PlainHnswParams F) (memory : Memory) (id : Nat) (node : NodeBlock F) : Prop :=
  ∃ bytes, memory (blockId id) = some bytes ∧ deserialiseNode bytes params.dim params.maxNeighborsL0 = .ok node

-- A node whose list can be written as it is.
structure Writable (params : PlainHnswParams F) (node : NodeBlock F) : Prop where
  bounded : node.neighbors.length ≤ params.maxNeighborsL0
  words : ∀ b ∈ node.neighbors, b < 2 ^ 32
  few : node.neighbors.length < 2 ^ 32

theorem admitNode_stores {id : Nat} {node : NodeBlock F} (tracks : Tracks params.oram oram memory) (new : memory (blockId id) = none) (small : id < 2 ^ 32 - 1)
    (writable : Writable params.hnsw node) (ran : admitNode params id node oram = .ok () oram') :
    ∃ bytes, Tracks params.oram oram' (Function.update memory (blockId id) (some bytes)) ∧
      deserialiseNode bytes params.hnsw.dim params.hnsw.maxNeighborsL0 = .ok node := by
  have whole : ({node with neighbors:=node.neighbors.take params.hnsw.maxNeighborsL0} : NodeBlock F) = node := by
    rw [List.take_of_length_le writable.bounded]
  obtain ⟨bytes,_,given,admitting⟩ := ok_of_bind ran
  obtain ⟨written,rfl⟩ := fromCodec_ok given
  rw [whole] at written
  obtain ⟨back,sized⟩ := deserialiseNode_serialiseNode writable.words writable.few written
  unfold inOram at admitting
  cases admitted : admitBlock (blockId id) bytes oram with
  | error e d => rw [admitted] at admitting; cases admitting
  | ok _ d =>
      rw [admitted] at admitting
      cases admitting
      have stepped : step oram (.admitBlock (blockId id) bytes) = some (.done,d) := by
        unfold step
        rw [show perform (.admitBlock (blockId id) bytes) oram = .ok .done d from bind_ok admitted]
      have allowed : Admissible memory (.admitBlock (blockId id) bytes) := ⟨⟨new,blockId_real small⟩,rfl⟩
      obtain ⟨_,kept⟩ := admissible_step tracks allowed stepped
      refine ⟨bytes,?_,back⟩
      simpa [RingOram.meaningOf,sized] using kept

-- The nodes are all stored, and nothing else.
theorem admitAll_stores (items : List (NodeBlock F × Nat)) (tracks : Tracks params.oram oram memory)
    (fine : ∀ item ∈ items, item.2 < 2 ^ 32 - 1 ∧ memory (blockId item.2) = none ∧ Writable params.hnsw item.1) (distinct : (items.map Prod.snd).Nodup)
    (ran : admitAll params items oram = .ok () oram') :
    ∃ memory', Tracks params.oram oram' memory' ∧ (∀ item ∈ items, Stored params.hnsw memory' item.2 item.1) ∧
      ∀ id, (∀ item ∈ items, blockId item.2 ≠ id) → memory' id = memory id := by
  induction items generalizing oram memory with
  | nil =>
      cases ran
      exact ⟨memory,tracks,fun _ member => absurd member List.not_mem_nil,fun _ _ => rfl⟩
  | cons item rest ih =>
      obtain ⟨node,id⟩ := item
      obtain ⟨_,middle,first,later⟩ := ok_of_bind ran
      obtain ⟨small,new,writable⟩ := fine (node,id) List.mem_cons_self
      obtain ⟨bytes,kept,back⟩ := admitNode_stores tracks new small writable first
      rw [List.map_cons,List.nodup_cons] at distinct
      have others : ∀ item ∈ rest, blockId item.2 ≠ blockId id := by
        intro item member same
        have word := (fine item (List.mem_cons_of_mem _ member)).1
        obtain rfl := blockId_apart (by omega) (by omega) same
        exact distinct.1 (List.mem_map.mpr ⟨item,member,rfl⟩)
      obtain ⟨memory',last,stored,same⟩ := ih kept (fun item member => by
        obtain ⟨word,free,writable⟩ := fine item (List.mem_cons_of_mem _ member)
        exact ⟨word,by rw [Function.update_of_ne (others item member),free],writable⟩) distinct.2 later
      refine ⟨memory',last,fun item member => ?_,fun other apart_ => ?_⟩
      · rcases List.mem_cons.mp member with rfl | member
        · exact ⟨bytes,by rw [same _ others,Function.update_self],back⟩
        · exact stored item member
      · rw [same other fun item member => apart_ item (List.mem_cons_of_mem _ member),
          Function.update_of_ne (apart_ (node,id) List.mem_cons_self).symm]

end Storing

section Creation
open RingOram (Memory)
open RingOram.RingOramClient
variable {B F D : Type} [RingOram.BlockBackend B] [RingOram.LossyBackend B] [RingOram.FaithfulBackend B] [AesGcm] [Float32 F] [Sha256] [Metric F D]
  [PartialCmp D] [LevelSampler F] [Add F] [Sub F] [Mul F] [Div F] [Neg F] [Zero F] [One F] [NatCast F] [PartialCmp F] [Quantised F]
  {embeddings : List (List F)} {params : CompassIndexParams F} {backend : B} {generator : Bytes → Nat → Nat} {hashes : RingOram.HashOrder}
  {index : CompassIndex B F} {h : PlainHnsw F} {hints : List NodeHints}

omit [AesGcm] [Metric F D] [PartialCmp D] [LevelSampler F] [Float32 F] [Sha256] in
-- The lists of a well-formed graph can be written.
theorem Indexed.writable {id : Nat} {node : NodeBlock F} (indexed : Indexed h hints) (found : h.layer0Blocks[id]? = some node) :
    id < h.embeddings.length ∧ Writable h.params node := by
  have inside : id < h.embeddings.length := by
    have small := (List.getElem?_eq_some_iff.mp found).1
    rw [PlainHnsw.layer0Blocks,List.length_zipWith] at small
    omega
  rw [layer0Blocks_at indexed.well inside] at found
  cases found
  have targets := indexed.well.leveled 0 (Nat.zero_le _) id
  have few := ((indexed.well.distinct 0 (Nat.zero_le _) id).subperm fun b edge => List.mem_range.mpr (targets b edge).1).length_le
  rw [List.length_range] at few
  exact ⟨inside,indexed.well.bounded 0 (Nat.zero_le _) id,fun b edge => (targets b edge).1.trans indexed.few,few.trans_lt indexed.few⟩

-- What an index is made of: the clear fields of a graph, and a client whose memory
-- has the graph's blocks.
theorem fromPlaintextCorpusOn_ok [StrictCmp D] (made : fromPlaintextCorpusOn embeddings params backend generator hashes = .ok index) :
    ∃ h hints memory, PlainHnsw.build embeddings params.hnsw = .ok h ∧ h.layer0DirectionalHints = .ok hints ∧ Indexed h hints ∧
      h.params = params.hnsw ∧ index.toCleartext = cleartext h params hints ∧ Tracks params.oram index.oram memory ∧
      ∀ id node, h.layer0Blocks[id]? = some node → Stored params.hnsw memory id node := by
  unfold fromPlaintextCorpusOn at made
  obtain ⟨h,planned,made⟩ := except_bind_ok.mp made
  dsimp only at made
  obtain ⟨oram,created,made⟩ := except_bind_ok.mp made
  obtain ⟨hints,hinted,made⟩ := except_bind_ok.mp made
  have planned := mapError_ok.mp planned
  have created := mapError_ok.mp created
  have hinted := mapError_ok.mp hinted
  obtain ⟨indexed,same,_⟩ := built_indexed planned hinted
  cases admitted : admitAll params h.layer0Blocks.zipIdx oram with
  | error e d => rw [admitted] at made; cases made
  | ok _ last =>
      rw [admitted] at made
      cases made
      have fine : ∀ item ∈ h.layer0Blocks.zipIdx, item.2 < 2 ^ 32 - 1 ∧ nothing (blockId item.2) = none ∧ Writable params.hnsw item.1 := by
        rintro ⟨node,id⟩ member
        obtain ⟨inside,writable⟩ := indexed.writable (List.mem_zipIdx_iff_getElem?.mp member)
        have few := indexed.few
        exact ⟨by show id < 2 ^ 32 - 1; omega,rfl,same ▸ writable⟩
      have distinct : (h.layer0Blocks.zipIdx.map Prod.snd).Nodup := by
        rw [List.zipIdx_map_snd]
        exact List.nodup_range'
      have needs : 0 < params.oram.nLeaves ∧ 0 < params.oram.a := by
        have first := layer0Blocks_at indexed.well indexed.well.entered.1
        cases items : h.layer0Blocks.zipIdx with
        | nil =>
            rw [List.zipIdx_eq_nil_iff.mp items] at first
            cases first
        | cons item rest =>
            rw [items] at admitted
            obtain ⟨_,middle,one,_⟩ := ok_of_bind admitted
            obtain ⟨bytes,_,given,admitting⟩ := ok_of_bind one
            obtain ⟨_,rfl⟩ := fromCodec_ok given
            have own : oram.params = params.oram := by rw [(new_planted created).1]; rfl
            unfold inOram at admitting
            cases ran : admitBlock (blockId item.2) bytes oram with
            | error e d => rw [ran] at admitting; cases admitting
            | ok _ d => exact own ▸ admitBlock_needs ran
      obtain ⟨memory,tracks,stored,_⟩ := admitAll_stores h.layer0Blocks.zipIdx (made_tracks needs.1 needs.2 created) fine distinct admitted
      exact ⟨h,hints,memory,planned,hinted,indexed,same,rfl,tracks,fun id node found => stored (node,id) (List.mem_zipIdx_iff_getElem?.mpr found)⟩

end Creation

section Looking
variable {F : Type} {blocks : List (NodeBlock F)}

-- A machine that has no state, and looks for blocks.
def look (blocks : List (NodeBlock F)) (_ : Unit) (id : Nat) : Option (Unit × Unit) := (blocks[id]?).map fun _ => ((),())

theorem look_roomy (ids : List Nat) : Throughout (look blocks) (fun _ _ => True) () ids := by
  induction ids with
  | nil => trivial
  | cons id rest ih =>
      refine ⟨trivial,?_⟩
      cases look blocks () id with
      | none => trivial
      | some found => exact ih

theorem look_known {ids : List Nat} {answers : List Unit} (went : run (look blocks) () ids = some (answers,())) : ∀ id ∈ ids, ∃ node, blocks[id]? = some node := by
  induction ids generalizing answers with
  | nil => exact fun _ member => absurd member List.not_mem_nil
  | cons id rest ih =>
      obtain ⟨_,found,later⟩ := Option.bind_eq_some_iff.mp went
      obtain ⟨_,went,_⟩ := Option.bind_eq_some_iff.mp later
      obtain ⟨node,held,_⟩ := Option.map_eq_some_iff.mp found
      intro other member
      rcases List.mem_cons.mp member with rfl | member
      · exact ⟨node,held⟩
      · exact ih went other member

end Looking

section Inner
variable {F D σ τ ι Op Reply : Type} {view : τ → σ} {step : σ → Op → Option (Reply × σ)} {room : σ → Op → Prop} {holds : τ → Prop} {full : CompassFault}
  {ask : ι → Op} {read : Reader F τ} {plain : Reader F (List ι)} {clear : Cleartext F}

theorem orPanic_mirrors {α : Type} (x : Except String α) :
    Mirrors view step room holds full ask (orPanic x) (orPanic x : EStateM CompassFault (List ι) α) := by
  cases x with
  | ok a => exact .pure a
  | error text => exact .stuck _

variable [Metric F D] [PartialCmp D]

-- The search beside the same search with another reader, where the reads are.
theorem fetchAll_mirrors (reads : ∀ id, Mirrors view step room holds full ask (read id) (plain id)) (query : List F) (ef : Nat) (ids : List Nat) (beam : Beam D) :
    Mirrors view step room holds full ask (fetchAll read query ef ids beam) (fetchAll plain query ef ids beam) := by
  induction ids generalizing beam with
  | nil => exact .pure beam
  | cons id rest ih =>
      unfold fetchAll
      split
      · exact ih beam
      · exact (reads id).bind fun node => (orPanic_mirrors _).bind fun next => ih next

variable [Add F] [Sub F] [Mul F] [Div F] [Zero F] [One F] [NatCast F] [PartialCmp F]

theorem searchTurns_mirrors (reads : ∀ id, Mirrors view step room holds full ask (read id) (plain id)) (query : List F) (ef left : Nat) (beam : Beam D) :
    Mirrors view step room holds full ask (searchTurns read clear query ef left beam) (searchTurns plain clear query ef left beam) := by
  induction left generalizing beam with
  | zero => exact .stuck _
  | succ left ih =>
      unfold searchTurns
      split
      · exact .pure beam
      · rename_i c candidates _
        refine (orPanic_mirrors _).bind fun stop => ?_
        cases stop with
        | true => exact .pure _
        | false => exact (reads c.id).bind fun node => (orPanic_mirrors _).bind fun ids => (fetchAll_mirrors reads query ef ids _).bind fun next => ih next

theorem layeredSearchInner_mirrors (reads : ∀ id, Mirrors view step room holds full ask (read id) (plain id)) (query : List F) (k : Nat) :
    Mirrors view step room holds full ask (layeredSearchInner read clear query k) (layeredSearchInner plain clear query k) := by
  have entry : Mirrors view step room holds full ask (entryDistance read clear query : EStateM CompassFault τ D) (entryDistance plain clear query) := by
    unfold entryDistance
    split
    · exact (reads clear.entry).bind fun node => .pure _
    · split
      · exact .stuck _
      · exact .pure _
  refine Mirrors.bind (entry.bind fun distance => (orPanic_mirrors _).bind fun current => searchTurns_mirrors reads query _ _ _) fun beam => .pure _

-- A search of the blocks asks for nodes that there are.
theorem layeredSearchInner_known {blocks : List (NodeBlock F)} {query : List F} {k : Nat} {ids reads : List Nat} (plain : layeredSearchInner (D:=D) (plainReader blocks) clear query k [] = .ok ids reads) :
    ∀ id ∈ reads, ∃ node, blocks[id]? = some node := by
  have reading : ∀ id, Mirrors (fun _ : Unit => ()) (look blocks) (fun _ _ => True) (fun _ => True) .dropped (fun id => id)
      (orPanic (Compass.index blocks id)) (plainReader blocks id) := by
    intro id log node log' ran
    obtain ⟨other,_,looked,noted⟩ := ok_of_bind ran
    cases found : Compass.index blocks id with
    | error text => rw [found] at looked; cases looked
    | ok block =>
        rw [found] at looked
        cases looked
        cases noted
        exact ⟨[id],rfl,fun s _ => .ok (t:=()) rfl ⟨rfl,trivial,look_roomy _,[()],by simp [run,look,index_ok.mp found]⟩⟩
  obtain ⟨asked,same,search⟩ := @layeredSearchInner_mirrors _ D _ _ _ _ _ _ _ _ _ _ _ (fun id => orPanic (Compass.index blocks id)) _ clear _ _ _ _ _ _ _ _ _ _ reading query k [] ids reads plain
  rw [List.nil_append] at same
  subst same
  have works := search () trivial
  rw [List.map_id'] at works
  cases ran : layeredSearchInner (D:=D) (fun id => orPanic (Compass.index blocks id)) clear query k () with
  | error e t => exact absurd (look_roomy _) (works.at_error ran).2
  | ok a t =>
      obtain ⟨_,_,_,answers,went⟩ := works.at_ok ran
      exact look_known went

end Inner

section Searching
open RingOram (Memory Op Reply OramM)
open RingOram.RingOramClient
variable {B F : Type} [RingOram.BlockBackend B] [RingOram.LossyBackend B] [AesGcm] {clear : Cleartext F} {memory : Memory} {index : CompassIndex B F}

-- What an index keeps between operations.
def Serves (clear : Cleartext F) (memory : Memory) (index : CompassIndex B F) : Prop :=
  index.toCleartext = clear ∧ Tracks clear.params.oram index.oram memory

-- How an operation ends for which a counter of the client has no room.
def overflowed : CompassFault := .panic "attempt to add with overflow"

abbrev Searches (clear : Cleartext F) (memory : Memory) {α : Type} (ops : List Op) (x : IndexM B F α) (index : CompassIndex B F) (a : α) : Prop :=
  Works CompassIndex.oram step Room (Serves clear memory) overflowed ops x index a

-- An operation of the client that the memory answers.
theorem onOram_works {α : Type} {op : Op} {x : OramM B α} {a : α} (reply : α → Reply) (is : perform op = x >>= fun a => pure (reply a))
    (own : ∀ b, reply b = reply a → b = a) (fine : ∀ e, reply a ≠ .failed e) (kept : reply a ≠ .dropped) (serves : Serves clear memory index)
    (allowed : Admissible memory op) (answers : RingOram.meaningOf clear.params.oram.blockBytes memory op = (reply a,memory)) :
    Searches clear memory [op] (onOram x) index a := by
  by_cases room : index.oram.Room op
  · obtain ⟨next,stepped,tracks,_⟩ := tracks_step serves.2 allowed.1 room (allowed.keeps _)
    rw [answers] at stepped tracks
    have ran : x index.oram = .ok a next := by
      unfold step at stepped
      rw [is] at stepped
      cases first : x index.oram with
      | ok b d =>
          rw [bind_ok first] at stepped
          obtain ⟨same,rfl⟩ := Prod.mk.inj (Option.some.inj stepped)
          rw [own b same]
      | error e d =>
          rw [bind_error first] at stepped
          cases e with
          | error e => exact absurd (Prod.mk.inj (Option.some.inj stepped)).1.symm (fine e)
          | dropped => exact absurd (Prod.mk.inj (Option.some.inj stepped)).1.symm kept
          | panic text => cases stepped
          | diverged => cases stepped
    refine .ok (t:={index with oram:=next}) (show inOram _ x index.oram = _ by unfold inOram; rw [ran]) ⟨rfl,⟨serves.1,tracks⟩,⟨room,?_⟩,[reply a],?_⟩
    · rw [stepped]
      trivial
    · simp [run,stepped]
  · obtain ⟨_,good,tree,ready,_⟩ := serves.2
    obtain ⟨d,panicked⟩ := perform_overflow ready good allowed.1 room
    have ran : x index.oram = .error (.panic "attempt to add with overflow") d := by
      rw [is] at panicked
      cases first : x index.oram with
      | ok b e => rw [bind_ok first] at panicked; cases panicked
      | error e f => rw [bind_error first] at panicked; cases panicked; rfl
    exact .error (t:={index with oram:=d}) (show inOram _ x index.oram = _ by unfold inOram; rw [ran]; rfl) ⟨rfl,fun all => room all.1⟩

omit [AesGcm] in
theorem attempt_error {α σ : Type} {x : EStateM CompassFault σ α} {s t : σ} {e : CompassFault} (ran : attempt x s = .error e t) (error : CompassIndexError) :
    e ≠ .error error := by
  rintro rfl
  unfold attempt at ran
  split at ran
  · cases ran
  · cases ran
  · rename_i other _
    cases ran
    exact other _ rfl

theorem attempt_works {α : Type} {ops : List Op} {x : IndexM B F α} {a : α} (works : Searches clear memory ops x index a) :
    Searches clear memory ops (attempt x) index (.ok a) := by
  cases ran : x index with
  | ok b next =>
      obtain ⟨rfl,rest⟩ := works.at_ok ran
      exact .ok (show attempt x index = .ok (.ok b) next by unfold attempt; rw [ran]) ⟨rfl,rest⟩
  | error e next =>
      obtain ⟨rfl,rest⟩ := works.at_error ran
      exact .error (show attempt x index = .error overflowed next by unfold attempt; rw [ran]; rfl) ⟨rfl,rest⟩

theorem setDeferEvictions_works (serves : Serves clear memory index) (defer : Bool) :
    Searches clear memory [.setDeferEvictions defer] (onOram (setDeferEvictions defer)) index () :=
  onOram_works (fun _ => .done) rfl (fun _ _ => rfl) (fun _ => nofun) nofun serves ⟨trivial,rfl⟩ rfl

theorem flushEvictions_works (serves : Serves clear memory index) : Searches clear memory [.flushEvictions] (onOram flushEvictions) index () :=
  onOram_works (fun _ => .done) rfl (fun _ _ => rfl) (fun _ => nofun) nofun serves ⟨trivial,rfl⟩ rfl

variable [Float32 F] {blocks : List (NodeBlock F)}

-- The read of a node from the tree beside that of its block.
theorem readLayer0Node_mirrors (stored : ∀ id node, blocks[id]? = some node → Stored clear.params.hnsw memory id node) (id : Nat) :
    Mirrors (CompassIndex.oram (B:=B)) step Room (Serves clear memory) overflowed (fun id => Op.read (blockId id)) (readLayer0Node id) (plainReader blocks id) := by
  intro log node log' ran
  obtain ⟨other,_,looked,noted⟩ := ok_of_bind ran
  cases found : Compass.index blocks id with
  | error text => rw [found] at looked; cases looked
  | ok block =>
      rw [found] at looked
      cases looked
      cases noted
      refine ⟨[id],rfl,fun s serves => ?_⟩
      obtain ⟨bytes,held,back⟩ := stored id node (index_ok.mp found)
      have reading : Searches clear memory [.read (blockId id)] (onOram (read (blockId id))) s bytes :=
        onOram_works .payload rfl (fun _ same => by cases same; rfl) (fun _ => nofun) nofun serves ⟨trivial,rfl⟩ (by simp [RingOram.meaningOf,held])
      refine reading.bind fun t kept => .get_bind ?_
      have own : t.params = clear.params := congrArg Cleartext.params kept.1
      rw [own,back]
      exact .pure node kept

-- What a search asks of the client, where it reads these nodes.
def searchOps (reads : List Nat) : List Op :=
  .setDeferEvictions true :: (reads.map (fun id => Op.read (blockId id)) ++ [.setDeferEvictions false,.flushEvictions])

variable {D : Type} [Metric F D] [PartialCmp D] [Add F] [Sub F] [Mul F] [Div F] [Zero F] [One F] [NatCast F] [PartialCmp F] {query : List F}

theorem layeredSearch_works (stored : ∀ id node, blocks[id]? = some node → Stored clear.params.hnsw memory id node) (serves : Serves clear memory index)
    (shaped : query.length = clear.params.hnsw.dim) {k : Nat} {ids reads : List Nat}
    (plain : layeredSearchInner (D:=D) (plainReader blocks) clear query k [] = .ok ids reads) :
    Searches clear memory (searchOps reads) (layeredSearch (D:=D) query k) index ids := by
  obtain ⟨asked,same,search⟩ := layeredSearchInner_mirrors (readLayer0Node_mirrors (B:=B) stored) query k [] ids reads plain
  rw [List.nil_append] at same
  rw [same]
  refine .get_bind ?_
  rw [if_neg (by rw [serves.1]; exact not_not.mpr shaped),serves.1]
  refine Works.bind (setDeferEvictions_works serves true) fun first kept => Works.bind (attempt_works (search first kept)) fun second kept => ?_
  exact Works.bind (setDeferEvictions_works kept false) fun third kept => (attempt_works (flushEvictions_works kept)).last fun _ => rfl

omit [AesGcm] [Float32 F] [Add F] [Sub F] [Mul F] [Div F] [Zero F] [One F] [NatCast F] [PartialCmp F] in
-- None of it changes the memory.
theorem searchOps_still (reads : List Nat) (op : Op) (member : op ∈ searchOps reads) :
    Admissible memory op ∧ (RingOram.meaningOf clear.params.oram.blockBytes memory op).2 = memory := by
  unfold searchOps at member
  rcases List.mem_cons.mp member with rfl | member
  · exact ⟨⟨trivial,rfl⟩,rfl⟩
  rcases List.mem_append.mp member with member | member
  · obtain ⟨id,_,rfl⟩ := List.mem_map.mp member
    refine ⟨⟨trivial,rfl⟩,?_⟩
    cases held : memory (blockId id) <;> simp [RingOram.meaningOf,held]
  · rcases List.mem_cons.mp member with rfl | member
    · exact ⟨⟨trivial,rfl⟩,rfl⟩
    · obtain rfl := List.mem_singleton.mp member
      exact ⟨⟨trivial,rfl⟩,rfl⟩

end Searching

section Serving
open RingOram (Memory)
open RingOram.RingOramClient
variable {B F D : Type} [RingOram.BlockBackend B] [AesGcm] [Float32 F] [Metric F D] [PartialCmp D] [Add F] [Sub F] [Mul F] [Div F] [Zero F] [One F]
  [NatCast F] [PartialCmp F]

-- An index after any searches, those that fail included, in either eviction mode.
inductive Served (built : CompassIndex B F) : CompassIndex B F → Prop where
  | built : Served built built
  | searched {index next : CompassIndex B F} {query : List F} {k : Nat} {ids : List Nat} (prior : Served built index)
      (ran : layeredSearch (D:=D) query k index = .ok ids next) : Served built next
  | failed {index next : CompassIndex B F} {query : List F} {k : Nat} {e : CompassIndexError} (prior : Served built index)
      (ran : layeredSearch (D:=D) query k index = .error (.error e) next) : Served built next
  | deferring {index : CompassIndex B F} (prior : Served built index) (defer : Bool) :
      Served built {index with oram:={index.oram with deferEvictions:=defer}}

-- The state in which the flush at the end of a search leaves the client.
def Flushed (oram : RingOram.RingOramClient B) : Prop :=
  oram.deferEvictions = false ∧ ∃ left, (flushEvictions left = .ok () oram ∧ oram.pendingEvictions = 0) ∨ ∃ e, flushEvictions left = .error e oram

theorem layeredSearch_settles (query : List F) (k : Nat) (index : CompassIndex B F) : Ends (layeredSearch (D:=D) query k) index
    (fun _ next => next.oram.deferEvictions = false ∧ next.oram.pendingEvictions = 0) fun e next => ∀ error, e = .error error → Flushed next.oram := by
  refine .after (get_run index) ?_
  split
  · exact fun _ => nofun
  · refine .after (show onOram (setDeferEvictions true) index = .ok () _ from rfl) ?_
    cases searched : attempt (layeredSearchInner readLayer0Node index.toCleartext query k) {index with oram:={index.oram with deferEvictions:=true}} with
    | error e s => exact .error (bind_error searched) fun error is => absurd is (attempt_error searched error)
    | ok result s =>
        refine .after searched (.after (show onOram (setDeferEvictions false) s = .ok () {s with oram:={s.oram with deferEvictions:=false}} from rfl) ?_)
        have settles := flushEvictions_settles {s.oram with deferEvictions:=false}
        have asked : onOram flushEvictions {s with oram:={s.oram with deferEvictions:=false}} =
            inOram (fun oram => {s with oram:=oram}) flushEvictions {s.oram with deferEvictions:=false} := rfl
        cases flushed : flushEvictions {s.oram with deferEvictions:=false} with
        | ok _ d =>
            obtain ⟨off,none_⟩ := settles.at_ok flushed
            have ran : attempt (onOram flushEvictions) {s with oram:={s.oram with deferEvictions:=false}} = .ok (.ok ()) {s with oram:=d} := by
              unfold attempt inOram at *
              rw [asked,flushed]
            refine .after ran ?_
            cases result with
            | ok ids => exact ⟨off,none_⟩
            | error e => exact fun _ _ => ⟨off,_,.inl ⟨flushed,none_⟩⟩
        | error e d =>
            have off := settles.at_error flushed
            cases attempted : attempt (onOram flushEvictions) {s with oram:={s.oram with deferEvictions:=false}} with
            | error e t => exact .error (bind_error attempted) fun error is => absurd is (attempt_error attempted error)
            | ok answer t =>
                have lands : t = {s with oram:=d} ∧ ∃ error, answer = .error error := by
                  unfold attempt inOram at *
                  rw [asked,flushed] at attempted
                  cases e with
                  | error e => cases attempted; exact ⟨rfl,_,rfl⟩
                  | _ => cases attempted
                obtain ⟨rfl,error,rfl⟩ := lands
                refine .after attempted ?_
                cases result with
                | ok ids => exact fun _ _ => ⟨off,_,.inr ⟨e,flushed⟩⟩
                | error e => exact fun _ _ => ⟨off,_,.inr ⟨_,flushed⟩⟩

end Serving

section Refinement
open RingOram (Memory)
open RingOram.RingOramClient
variable {F D : Type} [Metric F D] [PartialCmp D] [Add F] [Sub F] [Mul F] [Div F] [Zero F] [One F] [NatCast F] [PartialCmp F]

-- A search looks at none of the tree's parameters.
theorem layeredSearchInner_oram {σ : Type} (read : Reader F σ) (clear : Cleartext F) (oram : RingOram.RingOramParams) (query : List F) (k : Nat) :
    layeredSearchInner (D:=D) read {clear with params:={clear.params with oram:=oram}} query k = layeredSearchInner (D:=D) read clear query k := by
  have turns : ∀ ef left (beam : Beam D), searchTurns read {clear with params:={clear.params with oram:=oram}} query ef left beam =
      searchTurns read clear query ef left beam := by
    intro ef left
    induction left with
    | zero => exact fun beam => rfl
    | succ left ih =>
        intro beam
        unfold searchTurns
        have filter : ∀ c node, candidatesForFetch {clear with params:={clear.params with oram:=oram}} query c node = candidatesForFetch clear query c node :=
          fun _ _ => rfl
        simp only [ih,filter]
  unfold layeredSearchInner keptBeam
  simp only [turns]
  rfl

theorem layeredSearchInner_kept {σ : Type} {read : Reader F σ} {clear : Cleartext F} {query : List F} {k : Nat} {s t : σ} {beam : Beam D}
    (ran : keptBeam read clear query k s = .ok beam t) : layeredSearchInner (D:=D) read clear query k s = .ok (beam.nearest k) t := bind_ok ran

variable {B : Type} [RingOram.BlockBackend B] [RingOram.LossyBackend B] [RingOram.FaithfulBackend B] [AesGcm] [Float32 F] [Sha256]
  [LevelSampler F] [Neg F] [Quantised F] {embeddings : List (List F)} {params : CompassIndexParams F} {backend : B} {generator : Bytes → Nat → Nat}
  {hashes : RingOram.HashOrder} {built : CompassIndex B F}

omit [RingOram.FaithfulBackend B] [Sha256] [LevelSampler F] in
-- After any searches an index still has the graph's nodes.
theorem Served.serves [StrictCmp D] {h : PlainHnsw F} {hints : List NodeHints} {memory : Memory} {index : CompassIndex B F} (indexed : Indexed h hints)
    (same : params.hnsw = h.params) (stored : ∀ id node, h.layer0Blocks[id]? = some node → Stored params.hnsw memory id node)
    (start : Serves (cleartext h params hints) memory built) (served : Served (D:=D) built index) : Serves (cleartext h params hints) memory index := by
  have searching : ∀ {index : CompassIndex B F} {query : List F} {k : Nat}, Serves (cleartext h params hints) memory index →
      query.length = params.hnsw.dim → ∃ ids reads, Searches (cleartext h params hints) memory (searchOps reads) (layeredSearch (D:=D) query k) index ids := by
    intro index query k serves shaped
    obtain ⟨stop,beam,reads,_,kept,_⟩ := plain_run (D:=D) indexed same shaped k (Beam.upheld_true _ _)
    exact ⟨_,reads,layeredSearch_works stored serves shaped (layeredSearchInner_kept kept)⟩
  have shape : ∀ {index : CompassIndex B F} {query : List F} {k : Nat}, Serves (cleartext h params hints) memory index →
      query.length ≠ params.hnsw.dim → layeredSearch (D:=D) query k index = .error (.panic "query dim mismatch with CompassIndex") index := by
    intro index query k serves differs
    unfold layeredSearch
    rw [bind_ok (get_run index),serves.1,if_pos (show query.length ≠ (cleartext h params hints).params.hnsw.dim from differs)]
    rfl
  induction served with
  | built => exact start
  | @searched index next query k ids _ ran ih =>
      by_cases shaped : query.length = params.hnsw.dim
      · obtain ⟨ids,reads,works⟩ := searching (k:=k) ih shaped
        exact (works.at_ok ran).2.1
      · rw [shape ih shaped] at ran
        cases ran
  | @failed index next query k e _ ran ih =>
      by_cases shaped : query.length = params.hnsw.dim
      · obtain ⟨ids,reads,works⟩ := searching (k:=k) ih shaped
        cases (works.at_error ran).1
      · rw [shape ih shaped] at ran
        cases ran
  | @deferring index _ defer ih =>
      have allowed : Admissible memory (.setDeferEvictions defer) := ⟨trivial,rfl⟩
      have stepped : step index.oram (.setDeferEvictions defer) = some (.done,{index.oram with deferEvictions:=defer}) := rfl
      exact ⟨ih.1,(admissible_step ih.2 allowed stepped).2⟩

-- Reading one node a search anew and anew: with each the root is written once more,
-- until its counter has no room.
theorem searches_run_out [StrictCmp D] (made : fromPlaintextCorpusOn (D:=D) embeddings params backend generator hashes = .ok built)
    (shaped : query.length = params.hnsw.dim) (k : Nat) (visits : ∀ h hints, PlainHnsw.build (D:=D) embeddings params.hnsw = .ok h →
      h.layer0DirectionalHints = .ok hints → ∀ ids, layeredSearchInner (D:=D) (plainReader h.layer0Blocks) (cleartext h params hints) query k [] ≠ .ok ids []) :
    ∃ index next, Served (D:=D) built index ∧ layeredSearch (D:=D) query k index = .error (.panic "attempt to add with overflow") next := by
  obtain ⟨h,hints,memory,planned,hinted,indexed,same,clear,tracks,stored⟩ := fromPlaintextCorpusOn_ok made
  obtain ⟨stop,beam,reads,_,kept,_⟩ := plain_run (D:=D) indexed same.symm shaped k (Beam.upheld_true _ _)
  have plain := layeredSearchInner_kept kept
  obtain ⟨first,rest,rfl⟩ := List.exists_cons_of_ne_nil (l:=reads) fun none_ => by
    subst none_
    exact visits h hints planned hinted _ plain
  obtain ⟨node,found⟩ := layeredSearchInner_known plain first List.mem_cons_self
  obtain ⟨bytes,held,_⟩ := stored first node found
  have known : (memory (blockId first)).isSome := by rw [held]; rfl
  have asks : RingOram.Op.read (blockId first) ∈ searchOps (first :: rest) := List.mem_cons_of_mem _ List.mem_cons_self
  by_contra never
  have always : ∀ m, ∃ index : CompassIndex B F, Served (D:=D) built index ∧ m ≤ index.oram.counter 0 := by
    intro m
    induction m with
    | zero => exact ⟨built,.built,Nat.zero_le _⟩
    | succ m ih =>
        obtain ⟨index,served,grown⟩ := ih
        have serves := served.serves indexed same.symm stored ⟨clear,tracks⟩
        have works := layeredSearch_works stored serves shaped plain
        cases ran : layeredSearch (D:=D) query k index with
        | error e next =>
            obtain ⟨rfl,_⟩ := works.at_error ran
            exact absurd ⟨index,next,served,ran⟩ never
        | ok ids next =>
            obtain ⟨_,_,_,replies,went⟩ := works.at_ok ran
            have raised := (RingOram.RingOramClient.run_raises serves.2 (searchOps_still (first :: rest)) went).2 _ asks known
            exact ⟨next,.searched served ran,by omega⟩
  obtain ⟨index,served,grown⟩ := always (2 ^ 32)
  have serves := served.serves indexed same.symm stored ⟨clear,tracks⟩
  cases ran : layeredSearch (D:=D) query k index with
  | error e next =>
      obtain ⟨rfl,_⟩ := (layeredSearch_works stored serves shaped plain).at_error ran
      exact never ⟨index,next,served,ran⟩
  | ok ids next =>
      obtain ⟨_,_,room,_⟩ := (layeredSearch_works stored serves shaped plain).at_ok ran
      have reading : Room {index.oram with deferEvictions:=true} (.read (blockId first)) := room.2.1
      obtain ⟨_,_,tree,ready,_⟩ := serves.2
      have mapped := ready.recoverable.named.known (blockId first)
      change (index.oram.posmap (blockId first)).isSome = _ at mapped
      rw [known] at mapped
      have small : index.oram.counter 0 + 1 < 2 ^ 32 := (reading mapped).1
      omega

-- A search of an index answers as the search of the graph's blocks does, whatever
-- the tree's parameters, as long as the client's counters have room for what it asks.
theorem searches_as_plain [StrictCmp D] (made : fromPlaintextCorpusOn (D:=D) embeddings params backend generator hashes = .ok built) :
    ∃ h hints, PlainHnsw.build (D:=D) embeddings params.hnsw = .ok h ∧ h.layer0DirectionalHints = .ok hints ∧
      (∀ index : CompassIndex B F, Served (D:=D) built index → ∀ query, query.length = params.hnsw.dim → ∀ k, ∃ ids reads,
        (∀ oram, layeredSearchInner (D:=D) (plainReader h.layer0Blocks) (cleartext h {params with oram:=oram} hints) query k [] = .ok ids reads) ∧
          ((∃ next, layeredSearch (D:=D) query k index = .ok ids next) ↔ Throughout step Room index.oram (searchOps reads))) ∧
      ∀ (B' : Type) [RingOram.BlockBackend B'] (index : CompassIndex B' F) query k, Ends (layeredSearch (D:=D) query k) index
        (fun _ next => next.oram.deferEvictions = false ∧ next.oram.pendingEvictions = 0) fun e next => ∀ error, e = .error error → Flushed next.oram := by
  obtain ⟨h,hints,memory,planned,hinted,indexed,same,clear,tracks,stored⟩ := fromPlaintextCorpusOn_ok made
  refine ⟨h,hints,planned,hinted,fun index served query shaped k => ?_,fun B' _ index query k => layeredSearch_settles query k index⟩
  have serves := served.serves indexed same.symm stored ⟨clear,tracks⟩
  obtain ⟨stop,beam,reads,_,kept,_⟩ := plain_run (D:=D) indexed same.symm shaped k (Beam.upheld_true _ _)
  have plain := layeredSearchInner_kept kept
  refine ⟨beam.nearest k,reads,fun oram => ?_,?_⟩
  · rw [←plain]
    exact congrFun (layeredSearchInner_oram (plainReader h.layer0Blocks) (cleartext h params hints) oram query k) []
  · exact (layeredSearch_works stored serves shaped plain).ends_iff

end Refinement

section Exact
open RingOram.RingOramClient (step Room)
variable {F D : Type} [Metric F D] [LinearOrder D] [Add F] [Sub F] [Mul F] [Div F] [Zero F] [One F] [NatCast F] [PartialCmp F]
  {B : Type} [RingOram.BlockBackend B] [RingOram.LossyBackend B] [RingOram.FaithfulBackend B] [AesGcm] [Float32 F] [Sha256]
  [LevelSampler F] [Neg F] [Quantised F] {embeddings : List (List F)} {params : CompassIndexParams F} {backend : B} {generator : Bytes → Nat → Nat}
  {hashes : RingOram.HashOrder} {built : CompassIndex B F}

-- With distances that are ordered a search gives the nearest of what it meets, and
-- so does the search of a layer while the graph is built.
theorem searches_exactly (made : fromPlaintextCorpusOn (D:=D) embeddings params backend generator hashes = .ok built) :
    ∃ h hints, PlainHnsw.build (D:=D) embeddings params.hnsw = .ok h ∧ h.layer0DirectionalHints = .ok hints ∧
      (∀ index : CompassIndex B F, Served (D:=D) built index → ∀ query, query.length = params.hnsw.dim → ∀ k, ∃ (stop : Nat) (beam : Beam D) (reads : List Nat),
        upperDescent (buildUpperLayerCache h) query (turnLimit (cleartext h params hints)) h.topLayer (h.entry,(measure query h h.entry : D)) =
          .ok (stop,measure query h stop) ∧
        keptBeam (plainReader h.layer0Blocks) (cleartext h params hints) query k [] = .ok beam reads ∧
        Answers (D:=D) h params query k stop beam.visited (beam.nearest k) ∧
        ∀ ids, (∃ next, layeredSearch (D:=D) query k index = .ok ids next) ↔ ids = beam.nearest k ∧ Throughout step Room index.oram (searchOps reads)) ∧
      ∀ target entries layer ef layers inserted (out : List (NodeDist D)), beamSearchLayer embeddings target entries layer ef layers inserted = .ok out →
        ∃ seeded beam : Beam D, Beam.seed embeddings target inserted entries ⟨[],.new,.new⟩ = .ok seeded ∧
          Beam.turns embeddings target layer ef inserted layers (inserted.length + 1) seeded = .ok beam ∧
          (out.map NodeDist.id).Perm (Beam.ids beam.top) ∧ (∀ u ∈ out, u.dist = apart embeddings target u.id) ∧
          ∀ v ∈ beam.visited, v ∉ out.map NodeDist.id → ∀ u ∈ out, ¬ apart embeddings target v < u.dist := by
  obtain ⟨h,hints,memory,planned,hinted,indexed,same,clear,tracks,stored⟩ := fromPlaintextCorpusOn_ok made
  refine ⟨h,hints,planned,hinted,fun index served query shaped k => ?_,fun _ _ _ _ _ _ _ ran => Beam.beamSearchLayer_dominates ran⟩
  have serves := served.serves indexed same.symm stored ⟨clear,tracks⟩
  obtain ⟨stop,beam,reads,descended,kept,answers⟩ := plain_search (D:=D) indexed same.symm shaped k
  refine ⟨stop,beam,reads,descended,kept,answers,fun ids => ?_⟩
  have works := layeredSearch_works stored serves shaped (layeredSearchInner_kept kept)
  constructor
  · rintro ⟨next,ran⟩
    obtain ⟨same,_,room,_⟩ := works.at_ok ran
    exact ⟨same,room⟩
  · rintro ⟨rfl,room⟩
    exact works.ends_iff.mpr room

end Exact

section Lattice
open RingOram.RingOramClient (step Room)

-- Scalars of one byte and the sum of the coordinates' distances, with which all of
-- it can be run.
theorem byte_nonzero : NeZero 256 := inferInstance
attribute [local instance] byte_nonzero
local instance byteCast : NatCast (Fin 256) := ⟨Fin.ofNat 256⟩
local instance byteZero : Zero (Fin 256) := ⟨Fin.ofNat 256 0⟩
local instance byteOne : One (Fin 256) := ⟨Fin.ofNat 256 1⟩
local instance byteBits : Float32 (Fin 256) :=
  ⟨fun x => [UInt8.ofNat x.val,0,0,0],fun bytes => Fin.ofNat 256 (bytes.headD 0).toNat,fun _ => rfl,by decide +kernel⟩
local instance byteCodes : Quantised (Fin 256) := ⟨fun x => x,max,1,fun x => UInt8.ofNat x.val⟩
local instance byteMetric : Metric (Fin 256) Nat := ⟨fun a b => ((a.zip b).map fun xy => (xy.1.val - xy.2.val) + (xy.2.val - xy.1.val)).sum⟩
local instance byteLevels : LevelSampler (Fin 256) := levelsOf []
local instance byteDigest : Sha256 := .folded
local instance byteAead : AesGcm := .framed

def corners : List (List (Fin 256)) := [[0,0],[9,0],[0,9]]
def cornered : CompassIndexParams (Fin 256) := ⟨⟨2,2,2,4,0,[],.simple⟩,{z:=2,s:=2,a:=2,blockBytes:=20,nLeaves:=2,treetopLevels:=0},2,2⟩
def cornerIndex : Except CompassFault (CompassIndex RingOram.InMemoryBlockBackend (Fin 256)) :=
  fromPlaintextCorpusOn (D:=Nat) corners cornered (RingOram.InMemoryBlockBackend.new 3) (fun _ n => n) .asStored

theorem cornerIndex_made : cornerIndex.isOk = true := by decide +kernel

-- The search of the plain graph's blocks, and the nodes it reads.
def cornerSearch (query : List (Fin 256)) (k : Nat) : Option (List Nat × List Nat) := do
  let h ← (PlainHnsw.build (D:=Nat) corners cornered.hnsw).toOption
  let hints ← h.layer0DirectionalHints.toOption
  match layeredSearchInner (D:=Nat) (plainReader h.layer0Blocks) (cleartext h cornered hints) query k [] with
  | .ok ids reads => return (ids,reads)
  | .error _ _ => none

theorem cornerSearch_near : cornerSearch [8,1] 1 = some ([1],[0,0,1,2,1]) := by decide +kernel

theorem cornerSearch_is {h : PlainHnsw (Fin 256)} {hints : List NodeHints} {query : List (Fin 256)} {k : Nat} {ids reads : List Nat}
    (planned : PlainHnsw.build (D:=Nat) corners cornered.hnsw = .ok h) (hinted : h.layer0DirectionalHints = .ok hints)
    (plain : layeredSearchInner (D:=Nat) (plainReader h.layer0Blocks) (cleartext h cornered hints) query k [] = .ok ids reads) :
    cornerSearch query k = some (ids,reads) := by
  unfold cornerSearch
  rw [planned]
  show (h.layer0DirectionalHints.toOption.bind fun hints => _) = _
  rw [hinted]
  show (match layeredSearchInner (D:=Nat) (plainReader h.layer0Blocks) (cleartext h cornered hints) query k [] with
    | .ok ids reads => some (ids,reads)
    | .error _ _ => none) = _
  rw [plain]

theorem cornerIndex_roomy : (cornerIndex.toOption.map fun built => decide (Throughout step Room built.oram (searchOps [0,0,1,2,1]))) = some true := by
  decide +kernel

theorem searches_as_plain_three_corners : ∃ built next, cornerIndex = .ok built ∧ layeredSearch (D:=Nat) [8,1] 1 built = .ok [1] next := by
  obtain ⟨built,made⟩ := except_isOk cornerIndex_made
  obtain ⟨h,hints,planned,hinted,search,_⟩ := searches_as_plain (D:=Nat) made
  obtain ⟨ids,reads,plain,answers⟩ := search built .built [8,1] rfl 1
  have known := cornerSearch_is planned hinted (plain cornered.oram)
  rw [cornerSearch_near] at known
  cases known
  have room := cornerIndex_roomy
  rw [made] at room
  obtain ⟨next,ran⟩ := answers.mpr (of_decide_eq_true (Option.some.inj room))
  exact ⟨built,next,made,ran⟩

-- One search repeated: the counters run out in the midst of one.
theorem cornerIndex_wears : ∃ built index next, cornerIndex = .ok built ∧ Served (D:=Nat) built index ∧
    layeredSearch (D:=Nat) [8,1] 1 index = .error (.panic "attempt to add with overflow") next := by
  obtain ⟨built,made⟩ := except_isOk cornerIndex_made
  have shaped : ([8,1] : List (Fin 256)).length = cornered.hnsw.dim := rfl
  obtain ⟨index,next,served,ran⟩ := searches_run_out (D:=Nat) made shaped 1 fun h hints planned hinted ids plain => by
    have known := cornerSearch_is planned hinted plain
    rw [cornerSearch_near] at known
    cases known
  exact ⟨built,index,next,made,served,ran⟩

theorem searches_wear_out :
    ∃ built index next, cornerIndex = .ok built ∧ Served (D:=Nat) built index ∧ cornerSearch [8,1] 1 = some ([1],[0,0,1,2,1]) ∧
      layeredSearch (D:=Nat) [8,1] 1 index = .error (.panic "attempt to add with overflow") next := by
  obtain ⟨built,index,next,made,served,ran⟩ := cornerIndex_wears
  exact ⟨built,index,next,made,served,cornerSearch_near,ran⟩

theorem searches_exactly_three_corners : ∃ built h stop evaluated next, cornerIndex = .ok built ∧ layeredSearch (D:=Nat) [8,1] 1 built = .ok [1] next ∧
    Answers (D:=Nat) h cornered [8,1] 1 stop evaluated [1] := by
  obtain ⟨built,made⟩ := except_isOk cornerIndex_made
  obtain ⟨h,hints,planned,hinted,search,_⟩ := searches_exactly (D:=Nat) made
  obtain ⟨stop,beam,reads,_,kept,answers,returns⟩ := search built .built [8,1] rfl 1
  have known := cornerSearch_is planned hinted (layeredSearchInner_kept kept)
  rw [cornerSearch_near] at known
  obtain ⟨near,rfl⟩ := Prod.mk.inj (Option.some.inj known)
  have room := cornerIndex_roomy
  rw [made] at room
  obtain ⟨next,ran⟩ := (returns [1]).mpr ⟨near,of_decide_eq_true (Option.some.inj room)⟩
  exact ⟨built,h,stop,beam.visited,next,made,ran,near ▸ answers⟩

-- Worn out, an index has no nearest node to give.
theorem nearest_not_given :
    ∃ built index, cornerIndex = .ok built ∧ Served (D:=Nat) built index ∧ ¬ ∃ ids next, layeredSearch (D:=Nat) [8,1] 1 index = .ok ids next := by
  obtain ⟨built,index,next,made,served,ran⟩ := cornerIndex_wears
  refine ⟨built,index,made,served,?_⟩
  rintro ⟨ids,after,answered⟩
  rw [ran] at answered
  cases answered

end Lattice
end Compass
