import GeloLightrag.Extract.Orchestrator

namespace Extract
open Foundation KgStore

section Gathered
variable {F : Type} [ParseFloat F] {cfg : ExtractionConfig} {key : Text}

-- The drafts of the outputs, each with the chunk that it is of.
def entityDrafts (F : Type) [ParseFloat F] (cfg : ExtractionConfig) (answered : List (ChunkInput × DecoderOutput)) : List (Text × EntityDraft) :=
  answered.flatMap fun a => (parseTupleStream a.2.text cfg.tupleConfig : Stream F).1.map fun d => (a.1.id,d)

def relationDrafts (F : Type) [ParseFloat F] (cfg : ExtractionConfig) (answered : List (ChunkInput × DecoderOutput)) : List (Text × RelationDraft F) :=
  answered.flatMap fun a => (parseTupleStream a.2.text cfg.tupleConfig : Stream F).2.1.map fun d => (a.1.id,d)

theorem noted_entities (answered : List (ChunkInput × DecoderOutput)) (p : Progress) :
    (answered.foldl (noteOutput F cfg) p).entities =
      (entityDrafts F cfg answered).foldl (fun table item => OrderedTable.upsert item.2.name (mergeEntity item.1 item.2) table) p.entities := by
  induction answered generalizing p with
  | nil => rfl
  | cons a rest ih =>
      rw [List.foldl_cons,ih,entityDrafts,entityDrafts,List.flatMap_cons,List.foldl_append,List.foldl_map]
      rfl

theorem noted_relations (answered : List (ChunkInput × DecoderOutput)) (p : Progress) :
    (answered.foldl (noteOutput F cfg) p).relations =
      (relationDrafts F cfg answered).foldl (fun table item => OrderedTable.upsert item.2.key (mergeRelation item.1 item.2) table) p.relations := by
  induction answered generalizing p with
  | nil => rfl
  | cons a rest ih =>
      rw [List.foldl_cons,ih,relationDrafts,relationDrafts,List.flatMap_cons,List.foldl_append,List.foldl_map]
      rfl

-- What is merged of the drafts of one key: chunks and descriptions.
def mergedDescription (drafts : List (Text × Text)) : Text := (drafts.map Prod.snd).foldl mergeDescription []

def mergedSources (drafts : List (Text × Text)) : List Text := (drafts.map Prod.fst).foldl mergeSource []

section Merging
variable {K M α : Type} {change : α → Option M → M} {name : α → K} {draft : α → Text × Text} {make : K → Text → List Text → M}

-- A draft that is merged: its key, chunk and description tell what becomes of an entry.
structure MergesInto (change : α → Option M → M) (name : α → K) (draft : α → Text × Text) (make : K → Text → List Text → M) : Prop where
  fresh : ∀ item, change item none = make (name item) (draft item).2 [(draft item).1]
  grown : ∀ item key description sourceChunks, change item (some (make key description sourceChunks)) =
    make key (mergeDescription description (draft item).2) (mergeSource sourceChunks (draft item).1)

theorem MergesInto.changed (into : MergesInto change name draft make) {key : K} (items : List α) (named : ∀ item ∈ items, name item = key) :
    OrderedTable.changed change none items =
      if items = [] then none else some (make key (mergedDescription (items.map draft)) (mergedSources (items.map draft))) := by
  induction items using List.reverseRecOn with
  | nil => rfl
  | append_singleton items item ih =>
      have known := ih fun item member => named item (List.mem_append_left _ member)
      have own : name item = key := named item (List.mem_append_right _ List.mem_cons_self)
      rw [if_neg (List.append_ne_nil_of_right_ne_nil _ (List.cons_ne_nil _ _))]
      unfold OrderedTable.changed at known ⊢
      rw [List.foldl_append,List.foldl_cons,List.foldl_nil,known]
      unfold mergedDescription mergedSources
      by_cases none_ : items = []
      · subst none_
        rw [if_pos rfl,into.fresh,own,List.nil_append,List.map_singleton,List.map_singleton,List.map_singleton,List.foldl_cons,List.foldl_cons,
          List.foldl_nil,List.foldl_nil,mergeDescription_nil]
        rfl
      · rw [if_neg none_,into.grown]
        simp only [List.map_append,List.map_cons,List.map_nil,List.foldl_append,List.foldl_cons,List.foldl_nil]

-- The entries of a table that lists what the drafts of each key are merged to.
theorem MergesInto.listed [LinearOrder K] [DecidableEq K] (into : MergesInto change name draft make) {table : OrderedTable K M} {items : List α} {key : K} {entry : M}
    (lists : table.Lists fun key => OrderedTable.changed change none (items.filter fun item => decide (name item = key))) :
    (key,entry) ∈ table ↔ (∃ item ∈ items, name item = key) ∧ entry = make key
      (mergedDescription ((items.filter fun item => decide (name item = key)).map draft)) (mergedSources ((items.filter fun item => decide (name item = key)).map draft)) := by
  refine (lists.2 key entry).trans ?_
  dsimp only
  rw [into.changed _ fun item member => of_decide_eq_true (List.mem_filter.mp member).2]
  have some_ : items.filter (fun item => decide (name item = key)) ≠ [] ↔ ∃ item ∈ items, name item = key := by
    rw [Ne,List.filter_eq_nil_iff]
    simp
  rw [←some_]
  split
  · rename_i none_
    exact iff_of_false nofun fun is => is.1 none_
  · rename_i there
    rw [Option.some.injEq,eq_comm]
    exact (and_iff_right there).symm

end Merging

theorem entities_merge : MergesInto (fun item : Text × EntityDraft => mergeEntity item.1 item.2) (fun item => item.2.name)
    (fun item => (item.1,item.2.description)) MergedEntity.mk := ⟨fun _ => rfl,fun _ _ _ _ => rfl⟩

omit [ParseFloat F] in
theorem relations_merge : MergesInto (fun item : Text × RelationDraft F => mergeRelation item.1 item.2) (fun item => item.2.key)
    (fun item => (item.1,item.2.description)) (fun ends => MergedRelation.mk (ofLex ends).1 (ofLex ends).2) := ⟨fun _ => rfl,fun _ _ _ _ => rfl⟩

-- The chunks of the drafts in the order they first come, and a description that has all
-- of theirs in it, the first that is not empty in front.
structure Merges (drafts : List (Text × Text)) (description : Text) (sourceChunks : List Text) : Prop where
  sources : sourceChunks = (drafts.map Prod.fst).reverse.dedup.reverse
  all : ∀ draft ∈ drafts, draft.2 <:+: description
  first : ∀ text, (drafts.map Prod.snd).find? (fun text => decide (text ≠ [])) = some text → text <+: description

theorem merges (drafts : List (Text × Text)) : Merges drafts (mergedDescription drafts) (mergedSources drafts) :=
  ⟨merged_sources _,fun _ member => merged_inside [] _ (List.mem_map_of_mem member),fun _ => merged_first⟩

omit [ParseFloat F] in
-- Where a program that checks its embeddings' number got some, there is one for each text.
theorem embedChecked_rows {σ : Type} {rt : Runtime σ F} {kind : String} {texts : List Text} {rows : List (List F)} {s t : σ}
    (ran : embedChecked rt kind texts s = .ok rows t) : rows.length = texts.length ∧ rt.embedBatch texts s = .ok rows t := by
  unfold embedChecked at ran
  obtain ⟨v,u,asked,rest⟩ := ok_of_bind ran
  dsimp only at rest
  split at rest
  · cases rest
  · rename_i same
    cases rest
    exact ⟨not_not.mp same,asked⟩

omit [ParseFloat F] in
theorem embedUnlessEmpty_rows {σ : Type} {rt : Runtime σ F} {kind : String} {texts : List Text} {rows : List (List F)} {s t : σ}
    (ran : embedUnlessEmpty rt kind texts s = .ok rows t) : rows.length = texts.length ∧ (texts ≠ [] → rt.embedBatch texts s = .ok rows t) := by
  unfold embedUnlessEmpty at ran
  split at ran
  · rename_i none_
    cases ran
    exact ⟨by rw [none_]; rfl,fun some_ => absurd none_ some_⟩
  · have rows := embedChecked_rows ran
    exact ⟨rows.1,fun _ => rows.2⟩

end Gathered

section Extracted
variable {σ F : Type} [ParseFloat F] {rt : Runtime σ F} {cfg : ExtractionConfig}

-- One entity for each drafted name and one relation for each drafted pair of them, in
-- order, each with what is merged of its own drafts.
structure Gathers (F : Type) [ParseFloat F] (cfg : ExtractionConfig) (answered : List (ChunkInput × DecoderOutput)) (entities : List MergedEntity)
    (relations : List MergedRelation) : Prop where
  ordered : (entities.map MergedEntity.name).Pairwise (· < ·)
  drafted : ∀ name, name ∈ entities.map MergedEntity.name ↔ ∃ item ∈ entityDrafts F cfg answered, item.2.name = name
  entity : ∀ e ∈ entities, Merges (((entityDrafts F cfg answered).filter fun item => decide (item.2.name = e.name)).map fun item => (item.1,item.2.description))
    e.description e.sourceChunks
  sorted : (relations.map fun r => toLex (r.src,r.tgt)).Pairwise (· < ·)
  related : ∀ a b, toLex (a,b) ∈ (relations.map fun r => toLex (r.src,r.tgt)) ↔
    (∃ item ∈ relationDrafts F cfg answered, item.2.key = toLex (a,b)) ∧ a ∈ entities.map MergedEntity.name ∧ b ∈ entities.map MergedEntity.name
  relation : ∀ r ∈ relations, Merges (((relationDrafts F cfg answered).filter fun item => decide (item.2.key = toLex (r.src,r.tgt))).map fun item =>
    (item.1,item.2.description)) r.description r.sourceChunks

-- Each part of the graph with the row that the embedder gave for its text.
structure Assembled (rt : Runtime σ F) (live : List ChunkInput) (entities : List MergedEntity) (relations : List MergedRelation) (kg : ExtractedKg F) : Prop where
  chunks : ∃ rows, rows.length = live.length ∧ (∃ s t, rt.embedBatch (live.map ChunkInput.text) s = .ok rows t) ∧
    kg.chunks = List.zipWith ChunkInput.asChunk live rows
  entities : ∃ rows, rows.length = entities.length ∧ (entities ≠ [] → ∃ s t, rt.embedBatch (entities.map MergedEntity.text) s = .ok rows t) ∧
    kg.entities = List.zipWith MergedEntity.asEntity entities rows
  relations : ∃ rows, rows.length = relations.length ∧ (relations ≠ [] → ∃ s t, rt.embedBatch (relations.map MergedRelation.text) s = .ok rows t) ∧
    kg.relations = List.zipWith MergedRelation.asRelation relations rows

variable {answered : List (ChunkInput × DecoderOutput)} {p : Progress}

-- The tables that the outputs are noted in.
structure Noted (F : Type) [ParseFloat F] (cfg : ExtractionConfig) (answered : List (ChunkInput × DecoderOutput)) (p : Progress) : Prop where
  entities : p.entities.Lists fun key => OrderedTable.changed (fun item => mergeEntity item.1 item.2) none
    ((entityDrafts F cfg answered).filter fun item => decide (item.2.name = key))
  relations : p.relations.Lists fun key => OrderedTable.changed (fun item => mergeRelation item.1 item.2) none
    ((relationDrafts F cfg answered).filter fun item => decide (item.2.key = key))

theorem noted (answered : List (ChunkInput × DecoderOutput)) (report : ExtractionReport) : Noted F cfg answered (answered.foldl (noteOutput F cfg) ⟨[],[],report⟩) := by
  refine ⟨?_,?_⟩
  · rw [noted_entities]
    exact OrderedTable.Lists.foldl OrderedTable.lists_nil _
  · rw [noted_relations]
    exact OrderedTable.Lists.foldl OrderedTable.lists_nil _

theorem Noted.entry (noted : Noted F cfg answered p) {entry : Text × MergedEntity} (member : entry ∈ p.entities) : entry.2.name = entry.1 := by
  rw [((entities_merge.listed noted.entities).mp member).2]

theorem Noted.pair (noted : Noted F cfg answered p) {entry : (Text ×ₗ Text) × MergedRelation} (member : entry ∈ p.relations) :
    toLex (entry.2.src,entry.2.tgt) = entry.1 := by
  rw [((relations_merge.listed noted.relations).mp member).2]
  rfl

theorem Noted.names (noted : Noted F cfg answered p) : (p.entities.map Prod.snd).map MergedEntity.name = p.entities.map Prod.fst := by
  rw [List.map_map]
  exact List.map_congr_left fun entry member => noted.entry member

theorem keeps_iff (entities : OrderedTable Text MergedEntity) (r : MergedRelation) :
    (!dangles entities r) = true ↔ r.src ∈ entities.map Prod.fst ∧ r.tgt ∈ entities.map Prod.fst := by
  rw [dangles,Bool.not_eq_true',decide_eq_false_iff_not,not_not]

theorem Noted.drafted (noted : Noted F cfg answered p) (name : Text) :
    name ∈ (p.entities.map Prod.snd).map MergedEntity.name ↔ ∃ item ∈ entityDrafts F cfg answered, item.2.name = name := by
  rw [noted.names,List.mem_map]
  constructor
  · rintro ⟨entry,member,rfl⟩
    exact ((entities_merge.listed noted.entities).mp member).1
  · intro drafted
    exact ⟨(name,_),(entities_merge.listed noted.entities).mpr ⟨drafted,rfl⟩,rfl⟩

-- A drafted pair is kept where both of its names are.
theorem Noted.related (noted : Noted F cfg answered p) (a b : Text) :
    toLex (a,b) ∈ (((p.relations.map Prod.snd).filter fun r => !dangles p.entities r).map fun r => toLex (r.src,r.tgt)) ↔
      (∃ item ∈ relationDrafts F cfg answered, item.2.key = toLex (a,b)) ∧ a ∈ (p.entities.map Prod.snd).map MergedEntity.name ∧
        b ∈ (p.entities.map Prod.snd).map MergedEntity.name := by
  rw [noted.names,List.mem_map]
  constructor
  · rintro ⟨r,member,same⟩
    obtain ⟨listed,keeps⟩ := List.mem_filter.mp member
    obtain ⟨entry,held,rfl⟩ := List.mem_map.mp listed
    cases same
    have drafted := ((relations_merge.listed noted.relations).mp held).1
    rw [←noted.pair held] at drafted
    exact ⟨drafted,(keeps_iff _ _).mp keeps⟩
  · rintro ⟨drafted,ends⟩
    refine ⟨⟨a,b,_,_⟩,List.mem_filter.mpr ⟨List.mem_map.mpr ⟨(toLex (a,b),_),(relations_merge.listed noted.relations).mpr ⟨drafted,rfl⟩,rfl⟩,
      (keeps_iff _ _).mpr ends⟩,rfl⟩

theorem Noted.gathers (noted : Noted F cfg answered p) :
    Gathers F cfg answered (p.entities.map Prod.snd) ((p.relations.map Prod.snd).filter fun r => !dangles p.entities r) := by
  refine ⟨?_,noted.drafted,fun e member => ?_,?_,noted.related,fun r member => ?_⟩
  · rw [noted.names]
    exact List.pairwise_map.mpr noted.entities.1
  · obtain ⟨entry,held,rfl⟩ := List.mem_map.mp member
    rw [noted.entry held]
    rw [((entities_merge.listed noted.entities).mp held).2]
    exact merges _
  · refine List.pairwise_map.mpr (List.Pairwise.filter _ (List.pairwise_map.mpr (List.Pairwise.imp_of_mem ?_ noted.relations.1)))
    intro first second member member' less
    rw [noted.pair member,noted.pair member']
    exact less
  · obtain ⟨entry,held,rfl⟩ := List.mem_map.mp (List.mem_filter.mp member).1
    rw [noted.pair held]
    rw [((relations_merge.listed noted.relations).mp held).2]
    exact merges _

theorem kept_dropped {α : Type} (drops : α → Bool) (items : List α) : (items.filter fun item => !drops item).length + items.countP drops = items.length := by
  rw [List.countP_eq_length_filter,Nat.add_comm]
  exact (List.length_eq_length_filter_add drops).symm

-- Every drafted pair has one entry.
theorem Noted.pairs (noted : Noted F cfg answered p) : p.relations.length = ((relationDrafts F cfg answered).map fun item => item.2.key).dedup.length := by
  have once : (p.relations.map Prod.fst).Nodup := (List.pairwise_map.mpr noted.relations.1).imp fun less => ne_of_lt less
  have same : (p.relations.map Prod.fst).Perm ((relationDrafts F cfg answered).map fun item => item.2.key).dedup := by
    refine (List.perm_ext_iff_of_nodup once (List.nodup_dedup _)).mpr fun ends => ?_
    rw [List.mem_dedup,List.mem_map,List.mem_map]
    constructor
    · rintro ⟨entry,held,rfl⟩
      exact ((relations_merge.listed noted.relations).mp held).1
    · intro drafted
      exact ⟨(ends,_),(relations_merge.listed noted.relations).mpr ⟨drafted,rfl⟩,rfl⟩
  rw [←same.length_eq,List.length_map]

-- The graph of a run that returned, and how many relations it dropped.
theorem extraction_gathers (sequential : rt.Sequential) {build : Text → Text} {chunks : List ChunkInput} {s t : σ} {kg : ExtractedKg F} {report : ExtractionReport}
    (ran : extractKgFromChunks rt build cfg chunks s = .ok (kg,report) t) :
    ∃ outs middle entities relations,
      (liveChunks chunks).mapM (fun c => rt.generateExtraction (build c.text) cfg.maxTokensPerChunk) s = .ok outs middle ∧
      Gathers F cfg ((liveChunks chunks).zip outs) entities relations ∧ Assembled rt (liveChunks chunks) entities relations kg ∧
      relations.length + report.droppedDanglingRelationsTotal = ((relationDrafts F cfg ((liveChunks chunks).zip outs)).map fun item => item.2.key).dedup.length := by
  unfold extractKgFromChunks at ran
  dsimp only at ran
  rw [runBatches_sequential sequential build cfg _ _ _ (Nat.le_refl _)] at ran
  obtain ⟨p,middle,answers,ran⟩ := ok_of_bind ran
  obtain ⟨outs,middle',asked,done⟩ := ok_of_bind answers
  cases done
  obtain ⟨chunkRows,u,first,ran⟩ := ok_of_bind ran
  obtain ⟨entityRows,v,second,ran⟩ := ok_of_bind ran
  obtain ⟨relationRows,w,third,ran⟩ := ok_of_bind ran
  cases ran
  have noted : Noted F cfg _ _ := noted ((liveChunks chunks).zip outs) ⟨0,chunks.countP fun c => decide (c.text.trim = []),0,0,0,[]⟩
  refine ⟨outs,_,_,_,asked,noted.gathers,⟨?_,?_,?_⟩,?_⟩
  · obtain ⟨long,rows⟩ := embedChecked_rows first
    exact ⟨chunkRows,by rw [long,List.length_map],⟨_,_,rows⟩,rfl⟩
  · obtain ⟨long,rows⟩ := embedUnlessEmpty_rows second
    exact ⟨entityRows,by rw [long,List.length_map],fun some_ => ⟨_,_,rows fun none_ => some_ (List.map_eq_nil_iff.mp none_)⟩,rfl⟩
  · obtain ⟨long,rows⟩ := embedUnlessEmpty_rows third
    exact ⟨relationRows,by rw [long,List.length_map],fun some_ => ⟨_,_,rows fun none_ => some_ (List.map_eq_nil_iff.mp none_)⟩,rfl⟩
  · rw [←noted.pairs,←List.length_map Prod.snd]
    exact kept_dropped _ _

end Extracted

section Canned
attribute [local instance] unitReal

theorem extraction_gathers_canned : ∃ kg report t, extractKgFromChunks canned id ⟨8,2,.default⟩ cannedChunks () = .ok (kg,report) t ∧
    ∃ outs entities relations, Gathers Unit ⟨8,2,.default⟩ ((liveChunks cannedChunks).zip outs) entities relations ∧
      Assembled canned (liveChunks cannedChunks) entities relations kg := by
  have returns : (answered (extractKgFromChunks canned id ⟨8,2,.default⟩ cannedChunks ())).isSome = true := by decide +kernel
  obtain ⟨⟨kg,report⟩,told⟩ := Option.isSome_iff_exists.mp returns
  obtain ⟨t,ran⟩ := answered_some.mp told
  obtain ⟨outs,_,entities,relations,_,gathers,assembled,_⟩ := extraction_gathers (fun _ _ => rfl) ran
  exact ⟨kg,report,t,ran,outs,entities,relations,gathers,assembled⟩

end Canned
end Extract
