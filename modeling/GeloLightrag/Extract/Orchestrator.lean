import GeloLightrag.Extract.Merging
import GeloLightrag.Foundation.Machine
import GeloLightrag.KgStore.Types

namespace Extract
open Foundation KgStore

structure ChunkInput where
  id : Text
  text : Text

structure DecoderOutput where
  text : Text
  stoppedOnEos : Bool

-- The decoder and the embedder, which may keep a state of their own and fail.
structure Runtime (σ F : Type) where
  generateExtraction : Text → Nat → EStateM String σ DecoderOutput
  generateExtractionBatched : List Text → Nat → EStateM String σ (List DecoderOutput)
  embedBatch : List Text → EStateM String σ (List (List F))

-- One output for each prompt, in order, as the batched call's default has it.
def Runtime.Sequential {σ F : Type} (rt : Runtime σ F) : Prop :=
  ∀ prompts maxTokens, rt.generateExtractionBatched prompts maxTokens = prompts.mapM fun prompt => rt.generateExtraction prompt maxTokens

structure ExtractionConfig where
  maxTokensPerChunk : Nat
  extractionBatchSize : Nat
  tupleConfig : TupleConfig

structure ExtractionReport where
  chunksProcessed : Nat
  chunksSkippedEmpty : Nat
  generationsTruncated : Nat
  malformedRecordsTotal : Nat
  droppedDanglingRelationsTotal : Nat
  perChunkTrailers : List ParseTrailer
deriving DecidableEq,Repr

structure Progress where
  entities : OrderedTable Text MergedEntity
  relations : OrderedTable (Text ×ₗ Text) MergedRelation
  report : ExtractionReport

section Driver
variable {σ F : Type} [ParseFloat F]

def noteOutput (F : Type) [ParseFloat F] (cfg : ExtractionConfig) (p : Progress) (answered : ChunkInput × DecoderOutput) : Progress :=
  let stream : Stream F := parseTupleStream answered.2.text cfg.tupleConfig
  { entities := mergeEntities p.entities stream.1 answered.1.id
    relations := mergeRelations p.relations stream.2.1 answered.1.id
    report := {p.report with
      chunksProcessed := p.report.chunksProcessed + 1
      generationsTruncated := p.report.generationsTruncated + if answered.2.stoppedOnEos then 0 else 1
      malformedRecordsTotal := p.report.malformedRecordsTotal + stream.2.2.malformedRecords
      perChunkTrailers := p.report.perChunkTrailers ++ [stream.2.2] } }

-- One prompt goes its own way, and the prompts of more chunks go together.
def generateBatch (rt : Runtime σ F) (maxTokens : Nat) (prompts : List Text) : EStateM String σ (List DecoderOutput) :=
  match prompts with
  | [prompt] => do
    let out ← rt.generateExtraction prompt maxTokens
    return [out]
  | prompts => rt.generateExtractionBatched prompts maxTokens

def runBatch (rt : Runtime σ F) (build : Text → Text) (cfg : ExtractionConfig) (batch : List ChunkInput) (p : Progress) : EStateM String σ Progress := do
  let outs ← generateBatch rt cfg.maxTokensPerChunk (batch.map fun chunk => build chunk.text)
  let returned := outs.length
  let b := batch.length
  if returned ≠ b then throw s!"decoder returned {returned} outputs for batch of {b} prompts"
  else return (batch.zip outs).foldl (noteOutput F cfg) p

-- `while next_chunk < total_chunks`: every turn takes a chunk at least.
def runBatches (rt : Runtime σ F) (build : Text → Text) (cfg : ExtractionConfig) : Nat → List ChunkInput → Progress → EStateM String σ Progress
  | 0,_,p => return p
  | fuel+1,rest,p =>
    if rest = [] then return p
    else do
      let p ← runBatch rt build cfg (rest.take (max cfg.extractionBatchSize 1)) p
      runBatches rt build cfg fuel (rest.drop (max cfg.extractionBatchSize 1)) p

def embedChecked (rt : Runtime σ F) (kind : String) (texts : List Text) : EStateM String σ (List (List F)) := do
  let embeddings ← rt.embedBatch texts
  let rows := embeddings.length
  let asked := texts.length
  if rows ≠ asked then throw s!"embedder returned {rows} rows for {asked} {kind}" else return embeddings

def embedUnlessEmpty (rt : Runtime σ F) (kind : String) (texts : List Text) : EStateM String σ (List (List F)) :=
  if texts = [] then return [] else embedChecked rt kind texts

def liveChunks (chunks : List ChunkInput) : List ChunkInput := chunks.filter fun c => decide (c.text.trim ≠ [])

def MergedEntity.text (e : MergedEntity) : Text := e.name ++ [':',' '] ++ e.description

def MergedRelation.text (r : MergedRelation) : Text := r.src ++ [' ','-','>',' '] ++ r.tgt ++ [':',' '] ++ r.description

def ChunkInput.asChunk (c : ChunkInput) (embedding : List F) : Chunk F := ⟨String.ofList c.id,String.ofList c.text,embedding⟩

def MergedEntity.asEntity (e : MergedEntity) (embedding : List F) : Entity F :=
  ⟨String.ofList e.name,String.ofList e.description,embedding,e.sourceChunks.map String.ofList⟩

def MergedRelation.asRelation (r : MergedRelation) (embedding : List F) : Relation F :=
  ⟨String.ofList r.src,String.ofList r.tgt,String.ofList r.description,embedding,r.sourceChunks.map String.ofList⟩

-- The prompt is a text made of the chunk's.
def extractKgFromChunks (rt : Runtime σ F) (build : Text → Text) (cfg : ExtractionConfig) (chunks : List ChunkInput) :
    EStateM String σ (ExtractedKg F × ExtractionReport) := do
  let live := liveChunks chunks
  let p ← runBatches rt build cfg live.length live ⟨[],[],⟨0,chunks.countP fun c => decide (c.text.trim = []),0,0,0,[]⟩⟩
  let entities := p.entities.map Prod.snd
  let relations := (p.relations.map Prod.snd).filter fun r => !dangles p.entities r
  let chunkEmbeddings ← embedChecked rt "chunk texts" (live.map ChunkInput.text)
  let entityEmbeddings ← embedUnlessEmpty rt "entity descriptions" (entities.map MergedEntity.text)
  let relationEmbeddings ← embedUnlessEmpty rt "relation descriptions" (relations.map MergedRelation.text)
  return ({
    chunks := List.zipWith ChunkInput.asChunk live chunkEmbeddings
    entities := List.zipWith MergedEntity.asEntity entities entityEmbeddings
    relations := List.zipWith MergedRelation.asRelation relations relationEmbeddings },
    {p.report with droppedDanglingRelationsTotal := (p.relations.map Prod.snd).countP fun r => dangles p.entities r})

end Driver

section Batches
variable {σ F : Type} [ParseFloat F] {rt : Runtime σ F}

omit [ParseFloat F] in
theorem generateBatch_sequential (sequential : rt.Sequential) (maxTokens : Nat) (prompts : List Text) :
    generateBatch rt maxTokens prompts = prompts.mapM fun prompt => rt.generateExtraction prompt maxTokens := by
  unfold generateBatch
  split
  · rename_i prompt
    rw [List.mapM_cons,List.mapM_nil]
    simp only [pure_bind]
  · exact sequential _ _

-- What a run asks of the decoder does not tell how it was batched.
theorem runBatch_sequential (sequential : rt.Sequential) (build : Text → Text) (cfg : ExtractionConfig) (batch : List ChunkInput) (p : Progress) :
    runBatch rt build cfg batch p = do
      let outs ← batch.mapM fun c => rt.generateExtraction (build c.text) cfg.maxTokensPerChunk
      return (batch.zip outs).foldl (noteOutput F cfg) p := by
  unfold runBatch
  rw [generateBatch_sequential sequential,List.mapM_map]
  funext s
  cases ran : batch.mapM (fun c => rt.generateExtraction (build c.text) cfg.maxTokensPerChunk) s with
  | error e t => exact (bind_error ran).trans (bind_error ran).symm
  | ok outs t =>
      refine (bind_ok ran).trans (Eq.trans ?_ (bind_ok ran).symm)
      exact congrFun (if_neg (not_not.mpr (mapM_length ran))) t

theorem runBatches_sequential (sequential : rt.Sequential) (build : Text → Text) (cfg : ExtractionConfig) (fuel : Nat) (rest : List ChunkInput) (p : Progress)
    (enough : rest.length ≤ fuel) : runBatches rt build cfg fuel rest p = do
      let outs ← rest.mapM fun c => rt.generateExtraction (build c.text) cfg.maxTokensPerChunk
      return (rest.zip outs).foldl (noteOutput F cfg) p := by
  induction fuel generalizing rest p with
  | zero =>
      obtain rfl := List.eq_nil_of_length_eq_zero (Nat.le_zero.mp enough)
      rfl
  | succ fuel ih =>
      unfold runBatches
      by_cases none_ : rest = []
      · subst none_
        rfl
      · rw [if_neg none_,runBatch_sequential sequential]
        have some_ := List.length_pos_of_ne_nil none_
        have fewer : (rest.drop (max cfg.extractionBatchSize 1)).length ≤ fuel := by
          rw [List.length_drop]
          omega
        simp only [ih _ _ fewer]
        conv_rhs => rw [←List.take_append_drop (max cfg.extractionBatchSize 1) rest]
        rw [List.mapM_append]
        simp only [bind_assoc,pure_bind]
        funext s
        cases first : (rest.take (max cfg.extractionBatchSize 1)).mapM (fun c => rt.generateExtraction (build c.text) cfg.maxTokensPerChunk) s with
        | error e t => rw [bind_error first,bind_error first]
        | ok outs t =>
            rw [bind_ok first,bind_ok first]
            cases later : (rest.drop (max cfg.extractionBatchSize 1)).mapM (fun c => rt.generateExtraction (build c.text) cfg.maxTokensPerChunk) t with
            | error e u => rw [bind_error later,bind_error later]
            | ok outs' u => rw [bind_ok later,bind_ok later,List.zip_append (mapM_length first).symm,List.foldl_append]

-- The size of the batches has no say in what is extracted, nor in how it fails.
theorem batches_agree (sequential : rt.Sequential) (build : Text → Text) (cfg : ExtractionConfig) (n : Nat) (chunks : List ChunkInput) :
    extractKgFromChunks rt build {cfg with extractionBatchSize:=n} chunks = extractKgFromChunks rt build cfg chunks := by
  unfold extractKgFromChunks
  simp only [runBatches_sequential sequential build _ _ _ _ (Nat.le_refl _)]
  rfl

end Batches

section Canned
def unitReal : ParseFloat Unit := ⟨fun _ => some ()⟩
attribute [local instance] unitReal

-- One chunk drafts two entities and a relation, and the other one of them again.
def cannedText (prompt : Text) : Text :=
  if prompt = ['1'] then "(entity<|>A<|>X<|>d)##(entity<|>B<|>X<|>)##(relationship<|>B<|>A<|>r<|>k<|>1)<|COMPLETE|>".toList
  else "(entity<|>A<|>X<|>e)##(relationship<|>A<|>C<|>r<|>k<|>1)<|COMPLETE|>".toList

def canned : Runtime Unit Unit :=
  ⟨fun prompt _ => return ⟨cannedText prompt,true⟩,fun prompts _ => prompts.mapM fun prompt => return ⟨cannedText prompt,true⟩,
    fun texts => return texts.map fun _ => [()]⟩

def cannedChunks : List ChunkInput := [⟨['x'],['1']⟩,⟨['y'],['2']⟩,⟨['z'],[' ']⟩]

theorem batches_agree_canned : extractKgFromChunks canned id ⟨8,2,.default⟩ cannedChunks = extractKgFromChunks canned id ⟨8,1,.default⟩ cannedChunks :=
  batches_agree (fun _ _ => rfl) id ⟨8,1,.default⟩ 2 cannedChunks

end Canned
end Extract
