import GeloLightrag.Foundation.Machine
import Mathlib.Data.List.MinMax

namespace Embedder
open Foundation

structure GenerationConfig where
  maxTokens : Nat
  eosTokenIds : List Nat

structure GenerationOutput where
  tokens : List Nat
  stoppedOnEos : Bool
deriving DecidableEq,Repr

-- The floats as far as the sampler reads them.
structure Comparing (F : Type) where
  gt : F → F → Bool
  negInfinity : F

def argmax {F : Type} (floats : Comparing F) (logits : List F) : Nat :=
  (logits.zipIdx.foldl (fun best item => if floats.gt item.1 best.1 then (item.1,item.2 % 4294967296) else best) (floats.negInfinity,0)).2

-- The passes that the loops call, over the cache of one sequence and that of a batch.
structure Forward (σ κ β H F : Type) where
  floats : Comparing F
  maxPositionEmbeddings : Nat
  newCache : Nat → κ
  newCacheBatched : Nat → Nat → β
  runPrefill : List Nat → κ → EStateM String σ (List H × κ)
  runDecodeStep : Nat → κ → EStateM String σ (H × κ)
  runPrefillBatched : List (List Nat) → β → EStateM String σ (List (List H) × β)
  runDecodeStepBatched : List Nat → β → EStateM String σ (List H × β)
  computeLogits : H → EStateM String σ (List F)

-- The state of one sequence of a batch.
structure Sequence (H : Type) where
  lastHidden : H
  tokens : List Nat
  stopped : Bool

section Loops
variable {σ κ β H F : Type} (fw : Forward σ κ β H F) (g : GenerationConfig)

def lastRow (rows : List H) : EStateM String σ H :=
  match rows.getLast? with
  | some h => return h
  | none => throw "attempt to subtract with overflow"

def generateLoop : Nat → H → κ → List Nat → EStateM String σ GenerationOutput
  | 0,_,_,tokens => return ⟨tokens,false⟩
  | steps+1,hLast,cache,tokens => do
    let logits ← fw.computeLogits hLast
    let nextToken := argmax fw.floats logits
    if nextToken ∈ g.eosTokenIds then return ⟨tokens ++ [nextToken],true⟩
    else do
      let stepped ← fw.runDecodeStep nextToken cache
      generateLoop steps stepped.1 stepped.2 (tokens ++ [nextToken])

def generate (promptIds : List Nat) : EStateM String σ GenerationOutput :=
  let prompt := promptIds.length
  let maxTokens := g.maxTokens
  let maxPositions := fw.maxPositionEmbeddings
  if promptIds = [] then throw "prompt_ids must be non-empty"
  else if maxTokens = 0 then return ⟨[],false⟩
  else if prompt + maxTokens > maxPositions then throw s!"prompt {prompt} + max_tokens {maxTokens} > max_position_embeddings {maxPositions}"
  else do
    let filled ← fw.runPrefill promptIds (fw.newCache (prompt + maxTokens))
    let hLast ← lastRow filled.1
    generateLoop fw g maxTokens hLast filled.2 []

def padToken : Nat := g.eosTokenIds.headD 0

-- A sequence that stopped is fed the pad token and emits nothing more.
def sampleNext (seq : Sequence H) : EStateM String σ (Sequence H × Nat) :=
  if seq.stopped then return (seq,padToken g)
  else do
    let logits ← fw.computeLogits seq.lastHidden
    let nxt := argmax fw.floats logits
    return ({seq with tokens:=seq.tokens ++ [nxt],stopped:=decide (nxt ∈ g.eosTokenIds)},nxt)

def Sequence.assign (seq : Sequence H) (row : H) : Sequence H := if seq.stopped then seq else {seq with lastHidden:=row}

def batchedLoop : Nat → List (Sequence H) → β → EStateM String σ (List (Sequence H))
  | 0,seqs,_ => return seqs
  | steps+1,seqs,cache => do
    let sampled ← seqs.mapM (sampleNext fw g)
    let seqs := sampled.map Prod.fst
    if seqs.all Sequence.stopped then return seqs
    else do
      let stepped ← fw.runDecodeStepBatched (sampled.map Prod.snd) cache
      batchedLoop steps (List.zipWith Sequence.assign seqs stepped.1) stepped.2

-- The last row of a prompt among the padded rows of its batch.
def lastValidRow (prompt : List Nat) (rows : List H) : EStateM String σ H :=
  if prompt = [] then throw "attempt to subtract with overflow"
  else match rows[prompt.length - 1]? with
    | some h => return h
    | none => throw "index out of bounds"

def generateBatched (prompts : List (List Nat)) : EStateM String σ (List GenerationOutput) :=
  let maxPrompt := (prompts.map List.length).foldr max 0
  let maxTokens := g.maxTokens
  let maxPositions := fw.maxPositionEmbeddings
  if prompts = [] then throw "generate_batched: prompts must be non-empty"
  else if maxTokens = 0 then return prompts.map fun _ => ⟨[],false⟩
  else if maxPrompt = 0 then throw "generate_batched: at least one prompt must be non-empty"
  else if maxPrompt + maxTokens > maxPositions then throw s!"max_prompt {maxPrompt} + max_tokens {maxTokens} > max_position_embeddings {maxPositions}"
  else do
    let filled ← fw.runPrefillBatched prompts (fw.newCacheBatched prompts.length (maxPrompt + maxTokens))
    let rows ← (prompts.zip filled.1).mapM fun item => lastValidRow item.1 item.2
    let seqs ← batchedLoop fw g maxTokens (rows.map fun row => ⟨row,[],false⟩) filled.2
    return seqs.map fun seq => ⟨seq.tokens,seq.stopped⟩

end Loops

-- What a text goes on with: the tokens up to the first that stops it, or as many as asked.
def emitted (next : List Nat → Nat) (eos : List Nat) : Nat → List Nat → GenerationOutput
  | 0,_ => ⟨[],false⟩
  | steps+1,ids =>
    if next ids ∈ eos then ⟨[next ids],true⟩
    else ⟨next ids :: (emitted next eos steps (ids ++ [next ids])).tokens,(emitted next eos steps (ids ++ [next ids])).stoppedOnEos⟩

structure Ended (eos : List Nat) (maxTokens : Nat) (out : GenerationOutput) : Prop where
  bounded : out.tokens.length ≤ maxTokens
  stopped : out.stoppedOnEos = true → ∃ before last, out.tokens = before ++ [last] ∧ last ∈ eos ∧ ∀ token ∈ before, token ∉ eos
  full : out.stoppedOnEos = false → out.tokens.length = maxTokens ∧ ∀ token ∈ out.tokens, token ∉ eos

theorem emitted_ended (next : List Nat → Nat) (eos : List Nat) (steps : Nat) (ids : List Nat) : Ended eos steps (emitted next eos steps ids) := by
  induction steps generalizing ids with
  | zero => exact ⟨Nat.le_refl _,nofun,fun _ => ⟨rfl,fun _ member => absurd member List.not_mem_nil⟩⟩
  | succ steps ih =>
      unfold emitted
      split
      · rename_i stops
        exact ⟨Nat.succ_le_succ (Nat.zero_le _),fun _ => ⟨[],_,rfl,stops,fun _ member => absurd member List.not_mem_nil⟩,nofun⟩
      · rename_i goes
        obtain ⟨bounded,stopped,full⟩ := ih (ids ++ [next ids])
        have all : ∀ tokens : List Nat, (∀ token ∈ tokens, token ∉ eos) → ∀ token ∈ next ids :: tokens, token ∉ eos :=
          fun tokens others token member => (List.mem_cons.mp member).elim (fun is => is ▸ goes) (others token)
        refine ⟨Nat.succ_le_succ bounded,fun is => ?_,fun is => ?_⟩
        · obtain ⟨before,last,listed,stops,others⟩ := stopped is
          exact ⟨next ids :: before,last,congrArg (next ids :: ·) listed,stops,all before others⟩
        · obtain ⟨long,others⟩ := full is
          exact ⟨congrArg Nat.succ long,all _ others⟩

section Agreement
variable {σ κ β H F : Type} {fw : Forward σ κ β H F} {g : GenerationConfig} {vocab : Nat} {hidden : List Nat → H} {logits : H → List F}
  {holds : Nat → κ → List Nat → Prop} {holdsAll : Nat → β → List (List Nat) → Prop} {broken : String → Prop}

-- A text of the vocabulary that a cache has room for.
structure Fits (vocab cap : Nat) (ids : List Nat) : Prop where
  some_ : ids ≠ []
  known : ∀ token ∈ ids, token < vocab
  room : ids.length ≤ cap

-- Passes that go by each sequence alone: asked within the vocabulary, the positions and the
-- capacity, they give the rows and leave the caches of its own tokens, or break.
structure PerSequence (fw : Forward σ κ β H F) (vocab : Nat) (hidden : List Nat → H) (logits : H → List F) (holds : Nat → κ → List Nat → Prop)
    (holdsAll : Nat → β → List (List Nat) → Prop) (broken : String → Prop) : Prop where
  width : ∀ h, (logits h).length = vocab
  head : ∀ h s, Ends (fw.computeLogits h) s (fun l _ => l = logits h) fun e _ => broken e
  prefill : ∀ {ids cap} s, Fits vocab cap ids → cap ≤ fw.maxPositionEmbeddings → Ends (fw.runPrefill ids (fw.newCache cap)) s
    (fun out _ => out.1.getLast? = some (hidden ids) ∧ holds cap out.2 ids) fun e _ => broken e
  step : ∀ {cap cache ids token} s, holds cap cache ids → token < vocab → ids.length + 1 ≤ cap → Ends (fw.runDecodeStep token cache) s
    (fun out _ => out.1 = hidden (ids ++ [token]) ∧ holds cap out.2 (ids ++ [token])) fun e _ => broken e
  prefillBatched : ∀ {prompts cap} s, prompts ≠ [] → (∀ ids ∈ prompts, Fits vocab cap ids) → cap ≤ fw.maxPositionEmbeddings →
    Ends (fw.runPrefillBatched prompts (fw.newCacheBatched prompts.length cap)) s (fun out _ => out.1.length = prompts.length ∧
      (∀ item ∈ prompts.zip out.1, item.2[item.1.length - 1]? = some (hidden item.1)) ∧ holdsAll cap out.2 prompts) fun e _ => broken e
  stepBatched : ∀ {cap cache seqs tokens} s, holdsAll cap cache seqs → (∀ token ∈ tokens, token < vocab) → (∀ ids ∈ seqs, ids.length + 1 ≤ cap) →
    tokens.length = seqs.length → Ends (fw.runDecodeStepBatched tokens cache) s
      (fun out _ => out.1 = (List.zipWith (fun ids token => ids ++ [token]) seqs tokens).map hidden ∧
        holdsAll cap out.2 (List.zipWith (fun ids token => ids ++ [token]) seqs tokens)) fun e _ => broken e

theorem argmax_lt (floats : Comparing F) {logits : List F} (some_ : 0 < logits.length) : argmax floats logits < logits.length := by
  have all : ∀ (items : List (F × Nat)) (best : F × Nat), (∀ item ∈ items, item.2 < logits.length) → best.2 < logits.length →
      (items.foldl (fun best item => if floats.gt item.1 best.1 then (item.1,item.2 % 4294967296) else best) best).2 < logits.length := by
    intro items
    induction items with
    | nil => exact fun best _ within => within
    | cons item rest ih =>
        intro best inside within
        refine ih _ (fun item member => inside item (List.mem_cons_of_mem _ member)) ?_
        dsimp only
        split
        · exact lt_of_le_of_lt (Nat.mod_le _ _) (inside item List.mem_cons_self)
        · exact within
  exact all _ _ (fun item member => by simpa using List.snd_lt_add_of_mem_zipIdx member) some_

-- The token that a text greedily goes on with.
def nextToken (fw : Forward σ κ β H F) (hidden : List Nat → H) (logits : H → List F) (ids : List Nat) : Nat := argmax fw.floats (logits (hidden ids))

theorem nextToken_lt (alone : PerSequence fw vocab hidden logits holds holdsAll broken) (some_ : 0 < vocab) (ids : List Nat) : nextToken fw hidden logits ids < vocab := by
  have long := alone.width (hidden ids)
  unfold nextToken
  exact lt_of_lt_of_eq (argmax_lt _ (long.symm ▸ some_)) long

theorem generateLoop_ends (alone : PerSequence fw vocab hidden logits holds holdsAll broken) (some_ : 0 < vocab) {cap steps : Nat} {ids tokens : List Nat} {cache : κ} (s : σ)
    (held : holds cap cache ids) (room : ids.length + steps ≤ cap) : Ends (generateLoop fw g steps (hidden ids) cache tokens) s
      (fun out _ => out = ⟨tokens ++ (emitted (nextToken fw hidden logits) g.eosTokenIds steps ids).tokens,
        (emitted (nextToken fw hidden logits) g.eosTokenIds steps ids).stoppedOnEos⟩) fun e _ => broken e := by
  induction steps generalizing ids tokens cache s with
  | zero => exact .ok rfl (by rw [emitted,List.append_nil])
  | succ steps ih =>
      unfold generateLoop emitted
      refine (alone.head _ _).bind fun l t _ is => ?_
      subst is
      change Ends (if nextToken fw hidden logits ids ∈ g.eosTokenIds then _ else _) _ _ _
      by_cases stops : nextToken fw hidden logits ids ∈ g.eosTokenIds
      · simp only [if_pos stops]
        exact .ok rfl rfl
      · simp only [if_neg stops]
        refine (alone.step t held (nextToken_lt alone some_ ids) (by omega)).bind fun stepped u _ now => ?_
        rw [now.1]
        refine (ih u now.2 (by rw [List.length_append,List.length_singleton]; omega)).imp (fun out _ is => is.trans ?_) fun _ _ broke => broke
        rw [List.append_assoc]
        rfl

-- Alone, a prompt that fits is gone on with, unless a pass breaks.
theorem generate_ends (alone : PerSequence fw vocab hidden logits holds holdsAll broken) {ids : List Nat} (s : σ)
    (fits : Fits vocab (fw.maxPositionEmbeddings - g.maxTokens) ids) (space : g.maxTokens ≤ fw.maxPositionEmbeddings) : Ends (generate fw g ids) s
      (fun out _ => out = emitted (nextToken fw hidden logits) g.eosTokenIds g.maxTokens ids) fun e _ => broken e := by
  have room := fits.room
  unfold generate
  dsimp only
  rw [if_neg fits.some_]
  by_cases none_ : g.maxTokens = 0
  · rw [if_pos none_,none_]
    exact .ok rfl rfl
  · rw [if_neg none_,if_neg (by omega)]
    have some_ : 0 < vocab := by
      obtain ⟨token,member⟩ := List.exists_mem_of_ne_nil ids fits.some_
      exact Nat.zero_lt_of_lt (fits.known token member)
    refine (alone.prefill s ⟨fits.some_,fits.known,Nat.le_add_right _ _⟩ (by omega)).bind fun filled t _ now => ?_
    have last : lastRow filled.1 t = .ok (hidden ids) t := by
      unfold lastRow
      rw [now.1]
      rfl
    exact .after last (generateLoop_ends alone some_ t now.2 (Nat.le_refl _))

section Batch

theorem mapM_ends {α γ : Type} {f : α → EStateM String σ γ} (computed : α → γ) {items : List α} (s : σ)
    (each : ∀ item ∈ items, ∀ s, Ends (f item) s (fun c _ => c = computed item) fun e _ => broken e) :
    Ends (items.mapM f) s (fun found _ => found = items.map computed) fun e _ => broken e := by
  induction items generalizing s with
  | nil => exact .ok rfl rfl
  | cons item rest ih =>
      rw [List.mapM_cons]
      refine (each item List.mem_cons_self s).bind fun c t _ is => ?_
      refine (ih t fun item member => each item (List.mem_cons_of_mem _ member)).bind fun others u _ are => ?_
      rw [is,are]
      exact .ok rfl rfl

-- A sequence that goes on after its own tokens, unless it stopped.
def Sequence.at (hidden : List Nat → H) (ids : List Nat) (seq : Sequence H) : Prop := seq.stopped = false → seq.lastHidden = hidden ids

def Sequence.output (seq : Sequence H) : GenerationOutput := ⟨seq.tokens,seq.stopped⟩

def Sequence.final (next : List Nat → Nat) (eos : List Nat) (steps : Nat) (ids : List Nat) (seq : Sequence H) : GenerationOutput :=
  if seq.stopped then seq.output else ⟨seq.tokens ++ (emitted next eos steps ids).tokens,(emitted next eos steps ids).stoppedOnEos⟩

-- What is sampled, a function of the text of the sequence.
def sampled (next : List Nat → Nat) (g : GenerationConfig) (ids : List Nat) (seq : Sequence H) : Sequence H × Nat :=
  if seq.stopped then (seq,padToken g) else ({seq with tokens:=seq.tokens ++ [next ids],stopped:=decide (next ids ∈ g.eosTokenIds)},next ids)

theorem sampleNext_ends (alone : PerSequence fw vocab hidden logits holds holdsAll broken) {ids : List Nat} {seq : Sequence H} (s : σ)
    (is : seq.at hidden ids) : Ends (sampleNext fw g seq) s (fun c _ => c = sampled (nextToken fw hidden logits) g ids seq) fun e _ => broken e := by
  unfold sampleNext sampled
  cases stopped : seq.stopped with
  | true => exact .ok rfl rfl
  | false =>
      simp only [Bool.false_eq_true,if_false]
      refine (alone.head _ _).bind fun l t _ heads => ?_
      rw [heads]
      exact .ok rfl (by rw [nextToken,←is stopped])

theorem sampled_lt (alone : PerSequence fw vocab hidden logits holds holdsAll broken) (some_ : 0 < vocab) (pad : padToken g < vocab) (ids : List Nat) (seq : Sequence H) :
    (sampled (nextToken fw hidden logits) g ids seq).2 < vocab := by
  unfold sampled
  split
  · exact pad
  · exact nextToken_lt alone some_ ids

theorem sampled_final (next : List Nat → Nat) (steps : Nat) (ids : List Nat) (seq : Sequence H) :
    (sampled next g ids seq).1.final next g.eosTokenIds steps (ids ++ [(sampled next g ids seq).2]) = seq.final next g.eosTokenIds (steps+1) ids := by
  unfold sampled Sequence.final
  cases stopped : seq.stopped with
  | true => simp only [if_true,stopped]
  | false =>
      simp only [Bool.false_eq_true,if_false,emitted]
      by_cases stops : next ids ∈ g.eosTokenIds
      · simp only [if_pos stops,decide_eq_true stops,if_true,Sequence.output]
      · simp only [if_neg stops,decide_eq_false stops,Bool.false_eq_true,if_false,List.append_assoc,List.singleton_append]

theorem assign_final {next : List Nat → Nat} {eos : List Nat} (steps : Nat) (ids : List Nat) (seq : Sequence H) (row : H) :
    (seq.assign row).final next eos steps ids = seq.final next eos steps ids := by
  unfold Sequence.assign
  split
  · rfl
  · rfl

theorem assign_at (ids : List Nat) (seq : Sequence H) : (seq.assign (hidden ids)).at hidden ids := by
  unfold Sequence.assign
  cases stopped : seq.stopped with
  | true => exact fun goes => absurd (stopped.symm.trans goes) nofun
  | false => exact fun _ => rfl

-- A text and its sequence after a step of the batch: fed its own token, the pad where it
-- stopped, and given the row of the longer text.
def advanced (next : List Nat → Nat) (hidden : List Nat → H) (g : GenerationConfig) (state : List Nat × Sequence H) : List Nat × Sequence H :=
  (state.1 ++ [(sampled next g state.1 state.2).2],(sampled next g state.1 state.2).1.assign (hidden (state.1 ++ [(sampled next g state.1 state.2).2])))

theorem advanced_final (next : List Nat → Nat) (steps : Nat) (state : List Nat × Sequence H) :
    (advanced next hidden g state).2.final next g.eosTokenIds steps (advanced next hidden g state).1 = state.2.final next g.eosTokenIds (steps+1) state.1 :=
  (assign_final _ _ _ _).trans (sampled_final _ _ _ _)

theorem advanced_at (next : List Nat → Nat) (state : List Nat × Sequence H) : (advanced next hidden g state).2.at hidden (advanced next hidden g state).1 := assign_at _ _

theorem advanced_length (next : List Nat → Nat) (state : List Nat × Sequence H) : (advanced next hidden g state).1.length = state.1.length + 1 := by
  unfold advanced
  rw [List.length_append,List.length_singleton]

theorem batchedLoop_ends (alone : PerSequence fw vocab hidden logits holds holdsAll broken) (some_ : 0 < vocab) (pad : padToken g < vocab) {cap steps : Nat} {cache : β} (s : σ)
    (states : List (List Nat × Sequence H)) (held : holdsAll cap cache (states.map Prod.fst)) (room : ∀ state ∈ states, state.1.length + steps ≤ cap)
    (known : ∀ state ∈ states, state.2.at hidden state.1) : Ends (batchedLoop fw g steps (states.map Prod.snd) cache) s
      (fun done _ => done.map Sequence.output = states.map fun state => state.2.final (nextToken fw hidden logits) g.eosTokenIds steps state.1)
      fun e _ => broken e := by
  induction steps generalizing states cache s with
  | zero =>
      refine .ok rfl ?_
      rw [List.map_map]
      refine List.map_congr_left fun state _ => ?_
      unfold Sequence.final
      cases stopped : state.2.stopped with
      | true => rfl
      | false =>
          rw [if_neg Bool.false_ne_true,emitted,List.append_nil]
          exact congrArg (GenerationOutput.mk state.2.tokens) stopped
  | succ steps ih =>
      unfold batchedLoop
      rw [List.mapM_map]
      refine (mapM_ends (f:=sampleNext fw g ∘ Prod.snd) (fun state => sampled (nextToken fw hidden logits) g state.1 state.2) s
        fun state member s => sampleNext_ends alone s (known state member)).bind fun drawn t _ is => ?_
      subst is
      dsimp only
      split
      · rename_i finished
        refine .ok rfl ?_
        rw [List.map_map,List.map_map]
        refine List.map_congr_left fun state member => ?_
        have stopped := List.all_eq_true.mp finished _ (List.mem_map_of_mem (List.mem_map_of_mem member))
        exact (if_pos stopped).symm.trans (sampled_final _ _ _ _)
      · have fed : List.zipWith (fun ids token => ids ++ [token]) (states.map Prod.fst)
            ((states.map fun state => sampled (nextToken fw hidden logits) g state.1 state.2).map Prod.snd) =
            (states.map (advanced (nextToken fw hidden logits) hidden g)).map Prod.fst := by
          rw [List.map_map,List.map_map,List.zipWith_map,List.zipWith_self]
          rfl
        have inside : ∀ token ∈ (states.map fun state => sampled (nextToken fw hidden logits) g state.1 state.2).map Prod.snd, token < vocab := by
          intro token member
          rw [List.map_map] at member
          obtain ⟨state,_,rfl⟩ := List.mem_map.mp member
          exact sampled_lt alone some_ pad _ _
        have space : ∀ ids ∈ states.map Prod.fst, ids.length + 1 ≤ cap := by
          intro ids member
          obtain ⟨state,here,rfl⟩ := List.mem_map.mp member
          have room_ := room state here
          omega
        refine (alone.stepBatched t held inside space (by simp only [List.length_map])).bind fun stepped u _ now => ?_
        obtain ⟨rows,kept⟩ := now
        rw [fed] at rows kept
        have assigned : List.zipWith Sequence.assign ((states.map fun state => sampled (nextToken fw hidden logits) g state.1 state.2).map Prod.fst) stepped.1 =
            (states.map (advanced (nextToken fw hidden logits) hidden g)).map Prod.snd := by
          rw [rows,List.map_map,List.map_map,List.map_map,List.map_map,List.zipWith_map,List.zipWith_self]
          rfl
        rw [assigned]
        refine (ih u _ kept (fun _ member => ?_) (fun _ member => ?_)).imp (fun done _ is => is.trans ?_) fun _ _ broke => broke
        · obtain ⟨state,here,rfl⟩ := List.mem_map.mp member
          have room_ := room state here
          rw [advanced_length]
          omega
        · obtain ⟨state,here,rfl⟩ := List.mem_map.mp member
          exact advanced_at _ _
        · rw [List.map_map]
          exact List.map_congr_left fun state _ => advanced_final _ _ _

theorem le_maxPrompt {prompts : List (List Nat)} {ids : List Nat} (member : ids ∈ prompts) : ids.length ≤ (prompts.map List.length).foldr max 0 :=
  List.le_max_of_le' 0 (List.mem_map_of_mem member) (Nat.le_refl _)

theorem maxPrompt_le {prompts : List (List Nat)} {cap : Nat} (all : ∀ ids ∈ prompts, ids.length ≤ cap) : (prompts.map List.length).foldr max 0 ≤ cap := by
  induction prompts with
  | nil => exact Nat.zero_le _
  | cons ids rest ih => exact max_le (all ids List.mem_cons_self) (ih fun ids member => all ids (List.mem_cons_of_mem _ member))

-- In a batch, each prompt is gone on with as if it were alone.
theorem generateBatched_ends (alone : PerSequence fw vocab hidden logits holds holdsAll broken) (pad : padToken g < vocab) {prompts : List (List Nat)} (s : σ)
    (some_ : prompts ≠ []) (fits : ∀ ids ∈ prompts, Fits vocab (fw.maxPositionEmbeddings - g.maxTokens) ids) (space : g.maxTokens ≤ fw.maxPositionEmbeddings) :
    Ends (generateBatched fw g prompts) s (fun outs _ => outs = prompts.map (emitted (nextToken fw hidden logits) g.eosTokenIds g.maxTokens)) fun e _ => broken e := by
  have longest := maxPrompt_le fun ids member => (fits ids member).room
  have some' : 0 < (prompts.map List.length).foldr max 0 := by
    obtain ⟨ids,member⟩ := List.exists_mem_of_ne_nil prompts some_
    exact lt_of_lt_of_le (List.length_pos_of_ne_nil (fits ids member).some_) (le_maxPrompt member)
  unfold generateBatched
  dsimp only
  rw [if_neg some_]
  by_cases none_ : g.maxTokens = 0
  · rw [if_pos none_,none_]
    exact .ok rfl rfl
  · rw [if_neg none_,if_neg (by omega),if_neg (by omega)]
    refine (alone.prefillBatched s some_ (fun ids member => ⟨(fits ids member).some_,(fits ids member).known,
      Nat.le_trans (le_maxPrompt member) (Nat.le_add_right _ _)⟩) (by omega)).bind fun filled t _ now => ?_
    obtain ⟨long,valid,held⟩ := now
    have firsts : (prompts.zip filled.1).map Prod.fst = prompts := List.map_fst_zip (Nat.le_of_eq long.symm)
    refine (mapM_ends (fun item => hidden item.1) t fun item member u => ?_).bind fun rows u _ last => ?_
    · have text := (fits item.1 (firsts ▸ List.mem_map_of_mem member)).some_
      unfold lastValidRow
      rw [if_neg text,valid item member]
      exact .ok rfl rfl
    · have texts : rows = prompts.map hidden := by
        rw [last,←congrArg (List.map hidden) firsts,List.map_map]
        rfl
      have states : rows.map (fun row => (⟨row,[],false⟩ : Sequence H)) = (prompts.map fun ids => (ids,(⟨hidden ids,[],false⟩ : Sequence H))).map Prod.snd := by
        rw [texts,List.map_map,List.map_map]
        rfl
      have prompts_ : (prompts.map fun ids => (ids,(⟨hidden ids,[],false⟩ : Sequence H))).map Prod.fst = prompts := by
        rw [List.map_map]
        exact List.map_id _
      rw [states]
      refine (batchedLoop_ends alone (Nat.zero_lt_of_lt pad) pad u _ ((congrArg (holdsAll _ filled.2) prompts_).mpr held)
        (fun state member => ?_) (fun state member => ?_)).bind fun done v _ outputs => ?_
      · obtain ⟨ids,here,rfl⟩ := List.mem_map.mp member
        exact Nat.add_le_add_right (le_maxPrompt here) _
      · obtain ⟨ids,here,rfl⟩ := List.mem_map.mp member
        exact fun _ => rfl
      · refine .ok rfl (outputs.trans ?_)
        rw [List.map_map]
        rfl

-- What a batch gives for a prompt is what the prompt gets alone, whatever the others are
-- and whenever they stop. The pad is looked up as every token is.
theorem batched_alone (alone : PerSequence fw vocab hidden logits holds holdsAll broken) (pad : padToken g < vocab) {prompts : List (List Nat)} (s : σ)
    (some_ : prompts ≠ []) (fits : ∀ ids ∈ prompts, Fits vocab (fw.maxPositionEmbeddings - g.maxTokens) ids) (space : g.maxTokens ≤ fw.maxPositionEmbeddings) :
    Ends (generateBatched fw g prompts) s (fun outs _ => outs.length = prompts.length ∧ ∀ (b : Nat) (ids : List Nat), prompts[b]? = some ids →
      ∃ out, outs[b]? = some out ∧ Ended g.eosTokenIds g.maxTokens out ∧ ∀ s, Ends (generate fw g ids) s (fun own _ => own = out) fun e _ => broken e)
      fun e _ => broken e := by
  refine (generateBatched_ends alone pad s some_ fits space).imp (fun outs _ is => ?_) fun _ _ broke => broke
  subst is
  refine ⟨List.length_map _,fun b ids at_ => ⟨_,?_,emitted_ended _ _ _ ids,fun s => generate_ends alone s (fits ids (List.mem_of_getElem? at_)) space⟩⟩
  rw [List.getElem?_map,at_]
  rfl

end Batch

end Agreement

-- Passes that keep the texts themselves.
section Keeping

def keeping : Forward Unit (List Nat) (List (List Nat)) (List Nat) Int :=
  { floats:=⟨fun a b => decide (b < a),-1⟩
    maxPositionEmbeddings:=8
    newCache:=fun _ => []
    newCacheBatched:=fun _ _ => []
    runPrefill:=fun ids _ => return (List.replicate ids.length ids,ids)
    runDecodeStep:=fun token cache => return (cache ++ [token],cache ++ [token])
    runPrefillBatched:=fun prompts _ => return (prompts.map fun ids => List.replicate ids.length ids,prompts)
    runDecodeStepBatched:=fun tokens cache => return (List.zipWith (fun ids token => ids ++ [token]) cache tokens,List.zipWith (fun ids token => ids ++ [token]) cache tokens)
    computeLogits:=fun h => return (List.range 3).map fun token => if token = h.length % 3 then 1 else 0 }

theorem keeping_alone : PerSequence keeping 3 id (fun h => (List.range 3).map fun token => if token = h.length % 3 then 1 else 0)
    (fun _ cache ids => cache = ids) (fun _ cache seqs => cache = seqs) fun _ => False := by
  refine ⟨fun _ => rfl,fun _ _ => .ok rfl rfl,fun _ fits _ => .ok rfl ⟨?_,rfl⟩,fun _ held _ _ => .ok rfl ⟨by rw [held]; rfl,by rw [held]⟩,
    fun _ _ fits _ => .ok rfl ⟨List.length_map _,fun item member => ?_,rfl⟩,fun _ held _ _ _ => .ok rfl ⟨by rw [held,List.map_id],by rw [held]⟩⟩
  · rw [List.getLast?_replicate,if_neg (mt List.eq_nil_of_length_eq_zero fits.some_)]
    rfl
  · rw [List.zip,List.zipWith_map_right,List.zipWith_self] at member
    obtain ⟨ids,here,rfl⟩ := List.mem_map.mp member
    have some_ := List.length_pos_of_ne_nil (fits ids here).some_
    rw [List.getElem?_replicate,if_pos (Nat.sub_lt some_ Nat.zero_lt_one)]
    rfl

-- One goes on as far as it may, and the other one stops at once.
example : answered (generateBatched keeping ⟨2,[0]⟩ [[1],[0,0,0]] ()) = some [⟨[1,2],false⟩,⟨[0],true⟩] := by decide

theorem batched_alone_keeping : padToken ⟨2,[0]⟩ < 3 ∧ ∃ outs t, generateBatched keeping ⟨2,[0]⟩ [[1],[0,0,0]] () = .ok outs t ∧ outs.length = 2 := by
  have fits : ∀ ids ∈ [[1],[0,0,0]], Fits 3 (keeping.maxPositionEmbeddings - 2) ids := by
    intro ids member
    rcases List.mem_cons.mp member with rfl | member
    · exact ⟨List.cons_ne_nil _ _,by decide,by decide⟩
    · obtain rfl := List.mem_singleton.mp member
      exact ⟨List.cons_ne_nil _ _,by decide,by decide⟩
  obtain ⟨outs,t,ran,long,_⟩ := (batched_alone (g:=⟨2,[0]⟩) keeping_alone (by decide) () (List.cons_ne_nil _ _) fits (by decide)).yields
  exact ⟨by decide,outs,t,ran,long⟩

end Keeping
end Embedder
