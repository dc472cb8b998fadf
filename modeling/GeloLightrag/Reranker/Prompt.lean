import GeloLightrag.Reranker.CausalDiscriminator

namespace Reranker
open Foundation

-- The parts of the template around its two markers.
def beforeQuery : Bytes := ascii "<|im_start|>system\nJudge whether the Document meets the requirements based on the Query. Answer only \"yes\" or \"no\".<|im_end|>\n<|im_start|>user\n<Query>: "
def betweenSlots : Bytes := ascii "\n<Document>: "
def afterDocument : Bytes := ascii "<|im_end|>\n<|im_start|>assistant\n<think>\n\n</think>\n\n"

def slotted (query document : Bytes) : Bytes := beforeQuery ++ (query ++ (betweenSlots ++ (document ++ afterDocument)))

set_option maxRecDepth 8000 in
theorem template_parts : qwen3RerankerTemplate = beforeQuery ++ (queryMarker ++ (betweenSlots ++ (documentMarker ++ afterDocument))) := by
  have whole : qwen3RerankerTemplate = _ := ascii_ofList _
  have first : beforeQuery = _ := ascii_ofList _
  have second : betweenSlots = _ := ascii_ofList _
  have last : afterDocument = _ := ascii_ofList _
  rw [whole,first,second,last]
  decide +kernel

-- No marker is in the template but the two.
set_option maxRecDepth 8000 in
theorem beforeQuery_plain : (0x7b : UInt8) ∉ beforeQuery := by
  have chars : beforeQuery = _ := ascii_ofList _
  rw [chars]
  decide +kernel

theorem betweenSlots_plain : (0x7b : UInt8) ∉ betweenSlots := by decide +kernel

set_option maxRecDepth 8000 in
theorem afterDocument_plain : (0x7b : UInt8) ∉ afterDocument := by
  have chars : afterDocument = _ := ascii_ofList _
  rw [chars]
  decide +kernel

theorem queryMarker_some : queryMarker ≠ [] := by decide
theorem documentMarker_some : documentMarker ≠ [] := by decide

theorem free_of_plain {pattern text : Bytes} (head : pattern.head? = some 0x7b) (plain : (0x7b : UInt8) ∉ text) : ¬ pattern <:+: text :=
  fun inside => plain (inside.subset (List.mem_of_mem_head? head))

-- The first replacement meets the marker alone.
theorem query_placed (query : Bytes) :
    replaceAll queryMarker query qwen3RerankerTemplate = beforeQuery ++ (query ++ (betweenSlots ++ (documentMarker ++ afterDocument))) := by
  have apart : ¬ queryMarker <:+: documentMarker := by decide +kernel
  rw [template_parts,replaceAll_append queryMarker_some (.of_absent rfl beforeQuery_plain),replaceAll_free queryMarker_some (free_of_plain rfl beforeQuery_plain),
    replaceAll_pattern queryMarker_some,replaceAll_append queryMarker_some (.of_absent rfl betweenSlots_plain),
    replaceAll_free queryMarker_some (free_of_plain rfl betweenSlots_plain),replaceAll_append queryMarker_some (.of_head (c:=0x3c) rfl (by decide)),
    replaceAll_free queryMarker_some apart,replaceAll_free queryMarker_some (free_of_plain rfl afterDocument_plain)]

-- The second reads the query again, and nothing across the ends of its slot.
theorem prompt_eq (query document : Bytes) :
    prompt query document = beforeQuery ++ (replaceAll documentMarker document query ++ (betweenSlots ++ (document ++ afterDocument))) := by
  rw [prompt,query_placed,replaceAll_append documentMarker_some (.of_absent rfl beforeQuery_plain),
    replaceAll_free documentMarker_some (free_of_plain rfl beforeQuery_plain),
    replaceAll_append documentMarker_some (.of_head (c:=0x0a) rfl (by decide)),
    replaceAll_append documentMarker_some (.of_absent rfl betweenSlots_plain),
    replaceAll_free documentMarker_some (free_of_plain rfl betweenSlots_plain),replaceAll_pattern documentMarker_some,
    replaceAll_free documentMarker_some (free_of_plain rfl afterDocument_plain)]

theorem same_prompt (path path' : ScoringPath) (query : Bytes) (cand : RerankCandidate) : path.prompt query cand = path'.prompt query cand := by
  cases path <;> cases path' <;> rfl

theorem prompts_slotted_iff (query : Bytes) (cand : RerankCandidate) :
    (∀ path path' : ScoringPath, path.prompt query cand = path'.prompt query cand) ∧
      ∀ path : ScoringPath, path.prompt query cand = slotted query cand.text ↔ ¬ documentMarker <:+: query ∨ cand.text = documentMarker := by
  refine ⟨fun path path' => same_prompt path path' query cand,fun path => ?_⟩
  have built : path.prompt query cand = prompt query cand.text := by cases path <;> rfl
  rw [built,prompt_eq,slotted,List.append_cancel_left_eq,List.append_cancel_right_eq]
  exact replaceAll_unchanged_iff documentMarker_some query

-- A query that holds the marker takes the document in as well.
theorem document_placed_twice :
    ¬ ∀ (query : Bytes) (cand : RerankCandidate) (path : ScoringPath), path.prompt query cand = slotted query cand.text := by
  intro claimed
  have built := claimed documentMarker ⟨ascii "c",ascii "x"⟩ .scorePair
  have unchanged : prompt documentMarker (ascii "x") = slotted documentMarker (ascii "x") := built
  rw [prompt_eq,slotted,List.append_cancel_left_eq,List.append_cancel_right_eq] at unchanged
  exact absurd unchanged (by decide)

end Reranker
