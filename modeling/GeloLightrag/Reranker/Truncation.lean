import GeloLightrag.Foundation.Checked
import GeloLightrag.Reranker.Prompt

namespace Reranker
open Foundation

-- The encoder keeps to itself on either side of a special token, writes the token's id
-- for its text alone, and adds nothing of its own.
structure SpecialToken (inner : Bytes → Except String (List UInt32)) (text : Bytes) (id : UInt32) : Prop where
  empty : inner [] = .ok []
  splits : ∀ a b, inner (a ++ (text ++ b)) = do return (← inner a) ++ id :: (← inner b)
  only : ∀ a ids, inner a = .ok ids → ¬ text <:+: a → id ∉ ids

def endOfTurn : Bytes := ascii "<|im_end|>"
def assistantHeader : Bytes := ascii "\n<|im_start|>assistant\n<think>\n\n</think>\n\n"

-- All that the prompt has before the tail.
def promptFront (query document : Bytes) : Bytes := beforeQuery ++ (replaceAll documentMarker document query ++ (betweenSlots ++ document))

set_option maxRecDepth 8000 in
theorem afterDocument_parts : afterDocument = endOfTurn ++ assistantHeader := by
  have whole : afterDocument = _ := ascii_ofList _
  have later : assistantHeader = _ := ascii_ofList _
  rw [whole,later]
  decide +kernel

theorem prompt_front (path : ScoringPath) (query : Bytes) (cand : RerankCandidate) :
    path.prompt query cand = promptFront query cand.text ++ afterDocument := by
  have built : path.prompt query cand = prompt query cand.text := by cases path <;> rfl
  rw [built,prompt_eq,promptFront]
  simp only [List.append_assoc]

theorem HfTokenizer.encode_open {tokenizer : HfTokenizer} (unclosed : tokenizer.truncationCloseToken = none) (encoded : tokenizer.inner text = .ok ids)
    (maxLen : Nat) : tokenizer.encode text maxLen = .ok (ids.take maxLen) := by
  rw [HfTokenizer.encode,encoded,unclosed]
  dsimp only
  split
  · rw [List.take_of_length_le (by assumption)]
  · rfl

section Tails
variable {id : UInt32} {before tail : List UInt32}

-- A list cut short of its tail ends in it only where the cut is before the tail, whose
-- first id is nowhere else in it.
theorem tail_suffix_iff (once : id ∉ tail) (maxLen : Nat) :
    id :: tail <:+ (before ++ id :: tail).take maxLen ↔
      before.length + (id :: tail).length ≤ maxLen ∨ maxLen ≤ before.length ∧ id :: tail <:+ before.take maxLen := by
  by_cases whole : before.length + (id :: tail).length ≤ maxLen
  · rw [List.take_of_length_le (by rwa [List.length_append])]
    exact ⟨fun _ => .inl whole,fun _ => List.suffix_append before (id :: tail)⟩
  by_cases inside : maxLen ≤ before.length
  · rw [List.take_append_of_le_length inside]
    exact ⟨fun ends => .inr ⟨inside,ends⟩,fun either => (either.resolve_left whole).2⟩
  · refine ⟨fun ends => ?_,fun either => ?_⟩
    · obtain ⟨more,past⟩ : ∃ more, maxLen = before.length + (more + 1) := ⟨maxLen - before.length - 1,by omega⟩
      rw [past,List.take_length_add_append,List.take_succ_cons] at ends
      rw [past,List.length_cons] at whole
      have kept : id :: tail.take more <:+ before ++ id :: tail.take more := List.suffix_append _ _
      have short : (id :: tail.take more).length ≤ (id :: tail).length := by simp
      obtain ⟨front,split⟩ := List.suffix_of_suffix_length_le kept ends short
      cases front with
      | nil =>
          have same := congrArg List.length split
          simp only [List.nil_append,List.length_cons,List.length_take] at same
          omega
      | cons d front =>
          refine absurd ?_ once
          rw [List.cons_append,List.cons.injEq] at split
          rw [←split.2]
          exact List.mem_append_right front List.mem_cons_self
    · rcases either with fits | ⟨early,_⟩
      · exact absurd fits whole
      · exact absurd early inside

end Tails

section Scoring
variable {X Row S : Type} {svc : CausalDiscriminatorRerankService X Row S} {id : UInt32} {query : Bytes} {cand : RerankCandidate} {before after : List UInt32}

theorem inputIds_eq (special : SpecialToken svc.tokenizer.inner endOfTurn id) (unclosed : svc.tokenizer.truncationCloseToken = none)
    (front : svc.tokenizer.inner (promptFront query cand.text) = .ok before) (tail : svc.tokenizer.inner afterDocument = .ok after)
    (path : ScoringPath) :
    ∃ rest, after = id :: rest ∧ id ∉ rest ∧ path.inputIds svc query cand = .ok ((before ++ after).take svc.maxLen) := by
  have headed := special.splits [] assistantHeader
  rw [List.nil_append,←afterDocument_parts,tail,special.empty] at headed
  obtain ⟨none_,first,later⟩ := except_bind_ok.mp headed.symm
  cases first
  obtain ⟨rest,ended,same⟩ := except_bind_ok.mp later
  cases same
  refine ⟨rest,rfl,special.only _ _ ended (by decide +kernel),HfTokenizer.encode_open unclosed ?_ _⟩
  rw [prompt_front,afterDocument_parts,special.splits,front,ended]
  rfl

theorem tail_kept_iff (special : SpecialToken svc.tokenizer.inner endOfTurn id) (unclosed : svc.tokenizer.truncationCloseToken = none)
    (front : svc.tokenizer.inner (promptFront query cand.text) = .ok before) (tail : svc.tokenizer.inner afterDocument = .ok after)
    (path : ScoringPath) :
    (∃ ids, path.inputIds svc query cand = .ok ids ∧ ids.length ≤ svc.maxLen ∧ after <:+ ids) ↔
      before.length + after.length ≤ svc.maxLen ∨ svc.maxLen ≤ before.length ∧ after <:+ before.take svc.maxLen := by
  obtain ⟨rest,rfl,once,handed⟩ := inputIds_eq special unclosed front tail path
  rw [←tail_suffix_iff once svc.maxLen,handed]
  constructor
  · rintro ⟨ids,same,_,ends⟩
    cases same
    exact ends
  · exact fun ends => ⟨_,rfl,List.length_take_le _ _,ends⟩

end Scoring

-- An encoder of bytes with one special token.
def bytewiseIds (text : Bytes) : List UInt32 := replaceAll (endOfTurn.map UInt8.toUInt32) [256] (text.map UInt8.toUInt32)

def bytewise (text : Bytes) : Except String (List UInt32) := .ok (bytewiseIds text)

theorem bytewise_special : SpecialToken bytewise endOfTurn 256 := by
  have some_ : endOfTurn.map UInt8.toUInt32 ≠ [] := by decide
  refine ⟨rfl,fun a b => ?_,fun a ids encoded free => ?_⟩
  · have contained : Contained (endOfTurn.map UInt8.toUInt32) (a.map UInt8.toUInt32) (endOfTurn.map UInt8.toUInt32 ++ b.map UInt8.toUInt32) :=
      .of_unbordered (by decide)
    rw [bytewise,bytewiseIds,List.map_append,List.map_append,replaceAll_append some_ contained,replaceAll_pattern some_]
    rfl
  · have narrow : ∀ text : Bytes, (text.map UInt8.toUInt32).map UInt32.toUInt8 = text := fun text => by
      rw [List.map_map]
      exact (List.map_congr_left fun b _ => UInt8.toUInt8_toUInt32 b).trans (List.map_id text)
    have free' : ¬ endOfTurn.map UInt8.toUInt32 <:+: a.map UInt8.toUInt32 := fun inside => by
      have again := inside.map UInt32.toUInt8
      rw [narrow,narrow] at again
      exact free again
    cases encoded
    rw [bytewiseIds,replaceAll_free some_ free']
    intro member
    obtain ⟨b,_,same⟩ := List.mem_map.mp member
    have value := congrArg UInt32.toNat same
    rw [UInt8.toNat_toUInt32] at value
    have small := b.toNat_lt
    simp at value
    omega

def bytewiseService (maxLen : Nat) : CausalDiscriminatorRerankService Unit Unit Unit := ⟨.fromFile bytewise,id,(),maxLen⟩

set_option maxRecDepth 8000 in
theorem tail_kept_iff_fits : ∃ ids, ScoringPath.scorePair.inputIds (bytewiseService 300) (ascii "q") ⟨ascii "c",ascii "d"⟩ = .ok ids ∧
    ids.length ≤ 300 ∧ bytewiseIds afterDocument <:+ ids := by
  have special : SpecialToken (bytewiseService 300).tokenizer.inner endOfTurn 256 := bytewise_special
  have front : (bytewiseService 300).tokenizer.inner (promptFront (ascii "q") (⟨ascii "c",ascii "d"⟩ : RerankCandidate).text) =
      .ok (bytewiseIds (promptFront (ascii "q") (ascii "d"))) := rfl
  have tail : (bytewiseService 300).tokenizer.inner afterDocument = .ok (bytewiseIds afterDocument) := rfl
  have fits : (bytewiseIds (promptFront (ascii "q") (ascii "d"))).length + (bytewiseIds afterDocument).length ≤ 300 := by
    have first : beforeQuery = _ := ascii_ofList _
    have last : afterDocument = _ := ascii_ofList _
    rw [promptFront,first,last]
    decide +kernel
  exact (tail_kept_iff special rfl front tail .scorePair).mpr (.inl fits)

-- The empty template and the query fit to the id, and the tail gives way to the document.
set_option maxRecDepth 8000 in
theorem document_displaces_tail :
    ¬ ∀ (svc : CausalDiscriminatorRerankService Unit Unit Unit) (id : UInt32) (query : Bytes) (cand : RerankCandidate) (path : ScoringPath)
        (blank asked after ids : List UInt32), SpecialToken svc.tokenizer.inner endOfTurn id → svc.tokenizer.truncationCloseToken = none →
      svc.tokenizer.inner (beforeQuery ++ (betweenSlots ++ afterDocument)) = .ok blank → svc.tokenizer.inner query = .ok asked →
      blank.length + asked.length ≤ svc.maxLen → svc.tokenizer.inner afterDocument = .ok after → path.inputIds svc query cand = .ok ids →
      ids.length ≤ svc.maxLen ∧ after <:+ ids := by
  intro claimed
  have first : beforeQuery = _ := ascii_ofList _
  have last : afterDocument = _ := ascii_ofList _
  have fits : (bytewiseIds (beforeQuery ++ (betweenSlots ++ afterDocument))).length + (bytewiseIds (ascii "q")).length ≤ 200 := by
    rw [first,last]
    decide +kernel
  have cut := claimed (bytewiseService 200) 256 (ascii "q") ⟨ascii "c",ascii "d"⟩ .scorePair (bytewiseIds (beforeQuery ++ (betweenSlots ++ afterDocument)))
    (bytewiseIds (ascii "q")) (bytewiseIds afterDocument) _ bytewise_special rfl rfl rfl fits rfl (HfTokenizer.encode_open rfl rfl 200)
  have ends : bytewiseIds afterDocument <:+ (bytewiseIds (prompt (ascii "q") (ascii "d"))).take 200 := cut.2
  rw [prompt_eq,first,last] at ends
  exact absurd ends (by decide +kernel)

end Reranker
