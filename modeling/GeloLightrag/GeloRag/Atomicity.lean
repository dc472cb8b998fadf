import GeloLightrag.GeloRag.Requests
import GeloLightrag.TwoParty.Service
import Mathlib.Algebra.Order.Field.Basic

namespace GeloRag
open Foundation Keying RagCore GeloRagTwoPartyService

section Ingests
variable {E F : Type} [HkdfSha256] [HmacSha256] [AesGcm] [ChaCha20] [Add F] [Sub F] [Mul F] [Div F] [Neg F] [Zero F] [One F]
  [NatCast F] [LinearOrder F] [Elementary F] (around : Surroundings E F) {s : GeloRagTwoPartyService E F} {tenantId : String}

-- An ingest that fails shows to no tenant. One that does not stores a record of every
-- chunk and no more.
def Traceless (s : GeloRagTwoPartyService E F) (tenantId : String) (userXSk : Bytes) (chunks : List DocumentChunk) : Prop :=
  match ingestChunksFor around tenantId userXSk chunks s with
  | .ok _ s' => ∃ secret new, s'.indices tenantId = some ⟨(s.entry tenantId).records ++ new⟩ ∧
      List.Forall₂ (Seals (sessionKeys around userXSk secret tenantId)) chunks new
  | .error _ s' => ∀ other, Alike around other s s'

-- What the embedder gives for the chunks has a vector that is not empty for each, or
-- the tenant is known and the embedder fails or gives an empty vector first.
def Clean {E F : Type} (around : Surroundings E F) (s : GeloRagTwoPartyService E F) (tenantId : String) (chunks : List DocumentChunk) : Prop :=
  match (around.embed s.embedder (chunks.map DocumentChunk.text)).1 with
  | .error _ => s.tenantKnown tenantId
  | .ok embeddings => (∀ pair ∈ chunks.zip embeddings, pair.2 ≠ []) ∧ chunks.length ≤ embeddings.length ∨
      s.tenantKnown tenantId ∧ ∃ chunk rest, chunks.zip embeddings = (chunk,[]) :: rest

-- A failed ingest that stores nothing shows just when its tenant was not known.
theorem alike_iff {s' : GeloRagTwoPartyService E F} (kept : ∀ known, s.teeSecrets tenantId = some known → secret = known)
    (secrets : s'.teeSecrets = Function.update s.teeSecrets tenantId (some secret))
    (indices : s'.indices = s.indices ∨ s'.indices = Function.update s.indices tenantId (some (s.entry tenantId))) :
    (∀ other, Alike around other s s') ↔ s.tenantKnown tenantId := by
  constructor
  · intro alike
    rw [←(alike tenantId).known,tenantKnown,secrets,Function.update_self]
    rfl
  · intro known other
    obtain ⟨old,held⟩ := Option.isSome_iff_exists.mp known
    obtain rfl := kept old held
    have same : s'.teeSecrets other = s.teeSecrets other := by rw [secrets,←held,Function.update_eq_self]
    rcases indices with unchanged | entered
    · exact .of_same around same (congrFun unchanged other)
    · by_cases here : other = tenantId
      · subst here
        exact .of_empty around same (by rw [entered,Function.update_self])
      · exact .of_same around same (by rw [entered,Function.update_of_ne here])

theorem chunks_traceless_iff (s : GeloRagTwoPartyService E F) (tenantId : String) (userXSk : Bytes) (chunks : List DocumentChunk) :
    Traceless around s tenantId userXSk chunks ↔ Clean around s tenantId chunks := by
  obtain ⟨secret,kept,ends⟩ := ingestChunksFor_ends around s tenantId userXSk chunks
  unfold Traceless Clean
  cases ran : ingestChunksFor around tenantId userXSk chunks s with
  | ok _ s' =>
      obtain ⟨secrets,embeddings,embedded,full,new,stored,indices⟩ := ends.at_ok ran
      have held : s'.indices tenantId = some ⟨(s.entry tenantId).records ++ new⟩ := by rw [indices,Function.update_self]
      have count := stored.length_eq
      rw [List.length_map,List.length_zip] at count
      rw [embedded]
      constructor
      · rintro ⟨_,new',held',sealed_⟩
        rw [held,Option.some_inj,InMemoryEncryptedIndex.mk.injEq,List.append_cancel_left_eq] at held'
        subst held'
        have each := sealed_.length_eq
        exact .inl ⟨full,by omega⟩
      · rintro (⟨_,long⟩ | ⟨_,chunk,rest,listed⟩)
        · rw [List.map_fst_zip long] at stored
          exact ⟨secret,new,held,stored⟩
        · exact absurd rfl (full (chunk,[]) (by rw [listed]; exact List.mem_cons_self))
  | error e s' =>
      obtain ⟨secrets,⟨⟨text,embedded⟩,indices⟩ | ⟨embeddings,before,chunk,rest,embedded,split,full,new,stored,indices⟩⟩ := ends.at_error ran
      · rw [embedded]
        exact alike_iff around kept secrets (.inl indices)
      · have blank : (chunk,[]) ∈ chunks.zip embeddings := by rw [split]; simp
        rw [embedded]
        constructor
        · intro alike
          have count := (alike tenantId).len
          have stay : s.indexLenFor tenantId = (s.entry tenantId).records.length := by
            rw [indexLenFor,entry]
            cases s.indices tenantId <;> rfl
          rw [stay,indexLenFor,indices,Function.update_self] at count
          obtain rfl : new = [] := List.length_eq_zero_iff.mp (by
            simp only [Option.map_some,Option.getD_some,InMemoryEncryptedIndex.len,List.length_append] at count
            omega)
          obtain rfl := List.map_eq_nil_iff.mp (List.forall₂_nil_right_iff.mp stored)
          refine .inr ⟨?_,chunk,rest,split⟩
          rw [←(alike tenantId).known,tenantKnown,secrets,Function.update_self]
          rfl
        · rintro (⟨whole,_⟩ | ⟨known,first,others,listed⟩)
          · exact absurd rfl (whole _ blank)
          · cases before with
            | cons pair rest' =>
                rw [split] at listed
                obtain rfl := (List.cons.inj listed).1
                exact absurd rfl (full _ List.mem_cons_self)
            | nil =>
                obtain rfl := List.forall₂_nil_left_iff.mp stored
                rw [List.append_nil] at indices
                exact (alike_iff around kept secrets (.inr indices)).mpr known

end Ingests

-- What the calls of the other service see of it.
def Untouched {Kg Params Store Query Ctx : Type} (service next : TwoParty.LightRagTwoPartyService Kg Params Store Query Ctx) : Prop :=
  next.tenants = service.tenants ∧ next.arcs = service.arcs

-- The first step of its ingest touches nothing, nor does the second when it fails.
theorem kg_traceless {Kg Params Store Query Ctx : Type} [HkdfSha256] [HmacSha256] (around : TwoParty.Surroundings Kg Params Store Query Ctx)
    (service : TwoParty.LightRagTwoPartyService Kg Params Store Query Ctx) (caller : Nat) (tenantId : String) (userXSk : Bytes)
    (kg : Kg) (params : Params) :
    (∀ next, service.advance around caller (.invoked (.ingestKgFor tenantId userXSk kg params)) = some next → Untouched service next) ∧
      ∀ teeSk drew next text, service.advance around caller (.ingesting tenantId userXSk kg params teeSk drew) = some next →
        next.history = service.history ++ [.returned caller (.failed text)] → Untouched service next := by
  constructor
  · intro next step
    cases step
    exact ⟨rfl,rfl⟩
  · intro teeSk drew next text step ended
    unfold TwoParty.LightRagTwoPartyService.advance at step
    cases built : around.build tenantId userXSk kg params teeSk with
    | error text' =>
        simp only [built] at step
        cases step
        exact ⟨rfl,rfl⟩
    | ok tenant =>
        simp only [built] at step
        cases step
        have last := List.append_cancel_left ended
        cases last

-- An ingest of chunks leaves no trace just when it is clean. One of a graph never
-- leaves any when it fails.
theorem ingests_traceless {E F Kg Params Store Query Ctx : Type} [HkdfSha256] [HmacSha256] [AesGcm] [ChaCha20] [Add F] [Sub F] [Mul F] [Div F]
    [Neg F] [Zero F] [One F] [NatCast F] [LinearOrder F] [Elementary F] (around : Surroundings E F)
    (kgAround : TwoParty.Surroundings Kg Params Store Query Ctx) :
    (∀ s tenantId userXSk chunks, Traceless around s tenantId userXSk chunks ↔ Clean around s tenantId chunks) ∧
      ∀ (service : TwoParty.LightRagTwoPartyService Kg Params Store Query Ctx) caller tenantId userXSk kg params,
        (∀ next, service.advance kgAround caller (.invoked (.ingestKgFor tenantId userXSk kg params)) = some next → Untouched service next) ∧
          ∀ teeSk drew next text, service.advance kgAround caller (.ingesting tenantId userXSk kg params teeSk drew) = some next →
            next.history = service.history ++ [.returned caller (.failed text)] → Untouched service next :=
  ⟨chunks_traceless_iff around,kg_traceless kgAround⟩

-- An embedder that fails the first time it is called.
def lateSurroundings : Surroundings Nat Int where
  embed calls texts := (if calls = 0 then .error "embedder warming up" else .ok (texts.map fun _ => [1]),calls + 1)
  schemeParams := ⟨1,1⟩
  hkdfPolicy := .v1
  osRng _ length := List.replicate length 0
  osRng_length := zeros_length

theorem failed_contact_known :
    ¬∀ s tenantId userXSk chunks, @Traceless Nat Int .joined .joined .framed .counting _ _ _ _ _ _ _ _ _ .integral lateSurroundings s tenantId userXSk chunks := by
  intro traceless
  obtain ⟨known,_,_⟩ := traceless (.new 0) "a" [] [⟨"1","x"⟩] "a"
  exact Bool.false_ne_true known.symm

end GeloRag
