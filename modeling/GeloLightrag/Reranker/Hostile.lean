import GeloLightrag.Foundation.Checked
import GeloLightrag.RagCore.Storage
import GeloLightrag.Reranker.Payload
import Mathlib.Data.List.Perm.Basic
import Mathlib.Data.List.ReduceOption

namespace Reranker
open Foundation RagCore

section Hostile
variable [AesGcm] [PayloadJson] {key : Bytes} {bundle : EncryptedRerankBundle}

-- The first item that does not open decides how the call ends.
theorem open_panics_iff : Panics (bundle.open key) ↔ bundle.scheme = "aes-256-gcm.v1" ∧ ∃ before item after,
    bundle.items = before ++ item :: after ∧ (∀ i ∈ before, ∃ payload, Opens key i payload) ∧ item.nonce.length ≠ 12 := by
  unfold Panics EncryptedRerankBundle.open
  by_cases scheme : bundle.scheme = "aes-256-gcm.v1"
  · simp only [scheme,ne_eq,not_true_eq_false,if_false,true_and]
    constructor
    · rintro ⟨text,panicked⟩
      cases ran : bundle.items.mapM (openItem key) with
      | ok held => rw [ran] at panicked; cases panicked
      | error halted =>
          rw [ran] at panicked
          cases panicked
          obtain ⟨before,item,after,whole,fine,stopped⟩ := mapM_error_iff.mp ran
          refine ⟨before,item,after,whole,fun i member => ?_,openItem_panics.mp ⟨text,stopped⟩⟩
          obtain ⟨held,opened⟩ := fine i member
          obtain ⟨payload,opens,_⟩ := openItem_ok.mp opened
          exact ⟨payload,opens⟩
    · rintro ⟨before,item,after,whole,fine,odd⟩
      have panics : Panics (openItem key item) := openItem_panics.mpr odd
      obtain ⟨text,stopped⟩ := panics
      have ran := mapM_error_iff.mpr ⟨before,item,after,whole,fun i member => by
        obtain ⟨payload,opens⟩ := fine i member
        exact ⟨_,openItem_ok.mpr ⟨payload,opens,rfl⟩⟩,stopped⟩
      exact ⟨text,by rw [ran]; rfl⟩
  · simp [scheme,bind,Except.bind,throw,throwThe,MonadExceptOf.throw]

theorem decryptChunk_panics_iff {encrypted : ChunkCiphertext} :
    Panics (decryptChunk key encrypted) ↔ encrypted.scheme = "aes-256-gcm" ∧ encrypted.nonce.length ≠ 12 := by
  unfold Panics decryptChunk
  by_cases scheme : encrypted.scheme = "aes-256-gcm"
  · by_cases full : encrypted.nonce.length = 12
    · rw [nonceFromSlice_full full]
      cases opened : AesGcm.decrypt key encrypted.nonce encrypted.ciphertext with
      | none => simp [scheme,full,opened,bind,Except.bind,pure,Except.pure]
      | some plain => cases text : fromUtf8 plain <;> simp [scheme,full,opened,text,bind,Except.bind,pure,Except.pure]
    · obtain ⟨text,panics⟩ := nonceFromSlice_panics (ε:=String) full
      rw [panics]
      simp [scheme,full,bind,Except.bind,pure,Except.pure]
  · simp [scheme,bind,Except.bind,throw,throwThe,MonadExceptOf.throw]

-- Whatever comes out was sealed under the key.
def Vouched (key : Bytes) (bundle : EncryptedRerankBundle) : Prop := ∀ opened, bundle.open key = .ok opened → ∀ item ∈ opened,
  ∃ from_ ∈ bundle.items, ∃ plain, from_.ciphertext = AesGcm.encrypt key from_.nonce plain ∧
    PayloadJson.fromSlice plain = some (.real item.rank item.chunkId item.text)

-- The order of the items says nothing.
def OrderFree (key : Bytes) (bundle : EncryptedRerankBundle) : Prop :=
  ∀ bundle' : EncryptedRerankBundle, bundle.scheme = bundle'.scheme → bundle.items.Perm bundle'.items →
    ((∃ opened, bundle.open key = .ok opened) ↔ ∃ opened, bundle'.open key = .ok opened) ∧
      ∀ opened, bundle.open key = .ok opened → (opened.map DecryptedRerankItem.rank).Nodup → bundle'.open key = .ok opened

theorem vouched [AesGcm.Authentic] (key : Bytes) (bundle : EncryptedRerankBundle) : Vouched key bundle := by
  intro opened ran item member
  obtain ⟨_,held,listed,rfl⟩ := open_ok_iff.mp ran
  have inside : some item ∈ held := by
    have kept : item ∈ held.reduceOption := (sortBy_perm _ _).mem_iff.mp member
    exact List.reduceOption_mem_iff.mp kept
  obtain ⟨i,short,at_⟩ := List.mem_iff_getElem.mp inside
  obtain ⟨from_,place,opens⟩ := paired listed (List.getElem?_eq_some_iff.mpr ⟨short,at_⟩)
  obtain ⟨payload,⟨_,plain,decrypted,read⟩,holds⟩ := openItem_ok.mp opens
  refine ⟨from_,List.mem_of_getElem? place,plain,AesGcm.Authentic.authentic decrypted,?_⟩
  cases payload with
  | real rank chunkId text => cases holds; exact read
  | decoy => cases holds

theorem open_permuted {bundle' : EncryptedRerankBundle} (scheme : bundle.scheme = bundle'.scheme) (same : bundle.items.Perm bundle'.items)
    (ran : bundle.open key = .ok opened) :
    ∃ opened', bundle'.open key = .ok opened' ∧ ((opened.map DecryptedRerankItem.rank).Nodup → opened' = opened) := by
  obtain ⟨tag,held,listed,rfl⟩ := open_ok_iff.mp ran
  obtain ⟨held',listed',moved⟩ := List.perm_comp_forall₂ same.symm listed
  refine ⟨_,open_ok_iff.mpr ⟨scheme ▸ tag,held',listed',rfl⟩,fun distinct => ?_⟩
  have kept : held.reduceOption.Perm held'.reduceOption := (moved.symm).filterMap id
  have apart : (held.reduceOption.map DecryptedRerankItem.rank).Nodup := (((sortBy_perm _ _).map _).nodup_iff).mp distinct
  exact (sortByKey_perm kept apart).symm

theorem orderFree (key : Bytes) (bundle : EncryptedRerankBundle) : OrderFree key bundle := by
  intro bundle' scheme same
  refine ⟨⟨fun ⟨opened,ran⟩ => ?_,fun ⟨opened,ran⟩ => ?_⟩,fun opened ran distinct => ?_⟩
  · obtain ⟨opened',ran',_⟩ := open_permuted scheme same ran
    exact ⟨opened',ran'⟩
  · obtain ⟨opened',ran',_⟩ := open_permuted scheme.symm same.symm ran
    exact ⟨opened',ran'⟩
  · obtain ⟨opened',ran',equal⟩ := open_permuted scheme same ran
    rw [ran',equal distinct]

-- A nonce of another length than twelve stops both calls with a panic, as soon as
-- it is looked at.
theorem decryption_safe_iff [AesGcm.Authentic] (key : Bytes) (bundle : EncryptedRerankBundle) (chunkKey : Bytes) (encrypted : ChunkCiphertext) :
    (¬Panics (bundle.open key) ∧ ¬Panics (decryptChunk chunkKey encrypted) ∧ Vouched key bundle ∧ OrderFree key bundle) ↔
      (bundle.scheme = "aes-256-gcm.v1" → ∀ before item after, bundle.items = before ++ item :: after →
        (∀ i ∈ before, ∃ payload, Opens key i payload) → item.nonce.length = 12) ∧
      (encrypted.scheme = "aes-256-gcm" → encrypted.nonce.length = 12) := by
  rw [open_panics_iff,decryptChunk_panics_iff]
  constructor
  · rintro ⟨calm,calm',_⟩
    refine ⟨fun tag before item after whole fine => ?_,fun tag => ?_⟩
    · by_contra odd
      exact calm ⟨tag,before,item,after,whole,fine,odd⟩
    · by_contra odd
      exact calm' ⟨tag,odd⟩
  · rintro ⟨full,full'⟩
    refine ⟨?_,fun ⟨tag,odd⟩ => odd (full' tag),vouched key bundle,orderFree key bundle⟩
    rintro ⟨tag,before,item,after,whole,fine,odd⟩
    exact odd (full tag before item after whole fine)

end Hostile

section Labelled

local instance labelledSeals : AesGcm := .labelled
local instance labelledAuthentic : AesGcm.Authentic := AesGcm.labelled_authentic
local instance exactPayloads : PayloadJson := .exact

-- An item, and a chunk, without a nonce.
theorem short_nonce_panics : Panics (EncryptedRerankBundle.open ⟨"aes-256-gcm.v1",[⟨[],[]⟩]⟩ (List.replicate 32 7)) ∧
    Panics (decryptChunk (List.replicate 32 7) ⟨"doc","aes-256-gcm",[],[]⟩) := ⟨⟨_,rfl⟩,⟨_,rfl⟩⟩

def sealedDecoy : EncryptedRerankItem :=
  ⟨List.replicate 12 0,AesGcm.encrypt [7] (List.replicate 12 0) RerankPayload.decoy.toJson⟩

theorem decryption_safe_iff_one_decoy : ¬Panics (EncryptedRerankBundle.open ⟨"aes-256-gcm.v1",[sealedDecoy]⟩ [7]) ∧
    ¬Panics (decryptChunk [7] ⟨"doc","aes-256-gcm",List.replicate 12 0,[]⟩) := by
  have full : ∀ before item after, [sealedDecoy] = before ++ item :: after → item.nonce.length = 12 := by
    intro before item after whole
    have listed : item ∈ before ++ item :: after := by simp
    rw [←whole] at listed
    cases List.mem_singleton.mp listed
    rfl
  have safe := (decryption_safe_iff [7] ⟨"aes-256-gcm.v1",[sealedDecoy]⟩ [7]
    ⟨"doc","aes-256-gcm",List.replicate 12 0,[]⟩).mpr ⟨fun _ before item after whole _ => full before item after whole,fun _ => rfl⟩
  exact ⟨safe.1,safe.2.1⟩

end Labelled
end Reranker
