import GeloLightrag.Foundation.Checked
import GeloLightrag.Reranker.WireShape

namespace Reranker
open Foundation

structure DecryptedRerankItem where
  rank : Nat
  chunkId : Bytes
  text : Bytes
deriving DecidableEq,Repr

-- `serde_json::from_slice` of a payload.
class PayloadJson where
  fromSlice : Bytes → Option RerankPayload

def IsText (bytes : Bytes) : Prop := ∃ text : String, utf8 text = bytes

def RerankPayload.Typed : RerankPayload → Prop
  | .real rank chunkId text => rank < 2 ^ 32 ∧ IsText chunkId ∧ IsText text
  | .decoy => True

-- What is written is read again, whatever spaces follow.
class PayloadJson.Faithful [PayloadJson] : Prop where
  fromSlice_toJson : ∀ (payload : RerankPayload) (spaces : Nat), payload.Typed →
    fromSlice (payload.toJson ++ List.replicate spaces 0x20) = some payload

section Open
variable [AesGcm] [PayloadJson]

-- One turn of the loop: the item's content, which a decoy has none of.
def openItem (key : Bytes) (item : EncryptedRerankItem) : Except (Halted RerankError) (Option DecryptedRerankItem) := do
  let nonce ← nonceFromSlice item.nonce
  let plain ← (AesGcm.decrypt key nonce item.ciphertext).elim (.error (.error (.aead "decrypt"))) .ok
  let payload ← (PayloadJson.fromSlice plain).elim (.error (.error (.aead "payload decode"))) .ok
  match payload with
  | .real rank chunkId text => return some ⟨rank,chunkId,text⟩
  | .decoy => return none

def EncryptedRerankBundle.open (bundle : EncryptedRerankBundle) (key : Bytes) : Except (Halted RerankError) (List DecryptedRerankItem) := do
  if bundle.scheme ≠ "aes-256-gcm.v1" then throw (.error (.invalidRequest ("unsupported bundle scheme " ++ bundle.scheme)))
  let opened ← bundle.items.mapM (openItem key)
  return sortByKey DecryptedRerankItem.rank opened.reduceOption

-- What an item that opens holds.
def RerankPayload.held : RerankPayload → Option DecryptedRerankItem
  | .real rank chunkId text => some ⟨rank,chunkId,text⟩
  | .decoy => none

-- An item that a payload can be taken out of.
def Opens (key : Bytes) (item : EncryptedRerankItem) (payload : RerankPayload) : Prop :=
  item.nonce.length = 12 ∧ ∃ plain, AesGcm.decrypt key item.nonce item.ciphertext = some plain ∧ PayloadJson.fromSlice plain = some payload

theorem openItem_ok {key : Bytes} {item : EncryptedRerankItem} {held : Option DecryptedRerankItem} :
    openItem key item = .ok held ↔ ∃ payload, Opens key item payload ∧ payload.held = held := by
  unfold openItem Opens
  by_cases full : item.nonce.length = 12
  · rw [nonceFromSlice_full full]
    cases opened : AesGcm.decrypt key item.nonce item.ciphertext with
    | none => simp [opened,bind,Except.bind]
    | some plain =>
        cases read : PayloadJson.fromSlice plain with
        | none => simp [opened,read,bind,Except.bind]
        | some payload => cases payload <;> simp [opened,read,full,bind,Except.bind,RerankPayload.held,pure,Except.pure]
  · obtain ⟨text,panics⟩ := nonceFromSlice_panics (ε:=RerankError) full
    rw [panics]
    simp [full,bind,Except.bind]

-- What stops an item is a panic exactly where its nonce has the wrong length.
theorem openItem_panics {key : Bytes} {item : EncryptedRerankItem} :
    Panics (openItem key item) ↔ item.nonce.length ≠ 12 := by
  unfold openItem Panics
  by_cases full : item.nonce.length = 12
  · rw [nonceFromSlice_full full]
    cases opened : AesGcm.decrypt key item.nonce item.ciphertext with
    | none => simp [full,opened,bind,Except.bind]
    | some plain =>
        cases read : PayloadJson.fromSlice plain with
        | none => simp [full,opened,read,bind,Except.bind]
        | some payload => cases payload <;> simp [opened,read,full,bind,Except.bind,pure,Except.pure]
  · obtain ⟨text,panics⟩ := nonceFromSlice_panics (ε:=RerankError) full
    rw [panics]
    simp [full,bind,Except.bind]

variable {key : Bytes} {bundle : EncryptedRerankBundle}

theorem open_ok_iff : bundle.open key = .ok opened ↔ bundle.scheme = "aes-256-gcm.v1" ∧
    ∃ held, List.Forall₂ (fun item h => openItem key item = .ok h) bundle.items held ∧
      opened = sortByKey DecryptedRerankItem.rank held.reduceOption := by
  unfold EncryptedRerankBundle.open
  by_cases scheme : bundle.scheme = "aes-256-gcm.v1"
  · simp only [scheme,ne_eq,not_true_eq_false,if_false,true_and]
    rw [except_bind_ok]
    simp only [mapM_ok_iff,pure,Except.pure,Except.ok.injEq]
    exact exists_congr fun held => and_congr_right fun _ => eq_comm
  · simp [scheme,bind,Except.bind,throw,throwThe,MonadExceptOf.throw]

end Open
end Reranker
