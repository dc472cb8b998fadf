import GeloLightrag.Foundation.Bytes

namespace Foundation

-- Authenticated encryption under a key and a nonce. Only what callers rely on is
-- assumed of it: opening a sealed text with the same key and nonce returns it.
class AesGcm where
  encrypt : Bytes → Bytes → Bytes → Bytes
  decrypt : Bytes → Bytes → Bytes → Option Bytes
  decrypt_encrypt : ∀ key nonce plaintext, decrypt key nonce (encrypt key nonce plaintext) = some plaintext

attribute [simp] AesGcm.decrypt_encrypt

class AesGcm.LengthOnly [AesGcm] : Prop where
  length_only : ∀ {key nonce key' nonce' p q : Bytes}, p.length = q.length →
    (encrypt key nonce p).length = (encrypt key' nonce' q).length

-- A ciphertext is as long as its text and a tag.
class AesGcm.FixedOverhead [AesGcm] : Prop where
  overhead : ∃ tag, ∀ key nonce p : Bytes, (encrypt key nonce p).length = p.length + tag

-- No other key opens what was sealed.
class AesGcm.KeyBound [AesGcm] : Prop where
  other_key : ∀ {key key' nonce p : Bytes}, key' ≠ key → decrypt key' nonce (encrypt key nonce p) = none

-- What opens was sealed under the key and the nonce.
class AesGcm.Authentic [AesGcm] : Prop where
  authentic : ∀ {key nonce ciphertext p : Bytes}, decrypt key nonce ciphertext = some p → ciphertext = encrypt key nonce p

-- A call that does not return its value returns an error, or panics.
inductive Halted (ε : Type) where
  | error (e : ε)
  | panic (text : String)
deriving DecidableEq,Repr

def Panics {ε α : Type} (call : Except (Halted ε) α) : Prop := ∃ text, call = .error (.panic text)

-- `Nonce::from_slice`, which takes slices of one length.
def nonceFromSlice {ε : Type} (slice : Bytes) : Except (Halted ε) Bytes :=
  if slice.length = 12 then .ok slice else .error (.panic s!"assertion `left == right` failed\n  left: {slice.length}\n right: 12")

theorem nonceFromSlice_full {ε : Type} (full : slice.length = 12) : (nonceFromSlice slice : Except (Halted ε) Bytes) = .ok slice := if_pos full

theorem nonceFromSlice_panics {ε : Type} (odd : slice.length ≠ 12) : ∃ text, (nonceFromSlice slice : Except (Halted ε) Bytes) = .error (.panic text) :=
  ⟨_,if_neg odd⟩

namespace AesGcm

-- A stand-in that can be run: the text in clear, closed by sixteen bytes taken
-- from the nonce and the key.
def frameTag (key nonce : Bytes) : Bytes := (nonce ++ key ++ List.replicate 16 0).take 16

theorem frameTag_length (key nonce : Bytes) : (frameTag key nonce).length = 16 := by
  simp only [frameTag,List.length_take,List.length_append,List.length_replicate]
  omega

@[reducible] def framed : AesGcm where
  encrypt key nonce plaintext := frameTag key nonce ++ plaintext
  decrypt key nonce ciphertext :=
    if ciphertext.take 16 = frameTag key nonce then some (ciphertext.drop 16) else none
  decrypt_encrypt key nonce plaintext := by
    rw [List.take_left' (frameTag_length key nonce),List.drop_left' (frameTag_length key nonce),if_pos rfl]

-- Another, which begins with the whole key and the whole nonce.
def label (bytes : Bytes) : Bytes := bytes.flatMap (fun b => [1,b]) ++ [0]

theorem label_inj {a b x y : Bytes} (same : label a ++ x = label b ++ y) : a = b ∧ x = y := by
  induction a generalizing b with
  | nil => cases b with
    | nil => simpa [label] using same
    | cons c rest => simp [label] at same
  | cons d rest ih => cases b with
    | nil => simp [label] at same
    | cons c rest' =>
        simp only [label,List.flatMap_cons,List.cons_append,List.nil_append,List.cons.injEq,true_and] at same
        obtain ⟨rfl,tails⟩ := ih same.2
        exact ⟨by rw [same.1],tails⟩

@[reducible] def labelled : AesGcm where
  encrypt key nonce plaintext := label key ++ (label nonce ++ plaintext)
  decrypt key nonce ciphertext :=
    let header := label key ++ label nonce
    if ciphertext.take header.length = header then some (ciphertext.drop header.length) else none
  decrypt_encrypt key nonce plaintext := by
    simp only [←List.append_assoc,List.take_left,List.drop_left,if_true]

theorem labelled_opens {key nonce ciphertext p : Bytes} (opened : labelled.decrypt key nonce ciphertext = some p) :
    ciphertext = label key ++ (label nonce ++ p) := by
  replace opened : (if ciphertext.take (label key ++ label nonce).length = label key ++ label nonce then
      some (ciphertext.drop (label key ++ label nonce).length) else none) = some p := opened
  split at opened
  · rename_i header
    have whole := List.take_append_drop (label key ++ label nonce).length ciphertext
    rw [header,Option.some.inj opened] at whole
    rw [←whole,List.append_assoc]
  · cases opened

theorem labelled_authentic : @Authentic labelled := @Authentic.mk labelled labelled_opens

theorem labelled_keyBound : @KeyBound labelled :=
  @KeyBound.mk labelled fun {key key' nonce p} other => by
    cases opened : labelled.decrypt key' nonce (labelled.encrypt key nonce p) with
    | none => rfl
    | some q => exact absurd (label_inj (labelled_opens opened)).1.symm other

theorem framed_lengthOnly : @LengthOnly framed :=
  @LengthOnly.mk framed fun {key nonce key' nonce' p q} same => by
    show (frameTag key nonce ++ p).length = (frameTag key' nonce' ++ q).length
    rw [List.length_append,List.length_append,frameTag_length,frameTag_length,same]

theorem framed_fixedOverhead : @FixedOverhead framed :=
  @FixedOverhead.mk framed ⟨16,fun key nonce p => by
    show (frameTag key nonce ++ p).length = p.length + 16
    rw [List.length_append,frameTag_length,Nat.add_comm]⟩

end AesGcm
end Foundation
