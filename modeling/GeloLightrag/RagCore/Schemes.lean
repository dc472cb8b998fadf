import GeloLightrag.Foundation.Digest
import GeloLightrag.Foundation.Text
import Mathlib.Data.Nat.Cast.Defs
import Mathlib.Order.Lattice

namespace RagCore
open Foundation

-- The scalar functions of the source's floats. No law is assumed of them.
class Elementary (F : Type) where
  sqrt : F → F
  ln : F → F
  cos : F → F
  sin : F → F
  powf : F → F → F
  pi : F
  epsilon : F
  isZero : F → Bool

-- A stand-in that can be run.
@[reducible] def Elementary.integral : Elementary Int := ⟨id,id,fun _ => 1,fun _ => 0,fun x _ => x,3,0,fun x => x == 0⟩

-- The words a ChaCha20 generator gives from a seed.
class ChaCha20 where
  word : Bytes → Nat → Nat

@[reducible] def ChaCha20.counting : ChaCha20 := ⟨fun _ i => i * 2 ^ 30⟩

section Sampling
variable [HmacSha256]

def deriveRng (key nonce : Bytes) (label : String) : Bytes := (HmacSha256.mac key (utf8 label ++ nonce)).take 32

variable {F : Type} [Add F] [Sub F] [Mul F] [Div F] [Neg F] [Zero F] [One F] [NatCast F] [LinearOrder F] [Elementary F] [ChaCha20]

def clamp (x low high : F) : F := if x < low then low else if high < x then high else x

-- The i-th `random::<f32>()`, of the upper 24 bits of a word.
def random (rng : Bytes) (i : Nat) : F := ((ChaCha20.word rng i / 2 ^ 8 : Nat) : F) / ((2 ^ 24 : Nat) : F)

-- The two numbers of one round of the sampling loop.
def boxMuller (rng : Bytes) (i : Nat) : F × F :=
  let u1 : F := clamp (random rng i) Elementary.epsilon 1
  let u2 : F := random rng (i+1)
  let radius := Elementary.sqrt (-((2 : Nat) : F) * Elementary.ln u1)
  let theta := ((2 : Nat) : F) * Elementary.pi * u2
  (radius * Elementary.cos theta,radius * Elementary.sin theta)

-- `while raw.len() < dims`, from the numbers still wanted and the draws so far.
def rawSamples (F : Type) [Add F] [Sub F] [Mul F] [Div F] [Neg F] [Zero F] [One F] [NatCast F] [LinearOrder F] [Elementary F]
    (rng : Bytes) : Nat → Nat → List F
  | 0,_ => []
  | 1,i => [(boxMuller rng i).1]
  | dims+2,i => (boxMuller rng i).1 :: (boxMuller rng i).2 :: rawSamples F rng dims (i+2)

def sampleUnitVector (F : Type) [Add F] [Sub F] [Mul F] [Div F] [Neg F] [Zero F] [One F] [NatCast F] [LinearOrder F] [Elementary F]
    (rng : Bytes) (dims : Nat) : List F :=
  let raw := rawSamples F rng dims 0
  let norm := Elementary.sqrt ((raw.map fun v => v * v).foldl (· + ·) 0)
  if Elementary.isZero norm then List.replicate dims 0 else raw.map (· / norm)

def sampleUniformOpen01 (rng : Bytes) : F := clamp (random rng 0) Elementary.epsilon (1 - Elementary.epsilon)

structure EncryptedEmbedding (F : Type) where
  scheme : String
  vector : List F
  nonce : Bytes
  originalDimension : Nat
deriving DecidableEq

-- A scaled embedding under noise of a direction and a length.
def disturbed (embedding direction : List F) (scaleFactor radius : F) : List F :=
  embedding.zipWith (fun value noise => value * scaleFactor + noise * radius) direction

structure CapriseKey (F : Type) where
  scaleFactor : F
  beta : F
  seedKey : Bytes

def CapriseKey.encryptInternal (key : CapriseKey F) (embedding : List F) (nonce : Bytes) (label : String) (coefficient : F)
    (scheme : String) : Except String (EncryptedEmbedding F) :=
  if embedding.isEmpty then .error "embedding must not be empty"
  else
    let dims := embedding.length
    let direction := sampleUnitVector F (deriveRng key.seedKey nonce label) dims
    let u : F := sampleUniformOpen01 (deriveRng key.seedKey nonce "caprise:radius")
    let radius := coefficient * key.scaleFactor * key.beta * Elementary.powf u (1 / (dims : F))
    .ok ⟨scheme,disturbed embedding direction key.scaleFactor radius,nonce,dims⟩

def CapriseKey.encryptDocument (key : CapriseKey F) (embedding : List F) (nonce : Bytes) : Except String (EncryptedEmbedding F) :=
  key.encryptInternal embedding nonce "caprise:db" (((3 : Nat) : F) / ((8 : Nat) : F)) "caprise-db"

def CapriseKey.encryptQuery (key : CapriseKey F) (embedding : List F) (nonce : Bytes) : Except String (EncryptedEmbedding F) :=
  key.encryptInternal embedding nonce "caprise:query" (1 / ((8 : Nat) : F)) "caprise-query"

theorem encryptDocument_nil (key : CapriseKey F) (nonce : Bytes) : key.encryptDocument [] nonce = .error "embedding must not be empty" := rfl

theorem encryptDocument_some (key : CapriseKey F) {embedding : List F} (some_ : embedding ≠ []) (nonce : Bytes) :
    ∃ e, key.encryptDocument embedding nonce = .ok e := by
  unfold CapriseKey.encryptDocument CapriseKey.encryptInternal
  rw [if_neg (by simpa using some_)]
  exact ⟨_,rfl⟩

theorem encryptQuery_some (key : CapriseKey F) {embedding : List F} (some_ : embedding ≠ []) (nonce : Bytes) :
    ∃ e, key.encryptQuery embedding nonce = .ok e := by
  unfold CapriseKey.encryptQuery CapriseKey.encryptInternal
  rw [if_neg (by simpa using some_)]
  exact ⟨_,rfl⟩

structure SapKey (F : Type) where
  scaleFactor : F
  beta : F
  seedKey : Bytes

-- Documents and queries alike.
def SapKey.encryptWithNonce (key : SapKey F) (embedding : List F) (nonce : Bytes) : Except String (EncryptedEmbedding F) :=
  if embedding.isEmpty then .error "embedding must not be empty"
  else
    let dims := embedding.length
    let unit := sampleUnitVector F (deriveRng key.seedKey nonce "sap:direction") dims
    let u : F := sampleUniformOpen01 (deriveRng key.seedKey nonce "sap:radius")
    let radius := Elementary.powf u (1 / (dims : F)) * key.scaleFactor * key.beta / ((4 : Nat) : F)
    .ok ⟨"sap",disturbed embedding unit key.scaleFactor radius,nonce,dims⟩

end Sampling
end RagCore
