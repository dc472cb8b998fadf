import GeloLightrag.Aloepri.Qwen3
import Mathlib.Tactic.FieldSimp
import Mathlib.Tactic.Linarith

namespace Aloepri
open Foundation Matrix

-- What becomes of a model's arrays by the part they have at the residual: norms, linears
-- that read past a norm, linears that write, the embedding.
structure Pass (w w' : Nat) where
  norm : (Fin w → ℝ) → Fin w' → ℝ
  read : {m : Nat} → (Fin w → ℝ) → Matrix (Fin m) (Fin w) ℝ → Matrix (Fin m) (Fin w') ℝ
  write : {m : Nat} → Matrix (Fin w) (Fin m) ℝ → Matrix (Fin w') (Fin m) ℝ
  embd : {m : Nat} → Matrix (Fin m) (Fin w) ℝ → Matrix (Fin m) (Fin w') ℝ

section Under
variable {s : Sizes} {w w' w'' : Nat}

def Block.under (p : Pass w w') (b : Block s w) : Block s w' where
  attnNorm := p.norm b.attnNorm
  attnQ := p.read b.attnNorm b.attnQ
  attnK := p.read b.attnNorm b.attnK
  attnV := p.read b.attnNorm b.attnV
  attnQNorm := b.attnQNorm
  attnKNorm := b.attnKNorm
  attnOutput := p.write b.attnOutput
  ffnNorm := p.norm b.ffnNorm
  ffnGate := p.read b.ffnNorm b.ffnGate
  ffnUp := p.read b.ffnNorm b.ffnUp
  ffnDown := p.write b.ffnDown

def Qwen3.under (p : Pass w w') (m : Qwen3 s w) : Qwen3 s w' where
  layerNormRmsEpsilon := m.layerNormRmsEpsilon
  ropeFreqBase := m.ropeFreqBase
  tokenEmbd := p.embd m.tokenEmbd
  block := fun k => (m.block k).under p
  outputNorm := p.norm m.outputNorm
  output := p.read m.outputNorm m.output

def Pass.followed (p : Pass w w') (q : Pass w' w'') : Pass w w'' where
  norm := fun gamma => q.norm (p.norm gamma)
  read := fun gamma linear => q.read (p.norm gamma) (p.read gamma linear)
  write := fun linear => q.write (p.write linear)
  embd := fun linear => q.embd (p.embd linear)

theorem under_under (p : Pass w w') (q : Pass w' w'') (m : Qwen3 s w) : (m.under p).under q = m.under (p.followed q) := rfl

-- Reading from the image of a row, with the scale of the image's norm, what was read from
-- the row; writing the image of what was written.
structure Pass.Sound (p : Pass w w') (f : (Fin w → ℝ) →+ (Fin w' → ℝ)) (scale scale' : ℝ → ℝ) : Prop where
  read : ∀ {m : Nat} (gamma : Fin w → ℝ) (linear : Matrix (Fin m) (Fin w) ℝ) (x : Fin w → ℝ),
    p.read gamma linear *ᵥ rmsNorm scale' (p.norm gamma) (f x) = linear *ᵥ rmsNorm scale gamma x
  write : ∀ {m : Nat} (linear : Matrix (Fin w) (Fin m) ℝ) (x : Fin m → ℝ), p.write linear *ᵥ x = f (linear *ᵥ x)
  embd : ∀ {m : Nat} (linear : Matrix (Fin m) (Fin w) ℝ) (t : Fin m), p.embd linear t = f (linear t)

namespace Pass.Sound
variable {n : Nat} {p : Pass w w'} {f : (Fin w → ℝ) →+ (Fin w' → ℝ)} {scale scale' : ℝ → ℝ}

theorem attn (sound : p.Sound f scale scale') (m : Qwen3 s w) (b : Block s w) : Carries (ι:=Fin n) f (b.attn scale m) ((b.under p).attn scale' (m.under p)) where
  read := fun x => by
    show Projected.mk _ _ _ = Projected.mk _ _ _
    rw [Block.under,sound.read,sound.read,sound.read]
  core := rfl
  write := fun o => sound.write b.attnOutput o

theorem ffn (sound : p.Sound f scale scale') (b : Block s w) : Carries (ι:=Fin n) f (b.ffn scale) ((b.under p).ffn scale') where
  read := fun x => by
    show (_,_) = (_,_)
    rw [Block.under,sound.read,sound.read]
  core := rfl
  write := fun o => sound.write b.ffnDown o

theorem stage (sound : p.Sound f scale scale') (m : Qwen3 s w) (k : Nat) (stream : Fin n → Fin w → ℝ) :
    (m.under p).stage scale' k (fun i => f (stream i)) = fun i => f (m.stage scale k stream i) := by
  unfold Qwen3.stage
  by_cases within : k < s.blockCount
  · rw [dif_pos within,dif_pos within]
    calc (((m.block ⟨k,within⟩).under p).ffn scale').run ((((m.block ⟨k,within⟩).under p).attn scale' (m.under p)).run fun i => f (stream i))
        = (((m.block ⟨k,within⟩).under p).ffn scale').run fun i => f (((m.block ⟨k,within⟩).attn scale m).run stream i) := by rw [(sound.attn m _).run]
      _ = _ := (sound.ffn _).run _
  · rw [dif_neg within,dif_neg within]

-- The rewritten model's residual is the image of the plain one's all along.
theorem residual (sound : p.Sound f scale scale') (m : Qwen3 s w) (tokens : Fin n → Fin s.vocab) (k : Nat) :
    (m.under p).residualBy scale' tokens k = fun i => f (m.residualBy scale tokens k i) := by
  have begins : (m.under p).embedded tokens = fun i => f (m.embedded tokens i) := funext fun i => sound.embd m.tokenEmbd _
  unfold Qwen3.residualBy
  rw [begins]
  exact passed_carried (f:=fun (stream : Fin n → Fin w → ℝ) i => f (stream i)) (sound.stage m) _ k

theorem logits (sound : p.Sound f scale scale') (m : Qwen3 s w) (tokens : Fin n → Fin s.vocab) :
    (m.under p).logitsBy scale' tokens = m.logitsBy scale tokens := by
  unfold Qwen3.logitsBy
  rw [sound.residual]
  funext i
  exact sound.read m.outputNorm m.output _

end Pass.Sound
end Under

section Algebra
variable {d k m : Nat}

def scaledColumns {F : Type} [Mul F] (linear : Matrix (Fin m) (Fin d) F) (gamma : Fin d → F) : Matrix (Fin m) (Fin d) F := of fun r i => linear r i * gamma i

-- A norm's scale comes out of the linear behind it, and its gains go into the linear.
theorem read_plain (scale : ℝ → ℝ) (gamma x : Fin d → ℝ) (linear : Matrix (Fin m) (Fin d) ℝ) :
    linear *ᵥ rmsNorm scale gamma x = scale (x ⬝ᵥ x) • (scaledColumns linear gamma *ᵥ x) := by
  funext r
  show ∑ i, linear r i * (x i * scale (x ⬝ᵥ x) * gamma i) = scale (x ⬝ᵥ x) * ∑ i, linear r i * gamma i * x i
  rw [Finset.mul_sum]
  exact Finset.sum_congr rfl fun i _ => by ring

theorem scaledColumns_one (linear : Matrix (Fin m) (Fin d) ℝ) : scaledColumns linear (fun _ => 1) = linear := by
  ext r i
  exact mul_one _

theorem scaledColumns_const (linear : Matrix (Fin m) (Fin d) ℝ) (c : ℝ) (x : Fin d → ℝ) : scaledColumns linear (fun _ => c) *ᵥ x = c • (linear *ᵥ x) := by
  funext r
  show ∑ i, linear r i * c * x i = c * ∑ i, linear r i * x i
  rw [Finset.mul_sum]
  exact Finset.sum_congr rfl fun i _ => by ring

end Algebra

section Padding
variable {d k m : Nat}

def padVec {F : Type} [Zero F] (k : Nat) (v : Fin d → F) : Fin (d + k) → F := Fin.append v fun _ => 0
def padColumns {F : Type} [Zero F] (k : Nat) (linear : Matrix (Fin m) (Fin d) F) : Matrix (Fin m) (Fin (d + k)) F := of fun r => padVec k (linear r)
def padRows {F : Type} [Zero F] (k : Nat) (linear : Matrix (Fin d) (Fin m) F) : Matrix (Fin (d + k)) (Fin m) F := of (Fin.append linear fun _ => 0)

-- Zeros behind a row.
def padded (k : Nat) : (Fin d → ℝ) →+ (Fin (d + k) → ℝ) where
  toFun := padVec k
  map_zero' := funext (Fin.addCases (fun i => Fin.append_left _ _ i) fun i => Fin.append_right _ _ i)
  map_add' := fun x y => funext (Fin.addCases
    (fun i => by
      show padVec k (x + y) (Fin.castAdd k i) = padVec k x (Fin.castAdd k i) + padVec k y (Fin.castAdd k i)
      rw [padVec,padVec,padVec,Fin.append_left,Fin.append_left,Fin.append_left]
      rfl)
    fun i => by
      show padVec k (x + y) (Fin.natAdd d i) = padVec k x (Fin.natAdd d i) + padVec k y (Fin.natAdd d i)
      rw [padVec,padVec,padVec,Fin.append_right,Fin.append_right,Fin.append_right,add_zero])

theorem padVec_injective : Function.Injective (padVec (F:=ℝ) (d:=d) k) := by
  intro x y same
  funext i
  have entry := congrFun same (Fin.castAdd k i)
  rwa [padVec,padVec,Fin.append_left,Fin.append_left] at entry

theorem padVec_dot (x y : Fin d → ℝ) : padVec k x ⬝ᵥ padVec k y = x ⬝ᵥ y := by
  show ∑ i, padVec k x i * padVec k y i = ∑ i, x i * y i
  rw [Fin.sum_univ_add]
  simp only [padVec,Fin.append_left,Fin.append_right,mul_zero,Finset.sum_const_zero,add_zero]

def padPass (k : Nat) : Pass d (d + k) where
  norm := padVec k
  read := fun _ => padColumns k
  write := padRows k
  embd := padColumns k

-- The zeros are passed over; the norm's scale is the caller's.
theorem padPass_sound (k : Nat) (scale : ℝ → ℝ) : (padPass (d:=d) k).Sound (padded k) scale scale where
  read := fun {m} gamma linear x => by
    have normed : rmsNorm scale (padVec k gamma) (padVec k x) = padVec k (rmsNorm scale gamma x) := by
      funext i
      unfold rmsNorm
      rw [padVec_dot]
      refine Fin.addCases (fun i => ?_) (fun i => ?_) i
      · simp only [padVec,Fin.append_left]
      · simp only [padVec,Fin.append_right,mul_zero]
    funext r
    show padVec k (linear r) ⬝ᵥ rmsNorm scale (padVec k gamma) (padVec k x) = linear r ⬝ᵥ rmsNorm scale gamma x
    rw [normed,padVec_dot]
  write := fun {m} linear x => funext (Fin.addCases
    (fun i => by
      have row : padRows k linear (Fin.castAdd k i) = linear i := Fin.append_left (fun i => linear i) (fun _ => 0) i
      show padRows k linear (Fin.castAdd k i) ⬝ᵥ x = padVec k (linear *ᵥ x) (Fin.castAdd k i)
      rw [row,padVec,Fin.append_left]
      rfl)
    fun i => by
      have row : padRows k linear (Fin.natAdd d i) = 0 := Fin.append_right (fun i => linear i) (fun _ => 0) i
      show padRows k linear (Fin.natAdd d i) ⬝ᵥ x = padVec k (linear *ᵥ x) (Fin.natAdd d i)
      rw [row,padVec,Fin.append_right,zero_dotProduct])
  embd := fun _ _ => rfl

end Padding

section Fusing
variable {d : Nat}

def fusePass : Pass d d where
  norm := id
  read := fun gamma linear => scaledColumns linear gamma
  write := id
  embd := id

def constPass (c : ℝ) : Pass d d where
  norm := fun _ _ => c
  read := fun _ => id
  write := id
  embd := id

theorem gammaPass_sound (scale : ℝ → ℝ) : (fusePass.followed (constPass 1) : Pass d d).Sound (AddMonoidHom.id _) scale scale where
  read := fun gamma linear x => by
    show scaledColumns linear gamma *ᵥ rmsNorm scale (fun _ => 1) x = _
    rw [read_plain,read_plain,scaledColumns_one]
  write := fun _ _ => rfl
  embd := fun _ _ => rfl

end Fusing
end Aloepri
