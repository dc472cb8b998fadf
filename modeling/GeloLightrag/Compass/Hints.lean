import GeloLightrag.Compass.Codec
import GeloLightrag.Compass.Descent

namespace Compass
open Foundation

-- The float operations of the quantiser. The last is a rounding followed by a cast
-- to a byte.
class Quantised (F : Type) where
  abs : F → F
  max : F → F → F
  minPositive : F
  roundByte : F → UInt8

structure NodeHints where
  packedHints : List Bytes
deriving DecidableEq,Repr

-- Two codes a byte, the first in the low half.
def packNibbles : List UInt8 → Bytes
  | [] => []
  | [low] => [low]
  | low :: high :: rest => (low ||| high <<< 4) :: packNibbles rest

theorem packNibbles_length (codes : List UInt8) : (packNibbles codes).length = (codes.length + 1) / 2 := by
  fun_induction packNibbles codes with
  | case1 => rfl
  | case2 low => simp
  | case3 low high rest ih =>
      simp only [List.length_cons,ih]
      omega

section
variable {F : Type} [Add F] [Sub F] [Mul F] [Div F] [Neg F] [Zero F] [One F] [NatCast F] [PartialCmp F] [Quantised F]

def qLevels : UInt8 := 15

def quantiseNibble (x : F) : UInt8 :=
  let clamped := if lt x (-1) then -1 else if lt 1 x then 1 else x
  Quantised.roundByte ((clamped + 1) / ((2 : Nat) : F) * (qLevels.toNat : F)) &&& 15

def dequantiseNibble (q : UInt8) : F := (q.toNat : F) / (qLevels.toNat : F) * ((2 : Nat) : F) - 1

def packDirection (direction : List F) : Bytes :=
  let scale := Quantised.max ((direction.map Quantised.abs).foldl Quantised.max 0) Quantised.minPositive
  packNibbles (direction.map fun x => quantiseNibble (x / scale))

-- `packed[i / 2]` is out of bounds where the query has more components.
def scorePacked (packed : Bytes) (qDir : List F) : Except String F :=
  qDir.zipIdx.foldlM (fun acc (qd,i) => do
    let byte ← index packed (i / 2)
    return acc + dequantiseNibble (if i % 2 = 0 then byte &&& 15 else byte >>> 4) * qd) 0

-- The hints of a node point from it to each of its neighbours, in their order.
def directionalHints (embeddings : List (List F)) (x : List F) (neighbours : List Nat) : Except String NodeHints := do
  return ⟨← neighbours.mapM fun n => do return packDirection ((← index embeddings n).zipWith (· - ·) x)⟩

-- A node past the layer's lists is out of bounds.
def PlainHnsw.layer0DirectionalHints (hnsw : PlainHnsw F) : Except String (List NodeHints) :=
  hnsw.embeddings.zipIdx.mapM fun (x,id) => do directionalHints hnsw.embeddings x (← index hnsw.layer0 id)

theorem packDirection_length (direction : List F) : (packDirection direction).length = (direction.length + 1) / 2 := by
  rw [packDirection,packNibbles_length,List.length_map]

omit [Neg F] [PartialCmp F] [Quantised F] in
theorem scorePacked_ok {packed : Bytes} {qDir : List F} (long : qDir.length ≤ 2 * packed.length) : ∃ score, scorePacked packed qDir = .ok score := by
  have inside : ∀ item ∈ qDir.zipIdx, item.2 / 2 < packed.length := by
    rintro ⟨qd,i⟩ member
    have bound := (List.mem_zipIdx' member).1
    show i / 2 < packed.length
    omega
  unfold scorePacked
  generalize qDir.zipIdx = items at inside
  generalize (0 : F) = acc
  induction items generalizing acc with
  | nil => exact ⟨acc,rfl⟩
  | cons item rest ih =>
      rw [List.foldlM_cons]
      have byte : index packed (item.2 / 2) = .ok (packed.get ⟨item.2 / 2,inside item List.mem_cons_self⟩) := by
        unfold index
        rw [List.getElem?_eq_getElem (inside item List.mem_cons_self)]
        rfl
      obtain ⟨score,ran⟩ := ih (fun other member => inside other (List.mem_cons_of_mem _ member))
        (acc + dequantiseNibble (if item.2 % 2 = 0 then packed.get ⟨item.2 / 2,inside item List.mem_cons_self⟩ &&& 15
          else packed.get ⟨item.2 / 2,inside item List.mem_cons_self⟩ >>> 4) * item.1)
      refine ⟨score,?_⟩
      simp only [byte]
      exact ran

end

def PlainHnsw.layer0Blocks {F : Type} (hnsw : PlainHnsw F) : List (NodeBlock F) := hnsw.embeddings.zipWith NodeBlock.mk hnsw.layer0

end Compass
