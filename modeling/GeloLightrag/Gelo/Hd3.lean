import GeloLightrag.Foundation.Checked
import GeloLightrag.Foundation.InPlace
import GeloLightrag.Gelo.Mask

namespace Gelo
open Foundation InPlace

-- The features the processor has, and in which order a parallel loop takes its
-- items.
structure Cpu where
  x86_64 : Bool
  avx512f : Bool
  avx2 : Bool

structure Rayon where
  order : {α : Type} → List α → List α
  perm : ∀ {α : Type} (items : List α), (order items).Perm items

-- A range of memory, shorter than half the address space.
structure Slice (F : Type) where
  len : Nat
  cells : Nat → F
  fits : len * 4 < 2 ^ 63

def Slice.rows [Zero F] (n cols : Nat) (s : Slice F) : Array2 F := Array2.of n cols fun i j => s.cells (i * cols + j)

structure Chunk where
  start : Nat
  len : Nat
deriving DecidableEq

-- The last chunk is what is left.
def chunksMut (len size : Nat) : List Chunk :=
  (List.range ((len + size - 1) / size)).map fun c => ⟨c * size,min size (len - c * size)⟩

def forEach {σ α : Type} (rayon : Rayon) (useRayon : Bool) (items : List α) (body : σ → α → σ) (s : σ) : σ :=
  (if useRayon then rayon.order items else items).foldl body s

namespace Hd3

def avx512fSupported (cpu : Cpu) : Bool := cpu.x86_64 && cpu.avx512f
def avx2Supported (cpu : Cpu) : Bool := cpu.x86_64 && cpu.avx2

def fwhtRayonWorkThreshold : Nat := 65536
def fwhtRadix8Factor : Nat := 8

section Butterflies
variable {F : Type} [CommRing F]

-- The registers of one lane, level by level.
def octLevels (x : Nat → F) : Nat → F :=
  let s01 := x 0 + x 1
  let d01 := x 0 - x 1
  let s23 := x 2 + x 3
  let d23 := x 2 - x 3
  let s45 := x 4 + x 5
  let d45 := x 4 - x 5
  let s67 := x 6 + x 7
  let d67 := x 6 - x 7
  let p0 := s01 + s23
  let p2 := s01 - s23
  let p1 := d01 + d23
  let p3 := d01 - d23
  let p4 := s45 + s67
  let p6 := s45 - s67
  let p5 := d45 + d67
  let p7 := d45 - d67
  fun
    | 0 => p0 + p4
    | 1 => p1 + p5
    | 2 => p2 + p6
    | 3 => p3 + p7
    | 4 => p0 - p4
    | 5 => p1 - p5
    | 6 => p2 - p6
    | _ => p3 - p7

def pairLevel (x : Nat → F) : Nat → F
  | 0 => x 0 + x 1
  | _ => x 0 - x 1

-- Columns k to k + width of every row are loaded before the first is stored.
def lanes (op : (Nat → F) → Nat → F) (order : List Nat) (rows : Nat → Nat) (k width : Nat) (m : Nat → F) : Nat → F :=
  storeAll (fun lane => rows lane + k) width (fun lane t => op (fun i => m (rows i + k + t)) lane) order m

-- The loop `while k + width <= d`.
def sweep (op : (Nat → F) → Nat → F) (order : List Nat) (rows : Nat → Nat) (width d : Nat) :
    Nat → Nat → (Nat → F) → Nat × (Nat → F)
  | 0,k,m => (k,m)
  | fuel+1,k,m => if k + width ≤ d then sweep op order rows width d fuel (k + width) (lanes op order rows k width m) else (k,m)

-- A loop over vectors and a scalar one over the columns left.
def vectored (op : (Nat → F) → Nat → F) (order tailOrder : List Nat) (width : Nat) (rows : Nat → Nat) (d : Nat) (m : Nat → F) :
    Nat → F :=
  let (k,m) := sweep op order rows width d d 0 m
  (sweep op tailOrder rows 1 d d k m).2

def octOrder : List Nat := [0,1,2,3,4,5,6,7]
def octScalarOrder : List Nat := [0,4,1,5,2,6,3,7]
def pairOrder : List Nat := [0,1]

def butterflyOctScalar (rows : Nat → Nat) (d : Nat) (m : Nat → F) : Nat → F := (sweep octLevels octScalarOrder rows 1 d d 0 m).2
def butterflyOctAvx512 : (Nat → Nat) → Nat → (Nat → F) → Nat → F := vectored octLevels octOrder octScalarOrder 16
def butterflyOctAvx2 : (Nat → Nat) → Nat → (Nat → F) → Nat → F := vectored octLevels octOrder octScalarOrder 8

def butterflyOct (useAvx512 useAvx2 : Bool) (rows : Nat → Nat) (d : Nat) (m : Nat → F) : Nat → F :=
  if useAvx512 then butterflyOctAvx512 rows d m
  else if useAvx2 then butterflyOctAvx2 rows d m
  else butterflyOctScalar rows d m

def butterflyPairScalar (rows : Nat → Nat) (d : Nat) (m : Nat → F) : Nat → F := (sweep pairLevel pairOrder rows 1 d d 0 m).2
def butterflyPairAvx512 : (Nat → Nat) → Nat → (Nat → F) → Nat → F := vectored pairLevel pairOrder pairOrder 16
def butterflyPairAvx2 : (Nat → Nat) → Nat → (Nat → F) → Nat → F := vectored pairLevel pairOrder pairOrder 8

def butterflyPair (useAvx512 useAvx2 : Bool) (rows : Nat → Nat) (d : Nat) (m : Nat → F) : Nat → F :=
  if useAvx512 then butterflyPairAvx512 rows d m
  else if useAvx2 then butterflyPairAvx2 rows d m
  else butterflyPairScalar rows d m

-- The groups of a chunk from j on: radix rows at distance h, until a group's
-- last row would end past the chunk.
def groups (radix : Nat) (butterfly : (Nat → Nat) → Nat → (Nat → F) → Nat → F) (chunk : Chunk) (h d : Nat) :
    Nat → Nat → (Nat → F) → Nat → F
  | 0,_,m => m
  | left+1,j,m =>
    if chunk.len < (j + (radix - 1) * h) * d + d then m
    else groups radix butterfly chunk h d left (j+1) (butterfly (fun i => chunk.start + (j + i * h) * d) d m)

def processStageChunk (useAvx512 useAvx2 : Bool) (h d : Nat) (m : Nat → F) (chunk : Chunk) : Nat → F :=
  groups 2 (butterflyPair useAvx512 useAvx2) chunk h d h 0 m

def processStageChunkRadix8 (useAvx512 useAvx2 : Bool) (h d : Nat) (m : Nat → F) (chunk : Chunk) : Nat → F :=
  groups 8 (butterflyOct useAvx512 useAvx2) chunk h d h 0 m

-- The loop over the stages, from distance h.
def stages (useAvx512 useAvx2 : Bool) (rayon : Rayon) (useRayon : Bool) (len n d : Nat) : Nat → Nat → (Nat → F) → Nat → F
  | 0,_,m => m
  | fuel+1,h,m =>
    if h < n then
      if (checkedMul h fwhtRadix8Factor).any fun next => decide (next ≤ n) then
        stages useAvx512 useAvx2 rayon useRayon len n d fuel (h * fwhtRadix8Factor)
          (forEach rayon useRayon (chunksMut len (8 * h * d)) (processStageChunkRadix8 useAvx512 useAvx2 h d) m)
      else
        stages useAvx512 useAvx2 rayon useRayon len n d fuel (h * 2)
          (forEach rayon useRayon (chunksMut len (2 * h * d)) (processStageChunk useAvx512 useAvx2 h d) m)
    else m

def fwhtRowsInplaceSlice (cpu : Cpu) (rayon : Rayon) (len n d : Nat) (m : Nat → F) : Nat → F :=
  if n < 2 ∨ d = 0 then m
  else
    let useAvx512 := avx512fSupported cpu
    let useAvx2 := !useAvx512 && avx2Supported cpu
    let useRayon := decide (fwhtRayonWorkThreshold ≤ saturatingMul n d)
    stages useAvx512 useAvx2 rayon useRayon len n d n 1 m

def fwhtRowsInplace (cpu : Cpu) (rayon : Rayon) (x : Array2 F) : Array2 F :=
  ofCells x.nrows x.ncols (fwhtRowsInplaceSlice cpu rayon (x.nrows * x.ncols) x.nrows x.ncols (cells x))

end Butterflies

section Masks
variable {F : Type} [Field F] [LinearOrder F]

def flipRow (m : Nat → F) (row : Chunk × F) : Nat → F :=
  if row.2 < 0 then rewrite row.1.start row.1.len (fun v => -v) m else m

def scaleRow (factor : F) (m : Nat → F) (row : Chunk × F) : Nat → F :=
  rewrite row.1.start row.1.len (fun v => v * (row.2 * factor)) m

-- The rows with their signs: chunks zipped with the diagonal above the
-- threshold, the diagonal enumerated below it.
def signedRows (len cols : Nat) (d : List F) (useRayon : Bool) : List (Chunk × F) :=
  if useRayon then (chunksMut len cols).zip d else d.zipIdx.map fun sign => (⟨sign.2 * cols,cols⟩,sign.1)

def applyDiagInplaceSlice (rayon : Rayon) (len : Nat) (d : List F) (cols : Nat) (m : Nat → F) : Nat → F :=
  if cols = 0 then m
  else
    let useRayon := decide (fwhtRayonWorkThreshold ≤ saturatingMul d.length cols)
    forEach rayon useRayon (signedRows len cols d useRayon) flipRow m

def applyDiagScaledInplaceSlice (rayon : Rayon) (len : Nat) (d : List F) (cols : Nat) (factor : F) (m : Nat → F) : Nat → F :=
  if cols = 0 then m
  else
    let useRayon := decide (fwhtRayonWorkThreshold ≤ saturatingMul d.length cols)
    forEach rayon useRayon (signedRows len cols d useRayon) (scaleRow factor) m

def applyDiagInplace (rayon : Rayon) (d : List F) (x : Array2 F) : Array2 F :=
  ofCells x.nrows x.ncols (applyDiagInplaceSlice rayon (x.nrows * x.ncols) d x.ncols (cells x))

def applyDiagScaledInplace (rayon : Rayon) (d : List F) (factor : F) (x : Array2 F) : Array2 F :=
  ofCells x.nrows x.ncols (applyDiagScaledInplaceSlice rayon (x.nrows * x.ncols) d x.ncols factor (cells x))

variable (cpu : Cpu) (rayon : Rayon) (mask : Hd3Mask F)

def applyInPlace (buf : Array2 F) : Except String (Array2 F) :=
  if buf.nrows = mask.n then
    .ok (applyDiagScaledInplace rayon mask.d3 mask.invNorm (fwhtRowsInplace cpu rayon (applyDiagInplace rayon mask.d2
      (fwhtRowsInplace cpu rayon (applyDiagInplace rayon mask.d1 (fwhtRowsInplace cpu rayon buf))))))
  else .error s!"Hd3Mask::apply_in_place: buf has {buf.nrows} rows, expected {mask.n}"

def unapplyInPlace (buf : Array2 F) : Except String (Array2 F) :=
  if buf.nrows = mask.n then
    .ok (fwhtRowsInplace cpu rayon (applyDiagInplace rayon mask.d1 (fwhtRowsInplace cpu rayon (applyDiagInplace rayon mask.d2
      (fwhtRowsInplace cpu rayon (applyDiagScaledInplace rayon mask.d3 mask.invNorm buf))))))
  else .error s!"Hd3Mask::unapply_in_place: buf has {buf.nrows} rows, expected {mask.n}"

-- The operand is copied into a fresh buffer.
def apply (hidden : Array2 F) : Except String (Array2 F) :=
  if hidden.nrows = mask.n then
    applyInPlace cpu rayon mask (if 0 < hidden.ncols then hidden else Array2.zeros mask.n hidden.ncols)
  else .error s!"Hd3Mask::apply: hidden has {hidden.nrows} rows, expected {mask.n}"

def unapply (maskedOutput : Array2 F) : Except String (Array2 F) :=
  if maskedOutput.nrows = mask.n then
    unapplyInPlace cpu rayon mask (if 0 < maskedOutput.ncols then maskedOutput else Array2.zeros mask.n maskedOutput.ncols)
  else .error s!"Hd3Mask::unapply: masked_output has {maskedOutput.nrows} rows, expected {mask.n}"

def applyInPlaceSlice (buf : Slice F) (cols : Nat) : Except String (Slice F) :=
  if buf.len = saturatingMul mask.n cols then
    let m := fwhtRowsInplaceSlice cpu rayon buf.len mask.n cols buf.cells
    let m := applyDiagInplaceSlice rayon buf.len mask.d1 cols m
    let m := fwhtRowsInplaceSlice cpu rayon buf.len mask.n cols m
    let m := applyDiagInplaceSlice rayon buf.len mask.d2 cols m
    let m := fwhtRowsInplaceSlice cpu rayon buf.len mask.n cols m
    let m := applyDiagScaledInplaceSlice rayon buf.len mask.d3 cols mask.invNorm m
    .ok ⟨buf.len,m,buf.fits⟩
  else .error s!"Hd3Mask::apply_in_place_slice: buf has {buf.len} f32s, expected n={mask.n} * cols={cols}"

def unapplyInPlaceSlice (buf : Slice F) (cols : Nat) : Except String (Slice F) :=
  if buf.len = saturatingMul mask.n cols then
    let m := applyDiagScaledInplaceSlice rayon buf.len mask.d3 cols mask.invNorm buf.cells
    let m := fwhtRowsInplaceSlice cpu rayon buf.len mask.n cols m
    let m := applyDiagInplaceSlice rayon buf.len mask.d2 cols m
    let m := fwhtRowsInplaceSlice cpu rayon buf.len mask.n cols m
    let m := applyDiagInplaceSlice rayon buf.len mask.d1 cols m
    let m := fwhtRowsInplaceSlice cpu rayon buf.len mask.n cols m
    .ok ⟨buf.len,m,buf.fits⟩
  else .error s!"Hd3Mask::unapply_in_place_slice: buf has {buf.len} f32s, expected n={mask.n} * cols={cols}"

end Masks
end Hd3
end Gelo
