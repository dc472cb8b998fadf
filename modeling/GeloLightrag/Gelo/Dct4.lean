import GeloLightrag.Gelo.Hd3

namespace Gelo
open Foundation InPlace

-- A vector by its length and its cells; what lies past the length is not kept
-- apart.
structure Buffer (F : Type) where
  len : Nat
  cells : Nat → F

def Buffer.resize (len : Nat) (value : F) (v : Buffer F) : Buffer F := ⟨len,fun a => if a < v.len then v.cells a else value⟩

namespace Dct4

-- What the planner makes for length n: a map of the row, worked out in a
-- scratch that may hold anything before and after.
structure Planned (F : Type) [CommRing F] (n : Nat) where
  scratchLen : Nat
  processDct4WithScratch : (Fin n → F) → (Nat → F) → (Fin n → F) × (Nat → F)
  map : Module.End F (Fin n → F)
  linear : ∀ row scratch, (processDct4WithScratch row scratch).1 = map row

structure TileScratch (F : Type) where
  tile : Buffer F
  dctScratch : Buffer F

-- Which thread runs a tile above the threshold, and which runs them all below it.
structure Pool where
  rayon : Rayon
  worker : Nat → Nat
  current : Nat

def dct4CascadeTile : Nat := 16
def dct4RayonColThreshold : Nat := 64

section Tiles
variable {F : Type} [Field F] [LinearOrder F] {n : Nat}

def copyTileIn (slice : Nat → F) (n d tileStart tileD : Nat) (tileBuf : Nat → F) : Nat → F :=
  (List.range n).foldl (fun t i => (List.range tileD).foldl (fun t j =>
    Function.update t (j * n + i) (slice (i * d + tileStart + j))) t) tileBuf

def copyTileOut (tileBuf : Nat → F) (tileD n : Nat) (slice : Nat → F) (d tileStart : Nat) : Nat → F :=
  (List.range n).foldl (fun m i => (List.range tileD).foldl (fun m j =>
    Function.update m (i * d + tileStart + j) (tileBuf (j * n + i))) m) slice

def applySignDiagInTile (tileD n : Nat) (diag : List F) (tileBuf : Nat → F) : Nat → F :=
  (List.range tileD).foldl (fun t j => (List.range n).foldl (fun t i =>
    if diag.getD i 1 < 0 then Function.update t (j * n + i) (-t (j * n + i)) else t) t) tileBuf

def applyScaledDiagInTile (tileD n : Nat) (diag : List F) (factor : F) (tileBuf : Nat → F) : Nat → F :=
  (List.range tileD).foldl (fun t j => (List.range n).foldl (fun t i =>
    Function.update t (j * n + i) (t (j * n + i) * (diag.getD i 1 * factor))) t) tileBuf

def rowOf (tileBuf : Nat → F) (j : Nat) : Fin n → F := fun i => tileBuf (j * n + i)

def padded (row : Fin n → F) (i : Nat) : F := if low : i < n then row ⟨i,low⟩ else 0

-- The row j of the tile put through the transform.
def processRow (planned : Planned F n) (s : (Nat → F) × (Nat → F)) (j : Nat) : (Nat → F) × (Nat → F) :=
  let (row,scratch) := planned.processDct4WithScratch (rowOf s.1 j) s.2
  (store (j * n) n (padded row) s.1,scratch)

def processRows (planned : Planned F n) (tileD : Nat) (s : (Nat → F) × (Nat → F)) : (Nat → F) × (Nat → F) :=
  (List.range tileD).foldl (processRow planned) s

def cascadeApplyInTile (planned : Planned F n) (tileD : Nat) (d1 d2 d3 : List F) (invNorm : F) (s : (Nat → F) × (Nat → F)) :
    (Nat → F) × (Nat → F) :=
  let s := processRows planned tileD s
  let s := (applySignDiagInTile tileD n d1 s.1,s.2)
  let s := processRows planned tileD s
  let s := (applySignDiagInTile tileD n d2 s.1,s.2)
  let s := processRows planned tileD s
  (applyScaledDiagInTile tileD n d3 invNorm s.1,s.2)

def cascadeUnapplyInTile (planned : Planned F n) (tileD : Nat) (d1 d2 d3 : List F) (invNorm : F) (s : (Nat → F) × (Nat → F)) :
    (Nat → F) × (Nat → F) :=
  let s := (applyScaledDiagInTile tileD n d3 invNorm s.1,s.2)
  let s := processRows planned tileD s
  let s := (applySignDiagInTile tileD n d2 s.1,s.2)
  let s := processRows planned tileD s
  let s := (applySignDiagInTile tileD n d1 s.1,s.2)
  processRows planned tileD s

-- One tile: its thread's scratch grown where it is short, the columns copied in,
-- the cascade, the columns copied out.
def processTile (planned : Planned F n) (cascade : Nat → (Nat → F) × (Nat → F) → (Nat → F) × (Nat → F)) (d : Nat) (worker : Nat → Nat)
    (s : (Nat → F) × (Nat → TileScratch F)) (tIdx : Nat) : (Nat → F) × (Nat → TileScratch F) :=
  let tileStart := tIdx * dct4CascadeTile
  let tileD := min (tileStart + dct4CascadeTile) d - tileStart
  let state := s.2 (worker tIdx)
  let tile := if state.tile.len < dct4CascadeTile * n then state.tile.resize (dct4CascadeTile * n) 0 else state.tile
  let dctScratch := if state.dctScratch.len < planned.scratchLen then state.dctScratch.resize planned.scratchLen 0 else state.dctScratch
  let done := cascade tileD (copyTileIn s.1 n d tileStart tileD tile.cells,dctScratch.cells)
  (copyTileOut done.1 tileD n s.1 d tileStart,
    Function.update s.2 (worker tIdx) ⟨⟨tile.len,done.1⟩,⟨dctScratch.len,done.2⟩⟩)

def overTiles (pool : Pool) (planned : Planned F n) (cascade : Nat → (Nat → F) × (Nat → F) → (Nat → F) × (Nat → F)) (d : Nat)
    (s : (Nat → F) × (Nat → TileScratch F)) : (Nat → F) × (Nat → TileScratch F) :=
  if n < 2 ∨ d = 0 then s
  else
    let nTiles := (d + dct4CascadeTile - 1) / dct4CascadeTile
    let useRayon := decide (dct4RayonColThreshold ≤ d)
    forEach pool.rayon useRayon (List.range nTiles)
      (processTile planned cascade d (if useRayon then pool.worker else fun _ => pool.current)) s

end Tiles

section Masks
variable {F : Type} [Field F] [LinearOrder F] (pool : Pool) (mask : Dct4Mask F) (planned : Planned F mask.n)

def dct4CascadeApplyInplaceSlice (d : Nat) : (Nat → F) × (Nat → TileScratch F) → (Nat → F) × (Nat → TileScratch F) :=
  overTiles pool planned (fun tileD => cascadeApplyInTile planned tileD mask.d1 mask.d2 mask.d3 mask.invNorm) d

def dct4CascadeUnapplyInplaceSlice (d : Nat) : (Nat → F) × (Nat → TileScratch F) → (Nat → F) × (Nat → TileScratch F) :=
  overTiles pool planned (fun tileD => cascadeUnapplyInTile planned tileD mask.d1 mask.d2 mask.d3 mask.invNorm) d

def applyInPlace (buf : Array2 F) (scratch : Nat → TileScratch F) : Except String (Array2 F × (Nat → TileScratch F)) :=
  if buf.nrows = mask.n then
    let (m,scratch) := dct4CascadeApplyInplaceSlice pool mask planned buf.ncols (cells buf,scratch)
    .ok (ofCells buf.nrows buf.ncols m,scratch)
  else .error s!"Dct4Mask::apply_in_place: buf has {buf.nrows} rows, expected {mask.n}"

def unapplyInPlace (buf : Array2 F) (scratch : Nat → TileScratch F) : Except String (Array2 F × (Nat → TileScratch F)) :=
  if buf.nrows = mask.n then
    let (m,scratch) := dct4CascadeUnapplyInplaceSlice pool mask planned buf.ncols (cells buf,scratch)
    .ok (ofCells buf.nrows buf.ncols m,scratch)
  else .error s!"Dct4Mask::unapply_in_place: buf has {buf.nrows} rows, expected {mask.n}"

def apply (hidden : Array2 F) (scratch : Nat → TileScratch F) : Except String (Array2 F × (Nat → TileScratch F)) :=
  if hidden.nrows = mask.n then
    applyInPlace pool mask planned (if 0 < hidden.ncols then hidden else Array2.zeros mask.n hidden.ncols) scratch
  else .error s!"Dct4Mask::apply: hidden has {hidden.nrows} rows, expected {mask.n}"

def unapply (maskedOutput : Array2 F) (scratch : Nat → TileScratch F) : Except String (Array2 F × (Nat → TileScratch F)) :=
  if maskedOutput.nrows = mask.n then
    unapplyInPlace pool mask planned (if 0 < maskedOutput.ncols then maskedOutput else Array2.zeros mask.n maskedOutput.ncols) scratch
  else .error s!"Dct4Mask::unapply: masked_output has {maskedOutput.nrows} rows, expected {mask.n}"

def applyInPlaceSlice (buf : Slice F) (cols : Nat) (scratch : Nat → TileScratch F) :
    Except String (Slice F × (Nat → TileScratch F)) :=
  if buf.len = saturatingMul mask.n cols then
    let (m,scratch) := dct4CascadeApplyInplaceSlice pool mask planned cols (buf.cells,scratch)
    .ok (⟨buf.len,m,buf.fits⟩,scratch)
  else .error s!"Dct4Mask::apply_in_place_slice: buf has {buf.len} f32s, expected n={mask.n} * cols={cols}"

def unapplyInPlaceSlice (buf : Slice F) (cols : Nat) (scratch : Nat → TileScratch F) :
    Except String (Slice F × (Nat → TileScratch F)) :=
  if buf.len = saturatingMul mask.n cols then
    let (m,scratch) := dct4CascadeUnapplyInplaceSlice pool mask planned cols (buf.cells,scratch)
    .ok (⟨buf.len,m,buf.fits⟩,scratch)
  else .error s!"Dct4Mask::unapply_in_place_slice: buf has {buf.len} f32s, expected n={mask.n} * cols={cols}"

end Masks
end Dct4
end Gelo
