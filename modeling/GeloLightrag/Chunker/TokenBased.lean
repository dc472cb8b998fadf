import GeloLightrag.Foundation.Loop
import GeloLightrag.Foundation.Utf8

namespace Chunker
open Foundation

structure ChunkerConfig where
  chunkSize : Nat
  chunkOverlap : Nat
  minChunkSize : Nat
  separators : List Text

def defaultSeparators : List Text :=
  [['\n','\n'],['\n'],['.',' '],['!',' '],['?',' '],[';',' '],[',',' '],[' ']]

def ChunkerConfig.default : ChunkerConfig := ⟨1600,100,600,defaultSeparators⟩

-- The overrides of a request. Each count it names replaces the default; the
-- separators are always the default ones.
structure ChunkerOverride where
  chunkSize : Option Nat
  chunkOverlap : Option Nat
  minChunkSize : Option Nat

def buildChunkerConfig : Option ChunkerOverride → ChunkerConfig
  | none => .default
  | some o =>
    {ChunkerConfig.default with
      chunkSize:=o.chunkSize.getD ChunkerConfig.default.chunkSize
      chunkOverlap:=o.chunkOverlap.getD ChunkerConfig.default.chunkOverlap
      minChunkSize:=o.minChunkSize.getD ChunkerConfig.default.minChunkSize}

-- `while i > 0 && !s.is_char_boundary(i) { i -= 1 }`
def lowered (s : Text) : Nat → Nat
  | 0 => 0
  | i+1 => if s.isCharBoundary (i+1) then i+1 else lowered s i

def floorCharBoundary (s : Text) (index : Nat) : Nat := if s.size ≤ index then s.size else lowered s index

-- `while i < s.len() && !s.is_char_boundary(i) { i += 1 }`, where the first
-- argument counts the offsets left below the length.
def raised (s : Text) : Nat → Nat → Nat
  | 0,i => i
  | left+1,i => if s.isCharBoundary i then i else raised s left (i+1)

def ceilCharBoundary (s : Text) (index : Nat) : Nat := if s.size ≤ index then s.size else raised s (s.size - index) index

-- The end of the last occurrence of the first separator that occurs at all.
def firstSeparator (text : Text) (searchStart searchEnd : Nat) : List Text → Except String (Option Nat)
  | [] => .ok none
  | separator :: rest => do
    let searched ← text.slice searchStart searchEnd
    match Text.rfind separator searched with
    | some pos => return some (searchStart + pos + separator.size)
    | none => firstSeparator text searchStart searchEnd rest

def findSplitPointInternal (text : Text) (target : Nat) (separators : List Text) : Except String Nat := do
  let searchStart := floorCharBoundary text (target - target / 4)
  let searchEnd := floorCharBoundary text (min target text.size)
  if searchEnd ≤ searchStart then return floorCharBoundary text (min target text.size)
  match ← firstSeparator text searchStart searchEnd separators with
  | some split => return split
  | none => return floorCharBoundary text (min target text.size)

-- One turn of the loop, at `current_pos` with the chunks so far. Every sum stays
-- within the text, so only the products below can overflow.
def splitTurn (text : Text) (targetSize overlap minSize : Nat) (separators : List Text) :
    Nat × List Text → Except String (Turn (Nat × List Text) (List Text))
  | (currentPos,chunks) => do
    if text.size ≤ currentPos then return .leave chunks
    let currentPos := ceilCharBoundary text currentPos
    let remaining ← text.sliceFrom currentPos
    if remaining.size ≤ targetSize then return .leave (chunks ++ [remaining])
    let endPos := floorCharBoundary text (currentPos + targetSize)
    let chunkText ← text.slice currentPos (min endPos text.size)
    let splitPoint ← findSplitPointInternal chunkText targetSize separators
    let actualEnd := floorCharBoundary text (currentPos + splitPoint)
    let chunkContent ← text.slice currentPos actualEnd
    let overlapPos := actualEnd - overlap
    let next := ceilCharBoundary text overlapPos
    return .again (if actualEnd ≤ next then actualEnd else next,if minSize ≤ chunkContent.size then chunks ++ [chunkContent] else chunks)

def splitTextInternal (text : Text) (targetSize overlap minSize : Nat) (separators : List Text) (turns : Nat) :
    Option (Except String (List Text)) :=
  if text.size ≤ targetSize then some (.ok [text])
  else loop (splitTurn text targetSize overlap minSize separators) turns (0,[])

def mulUsize (x y : Nat) : Except String Nat :=
  if x * y < 2 ^ 64 then .ok (x * y) else .error "attempt to multiply with overflow"

-- What the chunker has answered within so many turns of its loop.
def chunk (content : Text) (config : ChunkerConfig) (turns : Nat) : Option (Except String (List Text)) :=
  if content.trim.isEmpty then some (.ok [])
  else
    match mulUsize config.chunkSize 4,mulUsize config.chunkOverlap 4,mulUsize config.minChunkSize 4 with
    | .ok targetChars,.ok overlapChars,.ok minChars =>
      splitTextInternal content targetChars overlapChars minChars config.separators turns
    | .error text,_,_ | .ok _,.error text,_ | .ok _,.ok _,.error text => some (.error text)

-- The call returns its chunks after finitely many turns.
def Returns (content : Text) (config : ChunkerConfig) (chunks : List Text) : Prop :=
  ∃ turns, chunk content config turns = some (.ok chunks)

end Chunker
