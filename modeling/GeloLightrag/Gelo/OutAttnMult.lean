import GeloLightrag.Gelo.Attention

set_option linter.unusedSectionVars false

namespace Gelo
open Foundation Array2
namespace OutAttnMult
variable {E F : Type} [Field F] [LinearOrder F] [IsStrictOrderedRing F] [Platform F] [Sampling F] [RuntimeEngine E F]

-- What one product draws: the stacked and shuffled operands and what undoes them.
structure Stacked (F : Type) [Zero F] where
  q : Array2 F
  kt : Array2 F
  lambdaQ : List Nat
  lambdaK : List Nat
  a : F
  b : F

def sampleNormal (rows cols : Nat) : OffloadM E (Array2 F) := do
  let z ← draw F (Platform.normals (rows * cols))
  return of rows cols fun i j => z (i * cols + j)

-- The sign is the parity of the next word.
def sampleScalar : OffloadM E F := draw F fun words =>
  let (v,used) := Sampling.uniform (F:=F) words
  (if words used % 2 = 0 then v else -v,used + 1)

def randomPerm (F : Type) [Zero F] [Platform F] [Sampling F] (n : Nat) : OffloadM E (List Nat) := draw F (Sampling.shuffle F n)

def plus (a b : Array2 F) : Array2 F := of a.nrows a.ncols fun i j => a.entry i j + b.entry i j

-- [Q + R ; a R] by rows, and [K + R , b R] by columns.
def stackRowsOf (q r : Array2 F) (a : F) : Array2 F :=
  of (2 * q.nrows) q.ncols fun i j => if i < q.nrows then (plus q r).entry i j else r.entry (i - q.nrows) j * a

def stackColsOf (kt r : Array2 F) (b : F) : Array2 F :=
  of kt.nrows (2 * kt.ncols) fun i j => if j < kt.ncols then (plus kt r).entry i j else r.entry i (j - kt.ncols) * b

def rowsBy (lambda : List Nat) (m : Array2 F) : Array2 F := of m.nrows m.ncols fun i j => m.entry (lambda.getD i 0) j
def colsBy (lambda : List Nat) (m : Array2 F) : Array2 F := of m.nrows m.ncols fun i j => m.entry i (lambda.getD j 0)

def setupStack (q kt : Array2 F) : OffloadM E (Stacked F) := do
  let rQ ← sampleNormal q.nrows q.ncols
  let rKt ← sampleNormal q.ncols q.nrows
  let a ← sampleScalar
  let b ← sampleScalar
  let lambdaQ ← randomPerm F (2 * q.nrows)
  let lambdaK ← randomPerm F (2 * q.nrows)
  return ⟨rowsBy lambdaQ (stackRowsOf q rQ a),colsBy lambdaK (stackColsOf kt rKt b),lambdaQ,lambdaK,a,b⟩

-- Where each place came to lie; a place met twice keeps the last.
def inverse (lambda : List Nat) : Nat → Nat :=
  lambda.zipIdx.foldl (fun inv source => Function.update inv source.1 source.2) fun _ => 0

-- The lengths are asserted.
def inversePermute (m : Array2 F) (lambdaRows lambdaCols : List Nat) : Except String (Array2 F) :=
  if lambdaRows.length = m.nrows ∧ lambdaCols.length = m.ncols then
    .ok (of m.nrows m.ncols fun i j => m.entry (inverse lambdaRows i) (inverse lambdaCols j))
  else .error "assertion failed: (left == right)"

-- T1 - T2 / b - T3 / a + T4 / (a b) of the four quarters.
def recoverQkt (n : Nat) (drawn : Stacked F) (tilde : Array2 F) : Except String (Array2 F) := do
  let t ← inversePermute tilde drawn.lambdaQ drawn.lambdaK
  return of n n fun i j =>
    t.entry i j - t.entry i (n + j) / drawn.b - t.entry (n + i) j / drawn.a + t.entry (n + i) (n + j) / (drawn.a * drawn.b)

def verify (nProbes : Nat) (a b z : Array2 F) : OffloadM E Unit := fun s =>
  match verifyOffload nProbes a b z s.rng with
  | (.ok _,rng) => .ok () {s with rng:=rng}
  | (.error text,rng) => .error (.error text) {s with rng:=rng}

def offloadQkt (q kt : Array2 F) (nVerifyProbes : Nat) : OffloadM E (Array2 F) :=
  let n := q.nrows
  let d := q.ncols
  if kt.nrows ≠ d ∨ kt.ncols ≠ n then
    refuse s!"OutAttnMult shape mismatch: q is ({n},{d}) but kt is ({kt.nrows},{kt.ncols})"
  else do
    let drawn ← setupStack q kt
    let tilde ← ask (RuntimeEngine.matmulDynamic drawn.q drawn.kt)
    if 0 < nVerifyProbes then verify nVerifyProbes drawn.q drawn.kt tilde
    orStop (recoverQkt n drawn tilde)

def verifyHeads (nProbes : Nat) (stackedQ stackedKt tilde : Array3 F) : List Nat → OffloadM E Unit
  | [] => return
  | h :: rest => do
    let observed ← orStop (indexAxis tilde h)
    verify nProbes (stackedQ.plane h) (stackedKt.plane h) observed
    verifyHeads nProbes stackedQ stackedKt tilde rest

def recoverHead (n : Nat) (tilde : Array3 F) (head : Stacked F × Nat) : Except String (Array2 F) := do
  recoverQkt n head.1 (← indexAxis tilde head.2)

def offloadQktBatched (q kt : Array3 F) (nVerifyProbes : Nat) : OffloadM E (Array3 F) :=
  let h := q.planes
  let n := q.rows
  let d := q.cols
  if dims kt ≠ (h,d,n) then
    refuse s!"offload_qkt_batched shape mismatch: q is ({h},{n},{d}) but kt is [{kt.planes}, {kt.rows}, {kt.cols}]"
  else do
    let heads ← (List.range h).mapM fun hi => setupStack (q.plane hi) (kt.plane hi)
    let stackedQ := Array3.stack (2 * n) d (heads.map (·.q))
    let stackedKt := Array3.stack d (2 * n) (heads.map (·.kt))
    let tilde ← ask (RuntimeEngine.runRuntimeMatmul stackedQ stackedKt)
    if 0 < nVerifyProbes then verifyHeads nVerifyProbes stackedQ stackedKt tilde (List.range h)
    let recovered ← orStop (heads.zipIdx.mapM (recoverHead n tilde))
    return .stack n n recovered

end OutAttnMult
end Gelo
