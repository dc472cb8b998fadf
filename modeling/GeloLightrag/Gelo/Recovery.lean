import GeloLightrag.Gelo.Hiding
import Mathlib.Tactic.FieldSimp

set_option linter.unusedSectionVars false

namespace Gelo
open Foundation Array2

section Planes
variable {F : Type}

theorem plane_of [Zero F] {f : Nat → Nat → Nat → F} (plane : h < n) : (Array3.of n m k f).plane h = of m k (f h) := by
  refine eq_of rfl rfl fun i row j col => ?_
  have row' : i < m := row
  have col' : j < k := col
  have left : ((Array3.of n m k f).plane h).entry i j = f h i j := (of_entry row' col').trans (Array3.of_at plane row' col')
  have right : (of m k (f h)).entry i j = f h i j := of_entry row' col'
  rw [left,right]

theorem plane_stack [Zero F] {blocks : List (Array2 F)} {block : Array2 F} (listed : blocks[h]? = some block) (tall : block.nrows = n)
    (wide : block.ncols = d) : (Array3.stack n d blocks).plane h = block := by
  have inside : h < blocks.length := (List.getElem?_eq_some_iff.mp listed).1
  unfold Array3.stack
  rw [plane_of inside,listed]
  exact of_self tall wide

theorem plane_product [Field F] {lhs rhs : Array3 F} (inside : h < lhs.planes) :
    (product lhs rhs).plane h = (lhs.plane h).dot (rhs.plane h) := by
  unfold product
  rw [plane_of inside]
  exact of_self rfl rfl

end Planes

-- An engine that answers every product with the product.
class ExactProducts (E F : Type) [Field F] [RuntimeEngine E F] : Prop where
  matmulDynamic : ∀ {lhs rhs : Array2 F}, lhs.ncols = rhs.nrows → ∀ engine : E,
    (RuntimeEngine.matmulDynamic lhs rhs engine).1 = .ok (lhs.dot rhs)
  runRuntimeMatmul : ∀ {lhs rhs : Array3 F}, rhs.planes = lhs.planes → rhs.rows = lhs.cols → ∀ engine : E,
    (RuntimeEngine.runRuntimeMatmul lhs rhs engine).1 = .ok (product lhs rhs)

instance {F : Type} [Field F] [LinearOrder F] [IsStrictOrderedRing F] [Exponential F] : ExactProducts (ReferenceCpuEngine F) F where
  matmulDynamic fits _ := if_pos fits
  runRuntimeMatmul planes inner _ := matmulDynamicBatched_fits planes inner

namespace OutAttnMult

section Masking
variable {F : Type} [Field F]

-- What hides the operands of one product.
structure Masks (F : Type) [Zero F] where
  rQ : Array2 F
  rKt : Array2 F
  a : F
  b : F
  lambdaQ : List Nat
  lambdaK : List Nat

-- Scalars to divide by and orders of the 2n stacked rows and columns.
structure Masks.Sound (n : Nat) (masks : Masks F) : Prop where
  a : masks.a ≠ 0
  b : masks.b ≠ 0
  rows : masks.lambdaQ.Perm (List.range (2 * n))
  cols : masks.lambdaK.Perm (List.range (2 * n))

def stackedUnder (q kt : Array2 F) (masks : Masks F) : Stacked F :=
  ⟨rowsBy masks.lambdaQ (stackRowsOf q masks.rQ masks.a),colsBy masks.lambdaK (stackColsOf kt masks.rKt masks.b),
    masks.lambdaQ,masks.lambdaK,masks.a,masks.b⟩

theorem inverse_snoc (before : List Nat) (last : Nat) :
    inverse (before ++ [last]) = Function.update (inverse before) last before.length := by
  unfold inverse
  rw [List.zipIdx_append,List.foldl_append,Nat.zero_add]
  rfl

-- The place where an index of the list lies holds it.
theorem inverse_at {lambda : List Nat} (listed : i ∈ lambda) : lambda[inverse lambda i]? = some i := by
  induction lambda using List.reverseRecOn with
  | nil => cases listed
  | append_singleton before last ih =>
    rw [inverse_snoc]
    by_cases same : i = last
    · rw [same,Function.update_self,List.getElem?_concat_length]
    · have earlier := ih ((List.mem_append.mp listed).resolve_right fun member => same (List.mem_singleton.mp member))
      rw [Function.update_of_ne same,List.getElem?_append_left (List.getElem?_eq_some_iff.mp earlier).1]
      exact earlier

theorem inverse_inside {lambda : List Nat} (order : lambda.Perm (List.range n)) (inside : i < n) :
    inverse lambda i < n ∧ lambda.getD (inverse lambda i) 0 = i := by
  have found := inverse_at (order.mem_iff.mpr (List.mem_range.mpr inside))
  have place := (List.getElem?_eq_some_iff.mp found).1
  rw [order.length_eq,List.length_range] at place
  exact ⟨place,by rw [List.getD_eq_getElem?_getD,found,Option.getD_some]⟩

-- Undoing both orders on the product gives the product of the operands as stacked.
theorem inversePermute_dot {lambdaQ lambdaK : List Nat} {x y : Array2 F} (rows : lambdaQ.Perm (List.range x.nrows))
    (cols : lambdaK.Perm (List.range y.ncols)) (conform : y.nrows = x.ncols) :
    inversePermute ((rowsBy lambdaQ x).dot (colsBy lambdaK y)) lambdaQ lambdaK = .ok (x.dot y) := by
  have tall : lambdaQ.length = x.nrows := by rw [rows.length_eq,List.length_range]
  have wide : lambdaK.length = y.ncols := by rw [cols.length_eq,List.length_range]
  unfold inversePermute
  rw [if_pos ⟨tall,wide⟩]
  refine congrArg Except.ok (eq_of rfl rfl fun i row j col => ?_)
  have row' : i < x.nrows := row
  have col' : j < y.ncols := col
  obtain ⟨there,back⟩ := inverse_inside rows row'
  obtain ⟨there',back'⟩ := inverse_inside cols col'
  have left : (of ((rowsBy lambdaQ x).dot (colsBy lambdaK y)).nrows ((rowsBy lambdaQ x).dot (colsBy lambdaK y)).ncols fun i j =>
      ((rowsBy lambdaQ x).dot (colsBy lambdaK y)).entry (inverse lambdaQ i) (inverse lambdaK j)).entry i j =
        ((rowsBy lambdaQ x).dot (colsBy lambdaK y)).entry (inverse lambdaQ i) (inverse lambdaK j) := of_entry row' col'
  rw [left,dot_entry (show inverse lambdaK j < (colsBy lambdaK y).ncols from there'),dot_entry col']
  refine Finset.sum_congr rfl fun k member => ?_
  have inner : k < x.ncols := Finset.mem_range.mp member
  have first : (rowsBy lambdaQ x).entry (inverse lambdaQ i) k = x.entry i k :=
    (of_entry there inner).trans (by rw [back])
  have second : (colsBy lambdaK y).entry k (inverse lambdaK j) = y.entry k j :=
    (of_entry (conform ▸ inner) there').trans (by rw [back'])
  rw [first,second]

-- One entry of each operand and of what hides it: the four products cancel but for theirs.
theorem quarters_cancel {a b : F} (a_ : a ≠ 0) (b_ : b ≠ 0) (x r y t : F) :
    (x + r) * (y + t) - (x + r) * (t * b) / b - r * a * (y + t) / a + r * a * (t * b) / (a * b) = x * y := by
  field_simp
  ring

variable {q kt : Array2 F} {masks : Masks F}

-- The four quarters of the stacked product, entry by entry.
theorem stackRowsOf_upper (row : i < q.nrows) (col : k < q.ncols) :
    (stackRowsOf q masks.rQ masks.a).entry i k = q.entry i k + masks.rQ.entry i k := by
  have inside : i < 2 * q.nrows := by omega
  unfold stackRowsOf
  rw [of_entry inside col,if_pos row]
  exact of_entry row col

theorem stackRowsOf_lower (row : i < q.nrows) (col : k < q.ncols) :
    (stackRowsOf q masks.rQ masks.a).entry (q.nrows + i) k = masks.rQ.entry i k * masks.a := by
  have inside : q.nrows + i < 2 * q.nrows := by omega
  unfold stackRowsOf
  rw [of_entry inside col,if_neg (by omega),Nat.add_sub_cancel_left]

theorem stackColsOf_left (row : k < kt.nrows) (col : j < kt.ncols) :
    (stackColsOf kt masks.rKt masks.b).entry k j = kt.entry k j + masks.rKt.entry k j := by
  have inside : j < 2 * kt.ncols := by omega
  unfold stackColsOf
  rw [of_entry row inside,if_pos col]
  exact of_entry row col

theorem stackColsOf_right (row : k < kt.nrows) (col : j < kt.ncols) :
    (stackColsOf kt masks.rKt masks.b).entry k (kt.ncols + j) = masks.rKt.entry k j * masks.b := by
  have inside : kt.ncols + j < 2 * kt.ncols := by omega
  unfold stackColsOf
  rw [of_entry row inside,if_neg (by omega),Nat.add_sub_cancel_left]

theorem recoverQkt_exact (inner : kt.nrows = q.ncols) (square : kt.ncols = q.nrows) (sound : masks.Sound q.nrows) :
    recoverQkt q.nrows (stackedUnder q kt masks) ((stackedUnder q kt masks).q.dot (stackedUnder q kt masks).kt) = .ok (q.dot kt) := by
  have undone : inversePermute ((stackedUnder q kt masks).q.dot (stackedUnder q kt masks).kt) masks.lambdaQ masks.lambdaK =
      .ok ((stackRowsOf q masks.rQ masks.a).dot (stackColsOf kt masks.rKt masks.b)) :=
    inversePermute_dot sound.rows (by show masks.lambdaK.Perm (List.range (2 * kt.ncols)); rw [square]; exact sound.cols) inner
  refine except_bind_ok.mpr ⟨_,undone,congrArg Except.ok (eq_of rfl square.symm fun i row j col => ?_)⟩
  have row' : i < q.nrows := row
  have col' : j < q.nrows := col
  have col'' : j < kt.ncols := square ▸ col'
  have left : j < (stackColsOf kt masks.rKt masks.b).ncols := by show j < 2 * kt.ncols; omega
  have right : kt.ncols + j < (stackColsOf kt masks.rKt masks.b).ncols := by show _ < 2 * kt.ncols; omega
  rw [of_entry row' col',dot_entry col'',←square,dot_entry left,dot_entry right,square,dot_entry left,←square,dot_entry right]
  show (∑ k ∈ Finset.range q.ncols, _) - (∑ k ∈ Finset.range q.ncols, _) / masks.b - (∑ k ∈ Finset.range q.ncols, _) / masks.a +
    (∑ k ∈ Finset.range q.ncols, _) / (masks.a * masks.b) = _
  rw [Finset.sum_div,Finset.sum_div,Finset.sum_div,←Finset.sum_sub_distrib,←Finset.sum_sub_distrib,←Finset.sum_add_distrib]
  refine Finset.sum_congr rfl fun k member => ?_
  have inside : k < q.ncols := Finset.mem_range.mp member
  have inside' : k < kt.nrows := inner ▸ inside
  rw [stackRowsOf_upper row' inside,square,stackRowsOf_lower row' inside,stackColsOf_left inside' col'',←square,stackColsOf_right inside' col'']
  exact quarters_cancel sound.a sound.b _ _ _ _

end Masking

section Drawing
variable {E F : Type} [Field F] [Platform F] [Sampling F] [RuntimeEngine E F]

def drawn {α : Type} (F : Type) [Zero F] [Platform F] (sample : (Nat → Nat) → α × Nat) (rng : ChaCha20Rng) : α × ChaCha20Rng :=
  ((sample (rng.words F)).1,rng.advance (sample (rng.words F)).2)

def signedUniform (words : Nat → Nat) : F × Nat :=
  let (v,used) := Sampling.uniform (F:=F) words
  (if words used % 2 = 0 then v else -v,used + 1)

-- The masks of one product over n rows of width d, drawn in this order.
def drawnMasks (F : Type) [Field F] [Platform F] [Sampling F] (n d : Nat) (rng : ChaCha20Rng) : Masks F × ChaCha20Rng :=
  let rQ := drawn F (Platform.normals (F:=F) (n * d)) rng
  let rKt := drawn F (Platform.normals (F:=F) (d * n)) rQ.2
  let a := drawn F (signedUniform (F:=F)) rKt.2
  let b := drawn F (signedUniform (F:=F)) a.2
  let lambdaQ := drawn F (Sampling.shuffle F (2 * n)) b.2
  let lambdaK := drawn F (Sampling.shuffle F (2 * n)) lambdaQ.2
  (⟨of n d fun i j => rQ.1 (i * d + j),of d n fun i j => rKt.1 (i * n + j),a.1,b.1,lambdaQ.1,lambdaK.1⟩,lambdaK.2)

theorem setupStack_run (q kt : Array2 F) (s : Offload E) :
    setupStack q kt s = .ok (stackedUnder q kt (drawnMasks F q.nrows q.ncols s.rng).1) {s with rng:=(drawnMasks F q.nrows q.ncols s.rng).2} := rfl

-- Where the generator stands when the masks of head h are drawn.
def headRng (F : Type) [Field F] [Platform F] [Sampling F] (n d : Nat) (rng : ChaCha20Rng) : Nat → ChaCha20Rng
  | 0 => rng
  | h+1 => (drawnMasks F n d (headRng F n d rng h)).2

def headMasks (F : Type) [Field F] [Platform F] [Sampling F] (n d : Nat) (rng : ChaCha20Rng) (h : Nat) : Masks F :=
  (drawnMasks F n d (headRng F n d rng h)).1

def headStack (q kt : Array3 F) (rng : ChaCha20Rng) (h : Nat) : Stacked F :=
  stackedUnder (q.plane h) (kt.plane h) (headMasks F q.rows q.cols rng h)

theorem setupStacks_run (q kt : Array3 F) (s : Offload E) (rng : ChaCha20Rng) (count first : Nat) :
    (List.range' first count).mapM (fun hi => setupStack (q.plane hi) (kt.plane hi)) {s with rng:=headRng F q.rows q.cols rng first} =
      .ok ((List.range' first count).map (headStack q kt rng)) {s with rng:=headRng F q.rows q.cols rng (first + count)} := by
  induction count generalizing first with
  | zero => rfl
  | succ count ih =>
    have later := ih (first + 1)
    rw [Nat.add_right_comm,Nat.add_assoc] at later
    rw [List.range'_succ,List.mapM_cons]
    exact (bind_ok (setupStack_run (q.plane first) (kt.plane first) _)).trans (bind_ok later)

theorem verify_exact [LinearOrder F] (ordered : IsStrictOrderedRing F) (nProbes : Nat) {a b : Array2 F} (conform : b.nrows = a.ncols)
    {s : Offload E} : ∃ rng, verify nProbes a b (a.dot b) s = .ok () {s with rng:=rng} := by
  have passed := verifyOffload_exact nProbes conform s.rng
  unfold verify
  cases checked : verifyOffload nProbes a b (a.dot b) s.rng with
  | mk answer rng =>
    rw [checked] at passed
    cases passed
    exact ⟨rng,rfl⟩

variable [ExactProducts E F]

theorem offloadQkt_recovers [LinearOrder F] {nVerifyProbes : Nat} (ordered : 0 < nVerifyProbes → IsStrictOrderedRing F) {q kt : Array2 F}
    (inner : kt.nrows = q.ncols) (square : kt.ncols = q.nrows) (s : Offload E)
    (sound : (drawnMasks F q.nrows q.ncols s.rng).1.Sound q.nrows) : ∃ t, offloadQkt q kt nVerifyProbes s = .ok (q.dot kt) t := by
  let stacked := stackedUnder q kt (drawnMasks F q.nrows q.ncols s.rng).1
  let t : Offload E := {s with rng:=(drawnMasks F q.nrows q.ncols s.rng).2}
  have conform : stacked.q.ncols = stacked.kt.nrows := inner.symm
  have answered : (RuntimeEngine.matmulDynamic stacked.q stacked.kt t.engine).1 = .ok (stacked.q.dot stacked.kt) :=
    ExactProducts.matmulDynamic conform t.engine
  have recovered : recoverQkt q.nrows stacked (stacked.q.dot stacked.kt) = .ok (q.dot kt) := recoverQkt_exact inner square sound
  have last (u : Offload E) : orStop (recoverQkt q.nrows stacked (stacked.q.dot stacked.kt)) u = .ok (q.dot kt) u := by
    rw [recovered]
    rfl
  unfold offloadQkt
  dsimp only
  rw [if_neg (not_or.mpr ⟨not_not.mpr inner,not_not.mpr square⟩)]
  simp only [bind_ok (setupStack_run q kt s)]
  by_cases probing : 0 < nVerifyProbes
  · obtain ⟨rng,checked⟩ := verify_exact (ordered probing) nVerifyProbes conform.symm
      (s:={t with engine:=(RuntimeEngine.matmulDynamic stacked.q stacked.kt t.engine).2})
    simp only [if_pos probing]
    exact ⟨_,(bind_ok (ask_ok answered)).trans ((bind_ok checked).trans (last _))⟩
  · simp only [if_neg probing]
    exact ⟨_,(bind_ok (ask_ok answered)).trans (last _)⟩

theorem verifyHeads_exact [LinearOrder F] (ordered : IsStrictOrderedRing F) (nProbes : Nat) {a b : Array3 F} (inner : b.rows = a.cols)
    (heads : List Nat) (inside : ∀ h ∈ heads, h < a.planes) (s : Offload E) :
    ∃ rng, verifyHeads nProbes a b (product a b) heads s = .ok () {s with rng:=rng} := by
  induction heads generalizing s with
  | nil => exact ⟨s.rng,rfl⟩
  | cons h rest ih =>
    have plane := inside h List.mem_cons_self
    have listed : (indexAxis (product a b) h) = .ok ((a.plane h).dot (b.plane h)) := by
      unfold indexAxis
      rw [if_pos (show h < (product a b).planes from plane),plane_product plane]
    obtain ⟨rng,checked⟩ := verify_exact ordered nProbes (a:=a.plane h) (b:=b.plane h) inner (s:=s)
    obtain ⟨rng',later⟩ := ih (fun h' member => inside h' (List.mem_cons_of_mem _ member)) {s with rng:=rng}
    refine ⟨rng',?_⟩
    unfold verifyHeads
    rw [listed]
    exact (bind_ok checked).trans later

theorem offloadQktBatched_recovers [LinearOrder F] {nVerifyProbes : Nat} (ordered : 0 < nVerifyProbes → IsStrictOrderedRing F) {q kt : Array3 F}
    (shapes : dims kt = (q.planes,q.cols,q.rows)) (s : Offload E)
    (sound : ∀ h < q.planes, (headMasks F q.rows q.cols s.rng h).Sound q.rows) :
    ∃ t, offloadQktBatched q kt nVerifyProbes s = .ok (product q kt) t := by
  obtain ⟨planes,rest⟩ := Prod.mk.inj shapes
  obtain ⟨inner,square⟩ := Prod.mk.inj rest
  let heads := (List.range q.planes).map (headStack q kt s.rng)
  let stackedQ := Array3.stack (2 * q.rows) q.cols (heads.map (·.q))
  let stackedKt := Array3.stack q.cols (2 * q.rows) (heads.map (·.kt))
  let t : Offload E := {s with rng:=headRng F q.rows q.cols s.rng q.planes}
  have set_ : (List.range q.planes).mapM (fun hi => setupStack (q.plane hi) (kt.plane hi)) s = .ok heads t := by
    have all := setupStacks_run q kt s s.rng q.planes 0
    rw [Nat.zero_add,←List.range_eq_range'] at all
    exact all
  have counted : stackedQ.planes = q.planes := by simp [stackedQ,heads,Array3.stack]
  have counted' : stackedKt.planes = q.planes := by simp [stackedKt,heads,Array3.stack]
  have head {h : Nat} (inside : h < q.planes) : heads[h]? = some (headStack q kt s.rng h) := by
    rw [List.getElem?_map,List.getElem?_range inside]
    rfl
  have rows {h : Nat} (inside : h < q.planes) : stackedQ.plane h = (headStack q kt s.rng h).q :=
    plane_stack (by rw [List.getElem?_map,head inside]; rfl) rfl rfl
  have cols {h : Nat} (inside : h < q.planes) : stackedKt.plane h = (headStack q kt s.rng h).kt :=
    plane_stack (by rw [List.getElem?_map,head inside]; rfl) inner (by show 2 * kt.cols = _; rw [square])
  have answered : (RuntimeEngine.runRuntimeMatmul stackedQ stackedKt t.engine).1 = .ok (product stackedQ stackedKt) :=
    ExactProducts.runRuntimeMatmul (counted'.trans counted.symm) rfl t.engine
  have recovered : heads.zipIdx.mapM (recoverHead q.rows (product stackedQ stackedKt)) =
      .ok (heads.zipIdx.map fun p => (q.plane p.2).dot (kt.plane p.2)) := by
    refine mapM_ok _ fun p member => ?_
    have place : heads[p.2]? = some p.1 := List.mem_zipIdx_iff_getElem?.mp member
    have inside : p.2 < q.planes := by simpa [heads] using (List.getElem?_eq_some_iff.mp place).1
    have is : headStack q kt s.rng p.2 = p.1 := Option.some.inj ((head inside).symm.trans place)
    unfold recoverHead indexAxis
    rw [if_pos (show p.2 < (product stackedQ stackedKt).planes from counted.symm ▸ inside),plane_product (counted.symm ▸ inside),
      rows inside,cols inside,←is]
    exact @recoverQkt_exact F _ (q.plane p.2) (kt.plane p.2) _ inner square (sound p.2 inside)
  have last (u : Offload E) : (do
      let recovered ← orStop (heads.zipIdx.mapM (recoverHead q.rows (product stackedQ stackedKt)))
      return Array3.stack q.rows q.rows recovered : OffloadM E (Array3 F)) u = .ok (product q kt) u := by
    have all : Array3.stack q.rows q.rows (heads.zipIdx.map fun p => (q.plane p.2).dot (kt.plane p.2)) = product q kt := by
      have places : heads.zipIdx.map (fun p => (q.plane p.2).dot (kt.plane p.2)) =
          (List.range q.planes).map fun h => (q.plane h).dot (kt.plane h) := by
        have indices : heads.zipIdx.map Prod.snd = List.range q.planes := by
          rw [List.zipIdx_map_snd,List.range_eq_range',List.length_map,List.length_range]
        rw [←indices,List.map_map]
        rfl
      rw [places,Array3.stack_range]
      unfold product
      rw [square]
    rw [recovered]
    exact congrArg (fun out => EStateM.Result.ok out u) all
  unfold offloadQktBatched
  dsimp only
  rw [if_neg (not_not.mpr shapes)]
  simp only [bind_ok set_]
  by_cases probing : 0 < nVerifyProbes
  · obtain ⟨rng,checked⟩ := verifyHeads_exact (ordered probing) nVerifyProbes (a:=stackedQ) (b:=stackedKt) rfl (List.range q.planes)
      (fun h member => counted.symm ▸ List.mem_range.mp member) {t with engine:=(RuntimeEngine.runRuntimeMatmul stackedQ stackedKt t.engine).2}
    simp only [if_pos probing]
    exact ⟨_,(bind_ok (ask_ok answered)).trans ((bind_ok checked).trans (last _))⟩
  · simp only [if_neg probing]
    exact ⟨_,(bind_ok (ask_ok answered)).trans (last _)⟩

-- Whatever hides the operands their product comes back, of each head as if it
-- were offloaded alone. Only the probes look at the order of the field.
theorem qkt_recovered :
    (∀ (q kt : Array2 F) (masks : Masks F), kt.nrows = q.ncols → kt.ncols = q.nrows → masks.Sound q.nrows →
      recoverQkt q.nrows (stackedUnder q kt masks) ((stackedUnder q kt masks).q.dot (stackedUnder q kt masks).kt) = .ok (q.dot kt)) ∧
    ∀ [LinearOrder F] (nVerifyProbes : Nat), (0 < nVerifyProbes → IsStrictOrderedRing F) → ∀ s : Offload E,
      (∀ q kt : Array2 F, kt.nrows = q.ncols → kt.ncols = q.nrows → (drawnMasks F q.nrows q.ncols s.rng).1.Sound q.nrows →
        ∃ t, offloadQkt q kt nVerifyProbes s = .ok (q.dot kt) t) ∧
      ∀ q kt : Array3 F, dims kt = (q.planes,q.cols,q.rows) → (∀ h < q.planes, (headMasks F q.rows q.cols s.rng h).Sound q.rows) →
        ∃ out t, offloadQktBatched q kt nVerifyProbes s = .ok out t ∧ dims out = (q.planes,q.rows,q.rows) ∧
          ∀ h < q.planes, ∃ u,
            offloadQkt (q.plane h) (kt.plane h) nVerifyProbes {s with rng:=headRng F q.rows q.cols s.rng h} = .ok (out.plane h) u := by
  refine ⟨fun q kt masks inner square sound => recoverQkt_exact inner square sound,fun nVerifyProbes ordered s =>
    ⟨fun q kt inner square sound => offloadQkt_recovers ordered inner square s sound,fun q kt shapes sound => ?_⟩⟩
  obtain ⟨planes,rest⟩ := Prod.mk.inj shapes
  obtain ⟨inner,square⟩ := Prod.mk.inj rest
  obtain ⟨t,ran⟩ := offloadQktBatched_recovers ordered shapes s sound
  refine ⟨_,t,ran,by show (q.planes,q.rows,kt.cols) = _; rw [square],fun h inside => ?_⟩
  rw [plane_product inside]
  exact @offloadQkt_recovers E F _ _ _ _ _ _ nVerifyProbes ordered (q.plane h) (kt.plane h) inner square _ (sound h inside)

end Drawing

section Halved
local instance halvedPlatform : Platform ℚ :=
  ⟨fun _ _ _ => 0,fun _ _ count => List.replicate count 0,id,id,fun _ _ => (fun i => (i + 7 : Nat),0),fun _ _ => (fun _ => 0,16),
    fun _ _ => (fun _ => 1,1),fun _ _ _ => 0⟩
local instance reversed : Sampling ℚ := ⟨fun n _ => ((List.range n).reverse,0),fun _ => (1 / 2,1)⟩
local instance constantly : Exponential ℚ := ⟨fun _ => 1⟩

-- One row of width two in each of two heads, halved and turned round.
theorem qkt_recovered_two_heads :
    ∃ out t, offloadQktBatched (⟨2,1,2,[1,2,3,4],rfl⟩ : Array3 ℚ) ⟨2,2,1,[5,6,7,8],rfl⟩ 1
        (⟨⟨fun _ => none⟩,⟨[],0,0⟩⟩ : Offload (ReferenceCpuEngine ℚ)) = .ok out t ∧ dims out = (2,1,1) ∧
      ∀ h < 2, ∃ u, offloadQkt ((⟨2,1,2,[1,2,3,4],rfl⟩ : Array3 ℚ).plane h) ((⟨2,2,1,[5,6,7,8],rfl⟩ : Array3 ℚ).plane h) 1
        (⟨⟨fun _ => none⟩,headRng ℚ 1 2 ⟨[],0,0⟩ h⟩ : Offload (ReferenceCpuEngine ℚ)) = .ok (out.plane h) u := by
  have sound (rng : ChaCha20Rng) : (drawnMasks ℚ 1 2 rng).1.Sound 1 := by
    have halved (rng : ChaCha20Rng) : (drawn ℚ (signedUniform (F:=ℚ)) rng).1 ≠ 0 := by
      show (if rng.words ℚ 1 % 2 = 0 then (1 / 2 : ℚ) else -(1 / 2)) ≠ 0
      split <;> norm_num
    let after := (drawn ℚ (Platform.normals (F:=ℚ) (2 * 1)) (drawn ℚ (Platform.normals (F:=ℚ) (1 * 2)) rng).2).2
    exact ⟨halved after,halved (drawn ℚ (signedUniform (F:=ℚ)) after).2,List.reverse_perm _,List.reverse_perm _⟩
  exact (qkt_recovered.2 1 (fun _ => inferInstance) _).2 _ _ rfl fun h _ => sound _

end Halved
end OutAttnMult
end Gelo
