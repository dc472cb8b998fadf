import GeloLightrag.Gelo.Recovery

set_option linter.unusedSectionVars false

namespace Gelo
open Foundation Array2

section Places
variable {perm : List Nat} (order : perm.Perm (List.range n))
include order

theorem place_lt (inside : j < n) : perm.getD j 0 < n := by
  have short : j < perm.length := by rw [order.length_eq,List.length_range]; exact inside
  rw [List.getD_eq_getElem?_getD,List.getElem?_eq_getElem short,Option.getD_some]
  exact List.mem_range.mp (order.mem_iff.mp (List.getElem_mem short))

theorem places_apart : Set.InjOn (fun j => perm.getD j 0) (Finset.range n) := by
  intro i first j second same
  have size : perm.length = n := by rw [order.length_eq,List.length_range]
  have first' : i < perm.length := size.symm ▸ Finset.mem_range.mp first
  have second' : j < perm.length := size.symm ▸ Finset.mem_range.mp second
  dsimp only at same
  rw [List.getD_eq_getElem?_getD,List.getElem?_eq_getElem first',List.getD_eq_getElem?_getD,List.getElem?_eq_getElem second'] at same
  exact (order.nodup_iff.mpr List.nodup_range).getElem_inj_iff.mp same

theorem places_all : (Finset.range n).image (fun j => perm.getD j 0) = Finset.range n := by
  ext i
  rw [Finset.mem_image,Finset.mem_range]
  constructor
  · rintro ⟨j,inside,rfl⟩
    exact place_lt order (Finset.mem_range.mp inside)
  · intro inside
    obtain ⟨there,back⟩ := OutAttnMult.inverse_inside order inside
    exact ⟨_,Finset.mem_range.mpr there,back⟩

end Places

section Recovered
variable {F : Type} [Field F] {outPerm : Array3 F}

-- The rows of one head written back: the last row sent to a place stands there.
theorem recoverRows_run (plane : h < outPerm.planes) (perm : List Nat) (short : perm.length ≤ outPerm.rows) (out : Array3 F)
    (wide : out.cols = outPerm.cols) : ∃ next, perm.zipIdx.foldlM (recoverRow outPerm h) out = .ok next ∧ dims next = dims out ∧
      ∀ h' < out.planes, ∀ i < out.rows, ∀ j < out.cols, next.at_ h' i j =
        if h' = h ∧ i ∈ perm then outPerm.at_ h (OutAttnMult.inverse perm i) j else out.at_ h' i j := by
  induction perm using List.reverseRecOn with
  | nil => exact ⟨out,rfl,rfl,fun h' _ i _ j _ => by simp⟩
  | append_singleton before last ih =>
    rw [List.length_append] at short
    obtain ⟨middle,ran,same,entries⟩ := ih (by omega)
    obtain ⟨planes,rest⟩ := Prod.mk.inj same
    obtain ⟨rows,cols⟩ := Prod.mk.inj rest
    let row : Array2 F := of 1 outPerm.cols fun _ j => outPerm.at_ h before.length j
    have width : middle.cols = row.ncols := cols.trans wide
    have fitted : spread 1 middle.cols row = .ok row := by rw [width]; exact spread_fits row
    have stepped : recoverRow outPerm h middle (last,before.length) = .ok (middle.assign h last row) := by
      unfold recoverRow
      rw [if_pos ⟨plane,by have one := List.length_singleton (a:=last); omega⟩]
      exact except_bind_ok.mpr ⟨row,fitted,rfl⟩
    refine ⟨middle.assign h last row,?_,same,fun h' plane' i inside j col => ?_⟩
    · rw [List.zipIdx_append,List.foldlM_append,Nat.zero_add]
      exact except_bind_ok.mpr ⟨middle,ran,except_bind_ok.mpr ⟨_,stepped,rfl⟩⟩
    · have inside' : i < middle.rows := rows.symm ▸ inside
      have col' : j < middle.cols := cols.symm ▸ col
      rw [Array3.assign_at (planes.symm ▸ plane') inside' col',entries h' plane' i inside j col,OutAttnMult.inverse_snoc]
      by_cases here : h' = h ∧ i = last
      · obtain ⟨rfl,rfl⟩ := here
        rw [if_pos ⟨rfl,Nat.le_refl _,Nat.lt_succ_self _⟩,if_pos ⟨rfl,by simp⟩,Function.update_self,Nat.sub_self]
        exact of_entry Nat.one_pos (wide ▸ col)
      · rw [if_neg fun one => here ⟨one.1,Nat.le_antisymm (Nat.lt_succ_iff.mp one.2.2) one.2.1⟩]
        by_cases other : h' = h
        · have elsewhere : i ≠ last := fun same => here ⟨other,same⟩
          simp [other,elsewhere,Function.update_of_ne]
        · simp [other]

theorem recoverHeads_run {perm : List Nat} (short : perm.length ≤ outPerm.rows) (heads : List Nat)
    (planes : ∀ h ∈ heads, h < outPerm.planes) (out : Array3 F) (wide : out.cols = outPerm.cols) :
    ∃ next, heads.foldlM (fun out h => perm.zipIdx.foldlM (recoverRow outPerm h) out) out = .ok next ∧ dims next = dims out ∧
      ∀ h < out.planes, ∀ i < out.rows, ∀ j < out.cols, next.at_ h i j =
        if h ∈ heads ∧ i ∈ perm then outPerm.at_ h (OutAttnMult.inverse perm i) j else out.at_ h i j := by
  induction heads generalizing out with
  | nil => exact ⟨out,rfl,rfl,fun h _ i _ j _ => by simp⟩
  | cons first rest ih =>
    obtain ⟨middle,ran,same,entries⟩ := recoverRows_run (planes first List.mem_cons_self) perm short out wide
    obtain ⟨planes',shape⟩ := Prod.mk.inj same
    obtain ⟨rows,cols⟩ := Prod.mk.inj shape
    obtain ⟨next,ran',same',entries'⟩ := ih (fun h member => planes h (List.mem_cons_of_mem _ member)) middle (cols.trans wide)
    refine ⟨next,?_,same'.trans same,fun h plane i row j col => ?_⟩
    · rw [List.foldlM_cons,ran]
      exact ran'
    · rw [entries' h (planes'.symm ▸ plane) i (rows.symm ▸ row) j (cols.symm ▸ col),entries h plane i row j col]
      by_cases listed : i ∈ perm
      · by_cases here : h = first
        · subst here
          simp [listed]
        · simp [listed,here]
      · simp [listed]

-- Every row back in its place.
theorem recover_run {perm : List Nat} (order : perm.Perm (List.range n)) (shape : dims outPerm = (heads,n,d)) :
    recover perm heads n d outPerm = .ok (.of heads n d fun h i j => outPerm.at_ h (OutAttnMult.inverse perm i) j) := by
  obtain ⟨planes,rest⟩ := Prod.mk.inj shape
  obtain ⟨rows,cols⟩ := Prod.mk.inj rest
  have size : perm.length = outPerm.rows := by rw [order.length_eq,List.length_range]; exact rows.symm
  obtain ⟨next,ran,same,entries⟩ := recoverHeads_run (Nat.le_of_eq size) (List.range heads)
    (fun h member => by have inside := List.mem_range.mp member; rw [←planes] at inside; exact inside) (Array3.zeros heads n d) cols.symm
  obtain ⟨planes',shape'⟩ := Prod.mk.inj same
  obtain ⟨rows',cols'⟩ := Prod.mk.inj shape'
  unfold recover
  rw [ran]
  refine congrArg Except.ok ((Array3.of_self next).symm.trans ?_)
  rw [planes',rows',cols']
  refine Array3.of_congr fun h plane i row j col => ?_
  rw [entries h plane i row j col,if_pos ⟨List.mem_range.mpr plane,order.mem_iff.mpr (List.mem_range.mpr row)⟩]

end Recovered
section Answers
variable {E F : Type} [Field F] [LinearOrder F] [IsStrictOrderedRing F] [Platform F] [Exponential F] [RuntimeEngine E F]

-- An engine that answers products with the products and a fused request with what the
-- substrate's own chain of dispatches makes of it.
class ExactRuntime (E F : Type) [Field F] [LinearOrder F] [Exponential F] [RuntimeEngine E F] : Prop extends ExactProducts E F where
  runFusedAttention : ∀ (q k v : Array3 F) (scale : F) (mask : Option (Array3 F)) (engine : E),
    (RuntimeEngine.runFusedAttention q k v scale mask engine).1 = ReferenceCpuEngine.fusedAttentionBatched q k v scale mask

instance : ExactRuntime (ReferenceCpuEngine F) F := ⟨fun _ _ _ _ _ _ => rfl⟩

theorem rowMax_fold (x : Nat → F) (items : List Nat) (start : F) :
    IsGreatest ({start} ∪ x '' {j | j ∈ items}) (items.foldl (fun top j => max top (x j)) start) := by
  induction items generalizing start with
  | nil =>
    refine ⟨.inl rfl,?_⟩
    rintro _ (rfl | ⟨j,member,_⟩)
    · exact le_refl _
    · exact absurd member List.not_mem_nil
  | cons item rest ih =>
    obtain ⟨among,above⟩ := ih (max start (x item))
    refine ⟨?_,?_⟩
    · rcases among with same | ⟨j,member,is⟩
      · rcases max_choice start (x item) with first | second
        · exact .inl (same.trans first)
        · exact .inr ⟨item,List.mem_cons_self,(same.trans second).symm⟩
      · exact .inr ⟨j,List.mem_cons_of_mem _ member,is⟩
    · have top : max start (x item) ≤ rest.foldl (fun top j => max top (x j)) (max start (x item)) := above (.inl rfl)
      rintro _ (rfl | ⟨j,member,rfl⟩)
      · exact (le_max_left _ _).trans top
      · rcases List.mem_cons.mp member with rfl | later
        · exact (le_max_right _ _).trans top
        · exact above (.inr ⟨j,later,rfl⟩)

theorem rowMax_peak {a : Array2 F} (some : 0 < a.ncols) (i : Nat) :
    rowMax a i = peak (Finset.range a.ncols) (a.entry i) := by
  refine (peak_of ?_).symm
  have fold := rowMax_fold (a.entry i) (List.range a.ncols) (a.entry i 0)
  have same : ({a.entry i 0} ∪ a.entry i '' {j | j ∈ List.range a.ncols} : Set F) =
      a.entry i '' (Finset.range a.ncols : Finset Nat) := by
    have first : a.entry i 0 ∈ a.entry i '' {j | j ∈ List.range a.ncols} := Set.mem_image_of_mem _ (List.mem_range.mpr some)
    rw [Set.union_eq_right.mpr (Set.singleton_subset_iff.mpr first)]
    rfl
  rwa [same] at fold

-- softmax(scale * Q * Kt + M) * V, head by head.
def attention (q k v : Array3 F) (scale : F) (m : Nat → Nat → F) : Array3 F :=
  .of q.planes q.rows q.cols fun h i d => attended Exponential.exp (Finset.range k.rows)
    (fun j => scale * ∑ c ∈ Finset.range q.cols, q.at_ h i c * k.at_ h j c + m i j) fun j => v.at_ h j d

-- -C exactly at the keys behind the query.
def maskAt (mask : AttentionMask) (neg : F) (qPosOffset i j : Nat) : F :=
  match mask with
  | .none => 0
  | .causal => if qPosOffset + i < j then -neg else 0

variable {q k v : Array3 F}

theorem plane_entry {a : Array3 F} (row : i < a.rows) (col : j < a.cols) : (a.plane h).entry i j = a.at_ h i j := of_entry row col

theorem product_at {a b : Array3 F} (plane : h < a.planes) (row : i < a.rows) (col : j < b.cols) (inner : b.rows = a.cols) :
    (product a b).at_ h i j = ∑ c ∈ Finset.range a.cols, a.at_ h i c * b.at_ h c j := by
  have entry : (product a b).at_ h i j = ((a.plane h).dot (b.plane h)).entry i j := Array3.of_at plane row col
  rw [entry,dot_entry (show j < (b.plane h).ncols from col)]
  refine Finset.sum_congr rfl fun c member => ?_
  have inside : c < a.cols := Finset.mem_range.mp member
  rw [plane_entry row inside,plane_entry (inner.symm ▸ inside) col]

theorem scoresOf_at (keys : k.planes = q.planes) (width : k.cols = q.cols) (plane : h < q.planes) (row : i < q.rows) (col : j < k.rows) :
    (scoresOf q k).at_ h i j = ∑ c ∈ Finset.range q.cols, q.at_ h i c * k.at_ h j c := by
  refine (product_at plane row (show j < k.transposed.cols from col) width).trans (Finset.sum_congr rfl fun c member => ?_)
  have inside : c < q.cols := Finset.mem_range.mp member
  have across : k.transposed.at_ h c j = k.at_ h j c :=
    Array3.of_at (f:=fun b p d => k.at_ b d p) (keys.symm ▸ plane) (width.symm ▸ inside) col
  rw [across]

theorem probs_at (keys : dims k = (q.planes,k.rows,q.cols)) (values : dims v = (q.planes,k.rows,q.cols)) (scale : F)
    (mask : AttentionMask) (neg : F) (blocked : Nat → Nat → Bool) (plane : h < q.planes) (row : i < q.rows) (col : d < q.cols) :
    (product (probsOf q k scale mask neg blocked) v).at_ h i d = attended Exponential.exp (Finset.range k.rows)
      (fun j => scale * ∑ c ∈ Finset.range q.cols, q.at_ h i c * k.at_ h j c + penalty mask neg blocked i j) fun j => v.at_ h j d := by
  obtain ⟨planes,rest⟩ := Prod.mk.inj keys
  obtain ⟨_,width⟩ := Prod.mk.inj rest
  obtain ⟨planes',rest'⟩ := Prod.mk.inj values
  obtain ⟨rows',cols'⟩ := Prod.mk.inj rest'
  let masked := penalised mask neg blocked (scaled scale (scoresOf q k))
  have score {j : Nat} (inside : j < k.rows) : masked.at_ h i j =
      scale * ∑ c ∈ Finset.range q.cols, q.at_ h i c * k.at_ h j c + penalty mask neg blocked i j := by
    have place : masked.at_ h i j = (scaled scale (scoresOf q k)).at_ h i j + penalty mask neg blocked i j :=
      Array3.of_at (f:=fun h i j => (scaled scale (scoresOf q k)).at_ h i j + penalty mask neg blocked i j) plane row inside
    have raw : (scaled scale (scoresOf q k)).at_ h i j = (scoresOf q k).at_ h i j * scale :=
      Array3.of_at (f:=fun h i j => (scoresOf q k).at_ h i j * scale) plane row inside
    rw [place,raw,scoresOf_at planes width plane row inside,mul_comm]
  have shares : (product (probsOf q k scale mask neg blocked) v).at_ h i d = ∑ j ∈ Finset.range k.rows,
      share Exponential.exp (Finset.range k.rows) (fun l => masked.at_ h i l - rowMax (masked.plane h) i) j * v.at_ h j d := by
    refine (product_at (a:=probsOf q k scale mask neg blocked) plane row (cols'.symm ▸ col) rows').trans ?_
    refine Finset.sum_congr rfl fun j member => congrArg (· * _) ?_
    exact softmaxBatched_at (a:=masked) plane row (Finset.mem_range.mp member)
  rw [shares]
  rcases Nat.eq_zero_or_pos k.rows with none | some
  · rw [none]
    rfl
  · have top : rowMax (masked.plane h) i = peak (Finset.range k.rows) fun l => masked.at_ h i l := by
      refine (rowMax_peak (a:=masked.plane h) some i).trans (peak_congr fun l member => ?_)
      exact plane_entry (a:=masked) row (Finset.mem_range.mp member)
    rw [top]
    exact attended_congr (fun j member => score (Finset.mem_range.mp member)) fun _ _ => rfl

theorem attendWithSoftmaxHere_run [ExactProducts E F] (keys : dims k = (q.planes,k.rows,q.cols)) (values : dims v = (q.planes,k.rows,q.cols))
    (scale : F) (mask : AttentionMask) (neg : F) (blocked : Nat → Nat → Bool) (s : Offload E) :
    ∃ t, attendWithSoftmaxHere q k v scale mask neg blocked s = .ok (product (probsOf q k scale mask neg blocked) v) t := by
  obtain ⟨planes,rest⟩ := Prod.mk.inj keys
  obtain ⟨_,width⟩ := Prod.mk.inj rest
  obtain ⟨planes',rest'⟩ := Prod.mk.inj values
  obtain ⟨rows',_⟩ := Prod.mk.inj rest'
  let t : Offload E := {s with engine:=(RuntimeEngine.runRuntimeMatmul q k.transposed s.engine).2}
  have first : (RuntimeEngine.runRuntimeMatmul q k.transposed s.engine).1 = .ok (scoresOf q k) :=
    @ExactProducts.runRuntimeMatmul E F _ _ _ q k.transposed planes width s.engine
  have masked : addMask mask neg blocked q.planes q.rows k.rows (scaled scale (scoresOf q k)) =
      .ok (penalised mask neg blocked (scaled scale (scoresOf q k))) := addMask_fits mask neg blocked _
  have probs : softmaxHeads q.planes q.rows k.rows (penalised mask neg blocked (scaled scale (scoresOf q k))) =
      .ok (probsOf q k scale mask neg blocked) := softmaxHeads_fits _
  have second : (RuntimeEngine.runRuntimeMatmul (probsOf q k scale mask neg blocked) v t.engine).1 = .ok (product (probsOf q k scale mask neg blocked) v) :=
    @ExactProducts.runRuntimeMatmul E F _ _ _ (probsOf q k scale mask neg blocked) v planes' rows' t.engine
  have masking : orStop (addMask mask neg blocked q.planes q.rows k.rows (scaled scale (scoresOf q k))) t =
      .ok (penalised mask neg blocked (scaled scale (scoresOf q k))) t := by
    rw [masked]
    rfl
  have weighing : orStop (softmaxHeads q.planes q.rows k.rows (penalised mask neg blocked (scaled scale (scoresOf q k)))) t =
      .ok (probsOf q k scale mask neg blocked) t := by
    rw [probs]
    rfl
  exact ⟨_,(bind_ok (ask_ok first)).trans ((bind_ok masking).trans ((bind_ok weighing).trans (ask_ok second)))⟩

-- The fused request without a mask answers as a chain whose mask blocks nothing.
theorem fused_run [ExactRuntime E F] (keys : dims k = (q.planes,k.rows,q.cols)) (values : dims v = (q.planes,k.rows,q.cols)) (scale : F)
    (neg : F) (blocked : Nat → Nat → Bool) (s : Offload E) :
    ∃ t, ask (RuntimeEngine.runFusedAttention q k v scale none) s = .ok (product (probsOf q k scale .none neg blocked) v) t := by
  obtain ⟨planes,rest⟩ := Prod.mk.inj keys
  obtain ⟨_,width⟩ := Prod.mk.inj rest
  obtain ⟨planes',rest'⟩ := Prod.mk.inj values
  obtain ⟨rows',_⟩ := Prod.mk.inj rest'
  have answered : (RuntimeEngine.runFusedAttention q k v scale none s.engine).1 = .ok (product (probsOf q k scale .none neg blocked) v) := by
    rw [ExactRuntime.runFusedAttention]
    unfold ReferenceCpuEngine.fusedAttentionBatched
    rw [if_pos ⟨keys,values,fun _ given => by cases given⟩]
    refine except_bind_ok.mpr ⟨_,matmulDynamicBatched_fits planes width,?_⟩
    have unmasked : (.of (scoresOf q k).planes (scoresOf q k).rows (scoresOf q k).cols fun b i j =>
        (scoresOf q k).at_ b i j * scale + (none : Option (Array3 F)).elim 0 fun m => m.at_ b i j) =
          penalised .none neg blocked (scaled scale (scoresOf q k)) := by
      refine Array3.of_congr fun h plane i row j col => ?_
      have raw : (scaled scale (scoresOf q k)).at_ h i j = (scoresOf q k).at_ h i j * scale :=
        Array3.of_at (f:=fun h i j => (scoresOf q k).at_ h i j * scale) plane row col
      rw [raw]
      rfl
    exact (congrArg (fun a => ReferenceCpuEngine.matmulDynamicBatched (ReferenceCpuEngine.softmaxBatched a) v) unmasked).trans
      (matmulDynamicBatched_fits (a:=probsOf q k scale .none neg blocked) planes' rows')
  exact ⟨_,ask_ok answered⟩

-- Rows written back from a chain over reordered rows are those of the chain as it stands.
theorem reordered_exact (keys : dims k = (q.planes,k.rows,q.cols)) (values : dims v = (q.planes,k.rows,q.cols))
    {permQ permKv : List Nat} (orderQ : permQ.Perm (List.range q.rows)) (orderKv : permKv.Perm (List.range k.rows)) (scale : F)
    (mask : AttentionMask) (neg : F) (blocked : Nat → Nat → Bool) {m : Nat → Nat → F}
    (meant : ∀ i < q.rows, ∀ j < k.rows, penalty mask neg blocked i j = m (permQ.getD i 0) (permKv.getD j 0)) :
    recover permQ q.planes q.rows q.cols
      (product (probsOf (permuteRows permQ q) (permuteRows permKv k) scale mask neg blocked) (permuteRows permKv v)) =
        .ok (attention q k v scale m) := by
  obtain ⟨planes,rest⟩ := Prod.mk.inj keys
  obtain ⟨_,width⟩ := Prod.mk.inj rest
  obtain ⟨planes',rest'⟩ := Prod.mk.inj values
  obtain ⟨rows',cols'⟩ := Prod.mk.inj rest'
  rw [recover_run orderQ (by show (q.planes,q.rows,v.cols) = _; rw [cols'])]
  refine congrArg Except.ok (Array3.of_congr fun h plane i row d col => ?_)
  obtain ⟨there,back⟩ := OutAttnMult.inverse_inside orderQ row
  have keys_ : dims (permuteRows permKv k) = ((permuteRows permQ q).planes,(permuteRows permKv k).rows,(permuteRows permQ q).cols) := keys
  have values_ : dims (permuteRows permKv v) = ((permuteRows permQ q).planes,(permuteRows permKv k).rows,(permuteRows permQ q).cols) := values
  rw [probs_at keys_ values_ scale mask neg blocked plane there col]
  have query {c : Nat} (inside : c < q.cols) : (permuteRows permQ q).at_ h (OutAttnMult.inverse permQ i) c = q.at_ h i c :=
    (Array3.of_at (f:=fun h i j => q.at_ h (permQ.getD i 0) j) plane there inside).trans (by rw [back])
  have key {j c : Nat} (row : j < k.rows) (inside : c < q.cols) : (permuteRows permKv k).at_ h j c = k.at_ h (permKv.getD j 0) c :=
    Array3.of_at (f:=fun h i j => k.at_ h (permKv.getD i 0) j) (planes.symm ▸ plane) row (width.symm ▸ inside)
  have value {j : Nat} (row : j < k.rows) : (permuteRows permKv v).at_ h j d = v.at_ h (permKv.getD j 0) d :=
    Array3.of_at (f:=fun h i j => v.at_ h (permKv.getD i 0) j) (planes'.symm ▸ plane) (rows'.symm ▸ row) (cols'.symm ▸ col)
  let score (j : Nat) : F := scale * ∑ c ∈ Finset.range q.cols, q.at_ h i c * k.at_ h j c + m i j
  calc attended Exponential.exp (Finset.range k.rows)
          (fun j => scale * ∑ c ∈ Finset.range q.cols, (permuteRows permQ q).at_ h (OutAttnMult.inverse permQ i) c * (permuteRows permKv k).at_ h j c +
            penalty mask neg blocked (OutAttnMult.inverse permQ i) j) (fun j => (permuteRows permKv v).at_ h j d)
      = attended Exponential.exp (Finset.range k.rows) (score ∘ fun j => permKv.getD j 0) ((fun j => v.at_ h j d) ∘ fun j => permKv.getD j 0) := by
        refine attended_congr (fun j member => ?_) fun j member => value (Finset.mem_range.mp member)
        have inside : j < k.rows := Finset.mem_range.mp member
        rw [meant _ there j inside,back]
        show _ = scale * _ + _
        congr 2
        exact Finset.sum_congr rfl fun c col' => by rw [query (Finset.mem_range.mp col'),key inside (Finset.mem_range.mp col')]
    _ = attended Exponential.exp (Finset.range k.rows) score (fun j => v.at_ h j d) := by
        rw [←attended_image (places_apart orderKv),places_all orderKv]

variable [ExactRuntime E F] {cfg : PermAttnConfig F} (quiet : cfg.noiseSigma = 0)
include quiet

theorem permutedAttentionCachedUnder_exact (shapes : CachedShapes q k v) {permQ permKv : List Nat}
    (orderQ : permQ.Perm (List.range q.rows)) (orderKv : permKv.Perm (List.range k.rows)) (scale : F) (qPosOffset : Nat)
    (mask : AttentionMask) (s : Offload E) : ∃ t, permutedAttentionCachedUnder permQ permKv q k v scale qPosOffset mask cfg s =
      .ok (attention q k v scale (maskAt mask cfg.causalMaskNeg qPosOffset)) t := by
  obtain ⟨keys,values,_⟩ := shapes
  have keys_ : dims (permuteRows permKv k) = ((permuteRows permQ q).planes,(permuteRows permKv k).rows,(permuteRows permQ q).cols) := keys
  have values_ : dims (permuteRows permKv v) = ((permuteRows permQ q).planes,(permuteRows permKv k).rows,(permuteRows permQ q).cols) := values
  let blocked := fun i j => decide (qPosOffset + permQ.getD i 0 < permKv.getD j 0)
  unfold permutedAttentionCachedUnder
  rw [bind_ok (noised_quiet quiet _ _ s)]
  dsimp only
  by_cases fused : cfg.decodeSoftmaxOnGpu && maskIsNoop mask q.rows k.rows qPosOffset
  · obtain ⟨t,answered⟩ := fused_run keys_ values_ scale cfg.causalMaskNeg blocked s
    -- Elided is a mask of zeros: the one query stands behind every key.
    have flat : ∀ i < q.rows, ∀ j < k.rows, penalty .none cfg.causalMaskNeg blocked i j =
        maskAt mask cfg.causalMaskNeg qPosOffset (permQ.getD i 0) (permKv.getD j 0) := by
      intro i row j col
      cases mask with
      | none => rfl
      | causal =>
        have noop := (Bool.and_eq_true_iff.mp fused).2
        obtain ⟨_,last⟩ := of_decide_eq_true noop
        have inside := place_lt orderKv col
        exact (if_neg (by omega)).symm
    have back := reordered_exact keys values orderQ orderKv scale .none cfg.causalMaskNeg _ flat
    refine ⟨t,?_⟩
    rw [if_pos fused,bind_ok answered,back]
    rfl
  · obtain ⟨t,answered⟩ := attendWithSoftmaxHere_run keys_ values_ scale mask cfg.causalMaskNeg blocked s
    have back := reordered_exact keys values orderQ orderKv scale mask cfg.causalMaskNeg blocked
      (m:=maskAt mask cfg.causalMaskNeg qPosOffset) fun i _ j _ => by cases mask with
        | none => rfl
        | causal => simp [penalty,maskAt,fined,blocked]
    refine ⟨t,?_⟩
    rw [if_neg fused,bind_ok answered,back]
    rfl

theorem permutedAttentionUnder_exact (keys : dims k = dims q) (values : dims v = dims q) {perm : List Nat}
    (order : perm.Perm (List.range q.rows)) (scale : F) (mask : AttentionMask) (s : Offload E) :
    ∃ t, permutedAttentionUnder perm q k v scale mask cfg s = .ok (attention q k v scale (maskAt mask cfg.causalMaskNeg 0)) t := by
  have rows : k.rows = q.rows := (Prod.mk.inj (Prod.mk.inj keys).2).1
  have keys' : dims k = (q.planes,k.rows,q.cols) := by rw [rows]; exact keys
  have values' : dims v = (q.planes,k.rows,q.cols) := by rw [rows]; exact values
  let blocked := fun i j => decide (perm.getD i 0 < perm.getD j 0)
  obtain ⟨t,answered⟩ := attendWithSoftmaxHere_run (q:=permuteRows perm q) (k:=permuteRows perm k) (v:=permuteRows perm v)
    keys' values' scale mask cfg.causalMaskNeg blocked s
  have back := reordered_exact keys' values' order (rows.symm ▸ order) scale mask cfg.causalMaskNeg blocked
    (m:=maskAt mask cfg.causalMaskNeg 0) fun i _ j _ => by cases mask with
      | none => rfl
      | causal => simp [penalty,maskAt,fined,blocked]
  refine ⟨t,?_⟩
  unfold permutedAttentionUnder
  rw [bind_ok (noised_quiet quiet _ _ s)]
  dsimp only
  rw [bind_ok answered,back]
  rfl

variable [Sampling F]

-- Whatever orders are drawn, on either path the attention is the plain one.
theorem permuted_attention_exact (shuffles : ∀ n words, (Sampling.shuffle F n words).1.Perm (List.range n)) (shapes : CachedShapes q k v)
    {qPosOffset : Nat} (room : qPosOffset + q.rows ≤ k.rows) (small : k.rows < 2 ^ 64) (scale : F) (mask : AttentionMask) :
    (∀ permQ permKv, permQ.Perm (List.range q.rows) → permKv.Perm (List.range k.rows) → ∀ s : Offload E, ∃ t,
      permutedAttentionCachedUnder permQ permKv q k v scale qPosOffset mask cfg s =
        .ok (attention q k v scale (maskAt mask cfg.causalMaskNeg qPosOffset)) t) ∧
    (∀ s : Offload E, ∃ t, permutedAttentionCached q k v scale qPosOffset mask cfg s =
      .ok (attention q k v scale (maskAt mask cfg.causalMaskNeg qPosOffset)) t) ∧
    (∀ (onGpu onGpu' : Bool) (s s' : Offload E), ∃ out t t',
      permutedAttentionCached q k v scale qPosOffset mask {cfg with decodeSoftmaxOnGpu:=onGpu} s = .ok out t ∧
        permutedAttentionCached q k v scale qPosOffset mask {cfg with decodeSoftmaxOnGpu:=onGpu'} s' = .ok out t') ∧
    (k.rows = q.rows → ∀ s s' : Offload E, ∃ out t t', permutedAttention q k v scale mask cfg s = .ok out t ∧
      permutedAttentionCached q k v scale 0 mask cfg s' = .ok out t') := by
  have cached (cfg : PermAttnConfig F) (quiet : cfg.noiseSigma = 0) {qPosOffset : Nat} (room : qPosOffset + q.rows ≤ k.rows) (s : Offload E) :
      ∃ t, permutedAttentionCached q k v scale qPosOffset mask cfg s =
        .ok (attention q k v scale (maskAt mask cfg.causalMaskNeg qPosOffset)) t := by
    let u : Offload E := {s with rng:=s.rng.advance (Sampling.shuffle F q.rows (s.rng.words F)).2}
    obtain ⟨t,ran⟩ := permutedAttentionCachedUnder_exact quiet shapes (shuffles q.rows (s.rng.words F)) (shuffles k.rows (u.rng.words F))
      scale qPosOffset mask {u with rng:=u.rng.advance (Sampling.shuffle F k.rows (u.rng.words F)).2}
    refine ⟨t,?_⟩
    unfold permutedAttentionCached
    rw [if_neg (not_not.mpr shapes.1),if_neg (not_not.mpr shapes.2.1),if_neg (Nat.not_lt.mpr shapes.2.2),if_neg (by omega),if_neg (by omega)]
    exact ran
  refine ⟨fun permQ permKv orderQ orderKv s => permutedAttentionCachedUnder_exact quiet shapes orderQ orderKv scale qPosOffset mask s,
    cached cfg quiet room,fun onGpu onGpu' s s' => ?_,fun square s s' => ?_⟩
  · obtain ⟨t,ran⟩ := cached {cfg with decodeSoftmaxOnGpu:=onGpu} quiet room s
    obtain ⟨t',ran'⟩ := cached {cfg with decodeSoftmaxOnGpu:=onGpu'} quiet room s'
    exact ⟨_,t,t',ran,ran'⟩
  · have keys : dims k = dims q := shapes.1.trans (by rw [square]; rfl)
    have values : dims v = dims q := shapes.2.1.trans (by rw [square]; rfl)
    obtain ⟨t,ran⟩ := permutedAttentionUnder_exact quiet keys values (shuffles q.rows (s.rng.words F)) scale mask
      {s with rng:=s.rng.advance (Sampling.shuffle F q.rows (s.rng.words F)).2}
    obtain ⟨t',ran'⟩ := cached cfg quiet (show 0 + q.rows ≤ k.rows by omega) s'
    refine ⟨_,t,t',?_,ran'⟩
    unfold permutedAttention
    rw [if_neg (not_not.mpr keys),if_neg (not_not.mpr values)]
    exact ran

end Answers

section Tripled
local instance tripledPlatform : Platform ℚ :=
  ⟨fun _ _ _ => 0,fun _ _ count => List.replicate count 0,id,id,fun _ _ => (fun _ => 0,0),fun _ _ => (fun _ => 0,16),
    fun _ _ => (fun _ => 1,1),fun _ _ _ => 0⟩
local instance turned : Sampling ℚ := ⟨fun n _ => ((List.range n).reverse,0),fun _ => (1,1)⟩
local instance tripled : Exponential ℚ := ⟨fun x => if x < 0 then 1 else 3⟩

-- One query behind two of three keys, all of them turned round.
theorem permuted_attention_exact_three_keys :
    (∀ permQ permKv, permQ.Perm (List.range 1) → permKv.Perm (List.range 3) → ∀ s : Offload (ReferenceCpuEngine ℚ), ∃ t,
      permutedAttentionCachedUnder permQ permKv ⟨1,1,1,[1],rfl⟩ ⟨1,3,1,[1,2,3],rfl⟩ ⟨1,3,1,[5,6,7],rfl⟩ 1 1 .causal ⟨0,30,true⟩ s =
        .ok (attention ⟨1,1,1,[1],rfl⟩ ⟨1,3,1,[1,2,3],rfl⟩ ⟨1,3,1,[5,6,7],rfl⟩ 1 (maskAt .causal (30 : ℚ) 1)) t) ∧
      (attention (⟨1,1,1,[1],rfl⟩ : Array3 ℚ) ⟨1,3,1,[1,2,3],rfl⟩ ⟨1,3,1,[5,6,7],rfl⟩ 1 (maskAt .causal 30 1)).at_ 0 0 0 = 6 := by
  refine ⟨(permuted_attention_exact (E:=ReferenceCpuEngine ℚ) (q:=⟨1,1,1,[1],rfl⟩) (k:=⟨1,3,1,[1,2,3],rfl⟩)
    (v:=⟨1,3,1,[5,6,7],rfl⟩) (show (⟨0,30,true⟩ : PermAttnConfig ℚ).noiseSigma = 0 from rfl) (fun n words => List.reverse_perm _) ⟨rfl,rfl,by decide⟩ (by decide) (by decide) 1 .causal).1,?_⟩
  decide +kernel

end Tripled
end Gelo
