import GeloLightrag.Aloepri.Cancellation
import GeloLightrag.Foundation.Bfloat16

namespace Aloepri
open Foundation Foundation.Grid Matrix
attribute [local instance] two_atLeastTwo

-- A tensor as the file has it, over the places of its shape. The other encodings are
-- the library's to undo.
inductive ReaderTensor (ι : Type) where
  | f32 (data : ι → Binary32)
  | bf16 (data : ι → Bfloat16)
  | quantized (dequantized : ι → Binary32)

def toFloatArray {ι : Type} : ReaderTensor ι → ι → Binary32
  | .f32 data => data
  | .bf16 data => fun i => ⟨(data i).toBits.toUInt32 <<< 16⟩
  | .quantized dequantized => dequantized

-- On 32 bits, as numpy computes it.
def fp32ToBf16 (x : Binary32) : Bfloat16 := 
  let u32 : UInt32 := x.toBits
  let lsb : UInt32 := (u32 >>> 16) &&& 1
  ⟨((u32 + 0x7fff + lsb) >>> 16).toUInt16⟩

inductive Stored (ι : Type) where
  | f32 (data : ι → Binary32)
  | bf16 (data : ι → Bfloat16)

def writeTensorTyped {ι : Type} (arr : ι → Binary32) (outputDtype : String) (forceFp32 : Bool) : Except String (Stored ι) :=
  if forceFp32 ∨ outputDtype = "fp32" then .ok (.f32 arr)
  else if outputDtype = "bf16" then .ok (.bf16 fun i => fp32ToBf16 (arr i))
  else .error s!"unsupported output_dtype: '{outputDtype}'"

-- The same matrix for each head along the diagonal. A feature is a place in a head.
def blockDiagRepeat {m : Nat} (matrix : Matrix (Fin m) (Fin m) ℝ) (repeats : Nat) : Matrix (Fin repeats × Fin m) (Fin repeats × Fin m) ℝ :=
  of fun a b => if a.1 = b.1 then matrix a.2 b.2 else 0

section Transforms
variable {ι κ : Type} [Fintype ι]

def applyQkvOutputTransform (weight : Matrix ι κ ℝ) (denseTransform : Option (Matrix ι ι ℝ)) (featureOrder : ι → ι) : Matrix ι κ ℝ :=
  let out := match denseTransform with
    | some dense => denseᵀ * weight
    | none => weight
  out.submatrix featureOrder id

def applyOOutputTransform (weight : Matrix κ ι ℝ) (featureOrder : ι → ι) (denseInputTransform : Option (Matrix ι ι ℝ)) : Matrix κ ι ℝ :=
  let out := match denseInputTransform with
    | some dense => weight * denseᵀ
    | none => weight
  out.submatrix id featureOrder

end Transforms

section Rounding
variable {x t : Binary32}

theorem fp32ToBf16_unwrapped (fits : x.toBits.toNat + 0x7fff + x.toBits.toNat / 2 ^ 16 % 2 < 2 ^ 32) :
    (fp32ToBf16 x).toBits.toNat = (x.toBits.toNat + 0x7fff + x.toBits.toNat / 2 ^ 16 % 2) / 2 ^ 16 := by
  simp only [fp32ToBf16,UInt32.toNat_toUInt16,UInt32.toNat_shiftRight,UInt32.toNat_add,UInt32.toNat_and,UInt32.reduceToNat,
    Nat.reduceMod,Nat.shiftRight_eq_div_pow,Nat.and_one_is_mod]
  omega

-- No pattern of a number is near enough to the end to wrap.
theorem fp32ToBf16_fits (number : x.isNan = false) : x.toBits.toNat + 0x7fff + x.toBits.toNat / 2 ^ 16 % 2 < 2 ^ 32 := by
  have small := x.toBits.toNat_lt
  rw [Binary32.isNan,decide_eq_false_iff_not,Binary32.magnitude] at number
  omega

structure RoundsNearestEven (x : Binary32) (y : Bfloat16) : Prop where
  sign : y.negative = x.negative
  magnitude : y.magnitude ≤ 0x7f80
  nearest : NearestEven x.magnitude y.magnitude
  overflow : y.magnitude = 0x7f80 ↔ 0x7f7f8000 ≤ x.magnitude

theorem fp32ToBf16_magnitude (number : x.isNan = false) :
    (fp32ToBf16 x).magnitude = rounded x.magnitude ∧ (fp32ToBf16 x).negative = x.negative ∧ x.magnitude ≤ 0x7f800000 := by
  have bits := fp32ToBf16_unwrapped (fp32ToBf16_fits number)
  have small := x.toBits.toNat_lt
  have low : x.magnitude ≤ 0x7f800000 := by
    rw [Binary32.isNan,decide_eq_false_iff_not] at number
    omega
  refine ⟨?_,?_,low⟩ <;> rw [Binary32.magnitude] at low
  · rw [Bfloat16.magnitude,bits,rounded,Binary32.magnitude]
    rcases Nat.lt_or_ge x.toBits.toNat (2 ^ 31) with plus | minus
    · rw [Nat.mod_eq_of_lt plus] at low ⊢
      omega
    · obtain ⟨m,is⟩ : ∃ m, x.toBits.toNat = 2 ^ 31 + m := ⟨_,(Nat.add_sub_cancel' minus).symm⟩
      have high : (2 ^ 31 + m) / 2 ^ 16 = 2 ^ 15 + m / 2 ^ 16 := by omega
      have own : (2 ^ 31 + m) % 2 ^ 31 = m := by omega
      have moved : 2 ^ 31 + m + 0x7fff + (2 ^ 15 + m / 2 ^ 16) % 2 = 2 ^ 15 * 2 ^ 16 + (m + 0x7fff + m / 2 ^ 16 % 2) := by omega
      rw [is,own] at low
      rw [is,own,high,moved,Nat.mul_comm,Nat.mul_add_div (by decide),Nat.add_mod_left,Nat.mod_eq_of_lt (by omega)]
  · rw [Bfloat16.negative,bits,Binary32.negative,decide_eq_decide]
    omega

theorem fp32ToBf16_rounds (number : x.isNan = false) : RoundsNearestEven x (fp32ToBf16 x) := by
  obtain ⟨magnitude,sign,low⟩ := fp32ToBf16_magnitude number
  refine ⟨sign,?_,by rw [magnitude]; exact rounded_nearest _,?_⟩
  · rw [magnitude,rounded]
    omega
  · rw [magnitude,rounded]
    omega

-- Every pattern, of numbers or not, comes back.
theorem fp32ToBf16_toFloatArray {ι : Type} (data : ι → Bfloat16) (i : ι) : fp32ToBf16 (toFloatArray (.bf16 data) i) = data i := by
  have small := (data i).toBits.toNat_lt
  have wide : (toFloatArray (.bf16 data) i).toBits.toNat = (data i).toBits.toNat * 2 ^ 16 := by
    simp only [toFloatArray,UInt32.toNat_shiftLeft,UInt16.toNat_toUInt32,UInt32.reduceToNat,Nat.reduceMod,Nat.shiftLeft_eq]
    exact Nat.mod_eq_of_lt (by omega)
  have same : (fp32ToBf16 (toFloatArray (.bf16 data) i)).toBits.toNat = (data i).toBits.toNat := by
    rw [fp32ToBf16_unwrapped (by omega),wide]
    omega
  exact congrArg Bfloat16.mk (UInt16.toNat_inj.mp same)

theorem fp32ToBf16_value (number : x.isNan = false) : (fp32ToBf16 x).value = unitSign x.negative * (units (rounded x.magnitude * 2 ^ 16) / 2 ^ 149) := by
  obtain ⟨magnitude,sign,_⟩ := fp32ToBf16_magnitude number
  rw [Bfloat16.value,magnitude,sign]

theorem inRange_number (inRange : InRange x.value) : 2 ^ 23 ≤ x.magnitude ∧ x.isNan = false := by
  obtain ⟨low,high⟩ := inRange.units x.abs_value
  exact ⟨low,decide_eq_false (by omega)⟩

-- A sign and a power of two go through rounding, on the float that has the product.
theorem fp32ToBf16_scaled {sg : ℝ} {k : Int} (unit : sg = 1 ∨ sg = -1) (own : InRange x.value) (scaled : InRange (sg * 2 ^ k * x.value)) :
    ∃ t : Binary32, t.value = sg * 2 ^ k * x.value ∧ (fp32ToBf16 t).value = sg * 2 ^ k * (fp32ToBf16 x).value := by
  obtain ⟨normal,number⟩ := inRange_number own
  have size : |sg * 2 ^ k * x.value| = 2 ^ k * units x.magnitude / 2 ^ 149 := by
    have one : |sg| = 1 := by
      rcases unit with rfl | rfl
      · exact abs_one
      · exact (abs_neg 1).trans abs_one
    rw [abs_mul,abs_mul,one,one_mul,abs_of_pos (zpow_pos two_pos k),x.abs_value,mul_div_assoc]
  have low : (2 ^ 23 : ℝ) ≤ 2 ^ k * units x.magnitude := by
    have least := scaled.low
    rw [size,le_div_iff₀ (by positivity)] at least
    calc (2 ^ 23 : ℝ) = 1 / 2 ^ 126 * 2 ^ 149 := by norm_num
      _ ≤ 2 ^ k * units x.magnitude := least
  obtain ⟨m,_,exact_,rounds⟩ := rounded_scaled normal low
  have small := (scaled.units (m:=m) (by rw [size,exact_])).2
  obtain ⟨negative,sign⟩ : ∃ negative, unitSign negative = sg * unitSign x.negative := by
    rcases unit with rfl | rfl
    · exact ⟨x.negative,(one_mul _).symm⟩
    · exact ⟨!x.negative,by rw [unitSign_not,neg_one_mul]⟩
  obtain ⟨magnitude,negative'⟩ := Binary32.made_parts negative (show m < 2 ^ 31 by omega)
  have number' : (Binary32.made negative m).isNan = false := decide_eq_false (by omega)
  refine ⟨Binary32.made negative m,?_,?_⟩
  · rw [Binary32.value,magnitude,negative',sign,exact_,Binary32.value]
    ring
  · rw [fp32ToBf16_value number',magnitude,negative',sign,rounds,fp32ToBf16_value number]
    ring

end Rounding

section Masks
variable {ι κ : Type} [Fintype ι] [DecidableEq ι]

-- A signed power of two in each row, and nothing beside it.
def MonomialRows (a : Matrix ι ι ℝ) : Prop :=
  ∀ i, ∃ j sg, ∃ k : Int, (sg = 1 ∨ sg = -1) ∧ ∀ j', a i j' = if j' = j then sg * 2 ^ k else 0

theorem MonomialRows.mul {a : Matrix ι ι ℝ} (monomial : MonomialRows a) (i : ι) :
    ∃ j sg, ∃ k : Int, (sg = 1 ∨ sg = -1) ∧ ∀ w : Matrix ι κ ℝ, ∀ c, (a * w) i c = sg * 2 ^ k * w j c := by
  obtain ⟨j,sg,k,unit,row⟩ := monomial i
  refine ⟨j,sg,k,unit,fun w c => ?_⟩
  rw [mul_apply,Finset.sum_eq_single j]
  · rw [row,if_pos rfl]
  · intro j' _ other
    rw [row,if_neg other,zero_mul]
  · exact fun absent => absurd (Finset.mem_univ _) absent

-- The mask on the tensor as it was, and on its rounding.
theorem MonomialRows.rounds {a : Matrix ι ι ℝ} (monomial : MonomialRows a) {w : Matrix ι κ Binary32} (own : ∀ i c, InRange (w i c).value)
    (order : ι → ι) (scaled : ∀ i c, InRange ((a * w.map Binary32.value).submatrix order id i c)) :
    ∃ t : Matrix ι κ Binary32, t.map Binary32.value = (a * w.map Binary32.value).submatrix order id ∧
      t.map (fun x => (fp32ToBf16 x).value) = (a * w.map fun x => (fp32ToBf16 x).value).submatrix order id := by
  have entry : ∀ i c, ∃ t : Binary32, t.value = (a * w.map Binary32.value) (order i) c ∧
      (fp32ToBf16 t).value = (a * w.map fun x => (fp32ToBf16 x).value) (order i) c := by
    intro i c
    obtain ⟨j,sg,k,unit,row⟩ := monomial.mul (κ:=κ) (order i)
    have inRange := scaled i c
    rw [submatrix_apply,id,row,map_apply] at inRange
    rw [row,row,map_apply,map_apply]
    exact fp32ToBf16_scaled unit (own j c) inRange
  choose t value rounds using entry
  exact ⟨t,Matrix.ext value,Matrix.ext rounds⟩

theorem blockDiagRepeat_monomial {m : Nat} {a : Matrix (Fin m) (Fin m) ℝ} (monomial : MonomialRows a) (repeats : Nat) :
    MonomialRows (blockDiagRepeat a repeats) := by
  rintro ⟨head,i⟩
  obtain ⟨j,sg,k,unit,row⟩ := monomial i
  refine ⟨(head,j),sg,k,unit,fun (head',j') => ?_⟩
  show (if head = head' then a i j' else 0) = _
  by_cases here : head = head'
  · subst here
    rw [if_pos rfl,row]
    exact if_congr (by simp) rfl rfl
  · rw [if_neg here,if_neg fun same => here (congrArg Prod.fst same).symm]

theorem blockDiagRepeat_transpose {m : Nat} (a : Matrix (Fin m) (Fin m) ℝ) (repeats : Nat) : (blockDiagRepeat a repeats)ᵀ = blockDiagRepeat aᵀ repeats := by
  ext x y
  exact if_congr eq_comm rfl rfl

-- A permutation of the channels and a signed power of two for each.
theorem generateUVo_monomial {R : Type} [Numpy R ℝ] (headDim seed : Nat) (paperLiteral : Bool) {mode : UVoMode} (pow2Exp : Int)
    (exact_ : mode = .signedPermutation ∨ mode = .pow2Monomial) :
    ∃ (p : Equiv.Perm (Fin headDim)) (sg : Fin headDim → ℝ) (k : Fin headDim → Int), (∀ i, sg i = 1 ∨ sg i = -1) ∧
      generateUVo R headDim seed paperLiteral mode pow2Exp = of fun i j => if p i = j then sg i * 2 ^ k i else 0 := by
  let rng : R := Numpy.defaultRng (F:=ℝ) seed
  let perm := Numpy.shuffle (F:=ℝ) rng (List.range headDim)
  let signs := Numpy.signs (F:=ℝ) perm.2 headDim
  let exponents := (Numpy.integers (F:=ℝ) signs.2 (-max 0 pow2Exp) (max 0 pow2Exp + 1) headDim).1
  obtain ⟨p,at_⟩ := shuffled_equiv (Numpy.shuffle_perm (F:=ℝ) rng (List.range headDim))
  have placed : ∀ i j : Fin headDim, perm.1[i.1]? = some j.1 ↔ p i = j := fun i j => by rw [at_,Option.some.injEq,Fin.ext_iff]
  refine ⟨p,fun i => signs.1 i,fun i => if mode = .pow2Monomial then exponents i else 0,fun i => Numpy.signs_unit _ _ _,?_⟩
  have kept : (if paperLiteral = true ∧ mode = .qrPerturb then UVoMode.rawGaussian else mode) = mode :=
    if_neg (by rcases exact_ with rfl | rfl <;> exact fun both => nomatch both.2)
  unfold generateUVo
  dsimp only
  rw [kept]
  ext i j
  rcases exact_ with rfl | rfl
  · show (if perm.1[i.1]? = some j.1 then signs.1 i * (1 : ℝ) else 0) = if p i = j then signs.1 i * (2 : ℝ) ^ (0 : Int) else 0
    exact if_congr (placed i j) (by rw [zpow_zero]) rfl
  · exact if_congr (placed i j) rfl rfl

theorem column_monomial {n : Nat} (p : Equiv.Perm (Fin n)) {sg : Fin n → ℝ} {k : Fin n → Int} (unit : ∀ i, sg i = 1 ∨ sg i = -1) :
    MonomialRows (of fun j i => if p i = j then sg i * 2 ^ k i else 0) := by
  refine fun j => ⟨p⁻¹ j,sg (p⁻¹ j),k (p⁻¹ j),unit _,fun i => ?_⟩
  rw [of_apply]
  by_cases here : i = p⁻¹ j
  · subst here
    rw [if_pos rfl,if_pos (Equiv.Perm.eq_inv_iff_eq.mp rfl)]
  · rw [if_neg here,if_neg fun same => here (Equiv.Perm.eq_inv_iff_eq.mpr same)]

-- A sign is its own inverse, and the inverse has the opposite powers.
theorem linalgInv_monomial {n : Nat} (p : Equiv.Perm (Fin n)) {sg : Fin n → ℝ} {k : Fin n → Int} (unit : ∀ i, sg i = 1 ∨ sg i = -1) :
    linalgInv (of fun i j => if p i = j then sg i * 2 ^ k i else 0) = of fun j i => if p i = j then sg i * 2 ^ (-k i) else 0 := by
  refine linalgInv_eq ?_
  ext i i'
  rw [mul_apply,Finset.sum_eq_single (p i),of_apply,of_apply,if_pos rfl]
  · by_cases same : i' = i
    · subst same
      have square : sg i' * sg i' = 1 := by rcases unit i' with is | is <;> rw [is] <;> norm_num
      rw [if_pos rfl,one_apply_eq,mul_mul_mul_comm,square,one_mul,←zpow_add₀ two_ne_zero,add_neg_cancel,zpow_zero]
    · rw [if_neg fun same' => same (p.injective same'),mul_zero,one_apply_ne fun same' => same same'.symm]
  · intro j _ other
    rw [of_apply,if_neg fun same => other same.symm,zero_mul]
  · exact fun absent => absurd (Finset.mem_univ _) absent

variable {R : Type} [Numpy R ℝ]

theorem qkvTransform_rounds {headDim : Nat} (seed : Nat) (paperLiteral : Bool) {mode : UVoMode} (pow2Exp : Int)
    (exact_ : mode = .signedPermutation ∨ mode = .pow2Monomial) {repeats : Nat} {w : Matrix (Fin repeats × Fin headDim) κ Binary32}
    (own : ∀ i c, InRange (w i c).value) (featureOrder : Fin repeats × Fin headDim → Fin repeats × Fin headDim)
    (scaled : ∀ i c, InRange (applyQkvOutputTransform (w.map Binary32.value)
      (some (blockDiagRepeat (generateUVo R headDim seed paperLiteral mode pow2Exp) repeats)) featureOrder i c)) :
    ∃ t : Matrix (Fin repeats × Fin headDim) κ Binary32,
      t.map Binary32.value = applyQkvOutputTransform (w.map Binary32.value)
        (some (blockDiagRepeat (generateUVo R headDim seed paperLiteral mode pow2Exp) repeats)) featureOrder ∧
      t.map (fun x => (fp32ToBf16 x).value) = applyQkvOutputTransform (w.map fun x => (fp32ToBf16 x).value)
        (some (blockDiagRepeat (generateUVo R headDim seed paperLiteral mode pow2Exp) repeats)) featureOrder := by
  obtain ⟨p,sg,k,unit,is⟩ := generateUVo_monomial (R:=R) headDim seed paperLiteral pow2Exp exact_
  have monomial := blockDiagRepeat_monomial (column_monomial p (k:=k) unit) repeats
  have turned : (blockDiagRepeat (generateUVo R headDim seed paperLiteral mode pow2Exp) repeats)ᵀ =
      blockDiagRepeat (of fun j i => if p i = j then sg i * 2 ^ k i else 0) repeats := by
    rw [is,blockDiagRepeat_transpose]
    rfl
  unfold applyQkvOutputTransform at scaled ⊢
  dsimp only at scaled ⊢
  rw [turned] at scaled ⊢
  exact monomial.rounds own featureOrder scaled

theorem oTransform_rounds {headDim : Nat} (seed : Nat) (paperLiteral : Bool) {mode : UVoMode} (pow2Exp : Int)
    (exact_ : mode = .signedPermutation ∨ mode = .pow2Monomial) {repeats : Nat} {w : Matrix κ (Fin repeats × Fin headDim) Binary32}
    (own : ∀ c i, InRange (w c i).value) (featureOrder : Fin repeats × Fin headDim → Fin repeats × Fin headDim)
    (scaled : ∀ c i, InRange (applyOOutputTransform (w.map Binary32.value) featureOrder
      (some (blockDiagRepeat (linalgInv (generateUVo R headDim seed paperLiteral mode pow2Exp)) repeats)) c i)) :
    ∃ t : Matrix κ (Fin repeats × Fin headDim) Binary32,
      t.map Binary32.value = applyOOutputTransform (w.map Binary32.value) featureOrder
        (some (blockDiagRepeat (linalgInv (generateUVo R headDim seed paperLiteral mode pow2Exp)) repeats)) ∧
      t.map (fun x => (fp32ToBf16 x).value) = applyOOutputTransform (w.map fun x => (fp32ToBf16 x).value) featureOrder
        (some (blockDiagRepeat (linalgInv (generateUVo R headDim seed paperLiteral mode pow2Exp)) repeats)) := by
  obtain ⟨p,sg,k,unit,is⟩ := generateUVo_monomial (R:=R) headDim seed paperLiteral pow2Exp exact_
  have monomial := blockDiagRepeat_monomial (column_monomial p (k:=fun i => -k i) unit) repeats
  unfold applyOOutputTransform at scaled ⊢
  dsimp only at scaled ⊢
  rw [is,linalgInv_monomial p unit] at scaled ⊢
  -- Over the transposes the mask stands on the left.
  have moved : ∀ v : Matrix κ (Fin repeats × Fin headDim) ℝ,
      (v * (blockDiagRepeat (of fun j i => if p i = j then sg i * 2 ^ (-k i) else 0) repeats)ᵀ).submatrix id featureOrder =
        ((blockDiagRepeat (of fun j i => if p i = j then sg i * 2 ^ (-k i) else 0) repeats * vᵀ).submatrix featureOrder id)ᵀ := by
    intro v
    rw [transpose_submatrix,transpose_mul,transpose_transpose]
  simp only [moved,transpose_apply] at scaled ⊢
  obtain ⟨t,value,rounds⟩ := monomial.rounds (w:=wᵀ) (fun i c => own c i) featureOrder fun i c => scaled c i
  exact ⟨tᵀ,congrArg transpose value,congrArg transpose rounds⟩

end Masks

theorem bf16_output_exact (R : Type) [Numpy R ℝ] :
    (∀ (ι : Type) (arr : ι → Binary32), (∀ i, (arr i).isNan = false) → ∃ rounded, writeTensorTyped arr "bf16" false = .ok (.bf16 rounded) ∧
      ∀ i, (arr i).toBits.toNat + 0x7fff + (arr i).toBits.toNat / 2 ^ 16 % 2 < 2 ^ 32 ∧ RoundsNearestEven (arr i) (rounded i)) ∧
    (∀ (ι : Type) (data : ι → Bfloat16), writeTensorTyped (toFloatArray (.bf16 data)) "bf16" false = .ok (.bf16 data)) ∧
    ∀ (headDim seed : Nat) (paperLiteral : Bool) (mode : UVoMode) (pow2Exp : Int) (repeats : Nat)
      (featureOrder : Fin repeats × Fin headDim → Fin repeats × Fin headDim) (κ : Type),
      mode = .signedPermutation ∨ mode = .pow2Monomial →
      let uVo := generateUVo R headDim seed paperLiteral mode pow2Exp
      (∀ wV : Matrix (Fin repeats × Fin headDim) κ Binary32, (∀ i c, InRange (wV i c).value) →
        (∀ i c, InRange (applyQkvOutputTransform (wV.map Binary32.value) (some (blockDiagRepeat uVo repeats)) featureOrder i c)) →
        ∃ out : Matrix (Fin repeats × Fin headDim) κ Binary32,
          out.map Binary32.value = applyQkvOutputTransform (wV.map Binary32.value) (some (blockDiagRepeat uVo repeats)) featureOrder ∧
          out.map (fun x => (fp32ToBf16 x).value) =
            applyQkvOutputTransform (wV.map fun x => (fp32ToBf16 x).value) (some (blockDiagRepeat uVo repeats)) featureOrder) ∧
      ∀ wO : Matrix κ (Fin repeats × Fin headDim) Binary32, (∀ c i, InRange (wO c i).value) →
        (∀ c i, InRange (applyOOutputTransform (wO.map Binary32.value) featureOrder (some (blockDiagRepeat (linalgInv uVo) repeats)) c i)) →
        ∃ out : Matrix κ (Fin repeats × Fin headDim) Binary32,
          out.map Binary32.value = applyOOutputTransform (wO.map Binary32.value) featureOrder (some (blockDiagRepeat (linalgInv uVo) repeats)) ∧
          out.map (fun x => (fp32ToBf16 x).value) =
            applyOOutputTransform (wO.map fun x => (fp32ToBf16 x).value) featureOrder (some (blockDiagRepeat (linalgInv uVo) repeats)) := by
  refine ⟨fun ι arr numbers => ⟨_,rfl,fun i => ⟨fp32ToBf16_fits (numbers i),fp32ToBf16_rounds (numbers i)⟩⟩,fun ι data => ?_,?_⟩
  · exact congrArg (fun out => Except.ok (Stored.bf16 out)) (funext fun i => fp32ToBf16_toFloatArray data i)
  · intro headDim seed paperLiteral mode pow2Exp repeats featureOrder κ exact_
    exact ⟨fun wV own scaled => qkvTransform_rounds seed paperLiteral pow2Exp exact_ own featureOrder scaled,
      fun wO own scaled => oTransform_rounds seed paperLiteral pow2Exp exact_ own featureOrder scaled⟩

-- One head of one channel, and a weight of one.
theorem bf16_output_exact_one : ∃ out : Matrix (Fin 1 × Fin 1) Unit Binary32,
    out.map (fun x => (fp32ToBf16 x).value) = applyQkvOutputTransform (of fun _ _ => (fp32ToBf16 ⟨0x3f800000⟩).value)
      (some (blockDiagRepeat (@generateUVo ℝ _ _ Nat firstDraws 1 0 false .signedPermutation 0) 1)) id := by
  have weight : (⟨0x3f800000⟩ : Binary32).value = 1 := by
    have parts : units (⟨0x3f800000⟩ : Binary32).magnitude = 2 ^ 149 := rfl
    have plus : (⟨0x3f800000⟩ : Binary32).negative = false := rfl
    rw [Binary32.value,parts,plus]
    norm_num [unitSign]
  have inRange : InRange 1 := ⟨by norm_num,by norm_num⟩
  have mask : blockDiagRepeat (@generateUVo ℝ _ _ Nat firstDraws 1 0 false .signedPermutation 0) 1 = 1 := by
    ext i j
    obtain rfl := Subsingleton.elim i j
    obtain rfl := Subsingleton.elim i (0,0)
    show (1 : ℝ) * 1 = 1
    exact one_mul 1
  obtain ⟨out,_,rounds⟩ := ((@bf16_output_exact Nat firstDraws).2.2 1 0 false .signedPermutation 0 1 id Unit (.inl rfl)).1
    (of fun _ _ => ⟨0x3f800000⟩) (fun _ _ => by rw [of_apply,weight]; exact inRange) fun i c => by
      unfold applyQkvOutputTransform
      dsimp only
      rw [mask,transpose_one,Matrix.one_mul,submatrix_apply,map_apply,of_apply,weight]
      exact inRange
  exact ⟨out,rounds⟩

end Aloepri
