import Mathlib
import GeloLightrag.Foundation.Array2

namespace Foundation
namespace Walsh
variable {F : Type} [CommRing F]

-- The operators act on columns that have a value for every row number. A stage
-- adds and subtracts the rows at distance h; rows past the end stay apart.
def radix2 (h : Nat) : Module.End F (Nat → F) where
  toFun v i := if i / h % 2 = 0 then v i + v (i + h) else v (i - h) - v i
  map_add' v w := by
    funext i
    simp only [Pi.add_apply]
    split <;> ring
  map_smul' c v := by
    funext i
    simp only [Pi.smul_apply,smul_eq_mul,RingHom.id_apply]
    split <;> ring

def flip (negative : Nat → Bool) : Module.End F (Nat → F) where
  toFun v i := if negative i then -v i else v i
  map_add' v w := by
    funext i
    simp only [Pi.add_apply]
    split <;> ring
  map_smul' c v := by
    funext i
    simp only [Pi.smul_apply,smul_eq_mul,RingHom.id_apply]
    split <;> ring

def scaled (f : Nat → F) : Module.End F (Nat → F) where
  toFun v i := v i * f i
  map_add' v w := by
    funext i
    simp only [Pi.add_apply]
    ring
  map_smul' c v := by
    funext i
    simp only [Pi.smul_apply,smul_eq_mul,RingHom.id_apply]
    ring

-- A square matrix over the first n rows; the other rows come out zero.
def kernel (n : Nat) (entry : Nat → Nat → F) : Module.End F (Nat → F) where
  toFun v i := if i < n then ∑ k ∈ Finset.range n, entry i k * v k else 0
  map_add' v w := by
    funext i
    simp only [Pi.add_apply]
    split
    · rw [←Finset.sum_add_distrib]
      exact Finset.sum_congr rfl fun k _ => by ring
    · ring
  map_smul' c v := by
    funext i
    simp only [Pi.smul_apply,smul_eq_mul,RingHom.id_apply]
    split
    · rw [Finset.mul_sum]
      exact Finset.sum_congr rfl fun k _ => by ring
    · ring

-- The rows below n as they are, the others zero.
def cut (n : Nat) : Module.End F (Nat → F) where
  toFun v i := if i < n then v i else 0
  map_add' v w := by
    funext i
    simp only [Pi.add_apply]
    split <;> ring
  map_smul' c v := by
    funext i
    simp only [Pi.smul_apply,smul_eq_mul,RingHom.id_apply]
    split <;> ring

theorem radix2_apply (h : Nat) (v : Nat → F) (i : Nat) :
    radix2 h v i = if i / h % 2 = 0 then v i + v (i + h) else v (i - h) - v i := rfl

-- A row and its partner differ in one bit.
theorem xor_two_pow (k i : Nat) : i ^^^ 2 ^ k = if i / 2 ^ k % 2 = 0 then i + 2 ^ k else i - 2 ^ k := by
  have quotient : (i ^^^ 2 ^ k) / 2 ^ k = i / 2 ^ k ^^^ 1 := by
    rw [Nat.xor_div_two_pow,Nat.div_self (Nat.two_pow_pos k)]
  have remainder : (i ^^^ 2 ^ k) % 2 ^ k = i % 2 ^ k := by
    rw [Nat.xor_mod_two_pow,Nat.mod_self,Nat.xor_zero]
  have whole := Nat.div_add_mod (i ^^^ 2 ^ k) (2 ^ k)
  rw [quotient,remainder] at whole
  have split := Nat.div_add_mod i (2 ^ k)
  by_cases even : i / 2 ^ k % 2 = 0
  · rw [if_pos even,←whole,Nat.xor_one_of_even (Nat.even_iff.mpr even),Nat.mul_succ]
    omega
  · have odd : i / 2 ^ k % 2 = 1 := by omega
    have positive : 1 ≤ i / 2 ^ k := by
      rcases Nat.eq_zero_or_pos (i / 2 ^ k) with none | some
      · rw [none] at odd; cases odd
      · exact some
    rw [if_neg even,←whole,Nat.xor_one_of_odd (Nat.odd_iff.mpr odd),Nat.mul_sub,Nat.mul_one]
    have room : 2 ^ k ≤ 2 ^ k * (i / 2 ^ k) := Nat.le_mul_of_pos_right _ positive
    omega

theorem radix2_bit (k : Nat) (v : Nat → F) (i : Nat) :
    radix2 (2 ^ k) v i = (if i.testBit k then -v i else v i) + v (i ^^^ 2 ^ k) := by
  rw [radix2_apply,xor_two_pow,Nat.testBit_eq_decide_div_mod_eq]
  by_cases even : i / 2 ^ k % 2 = 0
  · rw [if_pos even,if_pos even,if_neg (by rw [decide_eq_true_eq]; omega)]
  · rw [if_neg even,if_neg even,if_pos (by rw [decide_eq_true_eq]; omega)]
    ring

theorem radix2_twice (k : Nat) : radix2 (2 ^ k) * radix2 (2 ^ k) = ((2 : Nat) : F) • (1 : Module.End F (Nat → F)) := by
  ext v i
  have partner : (i ^^^ 2 ^ k).testBit k = !i.testBit k := by
    rw [Nat.testBit_xor,Nat.testBit_two_pow_self,Bool.xor_true]
  have back : i ^^^ 2 ^ k ^^^ 2 ^ k = i := by rw [Nat.xor_assoc,Nat.xor_self,Nat.xor_zero]
  rw [Module.End.mul_apply,radix2_bit,radix2_bit,radix2_bit,partner,back]
  show _ = ((2 : Nat) : F) * v i
  cases i.testBit k <;> simp <;> ring

theorem radix2_commute (j k : Nat) : Commute (radix2 (F:=F) (2 ^ j)) (radix2 (2 ^ k)) := by
  by_cases same : j = k
  · rw [same]
  · ext v i
    have one : (i ^^^ 2 ^ j).testBit k = i.testBit k := by
      rw [Nat.testBit_xor,Nat.testBit_two_pow_of_ne same,Bool.xor_false]
    have other : (i ^^^ 2 ^ k).testBit j = i.testBit j := by
      rw [Nat.testBit_xor,Nat.testBit_two_pow_of_ne (Ne.symm same),Bool.xor_false]
    have turned : i ^^^ 2 ^ j ^^^ 2 ^ k = i ^^^ 2 ^ k ^^^ 2 ^ j := by
      rw [Nat.xor_assoc,Nat.xor_comm (2 ^ j),←Nat.xor_assoc]
    rw [Module.End.mul_apply,Module.End.mul_apply,radix2_bit,radix2_bit,radix2_bit,radix2_bit,radix2_bit,radix2_bit,
      one,other,turned]
    cases i.testBit j <;> cases i.testBit k <;> simp <;> ring

-- The stages at the distances 2^a, 2^(a+1), …, count of them.
def walsh (a : Nat) : Nat → Module.End F (Nat → F)
  | 0 => 1
  | count+1 => walsh (a+1) count * radix2 (2 ^ a)

theorem walsh_commute (k : Nat) : ∀ a count, Commute (walsh (F:=F) a count) (radix2 (2 ^ k))
  | _,0 => Commute.one_left _
  | a,count+1 => (walsh_commute k (a+1) count).mul_left (radix2_commute a k)

theorem walsh_twice : ∀ a count, walsh a count * walsh a count = ((2 ^ count : Nat) : F) • (1 : Module.End F (Nat → F))
  | _,0 => by rw [pow_zero,Nat.cast_one,one_smul]; exact one_mul 1
  | a,count+1 => by
    have moved := (walsh_commute (F:=F) a (a+1) count).eq
    calc walsh (a+1) count * radix2 (2 ^ a) * (walsh (a+1) count * radix2 (2 ^ a))
        = walsh (a+1) count * (radix2 (2 ^ a) * walsh (a+1) count) * radix2 (2 ^ a) := by simp only [mul_assoc]
      _ = (walsh (a+1) count * walsh (a+1) count) * (radix2 (2 ^ a) * radix2 (2 ^ a)) := by
          rw [←moved]; simp only [mul_assoc]
      _ = ((2 ^ (count+1) : Nat) : F) • 1 := by
          rw [walsh_twice (a+1) count,radix2_twice,smul_mul_smul_comm,one_mul,pow_succ,Nat.cast_mul]

-- Three stages over eight rows at once: the sums and differences of the rows
-- at distance one, of those at distance two, and at distance four.
def butterflyOct (x : Nat → F) : Nat → F
  | 0 => (x 0 + x 1 + (x 2 + x 3)) + (x 4 + x 5 + (x 6 + x 7))
  | 1 => (x 0 - x 1 + (x 2 - x 3)) + (x 4 - x 5 + (x 6 - x 7))
  | 2 => (x 0 + x 1 - (x 2 + x 3)) + (x 4 + x 5 - (x 6 + x 7))
  | 3 => (x 0 - x 1 - (x 2 - x 3)) + (x 4 - x 5 - (x 6 - x 7))
  | 4 => (x 0 + x 1 + (x 2 + x 3)) - (x 4 + x 5 + (x 6 + x 7))
  | 5 => (x 0 - x 1 + (x 2 - x 3)) - (x 4 - x 5 + (x 6 - x 7))
  | 6 => (x 0 + x 1 - (x 2 + x 3)) - (x 4 + x 5 - (x 6 + x 7))
  | _ => (x 0 - x 1 - (x 2 - x 3)) - (x 4 - x 5 - (x 6 - x 7))

-- Row i is lane i / h % 8 of the group that starts at its chunk, i % h rows in.
def radix8 (h : Nat) : Module.End F (Nat → F) where
  toFun v i := butterflyOct (fun lane => v (i / (8 * h) * (8 * h) + lane * h + i % h)) (i / h % 8)
  map_add' v w := by
    funext i
    simp only [Pi.add_apply]
    generalize i / h % 8 = lane
    unfold butterflyOct
    split <;> ring
  map_smul' c v := by
    funext i
    simp only [Pi.smul_apply,smul_eq_mul,RingHom.id_apply]
    generalize i / h % 8 = lane
    unfold butterflyOct
    split <;> ring

theorem radix8_apply (h : Nat) (v : Nat → F) (i : Nat) : radix8 h v i =
    butterflyOct (fun lane => v (i / (8 * h) * (8 * h) + lane * h + i % h)) (i / h % 8) := rfl

-- A stage inside a group of eight rows.
theorem radix2_lane (v : Nat → F) (q t : Nat) (low : j < h) (stride : c = 1 ∨ c = 2 ∨ c = 4) :
    radix2 (c * h) v (q * (8 * h) + t * h + j) =
      if t / c % 2 = 0 then v (q * (8 * h) + t * h + j) + v (q * (8 * h) + (t + c) * h + j)
      else v (q * (8 * h) + (t - c) * h + j) - v (q * (8 * h) + t * h + j) := by
  have row : (q * (8 * h) + t * h + j) / h = q * 8 + t := by
    rw [show q * (8 * h) + t * h + j = h * (q * 8 + t) + j by ring,Nat.mul_add_div (Nat.zero_lt_of_lt low),
      Nat.div_eq_of_lt low,Nat.add_zero]
  have parity : (q * (8 * h) + t * h + j) / (c * h) % 2 = t / c % 2 := by
    rw [Nat.mul_comm c h,←Nat.div_div_eq_div_mul,row]
    rcases stride with rfl | rfl | rfl <;> omega
  have above : q * (8 * h) + t * h + j + c * h = q * (8 * h) + (t + c) * h + j := by ring
  rw [radix2_apply,parity,above]
  by_cases even : t / c % 2 = 0
  · rw [if_pos even,if_pos even]
  · have reach : c ≤ t := by
      rcases stride with rfl | rfl | rfl <;> omega
    obtain ⟨r,rfl⟩ := Nat.exists_eq_add_of_le reach
    have below : q * (8 * h) + (c + r) * h + j - c * h = q * (8 * h) + r * h + j := by
      rw [show q * (8 * h) + (c + r) * h + j = q * (8 * h) + r * h + j + c * h by ring,Nat.add_sub_cancel]
    rw [if_neg even,if_neg even,below,Nat.add_sub_cancel_left]

theorem radix8_stages (positive : 0 < h) :
    radix8 (F:=F) h = radix2 (4 * h) * (radix2 (2 * h) * radix2 (1 * h)) := by
  ext v i
  have low : i % h < h := Nat.mod_lt i positive
  have lane : i / h % 8 < 8 := Nat.mod_lt _ (by decide)
  have whole : i = i / (8 * h) * (8 * h) + i / h % 8 * h + i % h := by
    have chunk : i / (8 * h) = i / h / 8 := by rw [Nat.mul_comm,Nat.div_div_eq_div_mul]
    have outer := Nat.div_add_mod i h
    have inner := Nat.div_add_mod (i / h) 8
    rw [chunk]
    calc i = h * (i / h) + i % h := outer.symm
      _ = h * (8 * (i / h / 8) + i / h % 8) + i % h := by rw [inner]
      _ = i / h / 8 * (8 * h) + i / h % 8 * h + i % h := by ring
  generalize named : (fun lane => i / (8 * h) * (8 * h) + lane * h + i % h) = row
  have four : ∀ (w : Nat → F) t, radix2 (4 * h) w (row t) =
      if t / 4 % 2 = 0 then w (row t) + w (row (t + 4)) else w (row (t - 4)) - w (row t) :=
    fun w t => by rw [←named]; exact radix2_lane w (i / (8 * h)) t low (.inr (.inr rfl))
  have two : ∀ (w : Nat → F) t, radix2 (2 * h) w (row t) =
      if t / 2 % 2 = 0 then w (row t) + w (row (t + 2)) else w (row (t - 2)) - w (row t) :=
    fun w t => by rw [←named]; exact radix2_lane w (i / (8 * h)) t low (.inr (.inl rfl))
  have one : ∀ (w : Nat → F) t, radix2 (1 * h) w (row t) =
      if t / 1 % 2 = 0 then w (row t) + w (row (t + 1)) else w (row (t - 1)) - w (row t) :=
    fun w t => by rw [←named]; exact radix2_lane w (i / (8 * h)) t low (.inl rfl)
  have here : i = row (i / h % 8) := by rw [←named]; exact whole
  have group : (fun lane => v (i / (8 * h) * (8 * h) + lane * h + i % h)) = fun lane => v (row lane) := by rw [←named]
  rw [radix8_apply,group,Module.End.mul_apply,Module.End.mul_apply]
  conv_rhs => rw [here]
  generalize i / h % 8 = t at lane
  -- the lane decides at each distance whether its row takes the sum or the difference
  interval_cases t <;> simp only [four,two,one,butterflyOct,Nat.reduceDiv,Nat.reduceMod,Nat.reduceAdd,Nat.reduceSub,
    Nat.zero_div,Nat.zero_mod,Nat.zero_add,Nat.sub_self,Nat.div_one,one_ne_zero,reduceIte]

-- The loop of the transform over n rows, from distance h: eight rows at a time
-- while eight are left, then two at a time.
def transform (n : Nat) : Nat → Nat → Module.End F (Nat → F)
  | 0,_ => 1
  | fuel+1,h =>
    if h < n then
      if h * 8 ≤ n then transform n fuel (h * 8) * radix8 h else transform n fuel (h * 2) * radix2 h
    else 1

theorem walsh_radix8 (reach : a + 3 ≤ m) :
    walsh (F:=F) (a+3) (m - (a+3)) * radix8 (2 ^ a) = walsh a (m - a) := by
  rw [radix8_stages (Nat.two_pow_pos a),show m - a = m - (a+3) + 1 + 1 + 1 by omega]
  show _ = walsh (a+1+1+1) (m - (a+3)) * radix2 (2 ^ (a+1+1)) * radix2 (2 ^ (a+1)) * radix2 (2 ^ a)
  rw [show 4 * 2 ^ a = 2 ^ (a+1+1) by rw [pow_succ,pow_succ]; ring,
    show 2 * 2 ^ a = 2 ^ (a+1) by rw [pow_succ]; ring,Nat.one_mul,mul_assoc,mul_assoc]

theorem walsh_radix2 (reach : a < m) : walsh (F:=F) (a+1) (m - (a+1)) * radix2 (2 ^ a) = walsh a (m - a) := by
  rw [show m - a = m - (a+1) + 1 by omega]
  rfl

theorem two_pow_eight (a : Nat) : 2 ^ a * 8 = 2 ^ (a+3) := (pow_add 2 a 3).symm

theorem transform_walsh (m : Nat) : ∀ fuel a, a ≤ m → m ≤ a + fuel →
    transform (F:=F) (2 ^ m) fuel (2 ^ a) = walsh a (m - a)
  | 0,a,small,enough => by rw [show m - a = 0 by omega]; rfl
  | fuel+1,a,small,enough => by
    unfold transform
    by_cases more : 2 ^ a < 2 ^ m
    · have step : a < m := (Nat.pow_lt_pow_iff_right (by decide)).mp more
      rw [if_pos more]
      by_cases eight : 2 ^ a * 8 ≤ 2 ^ m
      · have three : a + 3 ≤ m := (Nat.pow_le_pow_iff_right (by decide)).mp (two_pow_eight a ▸ eight)
        rw [if_pos eight,two_pow_eight,transform_walsh m fuel (a+3) three (by omega),walsh_radix8 three]
      · rw [if_neg eight,←pow_succ,transform_walsh m fuel (a+1) step (by omega),walsh_radix2 step]
    · have stop : m ≤ a := (Nat.pow_le_pow_iff_right (by decide)).mp (Nat.le_of_not_lt more)
      rw [if_neg more,show m - a = 0 by omega]
      rfl

theorem flip_twice (negative : Nat → Bool) : flip (F:=F) negative * flip negative = 1 := by
  ext v i
  show (if negative i then -(if negative i then -v i else v i) else if negative i then -v i else v i) = v i
  cases negative i <;> simp

theorem scaled_twice {f : Nat → F} {c : F} (even : ∀ i, f i * f i = c) : scaled f * scaled f = c • 1 := by
  ext v i
  show v i * f i * f i = c * v i
  rw [mul_assoc,even,mul_comm]

theorem signs_even {d : List F} (signs : ∀ x ∈ d, x = 1 ∨ x = -1) (factor : F) (i : Nat) :
    d.getD i 1 * factor * (d.getD i 1 * factor) = factor * factor := by
  have sign : d.getD i 1 = 1 ∨ d.getD i 1 = -1 := by
    rw [List.getD_eq_getElem?_getD]
    by_cases listed : i < d.length
    · rw [List.getElem?_eq_getElem listed]
      exact signs _ (List.getElem_mem listed)
    · rw [List.getElem?_eq_none (Nat.le_of_not_lt listed)]
      exact .inl rfl
  rcases sign with plus | minus
  · rw [plus]; ring
  · rw [minus]; ring

theorem cut_flip (n : Nat) (negative : Nat → Bool) : cut (F:=F) n * flip negative = flip negative * cut n := by
  ext v i
  show (if i < n then if negative i then -v i else v i else 0) =
    if negative i then -(if i < n then v i else 0) else if i < n then v i else 0
  by_cases low : i < n <;> cases negative i <;> simp [low]

theorem cut_kernel (n : Nat) (entry : Nat → Nat → F) : cut n * kernel n entry = kernel n entry := by
  ext v i
  show (if i < n then kernel n entry v i else 0) = if i < n then ∑ k ∈ Finset.range n, entry i k * v k else 0
  by_cases low : i < n
  · rw [if_pos low]; rfl
  · rw [if_neg low,if_neg low]

theorem kernel_mul {n : Nat} (left right : Nat → Nat → F) {c : F}
    (product : ∀ i < n, ∀ j < n, ∑ k ∈ Finset.range n, left i k * right k j = if i = j then c else 0) :
    kernel n left * kernel n right = c • cut n := by
  ext v i
  show (if i < n then ∑ k ∈ Finset.range n, left i k * kernel n right v k else 0) = c * if i < n then v i else 0
  by_cases low : i < n
  · rw [if_pos low,if_pos low]
    calc ∑ k ∈ Finset.range n, left i k * kernel n right v k
        = ∑ k ∈ Finset.range n, ∑ j ∈ Finset.range n, left i k * right k j * v j := by
          refine Finset.sum_congr rfl fun k member => ?_
          rw [show kernel n right v k = ∑ j ∈ Finset.range n, right k j * v j from if_pos (Finset.mem_range.mp member),
            Finset.mul_sum]
          exact Finset.sum_congr rfl fun j _ => (mul_assoc _ _ _).symm
      _ = ∑ j ∈ Finset.range n, (if i = j then c else 0) * v j := by
          rw [Finset.sum_comm]
          refine Finset.sum_congr rfl fun j member => ?_
          rw [←Finset.sum_mul,product i low j (Finset.mem_range.mp member)]
      _ = c * v i := by simp [low]
  · rw [if_neg low,if_neg low,mul_zero]

-- Three transforms with signs between them, undone in the opposite order.
theorem cascade_undone {H P A B D : Module.End F (Nat → F)} {s c : F} (twice : H * H = s • P) (within : P * H = H)
    (first : A * A = 1) (second : B * B = 1) (last : D * D = c • 1) (cutFirst : P * A = A * P) (cutSecond : P * B = B * P) :
    (H * A * H * B * H * D) * (D * H * B * H * A * H) = (c * s ^ 3) • P := by
  have inner : H * P * H = s • P := by rw [mul_assoc,within,twice]
  have signs : ∀ E : Module.End F (Nat → F), E * E = 1 → P * E = E * P → E * P * E = P := by
    intro E squared passes
    rw [mul_assoc,passes,←mul_assoc,squared,one_mul]
  calc (H * A * H * B * H * D) * (D * H * B * H * A * H)
      = H * A * H * B * (H * (D * D) * H) * B * H * A * H := by simp only [mul_assoc]
    _ = (c * s) • (H * A * H * (B * P * B) * H * A * H) := by
        rw [last,mul_smul_comm,mul_one,smul_mul_assoc,twice]
        simp only [mul_smul_comm,smul_mul_assoc,smul_smul,mul_assoc]
    _ = (c * s * s) • (H * (A * P * A) * H) := by
        rw [signs B second cutSecond,show H * A * H * P * H * A * H = H * A * (H * P * H) * A * H by simp only [mul_assoc],inner]
        simp only [mul_smul_comm,smul_mul_assoc,smul_smul,mul_assoc]
    _ = (c * s ^ 3) • P := by
        rw [signs A first cutFirst,inner,smul_smul]
        ring_nf

section Locality
open Array2

theorem local_one (n : Nat) : Local n (1 : Module.End F (Nat → F)) := fun _ _ same => same

theorem local_mul {S T : Module.End F (Nat → F)} (outer : Local n S) (inner : Local n T) : Local n (S * T) :=
  fun v w same => outer (T v) (T w) (inner v w same)

theorem local_flip (n : Nat) (negative : Nat → Bool) : Local n (flip (F:=F) negative) := by
  intro v w same i low
  show (if negative i then -v i else v i) = if negative i then -w i else w i
  rw [same i low]

theorem local_scaled (n : Nat) (f : Nat → F) : Local n (scaled f) := by
  intro v w same i low
  show v i * f i = w i * f i
  rw [same i low]

theorem local_kernel (n : Nat) (entry : Nat → Nat → F) : Local n (kernel n entry) := by
  intro v w same i low
  show (if i < n then ∑ k ∈ Finset.range n, entry i k * v k else 0) =
    if i < n then ∑ k ∈ Finset.range n, entry i k * w k else 0
  rw [if_pos low,if_pos low]
  exact Finset.sum_congr rfl fun k member => by rw [same k (Finset.mem_range.mp member)]

theorem local_walsh : ∀ a count, a + count ≤ m → Local (2 ^ m) (walsh (F:=F) a count)
  | _,0,_ => local_one _
  | a,count+1,inside => by
    refine local_mul (local_walsh (a+1) count (by omega)) ?_
    intro v w same i low
    have partner : i ^^^ 2 ^ a < 2 ^ m := Nat.xor_lt_two_pow low (Nat.pow_lt_pow_right (by decide) (by omega))
    rw [radix2_bit,radix2_bit,same i low,same _ partner]

-- The three transforms with signs between them are one map on the
-- columns, for the mask as for its transpose.
theorem cascade_columns {T1 T2 T3 T4 T5 T6 : Module.End F (Nat → F)} {x : Array2 F} (near2 : Local x.nrows T2)
    (near3 : Local x.nrows T3) (near4 : Local x.nrows T4) (near5 : Local x.nrows T5) (near6 : Local x.nrows T6) :
    onColumns T6 (onColumns T5 (onColumns T4 (onColumns T3 (onColumns T2 (onColumns T1 x))))) =
      onColumns (T6 * T5 * T4 * T3 * T2 * T1) x := by
  rw [onColumns_mul T1 near2,onColumns_mul (T2 * T1) near3,onColumns_mul _ near4,onColumns_mul _ near5,
    onColumns_mul _ near6]
  simp only [mul_assoc]

-- A product taken between a cascade and its inverse is the plain product.
theorem unmask_cascade {H A B D P : Module.End F (Nat → F)} {n : Nat} {s c : F} (nearH : Local n H) (nearA : Local n A)
    (nearB : Local n B) (nearD : Local n D) (twice : H * H = s • P) (within : P * H = H) (first : A * A = 1)
    (second : B * B = 1) (last : D * D = c • 1) (cutFirst : P * A = A * P) (cutSecond : P * B = B * P)
    (low : ∀ (v : Nat → F), ∀ i < n, P v i = v i) (unit : c * s ^ 3 = 1) {x : Array2 F} (tall : x.nrows = n)
    (w : Array2 F) :
    onColumns H (onColumns A (onColumns H (onColumns B (onColumns H (onColumns D
      ((onColumns D (onColumns H (onColumns B (onColumns H (onColumns A (onColumns H x)))))).dot w)))))) = x.dot w := by
  subst tall
  rw [cascade_columns nearA nearH nearB nearH nearD,
    cascade_columns (x:=(onColumns (D * H * B * H * A * H) x).dot w) nearH nearB nearH nearA nearH]
  refine unmask_dot ?_ ?_ rfl w
  · exact local_mul (local_mul (local_mul (local_mul (local_mul nearH nearA) nearH) nearB) nearH) nearD
  · intro v i small
    have undone := cascade_undone twice within first second last cutFirst cutSecond
    rw [unit,one_smul] at undone
    rw [←Module.End.mul_apply,undone]
    exact low v i small

end Locality
end Walsh
end Foundation
