import GeloLightrag.Foundation.Checked
import Mathlib.Algebra.Field.Basic
import Mathlib.Data.Matrix.Mul
import Mathlib.Data.List.Nodup

namespace Aloepri
open Foundation Matrix

-- `blk.{block}.` stands before the name of a block's tensor.
structure TensorName where
  block : Option Nat
  stripped : String
deriving DecidableEq,Repr

-- An array in its natural shape.
inductive Tensor (F : Type) where
  | vec {n : Nat} (v : Fin n → F)
  | mat {m n : Nat} (w : Matrix (Fin m) (Fin n) F)

inductive Axis where
  | first
  | last
deriving DecidableEq,Repr

section Arrays
variable {F : Type}

def Tensor.shape : Tensor F → String
  | @Tensor.vec _ n _ => s!"({n},)"
  | @Tensor.mat _ m n _ => s!"({m}, {n})"

def Tensor.size : Tensor F → Axis → Nat
  | @Tensor.vec _ n _,_ => n
  | @Tensor.mat _ m _ _,.first => m
  | @Tensor.mat _ _ n _,.last => n

-- The length at which two axes meet: an axis of one entry goes along with any other.
def joint (a b : Nat) : Option {c : Nat // (a = c ∨ a = 1) ∧ (b = c ∨ b = 1)} :=
  if same : a = b then some ⟨b,.inl same,.inl rfl⟩
  else if one : a = 1 then some ⟨b,.inr one,.inl rfl⟩
  else if one : b = 1 then some ⟨a,.inl rfl,.inr one⟩
  else none

def along {a c : Nat} (fits : a = c ∨ a = 1) (i : Fin c) : Fin a :=
  if same : a = c then i.cast same.symm else ⟨0,by omega⟩

def broadcastError (x y : Tensor F) : String := s!"operands could not be broadcast together with shapes {x.shape} {y.shape} "

-- `x * y`.
def broadcastMul [Mul F] : Tensor F → Tensor F → Except String (Tensor F)
  | @Tensor.vec _ a x,@Tensor.vec _ b y =>
    match joint a b with
    | some c => .ok (.vec fun i : Fin c => x (along c.2.1 i) * y (along c.2.2 i))
    | none => .error (broadcastError (.vec x) (.vec y))
  | @Tensor.mat _ m a x,@Tensor.vec _ b y =>
    match joint a b with
    | some c => .ok (.mat (of fun (r : Fin m) (i : Fin c) => x r (along c.2.1 i) * y (along c.2.2 i)))
    | none => .error (broadcastError (.mat x) (.vec y))
  | @Tensor.vec _ a x,@Tensor.mat _ m b y =>
    match joint a b with
    | some c => .ok (.mat (of fun (r : Fin m) (i : Fin c) => x (along c.2.1 i) * y r (along c.2.2 i)))
    | none => .error (broadcastError (.vec x) (.mat y))
  | @Tensor.mat _ m a x,@Tensor.mat _ n b y =>
    match joint m n,joint a b with
    | some r,some c => .ok (.mat (of fun (j : Fin r) (i : Fin c) => x (along r.2.1 j) (along c.2.1 i) * y (along r.2.2 j) (along c.2.2 i)))
    | _,_ => .error (broadcastError (.mat x) (.mat y))

def matmulError (axis size wanted : Nat) : String :=
  s!"matmul: Input operand 1 has a mismatch in its core dimension {axis}, with gufunc signature (n?,k),(k,m?)->(n?,m?) (size {size} is different from {wanted})"

-- `arr @ m` and `m @ arr`.
def matmulRight [NonUnitalNonAssocSemiring F] {d k : Nat} (arr : Tensor F) (m : Matrix (Fin d) (Fin k) F) : Except String (Tensor F) :=
  match arr with
  | @Tensor.vec _ n v => if same : n = d then .ok (.vec ((v ∘ Fin.cast same.symm) ᵥ* m)) else .error (matmulError 0 d n)
  | @Tensor.mat _ _ n w => if same : n = d then .ok (.mat (w.submatrix id (Fin.cast same.symm) * m)) else .error (matmulError 0 d n)

def matmulLeft [NonUnitalNonAssocSemiring F] {k d : Nat} (m : Matrix (Fin k) (Fin d) F) (arr : Tensor F) : Except String (Tensor F) :=
  match arr with
  | @Tensor.vec _ n v => if same : n = d then .ok (.vec (m *ᵥ (v ∘ Fin.cast same.symm))) else .error (matmulError 0 n d)
  | @Tensor.mat _ n _ w => if same : n = d then .ok (.mat (m * w.submatrix (Fin.cast same.symm) id)) else .error (matmulError 0 n d)

-- `np.concatenate([arr, np.full((pad,), value)])`.
def concatenateFull (arr : Tensor F) (pad : Nat) (value : F) : Except String (Tensor F) :=
  match arr with
  | .vec v => .ok (.vec (Fin.append v fun _ : Fin pad => value))
  | .mat _ => .error ("all the input array dimensions except for the concatenation axis must match exactly, but " ++
      "the array at index 0 has 2 dimension(s) and the array at index 1 has 1 dimension(s)")

def Axis.text : Axis → String
  | .first => "0"
  | .last => "-1"

def expandAxisWithZeros [Zero F] (arr : Tensor F) (axis : Axis) (d expansion : Nat) : Except String (Tensor F) :=
  if arr.size axis ≠ d then .error s!"axis {axis.text} of shape {arr.shape} is {arr.size axis}, expected {d}"
  else match axis,arr with
    | _,.vec v => .ok (.vec (Fin.append v fun _ : Fin expansion => 0))
    | .last,.mat w => .ok (.mat (of fun i => Fin.append (w i) fun _ : Fin expansion => 0))
    | .first,.mat w => .ok (.mat (of (Fin.append w fun _ : Fin expansion => 0)))

end Arrays

inductive Cls where
  | ne0Read
  | ne0Write
  | ne1
  | norm
  | unchanged
deriving DecidableEq,Repr

-- The tables of names a rewriter keeps.
structure Tables where
  ne0Read : List String
  ne0Write : List String
  ne1 : List String
  norm : List String
  perBlockFusionMap : List (String × List String)
  globalFusionMap : List (String × List String)
  postNormNames : List String

def classify (tables : Tables) (name : TensorName) : Cls :=
  if name.stripped ∈ tables.ne0Read then .ne0Read
  else if name.stripped ∈ tables.ne0Write then .ne0Write
  else if name.stripped ∈ tables.ne1 then .ne1
  else if name.stripped ∈ tables.norm then .norm
  else .unchanged

-- The metadata that the rewriters or the model read. The library refuses a file with one
-- name twice.
structure Gguf (F : Type) where
  architecture : String
  embeddingLength : Nat
  blockCount : Nat
  headCount : Nat
  headCountKv : Nat
  keyLength : Nat
  layerNormRmsEpsilon : F
  ropeFreqBase : F
  tensors : List (TensorName × Tensor F)

abbrev Arrays (F : Type) : Type := TensorName → Option (Tensor F)

def Gguf.arrays {F : Type} (file : Gguf F) : Arrays F := fun name => file.tensors.lookup name

-- The norms and the linears they are fused into, in the order of the loops.
def fusionTargets (block : Option Nat) (map : List (String × List String)) : List (TensorName × TensorName) :=
  map.flatMap fun entry => entry.2.map fun target => (⟨block,entry.1⟩,⟨block,target⟩)

def fusionSites (tables : Tables) (nLayer : Nat) : List (TensorName × TensorName) :=
  (List.range nLayer).flatMap (fun il => fusionTargets (some il) tables.perBlockFusionMap) ++ fusionTargets none tables.globalFusionMap

section Passes
variable {F : Type}

def fuseSite (fuse : Tensor F → Tensor F → Except String (Tensor F)) (arrays : Arrays F) (site : TensorName × TensorName) : Except String (Arrays F) :=
  match arrays site.1,arrays site.2 with
  | some gamma,some linear => do
    let fused ← fuse linear gamma
    .ok (Function.update arrays site.2 (some fused))
  | _,_ => .ok arrays

def fuseAll (fuse : Tensor F → Tensor F → Except String (Tensor F)) : List (TensorName × TensorName) → Arrays F → Except String (Arrays F)
  | [],arrays => .ok arrays
  | site :: sites,arrays => do
    let arrays ← fuseSite fuse arrays site
    fuseAll fuse sites arrays

def writeAll (transformed : TensorName → Tensor F → Except String (Tensor F)) (arrays : Arrays F) : List TensorName → Except String (List (TensorName × Tensor F))
  | [] => .ok []
  | name :: order =>
    match arrays name with
    | none => writeAll transformed arrays order
    | some arr => do
      let out ← transformed name arr
      let written ← writeAll transformed arrays order
      .ok ((name,out) :: written)

theorem writeAll_lookup {transformed : TensorName → Tensor F → Except String (Tensor F)} {arrays : Arrays F} {order : List TensorName}
    {tensors : List (TensorName × Tensor F)} {name : TensorName} {arr : Tensor F} (wrote : writeAll transformed arrays order = .ok tensors)
    (listed : name ∈ order) (held : arrays name = some arr) : ∃ out, transformed name arr = .ok out ∧ tensors.lookup name = some out := by
  induction order generalizing tensors with
  | nil => cases listed
  | cons first order ih =>
      rw [writeAll] at wrote
      by_cases here : name = first
      · subst here
        rw [held] at wrote
        obtain ⟨out,ran,wrote⟩ := except_bind_ok.mp wrote
        obtain ⟨written,_,wrote⟩ := except_bind_ok.mp wrote
        cases wrote
        exact ⟨out,ran,by rw [List.lookup_cons,beq_self_eq_true]⟩
      · have later := (List.mem_cons.mp listed).resolve_left here
        cases is : arrays first with
        | none =>
            rw [is] at wrote
            exact ih wrote later
        | some arr' =>
            rw [is] at wrote
            obtain ⟨_,_,wrote⟩ := except_bind_ok.mp wrote
            obtain ⟨written,rest,wrote⟩ := except_bind_ok.mp wrote
            cases wrote
            obtain ⟨out,ran,found⟩ := ih rest later
            exact ⟨out,ran,by rw [List.lookup_cons,beq_false_of_ne here]; exact found⟩

theorem writeAll_from {transformed : TensorName → Tensor F → Except String (Tensor F)} {arrays : Arrays F} {order : List TensorName}
    {tensors : List (TensorName × Tensor F)} {name : TensorName} {out : Tensor F} (wrote : writeAll transformed arrays order = .ok tensors)
    (held : tensors.lookup name = some out) : ∃ arr, arrays name = some arr ∧ transformed name arr = .ok out := by
  induction order generalizing tensors with
  | nil =>
      cases wrote
      cases held
  | cons first order ih =>
      rw [writeAll] at wrote
      cases is : arrays first with
      | none =>
          rw [is] at wrote
          exact ih wrote held
      | some arr =>
          rw [is] at wrote
          obtain ⟨out',ran,wrote⟩ := except_bind_ok.mp wrote
          obtain ⟨written,rest,wrote⟩ := except_bind_ok.mp wrote
          cases wrote
          by_cases here : name = first
          · subst here
            rw [List.lookup_cons,beq_self_eq_true] at held
            cases held
            exact ⟨arr,is,ran⟩
          · rw [List.lookup_cons,beq_false_of_ne here] at held
            exact ih rest held

theorem writeAll_ok {transformed : TensorName → Tensor F → Except String (Tensor F)} {arrays : Arrays F} {order : List TensorName}
    (each : ∀ name arr, name ∈ order → arrays name = some arr → ∃ out, transformed name arr = .ok out) :
    ∃ tensors, writeAll transformed arrays order = .ok tensors := by
  induction order with
  | nil => exact ⟨[],rfl⟩
  | cons first order ih =>
      obtain ⟨tensors,rest⟩ := ih fun name arr listed => each name arr (List.mem_cons_of_mem _ listed)
      rw [writeAll]
      cases is : arrays first with
      | none => exact ⟨tensors,rest⟩
      | some arr =>
          obtain ⟨out,ran⟩ := each first arr List.mem_cons_self is
          refine ⟨(first,out) :: tensors,?_⟩
          dsimp only
          rw [ran,rest]
          rfl

variable {fuse : Tensor F → Tensor F → Except String (Tensor F)} {arrays arrays' : Arrays F}

theorem fuseSite_ok {site : TensorName × TensorName} (ran : fuseSite fuse arrays site = .ok arrays') :
    (∀ name, name ≠ site.2 → arrays' name = arrays name) ∧
      ∀ gamma linear, arrays site.1 = some gamma → arrays site.2 = some linear → ∃ fused, fuse linear gamma = .ok fused ∧ arrays' site.2 = some fused := by
  unfold fuseSite at ran
  split at ran
  · rename_i gamma linear norm target
    obtain ⟨fused,did,ran⟩ := except_bind_ok.mp ran
    cases ran
    refine ⟨fun name other => Function.update_of_ne other _ _,fun gamma' linear' norm' target' => ?_⟩
    rw [norm,Option.some.injEq] at norm'
    rw [target,Option.some.injEq] at target'
    subst norm' target'
    exact ⟨fused,did,Function.update_self ..⟩
  · rename_i absent
    cases ran
    exact ⟨fun _ _ => rfl,fun gamma linear norm target => absurd target (absent gamma linear norm)⟩

-- No linear is fused twice, and no norm is a linear that is fused.
structure Apart (sites : List (TensorName × TensorName)) : Prop where
  once : (sites.map Prod.snd).Nodup
  norms : ∀ site ∈ sites, ∀ site' ∈ sites, site.1 ≠ site'.2

theorem fuseAll_ok {sites : List (TensorName × TensorName)} (apart : Apart sites) (ran : fuseAll fuse sites arrays = .ok arrays') :
    (∀ name, name ∉ sites.map Prod.snd → arrays' name = arrays name) ∧
      ∀ site ∈ sites, ∀ gamma linear, arrays site.1 = some gamma → arrays site.2 = some linear →
        ∃ fused, fuse linear gamma = .ok fused ∧ arrays' site.2 = some fused := by
  induction sites generalizing arrays with
  | nil =>
      cases ran
      exact ⟨fun _ _ => rfl,nofun⟩
  | cons first sites ih =>
      obtain ⟨middle,here,ran⟩ := except_bind_ok.mp ran
      obtain ⟨kept,fused⟩ := fuseSite_ok here
      obtain ⟨only,once⟩ := List.nodup_cons.mp apart.once
      obtain ⟨kept',fused'⟩ := ih ⟨once,fun site in_ site' in_' => apart.norms site (List.mem_cons_of_mem _ in_) site' (List.mem_cons_of_mem _ in_')⟩ ran
      refine ⟨fun name absent => ?_,fun site in_ gamma linear norm target => ?_⟩
      · rw [List.map_cons,List.mem_cons,not_or] at absent
        rw [kept' name absent.2,kept name absent.1]
      · rcases List.mem_cons.mp in_ with rfl | later
        · obtain ⟨out,did,is⟩ := fused gamma linear norm target
          exact ⟨out,did,by rw [kept' _ only]; exact is⟩
        · refine fused' site later gamma linear ?_ ?_
          · rw [kept _ (apart.norms site in_ first List.mem_cons_self)]
            exact norm
          · rw [kept _ fun same => only (same ▸ List.mem_map_of_mem later)]
            exact target

end Passes

section Sites
variable {map : List (String × List String)} {block : Option Nat} {tables : Tables} {site : TensorName × TensorName}

theorem mem_fusionTargets : site ∈ fusionTargets block map ↔ ∃ norm targets target, (norm,targets) ∈ map ∧ target ∈ targets ∧ site = (⟨block,norm⟩,⟨block,target⟩) := by
  simp only [fusionTargets,List.mem_flatMap,List.mem_map,Prod.exists]
  constructor
  · rintro ⟨norm,targets,entry,target,in_,rfl⟩
    exact ⟨norm,targets,target,entry,in_,rfl⟩
  · rintro ⟨norm,targets,target,entry,in_,rfl⟩
    exact ⟨norm,targets,entry,target,in_,rfl⟩

theorem fusionTargets_targets (block : Option Nat) (map : List (String × List String)) :
    (fusionTargets block map).map Prod.snd = (map.flatMap Prod.snd).map (TensorName.mk block) := by
  simp only [fusionTargets,List.map_flatMap,List.map_map]
  rfl

-- A map that lists no linear twice and no norm as a linear.
def Separate (map : List (String × List String)) : Prop :=
  (map.flatMap Prod.snd).Nodup ∧ ∀ norm ∈ map.map Prod.fst, norm ∉ map.flatMap Prod.snd

theorem fusionSites_apart (perBlock : Separate tables.perBlockFusionMap) (global : Separate tables.globalFusionMap) (nLayer : Nat) :
    Apart (fusionSites tables nLayer) := by
  have injective : ∀ block, Function.Injective (TensorName.mk block) := fun block a b same => (TensorName.mk.inj same).2
  have inside : ∀ {site : TensorName × TensorName}, site ∈ fusionSites tables nLayer →
      ∃ block map norm targets target, Separate map ∧ (block = none → map = tables.globalFusionMap) ∧ (block ≠ none → map = tables.perBlockFusionMap) ∧
        (norm,targets) ∈ map ∧ target ∈ targets ∧ site = (⟨block,norm⟩,⟨block,target⟩) := by
    intro site in_
    rcases List.mem_append.mp in_ with in_ | in_
    · obtain ⟨il,_,in_⟩ := List.mem_flatMap.mp in_
      obtain ⟨norm,targets,target,entry,in_,is⟩ := mem_fusionTargets.mp in_
      exact ⟨some il,_,norm,targets,target,perBlock,nofun,fun _ => rfl,entry,in_,is⟩
    · obtain ⟨norm,targets,target,entry,in_,is⟩ := mem_fusionTargets.mp in_
      exact ⟨none,_,norm,targets,target,global,fun _ => rfl,fun other => absurd rfl other,entry,in_,is⟩
  refine ⟨?_,fun site in_ site' in_' same => ?_⟩
  · rw [fusionSites,List.map_append,List.map_flatMap,fusionTargets_targets]
    simp only [fusionTargets_targets]
    refine List.nodup_append.mpr ⟨List.nodup_flatMap.mpr ⟨fun il _ => perBlock.1.map (injective _),?_⟩,global.1.map (injective _),?_⟩
    · refine List.nodup_range.imp fun {il il'} other name in_ in_' => ?_
      obtain ⟨_,_,rfl⟩ := List.mem_map.mp in_
      obtain ⟨_,_,is⟩ := List.mem_map.mp in_'
      exact other (Option.some.inj (TensorName.mk.inj is).1.symm)
    · rintro name in_ name' in_' rfl
      obtain ⟨il,_,in_⟩ := List.mem_flatMap.mp in_
      obtain ⟨_,_,rfl⟩ := List.mem_map.mp in_
      obtain ⟨_,_,is⟩ := List.mem_map.mp in_'
      cases (TensorName.mk.inj is).1
  · obtain ⟨block,map,norm,targets,target,separate,whole,perBlock,entry,_,rfl⟩ := inside in_
    obtain ⟨block',map',norm',targets',target',_,whole',perBlock',entry',among,rfl⟩ := inside in_'
    obtain ⟨rfl,rfl⟩ := TensorName.mk.inj same
    have same' : map' = map := by
      by_cases none_ : block = none
      · rw [whole none_,whole' none_]
      · rw [perBlock none_,perBlock' none_]
    subst same'
    exact separate.2 norm (List.mem_map_of_mem entry) (List.mem_flatMap.mpr ⟨_,entry',among⟩)

end Sites
end Aloepri
