import GeloLightrag.Foundation.Hkdf
import GeloLightrag.Keying.TwoPartyKdf
import Mathlib.Data.List.Nodup

namespace Keying
open Foundation

-- The eight child keys and the texts they are expanded under, in one order.
def DerivedKeysV2.children (keys : DerivedKeysV2) : List Bytes :=
  [keys.capriseSeed,keys.aesChunkKey,keys.oramEntitiesKey,keys.oramRelationsKey,keys.oramChunksKey,keys.emmAdjacencyKey,
    keys.emmSrcChunksKey,keys.searchPatternKey]

def HkdfPolicyV2.infos (policy : HkdfPolicyV2) : List String :=
  [policy.capriseInfo,policy.aesInfo,policy.oramEntitiesInfo,policy.oramRelationsInfo,policy.oramChunksInfo,
    policy.emmAdjacencyInfo,policy.emmSrcChunksInfo,policy.searchPatternInfo]

def HkdfPolicy.infos (policy : HkdfPolicy) : List String := [policy.capriseInfo,policy.aesInfo]

section Separation
variable [Sha256] (userXSk teeUserXSk : Bytes)

local instance standardHkdf : HkdfSha256 := .standard

def childKeys (tenantId : String) : List Bytes := (HkdfPolicyV2.v2.derive userXSk teeUserXSk tenantId).children
def olderKeys (tenantId : String) : Bytes × Bytes := HkdfPolicy.v1.derive userXSk teeUserXSk tenantId

-- What deriving the keys of both versions for a tenant asks of HMAC.
def hmacCalls (tenantId : String) : List (Bytes × Bytes) :=
  (utf8 tenantId,userXSk ++ teeUserXSk) :: (HkdfPolicyV2.v2.infos ++ HkdfPolicy.v1.infos).map fun info =>
    (extract (utf8 tenantId) (userXSk ++ teeUserXSk),utf8 info ++ [1])

-- Different tenants share no child key.
def TenantsApart (a b : String) : Prop :=
  a ≠ b → List.Forall₂ (· ≠ ·) (childKeys userXSk teeUserXSk a) (childKeys userXSk teeUserXSk b)

-- No two children are one, and no child is a key of the earlier version.
def ChildrenApart (tenantId : String) : Prop :=
  (childKeys userXSk teeUserXSk tenantId).Nodup ∧ ∀ key ∈ childKeys userXSk teeUserXSk tenantId,
    key ≠ (olderKeys userXSk teeUserXSk tenantId).1 ∧ key ≠ (olderKeys userXSk teeUserXSk tenantId).2

theorem infos_distinct : ((HkdfPolicyV2.v2.infos ++ HkdfPolicy.v1.infos).map fun info => utf8 info ++ [1]).Nodup := by
  decide +kernel

variable {userXSk teeUserXSk} (hashed : ∀ message, (Sha256.digest message).length = digestLength)

theorem tenant_called {tenantId : String} : (utf8 tenantId,userXSk ++ teeUserXSk) ∈ hmacCalls userXSk teeUserXSk tenantId :=
  List.mem_cons_self

theorem info_called {tenantId : String} (listed : info ∈ HkdfPolicyV2.v2.infos ++ HkdfPolicy.v1.infos) :
    (extract (utf8 tenantId) (userXSk ++ teeUserXSk),utf8 info ++ [1]) ∈ hmacCalls userXSk teeUserXSk tenantId :=
  List.mem_cons_of_mem _ (List.mem_map_of_mem listed)

include hashed

-- A child key is one HMAC of its info under what the tenant's id extracts.
theorem childKeys_expanded (tenantId : String) : childKeys userXSk teeUserXSk tenantId =
    HkdfPolicyV2.v2.infos.map fun info => hmac (extract (utf8 tenantId) (userXSk ++ teeUserXSk)) (utf8 info ++ [1]) := by
  have blocks := fun info : String => expand_block hashed (extract (utf8 tenantId) (userXSk ++ teeUserXSk)) (utf8 info)
  calc childKeys userXSk teeUserXSk tenantId
      = HkdfPolicyV2.v2.infos.map fun info => expand (extract (utf8 tenantId) (userXSk ++ teeUserXSk)) (utf8 info) digestLength := rfl
    _ = _ := List.map_congr_left fun info _ => blocks info

theorem olderKeys_expanded (tenantId : String) : [(olderKeys userXSk teeUserXSk tenantId).1,(olderKeys userXSk teeUserXSk tenantId).2] =
    HkdfPolicy.v1.infos.map fun info => hmac (extract (utf8 tenantId) (userXSk ++ teeUserXSk)) (utf8 info ++ [1]) := by
  have blocks := fun info : String => expand_block hashed (extract (utf8 tenantId) (userXSk ++ teeUserXSk)) (utf8 info)
  calc [(olderKeys userXSk teeUserXSk tenantId).1,(olderKeys userXSk teeUserXSk tenantId).2]
      = HkdfPolicy.v1.infos.map fun info => expand (extract (utf8 tenantId) (userXSk ++ teeUserXSk)) (utf8 info) digestLength := rfl
    _ = _ := List.map_congr_left fun info _ => blocks info

-- Under one tenant the infos alone tell the keys of both versions apart.
theorem children_apart {tenantId : String} (free : CollisionFree (hmacCalls userXSk teeUserXSk tenantId)) :
    ChildrenApart userXSk teeUserXSk tenantId := by
  have all : (childKeys userXSk teeUserXSk tenantId ++
      [(olderKeys userXSk teeUserXSk tenantId).1,(olderKeys userXSk teeUserXSk tenantId).2]).Nodup := by
    rw [childKeys_expanded hashed,olderKeys_expanded hashed,←List.map_append]
    refine List.Nodup.map_on (fun x inX y inY same => ?_) (List.Nodup.of_map _ infos_distinct)
    have messages := (free _ (info_called inX) _ (info_called inY) same).2
    exact List.inj_on_of_nodup_map infos_distinct inX inY messages
  obtain ⟨nodup,_,disjoint⟩ := List.nodup_append.mp all
  exact ⟨nodup,fun key listed => ⟨disjoint key listed _ (by simp),disjoint key listed _ (by simp)⟩⟩

-- A child two tenants share goes back to one block that both ids fill up to.
theorem shared_child {a b : String} (free : CollisionFree (hmacCalls userXSk teeUserXSk a ++ hmacCalls userXSk teeUserXSk b))
    (listed : info ∈ HkdfPolicyV2.v2.infos)
    (same : hmac (extract (utf8 a) (userXSk ++ teeUserXSk)) (utf8 info ++ [1]) = hmac (extract (utf8 b) (userXSk ++ teeUserXSk)) (utf8 info ++ [1])) :
    blockKey (utf8 a) = blockKey (utf8 b) := by
  have under := List.mem_append_left HkdfPolicy.v1.infos listed
  have prks := (free _ (List.mem_append_left _ (info_called under)) _ (List.mem_append_right _ (info_called under)) same).1
  have extracted := blockKey_hmac hashed prks
  exact (free _ (List.mem_append_left _ tenant_called) _ (List.mem_append_right _ tenant_called) extracted).1

theorem tenants_apart_iff {a b : String} (short : (utf8 a).length ≤ blockLength) (short' : (utf8 b).length ≤ blockLength)
    (free : CollisionFree (hmacCalls userXSk teeUserXSk a ++ hmacCalls userXSk teeUserXSk b)) :
    TenantsApart userXSk teeUserXSk a b ↔ (a ≠ b → stripped (utf8 a) ≠ stripped (utf8 b)) := by
  unfold TenantsApart
  rw [childKeys_expanded hashed,childKeys_expanded hashed,List.forall₂_map_left_iff,List.forall₂_map_right_iff,List.forall₂_same]
  refine imp_congr_right fun _ => ⟨fun apart same => ?_,fun apart info listed same => ?_⟩
  · have filled := (blockKey_eq_iff short short').mpr same
    exact apart HkdfPolicyV2.v2.capriseInfo (by decide) (by rw [extract,extract,hmac_blockKey filled])
  · exact apart ((blockKey_eq_iff short short').mp (shared_child hashed free listed same))

-- The id enters as a MAC's key, which is filled up with zeros: two tenants are kept
-- apart exactly when their ids differ in more than zeros at their ends.
theorem tenants_separated_iff (a b : String) (short : (utf8 a).length ≤ blockLength) (short' : (utf8 b).length ≤ blockLength)
    (free : CollisionFree (hmacCalls userXSk teeUserXSk a ++ hmacCalls userXSk teeUserXSk b)) :
    (TenantsApart userXSk teeUserXSk a b ∧ ChildrenApart userXSk teeUserXSk a ∧ ChildrenApart userXSk teeUserXSk b) ↔
      (a ≠ b → stripped (utf8 a) ≠ stripped (utf8 b)) := by
  have freeA : CollisionFree (hmacCalls userXSk teeUserXSk a) :=
    fun c inC d inD => free c (List.mem_append_left _ inC) d (List.mem_append_left _ inD)
  have freeB : CollisionFree (hmacCalls userXSk teeUserXSk b) :=
    fun c inC d inD => free c (List.mem_append_right _ inC) d (List.mem_append_right _ inD)
  refine ⟨fun apart => (tenants_apart_iff hashed short short' free).mp apart.1,fun apart => ?_⟩
  exact ⟨(tenants_apart_iff hashed short short' free).mpr apart,children_apart hashed freeA,children_apart hashed freeB⟩

end Separation

section Residues

local instance residueDigests : Sha256 := .residue
local instance residueHkdf : HkdfSha256 := .standard

-- With the id of one tenant followed by a NUL for the other's, both hold the same keys.
theorem nul_padded_tenants_share_keys : "acme" ≠ "acme\x00" ∧
    CollisionFree (hmacCalls (List.replicate 32 17) (List.replicate 32 34) "acme" ++ hmacCalls (List.replicate 32 17) (List.replicate 32 34) "acme\x00") ∧
    HkdfPolicyV2.v2.derive (List.replicate 32 17) (List.replicate 32 34) "acme" =
      HkdfPolicyV2.v2.derive (List.replicate 32 17) (List.replicate 32 34) "acme\x00" := by
  decide +kernel

theorem tenants_separated_iff_two_names : CollisionFree (hmacCalls (List.replicate 32 17) (List.replicate 32 34) "acme" ++
      hmacCalls (List.replicate 32 17) (List.replicate 32 34) "umbrella") ∧
    TenantsApart (List.replicate 32 17) (List.replicate 32 34) "acme" "umbrella" := by
  have free : CollisionFree (hmacCalls (List.replicate 32 17) (List.replicate 32 34) "acme" ++
      hmacCalls (List.replicate 32 17) (List.replicate 32 34) "umbrella") := by decide +kernel
  exact ⟨free,((tenants_separated_iff Sha256.residue_length "acme" "umbrella" (by decide) (by decide) free).mpr (by decide)).1⟩

end Residues

end Keying
