import GeloLightrag.Keying.SchemeIdentity

namespace Keying
open Foundation

structure DerivedKeysV2 where
  capriseSeed : Bytes
  aesChunkKey : Bytes
  oramEntitiesKey : Bytes
  oramRelationsKey : Bytes
  oramChunksKey : Bytes
  emmAdjacencyKey : Bytes
  emmSrcChunksKey : Bytes
  searchPatternKey : Bytes
deriving DecidableEq,Repr

-- One extract under the tenant's id over both parties' secrets, one expand for
-- each child key.
def HkdfPolicyV2.derive [HkdfSha256] (policy : HkdfPolicyV2) (userXSk teeUserXSk : Bytes) (tenantId : String) : DerivedKeysV2 :=
  let expand := fun info : String => HkdfSha256.derive (utf8 tenantId) (userXSk ++ teeUserXSk) (utf8 info) 32
  {
    capriseSeed := expand policy.capriseInfo
    aesChunkKey := expand policy.aesInfo
    oramEntitiesKey := expand policy.oramEntitiesInfo
    oramRelationsKey := expand policy.oramRelationsInfo
    oramChunksKey := expand policy.oramChunksInfo
    emmAdjacencyKey := expand policy.emmAdjacencyInfo
    emmSrcChunksKey := expand policy.emmSrcChunksInfo
    searchPatternKey := expand policy.searchPatternInfo }

-- The seed of the embedding scheme and the key of the chunk texts.
def HkdfPolicy.derive [HkdfSha256] (policy : HkdfPolicy) (userXSk teeUserXSk : Bytes) (tenantId : String) : Bytes × Bytes :=
  let expand := fun info : String => HkdfSha256.derive (utf8 tenantId) (userXSk ++ teeUserXSk) (utf8 info) 32
  (expand policy.capriseInfo,expand policy.aesInfo)

end Keying
