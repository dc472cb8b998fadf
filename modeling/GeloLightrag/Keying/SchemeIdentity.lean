import GeloLightrag.Foundation.Digest
import GeloLightrag.Foundation.Text

namespace Keying
open Foundation

-- A float of which only its IEEE 754 bits are read here.
structure F32 where
  toBits : UInt32
deriving DecidableEq,Repr

structure SchemeParams where
  scale : F32
  beta : F32
deriving DecidableEq,Repr

inductive HnswNeighbourHeuristic where
  | algorithm4
  | simple
deriving DecidableEq,Repr

structure CompassParams where
  ringOramZ : UInt32
  ringOramS : UInt32
  ringOramA : UInt32
  blockBytes : UInt32
  hnswM : UInt32
  hnswEf : UInt32
  hnswEfSpec : UInt32
  hnswEfN : UInt32
  treetopLevels : UInt32
  directionalHintBits : UInt8
  hnswML0 : UInt32
  hnswMUpper : UInt32
  hnswEfConstruction : UInt32
  hnswMlBits : UInt32
  hnswNeighbourHeuristic : HnswNeighbourHeuristic
  hnswBuildSeed : {seed : Bytes // seed.length = 32}
deriving DecidableEq,Repr

structure XorMmParams where
  volumeBound : UInt32
  stashSize : UInt32
deriving DecidableEq,Repr

structure LightRagParams where
  topK : UInt32
  chunkTopK : UInt32
  maxEntityTokens : UInt32
  maxRelationTokens : UInt32
  maxTotalTokens : UInt32
  searchPerturbEpsilon : F32
deriving DecidableEq,Repr

structure SchemeParamsV2 where
  caprise : SchemeParams
  compass : CompassParams
  xormm : XorMmParams
  lightrag : LightRagParams
deriving DecidableEq,Repr

structure HkdfPolicy where
  version : String
  capriseInfo : String
  aesInfo : String
  saltLabel : String

structure HkdfPolicyV2 where
  version : String
  capriseInfo : String
  aesInfo : String
  oramEntitiesInfo : String
  oramRelationsInfo : String
  oramChunksInfo : String
  emmAdjacencyInfo : String
  emmSrcChunksInfo : String
  searchPatternInfo : String
  saltLabel : String

def HkdfPolicy.v1 : HkdfPolicy where
  version := "gelo-rag.v1"
  capriseInfo := "gelo-rag.v1.caprise.seed"
  aesInfo := "gelo-rag.v1.aes-chunks"
  saltLabel := "tenant_id"

def HkdfPolicyV2.v2 : HkdfPolicyV2 where
  version := "gelo-rag.v2"
  capriseInfo := "gelo-rag.v2.caprise.seed"
  aesInfo := "gelo-rag.v2.aes-chunks"
  oramEntitiesInfo := "gelo-rag.v2.oram-entities"
  oramRelationsInfo := "gelo-rag.v2.oram-relations"
  oramChunksInfo := "gelo-rag.v2.oram-chunks"
  emmAdjacencyInfo := "gelo-rag.v2.emm-adjacency"
  emmSrcChunksInfo := "gelo-rag.v2.emm-src-chunks"
  searchPatternInfo := "gelo-rag.v2.search-pattern"
  saltLabel := "tenant_id"

def HnswNeighbourHeuristic.name : HnswNeighbourHeuristic → Bytes
  | .algorithm4 => ascii "algorithm4"
  | .simple => ascii "simple"

def hexBytes (bytes : Bytes) : Bytes := bytes.flatMap fun b => hexFixed 2 b.toNat

-- The lines both encoders write alike.
def SchemeParams.lines (params : SchemeParams) : List (Bytes × Bytes) :=
  [(ascii "caprise-scale-bits=0x",hexFixed 8 params.scale.toBits.toNat),
    (ascii "caprise-beta-bits=0x",hexFixed 8 params.beta.toBits.toNat)]

def CompassParams.lines (c : CompassParams) : List (Bytes × Bytes) :=
  [(ascii "compass-z=",decimal c.ringOramZ.toNat),
    (ascii "compass-s=",decimal c.ringOramS.toNat),
    (ascii "compass-a=",decimal c.ringOramA.toNat),
    (ascii "compass-block-bytes=",decimal c.blockBytes.toNat),
    (ascii "compass-hnsw-m=",decimal c.hnswM.toNat),
    (ascii "compass-hnsw-ef=",decimal c.hnswEf.toNat),
    (ascii "compass-hnsw-ef-spec=",decimal c.hnswEfSpec.toNat),
    (ascii "compass-hnsw-ef-n=",decimal c.hnswEfN.toNat),
    (ascii "compass-treetop-levels=",decimal c.treetopLevels.toNat),
    (ascii "compass-hint-bits=",decimal c.directionalHintBits.toNat),
    (ascii "compass-hnsw-m-l0=",decimal c.hnswML0.toNat),
    (ascii "compass-hnsw-m-upper=",decimal c.hnswMUpper.toNat),
    (ascii "compass-hnsw-ef-construction=",decimal c.hnswEfConstruction.toNat),
    (ascii "compass-hnsw-ml-bits=0x",hexFixed 8 c.hnswMlBits.toNat),
    (ascii "compass-hnsw-neighbour-heuristic=",c.hnswNeighbourHeuristic.name),
    (ascii "compass-hnsw-build-seed=",hexBytes c.hnswBuildSeed)]

def XorMmParams.lines (x : XorMmParams) : List (Bytes × Bytes) :=
  [(ascii "xormm-volume-bound=",decimal x.volumeBound.toNat),(ascii "xormm-stash-size=",decimal x.stashSize.toNat)]

def LightRagParams.lines (l : LightRagParams) : List (Bytes × Bytes) :=
  [(ascii "lightrag-top-k=",decimal l.topK.toNat),
    (ascii "lightrag-chunk-top-k=",decimal l.chunkTopK.toNat),
    (ascii "lightrag-max-entity-tokens=",decimal l.maxEntityTokens.toNat),
    (ascii "lightrag-max-relation-tokens=",decimal l.maxRelationTokens.toNat),
    (ascii "lightrag-max-total-tokens=",decimal l.maxTotalTokens.toNat),
    (ascii "lightrag-search-eps-bits=0x",hexFixed 8 l.searchPerturbEpsilon.toBits.toNat)]

def SchemeParamsV2.lines (params : SchemeParamsV2) : List (Bytes × Bytes) :=
  params.caprise.lines ++ params.compass.lines ++ params.xormm.lines ++ params.lightrag.lines

def HkdfPolicy.schemeIdentityFragment (policy : HkdfPolicy) (params : SchemeParams) : Bytes :=
  line ([],utf8 policy.version) ++ line ([],ascii "kdf=hkdf-sha256") ++
    line (ascii "kdf-info-caprise=",utf8 policy.capriseInfo) ++ line (ascii "kdf-info-aes=",utf8 policy.aesInfo) ++
    line (ascii "kdf-salt=",utf8 policy.saltLabel) ++ params.lines.flatMap line

-- What the policy itself contributes: its version and one line for each child key.
def HkdfPolicyV2.header (policy : HkdfPolicyV2) : Bytes :=
  line ([],utf8 policy.version) ++ line ([],ascii "kdf=hkdf-sha256") ++
    [("caprise",policy.capriseInfo),("aes",policy.aesInfo),("oram-entities",policy.oramEntitiesInfo),
      ("oram-relations",policy.oramRelationsInfo),("oram-chunks",policy.oramChunksInfo),
      ("emm-adjacency",policy.emmAdjacencyInfo),("emm-src-chunks",policy.emmSrcChunksInfo),
      ("search-pattern",policy.searchPatternInfo)].flatMap
        (fun entry => line (ascii "kdf-info-" ++ ascii entry.1 ++ ascii "=",utf8 entry.2)) ++
    line (ascii "kdf-salt=",utf8 policy.saltLabel)

def HkdfPolicyV2.schemeIdentityFragment (policy : HkdfPolicyV2) (params : SchemeParamsV2) : Bytes :=
  policy.header ++ params.lines.flatMap line

def HkdfPolicyV2.schemeIdentityDigest [Sha256] (policy : HkdfPolicyV2) (params : SchemeParamsV2) : Bytes :=
  Sha256.digest (policy.schemeIdentityFragment params)

@[simp] theorem word_eq (a b : UInt32) : decimal a.toNat = decimal b.toNat ↔ a = b :=
  ⟨fun same => UInt32.toNat_inj.mp (decimal_injective same),fun same => by rw [same]⟩

@[simp] theorem byte_eq (a b : UInt8) : decimal a.toNat = decimal b.toNat ↔ a = b :=
  ⟨fun same => UInt8.toNat_inj.mp (decimal_injective same),fun same => by rw [same]⟩

@[simp] theorem bits_eq (a b : UInt32) : hexFixed 8 a.toNat = hexFixed 8 b.toNat ↔ a = b := by
  refine ⟨fun same => UInt32.toNat_inj.mp (hexFixed_injective ?_ ?_ same),fun same => by rw [same]⟩
  · exact a.toNat_lt
  · exact b.toNat_lt

@[simp] theorem heuristic_eq (a b : HnswNeighbourHeuristic) : a.name = b.name ↔ a = b := by
  cases a <;> cases b <;> decide

@[simp] theorem hexBytes_eq (a b : Bytes) : hexBytes a = hexBytes b ↔ a = b := by
  refine ⟨fun same => ?_,fun same => by rw [same]⟩
  induction a generalizing b with
  | nil =>
      cases b with
      | nil => rfl
      | cons y ys =>
          have lengths := congrArg List.length same
          simp [hexBytes] at lengths
          omega
  | cons x xs ih =>
      cases b with
      | nil =>
          have lengths := congrArg List.length same
          simp [hexBytes] at lengths
      | cons y ys =>
          simp only [hexBytes,List.flatMap_cons] at same
          obtain ⟨first,rest⟩ := List.append_inj same (by simp)
          have byte := hexFixed_injective (show x.toNat < 16 ^ 2 from x.toNat_lt) y.toNat_lt first
          rw [UInt8.toNat_inj.mp byte,ih ys rest]

theorem hexBytes_oneLine (bytes : Bytes) : OneLine (hexBytes bytes) := by
  intro member
  obtain ⟨b,_,inside⟩ := List.mem_flatMap.mp member
  exact hexFixed_oneLine 2 b.toNat inside

theorem name_oneLine (heuristic : HnswNeighbourHeuristic) : OneLine heuristic.name := by
  unfold OneLine
  cases heuristic <;> decide

theorem lines_oneLine (params : SchemeParamsV2) : ∀ field ∈ params.lines, OneLine field.2 := by
  simp [SchemeParamsV2.lines,SchemeParams.lines,CompassParams.lines,XorMmParams.lines,LightRagParams.lines,decimal_oneLine,
    hexFixed_oneLine,hexBytes_oneLine,name_oneLine]

theorem lines_labels (p q : SchemeParamsV2) : p.lines.map Prod.fst = q.lines.map Prod.fst := rfl

-- Every field has its line, and its value can be read off it.
theorem SchemeParamsV2.lines_injective {p q : SchemeParamsV2} (same : p.lines = q.lines) : p = q := by
  obtain ⟨⟨⟨scale⟩,⟨beta⟩⟩,compass,xormm,lightrag⟩ := p
  obtain ⟨⟨⟨scale'⟩,⟨beta'⟩⟩,compass',xormm',lightrag'⟩ := q
  obtain ⟨topK,chunkTopK,entity,relation,total,⟨epsilon⟩⟩ := lightrag
  obtain ⟨topK',chunkTopK',entity',relation',total',⟨epsilon'⟩⟩ := lightrag'
  simp only [lines,SchemeParams.lines,CompassParams.lines,XorMmParams.lines,LightRagParams.lines,List.cons_append,
    List.nil_append,List.cons.injEq,Prod.mk.injEq,true_and,and_true,word_eq,byte_eq,bits_eq,heuristic_eq,hexBytes_eq] at same
  cases compass
  cases compass'
  cases xormm
  cases xormm'
  simp_all [Subtype.ext_iff]

theorem ends_in_line (before : Bytes) (fields : List (Bytes × Bytes)) (last : fields = fields.dropLast ++ [(a ++ b,value)]) :
    before ++ fields.flatMap line = (before ++ fields.dropLast.flatMap line ++ a) ++ (b ++ value ++ [newline]) := by
  rw [last]
  simp [line]

-- Both encoders end in a line of eight digits; the byte before "-bits=0x" of its
-- label tells them apart.
theorem versions_apart (policy : HkdfPolicyV2) (params : SchemeParamsV2) (old : HkdfPolicy) (oldParams : SchemeParams) :
    policy.schemeIdentityFragment params ≠ old.schemeIdentityFragment oldParams := by
  intro same
  unfold HkdfPolicyV2.schemeIdentityFragment HkdfPolicy.schemeIdentityFragment at same
  have label : ascii "lightrag-search-eps-bits=0x" = ascii "lightrag-search-ep" ++ ascii "s-bits=0x" := by decide
  have label' : ascii "caprise-beta-bits=0x" = ascii "caprise-bet" ++ ascii "a-bits=0x" := by decide
  rw [ends_in_line _ params.lines (by rw [←label]; rfl),
    ends_in_line _ oldParams.lines (by rw [←label']; rfl)] at same
  have tails := (List.append_inj' same (by simp [ascii])).2
  rw [List.append_assoc,List.append_assoc] at tails
  have labels := (List.append_inj tails (by simp [ascii])).1
  exact absurd labels (by decide)

-- Any change of any parameter changes the fragment, and no fragment is one of the
-- earlier version's.
theorem scheme_identity_injective (policy : HkdfPolicyV2) : Function.Injective policy.schemeIdentityFragment ∧
    ∀ params (old : HkdfPolicy) oldParams, policy.schemeIdentityFragment params ≠ old.schemeIdentityFragment oldParams := by
  refine ⟨fun p q same => ?_,fun params old oldParams => versions_apart policy params old oldParams⟩
  have fields := List.append_cancel_left same
  exact SchemeParamsV2.lines_injective (lines_injective (lines_labels p q) (lines_oneLine p) (lines_oneLine q) fields)

end Keying
