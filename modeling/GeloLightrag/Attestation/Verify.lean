import GeloLightrag.Foundation.Digest

namespace Attestation
open Foundation

-- The 64 bytes that go into the report.
structure ReportData where
  bytes : Bytes
deriving DecidableEq,Repr

def ReportData.build [Sha256] (modelIdentity schemeIdentity : Bytes) (nonce : Option Bytes) : ReportData :=
  let modelHash := Sha256.digest modelIdentity
  -- The hasher is fed one part after the other.
  let schemeHash := Sha256.digest (match nonce with
    | none => schemeIdentity
    | some n => schemeIdentity ++ n)
  ⟨modelHash ++ schemeHash⟩

structure AttestedBinding where
  modelIdentity : Bytes
  schemeIdentity : Bytes
  nonce : Option Bytes
deriving DecidableEq,Repr

-- What the verifier reads of a report.
structure AttestationReport where
  reportData : Bytes
  measurement : Bytes
  policy : UInt64
deriving DecidableEq,Repr

structure SnpRootTrust where
  arkPem : Bytes
  askPem : Bytes
  useMockChain : Bool

inductive SnpVerifyError where
  | reportParse (cause : String)
  | chain (cause : String)
  | reportSignature (cause : String)
  | reportDataMismatch (expected actual : Bytes)
  | measurementMismatch
  | policyMismatch (expected actual : UInt64)
  | vcekExpired (notBefore notAfter now : Int)
  | unsupportedProductionChain
deriving DecidableEq,Repr

-- Reports and certificates are read and checked by other crates; `mock` is the
-- build feature with the test chain.
class Platform (C : outParam Type) where
  mock : Bool
  fromBytes : Bytes → Except String AttestationReport
  fromPem : Bytes → Except String C
  verifySignedBy : C → C → Except String Unit
  validityWindow : C → Int × Int
  verifyReport : Bytes → AttestationReport → Except String Unit

structure SnpAttestationVerifier where
  rootTrust : SnpRootTrust
  expectedMeasurement : Option Bytes
  expectedModelId : Option Bytes
  expectedPolicy : Option UInt64
  clock : Int

section Verifier
variable {C : Type} [Platform C]

def named {α : Type} (context : String) (result : Except String α) : Except String α :=
  result.mapError fun cause => context ++ ": " ++ cause

def parseCertPem (pem : Bytes) : Except String C := named "parsing PEM-encoded certificate" (Platform.fromPem pem)

def verifyMockChain (arkPem askPem vcekPem : Bytes) : Except String C := do
  let ark ← named "parsing ARK" (parseCertPem arkPem)
  let ask ← named "parsing ASK" (parseCertPem askPem)
  let vcek ← named "parsing VCEK" (parseCertPem vcekPem)
  named "ARK self-signature" (Platform.verifySignedBy ark ark)
  named "ARK → ASK" (Platform.verifySignedBy ark ask)
  named "ASK → VCEK" (Platform.verifySignedBy ask vcek)
  return vcek

def SnpAttestationVerifier.validateChainAndWindow (self : SnpAttestationVerifier) (vcekPem : Bytes) : Except SnpVerifyError Unit := do
  if Platform.mock = false ∨ self.rootTrust.useMockChain = false then throw .unsupportedProductionChain
  let vcek ← (verifyMockChain self.rootTrust.arkPem self.rootTrust.askPem vcekPem).mapError .chain
  let (notBefore,notAfter) := Platform.validityWindow vcek
  if self.clock < notBefore ∨ notAfter < self.clock then throw (.vcekExpired notBefore notAfter self.clock)

-- A value that is compared where one is expected.
def pinned {α : Type} [DecidableEq α] (expected : Option α) (actual : α) (mismatch : α → SnpVerifyError) : Except SnpVerifyError Unit :=
  match expected with
  | none => .ok ()
  | some value => if actual = value then .ok () else .error (mismatch value)

def SnpAttestationVerifier.verify [Sha256] (self : SnpAttestationVerifier) (reportBytes vcekPem : Bytes) (binding : AttestedBinding) :
    Except SnpVerifyError AttestationReport := do
  let report ← (Platform.fromBytes reportBytes).mapError .reportParse
  self.validateChainAndWindow vcekPem
  (Platform.verifyReport vcekPem report).mapError .reportSignature
  let expected := ReportData.build binding.modelIdentity binding.schemeIdentity binding.nonce
  let mismatch := SnpVerifyError.reportDataMismatch expected.bytes report.reportData
  pinned (some expected.bytes) report.reportData fun _ => mismatch
  pinned self.expectedMeasurement report.measurement fun _ => .measurementMismatch
  pinned self.expectedPolicy report.policy fun policy => .policyMismatch policy report.policy
  pinned self.expectedModelId (report.reportData.take 32) fun _ => mismatch
  return report

end Verifier

structure SnpEvidence where
  reportBytes : Bytes
  vcekCertPem : Bytes
deriving DecidableEq,Repr

structure AttestationIssuer where
  issue : ReportData → Except String SnpEvidence

-- The engine inside enters no evidence.
structure SnpTrustedExecutor (E : Type) where
  inner : E
  issuer : AttestationIssuer
  modelIdentity : Bytes
  schemeIdentity : Bytes

def SnpTrustedExecutor.evidence {E : Type} [Sha256] (self : SnpTrustedExecutor E) (nonce : Option Bytes) : Except String SnpEvidence :=
  self.issuer.issue (ReportData.build self.modelIdentity self.schemeIdentity nonce)

end Attestation
