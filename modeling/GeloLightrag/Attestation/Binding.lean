import GeloLightrag.Attestation.Verify
import GeloLightrag.Foundation.Checked

namespace Attestation
open Foundation

-- What the second half of the report data is the digest of.
def AttestedBinding.challenged (binding : AttestedBinding) : Bytes := binding.schemeIdentity ++ binding.nonce.getD []

-- Bytes of the one's nonce stand at the end of the other's scheme identity.
def Shifted (a b : AttestedBinding) : Prop :=
  ∃ moved ≠ [], b.schemeIdentity = a.schemeIdentity ++ moved ∧ a.nonce = some (moved ++ b.nonce.getD [])

def EmptyNonce (a b : AttestedBinding) : Prop := a.schemeIdentity = b.schemeIdentity ∧ a.nonce = none ∧ b.nonce = some []

-- The two ways in which one string is cut into a scheme identity and a nonce twice.
def Recut (a b : AttestedBinding) : Prop := Shifted a b ∨ Shifted b a ∨ EmptyNonce a b ∨ EmptyNonce b a

theorem Shifted.challenged {a b : AttestedBinding} (shifted : Shifted a b) : a.challenged = b.challenged ∧ a ≠ b := by
  obtain ⟨moved,some_,scheme,nonce⟩ := shifted
  refine ⟨?_,fun same => some_ ?_⟩
  · simp [AttestedBinding.challenged,scheme,nonce]
  · rw [same] at scheme
    exact List.append_cancel_left (scheme.symm.trans (List.append_nil _).symm)

theorem EmptyNonce.challenged {a b : AttestedBinding} (empty : EmptyNonce a b) : a.challenged = b.challenged ∧ a ≠ b := by
  obtain ⟨scheme,none_,some_⟩ := empty
  refine ⟨by simp [AttestedBinding.challenged,scheme,none_,some_],fun same => ?_⟩
  rw [same,some_] at none_
  cases none_

-- What is left over where one scheme identity is a prefix of the other comes from the nonce.
theorem shifted_of_prefix {a b : AttestedBinding} (moved : Bytes) (scheme : b.schemeIdentity = a.schemeIdentity ++ moved)
    (nonces : a.nonce.getD [] = moved ++ b.nonce.getD []) (model : a.modelIdentity = b.modelIdentity) (differ : a ≠ b) : Recut a b := by
  obtain ⟨m,s,n⟩ := a
  obtain ⟨m',s',n'⟩ := b
  dsimp only at scheme nonces model
  subst model scheme
  by_cases none_ : moved = []
  · subst none_
    rw [List.nil_append] at nonces
    rw [List.append_nil] at differ ⊢
    cases n with
    | none => cases n' with
      | none => exact absurd rfl differ
      | some y => exact .inr (.inr (.inl ⟨rfl,rfl,by rw [show y = [] from nonces.symm]⟩))
    | some x => cases n' with
      | none => exact .inr (.inr (.inr ⟨rfl,rfl,by rw [show x = [] from nonces]⟩))
      | some y => exact absurd (by rw [show x = y from nonces]) differ
  · cases n with
    | none => exact absurd (List.append_eq_nil_iff.mp nonces.symm).1 none_
    | some x => exact .inl ⟨moved,none_,rfl,congrArg some nonces⟩

theorem recut_iff {a b : AttestedBinding} (model : a.modelIdentity = b.modelIdentity) :
    Recut a b ↔ a.challenged = b.challenged ∧ a ≠ b := by
  constructor
  · rintro (shifted | shifted | empty | empty)
    · exact shifted.challenged
    · exact ⟨shifted.challenged.1.symm,shifted.challenged.2.symm⟩
    · exact empty.challenged
    · exact ⟨empty.challenged.1.symm,empty.challenged.2.symm⟩
  · rintro ⟨same,differ⟩
    rcases List.append_eq_append_iff.mp same with ⟨moved,scheme,nonces⟩ | ⟨moved,scheme,nonces⟩
    · exact shifted_of_prefix moved scheme nonces model differ
    · rcases shifted_of_prefix moved scheme nonces model.symm differ.symm with shifted | shifted | empty | empty
      · exact .inr (.inl shifted)
      · exact .inl shifted
      · exact .inr (.inr (.inr empty))
      · exact .inr (.inr (.inl empty))

theorem pinned_ok {α : Type} [DecidableEq α] {value actual : α} {mismatch : α → SnpVerifyError}
    (passed : pinned (some value) actual mismatch = .ok ()) : actual = value := by
  simp only [pinned] at passed
  split at passed
  · assumption
  · cases passed

section Report
variable [Sha256]

def AttestedBinding.reportData (binding : AttestedBinding) : ReportData :=
  .build binding.modelIdentity binding.schemeIdentity binding.nonce

-- The issuer's reports, as far as they can be read, carry the data asked for.
def AttestationIssuer.Stamps {C : Type} [Platform C] (issuer : AttestationIssuer) : Prop :=
  ∀ data evidence report, issuer.issue data = .ok evidence → Platform.fromBytes (C:=C) evidence.reportBytes = .ok report →
    report.reportData = data.bytes

-- The two bindings give one report only where they are one, and no verifier takes the
-- evidence of an executor for another binding than the one it was issued for.
def Unambiguous {C : Type} [Platform C] (binding issued : AttestedBinding) : Prop :=
  (binding.reportData = issued.reportData → binding = issued) ∧
    ∀ (E : Type) (self : SnpTrustedExecutor E) (verifier : SnpAttestationVerifier) evidence report,
      self.issuer.Stamps (C:=C) →
      self.modelIdentity = issued.modelIdentity → self.schemeIdentity = issued.schemeIdentity → self.evidence issued.nonce = .ok evidence →
      verifier.verify evidence.reportBytes evidence.vcekCertPem binding = .ok report → binding = issued

theorem reportData_bytes (binding : AttestedBinding) :
    binding.reportData.bytes = Sha256.digest binding.modelIdentity ++ Sha256.digest binding.challenged := by
  obtain ⟨model,scheme,nonce⟩ := binding
  cases nonce <;> simp [AttestedBinding.reportData,AttestedBinding.challenged,ReportData.build]

-- The messages hashed for the two bindings do not collide.
def Distinguished (a b : AttestedBinding) : Prop :=
  ∀ x ∈ [a.modelIdentity,a.challenged,b.modelIdentity,b.challenged], ∀ y ∈ [a.modelIdentity,a.challenged,b.modelIdentity,b.challenged],
    Sha256.digest x = Sha256.digest y → x = y

theorem reportData_eq_iff (hashed : ∀ message, (Sha256.digest message).length = 32) {a b : AttestedBinding} (distinct : Distinguished a b) :
    a.reportData = b.reportData ↔ a.modelIdentity = b.modelIdentity ∧ a.challenged = b.challenged := by
  constructor
  · intro same
    have bytes := congrArg ReportData.bytes same
    rw [reportData_bytes,reportData_bytes] at bytes
    obtain ⟨left,right⟩ := List.append_inj bytes (by rw [hashed,hashed])
    exact ⟨distinct _ (by simp) _ (by simp) left,distinct _ (by simp) _ (by simp) right⟩
  · rintro ⟨models,challenges⟩
    have bytes : a.reportData.bytes = b.reportData.bytes := by rw [reportData_bytes,reportData_bytes,models,challenges]
    cases ra : a.reportData with
    | mk x => cases rb : b.reportData with
      | mk y => rw [ra,rb] at bytes; rw [show x = y from bytes]

section Verifier
variable {C : Type} [Platform C]

-- Whatever else is pinned, an accepted report carries the data of the binding.
theorem verify_data {self : SnpAttestationVerifier} {binding : AttestedBinding}
    (accepted : self.verify reportBytes vcekPem binding = .ok report) :
    Platform.fromBytes (C:=C) reportBytes = .ok report ∧ report.reportData = binding.reportData.bytes := by
  unfold SnpAttestationVerifier.verify at accepted
  obtain ⟨read,parsed,accepted⟩ := except_bind_ok.mp accepted
  obtain ⟨_,_,accepted⟩ := except_bind_ok.mp accepted
  obtain ⟨_,_,accepted⟩ := except_bind_ok.mp accepted
  obtain ⟨_,bound,accepted⟩ := except_bind_ok.mp accepted
  obtain ⟨_,_,accepted⟩ := except_bind_ok.mp accepted
  obtain ⟨_,_,accepted⟩ := except_bind_ok.mp accepted
  obtain ⟨_,_,accepted⟩ := except_bind_ok.mp accepted
  cases accepted
  exact ⟨mapError_ok.mp parsed,pinned_ok bound⟩

-- Evidence is taken under the bindings alone whose data it was issued for.
theorem accepted_data {E : Type} {self : SnpTrustedExecutor E} {verifier : SnpAttestationVerifier} {binding issued : AttestedBinding}
    (stamps : self.issuer.Stamps (C:=C)) (model : self.modelIdentity = issued.modelIdentity)
    (scheme : self.schemeIdentity = issued.schemeIdentity) (made : self.evidence issued.nonce = .ok evidence)
    (accepted : verifier.verify evidence.reportBytes evidence.vcekCertPem binding = .ok report) : binding.reportData = issued.reportData := by
  obtain ⟨parsed,carried⟩ := verify_data accepted
  unfold SnpTrustedExecutor.evidence at made
  rw [model,scheme] at made
  have bytes := carried.symm.trans (stamps _ _ _ made parsed)
  cases ours : binding.reportData with
  | mk x => cases theirs : issued.reportData with
    | mk y =>
        rw [ours] at bytes
        rw [show x = y from bytes.trans (congrArg ReportData.bytes theirs)]

-- The hasher is fed the scheme identity and the nonce without a mark between them:
-- bindings are kept apart exactly where no string is cut into the two in two ways.
theorem bindings_unambiguous_iff (hashed : ∀ message, (Sha256.digest message).length = 32) (binding issued : AttestedBinding)
    (distinct : Distinguished binding issued) :
    Unambiguous (C:=C) binding issued ↔ (binding.modelIdentity = issued.modelIdentity → ¬Recut binding issued) := by
  constructor
  · intro unambiguous model recut
    obtain ⟨same,differ⟩ := (recut_iff model).mp recut
    exact differ (unambiguous.1 ((reportData_eq_iff hashed distinct).mpr ⟨model,same⟩))
  · intro whole
    have one : binding.reportData = issued.reportData → binding = issued := by
      intro same
      obtain ⟨model,challenged⟩ := (reportData_eq_iff hashed distinct).mp same
      by_contra differ
      exact whole model ((recut_iff model).mpr ⟨challenged,differ⟩)
    exact ⟨one,fun E self verifier evidence report stamps model scheme made accepted =>
      one (accepted_data stamps model scheme made accepted)⟩

end Verifier

end Report

section Residues

local instance residueDigests : Sha256 := .residue

-- A report is its data, and every certificate is in order.
local instance bareReports : Platform Unit where
  mock := true
  fromBytes bytes := .ok ⟨bytes,[],0⟩
  fromPem _ := .ok ()
  verifySignedBy _ _ := .ok ()
  validityWindow _ := (0,10)
  verifyReport _ _ := .ok ()

def bareIssuer : AttestationIssuer := ⟨fun data => .ok ⟨data.bytes,[]⟩⟩
def bareVerifier : SnpAttestationVerifier := ⟨⟨[],[],true⟩,none,none,none,5⟩

theorem bareIssuer_stamps : bareIssuer.Stamps (C:=Unit) := by
  intro data evidence report issued parsed
  cases issued
  cases parsed
  rfl

-- A report that was issued without a nonce passes as one for the nonce "-7".
theorem stale_report_passes_as_fresh : Distinguished ⟨[109],[115],some [45,55]⟩ ⟨[109],[115,45,55],none⟩ ∧ bareIssuer.Stamps (C:=Unit) ∧
    ∃ evidence report, (SnpTrustedExecutor.mk () bareIssuer [109] [115,45,55]).evidence none = .ok evidence ∧
      bareVerifier.verify evidence.reportBytes evidence.vcekCertPem ⟨[109],[115],some [45,55]⟩ = .ok report := by
  have distinct : Distinguished ⟨[109],[115],some [45,55]⟩ ⟨[109],[115,45,55],none⟩ := by
    unfold Distinguished
    decide +kernel
  refine ⟨distinct,bareIssuer_stamps,⟨(ReportData.build [109] [115,45,55] none).bytes,[]⟩,⟨(ReportData.build [109] [115,45,55] none).bytes,[],0⟩,rfl,?_⟩
  decide +kernel

theorem bindings_unambiguous_iff_two_nonces : Unambiguous (C:=Unit) ⟨[109],[115],some [49]⟩ ⟨[109],[115],some [50]⟩ := by
  have distinct : Distinguished ⟨[109],[115],some [49]⟩ ⟨[109],[115],some [50]⟩ := by
    unfold Distinguished
    decide +kernel
  refine (bindings_unambiguous_iff Sha256.residue_length _ _ distinct).mpr fun model recut => ?_
  obtain ⟨same,_⟩ := (recut_iff model).mp recut
  exact absurd same (by decide)

end Residues

end Attestation
