import Chronolog.Capabilities.Policy
import Chronolog.Crypto.Epoch

/-!
# Admission proofs

Whether a list of attestations admits a transaction, and who may read the
transactions of a revision, decided from a capability snapshot alone.
-/

namespace Chronolog

/-- The verdict on a list of attestations. -/
structure AdmissionProofEvaluation extends PolicyEvaluation where
  consideredAttestations : Nat
  rejectedAttestations : List String
  deriving DecidableEq

/-- The capability with the id, if it is in force at the snapshot's revision. -/
def activeCapabilityById (snapshot : CapabilitySnapshot) (id : Bytes) :
    Option EffectiveCapability :=
  (snapshot.capabilities.get? id).filter (isCapabilityActive · snapshot.revision)

/-- The policy with the id. -/
def policyById (snapshot : CapabilitySnapshot) (id : Bytes) : Option ValidationPolicy :=
  (snapshot.policies.get? id).map (·.policy)

/-- The evidence of an attestation of the transaction, if it is a valid one. -/
def validatorEvidenceForAttestation (snapshot : CapabilitySnapshot)
    (attestation : ValidatorAttestation) (core : TransactionCore) (txId candidateDigest : Bytes) :
    Option ValidatorEvidence :=
  if attestation.groupId ≠ snapshot.groupId ∨ core.groupId ≠ snapshot.groupId ∨
      attestation.membershipRevision ≠ snapshot.revisionDigest ∨
      core.membershipRevision ≠ snapshot.revisionDigest ∨
      attestation.txId ≠ txId ∨ attestation.candidateDigest ≠ candidateDigest ∨
      attestation.authorTimestampMs ≠ core.authorTimestampMs ∨
      attestation.authorTimestampMs ≤ attestation.acceptedAboveMs then none
  else match activeCapabilityById snapshot attestation.validatorCapability with
    | none => none
    | some capability =>
      if capability.grant.role ≠ .validator ∨
          capability.grant.signingPublicKey ≠ attestation.validatorId ∨
          core.authorTimestampMs ≤ capability.grant.minimumAuthorTimestampMs.getD (-1) then none
      else some { capability.evidence with validatorId := attestation.validatorId }

variable {snapshot : CapabilitySnapshot} {txId candidateDigest : Bytes} {core : TransactionCore}
  {attestation : ValidatorAttestation} {e : ValidatorEvidence}

theorem validatorEvidenceForAttestation_eq_some_iff :
    validatorEvidenceForAttestation snapshot attestation core txId candidateDigest = some e ↔
      (attestation.groupId = snapshot.groupId ∧ core.groupId = snapshot.groupId ∧
        attestation.membershipRevision = snapshot.revisionDigest ∧
        core.membershipRevision = snapshot.revisionDigest ∧
        attestation.txId = txId ∧ attestation.candidateDigest = candidateDigest ∧
        attestation.authorTimestampMs = core.authorTimestampMs ∧
        attestation.acceptedAboveMs < attestation.authorTimestampMs) ∧
      ∃ capability, snapshot.capabilities.get? attestation.validatorCapability = some capability ∧
        isCapabilityActive capability snapshot.revision ∧ capability.grant.role = .validator ∧
        capability.grant.signingPublicKey = attestation.validatorId ∧
        capability.grant.minimumAuthorTimestampMs.getD (-1) < core.authorTimestampMs ∧
        { capability.evidence with validatorId := attestation.validatorId } = e := by
  unfold validatorEvidenceForAttestation activeCapabilityById
  cases hget : snapshot.capabilities.get? attestation.validatorCapability with
  | none => simp
  | some capability =>
    by_cases hactive : isCapabilityActive capability snapshot.revision
    · simp only [Option.filter_some, hactive, Option.some.injEq]
      grind
    · simp only [Option.some.injEq]
      grind

/-- The evidence of an attestation, or why it is rejected. -/
def attestationEvidence (snapshot : CapabilitySnapshot) (core : TransactionCore)
    (txId candidateDigest : Bytes) (policy : ValidationPolicy)
    (attestation : ValidatorAttestation) : Except String ValidatorEvidence :=
  if attestation.policyVersion ≠ policy.version then .error "wrong_policy_version"
  else match validatorEvidenceForAttestation snapshot attestation core txId candidateDigest with
    | none => .error "invalid_attestation_context"
    | some item => .ok item

theorem attestationEvidence_eq_ok {policy : ValidationPolicy} :
    attestationEvidence snapshot core txId candidateDigest policy attestation = .ok e ↔
      attestation.policyVersion = policy.version ∧
      validatorEvidenceForAttestation snapshot attestation core txId candidateDigest = some e := by
  unfold attestationEvidence
  split_ifs with hversion
  · exact ⟨fun h => absurd h (by simp), fun h => absurd h.1 hversion⟩
  · cases validatorEvidenceForAttestation snapshot attestation core txId candidateDigest with
    | none => simp
    | some item => simp [not_not.1 hversion]

/-- Decides whether the attestations admit the transaction. -/
def assembleAdmissionProof (snapshot : CapabilitySnapshot) (core : TransactionCore)
    (txId candidateDigest : Bytes) (attestations : List ValidatorAttestation) :
    Except ProtocolError AdmissionProofEvaluation :=
  match policyById snapshot core.validationPolicy with
  | none => .ok ⟨⟨false, [], ["policy:unknown"]⟩, 0, attestations.map fun _ => "unknown_policy"⟩
  | some policy => do
    let items := attestations.map
      (attestationEvidence snapshot core txId candidateDigest policy)
    let evidence := items.filterMap fun
      | .ok item => some item
      | .error _ => none
    let rejected := items.filterMap fun
      | .ok _ => none
      | .error reason => some reason
    let evaluation ← evaluateValidationPolicy policy evidence
    return ⟨evaluation, evidence.length, rejected⟩

/-- The attestations admit the transaction just if the evidence of those that are
    not rejected satisfies its policy. -/
theorem assembleAdmissionProof_satisfied_iff {attestations : List ValidatorAttestation} :
    (∃ evaluation, assembleAdmissionProof snapshot core txId candidateDigest attestations =
        .ok evaluation ∧ evaluation.satisfied) ↔
      ∃ policy, policyById snapshot core.validationPolicy = some policy ∧
        Satisfies policy (attestations.filterMap fun attestation =>
          (attestationEvidence snapshot core txId candidateDigest policy attestation).toOption) := by
  unfold assembleAdmissionProof
  cases policyById snapshot core.validationPolicy with
  | none => simp
  | some policy =>
    have hevidence : (attestations.map (attestationEvidence snapshot core txId candidateDigest
        policy)).filterMap (fun
          | .ok item => some item
          | .error _ => none) = attestations.filterMap fun attestation =>
        (attestationEvidence snapshot core txId candidateDigest policy attestation).toOption := by
      rw [List.filterMap_map]
      refine List.filterMap_congr fun attestation _ => ?_
      simp only [Function.comp_apply]
      cases attestationEvidence snapshot core txId candidateDigest policy attestation <;> rfl
    simp only [hevidence, Option.some.injEq, exists_eq_left', Satisfies]
    cases evaluateValidationPolicy policy (attestations.filterMap fun attestation =>
        (attestationEvidence snapshot core txId candidateDigest policy attestation).toOption) with
    | error error => simp [bind, Except.bind]
    | ok evaluation => simp [bind, Except.bind, pure, Except.pure]

/-! ## Readers -/

/-- May the holder of the capability read what was written at the revision? -/
def canReaderAccessRevision (capability : EffectiveCapability) (membershipRevision : Int) : Bool :=
  if capability.grant.role ≠ .reader then false
  else if capability.grant.readerScope = some .audit then true
  else decide (capability.grant.validFromRevision ≤ membershipRevision)

/-- The recipient that a reader's capability names. (The grant of a reader has a
    key, see `checkGrant`.) -/
def EffectiveCapability.recipient (capability : EffectiveCapability) : EpochRecipient :=
  ⟨capability.grant.subjectId, capability.grant.hpkePublicKey.getD []⟩

/-- The readers in force that may read what was written at the revision, each subject once. -/
def readerRecipientsForRevision (snapshot : CapabilitySnapshot) (membershipRevision : Int) :
    List EpochRecipient :=
  let readers := (snapshot.capabilities.values.filter fun capability =>
    isCapabilityActive capability snapshot.revision &&
      canReaderAccessRevision capability membershipRevision).map EffectiveCapability.recipient
  let unique : KeyedMap EpochRecipient.recipientId := readers.foldl KeyedMap.put .empty
  unique.values

end Chronolog
