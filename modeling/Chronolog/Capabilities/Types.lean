import Chronolog.Protocol.Messages

/-!
# Capabilities

A capability grants a signing key a role from a revision of the membership on.
A `CapabilitySnapshot` is the membership at one revision: the capabilities ever
granted and the validation policies installed, each stored under its id.
-/

namespace Chronolog

/-- The roles a capability can grant. -/
inductive CapabilityRole
  | reader
  | writer
  | validator
  | administrator
  | schemaAdministrator
  deriving DecidableEq

/-- How much history a reader may read. -/
inductive ReaderHistoryScope
  | snapshot
  | audit
  deriving DecidableEq

/-- A grant of a role. -/
structure CapabilityGrant where
  subjectId : Bytes
  signingPublicKey : Bytes
  /-- The outer replication feed authorized for this capability. -/
  transportAuthor : Option String
  role : CapabilityRole
  validFromRevision : Int
  validUntilRevision : Option Int
  organization : Option String
  validatorClass : Option String
  minimumAuthorTimestampMs : Option Int
  readerScope : Option ReaderHistoryScope
  hpkePublicKey : Option Bytes
  deriving DecidableEq

/-- What the attestations of a transaction have to provide. -/
structure ValidationPolicy where
  version : Int
  minimumValidators : Int
  classMinimums : OrdMap String Int
  requiredOrganizations : List String
  deriving DecidableEq

/-- A granted capability. -/
structure EffectiveCapability where
  id : Bytes
  grant : CapabilityGrant
  grantedAtRevision : Int
  revokedAtRevision : Option Int
  deriving DecidableEq

/-- An installed policy. -/
structure EffectivePolicy where
  id : Bytes
  policy : ValidationPolicy
  installedAtRevision : Int
  deriving DecidableEq

/-- The membership at a revision. -/
structure CapabilitySnapshot where
  groupId : Bytes
  revision : Int
  revisionDigest : Bytes
  rootAdminPublicKey : Bytes
  capabilityLogFeed : Bytes
  capabilities : KeyedMap EffectiveCapability.id
  policies : KeyedMap EffectivePolicy.id
  recoveryPublicKeys : List Bytes
  recoveryThreshold : Int
  historyReopened : Bool
  recoveryEventDigest : Option Bytes
  deriving DecidableEq

/-- Is the capability in force at the revision? -/
def isCapabilityActive (capability : EffectiveCapability) (revision : Int) : Bool :=
  decide (capability.grant.validFromRevision ≤ revision) &&
  (match capability.grant.validUntilRevision with
    | none => true
    | some u => decide (revision ≤ u)) &&
  (match capability.revokedAtRevision with
    | none => true
    | some r => decide (revision < r))

/-- What an attestation counts for: a capability and what it was granted for. -/
structure ValidatorEvidence where
  capabilityId : Bytes
  validatorId : Bytes
  organization : Option String
  validatorClass : Option String
  deriving DecidableEq

/-- The verdict of a policy on some evidence. -/
structure PolicyEvaluation where
  satisfied : Bool
  selected : List ValidatorEvidence
  missing : List String
  deriving DecidableEq

/-- The evidence of a capability. -/
def EffectiveCapability.evidence (capability : EffectiveCapability) : ValidatorEvidence where
  capabilityId := capability.id
  validatorId := capability.grant.signingPublicKey
  organization := capability.grant.organization
  validatorClass := capability.grant.validatorClass

end Chronolog
