import Chronolog.Capabilities.Types
import Chronolog.Lib.Procedure

/-!
# The capability log

The membership changes by capability revisions, signed by the root and chained
by their digests, and by recovery records that a threshold of recovery keys has
signed. Each change gives the snapshot of the next revision. The bytes of the
values are a parameter (`CapabilityCodec`); what their encoding refuses is not.
-/

namespace Chronolog

/-- The manifest a group starts from. -/
structure GenesisManifest where
  groupId : Bytes
  rootAdminPublicKey : Bytes
  capabilityLogFeed : Bytes
  recoveryPublicKeys : List Bytes
  recoveryThreshold : Int
  initialCapabilities : List CapabilityGrant
  validationPolicies : List ValidationPolicy
  deriving DecidableEq

structure SignedGenesis where
  manifest : GenesisManifest
  signature : Bytes
  deriving DecidableEq

/-- A change of the membership. -/
structure CapabilityRevision where
  groupId : Bytes
  revision : Int
  previousRevisionDigest : Bytes
  issuerRootPublicKey : Bytes
  grants : List CapabilityGrant
  revocations : List Bytes
  validationPolicies : List ValidationPolicy
  successorRootPublicKey : Option Bytes
  successorCapabilityLogFeed : Option Bytes
  deriving DecidableEq

structure SignedCapabilityRevision where
  revision : CapabilityRevision
  signature : Bytes
  deriving DecidableEq

/-- A new root and new validators, after the old ones are lost. -/
structure RecoveryPayload where
  groupId : Bytes
  lastRevision : Int
  lastRevisionDigest : Bytes
  newRevision : Int
  newRootPublicKey : Bytes
  newCapabilityLogFeed : Bytes
  validatorGrants : List CapabilityGrant
  reopenHistory : Bool
  reopeningReason : Option String
  deriving DecidableEq

structure RecoverySignature where
  recoveryKeyIndex : Int
  signature : Bytes
  deriving DecidableEq

structure RecoveryRecord where
  payload : RecoveryPayload
  signatures : List RecoverySignature
  deriving DecidableEq

/-- The canonical bytes of the values of the capability log, with the hashes and
    signatures of the protocol. A failure is the error thrown. -/
structure CapabilityCodec where
  grantBytes : CapabilityGrant → Bytes
  policyBytes : ValidationPolicy → Bytes
  genesisBytes : GenesisManifest → Bytes
  revisionBytes : CapabilityRevision → Bytes
  recoveryBytes : RecoveryPayload → Bytes
  decodeGenesisManifest : Bytes → Except ProtocolError GenesisManifest
  decodeCapabilityRevision : Bytes → Except ProtocolError CapabilityRevision
  decodeSignedCapabilityRevision : Bytes → Except ProtocolError SignedCapabilityRevision
  decodeRecoveryRecord : Bytes → Except ProtocolError RecoveryRecord
  hashDomain : ProtocolDomain → Bytes → Bytes
  verifyDomain : ProtocolDomain → (payload signature publicKey : Bytes) → Bool

/-! ## What is encoded -/

/-- The checks of `grantToCbor`. -/
def checkGrant (grant : CapabilityGrant) : Except ProtocolError Unit := do
  protocolInvariant (grant.signingPublicKey.length = 32) .schemaInvalid
    "Capability signing key must contain 32 bytes"
  protocolInvariant (0 ≤ grant.validFromRevision) .integerOutOfRange
    "Capability revision cannot be negative"
  if let some validUntilRevision := grant.validUntilRevision then
    protocolInvariant (grant.validFromRevision ≤ validUntilRevision) .schemaInvalid
      "Capability validity interval is inverted"
  if grant.role = .validator then
    protocolInvariant grant.minimumAuthorTimestampMs.isSome .schemaInvalid
      "Validator capability requires a timestamp floor"
  else
    protocolInvariant (grant.validatorClass.isNone && grant.minimumAuthorTimestampMs.isNone)
      .schemaInvalid "Only validators may carry validator fields"
  if grant.role = .reader then
    protocolInvariant (grant.readerScope.isSome && grant.hpkePublicKey.isSome) .schemaInvalid
      "Reader capability requires scope and HPKE key"
    protocolInvariant (grant.hpkePublicKey.all (·.length = 32)) .schemaInvalid
      "Reader HPKE key must contain 32 bytes"
  else
    protocolInvariant (grant.readerScope.isNone && grant.hpkePublicKey.isNone) .schemaInvalid
      "Only readers may carry reader fields"
  if let some transportAuthor := grant.transportAuthor then
    protocolInvariant (0 < transportAuthor.length) .schemaInvalid
      "Capability transport author must not be empty"

/-- The checks of `policyToCbor`. -/
def checkPolicy (policy : ValidationPolicy) : Except ProtocolError Unit := do
  protocolInvariant (0 < policy.minimumValidators) .schemaInvalid
    "Validation threshold must be positive"
  for (name, minimum) in policy.classMinimums.entries do
    protocolInvariant (0 < name.length && 0 < minimum) .schemaInvalid
      "Class requirements must be named and positive"
  protocolInvariant
    (policy.requiredOrganizations.dedup.length = policy.requiredOrganizations.length)
    .schemaInvalid "Required organizations must be unique"
  protocolInvariant (policy.requiredOrganizations.all (0 < ·.length)) .schemaInvalid
    "Required organizations must not be empty"

/-- The checks of `genesisToCbor`. -/
def checkGenesis (manifest : GenesisManifest) : Except ProtocolError Unit := do
  protocolInvariant (manifest.rootAdminPublicKey.length = 32) .schemaInvalid
    "Genesis root key must contain 32 bytes"
  protocolInvariant (manifest.recoveryPublicKeys.length = 3 &&
    manifest.recoveryPublicKeys.all (·.length = 32)) .schemaInvalid
    "Genesis requires exactly three 32-byte recovery keys"
  protocolInvariant (manifest.recoveryThreshold = 2) .schemaInvalid
    "V0.1 recovery threshold must be two of three"
  protocolInvariant (manifest.recoveryPublicKeys.dedup.length = 3) .schemaInvalid
    "Genesis recovery keys must be distinct"
  protocolInvariant (0 < manifest.validationPolicies.length) .schemaInvalid
    "Genesis requires at least one validation policy"
  manifest.initialCapabilities.forM checkGrant
  manifest.validationPolicies.forM checkPolicy

/-- The checks of `revisionToCbor`. -/
def checkRevision (revision : CapabilityRevision) : Except ProtocolError Unit := do
  protocolInvariant (0 < revision.revision) .schemaInvalid
    "Capability revision must be positive"
  protocolInvariant (revision.issuerRootPublicKey.length = 32) .schemaInvalid
    "Revision issuer key must contain 32 bytes"
  protocolInvariant
    (revision.successorRootPublicKey.isNone = revision.successorCapabilityLogFeed.isNone)
    .schemaInvalid "Root and feed succession must be declared together"
  revision.grants.forM checkGrant
  revision.validationPolicies.forM checkPolicy

/-- The checks of `recoveryToCbor`. -/
def checkRecovery (payload : RecoveryPayload) : Except ProtocolError Unit := do
  protocolInvariant (payload.lastRevision < payload.newRevision) .schemaInvalid
    "Recovery must advance the membership revision"
  protocolInvariant (payload.newRootPublicKey.length = 32) .schemaInvalid
    "Recovery root key must contain 32 bytes"
  protocolInvariant (payload.reopenHistory = payload.reopeningReason.isSome) .schemaInvalid
    "History reopening requires exactly one explicit reason"
  protocolInvariant (payload.validatorGrants.all (·.role = .validator)) .schemaInvalid
    "Recovery validator grants must all be validator capabilities"
  payload.validatorGrants.forM checkGrant

namespace CapabilityCodec

variable (codec : CapabilityCodec)

def encodeGenesisManifest (manifest : GenesisManifest) : Except ProtocolError Bytes := do
  checkGenesis manifest
  return codec.genesisBytes manifest

def encodeCapabilityRevision (revision : CapabilityRevision) : Except ProtocolError Bytes := do
  checkRevision revision
  return codec.revisionBytes revision

def encodeRecoveryPayload (payload : RecoveryPayload) : Except ProtocolError Bytes := do
  checkRecovery payload
  return codec.recoveryBytes payload

/-- The id of a capability. -/
def capabilityId (grant : CapabilityGrant) : Except ProtocolError Bytes := do
  checkGrant grant
  return codec.hashDomain .capabilityGrant (codec.grantBytes grant)

/-- The id of a policy. -/
def validationPolicyId (policy : ValidationPolicy) : Except ProtocolError Bytes := do
  checkPolicy policy
  return codec.hashDomain .validationPolicy (codec.policyBytes policy)

/-- The digest of a revision, which the next one names. -/
def capabilityRevisionDigest (revision : CapabilityRevision) : Except ProtocolError Bytes := do
  return codec.hashDomain .capabilityRevision (← codec.encodeCapabilityRevision revision)

end CapabilityCodec

/-- A codec that knows the encodings of some values, with digests and signatures
    that show what they are of. -/
def CapabilityCodec.ofTables (geneses : List (Bytes × GenesisManifest))
    (revisions : List (Bytes × SignedCapabilityRevision))
    (recoveries : List (Bytes × RecoveryRecord)) : CapabilityCodec where
  grantBytes grant := grant.subjectId ++ [UInt8.ofNat grant.validFromRevision.toNat]
  policyBytes policy := [UInt8.ofNat policy.version.toNat]
  genesisBytes manifest := ((geneses.find? (·.2 = manifest)).map Prod.fst).getD []
  revisionBytes revision := ((revisions.find? (·.2.revision = revision)).map Prod.fst).getD []
  recoveryBytes payload := ((recoveries.find? (·.2.payload = payload)).map Prod.fst).getD []
  decodeGenesisManifest := find geneses
  decodeCapabilityRevision bytes := (find revisions bytes).map (·.revision)
  decodeSignedCapabilityRevision := find revisions
  decodeRecoveryRecord := find recoveries
  hashDomain _ bytes := bytes
  verifyDomain _ payload signature publicKey := signature = publicKey ++ payload
where
  find {α : Type} (table : List (Bytes × α)) (bytes : Bytes) : Except ProtocolError α :=
    match table.lookup bytes with
    | some value => .ok value
    | none => .error ⟨.schemaInvalid, "Canonical CBOR is malformed"⟩

/-! ## Changes of a snapshot -/

/-- The capabilities of a snapshot. -/
abbrev Capabilities := KeyedMap EffectiveCapability.id

/-- The policies of a snapshot. -/
abbrev Policies := KeyedMap EffectivePolicy.id

/-- The highest timestamp floor of a validator that is not revoked. -/
def validatorFloor (capabilities : Capabilities) : Int :=
  (capabilities.values.filter fun entry =>
    entry.grant.role = .validator && entry.revokedAtRevision.isNone).foldl
      (fun maximum entry => max maximum (entry.grant.minimumAuthorTimestampMs.getD 0)) 0

section Apply

variable (codec : CapabilityCodec)

/-- Adds a capability that is not there yet. -/
def addCapability (grant : CapabilityGrant) (revision : Int) (duplicate : String)
    (capabilities : Capabilities) : Except ProtocolError Capabilities := do
  let id ← codec.capabilityId grant
  protocolInvariant (!capabilities.has id) .schemaInvalid duplicate
  return capabilities.put ⟨id, grant, revision, none⟩

/-- Adds a policy that is not there yet. -/
def addPolicy (revision : Int) (duplicate : String) (policies : Policies)
    (policy : ValidationPolicy) : Except ProtocolError Policies := do
  let id ← codec.validationPolicyId policy
  protocolInvariant (!policies.has id) .schemaInvalid duplicate
  return policies.put ⟨id, policy, revision⟩

/-- Revokes a capability. -/
def revokeCapability (revision : Int) (capabilities : Capabilities) (revokedId : Bytes) :
    Except ProtocolError Capabilities :=
  match capabilities.get? revokedId with
  | none => .error ⟨.schemaInvalid, "Capability revision revokes an unknown capability"⟩
  | some active => do
    protocolInvariant active.revokedAtRevision.isNone .schemaInvalid
      "Capability is already revoked"
    return capabilities.put { active with revokedAtRevision := some revision }

/-- Grants a capability of a revision. -/
def grantCapability (revision : Int) (capabilities : Capabilities) (grant : CapabilityGrant) :
    Except ProtocolError Capabilities := do
  protocolInvariant (grant.validFromRevision = revision) .schemaInvalid
    "New capability must begin at its containing revision"
  if grant.role = .validator then
    protocolInvariant
      (validatorFloor capabilities ≤ grant.minimumAuthorTimestampMs.getD (-1))
      .schemaInvalid "New validator would reopen closed timestamp history"
  addCapability codec grant revision "Capability revision contains a duplicate grant" capabilities

/-- Was the genesis signed by its root? -/
def verifySignedGenesis (genesis : SignedGenesis) : Except ProtocolError Bool := do
  return codec.verifyDomain .genesis (← codec.encodeGenesisManifest genesis.manifest)
    genesis.signature genesis.manifest.rootAdminPublicKey

/-- Grants a capability of the genesis. -/
def grantInitial (capabilities : Capabilities) (grant : CapabilityGrant) :
    Except ProtocolError Capabilities := do
  protocolInvariant (grant.validFromRevision = 0) .schemaInvalid
    "Genesis capability must begin at revision zero"
  addCapability codec grant 0 "Genesis contains a duplicate capability" capabilities

/-- The snapshot of a genesis. -/
def genesisSnapshot (genesis : SignedGenesis) : Except ProtocolError CapabilitySnapshot := do
  protocolInvariant (← verifySignedGenesis codec genesis) .invalidSignature
    "Genesis signature is invalid"
  let manifest ← codec.decodeGenesisManifest (← codec.encodeGenesisManifest genesis.manifest)
  let genesisDigest := codec.hashDomain .genesis (← codec.encodeGenesisManifest manifest)
  let capabilities ← manifest.initialCapabilities.foldlM (grantInitial codec) .empty
  let policies ← manifest.validationPolicies.foldlM
    (addPolicy codec 0 "Genesis contains a duplicate policy") .empty
  return {
    groupId := manifest.groupId
    revision := 0
    revisionDigest := genesisDigest
    rootAdminPublicKey := manifest.rootAdminPublicKey
    capabilityLogFeed := manifest.capabilityLogFeed
    capabilities
    policies
    recoveryPublicKeys := manifest.recoveryPublicKeys
    recoveryThreshold := manifest.recoveryThreshold
    historyReopened := false
    recoveryEventDigest := none }

/-- Applies a revision that extends the chain of the snapshot. -/
def applyCapabilityRevision (snapshot : CapabilitySnapshot) (signed : SignedCapabilityRevision) :
    Except ProtocolError CapabilitySnapshot := do
  let revision ← codec.decodeCapabilityRevision
    (← codec.encodeCapabilityRevision signed.revision)
  protocolInvariant (revision.groupId = snapshot.groupId) .schemaInvalid
    "Capability revision belongs to another group"
  protocolInvariant (revision.revision = snapshot.revision + 1) .schemaInvalid
    "Capability log contains a gap or conflicting revision"
  protocolInvariant (revision.previousRevisionDigest = snapshot.revisionDigest) .digestMismatch
    "Capability revision does not extend current chain"
  protocolInvariant (revision.issuerRootPublicKey = snapshot.rootAdminPublicKey) .invalidKey
    "Capability revision has the wrong root issuer"
  protocolInvariant (codec.verifyDomain .capabilityRevision
      (← codec.encodeCapabilityRevision revision) signed.signature snapshot.rootAdminPublicKey)
    .invalidSignature "Capability revision signature is invalid"
  let capabilities ← revision.revocations.foldlM (revokeCapability revision.revision)
    snapshot.capabilities
  let capabilities ← revision.grants.foldlM (grantCapability codec revision.revision) capabilities
  let policies ← revision.validationPolicies.foldlM (addPolicy codec revision.revision
    "Capability revision repeats an existing policy") snapshot.policies
  let revisionDigest ← codec.capabilityRevisionDigest revision
  return { snapshot with
    revision := revision.revision
    revisionDigest
    rootAdminPublicKey := revision.successorRootPublicKey.getD snapshot.rootAdminPublicKey
    capabilityLogFeed := revision.successorCapabilityLogFeed.getD snapshot.capabilityLogFeed
    capabilities
    policies }

/-- The snapshot after a log, whose revisions are applied by their numbers. -/
def reduceCapabilityLog (genesis : SignedGenesis) (revisions : List SignedCapabilityRevision) :
    Except ProtocolError CapabilitySnapshot := do
  (revisions.mergeSort fun a b => a.revision.revision ≤ b.revision.revision).foldlM
    (applyCapabilityRevision codec) (← genesisSnapshot codec genesis)

/-- The number of recovery keys that have signed, each counted by its first signature. -/
def countSignatures (recoveryPublicKeys : List Bytes) (bytes : Bytes) (seen : List Int) :
    List RecoverySignature → Int
  | [] => 0
  | item :: items =>
    if item.recoveryKeyIndex < 0 ∨ recoveryPublicKeys.length ≤ item.recoveryKeyIndex ∨
        item.recoveryKeyIndex ∈ seen then
      countSignatures recoveryPublicKeys bytes seen items
    else
      (match recoveryPublicKeys[item.recoveryKeyIndex.toNat]? with
        | some publicKey => if codec.verifyDomain .recovery bytes item.signature publicKey then 1 else 0
        | none => 0) +
      countSignatures recoveryPublicKeys bytes (item.recoveryKeyIndex :: seen) items

/-- Does the record extend the chain of the snapshot, signed by enough recovery keys? -/
def verifyRecoveryRecord (snapshot : CapabilitySnapshot) (record : RecoveryRecord) :
    Except ProtocolError Bool := do
  if record.payload.groupId ≠ snapshot.groupId ∨
      record.payload.lastRevision ≠ snapshot.revision ∨
      record.payload.lastRevisionDigest ≠ snapshot.revisionDigest ∨
      record.payload.newRevision ≤ snapshot.revision then return false
  let bytes ← codec.encodeRecoveryPayload record.payload
  return snapshot.recoveryThreshold ≤
    countSignatures codec snapshot.recoveryPublicKeys bytes [] record.signatures

/-- Revokes the validators and what the lost root holds. -/
def revokeForRecovery (snapshot : CapabilitySnapshot) (newRevision : Int) : Capabilities :=
  snapshot.capabilities.values.foldl (fun capabilities effective =>
    if effective.revokedAtRevision.isNone ∧ (effective.grant.role = .validator ∨
        effective.grant.signingPublicKey = snapshot.rootAdminPublicKey) then
      capabilities.put { effective with revokedAtRevision := some newRevision }
    else capabilities) snapshot.capabilities

/-- Grants a validator of a recovery. -/
def grantRecovered (newRevision : Int) (capabilities : Capabilities) (grant : CapabilityGrant) :
    Except ProtocolError Capabilities := do
  protocolInvariant (grant.validFromRevision = newRevision) .schemaInvalid
    "Recovery grant must begin at recovery revision"
  addCapability codec grant newRevision "Recovery repeats an existing capability" capabilities

/-- Applies a recovery record. -/
def applyRecoveryRecord (snapshot : CapabilitySnapshot) (record : RecoveryRecord) :
    Except ProtocolError CapabilitySnapshot := do
  protocolInvariant (← verifyRecoveryRecord codec snapshot record) .invalidSignature
    "Recovery record does not carry a valid threshold signature"
  if !record.payload.reopenHistory then
    protocolInvariant (record.payload.validatorGrants.all fun grant =>
        validatorFloor snapshot.capabilities ≤ grant.minimumAuthorTimestampMs.getD (-1))
      .schemaInvalid "Recovery lowers a validator floor without declaring history reopening"
  let capabilities ← record.payload.validatorGrants.foldlM
    (grantRecovered codec record.payload.newRevision)
    (revokeForRecovery snapshot record.payload.newRevision)
  let recoveryEventDigest := codec.hashDomain .recovery
    (← codec.encodeRecoveryPayload record.payload)
  return { snapshot with
    revision := record.payload.newRevision
    revisionDigest := recoveryEventDigest
    rootAdminPublicKey := record.payload.newRootPublicKey
    capabilityLogFeed := record.payload.newCapabilityLogFeed
    capabilities
    historyReopened := record.payload.reopenHistory
    recoveryEventDigest := some recoveryEventDigest }

end Apply

/-! ## The chain of snapshots -/

/-- A change of the membership: a revision or a recovery. -/
inductive MembershipChange
  | revision (signed : SignedCapabilityRevision)
  | recovery (record : RecoveryRecord)
  deriving DecidableEq

namespace MembershipChange

variable (codec : CapabilityCodec)

/-- Applies the change. -/
def apply (snapshot : CapabilitySnapshot) : MembershipChange →
    Except ProtocolError CapabilitySnapshot
  | revision signed => applyCapabilityRevision codec snapshot signed
  | recovery record => applyRecoveryRecord codec snapshot record

/-- The number and the digest of the revision that the change makes. -/
def place : MembershipChange → Except ProtocolError (Int × Bytes)
  | revision signed => do
    let revision ← codec.decodeCapabilityRevision
      (← codec.encodeCapabilityRevision signed.revision)
    return (revision.revision, ← codec.capabilityRevisionDigest revision)
  | recovery record => do
    return (record.payload.newRevision,
      codec.hashDomain .recovery (← codec.encodeRecoveryPayload record.payload))

end MembershipChange

open Procedure

theorem lt_of_verifyRecoveryRecord {codec : CapabilityCodec} {snapshot : CapabilitySnapshot}
    {record : RecoveryRecord} (h : verifyRecoveryRecord codec snapshot record = .ok true) :
    snapshot.revision < record.payload.newRevision := by
  unfold verifyRecoveryRecord at h
  split_ifs at h with hstale
  · cases h
  · simp only [not_or] at hstale
    exact Int.not_le.1 hstale.2.2.2

section Applied

variable {codec : CapabilityCodec} {snapshot snapshot' : CapabilitySnapshot}

/-- What a revision that is applied does to the chain and the capabilities. -/
structure RevisionApplied (codec : CapabilityCodec) (snapshot : CapabilitySnapshot)
    (revision : CapabilityRevision) (snapshot' : CapabilitySnapshot) : Prop where
  next : revision.revision = snapshot.revision + 1
  number : snapshot'.revision = revision.revision
  digest : codec.capabilityRevisionDigest revision = .ok snapshot'.revisionDigest
  capabilities : ∃ revoked, revision.revocations.foldlM (revokeCapability revision.revision)
      snapshot.capabilities = .ok revoked ∧
    revision.grants.foldlM (grantCapability codec revision.revision) revoked =
      .ok snapshot'.capabilities

theorem of_applyCapabilityRevision {signed : SignedCapabilityRevision}
    (h : applyCapabilityRevision codec snapshot signed = .ok snapshot') :
    ∃ encoded revision, codec.encodeCapabilityRevision signed.revision = .ok encoded ∧
      codec.decodeCapabilityRevision encoded = .ok revision ∧
      RevisionApplied codec snapshot revision snapshot' := by
  simp only [applyCapabilityRevision, bind_eq_ok_iff, protocolInvariant_eq_ok_iff,
    decide_eq_true_eq] at h
  obtain ⟨encoded, hencoded, revision, hrevision, -, -, -, hnumber, -, -, -, -, -, -, -, -,
    revoked, hrevoked, capabilities, hcapabilities, policies, -, digest, hdigest, h⟩ := h
  cases h
  exact ⟨encoded, revision, hencoded, hrevision, hnumber, rfl, hdigest, revoked, hrevoked,
    hcapabilities⟩

/-- What a recovery that is applied does to the chain and the capabilities. -/
structure RecoveryApplied (codec : CapabilityCodec) (snapshot : CapabilitySnapshot)
    (payload : RecoveryPayload) (snapshot' : CapabilitySnapshot) : Prop where
  next : snapshot.revision < payload.newRevision
  number : snapshot'.revision = payload.newRevision
  digest : ∃ encoded, codec.encodeRecoveryPayload payload = .ok encoded ∧
    snapshot'.revisionDigest = codec.hashDomain .recovery encoded
  floor : payload.reopenHistory = false → ∀ grant ∈ payload.validatorGrants,
    validatorFloor snapshot.capabilities ≤ grant.minimumAuthorTimestampMs.getD (-1)
  capabilities : payload.validatorGrants.foldlM (grantRecovered codec payload.newRevision)
    (revokeForRecovery snapshot payload.newRevision) = .ok snapshot'.capabilities

theorem of_applyRecoveryRecord {record : RecoveryRecord}
    (h : applyRecoveryRecord codec snapshot record = .ok snapshot') :
    RecoveryApplied codec snapshot record.payload snapshot' := by
  obtain ⟨verified, hverified, h⟩ := bind_eq_ok_iff.1 h
  obtain ⟨u, hinvariant, h⟩ := bind_eq_ok_iff.1 h
  rw [protocolInvariant_eq_ok_iff] at hinvariant
  rw [hinvariant] at hverified
  have hnext := lt_of_verifyRecoveryRecord hverified
  cases hreopen : record.payload.reopenHistory with
  | false =>
    simp only [hreopen, Bool.not_false, if_true, bind_eq_ok_iff, protocolInvariant_eq_ok_iff] at h
    obtain ⟨_, hfloor, capabilities, hcapabilities, encoded, hencoded, h⟩ := h
    cases h
    refine ⟨hnext, rfl, ⟨encoded, hencoded, rfl⟩, fun _ grant hgrant => ?_, hcapabilities⟩
    simpa using List.all_eq_true.1 hfloor grant hgrant
  | true =>
    simp only [hreopen, Bool.not_true, Bool.false_eq_true, if_false, bind_eq_ok_iff] at h
    obtain ⟨capabilities, hcapabilities, encoded, hencoded, h⟩ := h
    cases h
    exact ⟨hnext, rfl, ⟨encoded, hencoded, rfl⟩, fun h => absurd (hreopen.symm.trans h) (by simp),
      hcapabilities⟩

/-- A change has its place in the chain, whatever snapshot it is applied to, and goes forward. -/
theorem MembershipChange.place_of_apply {change : MembershipChange}
    (h : change.apply codec snapshot = .ok snapshot') :
    change.place codec = .ok (snapshot'.revision, snapshot'.revisionDigest) ∧
      snapshot.revision < snapshot'.revision := by
  cases change with
  | revision signed =>
    obtain ⟨encoded, revision, hencoded, hrevision, happlied⟩ := of_applyCapabilityRevision h
    rw [happlied.number, happlied.next]
    refine ⟨?_, by omega⟩
    simp only [place, hencoded, hrevision, happlied.digest, bind, Except.bind, pure, Except.pure,
      happlied.next]
  | recovery record =>
    have happlied := of_applyRecoveryRecord h
    obtain ⟨encoded, hencoded, hdigest⟩ := happlied.digest
    rw [happlied.number, hdigest]
    refine ⟨?_, happlied.next⟩
    simp only [place, hencoded, bind, Except.bind, pure, Except.pure]

end Applied

/-! ## Samples -/

namespace SmallLog

/-- A key of 32 bytes. -/
def key (byte : UInt8) : Bytes := List.replicate 32 byte

/-- A grant, to the subject that holds the key of the byte. -/
def grant (byte : UInt8) (feed : String) (role : CapabilityRole) (validFromRevision : Int)
    (minimumAuthorTimestampMs : Option Int) : CapabilityGrant where
  subjectId := [byte]
  signingPublicKey := key byte
  transportAuthor := some feed
  role
  validFromRevision
  validUntilRevision := none
  organization := none
  validatorClass := none
  minimumAuthorTimestampMs
  readerScope := none
  hpkePublicKey := none

/-- The genesis of a group with one policy. -/
def genesis (initialCapabilities : List CapabilityGrant) : SignedGenesis where
  manifest := {
    groupId := [0]
    rootAdminPublicKey := key 7
    capabilityLogFeed := utf8 "g"
    recoveryPublicKeys := [key 4, key 5, key 6]
    recoveryThreshold := 2
    initialCapabilities
    validationPolicies := [⟨1, 1, .ofList [], []⟩] }
  signature := key 7 ++ [9]

/-- The revision that comes after a digest, signed by the root. -/
def revision (number : Int) (previousRevisionDigest : Bytes) (grants : List CapabilityGrant)
    (revocations : List Bytes) : SignedCapabilityRevision where
  revision := {
    groupId := [0]
    revision := number
    previousRevisionDigest
    issuerRootPublicKey := key 7
    grants
    revocations
    validationPolicies := []
    successorRootPublicKey := none
    successorCapabilityLogFeed := none }
  signature := key 7 ++ [20 + UInt8.ofNat number.toNat]

end SmallLog

end Chronolog
