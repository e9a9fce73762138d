import Chronolog.Capabilities.Policy
import Chronolog.Capabilities.Reducer
import Chronolog.ControlStore.Watermark

/-!
# Membership resolution

A node asks a `MembershipResolver` who may write, validate and publish at the
membership revision a record names. `CapabilityMembershipResolver` answers from
the snapshots of the capability log. A key that holds several writer capabilities
may use the feed of the first of them only (`canUseTransportAuthor_eq_true_iff`).
-/

namespace Chronolog

/-- What the authority to admit a transaction is asked for. -/
structure AdmissionContext where
  groupId : Bytes
  membershipRevision : Bytes
  validationPolicy : Bytes
  writerId : Bytes
  deriving DecidableEq

/-- The context of a transaction. -/
def TransactionCore.context (core : TransactionCore) : AdmissionContext :=
  ⟨core.groupId, core.membershipRevision, core.validationPolicy, core.authorId⟩

/-- The roles a transport author can have. -/
inductive TransportRole
  | writer
  | validator
  deriving DecidableEq

/-- The capability role of a transport role. -/
def TransportRole.role : TransportRole → CapabilityRole
  | writer => .writer
  | validator => .validator

/-- What the binding of a signing key to a feed is asked for. -/
structure TransportAuthorContext where
  groupId : Bytes
  membershipRevision : Bytes
  role : TransportRole
  signingId : Bytes
  transportAuthor : String
  validatorCapability : Option Bytes
  deriving DecidableEq

/-- The source of membership a node consults. Optional questions may have no
    answer; an answer may fail with a message. -/
structure MembershipResolver where
  canWrite : AdmissionContext → Except String Bool
  canValidate : AdmissionContext → (validatorId validatorCapability : Bytes) → Except String Bool
  threshold : AdmissionContext → Except String Int
  canHeartbeat : Option ((groupId membershipRevision validatorId validatorCapability : Bytes) →
    Except String Bool)
  canUseTransportAuthor : Option (TransportAuthorContext → Except String Bool)
  policyVersion : Option (AdmissionContext → Except String Int)
  selectAdmission : Option (AdmissionContext → List StoredAttestation →
    Except String (List StoredAttestation))
  watermarkPolicy : Option (TransactionCore → Except String (Option WatermarkPolicy))

/-- The membership resolver over the snapshots of the capability log. -/
structure CapabilityMembershipResolver where
  snapshotForRevision : Bytes → Option CapabilitySnapshot
  maximumWatermarkValidators : Nat := 20
  /-- A binding of capabilities to feeds that takes the place of the grants'. -/
  transportAuthorForCapability : Option (EffectiveCapability → CapabilitySnapshot → Option String)
    := none

/-- `Number.MAX_SAFE_INTEGER`. -/
def maxSafeInteger : Int := 2 ^ 53 - 1

/-- Does the capability grant the role at the revision of the snapshot? -/
def activeRole (capability : EffectiveCapability) (snapshot : CapabilitySnapshot)
    (role : CapabilityRole) : Bool :=
  capability.grant.role = role && isCapabilityActive capability snapshot.revision

/-- The capabilities of the validators of a snapshot. -/
def activeValidators (snapshot : CapabilitySnapshot) : List EffectiveCapability :=
  snapshot.capabilities.values.filter (activeRole · snapshot .validator)

/-- The enumeration of the subsets of the validators: the key lists of those that
    satisfy the policy and contain none found before. -/
def visit (policy : ValidationPolicy) : List EffectiveCapability → List EffectiveCapability →
    List (List Bytes) → Except ProtocolError (List (List Bytes))
  | [], selected, results => do
    let evaluation ← evaluateValidationPolicy policy (selected.map (·.evidence))
    if !evaluation.satisfied then return results
    if results.any fun proof => proof.all fun id =>
        selected.any fun candidate => candidate.grant.signingPublicKey = id then return results
    return results ++ [selected.map (·.grant.signingPublicKey)]
  | validator :: rest, selected, results => do
    let results ← visit policy rest selected results
    visit policy rest (selected ++ [validator]) results

/-- The minimal sets of validators that satisfy a policy. -/
def minimalProofs (policy : ValidationPolicy) (validators : List EffectiveCapability) :
    Except ProtocolError (List (List Bytes)) :=
  visit policy validators [] []

namespace CapabilityMembershipResolver

variable (resolver : CapabilityMembershipResolver)

/-- The snapshot of a revision, if it is one of the group. -/
def snapshot (groupId membershipRevision : Bytes) : Option CapabilitySnapshot :=
  (resolver.snapshotForRevision membershipRevision).filter fun snapshot =>
    snapshot.groupId = groupId && snapshot.revisionDigest = membershipRevision

/-- May the writer write? -/
def canWrite (context : AdmissionContext) : Bool :=
  match resolver.snapshot context.groupId context.membershipRevision with
  | none => false
  | some snapshot => snapshot.capabilities.values.any fun capability =>
    activeRole capability snapshot .writer && capability.grant.signingPublicKey = context.writerId

/-- Is the capability one of the validator that is in force? -/
def holdsCapability (groupId membershipRevision validatorId validatorCapability : Bytes) : Bool :=
  match resolver.snapshot groupId membershipRevision with
  | none => false
  | some snapshot =>
    match snapshot.capabilities.get? validatorCapability with
    | none => false
    | some capability => activeRole capability snapshot .validator &&
      capability.grant.signingPublicKey = validatorId

/-- May the validator attest transactions? -/
def canValidate (context : AdmissionContext) (validatorId validatorCapability : Bytes) : Bool :=
  resolver.holdsCapability context.groupId context.membershipRevision validatorId
    validatorCapability

/-- May the validator publish heartbeats? -/
def canHeartbeat (groupId membershipRevision validatorId validatorCapability : Bytes) : Bool :=
  resolver.holdsCapability groupId membershipRevision validatorId validatorCapability

/-- The policy a context names. -/
def policy (context : AdmissionContext) : Option ValidationPolicy :=
  (resolver.snapshot context.groupId context.membershipRevision).bind fun snapshot =>
    (snapshot.policies.get? context.validationPolicy).map (·.policy)

/-- The number of validators the policy asks for. -/
def threshold (context : AdmissionContext) : Int :=
  match resolver.policy context with
  | none => maxSafeInteger
  | some policy =>
    if maxSafeInteger < policy.minimumValidators then maxSafeInteger else policy.minimumValidators

/-- The version of the policy. -/
def policyVersion (context : AdmissionContext) : Int :=
  match resolver.policy context with
  | none => -1
  | some policy => policy.version

/-- The capability that can bind the signing key to a feed: the one named for a
    validator, the first in force for a writer. -/
def boundCapability (snapshot : CapabilitySnapshot) (context : TransportAuthorContext) :
    Option EffectiveCapability :=
  match context.role with
  | .validator => snapshot.capabilities.get? (context.validatorCapability.getD [])
  | .writer => snapshot.capabilities.values.find? fun candidate =>
    activeRole candidate snapshot .writer && candidate.grant.signingPublicKey = context.signingId

/-- Is the signing key bound to the feed? -/
def canUseTransportAuthor (context : TransportAuthorContext) : Bool :=
  match resolver.snapshot context.groupId context.membershipRevision with
  | none => false
  | some snapshot =>
    match boundCapability snapshot context with
    | none => false
    | some capability =>
      activeRole capability snapshot context.role.role &&
      capability.grant.signingPublicKey = context.signingId &&
      (match resolver.transportAuthorForCapability with
        | none => capability.grant.transportAuthor
        | some author => author capability snapshot) = some context.transportAuthor

/-- Is the attestation one of a validator in force, under the policy's version
    and above the validator's floor and cutoff? -/
def countsFor (snapshot : CapabilitySnapshot) (policy : ValidationPolicy)
    (attestation : StoredAttestation) (capability : EffectiveCapability) : Bool :=
  activeRole capability snapshot .validator &&
  capability.grant.signingPublicKey = attestation.validatorId &&
  attestation.membershipRevision = snapshot.revisionDigest &&
  attestation.policyVersion = policy.version &&
  attestation.acceptedAboveMs < attestation.authorTimestampMs &&
  capability.grant.minimumAuthorTimestampMs.getD (-1) < attestation.authorTimestampMs

/-- The first attestation of every capability that counts for the policy, with the capability. -/
def indexed (snapshot : CapabilitySnapshot) (policy : ValidationPolicy)
    (attestations : List StoredAttestation) :
    KeyedMap (fun item : EffectiveCapability × StoredAttestation => item.1.id) :=
  (attestations.filterMap fun attestation =>
    match snapshot.capabilities.get? attestation.validatorCapability with
    | none => none
    | some capability =>
      if countsFor snapshot policy attestation capability then some (capability, attestation)
      else none).foldl KeyedMap.putNew .empty

/-- The attestations that admit a transaction, none if they do not. -/
def selectAdmission (context : AdmissionContext) (attestations : List StoredAttestation) :
    Except ProtocolError (List StoredAttestation) :=
  match resolver.snapshot context.groupId context.membershipRevision with
  | none => .ok []
  | some snapshot =>
    match snapshot.policies.get? context.validationPolicy with
    | none => .ok []
    | some ⟨_, policy, _⟩ => do
      let indexed := indexed snapshot policy attestations
      let evaluation ← evaluateValidationPolicy policy
        (indexed.values.map fun (capability, attestation) =>
          { capability.evidence with validatorId := attestation.validatorId })
      if !evaluation.satisfied then return []
      return evaluation.selected.filterMap fun evidence =>
        (indexed.get? evidence.capabilityId).map Prod.snd

/-- The validator sets that can admit a transaction. -/
def watermarkPolicy (core : TransactionCore) : Except ProtocolError (Option WatermarkPolicy) :=
  match resolver.snapshot core.groupId core.membershipRevision with
  | none => .ok none
  | some snapshot =>
    match snapshot.policies.get? core.validationPolicy with
    | none => .ok none
    | some effective =>
      let validators := activeValidators snapshot
      if resolver.maximumWatermarkValidators < validators.length then .ok none
      else if effective.policy.classMinimums.size = 0 ∧
          effective.policy.requiredOrganizations.length = 0 then
        if !isSafeInteger effective.policy.minimumValidators then .ok none
        else .ok <| some <| .threshold effective.id
          (validators.map (·.grant.signingPublicKey)) effective.policy.minimumValidators
      else do
        let proofs ← minimalProofs effective.policy validators
        return if proofs.length = 0 then none else some (.proofAlternatives effective.id proofs)

/-- The resolver as the node uses it. -/
def toMembershipResolver : MembershipResolver where
  canWrite context := .ok (resolver.canWrite context)
  canValidate context validatorId validatorCapability :=
    .ok (resolver.canValidate context validatorId validatorCapability)
  threshold context := .ok (resolver.threshold context)
  canHeartbeat := some fun groupId membershipRevision validatorId validatorCapability =>
    .ok (resolver.canHeartbeat groupId membershipRevision validatorId validatorCapability)
  canUseTransportAuthor := some fun context => .ok (resolver.canUseTransportAuthor context)
  policyVersion := some fun context => .ok (resolver.policyVersion context)
  selectAdmission := some fun context attestations =>
    (resolver.selectAdmission context attestations).mapError (·.message)
  watermarkPolicy := some fun core => (resolver.watermarkPolicy core).mapError (·.message)

/-! ## The feeds of a writer -/

/-- The feed that a capability is bound to. -/
def transportAuthorOf (snapshot : CapabilitySnapshot) (capability : EffectiveCapability) :
    Option String :=
  match resolver.transportAuthorForCapability with
  | none => capability.grant.transportAuthor
  | some author => author capability snapshot

/-- The writer capabilities of a key that are in force. -/
def writersOf (snapshot : CapabilitySnapshot) (signingId : Bytes) : List EffectiveCapability :=
  snapshot.capabilities.values.filter fun capability =>
    activeRole capability snapshot .writer && capability.grant.signingPublicKey = signingId

variable {resolver} {snapshot : CapabilitySnapshot} {context : TransportAuthorContext}

/-- Only the first capability counts. -/
theorem canUseTransportAuthor_eq_true_iff
    (hsnapshot : resolver.snapshot context.groupId context.membershipRevision = some snapshot)
    (hrole : context.role = .writer) : resolver.canUseTransportAuthor context = true ↔
      ∃ first, (writersOf snapshot context.signingId).head? = some first ∧
        resolver.transportAuthorOf snapshot first = some context.transportAuthor := by
  rw [writersOf, List.head?_filter]
  simp only [canUseTransportAuthor, hsnapshot, boundCapability, hrole, TransportRole.role]
  cases hfind : snapshot.capabilities.values.find? _ with
  | none => simp
  | some first =>
    have hfirst := List.find?_some hfind
    rw [Bool.and_eq_true] at hfirst
    simp [hfirst.1, of_decide_eq_true hfirst.2, transportAuthorOf]

/-- A key may use exactly the feeds of its writer capabilities if no other feed than that of the first
    one is among them. -/
theorem canUseTransportAuthor_iff_bound_iff
    (hsnapshot : resolver.snapshot context.groupId context.membershipRevision = some snapshot)
    (hrole : context.role = .writer) : (resolver.canUseTransportAuthor context = true ↔
      ∃ capability ∈ writersOf snapshot context.signingId,
        resolver.transportAuthorOf snapshot capability = some context.transportAuthor) ↔
    ((∃ capability ∈ (writersOf snapshot context.signingId).tail,
        resolver.transportAuthorOf snapshot capability = some context.transportAuthor) →
      ∃ first, (writersOf snapshot context.signingId).head? = some first ∧
        resolver.transportAuthorOf snapshot first = some context.transportAuthor) := by
  rw [canUseTransportAuthor_eq_true_iff hsnapshot hrole]
  cases writersOf snapshot context.signingId with
  | nil => simp
  | cons first rest =>
    simp only [List.head?_cons, List.exists_mem_cons_iff, Option.some.injEq,
      exists_eq_left']
    exact iff_comm.trans or_iff_left_iff_imp

end CapabilityMembershipResolver

namespace RenewedWriter

open SmallLog (genesis grant revision key)
open Procedure CapabilityMembershipResolver

/-- A group with a writer. -/
def group : SignedGenesis := genesis [grant 1 "x" .writer 0 none]

/-- The key of the writer is bound to another feed as well. -/
def renewal : SignedCapabilityRevision := revision 1 [9] [grant 1 "y" .writer 1 none] []

def codec : CapabilityCodec := .ofTables [([9], group.manifest)] [([21], renewal)] []

def created : CapabilitySnapshot := okValue (genesisSnapshot codec group) (by decide +kernel)

def renewed : CapabilitySnapshot :=
  okValue (applyCapabilityRevision codec created renewal) (by decide +kernel)

def resolver : CapabilityMembershipResolver where
  snapshotForRevision _ := some renewed

def context (feed : String) : TransportAuthorContext := ⟨[0], [21], .writer, key 1, feed, none⟩

/-- The key may use the first feed. -/
theorem uses_first : resolver.snapshot [0] [21] = some renewed ∧
    (resolver.canUseTransportAuthor (context "x") = true ↔ ∃ capability ∈ writersOf renewed (key 1),
        resolver.transportAuthorOf renewed capability = some "x") := by
  have hsnapshot : resolver.snapshot [0] [21] = some renewed := by decide +kernel
  exact ⟨hsnapshot, (canUseTransportAuthor_iff_bound_iff hsnapshot rfl).2
    fun _ => ⟨_, rfl, rfl⟩⟩

/-- It may not use the second, to which another of its capabilities is bound. -/
theorem refuses_second : genesisSnapshot codec group = .ok created ∧
    applyCapabilityRevision codec created renewal = .ok renewed ∧
    resolver.snapshot [0] [21] = some renewed ∧
    resolver.canUseTransportAuthor (context "y") = false ∧ ∃ capability ∈ writersOf renewed (key 1),
      resolver.transportAuthorOf renewed capability = some "y" := by
  decide +kernel

end RenewedWriter

end Chronolog
