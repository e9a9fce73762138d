import Chronolog.NodeCore.FeedForks
import Chronolog.NodeCore.Membership
import Chronolog.NodeCore.Wire

/-!
# The node

How a node ingests the records of its transport. A record is registered with its
feed, read (decoded, verified and authorized), and applied to the control store:
a candidate is stored, an attestation is stored, a heartbeat advances the
validator's cutoff; a candidate whose attestations satisfy its policy is
admitted. A record whose ingestion ends, or ends in an error that no retry
mends, is remembered as seen; any other error puts it into the retry set.

Deliveries run one at a time under the node's mutex, so `ingest` is one step.
What a step reads of its surroundings is a `NodeEnv`. Events and the persistence
of the stores are left out.
-/

namespace Chronolog

/-- The settings of a node that validates. -/
structure ValidatorOptions where
  policyVersion : Option Int := none
  cutoffLagMs : Int := 60000
  maxFutureSkewMs : Int := 30000
  initialAcceptedAboveMs : Int := 0
  deriving DecidableEq

/-- The settings of a node. -/
structure ChronologNodeOptions where
  codec : Codec
  groupId : Bytes
  groupRoute : Option Bytes := none
  /-- The public key of the node. -/
  identity : Bytes
  /-- The feed the node publishes to. -/
  transportIdentity : String
  executionManifestDigest : Bytes
  validator : Option ValidatorOptions := none
  maximumRetryRecords : Nat := 4096
  maximumRetryRecords_pos : 0 < maximumRetryRecords := by decide

/-- The membership a node itself acts under. -/
structure OperationalMembershipState where
  membershipRevision : Bytes
  validationPolicy : Bytes
  validatorCapability : Option Bytes
  deriving DecidableEq

/-- What the transport reports of a feed. -/
structure FeedState where
  feedId : String
  contiguousThrough : String
  deriving DecidableEq

/-- What a node finds around it while it ingests a record. -/
structure NodeEnv where
  membership : MembershipResolver
  membershipState : OperationalMembershipState
  envelopeCipher : Option CipherAccess := none
  blobStore : Option ContentAddressedBlobStore := none
  /-- The feeds in the status of the transport. -/
  feedStates : Except String (List FeedState) := .ok []
  now : Int := 0
  /-- What comes of signing an attestation and publishing it. -/
  publishAttestation : ValidatorAttestation → Except String Unit := fun _ => .ok ()

/-- Why an ingestion fails: for an error that no retry mends, a conflict in the
    control store, or any other error. -/
inductive IngestError
  | terminal (code : String)
  | conflict (error : ControlStoreConflictError)
  | other (message : String)
  deriving DecidableEq

/-- The state of a node. -/
structure NodeState where
  control : ControlStore := {}
  seen : Finset String := ∅
  retryRecords : OrdMap String TransportRecord := .empty
  retryOverflow : Bool := false
  candidateCores : OrdMap Bytes TransactionCore := .empty
  feedForks : FeedForkRegistry := {}
  acceptedAboveMs : Int := 0
  materializationPending : Bool := false
  lastError : Option String := none
  ingestionError : Option String := none
  /-- The attestations handed to the transport. -/
  published : List ValidatorAttestation := []

/-- Procedures of a node. -/
abbrev NodeM := EStateM IngestError NodeState

namespace NodeM

/-- A question to the node's surroundings. -/
def ask {α : Type} : Except String α → NodeM α
  | .ok value => pure value
  | .error message => throw (.other message)

/-- A check of a record. -/
def check {α : Type} : Except IngestError α → NodeM α
  | .ok value => pure value
  | .error error => throw error

/-- A procedure on the node's control store. -/
def control {α : Type} (procedure : ControlStoreM α) : NodeM α := fun state =>
  match procedure state.control with
  | .ok value control => .ok value { state with control }
  | .error error control => .error (.conflict error) { state with control }

/-- A procedure on the node's feed registry. -/
def feedForks {α : Type} (procedure : EStateM String FeedForkRegistry α) : NodeM α := fun state =>
  match procedure state.feedForks with
  | .ok value feedForks => .ok value { state with feedForks }
  | .error message feedForks => .error (.other message) { state with feedForks }

end NodeM

/-- A question to the node's surroundings, in a check of a record. -/
def consult {α : Type} : Except String α → Except IngestError α
  | .ok value => .ok value
  | .error message => .error (.other message)

/-- Refuses a record for good unless the condition holds. -/
def orInvalid (condition : Bool) (code : String) : Except IngestError Unit :=
  if condition then .ok () else .error (.terminal code)

/-- The result of decoding, or the refusal of the record for good. -/
def orTerminal {α : Type} (code : String) : Except String α → Except IngestError α
  | .ok value => .ok value
  | .error _ => .error (.terminal code)

/-- The number a canonical decimal text stands for. -/
def canonicalDecimal (text : String) : Option Nat :=
  match text.toList with
  | [] => none
  | ['0'] => some 0
  | first :: rest =>
    if first ≠ '0' ∧ (first :: rest).all Char.isDigit then
      some (Nat.ofDigitChars 10 (first :: rest) 0)
    else none

/-- A record that was read. -/
inductive IngestMessage
  | ignored
  | candidate (core : TransactionCore) (candidate : StoredCandidate)
  | attestation (value : ValidatorAttestation)
  | heartbeat (value : ValidatorHeartbeat)

/-- The stored form of an attestation carried by a record. -/
def ValidatorAttestation.stored (value : ValidatorAttestation) (record : TransportRecord) :
    StoredAttestation where
  attestationId := utf8 record.id
  txId := value.txId
  validatorId := value.validatorId
  validatorCapability := value.validatorCapability
  membershipRevision := value.membershipRevision
  candidateDigest := value.candidateDigest
  validatorFeedSequence := record.sequence
  authorTimestampMs := value.authorTimestampMs
  acceptedAboveMs := value.acceptedAboveMs
  policyVersion := value.policyVersion
  transportAuthor := record.author

/-- The stored form of a heartbeat carried by a record. -/
def ValidatorHeartbeat.stored (value : ValidatorHeartbeat) (record : TransportRecord)
    (feedContiguous : Bool) : StoredHeartbeat where
  heartbeatId := utf8 record.id
  validatorId := value.validatorId
  validatorCapability := value.validatorCapability
  membershipRevision := value.membershipRevision
  validatorFeedSequence := record.sequence
  acceptanceCutoffMs := value.acceptanceCutoffMs
  feedContiguous := feedContiguous

/-- The cutoff a validator announces: it follows the clock at a distance and never goes back. -/
def advanceValidatorCutoff (validator : ValidatorOptions) (acceptedAboveMs now : Int) : Int :=
  let proposed := max 0 (now - validator.cutoffLagMs)
  if acceptedAboveMs < proposed then proposed else acceptedAboveMs

namespace ChronologNode

variable (options : ChronologNodeOptions) (env : NodeEnv)

/-- The route of the group in envelopes. -/
def groupRoute : Bytes := options.groupRoute.getD options.groupId

/-- May the signing key use the feed? Without a binding of keys to feeds only the
    node's own key may use its own feed. -/
def membershipAllowsTransportAuthor (transportAuthor : String) (role : TransportRole)
    (signingId membershipRevision : Bytes) (validatorCapability : Option Bytes) :
    Except String Bool :=
  match env.membership.canUseTransportAuthor with
  | none => .ok (transportAuthor = options.transportIdentity && signingId = options.identity)
  | some canUseTransportAuthor => canUseTransportAuthor
    ⟨options.groupId, membershipRevision, role, signingId, transportAuthor, validatorCapability⟩

/-- May the validator publish heartbeats? -/
def heartbeatAuthorized (groupId membershipRevision validatorId validatorCapability : Bytes) :
    Except String Bool :=
  match env.membership.canHeartbeat with
  | some canHeartbeat => canHeartbeat groupId membershipRevision validatorId validatorCapability
  | none =>
    if membershipRevision ≠ env.membershipState.membershipRevision then .ok false
    else env.membership.canValidate
      ⟨groupId, membershipRevision, env.membershipState.validationPolicy, validatorId⟩
      validatorId validatorCapability

/-- The version of the policy of a transaction. -/
def expectedPolicyVersion (core : TransactionCore) : Except String Int :=
  match env.membership.policyVersion with
  | none => .ok 1
  | some policyVersion => policyVersion core.context

section

variable (record : TransportRecord)

/-- The message of a record. -/
def decodeRecord : Except IngestError SignedWireMessage :=
  orTerminal "INVALID_SIGNED_ENVELOPE" <|
    decodeSignedEnvelope options.codec record.payload (groupRoute options) env.envelopeCipher
      env.blobStore

/-- Reads a candidate and checks it. -/
def readCandidate (canonical signer : Bytes) :
    Except IngestError IngestMessage := do
  let core ← orTerminal "INVALID_CANDIDATE_PAYLOAD" (options.codec.decodeTransactionCore canonical)
  orInvalid (core.groupId = options.groupId) "CANDIDATE_WRONG_GROUP"
  orInvalid (core.authorId = signer) "CANDIDATE_SIGNER_MISMATCH"
  let allowed ← consult <| membershipAllowsTransportAuthor options env record.author .writer signer
    core.membershipRevision none
  orInvalid allowed "CANDIDATE_TRANSPORT_AUTHOR_UNAUTHORIZED"
  orInvalid (core.executionManifestDigest = options.executionManifestDigest)
    "CANDIDATE_EXECUTION_MANIFEST_DIGEST_MISMATCH"
  orTerminal "CANDIDATE_SQL_INVALID" (options.codec.compileSqlProgram core.program)
  let candidateDigest := options.codec.transactionDigest canonical
  let txId := utf8 record.id
  let canWrite ← consult (env.membership.canWrite core.context)
  let orderKey ← consult ((transactionOrderKey core record.sequence txId).mapError (·.message))
  return .candidate core
    { txId, groupId := core.groupId, candidateDigest, validationPolicy := core.validationPolicy,
      orderKey, canonicalPayload := some canonical,
      state := if canWrite then .pendingValidation else .unauthorized,
      stateReason := if canWrite then none else some "WRITER_UNAUTHORIZED",
      proofAttestationIds := [] }

/-- Reads an attestation and checks it. -/
def readAttestation (encoded signer : Bytes) :
    Except IngestError IngestMessage := do
  let value ← orTerminal "INVALID_ATTESTATION_PAYLOAD"
    (options.codec.decodeValidatorAttestation encoded)
  orInvalid (value.groupId = options.groupId) "ATTESTATION_WRONG_GROUP"
  orInvalid (value.validatorId = signer) "ATTESTATION_SIGNER_MISMATCH"
  let allowed ← consult <| membershipAllowsTransportAuthor options env record.author .validator
    signer value.membershipRevision (some value.validatorCapability)
  orInvalid allowed "ATTESTATION_TRANSPORT_AUTHOR_UNAUTHORIZED"
  return .attestation value

/-- Reads a heartbeat and checks it. -/
def readHeartbeat (encoded signer : Bytes) :
    Except IngestError IngestMessage := do
  let value ← orTerminal "INVALID_HEARTBEAT_PAYLOAD"
    (options.codec.decodeValidatorHeartbeat encoded)
  orInvalid (value.groupId = options.groupId) "HEARTBEAT_WRONG_GROUP"
  orInvalid (value.validatorId = signer) "HEARTBEAT_SIGNER_MISMATCH"
  let allowed ← consult <| membershipAllowsTransportAuthor options env record.author .validator
    signer value.membershipRevision (some value.validatorCapability)
  orInvalid allowed "HEARTBEAT_TRANSPORT_AUTHOR_UNAUTHORIZED"
  let authorized ← consult <| heartbeatAuthorized env value.groupId value.membershipRevision
    value.validatorId value.validatorCapability
  orInvalid authorized "HEARTBEAT_VALIDATOR_UNAUTHORIZED"
  return .heartbeat value

/-- Reads a message by its type and checks it. -/
def readMessage (wire : SignedWireMessage) :
    Except IngestError IngestMessage :=
  match wire.type with
  | .candidate => readCandidate options env record wire.payload wire.signer
  | .attestation => readAttestation options env record wire.payload wire.signer
  | .heartbeat => readHeartbeat options env record wire.payload wire.signer

/-- Reads a record and checks it. Envelopes of other types are none of the node's concern. -/
def readRecord : Except IngestError IngestMessage := do
  let envelope ← consult (options.codec.decodeEnvelope record.payload)
  if envelope.messageType ≠ .candidate ∧ envelope.messageType ≠ .attestation ∧
      envelope.messageType ≠ .heartbeat then
    return .ignored
  let wire ← decodeRecord options env record
  readMessage options env record wire

end

/-- May the attestation's validator use the feed that carried it? -/
def proofTransportAuthorized (core : TransactionCore) (attestation : StoredAttestation) :
    Except String Bool :=
  match env.membership.canUseTransportAuthor with
  | some canUseTransportAuthor => canUseTransportAuthor
    ⟨core.groupId, core.membershipRevision, .validator, attestation.validatorId,
      attestation.transportAuthor, some attestation.validatorCapability⟩
  | none => .ok (attestation.transportAuthor = options.transportIdentity &&
    attestation.validatorId = options.identity)

section

variable (candidate : StoredCandidate) (core : TransactionCore)

/-- May the attestation be part of the proof that admits the candidate? -/
def isValidAdmissionProof (attestation : StoredAttestation) : Except String Bool := do
  if attestation.txId ≠ candidate.txId ∨
      attestation.candidateDigest ≠ candidate.candidateDigest ∨
      attestation.membershipRevision ≠ core.membershipRevision ∨
      attestation.authorTimestampMs ≠ core.authorTimestampMs ∨
      attestation.authorTimestampMs ≤ attestation.acceptedAboveMs then
    return false
  if attestation.policyVersion ≠ (← expectedPolicyVersion env core) then return false
  if !(← proofTransportAuthorized options env core attestation) then return false
  env.membership.canValidate core.context attestation.validatorId attestation.validatorCapability

/-- The first valid attestation of every validator that is not one of those found before. -/
def eligibleAttestations :
    (validators : List Bytes) → List StoredAttestation → Except String (List StoredAttestation)
  | _, [] => .ok []
  | validators, attestation :: attestations => do
    if attestation.validatorId ∈ validators then
      eligibleAttestations validators attestations
    else if ← isValidAdmissionProof options env candidate core attestation then
      return attestation :: (← eligibleAttestations (attestation.validatorId :: validators)
        attestations)
    else eligibleAttestations validators attestations

/-- The ids of the attestations that admit the candidate, if they do. -/
def admissionProof (attestations : List StoredAttestation) : Except String (Option (List Bytes)) := do
  let threshold ← env.membership.threshold core.context
  if !isSafeInteger threshold ∨ threshold < 1 then .error "INVALID_VALIDATION_THRESHOLD"
  let eligible ← eligibleAttestations options env candidate core [] attestations
  match env.membership.selectAdmission with
  | some selectAdmission =>
    let customSelection ← selectAdmission core.context eligible
    if customSelection.length = 0 then return none
    if ∃ item ∈ customSelection, item.attestationId ∉ eligible.map (·.attestationId) then
      .error "MEMBERSHIP_RESOLVER_RETURNED_UNKNOWN_ATTESTATION"
    return some (customSelection.map (·.attestationId))
  | none =>
    if (eligible.length : Int) < threshold then return none
    return some ((eligible.take threshold.toNat).map (·.attestationId))

end

/-- Admits a pending candidate if its attestations do. -/
def evaluateAdmission (txId : Bytes) (core : TransactionCore) : NodeM Unit := do
  let state ← get
  match state.control.getCandidate txId with
  | none => return
  | some candidate =>
    if candidate.state ≠ .pendingValidation then return
    let proof ← NodeM.ask
      (admissionProof options env candidate core (state.control.attestationsFor txId))
    match proof with
    | none => return
    | some proofAttestationIds =>
      let _ ← NodeM.control
        (ControlStore.setCandidateState txId .admissible (some proofAttestationIds) none)
      modify fun state => { state with materializationPending := true }

/-- Persists the cutoff of a node that validates. -/
def persistValidatorCutoff : NodeM Unit := do
  if options.validator.isSome then
    NodeM.control (ControlStore.persistValidatorCutoff options.identity (← get).acceptedAboveMs)

/-- The attestation a validating node publishes for a candidate, if it does. -/
def attestationFor (validator : ValidatorOptions) (validatorCapability txId : Bytes)
    (candidate : StoredCandidate) (core : TransactionCore) (acceptedAboveMs : Int)
    (attestations : List StoredAttestation) : Except String (Option ValidatorAttestation) := do
  if env.now + validator.maxFutureSkewMs < core.authorTimestampMs ∨
      core.authorTimestampMs ≤ acceptedAboveMs then return none
  if !(← env.membership.canValidate core.context options.identity validatorCapability) then
    return none
  if !(← membershipAllowsTransportAuthor options env options.transportIdentity .validator
      options.identity core.membershipRevision (some validatorCapability)) then
    .error "LOCAL_TRANSPORT_AUTHOR_UNAUTHORIZED"
  if attestations.any (·.validatorId = options.identity) then return none
  let policyVersion ← expectedPolicyVersion env core
  if policyVersion < 0 then return none
  if validator.policyVersion.getD policyVersion ≠ policyVersion then
    .error "VALIDATOR_POLICY_VERSION_MISMATCH"
  return some
    { groupId := core.groupId, membershipRevision := core.membershipRevision,
      validatorCapability, txId, validatorId := options.identity,
      authorTimestampMs := core.authorTimestampMs, acceptedAboveMs,
      candidateDigest := candidate.candidateDigest, policyVersion }

/-- Publishes an attestation, if there is one. -/
def publishAttestation : Option ValidatorAttestation → NodeM Unit
  | none => return
  | some attestation => do
    NodeM.ask (env.publishAttestation attestation)
    modify fun state => { state with published := state.published ++ [attestation] }

/-- Attests a candidate if the node validates and may. -/
def maybeAttest (txId : Bytes) (candidate : StoredCandidate) (core : TransactionCore) :
    NodeM Unit := do
  match options.validator, env.membershipState.validatorCapability with
  | some validator, some validatorCapability =>
    let advanced := advanceValidatorCutoff validator (← get).acceptedAboveMs env.now
    modify fun state => { state with acceptedAboveMs := advanced }
    persistValidatorCutoff options
    let state ← get
    let attestation ← NodeM.ask <| attestationFor options env validator validatorCapability txId
      candidate core state.acceptedAboveMs (state.control.attestationsFor txId)
    publishAttestation env attestation
  | _, _ => return

/-- Applies a candidate. -/
def ingestCandidate (core : TransactionCore) (candidate : StoredCandidate) : NodeM Unit := do
  let _ ← NodeM.control (ControlStore.putCandidate candidate)
  let candidateCores := (← get).candidateCores.set candidate.txId core
  modify fun state => { state with candidateCores }
  if candidate.state = .pendingValidation then
    evaluateAdmission options env candidate.txId core
    maybeAttest options env candidate.txId candidate core

/-- Follows a cutoff that the node itself announced. -/
def followCutoff (own : Bool) (cutoff : Int) : NodeM Unit := do
  let state ← get
  if own ∧ state.acceptedAboveMs < cutoff then
    set { state with acceptedAboveMs := cutoff }
    persistValidatorCutoff options

section

variable (record : TransportRecord)

/-- Applies an attestation. -/
def ingestAttestation (value : ValidatorAttestation) : NodeM Unit := do
  followCutoff options
    (value.validatorId = options.identity && record.author = options.transportIdentity)
    value.acceptedAboveMs
  let core := (← get).candidateCores.get? value.txId
  let _ ← NodeM.control (ControlStore.putAttestation (value.stored record))
  match core with
  | some core => evaluateAdmission options env value.txId core
  | none => return

/-- Does the transport have all records of the feed up to this one? -/
def isFeedContiguous : Except String Bool := do
  let feedStates ← env.feedStates
  match feedStates.find? (·.feedId = record.author) with
  | none => return false
  | some feed =>
    match canonicalDecimal feed.contiguousThrough with
    | none => return false
    | some contiguousThrough => return record.sequence ≤ contiguousThrough

/-- Applies a heartbeat. -/
def ingestHeartbeat (value : ValidatorHeartbeat) : NodeM Unit := do
  followCutoff options (value.validatorId = options.identity) value.acceptanceCutoffMs
  let feedContiguous ← NodeM.ask (isFeedContiguous env record)
  let _ ← NodeM.control (ControlStore.recordHeartbeat (value.stored record feedContiguous))

/-- Applies a record that was read. -/
def applyMessage : IngestMessage → NodeM Unit
  | .ignored => return
  | .candidate core candidate => ingestCandidate options env core candidate
  | .attestation value => ingestAttestation options env record value
  | .heartbeat value => ingestHeartbeat options env record value

/-- Remembers a record as seen. -/
def markSeen : NodeM Unit :=
  modify fun state => { state with seen := insert record.id state.seen }

/-- Remembers a record as seen and done with. -/
def finish (state : NodeState) : NodeState :=
  { state with
    seen := insert record.id state.seen
    retryRecords := state.retryRecords.erase record.id }

/-- Applies a record that was read, and is done with it. -/
def applyRecord (message : IngestMessage) : NodeM Unit := do
  applyMessage options env record message
  modify (finish record)
  modify fun state =>
    if state.retryRecords.size = 0 ∧ !state.retryOverflow then
      { state with ingestionError := none }
    else state

/-- Ingests a record, or fails. -/
def ingestRecord : NodeM Unit := do
  match ← NodeM.feedForks (FeedForkRegistry.observe record) with
  | .discarded => markSeen record
  | .quarantined =>
    markSeen record
    modify fun state => { state with lastError := some s!"FEED_FORK_QUARANTINED:{record.author}" }
  | .accepted | .duplicate =>
    match ← NodeM.check (readRecord options env record) with
    | .ignored => markSeen record
    | message => applyRecord options env record message

/-- Ingests a record that was not seen before. -/
def ingest (state : NodeState) : NodeState :=
  if record.id ∈ state.seen then state
  else match ingestRecord options env record state with
    | .ok () state => state
    | .error (.terminal _) state => finish record state
    | .error (.conflict error) state => { finish record state with lastError := some error.code }
    | .error (.other message) state =>
      -- Retries are bounded; what does not fit is found again in the transport's history.
      let state :=
        if state.retryRecords.has record.id ∨ state.retryRecords.size < options.maximumRetryRecords
        then { state with retryRecords := state.retryRecords.set record.id record }
        else { state with retryOverflow := true }
      { state with ingestionError := some message }

end

end ChronologNode

end Chronolog
