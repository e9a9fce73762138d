import Chronolog.Protocol.Messages

/-!
# What the control store stores

The candidates, attestations and heartbeats a node has accepted, the policies
its watermarks are asked for and the deltas that describe its changes.
-/

namespace Chronolog

/-- The states of a candidate. -/
inductive CandidateState
  | waitingForPayload
  | pendingValidation
  | admissible
  | invalidProtocol
  | unauthorized
  | quarantined
  deriving DecidableEq

/-- The states a candidate never leaves for having been refused. -/
def CandidateState.terminalInvalid : CandidateState → Bool
  | invalidProtocol | unauthorized | quarantined => true
  | _ => false

/-- A stored candidate. -/
structure StoredCandidate where
  txId : Bytes
  groupId : Bytes
  candidateDigest : Bytes
  validationPolicy : Bytes
  orderKey : TransactionOrderKey
  canonicalPayload : Option Bytes
  state : CandidateState
  stateReason : Option String
  proofAttestationIds : List Bytes
  deriving DecidableEq

/-- A stored attestation. -/
structure StoredAttestation where
  attestationId : Bytes
  txId : Bytes
  validatorId : Bytes
  validatorCapability : Bytes
  membershipRevision : Bytes
  candidateDigest : Bytes
  validatorFeedSequence : Int
  authorTimestampMs : Int
  acceptedAboveMs : Int
  policyVersion : Int
  /-- The outer feed that carried the attestation. -/
  transportAuthor : String
  deriving DecidableEq

/-- The control store's `ValidatorHeartbeat`: the latest heartbeat of a validator for a revision. -/
structure StoredHeartbeat where
  heartbeatId : Bytes
  validatorId : Bytes
  validatorCapability : Bytes
  membershipRevision : Bytes
  validatorFeedSequence : Int
  acceptanceCutoffMs : Int
  /-- True only if the validator feed is known contiguous through this message. -/
  feedContiguous : Bool
  deriving DecidableEq

/-- What a heartbeat is stored under. -/
def StoredHeartbeat.heartbeatKey (heartbeat : StoredHeartbeat) : Bytes × Bytes :=
  (heartbeat.membershipRevision, heartbeat.validatorId)

/-- The validator sets that can admit a transaction. -/
inductive WatermarkPolicy
  | threshold (policyId : Bytes) (validatorIds : List Bytes) (threshold : Int)
  | proofAlternatives (policyId : Bytes) (minimalProofs : List (List Bytes))
  deriving DecidableEq

/-- Why a watermark is what it is. -/
inductive WatermarkExplanation
  | established
  | insufficientContiguousHeartbeats
  | invalidPolicy
  deriving DecidableEq

/-- A watermark: no set of validators that can admit a transaction still admits
    one at or below the cutoff. -/
structure WatermarkEvidence where
  policyId : Bytes
  cutoffMs : Option Int
  blockingValidatorIds : List Bytes
  heartbeatIds : List Bytes
  explanation : WatermarkExplanation
  deriving DecidableEq

/-- What is known about the settlement of a transaction. -/
structure SettlementEvidence where
  txId : Bytes
  candidateState : CandidateState
  orderKey : TransactionOrderKey
  proofAttestationIds : List Bytes
  watermark : WatermarkEvidence
  belowWatermark : Bool
  unresolvedAttestationIds : List Bytes
  historyReopeningIds : List String
  deriving DecidableEq

/-- A published materialized revision. -/
structure MaterializedHead where
  localRevision : Int
  headRef : String
  orderLength : Nat
  orderDigest : Bytes
  deriving DecidableEq

/-- A stored checkpoint of a prefix of the order. -/
structure StoredCheckpoint where
  prefixLength : Int
  checkpointRef : String
  prefixDigest : Bytes
  pinned : Bool
  deriving DecidableEq

/-- A membership change that reopens the history from a timestamp on. -/
structure HistoryReopening where
  id : String
  floorMs : Int
  membershipRevision : Bytes
  reason : String
  deriving DecidableEq

/-- What a change of the control store was. -/
inductive DeltaKind
  | candidateAdded (txId : Bytes) (state : CandidateState)
  | candidateStateChanged (txId : Bytes) (previousState state : CandidateState)
      (reason : Option String)
  | attestationAdded (attestationId txId : Bytes) (unresolvedCandidate : Bool)
  | orderAppend (txId : Bytes) (index previousLength : Nat)
  | orderInsert (txId : Bytes) (index previousLength : Nat)
  | heartbeatAdvanced (heartbeatId validatorId : Bytes) (cutoffMs : Int) (feedContiguous : Bool)
  | materializedHeadPublished (head : MaterializedHead)
  | checkpointStored (checkpoint : StoredCheckpoint)
  | historyReopened (reopening : HistoryReopening)
  deriving DecidableEq

/-- A change of the control store. -/
structure ControlStoreDelta where
  sequence : Int
  kind : DeltaKind
  deriving DecidableEq

end Chronolog
