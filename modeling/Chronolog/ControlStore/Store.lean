import Chronolog.ControlStore.Types
import Chronolog.Lib.Insertion

/-!
# The control store

The store of a node's accepted records: candidates with their admission state,
attestations, the latest heartbeats, and the total order of the admissible
candidates, kept sorted by binary insertion. Operations are procedures on the
store that may fail with a conflict; changes made before a failure stay, as in
the source. What persistence adds, also by failing, is in `Operations` and
`Durability`.
-/

namespace Chronolog

/-- The conflicts the control store reports. -/
inductive ControlStoreConflictError
  | validatorCutoffRegression
  | candidateConflict
  | attestationConflict
  | invalidAdmissionProof
  | heartbeatCutoffRegression
  | heartbeatConflict
  | headRevisionRegression
  | headRevisionConflict
  | headAheadOfOrder
  | invalidCheckpointPrefix
  | pinnedCheckpointReplacement
  | reopeningConflict
  | unknownCandidate
  | duplicateOrderEntry
  | admissionNotMonotonic
  | terminalState
  | payloadNotVerified
  | payloadStateRegression
  | candidateNotAdmissionEligible
  | corruptDeltaSequence
  | corruptDeltaFloor
  | corruptOrderState
  | corruptDuplicateOrder
  | corruptOrder
  deriving DecidableEq

/-- The stable code of a conflict. -/
def ControlStoreConflictError.code : ControlStoreConflictError → String
  | validatorCutoffRegression => "CONTROL_STORE_VALIDATOR_CUTOFF_REGRESSION"
  | candidateConflict => "CONTROL_STORE_CANDIDATE_CONFLICT"
  | attestationConflict => "CONTROL_STORE_ATTESTATION_CONFLICT"
  | invalidAdmissionProof => "CONTROL_STORE_INVALID_ADMISSION_PROOF"
  | heartbeatCutoffRegression => "CONTROL_STORE_HEARTBEAT_CUTOFF_REGRESSION"
  | heartbeatConflict => "CONTROL_STORE_HEARTBEAT_CONFLICT"
  | headRevisionRegression => "CONTROL_STORE_HEAD_REVISION_REGRESSION"
  | headRevisionConflict => "CONTROL_STORE_HEAD_REVISION_CONFLICT"
  | headAheadOfOrder => "CONTROL_STORE_HEAD_AHEAD_OF_ORDER"
  | invalidCheckpointPrefix => "CONTROL_STORE_INVALID_CHECKPOINT_PREFIX"
  | pinnedCheckpointReplacement => "CONTROL_STORE_PINNED_CHECKPOINT_REPLACEMENT"
  | reopeningConflict => "CONTROL_STORE_REOPENING_CONFLICT"
  | unknownCandidate => "CONTROL_STORE_UNKNOWN_CANDIDATE"
  | duplicateOrderEntry => "CONTROL_STORE_DUPLICATE_ORDER_ENTRY"
  | admissionNotMonotonic => "CONTROL_STORE_ADMISSION_NOT_MONOTONIC"
  | terminalState => "CONTROL_STORE_TERMINAL_STATE"
  | payloadNotVerified => "CONTROL_STORE_PAYLOAD_NOT_VERIFIED"
  | payloadStateRegression => "CONTROL_STORE_PAYLOAD_STATE_REGRESSION"
  | candidateNotAdmissionEligible => "CONTROL_STORE_CANDIDATE_NOT_ADMISSION_ELIGIBLE"
  | corruptDeltaSequence => "CONTROL_STORE_CORRUPT_DELTA_SEQUENCE"
  | corruptDeltaFloor => "CONTROL_STORE_CORRUPT_DELTA_FLOOR"
  | corruptOrderState => "CONTROL_STORE_CORRUPT_ORDER_STATE"
  | corruptDuplicateOrder => "CONTROL_STORE_CORRUPT_DUPLICATE_ORDER"
  | corruptOrder => "CONTROL_STORE_CORRUPT_ORDER"

/-- The state of the control store. -/
structure ControlStore where
  sequence : Int := 0
  deltaFloor : Int := 0
  maximumRetainedDeltas : Nat := 2048
  candidates : KeyedMap StoredCandidate.txId := .empty
  attestations : KeyedMap StoredAttestation.attestationId := .empty
  /-- The ids of the attestations of each transaction. -/
  attestationsByTx : OrdMap Bytes (List Bytes) := .empty
  heartbeats : KeyedMap StoredHeartbeat.heartbeatKey := .empty
  validatorCutoffs : OrdMap Bytes Int := .empty
  orderedTxIds : List Bytes := []
  deltas : List ControlStoreDelta := []
  checkpoints : KeyedMap StoredCheckpoint.prefixLength := .empty
  historyReopenings : KeyedMap HistoryReopening.id := .empty
  materializedHead : Option MaterializedHead := none
  deriving DecidableEq

/-- Procedures on the control store. -/
abbrev ControlStoreM := EStateM ControlStoreConflictError ControlStore

namespace ControlStore

/-- The last announced cutoff of a validator. -/
def validatorCutoff (store : ControlStore) (validatorId : Bytes) : Option Int :=
  store.validatorCutoffs.get? validatorId

/-- Advances the cutoff of a validator. -/
def persistValidatorCutoff (validatorId : Bytes) (acceptedAboveMs : Int) : ControlStoreM Unit := do
  let store ← get
  match store.validatorCutoffs.get? validatorId with
  | some previous =>
    if acceptedAboveMs < previous then throw .validatorCutoffRegression
    if previous = acceptedAboveMs then return
    set { store with validatorCutoffs := store.validatorCutoffs.set validatorId acceptedAboveMs }
  | none =>
    set { store with validatorCutoffs := store.validatorCutoffs.set validatorId acceptedAboveMs }

/-- Drops the oldest deltas beyond those to retain. -/
def trimDeltas (store : ControlStore) : ControlStore :=
  let excess := store.deltas.length - store.maximumRetainedDeltas
  match (store.deltas.take excess).getLast? with
  | none => store
  | some last => { store with deltas := store.deltas.drop excess, deltaFloor := last.sequence }

/-- Records a change. -/
def appendDelta (kind : DeltaKind) : ControlStoreM ControlStoreDelta := do
  let store ← get
  let sequenced : ControlStoreDelta := ⟨store.sequence + 1, kind⟩
  set (trimDeltas { store with
    sequence := store.sequence + 1, deltas := store.deltas ++ [sequenced] })
  return sequenced

/-- The stored candidate with the id. -/
def requiredCandidate (store : ControlStore) (txId : Bytes) :
    Except ControlStoreConflictError StoredCandidate :=
  match store.candidates.get? txId with
  | none => .error .unknownCandidate
  | some candidate => .ok candidate

/-- Is the transaction at a position of the order before the candidate? -/
def orderBefore (store : ControlStore) (candidate : StoredCandidate) (middle : Nat) :
    Except ControlStoreConflictError Bool := do
  let middleCandidate ← store.requiredCandidate (store.orderedTxIds.getD middle [])
  return compareTransactionOrder middleCandidate.orderKey candidate.orderKey = .lt

/-- Inserts a candidate into the order, by binary search. -/
def insertOrder (candidate : StoredCandidate) : ControlStoreM ControlStoreDelta := do
  let store ← get
  let previousLength := store.orderedTxIds.length
  match Insertion.lowerBound (store.orderBefore candidate) previousLength 0 previousLength with
  | .error conflict => throw conflict
  | .ok low =>
    if store.orderedTxIds[low]? = some candidate.txId then throw .duplicateOrderEntry
    set { store with orderedTxIds := Insertion.insertAt store.orderedTxIds low candidate.txId }
    appendDelta <|
      if low = previousLength then .orderAppend candidate.txId low previousLength
      else .orderInsert candidate.txId low previousLength

/-- Do the candidates agree in what identifies them? -/
def sameCandidateIdentity (left right : StoredCandidate) : Bool :=
  left.txId = right.txId && left.groupId = right.groupId &&
  left.candidateDigest = right.candidateDigest &&
  left.validationPolicy = right.validationPolicy && left.orderKey = right.orderKey &&
  left.canonicalPayload = right.canonicalPayload

/-- Stores a candidate; `true` if it is a new one. -/
def putCandidate (candidate : StoredCandidate) : ControlStoreM (Bool × List ControlStoreDelta) := do
  let store ← get
  match store.candidates.get? candidate.txId with
  | some existing =>
    if !sameCandidateIdentity existing candidate then throw .candidateConflict
    return (false, [])
  | none =>
    set { store with candidates := store.candidates.put candidate }
    let added ← appendDelta (.candidateAdded candidate.txId candidate.state)
    if candidate.state = .admissible then
      let inserted ← insertOrder candidate
      return (true, [added, inserted])
    return (true, [added])

/-- The stored candidate with the id, if there is one. -/
def getCandidate (store : ControlStore) (txId : Bytes) : Option StoredCandidate :=
  store.candidates.get? txId

/-- Stores an attestation; `true` if it is a new one. -/
def putAttestation (stored : StoredAttestation) :
    ControlStoreM (Bool × Option ControlStoreDelta) := do
  let store ← get
  match store.attestations.get? stored.attestationId with
  | some existing =>
    if existing ≠ stored then throw .attestationConflict
    return (false, none)
  | none =>
    let refs := (store.attestationsByTx.get? stored.txId).getD []
    set { store with
      attestations := store.attestations.put stored
      attestationsByTx := store.attestationsByTx.set stored.txId <|
        if stored.attestationId ∈ refs then refs else refs ++ [stored.attestationId] }
    let delta ← appendDelta (.attestationAdded stored.attestationId stored.txId
      (!store.candidates.has stored.txId))
    return (true, some delta)

/-- The attestations of a transaction, in the order in which they were stored. -/
def attestationsFor (store : ControlStore) (txId : Bytes) : List StoredAttestation :=
  match store.attestationsByTx.get? txId with
  | none => []
  | some refs => refs.filterMap store.attestations.get?

/-- Refuses a change of a candidate's state that goes back on a decision. -/
def validateStateTransition (previous next : CandidateState) :
    Except ControlStoreConflictError Unit :=
  if previous = next then .ok ()
  else if previous = .admissible then .error .admissionNotMonotonic
  else if previous.terminalInvalid then .error .terminalState
  else if previous = .waitingForPayload ∧ next ≠ .pendingValidation ∧ ¬ next.terminalInvalid then
    .error .payloadNotVerified
  else if next = .waitingForPayload then .error .payloadStateRegression
  else .ok ()

/-- Is every one of the ids that of an attestation of the transaction? -/
def validProof (store : ControlStore) (txId : Bytes) (proofAttestationIds : List Bytes) : Bool :=
  proofAttestationIds.all fun attestationId =>
    match store.attestations.get? attestationId with
    | none => false
    | some attestation => attestation.txId = txId

/-- Changes the state of a candidate; one that becomes admissible is ordered. -/
def setCandidateState (txId : Bytes) (state : CandidateState)
    (proofAttestationIds : Option (List Bytes)) (reason : Option String) :
    ControlStoreM (List ControlStoreDelta) := do
  let store ← get
  match store.requiredCandidate txId with
  | .error conflict => throw conflict
  | .ok candidate =>
    match validateStateTransition candidate.state state with
    | .error conflict => throw conflict
    | .ok () =>
      let proofAttestationIds := proofAttestationIds.getD candidate.proofAttestationIds
      if !store.validProof txId proofAttestationIds then throw .invalidAdmissionProof
      if candidate.state = state ∧ candidate.proofAttestationIds = proofAttestationIds ∧
          candidate.stateReason = reason then return []
      let next : StoredCandidate := { candidate with
        state, stateReason := reason.or candidate.stateReason, proofAttestationIds }
      set { store with candidates := store.candidates.put next }
      let changed ← appendDelta
        (.candidateStateChanged next.txId candidate.state state reason)
      if candidate.state ≠ .admissible ∧ state = .admissible then
        let inserted ← insertOrder next
        return [changed, inserted]
      return [changed]

/-- The order of the admissible transactions. -/
def orderedTransactionIds (store : ControlStore) : List Bytes := store.orderedTxIds

/-- Records a heartbeat, unless a later one of the validator is recorded. -/
def recordHeartbeat (heartbeat : StoredHeartbeat) : ControlStoreM (Option ControlStoreDelta) := do
  let store ← get
  let advance : ControlStoreM (Option ControlStoreDelta) := do
    set { store with heartbeats := store.heartbeats.put heartbeat }
    some <$> appendDelta (.heartbeatAdvanced heartbeat.heartbeatId heartbeat.validatorId
      heartbeat.acceptanceCutoffMs heartbeat.feedContiguous)
  match store.heartbeats.get? heartbeat.heartbeatKey with
  | none => advance
  | some previous =>
    if heartbeat.validatorFeedSequence < previous.validatorFeedSequence then return none
    if heartbeat.acceptanceCutoffMs < previous.acceptanceCutoffMs then
      throw .heartbeatCutoffRegression
    if heartbeat.validatorFeedSequence = previous.validatorFeedSequence then
      if previous ≠ heartbeat then throw .heartbeatConflict
      return none
    advance

/-- Publishes a materialized revision. -/
def publishMaterializedHead (head : MaterializedHead) :
    ControlStoreM (Option ControlStoreDelta) := do
  let store ← get
  let publish : ControlStoreM (Option ControlStoreDelta) := do
    if store.orderedTxIds.length < head.orderLength then throw .headAheadOfOrder
    set { store with materializedHead := some head }
    some <$> appendDelta (.materializedHeadPublished head)
  match store.materializedHead with
  | none => publish
  | some previous =>
    if head.localRevision < previous.localRevision then throw .headRevisionRegression
    if head.localRevision = previous.localRevision then
      if head ≠ previous then throw .headRevisionConflict
      return none
    publish

/-- Stores a checkpoint. One that is pinned is not replaced by one that is not. -/
def putCheckpoint (checkpoint : StoredCheckpoint) : ControlStoreM (Option ControlStoreDelta) := do
  let store ← get
  if checkpoint.prefixLength < 0 ∨ store.orderedTxIds.length < checkpoint.prefixLength then
    throw .invalidCheckpointPrefix
  let previous := store.checkpoints.get? checkpoint.prefixLength
  if previous = some checkpoint then return none
  if previous.any (·.pinned) ∧ ¬ checkpoint.pinned then throw .pinnedCheckpointReplacement
  set { store with checkpoints := store.checkpoints.put checkpoint }
  some <$> appendDelta (.checkpointStored checkpoint)

/-- Records that history is reopened. -/
def recordHistoryReopening (reopening : HistoryReopening) :
    ControlStoreM (Option ControlStoreDelta) := do
  let store ← get
  match store.historyReopenings.get? reopening.id with
  | some previous =>
    if previous ≠ reopening then throw .reopeningConflict
    return none
  | none =>
    set { store with historyReopenings := store.historyReopenings.put reopening }
    some <$> appendDelta (.historyReopened reopening)

end ControlStore

end Chronolog
