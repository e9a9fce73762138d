import Chronolog.ControlStore.Operations
import Chronolog.Lib.Reads
import Chronolog.NodeCore.Node
import Chronolog.Protocol.SqlCodec

/-!
# What the service answers about a transaction and the node

The answers of the service are put together from reads of the node at several times: a call looks at the
node, waits for the transport or the membership, and looks at it again. A call is a function of the states
of the node at its reads, in their order.

The outcome of a transaction is read with the materialized revision before the call waits, and the
revision of the event set afterwards. They are those of one state of the node exactly if no event was
emitted after the outcome had changed (`exists_agrees_iff`).
-/

namespace Chronolog.Rpc

open Procedure Option

/-! ## Texts -/

/-- The digits of base 64 for URLs. -/
def base64UrlDigit (value : ℕ) : Char :=
  "ABCDEFGHIJKLMNOPQRSTUVWXYZabcdefghijklmnopqrstuvwxyz0123456789-_".toList.getD value 'A'

/-- The digits of bytes, three bytes at a time, without padding. -/
def base64UrlDigits : List ℕ → List Char
  | a :: b :: c :: rest =>
    base64UrlDigit (a / 4) :: base64UrlDigit (a % 4 * 16 + b / 16) ::
      base64UrlDigit (b % 16 * 4 + c / 64) :: base64UrlDigit (c % 64) :: base64UrlDigits rest
  | [a, b] => [base64UrlDigit (a / 4), base64UrlDigit (a % 4 * 16 + b / 16),
      base64UrlDigit (b % 16 * 4)]
  | [a] => [base64UrlDigit (a / 4), base64UrlDigit (a % 4 * 16)]
  | [] => []

def toBase64Url (value : Bytes) : String :=
  String.ofList (base64UrlDigits (value.map UInt8.toNat))

def orderKeyText (key : TransactionOrderKey) : String :=
  toString key.authorTimestampMs ++ ":" ++ toBase64Url key.authorId ++ ":" ++
    toString key.authorFeedSequence ++ ":" ++ toBase64Url key.txId

/-! ## The node as the service sees it -/

/-- The outcomes of a materialized transaction. -/
inductive MaterializedOutcomeKind
  | accepted | rejectedPrecondition | rejectedExecution
  deriving DecidableEq

def MaterializedOutcomeKind.text : MaterializedOutcomeKind → String
  | accepted => "accepted"
  | rejectedPrecondition => "rejected_precondition"
  | rejectedExecution => "rejected_execution"

/-- The phases in which a transaction can be rejected. -/
inductive FailurePhase
  | precondition | statement | finalize
  deriving DecidableEq

/-- The row of a transaction in the materialized log. -/
structure RpcMaterializedOutcome where
  outcome : MaterializedOutcomeKind
  rejectionCode : Option String := none
  failingPreconditionId : Option ℕ := none
  failingPreconditionIndex : Option ℕ := none
  failingStatementIndex : Option ℕ := none
  failurePhase : Option FailurePhase := none
  failingConstraintIdentity : Option Bytes := none
  failingTriggerIdentity : Option Bytes := none
  /-- Does it have the version of envelopes that there is? -/
  resultEnvelopeVersion : Bool := false
  resultEnvelope : Option Bytes := none
  resultDigest : Option Bytes := none
  deriving DecidableEq

/-- What the transport reports of itself. -/
structure TransportStatus where
  records : ℕ := 0
  peers : List String := []
  configuredPeers : Option (List String) := none
  feedsWithGaps : Option ℕ := none
  /-- Whether each feed has gaps. -/
  feedStates : Option (List Bool) := none
  lastCatchUpError : Option String := none
  deriving DecidableEq

/-- The node, its materializer, its transport and its membership at one time. -/
structure NodeView extends NodeState where
  groupId : Bytes
  identity : Bytes
  executionManifestDigest : Bytes
  validating : Bool := false
  started : Bool := true
  /-- The revision of the event set. -/
  revision : Int := 0
  /-- The revision, the order length and the log that the materializer has published. -/
  materializedRevision : Int := 0
  orderLength : ℕ := 0
  log : OrdMap Bytes RpcMaterializedOutcome := .empty
  /-- The transactions whose outcome was changed by a replay. -/
  replayedOutcomes : List Bytes := []
  transport : Except String TransportStatus := .ok {}
  /-- The answers of the membership. -/
  canWrite : Except String Bool := .ok true
  watermarkPolicy : TransactionCore → Except String (Option WatermarkPolicy) := fun _ => .ok none

namespace NodeView

section

variable (node : NodeView) (txId : Bytes)

def candidate : Option StoredCandidate :=
  node.control.getCandidate txId

def candidateCore : Option TransactionCore :=
  node.candidateCores.get? txId

def outcome : Option RpcMaterializedOutcome :=
  node.log.get? txId

def outcomeChangedByReplay : Bool :=
  node.replayedOutcomes.contains txId

end

end NodeView

/-! ## The answers -/

inductive RpcErrorCode
  | notFound | internal
  deriving DecidableEq

/-- Why a call fails: with an error of the service, or with one of what it asks. -/
inductive RpcError
  | chronologRpcError (code : RpcErrorCode) (message : String)
  | codec (error : Canonical.CodecError)
  | thrown (message : String)
  deriving DecidableEq

/-- The status of a node. -/
structure RpcNodeStatusSnapshot where
  started : Bool
  materializedRevision : Int
  orderLength : ℕ
  validating : Bool
  processedTransportRecords : ℕ
  materializationPending : Bool
  quarantinedFeeds : List String
  lastError : Option String
  transport : TransportStatus

/-- The status of a node. The transport is asked for its own last but for the quarantined feeds, which are
    looked up after its answer. -/
def status (localeCompare : String → String → Bool) (before asked after : NodeView) :
    Except RpcError RpcNodeStatusSnapshot := do
  let transport ← asked.transport.mapError .thrown
  return {
    started := before.started
    materializedRevision := before.materializedRevision
    orderLength := before.orderLength
    validating := before.validating
    processedTransportRecords := before.seen.card
    materializationPending := before.materializationPending
    quarantinedFeeds := (after.feedForks.quarantines.values.map (·.feedId)).mergeSort localeCompare
    lastError := before.lastError.or before.ingestionError
    transport }

inductive TransactionPhase
  | collectingAttestations | admissible | accepted | rejected
  deriving DecidableEq

structure RejectionAttribution where
  phase : FailurePhase
  code : String
  preconditionId : Option ℕ
  preconditionIndex : Option ℕ
  statementIndex : Option ℕ
  constraintIdentity : Option CanonicalSchemaIdentity
  triggerIdentity : Option CanonicalSchemaIdentity
  applicationLabel : Option String
  deriving DecidableEq

inductive TransactionResult
  | pending
  | accepted (digest : String) (byteLength : ℕ)
  | rejected (attribution : RejectionAttribution)
  deriving DecidableEq

structure TransactionOutcome where
  transactionId : String
  phase : TransactionPhase
  outcome : TransactionResult
  eventSetRevision : String
  materializedRevision : String
  orderKey : String
  changedByReplay : Bool
  admissible : Bool
  deriving DecidableEq

/-- The label of the precondition that failed. -/
def applicationLabel (outcome : RpcMaterializedOutcome) (core : Option TransactionCore) :
    Option String := do
  let index ← outcome.failingPreconditionIndex
  let core ← core
  let precondition ← core.program.preconditions[index]?
  precondition.label

def decodeIdentity : Option Bytes → Except RpcError (Option CanonicalSchemaIdentity)
  | none => .ok none
  | some bytes => ((Protocol.decodeCanonicalSchemaIdentity bytes).map some).mapError .codec

def rejectionAttribution (outcome : RpcMaterializedOutcome) (label : Option String) :
    Except RpcError RejectionAttribution := do
  return {
    phase := outcome.failurePhase.getD .finalize
    code := outcome.rejectionCode.getD outcome.outcome.text
    preconditionId := outcome.failingPreconditionId
    preconditionIndex := outcome.failingPreconditionIndex
    statementIndex := outcome.failingStatementIndex
    constraintIdentity := ← decodeIdentity outcome.failingConstraintIdentity
    triggerIdentity := ← decodeIdentity outcome.failingTriggerIdentity
    applicationLabel := label }

def requireEnvelopeVersion (outcome : RpcMaterializedOutcome) : Except RpcError Unit :=
  if outcome.resultEnvelopeVersion then .ok ()
  else .error (.chronologRpcError .internal "Accepted transaction has no result envelope version")

def requireOutcomeDigest (outcome : RpcMaterializedOutcome) : Except RpcError Bytes :=
  match outcome.resultDigest with
  | some digest => .ok digest
  | none => .error (.chronologRpcError .internal "Accepted transaction has no result digest")

/-- The phase of a transaction, by its candidate and its outcome. -/
def transactionPhase (candidate : StoredCandidate) :
    Option RpcMaterializedOutcome → TransactionPhase
  | none => if candidate.state = .admissible then .admissible else .collectingAttestations
  | some outcome => if outcome.outcome = .accepted then .accepted else .rejected

/-- The result that is reported for an outcome. -/
def transactionResult (core : Option TransactionCore) :
    Option RpcMaterializedOutcome → Except RpcError TransactionResult
  | none => .ok .pending
  | some outcome => do
    if outcome.outcome = .accepted then
      requireEnvelopeVersion outcome
      return .accepted (toBase64Url (← requireOutcomeDigest outcome))
        ((outcome.resultEnvelope.map (·.length)).getD 0)
    else return .rejected (← rejectionAttribution outcome (applicationLabel outcome core))

/-- A request names the group of the node. -/
def assertGroup (groupId : String) (node : NodeView) : Except RpcError Unit :=
  if groupId = toBase64Url node.groupId then .ok ()
  else .error (.chronologRpcError .notFound "Unknown group")

section

variable (localeCompare : String → String → Bool) (groupId transactionId : String)

/-- The outcome of a transaction. -/
def getOutcome (before asked after : NodeView) : Except RpcError TransactionOutcome := do
  assertGroup groupId before
  let txId := utf8 transactionId
  match before.candidate txId with
  | none => .error (.chronologRpcError .notFound "Unknown transaction")
  | some candidate =>
    let outcome := before.outcome txId
    let status ← status localeCompare before asked after
    return {
      transactionId
      phase := transactionPhase candidate outcome
      outcome := ← transactionResult (after.candidateCore txId) outcome
      eventSetRevision := toString after.revision
      materializedRevision := toString status.materializedRevision
      orderKey := orderKeyText candidate.orderKey
      changedByReplay := after.outcomeChangedByReplay txId
      admissible := candidate.state = .admissible }

end

inductive SettlementConfidence
  | insufficient | provisional | policyWatermarkReached | historyReopened
  deriving DecidableEq

structure HistoryReopeningEvent where
  eventId : String
  effectiveFromTimestamp : String
  membershipRevision : String
  deriving DecidableEq

/-- The evidence of settlement that the service reports. -/
structure RpcSettlementEvidence where
  transactionId : String
  outcome : TransactionOutcome
  evidenceRevision : String
  orderKey : String
  authorTimestamp : String
  validationPolicyId : String
  membershipRevision : String
  policyWatermarkTimestamp : Option String
  blockingHeartbeats : List String
  /-- The attestations of unknown transactions. -/
  unresolvedReferences : List String
  historyReopeningEvents : List HistoryReopeningEvent
  confidence : SettlementConfidence
  deriving DecidableEq

/-- The evidence that a node has of a transaction. The membership is asked for the policy in between. -/
def settlementEvidence (txId : Bytes) (before asked after : NodeView) :
    Except RpcError (Option SettlementEvidence) :=
  match before.candidateCore txId with
  | none => .ok none
  | some core => do
    match ← (asked.watermarkPolicy core).mapError .thrown with
    | none => return none
    | some policy =>
      some <$> (after.control.settlementEvidence txId policy (some core.membershipRevision)).mapError
        fun conflict => .thrown conflict.code

/-- The reopenings of the evidence that the store has. -/
def historyReopeningEvents (store : ControlStore) (ids : List String) :
    List HistoryReopeningEvent :=
  ids.filterMap fun id => (store.historyReopenings.get? id).map fun event => {
    eventId := event.id
    effectiveFromTimestamp := toString event.floorMs
    membershipRevision := toBase64Url event.membershipRevision }

def settlementConfidence (events : List HistoryReopeningEvent) :
    Option SettlementEvidence → SettlementConfidence
  | none => if events ≠ [] then .historyReopened else .insufficient
  | some evidence =>
    if events ≠ [] then .historyReopened
    else if evidence.belowWatermark then .policyWatermarkReached else .provisional

section

variable (localeCompare : String → String → Bool) (groupId transactionId : String)

/-- The evidence of settlement of a transaction: its outcome first, with three reads of the node, and then
    what the node has of it. -/
def getSettlementEvidence (first second third before asked after last : NodeView) :
    Except RpcError RpcSettlementEvidence := do
  let outcome ← getOutcome localeCompare groupId transactionId first second third
  let txId := utf8 transactionId
  match before.candidate txId, before.candidateCore txId with
  | some candidate, some core =>
    let evidence ← settlementEvidence txId before asked after
    let events := historyReopeningEvents last.control
      ((evidence.map (·.historyReopeningIds)).getD [])
    return {
      transactionId
      outcome
      evidenceRevision := toString last.revision
      orderKey := orderKeyText candidate.orderKey
      authorTimestamp := toString core.authorTimestampMs
      validationPolicyId := toBase64Url core.validationPolicy
      membershipRevision := toBase64Url core.membershipRevision
      policyWatermarkTimestamp := evidence.bind fun evidence =>
        evidence.watermark.cutoffMs.map toString
      blockingHeartbeats := (evidence.map fun evidence =>
        evidence.watermark.heartbeatIds.map toBase64Url).getD []
      unresolvedReferences := (evidence.map fun evidence =>
        evidence.unresolvedAttestationIds.map toBase64Url).getD []
      historyReopeningEvents := events
      confidence := settlementConfidence events evidence }
  | _, _ => .error (.chronologRpcError .notFound "Unknown transaction")

end

inductive NodeLifecycleState
  | starting | ready | degraded
  deriving DecidableEq

structure RevisionMetadata where
  groupId : String
  eventSetRevision : String
  materializedRevision : String
  publishedOrderLength : String
  executionManifestDigest : String
  deriving DecidableEq

/-- The status of a node that the service reports. -/
structure RpcNodeStatus where
  state : NodeLifecycleState
  nodeId : String
  revision : RevisionMetadata
  writable : Bool
  validating : Bool
  lastErrorCode : Option String
  deriving DecidableEq

/-- Can the node write? A node with a quarantined feed cannot. -/
def isWritable (before asked : NodeView) : Except RpcError Bool :=
  if before.feedForks.quarantines.values ≠ [] then .ok false else asked.canWrite.mapError .thrown

def revisionMetadata (node : NodeView) (materializedRevision : Int) (orderLength : ℕ) :
    RevisionMetadata where
  groupId := toBase64Url node.groupId
  eventSetRevision := toString node.revision
  materializedRevision := toString materializedRevision
  publishedOrderLength := toString orderLength
  executionManifestDigest := toBase64Url node.executionManifestDigest

def getStatus (localeCompare : String → String → Bool) (groupId : Option String)
    (first second third before asked : NodeView) : Except RpcError RpcNodeStatus := do
  (match groupId with
    | none => pure ()
    | some groupId => assertGroup groupId first)
  let status ← status localeCompare first second third
  return {
    state := if !status.started then .starting
      else if status.lastError = none ∧ status.quarantinedFeeds = [] then .ready else .degraded
    nodeId := toBase64Url before.identity
    revision := revisionMetadata before status.materializedRevision status.orderLength
    writable := ← isWritable before asked
    validating := status.validating
    lastErrorCode := status.lastError }

inductive ReplicationState
  | offline | syncing | current | degraded
  deriving DecidableEq

structure ReplicationStatus where
  groupId : String
  revision : String
  connectedPeers : ℕ
  knownPeers : ℕ
  feedsWithGaps : ℕ
  quarantinedFeeds : List String
  pendingPayloads : ℕ
  ingestionBacklog : ℕ
  materializationPending : Bool
  state : ReplicationState
  deriving DecidableEq

def getReplicationStatus (localeCompare : String → String → Bool) (groupId : String)
    (first second third last : NodeView) : Except RpcError ReplicationStatus := do
  assertGroup groupId first
  let status ← status localeCompare first second third
  let transport := status.transport
  let knownPeers := (transport.configuredPeers.map (·.length)).getD transport.peers.length
  let ingestionBacklog := transport.records - status.processedTransportRecords
  let feedsWithGaps := (transport.feedsWithGaps.or
    (transport.feedStates.map fun feeds => feeds.countP id)).getD 0
  let pendingPayloads := (last.control.candidates.values.filter
    (·.state = .waitingForPayload)).length
  return {
    groupId := toBase64Url last.groupId
    revision := toString last.revision
    connectedPeers := transport.peers.length
    knownPeers
    feedsWithGaps
    quarantinedFeeds := status.quarantinedFeeds
    pendingPayloads
    ingestionBacklog
    materializationPending := status.materializationPending
    state :=
      if status.lastError ≠ none ∨ transport.lastCatchUpError ≠ none ∨
          status.quarantinedFeeds ≠ [] then .degraded
      else if 0 < ingestionBacklog ∨ 0 < feedsWithGaps ∨ 0 < pendingPayloads ∨
          status.materializationPending then .syncing
      else if knownPeers = 0 ∨ 0 < transport.peers.length then .current else .offline }

/-! ## The node while a call waits -/

section

variable (decode : Bytes → Except String TransactionCore)

/-- A step of the node. `decode` reads a core. -/
inductive NodeStep : NodeView → NodeView → Prop
  | control {s : NodeView} (operation : ControlStoreOperation) (saved : Except String Unit)
      (hnamed : operation.Named) :
      NodeStep s
        { s with control := finalState (ControlStore.perform saved operation s.control) }
  -- The core of a candidate is kept once the candidate is stored.
  | core {s : NodeView} {txId payload : Bytes} {candidate : StoredCandidate} {core : TransactionCore}
      (hcandidate : s.candidate txId = some candidate)
      (hpayload : candidate.canonicalPayload = some payload) (hcore : decode payload = .ok core) :
      NodeStep s { s with candidateCores := s.candidateCores.set txId core }
  -- The materializer publishes a revision and its log.
  | materialize {s : NodeView} (revision : Int) (orderLength : ℕ)
      (log : OrdMap Bytes RpcMaterializedOutcome) (hrevision : s.materializedRevision < revision) :
      NodeStep s { s with materializedRevision := revision, orderLength, log }
  | emit {s : NodeView} :
      NodeStep s { s with revision := max (s.revision + 1) s.control.sequence }
  -- Anything else changes: errors, the transport, the membership, records and feeds.
  | other {s s' : NodeView} (hcontrol : s'.control = s.control)
      (hcores : s'.candidateCores = s.candidateCores) (hrevision : s'.revision = s.revision)
      (hmaterialized : s'.materializedRevision = s.materializedRevision) (hlog : s'.log = s.log) :
      NodeStep s s'

/-- A run of a node, which may also do nothing for some time. It starts without any core. -/
structure IsRun (run : ℕ → NodeView) : Prop where
  start : (run 0).candidateCores = .empty
  step : ∀ n, run (n + 1) = run n ∨ NodeStep decode (run n) (run (n + 1))

/-- The cores are those of the payloads of the candidates. -/
def Faithful (s : NodeView) : Prop :=
  ∀ txId core, s.candidateCore txId = some core → ∃ candidate payload,
    s.candidate txId = some candidate ∧ candidate.canonicalPayload = some payload ∧
      decode payload = .ok core

end

/-- What only moves on, for a transaction. -/
structure Later (txId : Bytes) (s s' : NodeView) : Prop where
  revision : s.revision ≤ s'.revision
  materializedRevision : s.materializedRevision ≤ s'.materializedRevision
  log : s'.materializedRevision = s.materializedRevision → s'.log = s.log
  candidate : ∀ candidate, s.candidate txId = some candidate → ∃ candidate',
    s'.candidate txId = some candidate' ∧ candidate'.orderKey = candidate.orderKey ∧
      (candidate.state = .admissible → candidate'.state = .admissible)
  core : ∀ core, s.candidateCore txId = some core → s'.candidateCore txId = some core

section

variable {decode : Bytes → Except String TransactionCore} {txId : Bytes} {s s' s'' : NodeView}

theorem Later.refl (s : NodeView) : Later txId s s :=
  ⟨le_rfl, le_rfl, fun _ => rfl, fun candidate h => ⟨candidate, h, rfl, id⟩, fun _ h => h⟩

theorem Later.trans (h : Later txId s s') (h' : Later txId s' s'') : Later txId s s'' where
  revision := h.revision.trans h'.revision
  materializedRevision := h.materializedRevision.trans h'.materializedRevision
  log heq := by
    have hle := h.materializedRevision
    have hle' := h'.materializedRevision
    exact (h'.log (by omega)).trans (h.log (by omega))
  candidate candidate hget := by
    obtain ⟨candidate', hget', hkey, hstate⟩ := h.candidate candidate hget
    obtain ⟨candidate'', hget'', hkey', hstate'⟩ := h'.candidate candidate' hget'
    exact ⟨candidate'', hget'', hkey'.trans hkey, fun hadmissible => hstate' (hstate hadmissible)⟩
  core core hcore := h'.core core (h.core core hcore)

theorem NodeStep.faithful (h : NodeStep decode s s') (hs : Faithful decode s) :
    Faithful decode s' := by
  cases h with
  | control operation saved _ =>
    intro txId core hcore
    obtain ⟨candidate, payload, hget, hpayload, hdecode⟩ := hs txId core hcore
    obtain ⟨candidate', hget', -, hpayload'⟩ :=
      ControlStore.getCandidate_perform saved operation hget
    exact ⟨candidate', payload, hget', hpayload'.trans hpayload, hdecode⟩
  | @core kept payload candidate core hcandidate hpayload hdecode =>
    intro txId found hfound
    rw [NodeView.candidateCore, OrdMap.get?_set] at hfound
    split_ifs at hfound with htx
    · obtain rfl : core = found := some.inj hfound
      exact ⟨candidate, payload, htx ▸ hcandidate, hpayload, hdecode⟩
    · exact hs txId found hfound
  | materialize _ _ _ _ => exact hs
  | emit => exact hs
  | other hcontrol hcores _ _ _ =>
    intro txId core hcore
    rw [NodeView.candidateCore, hcores] at hcore
    rw [NodeView.candidate, hcontrol]
    exact hs txId core hcore

theorem NodeStep.later (h : NodeStep decode s s') (hs : Faithful decode s) : Later txId s s' := by
  cases h with
  | control operation saved hnamed =>
    refine ⟨le_rfl, le_rfl, fun _ => rfl, fun candidate hget => ?_, fun _ h => h⟩
    obtain ⟨candidate', hget', hkey, -⟩ := ControlStore.getCandidate_perform saved operation hget
    refine ⟨candidate', hget', hkey, fun hadmissible => ?_⟩
    obtain ⟨candidate'', hget'', hstate⟩ := (ControlStore.advances_perform saved hnamed).decided
      txId candidate hget (by rw [hadmissible]; rfl)
    obtain rfl : candidate' = candidate'' := some.inj (hget'.symm.trans hget'')
    exact hstate.trans hadmissible
  | @core kept payload candidate core hcandidate hpayload hdecode =>
    refine ⟨le_rfl, le_rfl, fun _ => rfl, fun candidate h => ⟨candidate, h, rfl, id⟩,
      fun found hfound => ?_⟩
    rw [NodeView.candidateCore, OrdMap.get?_set]
    split_ifs with htx
    -- The core that is kept already is that of the same payload.
    · subst htx
      obtain ⟨candidate', payload', hget', hpayload', hdecode'⟩ := hs _ found hfound
      obtain rfl : candidate = candidate' := some.inj (hcandidate.symm.trans hget')
      obtain rfl : payload = payload' := some.inj (hpayload.symm.trans hpayload')
      exact congrArg some (Except.ok.inj (hdecode.symm.trans hdecode'))
    · exact hfound
  | materialize revision orderLength log hrevision =>
    exact ⟨le_rfl, hrevision.le, fun heq => absurd heq hrevision.ne',
      fun candidate h => ⟨candidate, h, rfl, id⟩, fun _ h => h⟩
  | emit =>
    refine ⟨?_, le_rfl, fun _ => rfl, fun candidate h => ⟨candidate, h, rfl, id⟩, fun _ h => h⟩
    exact le_max_of_le_left (by omega)
  | other hcontrol hcores hrevision hmaterialized hlog =>
    refine ⟨hrevision.ge, hmaterialized.ge, fun _ => hlog, fun candidate h => ?_, fun core h => ?_⟩
    · exact ⟨candidate, by rw [NodeView.candidate, hcontrol]; exact h, rfl, id⟩
    · rw [NodeView.candidateCore, hcores]
      exact h

variable {run : ℕ → NodeView}

theorem IsRun.faithful (hrun : IsRun decode run) (n : ℕ) : Faithful decode (run n) := by
  induction n with
  | zero =>
    intro txId core hcore
    simp [NodeView.candidateCore, hrun.start] at hcore
  | succ n ih =>
    rcases hrun.step n with hstay | hstep
    · exact hstay ▸ ih
    · exact hstep.faithful ih

theorem IsRun.later (hrun : IsRun decode run) {i j : ℕ} (hij : i ≤ j) :
    Later txId (run i) (run j) := by
  induction j, hij using Nat.le_induction with
  | base => exact Later.refl _
  | succ j _ ih =>
    rcases hrun.step j with hstay | hstep
    · exact hstay ▸ ih
    · exact ih.trans (hstep.later (hrun.faithful j))

end

/-! ## Answers and states -/

/-- The outcome, the phase, the order key and the revisions of an answer are those of a state. -/
def TransactionOutcome.Agrees (response : TransactionOutcome) (s : NodeView) : Prop :=
  let txId := utf8 response.transactionId
  ∃ candidate, s.candidate txId = some candidate ∧
    response.phase = transactionPhase candidate (s.outcome txId) ∧
    transactionResult (s.candidateCore txId) (s.outcome txId) = .ok response.outcome ∧
    response.orderKey = orderKeyText candidate.orderKey ∧
    response.materializedRevision = toString s.materializedRevision ∧
    response.eventSetRevision = toString s.revision

/-- The label that is reported with an outcome. -/
def reportedLabel (core : Option TransactionCore) : Option RpcMaterializedOutcome → Option String
  | none => none
  | some outcome => if outcome.outcome = .accepted then none else applicationLabel outcome core

/-- What a call reads of a transaction before it waits. -/
def readBefore (txId : Bytes) (s : NodeView) : Option (TransactionPhase × Int) :=
  (s.candidate txId).map fun candidate =>
    (transactionPhase candidate (s.outcome txId), s.materializedRevision)

/-- What it reads afterwards, for an outcome that it has read. -/
def readAfter (txId : Bytes) (outcome : Option RpcMaterializedOutcome) (s : NodeView) :
    Int × Option String :=
  (s.revision, reportedLabel (s.candidateCore txId) outcome)

section

variable {decode : Bytes → Except String TransactionCore} {txId : Bytes} {run : ℕ → NodeView}

theorem Later.outcome_eq {s t : NodeView} (h : Later txId s t)
    (heq : t.materializedRevision = s.materializedRevision) : t.outcome txId = s.outcome txId :=
  congrArg (·.get? txId) (h.log heq)

theorem Later.orderKey_eq {s t : NodeView} (h : Later txId s t)
    {candidate candidate' : StoredCandidate} (hs : s.candidate txId = some candidate)
    (ht : t.candidate txId = some candidate') : candidate'.orderKey = candidate.orderKey := by
  obtain ⟨found, hfound, hkey, -⟩ := h.candidate candidate hs
  obtain rfl : found = candidate' := some.inj (hfound.symm.trans ht)
  exact hkey

/-- The phase of a transaction does not come back within a materialized revision. -/
theorem readBefore_between {s t u : NodeView} (hst : Later txId s t) (htu : Later txId t u)
    (h : readBefore txId s = readBefore txId u) : readBefore txId t = readBefore txId s := by
  unfold readBefore at h ⊢
  cases hs : s.candidate txId with
  | none =>
    rw [hs] at h
    cases ht : t.candidate txId with
    | none => rfl
    | some candidate =>
      obtain ⟨candidate', hu, -⟩ := htu.candidate candidate ht
      simp [hu] at h
  | some candidate =>
    obtain ⟨candidate', ht, -, hadmissible⟩ := hst.candidate candidate hs
    obtain ⟨candidate'', hu, -, hadmissible'⟩ := htu.candidate candidate' ht
    simp only [hs, hu, map_some, some.injEq, Prod.mk.injEq] at h
    obtain ⟨hphase, hrevision⟩ := h
    have hle := hst.materializedRevision
    have hle' := htu.materializedRevision
    have hrevision' : t.materializedRevision = s.materializedRevision := by omega
    simp only [ht, map_some, some.injEq, Prod.mk.injEq]
    refine ⟨?_, hrevision'⟩
    rw [htu.outcome_eq (by omega)] at hphase
    rw [hst.outcome_eq hrevision'] at hphase ⊢
    cases hout : s.outcome txId with
    | some outcome => rfl
    | none =>
      rw [hout] at hphase
      -- Without an outcome the phase says whether the candidate is admissible, for good.
      simp only [transactionPhase] at hphase ⊢
      by_cases hstate : candidate.state = .admissible
      · rw [if_pos hstate, if_pos (hadmissible hstate)]
      · rw [if_neg hstate] at hphase ⊢
        refine if_neg fun hstate' => ?_
        rw [if_pos (hadmissible' hstate')] at hphase
        cases hphase

theorem readAfter_between (outcome : Option RpcMaterializedOutcome) {s t u : NodeView}
    (hst : Later txId s t) (htu : Later txId t u)
    (h : readAfter txId outcome s = readAfter txId outcome u) :
    readAfter txId outcome t = readAfter txId outcome s := by
  obtain ⟨hrevision, hlabel⟩ := Prod.mk.inj h
  have hle := hst.revision
  have hle' := htu.revision
  refine Prod.ext (show t.revision = s.revision by omega) ?_
  show reportedLabel (t.candidateCore txId) outcome = reportedLabel (s.candidateCore txId) outcome
  cases hs : s.candidateCore txId with
  | some core => rw [hst.core core hs]
  | none =>
    cases ht : t.candidateCore txId with
    | none => rfl
    | some core =>
      rw [hs, htu.core core ht] at hlabel
      exact hlabel.symm

/-- A label changes nothing else in an attribution. -/
theorem rejectionAttribution_label {outcome : RpcMaterializedOutcome} {label : Option String}
    {attribution : RejectionAttribution}
    (h : rejectionAttribution outcome label = .ok attribution) (label' : Option String) :
    attribution.applicationLabel = label ∧
      rejectionAttribution outcome label' = .ok { attribution with applicationLabel := label' } := by
  unfold rejectionAttribution
  obtain ⟨constraint, hconstraint, h⟩ := bind_eq_ok_iff.1 h
  obtain ⟨trigger, htrigger, h⟩ := bind_eq_ok_iff.1 h
  cases h
  rw [hconstraint, htrigger]
  exact ⟨rfl, rfl⟩

/-- Two cores give the same result exactly if they give the same label. -/
theorem transactionResult_eq_ok_iff {core core' : Option TransactionCore}
    {outcome : Option RpcMaterializedOutcome} {result : TransactionResult}
    (h : transactionResult core outcome = .ok result) :
    transactionResult core' outcome = .ok result ↔
      reportedLabel core' outcome = reportedLabel core outcome := by
  cases outcome with
  | none => simpa [transactionResult, reportedLabel] using h
  | some outcome =>
    by_cases haccepted : outcome.outcome = .accepted
    · simp only [transactionResult, if_pos haccepted, reportedLabel] at h ⊢
      exact ⟨fun _ => trivial, fun _ => h⟩
    · simp only [transactionResult, if_neg haccepted, reportedLabel] at h ⊢
      obtain ⟨attribution, hattribution, h⟩ := bind_eq_ok_iff.1 h
      cases h
      obtain ⟨hlabel, hother⟩ :=
        rejectionAttribution_label hattribution (applicationLabel outcome core')
      rw [hother]
      constructor
      · intro heq
        have := TransactionResult.rejected.inj (Except.ok.inj heq)
        rw [← hlabel, ← this]
      · intro heq
        rw [heq, ← hlabel]
        rfl

variable {localeCompare : String → String → Bool} {groupId transactionId : String}

variable {response : TransactionOutcome}

theorem getOutcome_eq_ok {before asked after : NodeView}
    (h : getOutcome localeCompare groupId transactionId before asked after = .ok response) :
    response.transactionId = transactionId ∧
    ∃ candidate, before.candidate (utf8 transactionId) = some candidate ∧
      response.phase = transactionPhase candidate (before.outcome (utf8 transactionId)) ∧
      transactionResult (after.candidateCore (utf8 transactionId))
        (before.outcome (utf8 transactionId)) = .ok response.outcome ∧
      response.orderKey = orderKeyText candidate.orderKey ∧
      response.materializedRevision = toString before.materializedRevision ∧
      response.eventSetRevision = toString after.revision := by
  obtain ⟨-, -, h⟩ := bind_eq_ok_iff.1 h
  cases hcandidate : before.candidate (utf8 transactionId) with
  | none => simp [hcandidate] at h
  | some candidate =>
    simp only [hcandidate] at h
    obtain ⟨status, hstatus, h⟩ := bind_eq_ok_iff.1 h
    obtain ⟨result, hresult, h⟩ := bind_eq_ok_iff.1 h
    cases h
    obtain ⟨transport, -, hstatus⟩ := bind_eq_ok_iff.1 hstatus
    cases hstatus
    exact ⟨rfl, candidate, rfl, rfl, hresult, rfl, rfl, rfl⟩

/-- What was read before and after the call waited agrees with a state that shows both. -/
theorem agrees_iff (hrun : IsRun decode run) {i j : ℕ} {asked : NodeView}
    (h : getOutcome localeCompare groupId transactionId (run i) asked (run j) = .ok response)
    (k : ℕ) : response.Agrees (run k) ↔
      readBefore (utf8 transactionId) (run k) = readBefore (utf8 transactionId) (run i) ∧
      readAfter (utf8 transactionId) ((run i).outcome (utf8 transactionId)) (run k) =
        readAfter (utf8 transactionId) ((run i).outcome (utf8 transactionId)) (run j) := by
  obtain ⟨hid, candidate, hcandidate, hphase, hresult, hkey, hmaterialized, hrevision⟩ :=
    getOutcome_eq_ok h
  have hsame : (run k).materializedRevision = (run i).materializedRevision →
      (run k).outcome (utf8 transactionId) = (run i).outcome (utf8 transactionId) := by
    intro heq
    rcases le_total i k with hik | hki
    · exact (hrun.later hik).outcome_eq heq
    · exact ((hrun.later hki).outcome_eq heq.symm).symm
  have hkeys : ∀ candidate', (run k).candidate (utf8 transactionId) = some candidate' →
      candidate'.orderKey = candidate.orderKey := by
    intro candidate' hcandidate'
    rcases le_total i k with hik | hki
    · exact (hrun.later hik).orderKey_eq hcandidate hcandidate'
    · exact ((hrun.later hki).orderKey_eq hcandidate' hcandidate).symm
  simp only [TransactionOutcome.Agrees, hid, hphase, hkey, hmaterialized, hrevision, readBefore,
    hcandidate, readAfter, map_some, map_eq_some_iff, Prod.mk.injEq]
  constructor
  · rintro ⟨candidate', hcandidate', hphase', hresult', -, hmaterialized', hrevision'⟩
    have hmaterialized' := Text.toString_int_injective hmaterialized'
    have hrevision' := Text.toString_int_injective hrevision'
    rw [hsame hmaterialized'.symm] at hphase' hresult'
    refine ⟨⟨candidate', hcandidate', ?_, hmaterialized'.symm⟩, hrevision'.symm, ?_⟩
    · rw [hsame hmaterialized'.symm, hphase']
    · exact (transactionResult_eq_ok_iff hresult).1 hresult'
  · rintro ⟨⟨candidate', hcandidate', hphase', hmaterialized'⟩, hrevision', hlabel⟩
    refine ⟨candidate', hcandidate', hphase'.symm, ?_, ?_, ?_, ?_⟩
    · rw [hsame hmaterialized']
      exact (transactionResult_eq_ok_iff hresult).2 hlabel
    · rw [hkeys candidate' hcandidate']
    · rw [hmaterialized']
    · rw [hrevision']

theorem getSettlementEvidence_eq_ok {first second third before asked after last : NodeView}
    {evidence : RpcSettlementEvidence}
    (h : getSettlementEvidence localeCompare groupId transactionId first second third before asked
      after last = .ok evidence) :
    getOutcome localeCompare groupId transactionId first second third = .ok evidence.outcome ∧
    ∃ candidate, before.candidate (utf8 transactionId) = some candidate ∧
      evidence.orderKey = orderKeyText candidate.orderKey := by
  obtain ⟨outcome, houtcome, h⟩ := bind_eq_ok_iff.1 h
  dsimp only at h
  split at h
  · rename_i candidate core hcandidate _
    obtain ⟨_, -, h⟩ := bind_eq_ok_iff.1 h
    cases h
    exact ⟨houtcome, candidate, hcandidate, rfl⟩
  · cases h

/-- The outcome, the phase and the order key of an answer are those of one state of the node with the
    revisions of the answer exactly if, while the call waited, no event was emitted and the label of the
    rejection did not become known after the phase or the materialized revision had changed. -/
theorem exists_agrees_iff (hrun : IsRun decode run) {i j : ℕ} (hij : i ≤ j) : (∀ asked response,
      getOutcome localeCompare groupId transactionId (run i) asked (run j) = .ok response →
      ((∃ k, response.Agrees (run k)) ↔
        Reads.Undisturbed (fun n => readBefore (utf8 transactionId) (run n))
          (fun n => readAfter (utf8 transactionId) ((run i).outcome (utf8 transactionId)) (run n))
          i j)) ∧ (∀ asked l asked' after last evidence, j ≤ l →
      getSettlementEvidence localeCompare groupId transactionId (run i) asked (run j) (run l) asked'
        after last = .ok evidence →
      ((∃ k, evidence.outcome.Agrees (run k) ∧ evidence.orderKey = evidence.outcome.orderKey) ↔
        Reads.Undisturbed (fun n => readBefore (utf8 transactionId) (run n))
          (fun n => readAfter (utf8 transactionId) ((run i).outcome (utf8 transactionId)) (run n))
          i j)) := by
  have hbefore : Reads.NeverReturns fun n => readBefore (utf8 transactionId) (run n) :=
    .of_le (fun _ _ hij => hrun.later hij) fun _ _ _ => readBefore_between
  have hafter (outcome : Option RpcMaterializedOutcome) :
      Reads.NeverReturns fun n => readAfter (utf8 transactionId) outcome (run n) :=
    .of_le (fun _ _ hij => hrun.later hij) fun _ _ _ => readAfter_between outcome
  have hiff := Reads.exists_pair_iff hbefore (hafter ((run i).outcome (utf8 transactionId))) hij
  constructor
  · intro asked response hresponse
    simp only [agrees_iff hrun hresponse]
    exact hiff
  · intro asked l asked' after last evidence hjl hevidence
    obtain ⟨houtcome, candidate', hcandidate', hkey'⟩ := getSettlementEvidence_eq_ok hevidence
    obtain ⟨-, candidate, hcandidate, -, -, hkey, -⟩ := getOutcome_eq_ok houtcome
    -- The order key is read once more, but does not change.
    have hkeys : evidence.orderKey = evidence.outcome.orderKey := by
      rw [hkey', hkey, (hrun.later (hij.trans hjl)).orderKey_eq hcandidate hcandidate']
    simp only [agrees_iff hrun houtcome, hkeys, and_true]
    exact hiff

end

namespace Waiting

/-- A transaction that is admissible and not yet materialized. -/
def admitted : StoredCandidate where
  txId := utf8 "t"
  groupId := [0]
  candidateDigest := [2]
  validationPolicy := [9]
  orderKey := ⟨5, [1], 1, utf8 "t"⟩
  canonicalPayload := some [3]
  state := .admissible
  stateReason := none
  proofAttestationIds := []

def node : NodeView where
  groupId := [0]
  identity := [7]
  executionManifestDigest := [8]
  revision := 1
  control := { candidates := KeyedMap.empty.put admitted, orderedTxIds := [utf8 "t"], sequence := 1 }

/-- The transaction is materialized. -/
def materialized : NodeView :=
  { node with
    materializedRevision := 1
    orderLength := 1
    log := .ofList [(utf8 "t",
      { outcome := .accepted, resultEnvelopeVersion := true, resultDigest := some [4] })] }

/-- A revision is published, and then the event for it. -/
def publishes : ℕ → NodeView
  | 0 => node
  | 1 => materialized
  | _ + 2 => { materialized with revision := 2 }

/-- An event is emitted, and nothing is published. -/
def emits : ℕ → NodeView
  | 0 => node
  | _ + 1 => { node with revision := 2 }

def response : TransactionOutcome where
  transactionId := "t"
  phase := .admissible
  outcome := .pending
  eventSetRevision := "2"
  materializedRevision := "0"
  orderKey := "5:AQ:1:dA"
  changedByReplay := false
  admissible := true

/-- The reads on both sides of a materialization: the answer is pending at an event revision at which
    the transaction is accepted. -/
theorem not_agrees : IsRun (fun _ => .error "") publishes ∧
      getOutcome (· ≤ ·) "AA" "t" (publishes 0) (publishes 1) (publishes 2) = .ok response ∧
      ¬ ∃ k, response.Agrees (publishes k) := by
  refine ⟨⟨rfl, ?_⟩, by rfl, ?_⟩
  · rintro (_ | _ | n)
    · exact .inr (.materialize 1 1 _ (by decide))
    · exact .inr .emit
    · exact .inl rfl
  · rintro ⟨_ | _ | n, _, -, -, -, -, hmaterialized, hrevision⟩
    · revert hrevision
      decide
    · revert hmaterialized
      decide
    · have hone : response.materializedRevision = toString materialized.materializedRevision :=
        hmaterialized
      revert hone
      decide

theorem agrees_of_emits : getOutcome (· ≤ ·) "AA" "t" (emits 0) (emits 0) (emits 1) = .ok response ∧
      ∃ k, response.Agrees (emits k) := by
  have hrun : IsRun (fun _ => .error "") emits := by
    refine ⟨rfl, ?_⟩
    rintro (_ | n)
    · exact .inr .emit
    · exact .inl rfl
  have hresponse : getOutcome (· ≤ ·) "AA" "t" (emits 0) (emits 0) (emits 1) = .ok response := by
    rfl
  refine ⟨hresponse, ((exists_agrees_iff hrun (Nat.zero_le 1)).1 _ _ hresponse).2 ?_⟩
  rintro (_ | m) n - hmn hn hchange
  · exact absurd rfl hchange
  · omega

end Waiting

end Chronolog.Rpc
