import Chronolog.Lib.Contract
import Chronolog.Materializer.Repository

/-!
# Materialization

`materialize` brings a materialized database to an order of transactions that extends the
one it has: by transactions at the end, or by transactions in between. In the second case it
starts from a checkpoint, a database to which only the transactions before the first
difference have been applied. It replays the rest on a branch of its own, commits, moves the
head to the new commit, and only then changes what the materializer has in memory. The
checkpoints come last.

Every operation of the store, every reader that is closed and every point at which a fault
can be injected may fail (`Faults`).
-/

namespace Chronolog.Materializer

open Procedure

variable {Db : Type}

/-! ## The operations that may fail -/

/-- Where a fault can be injected. -/
inductive MaterializerPublicationFaultPoint
  | afterCandidateCommit
  | afterRevisionRefCreated
  | beforeHeadPublish
  | afterHeadPublish
  | afterReaderSwap
  deriving DecidableEq

/-- The operations of a call, in the order of the source. -/
inductive Operation
  | createReplayBranch
  | checkoutReplayBranch
  | verifyReplayState
  | readReplayLog
  | verifyNextLogIndex (index : ℕ)
  | applyTransaction (index : ℕ)
  | readCandidateLog
  | verifyCandidateState
  | commitCandidate
  | hashCommit
  | hashWorkingSet
  | publicationFault (point : MaterializerPublicationFaultPoint)
  | createCheckpointBranch
  | hashCheckpointBranch
  | createRevisionBranch
  | hashRevisionBranch
  | openCandidateReader
  | checkoutCandidateReader
  | verifyReaderState
  | readReaderLog
  | hashReaderBranch
  | publishHead
  | closeOldReader
  | checkoutHead
  /-- Removing a checkpoint: listing the branches, and deleting its branch. -/
  | listForCheckpoint (branchRef : BranchName)
  | deleteCheckpoint (branchRef : BranchName)
  | activeForCleanup
  | listForCleanup
  | deleteOrphan (branchRef : BranchName)
  -- The operations of the handler of a call that fails.
  | closeCandidateReader
  | rollback
  | activeForReset
  | resetReplayBranch
  | checkoutHeadAgain
  | listForRemoval (branchRef : BranchName)
  | deleteUnpublished (branchRef : BranchName)
  deriving DecidableEq

/-- The operations of a call that fail, and how. -/
abbrev Faults := Operation → Option Fault

/-! ## State -/

/-- The options of a materializer. -/
structure MaterializerOptions where
  checkpointEvery : ℕ
  retainCheckpoints : ℕ
  checkpointEvery_pos : 1 ≤ checkpointEvery
  retainCheckpoints_pos : 1 ≤ retainCheckpoints

/-- A materializer: its repository and what it has in memory. -/
structure DeterministicMaterializer (Db : Type) where
  repository : Repository Db
  /-- What readers see. -/
  reader : Snapshot Db
  published : PublishedRef Db
  checkpoints : List (MaterializerCheckpointInfo Db)
  order : List Bytes
  log : List TransactionLogRow
  checkpointError : Option String

/-- The local variables of a call that its handler looks at. -/
structure Locals (Db : Type) where
  replayBranch : Option BranchName := none
  revisionBranch : Option BranchName := none
  newCheckpoint : Option (MaterializerCheckpointInfo Db) := none
  /-- Is there a candidate reader to close? -/
  candidateReader : Bool := false
  publishedMoved : Bool := false
  replayBaseRef : Option (Commit Db) := none

/-- The state of a call. -/
structure CallState (Db : Type) where
  this : DeterministicMaterializer Db
  locals : Locals Db

/-- The parts of a call. -/
abbrev CallM (Db : Type) := EStateM Stop (CallState Db)

def CallState.setRepository (repository : Repository Db) (state : CallState Db) : CallState Db :=
  { state with this := { state.this with repository } }

/-- A procedure on the repository, in a call. -/
def onRepository {α : Type} (x : StoreM Db α) : CallM Db α :=
  zoom (·.this.repository) CallState.setRepository x

def modifyLocals (f : Locals Db → Locals Db) : CallM Db Unit :=
  modify fun state => { state with locals := f state.locals }

/-! ## Checks -/

def sameIdentity (row : TransactionLogRow) (transaction : AdmittedTransaction) : Bool :=
  row.txId = transaction.txId &&
  row.candidateDigest = transaction.candidateDigest &&
  row.canonicalCandidate = transaction.canonicalCandidate &&
  row.authorId = transaction.core.authorId &&
  row.authorTimestampMs = transaction.core.authorTimestampMs &&
  row.authorFeedSequence = transaction.authorFeedSequence &&
  compareTransactionOrder row.orderKey (orderKeyOf transaction) = .eq

/-- Has the log the identities of the first transactions, one by one? -/
def sameIdentities : List TransactionLogRow → List AdmittedTransaction → Bool
  | [], _ => true
  | row :: log, transaction :: transactions =>
    sameIdentity row transaction && sameIdentities log transactions
  | _ :: _, [] => false

section Checks

variable (engine : Engine Db)

/-- A condition on the input. -/
def require (condition : Bool) (code : String) : Except MaterializerError Unit :=
  if condition then pure () else throw (.input code)

/-- What a codec returns, in a check. -/
def encoded {α : Type} (result : Canonical.Codec α) : Except MaterializerError α :=
  external (result.mapError (·.message))

/-- The compiler's verdict on a program. -/
def checkProgram (program : SqlTransactionProgram) : Except MaterializerError Unit :=
  match Compiler.compileSqlProgram engine.parse program with
  | .ok _ => pure ()
  | .error (.compiler code _) => throw (.compiler code)
  | .error (.codec error) => throw (.failure error.message)

/-- What `validateTransactionSet` checks of a transaction by itself. -/
def validateTransaction (transaction : AdmittedTransaction) : Except MaterializerError Unit := do
  require (transaction.txId ≠ []) "MATERIALIZER_TRANSACTION_ID_INVALID"
  require (0 ≤ transaction.authorFeedSequence ∧ transaction.authorFeedSequence ≤ 2 ^ 63 - 1)
    "MATERIALIZER_AUTHOR_FEED_SEQUENCE_INVALID"
  let canonical ← encoded (Protocol.encodeTransactionCore transaction.core)
  require (canonical = transaction.canonicalCandidate) "MATERIALIZER_CANONICAL_CANDIDATE_MISMATCH"
  let digest ← encoded
    (Protocol.transactionDigest engine.sha256 (.inr transaction.canonicalCandidate))
  require (digest = transaction.candidateDigest) "MATERIALIZER_CANDIDATE_DIGEST_MISMATCH"
  checkProgram engine transaction.core.program

/-- Does the key come after the previous one? -/
def comesAfter (previous : Option TransactionOrderKey) (key : TransactionOrderKey) : Bool :=
  previous.all fun previous => compareTransactionOrder previous key = .lt

/-- What `validateTransactionSet` checks of a transaction and those before it. -/
def validatePosition (previous : Option TransactionOrderKey) (seen : List Bytes)
    (transaction : AdmittedTransaction) : Except MaterializerError Unit := do
  require (comesAfter previous (orderKeyOf transaction)) "MATERIALIZER_ORDER_NOT_STRICT"
  require (transaction.txId ∉ seen) "MATERIALIZER_DUPLICATE_TRANSACTION"

/-- The loop of `validateTransactionSet`, from a previous key and the transactions seen. -/
def validateFrom (previous : Option TransactionOrderKey) (seen : List Bytes) :
    List AdmittedTransaction → Except MaterializerError Unit
  | [] => pure ()
  | transaction :: transactions => do
    validateTransaction engine transaction
    validatePosition previous seen transaction
    validateFrom (some (orderKeyOf transaction)) (transaction.txId :: seen) transactions

def validateTransactionSet (transactions : List AdmittedTransaction) :
    Except MaterializerError Unit :=
  validateFrom engine none [] transactions

end Checks

def ensureMonotonicSet : (previous next : List Bytes) → Except MaterializerError Unit
  | [], _ => pure ()
  | previousId :: previous, next =>
    match next.dropWhile (· ≠ previousId) with
    | [] => throw (.input "MATERIALIZER_ADMISSION_SET_REMOVAL")
    | _ :: next => ensureMonotonicSet previous next

def validateExistingIdentities (existing : List TransactionLogRow)
    (transactions : List AdmittedTransaction) : Except MaterializerError Unit :=
  let transactionsById := OrdMap.ofList (transactions.map fun transaction =>
    (transaction.txId, transaction))
  existing.forM fun row =>
    match transactionsById.get? row.txId with
    | none => throw (.input "MATERIALIZER_TRANSACTION_IDENTITY_CONFLICT")
    | some transaction =>
      if sameIdentity row transaction then pure ()
      else throw (.input "MATERIALIZER_TRANSACTION_IDENTITY_CONFLICT")

/-- The first index at which two orders differ. -/
def earliestDifference : (previous next : List Bytes) → Option ℕ
  | [], [] => none
  | previousId :: previous, nextId :: next =>
    if previousId = nextId then (earliestDifference previous next).map (· + 1) else some 0
  | _, _ => some 0

def verifyReplayBase (baseLog : List TransactionLogRow) (transactions : List AdmittedTransaction)
    (prefixLength : ℕ) : Except MaterializerError Unit :=
  if baseLog.length ≠ prefixLength then
    throw (.error .checkpointPrefixLengthMismatch)
  else if !sameIdentities baseLog transactions then
    throw (.error .checkpointPrefixMismatch)
  else pure ()

/-- The highest index of a log; `-1` if it has none. -/
def maximumIndex (log : List TransactionLogRow) : Int :=
  log.foldl (fun maximum row => max maximum row.orderIndex) (-1)

def verifyNextLogIndex (log : List TransactionLogRow) (expectedIndex : ℕ) :
    Except MaterializerError Unit :=
  if log.length ≠ expectedIndex ∨ maximumIndex log ≠ expectedIndex - 1 then
    throw (.error (.replayLogDrift expectedIndex log.length (maximumIndex log)))
  else pure ()

def verifyDesiredLog (log : List TransactionLogRow)
    (transactions : List AdmittedTransaction) : Except MaterializerError Unit :=
  if log.length ≠ transactions.length then throw (.error .logLengthMismatch)
  else if log.map (·.orderIndex) ≠ List.range log.length ∨ !sameIdentities log transactions then
    throw (.error .logOrderMismatch)
  else pure ()

/-! ## Checkpoints -/

/-- The source's `#checkpointAtOrBefore`: the first of the longest checkpoints. -/
def checkpointAtOrBefore (checkpoints : List (MaterializerCheckpointInfo Db))
    (prefixLength : ℕ) : Option (MaterializerCheckpointInfo Db) :=
  checkpoints.foldl (fun selected checkpoint =>
    if checkpoint.prefixLength ≤ prefixLength ∧
        selected.all (·.prefixLength < checkpoint.prefixLength) then some checkpoint
    else selected) none

def shouldCheckpoint (checkpoints : List (MaterializerCheckpointInfo Db))
    (prefixLength interval : ℕ) : Bool :=
  let nearest := checkpoints.foldl (fun nearest checkpoint => max nearest checkpoint.prefixLength) 0
  nearest + interval ≤ prefixLength

/-- The given checkpoints and, before them, the one before all transactions. -/
def withGenesis (genesis : Option (MaterializerCheckpointInfo Db))
    (keep : List (MaterializerCheckpointInfo Db)) : List (MaterializerCheckpointInfo Db) :=
  match genesis with
  | some genesis => if keep.any (·.branchRef = genesis.branchRef) then keep else genesis :: keep
  | none => keep

/-- The checkpoints that pruning keeps: the longest ones, and the one before all transactions. -/
def keptCheckpoints (retainCheckpoints : ℕ) (sorted : List (MaterializerCheckpointInfo Db)) :
    List (MaterializerCheckpointInfo Db) :=
  let genesis := sorted.find? (·.prefixLength = 0)
  withGenesis genesis
    (sorted.drop (sorted.length - max 1 (retainCheckpoints - if genesis.isSome then 1 else 0)))

/-- Removes the branches of the checkpoints that are not kept. -/
def pruneCheckpoints (options : MaterializerOptions) (faults : Faults)
    (checkpoints : List (MaterializerCheckpointInfo Db)) :
    StoreM Db (List (MaterializerCheckpointInfo Db)) := do
  let sorted := checkpoints.insertionSort (·.prefixLength ≤ ·.prefixLength)
  let keep := keptCheckpoints options.retainCheckpoints sorted
  sorted.forM fun checkpoint =>
    if keep.all (·.branchRef ≠ checkpoint.branchRef) then
      removeBranchIfPresent (faults (.listForCheckpoint checkpoint.branchRef))
        (faults (.deleteCheckpoint checkpoint.branchRef)) checkpoint.branchRef
    else pure ()
  return keep

/-! ## Reports -/

/-- A transaction whose outcome a revision changed. -/
structure OutcomeChange where
  txId : Bytes
  previous : Option TransactionOutcomeKind
  current : TransactionOutcomeKind
  previousRejectionCode : Option String
  currentRejectionCode : Option String
  deriving DecidableEq

def calculateOutcomeChanges (previous current : List TransactionLogRow) : List OutcomeChange :=
  let previousById := OrdMap.ofList (previous.map fun row => (row.txId, row))
  current.filterMap fun row =>
    let prior := previousById.get? row.txId
    if prior.map (·.outcome) ≠ some row.outcome ∨
        prior.bind (·.rejectionCode) ≠ row.rejectionCode then
      some ⟨row.txId, prior.map (·.outcome), row.outcome, prior.bind (·.rejectionCode),
        row.rejectionCode⟩
    else none

/-- A revision that was published. -/
structure MaterializedRevision where
  revision : ℕ
  previousRevision : ℕ
  orderLength : ℕ
  replayFromIndex : ℕ
  replayedTransactions : ℕ
  checkpointPrefix : ℕ
  contentHash : Bytes
  earliestChangedOrderIndex : ℕ
  outcomeChanges : List OutcomeChange
  deriving DecidableEq

/-! ## A call -/

/-- What is known before a replay starts. -/
structure Plan (Db : Type) where
  /-- The first index at which the orders differ. -/
  difference : ℕ
  isAppend : Bool
  baseRef : Commit Db
  replayFrom : ℕ
  nextRevision : ℕ

section Materialize

variable (engine : Engine Db) (options : MaterializerOptions)
  (faults : Faults) (transactions : List AdmittedTransaction)

/-- Where a replay starts: at the end of the published order, or at a checkpoint. -/
def replayBase (this : DeterministicMaterializer Db) (difference : ℕ) :
    Except MaterializerError (Plan Db) :=
  if difference = this.order.length then
    return ⟨difference, true, this.published.doltCommitHash, this.order.length,
      this.published.revision + 1⟩
  else
    match checkpointAtOrBefore this.checkpoints difference with
    | none => throw (.error .genesisCheckpointMissing)
    | some checkpoint =>
      return ⟨difference, false, checkpoint.doltCommitHash, checkpoint.prefixLength,
        this.published.revision + 1⟩

/-- Checks the transactions and finds where to start; nothing is to be done if they are those
    of the order. -/
def planReplay (this : DeterministicMaterializer Db) :
    Except MaterializerError (Option (Plan Db)) := do
  validateTransactionSet engine transactions
  ensureMonotonicSet this.order (transactions.map (·.txId))
  validateExistingIdentities this.log transactions
  match earliestDifference this.order (transactions.map (·.txId)) with
  | none => return none
  | some difference => return some (← replayBase this difference)

/-- Applies transactions to the working set, from an index on. -/
def replayFrom : ℕ → List AdmittedTransaction → StoreM Db Unit
  | _, [] => pure ()
  | index, transaction :: transactions => do
    let log ← attempt (faults (.verifyNextLogIndex index)) (return (← get).working.log)
    check (verifyNextLogIndex log index)
    attempt (faults (.applyTransaction index)) do
      let repository ← get
      let working ← check (external <| applyTransaction engine repository.working transaction index)
      set { repository with working }
    replayFrom (index + 1) transactions

/-- The replay on the branch of a call, up to the commit of the candidate. -/
def replayOnBranch (plan : Plan Db) (replayBranch : BranchName) : StoreM Db (Commit Db) := do
  attempt (faults .checkoutReplayBranch) (doltCheckout replayBranch)
  let content ← attempt (faults .verifyReplayState) (return (← get).working.content)
  check (external <| engine.verifyDatabaseState content)
  let replayLog ← attempt (faults .readReplayLog) (return (← get).working.log)
  check (verifyLogResultIntegrity engine replayLog)
  check (verifyReplayBase replayLog transactions plan.replayFrom)
  replayFrom engine faults plan.replayFrom (transactions.drop plan.replayFrom)
  let candidateLog ← attempt (faults .readCandidateLog) (return (← get).working.log)
  check (verifyLogResultIntegrity engine candidateLog)
  check (verifyDesiredLog candidateLog transactions)
  let content ← attempt (faults .verifyCandidateState) (return (← get).working.content)
  check (external <| engine.verifyDatabaseState content)
  let commit ← attempt (faults .commitCandidate) doltCommit
  let contentHash ← attempt (faults .hashCommit) (return engine.doltHashOf commit.snapshot)
  let workingHash ← attempt (faults .hashWorkingSet) (return engine.doltHashOf (← get).working)
  check (verifyContentHash .commitContentMismatch contentHash workingHash)
  attempt (faults (.publicationFault .afterCandidateCommit)) (pure ())
  return commit

/-- The part of a call up to the commit of the candidate. -/
def commitCandidate (nonce : String) (plan : Plan Db) : CallM Db (Commit Db) := do
  modifyLocals ({ · with replayBaseRef := some plan.baseRef })
  let replayBranch ← onRepository
    (createReplayBranch (faults .createReplayBranch) nonce plan.nextRevision plan.baseRef)
  modifyLocals ({ · with replayBranch := some replayBranch })
  onRepository (replayOnBranch engine faults transactions plan replayBranch)

/-- The checkpoints that a revision with the given first difference leaves valid. -/
def retainedBeforeInsertion (plan : Plan Db) (checkpoints : List (MaterializerCheckpointInfo Db)) :
    List (MaterializerCheckpointInfo Db) :=
  checkpoints.filter fun entry => plan.isAppend || entry.prefixLength ≤ plan.difference

/-- The branch of a checkpoint, if one is due. -/
def createDueCheckpoint (plan : Plan Db) (commit : Commit Db) : CallM Db Unit := do
  let retained := retainedBeforeInsertion plan (← get).this.checkpoints
  if shouldCheckpoint retained transactions.length options.checkpointEvery then
    let newCheckpoint ← onRepository (createCheckpointRef engine (faults .createCheckpointBranch)
      (faults .hashCheckpointBranch) transactions.length plan.nextRevision commit
      commit.snapshot.log)
    modifyLocals ({ · with newCheckpoint := some newCheckpoint })
  else pure ()

/-- The branch of the revision. -/
def createRevision (plan : Plan Db) (commit : Commit Db) : CallM Db (PublishedRef Db) := do
  let nextPublished ← onRepository (createRevisionRef engine (faults .createRevisionBranch)
    (faults .hashRevisionBranch) plan.nextRevision transactions.length commit commit.snapshot.log)
  modifyLocals ({ · with revisionBranch := some nextPublished.branchRef })
  check (verifyContentHash .revisionContentMismatch nextPublished.contentHash
    (engine.doltHashOf commit.snapshot))
  attempt (faults (.publicationFault .afterRevisionRefCreated)) (pure ())
  return nextPublished

/-- A reader at the branch of the candidate, and the log it reads. -/
def openCandidateReader (commit : Commit Db) (nextPublished : PublishedRef Db) :
    CallM Db (Snapshot Db) := do
  attempt (faults .openCandidateReader) (pure ())
  modifyLocals ({ · with candidateReader := true })
  let reader ← attempt (faults .checkoutCandidateReader) do
    match (← get).this.repository.branches.get? nextPublished.branchRef with
    | none => storeError "branch not found"
    | some commit => pure commit.snapshot
  attempt (faults .verifyReaderState) (pure ())
  check (external <| engine.verifyDatabaseState reader.content)
  attempt (faults .readReaderLog) (pure ())
  check (verifyLogResultIntegrity engine reader.log)
  check (verifyPublishedLog engine nextPublished reader.log)
  attempt (faults .hashReaderBranch) (pure ())
  check (verifyContentHash .candidateReaderContentMismatch (engine.doltHashOf reader)
    (engine.doltHashOf commit.snapshot))
  attempt (faults (.publicationFault .beforeHeadPublish)) (pure ())
  return reader

/-- Moves the head. -/
def publishHead (nextPublished : PublishedRef Db) : CallM Db Unit := do
  onRepository (publishRef (faults .publishHead) nextPublished)
  modifyLocals ({ · with publishedMoved := true })
  attempt (faults (.publicationFault .afterHeadPublish)) (pure ())

/-- Changes what is in memory, but for the checkpoints. -/
def swapReader (reader : Snapshot Db) (nextPublished : PublishedRef Db) : CallM Db Unit := do
  modify fun state =>
    { this := { state.this with
        reader := reader
        published := nextPublished
        log := reader.log
        order := transactions.map (·.txId) }
      locals := { state.locals with candidateReader := false } }
  attempt (faults .closeOldReader) (pure ())
  attempt (faults (.publicationFault .afterReaderSwap)) (pure ())

/-- Brings the checkpoints up to date. -/
def updateCheckpoints (nextPublished : PublishedRef Db)
    (retained : List (MaterializerCheckpointInfo Db)) : CallM Db Unit := do
  onRepository (attempt (faults .checkoutHead) (doltCheckout .head))
  let checkpoints ← onRepository (pruneCheckpoints options faults retained)
  modify fun state => { state with this := { state.this with checkpoints } }
  onRepository (cleanupOrphanBranches (faults .activeForCleanup) (faults .listForCleanup)
    (fun name => faults (.deleteOrphan name)) nextPublished checkpoints)
  modify fun state => { state with this := { state.this with checkpointError := none } }

/-- An error here does not make the call fail. -/
def tidyCheckpoints (nextPublished : PublishedRef Db)
    (retained : List (MaterializerCheckpointInfo Db)) : CallM Db Unit :=
  tryCatch (updateCheckpoints options faults nextPublished retained) fun stop =>
    match stop with
    | .crash => throw .crash
    | .thrown error =>
      modify fun state =>
        { state with this := { state.this with
            checkpointError :=
              if error.message.isEmpty then "CHECKPOINT_CLEANUP_FAILED" else error.message } }

/-- The body of a call whose plan is known. -/
def carryOut (nonce : String) (plan : Plan Db) : CallM Db (MaterializedRevision) := do
  let previous := (← get).this
  let commit ← commitCandidate engine faults transactions nonce plan
  createDueCheckpoint engine options faults transactions plan commit
  let nextPublished ← createRevision engine faults transactions plan commit
  let reader ← openCandidateReader engine faults commit nextPublished
  publishHead faults nextPublished
  swapReader faults transactions reader nextPublished
  let newCheckpoint := (← get).locals.newCheckpoint
  tidyCheckpoints options faults nextPublished
    (retainedBeforeInsertion plan previous.checkpoints ++ newCheckpoint.toList)
  return {
    revision := plan.nextRevision
    previousRevision := previous.published.revision
    orderLength := transactions.length
    replayFromIndex := plan.replayFrom
    replayedTransactions := transactions.length - plan.replayFrom
    checkpointPrefix := plan.replayFrom
    contentHash := engine.doltHashOf commit.snapshot
    earliestChangedOrderIndex := plan.difference
    outcomeChanges := calculateOutcomeChanges previous.log reader.log }

/-- The body of a call. -/
def materializeBody (nonce : String) : CallM Db (Option MaterializedRevision) := do
  match ← check (planReplay engine transactions (← get).this) with
  | none => return none
  | some plan => return some (← carryOut engine options faults transactions nonce plan)

/-- Leaves the branch of the replay as it was made, if it is checked out. -/
def resetReplayBranch (locals : Locals Db) : StoreM Db Unit :=
  match locals.replayBaseRef, locals.replayBranch with
  | some replayBaseRef, some replayBranch => do
    let active ← attempt (faults .activeForReset) doltActiveBranch
    if active = replayBranch then attempt (faults .resetReplayBranch) (doltResetHard replayBaseRef)
    else pure ()
  | _, _ => pure ()

/-- The branches that a call made. -/
def Locals.branches (locals : Locals Db) : List BranchName :=
  locals.replayBranch.toList ++ locals.revisionBranch.toList ++
    (locals.newCheckpoint.map (·.branchRef)).toList

/-- What the handler undoes of a call that did not move the head. -/
def undo (locals : Locals Db) : StoreM Db Unit := do
  resetReplayBranch faults locals
  attempt (faults .checkoutHeadAgain) (doltCheckout .head)
  locals.branches.forM fun branchRef =>
    removeBranchIfPresent (faults (.listForRemoval branchRef))
      (faults (.deleteUnpublished branchRef)) branchRef

/-- The part of the handler for a call that did not move the head. An error here is ignored. -/
def undoUnpublished (locals : Locals Db) : CallM Db Unit :=
  if locals.publishedMoved then pure ()
  else tryCatch (onRepository (undo faults locals)) fun stop =>
    match stop with
    | .crash => throw .crash
    | .thrown _ => pure ()

/-- The handler of a call that failed. -/
def handleFailure (stop : Stop) : CallM Db (Option MaterializedRevision) :=
  match stop with
  | .crash => throw .crash
  | .thrown error => do
    let locals := (← get).locals
    attempt (if locals.candidateReader then faults .closeCandidateReader else none) (pure ())
    attempt (faults .rollback) (pure ())
    undoUnpublished faults locals
    throw (.thrown error)

/-- The end of a procedure that does not need the local variables any more. -/
def endCall {α : Type} : EStateM.Result Stop (CallState Db) α →
    EStateM.Result Stop (DeterministicMaterializer Db) α
  | .ok a state => .ok a state.this
  | .error stop state => .error stop state.this

/-- A call of `materialize`. (Calls of subscribers are left out: what they throw is ignored.) -/
def materialize (nonce : String) : EStateM Stop (DeterministicMaterializer Db)
      (Option MaterializedRevision) := fun this =>
  endCall (tryCatch (materializeBody engine options faults transactions nonce)
    (handleFailure faults) ⟨this, {}⟩)

end Materialize

end Chronolog.Materializer
