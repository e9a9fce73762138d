import Chronolog.Compiler.Compile
import Chronolog.Protocol.TransactionCodec
import Mathlib.Algebra.Order.Ring.Int
import Mathlib.Data.List.Sort

/-!
# The repository of the materializer

A materialized database is kept in a repository of commits with named branches. A
commit is a snapshot: the contents of the database and the transaction log, which
has one row for every transaction that was applied. The branches name the published
revision, the checkpoints from which a replay may start, and the replay in progress.

Every operation of the store may fail, before or after it took effect, with an error
or with the end of the process (`attempt`).
-/

namespace Chronolog.Materializer

/-! ## Transactions and their log -/

/-- A transaction as the ledger hands it over. -/
structure AdmittedTransaction where
  txId : Bytes
  candidateDigest : Bytes
  canonicalCandidate : Bytes
  authorFeedSequence : Int
  core : TransactionCore

/-- What became of a transaction. -/
inductive TransactionOutcomeKind
  | accepted
  | rejectedPrecondition
  | rejectedExecution
  deriving DecidableEq

/-- The phases of a program. -/
inductive FailurePhase
  | precondition | statement | finalize
  deriving DecidableEq

/-- What a row says beyond the outcome and the code of a rejection: where a program failed and
    what is to blame, or the results of one that did not fail. -/
structure OutcomeDetails where
  failingPreconditionId : Option Int := none
  failingPreconditionIndex : Option ℕ := none
  failingStatementIndex : Option ℕ := none
  failurePhase : Option FailurePhase := none
  failingConstraintIdentity : Option Bytes := none
  failingTriggerIdentity : Option Bytes := none
  resultEnvelopeVersion : Option ℕ := none
  resultEnvelope : Option Bytes := none
  resultDigest : Option Bytes := none
  deriving DecidableEq

/-- A row of the transaction log. -/
structure TransactionLogRow where
  txId : Bytes
  orderIndex : ℕ
  authorId : Bytes
  authorTimestampMs : Int
  authorFeedSequence : Int
  candidateDigest : Bytes
  canonicalCandidate : Bytes
  outcome : TransactionOutcomeKind
  rejectionCode : Option String
  details : OutcomeDetails
  deriving DecidableEq

variable {Db : Type}

def TransactionLogRow.orderKey (row : TransactionLogRow) : TransactionOrderKey :=
  ⟨row.authorTimestampMs, row.authorId, row.authorFeedSequence, row.txId⟩

def orderKeyOf (transaction : AdmittedTransaction) : TransactionOrderKey :=
  ⟨transaction.core.authorTimestampMs, transaction.core.authorId, transaction.authorFeedSequence,
    transaction.txId⟩

/-- The contents of a database with its transaction log, in the order of its indices. -/
structure Snapshot (Db : Type) where
  content : Db
  log : List TransactionLogRow
  deriving DecidableEq

/-- The transactions of a log. -/
def orderOf (log : List TransactionLogRow) : List Bytes := log.map (·.txId)

/-! ## Failures -/

/-- The errors of the materializer's own checks, but for those of its input. -/
inductive MaterializerErrorCode
  | activeBranchMissing
  | candidateReaderContentMismatch
  | checkpointPrefixLengthMismatch
  | checkpointPrefixMismatch
  | commitContentMismatch
  | genesisCheckpointMissing
  | logLengthMismatch
  | logOrderMismatch
  | publishedLogMismatch
  | publishedRevisionRefInvalid
  | readerContentMismatch
  | replayLogDrift (expectedIndex count : ℕ) (maximum : Int)
  | reservedHeadMissing
  | revisionContentMismatch
  deriving DecidableEq

def MaterializerErrorCode.message : MaterializerErrorCode → String
  | activeBranchMissing => "MATERIALIZER_ACTIVE_BRANCH_MISSING"
  | candidateReaderContentMismatch => "MATERIALIZER_CANDIDATE_READER_CONTENT_MISMATCH"
  | checkpointPrefixLengthMismatch => "MATERIALIZER_CHECKPOINT_PREFIX_LENGTH_MISMATCH"
  | checkpointPrefixMismatch => "MATERIALIZER_CHECKPOINT_PREFIX_MISMATCH"
  | commitContentMismatch => "MATERIALIZER_COMMIT_CONTENT_MISMATCH"
  | genesisCheckpointMissing => "MATERIALIZER_GENESIS_CHECKPOINT_MISSING"
  | logLengthMismatch => "MATERIALIZER_LOG_LENGTH_MISMATCH"
  | logOrderMismatch => "MATERIALIZER_LOG_ORDER_MISMATCH"
  | publishedLogMismatch => "MATERIALIZER_PUBLISHED_LOG_MISMATCH"
  | publishedRevisionRefInvalid => "MATERIALIZER_PUBLISHED_REVISION_REF_INVALID"
  | readerContentMismatch => "MATERIALIZER_READER_CONTENT_MISMATCH"
  | replayLogDrift expectedIndex count maximum =>
    s!"MATERIALIZER_REPLAY_LOG_DRIFT:{expectedIndex}:{count}:{maximum}"
  | reservedHeadMissing => "MATERIALIZER_RESERVED_HEAD_MISSING"
  | revisionContentMismatch => "MATERIALIZER_REVISION_CONTENT_MISMATCH"

/-- What the materializer throws. -/
inductive MaterializerError
  /-- A `MaterializerInputError`. -/
  | input (code : String)
  /-- A `MaterializerInputError` with the code of an error of the compiler. -/
  | compiler (code : Compiler.SqlCompilerErrorCode)
  | error (code : MaterializerErrorCode)
  /-- An error of the store, of a reader, of a fault injector or of another package. -/
  | failure (message : String)
  deriving DecidableEq

def MaterializerError.message : MaterializerError → String
  | input code => code
  -- The codes of the compiler stand for their texts.
  | compiler code => s!"{repr code}"
  | error code => code.message
  | failure message => message

/-- Why a procedure ends early. -/
inductive Stop
  | thrown (error : MaterializerError)
  /-- The process ended. -/
  | crash
  deriving DecidableEq

/-- How an operation fails, and whether it took effect before. -/
inductive Fault
  | throws (done : Bool) (message : String)
  | crashes (done : Bool)
  deriving DecidableEq

namespace Fault

def done : Fault → Bool
  | throws done _ | crashes done => done

def stop : Fault → Stop
  | throws _ message => .thrown (.failure message)
  | crashes _ => .crash

end Fault

/-- An operation that fails as given. -/
def attempt {σ α : Type} (fault : Option Fault) (effect : EStateM Stop σ α) : EStateM Stop σ α :=
  match fault with
  | none => effect
  | some fault => do
    if fault.done then discard effect
    throw fault.stop

/-- A check, in a procedure. -/
def check {σ α : Type} : Except MaterializerError α → EStateM Stop σ α
  | .ok a => pure a
  | .error error => throw (.thrown error)

/-- A function of another package, in a procedure. -/
def external {α : Type} : Except String α → Except MaterializerError α
  | .ok a => pure a
  | .error message => throw (.failure message)

/-! ## Branches and commits -/

/-- The names of branches. The numbers and the digest in a name can be read back from its text. -/
inductive BranchName
  /-- The source's `HEAD_BRANCH`. -/
  | head
  /-- `chronolog_cp_p<prefixLength>_r<revision>_<digest>`. -/
  | checkpoint (prefixLength revision : ℕ) (digest : Bytes)
  /-- `chronolog_rev_r<revision>_p<prefixLength>_<digest>`. -/
  | revision (revision prefixLength : ℕ) (digest : Bytes)
  /-- `chronolog_replay_r<revision>_<nonce>`. -/
  | replay (revision : ℕ) (nonce : String)
  /-- A branch of somebody else, such as the one a repository starts with. -/
  | other (name : String)
  deriving DecidableEq

/-- A commit: no two commits of a repository have the same hash. -/
structure Commit (Db : Type) where
  hash : ℕ
  snapshot : Snapshot Db
  deriving DecidableEq

/-- A repository, with what the writer has checked out. -/
structure Repository (Db : Type) where
  branches : OrdMap (BranchName) (Commit Db)
  /-- The branch that is checked out. -/
  active : BranchName
  /-- The working set. -/
  working : Snapshot Db
  /-- The hash of the next commit. -/
  nextHash : ℕ

/-- How a program ended. -/
structure ProgramOutcome where
  outcome : TransactionOutcomeKind
  rejectionCode : Option String
  details : OutcomeDetails

/-- What the materializer knows of a database: its SQL engine, the parser of SQL and the hash of the
    platform. -/
structure Engine (Db : Type) where
  parse : Compiler.Parser
  sha256 : Bytes → Bytes
  /-- Runs the program of a transaction: the contents after it, which are those before it if
      it was rejected, and how it ended. -/
  runProgram : Snapshot Db → AdmittedTransaction → Except String (Db × ProgramOutcome)
  /-- What `verifyLogResultIntegrity` checks of a row. -/
  verifyLogRow : TransactionLogRow → Except String Unit
  /-- Does the database have the execution manifest? -/
  verifyDatabaseState : Db → Except String Unit
  doltHashOf : Snapshot Db → Bytes
  /-- The names in `sqlite_schema`. -/
  schemaNames : Db → List String
  /-- Creates the log and stores the execution manifest. -/
  bootstrap : Db → Db

/-- The digest of an order: 16 hexadecimal digits of a hash, which are 8 bytes of it. -/
def Engine.orderDigest (engine : Engine Db) (order : List Bytes) : Bytes :=
  (engine.sha256 (order.flatMap fun txId => BigEndian.toBytes 4 txId.length ++ txId)).take 8

/-- SQL's `name LIKE '<stem>_%'`: `_` is any character, and the case of letters does not matter. -/
def isLike (stem name : String) : Bool :=
  Compiler.startsWith (Compiler.asciiLower name) stem && stem.toList.length < name.toList.length

/-- Are all objects of the schema the engine's own? -/
def Engine.isFreshRepository (engine : Engine Db) (content : Db) : Bool :=
  (engine.schemaNames content).all fun name => isLike "sqlite" name || isLike "dolt" name

def logRow (transaction : AdmittedTransaction) (orderIndex : ℕ) (ended : ProgramOutcome) :
    TransactionLogRow where
  txId := transaction.txId
  orderIndex := orderIndex
  authorId := transaction.core.authorId
  authorTimestampMs := transaction.core.authorTimestampMs
  authorFeedSequence := transaction.authorFeedSequence
  candidateDigest := transaction.candidateDigest
  canonicalCandidate := transaction.canonicalCandidate
  outcome := ended.outcome
  rejectionCode := ended.rejectionCode
  details := ended.details

/-- The source's `#applyTransaction`: the program is run, and its end is logged. -/
def applyTransaction (engine : Engine Db) (snapshot : Snapshot Db)
    (transaction : AdmittedTransaction) (orderIndex : ℕ) : Except String (Snapshot Db) := do
  let (content, ended) ← engine.runProgram snapshot transaction
  return ⟨content, snapshot.log ++ [logRow transaction orderIndex ended]⟩

/-- Procedures on a repository. -/
abbrev StoreM (Db : Type) := EStateM Stop (Repository Db)

/-- An error of the store. -/
def storeError {σ α : Type} (message : String) : EStateM Stop σ α :=
  throw (.thrown (.failure message))

def doltBranch (name : BranchName) (commit : Commit Db) : StoreM Db Unit := do
  let repository ← get
  if repository.branches.has name then storeError "branch already exists"
  else set { repository with branches := repository.branches.set name commit }

def doltForceBranch (name : BranchName) (commit : Commit Db) : StoreM Db Unit :=
  modify fun repository => { repository with branches := repository.branches.set name commit }

/-- The branch that is checked out cannot be deleted. -/
def doltDeleteBranch (name : BranchName) : StoreM Db Unit := do
  let repository ← get
  if repository.active = name then storeError "cannot delete the current branch"
  else set { repository with branches := repository.branches.erase name }

def doltCheckout (name : BranchName) : StoreM Db Unit := do
  let repository ← get
  match repository.branches.get? name with
  | none => storeError "branch not found"
  | some commit => set { repository with active := name, working := commit.snapshot }

/-- Moves the branch that is checked out. -/
def doltResetHard (commit : Commit Db) : StoreM Db Unit :=
  modify fun repository =>
    { repository with
      branches := repository.branches.set repository.active commit
      working := commit.snapshot }

/-- Commits the working set to the branch that is checked out. -/
def doltCommit : StoreM Db (Commit Db) := do
  let repository ← get
  let commit := ⟨repository.nextHash, repository.working⟩
  set { repository with
    branches := repository.branches.set repository.active commit
    nextHash := repository.nextHash + 1 }
  return commit

def doltActiveBranch : StoreM Db (BranchName) := return (← get).active

def doltBranches : StoreM Db (List (BranchName × Commit Db)) :=
  return (← get).branches.entries

/-! ## References -/

/-- The published revision. -/
structure PublishedRef (Db : Type) where
  revision : ℕ
  prefixLength : ℕ
  branchRef : BranchName
  doltCommitHash : Commit Db
  contentHash : Bytes
  orderDigest : Bytes
  deriving DecidableEq

/-- A checkpoint: the first transactions of the order, applied. -/
structure MaterializerCheckpointInfo (Db : Type) where
  prefixLength : ℕ
  branchRef : BranchName
  doltCommitHash : Commit Db
  contentHash : Bytes
  createdAtRevision : ℕ
  deriving DecidableEq

section References

variable (engine : Engine Db)

def createCheckpointRef (branching hashing : Option Fault) (prefixLength revision : ℕ)
    (commit : Commit Db) (log : List TransactionLogRow) :
    StoreM Db (MaterializerCheckpointInfo Db) := do
  let branchRef := .checkpoint prefixLength revision (engine.orderDigest (orderOf log))
  attempt branching (doltBranch branchRef commit)
  let contentHash ← attempt hashing (pure (engine.doltHashOf commit.snapshot))
  return ⟨prefixLength, branchRef, commit, contentHash, revision⟩

def createRevisionRef (branching hashing : Option Fault) (revision prefixLength : ℕ)
    (commit : Commit Db) (log : List TransactionLogRow) : StoreM Db (PublishedRef Db) := do
  let digest := engine.orderDigest (orderOf log)
  let branchRef := .revision revision prefixLength digest
  attempt branching (doltBranch branchRef commit)
  let contentHash ← attempt hashing (pure (engine.doltHashOf commit.snapshot))
  return ⟨revision, prefixLength, branchRef, commit, contentHash, digest⟩

def createReplayBranch (branching : Option Fault) (nonce : String) (revision : ℕ)
    (fromRef : Commit Db) : StoreM Db (BranchName) := do
  let branch := .replay revision nonce
  attempt branching (doltBranch branch fromRef)
  return branch

def publishRef (forcing : Option Fault) (published : PublishedRef Db) : StoreM Db Unit :=
  attempt forcing (doltForceBranch .head published.doltCommitHash)

def removeBranchIfPresent (listing deleting : Option Fault) (branchRef : BranchName) :
    StoreM Db Unit := do
  let branches ← attempt listing doltBranches
  if branches.any (·.1 = branchRef) then attempt deleting (doltDeleteBranch branchRef) else pure ()

/-- Is this the name of a branch that a replay or a revision left behind? -/
def BranchName.isOrphan : BranchName → Bool
  | .replay .. | .revision .. => true
  | _ => false

def cleanupOrphanBranches (activity listing : Option Fault) (deleting : BranchName → Option Fault)
    (published : PublishedRef Db) (retainedCheckpoints : List (MaterializerCheckpointInfo Db)) :
    StoreM Db Unit := do
  let retained := .head :: published.branchRef :: retainedCheckpoints.map (·.branchRef)
  let active ← attempt activity doltActiveBranch
  let branches ← attempt listing doltBranches
  branches.forM fun (name, _) =>
    if name ≠ active ∧ name ∉ retained ∧ name.isOrphan then
      attempt (deleting name) (doltDeleteBranch name)
    else pure ()

def verifyPublishedLog (published : PublishedRef Db)
    (log : List TransactionLogRow) : Except MaterializerError Unit :=
  if log.length ≠ published.prefixLength ∨
      engine.orderDigest (orderOf log) ≠ published.orderDigest then
    throw (.error .publishedLogMismatch)
  else pure ()

/-- Compares the hash of a content with the one it should have. -/
def verifyContentHash (code : MaterializerErrorCode) (contentHash expected : Bytes) :
    Except MaterializerError Unit :=
  if contentHash ≠ expected then throw (.error code) else pure ()

def verifyLogResultIntegrity (log : List TransactionLogRow) : Except MaterializerError Unit :=
  external (log.forM engine.verifyLogRow)

end References

end Chronolog.Materializer
