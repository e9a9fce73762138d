import Chronolog.Materializer.Materialize

/-!
# Opening a repository

`open` finds the published revision of a repository, or makes an empty repository into one
with a revision without transactions. It keeps the checkpoints that are a beginning of the
published order and removes the others, and then the branches that earlier processes left
behind.
-/

namespace Chronolog.Materializer

open Procedure

variable {Db : Type}

/-- The operations of `open` that may fail. -/
inductive OpeningOperation
  | openDatabase
  | listForHead
  | hashHead
  -- `initializeRepository`
  | readSchema
  | bootstrap
  | readGenesisLog
  | commitGenesis
  | createCheckpointBranch
  | hashCheckpointBranch
  | createRevisionBranch
  | hashRevisionBranch
  | publishHead
  | checkoutNewHead
  -- An existing repository.
  | activeForReset
  | listForReset
  | resetHard
  | checkoutHead
  | verifyState
  | readLog
  -- `validateCheckpointRefs`
  | listForCheckpoints
  | hashCheckpoint (branchRef : BranchName)
  | checkoutCheckpoint (branchRef : BranchName)
  | verifyCheckpointState (branchRef : BranchName)
  | readCheckpointLog (branchRef : BranchName)
  | leaveCheckpoint (branchRef : BranchName)
  | listForRemoval (branchRef : BranchName)
  | deleteCheckpoint (branchRef : BranchName)
  | leaveCheckpoints
  | activeForCleanup
  | listForCleanup
  | deleteOrphan (branchRef : BranchName)
  -- The reader.
  | openReader
  | checkoutReader
  | verifyReaderState
  | readReaderLog
  | hashReader
  deriving DecidableEq

section Open

variable (engine : Engine Db)
  (faults : OpeningOperation → Option Fault)

/-- The revision that the name of a branch and the commit of the head stand for. -/
def parseRevisionBranch (contentHash : Bytes) (head : Commit Db) :
    BranchName → Option (PublishedRef Db)
  | branchRef@(.revision revision prefixLength orderDigest) =>
    some ⟨revision, prefixLength, branchRef, head, contentHash, orderDigest⟩
  | _ => none

/-- The published revision: that of the one branch at the commit of the head. -/
def discoverPublishedRef : StoreM Db (Option (PublishedRef Db)) := do
  let branches ← attempt (faults .listForHead) doltBranches
  match branches.find? (·.1 = .head) with
  | none => return none
  | some (_, head) =>
    let matching := branches.filterMap fun (name, commit) =>
      if commit.hash = head.hash then
        parseRevisionBranch (engine.doltHashOf head.snapshot) head name
      else none
    match matching with
    | [marker] =>
      attempt (faults .hashHead) (pure ())
      return some marker
    | _ => throw (.thrown (.error .publishedRevisionRefInvalid))

def initializeRepository : StoreM Db (PublishedRef Db) := do
  let content ← attempt (faults .readSchema) (return (← get).working.content)
  check (if engine.isFreshRepository content then pure () else throw (.error .reservedHeadMissing))
  -- One transaction creates the log, stores the manifest and checks it.
  check (external <| engine.verifyDatabaseState (engine.bootstrap content))
  attempt (faults .bootstrap) (modify fun repository =>
    { repository with working := ⟨engine.bootstrap content, []⟩ })
  let log ← attempt (faults .readGenesisLog) (return (← get).working.log)
  let commit ← attempt (faults .commitGenesis) doltCommit
  discard <| createCheckpointRef engine (faults .createCheckpointBranch)
    (faults .hashCheckpointBranch) 0 0 commit log
  let published ← createRevisionRef engine (faults .createRevisionBranch)
    (faults .hashRevisionBranch) 0 0 commit log
  publishRef (faults .publishHead) published
  attempt (faults .checkoutNewHead) (doltCheckout .head)
  return published

def resetActiveWorkingSet : StoreM Db Unit := do
  let active ← attempt (faults .activeForReset) doltActiveBranch
  let branches ← attempt (faults .listForReset) doltBranches
  match branches.find? (·.1 = active) with
  | none => throw (.thrown (.error .activeBranchMissing))
  | some (_, commit) => attempt (faults .resetHard) (doltResetHard commit)

/-- The checkpoint that the name of a branch stands for. -/
def parseCheckpointBranch (commit : Commit Db) : BranchName → Option (MaterializerCheckpointInfo Db)
  | branchRef@(.checkpoint prefixLength createdAtRevision _) =>
    some ⟨prefixLength, branchRef, commit, engine.doltHashOf commit.snapshot, createdAtRevision⟩
  | _ => none

def discoverCheckpoints : StoreM Db (List (MaterializerCheckpointInfo Db)) := do
  let branches ← attempt (faults .listForCheckpoints) doltBranches
  let checkpoints := branches.filterMap fun (name, commit) => parseCheckpointBranch engine commit name
  checkpoints.forM fun checkpoint =>
    attempt (faults (.hashCheckpoint checkpoint.branchRef)) (pure ())
  return checkpoints.insertionSort (·.prefixLength ≤ ·.prefixLength)

/-- The digest in the name of a checkpoint. -/
def BranchName.hasOrderDigest (branchRef : BranchName) (digest : Bytes) : Bool :=
  match branchRef with
  | .checkpoint _ _ orderDigest => orderDigest = digest
  | _ => false

/-- Is the log of a checkpoint of its length, with the given digest? An error is a no. -/
def checkpointMatches (expectedDigest : Bytes)
    (checkpoint : MaterializerCheckpointInfo Db) : StoreM Db Bool :=
  tryCatch (do
    attempt (faults (.checkoutCheckpoint checkpoint.branchRef)) (doltCheckout checkpoint.branchRef)
    let content ← attempt (faults (.verifyCheckpointState checkpoint.branchRef))
      (return (← get).working.content)
    check (external <| engine.verifyDatabaseState content)
    let log ← attempt (faults (.readCheckpointLog checkpoint.branchRef)) (return (← get).working.log)
    check (verifyLogResultIntegrity engine log)
    return log.length = checkpoint.prefixLength &&
      decide (engine.orderDigest (orderOf log) = expectedDigest)) fun stop =>
    match stop with
    | .crash => throw .crash
    | .thrown _ => return false

/-- Removes the branch of a checkpoint that is not valid. -/
def removeCheckpoint (checkpoint : MaterializerCheckpointInfo Db) : StoreM Db Bool := do
  removeBranchIfPresent (faults (.listForRemoval checkpoint.branchRef))
    (faults (.deleteCheckpoint checkpoint.branchRef)) checkpoint.branchRef
  return false

/-- Keeps a checkpoint, or removes its branch. -/
def validateCheckpointRef (publishedLog : List TransactionLogRow)
    (checkpoint : MaterializerCheckpointInfo Db) : StoreM Db Bool :=
  let expectedDigest := engine.orderDigest (orderOf (publishedLog.take checkpoint.prefixLength))
  if checkpoint.prefixLength > publishedLog.length ∨
      !checkpoint.branchRef.hasOrderDigest expectedDigest then
    removeCheckpoint faults checkpoint
  else do
    let isMatch ← checkpointMatches engine faults expectedDigest checkpoint
    attempt (faults (.leaveCheckpoint checkpoint.branchRef)) (doltCheckout .head)
    if isMatch then return true else removeCheckpoint faults checkpoint

/-- The loop of `validateCheckpointRefs`. -/
def validCheckpoints (publishedLog : List TransactionLogRow) :
    List (MaterializerCheckpointInfo Db) → StoreM Db (List (MaterializerCheckpointInfo Db))
  | [] => return []
  | checkpoint :: checkpoints => do
    let valid ← validateCheckpointRef engine faults publishedLog checkpoint
    let rest ← validCheckpoints publishedLog checkpoints
    return if valid then checkpoint :: rest else rest

def validateCheckpointRefs (published : PublishedRef Db) (publishedLog : List TransactionLogRow) :
    StoreM Db (List (MaterializerCheckpointInfo Db)) := do
  let checkpoints ← discoverCheckpoints engine faults
  let valid ← validCheckpoints engine faults publishedLog checkpoints
  attempt (faults .leaveCheckpoints) (doltCheckout .head)
  check (if valid.any (·.prefixLength = 0) then pure ()
    else throw (.error .genesisCheckpointMissing))
  check (verifyPublishedLog engine published publishedLog)
  return valid.insertionSort (·.prefixLength ≤ ·.prefixLength)

/-- The published revision, checked out. -/
def checkoutPublished : StoreM Db (PublishedRef Db) := do
  match ← discoverPublishedRef engine faults with
  | none => initializeRepository engine faults
  | some published =>
    resetActiveWorkingSet faults
    attempt (faults .checkoutHead) (doltCheckout .head)
    let content ← attempt (faults .verifyState) (return (← get).working.content)
    check (external <| engine.verifyDatabaseState content)
    return published

/-- A reader at the branch of the published revision. -/
def openReader (published : PublishedRef Db) : StoreM Db (Snapshot Db) := do
  attempt (faults .openReader) (pure ())
  let reader ← attempt (faults .checkoutReader) do
    match (← get).branches.get? published.branchRef with
    | none => storeError "branch not found"
    | some commit => pure commit.snapshot
  attempt (faults .verifyReaderState) (pure ())
  check (external <| engine.verifyDatabaseState reader.content)
  attempt (faults .readReaderLog) (pure ())
  check (verifyLogResultIntegrity engine reader.log)
  check (verifyPublishedLog engine published reader.log)
  attempt (faults .hashReader) (pure ())
  check (verifyContentHash .readerContentMismatch (engine.doltHashOf reader) published.contentHash)
  return reader

/-- The source's `open`. -/
def openMaterializer : StoreM Db (DeterministicMaterializer Db) := do
  attempt (faults .openDatabase) (pure ())
  let published ← checkoutPublished engine faults
  let log ← attempt (faults .readLog) (return (← get).working.log)
  check (verifyLogResultIntegrity engine log)
  check (verifyPublishedLog engine published log)
  let checkpoints ← validateCheckpointRefs engine faults published log
  cleanupOrphanBranches (faults .activeForCleanup) (faults .listForCleanup)
    (fun name => faults (.deleteOrphan name)) published checkpoints
  let reader ← openReader engine faults published
  return {
    repository := ← get
    reader
    published
    checkpoints
    order := orderOf reader.log
    log := reader.log
    checkpointError := none }

end Open

end Chronolog.Materializer
