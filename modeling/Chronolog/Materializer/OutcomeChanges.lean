import Chronolog.Materializer.Replay

/-!
# Reported changes of outcomes

A published revision lists the transactions whose outcome or rejection code is not the one of the log
before. A node that materializes its candidates marks those of them as changed by a replay that had
another outcome (`outcomeChanges_exact`). What else is reported of a transaction, its result or what
it failed at, is not compared, and a transaction that is rejected with another code is not marked.

The node marks transactions at the end of `#reconcileMaterializer`. If something is thrown before,
then nothing is marked, even if the revision was published, and the next call, which finds nothing to
do, does not mark anything, either.
-/

namespace Chronolog.Materializer

open Procedure Meets

variable {Db : Type}

/-! ## The node -/

/-- A request to publish a revision. Its key in the source is a fixed text with the identity of the
    candidate, so that is the key here. -/
structure MaterializationPublicationRequest where
  expectedRevision : ℕ
  targetRevision : ℕ
  targetOrderLength : ℕ
  candidateIdentity : Bytes
  deriving DecidableEq

def publicationRequestForRevision (revision : MaterializedRevision) :
    MaterializationPublicationRequest :=
  ⟨revision.previousRevision, revision.revision, revision.orderLength, revision.contentHash⟩

/-- The revision that a materializer shows. (The digest of the execution manifest, which is a
    constant of the materializer, is left out.) -/
structure MaterializedRevisionSnapshot where
  revision : ℕ
  orderLength : ℕ
  deriving DecidableEq

/-- What a node has for its materialization: the runtime of its materializer, and which transactions
    were changed by a replay. -/
structure NodeMaterialization (Db : Type) where
  materializer : DeterministicMaterializer Db
  prepared : OrdMap Bytes MaterializationPublicationRequest := .empty
  publications : OrdMap Bytes (MaterializationPublicationRequest × MaterializedRevisionSnapshot) :=
    .empty
  materializationPending : Bool := true
  replayedOutcomes : List Bytes := []

/-- Procedures of a node. -/
abbrev NodeM (Db : Type) := EStateM Stop (NodeMaterialization Db)

namespace NodeMaterialization

def snapshot (node : NodeMaterialization Db) : MaterializedRevisionSnapshot :=
  ⟨node.materializer.published.revision, node.materializer.order.length⟩

def outcomeChangedByReplay (node : NodeMaterialization Db) (txId : Bytes) : Bool :=
  txId ∈ node.replayedOutcomes

/-- Marks the transactions of a revision that had another outcome. -/
def record (node : NodeMaterialization Db) (revision : MaterializedRevision) :
    NodeMaterialization Db :=
  { node with
    replayedOutcomes := (revision.outcomeChanges.filter fun change =>
      change.previous ≠ none ∧ change.previous ≠ some change.current).map (·.txId) ∪
        node.replayedOutcomes }

end NodeMaterialization

section Reconcile

/-- An error of the node or of its runtime. -/
def nodeError {α : Type} (message : String) : NodeM Db α := throw (.thrown (.failure message))

/-- The coordinator of a runtime: it materializes, and prepares the publication. -/
def coordinate (engine : Engine Db) (options : MaterializerOptions) (faults : Faults)
    (transactions : List AdmittedTransaction) (nonce : String) :
    NodeM Db (Option MaterializedRevision) := do
  let result ← zoom (·.materializer) (fun materializer node => { node with materializer })
    (materialize engine options faults transactions nonce)
  match result with
  | none => return none
  | some revision =>
    let publication := publicationRequestForRevision revision
    modify fun node =>
      { node with prepared := node.prepared.set publication.candidateIdentity publication }
    return some revision

/-- The head has moved already: a request is checked and remembered. -/
def publish (request : MaterializationPublicationRequest) :
    NodeM Db MaterializedRevisionSnapshot := do
  let node ← get
  match node.publications.get? request.candidateIdentity with
  | some (previous, result) =>
    if previous = request then return result else nodeError "MATERIALIZATION_PUBLICATION_KEY_REUSED"
  | none =>
    if node.prepared.get? request.candidateIdentity ≠ some request then
      nodeError "MATERIALIZATION_PUBLICATION_NOT_PREPARED"
    else if node.snapshot ≠ ⟨request.targetRevision, request.targetOrderLength⟩ then
      nodeError "MATERIALIZATION_PUBLICATION_NOT_CURRENT"
    else do
      set { node with
        publications := node.publications.set request.candidateIdentity (request, node.snapshot)
        prepared := node.prepared.erase request.candidateIdentity }
      return node.snapshot

def reconcile (targetOrderLength : ℕ) (targetRevision : Option ℕ) :
    NodeM Db MaterializedRevisionSnapshot := do
  let node ← get
  if node.snapshot.orderLength ≠ targetOrderLength ∨
      targetRevision.any (node.snapshot.revision ≠ ·) then
    nodeError "MATERIALIZATION_RECONCILIATION_MISMATCH"
  else return node.snapshot

/-- Publishes what the coordinator returned. -/
def publishCoordinated (publishing : Option Fault) : Option MaterializedRevision → NodeM Db Unit
  | none => pure ()
  | some revision => do
    let published ← attempt publishing (publish (publicationRequestForRevision revision))
    if published ≠ ⟨revision.revision, revision.orderLength⟩ then
      nodeError "MATERIALIZATION_PUBLICATION_RESULT_MISMATCH"
    else pure ()

/-- The transactions of the ordered candidates, if the node has the payloads of all of them. -/
def admitted (candidates : List (Option AdmittedTransaction)) :
    Except MaterializerError (List AdmittedTransaction) :=
  candidates.mapM fun
    | some transaction => pure transaction
    | none => throw (.failure "ADMITTED_CANDIDATE_PAYLOAD_MISSING")

/-- The source's `#reconcileMaterializer`, for the candidates in their order. The operations of the
    runtime may fail. (Its timers are left out.) -/
def reconcileMaterializer (engine : Engine Db) (options : MaterializerOptions) (faults : Faults)
    (publishing reconciling : Option Fault) (candidates : List (Option AdmittedTransaction))
    (nonce : String) : NodeM Db Unit := do
  if (← get).materializationPending then
    let ordered ← check (admitted candidates)
    let coordinated ← coordinate engine options faults ordered nonce
    publishCoordinated publishing coordinated
    let reconciled ← attempt reconciling
      (reconcile ordered.length (coordinated.map (·.revision)))
    if reconciled ≠ (← get).snapshot ∨ reconciled.orderLength ≠ ordered.length then
      nodeError "MATERIALIZATION_RECONCILIATION_RESULT_MISMATCH"
    else
      modify fun node =>
        coordinated.elim { node with materializationPending := false }
          { node with materializationPending := false }.record
  else pure ()

end Reconcile

/-! ## What is listed and marked -/

section Logs

/-- The row of a transaction in a log. -/
def rowOf (log : List TransactionLogRow) (txId : Bytes) : Option TransactionLogRow :=
  (OrdMap.ofList (log.map fun row => (row.txId, row))).get? txId

/-- What is reported of a transaction: its outcome, the code of a rejection, and what it failed at or
    resulted in. -/
def TransactionLogRow.reported (row : TransactionLogRow) :
    TransactionOutcomeKind × Option String × OutcomeDetails :=
  (row.outcome, row.rejectionCode, row.details)

/-- The transactions that a revision lists are those whose outcome or rejection code differs between
    two logs. -/
def ListsChanges (previous current : List TransactionLogRow) (revision : MaterializedRevision) :
    Prop :=
  ∀ txId, (∃ change ∈ revision.outcomeChanges, change.txId = txId) ↔
    ∃ row ∈ current, row.txId = txId ∧ ((rowOf previous txId).map (·.outcome) ≠ some row.outcome ∨
      (rowOf previous txId).bind (·.rejectionCode) ≠ row.rejectionCode)

/-- The transaction had an outcome, and has another one. -/
def ChangesOutcome (previous current : List TransactionLogRow) (txId : Bytes) : Prop :=
  ∃ row ∈ current, row.txId = txId ∧
    ∃ prior, rowOf previous txId = some prior ∧ prior.outcome ≠ row.outcome

variable {previous current : List TransactionLogRow} {txId : Bytes}

theorem mem_calculateOutcomeChanges_iff {change : OutcomeChange} :
    change ∈ calculateOutcomeChanges previous current ↔ ∃ row ∈ current,
      ((rowOf previous row.txId).map (·.outcome) ≠ some row.outcome ∨
        (rowOf previous row.txId).bind (·.rejectionCode) ≠ row.rejectionCode) ∧
      ⟨row.txId, (rowOf previous row.txId).map (·.outcome), row.outcome,
        (rowOf previous row.txId).bind (·.rejectionCode), row.rejectionCode⟩ = change := by
  simp only [calculateOutcomeChanges, List.mem_filterMap, Option.ite_none_right_eq_some,
    Option.some.injEq, rowOf]

theorem listsChanges_of_eq {revision : MaterializedRevision}
    (h : revision.outcomeChanges = calculateOutcomeChanges previous current) :
    ListsChanges previous current revision := by
  intro txId
  rw [h]
  constructor
  · rintro ⟨change, hchange, rfl⟩
    obtain ⟨row, hrow, hne, rfl⟩ := mem_calculateOutcomeChanges_iff.1 hchange
    exact ⟨row, hrow, rfl, hne⟩
  · rintro ⟨row, hrow, rfl, hne⟩
    exact ⟨_, mem_calculateOutcomeChanges_iff.2 ⟨row, hrow, hne, rfl⟩, rfl⟩

theorem outcomeChangedByReplay_record_iff {node : NodeMaterialization Db}
    {revision : MaterializedRevision}
    (h : revision.outcomeChanges = calculateOutcomeChanges previous current) :
    (node.record revision).outcomeChangedByReplay txId ↔
      node.outcomeChangedByReplay txId ∨ ChangesOutcome previous current txId := by
  rw [NodeMaterialization.outcomeChangedByReplay, NodeMaterialization.outcomeChangedByReplay,
    decide_eq_true_iff, decide_eq_true_iff, NodeMaterialization.record, h, or_comm]
  simp only [List.mem_union_iff, List.mem_map, List.mem_filter, mem_calculateOutcomeChanges_iff,
    decide_eq_true_eq]
  rw [or_comm, or_comm (a := ChangesOutcome previous current txId)]
  refine or_congr_right ⟨?_, ?_⟩
  · rintro ⟨_, ⟨⟨row, hrow, -, rfl⟩, hsome, hne⟩, rfl⟩
    obtain ⟨prior, hprior⟩ := Option.ne_none_iff_exists'.1 (mt Option.map_eq_none_iff.2 hsome)
    exact ⟨row, hrow, rfl, prior, hprior, by simpa [hprior] using hne⟩
  · rintro ⟨row, hrow, rfl, prior, hprior, hne⟩
    have hmap : (rowOf previous row.txId).map (·.outcome) ≠ some row.outcome := by
      simpa [hprior] using hne
    exact ⟨_, ⟨⟨row, hrow, .inl hmap, rfl⟩, by simp [hprior], hmap⟩, rfl⟩

end Logs

section Contracts

variable {engine : Engine Db} {options : MaterializerOptions} {faults : Faults}
  {publishing reconciling : Option Fault} {candidates : List (Option AdmittedTransaction)}
  {transactions : List AdmittedTransaction} {nonce : String} {node : NodeMaterialization Db}
  {m : DeterministicMaterializer Db} {replayed : List Bytes}

/-- Nothing is marked, and the materializer stays. -/
def Idle (m : DeterministicMaterializer Db) (replayed : List Bytes)
    (node : NodeMaterialization Db) : Prop :=
  node.materializer = m ∧ node.replayedOutcomes = replayed

theorem meets_coordinate : Meets (· = node) (coordinate engine options faults transactions nonce)
      (fun result node' => materialize engine options faults transactions nonce node.materializer =
          .ok result node'.materializer ∧ node'.replayedOutcomes = node.replayedOutcomes)
      fun _ node' => node'.replayedOutcomes = node.replayedOutcomes := by
  refine bind (Q := fun result node' => materialize engine options faults transactions nonce
    node.materializer = .ok result node'.materializer ∧
      node'.replayedOutcomes = node.replayedOutcomes) (meets_zoom fun s hs => ?_) fun result => ?_
  · subst hs
    exact meets_of (fun _ _ _ hm h => ⟨hm ▸ h, rfl⟩) fun _ _ _ _ _ => rfl
  · cases result with
    | none => exact meets_pure fun _ => id
    | some revision => exact bind (meets_modify fun _ => id) fun _ => meets_pure fun _ => id

theorem meets_publish {request : MaterializationPublicationRequest} :
    KeepsOr (Idle m replayed) (publish request)
      fun _ => Idle m replayed := by
  refine meets_get_bind fun node hnode => ?_
  have hthrow {α : Type} (message : String) :
      Meets (· = node) (nodeError message : NodeM Db α) (fun _ => Idle m replayed)
        fun _ => Idle m replayed := meets_throw fun _ h => h ▸ hnode
  cases node.publications.get? request.candidateIdentity with
  | some entry =>
    exact meets_ite (fun _ => meets_pure fun _ h => h ▸ hnode) fun _ => hthrow _
  | none =>
    refine meets_ite (fun _ => hthrow _) fun _ => meets_ite (fun _ => hthrow _) fun _ => ?_
    exact bind (Q := fun _ => Idle m replayed) (meets_set fun _ => hnode) fun _ =>
      meets_pure fun _ => id

theorem meets_publishCoordinated {coordinated : Option MaterializedRevision} :
    KeepsOr (Idle m replayed) (publishCoordinated publishing coordinated)
      fun _ => Idle m replayed := by
  cases coordinated with
  | none => exact meets_pure fun _ => id
  | some revision =>
    exact bind (tolerates_self.run meets_publish (fun _ => id) fun _ _ => id) fun published =>
      meets_ite (fun _ => meets_throw fun _ => id) fun _ => meets_pure fun _ => id

theorem meets_reconcile {targetOrderLength : ℕ} {targetRevision : Option ℕ} :
    KeepsOr (Idle m replayed) (reconcile targetOrderLength targetRevision)
      fun _ => Idle m replayed :=
  meets_get_bind fun _ hnode => meets_ite (fun _ => meets_throw fun _ h => h ▸ hnode)
    fun _ => meets_pure fun _ h => h ▸ hnode

/-- What a node has done that returns from `#reconcileMaterializer`. -/
def Reconciles (engine : Engine Db) (options : MaterializerOptions) (faults : Faults)
    (candidates : List (Option AdmittedTransaction)) (nonce : String)
    (node node' : NodeMaterialization Db) : Prop :=
  Idle node.materializer node.replayedOutcomes node' ∨
    ∃ transactions revision, admitted candidates = .ok transactions ∧
      materialize engine options faults transactions nonce node.materializer =
        .ok (some revision) node'.materializer ∧
      ∀ txId, node'.outcomeChangedByReplay txId ↔ node.outcomeChangedByReplay txId ∨
        ChangesOutcome node.materializer.log node'.materializer.log txId

theorem meets_reconcileMaterializer : Meets (· = node)
      (reconcileMaterializer engine options faults publishing reconciling candidates nonce)
      (fun _ => Reconciles engine options faults candidates nonce node)
      fun _ node' => node'.replayedOutcomes = node.replayedOutcomes := by
  refine meets_get_bind fun s hs => ?_
  subst hs
  refine meets_ite (fun _ => ?_) fun _ => meets_pure fun _ h => .inl ⟨h ▸ rfl, h ▸ rfl⟩
  refine bind_of (meets_check_of fun _ _ _ h => h ▸ rfl) fun ordered hordered => ?_
  refine meets_coordinate.bind fun coordinated => meets_of_forall fun node₁ ⟨hrun, hreplayed⟩ => ?_
  refine weaken (P := Idle node₁.materializer s.replayedOutcomes)
    (E := fun _ => Idle node₁.materializer s.replayedOutcomes) ?_
    (fun node' h => ?_) (fun _ _ => id) fun _ _ h => h.2
  swap
  · subst h
    exact ⟨rfl, hreplayed⟩
  refine meets_publishCoordinated.bind fun _ => ?_
  refine bind (tolerates_self.run meets_reconcile (fun _ => id) fun _ _ => id) fun reconciled => ?_
  refine meets_get_bind fun node₂ ⟨hmaterializer, hreplayed₂⟩ => meets_ite
    (fun _ => meets_throw fun _ h => h ▸ ⟨hmaterializer, hreplayed₂⟩) fun _ => ?_
  refine meets_modify fun node₃ h => ?_
  subst h
  obtain ⟨-, hreports, hnone⟩ := meets_materialize.of_ok rfl hrun
  cases coordinated with
  | none =>
    exact .inl ⟨hmaterializer.trans (hnone rfl), hreplayed₂⟩
  | some revision =>
    have hlog : revision.outcomeChanges =
        calculateOutcomeChanges s.materializer.log node₁.materializer.log := hreports revision rfl
    rw [← hmaterializer] at hrun hlog
    refine .inr ⟨ordered, revision, hordered, hrun, fun txId => ?_⟩
    refine (outcomeChangedByReplay_record_iff hlog).trans ?_
    rw [NodeMaterialization.outcomeChangedByReplay, NodeMaterialization.outcomeChangedByReplay,
      hreplayed₂]
    rfl

/-- A revision lists the transactions whose outcome or rejection code differs between the logs. If
    the node's call returns, then those count as changed by a replay, besides the ones that did
    before, that had an outcome and have another one. If it throws, then no other ones do. -/
theorem outcomeChanges_exact (engine : Engine Db) (options : MaterializerOptions) (faults : Faults)
    (publishing reconciling : Option Fault) (candidates : List (Option AdmittedTransaction))
    (nonce : String) (node : NodeMaterialization Db) : (∀ transactions revision m,
      materialize engine options faults transactions nonce node.materializer = .ok (some revision) m →
      ListsChanges node.materializer.log m.log revision) ∧
    (∀ node', reconcileMaterializer engine options faults publishing reconciling candidates nonce
        node = .ok () node' → Reconciles engine options faults candidates nonce node node') ∧
    ∀ stop node', reconcileMaterializer engine options faults publishing reconciling candidates
        nonce node = .error stop node' →
      ∀ txId, node'.outcomeChangedByReplay txId = node.outcomeChangedByReplay txId := by
  refine ⟨fun transactions revision m h => ?_, fun node' h => ?_, fun stop node' h txId => ?_⟩
  · exact listsChanges_of_eq ((meets_materialize.of_ok rfl h).2.1 revision rfl)
  · exact meets_reconcileMaterializer.of_ok rfl h
  · rw [NodeMaterialization.outcomeChangedByReplay, meets_reconcileMaterializer.of_error rfl h]
    rfl

end Contracts

namespace OtherResult

open AcceptAll

/-- An engine that rejects the last of three transactions, with a code that depends on the number of
    transactions before it, and accepts the other ones with a result that does. -/
def revising : Engine Unit :=
  { engine with
    runProgram := fun snapshot transaction => .ok ((),
      if transaction.txId = [30] then
        ⟨.rejectedExecution, some (if snapshot.log.length = 1 then "SQL_CONSTRAINT_VIOLATION"
          else "SQL_TYPE_MISMATCH"), { failurePhase := some .statement }⟩
      else ⟨.accepted, none, { resultDigest := some [snapshot.log.length.toUInt8] }⟩) }

/-- A node with two of the transactions. -/
def node : NodeMaterialization Unit where
  materializer := finalState (materialize revising options (fun _ => none)
    [transaction 20, transaction 30] "a" opened)

/-- Another one is admitted before them. -/
def candidates : List (Option AdmittedTransaction) :=
  [some (transaction 10), some (transaction 20), some (transaction 30)]

def node' : NodeMaterialization Unit :=
  finalState (reconcileMaterializer revising options (fun _ => none) none none candidates "b" node)

theorem reconcileMaterializer_node :
    reconcileMaterializer revising options (fun _ => none) none none candidates "b" node =
      .ok () node' :=
  eq_ok_of_returned (by decide +kernel)

/-- The call of the node publishes a revision, and what it marks are changed outcomes. -/
theorem reconciles_node : Reconciles revising options (fun _ => none) candidates "b" node node' :=
  (outcomeChanges_exact _ _ _ _ _ _ _ _).2.1 _ reconcileMaterializer_node

/-- The result of one of the two transactions is another one, and it is not listed. The rejection
    code of the other one is another one, and it does not count as changed by a replay. -/
theorem result_not_listed : (∃ r, openMaterializer revising (fun _ => none) fresh = .ok opened r) ∧
    reconcileMaterializer revising options (fun _ => none) none none candidates "b" node =
      .ok () node' ∧ ∃ revision, materialize revising options (fun _ => none)
        [transaction 10, transaction 20, transaction 30] "b" node.materializer =
        .ok (some revision) node'.materializer ∧
      (∀ txId ∈ [[20], [30]], (rowOf node.materializer.log txId).map (·.reported) ≠
        (rowOf node'.materializer.log txId).map (·.reported)) ∧
      revision.outcomeChanges.map (·.txId) = [[10], [30]] ∧
      ∀ txId ∈ [[20], [30]], ¬node'.outcomeChangedByReplay txId := by
  rcases meets_reconcileMaterializer.of_ok rfl reconcileMaterializer_node with
    hidle | ⟨transactions, revision, hadmitted, hrun, -⟩
  · have hlength : node'.materializer.log.length ≠ node.materializer.log.length := by decide +kernel
    exact absurd (congrArg (·.log.length) hidle.1) hlength
  cases hadmitted
  have hreports := (meets_materialize.of_ok rfl hrun).2.1 revision rfl
  refine ⟨openMaterializer_fresh, reconcileMaterializer_node, revision, hrun, by decide +kernel, ?_,
    by decide +kernel⟩
  rw [hreports]
  decide +kernel

end OtherResult

end Chronolog.Materializer
