import Chronolog.ControlStore.Frames

/-!
# Runs of the control store

A control store is constructed, empty or from the snapshot of another one, and then
its operations are called. An operation may fail with a conflict, because what it
asks for fails, or because its change cannot be saved; what it has changed by then
stays. Over every run the order lists the admissible candidates, each once and
sorted, and a decision about a candidate is final (`orderedTransactionIds_of_reachable`).
-/

namespace Chronolog

open Procedure KeyedMap

/-! ## Operations -/

/-- Is the state one that a candidate never leaves? -/
def CandidateState.decided : CandidateState → Bool
  | waitingForPayload | pendingValidation => false
  | admissible | invalidProtocol | unauthorized | quarantined => true

/-- What an operation of the control store fails with. -/
inductive ControlStoreFailure
  | conflict (error : ControlStoreConflictError)
  /-- An error of the persistence or of an evaluator. -/
  | thrown (message : String)
  deriving DecidableEq

/-- The verdict of an evaluator on a candidate. -/
structure AdmissionEvaluation where
  state : CandidateState
  proofAttestationIds : Option (List Bytes) := none
  reason : Option String := none
  deriving DecidableEq

/-- The operations that can change a control store. -/
inductive ControlStoreOperation
  | persistValidatorCutoff (validatorId : Bytes) (acceptedAboveMs : Int)
  | putCandidate (candidate : StoredCandidate)
  | putAttestation (attestation : StoredAttestation)
  | evaluateAdmission (txId : Bytes)
      (evaluator : StoredCandidate → List StoredAttestation → Except String AdmissionEvaluation)
  | setCandidateState (txId : Bytes) (state : CandidateState)
      (proofAttestationIds : Option (List Bytes)) (reason : Option String)
  | recordHeartbeat (heartbeat : StoredHeartbeat)
  | publishMaterializedHead (head : MaterializedHead)
  | putCheckpoint (checkpoint : StoredCheckpoint)
  | recordHistoryReopening (reopening : HistoryReopening)

/-- A candidate that is put is ordered under its own id. -/
def ControlStoreOperation.Named : ControlStoreOperation → Prop
  | putCandidate candidate => candidate.orderKey.txId = candidate.txId
  | _ => True

namespace ControlStore

/-- Calls of operations, with whatever they fail with. -/
abbrev CallM := EStateM ControlStoreFailure ControlStore

/-- A procedure of the control store as a call. -/
def call {α : Type} (procedure : ControlStoreM α) : CallM α :=
  procedure.adaptExcept .conflict

/-- A change is saved, or is asked to be saved; that may fail. -/
def persist (saved : Except String Unit) (changed : Bool) : CallM Unit :=
  match saved with
  | .ok _ => pure ()
  | .error message => if changed then throw (.thrown message) else pure ()

/-- Evaluates the admission of a candidate that waits for it, and sets its state. -/
def evaluateAdmission (saved : Except String Unit) (txId : Bytes)
    (evaluator : StoredCandidate → List StoredAttestation → Except String AdmissionEvaluation) :
    CallM Unit := do
  let store ← get
  match store.requiredCandidate txId with
  | .error conflict => throw (.conflict conflict)
  | .ok candidate =>
    if candidate.state = .admissible then return
    if candidate.state.terminalInvalid ∨ candidate.state = .waitingForPayload then
      throw (.conflict .candidateNotAdmissionEligible)
    match evaluator candidate (store.attestationsFor txId) with
    | .error message => throw (.thrown message)
    | .ok evaluation =>
      let deltas ← call (setCandidateState txId evaluation.state evaluation.proofAttestationIds
        evaluation.reason)
      persist saved !deltas.isEmpty

/-- Performs an operation; `saved` is what comes of saving its change. -/
def perform (saved : Except String Unit) : ControlStoreOperation → CallM Unit
  | .persistValidatorCutoff validatorId acceptedAboveMs => do
    let store ← get
    call (persistValidatorCutoff validatorId acceptedAboveMs)
    match saved with
    | .ok _ => return
    | .error message =>
      -- The cutoff that cannot be saved is taken back.
      if store.validatorCutoffs.get? validatorId ≠ some acceptedAboveMs then
        set store
        throw (.thrown message)
  | .putCandidate candidate => do
    let (added, _) ← call (putCandidate candidate)
    persist saved added
  | .putAttestation attestation => do
    let (added, _) ← call (putAttestation attestation)
    persist saved added
  | .evaluateAdmission txId evaluator => evaluateAdmission saved txId evaluator
  | .setCandidateState txId state proofAttestationIds reason => do
    let deltas ← call (setCandidateState txId state proofAttestationIds reason)
    persist saved !deltas.isEmpty
  | .recordHeartbeat heartbeat => do
    let delta ← call (recordHeartbeat heartbeat)
    persist saved delta.isSome
  | .publishMaterializedHead head => do
    let delta ← call (publishMaterializedHead head)
    persist saved delta.isSome
  | .putCheckpoint checkpoint => do
    let delta ← call (putCheckpoint checkpoint)
    persist saved delta.isSome
  | .recordHistoryReopening reopening => do
    let delta ← call (recordHistoryReopening reopening)
    persist saved delta.isSome

/-- The store after operations, some of which may fail. -/
def performAll (operations : List (ControlStoreOperation × Except String Unit))
    (store : ControlStore) : ControlStore :=
  operations.foldl (fun store (operation, saved) => finalState (perform saved operation store)) store

end ControlStore

/-! ## Snapshots -/

/-- What a control store saves. -/
structure ControlStoreSnapshot where
  sequence : Int
  candidates : List StoredCandidate
  attestations : List StoredAttestation
  heartbeats : List StoredHeartbeat
  orderedTxIds : List Bytes
  deltas : List ControlStoreDelta
  deltaFloor : Option Int
  materializedHead : Option MaterializedHead
  checkpoints : List StoredCheckpoint
  historyReopenings : List HistoryReopening
  validatorCutoffs : Option (List (Bytes × Int))
  deriving DecidableEq

namespace ControlStore

def snapshot (store : ControlStore) : ControlStoreSnapshot where
  sequence := store.sequence
  candidates := store.candidates.values
  attestations := store.attestations.values
  heartbeats := store.heartbeats.values
  orderedTxIds := store.orderedTxIds
  deltas := store.deltas
  deltaFloor := some store.deltaFloor
  materializedHead := store.materializedHead
  checkpoints := store.checkpoints.values
  historyReopenings := store.historyReopenings.values
  validatorCutoffs := some store.validatorCutoffs.entries

/-- The deltas of a restored store are numbered from its floor up to its sequence. -/
def verifyDeltas (store : ControlStore) : Except ControlStoreConflictError Unit := do
  if store.deltas.getLast?.any (·.sequence ≠ store.sequence) then .error .corruptDeltaSequence
  if store.deltas.head?.any (·.sequence ≠ store.deltaFloor + 1) then .error .corruptDeltaFloor
  if store.deltas.isEmpty ∧ store.deltaFloor ≠ store.sequence then .error .corruptDeltaFloor
  if ¬ store.deltas.IsChain (·.sequence < ·.sequence) then .error .corruptDeltaSequence

/-- The order of a restored store lists admissible candidates, none twice, and is sorted. -/
def verifyOrder (store : ControlStore) : (previous : Option StoredCandidate) →
    (seen txIds : List Bytes) → Except ControlStoreConflictError Unit
  | _, _, [] => .ok ()
  | previous, seen, txId :: txIds => do
    let candidate ← store.requiredCandidate txId
    if candidate.state ≠ .admissible then .error .corruptOrderState
    if txId ∈ seen then .error .corruptDuplicateOrder
    if previous.any fun previous =>
        compareTransactionOrder previous.orderKey candidate.orderKey ≠ .lt then
      .error .corruptOrder
    verifyOrder store (some candidate) (txId :: seen) txIds

def verifyRestoredOrder (store : ControlStore) : Except ControlStoreConflictError Unit := do
  store.verifyDeltas
  store.verifyOrder none [] store.orderedTxIds

/-- The store that a snapshot is of. -/
def restore (maximumRetainedDeltas : Nat) (snapshot : ControlStoreSnapshot) :
    Except ControlStoreConflictError ControlStore := do
  let store := trimDeltas {
    sequence := snapshot.sequence
    deltaFloor := snapshot.deltaFloor.getD 0
    maximumRetainedDeltas
    candidates := snapshot.candidates.foldl KeyedMap.put .empty
    attestations := snapshot.attestations.foldl KeyedMap.put .empty
    attestationsByTx := snapshot.attestations.foldl (fun byTx attestation =>
      let refs := (byTx.get? attestation.txId).getD []
      byTx.set attestation.txId <|
        if attestation.attestationId ∈ refs then refs else refs ++ [attestation.attestationId]) .empty
    heartbeats := snapshot.heartbeats.foldl KeyedMap.put .empty
    validatorCutoffs := .ofList (snapshot.validatorCutoffs.getD [])
    orderedTxIds := snapshot.orderedTxIds
    deltas := snapshot.deltas
    checkpoints := snapshot.checkpoints.foldl KeyedMap.put .empty
    historyReopenings := snapshot.historyReopenings.foldl KeyedMap.put .empty
    materializedHead := snapshot.materializedHead }
  store.verifyRestoredOrder
  return store

/-- The cutoff of the journal counts if it is the higher one. -/
def mergeValidatorCutoff (cutoffs : OrdMap Bytes Int) (cutoff : Bytes × Int) : OrdMap Bytes Int :=
  match cutoffs.get? cutoff.1 with
  | none => cutoffs.set cutoff.1 cutoff.2
  | some previous => if previous < cutoff.2 then cutoffs.set cutoff.1 cutoff.2 else cutoffs

/-- The store of the snapshot that was loaded, if one was. `recovers` is the answer of
    `recoverCorruptSnapshot`, after which the store is reset. -/
def loadSnapshot (maximumRetainedDeltas : Nat) (snapshot : Option ControlStoreSnapshot)
    (recovers : Bool) : Except ControlStoreFailure ControlStore :=
  match snapshot with
  | none => .ok { maximumRetainedDeltas }
  | some snapshot =>
    match restore maximumRetainedDeltas snapshot with
    | .ok store => .ok store
    | .error conflict =>
      if recovers then .ok { maximumRetainedDeltas } else .error (.conflict conflict)

/-- A control store, from the cutoffs of the journal and the snapshot. -/
def construct (maximumRetainedDeltas : Nat) (journalCutoffs : List (Bytes × Int))
    (snapshot : Option ControlStoreSnapshot) (recovers : Bool) :
    Except ControlStoreFailure ControlStore :=
  if maximumRetainedDeltas < 1 then .error (.thrown "CONTROL_STORE_INVALID_DELTA_RETENTION")
  else (loadSnapshot maximumRetainedDeltas snapshot recovers).map fun store => { store with
    validatorCutoffs := journalCutoffs.foldl mergeValidatorCutoff store.validatorCutoffs }

/-- The control stores that there can be: constructed from nothing or from the snapshot of another
    one, with any cutoffs in the journal, and changed by operations. -/
inductive Reachable : ControlStore → Prop
  | create {store : ControlStore} {maximumRetainedDeltas : Nat} {journalCutoffs : List (Bytes × Int)}
      {recovers : Bool}
      (hstore : construct maximumRetainedDeltas journalCutoffs none recovers = .ok store) :
      Reachable store
  | restart {store earlier : ControlStore} {maximumRetainedDeltas : Nat}
      {journalCutoffs : List (Bytes × Int)} {recovers : Bool} (hearlier : Reachable earlier)
      (hstore : construct maximumRetainedDeltas journalCutoffs (some earlier.snapshot) recovers =
        .ok store) :
      Reachable store
  | perform {store : ControlStore} (hstore : Reachable store) {operation : ControlStoreOperation}
      (hnamed : operation.Named) (saved : Except String Unit) :
      Reachable (finalState (perform saved operation store))

/-! ## What an operation may do -/

section Advances

variable {store store' : ControlStore} {α : Type}

/-- The order lists the admissible candidates, and is sorted. -/
structure Consistent (store : ControlStore) : Prop where
  ordered : store.Ordered
  mem_iff : ∀ id, id ∈ store.orderedTxIds ↔
    ∃ candidate, store.candidates.get? id = some candidate ∧ candidate.state = .admissible

theorem Consistent.congr (h : store.Consistent) (hcandidates : store'.candidates = store.candidates)
    (hordered : store'.orderedTxIds = store.orderedTxIds) : store'.Consistent := by
  refine ⟨h.ordered.congr hcandidates hordered, fun id => ?_⟩
  rw [hordered, hcandidates]
  exact h.mem_iff id

/-- The later store is as consistent as the earlier one, and stands by what that one decided. -/
structure Advances (store store' : ControlStore) : Prop where
  consistent : store.Consistent → store'.Consistent
  decided : ∀ id candidate, store.candidates.get? id = some candidate → candidate.state.decided →
    ∃ candidate', store'.candidates.get? id = some candidate' ∧ candidate'.state = candidate.state

theorem Advances.refl (store : ControlStore) : Advances store store :=
  ⟨fun h => h, fun _ candidate hget _ => ⟨candidate, hget, rfl⟩⟩

theorem Advances.trans {store'' : ControlStore} (h : Advances store store')
    (h' : Advances store' store'') : Advances store store'' := by
  refine ⟨fun hstore => h'.consistent (h.consistent hstore), fun id candidate hget hdecided => ?_⟩
  obtain ⟨candidate', hget', hstate⟩ := h.decided id candidate hget hdecided
  obtain ⟨candidate'', hget'', hstate'⟩ := h'.decided id candidate' hget' (hstate ▸ hdecided)
  exact ⟨candidate'', hget'', hstate'.trans hstate⟩

variable {kind : DeltaKind} {next : StoredCandidate} {admits : Prop} [Decidable admits]
  {ordered : ControlStoreDelta → ControlStoreDelta → α} {stored : ControlStoreDelta → α}

theorem candidates_recordCandidate :
    (finalState (recordCandidate kind next admits ordered stored store)).candidates =
      store.candidates := by
  have hP : OfContent fun s => s.candidates = store.candidates := fun _ _ h _ _ _ h' => h.trans h'
  exact hP.keeps_recordCandidate store rfl

/-- Storing a candidate and ordering it if it becomes admissible. -/
theorem advances_recordCandidate (hnamed : store.Consistent → next.orderKey.txId = next.txId)
    (hkey : ∀ previous, store.candidates.get? next.txId = some previous →
      previous.orderKey = next.orderKey)
    (hdecided : ∀ previous, store.candidates.get? next.txId = some previous →
      previous.state.decided → next.state = previous.state)
    (hadmits : admits ↔ next.state = .admissible ∧
      ∀ previous, store.candidates.get? next.txId = some previous → previous.state ≠ .admissible) :
    Advances store (finalState (recordCandidate kind next admits ordered stored
      { store with candidates := store.candidates.put next })) := by
  refine ⟨fun h => ?_, fun id candidate hget hstate => ?_⟩
  · have hput := h.ordered.put (hnamed h) hkey
    -- Of the other candidates nothing changes.
    have hother : ∀ id, id ≠ next.txId → (id ∈ store.orderedTxIds ↔ ∃ candidate,
        (store.candidates.put next).get? id = some candidate ∧
          candidate.state = .admissible) := by
      intro id hne
      rw [get?_put_of_ne hne]
      exact h.mem_iff id
    have hself : (∃ candidate, (store.candidates.put next).get? next.txId = some candidate ∧
        candidate.state = .admissible) ↔ next.state = .admissible := by
      rw [get?_put_self]
      simp only [Option.some.injEq, exists_eq_left']
    by_cases hyes : admits
    · obtain ⟨hstate, hnew⟩ := hadmits.1 hyes
      have hnot : next.txId ∉ store.orderedTxIds := fun hmem => by
        obtain ⟨previous, hprevious, hadmissible⟩ := (h.mem_iff _).1 hmem
        exact hnew previous hprevious hadmissible
      obtain ⟨_, _, low, hrun, hcontent, hordered⟩ := @recordCandidate_of_admits _ α kind next
        admits _ ordered stored hyes hput (get?_put_self _ _) hnot
      rw [hrun, finalState]
      refine ⟨hordered, fun id => ?_⟩
      rw [hcontent.orderedTxIds, hcontent.candidates, Insertion.mem_insertAt]
      by_cases hid : id = next.txId
      · subst hid
        exact ⟨fun _ => hself.2 hstate, fun _ => .inl rfl⟩
      · rw [← hother id hid]
        exact ⟨fun hmem => hmem.resolve_left hid, .inr⟩
    · have hcontent := @recordCandidate_of_not
        { store with candidates := store.candidates.put next } α kind next admits _ ordered stored hyes
      refine ⟨hput.congr hcontent.candidates hcontent.orderedTxIds, fun id => ?_⟩
      rw [hcontent.orderedTxIds, hcontent.candidates]
      by_cases hid : id = next.txId
      · subst hid
        rw [hself, h.mem_iff]
        constructor
        · rintro ⟨previous, hprevious, hadmissible⟩
          rw [hdecided previous hprevious (by rw [hadmissible]; rfl), hadmissible]
        · -- An admissible candidate that is not to be ordered was admissible before.
          intro hstate
          by_contra hnone
          exact hyes (hadmits.2 ⟨hstate, fun previous hprevious hadmissible =>
            hnone ⟨previous, hprevious, hadmissible⟩⟩)
      · exact hother id hid
  · rw [candidates_recordCandidate, get?_put]
    split_ifs with hid
    · subst hid
      exact ⟨next, rfl, hdecided candidate hget hstate⟩
    · exact ⟨candidate, hget, rfl⟩

end Advances

/-! ## The operations -/

section Operations

variable {store store' : ControlStore}
variable {named : Prop}

theorem validateStateTransition_decided {previous next : CandidateState}
    (h : validateStateTransition previous next = .ok ()) (hdecided : previous.decided) :
    next = previous := by
  unfold validateStateTransition at h
  split_ifs at h with hsame <;> cases previous <;> simp_all [CandidateState.decided,
    CandidateState.terminalInvalid]

/-- What an operation can do to the candidates and their order: nothing, or it
    records a candidate that is new or has the identity of the one in its place. -/
inductive Touches (named : Prop) (store : ControlStore) : ControlStore → Prop
  | nothing {store' : ControlStore} (hcandidates : store'.candidates = store.candidates)
      (hordered : store'.orderedTxIds = store.orderedTxIds) : Touches named store store'
  | put {α : Type} {kind : DeltaKind} {next : StoredCandidate}
      {ordered : ControlStoreDelta → ControlStoreDelta → α} {stored : ControlStoreDelta → α}
      (hnamed : named → next.orderKey.txId = next.txId)
      (hnew : store.candidates.get? next.txId = none) :
      Touches named store (finalState (recordCandidate kind next (next.state = .admissible) ordered
        stored { store with candidates := store.candidates.put next }))
  | set {α : Type} {kind : DeltaKind} {previous next : StoredCandidate}
      {ordered : ControlStoreDelta → ControlStoreDelta → α} {stored : ControlStoreDelta → α}
      (hget : store.candidates.get? next.txId = some previous)
      (hidentity : sameCandidateIdentity previous next) (hkey : previous.orderKey = next.orderKey)
      (htransition : validateStateTransition previous.state next.state = .ok ()) :
      Touches named store (finalState (recordCandidate kind next
        (previous.state ≠ .admissible ∧ next.state = .admissible) ordered stored
        { store with candidates := store.candidates.put next }))

theorem touches_self : Touches named store store := .nothing rfl rfl

theorem touches_putCandidate (candidate : StoredCandidate) :
    Touches (candidate.orderKey.txId = candidate.txId) store
      (finalState (putCandidate candidate store)) := by
  simp only [putCandidate, bind_get_run]
  cases hget : store.candidates.get? candidate.txId with
  | some existing =>
    dsimp only
    split_ifs <;> exact touches_self
  | none =>
    dsimp only
    rw [bind_set_run]
    exact .put id hget

theorem touches_setCandidateState (txId : Bytes) (state : CandidateState)
    (ids : Option (List Bytes)) (reason : Option String) :
    Touches named store (finalState (setCandidateState txId state ids reason store)) := by
  obtain hsame | ⟨previous, next, kind, ordered, stored, hget, hidentity, hkey, htransition, hrun⟩ :=
    setCandidateState_cases txId state ids reason store
  · rw [hsame]
    exact touches_self
  · rw [hrun]
    exact .set hget hidentity hkey htransition

/-- An operation that only records a change of something else. -/
theorem touches_appendDelta (kind : DeltaKind) (hcandidates : store'.candidates = store.candidates)
    (hordered : store'.orderedTxIds = store.orderedTxIds) :
    Touches named store (finalState ((some <$> appendDelta kind) store')) := by
  obtain ⟨delta, store'', happend, hcontent⟩ := appendDelta_spec kind store'
  rw [map_run_of_ok happend]
  exact .nothing (hcontent.candidates.trans hcandidates) (hcontent.orderedTxIds.trans hordered)

theorem touches_putAttestation (attestation : StoredAttestation) :
    Touches named store (finalState (putAttestation attestation store)) := by
  cases hget : store.attestations.get? attestation.attestationId with
  | none =>
    obtain ⟨result, store', hput, hcontent⟩ := putAttestation_of_new hget
    rw [hput]
    exact .nothing hcontent.candidates hcontent.orderedTxIds
  | some existing =>
    simp only [putAttestation, bind_get_run, hget]
    split_ifs <;> exact touches_self

theorem touches_recordHeartbeat (heartbeat : StoredHeartbeat) :
    Touches named store (finalState (recordHeartbeat heartbeat store)) := by
  rcases @recordHeartbeat_spec store heartbeat with ⟨hsame, -⟩ | ⟨hcontent, -⟩
  · rw [hsame]
    exact touches_self
  · exact .nothing hcontent.candidates hcontent.orderedTxIds

theorem touches_publishMaterializedHead (head : MaterializedHead) :
    Touches named store (finalState (publishMaterializedHead head store)) := by
  simp only [publishMaterializedHead, bind_get_run]
  cases store.materializedHead with
  | none =>
    split_ifs <;> first | exact touches_self | exact touches_appendDelta _ rfl rfl
  | some previous =>
    dsimp only
    split_ifs <;> first | exact touches_self | exact touches_appendDelta _ rfl rfl

theorem touches_putCheckpoint (checkpoint : StoredCheckpoint) :
    Touches named store (finalState (putCheckpoint checkpoint store)) := by
  simp only [putCheckpoint, bind_get_run]
  split_ifs <;> first | exact touches_self | exact touches_appendDelta _ rfl rfl

theorem touches_recordHistoryReopening (reopening : HistoryReopening) :
    Touches named store (finalState (recordHistoryReopening reopening store)) := by
  simp only [recordHistoryReopening, bind_get_run]
  cases store.historyReopenings.get? reopening.id with
  | none => exact touches_appendDelta _ rfl rfl
  | some previous =>
    dsimp only
    split_ifs <;> exact touches_self

/-- Saving changes nothing in the store, also if it fails. -/
theorem finalState_persist (saved : Except String Unit) (changed : Bool) :
    finalState (persist saved changed store) = store := by
  cases saved with
  | ok u => rfl
  | error message => cases changed <;> rfl

variable {α : Type}

theorem call_run_of_ok {procedure : ControlStoreM α} {a : α} (h : procedure store = .ok a store') :
    call procedure store = .ok a store' := by
  rw [call, EStateM.adaptExcept, h]

theorem call_run_of_error {procedure : ControlStoreM α} {e : ControlStoreConflictError}
    (h : procedure store = .error e store') :
    call procedure store = .error (.conflict e) store' := by
  rw [call, EStateM.adaptExcept, h]

/-- A call does what its procedure does if the rest of it changes nothing. -/
theorem Touches.call {procedure : ControlStoreM α} {rest : α → CallM Unit}
    (h : Touches named store (finalState (procedure store)))
    (hrest : ∀ a s, finalState (rest a s) = s) :
    Touches named store (finalState ((call procedure >>= rest) store)) := by
  cases hrun : procedure store with
  | ok a s =>
    rw [hrun] at h
    rw [bind_run_of_ok (call_run_of_ok hrun), hrest]
    exact h
  | error conflict s =>
    rw [hrun] at h
    rw [bind_run_of_error (call_run_of_error hrun)]
    exact h

theorem touches_evaluateAdmission (saved : Except String Unit) (txId : Bytes)
    (evaluator : StoredCandidate → List StoredAttestation → Except String AdmissionEvaluation) :
    Touches named store (finalState (evaluateAdmission saved txId evaluator store)) := by
  simp only [evaluateAdmission, bind_get_run]
  cases store.requiredCandidate txId with
  | error conflict => exact touches_self
  | ok candidate =>
    dsimp only
    split_ifs
    · exact touches_self
    · exact touches_self
    · cases evaluator candidate (store.attestationsFor txId) with
      | error message => exact touches_self
      | ok evaluation =>
        exact (touches_setCandidateState _ _ _ _).call fun _ _ => finalState_persist _ _

theorem touches_persistValidatorCutoff (saved : Except String Unit)
    (validatorId : Bytes) (acceptedAboveMs : Int) : Touches named store (finalState (perform saved
      (.persistValidatorCutoff validatorId acceptedAboveMs) store)) := by
  rw [perform, bind_get_run]
  rcases @persistValidatorCutoff_spec store validatorId acceptedAboveMs with
    ⟨previous, -, -, hrun⟩ | ⟨cutoffs, hrun, -⟩
  · rw [bind_run_of_error (call_run_of_error hrun)]
    exact touches_self
  · rw [bind_run_of_ok (call_run_of_ok hrun)]
    cases saved with
    | ok u => exact .nothing rfl rfl
    | error message =>
      split_ifs
      · exact touches_self
      · exact .nothing rfl rfl

theorem touches_perform (saved : Except String Unit) (operation : ControlStoreOperation) :
    Touches operation.Named store (finalState (perform saved operation store)) := by
  cases operation with
  | persistValidatorCutoff validatorId acceptedAboveMs =>
    exact touches_persistValidatorCutoff saved validatorId acceptedAboveMs
  | putCandidate candidate =>
    exact (touches_putCandidate candidate).call fun _ _ => finalState_persist _ _
  | putAttestation attestation =>
    exact (touches_putAttestation attestation).call fun _ _ => finalState_persist _ _
  | evaluateAdmission txId evaluator => exact touches_evaluateAdmission saved txId evaluator
  | setCandidateState txId state ids reason =>
    exact (touches_setCandidateState txId state ids reason).call fun _ _ => finalState_persist _ _
  | recordHeartbeat heartbeat =>
    exact (touches_recordHeartbeat heartbeat).call fun _ _ => finalState_persist _ _
  | publishMaterializedHead head =>
    exact (touches_publishMaterializedHead head).call fun _ _ => finalState_persist _ _
  | putCheckpoint checkpoint =>
    exact (touches_putCheckpoint checkpoint).call fun _ _ => finalState_persist _ _
  | recordHistoryReopening reopening =>
    exact (touches_recordHistoryReopening reopening).call fun _ _ => finalState_persist _ _

theorem Touches.advances (h : Touches named store store') (hnamed : named) :
    Advances store store' := by
  cases h with
  | nothing hcandidates hordered =>
    exact ⟨fun h => h.congr hcandidates hordered, fun _ candidate hget _ =>
      ⟨candidate, hcandidates ▸ hget, rfl⟩⟩
  | @put _ _ next _ _ hname hnew =>
    have hnone : ∀ {P : StoredCandidate → Prop} (previous),
        store.candidates.get? next.txId = some previous → P previous :=
      fun previous hprevious => absurd (hnew.symm.trans hprevious) (by simp)
    exact advances_recordCandidate (fun _ => hname hnamed) hnone hnone
      ⟨fun hstate => ⟨hstate, hnone⟩, fun hstate => hstate.1⟩
  | @set _ _ previous next _ _ hget _ hkey htransition =>
    have honly : ∀ {P : StoredCandidate → Prop}, P previous → ∀ candidate,
        store.candidates.get? next.txId = some candidate → P candidate := by
      intro P hP candidate hcandidate
      exact Option.some.inj (hget.symm.trans hcandidate) ▸ hP
    refine advances_recordCandidate (fun h => ?_) (honly hkey)
      (honly fun hdecided => validateStateTransition_decided htransition hdecided)
      ⟨fun hadmits => ⟨hadmits.2, honly hadmits.1⟩, fun hadmits => ⟨hadmits.2 previous hget, hadmits.1⟩⟩
    rw [← hkey]
    exact h.ordered.named _ previous hget

theorem advances_perform (saved : Except String Unit) {operation : ControlStoreOperation}
    (hnamed : operation.Named) : Advances store (finalState (perform saved operation store)) :=
  (touches_perform saved operation).advances hnamed

/-! ### What a candidate keeps -/

/-- The predicate is one on candidates. -/
def OfCandidates (P : ControlStore → Prop) : Prop :=
  ∀ ⦃store store' : ControlStore⦄, store'.candidates = store.candidates → P store → P store'

section OfCandidates

variable {P : ControlStore → Prop}

/-- A predicate on candidates is kept by an operation if it is kept by putting a new candidate and by
    putting one with the same identity in the place of another. -/
theorem OfCandidates.keeps_perform (hP : OfCandidates P)
    (hput : ∀ store next, store.candidates.get? next.txId = none → P store →
      P { store with candidates := store.candidates.put next })
    (hset : ∀ store previous next, store.candidates.get? next.txId = some previous →
      sameCandidateIdentity previous next → P store →
      P { store with candidates := store.candidates.put next })
    (saved : Except String Unit) (operation : ControlStoreOperation) :
    Keeps P (perform saved operation) := by
  intro store h
  have htouches := @touches_perform store saved operation
  generalize finalState (perform saved operation store) = store' at htouches
  cases htouches with
  | nothing hcandidates _ => exact hP hcandidates h
  | put _ hnew => exact hP candidates_recordCandidate (hput store _ hnew h)
  | set hget hidentity _ _ => exact hP candidates_recordCandidate (hset store _ _ hget hidentity h)

/-- A candidate keeps its order key and its payload. -/
theorem getCandidate_perform {txId : Bytes} {candidate : StoredCandidate}
    (saved : Except String Unit) (operation : ControlStoreOperation)
    (hget : store.getCandidate txId = some candidate) :
    ∃ candidate', (finalState (perform saved operation store)).getCandidate txId = some candidate' ∧
      candidate'.orderKey = candidate.orderKey ∧
      candidate'.canonicalPayload = candidate.canonicalPayload := by
  let P : ControlStore → Prop := fun store => ∃ candidate',
    store.candidates.get? txId = some candidate' ∧ candidate'.orderKey = candidate.orderKey ∧
      candidate'.canonicalPayload = candidate.canonicalPayload
  have hP : OfCandidates P := fun _ _ hcandidates ⟨candidate', hget', hsame⟩ =>
    ⟨candidate', hcandidates ▸ hget', hsame⟩
  refine hP.keeps_perform ?_ ?_ saved operation store ⟨candidate, hget, rfl, rfl⟩
  · rintro store next hnew ⟨candidate', hget', hsame⟩
    refine ⟨candidate', ?_, hsame⟩
    rw [get?_put_of_ne]
    · exact hget'
    · rintro rfl
      simp [hnew] at hget'
  · rintro store previous next hprevious hidentity ⟨candidate', hget', hsame⟩
    simp only [P, get?_put]
    split_ifs with hid
    · subst hid
      obtain rfl : previous = candidate' := Option.some.inj (hprevious.symm.trans hget')
      simp only [sameCandidateIdentity, Bool.and_eq_true, decide_eq_true_eq] at hidentity
      exact ⟨next, rfl, hidentity.1.2 ▸ hsame.1, hidentity.2 ▸ hsame.2⟩
    · exact ⟨candidate', hget', hsame⟩

end OfCandidates

theorem advances_performAll {operations : List (ControlStoreOperation × Except String Unit)}
    (hnamed : ∀ operation ∈ operations, operation.1.Named) :
    Advances store (performAll operations store) := by
  induction operations generalizing store with
  | nil => exact Advances.refl store
  | cons operation operations ih =>
    exact (advances_perform operation.2 (hnamed _ List.mem_cons_self)).trans
      (ih fun later hlater => hnamed later (List.mem_cons_of_mem _ hlater))

end Operations

/-! ## Reachable stores -/

section Reachable

variable {store earlier : ControlStore} {maximumRetainedDeltas : Nat}
  {journalCutoffs : List (Bytes × Int)} {recovers : Bool}

theorem consistent_empty {cutoffs : OrdMap Bytes Int} :
    Consistent { maximumRetainedDeltas, validatorCutoffs := cutoffs } := by
  refine ⟨ordered_empty.congr rfl rfl, fun id => ?_⟩
  exact ⟨fun h => absurd h List.not_mem_nil, fun ⟨_, h, _⟩ => absurd h (by simp)⟩

/-- The store that a snapshot is restored to has the candidates and the order of the
    store that it was taken of. -/
theorem of_restore_snapshot (h : restore maximumRetainedDeltas earlier.snapshot = .ok store) :
    store.candidates = earlier.candidates ∧ store.orderedTxIds = earlier.orderedTxIds := by
  obtain ⟨_, -, h⟩ := bind_eq_ok_iff.1 h
  cases h
  have hcontent := sameContent_trimDeltas
  exact ⟨(hcontent _).candidates.trans (foldl_put_values earlier.candidates),
    (hcontent _).orderedTxIds⟩

theorem consistent_of_construct {snapshot : Option ControlStoreSnapshot}
    (h : construct maximumRetainedDeltas journalCutoffs snapshot recovers = .ok store)
    (hload : ∀ loaded, loadSnapshot maximumRetainedDeltas snapshot recovers = .ok loaded →
      loaded.Consistent) : store.Consistent := by
  rw [construct] at h
  split_ifs at h
  cases hloaded : loadSnapshot maximumRetainedDeltas snapshot recovers with
  | error e =>
    rw [hloaded] at h
    cases h
  | ok loaded =>
    rw [hloaded] at h
    cases h
    exact (hload loaded hloaded).congr rfl rfl

theorem Reachable.consistent (h : Reachable store) : store.Consistent := by
  induction h with
  | create hstore =>
    refine consistent_of_construct hstore fun loaded hloaded => ?_
    cases hloaded
    exact consistent_empty
  | @restart store earlier n _ _ _ hstore ih =>
    refine consistent_of_construct hstore fun loaded hloaded => ?_
    rw [loadSnapshot] at hloaded
    cases hrestore : restore n earlier.snapshot with
    | ok restored =>
      rw [hrestore] at hloaded
      cases hloaded
      obtain ⟨hcandidates, hordered⟩ := of_restore_snapshot hrestore
      exact ih.congr hcandidates hordered
    | error conflict =>
      -- The snapshot is put away, and the store starts empty.
      rw [hrestore] at hloaded
      split_ifs at hloaded
      cases hloaded
      exact consistent_empty
  | perform _ hnamed saved ih => exact (advances_perform saved hnamed).consistent ih

/-- After any operations on a store, failed ones included, the order is strictly
    increasing, it lists the admissible candidates and each of them once, and a
    candidate whose state was decided has that state. -/
theorem orderedTransactionIds_of_reachable (hstore : Reachable store)
    {operations : List (ControlStoreOperation × Except String Unit)}
    (hnamed : ∀ operation ∈ operations, operation.1.Named) :
    (performAll operations store).orderedTransactionIds.Pairwise
        (performAll operations store).Before ∧
      (performAll operations store).orderedTransactionIds.Nodup ∧
      (∀ txId, txId ∈ (performAll operations store).orderedTransactionIds ↔
        ∃ candidate, (performAll operations store).getCandidate txId = some candidate ∧
          candidate.state = .admissible) ∧
      ∀ txId candidate, store.getCandidate txId = some candidate → candidate.state.decided →
        ∃ candidate', (performAll operations store).getCandidate txId = some candidate' ∧
          candidate'.state = candidate.state := by
  have hadvances : Advances store (performAll operations store) := advances_performAll hnamed
  have hconsistent := hadvances.consistent hstore.consistent
  exact ⟨hconsistent.ordered.sorted, hconsistent.ordered.nodup, hconsistent.mem_iff,
    hadvances.decided⟩

end Reachable

namespace LateDecision

/-- A candidate of the author 1 that is admissible from the start. -/
def admitted (byte : UInt8) (authorTimestampMs : Int) : StoredCandidate where
  txId := [byte]
  groupId := [0]
  candidateDigest := [byte]
  validationPolicy := [0]
  orderKey := { authorTimestampMs, authorId := [1], authorFeedSequence := 1, txId := [byte] }
  canonicalPayload := none
  state := .admissible
  stateReason := none
  proofAttestationIds := []

/-- A candidate is put before another one and then refused; the change of the first
    operation cannot be saved. -/
def operations : List (ControlStoreOperation × Except String Unit) :=
  [(.putCandidate (admitted 2 10), .error "EIO"),
    (.setCandidateState [2] .quarantined none none, .ok ())]

def store : ControlStore := finalState (perform (.ok ()) (.putCandidate (admitted 1 20)) {})

/-- Both are in the order of their timestamps, and the refusal has failed. -/
theorem orderedTransactionIds_sorted : (performAll operations store).orderedTransactionIds =
      [[2], [1]] ∧ [[2], [1]].Pairwise (performAll operations store).Before ∧
    ∃ candidate, (performAll operations store).getCandidate [1] = some candidate ∧
      candidate.state = .admissible := by
  have hreachable : Reachable store :=
    @Reachable.perform {} (@Reachable.create _ 2048 [] true rfl) (.putCandidate (admitted 1 20)) rfl _
  have hrun : (performAll operations store).orderedTransactionIds = [[2], [1]] := by rfl
  obtain ⟨hsorted, -, -, hdecided⟩ := @orderedTransactionIds_of_reachable store hreachable operations
    (by simp [operations, ControlStoreOperation.Named, admitted])
  refine ⟨hrun, hrun ▸ hsorted, ?_⟩
  obtain ⟨candidate, hget, hstate⟩ := hdecided [1] (admitted 1 20) rfl rfl
  exact ⟨candidate, hget, hstate⟩

end LateDecision

end ControlStore

end Chronolog
