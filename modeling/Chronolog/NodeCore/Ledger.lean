import Chronolog.ControlStore.Order
import Chronolog.NodeCore.Admission

/-!
# What a node knows of the records it has applied

The ledger of a node, its candidates with their admission and order and its
attestations, is determined by the records it has applied, up to which of them
have made a candidate admissible when: `Reflects`. A delivery keeps that
(`reflects_ingest`). Admission never runs ahead of the attestations
(`Reflects.admitted`).
-/

namespace Chronolog

open Procedure ChronologNode FeedForkRegistry List
open ControlStore hiding persistValidatorCutoff
open NodeM hiding control

/-! ## Reading records -/

section Read

variable {options : ChronologNodeOptions} {env : NodeEnv} {record : TransportRecord}

theorem orInvalid_eq_ok_iff {condition : Bool} {code : String} {u : Unit} :
    orInvalid condition code = .ok u ↔ condition = true := by
  cases condition <;> simp [orInvalid]

theorem orTerminal_eq_ok_iff {α : Type} {code : String} {x : Except String α} {a : α} :
    orTerminal code x = .ok a ↔ x = .ok a := by
  cases x <;> simp [orTerminal]

theorem consult_eq_ok_iff {α : Type} {x : Except String α} {a : α} :
    consult x = .ok a ↔ x = .ok a := by
  cases x <;> simp [consult]

namespace ChronologNode

variable {message : IngestMessage}

/-- The message of a record, read by its type. -/
theorem readRecord_eq_ok_iff : readRecord options env record = .ok message ↔
      ∃ envelope, options.codec.decodeEnvelope record.payload = .ok envelope ∧
      if envelope.messageType ≠ .candidate ∧ envelope.messageType ≠ .attestation ∧
          envelope.messageType ≠ .heartbeat then message = .ignored
      else ∃ wire, decodeSignedEnvelope options.codec record.payload (groupRoute options)
          env.envelopeCipher env.blobStore = .ok wire ∧
        readMessage options env record wire = .ok message := by
  simp only [readRecord, bind_eq_ok_iff, consult_eq_ok_iff]
  refine exists_congr fun envelope => and_congr_right fun _ => ?_
  split_ifs
  · simp [pure, Except.pure, eq_comm]
  · simp only [bind_eq_ok_iff, decodeRecord, orTerminal_eq_ok_iff]

/-- A candidate that was read is stored under the id of its record, not
    admissible yet, and ordered by its author, timestamp, sequence and id. -/
structure IsRead (options : ChronologNodeOptions) (record : TransportRecord)
    (core : TransactionCore) (candidate : StoredCandidate) : Prop where
  groupId : core.groupId = options.groupId
  txId : candidate.txId = utf8 record.id
  candidateGroupId : candidate.groupId = core.groupId
  validationPolicy : candidate.validationPolicy = core.validationPolicy
  orderKey : candidate.orderKey =
    ⟨core.authorTimestampMs, core.authorId, record.sequence, candidate.txId⟩
  canonicalPayload : ∃ canonical, candidate.canonicalPayload = some canonical ∧
    options.codec.decodeTransactionCore canonical = .ok core ∧
    candidate.candidateDigest = options.codec.transactionDigest canonical
  state : candidate.state = .pendingValidation ∨ candidate.state = .unauthorized
  proofAttestationIds : candidate.proofAttestationIds = []

theorem of_readCandidate {canonical signer : Bytes}
    (h : readCandidate options env record canonical signer = .ok message) :
    ∃ core candidate, message = .candidate core candidate ∧ IsRead options record core candidate ∧
      core.authorId = signer ∧
      membershipAllowsTransportAuthor options env record.author .writer signer
        core.membershipRevision none = .ok true ∧ env.membership.canWrite core.context =
        .ok (candidate.state = .pendingValidation) := by
  simp only [readCandidate, bind_eq_ok_iff, orTerminal_eq_ok_iff, orInvalid_eq_ok_iff,
    consult_eq_ok_iff, decide_eq_true_eq] at h
  obtain ⟨core, hcore, -, hgroup, -, hsigner, allowed, hallowed, -, rfl, -, -, -, -, canWrite,
    hcanWrite, orderKey, horderKey, hmessage⟩ := h
  have horder : orderKey = ⟨core.authorTimestampMs, core.authorId, record.sequence,
      utf8 record.id⟩ := by
    rw [transactionOrderKey] at horderKey
    by_cases hseq : 0 ≤ record.sequence
    · rw [decide_eq_true hseq] at horderKey
      exact (Except.ok.inj horderKey).symm
    · rw [decide_eq_false hseq] at horderKey
      cases horderKey
  cases hmessage
  refine ⟨core, _, rfl, ⟨hgroup, rfl, rfl, rfl, horder, ⟨canonical, rfl, hcore, rfl⟩, ?_, rfl⟩,
    hsigner, hallowed, ?_⟩
  · cases canWrite <;> simp
  · rw [hcanWrite]
    cases canWrite <;> simp

variable {encoded signer : Bytes}

theorem of_readAttestation (h : readAttestation options env record encoded signer = .ok message) :
    ∃ value, message = .attestation value ∧ value.groupId = options.groupId ∧
      value.validatorId = signer ∧
      membershipAllowsTransportAuthor options env record.author .validator signer
        value.membershipRevision (some value.validatorCapability) = .ok true := by
  simp only [readAttestation, bind_eq_ok_iff, orInvalid_eq_ok_iff,
    consult_eq_ok_iff, decide_eq_true_eq] at h
  obtain ⟨value, -, -, hgroup, -, hsigner, allowed, hallowed, -, rfl, hmessage⟩ := h
  exact ⟨value, (Except.ok.inj hmessage).symm, hgroup, hsigner, hallowed⟩

theorem of_readHeartbeat (h : readHeartbeat options env record encoded signer = .ok message) :
    ∃ value, message = .heartbeat value ∧ value.groupId = options.groupId ∧
      value.validatorId = signer ∧
      membershipAllowsTransportAuthor options env record.author .validator signer
        value.membershipRevision (some value.validatorCapability) = .ok true ∧
      heartbeatAuthorized env value.groupId value.membershipRevision value.validatorId
        value.validatorCapability = .ok true := by
  simp only [readHeartbeat, bind_eq_ok_iff, orInvalid_eq_ok_iff,
    consult_eq_ok_iff, decide_eq_true_eq] at h
  obtain ⟨value, -, -, hgroup, -, hsigner, allowed, hallowed, -, rfl, authorized, hauthorized, -,
    rfl, hmessage⟩ := h
  exact ⟨value, (Except.ok.inj hmessage).symm, hgroup, hsigner, hallowed, hauthorized⟩

/-- What reading a record gives is of the type of its message. -/
theorem of_readRecord (h : readRecord options env record = .ok message) :
    message = .ignored ∨ ∃ payload signer,
      readCandidate options env record payload signer = .ok message ∨
      readAttestation options env record payload signer = .ok message ∨
      readHeartbeat options env record payload signer = .ok message := by
  obtain ⟨envelope, -, h⟩ := readRecord_eq_ok_iff.1 h
  split_ifs at h
  · exact .inl h
  · obtain ⟨wire, -, h⟩ := h
    refine .inr ⟨wire.payload, wire.signer, ?_⟩
    rw [readMessage] at h
    cases htype : wire.type with
    | candidate => exact .inl (by rwa [htype] at h)
    | attestation => exact .inr (.inl (by rwa [htype] at h))
    | heartbeat => exact .inr (.inr (by rwa [htype] at h))

/-- A candidate that is read tells its record. -/
theorem isRead_of_readRecord {core : TransactionCore} {read : StoredCandidate}
    (h : readRecord options env record = .ok (.candidate core read)) :
    IsRead options record core read := by
  rcases of_readRecord h with h | ⟨payload, signer, h | h | h⟩
  · cases h
  · obtain ⟨core', read', heq, hisRead, -⟩ := of_readCandidate h
    cases heq
    exact hisRead
  · obtain ⟨value, heq, -⟩ := of_readAttestation h
    cases heq
  · obtain ⟨value, heq, -⟩ := of_readHeartbeat h
    cases heq

end ChronologNode

end Read

/-! ## What procedures keep -/

/-- The states have the same ledger: candidates, their order, attestations. -/
structure SameLedger (state' state : NodeState) : Prop where
  candidates : state'.control.candidates = state.control.candidates
  attestations : state'.control.attestations = state.control.attestations
  attestationsByTx : state'.control.attestationsByTx = state.control.attestationsByTx
  orderedTxIds : state'.control.orderedTxIds = state.control.orderedTxIds
  candidateCores : state'.candidateCores = state.candidateCores

/-- The states differ only in their books. -/
structure SameStores (state' state : NodeState) : Prop where
  control : state'.control = state.control
  candidateCores : state'.candidateCores = state.candidateCores
  acceptedAboveMs : state'.acceptedAboveMs = state.acceptedAboveMs
  materializationPending : state'.materializationPending = state.materializationPending
  published : state'.published = state.published

theorem SameStores.trans {state state' state'' : NodeState} (h : SameStores state'' state')
    (h' : SameStores state' state) : SameStores state'' state :=
  ⟨h.control.trans h'.control, h.candidateCores.trans h'.candidateCores,
    h.acceptedAboveMs.trans h'.acceptedAboveMs,
    h.materializationPending.trans h'.materializationPending, h.published.trans h'.published⟩

theorem SameStores.symm {state state' : NodeState} (h : SameStores state' state) :
    SameStores state state' :=
  ⟨h.control.symm, h.candidateCores.symm, h.acceptedAboveMs.symm, h.materializationPending.symm,
    h.published.symm⟩

namespace NodeM

variable {α : Type} {P : NodeState → Prop} {state : NodeState} {a : α}

variable {p : ControlStoreM α}

theorem control_of_ok {control : ControlStore} (h : p state.control = .ok a control) :
    NodeM.control p state = .ok a { state with control } := by
  rw [NodeM.control, h]

theorem control_of_error {error : ControlStoreConflictError} {control : ControlStore}
    (h : p state.control = .error error control) :
    NodeM.control p state = .error (.conflict error) { state with control } := by
  rw [NodeM.control, h]

variable {forks : FeedForkRegistry}

theorem feedForks_of_ok {p : EStateM String FeedForkRegistry α}
    (h : p state.feedForks = .ok a forks) :
    feedForks p state = .ok a { state with feedForks := forks } := by
  rw [feedForks, h]

theorem feedForks_of_error {p : EStateM String FeedForkRegistry α} {message : String}
    (h : p state.feedForks = .error message forks) :
    feedForks p state = .error (.other message) { state with feedForks := forks } := by
  rw [feedForks, h]

theorem keeps_ask (x : Except String α) : Keeps P (ask x) := by
  cases x
  · exact fun _ => id
  · exact keeps_pure _

theorem finalState_control (p : ControlStoreM α) (state : NodeState) :
    finalState (control p state) = { state with control := finalState (p state.control) } := by
  unfold control
  cases p state.control <;> rfl

theorem keeps_control
    (h : ∀ state, P state → P { state with control := finalState (p state.control) }) :
    Keeps P (control p) := fun state hstate => by
  rw [finalState_control]
  exact h state hstate

end NodeM

namespace ChronologNode

variable {options : ChronologNodeOptions} {env : NodeEnv} {state : NodeState} {txId : Bytes}
  {core : TransactionCore} {candidate : StoredCandidate}

/-! ## Admission -/

/-- A decision depends on the id and the digest of the candidate, and on the membership. -/
theorem admissionProof_congr {env' : NodeEnv} {candidate' : StoredCandidate}
    (henv : env.membership = env'.membership) (htx : candidate.txId = candidate'.txId)
    (hdigest : candidate.candidateDigest = candidate'.candidateDigest)
    (l : List StoredAttestation) :
    admissionProof options env candidate core l = admissionProof options env' candidate' core l := by
  have hvalid : ∀ attestation, isValidAdmissionProof options env candidate core attestation =
      isValidAdmissionProof options env' candidate' core attestation := by
    intro attestation
    simp only [isValidAdmissionProof, expectedPolicyVersion, proofTransportAuthorized, henv, htx,
      hdigest]
  have heligible : ∀ validators, eligibleAttestations options env candidate core validators l =
      eligibleAttestations options env' candidate' core validators l := by
    induction l with
    | nil => intro validators; rfl
    | cons attestation l ih =>
      intro validators
      simp only [eligibleAttestations, hvalid, ih]
  simp only [admissionProof, heligible, henv]

theorem mem_of_eligibleAttestations {l eligible : List StoredAttestation} {validators : List Bytes}
    (h : eligibleAttestations options env candidate core validators l = .ok eligible) :
    eligible ⊆ l := by
  induction l generalizing validators eligible with
  | nil =>
    cases h
    exact Subset.refl _
  | cons attestation l ih =>
    rw [eligibleAttestations] at h
    split_ifs at h
    · exact subset_cons_of_subset _ (ih h)
    · obtain ⟨valid, -, h⟩ := bind_eq_ok_iff.1 h
      split_ifs at h
      · obtain ⟨rest, hrest, h⟩ := bind_eq_ok_iff.1 h
        cases h
        exact cons_subset_cons _ (ih hrest)
      · exact subset_cons_of_subset _ (ih h)

/-- The attestations of a proof are some of those given. -/
theorem mem_of_admissionProof {l : List StoredAttestation} {ids : List Bytes}
    (h : admissionProof options env candidate core l = .ok (some ids)) :
    ∀ id ∈ ids, ∃ attestation ∈ l, attestation.attestationId = id := by
  intro id hid
  obtain ⟨threshold, -, h⟩ := bind_eq_ok_iff.1 h
  by_cases hinvalid : (!isSafeInteger threshold) = true ∨ threshold < 1
  · rw [if_pos hinvalid] at h
    cases h
  rw [if_neg hinvalid] at h
  obtain ⟨eligible, heligible, h⟩ := bind_eq_ok_iff.1 h
  have hsub := mem_of_eligibleAttestations heligible
  cases hselect : env.membership.selectAdmission with
  | some selectAdmission =>
    rw [hselect] at h
    obtain ⟨selection, -, h⟩ := bind_eq_ok_iff.1 h
    by_cases hnil : selection.length = 0
    · rw [if_pos hnil] at h
      cases h
    rw [if_neg hnil] at h
    by_cases hunknown : ∃ item ∈ selection,
        item.attestationId ∉ eligible.map (·.attestationId)
    · rw [if_pos hunknown] at h
      cases h
    rw [if_neg hunknown] at h
    cases h
    obtain ⟨item, hitem, rfl⟩ := mem_map.1 hid
    have hknown : item.attestationId ∈ eligible.map (·.attestationId) := by
      by_contra h
      exact hunknown ⟨item, hitem, h⟩
    obtain ⟨attestation, hattestation, heq⟩ := mem_map.1 hknown
    exact ⟨attestation, hsub hattestation, heq⟩
  | none =>
    rw [hselect] at h
    split_ifs at h
    · cases h
    · cases h
      obtain ⟨attestation, hattestation, heq⟩ := mem_map.1 hid
      exact ⟨attestation, hsub (mem_of_mem_take hattestation), heq⟩

/-- The store with a candidate admitted on a proof. -/
def admitted (store : ControlStore) (candidate : StoredCandidate) (ids : List Bytes) (low : Nat) :
    ControlStore :=
  { store with
    candidates := store.candidates.put
      { candidate with state := .admissible, proofAttestationIds := ids }
    orderedTxIds := Insertion.insertAt store.orderedTxIds low candidate.txId }

/-- The evaluation of a candidate that is pending, with what admits it. -/
def HasProof (options : ChronologNodeOptions) (env : NodeEnv) (store : ControlStore)
    (core : TransactionCore) (candidate : StoredCandidate) (ids : List Bytes) : Prop :=
  store.candidates.get? candidate.txId = some candidate ∧
  candidate.state = .pendingValidation ∧
  admissionProof options env candidate core (store.attestationsFor candidate.txId) = .ok (some ids)

/-- Without a proof an evaluation does nothing. -/
theorem evaluateAdmission_of_not_hasProof (h : ∀ candidate ids, candidate.txId = txId →
      ¬ HasProof options env state.control core candidate ids) :
    finalState (evaluateAdmission options env txId core state) = state := by
  simp only [evaluateAdmission, bind_get_run, getCandidate]
  cases hget : state.control.candidates.get? txId with
  | none => rfl
  | some candidate =>
    obtain rfl : candidate.txId = txId := state.control.candidates.key_eq hget
    dsimp only
    by_cases hpending : candidate.state = .pendingValidation
    · rw [if_neg (not_not.2 hpending)]
      cases hproof : admissionProof options env candidate core
          (state.control.attestationsFor candidate.txId) with
      | error message => rfl
      | ok proof =>
        cases proof with
        | none => rfl
        | some ids => exact absurd ⟨hget, hpending, hproof⟩ (h candidate ids rfl)
    · rw [if_pos hpending]
      rfl

/-- With a proof an evaluation admits the candidate, and does nothing else. -/
theorem evaluateAdmission_of_hasProof {ids : List Bytes} (hordered : state.control.Ordered)
    (hindexed : state.control.Indexed)
    (hproof : HasProof options env state.control core candidate ids)
    (hnot : candidate.txId ∉ state.control.orderedTxIds) :
    ∃ control low, finalState (evaluateAdmission options env candidate.txId core state) =
        { state with control, materializationPending := true } ∧
      control.Ordered ∧ control.SameContent (admitted state.control candidate ids low) := by
  obtain ⟨hget, hpending, hproof⟩ := hproof
  have hvalid : state.control.validProof candidate.txId ids := by
    refine all_eq_true.2 fun id hid => ?_
    obtain ⟨attestation, hmem, rfl⟩ := mem_of_admissionProof hproof id hid
    obtain ⟨hstored, htx⟩ := hindexed.mem_attestationsFor_iff.1 hmem
    rw [hstored]
    exact decide_eq_true htx
  obtain ⟨deltas, control, low, hset, hcontent, hordered'⟩ :=
    ControlStore.setCandidateState_admissible hordered hget hpending hvalid hnot
  refine ⟨control, low, ?_, hordered', hcontent⟩
  simp only [evaluateAdmission, bind_get_run, ControlStore.getCandidate, hget]
  rw [if_neg (not_not.2 hpending), hproof]
  simp only [NodeM.ask, bind_pure_run]
  rw [bind_run_of_ok (NodeM.control_of_ok hset)]
  rfl

end ChronologNode

/-! ## The ledger of the records applied -/

/-- The candidate is the one read, or that one admitted. -/
def StoredCandidate.Evolved (candidate read : StoredCandidate) : Prop :=
  candidate = read ∨ read.state = .pendingValidation ∧
    ∃ ids, candidate = { read with state := .admissible, proofAttestationIds := ids }

/-- A record that was applied, with what was read of it. -/
abbrev Applied := TransportRecord × IngestMessage

/-- The cutoff of the node is not behind the one that it has persisted. -/
def CutoffKept (options : ChronologNodeOptions) (state : NodeState) : Prop :=
  ∀ cutoff, state.control.validatorCutoffs.get? options.identity = some cutoff →
    cutoff ≤ state.acceptedAboveMs

/-- The state reflects the records applied: their candidates and attestations are
    what is stored, a candidate is admitted only on attestations that admit it in
    `env`, and as soon as they do, unless its evaluation is still due. -/
structure Reflects (options : ChronologNodeOptions) (env : NodeEnv) (D : Set Applied)
    (due : Set Bytes) (state : NodeState) : Prop where
  isRead : ∀ record core read, (record, .candidate core read) ∈ D →
    IsRead options record core read
  ordered : state.control.Ordered
  indexed : state.control.Indexed
  ordered_iff : ∀ id, id ∈ state.control.orderedTxIds ↔
    ∃ candidate, state.control.candidates.get? id = some candidate ∧ candidate.state = .admissible
  cutoff : CutoffKept options state
  candidate_read : ∀ id candidate, state.control.candidates.get? id = some candidate →
    ∃ record core read, (record, .candidate core read) ∈ D ∧ candidate.Evolved read
  core_read : ∀ id core, state.candidateCores.get? id = some core →
    ∃ record read, (record, .candidate core read) ∈ D ∧ read.txId = id
  candidate_stored : ∀ record core read, (record, .candidate core read) ∈ D →
    state.candidateCores.get? read.txId = some core ∧
    ∃ candidate, state.control.candidates.get? read.txId = some candidate
  attestation_iff : ∀ stored, state.control.attestations.get? stored.attestationId = some stored ↔
    ∃ record value, (record, .attestation value) ∈ D ∧ stored = value.stored record
  justified : ∀ id candidate, state.control.candidates.get? id = some candidate →
    candidate.state = .admissible → ∃ core, state.candidateCores.get? id = some core ∧
      ∃ l ids, l ⊆ state.control.attestationsFor id ∧
        admissionProof options env candidate core l = .ok (some ids)
  exhaustive : ∀ id core, id ∉ due → state.candidateCores.get? id = some core →
    ∀ candidate ids, candidate.txId = id →
      ¬ HasProof options env state.control core candidate ids

section Reflects

variable {options : ChronologNodeOptions} {env env' : NodeEnv} {D : Set Applied}
  {due : Set Bytes} {state state' : NodeState} {record : TransportRecord} {txId : Bytes}
  {core : TransactionCore}
variable {message : IngestMessage}

theorem reflects_fresh (acceptedAboveMs : Int) : Reflects options env ∅ ∅ { acceptedAboveMs } where
  isRead _ _ _ h := absurd h (Set.notMem_empty _)
  ordered := ordered_empty
  indexed := ⟨fun _ _ h => absurd h (by simp), fun _ _ h => absurd h (by simp)⟩
  ordered_iff id := ⟨fun h => absurd h not_mem_nil, fun ⟨_, h, _⟩ => absurd h (by simp)⟩
  cutoff _ h := absurd h (by simp)
  candidate_read _ _ h := absurd h (by simp)
  core_read _ _ h := absurd h (by simp)
  candidate_stored _ _ _ h := absurd h (Set.notMem_empty _)
  attestation_iff stored := ⟨fun h => absurd h (by simp), fun ⟨_, _, h, _⟩ =>
    absurd h (Set.notMem_empty _)⟩
  justified _ _ h := absurd h (by simp)
  exhaustive _ _ _ h := absurd h (by simp)

/-- A state with the same ledger reflects the same records. -/
theorem Reflects.congr (h : Reflects options env D due state) (hsame : SameLedger state' state)
    (hcutoff : CutoffKept options state') : Reflects options env D due state' := by
  have hfor := attestationsFor_congr hsame.attestations hsame.attestationsByTx
  refine ⟨h.isRead, h.ordered.congr hsame.candidates hsame.orderedTxIds,
    h.indexed.congr hsame.attestations hsame.attestationsByTx, ?_, hcutoff, ?_, ?_, ?_, ?_, ?_, ?_⟩
  · rw [hsame.orderedTxIds, hsame.candidates]
    exact h.ordered_iff
  · rw [hsame.candidates]
    exact h.candidate_read
  · rw [hsame.candidateCores]
    exact h.core_read
  · rw [hsame.candidates, hsame.candidateCores]
    exact h.candidate_stored
  · rw [hsame.attestations]
    exact h.attestation_iff
  · simp only [hsame.candidates, hsame.candidateCores, hfor]
    exact h.justified
  · simp only [hsame.candidateCores, HasProof, hsame.candidates, hfor]
    exact h.exhaustive

/-- Records that give no candidate and no attestation do not show. -/
theorem Reflects.insert_of_other (h : Reflects options env D due state)
    (hcandidate : ∀ core read, message ≠ .candidate core read)
    (hattestation : ∀ value, message ≠ .attestation value) :
    Reflects options env (insert (record, message) D) due state := by
  have hcandidates : ∀ record' core read, (record', .candidate core read) ∈
      insert (record, message) D ↔ (record', .candidate core read) ∈ D := by
    simp [(hcandidate _ _).symm]
  have hattestations : ∀ record' value, (record', .attestation value) ∈
      insert (record, message) D ↔ (record', .attestation value) ∈ D := by
    simp [(hattestation _).symm]
  refine ⟨?_, h.ordered, h.indexed, h.ordered_iff, h.cutoff, ?_, ?_, ?_, ?_, h.justified,
    h.exhaustive⟩
  · simpa only [hcandidates] using h.isRead
  · simpa only [hcandidates] using h.candidate_read
  · simpa only [hcandidates] using h.core_read
  · simpa only [hcandidates] using h.candidate_stored
  · simpa only [hattestations] using h.attestation_iff

variable {candidate read : StoredCandidate}

/-- What is stored of a pending candidate is what was read. -/
theorem StoredCandidate.Evolved.eq_of_pendingValidation (h : candidate.Evolved read)
    (hpending : candidate.state = .pendingValidation) : candidate = read := by
  rcases h with h | ⟨-, ids, rfl⟩
  · exact h
  · cases hpending

/-- An evaluation that is due makes up for it. -/
theorem Reflects.evaluateAdmission (h : Reflects options env D {txId} state)
    (hcore : state.candidateCores.get? txId = some core)
    (hproof : ∀ candidate l, admissionProof options env' candidate core l =
      admissionProof options env candidate core l) : Reflects options env D ∅
      (finalState (evaluateAdmission options env' txId core state)) := by
  have hiff : ∀ candidate ids,
      HasProof options env' state.control core candidate ids ↔
        HasProof options env state.control core candidate ids := by
    intro candidate ids
    simp only [HasProof, hproof]
  by_cases hexists : ∃ candidate ids, candidate.txId = txId ∧
      HasProof options env' state.control core candidate ids
  · obtain ⟨candidate, ids, rfl, hhas⟩ := hexists
    obtain ⟨hget, hpending, hids⟩ := hhas
    have hnot : candidate.txId ∉ state.control.orderedTxIds := by
      intro hmem
      obtain ⟨candidate', hget', hadmissible⟩ := (h.ordered_iff _).1 hmem
      cases hget.symm.trans hget'
      cases hpending.symm.trans hadmissible
    obtain ⟨control, low, hfinal, hordered, hcontent⟩ :=
      evaluateAdmission_of_hasProof h.ordered h.indexed
        (⟨hget, hpending, hids⟩ : HasProof options env' state.control core candidate
          ids) hnot
    rw [hfinal]
    have hcandidates : ∀ id, control.candidates.get? id =
        if id = candidate.txId then
          some { candidate with state := .admissible, proofAttestationIds := ids }
        else state.control.candidates.get? id := by
      intro id
      rw [hcontent.candidates]
      exact KeyedMap.get?_put _ _ _
    have hfor : ∀ id, control.attestationsFor id = state.control.attestationsFor id :=
      attestationsFor_congr hcontent.attestations hcontent.attestationsByTx
    refine ⟨h.isRead, hordered, h.indexed.congr hcontent.attestations hcontent.attestationsByTx,
      fun id => ?_, ?_, fun id candidate' hget' => ?_, h.core_read, fun record' core' read hread =>
      ?_, ?_, fun id candidate' hget' hadmissible => ?_,
      fun id core' hdue hcore' candidate' ids' hid hhas => ?_⟩
    · -- The order has the new candidate and those it had.
      rw [hcontent.orderedTxIds, hcandidates]
      refine Insertion.mem_insertAt.trans ?_
      split_ifs with heq
      · exact ⟨fun _ => ⟨_, rfl, rfl⟩, fun _ => .inl heq⟩
      · rw [h.ordered_iff]
        exact or_iff_right heq
    · rw [CutoffKept, hcontent.validatorCutoffs]
      exact h.cutoff
    · rw [hcandidates] at hget'
      split_ifs at hget' with heq
      · cases hget'
        obtain ⟨record', core', read, hread, hevolved⟩ := h.candidate_read _ _ hget
        obtain rfl := hevolved.eq_of_pendingValidation hpending
        exact ⟨record', core', candidate, hread, .inr ⟨hpending, ids, rfl⟩⟩
      · exact h.candidate_read id candidate' hget'
    · obtain ⟨hcore', candidate', hstored⟩ := h.candidate_stored record' core' read hread
      refine ⟨hcore', ?_⟩
      rw [hcandidates]
      split_ifs
      · exact ⟨_, rfl⟩
      · exact ⟨candidate', hstored⟩
    · rw [hcontent.attestations]
      exact h.attestation_iff
    · simp only [hfor]
      rw [hcandidates] at hget'
      split_ifs at hget' with heq
      · cases hget'
        subst heq
        refine ⟨core, hcore, _, ids, Subset.refl _, ?_⟩
        rw [← hids, hproof]
        exact admissionProof_congr rfl (by rfl) (by rfl) _
      · exact h.justified id candidate' hget' hadmissible
    · -- The admitted candidate is not pending any more; the others are as they were.
      obtain ⟨hget', hpending', hids'⟩ := hhas
      rw [hcandidates] at hget'
      split_ifs at hget' with heq
      · cases hget'
        cases hpending'
      · refine h.exhaustive id core' (fun hmem => heq (hid.trans hmem)) hcore' candidate' ids' hid
          ⟨hget', hpending', ?_⟩
        rw [← hids']
        exact congrArg _ (hfor _).symm
  · rw [evaluateAdmission_of_not_hasProof fun candidate ids hid hhas =>
      hexists ⟨candidate, ids, hid, hhas⟩]
    refine { h with exhaustive := fun id core' _ hcore' candidate ids hid hhas => ?_ }
    by_cases heq : id = txId
    · subst heq
      cases hcore.symm.trans hcore'
      exact hexists ⟨candidate, ids, hid, (hiff candidate ids).2 hhas⟩
    · exact h.exhaustive id core' heq hcore' candidate ids hid hhas

/-! ## Cutoffs -/

/-- The state with another cutoff of the node. -/
def NodeState.withCutoff (state : NodeState) (acceptedAboveMs : Int)
    (cutoffs : OrdMap Bytes Int) : NodeState :=
  { state with acceptedAboveMs, control := { state.control with validatorCutoffs := cutoffs } }

theorem persistValidatorCutoff_ok (h : CutoffKept options state) :
    ∃ cutoffs, persistValidatorCutoff options state =
        .ok () (state.withCutoff state.acceptedAboveMs cutoffs) ∧
      CutoffKept options (state.withCutoff state.acceptedAboveMs cutoffs) := by
  unfold persistValidatorCutoff
  split_ifs
  · rw [bind_get_run]
    rcases state.control.persistValidatorCutoff_spec options.identity state.acceptedAboveMs with
      ⟨previous, hprevious, hlt, -⟩ | ⟨cutoffs, hpersist, hget⟩
    · exact absurd (h previous hprevious) (by omega)
    · refine ⟨cutoffs, by rw [NodeM.control, hpersist]; rfl, fun cutoff hcutoff => ?_⟩
      cases hget.symm.trans hcutoff
      exact le_rfl
  · exact ⟨state.control.validatorCutoffs, rfl, h⟩

theorem followCutoff_ok (h : CutoffKept options state) (own : Bool) (cutoff : Int) :
    ∃ acceptedAboveMs cutoffs, followCutoff options own cutoff state =
        .ok () (state.withCutoff acceptedAboveMs cutoffs) ∧
      CutoffKept options (state.withCutoff acceptedAboveMs cutoffs) := by
  unfold followCutoff
  rw [bind_get_run]
  split_ifs with hraise
  · obtain ⟨cutoffs, hpersist, hkept⟩ := persistValidatorCutoff_ok
      (show CutoffKept options { state with acceptedAboveMs := cutoff } from
        fun c hc => (h c hc).trans hraise.2.le)
    exact ⟨cutoff, cutoffs, hpersist, hkept⟩
  · exact ⟨state.acceptedAboveMs, state.control.validatorCutoffs, rfl, h⟩

theorem le_advanceValidatorCutoff (validator : ValidatorOptions) (acceptedAboveMs now : Int) :
    acceptedAboveMs ≤ advanceValidatorCutoff validator acceptedAboveMs now := by
  unfold advanceValidatorCutoff
  dsimp only
  split_ifs <;> omega

theorem maybeAttest_final (h : CutoffKept options state) (candidate : StoredCandidate) :
    ∃ acceptedAboveMs cutoffs published,
      finalState (maybeAttest options env txId candidate core state) =
        { state.withCutoff acceptedAboveMs cutoffs with published } ∧
      CutoffKept options (state.withCutoff acceptedAboveMs cutoffs) := by
  have hnothing : ∃ acceptedAboveMs cutoffs published, state =
      { state.withCutoff acceptedAboveMs cutoffs with published } ∧
      CutoffKept options (state.withCutoff acceptedAboveMs cutoffs) :=
    ⟨state.acceptedAboveMs, state.control.validatorCutoffs, state.published, rfl, h⟩
  unfold maybeAttest
  cases hvalidator : options.validator with
  | none => exact hnothing
  | some validator =>
    cases hcapability : env.membershipState.validatorCapability with
    | none => exact hnothing
    | some validatorCapability =>
      dsimp only
      rw [bind_get_run, bind_modify_run]
      set advanced := advanceValidatorCutoff validator state.acceptedAboveMs env.now
      obtain ⟨cutoffs, hpersist, hkept⟩ := persistValidatorCutoff_ok
        (show CutoffKept options { state with acceptedAboveMs := advanced } from
          fun c hc => (h c hc).trans (le_advanceValidatorCutoff _ _ _))
      rw [bind_run_of_ok hpersist]
      -- Whatever comes of the attestation, only what is published can change.
      have hrest : ∀ attestation, ∃ published, finalState
          ((ask attestation >>= publishAttestation env)
            (state.withCutoff advanced cutoffs)) =
            { state.withCutoff advanced cutoffs with published } := by
        intro attestation
        cases attestation with
        | error message => exact ⟨state.published, rfl⟩
        | ok attestation =>
          cases attestation with
          | none => exact ⟨state.published, rfl⟩
          | some attestation =>
            simp only [ask, bind_pure_run, publishAttestation]
            cases env.publishAttestation attestation with
            | error message => exact ⟨state.published, rfl⟩
            | ok => exact ⟨state.published ++ [attestation], rfl⟩
      obtain ⟨published, hpublished⟩ := hrest _
      exact ⟨advanced, cutoffs, published, hpublished, hkept⟩

/-! ## Properties that a delivery keeps -/

/-- A property that the order of the candidates, the cutoff and what is published do not touch. -/
structure Undisturbed (options : ChronologNodeOptions) (P : NodeState → Prop) : Prop where
  order : ∀ txId state ids reason,
    Keeps P (NodeM.control (ControlStore.setCandidateState txId state ids reason))
  cutoff : Keeps P (persistValidatorCutoff options)
  advance : ∀ state cutoff, state.acceptedAboveMs ≤ cutoff → P state →
    P { state with acceptedAboveMs := cutoff }
  other : ∀ state candidateCores materializationPending published, P state →
    P { state with candidateCores, materializationPending, published }

section Undisturbed

variable {P : NodeState → Prop} (h : Undisturbed options P)

include h

theorem Undisturbed.evaluateAdmission (txId : Bytes) (core : TransactionCore) :
    Keeps P (evaluateAdmission options env txId core) := by
  refine keeps_get.bind fun state => ?_
  cases state.control.getCandidate txId with
  | none => exact keeps_pure _
  | some candidate =>
    refine keeps_ite (keeps_pure _) ((NodeM.keeps_ask _).bind fun proof => ?_)
    cases proof with
    | none => exact keeps_pure _
    | some ids => exact (h.order _ _ _ _).bind fun _ => keeps_modify fun s => h.other s _ _ _

theorem Undisturbed.maybeAttest (txId : Bytes) (candidate : StoredCandidate)
    (core : TransactionCore) : Keeps P (maybeAttest options env txId candidate core) := by
  intro state hstate
  unfold ChronologNode.maybeAttest
  cases options.validator with
  | none => exact hstate
  | some validator =>
    cases env.membershipState.validatorCapability with
    | none => exact hstate
    | some capability =>
      dsimp only
      refine (h.cutoff.bind fun _ => keeps_get.bind fun _ => (NodeM.keeps_ask _).bind
        fun attestation => ?_) _ (h.advance _ _ (le_advanceValidatorCutoff ..) hstate)
      cases attestation with
      | none => exact keeps_pure _
      | some attestation =>
        exact (NodeM.keeps_ask _).bind fun _ => keeps_modify fun s => h.other s _ _ _

theorem Undisturbed.followCutoff (own : Bool) (cutoff : Int) :
    Keeps P (followCutoff options own cutoff) := by
  intro state hstate
  rw [ChronologNode.followCutoff, bind_get_run]
  split_ifs with hraise
  · rw [bind_set_run]
    exact h.cutoff _ (h.advance state cutoff hraise.2.le hstate)
  · exact hstate

/-- Once a candidate is stored, a delivery of it keeps the property. -/
theorem Undisturbed.ingestCandidate {read : StoredCandidate}
    (hput : Keeps P (NodeM.control (ControlStore.putCandidate read))) :
    Keeps P (ingestCandidate options env core read) :=
  hput.bind fun _ => keeps_get.bind fun _ => Keeps.bind (keeps_modify fun s => h.other s _ _ _)
    fun _ => keeps_ite ((h.evaluateAdmission _ _).bind fun _ => h.maybeAttest _ _ _) (keeps_pure _)

theorem Undisturbed.ingestAttestation {value : ValidatorAttestation}
    (hput : Keeps P (NodeM.control (ControlStore.putAttestation (value.stored record)))) :
    Keeps P (ingestAttestation options env record value) := by
  refine (h.followCutoff _ _).bind fun _ => keeps_get.bind fun state => hput.bind fun _ => ?_
  cases state.candidateCores.get? value.txId with
  | none => exact keeps_pure _
  | some core => exact h.evaluateAdmission _ _

end Undisturbed

/-! ## Applying a record -/

/-- Evaluations may be due that are not. -/
theorem Reflects.mono_due {due' : Set Bytes} (h : Reflects options env D due state)
    (hdue : due ⊆ due') : Reflects options env D due' state :=
  { h with exhaustive := fun id core hid => h.exhaustive id core fun hmem => hid (hdue hmem) }

variable {control : ControlStore}

/-- A new candidate is stored; its evaluation is due. -/
theorem Reflects.withCandidate (h : Reflects options env D ∅ state) {read : StoredCandidate}
    (hisRead : IsRead options record core read)
    (hnew : state.control.candidates.get? read.txId = none)
    (hcontent : control.SameContent { state.control with candidates := state.control.candidates.put read }) :
    Reflects options env (insert (record, .candidate core read) D) {read.txId}
      { state with control, candidateCores := state.candidateCores.set read.txId core } := by
  have hcandidates : ∀ id, control.candidates.get? id =
      if id = read.txId then some read else state.control.candidates.get? id := by
    intro id
    rw [hcontent.candidates]
    exact KeyedMap.get?_put _ _ _
  have hcores : ∀ id, (state.candidateCores.set read.txId core).get? id =
      if id = read.txId then some core else state.candidateCores.get? id :=
    fun id => OrdMap.get?_set _ _ _ _
  have hfor : ∀ id, control.attestationsFor id = state.control.attestationsFor id :=
    attestationsFor_congr hcontent.attestations hcontent.attestationsByTx
  have hne : ∀ {id candidate}, state.control.candidates.get? id = some candidate →
      id ≠ read.txId := by
    rintro id candidate hget rfl
    cases hnew.symm.trans hget
  have hstate : read.state ≠ .admissible := by
    rcases hisRead.state with h | h <;> simp [h]
  refine ⟨fun record' core' read' hread' => ?_,
    ⟨fun id candidate hget => ?_, fun id hid => ?_, ?_⟩,
    h.indexed.congr hcontent.attestations hcontent.attestationsByTx, fun id => ?_, ?_,
    fun id candidate hget => ?_, fun id core' hget => ?_, fun record' core' read' hread' => ?_,
    fun stored => ?_, fun id candidate hget hadmissible => ?_,
    fun id core' hid hget candidate ids htx hhas => ?_⟩
  · rcases hread' with heq | hread'
    · obtain ⟨rfl, hmessage⟩ := Prod.mk.inj heq
      cases hmessage
      exact hisRead
    · exact h.isRead record' core' read' hread'
  · rw [hcandidates] at hget
    split_ifs at hget with heq
    · cases hget
      rw [hisRead.orderKey, heq]
    · exact h.ordered.named id candidate hget
  · rw [hcontent.orderedTxIds] at hid
    obtain ⟨candidate, hget⟩ := h.ordered.known id hid
    exact ⟨candidate, by rw [hcandidates, if_neg (hne hget)]; exact hget⟩
  · rw [hcontent.orderedTxIds]
    refine h.ordered.sorted.imp (Before.of_orderKeyOf fun id key hkey => ?_)
    obtain ⟨candidate, hget, rfl⟩ := Option.map_eq_some_iff.1 hkey
    rw [orderKeyOf, hcandidates, if_neg (hne hget), hget]
    rfl
  · rw [hcontent.orderedTxIds, hcandidates]
    refine (h.ordered_iff id).trans ?_
    split_ifs with heq
    · rw [heq, hnew]
      constructor
      · rintro ⟨_, hget, -⟩
        cases hget
      · rintro ⟨candidate, hget, hadmissible⟩
        cases hget
        exact absurd hadmissible hstate
    · rfl
  · rw [CutoffKept, hcontent.validatorCutoffs]
    exact h.cutoff
  · rw [hcandidates] at hget
    split_ifs at hget with heq
    · cases hget
      exact ⟨record, core, read, .inl rfl, .inl rfl⟩
    · obtain ⟨record', core', read', hread', hevolved⟩ := h.candidate_read id candidate hget
      exact ⟨record', core', read', .inr hread', hevolved⟩
  · rw [hcores] at hget
    split_ifs at hget with heq
    · cases hget
      exact ⟨record, read, .inl rfl, heq.symm⟩
    · obtain ⟨record', read', hread', htx⟩ := h.core_read id core' hget
      exact ⟨record', read', .inr hread', htx⟩
  · rw [hcandidates, hcores]
    rcases hread' with heq | hread'
    · obtain ⟨rfl, rfl⟩ := IngestMessage.candidate.inj (Prod.mk.inj heq).2
      rw [if_pos rfl, if_pos rfl]
      exact ⟨rfl, read', rfl⟩
    · obtain ⟨hcore', candidate, hget⟩ := h.candidate_stored record' core' read' hread'
      rw [if_neg (hne hget), if_neg (hne hget)]
      exact ⟨hcore', candidate, hget⟩
  · simpa [hcontent.attestations] using h.attestation_iff stored
  · rw [hcandidates] at hget
    split_ifs at hget with heq
    · cases hget
      exact absurd hadmissible hstate
    · rw [hcores, if_neg heq, hfor]
      exact h.justified id candidate hget hadmissible
  · obtain ⟨hget', hpending, hids⟩ := hhas
    have hid' : id ≠ read.txId := hid
    rw [hcores, if_neg hid'] at hget
    rw [hcandidates, if_neg (htx ▸ hid')] at hget'
    refine h.exhaustive id core' (Set.notMem_empty _) hget candidate ids htx ⟨hget', hpending, ?_⟩
    rw [← hids]
    exact congrArg _ (hfor _).symm

variable {value : ValidatorAttestation}

/-- A new attestation is stored; the evaluation of its transaction is due. -/
theorem Reflects.withAttestation (h : Reflects options env D ∅ state)
    (hnew : state.control.attestations.get? (utf8 record.id) = none)
    (hcontent : control.SameContent (state.control.withAttestation (value.stored record))) :
    Reflects options env (insert (record, .attestation value) D) {value.txId}
      { state with control } := by
  have hnew' : state.control.attestations.get? (value.stored record).attestationId = none := hnew
  have hindexed : control.Indexed := (h.indexed.withAttestation hnew').congr hcontent.attestations
    hcontent.attestationsByTx
  have hattestations : ∀ stored, control.attestations.get? stored.attestationId = some stored ↔
      stored = value.stored record ∨
        state.control.attestations.get? stored.attestationId = some stored := by
    intro stored
    rw [hcontent.attestations]
    refine (Iff.of_eq (congrArg (· = some stored) (KeyedMap.get?_put _ _ _))).trans ?_
    split_ifs with heq
    · rw [eq_comm, heq, hnew']
      simp
    · refine ⟨.inr, fun hor => hor.resolve_left ?_⟩
      rintro rfl
      exact heq rfl
  have hfor : ∀ id stored, stored ∈ control.attestationsFor id ↔
      (stored = value.stored record ∧ value.txId = id) ∨
        stored ∈ state.control.attestationsFor id := by
    intro id stored
    rw [hindexed.mem_attestationsFor_iff, h.indexed.mem_attestationsFor_iff, hattestations,
      or_and_right]
    refine or_congr_left (and_congr_right ?_)
    rintro rfl
    rfl
  have hmem : ∀ record' core read, (record', .candidate core read) ∈
      insert (record, .attestation value) D ↔ (record', .candidate core read) ∈ D := by simp
  refine ⟨?_, h.ordered.congr hcontent.candidates hcontent.orderedTxIds, hindexed, ?_, ?_, ?_, ?_,
    ?_, fun stored => ?_, fun id candidate hget hadmissible => ?_,
    fun id core hid hget candidate ids htx hhas => ?_⟩
  · simpa only [hmem] using h.isRead
  · rw [hcontent.orderedTxIds, hcontent.candidates]
    exact h.ordered_iff
  · rw [CutoffKept, hcontent.validatorCutoffs]
    exact h.cutoff
  · simpa only [hmem, hcontent.candidates, ControlStore.withAttestation] using h.candidate_read
  · simpa only [hmem] using h.core_read
  · simpa only [hmem, hcontent.candidates, ControlStore.withAttestation] using h.candidate_stored
  · rw [hattestations, h.attestation_iff]
    constructor
    · rintro (rfl | ⟨record', value', hvalue', heq⟩)
      · exact ⟨record, value, .inl rfl, rfl⟩
      · exact ⟨record', value', .inr hvalue', heq⟩
    · rintro ⟨record', value', heq | hvalue', rfl⟩
      · obtain ⟨rfl, hmessage⟩ := Prod.mk.inj heq
        cases hmessage
        exact .inl rfl
      · exact .inr ⟨record', value', hvalue', rfl⟩
  · rw [hcontent.candidates] at hget
    obtain ⟨core, hcore, l, ids, hsub, hproof⟩ := h.justified id candidate hget hadmissible
    exact ⟨core, hcore, l, ids, fun a ha => (hfor id a).2 (.inr (hsub ha)), hproof⟩
  · -- The attestations of other transactions are the same.
    have hsame : control.attestationsFor id = state.control.attestationsFor id :=
      (ControlStore.attestationsFor_congr hcontent.attestations hcontent.attestationsByTx id).trans
        (h.indexed.attestationsFor_withAttestation_of_ne hnew' hid)
    obtain ⟨hget', hpending, hids⟩ := hhas
    rw [hcontent.candidates] at hget'
    refine h.exhaustive id core (Set.notMem_empty _) hget candidate ids htx ⟨hget', hpending, ?_⟩
    rw [← hids, htx, hsame]

/-- No other record applied has the id of this one. -/
def FreshId (D : Set Applied) (record : TransportRecord) (message : IngestMessage) : Prop :=
  ∀ applied ∈ D, applied.1.id = record.id → applied = (record, message)

/-- The decisions on the candidates applied are those of `env`. -/
def SameDecisions (options : ChronologNodeOptions) (env env' : NodeEnv) (D : Set Applied) : Prop :=
  ∀ record core read, (record, .candidate core read) ∈ D → ∀ candidate l,
    admissionProof options env' candidate core l =
      admissionProof options env candidate core l

/-- Following a cutoff leaves the ledger as it is. -/
theorem Reflects.withCutoff (h : Reflects options env D due state) {acceptedAboveMs : Int}
    {cutoffs : OrdMap Bytes Int}
    (hkept : CutoffKept options (state.withCutoff acceptedAboveMs cutoffs)) :
    Reflects options env D due (state.withCutoff acceptedAboveMs cutoffs) :=
  h.congr ⟨rfl, rfl, rfl, rfl, rfl⟩ hkept

/-- What is stored under the id of a record is what was read of it. -/
theorem Reflects.evolved (h : Reflects options env D due state) {read candidate : StoredCandidate}
    (hisRead : IsRead options record core read)
    (hfresh : FreshId D record (.candidate core read))
    (hget : state.control.candidates.get? read.txId = some candidate) :
    (record, .candidate core read) ∈ D ∧ candidate.Evolved read := by
  obtain ⟨record', core', read', hread', hevolved⟩ := h.candidate_read _ _ hget
  have htx : candidate.txId = read'.txId := by
    rcases hevolved with rfl | ⟨-, ids, rfl⟩ <;> rfl
  have hid : record'.id = record.id := by
    apply utf8_injective
    rw [← (h.isRead _ _ _ hread').txId, ← hisRead.txId, ← htx]
    exact state.control.candidates.key_eq hget
  have heq := hfresh _ hread' hid
  obtain ⟨-, rfl⟩ := IngestMessage.candidate.inj (Prod.mk.inj heq).2
  exact ⟨heq ▸ hread', hevolved⟩

theorem StoredCandidate.Evolved.sameCandidateIdentity (h : candidate.Evolved read) :
    sameCandidateIdentity candidate read := by
  rcases h with rfl | ⟨-, ids, rfl⟩ <;> simp [sameCandidateIdentity]

theorem FreshId.insert (h : FreshId D record message) :
    FreshId (insert (record, message) D) record message := by
  rintro applied (rfl | hmem) hid
  · rfl
  · exact h applied hmem hid

/-- Attesting leaves the ledger as it is. -/
theorem Reflects.maybeAttest (h : Reflects options env D due state) (candidate : StoredCandidate) :
    Reflects options env D due
      (finalState (maybeAttest options env' txId candidate core state)) := by
  obtain ⟨acceptedAboveMs, cutoffs, published, hfinal, hkept⟩ := maybeAttest_final h.cutoff candidate
  rw [hfinal]
  exact h.congr ⟨rfl, rfl, rfl, rfl, rfl⟩ hkept

/-- A candidate is applied. -/
theorem Reflects.ingestCandidate (h : Reflects options env D ∅ state) {read : StoredCandidate}
    (hisRead : IsRead options record core read)
    (hfresh : FreshId D record (.candidate core read))
    (hsame : SameDecisions options env env' (insert (record, .candidate core read) D)) :
    Reflects options env (insert (record, .candidate core read) D) ∅
      (finalState (ChronologNode.ingestCandidate options env' core read state)) := by
  -- The candidate is stored, and its evaluation is due.
  obtain ⟨result, control, hput, hstored⟩ : ∃ result control,
      ControlStore.putCandidate read state.control = .ok result control ∧
      Reflects options env (insert (record, .candidate core read) D) {read.txId}
        { state with control, candidateCores := state.candidateCores.set read.txId core } := by
    cases hget : state.control.candidates.get? read.txId with
    | none =>
      have hstate : read.state ≠ .admissible := by
        rcases hisRead.state with h | h <;> simp [h]
      obtain ⟨result, control, hput, hcontent⟩ := ControlStore.putCandidate_of_new hget hstate
      exact ⟨result, control, hput, h.withCandidate hisRead hget hcontent⟩
    | some existing =>
      obtain ⟨hmem, hevolved⟩ := h.evolved hisRead hfresh hget
      obtain ⟨hcore, -⟩ := h.candidate_stored record core read hmem
      refine ⟨_, _, ControlStore.putCandidate_of_same hget hevolved.sameCandidateIdentity, ?_⟩
      rw [Set.insert_eq_of_mem hmem, OrdMap.set_of_get?_eq_some hcore]
      exact h.mono_due (Set.empty_subset _)
  have hcore : (state.candidateCores.set read.txId core).get? read.txId = some core :=
    OrdMap.get?_set_self _ _ _
  simp only [ChronologNode.ingestCandidate]
  rw [bind_run_of_ok (NodeM.control_of_ok hput), bind_get_run, bind_modify_run]
  have hevaluated := hstored.evaluateAdmission hcore
    (hsame record core read (Set.mem_insert _ _))
  split_ifs with hpending
  · cases hevaluate : ChronologNode.evaluateAdmission options env' read.txId core
        { state with control, candidateCores := state.candidateCores.set read.txId core } with
    | ok u evaluated =>
      rw [bind_run_of_ok hevaluate]
      rw [hevaluate] at hevaluated
      exact hevaluated.maybeAttest read
    | error error evaluated =>
      rw [bind_run_of_error hevaluate]
      rw [hevaluate] at hevaluated
      exact hevaluated
  · -- A candidate whose writer may not write is not evaluated.
    refine { hstored with exhaustive := fun id core' _ hcore' candidate ids htx hhas => ?_ }
    by_cases heq : id = read.txId
    · subst heq
      have hget := hhas.1
      rw [htx] at hget
      have hread' := (hstored.evolved hisRead hfresh.insert hget).2.eq_of_pendingValidation hhas.2.1
      exact hpending (hread' ▸ hhas.2.1)
    · exact hstored.exhaustive id core' heq hcore' candidate ids htx hhas

/-- An attestation is applied. -/
theorem Reflects.ingestAttestation (h : Reflects options env D ∅ state)
    (hfresh : FreshId D record (.attestation value))
    (hsame : SameDecisions options env env' (insert (record, .attestation value) D)) :
    Reflects options env (insert (record, .attestation value) D) ∅
      (finalState (ChronologNode.ingestAttestation options env' record value state)) := by
  obtain ⟨acceptedAboveMs, cutoffs, hfollow, hkept⟩ := followCutoff_ok h.cutoff
    (value.validatorId = options.identity && record.author = options.transportIdentity)
    value.acceptedAboveMs
  simp only [ChronologNode.ingestAttestation]
  rw [bind_run_of_ok hfollow, bind_get_run]
  replace h := h.withCutoff hkept
  set followed := state.withCutoff acceptedAboveMs cutoffs with hfollowed
  -- The attestation is stored, and the evaluation of its transaction is due.
  obtain ⟨result, control, hput, hstored⟩ : ∃ result control,
      ControlStore.putAttestation (value.stored record) followed.control = .ok result control ∧
      Reflects options env (insert (record, .attestation value) D) {value.txId}
        { followed with control } := by
    cases hget : followed.control.attestations.get? (utf8 record.id) with
    | none =>
      obtain ⟨result, control, hput, hcontent⟩ := ControlStore.putAttestation_of_new
        (show followed.control.attestations.get? (value.stored record).attestationId = none from hget)
      exact ⟨result, control, hput, h.withAttestation hget hcontent⟩
    | some existing =>
      have hid : existing.attestationId = utf8 record.id := followed.control.attestations.key_eq hget
      obtain ⟨record', value', hread', rfl⟩ :=
        (h.attestation_iff existing).1 (by rw [hid]; exact hget)
      have heq := hfresh _ hread' (utf8_injective hid)
      obtain ⟨rfl, hvalue⟩ := Prod.mk.inj heq
      cases hvalue
      refine ⟨_, _, ControlStore.putAttestation_of_same hget, ?_⟩
      rw [Set.insert_eq_of_mem hread']
      exact h.mono_due (Set.empty_subset _)
  rw [bind_run_of_ok (NodeM.control_of_ok hput)]
  cases hcore : followed.candidateCores.get? value.txId with
  | none =>
    -- Nothing is due for a transaction that is not known.
    refine { hstored with exhaustive := fun id core _ hget candidate ids htx hhas => ?_ }
    refine hstored.exhaustive id core (fun heq => ?_) hget candidate ids htx hhas
    rw [Set.mem_singleton_iff.1 heq] at hget
    cases hcore.symm.trans hget
  | some core =>
    obtain ⟨record', read, hread', -⟩ := h.core_read _ _ hcore
    exact hstored.evaluateAdmission hcore
      (hsame record' core read (Set.mem_insert_of_mem _ hread'))

/-- A heartbeat is recorded if the transport reports on its feed. -/
theorem finalState_ingestHeartbeat {value : ValidatorHeartbeat} {followed : NodeState}
    (hfollow : followCutoff options (value.validatorId = options.identity)
      value.acceptanceCutoffMs state = .ok () followed) :
    finalState (ingestHeartbeat options env record value state) =
      match isFeedContiguous env record with
      | .error _ => followed
      | .ok report => { followed with
          control := finalState
            (ControlStore.recordHeartbeat (value.stored record report) followed.control) } := by
  simp only [ingestHeartbeat]
  rw [bind_run_of_ok hfollow]
  cases isFeedContiguous env record with
  | error message => rfl
  | ok report =>
    simp only [NodeM.ask, bind_pure_run]
    rw [← NodeM.finalState_control]
    cases hrun : NodeM.control
      (ControlStore.recordHeartbeat (value.stored record report)) followed with
    | ok delta final =>
      rw [bind_run_of_ok hrun]
      rfl
    | error error final =>
      rw [bind_run_of_error hrun]
      rfl

/-- A heartbeat leaves the ledger as it is. -/
theorem Reflects.ingestHeartbeat (h : Reflects options env D due state)
    (value : ValidatorHeartbeat) : Reflects options env D due
      (finalState (ingestHeartbeat options env' record value state)) := by
  obtain ⟨acceptedAboveMs, cutoffs, hfollow, hkept⟩ := followCutoff_ok h.cutoff
    (value.validatorId = options.identity) value.acceptanceCutoffMs
  replace h := h.withCutoff hkept
  rw [finalState_ingestHeartbeat hfollow]
  cases isFeedContiguous env' record with
  | error message => exact h
  | ok report =>
    rcases recordHeartbeat_spec (value.stored record report) with
      ⟨hfinal, -⟩ | ⟨hcontent, -⟩
    · dsimp only
      rw [hfinal]
      exact h
    · refine h.congr { hcontent with candidateCores := rfl } ?_
      rw [CutoffKept, hcontent.validatorCutoffs]
      exact h.cutoff

/-- A record that was read is applied. -/
theorem Reflects.applyMessage (h : Reflects options env D ∅ state)
    (hread : readRecord options env' record = .ok message) (hfresh : FreshId D record message)
    (hsame : SameDecisions options env env' (insert (record, message) D)) :
    Reflects options env (insert (record, message) D) ∅
      (finalState (applyMessage options env' record message state)) := by
  cases message with
  | ignored => exact h.insert_of_other (by simp) (by simp)
  | candidate core read =>
    exact h.ingestCandidate (isRead_of_readRecord hread) hfresh hsame
  | attestation value => exact h.ingestAttestation hfresh hsame
  | heartbeat value => exact (h.ingestHeartbeat value).insert_of_other (by simp) (by simp)

/-- The feed of the record accepts it. -/
def Accepts (state : NodeState) (record : TransportRecord) : Prop :=
  ∃ continuity forks, observe record state.feedForks = .ok continuity forks ∧
    (continuity = .accepted ∨ continuity = .duplicate)

/-- The books do not count for the ledger. -/
theorem Reflects.of_sameStores (h : Reflects options env D due state)
    (hsame : SameStores state' state) : Reflects options env D due state' := by
  refine h.congr ⟨?_, ?_, ?_, ?_, hsame.candidateCores⟩ (?_ : ∀ _, _) <;> rw [hsame.control]
  rw [hsame.acceptedAboveMs]
  exact h.cutoff

/-- The end of a delivery only keeps the books. -/
theorem sameStores_ingest (hseen : record.id ∉ state.seen) :
    SameStores (ingest options env record state)
      (finalState (ingestRecord options env record state)) := by
  unfold ingest
  rw [if_neg hseen]
  cases ingestRecord options env record state with
  | ok u final => exact ⟨rfl, rfl, rfl, rfl, rfl⟩
  | error error final =>
    cases error with
    | terminal code => exact ⟨rfl, rfl, rfl, rfl, rfl⟩
    | conflict error => exact ⟨rfl, rfl, rfl, rfl, rfl⟩
    | other message =>
      dsimp only
      split_ifs <;> exact ⟨rfl, rfl, rfl, rfl, rfl⟩

theorem sameStores_applyRecord (message : IngestMessage) :
    SameStores (finalState (applyRecord options env record message state))
      (finalState (applyMessage options env record message state)) := by
  rw [applyRecord]
  cases happly : applyMessage options env record message state with
  | ok u applied =>
    rw [bind_run_of_ok happly, bind_modify_run, modify_run]
    split_ifs <;> exact ⟨rfl, rfl, rfl, rfl, rfl⟩
  | error error applied =>
    rw [bind_run_of_error happly]
    exact ⟨rfl, rfl, rfl, rfl, rfl⟩

variable {forks : FeedForkRegistry} {continuity : Continuity}

/-- A record that its feed accepts is read and applied. -/
theorem ingestRecord_of_continues
    (hobserve : observe record state.feedForks = .ok continuity forks)
    (haccepts : continuity = .accepted ∨ continuity = .duplicate) :
    ingestRecord options env record state = match readRecord options env record with
      | .error error => .error error { state with feedForks := forks }
      | .ok .ignored => markSeen record { state with feedForks := forks }
      | .ok message => applyRecord options env record message { state with feedForks := forks } := by
  simp only [ingestRecord]
  rw [bind_run_of_ok (feedForks_of_ok hobserve)]
  rcases haccepts with rfl | rfl
  all_goals
    cases readRecord options env record with
    | error error => rfl
    | ok message => cases message <;> rfl

/-- A record that its feed accepts is applied if it can be read. -/
theorem ingestRecord_of_accepts
    (hobserve : observe record state.feedForks = .ok continuity forks)
    (haccepts : continuity = .accepted ∨ continuity = .duplicate) :
    SameStores (finalState (ingestRecord options env record state))
      (match readRecord options env record with
        | .ok message => finalState (applyMessage options env record message
          { state with feedForks := forks })
        | .error _ => { state with feedForks := forks }) := by
  rw [ingestRecord_of_continues hobserve haccepts]
  cases readRecord options env record with
  | error error => exact ⟨rfl, rfl, rfl, rfl, rfl⟩
  | ok message =>
    cases message with
    | ignored => exact ⟨rfl, rfl, rfl, rfl, rfl⟩
    | candidate core read => exact sameStores_applyRecord _
    | attestation value => exact sameStores_applyRecord _
    | heartbeat value => exact sameStores_applyRecord _

/-- A record that its feed does not accept is not applied. -/
theorem ingestRecord_of_not_accepts (h : ¬ Accepts state record) :
    SameStores (finalState (ingestRecord options env record state)) state := by
  simp only [ingestRecord]
  cases hobserve : observe record state.feedForks with
  | error message forks =>
    rw [bind_run_of_error (feedForks_of_error hobserve)]
    exact ⟨rfl, rfl, rfl, rfl, rfl⟩
  | ok continuity forks =>
    rw [bind_run_of_ok (feedForks_of_ok hobserve)]
    cases continuity with
    | accepted => exact absurd ⟨_, _, hobserve, .inl rfl⟩ h
    | duplicate => exact absurd ⟨_, _, hobserve, .inr rfl⟩ h
    | discarded => exact ⟨rfl, rfl, rfl, rfl, rfl⟩
    | quarantined => exact ⟨rfl, rfl, rfl, rfl, rfl⟩

/-- A record that its feed accepts is applied, if it can be read. The time of its
    receipt does not count. -/
theorem Reflects.ingest_of_accepts (h : Reflects options env D ∅ state)
    (hseen : record.id ∉ state.seen) (haccepts : Accepts state record)
    (hread : readRecord options env' record = .ok message)
    (hfresh : FreshId D record.unstamped message)
    (hsame : SameDecisions options env env' (insert (record.unstamped, message) D)) :
    Reflects options env (insert (record.unstamped, message) D) ∅
      (ingest options env' record state) := by
  obtain ⟨continuity, forks, hobserve, haccepts⟩ := haccepts
  refine Reflects.of_sameStores ?_
    ((sameStores_ingest hseen).trans (ingestRecord_of_accepts hobserve haccepts))
  have hforks : Reflects options env D ∅ { state with feedForks := forks } :=
    h.of_sameStores ⟨rfl, rfl, rfl, rfl, rfl⟩
  rw [hread]
  exact hforks.applyMessage hread hfresh hsame

/-- A record that cannot be read does not show. -/
theorem Reflects.ingest_of_error (h : Reflects options env D ∅ state) {error : IngestError}
    (hread : readRecord options env' record = .error error) :
    Reflects options env D ∅ (ingest options env' record state) := by
  by_cases hseen : record.id ∈ state.seen
  · rw [ingest, if_pos hseen]
    exact h
  · by_cases haccepts : Accepts state record
    · obtain ⟨continuity, forks, hobserve, haccepts⟩ := haccepts
      refine Reflects.of_sameStores ?_
        ((sameStores_ingest hseen).trans (ingestRecord_of_accepts hobserve haccepts))
      rw [hread]
      exact h.of_sameStores ⟨rfl, rfl, rfl, rfl, rfl⟩
    · exact h.of_sameStores ((sameStores_ingest hseen).trans
        (ingestRecord_of_not_accepts haccepts))

/-- A record that its feed does not accept does not show. -/
theorem Reflects.ingest_of_not_accepts (h : Reflects options env D ∅ state)
    (haccepts : record.id ∈ state.seen ∨ ¬ Accepts state record) :
    Reflects options env D ∅ (ingest options env' record state) := by
  by_cases hseen : record.id ∈ state.seen
  · rw [ingest, if_pos hseen]
    exact h
  · exact h.of_sameStores ((sameStores_ingest hseen).trans
      (ingestRecord_of_not_accepts (haccepts.resolve_left hseen)))

end Reflects

end Chronolog
