import Chronolog.NodeCore.Ledger

/-!
# Deliveries

A node over whole runs: it ingests one record after the other, in whatever order
they are delivered and however often. What the node keeps about the records
themselves, its books, changes by the record at hand only (`feedForks_ingest`,
`seen_ingest`). Without forks every well formed record is applied when it is
first delivered, so the node reflects the records delivered (`Follows`).
-/

namespace Chronolog

open Procedure ChronologNode FeedForkRegistry NodeState

/-- A record, and what the node finds around it when it is delivered. -/
structure Delivery where
  env : NodeEnv
  record : TransportRecord

/-- The state with the books of another: what is kept about records, and errors. -/
def NodeState.withBooks (books state : NodeState) : NodeState where
  control := state.control
  seen := books.seen
  retryRecords := books.retryRecords
  retryOverflow := books.retryOverflow
  candidateCores := state.candidateCores
  feedForks := books.feedForks
  acceptedAboveMs := state.acceptedAboveMs
  materializationPending := state.materializationPending
  lastError := books.lastError
  ingestionError := books.ingestionError
  published := state.published

namespace ChronologNode

/-- A node that starts without stored data. -/
def fresh (options : ChronologNodeOptions) : NodeState where
  acceptedAboveMs := (options.validator.map (·.initialAcceptedAboveMs)).getD 0

/-- The node ingests the records in turn. -/
def ingestAll (options : ChronologNodeOptions) (deliveries : List Delivery) (state : NodeState) :
    NodeState :=
  deliveries.foldl (fun state delivery => ingest options delivery.env delivery.record state) state

theorem ingestAll_append (options : ChronologNodeOptions) (deliveries : List Delivery)
    (delivery : Delivery) (state : NodeState) : ingestAll options (deliveries ++ [delivery]) state =
      ingest options delivery.env delivery.record (ingestAll options deliveries state) := by
  simp [ingestAll]

/-! ## The books -/

section Books

variable {options : ChronologNodeOptions} {env : NodeEnv} {record : TransportRecord}
  {books state : NodeState}

theorem commutes_control {α : Type} (p : ControlStoreM α) :
    Commutes (withBooks books) (NodeM.control p) := by
  intro state
  unfold NodeM.control
  cases h : p state.control with
  | ok a control =>
    have h' : p (books.withBooks state).control = .ok a control := h
    rw [h']
    rfl
  | error e control =>
    have h' : p (books.withBooks state).control = .error e control := h
    rw [h']
    rfl

theorem commutes_ask {α : Type} (x : Except String α) :
    Commutes (withBooks books) (NodeM.ask x) := by
  cases x
  · exact fun _ => rfl
  · exact commutes_pure _

theorem commutes_persistValidatorCutoff :
    Commutes (withBooks books) (persistValidatorCutoff options) :=
  commutes_ite (commutes_get_bind (fun _ => rfl) fun _ => commutes_control _) (commutes_pure _)

theorem commutes_evaluateAdmission (txId : Bytes) (core : TransactionCore) :
    Commutes (withBooks books) (evaluateAdmission options env txId core) := by
  refine commutes_get_bind (fun _ => rfl) fun state => ?_
  cases state.control.getCandidate txId with
  | none => exact commutes_pure _
  | some candidate =>
    refine commutes_ite (commutes_pure _) ((commutes_ask _).bind fun proof => ?_)
    cases proof with
    | none => exact commutes_pure _
    | some ids => exact (commutes_control _).bind fun _ => commutes_modify fun _ => rfl

theorem commutes_maybeAttest (txId : Bytes) (candidate : StoredCandidate) (core : TransactionCore) :
    Commutes (withBooks books) (maybeAttest options env txId candidate core) := by
  unfold maybeAttest
  cases options.validator with
  | none => exact commutes_pure _
  | some validator =>
    cases env.membershipState.validatorCapability with
    | none => exact commutes_pure _
    | some capability =>
      refine commutes_get_bind (fun _ => rfl) fun _ => Commutes.bind (commutes_modify fun _ => rfl)
        fun _ => commutes_persistValidatorCutoff.bind fun _ => commutes_get_bind (fun _ => rfl)
          fun _ => (commutes_ask _).bind fun attestation => ?_
      cases attestation with
      | none => exact commutes_pure _
      | some attestation => exact (commutes_ask _).bind fun _ => commutes_modify fun _ => rfl

theorem commutes_followCutoff (own : Bool) (cutoff : Int) :
    Commutes (withBooks books) (followCutoff options own cutoff) := by
  intro state
  have hlook : (books.withBooks state).acceptedAboveMs = state.acceptedAboveMs := rfl
  rw [followCutoff, bind_get_run, bind_get_run, hlook]
  split_ifs
  · exact commutes_persistValidatorCutoff { state with acceptedAboveMs := cutoff }
  · rfl

/-- Applying a record does not look at the books. -/
theorem commutes_applyMessage (message : IngestMessage) :
    Commutes (withBooks books) (applyMessage options env record message) := by
  cases message with
  | ignored => exact commutes_pure _
  | candidate core candidate =>
    exact (commutes_control _).bind fun _ => commutes_get_bind (fun _ => rfl) fun _ =>
      Commutes.bind (commutes_modify fun _ => rfl) fun _ =>
        commutes_ite ((commutes_evaluateAdmission _ _).bind fun _ =>
          commutes_maybeAttest _ _ _) (commutes_pure _)
  | attestation value =>
    refine (commutes_followCutoff _ _).bind fun _ => commutes_get_bind (fun _ => rfl) fun state =>
      (commutes_control _).bind fun _ => ?_
    cases state.candidateCores.get? value.txId with
    | none => exact commutes_pure _
    | some core => exact commutes_evaluateAdmission _ _
  | heartbeat value =>
    exact (commutes_followCutoff _ _).bind fun _ => (commutes_ask _).bind fun _ =>
      (commutes_control _).bind fun _ => commutes_pure _

/-- The records seen, with one more if its ingestion ends well. -/
def seenAfter (record : TransportRecord) (seen : Finset String) :
    EStateM.Result IngestError NodeState Unit → Finset String
  | .ok _ _ => insert record.id seen
  | .error _ _ => seen

/-- The books after an ingestion, or a part of it. -/
structure Booked (record : TransportRecord) (registry : FeedForkRegistry) (seen : Finset String)
    (result : EStateM.Result IngestError NodeState Unit) : Prop where
  feedForks : (finalState result).feedForks = registry
  seen : (finalState result).seen = seenAfter record seen result

theorem booked_applyRecord (message : IngestMessage) :
    Booked record state.feedForks state.seen (applyRecord options env record message state) := by
  have hbooks := (congrArg finalState
    (@commutes_applyMessage options env record state message state)).symm
  change _ = finalState (applyMessage options env record message state) at hbooks
  rw [applyRecord]
  cases happly : applyMessage options env record message state with
  | error error applied =>
    rw [happly] at hbooks
    rw [bind_run_of_error happly]
    exact ⟨(congrArg feedForks hbooks).symm, (congrArg seen hbooks).symm⟩
  | ok u applied =>
    rw [happly] at hbooks
    have hseen : applied.seen = state.seen := (congrArg seen hbooks).symm
    have hforks : applied.feedForks = state.feedForks := (congrArg feedForks hbooks).symm
    rw [bind_run_of_ok happly, bind_modify_run, modify_run]
    split_ifs <;> exact ⟨hforks, congrArg (insert record.id) hseen⟩

/-- Ingesting a record registers it with its feed. -/
theorem booked_ingestRecord : Booked record (finalState (observe record state.feedForks)) state.seen
      (ingestRecord options env record state) := by
  simp only [ingestRecord]
  cases hobserve : observe record state.feedForks with
  | error message forks =>
    rw [bind_run_of_error (NodeM.feedForks_of_error hobserve)]
    exact ⟨rfl, rfl⟩
  | ok continuity forks =>
    rw [bind_run_of_ok (NodeM.feedForks_of_ok hobserve)]
    have happly : ∀ message, Booked record forks state.seen
        (applyRecord options env record message { state with feedForks := forks }) := fun message =>
      @booked_applyRecord options env record { state with feedForks := forks } message
    cases continuity with
    | discarded | quarantined => exact ⟨rfl, rfl⟩
    | accepted | duplicate =>
      cases readRecord options env record with
      | error error => exact ⟨rfl, rfl⟩
      | ok message =>
        cases message with
        | ignored => exact ⟨rfl, rfl⟩
        | candidate core read => exact happly _
        | attestation value => exact happly _
        | heartbeat value => exact happly _

/-- A record is seen unless its ingestion fails with an error that a retry may mend. -/
theorem seen_ingest (hseen : record.id ∉ state.seen) : (ingest options env record state).seen =
      match ingestRecord options env record state with
      | .error (.other _) _ => state.seen
      | _ => insert record.id state.seen := by
  have hbooked := (@booked_ingestRecord options env record state).seen
  cases hrun : ingestRecord options env record state with
  | ok u final =>
    rw [hrun] at hbooked
    simp only [ingest, if_neg hseen, hrun]
    exact hbooked
  | error error final =>
    rw [hrun] at hbooked
    simp only [ingest, if_neg hseen, hrun]
    cases error with
    | terminal code => exact congrArg (insert record.id) hbooked
    | conflict error => exact congrArg (insert record.id) hbooked
    | other message =>
      dsimp only
      split_ifs <;> exact hbooked

theorem mem_seen_ingest (hseen : record.id ∉ state.seen) {id : String}
    (hid : id ∈ (ingest options env record state).seen) : id = record.id ∨ id ∈ state.seen := by
  rw [seen_ingest hseen] at hid
  split at hid
  · exact .inr hid
  · exact Finset.mem_insert.1 hid

theorem feedForks_ingest (hseen : record.id ∉ state.seen) :
    (ingest options env record state).feedForks = finalState (observe record state.feedForks) := by
  have hbooked := (@booked_ingestRecord options env record state).feedForks
  rw [ingest, if_neg hseen]
  cases hrun : ingestRecord options env record state with
  | ok u final =>
    rw [hrun] at hbooked
    exact hbooked
  | error error final =>
    rw [hrun] at hbooked
    cases error with
    | terminal code => exact hbooked
    | conflict error => exact hbooked
    | other message =>
      dsimp only
      split_ifs <;> exact hbooked

/-- A record that is not well formed is not seen. -/
theorem seen_ingest_of_invalid {message : String}
    (hinvalid : validateRecord record = .error message) :
    (ingest options env record state).seen = state.seen := by
  have hingest : ingestRecord options env record state = .error (.other message) state := by
    simp only [ingestRecord]
    rw [bind_run_of_error
      (NodeM.feedForks_of_error (observe_of_invalid hinvalid))]
  rw [ingest, hingest]
  dsimp only
  split_ifs <;> rfl

end Books

end ChronologNode

/-! ## Runs without forks -/

/-- What is read of the records. -/
def appliedOf (reading : TransportRecord → Except IngestError IngestMessage)
    (records : Set TransportRecord) : Set Applied :=
  { applied | applied.1 ∈ records ∧ reading applied.1 = .ok applied.2 }

/-- The id of a record tells the record, but for the time of its receipt. -/
def Identified (records : Set TransportRecord) : Prop :=
  ∀ record ∈ records, ∀ record' ∈ records, record.id = record'.id →
    record.unstamped = record'.unstamped

/-- A state after the delivery of some of the records. -/
structure Follows (options : ChronologNodeOptions) (env : NodeEnv)
    (reading : TransportRecord → Except IngestError IngestMessage)
    (records delivered : Set TransportRecord) (state : NodeState) : Prop where
  reflects : Reflects options env (appliedOf reading delivered) ∅ state
  registers : state.feedForks.Registers records
  of_delivered : ∀ record ∈ delivered, ∃ record' ∈ records, record'.unstamped = record
  delivered_of_seen : ∀ record ∈ records, record.id ∈ state.seen → record.unstamped ∈ delivered

section Follows

variable {options : ChronologNodeOptions} {env env' : NodeEnv}
  {reading : TransportRecord → Except IngestError IngestMessage}
  {records delivered : Set TransportRecord} {state : NodeState} {record : TransportRecord}

theorem appliedOf_insert_of_ok {message : IngestMessage} (h : reading record = .ok message) :
    appliedOf reading (insert record delivered) =
      insert (record, message) (appliedOf reading delivered) := by
  ext ⟨record', message'⟩
  constructor
  · rintro ⟨rfl | hmem, hread⟩
    · exact .inl (Prod.ext rfl (Except.ok.inj (hread.symm.trans h)))
    · exact .inr ⟨hmem, hread⟩
  · rintro (heq | ⟨hmem, hread⟩)
    · cases heq
      exact ⟨.inl rfl, h⟩
    · exact ⟨.inr hmem, hread⟩

theorem appliedOf_insert_of_error {error : IngestError} (h : reading record = .error error) :
    appliedOf reading (insert record delivered) = appliedOf reading delivered := by
  ext ⟨record', message'⟩
  constructor
  · rintro ⟨rfl | hmem, hread⟩
    · cases h.symm.trans hread
    · exact ⟨hmem, hread⟩
  · rintro ⟨hmem, hread⟩
    exact ⟨.inr hmem, hread⟩

theorem follows_fresh : Follows options env reading records ∅ (fresh options) where
  reflects := by
    have h : appliedOf reading ∅ = ∅ := Set.eq_empty_of_forall_notMem fun _ h => h.1
    rw [h]
    exact reflects_fresh _
  registers := ⟨fun _ _ _ h => absurd h (by simp [fresh, feed]), fun _ => rfl, rfl⟩
  of_delivered _ h := absurd h (Set.notMem_empty _)
  delivered_of_seen _ _ h := absurd h (Finset.notMem_empty _)

/-- A well formed record is delivered. -/
theorem Follows.ingest (h : Follows options env reading records delivered state)
    (hfree : ForkFree records) (hids : Identified records) (hrecord : record ∈ records)
    (hvalid : validateRecord record = .ok ())
    (hread : readRecord options env' record = reading record.unstamped)
    (hsame : SameDecisions options env env'
      (appliedOf reading (insert record.unstamped delivered))) :
    Follows options env reading records (insert record.unstamped delivered)
      (ingest options env' record state) := by
  by_cases hseen : record.id ∈ state.seen
  · rw [ChronologNode.ingest, if_pos hseen,
      Set.insert_eq_of_mem (h.delivered_of_seen record hrecord hseen)]
    exact h
  obtain ⟨continuity, forks, hobserve, haccepts, hforks⟩ :=
    observe_ok hfree h.registers hrecord hvalid
  refine ⟨?_, ?_, ?_, fun record' hrecord' hseen' => ?_⟩
  · cases hmessage : reading record.unstamped with
    | ok message =>
      rw [appliedOf_insert_of_ok hmessage] at hsame ⊢
      refine h.reflects.ingest_of_accepts hseen ⟨continuity, forks, hobserve, haccepts⟩
        (hread.trans hmessage) (fun applied happlied hid => ?_) hsame
      obtain ⟨record', hrecord', hunstamped⟩ := h.of_delivered _ happlied.1
      have heq : applied.1 = record.unstamped := by
        rw [← hunstamped]
        refine hids record' hrecord' record hrecord ?_
        rw [← hunstamped] at hid
        exact hid
      have hok := happlied.2
      rw [heq, hmessage] at hok
      exact Prod.ext heq (Except.ok.inj hok).symm
    | error error =>
      rw [appliedOf_insert_of_error hmessage]
      exact h.reflects.ingest_of_error (hread.trans hmessage)
  · rw [feedForks_ingest hseen, hobserve]
    exact hforks
  · rintro record' (rfl | hmem)
    · exact ⟨record, hrecord, rfl⟩
    · exact h.of_delivered record' hmem
  · rcases mem_seen_ingest hseen hseen' with hid | hold
    · exact .inl (hids record' hrecord' record hrecord hid)
    · exact .inr (h.delivered_of_seen record' hrecord' hold)

/-- A record that is not well formed does not show. -/
theorem Follows.ingest_of_invalid (h : Follows options env reading records delivered state)
    {message : String} (hinvalid : validateRecord record = .error message) :
    Follows options env reading records delivered
      (ChronologNode.ingest options env' record state) := by
  by_cases hseen : record.id ∈ state.seen
  · rw [ChronologNode.ingest, if_pos hseen]
    exact h
  have hobserve : observe record state.feedForks =
      .error message state.feedForks := observe_of_invalid hinvalid
  refine ⟨h.reflects.ingest_of_not_accepts (.inr ?_), ?_, h.of_delivered, ?_⟩
  · rintro ⟨continuity, forks, haccepts, -⟩
    cases hobserve.symm.trans haccepts
  · rw [ChronologNode.feedForks_ingest hseen, hobserve]
    exact h.registers
  · rw [ChronologNode.seen_ingest_of_invalid hinvalid]
    exact h.delivered_of_seen

/-- The records that are delivered and well formed. -/
def deliveredRecords (deliveries : List Delivery) : Set TransportRecord :=
  { record | ∃ delivery ∈ deliveries, validateRecord delivery.record = .ok () ∧
    delivery.record.unstamped = record }

/-- A node that starts anew follows the records delivered to it. -/
theorem follows_ingestAll (hfree : ForkFree records) (hids : Identified records)
    (deliveries : List Delivery) (hrecords : ∀ delivery ∈ deliveries, delivery.record ∈ records)
    (hread : ∀ delivery ∈ deliveries, readRecord options delivery.env
      delivery.record = reading delivery.record.unstamped)
    (hsame : ∀ delivery ∈ deliveries, ∀ D, SameDecisions options env delivery.env D) :
    Follows options env reading records (deliveredRecords deliveries)
      (ingestAll options deliveries (fresh options)) := by
  induction deliveries using List.reverseRecOn with
  | nil =>
    have h : deliveredRecords [] = ∅ :=
      Set.eq_empty_of_forall_notMem fun _ ⟨_, h, _⟩ => absurd h List.not_mem_nil
    rw [h]
    exact follows_fresh
  | append_singleton deliveries delivery ih =>
    have hlast : delivery ∈ deliveries ++ [delivery] := by simp
    have ih := ih (fun d hd => hrecords d (List.mem_append_left _ hd))
      (fun d hd => hread d (List.mem_append_left _ hd))
      (fun d hd => hsame d (List.mem_append_left _ hd))
    rw [ingestAll_append]
    cases hvalid : validateRecord delivery.record with
    | ok u =>
      have hinsert : deliveredRecords (deliveries ++ [delivery]) =
          insert delivery.record.unstamped (deliveredRecords deliveries) := by
        ext record
        simp only [deliveredRecords, List.mem_append, List.mem_singleton, Set.mem_ofPred_eq,
          Set.mem_insert_iff, or_and_right, exists_or, exists_eq_left, hvalid, true_and]
        rw [or_comm, eq_comm]
      rw [hinsert]
      exact ih.ingest hfree hids (hrecords _ hlast) hvalid (hread _ hlast) (hsame _ hlast _)
    | error message =>
      have hinsert : deliveredRecords (deliveries ++ [delivery]) =
          deliveredRecords deliveries := by
        simp [deliveredRecords, or_and_right, exists_or, hvalid]
      rw [hinsert]
      exact ih.ingest_of_invalid hvalid

end Follows

end Chronolog
