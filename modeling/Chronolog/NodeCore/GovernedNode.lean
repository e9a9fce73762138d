import Chronolog.NodeCore.Convergence
import Chronolog.NodeCore.GovernanceChain

/-!
# A node under governance

A node that takes its membership from a control plane, both over the records of
one transport. Whether the node accepts a record depends on the snapshots that
the control plane has by then, and a record that is refused is not looked at
again. If every record comes when the revision it names is there, what the node
admits does not depend on how the records are interleaved
(`governed_orderedTransactionIds_eq`); a candidate that comes before is lost
(`EarlyCandidate.governed_orderedTransactionIds_ne`).
-/

namespace Chronolog

open Procedure ChronologNode CapabilityMembershipResolver List
open GovernanceControlPlane (create)

/-- The options of a node under governance. -/
structure GovernedOptions where
  governance : GovernanceControlPlaneOptions
  node : ChronologNodeOptions
  maximumWatermarkValidators : Nat := 20
  transportAuthorForCapability :
    Option (EffectiveCapability → CapabilitySnapshot → Option String) := none
  /-- Does the node read with the control plane's keys? -/
  encrypted : Bool := true

/-- The control plane and the node. -/
structure GovernedState where
  governance : GovernanceConsumer
  node : NodeState

/-- The control plane or the node is handed a record of the transport. -/
inductive GovernedStep
  | governance (record : TransportRecord)
  | node (surroundings : NodeEnv) (record : TransportRecord)

namespace GovernedOptions

variable (options : GovernedOptions)

/-- The resolver over the snapshots of the control plane. -/
def resolver (governance : GovernanceState) : CapabilityMembershipResolver where
  snapshotForRevision := governance.snapshotForRevision
  maximumWatermarkValidators := options.maximumWatermarkValidators
  transportAuthorForCapability := options.transportAuthorForCapability

/-- What the node finds around it. -/
def env (governance : GovernanceState) (surroundings : NodeEnv) : NodeEnv :=
  { surroundings with
    membership := (options.resolver governance).toMembershipResolver
    envelopeCipher := if options.encrypted then some (.ring governance.cipherRing.resolve)
      else none }

/-- One step of the control plane or the node. -/
def step (state : GovernedState) : GovernedStep → GovernedState
  | .governance record =>
    { state with governance := state.governance.consume options.governance record }
  | .node surroundings record =>
    let env := options.env state.governance.state surroundings
    { state with node := ingest options.node env record state.node }

/-- The steps in turn, from the control plane's first state. -/
def run (created : GovernanceState) (steps : List GovernedStep) : GovernedState :=
  steps.foldl options.step ⟨⟨created, true⟩, fresh options.node⟩

theorem run_concat (created : GovernanceState) (steps : List GovernedStep) (next : GovernedStep) :
    options.run created (steps ++ [next]) = options.step (options.run created steps) next := by
  simp [run]

end GovernedOptions

/-! ## Membership at a revision -/

section SameAt

variable {resolver resolver' : CapabilityMembershipResolver} {revision : Bytes}

/-- The resolvers know the same of a revision. -/
structure SameAt (resolver resolver' : CapabilityMembershipResolver) (revision : Bytes) : Prop where
  snapshotForRevision :
    resolver.snapshotForRevision revision = resolver'.snapshotForRevision revision
  transportAuthorForCapability :
    resolver.transportAuthorForCapability = resolver'.transportAuthorForCapability

theorem SameAt.snapshot_eq (h : SameAt resolver resolver' revision) (groupId : Bytes) :
    resolver.snapshot groupId revision = resolver'.snapshot groupId revision := by
  rw [snapshot, snapshot,
    h.snapshotForRevision]

theorem SameAt.canUseTransportAuthor_eq {context : TransportAuthorContext}
    (h : SameAt resolver resolver' context.membershipRevision) :
    resolver.canUseTransportAuthor context = resolver'.canUseTransportAuthor context := by
  simp only [canUseTransportAuthor, h.snapshot_eq,
    h.transportAuthorForCapability]

theorem SameAt.holdsCapability_eq (h : SameAt resolver resolver' revision)
    (groupId validatorId validatorCapability : Bytes) :
    resolver.holdsCapability groupId revision validatorId validatorCapability =
      resolver'.holdsCapability groupId revision validatorId validatorCapability := by
  simp only [holdsCapability, h.snapshot_eq]

theorem SameAt.policy_eq {context : AdmissionContext}
    (h : SameAt resolver resolver' context.membershipRevision) :
    resolver.policy context = resolver'.policy context := by
  simp only [policy, h.snapshot_eq]

variable {options : ChronologNodeOptions} {env env' : NodeEnv}

variable {core : TransactionCore}

/-- Decisions on a transaction depend on the membership at its revision. -/
theorem SameAt.admissionProof_eq (h : SameAt resolver resolver' core.membershipRevision)
    (henv : env.membership = resolver.toMembershipResolver)
    (henv' : env'.membership = resolver'.toMembershipResolver) (candidate : StoredCandidate)
    (l : List StoredAttestation) : admissionProof options env candidate core l =
      admissionProof options env' candidate core l := by
  have hcontext : SameAt resolver resolver' core.context.membershipRevision := h
  have hvalid : resolver.proofValid candidate core = resolver'.proofValid candidate core := by
    funext attestation
    simp only [proofValid, policyVersion,
      canValidate, hcontext.policy_eq,
      hcontext.holdsCapability_eq]
    rw [SameAt.canUseTransportAuthor_eq h]
    rfl
  have hthreshold : resolver.threshold core.context = resolver'.threshold core.context := by
    simp only [threshold, hcontext.policy_eq]
  have hselect : resolver.selectAdmission core.context = resolver'.selectAdmission core.context := by
    funext attestations
    simp only [selectAdmission, hcontext.snapshot_eq]
  simp only [admissionProof, eligibleAttestations_eq henv,
    eligibleAttestations_eq henv', hvalid, henv, henv',
    toMembershipResolver, hthreshold, hselect]

/-- The revision a message names. -/
def namedRevision (codec : Codec) (wire : SignedWireMessage) : Option Bytes :=
  match wire.type with
  | .candidate => (codec.decodeTransactionCore wire.payload).toOption.map (·.membershipRevision)
  | .attestation =>
    (codec.decodeValidatorAttestation wire.payload).toOption.map (·.membershipRevision)
  | .heartbeat => (codec.decodeValidatorHeartbeat wire.payload).toOption.map (·.membershipRevision)

variable {record : TransportRecord} {wire : SignedWireMessage}

/-- What a node reads of a message depends on the membership at the revision it names. -/
theorem readMessage_eq_of_sameAt
    (h : ∀ revision ∈ namedRevision options.codec wire, SameAt resolver resolver' revision)
    (henv : env.membership = resolver.toMembershipResolver)
    (henv' : env'.membership = resolver'.toMembershipResolver) :
    readMessage options env record wire = readMessage options env' record wire := by
  unfold readMessage
  unfold namedRevision at h
  cases htype : wire.type with
  | candidate =>
    rw [htype] at h
    unfold readCandidate
    cases hdecode : options.codec.decodeTransactionCore wire.payload with
    | error message => rfl
    | ok core =>
      have hsame : SameAt resolver resolver' core.membershipRevision :=
        h _ (by simp [hdecode, Except.toOption])
      have hwrite : resolver.canWrite core.context = resolver'.canWrite core.context := by
        have hcontext : SameAt resolver resolver' core.context.membershipRevision := hsame
        simp only [canWrite, hcontext.snapshot_eq]
      simp only [membershipAllowsTransportAuthor, henv, henv',
        toMembershipResolver, orTerminal, bind, Except.bind, hwrite]
      rw [SameAt.canUseTransportAuthor_eq hsame]
  | attestation =>
    rw [htype] at h
    unfold readAttestation
    cases hdecode : options.codec.decodeValidatorAttestation wire.payload with
    | error message => rfl
    | ok value =>
      have hsame : SameAt resolver resolver' value.membershipRevision :=
        h _ (by simp [hdecode, Except.toOption])
      simp only [membershipAllowsTransportAuthor, henv, henv',
        toMembershipResolver, orTerminal, bind, Except.bind]
      rw [SameAt.canUseTransportAuthor_eq hsame]
  | heartbeat =>
    rw [htype] at h
    unfold readHeartbeat
    cases hdecode : options.codec.decodeValidatorHeartbeat wire.payload with
    | error message => rfl
    | ok value =>
      have hsame : SameAt resolver resolver' value.membershipRevision :=
        h _ (by simp [hdecode, Except.toOption])
      simp only [membershipAllowsTransportAuthor, heartbeatAuthorized,
        henv, henv', toMembershipResolver, orTerminal, bind,
        Except.bind, canHeartbeat, hsame.holdsCapability_eq]
      rw [SameAt.canUseTransportAuthor_eq hsame]

/-- A candidate that is read names the revision of its transaction. -/
theorem namedRevision_of_readMessage {read : StoredCandidate}
    (h : readMessage options env record wire = .ok (.candidate core read)) :
    namedRevision options.codec wire = some core.membershipRevision := by
  unfold readMessage at h
  unfold namedRevision
  cases htype : wire.type with
  | candidate =>
    rw [htype] at h
    obtain ⟨core', hdecode, h⟩ := bind_eq_ok_iff.1 h
    rw [orTerminal_eq_ok_iff.1 hdecode]
    simp only [bind_eq_ok_iff] at h
    obtain ⟨_, _, _, _, _, _, _, _, _, _, _, _, _, _, _, _, h⟩ := h
    rw [(IngestMessage.candidate.inj (Except.ok.inj h)).1]
    rfl
  | attestation =>
    rw [htype] at h
    obtain ⟨value, hvalue, -⟩ := of_readAttestation h
    cases hvalue
  | heartbeat =>
    rw [htype] at h
    obtain ⟨value, hvalue, -⟩ := of_readHeartbeat h
    cases hvalue

end SameAt

/-! ## Interleavings -/

/-- The steps hand the records to the node and the control plane, in any order and
    any number of times. -/
structure Interleaves (records log : Set TransportRecord) (steps : List GovernedStep) : Prop where
  mem_records_iff : ∀ record, record ∈ records ↔ ∃ surroundings original,
    GovernedStep.node surroundings original ∈ steps ∧ original.unstamped = record
  mem_log_iff : ∀ record, record ∈ log ↔ ∃ original,
    GovernedStep.governance original ∈ steps ∧ original.unstamped = record
  stamped : ∀ surroundings record, GovernedStep.node surroundings record ∈ steps →
    record.receivedAtMs.isSome

/-- Every record comes in time: the control plane accepts it, and the node can
    open its envelope and finds the revision that it names, if that is ever there. -/
structure InTime (options : GovernedOptions) (created : GovernanceState)
    (opened : TransportRecord → Except String SignedWireMessage) (steps : List GovernedStep) :
    Prop where
  accepted : ∀ before record after, steps = before ++ .governance record :: after →
    ∃ b state, GovernanceControlPlane.ingest options.governance record
      (options.run created before).governance.state = .ok b state
  opens : ∀ before surroundings record after, steps = before ++ .node surroundings record :: after →
    decodeSignedEnvelope options.node.codec record.payload (groupRoute options.node)
      (options.env (options.run created before).governance.state surroundings).envelopeCipher
      surroundings.blobStore = opened record.unstamped
  named : ∀ before surroundings record after, steps = before ++ .node surroundings record :: after →
    ∀ wire, opened record.unstamped = .ok wire →
      ∀ revision ∈ namedRevision options.node.codec wire,
        ((options.run created steps).governance.state.snapshotForRevision revision).isSome →
          ((options.run created before).governance.state.snapshotForRevision revision).isSome

/-- The records handed to the control plane. -/
def governanceRecords (steps : List GovernedStep) : Set TransportRecord :=
  { record | .governance record ∈ steps }

/-- The changes of the membership that the records carry. -/
def changesOf (options : GovernanceControlPlaneOptions) (records : Set TransportRecord) :
    Set MembershipChange :=
  { change | ∃ record ∈ records, changeOf options record.payload = some change }

/-- The well formed records handed to the node. -/
def nodeRecords (steps : List GovernedStep) : Set TransportRecord :=
  { record | ∃ surroundings original, .node surroundings original ∈ steps ∧
    validateRecord original = .ok () ∧ original.unstamped = record }

section Runs

variable {options : GovernedOptions} {created : GovernanceState}
  {opened : TransportRecord → Except String SignedWireMessage} {records log : Set TransportRecord}
  {steps : List GovernedStep}

/-- The control plane follows the log. -/
structure Governs (options : GovernedOptions) (genesis : CapabilitySnapshot)
    (changes : Set MembershipChange) (steps : List GovernedStep) (state : GovernedState) :
    Prop where
  consuming : state.governance.consuming = true
  log : FollowsLog options.governance genesis (governanceRecords steps) state.governance.state
  remembers : Remembers options.governance.capabilityCodec genesis changes state.governance.state

section Log

variable (hcreated : create options.governance = .ok created)
  (hids : Identified log) (hfree : CollisionFree options.governance.capabilityCodec created.snapshot
    (changesOf options.governance log))

include hcreated hids hfree

variable {before after : List GovernedStep}

theorem InTime.governs (h : InTime options created opened steps)
    (hlog : Interleaves records log steps) (hsplit : steps = before ++ after) :
    Governs options created.snapshot (changesOf options.governance log) before
      (options.run created before) := by
  induction before using reverseRecOn generalizing after with
  | nil =>
    have hnone : governanceRecords [] = ∅ :=
      Set.eq_empty_of_forall_notMem fun _ h => absurd h not_mem_nil
    refine ⟨rfl, ?_, remembers_create hcreated⟩
    rw [hnone]
    exact followsLog_create hcreated
  | append_singleton before next ih =>
    rw [append_assoc] at hsplit
    have hgoverns := ih hsplit
    rw [options.run_concat]
    cases next with
    | node surroundings record =>
      have hsame : governanceRecords (before ++ [.node surroundings record]) =
          governanceRecords before := by
        simp [governanceRecords]
      refine ⟨hgoverns.consuming, ?_, hgoverns.remembers⟩
      rw [hsame]
      exact hgoverns.log
    | governance record =>
      obtain ⟨b, state, hingest⟩ := h.accepted before record after hsplit
      have hingested := (ingested_of_ingest hingest).1
      have hconsume : (options.run created before).governance.consume options.governance record =
          ⟨state, true⟩ := by
        rw [GovernanceConsumer.consume, hgoverns.consuming, hingest]
        rfl
      have hinsert : governanceRecords (before ++ [.governance record]) =
          insert record (governanceRecords before) := by
        ext record'
        simp [governanceRecords, or_comm]
      have hmem : ∀ record' : TransportRecord, .governance record' ∈ steps →
          record'.unstamped ∈ log := fun record' hmem =>
        (hlog.mem_log_iff _).2 ⟨record', hmem, rfl⟩
      have hrecord : .governance record ∈ steps := by simp [hsplit]
      simp only [GovernedOptions.step, hconsume]
      refine ⟨rfl, ?_, ?_⟩
      · rw [hinsert]
        refine hgoverns.log.ingest (fun record' hrecord' hid => ?_) hingested
        have hrecord' : .governance record' ∈ steps := by
          rw [hsplit]
          exact mem_append_left _ hrecord'
        have heq := hids _ (hmem record' hrecord') _ (hmem record hrecord) hid
        exact (TransportRecord.mk.inj heq).2.2.2.2.2
      · have hchanges : ∀ change, changeOf options.governance record.payload = some change →
            change ∈ changesOf options.governance log := fun change hchange =>
          ⟨record.unstamped, hmem record hrecord, hchange⟩
        exact (hgoverns.remembers.ingest hfree hchanges hingested).1

/-- A snapshot that the control plane has is the one it has in the end. -/
theorem InTime.snapshotForRevision_eq (h : InTime options created opened steps)
    (hlog : Interleaves records log steps) {before middle after : List GovernedStep}
    (hsplit : steps = before ++ middle ++ after) {revision : Bytes} {snapshot : CapabilitySnapshot}
    (hget : (options.run created before).governance.state.snapshotForRevision revision =
      some snapshot) :
    (options.run created (before ++ middle)).governance.state.snapshotForRevision revision =
      some snapshot := by
  induction middle using reverseRecOn generalizing after with
  | nil => rwa [append_nil]
  | append_singleton middle next ih =>
    have hsplit' : steps = before ++ middle ++ (next :: after) := by simp [hsplit]
    have hkept := ih hsplit'
    rw [← append_assoc, options.run_concat]
    cases next with
    | node surroundings record => exact hkept
    | governance record =>
      obtain ⟨b, state, hingest⟩ := h.accepted (before ++ middle) record after hsplit'
      have hgoverns := h.governs hcreated hids hfree hlog hsplit'
      have hconsume : (options.run created (before ++ middle)).governance.consume
          options.governance record = ⟨state, true⟩ := by
        rw [GovernanceConsumer.consume, hgoverns.consuming, hingest]
        rfl
      have hchanges : ∀ change, changeOf options.governance record.payload = some change →
          change ∈ changesOf options.governance log := fun change hchange =>
        ⟨record.unstamped, (hlog.mem_log_iff _).2 ⟨record, by simp [hsplit], rfl⟩, hchange⟩
      simp only [GovernedOptions.step, hconsume]
      exact (hgoverns.remembers.ingest hfree hchanges (ingested_of_ingest hingest).1).2 _ _ hkept

/-- What the control plane has of the revision that a record names is what it has
    in the end, from the time when the record comes. -/
theorem InTime.sameAt (h : InTime options created opened steps)
    (hlog : Interleaves records log steps) {before middle after : List GovernedStep}
    {surroundings : NodeEnv} {record : TransportRecord}
    (hsplit : steps = before ++ .node surroundings record :: (middle ++ after))
    {wire : SignedWireMessage} (hwire : opened record.unstamped = .ok wire) {revision : Bytes}
    (hrevision : revision ∈ namedRevision options.node.codec wire) : SameAt (options.resolver
        (options.run created (before ++ .node surroundings record :: middle)).governance.state)
      (options.resolver (options.run created steps).governance.state) revision := by
  refine ⟨?_, rfl⟩
  have hsplit' : steps = before ++ (.node surroundings record :: middle) ++ after := by
    simp [hsplit]
  have hlater := fun snapshot => @InTime.snapshotForRevision_eq options created opened records log
    steps hcreated hids hfree h hlog (before ++ .node surroundings record :: middle) after []
    (by simp [hsplit]) revision snapshot
  rw [← hsplit'] at hlater
  change GovernanceState.snapshotForRevision _ revision =
    GovernanceState.snapshotForRevision _ revision
  cases hfinal : (options.run created steps).governance.state.snapshotForRevision revision with
  | some snapshot =>
    obtain ⟨snapshot', hget⟩ := Option.isSome_iff_exists.1 (h.named before surroundings record
      (middle ++ after) hsplit wire hwire revision hrevision (by rw [hfinal]; rfl))
    have hkept := h.snapshotForRevision_eq hcreated hids hfree hlog hsplit' hget
    rw [hkept, ← hlater _ hkept, hfinal]
  | none =>
    cases hget : (options.run created (before ++ .node surroundings record :: middle)
        ).governance.state.snapshotForRevision revision with
    | none => rfl
    | some snapshot => rw [hlater _ hget] at hfinal; exact absurd hfinal (by simp)

/-- What the node reads of a record in the end. -/
def finalReading (options : GovernedOptions) (created : GovernanceState)
    (opened : TransportRecord → Except String SignedWireMessage) (steps : List GovernedStep) :
    TransportRecord → Except IngestError IngestMessage :=
  commonReading options.node (options.resolver (options.run created steps).governance.state) opened

/-- What the node reads of a record that comes in time is what it reads in the end. -/
theorem InTime.readRecord_eq (h : InTime options created opened steps)
    (hlog : Interleaves records log steps) {surroundings : NodeEnv} {record : TransportRecord}
    (hsplit : steps = before ++ .node surroundings record :: after) : readRecord options.node
        (options.env (options.run created before).governance.state surroundings) record =
      finalReading options created opened steps record.unstamped := by
  have hopened : decodeRecord options.node
      (options.env (options.run created before).governance.state surroundings) record =
      orTerminal "INVALID_SIGNED_ENVELOPE" (opened record.unstamped) := by
    exact congrArg _ (h.opens before surroundings record after hsplit)
  have hmessage : ∀ wire, opened record.unstamped = .ok wire →
      readMessage options.node
        (options.env (options.run created before).governance.state surroundings) record wire =
      readMessage options.node (commonEnv
        (options.resolver (options.run created steps).governance.state)) record.unstamped wire := by
    intro wire hwire
    have hcommon := @readMessage_eq_common
      (options.resolver (options.run created steps).governance.state) options.node options.node
      (commonEnv _) ⟨rfl, rfl, rfl, rfl⟩ rfl record wire
    refine readMessage_eq_of_sameAt (fun revision hrevision => ?_) rfl rfl
    have hsame := @InTime.sameAt options created opened records log steps hcreated hids hfree h hlog
      before [] after surroundings record hsplit wire hwire revision hrevision
    rwa [options.run_concat] at hsame
  simp only [readRecord, finalReading, commonReading, hopened]
  cases hwire : opened record.unstamped with
  | error message => rfl
  | ok wire =>
    simp only [orTerminal, bind, Except.bind, hmessage wire hwire]
    rfl

omit hcreated hids hfree in
theorem nodeRecords_concat_governance (before : List GovernedStep) (record : TransportRecord) :
    nodeRecords (before ++ [.governance record]) = nodeRecords before := by
  ext record'
  simp [nodeRecords]

omit hcreated hids hfree in
theorem nodeRecords_concat_node (before : List GovernedStep) (surroundings : NodeEnv)
    (record : TransportRecord) : nodeRecords (before ++ [.node surroundings record]) =
      if validateRecord record = .ok () then insert record.unstamped (nodeRecords before)
      else nodeRecords before := by
  ext record'
  split_ifs with hvalid
  · constructor
    · rintro ⟨surroundings', original, hmem, hvalid', rfl⟩
      rcases mem_append.1 hmem with hmem | hmem
      · exact .inr ⟨surroundings', original, hmem, hvalid', rfl⟩
      · cases mem_singleton.1 hmem
        exact .inl rfl
    · rintro (rfl | ⟨surroundings', original, hmem, hvalid', rfl⟩)
      · exact ⟨surroundings, record, by simp, hvalid, rfl⟩
      · exact ⟨surroundings', original, by simp [hmem], hvalid', rfl⟩
  · constructor
    · rintro ⟨surroundings', original, hmem, hvalid', rfl⟩
      rcases mem_append.1 hmem with hmem | hmem
      · exact ⟨surroundings', original, hmem, hvalid', rfl⟩
      · cases mem_singleton.1 hmem
        exact absurd hvalid' hvalid
    · rintro ⟨surroundings', original, hmem, hvalid', rfl⟩
      exact ⟨surroundings', original, by simp [hmem], hvalid', rfl⟩

/-- The node follows the records, with the membership of the end. -/
theorem InTime.follows (h : InTime options created opened steps)
    (hlog : Interleaves records log steps) (hforks : ForkFree records)
    (hrecords : Identified records) (hsplit : steps = before ++ after) : Follows options.node
      (commonEnv (options.resolver (options.run created steps).governance.state))
      (finalReading options created opened steps) { record | record.unstamped ∈ records }
      (nodeRecords before) (options.run created before).node := by
  induction before using reverseRecOn generalizing after with
  | nil =>
    have hnone : nodeRecords [] = ∅ :=
      Set.eq_empty_of_forall_notMem fun _ ⟨_, _, h, _⟩ => absurd h not_mem_nil
    rw [hnone]
    exact follows_fresh
  | append_singleton before next ih =>
    rw [append_assoc] at hsplit
    have hfollows := ih hsplit
    rw [options.run_concat]
    cases next with
    | governance record =>
      rw [nodeRecords_concat_governance]
      exact hfollows
    | node surroundings record =>
      have hread := h.readRecord_eq hcreated hids hfree hlog hsplit
      rw [nodeRecords_concat_node]
      cases hvalid : validateRecord record with
      | error message =>
        exact hfollows.ingest_of_invalid hvalid
      | ok u =>
        refine hfollows.ingest ?_ ?_ ?_ hvalid hread ?_
        · exact ⟨fun record hrecord record' hrecord' =>
            hforks.agree record.unstamped hrecord record'.unstamped hrecord',
            fun record hrecord next hnext =>
            hforks.previous record.unstamped hrecord next.unstamped hnext⟩
        · exact fun record hrecord record' hrecord' =>
            hrecords record.unstamped hrecord record'.unstamped hrecord'
        · exact (hlog.mem_records_iff _).2 ⟨surroundings, record, by simp [hsplit], rfl⟩
        · -- The decisions on a candidate that came in time are those of the end.
          rintro record' core read ⟨hmem, hreading⟩ candidate l
          obtain ⟨envelope, -, hreading⟩ := bind_eq_ok_iff.1 hreading
          split_ifs at hreading
          · cases hreading
          obtain ⟨wire, hwire, hmessage⟩ := bind_eq_ok_iff.1 hreading
          replace hwire := orTerminal_eq_ok_iff.1 hwire
          refine SameAt.admissionProof_eq ?_ rfl rfl candidate l
          have hcame : record' ∈ nodeRecords (before ++ [.node surroundings record]) := by
            rw [nodeRecords_concat_node, if_pos hvalid]
            exact hmem
          obtain ⟨surroundings', original, horiginal, -, rfl⟩ := hcame
          obtain ⟨earlier, later, hearlier⟩ := append_of_mem horiginal
          have hsame := @InTime.sameAt options created opened records log steps hcreated hids hfree h
            hlog earlier later after surroundings' original (by
              rw [hsplit, ← append_assoc, hearlier]
              simp) wire hwire core.membershipRevision (namedRevision_of_readMessage hmessage)
          rwa [← hearlier, options.run_concat] at hsame

/-- Interleavings of the same records leave the same snapshots. -/
theorem InTime.snapshots_eq {steps' : List GovernedStep}
    (htime : InTime options created opened steps) (htime' : InTime options created opened steps')
    (h : Interleaves records log steps) (h' : Interleaves records log steps') :
    (options.run created steps).governance.state.snapshots =
      (options.run created steps').governance.state.snapshots := by
  have hcarried : ∀ {steps : List GovernedStep}, Interleaves records log steps → ∀ change,
      (∃ record ∈ governanceRecords steps,
        changeOf options.governance record.payload = some change) ↔
      change ∈ changesOf options.governance log := by
    intro steps h change
    constructor
    · rintro ⟨record, hrecord, hchange⟩
      exact ⟨record.unstamped, (h.mem_log_iff _).2 ⟨record, hrecord, rfl⟩, hchange⟩
    · rintro ⟨_, hrecord, hchange⟩
      obtain ⟨original, horiginal, rfl⟩ := (h.mem_log_iff _).1 hrecord
      exact ⟨original, horiginal, hchange⟩
  obtain ⟨changes, hchain, hmem⟩ :=
    (htime.governs hcreated hids hfree h (append_nil steps).symm).log.chain
  obtain ⟨changes', hchain', hmem'⟩ :=
    (htime'.governs hcreated hids hfree h' (append_nil steps').symm).log.chain
  refine hchain.snapshots_eq hchain' fun change => ?_
  rw [hmem, hmem', hcarried h, hcarried h']

end Log

theorem Interleaves.nodeRecords_subset {steps' : List GovernedStep}
    (h : Interleaves records log steps) (h' : Interleaves records log steps') :
    nodeRecords steps ⊆ nodeRecords steps' := by
  rintro _ ⟨surroundings, original, hmem, hvalid, rfl⟩
  obtain ⟨surroundings', original', hmem', heq⟩ := (h'.mem_records_iff _).1
    ((h.mem_records_iff _).2 ⟨surroundings, original, hmem, rfl⟩)
  refine ⟨surroundings', original', hmem', ?_, heq⟩
  rw [validateRecord_eq_of_unstamped_eq heq (h'.stamped _ _ hmem') (h.stamped _ _ hmem)]
  exact hvalid

/-- However the records are interleaved, if they come in time and no signing key is that of two
    validators, the node admits the same transactions in the same order. -/
theorem governed_orderedTransactionIds_eq {steps' : List GovernedStep}
    (hcreated : GovernanceControlPlane.create options.governance = .ok created)
    (hids : Identified log)
    (hfree : CollisionFree options.governance.capabilityCodec created.snapshot
      (changesOf options.governance log))
    (hforks : ForkFree records) (hrecords : Identified records) (hunique : ∀ revision snapshot,
      (options.run created steps).governance.state.snapshotForRevision revision = some snapshot →
        UniqueSigningKeys snapshot)
    (h : Interleaves records log steps) (h' : Interleaves records log steps')
    (htime : InTime options created opened steps) (htime' : InTime options created opened steps') :
    let store := (options.run created steps).node.control
    let store' := (options.run created steps').node.control
    (∀ id, (∃ candidate, store.getCandidate id = some candidate ∧ candidate.state = .admissible) ↔
      ∃ candidate, store'.getCandidate id = some candidate ∧ candidate.state = .admissible) ∧
    store.orderedTransactionIds = store'.orderedTransactionIds := by
  have hfollows := htime.follows hcreated hids hfree h hforks hrecords (append_nil steps).symm
  have hfollows' :=
    htime'.follows hcreated hids hfree h' hforks hrecords (append_nil steps').symm
  have hresolver : options.resolver (options.run created steps').governance.state =
      options.resolver (options.run created steps).governance.state := by
    have hsnapshots := htime.snapshots_eq hcreated hids hfree htime' h h'
    unfold GovernedOptions.resolver
    congr 1
    funext revision
    rw [GovernanceState.snapshotForRevision, ← hsnapshots]
    rfl
  rw [finalReading, hresolver, (h'.nodeRecords_subset h).antisymm (h.nodeRecords_subset h')]
    at hfollows'
  have hD : UniqueIds (appliedOf (finalReading options created opened steps)
      (nodeRecords steps)) := by
    refine uniqueIds_appliedOf hrecords fun record hrecord => ?_
    obtain ⟨surroundings, original, hmem, -, rfl⟩ := hrecord
    exact ⟨original.unstamped, (h.mem_records_iff _).2 ⟨surroundings, original, hmem, rfl⟩, rfl⟩
  have horder := hfollows.reflects.orderedTxIds_eq hfollows'.reflects hD rfl rfl hunique
  refine ⟨fun id => ?_, horder⟩
  refine (hfollows.reflects.ordered_iff id).symm.trans ?_
  rw [horder]
  exact hfollows'.reflects.ordered_iff id

end Runs

/-! ## Samples -/

namespace EarlyCandidate

open SmallGroup (Message)
open SmallLog (key grant genesis revision governance)

/-- The writer's transaction under revision 1 and its attestation. -/
def messages : List (UInt8 × Message) :=
  [(1, .candidate { SmallGroup.core 10 with
      membershipRevision := [21], validationPolicy := [1], authorId := key 3 }),
    (2, .attestation { SmallGroup.attestation "t" [1] 10 with
      membershipRevision := [21], validatorCapability := [1, 0], validatorId := key 1 })]

/-- A node under governance of a group with a validator, in which revision 1 lets a writer in. -/
def options : GovernedOptions where
  governance := governance (SmallGroup.codec messages) (genesis [grant 1 "x" .validator 0 (some 0)])
    [([21], revision 1 [9] [grant 3 "w" .writer 1 none] [])] [] []
  node := SmallGroup.options messages [8]
  encrypted := false

/-- The control plane at the start. -/
def created : GovernanceState :=
  okValue (create options.governance) (by decide +kernel)

/-- The revision comes to the control plane. -/
def revised : GovernedStep := .governance ⟨"r", "g", 1, none, some 0, [21]⟩

/-- The transaction comes to the node. -/
def candidate : GovernedStep :=
  .node (TwoValidators.env SmallGroup.resolver) ⟨"t", "w", 1, none, some 0, [1]⟩

/-- The attestation comes to the node. -/
def attestation : GovernedStep :=
  .node (TwoValidators.env SmallGroup.resolver) ⟨"a", "x", 1, none, some 0, [2]⟩

theorem create_eq : create options.governance = .ok created :=
  eq_ok_okValue _ _

/-- The control plane accepts the revision. -/
theorem accepted : ∃ b state, GovernanceControlPlane.ingest options.governance
    ⟨"r", "g", 1, none, some 0, [21]⟩ created = .ok b state :=
  GovernanceConsumer.ingest_eq_ok (by decide +kernel)

/-- The candidate that comes before the revision it names is lost; its feed and
    the others have one record each. -/
theorem governed_orderedTransactionIds_ne :
    (∃ b state, GovernanceControlPlane.create options.governance = .ok created ∧
      GovernanceControlPlane.ingest options.governance ⟨"r", "g", 1, none, some 0, [21]⟩ created =
        .ok b state) ∧ [revised, candidate, attestation].Perm [candidate, revised, attestation] ∧
    (options.run created [revised, candidate, attestation]).node.control.orderedTransactionIds =
      [utf8 "t"] ∧
    (options.run created [candidate, revised, attestation]).node.control.orderedTransactionIds =
      [] := by
  refine ⟨?_, Perm.swap _ _ _, ?_, ?_⟩
  · obtain ⟨b, state, haccepted⟩ := accepted
    exact ⟨b, state, create_eq, haccepted⟩
  · decide +kernel
  · decide +kernel

theorem changeOf_revised : changeOf options.governance [21] =
      some (.revision (revision 1 [9] [grant 3 "w" .writer 1 none] [])) := by
  rfl

/-- What the envelopes open to. -/
def opened (record : TransportRecord) : Except String SignedWireMessage :=
  decodeSignedEnvelope (SmallGroup.codec messages) record.payload [0] none none

variable {rest : List GovernedStep}

/-- After the revision the control plane is handed nothing. -/
theorem governance_run (hrest : ∀ step ∈ rest, step = candidate ∨ step = attestation) :
    (options.run created (revised :: rest)).governance =
      (options.run created [revised]).governance := by
  induction rest using reverseRecOn with
  | nil => rfl
  | append_singleton rest next ih =>
    rw [← cons_append, options.run_concat,
      ← ih fun step hstep => hrest step (mem_append_left _ hstep)]
    rcases hrest next (by simp) with rfl | rfl <;> rfl

/-- Everything that comes after the revision comes in time. -/
theorem inTime (hrest : ∀ step ∈ rest, step = candidate ∨ step = attestation) :
    InTime options created opened (revised :: rest) where
  accepted before record after hsplit := by
    cases before with
    | nil =>
      cases (cons.inj hsplit).1
      exact accepted
    | cons _ before =>
      have hmem : .governance record ∈ rest := by simp [(cons.inj hsplit).2]
      rcases hrest _ hmem with h | h <;> exact absurd h (by simp [candidate, attestation])
  opens before surroundings record after hsplit := by
    have hmem : .node surroundings record ∈ revised :: rest := by simp [hsplit]
    rcases mem_cons.1 hmem with h | h
    · cases h
    · rcases hrest _ h with h | h <;> obtain ⟨rfl, rfl⟩ := GovernedStep.node.inj h <;> rfl
  named before surroundings record after hsplit wire hwire revision hrevision hfinal := by
    cases before with
    | nil => cases (cons.inj hsplit).1
    | cons first before =>
      cases hsplit
      rw [governance_run hrest] at hfinal
      rwa [governance_run fun step hstep => hrest step (mem_append_left _ hstep)]

/-- The records of the node. -/
def records : Finset TransportRecord :=
  {⟨"t", "w", 1, none, none, [1]⟩, ⟨"a", "x", 1, none, none, [2]⟩}

theorem interleaves (hrest : ∀ step, step ∈ rest ↔ step = candidate ∨ step = attestation) :
    Interleaves records {⟨"r", "g", 1, none, none, [21]⟩} (revised :: rest) where
  mem_records_iff record := by
    constructor
    · intro hrecord
      rcases Finset.mem_insert.1 hrecord with rfl | hrecord
      · exact ⟨_, _, mem_cons_of_mem _ ((hrest _).2 (.inl rfl)), rfl⟩
      · obtain rfl := Finset.mem_singleton.1 hrecord
        exact ⟨_, _, mem_cons_of_mem _ ((hrest _).2 (.inr rfl)), rfl⟩
    · rintro ⟨surroundings, original, hmem, rfl⟩
      rcases mem_cons.1 hmem with h | h
      · cases h
      · rcases (hrest _).1 h with h | h <;> obtain ⟨rfl, rfl⟩ := GovernedStep.node.inj h
        · exact Finset.mem_insert_self _ _
        · exact Finset.mem_insert_of_mem (Finset.mem_singleton_self _)
  mem_log_iff record := by
    constructor
    · rintro rfl
      exact ⟨_, mem_cons_self, rfl⟩
    · rintro ⟨original, hmem, rfl⟩
      rcases mem_cons.1 hmem with h | h
      · cases h
        rfl
      · rcases (hrest _).1 h with h | h <;> exact absurd h (by simp [candidate, attestation])
  stamped surroundings record hmem := by
    rcases mem_cons.1 hmem with h | h
    · cases h
    · rcases (hrest _).1 h with h | h <;> obtain ⟨rfl, rfl⟩ := GovernedStep.node.inj h <;> rfl

/-- After the revision the attestation may come before the transaction, and the
    transaction may come twice. -/
theorem governed_order :
    (options.run created [revised, candidate, attestation]).node.control.orderedTransactionIds =
      [utf8 "t"] ∧
    (options.run created [revised, candidate, attestation]).node.control.orderedTransactionIds =
    (options.run created [revised, attestation, candidate, candidate]
      ).node.control.orderedTransactionIds := by
  have hfree : CollisionFree options.governance.capabilityCodec created.snapshot
      (changesOf options.governance {⟨"r", "g", 1, none, none, [21]⟩}) := by
    have hplace : ∀ change ∈ changesOf options.governance {⟨"r", "g", 1, none, none, [21]⟩},
        change.place options.governance.capabilityCodec = .ok (1, [21]) := by
      rintro change ⟨_, rfl, hchange⟩
      cases hchange.symm.trans changeOf_revised
      rfl
    refine ⟨fun change hchange change' hchange' n n' digest h h' => ?_, fun change hchange n h => ?_⟩
    · rw [hplace change hchange] at h
      rw [hplace change' hchange'] at h'
      exact (Prod.mk.inj (Except.ok.inj (h.symm.trans h'))).1
    · rw [hplace change hchange] at h
      exact absurd (Prod.mk.inj (Except.ok.inj h)).2 (by decide +kernel)
  have hunique : ∀ snapshot ∈ (options.run created [revised, candidate, attestation]
      ).governance.state.snapshots.values, UniqueSigningKeys snapshot := by decide +kernel
  have h := @governed_orderedTransactionIds_eq options created opened records
    {⟨"r", "g", 1, none, none, [21]⟩} [revised, candidate, attestation]
    [revised, attestation, candidate, candidate] create_eq (by rintro _ rfl _ rfl _; rfl) hfree
    (by constructor <;> simp only [Finset.mem_coe] <;> decide)
    (by simp only [Identified]; decide)
    (fun _ _ hget => hunique _ (KeyedMap.mem_values_of_get? hget))
    (interleaves (by simp)) (interleaves (by simp [or_comm])) (inTime (by simp))
    (inTime (by simp))
  exact ⟨by decide +kernel, h.2⟩

end EarlyCandidate

end Chronolog
