import Chronolog.Capabilities.Admission
import Chronolog.Capabilities.History
import Chronolog.NodeCore.GovernanceConsumption
import Mathlib.Logic.Relation

/-!
# Publishing governance

The owner of the capability log publishes changes of the membership, recoveries
and new epochs. A call builds its record from the state it finds, signs it, appends
it to the transport and only then has it ingested: calls can overlap, and what the
control plane refuses is on the transport for good (`RefusedRecord.replay_ne`).
Where every record is accepted when it is appended, a replay of the transport leads
to the state of the live control plane (`replay_eq_of_accepted`).
-/

namespace Chronolog

open Procedure GovernanceControlPlane GovernanceConsumer List

/-! ## Calls -/

/-- A change of the membership as a caller asks for it. The revision from which the
    grants hold is put in by the control plane. -/
structure CapabilityChange where
  grants : List CapabilityGrant := []
  revocations : List Bytes := []
  validationPolicies : List ValidationPolicy := []
  successorRootPublicKey : Option Bytes := none
  successorCapabilityLogFeed : Option Bytes := none

/-- What publishing takes besides the control plane's options. A failure is the
    message of the error thrown. -/
structure GovernancePublisher where
  transportIdentity : String
  identityPublicKey : Bytes
  identityPrivateKey : Bytes
  signDomain : ProtocolDomain → (payload privateKey : Bytes) → Bytes
  encodeSignedCapabilityRevision : SignedCapabilityRevision → Except String Bytes
  encodeRecoveryRecord : RecoveryRecord → Except String Bytes
  encodeEnvelope : ChronologEnvelope → Except String Bytes

/-- The calls that publish. The content key of an epoch is given or drawn at random. -/
inductive GovernanceCall
  | publishCapabilityChange (change : CapabilityChange) (rootPrivateKey : Bytes)
  | revoke (capabilityIds : List Bytes) (rootPrivateKey : Bytes)
  | publishRecovery (record : RecoveryRecord)
  | rotateEpoch (rootPrivateKey contentKey : Bytes) (now : Int)

/-- The type of a message as an envelope names it. -/
def GovernanceMessageType.messageType : GovernanceMessageType → EnvelopeMessageType
  | capability => .capability
  | recovery => .recovery
  | epochManifest => .epochManifest

namespace GovernanceControlPlane

variable (options : GovernanceControlPlaneOptions) (publisher : GovernancePublisher)

def assertCapabilityFeedOwner (state : GovernanceState) : Except String Unit :=
  if publisher.transportIdentity ≠ options.textDecoder state.snapshot.capabilityLogFeed then
    .error "GOVERNANCE_CAPABILITY_FEED_OWNER_REQUIRED"
  else .ok ()

/-- The revision that a change makes of the snapshot. -/
def nextRevision (snapshot : CapabilitySnapshot) (change : CapabilityChange) :
    CapabilityRevision where
  groupId := snapshot.groupId
  revision := snapshot.revision + 1
  previousRevisionDigest := snapshot.revisionDigest
  issuerRootPublicKey := snapshot.rootAdminPublicKey
  grants := change.grants.map fun grant => { grant with validFromRevision := snapshot.revision + 1 }
  revocations := change.revocations
  validationPolicies := change.validationPolicies
  successorRootPublicKey := change.successorRootPublicKey
  successorCapabilityLogFeed := change.successorCapabilityLogFeed

def signCapabilityRevision (revision : CapabilityRevision) (rootPrivateKey : Bytes) :
    Except String SignedCapabilityRevision := do
  let encoded ← (options.capabilityCodec.encodeCapabilityRevision revision).mapError (·.message)
  return ⟨revision, publisher.signDomain .capabilityRevision encoded rootPrivateKey⟩

/-- The bytes of a governance payload, with a tag. -/
def tagged (tag : Int) (body : Bytes) : Bytes :=
  options.codec.encodeCanonicalCbor (.array [.integer tag, .bytes body])

def encodeGovernanceEnvelope (type : GovernanceMessageType) (payload : Bytes) :
    Except String Bytes :=
  let signature := publisher.signDomain type.domain payload publisher.identityPrivateKey
  let wire := options.codec.encodeCanonicalCbor (.array [.integer 1, .bytes payload,
    .bytes publisher.identityPublicKey, .bytes signature])
  publisher.encodeEnvelope ⟨options.groupRoute, type.messageType, none,
    options.codec.hashDomain .envelope wire, .inline wire⟩

/-- The readers in force. -/
def epochRecipients (snapshot : CapabilitySnapshot) : List EpochRecipient :=
  (snapshot.capabilities.values.filter fun capability =>
    capability.grant.role = .reader && isCapabilityActive capability snapshot.revision).map
      EffectiveCapability.recipient

section

variable (rootPrivateKey contentKey : Bytes) (now : Int) (state : GovernanceState)

/-- What the next epoch is made of. -/
def epochInput :
    EpochInput where
  groupId := state.snapshot.groupId
  epoch := state.currentEpoch + 1
  previousEpochDigest :=
    if state.currentEpoch < 0 then none else state.epochDigests.get? state.currentEpoch
  createdAtMs := now
  recipients := epochRecipients state.snapshot
  signerPublicKey := state.snapshot.rootAdminPublicKey
  signerPrivateKey := rootPrivateKey
  contentKey

/-- The manifest of the next epoch. -/
def nextEpoch :
    Except String SignedEpochManifest := do
  assertCapabilityFeedOwner options publisher state
  createEpochManifest options.codec options.epochCodec publisher.signDomain
    (epochInput rootPrivateKey contentKey now state)

end

/-- What `publishCapabilityChange` publishes. -/
def prepareChange (change : CapabilityChange) (rootPrivateKey : Bytes) (state : GovernanceState) :
    Except String Bytes := do
  assertCapabilityFeedOwner options publisher state
  let signed ← signCapabilityRevision options publisher (nextRevision state.snapshot change)
    rootPrivateKey
  encodeGovernanceEnvelope options publisher .capability
    (tagged options 1 (← publisher.encodeSignedCapabilityRevision signed))

/-- What a call publishes, from the state that it finds. -/
def prepare (state : GovernanceState) : GovernanceCall → Except String Bytes
  | .publishCapabilityChange change rootPrivateKey =>
    prepareChange options publisher change rootPrivateKey state
  | .revoke capabilityIds rootPrivateKey =>
    prepareChange options publisher { revocations := capabilityIds } rootPrivateKey state
  | .publishRecovery record => do
    encodeGovernanceEnvelope options publisher .recovery
      (tagged options 1 (← publisher.encodeRecoveryRecord record))
  | .rotateEpoch rootPrivateKey contentKey now => do
    let signed ← nextEpoch options publisher rootPrivateKey contentKey now state
    encodeGovernanceEnvelope options publisher .epochManifest
      (tagged options 1 (← encodeSignedEpochManifest options.codec signed))

end GovernanceControlPlane

/-- What a call leaves in the control plane before it publishes: the content key of a new epoch. -/
def GovernanceCall.remember (state : GovernanceState) : GovernanceCall → GovernanceState
  | .rotateEpoch _ contentKey _ =>
    { state with contentKeys := state.contentKeys.set (state.currentEpoch + 1) contentKey }
  | _ => state

/-! ## Interleavings -/

/-- The control plane, the envelopes that calls are about to publish, the records
    on the transport and those of them that were handed to the control plane. -/
structure GovernanceHost where
  plane : GovernanceState
  prepared : List Bytes := []
  history : List TransportRecord := []
  ingested : Finset String := ∅

/-- The record of an envelope that is appended. -/
def GovernanceHost.nextRecord (host : GovernanceHost) (publisher : GovernancePublisher)
    (envelope : Bytes) (id : String) (now : Int) : TransportRecord where
  id
  author := publisher.transportIdentity
  sequence := host.history.length + 1
  previous := host.history.getLast?.map (·.id)
  receivedAtMs := some now
  payload := envelope

section

variable (options : GovernanceControlPlaneOptions) (publisher : GovernancePublisher)
  (allowed : GovernanceHost → TransportRecord → Prop)

/-- A step of the calls: one begins and prepares what it publishes, the transport
    appends an envelope (if `allowed`) in a record with an id of its own, or a record
    is ingested, by its call or from the subscription. -/
inductive PublishStep : GovernanceHost → GovernanceHost → Prop
  | call {host : GovernanceHost} {envelope : Bytes} (call : GovernanceCall)
      (hprepare : prepare options publisher host.plane call = .ok envelope) :
      PublishStep host
        { host with plane := call.remember host.plane, prepared := envelope :: host.prepared }
  | append {host : GovernanceHost} {envelope : Bytes} {id : String} {now : Int}
      (hprepared : envelope ∈ host.prepared) (hnew : ∀ record ∈ host.history, record.id ≠ id)
      (hallowed : allowed host (host.nextRecord publisher envelope id now)) :
      PublishStep host
        { host with
          prepared := host.prepared.erase envelope
          history := host.history ++ [host.nextRecord publisher envelope id now] }
  | ingest {host : GovernanceHost} {record : TransportRecord} (hrecord : record ∈ host.history) :
      PublishStep host
        { host with
          plane := finalState (ingest options record host.plane)
          ingested := insert record.id host.ingested }

end

/-! ## Keys -/

section Keyless

variable {options : GovernanceControlPlaneOptions}

/-- The state without the keys of the participant. -/
def GovernanceState.keyless (state : GovernanceState) : GovernanceState :=
  { state with contentKeys := .empty, cipherRing := {} }

/-- The control plane of a participant that cannot unwrap keys. -/
def GovernanceControlPlaneOptions.keyless (options : GovernanceControlPlaneOptions) :
    GovernanceControlPlaneOptions :=
  { options with unwrapEpochKey := none }

theorem keyless_installEpochKey (signed : SignedEpochManifest) (historical : Bool)
    (state : GovernanceState) :
    (installEpochKey options signed historical state).keyless = state.keyless := by
  unfold installEpochKey
  split
  · rfl
  · split
    · rfl
    · dsimp only
      split <;> rfl

theorem applyChange_keyless (change : MembershipChange) (state : GovernanceState) :
    applyChange options.keyless change state.keyless =
      mapState GovernanceState.keyless (applyChange options change state) := by
  have hsame : change.apply options.keyless.capabilityCodec state.keyless.snapshot =
    change.apply options.capabilityCodec state.snapshot := rfl
  have hreopen (snapshot : CapabilitySnapshot) : reopenHistory options.keyless change snapshot =
    reopenHistory options change snapshot := rfl
  rw [applyChange_eq, applyChange_eq, hsame]
  cases change.apply options.capabilityCodec state.snapshot with
  | error e => rfl
  | ok snapshot =>
    simp only [hreopen]
    cases reopenHistory options change snapshot <;> rfl

theorem ingestEpoch_keyless (signed : SignedEpochManifest) (historical : Bool)
    (state : GovernanceState) : ingestEpoch options.keyless signed historical state.keyless =
      mapState GovernanceState.keyless (ingestEpoch options signed historical state) := by
  have hcheck : checkEpoch options.keyless signed historical state.keyless =
    checkEpoch options signed historical state := rfl
  rw [ingestEpoch_eq, ingestEpoch_eq, hcheck]
  cases checkEpoch options signed historical state with
  | error message => rfl
  | ok digest =>
    simp only [mapState, keyless_installEpochKey]
    cases digest <;> rfl

/-- What a record does to the log does not depend on the participant's keys. -/
theorem ingest_keyless (record : TransportRecord) (state : GovernanceState) :
    ingest options.keyless record state.keyless =
      mapState GovernanceState.keyless (ingest options record state) := by
  have hread : readRecord options.keyless record state.keyless = readRecord options record state := rfl
  have hremember : ∀ result : EStateM.Result String GovernanceState Unit,
      remember record (mapState GovernanceState.keyless result) =
        mapState GovernanceState.keyless (remember record result) := by rintro (_ | _) <;> rfl
  rw [ingest_eq, ingest_eq, hread]
  cases readRecord options record state with
  | ignored => rfl
  | refused message => rfl
  | change change => simp only [applyChange_keyless, hremember]
  | epoch signed historical => simp only [ingestEpoch_keyless, hremember]

end Keyless

/-! ## Replay -/

section Replay

variable {options : GovernanceControlPlaneOptions} {publisher : GovernancePublisher}
  {record : TransportRecord} {state state' : GovernanceState}

/-- The consumer without the keys of the participant. -/
def GovernanceConsumer.keyless (consumer : GovernanceConsumer) : GovernanceConsumer :=
  ⟨consumer.state.keyless, consumer.consuming⟩

theorem consume_keyless (consumer : GovernanceConsumer) (record : TransportRecord) :
    consumer.keyless.consume options.keyless record =
      (consumer.consume options record).keyless := by
  have hingest : ingest options.keyless record consumer.keyless.state =
      mapState GovernanceState.keyless (ingest options record consumer.state) :=
    ingest_keyless record consumer.state
  have hconsuming : consumer.keyless.consuming = consumer.consuming := rfl
  unfold consume
  rw [hingest, hconsuming]
  cases consumer.consuming with
  | false => rfl
  | true => cases ingest options record consumer.state <;> rfl

theorem consumeAll_keyless (consumer : GovernanceConsumer) (records : List TransportRecord) :
    consumer.keyless.consumeAll options.keyless records =
      (consumer.consumeAll options records).keyless := by
  induction records generalizing consumer with
  | nil => rfl
  | cons record records ih =>
    rw [consumeAll, foldl_cons, consume_keyless]
    exact ih (consumer.consume options record)

/-- The control plane has seen the record, or does not read it. -/
def Absorbed (options : GovernanceControlPlaneOptions) (record : TransportRecord)
    (state : GovernanceState) : Prop :=
  record.id ∈ state.seen ∨
    ∃ message, decodeGovernanceEnvelope options record.payload =
      .error message

theorem Absorbed.ingest_eq (h : Absorbed options record state) :
    ingest options record state = .ok false state := by
  have hread : readRecord options record state = .ignored := by
    unfold readRecord
    rcases h with h | ⟨message, h⟩
    · rw [if_pos h]
    · rw [h, ite_self]
  rw [GovernanceControlPlane.ingest_eq, hread]

theorem absorbed_of_ingest {b : Bool} (h : ingest options record state = .ok b state') :
    Absorbed options record state' := by
  have hspec := readRecord_spec options record state
  have hremember : ∀ result, remember record result = .ok b state' → Absorbed options record state' := by
    rintro (⟨u, s⟩ | ⟨message, s⟩) h
    · obtain rfl := (EStateM.Result.ok.inj h).2
      exact .inl (Finset.mem_insert_self _ _)
    · cases h
  rw [ingest_eq] at h
  cases hread : readRecord options record state with
  | ignored =>
    rw [hread] at h hspec
    obtain rfl := (EStateM.Result.ok.inj h).2
    exact hspec
  | refused message => rw [hread] at h; exact absurd h nofun
  | change change => rw [hread] at h; exact hremember _ h
  | epoch signed historical => rw [hread] at h; exact hremember _ h

/-- The record is accepted, and nothing else waits to be ingested. -/
def AcceptedInTurn (options : GovernanceControlPlaneOptions) (host : GovernanceHost)
    (record : TransportRecord) : Prop :=
  (∀ earlier ∈ host.history, earlier.id ∈ host.ingested) ∧
    ∃ b state, ingest options record host.plane = .ok b state

/-- The history is what the control plane has ingested and at most one record that
    it is about to accept. -/
structure InStep (options : GovernanceControlPlaneOptions) (created : GovernanceState)
    (host : GovernanceHost) (done waiting : List TransportRecord) : Prop where
  history : host.history = done ++ waiting
  single : waiting.length ≤ 1
  replay : (⟨created, true⟩ : GovernanceConsumer).keyless.consumeAll options.keyless done =
    ⟨host.plane.keyless, true⟩
  absorbed : ∀ record ∈ done, Absorbed options record host.plane
  accepted : ∀ record ∈ waiting, record.id ∉ host.ingested ∧
    ∃ b state, ingest options.keyless record host.plane.keyless = .ok b state
  ingested : ∀ id ∈ host.ingested, ∃ record ∈ host.history, record.id = id
  nodup : (host.history.map (·.id)).Nodup

variable {created : GovernanceState}

/-- A step whose record is accepted in turn keeps the control plane in step with the transport. -/
theorem InStep.step {host host' : GovernanceHost} {done waiting : List TransportRecord}
    (h : InStep options created host done waiting)
    (hstep : PublishStep options publisher (AcceptedInTurn options) host host') :
    ∃ done' waiting', InStep options created host' done' waiting' := by
  cases hstep with
  | call call hprepare =>
    have hkeyless : (call.remember host.plane).keyless = host.plane.keyless := by cases call <;> rfl
    have hseen : (call.remember host.plane).seen = host.plane.seen := by cases call <;> rfl
    refine ⟨done, waiting, h.history, h.single, ?_, fun record hrecord => ?_, ?_, h.ingested,
      h.nodup⟩
    · rw [hkeyless]
      exact h.replay
    · have habsorbed := h.absorbed record hrecord
      rwa [Absorbed, ← hseen] at habsorbed
    · rw [hkeyless]
      exact h.accepted
  | @append envelope id now hprepared hnew hallowed =>
    obtain ⟨hdone, b, state, hingest⟩ := hallowed
    have hnone : waiting = [] := eq_nil_iff_forall_not_mem.2 fun record hrecord =>
      (h.accepted record hrecord).1 (hdone record (by simp [h.history, hrecord]))
    subst hnone
    have hhistory : host.history = done := by rw [h.history, append_nil]
    refine ⟨done, [host.nextRecord publisher envelope id now], by rw [hhistory], le_rfl, h.replay,
      h.absorbed, fun record hrecord => ?_, fun id hid => ?_, ?_⟩
    · obtain rfl := mem_singleton.1 hrecord
      refine ⟨fun hmem => ?_, b, state.keyless, ?_⟩
      · obtain ⟨earlier, hearlier, hid⟩ := h.ingested _ hmem
        exact hnew earlier hearlier hid
      · rw [ingest_keyless, hingest]
        rfl
    · obtain ⟨record, hrecord, hid⟩ := h.ingested id hid
      exact ⟨record, mem_append_left _ hrecord, hid⟩
    · rw [map_append, nodup_append]
      refine ⟨h.nodup, by simp, fun a ha b hb hab => ?_⟩
      obtain ⟨record, hrecord, rfl⟩ := mem_map.1 ha
      exact hnew record hrecord (hab.trans (mem_singleton.1 hb))
  | @ingest record hrecord =>
    rw [h.history] at hrecord
    rcases mem_append.1 hrecord with hmem | hmem
    · -- The record again: the control plane has seen it.
      rw [(h.absorbed record hmem).ingest_eq]
      refine ⟨done, waiting, h.history, h.single, h.replay, h.absorbed, fun later hlater => ?_, ?_,
        h.nodup⟩
      · refine ⟨fun hid => ?_, (h.accepted later hlater).2⟩
        rcases Finset.mem_insert.1 hid with hid | hid
        · have hnodup := h.nodup
          rw [h.history, map_append, nodup_append] at hnodup
          exact hnodup.2.2 _ (mem_map_of_mem hmem) _ (mem_map_of_mem hlater) hid.symm
        · exact (h.accepted later hlater).1 hid
      · intro id hid
        rcases Finset.mem_insert.1 hid with rfl | hid
        · exact ⟨record, by rw [h.history]; exact mem_append_left _ hmem, rfl⟩
        · exact h.ingested id hid
    · -- The record that waits: it is accepted.
      obtain ⟨-, b, state, hingest⟩ := h.accepted record hmem
      obtain rfl : waiting = [record] := by
        obtain ⟨only, rfl⟩ := length_eq_one_iff.1
          (h.single.antisymm (length_pos_of_mem hmem))
        rw [mem_singleton.1 hmem]
      obtain ⟨state', hlive⟩ : ∃ state',
          ingest options record host.plane = .ok b state' := by
        rw [ingest_keyless] at hingest
        cases hlive : ingest options record host.plane with
        | ok b' state' =>
          rw [hlive] at hingest
          rw [(EStateM.Result.ok.inj hingest).1]
          exact ⟨state', rfl⟩
        | error message state' => rw [hlive] at hingest; exact absurd hingest (by simp [mapState])
      have hkeyless : ingest options.keyless record host.plane.keyless =
          .ok b state'.keyless := by rw [ingest_keyless, hlive]; rfl
      rw [hlive]
      refine ⟨done ++ [record], [], by rw [h.history, append_nil], by simp, ?_,
        fun earlier hearlier => ?_, by simp, fun id hid => ?_, h.nodup⟩
      · have hreplay := h.replay
        rw [consumeAll] at hreplay ⊢
        rw [foldl_append, hreplay, foldl_cons, consume,
          hkeyless]
        rfl
      · rcases mem_append.1 hearlier with hearlier | hearlier
        · rcases h.absorbed earlier hearlier with hseen | hother
          · exact .inl ((ingested_of_ingest hlive).2 hseen)
          · exact .inr hother
        · rw [mem_singleton.1 hearlier]
          exact absorbed_of_ingest hlive
      · rcases Finset.mem_insert.1 hid with rfl | hid
        · exact ⟨record, by rw [h.history]; simp, rfl⟩
        · exact h.ingested id hid

theorem inStep_of_run {host : GovernanceHost}
    (hrun : Relation.ReflTransGen (PublishStep options publisher (AcceptedInTurn options)) ⟨created, [], [], ∅⟩ host) :
    ∃ done waiting, InStep options created host done waiting := by
  induction hrun with
  | refl => exact ⟨[], [], rfl, by simp, rfl, by simp, by simp, by simp, by simp⟩
  | tail _ hstep ih =>
    obtain ⟨done, waiting, hinStep⟩ := ih
    exact hinStep.step hstep

/-- Where every record is accepted when it is appended, and nothing else waits then,
    a control plane that replays the transport accepts every record, and ends with
    the snapshot and the epoch of the live one, whatever keys it has. -/
theorem replay_eq_of_accepted {created : GovernanceState} {host : GovernanceHost}
    (hrun : Relation.ReflTransGen (PublishStep options publisher (AcceptedInTurn options))
      ⟨created, [], [], ∅⟩ host) (hdone : ∀ record ∈ host.history, record.id ∈ host.ingested)
    (unwrapEpochKey : Option (SignedEpochManifest → Bytes → Except String Bytes)) :
    ∃ state, (⟨created, true⟩ : GovernanceConsumer).consumeAll { options with unwrapEpochKey }
        host.history = ⟨state, true⟩ ∧
      state.snapshot = host.plane.snapshot ∧ state.currentEpoch = host.plane.currentEpoch := by
  obtain ⟨done, waiting, hinStep⟩ := inStep_of_run hrun
  have hnone : waiting = [] := eq_nil_iff_forall_not_mem.2 fun record hrecord =>
    (hinStep.accepted record hrecord).1 (hdone record (by simp [hinStep.history, hrecord]))
  have hreplay := hinStep.replay
  rw [← append_nil done, ← hnone, ← hinStep.history] at hreplay
  have hfresh := @consumeAll_keyless { options with unwrapEpochKey } ⟨created, true⟩ host.history
  have hkeyless := hfresh.symm.trans hreplay
  refine ⟨_, congrArg (mk _) (congrArg consuming hkeyless),
    ?_, ?_⟩
  · exact congrArg (fun consumer => consumer.state.snapshot) hkeyless
  · exact congrArg (fun consumer => consumer.state.currentEpoch) hkeyless

end Replay

/-! ## Samples -/

/-- The owner of a small log. -/
def SmallLog.publisher (revisions : List (Bytes × SignedCapabilityRevision))
    (recoveries : List (Bytes × RecoveryRecord)) : GovernancePublisher where
  transportIdentity := "g"
  identityPublicKey := SmallLog.key 7
  identityPrivateKey := SmallLog.key 7
  signDomain _ payload privateKey := privateKey ++ payload
  encodeSignedCapabilityRevision signed := find revisions signed
  encodeRecoveryRecord record := find recoveries record
  encodeEnvelope envelope :=
    match envelope.payload with
    | .inline wire => .ok wire.dropLast
    | .manifest _ => .error "CBOR_ENCODE_ERROR"
where
  find {α : Type} [DecidableEq α] (table : List (Bytes × α)) (value : α) : Except String Bytes :=
    match table.find? (·.2 = value) with
    | some (bytes, _) => .ok bytes
    | none => .error "CBOR_ENCODE_ERROR"

namespace RefusedRecord

open SmallLog (grant genesis revision governance publisher key)

/-- Revisions after the genesis: one revokes what was never granted, the others let
    writers in. -/
def revisions : List (Bytes × SignedCapabilityRevision) :=
  [([21], revision 1 [9] [] [[5]]),
    ([22], { revision 1 [9] [grant 3 "w" .writer 1 none] [] with signature := key 7 ++ [22] }),
    ([23], { revision 2 [22] [grant 4 "v" .writer 2 none] [] with signature := key 7 ++ [23] })]

def options : GovernanceControlPlaneOptions :=
  governance (.ofTables [] [] [] [] []) (genesis []) revisions [] []

/-- The control plane at the start. -/
def created : GovernanceState :=
  okValue (create options) (by decide +kernel)

/-- The call that revokes. -/
def revoked : GovernanceCall := .revoke [[5]] (key 7)

/-- A call that lets a writer in. -/
def granted (subject : UInt8) (feed : String) : GovernanceCall :=
  .publishCapabilityChange { grants := [grant subject feed .writer 0 none] } (key 7)

/-- The host after a call that no other overlaps. -/
def afterCall (call : GovernanceCall) (envelope : Bytes) (id : String) (host : GovernanceHost) :
    GovernanceHost :=
  { host with
    plane := finalState (ingest options
      (host.nextRecord (publisher revisions []) envelope id 0) (call.remember host.plane))
    history := host.history ++ [host.nextRecord (publisher revisions []) envelope id 0]
    ingested := insert id host.ingested }

theorem run_afterCall {allowed : GovernanceHost → TransportRecord → Prop} {host : GovernanceHost}
    (call : GovernanceCall) {envelope : Bytes} {id : String}
    (hprepare : (prepare options (publisher revisions []) host.plane call
      ).toOption = some envelope) (hnew : ∀ record ∈ host.history, record.id ≠ id)
    (hallowed : allowed { host with
        plane := call.remember host.plane, prepared := envelope :: host.prepared }
      (host.nextRecord (publisher revisions []) envelope id 0)) :
    Relation.ReflTransGen (PublishStep options (publisher revisions []) allowed) host
      (afterCall call envelope id host) := by
  have happend : PublishStep options (publisher revisions []) allowed
      { host with plane := call.remember host.plane, prepared := envelope :: host.prepared }
      { host with
        plane := call.remember host.plane
        history := host.history ++ [host.nextRecord (publisher revisions []) envelope id 0] } := by
    have hstep := @PublishStep.append options (publisher revisions []) allowed
      { host with plane := call.remember host.plane, prepared := envelope :: host.prepared }
      envelope id 0 mem_cons_self hnew hallowed
    rwa [erase_cons_head] at hstep
  exact ((Relation.ReflTransGen.single (.call call (toOption_eq_some_iff.1 hprepare))).tail happend).tail
    (.ingest (by simp))

/-- The transport keeps the record that the control plane refuses: the live control
    plane goes on to revision 1, a fresh one stops at the record. -/
theorem replay_ne : ∃ host : GovernanceHost,
    Relation.ReflTransGen (PublishStep options (publisher revisions []) fun _ _ => True)
      ⟨created, [], [], ∅⟩ host ∧ (∀ record ∈ host.history, record.id ∈ host.ingested) ∧
    host.plane.snapshot.revision = 1 ∧
    ((⟨created, true⟩ : GovernanceConsumer).consumeAll options host.history).state.snapshot.revision
      = 0 := by
  refine ⟨afterCall (granted 3 "w") [22] "b" (afterCall revoked [21] "a" ⟨created, [], [], ∅⟩),
    (run_afterCall _ ?_ (by simp) trivial).trans (run_afterCall _ ?_ ?_ trivial), ?_, ?_, ?_⟩
  all_goals decide +kernel

/-- Without the refused call a fresh control plane comes to the same, after two calls and a record
    that is ingested again in between. -/
theorem replay_eq : ∃ host : GovernanceHost, host.plane.snapshot.revision = 2 ∧
    ∃ state, (⟨created, true⟩ : GovernanceConsumer).consumeAll options host.history =
      ⟨state, true⟩ ∧ state.snapshot = host.plane.snapshot := by
  have haccepted : AcceptedInTurn options ⟨created, [[22]], [], ∅⟩
      (GovernanceHost.nextRecord ⟨created, [], [], ∅⟩ (publisher revisions []) [22] "b" 0) :=
    ⟨by simp, ingest_eq_ok (by decide +kernel)⟩
  have hfirst := (run_afterCall (granted 3 "w") (by decide +kernel) (by simp) haccepted).tail
    (@PublishStep.ingest _ _ _ _ ⟨"b", "g", 1, none, some 0, [22]⟩ (by decide +kernel))
  have hsecond := hfirst.trans (@run_afterCall _ _ (granted 4 "v") [23] "c" (by decide +kernel)
    (by decide +kernel) ⟨by decide +kernel, ingest_eq_ok (by decide +kernel)⟩)
  obtain ⟨state, hreplay, hsnapshot, -⟩ := @replay_eq_of_accepted options (publisher revisions [])
    created _ hsecond (by decide +kernel) none
  exact ⟨_, by decide +kernel, state, hreplay, hsnapshot⟩

end RefusedRecord

end Chronolog
