import Chronolog.NodeCore.GovernancePublish

/-!
# The rotation of epochs

The owner of the capability log starts an epoch whose key is sealed to the readers
in force. A capability makes a recipient, so a subject that is a reader twice makes
two, and the manifest is refused (`TwiceReader.rotateEpoch_fails`). The rotation
succeeds, and wraps the key once for each reader, just if no subject is a reader
twice (`rotateEpoch_iff`).
-/

namespace Chronolog

open Procedure GovernanceControlPlane EpochRecipient List

/-! ## Readers in force -/

section Readers

variable {snapshot : CapabilitySnapshot} {capability : EffectiveCapability}

/-- The capability is that of a reader, and in force. -/
def EffectiveCapability.IsReader (capability : EffectiveCapability) (revision : Int) : Prop :=
  capability.grant.role = .reader ∧ isCapabilityActive capability revision = true

instance (revision : Int) : DecidablePred (EffectiveCapability.IsReader · revision) :=
  fun _ => inferInstanceAs (Decidable (_ ∧ _))

/-- No subject is a reader twice. -/
def OneReaderPerSubject (snapshot : CapabilitySnapshot) : Prop :=
  ∀ left ∈ snapshot.capabilities.values, left.IsReader snapshot.revision →
    ∀ right ∈ snapshot.capabilities.values, right.IsReader snapshot.revision →
      left.grant.subjectId = right.grant.subjectId → left = right

/-- The readers of the snapshot. -/
def readersInForce (snapshot : CapabilitySnapshot) : List EffectiveCapability :=
  snapshot.capabilities.values.filter (·.IsReader snapshot.revision)

theorem mem_readersInForce : capability ∈ readersInForce snapshot ↔
    capability ∈ snapshot.capabilities.values ∧ capability.IsReader snapshot.revision := by
  rw [readersInForce, mem_filter, decide_eq_true_eq]

theorem epochRecipients_eq (snapshot : CapabilitySnapshot) : epochRecipients snapshot =
      (readersInForce snapshot).map EffectiveCapability.recipient := by
  rw [epochRecipients]
  congr 1
  refine filter_congr fun capability _ => ?_
  rw [Bool.eq_iff_iff, Bool.and_eq_true, decide_eq_true_eq, decide_eq_true_eq]
  rfl

/-- Subjects repeat among the recipients just if one is a reader twice. -/
theorem nodup_recipientId_iff : ((epochRecipients snapshot).map recipientId).Nodup ↔
      OneReaderPerSubject snapshot := by
  have hvalues : snapshot.capabilities.values.Nodup :=
    (KeyedMap.nodup_values_map_key snapshot.capabilities).of_map
  rw [epochRecipients_eq, map_map]
  constructor
  · intro h left hleft hleftReader right hright hrightReader hsubject
    exact inj_on_of_nodup_map h (mem_readersInForce.2 ⟨hleft, hleftReader⟩)
      (mem_readersInForce.2 ⟨hright, hrightReader⟩) hsubject
  · intro h
    refine (hvalues.filter _).map_on fun left hleft right hright hsubject => ?_
    obtain ⟨hleft, hleftReader⟩ := mem_readersInForce.1 hleft
    obtain ⟨hright, hrightReader⟩ := mem_readersInForce.1 hright
    exact h left hleft hleftReader right hright hrightReader hsubject

/-- A reader in force may read what is written at the current revision. -/
theorem canReaderAccessRevision_iff (hactive : isCapabilityActive capability snapshot.revision) :
    canReaderAccessRevision capability snapshot.revision ↔ capability.grant.role = .reader := by
  have hfrom : capability.grant.validFromRevision ≤ snapshot.revision := by
    simp only [isCapabilityActive, Bool.and_eq_true, decide_eq_true_eq] at hactive
    exact hactive.1.1
  unfold canReaderAccessRevision
  split_ifs with hrole haudit
  · simp [hrole]
  · simpa using hrole
  · simpa [hfrom] using hrole

/-- If no subject is a reader twice, the recipients of the current revision are the
    readers in force. -/
theorem mem_readerRecipientsForRevision (h : OneReaderPerSubject snapshot)
    {recipient : EpochRecipient} :
    recipient ∈ readerRecipientsForRevision snapshot snapshot.revision ↔
      recipient ∈ epochRecipients snapshot := by
  have hreaders : (snapshot.capabilities.values.filter fun capability =>
      isCapabilityActive capability snapshot.revision &&
        canReaderAccessRevision capability snapshot.revision) = readersInForce snapshot := by
    refine filter_congr fun capability _ => ?_
    rw [Bool.eq_iff_iff, Bool.and_eq_true, decide_eq_true_eq, EffectiveCapability.IsReader, and_comm]
    exact and_congr_left canReaderAccessRevision_iff
  rw [readerRecipientsForRevision, hreaders, ← epochRecipients_eq]
  exact iff_of_eq (congrArg (recipient ∈ ·)
    (KeyedMap.values_foldl_put (nodup_recipientId_iff.2 h)))

/-- The grant of a reader has a key of 32 bytes. -/
theorem hpkePublicKey_of_checkGrant {grant : CapabilityGrant} {u : Unit}
    (h : checkGrant grant = .ok u) (hrole : grant.role = .reader) :
    ∃ key, grant.hpkePublicKey = some key ∧ key.length = 32 := by
  -- The checks of readers stand behind the one of the interval, which is made if
  -- the grant ends.
  have hreader : ∀ rest : Except ProtocolError Unit,
      (do protocolInvariant (grant.readerScope.isSome && grant.hpkePublicKey.isSome) .schemaInvalid
            "Reader capability requires scope and HPKE key"
          protocolInvariant (grant.hpkePublicKey.all fun key : Bytes => key.length = 32) .schemaInvalid
            "Reader HPKE key must contain 32 bytes"
          rest) = .ok u → ∃ key, grant.hpkePublicKey = some key ∧ key.length = 32 := by
    intro rest h
    simp only [bind_eq_ok_iff, protocolInvariant_eq_ok_iff] at h
    obtain ⟨_, hsome, _, hlength, -⟩ := h
    obtain ⟨key, hkey⟩ := Option.isSome_iff_exists.1 (Bool.and_eq_true_iff.1 hsome).2
    simpa [hkey] using hlength
  simp only [checkGrant, hrole, if_true] at h
  obtain ⟨_, -, h⟩ := bind_eq_ok_iff.1 h
  obtain ⟨_, -, h⟩ := bind_eq_ok_iff.1 h
  split at h
  · obtain ⟨_, -, h⟩ := bind_eq_ok_iff.1 h
    obtain ⟨_, -, h⟩ := bind_eq_ok_iff.1 h
    exact hreader _ h
  · obtain ⟨_, -, h⟩ := bind_eq_ok_iff.1 h
    exact hreader _ h

end Readers

/-! ## States of a control plane -/

section Attained

variable {options : GovernanceControlPlaneOptions} {state : GovernanceState}

/-- The states that a control plane comes to: it is created, it ingests records,
    which it may refuse, and calls leave keys with it. -/
inductive Attained (options : GovernanceControlPlaneOptions) : GovernanceState → Prop
  | create {state : GovernanceState} (hcreate : create options = .ok state) :
      Attained options state
  | ingest {state : GovernanceState} (hstate : Attained options state) (record : TransportRecord) :
      Attained options (finalState (ingest options record state))
  | remember {state : GovernanceState} (hstate : Attained options state) (call : GovernanceCall) :
      Attained options (call.remember state)

/-- The snapshot comes from a genesis, and the epoch is at least the one before all. -/
structure Grounded (options : GovernanceControlPlaneOptions) (state : GovernanceState) : Prop where
  reaches : ∃ genesis, genesisSnapshot options.capabilityCodec options.genesis = .ok genesis ∧
    options.capabilityCodec.Reaches genesis state.snapshot
  epoch : -1 ≤ state.currentEpoch

theorem Grounded.applyChange (h : Grounded options state) (change : MembershipChange) :
    Grounded options (finalState (applyChange options change state)) := by
  rw [applyChange_eq]
  cases happly : change.apply options.capabilityCodec state.snapshot with
  | error e => exact h
  | ok snapshot =>
    rw [finalState_ask]
    obtain ⟨genesis, hgenesis, hreaches⟩ := h.reaches
    exact ⟨⟨genesis, hgenesis, hreaches.tail ⟨change, happly⟩⟩, h.epoch⟩

theorem Grounded.ingestEpoch (h : Grounded options state) (signed : SignedEpochManifest)
    (historical : Bool) : Grounded options
      (finalState (ingestEpoch options signed historical state)) := by
  refine ⟨by rw [(sameLog_ingestEpoch signed historical).snapshot]; exact h.reaches, ?_⟩
  have hepoch := h.epoch
  rw [ingestEpoch_eq]
  cases hcheck : checkEpoch options signed historical state with
  | error message => exact hepoch
  | ok digest =>
    have hkeyless := congrArg GovernanceState.currentEpoch (@keyless_installEpochKey options signed
      historical (acceptEpoch signed state digest))
    refine hkeyless.symm ▸ ?_
    obtain ⟨-, -, rfl⟩ | ⟨-, hchain, bytes, rfl⟩ := checkEpoch_eq_ok hcheck
    · exact hepoch
    · have hnext : state.currentEpoch ≤ signed.manifest.epoch := by rw [hchain.1]; omega
      exact hepoch.trans hnext

theorem Grounded.ingest (h : Grounded options state) (record : TransportRecord) :
    Grounded options (finalState (ingest options record state)) := by
  have hremember : ∀ result, Grounded options (finalState result) →
      Grounded options (finalState (remember record result)) := by
    rintro (_ | _) hresult <;> exact ⟨hresult.reaches, hresult.epoch⟩
  rw [ingest_eq]
  cases readRecord options record state with
  | ignored => exact h
  | refused message => exact h
  | change change => exact hremember _ (h.applyChange change)
  | epoch signed historical => exact hremember _ (h.ingestEpoch signed historical)

theorem Attained.grounded (h : Attained options state) : Grounded options state := by
  induction h with
  | create hcreate =>
    obtain ⟨snapshot, hsnapshot, hcreate⟩ := bind_eq_ok_iff.1 hcreate
    obtain ⟨genesis, hgenesis, hsnapshot⟩ := bind_eq_ok_iff.1 hsnapshot
    cases hcreate
    rw [mergeSort_nil] at hsnapshot
    obtain rfl := Except.ok.inj hsnapshot
    exact ⟨⟨genesis, hgenesis, .refl⟩, le_rfl⟩
  | ingest _ record ih => exact ih.ingest record
  | remember _ call ih => cases call <;> exact ⟨ih.reaches, ih.epoch⟩

end Attained

/-! ## The rotation -/

section Rotation

variable (options : GovernanceControlPlaneOptions) (publisher : GovernancePublisher)

/-- Publishes an envelope, in a record that gets an id from the transport, and has it ingested. -/
def publish (envelope : Bytes) (id : String) (now : Int) : EStateM String GovernanceHost Unit := do
  let host ← get
  let record := host.nextRecord publisher envelope id now
  let ingested := ingest options record host.plane
  set { host with
    plane := finalState ingested
    history := host.history ++ [record]
    ingested := insert id host.ingested }
  match ingested with
  | .ok _ _ => return
  | .error message _ => throw message

/-- Starts the next epoch. -/
def rotateEpoch (rootPrivateKey contentKey : Bytes) (now : Int) (id : String) :
    EStateM String GovernanceHost SignedEpochManifest := do
  let host ← get
  match nextEpoch options publisher rootPrivateKey contentKey now
      host.plane with
  | .error message => throw message
  | .ok signed =>
    set { host with
      plane := (GovernanceCall.rotateEpoch rootPrivateKey contentKey now).remember host.plane }
    match encodeSignedEpochManifest options.codec signed >>= fun body =>
        encodeGovernanceEnvelope options publisher .epochManifest
          (tagged options 1 body) with
    | .error message => throw message
    | .ok envelope =>
      publish options publisher envelope id now
      return signed

/-- The manifest that a payload carries, and its tag. -/
def taggedManifest (payload : Bytes) : Option (Int × SignedEpochManifest) :=
  match decodeGovernanceEnvelope options payload with
  | .ok (.epochManifest, payload) =>
    match readTagged options payload with
    | .ok (tag, body) => (options.epochCodec.decodeSignedEpochManifest body).toOption.map (tag, ·)
    | _ => none
  | _ => none

/-- The manifest of a new epoch that a payload carries. -/
def epochOf (payload : Bytes) : Option SignedEpochManifest :=
  (taggedManifest options payload).bind fun (tag, signed) => if tag = 1 then some signed else none

/-- The manifest wraps the key once for each reader in force and for nobody else,
    and the readers are those of the current revision. -/
structure WrapsReaders (snapshot : CapabilitySnapshot) (manifest : EpochManifest) : Prop where
  once : (manifest.wraps.map EpochKeyWrap.recipientId).Nodup
  subjects : ∀ subject, subject ∈ manifest.wraps.map EpochKeyWrap.recipientId ↔
    ∃ capability ∈ snapshot.capabilities.values, capability.IsReader snapshot.revision ∧
      capability.grant.subjectId = subject
  recipients : ∀ recipient, recipient ∈ manifest.wraps.map EpochKeyWrap.recipient ↔
    recipient ∈ readerRecipientsForRevision snapshot snapshot.revision

/-- What a rotation takes besides readers: the caller owns the capability log and has the root's
    key, the content key is one, the record's id is new; keys are sealed to every public key of 32
    bytes; and a manifest that is encoded into an envelope is read back from it. -/
structure CanRotate (rootPrivateKey contentKey : Bytes) (now : Int) (id : String)
    (state : GovernanceState) : Prop where
  owner : publisher.transportIdentity = options.textDecoder state.snapshot.capabilityLogFeed
  keyLength : contentKey.length = 32
  unseen : id ∉ state.seen
  signs : ∀ payload, options.codec.verifyDomain .epochManifest payload
    (publisher.signDomain .epochManifest payload rootPrivateKey)
    state.snapshot.rootAdminPublicKey = true
  seals : ∀ publicKey, publicKey.length = 32 → ∀ context, ∃ sealed,
    options.epochCodec.hpkeSealBase publicKey contentKey context context = .ok sealed
  carries : ∀ signed body,
    nextEpoch options publisher rootPrivateKey contentKey now state =
      .ok signed → encodeSignedEpochManifest options.codec signed = .ok body →
    ∃ envelope, encodeGovernanceEnvelope options publisher .epochManifest
        (tagged options 1 body) = .ok envelope ∧
      epochOf options envelope = some signed

variable {options publisher} {rootPrivateKey contentKey : Bytes} {now : Int} {id : String}
  {host : GovernanceHost} {state : GovernanceState} {signed : SignedEpochManifest}

theorem epochOf_eq_some_iff {payload : Bytes} : epochOf options payload = some signed ↔
    ∃ inner body, decodeGovernanceEnvelope options payload = .ok (.epochManifest, inner) ∧
      readTagged options inner = .ok (1, body) ∧
      options.epochCodec.decodeSignedEpochManifest body = .ok signed := by
  constructor
  · intro h
    obtain ⟨⟨tag, manifest⟩, h, hnew⟩ := Option.bind_eq_some_iff.1 h
    obtain ⟨rfl, hsigned⟩ := Option.ite_none_right_eq_some.1 hnew
    cases hsigned
    unfold taggedManifest at h
    split at h
    · next inner hdecode =>
      split at h
      · next tag body htagged =>
        obtain ⟨_, hsigned, heq⟩ := Option.map_eq_some_iff.1 h
        cases heq
        exact ⟨inner, body, hdecode, htagged, toOption_eq_some_iff.1 hsigned⟩
      · cases h
    · cases h
  · rintro ⟨inner, body, hdecode, htagged, hsigned⟩
    simp [epochOf, taggedManifest, hdecode, htagged, hsigned, Except.toOption]

/-- The manifest of the next epoch has the readers for its recipients, none of them
    twice, and follows the current epoch. -/
theorem of_nextEpoch
    (h : nextEpoch options publisher rootPrivateKey contentKey now state = .ok signed) :
    OneReaderPerSubject state.snapshot ∧ WrapsReaders state.snapshot signed.manifest ∧
      ∃ encoded, encodeEpochManifest options.codec signed.manifest = .ok encoded ∧
        signed.signature = publisher.signDomain .epochManifest encoded rootPrivateKey := by
  obtain ⟨_, -, h⟩ := bind_eq_ok_iff.1 h
  obtain ⟨hnodup, wraps, encoded, hwraps, hencoded, rfl⟩ := of_createEpochManifest h
  have hperm := sortByRecipient_perm recipientId
    (epochRecipients state.snapshot)
  have hids : wraps.map EpochKeyWrap.recipientId =
      (wraps.map EpochKeyWrap.recipient).map recipientId := by
    rw [map_map]
    rfl
  replace hwraps : wraps.map EpochKeyWrap.recipient = sortByRecipient recipientId
    (epochRecipients state.snapshot) := hwraps
  have hone := nodup_recipientId_iff.1 hnodup
  refine ⟨hone, ⟨?_, fun subject => ?_, fun recipient => ?_⟩, encoded, hencoded, rfl⟩
  · rw [hids, hwraps]
    exact (hperm.map _).nodup_iff.2 hnodup
  · rw [hids, hwraps, (hperm.map _).mem_iff, epochRecipients_eq, map_map, mem_map]
    simp only [mem_readersInForce, and_assoc]
    rfl
  · rw [hwraps, mem_readerRecipientsForRevision hone]
    exact hperm.mem_iff

/-- If no subject is a reader twice, there is a next epoch. -/
theorem exists_nextEpoch (hgrounded : Grounded options state)
    (hrotate : CanRotate options publisher rootPrivateKey contentKey now id state)
    (hreader : ∃ capability ∈ state.snapshot.capabilities.values,
      capability.IsReader state.snapshot.revision) (hone : OneReaderPerSubject state.snapshot) :
    ∃ signed, nextEpoch options publisher rootPrivateKey contentKey now state = .ok signed := by
  obtain ⟨genesis, hgenesis, hreaches⟩ := hgrounded.reaches
  have hepoch := hgrounded.epoch
  obtain ⟨signed, hsigned⟩ := @createEpochManifest_of_nodup options.codec options.epochCodec
    (epochInput rootPrivateKey contentKey now state) publisher.signDomain
    hrotate.keyLength (by simp only [epochInput]; omega)
    (by
      obtain ⟨capability, hmem, hactive⟩ := hreader
      simp only [epochInput, epochRecipients_eq]
      exact ne_nil_of_mem (mem_map_of_mem (mem_readersInForce.2 ⟨hmem, hactive⟩)))
    (nodup_recipientId_iff.2 hone)
    (by
      intro recipient hrecipient context
      simp only [epochInput, epochRecipients_eq] at hrecipient
      obtain ⟨capability, hmem, rfl⟩ := mem_map.1 hrecipient
      obtain ⟨hmem, hactive⟩ := mem_readersInForce.1 hmem
      -- The grant was checked when it came in.
      obtain ⟨key, hkey, hlength⟩ :=
        hpkePublicKey_of_checkGrant (hreaches.checkGrant_eq_ok hgenesis hmem) hactive.1
      refine hrotate.seals _ ?_ context
      rwa [EffectiveCapability.recipient, hkey])
  refine ⟨signed, ?_⟩
  rw [nextEpoch, assertCapabilityFeedOwner,
    if_neg (not_not.2 hrotate.owner)]
  exact hsigned

/-- A control plane accepts the manifest that its own state makes. -/
theorem ingestEpoch_of_nextEpoch
    (hrotate : CanRotate options publisher rootPrivateKey contentKey now id state)
    (h : nextEpoch options publisher rootPrivateKey contentKey now state = .ok signed)
    (contentKeys : OrdMap Int Bytes) :
    ∃ state', ingestEpoch options signed false { state with contentKeys } = .ok ⟨⟩ state' := by
  obtain ⟨_, -, h⟩ := bind_eq_ok_iff.1 h
  obtain ⟨-, wraps, encoded, -, hencoded, rfl⟩ := of_createEpochManifest h
  simp only [epochInput] at hencoded ⊢
  have hverify : verifyEpochManifest options.codec
      ⟨⟨state.snapshot.groupId, state.currentEpoch + 1, if state.currentEpoch < 0 then none
          else state.epochDigests.get? state.currentEpoch, now, wraps⟩,
        state.snapshot.rootAdminPublicKey,
        publisher.signDomain .epochManifest encoded rootPrivateKey⟩
      state.snapshot.rootAdminPublicKey = .ok true := by
    rw [verifyEpochManifest, if_neg (not_not.2 rfl), hencoded]
    exact congrArg Except.ok (hrotate.signs encoded)
  simp only [ingestEpoch, bind_get_run, hverify, hencoded,
    ask, bind_pure_run, bind_set_run, ne_eq,
    not_true_eq_false, or_self, if_false, Bool.not_true, Bool.not_false, Bool.false_eq_true, if_true]
  exact ⟨_, rfl⟩

theorem publish_of_ingest {envelope : Bytes} {b : Bool}
    (h : ingest options (host.nextRecord publisher envelope id now) host.plane = .ok b state) :
    publish options publisher envelope id now host = .ok () { host with
      plane := state
      history := host.history ++ [host.nextRecord publisher envelope id now]
      ingested := insert id host.ingested } := by
  simp only [publish, bind_get_run, h]
  rfl

/-- Where there is a reader, a rotation succeeds, publishes a manifest and wraps the key once for
    each reader in force and for nobody else just if no subject is a reader twice. -/
theorem rotateEpoch_iff (hattained : Attained options host.plane)
    (hrotate : CanRotate options publisher rootPrivateKey contentKey now id host.plane)
    (hreader : ∃ capability ∈ host.plane.snapshot.capabilities.values,
      capability.IsReader host.plane.snapshot.revision) : (∃ signed host' record,
      rotateEpoch options publisher rootPrivateKey contentKey now id host = .ok signed host' ∧
        host'.history = host.history ++ [record] ∧ epochOf options record.payload = some signed ∧
        WrapsReaders host.plane.snapshot signed.manifest) ↔
      OneReaderPerSubject host.plane.snapshot := by
  constructor
  · rintro ⟨signed, host', record, h, -⟩
    rw [rotateEpoch, bind_get_run] at h
    cases hnext : nextEpoch options publisher rootPrivateKey contentKey now
        host.plane with
    | error message => rw [hnext] at h; exact absurd h (by simp)
    | ok signed => exact (of_nextEpoch hnext).1
  · intro hone
    obtain ⟨signed, hnext⟩ := exists_nextEpoch hattained.grounded hrotate hreader hone
    obtain ⟨-, hwraps, encoded, hencoded, -⟩ := of_nextEpoch hnext
    obtain ⟨body, hbody⟩ : ∃ body, encodeSignedEpochManifest options.codec signed = .ok body := by
      rw [encodeSignedEpochManifest, hencoded]
      exact ⟨_, rfl⟩
    obtain ⟨envelope, henvelope, hcarried⟩ := hrotate.carries signed body hnext hbody
    obtain ⟨inner, body', hdecode, htagged, hdecoded⟩ := epochOf_eq_some_iff.1 hcarried
    obtain ⟨state, hstate⟩ := ingestEpoch_of_nextEpoch hrotate hnext
      (host.plane.contentKeys.set (host.plane.currentEpoch + 1) contentKey)
    have hingest : ingest options
        (host.nextRecord publisher envelope id now)
        ((GovernanceCall.rotateEpoch rootPrivateKey contentKey now).remember host.plane) =
          .ok true { state with seen := insert id state.seen } := by
      have hread : readRecord options
          (host.nextRecord publisher envelope id now)
          ((GovernanceCall.rotateEpoch rootPrivateKey contentKey now).remember host.plane) =
            .epoch signed false := by
        refine (readRecord_of_decoded hrotate.unseen hdecode hrotate.owner).trans ?_
        simp only [readMessage, htagged, hdecoded]
        rfl
      rw [ingest_eq, hread]
      exact congrArg (remember _) hstate
    -- The host with the record on the transport and ingested.
    obtain ⟨host', hhistory, hpublish⟩ : ∃ host' : GovernanceHost,
        host'.history = host.history ++ [host.nextRecord publisher envelope id now] ∧
        publish options publisher envelope id now { host with
          plane := (GovernanceCall.rotateEpoch rootPrivateKey contentKey now).remember host.plane } =
          .ok () host' := ⟨_, rfl, publish_of_ingest hingest⟩
    refine ⟨signed, host', host.nextRecord publisher envelope id now, ?_, hhistory, hcarried, hwraps⟩
    have hencode : (encodeSignedEpochManifest options.codec signed >>= fun body =>
        encodeGovernanceEnvelope options publisher .epochManifest
          (tagged options 1 body)) = .ok envelope := by
      rw [hbody]
      exact henvelope
    simp only [rotateEpoch, bind_get_run, hnext, bind_set_run, hencode]
    rw [bind_run_of_ok hpublish]
    rfl

end Rotation

/-! ## Samples -/

namespace TwiceReader

open SmallLog (genesis revision governance key)

/-- A grant that lets subject 1 read. -/
def reads (scope : ReaderHistoryScope) (validFromRevision : Int) : CapabilityGrant :=
  { SmallLog.grant 1 "r" .reader validFromRevision none with
    readerScope := some scope, hpkePublicKey := some (key 3) }

/-- Subject 1 gets audit access besides what it has. -/
def audits : SignedCapabilityRevision := revision 1 [9] [reads .audit 1] []

/-- The first epoch, with the key sealed to subject 1. -/
def first : SignedEpochManifest :=
  ⟨⟨[0], 0, none, 0, [⟨[1], key 3, key 3, key 2⟩]⟩, key 7, key 7⟩

def options : GovernanceControlPlaneOptions :=
  governance (.ofTables [] [] [] [] []) (genesis [reads .snapshot 0]) [([21], audits)] []
    [([31], first)]

def publisher : GovernancePublisher := SmallLog.publisher [([21], audits)] []

/-- The control plane at the start. -/
def created : GovernanceState :=
  okValue (create options) (by decide +kernel)

/-- The control plane after the grant. -/
def granted : GovernanceState :=
  finalState (ingest options
    (GovernanceHost.nextRecord ⟨created, [], [], ∅⟩ publisher [21] "a" 0) created)

theorem attained_created : Attained options created := .create (eq_ok_okValue _ _)

/-- What a rotation takes besides readers is there. -/
theorem canRotate {state : GovernanceState} (hseen : state.seen ⊆ {"a"})
    (hroot : state.snapshot.rootAdminPublicKey = key 7)
    (hfeed : state.snapshot.capabilityLogFeed = utf8 "g") (hcarries : ∀ signed,
      nextEpoch options publisher (key 7) (key 2) 0 state = .ok signed → signed = first) :
    CanRotate options publisher (key 7) (key 2) 0 "b" state where
  owner := by rw [hfeed]; rfl
  keyLength := by rfl
  unseen := fun h => absurd (Finset.mem_singleton.1 (hseen h)) (by decide)
  signs payload := by rw [hroot]; exact decide_eq_true rfl
  seals publicKey _ context := ⟨_, rfl⟩
  carries signed body hnext hbody := by
    obtain rfl := hcarries signed hnext
    have hcode : encodeSignedEpochManifest options.codec first = .ok [31] :=
      toOption_eq_some_iff.1 (by decide +kernel)
    cases hbody.symm.trans hcode
    exact ⟨[31], toOption_eq_some_iff.1 (by decide +kernel), by decide +kernel⟩

/-- A subject with two capabilities to read makes the rotation fail. -/
theorem rotateEpoch_fails : Attained options granted ∧
    CanRotate options publisher (key 7) (key 2) 0 "b" granted ∧
    (∃ capability ∈ granted.snapshot.capabilities.values,
      capability.IsReader granted.snapshot.revision) ∧
    ∀ signed host', rotateEpoch options publisher (key 7) (key 2) 0 "b" ⟨granted, [], [], ∅⟩ ≠
      .ok signed host' := by
  have htwice : ¬ OneReaderPerSubject granted.snapshot := by
    unfold OneReaderPerSubject
    decide +kernel
  have hfails : ∀ signed, nextEpoch options publisher (key 7) (key 2) 0
      granted ≠ .ok signed := fun signed h => htwice (of_nextEpoch h).1
  refine ⟨attained_created.ingest _, canRotate (by decide +kernel) (by decide +kernel)
    (by decide +kernel) fun signed h => absurd h (hfails signed), by decide +kernel,
    fun signed host' h => ?_⟩
  rw [rotateEpoch, bind_get_run] at h
  cases hnext : nextEpoch options publisher (key 7) (key 2) 0 granted with
  | error message => rw [hnext] at h; exact absurd h (by simp)
  | ok signed => exact hfails signed hnext

/-- Before the second grant the rotation succeeds. -/
theorem rotateEpoch_succeeds : OneReaderPerSubject created.snapshot ∧ ∃ signed host' record,
      rotateEpoch options publisher (key 7) (key 2) 0 "b" ⟨created, [], [], ∅⟩ = .ok signed host' ∧
        host'.history = [record] ∧ epochOf options record.payload = some signed ∧
        WrapsReaders created.snapshot signed.manifest := by
  have hone : OneReaderPerSubject created.snapshot := by
    unfold OneReaderPerSubject
    decide +kernel
  have hfirst : nextEpoch options publisher (key 7) (key 2) 0 created =
      .ok first := toOption_eq_some_iff.1 (by decide +kernel)
  refine ⟨hone, (@rotateEpoch_iff options publisher (key 7) (key 2) 0 "b" ⟨created, [], [], ∅⟩
    attained_created (canRotate (by decide +kernel) (by decide +kernel) (by decide +kernel)
      fun signed h => Except.ok.inj (h.symm.trans hfirst)) (by decide +kernel)).2 hone⟩

end TwiceReader

end Chronolog
