import Chronolog.NodeCore.Deliveries

/-!
# Convergence

What a node admits is determined by the records it has applied, whatever their
order (`Reflects.mem_orderedTxIds_iff`), if every signing key is one validator's.
So nodes that are delivered the same records admit the same transactions, in the
same order (`orderedTransactionIds_converge`).
-/

namespace Chronolog

open Procedure Choice ChronologNode

section Admitted

variable {resolver : CapabilityMembershipResolver} {options options' : ChronologNodeOptions}
  {env env' : NodeEnv} {D : Set Applied} {state state' : NodeState} {id : Bytes}

/-- The id of a record tells what was applied. -/
def UniqueIds (D : Set Applied) : Prop :=
  ∀ applied ∈ D, ∀ applied' ∈ D, applied.1.id = applied'.1.id → applied = applied'

/-- Some of the attestations applied admit the transaction. -/
def AdmittedBy (resolver : CapabilityMembershipResolver) (D : Set Applied) (id : Bytes) : Prop :=
  ∃ record core read, (record, .candidate core read) ∈ D ∧ read.txId = id ∧
    read.state = .pendingValidation ∧
    ∃ l, (∀ attestation ∈ l, resolver.proofValid read core attestation ∧
      ∃ record' value, (record', .attestation value) ∈ D ∧ attestation = value.stored record') ∧
      resolver.Admits core l

theorem AdmittedBy.mono {D' : Set Applied} (h : AdmittedBy resolver D id) (hsub : D ⊆ D') :
    AdmittedBy resolver D' id := by
  obtain ⟨record, core, read, hread, hid, hpending, l, hl, hadmits⟩ := h
  refine ⟨record, core, read, hsub hread, hid, hpending, l, fun attestation hmem => ?_, hadmits⟩
  obtain ⟨hvalid, record', value, happlied, heq⟩ := hl attestation hmem
  exact ⟨hvalid, record', value, hsub happlied, heq⟩

theorem proofValid_congr {core : TransactionCore} {candidate candidate' : StoredCandidate}
    (htx : candidate.txId = candidate'.txId)
    (hdigest : candidate.candidateDigest = candidate'.candidateDigest) :
    resolver.proofValid candidate core = resolver.proofValid candidate' core := by
  funext attestation
  simp only [CapabilityMembershipResolver.proofValid, htx, hdigest]

variable {candidate read : StoredCandidate}

theorem StoredCandidate.Evolved.txId_eq (h : candidate.Evolved read) :
    candidate.txId = read.txId := by
  rcases h with rfl | ⟨-, ids, rfl⟩ <;> rfl

theorem StoredCandidate.Evolved.candidateDigest_eq (h : candidate.Evolved read) :
    candidate.candidateDigest = read.candidateDigest := by
  rcases h with rfl | ⟨-, ids, rfl⟩ <;> rfl

theorem StoredCandidate.Evolved.orderKey_eq (h : candidate.Evolved read) :
    candidate.orderKey = read.orderKey := by
  rcases h with rfl | ⟨-, ids, rfl⟩ <;> rfl

/-- A candidate was admitted on attestations that were applied. -/
theorem Reflects.admittedBy (h : Reflects options env D ∅ state)
    (henv : env.membership = resolver.toMembershipResolver)
    (hid : id ∈ state.control.orderedTxIds) : AdmittedBy resolver D id := by
  obtain ⟨candidate, hget, hadmissible⟩ := (h.ordered_iff id).1 hid
  obtain ⟨core, hcore, l, ids, hsub, hproof⟩ := h.justified id candidate hget hadmissible
  obtain ⟨record, core', read, hread, hevolved⟩ := h.candidate_read id candidate hget
  have htx : read.txId = id := hevolved.txId_eq.symm.trans (state.control.candidates.key_eq hget)
  obtain rfl : core' = core := by
    have hcore' := (h.candidate_stored record core' read hread).1
    rw [htx] at hcore'
    exact Option.some.inj (hcore'.symm.trans hcore)
  have hpending : read.state = .pendingValidation := by
    rcases hevolved with rfl | ⟨hpending, -⟩
    · rcases (h.isRead _ _ _ hread).state with hstate | hstate
      · exact hstate
      · cases hadmissible.symm.trans hstate
    · exact hpending
  have hadmits := (admissionProof_eq_some_iff henv).1 ⟨ids, hproof⟩
  refine ⟨record, core', read, hread, htx, hpending, _, fun attestation hmem => ?_, hadmits⟩
  obtain ⟨hmem, hvalid⟩ := List.mem_filter.1 (firsts_subset _ _ hmem)
  rw [proofValid_congr hevolved.txId_eq hevolved.candidateDigest_eq] at hvalid
  refine ⟨hvalid, (h.attestation_iff attestation).1 ?_⟩
  exact (h.indexed.mem_attestationsFor_iff.1 (hsub hmem)).1

/-- With a key for every validator the attestations applied admit a candidate. -/
theorem Reflects.mem_orderedTxIds (h : Reflects options env D ∅ state) (hD : UniqueIds D)
    (henv : env.membership = resolver.toMembershipResolver)
    (hunique : ∀ revision snapshot, resolver.snapshotForRevision revision = some snapshot →
      UniqueSigningKeys snapshot)
    (hadmitted : AdmittedBy resolver D id) : id ∈ state.control.orderedTxIds := by
  obtain ⟨record, core, read, hread, rfl, hpending, l, hl, hadmits⟩ := hadmitted
  obtain ⟨hcore, candidate, hget⟩ := h.candidate_stored record core read hread
  obtain ⟨record', core', read', hread', hevolved⟩ := h.candidate_read _ candidate hget
  have heq : ((record', .candidate core' read') : Applied) = (record, .candidate core read) := by
    refine hD _ hread' _ hread (utf8_injective ?_)
    rw [← (h.isRead _ _ _ hread').txId, ← (h.isRead _ _ _ hread).txId, ← hevolved.txId_eq]
    exact state.control.candidates.key_eq hget
  obtain ⟨rfl, rfl⟩ := IngestMessage.candidate.inj (Prod.mk.inj heq).2
  refine (h.ordered_iff _).2 ⟨candidate, hget, ?_⟩
  rcases hevolved with rfl | ⟨-, ids, rfl⟩
  · -- A candidate that is still pending would be admitted by the attestations it has.
    exfalso
    have hvalid : l ⊆ (state.control.attestationsFor candidate.txId).filter
        (resolver.proofValid candidate core') := by
      intro attestation hmem
      obtain ⟨hvalid, happlied⟩ := hl attestation hmem
      refine List.mem_filter.2 ⟨h.indexed.mem_attestationsFor_iff.2
        ⟨(h.attestation_iff attestation).2 happlied, ?_⟩, hvalid⟩
      simp only [CapabilityMembershipResolver.proofValid, Bool.and_eq_true, decide_eq_true_eq]
        at hvalid
      exact hvalid.1.1.1.1.1.1.1
    obtain ⟨ids, hids⟩ := (admissionProof_eq_some_iff henv).2 <|
      (hadmits.mono hvalid).of_isChoice (hunique _) (fun _ hmem => (List.mem_filter.1 hmem).2)
        (isChoice_firsts _)
    exact h.exhaustive _ core' (Set.notMem_empty _) hcore candidate ids rfl ⟨hget, hpending, hids⟩
  · rfl

/-- The records applied determine what is admitted. -/
theorem Reflects.mem_orderedTxIds_iff (h : Reflects options env D ∅ state) (hD : UniqueIds D)
    (henv : env.membership = resolver.toMembershipResolver)
    (hunique : ∀ revision snapshot, resolver.snapshotForRevision revision = some snapshot →
      UniqueSigningKeys snapshot) : id ∈ state.control.orderedTxIds ↔ AdmittedBy resolver D id :=
  ⟨h.admittedBy henv, h.mem_orderedTxIds hD henv hunique⟩

theorem Reflects.orderKeyOf_eq (h : Reflects options env D ∅ state) (hD : UniqueIds D)
    (h' : Reflects options' env' D ∅ state') (hid : id ∈ state.control.orderedTxIds)
    (hid' : id ∈ state'.control.orderedTxIds) :
    state.control.orderKeyOf id = state'.control.orderKeyOf id := by
  obtain ⟨candidate, hget, -⟩ := (h.ordered_iff id).1 hid
  obtain ⟨candidate', hget', -⟩ := (h'.ordered_iff id).1 hid'
  obtain ⟨record, core, read, hread, hevolved⟩ := h.candidate_read id candidate hget
  obtain ⟨record', core', read', hread', hevolved'⟩ := h'.candidate_read id candidate' hget'
  have heq : ((record, .candidate core read) : Applied) = (record', .candidate core' read') := by
    refine hD _ hread _ hread' (utf8_injective ?_)
    rw [← (h.isRead _ _ _ hread).txId, ← (h'.isRead _ _ _ hread').txId, ← hevolved.txId_eq,
      ← hevolved'.txId_eq, state.control.candidates.key_eq hget,
      state'.control.candidates.key_eq hget']
  obtain ⟨-, rfl⟩ := IngestMessage.candidate.inj (Prod.mk.inj heq).2
  rw [ControlStore.orderKeyOf, ControlStore.orderKeyOf, hget, hget', Option.map_some,
    Option.map_some, hevolved.orderKey_eq, hevolved'.orderKey_eq]

/-- Nodes that have applied the same records order the same transactions alike. -/
theorem Reflects.orderedTxIds_eq (h : Reflects options env D ∅ state)
    (h' : Reflects options' env' D ∅ state') (hD : UniqueIds D)
    (henv : env.membership = resolver.toMembershipResolver)
    (henv' : env'.membership = resolver.toMembershipResolver)
    (hunique : ∀ revision snapshot, resolver.snapshotForRevision revision = some snapshot →
      UniqueSigningKeys snapshot) : state.control.orderedTxIds = state'.control.orderedTxIds := by
  have hmem : ∀ id, id ∈ state.control.orderedTxIds ↔ id ∈ state'.control.orderedTxIds := by
    intro id
    rw [h.mem_orderedTxIds_iff hD henv hunique, h'.mem_orderedTxIds_iff hD henv' hunique]
  exact h.ordered.orderedTxIds_eq h'.ordered hmem fun id hid =>
    h.orderKeyOf_eq hD h' hid ((hmem id).1 hid)

end Admitted

/-! ## Nodes of a group -/

/-- The nodes are of one group: what they read of a record is the same. -/
structure SameGroup (options options' : ChronologNodeOptions) : Prop where
  codec : options.codec = options'.codec
  groupId : options.groupId = options'.groupId
  groupRoute : options.groupRoute = options'.groupRoute
  executionManifestDigest : options.executionManifestDigest = options'.executionManifestDigest

/-- The deliveries are of the records, in any order, with any of them repeated.
    Around each the membership is the given one and the envelope opens as it is
    said to; the time and the transport may be any. -/
structure Delivers (options : ChronologNodeOptions) (resolver : CapabilityMembershipResolver)
    (opened : TransportRecord → Except String SignedWireMessage)
    (records : Finset TransportRecord) (deliveries : List Delivery) : Prop where
  records_eq : (deliveries.map (·.record.unstamped)).toFinset = records
  membership : ∀ delivery ∈ deliveries, delivery.env.membership = resolver.toMembershipResolver
  opened : ∀ delivery ∈ deliveries, decodeSignedEnvelope options.codec delivery.record.payload
    (groupRoute options) delivery.env.envelopeCipher delivery.env.blobStore =
      opened delivery.record.unstamped
  stamped : ∀ delivery ∈ deliveries, delivery.record.receivedAtMs.isSome

section Converge

variable {resolver : CapabilityMembershipResolver} {options options' : ChronologNodeOptions}
  {opened : TransportRecord → Except String SignedWireMessage} {records : Finset TransportRecord}
  {deliveries deliveries' : List Delivery}

/-- What every node finds around it, whatever its transport and time. -/
def commonEnv (resolver : CapabilityMembershipResolver) : NodeEnv where
  membership := resolver.toMembershipResolver
  membershipState := ⟨[], [], none⟩

/-- What every node of the group reads of a record. -/
def commonReading (options : ChronologNodeOptions) (resolver : CapabilityMembershipResolver)
    (opened : TransportRecord → Except String SignedWireMessage) (record : TransportRecord) :
    Except IngestError IngestMessage := do
  let envelope ← consult (options.codec.decodeEnvelope record.payload)
  if envelope.messageType ≠ .candidate ∧ envelope.messageType ≠ .attestation ∧
      envelope.messageType ≠ .heartbeat then
    return .ignored
  let wire ← orTerminal "INVALID_SIGNED_ENVELOPE" (opened record)
  readMessage options (commonEnv resolver) record wire

theorem readMessage_eq_common {env : NodeEnv} (hgroup : SameGroup options options')
    (henv : env.membership = resolver.toMembershipResolver) (record : TransportRecord)
    (wire : SignedWireMessage) : readMessage options' env record wire =
      readMessage options (commonEnv resolver) record.unstamped wire := by
  unfold readMessage
  cases wire.type with
  | candidate =>
    simp only [readCandidate, membershipAllowsTransportAuthor, henv,
      hgroup.codec, hgroup.groupId, hgroup.executionManifestDigest]
    rfl
  | attestation =>
    simp only [readAttestation, membershipAllowsTransportAuthor, henv,
      hgroup.codec, hgroup.groupId]
    rfl
  | heartbeat =>
    simp only [readHeartbeat, membershipAllowsTransportAuthor,
      heartbeatAuthorized, henv, hgroup.codec, hgroup.groupId]
    rfl

theorem Delivers.mem_iff (h : Delivers options resolver opened records deliveries)
    (record : TransportRecord) : record ∈ records ↔
      ∃ delivery ∈ deliveries, delivery.record.unstamped = record := by
  rw [← h.records_eq, List.mem_toFinset, List.mem_map]

theorem Delivers.readRecord_eq (h : Delivers options' resolver opened records deliveries)
    (hgroup : SameGroup options options') {delivery : Delivery}
    (hdelivery : delivery ∈ deliveries) : readRecord options' delivery.env delivery.record =
      commonReading options resolver opened delivery.record.unstamped := by
  have hwire : decodeRecord options' delivery.env delivery.record =
      orTerminal "INVALID_SIGNED_ENVELOPE" (opened delivery.record.unstamped) := by
    rw [decodeRecord, h.opened delivery hdelivery]
  simp only [readRecord, commonReading, hwire,
    readMessage_eq_common hgroup (h.membership delivery hdelivery), hgroup.codec]
  rfl

/-- The time of receipt counts only if it is no number. -/
theorem validateRecord_eq_of_unstamped_eq {record record' : TransportRecord}
    (h : record.unstamped = record'.unstamped) (hstamped : record.receivedAtMs.isSome)
    (hstamped' : record'.receivedAtMs.isSome) : validateRecord record = validateRecord record' := by
  obtain ⟨id, author, sequence, previous, receivedAtMs, payload⟩ := record
  obtain ⟨id', author', sequence', previous', receivedAtMs', payload'⟩ := record'
  obtain ⟨rfl, rfl, rfl, rfl, -, rfl⟩ := h
  obtain ⟨time, rfl⟩ := Option.isSome_iff_exists.1 hstamped
  obtain ⟨time', rfl⟩ := Option.isSome_iff_exists.1 hstamped'
  rfl

theorem Delivers.deliveredRecords_subset (h : Delivers options resolver opened records deliveries)
    (h' : Delivers options' resolver opened records deliveries') :
    deliveredRecords deliveries ⊆ deliveredRecords deliveries' := by
  rintro _ ⟨delivery, hdelivery, hvalid, rfl⟩
  obtain ⟨delivery', hdelivery', heq⟩ := (h'.mem_iff _).1
    ((h.mem_iff _).2 ⟨delivery, hdelivery, rfl⟩)
  refine ⟨delivery', hdelivery', ?_, heq⟩
  rw [validateRecord_eq_of_unstamped_eq heq (h'.stamped _ hdelivery') (h.stamped _ hdelivery)]
  exact hvalid

theorem Delivers.follows (h : Delivers options' resolver opened records deliveries)
    (hgroup : SameGroup options options') (hfree : ForkFree records) (hids : Identified records) :
    Follows options' (commonEnv resolver) (commonReading options resolver opened)
      { record | record.unstamped ∈ records } (deliveredRecords deliveries)
      (ingestAll options' deliveries (fresh options')) := by
  refine follows_ingestAll ⟨fun record hrecord record' hrecord' => ?_, fun record hrecord next hnext =>
    ?_⟩ (fun record hrecord record' hrecord' => ?_) deliveries (fun delivery hdelivery => ?_)
    (fun delivery hdelivery => h.readRecord_eq hgroup hdelivery)
    fun delivery hdelivery D record core read _ candidate l => ?_
  · exact hfree.agree record.unstamped hrecord record'.unstamped hrecord'
  · exact hfree.previous record.unstamped hrecord next.unstamped hnext
  · exact hids record.unstamped hrecord record'.unstamped hrecord'
  · exact (h.mem_iff _).2 ⟨delivery, hdelivery, rfl⟩
  · exact admissionProof_congr (h.membership delivery hdelivery) rfl rfl l

theorem uniqueIds_appliedOf {reading : TransportRecord → Except IngestError IngestMessage}
    {records delivered : Set TransportRecord} (hids : Identified records)
    (hdelivered : ∀ record ∈ delivered, ∃ record' ∈ records, record'.unstamped = record) :
    UniqueIds (appliedOf reading delivered) := by
  rintro ⟨record, message⟩ ⟨hrecord, hread⟩ ⟨record', message'⟩ ⟨hrecord', hread'⟩ hid
  obtain ⟨original, horiginal, rfl⟩ := hdelivered _ hrecord
  obtain ⟨original', horiginal', rfl⟩ := hdelivered _ hrecord'
  have heq := hids original horiginal original' horiginal' hid
  rw [heq] at hread
  exact Prod.ext heq (Except.ok.inj (hread.symm.trans hread'))

/-- Two nodes of a group that start anew and are delivered the same records admit the same
    transactions in the same order, however the deliveries are ordered and repeated. -/
theorem orderedTransactionIds_converge
    (hunique : ∀ revision snapshot, resolver.snapshotForRevision revision = some snapshot →
      UniqueSigningKeys snapshot)
    (hgroup : SameGroup options options') (hfree : ForkFree records) (hids : Identified records)
    (h : Delivers options resolver opened records deliveries)
    (h' : Delivers options' resolver opened records deliveries') :
    let store := (ingestAll options deliveries (fresh options)).control
    let store' :=
      (ingestAll options' deliveries' (fresh options')).control
    (∀ id, (∃ candidate, store.getCandidate id = some candidate ∧ candidate.state = .admissible) ↔
      ∃ candidate, store'.getCandidate id = some candidate ∧ candidate.state = .admissible) ∧
    store.orderedTransactionIds = store'.orderedTransactionIds := by
  have hfollows := h.follows ⟨rfl, rfl, rfl, rfl⟩ hfree hids
  have hfollows' := h'.follows hgroup hfree hids
  rw [(h'.deliveredRecords_subset h).antisymm (h.deliveredRecords_subset h')] at hfollows'
  have hD : UniqueIds (appliedOf (commonReading options resolver opened)
      (deliveredRecords deliveries)) := by
    refine uniqueIds_appliedOf hids fun record hrecord => ?_
    obtain ⟨delivery, hdelivery, -, rfl⟩ := hrecord
    exact ⟨delivery.record.unstamped, (h.mem_iff _).2 ⟨delivery, hdelivery, rfl⟩, rfl⟩
  have horder := hfollows.reflects.orderedTxIds_eq hfollows'.reflects hD rfl rfl hunique
  refine ⟨fun id => ?_, horder⟩
  refine (hfollows.reflects.ordered_iff id).symm.trans ?_
  rw [horder]
  exact hfollows'.reflects.ordered_iff id

end Converge

/-! ## Samples -/

namespace SmallGroup

open TwoValidators (capability genesis resolverOf uniqueSigningKeys)

/-- A message of the sample. -/
inductive Message
  | candidate (core : TransactionCore)
  | attestation (value : ValidatorAttestation)
  | heartbeat (value : ValidatorHeartbeat)

def Message.type : Message → WireType
  | candidate _ => .candidate
  | attestation _ => .attestation
  | heartbeat _ => .heartbeat

def Message.signer : Message → Bytes
  | candidate core => core.authorId
  | attestation value => value.validatorId
  | heartbeat value => value.validatorId

/-- The codec under which a byte is the payload of a record with the message. -/
def codec (messages : List (UInt8 × Message)) : Codec :=
  .ofTables
    (messages.map fun (code, message) =>
      ([code], ⟨[0], message.type.messageType, none, [code, code], .inline [code, code]⟩))
    (messages.map fun (code, message) =>
      ([code, code], .array [.integer 1, .integer message.type.index, .bytes [code],
        .bytes message.signer, .bytes (message.signer ++ [code])]))
    (messages.filterMap fun
      | (code, .candidate core) => some ([code], core)
      | _ => none)
    (messages.filterMap fun
      | (code, .attestation value) => some ([code], value)
      | _ => none)
    (messages.filterMap fun
      | (code, .heartbeat value) => some ([code], value)
      | _ => none)

/-- A writer, a bank and another validator, and a policy that asks for a bank. -/
def snapshot : CapabilitySnapshot :=
  genesis [capability [10] [3] "w" .writer none, capability [11] [1] "x" .validator (some "bank"),
    capability [12] [2] "y" .validator none] ⟨1, 1, .ofList [("bank", 1)], []⟩

def resolver : CapabilityMembershipResolver := resolverOf snapshot

/-- A transaction of the writer. -/
def core (authorTimestampMs : Int) : TransactionCore :=
  { TwoValidators.core with authorTimestampMs }

/-- The bank's attestation of a transaction. -/
def attestation (txId : String) (candidateDigest : Bytes) (authorTimestampMs : Int) :
    ValidatorAttestation :=
  ⟨[0], [9], [11], utf8 txId, [1], authorTimestampMs, 0, candidateDigest, 1⟩

/-- A node of the group. -/
def options (messages : List (UInt8 × Message)) (identity : Bytes) : ChronologNodeOptions :=
  { TwoValidators.options with codec := codec messages, identity }

/-- Two transactions and their attestations. -/
def messages : List (UInt8 × Message) :=
  [(1, .candidate (core 10)), (2, .candidate (core 5)), (3, .attestation (attestation "t" [1] 10)),
    (4, .attestation (attestation "u" [2] 5))]

/-- The writer's and the bank's feed. -/
def records : List TransportRecord :=
  [⟨"t", "w", 1, none, some 0, [1]⟩, ⟨"u", "w", 2, some "t", some 0, [2]⟩,
    ⟨"a", "x", 1, none, some 0, [3]⟩, ⟨"b", "x", 2, some "a", some 0, [4]⟩]

/-- The delivery of a record of the sample. -/
def delivery (number : Nat) : Delivery :=
  ⟨TwoValidators.env resolver, records.getD number ⟨"", "", 0, none, none, []⟩⟩

/-- What the envelopes open to. -/
def opened (record : TransportRecord) : Except String SignedWireMessage :=
  decodeSignedEnvelope (codec messages) record.payload [0] none none

theorem delivers {identity : Bytes} {numbers : List Nat}
    (hrecords : ((numbers.map delivery).map (·.record.unstamped)).toFinset =
      (records.map (·.unstamped)).toFinset)
    (hstamped : ∀ d ∈ numbers.map delivery, d.record.receivedAtMs.isSome) :
    Delivers (options messages identity) resolver opened (records.map (·.unstamped)).toFinset
      (numbers.map delivery) where
  records_eq := hrecords
  membership delivery hdelivery := by
    obtain ⟨number, -, rfl⟩ := List.mem_map.1 hdelivery
    rfl
  opened delivery hdelivery := by
    obtain ⟨number, -, rfl⟩ := List.mem_map.1 hdelivery
    rfl
  stamped := hstamped

/-- Two nodes that are delivered the records in the order of the feeds, and
    backwards with repetitions, order the transactions alike: by their timestamps. -/
theorem converge : (ingestAll (options messages [8]) ([0, 1, 2, 3].map delivery)
      (fresh (options messages [8]))).control.orderedTransactionIds = [utf8 "u", utf8 "t"] ∧
    (ingestAll (options messages [8]) ([0, 1, 2, 3].map delivery)
      (fresh (options messages [8]))).control.orderedTransactionIds =
    (ingestAll (options messages [6]) ([3, 1, 3, 2, 0, 0].map delivery)
      (fresh (options messages [6]))).control.orderedTransactionIds := by
  have hfree : ForkFree (records.map (·.unstamped)).toFinset := by
    constructor <;> simp only [Finset.mem_coe] <;> decide
  have hids : Identified (records.map (·.unstamped)).toFinset := by
    simp only [Identified]
    decide
  have h := @orderedTransactionIds_converge resolver (options messages [8]) (options messages [6])
    opened _ ([0, 1, 2, 3].map delivery) ([3, 1, 3, 2, 0, 0].map delivery)
    (fun _ _ => uniqueSigningKeys (by decide)) ⟨rfl, rfl, rfl, rfl⟩ hfree hids
    (delivers (by decide +kernel) (by decide +kernel))
    (delivers (by decide +kernel) (by decide +kernel))
  exact ⟨by rfl, h.2⟩

end SmallGroup

end Chronolog
