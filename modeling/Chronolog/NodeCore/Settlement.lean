import Chronolog.NodeCore.Runs

/-!
# Settlement

What an established watermark says about the runs to come. A validator of every
proof has announced that it attests nothing at or below the watermark any more,
so a candidate that is admitted later has an attestation that was known when the
watermark was established (`admissible_known_of_watermark`), if the validators
that share a signing key also share a feed: heartbeats are recorded by key, and
one of another feed says nothing about the attestations in this one
(`OtherFeed.admissible_unknown`).
-/

namespace Chronolog

open Procedure ChronologNode List Option

namespace CapabilityMembershipResolver

variable {resolver : CapabilityMembershipResolver}

variable (resolver) in
/-- Validators that share a signing key are bound to one feed. -/
def OneFeedPerKey (snapshot : CapabilitySnapshot) : Prop :=
  ∀ c ∈ activeValidators snapshot, ∀ c' ∈ activeValidators snapshot,
    c.grant.signingPublicKey = c'.grant.signingPublicKey →
      resolver.transportAuthorOf snapshot c = resolver.transportAuthorOf snapshot c'

instance (snapshot : CapabilitySnapshot) : Decidable (resolver.OneFeedPerKey snapshot) :=
  inferInstanceAs (Decidable (∀ c ∈ _, ∀ c' ∈ _, _ → _))

/-- The revision tells the snapshot. -/
theorem snapshot_unique {groupId groupId' revision : Bytes}
    {snapshot snapshot' : CapabilitySnapshot}
    (h : resolver.snapshot groupId revision = some snapshot)
    (h' : resolver.snapshot groupId' revision = some snapshot') : snapshot = snapshot' :=
  some.inj ((snapshot_eq_some_iff.1 h).1.symm.trans (snapshot_eq_some_iff.1 h').1)

/-- A validator that uses a feed has a capability that is bound to it. -/
theorem transportAuthorOf_of_canUseTransportAuthor {groupId revision key capabilityId : Bytes}
    {author : String} (h : resolver.canUseTransportAuthor
      ⟨groupId, revision, .validator, key, author, some capabilityId⟩) :
    ∃ snapshot capability, resolver.snapshot groupId revision = some snapshot ∧
      snapshot.capabilities.get? capabilityId = some capability ∧
      capability ∈ activeValidators snapshot ∧ capability.grant.signingPublicKey = key ∧
      resolver.transportAuthorOf snapshot capability = some author := by
  simp only [canUseTransportAuthor, boundCapability, getD_some] at h
  cases hsnapshot : resolver.snapshot groupId revision with
  | none => simp [hsnapshot] at h
  | some snapshot =>
    simp only [hsnapshot] at h
    cases hget : snapshot.capabilities.get? capabilityId with
    | none => simp [hget] at h
    | some capability =>
      simp only [hget, Bool.and_eq_true, decide_eq_true_eq] at h
      obtain ⟨⟨hrole, hkey⟩, hfeed⟩ := h
      exact ⟨snapshot, capability, rfl, hget,
        mem_filter.2 ⟨KeyedMap.mem_values_of_get? hget, hrole⟩, hkey, hfeed⟩

/-- The capabilities of the attestations that admit a transaction are a proof. -/
theorem exists_isProof {snapshot : CapabilitySnapshot} {policy : ValidationPolicy}
    {l : List StoredAttestation}
    (hsat : Satisfies policy (l.filterMap (evidenceOf snapshot policy))) :
    ∃ S, IsProof snapshot policy S ∧ ∀ c ∈ S, ∃ attestation ∈ l,
      snapshot.capabilities.get? attestation.validatorCapability = some c ∧
      countsFor snapshot policy attestation c := by
  have hmem : ∀ e, e ∈ ((activeValidators snapshot).filter fun c =>
      c.evidence ∈ l.filterMap (evidenceOf snapshot policy)).map (·.evidence) ↔
        e ∈ l.filterMap (evidenceOf snapshot policy) := by
    intro e
    refine ⟨fun he => ?_, fun he => ?_⟩
    · obtain ⟨c, hc, rfl⟩ := mem_map.1 he
      simpa using (mem_filter.1 hc).2
    · obtain ⟨attestation, -, hev⟩ := mem_filterMap.1 he
      obtain ⟨c, hget, hcounts, rfl⟩ := evidenceOf_eq_some_iff.1 hev
      exact mem_map_of_mem (mem_filter.2
        ⟨mem_activeValidators_of_countsFor hget hcounts, by simpa using he⟩)
  refine ⟨_, ⟨fun c hc => mem_of_mem_filter hc,
    (satisfies_congr hmem onePerCapability_evidenceOf).2 hsat⟩, fun c hc => ?_⟩
  obtain ⟨hactive, hev⟩ := mem_filter.1 hc
  obtain ⟨attestation, hattestation, hev⟩ := mem_filterMap.1 (by simpa using hev)
  obtain ⟨c', hget, hcounts, heq⟩ := evidenceOf_eq_some_iff.1 hev
  obtain rfl : c' = c := eq_of_mem_activeValidators
    (mem_activeValidators_of_countsFor hget hcounts) hactive
    (congrArg ValidatorEvidence.capabilityId heq)
  exact ⟨attestation, hattestation, hget, hcounts⟩

end CapabilityMembershipResolver

/-! ## Runs with a fixed membership -/

/-- The membership does not change in the run. The id of a record tells the
    record, and an envelope that can be opened opens to one message. -/
structure Supplied (options : ChronologNodeOptions) (resolver : CapabilityMembershipResolver)
    (opened : TransportRecord → SignedWireMessage) (deliveries : List Delivery) : Prop where
  membership : ∀ delivery ∈ deliveries, delivery.env.membership = resolver.toMembershipResolver
  identified : ∀ delivery ∈ deliveries, ∀ delivery' ∈ deliveries,
    delivery.record.id = delivery'.record.id →
      delivery.record.unstamped = delivery'.record.unstamped
  opened : ∀ delivery ∈ deliveries, ∀ wire, decodeSignedEnvelope options.codec
    delivery.record.payload (groupRoute options) delivery.env.envelopeCipher
    delivery.env.blobStore = .ok wire → wire = opened delivery.record.unstamped

/-- The records of each feed are ingested in order: one that is delivered after a
    later one has been ingested before that. -/
def InFeedOrder (options : ChronologNodeOptions) (deliveries : List Delivery) : Prop :=
  ∀ before delivery after, deliveries = before ++ delivery :: after → ∀ delivery' ∈ after,
    delivery'.record.author = delivery.record.author →
    delivery'.record.sequence < delivery.record.sequence →
      delivery'.record.id ∈
        (ingestAll options before (fresh options)).seen

/-- No feed carries an attestation at or below the cutoff of a heartbeat after the heartbeat. -/
def NoBackdating (D : Set Applied) : Prop :=
  ∀ record value, (record, .heartbeat value) ∈ D → ∀ record' value',
    (record', .attestation value') ∈ D → record'.author = record.author →
    value'.authorTimestampMs ≤ value.acceptanceCutoffMs → ¬ record.sequence < record'.sequence

section Settlement

open CapabilityMembershipResolver

variable {options : ChronologNodeOptions} {resolver : CapabilityMembershipResolver}
  {opened : TransportRecord → SignedWireMessage} {deliveries earlier later : List Delivery}

theorem Supplied.of_append (h : Supplied options resolver opened (earlier ++ later)) :
    Supplied options resolver opened earlier where
  membership delivery hdelivery := h.membership delivery (mem_append_left _ hdelivery)
  identified delivery hdelivery delivery' hdelivery' :=
    h.identified delivery (mem_append_left _ hdelivery) delivery'
      (mem_append_left _ hdelivery')
  opened delivery hdelivery := h.opened delivery (mem_append_left _ hdelivery)

/-- What is read of a record is determined by it. -/
theorem Supplied.read_eq (h : Supplied options resolver opened deliveries)
    {delivery delivery' : Delivery} (hdelivery : delivery ∈ deliveries)
    (hdelivery' : delivery' ∈ deliveries)
    (heq : delivery.record.unstamped = delivery'.record.unstamped)
    {message message' : IngestMessage}
    (hread : readRecord options delivery.env delivery.record = .ok message)
    (hread' : readRecord options delivery'.env delivery'.record = .ok message') :
    message = message' := by
  have hpayload : delivery.record.payload = delivery'.record.payload :=
    (TransportRecord.mk.inj heq).2.2.2.2.2
  obtain ⟨envelope, henvelope, hread⟩ := readRecord_eq_ok_iff.1 hread
  obtain ⟨envelope', henvelope', hread'⟩ := readRecord_eq_ok_iff.1 hread'
  obtain rfl : envelope = envelope' := by
    rw [hpayload] at henvelope
    exact Except.ok.inj (henvelope.symm.trans henvelope')
  split_ifs at hread hread'
  · rw [hread, hread']
  · obtain ⟨wire, hwire, hread⟩ := hread
    obtain ⟨wire', hwire', hread'⟩ := hread'
    rw [h.opened delivery hdelivery wire hwire,
      readMessage_eq_common ⟨rfl, rfl, rfl, rfl⟩ (h.membership _ hdelivery), heq] at hread
    rw [h.opened delivery' hdelivery' wire' hwire',
      readMessage_eq_common ⟨rfl, rfl, rfl, rfl⟩ (h.membership _ hdelivery')] at hread'
    exact Except.ok.inj (hread.symm.trans hread')

theorem Supplied.uniqueIds (h : Supplied options resolver opened deliveries) :
    UniqueIds (appliedIn options deliveries) := by
  rintro ⟨_, message⟩ ⟨before, delivery, after, hsplit, rfl, happlies⟩ ⟨_, message'⟩
    ⟨before', delivery', after', hsplit', rfl, happlies'⟩ hid
  have hmem : delivery ∈ deliveries := by simp [hsplit]
  have hmem' : delivery' ∈ deliveries := by simp [hsplit']
  have heq := h.identified delivery hmem delivery' hmem' hid
  exact Prod.ext heq (h.read_eq hmem hmem' heq happlies.read happlies'.read)

/-- A node with a fixed membership reflects what it has applied. -/
theorem Supplied.reflects (h : Supplied options resolver opened deliveries) :
    Reflects options (commonEnv resolver) (appliedIn options deliveries) ∅
      (ingestAll options deliveries (fresh options)) := by
  refine reflects_ingestAll h.uniqueIds
    fun before delivery after hsplit record core read _ candidate l => ?_
  exact admissionProof_congr (h.membership delivery (by simp [hsplit])) rfl rfl l

/-- With forks or without, and in any order: the transactions ordered are those that the
    attestations applied admit. -/
theorem Supplied.mem_orderedTransactionIds_iff (h : Supplied options resolver opened deliveries)
    (hunique : ∀ revision snapshot, resolver.snapshotForRevision revision = some snapshot →
      UniqueSigningKeys snapshot) {id : Bytes} :
    id ∈ (ingestAll options deliveries (fresh options)).control.orderedTransactionIds ↔
      AdmittedBy resolver (appliedIn options deliveries) id :=
  h.reflects.mem_orderedTxIds_iff h.uniqueIds rfl hunique

variable {record : TransportRecord}

/-- A heartbeat that was applied is one of a validator, in its feed. -/
theorem Supplied.transportAuthorOf_of_heartbeat (h : Supplied options resolver opened deliveries)
    {value : ValidatorHeartbeat}
    (happlied : (record, .heartbeat value) ∈ appliedIn options deliveries) : ∃ snapshot capability,
      resolver.snapshot options.groupId value.membershipRevision = some snapshot ∧
      capability ∈ activeValidators snapshot ∧
      capability.grant.signingPublicKey = value.validatorId ∧
      resolver.transportAuthorOf snapshot capability = some record.author := by
  obtain ⟨before, delivery, after, hsplit, rfl, happlies⟩ := happlied
  have hallowed : membershipAllowsTransportAuthor options delivery.env
      delivery.record.author .validator value.validatorId value.membershipRevision
      (some value.validatorCapability) = .ok true := by
    rcases of_readRecord happlies.read with hread | ⟨payload, signer, hread⟩
    · cases hread
    · rcases hread with hread | hread | hread
      · obtain ⟨_, _, hmessage, -⟩ := of_readCandidate hread
        cases hmessage
      · obtain ⟨_, hmessage, -⟩ := of_readAttestation hread
        cases hmessage
      · obtain ⟨value', hmessage, -, rfl, hallowed, -⟩ := of_readHeartbeat hread
        cases hmessage
        exact hallowed
  simp only [membershipAllowsTransportAuthor,
    h.membership delivery (by simp [hsplit])]
    at hallowed
  obtain ⟨snapshot, capability, hsnapshot, -, hactive, hkey, hfeed⟩ :=
    transportAuthorOf_of_canUseTransportAuthor (Except.ok.inj hallowed)
  exact ⟨snapshot, capability, hsnapshot, hactive, hkey, hfeed⟩

/-- Of a feed that is ingested in order, what comes before a record applied is not
    applied after it. -/
theorem InFeedOrder.mem_appliedIn (h : InFeedOrder options (earlier ++ later))
    {applied applied' : Applied} (happlied : applied ∈ appliedIn options earlier)
    (happlied' : applied' ∈ appliedIn options (earlier ++ later))
    (hauthor : applied'.1.author = applied.1.author)
    (hsequence : applied'.1.sequence < applied.1.sequence) :
    applied' ∈ appliedIn options earlier := by
  rcases mem_appliedIn_append.1 happlied' with h' | ⟨before', delivery', after', rfl, hrecord',
    happlies'⟩
  · exact h'
  -- Else it was seen before, when the later one came.
  obtain ⟨before, delivery, after, rfl, hrecord, -⟩ := happlied
  refine absurd ?_ happlies'.unseen
  have hseen := h before delivery (after ++ (before' ++ delivery' :: after')) (by simp) delivery'
    (by simp) (by rw [← hrecord, ← hrecord'] at hauthor; exact hauthor)
    (by rw [← hrecord, ← hrecord'] at hsequence; exact hsequence)
  rw [append_assoc, ingestAll, foldl_append]
  exact seen_subset_ingestAll _ _ _ hseen

/-- An attestation of a transaction that is not stored is reported as unresolved. -/
theorem ControlStore.mem_unresolvedAttestationIds {store : ControlStore}
    {stored : StoredAttestation} {txId : Bytes} {policy : WatermarkPolicy} {revision : Option Bytes}
    {evidence : SettlementEvidence}
    (hstored : store.attestations.get? stored.attestationId = some stored)
    (hcandidate : store.candidates.get? stored.txId = none)
    (hevidence : store.settlementEvidence txId policy revision = .ok evidence) :
    stored.attestationId ∈ evidence.unresolvedAttestationIds := by
  obtain ⟨candidate, -, hevidence⟩ := bind_eq_ok_iff.1 hevidence
  rw [← Except.ok.inj hevidence]
  refine mem_map_of_mem (mem_filter.2 ⟨KeyedMap.mem_values_of_get? hstored, ?_⟩)
  have hhas : store.candidates.has stored.txId = false := OrdMap.has_eq_false_iff.2 hcandidate
  rw [hhas]
  rfl

variable {snapshot : CapabilitySnapshot} {value : ValidatorAttestation} {c : EffectiveCapability}

/-- Once a heartbeat of a validator is recorded, its attestations up to the cutoff are applied. -/
theorem Supplied.attestation_applied (h : Supplied options resolver opened (earlier ++ later))
    (horder : InFeedOrder options (earlier ++ later))
    (hbackdating : NoBackdating (appliedIn options (earlier ++ later))) {groupId revision : Bytes}
    (hsnapshot : resolver.snapshot groupId revision = some snapshot)
    (hfeeds : resolver.OneFeedPerKey snapshot) (hc : c ∈ activeValidators snapshot) {T : Int}
    (hpassed : (ingestAll options earlier (fresh options)).control.HasPassed revision c.grant.signingPublicKey T)
    (happlied : (record, .attestation value) ∈ appliedIn options (earlier ++ later))
    (hfeed : resolver.transportAuthorOf snapshot c = some record.author) (hT : value.authorTimestampMs ≤ T) :
    (record, .attestation value) ∈ appliedIn options earlier := by
  obtain ⟨heartbeat, hmem, hrevision, hkey, -, hcutoff⟩ := hpassed
  obtain ⟨record', value', feedContiguous, happlied', rfl⟩ := heartbeat_applied hmem
  have hrevision : value'.membershipRevision = revision := hrevision
  obtain ⟨snapshot', c', hsnapshot', hc', hkey', hfeed'⟩ :=
    h.of_append.transportAuthorOf_of_heartbeat happlied'
  rw [hrevision] at hsnapshot'
  obtain rfl := snapshot_unique hsnapshot hsnapshot'
  -- The heartbeat is in the feed of the attestation, so it comes after it.
  have hauthor : record.author = record'.author := by
    have heq := hfeeds c hc c' hc' (hkey.symm.trans hkey'.symm)
    rw [hfeed, hfeed'] at heq
    exact some.inj heq
  have hall : (record', .heartbeat value') ∈ appliedIn options (earlier ++ later) :=
    appliedIn_subset_append _ happlied'
  have hle := hbackdating record' value' hall record value happlied hauthor (hT.trans hcutoff)
  have hne : record.sequence ≠ record'.sequence := fun hsequence => by
    have hentry := entry_of_mem_appliedIn happlied
    rw [hauthor, hsequence, entry_of_mem_appliedIn hall] at hentry
    cases h.uniqueIds _ happlied _ hall (FeedEntry.mk.inj (some.inj hentry)).1.symm
  exact horder.mem_appliedIn happlied' happlied hauthor (by dsimp only; omega)

/-- Once a heartbeat of a validator has passed a transaction, its attestation of the
    transaction is applied. -/
theorem Supplied.proofValid_applied (h : Supplied options resolver opened (earlier ++ later))
    (horder : InFeedOrder options (earlier ++ later))
    (hbackdating : NoBackdating (appliedIn options (earlier ++ later))) {core : TransactionCore}
    {candidate : StoredCandidate}
    (hsnapshot : resolver.snapshot core.groupId core.membershipRevision = some snapshot)
    (hfeeds : resolver.OneFeedPerKey snapshot) (hc : c ∈ activeValidators snapshot) {T : Int}
    (hpassed : (ingestAll options earlier (fresh options)).control.HasPassed core.membershipRevision c.grant.signingPublicKey T)
    (hT : core.authorTimestampMs ≤ T)
    (happlied : (record, .attestation value) ∈ appliedIn options (earlier ++ later))
    (hvalid : resolver.proofValid candidate core (value.stored record))
    (hcapability : snapshot.capabilities.get? (value.stored record).validatorCapability = some c) :
    (record, .attestation value) ∈ appliedIn options earlier := by
  simp only [proofValid, Bool.and_eq_true, decide_eq_true_eq] at hvalid
  obtain ⟨⟨⟨⟨-, htimestamp⟩, -⟩, -⟩, hauthor⟩ := hvalid.1
  obtain ⟨snapshot', c', hsnapshot', hcapability', -, -, hfeed⟩ :=
    transportAuthorOf_of_canUseTransportAuthor hauthor
  obtain rfl := snapshot_unique hsnapshot hsnapshot'
  cases hcapability.symm.trans hcapability'
  exact h.attestation_applied horder hbackdating hsnapshot hfeeds hc hpassed happlied hfeed
    (htimestamp.trans_le hT)

/-- If a watermark is established at some point of a run, every candidate of its
    policy and revision up to the watermark that is admissible later is stored at
    that point, or has an attestation that is reported as unresolved. -/
theorem admissible_known_of_watermark (h : Supplied options resolver opened (earlier ++ later))
    (horder : InFeedOrder options (earlier ++ later))
    (hbackdating : NoBackdating (appliedIn options (earlier ++ later)))
    {core : TransactionCore} {watermarkPolicy : WatermarkPolicy}
    (hpolicy : resolver.watermarkPolicy core = .ok (some watermarkPolicy))
    (hfeeds : ∀ snapshot, resolver.snapshot core.groupId core.membershipRevision = some snapshot →
      resolver.OneFeedPerKey snapshot) : let state := ingestAll options earlier (fresh options)
    let state' := ingestAll options (earlier ++ later) (fresh options)
    ∀ T, (state.control.watermark watermarkPolicy (some core.membershipRevision)).cutoffMs =
        some T →
      ∀ id candidate candidateCore, state'.control.getCandidate id = some candidate →
        candidate.state = .admissible → state'.candidateCores.get? id = some candidateCore →
        candidateCore.validationPolicy = core.validationPolicy →
        candidateCore.membershipRevision = core.membershipRevision →
        candidateCore.authorTimestampMs ≤ T →
          (state.control.getCandidate id).isSome ∨
          ∃ stored, state.control.attestations.get? stored.attestationId = some stored ∧
            stored.txId = id ∧ ∀ txId policy revision evidence,
              state.control.settlementEvidence txId policy revision = .ok evidence →
                stored.attestationId ∈ evidence.unresolvedAttestationIds := by
  intro state state' T hT id candidate candidateCore hget hadmissible hcore hpolicyId hrevision hle
  obtain ⟨record, core', read, hread, rfl, -, l, hl, snapshot, effective, hsnapshot, heffective,
    hsat⟩ := h.reflects.admittedBy rfl ((h.reflects.ordered_iff id).2 ⟨candidate, hget, hadmissible⟩)
  obtain rfl : core' = candidateCore :=
    some.inj ((h.reflects.candidate_stored record core' read hread).1.symm.trans hcore)
  rw [hrevision] at hsnapshot
  rw [hpolicyId] at heffective
  -- The watermark is one of the snapshot under which the candidate was admitted.
  have hsnapshot' : resolver.snapshot core.groupId core.membershipRevision = some snapshot := by
    cases hcase : resolver.snapshot core.groupId core.membershipRevision with
    | none => simp [CapabilityMembershipResolver.watermarkPolicy, hcase] at hpolicy
    | some snapshot' =>
      rw [snapshot_unique hsnapshot hcase]
  obtain ⟨S, hS, hattested⟩ := exists_isProof hsat
  obtain ⟨c, hc, hpassed⟩ := hasPassed_of_watermark hsnapshot' heffective hpolicy hT hS
  obtain ⟨attestation, hattestation, hcapability, -⟩ := hattested c hc
  obtain ⟨hvalid, record', value, happlied, rfl⟩ := hl attestation hattestation
  have hknown := h.proofValid_applied horder hbackdating (hrevision ▸ hsnapshot)
    (hfeeds _ hsnapshot') (hS.active c hc) (hrevision ▸ hpassed) hle happlied hvalid hcapability
  simp only [proofValid, Bool.and_eq_true, decide_eq_true_eq]
    at hvalid
  have htx := hvalid.1.1.1.1.1.1.1
  have hstored : state.control.attestations.get? (value.stored record').attestationId =
      some (value.stored record') :=
    (h.of_append.reflects.attestation_iff _).2 ⟨record', value, hknown, rfl⟩
  by_cases hcandidate : (state.control.getCandidate read.txId).isSome
  · exact .inl hcandidate
  · refine .inr ⟨value.stored record', hstored, htx, fun txId policy revision evidence hevidence =>
      ControlStore.mem_unresolvedAttestationIds hstored ?_ hevidence⟩
    rw [htx]
    exact not_isSome_iff_eq_none.1 hcandidate

end Settlement

/-! ## Samples -/

namespace OtherFeed

open TwoValidators (capability genesis resolverOf)
open SmallGroup (Message options core attestation)

section Checks

variable {options : ChronologNodeOptions} {deliveries : List Delivery}

/-- The cutoff of a heartbeat. -/
def cutoff? : Except IngestError IngestMessage → Option Int
  | .ok (.heartbeat value) => some value.acceptanceCutoffMs
  | _ => none

/-- The timestamp of an attestation. -/
def timestamp? : Except IngestError IngestMessage → Option Int
  | .ok (.attestation value) => some value.authorTimestampMs
  | _ => none

theorem inFeedOrder_of_pairwise (h : deliveries.Pairwise fun delivery delivery' =>
      delivery'.record.author = delivery.record.author →
        delivery.record.sequence ≤ delivery'.record.sequence) : InFeedOrder options deliveries := by
  rintro before delivery after rfl delivery' hmem hauthor hlt
  have hafter := (pairwise_cons.1 (pairwise_append.1 h).2.1).1 delivery' hmem hauthor
  omega

theorem noBackdating_of_forall (h : ∀ delivery ∈ deliveries, ∀ delivery' ∈ deliveries,
      delivery'.record.author = delivery.record.author →
      delivery.record.sequence < delivery'.record.sequence →
      ∀ F ∈ cutoff? (readRecord options delivery.env delivery.record),
      ∀ t ∈ timestamp? (readRecord options delivery'.env delivery'.record), F < t) :
    NoBackdating (appliedIn options deliveries) := by
  rintro _ value ⟨before, delivery, after, hsplit, rfl, happlies⟩ _ value'
    ⟨before', delivery', after', hsplit', rfl, happlies'⟩ hauthor hle hlt
  have hF := h delivery (by simp [hsplit]) delivery' (by simp [hsplit']) hauthor hlt
    value.acceptanceCutoffMs (by rw [happlies.read]; rfl) value'.authorTimestampMs
    (by rw [happlies'.read]; rfl)
  omega

end Checks

/-- A group in which the validator with the given key, which is no bank, publishes
    in a feed of its own. -/
def group (key : Bytes) : CapabilitySnapshot :=
  genesis [capability [10] [3] "w" .writer none, capability [11] [1] "x" .validator (some "bank"),
    capability [12] key "y" .validator none] ⟨1, 1, .ofList [("bank", 1)], []⟩

abbrev resolver (key : Bytes) : CapabilityMembershipResolver := resolverOf (group key)

/-- A transaction, the bank's attestation, and a heartbeat of each capability. -/
def messages : List (UInt8 × Message) :=
  [(1, .candidate (core 10)), (2, .attestation (attestation "t" [1] 10)),
    (3, .heartbeat ⟨[0], [9], [11], [1], 50⟩), (4, .heartbeat ⟨[0], [9], [12], [1], 50⟩)]

/-- What the node of a group finds around it: the transport has the feeds. -/
def env (group : CapabilitySnapshot) : NodeEnv :=
  { TwoValidators.env (resolverOf group) with
    feedStates := .ok [⟨"w", "1"⟩, ⟨"x", "2"⟩, ⟨"y", "1"⟩] }

/-- The delivery of a message in a feed of a group. -/
def deliver (group : CapabilitySnapshot) (id author : String) (sequence : Int)
    (previous : Option String) (code : UInt8) : Delivery :=
  ⟨env group, id, author, sequence, previous, some 0, [code]⟩

abbrev delivery (key : Bytes) := deliver (group key)

/-- What the envelopes open to. -/
def opens (messages : List (UInt8 × Message)) (record : TransportRecord) : SignedWireMessage :=
  match decodeSignedEnvelope (SmallGroup.codec messages) record.payload [0] none none with
  | .ok wire => wire
  | .error _ => ⟨.candidate, [], [], []⟩

abbrev opened := opens messages

theorem supplied {messages : List (UInt8 × Message)} {group : CapabilitySnapshot}
    {deliveries : List Delivery} (henv : ∀ delivery ∈ deliveries, delivery.env = env group)
    (hids : ∀ delivery ∈ deliveries, ∀ delivery' ∈ deliveries,
      delivery.record.id = delivery'.record.id →
        delivery.record.unstamped = delivery'.record.unstamped) :
    Supplied (options messages [8]) (resolverOf group) (opens messages) deliveries where
  membership delivery hdelivery := by
    rw [henv delivery hdelivery]
    rfl
  identified := hids
  opened delivery hdelivery wire hwire := by
    rw [henv delivery hdelivery] at hwire
    have hopen : decodeSignedEnvelope (SmallGroup.codec messages)
      delivery.record.unstamped.payload [0] none none = .ok wire := hwire
    rw [opens, hopen]

/-- The second validator's heartbeat. -/
def earlier : List Delivery := [delivery [1] "h" "y" 1 none 4]

/-- The transaction and its attestation. -/
def later : List Delivery := [delivery [1] "t" "w" 1 none 1, delivery [1] "a" "x" 1 none 2]

/-- With the bank's key the second validator's heartbeat counts for the bank. The transaction below
    its cutoff is admitted later, and nothing of it is known when the watermark is established. -/
theorem admissible_unknown :
    Supplied (options messages [8]) (resolver [1]) opened (earlier ++ later) ∧
    InFeedOrder (options messages [8]) (earlier ++ later) ∧
    NoBackdating (appliedIn (options messages [8]) (earlier ++ later)) ∧
    (resolver [1]).watermarkPolicy (core 10) = .ok (some (.proofAlternatives [5] [[[1]]])) ∧
    let state := ingestAll (options messages [8]) earlier (fresh (options messages [8]))
    let state' := ingestAll (options messages [8]) (earlier ++ later)
      (fresh (options messages [8]))
    (state.control.watermark (.proofAlternatives [5] [[[1]]]) (some [9])).cutoffMs = some 50 ∧
    ((state'.control.getCandidate (utf8 "t")).map (·.state)) = some .admissible ∧
    (state'.candidateCores.get? (utf8 "t")).map (fun core =>
      (core.validationPolicy, core.membershipRevision, core.authorTimestampMs)) =
        some ([5], [9], 10) ∧
    state.control.getCandidate (utf8 "t") = none ∧
    state.control.attestations.values = [] := by
  refine ⟨supplied ?_ ?_, inFeedOrder_of_pairwise ?_, noBackdating_of_forall ?_, rfl, ?_, ?_, ?_,
    ?_, ?_⟩
  · intro delivery hdelivery
    simp only [earlier, later, cons_append, nil_append, mem_cons, not_mem_nil,
      or_false] at hdelivery
    rcases hdelivery with rfl | rfl | rfl <;> rfl
  all_goals decide

/-- The bank admits a transaction that comes after its attestation. -/
theorem admittedBy_bank : AdmittedBy (resolver [2]) (appliedIn (options messages [8])
    [delivery [2] "a" "x" 1 none 2, delivery [2] "t" "w" 1 none 1]) (utf8 "t") := by
  refine (Supplied.mem_orderedTransactionIds_iff (supplied (by simp [deliver]) (by decide))
    fun revision snapshot h => ?_).1 (by decide +kernel)
  cases (ite_none_right_eq_some.1 h).2
  decide

/-- With a key of its own it does not, and the bank's heartbeat comes after its
    attestation, which is reported as unresolved. -/
theorem admissible_known :
    let earlier := [delivery [2] "a" "x" 1 none 2, delivery [2] "h" "x" 2 (some "a") 3]
    let state := ingestAll (options messages [8]) earlier
      (fresh (options messages [8]))
    (state.control.getCandidate (utf8 "t")).isSome ∨
      ∃ stored, state.control.attestations.get? stored.attestationId = some stored ∧
        stored.txId = utf8 "t" ∧ ∀ txId policy revision evidence,
          state.control.settlementEvidence txId policy revision = .ok evidence →
            stored.attestationId ∈ evidence.unresolvedAttestationIds := by
  intro earlier state
  have hsupplied : Supplied (options messages [8]) (resolver [2]) opened
      (earlier ++ [delivery [2] "t" "w" 1 none 1]) := by
    refine supplied (fun delivery hdelivery => ?_) (by decide)
    simp only [earlier, cons_append, nil_append, mem_cons, not_mem_nil,
      or_false] at hdelivery
    rcases hdelivery with rfl | rfl | rfl <;> rfl
  have hfeeds : ∀ snapshot, (resolver [2]).snapshot (core 10).groupId (core 10).membershipRevision =
      some snapshot → (resolver [2]).OneFeedPerKey snapshot := by
    intro snapshot hsnapshot
    cases hsnapshot
    decide
  obtain ⟨candidate, hget, hadmissible⟩ : ∃ candidate, (ingestAll
      (options messages [8]) (earlier ++ [delivery [2] "t" "w" 1 none 1])
      (fresh (options messages [8]))).control.getCandidate (utf8 "t") =
        some candidate ∧ candidate.state = .admissible :=
    map_eq_some_iff.1 rfl
  obtain ⟨candidateCore, hcore, hfields⟩ : ∃ candidateCore, (ingestAll
      (options messages [8]) (earlier ++ [delivery [2] "t" "w" 1 none 1])
      (fresh (options messages [8]))).candidateCores.get? (utf8 "t") =
        some candidateCore ∧ (candidateCore.validationPolicy, candidateCore.membershipRevision,
          candidateCore.authorTimestampMs) = ([5], [9], 10) :=
    map_eq_some_iff.1 rfl
  simp only [Prod.mk.injEq] at hfields
  obtain ⟨hpolicy, hrevision, htimestamp⟩ := hfields
  exact @admissible_known_of_watermark (options messages [8]) (resolver [2]) opened earlier
    [delivery [2] "t" "w" 1 none 1] hsupplied
    (inFeedOrder_of_pairwise (by decide +kernel)) (noBackdating_of_forall (by decide +kernel))
    (core 10) (.proofAlternatives [5] [[[1]]]) rfl hfeeds 50 rfl (utf8 "t")
    candidate candidateCore hget hadmissible hcore hpolicy hrevision (by omega)

end OtherFeed

end Chronolog
