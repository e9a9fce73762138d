import Chronolog.ControlStore.Frames
import Chronolog.NodeCore.Convergence

/-!
# Redelivery

A record whose chunks or key are not available when it is first delivered cannot
be read, and is remembered as seen: delivering it again does nothing. A run that
delivers it early and again later is compared with one that delivers it only
then. Up to the last delivery the runs differ in the books alone (`Ahead`), so
they end alike just if that delivery changes nothing
(`redelivery_control_eq_iff`).
-/

namespace Chronolog

open Procedure ChronologNode NodeM List

/-! ## A record that cannot be read yet -/

/-- A chunk of the payload or the key of its epoch is not available. -/
def Unavailable (options : ChronologNodeOptions) (env : NodeEnv) (record : TransportRecord) :
    Prop :=
  ∃ envelope, options.codec.decodeEnvelope record.payload = .ok envelope ∧
    envelope.messageType ∈ [.candidate, .attestation, .heartbeat] ∧
    ((∃ manifest store, envelope.payload = .manifest manifest ∧ env.blobStore = some store ∧
      ∃ chunk ∈ manifest.chunks, ∀ value, store chunk.digest ≠ .ok (some value)) ∨
    ∃ epoch cipher, envelope.encryptionEpoch = some epoch ∧ env.envelopeCipher = some cipher ∧
      cipher.resolve epoch = none)

theorem fetchChunks_ne_ok {store : ContentAddressedBlobStore} {chunks : List PayloadChunk}
    {chunk : PayloadChunk} (hmem : chunk ∈ chunks)
    (hmissing : ∀ value, store chunk.digest ≠ .ok (some value)) (values : List Bytes) :
    fetchChunks store chunks ≠ .ok values := by
  induction chunks generalizing values with
  | nil => cases hmem
  | cons first chunks ih =>
    intro h
    obtain ⟨found, hfound, h⟩ := bind_eq_ok_iff.1 h
    cases found with
    | none => cases h
    | some value =>
      obtain ⟨rest, hrest, -⟩ := bind_eq_ok_iff.1 h
      rcases mem_cons.1 hmem with rfl | hmem
      · exact hmissing value hfound
      · exact ih hmem rest hrest

section Unavailable

variable {options : ChronologNodeOptions} {env : NodeEnv} {record : TransportRecord}

theorem Unavailable.decodeSignedEnvelope_ne_ok (h : Unavailable options env record)
    (wire : SignedWireMessage) : decodeSignedEnvelope options.codec record.payload
      (groupRoute options) env.envelopeCipher env.blobStore ≠ .ok wire := by
  intro hok
  obtain ⟨envelope, hdecode, -, hunavailable⟩ := h
  obtain ⟨envelope', hdecode', hok⟩ := bind_eq_ok_iff.1 hok
  cases hdecode.symm.trans hdecode'
  by_cases hroute : envelope.groupRoute ≠ groupRoute options
  · rw [if_pos hroute] at hok
    cases hok
  rw [if_neg hroute] at hok
  obtain ⟨payloadBytes, hpayload, hok⟩ := bind_eq_ok_iff.1 hok
  rcases hunavailable with ⟨manifest, store, hmanifest, hstore, chunk, hchunk, hmissing⟩ |
    ⟨epoch, cipher, hepoch, hcipher, hnone⟩
  · rw [resolvePayload, hmanifest, hstore] at hpayload
    dsimp only at hpayload
    rw [loadEnvelopePayload] at hpayload
    by_cases hlimit : 16 * 1024 * 1024 < manifest.totalSize
    · rw [if_pos hlimit] at hpayload
      cases hpayload
    · rw [if_neg hlimit] at hpayload
      obtain ⟨values, hvalues, -⟩ := bind_eq_ok_iff.1 hpayload
      exact fetchChunks_ne_ok hchunk hmissing values hvalues
  · by_cases hdigest : options.codec.hashDomain .envelope payloadBytes ≠ envelope.payloadDigest
    · rw [if_pos hdigest] at hok
      cases hok
    rw [if_neg hdigest] at hok
    obtain ⟨wireBytes, hdecrypt, -⟩ := bind_eq_ok_iff.1 hok
    simp only [decryptPayload, hepoch, hcipher, hnone] at hdecrypt
    cases hdecrypt

/-- The record is refused for good. -/
theorem Unavailable.readRecord_eq (h : Unavailable options env record) :
    readRecord options env record = .error (.terminal "INVALID_SIGNED_ENVELOPE") := by
  obtain ⟨envelope, hdecode, htype, -⟩ := id h
  have hfailed : decodeRecord options env record =
      .error (.terminal "INVALID_SIGNED_ENVELOPE") := by
    rw [decodeRecord]
    cases hwire : decodeSignedEnvelope options.codec record.payload
        (groupRoute options) env.envelopeCipher env.blobStore with
    | ok wire => exact absurd hwire (h.decodeSignedEnvelope_ne_ok wire)
    | error message => rfl
  have hown : ¬ (envelope.messageType ≠ .candidate ∧ envelope.messageType ≠ .attestation ∧
      envelope.messageType ≠ .heartbeat) := by
    simpa [imp_iff_not_or] using htype
  simp only [readRecord, hdecode, consult, bind, Except.bind]
  rw [if_neg hown, hfailed]

end Unavailable

/-! ## Registries that differ in a record -/

/-- The records are not at odds: the feed does not fork at the one or the other. -/
def Fits (record other : TransportRecord) : Prop :=
  other.author = record.author → other.sequence ≠ record.sequence ∧
    (other.sequence = record.sequence + 1 → other.previous = some record.id) ∧
    (record.sequence = other.sequence + 1 → record.previous = some other.id)

instance (record other : TransportRecord) : Decidable (Fits record other) :=
  inferInstanceAs (Decidable (_ → _))

namespace FeedForkRegistry

variable {record other : TransportRecord} {registry registry' : FeedForkRegistry}

theorem Also.conflict_eq (h : Also record registry' registry) (hfits : Fits record other) :
    conflict (registry'.feed other.author) other = conflict (registry.feed other.author) other := by
  by_cases hauthor : other.author = record.author
  · obtain ⟨hsequence, hnext, hbefore⟩ := hfits hauthor
    have hfeed : ∀ sequence, (registry'.feed other.author).get? sequence =
        if sequence = record.sequence then some ⟨record.id, record.previous⟩
        else (registry.feed other.author).get? sequence := by
      intro sequence
      rw [h.feed, hauthor]
      simp only [true_and]
    have hentry : ∀ entry, (registry.feed other.author).get? record.sequence = some entry →
        entry = ⟨record.id, record.previous⟩ := by
      rw [hauthor]
      exact h.entry
    have hsuccessor : conflict.successorConflict (registry'.feed other.author) other =
        conflict.successorConflict (registry.feed other.author) other := by
      unfold conflict.successorConflict
      rw [hfeed]
      split_ifs with hseq
      · dsimp only
        rw [if_neg (not_not.2 (hbefore hseq.symm)), hseq]
        cases hget : (registry.feed other.author).get? record.sequence with
        | none => rfl
        | some entry =>
          obtain rfl := hentry entry hget
          exact (if_neg (not_not.2 (hbefore hseq.symm))).symm
      · rfl
    unfold conflict
    rw [hfeed, if_neg hsequence, hfeed, hsuccessor]
    split_ifs with hseq
    · have hprevious := hnext (by omega)
      cases (registry.feed other.author).get? other.sequence with
      | some entry => rfl
      | none =>
        dsimp only
        rw [if_neg (not_not.2 hprevious), hseq]
        cases hget : (registry.feed other.author).get? record.sequence with
        | none => rfl
        | some entry =>
          obtain rfl := hentry entry hget
          exact (if_neg (not_not.2 hprevious)).symm
    · rfl
  · have hfeed : ∀ sequence, (registry'.feed other.author).get? sequence =
        (registry.feed other.author).get? sequence := by
      intro sequence
      rw [h.feed, if_neg fun hand => hauthor hand.1]
    unfold conflict conflict.successorConflict
    simp only [hfeed]

theorem has_put_congr {quarantines' quarantines : KeyedMap FeedForkEvidence.feedId}
    (h : ∀ author, quarantines'.has author = quarantines.has author) {evidence : FeedForkEvidence}
    (author : String) : (quarantines'.put evidence).has author =
      (quarantines.put evidence).has author := by
  have hget : ∀ m : KeyedMap FeedForkEvidence.feedId, m.has author = (m.get? author).isSome :=
    fun _ => rfl
  have hsame := h author
  rw [hget, hget]
  rw [KeyedMap.get?_put, KeyedMap.get?_put]
  split_ifs
  · rfl
  · exact hsame

theorem Also.withFeed (h : Also record registry' registry) {author : String}
    {feed' feed : OrdMap Int FeedEntry} (hfeed : ∀ sequence, feed'.get? sequence =
      if author = record.author ∧ sequence = record.sequence then
        some ⟨record.id, record.previous⟩ else feed.get? sequence)
    (hentry : author = record.author → ∀ entry, feed.get? record.sequence = some entry →
      entry = ⟨record.id, record.previous⟩) :
    Also record { registry' with feeds := registry'.feeds.set author feed' }
      { registry with feeds := registry.feeds.set author feed } where
  feed author' sequence := by
    rw [feed_set, feed_set]
    split_ifs with h₁ h₂ h₂
    · rw [hfeed, if_pos (h₁ ▸ h₂)]
    · rw [hfeed, if_neg fun hand => h₂ ⟨h₁.trans hand.1, hand.2⟩]
    · rw [h.feed, if_pos h₂]
    · rw [h.feed, if_neg h₂]
  entry entry := by
    rw [feed_set]
    split_ifs with heq
    · exact hentry heq.symm entry
    · exact h.entry entry
  quarantines := h.quarantines
  discardedRecordIds := h.discardedRecordIds

/-- Another record that fits is treated alike. -/
theorem Also.observe (h : Also record registry' registry) (hfits : Fits record other) :
    (∃ continuity next' next, observe other registry' = .ok continuity next' ∧
      observe other registry = .ok continuity next ∧ Also record next' next) ∨
    ∃ message next' next, observe other registry' = .error message next' ∧
      observe other registry = .error message next ∧ Also record next' next := by
  cases hvalid : validateRecord other with
  | error message =>
    exact .inr ⟨message, _, _, observe_of_invalid hvalid, observe_of_invalid hvalid, h⟩
  | ok u =>
    simp only [FeedForkRegistry.observe, hvalid]
    have hdiscarded : other.id ∈ registry'.discardedRecordIds ↔
        other.id ∈ registry.discardedRecordIds := by rw [h.discardedRecordIds]
    rw [bind_get_run, bind_get_run, if_congr hdiscarded rfl rfl,
      if_congr (Iff.of_eq (congrArg (· = true) (h.quarantines other.author))) rfl rfl,
      h.conflict_eq hfits]
    by_cases hmem : other.id ∈ registry.discardedRecordIds
    · rw [if_pos hmem, if_pos hmem]
      exact .inl ⟨_, _, _, rfl, rfl, h⟩
    rw [if_neg hmem, if_neg hmem]
    by_cases hquarantined : registry.quarantines.has other.author = true
    · rw [if_pos hquarantined, if_pos hquarantined]
      exact .inl ⟨_, _, _, rfl, rfl, h⟩
    rw [if_neg hquarantined, if_neg hquarantined, bind_set_run]
    have hfeeds : Also record
        { registry' with feeds := registry'.feeds.set other.author (registry'.feed other.author) }
        { registry with feeds := registry.feeds.set other.author (registry.feed other.author) } :=
      h.withFeed (h.feed _) fun heq => heq ▸ h.entry
    cases hconflict : conflict (registry.feed other.author) other with
    | some acceptedId =>
      simp only [quarantine]
      split_ifs
      · exact .inr ⟨_, _, _, rfl, rfl, hfeeds⟩
      · refine .inl ⟨_, _, _, rfl, rfl, hfeeds.feed, hfeeds.entry, fun author => ?_,
          hfeeds.discardedRecordIds⟩
        exact has_put_congr hfeeds.quarantines author
    | none =>
      have hsome : ((registry'.feed other.author).get? other.sequence).isSome =
          ((registry.feed other.author).get? other.sequence).isSome := by
        rw [h.feed, if_neg fun hand => (hfits hand.1).1 hand.2]
      rw [hsome]
      split_ifs
      · exact .inl ⟨_, _, _, rfl, rfl, hfeeds⟩
      · refine .inl ⟨_, _, _, rfl, rfl, h.withFeed (fun sequence => ?_) fun heq entry hentry => ?_⟩
        · rw [OrdMap.get?_set, OrdMap.get?_set, h.feed]
          split_ifs with h₁ h₂ h₂
          · exact absurd (h₁.symm.trans h₂.2) (hfits h₂.1).1
          · rfl
          · rfl
          · rfl
        · rw [OrdMap.get?_set_of_ne fun hseq => (hfits heq).1 hseq.symm, heq] at hentry
          exact h.entry entry hentry

end FeedForkRegistry

/-! ## Runs that differ in a record -/

/-- One state has seen and registered a record that the other may lack; what is
    stored is the same. -/
structure Ahead (record : TransportRecord) (state' state : NodeState) : Prop where
  stores : SameStores state' state
  seen : state'.seen = insert record.id state.seen
  feedForks : FeedForkRegistry.Also record state'.feedForks state.feedForks

theorem SameStores.eq_withBooks {state' state : NodeState} (h : SameStores state' state) :
    state' = state'.withBooks state := by
  obtain ⟨control, seen, retryRecords, retryOverflow, candidateCores, feedForks, acceptedAboveMs,
    materializationPending, lastError, ingestionError, published⟩ := state'
  obtain ⟨rfl, rfl, rfl, rfl, rfl⟩ := h
  rfl

section Ahead

variable {options : ChronologNodeOptions} {env : NodeEnv} {record other : TransportRecord}
  {state state' : NodeState}

/-- The results are alike, but for the books. -/
def SameResult (result' result : EStateM.Result IngestError NodeState Unit) : Prop :=
  match result', result with
  | .ok _ state', .ok _ state => SameStores state' state
  | .error error' state', .error error state => error' = error ∧ SameStores state' state
  | _, _ => False

theorem SameResult.stores {result' result : EStateM.Result IngestError NodeState Unit}
    (h : SameResult result' result) : SameStores (finalState result') (finalState result) := by
  cases result' <;> cases result
  · exact h
  · cases h
  · cases h
  · exact h.2

theorem sameResult_applyRecord (h : SameStores state' state) (message : IngestMessage) :
    SameResult (applyRecord options env other message state')
      (applyRecord options env other message state) := by
  have hcommutes : applyMessage options env other message state' =
      mapState (state'.withBooks) (applyMessage options env other message state) := by
    rw [← commutes_applyMessage message state, ← h.eq_withBooks]
  rw [applyRecord]
  cases happly : applyMessage options env other message state with
  | ok u applied =>
    rw [happly] at hcommutes
    rw [bind_run_of_ok happly, bind_run_of_ok hcommutes, bind_modify_run, bind_modify_run,
      modify_run, modify_run]
    split_ifs <;> exact ⟨rfl, rfl, rfl, rfl, rfl⟩
  | error error applied =>
    rw [happly] at hcommutes
    rw [bind_run_of_error happly, bind_run_of_error hcommutes]
    exact ⟨rfl, rfl, rfl, rfl, rfl, rfl⟩

/-- Another record that fits is ingested alike. -/
theorem Ahead.sameResult (h : Ahead record state' state) (hfits : Fits record other) :
    SameResult (ingestRecord options env other state') (ingestRecord options env other state) := by
  simp only [ingestRecord]
  rcases h.feedForks.observe hfits with ⟨continuity, next', next, hobserve', hobserve, -⟩ |
    ⟨message, next', next, hobserve', hobserve, -⟩
  · rw [bind_run_of_ok (feedForks_of_ok hobserve'),
      bind_run_of_ok (feedForks_of_ok hobserve)]
    have hstores : SameStores { state' with feedForks := next' } { state with feedForks := next } :=
      { h.stores with }
    cases continuity with
    | discarded | quarantined => exact { hstores with }
    | accepted | duplicate =>
      cases readRecord options env other with
      | error error => exact ⟨rfl, hstores⟩
      | ok message =>
        cases message with
        | ignored => exact { hstores with }
        | candidate core read => exact sameResult_applyRecord hstores _
        | attestation value => exact sameResult_applyRecord hstores _
        | heartbeat value => exact sameResult_applyRecord hstores _
  · rw [bind_run_of_error (feedForks_of_error hobserve'),
      bind_run_of_error (feedForks_of_error hobserve)]
    exact ⟨rfl, { h.stores with }⟩

theorem Ahead.ingest (h : Ahead record state' state) (hid : other.id ≠ record.id)
    (hfits : Fits record other) : Ahead record (ingest options env other state')
      (ingest options env other state) := by
  by_cases hseen : other.id ∈ state.seen
  · have hseen' : other.id ∈ state'.seen := by
      rw [h.seen]
      exact Finset.mem_insert_of_mem hseen
    rw [ChronologNode.ingest, if_pos hseen', ChronologNode.ingest, if_pos hseen]
    exact h
  have hseen' : other.id ∉ state'.seen := by
    rw [h.seen, Finset.mem_insert, not_or]
    exact ⟨hid, hseen⟩
  have hresult : SameResult (ingestRecord options env other state')
    (ingestRecord options env other state) := h.sameResult hfits
  refine ⟨(sameStores_ingest hseen').trans (.trans ?_ (sameStores_ingest hseen).symm), ?_, ?_⟩
  · exact hresult.stores
  · rw [seen_ingest hseen', seen_ingest hseen, h.seen]
    cases hrun' : ingestRecord options env other state' with
    | ok u final' =>
      cases hrun : ingestRecord options env other state with
      | ok u final => exact Finset.insert_comm _ _ _
      | error error final =>
        rw [hrun', hrun] at hresult
        exact hresult.elim
    | error error' final' =>
      cases hrun : ingestRecord options env other state with
      | ok u final =>
        rw [hrun', hrun] at hresult
        exact hresult.elim
      | error error final =>
        rw [hrun', hrun] at hresult
        obtain ⟨rfl, -⟩ := hresult
        cases error' with
        | other message => rfl
        | terminal code => exact Finset.insert_comm _ _ _
        | conflict error => exact Finset.insert_comm _ _ _
  · rw [feedForks_ingest hseen', feedForks_ingest hseen]
    rcases h.feedForks.observe hfits with ⟨_, _, _, hobserve', hobserve, halso⟩ |
      ⟨_, _, _, hobserve', hobserve, halso⟩
    all_goals
      rw [hobserve', hobserve]
      exact halso

/-- A record that cannot be read when it is first delivered is seen, and nothing else. -/
theorem ahead_of_unavailable (hseen : record.id ∉ state.seen) (haccepts : Accepts state record)
    (hunavailable : Unavailable options env record) :
    Ahead record (ingest options env record state) state := by
  obtain ⟨continuity, forks, hobserve, haccepts⟩ := haccepts
  rw [ingest, if_neg hseen, ingestRecord_of_continues hobserve haccepts, hunavailable.readRecord_eq]
  exact ⟨⟨rfl, rfl, rfl, rfl, rfl⟩, rfl, FeedForkRegistry.also_of_observe hobserve haccepts⟩

/-- Once it is ahead, a run stays so, whether or not it is delivered the record. -/
theorem Ahead.ingestAll {deliveries : List Delivery} (h : Ahead record state' state)
    (hfits : ∀ delivery ∈ deliveries, delivery.record.id ≠ record.id →
      Fits record delivery.record) : Ahead record (ingestAll options deliveries state')
      (ingestAll options
        (deliveries.filter fun delivery => delivery.record.id ≠ record.id) state) := by
  induction deliveries generalizing state' state with
  | nil => exact h
  | cons delivery deliveries ih =>
    have hrest : ∀ d ∈ deliveries, d.record.id ≠ record.id → Fits record d.record :=
      fun d hd => hfits d (mem_cons_of_mem _ hd)
    by_cases hid : delivery.record.id = record.id
    · have hseen : delivery.record.id ∈ state'.seen := by
        rw [h.seen, hid]
        exact Finset.mem_insert_self _ _
      have hingest : ChronologNode.ingest options delivery.env delivery.record state' = state' := by
        rw [ChronologNode.ingest, if_pos hseen]
      rw [filter_cons_of_neg (by simpa using hid), ingestAll, foldl_cons,
        hingest]
      exact ih h hrest
    · rw [filter_cons_of_pos (by simpa using hid), ingestAll, foldl_cons]
      exact ih (h.ingest hid (hfits delivery mem_cons_self hid)) hrest

end Ahead

/-! ## What is stored under an id -/

/-- Are a candidate and an attestation stored under the id? The node's cutoff is kept. -/
structure Holds (options : ChronologNodeOptions) (id : Bytes) (candidate attestation : Bool)
    (state : NodeState) : Prop where
  candidate : (state.control.candidates.get? id).isSome = candidate
  attestation : (state.control.attestations.get? id).isSome = attestation
  cutoff : CutoffKept options state

section Holds

variable {options : ChronologNodeOptions} {env : NodeEnv} {record : TransportRecord} {id : Bytes}
  {candidate attestation : Bool}

theorem holds_fresh : Holds options id false false (fresh options) :=
  ⟨rfl, rfl, fun _ h => absurd h (by simp [fresh])⟩

/-- A procedure on the control store that leaves the cutoffs. -/
theorem keeps_holds_control {α : Type} {p : ControlStoreM α}
    (hp : ∀ cutoffs, Keeps (ControlStore.Traces id candidate attestation cutoffs) p) :
    Keeps (Holds options id candidate attestation) (control p) := by
  refine keeps_control fun state h => ?_
  have htraces := hp _ state.control ⟨h.candidate, h.attestation, rfl⟩
  refine ⟨htraces.candidate, htraces.attestation, fun cutoff hcutoff => ?_⟩
  rw [htraces.cutoffs] at hcutoff
  exact h.cutoff cutoff hcutoff

theorem keeps_holds_recordHeartbeat (heartbeat : StoredHeartbeat) :
    Keeps (Holds options id candidate attestation)
      (control (ControlStore.recordHeartbeat heartbeat)) := by
  refine keeps_control fun state h => ?_
  rcases state.control.recordHeartbeat_spec heartbeat with ⟨hfinal, -⟩ | ⟨hcontent, -⟩
  · rw [hfinal]
    exact h
  · refine ⟨?_, ?_, fun cutoff hcutoff => h.cutoff cutoff ?_⟩
    · rw [hcontent.candidates]
      exact h.candidate
    · rw [hcontent.attestations]
      exact h.attestation
    · rw [hcontent.validatorCutoffs] at hcutoff
      exact hcutoff

theorem undisturbed_holds : Undisturbed options (Holds options id candidate attestation) where
  order _ _ _ _ := keeps_holds_control fun _ => ControlStore.keeps_traces_setCandidateState _ _ _ _
  cutoff state h := by
    obtain ⟨cutoffs, hpersist, hkept⟩ := persistValidatorCutoff_ok h.cutoff
    rw [hpersist]
    exact ⟨h.candidate, h.attestation, hkept⟩
  advance _ _ hle h := ⟨h.candidate, h.attestation, fun c hc => (h.cutoff c hc).trans hle⟩
  other _ _ _ _ h := { h with }

/-- Other records leave what is stored under the id alone. -/
theorem keeps_holds_applyMessage {message : IngestMessage}
    (hread : readRecord options env record = .ok message)
    (hid : id ≠ utf8 record.id) : Keeps (Holds options id candidate attestation)
      (applyMessage options env record message) := by
  cases message with
  | ignored => exact keeps_pure _
  | candidate core read =>
    have htx : id ≠ read.txId := by
      rw [(isRead_of_readRecord hread).txId]
      exact hid
    exact undisturbed_holds.ingestCandidate
      (keeps_holds_control fun _ => ControlStore.keeps_traces_putCandidate htx)
  | attestation value =>
    exact undisturbed_holds.ingestAttestation
      (keeps_holds_control fun _ => ControlStore.keeps_traces_putAttestation hid)
  | heartbeat value =>
    exact (undisturbed_holds.followCutoff _ _).bind fun _ => (keeps_ask _).bind fun _ =>
      (keeps_holds_recordHeartbeat _).bind fun _ => keeps_pure _

theorem Holds.of_sameStores {state state' : NodeState}
    (h : Holds options id candidate attestation state) (hsame : SameStores state' state) :
    Holds options id candidate attestation state' := by
  refine ⟨?_, ?_, fun cutoff hcutoff => ?_⟩
  · rw [hsame.control]
    exact h.candidate
  · rw [hsame.control]
    exact h.attestation
  · rw [hsame.control] at hcutoff
    rw [hsame.acceptedAboveMs]
    exact h.cutoff cutoff hcutoff

theorem Holds.ingest {state : NodeState} (h : Holds options id candidate attestation state)
    (hid : id ≠ utf8 record.id) :
    Holds options id candidate attestation (ingest options env record state) := by
  by_cases hseen : record.id ∈ state.seen
  · rw [ChronologNode.ingest, if_pos hseen]
    exact h
  by_cases haccepts : Accepts state record
  · obtain ⟨continuity, forks, hobserve, haccepts⟩ := haccepts
    refine Holds.of_sameStores ?_
      ((sameStores_ingest hseen).trans (ingestRecord_of_accepts hobserve haccepts))
    have hforks : Holds options id candidate attestation { state with feedForks := forks } :=
      h.of_sameStores ⟨rfl, rfl, rfl, rfl, rfl⟩
    cases hread : readRecord options env record with
    | ok message => exact keeps_holds_applyMessage hread hid _ hforks
    | error error => exact hforks
  · exact h.of_sameStores ((sameStores_ingest hseen).trans (ingestRecord_of_not_accepts haccepts))

end Holds

/-! ## What a delivery changes -/

/-- No heartbeat of its validator is recorded that the heartbeat does not follow. -/
def ControlStore.Supersedes (store : ControlStore) (heartbeat : StoredHeartbeat) : Prop :=
  ∀ previous, store.heartbeats.get? heartbeat.heartbeatKey = some previous →
    previous.validatorFeedSequence < heartbeat.validatorFeedSequence ∧
    previous.acceptanceCutoffMs ≤ heartbeat.acceptanceCutoffMs

/-- The heartbeat is one of the node itself that raises its cutoff. -/
def RaisesCutoff (options : ChronologNodeOptions) (value : ValidatorHeartbeat)
    (state : NodeState) : Prop :=
  options.validator.isSome ∧ value.validatorId = options.identity ∧
    state.acceptedAboveMs < value.acceptanceCutoffMs

/-- The record is accepted, and what is read of it is a candidate, an attestation,
    or a heartbeat that tells something new. -/
def TakesEffect (options : ChronologNodeOptions) (env : NodeEnv) (record : TransportRecord)
    (state : NodeState) : Prop :=
  Accepts state record ∧
    match readRecord options env record with
    | .ok (.candidate _ _) | .ok (.attestation _) => True
    | .ok (.heartbeat value) => RaisesCutoff options value state ∨
      ∃ feedContiguous, isFeedContiguous env record = .ok feedContiguous ∧
        state.control.Supersedes (value.stored record feedContiguous)
    | .ok .ignored | .error _ => False

section Effect

variable {options : ChronologNodeOptions} {env : NodeEnv} {record : TransportRecord}
  {state : NodeState} {core : TransactionCore}

/-- A candidate that is new is stored. -/
theorem holds_ingestCandidate {read : StoredCandidate} (hread : IsRead options record core read)
    (h : Holds options (utf8 record.id) false false state) :
    Holds options (utf8 record.id) true false
      (finalState (ingestCandidate options env core read state)) := by
  have hnew : state.control.candidates.get? read.txId = none := by
    rw [hread.txId]
    simpa using h.candidate
  have hstate : read.state ≠ .admissible := by
    rcases hread.state with h | h <;> simp [h]
  obtain ⟨result, control, hput, hcontent⟩ := ControlStore.putCandidate_of_new hnew hstate
  have hstored : Holds options (utf8 record.id) true false
      { state with control, candidateCores := state.candidateCores.set read.txId core } := by
    refine ⟨?_, ?_, fun cutoff hcutoff => h.cutoff cutoff ?_⟩
    · rw [hcontent.candidates, ← hread.txId]
      exact congrArg Option.isSome (KeyedMap.get?_put_self _ _)
    · rw [hcontent.attestations]
      exact h.attestation
    · rw [hcontent.validatorCutoffs] at hcutoff
      exact hcutoff
  simp only [ingestCandidate]
  rw [bind_run_of_ok (control_of_ok hput), bind_get_run]
  exact keeps_ite ((undisturbed_holds.evaluateAdmission _ _).bind fun _ =>
    undisturbed_holds.maybeAttest _ _ _) (keeps_pure _) _ hstored

/-- An attestation that is new is stored. -/
theorem holds_ingestAttestation (value : ValidatorAttestation)
    (h : Holds options (utf8 record.id) false false state) :
    Holds options (utf8 record.id) false true
      (finalState (ingestAttestation options env record value state)) := by
  obtain ⟨acceptedAboveMs, cutoffs, hfollow, hkept⟩ := followCutoff_ok h.cutoff
    (value.validatorId = options.identity && record.author = options.transportIdentity)
    value.acceptedAboveMs
  simp only [ingestAttestation]
  rw [bind_run_of_ok hfollow, bind_get_run]
  have hfollowed : Holds options (utf8 record.id) false false
      (state.withCutoff acceptedAboveMs cutoffs) := ⟨h.candidate, h.attestation, hkept⟩
  set followed := state.withCutoff acceptedAboveMs cutoffs
  have hnew : followed.control.attestations.get? (value.stored record).attestationId = none := by
    change followed.control.attestations.get? (utf8 record.id) = none
    simpa using hfollowed.attestation
  obtain ⟨result, control, hput, hcontent⟩ := ControlStore.putAttestation_of_new hnew
  have hstored : Holds options (utf8 record.id) false true { followed with control } := by
    refine ⟨?_, ?_, fun cutoff hcutoff => hfollowed.cutoff cutoff ?_⟩
    · rw [hcontent.candidates]
      exact hfollowed.candidate
    · rw [hcontent.attestations]
      exact congrArg Option.isSome (KeyedMap.get?_put_self _ (value.stored record))
    · rw [hcontent.validatorCutoffs] at hcutoff
      exact hcutoff
  rw [bind_run_of_ok (control_of_ok hput)]
  cases followed.candidateCores.get? value.txId with
  | none => exact hstored
  | some core => exact undisturbed_holds.evaluateAdmission _ _ _ hstored

/-- Following a cutoff persists it, if it is raised. -/
theorem followCutoff_control (h : CutoffKept options state) (own : Bool) (cutoff : Int) :
    ∃ followed, followCutoff options own cutoff state = .ok () followed ∧
      ((options.validator.isSome ∧ own ∧ state.acceptedAboveMs < cutoff) →
        followed.control.validatorCutoffs.get? options.identity = some cutoff) ∧
      (¬ (options.validator.isSome ∧ own ∧ state.acceptedAboveMs < cutoff) →
        followed.control = state.control) := by
  unfold followCutoff
  rw [bind_get_run]
  by_cases hraise : own ∧ state.acceptedAboveMs < cutoff
  · rw [if_pos hraise, bind_set_run]
    unfold persistValidatorCutoff
    by_cases hvalidator : options.validator.isSome
    · rw [if_pos hvalidator]
      rcases state.control.persistValidatorCutoff_spec options.identity cutoff with
        ⟨previous, hprevious, hlt, -⟩ | ⟨cutoffs, hpersist, hget⟩
      · exact absurd (h previous hprevious) (by omega)
      · exact ⟨_, control_of_ok hpersist, fun _ => hget,
          absurd ⟨hvalidator, hraise⟩⟩
    · rw [if_neg hvalidator]
      exact ⟨_, rfl, fun hand => absurd hand.1 hvalidator, fun _ => rfl⟩
  · rw [if_neg hraise]
    exact ⟨_, rfl, fun hand => absurd hand.2 hraise, fun _ => rfl⟩

/-- A heartbeat changes the store just if it raises the node's cutoff or is recorded. -/
theorem ingestHeartbeat_control_eq_iff (value : ValidatorHeartbeat) (h : CutoffKept options state) :
    (finalState (ingestHeartbeat options env record value state)).control = state.control ↔
      ¬ (RaisesCutoff options value state ∨
        ∃ feedContiguous, isFeedContiguous env record = .ok feedContiguous ∧
          state.control.Supersedes (value.stored record feedContiguous)) := by
  obtain ⟨followed, hfollow, hpersisted, hcontrol⟩ := followCutoff_control h
    (value.validatorId = options.identity) value.acceptanceCutoffMs
  rw [decide_eq_true_eq] at hpersisted hcontrol
  rw [finalState_ingestHeartbeat hfollow]
  by_cases hraises : RaisesCutoff options value state
  · -- Recording the heartbeat keeps the cutoffs.
    refine iff_of_false (fun heq => ?_) (not_not.2 (.inl hraises))
    have hget := hpersisted hraises
    have hcutoffs : followed.control.validatorCutoffs = state.control.validatorCutoffs := by
      cases hcontiguous : isFeedContiguous env record with
      | error message => rw [← heq, hcontiguous]
      | ok feedContiguous =>
        rw [← heq, hcontiguous]
        rcases followed.control.recordHeartbeat_spec (value.stored record feedContiguous) with
          ⟨hfinal, -⟩ | ⟨hcontent, -⟩
        · exact (congrArg ControlStore.validatorCutoffs hfinal).symm
        · exact hcontent.validatorCutoffs.symm
    rw [hcutoffs] at hget
    exact absurd hraises.2.2 (not_lt.2 (h _ hget))
  replace hcontrol := hcontrol hraises
  rw [or_iff_right hraises]
  cases hcontiguous : isFeedContiguous env record with
  | error message =>
    refine iff_of_true hcontrol ?_
    rintro ⟨feedContiguous, hok, -⟩
    cases hok
  | ok feedContiguous =>
    have hiff : (∃ feedContiguous', (Except.ok feedContiguous : Except String Bool) =
        .ok feedContiguous' ∧ state.control.Supersedes (value.stored record feedContiguous')) ↔
        state.control.Supersedes (value.stored record feedContiguous) := by
      simp
    rw [hiff, hcontrol]
    rcases state.control.recordHeartbeat_spec (value.stored record feedContiguous) with
      ⟨hsame, previous, hget, hlater⟩ | ⟨hcontent, hsupersedes⟩
    · refine iff_of_true hsame fun hsupersedes => ?_
      have := hsupersedes previous hget
      omega
    · refine iff_of_false (fun heq => ?_) (not_not.2 hsupersedes)
      -- The heartbeat would have been recorded before.
      have hget : state.control.heartbeats.get? (value.stored record feedContiguous).heartbeatKey =
          some (value.stored record feedContiguous) := by
        rw [← heq, hcontent.heartbeats]
        exact KeyedMap.get?_put_self _ _
      exact absurd (hsupersedes _ hget).1 (lt_irrefl _)

/-- A delivery changes the store just if it takes effect. -/
theorem ingest_control_eq_iff (hseen : record.id ∉ state.seen)
    (h : Holds options (utf8 record.id) false false state) :
    (ingest options env record state).control = state.control ↔
      ¬ TakesEffect options env record state := by
  by_cases haccepts : Accepts state record
  · obtain ⟨continuity, forks, hobserve, hcontinuity⟩ := id haccepts
    have hsame := (sameStores_ingest hseen).trans
      (@ingestRecord_of_accepts options env state record forks continuity hobserve hcontinuity)
    have hforks : Holds options (utf8 record.id) false false { state with feedForks := forks } :=
      h.of_sameStores ⟨rfl, rfl, rfl, rfl, rfl⟩
    rw [hsame.control, TakesEffect, and_iff_right haccepts]
    cases hread : readRecord options env record with
    | error error => exact iff_of_true rfl not_false
    | ok message =>
      cases message with
      | ignored => exact iff_of_true rfl not_false
      | candidate core read =>
        have hholds := @holds_ingestCandidate options env record _ core read
          (isRead_of_readRecord hread) hforks
        refine iff_of_false (fun heq => ?_) (not_not.2 trivial)
        have hsome := hholds.candidate
        have hsame : (finalState (ingestCandidate options env core read
          { state with feedForks := forks })).control = state.control := heq
        rw [hsame, h.candidate] at hsome
        cases hsome
      | attestation value =>
        have hholds := @holds_ingestAttestation options env record _ value hforks
        refine iff_of_false (fun heq => ?_) (not_not.2 trivial)
        have hsome := hholds.attestation
        have hsame : (finalState (ingestAttestation options env record value
          { state with feedForks := forks })).control = state.control := heq
        rw [hsame, h.attestation] at hsome
        cases hsome
      | heartbeat value => exact ingestHeartbeat_control_eq_iff value hforks.cutoff
  · exact iff_of_true ((sameStores_ingest hseen).trans (ingestRecord_of_not_accepts haccepts)).control
      fun heffect => haccepts heffect.1

theorem Holds.ingestAll {id : Bytes} {candidate attestation : Bool} {deliveries : List Delivery}
    (h : Holds options id candidate attestation state)
    (hids : ∀ delivery ∈ deliveries, id ≠ utf8 delivery.record.id) :
    Holds options id candidate attestation (ingestAll options deliveries state) := by
  induction deliveries using reverseRecOn with
  | nil => exact h
  | append_singleton deliveries delivery ih =>
    rw [ingestAll_append]
    exact (ih fun d hd => hids d (mem_append_left _ hd)).ingest (hids delivery (by simp))

theorem notMem_seen_ingestAll {deliveries : List Delivery} (hseen : record.id ∉ state.seen)
    (hids : ∀ delivery ∈ deliveries, delivery.record.id ≠ record.id) :
    record.id ∉ (ingestAll options deliveries state).seen := by
  induction deliveries using reverseRecOn with
  | nil => exact hseen
  | append_singleton deliveries delivery ih =>
    have ih := ih fun d hd => hids d (mem_append_left _ hd)
    rw [ingestAll_append]
    intro hmem
    by_cases hold : delivery.record.id ∈ (ingestAll options deliveries state).seen
    · rw [ingest, if_pos hold] at hmem
      exact ih hmem
    · rcases mem_seen_ingest hold hmem with heq | hmem
      · exact hids delivery (by simp) heq.symm
      · exact ih hmem

end Effect

/-! ## Delivering a record again -/

/-- A record is delivered whose chunks or key are not available, and again when they are, by a node
    that started anew. The node ends with the same store as one that is delivered the record only
    then, just if this delivery takes no effect: the first one has made the record seen. -/
theorem redelivery_control_eq_iff (options : ChronologNodeOptions) (earlier later : List Delivery)
    (record : TransportRecord) (env env' : NodeEnv)
    (hfirst : ∀ delivery ∈ earlier, delivery.record.id ≠ record.id)
    (haccepts : Accepts (ingestAll options earlier (fresh options)) record)
    (hunavailable : Unavailable options env record)
    (hfits : ∀ delivery ∈ later, delivery.record.id ≠ record.id → Fits record delivery.record) :
    let others := later.filter fun delivery => delivery.record.id ≠ record.id
    (ingestAll options (earlier ++ ⟨env, record⟩ :: later ++ [⟨env', record⟩])
        (fresh options)).control =
      (ingestAll options (earlier ++ others ++ [⟨env', record⟩])
        (fresh options)).control ↔
      ¬ TakesEffect options env' record
        (ingestAll options (earlier ++ others) (fresh options)) := by
  intro others
  have hothers : ∀ delivery ∈ others, delivery.record.id ≠ record.id := fun delivery hdelivery => by
    simpa using (mem_filter.1 hdelivery).2
  have hids : ∀ delivery ∈ earlier ++ others, delivery.record.id ≠ record.id := by
    intro delivery hdelivery
    rcases mem_append.1 hdelivery with h | h
    · exact hfirst delivery h
    · exact hothers delivery h
  set start := fresh options
  have hearlier : record.id ∉ (ingestAll options earlier start).seen :=
    notMem_seen_ingestAll (Finset.notMem_empty _) hfirst
  -- Up to the last delivery the runs differ in the books.
  have hahead : Ahead record
      (ingestAll options (earlier ++ ⟨env, record⟩ :: later) start)
      (ingestAll options (earlier ++ others) start) := by
    have h : Ahead record (ingestAll options later (ingest options env
        record (ingestAll options earlier start)))
        (ingestAll options others (ingestAll options earlier start)) :=
      (ahead_of_unavailable hearlier haccepts hunavailable).ingestAll hfits
    simp only [ingestAll, foldl_append]
    exact h
  have hseen : record.id ∈
      (ingestAll options (earlier ++ ⟨env, record⟩ :: later) start).seen := by
    rw [hahead.seen]
    exact Finset.mem_insert_self _ _
  have hholds : Holds options (utf8 record.id) false false
      (ingestAll options (earlier ++ others) start) :=
    holds_fresh.ingestAll fun delivery hdelivery heq =>
      hids delivery hdelivery (utf8_injective heq).symm
  rw [ingestAll_append, ingestAll_append, ingest,
    if_pos hseen, hahead.stores.control, eq_comm]
  exact ingest_control_eq_iff (notMem_seen_ingestAll (Finset.notMem_empty _) hids) hholds

/-! ## Samples -/

namespace OutOfLine

open SmallGroup (resolver)

/-- A node of the group that reads a transaction stored out of line, in one chunk. -/
def options : ChronologNodeOptions :=
  { SmallGroup.options [(1, .candidate (SmallGroup.core 10))] [8] with
    codec := { SmallGroup.codec [(1, .candidate (SmallGroup.core 10))] with
      decodeEnvelope := decodeFrom
        [([1], ⟨[0], .candidate, none, [1, 1], .manifest ⟨[1, 1], 2, [⟨[1, 1], 2⟩]⟩⟩)] } }

/-- The record of the transaction, in a feed. -/
def record (author : String) : TransportRecord := ⟨"t", author, 1, none, some 0, [1]⟩

/-- The chunk is not there yet. -/
def missing : NodeEnv :=
  { TwoValidators.env resolver with blobStore := some fun _ => .ok none }

/-- The chunk is there. -/
def present : NodeEnv :=
  { TwoValidators.env resolver with blobStore := some fun digest => .ok (some digest) }

theorem unavailable (author : String) : Unavailable options missing (record author) :=
  ⟨_, rfl, by decide, .inl ⟨_, _, rfl, rfl, _, mem_singleton_self _, by simp⟩⟩

/-- The writer's transaction is lost if it is delivered before its chunk, and
    stored if it is not. -/
theorem redelivery_control_ne : Unavailable options missing (record "w") ∧
    (decodeSignedEnvelope options.codec (record "w").payload (groupRoute options)
      present.envelopeCipher present.blobStore).isOk ∧
    (ingestAll options [⟨missing, record "w"⟩, ⟨present, record "w"⟩]
      (fresh options)).control.getCandidate (utf8 "t") = none ∧
    ((ingestAll options [⟨present, record "w"⟩]
      (fresh options)).control.getCandidate (utf8 "t")).isSome := by
  refine ⟨unavailable "w", ?_, ?_, ?_⟩
  · rfl
  · rfl
  · rfl

/-- A transaction in a feed that is not its writer's is refused in any case. -/
theorem redelivery_control_eq : (ingestAll options [⟨missing, record "z"⟩, ⟨present, record "z"⟩]
      (fresh options)).control = (ingestAll options [⟨present, record "z"⟩]
      (fresh options)).control := by
  refine (redelivery_control_eq_iff options [] [] (record "z") missing present
    (fun _ h => absurd h not_mem_nil) ⟨.accepted, _, rfl, .inl rfl⟩ (unavailable "z")
    (fun _ h => absurd h not_mem_nil)).2 ?_
  rintro ⟨-, heffect⟩
  have hread : readRecord options present (record "z") =
      .error (.terminal "CANDIDATE_TRANSPORT_AUTHOR_UNAUTHORIZED") := by rfl
  exact heffect

end OutOfLine

end Chronolog
