import Chronolog.NodeCore.Settlement
import Chronolog.Rpc.Responses

/-!
# Waiting for a migration

The migration manager polls a node for the outcome of a transaction and then for its evidence of
settlement. A transaction that has no outcome although the watermark of its policy has passed its
timestamp is reported as excluded.

A watermark says that every proof has a validator that attests nothing up to it any more. That validator
may have attested the transaction before, so that the others complete the proof
(`LateAttestation.accepted_after_exclusion`). A transaction that is reported as excluded stays out if those
that have attested it and those that have not passed it do not satisfy the policy together
(`not_admitted_of_watermarkExcluded`).
-/

namespace Chronolog.Migrations

open Procedure Rpc ChronologNode

/-! ## The loop -/

/-- How a migration settles. -/
inductive MigrationSettlement
  | accepted (outcome : TransactionOutcome) (evidence : RpcSettlementEvidence)
  | rejected (outcome : TransactionOutcome) (evidence : Option RpcSettlementEvidence)
  | watermarkExcluded (outcome : TransactionOutcome) (evidence : RpcSettlementEvidence)
  | timeout (outcome : TransactionOutcome)
  deriving DecidableEq

def IsRejected : TransactionResult → Bool
  | .rejected _ => true
  | _ => false

def IsAccepted : TransactionResult → Bool
  | .accepted _ _ => true
  | _ => false

/-- What a round makes of the outcome and of the evidence, which may be missing. -/
def settle (requireWatermark : Bool) (outcome : TransactionOutcome)
    (evidence : Option RpcSettlementEvidence) : Option MigrationSettlement :=
  if IsRejected outcome.outcome then some (.rejected outcome evidence)
  else match evidence with
    | none => none
    | some evidence =>
      if evidence.confidence = .policyWatermarkReached ∧ ¬ IsAccepted outcome.outcome then
        some (.watermarkExcluded outcome evidence)
      else if IsAccepted outcome.outcome ∧
          (!requireWatermark ∨ evidence.confidence = .policyWatermarkReached) then
        some (.accepted outcome evidence)
      else none

/-- What a round of the loop meets. -/
structure WaitRound where
  /-- Is the deadline over? -/
  expired : Bool := false
  /-- Why the signal was aborted, before the round and in the delay after it. -/
  aborted : Option String := none
  interrupted : Option String := none
  /-- Why the connection fails in the call for the outcome, and in the one for the evidence. -/
  outcomeLost : Option String := none
  evidenceLost : Option String := none
  /-- When the calls read the node: for the outcome three times, and for the evidence seven times. -/
  reads : Fin 10 → ℕ
  monotone : Monotone reads

/-- A call of `wait`, with its call for the outcome before the loop. -/
structure WaitCall where
  groupId : String
  transactionId : String
  requireWatermark : Bool := false
  lost : Option String := none
  reads : Fin 3 → ℕ

/-- The answer of a call, if the connection does not fail. -/
def answer {α : Type} (lost : Option String) (response : Except RpcError α) : Except RpcError α :=
  match lost with
  | some message => .error (.thrown message)
  | none => response

section

variable (localeCompare : String → String → Bool) (run : ℕ → NodeView) (call : WaitCall)

def WaitRound.getTransactionOutcome (round : WaitRound) : Except RpcError TransactionOutcome :=
  answer round.outcomeLost <| getOutcome localeCompare call.groupId call.transactionId
    (run (round.reads 0)) (run (round.reads 1)) (run (round.reads 2))

def WaitRound.getSettlementEvidence (round : WaitRound) : Except RpcError RpcSettlementEvidence :=
  answer round.evidenceLost <| Rpc.getSettlementEvidence localeCompare call.groupId call.transactionId
    (run (round.reads 3)) (run (round.reads 4)) (run (round.reads 5)) (run (round.reads 6))
    (run (round.reads 7)) (run (round.reads 8)) (run (round.reads 9))

/-- A round of the loop, with the last outcome: it ends the call, or has a new outcome. -/
def waitRound (outcome : TransactionOutcome) (round : WaitRound) :
    Except RpcError (MigrationSettlement ⊕ TransactionOutcome) :=
  if round.expired then .ok (.inl (.timeout outcome))
  else match round.aborted with
    | some reason => .error (.thrown reason)
    | none => do
      let outcome ← round.getTransactionOutcome localeCompare run call
      -- Evidence that cannot be had is passed over.
      let evidence := (round.getSettlementEvidence localeCompare run call).toOption
      match settle call.requireWatermark outcome evidence, round.interrupted with
      | some settlement, _ => return .inl settlement
      | none, some reason => .error (.thrown reason)
      | none, none => return .inr outcome

/-- The loop. It has no result yet when the rounds are over. -/
def waitLoop (outcome : TransactionOutcome) :
    List WaitRound → Except RpcError (Option MigrationSettlement)
  | [] => .ok none
  | round :: rounds => do
    match ← waitRound localeCompare run call outcome round with
    | .inl settlement => return some settlement
    | .inr outcome => waitLoop outcome rounds

def wait (rounds : List WaitRound) : Except RpcError (Option MigrationSettlement) := do
  let outcome ← answer call.lost <| getOutcome localeCompare call.groupId call.transactionId
    (run (call.reads 0)) (run (call.reads 1)) (run (call.reads 2))
  waitLoop localeCompare run call outcome rounds

end

section Loop

variable {localeCompare : String → String → Bool} {run : ℕ → NodeView} {call : WaitCall}
  {outcome outcome' : TransactionOutcome} {evidence : RpcSettlementEvidence} {rounds : List WaitRound}
  {round : WaitRound}

theorem settle_eq_watermarkExcluded {requireWatermark : Bool} {found : Option RpcSettlementEvidence}
    (h : settle requireWatermark outcome found = some (.watermarkExcluded outcome' evidence)) :
    found = some evidence ∧ evidence.confidence = .policyWatermarkReached := by
  unfold settle at h
  cases found with
  | none =>
    split_ifs at h
    cases h
  | some found =>
    dsimp only at h
    split_ifs at h with hrejected hreached haccepted
    · cases h
    · cases h
      exact ⟨rfl, hreached.1⟩
    · cases h

/-- A round that reports an exclusion has seen evidence that the watermark is reached. -/
theorem evidence_of_waitRound (h : waitRound localeCompare run call outcome round =
      .ok (.inl (.watermarkExcluded outcome' evidence))) :
    round.getSettlementEvidence localeCompare run call = .ok evidence ∧
      evidence.confidence = .policyWatermarkReached := by
  unfold waitRound at h
  split_ifs at h
  · cases Sum.inl.inj (Except.ok.inj h)
  · split at h
    · cases h
    · obtain ⟨found, -, h⟩ := bind_eq_ok_iff.1 h
      dsimp only at h
      split at h
      · rename_i settlement hsettle
        cases h
        obtain ⟨hfound, hreached⟩ := settle_eq_watermarkExcluded hsettle
        exact ⟨toOption_eq_some_iff.1 hfound, hreached⟩
      · cases h
      · cases h

/-- The round in which the loop ends. -/
theorem waitRound_of_waitLoop {settlement : MigrationSettlement}
    (hgoes : waitLoop localeCompare run call outcome rounds = .ok none)
    (hends : waitLoop localeCompare run call outcome (rounds ++ [round]) = .ok (some settlement)) :
    ∃ last, waitRound localeCompare run call last round = .ok (.inl settlement) := by
  induction rounds generalizing outcome with
  | nil =>
    obtain ⟨settlement' | next, hround, hends⟩ := bind_eq_ok_iff.1 hends
    · cases hends
      exact ⟨outcome, hround⟩
    · cases hends
  | cons first rounds ih =>
    obtain ⟨settlement' | next, hround, hgoes⟩ := bind_eq_ok_iff.1 hgoes
    · cases hgoes
    · obtain ⟨next', hround', hends⟩ := bind_eq_ok_iff.1 hends
      obtain rfl : Sum.inr next = next' := Except.ok.inj (hround.symm.trans hround')
      exact ih hgoes hends

/-- What the call for the evidence has read. -/
theorem reads_of_getSettlementEvidence {first second third before asked after last : NodeView}
    {groupId transactionId : String}
    (h : getSettlementEvidence localeCompare groupId transactionId first second third before asked
      after last = .ok evidence) (hreached : evidence.confidence = .policyWatermarkReached) :
    ∃ core candidate, before.candidateCore (utf8 transactionId) = some core ∧
      after.candidate (utf8 transactionId) = some candidate := by
  obtain ⟨outcome, -, h⟩ := bind_eq_ok_iff.1 h
  dsimp only at h
  split at h
  · rename_i candidate core hcandidate hcore
    obtain ⟨found, hfound, h⟩ := bind_eq_ok_iff.1 h
    cases h
    cases found with
    | none =>
      simp only [settlementConfidence] at hreached
      split_ifs at hreached
    | some found =>
      rw [settlementEvidence, hcore] at hfound
      obtain ⟨policy, -, hfound⟩ := bind_eq_ok_iff.1 hfound
      cases policy with
      | none => cases hfound
      | some policy =>
        dsimp only at hfound
        cases hevidence : after.control.settlementEvidence (utf8 transactionId) policy
            (some core.membershipRevision) with
        | error conflict =>
          rw [hevidence] at hfound
          cases hfound
        | ok evidence =>
          obtain ⟨stored, hstored, -⟩ := bind_eq_ok_iff.1 hevidence
          refine ⟨core, stored, hcore, ?_⟩
          unfold ControlStore.requiredCandidate at hstored
          split at hstored
          · cases hstored
          · cases hstored
            assumption
  · cases h

end Loop

/-! ## The node meanwhile -/

/-- A run of a node with a fixed membership to which records are delivered. The last record may be under
    way: its attestation or candidate is stored, and its admission is not decided. What else the node
    does leaves this alone. -/
structure Serves (options : ChronologNodeOptions) (resolver : CapabilityMembershipResolver)
    (delivered : ℕ → List Delivery) (run : ℕ → NodeView) : Prop where
  grows : ∀ n, delivered n <+: delivered (n + 1)
  policy : ∀ n core, (run n).watermarkPolicy core =
    (resolver.watermarkPolicy core).mapError (·.message)
  attestations : ∀ n, (run n).control.attestations = (ingestAll options (delivered n)
    (fresh options)).control.attestations
  heartbeats : ∀ n, (run n).control.heartbeats = (ingestAll options (delivered n)
    (fresh options)).control.heartbeats
  core : ∀ n txId core, (run n).candidateCore txId = some core → (ingestAll options
    (delivered n) (fresh options)).candidateCores.get? txId = some core
  candidate : ∀ n txId candidate, (run n).candidate txId = some candidate → ∃ candidate',
    (ingestAll options (delivered n) (fresh options)).control.getCandidate
      txId = some candidate' ∧ candidate'.candidateDigest = candidate.candidateDigest ∧
    (candidate.state = .admissible → candidate'.state = .admissible)
  -- What is materialized was in the order before.
  materialized : ∀ n txId outcome, (run n).outcome txId = some outcome → ∃ m ≤ n, ∃ candidate,
    (run m).candidate txId = some candidate ∧ candidate.state = .admissible

instance (store : ControlStore) (revision key : Bytes) (T : Int) :
    Decidable (store.HasPassed revision key T) :=
  inferInstanceAs (Decidable (∃ h ∈ store.heartbeats.values, _))

/-- The validators that have attested a transaction, and those whose heartbeats have not passed it. -/
def mayAttest (resolver : CapabilityMembershipResolver) (store : ControlStore)
    (snapshot : CapabilitySnapshot) (core : TransactionCore) (candidate : StoredCandidate) :
    List EffectiveCapability :=
  (activeValidators snapshot).filter fun c =>
    (store.attestations.values.any fun attestation =>
      resolver.proofValid candidate core attestation && attestation.validatorCapability = c.id) ||
    !store.HasPassed core.membershipRevision c.grant.signingPublicKey core.authorTimestampMs

/-- They satisfy the policy of the transaction together. -/
def Completable (resolver : CapabilityMembershipResolver) (store : ControlStore) (txId : Bytes)
    (core : TransactionCore) : Prop :=
  ∃ candidate snapshot effective, store.getCandidate txId = some candidate ∧
    resolver.snapshot core.groupId core.membershipRevision = some snapshot ∧
    snapshot.policies.get? core.validationPolicy = some effective ∧
    Satisfies effective.policy
      ((mayAttest resolver store snapshot core candidate).map (·.evidence))

section Run

variable {options : ChronologNodeOptions} {resolver : CapabilityMembershipResolver}
  {opened : TransportRecord → SignedWireMessage} {delivered : ℕ → List Delivery} {run : ℕ → NodeView}
  {n : ℕ}

theorem Serves.prefix_of_le (h : Serves options resolver delivered run) {m n : ℕ} (hmn : m ≤ n) :
    delivered m <+: delivered n := by
  induction n, hmn using Nat.le_induction with
  | base => exact List.prefix_rfl
  | succ n _ ih => exact ih.trans (h.grows n)

variable {candidate : StoredCandidate} {txId : Bytes}

/-- What the records delivered admit, at any time. -/
theorem admittedBy_of_admissible (hsupplied : Supplied options resolver opened (delivered n))
    (hserves : Serves options resolver delivered run)
    (hget : (run n).candidate txId = some candidate) (hadmissible : candidate.state = .admissible) :
    AdmittedBy resolver (appliedIn options (delivered n)) txId := by
  obtain ⟨candidate', hget', -, hadmissible'⟩ := hserves.candidate n txId candidate hget
  exact hsupplied.reflects.admittedBy rfl
    ((hsupplied.reflects.ordered_iff txId).2 ⟨candidate', hget', hadmissible' hadmissible⟩)

variable {core : TransactionCore}

/-- The validators of a proof of the transaction are among those that have attested it or have not
    passed it, at any earlier time. -/
theorem completable_of_admittedBy {earlier later : List Delivery} {store : ControlStore}
    (h : Supplied options resolver opened (earlier ++ later))
    (horder : InFeedOrder options (earlier ++ later))
    (hbackdating : NoBackdating (appliedIn options (earlier ++ later)))
    (hfeeds : ∀ snapshot, resolver.snapshot core.groupId core.membershipRevision = some snapshot → resolver.OneFeedPerKey snapshot)
    (hattestations : store.attestations = (ingestAll options earlier (fresh options)).control.attestations)
    (hheartbeats : store.heartbeats = (ingestAll options earlier (fresh options)).control.heartbeats)
    (hcandidate : store.getCandidate txId = some candidate)
    (hread : ∃ record read, (record, .candidate core read) ∈ appliedIn options (earlier ++ later) ∧ read.txId = txId ∧ read.candidateDigest = candidate.candidateDigest)
    (hadmitted : AdmittedBy resolver (appliedIn options (earlier ++ later)) txId) :
    Completable resolver store txId core := by
  obtain ⟨record, read, hread, htx, hdigest⟩ := hread
  obtain ⟨record', core', read', hread', htx', -, l, hl, snapshot, effective, hsnapshot, heffective,
    hsat⟩ := hadmitted
  -- There is one candidate with this id.
  have heq : ((record', .candidate core' read') : Applied) = (record, .candidate core read) := by
    refine h.uniqueIds _ hread' _ hread (utf8_injective ?_)
    rw [← (h.reflects.isRead _ _ _ hread').txId, ← (h.reflects.isRead _ _ _ hread).txId, htx', htx]
  obtain ⟨rfl, rfl⟩ := IngestMessage.candidate.inj (Prod.mk.inj heq).2
  refine ⟨candidate, snapshot, effective, hcandidate, hsnapshot, heffective, ?_⟩
  obtain ⟨S, hS, hattested⟩ := CapabilityMembershipResolver.exists_isProof hsat
  refine hS.satisfies.mono (List.map_subset _ fun c hc => ?_)
    (onePerCapability_evidence fun c hc => List.mem_of_mem_filter hc)
  obtain ⟨attestation, hmem, hcapability, -⟩ := hattested c hc
  obtain ⟨hvalid, record'', value, happlied, rfl⟩ := hl attestation hmem
  refine List.mem_filter.2 ⟨hS.active c hc, ?_⟩
  by_cases hpassed : store.HasPassed core'.membershipRevision c.grant.signingPublicKey
      core'.authorTimestampMs
  · have hknown := h.proofValid_applied horder hbackdating hsnapshot (hfeeds _ hsnapshot)
      (hS.active c hc) (by simpa only [ControlStore.HasPassed, hheartbeats] using hpassed) le_rfl
      happlied hvalid hcapability
    have hstored := (h.of_append.reflects.attestation_iff _).2 ⟨record'', value, hknown, rfl⟩
    rw [← hattestations] at hstored
    rw [Bool.or_eq_true]
    refine .inl (List.any_eq_true.2 ⟨_, KeyedMap.mem_values_of_get? hstored, ?_⟩)
    have hkey : candidate.txId = txId := store.candidates.key_eq hcandidate
    rw [proofValid_congr (htx.trans hkey.symm) hdigest] at hvalid
    simp only [hvalid, Bool.true_and, decide_eq_true_eq]
    exact (KeyedMap.key_eq hcapability).symm
  · simp [hpassed]

theorem Serves.appliedIn_subset (h : Serves options resolver delivered run) {m : ℕ} (hmn : m ≤ n) :
    appliedIn options (delivered m) ⊆ appliedIn options (delivered n) := by
  obtain ⟨later, hlater⟩ := h.prefix_of_le hmn
  rw [← hlater]
  exact appliedIn_subset_append later

/-- The candidate that is shown is one that was read, and so is its core. -/
theorem exists_read (h : Serves options resolver delivered run)
    (hsupplied : ∀ n, Supplied options resolver opened (delivered n)) {m : ℕ} (hmn : m ≤ n)
    (hcore : (run m).candidateCore txId = some core)
    (hcandidate : (run n).candidate txId = some candidate) :
    ∃ record read, (record, .candidate core read) ∈ appliedIn options (delivered n) ∧
      read.txId = txId ∧ read.candidateDigest = candidate.candidateDigest := by
  obtain ⟨candidate', hget, hdigest, -⟩ := h.candidate n txId candidate hcandidate
  obtain ⟨record, core', read, hread, hevolved⟩ :=
    (hsupplied n).reflects.candidate_read txId candidate' hget
  have htx : read.txId = txId := hevolved.txId_eq.symm.trans (KeyedMap.key_eq hget)
  obtain ⟨record', read', hread', htx'⟩ := (hsupplied m).reflects.core_read txId core (h.core m txId core hcore)
  have hstored := ((hsupplied n).reflects.candidate_stored _ _ _ hread).1
  have hstored' := ((hsupplied n).reflects.candidate_stored _ _ _ (h.appliedIn_subset hmn hread')).1
  rw [htx] at hstored
  rw [htx'] at hstored'
  cases hstored.symm.trans hstored'
  exact ⟨record, read, hread, htx, hevolved.candidateDigest_eq.symm.trans hdigest⟩

variable {localeCompare : String → String → Bool} {call : WaitCall} {rounds : List WaitRound}
  {round : WaitRound} {outcome : TransactionOutcome} {evidence : RpcSettlementEvidence}

/-- A transaction that is reported as excluded is never admitted, nor materialized, if those that have
    attested it when the watermark is read and those that have not passed it do not satisfy its policy. -/
theorem not_admitted_of_watermarkExcluded (hserves : Serves options resolver delivered run)
    (hsupplied : ∀ n, Supplied options resolver opened (delivered n))
    (horder : ∀ n, InFeedOrder options (delivered n))
    (hbackdating : ∀ n, NoBackdating (appliedIn options (delivered n)))
    (hgoes : wait localeCompare run call rounds = .ok none)
    (hends : wait localeCompare run call (rounds ++ [round]) =
      .ok (some (.watermarkExcluded outcome evidence)))
    (hcondition : ∀ core, (run (round.reads 6)).candidateCore (utf8 call.transactionId) = some core →
      (∀ snapshot, resolver.snapshot core.groupId core.membershipRevision = some snapshot →
        resolver.OneFeedPerKey snapshot) ∧
      ¬ Completable resolver (run (round.reads 8)).control (utf8 call.transactionId) core) :
    ∀ n, (∀ candidate, (run n).candidate (utf8 call.transactionId) = some candidate →
      candidate.state ≠ .admissible) ∧ (run n).outcome (utf8 call.transactionId) = none := by
  obtain ⟨first, hfirst, hgoes⟩ := bind_eq_ok_iff.1 hgoes
  obtain ⟨first', hfirst', hends⟩ := bind_eq_ok_iff.1 hends
  cases hfirst.symm.trans hfirst'
  obtain ⟨last, hround⟩ := waitRound_of_waitLoop hgoes hends
  obtain ⟨hevidence, hreached⟩ := evidence_of_waitRound hround
  obtain ⟨core, candidate, hcore, hcandidate⟩ : ∃ core candidate,
      (run (round.reads 6)).candidateCore (utf8 call.transactionId) = some core ∧
        (run (round.reads 8)).candidate (utf8 call.transactionId) = some candidate := by
    unfold WaitRound.getSettlementEvidence answer at hevidence
    split at hevidence
    · cases hevidence
    · exact reads_of_getSettlementEvidence hevidence hreached
  obtain ⟨hfeeds, hcompletable⟩ := hcondition core hcore
  have hreads : round.reads 6 ≤ round.reads 8 := round.monotone (by decide)
  -- At no time do the records delivered admit the transaction.
  have hnever : ∀ n, ¬ AdmittedBy resolver (appliedIn options (delivered n))
      (utf8 call.transactionId) := by
    intro n hadmitted
    have hle : round.reads 8 ≤ max n (round.reads 8) := le_max_right _ _
    have hadmitted := hadmitted.mono (hserves.appliedIn_subset (le_max_left n (round.reads 8)))
    obtain ⟨record, read, hread, htx, hdigest⟩ := exists_read hserves hsupplied hreads hcore hcandidate
    have hread' := hserves.appliedIn_subset hle hread
    obtain ⟨later, hlater⟩ := hserves.prefix_of_le hle
    rw [← hlater] at hadmitted hread'
    exact hcompletable (completable_of_admittedBy (hlater ▸ hsupplied _) (hlater ▸ horder _)
      (hlater ▸ hbackdating _) hfeeds (hserves.attestations _) (hserves.heartbeats _) hcandidate
      ⟨record, read, hread', htx, hdigest⟩ hadmitted)
  have hpending : ∀ n candidate, (run n).candidate (utf8 call.transactionId) = some candidate →
      candidate.state ≠ .admissible := fun n candidate hget hadmissible =>
    hnever n (admittedBy_of_admissible (hsupplied n) hserves hget hadmissible)
  refine fun n => ⟨hpending n, Option.eq_none_iff_forall_not_mem.2 fun outcome houtcome => ?_⟩
  obtain ⟨m, -, candidate', hget, hadmissible⟩ := hserves.materialized n _ outcome houtcome
  exact hpending m candidate' hget hadmissible

end Run

/-! ## Samples -/

namespace LateAttestation

open OtherFeed (inFeedOrder_of_pairwise noBackdating_of_forall)
open SmallGroup (Message core attestation)
open TwoValidators (capability genesis resolverOf)
open OtherFeed (deliver opens supplied)

/-- A writer and two validators, both of which have to attest. -/
def snapshot : CapabilitySnapshot :=
  genesis [capability [10] [3] "w" .writer none, capability [11] [1] "x" .validator none,
    capability [12] [2] "y" .validator none] ⟨1, 2, .ofList [], []⟩

abbrev resolver : CapabilityMembershipResolver := resolverOf snapshot

/-- A transaction, the attestations of both, and a heartbeat of the first one. -/
def messages : List (UInt8 × Message) :=
  [(1, .candidate (core 10)), (2, .attestation (attestation "t" [1] 10)),
    (3, .heartbeat ⟨[0], [9], [11], [1], 50⟩),
    (4, .attestation ⟨[0], [9], [12], utf8 "t", [2], 10, 0, [1], 1⟩)]

abbrev options : ChronologNodeOptions := SmallGroup.options messages [8]

abbrev delivery := deliver snapshot

/-- The first validator attests the transaction and moves on. -/
def attested : List Delivery :=
  [delivery "t" "w" 1 none 1, delivery "a" "x" 1 none 2, delivery "h" "x" 2 (some "a") 3]

/-- And the other one attests it, too. -/
def completed : List Delivery := attested ++ [delivery "b" "y" 1 none 4]

/-- The first validator moves on without having attested the transaction. -/
def passed : List Delivery := [delivery "t" "w" 1 none 1, delivery "h" "x" 1 none 3]

abbrev opened := opens messages

/-- The node with the records. -/
def node (deliveries : List Delivery) (log : OrdMap Bytes RpcMaterializedOutcome) : NodeView where
  toNodeState := ingestAll options deliveries (fresh options)
  groupId := [0]
  identity := [8]
  executionManifestDigest := []
  log
  watermarkPolicy core := (resolver.watermarkPolicy core).mapError (·.message)

theorem serves {delivered : ℕ → List Delivery} {log : ℕ → OrdMap Bytes RpcMaterializedOutcome}
    (hgrows : ∀ n, delivered n <+: delivered (n + 1))
    (hlog : ∀ n txId outcome, (log n).get? txId = some outcome → ∃ m ≤ n, ∃ candidate, (node (delivered m) (log m)).candidate txId = some candidate ∧ candidate.state = .admissible) :
    Serves options resolver delivered fun n => node (delivered n) (log n) where
  grows := hgrows
  policy _ _ := rfl
  attestations _ := rfl
  heartbeats _ := rfl
  core _ _ _ h := h
  candidate _ _ candidate h := ⟨candidate, h, rfl, id⟩
  materialized := hlog

/-- A call that reads the node at once. -/
def call : WaitCall where
  groupId := "AA"
  transactionId := "t"
  reads _ := 0

def round : WaitRound where
  reads _ := 0
  monotone _ _ _ := le_rfl

def delivered : ℕ → List Delivery
  | 0 => attested
  | _ + 1 => completed

def log : ℕ → OrdMap Bytes RpcMaterializedOutcome
  | 0 | 1 => .empty
  | _ + 2 => .ofList [(utf8 "t",
    { outcome := .accepted, resultEnvelopeVersion := true, resultDigest := some [4] })]

theorem delivered_eq (n : ℕ) : delivered n = attested ∨ delivered n = completed := by
  cases n with
  | zero => exact .inl rfl
  | succ n => exact .inr rfl

/-- What `wait` reports, if it is an exclusion. -/
def excluded? (result : Except RpcError (Option MigrationSettlement)) :
    Option (TransactionOutcome × RpcSettlementEvidence) :=
  match result with
  | .ok (some (.watermarkExcluded outcome evidence)) => some (outcome, evidence)
  | _ => none

theorem eq_of_excluded? {result : Except RpcError (Option MigrationSettlement)}
    (h : (excluded? result).isSome) :
    ∃ outcome evidence, result = .ok (some (.watermarkExcluded outcome evidence)) := by
  unfold excluded? at h
  split at h
  · exact ⟨_, _, rfl⟩
  · cases h

/-- The transaction is reported as excluded, and admitted and accepted afterwards. -/
theorem accepted_after_exclusion : let run := fun n => node (delivered n) (log n)
    Serves options resolver delivered run ∧
    (∀ n, Supplied options resolver opened (delivered n)) ∧
    (∀ n, InFeedOrder options (delivered n)) ∧
    (∀ n, NoBackdating (appliedIn options (delivered n))) ∧
    resolver.OneFeedPerKey snapshot ∧
    wait (· ≤ ·) run call [] = .ok none ∧
    (∃ outcome evidence, wait (· ≤ ·) run call [round] =
      .ok (some (.watermarkExcluded outcome evidence))) ∧
    ((run 1).candidate (utf8 "t")).map (·.state) = some .admissible ∧
    ((run 2).outcome (utf8 "t")).map (·.outcome) = some .accepted := by
  intro run
  have hadmissible : ((run 1).candidate (utf8 "t")).map (·.state) = some .admissible := by
    rfl
  have hserves : Serves options resolver delivered run := by
    refine serves (fun n => ?_) fun n txId outcome h => ?_
    · cases n with
      | zero => exact List.prefix_append _ _
      | succ n => exact List.prefix_rfl
    · rcases n with _ | _ | n
      · simp [log] at h
      · simp [log] at h
      · obtain ⟨candidate, hget, hstate⟩ := Option.map_eq_some_iff.1 hadmissible
        have htx : txId = utf8 "t" := by
          by_contra hne
          rw [show log (n + 2) = OrdMap.empty.set (utf8 "t") _ from rfl, OrdMap.get?_set_of_ne hne] at h
          cases h
        exact ⟨1, by omega, candidate, htx.symm ▸ hget, hstate⟩
  refine ⟨hserves, fun n => ?_, fun n => ?_, fun n => ?_, by decide, rfl, ?_, hadmissible,
    by rfl⟩
  · rcases delivered_eq n with h | h <;> rw [h] <;>
      exact supplied (by simp [completed, attested, deliver]) (by decide)
  · rcases delivered_eq n with h | h <;> rw [h] <;>
      exact inFeedOrder_of_pairwise (by decide)
  · rcases delivered_eq n with h | h <;> rw [h] <;>
      exact noBackdating_of_forall (by decide)
  · exact eq_of_excluded? rfl

theorem not_completable {found : TransactionCore}
    (hfound : (node passed .empty).candidateCore (utf8 "t") = some found) :
    (∀ snapshot, resolver.snapshot found.groupId found.membershipRevision = some snapshot →
      resolver.OneFeedPerKey snapshot) ∧
    ¬ Completable resolver (node passed .empty).control (utf8 "t") found := by
  have hfields : ((node passed .empty).candidateCore (utf8 "t")).map (fun core =>
      (core.groupId, core.membershipRevision, core.validationPolicy, core.authorTimestampMs)) =
        some ([0], [9], [5], 10) := by
    rfl
  simp only [hfound, Option.map_some, Option.some.injEq, Prod.mk.injEq] at hfields
  obtain ⟨hgroup, hrevision, hpolicy, htimestamp⟩ := hfields
  rw [hgroup, hrevision]
  refine ⟨fun found hfound => ?_, ?_⟩
  · cases hfound
    decide
  · rintro ⟨candidate, snapshot', effective, -, hsnapshot, heffective, hsat⟩
    rw [hgroup, hrevision] at hsnapshot
    rw [hpolicy] at heffective
    cases hsnapshot
    cases heffective
    have hnone : (node passed .empty).control.attestations.values = [] := by
      rfl
    have hmay : mayAttest resolver (node passed .empty).control snapshot found candidate =
        [capability [12] [2] "y" .validator none] := by
      simp only [mayAttest, hnone, hrevision, htimestamp, List.any_nil]
      rfl
    have hsat := (satisfies_iff.1 hsat).2.total
    rw [hmay] at hsat
    revert hsat
    decide

/-- The other validator attests the transaction later. -/
def overtaken : ℕ → List Delivery
  | 0 => passed
  | _ + 1 => passed ++ [delivery "b" "y" 1 none 4]

/-- If the first validator has not attested the transaction, then it is never admitted. -/
theorem not_admitted_of_passed : let run := fun n => node (overtaken n) .empty
    (∃ outcome evidence, wait (· ≤ ·) run call [round] =
      .ok (some (.watermarkExcluded outcome evidence))) ∧
    ∀ n candidate, (run n).candidate (utf8 "t") = some candidate → candidate.state ≠ .admissible := by
  intro run
  have hserves : Serves options resolver overtaken run := by
    refine serves (fun n => ?_) fun _ _ _ h => by cases h
    cases n with
    | zero => exact List.prefix_append _ _
    | succ n => exact List.prefix_rfl
  obtain ⟨outcome, evidence, hends⟩ := @eq_of_excluded? (wait (· ≤ ·) run call [round]) rfl
  have hovertaken (n : ℕ) : overtaken n = passed ∨
      overtaken n = passed ++ [delivery "b" "y" 1 none 4] := by
    cases n with
    | zero => exact .inl rfl
    | succ n => exact .inr rfl
  refine ⟨⟨outcome, evidence, hends⟩, fun n => ?_⟩
  refine (@not_admitted_of_watermarkExcluded options resolver opened overtaken run (· ≤ ·) call []
    round outcome evidence hserves (fun n => ?_) (fun n => ?_) (fun n => ?_) rfl hends
    (fun _ hfound => not_completable hfound) n).1
  · rcases hovertaken n with h | h <;> rw [h] <;>
      exact supplied (by simp [passed, deliver]) (by decide)
  · rcases hovertaken n with h | h <;> rw [h] <;> exact inFeedOrder_of_pairwise (by decide)
  · rcases hovertaken n with h | h <;> rw [h] <;> exact noBackdating_of_forall (by decide)

end LateAttestation

end Chronolog.Migrations
