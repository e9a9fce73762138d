import Chronolog.Capabilities.Admission
import Chronolog.Lib.Choice
import Chronolog.NodeCore.Node
import Chronolog.NodeCore.WatermarkPolicy

/-!
# When a node admits a candidate

A node keeps the first valid attestation of every validator and asks the
membership resolver whether those kept satisfy the policy. The capability log's
own answer, `assembleAdmissionProof`, takes all valid attestations. Keeping one
attestation of every validator is a choice (`Choice.IsChoice`), and which choice
depends on the order of the attestations; so the two agree in every order just
if no choice loses what all of them satisfy.
-/

namespace Chronolog

open Procedure Choice KeyedMap CapabilityMembershipResolver List

/-! ## The evidence of stored attestations -/

section Evidence

variable {snapshot : CapabilitySnapshot} {policy : ValidationPolicy}
  {attestation attestation' : StoredAttestation} {l : List StoredAttestation}
  {e : ValidatorEvidence}

/-- The evidence an attestation provides, if it counts for the policy. -/
def evidenceOf (snapshot : CapabilitySnapshot) (policy : ValidationPolicy)
    (attestation : StoredAttestation) : Option ValidatorEvidence :=
  (snapshot.capabilities.get? attestation.validatorCapability).bind fun capability =>
    if countsFor snapshot policy attestation capability then
      some capability.evidence else none

theorem evidenceOf_eq_some_iff : evidenceOf snapshot policy attestation = some e ↔
    ∃ capability, snapshot.capabilities.get? attestation.validatorCapability = some capability ∧
      countsFor snapshot policy attestation capability ∧
      capability.evidence = e := by
  simp only [evidenceOf, Option.bind_eq_some_iff, Option.ite_none_right_eq_some, Option.some.injEq]

theorem mem_activeValidators_of_countsFor {capability : EffectiveCapability}
    (hget : snapshot.capabilities.get? attestation.validatorCapability = some capability)
    (hcounts : countsFor snapshot policy attestation capability) :
    capability ∈ activeValidators snapshot := by
  simp only [countsFor, Bool.and_eq_true] at hcounts
  exact mem_filter.2 ⟨mem_values_of_get? hget, hcounts.1.1.1.1.1⟩

/-- The evidence of attestations is one for each capability. -/
theorem onePerCapability_evidenceOf :
    OnePerCapability (l.filterMap (evidenceOf snapshot policy)) := by
  have key : ∀ e ∈ l.filterMap (evidenceOf snapshot policy),
      ∃ capability ∈ activeValidators snapshot, capability.evidence = e := by
    intro e he
    obtain ⟨attestation, -, hev⟩ := mem_filterMap.1 he
    obtain ⟨capability, hget, hcounts, rfl⟩ := evidenceOf_eq_some_iff.1 hev
    exact ⟨capability, mem_activeValidators_of_countsFor hget hcounts, rfl⟩
  intro e he e' he' hid
  obtain ⟨capability, hc, rfl⟩ := key e he
  obtain ⟨capability', hc', rfl⟩ := key e' he'
  rw [eq_of_mem_activeValidators hc hc' hid]

end Evidence

/-! ## The resolver's answer -/

namespace CapabilityMembershipResolver

variable {resolver : CapabilityMembershipResolver} {snapshot : CapabilitySnapshot}
  {policy : ValidationPolicy} {effective : EffectivePolicy} {context : AdmissionContext}

/-- An item of the index stands for an attestation that counts. -/
theorem of_mem_indexed {l : List StoredAttestation} {item : EffectiveCapability × StoredAttestation}
    (h : item ∈ (indexed snapshot policy l).values) :
    item.2 ∈ l ∧ snapshot.capabilities.get? item.2.validatorCapability = some item.1 ∧
      countsFor snapshot policy item.2 item.1 := by
  rw [indexed, mem_values_iff, get?_foldl_putNew, get?_empty] at h
  obtain ⟨attestation, hmem, hitem⟩ := mem_filterMap.1 (mem_of_find?_eq_some h)
  split at hitem
  · cases hitem
  · next capability hget =>
    rw [Option.ite_none_right_eq_some, Option.some.injEq] at hitem
    obtain ⟨hcounts, rfl⟩ := hitem
    exact ⟨hmem, hget, hcounts⟩

variable {capability : EffectiveCapability} {attestation : StoredAttestation}

/-- Every capability with an attestation that counts is in the index. -/
theorem exists_mem_indexed {l : List StoredAttestation} (hmem : attestation ∈ l)
    (hget : snapshot.capabilities.get? attestation.validatorCapability = some capability)
    (hcounts : countsFor snapshot policy attestation capability) :
    ∃ attestation', (capability, attestation') ∈ (indexed snapshot policy l).values := by
  obtain ⟨⟨capability', attestation'⟩, hfind⟩ : ∃ item,
      (indexed snapshot policy l).get? capability.id = some item := by
    rw [indexed, get?_foldl_putNew, get?_empty, Option.none_or,
      ← Option.isSome_iff_exists, find?_isSome]
    refine ⟨(capability, attestation), mem_filterMap.2 ⟨attestation, hmem, ?_⟩, by simp⟩
    simp [hget, hcounts]
  have hvalue := mem_values_of_get? hfind
  have hid : capability'.id = capability.id := (indexed snapshot policy l).key_eq hfind
  obtain ⟨-, hget', hcounts'⟩ := of_mem_indexed hvalue
  have heq := eq_of_mem_activeValidators (mem_activeValidators_of_countsFor hget' hcounts')
    (mem_activeValidators_of_countsFor hget hcounts) hid
  exact ⟨attestation', heq ▸ hvalue⟩

/-- The evidence of the index. -/
def indexedEvidence (snapshot : CapabilitySnapshot) (policy : ValidationPolicy)
    (l : List StoredAttestation) : List ValidatorEvidence :=
  (indexed snapshot policy l).values.map fun (capability, attestation) =>
    { capability.evidence with validatorId := attestation.validatorId }

theorem evidence_of_countsFor (h : countsFor snapshot policy attestation capability) :
    { capability.evidence with validatorId := attestation.validatorId } = capability.evidence := by
  simp only [countsFor, Bool.and_eq_true, decide_eq_true_eq] at h
  rw [← h.1.1.1.1.2]
  rfl

variable {e : ValidatorEvidence}

theorem mem_indexedEvidence_iff {l : List StoredAttestation} :
    e ∈ indexedEvidence snapshot policy l ↔ e ∈ l.filterMap (evidenceOf snapshot policy) := by
  rw [indexedEvidence, mem_map, mem_filterMap]
  constructor
  · rintro ⟨⟨capability, attestation⟩, hitem, rfl⟩
    obtain ⟨hmem, hget, hcounts⟩ := of_mem_indexed hitem
    exact ⟨attestation, hmem, evidenceOf_eq_some_iff.2
      ⟨capability, hget, hcounts, (evidence_of_countsFor hcounts).symm⟩⟩
  · rintro ⟨attestation, hmem, hev⟩
    obtain ⟨capability, hget, hcounts, rfl⟩ := evidenceOf_eq_some_iff.1 hev
    obtain ⟨attestation', hitem⟩ := exists_mem_indexed hmem hget hcounts
    exact ⟨_, hitem, evidence_of_countsFor (of_mem_indexed hitem).2.2⟩

/-- The selected attestations are some of those given, and there are some just if
    the evidence of those given satisfies the policy. -/
theorem selectAdmission_spec
    (hsnapshot : resolver.snapshot context.groupId context.membershipRevision = some snapshot)
    (hpolicy : snapshot.policies.get? context.validationPolicy = some effective)
    (hpos : 0 < effective.policy.minimumValidators) (l : List StoredAttestation) :
    ∃ selection, resolver.selectAdmission context l = .ok selection ∧ selection ⊆ l ∧
      (selection ≠ [] ↔
        Satisfies effective.policy (l.filterMap (evidenceOf snapshot effective.policy))) := by
  have hcongr : Satisfies effective.policy (indexedEvidence snapshot effective.policy l) ↔
      Satisfies effective.policy (l.filterMap (evidenceOf snapshot effective.policy)) :=
    satisfies_congr (fun _ => mem_indexedEvidence_iff) onePerCapability_evidenceOf
  have hselect : resolver.selectAdmission context l = (do
      let evaluation ← evaluateValidationPolicy effective.policy
        (indexedEvidence snapshot effective.policy l)
      if !evaluation.satisfied then return []
      return evaluation.selected.filterMap fun evidence =>
        ((indexed snapshot effective.policy l).get? evidence.capabilityId).map Prod.snd) := by
    simp only [selectAdmission, hsnapshot, hpolicy]
    rfl
  rw [← hcongr]
  by_cases hmeets : effective.policy.Meets
      (uniqueEvidence (indexedEvidence snapshot effective.policy l))
  · obtain ⟨selected, heval, hsub, hselected⟩ := evaluateValidationPolicy_of_meets hpos hmeets
    refine ⟨_, by rw [hselect, heval]; rfl, fun a ha => ?_, fun _ => ⟨_, heval, rfl⟩, fun _ => ?_⟩
    · obtain ⟨e, -, he⟩ := mem_filterMap.1 ha
      obtain ⟨item, hitem, rfl⟩ := Option.map_eq_some_iff.1 he
      exact (of_mem_indexed (mem_values_of_get? hitem)).1
    · -- A policy asks for at least one validator, whose attestation is selected.
      obtain ⟨e, he⟩ : ∃ e, e ∈ selected := by
        refine exists_mem_of_length_pos ?_
        have := hselected.total
        omega
      obtain ⟨⟨capability, attestation⟩, hitem, rfl⟩ := mem_map.1
        (mem_of_mem_uniqueEvidence (hsub.subset he))
      exact ne_nil_of_mem (mem_filterMap.2
        ⟨_, he, congrArg (Option.map Prod.snd) (mem_values_iff.1 hitem)⟩)
  · refine ⟨[], by rw [hselect, evaluateValidationPolicy_of_not_meets hpos hmeets]; rfl,
      nil_subset _, absurd rfl, fun h => absurd (satisfies_iff.1 h).2 hmeets⟩

/-- The evidence of the attestations satisfies the policy of the transaction. -/
def Admits (resolver : CapabilityMembershipResolver) (core : TransactionCore)
    (l : List StoredAttestation) : Prop :=
  ∃ snapshot effective,
    resolver.snapshot core.groupId core.membershipRevision = some snapshot ∧
    snapshot.policies.get? core.validationPolicy = some effective ∧
    Satisfies effective.policy (l.filterMap (evidenceOf snapshot effective.policy))

variable {core : TransactionCore} {candidate : StoredCandidate} {l l' : List StoredAttestation}

theorem policy_eq_some_iff : resolver.policy context = some policy ↔ ∃ snapshot effective,
    resolver.snapshot context.groupId context.membershipRevision = some snapshot ∧
    snapshot.policies.get? context.validationPolicy = some effective ∧
    effective.policy = policy := by
  simp only [CapabilityMembershipResolver.policy, Option.bind_eq_some_iff, Option.map_eq_some_iff,
    exists_and_left]

theorem admits_iff
    (hsnapshot : resolver.snapshot core.groupId core.membershipRevision = some snapshot)
    (hpolicy : snapshot.policies.get? core.validationPolicy = some effective) :
    resolver.Admits core l ↔
      Satisfies effective.policy (l.filterMap (evidenceOf snapshot effective.policy)) := by
  refine ⟨?_, fun h => ⟨snapshot, effective, hsnapshot, hpolicy, h⟩⟩
  rintro ⟨snapshot', effective', hsnapshot', hpolicy', hsat⟩
  obtain rfl : snapshot' = snapshot := Option.some.inj (hsnapshot'.symm.trans hsnapshot)
  obtain rfl : effective' = effective := Option.some.inj (hpolicy'.symm.trans hpolicy)
  exact hsat

/-- Attestations only admit a transaction under a policy that asks for validators. -/
theorem Admits.policy_eq_some (h : resolver.Admits core l) :
    ∃ policy, resolver.policy core.context = some policy ∧ 0 < policy.minimumValidators := by
  obtain ⟨snapshot, effective, hsnapshot, hpolicy, hsat⟩ := h
  exact ⟨effective.policy, policy_eq_some_iff.2 ⟨snapshot, effective, hsnapshot, hpolicy, rfl⟩,
    (satisfies_iff.1 hsat).1⟩

theorem selectAdmission_of_policy_eq_none (h : resolver.policy context = none)
    (l : List StoredAttestation) : resolver.selectAdmission context l = .ok [] := by
  rw [selectAdmission]
  split
  · rfl
  · next snapshot hsnapshot =>
    split
    · rfl
    · next policy _ hpolicy =>
      rw [policy_eq_some_iff.2 ⟨snapshot, _, hsnapshot, hpolicy, rfl⟩] at h
      cases h

theorem threshold_of_pos (hpolicy : resolver.policy context = some policy)
    (hpos : 0 < policy.minimumValidators) :
    isSafeInteger (resolver.threshold context) ∧ 1 ≤ resolver.threshold context := by
  rw [threshold, hpolicy]
  dsimp only
  split_ifs with h
  · decide
  · simp only [isSafeInteger, maxSafeInteger, Bool.and_eq_true, decide_eq_true_eq] at h ⊢
    omega

/-- More attestations admit a transaction that less attestations admit. -/
theorem Admits.mono (h : resolver.Admits core l) (hsub : l ⊆ l') : resolver.Admits core l' := by
  obtain ⟨snapshot, effective, hsnapshot, hpolicy, hsat⟩ := h
  refine ⟨snapshot, effective, hsnapshot, hpolicy, hsat.mono ?_ onePerCapability_evidenceOf⟩
  exact filterMap_subset _ hsub

theorem snapshot_eq_some_iff {groupId membershipRevision : Bytes} :
    resolver.snapshot groupId membershipRevision = some snapshot ↔
      resolver.snapshotForRevision membershipRevision = some snapshot ∧
      snapshot.groupId = groupId ∧ snapshot.revisionDigest = membershipRevision := by
  simp only [CapabilityMembershipResolver.snapshot, Option.filter_eq_some_iff, Bool.and_eq_true,
    decide_eq_true_eq]

theorem canValidate_iff {validatorId validatorCapability : Bytes}
    (hsnapshot : resolver.snapshot core.groupId core.membershipRevision = some snapshot) :
    resolver.canValidate core.context validatorId validatorCapability ↔
      ∃ capability, snapshot.capabilities.get? validatorCapability = some capability ∧
        activeRole capability snapshot .validator ∧
        capability.grant.signingPublicKey = validatorId := by
  simp only [canValidate, holdsCapability, TransactionCore.context, hsnapshot]
  cases snapshot.capabilities.get? validatorCapability <;> simp

/-- May the attestation be part of a proof? The node's check, with this resolver. -/
def proofValid (resolver : CapabilityMembershipResolver) (candidate : StoredCandidate)
    (core : TransactionCore) (attestation : StoredAttestation) : Bool :=
  attestation.txId = candidate.txId &&
  attestation.candidateDigest = candidate.candidateDigest &&
  attestation.membershipRevision = core.membershipRevision &&
  attestation.authorTimestampMs = core.authorTimestampMs &&
  attestation.acceptedAboveMs < attestation.authorTimestampMs &&
  attestation.policyVersion = resolver.policyVersion core.context &&
  resolver.canUseTransportAuthor ⟨core.groupId, core.membershipRevision, .validator,
    attestation.validatorId, attestation.transportAuthor, some attestation.validatorCapability⟩ &&
  resolver.canValidate core.context attestation.validatorId attestation.validatorCapability

/-- If no validators share a key, valid attestations of one validator provide the same evidence. -/
theorem evidenceOf_eq_some_of_proofValid
    (hsnapshot : resolver.snapshot core.groupId core.membershipRevision = some snapshot)
    (hunique : UniqueSigningKeys snapshot) {attestation attestation' : StoredAttestation}
    (hvalid : resolver.proofValid candidate core attestation)
    (hvalid' : resolver.proofValid candidate core attestation')
    (hkey : attestation'.validatorId = attestation.validatorId)
    (hev : evidenceOf snapshot policy attestation = some e) :
    evidenceOf snapshot policy attestation' = some e := by
  obtain ⟨capability, hget, hcounts, rfl⟩ := evidenceOf_eq_some_iff.1 hev
  have hactive := mem_activeValidators_of_countsFor hget hcounts
  simp only [proofValid, Bool.and_eq_true, decide_eq_true_eq] at hvalid hvalid'
  simp only [countsFor, Bool.and_eq_true, decide_eq_true_eq] at hcounts
  obtain ⟨⟨⟨⟨⟨⟨-, hrev⟩, hts⟩, -⟩, hversion⟩, -⟩, -⟩ := hvalid
  obtain ⟨⟨⟨⟨⟨⟨-, hrev'⟩, hts'⟩, habove'⟩, hversion'⟩, -⟩, hcan'⟩ := hvalid'
  obtain ⟨⟨⟨⟨⟨hrole, hcapability⟩, hdigest⟩, hpolicy⟩, -⟩, hfloor⟩ := hcounts
  obtain ⟨capability', hget', hrole', hcapability'⟩ := (canValidate_iff hsnapshot).1 hcan'
  obtain rfl : capability' = capability := by
    refine hunique _ (mem_filter.2 ⟨mem_values_of_get? hget', hrole'⟩) _ hactive ?_
    rw [hcapability', hkey, hcapability]
  refine evidenceOf_eq_some_iff.2 ⟨capability', hget', ?_, rfl⟩
  simp only [countsFor, Bool.and_eq_true, decide_eq_true_eq]
  rw [hrev', ← hrev, hts', ← hts, hversion', ← hversion]
  exact ⟨⟨⟨⟨⟨hrole, hcapability'⟩, hdigest⟩, hpolicy⟩, by rw [hts, ← hts']; exact habove'⟩, hfloor⟩

/-- If no validators share a key, one valid attestation of every validator is as
    good as all of them. -/
theorem Admits.of_isChoice {valid chosen : List StoredAttestation} (h : resolver.Admits core valid)
    (hunique : ∀ snapshot, resolver.snapshotForRevision core.membershipRevision = some snapshot →
      UniqueSigningKeys snapshot)
    (hvalid : ∀ attestation ∈ valid, resolver.proofValid candidate core attestation)
    (hchosen : IsChoice (·.validatorId) valid chosen) : resolver.Admits core chosen := by
  obtain ⟨snapshot, effective, hsnapshot, hpolicy, hsat⟩ := h
  refine ⟨snapshot, effective, hsnapshot, hpolicy, hsat.mono (fun e he => ?_)
    onePerCapability_evidenceOf⟩
  obtain ⟨attestation, hmem, hev⟩ := mem_filterMap.1 he
  obtain ⟨attestation', hmem', hkey⟩ := hchosen.covers attestation hmem
  exact mem_filterMap.2 ⟨attestation', hmem', evidenceOf_eq_some_of_proofValid hsnapshot
    (hunique snapshot (snapshot_eq_some_iff.1 hsnapshot).1) (hvalid _ hmem)
    (hvalid _ (hchosen.subset hmem')) hkey hev⟩

end CapabilityMembershipResolver

/-! ## The node's decision -/

namespace ChronologNode

open CapabilityMembershipResolver

variable {options : ChronologNodeOptions} {env : NodeEnv}
  {resolver : CapabilityMembershipResolver} {core : TransactionCore} {candidate : StoredCandidate}
  {l : List StoredAttestation}

theorem isValidAdmissionProof_eq (henv : env.membership = resolver.toMembershipResolver)
    (attestation : StoredAttestation) :
    isValidAdmissionProof options env candidate core attestation =
      .ok (resolver.proofValid candidate core attestation) := by
  simp only [isValidAdmissionProof, expectedPolicyVersion, proofTransportAuthorized, henv,
    toMembershipResolver, proofValid,
    bind, Except.bind, pure, Except.pure]
  grind

/-- The node keeps the first valid attestation of every validator. -/
theorem eligibleAttestations_eq (henv : env.membership = resolver.toMembershipResolver)
    (validators : List Bytes) : eligibleAttestations options env candidate core validators l =
      .ok (firsts (·.validatorId) validators (l.filter (resolver.proofValid candidate core))) := by
  induction l generalizing validators with
  | nil => rfl
  | cons attestation l ih =>
    rw [eligibleAttestations, isValidAdmissionProof_eq henv]
    by_cases hmem : attestation.validatorId ∈ validators
    · rw [ih, filter_cons]
      split_ifs
      · rw [firsts, if_pos hmem]
      · rfl
    · rw [if_neg hmem, filter_cons]
      by_cases hvalid : resolver.proofValid candidate core attestation
      · rw [if_pos hvalid, firsts, if_neg hmem, hvalid]
        simp only [ih]
        rfl
      · rw [Bool.eq_false_iff.2 hvalid]
        simp only [ih]
        rfl

theorem admissionProof_of_threshold_lt (henv : env.membership = resolver.toMembershipResolver)
    (h : resolver.threshold core.context < 1) :
    admissionProof options env candidate core l = .error "INVALID_VALIDATION_THRESHOLD" := by
  have hinvalid : (!isSafeInteger (resolver.threshold core.context)) = true ∨
      resolver.threshold core.context < 1 := .inr h
  simp only [admissionProof, henv, toMembershipResolver, bind,
    Except.bind, if_pos hinvalid]

/-- The node's decision, with a threshold that is one. -/
theorem admissionProof_of_selectAdmission (henv : env.membership = resolver.toMembershipResolver)
    (hsafe : isSafeInteger (resolver.threshold core.context))
    (hthreshold : 1 ≤ resolver.threshold core.context) {selection : List StoredAttestation}
    (hselect : resolver.selectAdmission core.context
      (firsts (·.validatorId) [] (l.filter (resolver.proofValid candidate core))) = .ok selection)
    (hsub : selection ⊆ firsts (·.validatorId) [] (l.filter (resolver.proofValid candidate core))) :
    admissionProof options env candidate core l =
      .ok (if selection = [] then none else some (selection.map (·.attestationId))) := by
  have hknown : ¬ ∃ item ∈ selection, item.attestationId ∉ (firsts (·.validatorId) []
      (l.filter (resolver.proofValid candidate core))).map (·.attestationId) := by
    rintro ⟨item, hitem, hunknown⟩
    exact hunknown (mem_map_of_mem (hsub hitem))
  have hinvalid : ¬ ((!isSafeInteger (resolver.threshold core.context)) = true ∨
      resolver.threshold core.context < 1) := by
    simp only [hsafe, Bool.not_true, Bool.false_eq_true, false_or]
    omega
  simp only [admissionProof, eligibleAttestations_eq henv, bind, Except.bind, pure]
  simp only [henv, toMembershipResolver, hselect, mapError_ok,
    length_eq_zero_iff]
  split_ifs <;> rfl

/-- The node admits a candidate just if the attestations it keeps do. -/
theorem admissionProof_eq_some_iff (henv : env.membership = resolver.toMembershipResolver) :
    (∃ ids, admissionProof options env candidate core l = .ok (some ids)) ↔ resolver.Admits core
        (firsts (·.validatorId) [] (l.filter (resolver.proofValid candidate core))) := by
  cases hpolicy : resolver.policy core.context with
  | none =>
    have hselect := resolver.selectAdmission_of_policy_eq_none hpolicy
      (firsts (·.validatorId) [] (l.filter (resolver.proofValid candidate core)))
    have hthreshold : resolver.threshold core.context = maxSafeInteger := by
      rw [threshold, hpolicy]
    rw [admissionProof_of_selectAdmission henv (by rw [hthreshold]; rfl)
      (by rw [hthreshold]; decide) hselect (nil_subset _)]
    refine ⟨fun ⟨ids, h⟩ => absurd h (by simp), fun h => ?_⟩
    obtain ⟨policy, hsome, -⟩ := h.policy_eq_some
    cases hpolicy.symm.trans hsome
  | some policy =>
    by_cases hpos : 0 < policy.minimumValidators
    · obtain ⟨snapshot, effective, hsnapshot, heffective, rfl⟩ :=
        policy_eq_some_iff.1 hpolicy
      obtain ⟨selection, hselect, hsub, hne⟩ := selectAdmission_spec
        hsnapshot heffective hpos
        (firsts (·.validatorId) [] (l.filter (resolver.proofValid candidate core)))
      obtain ⟨hsafe, hthreshold⟩ := resolver.threshold_of_pos hpolicy hpos
      rw [admissionProof_of_selectAdmission henv hsafe hthreshold hselect hsub]
      rw [show resolver.Admits core _ ↔ _ from
        admits_iff hsnapshot heffective, ← hne]
      split_ifs with hnil
      · exact ⟨fun ⟨ids, h⟩ => absurd h (by simp), absurd hnil⟩
      · exact ⟨fun _ => hnil, fun _ => ⟨_, rfl⟩⟩
    · rw [admissionProof_of_threshold_lt henv (by
        rw [threshold, hpolicy]
        dsimp only
        split_ifs with h
        · exact absurd (lt_trans (by decide) h) hpos
        · omega)]
      refine ⟨fun ⟨ids, h⟩ => absurd h (by simp), fun h => ?_⟩
      obtain ⟨policy', hsome, hpos'⟩ := h.policy_eq_some
      rw [hpolicy, Option.some.injEq] at hsome
      exact absurd (hsome ▸ hpos') hpos

end ChronologNode

/-! ## The capability log's decision -/

section Assemble

open CapabilityMembershipResolver

variable {resolver : CapabilityMembershipResolver} {snapshot : CapabilitySnapshot}
  {effective : EffectivePolicy} {core : TransactionCore} {candidate : StoredCandidate}
  {attestations : List (TransportRecord × ValidatorAttestation)}

/-- The attestation was accepted from its feed: it is one of the transaction's
    group, and its validator may use the feed. -/
def AcceptedFrom (resolver : CapabilityMembershipResolver) (groupId : Bytes)
    (attestation : TransportRecord × ValidatorAttestation) : Prop :=
  attestation.2.groupId = groupId ∧
  resolver.canUseTransportAuthor ⟨groupId, attestation.2.membershipRevision, .validator,
    attestation.2.validatorId, attestation.1.author, some attestation.2.validatorCapability⟩ = true

instance (resolver : CapabilityMembershipResolver) (groupId : Bytes)
    (attestation : TransportRecord × ValidatorAttestation) :
    Decidable (AcceptedFrom resolver groupId attestation) :=
  inferInstanceAs (Decidable (_ ∧ _))

/-- The stored attestations of some records. -/
def storedAttestations (attestations : List (TransportRecord × ValidatorAttestation)) :
    List StoredAttestation :=
  attestations.map fun (record, value) => value.stored record

/-- The evidence of an attestation in the capability log's decision: of one that
    the node holds for valid, what it provides. -/
theorem attestationEvidence_eq_ok_iff
    (hsnapshot : resolver.snapshot core.groupId core.membershipRevision = some snapshot)
    (hpolicy : snapshot.policies.get? core.validationPolicy = some effective)
    {record : TransportRecord} {value : ValidatorAttestation}
    (haccepted : AcceptedFrom resolver core.groupId (record, value)) {e : ValidatorEvidence} :
    attestationEvidence snapshot core candidate.txId candidate.candidateDigest effective.policy
        value = .ok e ↔ resolver.proofValid candidate core (value.stored record) ∧
        evidenceOf snapshot effective.policy (value.stored record) = some e := by
  obtain ⟨hgroup, hbound⟩ := haccepted
  obtain ⟨-, hgroupId, hdigest⟩ := snapshot_eq_some_iff.1 hsnapshot
  have hversion : resolver.policyVersion core.context = effective.policy.version := by
    rw [policyVersion, policy_eq_some_iff.2
      ⟨snapshot, effective, hsnapshot, hpolicy, rfl⟩]
  rw [attestationEvidence_eq_ok, validatorEvidenceForAttestation_eq_some_iff,
    evidenceOf_eq_some_iff]
  simp only [proofValid, countsFor,
    canValidate_iff hsnapshot, Bool.and_eq_true, hversion]
  simp only [activeRole, Bool.and_eq_true, decide_eq_true_eq]
  simp only [ValidatorAttestation.stored]
  constructor
  · rintro ⟨hv, ⟨-, -, hrev, -, htx, hdig, hts, habove⟩, capability, hget, hactive, hrole, hkey,
      hfloor, rfl⟩
    have hrev' : value.membershipRevision = core.membershipRevision := hrev.trans hdigest
    refine ⟨⟨⟨⟨⟨⟨⟨⟨htx, hdig⟩, hrev'⟩, hts⟩, habove⟩, hv⟩, hrev' ▸ hbound⟩,
      capability, hget, ⟨hrole, hactive⟩, hkey⟩, capability, hget,
      ⟨⟨⟨⟨⟨⟨hrole, hactive⟩, hkey⟩, hrev⟩, hv⟩, habove⟩, hts ▸ hfloor⟩, ?_⟩
    rw [← hkey]
    rfl
  · rintro ⟨⟨⟨⟨⟨⟨⟨⟨htx, hdig⟩, hrev⟩, hts⟩, habove⟩, hv⟩, -⟩, -⟩, capability, hget,
      ⟨⟨⟨⟨⟨⟨hrole, hactive⟩, hkey⟩, -⟩, -⟩, -⟩, hfloor⟩, rfl⟩
    refine ⟨hv, ⟨hgroup.trans hgroupId.symm, hgroupId.symm, hrev.trans hdigest.symm, hdigest.symm,
      htx, hdig, hts, habove⟩, capability, hget, hactive, hrole, hkey, hts ▸ hfloor, ?_⟩
    rw [← hkey]
    rfl

/-- The capability log admits a transaction just if all valid attestations do. -/
theorem assembleAdmissionProof_iff_admits
    (hsnapshot : resolver.snapshotForRevision core.membershipRevision = some snapshot)
    (haccepted : ∀ attestation ∈ attestations, AcceptedFrom resolver core.groupId attestation) :
    (∃ evaluation, assembleAdmissionProof snapshot core candidate.txId candidate.candidateDigest
        (attestations.map Prod.snd) = .ok evaluation ∧ evaluation.satisfied) ↔ resolver.Admits core
        ((storedAttestations attestations).filter (resolver.proofValid candidate core)) := by
  rw [assembleAdmissionProof_satisfied_iff]
  have hsnapshots : ∀ snapshot',
      resolver.snapshot core.groupId core.membershipRevision = some snapshot' →
        snapshot' = snapshot := fun snapshot' h =>
    Option.some.inj
      ((snapshot_eq_some_iff.1 h).1.symm.trans hsnapshot)
  have hmem : ∀ effective e,
      resolver.snapshot core.groupId core.membershipRevision = some snapshot →
      snapshot.policies.get? core.validationPolicy = some effective →
      (e ∈ (attestations.map Prod.snd).filterMap (fun attestation => (attestationEvidence snapshot
          core candidate.txId candidate.candidateDigest effective.policy attestation).toOption) ↔
        e ∈ ((storedAttestations attestations).filter
          (resolver.proofValid candidate core)).filterMap
            (evidenceOf snapshot effective.policy)) := by
    intro effective e hfull hpolicy
    simp only [storedAttestations, mem_filterMap, mem_filter, mem_map,
      exists_exists_and_eq_and, toOption_eq_some_iff]
    constructor
    · rintro ⟨⟨record, value⟩, hattestation, hev⟩
      obtain ⟨hvalid, hev⟩ := (attestationEvidence_eq_ok_iff hfull hpolicy
        (haccepted _ hattestation)).1 hev
      exact ⟨_, ⟨⟨_, hattestation, rfl⟩, hvalid⟩, hev⟩
    · rintro ⟨_, ⟨⟨⟨record, value⟩, hattestation, rfl⟩, hvalid⟩, hev⟩
      exact ⟨_, hattestation, (attestationEvidence_eq_ok_iff hfull hpolicy
        (haccepted _ hattestation)).2 ⟨hvalid, hev⟩⟩
  constructor
  · rintro ⟨policy, hpolicy, hsat⟩
    obtain ⟨effective, heffective, rfl⟩ := Option.map_eq_some_iff.1 hpolicy
    -- Some attestation is not rejected, so the snapshot is one of the transaction's revision.
    have hfull : resolver.snapshot core.groupId core.membershipRevision = some snapshot := by
      obtain ⟨e, he⟩ := exists_mem_of_ne_nil _ hsat.ne_nil
      obtain ⟨attestation, -, hev⟩ := mem_filterMap.1 he
      obtain ⟨-, hev⟩ := attestationEvidence_eq_ok.1 (toOption_eq_some_iff.1 hev)
      obtain ⟨⟨-, hgroup, -, hrevision, -⟩, -⟩ :=
        validatorEvidenceForAttestation_eq_some_iff.1 hev
      exact snapshot_eq_some_iff.2
        ⟨hsnapshot, hgroup.symm, hrevision.symm⟩
    refine ⟨snapshot, effective, hfull, heffective, ?_⟩
    rwa [← satisfies_congr (fun e => hmem effective e hfull heffective)
      onePerCapability_evidenceOf]
  · rintro ⟨snapshot', effective, hfull, hpolicy, hsat⟩
    obtain rfl := hsnapshots _ hfull
    refine ⟨effective.policy, by rw [policyById, hpolicy]; rfl, ?_⟩
    rwa [satisfies_congr (fun e => hmem effective e hfull hpolicy) onePerCapability_evidenceOf]

/-- In every order of the attestations the node decides as the capability log, just if no choice of
    one valid attestation of every validator loses what all valid attestations satisfy. -/
theorem admissionProof_agrees_iff (options : ChronologNodeOptions) {env : NodeEnv}
    (henv : env.membership = resolver.toMembershipResolver)
    (hsnapshot : resolver.snapshotForRevision core.membershipRevision = some snapshot)
    (haccepted : ∀ attestation ∈ attestations, AcceptedFrom resolver core.groupId attestation) :
    (∀ order, order.Perm (storedAttestations attestations) →
      ((∃ ids, ChronologNode.admissionProof options env candidate core order = .ok (some ids)) ↔
        ∃ evaluation, assembleAdmissionProof snapshot core candidate.txId
          candidate.candidateDigest (attestations.map Prod.snd) = .ok evaluation ∧
          evaluation.satisfied)) ↔
    let valid := (storedAttestations attestations).filter (resolver.proofValid candidate core)
    resolver.Admits core valid →
      ∀ chosen, IsChoice (·.validatorId) valid chosen → resolver.Admits core chosen := by
  rw [assembleAdmissionProof_iff_admits hsnapshot haccepted]
  simp only [ChronologNode.admissionProof_eq_some_iff henv]
  constructor
  · intro h hadmits chosen hchosen
    obtain ⟨valid, hperm, hfirsts⟩ := hchosen.exists_perm
    -- The choice is what is kept if the valid attestations come first, in the right order.
    set invalid := (storedAttestations attestations).filter
      (fun attestation => !resolver.proofValid candidate core attestation) with hinvalid
    have horder := h (valid ++ invalid)
      ((hperm.append_right _).trans (filter_append_perm _ _))
    have hvalid : (valid ++ invalid).filter (resolver.proofValid candidate core) = valid := by
      rw [filter_append, filter_eq_self.2 fun a ha =>
        (mem_filter.1 (hperm.subset ha)).2, filter_filter]
      simp
    rw [hvalid, hfirsts] at horder
    exact horder.2 hadmits
  · intro h order hperm
    have hkept : IsChoice (·.validatorId) (order.filter (resolver.proofValid candidate core))
        (firsts (·.validatorId) [] (order.filter (resolver.proofValid candidate core))) :=
      isChoice_firsts _
    have hvalid := hperm.filter (resolver.proofValid candidate core)
    refine ⟨fun hadmits => hadmits.mono fun a ha => hvalid.subset (hkept.subset ha), fun hadmits =>
      h hadmits _ ⟨fun a ha => hvalid.subset (hkept.subset ha), hkept.nodup, fun a ha => ?_⟩⟩
    exact hkept.covers a (hvalid.symm.subset ha)

end Assemble

/-! ## Samples -/

namespace TwoValidators

/-- A transaction of the group as a node stores it. -/
def candidate : StoredCandidate where
  txId := [30]
  groupId := [0]
  candidateDigest := [31]
  validationPolicy := [5]
  orderKey := ⟨10, [3], 1, [30]⟩
  canonicalPayload := none
  state := .pendingValidation
  stateReason := none
  proofAttestationIds := []

/-- An attestation of the transaction, in a record of a feed. -/
def attestation (id feed : String) (validatorCapability validatorId : Bytes) :
    TransportRecord × ValidatorAttestation where
  fst := ⟨id, feed, 1, none, some 0, []⟩
  snd := ⟨[0], [9], validatorCapability, [30], validatorId, 10, 0, [31], 1⟩

/-- A node that follows the group. -/
def options : ChronologNodeOptions where
  codec := .ofTables [] [] [] [] []
  groupId := [0]
  identity := [8]
  transportIdentity := "node"
  executionManifestDigest := []

/-- What a node finds around it, with a resolver of the group. -/
def env (resolver : CapabilityMembershipResolver) : NodeEnv where
  membership := resolver.toMembershipResolver
  membershipState := ⟨[9], [5], none⟩

/-- The node agrees with the capability log if the bank attests last. -/
theorem admissionProof_agrees :
    (∃ ids, ChronologNode.admissionProof options (env resolver) candidate core
      (storedAttestations [attestation "b" "y" [12] [2], attestation "a" "x" [11] [1]]) =
        .ok (some ids)) ↔ ∃ evaluation, assembleAdmissionProof snapshot core [30] [31]
        [(attestation "a" "x" [11] [1]).2, (attestation "b" "y" [12] [2]).2] = .ok evaluation ∧
        evaluation.satisfied :=
  (@admissionProof_agrees_iff resolver snapshot core candidate
    [attestation "a" "x" [11] [1], attestation "b" "y" [12] [2]] options (env resolver) rfl rfl
    (by decide)).2
    (fun hadmits _ hchosen => hadmits.of_isChoice (fun _ => uniqueSigningKeys (by decide))
      (fun _ h => (mem_filter.1 h).2) hchosen) _ (Perm.swap _ _ _)

end TwoValidators

namespace SharedKey

open TwoValidators (capability genesis core candidate attestation options env)

/-- One key that is a bank's and an auditor's, another that is an auditor's, and
    a policy that asks for a bank and an auditor. -/
def snapshot : CapabilitySnapshot :=
  genesis [capability [11] [1] "x" .validator (some "bank"),
    capability [12] [1] "x" .validator (some "auditor"),
    capability [13] [2] "y" .validator (some "auditor")]
    ⟨1, 2, .ofList [("bank", 1), ("auditor", 1)], []⟩

/-- The resolver of the group. -/
def resolver : CapabilityMembershipResolver := TwoValidators.resolverOf snapshot

/-- The attestations of all capabilities. -/
def attestations : List (TransportRecord × ValidatorAttestation) :=
  [attestation "a" "x" [11] [1], attestation "b" "x" [12] [1], attestation "c" "y" [13] [2]]

/-- The attestations admit the transaction, and the node admits it if the key
    attests as a bank first, but not if it attests as an auditor first. -/
theorem admissionProof_depends_on_order :
    (∀ attestation ∈ attestations, AcceptedFrom resolver [0] attestation) ∧
    (∃ evaluation, assembleAdmissionProof snapshot core [30] [31] (attestations.map Prod.snd) =
      .ok evaluation ∧ evaluation.satisfied) ∧
    (∃ ids, ChronologNode.admissionProof options (env resolver) candidate core
      (storedAttestations attestations) = .ok (some ids)) ∧
    ¬ ∃ ids, ChronologNode.admissionProof options (env resolver) candidate core
      (storedAttestations [attestation "b" "x" [12] [1], attestation "a" "x" [11] [1],
        attestation "c" "y" [13] [2]]) = .ok (some ids) := by
  refine ⟨by decide, ⟨_, rfl, rfl⟩, ⟨_, rfl⟩, ?_⟩
  rintro ⟨ids, h⟩
  exact absurd h (by simp [show ChronologNode.admissionProof options (env resolver) candidate core
      (storedAttestations [attestation "b" "x" [12] [1], attestation "a" "x" [11] [1],
        attestation "c" "y" [13] [2]]) = .ok none from rfl])

end SharedKey

end Chronolog
