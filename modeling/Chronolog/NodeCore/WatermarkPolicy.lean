import Chronolog.NodeCore.Membership

/-!
# The watermark of a policy at a revision

The watermark policy of a transaction, asked of the capability log, describes
the validator sets whose evidence satisfies the transaction's policy: the
enumeration of `minimalProofs` finds a part of each of them, and finds nothing
else. So the watermark computed for it is the greatest cutoff that a validator
of every such set has passed.
-/

namespace Chronolog

open Procedure Blocking ControlStore List

/-- The capabilities are validators of the snapshot whose evidence satisfies the policy. -/
structure IsProof (snapshot : CapabilitySnapshot) (policy : ValidationPolicy)
    (S : List EffectiveCapability) : Prop where
  active : ∀ c ∈ S, c ∈ activeValidators snapshot
  satisfies : Satisfies policy (S.map (·.evidence))

/-- No two validators of the snapshot share a signing key. -/
def UniqueSigningKeys (snapshot : CapabilitySnapshot) : Prop :=
  ∀ c ∈ activeValidators snapshot, ∀ c' ∈ activeValidators snapshot,
    c.grant.signingPublicKey = c'.grant.signingPublicKey → c = c'

instance (snapshot : CapabilitySnapshot) : Decidable (UniqueSigningKeys snapshot) :=
  inferInstanceAs (Decidable (∀ c ∈ _, ∀ c' ∈ _, _ → _))

section Evidence

variable {snapshot : CapabilitySnapshot} {policy : ValidationPolicy}

theorem nodup_activeValidators (snapshot : CapabilitySnapshot) :
    ((activeValidators snapshot).map (·.id)).Nodup :=
  (KeyedMap.nodup_values_map_key snapshot.capabilities).sublist (filter_sublist.map _)

theorem eq_of_mem_activeValidators {c c' : EffectiveCapability} (hc : c ∈ activeValidators snapshot)
    (hc' : c' ∈ activeValidators snapshot) (hid : c.id = c'.id) : c = c' :=
  inj_on_of_nodup_map (nodup_activeValidators snapshot) hc hc' hid

/-- A capability of the snapshot has one evidence. -/
theorem onePerCapability_evidence {S : List EffectiveCapability}
    (hS : ∀ c ∈ S, c ∈ activeValidators snapshot) : OnePerCapability (S.map (·.evidence)) := by
  intro e he e' he' hid
  obtain ⟨c, hc, rfl⟩ := mem_map.1 he
  obtain ⟨c', hc', rfl⟩ := mem_map.1 he'
  rw [eq_of_mem_activeValidators (hS c hc) (hS c' hc') hid]

end Evidence

/-! ## The enumeration of minimal proofs -/

section Visit

variable {policy : ValidationPolicy} {rest selected : List EffectiveCapability}
  {results results' : List (List Bytes)}

/-- What a visit adds to the results: key lists of selections that satisfy the
    policy, such that every selection that does contains one. -/
structure Visited (policy : ValidationPolicy) (rest selected : List EffectiveCapability)
    (results results' : List (List Bytes)) : Prop where
  kept : results ⊆ results'
  sound : ∀ P ∈ results', P ∈ results ∨ ∃ s, s.Sublist rest ∧
    Satisfies policy ((selected ++ s).map (·.evidence)) ∧
      P = (selected ++ s).map (·.grant.signingPublicKey)
  complete : ∀ s, s.Sublist rest → Satisfies policy ((selected ++ s).map (·.evidence)) →
    ∃ P ∈ results', P ⊆ (selected ++ s).map (·.grant.signingPublicKey)

theorem visited_of_visit_nil (h : visit policy [] selected results = .ok results') :
    Visited policy [] selected results results' := by
  obtain ⟨evaluation, heval, h⟩ := bind_eq_ok_iff.1 h
  have hsat : Satisfies policy (selected.map (·.evidence)) ↔ evaluation.satisfied := by
    refine ⟨fun ⟨evaluation', heval', hsat⟩ => ?_, fun hsat => ⟨evaluation, heval, hsat⟩⟩
    rw [heval, Except.ok.injEq] at heval'
    rwa [heval']
  -- The only sublist of nothing adds nothing to the selection.
  have hnil : ∀ s, s.Sublist ([] : List EffectiveCapability) → selected ++ s = selected :=
    fun s hs => by rw [sublist_nil.1 hs, append_nil]
  split_ifs at h with h₁ h₂
  · cases h
    refine ⟨Subset.refl _, fun P hP => .inl hP, fun s hs hs' => ?_⟩
    rw [hnil s hs, hsat] at hs'
    simp [hs'] at h₁
  · cases h
    refine ⟨Subset.refl _, fun P hP => .inl hP, fun s hs _ => ?_⟩
    simp only [any_eq_true, all_eq_true, decide_eq_true_eq] at h₂
    obtain ⟨P, hP, hsub⟩ := h₂
    refine ⟨P, hP, fun id hid => ?_⟩
    obtain ⟨c, hc, rfl⟩ := hsub id hid
    rw [hnil s hs]
    exact mem_map_of_mem hc
  · cases h
    refine ⟨subset_append_left _ _, fun P hP => ?_, fun s hs _ => ?_⟩
    · rcases mem_append.1 hP with hP | hP
      · exact .inl hP
      · refine .inr ⟨[], Sublist.refl _, ?_, ?_⟩
        · rw [append_nil, hsat]
          simpa using h₁
        · rw [append_nil, mem_singleton.1 hP]
    · rw [hnil s hs]
      exact ⟨_, mem_append_right _ (mem_singleton_self _), Subset.refl _⟩

/-- A visit extends the results by what `Visited` says. -/
theorem visited_of_visit (h : visit policy rest selected results = .ok results') :
    Visited policy rest selected results results' := by
  induction rest generalizing selected results results' with
  | nil => exact visited_of_visit_nil h
  | cons validator rest ih =>
    obtain ⟨results₁, h₁, h₂⟩ := bind_eq_ok_iff.1 h
    have hwithout := ih h₁
    have hwith := ih h₂
    refine ⟨Subset.trans hwithout.kept hwith.kept, fun P hP => ?_, fun s hs hsat => ?_⟩
    · rcases hwith.sound P hP with hP | ⟨s, hs, hsat, rfl⟩
      · rcases hwithout.sound P hP with hP | ⟨s, hs, hsat, rfl⟩
        · exact .inl hP
        · exact .inr ⟨s, hs.cons validator, hsat, rfl⟩
      · rw [append_assoc] at hsat ⊢
        exact .inr ⟨validator :: s, hs.cons_cons validator, hsat, rfl⟩
    · -- A sublist takes the next validator or it does not.
      rcases sublist_cons_iff.1 hs with hs' | ⟨s, rfl, hs'⟩
      · obtain ⟨P, hP, hsub⟩ := hwithout.complete s hs' hsat
        exact ⟨P, hwith.kept hP, hsub⟩
      · have happend : selected ++ validator :: s = selected ++ [validator] ++ s := by simp
        rw [happend] at hsat ⊢
        exact hwith.complete s hs' hsat

end Visit

/-! ## The watermark -/

section Watermark

variable {snapshot : CapabilitySnapshot} {policy : ValidationPolicy} {store : ControlStore}
  {level : Bytes → Option Int}

/-- The key lists of the proofs of a policy. -/
def proofKeys (snapshot : CapabilitySnapshot) (policy : ValidationPolicy) : Set (List Bytes) :=
  {K | ∃ S, IsProof snapshot policy S ∧ K = S.map (·.grant.signingPublicKey)}

variable {evidence : WatermarkEvidence} {proofs : List (List Bytes)}

/-- The watermark of the minimal proofs is that of all proofs. -/
theorem isWatermark_of_minimalProofs
    (hproofs : minimalProofs policy (activeValidators snapshot) = .ok proofs)
    (h : IsWatermark {P | P ∈ proofs} level evidence) :
    IsWatermark (proofKeys snapshot policy) level evidence := by
  have hvisited := visited_of_visit hproofs
  refine h.of_contains ?_ ?_
  · rintro _ ⟨S, hS, rfl⟩
    -- The validators of the proof, in the order of the enumeration.
    have hmem : ∀ c, c ∈ (activeValidators snapshot).filter (· ∈ S) ↔ c ∈ S := fun c => by
      simpa using hS.active c
    have hsat : Satisfies policy
        (((activeValidators snapshot).filter (· ∈ S)).map (·.evidence)) := by
      refine (satisfies_congr (fun e => ?_) (onePerCapability_evidence hS.active)).2 hS.satisfies
      simp only [mem_map, hmem]
    obtain ⟨P, hP, hsub⟩ := hvisited.complete _ filter_sublist hsat
    refine ⟨P, hP, fun v hv => ?_⟩
    obtain ⟨c, hc, rfl⟩ := mem_map.1 (hsub hv)
    exact mem_map_of_mem ((hmem c).1 hc)
  · intro P hP
    rcases hvisited.sound P hP with hP | ⟨s, hs, hsat, rfl⟩
    · cases hP
    · exact ⟨_, ⟨s, ⟨fun c hc => hs.subset hc, hsat⟩, rfl⟩, Subset.refl _⟩

theorem ne_nil_of_mem_minimalProofs
    (hproofs : minimalProofs policy (activeValidators snapshot) = .ok proofs) :
    ∀ P ∈ proofs, P ≠ [] := by
  rintro P hP rfl
  rcases (visited_of_visit hproofs).sound [] hP with hP | ⟨s, _, hsat, hnil⟩
  · cases hP
  · rw [map_eq_nil_iff.1 hnil.symm] at hsat
    exact not_satisfies_nil hsat

/-- Without class and organization constraints, the proofs of a policy are the
    sets of enough validators. -/
theorem isWatermark_of_threshold (hclasses : policy.classMinimums.entries = [])
    (horgs : policy.requiredOrganizations = []) (hpos : 0 < policy.minimumValidators)
    (hkeys : UniqueSigningKeys snapshot)
    (h : IsWatermark (atLeast ((activeValidators snapshot).map (·.grant.signingPublicKey)) policy.minimumValidators.toNat) level evidence) :
    IsWatermark (proofKeys snapshot policy) level evidence := by
  refine h.of_contains ?_ ?_
  · rintro _ ⟨S, hS, rfl⟩
    refine ⟨_, ⟨?_, ?_⟩, Subset.refl _⟩
    · exact fun v hv => by
        obtain ⟨c, hc, rfl⟩ := mem_map.1 hv
        exact mem_map_of_mem (hS.active c hc)
    · -- The evidence counted by the policy has pairwise different keys.
      have hnodup : ((uniqueEvidence (S.map (·.evidence))).map (·.validatorId)).Nodup := by
        refine (nodup_uniqueEvidence _).map_on fun e he e' he' hid => ?_
        obtain ⟨c, hc, rfl⟩ := mem_map.1 (mem_of_mem_uniqueEvidence he)
        obtain ⟨c', hc', rfl⟩ := mem_map.1 (mem_of_mem_uniqueEvidence he')
        rw [hkeys c (hS.active c hc) c' (hS.active c' hc') hid]
      have hsub : (uniqueEvidence (S.map (·.evidence))).map (·.validatorId) ⊆
          (S.map (·.grant.signingPublicKey)).dedup := fun v hv => by
        obtain ⟨e, he, rfl⟩ := mem_map.1 hv
        obtain ⟨c, hc, rfl⟩ := mem_map.1 (mem_of_mem_uniqueEvidence he)
        exact mem_dedup.2 (mem_map_of_mem hc)
      have hlen := (subperm_of_subset hnodup hsub).length_le
      rw [length_map] at hlen
      have := (satisfies_iff.1 hS.satisfies).2.total
      omega
  · rintro K ⟨hKV, hK⟩
    -- The validators with the keys are a proof.
    set S := (activeValidators snapshot).filter (·.grant.signingPublicKey ∈ K) with hSdef
    have hactive : ∀ c ∈ S, c ∈ activeValidators snapshot := fun c hc =>
      mem_of_mem_filter hc
    have hSK : S.map (·.grant.signingPublicKey) ⊆ K := fun v hv => by
      obtain ⟨c, hc, rfl⟩ := mem_map.1 hv
      simpa using (mem_filter.1 hc).2
    have hKS : K.dedup ⊆ S.map (·.grant.signingPublicKey) := fun v hv => by
      obtain ⟨c, hc, rfl⟩ := mem_map.1 (hKV (mem_dedup.1 hv))
      exact mem_map_of_mem (mem_filter.2 ⟨hc, by simpa using mem_dedup.1 hv⟩)
    have hSnodup : (S.map (·.evidence)).Nodup := by
      have hids : (S.map (·.id)).Nodup :=
        (nodup_activeValidators snapshot).sublist (filter_sublist.map _)
      refine hids.of_map.map_on fun c hc c' hc' he => ?_
      exact eq_of_mem_activeValidators (hactive c hc) (hactive c' hc')
        (congrArg ValidatorEvidence.capabilityId he)
    have hlen := (subperm_of_subset K.nodup_dedup hKS).length_le
    rw [length_map] at hlen
    refine ⟨_, ⟨S, ⟨hactive, satisfies_iff.2 ⟨hpos, ?_, ?_, ?_⟩⟩, rfl⟩, hSK⟩
    · rw [(perm_uniqueEvidence (onePerCapability_evidence hactive) hSnodup).length_eq,
        length_map]
      omega
    · rw [hclasses]
      exact fun c hc => absurd hc not_mem_nil
    · rw [horgs]
      exact fun o ho => absurd ho not_mem_nil

/-- A recorded heartbeat of the validator for the revision, of a contiguous feed,
    has a cutoff of at least `T`. -/
def ControlStore.HasPassed (store : ControlStore) (membershipRevision validatorId : Bytes)
    (T : Int) : Prop :=
  ∃ h ∈ store.heartbeats.values, h.membershipRevision = membershipRevision ∧
    h.validatorId = validatorId ∧ h.feedContiguous ∧ T ≤ h.acceptanceCutoffMs

theorem hasPassed_iff {membershipRevision validatorId : Bytes} {T : Int} :
    store.HasPassed membershipRevision validatorId T ↔
      Reaches (store.contiguousCutoff (some membershipRevision)) T validatorId := by
  constructor
  · rintro ⟨h, hmem, rfl, rfl, hcontiguous, hT⟩
    exact reaches_of_contiguousHeartbeat
      (contiguousHeartbeat_eq_some_iff.2
        ⟨KeyedMap.mem_values_iff.1 hmem, hcontiguous⟩) hT
  · rintro ⟨c, hc, hT⟩
    obtain ⟨h, hh, rfl⟩ := Option.map_eq_some_iff.1 hc
    obtain ⟨hh, hcontiguous⟩ := contiguousHeartbeat_eq_some_iff.1 hh
    have hkey := KeyedMap.key_eq hh
    exact ⟨h, KeyedMap.mem_values_of_get? hh, congrArg Prod.fst hkey, congrArg Prod.snd hkey,
      hcontiguous, hT⟩

/-- A threshold watermark is not established for keys that are shared. -/
theorem uniqueSigningKeys_of_thresholdWatermark {policyId : Bytes} {threshold : Int}
    {membershipRevision : Option Bytes}
    (h : (store.thresholdWatermark policyId ((activeValidators snapshot).map
      (·.grant.signingPublicKey)) threshold membershipRevision).cutoffMs.isSome) :
    UniqueSigningKeys snapshot := by
  rw [thresholdWatermark] at h
  split_ifs at h with hinvalid
  · cases h
  all_goals
    simp only [not_or, not_not] at hinvalid
    have hnodup := dedup_eq_self.1 ((dedup_sublist _).eq_of_length hinvalid.2.2.2)
    exact fun c hc c' hc' hkey => inj_on_of_nodup_map hnodup hc hc' hkey

variable {resolver : CapabilityMembershipResolver} {watermarkPolicy : WatermarkPolicy}
  {effective : EffectivePolicy} {core : TransactionCore}

/-- The watermark of a transaction's policy is that of the policy's proofs, if
    the validators have different keys or the watermark is established. -/
theorem isWatermark_watermarkPolicy
    (hsnapshot : resolver.snapshot core.groupId core.membershipRevision = some snapshot)
    (heffective : snapshot.policies.get? core.validationPolicy = some effective)
    (hpolicy : resolver.watermarkPolicy core = .ok (some watermarkPolicy))
    (hkeys : UniqueSigningKeys snapshot ∨ (store.watermark watermarkPolicy (some core.membershipRevision)).cutoffMs.isSome) :
    IsWatermark (proofKeys snapshot effective.policy)
      (store.contiguousCutoff (some core.membershipRevision))
      (store.watermark watermarkPolicy (some core.membershipRevision)) := by
  simp only [CapabilityMembershipResolver.watermarkPolicy, hsnapshot, heffective] at hpolicy
  split_ifs at hpolicy with hmax hthreshold hsafe
  · cases hpolicy
  · cases hpolicy
  · -- A threshold policy.
    cases hpolicy
    replace hkeys : UniqueSigningKeys snapshot :=
      hkeys.elim id uniqueSigningKeys_of_thresholdWatermark
    have hnodup : ((activeValidators snapshot).map (·.grant.signingPublicKey)).Nodup :=
      (nodup_activeValidators snapshot).of_map.map_on hkeys
    rcases lt_or_ge 0 effective.policy.minimumValidators with hpos | hpos
    · exact isWatermark_of_threshold (length_eq_zero_iff.1 hthreshold.1)
        (length_eq_zero_iff.1 hthreshold.2) hpos hkeys
        (isWatermark_thresholdWatermark hnodup hpos (by simpa using hsafe))
    · -- No evidence satisfies a policy that asks for no validator.
      rw [watermark, thresholdWatermark,
        if_pos (.inr (.inl (by omega)))]
      refine isWatermark_noWatermark (fun T => not_isGreatest_cutoffs_empty ?_) _ _
      refine Set.eq_empty_of_forall_notMem fun K hK => ?_
      obtain ⟨S, hS, -⟩ := hK
      exact absurd (satisfies_iff.1 hS.satisfies).1 (not_lt.2 hpos)
  · -- Alternative proofs.
    obtain ⟨proofs, hproofs, hpolicy⟩ := bind_eq_ok_iff.1 hpolicy
    have hpolicy := Except.ok.inj hpolicy
    split_ifs at hpolicy with hlen
    cases hpolicy
    exact isWatermark_of_minimalProofs hproofs (isWatermark_proofAlternatives
      (fun hnil => hlen (length_eq_zero_iff.2 hnil)) (ne_nil_of_mem_minimalProofs hproofs))

/-- The cutoffs that the proofs of a policy have passed. -/
theorem setOf_hasPassed (store : ControlStore) (membershipRevision : Bytes) :
    {T | ∀ S, IsProof snapshot policy S → ∃ c ∈ S,
        store.HasPassed membershipRevision c.grant.signingPublicKey T} =
      cutoffs (proofKeys snapshot policy) (store.contiguousCutoff (some membershipRevision)) := by
  ext T
  simp only [hasPassed_iff]
  refine ⟨fun h K ⟨S, hS, hK⟩ => ?_, fun h S hS => ?_⟩
  · obtain ⟨c, hc, hreach⟩ := h S hS
    exact ⟨_, hK ▸ mem_map_of_mem hc, hreach⟩
  · obtain ⟨v, hv, hreach⟩ := h _ ⟨S, hS, rfl⟩
    obtain ⟨c, hc, rfl⟩ := mem_map.1 hv
    exact ⟨c, hc, hreach⟩

/-- A validator of every proof of the policy has passed an established watermark. -/
theorem hasPassed_of_watermark
    (hsnapshot : resolver.snapshot core.groupId core.membershipRevision = some snapshot)
    (heffective : snapshot.policies.get? core.validationPolicy = some effective)
    (hpolicy : resolver.watermarkPolicy core = .ok (some watermarkPolicy)) {T : Int}
    (hT : (store.watermark watermarkPolicy (some core.membershipRevision)).cutoffMs = some T)
    {S : List EffectiveCapability} (hS : IsProof snapshot effective.policy S) :
    ∃ c ∈ S, store.HasPassed core.membershipRevision c.grant.signingPublicKey T := by
  have hestablished := isWatermark_watermarkPolicy hsnapshot heffective hpolicy
    (.inr (Option.isSome_iff_exists.2 ⟨T, hT⟩))
  have hgreatest := (hestablished.isGreatest T).1 hT
  rw [← setOf_hasPassed] at hgreatest
  exact hgreatest.1 S hS

/-- The cutoff of the watermark of a transaction's policy is the greatest one that, in every set of
    validators whose evidence satisfies the policy, the recorded heartbeat of a validator has
    reached; there is no cutoff if there is no greatest one. The blocking validators of an
    established watermark meet every such set, and the heartbeat of each has reached the cutoff. -/
theorem watermark_cutoffMs_isGreatest {resolver : CapabilityMembershipResolver}
    {core : TransactionCore} {effective : EffectivePolicy} {watermarkPolicy : WatermarkPolicy}
    (hsnapshot : resolver.snapshot core.groupId core.membershipRevision = some snapshot)
    (heffective : snapshot.policies.get? core.validationPolicy = some effective)
    (hpolicy : resolver.watermarkPolicy core = .ok (some watermarkPolicy))
    (hkeys : UniqueSigningKeys snapshot) (store : ControlStore) :
    let evidence := store.watermark watermarkPolicy (some core.membershipRevision)
    (∀ T, evidence.cutoffMs = some T ↔
      IsGreatest {T | ∀ S, IsProof snapshot effective.policy S → ∃ c ∈ S,
        store.HasPassed core.membershipRevision c.grant.signingPublicKey T} T) ∧
    ∀ T, evidence.cutoffMs = some T →
      (∀ S, IsProof snapshot effective.policy S →
        ∃ c ∈ S, c.grant.signingPublicKey ∈ evidence.blockingValidatorIds) ∧
      ∀ v ∈ evidence.blockingValidatorIds, store.HasPassed core.membershipRevision v T := by
  obtain ⟨hgreatest, hmeets, hreaches⟩ :=
    isWatermark_watermarkPolicy hsnapshot heffective hpolicy (.inl hkeys)
  refine ⟨fun T => by rw [setOf_hasPassed, ← hgreatest], fun T hT => ⟨fun S hS => ?_, fun v hv => ?_⟩⟩
  · obtain ⟨v, hv, hblocking⟩ := hmeets T hT _ ⟨S, hS, rfl⟩
    obtain ⟨c, hc, rfl⟩ := mem_map.1 hv
    exact ⟨c, hc, hblocking⟩
  · exact hasPassed_iff.2 (hreaches T hT v hv)

end Watermark

/-! ## A group of two validators -/

namespace TwoValidators

/-- A capability granted at genesis. -/
def capability (id key : Bytes) (feed : String) (role : CapabilityRole)
    (validatorClass : Option String) : EffectiveCapability where
  id
  grant := {
    subjectId := key
    signingPublicKey := key
    transportAuthor := some feed
    role
    validFromRevision := 0
    validUntilRevision := none
    organization := none
    validatorClass
    minimumAuthorTimestampMs := none
    readerScope := none
    hpkePublicKey := none }
  grantedAtRevision := 0
  revokedAtRevision := none

/-- The genesis snapshot of a group with one policy. -/
def genesis (capabilities : List EffectiveCapability) (policy : ValidationPolicy) :
    CapabilitySnapshot where
  groupId := [0]
  revision := 0
  revisionDigest := [9]
  rootAdminPublicKey := [7]
  capabilityLogFeed := []
  capabilities := capabilities.foldl KeyedMap.put .empty
  policies := KeyedMap.empty.put ⟨[5], policy, 0⟩
  recoveryPublicKeys := []
  recoveryThreshold := 0
  historyReopened := false
  recoveryEventDigest := none

/-- A bank and another validator, and a policy that asks for a bank. -/
def snapshot : CapabilitySnapshot :=
  genesis [capability [11] [1] "x" .validator (some "bank"),
    capability [12] [2] "y" .validator none] ⟨1, 1, .ofList [("bank", 1)], []⟩

/-- The resolver of a group that has no revision but its genesis. -/
def resolverOf (snapshot : CapabilitySnapshot) : CapabilityMembershipResolver where
  snapshotForRevision digest := if digest = [9] then some snapshot else none

theorem uniqueSigningKeys {snapshot found : CapabilitySnapshot} (h : UniqueSigningKeys snapshot)
    {revision : Bytes} (hfound : (resolverOf snapshot).snapshotForRevision revision = some found) :
    UniqueSigningKeys found := by
  cases (Option.ite_none_right_eq_some.1 hfound).2
  exact h

def resolver : CapabilityMembershipResolver := resolverOf snapshot

/-- A transaction of the group. -/
def core : TransactionCore where
  groupId := [0]
  membershipRevision := [9]
  validationPolicy := [5]
  authorId := [3]
  authorTimestampMs := 10
  nonce := []
  executionManifestDigest := []
  program := ⟨[], []⟩
  metadata := none

/-- A store with a heartbeat of each validator. -/
def store : ControlStore where
  heartbeats := (KeyedMap.empty.put ⟨[21], [1], [11], [9], 1, 40, true⟩).put
    ⟨[22], [2], [12], [9], 1, 50, true⟩

/-- Only the bank's heartbeat counts. -/
theorem watermark_cutoffMs :
    IsGreatest {T | ∀ S, IsProof snapshot ⟨1, 1, .ofList [("bank", 1)], []⟩ S → ∃ c ∈ S,
      store.HasPassed [9] c.grant.signingPublicKey T} 40 :=
  ((@watermark_cutoffMs_isGreatest snapshot resolver core
    ⟨[5], ⟨1, 1, .ofList [("bank", 1)], []⟩, 0⟩ (.proofAlternatives [5] [[[1]]])
    rfl rfl rfl (by decide) store).1 40).1 rfl

end TwoValidators

end Chronolog
