import Chronolog.ControlStore.Store
import Chronolog.Lib.Blocking
import Chronolog.Lib.Text
import Mathlib

/-!
# Watermarks

The watermark of a policy: the greatest cutoff that, by the recorded heartbeats,
a member of every validator set that can admit a transaction has passed. The
source computes it in two ways: for a threshold policy as an order statistic of
the cutoffs, for a list of alternative proofs as the least of the greatest
cutoffs of the proofs. Both are instances of `Blocking.cutoffs`:

* `isGreatest_cutoffs_of_threshold`, `isGreatest_cutoffs_of_alternatives`: the cutoff of the
  watermark is the greatest one that blocks the family of validator sets of the policy;
* `blocking_threshold`, `blocking_alternatives`: the blocking validators of an established watermark
  meet every set of the family, and each of them has passed the cutoff.
-/

namespace Chronolog

variable {level : Bytes → Option Int}

/-- `Number.isSafeInteger`, of the number nearest to an integer. -/
def isSafeInteger (n : Int) : Bool := -(2 ^ 53 - 1) ≤ n && n ≤ 2 ^ 53 - 1

namespace ControlStore

/-- The recorded heartbeat of a validator for a revision; without a revision,
    the one latest in the validator's feed. -/
def heartbeatFor (store : ControlStore) (validatorId : Bytes) (membershipRevision : Option Bytes) :
    Option StoredHeartbeat :=
  match membershipRevision with
  | some revision => store.heartbeats.get? (revision, validatorId)
  | none => store.heartbeats.values.foldl (fun latest heartbeat =>
      if heartbeat.validatorId = validatorId ∧
          latest.all fun l => l.validatorFeedSequence < heartbeat.validatorFeedSequence
      then some heartbeat else latest) none

/-- The recorded heartbeat of a validator, if its feed is contiguous. -/
def contiguousHeartbeat (store : ControlStore) (membershipRevision : Option Bytes)
    (validatorId : Bytes) : Option StoredHeartbeat :=
  (store.heartbeatFor validatorId membershipRevision).filter (·.feedContiguous)

/-- A watermark that is not established. -/
def noWatermark (policyId : Bytes) (explanation : WatermarkExplanation) : WatermarkEvidence :=
  ⟨policyId, none, [], [], explanation⟩

/-- The watermark of a cutoff and the heartbeats that establish it. -/
def establishedWatermark (policyId : Bytes) (cutoffMs : Int) (blocking : List StoredHeartbeat) :
    WatermarkEvidence :=
  ⟨policyId, some cutoffMs, blocking.map (·.validatorId), blocking.map (·.heartbeatId),
    .established⟩

/-- The watermark of a threshold policy. Every proof intersects any `n - threshold + 1` validators,
    so the cutoff is the `threshold`-th lowest one, missing feeds coming first. -/
def thresholdWatermark (store : ControlStore) (policyId : Bytes) (validatorIds : List Bytes)
    (threshold : Int) (membershipRevision : Option Bytes) : WatermarkEvidence :=
  if !isSafeInteger threshold ∨ threshold < 1 ∨ (validatorIds.length : Int) < threshold ∨
      validatorIds.dedup.length ≠ validatorIds.length then noWatermark policyId .invalidPolicy
  else
    let available := (validatorIds.filterMap
      (store.contiguousHeartbeat membershipRevision)).insertionSort
        fun left right => left.acceptanceCutoffMs ≤ right.acceptanceCutoffMs
    let missing := validatorIds.length - available.length
    let selectedIndex : Int := threshold - 1 - missing
    if selectedIndex < 0 then noWatermark policyId .insufficientContiguousHeartbeats
    else match available[selectedIndex.toNat]? with
      | none => noWatermark policyId .insufficientContiguousHeartbeats
      | some selected =>
        establishedWatermark policyId selected.acceptanceCutoffMs
          (available.filter fun heartbeat =>
            selected.acceptanceCutoffMs ≤ heartbeat.acceptanceCutoffMs)

/-- The heartbeat of a proof with the greatest cutoff. -/
def bestHeartbeat (store : ControlStore) (membershipRevision : Option Bytes)
    (proof : List Bytes) : Option StoredHeartbeat :=
  proof.foldl (fun best validatorId =>
    match store.contiguousHeartbeat membershipRevision validatorId with
    | none => best
    | some heartbeat =>
      if best.all fun b => b.acceptanceCutoffMs < heartbeat.acceptanceCutoffMs
      then some heartbeat else best) none

/-- The loop over the alternative proofs: the least of their greatest cutoffs,
    and the heartbeats with these; `none` if a proof has no heartbeat. -/
def alternativesLoop (store : ControlStore) (membershipRevision : Option Bytes) :
    List (List Bytes) → Option Int → KeyedMap StoredHeartbeat.validatorId →
      Option (Option Int × KeyedMap StoredHeartbeat.validatorId)
  | [], cutoff, selected => some (cutoff, selected)
  | proof :: proofs, cutoff, selected =>
    match store.bestHeartbeat membershipRevision proof with
    | none => none
    | some best =>
      alternativesLoop store membershipRevision proofs
        (if cutoff.all (best.acceptanceCutoffMs < ·) then some best.acceptanceCutoffMs else cutoff)
        (selected.put best)

/-- The watermark of a policy. -/
def watermark (store : ControlStore) (policy : WatermarkPolicy)
    (membershipRevision : Option Bytes) : WatermarkEvidence :=
  match policy with
  | .threshold policyId validatorIds threshold =>
    store.thresholdWatermark policyId validatorIds threshold membershipRevision
  | .proofAlternatives policyId proofs =>
    if proofs.length = 0 ∨ proofs.any (·.length = 0) then noWatermark policyId .invalidPolicy
    else match store.alternativesLoop membershipRevision proofs none .empty with
      | none => noWatermark policyId .insufficientContiguousHeartbeats
      | some (none, _) => noWatermark policyId .established
      | some (some cutoff, selected) =>
        establishedWatermark policyId cutoff
          (selected.values.filter fun heartbeat => cutoff ≤ heartbeat.acceptanceCutoffMs)

/-- The attestations of transactions that are not stored. -/
def unresolvedAttestations (store : ControlStore) : List StoredAttestation :=
  store.attestations.values.filter fun attestation => !store.candidates.has attestation.txId

/-- What is known about the settlement of a transaction. -/
def settlementEvidence (store : ControlStore) (txId : Bytes) (policy : WatermarkPolicy)
    (membershipRevision : Option Bytes) : Except ControlStoreConflictError SettlementEvidence := do
  let candidate ← store.requiredCandidate txId
  let watermark := store.watermark policy membershipRevision
  return {
    txId
    candidateState := candidate.state
    orderKey := candidate.orderKey
    proofAttestationIds := candidate.proofAttestationIds
    watermark
    belowWatermark := watermark.cutoffMs.any (candidate.orderKey.authorTimestampMs ≤ ·)
    unresolvedAttestationIds := store.unresolvedAttestations.map (·.attestationId)
    historyReopeningIds := ((store.historyReopenings.values.filter fun event =>
      event.floorMs ≤ candidate.orderKey.authorTimestampMs).map (·.id)).insertionSort
        fun left right => (compare (Text.utf16 left) (Text.utf16 right)).isLE }

/-! ## What a watermark is -/

/-- The cutoff of the recorded heartbeat of a validator, if its feed is contiguous. -/
def contiguousCutoff (store : ControlStore) (membershipRevision : Option Bytes)
    (validatorId : Bytes) : Option Int :=
  (store.contiguousHeartbeat membershipRevision validatorId).map (·.acceptanceCutoffMs)

end ControlStore

open Blocking KeyedMap List

/-- The evidence is the watermark of a family of validator sets: its cutoff is
    the greatest one that blocks the family, and its blocking validators are
    members of every set that have reached the cutoff. -/
structure IsWatermark (F : Set (List Bytes)) (level : Bytes → Option Int)
    (evidence : WatermarkEvidence) : Prop where
  isGreatest : ∀ T, evidence.cutoffMs = some T ↔ IsGreatest (cutoffs F level) T
  meets : ∀ T, evidence.cutoffMs = some T → ∀ S ∈ F, ∃ v ∈ S, v ∈ evidence.blockingValidatorIds
  reaches : ∀ T, evidence.cutoffMs = some T →
    ∀ v ∈ evidence.blockingValidatorIds, Reaches level T v

/-- Families whose sets contain sets of each other have the same watermark. -/
theorem IsWatermark.of_contains {F G : Set (List Bytes)} {evidence : WatermarkEvidence}
    (h : IsWatermark G level evidence) (hFG : ∀ S ∈ F, ∃ P ∈ G, P ⊆ S)
    (hGF : ∀ P ∈ G, ∃ S ∈ F, S ⊆ P) : IsWatermark F level evidence where
  isGreatest T := by rw [h.isGreatest, cutoffs_eq_of_contains hFG hGF]
  meets T hT S hS := by
    obtain ⟨P, hP, hPS⟩ := hFG S hS
    obtain ⟨v, hv, hv'⟩ := h.meets T hT P hP
    exact ⟨v, hPS hv, hv'⟩
  reaches := h.reaches

variable {F : Set (List Bytes)}

/-- A watermark that is not established is one of a family without a greatest cutoff. -/
theorem isWatermark_noWatermark (h : ∀ T, ¬ IsGreatest (cutoffs F level) T) (policyId : Bytes)
    (explanation : WatermarkExplanation) :
    IsWatermark F level (ControlStore.noWatermark policyId explanation) where
  isGreatest T := ⟨fun hT => absurd hT (by simp [ControlStore.noWatermark]), fun hT => absurd hT (h T)⟩
  meets T hT := absurd hT (by simp [ControlStore.noWatermark])
  reaches T hT := absurd hT (by simp [ControlStore.noWatermark])

/-- A watermark established by heartbeats that have reached its cutoff. -/
theorem isWatermark_establishedWatermark {cutoffMs : Int}
    (hcutoff : IsGreatest (cutoffs F level) cutoffMs) {blocking : List StoredHeartbeat}
    (hmeets : ∀ S ∈ F, ∃ h ∈ blocking, h.validatorId ∈ S)
    (hreaches : ∀ h ∈ blocking, Reaches level cutoffMs h.validatorId) (policyId : Bytes) :
    IsWatermark F level (ControlStore.establishedWatermark policyId cutoffMs blocking) where
  isGreatest T := by
    rw [ControlStore.establishedWatermark, Option.some.injEq]
    exact ⟨fun h => h ▸ hcutoff, hcutoff.unique⟩
  meets _ _ S hS := by
    obtain ⟨h, hh, hS⟩ := hmeets S hS
    exact ⟨h.validatorId, hS, mem_map_of_mem hh⟩
  reaches T hT v hv := by
    obtain ⟨h, hh, rfl⟩ := mem_map.1 hv
    obtain rfl : cutoffMs = T := by simpa [ControlStore.establishedWatermark] using hT
    exact hreaches h hh

namespace ControlStore

variable {store : ControlStore} {membershipRevision : Option Bytes} {validatorId : Bytes}
  {heartbeat : StoredHeartbeat}
variable {proof : List Bytes} {proofs : List (List Bytes)}

/-! ## Heartbeats -/

theorem validatorId_of_heartbeatFor
    (h : store.heartbeatFor validatorId membershipRevision = some heartbeat) :
    heartbeat.validatorId = validatorId := by
  cases membershipRevision with
  | some revision => exact congrArg Prod.snd (key_eq h)
  | none =>
    -- Every heartbeat the loop keeps is one of the validator.
    have key : ∀ (l : List StoredHeartbeat) (latest : Option StoredHeartbeat),
        (∀ h, latest = some h → h.validatorId = validatorId) →
        ∀ h, l.foldl (fun latest heartbeat =>
          if heartbeat.validatorId = validatorId ∧
              latest.all fun l => l.validatorFeedSequence < heartbeat.validatorFeedSequence
          then some heartbeat else latest) latest = some h → h.validatorId = validatorId := by
      intro l
      induction l with
      | nil => exact fun latest hlatest => hlatest
      | cons b l ih =>
        intro latest hlatest
        refine ih _ fun h hh => ?_
        dsimp only at hh
        split_ifs at hh with hb
        · exact Option.some.inj hh ▸ hb.1
        · exact hlatest h hh
    exact key _ none (fun _ h => absurd h (by simp)) heartbeat h

theorem contiguousHeartbeat_eq_some_iff :
    store.contiguousHeartbeat membershipRevision validatorId = some heartbeat ↔
      store.heartbeatFor validatorId membershipRevision = some heartbeat ∧
        heartbeat.feedContiguous := by
  rw [contiguousHeartbeat, Option.filter_eq_some_iff]

theorem validatorId_of_contiguousHeartbeat
    (h : store.contiguousHeartbeat membershipRevision validatorId = some heartbeat) :
    heartbeat.validatorId = validatorId :=
  validatorId_of_heartbeatFor (contiguousHeartbeat_eq_some_iff.1 h).1

theorem reaches_of_contiguousHeartbeat {T : Int}
    (h : store.contiguousHeartbeat membershipRevision validatorId = some heartbeat)
    (hT : T ≤ heartbeat.acceptanceCutoffMs) :
    Reaches (store.contiguousCutoff membershipRevision) T validatorId :=
  ⟨_, by rw [contiguousCutoff, h]; rfl, hT⟩

/-! ## Threshold policies -/

/-- The watermark of a threshold policy is that of the sets of at least as many
    validators as the threshold asks for. -/
theorem isWatermark_thresholdWatermark {policyId : Bytes} {validatorIds : List Bytes}
    {threshold : Int} (hnodup : validatorIds.Nodup) (hpos : 1 ≤ threshold)
    (hsafe : isSafeInteger threshold) : IsWatermark (atLeast validatorIds threshold.toNat)
      (store.contiguousCutoff membershipRevision)
      (store.thresholdWatermark policyId validatorIds threshold membershipRevision) := by
  by_cases hlen : (validatorIds.length : Int) < threshold
  · -- Too few validators: no set is large enough.
    rw [thresholdWatermark, if_pos (.inr (.inr (.inl hlen)))]
    refine isWatermark_noWatermark (fun T => not_isGreatest_cutoffs_empty ?_) _ _
    refine Set.eq_empty_of_forall_notMem fun S hS => ?_
    have := (subperm_of_subset S.nodup_dedup
      fun v hv => hS.1 (mem_dedup.1 hv)).length_le
    have := hS.2
    omega
  have hvalid : ¬ (!isSafeInteger threshold ∨ threshold < 1 ∨
      (validatorIds.length : Int) < threshold ∨
      validatorIds.dedup.length ≠ validatorIds.length) := by
    rw [hsafe, hnodup.dedup]
    simp [hlen, hpos]
  rw [thresholdWatermark]
  set available := (validatorIds.filterMap
    (store.contiguousHeartbeat membershipRevision)).insertionSort
      fun left right => left.acceptanceCutoffMs ≤ right.acceptanceCutoffMs with havailable
  have hmem : ∀ h, h ∈ available ↔ ∃ v ∈ validatorIds,
      store.contiguousHeartbeat membershipRevision v = some h := fun h => by
    rw [mem_insertionSort, mem_filterMap]
  -- The cutoffs of the available heartbeats are the known levels, sorted.
  have hsorted : (available.map (·.acceptanceCutoffMs)).Pairwise (· ≤ ·) :=
    pairwise_map.2 (havailable ▸ pairwise_insertionSort _ _)
  have hperm : (available.map (·.acceptanceCutoffMs)).Perm
      (validatorIds.filterMap (store.contiguousCutoff membershipRevision)) := by
    have h := (perm_insertionSort (fun left right : StoredHeartbeat =>
      left.acceptanceCutoffMs ≤ right.acceptanceCutoffMs)
      (validatorIds.filterMap (store.contiguousHeartbeat membershipRevision))).map
        (·.acceptanceCutoffMs)
    rwa [map_filterMap] at h
  have hkth : ∀ T, IsGreatest (cutoffs (atLeast validatorIds threshold.toNat)
        (store.contiguousCutoff membershipRevision)) T ↔
      ∃ j, j + 1 + (validatorIds.length - available.length) = threshold.toNat ∧
        (available[j]?.map (·.acceptanceCutoffMs)) = some T := fun T => by
    rw [isGreatest_cutoffs_atLeast_iff hnodup (by omega) hsorted hperm, length_map]
    simp only [getElem?_map]
  dsimp only
  split_ifs with hindex
  · refine isWatermark_noWatermark (fun T hT => ?_) _ _
    obtain ⟨j, hj, _⟩ := (hkth T).1 hT
    omega
  · set selectedIndex :=
      (threshold - 1 - ((validatorIds.length - available.length : ℕ) : Int)).toNat
    have hselectedIndex :
        selectedIndex + 1 + (validatorIds.length - available.length) = threshold.toNat := by
      omega
    split
    · next hnone =>
      refine isWatermark_noWatermark (fun T hT => ?_) _ _
      obtain ⟨j, hj, hjT⟩ := (hkth T).1 hT
      rw [show j = selectedIndex by omega, hnone] at hjT
      cases hjT
    · next selected hselected =>
      have hgreatest := (hkth selected.acceptanceCutoffMs).2
        ⟨selectedIndex, hselectedIndex, by rw [hselected]; rfl⟩
      refine isWatermark_establishedWatermark hgreatest (fun S hS => ?_) (fun h hh => ?_) _
      · obtain ⟨v, hv, c, hc, hT⟩ := hgreatest.1 S hS
        obtain ⟨h, hh, rfl⟩ := Option.map_eq_some_iff.1 hc
        refine ⟨h, mem_filter.2 ⟨(hmem h).2 ⟨v, hS.1 hv, hh⟩, by simpa using hT⟩, ?_⟩
        rwa [validatorId_of_contiguousHeartbeat hh]
      · obtain ⟨hh, hT⟩ := mem_filter.1 hh
        obtain ⟨v, _, hv⟩ := (hmem h).1 hh
        rw [validatorId_of_contiguousHeartbeat hv]
        exact reaches_of_contiguousHeartbeat hv (by simpa using hT)

/-! ## Alternative proofs -/

theorem bestHeartbeat_eq_argmax : store.bestHeartbeat membershipRevision proof =
    (proof.filterMap (store.contiguousHeartbeat membershipRevision)).argmax
      (·.acceptanceCutoffMs) := by
  rw [bestHeartbeat, argmax, foldl_filterMap]
  congr 1
  funext best v
  cases store.contiguousHeartbeat membershipRevision v with
  | none => rfl
  | some h => cases best <;> simp [argAux]

theorem bestHeartbeat_eq_none_iff : store.bestHeartbeat membershipRevision proof = none ↔
    ∀ v ∈ proof, store.contiguousHeartbeat membershipRevision v = none := by
  rw [bestHeartbeat_eq_argmax, argmax_eq_none, filterMap_eq_nil_iff]

/-- The best heartbeat of a proof is one of its heartbeats, and none has a greater cutoff. -/
theorem bestHeartbeat_eq_some (h : store.bestHeartbeat membershipRevision proof = some heartbeat) :
    (∃ v ∈ proof, store.contiguousHeartbeat membershipRevision v = some heartbeat) ∧
      ∀ v ∈ proof, ∀ h', store.contiguousHeartbeat membershipRevision v = some h' →
        h'.acceptanceCutoffMs ≤ heartbeat.acceptanceCutoffMs := by
  rw [bestHeartbeat_eq_argmax] at h
  exact ⟨mem_filterMap.1 (argmax_mem h), fun v hv h' hh' =>
    le_of_mem_argmax (mem_filterMap.2 ⟨v, hv, hh'⟩) h⟩

/-- The cutoff of the best heartbeat of a proof is the greatest level of its validators. -/
theorem isGreatest_of_bestHeartbeat
    (h : store.bestHeartbeat membershipRevision proof = some heartbeat) :
    IsGreatest {c | ∃ v ∈ proof, store.contiguousCutoff membershipRevision v = some c}
      heartbeat.acceptanceCutoffMs := by
  obtain ⟨⟨v, hv, hvh⟩, hmax⟩ := bestHeartbeat_eq_some h
  refine ⟨⟨v, hv, by rw [contiguousCutoff, hvh]; rfl⟩, fun c ⟨w, hw, hwc⟩ => ?_⟩
  obtain ⟨h', hh', rfl⟩ := Option.map_eq_some_iff.1 hwc
  exact hmax w hw h' hh'

theorem contiguousHeartbeat_of_bestHeartbeat
    (h : store.bestHeartbeat membershipRevision proof = some heartbeat) :
    store.contiguousHeartbeat membershipRevision heartbeat.validatorId = some heartbeat := by
  obtain ⟨⟨v, _, hv⟩, _⟩ := bestHeartbeat_eq_some h
  rwa [validatorId_of_contiguousHeartbeat hv]

/-- The loop over the proofs keeps the least cutoff of the best heartbeats, and selects these. -/
theorem alternativesLoop_eq_some (h : ∀ P ∈ proofs, store.bestHeartbeat membershipRevision P ≠ none)
    (least : Option StoredHeartbeat) (selected : KeyedMap StoredHeartbeat.validatorId) :
    store.alternativesLoop membershipRevision proofs (least.map (·.acceptanceCutoffMs)) selected =
      some (((proofs.filterMap (store.bestHeartbeat membershipRevision)).foldl
          (argAux fun b c => b.acceptanceCutoffMs < c.acceptanceCutoffMs) least).map
            (·.acceptanceCutoffMs),
        (proofs.filterMap (store.bestHeartbeat membershipRevision)).foldl put selected) := by
  induction proofs generalizing least selected with
  | nil => rfl
  | cons P proofs ih =>
    obtain ⟨b, hb⟩ := Option.ne_none_iff_exists'.1 (h P mem_cons_self)
    rw [alternativesLoop, hb, filterMap_cons_some hb, foldl_cons, foldl_cons,
      ← ih fun Q hQ => h Q (mem_cons_of_mem P hQ)]
    cases least with
    | none => rfl
    | some c => simp [argAux, apply_ite]

theorem alternativesLoop_eq_none {cutoff : Option Int}
    {selected : KeyedMap StoredHeartbeat.validatorId}
    (h : ∃ P ∈ proofs, store.bestHeartbeat membershipRevision P = none) :
    store.alternativesLoop membershipRevision proofs cutoff selected = none := by
  induction proofs generalizing cutoff selected with
  | nil => simp at h
  | cons P proofs ih =>
    rw [alternativesLoop]
    cases hP : store.bestHeartbeat membershipRevision P with
    | none => rfl
    | some b => exact ih (by simpa [hP] using h)

/-- The watermark of alternative proofs is that of the family of the proofs. -/
theorem isWatermark_proofAlternatives {policyId : Bytes}
    (hne : proofs ≠ []) (hproofs : ∀ P ∈ proofs, P ≠ []) :
    IsWatermark {P | P ∈ proofs} (store.contiguousCutoff membershipRevision)
      (store.watermark (.proofAlternatives policyId proofs) membershipRevision) := by
  have hvalid : ¬ (proofs.length = 0 ∨ (proofs.any fun P => P.length = 0) = true) := by
    simp only [length_eq_zero_iff, hne, any_eq_true, decide_eq_true_eq, false_or]
    exact fun ⟨P, hP, hnil⟩ => hproofs P hP hnil
  rw [watermark, if_neg hvalid]
  by_cases hnone : ∃ P ∈ proofs, store.bestHeartbeat membershipRevision P = none
  · obtain ⟨P, hP, hbest⟩ := hnone
    rw [alternativesLoop_eq_none ⟨P, hP, hbest⟩]
    refine isWatermark_noWatermark (fun T hT => ?_) _ _
    have hempty : cutoffs {P | P ∈ proofs} (store.contiguousCutoff membershipRevision) = ∅ :=
      cutoffs_eq_empty hP fun v hv => by
        rw [contiguousCutoff, bestHeartbeat_eq_none_iff.1 hbest v hv]
        rfl
    exact absurd hT.1 (hempty ▸ Set.notMem_empty T)
  push Not at hnone
  set bests := proofs.filterMap (store.bestHeartbeat membershipRevision)
  have hloop : store.alternativesLoop membershipRevision proofs none .empty =
      some ((bests.argmin (·.acceptanceCutoffMs)).map (·.acceptanceCutoffMs),
        bests.foldl put .empty) := alternativesLoop_eq_some hnone none .empty
  have hmem : ∀ {b}, b ∈ bests ↔ ∃ P ∈ proofs, store.bestHeartbeat membershipRevision P = some b :=
    mem_filterMap
  have hbest : ∀ P ∈ proofs, ∃ b ∈ bests, store.bestHeartbeat membershipRevision P = some b :=
    fun P hP => by
      obtain ⟨b, hb⟩ := Option.ne_none_iff_exists'.1 (hnone P hP)
      exact ⟨b, hmem.2 ⟨P, hP, hb⟩, hb⟩
  -- Best heartbeats of one validator are equal, so all of them stay selected.
  have hselected : ∀ b, b ∈ (bests.foldl put
      (empty : KeyedMap StoredHeartbeat.validatorId)).values ↔ b ∈ bests := by
    refine fun b => mem_values_foldl_put fun b hb c hc hid => ?_
    obtain ⟨_, _, hb⟩ := hmem.1 hb
    obtain ⟨_, _, hc⟩ := hmem.1 hc
    have hb := contiguousHeartbeat_of_bestHeartbeat hb
    rw [hid, contiguousHeartbeat_of_bestHeartbeat hc] at hb
    exact (Option.some.inj hb).symm
  obtain ⟨P₀, hP₀⟩ := exists_mem_of_ne_nil proofs hne
  obtain ⟨b₀, hb₀, _⟩ := hbest P₀ hP₀
  obtain ⟨least, hleast⟩ := Option.ne_none_iff_exists'.1
    (mt argmin_eq_none.1 (ne_nil_of_mem hb₀) : bests.argmin (·.acceptanceCutoffMs) ≠ none)
  have hle : ∀ b ∈ bests, least.acceptanceCutoffMs ≤ b.acceptanceCutoffMs :=
    fun b hb => le_of_mem_argmin hb hleast
  rw [hloop, hleast]
  -- The cutoff is the least of the greatest levels of the proofs.
  refine isWatermark_establishedWatermark ⟨fun P hP => ?_, fun T hT => ?_⟩ (fun P hP => ?_)
    (fun b hb => ?_) _
  · obtain ⟨b, hmem, hb⟩ := hbest P hP
    obtain ⟨⟨v, hv, hvb⟩, _⟩ := bestHeartbeat_eq_some hb
    exact ⟨v, hv, reaches_of_contiguousHeartbeat hvb (hle b hmem)⟩
  · obtain ⟨P, hP, hb⟩ := hmem.1 (argmin_mem hleast)
    obtain ⟨v, hv, c, hc, hT⟩ := hT P hP
    exact hT.trans ((isGreatest_of_bestHeartbeat hb).2 ⟨v, hv, hc⟩)
  · obtain ⟨b, hmem, hb⟩ := hbest P hP
    obtain ⟨⟨v, hv, hvb⟩, _⟩ := bestHeartbeat_eq_some hb
    refine ⟨b, mem_filter.2 ⟨(hselected b).2 hmem, by simpa using hle b hmem⟩, ?_⟩
    rwa [validatorId_of_contiguousHeartbeat hvb]
  · obtain ⟨hb, hT⟩ := mem_filter.1 hb
    obtain ⟨P, hP, hb⟩ := hmem.1 ((hselected b).1 hb)
    exact reaches_of_contiguousHeartbeat (contiguousHeartbeat_of_bestHeartbeat hb)
      (by simpa using hT)

end ControlStore

end Chronolog
