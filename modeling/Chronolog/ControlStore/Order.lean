import Chronolog.ControlStore.Store
import Chronolog.Lib.Procedure
import Mathlib.Data.List.GetD
import Mathlib.Data.List.Nodup

/-!
# The operations of the control store

What the operations of the store do when they succeed, up to the record of the
changes (`forgetDeltas`), and the invariant of the order: it lists known
candidates, sorted by their order keys (`Ordered`). Admitting a candidate keeps
it, and it leaves the order no freedom: two stores that order the same
candidates order them alike (`Ordered.orderedTxIds_eq`).
-/

namespace Chronolog

open Procedure Insertion KeyedMap List Option

/-! ## The order of transactions -/

instance : Std.TransCmp compareTransactionOrder :=
  inferInstanceAs (Std.TransCmp (compareLex (compareOn TransactionOrderKey.authorTimestampMs)
    (compareLex (compareOn TransactionOrderKey.authorId)
      (compareLex (compareOn TransactionOrderKey.authorFeedSequence)
        (compareOn TransactionOrderKey.txId)))))

namespace ControlStore

variable {store store' : ControlStore} {candidate : StoredCandidate} {txId : Bytes}
variable {stored : StoredAttestation}

/-- The order key of the candidate with the id. -/
def orderKeyOf (store : ControlStore) (txId : Bytes) : Option TransactionOrderKey :=
  (store.candidates.get? txId).map (·.orderKey)

/-- Two known candidates, in their order. -/
def Before (store : ControlStore) (left right : Bytes) : Prop :=
  ∃ l r, store.orderKeyOf left = some l ∧ store.orderKeyOf right = some r ∧
    compareTransactionOrder l r = .lt

theorem Before.asymm {left right : Bytes} (h : store.Before left right) :
    ¬ store.Before right left := by
  obtain ⟨l, r, hl, hr, hlt⟩ := h
  rintro ⟨r', l', hr', hl', hlt'⟩
  obtain rfl : r' = r := some.inj (hr'.symm.trans hr)
  obtain rfl : l' = l := some.inj (hl'.symm.trans hl)
  have hswap : compareTransactionOrder r' l' = (compareTransactionOrder l' r').swap :=
    Std.OrientedCmp.eq_swap
  rw [hswap, hlt] at hlt'
  cases hlt'

/-- The order lists known candidates, sorted, and candidates are ordered under their own ids. -/
structure Ordered (store : ControlStore) : Prop where
  named : ∀ id candidate, store.candidates.get? id = some candidate → candidate.orderKey.txId = id
  known : ∀ id ∈ store.orderedTxIds, ∃ candidate, store.candidates.get? id = some candidate
  sorted : store.orderedTxIds.Pairwise store.Before

theorem ordered_empty : Ordered {} where
  named _ _ h := absurd h (by simp)
  known _ h := absurd h not_mem_nil
  sorted := Pairwise.nil

theorem Ordered.nodup (h : store.Ordered) : store.orderedTxIds.Nodup :=
  h.sorted.imp fun hbefore heq => (heq ▸ hbefore).asymm (heq ▸ hbefore)

/-- Stores that order the same candidates order them alike. -/
theorem Ordered.orderedTxIds_eq (h : store.Ordered) (h' : store'.Ordered)
    (hmem : ∀ id, id ∈ store.orderedTxIds ↔ id ∈ store'.orderedTxIds)
    (hkeys : ∀ id ∈ store.orderedTxIds, store.orderKeyOf id = store'.orderKeyOf id) :
    store.orderedTxIds = store'.orderedTxIds := by
  have hsorted' : store'.orderedTxIds.Pairwise store.Before := by
    refine h'.sorted.imp_of_mem fun {left right} hleft hright hbefore => ?_
    obtain ⟨l, r, hl, hr, hlt⟩ := hbefore
    exact ⟨l, r, (hkeys left ((hmem left).2 hleft)).trans hl,
      (hkeys right ((hmem right).2 hright)).trans hr, hlt⟩
  refine Perm.eq_of_pairwise (fun left right _ _ hlr hrl => absurd hrl hlr.asymm) h.sorted
    hsorted' ((perm_ext_iff_of_nodup h.nodup h'.nodup).2 hmem)

/-! ## What the operations do -/

/-- The stores hold the same, but for the record of their changes. -/
structure SameContent (store' store : ControlStore) : Prop where
  candidates : store'.candidates = store.candidates
  attestations : store'.attestations = store.attestations
  attestationsByTx : store'.attestationsByTx = store.attestationsByTx
  heartbeats : store'.heartbeats = store.heartbeats
  validatorCutoffs : store'.validatorCutoffs = store.validatorCutoffs
  orderedTxIds : store'.orderedTxIds = store.orderedTxIds
  historyReopenings : store'.historyReopenings = store.historyReopenings

theorem SameContent.trans {store'' : ControlStore} (h' : SameContent store'' store')
    (h : SameContent store' store) : SameContent store'' store :=
  ⟨h'.candidates.trans h.candidates, h'.attestations.trans h.attestations,
    h'.attestationsByTx.trans h.attestationsByTx, h'.heartbeats.trans h.heartbeats,
    h'.validatorCutoffs.trans h.validatorCutoffs, h'.orderedTxIds.trans h.orderedTxIds,
    h'.historyReopenings.trans h.historyReopenings⟩

theorem sameContent_trimDeltas (store : ControlStore) : SameContent (trimDeltas store) store := by
  unfold trimDeltas
  dsimp only
  split <;> exact ⟨rfl, rfl, rfl, rfl, rfl, rfl, rfl⟩

/-- Recording a change does nothing else. -/
theorem appendDelta_spec (kind : DeltaKind) (store : ControlStore) :
    ∃ delta store', appendDelta kind store = .ok delta store' ∧ SameContent store' store := by
  have h := sameContent_trimDeltas { store with
    sequence := store.sequence + 1, deltas := store.deltas ++ [⟨store.sequence + 1, kind⟩] }
  exact ⟨_, _, rfl, { h with }⟩

/-- A new candidate is stored. -/
theorem putCandidate_of_new (hnew : store.candidates.get? candidate.txId = none)
    (hstate : candidate.state ≠ .admissible) :
    ∃ result store', putCandidate candidate store = .ok result store' ∧
      SameContent store' { store with candidates := store.candidates.put candidate } := by
  obtain ⟨delta, store', happend, hcontent⟩ := appendDelta_spec
    (.candidateAdded candidate.txId candidate.state)
    { store with candidates := store.candidates.put candidate }
  refine ⟨(true, [delta]), store', ?_, hcontent⟩
  simp only [putCandidate, bind_get_run, hnew, bind_set_run]
  rw [bind_run_of_ok happend, if_neg hstate]
  rfl

/-- A candidate that is stored is not stored again. -/
theorem putCandidate_of_same {existing : StoredCandidate}
    (hget : store.candidates.get? candidate.txId = some existing)
    (hsame : sameCandidateIdentity existing candidate) :
    putCandidate candidate store = .ok (false, []) store := by
  simp only [putCandidate, bind_get_run, hget, hsame]
  rfl

/-- The ids of the attestations of a transaction, with those of a new one. -/
def refsWith (store : ControlStore) (stored : StoredAttestation) : List Bytes :=
  let refs := (store.attestationsByTx.get? stored.txId).getD []
  if stored.attestationId ∈ refs then refs else refs ++ [stored.attestationId]

theorem mem_refsWith {id : Bytes} : id ∈ store.refsWith stored ↔
    id = stored.attestationId ∨ id ∈ (store.attestationsByTx.get? stored.txId).getD [] := by
  unfold refsWith
  dsimp only
  split_ifs with hin
  · exact ⟨.inr, fun hid => hid.elim (fun heq => heq ▸ hin) fun hid => hid⟩
  · rw [mem_append, mem_singleton, or_comm]

/-- The store with one more attestation. -/
def withAttestation (store : ControlStore) (stored : StoredAttestation) : ControlStore :=
  { store with
    attestations := store.attestations.put stored
    attestationsByTx := store.attestationsByTx.set stored.txId (store.refsWith stored) }

/-- A new attestation is stored. -/
theorem putAttestation_of_new (hnew : store.attestations.get? stored.attestationId = none) :
    ∃ result store', putAttestation stored store = .ok result store' ∧
      SameContent store' (store.withAttestation stored) := by
  obtain ⟨delta, store', happend, hcontent⟩ := appendDelta_spec
    (.attestationAdded stored.attestationId stored.txId (!store.candidates.has stored.txId))
    (store.withAttestation stored)
  refine ⟨(true, some delta), store', ?_, hcontent⟩
  simp only [putAttestation, bind_get_run, hnew, bind_set_run]
  exact bind_run_of_ok happend

/-- An attestation that is stored is not stored again. -/
theorem putAttestation_of_same (hget : store.attestations.get? stored.attestationId = some stored) :
    putAttestation stored store = .ok (false, none) store := by
  simp only [putAttestation, bind_get_run, hget, ne_eq, not_true_eq_false]
  rfl

/-- Persisting a cutoff changes no other part of the store, and fails only if the
    cutoff goes back. -/
theorem persistValidatorCutoff_spec (validatorId : Bytes) (acceptedAboveMs : Int) :
    (∃ previous, store.validatorCutoffs.get? validatorId = some previous ∧
        acceptedAboveMs < previous ∧ persistValidatorCutoff validatorId acceptedAboveMs store =
          .error .validatorCutoffRegression store) ∨
      ∃ cutoffs, persistValidatorCutoff validatorId acceptedAboveMs store =
          .ok () { store with validatorCutoffs := cutoffs } ∧
        cutoffs.get? validatorId = some acceptedAboveMs := by
  simp only [persistValidatorCutoff, bind_get_run]
  cases hget : store.validatorCutoffs.get? validatorId with
  | none => exact .inr ⟨_, rfl, OrdMap.get?_set_self _ _ _⟩
  | some previous =>
    dsimp only
    by_cases hlt : acceptedAboveMs < previous
    · rw [if_pos hlt]
      exact .inl ⟨previous, rfl, hlt, rfl⟩
    · split_ifs with heq
      · exact .inr ⟨store.validatorCutoffs, rfl, heq ▸ hget⟩
      · exact .inr ⟨_, rfl, OrdMap.get?_set_self _ _ _⟩

/-- A heartbeat is put, and a delta says so. -/
theorem exists_advance (heartbeat : StoredHeartbeat) (store : ControlStore) : ∃ delta store', (do
        set { store with heartbeats := store.heartbeats.put heartbeat }
        some <$> appendDelta (.heartbeatAdvanced heartbeat.heartbeatId heartbeat.validatorId
          heartbeat.acceptanceCutoffMs heartbeat.feedContiguous) :
          ControlStoreM (Option ControlStoreDelta)) store = .ok (some delta) store' ∧
      SameContent store' { store with heartbeats := store.heartbeats.put heartbeat } := by
  obtain ⟨delta, store', happend, hcontent⟩ := appendDelta_spec _ _
  exact ⟨delta, store', map_run_of_ok happend, hcontent⟩

/-- A heartbeat is recorded unless one of its validator for its revision is that
    it does not supersede. -/
theorem recordHeartbeat_spec (heartbeat : StoredHeartbeat) :
    (finalState (recordHeartbeat heartbeat store) = store ∧
      ∃ previous, store.heartbeats.get? heartbeat.heartbeatKey = some previous ∧
        (heartbeat.validatorFeedSequence ≤ previous.validatorFeedSequence ∨
          heartbeat.acceptanceCutoffMs < previous.acceptanceCutoffMs)) ∨
    (SameContent (finalState (recordHeartbeat heartbeat store))
        { store with heartbeats := store.heartbeats.put heartbeat } ∧
      ∀ previous, store.heartbeats.get? heartbeat.heartbeatKey = some previous →
        previous.validatorFeedSequence < heartbeat.validatorFeedSequence ∧
        previous.acceptanceCutoffMs ≤ heartbeat.acceptanceCutoffMs) := by
  obtain ⟨delta, store', hadvance, hcontent⟩ := exists_advance heartbeat store
  simp only [recordHeartbeat, bind_get_run]
  cases hget : store.heartbeats.get? heartbeat.heartbeatKey with
  | none =>
    refine .inr ⟨?_, fun previous h => absurd h (by simp)⟩
    dsimp only
    rw [hadvance]
    exact hcontent
  | some previous =>
    dsimp only
    by_cases holder : heartbeat.validatorFeedSequence < previous.validatorFeedSequence
    · rw [if_pos holder]
      exact .inl ⟨rfl, previous, rfl, .inl (Int.le_of_lt holder)⟩
    rw [if_neg holder]
    by_cases hcutoff : heartbeat.acceptanceCutoffMs < previous.acceptanceCutoffMs
    · rw [if_pos hcutoff]
      exact .inl ⟨rfl, previous, rfl, .inr hcutoff⟩
    rw [if_neg hcutoff]
    by_cases hsame : heartbeat.validatorFeedSequence = previous.validatorFeedSequence
    · refine .inl ⟨?_, previous, rfl, .inl (Int.le_of_eq hsame)⟩
      split_ifs <;> rfl
    · rw [if_neg hsame, hadvance]
      refine .inr ⟨hcontent, fun previous' h => ?_⟩
      cases h
      omega

/-! ## The attestations of a transaction -/

/-- The attestations are listed under their transactions, and nothing else is. -/
structure Indexed (store : ControlStore) : Prop where
  listed : ∀ id stored, store.attestations.get? id = some stored →
    ∃ refs, store.attestationsByTx.get? stored.txId = some refs ∧ id ∈ refs
  stored : ∀ txId refs, store.attestationsByTx.get? txId = some refs → ∀ id ∈ refs,
    ∃ stored, store.attestations.get? id = some stored ∧ stored.txId = txId

theorem Indexed.congr (h : store.Indexed) (hattestations : store'.attestations = store.attestations)
    (hbyTx : store'.attestationsByTx = store.attestationsByTx) : store'.Indexed :=
  ⟨hattestations ▸ hbyTx ▸ h.listed, hattestations ▸ hbyTx ▸ h.stored⟩

theorem attestationsFor_congr (hattestations : store'.attestations = store.attestations)
    (hbyTx : store'.attestationsByTx = store.attestationsByTx) (txId : Bytes) :
    store'.attestationsFor txId = store.attestationsFor txId := by
  rw [attestationsFor, attestationsFor, hattestations, hbyTx]

theorem Indexed.mem_attestationsFor_iff (h : store.Indexed) : stored ∈ store.attestationsFor txId ↔
      store.attestations.get? stored.attestationId = some stored ∧ stored.txId = txId := by
  unfold attestationsFor
  constructor
  · intro hmem
    split at hmem
    · cases hmem
    · next refs hrefs =>
      obtain ⟨id, hid, hget⟩ := mem_filterMap.1 hmem
      obtain ⟨stored', hget', htx⟩ := h.stored txId refs hrefs id hid
      obtain rfl : stored' = stored := some.inj (hget'.symm.trans hget)
      exact ⟨by rw [store.attestations.key_eq hget]; exact hget, htx⟩
  · rintro ⟨hget, rfl⟩
    obtain ⟨refs, hrefs, hid⟩ := h.listed _ _ hget
    rw [hrefs]
    exact mem_filterMap.2 ⟨_, hid, hget⟩

/-- Storing a new attestation keeps the attestations listed. -/
theorem Indexed.withAttestation (h : store.Indexed)
    (hnew : store.attestations.get? stored.attestationId = none) :
    (store.withAttestation stored).Indexed := by
  constructor
  · intro id stored' hget
    dsimp only [ControlStore.withAttestation] at hget ⊢
    rw [get?_put] at hget
    split_ifs at hget with heq
    · cases hget
      exact ⟨_, OrdMap.get?_set_self _ _ _, mem_refsWith.2 (.inl heq)⟩
    · obtain ⟨refs, hrefs, hid⟩ := h.listed id stored' hget
      rw [OrdMap.get?_set]
      split_ifs with htx
      · exact ⟨_, rfl, mem_refsWith.2 (.inr (by rw [← htx, hrefs]; exact hid))⟩
      · exact ⟨refs, hrefs, hid⟩
  · intro txId refs hrefs id hid
    dsimp only [ControlStore.withAttestation] at hrefs ⊢
    have hold : ∀ refs', store.attestationsByTx.get? txId = some refs' → id ∈ refs' →
        ∃ stored', (store.attestations.put stored).get? id = some stored' ∧
          stored'.txId = txId := by
      intro refs' hrefs' hid'
      obtain ⟨stored', hget, htx⟩ := h.stored txId refs' hrefs' id hid'
      refine ⟨stored', ?_, htx⟩
      rw [get?_put_of_ne, hget]
      rintro rfl
      cases hnew.symm.trans hget
    rw [OrdMap.get?_set] at hrefs
    split_ifs at hrefs with htx
    · cases hrefs
      rcases mem_refsWith.1 hid with rfl | hid
      · exact ⟨stored, get?_put_self _ _, htx.symm⟩
      · cases hget : store.attestationsByTx.get? stored.txId with
        | none => cases hget ▸ hid
        | some refs' => exact hold refs' (htx ▸ hget) (by simpa [hget] using hid)
    · exact hold refs hrefs hid

/-- A new attestation is none of another transaction. -/
theorem Indexed.attestationsFor_withAttestation_of_ne (h : store.Indexed)
    (hnew : store.attestations.get? stored.attestationId = none) (hne : txId ≠ stored.txId) :
    (store.withAttestation stored).attestationsFor txId = store.attestationsFor txId := by
  unfold attestationsFor ControlStore.withAttestation
  rw [OrdMap.get?_set_of_ne hne]
  cases hrefs : store.attestationsByTx.get? txId with
  | none => rfl
  | some refs =>
    refine filterMap_congr fun id hid => get?_put_of_ne ?_ _
    rintro rfl
    obtain ⟨stored', hget, -⟩ := h.stored txId refs hrefs _ hid
    cases hnew.symm.trans hget

/-! ## Ordering an admitted candidate -/

theorem Ordered.congr (h : store.Ordered) (hcandidates : store'.candidates = store.candidates)
    (hordered : store'.orderedTxIds = store.orderedTxIds) : store'.Ordered := by
  have hbefore : store'.Before = store.Before := by
    unfold Before orderKeyOf
    rw [hcandidates]
  refine ⟨hcandidates ▸ h.named, ?_, ?_⟩
  · rw [hordered, hcandidates]
    exact h.known
  · rw [hordered, hbefore]
    exact h.sorted

/-- Storing a candidate under its own id, with the order key that it had, keeps the order. -/
theorem Ordered.put (h : store.Ordered) {next : StoredCandidate}
    (hnamed : next.orderKey.txId = next.txId)
    (hkey : ∀ previous, store.candidates.get? next.txId = some previous →
      previous.orderKey = next.orderKey) :
    ({ store with candidates := store.candidates.put next } : ControlStore).Ordered := by
  have hget : ∀ id previous, store.candidates.get? id = some previous →
      ∃ c, (store.candidates.put next).get? id = some c ∧ c.orderKey = previous.orderKey := by
    intro id previous hprevious
    rw [get?_put]
    split_ifs with heq
    · exact ⟨next, rfl, (hkey previous (heq ▸ hprevious)).symm⟩
    · exact ⟨previous, hprevious, rfl⟩
  refine ⟨fun id c hc => ?_, fun id hid => ?_, ?_⟩
  · rw [get?_put] at hc
    split_ifs at hc with heq
    · cases hc
      exact hnamed.trans heq.symm
    · exact h.named id c hc
  · obtain ⟨previous, hprevious⟩ := h.known id hid
    obtain ⟨c, hc, -⟩ := hget id previous hprevious
    exact ⟨c, hc⟩
  · refine h.sorted.imp ?_
    rintro _ _ ⟨l, r, hl, hr, hlt⟩
    refine ⟨l, r, ?_, ?_, hlt⟩
    · obtain ⟨previous, hprevious, rfl⟩ := map_eq_some_iff.1 hl
      obtain ⟨c, hc, hkeys⟩ := hget _ previous hprevious
      exact map_eq_some_iff.2 ⟨c, hc, hkeys⟩
    · obtain ⟨previous, hprevious, rfl⟩ := map_eq_some_iff.1 hr
      obtain ⟨c, hc, hkeys⟩ := hget _ previous hprevious
      exact map_eq_some_iff.2 ⟨c, hc, hkeys⟩

/-- The order keys that are known stay the same. -/
theorem Before.of_orderKeyOf {left right : Bytes}
    (hkeys : ∀ id key, store.orderKeyOf id = some key → store'.orderKeyOf id = some key)
    (h : store.Before left right) : store'.Before left right := by
  obtain ⟨l, r, hl, hr, hlt⟩ := h
  exact ⟨l, r, hkeys _ _ hl, hkeys _ _ hr, hlt⟩

theorem compareTransactionOrder_ne_eq (h : store.Ordered) {id id' : Bytes} (hne : id ≠ id')
    {candidate candidate' : StoredCandidate} (hget : store.candidates.get? id = some candidate)
    (hget' : store.candidates.get? id' = some candidate') :
    compareTransactionOrder candidate.orderKey candidate'.orderKey ≠ .eq := by
  intro heq
  simp only [compareTransactionOrder, Ordering.then_eq_eq] at heq
  have htxId := Std.LawfulEqCmp.eq_of_compare heq.2.2.2
  exact hne ((h.named _ _ hget).symm.trans (htxId.trans (h.named _ _ hget')))

/-- The binary search finds the position of a candidate: what is before it comes
    first, and what comes first is before it. -/
theorem lowerBound_orderBefore (h : store.Ordered)
    (hget : store.candidates.get? txId = some candidate) (hnot : txId ∉ store.orderedTxIds) :
    ∃ low, lowerBound (store.orderBefore candidate) store.orderedTxIds.length 0
        store.orderedTxIds.length = .ok low ∧
      (∀ id ∈ store.orderedTxIds.take low, store.Before id txId) ∧
      ∀ id ∈ store.orderedTxIds.drop low, store.Before txId id := by
  set l := store.orderedTxIds with hl
  -- The candidate at a position, and whether it is before the one to insert.
  have hknown : ∀ i (hi : i < l.length), ∃ c, store.candidates.get? l[i] = some c := fun i hi =>
    h.known _ (getElem_mem hi)
  let p : ℕ → Bool := fun i => match store.orderKeyOf (l.getD i []) with
    | some key => compareTransactionOrder key candidate.orderKey = .lt
    | none => false
  have hp : ∀ i (hi : i < l.length) c, store.candidates.get? l[i] = some c →
      p i = (compareTransactionOrder c.orderKey candidate.orderKey = .lt : Bool) := by
    intro i hi c hc
    simp only [p, orderKeyOf, getD_eq_getElem _ _ hi, hc, map_some]
  have hbefore : ∀ i < l.length, store.orderBefore candidate i = .ok (p i) := by
    intro i hi
    obtain ⟨c, hc⟩ := hknown i hi
    rw [hp i hi c hc]
    simp only [orderBefore, requiredCandidate, ← hl, getD_eq_getElem _ _ hi, hc]
    rfl
  have hmono : ∀ i j, i ≤ j → j < l.length → p j → p i := by
    intro i j hij hj hpj
    rcases Nat.eq_or_lt_of_le hij with rfl | hlt
    · exact hpj
    · have hi := Nat.lt_trans hlt hj
      obtain ⟨kl, kr, hkl, hkr, hkey⟩ := pairwise_iff_getElem.1 h.sorted i j hi hj hlt
      obtain ⟨c, hc, rfl⟩ := map_eq_some_iff.1 hkl
      obtain ⟨c', hc', rfl⟩ := map_eq_some_iff.1 hkr
      rw [hp j hj c' hc', decide_eq_true_eq] at hpj
      rw [hp i hi c hc, decide_eq_true_eq]
      exact Std.TransCmp.lt_trans hkey hpj
  obtain ⟨low, hlow, heq, hfirst, hrest⟩ := lowerBound_eq_ok hbefore hmono
    (Nat.le_refl _) (Nat.zero_le _) (Nat.le_refl _) (fun i hi => absurd hi (Nat.not_lt_zero i))
    (fun i hi hi' => absurd hi' (Nat.not_lt.2 hi))
  refine ⟨low, heq, fun id hid => ?_, fun id hid => ?_⟩
  · obtain ⟨i, hi, rfl⟩ := mem_take_iff_getElem.1 hid
    obtain ⟨c, hc⟩ := hknown i (by omega)
    have hpi := hfirst i (by omega)
    rw [hp i (by omega) c hc, decide_eq_true_eq] at hpi
    exact ⟨_, _, by rw [orderKeyOf, hc]; rfl, by rw [orderKeyOf, hget]; rfl, hpi⟩
  · obtain ⟨i, hi, rfl⟩ := mem_drop_iff_getElem.1 hid
    obtain ⟨c, hc⟩ := hknown (low + i) (by omega)
    have hpi := hrest (low + i) (by omega) (by omega)
    rw [hp (low + i) (by omega) c hc, decide_eq_false_iff_not] at hpi
    have hne := compareTransactionOrder_ne_eq h
      (fun heq : l[low + i] = txId => hnot (heq ▸ getElem_mem _)) hc hget
    have hswap : compareTransactionOrder candidate.orderKey c.orderKey =
      (compareTransactionOrder c.orderKey candidate.orderKey).swap := Std.OrientedCmp.eq_swap
    refine ⟨_, _, by rw [orderKeyOf, hget]; rfl, by rw [orderKeyOf, hc]; rfl, ?_⟩
    rw [hswap]
    cases hcmp : compareTransactionOrder c.orderKey candidate.orderKey with
    | lt => exact absurd hcmp hpi
    | eq => exact absurd hcmp hne
    | gt => rfl

/-- A candidate that is not ordered yet is ordered. -/
theorem insertOrder_spec (h : store.Ordered)
    (hget : store.candidates.get? candidate.txId = some candidate)
    (hnot : candidate.txId ∉ store.orderedTxIds) :
    ∃ delta store' low, insertOrder candidate store = .ok delta store' ∧ SameContent store'
      { store with orderedTxIds := insertAt store.orderedTxIds low candidate.txId } ∧
      store'.Ordered := by
  obtain ⟨low, hlow, hbefore, hafter⟩ := lowerBound_orderBefore h hget hnot
  set inserted : ControlStore := { store with
    orderedTxIds := insertAt store.orderedTxIds low candidate.txId } with hinserted
  have hdup : store.orderedTxIds[low]? ≠ some candidate.txId := fun hdup =>
    hnot (mem_of_getElem? hdup)
  obtain ⟨delta, store', happend, hcontent⟩ := appendDelta_spec
    (if low = store.orderedTxIds.length then
        .orderAppend candidate.txId low store.orderedTxIds.length
      else .orderInsert candidate.txId low store.orderedTxIds.length) inserted
  have hordered : inserted.Ordered := by
    refine ⟨h.named, fun id hid => ?_, pairwise_insertAt h.sorted hbefore hafter⟩
    rcases mem_insertAt.1 hid with rfl | hid
    · exact ⟨candidate, hget⟩
    · exact h.known id hid
  refine ⟨delta, store', low, ?_, hcontent, hordered.congr hcontent.candidates hcontent.orderedTxIds⟩
  simp only [insertOrder, bind_get_run, hlow, hdup, if_false, bind_set_run]
  exact happend

section Record

variable {α : Type}

/-- What `putCandidate` and `setCandidateState` do once the candidate is stored: the
    change is recorded, and the candidate is ordered if it is admitted. -/
def recordCandidate (kind : DeltaKind) (next : StoredCandidate) (admits : Prop) [Decidable admits]
    (ordered : ControlStoreDelta → ControlStoreDelta → α) (stored : ControlStoreDelta → α) :
    ControlStoreM α := do
  let delta ← appendDelta kind
  if admits then
    let inserted ← insertOrder next
    return ordered delta inserted
  return stored delta

variable {kind : DeltaKind} {next : StoredCandidate} {admits : Prop} [Decidable admits]
  {ordered : ControlStoreDelta → ControlStoreDelta → α} {stored : ControlStoreDelta → α}

theorem recordCandidate_of_not (hadmits : ¬ admits) :
    SameContent (finalState (recordCandidate kind next admits ordered stored store)) store := by
  obtain ⟨delta, store', happend, hcontent⟩ := appendDelta_spec kind store
  rw [recordCandidate, bind_run_of_ok happend, if_neg hadmits]
  exact hcontent

theorem recordCandidate_of_admits (hadmits : admits) (h : store.Ordered)
    (hget : store.candidates.get? next.txId = some next) (hnot : next.txId ∉ store.orderedTxIds) :
    ∃ result store' low, recordCandidate kind next admits ordered stored store = .ok result store' ∧
      SameContent store' { store with orderedTxIds := insertAt store.orderedTxIds low next.txId } ∧
      store'.Ordered := by
  obtain ⟨delta, recorded, happend, hcontent⟩ := appendDelta_spec kind store
  obtain ⟨inserted, store', low, hinsert, hcontent', hordered⟩ := insertOrder_spec
    (h.congr hcontent.candidates hcontent.orderedTxIds)
    (by rw [hcontent.candidates]; exact hget) (by rw [hcontent.orderedTxIds]; exact hnot)
  refine ⟨ordered delta inserted, store', low, ?_,
    hcontent'.trans { hcontent with orderedTxIds := ?_ }, hordered⟩
  · rw [recordCandidate, bind_run_of_ok happend, if_pos hadmits,
      bind_run_of_ok hinsert]
    rfl
  · rw [hcontent.orderedTxIds]

end Record

/-- A pending candidate with a proof is admitted and ordered. -/
theorem setCandidateState_admissible (h : store.Ordered)
    (hget : store.candidates.get? txId = some candidate)
    (hpending : candidate.state = .pendingValidation) {ids : List Bytes}
    (hproof : store.validProof txId ids) (hnot : txId ∉ store.orderedTxIds) : ∃ deltas store' low,
      setCandidateState txId .admissible (some ids) none store = .ok deltas store' ∧
      SameContent store' { store with
        candidates := store.candidates.put
          { candidate with state := .admissible, proofAttestationIds := ids }
        orderedTxIds := insertAt store.orderedTxIds low txId } ∧ store'.Ordered := by
  have hid : candidate.txId = txId := store.candidates.key_eq hget
  set next : StoredCandidate :=
    { candidate with state := .admissible, proofAttestationIds := ids } with hnext
  have hnextId : next.txId = txId := hid
  have hordered : Ordered { store with candidates := store.candidates.put next } := by
    refine h.put ((h.named txId candidate hget).trans hnextId.symm) fun previous hprevious => ?_
    rw [hnextId] at hprevious
    cases hget.symm.trans hprevious
    rfl
  have htransition : validateStateTransition candidate.state .admissible = .ok () := by
    rw [hpending]
    rfl
  have hstate : candidate.state ≠ .admissible := by
    rw [hpending]
    decide
  obtain ⟨deltas, store', low, hrun, hcontent, hordered'⟩ := @recordCandidate_of_admits _ _
    (.candidateStateChanged next.txId candidate.state .admissible none) next
    (candidate.state ≠ .admissible ∧ next.state = .admissible) _
    (fun delta inserted => [delta, inserted]) (fun delta => [delta])
    ⟨hstate, rfl⟩ hordered (get?_put_self _ _) (by rw [hnextId]; exact hnot)
  refine ⟨deltas, store', low, ?_, hnextId ▸ hcontent, hordered'⟩
  rw [← hrun]
  simp only [setCandidateState, recordCandidate, bind_get_run, requiredCandidate, hget,
    htransition, getD_some, hproof, Bool.not_true, Bool.false_eq_true, if_false, hstate,
    false_and, none_or, bind_set_run, hnext]

end ControlStore

end Chronolog
