import Chronolog.ControlStore.Order

/-!
# What the operations leave alone

A predicate on what the store holds, its candidates, attestations, cutoffs and
heartbeats, is kept by an operation if it is kept by what the operation stores.
-/

namespace Chronolog

open Procedure

namespace ControlStore

variable {P : ControlStore → Prop}

/-- The predicate is one on candidates, attestations, cutoffs and heartbeats. -/
def OfContent (P : ControlStore → Prop) : Prop :=
  ∀ ⦃store store' : ControlStore⦄, store'.candidates = store.candidates →
    store'.attestations = store.attestations → store'.validatorCutoffs = store.validatorCutoffs →
    store'.heartbeats = store.heartbeats → P store → P store'

theorem OfContent.keeps_appendDelta (hP : OfContent P) (kind : DeltaKind) :
    Keeps P (appendDelta kind) := by
  intro store h
  obtain ⟨delta, store', happend, hcontent⟩ := appendDelta_spec kind store
  rw [happend]
  exact hP hcontent.candidates hcontent.attestations hcontent.validatorCutoffs hcontent.heartbeats h

theorem OfContent.keeps_insertOrder (hP : OfContent P) (next : StoredCandidate) :
    Keeps P (insertOrder next) := by
  intro store h
  simp only [insertOrder, bind_get_run]
  cases Insertion.lowerBound (store.orderBefore next) store.orderedTxIds.length 0
      store.orderedTxIds.length with
  | error conflict => exact h
  | ok low =>
    dsimp only
    by_cases hduplicate : store.orderedTxIds[low]? = some next.txId
    · rw [if_pos hduplicate]
      exact h
    · rw [if_neg hduplicate]
      refine hP.keeps_appendDelta _ _ (hP ?_ ?_ ?_ ?_ h) <;> rfl

variable {next : StoredCandidate}

theorem OfContent.keeps_recordCandidate (hP : OfContent P) {α : Type} {kind : DeltaKind}
    {admits : Prop} [Decidable admits] {ordered : ControlStoreDelta → ControlStoreDelta → α}
    {stored : ControlStoreDelta → α} : Keeps P (recordCandidate kind next admits ordered stored) :=
  (hP.keeps_appendDelta _).bind fun _ => keeps_ite
    ((hP.keeps_insertOrder _).bind fun _ => keeps_pure _) (keeps_pure _)

/-- Setting the state of a candidate changes nothing, or records a candidate of the same identity. -/
theorem setCandidateState_cases (txId : Bytes) (state : CandidateState) (ids : Option (List Bytes))
    (reason : Option String) (store : ControlStore) :
    finalState (setCandidateState txId state ids reason store) = store ∨
    ∃ previous next kind ordered stored, store.candidates.get? next.txId = some previous ∧
      sameCandidateIdentity previous next ∧ previous.orderKey = next.orderKey ∧
      validateStateTransition previous.state next.state = .ok () ∧
      setCandidateState txId state ids reason store = recordCandidate kind next
        (previous.state ≠ .admissible ∧ next.state = .admissible) ordered stored
        { store with candidates := store.candidates.put next } := by
  simp only [setCandidateState, bind_get_run, requiredCandidate]
  cases hget : store.candidates.get? txId with
  | none => exact .inl rfl
  | some previous =>
    dsimp only
    cases htransition : validateStateTransition previous.state state with
    | error conflict => exact .inl rfl
    | ok u =>
      dsimp only
      by_cases hproof : (!store.validProof txId (ids.getD previous.proofAttestationIds)) = true
      · rw [if_pos hproof]
        exact .inl rfl
      rw [if_neg hproof]
      by_cases hsame : previous.state = state ∧
          previous.proofAttestationIds = ids.getD previous.proofAttestationIds ∧
          previous.stateReason = reason
      · rw [if_pos hsame]
        exact .inl rfl
      rw [if_neg hsame, bind_set_run]
      refine .inr ⟨previous, { previous with
        state, stateReason := reason.or previous.stateReason
        proofAttestationIds := ids.getD previous.proofAttestationIds }, _, _, _, ?_,
        by simp [sameCandidateIdentity], rfl, htransition, rfl⟩
      exact (congrArg store.candidates.get? (store.candidates.key_eq hget)).trans hget

theorem OfContent.keeps_setCandidateState (hP : OfContent P)
    (hput : ∀ store previous next, store.candidates.get? next.txId = some previous →
      sameCandidateIdentity previous next → P store →
      P { store with candidates := store.candidates.put next })
    (txId : Bytes) (state : CandidateState) (ids : Option (List Bytes)) (reason : Option String) :
    Keeps P (setCandidateState txId state ids reason) := by
  intro store h
  obtain hsame | ⟨previous, next, _, _, _, hget, hidentity, -, -, hrun⟩ :=
    setCandidateState_cases txId state ids reason store
  · rw [hsame]
    exact h
  · rw [hrun]
    exact hP.keeps_recordCandidate _ (hput store previous next hget hidentity h)

theorem OfContent.keeps_putCandidate (hP : OfContent P)
    (hput : ∀ store, store.candidates.get? next.txId = none → P store → P { store with candidates := store.candidates.put next }) :
    Keeps P (putCandidate next) := by
  intro store h
  simp only [putCandidate, bind_get_run]
  cases hget : store.candidates.get? next.txId with
  | some existing =>
    dsimp only
    split_ifs <;> exact h
  | none =>
    dsimp only
    rw [bind_set_run]
    exact hP.keeps_recordCandidate _ (hput store hget h)

variable {stored : StoredAttestation}

theorem OfContent.keeps_putAttestation (hP : OfContent P)
    (hput : ∀ store, P store → P { store with attestations := store.attestations.put stored }) :
    Keeps P (putAttestation stored) := by
  intro store h
  simp only [putAttestation, bind_get_run]
  cases store.attestations.get? stored.attestationId with
  | some existing =>
    dsimp only
    split_ifs <;> exact h
  | none =>
    refine (hP.keeps_appendDelta _).bind (fun _ => keeps_pure _) _
      (hP ?_ ?_ ?_ ?_ (hput store h)) <;> rfl

/-! ## What is stored under an id -/

/-- Are a candidate and an attestation stored under the id, and which are the cutoffs? -/
structure Traces (id : Bytes) (candidate attestation : Bool) (cutoffs : OrdMap Bytes Int)
    (store : ControlStore) : Prop where
  candidate : (store.candidates.get? id).isSome = candidate
  attestation : (store.attestations.get? id).isSome = attestation
  cutoffs : store.validatorCutoffs = cutoffs

variable {id : Bytes} {candidate attestation : Bool} {cutoffs : OrdMap Bytes Int}

theorem ofContent_traces : OfContent (Traces id candidate attestation cutoffs) := by
  intro store store' hcandidates hattestations hcutoffs _ h
  refine ⟨?_, ?_, hcutoffs.trans h.cutoffs⟩
  · rw [hcandidates]
    exact h.candidate
  · rw [hattestations]
    exact h.attestation

theorem keeps_traces_setCandidateState (txId : Bytes) (state : CandidateState)
    (ids : Option (List Bytes)) (reason : Option String) :
    Keeps (Traces id candidate attestation cutoffs) (setCandidateState txId state ids reason) := by
  refine ofContent_traces.keeps_setCandidateState (fun store previous next hget _ h =>
    ⟨?_, h.attestation, h.cutoffs⟩) _ _ _ _
  rw [← h.candidate]
  refine (congrArg Option.isSome (KeyedMap.get?_put _ _ _)).trans ?_
  split_ifs with heq
  · rw [heq, hget]
    rfl
  · rfl

theorem keeps_traces_putCandidate (hid : id ≠ next.txId) :
    Keeps (Traces id candidate attestation cutoffs) (putCandidate next) := by
  refine ofContent_traces.keeps_putCandidate fun store _ h => ⟨?_, h.attestation, h.cutoffs⟩
  rw [← h.candidate]
  exact congrArg Option.isSome (KeyedMap.get?_put_of_ne hid _)

theorem keeps_traces_putAttestation (hid : id ≠ stored.attestationId) :
    Keeps (Traces id candidate attestation cutoffs) (putAttestation stored) := by
  refine ofContent_traces.keeps_putAttestation fun store h => ⟨h.candidate, ?_, h.cutoffs⟩
  rw [← h.attestation]
  exact congrArg Option.isSome (KeyedMap.get?_put_of_ne hid _)

/-! ## Heartbeats -/

theorem ofContent_heartbeats (heartbeats : KeyedMap StoredHeartbeat.heartbeatKey) :
    OfContent fun store => store.heartbeats = heartbeats :=
  fun _ _ _ _ _ hheartbeats h => hheartbeats.trans h

end ControlStore

end Chronolog
