import Chronolog.ControlStore.Frames
import Chronolog.NodeCore.Convergence

/-!
# Runs

What a node has applied in a run, with forks or without (`appliedIn`), and what
its state tells of it: it reflects what was applied (`reflects_ingestAll`), its
heartbeats are some that were applied (`heartbeat_applied`), and no two records
applied are at one place of a feed (`eq_of_mem_appliedIn`).
-/

namespace Chronolog

open Procedure ChronologNode

/-- Ingesting the delivery applies its record as the message. -/
structure Applies (options : ChronologNodeOptions) (state : NodeState) (delivery : Delivery)
    (message : IngestMessage) : Prop where
  unseen : delivery.record.id ∉ state.seen
  accepts : Accepts state delivery.record
  read : readRecord options delivery.env delivery.record = .ok message

/-- What a node that starts anew applies in a run. -/
def appliedIn (options : ChronologNodeOptions) (deliveries : List Delivery) : Set Applied :=
  { applied | ∃ before delivery after, deliveries = before ++ delivery :: after ∧
    delivery.record.unstamped = applied.1 ∧
    Applies options (ingestAll options before (fresh options)) delivery
      applied.2 }

section Runs

variable {options : ChronologNodeOptions} {env : NodeEnv} {deliveries : List Delivery}
  {delivery : Delivery} {applied : Applied}

theorem appliedIn_nil : appliedIn options [] = ∅ :=
  Set.eq_empty_of_forall_notMem fun _ ⟨before, _, _, h, _⟩ => absurd h (by simp)

theorem mem_appliedIn_append {earlier later : List Delivery} :
    applied ∈ appliedIn options (earlier ++ later) ↔ applied ∈ appliedIn options earlier ∨
      ∃ before delivery after, later = before ++ delivery :: after ∧
        delivery.record.unstamped = applied.1 ∧ Applies options (ingestAll options
          (earlier ++ before) (fresh options)) delivery applied.2 := by
  constructor
  · rintro ⟨before, delivery, after, hsplit, hrecord, happlies⟩
    rcases List.append_eq_append_iff.1 hsplit with ⟨middle, rfl, rfl⟩ | ⟨middle, rfl, htail⟩
    · exact .inr ⟨middle, delivery, after, rfl, hrecord, happlies⟩
    · rcases List.cons_eq_append_iff.1 htail with ⟨rfl, rfl⟩ | ⟨rest, rfl, rfl⟩
      · exact .inr ⟨[], delivery, after, rfl, hrecord, by simpa using happlies⟩
      · exact .inl ⟨before, delivery, rest, rfl, hrecord, happlies⟩
  · rintro (⟨before, delivery, after, rfl, hrecord, happlies⟩ |
      ⟨before, delivery, after, rfl, hrecord, happlies⟩)
    · exact ⟨before, delivery, after ++ later, by simp, hrecord, happlies⟩
    · exact ⟨earlier ++ before, delivery, after, by simp, hrecord, happlies⟩

theorem mem_appliedIn_concat : applied ∈ appliedIn options (deliveries ++ [delivery]) ↔
    applied ∈ appliedIn options deliveries ∨ delivery.record.unstamped = applied.1 ∧
      Applies options (ingestAll options deliveries (fresh options)) delivery applied.2 := by
  rw [mem_appliedIn_append]
  refine or_congr_right ⟨fun ⟨before, last, after, hsplit, hrecord, happlies⟩ => ?_,
    fun ⟨hrecord, happlies⟩ => ⟨[], delivery, [], rfl, hrecord, by simpa using happlies⟩⟩
  rcases List.singleton_eq_append_iff.1 hsplit with ⟨rfl, hlast⟩ | ⟨_, hlast⟩
  · obtain rfl := List.head_eq_of_cons_eq hlast
    exact ⟨hrecord, by simpa using happlies⟩
  · cases hlast

theorem appliedIn_subset_append (later : List Delivery) :
    appliedIn options deliveries ⊆ appliedIn options (deliveries ++ later) :=
  fun _ h => mem_appliedIn_append.2 (.inl h)

theorem appliedIn_concat_of_applies {message : IngestMessage}
    (h : Applies options (ingestAll options deliveries (fresh options)) delivery message) :
    appliedIn options (deliveries ++ [delivery]) =
        insert (delivery.record.unstamped, message) (appliedIn options deliveries) := by
  ext applied
  rw [mem_appliedIn_concat, or_comm]
  refine or_congr_left ⟨fun ⟨hrecord, happlies⟩ => ?_, ?_⟩
  · exact Prod.ext hrecord.symm (Except.ok.inj (happlies.read.symm.trans h.read))
  · rintro rfl
    exact ⟨rfl, h⟩

theorem appliedIn_concat_of_not_applies (h : ∀ message, ¬ Applies options
      (ingestAll options deliveries (fresh options)) delivery message) :
    appliedIn options (deliveries ++ [delivery]) = appliedIn options deliveries := by
  ext applied
  rw [mem_appliedIn_concat]
  exact or_iff_left fun ⟨_, happlies⟩ => h _ happlies

/-! ## The ledger -/

/-- The node reflects what it has applied, if an id tells what was applied and
    the decisions taken on the way are those of `env`. -/
theorem reflects_ingestAll (hunique : UniqueIds (appliedIn options deliveries))
    (hsame : ∀ before delivery after, deliveries = before ++ delivery :: after →
      SameDecisions options env delivery.env (appliedIn options (before ++ [delivery]))) :
    Reflects options env (appliedIn options deliveries) ∅
      (ingestAll options deliveries (fresh options)) := by
  induction deliveries using List.reverseRecOn with
  | nil =>
    rw [appliedIn_nil]
    exact reflects_fresh _
  | append_singleton deliveries delivery ih =>
    have hsub : appliedIn options deliveries ⊆ appliedIn options (deliveries ++ [delivery]) :=
      appliedIn_subset_append _
    have hreflects := ih (fun a ha b hb => hunique a (hsub ha) b (hsub hb))
      fun before last after heq => hsame before last (after ++ [delivery]) (by simp [heq])
    have hlast := hsame deliveries delivery [] rfl
    rw [ingestAll_append]
    by_cases happlies : ∃ message, Applies options
        (ingestAll options deliveries (fresh options)) delivery message
    · obtain ⟨message, happlies⟩ := happlies
      rw [appliedIn_concat_of_applies happlies] at hunique hlast ⊢
      refine hreflects.ingest_of_accepts happlies.unseen happlies.accepts happlies.read
        (fun applied happlied hid => ?_) hlast
      exact hunique _ (.inr happlied) _ (.inl rfl) hid
    · rw [appliedIn_concat_of_not_applies (not_exists.1 happlies)]
      by_cases hseen : delivery.record.id ∈ (ingestAll options deliveries
          (fresh options)).seen
      · exact hreflects.ingest_of_not_accepts (.inl hseen)
      by_cases haccepts : Accepts (ingestAll options deliveries
          (fresh options)) delivery.record
      · cases hread : readRecord options delivery.env delivery.record with
        | ok message => exact absurd ⟨message, hseen, haccepts, hread⟩ happlies
        | error error => exact hreflects.ingest_of_error hread
      · exact hreflects.ingest_of_not_accepts (.inr haccepts)

/-! ## Feeds -/

/-- Records seen stay seen. -/
theorem seen_subset_ingest (options : ChronologNodeOptions) (env : NodeEnv)
    (record : TransportRecord) (state : NodeState) :
    state.seen ⊆ (ingest options env record state).seen := by
  by_cases hseen : record.id ∈ state.seen
  · rw [ingest, if_pos hseen]
  · rw [seen_ingest hseen]
    split
    · exact Finset.Subset.refl _
    · exact Finset.subset_insert _ _

theorem seen_subset_ingestAll (options : ChronologNodeOptions) (deliveries : List Delivery)
    (state : NodeState) : state.seen ⊆ (ingestAll options deliveries state).seen := by
  induction deliveries using List.reverseRecOn with
  | nil => exact Finset.Subset.refl _
  | append_singleton deliveries delivery ih =>
    rw [ingestAll_append]
    exact ih.trans (seen_subset_ingest _ _ _ _)

/-- What was applied is registered at its place. -/
theorem entry_of_mem_appliedIn (h : applied ∈ appliedIn options deliveries) :
    ((ingestAll options deliveries (fresh options)).feedForks.feed
      applied.1.author).get? applied.1.sequence = some ⟨applied.1.id, applied.1.previous⟩ := by
  induction deliveries using List.reverseRecOn with
  | nil =>
    rw [appliedIn_nil] at h
    cases h
  | append_singleton deliveries delivery ih =>
    rw [ingestAll_append]
    rcases mem_appliedIn_concat.1 h with h | ⟨hrecord, happlies⟩
    · by_cases hseen : delivery.record.id ∈ (ingestAll options deliveries
          (fresh options)).seen
      · rw [ingest, if_pos hseen]
        exact ih h
      · rw [feedForks_ingest hseen]
        exact FeedForkRegistry.get?_observe (ih h)
    · obtain ⟨continuity, forks, hobserve, haccepts⟩ := happlies.accepts
      rw [feedForks_ingest happlies.unseen, hobserve, finalState,
        (FeedForkRegistry.also_of_observe hobserve haccepts).feed, ← hrecord]
      exact if_pos ⟨rfl, rfl⟩

/-- Whatever is delivered, records applied at one place of a feed are one. -/
theorem eq_of_mem_appliedIn (options : ChronologNodeOptions) (deliveries : List Delivery) :
    (appliedIn options deliveries).Pairwise fun applied applied' =>
      applied.1.author = applied'.1.author → applied.1.sequence = applied'.1.sequence →
        applied.1.id = applied'.1.id ∧ applied.1.previous = applied'.1.previous := by
  intro applied h applied' h' _ hauthor hsequence
  have hentry := entry_of_mem_appliedIn h
  rw [hauthor, hsequence, entry_of_mem_appliedIn h'] at hentry
  exact FeedEntry.mk.inj (Option.some.inj hentry.symm)

/-! ## Heartbeats -/

section Heartbeats

variable {heartbeats : KeyedMap StoredHeartbeat.heartbeatKey} {record : TransportRecord}
  {state : NodeState}

/-- The heartbeats recorded by the node are the given ones. -/
def HasHeartbeats (heartbeats : KeyedMap StoredHeartbeat.heartbeatKey) (state : NodeState) : Prop :=
  state.control.heartbeats = heartbeats

theorem undisturbed_heartbeats : Undisturbed options (HasHeartbeats heartbeats) where
  order _ _ _ _ := NodeM.keeps_control fun s h => (ControlStore.ofContent_heartbeats _
    ).keeps_setCandidateState (fun _ _ _ _ _ h => h) _ _ _ _ s.control h
  cutoff := by
    refine keeps_ite (keeps_get.bind fun state => NodeM.keeps_control fun s h => ?_) (keeps_pure _)
    rcases s.control.persistValidatorCutoff_spec options.identity state.acceptedAboveMs with
      ⟨_, _, _, hpersist⟩ | ⟨cutoffs, hpersist, _⟩
    · rw [hpersist]
      exact h
    · rw [hpersist]
      exact h
  advance _ _ _ h := h
  other _ _ _ _ h := h

/-- A heartbeat is recorded, or nothing is. -/
theorem ingestHeartbeat_heartbeats (value : ValidatorHeartbeat) :
    ∃ feedContiguous, ∀ h ∈ (finalState (ingestHeartbeat options env record value
      state)).control.heartbeats.values,
      h ∈ state.control.heartbeats.values ∨ h = value.stored record feedContiguous := by
  have hfollow : HasHeartbeats state.control.heartbeats (finalState
      (followCutoff options (value.validatorId = options.identity)
        value.acceptanceCutoffMs state)) := undisturbed_heartbeats.followCutoff _ _ state rfl
  cases hrun : followCutoff options (value.validatorId = options.identity)
      value.acceptanceCutoffMs state with
  | error error followed =>
    rw [hrun] at hfollow
    simp only [ingestHeartbeat]
    rw [bind_run_of_error hrun]
    exact ⟨false, fun h hmem => .inl (hfollow ▸ hmem)⟩
  | ok u followed =>
    rw [hrun] at hfollow
    rw [finalState_ingestHeartbeat hrun]
    cases isFeedContiguous env record with
    | error message => exact ⟨false, fun h hmem => .inl (hfollow ▸ hmem)⟩
    | ok feedContiguous =>
      refine ⟨feedContiguous, fun h hmem => ?_⟩
      dsimp only at hmem
      rcases followed.control.recordHeartbeat_spec (value.stored record feedContiguous) with
        ⟨hsame, -⟩ | ⟨hcontent, -⟩
      · rw [hsame] at hmem
        exact .inl (hfollow ▸ hmem)
      · rw [hcontent.heartbeats] at hmem
        rcases KeyedMap.mem_values_put hmem with rfl | hmem
        · exact .inr rfl
        · exact .inl (hfollow ▸ hmem)

/-- A heartbeat that is recorded is the one delivered, or was recorded before. -/
theorem heartbeats_ingest {heartbeat : StoredHeartbeat}
    (h : heartbeat ∈ (ingest options delivery.env delivery.record
      state).control.heartbeats.values) :
    heartbeat ∈ state.control.heartbeats.values ∨ ∃ value feedContiguous,
      Applies options state delivery (.heartbeat value) ∧
      heartbeat = value.stored delivery.record feedContiguous := by
  by_cases hseen : delivery.record.id ∈ state.seen
  · rw [ingest, if_pos hseen] at h
    exact .inl h
  by_cases haccepts : Accepts state delivery.record
  · obtain ⟨continuity, forks, hobserve, hcontinuity⟩ := id haccepts
    rw [((sameStores_ingest hseen).trans
      (ingestRecord_of_accepts hobserve hcontinuity)).control] at h
    cases hread : readRecord options delivery.env delivery.record with
    | error error =>
      rw [hread] at h
      exact .inl h
    | ok message =>
      rw [hread] at h
      have hkept : ∀ p : NodeM Unit, Keeps (HasHeartbeats state.control.heartbeats) p →
          heartbeat ∈ (finalState (p { state with feedForks := forks })).control.heartbeats.values →
            heartbeat ∈ state.control.heartbeats.values := fun p hp hmem => by
        rwa [show (finalState (p { state with feedForks := forks })).control.heartbeats = _ from
          hp { state with feedForks := forks } rfl] at hmem
      cases message with
      | ignored => exact .inl h
      | candidate core read =>
        refine .inl (hkept _ (undisturbed_heartbeats.ingestCandidate ?_) h)
        exact NodeM.keeps_control fun s => (ControlStore.ofContent_heartbeats _).keeps_putCandidate
          (fun _ _ h => h) s.control
      | attestation value =>
        refine .inl (hkept _ (undisturbed_heartbeats.ingestAttestation ?_) h)
        exact NodeM.keeps_control fun s =>
          (ControlStore.ofContent_heartbeats _).keeps_putAttestation (fun _ h => h) s.control
      | heartbeat value =>
        obtain ⟨feedContiguous, hmem⟩ := @ingestHeartbeat_heartbeats options delivery.env
          delivery.record { state with feedForks := forks } value
        rcases hmem heartbeat h with h | h
        · exact .inl h
        · exact .inr ⟨value, feedContiguous, ⟨hseen, haccepts, hread⟩, h⟩
  · rw [((sameStores_ingest hseen).trans (ingestRecord_of_not_accepts haccepts)).control] at h
    exact .inl h

end Heartbeats

/-- A heartbeat that is recorded was applied. -/
theorem heartbeat_applied {heartbeat : StoredHeartbeat}
    (h : heartbeat ∈ (ingestAll options deliveries (fresh options)).control.heartbeats.values) :
    ∃ record value feedContiguous, (record, .heartbeat value) ∈ appliedIn options deliveries ∧
      heartbeat = value.stored record feedContiguous := by
  induction deliveries using List.reverseRecOn with
  | nil => cases h
  | append_singleton deliveries delivery ih =>
    have hold : heartbeat ∈ (ingestAll options deliveries
        (fresh options)).control.heartbeats.values →
        ∃ record value feedContiguous,
          (record, .heartbeat value) ∈ appliedIn options (deliveries ++ [delivery]) ∧
          heartbeat = value.stored record feedContiguous := fun h => by
      obtain ⟨record, value, feedContiguous, happlied, heq⟩ := ih h
      exact ⟨record, value, feedContiguous, appliedIn_subset_append _ happlied, heq⟩
    rw [ingestAll_append] at h
    rcases heartbeats_ingest h with h | ⟨value, feedContiguous, happlies, rfl⟩
    · exact hold h
    · exact ⟨delivery.record.unstamped, value, feedContiguous,
        mem_appliedIn_concat.2 (.inr ⟨rfl, happlies⟩), rfl⟩

end Runs

end Chronolog
