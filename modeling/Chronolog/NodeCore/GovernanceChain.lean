import Chronolog.NodeCore.Governance
import Mathlib.Data.List.Sort

/-!
# The chain of revisions

A control plane that accepts all of its records applies the changes they carry in
the order of their numbers, whatever the order of the records (`Chain`). So its
snapshots are determined by the set of records (`Chain.snapshots_eq`), and a
snapshot that it remembers stays if digests do not collide (`Remembers.ingest`).
-/

namespace Chronolog

open Procedure MembershipChange List

section Chain

variable {codec : CapabilityCodec}

/-- A change is applied, and the snapshot is remembered. -/
def MembershipChange.advance (codec : CapabilityCodec)
    (state : CapabilitySnapshot × KeyedMap CapabilitySnapshot.revisionDigest)
    (change : MembershipChange) :
    Except ProtocolError (CapabilitySnapshot × KeyedMap CapabilitySnapshot.revisionDigest) := do
  let snapshot ← change.apply codec state.1
  return (snapshot, state.2.put snapshot)

/-- The number of the revision that a change makes. -/
def MembershipChange.number (codec : CapabilityCodec) (change : MembershipChange) : Int :=
  ((change.place codec).toOption.map Prod.fst).getD 0

/-- The changes lead from the genesis to the state. -/
def Chain (codec : CapabilityCodec) (genesis : CapabilitySnapshot)
    (changes : List MembershipChange) (state : GovernanceState) : Prop :=
  changes.foldlM (MembershipChange.advance codec) (genesis, KeyedMap.empty.put genesis) =
    .ok (state.snapshot, state.snapshots)

/-- Changes are applied in the order of their numbers. -/
theorem pairwise_number_of_foldlM {changes : List MembershipChange}
    {start final : CapabilitySnapshot × KeyedMap CapabilitySnapshot.revisionDigest}
    (h : changes.foldlM (advance codec) start = .ok final) :
    changes.Pairwise (fun a b => a.number codec < b.number codec) ∧
      ∀ change ∈ changes, start.1.revision < change.number codec := by
  induction changes generalizing start with
  | nil => exact ⟨.nil, fun _ h => absurd h not_mem_nil⟩
  | cons change changes ih =>
    obtain ⟨next, hnext, h⟩ := bind_eq_ok_iff.1 h
    obtain ⟨snapshot, hsnapshot, hnext⟩ := bind_eq_ok_iff.1 hnext
    cases hnext
    obtain ⟨hpairwise, hlater⟩ := ih h
    obtain ⟨hplace, hlt⟩ := place_of_apply hsnapshot
    have hnumber : change.number codec = snapshot.revision := by rw [number, hplace]; rfl
    refine ⟨pairwise_cons.2 ⟨fun later hmem => ?_, hpairwise⟩, fun later hmem => ?_⟩
    · rw [hnumber]
      exact hlater later hmem
    · rcases mem_cons.1 hmem with rfl | hmem
      · rwa [hnumber]
      · exact hlt.trans (hlater later hmem)

/-- The changes determine the snapshots, in whatever order they are known. -/
theorem Chain.snapshots_eq {genesis : CapabilitySnapshot} {changes changes' : List MembershipChange}
    {state state' : GovernanceState} (h : Chain codec genesis changes state)
    (h' : Chain codec genesis changes' state') (hmem : ∀ c, c ∈ changes ↔ c ∈ changes') :
    state.snapshots = state'.snapshots := by
  have hsame : changes = changes' := by
    refine Perm.eq_of_pairwise (fun a b _ _ hab hba => absurd hba hab.asymm)
      (pairwise_number_of_foldlM h).1 (pairwise_number_of_foldlM h').1 ?_
    refine (perm_ext_iff_of_nodup ?_ ?_).2 hmem
    · exact (pairwise_number_of_foldlM h).1.imp fun hlt heq => absurd hlt (by simp [heq])
    · exact (pairwise_number_of_foldlM h').1.imp fun hlt heq => absurd hlt (by simp [heq])
  subst hsame
  exact (Prod.mk.inj (Except.ok.inj (h.symm.trans h'))).2

end Chain

/-! ## One record -/

section Ingest

open GovernanceControlPlane

variable {options : GovernanceControlPlaneOptions} {record : TransportRecord}
  {state state' : GovernanceState} {genesis : CapabilitySnapshot}

/-- The change of the membership that a payload carries. -/
def changeOf (options : GovernanceControlPlaneOptions) (payload : Bytes) :
    Option MembershipChange :=
  match decodeGovernanceEnvelope options payload with
  | .error _ => none
  | .ok (type, payload) =>
    match readTagged options payload with
    | .error _ => none
    | .ok (_, body) => ((readChange options type body).toOption).getD none

/-- A payload carries a change if it is read as one. -/
theorem changeOf_eq (payload : Bytes) : changeOf options payload =
    match readPayload options payload with
    | .change change => some change
    | _ => none := by
  unfold changeOf readPayload
  cases decodeGovernanceEnvelope options payload with
  | error message => rfl
  | ok decoded =>
    simp only [readMessage]
    cases readTagged options decoded.2 with
    | error message => rfl
    | ok tagged =>
      dsimp only
      cases readChange options decoded.1 tagged.2 with
      | error message => rfl
      | ok change =>
        cases change with
        | some change => rfl
        | none => cases options.epochCodec.decodeSignedEpochManifest tagged.2 <;> rfl

/-- A message on the feed of the log is read. -/
theorem readRecord_of_decoded {type : GovernanceMessageType} {payload : Bytes}
    (hseen : record.id ∉ state.seen)
    (hdecode : decodeGovernanceEnvelope options record.payload = .ok (type, payload))
    (hauthor : record.author = options.textDecoder state.snapshot.capabilityLogFeed) :
    readRecord options record state = readMessage options type payload := by
  simp only [readRecord, if_neg hseen, hdecode, hauthor, ne_eq, not_true_eq_false, and_false, if_false]

theorem finalState_ask {α : Type} (x : Except String α) : finalState (ask x state) = state := by
  cases x <;> rfl

/-- What an epoch leaves alone. -/
structure SameLog (state' state : GovernanceState) : Prop where
  snapshot : state'.snapshot = state.snapshot
  snapshots : state'.snapshots = state.snapshots
  seen : state'.seen = state.seen

theorem sameLog_installEpochKey (signed : SignedEpochManifest) (historical : Bool) :
    SameLog (installEpochKey options signed historical state) state := by
  unfold installEpochKey
  split
  · exact ⟨rfl, rfl, rfl⟩
  · split
    · exact ⟨rfl, rfl, rfl⟩
    · dsimp only
      split <;> exact ⟨rfl, rfl, rfl⟩

/-- An epoch leaves the membership alone. -/
theorem sameLog_ingestEpoch (signed : SignedEpochManifest) (historical : Bool) :
    SameLog (finalState (ingestEpoch options signed historical state)) state := by
  rw [ingestEpoch_eq]
  cases checkEpoch options signed historical state with
  | error message => exact ⟨rfl, rfl, rfl⟩
  | ok digest =>
    have hsame := @sameLog_installEpochKey options (acceptEpoch signed state digest) signed historical
    cases digest <;> exact { hsame with }

section

variable (options : GovernanceControlPlaneOptions) (record : TransportRecord)
  (state : GovernanceState)

/-- What a record that is accepted does: nothing if it was seen before; else it
    changes the membership if it carries a change. -/
inductive Ingested : GovernanceState → Prop
  | again (hseen : record.id ∈ state.seen) : Ingested state
  | other {state' : GovernanceState} (hchange : changeOf options record.payload = none)
      (hsnapshot : state'.snapshot = state.snapshot)
      (hsnapshots : state'.snapshots = state.snapshots)
      (hseen : state'.seen ⊆ insert record.id state.seen) : Ingested state'
  | change {state' : GovernanceState} {change : MembershipChange}
      (hchange : changeOf options record.payload = some change)
      (happly : change.apply options.capabilityCodec state.snapshot = .ok state'.snapshot)
      (hsnapshots : state'.snapshots = state.snapshots.put state'.snapshot)
      (hseen : state'.seen ⊆ insert record.id state.seen) : Ingested state'

end

theorem ingested_of_ingest {b : Bool} (h : ingest options record state = .ok b state') :
    Ingested options record state state' ∧ state.seen ⊆ state'.seen := by
  have hread := readRecord_spec options record state
  rw [ingest_eq] at h
  cases hreading : readRecord options record state with
  | ignored =>
    rw [hreading] at h hread
    obtain rfl := (EStateM.Result.ok.inj h).2
    refine ⟨?_, Finset.Subset.refl _⟩
    rcases hread with hseen | ⟨message, hdecode⟩
    · exact .again hseen
    · exact .other (by rw [changeOf, hdecode]) rfl rfl (Finset.subset_insert _ _)
  | refused message =>
    rw [hreading] at h
    cases h
  | change change =>
    rw [hreading] at h hread
    have hchange : changeOf options record.payload = some change := by rw [changeOf_eq, hread.2]
    simp only [applyChange_eq] at h
    cases happly : change.apply options.capabilityCodec state.snapshot with
    | error e =>
      simp only [happly] at h
      cases h
    | ok snapshot =>
      simp only [happly] at h
      cases hlistener : reopenHistory options change snapshot with
      | error message =>
        rw [hlistener] at h
        cases h
      | ok u =>
        rw [hlistener] at h
        obtain rfl := (EStateM.Result.ok.inj h).2
        exact ⟨.change hchange happly rfl (Finset.Subset.refl _), Finset.subset_insert _ _⟩
  | epoch signed historical =>
    simp only [hreading] at h hread
    have hchange : changeOf options record.payload = none := by rw [changeOf_eq, hread.2]
    have hsame := @sameLog_ingestEpoch options state signed historical
    cases hrun : ingestEpoch options signed historical state with
    | error message applied =>
      rw [hrun] at h
      cases h
    | ok u applied =>
      rw [hrun] at h hsame
      obtain rfl := (EStateM.Result.ok.inj h).2
      have hseen : insert record.id applied.seen = insert record.id state.seen := by
        rw [show applied.seen = state.seen from hsame.seen]
      exact ⟨.other hchange hsame.snapshot hsame.snapshots hseen.subset,
        hseen ▸ Finset.subset_insert _ _⟩

end Ingest

/-! ## Runs -/

section Log

variable {options : GovernanceControlPlaneOptions} {record : TransportRecord}
  {records : Set TransportRecord} {state state' : GovernanceState} {genesis : CapabilitySnapshot}

/-- The state has applied the changes that the records carry. -/
structure FollowsLog (options : GovernanceControlPlaneOptions) (genesis : CapabilitySnapshot)
    (records : Set TransportRecord) (state : GovernanceState) : Prop where
  chain : ∃ changes, Chain options.capabilityCodec genesis changes state ∧
    ∀ change, change ∈ changes ↔ ∃ record ∈ records, changeOf options record.payload = some change
  seen : ∀ id ∈ state.seen, ∃ record ∈ records, record.id = id

theorem followsLog_create (h : GovernanceControlPlane.create options = .ok state) :
    FollowsLog options state.snapshot ∅ state := by
  obtain ⟨snapshot, -, h⟩ := bind_eq_ok_iff.1 h
  cases h
  exact ⟨⟨[], rfl, fun change => ⟨fun h => absurd h not_mem_nil, fun ⟨_, h, _⟩ =>
    absurd h (Set.notMem_empty _)⟩⟩, fun id h => absurd h (Finset.notMem_empty _)⟩

/-- A record that is accepted is followed. -/
theorem FollowsLog.ingest (h : FollowsLog options genesis records state)
    (hids : ∀ record' ∈ records, record'.id = record.id → record'.payload = record.payload)
    (hingested : Ingested options record state state') :
    FollowsLog options genesis (insert record records) state' := by
  obtain ⟨⟨changes, hchain, hmem⟩, hseen⟩ := h
  have hinsert : ∀ change, (∃ record' ∈ insert record records,
      changeOf options record'.payload = some change) ↔
      changeOf options record.payload = some change ∨ change ∈ changes := by
    intro change
    rw [hmem]
    exact Set.exists_mem_insert
  have hseen' : ∀ {state' : GovernanceState}, state'.seen ⊆ insert record.id state.seen →
      ∀ id ∈ state'.seen, ∃ record' ∈ insert record records, record'.id = id := by
    intro state' hsub id hid
    rcases Finset.mem_insert.1 (hsub hid) with rfl | hid
    · exact ⟨record, .inl rfl, rfl⟩
    · obtain ⟨record', hrecord', hid'⟩ := hseen id hid
      exact ⟨record', .inr hrecord', hid'⟩
  cases hingested with
  | again hagain =>
    refine ⟨⟨changes, hchain, fun change => ?_⟩, hseen' (Finset.subset_insert _ _)⟩
    rw [hinsert, or_iff_right_of_imp]
    intro hchange
    obtain ⟨record', hrecord', hid⟩ := hseen _ hagain
    exact (hmem change).2 ⟨record', hrecord', by rw [hids record' hrecord' hid, hchange]⟩
  | other hchange hsnapshot hsnapshots hsub =>
    refine ⟨⟨changes, ?_, fun change => ?_⟩, hseen' hsub⟩
    · rw [Chain, hsnapshot, hsnapshots]
      exact hchain
    · rw [hinsert, hchange, or_iff_right (by simp)]
  | @change _ change hchange happly hsnapshots hsub =>
    refine ⟨⟨changes ++ [change], ?_, fun change' => ?_⟩, hseen' hsub⟩
    · rw [Chain, foldlM_append, hchain]
      simp only [bind, Except.bind, foldlM_cons, foldlM_nil, advance,
        happly, hsnapshots, pure, Except.pure]
    · rw [hinsert, hchange, mem_append, mem_singleton, or_comm, Option.some.injEq, eq_comm]

section

variable (codec : CapabilityCodec) (genesis : CapabilitySnapshot) (changes : Set MembershipChange)

/-- Digests tell the changes of a set apart, at least by their numbers, and from the genesis. -/
structure CollisionFree : Prop where
  number_eq : ∀ change ∈ changes, ∀ change' ∈ changes, ∀ n n' digest,
    change.place codec = .ok (n, digest) → change'.place codec = .ok (n', digest) → n = n'
  genesis_ne : ∀ change ∈ changes, ∀ n, change.place codec ≠ .ok (n, genesis.revisionDigest)

/-- The snapshots of the state are that of the genesis and those of changes, up to
    the current one. -/
def Remembers (state : GovernanceState) : Prop :=
  ∀ snapshot ∈ state.snapshots.values, snapshot.revision ≤ state.snapshot.revision ∧
    (snapshot.revisionDigest = genesis.revisionDigest ∨
      ∃ change ∈ changes, change.place codec = .ok (snapshot.revision, snapshot.revisionDigest))

end

variable {changes : Set MembershipChange}

theorem remembers_create (h : GovernanceControlPlane.create options = .ok state) :
    Remembers options.capabilityCodec state.snapshot changes state := by
  obtain ⟨snapshot, -, h⟩ := bind_eq_ok_iff.1 h
  cases h
  intro snapshot' hmem
  rcases KeyedMap.mem_values_put hmem with rfl | hmem
  · exact ⟨le_rfl, .inl rfl⟩
  · cases hmem

/-- Without collisions a snapshot that is remembered stays. -/
theorem Remembers.ingest (h : Remembers options.capabilityCodec genesis changes state)
    (hfree : CollisionFree options.capabilityCodec genesis changes)
    (hchanges : ∀ change, changeOf options record.payload = some change → change ∈ changes)
    (hingested : Ingested options record state state') :
    Remembers options.capabilityCodec genesis changes state' ∧
      ∀ digest snapshot, state.snapshotForRevision digest = some snapshot →
        state'.snapshotForRevision digest = some snapshot := by
  cases hingested with
  | again hagain => exact ⟨h, fun _ _ h => h⟩
  | other hchange hsnapshot hsnapshots hsub =>
    simp only [Remembers, GovernanceState.snapshotForRevision, hsnapshot, hsnapshots]
    exact ⟨h, fun _ _ h => h⟩
  | @change _ change hchange happly hsnapshots hsub =>
    obtain ⟨hplace, hlt⟩ := place_of_apply happly
    have hmem := hchanges change hchange
    refine ⟨fun snapshot hsnapshot => ?_, fun digest snapshot hget => ?_⟩
    · rw [hsnapshots] at hsnapshot
      rcases KeyedMap.mem_values_put hsnapshot with rfl | hsnapshot
      · exact ⟨le_rfl, .inr ⟨change, hmem, hplace⟩⟩
      · obtain ⟨hle, hknown⟩ := h snapshot hsnapshot
        exact ⟨hle.trans hlt.le, hknown⟩
    · rw [GovernanceState.snapshotForRevision, hsnapshots, KeyedMap.get?_put_of_ne, ← hget]
      · rfl
      · rintro rfl
        -- The digest of the new snapshot would be that of an older one.
        obtain ⟨hle, hknown⟩ := h snapshot (KeyedMap.mem_values_of_get? hget)
        have hdigest : snapshot.revisionDigest = state'.snapshot.revisionDigest :=
          KeyedMap.key_eq hget
        rw [hdigest] at hknown
        rcases hknown with hgenesis | ⟨change', hmem', hplace'⟩
        · exact hfree.genesis_ne change hmem _ (hgenesis ▸ hplace)
        · have heq := hfree.number_eq change hmem change' hmem' _ _ _ hplace hplace'
          omega

end Log

end Chronolog
