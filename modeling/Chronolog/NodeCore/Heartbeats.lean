import Chronolog.Lib.Newest
import Chronolog.Lib.Reachable
import Chronolog.NodeCore.Redelivery
import Chronolog.NodeCore.Runs

/-!
# The heartbeats of a feed

A heartbeat is stored with what the transport reports of its feed when it is ingested: whether it has all
records up to it. The report is part of the stored heartbeat, so it is never renewed, and a heartbeat that
comes again after a restart, with another report, is a conflict.

Once all heartbeats of a feed have been recorded the last one of each validator is stored as one of a
contiguous feed, and none was a conflict, exactly if the reports are steady (`settled_iff`).
-/

namespace Chronolog

open Procedure Relation ChronologNode

/-! ## Recording a heartbeat -/

namespace ControlStore

/-- What is stored of a validator after a heartbeat. -/
def heartbeatAfter (heartbeat : StoredHeartbeat) :
    Option StoredHeartbeat → Except ControlStoreConflictError StoredHeartbeat
  | none => .ok heartbeat
  | some previous =>
    if heartbeat.validatorFeedSequence < previous.validatorFeedSequence then .ok previous
    else if heartbeat.acceptanceCutoffMs < previous.acceptanceCutoffMs then
      .error .heartbeatCutoffRegression
    else if heartbeat.validatorFeedSequence = previous.validatorFeedSequence then
      if previous ≠ heartbeat then .error .heartbeatConflict else .ok previous
    else .ok heartbeat

theorem heartbeatAfter_eq_error {heartbeat : StoredHeartbeat} {previous : Option StoredHeartbeat}
    {error : ControlStoreConflictError} (h : heartbeatAfter heartbeat previous = .error error) :
    error = .heartbeatCutoffRegression ∨ error = .heartbeatConflict := by
  cases previous with
  | none => cases h
  | some previous =>
    dsimp only [heartbeatAfter] at h
    split_ifs at h
    · exact .inl (Except.error.inj h).symm
    · exact .inr (Except.error.inj h).symm

/-- Recording a heartbeat changes what is stored of its validator, or fails and changes nothing. -/
theorem recordHeartbeat_run (heartbeat : StoredHeartbeat) (store : ControlStore) :
    match heartbeatAfter heartbeat (store.heartbeats.get? heartbeat.heartbeatKey) with
    | .ok recorded => ∃ delta store', recordHeartbeat heartbeat store = .ok delta store' ∧
        ∀ key, store'.heartbeats.get? key =
          if key = heartbeat.heartbeatKey then some recorded else store.heartbeats.get? key
    | .error error => recordHeartbeat heartbeat store = .error error store := by
  obtain ⟨delta, store', hadvance, hcontent⟩ := exists_advance heartbeat store
  have hput : ∀ key, store'.heartbeats.get? key =
      if key = heartbeat.heartbeatKey then some heartbeat else store.heartbeats.get? key := by
    intro key
    rw [hcontent.heartbeats]
    split_ifs with hkey
    · rw [hkey]
      exact KeyedMap.get?_put_self _ _
    · exact KeyedMap.get?_put_of_ne hkey _
  have hkept : ∀ previous, store.heartbeats.get? heartbeat.heartbeatKey = some previous →
      ∀ key, store.heartbeats.get? key =
        if key = heartbeat.heartbeatKey then some previous else store.heartbeats.get? key := by
    intro previous hget key
    split_ifs with hkey
    · rw [hkey, hget]
    · rfl
  simp only [recordHeartbeat, bind_get_run]
  cases hget : store.heartbeats.get? heartbeat.heartbeatKey with
  | none => exact ⟨_, _, hadvance, hput⟩
  | some previous =>
    dsimp only [heartbeatAfter]
    split_ifs
    · exact ⟨_, _, rfl, hkept previous hget⟩
    -- The cutoff regresses, in three cases, or the heartbeat conflicts.
    iterate 4 exact rfl
    · exact ⟨_, _, rfl, hkept previous hget⟩
    · exact ⟨_, _, hadvance, hput⟩

end ControlStore

/-! ## Feeds -/

/-- A heartbeat of a feed. -/
structure FeedHeartbeat where
  record : TransportRecord
  value : ValidatorHeartbeat
  deriving DecidableEq

namespace FeedHeartbeat

variable (entry : FeedHeartbeat)

/-- What the heartbeat is stored under. -/
def key : Bytes × Bytes := (entry.value.membershipRevision, entry.value.validatorId)

/-- The heartbeat as it is stored, with a report of the transport. -/
def stored (report : Bool) : StoredHeartbeat := entry.value.stored entry.record report

end FeedHeartbeat

/-- The heartbeats of a feed without forks, whose cutoffs never decrease. -/
structure ValidatorFeed where
  entries : List FeedHeartbeat
  eq_of_sequence_eq : ∀ entry ∈ entries, ∀ other ∈ entries,
    entry.record.sequence = other.record.sequence → entry = other
  cutoff_le : ∀ entry ∈ entries, ∀ other ∈ entries, entry.record.sequence ≤ other.record.sequence →
    entry.value.acceptanceCutoffMs ≤ other.value.acceptanceCutoffMs

/-- The heartbeat is the last one of its validator for its revision. -/
def ValidatorFeed.IsLast (feed : ValidatorFeed) (entry : FeedHeartbeat) : Prop :=
  entry ∈ feed.entries ∧ ∀ other ∈ feed.entries, other.key = entry.key →
    other.record.sequence ≤ entry.record.sequence

/-! ## Runs -/

/-- A node that is started again, with what was persisted. -/
def ChronologNode.restarted (options : ChronologNodeOptions) (control : ControlStore)
    (feedForks : FeedForkRegistry) : NodeState where
  control
  feedForks
  acceptedAboveMs :=
    ((control.validatorCutoff options.identity).toList ++
      (control.heartbeats.values.filter (·.validatorId = options.identity)).map (·.acceptanceCutoffMs) ++
      (control.attestations.values.filter (·.validatorId = options.identity)).map
        (·.acceptedAboveMs)).foldl max ((options.validator.map (·.initialAcceptedAboveMs)).getD 0)

/-- Did recording a heartbeat fail? -/
def heartbeatConflicts : EStateM.Result IngestError NodeState Unit → Bool
  | .error (.conflict .heartbeatCutoffRegression) _ | .error (.conflict .heartbeatConflict) _ => true
  | _ => false

/-- A node, the heartbeats of a feed that it has recorded, with the reports of the transport, and whether
    recording one of them has failed. -/
structure HeartbeatRun where
  node : NodeState
  recorded : List (FeedHeartbeat × Bool) := []
  thrown : Bool := false

/-- A step of the node. -/
inductive HeartbeatStep (options : ChronologNodeOptions) (feed : ValidatorFeed) :
    HeartbeatRun → HeartbeatRun → Prop
  -- A heartbeat of the feed is delivered, with a time of its receipt, and can be applied.
  | deliver {s : HeartbeatRun} {entry : FeedHeartbeat} {delivery : Delivery} {report : Bool}
      (hentry : entry ∈ feed.entries) (hrecord : delivery.record.unstamped = entry.record.unstamped)
      (happlies : Applies options s.node delivery (.heartbeat entry.value))
      (hkept : CutoffKept options s.node)
      (hreport : isFeedContiguous delivery.env delivery.record = .ok report) :
      HeartbeatStep options feed s
        { node := ingest options delivery.env delivery.record s.node
          recorded := s.recorded ++ [(entry, report)]
          thrown := s.thrown ||
            heartbeatConflicts
              (ingestRecord options delivery.env delivery.record s.node) }
  | restart {s : HeartbeatRun} :
      HeartbeatStep options feed s
        { s with node := restarted options s.node.control s.node.feedForks }
  -- Anything else, such as a delivery of another record, or one that is seen already or fails.
  | other {s : HeartbeatRun} {node : NodeState}
      (hheartbeats : ∀ entry ∈ feed.entries,
        node.control.heartbeats.get? entry.key = s.node.control.heartbeats.get? entry.key) :
      HeartbeatStep options feed s { s with node }

/-- Each last heartbeat is stored, as one of a contiguous feed, and recording one has never failed. -/
structure HeartbeatRun.Settled (feed : ValidatorFeed) (s : HeartbeatRun) : Prop where
  not_thrown : s.thrown = false
  stored : ∀ entry, feed.IsLast entry →
    s.node.control.heartbeats.get? entry.key = some (entry.stored true)

/-- Whenever a heartbeat is recorded and no later one of its validator is yet, the transport reports the
    same of it, and of a last one that the feed is contiguous. -/
def Steady (feed : ValidatorFeed) (recorded : List (FeedHeartbeat × Bool)) : Prop :=
  ∃ reports : FeedHeartbeat → Bool, (∀ entry, feed.IsLast entry → reports entry = true) ∧
    ∀ before entry report after, recorded = before ++ (entry, report) :: after →
      (∀ earlier ∈ before, earlier.1.key = entry.key →
        earlier.1.record.sequence ≤ entry.record.sequence) → report = reports entry

/-! ### One delivery -/

section

variable {options : ChronologNodeOptions} {state : NodeState} {delivery : Delivery}
  {value : ValidatorHeartbeat} {report : Bool}

/-- What becomes of a heartbeat that is applied. -/
theorem Applies.heartbeatAfter (h : Applies options state delivery (.heartbeat value))
    (hkept : CutoffKept options state)
    (hreport : isFeedContiguous delivery.env delivery.record = .ok report) :
    match ControlStore.heartbeatAfter (value.stored delivery.record report)
      (state.control.heartbeats.get? (value.membershipRevision, value.validatorId)) with
    | .ok recorded =>
      (∀ key, (ingest options delivery.env delivery.record
        state).control.heartbeats.get? key =
          if key = (value.membershipRevision, value.validatorId) then some recorded
          else state.control.heartbeats.get? key) ∧
      heartbeatConflicts (ingestRecord options delivery.env delivery.record state) = false
    | .error _ =>
      (ingest options delivery.env delivery.record state).control.heartbeats =
        state.control.heartbeats ∧
      heartbeatConflicts
        (ingestRecord options delivery.env delivery.record state) = true := by
  obtain ⟨hunseen, ⟨continuity, forks, hobserve, haccepted⟩, hread⟩ := h
  have happly : ingestRecord options delivery.env delivery.record state = applyRecord options
      delivery.env delivery.record (.heartbeat value) { state with feedForks := forks } := by
    rw [ingestRecord_of_continues hobserve haccepted, hread]
  obtain ⟨followed, hfollow, -⟩ := @followCutoff_control options { state with feedForks := forks } hkept
    (value.validatorId = options.identity) value.acceptanceCutoffMs
  have hheartbeats : followed.control.heartbeats = state.control.heartbeats := by
    have hkeeps := (@undisturbed_heartbeats options state.control.heartbeats).followCutoff
      (value.validatorId = options.identity) value.acceptanceCutoffMs
      { state with feedForks := forks } rfl
    rw [hfollow] at hkeeps
    exact hkeeps
  have hingest := @sameStores_ingest options delivery.env state delivery.record hunseen
  rw [happly, applyRecord] at hingest ⊢
  simp only [applyMessage, ingestHeartbeat, bind_assoc] at hingest ⊢
  rw [bind_run_of_ok hfollow] at hingest ⊢
  simp only [hreport, NodeM.ask, bind_pure_run] at hingest ⊢
  have hrun := ControlStore.recordHeartbeat_run (value.stored delivery.record report) followed.control
  rw [hheartbeats] at hrun
  cases hafter : ControlStore.heartbeatAfter (value.stored delivery.record report)
      (state.control.heartbeats.get? (value.membershipRevision, value.validatorId)) with
  | ok recorded =>
    obtain ⟨delta, store, hrecord, hget⟩ : ∃ delta store,
        ControlStore.recordHeartbeat (value.stored delivery.record report) followed.control =
          .ok delta store ∧ ∀ key, store.heartbeats.get? key =
            if key = (value.membershipRevision, value.validatorId) then some recorded
            else state.control.heartbeats.get? key := by
      rw [show (value.stored delivery.record report).heartbeatKey =
        (value.membershipRevision, value.validatorId) from rfl, hafter] at hrun
      exact hrun
    rw [bind_run_of_ok (NodeM.control_of_ok hrecord)] at hingest ⊢
    refine ⟨fun key => ?_, rfl⟩
    rw [hingest.control, ← hget]
    change (ite _ _ _ : NodeState).control.heartbeats.get? key = _
    split_ifs <;> rfl
  | error error =>
    have hrecord : ControlStore.recordHeartbeat (value.stored delivery.record report)
        followed.control = .error error followed.control := by
      rw [show (value.stored delivery.record report).heartbeatKey =
        (value.membershipRevision, value.validatorId) from rfl, hafter] at hrun
      exact hrun
    rw [bind_run_of_error (NodeM.control_of_error hrecord)] at hingest ⊢
    refine ⟨(congrArg ControlStore.heartbeats hingest.control).trans hheartbeats, ?_⟩
    rcases ControlStore.heartbeatAfter_eq_error hafter with rfl | rfl <;> rfl

end

/-! ### Whole runs -/

section

variable {options : ChronologNodeOptions} {feed : ValidatorFeed} {s s' : HeartbeatRun}
variable {recorded : List (FeedHeartbeat × Bool)} {entry : FeedHeartbeat} {report : Bool}

/-- The newest heartbeat of a validator that was recorded, with the first report of it. -/
def newestRecorded (key : Bytes × Bytes) (recorded : List (FeedHeartbeat × Bool)) :
    Option (FeedHeartbeat × Bool) :=
  Newest.newest (fun entry => entry.1.key) (fun entry => entry.1.record.sequence) key recorded

theorem newestRecorded_concat_of_ne {key : Bytes × Bytes} (h : entry.key ≠ key) :
    newestRecorded key (recorded ++ [(entry, report)]) = newestRecorded key recorded := by
  exact Newest.newest_concat_of_ne h

/-- The heartbeat was the newest one already, with another report. -/
def Changed (before : List (FeedHeartbeat × Bool)) (entry : FeedHeartbeat × Bool) : Prop :=
  ∃ first, newestRecorded entry.1.key before = some (entry.1, first) ∧ first ≠ entry.2

/-- The newest heartbeats are stored, and recording one failed if the report of it had changed. -/
structure HeartbeatRun.Follows (feed : ValidatorFeed) (s : HeartbeatRun) : Prop where
  mem : ∀ entry ∈ s.recorded, entry.1 ∈ feed.entries
  stored : ∀ entry ∈ feed.entries, s.node.control.heartbeats.get? entry.key =
    (newestRecorded entry.key s.recorded).map fun newest => newest.1.stored newest.2
  thrown_iff : s.thrown ↔
    ∃ before entry after, s.recorded = before ++ entry :: after ∧ Changed before entry

/-- A heartbeat of a feed is recorded, if it is the newest, unless it is and the report has changed. -/
theorem heartbeatAfter_newestRecorded (hmem : ∀ entry ∈ recorded, entry.1 ∈ feed.entries)
    (hentry : entry ∈ feed.entries) (report : Bool) :
    (∃ first, newestRecorded entry.key recorded = some (entry, first) ∧ first ≠ report ∧
      newestRecorded entry.key (recorded ++ [(entry, report)]) = newestRecorded entry.key recorded ∧
      ControlStore.heartbeatAfter (entry.stored report)
        ((newestRecorded entry.key recorded).map fun newest => newest.1.stored newest.2) =
          .error .heartbeatConflict) ∨
    ((∀ first, newestRecorded entry.key recorded = some (entry, first) → first = report) ∧
      ∃ newest, newestRecorded entry.key (recorded ++ [(entry, report)]) = some newest ∧
        ControlStore.heartbeatAfter (entry.stored report)
          ((newestRecorded entry.key recorded).map fun newest => newest.1.stored newest.2) =
            .ok (newest.1.stored newest.2)) := by
  cases hnewest : newestRecorded entry.key recorded with
  | none => exact .inr ⟨nofun, _, Newest.newest_concat_of_none hnewest rfl, rfl⟩
  | some newest =>
    obtain ⟨-, -, before, after, rfl, -⟩ := Newest.newest_eq_some hnewest
    have hnewestMem : newest.1 ∈ feed.entries := hmem newest (by simp)
    rcases lt_trichotomy entry.record.sequence newest.1.record.sequence with hlt | heq | hgt
    · refine .inr ⟨fun first hfirst => ?_, newest, Newest.newest_concat_of_le hnewest rfl hlt.le, ?_⟩
      · cases hfirst
        exact absurd hlt (lt_irrefl _)
      · exact if_pos hlt
    · obtain ⟨newestEntry, first⟩ := newest
      obtain rfl := feed.eq_of_sequence_eq entry hentry newestEntry hnewestMem heq
      have hsame : newestRecorded entry.key (before ++ (entry, first) :: after ++ [(entry, report)]) =
          some (entry, first) := Newest.newest_concat_of_le hnewest rfl le_rfl
      by_cases hreport : first = report
      · subst hreport
        refine .inr ⟨fun _ hfirst => (Prod.mk.inj (Option.some.inj hfirst)).2.symm, _, hsame, ?_⟩
        simp [ControlStore.heartbeatAfter]
      · refine .inl ⟨first, rfl, hreport, hsame, ?_⟩
        simp [ControlStore.heartbeatAfter, FeedHeartbeat.stored, ValidatorHeartbeat.stored, hreport]
    · refine .inr ⟨fun first hfirst => ?_, _, Newest.newest_concat_of_lt hnewest rfl hgt, ?_⟩
      · cases hfirst
        exact absurd hgt (lt_irrefl _)
      · have hcutoff := feed.cutoff_le newest.1 hnewestMem entry hentry hgt.le
        exact (if_neg hgt.le.not_gt).trans ((if_neg hcutoff.not_gt).trans (if_neg hgt.ne'))

theorem HeartbeatRun.Follows.step (h : s.Follows feed) (hstep : HeartbeatStep options feed s s') :
    s'.Follows feed := by
  cases hstep with
  | restart => exact { h with }
  | other hheartbeats =>
    exact ⟨h.mem, fun entry hentry => (hheartbeats entry hentry).trans (h.stored entry hentry),
      h.thrown_iff⟩
  | @deliver entry delivery report hentry hrecord happlies hkept hreport =>
    have hstored : entry.value.stored delivery.record report = entry.stored report := by
      have hid : delivery.record.unstamped.id = entry.record.unstamped.id := by rw [hrecord]
      have hsequence : delivery.record.unstamped.sequence = entry.record.unstamped.sequence := by
        rw [hrecord]
      dsimp only [TransportRecord.unstamped] at hid hsequence
      simp only [FeedHeartbeat.stored, ValidatorHeartbeat.stored, hid, hsequence]
    have hafter := happlies.heartbeatAfter hkept hreport
    rw [hstored, show (entry.value.membershipRevision, entry.value.validatorId) = entry.key from rfl,
      h.stored entry hentry] at hafter
    have hmem : ∀ other ∈ s.recorded ++ [(entry, report)], other.1 ∈ feed.entries := by
      intro other hother
      rcases List.mem_append.1 hother with hother | hother
      · exact h.mem other hother
      · rw [List.mem_singleton.1 hother]
        exact hentry
    rcases heartbeatAfter_newestRecorded h.mem hentry report with
      ⟨first, hnewest, hchanged, hsame, herror⟩ | ⟨hunchanged, newest, hnewest, hok⟩
    · rw [herror] at hafter
      obtain ⟨hheartbeats, hconflicts⟩ := hafter
      refine ⟨hmem, fun other hother => ?_, ?_⟩
      · rw [hheartbeats, h.stored other hother]
        by_cases hkey : entry.key = other.key
        · rw [← hkey, hsame]
        · rw [newestRecorded_concat_of_ne hkey]
      · rw [hconflicts, Bool.or_true]
        exact iff_of_true rfl ⟨_, _, [], rfl, first, hnewest, hchanged⟩
    · rw [hok] at hafter
      obtain ⟨hheartbeats, hconflicts⟩ := hafter
      refine ⟨hmem, fun other hother => ?_, ?_⟩
      · rw [hheartbeats other.key]
        by_cases hkey : other.key = entry.key
        · rw [if_pos hkey, hkey, hnewest]
          rfl
        · rw [if_neg hkey, h.stored other hother, newestRecorded_concat_of_ne (Ne.symm hkey)]
      · have hnot : ¬ Changed s.recorded (entry, report) :=
          fun ⟨first, hfirst, hchanged⟩ => hchanged (hunchanged first hfirst)
        rw [hconflicts, Bool.or_false, h.thrown_iff, Newest.exists_split_concat_iff, or_iff_left hnot]

theorem HeartbeatRun.Follows.run (h : s.Follows feed)
    (hrun : ReflTransGen (HeartbeatStep options feed) s s') : s'.Follows feed :=
  Reachable.invariant (fun h hstep => h.step hstep) hrun h

/-- A node that has recorded nothing of the feed. -/
theorem HeartbeatRun.Follows.start {node : NodeState}
    (hnone : ∀ entry ∈ feed.entries, node.control.heartbeats.get? entry.key = none) :
    HeartbeatRun.Follows feed { node } where
  mem := nofun
  stored := hnone
  thrown_iff := by simp

/-- The first report of a heartbeat. -/
def firstReport (recorded : List (FeedHeartbeat × Bool)) (entry : FeedHeartbeat) : Bool :=
  ((recorded.find? (·.1 = entry)).map (·.2)).getD true

theorem firstReport_eq {before after : List (FeedHeartbeat × Bool)}
    (hbefore : ∀ other ∈ before, other.1 ≠ entry) :
    firstReport (before ++ (entry, report) :: after) entry = report := by
  have hnone : before.find? (·.1 = entry) = none := by simpa using hbefore
  simp [firstReport, hnone]

/-- The report with the newest heartbeat is the first of it. -/
theorem firstReport_of_newestRecorded {recorded after : List (FeedHeartbeat × Bool)}
    {first : Bool} (h : newestRecorded entry.key recorded = some (entry, first)) :
    firstReport (recorded ++ after) entry = first := by
  obtain ⟨-, -, before, later, rfl, hbefore⟩ := Newest.newest_eq_some h
  rw [List.append_assoc]
  refine firstReport_eq fun other hother heq => ?_
  have hlt := hbefore other hother (by rw [heq])
  rw [heq] at hlt
  exact lt_irrefl _ hlt

/-- A heartbeat that was recorded, and none after it, is the newest. -/
theorem exists_newestRecorded (hmem : ∀ entry ∈ recorded, entry.1 ∈ feed.entries)
    (hentry : (entry, report) ∈ recorded) (hmax : ∀ other ∈ recorded, other.1.key = entry.key →
      other.1.record.sequence ≤ entry.record.sequence) :
    ∃ first, newestRecorded entry.key recorded = some (entry, first) := by
  cases hnewest : newestRecorded entry.key recorded with
  | none => exact absurd rfl (Newest.newest_eq_none hnewest _ hentry)
  | some newest =>
    obtain ⟨hkey, hle, before, after, rfl, -⟩ := Newest.newest_eq_some hnewest
    have hsequence := le_antisymm (hmax newest (by simp) hkey) (hle _ hentry rfl)
    have heq := feed.eq_of_sequence_eq newest.1 (hmem newest (by simp)) entry (hmem _ hentry) hsequence
    exact ⟨newest.2, by rw [← heq]⟩

/-- The heartbeats of a feed that were all recorded are settled exactly if the reports were steady. -/
theorem settled_iff {node : NodeState}
    (hnone : ∀ entry ∈ feed.entries, node.control.heartbeats.get? entry.key = none)
    (hrun : ReflTransGen (HeartbeatStep options feed) { node } s)
    (hall : ∀ entry ∈ feed.entries, ∃ report, (entry, report) ∈ s.recorded) :
    s.Settled feed ↔ Steady feed s.recorded := by
  have h : s.Follows feed := (HeartbeatRun.Follows.start hnone).run hrun
  have hlast : ∀ entry, feed.IsLast entry → ∃ first,
      newestRecorded entry.key s.recorded = some (entry, first) ∧
        s.node.control.heartbeats.get? entry.key = some (entry.stored first) := by
    intro entry hentry
    obtain ⟨report, hreport⟩ := hall entry hentry.1
    obtain ⟨first, hfirst⟩ := exists_newestRecorded h.mem hreport
      fun other hother hkey => hentry.2 other.1 (h.mem other hother) hkey
    exact ⟨first, hfirst, by rw [h.stored entry hentry.1, hfirst]; rfl⟩
  constructor
  · intro hsettled
    refine ⟨firstReport s.recorded, fun entry hentry => ?_, ?_⟩
    · obtain ⟨first, hfirst, hget⟩ := hlast entry hentry
      have hstored := Option.some.inj (hget.symm.trans (hsettled.stored entry hentry))
      have hreport : first = true := congrArg StoredHeartbeat.feedContiguous hstored
      rw [← List.append_nil s.recorded, firstReport_of_newestRecorded hfirst, hreport]
    · intro before entry report after hrecorded hmax
      have hmem : ∀ other ∈ before, other.1 ∈ feed.entries := fun other hother =>
        h.mem other (by rw [hrecorded]; simp [hother])
      rw [hrecorded]
      by_cases hearlier : ∃ earlier, (entry, earlier) ∈ before
      -- It was the newest one already, and the report has not changed.
      · obtain ⟨earlier, hearlier⟩ := hearlier
        obtain ⟨first, hfirst⟩ := exists_newestRecorded hmem hearlier hmax
        rw [firstReport_of_newestRecorded hfirst]
        by_contra hchanged
        have hthrown := h.thrown_iff.2 ⟨before, _, after, hrecorded, first, hfirst, Ne.symm hchanged⟩
        rw [hsettled.not_thrown] at hthrown
        cases hthrown
      · exact (firstReport_eq fun other hother heq =>
          hearlier ⟨other.2, by rw [← heq]; exact hother⟩).symm
  · rintro ⟨reports, htrue, hsteady⟩
    refine ⟨?_, fun entry hentry => ?_⟩
    · by_contra hthrown
      obtain ⟨before, ⟨entry, report⟩, after, hrecorded, first, hnewest, hchanged⟩ :=
        h.thrown_iff.1 (by simpa using hthrown)
      obtain ⟨-, hmax, earlier, later, rfl, hearlier⟩ := Newest.newest_eq_some hnewest
      have hfirst := hsteady earlier entry first _ (by rw [hrecorded]; simp; rfl)
        fun other hother hkey => (hearlier other hother hkey).le
      have hreport := hsteady _ entry report after hrecorded hmax
      exact hchanged (hfirst.trans hreport.symm)
    · obtain ⟨first, hnewest, hget⟩ := hlast entry hentry
      obtain ⟨-, -, before, after, hrecorded, hbefore⟩ := Newest.newest_eq_some hnewest
      have hfirst := hsteady before entry first after hrecorded
        fun other hother hkey => (hbefore other hother hkey).le
      rw [hget, hfirst, htrue entry hentry]

end

/-! ## Samples -/

namespace MemoryTransport

/-- How far the sequences, in their order, go on without a gap. -/
def contiguousFrom (contiguousThrough : Int) : List Int → Int
  | [] => contiguousThrough
  | sequence :: sequences =>
    if sequence ≠ contiguousThrough + 1 then contiguousThrough else contiguousFrom sequence sequences

/-- The feeds in the status of a transport in memory, by its records. -/
def feedStates (le : String → String → Bool) (records : List TransportRecord) : List FeedState :=
  let feeds := (records.map (·.author)).dedup.map fun feedId =>
    let sequences := (records.filter (·.author = feedId)).map (·.sequence)
    (⟨feedId, toString (contiguousFrom 0 (sequences.dedup.insertionSort (· ≤ ·)))⟩ : FeedState)
  feeds.insertionSort fun left right => le left.feedId right.feedId

end MemoryTransport

instance (state : NodeState) (record : TransportRecord) : Decidable (Accepts state record) :=
  match h : FeedForkRegistry.observe record state.feedForks with
  | .ok continuity forks =>
    if hcontinuity : continuity = .accepted ∨ continuity = .duplicate then
      isTrue ⟨continuity, forks, h, hcontinuity⟩
    else
      isFalse fun ⟨_, _, hobserve, hcontinuity'⟩ => by
        cases h.symm.trans hobserve
        exact hcontinuity hcontinuity'
  | .error message forks => isFalse fun ⟨_, _, hobserve, _⟩ => by cases h.symm.trans hobserve

namespace TwoHeartbeats

open SmallGroup (resolver)

/-- A heartbeat of the bank. -/
def heartbeat (acceptanceCutoffMs : Int) : ValidatorHeartbeat :=
  ⟨[0], [9], [11], [1], acceptanceCutoffMs⟩

def first : FeedHeartbeat := ⟨⟨"h", "x", 1, none, some 0, [1]⟩, heartbeat 10⟩

def second : FeedHeartbeat := ⟨⟨"i", "x", 2, some "h", some 0, [2]⟩, heartbeat 20⟩

/-- The bank's feed. -/
def feed : ValidatorFeed where
  entries := [first, second]
  eq_of_sequence_eq := by decide
  cutoff_le := by decide

/-- A node of the group. -/
def options : ChronologNodeOptions :=
  SmallGroup.options [(1, .heartbeat (heartbeat 10)), (2, .heartbeat (heartbeat 20))] [8]

/-- The surroundings of the node when its transport has some records. -/
def env (records : List TransportRecord) : NodeEnv :=
  { TwoValidators.env resolver with
    feedStates := .ok (MemoryTransport.feedStates (· ≤ ·) records) }

/-- The node is handed a heartbeat. -/
def deliver (records : List TransportRecord) (entry : FeedHeartbeat) (report : Bool)
    (s : HeartbeatRun) : HeartbeatRun where
  node := ingest options (env records) entry.record s.node
  recorded := s.recorded ++ [(entry, report)]
  thrown := s.thrown ||
    heartbeatConflicts (ingestRecord options (env records) entry.record s.node)

theorem step_deliver {records : List TransportRecord} {entry : FeedHeartbeat} {report : Bool}
    {s : HeartbeatRun} (hentry : entry ∈ feed.entries) (hunseen : entry.record.id ∉ s.node.seen)
    (haccepts : Accepts s.node entry.record)
    (hcutoff : s.node.control.validatorCutoffs.get? options.identity = none)
    (hreport : isFeedContiguous (env records) entry.record = .ok report) :
    HeartbeatStep options feed s (deliver records entry report s) := by
  have hread : readRecord options (env records) entry.record =
      .ok (.heartbeat entry.value) := by
    rcases List.mem_pair.1 hentry with rfl | rfl <;> rfl
  exact @HeartbeatStep.deliver options feed s entry ⟨env records, entry.record⟩ report hentry rfl
    ⟨hunseen, haccepts, hread⟩ (fun _ h => absurd (hcutoff.symm.trans h) (by simp)) hreport

def restart (s : HeartbeatRun) : HeartbeatRun :=
  { s with node := restarted options s.node.control s.node.feedForks }

def start : HeartbeatRun := { node := fresh options }

/-- The heartbeats come in the order of the feed, and again after a restart. -/
def inOrder : HeartbeatRun :=
  deliver [first.record, second.record] second true (restart
    (deliver [first.record, second.record] second true (deliver [first.record] first true start)))

/-- The second heartbeat comes first, and again after a restart. -/
def outOfOrder : HeartbeatRun :=
  deliver [second.record, first.record] second true (restart
    (deliver [second.record, first.record] first true (deliver [second.record] second false start)))

theorem reaches_inOrder : ReflTransGen (HeartbeatStep options feed) start inOrder := by
  refine (((ReflTransGen.refl.tail (step_deliver ?_ ?_ ?_ ?_ ?_)).tail
    (step_deliver ?_ ?_ ?_ ?_ ?_)).tail .restart).tail (step_deliver ?_ ?_ ?_ ?_ ?_)
  all_goals decide

theorem reaches_outOfOrder : ReflTransGen (HeartbeatStep options feed) start outOfOrder := by
  refine (((ReflTransGen.refl.tail (step_deliver ?_ ?_ ?_ ?_ ?_)).tail
    (step_deliver ?_ ?_ ?_ ?_ ?_)).tail .restart).tail (step_deliver ?_ ?_ ?_ ?_ ?_)
  all_goals decide

/-- Heartbeats that come in order are settled. -/
theorem settled_inOrder :
    ReflTransGen (HeartbeatStep options feed) start inOrder ∧ inOrder.Settled feed := by
  have hrecorded : inOrder.recorded = [(first, true), (second, true), (second, true)] := rfl
  refine ⟨reaches_inOrder, (settled_iff (fun _ _ => rfl) reaches_inOrder ?_).2 ?_⟩
  · intro entry hentry
    rw [hrecorded]
    rcases List.mem_pair.1 hentry with rfl | rfl <;> simp
  · refine ⟨fun _ => true, fun _ _ => rfl, fun before entry report after heq _ => ?_⟩
    have hmem : (entry, report) ∈ inOrder.recorded := by simp [heq]
    rw [hrecorded] at hmem
    simp only [List.mem_cons, Prod.mk.injEq, List.not_mem_nil, or_false] at hmem
    rcases hmem with h | h | h <;> exact h.2

/-- Heartbeats that come out of order are not: the report of a gap stays, although the transport has all
    records by now, and is a conflict after the restart. -/
theorem not_settled_outOfOrder : ReflTransGen (HeartbeatStep options feed) start outOfOrder ∧
      (∀ entry ∈ feed.entries, entry ∈ outOfOrder.recorded.map (·.1) ∧
        ChronologNode.isFeedContiguous (env [second.record, first.record]) entry.record = .ok true) ∧
      feed.IsLast second ∧ outOfOrder.thrown = true ∧
      outOfOrder.node.control.heartbeats.get? second.key = some (second.stored false) ∧
      ¬ outOfOrder.Settled feed := by
  have hthrown : outOfOrder.thrown = true := by rfl
  refine ⟨reaches_outOfOrder, by decide +kernel, ⟨by decide, by decide⟩, hthrown, by decide +kernel,
    fun h => ?_⟩
  cases hthrown.symm.trans h.not_thrown

end TwoHeartbeats

end Chronolog
