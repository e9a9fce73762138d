import Chronolog.NodeCore.FeedForks
import Mathlib.Data.Finset.Sort
import Mathlib.Data.String.Basic

/-!
# The detection of forks

Whatever the order in which the records of a feed are observed, how often, and across restarts from
snapshots, the feed is quarantined in the end if and only if two of the records conflict (`Conflict`) —
as long as one such pair can be put on record. A quarantine notes the time of the record as a date, and
records may carry times that are no dates: observing such a record fails where it should quarantine its
feed (`quarantined_iff`).
-/

namespace Chronolog

open Procedure OrdMap List

/-! ## Snapshots -/

/-- What a registry writes. Sequences stand there as decimal texts. -/
structure FeedForkSnapshot where
  feeds : List (String × List (Int × FeedEntry))
  quarantines : List FeedForkEvidence
  discardedRecordIds : List String

namespace FeedForkRegistry

/-- The snapshot of a registry. `localeCompare` is the order of texts of the platform's locale. -/
def snapshot (localeCompare : String → String → Bool) (registry : FeedForkRegistry) :
    FeedForkSnapshot where
  feeds := (registry.feeds.entries.mergeSort fun left right => localeCompare left.1 right.1).map
    fun (feedId, records) =>
      (feedId, records.entries.mergeSort fun left right => left.1 ≤ right.1)
  quarantines := registry.quarantines.values.mergeSort fun left right =>
    localeCompare left.feedId right.feedId
  discardedRecordIds := registry.discardedRecordIds.sort (· ≤ ·)

/-- The records of a feed in a snapshot. -/
def restoreRecords : OrdMap Int FeedEntry → List (Int × FeedEntry) →
    Except String (OrdMap Int FeedEntry)
  | records, [] => .ok records
  | records, (sequence, entry) :: rest =>
    if sequence < 1 ∨ records.has sequence then .error "FEED_FORK_SNAPSHOT_INVALID"
    else restoreRecords (records.set sequence entry) rest

def restoreFeeds : OrdMap String (OrdMap Int FeedEntry) → List (String × List (Int × FeedEntry)) →
    Except String (OrdMap String (OrdMap Int FeedEntry))
  | feeds, [] => .ok feeds
  | feeds, (feedId, records) :: rest => do
    restoreFeeds (feeds.set feedId (← restoreRecords .empty records)) rest

/-- The registry of a snapshot. -/
def restore (snapshot : FeedForkSnapshot) : Except String FeedForkRegistry := do
  let feeds ← restoreFeeds .empty snapshot.feeds
  if snapshot.discardedRecordIds.any (·.length = 0) then .error "FEED_FORK_SNAPSHOT_INVALID"
  return {
    feeds
    quarantines := snapshot.quarantines.foldl KeyedMap.put .empty
    discardedRecordIds := snapshot.discardedRecordIds.toFinset }

/-- Two registries that hold the same. -/
structure Same (registry registry' : FeedForkRegistry) : Prop where
  feed : ∀ author sequence,
    (registry'.feed author).get? sequence = (registry.feed author).get? sequence
  quarantines : ∀ author, registry'.quarantines.has author = registry.quarantines.has author
  discardedRecordIds : registry'.discardedRecordIds = registry.discardedRecordIds

theorem restoreRecords_eq_ok {l : List (Int × FeedEntry)} {records : OrdMap Int FeedEntry}
    (hpositive : ∀ e ∈ l, 1 ≤ e.1) (hnodup : (l.map Prod.fst).Nodup)
    (hnew : ∀ e ∈ l, records.get? e.1 = none) :
    ∃ records', restoreRecords records l = .ok records' ∧
      records'.entries = records.entries ++ l := by
  induction l generalizing records with
  | nil => exact ⟨records, rfl, (append_nil _).symm⟩
  | cons e l ih =>
    obtain ⟨sequence, entry⟩ := e
    rw [map_cons, nodup_cons] at hnodup
    have hget := hnew (sequence, entry) mem_cons_self
    have hone := hpositive (sequence, entry) mem_cons_self
    have hcheck : ¬(sequence < 1 ∨ records.has sequence = true) := by
      rw [has, hget]
      simpa using hone
    have hnew' : ∀ e ∈ l, (records.set sequence entry).get? e.1 = none := by
      intro e he
      have hne : e.1 ≠ sequence := by
        intro heq
        exact hnodup.1 (mem_map.2 ⟨e, he, heq⟩)
      rw [get?_set_of_ne hne]
      exact hnew e (mem_cons_of_mem _ he)
    obtain ⟨records', hrestore, hentries⟩ :=
      ih (fun e he => hpositive e (mem_cons_of_mem _ he)) hnodup.2 hnew'
    refine ⟨records', by rw [restoreRecords, if_neg hcheck, hrestore], ?_⟩
    rw [hentries, entries_set_of_get?_eq_none hget, append_assoc]
    rfl

theorem restoreFeeds_eq_ok {l : List (String × OrdMap Int FeedEntry)}
    {feeds : OrdMap String (OrdMap Int FeedEntry)}
    (hpositive : ∀ e ∈ l, ∀ e' ∈ e.2.entries, 1 ≤ e'.1) (hnodup : (l.map Prod.fst).Nodup)
    (hnew : ∀ e ∈ l, feeds.get? e.1 = none) :
    ∃ feeds', restoreFeeds feeds (l.map fun (feedId, records) =>
        (feedId, records.entries.mergeSort fun left right => left.1 ≤ right.1)) = .ok feeds' ∧
      (∀ e ∈ l, ∃ records, feeds'.get? e.1 = some records ∧ records.entries.Perm e.2.entries) ∧
      ∀ feedId, feedId ∉ l.map Prod.fst → feeds'.get? feedId = feeds.get? feedId := by
  induction l generalizing feeds with
  | nil => exact ⟨feeds, rfl, forall_mem_nil _, fun _ _ => rfl⟩
  | cons e l ih =>
    obtain ⟨feedId, records⟩ := e
    rw [map_cons, nodup_cons] at hnodup
    have hperm := mergeSort_perm records.entries fun left right => left.1 ≤ right.1
    have hpositive' : ∀ e ∈ records.entries.mergeSort fun left right => left.1 ≤ right.1,
        1 ≤ e.1 := fun e he => hpositive _ mem_cons_self e (hperm.mem_iff.1 he)
    have hnodup' := (hperm.map Prod.fst).nodup_iff.2 records.nodup_keys
    obtain ⟨records', hrecords, hentries⟩ :=
      restoreRecords_eq_ok hpositive' hnodup' fun e _ => get?_empty e.1
    have hnew' : ∀ e ∈ l, (feeds.set feedId records').get? e.1 = none := by
      intro e he
      have hne : e.1 ≠ feedId := by
        intro heq
        exact hnodup.1 (mem_map.2 ⟨e, he, heq⟩)
      rw [get?_set_of_ne hne]
      exact hnew e (mem_cons_of_mem _ he)
    obtain ⟨feeds', hrestore, hmem, hother⟩ :=
      ih (fun e he => hpositive e (mem_cons_of_mem _ he)) hnodup.2 hnew'
    refine ⟨feeds', ?_, ?_, ?_⟩
    · rw [map_cons, restoreFeeds, hrecords]
      exact hrestore
    · intro e he
      obtain rfl | he := mem_cons.1 he
      · refine ⟨records', ?_, ?_⟩
        · rw [hother _ hnodup.1, get?_set_self]
        · rw [hentries]
          exact hperm
      · exact hmem e he
    · intro other hother'
      rw [map_cons, mem_cons, not_or] at hother'
      rw [hother _ hother'.2, get?_set_of_ne hother'.1]

/-- A registry that is restored from its snapshot holds the same. -/
theorem restore_snapshot (localeCompare : String → String → Bool) {registry : FeedForkRegistry}
    (hpositive : ∀ author sequence entry,
      (registry.feed author).get? sequence = some entry → 1 ≤ sequence)
    (hdiscarded : registry.discardedRecordIds = ∅) :
    ∃ registry', restore (registry.snapshot localeCompare) = .ok registry' ∧
      Same registry registry' := by
  have hperm := mergeSort_perm registry.feeds.entries
    fun left right => localeCompare left.1 right.1
  have hpositive' : ∀ e ∈ registry.feeds.entries.mergeSort
      fun left right => localeCompare left.1 right.1, ∀ e' ∈ e.2.entries, 1 ≤ e'.1 := by
    intro e he e' he'
    have hget := mem_entries_iff.1 (hperm.mem_iff.1 he)
    refine hpositive e.1 e'.1 e'.2 ?_
    rw [feed, hget]
    exact mem_entries_iff.1 he'
  obtain ⟨feeds, hrestore, hmem, hother⟩ := restoreFeeds_eq_ok hpositive'
    ((hperm.map Prod.fst).nodup_iff.2 registry.feeds.nodup_keys)
    fun e _ => get?_empty e.1
  have hregistry : restore (registry.snapshot localeCompare) = .ok {
      feeds
      quarantines := (registry.quarantines.values.mergeSort fun left right =>
        localeCompare left.feedId right.feedId).foldl KeyedMap.put .empty
      discardedRecordIds := ∅ } := by
    rw [restore, snapshot, hrestore, hdiscarded, Finset.sort_empty]
    rfl
  refine ⟨_, hregistry, fun author sequence => ?_, fun author => ?_, hdiscarded.symm⟩
  · rw [feed, feed]
    cases hget : registry.feeds.get? author with
    | some records =>
      obtain ⟨records', hrecords', hentries⟩ :=
        hmem (author, records) (hperm.mem_iff.2 (mem_entries_iff.2 hget))
      rw [hrecords']
      exact get?_of_perm hentries sequence
    | none =>
      have hnot : author ∉ (registry.feeds.entries.mergeSort
          fun left right => localeCompare left.1 right.1).map Prod.fst := by
        intro hauthor
        obtain ⟨e, he, rfl⟩ := mem_map.1 hauthor
        rw [mem_entries_iff.1 (hperm.mem_iff.1 he)] at hget
        cases hget
      rw [hother author hnot, get?_empty]
  · have hget := KeyedMap.get?_foldl_put_of_perm (mergeSort_perm registry.quarantines.values
      fun left right => localeCompare left.feedId right.feedId) author
    exact congrArg Option.isSome hget

/-! ## Conflicts -/

end FeedForkRegistry

/-- Two records that a feed cannot both have. -/
def Conflict (record record' : TransportRecord) : Prop :=
  record.sequence = record'.sequence ∧
      (record.id ≠ record'.id ∨ record.previous ≠ record'.previous) ∨
    record'.sequence = record.sequence + 1 ∧ record'.previous ≠ some record.id

/-- Two of the records conflict. -/
def HasConflict (records : Set TransportRecord) : Prop :=
  ∃ record ∈ records, ∃ record' ∈ records, Conflict record record'

theorem HasConflict.mono {records records' : Set TransportRecord} (hsub : records ⊆ records')
    (h : HasConflict records) : HasConflict records' := by
  obtain ⟨record, hrecord, record', hrecord', hconflict⟩ := h
  exact ⟨record, hsub hrecord, record', hsub hrecord', hconflict⟩

namespace FeedForkRegistry

variable {registry : FeedForkRegistry} {record : TransportRecord}

variable {acceptedId : String}

/-- The entry of a sequence that a record conflicts with. -/
theorem exists_of_conflict {entries : OrdMap Int FeedEntry}
    (h : conflict entries record = some acceptedId) :
    (∃ entry, entries.get? record.sequence = some entry ∧ entry ≠ ⟨record.id, record.previous⟩) ∨
    (∃ entry, entries.get? (record.sequence - 1) = some entry ∧ record.previous ≠ some entry.id) ∨
    ∃ entry, entries.get? (record.sequence + 1) = some entry ∧ entry.previous ≠ some record.id := by
  by_contra hnone
  push Not at hnone
  obtain ⟨hsame, hbefore, hafter⟩ := hnone
  have hconflict := conflict_eq_none_iff.2 ⟨hsame, fun _ => ⟨hbefore, hafter⟩⟩
  cases h.symm.trans hconflict

/-! ## What has been observed -/

/-- What a registry holds of the records that were observed of a feed. -/
structure Observed (author : String) (seen : Set TransportRecord) (registry : FeedForkRegistry) :
    Prop where
  positive : ∀ author sequence entry,
    (registry.feed author).get? sequence = some entry → 1 ≤ sequence
  discarded : registry.discardedRecordIds = ∅
  entry : ∀ sequence entry, (registry.feed author).get? sequence = some entry →
    ∃ record ∈ seen, record.sequence = sequence ∧ record.id = entry.id ∧
      record.previous = entry.previous
  linked : ∀ sequence entry next, (registry.feed author).get? sequence = some entry →
    (registry.feed author).get? (sequence + 1) = some next → next.previous = some entry.id
  quarantined : registry.quarantines.has author = true → HasConflict seen
  /-- A record with a date is registered, unless the feed is quarantined. -/
  timely : registry.quarantines.has author = false → ∀ record ∈ seen, record.Timely →
    (registry.feed author).get? record.sequence = some ⟨record.id, record.previous⟩

variable {author : String} {seen : Set TransportRecord}

theorem observed_empty : Observed author ∅ {} where
  positive _ _ _ h := absurd h (by simp [feed])
  discarded := rfl
  entry _ _ h := absurd h (by simp [feed])
  linked _ _ _ h := absurd h (by simp [feed])
  quarantined h := absurd h Bool.false_ne_true
  timely _ _ h := absurd h (Set.notMem_empty _)

/-- A conflict with an entry is one with a record that was observed. -/
theorem Observed.hasConflict (h : Observed author seen registry) (hauthor : record.author = author)
    (hconflict : conflict (registry.feed record.author) record = some acceptedId) :
    HasConflict (insert record seen) := by
  rw [hauthor] at hconflict
  have hself := Set.mem_insert record seen
  obtain ⟨entry, hget, hne⟩ | ⟨entry, hget, hne⟩ | ⟨entry, hget, hne⟩ :=
    exists_of_conflict hconflict
  · obtain ⟨record', hrecord', hsequence, hid, hprevious⟩ := h.entry _ _ hget
    refine ⟨record', Set.mem_insert_of_mem _ hrecord', record, hself, .inl ⟨hsequence, ?_⟩⟩
    by_contra hboth
    push Not at hboth
    refine hne ?_
    rw [← hboth.1, ← hboth.2, hid, hprevious]
  · obtain ⟨record', hrecord', hsequence, hid, -⟩ := h.entry _ _ hget
    refine ⟨record', Set.mem_insert_of_mem _ hrecord', record, hself, .inr ⟨by omega, ?_⟩⟩
    rw [hid]
    exact hne
  · obtain ⟨record', hrecord', hsequence, -, hprevious⟩ := h.entry _ _ hget
    refine ⟨record, hself, record', Set.mem_insert_of_mem _ hrecord', .inr ⟨hsequence, ?_⟩⟩
    rw [hprevious]
    exact hne

theorem one_le_of_validateRecord (h : validateRecord record = .ok ()) : 1 ≤ record.sequence := by
  by_contra hlt
  unfold validateRecord at h
  rw [if_pos (by omega)] at h
  cases h

/-- Observing one more record. -/
theorem Observed.observe (h : Observed author seen registry) (hauthor : record.author = author)
    (hvalid : validateRecord record = .ok ()) :
    Observed author (insert record seen) (finalState (observe record registry)) := by
  subst hauthor
  have hnot : record.id ∉ registry.discardedRecordIds := by simp [h.discarded]
  have hentries sequence entry (hget : (registry.feed record.author).get? sequence = some entry) :=
    (h.entry sequence entry hget).imp fun _ => And.imp_left (Set.mem_insert_of_mem record)
  cases hquarantined : registry.quarantines.has record.author with
  | true =>
    rw [observe_of_quarantined hvalid hnot hquarantined, finalState]
    refine ⟨h.positive, h.discarded, hentries, h.linked,
      fun hhas => HasConflict.mono (Set.subset_insert _ _) (h.quarantined hhas), fun hhas => ?_⟩
    rw [hquarantined] at hhas
    cases hhas
  | false =>
    cases hconflict : conflict (registry.feed record.author) record with
    | some acceptedId =>
      obtain ⟨-, next, hnext, hfeed, hdiscarded, hhas⟩ :=
        observe_of_conflict hvalid hnot hquarantined hconflict
      rw [hnext]
      refine ⟨?_, hdiscarded.trans h.discarded, ?_, ?_, fun _ => h.hasConflict rfl hconflict, ?_⟩
      · intro author
        rw [hfeed]
        exact h.positive author
      · rw [hfeed]
        exact hentries
      · rw [hfeed]
        exact h.linked
      · -- The feed is not quarantined, so the record has no date, and the others are registered.
        intro hnot record' hrecord' htimely
        rw [hfeed]
        obtain rfl | hrecord' := Set.mem_insert_iff.1 hrecord'
        · rw [hhas.2 htimely] at hnot
          cases hnot
        · exact h.timely hquarantined record' hrecord' htimely
    | none =>
      obtain ⟨_, next, hrun, -, halso⟩ :=
        observe_of_conflict_eq_none hvalid hnot hquarantined hconflict
      rw [hrun, finalState]
      have hself := halso.feed record.author record.sequence
      rw [if_pos ⟨rfl, rfl⟩] at hself
      have hother : ∀ sequence, sequence ≠ record.sequence →
          (next.feed record.author).get? sequence = (registry.feed record.author).get? sequence := by
        intro sequence hne
        rw [halso.feed, if_neg fun h => hne h.2]
      have hlinked : (∀ entry, (registry.feed record.author).get? (record.sequence - 1) = some entry →
            record.previous = some entry.id) ∧
          ∀ entry, (registry.feed record.author).get? (record.sequence + 1) = some entry →
            entry.previous = some record.id := by
        cases hget : (registry.feed record.author).get? record.sequence with
        | none => exact (conflict_eq_none_iff.1 hconflict).2 hget
        | some entry =>
          -- The record was there already.
          have hentry := halso.entry entry hget
          subst hentry
          refine ⟨fun entry hbefore => ?_, fun entry hafter => h.linked _ _ _ hget hafter⟩
          exact h.linked _ entry _ hbefore (by rw [Int.sub_add_cancel, hget])
      refine ⟨?_, by rw [halso.discardedRecordIds, h.discarded], ?_, ?_, ?_, ?_⟩
      · intro author sequence entry hget
        rw [halso.feed] at hget
        split_ifs at hget with heq
        · rw [heq.2]
          exact one_le_of_validateRecord hvalid
        · exact h.positive author sequence entry hget
      · intro sequence entry hget
        by_cases heq : sequence = record.sequence
        · rw [heq, hself] at hget
          cases hget
          exact ⟨record, Set.mem_insert _ _, heq.symm, rfl, rfl⟩
        · rw [hother sequence heq] at hget
          exact hentries sequence entry hget
      · intro sequence entry next hget hnext
        by_cases heq : sequence = record.sequence
        · rw [heq, hself] at hget
          cases hget
          rw [hother _ (by omega), heq] at hnext
          exact hlinked.2 next hnext
        · rw [hother sequence heq] at hget
          by_cases heq' : sequence + 1 = record.sequence
          · rw [heq', hself] at hnext
            cases hnext
            exact hlinked.1 entry (by rw [← heq', Int.add_sub_cancel, hget])
          · rw [hother _ heq'] at hnext
            exact h.linked _ _ _ hget hnext
      · intro hhas
        rw [halso.quarantines] at hhas
        exact HasConflict.mono (Set.subset_insert _ _) (h.quarantined hhas)
      · intro _ record' hrecord' htimely
        obtain rfl | hrecord' := Set.mem_insert_iff.1 hrecord'
        · exact hself
        · have hget := h.timely hquarantined record' hrecord' htimely
          by_cases heq : record'.sequence = record.sequence
          · rw [heq] at hget ⊢
            rw [hself, halso.entry _ hget]
          · rw [hother _ heq]
            exact hget

/-- Two records with dates that conflict quarantine their feed. -/
theorem Observed.quarantined_of_timely (h : Observed author seen registry)
    (hconflict : HasConflict {record | record ∈ seen ∧ record.Timely}) :
    registry.quarantines.has author = true := by
  by_contra hnot
  have hget := h.timely (Bool.eq_false_of_not_eq_true hnot)
  obtain ⟨record, ⟨hrecord, htimely⟩, record', ⟨hrecord', htimely'⟩, hconflict⟩ := hconflict
  have hentry := hget record hrecord htimely
  have hentry' := hget record' hrecord' htimely'
  obtain ⟨hsequence, hne⟩ | ⟨hsequence, hne⟩ := hconflict
  · rw [hsequence, hentry'] at hentry
    have heq := FeedEntry.mk.inj (Option.some.inj hentry)
    exact hne.elim (fun hid => hid heq.1.symm) fun hprevious => hprevious heq.2.symm
  · rw [hsequence] at hentry'
    exact hne (h.linked _ _ _ hentry hentry')

theorem Observed.of_same {registry' : FeedForkRegistry} (h : Observed author seen registry)
    (hsame : Same registry registry') : Observed author seen registry' where
  positive author sequence entry hget := h.positive author sequence entry (hsame.feed _ _ ▸ hget)
  discarded := hsame.discardedRecordIds.trans h.discarded
  entry sequence entry hget := h.entry sequence entry (hsame.feed _ _ ▸ hget)
  linked sequence entry next hget hnext :=
    h.linked sequence entry next (hsame.feed _ _ ▸ hget) (hsame.feed _ _ ▸ hnext)
  quarantined hhas := h.quarantined (hsame.quarantines author ▸ hhas)
  timely hhas record hrecord htimely := by
    rw [hsame.feed]
    exact h.timely (hsame.quarantines author ▸ hhas) record hrecord htimely

/-! ## Runs -/

/-- What happens to a registry: it observes a record, or it is restored from its snapshot. -/
inductive Observation
  | observe (record : TransportRecord)
  | restart

/-- The records that are observed. -/
def observedRecords (steps : List Observation) : List TransportRecord :=
  steps.filterMap fun step =>
    match step with
    | .observe record => some record
    | .restart => none

/-- The registry after some observations. One that fails may have changed it. -/
def observeAll (localeCompare : String → String → Bool) :
    List Observation → FeedForkRegistry → Except String FeedForkRegistry
  | [], registry => .ok registry
  | .observe record :: steps, registry =>
    observeAll localeCompare steps (finalState (observe record registry))
  | .restart :: steps, registry => do
    observeAll localeCompare steps (← restore (registry.snapshot localeCompare))

variable (localeCompare : String → String → Bool)

theorem Observed.observeAll (h : Observed author seen registry) {steps : List Observation}
    (hsteps : ∀ record ∈ observedRecords steps,
      record.author = author ∧ validateRecord record = .ok ()) :
    ∃ registry', observeAll localeCompare steps registry = .ok registry' ∧
      Observed author (seen ∪ {record | record ∈ observedRecords steps}) registry' := by
  induction steps generalizing registry seen with
  | nil =>
    refine ⟨registry, rfl, ?_⟩
    have hseen : seen ∪ {record | record ∈ observedRecords []} = seen := by
      simp [observedRecords]
    rw [hseen]
    exact h
  | cons step steps ih =>
    cases step with
    | observe record =>
      have hrecord := hsteps record mem_cons_self
      obtain ⟨registry', hrun, hobserved⟩ := ih (h.observe hrecord.1 hrecord.2)
        fun record' hrecord' => hsteps record' (mem_cons_of_mem _ hrecord')
      refine ⟨registry', hrun, ?_⟩
      have hseen : insert record seen ∪ {record | record ∈ observedRecords steps} =
          seen ∪ {record' | record' ∈ observedRecords (.observe record :: steps)} := by
        ext record'
        simp only [observedRecords, Set.mem_union, Set.mem_insert_iff, Set.mem_ofPred_eq,
          filterMap_cons, mem_cons]
        tauto
      rw [← hseen]
      exact hobserved
    | restart =>
      obtain ⟨restored, hrestore, hsame⟩ := restore_snapshot localeCompare h.positive h.discarded
      obtain ⟨registry', hrun, hobserved⟩ := ih (h.of_same hsame) hsteps
      refine ⟨registry', ?_, hobserved⟩
      rw [observeAll, hrestore]
      exact hrun

theorem observeAll_append (steps steps' : List Observation) (registry : FeedForkRegistry) :
    observeAll localeCompare (steps ++ steps') registry =
      observeAll localeCompare steps registry >>= observeAll localeCompare steps' := by
  induction steps generalizing registry with
  | nil => rfl
  | cons step steps ih =>
    cases step with
    | observe record => exact ih _
    | restart =>
      rw [cons_append, observeAll, observeAll]
      cases restore (registry.snapshot localeCompare) with
      | error message => rfl
      | ok restored => exact ih restored

/-- A record without a date quarantines no feed. -/
theorem Observed.has_observe (h : Observed author seen registry) (hauthor : record.author = author)
    (hvalid : validateRecord record = .ok ()) (htimely : ¬record.Timely)
    (hhas : registry.quarantines.has author = false) :
    (finalState (FeedForkRegistry.observe record registry)).quarantines.has author = false := by
  subst hauthor
  have hnot : record.id ∉ registry.discardedRecordIds := by simp [h.discarded]
  cases hconflict : conflict (registry.feed record.author) record with
  | some acceptedId =>
    obtain ⟨-, next, hnext, -, -, hquarantined⟩ := observe_of_conflict hvalid hnot hhas hconflict
    rw [hnext]
    exact Bool.eq_false_of_not_eq_true fun htrue => htimely (hquarantined.1 htrue)
  | none =>
    obtain ⟨_, _, hrun, -, halso⟩ := observe_of_conflict_eq_none hvalid hnot hhas hconflict
    rw [hrun, finalState, halso.quarantines]
    exact hhas

theorem Observed.has_observeAll (h : Observed author seen registry) {l : List TransportRecord}
    (hl : ∀ record ∈ l, (record.author = author ∧ validateRecord record = .ok ()) ∧ ¬record.Timely)
    (hhas : registry.quarantines.has author = false) :
    ∃ registry', FeedForkRegistry.observeAll localeCompare (l.map .observe) registry =
      .ok registry' ∧ registry'.quarantines.has author = false := by
  induction l generalizing registry seen with
  | nil => exact ⟨registry, rfl, hhas⟩
  | cons record l ih =>
    obtain ⟨⟨hauthor, hvalid⟩, htimely⟩ := hl record mem_cons_self
    exact ih (h.observe hauthor hvalid)
      (fun record' hrecord' => hl record' (mem_cons_of_mem _ hrecord'))
      (h.has_observe hauthor hvalid htimely hhas)

theorem observedRecords_map (l : List TransportRecord) : observedRecords (l.map .observe) = l := by
  rw [observedRecords, filterMap_map]
  exact filterMap_some

/-- The records of a feed quarantine it in the end if and only if two of them conflict, in whatever
    order and however often they are observed and across restarts — exactly if two records with dates
    conflict whenever two records do. -/
theorem quarantined_iff {author : String} {records : Multiset TransportRecord}
    (hrecords : ∀ record ∈ records, record.author = author ∧ validateRecord record = .ok ()) :
    (∀ steps, (∀ record, record ∈ observedRecords steps ↔ record ∈ records) →
      ∃ registry, observeAll localeCompare steps {} = .ok registry ∧
        (registry.quarantines.has author = true ↔ HasConflict {record | record ∈ records})) ↔
    (HasConflict {record | record ∈ records} →
      HasConflict {record | record ∈ records ∧ record.Timely}) := by
  classical
  constructor
  · intro hall hconflict
    by_contra hnone
    -- The records with dates come first and fit together; the others quarantine nothing.
    let timely := records.toList.filter (·.Timely)
    let untimely := records.toList.filter (¬·.Timely)
    have hmem : ∀ record, record ∈ observedRecords (timely.map .observe ++ untimely.map .observe) ↔
        record ∈ records := by
      intro record
      rw [observedRecords, filterMap_append, ← observedRecords, ← observedRecords,
        observedRecords_map, observedRecords_map, mem_append, mem_filter,
        mem_filter, Multiset.mem_toList, decide_eq_true_eq, decide_eq_true_eq]
      tauto
    obtain ⟨registry, hrun, hiff⟩ := hall _ hmem
    have htimely : ∀ record ∈ timely, record ∈ records ∧ record.Timely := by
      intro record hrecord
      simpa [timely] using hrecord
    have hvalid : ∀ record ∈ observedRecords (timely.map .observe),
        record.author = author ∧ validateRecord record = .ok () := by
      intro record hrecord
      rw [observedRecords_map] at hrecord
      exact hrecords record (htimely record hrecord).1
    obtain ⟨first, hfirst, hobserved⟩ := observed_empty.observeAll localeCompare hvalid
    have hfree : first.quarantines.has author = false := by
      refine Bool.eq_false_of_not_eq_true fun hhas => hnone ?_
      refine HasConflict.mono (fun record hrecord => ?_) (hobserved.quarantined hhas)
      rw [observedRecords_map, Set.empty_union] at hrecord
      exact htimely record hrecord
    have huntimely : ∀ record ∈ untimely,
        (record.author = author ∧ validateRecord record = .ok ()) ∧ ¬record.Timely := by
      intro record hrecord
      have hrecord : record ∈ records ∧ ¬record.Timely := by
        simpa [untimely] using hrecord
      exact ⟨hrecords record hrecord.1, hrecord.2⟩
    obtain ⟨last, hlast, hhas⟩ := hobserved.has_observeAll localeCompare huntimely hfree
    rw [observeAll_append, hfirst] at hrun
    cases hrun.symm.trans hlast
    rw [hiff.2 hconflict] at hhas
    cases hhas
  · intro hdates steps hsteps
    obtain ⟨registry, hrun, hobserved⟩ := observed_empty.observeAll localeCompare
      fun record hrecord => hrecords record ((hsteps record).1 hrecord)
    have hseen : (∅ : Set TransportRecord) ∪ {record | record ∈ observedRecords steps} =
        {record | record ∈ records} := by
      ext record
      simpa using hsteps record
    rw [hseen] at hobserved
    exact ⟨registry, hrun, hobserved.quarantined,
      fun hconflict => hobserved.quarantined_of_timely (hdates hconflict)⟩

namespace Undated

/-- The first record of a feed, received at a time. -/
def first (id : String) (time : Int) : TransportRecord := ⟨id, "feed", 1, none, some time, []⟩

/-- Two first records of a feed. -/
def records (time : Int) : Multiset TransportRecord := {first "a" 0, first "b" time}

def steps (time : Int) : List Observation := [.observe (first "a" 0), .observe (first "b" time)]

theorem mem_observedRecords (time : Int) (other : TransportRecord) :
    other ∈ observedRecords (steps time) ↔ other ∈ records time := by
  simp [steps, observedRecords, records]

theorem valid_records (time : Int) : ∀ other ∈ records time,
    other.author = "feed" ∧ validateRecord other = .ok () := by
  intro other hother
  obtain rfl | rfl : other = first "a" 0 ∨ other = first "b" time := by
    simpa [records] using hother
  · exact ⟨rfl, rfl⟩
  · exact ⟨rfl, by simp [validateRecord, first]⟩

theorem conflict_first (time : Int) : Conflict (first "a" 0) (first "b" time) :=
  .inl ⟨rfl, .inl (by simp [first])⟩

/-- The second record has a time past all dates, and the feed is not quarantined. -/
theorem not_quarantined : ∃ registry,
    observeAll (fun left right => left ≤ right) (steps 8640000000000001) {} = .ok registry ∧
    (∀ other, other ∈ observedRecords (steps 8640000000000001) ↔ other ∈ records 8640000000000001) ∧
    HasConflict {other | other ∈ records 8640000000000001} ∧
    registry.quarantines.has "feed" = false := by
  refine ⟨_, rfl, mem_observedRecords _, ?_, by rfl⟩
  exact ⟨first "a" 0, by simp [records], first "b" 8640000000000001, by simp [records],
    conflict_first _⟩

/-- The second record has a date, and the feed is quarantined. -/
theorem quarantined : ∃ registry,
    observeAll (fun left right => left ≤ right) (steps 1) {} = .ok registry ∧
      (registry.quarantines.has "feed" = true ↔ HasConflict {other | other ∈ records 1}) := by
  refine (quarantined_iff (fun left right => left ≤ right) (valid_records 1)).2 (fun _ => ?_)
    (steps 1) (mem_observedRecords 1)
  refine ⟨first "a" 0, ⟨by simp [records], ?_⟩, first "b" 1, ⟨by simp [records], ?_⟩,
    conflict_first 1⟩
  · exact ⟨by decide, by decide⟩
  · exact ⟨by decide, by decide⟩

end Undated

end FeedForkRegistry

end Chronolog
