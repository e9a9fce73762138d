import Chronolog.Protocol.Bytes
import Chronolog.Lib.OrdMap
import Chronolog.Lib.Procedure
import Mathlib.Data.Finset.Insert

/-!
# Feed forks

The registry of the records seen of every feed. A record that does not fit the
ones seen before, one of its sequence or the ones before and after, quarantines
its feed. Records of feeds without forks are all accepted (`observe_ok`).
-/

namespace Chronolog

/-- A record of a feed, as the transport delivers it. -/
structure TransportRecord where
  id : String
  author : String
  sequence : Int
  previous : Option String
  /-- `none` if the number is not finite. -/
  receivedAtMs : Option Int
  payload : Bytes
  deriving DecidableEq

/-- The record without the time of its receipt, which is the receiver's own. -/
def TransportRecord.unstamped (record : TransportRecord) : TransportRecord :=
  { record with receivedAtMs := none }

/-- Why a feed is quarantined. -/
structure FeedForkEvidence where
  feedId : String
  sequence : Int
  acceptedId : String
  conflictingId : String
  /-- The time of detection, which the source renders as an ISO text. -/
  detectedAtMs : Int
  deriving DecidableEq

/-- What is kept of a record of a feed. -/
structure FeedEntry where
  id : String
  previous : Option String
  deriving DecidableEq

/-- The registry of the records of all feeds. -/
structure FeedForkRegistry where
  feeds : OrdMap String (OrdMap Int FeedEntry) := .empty
  quarantines : KeyedMap FeedForkEvidence.feedId := .empty
  discardedRecordIds : Finset String := ∅
  deriving DecidableEq

/-- The verdicts on a record. -/
inductive Continuity
  | accepted
  | duplicate
  | discarded
  | quarantined
  deriving DecidableEq

/-- Checks that a record is well formed. -/
def validateRecord (record : TransportRecord) : Except String Unit := do
  if record.author.length = 0 ∨ record.id.length = 0 ∨ record.sequence < 1 ∨
      record.receivedAtMs.isNone then
    .error "FEED_RECORD_INVALID"
  if record.sequence = 1 ∧ record.previous.isSome then
    .error "FEED_RECORD_GENESIS_PREVIOUS_INVALID"
  if 1 < record.sequence ∧ record.previous.isNone then
    .error "FEED_RECORD_PREVIOUS_MISSING"

namespace FeedForkRegistry

/-- The entries of a feed. -/
def feed (registry : FeedForkRegistry) (author : String) : OrdMap Int FeedEntry :=
  (registry.feeds.get? author).getD .empty

/-- The entry a record conflicts with: one of its sequence that differs, the one before it if it is
    not the record's previous one, the one after it if the record is not its previous one. -/
def conflict (feed : OrdMap Int FeedEntry) (record : TransportRecord) : Option String :=
  match feed.get? record.sequence with
  | some existing =>
    if existing.id = record.id ∧ existing.previous = record.previous then none
    else some existing.id
  | none =>
    match feed.get? (record.sequence - 1) with
    | some predecessor =>
      if record.previous ≠ some predecessor.id then some predecessor.id
      else successorConflict
    | none => successorConflict
where
  successorConflict : Option String :=
    match feed.get? (record.sequence + 1) with
    | some successor => if successor.previous ≠ some record.id then some successor.id else none
    | none => none

/-- Quarantines the feed of a record. The time of the record has to be one that
    an ISO text can express. -/
def quarantine (record : TransportRecord) (acceptedId : String) :
    EStateM String FeedForkRegistry Unit := do
  let time := record.receivedAtMs.getD 0
  if time < -8640000000000000 ∨ 8640000000000000 < time then throw "Invalid time value"
  let evidence : FeedForkEvidence :=
    ⟨record.author, record.sequence, acceptedId, record.id, time⟩
  modify fun registry => { registry with quarantines := registry.quarantines.put evidence }

/-- Registers a record. -/
def observe (record : TransportRecord) : EStateM String FeedForkRegistry Continuity := do
  match validateRecord record with
  | .error message => throw message
  | .ok () =>
    let registry ← get
    if record.id ∈ registry.discardedRecordIds then return .discarded
    if registry.quarantines.has record.author then return .quarantined
    let feed := registry.feed record.author
    set { registry with feeds := registry.feeds.set record.author feed }
    match conflict feed record with
    | some acceptedId =>
      quarantine record acceptedId
      return .quarantined
    | none =>
      if (feed.get? record.sequence).isSome then return .duplicate
      let extended := feed.set record.sequence ⟨record.id, record.previous⟩
      set { registry with feeds := registry.feeds.set record.author extended }
      return .accepted

end FeedForkRegistry

/-! ## Feeds without forks -/

/-- The records fit together: those of one sequence of a feed agree, and each
    names the one before it. -/
structure ForkFree (records : Set TransportRecord) : Prop where
  agree : ∀ record ∈ records, ∀ record' ∈ records, record.author = record'.author →
    record.sequence = record'.sequence →
      record.id = record'.id ∧ record.previous = record'.previous
  previous : ∀ record ∈ records, ∀ next ∈ records, record.author = next.author →
    next.sequence = record.sequence + 1 → next.previous = some record.id

/-- The time of the record is one that a date can express. -/
def TransportRecord.Timely (record : TransportRecord) : Prop :=
  -8640000000000000 ≤ record.receivedAtMs.getD 0 ∧ record.receivedAtMs.getD 0 ≤ 8640000000000000

namespace FeedForkRegistry

open Procedure

/-- The registry has registered some of the records, and nothing else. -/
structure Registers (records : Set TransportRecord) (registry : FeedForkRegistry) : Prop where
  entry : ∀ author sequence entry, (registry.feed author).get? sequence = some entry →
    ∃ record ∈ records, record.author = author ∧ record.sequence = sequence ∧
      record.id = entry.id ∧ record.previous = entry.previous
  quarantines : ∀ author, registry.quarantines.has author = false
  discardedRecordIds : registry.discardedRecordIds = ∅

variable {records : Set TransportRecord} {registry : FeedForkRegistry} {record : TransportRecord}

theorem feed_set (author author' : String) (entries : OrdMap Int FeedEntry) :
    feed { registry with feeds := registry.feeds.set author entries } author' =
      if author' = author then entries else registry.feed author' := by
  rw [feed, OrdMap.get?_set]
  split_ifs
  · rfl
  · rfl

theorem feed_set_self (author author' : String) :
    feed { registry with feeds := registry.feeds.set author (registry.feed author) } author' =
      registry.feed author' := by
  rw [feed_set]
  split_ifs with heq
  · rw [heq]
  · rfl

/-- A record conflicts with nothing if it fits the entries around it, or is there already. -/
theorem conflict_eq_none_iff {entries : OrdMap Int FeedEntry} : conflict entries record = none ↔
      (∀ entry, entries.get? record.sequence = some entry → entry = ⟨record.id, record.previous⟩) ∧
      (entries.get? record.sequence = none →
        (∀ entry, entries.get? (record.sequence - 1) = some entry →
          record.previous = some entry.id) ∧
        ∀ entry, entries.get? (record.sequence + 1) = some entry →
          entry.previous = some record.id) := by
  unfold conflict conflict.successorConflict
  cases entries.get? record.sequence with
  | some existing =>
    obtain ⟨id, previous⟩ := existing
    simp
  | none =>
    cases entries.get? (record.sequence - 1) <;> cases entries.get? (record.sequence + 1) <;> simp
    split_ifs <;> simp [*]

theorem conflict_eq_none (hfree : ForkFree records) (h : registry.Registers records)
    (hrecord : record ∈ records) : conflict (registry.feed record.author) record = none := by
  refine conflict_eq_none_iff.2 ⟨fun entry hget => ?_, fun _ => ⟨fun entry hget => ?_,
    fun entry hget => ?_⟩⟩
  all_goals obtain ⟨record', hrecord', hauthor, hsequence, hid, hprevious⟩ := h.entry _ _ _ hget
  · obtain ⟨hid', hprevious'⟩ := hfree.agree _ hrecord' _ hrecord hauthor hsequence
    rw [← hid', ← hprevious', hid, hprevious]
  · rw [← hid]
    exact hfree.previous record' hrecord' record hrecord hauthor (by omega)
  · rw [← hprevious]
    exact hfree.previous record hrecord record' hrecord' hauthor.symm hsequence

/-- One registry has a record that the other may lack. -/
structure Also (record : TransportRecord) (registry' registry : FeedForkRegistry) : Prop where
  feed : ∀ author sequence, (registry'.feed author).get? sequence =
    if author = record.author ∧ sequence = record.sequence then some ⟨record.id, record.previous⟩
    else (registry.feed author).get? sequence
  entry : ∀ entry, (registry.feed record.author).get? record.sequence = some entry →
    entry = ⟨record.id, record.previous⟩
  quarantines : ∀ author, registry'.quarantines.has author = registry.quarantines.has author
  discardedRecordIds : registry'.discardedRecordIds = registry.discardedRecordIds

/-! ### Observations -/

/-- A record that is not well formed is not registered. -/
theorem observe_of_invalid {message : String} (hinvalid : validateRecord record = .error message) :
    observe record registry = .error message registry := by
  simp only [observe, hinvalid]
  rfl

section

variable (hvalid : validateRecord record = .ok ())
  (hdiscarded : record.id ∉ registry.discardedRecordIds)
include hvalid hdiscarded

theorem observe_of_quarantined (hquarantined : registry.quarantines.has record.author = true) :
    observe record registry = .ok .quarantined registry := by
  simp only [observe, hvalid]
  rw [bind_get_run, if_neg hdiscarded, if_pos hquarantined]
  rfl

variable (hquarantined : registry.quarantines.has record.author = false)
include hquarantined

/-- A record with a conflict quarantines its feed if its time is a date. -/
theorem observe_of_conflict {acceptedId : String}
    (hconflict : conflict (registry.feed record.author) record = some acceptedId) :
    (∀ continuity next, observe record registry = .ok continuity next → continuity = .quarantined) ∧
    ∃ next, finalState (observe record registry) = next ∧
      (∀ author, next.feed author = registry.feed author) ∧
      next.discardedRecordIds = registry.discardedRecordIds ∧
      (next.quarantines.has record.author = true ↔ record.Timely) := by
  simp only [observe, hvalid]
  rw [bind_get_run, if_neg hdiscarded, if_neg (ne_true_of_eq_false hquarantined), hconflict]
  simp only [quarantine]
  split_ifs with htime
  · refine ⟨by simp, _, rfl, feed_set_self _, rfl,
      iff_of_false (ne_true_of_eq_false hquarantined) ?_⟩
    rintro ⟨hlow, hhigh⟩
    omega
  · refine ⟨fun _ _ h => (EStateM.Result.ok.inj h).1.symm, _, rfl, feed_set_self _, rfl,
      iff_of_true ?_ ?_⟩
    · exact OrdMap.has_iff.2 ⟨_, KeyedMap.get?_put_self _ _⟩
    · unfold TransportRecord.Timely
      omega

/-- A record without a conflict is registered. -/
theorem observe_of_conflict_eq_none
    (hconflict : conflict (registry.feed record.author) record = none) :
    ∃ continuity next, observe record registry = .ok continuity next ∧
      (continuity = .accepted ∨ continuity = .duplicate) ∧ Also record next registry := by
  have hentry := (conflict_eq_none_iff.1 hconflict).1
  simp only [observe, hvalid]
  rw [bind_get_run, if_neg hdiscarded, if_neg (ne_true_of_eq_false hquarantined), hconflict]
  split_ifs with hsome
  · refine ⟨_, _, rfl, .inr rfl, fun author sequence => ?_, hentry, fun _ => rfl, rfl⟩
    rw [feed_set_self]
    split_ifs with heq
    · obtain ⟨entry, hget⟩ := Option.isSome_iff_exists.1 hsome
      rw [heq.1, heq.2, hget, hentry entry hget]
    · rfl
  · refine ⟨_, _, rfl, .inl rfl, fun author sequence => ?_, hentry, fun _ => rfl, rfl⟩
    rw [feed_set]
    split_ifs with h₁ h₂ h₂
    · rw [h₂.2, OrdMap.get?_set_self]
    · rw [OrdMap.get?_set_of_ne fun hseq => h₂ ⟨h₁, hseq⟩, h₁]
    · exact absurd h₂.1 h₁
    · rfl

end

/-- A record is registered, or it is not accepted and changes no feed. -/
theorem observe_cases (record : TransportRecord) (registry : FeedForkRegistry) :
    (∃ continuity next, observe record registry = .ok continuity next ∧
      (continuity = .accepted ∨ continuity = .duplicate) ∧ Also record next registry) ∨
    (∀ continuity next, observe record registry = .ok continuity next →
      ¬ (continuity = .accepted ∨ continuity = .duplicate)) ∧
    ∀ author, (finalState (observe record registry)).feed author = registry.feed author := by
  cases hvalid : validateRecord record with
  | error message =>
    rw [observe_of_invalid hvalid]
    exact .inr ⟨by simp, fun _ => rfl⟩
  | ok u =>
    by_cases hdiscarded : record.id ∈ registry.discardedRecordIds
    · have hrun : observe record registry = .ok .discarded registry := by
        simp only [observe, hvalid]
        rw [bind_get_run, if_pos hdiscarded]
        rfl
      rw [hrun]
      exact .inr ⟨by simp, fun _ => rfl⟩
    cases hquarantined : registry.quarantines.has record.author with
    | true =>
      rw [observe_of_quarantined hvalid hdiscarded hquarantined]
      exact .inr ⟨by simp, fun _ => rfl⟩
    | false =>
      cases hconflict : conflict (registry.feed record.author) record with
      | none => exact .inl (observe_of_conflict_eq_none hvalid hdiscarded hquarantined hconflict)
      | some acceptedId =>
        obtain ⟨hnot, _, rfl, hfeed, -⟩ :=
          observe_of_conflict hvalid hdiscarded hquarantined hconflict
        exact .inr ⟨fun _ _ hrun => by simp [hnot _ _ hrun], hfeed⟩

/-- A record that is accepted is registered. -/
theorem also_of_observe {continuity : Continuity} {next : FeedForkRegistry}
    (hobserve : observe record registry = .ok continuity next)
    (haccepts : continuity = .accepted ∨ continuity = .duplicate) : Also record next registry := by
  obtain ⟨_, _, hobserve', -, halso⟩ | ⟨hnot, -⟩ := observe_cases record registry
  · obtain ⟨-, rfl⟩ := EStateM.Result.ok.inj (hobserve.symm.trans hobserve')
    exact halso
  · exact absurd haccepts (hnot _ _ hobserve)

/-- Without forks a record is registered if it is well formed. -/
theorem observe_ok (hfree : ForkFree records) (h : registry.Registers records)
    (hrecord : record ∈ records) (hvalid : validateRecord record = .ok ()) :
    ∃ continuity registry', observe record registry = .ok continuity registry' ∧
      (continuity = .accepted ∨ continuity = .duplicate) ∧ registry'.Registers records := by
  obtain ⟨continuity, next, hobserve, haccepts, halso⟩ := observe_of_conflict_eq_none hvalid
    (by simp [h.discardedRecordIds]) (h.quarantines _) (conflict_eq_none hfree h hrecord)
  refine ⟨continuity, next, hobserve, haccepts, fun author sequence entry hget => ?_,
    fun author => (halso.quarantines author).trans (h.quarantines author),
    halso.discardedRecordIds.trans h.discardedRecordIds⟩
  rw [halso.feed] at hget
  split_ifs at hget with heq
  · cases hget
    exact ⟨record, hrecord, heq.1.symm, heq.2.symm, rfl, rfl⟩
  · exact h.entry _ _ _ hget

/-- What is registered stays. -/
theorem get?_observe {author : String} {sequence : Int} {entry : FeedEntry}
    (h : (registry.feed author).get? sequence = some entry) :
    ((finalState (observe record registry)).feed author).get? sequence = some entry := by
  obtain ⟨_, _, hobserve, -, halso⟩ | ⟨-, hfeed⟩ := observe_cases record registry
  · rw [hobserve, finalState, halso.feed]
    split_ifs with heq
    · obtain ⟨rfl, rfl⟩ := heq
      rw [halso.entry entry h]
    · exact h
  · rw [hfeed]
    exact h

end FeedForkRegistry

end Chronolog
