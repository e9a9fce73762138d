import Chronolog.NodeCore.GovernanceChain
import Mathlib.Data.Int.ConditionallyCompleteOrder

/-!
# Invalid records in the log

The control plane stops at the first record that it refuses, be it from a feed
that has no say in the matter. What it ends with is what the valid records alone
would lead to if, and only if, no valid record that is new comes after an invalid
one (`consumeAll_state_eq_iff`). A stranger's record in front of a revision keeps
the revision from being applied (`StrangeFeed.snapshot_ne`).
-/

namespace Chronolog

open Procedure GovernanceControlPlane

/-! ## The turn of a record -/

section

variable (options : GovernanceControlPlaneOptions)

/-- The options with a listener that does not fail. -/
def GovernanceControlPlaneOptions.quiet :
    GovernanceControlPlaneOptions :=
  { options with onHistoryReopened := fun _ _ _ => .ok () }

/-- What `#ingest` returns of a record at its turn: nothing if the record is invalid, else
    whether it is a new one, to be applied. What the listener makes of it does not count. -/
def GovernanceControlPlane.verdict (record : TransportRecord) (state : GovernanceState) : Option Bool :=
  returned (ingest options.quiet record state)

/-- Is the record valid at its turn? -/
def GovernanceControlPlane.accepts (record : TransportRecord) (state : GovernanceState) : Bool :=
  (verdict options record state).isSome

/-- Is the record valid at its turn, and is it to be applied? -/
def GovernanceControlPlane.applies (record : TransportRecord) (state : GovernanceState) : Bool :=
  verdict options record state = some true

end

/-- How far a control plane has come: to a revision, and with records that it has applied. -/
def GovernanceState.progress (state : GovernanceState) : ℤ × Finset String :=
  (state.snapshot.revision, state.seen)

section Turn

variable {options : GovernanceControlPlaneOptions} {record : TransportRecord}
  {state state' : GovernanceState}

/-- What becomes of a record at its turn. -/
inductive Turn (options : GovernanceControlPlaneOptions) (record : TransportRecord)
    (state : GovernanceState) : Prop
  | refused (hverdict : verdict options record state = none) (message : String)
      (hingest : ingest options record state = .error message state)
  | ignored (hverdict : verdict options record state = some false)
      (hingest : ingest options record state = .ok false state)
  | applied (hverdict : verdict options record state = some true)
      (hprogress : state.progress < (finalState (ingest options record state)).progress)

theorem turn (options : GovernanceControlPlaneOptions) (record : TransportRecord)
    (state : GovernanceState) : Turn options record state := by
  have hspec := readRecord_spec options record state
  have hingest := ingest_eq options record state
  -- Records are read alike whatever the listener does.
  have hquiet := ingest_eq options.quiet record state
  rw [show readRecord options.quiet record state = readRecord options record state from rfl] at hquiet
  cases hread : readRecord options record state with
  | ignored =>
    simp only [hread] at hingest hquiet
    exact .ignored (by rw [verdict, hquiet]; rfl) hingest
  | refused message =>
    simp only [hread] at hingest hquiet
    exact .refused (by rw [verdict, hquiet]; rfl) message hingest
  | change change =>
    simp only [hread, applyChange_eq] at hingest hquiet
    cases happly : change.apply options.capabilityCodec state.snapshot with
    | error e =>
      have happly' : change.apply options.quiet.capabilityCodec state.snapshot = .error e := happly
      rw [happly] at hingest
      rw [happly'] at hquiet
      exact .refused (by rw [verdict, hquiet]; rfl) _ hingest
    | ok snapshot =>
      have happly' : change.apply options.quiet.capabilityCodec state.snapshot = .ok snapshot := happly
      rw [happly] at hingest
      rw [happly'] at hquiet
      refine .applied ?_ ?_
      · rw [verdict, hquiet]
        cases change with
        | revision signed => rfl
        | recovery record => simp only [reopenHistory]; split_ifs <;> rfl
      · -- The revision is a later one, even if the listener fails.
        have hrevision := (MembershipChange.place_of_apply happly).2
        rw [hingest]
        dsimp only
        cases reopenHistory options change snapshot with
        | ok => exact Prod.mk_lt_mk.2 (.inl ⟨hrevision, Finset.subset_insert _ _⟩)
        | error message => exact Prod.mk_lt_mk.2 (.inl ⟨hrevision, le_rfl⟩)
  | epoch signed historical =>
    simp only [hread] at hspec hingest hquiet
    rw [show ingestEpoch options.quiet signed historical state =
      ingestEpoch options signed historical state from rfl] at hquiet
    have hsame := @sameLog_ingestEpoch options state signed historical
    cases hrun : ingestEpoch options signed historical state with
    | ok u s =>
      rw [hrun] at hingest hquiet hsame
      refine .applied (by rw [verdict, hquiet]; rfl) ?_
      rw [hingest]
      refine Prod.mk_lt_mk.2 (.inr ⟨(congrArg (·.revision) hsame.snapshot).ge, ?_⟩)
      rw [← hsame.seen] at hspec ⊢
      exact Finset.ssubset_insert hspec.1
    | error message s =>
      have hstate : s = state := by
        rw [ingestEpoch_eq] at hrun
        cases hcheck : checkEpoch options signed historical state with
        | error message' =>
          rw [hcheck] at hrun
          cases hrun
          rfl
        | ok digest =>
          rw [hcheck] at hrun
          cases hrun
      rw [hrun, hstate] at hingest
      rw [hrun] at hquiet
      exact .refused (by rw [verdict, hquiet]; rfl) message hingest

end Turn

/-! ## Whole logs -/

namespace GovernanceConsumer

variable (options : GovernanceControlPlaneOptions)

/-- The control plane consumes records: those of the history, then those of the subscription. -/
def consumeAll (records : List TransportRecord) (consumer : GovernanceConsumer) :
    GovernanceConsumer :=
  records.foldl (consume options) consumer

/-- The control plane is handed the record only if it is valid. -/
def consumeValid (consumer : GovernanceConsumer) (record : TransportRecord) : GovernanceConsumer :=
  if accepts options record consumer.state then
    consumer.consume options record
  else consumer

/-- The control plane is handed the records that are valid at their turn. -/
def consumeAllValid (records : List TransportRecord) (consumer : GovernanceConsumer) :
    GovernanceConsumer :=
  records.foldl (consumeValid options) consumer

/-- The property holds of each record and those after it at the turn of the record, if the valid
    ones are handed to the control plane. -/
def AtEachTurn (P : GovernanceConsumer → TransportRecord → List TransportRecord → Prop)
    (consumer : GovernanceConsumer) (records : List TransportRecord) : Prop :=
  ∀ before record after, records = before ++ record :: after →
    P (consumer.consumeAllValid options before) record after

/-- No record is applied at its turn. -/
def NoneApplied : GovernanceConsumer → List TransportRecord → Prop :=
  AtEachTurn options fun consumer record _ =>
    consumer.consuming → applies options record consumer.state = false

/-- After a record that is invalid at its turn no record is valid at its turn and new. -/
def NoneAfterInvalid : GovernanceConsumer → List TransportRecord → Prop :=
  AtEachTurn options fun consumer invalid after =>
    accepts options invalid consumer.state = false → NoneApplied options consumer after

end GovernanceConsumer

section Consume

open GovernanceConsumer

variable {options : GovernanceControlPlaneOptions} {record : TransportRecord}
  {records : List TransportRecord} {consumer : GovernanceConsumer}

theorem consume_of_not_consuming (h : consumer.consuming = false) (record : TransportRecord) :
    consumer.consume options record = consumer := by
  unfold consume
  rw [h]
  rfl

theorem consumeAllValid_of_not_consuming (h : consumer.consuming = false) :
    consumer.consumeAllValid options records = consumer := by
  induction records with
  | nil => rfl
  | cons record records ih =>
    have hvalid : consumer.consumeValid options record = consumer := by
      rw [consumeValid, consume_of_not_consuming h, ite_self]
    rw [consumeAllValid, List.foldl_cons, hvalid]
    exact ih

theorem consumeAll_of_not_consuming (h : consumer.consuming = false) :
    consumer.consumeAll options records = consumer := by
  induction records with
  | nil => rfl
  | cons record records ih =>
    rw [consumeAll, List.foldl_cons, consume_of_not_consuming h]
    exact ih

theorem noneApplied_of_not_consuming (h : consumer.consuming = false) :
    NoneApplied options consumer records := by
  intro before record after _ hconsuming
  rw [consumeAllValid_of_not_consuming h, h] at hconsuming
  cases hconsuming

theorem atEachTurn_cons {P : GovernanceConsumer → TransportRecord → List TransportRecord → Prop} :
    AtEachTurn options P consumer (record :: records) ↔ P consumer record records ∧
        AtEachTurn options P (consumer.consumeValid options record) records := by
  constructor
  · intro h
    exact ⟨h [] record records rfl, fun before record' after hsplit =>
      h (record :: before) record' after (by rw [hsplit]; rfl)⟩
  · rintro ⟨hfirst, hrest⟩ before record' after hsplit
    cases before with
    | nil =>
      cases hsplit
      exact hfirst
    | cons first before =>
      cases hsplit
      exact hrest before record' after rfl

theorem noneApplied_cons : NoneApplied options consumer (record :: records) ↔
      (consumer.consuming → applies options record consumer.state = false) ∧
      NoneApplied options (consumer.consumeValid options record) records :=
  atEachTurn_cons

theorem noneAfterInvalid_cons : NoneAfterInvalid options consumer (record :: records) ↔
      (accepts options record consumer.state = false → NoneApplied options consumer records) ∧
      NoneAfterInvalid options (consumer.consumeValid options record) records :=
  atEachTurn_cons

theorem noneAfterInvalid_of_noneApplied (h : NoneApplied options consumer records) :
    NoneAfterInvalid options consumer records := by
  induction records generalizing consumer with
  | nil => exact fun before _ _ hsplit => absurd hsplit (by simp)
  | cons record records ih =>
    obtain ⟨-, hrest⟩ := noneApplied_cons.1 h
    refine noneAfterInvalid_cons.2 ⟨fun hinvalid => ?_, ih hrest⟩
    rwa [consumeValid, hinvalid] at hrest

/-- What becomes of the record for a consumer: it ends the consumption, changes
    nothing, or takes the consumer further. -/
theorem consume_cases (options : GovernanceControlPlaneOptions) (record : TransportRecord)
    (h : consumer.consuming = true) : (accepts options record consumer.state = false ∧
      applies options record consumer.state = false ∧
      consumer.consumeValid options record = consumer ∧
      consumer.consume options record = ⟨consumer.state, false⟩) ∨
    (accepts options record consumer.state = true ∧
      consumer.consumeValid options record = consumer.consume options record) ∧
      (applies options record consumer.state = false ∧ consumer.consume options record = consumer ∨
      applies options record consumer.state = true ∧
        consumer.state.progress < (consumer.consume options record).state.progress) := by
  have hconsume : (consumer.consume options record).state =
      finalState (ingest options record consumer.state) := by
    rw [consume, h]
    cases ingest options record consumer.state <;> rfl
  rcases turn options record consumer.state with
    ⟨hverdict, message, hingest⟩ | ⟨hverdict, hingest⟩ | ⟨hverdict, hprogress⟩
  · have haccepts : accepts options record consumer.state = false := by rw [accepts, hverdict]; rfl
    refine .inl ⟨haccepts, by rw [applies, hverdict]; rfl, ?_, ?_⟩
    · rw [consumeValid, haccepts, if_neg (by simp)]
    · rw [consume, h, hingest]
      rfl
  · have haccepts : accepts options record consumer.state = true := by rw [accepts, hverdict]; rfl
    refine .inr ⟨⟨haccepts, by rw [consumeValid, haccepts, if_pos rfl]⟩, .inl ⟨?_, ?_⟩⟩
    · rw [applies, hverdict]
      rfl
    · rw [consume, h, hingest]
      cases consumer with
      | mk state consuming =>
        subst h
        rfl
  · have haccepts : accepts options record consumer.state = true := by rw [accepts, hverdict]; rfl
    refine .inr ⟨⟨haccepts, by rw [consumeValid, haccepts, if_pos rfl]⟩, .inr ⟨?_, ?_⟩⟩
    · rw [applies, hverdict]
      rfl
    · rwa [hconsume]

/-- A consumer that is handed valid records never goes back. -/
theorem progress_le_consumeAllValid :
    consumer.state.progress ≤ (consumer.consumeAllValid options records).state.progress := by
  induction records generalizing consumer with
  | nil => exact le_rfl
  | cons record records ih =>
    cases hconsuming : consumer.consuming with
    | false => rw [consumeAllValid_of_not_consuming hconsuming]
    | true =>
      have hrest := @ih (consumer.consumeValid options record)
      refine le_trans ?_ hrest
      rcases consume_cases options record hconsuming with ⟨-, -, hsame, -⟩ |
        ⟨⟨-, hsame⟩, ⟨-, hidle⟩ | ⟨-, hlt⟩⟩
      · rw [hsame]
      · rw [hsame, hidle]
      · rw [hsame]
        exact hlt.le

/-- The valid records leave the state alone just if none is applied. -/
theorem state_consumeAllValid_eq_iff :
    (consumer.consumeAllValid options records).state = consumer.state ↔
      NoneApplied options consumer records := by
  induction records generalizing consumer with
  | nil => exact ⟨fun _ before _ _ hsplit => absurd hsplit (by simp), fun _ => rfl⟩
  | cons record records ih =>
    cases hconsuming : consumer.consuming with
    | false =>
      rw [consumeAllValid_of_not_consuming hconsuming]
      exact iff_of_true rfl (noneApplied_of_not_consuming hconsuming)
    | true =>
      have hrest := @ih (consumer.consumeValid options record)
      rw [noneApplied_cons, ← hrest, consumeAllValid, List.foldl_cons, hconsuming]
      rcases consume_cases options record hconsuming with ⟨-, happlies, hsame, -⟩ |
        ⟨⟨-, hsame⟩, ⟨happlies, hidle⟩ | ⟨happlies, hlt⟩⟩
      · rw [hsame]
        exact ⟨fun h => ⟨fun _ => happlies, h⟩, fun h => h.2⟩
      · rw [hsame, hidle]
        exact ⟨fun h => ⟨fun _ => happlies, h⟩, fun h => h.2⟩
      · -- What was applied stays applied.
        refine iff_of_false (fun heq => ?_) fun h => by simp [happlies] at h
        have hle := @progress_le_consumeAllValid options records
          (consumer.consumeValid options record)
        rw [consumeAllValid, heq, hsame] at hle
        exact hlt.not_ge hle

/-- The control plane ends in the state of the valid records just if no valid record that is new
    comes after an invalid one. -/
theorem consumeAll_state_eq_iff (options : GovernanceControlPlaneOptions)
    (records : List TransportRecord) (consumer : GovernanceConsumer) :
    (consumer.consumeAll options records).state = (consumer.consumeAllValid options records).state ↔
      NoneAfterInvalid options consumer records := by
  induction records generalizing consumer with
  | nil => exact ⟨fun _ before _ _ hsplit => absurd hsplit (by simp), fun _ => rfl⟩
  | cons record records ih =>
    cases hconsuming : consumer.consuming with
    | false =>
      rw [consumeAllValid_of_not_consuming hconsuming, consumeAll_of_not_consuming hconsuming]
      exact iff_of_true rfl
        (noneAfterInvalid_of_noneApplied (noneApplied_of_not_consuming hconsuming))
    | true =>
      rw [noneAfterInvalid_cons, consumeAll, consumeAllValid, List.foldl_cons, List.foldl_cons]
      rcases consume_cases options record hconsuming with ⟨hinvalid, -, hsame, hstopped⟩ |
        ⟨⟨hvalid, hsame⟩, -⟩
      · -- The consumption ends, while the valid records go on.
        have hend : List.foldl (consume options) ⟨consumer.state, false⟩ records =
          ⟨consumer.state, false⟩ := consumeAll_of_not_consuming rfl
        have hvalid := @state_consumeAllValid_eq_iff options records consumer
        rw [consumeAllValid] at hvalid
        rw [hstopped, hend, hsame, eq_comm, hvalid]
        exact ⟨fun h => ⟨fun _ => h, noneAfterInvalid_of_noneApplied h⟩, fun h => h.1 hinvalid⟩
      · have hrest := ih (consumer.consume options record)
        rw [consumeAll, consumeAllValid] at hrest
        rw [hsame, hrest, hvalid]
        exact ⟨fun h => ⟨by simp, h⟩, fun h => h.2⟩

end Consume

/-! ## Samples -/

namespace StrangeFeed

open SmallLog (grant genesis revision governance)

/-- A group in which revision 1 lets a writer in. -/
def options : GovernanceControlPlaneOptions :=
  governance (.ofTables [] [] [] [] []) (genesis [])
    [([21], revision 1 [9] [grant 3 "w" .writer 1 none] [])] [] []

/-- The control plane at the start. -/
def consumer : GovernanceConsumer :=
  ⟨okValue (create options) (by decide +kernel), true⟩

/-- The revision, in a feed. -/
def record (id feed : String) : TransportRecord := ⟨id, feed, 1, none, some 0, [21]⟩

/-- A stranger repeats the revision before it comes in the log: the control plane
    stops at the first revision, and never applies the second. -/
theorem snapshot_ne : accepts options (record "s" "z") consumer.state = false ∧
    accepts options (record "r" "g") consumer.state = true ∧
    (consumer.consumeAll options [record "s" "z", record "r" "g"]).state.snapshot.revision = 0 ∧
    (consumer.consumeAllValid options [record "s" "z", record "r" "g"]).state.snapshot.revision =
      1 := by
  decide +kernel

end StrangeFeed

end Chronolog
