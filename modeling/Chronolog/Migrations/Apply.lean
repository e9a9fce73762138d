import Mathlib.Data.List.Sort

/-!
# Applying migrations

`MigrationManager.apply` builds a transaction from a status of the migration, which may be outdated
when the group replays the transaction. If an assertion fails, the transaction is rejected.

## Main results

* `complete_replay`: whatever transactions are replayed, the history table has the versions from one
  on of each component, with different ids.
-/

namespace Chronolog.Migrations

open List Option

structure MigrationHistoryEntry where
  component : String
  id : String
  version : ℕ
  checksum : String
  appliedAtMs : ℤ
  deriving DecidableEq

/-- A migration that `defineMigration` returns, with statements of a type `σ`. -/
structure MigrationDefinition (σ : Type) where
  component : String
  id : String
  version : ℕ
  checksum : String
  statements : List σ
  positive : 1 ≤ version

inductive MigrationStatus
  | pending (historyTableExists : Bool) (history : List MigrationHistoryEntry)
  | applied (entry : MigrationHistoryEntry) (history : List MigrationHistoryEntry)
  | conflictingChecksum (expected actual : String) (entry : MigrationHistoryEntry)
  | versionGap (expectedPreviousVersion actualVersion : ℕ)
  deriving DecidableEq

variable {σ ρ : Type}

/-- The status of a migration in a database with this history table, if it has one. -/
def status (migration : MigrationDefinition σ) :
    Option (List MigrationHistoryEntry) → MigrationStatus
  | none =>
    if migration.version = 1 then .pending false [] else .versionGap (migration.version - 1) 0
  | some rows =>
    let history :=
      (rows.filter (·.component = migration.component)).insertionSort (·.version ≤ ·.version)
    match history.find? fun entry => entry.version = migration.version ∨ entry.id = migration.id with
    | some existing =>
      if existing.version = migration.version ∧ existing.id = migration.id ∧
          existing.checksum = migration.checksum then .applied existing history
      else .conflictingChecksum migration.checksum existing.checksum existing
    | none =>
      let actualVersion := (history.getLast?.map (·.version)).getD 0
      if actualVersion ≠ migration.version - 1 then
        .versionGap (migration.version - 1) actualVersion
      else .pending true history

inductive Assertion
  | historyAbsent
  | predecessor (component : String) (count : ℕ)
  | absent (component : String) (version : ℕ) (id : String)
  | previous (component : String) (version : ℕ) (checksum : String)
  deriving DecidableEq

/-- Does an assertion hold? Without the history table, a query of it fails. -/
def Assertion.holds : Assertion → Option (List MigrationHistoryEntry) → Bool
  | .historyAbsent, history => history.isNone
  | _, none => false
  | .predecessor component count, some rows => rows.countP (·.component = component) = count
  | .absent component version id, some rows =>
    ¬∃ row ∈ rows, row.component = component ∧ (row.version = version ∨ row.id = id)
  | .previous component version checksum, some rows =>
    ∃ row ∈ rows, row.component = component ∧ row.version = version ∧ row.checksum = checksum

/-- What `apply` asserts, the statements of the migration, and the row that is inserted after them. -/
structure MigrationTransaction (σ : Type) where
  assertions : List Assertion
  statements : List σ
  entry : MigrationHistoryEntry

/-- The transaction of an attempt to apply a migration. There is one if the status is pending. -/
def apply (migration : MigrationDefinition σ) (reservedAuthorTimestampMs : ℤ) :
    MigrationStatus → Option (MigrationTransaction σ)
  | .pending historyTableExists history => some {
      assertions := if !historyTableExists then [.historyAbsent] else
        .predecessor migration.component (migration.version - 1) ::
        .absent migration.component migration.version migration.id ::
        (history.getLast?.map fun previous =>
          .previous migration.component previous.version previous.checksum).toList
      statements := migration.statements
      entry := ⟨migration.component, migration.id, migration.version, migration.checksum,
        reservedAuthorTimestampMs⟩ }
  | _ => none

/-- The history table, if there is one, and everything else. -/
structure Database (ρ : Type) where
  history : Option (List MigrationHistoryEntry)
  rest : ρ

/-- The table has the primary key (component, version), and unique pairs (component, id). -/
def insertEntry (entry : MigrationHistoryEntry) (rows : List MigrationHistoryEntry) :
    Option (List MigrationHistoryEntry) :=
  if ∃ row ∈ rows, row.component = entry.component ∧ (row.version = entry.version ∨ row.id = entry.id)
  then none else some (rows ++ [entry])

section Replay

-- What a statement of a migration does to everything but the history table, which it may read.
variable (exec : List MigrationHistoryEntry → ρ → σ → Option ρ)

def run (transaction : MigrationTransaction σ) (database : Database ρ) : Option (Database ρ) := do
  guard (transaction.assertions.all (·.holds database.history))
  -- The table is created if it does not exist.
  let rows := database.history.getD []
  let rest ← transaction.statements.foldlM (exec rows) database.rest
  return ⟨some (← insertEntry transaction.entry rows), rest⟩

/-- A transaction that fails is rejected. -/
def replay (database : Database ρ) (transaction : MigrationTransaction σ) : Database ρ :=
  (run exec transaction database).getD database

end Replay

/-- For each component, the table has the versions from 1 to some `n`, with different ids. -/
def Complete (history : Option (List MigrationHistoryEntry)) : Prop :=
  ∀ component, ∃ n,
    (((history.getD []).filter (·.component = component)).map (·.version)).Perm (range' 1 n) ∧
    (((history.getD []).filter (·.component = component)).map (·.id)).Nodup

variable {exec : List MigrationHistoryEntry → ρ → σ → Option ρ} {database : Database ρ}
  {transaction : MigrationTransaction σ}

variable {migration : MigrationDefinition σ}

/-- Whatever the status was, the assertions say how many rows the component has. -/
theorem countP_of_holds {view history : Option (List MigrationHistoryEntry)} {time : ℤ}
    (hbuilt : apply migration time (status migration view) = some transaction)
    (hholds : transaction.assertions.all (·.holds history)) :
    (history.getD []).countP (·.component = transaction.entry.component) + 1 =
      transaction.entry.version := by
  have hpositive := migration.positive
  cases hstatus : status migration view with
  | pending historyTableExists rows =>
    rw [hstatus] at hbuilt
    cases hbuilt
    cases historyTableExists with
    | false =>
      -- Only a first version is pending without the table.
      have hfirst : migration.version = 1 := by
        unfold status at hstatus
        grind
      cases history with
      | none => simp [hfirst]
      | some rows => simp [Assertion.holds] at hholds
    | true =>
      cases history with
      | none => simp [Assertion.holds] at hholds
      | some rows =>
        simp only [Bool.not_true, Bool.false_eq_true, if_false, all_cons, Assertion.holds,
          Bool.and_eq_true, decide_eq_true_eq] at hholds
        rw [getD_some, hholds.1, Nat.sub_add_cancel hpositive]
  | _ => rw [hstatus] at hbuilt; cases hbuilt

theorem Complete.insertEntry {rows rows' : List MigrationHistoryEntry}
    {entry : MigrationHistoryEntry} (h : Complete (some rows))
    (hcount : rows.countP (·.component = entry.component) + 1 = entry.version)
    (hinsert : insertEntry entry rows = some rows') : Complete (some rows') := by
  obtain ⟨hnew, rfl⟩ : (¬∃ row ∈ rows, row.component = entry.component ∧
      (row.version = entry.version ∨ row.id = entry.id)) ∧ rows ++ [entry] = rows' := by
    simpa [Migrations.insertEntry] using hinsert
  intro component
  obtain ⟨n, hversions, hids⟩ := h component
  rw [getD_some] at hversions hids ⊢
  rw [filter_append]
  by_cases heq : entry.component = component
  · -- The new version is the next one.
    subst heq
    have hlength : n + 1 = entry.version := by
      rw [← hcount, countP_eq_length_filter, ← length_map, hversions.length_eq,
        length_range']
    refine ⟨n + 1, ?_, ?_⟩
    · rw [range'_1_concat, map_append]
      refine hversions.append ?_
      simp [← hlength, Nat.add_comm]
    · rw [map_append, nodup_append]
      refine ⟨hids, by simp, ?_⟩
      simp
      grind
  · refine ⟨n, ?_, ?_⟩ <;> simpa [heq]

theorem Complete.replay {view : Option (List MigrationHistoryEntry)} {time : ℤ}
    (h : Complete database.history)
    (hbuilt : apply migration time (status migration view) = some transaction) :
    Complete (replay exec database transaction).history := by
  rw [Migrations.replay]
  cases hrun : run exec transaction database with
  | none => exact h
  | some next =>
    simp only [run, Option.bind_eq_bind, Option.bind_eq_some_iff, Option.guard_eq_some',
      Option.pure_def, Option.some.injEq] at hrun
    obtain ⟨_, hholds, rest, _, rows, hrows, rfl⟩ := hrun
    exact Complete.insertEntry h (countP_of_holds hbuilt hholds) hrows

/-- Whatever transactions are built from whatever statuses, and in whatever order they are replayed,
    the history table is complete. -/
theorem complete_replay (transactions : List (MigrationTransaction σ)) (rest : ρ)
    (hbuilt : ∀ transaction ∈ transactions, ∃ migration view time,
      apply migration time (status migration view) = some transaction) :
    Complete (transactions.foldl (replay exec) ⟨none, rest⟩).history := by
  have hempty : Complete none := fun _ => ⟨0, Perm.nil, nodup_nil⟩
  refine foldlRecOn transactions (replay exec) (motive := fun next => Complete next.history)
    (b := ⟨none, rest⟩) hempty fun database h transaction hmem => ?_
  obtain ⟨migration, view, time, hbuilt⟩ := hbuilt transaction hmem
  exact h.replay hbuilt

/-- Two clients that saw no history table apply the first migration, and one of them is rejected.
    Then a client that saw the table applies the second one. -/
theorem complete_replay_competing :
    Complete ([⟨[.historyAbsent], [()], ⟨"app", "initial", 1, "c", 5⟩⟩,
      ⟨[.historyAbsent], [()], ⟨"app", "initial", 1, "c", 7⟩⟩,
      ⟨[.predecessor "app" 1, .absent "app" 2 "next", .previous "app" 1 "c"], [()],
        ⟨"app", "next", 2, "d", 9⟩⟩].foldl (replay fun _ rest _ => some rest) ⟨none, ()⟩).history :=
  complete_replay _ _ (by
    simp only [forall_mem_cons, not_mem_nil, false_imp_iff, implies_true, and_true]
    exact ⟨⟨⟨"app", "initial", 1, "c", [()], le_rfl⟩, none, 5, rfl⟩,
      ⟨⟨"app", "initial", 1, "c", [()], le_rfl⟩, none, 7, rfl⟩,
      ⟨⟨"app", "next", 2, "d", [()], by decide⟩, some [⟨"app", "initial", 1, "c", 5⟩], 9, rfl⟩⟩)

end Chronolog.Migrations
