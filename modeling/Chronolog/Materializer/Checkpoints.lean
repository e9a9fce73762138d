import Chronolog.Materializer.Opened
import Mathlib.Logic.Relation

/-!
# The checkpoints of a materializer

The checkpoints a materializer has in memory should be beginnings of its log, with the branches
they name, and one of them before all transactions (`CheckpointsCurrent`). A call keeps it that
way if none of the operations after the head has moved fails: it is the last thing a call does to
bring the checkpoints up to date, and after an error they stay those of the old order
(`StaleCheckpoint.checkpoint_stale`). What is left of the property is `checkpointsCurrent_of_run`.
-/

namespace Chronolog.Materializer

open Procedure

variable {Db : Type}

section Run

variable {engine : Engine Db} {options : MaterializerOptions}
  {faults : Faults} {transactions : List AdmittedTransaction} {nonce : String}
  {m m' : DeterministicMaterializer Db}

/-- A call that returns or throws. -/
def Calls (engine : Engine Db) (options : MaterializerOptions)
    (faults : Faults) (transactions : List AdmittedTransaction) (nonce : String)
    (m m' : DeterministicMaterializer Db) : Prop :=
  (∃ result, materialize engine options faults transactions nonce m = .ok result m') ∨
  ∃ error, materialize engine options faults transactions nonce m = .error (.thrown error) m'

/-- A call whose failures do no harm to the checkpoints. -/
def Step (engine : Engine Db) (options : MaterializerOptions)
    (m m' : DeterministicMaterializer Db) : Prop :=
  ∃ faults transactions nonce, Orderly faults transactions m ∧
    Calls engine options faults transactions nonce m m'

theorem Sound.of_kept (hm : Sound m) (h : Kept m m') : Sound m' := by
  obtain ⟨hmemory, hretains⟩ := h
  rw [hmemory]
  refine ⟨hm.order, hm.published, fun c hc => ?_, hm.beginning, hm.genesis⟩
  obtain ⟨hnamed, hget⟩ := hm.holds c hc
  exact ⟨hnamed, hretains _ _ hnamed.isCheckpoint hget⟩

/-- A call keeps a materializer sound. -/
theorem Sound.step (hm : Sound m) (h : Step engine options m m') : Sound m' := by
  obtain ⟨faults, transactions, nonce, horderly, ⟨result, hcall⟩ | ⟨error, hcall⟩⟩ := h
  · rcases (meets_materialize.of_ok rfl hcall).1 with ⟨_, rfl⟩ | hpublishes
    · exact hm
    · exact hm.of_publishes hpublishes horderly
  · rcases (meets_materialize.of_error rfl hcall).1 with hkept | hpublishes
    · exact hm.of_kept hkept
    · exact hm.of_publishes hpublishes horderly

/-- The checkpoints of a materializer are current after every call of a run, and no call is refused
    because of them, if in each call the operations that fail are such that they do no harm:
    no removal of a checkpoint and, if a checkpoint ends after the call's first difference, none of
    those between the change of the memory and the pruning. -/
theorem checkpointsCurrent_of_run {opening : OpeningOperation → Option Fault} {r r' : Repository Db}
    (hr : Genuine engine r) (hopen : openMaterializer engine opening r = .ok m r')
    (hrun : Relation.ReflTransGen (Step engine options) m m') :
    CheckpointsCurrent m' ∧ ∀ faults transactions nonce error m'',
      materialize engine options faults transactions nonce m' = .error (.thrown error) m'' →
        ¬error.IsStale := by
  have hm' : Sound m' := by
    induction hrun with
    | refl =>
      obtain ⟨r₂, hdistinct, hm⟩ :=
        (ensures_openMaterializer (ensures_checkoutPublished hr)).of_ok rfl hopen
      exact hm.sound hdistinct
    | tail _ hstep ih => exact ih.step hstep
  exact ⟨hm'.checkpointsCurrent, fun _ _ _ _ _ h hstale =>
    hm'.not_staleFor ((meets_materialize.of_error rfl h).2 hstale)⟩

end Run

/-! ## A checkpoint of an old order -/

namespace StaleCheckpoint

open AcceptAll

/-- The old reader cannot be closed. -/
def closeFails : Faults
  | .closeOldReader => some (.throws false "SQLITE_BUSY")
  | _ => none

/-- A transaction is inserted before the only one, and the old reader cannot be closed. -/
def inserted : DeterministicMaterializer Unit :=
  finalState (materialize engine options closeFails [transaction 10, transaction 20] "b" alone)

theorem calls_alone : Calls engine options (fun _ => none) [transaction 20] "a" opened alone :=
  Or.inl ⟨_, eq_ok_of_returned (Option.some_get (by decide +kernel)).symm⟩

/-- The order of two transactions is published, and the checkpoint after the one that came first is
    still there, although its log is no beginning of the log. It makes the next insertion fail. -/
theorem checkpoint_stale : (∃ r, openMaterializer engine (fun _ => none) fresh = .ok opened r) ∧
    Calls engine options (fun _ => none) [transaction 20] "a" opened alone ∧
    materialize engine options closeFails [transaction 10, transaction 20] "b" alone =
      .error (.thrown (.failure "SQLITE_BUSY")) inserted ∧ ¬CheckpointsCurrent inserted ∧
    ∃ m, materialize engine options (fun _ => none)
        [transaction 10, transaction 15, transaction 20] "c" inserted =
      .error (.thrown (.error .checkpointPrefixMismatch)) m :=
  ⟨openMaterializer_fresh, calls_alone, eq_error_of_failed (by decide +kernel), by decide +kernel,
    _, eq_error_of_failed (by decide +kernel)⟩

/-- A transaction is appended, and the old reader cannot be closed. -/
def appended : DeterministicMaterializer Unit :=
  finalState (materialize engine options closeFails [transaction 20, transaction 30] "b" alone)

theorem step_alone : Step engine options opened alone := by
  refine ⟨fun _ => none, [transaction 20], "a", ⟨?_, fun _ => by decide⟩, calls_alone⟩
  rintro ⟨branchRef, h | h⟩
  · exact h rfl
  · exact h rfl

theorem step_appended : Step engine options alone appended := by
  refine ⟨closeFails, [transaction 20, transaction 30], "b", ⟨?_, fun _ => by decide +kernel⟩,
    Or.inr ⟨.failure "SQLITE_BUSY", eq_error_of_failed (by decide +kernel)⟩⟩
  rintro ⟨branchRef, h | h⟩
  · exact h rfl
  · exact h rfl

/-- After the same failure of a call that appends, the checkpoints are current. -/
theorem checkpoints_current_appended :
    CheckpointsCurrent appended ∧ ∀ faults transactions nonce error m,
      materialize engine options faults transactions nonce appended = .error (.thrown error) m →
        ¬error.IsStale := by
  obtain ⟨r, hopen⟩ := openMaterializer_fresh
  exact checkpointsCurrent_of_run genuine_fresh hopen
    ((Relation.ReflTransGen.single step_alone).tail step_appended)

end StaleCheckpoint

end Chronolog.Materializer
