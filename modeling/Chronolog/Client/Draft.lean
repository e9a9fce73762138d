import Chronolog.Lib.Reachable

/-!
# Transaction drafts of a client

The calls on a draft are queued: each is sent when the one before it has ended, and after a failure the
others fail without being sent. A transaction waits for the queue, has the draft validated, waits for the
queue once more and publishes the draft. It looks for failures before the validation but not after the
second wait, and calls that are made during that wait are not waited for.

Every call was acknowledged when the publication is sent if no call is made during the second wait and none
fails in it (`acknowledged_of_publishDraft`).
-/

namespace Chronolog.Client

open Relation

/-- A call that is queued. -/
inductive DraftCall
  | observe
  | expect
  | assert
  | exec (statements : ℕ)
  | validate
  | rebase
  deriving DecidableEq

def DraftCall.preconditions : DraftCall → ℕ
  | expect | assert => 1
  | _ => 0

def DraftCall.statements : DraftCall → ℕ
  | exec statements => statements
  | _ => 0

/-- How a call ended. -/
inductive Completion
  /-- The answer was used. The answer to a validation may hold errors. -/
  | succeeded (diagnosed : Bool)
  /-- The server acknowledged the call, and the client could not use the answer. -/
  | unusable
  /-- The server answered with an error, or the call was not sent. -/
  | failed
  deriving DecidableEq

namespace Completion

def acknowledged : Completion → Bool
  | succeeded _ | unusable => true
  | failed => false

def isSuccess : Completion → Bool
  | succeeded _ => true
  | unusable | failed => false

end Completion

/-- How far a transaction is. The tail of the queue that is waited for is the number of the calls that
    were queued when the wait began. -/
inductive Phase
  | building
  | flushing (tail : ℕ)
  | validating (index : ℕ)
  | settling (tail : ℕ) (diagnosed : Bool)
  | published
  | thrown
  deriving DecidableEq

structure TransactionDraft where
  phase : Phase := .building
  /-- The number of calls that were queued. -/
  queued : ℕ := 0
  /-- How the calls ended that have, in the order of the queue. -/
  completed : List Completion := []
  preconditionCount : ℕ := 0
  statementCount : ℕ := 0
  deriving DecidableEq

inductive DraftEvent
  /-- A call is made, by the transaction's function or by code that it does not wait for. -/
  | call (call : DraftCall)
  | complete (completion : Completion)
  /-- The transaction's function has ended. -/
  | built (threw : Bool)
  /-- A wait for the queue is over. -/
  | resume
  | publishDraft
  deriving DecidableEq

namespace TransactionDraft

def failed (draft : TransactionDraft) : Bool :=
  draft.completed.any fun completion => !completion.isSuccess

def enqueue (call : DraftCall) (draft : TransactionDraft) : TransactionDraft :=
  { draft with
    queued := draft.queued + 1
    preconditionCount := draft.preconditionCount + call.preconditions
    statementCount := draft.statementCount + call.statements }

/-- The transaction goes on with the answer to its validation before the next call is sent. -/
def complete (completion : Completion) (draft : TransactionDraft) : TransactionDraft :=
  { draft with
    completed := draft.completed ++ [completion]
    phase :=
      if draft.phase = .validating draft.completed.length then
        match completion with
        | .succeeded diagnosed => .settling draft.queued diagnosed
        | .unusable | .failed => .thrown
      else draft.phase }

/-- The first wait is over. -/
def validate (draft : TransactionDraft) : TransactionDraft :=
  if draft.failed ∨ draft.preconditionCount = 0 ∨ draft.statementCount = 0 then
    { draft with phase := .thrown }
  else { draft.enqueue .validate with phase := .validating draft.queued }

def step (draft : TransactionDraft) : DraftEvent → Option TransactionDraft
  | .call call => some (draft.enqueue call)
  | .complete completion =>
    if draft.completed.length < draft.queued ∧ (draft.failed → completion = .failed) then
      some (draft.complete completion)
    else none
  | .built threw =>
    if draft.phase = .building then
      some { draft with phase := if threw then .thrown else .flushing draft.queued }
    else none
  | .resume =>
    match draft.phase with
    | .flushing tail => if tail ≤ draft.completed.length then some draft.validate else none
    | .settling tail true =>
      if tail ≤ draft.completed.length then some { draft with phase := .thrown } else none
    | _ => none
  | .publishDraft =>
    match draft.phase with
    | .settling tail false =>
      if tail ≤ draft.completed.length then some { draft with phase := .published } else none
    | _ => none

/-- The server acknowledged every call that was queued. -/
def Acknowledged (draft : TransactionDraft) : Prop :=
  draft.completed.length = draft.queued ∧ ∀ completion ∈ draft.completed, completion.acknowledged

instance (draft : TransactionDraft) : Decidable draft.Acknowledged := by
  unfold Acknowledged
  infer_instance

/-- During the second wait no call is made and none fails. -/
def Timely (draft : TransactionDraft) : DraftEvent → Prop
  | .call _ => ∀ tail diagnosed, draft.phase ≠ .settling tail diagnosed
  | .complete completion =>
    ∀ tail diagnosed, draft.phase = .settling tail diagnosed → completion.acknowledged
  | _ => True

def Step (draft draft' : TransactionDraft) : Prop := ∃ event, draft.step event = some draft'

def TimelyStep (draft draft' : TransactionDraft) : Prop :=
  ∃ event, draft.Timely event ∧ draft.step event = some draft'

/-- The second wait is for all calls, and those that have ended were acknowledged. -/
structure Settles (draft : TransactionDraft) : Prop where
  length_le : draft.completed.length ≤ draft.queued
  settling : ∀ tail diagnosed, draft.phase = .settling tail diagnosed →
    tail = draft.queued ∧ ∀ completion ∈ draft.completed, completion.acknowledged

variable {draft draft' : TransactionDraft}

theorem Settles.of_phase (hlength : draft.completed.length ≤ draft.queued)
    (hphase : ∀ tail diagnosed, draft.phase ≠ .settling tail diagnosed) : draft.Settles :=
  ⟨hlength, fun tail diagnosed hsettling => absurd hsettling (hphase tail diagnosed)⟩

variable {completion : Completion}

/-- No call has failed before one that succeeds. -/
theorem acknowledged_of_not_failed (h : ¬ draft.failed) (hmem : completion ∈ draft.completed) :
    completion.acknowledged := by
  simp only [failed, List.any_eq_true, not_exists, not_and, Bool.not_eq_true, Bool.not_eq_false'] at h
  have hsuccess := h completion hmem
  cases completion with
  | succeeded diagnosed => rfl
  | unusable => rfl
  | failed => cases hsuccess

theorem Settles.complete (h : draft.Settles) (hlt : draft.completed.length < draft.queued)
    (hfailed : draft.failed → completion = .failed)
    (htimely : draft.Timely (.complete completion)) : (draft.complete completion).Settles := by
  refine ⟨by simpa [TransactionDraft.complete] using Nat.succ_le_of_lt hlt, fun tail diagnosed hphase => ?_⟩
  -- The second wait begins with the answer to the validation, or has begun.
  have hbefore : tail = draft.queued ∧ completion.acknowledged ∧
      ∀ completion ∈ draft.completed, completion.acknowledged := by
    by_cases hindex : draft.phase = .validating draft.completed.length
    · cases completion with
      | succeeded diagnosed =>
        simp only [TransactionDraft.complete, hindex, if_true, Phase.settling.injEq] at hphase
        exact ⟨hphase.1.symm, rfl, fun _ => acknowledged_of_not_failed (by simpa using hfailed)⟩
      | unusable | failed => simp [TransactionDraft.complete, hindex] at hphase
    · have hsettling : draft.phase = .settling tail diagnosed := (if_neg hindex).symm.trans hphase
      obtain ⟨htail, hall⟩ := h.settling tail diagnosed hsettling
      exact ⟨htail, htimely tail diagnosed hsettling, hall⟩
  refine ⟨hbefore.1, List.forall_mem_append.2 ⟨hbefore.2.2, ?_⟩⟩
  exact List.forall_mem_singleton.2 hbefore.2.1

theorem Settles.step (h : draft.Settles) {event : DraftEvent} (htimely : draft.Timely event)
    (hstep : draft.step event = some draft') : draft'.Settles := by
  cases event with
  | call call =>
    cases hstep
    exact .of_phase (h.length_le.trans (Nat.le_succ _)) htimely
  | complete completion =>
    obtain ⟨⟨hlt, hfailed⟩, ⟨⟩⟩ := Option.ite_none_right_eq_some.1 hstep
    exact h.complete hlt hfailed htimely
  | built threw =>
    obtain ⟨-, ⟨⟩⟩ := Option.ite_none_right_eq_some.1 hstep
    exact .of_phase h.length_le (by cases threw <;> simp)
  | resume =>
    simp only [TransactionDraft.step] at hstep
    split at hstep
    · obtain ⟨-, ⟨⟩⟩ := Option.ite_none_right_eq_some.1 hstep
      unfold validate
      split_ifs
      · exact .of_phase h.length_le nofun
      · exact .of_phase (h.length_le.trans (Nat.le_succ _)) nofun
    · obtain ⟨-, ⟨⟩⟩ := Option.ite_none_right_eq_some.1 hstep
      exact .of_phase h.length_le nofun
    · cases hstep
  | publishDraft =>
    simp only [TransactionDraft.step] at hstep
    split at hstep
    · obtain ⟨-, ⟨⟩⟩ := Option.ite_none_right_eq_some.1 hstep
      exact .of_phase h.length_le nofun
    · cases hstep

/-- Every call was acknowledged when the publication is sent, if no call was made during the second wait
    and none failed in it. -/
theorem acknowledged_of_publishDraft (hrun : ReflTransGen TimelyStep {} draft)
    (hpublish : draft.step .publishDraft = some draft') : draft.Acknowledged := by
  have hsettles : draft.Settles := by
    refine Reachable.invariant ?_ hrun (.of_phase le_rfl nofun)
    rintro s s' hs ⟨event, htimely, hstep⟩
    exact hs.step htimely hstep
  simp only [step] at hpublish
  split at hpublish
  · rename_i tail hphase
    obtain ⟨rfl, hall⟩ := hsettles.settling tail false hphase
    exact ⟨hsettles.length_le.antisymm (Option.ite_none_right_eq_some.1 hpublish).1, hall⟩
  · cases hpublish

end TransactionDraft

namespace LateStatement

/-- An assertion and a statement were acknowledged, and the validation is queued. -/
def validating : TransactionDraft :=
  { phase := .validating 2, queued := 3, completed := [.succeeded false, .succeeded false]
    preconditionCount := 1, statementCount := 1 }

theorem timely_validating : ReflTransGen TransactionDraft.TimelyStep {} validating :=
  .head ⟨.call .assert, nofun, rfl⟩ <| .head ⟨.call (.exec 1), nofun, rfl⟩ <|
    .head ⟨.complete (.succeeded false), nofun, rfl⟩ <|
    .head ⟨.complete (.succeeded false), nofun, rfl⟩ <|
    .head ⟨.built false, trivial, rfl⟩ <| .single ⟨.resume, trivial, rfl⟩

/-- A draft that is published after its validation. -/
theorem acknowledged_of_valid : (validating.complete (.succeeded false)).step .publishDraft ≠ none ∧
      (validating.complete (.succeeded false)).Acknowledged :=
  ⟨nofun, TransactionDraft.acknowledged_of_publishDraft
    (timely_validating.tail ⟨.complete (.succeeded false), nofun, rfl⟩) rfl⟩

/-- A statement is added while the draft is validated. The server refuses it, and the draft is published. -/
theorem publishes_unacknowledged :
    ∃ draft, ReflTransGen TransactionDraft.Step {} draft ∧ draft.step .publishDraft ≠ none ∧
      ¬ draft.Acknowledged := by
  have hvalidating : ReflTransGen TransactionDraft.Step {} validating :=
    timely_validating.lift id fun _ _ ⟨event, _, hstep⟩ => ⟨event, hstep⟩
  exact ⟨_, ((hvalidating.tail ⟨.call (.exec 1), rfl⟩).tail ⟨.complete (.succeeded false), rfl⟩).tail
    ⟨.complete .failed, rfl⟩, nofun, by decide⟩

end LateStatement

end Chronolog.Client
