import Chronolog.Materializer.Materialize

/-!
# The parts of a call

What each part of a call of `materialize` ensures, whatever fails. Up to the point at which
the head moves, the materializer keeps what it has in memory, and its checkpoints keep
their branches (`Prepared`). A candidate that is committed is the result of applying the
transactions from the plan's index on to the base of the plan (`Candidate`).
-/

namespace Chronolog.Materializer

open Procedure CallState OrdMap Meets List Option

variable {Db : Type}

/-! ## Stale checkpoints -/

/-- The errors by which a call is refused because of its checkpoints. -/
def MaterializerError.IsStale : MaterializerError → Prop
  | .error .genesisCheckpointMissing | .error .checkpointPrefixLengthMismatch
  | .error .checkpointPrefixMismatch => True
  | _ => False

def Stop.IsStale : Stop → Prop
  | .thrown error => error.IsStale
  | .crash => False

theorem Fault.not_isStale_stop (fault : Fault) : ¬fault.stop.IsStale := by
  cases fault <;> exact id

/-- A failure that leaves `I`, and that stale checkpoints are the reason of only if `stale`. -/
def Aborts {σ : Type} (I : σ → Prop) (stale : Prop) (stop : Stop) (s : σ) : Prop :=
  I s ∧ (stop.IsStale → stale)

section Contracts

variable {σ α : Type} {P I B A : σ → Prop} {Q : α → σ → Prop} {E : Stop → σ → Prop} {stale : Prop}
  {x : EStateM Stop σ α} {fault : Option Fault}

/-- An operation that is made to fail in a state with `B`, or in one with `A` if it took effect,
    ends with `E`. -/
structure Tolerates (fault : Option Fault) (B A : σ → Prop) (E : Stop → σ → Prop) : Prop where
  before : ∀ f ∈ fault, f.done = false → ∀ s, B s → E f.stop s
  after : ∀ f ∈ fault, f.done = true → ∀ s, A s → E f.stop s

theorem tolerates_of (h : ∀ f ∈ fault, ∀ s, I s → E f.stop s) : Tolerates fault I I E :=
  ⟨fun f hf _ => h f hf, fun f hf _ => h f hf⟩

theorem tolerates_self : Tolerates fault I I fun _ => I := tolerates_of fun _ _ _ => id

theorem tolerates_aborts : Tolerates fault I I (Aborts I stale) :=
  tolerates_of fun f _ _ hs => ⟨hs, fun hstale => absurd hstale f.not_isStale_stop⟩

/-- An operation that only fails if it is made to. -/
theorem tolerates_fails {fails : Prop} (hfails : fault ≠ none → fails) :
    Tolerates fault I I (Aborts (fun s => I s ∧ fails) stale) :=
  tolerates_of fun f hf _ hs =>
    ⟨⟨hs, hfails (hf ▸ nofun)⟩, fun hstale => absurd hstale f.not_isStale_stop⟩

theorem Tolerates.run (h : Tolerates fault B A E) (hx : Meets P x Q E) (hP : ∀ s, P s → B s)
    (hQ : ∀ a s, Q a s → A s) : Meets P (attempt fault x) Q E := by
  cases fault with
  | none => exact hx
  | some fault =>
    cases hdone : fault.done with
    | true =>
      simp only [attempt, hdone, if_true]
      refine bind (Q := fun _ => A) ?_ fun _ => meets_throw (h.after fault rfl hdone)
      exact hx.bind fun a => meets_pure (hQ a)
    | false =>
      simp only [attempt, hdone]
      exact meets_throw fun s hs => h.before fault rfl hdone s (hP s hs)

theorem Tolerates.value {a : α} (h : Tolerates fault I I E) (hP : ∀ s, P s → I s) :
    Meets P (attempt fault (pure a)) (fun b s => b = a ∧ P s) E :=
  h.run (meets_pure fun _ hs => ⟨rfl, hs⟩) hP fun _ s hs => hP s hs.2

theorem Tolerates.unit (h : Tolerates fault I I E) (hP : ∀ s, P s → I s) :
    KeepsOr P (attempt fault (pure ())) E :=
  h.run (meets_pure fun _ => id) hP fun _ => hP

theorem Tolerates.read (h : Tolerates fault I I E) (g : σ → α) (hP : ∀ s, P s → I s) :
    Meets P (attempt fault (get >>= fun s => pure (g s))) (fun a s => a = g s ∧ P s) E :=
  h.run (meets_get_bind fun _ hs => meets_pure fun _ hs' => ⟨hs' ▸ rfl, hs' ▸ hs⟩) hP
    fun _ s hs => hP s hs.2

variable {result : Except MaterializerError α}

theorem meets_check_of (h : ∀ e, result = .error e → ∀ s, P s → E (.thrown e) s) :
    Meets P (check result) (fun a s => result = .ok a ∧ P s) E := by
  cases result with
  | ok a => exact meets_pure fun _ hs => ⟨rfl, hs⟩
  | error e => exact meets_throw (h e rfl)

theorem meets_check (hP : ∀ s, P s → I s) (hstale : ∀ e, result = .error e → e.IsStale → stale) :
    Meets P (check result) (fun a s => result = .ok a ∧ P s) (Aborts I stale) :=
  meets_check_of fun e he s hs => ⟨hP s hs, hstale e he⟩

/-- A check that finds no checkpoint stale. -/
def NeverStale (result : Except MaterializerError α) : Prop := ∀ e, result = .error e → ¬e.IsStale

theorem NeverStale.bind {β : Type} {f : α → Except MaterializerError β} (h : NeverStale result)
    (hf : ∀ a, NeverStale (f a)) : NeverStale (result >>= f) := by
  intro e he
  rcases bind_eq_error_iff.1 he with he | ⟨a, _, he⟩
  · exact h e he
  · exact hf a e he

theorem neverStale_external {result : Except String α} : NeverStale (external result) := by
  intro e h
  cases result <;> cases h
  exact id

theorem external_eq_ok_iff {result : Except String α} {a : α} :
    external result = .ok a ↔ result = .ok a := by
  cases result <;> simp [external]

theorem neverStale_verifyContentHash {code : MaterializerErrorCode} {contentHash expected : Bytes}
    (hcode : ¬(MaterializerError.error code).IsStale) :
    NeverStale (verifyContentHash code contentHash expected) := by
  intro e h
  unfold verifyContentHash at h
  split_ifs at h <;> cases h
  exact hcode

theorem meets_storeError {message : String} (hP : ∀ s, P s → I s) :
    Meets P (storeError message) Q (Aborts I stale) :=
  meets_throw fun s hs => ⟨hP s hs, False.elim⟩

end Contracts

/-! ## Branches of checkpoints -/

/-- Is this the name of a checkpoint? -/
def BranchName.IsCheckpoint : BranchName → Prop
  | .checkpoint .. => True
  | _ => False

theorem BranchName.not_isCheckpoint_of_isOrphan {name : BranchName} (h : name.isOrphan) :
    ¬name.IsCheckpoint := by
  cases name with
  | replay => exact id
  | revision => exact id
  | _ => cases h

/-- The branch of a checkpoint is named after its length. -/
def MaterializerCheckpointInfo.Named (c : MaterializerCheckpointInfo Db) : Prop :=
  ∃ revision digest, c.branchRef = .checkpoint c.prefixLength revision digest

theorem MaterializerCheckpointInfo.Named.isCheckpoint
    {c : MaterializerCheckpointInfo Db} (h : c.Named) : c.branchRef.IsCheckpoint := by
  obtain ⟨revision, digest, h⟩ := h
  rw [h]
  trivial

theorem MaterializerCheckpointInfo.Named.prefixLength_eq
    {c c' : MaterializerCheckpointInfo Db} (h : c.Named) (h' : c'.Named)
    (heq : c.branchRef = c'.branchRef) : c.prefixLength = c'.prefixLength := by
  obtain ⟨revision, digest, h⟩ := h
  obtain ⟨revision', digest', h'⟩ := h'
  rw [h, h'] at heq
  injection heq

section Retains

variable {r₀ r : Repository Db} {name : BranchName}
  {commit : Commit Db} {stale : Prop} {fault fault' : Option Fault}

/-- The branches of checkpoints of `r₀` are those of `r`, too. -/
def Retains (r₀ r : Repository Db) : Prop :=
  ∀ name commit, name.IsCheckpoint → r₀.branches.get? name = some commit →
    r.branches.get? name = some commit

theorem Retains.refl (r : Repository Db) : Retains r r := fun _ _ _ h => h

theorem Retains.trans {r₁ r₂ : Repository Db} (h : Retains r₀ r₁)
    (h' : Retains r₁ r₂) : Retains r₀ r₂ :=
  fun name commit hname h₀ => h' name commit hname (h name commit hname h₀)

theorem Retains.set (h : Retains r₀ r) (hname : ¬name.IsCheckpoint) :
    Retains r₀ { r with branches := r.branches.set name commit } := by
  intro name' commit' hname' h₀
  rw [get?_set_of_ne (by rintro rfl; exact hname hname')]
  exact h name' commit' hname' h₀

theorem Retains.set_new (h : Retains r₀ r) (hnew : r.branches.get? name = none) :
    Retains r₀ { r with branches := r.branches.set name commit } := by
  intro name' commit' hname' h₀
  have h' := h name' commit' hname' h₀
  rwa [get?_set_of_ne]
  rintro rfl
  rw [hnew] at h'
  cases h'

theorem Retains.erase (h : Retains r₀ r)
    (hname : ¬name.IsCheckpoint ∨ r₀.branches.get? name = none) :
    Retains r₀ { r with branches := r.branches.erase name } := by
  intro name' commit' hname' h₀
  rw [get?_erase, if_neg]
  · exact h name' commit' hname' h₀
  · rintro rfl
    rcases hname with hname | hname
    · exact hname hname'
    · rw [hname] at h₀
      cases h₀

/-- A new branch is one that was not there. -/
theorem meets_doltBranch : Meets (· = r₀) (attempt fault (doltBranch name commit))
      (fun _ r => Retains r₀ r ∧ r.branches.get? name = some commit ∧ r₀.branches.get? name = none)
      (Aborts (Retains r₀) stale) := by
  have hrefl : ∀ r, r = r₀ → Retains r₀ r := fun r hr => hr ▸ Retains.refl r
  refine tolerates_aborts.run (meets_get_bind fun r hr => ?_) hrefl fun _ r hr => hr.1
  subst hr
  refine meets_ite (fun _ => meets_storeError hrefl) fun hhas => ?_
  have hnew : r.branches.get? name = none := has_eq_false_iff.1 (by simpa using hhas)
  exact meets_set fun _ => ⟨(Retains.refl r).set_new hnew, get?_set_self .., hnew⟩

theorem meets_doltCheckout : Meets (· = r₀) (attempt fault (doltCheckout name))
      (fun _ r => ∃ commit, r₀.branches.get? name = some commit ∧
        r = { r₀ with active := name, working := commit.snapshot })
      (Aborts (Retains r₀) stale) := by
  have hrefl : ∀ r, r = r₀ → Retains r₀ r := fun r hr => hr ▸ Retains.refl r
  refine tolerates_aborts.run (meets_get_bind fun r hr => ?_) hrefl ?_
  · subst hr
    cases hget : r.branches.get? name with
    | none => exact meets_storeError hrefl
    | some commit => exact meets_set fun _ => ⟨commit, rfl, rfl⟩
  · rintro _ r ⟨commit, _, rfl⟩
    exact Retains.refl r₀

variable {log : List TransactionLogRow} {engine : Engine Db}
  {prefixLength revision : ℕ}

theorem meets_createCheckpointRef :
    Meets (· = r₀) (createCheckpointRef engine fault fault' prefixLength revision commit log)
      (fun checkpoint r => Retains r₀ r ∧ checkpoint.Named ∧
        r₀.branches.get? checkpoint.branchRef = none ∧
        r.branches.get? checkpoint.branchRef = some commit ∧
        checkpoint.doltCommitHash = commit ∧ checkpoint.prefixLength = prefixLength)
      (Aborts (Retains r₀) stale) := by
  refine meets_doltBranch.bind fun _ => ?_
  refine (tolerates_aborts.value fun _ hr => hr.1).bind fun contentHash => meets_of_and fun _ => ?_
  exact meets_pure fun _ hr => ⟨hr.1, ⟨_, _, rfl⟩, hr.2.2, hr.2.1, rfl, rfl⟩

theorem meets_createRevisionRef :
    Meets (· = r₀) (createRevisionRef engine fault fault' revision prefixLength commit log)
      (fun published r => Retains r₀ r ∧ published.branchRef.isOrphan ∧
        r.branches.get? published.branchRef = some commit ∧ published.doltCommitHash = commit)
      (Aborts (Retains r₀) stale) := by
  refine meets_doltBranch.bind fun _ => ?_
  refine (tolerates_aborts.value fun _ hr => hr.1).bind fun contentHash => meets_of_and fun _ => ?_
  exact meets_pure fun _ hr => ⟨hr.1, rfl, hr.2.1, rfl⟩

/-- Removing a branch keeps what its removal does. -/
theorem meets_removeBranchIfPresent_of {I : Repository Db → Prop} {E : Stop → Repository Db → Prop}
    (hlisting : Tolerates fault I I E) (hdeleting : Tolerates fault' I I E)
    (hactive : ∀ message r, I r → r.active = name → E (.thrown (.failure message)) r)
    (herase : ∀ r, I r → r.active ≠ name → I { r with branches := r.branches.erase name }) :
    KeepsOr I (removeBranchIfPresent fault fault' name) E := by
  refine bind (hlisting.read (fun r => r.branches.entries) fun _ => id) fun branches =>
    meets_ite (fun _ => ?_) fun _ => meets_pure fun _ hr => hr.2
  refine hdeleting.run (meets_get_bind fun r hr => meets_ite (fun hname => ?_) fun hname => ?_)
    (fun _ hr => hr.2) fun _ _ => id
  · exact meets_throw fun s hs => hs ▸ hactive _ r hr.2 hname
  · exact meets_set fun _ => herase r hr.2 hname

end Retains

/-! ## The candidate -/

/-- Applies transactions to a snapshot, from an index on. -/
def replay (engine : Engine Db) :
    ℕ → Snapshot Db → List AdmittedTransaction → Except String (Snapshot Db)
  | _, snapshot, [] => return snapshot
  | index, snapshot, transaction :: transactions => do
    replay engine (index + 1) (← applyTransaction engine snapshot transaction index) transactions

/-- Rows are only added to a log. -/
theorem log_prefix_of_replay {engine : Engine Db}
    {transactions : List AdmittedTransaction} {index : ℕ} {snapshot snapshot' : Snapshot Db}
    (h : replay engine index snapshot transactions = .ok snapshot') :
    snapshot.log <+: snapshot'.log := by
  induction transactions generalizing index snapshot with
  | nil =>
    cases h
    exact prefix_rfl
  | cons transaction transactions ih =>
    obtain ⟨next, hnext, h⟩ := bind_eq_ok_iff.1 h
    obtain ⟨⟨content, ended⟩, _, hnext⟩ := bind_eq_ok_iff.1 hnext
    cases hnext
    exact (prefix_append _ _).trans (ih h)

/-- The snapshot is the result of a plan for the transactions. -/
structure Candidate (engine : Engine Db) (transactions : List AdmittedTransaction)
    (plan : Plan Db) (snapshot : Snapshot Db) : Prop where
  base : verifyReplayBase plan.baseRef.snapshot.log transactions plan.replayFrom = .ok ()
  replayed : replay engine plan.replayFrom plan.baseRef.snapshot
    (transactions.drop plan.replayFrom) = .ok snapshot
  desired : verifyDesiredLog snapshot.log transactions = .ok ()

section Candidate

variable {engine : Engine Db} {faults : Faults}
  {transactions : List AdmittedTransaction} {r₀ : Repository Db}
  {w : Snapshot Db} {stale : Prop} {fault : Option Fault}

theorem neverStale_verifyNextLogIndex {log : List TransactionLogRow} {index : ℕ} :
    NeverStale (verifyNextLogIndex log index) := by
  intro e h
  unfold verifyNextLogIndex at h
  split_ifs at h <;> cases h
  exact id

theorem neverStale_verifyDesiredLog {log : List TransactionLogRow} :
    NeverStale (verifyDesiredLog log transactions) := by
  intro e h
  unfold verifyDesiredLog at h
  split_ifs at h <;> cases h <;> exact id

/-- What a replay keeps of a repository with the working set `w`, and what it leaves if it ends
    early. -/
structure Walk (faults : Faults) (W : Snapshot Db → Repository Db → Prop)
    (E : Stop → Repository Db → Prop) : Prop where
  fault : ∀ operation, ∀ f ∈ faults operation, ∀ w r, W w r → E f.stop r
  thrown : ∀ e, ¬e.IsStale → ∀ w r, W w r → E (.thrown e) r
  working : ∀ w r, W w r → r.working = w
  write : ∀ w r, W w r → ∀ w', W w' { r with working := w' }
  commit : ∀ w r, W w r → W w { r with
    branches := r.branches.set r.active ⟨r.nextHash, r.working⟩, nextHash := r.nextHash + 1 }

section Walk

variable {W : Snapshot Db → Repository Db → Prop}
  {E : Stop → Repository Db → Prop} (h : Walk faults W E)

include h

theorem Walk.tolerates (operation : Operation) :
    Tolerates (faults operation) (fun r => ∃ w, W w r) (fun r => ∃ w, W w r) E :=
  tolerates_of fun f hf r ⟨w, hr⟩ => h.fault operation f hf w r hr

theorem Walk.meets_read {α : Type} (operation : Operation) (g : Snapshot Db → α) :
    Meets (W w) (attempt (faults operation) (get >>= fun r => pure (g r.working)))
      (fun a r => a = g w ∧ W w r) E := by
  refine ((h.tolerates operation).read (P := W w) (fun r => g r.working) fun r hr => ⟨w, hr⟩).mono_result
    fun a r hr => ⟨?_, hr.2⟩
  rw [hr.1, h.working w r hr.2]

theorem Walk.meets_check {α : Type} {result : Except MaterializerError α}
    (hresult : NeverStale result) :
    Meets (W w) (check result) (fun a r => result = .ok a ∧ W w r) E :=
  meets_check_of fun e he => h.thrown e (hresult e he) w

/-- The working set follows the replay. -/
theorem Walk.meets_replayFrom {index : ℕ} :
    Meets (W w) (replayFrom engine faults index transactions)
      (fun _ r => ∃ w', replay engine index w transactions = .ok w' ∧ W w' r) E := by
  induction transactions generalizing index w with
  | nil => exact meets_pure fun r hr => ⟨w, rfl, hr⟩
  | cons transaction transactions ih =>
    refine (h.meets_read _ Snapshot.log).bind_of fun log _ => ?_
    refine (h.meets_check neverStale_verifyNextLogIndex).bind_of fun _ _ => ?_
    -- The working set after this transaction is what the engine made of the one before.
    refine bind (Q := fun _ r => ∃ w',
      applyTransaction engine w transaction index = .ok w' ∧ W w' r) ?_ fun _ => ?_
    · refine (h.tolerates _).run (meets_get_bind fun r hr => ?_) (fun _ hr => ⟨w, hr⟩)
        fun _ _ ⟨w', _, hr⟩ => ⟨w', hr⟩
      refine (meets_check_of (P := (· = r)) fun e he s hs =>
        h.thrown e (neverStale_external e he) w s (hs ▸ hr)).bind fun w' => ?_
      refine meets_set fun ⟨s, hw', _⟩ => ⟨w', ?_, h.write w r hr w'⟩
      rwa [external_eq_ok_iff, h.working w r hr] at hw'
    · refine meets_of_forall fun r ⟨w', hw', hr⟩ => ?_
      refine (ih (w := w')).weaken (fun s hs => hs ▸ hr) ?_ fun _ _ => id
      rintro _ s ⟨w'', hw'', hs⟩
      refine ⟨w'', ?_, hs⟩
      rw [replay, hw']
      exact hw''

/-- A replay that ends has committed a candidate, which passes the checks. -/
theorem Walk.meets_replayOnBranch {plan : Plan Db} {branch : BranchName}
    (hbase : r₀.branches.get? branch = some plan.baseRef)
    (hstart : ∀ f ∈ faults .checkoutReplayBranch, E f.stop r₀) (hcheckout : W plan.baseRef.snapshot
      { r₀ with active := branch, working := plan.baseRef.snapshot })
    (hstale : ∀ e, verifyReplayBase plan.baseRef.snapshot.log transactions plan.replayFrom = .error e →
      ∀ r, W plan.baseRef.snapshot r → E (.thrown e) r) :
    Meets (· = r₀) (replayOnBranch engine faults transactions plan branch)
      (fun commit r => (Candidate engine transactions plan commit.snapshot ∧
          external (engine.verifyDatabaseState commit.snapshot.content) = .ok () ∧
          verifyLogResultIntegrity engine commit.snapshot.log = .ok ()) ∧
        (∃ r', W commit.snapshot r' ∧ commit.hash = r'.nextHash) ∧
        commit.hash < r.nextHash ∧ W commit.snapshot r) E := by
  refine bind (Q := fun _ => W plan.baseRef.snapshot) ?_ fun _ => ?_
  · refine Tolerates.run ⟨fun f hf _ r (hr : r = r₀) => hr ▸ hstart f hf, (h.tolerates _).after⟩
      (meets_get_bind fun r hr => ?_) (fun _ => id) fun _ _ hr => ⟨_, hr⟩
    subst hr
    rw [hbase]
    exact meets_set fun _ => hcheckout
  refine (h.meets_read _ Snapshot.content).bind_of fun content _ => ?_
  refine (h.meets_check neverStale_external).bind_of fun _ _ => ?_
  refine (h.meets_read _ Snapshot.log).bind_of fun replayLog hlog => ?_
  refine (h.meets_check neverStale_external).bind_of fun _ _ => ?_
  -- Only here, a checkpoint may turn out to be stale.
  subst hlog
  refine (meets_check_of hstale).bind_of fun _ hverified => ?_
  refine h.meets_replayFrom.bind fun _ => meets_of_forall fun r ⟨w, hreplayed, hr⟩ => ?_
  refine mono_start (P := W w) ?_ fun _ hs => hs ▸ hr
  refine (h.meets_read _ Snapshot.log).bind_of fun log hlog => ?_
  refine (h.meets_check neverStale_external).bind_of fun _ hrows => ?_
  refine (h.meets_check neverStale_verifyDesiredLog).bind_of fun _ hdesired => ?_
  refine (h.meets_read _ Snapshot.content).bind_of fun content hcontent => ?_
  refine (h.meets_check neverStale_external).bind_of fun _ hstate => ?_
  subst hlog hcontent
  refine bind (Q := fun commit r => (commit.snapshot = w ∧
    ∃ r', W w r' ∧ commit.hash = r'.nextHash) ∧ commit.hash < r.nextHash ∧ W w r) ?_
    fun commit => meets_of_and fun ⟨hcommit, hhash⟩ => ?_
  · refine (h.tolerates _).run (meets_get_bind fun r hr => ?_) (fun _ hr => ⟨w, hr⟩)
      fun _ _ hr => ⟨w, hr.2.2⟩
    refine bind (Q := fun _ r' => r.nextHash < r'.nextHash ∧ W w r')
      (meets_set fun _ => ⟨Nat.lt_succ_self _, h.commit w r hr⟩) fun _ => ?_
    exact meets_pure fun r' hr' => ⟨⟨h.working w r hr, r, hr, rfl⟩, hr'⟩
  subst hcommit
  have hwalk (r : Repository Db) (hr : commit.hash < r.nextHash ∧ W commit.snapshot r) :
      ∃ w, W w r := ⟨_, hr.2⟩
  refine ((h.tolerates _).value hwalk).bind_of fun contentHash _ => ?_
  refine ((h.tolerates _).read (fun r => engine.doltHashOf r.working) hwalk).bind fun workingHash => ?_
  refine (meets_check_of fun e he r hr =>
    h.thrown e (neverStale_verifyContentHash id e he) _ r hr.2.2).bind fun _ => meets_of_and fun _ => ?_
  refine ((h.tolerates _).unit fun r hr => hwalk r hr.2).bind fun _ => meets_pure fun r hr => ?_
  exact ⟨⟨⟨hverified, hreplayed, hdesired⟩, hstate, hrows⟩, hhash, hr.2⟩

end Walk

/-- A branch that is no checkpoint is checked out, with the working set `w`. -/
structure Working (r₀ : Repository Db) (w : Snapshot Db) (r : Repository Db) : Prop where
  retains : Retains r₀ r
  active : ¬r.active.IsCheckpoint
  working : r.working = w

theorem walk_working : Walk faults (Working r₀) (Aborts (Retains r₀) stale) where
  fault _ f _ _ _ hr := ⟨hr.retains, fun hstale => absurd hstale f.not_isStale_stop⟩
  thrown _ he _ _ hr := ⟨hr.retains, fun hstale => absurd hstale he⟩
  working _ _ hr := hr.working
  write _ _ hr _ := ⟨hr.retains, hr.active, rfl⟩
  commit _ _ hr := ⟨hr.retains.set hr.active, hr.active, hr.working⟩

end Candidate

/-! ## Before the head moves -/

section Prepared

variable {engine : Engine Db} {options : MaterializerOptions}
  {faults : Faults} {transactions : List AdmittedTransaction} {nonce : String}
  {plan : Plan Db} {commit : Commit Db}
  {m₀ : DeterministicMaterializer Db} {stale : Prop} {fault : Option Fault}
variable {s : CallState Db} {prefixLength : ℕ}
  {published : PublishedRef Db}

/-- A call of `m₀` has changed nothing that the materializer has in memory, and its checkpoints
    have their branches. What the handler would remove is not one of them. -/
structure Prepared (m₀ : DeterministicMaterializer Db) (s : CallState Db) : Prop where
  memory : s.this = { m₀ with repository := s.this.repository }
  retains : Retains m₀.repository s.this.repository
  replayBranch : ∀ name ∈ s.locals.replayBranch, ¬name.IsCheckpoint
  revisionBranch : ∀ name ∈ s.locals.revisionBranch, ¬name.IsCheckpoint
  newCheckpoint : ∀ checkpoint ∈ s.locals.newCheckpoint, checkpoint.Named ∧
    m₀.repository.branches.get? checkpoint.branchRef = none ∧
    s.this.repository.branches.get? checkpoint.branchRef = some checkpoint.doltCommitHash

variable {r : Repository Db}

theorem Prepared.setRepository (hs : Prepared m₀ s) (hr : Retains s.this.repository r) :
    Prepared m₀ (s.setRepository r) where
  memory := by rw [CallState.setRepository, hs.memory]
  retains := hs.retains.trans hr
  replayBranch := hs.replayBranch
  revisionBranch := hs.revisionBranch
  newCheckpoint checkpoint hc := by
    obtain ⟨hname, hnew, hget⟩ := hs.newCheckpoint checkpoint hc
    exact ⟨hname, hnew, hr _ _ hname.isCheckpoint hget⟩

/-- A procedure on the repository, from the state `s`. -/
theorem meets_onRepository {α : Type} {x : StoreM Db α}
    {Q : α → Repository Db → Prop} (hs : Prepared m₀ s)
    (h : Meets (· = s.this.repository) x (fun a r => Retains s.this.repository r ∧ Q a r)
      (Aborts (Retains s.this.repository) stale)) : Meets (· = s) (onRepository x)
      (fun a s' => ∃ r, s' = s.setRepository r ∧ Retains s.this.repository r ∧ Q a r)
      (Aborts (Prepared m₀) stale) := by
  refine meets_zoom fun s' hs' => ?_
  subst hs'
  exact h.weaken (fun _ => id) (fun a r hr => ⟨r, rfl, hr.1, hr.2⟩) fun stop r hr =>
    ⟨hs.setRepository hr.1, hr.2⟩

/-- A replay that ends has committed a candidate. It is refused because of its checkpoint
    only if the log of the base is not that of the first transactions. -/
theorem meets_replayOnBranch {r₀ : Repository Db} {branch : BranchName}
    (hbranch : ¬branch.IsCheckpoint) (hbase : r₀.branches.get? branch = some plan.baseRef)
    (hstale : verifyReplayBase plan.baseRef.snapshot.log transactions plan.replayFrom ≠ .ok () →
      stale) : Meets (· = r₀) (replayOnBranch engine faults transactions plan branch)
      (fun commit r => Retains r₀ r ∧ Candidate engine transactions plan commit.snapshot)
      (Aborts (Retains r₀) stale) := by
  refine (walk_working.meets_replayOnBranch hbase ?_ ⟨Retains.refl r₀, hbranch, rfl⟩ ?_).mono_result
    fun commit r hr => ⟨hr.2.2.2.retains, hr.1.1⟩
  · exact fun f _ => ⟨Retains.refl r₀, fun h => absurd h f.not_isStale_stop⟩
  · exact fun e he r hr => ⟨hr.retains, fun _ => hstale (by rw [he]; exact nofun)⟩

theorem meets_commitCandidate
    (hstale : verifyReplayBase plan.baseRef.snapshot.log transactions plan.replayFrom ≠ .ok () →
      stale) : Meets (· = ⟨m₀, {}⟩) (commitCandidate engine faults transactions nonce plan)
      (fun commit s => Candidate engine transactions plan commit.snapshot ∧ Prepared m₀ s ∧
        s.locals.newCheckpoint = none) (Aborts (Prepared m₀) stale) := by
  let s₁ : CallState Db := ⟨m₀, { replayBaseRef := some plan.baseRef }⟩
  have hs₁ : Prepared m₀ s₁ :=
    ⟨rfl, Retains.refl _, nofun, nofun, nofun⟩
  refine bind (Q := fun _ => (· = s₁)) (meets_modify fun s hs => hs ▸ rfl) fun _ => ?_
  refine bind (meets_onRepository (Q := fun branch r => ¬branch.IsCheckpoint ∧
    r.branches.get? branch = some plan.baseRef) hs₁ (meets_doltBranch.bind fun _ =>
      meets_pure fun _ hr => ⟨hr.1, id, hr.2.1⟩)) fun branch => ?_
  refine meets_of_forall fun s ⟨r, hs, hr, hbranch, hbase⟩ => ?_
  -- The branch of the replay is known to the handler from here on.
  let s₂ : CallState Db :=
    ⟨{ m₀ with repository := r }, { replayBaseRef := some plan.baseRef, replayBranch := some branch }⟩
  have hs₂ : Prepared m₀ s₂ := by
    refine ⟨rfl, hr, fun name hname => ?_, nofun, nofun⟩
    obtain rfl : branch = name := some.inj hname
    exact hbranch
  refine bind (Q := fun _ => (· = s₂)) (meets_modify fun s' hs' => ?_) fun _ => ?_
  · rw [hs', hs]
    rfl
  refine (meets_onRepository hs₂ (meets_replayOnBranch hbranch hbase hstale)).mono_result ?_
  rintro commit s' ⟨r', rfl, hr', hcandidate⟩
  exact ⟨hcandidate, hs₂.setRepository hr', rfl⟩

/-- A call has prepared the checkpoint of a candidate, if one is due. -/
structure Referenced (m₀ : DeterministicMaterializer Db) (commit : Commit Db)
    (prefixLength : ℕ) (s : CallState Db) : Prop extends Prepared m₀ s where
  due : ∀ checkpoint ∈ s.locals.newCheckpoint,
    checkpoint.doltCommitHash = commit ∧ checkpoint.prefixLength = prefixLength

theorem meets_createDueCheckpoint : Meets (fun s => Prepared m₀ s ∧ s.locals.newCheckpoint = none)
      (createDueCheckpoint engine options faults transactions plan commit)
      (fun _ => Referenced m₀ commit transactions.length) (Aborts (Prepared m₀) stale) := by
  refine meets_get_bind fun s ⟨hs, hnone⟩ => meets_ite (fun _ => ?_) fun _ => ?_
  · refine (meets_onRepository hs meets_createCheckpointRef).bind fun checkpoint =>
      meets_modify fun s' ⟨r, hs', hr, hname, hnew, hget, hcommit, hlength⟩ => ?_
    subst hs'
    have hs' := hs.setRepository hr
    refine ⟨{ hs' with newCheckpoint := ?_ }, ?_⟩
    · intro checkpoint' h
      obtain rfl : checkpoint = checkpoint' := some.inj h
      refine ⟨hname, ?_, hcommit ▸ hget⟩
      refine eq_none_iff_forall_ne_some.2 fun commit' h₀ => ?_
      rw [hs.retains _ commit' hname.isCheckpoint h₀] at hnew
      cases hnew
    · intro checkpoint' h
      obtain rfl : checkpoint = checkpoint' := some.inj h
      exact ⟨hcommit, hlength⟩
  · refine meets_pure fun s' hs' => ⟨hs' ▸ hs, fun checkpoint h => ?_⟩
    rw [hs', hnone] at h
    cases h

theorem Referenced.setRepository (hs : Referenced m₀ commit prefixLength s)
    (hr : Retains s.this.repository r) : Referenced m₀ commit prefixLength (s.setRepository r) :=
  ⟨hs.toPrepared.setRepository hr, hs.due⟩

/-- The branch of the candidate is there. -/
def Reachable (m₀ : DeterministicMaterializer Db) (commit : Commit Db)
    (prefixLength : ℕ) (branch : BranchName) (s : CallState Db) : Prop :=
  Referenced m₀ commit prefixLength s ∧ s.this.repository.branches.get? branch = some commit

theorem meets_createRevision : Meets (Referenced m₀ commit transactions.length)
      (createRevision engine faults transactions plan commit)
      (fun published s => published.doltCommitHash = commit ∧
        Reachable m₀ commit transactions.length published.branchRef s)
      (Aborts (Prepared m₀) stale) := by
  refine meets_of_forall fun s hs => ?_
  refine (meets_onRepository hs.toPrepared meets_createRevisionRef).bind fun published => ?_
  refine bind (Q := fun _ s => published.doltCommitHash = commit ∧
    Reachable m₀ commit transactions.length published.branchRef s) ?_ fun _ =>
      meets_of_and fun hcommit => ?_
  · refine meets_modify fun s' ⟨r, hs', hr, hname, hget, hcommit⟩ => ⟨hcommit, ?_⟩
    subst hs'
    refine ⟨{ hs.setRepository hr with revisionBranch := fun name h => ?_ }, hget⟩
    obtain rfl : published.branchRef = name := some.inj h
    exact BranchName.not_isCheckpoint_of_isOrphan hname
  have hprepared : ∀ s, Reachable m₀ commit transactions.length published.branchRef s →
      Prepared m₀ s := fun s hs => hs.1.toPrepared
  refine (meets_check hprepared fun e he h => absurd h (neverStale_verifyContentHash id e he)).bind_of
    fun _ _ => ?_
  exact (tolerates_aborts.unit hprepared).bind fun _ => meets_pure fun s hs => ⟨hcommit, hs⟩

theorem neverStale_verifyPublishedLog {log : List TransactionLogRow} :
    NeverStale (verifyPublishedLog engine published log) := by
  intro e h
  unfold verifyPublishedLog at h
  split_ifs at h <;> cases h
  exact id

/-- The reader of the candidate sees the candidate. -/
theorem meets_openCandidateReader_of {I : CallState Db → Prop} {E : Stop → CallState Db → Prop}
    (hfaults : ∀ operation, Tolerates (faults operation) I I E)
    (hthrown : ∀ e, ¬e.IsStale → ∀ s, I s → E (.thrown e) s)
    (hget : ∀ s, I s → s.this.repository.branches.get? published.branchRef = some commit)
    (hopened : ∀ s, I s → I { s with locals := { s.locals with candidateReader := true } }) :
    Meets I (openCandidateReader engine faults commit published)
      (fun reader s => reader = commit.snapshot ∧ I s) E := by
  have hI : ∀ s, I s → I s := fun _ => id
  have hcheck {α : Type} {result : Except MaterializerError α} (h : NeverStale result) :
      Meets I (check result) (fun a s => result = .ok a ∧ I s) E :=
    meets_check_of fun e he => hthrown e (h e he)
  refine ((hfaults _).unit hI).bind fun _ => ?_
  refine bind (Q := fun _ => I) (meets_modify hopened) fun _ => ?_
  refine bind (Q := fun reader s => reader = commit.snapshot ∧ I s) ?_ fun reader =>
    meets_of_and fun hreader => ?_
  · refine (hfaults _).run (meets_get_bind fun s hs => ?_) hI fun _ _ hs => hs.2
    rw [hget s hs]
    exact meets_pure fun s' hs' => ⟨rfl, hs' ▸ hs⟩
  refine ((hfaults _).unit hI).bind fun _ => ?_
  refine (hcheck neverStale_external).bind_of fun _ _ => ?_
  refine ((hfaults _).unit hI).bind fun _ => ?_
  refine (hcheck neverStale_external).bind_of fun _ _ => ?_
  refine (hcheck neverStale_verifyPublishedLog).bind_of fun _ _ => ?_
  refine ((hfaults _).unit hI).bind fun _ => ?_
  refine (hcheck (neverStale_verifyContentHash id)).bind_of fun _ _ => ?_
  exact ((hfaults _).unit hI).bind fun _ => meets_pure fun s hs => ⟨hreader, hs⟩

theorem meets_openCandidateReader : Meets (Reachable m₀ commit prefixLength published.branchRef)
      (openCandidateReader engine faults commit published)
      (fun reader s => reader = commit.snapshot ∧ Referenced m₀ commit prefixLength s)
      (Aborts (Prepared m₀) stale) := by
  refine (meets_openCandidateReader_of (I := Reachable m₀ commit prefixLength published.branchRef)
    (E := Aborts (Prepared m₀) stale) (fun _ => tolerates_of fun f _ s hs => ?_) (fun e he s hs => ?_)
    (fun s hs => hs.2) fun s hs => ?_).mono_result fun _ _ hs => ⟨hs.1, hs.2.1⟩
  · exact ⟨hs.1.toPrepared, fun h => absurd h f.not_isStale_stop⟩
  · exact ⟨hs.1.toPrepared, fun h => absurd h he⟩
  · exact ⟨{ hs.1 with }, hs.2⟩

/-- A call has moved the head. -/
structure Moved (m₀ : DeterministicMaterializer Db) (commit : Commit Db)
    (prefixLength : ℕ) (s : CallState Db) : Prop extends Referenced m₀ commit prefixLength s where
  publishedMoved : s.locals.publishedMoved
  head : s.this.repository.branches.has .head

/-- Moving the head leaves checkpoints alone. -/
theorem meets_publishHead : Meets (Referenced m₀ commit prefixLength) (publishHead faults published)
      (fun _ => Moved m₀ commit prefixLength) (Aborts (Prepared m₀) stale) := by
  refine meets_of_forall fun s hs => ?_
  have hrefl : ∀ r, r = s.this.repository → Retains s.this.repository r :=
    fun r hr => hr ▸ Retains.refl r
  have hmoved : Meets (· = s.this.repository) (publishRef (faults .publishHead) published)
      (fun _ r => Retains s.this.repository r ∧ r.branches.has .head)
      (Aborts (Retains s.this.repository) stale) := by
    refine tolerates_aborts.run (meets_modify fun r hr => ⟨(hrefl r hr).set id, ?_⟩) hrefl
      fun _ _ hr => hr.1
    exact has_iff.2 ⟨_, get?_set_self ..⟩
  refine (meets_onRepository hs.toPrepared hmoved).bind fun _ => ?_
  refine bind (Q := fun _ => Moved m₀ commit prefixLength) ?_
    fun _ => tolerates_aborts.unit fun s hs => hs.toPrepared
  refine meets_modify fun s' ⟨r, hs', hr, hhead⟩ => ?_
  subst hs'
  have hs' := hs.setRepository hr
  exact ⟨{ hs' with }, rfl, hhead⟩

end Prepared

/-! ## After the head moved -/

/-- An operation fails between the change of the memory and the pruning of the checkpoints. -/
def SwapFails (faults : Faults) : Prop :=
  faults .closeOldReader ≠ none ∨ faults (.publicationFault .afterReaderSwap) ≠ none ∨
    faults .checkoutHead ≠ none

/-- The removal of a checkpoint fails. -/
def PruneFails (faults : Faults) : Prop :=
  ∃ branchRef, faults (.listForCheckpoint branchRef) ≠ none ∨
    faults (.deleteCheckpoint branchRef) ≠ none

/-- The checkpoints have their branches. -/
def Holds (checkpoints : List (MaterializerCheckpointInfo Db)) (r : Repository Db) : Prop :=
  ∀ checkpoint ∈ checkpoints, checkpoint.Named ∧
    r.branches.get? checkpoint.branchRef = some checkpoint.doltCommitHash

section Published

variable {engine : Engine Db} {options : MaterializerOptions}
  {faults : Faults} {transactions : List AdmittedTransaction}
  {commit : Commit Db} {published : PublishedRef Db}
  {checkpoints retained : List (MaterializerCheckpointInfo Db)}
  {m₀ : DeterministicMaterializer Db} {stale : Prop}
variable {checkpoint : MaterializerCheckpointInfo Db}

/-- What a call changes in memory before it comes to the checkpoints. -/
def DeterministicMaterializer.swap (m₀ : DeterministicMaterializer Db)
    (snapshot : Snapshot Db) (published : PublishedRef Db)
    (transactions : List AdmittedTransaction) : DeterministicMaterializer Db :=
  { m₀ with
    reader := snapshot
    published := published
    log := snapshot.log
    order := transactions.map (·.txId) }

/-- A call has changed the memory of `m₀`, but not its checkpoints. -/
structure Swapped (m₀ : DeterministicMaterializer Db) (commit : Commit Db)
    (published : PublishedRef Db) (transactions : List AdmittedTransaction)
    (s : CallState Db) : Prop where
  memory : s.this =
    { m₀.swap commit.snapshot published transactions with repository := s.this.repository }
  retains : Retains m₀.repository s.this.repository
  newCheckpoint : Holds s.locals.newCheckpoint.toList s.this.repository
  due : ∀ checkpoint ∈ s.locals.newCheckpoint,
    checkpoint.doltCommitHash = commit ∧ checkpoint.prefixLength = transactions.length
  publishedMoved : s.locals.publishedMoved
  head : s.this.repository.branches.has .head

variable (stale) in
theorem meets_swapReader : Meets (Moved m₀ commit transactions.length)
      (swapReader faults transactions commit.snapshot published)
      (fun _ => Swapped m₀ commit published transactions)
      (Aborts (fun s => Swapped m₀ commit published transactions s ∧ SwapFails faults) stale) := by
  refine bind (Q := fun _ => Swapped m₀ commit published transactions) ?_ fun _ => ?_
  · refine meets_modify fun s hs => ⟨?_, hs.retains, ?_, hs.due, hs.publishedMoved, hs.head⟩
    · rw [hs.memory]
      rfl
    · intro checkpoint hc
      obtain ⟨hname, _, hget⟩ := hs.newCheckpoint checkpoint (mem_toList.1 hc)
      exact ⟨hname, hget⟩
  exact ((tolerates_fails Or.inl).unit fun _ => id).bind fun _ =>
    (tolerates_fails fun h => Or.inr (Or.inl h)).unit fun _ => id

/-- The checkpoints that pruning leaves, of given ones. -/
def pruned (options : MaterializerOptions) (checkpoints : List (MaterializerCheckpointInfo Db)) :
    List (MaterializerCheckpointInfo Db) :=
  keptCheckpoints options.retainCheckpoints
    (checkpoints.insertionSort (·.prefixLength ≤ ·.prefixLength))

theorem mem_withGenesis {genesis : Option (MaterializerCheckpointInfo Db)}
    (h : checkpoint ∈ withGenesis genesis checkpoints) :
    genesis = some checkpoint ∨ checkpoint ∈ checkpoints := by
  cases genesis with
  | none => exact Or.inr h
  | some genesis =>
    simp only [withGenesis] at h
    split at h
    · exact Or.inr h
    · rcases mem_cons.1 h with rfl | h
      · exact Or.inl rfl
      · exact Or.inr h

theorem exists_mem_withGenesis (genesis : MaterializerCheckpointInfo Db) :
    ∃ c ∈ withGenesis (some genesis) checkpoints,
      c = genesis ∨ c ∈ checkpoints ∧ c.branchRef = genesis.branchRef := by
  simp only [withGenesis]
  split
  · rename_i hany
    obtain ⟨c, hc, hname⟩ := any_eq_true.1 hany
    exact ⟨c, hc, Or.inr ⟨hc, by simpa using hname⟩⟩
  · exact ⟨genesis, mem_cons_self, Or.inl rfl⟩

theorem mem_of_mem_keptCheckpoints {n : ℕ}
    (h : checkpoint ∈ keptCheckpoints n checkpoints) : checkpoint ∈ checkpoints := by
  rcases mem_withGenesis h with h | h
  · exact mem_of_find?_eq_some h
  · exact mem_of_mem_drop h

theorem mem_of_mem_pruned (h : checkpoint ∈ pruned options checkpoints) :
    checkpoint ∈ checkpoints :=
  (mem_insertionSort _).1 (mem_of_mem_keptCheckpoints h)

variable (options) in
/-- Pruning keeps a checkpoint before all transactions. -/
theorem genesis_mem_pruned (hnamed : ∀ c ∈ checkpoints, c.Named)
    (h : ∃ c ∈ checkpoints, c.prefixLength = 0) :
    ∃ c ∈ pruned options checkpoints, c.prefixLength = 0 := by
  obtain ⟨c, hc, hzero⟩ := h
  have hsome : ((checkpoints.insertionSort (·.prefixLength ≤ ·.prefixLength)).find?
      (·.prefixLength = 0)).isSome :=
    find?_isSome.2 ⟨c, (mem_insertionSort _).2 hc, by simpa using hzero⟩
  obtain ⟨genesis, hgenesis⟩ := isSome_iff_exists.1 hsome
  have hmem := (mem_insertionSort _).1 (mem_of_find?_eq_some hgenesis)
  have hgenesis₀ : genesis.prefixLength = 0 := by simpa using find?_some hgenesis
  rw [pruned, keptCheckpoints, hgenesis]
  obtain ⟨c', hc', rfl | ⟨hkept, hname⟩⟩ := exists_mem_withGenesis genesis
  · exact ⟨c', hc', hgenesis₀⟩
  · -- The checkpoint before all transactions is among the longest ones.
    have hc'mem := (mem_insertionSort _).1 (mem_of_mem_drop hkept)
    exact ⟨c', hc', ((hnamed c' hc'mem).prefixLength_eq (hnamed genesis hmem) hname).trans hgenesis₀⟩

/-- Removing the branch of another checkpoint fails only if an operation does. -/
theorem meets_removeCheckpoint {branchRef : BranchName} (hname : branchRef.IsCheckpoint)
    (hother : ∀ c ∈ checkpoints, c.branchRef ≠ branchRef) :
    Meets (fun r => r.active = .head ∧ Holds checkpoints r)
      (removeBranchIfPresent (faults (.listForCheckpoint branchRef))
        (faults (.deleteCheckpoint branchRef)) branchRef)
      (fun _ r => r.active = .head ∧ Holds checkpoints r) (fun _ _ => PruneFails faults) := by
  refine meets_removeBranchIfPresent_of (tolerates_of fun f hf _ _ => ⟨branchRef, Or.inl (hf ▸ nofun)⟩)
    (tolerates_of fun f hf _ _ => ⟨branchRef, Or.inr (hf ▸ nofun)⟩) (fun _ r hr hactive => ?_)
    fun r hr _ => ⟨hr.1, fun c hc => ⟨(hr.2 c hc).1, ?_⟩⟩
  · -- The head is checked out, and the branch is not the head.
    rw [← hactive, hr.1] at hname
    exact hname.elim
  · rw [get?_erase, if_neg (hother c hc)]
    exact (hr.2 c hc).2

/-- Pruning deletes no branch of a checkpoint that it keeps, and fails only if an operation does. -/
theorem meets_pruneCheckpoints : Meets (fun r => r.active = .head ∧ Holds checkpoints r)
      (pruneCheckpoints options faults checkpoints)
      (fun keep r => keep = pruned options checkpoints ∧ Holds keep r)
      (fun _ _ => PruneFails faults) := by
  refine meets_of_forall fun r hr => ?_
  have hkept : Holds (pruned options checkpoints) r := fun c hc => hr.2 c (mem_of_mem_pruned hc)
  refine bind (Q := fun _ r => r.active = .head ∧ Holds (pruned options checkpoints) r) ?_
    fun _ => meets_pure fun r hr => ⟨rfl, hr.2⟩
  refine mono_start (P := fun r => r.active = .head ∧ Holds (pruned options checkpoints) r) ?_
    fun s hs => hs ▸ ⟨hr.1, hkept⟩
  refine meets_forM fun c hc => meets_ite (fun hother => ?_) fun _ => meets_pure fun _ => id
  refine meets_removeCheckpoint (hr.2 c ((mem_insertionSort _).1 hc)).1.isCheckpoint fun c' hc' => ?_
  simpa using all_eq_true.1 hother c' hc'

/-- The same, for checkpoints that have their branches only if `held`. -/
theorem meets_pruneCheckpoints_of {held : Prop} {r : Repository Db}
    (h : held → r.active = .head ∧ Holds checkpoints r) :
    Meets (· = r) (pruneCheckpoints options faults checkpoints)
      (fun keep r => keep = pruned options checkpoints ∧ (held → Holds keep r))
      (fun _ _ => held → PruneFails faults) := by
  by_cases hheld : held
  · exact meets_pruneCheckpoints.weaken (fun _ hs => hs ▸ h hheld)
      (fun _ _ hr => ⟨hr.1, fun _ => hr.2⟩) fun _ _ hfails _ => hfails
  · refine bind (Q := fun _ _ => True) (meets_of (fun _ _ _ _ _ => trivial)
      fun _ _ _ _ _ h => absurd h hheld) fun _ => meets_pure fun _ _ => ⟨rfl, fun h => absurd h hheld⟩

variable {deleting : BranchName → Option Fault} {activity listing : Option Fault}

/-- Removing what replays and revisions left behind keeps what the removal of such a branch does,
    other than that of the published revision. -/
theorem meets_cleanupOrphanBranches_of {I : Repository Db → Prop}
    (herase : ∀ r name, I r → name.isOrphan → name ≠ published.branchRef → r.active ≠ name →
      I { r with branches := r.branches.erase name }) :
    KeepsOr I (cleanupOrphanBranches activity listing deleting published retained) (fun _ => I) := by
  refine bind (tolerates_self.read Repository.active fun _ => id) fun active => ?_
  refine bind (tolerates_self.read (fun r : Repository Db => r.branches.entries)
    fun _ hr => hr.2) fun branches => ?_
  refine mono_start (P := I) ?_ fun _ hr => hr.2.2
  refine meets_forM fun (name, _) _ =>
    meets_ite (fun ⟨_, hretained, horphan⟩ => ?_) fun _ => meets_pure fun _ => id
  refine tolerates_self.run (meets_get_bind fun r hr => meets_ite (fun _ => ?_) fun hactive => ?_)
    (fun _ => id) fun _ _ => id
  · exact meets_throw fun s hs => hs ▸ hr
  · exact meets_set fun _ => herase r name hr horphan (fun h => hretained (by simp [h])) hactive

theorem meets_cleanupOrphanBranches :
    KeepsOr (Holds checkpoints) (cleanupOrphanBranches activity listing deleting published retained) (fun _ => Holds checkpoints) := by
  refine meets_cleanupOrphanBranches_of fun r name hr horphan _ _ c hc => ⟨(hr c hc).1, ?_⟩
  rw [get?_erase, if_neg]
  · exact (hr c hc).2
  · rintro rfl
    exact BranchName.not_isCheckpoint_of_isOrphan horphan (hr c hc).1.isCheckpoint

/-- How a call that moved the head leaves the materializer `m₀`: with the candidate in memory,
    and with the checkpoints that pruning kept or, after a failure, with those it had. -/
structure Finished (options : MaterializerOptions) (faults : Faults)
    (transactions : List AdmittedTransaction) (plan : Plan Db) (commit : Commit Db)
    (m₀ this : DeterministicMaterializer Db) : Prop where
  reader : this.reader = commit.snapshot
  published : this.published.doltCommitHash = commit
  log : this.log = commit.snapshot.log
  order : this.order = transactions.map (·.txId)
  checkpoints :
    this.checkpoints = m₀.checkpoints ∧ (Holds m₀.checkpoints m₀.repository →
      Retains m₀.repository this.repository ∧ SwapFails faults ∨ PruneFails faults) ∨
    ∃ new : List (MaterializerCheckpointInfo Db),
      (∀ c ∈ new, c.Named ∧ c.doltCommitHash = commit ∧ c.prefixLength = transactions.length) ∧
      this.checkpoints = pruned options (retainedBeforeInsertion plan m₀.checkpoints ++ new) ∧
      (Holds m₀.checkpoints m₀.repository → Holds this.checkpoints this.repository)

section Tail

variable {plan : Plan Db} {s : CallState Db}

/-- A call that has changed the memory, but not the checkpoints. -/
theorem Swapped.finished (hs : Swapped m₀ commit published transactions s)
    (hpublished : published.doltCommitHash = commit) {r : Repository Db}
    (h : Holds m₀.checkpoints m₀.repository →
      Retains m₀.repository r ∧ SwapFails faults ∨ PruneFails faults) :
    Finished options faults transactions plan commit m₀ (s.setRepository r).this where
  reader := by rw [setRepository, hs.memory]; rfl
  published := by rw [setRepository, hs.memory]; exact hpublished
  log := by rw [setRepository, hs.memory]; rfl
  order := by rw [setRepository, hs.memory]; rfl
  checkpoints := Or.inl ⟨by rw [setRepository, hs.memory]; rfl, h⟩

/-- The head can be checked out unless the operation fails. -/
theorem meets_checkoutHead (hs : Swapped m₀ commit published transactions s) :
    Meets (· = s) (onRepository (attempt (faults .checkoutHead) (doltCheckout .head)))
      (fun _ s' => ∃ r, s' = s.setRepository r ∧ r.branches = s.this.repository.branches ∧
        r.active = .head)
      (fun _ s' => ∃ r, s' = s.setRepository r ∧ r.branches = s.this.repository.branches ∧
        SwapFails faults) := by
  have hfails {f : Fault} (hf : f ∈ faults .checkoutHead) : SwapFails faults :=
    Or.inr (Or.inr (hf ▸ nofun))
  refine meets_zoom fun s' hs' => ?_
  subst hs'
  refine Tolerates.run ?_ (meets_get_bind fun r hr => ?_) (fun _ => id) fun _ _ => id
  · exact ⟨fun f hf _ r hr => ⟨r, rfl, by rw [hr], hfails hf⟩,
      fun f hf _ r ⟨r', hr', hbranches, _⟩ => ⟨r', hr', hbranches, hfails hf⟩⟩
  obtain ⟨head, hhead⟩ := has_iff.1 hs.head
  subst hr
  rw [hhead]
  exact meets_set fun _ => ⟨_, rfl, rfl, rfl⟩

/-- The checkpoints of `m₀` that a revision leaves, and the new one. -/
theorem Swapped.holds (hs : Swapped m₀ commit published transactions s)
    (h₀ : Holds m₀.checkpoints m₀.repository) :
    Holds (retainedBeforeInsertion plan m₀.checkpoints ++ s.locals.newCheckpoint.toList)
      s.this.repository := by
  intro c hc
  rcases mem_append.1 hc with hc | hc
  · obtain ⟨hname, hget⟩ := h₀ c (mem_of_mem_filter hc)
    exact ⟨hname, hs.retains _ _ hname.isCheckpoint hget⟩
  · exact hs.newCheckpoint c hc

/-- From the state `s`, a call has changed the memory of `m₀`, and has pruned its checkpoints. -/
structure Tidied (options : MaterializerOptions) (m₀ : DeterministicMaterializer Db)
    (commit : Commit Db) (published : PublishedRef Db) (transactions : List AdmittedTransaction)
    (retained : List (MaterializerCheckpointInfo Db)) (s s' : CallState Db) : Prop where
  memory : s'.this = { m₀.swap commit.snapshot published transactions with
    repository := s'.this.repository
    checkpoints := pruned options retained
    checkpointError := s'.this.checkpointError }
  holds : Holds m₀.checkpoints m₀.repository → Holds (pruned options retained) s'.this.repository
  locals : s'.locals = s.locals

theorem Tidied.finished {s' : CallState Db} (h : Tidied options m₀ commit published transactions
      (retainedBeforeInsertion plan m₀.checkpoints ++ retained) s s')
    (hpublished : published.doltCommitHash = commit)
    (hdue : ∀ c ∈ retained, c.Named ∧ c.doltCommitHash = commit ∧
      c.prefixLength = transactions.length) :
    Finished options faults transactions plan commit m₀ s'.this := by
  have hholds := h.holds
  rw [h.memory]
  exact ⟨rfl, hpublished, rfl, rfl, Or.inr ⟨retained, hdue, rfl, hholds⟩⟩

theorem meets_cleanup {activity listing : Option Fault} {deleting : BranchName → Option Fault} :
    KeepsOr (Tidied options m₀ commit published transactions retained s)
      (onRepository (cleanupOrphanBranches activity listing deleting published checkpoints))
      fun _ => Tidied options m₀ commit published transactions retained s := by
  refine meets_zoom fun s' hs' => ?_
  have hset (r : Repository Db)
      (hr : Holds m₀.checkpoints m₀.repository → Holds (pruned options retained) r) :
      Tidied options m₀ commit published transactions retained s (s'.setRepository r) :=
    ⟨by rw [setRepository, hs'.memory], hr, hs'.locals⟩
  by_cases hheld : Holds m₀.checkpoints m₀.repository
  · exact meets_cleanupOrphanBranches.weaken (fun r hr => hr ▸ hs'.holds hheld)
      (fun _ r hr => hset r fun _ => hr) fun _ r hr => hset r fun _ => hr
  · exact meets_of (fun _ _ r _ _ => hset r fun h => absurd h hheld)
      fun _ _ r _ _ => hset r fun h => absurd h hheld

theorem meets_updateCheckpoints (hs : Swapped m₀ commit published transactions s)
    (hpublished : published.doltCommitHash = commit) :
    Meets (· = s) (updateCheckpoints options faults published
        (retainedBeforeInsertion plan m₀.checkpoints ++ s.locals.newCheckpoint.toList))
      (fun _ s' => Finished options faults transactions plan commit m₀ s'.this ∧
        s'.locals = s.locals)
      (fun _ s' => Finished options faults transactions plan commit m₀ s'.this ∧
        s'.locals = s.locals) := by
  set retained := retainedBeforeInsertion plan m₀.checkpoints ++ s.locals.newCheckpoint.toList
  have hdue : ∀ c ∈ s.locals.newCheckpoint.toList,
      c.Named ∧ c.doltCommitHash = commit ∧ c.prefixLength = transactions.length :=
    fun c hc => ⟨(hs.newCheckpoint c hc).1, hs.due c (mem_toList.1 hc)⟩
  refine bind (Q := fun _ s' => ∃ r, s' = s.setRepository r ∧
    r.branches = s.this.repository.branches ∧ r.active = .head) ?_ fun _ =>
      meets_of_forall fun s₁ ⟨r, hs₁, hbranches, hactive⟩ => ?_
  · refine (meets_checkoutHead hs).mono_error ?_
    rintro _ _ ⟨r, rfl, hbranches, hfails⟩
    refine ⟨hs.finished hpublished fun _ => Or.inl ⟨?_, hfails⟩, rfl⟩
    intro name commit hname h₀
    rw [hbranches]
    exact hs.retains name commit hname h₀
  subst hs₁
  have hheld (h₀ : Holds m₀.checkpoints m₀.repository) : r.active = .head ∧ Holds retained r := by
    refine ⟨hactive, fun c hc => ?_⟩
    rw [hbranches]
    exact hs.holds h₀ c hc
  refine bind (Q := fun keep s' => ∃ r', s' = s.setRepository r' ∧
    keep = pruned options retained ∧ (Holds m₀.checkpoints m₀.repository → Holds keep r')) ?_
    fun keep => ?_
  · refine meets_zoom fun s' hs' => ?_
    subst hs'
    refine (meets_pruneCheckpoints_of hheld).weaken (fun _ => id)
      (fun keep r' hr' => ⟨r', rfl, hr'⟩) fun _ r' hfails => ?_
    exact ⟨hs.finished hpublished fun h₀ => Or.inr (hfails h₀), rfl⟩
  -- From here on, the checkpoints are the pruned ones.
  refine bind (Q := fun _ => Tidied options m₀ commit published transactions retained s) ?_
    fun _ => ?_
  · refine meets_modify fun s' ⟨r', hs', hkeep, hr'⟩ => ?_
    subst hs' hkeep
    refine ⟨?_, hr', rfl⟩
    rw [setRepository, hs.memory]
  refine bind (meets_cleanup.mono_error
    fun _ s' hs' => ⟨hs'.finished hpublished hdue, hs'.locals⟩) fun _ => ?_
  refine meets_modify fun s' hs' => ⟨Tidied.finished { hs' with memory := ?_ } hpublished hdue,
    hs'.locals⟩
  rw [hs'.memory]

variable (stale) in
theorem meets_tidyCheckpoints (hs : Swapped m₀ commit published transactions s)
    (hpublished : published.doltCommitHash = commit) :
    Meets (· = s) (tidyCheckpoints options faults published
        (retainedBeforeInsertion plan m₀.checkpoints ++ s.locals.newCheckpoint.toList))
      (fun _ s' => Finished options faults transactions plan commit m₀ s'.this)
      (Aborts (fun s' => Finished options faults transactions plan commit m₀ s'.this ∧
        s'.locals.publishedMoved) stale) := by
  refine ((meets_updateCheckpoints hs hpublished).mono_result (fun _ _ h => h.1)).tryCatch fun stop => ?_
  cases stop with
  | crash => exact meets_throw fun s' hs' => ⟨⟨hs'.1, hs'.2 ▸ hs.publishedMoved⟩, False.elim⟩
  | thrown error =>
    exact meets_modify fun s' ⟨hs', _⟩ => { hs' with }

end Tail

/-! ## A call -/

section Call

variable {plan : Plan Db} {nonce : String} {this : DeterministicMaterializer Db}
variable {s : CallState Db}

section

variable (engine : Engine Db) (options : MaterializerOptions) (faults : Faults)
  (transactions : List AdmittedTransaction)

/-- A call has published the result of its plan. -/
def Publishes (m₀ this : DeterministicMaterializer Db) : Prop :=
  ∃ plan commit, planReplay engine transactions m₀ = .ok (some plan) ∧
    Candidate engine transactions plan commit.snapshot ∧
    Finished options faults transactions plan commit m₀ this

/-- A call was interrupted before it changed the memory, or with its result published. -/
def Interrupted (m₀ : DeterministicMaterializer Db) (s : CallState Db) : Prop :=
  Prepared m₀ s ∨ Publishes engine options faults transactions m₀ s.this ∧ s.locals.publishedMoved

end

/-- A revision reports how the log has changed. -/
def Reports (m₀ this : DeterministicMaterializer Db) (revision : MaterializedRevision) : Prop :=
  revision.outcomeChanges = calculateOutcomeChanges m₀.log this.log

theorem meets_carryOut (hplan : planReplay engine transactions m₀ = .ok (some plan))
    (hstale : verifyReplayBase plan.baseRef.snapshot.log transactions plan.replayFrom ≠ .ok () →
      stale) : Meets (· = ⟨m₀, {}⟩) (carryOut engine options faults transactions nonce plan)
      (fun revision s => Publishes engine options faults transactions m₀ s.this ∧
        Reports m₀ s.this revision)
      (Aborts (Interrupted engine options faults transactions m₀) stale) := by
  have hprepared (stop : Stop) (s : CallState Db)
      (h : Aborts (Prepared m₀) stale stop s) :
      Aborts (Interrupted engine options faults transactions m₀) stale stop s :=
    ⟨Or.inl h.1, h.2⟩
  refine meets_get_bind fun s hs => ?_
  subst hs
  refine ((meets_commitCandidate hstale).mono_error hprepared).bind_of
    fun commit hcandidate => ?_
  have hpublishes {this : DeterministicMaterializer Db}
      (h : Finished options faults transactions plan commit m₀ this) :
      Publishes engine options faults transactions m₀ this :=
    ⟨plan, commit, hplan, hcandidate, h⟩
  refine (meets_createDueCheckpoint.mono_error hprepared).bind fun _ => ?_
  refine (meets_createRevision.mono_error hprepared).bind_of
    fun published hpublished => ?_
  refine (meets_openCandidateReader.mono_error hprepared).bind_of
    fun reader hreader => ?_
  subst hreader
  refine (meets_publishHead.mono_error hprepared).bind fun _ => ?_
  refine ((meets_swapReader stale).mono_error ?_).bind fun _ => ?_
  · rintro stop s ⟨⟨hs, hfails⟩, hnot⟩
    refine ⟨Or.inr ⟨hpublishes ?_, hs.publishedMoved⟩, hnot⟩
    exact hs.finished hpublished fun _ => Or.inl ⟨hs.retains, hfails⟩
  refine meets_get_bind fun s hs => bind
    ((meets_tidyCheckpoints stale hs hpublished).mono_error ?_) fun _ =>
    meets_pure fun s' hs' => ⟨hpublishes hs', by simp only [Reports, hs'.log]⟩
  rintro stop s' ⟨⟨hs', hmoved⟩, hnot⟩
  exact ⟨Or.inr ⟨hpublishes hs', hmoved⟩, hnot⟩

/-! ### Its handler -/

/-- A call left the memory as it was, and the checkpoints with their branches. -/
structure Kept (m₀ this : DeterministicMaterializer Db) : Prop where
  memory : this = { m₀ with repository := this.repository }
  retains : Retains m₀.repository this.repository

theorem Prepared.branches (hs : Prepared m₀ s) :
    ∀ name ∈ s.locals.branches, ¬name.IsCheckpoint ∨ m₀.repository.branches.get? name = none := by
  intro name hname
  simp only [Locals.branches, mem_append, mem_toList] at hname
  rcases hname with (hname | hname) | hname
  · exact Or.inl (hs.replayBranch name hname)
  · exact Or.inl (hs.revisionBranch name hname)
  · obtain ⟨checkpoint, hc, rfl⟩ := map_eq_some_iff.1 hname
    exact Or.inr (hs.newCheckpoint checkpoint hc).2.1

/-- Only the branch of the replay is reset. -/
theorem meets_resetReplayBranch (hs : Prepared m₀ s) :
    KeepsOr (Retains m₀.repository) (resetReplayBranch faults s.locals) (Aborts (Retains m₀.repository) stale) := by
  unfold resetReplayBranch
  split
  · rename_i base branch hbase hbranch
    refine bind (Q := fun active r => active = r.active ∧ Retains m₀.repository r) ?_
      fun active => meets_ite (fun hactive => ?_) fun _ => meets_pure fun _ hr => hr.2
    · exact tolerates_aborts.run (meets_get_bind fun r hr => meets_pure fun s' hs' =>
        ⟨hs' ▸ rfl, hs' ▸ hr⟩) (fun _ => id) fun _ _ hr => hr.2
    · refine tolerates_aborts.run (meets_modify fun r hr => hr.2.set ?_) (fun _ hr => hr.2) fun _ _ => id
      rw [← hr.1, hactive]
      exact hs.replayBranch branch hbranch
  · exact meets_pure fun _ => id

variable (stale) in
theorem meets_undo (hs : Prepared m₀ s) : KeepsOr (Retains m₀.repository) (undo faults s.locals) (Aborts (Retains m₀.repository) stale) := by
  refine (meets_resetReplayBranch hs).bind fun _ => ?_
  refine bind (Q := fun _ => Retains m₀.repository) ?_ fun _ =>
    meets_forM fun name hname => meets_removeBranchIfPresent_of tolerates_aborts tolerates_aborts
      (fun _ _ hr _ => ⟨hr, False.elim⟩) fun _ hr _ => hr.erase (hs.branches name hname)
  refine meets_of_forall fun r hr => meets_doltCheckout.weaken (fun _ => id) ?_
    fun _ r' hr' => ⟨hr.trans hr'.1, hr'.2⟩
  rintro _ r' ⟨commit, _, rfl⟩
  exact hr

theorem meets_undoUnpublished (hs : Prepared m₀ s) :
    Meets (fun s' => Kept m₀ s'.this) (undoUnpublished faults s.locals)
      (fun _ s' => Kept m₀ s'.this) (Aborts (fun s' => Kept m₀ s'.this) stale) := by
  refine meets_ite (fun _ => meets_pure fun _ => id) fun _ => ?_
  refine tryCatch (E := Aborts (fun s' => Kept m₀ s'.this) stale) ?_ fun stop => ?_
  · refine meets_zoom fun s' hs' => (meets_undo stale hs).weaken (fun r hr => hr ▸ hs'.retains) ?_ ?_
    · exact fun _ r hr => ⟨by rw [setRepository, hs'.memory], hr⟩
    · exact fun _ r hr => ⟨⟨by rw [setRepository, hs'.memory], hr.1⟩, hr.2⟩
  · cases stop with
    | crash => exact meets_throw fun _ => id
    | thrown error => exact meets_pure fun _ hs' => hs'.1

/-- A call that fails has left the memory as it was, or with its result published. -/
def Left (engine : Engine Db) (options : MaterializerOptions) (faults : Faults)
    (transactions : List AdmittedTransaction) (m₀ this : DeterministicMaterializer Db) : Prop :=
  Kept m₀ this ∨ Publishes engine options faults transactions m₀ this

theorem meets_handleFailure {stop : Stop} :
    Meets (Aborts (Interrupted engine options faults transactions m₀) stale stop)
      (handleFailure faults stop) (fun _ _ => False)
      (Aborts (fun s => Left engine options faults transactions m₀ s.this) stale) := by
  have hleft {s : CallState Db} (hs : Interrupted engine options faults transactions m₀ s) :
      Left engine options faults transactions m₀ s.this := by
    rcases hs with hs | hs
    · exact Or.inl ⟨hs.memory, hs.retains⟩
    · exact Or.inr hs.1
  cases stop with
  | crash => exact meets_throw fun s hs => ⟨hleft hs.1, hs.2⟩
  | thrown error =>
    refine meets_get_bind fun s ⟨hs, hnot⟩ => ?_
    have heq (s') (hs' : s' = s) : Left engine options faults transactions m₀ s'.this :=
      hs' ▸ hleft hs
    refine (tolerates_aborts.unit heq).bind fun _ => (tolerates_aborts.unit heq).bind fun _ => ?_
    refine bind (Q := fun _ s' => Left engine options faults transactions m₀ s'.this) ?_
      fun _ => meets_throw fun s' hs' => ⟨hs', hnot⟩
    rcases hs with hs | ⟨hdone, hmoved⟩
    · refine (meets_undoUnpublished hs).weaken ?_ (fun _ _ => Or.inl) fun _ _ h => ⟨Or.inl h.1, h.2⟩
      exact fun s' hs' => hs' ▸ ⟨hs.memory, hs.retains⟩
    · -- The head has moved: nothing is undone.
      rw [undoUnpublished, if_pos hmoved]
      exact meets_pure fun s' hs' => Or.inr (hs' ▸ hdone)

/-- The checkpoints of `m₀` do not serve these transactions. -/
def StaleFor (engine : Engine Db) (transactions : List AdmittedTransaction)
    (m₀ : DeterministicMaterializer Db) : Prop :=
  (∃ e, planReplay engine transactions m₀ = .error e ∧ e.IsStale) ∨
  ∃ plan, planReplay engine transactions m₀ = .ok (some plan) ∧
    verifyReplayBase plan.baseRef.snapshot.log transactions plan.replayFrom ≠ .ok ()

/-- A call that returns has published the result of its plan, unless there is nothing to do. -/
def Returned (engine : Engine Db) (options : MaterializerOptions) (faults : Faults)
    (transactions : List AdmittedTransaction) (m₀ : DeterministicMaterializer Db)
    (result : Option MaterializedRevision) (this : DeterministicMaterializer Db) : Prop :=
  (planReplay engine transactions m₀ = .ok none ∧ this = m₀ ∨
    Publishes engine options faults transactions m₀ this) ∧
  (∀ revision ∈ result, Reports m₀ this revision) ∧ (result = none → this = m₀)

theorem meets_materializeBody :
    Meets (· = ⟨m₀, {}⟩) (materializeBody engine options faults transactions nonce)
      (fun result s => Returned engine options faults transactions m₀ result s.this)
      (Aborts (Interrupted engine options faults transactions m₀)
        (StaleFor engine transactions m₀)) := by
  refine meets_get_bind fun s hs => ?_
  subst hs
  refine bind_of (meets_check (fun s hs =>
    Or.inl (hs ▸ ⟨rfl, Retains.refl _, nofun, nofun, nofun⟩)) fun e he h => Or.inl ⟨e, he, h⟩) fun result hplan => ?_
  cases result with
  | none => exact meets_pure fun s hs => ⟨Or.inl ⟨hplan, hs ▸ rfl⟩, nofun, fun _ => hs ▸ rfl⟩
  | some plan =>
    refine (meets_carryOut hplan fun h => Or.inr ⟨plan, hplan, h⟩).bind fun _ => ?_
    exact meets_pure fun s hs => ⟨Or.inr hs.1, fun _ h => some.inj h ▸ hs.2, nofun⟩

/-- The contract of a procedure whose local variables are not needed after it. -/
theorem meets_endCall {α : Type} {x : CallM Db α} {Q : α → DeterministicMaterializer Db → Prop}
    {E : Stop → DeterministicMaterializer Db → Prop}
    (h : Meets (· = ⟨m₀, {}⟩) x (fun a s => Q a s.this) fun stop s => E stop s.this) :
    Meets (· = m₀) (fun this => endCall (x ⟨this, {}⟩)) Q E := by
  intro m hm
  subst hm
  have hx := h ⟨m, {}⟩ rfl
  cases hrun : x ⟨m, {}⟩ <;> simpa only [hrun, endCall] using hx

/-- What a call ensures, whether it returns or fails. -/
theorem meets_materialize : Meets (· = m₀) (materialize engine options faults transactions nonce)
      (Returned engine options faults transactions m₀)
      (Aborts (Left engine options faults transactions m₀) (StaleFor engine transactions m₀)) :=
  meets_endCall (meets_materializeBody.tryCatch fun _ =>
    meets_handleFailure.mono_result (fun _ _ => False.elim))

end Call

end Published

end Chronolog.Materializer
