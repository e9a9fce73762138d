import Chronolog.Materializer.Checkpoints
import Chronolog.Materializer.Durable

/-!
# Calls that fail

However a call of `materialize` ends, it leaves the repository durable, with the revision that was
published before the call or with that of the call (`meets_materialize_leaves`). Any operation may
fail or be the last one of the process, before or after it took effect; only an error of the
operation that moves the head says that the head has not moved (`Atomic`).

Until the head moves, the call sets and removes only branches that are not needed for opening the
repository (`Begun`). An error after that leaves the memory behind the head by at most one
revision (`Ready`).
-/

namespace Chronolog.Materializer

open Procedure AdmittedTransaction OrdMap Meets List

variable {Db : Type}

/-- If the operation that moves the head throws, then it has not moved the head. -/
def Atomic (faults : Faults) : Prop :=
  ∀ message, faults .publishHead ≠ some (.throws true message)

/-! ## Operations on a durable repository -/

/-- Is this the name of the branch of a replay? -/
def BranchName.IsReplay : BranchName → Prop
  | .replay .. => True
  | _ => False

section Grows

variable {S : Setting Db} {p : PublishedRef Db} {n : ℕ} {r : Repository Db} {name : BranchName}
  {commit : Commit Db} {fault fault' : Option Fault}

/-- A durable repository in which the hashes below `n` are used. -/
structure Grows (S : Setting Db) (p : PublishedRef Db) (n : ℕ) (r : Repository Db) : Prop where
  durable : Durable S p r
  nextHash : n ≤ r.nextHash

theorem Grows.of_le {n' : ℕ} (h : Grows S p n r) (hle : n' ≤ n) : Grows S p n' r :=
  ⟨h.durable, hle.trans h.nextHash⟩

theorem Grows.set (h : Grows S p n r) (hname : Loose S p name)
    (hfits : Fits S p commit name) (hhash : commit.hash < r.nextHash) :
    Grows S p n { r with branches := r.branches.set name commit } :=
  ⟨h.durable.set hname.head hname.branch hfits hhash, h.nextHash⟩

theorem Durable.loose_of_isReplay (h : Durable S p r) (hname : name.IsReplay) : Loose S p name := by
  refine ⟨?_, ?_, ?_⟩
  · rintro rfl
    exact hname
  · rintro rfl
    rw [h.proper.branchRef] at hname
    exact hname
  · rintro rfl
    exact hname

theorem fits_of_isReplay (hname : name.IsReplay) : Fits S p commit name := by
  cases name with
  | replay => trivial
  | _ => exact hname.elim

/-- A branch is made that was not there. -/
theorem meets_doltBranch_grows (hr : Grows S p n r)
    (hfits : Fits S p commit name) (hhash : commit.hash < r.nextHash) :
    Meets (· = r) (attempt fault (doltBranch name commit))
      (fun _ r' => Loose S p name ∧ r' = { r with branches := r.branches.set name commit })
      fun _ => Grows S p n := by
  refine tolerates_self.run (meets_get_bind fun r' hr' => ?_) (fun _ hr' => hr' ▸ hr) ?_
  · subst hr'
    refine meets_ite (fun _ => meets_throw fun _ hs => hs ▸ hr) fun hhas => meets_set fun _ => ?_
    exact ⟨hr.durable.loose_of_get?_eq_none (has_eq_false_iff.1 (by simpa using hhas)), rfl⟩
  · rintro _ _ ⟨hname, rfl⟩
    exact hr.set hname hfits hhash

theorem meets_doltCheckout_grows : KeepsOr (Grows S p n) (attempt fault (doltCheckout name)) fun _ => Grows S p n := by
  refine tolerates_self.run (meets_get_bind fun r hr => ?_) (fun _ => id) fun _ _ => id
  cases hget : r.branches.get? name with
  | none => exact meets_throw fun _ hs => hs ▸ hr
  | some commit =>
    exact meets_set fun _ =>
      ⟨hr.durable.of_branches_eq rfl rfl (has_iff.2 ⟨commit, hget⟩), hr.nextHash⟩

theorem meets_removeBranchIfPresent_grows (hname : Loose S p name) :
    KeepsOr (Grows S p n) (removeBranchIfPresent fault fault' name) fun _ => Grows S p n :=
  meets_removeBranchIfPresent_of tolerates_self tolerates_self (fun _ _ hr _ => hr)
    fun _ hr hne => ⟨hr.durable.erase hname hne.symm, hr.nextHash⟩

/-- The branches of old replays and revisions can be removed. -/
theorem meets_cleanupOrphanBranches_grows {deleting : BranchName → Option Fault}
    {retained : List (MaterializerCheckpointInfo Db)} : KeepsOr (Grows S p n)
      (cleanupOrphanBranches fault fault' deleting p retained) fun _ => Grows S p n := by
  refine meets_cleanupOrphanBranches_of fun r name hr horphan hne hactive =>
    ⟨hr.durable.erase ⟨?_, hne, ?_⟩ hactive.symm, hr.nextHash⟩
  · rintro rfl
    cases horphan
  · rintro rfl
    cases horphan

/-- No branch of a revision is at a commit from `n` on. -/
def RevisionsBelow (n : ℕ) (r : Repository Db) : Prop :=
  ∀ revision k digest commit, r.branches.get? (.revision revision k digest) = some commit →
    commit.hash < n

theorem RevisionsBelow.set (h : RevisionsBelow n r)
    (hname : ∀ revision k digest, name ≠ .revision revision k digest) :
    RevisionsBelow n { r with branches := r.branches.set name commit } := by
  intro revision k digest commit' hget
  rw [get?_set_of_ne (hname revision k digest).symm] at hget
  exact h revision k digest commit' hget

/-- The branch of a replay is checked out, with the working set `w`. -/
structure Replaying (S : Setting Db) (p : PublishedRef Db) (n : ℕ) (w : Snapshot Db)
    (r : Repository Db) : Prop where
  grows : Grows S p n r
  below : RevisionsBelow n r
  active : r.active.IsReplay
  working : r.working = w

theorem walk_replaying {faults : Faults} : Walk faults (Replaying S p n) fun _ => Grows S p n where
  fault _ _ _ _ _ hr := hr.grows
  thrown _ _ _ _ hr := hr.grows
  working _ _ hr := hr.working
  write _ _ hr _ := ⟨⟨hr.grows.durable.of_branches_eq rfl rfl hr.grows.durable.active,
    hr.grows.nextHash⟩, hr.below, hr.active, rfl⟩
  commit w r hr := by
    -- The commit of a replay goes to the branch of the replay.
    have hnext : Durable S p { r with nextHash := r.nextHash + 1 } :=
      { hr.grows.durable with
        hash := fun name commit hget =>
          Nat.lt_succ_of_lt (hr.grows.durable.hash name commit hget) }
    have hgrows : Grows S p n { r with nextHash := r.nextHash + 1 } :=
      ⟨hnext, Nat.le_succ_of_le hr.grows.nextHash⟩
    refine ⟨hgrows.set (hnext.loose_of_isReplay hr.active) (fits_of_isReplay hr.active)
      (Nat.lt_succ_self _), hr.below.set fun _ _ _ h => ?_, hr.active, hr.working⟩
    have hactive := hr.active
    rw [h] at hactive
    exact hactive

end Grows

/-! ## What is in memory -/

section Ready

variable {S : Setting Db} {p : PublishedRef Db} {n : ℕ} {m : DeterministicMaterializer Db}
  {c : MaterializerCheckpointInfo Db}

/-- A checkpoint of a commit that a repository has had. -/
structure Recorded (S : Setting Db) (n : ℕ) (c : MaterializerCheckpointInfo Db) : Prop where
  named : c.Named
  good : Good S c.doltCommitHash.snapshot
  hash : c.doltCommitHash.hash < n
  first : c.prefixLength = 0 → c.branchRef = genesisBranch S.engine

theorem Recorded.of_le {n' : ℕ} (h : Recorded S n c) (hle : n ≤ n') : Recorded S n' c :=
  { h with hash := h.hash.trans_le hle }

/-- What a materializer has in memory, of a repository that has used the hashes below `n`. -/
structure Memory (S : Setting Db) (n : ℕ) (m : DeterministicMaterializer Db) : Prop where
  reader : m.reader = m.published.doltCommitHash.snapshot
  log : m.log = m.reader.log
  order : m.order = orderOf m.log
  good : Good S m.published.doltCommitHash.snapshot
  hash : m.published.doltCommitHash.hash < n
  recorded : ∀ c ∈ m.checkpoints, Recorded S n c
  genesis : ∃ c ∈ m.checkpoints, c.prefixLength = 0

/-- A materializer that is ready for a call. The head is at the revision `p`, which is the one in
    memory or the next one. -/
structure Ready (S : Setting Db) (p : PublishedRef Db) (n : ℕ)
    (m : DeterministicMaterializer Db) : Prop where
  grows : Grows S p n m.repository
  memory : Memory S n m
  previous : p = m.published ∨ p.revision = m.published.revision + 1

theorem Memory.of_le {n' : ℕ} (h : Memory S n m) (hle : n ≤ n') : Memory S n' m :=
  { h with
    hash := h.hash.trans_le hle
    recorded := fun c hc => (h.recorded c hc).of_le hle }

theorem Memory.setRepository (h : Memory S n m) (r : Repository Db) :
    Memory S n { m with repository := r } :=
  { h with }

/-- A materializer knows of all commits of its repository. -/
theorem Ready.raise (h : Ready S p n m) : Ready S p m.repository.nextHash m :=
  ⟨⟨h.grows.durable, le_rfl⟩, h.memory.of_le h.grows.nextHash, h.previous⟩

end Ready

/-! ## Plans of ready materializers -/

section Plan

variable {S : Setting Db} {engine : Engine Db} {p : PublishedRef Db} {n : ℕ}
  {transactions : List AdmittedTransaction} {plan : Plan Db} {commit : Commit Db}
  {m₀ : DeterministicMaterializer Db}

theorem ne_nil_of_planReplay (h : planReplay engine transactions m₀ = .ok (some plan)) :
    transactions ≠ [] := by
  rintro rfl
  obtain ⟨_, _, h⟩ := bind_eq_ok_iff.1 h
  obtain ⟨_, hmonotonic, h⟩ := bind_eq_ok_iff.1 h
  obtain ⟨_, _, h⟩ := bind_eq_ok_iff.1 h
  cases horder : m₀.order with
  | nil =>
    rw [horder] at h
    cases h
  | cons txId order =>
    rw [horder] at hmonotonic
    cases hmonotonic

theorem nextRevision_of_planReplay (h : planReplay engine transactions m₀ = .ok (some plan)) :
    plan.nextRevision = m₀.published.revision + 1 := by
  obtain ⟨_, _, hbase⟩ := planReplay_spec h
  unfold replayBase at hbase
  split at hbase
  · rw [← Except.ok.inj hbase]
  split at hbase
  · cases hbase
  · rw [← Except.ok.inj hbase]

/-- What is known of a plan of a ready materializer. -/
structure Planned (S : Setting Db) (transactions : List AdmittedTransaction) (plan : Plan Db)
    (m₀ : DeterministicMaterializer Db) : Prop where
  nonempty : transactions ≠ []
  faithful : ∀ t ∈ transactions, Faithful t
  nextRevision : plan.nextRevision = m₀.published.revision + 1
  base : Pass S.engine S.genesis plan.baseRef.snapshot
  baseHash : plan.baseRef.hash < m₀.repository.nextHash

theorem Ready.planned (hm : Ready S p m₀.repository.nextHash m₀)
    (h : planReplay S.engine transactions m₀ = .ok (some plan)) :
    Planned S transactions plan m₀ := by
  have hbase : Pass S.engine S.genesis plan.baseRef.snapshot ∧
      plan.baseRef.hash < m₀.repository.nextHash := by
    rcases baseRef_of_planReplay h with hbase | ⟨c, hc, hbase⟩
    · rw [hbase]
      exact ⟨hm.memory.good.pass, hm.memory.hash⟩
    · rw [hbase]
      exact ⟨(hm.memory.recorded c hc).good.pass, (hm.memory.recorded c hc).hash⟩
  obtain ⟨_, hfaithful, _⟩ := bind_eq_ok_iff.1 h
  exact ⟨ne_nil_of_planReplay h, faithful_of_validateFrom hfaithful, nextRevision_of_planReplay h,
    hbase.1, hbase.2⟩

section

variable (engine : Engine Db) (transactions : List AdmittedTransaction) (plan : Plan Db)

/-- A commit that a call has made of its plan, when the hashes below `n` were used. -/
structure Produced (n : ℕ) (commit : Commit Db) : Prop where
  candidate : Candidate engine transactions plan commit.snapshot
  state : external (engine.verifyDatabaseState commit.snapshot.content) = .ok ()
  rows : verifyLogResultIntegrity engine commit.snapshot.log = .ok ()
  hash : n ≤ commit.hash

/-- The branch of the checkpoint that is due after a call. -/
def dueCheckpoint : BranchName :=
  .checkpoint transactions.length plan.nextRevision (engine.orderDigest (transactions.map (·.txId)))

/-- The branch of the revision of a call. -/
def nextBranch : BranchName :=
  .revision plan.nextRevision transactions.length (engine.orderDigest (transactions.map (·.txId)))

/-- The revision of a call, with its commit. -/
def nextRef (commit : Commit Db) : PublishedRef Db :=
  ⟨plan.nextRevision, transactions.length, nextBranch engine transactions plan, commit,
    engine.doltHashOf commit.snapshot, engine.orderDigest (transactions.map (·.txId))⟩

end

/-- The revision of a call. -/
structure IsNext (S : Setting Db) (transactions : List AdmittedTransaction)
    (m₀ : DeterministicMaterializer Db) (p : PublishedRef Db) : Prop where
  revision : p.revision = m₀.published.revision + 1
  replayed : replay S.engine 0 S.genesis transactions = .ok p.doltCommitHash.snapshot

section Produced

variable (hruns : RunsByIdentity S.engine) (hgenesis : S.genesis.log = [])
  (hplan : Planned S transactions plan m₀)
  (h : Produced S.engine transactions plan n commit)

include hruns hgenesis hplan h

/-- The base is the result of a pass over the first transactions, and the candidate of a pass over
    all of them. -/
theorem Produced.replay_transactions :
    replay S.engine 0 S.genesis transactions = .ok commit.snapshot := by
  have hbase := h.candidate.base
  unfold verifyReplayBase at hbase
  split at hbase
  · cases hbase
  rename_i hlength
  split at hbase
  · cases hbase
  rename_i hsame
  have hids := identitiesOf_eq_of_sameIdentities (by simpa using hsame)
  rw [not_not.1 hlength, ← map_take] at hids
  have hle : plan.replayFrom ≤ transactions.length := by
    have hrows := congrArg length hids
    rw [identitiesOf, length_map, length_map, length_take, not_not.1 hlength] at hrows
    exact hrows ▸ Nat.min_le_right ..
  have htake := hplan.base.replay_of_identities hruns hgenesis
    (fun t ht => hplan.faithful t (mem_of_mem_take ht)) hids
  rw [← take_append_drop plan.replayFrom transactions, replay_append, htake, length_take,
    Nat.min_eq_left hle, Nat.zero_add]
  exact h.candidate.replayed

theorem Produced.good : Good S commit.snapshot :=
  ⟨⟨transactions, hplan.faithful, h.replay_transactions hruns hgenesis hplan⟩, h.state, h.rows⟩

theorem Produced.identitiesOf_log :
    identitiesOf commit.snapshot.log = transactions.map identity := by
  rw [identitiesOf_replay (h.replay_transactions hruns hgenesis hplan), hgenesis]
  rfl

theorem Produced.length_log : commit.snapshot.log.length = transactions.length := by
  have hlength := congrArg length (h.identitiesOf_log hruns hgenesis hplan)
  rwa [identitiesOf, length_map, length_map] at hlength

theorem Produced.known (horder : transactions ∈ orders) :
    identitiesOf commit.snapshot.log ∈ beginnings orders :=
  .inr ⟨transactions, horder, h.identitiesOf_log hruns hgenesis hplan ▸ prefix_rfl⟩

/-- The commit of a call fits the branch of its checkpoint. -/
theorem Produced.checkpointAt (horder : transactions ∈ S.orders) :
    CheckpointAt S transactions.length plan.nextRevision
      (S.engine.orderDigest (transactions.map (·.txId))) commit := by
  refine ⟨h.good hruns hgenesis hplan, h.length_log hruns hgenesis hplan, ?_,
    h.known hruns hgenesis hplan horder,
    fun hzero => absurd (length_eq_zero_iff.1 hzero) hplan.nonempty⟩
  rw [orderOf_eq_of_verifyDesiredLog h.candidate.desired]

theorem Produced.proper_nextRef : Proper S (nextRef S.engine transactions plan commit) := by
  refine ⟨h.good hruns hgenesis hplan, h.length_log hruns hgenesis hplan, ?_, rfl, rfl⟩
  rw [nextRef, orderOf_eq_of_verifyDesiredLog h.candidate.desired]

theorem Produced.isNext : IsNext S transactions m₀ (nextRef S.engine transactions plan commit) :=
  ⟨hplan.nextRevision, h.replay_transactions hruns hgenesis hplan⟩

end Produced

end Plan

/-! ## Before the head moves -/

section Call

variable {S : Setting Db} {options : MaterializerOptions} {faults : Faults}
  {transactions : List AdmittedTransaction} {nonce : String} {plan : Plan Db} {commit : Commit Db}
  {p p' : PublishedRef Db} {m₀ : DeterministicMaterializer Db} {s : CallState Db} {name : BranchName} {n : ℕ}

/-- A call of `m₀` has not moved the head from the revision `p`. What its handler would remove is
    not needed for opening the repository. -/
structure Begun (S : Setting Db) (p : PublishedRef Db)
    (m₀ : DeterministicMaterializer Db) (s : CallState Db) : Prop where
  memory : s.this = { m₀ with repository := s.this.repository }
  grows : Grows S p m₀.repository.nextHash s.this.repository
  branches : ∀ name ∈ s.locals.branches, Loose S p name
  replayBranch : ∀ name ∈ s.locals.replayBranch, name.IsReplay
  replayBaseRef : ∀ c ∈ s.locals.replayBaseRef, c.hash < m₀.repository.nextHash
  newCheckpoint : ∀ c ∈ s.locals.newCheckpoint,
    Recorded S s.this.repository.nextHash c
  publishedMoved : s.locals.publishedMoved = false

theorem Begun.setRepository {r : Repository Db} (hs : Begun S p m₀ s)
    (hr : Grows S p s.this.repository.nextHash r) : Begun S p m₀ (s.setRepository r) where
  memory := by rw [CallState.setRepository, hs.memory]
  grows := hr.of_le hs.grows.nextHash
  branches := hs.branches
  replayBranch := hs.replayBranch
  replayBaseRef := hs.replayBaseRef
  newCheckpoint c hc := (hs.newCheckpoint c hc).of_le hr.nextHash
  publishedMoved := hs.publishedMoved

/-- The materializer can go on from where a call has failed. -/
theorem Begun.ready (hs : Begun S p m₀ s) (hm : Ready S p m₀.repository.nextHash m₀) :
    Ready S p m₀.repository.nextHash s.this := by
  refine ⟨hs.grows, ?_, ?_⟩
  · rw [hs.memory]
    exact hm.memory.setRepository _
  · rw [hs.memory]
    exact hm.previous

/-- A procedure on the repository, before the head moves. -/
theorem meets_onRepository_begun {α : Type} {x : StoreM Db α} {Q : α → Repository Db → Prop}
    (hs : Begun S p m₀ s)
    (h : Meets (· = s.this.repository) x Q fun _ => Grows S p s.this.repository.nextHash) :
    Meets (· = s) (onRepository x) (fun a s' => ∃ r, s' = s.setRepository r ∧ Q a r)
      fun _ => Begun S p m₀ := by
  refine meets_zoom fun s' hs' => ?_
  subst hs'
  exact h.weaken (fun _ => id) (fun _ r hr => ⟨r, rfl, hr⟩) fun _ _ hr => hs.setRepository hr

/-- A call that has committed its candidate. -/
theorem meets_commitCandidate_begun (hm : Ready S p m₀.repository.nextHash m₀)
    (hplan : Planned S transactions plan m₀) :
    Meets (· = ⟨m₀, {}⟩) (commitCandidate S.engine faults transactions nonce plan)
      (fun commit s => Produced S.engine transactions plan m₀.repository.nextHash commit ∧
        commit.hash < s.this.repository.nextHash ∧
        RevisionsBelow m₀.repository.nextHash s.this.repository ∧ Begun S p m₀ s)
      fun _ => Begun S p m₀ := by
  let s₁ : CallState Db := ⟨m₀, { replayBaseRef := some plan.baseRef }⟩
  have hbase : ∀ c ∈ some plan.baseRef, c.hash < m₀.repository.nextHash := by
    rintro _ ⟨⟩
    exact hplan.baseHash
  have hs₁ : Begun S p m₀ s₁ :=
    ⟨rfl, hm.grows, forall_mem_nil _, nofun, hbase, nofun, rfl⟩
  refine bind (Q := fun _ => (· = s₁)) (meets_modify fun s hs => hs ▸ rfl) fun _ => ?_
  refine bind (meets_onRepository_begun (Q := fun branch r => branch.IsReplay ∧
    r.branches.get? branch = some plan.baseRef ∧ r.nextHash = m₀.repository.nextHash ∧
    RevisionsBelow r.nextHash r ∧ Grows S p r.nextHash r) hs₁ ?_)
    fun branch => ?_
  · refine bind (meets_doltBranch_grows hm.grows trivial hplan.baseHash) fun _ => meets_pure ?_
    rintro _ ⟨hname, rfl⟩
    refine ⟨trivial, get?_set_self .., rfl, RevisionsBelow.set ?_ nofun,
      hm.grows.set hname trivial hplan.baseHash⟩
    exact fun revision k digest commit => hm.grows.durable.hash _ commit
  refine meets_of_forall fun s ⟨r, hs, hbranch, hget, hnext, hbelow, hr⟩ => ?_
  -- The branch of the replay is known to the handler from here on.
  let s₂ : CallState Db :=
    ⟨{ m₀ with repository := r }, { replayBaseRef := some plan.baseRef, replayBranch := some branch }⟩
  have hs₂ : Begun S p m₀ s₂ := by
    refine ⟨rfl, hnext ▸ hr, fun name hname => ?_, ?_, hbase, nofun, rfl⟩
    · obtain rfl : name = branch := by simpa [Locals.branches, s₂] using hname
      exact hr.durable.loose_of_isReplay hbranch
    · rintro _ ⟨⟩
      exact hbranch
  refine bind (Q := fun _ => (· = s₂)) (meets_modify fun s' hs' => ?_) fun _ => ?_
  · rw [hs', hs]
    rfl
  have hcheckout : Grows S p r.nextHash
      { r with active := branch, working := plan.baseRef.snapshot } :=
    ⟨hr.durable.of_branches_eq rfl rfl (has_iff.2 ⟨_, hget⟩), le_rfl⟩
  refine (meets_onRepository_begun hs₂ (walk_replaying.meets_replayOnBranch hget (fun _ _ => hr)
    ⟨hcheckout, hbelow, hbranch, rfl⟩ fun _ _ _ hr' => hr'.grows)).mono_result ?_
  rintro commit _ ⟨r', rfl, ⟨hcandidate, hstate, hrows⟩, ⟨r₁, hr₁, hhash⟩, hlt, hr'⟩
  rw [← hnext]
  exact ⟨⟨hcandidate, hstate, hrows, hhash ▸ hr₁.grows.nextHash⟩, hlt, hr'.below,
    hs₂.setRepository hr'.grows⟩

variable (name) in
/-- A call makes a branch at its commit. -/
theorem meets_createRef_begun {branching hashing : Operation} {β : Type} {f : Bytes → β}
    {x : StoreM Db β} (hs : Begun S p m₀ s) (hfits : Fits S p commit name)
    (hhash : commit.hash < s.this.repository.nextHash) (hx : x = do
      attempt (faults branching) (doltBranch name commit)
      let contentHash ← attempt (faults hashing) (pure (S.engine.doltHashOf commit.snapshot))
      return f contentHash) : Meets (· = s) (onRepository x)
      (fun b s' => b = f (S.engine.doltHashOf commit.snapshot) ∧ Loose S p name ∧
        s' = s.setRepository { s.this.repository with
          branches := s.this.repository.branches.set name commit } ∧ Begun S p m₀ s')
      fun _ => Begun S p m₀ := by
  have hr : Grows S p s.this.repository.nextHash s.this.repository :=
    ⟨hs.grows.durable, le_rfl⟩
  have hset {r : Repository Db} (h : Loose S p name ∧ r = { s.this.repository with
      branches := s.this.repository.branches.set name commit }) :
      Grows S p s.this.repository.nextHash r :=
    h.2 ▸ hr.set h.1 hfits hhash
  rw [hx]
  refine (meets_onRepository_begun hs (bind (meets_doltBranch_grows hr hfits hhash) fun _ =>
    bind_of (tolerates_self.value fun _ => hset) fun contentHash hcontent =>
      meets_pure (Q := fun b r => b = f (S.engine.doltHashOf commit.snapshot) ∧
        Loose S p name ∧ r = _) fun r hr' => ⟨congrArg f hcontent, hr'⟩)).mono_result ?_
  rintro b _ ⟨r, rfl, hb, hr'⟩
  exact ⟨hb, hr'.1, by rw [hr'.2], hs.setRepository (hset hr')⟩

/-- A call has committed its candidate. -/
structure Committed (S : Setting Db) (p : PublishedRef Db)
    (m₀ : DeterministicMaterializer Db) (commit : Commit Db) (s : CallState Db) : Prop extends
    Begun S p m₀ s where
  hash : commit.hash < s.this.repository.nextHash
  below : RevisionsBelow m₀.repository.nextHash s.this.repository

/-- The branch of the revision is there. -/
structure Branched (S : Setting Db) (p p' : PublishedRef Db)
    (m₀ : DeterministicMaterializer Db) (s : CallState Db) : Prop extends Begun S p m₀ s where
  branch : s.this.repository.branches.get? p'.branchRef = some p'.doltCommitHash
  marker : ∀ revision k digest commit,
    s.this.repository.branches.get? (.revision revision k digest) = some commit →
    commit.hash = p'.doltCommitHash.hash → .revision revision k digest = p'.branchRef

section Produced

variable (hruns : RunsByIdentity S.engine) (hgenesis : S.genesis.log = [])
  (hm : Ready S p m₀.repository.nextHash m₀)
  (hplan : Planned S transactions plan m₀) (horder : transactions ∈ S.orders)
  (hproduced : Produced S.engine transactions plan m₀.repository.nextHash commit)

include hruns hgenesis hplan horder hproduced

theorem meets_createDueCheckpoint_begun : KeepsOr (Committed S p m₀ commit)
      (createDueCheckpoint S.engine options faults transactions plan commit) fun _ => Begun S p m₀ := by
  refine meets_get_bind fun s hs => meets_ite (fun _ => ?_) fun _ => meets_pure fun _ hs' => hs' ▸ hs
  have hcheckpoint := hproduced.checkpointAt hruns hgenesis hplan horder
  have hlog := orderOf_eq_of_verifyDesiredLog hproduced.candidate.desired
  refine bind (meets_createRef_begun (dueCheckpoint S.engine transactions plan)
    hs.toBegun hcheckpoint hs.hash (by rw [createCheckpointRef, hlog]; rfl)) fun c => ?_
  refine meets_modify fun s' hcreated => ?_
  obtain ⟨hc, hname, hs', hbegun⟩ := hcreated
  have hrecorded : Recorded S s'.this.repository.nextHash c := by
    subst hc hs'
    exact ⟨⟨plan.nextRevision, _, rfl⟩, hcheckpoint.good, hs.hash, hcheckpoint.eq_genesisBranch⟩
  refine ⟨⟨hbegun.memory, hbegun.grows, fun name hmem => ?_, hbegun.replayBranch,
    hbegun.replayBaseRef, ?_, hbegun.publishedMoved⟩, ?_, ?_⟩
  · simp only [Locals.branches, Option.map_some, Option.toList_some, mem_append,
      mem_singleton] at hmem
    rcases hmem with hmem | rfl
    · exact hbegun.branches name (mem_append_left _ (mem_append.2 hmem))
    · exact hc ▸ hname
  · rintro _ ⟨⟩
    exact hrecorded
  · exact hs' ▸ hs.hash
  · exact hs' ▸ hs.below.set (by simp [dueCheckpoint])

include hm

omit hruns hgenesis hplan horder in
theorem meets_createRevision_begun : Meets (Committed S p m₀ commit)
      (createRevision S.engine faults transactions plan commit)
      (fun published s => published = nextRef S.engine transactions plan commit ∧
        Branched S p published m₀ s) fun _ => Begun S p m₀ := by
  refine meets_of_forall fun s hs => ?_
  have hlog := orderOf_eq_of_verifyDesiredLog hproduced.candidate.desired
  -- The commit of a call is not the published one.
  have hfits : commit.hash ≠ p.doltCommitHash.hash :=
    ((hm.grows.durable.hash _ _ hm.grows.durable.head).trans_le hproduced.hash).ne'
  refine bind (meets_createRef_begun (nextBranch S.engine transactions plan) hs.toBegun hfits
    hs.hash (by rw [createRevisionRef, hlog]; rfl)) fun published => ?_
  refine bind (Q := fun _ s => published = nextRef S.engine transactions plan commit ∧
    Branched S p published m₀ s) ?_ fun _ => meets_of_and fun hpublished => ?_
  · refine meets_modify fun s' ⟨hpublished, hname, hs', hbegun⟩ => ⟨hpublished, ?_⟩
    subst hpublished
    refine ⟨{ hbegun with branches := fun name hmem => ?_ }, ?_, ?_⟩
    · simp only [Locals.branches, Option.toList_some, mem_append, mem_singleton] at hmem
      rcases hmem with (hmem | rfl) | hmem
      · exact hbegun.branches name (mem_append_left _ (mem_append_left _ hmem))
      · exact hname
      · exact hbegun.branches name (mem_append_right _ hmem)
    · exact hs' ▸ get?_set_self ..
    · intro revision k digest commit' hget hsame
      rw [hs'] at hget
      by_cases heq : .revision revision k digest = nextBranch S.engine transactions plan
      · exact heq
      · -- The other revisions are at commits from before the call.
        rw [CallState.setRepository, get?_set_of_ne heq] at hget
        have hlt := hs.below revision k digest commit' hget
        exact absurd (hsame ▸ hproduced.hash) hlt.not_ge
  refine bind_of (meets_check_of fun _ _ => fun _ hs => hs.toBegun) fun _ _ => ?_
  exact (tolerates_self.unit fun _ hs => hs.toBegun).bind fun _ =>
    meets_pure fun s hs => ⟨hpublished, hs⟩

/-- The head moves. -/
theorem Branched.ready (hs : Branched S p (nextRef S.engine transactions plan commit) m₀ s) :
    Ready S (nextRef S.engine transactions plan commit)
      s.this.repository.nextHash (s.setRepository { s.this.repository with
        branches := s.this.repository.branches.set .head commit }).this := by
  refine ⟨⟨hs.grows.durable.publish (hproduced.proper_nextRef hruns hgenesis hplan)
    (hproduced.known hruns hgenesis hplan horder) hs.branch hs.marker, le_rfl⟩, ?_, .inr ?_⟩
  · exact ((hs.toBegun.ready hm).memory.of_le hs.grows.nextHash).setRepository _
  · rw [CallState.setRepository, hs.memory]
    exact hplan.nextRevision

end Produced

theorem meets_openCandidateReader_begun : Meets (Branched S p p' m₀)
      (openCandidateReader S.engine faults p'.doltCommitHash p')
      (fun reader s => reader = p'.doltCommitHash.snapshot ∧ Branched S p p' m₀ s)
      fun _ => Begun S p m₀ := by
  refine meets_openCandidateReader_of (fun operation => tolerates_of fun _ _ s hs => hs.toBegun)
    (fun _ _ _ hs => hs.toBegun) (fun _ hs => hs.branch) fun s hs => ⟨?_, hs.branch, hs.marker⟩
  exact { hs with }

/-! ## After the head moved -/

section

variable (S : Setting Db) (p : PublishedRef Db)

/-- A call has moved the head to the revision `p`. -/
structure Posted (n : ℕ) (s : CallState Db) : Prop where
  ready : Ready S p n s.this
  newCheckpoint : ∀ c ∈ s.locals.newCheckpoint, Recorded S n c
  publishedMoved : s.locals.publishedMoved

/-- What a call of `m₀` leaves: the repository is durable with the revision `p` that it was at, or
    with that of the call. -/
def Leaves (transactions : List AdmittedTransaction)
    (m₀ m : DeterministicMaterializer Db) : Prop :=
  ∃ p' n, (p' = p ∨ IsNext S transactions m₀ p') ∧
    Ready S p' n m

/-- A call was stopped. Unless it was the end of the process, its handler knows if the head has
    moved. -/
def Fails (transactions : List AdmittedTransaction)
    (m₀ : DeterministicMaterializer Db) (stop : Stop) (s : CallState Db) : Prop :=
  Begun S p m₀ s ∨
    Leaves S p transactions m₀ s.this ∧
      (s.locals.publishedMoved ∨ stop = .crash)

end

theorem Posted.fails {stop : Stop} (hs : Posted S p' n s) (hnext : IsNext S transactions m₀ p') :
    Fails S p transactions m₀ stop s :=
  .inr ⟨⟨p', n, .inr hnext, hs.ready⟩, .inl hs.publishedMoved⟩

theorem meets_publishHead_posted (hatomic : Atomic faults) (hnext : IsNext S transactions m₀ p')
    (hs : Branched S p p' m₀ s) (hready : Ready S p' s.this.repository.nextHash
      (s.setRepository { s.this.repository with
        branches := s.this.repository.branches.set .head p'.doltCommitHash }).this) :
    Meets (· = s) (publishHead faults p') (fun _ => Posted S p' s.this.repository.nextHash)
      (Fails S p transactions m₀) := by
  set r' : Repository Db := { s.this.repository with
    branches := s.this.repository.branches.set .head p'.doltCommitHash }
  have hforce : Meets (· = s.this.repository) (publishRef (faults .publishHead) p')
      (fun _ r => r = r') fun stop r => r = s.this.repository ∨ r = r' ∧ stop = .crash := by
    refine Tolerates.run ⟨fun _ _ _ _ => .inl, fun f hf hdone r hr => .inr ⟨hr, ?_⟩⟩
      (meets_modify fun r hr => hr ▸ rfl) (fun _ => id) fun _ _ => id
    cases f with
    | throws done message =>
      obtain rfl : done = true := hdone
      exact absurd hf (hatomic message)
    | crashes done => rfl
  refine bind (Q := fun _ s' => s' = s.setRepository r') ?_ fun _ => ?_
  · refine meets_zoom fun s' hs' => ?_
    subst hs'
    refine hforce.weaken (fun _ => id) (fun _ r hr => hr ▸ rfl) fun stop r hr => ?_
    rcases hr with rfl | ⟨rfl, hstop⟩
    · exact .inl hs.toBegun
    · exact .inr ⟨⟨p', _, .inr hnext, hready⟩, .inr hstop⟩
  refine bind (Q := fun _ => Posted S p' s.this.repository.nextHash)
    (meets_modify fun s' hs' => ?_) fun _ =>
      (tolerates_of fun _ _ _ hs => hs.fails hnext).unit fun _ => id
  subst hs'
  exact ⟨hready, hs.newCheckpoint, rfl⟩

theorem meets_swapReader_posted (hnext : IsNext S transactions m₀ p')
    (hhash : p'.doltCommitHash.hash < n)
    (horder : orderOf p'.doltCommitHash.snapshot.log = transactions.map (·.txId)) :
    KeepsOr (Posted S p' n) (swapReader faults transactions p'.doltCommitHash.snapshot p') (Fails S p transactions m₀) := by
  refine bind (Q := fun _ => Posted S p' n) (meets_modify fun s hs => ?_) fun _ =>
    ((tolerates_of fun _ _ _ hs => hs.fails hnext).unit fun _ => id).bind fun _ =>
      (tolerates_of fun _ _ _ hs => hs.fails hnext).unit fun _ => id
  exact ⟨⟨hs.ready.grows, ⟨rfl, rfl, horder.symm, hs.ready.grows.durable.proper.good, hhash,
    hs.ready.memory.recorded, hs.ready.memory.genesis⟩, .inl rfl⟩, hs.newCheckpoint,
    hs.publishedMoved⟩

/-- A procedure that keeps the repository durable, in a call. -/
theorem meets_onRepository_ready {α : Type} {x : StoreM Db α} {q : α → Prop}
    (hx : Meets (Grows S p n) x (fun a r => q a ∧ Grows S p n r) fun _ => Grows S p n) :
    Meets (fun s => Ready S p n s.this) (onRepository x) (fun a s => q a ∧ Ready S p n s.this)
      fun _ s => Ready S p n s.this := by
  refine meets_zoom fun s hs => ?_
  have hset {r : Repository Db} (hr : Grows S p n r) :
      Ready S p n (s.setRepository r).this :=
    ⟨hr, hs.memory.setRepository r, hs.previous⟩
  exact hx.weaken (fun _ hr => hr ▸ hs.grows) (fun _ _ hr => ⟨hr.1, hset hr.2⟩) fun _ _ => hset

variable {retained : List (MaterializerCheckpointInfo Db)}

/-- Pruning keeps the checkpoint before all transactions. -/
theorem meets_pruneCheckpoints_grows (hretained : ∀ c ∈ retained, Recorded S n c)
    (hfirst : ∃ c ∈ retained, c.prefixLength = 0) :
    Meets (Grows S p n) (pruneCheckpoints options faults retained)
      (fun keep r => keep = pruned options retained ∧ Grows S p n r) fun _ => Grows S p n := by
  refine bind (Q := fun _ => Grows S p n) ?_ fun _ =>
    meets_pure fun _ hr => ⟨rfl, hr⟩
  refine meets_of_forall fun r₀ hr₀ => mono_start (P := Grows S p n)
    (meets_forM fun c hc => meets_ite (fun hother => ?_) fun _ => meets_pure fun _ => id)
    fun _ hr => hr ▸ hr₀
  have hcheckpoint := (hretained c ((mem_insertionSort _).1 hc)).named.isCheckpoint
  refine meets_removeBranchIfPresent_grows ⟨fun heq => ?_, fun heq => ?_, fun heq => ?_⟩
  · rw [heq] at hcheckpoint
    exact hcheckpoint
  · rw [heq, hr₀.durable.proper.branchRef] at hcheckpoint
    exact hcheckpoint
  · obtain ⟨kept, hkept, hzero⟩ := genesis_mem_pruned options
      (fun c hc => (hretained c hc).named) hfirst
    have hname := (hretained kept (mem_of_mem_pruned hkept)).first hzero
    exact of_decide_eq_true (all_eq_true.1 hother kept hkept) (hname.trans heq.symm)

theorem meets_tidyCheckpoints_ready (hretained : ∀ c ∈ retained, Recorded S n c)
    (hfirst : ∃ c ∈ retained, c.prefixLength = 0) : Meets (fun s => Ready S p n s.this)
      (tidyCheckpoints options faults p retained) (fun _ s => Ready S p n s.this)
      fun stop s => Ready S p n s.this ∧ stop = .crash := by
  refine tryCatch (E := fun _ s => Ready S p n s.this) ?_ fun stop => ?_
  · refine bind (meets_onRepository_ready (q := fun _ => True) (meets_doltCheckout_grows.mono_result
      (fun _ _ hr => ⟨trivial, hr⟩))) fun _ => ?_
    refine meets_of_and fun _ => (meets_onRepository_ready
      (meets_pruneCheckpoints_grows hretained hfirst)).bind_of fun keep hkeep => ?_
    subst hkeep
    refine bind (Q := fun _ s => Ready S p n s.this)
      (meets_modify fun s hs => ⟨hs.grows, { hs.memory with
        recorded := fun c hc => hretained c (mem_of_mem_pruned hc)
        genesis := genesis_mem_pruned _ (fun c hc => (hretained c hc).named) hfirst },
        hs.previous⟩) fun _ => ?_
    refine bind (meets_onRepository_ready (q := fun _ => True)
      (meets_cleanupOrphanBranches_grows.mono_result (fun _ _ hr => ⟨trivial, hr⟩))) fun _ => ?_
    exact meets_modify fun s hs => ⟨hs.2.grows, { hs.2.memory with }, hs.2.previous⟩
  · cases stop with
    | crash => exact meets_throw fun _ hs => ⟨hs, rfl⟩
    | thrown error =>
      exact meets_modify fun s hs => ⟨hs.grows, { hs.memory with }, hs.previous⟩

/-! ## The call -/

theorem meets_carryOut_leaves (hruns : RunsByIdentity S.engine) (hgenesis : S.genesis.log = [])
    (hatomic : Atomic faults) (horder : transactions ∈ S.orders)
    (hm : Ready S p m₀.repository.nextHash m₀) (hplan : Planned S transactions plan m₀) :
    Meets (· = ⟨m₀, {}⟩) (carryOut S.engine options faults transactions nonce plan)
      (fun _ s => Leaves S p transactions m₀ s.this) (Fails S p transactions m₀) := by
  have hbegun (stop : Stop) (s : CallState Db) (hs : Begun S p m₀ s) :
      Fails S p transactions m₀ stop s := .inl hs
  refine meets_get_bind fun s hs => ?_
  subst hs
  refine bind_of ((meets_commitCandidate_begun hm hplan).mono_error hbegun)
    fun commit hproduced => ?_
  refine bind ((meets_createDueCheckpoint_begun hruns hgenesis hplan horder
    hproduced).weaken (fun s hs => ⟨hs.2.2, hs.1, hs.2.1⟩) (fun _ _ => id) hbegun) fun _ => ?_
  refine bind_of ((meets_createRevision_begun hm hproduced).mono_error hbegun) fun published hpublished => ?_
  have hnext : IsNext S transactions m₀ published :=
    hpublished ▸ hproduced.isNext hruns hgenesis hplan
  have hcommit : published.doltCommitHash = commit := by rw [hpublished, nextRef]
  subst hcommit
  refine bind_of (meets_openCandidateReader_begun.mono_error hbegun) fun reader hreader => ?_
  subst hreader
  refine meets_of_forall fun s hs => ?_
  have hready := hs
  rw [hpublished] at hready
  have hready := hready.ready hruns hgenesis hm hplan horder hproduced
  rw [← hpublished] at hready
  refine bind (meets_publishHead_posted hatomic hnext hs hready) fun _ => ?_
  refine bind (meets_swapReader_posted hnext (hs.grows.durable.hash _ _ hs.branch)
    (orderOf_eq_of_verifyDesiredLog hproduced.candidate.desired)) fun _ => ?_
  refine meets_get_bind fun s' hs' => ?_
  refine bind ((meets_tidyCheckpoints_ready (fun c hc => ?_) ?_).weaken
    (fun _ hs'' => hs'' ▸ hs'.ready) (fun _ _ => id) fun stop s'' hs'' =>
      .inr ⟨⟨published, _, .inr hnext, hs''.1⟩, .inr hs''.2⟩) fun _ =>
      meets_pure fun s'' hs'' => ⟨published, _, .inr hnext, hs''⟩
  · rcases mem_append.1 hc with hc | hc
    · exact (hm.memory.recorded c (mem_of_mem_filter hc)).of_le hs.grows.nextHash
    · exact hs'.newCheckpoint c (Option.mem_toList.1 hc)
  · obtain ⟨c, hc, hzero⟩ := hm.memory.genesis
    exact ⟨c, mem_append_left _ (mem_filter.2 ⟨hc, by simp [hzero]⟩), hzero⟩

/-- The branch of the replay is reset, if it is checked out. -/
theorem meets_resetReplayBranch_grows (hs : Begun S p m₀ s) :
    KeepsOr (Grows S p m₀.repository.nextHash) (resetReplayBranch faults s.locals) fun _ => Grows S p m₀.repository.nextHash := by
  unfold resetReplayBranch
  split
  · rename_i base branch hbase hbranch
    refine bind (tolerates_self.read Repository.active fun _ => id) fun active =>
      meets_ite (fun hactive => ?_) fun _ => meets_pure fun _ hr => hr.2
    refine tolerates_self.run (meets_modify fun r ⟨hr, hgrows⟩ => ?_) (fun _ hr => hr.2) fun _ _ => id
    have hreplay : r.active.IsReplay := by
      rw [← hr, hactive]
      exact hs.replayBranch branch hbranch
    have hset := hgrows.set (hgrows.durable.loose_of_isReplay hreplay) (fits_of_isReplay hreplay)
      ((hs.replayBaseRef base hbase).trans_le hgrows.nextHash)
    exact ⟨hset.durable.of_branches_eq rfl rfl hset.durable.active, hset.nextHash⟩
  · exact meets_pure fun _ => id

theorem meets_undo_grows (hs : Begun S p m₀ s) :
    KeepsOr (Grows S p m₀.repository.nextHash) (undo faults s.locals) fun _ => Grows S p m₀.repository.nextHash :=
  (meets_resetReplayBranch_grows hs).bind fun _ => meets_doltCheckout_grows.bind fun _ =>
    meets_forM fun name hname => meets_removeBranchIfPresent_grows (hs.branches name hname)

theorem meets_undoUnpublished_ready (hm : Ready S p m₀.repository.nextHash m₀)
    (hs : Begun S p m₀ s) : Meets (· = s) (undoUnpublished faults s.locals)
      (fun _ s' => Ready S p m₀.repository.nextHash s'.this)
      fun _ s' => Ready S p m₀.repository.nextHash s'.this := by
  rw [undoUnpublished, if_neg (by simp [hs.publishedMoved])]
  refine tryCatch ((meets_onRepository_ready (q := fun _ => True) ((meets_undo_grows hs).mono_result
    (fun _ _ hr => ⟨trivial, hr⟩))).weaken
    (fun s' hs' => hs' ▸ hs.ready hm) (fun _ _ hs' => hs'.2) fun _ _ => id) fun stop => ?_
  cases stop with
  | crash => exact meets_throw fun _ => id
  | thrown error => exact meets_pure fun _ => id

theorem meets_handleFailure_leaves {stop : Stop} (hm : Ready S p m₀.repository.nextHash m₀) :
    Meets (Fails S p transactions m₀ stop) (handleFailure faults stop)
      (fun _ s => Leaves S p transactions m₀ s.this)
      fun _ s => Leaves S p transactions m₀ s.this := by
  have hleaves {s : CallState Db} (hs : Fails S p transactions m₀ stop s) :
      Leaves S p transactions m₀ s.this :=
    hs.elim (fun hs => ⟨p, _, .inl rfl, hs.ready hm⟩) And.left
  cases stop with
  | crash => exact meets_throw fun _ => hleaves
  | thrown error =>
    refine meets_get_bind fun s hs => ?_
    have heq (s' : CallState Db) (hs' : s' = s) :
        Leaves S p transactions m₀ s'.this := hs' ▸ hleaves hs
    refine (tolerates_self.unit heq).bind fun _ => (tolerates_self.unit heq).bind fun _ => ?_
    refine bind (Q := fun _ s => Leaves S p transactions m₀ s.this) ?_
      fun _ => meets_throw fun _ => id
    rcases hs with hs | ⟨hs, hmoved⟩
    · exact (meets_undoUnpublished_ready hm hs).weaken (fun _ => id)
        (fun _ _ hs' => ⟨p, _, .inl rfl, hs'⟩) fun _ _ hs' => ⟨p, _, .inl rfl, hs'⟩
    · -- The head has moved: nothing is undone.
      rw [undoUnpublished, if_pos (hmoved.resolve_right (by rintro ⟨⟩))]
      exact meets_pure heq

/-- However a call ends, it leaves the repository durable, with the revision that it was at or with
    that of the call. -/
theorem meets_materialize_leaves (hruns : RunsByIdentity S.engine) (hgenesis : S.genesis.log = [])
    (hatomic : Atomic faults) (horder : transactions ∈ S.orders) (hm : Ready S p n m₀) :
    Meets (· = m₀) (materialize S.engine options faults transactions nonce)
      (fun _ => Leaves S p transactions m₀) fun _ => Leaves S p transactions m₀ := by
  have hm := hm.raise
  refine meets_endCall (tryCatch (E := Fails S p transactions m₀) ?_
    fun stop => meets_handleFailure_leaves hm)
  refine meets_get_bind fun s hs => ?_
  subst hs
  refine bind_of (meets_check_of fun _ _ => fun s hs => ?_) fun result hresult => ?_
  · subst hs
    exact .inl ⟨rfl, hm.grows, forall_mem_nil _, nofun, nofun, nofun, rfl⟩
  cases result with
  | none =>
    refine meets_pure fun s hs => ?_
    subst hs
    exact ⟨p, _, .inl rfl, hm⟩
  | some plan =>
    exact bind (meets_carryOut_leaves hruns hgenesis hatomic horder hm (hm.planned hresult))
      fun _ => meets_pure fun _ => id

end Call

end Chronolog.Materializer
