import Chronolog.Materializer.Opening
import Chronolog.Materializer.Sound

/-!
# Opened materializers

`open` gives a sound materializer (`OpenedAt.sound`) if the repository is `Genuine`: its commits are
told apart by their hashes and its orders by their digests, and their logs are those of one
deterministic execution, so that the rows of a log are determined by the transactions.
-/

namespace Chronolog.Materializer

open Procedure OrdMap Meets List

variable {Db : Type}

/-- What is assumed of a repository that is opened. -/
structure Genuine (engine : Engine Db) (r : Repository Db) : Prop where
  /-- Commits with the same hash are the same. -/
  hash : ∀ name name' commit commit', r.branches.get? name = some commit →
    r.branches.get? name' = some commit' → commit.hash = commit'.hash → commit = commit'
  /-- The order of a branch has the digest of no other beginning of such an order. -/
  digests : ∀ name name' commit commit' n, r.branches.get? name = some commit →
    r.branches.get? name' = some commit' →
    engine.orderDigest (orderOf commit.snapshot.log) =
      engine.orderDigest (orderOf (commit'.snapshot.log.take n)) →
    orderOf commit.snapshot.log = orderOf (commit'.snapshot.log.take n)
  /-- The rows of a checkpoint are those of the head if their transactions are. -/
  rows : ∀ name checkpoint head, r.branches.get? name = some checkpoint →
    r.branches.get? .head = some head →
    orderOf checkpoint.snapshot.log <+: orderOf head.snapshot.log →
    checkpoint.snapshot.log <+: head.snapshot.log

section Contracts

variable {σ α : Type} {P : σ → Prop} {Q : α → σ → Prop} {x : EStateM Stop σ α} {fault : Option Fault}

/-- What is ensured by a procedure that returns. -/
abbrev Ensures (P : σ → Prop) (x : EStateM Stop σ α) (Q : α → σ → Prop) : Prop :=
  Meets P x Q fun _ _ => True

theorem tolerates_true : Tolerates fault (fun _ => True) (fun _ => True) fun _ (_ : σ) => True :=
  tolerates_self

theorem ensures_attempt (h : Ensures P x Q) : Ensures P (attempt fault x) Q :=
  tolerates_true.run h (fun _ _ => trivial) fun _ _ _ => trivial

theorem ensures_check {result : Except MaterializerError α} :
    Ensures P (check result) fun a s => result = .ok a ∧ P s :=
  meets_check_of fun _ _ _ _ => trivial

theorem ensures_attempt_unit : Ensures P (attempt fault (pure ())) fun _ => P :=
  tolerates_true.unit fun _ _ => trivial

theorem ensures_read (g : σ → α) :
    Ensures P (attempt fault (get >>= fun s => pure (g s))) fun a s => a = g s ∧ P s :=
  tolerates_true.read g fun _ _ => trivial

theorem ensures_doltBranches {P : Repository Db → Prop} :
    Ensures P (attempt fault doltBranches) fun branches r => branches = r.branches.entries ∧ P r :=
  ensures_read fun r : Repository Db => r.branches.entries

end Contracts

section Open

variable {engine : Engine Db} {faults : OpeningOperation → Option Fault}
  {r₁ : Repository Db}
variable {published : PublishedRef Db} {fault : Option Fault}
  {commit : Commit Db}

/-- The published revision is that of the head, on a branch of its own. -/
structure PublishedAt (published : PublishedRef Db) (r : Repository Db) : Prop where
  head : r.branches.get? .head = some published.doltCommitHash
  branchRef : published.branchRef.isOrphan
  branch : r.branches.get? published.branchRef = some published.doltCommitHash
  rows : ∀ name checkpoint, r.branches.get? name = some checkpoint →
    orderOf checkpoint.snapshot.log <+: orderOf published.doltCommitHash.snapshot.log →
    checkpoint.snapshot.log <+: published.doltCommitHash.snapshot.log

theorem ensures_discoverPublishedRef (hr : Genuine engine r₁) :
    Ensures (· = r₁) (discoverPublishedRef engine faults)
      fun result r => r = r₁ ∧ ∀ published ∈ result, PublishedAt published r₁ := by
  refine bind ensures_doltBranches fun branches => ?_
  refine meets_of_forall fun r ⟨hbranches, hr'⟩ => ?_
  subst hr' hbranches
  split
  · exact meets_pure fun s hs => ⟨hs, nofun⟩
  rename_i name head hhead
  obtain rfl : name = .head := by simpa using find?_some hhead
  have hget := mem_entries_iff.1 (mem_of_find?_eq_some hhead)
  dsimp only
  split
  · rename_i marker hmatching
    refine bind ensures_attempt_unit fun _ => meets_pure fun s hs => ⟨hs, ?_⟩
    rintro _ ⟨⟩
    have hmem : marker ∈ [marker] := mem_singleton_self marker
    rw [← hmatching] at hmem
    obtain ⟨⟨name, commit⟩, hentry, hparsed⟩ := mem_filterMap.1 hmem
    split at hparsed
    · rename_i hhash
      have hcommit := mem_entries_iff.1 hentry
      obtain rfl := hr.hash name .head commit head hcommit hget hhash
      cases name with
      | revision revision prefixLength orderDigest =>
        cases hparsed
        exact ⟨hget, rfl, hcommit, fun name checkpoint hc => hr.rows name checkpoint commit hc hget⟩
      | _ => cases hparsed
    · cases hparsed
  · exact meets_throw fun _ _ => trivial

theorem ensures_resetActiveWorkingSet :
    Ensures (· = r₁) (resetActiveWorkingSet faults) fun _ r => r.branches = r₁.branches := by
  refine bind (ensures_read fun r : Repository Db => r.active) fun active => ?_
  refine bind ensures_doltBranches fun branches => ?_
  refine meets_of_forall fun r ⟨hbranches, hactive, hr⟩ => ?_
  subst hr hbranches hactive
  split
  · exact meets_throw fun _ _ => trivial
  rename_i name commit hfound
  obtain rfl : name = r.active := by simpa using find?_some hfound
  refine ensures_attempt (meets_modify fun s hs => ?_)
  subst hs
  -- The branch that is checked out already is at this commit.
  exact set_of_get?_eq_some (mem_entries_iff.1 (mem_of_find?_eq_some hfound))

theorem PublishedAt.of_branches_eq {r r' : Repository Db} (h : PublishedAt published r)
    (hbranches : r'.branches = r.branches) : PublishedAt published r' := by
  obtain ⟨hhead, hname, hbranch, hrows⟩ := h
  rw [← hbranches] at hhead hbranch
  refine ⟨hhead, hname, hbranch, fun name checkpoint hc => ?_⟩
  rw [hbranches] at hc
  exact hrows name checkpoint hc

/-- The branches of `r` are those of `r₁`, or at the commit. -/
def Adds (r₁ : Repository Db) (commit : Commit Db) (r : Repository Db) : Prop :=
  ∀ name c, r.branches.get? name = some c → c = commit ∨ r₁.branches.get? name = some c

variable {r : Repository Db}

theorem Adds.set (h : Adds r₁ commit r) (name : BranchName) :
    Adds r₁ commit { r with branches := r.branches.set name commit } := by
  intro name' c hget
  rw [get?_set] at hget
  split_ifs at hget
  · exact .inl (Option.some.inj hget).symm
  · exact h name' c hget

theorem ensures_doltBranch {name : BranchName} :
    Ensures (Adds r₁ commit) (attempt fault (doltBranch name commit))
      fun _ r => Adds r₁ commit r ∧ r.branches.get? name = some commit := by
  refine ensures_attempt (meets_get_bind fun r hr => meets_ite (fun _ => ?_) fun _ => ?_)
  · exact meets_throw fun _ _ => trivial
  · exact meets_set fun _ => ⟨hr.set name, get?_set_self ..⟩

/-- The working set of `r₁`, made into one of a revision without transactions. -/
def genesisOf (engine : Engine Db) (r₁ : Repository Db) : Snapshot Db :=
  ⟨engine.bootstrap r₁.working.content, []⟩

/-- The published revision has no transactions, and so have the branches that were added. -/
structure Initial (engine : Engine Db) (r₁ : Repository Db)
    (published : PublishedRef Db) (r : Repository Db) : Prop where
  genesis : published.doltCommitHash.snapshot = genesisOf engine r₁
  adds : Adds r₁ published.doltCommitHash r

theorem ensures_commitGenesis :
    Ensures (fun r => r.branches = r₁.branches ∧ r.working = genesisOf engine r₁)
      (attempt fault doltCommit) fun commit r =>
        commit.snapshot = genesisOf engine r₁ ∧ Adds r₁ commit r := by
  refine ensures_attempt (meets_get_bind fun r ⟨hbranches, hworking⟩ => ?_)
  refine bind (Q := fun _ => Adds r₁ ⟨r.nextHash, r.working⟩) ?_ fun _ =>
    meets_pure fun _ hs => ⟨hworking, hs⟩
  have hadds : Adds r₁ ⟨r.nextHash, r.working⟩ r := fun name c hget => .inr (hbranches ▸ hget)
  exact meets_set fun _ => hadds.set r.active

variable {log : List TransactionLogRow}

theorem ensures_createGenesisRevision {fault fault' : Option Fault} :
    Ensures (Adds r₁ commit) (createRevisionRef engine fault fault' 0 0 commit log)
      fun published r => published.branchRef.isOrphan ∧ published.doltCommitHash = commit ∧
        Adds r₁ commit r ∧ r.branches.get? published.branchRef = some commit := by
  refine bind ensures_doltBranch fun _ => ?_
  exact bind (ensures_attempt (meets_pure fun _ => id)) fun _ =>
    meets_pure fun _ hr => ⟨rfl, rfl, hr⟩

/-- A repository is initialized with a revision without transactions. -/
theorem ensures_initializeRepository :
    Ensures (· = r₁) (initializeRepository engine faults) fun published r =>
      Initial engine r₁ published r ∧ PublishedAt published r ∧
        r.working = published.doltCommitHash.snapshot := by
  refine bind (ensures_read fun r : Repository Db => r.working.content)
    fun content => ?_
  refine bind_of ensures_check fun _ _ => ?_
  refine bind_of ensures_check fun _ _ => ?_
  refine bind (Q := fun _ r => r.branches = r₁.branches ∧ r.working = genesisOf engine r₁)
    (ensures_attempt (meets_modify ?_)) fun _ => ?_
  · rintro r ⟨rfl, rfl⟩
    exact ⟨rfl, rfl⟩
  refine bind (ensures_read fun r : Repository Db => r.working.log)
    fun log => ?_
  refine bind_of (ensures_commitGenesis.mono_start (fun _ hr => hr.2))
    fun commit hcommit => ?_
  refine bind (Q := fun _ => Adds r₁ commit)
    (bind (bind ensures_doltBranch fun _ => ?_) fun _ => meets_pure fun _ => id) fun _ => ?_
  · exact bind (ensures_attempt (meets_pure fun _ hr => hr.1)) fun _ => meets_pure fun _ => id
  refine bind_of ensures_createGenesisRevision
    fun published hname => meets_of_and fun hpublished => ?_
  subst hpublished
  refine bind (Q := fun _ r => Initial engine r₁ published r ∧ PublishedAt published r)
    (ensures_attempt (meets_modify fun r ⟨hadds, hbranch⟩ => ⟨⟨hcommit, hadds.set .head⟩, ?_⟩))
    fun _ => ?_
  · refine ⟨get?_set_self .., hname, by rw [get?_set, hbranch, ite_self], fun name c _ horder => ?_⟩
    -- A log without transactions is a beginning of each log.
    rw [show published.doltCommitHash.snapshot.log = [] from congrArg Snapshot.log hcommit] at horder ⊢
    exact prefix_nil.2 (map_eq_nil_iff.1 (prefix_nil.1 horder))
  refine bind (ensures_attempt (meets_get_bind fun r hr => ?_)) fun _ => meets_pure fun _ => id
  rw [hr.2.head]
  exact meets_set fun _ => ⟨⟨hr.1.genesis, hr.1.adds⟩, hr.2.of_branches_eq rfl, rfl⟩

/-- The digest of a branch's order tells whether it is a beginning of the published order. -/
def Distinct (engine : Engine Db) (published : PublishedRef Db) (r : Repository Db) : Prop :=
  ∀ name c n, r.branches.get? name = some c →
    engine.orderDigest (orderOf c.snapshot.log) =
      engine.orderDigest (orderOf (published.doltCommitHash.snapshot.log.take n)) →
    orderOf c.snapshot.log = orderOf (published.doltCommitHash.snapshot.log.take n)

theorem Initial.distinct (hr : Genuine engine r₁) (h : Initial engine r₁ published r) :
    Distinct engine published r := by
  intro name c n hget hdigest
  rw [h.genesis, genesisOf, take_nil] at hdigest ⊢
  rcases h.adds name c hget with rfl | hget
  · rw [h.genesis, genesisOf]
  · exact hr.digests name name c c 0 hget hget hdigest

/-- The published revision, of a repository that was published to before or of a new one. -/
theorem ensures_checkoutPublished (hr : Genuine engine r₁) :
    Ensures (· = r₁) (checkoutPublished engine faults)
      fun published r => Distinct engine published r ∧ PublishedAt published r ∧
        r.working = published.doltCommitHash.snapshot := by
  refine bind (ensures_discoverPublishedRef hr) fun result => ?_
  cases result with
  | none =>
    exact ensures_initializeRepository.weaken (fun _ hr => hr.1)
      (fun _ _ h => ⟨h.1.distinct hr, h.2⟩) fun _ _ => id
  | some published =>
    refine meets_of_forall fun r ⟨hr', hpublished⟩ => ?_
    subst hr'
    have hat := hpublished published rfl
    let found (r' : Repository Db) : Prop := Distinct engine published r' ∧ PublishedAt published r'
    have hfound {r' : Repository Db} (hbranches : r'.branches = r.branches) : found r' :=
      ⟨fun name c n hget => hr.digests name .head c _ n (hbranches ▸ hget) hat.head,
        hat.of_branches_eq hbranches⟩
    refine bind (Q := fun _ r' => r'.branches = r.branches) ensures_resetActiveWorkingSet
      fun _ => ?_
    refine bind (Q := fun _ r' => found r' ∧ r'.working = published.doltCommitHash.snapshot)
      (ensures_attempt (meets_get_bind fun r' hbranches => ?_)) fun _ => ?_
    · rw [(hfound hbranches).2.head]
      exact meets_set fun _ => ⟨hfound hbranches, rfl⟩
    refine bind (ensures_read fun r : Repository Db => r.working.content)
      fun content => ?_
    exact bind ensures_check fun _ => meets_pure fun _ hr => ⟨hr.2.2.1.1, hr.2.2.1.2, hr.2.2.2⟩

/-- A repository without a head is initialized. -/
theorem ensures_checkoutPublished_of_head (hhead : r₁.branches.get? .head = none) :
    Ensures (· = r₁) (checkoutPublished engine faults) fun published r =>
      Initial engine r₁ published r ∧ PublishedAt published r ∧
        r.working = published.doltCommitHash.snapshot := by
  refine bind (Q := fun result r => result = none ∧ r = r₁) ?_ fun result =>
    meets_of_and fun hresult => ?_
  · refine bind ensures_doltBranches fun branches => meets_of_forall fun r ⟨hbranches, hr⟩ => ?_
    subst hr hbranches
    split
    · exact meets_pure fun s hs => ⟨rfl, hs⟩
    · rename_i name head hfound
      obtain rfl : name = .head := by simpa using find?_some hfound
      have hget := mem_entries_iff.1 (mem_of_find?_eq_some hfound)
      rw [hhead] at hget
      cases hget
  · subst hresult
    exact ensures_initializeRepository

/-! ## Checkpoints that are found -/

section Validation

variable {publishedLog : List TransactionLogRow}
  {checkpoints : List (MaterializerCheckpointInfo Db)}
  {c : MaterializerCheckpointInfo Db} {name : BranchName}
variable {removed : List BranchName}

/-- The branches of `r` are branches of `r₁`, and those of them that are not removed by name. -/
structure Cleans (removed : List BranchName) (r₁ r : Repository Db) : Prop where
  sub : ∀ name commit, r.branches.get? name = some commit → r₁.branches.get? name = some commit
  kept : ∀ name, name ∉ removed → r.branches.get? name = r₁.branches.get? name

theorem Cleans.refl (removed : List BranchName) (r : Repository Db) : Cleans removed r r :=
  ⟨fun _ _ => id, fun _ _ => rfl⟩

theorem Cleans.of_branches_eq {r r' : Repository Db} (h : Cleans removed r₁ r)
    (hbranches : r'.branches = r.branches) : Cleans removed r₁ r' := by
  obtain ⟨hsub, hkept⟩ := h
  rw [← hbranches] at hsub hkept
  exact ⟨hsub, hkept⟩

theorem ensures_removeBranchIfPresent {listing deleting : Option Fault} (hname : name ∈ removed) :
    Ensures (Cleans removed r₁) (removeBranchIfPresent listing deleting name)
      fun _ => Cleans removed r₁ := by
  refine meets_removeBranchIfPresent_of (tolerates_of fun _ _ _ _ => trivial)
    (tolerates_of fun _ _ _ _ => trivial) (fun _ _ _ _ => trivial) fun r hr _ =>
      ⟨fun name' commit h => ?_, fun name' h => ?_⟩
  · rw [get?_erase] at h
    split_ifs at h
    exact hr.sub name' commit h
  · rw [get?_erase, if_neg (by rintro rfl; exact h hname)]
    exact hr.kept name' h

/-- A checkout leaves the branches. -/
theorem meets_doltCheckout_cleans {fault : Option Fault} :
    Meets (Cleans removed r₁) (attempt fault (doltCheckout name)) (fun _ r => Cleans removed r₁ r ∧
        ∃ commit, r.branches.get? name = some commit ∧ r.working = commit.snapshot)
      (Aborts (Cleans removed r₁) True) := by
  refine tolerates_aborts.run (meets_get_bind fun r hr => ?_) (fun _ => id) fun _ _ hr => hr.1
  cases hget : r.branches.get? name with
  | none => exact meets_storeError fun _ hs => hs ▸ hr
  | some commit => exact meets_set fun _ => ⟨hr.of_branches_eq rfl, commit, hget, rfl⟩

/-- The branch of a checkpoint has a log of the checkpoint's length with a digest. -/
def Matches (engine : Engine Db) (expectedDigest : Bytes)
    (c : MaterializerCheckpointInfo Db) (commit : Commit Db) : Prop :=
  commit.snapshot.log.length = c.prefixLength ∧
    engine.orderDigest (orderOf commit.snapshot.log) = expectedDigest

theorem ensures_checkpointMatches {expectedDigest : Bytes} :
    Ensures (Cleans removed r₁) (checkpointMatches engine faults expectedDigest c)
      fun isMatch r => Cleans removed r₁ r ∧ (isMatch →
        ∃ commit, r.branches.get? c.branchRef = some commit ∧
          Matches engine expectedDigest c commit) := by
  refine tryCatch (E := Aborts (Cleans removed r₁) True) ?_ fun stop => ?_
  · refine meets_doltCheckout_cleans.bind fun _ => meets_of_forall fun r ⟨hr, commit, hget, hw⟩ => ?_
    have hcleans : ∀ s, s = r → Cleans removed r₁ s := fun s hs => hs ▸ hr
    have hread {α : Type} (g : Snapshot Db → α) {fault : Option Fault} :
        Meets (· = r) (attempt fault (get >>= fun r => pure (g r.working)))
          (fun a s => a = g commit.snapshot ∧ s = r) (Aborts (Cleans removed r₁) True) := by
      refine tolerates_aborts.run (meets_get_bind fun s hs => meets_pure fun s' hs' => ?_) hcleans
        fun _ s hs => hcleans s hs.2
      rw [hs', hs, hw]
      exact ⟨rfl, rfl⟩
    refine (hread Snapshot.content).bind_of fun content _ => ?_
    refine (meets_check hcleans fun _ _ _ => trivial).bind_of fun _ _ => ?_
    refine (hread Snapshot.log).bind_of fun log hlog => ?_
    refine (meets_check hcleans fun _ _ _ => trivial).bind_of fun _ _ => ?_
    refine meets_pure fun s hs => ⟨hcleans s hs, fun h => ⟨commit, hs ▸ hget, ?_⟩⟩
    subst hlog
    simpa [Matches] using h
  · cases stop with
    | crash => exact meets_throw fun _ _ => trivial
    | thrown error => exact meets_pure fun _ hs => ⟨hs.1, nofun⟩

section

variable (engine : Engine Db) (publishedLog : List TransactionLogRow)
  (c : MaterializerCheckpointInfo Db)

/-- The digest that the log of a checkpoint must have. -/
def expectedDigest : Bytes :=
  engine.orderDigest (orderOf (publishedLog.take c.prefixLength))

/-- A checkpoint that is kept has its branch, with the log it must have. -/
def KeptBy (r : Repository Db) : Prop :=
  c.prefixLength ≤ publishedLog.length ∧ ∃ commit, r.branches.get? c.branchRef = some commit ∧
    Matches engine (expectedDigest engine publishedLog c) c commit

end

theorem ensures_validateCheckpointRef (hname : c.branchRef ∈ removed) :
    Ensures (Cleans removed r₁) (validateCheckpointRef engine faults publishedLog c)
      fun valid r => Cleans removed r₁ r ∧ (valid → KeptBy engine publishedLog c r) := by
  have hremove : Ensures (Cleans removed r₁) (removeCheckpoint faults c)
      fun valid r => Cleans removed r₁ r ∧ (valid → KeptBy engine publishedLog c r) :=
    bind (ensures_removeBranchIfPresent hname) fun _ => meets_pure fun _ hs => ⟨hs, nofun⟩
  refine meets_ite (fun _ => hremove) fun hvalid => ?_
  refine bind ensures_checkpointMatches fun isMatch => ?_
  refine meets_of_forall fun r ⟨hr, hmatch⟩ => ?_
  refine bind (Q := fun _ r' => r'.branches = r.branches) ?_ fun _ => ?_
  · refine ensures_attempt (meets_get_bind fun r' hr' => ?_)
    subst hr'
    split
    · exact meets_throw fun _ _ => trivial
    · exact meets_set fun _ => rfl
  · refine meets_ite (fun hisMatch => meets_pure fun s hs => ⟨hr.of_branches_eq hs, fun _ => ?_⟩)
      fun _ => hremove.mono_start fun s hs => hr.of_branches_eq hs
    obtain ⟨commit, hget, hcommit⟩ := hmatch hisMatch
    refine ⟨?_, commit, hs ▸ hget, hcommit⟩
    exact Nat.not_lt.1 fun h => hvalid (Or.inl h)

/-- The loop keeps checkpoints that match and removes no other branches than of checkpoints. -/
theorem ensures_validCheckpoints (hnodup : (checkpoints.map (·.branchRef)).Nodup) :
    Ensures (· = r₁) (validCheckpoints engine faults publishedLog checkpoints)
      fun valid r => Cleans (checkpoints.map (·.branchRef)) r₁ r ∧
        ∀ c ∈ valid, c ∈ checkpoints ∧ KeptBy engine publishedLog c r := by
  induction checkpoints generalizing r₁ with
  | nil => exact meets_pure fun r hr => ⟨hr ▸ Cleans.refl _ _, nofun⟩
  | cons c checkpoints ih =>
    obtain ⟨hnew, hnodup⟩ := nodup_cons.1 hnodup
    refine bind (Q := fun (valid : Bool) r => Cleans [c.branchRef] r₁ r ∧
      (valid → KeptBy engine publishedLog c r)) ?_ fun valid =>
        meets_of_forall fun r₂ ⟨hr₂, hvalid⟩ => ?_
    · exact (ensures_validateCheckpointRef (mem_singleton_self c.branchRef)).mono_start
        fun r hr => hr ▸ Cleans.refl _ _
    refine bind (ih hnodup) fun rest => meets_pure fun r ⟨hr, hrest⟩ => ?_
    have hsame : r.branches.get? c.branchRef = r₂.branches.get? c.branchRef := hr.kept _ hnew
    refine ⟨⟨fun name commit h => hr₂.sub name commit (hr.sub name commit h), fun name h => ?_⟩, ?_⟩
    · obtain ⟨hne, hnot⟩ := not_or.1 (fun h' => h (mem_cons.2 h'))
      exact (hr.kept name hnot).trans (hr₂.kept name (by simpa using hne))
    · intro c' hc'
      split at hc'
      · rcases mem_cons.1 hc' with rfl | hc'
        · refine ⟨mem_cons_self, ?_⟩
          obtain ⟨hle, commit, hget, hcommit⟩ := hvalid ‹_›
          exact ⟨hle, commit, hsame.trans hget, hcommit⟩
        · exact ⟨mem_cons_of_mem _ (hrest c' hc').1, (hrest c' hc').2⟩
      · exact ⟨mem_cons_of_mem _ (hrest c' hc').1, (hrest c' hc').2⟩

theorem parseCheckpointBranch_spec {commit : Commit Db}
    (h : parseCheckpointBranch engine commit name = some c) :
    c.Named ∧ c.branchRef = name ∧ c.doltCommitHash = commit := by
  cases name with
  | checkpoint prefixLength revision digest =>
    cases h
    exact ⟨⟨revision, digest, rfl⟩, rfl, rfl⟩
  | _ => cases h

theorem branchRefs_sublist (l : List (BranchName × Commit Db)) :
    ((l.filterMap fun e => parseCheckpointBranch engine e.2 e.1).map (·.branchRef)).Sublist
      (l.map Prod.fst) := by
  induction l with
  | nil => exact Sublist.slnil
  | cons e l ih =>
    rw [filterMap_cons]
    cases h : parseCheckpointBranch engine e.2 e.1 with
    | none => exact ih.cons _
    | some c =>
      rw [map_cons, (parseCheckpointBranch_spec h).2.1]
      exact ih.cons_cons _

/-- The checkpoints of a repository, as `discoverCheckpoints` finds them. -/
structure Discovered (r₁ : Repository Db)
    (checkpoints : List (MaterializerCheckpointInfo Db)) : Prop where
  nodup : (checkpoints.map (·.branchRef)).Nodup
  holds : Holds checkpoints r₁
  all : ∀ n revision digest, r₁.branches.has (.checkpoint n revision digest) →
    ∃ c ∈ checkpoints, c.branchRef = .checkpoint n revision digest ∧ c.prefixLength = n

/-- The checkpoints that are found are those of the branches named so. -/
theorem meets_discoverCheckpoints {I : Repository Db → Prop} {E : Stop → Repository Db → Prop}
    (hI : I r₁) (hlist : Tolerates (faults .listForCheckpoints) I I E)
    (hhash : ∀ name, Tolerates (faults (.hashCheckpoint name)) I I E) :
    Meets (· = r₁) (discoverCheckpoints engine faults)
      (fun checkpoints r => Discovered r₁ checkpoints ∧ r = r₁) E := by
  have hstart : ∀ r, r = r₁ → I r := fun r hr => hr ▸ hI
  refine bind (hlist.read (fun r => r.branches.entries) hstart) fun branches =>
    meets_of_forall fun r ⟨hbranches, hr⟩ => ?_
  subst hr hbranches
  refine bind (Q := fun _ => (· = r)) (meets_forM fun c _ => (hhash _).unit hstart) fun _ =>
    meets_pure fun s hs => ⟨⟨?_, fun c hc => ?_, fun n revision digest hhas => ?_⟩, hs⟩
  · refine ((perm_insertionSort _ _).map _).nodup_iff.2 ?_
    exact (branchRefs_sublist _).nodup r.branches.nodup_keys
  · obtain ⟨⟨name, commit⟩, hentry, hparsed⟩ :=
      mem_filterMap.1 ((mem_insertionSort _).1 hc)
    obtain ⟨hnamed, hname, hcommit⟩ := parseCheckpointBranch_spec hparsed
    refine ⟨hnamed, ?_⟩
    rw [hname, hcommit]
    exact mem_entries_iff.1 hentry
  · obtain ⟨commit, hget⟩ := has_iff.1 hhas
    refine ⟨_, (mem_insertionSort _).2 (mem_filterMap.2
      ⟨_, mem_entries_iff.2 hget, rfl⟩), rfl, rfl⟩

/-- The checkpoints that are kept have their branches, with the logs they must have. -/
structure Validated (engine : Engine Db) (publishedLog : List TransactionLogRow)
    (r₁ : Repository Db) (checkpoints : List (MaterializerCheckpointInfo Db)) : Prop where
  found : Holds checkpoints r₁
  isMatch : ∀ c ∈ checkpoints, Matches engine (expectedDigest engine publishedLog c) c c.doltCommitHash
  genesis : ∃ c ∈ checkpoints, c.prefixLength = 0

theorem ensures_validateCheckpointRefs {published : PublishedRef Db}
    (hr : PublishedAt published r₁) :
    Ensures (· = r₁) (validateCheckpointRefs engine faults published publishedLog)
      fun checkpoints r => Validated engine publishedLog r₁ checkpoints ∧ Holds checkpoints r ∧
        r.branches.get? published.branchRef = some published.doltCommitHash := by
  refine (meets_discoverCheckpoints trivial tolerates_true fun _ => tolerates_true).bind fun found =>
    meets_of_and fun ⟨hnodup, hfound, _⟩ => ?_
  refine bind (ensures_validCheckpoints hnodup) fun valid =>
    meets_of_forall fun r₂ ⟨hr₂, hvalid⟩ => ?_
  refine bind (Q := fun _ r => r.branches = r₂.branches) ?_ fun _ => ?_
  · refine ensures_attempt (meets_get_bind fun r hr => ?_)
    subst hr
    split
    · exact meets_throw fun _ _ => trivial
    · exact meets_set fun _ => rfl
  refine bind_of ensures_check fun _ hgenesis => ?_
  refine bind_of ensures_check fun _ _ => ?_
  -- What is left of a checkpoint's branch is what was found.
  have hcommit (c : MaterializerCheckpointInfo Db) (hc : c ∈ valid) :
      r₂.branches.get? c.branchRef = some c.doltCommitHash ∧
      Matches engine (expectedDigest engine publishedLog c) c c.doltCommitHash := by
    obtain ⟨hmem, _, commit, hget, hmatches⟩ := hvalid c hc
    obtain rfl : commit = c.doltCommitHash :=
      Option.some.inj ((hr₂.sub _ _ hget).symm.trans (hfound c hmem).2)
    exact ⟨hget, hmatches⟩
  refine meets_pure fun r hbranches => ⟨⟨fun c hc => ?_, fun c hc => ?_, ?_⟩, fun c hc => ?_, ?_⟩
  · exact hfound c (hvalid c ((mem_insertionSort _).1 hc)).1
  · exact (hcommit c ((mem_insertionSort _).1 hc)).2
  · split at hgenesis
    · rename_i hany
      obtain ⟨c, hc, hzero⟩ := any_eq_true.1 hany
      exact ⟨c, (mem_insertionSort _).2 hc, by simpa using hzero⟩
    · cases hgenesis
  · have hc := (mem_insertionSort _).1 hc
    refine ⟨(hfound c (hvalid c hc).1).1, ?_⟩
    rw [hbranches]
    exact (hcommit c hc).1
  · rw [hbranches, hr₂.kept, hr.branch]
    intro hmem
    obtain ⟨c, hc, hname⟩ := mem_map.1 hmem
    refine BranchName.not_isCheckpoint_of_isOrphan hr.branchRef ?_
    rw [← hname]
    exact (hfound c hc).1.isCheckpoint

/-- The checkpoints that are found are beginnings of the published log. -/
theorem Validated.beginning {published : PublishedRef Db}
    (hdistinct : Distinct engine published r₁) (hr : PublishedAt published r₁)
    (h : Validated engine published.doltCommitHash.snapshot.log r₁ checkpoints)
    (hc : c ∈ checkpoints) :
    c.doltCommitHash.snapshot.log <+: published.doltCommitHash.snapshot.log ∧
      c.doltCommitHash.snapshot.log.length = c.prefixLength := by
  obtain ⟨hlength, hsame⟩ := h.isMatch c hc
  refine ⟨hr.rows _ _ (h.found c hc).2 ?_, hlength⟩
  rw [hdistinct _ _ _ (h.found c hc).2 hsame]
  exact (List.take_prefix _ _).map _

end Validation

/-- The reader sees the published revision. -/
theorem ensures_openReader {P : Repository Db → Prop} :
    Ensures (fun r => P r ∧ r.branches.get? published.branchRef = some published.doltCommitHash)
      (openReader engine faults published)
      fun reader r => reader = published.doltCommitHash.snapshot ∧ P r ∧
        r.branches.get? published.branchRef = some published.doltCommitHash := by
  refine bind ensures_attempt_unit fun _ => ?_
  refine bind (Q := fun reader r => reader = published.doltCommitHash.snapshot ∧ P r ∧
    r.branches.get? published.branchRef = some published.doltCommitHash) ?_ fun reader => ?_
  · refine ensures_attempt (meets_get_bind fun r hr => ?_)
    rw [hr.2]
    exact meets_pure fun s hs => ⟨rfl, hs ▸ hr⟩
  refine bind ensures_attempt_unit fun _ => ?_
  refine bind_of ensures_check fun _ _ => ?_
  refine bind ensures_attempt_unit fun _ => ?_
  refine bind_of ensures_check fun _ _ => ?_
  refine bind_of ensures_check fun _ _ => ?_
  refine bind ensures_attempt_unit fun _ => ?_
  exact bind ensures_check fun _ => meets_pure fun _ hr => hr.2

/-- A materializer that was opened when the published revision was checked out in `r₂`. -/
structure OpenedAt (engine : Engine Db) (r₂ : Repository Db)
    (m : DeterministicMaterializer Db) : Prop where
  published : PublishedAt m.published r₂
  reader : m.reader = m.published.doltCommitHash.snapshot
  log : m.log = m.published.doltCommitHash.snapshot.log
  order : m.order = orderOf m.log
  validated : Validated engine m.published.doltCommitHash.snapshot.log r₂ m.checkpoints
  holds : Holds m.checkpoints m.repository

/-- What is ensured of the published revision is ensured of an opened materializer. -/
theorem ensures_openMaterializer {P : PublishedRef Db → Repository Db → Prop}
    (h : Ensures (· = r₁) (checkoutPublished engine faults) fun published r =>
      P published r ∧ PublishedAt published r ∧ r.working = published.doltCommitHash.snapshot) :
    Ensures (· = r₁) (openMaterializer engine faults)
      fun m _ => ∃ r₂, P m.published r₂ ∧ OpenedAt engine r₂ m := by
  refine bind ensures_attempt_unit fun _ => ?_
  refine bind h fun published => ?_
  refine bind (ensures_read fun r : Repository Db => r.working.log)
    fun log => ?_
  refine bind_of ensures_check fun _ _ => ?_
  refine bind_of ensures_check fun _ _ => ?_
  refine meets_of_forall fun r₂ ⟨hlog, hP, hpublished, hworking⟩ => ?_
  rw [hworking] at hlog
  subst hlog
  refine bind_of (ensures_validateCheckpointRefs hpublished) fun checkpoints hvalidated => ?_
  let held (r : Repository Db) : Prop := Holds checkpoints r ∧
    r.branches.get? published.branchRef = some published.doltCommitHash
  refine bind (Q := fun _ => held) ?_ fun _ => ?_
  · refine (meets_cleanupOrphanBranches_of fun r name ⟨hholds, hbranch⟩ horphan hne _ =>
      ⟨fun c hc => ⟨(hholds c hc).1, ?_⟩, ?_⟩).mono_error
      fun _ _ _ => trivial
    · rw [get?_erase, if_neg]
      · exact (hholds c hc).2
      · rintro rfl
        exact BranchName.not_isCheckpoint_of_isOrphan horphan (hholds c hc).1.isCheckpoint
    · rw [get?_erase, if_neg hne.symm, hbranch]
  refine bind (Q := fun reader r => reader = published.doltCommitHash.snapshot ∧ held r)
    ensures_openReader fun reader => meets_of_and fun hreader => ?_
  refine meets_get_bind fun r hr => meets_pure fun _ _ => ⟨r₂, hP, ?_⟩
  subst hreader
  exact ⟨hpublished, rfl, rfl, rfl, hvalidated, hr.1⟩

end Open

section Opened

variable {engine : Engine Db} {faults : OpeningOperation → Option Fault}
  {r r' r₂ : Repository Db} {m : DeterministicMaterializer Db}

/-- An opened materializer is sound. -/
theorem OpenedAt.sound (hdistinct : Distinct engine m.published r₂) (h : OpenedAt engine r₂ m) :
    Sound m where
  order := h.order
  published := h.log.symm
  holds := h.holds
  beginning c hc := by
    rw [h.log]
    exact h.validated.beginning hdistinct h.published hc
  genesis := h.validated.genesis

end Opened

/-! ## A new repository -/

namespace AcceptAll

/-- The trees of `SELECT 1` and `DELETE FROM t`. -/
def parse : Compiler.Parser := fun sql =>
  if sql = "SELECT 1" then
    .ok [.mk .root .selectStmt ⟨0, 8⟩ [.mk .body .select ⟨0, 8⟩
      [.mk .select (.selectFrom none) ⟨0, 8⟩ [.mk .columns .exprResultColumn ⟨7, 1⟩
        [.mk .expr (.numericLiteral "1") ⟨7, 1⟩ []]]]]]
  else .ok [.mk .root .deleteStmt ⟨0, 13⟩ []]

/-- An engine that accepts every transaction. -/
def engine : Engine Unit where
  parse := parse
  sha256 bytes := bytes.reverse.take 32
  runProgram _ _ := .ok ((), ⟨.accepted, none, {}⟩)
  verifyLogRow _ := .ok ()
  verifyDatabaseState _ := .ok ()
  doltHashOf snapshot := (orderOf snapshot.log).flatten
  schemaNames _ := []
  bootstrap := id

/-- A checkpoint for every transaction. -/
def options : MaterializerOptions := ⟨1, 16, by decide, by decide⟩

/-- A repository without a published revision. -/
def fresh : Repository Unit where
  branches := .ofList [(.other "main", ⟨0, ⟨(), []⟩⟩)]
  active := .other "main"
  working := ⟨(), []⟩
  nextHash := 1

/-- What the author of the transaction of a number signs. -/
def core (number : UInt8) : TransactionCore where
  groupId := replicate 32 0
  membershipRevision := replicate 32 0
  validationPolicy := replicate 32 0
  authorId := replicate 32 1
  authorTimestampMs := number.toNat
  nonce := replicate 16 number
  executionManifestDigest := replicate 32 0
  program := ⟨[⟨0, ⟨"SELECT 1", []⟩, .scalar, .assertTrue, none⟩], [⟨"DELETE FROM t", []⟩]⟩
  metadata := none

/-- What an encoder returns. -/
def bytesOf (result : Canonical.Codec Bytes) : Bytes := result.toOption.getD []

/-- The transaction of a number, with a timestamp of its own. -/
def transaction (number : UInt8) : AdmittedTransaction where
  txId := [number]
  candidateDigest := bytesOf (Protocol.transactionDigest engine.sha256 (.inl (core number)))
  canonicalCandidate := bytesOf (Protocol.encodeTransactionCore (core number))
  authorFeedSequence := 0
  core := core number

def opened : DeterministicMaterializer Unit :=
  (returned (openMaterializer engine (fun _ => none) fresh)).get (by decide +kernel)

/-- A materializer with one transaction. -/
def alone : DeterministicMaterializer Unit :=
  finalState (materialize engine options (fun _ => none) [transaction 20] "a" opened)

theorem genuine_fresh : Genuine engine fresh := by
  have honly (name : BranchName) (commit : Commit Unit)
      (h : fresh.branches.get? name = some commit) :
      name = .other "main" ∧ commit = ⟨0, ⟨(), []⟩⟩ := by
    simpa using mem_of_get?_ofList h
  refine ⟨fun name name' commit commit' h h' _ => ?_, fun name name' commit commit' n h h' _ => ?_,
    fun name checkpoint head _ h => ?_⟩
  · rw [(honly name commit h).2, (honly name' commit' h').2]
  · rw [(honly name commit h).2, (honly name' commit' h').2, take_nil]
  · cases (honly .head head h).1

theorem openMaterializer_fresh :
    ∃ r, openMaterializer engine (fun _ => none) fresh = .ok opened r :=
  ⟨_, eq_ok_of_returned (Option.some_get _).symm⟩

end AcceptAll

end Chronolog.Materializer
