import Chronolog.Materializer.Interruption

/-!
# Opening a repository again

A durable repository is opened (`meets_openMaterializer_durable`): its published revision is
found, checkpoints that are no beginning of the published order are removed, and so are the branches
that calls have left behind. If the process ends before that is done, the repository is durable
still.
-/

namespace Chronolog.Materializer

open Procedure OrdMap Meets List

variable {Db : Type}

/-! ## Ends of the process -/

/-- An operation that does not fail, but the process may end before or after it took effect. -/
def OnlyCrashes (fault : Option Fault) : Prop := ∀ f ∈ fault, ∃ done, f = .crashes done

/-- A procedure ends early with `C` if the process ends, and with `T` if an error is thrown. -/
def Ends {σ : Type} (C T : σ → Prop) : Stop → σ → Prop
  | .crash, s => C s
  | .thrown _, s => T s

section Contracts

variable {σ : Type} {C T : σ → Prop} {fault : Option Fault}

theorem OnlyCrashes.tolerates (hfault : OnlyCrashes fault) : Tolerates fault C C (Ends C T) := by
  refine tolerates_of fun f hf s hs => ?_
  obtain ⟨done, rfl⟩ := hfault f hf
  exact hs

theorem Ends.mono {C' T' : σ → Prop} (hC : ∀ s, C s → C' s) (hT : ∀ s, T s → T' s) (stop : Stop)
    (s : σ) (h : Ends C T stop s) : Ends C' T' stop s := by
  cases stop with
  | crash => exact hC s h
  | thrown error => exact hT s h

end Contracts

/-! ## Removed branches -/

section Without

variable {r₁ r₂ r : Repository Db} {names names' : List BranchName}
  {name : BranchName}

/-- `r` is `r₁` without the branches of the given names, with the head checked out. -/
structure Without (names : List BranchName) (r₁ r : Repository Db) : Prop where
  get? : ∀ name, r.branches.get? name = if name ∈ names then none else r₁.branches.get? name
  active : r.active = .head
  nextHash : r.nextHash = r₁.nextHash

theorem Without.refl (h : r.active = .head) : Without [] r r :=
  ⟨fun _ => (if_neg not_mem_nil).symm, h, rfl⟩

theorem Without.trans (h : Without names r₁ r₂) (h' : Without names' r₂ r) :
    Without (names ++ names') r₁ r := by
  refine ⟨fun name => ?_, h'.active, h'.nextHash.trans h.nextHash⟩
  rw [h'.get?, h.get?]
  by_cases hname : name ∈ names <;> by_cases hname' : name ∈ names' <;> simp [hname']

theorem Without.erase (h : r.active = .head) (name : BranchName) :
    Without [name] r { r with branches := r.branches.erase name } := by
  refine ⟨fun name' => ?_, h, rfl⟩
  rw [get?_erase]
  simp only [mem_singleton]

theorem Without.of_get?_eq_some (h : Without names r₁ r) {commit : Commit Db}
    (hget : r.branches.get? name = some commit) : r₁.branches.get? name = some commit := by
  rw [h.get?] at hget
  split_ifs at hget
  exact hget

theorem Without.get?_of_not_mem (h : Without names r₁ r) (hname : name ∉ names) :
    r.branches.get? name = r₁.branches.get? name :=
  (h.get? name).trans (if_neg hname)

variable {S : Setting Db} {p : PublishedRef Db}

theorem Durable.without (h : Durable S p r₁) (hr : Without names r₁ r) (hhead : .head ∉ names)
    (hbranch : p.branchRef ∉ names)
    (hgenesis : ∀ revision digest, .checkpoint 0 revision digest ∉ names) : Durable S p r where
  proper := h.proper
  known := h.known
  head := (hr.get?_of_not_mem hhead).trans h.head
  branch := (hr.get?_of_not_mem hbranch).trans h.branch
  marker revision n digest commit hget := h.marker revision n digest commit (hr.of_get?_eq_some hget)
  checkpoint n revision digest commit hget :=
    h.checkpoint n revision digest commit (hr.of_get?_eq_some hget)
  genesis := by
    rw [has, genesisBranch, hr.get?_of_not_mem (hgenesis _ _)]
    exact h.genesis
  hash name commit hget := hr.nextHash ▸ h.hash name commit (hr.of_get?_eq_some hget)
  active := by
    rw [hr.active]
    exact has_iff.2 ⟨_, (hr.get?_of_not_mem hhead).trans h.head⟩

end Without

/-! ## The published revision -/

/-- Is this an operation of the first `open` of a repository, from the creation of the schema to that
    of the head? -/
def OpeningOperation.isInitial : OpeningOperation → Bool
  | bootstrap | readGenesisLog | commitGenesis | createCheckpointBranch | hashCheckpointBranch
  | createRevisionBranch | hashRevisionBranch | publishHead => true
  | _ => false

section Open

variable {S : Setting Db} {engine : Engine Db} {faults : OpeningOperation → Option Fault}
  {p : PublishedRef Db} {r₁ r : Repository Db} {K P : Repository Db → Prop}
  {log : List TransactionLogRow}

/-- The only branch of a revision at the head is that of the published revision. -/
theorem Durable.parseRevisionBranch_eq (h : Durable S p r₁) :
    r₁.branches.entries.filterMap (fun e => if e.2.hash = p.doltCommitHash.hash then
        parseRevisionBranch (S.engine.doltHashOf p.doltCommitHash.snapshot) p.doltCommitHash e.1
      else none) = [p] := by
  refine filterMap_entries_eq_singleton h.branch ?_ fun name commit hget hne => ?_
  · rw [if_pos rfl, h.proper.branchRef, parseRevisionBranch, ← h.proper.branchRef,
      h.proper.contentHash]
  · split_ifs with hhash
    · cases name with
      | revision revision n digest => exact absurd (h.marker revision n digest commit hget hhash) hne
      | _ => rfl
    · rfl

variable (hT : ∀ operation, operation.isInitial = false → Tolerates (faults operation)
    (Durable S p) (Durable S p) (Ends K fun _ => False))

include hT

omit hT in
/-- A check that is passed. -/
theorem meets_check_of_ok {α : Type} {a : α} {result : Except MaterializerError α}
    {E : Stop → Repository Db → Prop}
    (h : result = .ok a) : KeepsOr P (check result) E := by
  subst h
  exact meets_pure fun _ => id

theorem meets_discoverPublishedRef_durable (h : Durable S p r₁) :
    Meets (· = r₁) (discoverPublishedRef S.engine faults) (fun result r => result = some p ∧ r = r₁)
      (Ends K fun _ => False) := by
  have hdurable : ∀ r, r = r₁ → Durable S p r := fun r hr => hr ▸ h
  refine bind ((hT .listForHead rfl).read
    (fun r => r.branches.entries) hdurable) fun branches => meets_of_forall fun r ⟨hbranches, hr⟩ => ?_
  subst hr hbranches
  rw [find?_entries, h.head]
  dsimp only [Option.map_some]
  rw [h.parseRevisionBranch_eq]
  exact ((hT .hashHead rfl).unit hdurable).bind fun _ =>
    meets_pure fun _ hr => ⟨rfl, hr⟩

theorem meets_resetActiveWorkingSet_durable : KeepsOr (Durable S p) (resetActiveWorkingSet faults) (Ends K fun _ => False) := by
  refine bind ((hT .activeForReset rfl).read (fun r => r.active) fun _ => id)
    fun active => ?_
  refine bind ((hT .listForReset rfl).read (fun r => r.branches.entries)
    fun _ hr => hr.2) fun branches => meets_of_forall fun r ⟨hbranches, hactive, hr⟩ => ?_
  subst hbranches hactive
  obtain ⟨commit, hget⟩ := has_iff.1 hr.active
  rw [find?_entries, hget]
  refine (hT .resetHard rfl).run (meets_modify fun s hs => ?_)
    (fun _ hs => hs ▸ hr) fun _ _ => id
  subst hs
  -- The branch that is checked out already is at this commit.
  exact hr.of_branches_eq (set_of_get?_eq_some hget) rfl hr.active

/-- The published revision is checked out. -/
structure AtHead (S : Setting Db) (p : PublishedRef Db) (r : Repository Db) : Prop where
  durable : Durable S p r
  active : r.active = .head
  working : r.working = p.doltCommitHash.snapshot

omit hT in
theorem Durable.checkoutHead (h : Durable S p r) : AtHead S p
      { r with active := .head, working := p.doltCommitHash.snapshot } :=
  ⟨h.of_branches_eq rfl rfl (has_iff.2 ⟨_, h.head⟩), rfl, rfl⟩

theorem meets_doltCheckout_durable (operation : OpeningOperation)
    (hoperation : operation.isInitial = false) :
    Meets (Durable S p) (attempt (faults operation) (doltCheckout .head))
      (fun _ => AtHead S p) (Ends K fun _ => False) := by
  refine (hT operation hoperation).run (meets_get_bind fun r hr => ?_) (fun _ => id)
    fun _ _ hr => hr.durable
  rw [hr.head]
  exact meets_set fun _ => hr.checkoutHead

theorem meets_checkoutPublished_durable (h : Durable S p r₁) :
    Meets (· = r₁) (checkoutPublished S.engine faults)
      (fun published r => published = p ∧ AtHead S p r) (Ends K fun _ => False) := by
  refine (meets_discoverPublishedRef_durable hT h).bind_of fun result hresult => ?_
  subst hresult
  refine ((meets_resetActiveWorkingSet_durable hT).mono_start (fun r (hr : r = r₁) => hr ▸ h)).bind fun _ => ?_
  refine (meets_doltCheckout_durable hT .checkoutHead rfl).bind fun _ => ?_
  refine bind ((hT .verifyState rfl).read (fun r => r.working.content)
    fun _ hr => hr.durable) fun content => meets_of_forall fun r ⟨hcontent, hr⟩ => ?_
  rw [hr.working] at hcontent
  subst hcontent
  exact (meets_check_of_ok h.proper.good.state).bind fun _ =>
    meets_pure fun _ hs => ⟨rfl, hs ▸ hr⟩

/-! ## Checkpoints -/

/-- Does the published log leave a checkpoint valid? -/
def leavesValid (engine : Engine Db) (log : List TransactionLogRow)
    (c : MaterializerCheckpointInfo Db) : Bool :=
  c.prefixLength ≤ log.length && c.branchRef.hasOrderDigest (expectedDigest engine log c)

omit hT in
theorem leavesValid_iff {c : MaterializerCheckpointInfo Db} {revision : ℕ} {digest : Bytes}
    (hname : c.branchRef = .checkpoint c.prefixLength revision digest) :
    leavesValid engine log c ↔ ValidFor engine log c.prefixLength digest := by
  simp only [leavesValid, hname, BranchName.hasOrderDigest, expectedDigest, ValidFor,
    Bool.and_eq_true, decide_eq_true_eq]
  exact and_congr_right fun _ => decide_eq_true_iff

/-- The branches of the checkpoints that are to be removed. -/
def toRemove (engine : Engine Db) (log : List TransactionLogRow)
    (checkpoints : List (MaterializerCheckpointInfo Db)) : List BranchName :=
  (checkpoints.filter fun c => !leavesValid engine log c).map (·.branchRef)

variable {checkpoints : List (MaterializerCheckpointInfo Db)}
  {c : MaterializerCheckpointInfo Db}

omit hT in
/-- No checkpoint before all transactions is removed. -/
theorem Durable.genesis_not_mem_toRemove (h : Durable S p r₁)
    (hc : Holds checkpoints r₁) (log : List TransactionLogRow) (revision : ℕ)
    (digest : Bytes) : .checkpoint 0 revision digest ∉ toRemove S.engine log checkpoints := by
  intro hmem
  obtain ⟨c, hmem, hname⟩ := mem_map.1 hmem
  obtain ⟨hmem, hinvalid⟩ := mem_filter.1 hmem
  obtain ⟨⟨revision', digest', hname'⟩, hget⟩ := hc c hmem
  obtain ⟨hzero, rfl, rfl⟩ := BranchName.checkpoint.inj (hname'.symm.trans hname)
  rw [hname] at hget
  have hvalid := (h.checkpoint 0 _ _ _ hget).validFor_zero log
  rw [← hzero] at hvalid
  rw [(leavesValid_iff hname').2 hvalid] at hinvalid
  cases hinvalid

omit hT in
theorem isCheckpoint_of_mem_toRemove (hc : Holds checkpoints r₁)
    {name : BranchName} (h : name ∈ toRemove engine log checkpoints) : name.IsCheckpoint := by
  obtain ⟨c, hmem, rfl⟩ := mem_map.1 h
  exact (hc c (mem_filter.1 hmem).1).1.isCheckpoint

omit hT in
/-- The checkpoints that are not valid can be removed. -/
theorem Durable.weed (h : Durable S p r₁) (hc : Holds checkpoints r₁)
    (hr : Without (toRemove S.engine log checkpoints) r₁ r) : Durable S p r := by
  refine h.without hr (isCheckpoint_of_mem_toRemove hc) (fun hmem => ?_)
    (h.genesis_not_mem_toRemove hc log)
  have hcheckpoint := isCheckpoint_of_mem_toRemove hc hmem
  rw [h.proper.branchRef] at hcheckpoint
  exact hcheckpoint

/-- Every checkpoint is what its name says. -/
theorem meets_checkpointMatches_durable (h : Durable S p r₁)
    (hname : c.Named) (hget : r₁.branches.get? c.branchRef = some c.doltCommitHash)
    (hvalid : leavesValid S.engine log c) :
    Meets (· = r₁) (checkpointMatches S.engine faults (expectedDigest S.engine log c) c)
      (fun isMatch r => isMatch ∧ r.branches = r₁.branches ∧ r.nextHash = r₁.nextHash ∧
        Durable S p r) (Ends K fun _ => False) := by
  obtain ⟨revision, digest, hname⟩ := hname
  have hcheckpoint := h.checkpoint _ _ _ _ (hname ▸ hget)
  let r₂ : Repository Db :=
    { r₁ with active := c.branchRef, working := c.doltCommitHash.snapshot }
  have hr₂ : Durable S p r₂ :=
    h.of_branches_eq rfl rfl (has_iff.2 ⟨_, hget⟩)
  have hdurable : ∀ r, r = r₂ → Durable S p r := fun r hr => hr ▸ hr₂
  refine tryCatch (E := Ends K fun _ => False) ?_ fun stop => ?_
  · refine bind (Q := fun _ r => r = r₂) ?_ fun _ => ?_
    · refine (hT (.checkoutCheckpoint c.branchRef) rfl).run
        (meets_get_bind fun r hr => ?_) (fun r hr => hr ▸ h) fun _ => hdurable
      subst hr
      rw [hget]
      exact meets_set fun _ => rfl
    refine bind ((hT (.verifyCheckpointState c.branchRef) rfl).read
      (fun r => r.working.content) hdurable) fun content =>
        meets_of_forall fun r ⟨hcontent, hr⟩ => ?_
    subst hr hcontent
    refine (meets_check_of_ok hcheckpoint.good.state).bind fun _ => ?_
    refine bind ((hT (.readCheckpointLog c.branchRef) rfl).read
      (fun r => r.working.log) hdurable) fun log' => meets_of_forall fun r ⟨hlog, hr⟩ => ?_
    subst hr hlog
    refine (meets_check_of_ok hcheckpoint.good.rows).bind fun _ => meets_pure fun r hr => ?_
    subst hr
    refine ⟨?_, rfl, rfl, hr₂⟩
    have hdigest := ((leavesValid_iff hname).1 hvalid).2
    simp only [r₂, hcheckpoint.length, hcheckpoint.digest, hdigest, expectedDigest, decide_true,
      Bool.and_self]
  · cases stop with
    | crash => exact meets_throw fun _ => id
    | thrown error => exact fun _ hfalse => hfalse.elim

theorem meets_removeCheckpoint_durable (h : Durable S p r₁)
    (hactive : r₁.active = .head) (hc : Holds [c] r₁)
    (hinvalid : ¬leavesValid S.engine log c) : Meets (· = r₁) (removeCheckpoint faults c)
      (fun valid r => valid = leavesValid S.engine log c ∧
        Without (toRemove S.engine log [c]) r₁ r) (Ends K fun _ => False) := by
  have hremove : toRemove S.engine log [c] = [c.branchRef] := by simp [toRemove, hinvalid]
  have herase := Without.erase hactive c.branchRef
  have hne : r₁.active ≠ c.branchRef := by
    intro heq
    have hcheckpoint := (hc c mem_cons_self).1.isCheckpoint
    rw [← heq, hactive] at hcheckpoint
    exact hcheckpoint
  rw [Bool.not_eq_true] at hinvalid
  rw [hremove, hinvalid]
  refine bind (Q := fun _ r => Without [c.branchRef] r₁ r) ?_ fun _ =>
    meets_pure fun _ hr => ⟨rfl, hr⟩
  refine bind ((hT (.listForRemoval c.branchRef) rfl).read
    (fun r => r.branches.entries) fun r (hr : r = r₁) => hr ▸ h) fun branches =>
      meets_of_forall fun r ⟨hbranches, hr⟩ => ?_
  subst hr hbranches
  have hpresent : r.branches.entries.any (·.1 = c.branchRef) :=
    any_eq_true.2 ⟨_, mem_entries_iff.2 (hc c mem_cons_self).2, decide_eq_true rfl⟩
  rw [if_pos hpresent]
  refine (hT (.deleteCheckpoint c.branchRef) rfl).run
    (meets_get_bind fun r' hr' => ?_) (fun r' hr' => hr' ▸ h) fun _ r' hr' =>
      h.weed hc (hremove ▸ hr')
  subst hr'
  rw [if_neg hne]
  exact meets_set fun _ => herase

theorem meets_validateCheckpointRef_durable (h : Durable S p r₁)
    (hactive : r₁.active = .head) (hc : Holds [c] r₁) :
    Meets (· = r₁) (validateCheckpointRef S.engine faults log c)
      (fun valid r => valid = leavesValid S.engine log c ∧
        Without (toRemove S.engine log [c]) r₁ r) (Ends K fun _ => False) := by
  obtain ⟨hname, hget⟩ := hc c mem_cons_self
  by_cases hvalid : leavesValid S.engine log c
  · have hcondition : ¬(c.prefixLength > log.length ∨
        !c.branchRef.hasOrderDigest (S.engine.orderDigest (orderOf (log.take c.prefixLength)))) := by
      simp only [leavesValid, expectedDigest, Bool.and_eq_true, decide_eq_true_eq] at hvalid
      simp [hvalid.1, hvalid.2]
    rw [validateCheckpointRef, if_neg hcondition]
    refine (meets_checkpointMatches_durable hT h hname hget hvalid).bind_of
      fun isMatch hmatch => meets_of_forall fun r ⟨hbranches, hnextHash, hr⟩ => ?_
    refine bind (Q := fun _ r' => Without (toRemove S.engine log [c]) r₁ r') ?_ fun _ => ?_
    · have hremove : toRemove S.engine log [c] = [] := by simp [toRemove, hvalid]
      rw [hremove]
      refine (hT (.leaveCheckpoint c.branchRef) rfl).run
        (meets_get_bind fun r' hr' => ?_) (fun r' hr' => hr' ▸ hr) fun _ r' hr' => ?_
      · subst hr'
        rw [hr.head]
        refine meets_set fun _ => ⟨fun name => ?_, rfl, hnextHash⟩
        rw [if_neg not_mem_nil, hbranches]
      · exact h.without hr' not_mem_nil not_mem_nil fun _ _ => not_mem_nil
    · rw [if_pos hmatch]
      exact meets_pure fun _ hr => ⟨hvalid.symm, hr⟩
  · have hcondition : c.prefixLength > log.length ∨
        !c.branchRef.hasOrderDigest (S.engine.orderDigest (orderOf (log.take c.prefixLength))) := by
      simp only [leavesValid, expectedDigest, Bool.and_eq_true, decide_eq_true_eq, not_and_or,
        Bool.not_eq_true] at hvalid
      simpa using hvalid
    rw [validateCheckpointRef, if_pos hcondition]
    exact meets_removeCheckpoint_durable hT h hactive hc hvalid

omit hT in
theorem toRemove_cons (log : List TransactionLogRow) : toRemove engine log (c :: checkpoints) =
      toRemove engine log [c] ++ toRemove engine log checkpoints := by
  rw [toRemove, toRemove, toRemove, ← map_append, ← filter_append]
  rfl

/-- The checkpoints that are valid are kept, and the branches of the others are removed. -/
theorem meets_validCheckpoints_durable (h : Durable S p r₁)
    (hactive : r₁.active = .head) (hnodup : (checkpoints.map (·.branchRef)).Nodup)
    (hc : Holds checkpoints r₁) : Meets (· = r₁) (validCheckpoints S.engine faults log checkpoints)
      (fun valid r => valid = checkpoints.filter (leavesValid S.engine log) ∧
        Without (toRemove S.engine log checkpoints) r₁ r) (Ends K fun _ => False) := by
  induction checkpoints generalizing r₁ with
  | nil =>
    refine meets_pure fun r hr => ⟨rfl, ?_⟩
    subst hr
    exact Without.refl hactive
  | cons c checkpoints ih =>
    obtain ⟨hnew, hnodup⟩ := nodup_cons.1 hnodup
    have hfirst : Holds [c] r₁ := fun c' hc' => hc c' (by simp_all)
    refine (meets_validateCheckpointRef_durable hT h hactive hfirst).bind_of
      fun valid hvalid => meets_of_forall fun r₂ hr₂ => ?_
    have hrest : Holds checkpoints r₂ := by
      intro c' hc'
      obtain ⟨hname, hget⟩ := hc c' (mem_cons_of_mem _ hc')
      refine ⟨hname, (hr₂.get?_of_not_mem fun hmem => ?_).trans hget⟩
      obtain ⟨c'', hc'', hsame⟩ := mem_map.1 hmem
      obtain rfl := mem_singleton.1 (mem_filter.1 hc'').1
      exact hnew (mem_map.2 ⟨c', hc', hsame.symm⟩)
    refine (ih (h.weed hfirst hr₂) hr₂.active hnodup hrest).bind_of
      fun rest hrest => meets_pure fun r hr => ⟨?_, ?_⟩
    · rw [hrest, hvalid, filter_cons]
    · rw [toRemove_cons]
      exact hr₂.trans hr

/-- The checkpoints of an opened repository. -/
structure Weeded (S : Setting Db) (p : PublishedRef Db)
    (checkpoints : List (MaterializerCheckpointInfo Db)) (r : Repository Db) : Prop where
  durable : Durable S p r
  active : r.active = .head
  holds : Holds checkpoints r
  genesis : ∃ c ∈ checkpoints, c.prefixLength = 0
  valid : ∀ n revision digest, r.branches.has (.checkpoint n revision digest) →
    ValidFor S.engine p.doltCommitHash.snapshot.log n digest

omit hT in
theorem Durable.weeded (h : Durable S p r₁) (hfound : Discovered r₁ checkpoints)
    (hr : Without (toRemove S.engine p.doltCommitHash.snapshot.log checkpoints) r₁ r) : Weeded S p
      (checkpoints.filter (leavesValid S.engine p.doltCommitHash.snapshot.log)) r := by
  have hkept (c : MaterializerCheckpointInfo Db) (hc : c ∈ checkpoints)
      (hvalid : leavesValid S.engine p.doltCommitHash.snapshot.log c) :
      c.branchRef ∉ toRemove S.engine p.doltCommitHash.snapshot.log checkpoints := by
    intro hmem
    obtain ⟨c', hc', hname⟩ := mem_map.1 hmem
    obtain ⟨hc', hinvalid⟩ := mem_filter.1 hc'
    -- No two checkpoints that are found have the same branch.
    rw [inj_on_of_nodup_map hfound.nodup hc' hc hname, hvalid] at hinvalid
    cases hinvalid
  refine ⟨h.weed hfound.holds hr, hr.active, fun c hc => ?_, ?_, fun n revision digest hhas => ?_⟩
  · obtain ⟨hc, hvalid⟩ := mem_filter.1 hc
    obtain ⟨hname, hget⟩ := hfound.holds c hc
    exact ⟨hname, (hr.get?_of_not_mem (hkept c hc hvalid)).trans hget⟩
  · obtain ⟨c, hc, hname, hzero⟩ := hfound.all 0 0 _ h.genesis
    obtain ⟨commit, hget⟩ := has_iff.1 h.genesis
    refine ⟨c, mem_filter.2 ⟨hc, ?_⟩, hzero⟩
    rw [← hzero] at hname
    refine (leavesValid_iff hname).2 ?_
    rw [hzero]
    exact (h.checkpoint _ _ _ _ hget).validFor_zero _
  · obtain ⟨commit, hget⟩ := has_iff.1 hhas
    have hget₁ := hr.of_get?_eq_some hget
    obtain ⟨c, hc, hname, hn⟩ := hfound.all n revision digest (has_iff.2 ⟨commit, hget₁⟩)
    by_contra hinvalid
    rw [hr.get?, if_pos] at hget
    · cases hget
    · rw [← hn] at hname hinvalid
      rw [← hn, ← hname]
      refine mem_map_of_mem (mem_filter.2 ⟨hc, ?_⟩)
      rw [Bool.not_eq_true', ← Bool.not_eq_true, leavesValid_iff hname]
      exact hinvalid

omit hT in
theorem Durable.verifyPublishedLog_eq_ok (h : Durable S p r₁) :
    verifyPublishedLog S.engine p p.doltCommitHash.snapshot.log = .ok () := by
  rw [verifyPublishedLog, h.proper.length, h.proper.digest]
  simp only [ne_eq, not_true_eq_false, or_self, if_false]
  rfl

theorem meets_validateCheckpointRefs_durable (h : Durable S p r₁) (hactive : r₁.active = .head) :
    Meets (· = r₁) (validateCheckpointRefs S.engine faults p p.doltCommitHash.snapshot.log)
      (Weeded S p) (Ends K fun _ => False) := by
  refine (meets_discoverCheckpoints h (hT _ rfl) fun _ => hT _ rfl).bind_of fun checkpoints hfound => ?_
  refine (meets_validCheckpoints_durable hT h hactive hfound.nodup hfound.holds).bind_of
    fun valid hvalid => ?_
  subst hvalid
  refine bind (Q := fun _ => Weeded S p
    (checkpoints.filter (leavesValid S.engine p.doltCommitHash.snapshot.log))) ?_ fun _ =>
      meets_of_forall fun r hr => ?_
  · refine (hT .leaveCheckpoints rfl).run (meets_get_bind fun r hr => ?_)
      (fun r hr => h.weed hfound.holds hr) fun _ r hr => hr.durable
    rw [(h.weed hfound.holds hr).head]
    exact meets_set fun _ => h.weeded hfound ⟨hr.get?, rfl, hr.nextHash⟩
  have hany : (checkpoints.filter (leavesValid S.engine p.doltCommitHash.snapshot.log)).any
      (·.prefixLength = 0) := by
    obtain ⟨c, hc, hzero⟩ := hr.genesis
    exact any_eq_true.2 ⟨c, hc, decide_eq_true hzero⟩
  rw [if_pos hany]
  refine (meets_check_of_ok h.verifyPublishedLog_eq_ok).bind fun _ => meets_pure fun s hs => ?_
  subst hs
  refine ⟨hr.durable, hr.active, fun c hc => ?_, ?_, hr.valid⟩
  · exact hr.holds c ((mem_insertionSort _).1 hc)
  · obtain ⟨c, hc, hzero⟩ := hr.genesis
    exact ⟨c, (mem_insertionSort _).2 hc, hzero⟩

/-! ## Branches that were left behind -/

omit hT in
theorem Weeded.erase (h : Weeded S p checkpoints r) {name : BranchName}
    (horphan : name.isOrphan) (hne : name ≠ p.branchRef) :
    Weeded S p checkpoints { r with branches := r.branches.erase name } := by
  have hwithout := Without.erase h.active name
  have hother {name' : BranchName} (hname' : ¬name'.isOrphan) : name' ∉ [name] := by
    intro hmem
    rw [mem_singleton.1 hmem] at hname'
    exact hname' horphan
  refine ⟨h.durable.without hwithout (hother nofun) (fun hmem => hne (mem_singleton.1 hmem).symm)
    fun _ _ => hother nofun, h.active, fun c hc => ?_, h.genesis, fun n revision digest hhas => ?_⟩
  · obtain ⟨hname, hget⟩ := h.holds c hc
    refine ⟨hname, (hwithout.get?_of_not_mem (hother fun hisOrphan => ?_)).trans hget⟩
    exact BranchName.not_isCheckpoint_of_isOrphan hisOrphan hname.isCheckpoint
  · obtain ⟨commit, hget⟩ := has_iff.1 hhas
    exact h.valid n revision digest (has_iff.2 ⟨commit, hwithout.of_get?_eq_some hget⟩)

/-- Old branches that are not among those of a list are gone. -/
def OrphansIn (p : PublishedRef Db) (branches : List (BranchName × Commit Db)) (r : Repository Db) :
    Prop :=
  ∀ name, r.branches.has name → name.isOrphan → name ≠ p.branchRef → name ∈ branches.map Prod.fst

theorem meets_cleanupOrphanBranches_weeded : Meets (Weeded S p checkpoints)
      (cleanupOrphanBranches (faults .activeForCleanup) (faults .listForCleanup)
        (fun name => faults (.deleteOrphan name)) p checkpoints)
      (fun _ r => OrphansIn p [] r ∧ Weeded S p checkpoints r) (Ends K fun _ => False) := by
  refine bind ((hT .activeForCleanup rfl).read (fun r => r.active)
    fun _ hr => hr.durable) fun active => ?_
  refine bind ((hT .listForCleanup rfl).read (fun r => r.branches.entries)
    fun _ hr => hr.2.durable) fun branches => ?_
  refine mono_start (P := fun r => active = .head ∧ OrphansIn p branches r ∧
    Weeded S p checkpoints r) ?_ ?_
  · refine meets_of_and fun hactive => ?_
    subst hactive
    induction branches with
    | nil => exact meets_pure fun _ => id
    | cons entry branches ih =>
      obtain ⟨name, commit⟩ := entry
      refine bind (Q := fun _ r => OrphansIn p branches r ∧
        Weeded S p checkpoints r) (meets_ite (fun hcondition => ?_) fun hcondition =>
          meets_pure fun r hr => ⟨?_, hr.2⟩) fun _ => ih
      · refine (hT (.deleteOrphan name) rfl).run (meets_get_bind fun r hr => ?_)
          (fun _ hr => hr.2.durable) fun _ _ hr => hr.2.durable
        obtain ⟨hne, hretained, horphan⟩ := hcondition
        have hactive : r.active ≠ name := by
          rw [hr.2.active]
          exact hne.symm
        rw [if_neg hactive]
        refine meets_set fun _ => ⟨fun name' hhas horphan' hne' => ?_, hr.2.erase horphan ?_⟩
        · rw [has, get?_erase] at hhas
          split_ifs at hhas with hsame
          · cases hhas
          · exact (mem_cons.1 (hr.1 name' hhas horphan' hne')).resolve_left hsame
        · exact fun h => hretained (by simp [h])
      · -- A branch that is left alone is not an old one.
        intro name' hhas horphan hne
        refine (mem_cons.1 (hr.1 name' hhas horphan hne)).resolve_left ?_
        rintro rfl
        refine hcondition ⟨?_, ?_, horphan⟩
        · rintro rfl
          cases horphan
        · simp only [mem_cons, mem_map, not_or, not_exists, not_and]
          refine ⟨?_, hne, fun c hc hname => ?_⟩
          · rintro rfl
            cases horphan
          · refine BranchName.not_isCheckpoint_of_isOrphan horphan ?_
            rw [← hname]
            exact (hr.2.holds c hc).1.isCheckpoint
  · rintro r ⟨rfl, rfl, hr⟩
    refine ⟨hr.active, fun name hhas _ _ => ?_, hr⟩
    obtain ⟨commit, hget⟩ := has_iff.1 hhas
    exact mem_map.2 ⟨_, mem_entries_iff.2 hget, rfl⟩

theorem meets_openReader_durable (hP : ∀ r, P r → Durable S p r) (hp : Proper S p) :
    Meets P (openReader S.engine faults p)
      (fun reader r => reader = p.doltCommitHash.snapshot ∧ P r) (Ends K fun _ => False) := by
  refine ((hT .openReader rfl).unit hP).bind fun _ => ?_
  refine bind (Q := fun reader r => reader = p.doltCommitHash.snapshot ∧ P r) ?_ fun reader =>
    meets_of_and fun hreader => ?_
  · refine (hT .checkoutReader rfl).run (meets_get_bind fun r hr => ?_) hP
      fun _ r hr => hP r hr.2
    rw [(hP r hr).branch]
    exact meets_pure fun s hs => ⟨rfl, hs ▸ hr⟩
  subst hreader
  refine ((hT .verifyReaderState rfl).unit hP).bind fun _ => ?_
  refine (meets_check_of_ok hp.good.state).bind fun _ => ?_
  refine ((hT .readReaderLog rfl).unit hP).bind fun _ => ?_
  refine (meets_check_of_ok hp.good.rows).bind fun _ => meets_of_forall fun r hr => ?_
  refine (meets_check_of_ok (hP r hr).verifyPublishedLog_eq_ok).bind fun _ => ?_
  have hstart : ∀ s, s = r → Durable S p s := fun s hs => hs ▸ hP r hr
  refine ((hT .hashReader rfl).unit hstart).bind fun _ => ?_
  have hhash : verifyContentHash .readerContentMismatch
      (S.engine.doltHashOf p.doltCommitHash.snapshot) p.contentHash = .ok () := by
    rw [verifyContentHash, hp.contentHash, if_neg (not_not_intro rfl)]
    rfl
  exact (meets_check_of_ok hhash).bind fun _ => meets_pure fun s hs => ⟨rfl, hs ▸ hr⟩

/-- A materializer of a repository that was opened with the published revision `p`. -/
structure Reopened (S : Setting Db) (p : PublishedRef Db)
    (m : DeterministicMaterializer Db) : Prop where
  published : m.published = p
  reader : m.reader = p.doltCommitHash.snapshot
  log : m.log = p.doltCommitHash.snapshot.log
  order : m.order = orderOf m.log
  weeded : Weeded S p m.checkpoints m.repository
  orphans : OrphansIn p [] m.repository

/-- `open`, if the published revision is `p`. -/
theorem meets_openMaterializer_of {P T : Repository Db → Prop}
    (hopen : KeepsOr P (attempt (faults .openDatabase) (pure ())) (Ends K T))
    (hcheckout : Meets P (checkoutPublished S.engine faults)
      (fun published r => published = p ∧ AtHead S p r) (Ends K T)) :
    Meets P (openMaterializer S.engine faults)
      (fun m r => m.repository = r ∧ Reopened S p m) (Ends K T) := by
  have hnever : ∀ stop r, Ends K (fun _ => False) stop r → Ends K T stop r :=
    Ends.mono (fun _ => id) fun _ => False.elim
  refine hopen.bind fun _ => hcheckout.bind fun published => meets_of_and fun hpublished => ?_
  subst hpublished
  refine bind (((hT .readLog rfl).read (fun r => r.working.log)
    fun _ hr => hr.durable).mono_error hnever) fun log =>
      meets_of_forall fun r₂ ⟨hlog, hr₂⟩ => ?_
  rw [hr₂.working] at hlog
  subst hlog
  refine (meets_check_of_ok hr₂.durable.proper.good.rows).bind fun _ => ?_
  refine (meets_check_of_ok hr₂.durable.verifyPublishedLog_eq_ok).bind fun _ => ?_
  refine ((meets_validateCheckpointRefs_durable hT hr₂.durable hr₂.active).mono_error
    hnever).bind fun checkpoints => ?_
  refine ((meets_cleanupOrphanBranches_weeded hT).mono_error
    hnever).bind fun _ => ?_
  refine ((meets_openReader_durable hT (fun _ hr => hr.2.durable)
    hr₂.durable.proper).mono_error hnever).bind fun reader => meets_of_and fun hreader => ?_
  subst hreader
  refine meets_get_bind fun r hr => meets_pure fun s hs => ?_
  exact ⟨hs.symm, rfl, rfl, rfl, rfl, hr.2, hr.1⟩

/-- A durable repository is opened, unless the process ends. -/
theorem meets_openMaterializer_durable : Meets (Durable S p) (openMaterializer S.engine faults)
      (fun m r => m.repository = r ∧ Reopened S p m) (Ends K fun _ => False) := by
  have hopen : KeepsOr (Durable S p) (attempt (faults .openDatabase) (pure ())) (Ends K fun _ => False) :=
    (hT .openDatabase rfl).unit fun _ => id
  exact meets_openMaterializer_of hT hopen <| meets_of_forall fun r hr =>
    meets_checkoutPublished_durable hT hr

end Open

section Ready

variable {S : Setting Db} {p : PublishedRef Db} {m : DeterministicMaterializer Db}
  {r : Repository Db}

/-- A durable repository is opened. -/
theorem Durable.openMaterializer_eq_ok (h : Durable S p r) :
    ∃ m r', openMaterializer S.engine (fun _ => none) r = .ok m r' ∧ m.repository = r' ∧
      Reopened S p m := by
  have hopen : Meets (Durable S p) (openMaterializer S.engine fun _ => none)
      (fun m r => m.repository = r ∧ Reopened S p m)
      (Ends (fun _ => False) fun _ => False) :=
    meets_openMaterializer_durable fun _ _ => tolerates_of nofun
  have hopen := hopen r h
  cases hrun : openMaterializer S.engine (fun _ => none) r with
  | ok m r' =>
    rw [hrun] at hopen
    exact ⟨m, r', rfl, hopen⟩
  | error stop r' =>
    rw [hrun] at hopen
    cases stop <;> exact hopen.elim

theorem Weeded.isPrefix_log (hdigests : DistinctDigests S.engine S.orders)
    (hruns : RunsByIdentity S.engine) (hgenesis : S.genesis.log = [])
    {checkpoints : List (MaterializerCheckpointInfo Db)} (h : Weeded S p checkpoints r)
    {n revision : ℕ} {digest : Bytes} {commit : Commit Db}
    (hget : r.branches.get? (.checkpoint n revision digest) = some commit) :
    commit.snapshot.log <+: p.doltCommitHash.snapshot.log :=
  (h.durable.checkpoint _ _ _ _ hget).isPrefix_log hdigests hruns hgenesis
    h.durable.proper.good.pass h.durable.known
    (h.valid n revision digest (has_iff.2 ⟨commit, hget⟩))

/-- An opened materializer is ready for a call. -/
theorem Reopened.ready (h : Reopened S p m) : Ready S p m.repository.nextHash m := by
  have hdurable := h.weeded.durable
  refine ⟨⟨hdurable, le_rfl⟩, ⟨?_, ?_, h.order, ?_, ?_, fun c hc => ?_, h.weeded.genesis⟩,
    .inl h.published.symm⟩
  · rw [h.reader, h.published]
  · rw [h.log, h.reader]
  · rw [h.published]
    exact hdurable.proper.good
  · rw [h.published]
    exact hdurable.hash _ _ hdurable.head
  · obtain ⟨hnamed, hget⟩ := h.weeded.holds c hc
    obtain ⟨revision, digest, hname⟩ := hnamed
    have hcheckpoint := hdurable.checkpoint _ _ _ _ (hname ▸ hget)
    exact ⟨⟨revision, digest, hname⟩, hcheckpoint.good, hdurable.hash _ _ hget,
      fun hzero => hname.trans (hcheckpoint.eq_genesisBranch hzero)⟩

end Ready

end Chronolog.Materializer
