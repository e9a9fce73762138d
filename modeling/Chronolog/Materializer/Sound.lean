import Chronolog.Materializer.Planning

/-!
# Sound materializers

A materializer is sound if what it has in memory fits together and with its repository
(`Sound`): its checkpoints have their branches, with beginnings of its log. Checkpoints of a sound
materializer serve all transactions that pass the checks (`Sound.not_staleFor`). A call that
publishes keeps a materializer sound if the operations that may fail do so without harm to the
checkpoints (`Sound.of_publishes`).
-/

namespace Chronolog.Materializer

open Procedure List

variable {Db : Type}

/-! ## Current checkpoints -/

/-- Every checkpoint has its branch, with a beginning of the log of the checkpoint's length,
    and one of them is before all transactions. -/
structure CheckpointsCurrent (m : DeterministicMaterializer Db) : Prop where
  retained : ∀ c ∈ m.checkpoints, ∃ commit, m.repository.branches.get? c.branchRef = some commit ∧
    commit.snapshot.log <+: m.log ∧ commit.snapshot.log.length = c.prefixLength
  genesis : ∃ c ∈ m.checkpoints, c.prefixLength = 0

instance (m : DeterministicMaterializer Db) : Decidable (CheckpointsCurrent m) :=
  decidable_of_iff
    ((∀ c ∈ m.checkpoints, ∃ commit ∈ m.repository.branches.get? c.branchRef,
        commit.snapshot.log <+: m.log ∧ commit.snapshot.log.length = c.prefixLength) ∧
      ∃ c ∈ m.checkpoints, c.prefixLength = 0)
    ⟨fun h => ⟨h.1, h.2⟩, fun h => ⟨h.retained, h.genesis⟩⟩

/-- What a materializer has in memory fits together, and with its repository. -/
structure Sound (m : DeterministicMaterializer Db) : Prop where
  order : m.order = orderOf m.log
  published : m.published.doltCommitHash.snapshot.log = m.log
  holds : Holds m.checkpoints m.repository
  beginning : ∀ c ∈ m.checkpoints, c.doltCommitHash.snapshot.log <+: m.log ∧
    c.doltCommitHash.snapshot.log.length = c.prefixLength
  genesis : ∃ c ∈ m.checkpoints, c.prefixLength = 0

theorem Sound.checkpointsCurrent {m : DeterministicMaterializer Db} (h : Sound m) :
    CheckpointsCurrent m where
  retained c hc := ⟨c.doltCommitHash, (h.holds c hc).2, h.beginning c hc⟩
  genesis := h.genesis

section Call

variable {engine : Engine Db} {options : MaterializerOptions}
  {faults : Faults} {transactions : List AdmittedTransaction}
  {m₀ m : DeterministicMaterializer Db} {plan : Plan Db}
  {commit : Commit Db}

/-- The log of the base of a plan is a beginning of the log, and it has in it the logs of the
    checkpoints up to the first difference. -/
theorem Sound.base (hm : Sound m₀) (h : planReplay engine transactions m₀ = .ok (some plan)) :
    plan.baseRef.snapshot.log <+: m₀.log ∧ plan.baseRef.snapshot.log.length = plan.replayFrom ∧
    plan.replayFrom ≤ plan.difference ∧
    ∀ c ∈ retainedBeforeInsertion plan m₀.checkpoints, c.prefixLength ≤ plan.replayFrom := by
  obtain ⟨_, _, hbase⟩ := planReplay_spec h
  have hlength : m₀.order.length = m₀.log.length := by rw [hm.order, orderOf, length_map]
  unfold replayBase at hbase
  split at hbase
  · rename_i hd
    have hplan := Except.ok.inj hbase
    rw [← hplan]
    refine ⟨hm.published ▸ prefix_rfl, ?_, ?_, fun c hc => ?_⟩
    · rw [hm.published, hlength]
    · exact hd.ge
    · obtain ⟨hbegin, hc⟩ := hm.beginning c (mem_of_mem_filter hc)
      rw [← hc, hlength]
      exact hbegin.length_le
  · have hselects := checkpointAtOrBefore_selects m₀.checkpoints plan.difference
    split at hbase
    · cases hbase
    rename_i selected hselected
    rw [hselected] at hselects
    obtain ⟨hmem, hle, hlongest⟩ := hselects
    have hplan := Except.ok.inj hbase
    rw [← hplan]
    refine ⟨(hm.beginning selected hmem).1, (hm.beginning selected hmem).2, hle, fun c hc => ?_⟩
    obtain ⟨hc, hretained⟩ := mem_filter.1 hc
    exact hlongest c hc (by simpa using hretained)

/-- Sound checkpoints serve all transactions that pass the checks. -/
theorem Sound.not_staleFor (hm : Sound m₀) : ¬StaleFor engine transactions m₀ := by
  rintro (⟨e, he, hstale⟩ | ⟨plan, hplan, hbase⟩)
  · obtain ⟨d, hd⟩ := replayBase_eq_error_of_isStale he hstale
    have hselects := checkpointAtOrBefore_selects m₀.checkpoints d
    obtain ⟨c, hc, hzero⟩ := hm.genesis
    unfold replayBase at hd
    split at hd
    · cases hd
    split at hd
    · rename_i hnone
      rw [hnone] at hselects
      exact absurd (hselects c hc) (by omega)
    · cases hd
  · obtain ⟨hbegin, hlength, hle, _⟩ := hm.base hplan
    have hsame := sameIdentities_of_plan hplan hm.order hbegin (hlength.trans_le hle)
    rw [verifyReplayBase, if_neg (not_not.2 hlength), if_neg (by simpa using hsame)] at hbase
    exact hbase rfl

/-- The checkpoints that a plan starts at or after are beginnings of the log of its result. -/
theorem Sound.beginning_of_candidate (hm : Sound m₀)
    (hplan : planReplay engine transactions m₀ = .ok (some plan))
    (hcandidate : Candidate engine transactions plan commit.snapshot)
    {c : MaterializerCheckpointInfo Db} (hc : c ∈ retainedBeforeInsertion plan m₀.checkpoints) :
    c.doltCommitHash.snapshot.log <+: commit.snapshot.log := by
  obtain ⟨hbase, hlength, _, hretained⟩ := hm.base hplan
  obtain ⟨hbegin, hc'⟩ := hm.beginning c (mem_of_mem_filter hc)
  refine (prefix_of_prefix_length_le hbegin hbase ?_).trans
    (log_prefix_of_replay hcandidate.replayed)
  rw [hc', hlength]
  exact hretained c hc

/-- The operations of a call that may fail without harm to the checkpoints: not the removal of a
    checkpoint and, if one ends after the first difference, none of those after the change of the
    memory. -/
def Orderly (faults : Faults) (transactions : List AdmittedTransaction)
    (m : DeterministicMaterializer Db) : Prop :=
  ¬PruneFails faults ∧ (SwapFails faults →
    ∀ d ∈ earliestDifference m.order (transactions.map (·.txId)),
      ∀ c ∈ m.checkpoints, c.prefixLength ≤ d)

theorem Sound.of_publishes (hm : Sound m₀) (h : Publishes engine options faults transactions m₀ m)
    (horderly : Orderly faults transactions m₀) : Sound m := by
  obtain ⟨plan, commit, hplan, hcandidate, hfinished⟩ := h
  obtain ⟨_, hdifference, _⟩ := planReplay_spec hplan
  have horder := orderOf_eq_of_verifyDesiredLog hcandidate.desired
  have hlength : commit.snapshot.log.length = transactions.length := by
    rw [← length_map (f := (·.txId)), ← orderOf, horder, length_map]
  rcases hfinished.checkpoints with ⟨hsame, hfails⟩ | ⟨new, hnew, hpruned, hholds⟩
  · -- The checkpoints are the old ones: all of them end before the first difference.
    obtain ⟨hretains, hswap⟩ := (hfails hm.holds).resolve_right horderly.1
    have hretained (c : MaterializerCheckpointInfo Db) (hc : c ∈ m₀.checkpoints) :
        c ∈ retainedBeforeInsertion plan m₀.checkpoints := by
      refine mem_filter.2 ⟨hc, ?_⟩
      simp [horderly.2 hswap plan.difference hdifference c hc]
    refine ⟨?_, ?_, ?_, ?_, ?_⟩
    · rw [hfinished.order, hfinished.log, horder]
    · rw [hfinished.published, hfinished.log]
    · intro c hc
      rw [hsame] at hc
      obtain ⟨hname, hget⟩ := hm.holds c hc
      exact ⟨hname, hretains _ _ hname.isCheckpoint hget⟩
    · intro c hc
      rw [hsame] at hc
      rw [hfinished.log]
      exact ⟨hm.beginning_of_candidate hplan hcandidate (hretained c hc), (hm.beginning c hc).2⟩
    · rw [hsame]
      exact hm.genesis
  · have hbeginning : ∀ c ∈ retainedBeforeInsertion plan m₀.checkpoints ++ new,
        c.doltCommitHash.snapshot.log <+: commit.snapshot.log ∧
        c.doltCommitHash.snapshot.log.length = c.prefixLength := by
      intro c hc
      rcases mem_append.1 hc with hc | hc
      · exact ⟨hm.beginning_of_candidate hplan hcandidate hc,
          (hm.beginning c (mem_of_mem_filter hc)).2⟩
      · obtain ⟨_, hcommit, hc⟩ := hnew c hc
        rw [hcommit, hc]
        exact ⟨prefix_rfl, hlength⟩
    refine ⟨?_, ?_, hholds hm.holds, ?_, ?_⟩
    · rw [hfinished.order, hfinished.log, horder]
    · rw [hfinished.published, hfinished.log]
    · intro c hc
      rw [hpruned] at hc
      rw [hfinished.log]
      exact hbeginning c (mem_of_mem_pruned hc)
    · rw [hpruned]
      refine genesis_mem_pruned _ (fun c hc => ?_) ?_
      · rcases mem_append.1 hc with hc | hc
        · exact (hm.holds c (mem_of_mem_filter hc)).1
        · exact (hnew c hc).1
      · obtain ⟨c, hc, hzero⟩ := hm.genesis
        exact ⟨c, mem_append_left _ (mem_filter.2 ⟨hc, by simp [hzero]⟩), hzero⟩

end Call

end Chronolog.Materializer
