import Chronolog.Materializer.Opened

/-!
# Replay from checkpoints

A call of `materialize` replays the transactions after a checkpoint, or after the published
revision. The result is that of one pass over all transactions from the beginning
(`published_eq_replay`), whatever the positions of the insertions and whichever checkpoints
pruning has left.

* `Replayed`: the invariant. Every checkpoint is the result of a pass over some of the
  transactions. It need not be a beginning of them: a call may fail to remove the checkpoints it
  made obsolete. Those are no base of a replay, as a base is compared with the transactions.
* `Replayed.of_publishes`: a call keeps it.
* `replayed_of_calls`: so do runs of calls that fail anywhere.
-/

namespace Chronolog.Materializer

open Procedure List

variable {Db : Type}

/-! ## Passes -/

section Passes

variable {engine : Engine Db} {index : ℕ} {snapshot snapshot' : Snapshot Db}

theorem replay_append (transactions transactions' : List AdmittedTransaction) :
    replay engine index snapshot (transactions ++ transactions') =
      replay engine index snapshot transactions >>= fun snapshot' =>
        replay engine (index + transactions.length) snapshot' transactions' := by
  induction transactions generalizing index snapshot with
  | nil => rfl
  | cons transaction transactions ih =>
    rw [cons_append, replay, replay, bind_assoc]
    refine bind_congr fun next => ?_
    rw [ih, length_cons, Nat.add_right_comm, Nat.add_assoc]

/-- Each transaction of a pass has its row. -/
theorem orderOf_replay {transactions : List AdmittedTransaction}
    (h : replay engine index snapshot transactions = .ok snapshot') :
    orderOf snapshot'.log = orderOf snapshot.log ++ transactions.map (·.txId) := by
  induction transactions generalizing index snapshot with
  | nil =>
    cases h
    rw [map_nil, append_nil]
  | cons transaction transactions ih =>
    obtain ⟨next, hnext, h⟩ := bind_eq_ok_iff.1 h
    obtain ⟨⟨content, ended⟩, _, hnext⟩ := bind_eq_ok_iff.1 hnext
    cases hnext
    rw [ih h, orderOf, map_append, append_assoc]
    rfl

/-- Transactions among those of different identifiers are determined by their identifiers. -/
theorem eq_of_map_txId_eq {transactions l l' : List AdmittedTransaction}
    (hnodup : (transactions.map (·.txId)).Nodup) (hl : l ⊆ transactions) (hl' : l' ⊆ transactions)
    (h : l.map (·.txId) = l'.map (·.txId)) : l = l' := by
  induction l generalizing l' with
  | nil => exact (map_eq_nil_iff.1 h.symm).symm
  | cons t l ih =>
    cases l' with
    | nil => cases h
    | cons t' l' =>
      obtain ⟨hid, h⟩ := cons.inj h
      obtain ⟨ht, hl⟩ := cons_subset.1 hl
      obtain ⟨ht', hl'⟩ := cons_subset.1 hl'
      rw [inj_on_of_nodup_map hnodup ht ht' hid, ih hl hl' h]

end Passes

/-! ## Materializers that have replayed -/

/-- A materializer that has published the result of a pass over the transactions `l`, and whose
    checkpoints are the results of passes over some of them. -/
structure Replayed (engine : Engine Db) (genesis : Snapshot Db)
    (l : List AdmittedTransaction) (m : DeterministicMaterializer Db) : Prop where
  order : m.order = l.map (·.txId)
  published : replay engine 0 genesis l = .ok m.published.doltCommitHash.snapshot
  reader : m.reader = m.published.doltCommitHash.snapshot
  log : m.log = m.published.doltCommitHash.snapshot.log
  checkpoints : ∀ c ∈ m.checkpoints, ∃ l' ⊆ l,
    replay engine 0 genesis l' = .ok c.doltCommitHash.snapshot

section Call

variable {engine : Engine Db} {options : MaterializerOptions}
  {faults : Faults} {l transactions : List AdmittedTransaction} {genesis : Snapshot Db}
  {m m' : DeterministicMaterializer Db} {plan : Plan Db}
  {snapshot : Snapshot Db}

/-- A base that has passed its check is the result of a pass over the first transactions. -/
theorem replay_take_of_verifyReplayBase (hgenesis : genesis.log = [])
    (hnodup : (transactions.map (·.txId)).Nodup) {l' : List AdmittedTransaction}
    (hl' : l' ⊆ transactions) (hreplay : replay engine 0 genesis l' = .ok snapshot) {n : ℕ}
    (h : verifyReplayBase snapshot.log transactions n = .ok ()) :
    l' = transactions.take n ∧ n ≤ transactions.length := by
  unfold verifyReplayBase at h
  split at h
  · cases h
  rename_i hlength
  split at h
  · cases h
  rename_i hsame
  have horder := orderOf_eq_of_sameIdentities (by simpa using hsame)
  rw [not_not.1 hlength, ← map_take] at horder
  have hids : l'.map (·.txId) = (transactions.take n).map (·.txId) := by
    rw [← horder, orderOf_replay hreplay, hgenesis]
    rfl
  have htake := eq_of_map_txId_eq hnodup hl' (take_subset n transactions) hids
  refine ⟨htake, ?_⟩
  have hrows : (orderOf snapshot.log).length = n := by
    rw [orderOf, length_map, not_not.1 hlength]
  rw [horder, length_map, length_take] at hrows
  exact hrows ▸ Nat.min_le_right ..

theorem Replayed.of_publishes (hgenesis : genesis.log = []) (hm : Replayed engine genesis l m)
    (hl : l.Sublist transactions) (h : Publishes engine options faults transactions m m') :
    Replayed engine genesis transactions m' := by
  obtain ⟨plan, commit, hplan, hcandidate, hfinished⟩ := h
  obtain ⟨hvalid, _, _⟩ := planReplay_spec hplan
  -- The base is the result of a pass over some of the transactions, in any case.
  have hbase : ∃ l' ⊆ l, replay engine 0 genesis l' = .ok plan.baseRef.snapshot := by
    rcases baseRef_of_planReplay hplan with hbase | ⟨c, hc, hbase⟩
    · exact ⟨l, Subset.refl l, hbase ▸ hm.published⟩
    · obtain ⟨l', hl', hreplay⟩ := hm.checkpoints c hc
      exact ⟨l', hl', hbase ▸ hreplay⟩
  obtain ⟨l', hl', hreplay⟩ := hbase
  obtain ⟨htake, hle⟩ := replay_take_of_verifyReplayBase hgenesis hvalid.nodup
    (Subset.trans hl' hl.subset) hreplay hcandidate.base
  have hpass : replay engine 0 genesis transactions = .ok commit.snapshot := by
    rw [← take_append_drop plan.replayFrom transactions, replay_append, ← htake, hreplay,
      htake, length_take, Nat.min_eq_left hle, Nat.zero_add]
    exact hcandidate.replayed
  refine ⟨hfinished.order, ?_, ?_, ?_, fun c hc => ?_⟩
  · rw [hfinished.published]
    exact hpass
  · rw [hfinished.reader, hfinished.published]
  · rw [hfinished.log, hfinished.published]
  · have hold : c ∈ m.checkpoints →
        ∃ l' ⊆ transactions, replay engine 0 genesis l' = .ok c.doltCommitHash.snapshot := by
      intro hc
      obtain ⟨l', hl', hreplay⟩ := hm.checkpoints c hc
      exact ⟨l', Subset.trans hl' hl.subset, hreplay⟩
    rcases hfinished.checkpoints with ⟨hsame, _⟩ | ⟨new, hnew, hpruned, _⟩
    · rw [hsame] at hc
      exact hold hc
    · rw [hpruned] at hc
      rcases mem_append.1 (mem_of_mem_pruned hc) with hc | hc
      · exact hold (mem_of_mem_filter hc)
      · rw [(hnew c hc).2.1]
        exact ⟨transactions, Subset.refl transactions, hpass⟩

/-- A call that returns has replayed its transactions. -/
theorem Replayed.step (hgenesis : genesis.log = []) (hm : Replayed engine genesis l m)
    (hl : l.Sublist transactions) {nonce : String} {result : Option MaterializedRevision}
    (h : materialize engine options faults transactions nonce m = .ok result m') :
    Replayed engine genesis transactions m' := by
  rcases (meets_materialize.of_ok rfl h).1 with ⟨hnone, rfl⟩ | hpublishes
  · -- Nothing was done: the transactions are the earlier ones.
    have hids := hm.order.symm.trans (order_eq_of_planReplay hnone)
    have hlength : l.length = transactions.length := by
      rw [← length_map (f := (·.txId)), hids, length_map]
    rw [← hl.eq_of_length hlength]
    exact hm
  · exact hm.of_publishes hgenesis hl hpublishes

/-- A call that may fail has replayed its transactions, or those before. -/
theorem Replayed.call (hgenesis : genesis.log = []) (hm : Replayed engine genesis l m)
    (hl : l.Sublist transactions) {nonce : String} :
    let m' := finalState (materialize engine options faults transactions nonce m)
    Replayed engine genesis l m' ∨ Replayed engine genesis transactions m' := by
  cases h : materialize engine options faults transactions nonce m with
  | ok result m' => exact .inr (hm.step hgenesis hl h)
  | error stop m' =>
    rcases (meets_materialize.of_error rfl h).1 with hkept | hpublishes
    · rw [finalState, hkept.memory]
      exact .inl { hm with }
    · exact .inr (hm.of_publishes hgenesis hl hpublishes)

end Call

/-! ## Runs -/

section Run

/-- A repository that nothing was published to. -/
structure Fresh (r : Repository Db) : Prop where
  head : r.branches.get? .head = none
  checkpoints : ∀ name : BranchName, name.IsCheckpoint → r.branches.get? name = none

section

variable (engine : Engine Db) (options : MaterializerOptions) (r : Repository Db)

/-- Successful calls with growing lists of transactions, the last of which is `l`, of a
    materializer that was opened for a repository. -/
inductive Materialized :
    List AdmittedTransaction → DeterministicMaterializer Db → Prop
  | opened {faults : OpeningOperation → Option Fault} {m r'} :
    openMaterializer engine faults r = .ok m r' → Materialized [] m
  | step {faults : Faults} {l transactions nonce result m m'} :
    Materialized l m → l.Sublist transactions →
    materialize engine options faults transactions nonce m = .ok result m' →
    Materialized transactions m'

end

variable {engine : Engine Db} {options : MaterializerOptions}
  {r r' : Repository Db} {l : List AdmittedTransaction}
  {m : DeterministicMaterializer Db}

theorem replayed_of_openMaterializer (hr : Fresh r) {faults : OpeningOperation → Option Fault}
    (h : openMaterializer engine faults r = .ok m r') :
    Replayed engine (genesisOf engine r) [] m := by
  obtain ⟨r₂, hinitial, hm⟩ :=
    (ensures_openMaterializer (ensures_checkoutPublished_of_head hr.head)).of_ok rfl h
  have hpass : replay engine 0 (genesisOf engine r) [] = .ok m.published.doltCommitHash.snapshot :=
    congrArg Except.ok hinitial.genesis.symm
  refine ⟨?_, hpass, hm.reader, hm.log, fun c hc => ⟨[], Subset.refl [], ?_⟩⟩
  · rw [hm.order, hm.log, hinitial.genesis]
    rfl
  · obtain ⟨hnamed, hget⟩ := hm.validated.found c hc
    have hnone := hr.checkpoints _ hnamed.isCheckpoint
    rw [(hinitial.adds _ _ hget).resolve_right (by rw [hnone]; exact nofun)]
    exact hpass

theorem Materialized.replayed (hr : Fresh r) (h : Materialized engine options r l m) :
    Replayed engine (genesisOf engine r) l m := by
  induction h with
  | opened hopen => exact replayed_of_openMaterializer hr hopen
  | step _ hl hcall ih => exact ih.step rfl hl hcall

/-- What is published after successful calls with growing lists of transactions is the result of
    one pass over the last list, from the beginning. -/
theorem published_eq_replay (hr : Fresh r) (h : Materialized engine options r l m) :
    replay engine 0 (genesisOf engine r) l = .ok m.published.doltCommitHash.snapshot ∧
      m.reader = m.published.doltCommitHash.snapshot ∧
      m.log = m.published.doltCommitHash.snapshot.log :=
  ⟨(h.replayed hr).published, (h.replayed hr).reader, (h.replayed hr).log⟩

/-- Whatever fails in the calls of a run, what is published, read and logged is the result of a pass
    over the list of one of them. -/
theorem replayed_of_calls (hr : Fresh r) {opening : OpeningOperation → Option Fault}
    (hopen : openMaterializer engine opening r = .ok m r') (options : MaterializerOptions)
    (calls : List (Faults × List AdmittedTransaction × String))
    (hcalls : (calls.map (·.2.1)).Pairwise Sublist) :
    ∃ l ∈ [] :: calls.map (·.2.1), Replayed engine (genesisOf engine r) l (calls.foldl (fun m call =>
      finalState (materialize engine options call.1 call.2.1 call.2.2 m)) m) := by
  induction calls using reverseRecOn with
  | nil => exact ⟨[], mem_cons_self, replayed_of_openMaterializer hr hopen⟩
  | append_singleton calls call ih =>
    rw [map_append, pairwise_append] at hcalls
    obtain ⟨l, hl, hm⟩ := ih hcalls.1
    have hsub : l.Sublist call.2.1 := by
      rcases mem_cons.1 hl with rfl | hl
      · exact nil_sublist _
      · exact hcalls.2.2 l hl _ mem_cons_self
    rw [foldl_append, map_append, ← cons_append]
    rcases hm.call rfl hsub with h | h
    · exact ⟨l, mem_append_left _ hl, h⟩
    · exact ⟨_, mem_append_right _ mem_cons_self, h⟩

end Run

/-! ## An insertion -/

namespace AcceptAll

theorem fresh_fresh : Fresh fresh := by
  have honly (name : BranchName) (hname : name ≠ .other "main") :
      fresh.branches.get? name = none := by
    rw [Option.eq_none_iff_forall_ne_some]
    intro commit h
    have hmem := OrdMap.mem_of_get?_ofList h
    simp only [mem_singleton, Prod.mk.injEq] at hmem
    exact hname hmem.1
  refine ⟨honly .head nofun, fun name hname => honly name ?_⟩
  rintro rfl
  exact hname

/-- Another one is inserted before it. -/
def preceded : DeterministicMaterializer Unit :=
  finalState (materialize engine options (fun _ => none) [transaction 10, transaction 20] "b" alone)

theorem materialized_preceded :
    Materialized engine options fresh [transaction 10, transaction 20] preceded := by
  obtain ⟨r, hopen⟩ := openMaterializer_fresh
  have halone : Materialized engine options fresh [transaction 20] alone :=
    .step (.opened hopen) (nil_sublist _)
      (eq_ok_of_returned (Option.some_get (by decide +kernel)).symm)
  exact .step halone (sublist_cons_self ..)
    (eq_ok_of_returned (Option.some_get (by decide +kernel)).symm)

theorem published_preceded :
    replay engine 0 (genesisOf engine fresh) [transaction 10, transaction 20] =
        .ok preceded.published.doltCommitHash.snapshot ∧
      preceded.reader = preceded.published.doltCommitHash.snapshot ∧
      preceded.log = preceded.published.doltCommitHash.snapshot.log :=
  published_eq_replay fresh_fresh materialized_preceded

/-- Every operation of a call fails; the call is made again, and the old reader of a call that
    inserts another transaction cannot be closed. -/
def retried : List (Faults × List AdmittedTransaction × String) :=
  [(fun _ => some (.throws false "SQLITE_BUSY"), [transaction 20], "a"),
    (fun _ => none, [transaction 20], "b"),
    (fun operation => if operation = .closeOldReader then some (.throws false "SQLITE_BUSY") else none,
      [transaction 10, transaction 20], "c")]

/-- What the calls leave. -/
def afterRetries : DeterministicMaterializer Unit :=
  retried.foldl (fun m call => finalState (materialize engine options call.1 call.2.1 call.2.2 m))
    opened

theorem replayed_retried : afterRetries.order = [[10], [20]] ∧
    ∃ l ∈ [] :: retried.map (·.2.1), Replayed engine (genesisOf engine fresh) l afterRetries := by
  obtain ⟨r, hopen⟩ := openMaterializer_fresh
  refine ⟨by decide +kernel, replayed_of_calls fresh_fresh hopen options retried ?_⟩
  simp [retried]

end AcceptAll

end Chronolog.Materializer
