import Chronolog.Materializer.Publication
import Mathlib.Data.List.Induction

/-!
# Plans

What is known once the transactions of a call have passed the checks: their identifiers are
pairwise different, those of the order are among them in the same sequence, and every row of
the log is of the transaction with its identifier. A log that is a beginning of the materializer's,
up to the first difference, is therefore that of the first transactions (`sameIdentities_of_plan`).
-/

namespace Chronolog.Materializer

open Procedure List

variable {Db : Type}
variable {log : List TransactionLogRow}

/-! ## Identities -/

theorem txId_eq_of_sameIdentity {row : TransactionLogRow} {transaction : AdmittedTransaction}
    (h : sameIdentity row transaction) : row.txId = transaction.txId := by
  simp only [sameIdentity, Bool.and_eq_true, decide_eq_true_eq] at h
  exact h.1.1.1.1.1.1

variable {transactions : List AdmittedTransaction}

/-- What the identity of a transaction determines is the same for a log and the first
    transactions. -/
theorem map_eq_of_sameIdentities {γ : Type} {f : TransactionLogRow → γ}
    {g : AdmittedTransaction → γ} (hfg : ∀ {row t}, sameIdentity row t → f row = g t)
    (h : sameIdentities log transactions) : log.map f = (transactions.map g).take log.length := by
  induction log generalizing transactions with
  | nil => rfl
  | cons row log ih =>
    cases transactions with
    | nil => cases h
    | cons transaction transactions =>
      rw [sameIdentities, Bool.and_eq_true] at h
      rw [map_cons, hfg h.1, map_cons, length_cons, take_succ_cons]
      exact congrArg _ (ih h.2)

/-- A log with the identities of the first transactions has their order. -/
theorem orderOf_eq_of_sameIdentities (h : sameIdentities log transactions) :
    orderOf log = (transactions.map (·.txId)).take log.length :=
  map_eq_of_sameIdentities txId_eq_of_sameIdentity h

/-- Identities are determined by identifiers if every row has a transaction it is of. -/
theorem sameIdentities_of_orderOf_eq {all transactions : List AdmittedTransaction}
    (hall : ∀ t ∈ all, ∀ t' ∈ all, t.txId = t'.txId → t = t')
    (hsub : transactions ⊆ all) (hrows : ∀ row ∈ log, ∃ t ∈ all, sameIdentity row t)
    (horder : orderOf log <+: transactions.map (·.txId)) : sameIdentities log transactions := by
  induction log generalizing transactions with
  | nil => rfl
  | cons row log ih =>
    cases transactions with
    | nil => cases horder.length_le
    | cons transaction transactions =>
      obtain ⟨hid, htail⟩ := cons_prefix_cons.1 horder
      obtain ⟨t, ht, hrow⟩ := hrows row mem_cons_self
      have heq : t = transaction :=
        hall t ht transaction (hsub mem_cons_self)
          ((txId_eq_of_sameIdentity hrow).symm.trans hid)
      rw [sameIdentities, Bool.and_eq_true]
      refine ⟨heq ▸ hrow, ih (fun t ht => hsub (mem_cons_of_mem _ ht)) ?_ htail⟩
      exact fun row hrow => hrows row (mem_cons_of_mem _ hrow)

/-- The log of a candidate has the order of its transactions. -/
theorem orderOf_eq_of_verifyDesiredLog (h : verifyDesiredLog log transactions = .ok ()) :
    orderOf log = transactions.map (·.txId) := by
  unfold verifyDesiredLog at h
  split at h
  · cases h
  rename_i hlength
  split at h
  · cases h
  rename_i hsame
  simp only [not_or, Bool.not_eq_true', Bool.not_eq_false] at hsame
  rw [orderOf_eq_of_sameIdentities hsame.2, take_of_length_le]
  rw [length_map, not_not.1 hlength]

/-! ## Checks -/

section Checks

variable {engine : Engine Db} {transactions : List AdmittedTransaction}
variable {e : MaterializerError} {previous : Option TransactionOrderKey} {seen : List Bytes}

theorem require_eq_ok_iff {condition : Bool} {code : String} :
    require condition code = .ok () ↔ condition := by
  cases condition
  · exact iff_of_false nofun nofun
  · exact iff_of_true rfl rfl

theorem neverStale_require {condition : Bool} {code : String} :
    NeverStale (require condition code) := by
  intro e h
  cases condition <;> cases h
  exact id

theorem nodup_of_validateFrom (h : validateFrom engine previous seen transactions = .ok ()) :
    (transactions.map (·.txId)).Nodup ∧ ∀ t ∈ transactions, t.txId ∉ seen := by
  induction transactions generalizing previous seen with
  | nil => exact ⟨nodup_nil, nofun⟩
  | cons transaction transactions ih =>
    obtain ⟨_, _, h⟩ := bind_eq_ok_iff.1 h
    obtain ⟨_, hposition, h⟩ := bind_eq_ok_iff.1 h
    obtain ⟨_, _, hnew⟩ := bind_eq_ok_iff.1 hposition
    obtain ⟨hnodup, hseen⟩ := ih h
    refine ⟨nodup_cons.2 ⟨fun hmem => ?_, hnodup⟩, fun t ht => ?_⟩
    · obtain ⟨t, ht, hid⟩ := mem_map.1 hmem
      exact hseen t ht (hid ▸ mem_cons_self)
    · rcases mem_cons.1 ht with rfl | ht
      · simpa using require_eq_ok_iff.1 hnew
      · exact fun hmem => hseen t ht (mem_cons_of_mem _ hmem)

theorem exists_sameIdentity_of_validateExistingIdentities {log : List TransactionLogRow}
    (h : validateExistingIdentities log transactions = .ok ()) :
    ∀ row ∈ log, ∃ t ∈ transactions, sameIdentity row t := by
  induction log with
  | nil => exact forall_mem_nil _
  | cons row log ih =>
    obtain ⟨_, hrow, h⟩ := bind_eq_ok_iff.1 h
    intro row' hrow'
    rcases mem_cons.1 hrow' with rfl | hrow'
    · dsimp only at hrow
      split at hrow
      · cases hrow
      rename_i t ht
      split at hrow
      · rename_i hsame
        obtain ⟨t', ht', heq⟩ := mem_map.1 (OrdMap.mem_of_get?_ofList ht)
        obtain rfl : t' = t := congrArg Prod.snd heq
        exact ⟨t', ht', hsame⟩
      · cases hrow
    · exact ih h row' hrow'

theorem earliestDifference_spec {previous next : List Bytes} {d : ℕ}
    (h : earliestDifference previous next = some d) :
    d ≤ previous.length ∧ previous.take d <+: next := by
  induction previous generalizing next d with
  | nil =>
    cases next with
    | nil => cases h
    | cons nextId next =>
      cases h
      exact ⟨le_rfl, nil_prefix⟩
  | cons previousId previous ih =>
    cases next with
    | nil =>
      cases h
      exact ⟨Nat.zero_le _, nil_prefix⟩
    | cons nextId next =>
      rw [earliestDifference] at h
      split_ifs at h with hid
      · obtain ⟨d, hd, rfl⟩ := Option.map_eq_some_iff.1 h
        obtain ⟨hle, hprefix⟩ := ih hd
        exact ⟨Nat.succ_le_succ hle, by
          rw [hid]; exact (prefix_cons_inj nextId).2 hprefix⟩
      · cases h
        exact ⟨Nat.zero_le _, nil_prefix⟩

theorem eq_of_earliestDifference_eq_none {previous next : List Bytes}
    (h : earliestDifference previous next = none) : previous = next := by
  induction previous generalizing next with
  | nil =>
    cases next with
    | nil => rfl
    | cons nextId next => cases h
  | cons previousId previous ih =>
    cases next with
    | nil => cases h
    | cons nextId next =>
      rw [earliestDifference] at h
      split_ifs at h with hid
      · rw [hid, ih (Option.map_eq_none_iff.1 h)]

/-! Checks of the transactions do not look at checkpoints. -/

theorem neverStale_checkProgram {program : SqlTransactionProgram} :
    NeverStale (checkProgram engine program) := by
  intro e h
  unfold checkProgram at h
  split at h <;> cases h <;> exact id

theorem neverStale_validateTransaction {transaction : AdmittedTransaction} :
    NeverStale (validateTransaction engine transaction) :=
  neverStale_require.bind fun _ => neverStale_require.bind fun _ =>
    neverStale_external.bind fun _ => neverStale_require.bind fun _ =>
    neverStale_external.bind fun _ => neverStale_require.bind fun _ => neverStale_checkProgram

theorem neverStale_validateFrom : NeverStale (validateFrom engine previous seen transactions) := by
  induction transactions generalizing previous seen with
  | nil => exact nofun
  | cons transaction transactions ih =>
    exact neverStale_validateTransaction.bind fun _ =>
      (neverStale_require.bind fun _ => neverStale_require).bind fun _ => ih

theorem neverStale_ensureMonotonicSet {previous next : List Bytes} :
    NeverStale (ensureMonotonicSet previous next) := by
  induction previous generalizing next with
  | nil => exact nofun
  | cons previousId previous ih =>
    intro e h
    rw [ensureMonotonicSet] at h
    split at h
    · cases h
      exact id
    · exact ih e h

theorem neverStale_validateExistingIdentities {log : List TransactionLogRow} :
    NeverStale (validateExistingIdentities log transactions) := by
  induction log with
  | nil => exact nofun
  | cons row log ih =>
    refine NeverStale.bind (fun e h => ?_) fun _ => ih
    dsimp only at h
    split at h
    · cases h
      exact id
    split at h
    · cases h
    · cases h
      exact id

end Checks

/-! ## Checkpoints -/

/-- A selection among checkpoints: the longest of those that are not too long. -/
def Selects (checkpoints : List (MaterializerCheckpointInfo Db)) (n : ℕ) :
    Option (MaterializerCheckpointInfo Db) → Prop
  | none => ∀ c ∈ checkpoints, n < c.prefixLength
  | some selected => selected ∈ checkpoints ∧ selected.prefixLength ≤ n ∧
      ∀ c ∈ checkpoints, c.prefixLength ≤ n → c.prefixLength ≤ selected.prefixLength

theorem Selects.append {checkpoints : List (MaterializerCheckpointInfo Db)} {n : ℕ}
    {selected : Option (MaterializerCheckpointInfo Db)}
    (h : Selects checkpoints n selected) (c : MaterializerCheckpointInfo Db) :
    Selects (checkpoints ++ [c]) n
      (if c.prefixLength ≤ n ∧ selected.all (·.prefixLength < c.prefixLength) then some c
        else selected) := by
  split_ifs with hc
  · obtain ⟨hle, hlonger⟩ := hc
    refine ⟨by simp, hle, fun c' hc' hle' => ?_⟩
    rcases mem_append.1 hc' with hc' | hc'
    · cases selected with
      | none => exact absurd hle' (Nat.not_le.2 (h c' hc'))
      | some selected => exact (h.2.2 c' hc' hle').trans (le_of_lt (by simpa using hlonger))
    · rw [mem_singleton.1 hc']
  · cases selected with
    | none =>
      intro c' hc'
      rcases mem_append.1 hc' with hc' | hc'
      · exact h c' hc'
      · rw [mem_singleton.1 hc']
        simpa using hc
    | some selected =>
      refine ⟨mem_append_left _ h.1, h.2.1, fun c' hc' hle' => ?_⟩
      rcases mem_append.1 hc' with hc' | hc'
      · exact h.2.2 c' hc' hle'
      · rw [mem_singleton.1 hc'] at hle' ⊢
        simpa [hle'] using hc

theorem checkpointAtOrBefore_selects (checkpoints : List (MaterializerCheckpointInfo Db)) (n : ℕ) :
    Selects checkpoints n (checkpointAtOrBefore checkpoints n) := by
  induction checkpoints using reverseRecOn with
  | nil => exact nofun
  | append_singleton checkpoints c ih =>
    rw [checkpointAtOrBefore, foldl_append]
    exact ih.append c

/-! ## Plans -/

section Plans

variable {engine : Engine Db} {transactions : List AdmittedTransaction}
  {m : DeterministicMaterializer Db} {plan : Plan Db}

/-- What the checks of a call have established. -/
structure Valid (transactions : List AdmittedTransaction)
    (m : DeterministicMaterializer Db) : Prop where
  nodup : (transactions.map (·.txId)).Nodup
  rows : ∀ row ∈ m.log, ∃ t ∈ transactions, sameIdentity row t

/-- A plan is that of a valid call, with a first difference. -/
theorem planReplay_spec (h : planReplay engine transactions m = .ok (some plan)) :
    Valid transactions m ∧
    earliestDifference m.order (transactions.map (·.txId)) = some plan.difference ∧
    replayBase m plan.difference = .ok plan := by
  obtain ⟨_, hvalid, h⟩ := bind_eq_ok_iff.1 h
  obtain ⟨_, _, h⟩ := bind_eq_ok_iff.1 h
  obtain ⟨_, hrows, h⟩ := bind_eq_ok_iff.1 h
  split at h
  · cases h
  rename_i difference hdifference
  obtain ⟨plan', hplan', h⟩ := bind_eq_ok_iff.1 h
  obtain rfl : plan' = plan := Option.some.inj (Except.ok.inj h)
  have hd : plan'.difference = difference := by
    unfold replayBase at hplan'
    split at hplan'
    · rw [← Except.ok.inj hplan']
    · split at hplan'
      · cases hplan'
      · rw [← Except.ok.inj hplan']
  rw [hd]
  exact ⟨⟨(nodup_of_validateFrom hvalid).1, exists_sameIdentity_of_validateExistingIdentities hrows⟩,
    hdifference, hplan'⟩

/-- There is nothing to do if the transactions are those of the order. -/
theorem order_eq_of_planReplay (h : planReplay engine transactions m = .ok none) :
    m.order = transactions.map (·.txId) := by
  obtain ⟨_, _, h⟩ := bind_eq_ok_iff.1 h
  obtain ⟨_, _, h⟩ := bind_eq_ok_iff.1 h
  obtain ⟨_, _, h⟩ := bind_eq_ok_iff.1 h
  split at h
  · rename_i hnone
    exact eq_of_earliestDifference_eq_none hnone
  · obtain ⟨_, _, h⟩ := bind_eq_ok_iff.1 h
    cases h

/-- The base of a plan is the published revision or a checkpoint. -/
theorem baseRef_of_planReplay (h : planReplay engine transactions m = .ok (some plan)) :
    plan.baseRef = m.published.doltCommitHash ∨
      ∃ c ∈ m.checkpoints, plan.baseRef = c.doltCommitHash := by
  obtain ⟨_, _, hbase⟩ := planReplay_spec h
  have hselects := checkpointAtOrBefore_selects m.checkpoints plan.difference
  unfold replayBase at hbase
  split at hbase
  · rw [← Except.ok.inj hbase]
    exact Or.inl rfl
  split at hbase
  · cases hbase
  rename_i selected hselected
  rw [hselected] at hselects
  rw [← Except.ok.inj hbase]
  exact Or.inr ⟨selected, hselects.1, rfl⟩

/-- Only a missing checkpoint makes a plan stale. -/
theorem replayBase_eq_error_of_isStale {e : MaterializerError}
    (h : planReplay engine transactions m = .error e) (hstale : e.IsStale) :
    ∃ difference, replayBase m difference = .error e := by
  rcases bind_eq_error_iff.1 h with h | ⟨_, _, h⟩
  · exact absurd hstale (neverStale_validateFrom e h)
  rcases bind_eq_error_iff.1 h with h | ⟨_, _, h⟩
  · exact absurd hstale (neverStale_ensureMonotonicSet e h)
  rcases bind_eq_error_iff.1 h with h | ⟨_, _, h⟩
  · exact absurd hstale (neverStale_validateExistingIdentities e h)
  split at h
  · cases h
  · rcases bind_eq_error_iff.1 h with h | ⟨_, _, h⟩
    · exact ⟨_, h⟩
    · cases h

/-- A log that the checks have found to be of the order's beginning, up to the first difference,
    is that of the first transactions. -/
theorem sameIdentities_of_plan (h : planReplay engine transactions m = .ok (some plan))
    (horder : m.order = orderOf m.log) {log : List TransactionLogRow} (hlog : log <+: m.log)
    (hlength : log.length ≤ plan.difference) : sameIdentities log transactions := by
  obtain ⟨hvalid, hdifference, _⟩ := planReplay_spec h
  refine sameIdentities_of_orderOf_eq
    (fun _ ht _ ht' => inj_on_of_nodup_map hvalid.nodup ht ht') (Subset.refl _)
    (fun row hrow => hvalid.rows row (hlog.subset hrow)) ?_
  have hbegin : orderOf log <+: m.order.take plan.difference := by
    rw [prefix_take_iff, horder]
    exact ⟨hlog.map _, by rw [orderOf, length_map]; exact hlength⟩
  exact hbegin.trans (earliestDifference_spec hdifference).2

end Plans

end Chronolog.Materializer
