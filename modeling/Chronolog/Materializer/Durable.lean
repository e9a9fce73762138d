import Chronolog.Materializer.Replay

/-!
# What a repository holds

A repository is durable (`Durable`) if a new process can open it: its head is at the commit of a
revision that one branch is named after, its checkpoints are what their names say, and one of them
is before all transactions. Published revisions and checkpoints are results of passes over
transactions (`Pass`). A pass is determined by the identities of its transactions, so a checkpoint
whose order is a beginning of the published order has a beginning of the published log
(`CheckpointAt.isPrefix_log`).
-/

namespace Chronolog.Materializer

open Procedure AdmittedTransaction List

variable {Db : Type}

/-! ## Identities -/

/-- What identifies a transaction, in the ledger and in a log. -/
structure Identity where
  txId : Bytes
  candidateDigest : Bytes
  canonicalCandidate : Bytes
  authorId : Bytes
  authorTimestampMs : Int
  authorFeedSequence : Int
  deriving DecidableEq

def AdmittedTransaction.identity (transaction : AdmittedTransaction) : Identity :=
  ⟨transaction.txId, transaction.candidateDigest, transaction.canonicalCandidate,
    transaction.core.authorId, transaction.core.authorTimestampMs, transaction.authorFeedSequence⟩

def TransactionLogRow.identity (row : TransactionLogRow) : Identity :=
  ⟨row.txId, row.candidateDigest, row.canonicalCandidate, row.authorId, row.authorTimestampMs,
    row.authorFeedSequence⟩

/-- The identities of a log. -/
def identitiesOf (log : List TransactionLogRow) : List Identity :=
  log.map TransactionLogRow.identity

theorem map_txId_identitiesOf (log : List TransactionLogRow) :
    (identitiesOf log).map Identity.txId = orderOf log := by
  rw [identitiesOf, map_map]
  rfl

theorem identity_eq_of_sameIdentity {row : TransactionLogRow} {transaction : AdmittedTransaction}
    (h : sameIdentity row transaction) : row.identity = transaction.identity := by
  simp only [sameIdentity, Bool.and_eq_true, decide_eq_true_eq] at h
  obtain ⟨⟨⟨⟨⟨⟨htxId, hdigest⟩, hcandidate⟩, hauthor⟩, htimestamp⟩, hsequence⟩, _⟩ := h
  rw [TransactionLogRow.identity, identity, htxId, hdigest, hcandidate, hauthor,
    htimestamp, hsequence]

theorem identitiesOf_eq_of_sameIdentities {log : List TransactionLogRow}
    {transactions : List AdmittedTransaction} (h : sameIdentities log transactions) :
    identitiesOf log = (transactions.map identity).take log.length :=
  map_eq_of_sameIdentities identity_eq_of_sameIdentity h

/-- The beginnings of orders, by the identities of their transactions. -/
def beginnings (orders : Set (List AdmittedTransaction)) : Set (List Identity) :=
  {ids | ids = [] ∨ ∃ l ∈ orders, ids <+: l.map identity}

theorem take_mem_beginnings {orders : Set (List AdmittedTransaction)} {ids : List Identity}
    (h : ids ∈ beginnings orders) (n : ℕ) : ids.take n ∈ beginnings orders := by
  rcases h with rfl | ⟨l, hl, hids⟩
  · exact .inl take_nil
  · exact .inr ⟨l, hl, (List.take_prefix n ids).trans hids⟩

/-- Beginnings of the orders with the same digest are the same. -/
def DistinctDigests (engine : Engine Db) (orders : Set (List AdmittedTransaction)) : Prop :=
  Set.InjOn (fun ids => engine.orderDigest (ids.map Identity.txId)) (beginnings orders)

/-! ## Passes -/

section Passes

variable {engine : Engine Db} {genesis snapshot snapshot' : Snapshot Db}
  {l l' : List AdmittedTransaction} {index : ℕ}

/-- The candidate of a transaction is the encoding of its core. -/
def Faithful (transaction : AdmittedTransaction) : Prop :=
  Protocol.encodeTransactionCore transaction.core = .ok transaction.canonicalCandidate

/-- What is assumed of the execution of programs: it is the same for cores with the same encoding,
    of transactions with the same identity. -/
def RunsByIdentity (engine : Engine Db) : Prop :=
  ∀ snapshot t t', Faithful t → Faithful t' → t.identity = t'.identity →
    engine.runProgram snapshot t = engine.runProgram snapshot t'

theorem faithful_of_validateTransaction {transaction : AdmittedTransaction}
    (h : validateTransaction engine transaction = .ok ()) : Faithful transaction := by
  obtain ⟨_, _, h⟩ := bind_eq_ok_iff.1 h
  obtain ⟨_, _, h⟩ := bind_eq_ok_iff.1 h
  obtain ⟨encoded, hencoded, h⟩ := bind_eq_ok_iff.1 h
  obtain ⟨_, hsame, _⟩ := bind_eq_ok_iff.1 h
  rw [Faithful, mapError_eq_ok_iff.1 (external_eq_ok_iff.1 hencoded),
    of_decide_eq_true (require_eq_ok_iff.1 hsame)]

theorem faithful_of_validateFrom {previous : Option TransactionOrderKey} {seen : List Bytes}
    (h : validateFrom engine previous seen l = .ok ()) : ∀ t ∈ l, Faithful t := by
  induction l generalizing previous seen with
  | nil => exact forall_mem_nil _
  | cons transaction l ih =>
    obtain ⟨_, htransaction, h⟩ := bind_eq_ok_iff.1 h
    obtain ⟨_, _, h⟩ := bind_eq_ok_iff.1 h
    exact forall_mem_cons.2 ⟨faithful_of_validateTransaction htransaction, ih h⟩

theorem applyTransaction_congr (hruns : RunsByIdentity engine) {t t' : AdmittedTransaction}
    (ht : Faithful t) (ht' : Faithful t') (h : t.identity = t'.identity) :
    applyTransaction engine snapshot t index = applyTransaction engine snapshot t' index := by
  have hrow (ended : ProgramOutcome) : logRow t index ended = logRow t' index ended := by
    obtain ⟨htxId, hdigest, hcandidate, hauthor, htimestamp, hsequence⟩ := Identity.mk.inj h
    simp only [logRow, htxId, hdigest, hcandidate, hauthor, htimestamp, hsequence]
  simp only [applyTransaction, hruns snapshot t t' ht ht' h, hrow]

theorem replay_congr (hruns : RunsByIdentity engine) (hl : ∀ t ∈ l, Faithful t)
    (hl' : ∀ t ∈ l', Faithful t) (h : l.map identity = l'.map identity) :
    replay engine index snapshot l = replay engine index snapshot l' := by
  induction l generalizing l' index snapshot with
  | nil =>
    rw [map_eq_nil_iff.1 h.symm]
  | cons t l ih =>
    cases l' with
    | nil => cases h
    | cons t' l' =>
      obtain ⟨hid, h⟩ := cons.inj h
      obtain ⟨ht, hl⟩ := forall_mem_cons.1 hl
      obtain ⟨ht', hl'⟩ := forall_mem_cons.1 hl'
      rw [replay, applyTransaction_congr hruns ht ht' hid]
      exact bind_congr fun next => ih hl hl' h

/-- Each transaction of a pass has its row. -/
theorem identitiesOf_replay (h : replay engine index snapshot l = .ok snapshot') :
    identitiesOf snapshot'.log = identitiesOf snapshot.log ++ l.map identity := by
  induction l generalizing index snapshot with
  | nil =>
    cases h
    rw [map_nil, append_nil]
  | cons t l ih =>
    obtain ⟨next, hnext, h⟩ := bind_eq_ok_iff.1 h
    obtain ⟨⟨content, ended⟩, _, hnext⟩ := bind_eq_ok_iff.1 hnext
    cases hnext
    rw [ih h, identitiesOf, map_append, append_assoc]
    rfl

/-- The snapshot is the result of a pass over transactions, from the beginning. -/
def Pass (engine : Engine Db) (genesis snapshot : Snapshot Db) : Prop :=
  ∃ l, (∀ t ∈ l, Faithful t) ∧ replay engine 0 genesis l = .ok snapshot

/-- The result of a pass is that of the pass over any transactions with its identities. -/
theorem Pass.replay_of_identities (hruns : RunsByIdentity engine) (hgenesis : genesis.log = [])
    (h : Pass engine genesis snapshot) (hl : ∀ t ∈ l, Faithful t)
    (hids : identitiesOf snapshot.log = l.map identity) :
    replay engine 0 genesis l = .ok snapshot := by
  obtain ⟨l', hl', hreplay⟩ := h
  rw [identitiesOf_replay hreplay, hgenesis] at hids
  rw [← replay_congr hruns hl' hl hids]
  exact hreplay

/-- A pass over more transactions only adds rows. -/
theorem Pass.isPrefix_log (hruns : RunsByIdentity engine) (hgenesis : genesis.log = [])
    (h : Pass engine genesis snapshot) (h' : Pass engine genesis snapshot')
    (hids : identitiesOf snapshot.log <+: identitiesOf snapshot'.log) :
    snapshot.log <+: snapshot'.log := by
  obtain ⟨l, hl, hreplay⟩ := h'
  have hlog : identitiesOf snapshot'.log = l.map identity := by
    rw [identitiesOf_replay hreplay, hgenesis]
    rfl
  rw [hlog] at hids
  -- The first of the transactions make the shorter log.
  obtain ⟨n, hn⟩ : ∃ n, identitiesOf snapshot.log = (l.take n).map identity :=
    ⟨(identitiesOf snapshot.log).length, by rw [map_take]; exact prefix_iff_eq_take.1 hids⟩
  have htake := h.replay_of_identities hruns hgenesis (fun t ht => hl t (mem_of_mem_take ht)) hn
  rw [← take_append_drop n l, replay_append, htake] at hreplay
  exact log_prefix_of_replay hreplay

end Passes

/-! ## Revisions and checkpoints -/

/-- What the histories of a repository have in common: the engine, the state before all transactions
    and the orders that the calls are made with. -/
structure Setting (Db : Type) where
  engine : Engine Db
  genesis : Snapshot Db
  orders : Set (List AdmittedTransaction)

section Checkpoints

variable {S : Setting Db} {commit : Commit Db} {n revision : ℕ} {digest : Bytes}

/-- A snapshot that passes the checks, and is the result of a pass. -/
structure Good (S : Setting Db) (snapshot : Snapshot Db) : Prop where
  pass : Pass S.engine S.genesis snapshot
  state : external (S.engine.verifyDatabaseState snapshot.content) = .ok ()
  rows : verifyLogResultIntegrity S.engine snapshot.log = .ok ()

/-- A published revision is what its name says. -/
structure Proper (S : Setting Db) (p : PublishedRef Db) : Prop where
  good : Good S p.doltCommitHash.snapshot
  length : p.doltCommitHash.snapshot.log.length = p.prefixLength
  digest : S.engine.orderDigest (orderOf p.doltCommitHash.snapshot.log) = p.orderDigest
  contentHash : S.engine.doltHashOf p.doltCommitHash.snapshot = p.contentHash
  branchRef : p.branchRef = .revision p.revision p.prefixLength p.orderDigest

/-- A checkpoint is what its name says, with the beginning of one of the orders. -/
structure CheckpointAt (S : Setting Db) (n revision : ℕ) (digest : Bytes)
    (commit : Commit Db) : Prop where
  good : Good S commit.snapshot
  length : commit.snapshot.log.length = n
  digest : S.engine.orderDigest (orderOf commit.snapshot.log) = digest
  known : identitiesOf commit.snapshot.log ∈ beginnings S.orders
  /-- The checkpoint before all transactions is that of the first revision. -/
  first : n = 0 → revision = 0

/-- A checkpoint that a revision leaves valid. -/
def ValidFor (engine : Engine Db) (log : List TransactionLogRow) (n : ℕ) (digest : Bytes) : Prop :=
  n ≤ log.length ∧ digest = engine.orderDigest (orderOf (log.take n))

/-- The log of a valid checkpoint is a beginning of the published log. -/
theorem CheckpointAt.isPrefix_log (hdigests : DistinctDigests S.engine S.orders)
    (hruns : RunsByIdentity S.engine) (hgenesis : S.genesis.log = [])
    (h : CheckpointAt S n revision digest commit) {snapshot : Snapshot Db}
    (hpass : Pass S.engine S.genesis snapshot)
    (hknown : identitiesOf snapshot.log ∈ beginnings S.orders)
    (hvalid : ValidFor S.engine snapshot.log n digest) : commit.snapshot.log <+: snapshot.log := by
  refine h.good.pass.isPrefix_log hruns hgenesis hpass ?_
  have htake : identitiesOf commit.snapshot.log = identitiesOf (snapshot.log.take n) := by
    refine hdigests h.known ?_ ?_
    · rw [identitiesOf, map_take]
      exact take_mem_beginnings hknown n
    · dsimp only
      rw [map_txId_identitiesOf, map_txId_identitiesOf]
      exact h.digest.trans hvalid.2
  rw [htake]
  exact (List.take_prefix n _).map _

/-- A checkpoint before all transactions is valid for every revision. -/
theorem CheckpointAt.validFor_zero (h : CheckpointAt S 0 revision digest commit)
    (log : List TransactionLogRow) : ValidFor S.engine log 0 digest := by
  refine ⟨Nat.zero_le _, ?_⟩
  rw [← h.digest, length_eq_zero_iff.1 h.length]
  rfl

/-- The branch of the checkpoint before all transactions. -/
def genesisBranch (engine : Engine Db) : BranchName := .checkpoint 0 0 (engine.orderDigest [])

theorem CheckpointAt.eq_genesisBranch (h : CheckpointAt S n revision digest commit)
    (hzero : n = 0) : .checkpoint n revision digest = genesisBranch S.engine := by
  rw [genesisBranch, ← h.digest, h.first hzero,
    length_eq_zero_iff.1 (h.length.trans hzero), hzero]
  rfl

end Checkpoints

/-! ## Durable repositories -/

section Durable

variable {S : Setting Db} {p p' : PublishedRef Db} {r r' : Repository Db} {name : BranchName}
  {commit : Commit Db}

/-- A repository with the published revision `p`, that can be opened. The transactions of the
    revision and of the checkpoints are those of the orders. -/
structure Durable (S : Setting Db) (p : PublishedRef Db) (r : Repository Db) : Prop where
  proper : Proper S p
  known : identitiesOf p.doltCommitHash.snapshot.log ∈ beginnings S.orders
  head : r.branches.get? .head = some p.doltCommitHash
  branch : r.branches.get? p.branchRef = some p.doltCommitHash
  /-- No other branch of a revision is at the head. -/
  marker : ∀ revision n digest commit,
    r.branches.get? (.revision revision n digest) = some commit →
    commit.hash = p.doltCommitHash.hash → .revision revision n digest = p.branchRef
  checkpoint : ∀ n revision digest commit,
    r.branches.get? (.checkpoint n revision digest) = some commit →
    CheckpointAt S n revision digest commit
  genesis : r.branches.has (genesisBranch S.engine)
  hash : ∀ name commit, r.branches.get? name = some commit → commit.hash < r.nextHash
  active : r.branches.has r.active

/-- What is checked out does not matter, as long as it is a branch. -/
theorem Durable.of_branches_eq (h : Durable S p r)
    (hbranches : r'.branches = r.branches) (hnextHash : r'.nextHash = r.nextHash)
    (hactive : r.branches.has r'.active) : Durable S p r' where
  proper := h.proper
  known := h.known
  head := hbranches ▸ h.head
  branch := hbranches ▸ h.branch
  marker := hbranches ▸ h.marker
  checkpoint := hbranches ▸ h.checkpoint
  genesis := hbranches ▸ h.genesis
  hash := by
    rw [hbranches, hnextHash]
    exact h.hash
  active := by
    rw [hbranches]
    exact hactive

/-- A branch that a repository can do without. -/
structure Loose (S : Setting Db) (p : PublishedRef Db) (name : BranchName) : Prop where
  head : name ≠ .head
  branch : name ≠ p.branchRef
  genesis : name ≠ genesisBranch S.engine

/-- The branches that are not there can be done without. -/
theorem Durable.loose_of_get?_eq_none (h : Durable S p r)
    (hnone : r.branches.get? name = none) : Loose S p name := by
  have hne {name' : BranchName} (hhas : r.branches.has name') : name ≠ name' := by
    rintro rfl
    rw [OrdMap.has, hnone] at hhas
    cases hhas
  exact ⟨hne (OrdMap.has_iff.2 ⟨_, h.head⟩), hne (OrdMap.has_iff.2 ⟨_, h.branch⟩), hne h.genesis⟩

/-- The branches of old replays and revisions, and of checkpoints, can be removed. -/
theorem Durable.erase (h : Durable S p r) (hname : Loose S p name) (hactive : name ≠ r.active) :
    Durable S p { r with branches := r.branches.erase name } := by
  have hget {name' : BranchName} {commit : Commit Db}
      (hget : (r.branches.erase name).get? name' = some commit) :
      r.branches.get? name' = some commit := by
    rw [OrdMap.get?_erase] at hget
    split_ifs at hget
    exact hget
  have hother {name' : BranchName} (hne : name ≠ name') :
      (r.branches.erase name).get? name' = r.branches.get? name' := by
    rw [OrdMap.get?_erase, if_neg hne.symm]
  refine ⟨h.proper, h.known, (hother hname.head).trans h.head, (hother hname.branch).trans h.branch,
    fun revision n digest commit hc => h.marker revision n digest commit (hget hc),
    fun n revision digest commit hc => h.checkpoint n revision digest commit (hget hc), ?_,
    fun name' commit hc => h.hash name' commit (hget hc), ?_⟩
  · rw [OrdMap.has, hother hname.genesis]
    exact h.genesis
  · rw [OrdMap.has, hother hactive]
    exact h.active

/-- What a branch of the given name can be at. -/
def Fits (S : Setting Db) (p : PublishedRef Db) (commit : Commit Db) : BranchName → Prop
  | .checkpoint n revision digest => CheckpointAt S n revision digest commit
  | .revision .. => commit.hash ≠ p.doltCommitHash.hash
  | _ => True

/-- A branch is set that is neither the head nor that of the published revision. -/
theorem Durable.set (h : Durable S p r) (hhead : name ≠ .head) (hbranch : name ≠ p.branchRef)
    (hfits : Fits S p commit name) (hhash : commit.hash < r.nextHash) :
    Durable S p { r with branches := r.branches.set name commit } := by
  refine ⟨h.proper, h.known, ?_, ?_, ?_, ?_, OrdMap.has_set h.genesis .., ?_,
    OrdMap.has_set h.active ..⟩
  · rw [OrdMap.get?_set_of_ne hhead.symm]
    exact h.head
  · rw [OrdMap.get?_set_of_ne hbranch.symm]
    exact h.branch
  · intro revision n digest commit' hget hsame
    rw [OrdMap.get?_set] at hget
    split_ifs at hget with hname
    · subst hname
      rw [← Option.some.inj hget] at hsame
      exact absurd hsame hfits
    · exact h.marker revision n digest commit' hget hsame
  · intro n revision digest commit' hget
    rw [OrdMap.get?_set] at hget
    split_ifs at hget with hname
    · subst hname
      rw [← Option.some.inj hget]
      exact hfits
    · exact h.checkpoint n revision digest commit' hget
  · intro name' commit' hget
    rw [OrdMap.get?_set] at hget
    split_ifs at hget
    · rw [← Option.some.inj hget]
      exact hhash
    · exact h.hash name' commit' hget

/-- The head moves to a commit that one branch of a revision is at. -/
theorem Durable.publish (h : Durable S p r) (hproper : Proper S p')
    (hknown : identitiesOf p'.doltCommitHash.snapshot.log ∈ beginnings S.orders)
    (hbranch : r.branches.get? p'.branchRef = some p'.doltCommitHash)
    (hmarker : ∀ revision n digest commit,
      r.branches.get? (.revision revision n digest) = some commit →
      commit.hash = p'.doltCommitHash.hash → .revision revision n digest = p'.branchRef) :
    Durable S p' { r with branches := r.branches.set .head p'.doltCommitHash } := by
  have hother (name : BranchName) (hname : name ≠ .head) :
      (r.branches.set .head p'.doltCommitHash).get? name = r.branches.get? name :=
    OrdMap.get?_set_of_ne hname ..
  refine ⟨hproper, hknown, OrdMap.get?_set_self .., ?_, ?_, ?_, OrdMap.has_set h.genesis .., ?_,
    OrdMap.has_set h.active ..⟩
  · rw [hother _ (by rw [hproper.branchRef]; exact nofun)]
    exact hbranch
  · intro revision n digest commit hget
    rw [hother (.revision revision n digest) nofun] at hget
    exact hmarker revision n digest commit hget
  · intro n revision digest commit hget
    rw [hother (.checkpoint n revision digest) nofun] at hget
    exact h.checkpoint n revision digest commit hget
  · intro name commit hget
    rw [OrdMap.get?_set] at hget
    split_ifs at hget
    · cases hget
      exact h.hash _ _ hbranch
    · exact h.hash name commit hget

end Durable

end Chronolog.Materializer
