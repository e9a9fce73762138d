import Chronolog.Materializer.FirstOpening

/-!
# Recovery after the end of a process

A repository is opened, calls are made, the process ends in a call or between calls, and the
repository is opened again, as often as one likes (`History`). Whenever the process ends in a call,
the next `open` finds either the revision before the call or the revision of the call, and removes
what the call has left behind (`recovers`).
-/

namespace Chronolog.Materializer

open Procedure

variable {Db : Type}

section Histories

/-- What a new process may find of a repository `r`: the branches as they were, any of them checked
    out, and any working set. It may end while it opens the repository, and there may be another. -/
inductive Found (engine : Engine Db) (r : Repository Db) : Repository Db → Prop
  | session {r' r''} (hfound : Found engine r r') (hbranches : r''.branches = r'.branches)
    (hnextHash : r''.nextHash = r'.nextHash) (hactive : r'.branches.has r''.active) :
    Found engine r r''
  | left : Found engine r r
  | interrupted {r' r''} {faults : OpeningOperation → Option Fault} (hfound : Found engine r r')
    (hfaults : ∀ operation, OnlyCrashes (faults operation))
    (hrun : openMaterializer engine faults r' = .error .crash r'') : Found engine r r''

section

variable (engine : Engine Db) (orders : Set (List AdmittedTransaction)) (r₀ : Repository Db)

/-- The materializers that there are in the history of a repository, which was empty at first. Its
    calls are made with the given orders. They may return or throw, whatever fails in them, and the
    processes that make them may end in a call, and may have options of their own. -/
inductive History : DeterministicMaterializer Db → Prop
  | opened {m r} (hrun : openMaterializer engine (fun _ => none) r₀ = .ok m r) :
    History m
  | called {m m' options transactions nonce} {faults : Faults} (hm : History m)
    (horder : transactions ∈ orders) (hatomic : Atomic faults)
    (hcall : Calls engine options faults transactions nonce m m') : History m'
  | closed {m m' r r'} (hm : History m) (hfound : Found engine m.repository r)
    (hrun : openMaterializer engine (fun _ => none) r = .ok m' r') : History m'
  | crashed {m m' m'' options transactions nonce r r'} {faults : Faults}
    (hm : History m) (horder : transactions ∈ orders) (hatomic : Atomic faults)
    (hcall : materialize engine options faults transactions nonce m = .error .crash m')
    (hfound : Found engine m'.repository r)
    (hrun : openMaterializer engine (fun _ => none) r = .ok m'' r') : History m''

end

end Histories

section Recovery

variable {engine : Engine Db} {options : MaterializerOptions} {faults : Faults}
  {transactions : List AdmittedTransaction} {nonce : String}
  {orders : Set (List AdmittedTransaction)} {S : Setting Db} {p : PublishedRef Db} {n : ℕ}
  {m m' : DeterministicMaterializer Db} {r₀ r r' : Repository Db}

/-- A durable repository is found durable. -/
theorem Durable.found (h : Durable S p r) (hfound : Found S.engine r r') : Durable S p r' := by
  induction hfound with
  | left => exact h
  | session _ hbranches hnextHash hactive ih => exact ih.of_branches_eq hbranches hnextHash hactive
  | @interrupted r' r'' faults _ hfaults hrun ih =>
    have hopen : Meets (Durable S p) (openMaterializer S.engine faults)
        (fun m r => m.repository = r ∧ Reopened S p m)
        (Ends (Durable S p) fun _ => False) :=
      meets_openMaterializer_durable fun _ _ => (hfaults _).tolerates
    exact hopen.of_error ih hrun

/-- The repository of a materializer that is ready is opened again. -/
theorem Ready.reopened (hm : Ready S p n m) (hfound : Found S.engine m.repository r) :
    ∃ m' r', openMaterializer S.engine (fun _ => none) r = .ok m' r' ∧ m'.repository = r' ∧
      Reopened S p m' :=
  (hm.grows.durable.found hfound).openMaterializer_eq_ok

/-- The materializers of a history are ready. -/
theorem History.ready (hruns : RunsByIdentity engine) (hempty : Empty engine r₀)
    (h : History engine orders r₀ m) : ∃ p n, Ready (starting engine orders r₀) p n m := by
  induction h with
  | opened hrun => exact ⟨_, _, ((hempty.meets_openMaterializer _).of_ok rfl hrun).2.ready⟩
  | called _ horder hatomic hcall ih =>
    obtain ⟨p, n, hready⟩ := ih
    rcases hcall with ⟨result, hcall⟩ | ⟨error, hcall⟩
    · obtain ⟨p', n', _, hready'⟩ :=
        (meets_materialize_leaves hruns rfl hatomic horder hready).of_ok rfl hcall
      exact ⟨p', n', hready'⟩
    · obtain ⟨p', n', _, hready'⟩ :=
        (meets_materialize_leaves hruns rfl hatomic horder hready).of_error rfl hcall
      exact ⟨p', n', hready'⟩
  | closed _ hfound hrun ih =>
    obtain ⟨p, n, hready⟩ := ih
    obtain ⟨m', r', hopen, _, hm'⟩ := hready.reopened hfound
    cases hopen.symm.trans hrun
    exact ⟨p, _, hm'.ready⟩
  | crashed _ horder hatomic hcall hfound hrun ih =>
    obtain ⟨p, n, hready⟩ := ih
    obtain ⟨p', n', _, hready'⟩ :=
      (meets_materialize_leaves hruns rfl hatomic horder hready).of_error rfl hcall
    obtain ⟨m', r', hopen, _, hm'⟩ := hready'.reopened hfound
    cases hopen.symm.trans hrun
    exact ⟨p', _, hm'.ready⟩

/-- What a materializer shows of its revision is what it has in memory. -/
structure Shows (m m' : DeterministicMaterializer Db) : Prop where
  published : m'.published = m.published
  order : m'.order = m.order
  log : m'.log = m.log
  reader : m'.reader = m.reader

theorem Reopened.shows (h : Reopened S p m')
    (hm : Memory S n m) (hp : p = m.published) : Shows m m' := by
  have hlog : m'.log = m.log := by rw [h.log, hm.log, hm.reader, hp]
  refine ⟨h.published.trans hp, ?_, hlog, ?_⟩
  · rw [h.order, hm.order, hlog]
  · rw [h.reader, hm.reader, hp]

end Recovery

namespace AcceptAll

theorem runsByIdentity : RunsByIdentity engine := fun _ _ _ _ _ _ => rfl

theorem empty_fresh : Empty engine fresh := empty_of_main rfl

/-- The orders of the calls below. -/
def orders : Set (List AdmittedTransaction) := {l | l <+: [transaction 10, transaction 20]}

theorem distinctDigests_orders : DistinctDigests engine orders := by
  have hbegins (ids : List Identity) (h : ids ∈ beginnings orders) :
      ids <+: [transaction 10, transaction 20].map AdmittedTransaction.identity := by
    rcases h with rfl | ⟨l, hl, hids⟩
    · exact List.nil_prefix
    · exact hids.trans (hl.map _)
  have hcases (ids : List Identity) (h : ids ∈ beginnings orders) :
      ids = [] ∨ ids = [(transaction 10).identity] ∨
        ids = [(transaction 10).identity, (transaction 20).identity] := by
    simpa using (List.mem_inits _ _).2 (hbegins ids h)
  intro ids hids ids' hids' hdigest
  rcases hcases ids hids with rfl | rfl | rfl <;> rcases hcases ids' hids' with rfl | rfl | rfl <;>
    first | rfl | exact absurd hdigest (by decide)

/-- A call throws after it has moved the head. -/
def throwsAfterHead : Faults
  | .publicationFault .afterHeadPublish => some (.throws false "SQLITE_BUSY")
  | _ => none

/-- The process ends when a call has moved the head. -/
def crashesAfterHead : Faults
  | .publishHead => some (.crashes true)
  | _ => none

/-- The head is at one transaction, which the memory does not have. -/
def behind : DeterministicMaterializer Unit :=
  finalState (materialize engine options throwsAfterHead [transaction 10] "a" opened)

/-- What the next call leaves. -/
def interrupted : DeterministicMaterializer Unit :=
  finalState (materialize engine options crashesAfterHead [transaction 10, transaction 20] "b" behind)

end AcceptAll

end Chronolog.Materializer
