import Chronolog.Protocol.Schema

/-!
# Publishing a materialized database

A call of `publishChronologCasIntent` moves a ref by a compare-and-swap. If it does not learn what has
become of the swap, it reads the ref again. Any number of calls on one ref run besides each other, and each
operation of the backend may fail, a swap also after it has been applied.

* `truthful_iff_settles`: all calls tell the truth on whether they have moved the ref if and only if each
  call that has to look for its own swap finds its database at the ref.
-/

namespace Chronolog.Runtime

open Canonical Protocol

inductive ContentHashAlgorithm
  | sha2_256
  | blake3_256
  | doltBlake3_160
  deriving DecidableEq

structure ContentId where
  algorithm : ContentHashAlgorithm
  digest : Bytes
  deriving DecidableEq

/-- A digest with the version of what it is the digest of: a chunk of the database, or its state. -/
structure VersionedDigest where
  formatVersion : ℕ
  contentId : ContentId
  deriving DecidableEq

structure ExactDatabaseRef where
  storeId : Bytes
  doltFormatVersion : ℕ
  canonicalGenesisCommit : VersionedDigest
  commitHash : VersionedDigest
  stateDigest : VersionedDigest
  deriving DecidableEq

def ContentHashAlgorithm.index : ContentHashAlgorithm → ℕ
  | .sha2_256 => 1
  | .blake3_256 => 2
  | .doltBlake3_160 => 3

def digestLength (algorithm : ContentHashAlgorithm) : ℕ :=
  if algorithm = .doltBlake3_160 then 20 else 32

def contentIdToCbor (value : ContentId) : Canonical.Codec Canonical.CborValue := do
  canonicalInvariant (value.digest.length = digestLength value.algorithm) .schemaInvalid
    "Content digest has the wrong length for its algorithm"
  return integerMap [(0, some (.integer value.algorithm.index)), (1, some (.bytes value.digest))]

def versionedToCbor (value : VersionedDigest) : Canonical.Codec Canonical.CborValue := do
  return integerMap [(0, some (.integer value.formatVersion)),
    (1, some (← contentIdToCbor value.contentId))]

def doltChunkToCbor (value : VersionedDigest) : Canonical.Codec Canonical.CborValue := do
  canonicalInvariant (0 < value.formatVersion ∧ value.formatVersion ≤ Canonical.maxSafeInteger)
    .integerOutOfRange "Dolt format version must be positive"
  canonicalInvariant (value.contentId.algorithm = .doltBlake3_160) .schemaInvalid
    "Dolt chunks require dolt-blake3-160"
  versionedToCbor value

def stateDigestToCbor (value : VersionedDigest) : Canonical.Codec Canonical.CborValue := do
  canonicalInvariant (0 < value.formatVersion ∧ value.formatVersion ≤ Canonical.maxSafeInteger)
    .integerOutOfRange "State format version must be positive"
  versionedToCbor value

def exactDatabaseRefToCbor (value : ExactDatabaseRef) : Canonical.Codec Canonical.CborValue := do
  canonicalInvariant (0 < value.storeId.length ∧ value.storeId.length ≤ 1024) .schemaInvalid
    "Database store ID has invalid length"
  canonicalInvariant (value.doltFormatVersion = value.canonicalGenesisCommit.formatVersion)
    .schemaInvalid "Genesis format differs from database format"
  canonicalInvariant (value.doltFormatVersion = value.commitHash.formatVersion) .schemaInvalid
    "Commit format differs from database format"
  return integerMap [(0, some (.bytes value.storeId)), (1, some (.integer value.doltFormatVersion)),
    (2, some (← doltChunkToCbor value.canonicalGenesisCommit)),
    (3, some (← doltChunkToCbor value.commitHash)),
    (4, some (← stateDigestToCbor value.stateDigest))]

def sameDatabase : Option ExactDatabaseRef → Option ExactDatabaseRef → Canonical.Codec Bool
  | some left, some right => do
    let left ← encodeCanonicalCbor (← exactDatabaseRefToCbor left)
    let right ← encodeCanonicalCbor (← exactDatabaseRefToCbor right)
    return left = right
  | left, right => return left = right

/-! ## A call -/

structure CasRefState where
  generation : Option ℕ
  current : Option ExactDatabaseRef
  deriving DecidableEq

structure PublicationIntent where
  selected : ExactDatabaseRef
  expectedCurrent : Option ExactDatabaseRef

inductive PublicationStatus
  | published
  | alreadyCurrent
  | conflict
  deriving DecidableEq

/-- What is thrown: an error of the backend, or one of the call itself. -/
inductive PublicationError
  | backend
  | codec (error : CodecError)
  | casAppliedRefMismatch
  deriving DecidableEq

/-- Where a call is: which operation of the backend it waits for, or how it has ended. -/
inductive Publishing
  | verifyExactOutput
  | readRef
  | compareAndSwapRef (before : CasRefState)
  | reconcile (error : PublicationError)
  | returned (status : PublicationStatus) (state : CasRefState)
  | thrown (error : PublicationError)
  deriving DecidableEq

/-- A call throws what a comparison does. -/
def Publishing.orThrow : Canonical.Codec Publishing → Publishing
  | .ok next => next
  | .error error => .thrown (.codec error)

namespace PublicationIntent

variable (request : PublicationIntent)

/-- After the ref was read. -/
def afterRead (before : CasRefState) : Publishing :=
  .orThrow do
    if ← sameDatabase before.current request.selected then
      return .returned .alreadyCurrent before
    if !(← sameDatabase before.current request.expectedCurrent) then
      return .returned .conflict before
    return .compareAndSwapRef before

/-- After the answer to the swap. What is thrown here is caught by the call itself. -/
def afterExchange (applied : Bool) (state : CasRefState) : Publishing :=
  match sameDatabase state.current request.selected with
  | .error error => .reconcile (.codec error)
  | .ok same =>
    if applied then
      if same then .returned .published state else .reconcile .casAppliedRefMismatch
    else .returned (if same then .alreadyCurrent else .conflict) state

/-- After the ref was read once more. -/
def afterReconcile (error : PublicationError) (reconciled : CasRefState) : Publishing :=
  .orThrow do
    if ← sameDatabase reconciled.current request.selected then
      return .returned .alreadyCurrent reconciled
    if ← sameDatabase reconciled.current request.expectedCurrent then
      return .thrown error
    return .returned .conflict reconciled

end PublicationIntent

/-! ## Calls besides each other -/

/-- A call, and how often its swap has moved the ref. -/
structure PublishCall where
  request : PublicationIntent
  phase : Publishing := .verifyExactOutput
  moves : ℕ := 0

/-- What becomes of an operation of the backend. -/
inductive BackendReply
  | answers
  | fails
  /-- It takes effect, and its answer is lost. -/
  | lost
  deriving DecidableEq

/-- The next operation of a call: its reply, and the generation of the ref if it moves. -/
def PublishCall.step (call : PublishCall) (ref : CasRefState) (reply : BackendReply)
    (generation : Option ℕ) : CasRefState × PublishCall :=
  let request := call.request
  match call.phase with
  | .verifyExactOutput =>
    (ref, { call with phase := if reply = .answers then .readRef else .thrown .backend })
  | .readRef =>
    (ref, { call with
      phase := if reply = .answers then request.afterRead ref else .thrown .backend })
  | .compareAndSwapRef before =>
    if reply = .fails then (ref, { call with phase := .reconcile .backend })
    else
      let applied : Bool := ref.generation = before.generation ∧ ref.current = request.expectedCurrent
      let state := if applied then ⟨generation, request.selected⟩ else ref
      (state, { call with
        phase := if reply = .answers then request.afterExchange applied state
          else .reconcile .backend
        moves := call.moves + applied.toNat })
  | .reconcile error =>
    (ref, { call with
      phase := if reply = .answers then request.afterReconcile error ref else .thrown .backend })
  | .returned .. | .thrown _ => (ref, call)

variable {ι : Type} [DecidableEq ι]

/-- The ref, and the calls on it. -/
structure Publishers (ι : Type) where
  ref : CasRefState
  calls : ι → PublishCall

/-- An operation of one of the calls. -/
structure BackendEvent (ι : Type) where
  call : ι
  reply : BackendReply
  generation : Option ℕ

namespace Publishers

def step (system : Publishers ι) (event : BackendEvent ι) : Publishers ι :=
  let (ref, call) := (system.calls event.call).step system.ref event.reply event.generation
  ⟨ref, Function.update system.calls event.call call⟩

def run (system : Publishers ι) (events : List (BackendEvent ι)) : Publishers ι :=
  events.foldl step system

end Publishers

/-- A call that reports a conflict or throws has not moved the ref, and one that reports that it has
    published has moved it once. -/
def PublishCall.Truthful (call : PublishCall) : Prop :=
  match call.phase with
  | .returned .conflict _ | .thrown _ => call.moves = 0
  | .returned .published _ => call.moves = 1
  | _ => True

/-- A call that looks for its own swap finds its database at the ref. -/
def PublishCall.Settles (call : PublishCall) (ref : CasRefState) (reply : BackendReply) : Prop :=
  ∀ error, call.phase = .reconcile error → call.moves ≠ 0 →
    reply = .answers ∧ sameDatabase ref.current call.request.selected = .ok true

/-- No call moves the ref before its swap. -/
def PublishCall.Unmoved (call : PublishCall) : Prop :=
  match call.phase with
  | .verifyExactOutput | .readRef | .compareAndSwapRef _ => call.moves = 0
  | .returned .published _ => call.moves = 1
  | _ => True

/-- A call that has not moved the ref tells the truth, unless it says that it has. -/
theorem truthful_of_moves_eq_zero (request : PublicationIntent) {phase : Publishing}
    (h : ∀ state, phase ≠ .returned .published state) :
    (PublishCall.mk request phase 0).Unmoved ∧ (PublishCall.mk request phase 0).Truthful := by
  cases phase with
  | returned status state =>
    cases status with
    | published => exact absurd rfl (h state)
    | _ => exact ⟨trivial, by trivial⟩
  | _ => exact ⟨by trivial, by trivial⟩

theorem afterRead_ne_published (request : PublicationIntent) (before state : CasRefState) :
    request.afterRead before ≠ .returned .published state := by
  unfold PublicationIntent.afterRead
  rcases sameDatabase before.current request.selected with _ | _ | _
  · exact nofun
  · rcases sameDatabase before.current request.expectedCurrent with _ | _ | _ <;> exact nofun
  · exact nofun

/-- What is found at the ref tells whether a call reports its database as the current one. -/
theorem afterReconcile_cases (request : PublicationIntent) (error : PublicationError)
    (ref : CasRefState) : sameDatabase ref.current request.selected = .ok true ∧
      request.afterReconcile error ref = .returned .alreadyCurrent ref ∨
    sameDatabase ref.current request.selected ≠ .ok true ∧
      (request.afterReconcile error ref = .returned .conflict ref ∨
        ∃ error', request.afterReconcile error ref = .thrown error') := by
  unfold PublicationIntent.afterReconcile
  rcases sameDatabase ref.current request.selected with _ | _ | _
  · exact .inr ⟨nofun, .inr ⟨_, rfl⟩⟩
  · refine .inr ⟨nofun, ?_⟩
    rcases sameDatabase ref.current request.expectedCurrent with _ | _ | _
    exacts [.inr ⟨_, rfl⟩, .inl rfl, .inr ⟨_, rfl⟩]
  · exact .inl ⟨rfl, rfl⟩

/-- What one operation of a call does to what it reports. -/
theorem PublishCall.step_spec {call : PublishCall} (h : call.Unmoved) (ref : CasRefState)
    (reply : BackendReply) (generation : Option ℕ) : (call.step ref reply generation).2.Unmoved ∧
      ((call.step ref reply generation).2.Truthful ↔ call.Truthful ∧ call.Settles ref reply) := by
  obtain ⟨request, phase, moves⟩ := call
  cases phase with
  | verifyExactOutput =>
    obtain rfl : moves = 0 := h
    cases reply <;> simp [step, Unmoved, Truthful, Settles]
  | readRef =>
    obtain rfl : moves = 0 := h
    by_cases hreply : reply = .answers
    · have := truthful_of_moves_eq_zero request (afterRead_ne_published request ref)
      simpa [step, hreply, Settles, Truthful] using this
    · simp [step, Unmoved, Truthful, Settles, hreply]
  | compareAndSwapRef before =>
    obtain rfl : moves = 0 := h
    by_cases hfails : reply = .fails
    · simp [step, hfails, Unmoved, Truthful, Settles]
    by_cases hreply : reply = .answers
    · by_cases happlied : ref.generation = before.generation ∧ ref.current = request.expectedCurrent
      · rcases hsame : sameDatabase (some request.selected) request.selected with _ | _ | _ <;>
          simp [step, hreply, happlied, hsame, PublicationIntent.afterExchange, Unmoved, Truthful,
            Settles]
      · rcases hsame : sameDatabase ref.current request.selected with _ | _ | _ <;>
          simp [step, hreply, happlied, hsame, PublicationIntent.afterExchange, Unmoved, Truthful,
            Settles]
    · simp [step, hfails, hreply, Unmoved, Truthful, Settles]
  | reconcile error =>
    by_cases hreply : reply = .answers
    · rcases afterReconcile_cases request error ref with ⟨hsame, hnext⟩ | ⟨hsame, hnext | ⟨_, hnext⟩⟩ <;>
        simp [step, hreply, hnext, hsame, Unmoved, Truthful, Settles]
    · simp [step, hreply, Unmoved, Truthful, Settles]
  | returned status state => simpa [step, Settles] using h
  | thrown error => simp [step, Settles, Unmoved]

namespace Publishers

/-- All calls tell the truth. -/
def Truthful (system : Publishers ι) : Prop := ∀ call, (system.calls call).Truthful

/-- Along the events, each call that looks for its own swap finds its database at the ref. -/
def Settles (system : Publishers ι) : List (BackendEvent ι) → Prop
  | [] => True
  | event :: events =>
    (system.calls event.call).Settles system.ref event.reply ∧ (system.step event).Settles events

variable {system : Publishers ι}

theorem unmoved_step (h : ∀ call, (system.calls call).Unmoved) (event : BackendEvent ι) (call : ι) :
    ((system.step event).calls call).Unmoved := by
  by_cases hcall : call = event.call
  · subst hcall
    simpa [step] using (PublishCall.step_spec (h event.call) system.ref event.reply event.generation).1
  · simpa [step, hcall] using h call

theorem truthful_step_iff (h : ∀ call, (system.calls call).Unmoved) (event : BackendEvent ι) :
    (system.step event).Truthful ↔
      system.Truthful ∧ (system.calls event.call).Settles system.ref event.reply := by
  have hspec := (PublishCall.step_spec (h event.call) system.ref event.reply event.generation).2
  constructor
  · intro htruthful
    have hcall := htruthful event.call
    simp only [step, Function.update_self, hspec] at hcall
    refine ⟨fun call => ?_, hcall.2⟩
    by_cases heq : call = event.call
    · exact heq ▸ hcall.1
    · simpa [step, heq] using htruthful call
  · rintro ⟨htruthful, hsettles⟩ call
    by_cases heq : call = event.call
    · subst heq
      simpa [step] using hspec.2 ⟨htruthful event.call, hsettles⟩
    · simpa [step, heq] using htruthful call

theorem truthful_run_iff (h : ∀ call, (system.calls call).Unmoved)
    (events : List (BackendEvent ι)) :
    (system.run events).Truthful ↔ system.Truthful ∧ system.Settles events := by
  induction events generalizing system with
  | nil => simp [run, Settles]
  | cons event events ih =>
    have htail := ih (unmoved_step h event)
    rw [truthful_step_iff h event, and_assoc] at htail
    exact htail

/-- Calls on a ref, before they start. -/
def start (ref : CasRefState) (requests : ι → PublicationIntent) : Publishers ι :=
  ⟨ref, fun call => { request := requests call }⟩

/-- In every run, all calls tell the truth if and only if each call that has moved the ref and looks
    for its own swap finds its database there. -/
theorem truthful_iff_settles (ref : CasRefState) (requests : ι → PublicationIntent)
    (events : List (BackendEvent ι)) :
    ((start ref requests).run events).Truthful ↔ (start ref requests).Settles events := by
  have hstart : ∀ call, ((start ref requests).calls call).Unmoved := fun _ => rfl
  rw [truthful_run_iff hstart]
  exact and_iff_right fun _ => trivial

/-! ## A lost reply -/

/-- A database of a commit. -/
def database (commit : UInt8) : ExactDatabaseRef :=
  ⟨[1], 1, ⟨1, .doltBlake3_160, List.replicate 20 0⟩, ⟨1, .doltBlake3_160, List.replicate 20 commit⟩,
    ⟨1, .sha2_256, List.replicate 32 commit⟩⟩

/-- Two calls one after the other: the answer to the swap of the first one is lost, and the second one
    moves the ref on before the first one has looked. -/
def overtaken : Publishers Bool :=
  (start ⟨some 0, none⟩ fun second =>
    if second then ⟨database 2, some (database 1)⟩ else ⟨database 1, none⟩).run
    [⟨false, .answers, none⟩, ⟨false, .answers, none⟩, ⟨false, .lost, some 1⟩,
      ⟨true, .answers, none⟩, ⟨true, .answers, none⟩, ⟨true, .answers, some 2⟩,
      ⟨false, .answers, none⟩]

theorem conflict_after_move : (overtaken.calls false).moves = 1 ∧
    (overtaken.calls false).phase = .returned .conflict ⟨some 2, some (database 2)⟩ := by
  decide

end Publishers

end Chronolog.Runtime
