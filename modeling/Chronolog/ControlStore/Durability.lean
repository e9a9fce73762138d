import Chronolog.Compiler.Scanner
import Chronolog.ControlStore.Operations
import Chronolog.Lib.Contract
import Chronolog.Lib.CrashSafe
import Mathlib

/-!
# The durability of cutoffs

The cutoffs of a validator outlive its process: they are written to a journal of
their own before a call of `persistValidatorCutoff` returns, and the snapshot of the
store has them too. A restart reads both files and takes the higher cutoff.

Two things get in the way. A snapshot that was damaged but can still be decoded may
have something else than an integer for a cutoff, which no cutoff of the journal
replaces, and a journal that was renamed but not synced is taken for durable by the
next process (`LostCutoff.cutoff_lost`). Where restarts find neither, no cutoff is
lost (`cutoff_le_of_run`).
-/

namespace Chronolog.Durability

open Procedure CrashSafe OrdMap Meets List

/-! ## Files -/

/-- The value of a digit. Letters are the digits from ten on. -/
def digitOf (c : Char) : ℕ :=
  if c.isDigit then c.toNat - 48 else if c.isAlpha then c.toLower.toNat - 87 else 36

/-- The number that a text of digits stands for. -/
def numberOf (base : ℕ) (digits : List Char) : Option ℕ :=
  if digits ≠ [] ∧ digits.all (digitOf · < base) then
    some (digits.foldl (base * · + digitOf ·) 0) else none

/-- The integer that a text stands for where it is compared with one. -/
def stringToBigInt (text : String) : Option Int :=
  match (Compiler.trim text).toList with
  | [] => some 0
  | '-' :: digits => (numberOf 10 digits).map fun n => -n
  | '+' :: digits => (numberOf 10 digits).map (↑)
  | '0' :: 'x' :: digits | '0' :: 'X' :: digits => (numberOf 16 digits).map (↑)
  | '0' :: 'o' :: digits | '0' :: 'O' :: digits => (numberOf 8 digits).map (↑)
  | '0' :: 'b' :: digits | '0' :: 'B' :: digits => (numberOf 2 digits).map (↑)
  | digits => (numberOf 10 digits).map (↑)

/-- A cutoff as a file that can be decoded has it: the integer that was saved or, in
    a file that was damaged, a text. -/
inductive CutoffValue
  | bigint (value : Int)
  | text (value : String)
  deriving DecidableEq

namespace CutoffValue

def number : CutoffValue → Option Int
  | bigint value => some value
  | text value => stringToBigInt value

/-- The comparison `left > right` of the source. A text that is no number is neither
    above nor below an integer. (Two texts are never compared.) -/
def gt (left right : CutoffValue) : Bool :=
  match left.number, right.number with
  | some left, some right => right < left
  | _, _ => false

/-- What the journal's text of a value is read as: a text of decimal digits is an integer there. -/
def journaled : CutoffValue → CutoffValue
  | bigint value => bigint value
  | text value => match numberOf 10 value.toList with
    | some n => if value.toList.head? ≠ '0' ∨ value = "0" then bigint n else text value
    | none => text value

end CutoffValue

/-- The cutoffs of validators. -/
abbrev Cutoffs := OrdMap Bytes CutoffValue

/-- The text of a snapshot, by what becomes of it. -/
inductive SnapshotFile
  /-- Decoding fails with a syntax error or an error of the control store. -/
  | corrupt
  /-- Decoding fails in another way. -/
  | unreadable
  /-- It can be decoded, and the store may or may not restore it. -/
  | decoded (restorable : Bool) (validatorCutoffs : List (Bytes × CutoffValue))
  deriving DecidableEq

/-- The files of `JsonFileControlStorePersistence`, in one directory. -/
structure Disk where
  journal : File Cutoffs
  snapshot : File SnapshotFile

namespace Disk

/-- The directory is synced. -/
def sync (disk : Disk) : Disk := ⟨disk.journal.sync, disk.snapshot.sync⟩

def renameJournal (cutoffs : Cutoffs) (disk : Disk) : Disk :=
  { disk with journal := disk.journal.rename (some (cutoffs.mapValues CutoffValue.journaled)) }

def renameSnapshot (contents : Option SnapshotFile) (disk : Disk) : Disk :=
  { disk with snapshot := disk.snapshot.rename contents }

end Disk

/-- Why a procedure on the disk ends early. -/
inductive Stop
  | error (message : String)
  | crash
  deriving DecidableEq

/-- Procedures on the disk. -/
abbrev DiskM := EStateM Stop Disk

/-- The end of a step of which an outcome is given. -/
def finish : Outcome → DiskM Unit
  | .completed => pure ()
  | .stopped _ crashed => throw (if crashed then .crash else .error "EIO")

/-- The source's `writeCrashSafe`, to one of the files. -/
def writeCrashSafe (rename : Disk → Disk) (outcome : Outcome) : DiskM Unit := do
  modify (CrashSafe.write Disk.sync rename outcome)
  finish outcome

namespace JsonFileControlStorePersistence

/-- Does the journal pass the checks of its decoding? -/
def validJournal (cutoffs : Cutoffs) : Bool :=
  cutoffs.entries.all fun (validatorId, value) =>
    validatorId ≠ [] && match value with
      | .bigint acceptedAboveMs => decide (0 ≤ acceptedAboveMs)
      | .text _ => false

def loadValidatorCutoffs : DiskM (Option Cutoffs) := do
  match (← get).journal.visible with
  | none => return none
  | some cutoffs =>
    if !validJournal cutoffs then throw (.error "CONTROL_STORE_CUTOFF_JOURNAL_CORRUPT")
    return some cutoffs

/-- Puts a snapshot away. (Its new name is left out.) -/
def quarantine (outcome : Outcome) : DiskM Unit := do
  match outcome with
  | .stopped .begun _ | .stopped .synced _ => pure ()
  | .stopped .renamed _ => modify (Disk.renameSnapshot none)
  | .stopped .finished _ | .completed => modify fun disk => (disk.renameSnapshot none).sync
  finish outcome

/-- The cutoffs of the snapshot and whether it can be restored. -/
def load (quarantined : Outcome) : DiskM (Option (Bool × List (Bytes × CutoffValue))) := do
  let disk ← get
  match disk.snapshot.visible with
  | none => return none
  | some .unreadable => throw (.error "TypeError")
  | some (.decoded restorable validatorCutoffs) => return some (restorable, validatorCutoffs)
  | some .corrupt =>
    if disk.journal.visible.isNone then throw (.error "CONTROL_STORE_CUTOFF_JOURNAL_MISSING")
    quarantine quarantined
    return none

/-- Takes a cutoff if there is none or it is higher; was it taken? -/
def raise (state : Cutoffs × Bool) (cutoff : Bytes × CutoffValue) : Cutoffs × Bool :=
  match state.1.get? cutoff.1 with
  | none => (state.1.set cutoff.1 cutoff.2, true)
  | some previous =>
    if cutoff.2.gt previous then (state.1.set cutoff.1 cutoff.2, true) else state

/-- Writes the journal if it lacks a cutoff of the store. -/
def initializeValidatorCutoffs (journaled : Option Cutoffs) (cutoffs : List (Bytes × CutoffValue))
    (outcome : Outcome) : DiskM Cutoffs := do
  let missing := (← get).journal.visible.isNone
  let (raised, changed) := cutoffs.foldl raise (journaled.getD .empty, missing)
  if changed then writeCrashSafe (Disk.renameJournal raised) outcome
  return raised

/-- Writes a cutoff to the journal, and returns the journaled cutoffs. -/
def saveValidatorCutoff (journaled : Cutoffs) (validatorId : Bytes) (acceptedAboveMs : Int)
    (outcome : Outcome) : DiskM Cutoffs := do
  let previous := journaled.get? validatorId
  if previous.any (·.gt (.bigint acceptedAboveMs)) then
    throw (.error "CONTROL_STORE_VALIDATOR_CUTOFF_REGRESSION")
  if previous = some (.bigint acceptedAboveMs) then return journaled
  let next := journaled.set validatorId (.bigint acceptedAboveMs)
  writeCrashSafe (Disk.renameJournal next) outcome
  return next

end JsonFileControlStorePersistence

/-! ## Processes -/

/-- What a process has in memory: the cutoffs of its control store, and those of its persistence. -/
structure Process where
  cutoffs : Cutoffs
  journaled : Cutoffs

namespace Process

open JsonFileControlStorePersistence

/-- The store's `mergeValidatorCutoff`. -/
def mergeValidatorCutoff (cutoffs : Cutoffs) (cutoff : Bytes × CutoffValue) : Cutoffs :=
  (raise (cutoffs, false) cutoff).1

/-- The cutoffs of the snapshot, unless it cannot be restored and is put away. -/
def restoredCutoffs (quarantined : Outcome) :
    Option (Bool × List (Bytes × CutoffValue)) → DiskM Cutoffs
  | none => return .empty
  | some (true, validatorCutoffs) => return .ofList validatorCutoffs
  | some (false, _) => do
    if (← get).journal.visible.isNone then throw (.error "CONTROL_STORE_CORRUPT")
    quarantine quarantined
    return .empty

/-- The cutoffs of the journal and those of the snapshot. -/
def loadCutoffs (quarantined : Outcome) : DiskM (Option Cutoffs × Cutoffs) := do
  let journalCutoffs ← loadValidatorCutoffs
  let snapshot ← load quarantined
  return (journalCutoffs, ← restoredCutoffs quarantined snapshot)

/-- A control store is constructed from the files. -/
def construct (quarantined written : Outcome) : DiskM Process := do
  let (journalCutoffs, restored) ← loadCutoffs quarantined
  let cutoffs := (journalCutoffs.elim [] (·.entries)).foldl mergeValidatorCutoff restored
  let journaled ← initializeValidatorCutoffs journalCutoffs cutoffs.entries written
  return { cutoffs, journaled }

/-- The control store's `persistValidatorCutoff`. -/
def persistValidatorCutoff (process : Process) (validatorId : Bytes) (acceptedAboveMs : Int)
    (outcome : Outcome) : DiskM Process := do
  let previous := process.cutoffs.get? validatorId
  if previous.any (·.gt (.bigint acceptedAboveMs)) then
    throw (.error "CONTROL_STORE_VALIDATOR_CUTOFF_REGRESSION")
  if previous = some (.bigint acceptedAboveMs) then return process
  let journaled ← saveValidatorCutoff process.journaled validatorId acceptedAboveMs outcome
  return { cutoffs := process.cutoffs.set validatorId (.bigint acceptedAboveMs), journaled }

/-- The snapshot is written. Whether it could be restored is left open. -/
def save (process : Process) (restorable : Bool) (outcome : Outcome) : DiskM Unit :=
  writeCrashSafe
    (Disk.renameSnapshot (some (.decoded restorable process.cutoffs.entries))) outcome

end Process

/-- The disk, the process if one runs, and the cutoffs with which a call of
    `persistValidatorCutoff` has returned. -/
structure Machine where
  disk : Disk
  process : Option Process := none
  returned : List (Bytes × Int) := []

namespace Machine

/-- The process after a call that has ended early: a crash ends it. -/
def survives (process : Process) : Stop → Option Process
  | .error _ => some process
  | .crash => none

/-- The machine after a start. -/
def started (machine : Machine) (quarantined written : Outcome) : Machine :=
  match Process.construct quarantined written machine.disk with
  | .ok process disk => { machine with disk, process := some process }
  | .error _ disk => { machine with disk, process := none }

/-- The machine after a call of `persistValidatorCutoff`. -/
def persisted (machine : Machine) (process : Process) (validatorId : Bytes) (acceptedAboveMs : Int)
    (outcome : Outcome) : Machine :=
  match process.persistValidatorCutoff validatorId acceptedAboveMs outcome machine.disk with
  | .ok process disk =>
    { disk, process := some process, returned := (validatorId, acceptedAboveMs) :: machine.returned }
  | .error stop disk => { machine with disk, process := survives process stop }

/-- The machine after the snapshot is saved. -/
def saved (machine : Machine) (process : Process) (restorable : Bool) (outcome : Outcome) :
    Machine :=
  match process.save restorable outcome machine.disk with
  | .ok _ disk => { machine with disk }
  | .error stop disk => { machine with disk, process := survives process stop }

/-- The steps of a machine. A process is started from a disk that is `allowed`. -/
inductive Step (allowed : Disk → Prop) : Machine → Machine → Prop
  | start {machine : Machine} (hdown : machine.process = none) (hdisk : allowed machine.disk)
      (quarantined written : Outcome) : Step allowed machine (machine.started quarantined written)
  | persist {machine : Machine} {process : Process} (hup : machine.process = some process)
      (validatorId : Bytes) (acceptedAboveMs : Int) (outcome : Outcome) :
      Step allowed machine (machine.persisted process validatorId acceptedAboveMs outcome)
  | save {machine : Machine} {process : Process} (hup : machine.process = some process)
      (restorable : Bool) (outcome : Outcome) :
      Step allowed machine (machine.saved process restorable outcome)
  /-- The snapshot file is damaged, in whatever way. -/
  | damage {machine : Machine} (snapshot : File SnapshotFile) :
      Step allowed machine { machine with disk := { machine.disk with snapshot } }
  /-- The process ends, or crashes; the files are as they are. -/
  | exit {machine : Machine} : Step allowed machine { machine with process := none }
  /-- The power fails: what was not synced may be lost. -/
  | powerFailure {machine : Machine} {journal : Option Cutoffs} {snapshot : Option SnapshotFile}
      (hjournal : journal ∈ machine.disk.journal.survivors)
      (hsnapshot : snapshot ∈ machine.disk.snapshot.survivors) :
      Step allowed machine
        { machine with disk := ⟨.durable journal, .durable snapshot⟩, process := none }

end Machine

/-! ## Levels -/

section Levels

open JsonFileControlStorePersistence Process

variable {cutoffs other : Cutoffs} {validatorId : Bytes} {x : WithBot Int}

/-- The cutoffs are integers. -/
def Integral (cutoffs : Cutoffs) : Prop :=
  ∀ validatorId value, cutoffs.get? validatorId = some value → ∃ n, value = .bigint n

/-- The cutoff of a validator, with one below all for none. -/
def level (cutoffs : Cutoffs) (validatorId : Bytes) : WithBot Int :=
  match cutoffs.get? validatorId with
  | some (.bigint n) => n
  | _ => ⊥

theorem level_le_iff : level cutoffs validatorId ≤ x ↔
    ∀ n : Int, cutoffs.get? validatorId = some (.bigint n) → (n : WithBot Int) ≤ x := by
  unfold level
  split
  · next n hget =>
    refine ⟨fun h m hm => ?_, fun h => h n hget⟩
    cases hget.symm.trans hm
    exact h
  · next hnone => exact ⟨fun _ n hn => absurd hn (hnone n), fun _ => bot_le⟩

theorem coe_le_level_iff {n : Int} : (n : WithBot Int) ≤ level cutoffs validatorId ↔
    ∃ m, cutoffs.get? validatorId = some (.bigint m) ∧ n ≤ m := by
  unfold level
  split
  · next m hget =>
    rw [WithBot.coe_le_coe]
    refine ⟨fun h => ⟨m, hget, h⟩, ?_⟩
    rintro ⟨k, hk, h⟩
    cases hget.symm.trans hk
    exact h
  · next hnone =>
    refine ⟨fun h => absurd h (by simp), ?_⟩
    rintro ⟨m, hm, -⟩
    exact absurd hm (hnone m)

theorem level_set (n : Int) (w : Bytes) : level (cutoffs.set validatorId (.bigint n)) w =
    if w = validatorId then (n : WithBot Int) else level cutoffs w := by
  simp only [level, get?_set]
  split_ifs <;> rfl

/-- Integers are determined by their levels. -/
theorem Integral.get?_eq (h : Integral cutoffs) (h' : Integral other)
    (hlevel : level cutoffs validatorId = level other validatorId) :
    cutoffs.get? validatorId = other.get? validatorId := by
  unfold level at hlevel
  cases hget : cutoffs.get? validatorId with
  | none =>
    cases hget' : other.get? validatorId with
    | none => rfl
    | some value =>
      obtain ⟨n, rfl⟩ := h' _ _ hget'
      rw [hget, hget'] at hlevel
      exact absurd hlevel.symm WithBot.coe_ne_bot
  | some value =>
    obtain ⟨n, rfl⟩ := h _ _ hget
    cases hget' : other.get? validatorId with
    | none =>
      rw [hget, hget'] at hlevel
      exact absurd hlevel WithBot.coe_ne_bot
    | some value' =>
      obtain ⟨m, rfl⟩ := h' _ _ hget'
      rw [hget, hget'] at hlevel
      rw [WithBot.coe_inj.1 hlevel]

theorem Integral.set (h : Integral cutoffs) (validatorId : Bytes) (n : Int) :
    Integral (cutoffs.set validatorId (.bigint n)) := by
  intro v value hget
  rw [get?_set] at hget
  split_ifs at hget
  · exact ⟨n, (Option.some.inj hget).symm⟩
  · exact h v value hget

theorem integral_empty : Integral .empty := fun _ _ hget => absurd hget (by simp)

variable {state : Cutoffs × Bool}

theorem raise_fst (cutoffs : Cutoffs) (changed : Bool) (cutoff : Bytes × CutoffValue) :
    (raise (cutoffs, changed) cutoff).1 = mergeValidatorCutoff cutoffs cutoff := by
  unfold mergeValidatorCutoff raise
  dsimp only
  split
  · rfl
  · split_ifs <;> rfl

theorem foldl_raise_fst (cutoffs : Cutoffs) (changed : Bool) (l : List (Bytes × CutoffValue)) :
    (l.foldl raise (cutoffs, changed)).1 = l.foldl mergeValidatorCutoff cutoffs := by
  induction l generalizing cutoffs changed with
  | nil => rfl
  | cons cutoff l ih =>
    rw [foldl_cons, foldl_cons, ← raise_fst cutoffs changed cutoff]
    exact ih _ _

theorem raise_of_unchanged {cutoff : Bytes × CutoffValue} (h : (raise state cutoff).2 = false) :
    raise state cutoff = state := by
  unfold raise at h ⊢
  cases hget : state.1.get? cutoff.1 with
  | none =>
    rw [hget] at h
    cases h
  | some previous =>
    rw [hget] at h
    by_cases hgt : cutoff.2.gt previous = true
    · simp only [hgt] at h
      cases h
    · simp only [hgt, Bool.false_eq_true, if_false]

variable {l : List (Bytes × CutoffValue)}

/-- Where nothing is taken, nothing changes. -/
theorem foldl_raise_of_unchanged (h : (l.foldl raise state).2 = false) :
    l.foldl raise state = state := by
  induction l generalizing state with
  | nil => rfl
  | cons cutoff l ih =>
    rw [foldl_cons] at h ⊢
    have hrest := ih h
    rw [hrest] at h ⊢
    exact raise_of_unchanged h

/-- Merging a cutoff makes the level of its validator the higher one. -/
theorem integral_merge (h : Integral cutoffs) (w : Bytes) (n : Int) :
    Integral (mergeValidatorCutoff cutoffs (w, .bigint n)) ∧
      ∀ v x, level (mergeValidatorCutoff cutoffs (w, .bigint n)) v ≤ x ↔
        level cutoffs v ≤ x ∧ (v = w → (n : WithBot Int) ≤ x) := by
  have hset := h.set w n
  have hlevel : level cutoffs w ≤ n → ∀ v x,
      level (cutoffs.set w (.bigint n)) v ≤ x ↔ level cutoffs v ≤ x ∧ (v = w → ↑n ≤ x) := by
    intro hle v x
    rw [level_set]
    split_ifs with hv
    · subst hv
      exact ⟨fun hx => ⟨hle.trans hx, fun _ => hx⟩, fun hx => hx.2 rfl⟩
    · exact ⟨fun hx => ⟨hx, fun hv' => absurd hv' hv⟩, fun hx => hx.1⟩
  unfold mergeValidatorCutoff raise
  cases hget : cutoffs.get? w with
  | none =>
    refine ⟨hset, hlevel ?_⟩
    exact level_le_iff.2 fun m hm => absurd (hget.symm.trans hm) (by simp)
  | some previous =>
    obtain ⟨m, rfl⟩ := h w previous hget
    have hm : level cutoffs w = m := by rw [level, hget]
    by_cases hgt : (CutoffValue.bigint n).gt (.bigint m) = true
    · simp only [hgt]
      refine ⟨hset, hlevel ?_⟩
      rw [hm, WithBot.coe_le_coe]
      exact (of_decide_eq_true hgt).le
    · simp only [hgt, Bool.false_eq_true, if_false]
      refine ⟨h, fun v x => ⟨fun hx => ⟨hx, ?_⟩, fun hx => hx.1⟩⟩
      rintro rfl
      rw [hm] at hx
      refine le_trans (WithBot.coe_le_coe.2 ?_) hx
      exact not_lt.1 fun hlt => hgt (decide_eq_true hlt)

theorem integral_foldl_merge (h : Integral cutoffs) (hl : ∀ cutoff ∈ l, ∃ n, cutoff.2 = .bigint n) :
    Integral (l.foldl mergeValidatorCutoff cutoffs) ∧
      ∀ v x, level (l.foldl mergeValidatorCutoff cutoffs) v ≤ x ↔
        level cutoffs v ≤ x ∧ ∀ n : Int, (v, .bigint n) ∈ l → (n : WithBot Int) ≤ x := by
  induction l generalizing cutoffs with
  | nil => exact ⟨h, fun v x => ⟨fun hx => ⟨hx, fun n hn => absurd hn not_mem_nil⟩, And.left⟩⟩
  | cons cutoff l ih =>
    obtain ⟨w, value⟩ := cutoff
    obtain ⟨n, rfl⟩ := hl _ mem_cons_self
    obtain ⟨hmerged, hlevel⟩ := integral_merge h w n
    obtain ⟨hrest, hrestLevel⟩ := ih hmerged fun later hlater => hl later (mem_cons_of_mem _ hlater)
    refine ⟨hrest, fun v x => ?_⟩
    rw [foldl_cons, hrestLevel, hlevel, and_assoc]
    refine and_congr_right fun _ => ⟨fun ⟨hfirst, hlater⟩ k hk => ?_, fun hall => ⟨?_, fun k hk => ?_⟩⟩
    · rcases mem_cons.1 hk with heq | hk
      · obtain ⟨rfl, hvalue⟩ := Prod.mk.inj heq
        cases hvalue
        exact hfirst rfl
      · exact hlater k hk
    · rintro rfl
      exact hall n mem_cons_self
    · exact hall k (mem_cons_of_mem _ hk)

/-- Merging cutoffs takes the higher ones. -/
theorem level_merge (h : Integral cutoffs) (h' : Integral other) (v : Bytes) :
    level (other.entries.foldl mergeValidatorCutoff cutoffs) v =
      max (level cutoffs v) (level other v) := by
  have hl : ∀ cutoff ∈ other.entries, ∃ n, cutoff.2 = .bigint n := fun cutoff hcutoff =>
    h' cutoff.1 cutoff.2 (mem_entries_iff.1 hcutoff)
  refine eq_of_forall_ge_iff fun x => ?_
  rw [(integral_foldl_merge h hl).2, sup_le_iff, @level_le_iff other]
  simp only [mem_entries_iff]

end Levels

/-! ## What is kept -/

section Kept

open JsonFileControlStorePersistence Process

variable {disk disk' : Disk} {process : Process} {machine machine' : Machine}
variable {cutoffs : Cutoffs} {levels : Bytes → WithBot Int}

/-- Whatever is found of the journal, it has the cutoffs of the levels, or higher ones. -/
def Disk.Covers (disk : Disk) (levels : Bytes → WithBot Int) : Prop :=
  disk.journal.Always fun contents => levels ≤ level (contents.getD .empty)

/-- The cutoffs of a process are integers, and they are journaled. -/
structure Backed (disk : Disk) (process : Process) : Prop where
  integral : Integral process.cutoffs
  agree : ∀ validatorId, process.journaled.get? validatorId = process.cutoffs.get? validatorId
  covers : disk.Covers (level process.cutoffs)

/-- The levels are not below a cutoff that a call has returned with. The journal has them, and so has
    the process that runs, of which every cutoff is journaled. -/
structure Kept (levels : Bytes → WithBot Int) (machine : Machine) : Prop where
  returned : ∀ cutoff ∈ machine.returned, (cutoff.2 : WithBot Int) ≤ levels cutoff.1
  journal : machine.disk.Covers levels
  running : ∀ process, machine.process = some process →
    Backed machine.disk process ∧ levels ≤ level process.cutoffs

theorem level_eq_of_agree {other : Cutoffs} (h : ∀ v, other.get? v = cutoffs.get? v) :
    level other = level cutoffs := by
  funext v
  rw [level, level, h]

/-- The journal has the integers that are written to it. -/
theorem level_le_journaled : level cutoffs ≤ level (cutoffs.mapValues CutoffValue.journaled) :=
  fun _ => level_le_iff.2 fun n hget => coe_le_level_iff.2 ⟨n, get?_mapValues hget, le_rfl⟩

/-- A journal with higher levels is written. -/
theorem meets_writeJournal (hle : levels ≤ level cutoffs) (outcome : Outcome) :
    Meets (·.Covers levels) (writeCrashSafe (Disk.renameJournal cutoffs) outcome)
      (fun _ disk => disk.Covers (level cutoffs)) fun _ disk => disk.Covers levels := by
  intro disk h
  have hsync : ∀ disk : Disk, disk.Covers levels → disk.sync.Covers levels := fun _ h =>
    File.Always.sync h
  have hrename : ∀ disk : Disk, disk.Covers levels → (disk.renameJournal cutoffs).Covers levels :=
    fun _ h => File.Always.rename h (hle.trans level_le_journaled)
  cases outcome with
  | completed => exact @File.always_durable _ _ (some (cutoffs.mapValues _)) level_le_journaled
  | stopped stage crashed => exact write_keeps hsync hrename (.stopped stage crashed) h

/-- Writing a snapshot keeps what the journal has. -/
theorem meets_save (process : Process) (restorable : Bool) (outcome : Outcome) :
    Meets (·.Covers levels) (process.save restorable outcome) (fun _ disk => disk.Covers levels)
      fun _ disk => disk.Covers levels := by
  intro disk h
  have hsync : ∀ disk : Disk, disk.Covers levels → disk.sync.Covers levels := fun _ h =>
    File.Always.sync h
  have hrename : ∀ disk : Disk, disk.Covers levels → (disk.renameSnapshot
      (some (.decoded restorable process.cutoffs.entries))).Covers levels := fun _ h => h
  have hwrite := write_keeps hsync hrename outcome h
  cases outcome <;> exact hwrite

/-- What is kept on the disk is kept for the process that runs on, if it does. -/
theorem Kept.of_disk (h : Kept levels machine)
    (hdisk : ∀ levels, machine.disk.Covers levels → disk'.Covers levels) {process' : Option Process}
    (hprocess : ∀ process, process' = some process → machine.process = some process) :
    Kept levels { machine with disk := disk', process := process' } := by
  refine ⟨h.returned, hdisk levels h.journal, fun process hup => ?_⟩
  obtain ⟨hbacked, hlevel⟩ := h.running process (hprocess process hup)
  exact ⟨⟨hbacked.integral, hbacked.agree, hdisk _ hbacked.covers⟩, hlevel⟩

theorem survives_eq_some {stop : Stop} {process' : Process} (hup : machine.process = some process)
    (h : Machine.survives process stop = some process') : machine.process = some process' := by
  cases stop with
  | error message => exact hup.trans h
  | crash => cases h

/-! ### Calls of a process -/

theorem Kept.saved (h : Kept levels machine) (hup : machine.process = some process)
    (restorable : Bool) (outcome : Outcome) :
    Kept levels (machine.saved process restorable outcome) := by
  unfold Machine.saved
  cases hrun : process.save restorable outcome machine.disk with
  | ok _ disk' =>
    exact h.of_disk (fun levels hcovers => (meets_save process restorable outcome).of_ok hcovers hrun)
      fun _ hprocess => hprocess
  | error stop disk' =>
    exact h.of_disk (fun levels hcovers =>
      (meets_save process restorable outcome).of_error hcovers hrun) fun _ => survives_eq_some hup

/-- A call of `persistValidatorCutoff` that returns has the cutoff journaled. -/
theorem meets_persistValidatorCutoff (validatorId : Bytes) (n : Int) (outcome : Outcome) :
    Meets (Backed · process) (process.persistValidatorCutoff validatorId n outcome)
      (fun next disk => Backed disk next ∧ level process.cutoffs ≤ level next.cutoffs ∧
        (n : WithBot Int) ≤ level next.cutoffs validatorId) fun _ disk => Backed disk process := by
  refine meets_of_forall fun disk hbacked => ?_
  have hdisk : ∀ s, s = disk → Backed s process := fun s hs => hs ▸ hbacked
  unfold persistValidatorCutoff saveValidatorCutoff
  rw [hbacked.agree validatorId]
  refine meets_ite (fun _ => meets_throw_bind hdisk) fun hlower => ?_
  refine meets_ite (fun hequal => meets_pure fun s hs => ⟨hdisk s hs, le_rfl, ?_⟩) fun hequal => ?_
  · exact coe_le_level_iff.2 ⟨n, hequal, le_rfl⟩
  rw [if_neg hlower, if_neg hequal]
  -- The cutoff is written with all the others.
  have hagree : ∀ v, (process.journaled.set validatorId (.bigint n)).get? v =
      (process.cutoffs.set validatorId (.bigint n)).get? v := fun v => by
    rw [get?_set, get?_set, hbacked.agree v]
  have hle : level process.cutoffs ≤ level (process.cutoffs.set validatorId (.bigint n)) := fun v => by
    rw [level_set]
    split_ifs with hv
    · refine level_le_iff.2 fun m hget => WithBot.coe_le_coe.2 (not_lt.1 fun hlt => hlower ?_)
      rw [← hv, hget]
      exact decide_eq_true hlt
    · exact le_rfl
  have hwrite := meets_writeJournal ((level_eq_of_agree hagree).symm ▸ hle) outcome
  refine bind (Q := fun journaled (s : Disk) =>
    journaled = process.journaled.set validatorId (.bigint n) ∧
      s.Covers (level (process.cutoffs.set validatorId (.bigint n)))) ?_ fun journaled =>
        meets_of_and fun hjournaled => meets_pure fun s hs => ?_
  · refine bind (hwrite.weaken (fun s hs => (hdisk s hs).covers) (fun _ _ => id) fun _ s hs =>
      ⟨hbacked.integral, hbacked.agree, hs⟩) fun _ => meets_pure fun s hs => ⟨rfl, ?_⟩
    rwa [level_eq_of_agree hagree] at hs
  · subst hjournaled
    exact ⟨⟨hbacked.integral.set validatorId n, hagree, hs⟩, hle,
      coe_le_level_iff.2 ⟨n, get?_set_self .., le_rfl⟩⟩

theorem Kept.persisted (h : Kept levels machine) (hup : machine.process = some process)
    (validatorId : Bytes) (n : Int) (outcome : Outcome) :
    ∃ levels, Kept levels (machine.persisted process validatorId n outcome) := by
  obtain ⟨hbacked, hlevel⟩ := h.running process hup
  have hmeets := @meets_persistValidatorCutoff process validatorId n outcome
  unfold Machine.persisted
  cases hrun : process.persistValidatorCutoff validatorId n outcome machine.disk with
  | ok next disk' =>
    obtain ⟨hnext, hle, hn⟩ := hmeets.of_ok hbacked hrun
    refine ⟨level next.cutoffs, fun cutoff hcutoff => ?_, hnext.covers, ?_⟩
    · rcases mem_cons.1 hcutoff with rfl | hcutoff
      · exact hn
      · exact (h.returned cutoff hcutoff).trans ((hlevel cutoff.1).trans (hle cutoff.1))
    · rintro _ ⟨⟩
      exact ⟨hnext, le_rfl⟩
  | error stop disk' =>
    have hkept := hmeets.of_error hbacked hrun
    refine ⟨level process.cutoffs, fun cutoff hcutoff => (h.returned cutoff hcutoff).trans
      (hlevel cutoff.1), hkept.covers, fun other hother => ?_⟩
    obtain rfl : process = other :=
      Option.some.inj (hup.symm.trans (survives_eq_some hup hother))
    exact ⟨hkept, le_rfl⟩

/-! ### Starts -/

/-- What a start should find: a journal that is durable and, if the snapshot can be
    restored, integers for its cutoffs. -/
structure Sound (disk : Disk) : Prop where
  journal : disk.journal.survivors = [disk.journal.visible]
  snapshot : ∀ cutoffs, disk.snapshot.visible = some (.decoded true cutoffs) →
    ∀ cutoff ∈ cutoffs, ∃ n, cutoff.2 = .bigint n

theorem integral_ofList {l : List (Bytes × CutoffValue)}
    (hl : ∀ cutoff ∈ l, ∃ n, cutoff.2 = .bigint n) : Integral (.ofList l) := by
  suffices hfold : ∀ cutoffs : Cutoffs, Integral cutoffs →
      Integral (l.foldl (fun m e => m.set e.1 e.2) cutoffs) from hfold _ integral_empty
  induction l with
  | nil => exact fun _ h => h
  | cons cutoff l ih =>
    intro cutoffs h
    obtain ⟨n, hn⟩ := hl cutoff mem_cons_self
    rw [foldl_cons, hn]
    exact ih (fun later hlater => hl later (mem_cons_of_mem _ hlater)) _ (h.set _ n)

theorem integral_of_validJournal (h : validJournal cutoffs) : Integral cutoffs := by
  intro v value hget
  have hentry := all_eq_true.1 h (v, value) (mem_entries_iff.2 hget)
  cases value with
  | bigint n => exact ⟨n, rfl⟩
  | text value => exact absurd hentry (by simp)

theorem keeps_quarantine {journal : Option Cutoffs} (outcome : Outcome) :
    Keeps (fun disk : Disk => disk.journal = .durable journal) (quarantine outcome) := by
  have hfinish : Keeps (fun disk : Disk => disk.journal = .durable journal) (finish outcome) := by
    intro disk h
    cases outcome <;> exact h
  have hsync : ∀ disk : Disk, disk.journal = .durable journal →
      (disk.renameSnapshot none).sync.journal = .durable journal := fun disk h => by
    change disk.journal.sync = _
    rw [h]
    rfl
  rcases outcome with _ | ⟨stage, crashed⟩
  · exact (keeps_modify hsync).bind fun _ => hfinish
  · cases stage
    · exact hfinish
    · exact hfinish
    · exact (keeps_modify fun _ h => h).bind fun _ => hfinish
    · exact (keeps_modify hsync).bind fun _ => hfinish

/-- What a start that comes so far has loaded. The journal is as it was. -/
theorem meets_loadCutoffs (hsound : Sound disk) (quarantined : Outcome) :
    Meets (· = disk) (loadCutoffs quarantined)
      (fun loaded disk' => (loaded.1 = disk.journal.visible ∧ Integral (loaded.1.getD .empty) ∧
        Integral loaded.2) ∧ disk'.journal = .durable disk.journal.visible)
      fun _ disk' => disk'.journal = .durable disk.journal.visible := by
  have hjournal : disk.journal = .durable disk.journal.visible := by
    rw [File.durable, ← hsound.journal]
  have heq : ∀ s, s = disk → s.journal = .durable disk.journal.visible := fun s hs => hs ▸ hjournal
  have hquarantine : Meets (fun s => s.journal = .durable disk.journal.visible)
      (quarantine quarantined) (fun _ s => s.journal = .durable disk.journal.visible)
      fun _ s => s.journal = .durable disk.journal.visible := (keeps_quarantine quarantined).meets
  refine bind (Q := fun journalCutoffs s => (journalCutoffs = disk.journal.visible ∧
    Integral (journalCutoffs.getD .empty)) ∧ s = disk) ?_ fun journalCutoffs =>
      meets_of_and fun ⟨hvisible, hintegral⟩ => ?_
  · refine meets_get_bind fun s hs => ?_
    subst hs
    cases hvisible : s.journal.visible with
    | none => exact meets_pure fun s hs => ⟨⟨rfl, integral_empty⟩, hs⟩
    | some cutoffs =>
      refine meets_ite (fun _ => meets_throw_bind (hvisible ▸ heq)) fun hvalid =>
        meets_pure fun s hs => ⟨⟨rfl, integral_of_validJournal (by simpa using hvalid)⟩, hs⟩
  refine bind (Q := fun snapshot s => (∀ cutoffs, snapshot = some (true, cutoffs) →
    ∀ cutoff ∈ cutoffs, ∃ n, cutoff.2 = .bigint n) ∧
      s.journal = .durable disk.journal.visible) ?_ fun snapshot => meets_of_and fun hsnapshot => ?_
  · refine meets_get_bind fun s hs => ?_
    subst hs
    rcases hsnapshot : s.snapshot.visible with _ | _ | _ | ⟨restorable, cutoffs⟩
    · exact meets_pure fun s hs => ⟨nofun, heq s hs⟩
    · exact meets_ite (fun _ => meets_throw_bind heq) fun _ =>
        (hquarantine.weaken heq (fun _ _ => id) fun _ _ => id).bind fun _ =>
          meets_pure fun s hs => ⟨nofun, hs⟩
    · exact meets_throw heq
    · refine meets_pure fun s hs => ⟨?_, heq s hs⟩
      rintro _ ⟨⟩
      exact hsound.snapshot cutoffs hsnapshot
  refine bind (Q := fun restored s => Integral restored ∧
    s.journal = .durable disk.journal.visible) ?_ fun restored =>
      meets_pure fun s hs => ⟨⟨hvisible, hintegral, hs.1⟩, hs.2⟩
  -- Only a snapshot that is restored has cutoffs.
  rcases snapshot with _ | ⟨_ | _, cutoffs⟩
  · exact meets_pure fun s hs => ⟨integral_empty, hs⟩
  · exact meets_get_bind fun s hs => meets_ite (fun _ => meets_throw_bind fun _ hs' => hs' ▸ hs)
      fun _ => bind (hquarantine.weaken (fun _ hs' => hs' ▸ hs) (fun _ _ => id) fun _ _ => id)
        fun _ => meets_pure fun s hs => ⟨integral_empty, hs⟩
  · exact meets_pure fun s hs => ⟨integral_ofList (hsnapshot cutoffs rfl), hs⟩

/-- The process that a start makes of what it has loaded. -/
def Process.ofLoaded (loaded : Option Cutoffs × Cutoffs) : Process :=
  let cutoffs := (loaded.1.elim [] (·.entries)).foldl mergeValidatorCutoff loaded.2
  ⟨cutoffs, cutoffs.entries.foldl mergeValidatorCutoff (loaded.1.getD .empty)⟩

/-- The process has the higher cutoffs of the two files, also in its journal. -/
theorem level_ofLoaded {loaded : Option Cutoffs × Cutoffs} (h : Integral (loaded.1.getD .empty))
    (h' : Integral loaded.2) : Integral (ofLoaded loaded).cutoffs ∧
      (∀ v, (ofLoaded loaded).journaled.get? v = (ofLoaded loaded).cutoffs.get? v) ∧
      ∀ v, level (ofLoaded loaded).cutoffs v =
        max (level loaded.2 v) (level (loaded.1.getD .empty) v) := by
  have hentries : loaded.1.elim [] (·.entries) = (loaded.1.getD empty).entries := by
    cases loaded.1 <;> rfl
  have hints : ∀ {cutoffs : Cutoffs}, Integral cutoffs → ∀ cutoff ∈ cutoffs.entries,
      ∃ n, cutoff.2 = .bigint n := fun hcutoffs cutoff hcutoff =>
    hcutoffs cutoff.1 cutoff.2 (mem_entries_iff.1 hcutoff)
  have hintegral : Integral (ofLoaded loaded).cutoffs := by
    rw [ofLoaded, hentries]
    exact (integral_foldl_merge h' (hints h)).1
  have hlevel : ∀ v, level (ofLoaded loaded).cutoffs v =
      max (level loaded.2 v) (level (loaded.1.getD .empty) v) := by
    intro v
    rw [ofLoaded, hentries]
    exact level_merge h' h v
  refine ⟨hintegral, fun v => ?_, hlevel⟩
  refine (integral_foldl_merge h (hints hintegral)).1.get?_eq hintegral ?_
  -- The cutoffs of the store are those of the journal or higher ones.
  rw [level_merge h hintegral, max_eq_right]
  rw [hlevel]
  exact le_max_right _ _

/-- A start takes the cutoffs of the journal, and writes it unless that has every cutoff. -/
theorem meets_construct (hsound : Sound disk) (hcovers : disk.Covers levels)
    (quarantined written : Outcome) : Meets (· = disk) (construct quarantined written)
      (fun process disk' => Backed disk' process ∧ levels ≤ level process.cutoffs)
      fun _ disk' => disk'.Covers levels := by
  have hdurable : ∀ s : Disk, s.journal = .durable disk.journal.visible → s.Covers levels := by
    intro s hs
    rw [Disk.Covers, hs]
    exact File.always_durable hcovers.1
  refine bind ((meets_loadCutoffs hsound quarantined).mono_error
    fun _ => hdurable) fun loaded => meets_of_and fun ⟨hloaded, hjournal, hsnapshot⟩ => ?_
  obtain ⟨hintegral, hagree, hlevel⟩ := level_ofLoaded hjournal hsnapshot
  have hle : levels ≤ level (ofLoaded loaded).cutoffs := fun v => by
    rw [hlevel, hloaded]
    exact (hcovers.1 v).trans (le_max_right _ _)
  refine bind (Q := fun journaled (s : Disk) => journaled = (ofLoaded loaded).journaled ∧
    s.Covers (level (ofLoaded loaded).cutoffs)) ?_ fun journaled =>
      meets_of_and fun hjournaled => meets_pure fun s hs => ?_
  · refine meets_get_bind fun s hs => ?_
    have hfst := foldl_raise_fst (loaded.1.getD .empty) s.journal.visible.isNone
      (ofLoaded loaded).cutoffs.entries
    have hraised := (level_eq_of_agree fun v => (congrArg (·.get? v) hfst).trans (hagree v)).symm
    refine meets_ite (fun _ => ?_) fun hchanged => meets_pure fun s' hs' => ⟨hfst, ?_⟩
    · refine bind ((meets_writeJournal (hraised ▸ hle) written).weaken
        (fun s' hs' => hdurable s' (hs' ▸ hs)) (fun _ _ => id) fun _ _ => id) fun _ =>
          meets_pure fun s' hs' => ⟨hfst, hraised ▸ hs'⟩
    · -- The journal is durable and has every cutoff.
      have hsame := foldl_raise_of_unchanged (Bool.eq_false_of_not_eq_true hchanged)
      rw [Disk.Covers, hs', hs, hraised.trans (congrArg (fun raised => level raised.1) hsame), hloaded]
      exact File.always_durable le_rfl
  · subst hjournaled
    exact ⟨⟨hintegral, hagree, hs⟩, hle⟩

theorem Kept.started (h : Kept levels machine) (hsound : Sound machine.disk)
    (quarantined written : Outcome) : Kept levels (machine.started quarantined written) := by
  have hmeets := meets_construct hsound h.journal quarantined written
  unfold Machine.started
  cases hrun : Process.construct quarantined written machine.disk with
  | ok process disk' =>
    obtain ⟨hbacked, hle⟩ := hmeets.of_ok rfl hrun
    refine ⟨h.returned, ⟨hle.trans hbacked.covers.1, fun contents hc =>
      hle.trans (hbacked.covers.2 contents hc)⟩, ?_⟩
    rintro _ ⟨⟩
    exact ⟨hbacked, hle⟩
  | error stop disk' => exact ⟨h.returned, hmeets.of_error rfl hrun, nofun⟩

/-! ### Runs -/

theorem Kept.step (h : Kept levels machine) (hstep : Machine.Step Sound machine machine') :
    ∃ levels, Kept levels machine' := by
  cases hstep with
  | start _ hsound quarantined written => exact ⟨levels, h.started hsound quarantined written⟩
  | persist hup validatorId acceptedAboveMs outcome =>
    exact h.persisted hup validatorId acceptedAboveMs outcome
  | save hup restorable outcome => exact ⟨levels, h.saved hup restorable outcome⟩
  | damage snapshot =>
    have hdisk : ∀ levels, machine.disk.Covers levels →
        ({ machine.disk with snapshot } : Disk).Covers levels := fun _ hkept => hkept
    exact ⟨levels, h.of_disk hdisk fun _ hprocess => hprocess⟩
  | exit => exact ⟨levels, h.of_disk (fun _ hkept => hkept) nofun⟩
  | @powerFailure journal snapshot hjournal _ =>
    have hdisk : ∀ levels, machine.disk.Covers levels →
        (⟨.durable journal, .durable snapshot⟩ : Disk).Covers levels := fun _ hkept =>
      File.always_durable (hkept.2 journal hjournal)
    exact ⟨levels, h.of_disk hdisk nofun⟩

theorem kept_of_run (h : Kept levels machine)
    (hrun : Relation.ReflTransGen (Machine.Step Sound) machine machine') :
    ∃ levels, Kept levels machine' := by
  induction hrun with
  | refl => exact ⟨levels, h⟩
  | tail _ hstep ih =>
    obtain ⟨levels, h⟩ := ih
    exact h.step hstep

/-- In a run whose starts find a durable journal, and integers in a snapshot that they restore, the
    store has every cutoff that a call has returned with, or a higher one, from the start on. -/
theorem cutoff_le_of_run
    (hrun : Relation.ReflTransGen (Machine.Step Sound) ⟨disk, none, []⟩ machine)
    (hup : machine.process = some process) {validatorId : Bytes} {acceptedAboveMs : Int}
    (hreturned : (validatorId, acceptedAboveMs) ∈ machine.returned) :
    ∃ n, process.cutoffs.get? validatorId = some (.bigint n) ∧ acceptedAboveMs ≤ n := by
  have hstart : Kept ⊥ ⟨disk, none, []⟩ :=
    ⟨forall_mem_nil _, ⟨bot_le, fun _ _ => bot_le⟩, nofun⟩
  obtain ⟨levels, hkept⟩ := kept_of_run hstart hrun
  refine coe_le_level_iff.1 ((hkept.returned _ hreturned).trans ?_)
  exact (hkept.running process hup).2 validatorId

end Kept

/-! ## Samples -/

namespace LostCutoff

variable {allowed : Disk → Prop}

/-- A disk without files. -/
def fresh : Machine := { disk := ⟨.durable none, .durable none⟩ }

/-- A process is started, and no write fails. -/
def start (machine : Machine) : Machine := machine.started .completed .completed

/-- The process that runs. -/
def running (machine : Machine) : Process := machine.process.getD ⟨.empty, .empty⟩

/-- The validator 1 persists a cutoff. -/
def persist (acceptedAboveMs : Int) (outcome : Outcome) (machine : Machine) : Machine :=
  machine.persisted (running machine) [1] acceptedAboveMs outcome

/-- The snapshot file is damaged. -/
def damage (contents : SnapshotFile) (machine : Machine) : Machine :=
  { machine with disk := { machine.disk with snapshot := .durable (some contents) } }

/-- The process ends. -/
def exit (machine : Machine) : Machine := { machine with process := none }

/-- The power fails, and the journal is found with other contents. -/
def powerFailure (journal : Option Cutoffs) (machine : Machine) : Machine :=
  { machine with disk := ⟨.durable journal, machine.disk.snapshot.sync⟩, process := none }

theorem step_start {machine : Machine} (hdown : machine.process = none)
    (hdisk : allowed machine.disk) : Machine.Step allowed machine (start machine) :=
  .start hdown hdisk _ _

theorem step_persist {machine : Machine} (hup : machine.process.isSome)
    (n : Int) (outcome : Outcome) : Machine.Step allowed machine (persist n outcome machine) := by
  obtain ⟨process, hprocess⟩ := Option.isSome_iff_exists.1 hup
  have hrunning : running machine = process := by rw [running, hprocess]; rfl
  exact .persist (hprocess.trans (congrArg some hrunning.symm)) _ _ _

/-- The validator has persisted the cutoff 10, and the process has ended. -/
def persisted : Machine := exit (persist 10 .completed (start fresh))

/-- The process has crashed between the rename and the sync of a journal with the
    cutoff 10; the cutoff before was 5. -/
def unsynced : Machine := persist 10 (.stopped .renamed true) (persist 5 .completed (start fresh))

/-- The next process takes the cutoff 10 for persisted, and then the power fails. -/
def reverted : Machine :=
  powerFailure (some (.ofList [([1], .bigint 5)])) (persist 10 .completed (start unsynced))

theorem run_persisted (hfresh : allowed fresh.disk) :
    Relation.ReflTransGen (Machine.Step allowed) fresh persisted :=
  ((Relation.ReflTransGen.single (step_start rfl hfresh)).tail
    (step_persist (by decide +kernel) 10 .completed)).tail .exit

/-- A snapshot with a text for a cutoff hides the cutoff of the journal, and a journal
    that was not synced is lost after a call has returned with its cutoff. -/
theorem cutoff_lost :
    (∃ machine process, Relation.ReflTransGen (Machine.Step fun _ => True) fresh machine ∧
      machine.process = some process ∧ ([1], 10) ∈ machine.returned ∧
      process.cutoffs.get? [1] = some (.text "x")) ∧
    ∃ machine process, Relation.ReflTransGen (Machine.Step fun _ => True) fresh machine ∧
      machine.process = some process ∧ ([1], 10) ∈ machine.returned ∧
      process.cutoffs.get? [1] = some (.bigint 5) := by
  constructor
  · refine ⟨start (damage (.decoded true [([1], .text "x")]) persisted),
      running (start (damage (.decoded true [([1], .text "x")]) persisted)),
      ((run_persisted trivial).tail (.damage _)).tail (step_start rfl trivial), ?_, ?_, ?_⟩
    · rfl
    · decide +kernel
    · decide +kernel
  · have hrun : Relation.ReflTransGen (Machine.Step fun _ => True) fresh
        (persist 10 .completed (start unsynced)) :=
      ((((Relation.ReflTransGen.single (step_start rfl trivial)).tail
        (step_persist (by decide +kernel) 5 .completed)).tail
        (step_persist (by decide +kernel) 10 (.stopped .renamed true))).tail
        (step_start (by decide +kernel) trivial)).tail
        (step_persist (by decide +kernel) 10 .completed)
    refine ⟨start reverted, running (start reverted),
      (hrun.tail (.powerFailure ?_ ?_)).tail (step_start rfl trivial), ?_, ?_, ?_⟩
    · decide +kernel
    · decide +kernel
    · rfl
    · decide +kernel
    · decide +kernel

/-- After a crash and with a corrupt snapshot the cutoff is there. -/
theorem cutoff_persists : ∃ machine process n,
    Relation.ReflTransGen (Machine.Step Sound) fresh machine ∧
      machine.process = some process ∧ machine.returned = [([1], 10)] ∧
      process.cutoffs.get? [1] = some (.bigint n) ∧ 10 ≤ n := by
  have hsound : Sound (damage .corrupt persisted).disk := by
    refine ⟨by decide +kernel, fun cutoffs hvisible => ?_⟩
    cases hvisible
  have hrun : Relation.ReflTransGen (Machine.Step Sound) fresh (start (damage .corrupt persisted)) :=
    ((run_persisted ⟨rfl, nofun⟩).tail (.damage _)).tail (step_start rfl hsound)
  have hup : (start (damage .corrupt persisted)).process =
      some (running (start (damage .corrupt persisted))) := rfl
  have hreturned : (start (damage .corrupt persisted)).returned = [([1], 10)] := by decide +kernel
  obtain ⟨n, hget, hle⟩ := cutoff_le_of_run hrun hup (hreturned ▸ mem_singleton_self _)
  exact ⟨_, _, n, hrun, hup, hreturned, hget, hle⟩

end LostCutoff

end Chronolog.Durability
