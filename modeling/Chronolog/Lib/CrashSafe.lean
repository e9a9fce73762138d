import Mathlib.Data.List.Basic

/-!
# Crash-safe files

A file that is replaced by renaming has the contents that a read finds and, until
the directory is synced, further contents that a power failure may bring back
(`File.survivors`). A crash-safe write syncs, renames and syncs again, and may be
stopped between these (`write`). What holds of all contents of a file, and of those
renamed to, holds of whatever is found later (`Always`, `write_keeps`).
-/

namespace CrashSafe

variable {α σ : Type*}

/-- A file: the contents that a read finds, if there are any, and those that may be
    found after a power failure. -/
structure File (α : Type*) where
  visible : Option α
  survivors : List (Option α)

namespace File

/-- The file that is durably there with the contents, or is not there. -/
def durable (contents : Option α) : File α := ⟨contents, [contents]⟩

/-- The directory is synced. -/
def sync (file : File α) : File α := durable file.visible

/-- Other contents are renamed to the file, or it is renamed away. -/
def rename (file : File α) (contents : Option α) : File α := ⟨contents, contents :: file.survivors⟩

/-- Whatever is found in the file has the property. -/
def Always (P : Option α → Prop) (file : File α) : Prop :=
  P file.visible ∧ ∀ contents ∈ file.survivors, P contents

variable {P : Option α → Prop} {file : File α} {contents : Option α}

theorem always_durable (h : P contents) : (durable contents).Always P :=
  ⟨h, fun _ hmem => List.mem_singleton.1 hmem ▸ h⟩

theorem Always.sync (h : file.Always P) : file.sync.Always P := always_durable h.1

theorem Always.rename (h : file.Always P) (hcontents : P contents) :
    (file.rename contents).Always P := by
  refine ⟨hcontents, fun other hother => ?_⟩
  rcases List.mem_cons.1 hother with rfl | hother
  · exact hcontents
  · exact h.2 other hother

end File

/-- Where a write may be stopped. -/
inductive Stage
  /-- Before the directory is synced for the first time. -/
  | begun
  /-- Before the rename. -/
  | synced
  /-- Before the directory is synced for the second time. -/
  | renamed
  /-- After that, before the write returns. -/
  | finished
  deriving DecidableEq

/-- What comes of a write: it may be stopped, by an error or by a crash. -/
inductive Outcome
  | completed
  | stopped (stage : Stage) (crashed : Bool)
  deriving DecidableEq

/-- What a write leaves on the disk. -/
def write (sync rename : σ → σ) : Outcome → σ → σ
  | .completed, disk => sync (rename (sync disk))
  | .stopped .begun _, disk => disk
  | .stopped .synced _, disk => sync disk
  | .stopped .renamed _, disk => rename (sync disk)
  | .stopped .finished _, disk => sync (rename (sync disk))

theorem write_keeps {P : σ → Prop} {sync rename : σ → σ} (hsync : ∀ disk, P disk → P (sync disk))
    (hrename : ∀ disk, P disk → P (rename disk)) (outcome : Outcome) {disk : σ} (h : P disk) :
    P (write sync rename outcome disk) := by
  rcases outcome with _ | ⟨stage, crashed⟩
  · exact hsync _ (hrename _ (hsync _ h))
  · cases stage
    · exact h
    · exact hsync _ h
    · exact hrename _ (hsync _ h)
    · exact hsync _ (hrename _ (hsync _ h))

end CrashSafe
