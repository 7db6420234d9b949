import Asp.Lib.Steps
import Asp.Spec.Patch

/-! The memory of a selected-files query: the tasks of `read_workspace_files` and the
semaphore that they share. A task waits for a slot of the largest file, and after its read
keeps as many units as its file has, until the response is written. The tasks run in any
order; one that fails ends the query. -/

namespace Asp

open Steps

def workspaceSelectedFilesMaxBytes : ℕ := 32 * 1024 * 1024
def frameMemoryUnitBytes : ℕ := 64 * 1024

/-- `usize::div_ceil` -/
def divCeil (a b : ℕ) : ℕ := (a + b - 1) / b

def workspaceFileMemoryUnits : ℕ := divCeil workspaceSelectedFilesMaxBytes frameMemoryUnitBytes
def workspaceFileMaxMemoryUnits : ℕ := divCeil fileMaxBytes frameMemoryUnitBytes

/-- The files of a query are far below the sizes at which this overflows. -/
def frameMemoryUnits (length : ℕ) : ℕ :=
  max ((length + (frameMemoryUnitBytes - 1)) / frameMemoryUnitBytes) 1

/-- The sizes that `read_workspace_files` goes on with. -/
def SelectedFiles (files : List ℕ) : Prop :=
  (∀ bytes ∈ files, bytes ≤ fileMaxBytes) ∧ files.sum ≤ workspaceSelectedFilesMaxBytes

instance (files : List ℕ) : Decidable (SelectedFiles files) := by
  unfold SelectedFiles
  infer_instance

inductive FileTask where
  | waiting
  /-- Between the slot and its split. -/
  | reading
  /-- Joined, with the units of its file. -/
  | read
  deriving DecidableEq

def FileTask.held (bytes : ℕ) : FileTask → ℕ
  | .waiting => 0
  | .reading => workspaceFileMaxMemoryUnits
  | .read => frameMemoryUnits bytes

structure FilesQuery (files : List ℕ) where
  tasks : Fin files.length → FileTask
  /-- `available_permits` -/
  free : ℕ

inductive FilesAction (files : List ℕ) where
  | acquire (i : Fin files.length)
  | split (i : Fin files.length)

namespace FilesQuery

variable {files : List ℕ}

def start (files : List ℕ) : FilesQuery files := ⟨fun _ => .waiting, workspaceFileMemoryUnits⟩

def act : FilesAction files → FilesQuery files → Option (FilesQuery files)
  | .acquire i, q =>
      if q.tasks i = .waiting ∧ workspaceFileMaxMemoryUnits ≤ q.free then
        some ⟨Function.update q.tasks i .reading, q.free - workspaceFileMaxMemoryUnits⟩
      else none
  | .split i, q =>
      if q.tasks i = .reading ∧ frameMemoryUnits (files.get i) ≤ workspaceFileMaxMemoryUnits then
        some ⟨Function.update q.tasks i .read,
          q.free + (workspaceFileMaxMemoryUnits - frameMemoryUnits (files.get i))⟩
      else none

end FilesQuery

def filesMachine (files : List ℕ) : Machine (FilesAction files) (FilesQuery files) :=
  ⟨FilesQuery.act, fun _ _ => []⟩

/-- A task waits, no task is about to give units back, and there is no slot: what the
finished tasks keep for the response is what it waits for. -/
def FilesQuery.Starves {files : List ℕ} (q : FilesQuery files) : Prop :=
  (∃ i, q.tasks i = .waiting) ∧ (∀ i, q.tasks i ≠ .reading) ∧ q.free < workspaceFileMaxMemoryUnits

end Asp
