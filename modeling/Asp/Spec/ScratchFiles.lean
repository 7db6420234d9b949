import Asp.Spec.Workspace

/-! Names of scratch files: `Path::with_extension` as `prepare_file_upload` and
`commit_file_transaction` use it, and the filter `WorkspaceIndex::event_file_path` between
the watcher and `record_workspace_file_events`. A path is the list of its components from the
file system's root on; the workspace has the canonical path `root`. -/

namespace Asp

open Std

/-- `rsplit_file_at_dot`: the stem of a file name and its extension, unless nothing stands
before the last dot. -/
def rsplitFileAtDot (name : String) : String × Option String :=
  let after := (name.toList.reverse.takeWhile (· ≠ '.')).reverse
  match name.toList.reverse.dropWhile (· ≠ '.') with
  | [] | [_] => (name, none)
  | _ :: before =>
      if name = ".." then (name, none)
      else (String.ofList before.reverse, some (String.ofList after))

/-- `Path::file_stem` -/
def fileStem (name : String) : String := (rsplitFileAtDot name).1

/-- What `Path::with_extension` copies of a name: all of it, up to its extension. -/
def copiedName (name : String) : String :=
  match rsplitFileAtDot name with
  | (_, none) => name
  | (stem, some _) => stem ++ "."

/-- `Path::with_extension`. Of `..x` it copies `..`, which is no file name, and
`set_extension` leaves it. -/
def withExtension (path : PathKey) (extension : String) : PathKey :=
  match path.getLast? with
  | none => path
  | some name =>
      let copied := copiedName name
      path.dropLast ++ [if copied = ".." then copied else fileStem copied ++ "." ++ extension]

/-- The temporary of `prepare_file_upload`. -/
def temporaryPath (resolved : PathKey) (uuid : String) : PathKey :=
  withExtension resolved ("asp-tmp-" ++ uuid)

/-- The backup of `commit_file_transaction`. -/
def backupPath (resolved : PathKey) (uuid : String) : PathKey :=
  withExtension resolved ("asp-backup-" ++ uuid)

namespace Workspace

end Workspace

end Asp
