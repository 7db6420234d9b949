import Asp.Lib.FileTree
import Asp.Spec.Basic

/-! Backups of the durable state: `backup_state`, `verify_backup`,
`restore_state` and the walks that they share. A directory is given by its
children in the order of their names, in which `copy_tree` and
`collect_backup_entries_inner` visit them; names that are not UTF-8, which the
latter refuses, do not occur. The state does not change during a call, and the
file system reports no errors. -/

namespace Asp

open Std FileTree

def maxBackupManifestBytes : ℕ := 64 * 1024 * 1024
def maxBackupEntries : ℕ := 1000000
def backupManifestVersion : ℕ := 1

structure BackupEntry where
  path : String
  bytes : ℕ
  sha256 : String
  mode : Option ℕ
  deriving DecidableEq

structure BackupManifest where
  version : ℕ
  createdUnixMs : ℕ
  entries : List BackupEntry
  deriving DecidableEq

/-- `serde_json` on manifests: it reads back what it writes, and writes out every
character of a string. -/
structure ManifestJson extends Message BackupManifest where
  writes_strings : ∀ m : BackupManifest,
    (m.entries.map fun entry => entry.path.length + entry.sha256.length).sum ≤ (encode m).length

structure StateFile where
  mode : ℕ
  content : Bytes
  deriving DecidableEq

abbrev StateListing := Listing StateFile ℕ

/-- The directory `.asp`, or `state` of a backup. -/
structure StateTree where
  mode : ℕ
  children : StateListing
  deriving DecidableEq

structure Backup where
  manifestFile : Option Bytes
  state : Option StateTree
  deriving DecidableEq

inductive BackupError where
  | noState
  | destinationExists
  | copySymlink (path : List String)
  | hashSymlink (path : List String)
  | unsupportedEntry (path : List String)
  | tooManyFiles
  | noManifest
  | manifestTooLong
  | badManifest
  | unsupportedVersion (version : ℕ)
  | tooManyEntries
  | noBackupState
  | unsafePath (path : String)
  | duplicatePath (path : String)
  | countMismatch (manifest actual : ℕ)
  | unlistedFile (path : String)
  | metadataMismatch (path : String)
  | stateExists
  deriving DecidableEq

/-- The lock of the running daemon, which no walk looks at. -/
def daemonLock : String := "aspd.lock"

def permissions (mode : ℕ) : ℕ := mode % 0o1000

def copyChildren (path : List String) : StateListing → Except BackupError StateListing
  | .done => .ok .done
  | .file name data rest =>
      if name = daemonLock then copyChildren path rest
      else (copyChildren path rest).map (.file name ⟨permissions data.mode, data.content⟩)
  | .directory name mode children rest =>
      if name = daemonLock then copyChildren path rest
      else
        (copyChildren (path ++ [name]) children).bind fun copied =>
          (copyChildren path rest).map (.directory name (permissions mode) copied)
  | .symlink name rest =>
      if name = daemonLock then copyChildren path rest else .error (.copySymlink (path ++ [name]))
  | .special name rest =>
      if name = daemonLock then copyChildren path rest
      else .error (.unsupportedEntry (path ++ [name]))

def copyTree (tree : StateTree) : Except BackupError StateTree :=
  (copyChildren [] tree.children).map (.mk (permissions tree.mode))

section Digest

variable (sha256 : Bytes → String)

def backupEntry (file : List String × StateFile) : BackupEntry :=
  ⟨pathText file.1, file.2.content.length, sha256 file.2.content, some (permissions file.2.mode)⟩

def collectBackupEntriesInner (path : List String) :
    StateListing → List BackupEntry → Except BackupError (List BackupEntry)
  | .done, entries => .ok entries
  | .file name data rest, entries =>
      if name = daemonLock then collectBackupEntriesInner path rest entries
      else if entries.length ≥ maxBackupEntries then .error .tooManyFiles
      else collectBackupEntriesInner path rest
        (entries ++ [backupEntry sha256 (path ++ [name], data)])
  | .directory name _ children rest, entries =>
      if name = daemonLock then collectBackupEntriesInner path rest entries
      else
        (collectBackupEntriesInner (path ++ [name]) children entries).bind
          (collectBackupEntriesInner path rest)
  | .symlink name rest, entries =>
      if name = daemonLock then collectBackupEntriesInner path rest entries
      else .error (.hashSymlink (path ++ [name]))
  | .special name rest, entries =>
      if name = daemonLock then collectBackupEntriesInner path rest entries
      else .error (.unsupportedEntry (path ++ [name]))

def sortEntries (entries : List BackupEntry) : List BackupEntry :=
  entries.mergeSort fun left right => decide (left.path ≤ right.path)

def collectBackupEntries (tree : StateTree) : Except BackupError (List BackupEntry) :=
  (collectBackupEntriesInner sha256 [] tree.children []).map sortEntries

variable (json : ManifestJson)

def backupState (source : Option StateTree) (destinationExists : Bool) (unixMs : ℕ) :
    Except BackupError (BackupManifest × Backup) :=
  match source with
  | none => .error .noState
  | some source =>
      if destinationExists then .error .destinationExists
      else
        (copyTree source).bind fun state =>
          (collectBackupEntries sha256 state).map fun entries =>
            let manifest : BackupManifest := ⟨backupManifestVersion, unixMs, entries⟩
            (manifest, ⟨some (json.encode manifest), some state⟩)

/-- Not empty, not absolute, and without a component `..`. -/
def safeBackupRelativePath (path : String) : Bool :=
  decide (path ≠ "") && decide (path.toList.head? ≠ some '/') &&
    (path.toList.splitOn '/').all fun component => decide (component ≠ ['.', '.'])

/-- The loop over the entries of the manifest. -/
def expectedEntries : List BackupEntry → ExtTreeMap String BackupEntry →
    Except BackupError (ExtTreeMap String BackupEntry)
  | [], expected => .ok expected
  | entry :: entries, expected =>
      if !safeBackupRelativePath entry.path then .error (.unsafePath entry.path)
      else if expected[entry.path]?.isSome then .error (.duplicatePath entry.path)
      else expectedEntries entries (expected.insert entry.path entry)

def checkEntries (expected : ExtTreeMap String BackupEntry) :
    List BackupEntry → Except BackupError Unit
  | [] => .ok ()
  | entry :: entries =>
      match expected[entry.path]? with
      | none => .error (.unlistedFile entry.path)
      | some listed =>
          if entry.bytes ≠ listed.bytes ∨ entry.sha256 ≠ listed.sha256 ∨
              entry.mode ≠ listed.mode then
            .error (.metadataMismatch entry.path)
          else checkEntries expected entries

/-- What `verify_backup` does once the manifest is read. -/
def verifyManifest (manifest : BackupManifest) (state : Option StateTree) :
    Except BackupError BackupManifest :=
  if manifest.version ≠ backupManifestVersion then .error (.unsupportedVersion manifest.version)
  else if manifest.entries.length > maxBackupEntries then .error .tooManyEntries
  else
    match state with
    | none => .error .noBackupState
    | some state =>
        (collectBackupEntries sha256 state).bind fun actual =>
          (expectedEntries manifest.entries ∅).bind fun expected =>
            if actual.length ≠ expected.size then
              .error (.countMismatch expected.size actual.length)
            else (checkEntries expected actual).map fun _ => manifest

def verifyBackup (backup : Backup) : Except BackupError BackupManifest :=
  match backup.manifestFile with
  | none => .error .noManifest
  | some bytes =>
      if bytes.length > maxBackupManifestBytes then .error .manifestTooLong
      else
        match json.decode bytes with
        | none => .error .badManifest
        | some manifest => verifyManifest sha256 manifest backup.state

/-- The restored state, and the one that it replaced. -/
def restoreState (backup : Backup) (existing : Option StateTree) (force : Bool) :
    Except BackupError (StateTree × Option StateTree) :=
  (verifyBackup sha256 json backup).bind fun _ =>
    if existing.isSome && !force then .error .stateExists
    else
      match backup.state with
      | none => .error .noBackupState
      | some state => (copyTree state).map fun restored => (restored, existing)

end Digest

def StateTree.files (tree : StateTree) : List (List String × StateFile) := tree.children.files []

def StateTree.stateFiles (tree : StateTree) : List (List String × StateFile) :=
  tree.files.filter fun file => decide (daemonLock ∉ file.1)

/-- The manifest that lists the files of a tree. -/
def StateTree.manifest (sha256 : Bytes → String) (tree : StateTree) (unixMs : ℕ) : BackupManifest :=
  ⟨backupManifestVersion, unixMs, sortEntries (tree.stateFiles.map (backupEntry sha256))⟩

end Asp
