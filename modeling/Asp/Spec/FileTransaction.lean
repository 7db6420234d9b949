import Asp.Lib.Durable
import Asp.Lib.Program
import Asp.Spec.Event

/-! File mutations: `commit_file_transaction`, `rollback_file_transaction` and
`recover_pending_file_mutations`. One transaction is modelled: its target,
staged file and backup in one directory, its intent file, the journal and the
tables that the journal restores. The workspace gate admits one transaction at a
time, so a crash leaves at most one intent. Metadata and digests are read as they
are; changes, syncs and appends can report an error. -/

namespace Asp

open Std Durable Steps

inductive Entry where
  | file (bytes : Bytes)
  /-- A symbolic link, a directory or another entry that is not a regular file. -/
  | other
  deriving DecidableEq

inductive FileName where
  | target
  | temporary
  | backup
  deriving DecidableEq

structure Files where
  target : Option Entry
  temporary : Option Entry
  backup : Option Entry
  deriving DecidableEq

namespace Files

def get (f : Files) : FileName → Option Entry
  | .target => f.target
  | .temporary => f.temporary
  | .backup => f.backup

def set (f : Files) (name : FileName) (entry : Option Entry) : Files :=
  match name with
  | .target => { f with target := entry }
  | .temporary => { f with temporary := entry }
  | .backup => { f with backup := entry }

/-- `rename` replaces what is under the new name. -/
def rename (f : Files) (source dest : FileName) : Files :=
  (f.set dest (f.get source)).set source none

end Files

def Entry.isFile : Option Entry → Bool
  | some (.file _) => true
  | some .other | none => false

/-- `digest_file_sync` where there is a regular file. -/
def Entry.digest (sha256 : Bytes → String) : Option Entry → Option String
  | some (.file bytes) => some (sha256 bytes)
  | some .other | none => none

structure PendingFileMutation where
  requestId : Uuid
  requestHash : String
  path : String
  version : ℕ
  sha256 : String
  temporaryPath : String
  backupPath : Option String
  previousSha256 : Option String
  deriving DecidableEq

/-- What the event and the request table say of a mutation. -/
def PendingFileMutation.record (p : PendingFileMutation) : FileRequest :=
  ⟨p.requestHash, p.path, p.version, p.sha256⟩

/-- The part of the session's memory that file mutations read and write. -/
structure FileTables where
  nextId : ℕ
  fileVersions : ExtTreeMap String ℕ
  fileRequests : ExtTreeMap Uuid FileRequest
  deriving DecidableEq

namespace FileTables

def ofLoaded (s : LoadedSession) : FileTables := ⟨s.nextId, s.fileVersions, s.fileRequests⟩

def version (t : FileTables) (path : String) : ℕ := t.fileVersions.getD path 0

/-- What `append_locked` does to the tables when it has appended a mutation. -/
def appended (t : FileTables) (record : FileRequest) : FileTables :=
  { t with
    nextId := t.nextId + 1
    fileVersions := t.fileVersions.insert record.path (max (t.version record.path) record.version) }

/-- What its callers do next, still under the commit lock. -/
def recorded (t : FileTables) (requestId : Uuid) (record : FileRequest) : FileTables :=
  { t with
    fileVersions := t.fileVersions.insert record.path record.version
    fileRequests := t.fileRequests.insert requestId record }

end FileTables

def mutationKind (requestId : Uuid) (record : FileRequest) : EventKind :=
  .fileMutation requestId record.requestHash record.path record.version record.sha256

structure FileWorld where
  /-- The directory of the target. -/
  dir : Kept Files
  /-- The entry `<request id>.json` of `transactions/`. -/
  intent : Kept (Option PendingFileMutation)
  journal : Kept (List Event)
  tables : FileTables

abbrev FileWorld.files (w : FileWorld) : Files := w.dir.now

inductive FileIo where
  /-- `reserve_idempotency_record`. -/
  | reserve
  | createParent
  | hashTarget
  /-- `apply_workspace_upload_permissions`: the staged file is synced. -/
  | permissions
  | rename (source dest : FileName)
  | remove (name : FileName)
  /-- `sync_directory` of the target's directory. -/
  | syncDir
  /-- The rename of `write_atomic_file`. -/
  | publishIntent (pending : PendingFileMutation)
  | removeIntent
  | syncIntents
  /-- The append of a `FileMutation` with the update of the tables. -/
  | append (unixMs : ℕ) (requestId : Uuid) (record : FileRequest)
  deriving DecidableEq

def FileWorld.mutation (w : FileWorld) (unixMs : ℕ) (requestId : Uuid) (record : FileRequest) :
    Event :=
  ⟨w.tables.nextId + 1, unixMs, mutationKind requestId record⟩

/-- One operation; `none` where the file is missing. -/
def FileIo.act : FileIo → FileWorld → Option FileWorld
  | .reserve, w | .createParent, w | .hashTarget, w | .permissions, w => some w
  | .rename source dest, w =>
      if w.files.get source = none then none
      else some { w with dir := w.dir.change (w.files.rename source dest) }
  | .remove name, w =>
      if w.files.get name = none then none
      else some { w with dir := w.dir.change (w.files.set name none) }
  | .syncDir, w => some { w with dir := w.dir.sync }
  | .publishIntent pending, w => some { w with intent := w.intent.change (some pending) }
  | .removeIntent, w =>
      if w.intent.now = none then none else some { w with intent := w.intent.change none }
  | .syncIntents, w => some { w with intent := w.intent.sync }
  | .append unixMs requestId record, w =>
      some { w with
        journal := .stable (w.journal.now ++ [w.mutation unixMs requestId record])
        tables := (w.tables.appended record).recorded requestId record }

/-- A failed operation changes nothing, but an append whose sync failed takes its
record back with an unsynced `set_len`. -/
def FileIo.fault : FileIo → FileWorld → List FileWorld
  | .append unixMs requestId record, w =>
      [w, { w with
        journal := w.journal.undone (w.journal.now ++ [w.mutation unixMs requestId record]) }]
  | _, w => [w]

def fileMachine : Machine FileIo FileWorld := ⟨FileIo.act, FileIo.fault⟩

/-- A failure of this step in the commit is undone by a rollback. -/
def FileIo.rollsBack : FileIo → Bool
  | .rename .temporary .target | .syncDir | .append _ _ _ => true
  | _ => false

/-- The steps whose failure after the event is only logged. -/
def FileIo.isCleanup : FileIo → Bool
  | .remove _ | .syncDir | .removeIntent | .syncIntents => true
  | _ => false

structure FileStored where
  path : String
  version : ℕ
  sha256 : String
  deriving DecidableEq

inductive RollbackError where
  | nonRegularTarget
  /-- "workspace target changed during file rollback" -/
  | targetChanged
  | io (failed : FileIo)
  deriving DecidableEq

/-- The step whose failure a rollback was to undo. -/
inductive RollbackSite where
  | backupSync
  | install
  | installSync
  | append
  deriving DecidableEq

inductive FileError where
  /-- "idempotency_conflict: file request_id was reused" -/
  | idempotencyConflict
  | idempotencyCapacity
  | notFound (name : FileName)
  /-- "temporary upload is missing" -/
  | temporaryMissing
  | notRegularFile
  | preconditionRequired
  | invalidSha256
  /-- "version_conflict: base file hash does not match" -/
  | versionConflict
  | targetChanged
  | versionOverflow
  | versionInFlight
  | io (failed : FileIo)
  /-- "... failed and rollback also failed: ..." -/
  | rollbackFailed (site : RollbackSite) (error : RollbackError)
  deriving DecidableEq

abbrev FileReply := Except FileError FileStored

abbrev FileProgram := Program FileIo FileWorld FileReply

/-- The arguments of `commit_file_transaction`, with the backup name it draws
and the time of its event. -/
structure FileCommit where
  requestId : Uuid
  requestHash : String
  path : String
  temporaryPath : String
  digest : String
  expectedSha256 : Option String
  allowBlind : Bool
  backupPath : String
  unixMs : ℕ
  deriving DecidableEq

def u64Max : ℕ := 2 ^ 64 - 1

def validateFilePrecondition (current expected : Option String) (allowBlind : Bool) :
    Except FileError Unit :=
  match expected with
  | some expected =>
      if !validSha256 expected then .error .invalidSha256
      else if current ≠ some expected then .error .versionConflict
      else .ok ()
  | none => if current.isSome && !allowBlind then .error .preconditionRequired else .ok ()

def cachedFileResponse (t : FileTables) (requestId : Uuid) (requestHash : String) :
    Except FileError (Option FileStored) :=
  match t.fileRequests[requestId]? with
  | none => .ok none
  | some previous =>
      if previous.requestHash ≠ requestHash then .error .idempotencyConflict
      else .ok (some ⟨previous.path, previous.version, previous.sha256⟩)

section Programs

variable {α : Type}

/-- `clear_pending_file_mutation`; an intent that is not there is cleared. -/
def clearPendingFileMutation (ok : Program FileIo FileWorld α)
    (failed : FileIo → Program FileIo FileWorld α) : Program FileIo FileWorld α :=
  .read fun w =>
    if w.intent.now = none then ok
    else .act .removeIntent (.act .syncIntents ok (failed .syncIntents)) (failed .removeIntent)

def removeIfThere (name : FileName) (next failed : Program FileIo FileWorld α) :
    Program FileIo FileWorld α :=
  .read fun w => if w.files.get name = none then next else .act (.remove name) next failed

/-- The end of a rollback: the staged file goes, then the intent. -/
def rollbackFinish (ok : Program FileIo FileWorld α)
    (failed : RollbackError → Program FileIo FileWorld α) : Program FileIo FileWorld α :=
  removeIfThere .temporary
    (.act .syncDir (clearPendingFileMutation ok fun i => failed (.io i)) (failed (.io .syncDir)))
    (failed (.io (.remove .temporary)))

def rollbackRestore (backup : Bool) (ok : Program FileIo FileWorld α)
    (failed : RollbackError → Program FileIo FileWorld α) : Program FileIo FileWorld α :=
  .read fun w =>
    if backup ∧ w.files.backup ≠ none then
      .act (.rename .backup .target) (rollbackFinish ok failed)
        (failed (.io (.rename .backup .target)))
    else rollbackFinish ok failed

variable (sha256 : Bytes → String)

def rollbackFileTransaction (backup : Bool) (expectedDigest : String)
    (ok : Program FileIo FileWorld α) (failed : RollbackError → Program FileIo FileWorld α) :
    Program FileIo FileWorld α :=
  .read fun w =>
    match w.files.target with
    | none => rollbackRestore backup ok failed
    | some .other => failed .nonRegularTarget
    | some (.file bytes) =>
        if sha256 bytes ≠ expectedDigest then failed .targetChanged
        else
          .act (.remove .target) (rollbackRestore backup ok failed)
            (failed (.io (.remove .target)))

end Programs

section Commit

variable (sha256 : Bytes → String) (r : FileCommit)

/-- A transaction given up before the target was touched: errors of the cleanup
are ignored. -/
def discard (error : FileError) : FileProgram :=
  let remove := .act (.remove .temporary) (.ret (.error error)) (.ret (.error error))
  clearPendingFileMutation remove fun _ => remove

def rollback (pending : PendingFileMutation) (site : RollbackSite) (error : FileError) :
    FileProgram :=
  rollbackFileTransaction sha256 pending.backupPath.isSome r.digest (.ret (.error error))
    fun failure => .ret (.error (.rollbackFailed site failure))

def finishTransaction (pending : PendingFileMutation) : FileProgram :=
  let stored := .ret (.ok ⟨pending.path, pending.version, pending.sha256⟩)
  let clear := clearPendingFileMutation stored fun _ => stored
  if pending.backupPath.isSome then .act (.remove .backup) (.act .syncDir clear clear) clear
  else clear

def journalMutation (pending : PendingFileMutation) : FileProgram :=
  .read fun w =>
    if min (w.tables.version r.path + 1) u64Max ≠ pending.version then
      rollback sha256 r pending .append .versionInFlight
    else
      .act (.append r.unixMs r.requestId pending.record) (finishTransaction pending)
        (rollback sha256 r pending .append (.io (.append r.unixMs r.requestId pending.record)))

def installTemporary (pending : PendingFileMutation) : FileProgram :=
  .act (.rename .temporary .target)
    (.act .syncDir (journalMutation sha256 r pending)
      (rollback sha256 r pending .installSync (.io .syncDir)))
    (rollback sha256 r pending .install (.io (.rename .temporary .target)))

def moveTarget (pending : PendingFileMutation) : FileProgram :=
  if pending.backupPath.isSome then
    .act (.rename .target .backup)
      (.act .syncDir (installTemporary sha256 r pending)
        (rollback sha256 r pending .backupSync (.io .syncDir)))
      (discard (.io (.rename .target .backup)))
  else installTemporary sha256 r pending

def pendingOf (version : ℕ) (previous : Option String) : PendingFileMutation where
  requestId := r.requestId
  requestHash := r.requestHash
  path := r.path
  version := version
  sha256 := r.digest
  temporaryPath := r.temporaryPath
  backupPath := previous.map fun _ => r.backupPath
  previousSha256 := previous

/-- The part under the commit lock that writes the intent. `existing` says
whether the target was there when its digest was taken. -/
def prepareTransaction (existing : Bool) (previous : Option String) : FileProgram :=
  .read fun w =>
    if w.files.target = some .other then discard .notRegularFile
    else if w.files.target.isSome ≠ existing then discard .targetChanged
    else
      .act .permissions
        (if w.tables.version r.path + 1 > u64Max then discard .versionOverflow
        else
          let pending := pendingOf r (w.tables.version r.path + 1) previous
          .act (.publishIntent pending)
            (.act .syncIntents (moveTarget sha256 r pending) (discard (.io .syncIntents)))
            (discard (.io (.publishIntent pending))))
        (discard (.io .permissions))

def checkPrecondition (existing : Bool) (previous : Option String) : FileProgram :=
  match validateFilePrecondition previous r.expectedSha256 r.allowBlind with
  | .error error => .ret (.error error)
  | .ok () => prepareTransaction sha256 r existing previous

def checkTarget : FileProgram :=
  .read fun w =>
    match w.files.target with
    | some .other => .ret (.error .notRegularFile)
    | none => checkPrecondition sha256 r false none
    | some (.file bytes) =>
        if r.expectedSha256 = none then
          if !r.allowBlind then .ret (.error .preconditionRequired)
          else checkPrecondition sha256 r true none
        else
          .act .hashTarget (checkPrecondition sha256 r true (some (sha256 bytes)))
            (.ret (.error (.io .hashTarget)))

def commitFileTransaction : FileProgram :=
  .read fun w =>
    match cachedFileResponse w.tables r.requestId r.requestHash with
    | .error error => .ret (.error error)
    | .ok (some cached) => .act (.remove .temporary) (.ret (.ok cached)) (.ret (.ok cached))
    | .ok none =>
        .act .reserve
          (match w.files.temporary with
          | some (.file _) =>
              .act .createParent (checkTarget sha256 r) (.ret (.error (.io .createParent)))
          | some .other => .ret (.error .temporaryMissing)
          | none => .ret (.error (.notFound .temporary)))
          (.ret (.error .idempotencyCapacity))

end Commit

inductive RecoverError where
  | invalid
  | nonRegularTarget
  /-- "pending file mutation conflicts with its committed event" -/
  | conflictsWithEvent
  /-- "committed file mutation ... is missing or has an unexpected target hash" -/
  | committedTargetLost
  | staleVersion
  | unexpectedTargetState
  | corruptBackup
  /-- "... lost both target and backup" -/
  | lostTargetAndBackup
  | noRecoverableFile
  | io (failed : FileIo)
  deriving DecidableEq

abbrev RecoverProgram := Program FileIo FileWorld (Except RecoverError Unit)

/-- The checks on a decoded intent; `stem` is the name of its file. -/
def PendingFileMutation.valid (stem : Uuid) (p : PendingFileMutation) : Bool :=
  p.requestId == stem && validSha256 p.sha256 && p.path != "" && p.temporaryPath != "" &&
    p.requestHash != "" && p.previousSha256.all validSha256

section Recover

def clearIntent : RecoverProgram :=
  clearPendingFileMutation (.ret (.ok ())) fun i => .ret (.error (.io i))

/-- Remove the staged file if it is there, then the intent. -/
def dropTemporary : RecoverProgram :=
  .read fun w =>
    if Entry.isFile w.files.temporary then
      .act (.remove .temporary)
        (.act .syncDir clearIntent (.ret (.error (.io .syncDir))))
        (.ret (.error (.io (.remove .temporary))))
    else clearIntent

/-- `cleanup_pending_file_mutation`. -/
def cleanupPendingFileMutation (p : PendingFileMutation) : RecoverProgram :=
  .read fun w =>
    let changed := w.files.temporary ≠ none ∨ (p.backupPath.isSome ∧ w.files.backup ≠ none)
    let finish :=
      if changed then .act .syncDir clearIntent (.ret (.error (.io .syncDir))) else clearIntent
    let backup :=
      if p.backupPath.isSome then
        removeIfThere .backup finish (.ret (.error (.io (.remove .backup))))
      else finish
    removeIfThere .temporary backup (.ret (.error (.io (.remove .temporary))))

variable (sha256 : Bytes → String)

def recoverCommitted (p : PendingFileMutation) (previous : FileRequest) : RecoverProgram :=
  .read fun w =>
    if previous.requestHash ≠ p.requestHash ∨ previous.path ≠ p.path ∨
        previous.sha256 ≠ p.sha256 then .ret (.error .conflictsWithEvent)
    else if Entry.digest sha256 w.files.target ≠ some p.sha256 then
      .ret (.error .committedTargetLost)
    else cleanupPendingFileMutation p

/-- A target that holds the staged bytes: the event is written now. -/
def recoverInstalled (unixMs : ℕ) (p : PendingFileMutation) : RecoverProgram :=
  .read fun w =>
    if w.tables.version p.path ≥ p.version then .ret (.error .staleVersion)
    else
      let clear := .act (.remove .temporary) clearIntent clearIntent
      .act (.append unixMs p.requestId p.record)
        (if p.backupPath.isSome then .act (.remove .backup) clear clear else clear)
        (.ret (.error (.io (.append unixMs p.requestId p.record))))

def recoverMissing (p : PendingFileMutation) : RecoverProgram :=
  .read fun w =>
    match p.backupPath, w.files.backup with
    | some _, some (.file bytes) =>
        if some (sha256 bytes) ≠ p.previousSha256 then .ret (.error .corruptBackup)
        else
          .act (.rename .backup .target)
            (.act .syncDir dropTemporary (.ret (.error (.io .syncDir))))
            (.ret (.error (.io (.rename .backup .target))))
    | some _, some .other | some _, none =>
        if Entry.isFile w.files.temporary then dropTemporary
        else .ret (.error .lostTargetAndBackup)
    | none, _ =>
        if Entry.isFile w.files.temporary then dropTemporary
        else .ret (.error .noRecoverableFile)

/-- The body of the loop of `recover_pending_file_mutations`, for the intent
named `stem`. -/
def recoverPendingFileMutation (stem : Uuid) (unixMs : ℕ) : RecoverProgram :=
  .read fun w =>
    match w.intent.now with
    | none => .ret (.ok ())
    | some p =>
        if !p.valid stem then .ret (.error .invalid)
        else if w.files.target = some .other then .ret (.error .nonRegularTarget)
        else
          match w.tables.fileRequests[p.requestId]? with
          | some previous => recoverCommitted sha256 p previous
          | none =>
              if Entry.digest sha256 w.files.target = some p.sha256 then
                recoverInstalled unixMs p
              else if w.files.target ≠ none then
                if ¬(p.backupPath.isSome ∧ Entry.isFile w.files.backup) ∧
                    p.previousSha256 ≠ none ∧
                    Entry.digest sha256 w.files.target = p.previousSha256 then dropTemporary
                else .ret (.error .unexpectedTargetState)
              else recoverMissing sha256 p

end Recover

structure FileImage where
  files : Files
  intent : Option PendingFileMutation
  journal : List Event

def FileWorld.visible (w : FileWorld) : FileImage := ⟨w.dir.now, w.intent.now, w.journal.now⟩

/-- The image keeps whatever earlier processes did, and no record of a failed append. -/
def FileWorld.Recent (w : FileWorld) (image : FileImage) : Prop :=
  image.files ∈ w.dir.recent ∧ image.intent ∈ w.intent.recent ∧ image.journal = w.journal.now

/-- A call of `commit_file_transaction` and what it finds: the content of the
target, the staged bytes, the tables of the last snapshot and the events since. -/
structure FileScene where
  sha256 : Bytes → String
  call : FileCommit
  target : Option Entry
  staged : Bytes
  base : LoadedSession
  journal : List Event

def mutationsOf (requestId : Uuid) (journal : List Event) : ℕ :=
  journal.countP fun event =>
    match event.kind with
    | .fileMutation id _ _ _ _ => id == requestId
    | _ => false

namespace FileScene

variable (x : FileScene)

/-- The tables that opening a session with this journal restores. -/
def restored (journal : List Event) : FileTables :=
  .ofLoaded (journal.foldl (LoadedSession.push x.sha256) x.base)

/-- The state when the call begins: the staged file is complete, its directory
entry perhaps not yet on disk, and the request is new. -/
structure Starts (w : FileWorld) : Prop where
  files : ∀ f ∈ w.dir.recent, f.target = x.target ∧ f.backup = none ∧
    (f.temporary = none ∨ f.temporary = some (.file x.staged))
  staged : w.files.temporary = some (.file x.staged)
  intent : ∀ i ∈ w.intent.recent, i = none
  journal : w.journal.now = x.journal
  tables : w.tables = x.restored x.journal
  unused : x.base.fileRequests[x.call.requestId]? = none ∧
    mutationsOf x.call.requestId x.journal = 0
  digest : x.call.digest = x.sha256 x.staged
  named : x.call.path ≠ "" ∧ x.call.temporaryPath ≠ "" ∧ x.call.requestHash ≠ ""

/-- SHA-256 on the two contents: hexadecimal digests that tell them apart. -/
structure Hashes : Prop where
  staged : validSha256 (x.sha256 x.staged) = true
  target : ∀ bytes, x.target = some (.file bytes) → validSha256 (x.sha256 bytes) = true
  collision : ∀ bytes, x.target = some (.file bytes) → x.sha256 bytes = x.sha256 x.staged →
    bytes = x.staged

/-- The daemon after one that was killed: it reads the journal. -/
def killed (w : FileWorld) : FileWorld :=
  ⟨w.dir.kill, w.intent.kill, w.journal.kill, x.restored w.journal.now⟩

def rebooted (image : FileImage) : FileWorld :=
  ⟨.stable image.files, .stable image.intent, .stable image.journal, x.restored image.journal⟩

inductive Restart (allowed : FileWorld → FileImage → Prop) (w : FileWorld) : FileWorld → Prop
  | kill (hallowed : allowed w w.visible) : Restart allowed w (x.killed w)
  | powerLoss (image : FileImage) (hfiles : image.files ∈ w.dir.images)
      (hintent : image.intent ∈ w.intent.images) (hjournal : image.journal ∈ w.journal.images)
      (hallowed : allowed w image) : Restart allowed w (x.rebooted image)

def recovery (unixMs : ℕ) : RecoverProgram :=
  recoverPendingFileMutation x.sha256 x.call.requestId unixMs

/-- The states inside the call, and inside every recovery after it, with any
errors on the way. -/
inductive Reaches (allowed : FileWorld → FileImage → Prop) (w₀ : FileWorld) : FileWorld → Prop
  | call {w : FileWorld} {faults : List FileIo} {p : FileProgram}
      (hgets : fileMachine.Gets (commitFileTransaction x.sha256 x.call) w₀ faults p w) :
      Reaches allowed w₀ w
  | recovery {w w₁ w' : FileWorld} {unixMs : ℕ} {faults : List FileIo} {p : RecoverProgram}
      (hreach : Reaches allowed w₀ w) (hrestart : x.Restart allowed w w₁)
      (hgets : fileMachine.Gets (x.recovery unixMs) w₁ faults p w') : Reaches allowed w₀ w'

structure Unchanged (w : FileWorld) : Prop where
  target : w.files.target = x.target
  events : mutationsOf x.call.requestId w.journal.now = 0
  record : w.tables.fileRequests[x.call.requestId]? = none

structure Stored (w : FileWorld) : Prop where
  target : w.files.target = some (.file x.staged)
  events : mutationsOf x.call.requestId w.journal.now = 1
  record : ∃ record : FileRequest, w.tables.fileRequests[x.call.requestId]? = some record ∧
    (∃ e ∈ w.journal.now, e.kind = mutationKind x.call.requestId record) ∧
    record.requestHash = x.call.requestHash ∧ record.path = x.call.path ∧
    record.sha256 = x.call.digest

end FileScene

end Asp
