import Asp.Lib.Lookup
import Asp.Lib.Steps
import Asp.Spec.Event

/-! The artifacts of one session under `artifact_mutations`: `commit_artifact`,
`prune_artifacts` and `prune_orphan_artifacts`, cut at every operation that can
fail or after which the daemon can stop. Of a file they read the length and the
digest, so that is what a file is here. A payload comes from an upload or is a
link to an object of another session; any payload may arrive. -/

namespace Asp

open Std

def artifactMaxBytesPerSession : ℕ := 8 * 1024 * 1024 * 1024

/-- What `symlink_metadata` and `sha256_file` say of a file. -/
structure FileInfo where
  size : ℕ
  digest : String
  deriving DecidableEq

/-- The arguments of `commit_artifact`, with the file at `temporary`. -/
structure ArtifactCommit where
  requestId : Uuid
  requestHash : String
  artifactId : String
  totalSize : ℕ
  name : Option String
  payload : Option FileInfo
  digest : String
  deriving DecidableEq

def artifactBytes (artifacts : ExtTreeMap String ArtifactRecord) : ℕ :=
  artifacts.toList.foldl (fun total entry => saturatingAdd total entry.2.totalSize) 0

inductive InstallDecision where
  | refuse (message : String)
  /-- The artifact is recorded already. -/
  | stored (record : ArtifactRecord)
  /-- The object is there, without a record. -/
  | adopt
  | install (payload : FileInfo)
  deriving DecidableEq

/-- The `match` of `commit_artifact` on the metadata of the object. -/
def decideInstall (artifacts : ExtTreeMap String ArtifactRecord) (object : Option FileInfo)
    (commit : ArtifactCommit) : InstallDecision :=
  let existing := artifacts[commit.artifactId]?
  match object with
  | some file =>
      if file.size ≠ commit.totalSize then
        .refuse "artifact object size conflicts with its content address"
      else if file.digest ≠ commit.digest then
        .refuse "artifact object hash conflicts with its content address"
      else existing.elim .adopt .stored
  | none =>
      match commit.payload with
      | none => .refuse "No such file or directory (os error 2)"
      | some payload =>
          if payload.size ≠ commit.totalSize then .refuse "artifact upload staging is incomplete"
          else if existing.isNone ∧
              saturatingAdd (artifactBytes artifacts) commit.totalSize >
                artifactMaxBytesPerSession then
            .refuse "artifact_quota: session artifact storage limit exceeded"
          else .install payload

/-- What the holder of `artifact_mutations` does next. -/
inductive ArtifactTask where
  | install (commit : ArtifactCommit)
  | append (commit : ArtifactCommit) (installed : Bool) (storedName : Option String)
  /-- The append failed: the installed object goes. -/
  | uninstall (commit : ArtifactCommit)
  | recordRequest (commit : ArtifactCommit) (event : Event) (storedName : Option String)
  | recordArtifact (commit : ArtifactCommit) (event : Event) (storedName : Option String)
  | tombstone (record : ArtifactRecord)
  | forgetArtifact (record : ArtifactRecord)
  | forgetRequests (record : ArtifactRecord)
  | unlink (record : ArtifactRecord)
  deriving DecidableEq

structure ArtifactTables where
  journal : List Event
  artifactRequests : ExtTreeMap Uuid ArtifactRequest
  artifacts : ExtTreeMap String ArtifactRecord
  /-- The files of the artifact directory. -/
  objects : ExtTreeMap String FileInfo
  task : Option ArtifactTask

inductive QuotaAction where
  /-- `commit_artifact` gets the lock. -/
  | commit (commit : ArtifactCommit)
  /-- `prune_artifacts` looks at one record; `reading` says that it has a reader. -/
  | prune (artifactId : String) (cutoff : ℕ) (reading : Bool)
  /-- `prune_orphan_artifacts` removes an old file. -/
  | sweep (artifactId : String)
  | proceed
  /-- The journal takes the event of the task, with this id and time. -/
  | stamp (eventId unixMs : ℕ)
  /-- The next operation reports an error; `done` says that the rename before it was made. -/
  | fail (done : Bool)
  | crash
  deriving DecidableEq

def ArtifactCommit.created (commit : ArtifactCommit) (eventId unixMs : ℕ)
    (storedName : Option String) : Event :=
  ⟨eventId, unixMs, .artifactCreated commit.requestId commit.requestHash commit.artifactId
    commit.totalSize storedName⟩

def ArtifactCommit.record (commit : ArtifactCommit) (event : Event) (storedName : Option String) :
    ArtifactRecord :=
  ⟨commit.artifactId, commit.totalSize, storedName, event.id, event.unixMs⟩

namespace ArtifactTables

def goto (st : ArtifactTables) (task : ArtifactTask) : ArtifactTables := { st with task := some task }

def release (st : ArtifactTables) : ArtifactTables := { st with task := none }

def storedName (st : ArtifactTables) (commit : ArtifactCommit) : Option String :=
  (st.artifacts[commit.artifactId]?.bind ArtifactRecord.name).or commit.name

/-- A request that is recorded already is answered or refused. -/
def begin (st : ArtifactTables) (commit : ArtifactCommit) : ArtifactTables :=
  match st.artifactRequests[commit.requestId]? with
  | some _ => st
  | none => st.goto (.install commit)

def install (st : ArtifactTables) (commit : ArtifactCommit) : ArtifactTables :=
  match decideInstall st.artifacts st.objects[commit.artifactId]? commit with
  | .refuse _ | .stored _ => st.release
  | .adopt => st.goto (.append commit false (st.storedName commit))
  | .install payload =>
      { st with objects := st.objects.insert commit.artifactId payload }.goto
        (.append commit true (st.storedName commit))

/-- The rename or the sync of the directory fails. -/
def installFailed (st : ArtifactTables) (commit : ArtifactCommit) (renamed : Bool) :
    ArtifactTables :=
  match decideInstall st.artifacts st.objects[commit.artifactId]? commit with
  | .refuse _ | .stored _ | .adopt => st.release
  | .install payload =>
      if renamed then { st with objects := st.objects.insert commit.artifactId payload }.release
      else st.release

/-- A record that is old enough and not being read, unless its object has another length. -/
def candidate (st : ArtifactTables) (record : ArtifactRecord) (cutoff : ℕ) (reading : Bool) : Bool :=
  decide (record.createdUnixMs ≠ 0) && decide (record.createdUnixMs ≤ cutoff) && !reading &&
    st.objects[record.artifactId]?.all fun file => decide (file.size = record.totalSize)

def prune (st : ArtifactTables) (artifactId : String) (cutoff : ℕ) (reading : Bool) :
    ArtifactTables :=
  match st.artifacts[artifactId]? with
  | none => st
  | some record => if st.candidate record cutoff reading then st.goto (.tombstone record) else st

def sweep (st : ArtifactTables) (artifactId : String) : ArtifactTables :=
  if st.artifacts[artifactId]?.isSome then st
  else { st with objects := st.objects.erase artifactId }

/-- The next operation of the task succeeds; appends are `stamp`. -/
def proceed (st : ArtifactTables) : ArtifactTask → Option ArtifactTables
  | .install commit => some (st.install commit)
  | .append .. | .tombstone _ => none
  | .uninstall commit => some { st with objects := st.objects.erase commit.artifactId }.release
  | .recordRequest commit event storedName =>
      some ({ st with
        artifactRequests := st.artifactRequests.insert commit.requestId
          ⟨commit.requestHash, commit.artifactId, commit.totalSize, storedName, event.id⟩ }.goto
        (.recordArtifact commit event storedName))
  | .recordArtifact commit event storedName =>
      some { st with
        artifacts := st.artifacts.insert commit.artifactId (commit.record event storedName) }.release
  | .forgetArtifact record =>
      some ({ st with artifacts := st.artifacts.erase record.artifactId }.goto
        (.forgetRequests record))
  | .forgetRequests record =>
      some ({ st with
        artifactRequests := Lookup.select (fun _ request =>
          Option.guard (fun request => request.artifactId != record.artifactId) request)
          st.artifactRequests }.goto (.unlink record))
  | .unlink record => some { st with objects := st.objects.erase record.artifactId }.release

def stamp (st : ArtifactTables) (eventId unixMs : ℕ) : ArtifactTask → Option ArtifactTables
  | .append commit _ storedName =>
      let event := commit.created eventId unixMs storedName
      some ({ st with journal := st.journal ++ [event] }.goto
        (.recordRequest commit event storedName))
  | .tombstone record =>
      let event : Event := ⟨eventId, unixMs, .artifactDeleted record.artifactId record.totalSize⟩
      some ({ st with journal := st.journal ++ [event] }.goto (.forgetArtifact record))
  | _ => none

def fail (st : ArtifactTables) (done : Bool) : ArtifactTask → Option ArtifactTables
  | .install commit => some (st.installFailed commit done)
  | .append commit installed _ =>
      if installed then some (st.goto (.uninstall commit)) else some st.release
  | .uninstall _ | .tombstone _ | .unlink _ => some st.release
  | .recordRequest .. | .recordArtifact .. | .forgetArtifact _ | .forgetRequests _ => none

/-- The daemon stops and is started again: the tables are replayed from the journal. -/
def restart (sha256 : Bytes → String) (st : ArtifactTables) : ArtifactTables :=
  let loaded := st.journal.foldl (LoadedSession.apply sha256) {}
  { st with
    artifactRequests := loaded.artifactRequests
    artifacts := loaded.artifacts
    task := none }

def initial : ArtifactTables := ⟨[], ∅, ∅, ∅, none⟩

end ArtifactTables

def quotaMachine (sha256 : Bytes → String) : Steps.Machine QuotaAction ArtifactTables where
  act action st :=
    match action with
    | .commit commit => if st.task = none then some (st.begin commit) else none
    | .prune artifactId cutoff reading =>
        if st.task = none then some (st.prune artifactId cutoff reading) else none
    | .sweep artifactId => if st.task = none then some (st.sweep artifactId) else none
    | .proceed => st.task.bind st.proceed
    | .stamp eventId unixMs => st.task.bind (st.stamp eventId unixMs)
    | .fail done => st.task.bind (st.fail done)
    | .crash => some (st.restart sha256)
  fault _ _ := []

/-- A commit that adopts an object without a record finds room for it. -/
def AdoptsWithin (st : ArtifactTables) : QuotaAction → Prop
  | .proceed =>
      ∀ commit, st.task = some (.install commit) →
        decideInstall st.artifacts st.objects[commit.artifactId]? commit = .adopt →
          artifactBytes st.artifacts + commit.totalSize ≤ artifactMaxBytesPerSession
  | _ => True

end Asp
