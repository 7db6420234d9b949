import Asp.Lib.MaxMap
import Asp.Spec.Journal

/-! The workspace that sessions share: one version clock for all its files, and
the events in which each session records versions. `append_locked` raises the
clock, `record_workspace_file_events` fans an external change out, and at startup
`Session::from_loaded` merges what every session has. -/

namespace Asp

open Std

def pathMaxBytes : ℕ := 4 * 1024

/-- The components of a path below the root. Two `PathBuf`s are equal when their
components are. -/
abbrev PathKey := List String

/-- `Path::components`, without the current directory. -/
def pathComponents (relative : String) : PathKey :=
  ((relative.toList.splitOn '/').map String.ofList).filter fun component =>
    component ≠ "" ∧ component ≠ "."

/-- Neither empty nor absolute, and no component leads out of the workspace or to the
state of the daemon. -/
def insideWorkspace (relative : String) : Bool :=
  relative ≠ "" && relative.toList.head? ≠ some '/' &&
    (pathComponents relative).all fun component => component ≠ ".." && component ≠ ".asp"

/-- The check of `from_loaded`. -/
def loadedPath (relative : String) : Option PathKey :=
  if insideWorkspace relative then some (pathComponents relative) else none

def workspaceEventPath (relative : String) : Option PathKey :=
  if relative.utf8ByteSize > pathMaxBytes then none else loadedPath relative

inductive WorkspaceFileObservation where
  | file (bytes : ℕ) (modified : Option ℕ) (digest : Option String)
  | missing
  deriving DecidableEq

namespace WorkspaceFileObservation

def metadataEq : WorkspaceFileObservation → WorkspaceFileObservation → Bool
  | .file leftBytes leftModified _, .file rightBytes rightModified _ =>
      leftBytes = rightBytes && leftModified = rightModified
  | .missing, .missing => true
  | _, _ => false

/-- Whether an observation is news beside the one that is remembered. -/
def changedFrom (observation : WorkspaceFileObservation) :
    Option WorkspaceFileObservation → Bool
  | none => true
  | some previous =>
      if !previous.metadataEq observation then true
      else
        match previous, observation with
        | .file _ _ (some previousDigest), .file _ _ (some digest) => previousDigest ≠ digest
        | .file _ _ (some _), _ => true
        | _, _ => false

end WorkspaceFileObservation

def workspaceFileEventObservationLimit : ℕ := 4096

/-- The path and version that an event records. -/
def EventKind.fileVersion : EventKind → Option (String × ℕ)
  | .fileChanged path version | .fileMutation _ _ path version _ => some (path, version)
  | _ => none

def Journal.hasFileChangedEvent (j : Journal) (path : String) (version : ℕ) : Bool :=
  j.events.any fun event => event.kind = .fileChanged path version

/-- A session: the versions in its snapshot, the events of its log since then, and
the journal that it keeps in memory. -/
structure WorkspaceSession where
  snapshot : ExtTreeMap String ℕ
  throughEventId : ℕ
  log : List Event
  journal : Journal
  deriving DecidableEq

def WorkspaceSession.append (session : WorkspaceSession) (unixMs : ℕ) (kind : EventKind) :
    WorkspaceSession :=
  let (journal, event) := session.journal.append unixMs kind
  { session with
    log := session.log ++ [event]
    journal := journal.enforceBounds }

structure Workspace where
  sessions : ExtTreeMap Uuid WorkspaceSession
  versions : ExtTreeMap PathKey ℕ
  observations : ExtTreeMap PathKey WorkspaceFileObservation
  /-- Every version that an event ever recorded. -/
  recorded : List (PathKey × ℕ)
  deriving DecidableEq

section Workspace

variable (sha256 : Bytes → String)

/-- What opening the session's directory replays. -/
def WorkspaceSession.loaded (session : WorkspaceSession) : LoadedSession :=
  session.log.foldl (LoadedSession.push sha256)
    { nextId := session.throughEventId, fileVersions := session.snapshot }

def WorkspaceSession.table (session : WorkspaceSession) : ExtTreeMap String ℕ :=
  (session.loaded sha256).fileVersions

namespace Workspace

/-- `append_locked` of one session, once the disk has taken the event. -/
def appendLocked (w : Workspace) (id : Uuid) (unixMs : ℕ) (kind : EventKind) : Workspace :=
  match w.sessions[id]? with
  | none => w
  | some session =>
      let file := kind.fileVersion.bind fun entry =>
        (workspaceEventPath entry.1).map fun key => (key, entry.2)
      { w with
        sessions := w.sessions.insert id (session.append unixMs kind)
        versions := file.elim w.versions fun entry => MaxMap.raise w.versions entry.1 entry.2
        recorded := w.recorded ++ file.toList }

/-- `remember_workspace_file_observation`; `victim` is the key that a full cache drops. -/
def remember (w : Workspace) (key : PathKey) (observation : WorkspaceFileObservation)
    (victim : PathKey) : Workspace :=
  let kept :=
    if w.observations.size ≥ workspaceFileEventObservationLimit ∧ key ∉ w.observations then
      w.observations.erase victim
    else w.observations
  { w with observations := kept.insert key observation }

/-- The journal part of a file mutation, of a request or of one that startup recovers. -/
def mutate (w : Workspace) (id : Uuid) (unixMs : ℕ) (requestId : Uuid)
    (requestHash path : String) (version : ℕ) (digest : String) : Option Workspace :=
  match workspaceEventPath path with
  | none => none
  | some key =>
      if id ∈ w.sessions ∧ MaxMap.value w.versions key < version ∧ version ≤ usizeMax then
        let w := w.appendLocked id unixMs (.fileMutation requestId requestHash path version digest)
        some { w with versions := w.versions.insert key version }
      else none

/-- A session that a change is offered to, and whether its log takes the event. -/
structure Delivery where
  id : Uuid
  unixMs : ℕ
  accepted : Bool
  deriving DecidableEq

/-- The loop over the sessions; it ends at the first one that fails. -/
def fanOut (relative : String) (version : ℕ) : List Delivery → Workspace → Workspace × Bool
  | [], w => (w, true)
  | delivery :: rest, w =>
      let delivered := (w.sessions[delivery.id]?).any fun session =>
        session.journal.hasFileChangedEvent relative version
      if delivered then fanOut relative version rest w
      else if delivery.accepted then
        fanOut relative version rest
          (w.appendLocked delivery.id delivery.unixMs (.fileChanged relative version))
      else (w, false)

/-- Fan the change out, and remember it once every session has it. -/
def deliver (w : Workspace) (key : PathKey) (relative : String) (version : ℕ)
    (observation : WorkspaceFileObservation) (victim : PathKey) (order : List Delivery) :
    Workspace :=
  let (w, ok) := fanOut relative version order w
  if ok then w.remember key observation victim else w

/-- The sessions that still have the event of this version in memory. -/
def deliveredCount (w : Workspace) (relative : String) (version : ℕ) : ℕ :=
  w.sessions.toList.countP fun entry => entry.2.journal.hasFileChangedEvent relative version

def partiallyDelivered (w : Workspace) (relative : String) (version : ℕ) : Bool :=
  let deliveredCount := if version > 0 then w.deliveredCount relative version else 0
  deliveredCount > 0 && deliveredCount < w.sessions.size

/-- `record_workspace_file_events` for one path, with the sessions in some order. -/
def recordFileEvent (w : Workspace) (relative : String) (observation : WorkspaceFileObservation)
    (victim : PathKey) (order : List Delivery) : Option Workspace :=
  match workspaceEventPath relative with
  | none => none
  | some key =>
      if (order.map Delivery.id).Perm w.sessions.keys then
        if !observation.changedFrom w.observations[key]? then some w
        else
          let current := MaxMap.value w.versions key
          if w.partiallyDelivered relative current then
            some (w.deliver key relative current observation victim order)
          else if current + 1 > usizeMax then some w
          else
            let w := { w with versions := w.versions.insert key (current + 1) }
            some (w.deliver key relative (current + 1) observation victim order)
      else none

def spelledVersions (versions : ExtTreeMap PathKey ℕ) (spelling : PathKey → String) :
    ExtTreeMap String ℕ :=
  ExtTreeMap.ofList (versions.toList.map fun entry => (spelling entry.1, entry.2)) compare

/-- `compact_if_needed`: the snapshot has the shared clock, each path in some spelling. -/
def compact (w : Workspace) (id : Uuid) (spelling : PathKey → String) : Option Workspace :=
  match w.sessions[id]? with
  | none => none
  | some session =>
      if w.versions.toList.all fun entry => loadedPath (spelling entry.1) = some entry.1 then
        let compacted : WorkspaceSession :=
          { snapshot := spelledVersions w.versions spelling
            throughEventId := session.journal.nextId
            log := []
            journal := session.journal.cleared }
        some { w with sessions := w.sessions.insert id compacted }
      else none

/-- `from_loaded`: the paths of one session, in the order in which its map yields them,
and then into the clock. -/
def mergeLoaded (versions : ExtTreeMap PathKey ℕ) (entries : List (String × ℕ)) :
    ExtTreeMap PathKey ℕ :=
  MaxMap.raiseAll versions (MaxMap.collect (entries.filterMap fun entry =>
    (loadedPath entry.1).map fun key => (key, entry.2))).toList

/-- A restart of the daemon that opens the sessions, and reads their tables, in this order. -/
def restart (w : Workspace) (order : List (Uuid × List (String × ℕ))) : Option Workspace :=
  if (order.map Prod.fst).Perm w.sessions.keys ∧
      ∀ entry ∈ order, ∀ session ∈ w.sessions[entry.1]?,
        entry.2.Perm (session.table sha256).toList then
    some { w with
      sessions := w.sessions.map fun _ session =>
        { session with journal := Journal.fromLoaded (session.loaded sha256) }
      versions := order.foldl (fun versions entry => mergeLoaded versions entry.2) ∅
      observations := ∅ }
  else none

end Workspace

inductive WorkspaceAction where
  | openSession (id : Uuid) (unixMs : ℕ)
  /-- An event that is about no file. -/
  | append (id : Uuid) (unixMs : ℕ) (kind : EventKind)
  | mutate (id : Uuid) (unixMs : ℕ) (requestId : Uuid) (requestHash path : String) (version : ℕ)
      (digest : String)
  /-- `note_workspace_mutation`. -/
  | note (path : String) (observation : WorkspaceFileObservation) (victim : PathKey)
  | observe (relative : String) (observation : WorkspaceFileObservation) (victim : PathKey)
      (order : List Workspace.Delivery)
  | compact (id : Uuid) (spelling : PathKey → String)
  | delete (id : Uuid)
  | restart (order : List (Uuid × List (String × ℕ)))

def workspaceMachine : Steps.Machine WorkspaceAction Workspace where
  act action w :=
    match action with
    | .openSession id unixMs =>
        if id ∈ w.sessions then none
        else
          let w := { w with sessions := w.sessions.insert id ⟨∅, 0, [], ⟨[], 0, 0, none⟩⟩ }
          some (w.appendLocked id unixMs .sessionCreated)
    | .append id unixMs kind =>
        if kind.fileVersion = none then some (w.appendLocked id unixMs kind) else none
    | .mutate id unixMs requestId requestHash path version digest =>
        w.mutate id unixMs requestId requestHash path version digest
    | .note path observation victim =>
        (workspaceEventPath path).map fun key => w.remember key observation victim
    | .observe relative observation victim order =>
        w.recordFileEvent relative observation victim order
    | .compact id spelling => w.compact id spelling
    | .delete id => some { w with sessions := w.sessions.erase id }
    | .restart order => w.restart sha256 order
  fault _ _ := []

def Workspace.initial : Workspace := ⟨∅, ∅, ∅, []⟩

def HasVersion (table : ExtTreeMap String ℕ) (key : PathKey) (version : ℕ) : Prop :=
  ∃ path, table[path]? = some version ∧ loadedPath path = some key

/-- Every path that the table has for the file is spelled like this. -/
def SpelledAs (table : ExtTreeMap String ℕ) (path : String) : Prop :=
  ∀ path' ∈ table, loadedPath path' = loadedPath path → path' = path

/-- A session has one spelling for a file, and a session is deleted only when another one
has each file at least at its version. -/
def KeepsVersions (w : Workspace) : WorkspaceAction → Prop
  | .mutate id _ _ _ path _ _ =>
      ∀ session, w.sessions[id]? = some session → SpelledAs (session.table sha256) path
  | .observe relative _ _ _ =>
      ∀ (id : Uuid) session, w.sessions[id]? = some session →
        SpelledAs (session.table sha256) relative
  | .delete id =>
      ∀ session, w.sessions[id]? = some session →
        ∀ key version, HasVersion (session.table sha256) key version →
          ∃ (id' : Uuid) (session' : WorkspaceSession) (version' : ℕ), id' ≠ id ∧
            w.sessions[id']? = some session' ∧
            HasVersion (session'.table sha256) key version' ∧ version ≤ version'
  | _ => True

end Workspace

end Asp
