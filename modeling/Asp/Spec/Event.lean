import Asp.Spec.Basic

/-! Session events and the tables replayed from them: `EventKind`, the record
types, `LoadedSession::apply` and `push`, and `from_snapshot`. Hash maps are
finite maps; identifiers of 64 and 128 bits are natural numbers. -/

namespace Asp

open Std

inductive OutputStream where
  | stdout
  | stderr
  deriving DecidableEq

inductive EventKind where
  | sessionCreated
  | processStarted (processId : Uuid) (command : String) (pid : Option ℕ) (requestId : Option Uuid)
  | processOutput (processId : Uuid) (stream : OutputStream) (offset : ℕ) (data : List UInt8)
  | processExited (processId : Uuid) (code : Option ℤ)
  | ptyStarted
  | ptyStateAdvanced (generation : ℕ)
  | fileChanged (path : String) (version : ℕ)
  | fileMutation (requestId : Uuid) (requestHash path : String) (version : ℕ) (sha256 : String)
  | signalApplied (requestId : Uuid) (requestHash : String) (processId : Uuid) (signal : ℤ)
      (success : Bool) (message : Option String)
  | artifactCreated (requestId : Uuid) (requestHash artifactId : String) (totalSize : ℕ)
      (name : Option String)
  | artifactDeleted (artifactId : String) (totalSize : ℕ)
  deriving DecidableEq

structure Event where
  id : ℕ
  unixMs : ℕ
  kind : EventKind
  deriving DecidableEq

structure ProcessRecord where
  command : String
  running : Bool
  exitCode : Option ℤ
  exitUnixMs : Option ℕ
  pid : Option ℕ
  pidStartTime : Option ℕ
  stdoutBytes : ℕ
  stderrBytes : ℕ
  deriving DecidableEq

structure ProcessRequest where
  command : String
  commandHash : Option String
  processId : Uuid
  startedEventId : ℕ
  deriving DecidableEq

structure FileRequest where
  requestHash : String
  path : String
  version : ℕ
  sha256 : String
  deriving DecidableEq

structure SignalRequest where
  requestHash : String
  processId : Uuid
  signal : ℤ
  success : Bool
  message : Option String
  deriving DecidableEq

structure ArtifactRequest where
  requestHash : String
  artifactId : String
  totalSize : ℕ
  name : Option String
  eventId : ℕ
  deriving DecidableEq

structure ArtifactRecord where
  artifactId : String
  totalSize : ℕ
  name : Option String
  createdEventId : ℕ
  createdUnixMs : ℕ
  deriving DecidableEq

structure EventConsumer where
  acknowledgedEventId : ℕ
  lastSeenUnixMs : ℕ
  deriving DecidableEq

structure SessionSnapshotData where
  sessionId : Uuid
  throughEventId : ℕ
  oldestEventUnixMs : Option ℕ
  processes : ExtTreeMap Uuid ProcessRecord
  processRequests : ExtTreeMap Uuid ProcessRequest
  fileVersions : ExtTreeMap String ℕ
  fileRequests : ExtTreeMap Uuid FileRequest
  signalRequests : ExtTreeMap Uuid SignalRequest
  artifactRequests : ExtTreeMap Uuid ArtifactRequest
  artifacts : ExtTreeMap String ArtifactRecord
  ptyStarted : Bool
  ptyGeneration : ℕ
  deriving DecidableEq

structure LoadedSession where
  events : List Event := []
  approxBytes : ℕ := 0
  nextId : ℕ := 0
  oldestEventUnixMs : Option ℕ := none
  processes : ExtTreeMap Uuid ProcessRecord := ∅
  processRequests : ExtTreeMap Uuid ProcessRequest := ∅
  fileVersions : ExtTreeMap String ℕ := ∅
  fileRequests : ExtTreeMap Uuid FileRequest := ∅
  signalRequests : ExtTreeMap Uuid SignalRequest := ∅
  artifactRequests : ExtTreeMap Uuid ArtifactRequest := ∅
  artifacts : ExtTreeMap String ArtifactRecord := ∅
  ptyStarted : Bool := false
  ptyGeneration : ℕ := 0
  runningProcesses : ℕ := 0
  eventConsumers : ExtTreeMap String EventConsumer := ∅
  deriving DecidableEq, Inhabited

def maxIdempotencyRecordsPerSession : ℕ := 65536
def commandMaxBytes : ℕ := 64 * 1024
def journalMaxEvents : ℕ := 20000
def journalMaxBytes : ℕ := 64 * 1024 * 1024

def eventApproxBytes (event : Event) : ℕ :=
  128 + match event.kind with
    | .sessionCreated | .ptyStarted | .ptyStateAdvanced _ => 0
    | .processStarted _ command _ _ => command.utf8ByteSize
    | .processOutput _ _ _ data => data.length
    | .processExited _ _ => 0
    | .fileChanged path _ => path.utf8ByteSize
    | .fileMutation _ requestHash path _ sha256 =>
        requestHash.utf8ByteSize + path.utf8ByteSize + sha256.utf8ByteSize
    | .signalApplied _ requestHash _ _ _ message =>
        requestHash.utf8ByteSize + message.elim 0 String.utf8ByteSize
    | .artifactCreated _ requestHash artifactId _ name =>
        requestHash.utf8ByteSize + artifactId.utf8ByteSize + name.elim 0 String.utf8ByteSize
    | .artifactDeleted artifactId _ => artifactId.utf8ByteSize

namespace LoadedSession

def addOutput (stream : OutputStream) (bytes : ℕ) (record : ProcessRecord) : ProcessRecord :=
  match stream with
  | .stdout => { record with stdoutBytes := record.stdoutBytes + bytes }
  | .stderr => { record with stderrBytes := record.stderrBytes + bytes }

/-- `apply`: one event's effect on the tables. -/
def apply (sha256 : Bytes → String) (s : LoadedSession) (event : Event) : LoadedSession :=
  match event.kind with
  | .processStarted processId command pid requestId =>
      let record : ProcessRecord :=
        ⟨command, true, none, none, pid, none, 0, 0⟩
      { s with
        processes := s.processes.insert processId record
        runningProcesses :=
          if processId ∈ s.processes then s.runningProcesses else s.runningProcesses + 1
        processRequests :=
          match requestId with
          | none => s.processRequests
          | some requestId => s.processRequests.insert requestId
              ⟨command, some (sha256 (asBytes command)), processId, event.id⟩ }
  | .processOutput processId stream _ data =>
      { s with processes := s.processes.modify processId (addOutput stream data.length) }
  | .processExited processId code =>
      { s with
        processes := s.processes.modify processId fun record =>
          { record with running := false, exitCode := code, exitUnixMs := some event.unixMs }
        runningProcesses :=
          if (s.processes[processId]?).any (·.running) then s.runningProcesses - 1
          else s.runningProcesses }
  | .fileChanged path version => { s with fileVersions := s.fileVersions.insert path version }
  | .fileMutation requestId requestHash path version digest =>
      { s with
        fileVersions := s.fileVersions.insert path version
        fileRequests := s.fileRequests.insert requestId ⟨requestHash, path, version, digest⟩ }
  | .signalApplied requestId requestHash processId signal success message =>
      { s with signalRequests :=
          s.signalRequests.insert requestId ⟨requestHash, processId, signal, success, message⟩ }
  | .artifactCreated requestId requestHash artifactId totalSize name =>
      { s with
        artifactRequests := s.artifactRequests.insert requestId
          ⟨requestHash, artifactId, totalSize, name, event.id⟩
        artifacts := s.artifacts.insert artifactId
          ⟨artifactId, totalSize, name, event.id, event.unixMs⟩ }
  | .artifactDeleted artifactId _ =>
      { s with
        artifacts := s.artifacts.erase artifactId
        artifactRequests := s.artifactRequests.filter fun _ request =>
          request.artifactId != artifactId }
  | .ptyStarted => { s with ptyStarted := true }
  | .ptyStateAdvanced generation => { s with ptyGeneration := max s.ptyGeneration generation }
  | .sessionCreated => s

/-- The `while` loop of `push`: drop from the front until the window is within its bounds. -/
def evict : List Event → ℕ → List Event × ℕ
  | [], approxBytes => ([], approxBytes)
  | old :: events, approxBytes =>
      if events.length + 1 > journalMaxEvents ∨ approxBytes > journalMaxBytes then
        evict events (approxBytes - eventApproxBytes old)
      else (old :: events, approxBytes)

def push (sha256 : Bytes → String) (s : LoadedSession) (event : Event) : LoadedSession :=
  let s := { s with nextId := max s.nextId event.id }
  let s := apply sha256 s event
  let window := evict (s.events ++ [event]) (s.approxBytes + eventApproxBytes event)
  { s with
    events := window.1
    approxBytes := window.2
    oldestEventUnixMs := window.1.head?.map Event.unixMs }

/-- Snapshots of older daemons carry no command hash. -/
def normalizeRequest (sha256 : Bytes → String) (request : ProcessRequest) :
    ProcessRequest :=
  { request with
    commandHash := some (request.commandHash.getD (sha256 (asBytes request.command))) }

def fromSnapshot (sha256 : Bytes → String) (snapshot : SessionSnapshotData) :
    LoadedSession where
  nextId := snapshot.throughEventId
  oldestEventUnixMs := snapshot.oldestEventUnixMs
  processes := snapshot.processes
  processRequests := snapshot.processRequests.map fun _ => normalizeRequest sha256
  fileVersions := snapshot.fileVersions
  fileRequests := snapshot.fileRequests
  signalRequests := snapshot.signalRequests
  artifactRequests := snapshot.artifactRequests
  artifacts := snapshot.artifacts
  ptyStarted := snapshot.ptyStarted
  ptyGeneration := snapshot.ptyGeneration
  runningProcesses := snapshot.processes.toList.countP fun entry => entry.2.running

/-- `snapshot_data_filtered` over these tables, as `compact_if_needed` stores it:
pruned processes are left out, and their requests keep the hash of the command. -/
def snapshotData (sha256 : Bytes → String) (sessionId : Uuid) (pruned : Uuid → Bool)
    (s : LoadedSession) : SessionSnapshotData where
  sessionId := sessionId
  throughEventId := s.nextId
  oldestEventUnixMs := none
  processes := s.processes.filter fun processId _ => !pruned processId
  processRequests := s.processRequests.map fun _ request =>
    let request := normalizeRequest sha256 request
    if pruned request.processId then { request with command := "" } else request
  fileVersions := s.fileVersions
  fileRequests := s.fileRequests
  signalRequests := s.signalRequests
  artifactRequests := s.artifactRequests
  artifacts := s.artifacts
  ptyStarted := s.ptyStarted
  ptyGeneration := s.ptyGeneration

@[simp] theorem apply_nextId (sha256 : Bytes → String) (s : LoadedSession) (event : Event) :
    (apply sha256 s event).nextId = s.nextId := by
  unfold apply
  split <;> rfl

@[simp] theorem push_nextId (sha256 : Bytes → String) (s : LoadedSession) (event : Event) :
    (push sha256 s event).nextId = max s.nextId event.id := by
  simp [push]

end LoadedSession

end Asp
