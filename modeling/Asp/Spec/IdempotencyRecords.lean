import Asp.Lib.Steps
import Asp.Spec.Event

/-! The counter of a session's request records: `reserve_idempotency_record`, the reservations of
requests in flight, the four request tables, `prune_artifacts` and startup. -/

namespace Asp

open Std

inductive RequestKind
  | process
  | file
  | signal
  | artifact
  deriving DecidableEq

/-- What serialises the check for a request id and the record that follows it. -/
inductive RequestLock
  | processRequests
  | fileMutations
  | artifactMutations
  deriving DecidableEq

def RequestKind.lock : RequestKind → RequestLock
  | .process => .processRequests
  | .file | .signal => .fileMutations
  | .artifact => .artifactMutations

inductive RequestRecord
  | process (request : ProcessRequest)
  | file (request : FileRequest)
  | signal (request : SignalRequest)
  | artifact (request : ArtifactRequest)

def RequestRecord.kind : RequestRecord → RequestKind
  | .process _ => .process
  | .file _ => .file
  | .signal _ => .signal
  | .artifact _ => .artifact

namespace LoadedSession

def hasRequest (t : LoadedSession) (requestId : Uuid) : RequestKind → Bool
  | .process => t.processRequests.contains requestId
  | .file => t.fileRequests.contains requestId
  | .signal => t.signalRequests.contains requestId
  | .artifact => t.artifactRequests.contains requestId

def insertRequest (t : LoadedSession) (requestId : Uuid) : RequestRecord → LoadedSession
  | .process request => { t with processRequests := t.processRequests.insert requestId request }
  | .file request => { t with fileRequests := t.fileRequests.insert requestId request }
  | .signal request => { t with signalRequests := t.signalRequests.insert requestId request }
  | .artifact request => { t with artifactRequests := t.artifactRequests.insert requestId request }

def requestCount (t : LoadedSession) : ℕ :=
  t.processRequests.size + t.fileRequests.size + t.signalRequests.size + t.artifactRequests.size

/-- The tables after `compact_if_needed`. -/
def compactRequests (sha256 : Bytes → String) (pruned : Uuid → Bool) (t : LoadedSession) : LoadedSession :=
  { t with
    processes := t.processes.filter fun processId _ => !pruned processId
    processRequests := t.processRequests.map fun _ request =>
      if pruned request.processId then { normalizeRequest sha256 request with command := "" }
      else request }

/-- The tables without an artifact, and the number of request records that went with it. -/
def removeArtifact (t : LoadedSession) (artifactId : String) : LoadedSession × ℕ :=
  ({ t with
      artifacts := t.artifacts.erase artifactId
      artifactRequests := t.artifactRequests.filter fun _ request => request.artifactId != artifactId },
    t.artifactRequests.toList.countP fun entry => entry.2.artifactId == artifactId)

end LoadedSession

structure MutationRequest where
  kind : RequestKind
  requestId : Uuid
  /-- It owns an `IdempotencyReservation` that is not committed. -/
  reserved : Bool
  /-- It holds the lock of its kind and has not found its id in the table. -/
  checked : Bool
  /-- Its record is in the table. -/
  inserted : Bool
  deriving DecidableEq

/-- The request without its reservation and its lock. -/
def MutationRequest.cleared (request : MutationRequest) : MutationRequest :=
  ⟨request.kind, request.requestId, false, false, false⟩

structure RecordCounter where
  idempotencyRecords : ℕ
  tables : LoadedSession
  requests : List MutationRequest
  /-- A prune of artifacts, with the records that it has removed and not released. -/
  pruning : Option ℕ

inductive RecordAction
  | begin (kind : RequestKind) (requestId : Uuid)
  | reserve (n : ℕ)
  | check (n : ℕ)
  | insert (n : ℕ) (record : RequestRecord)
  | commit (n : ℕ)
  /-- A failure, a cancellation or an answer without a new record. -/
  | leave (n : ℕ)
  | pruneBegin
  | pruneArtifact (artifactId : String)
  | pruneRelease
  | pruneEnd
  | compact (sha256 : Bytes → String) (pruned : Uuid → Bool)
  | restart (loaded : LoadedSession)
  /-- `recover_pending_file_mutations` finishes a mutation. -/
  | recover (requestId : Uuid) (request : FileRequest)

namespace RecordCounter

def fromLoaded (loaded : LoadedSession) : RecordCounter := ⟨loaded.requestCount, loaded, [], none⟩

def put (s : RecordCounter) (n : ℕ) (request : MutationRequest) : RecordCounter :=
  { s with requests := s.requests.set n request }

def lockFree (s : RecordCounter) (lock : RequestLock) : Bool :=
  s.requests.all (fun other => !(other.checked && other.kind.lock = lock)) &&
    (lock ≠ .artifactMutations || s.pruning.isNone)

/-- An upload of a file or an artifact reserves before it takes the lock, the others (and a small
file) after their check. -/
def mayReserve (request : MutationRequest) : Bool :=
  match request.kind with
  | .process | .signal => request.checked
  | .file => true
  | .artifact => !request.checked

/-- `drop` of the reservation, if there is one. -/
def dropReservation (s : RecordCounter) (n : ℕ) (request : MutationRequest) : RecordCounter :=
  let s := s.put n request.cleared
  if request.reserved then { s with idempotencyRecords := s.idempotencyRecords - 1 } else s

def act (s : RecordCounter) : RecordAction → Option RecordCounter
  | .begin kind requestId => some { s with requests := s.requests ++ [⟨kind, requestId, false, false, false⟩] }
  | .reserve n => do
      let request ← s.requests[n]?
      if request.reserved = false ∧ mayReserve request ∧
          s.idempotencyRecords < maxIdempotencyRecordsPerSession then
        some { s.put n { request with reserved := true } with
          idempotencyRecords := s.idempotencyRecords + 1 }
      else none
  | .check n => do
      let request ← s.requests[n]?
      if request.checked = false ∧ s.lockFree request.kind.lock then
        if s.tables.hasRequest request.requestId request.kind then some (s.dropReservation n request)
        else some (s.put n { request with checked := true })
      else none
  | .insert n record => do
      let request ← s.requests[n]?
      if request.reserved ∧ request.checked ∧ request.inserted = false ∧ record.kind = request.kind then
        some { s.put n { request with inserted := true } with
          tables := s.tables.insertRequest request.requestId record }
      else none
  | .commit n => do
      let request ← s.requests[n]?
      if request.inserted then some (s.put n request.cleared) else none
  | .leave n => do
      let request ← s.requests[n]?
      if request.inserted = false then some (s.dropReservation n request) else none
  | .pruneBegin => if s.lockFree .artifactMutations then some { s with pruning := some 0 } else none
  | .pruneArtifact artifactId =>
      if s.pruning = some 0 then
        let removal := s.tables.removeArtifact artifactId
        some { s with tables := removal.1, pruning := some removal.2 }
      else none
  | .pruneRelease =>
      match s.pruning with
      | some (removed + 1) =>
          some { s with idempotencyRecords := s.idempotencyRecords - 1, pruning := some removed }
      | _ => none
  | .pruneEnd => if s.pruning = some 0 then some { s with pruning := none } else none
  | .compact sha256 pruned => some { s with tables := s.tables.compactRequests sha256 pruned }
  | .restart loaded => some (fromLoaded loaded)
  | .recover requestId request =>
      if s.requests = [] ∧ s.pruning = none then
        if s.tables.hasRequest requestId .file then some s
        else some { s with
          tables := s.tables.insertRequest requestId (.file request)
          idempotencyRecords := s.idempotencyRecords + 1 }
      else none

def uncommitted (s : RecordCounter) : ℕ := s.requests.countP (·.reserved)

/-- Those whose record is in the table already. -/
def recorded (s : RecordCounter) : ℕ := s.requests.countP (·.inserted)

end RecordCounter

def recordMachine : Steps.Machine RecordAction RecordCounter := ⟨fun action s => s.act action, fun _ _ => []⟩

end Asp
