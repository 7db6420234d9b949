import Asp.Spec.IdempotencyRecords

/-! The count of running processes: the slots that `reserve_process_slot` admits, the records of
`start_process_blocking` and of the monitors, and what a restart loads. -/

namespace Asp

open Std

def maxRunningProcesses : ℕ := 64
def maxRunningProcessesPerPrincipal : ℕ := 256

/-- A start and then the monitor of its process. -/
inductive ProcessTask
  /-- A slot is taken. -/
  | reserved (requestId : Uuid)
  /-- The record is in the table, the event is not appended. -/
  | recorded (requestId processId : Uuid)
  | monitored (processId : Uuid)
  /-- The exit event is appended, which released the slot. -/
  | exited (processId : Uuid)
  /-- The monitor failed and has stopped the record. -/
  | stopping (processId : Uuid)
  /-- The record is stopped, the exit event could not be appended. -/
  | unsaved
  | ended
  deriving DecidableEq

namespace ProcessTask

def holdsSlot : ProcessTask → Bool
  | .exited _ | .ended => false
  | _ => true

def process? : ProcessTask → Option Uuid
  | .recorded _ processId | .monitored processId | .exited processId => some processId
  | _ => none

def inProgress : ProcessTask → Bool
  | .monitored _ | .ended => false
  | _ => true

/-- The task is at a point where it holds `commit_lock`. -/
def commits : ProcessTask → Bool
  | .recorded .. | .exited _ => true
  | _ => false

end ProcessTask

structure ProcessSession where
  owner : String
  /-- The tables in memory; `runningProcesses` is the atomic counter. -/
  live : LoadedSession
  /-- What the snapshot and the event log load to. -/
  durable : LoadedSession
  tasks : List ProcessTask

inductive ProcessAction
  | record (n : ℕ) (processId : Uuid) (command : String) (pid pidStartTime : Option ℕ)
  /-- A failure before there is a record. -/
  | abandon (n : ℕ)
  | started (n : ℕ) (unixMs : ℕ)
  /-- The start event is not appended: the record goes. -/
  | startLost (n : ℕ)
  | exit (n : ℕ) (code : Option ℤ) (unixMs : ℕ)
  | exitRecord (n : ℕ) (code : Option ℤ) (unixMs : ℕ)
  | exitLost (n : ℕ) (code : Option ℤ)
  | monitorFails (n : ℕ)
  | stop (n : ℕ) (unixMs : ℕ)
  | stopLost (n : ℕ)
  | release (n : ℕ)
  | compact (cutoff : Option ℕ)

namespace ProcessSession

/-- `append_locked`, which releases the slot of a process that has exited. -/
def append (sha256 : Bytes → String) (s : ProcessSession) (unixMs : ℕ) (kind : EventKind) : ProcessSession :=
  { s with
    live := { s.live with nextId := s.live.nextId + 1 }
    durable := s.durable.push sha256 ⟨s.live.nextId + 1, unixMs, kind⟩ }

/-- `reserve_process_slot` of a session that has one. -/
def reserveProcessSlot (s : ProcessSession) (requestId : Uuid) : ProcessSession :=
  { s with
    live := { s.live with runningProcesses := s.live.runningProcesses + 1 }
    tasks := s.tasks ++ [.reserved requestId] }

def releaseProcessSlot (s : ProcessSession) : ProcessSession :=
  { s with live := { s.live with runningProcesses := s.live.runningProcesses - 1 } }

def put (s : ProcessSession) (n : ℕ) (task : ProcessTask) : ProcessSession :=
  { s with tasks := s.tasks.set n task }

def setProcesses (s : ProcessSession) (processes : ExtTreeMap Uuid ProcessRecord) : ProcessSession :=
  { s with live := { s.live with processes := processes } }

def modifyRecord (s : ProcessSession) (processId : Uuid) (f : ProcessRecord → ProcessRecord) :
    ProcessSession :=
  s.setProcesses (s.live.processes.modify processId f)

/-- The processes that `compact_if_needed` leaves out of its snapshot. -/
def pruned (s : ProcessSession) (cutoff : Option ℕ) (processId : Uuid) : Bool :=
  cutoff.any fun cutoff => (s.live.processes[processId]?).any fun record =>
    !record.running && record.exitUnixMs.any (· ≤ cutoff)

def act (sha256 : Bytes → String) (sessionId : Uuid) (s : ProcessSession) :
    ProcessAction → Option ProcessSession
  | .record n processId command pid pidStartTime =>
      match s.tasks[n]? with
      | some (.reserved requestId) =>
          -- the id is a new one
          if processId ∈ s.live.processes ∨ processId ∈ s.durable.processes then none
          else some ((s.setProcesses (s.live.processes.insert processId
            ⟨command, true, none, none, pid, pidStartTime, 0, 0⟩)).put n (.recorded requestId processId))
      | _ => none
  | .abandon n =>
      match s.tasks[n]? with
      | some (.reserved _) => some (s.releaseProcessSlot.put n .ended)
      | _ => none
  | .started n unixMs =>
      match s.tasks[n]? with
      | some (.recorded requestId processId) =>
          (s.live.processes[processId]?).map fun record =>
            let s := s.append sha256 unixMs
              (.processStarted processId record.command record.pid (some requestId))
            { s with live := { s.live with
                processRequests := s.live.processRequests.insert requestId
                  ⟨record.command, some (sha256 (asBytes record.command)), processId, s.live.nextId⟩ } }.put n
              (.monitored processId)
      | _ => none
  | .startLost n =>
      match s.tasks[n]? with
      | some (.recorded requestId processId) =>
          some ((s.setProcesses (s.live.processes.erase processId)).put n (.reserved requestId))
      | _ => none
  | .exit n code unixMs =>
      match s.tasks[n]? with
      | some (.monitored processId) =>
          some ((s.append sha256 unixMs (.processExited processId code)).releaseProcessSlot.put n
            (.exited processId))
      | _ => none
  | .exitRecord n code unixMs =>
      match s.tasks[n]? with
      | some (.exited processId) =>
          some ((s.modifyRecord processId fun record =>
            { record with running := false, exitCode := code, exitUnixMs := some unixMs }).put n .ended)
      | _ => none
  | .exitLost n code =>
      match s.tasks[n]? with
      | some (.monitored processId) =>
          some ((s.modifyRecord processId fun record =>
            { record with running := false, exitCode := code }).put n .unsaved)
      | _ => none
  | .monitorFails n =>
      match s.tasks[n]? with
      | some (.monitored processId) =>
          let task := if (s.live.processes[processId]?).any (·.running) then .stopping processId else .ended
          some ((s.modifyRecord processId fun record =>
            { record with running := false, exitCode := none }).put n task)
      | _ => none
  | .stop n unixMs =>
      match s.tasks[n]? with
      | some (.stopping processId) =>
          let s := (s.append sha256 unixMs (.processExited processId none)).releaseProcessSlot
          some ((s.modifyRecord processId fun record => { record with exitUnixMs := some unixMs }).put n .ended)
      | _ => none
  | .stopLost n =>
      match s.tasks[n]? with
      | some (.stopping _) => some (s.put n .unsaved)
      | _ => none
  | .release n =>
      match s.tasks[n]? with
      | some .unsaved => some (s.releaseProcessSlot.put n .ended)
      | _ => none
  | .compact cutoff =>
      if s.tasks.any (·.commits) then none
      else
        some { s with
          live := s.live.compactRequests sha256 (s.pruned cutoff)
          durable := .fromSnapshot sha256 (s.live.snapshotData sha256 sessionId (s.pruned cutoff)) }

/-- `from_loaded` and `spawn_recovered_processes`. -/
def restart (s : ProcessSession) : ProcessSession :=
  { s with
    live := s.durable
    tasks := (s.durable.processes.toList.filter (·.2.running)).map fun entry => .monitored entry.1 }

def runningRecords (s : ProcessSession) : ℕ := s.live.processes.toList.countP (·.2.running)

end ProcessSession

/-- A holder of `principal_process_lock` that loads the counters of the sessions one by one. -/
structure PrincipalGate where
  session : ℕ
  requestId : Uuid
  owner : String
  /-- How many sessions there were. -/
  sessions : ℕ
  next : ℕ
  running : ℕ

structure ProcessStore where
  sessions : List ProcessSession
  gate : Option PrincipalGate

inductive SlotAction
  | openSession (owner : String)
  | request (session : ℕ) (requestId : Uuid)
  | load
  | reserve
  | session (session : ℕ) (sessionId : Uuid) (action : ProcessAction)
  | restart

namespace ProcessStore

def initial : ProcessStore := ⟨[], none⟩

def act (sha256 : Bytes → String) (s : ProcessStore) : SlotAction → Option ProcessStore
  | .openSession owner => some { s with sessions := s.sessions ++ [⟨owner, {}, {}, []⟩] }
  | .request i requestId => do
      let session ← s.sessions[i]?
      -- a duplicate takes no slot
      if session.live.processRequests.contains requestId then some s
      else if s.gate.isSome then none
      else some { s with gate := some ⟨i, requestId, session.owner, s.sessions.length, 0, 0⟩ }
  | .load => do
      let gate ← s.gate
      let candidate ← s.sessions[gate.next]?
      if gate.next < gate.sessions then
        let running := if candidate.owner = gate.owner then candidate.live.runningProcesses else 0
        some { s with gate := some { gate with next := gate.next + 1, running := gate.running + running } }
      else none
  | .reserve => do
      let gate ← s.gate
      let session ← s.sessions[gate.session]?
      if gate.next = gate.sessions then
        if maxRunningProcessesPerPrincipal ≤ gate.running ∨
            maxRunningProcesses ≤ session.live.runningProcesses then
          some { s with gate := none }
        else
          some ⟨s.sessions.set gate.session (session.reserveProcessSlot gate.requestId), none⟩
      else none
  | .session i sessionId action => do
      let session ← s.sessions[i]?
      let session ← session.act sha256 sessionId action
      some { s with sessions := s.sessions.set i session }
  | .restart => some ⟨s.sessions.map (·.restart), none⟩

def ownerRunning (owner : String) (sessions : List ProcessSession) : ℕ :=
  (sessions.map fun session => if session.owner = owner then session.live.runningProcesses else 0).sum

end ProcessStore

def processMachine (sha256 : Bytes → String) : Steps.Machine SlotAction ProcessStore :=
  ⟨fun action s => s.act sha256 action, fun _ _ => []⟩

end Asp
