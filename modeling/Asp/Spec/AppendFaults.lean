import Asp.Spec.Workspace

/-! `Session::append_locked` over a `SessionDisk::append` that fails: what the
write path takes back, what it leaves to the next call, and the runs of a session
in which calls fail. -/

namespace Asp

open Std Durable Steps

structure SessionMemory where
  journal : Journal
  fileVersions : ExtTreeMap PathKey ℕ
  ptyStarted : Bool
  ptyGeneration : ℕ
  runningProcesses : ℕ
  /-- What `event_tx` has sent. -/
  broadcast : List Event

namespace SessionMemory

def raiseVersion (m : SessionMemory) (path : String) (version : ℕ) : SessionMemory :=
  match workspaceEventPath path with
  | none => m
  | some key =>
      { m with fileVersions :=
          m.fileVersions.insert key (max (m.fileVersions.getD key version) version) }

/-- What `append_locked` does to the rest of the session once the event is stored. -/
def publish (m : SessionMemory) (event : Event) : SessionMemory :=
  let m :=
    match event.kind with
    | .fileChanged path version | .fileMutation _ _ path version _ => m.raiseVersion path version
    | _ => m
  let m := { m with journal := m.journal.enforceBounds }
  let m :=
    match event.kind with
    | .ptyStarted => { m with ptyStarted := true }
    | .ptyStateAdvanced generation => { m with ptyGeneration := generation }
    | .processExited _ _ => { m with runningProcesses := m.runningProcesses - 1 }
    | _ => m
  { m with broadcast := m.broadcast ++ [event] }

/-- `append_locked`; `stored` is the outcome of `SessionDisk::append`. -/
def appendLocked (m : SessionMemory) (unixMs : ℕ) (kind : EventKind) (stored : Bool) :
    SessionMemory × Option Event :=
  let (journal, event) := m.journal.append unixMs kind
  if stored then ({ m with journal := journal }.publish event, some event)
  else ({ m with journal := journal.rollback event }, none)

end SessionMemory

section Faults

variable (c : Crates)

/-- `set_len(start)`, the seek to the end, and `dirty_bytes = 0`. -/
def World.undoAppend (w : World) (start : ℕ) : World :=
  (w.setCell w.mem.events.inode (w.cell.change [] (w.cell.now.take start))).setEvents
    { w.mem.events with pos := (w.cell.now.take start).length, dirtyBytes := 0 }

def Io.isWrite : Io → Bool
  | .writeEvents _ => true
  | _ => false

def recordWrites (w : World) (frameBytes : ℕ) (call : AppendCall) : List Io :=
  (writeProgram c w frameBytes call).takeWhile Io.isWrite

/-- The state after a rotation, if one was due, when the record may be written. -/
def Rotates (w : World) (call : AppendCall) (w₁ : World) : Prop :=
  logMachine.run (rotationProgram c w call) w = (w₁, true) ∧
    w₁.mem.totalBytes + frameBytes c w call.event ≤ eventLogMaxBytes

/-- `SessionDisk::append` returns an error in `w` and leaves the second state. -/
inductive AppendFault (w : World) (call : AppendCall) : World → Prop
  /-- The frame or the storage limit, or no `events.log` to rename. -/
  | refused {w' : World} (herr : append c w call = (w', false)) : AppendFault w call w'
  | rotating {i : Io} {rest : List Io} {w' : World}
      (hfail : logMachine.Fails (rotationProgram c w call) w i rest w') : AppendFault w call w'
  | writing {i : Io} {rest : List Io} {w₁ w₂ : World} (hrotates : Rotates c w call w₁)
      (hfail : logMachine.Fails (recordWrites c w₁ (frameBytes c w call.event) call) w₁ i rest w₂) :
      AppendFault w call (w₂.undoAppend w₁.cell.now.length)
  | flushing {w₁ w₂ : World} (hrotates : Rotates c w call w₁)
      (hwritten : logMachine.run (recordWrites c w₁ (frameBytes c w call.event) call) w₁ =
        (w₂, true)) : AppendFault w call (w₂.undoAppend w₁.cell.now.length)
  | syncing {w₁ w₂ : World} (hrotates : Rotates c w call w₁)
      (hdue : syncDue w₁ (frameBytes c w call.event) call = true)
      (hwritten : logMachine.run (recordWrites c w₁ (frameBytes c w call.event) call ++
        [.recordAppend call.event.id (frameBytes c w call.event)]) w₁ = (w₂, true)) :
      AppendFault w call
        { w₂.undoAppend w₁.cell.now.length with mem :=
            { (w₂.undoAppend w₁.cell.now.length).mem with
              totalBytes := w₂.mem.totalBytes - frameBytes c w call.event } }

/-- What the next open finds in the directory. -/
def recovered (sessionId : Uuid) (w : World) : Except OpenError LoadedSession :=
  (openSession c sessionId w.view).2.map Prod.snd

/-- Runs of one session with failing calls. Until one fails everything may
happen; after that, `usable` appends, restarts of the daemon, and an orderly reboot of the
machine, which writes all files back. -/
inductive FaultRun (sessionId : Uuid) (usable : World → AppendCall → Prop) :
    (whole : Bool) → SessionState → Prop
  | opened {d d' : SessionDir Bytes} {a : Wal} {mem : SessionDisk} {loaded : LoadedSession}
      (hfirst : FirstOpen c d a) (hopen : openSession c sessionId d = (d', .ok (mem, loaded))) :
      FaultRun sessionId usable true
        ⟨World.opened (d.map Cell.stable) d' mem loaded, Journal.fromLoaded loaded, a⟩
  | step {s s' : SessionState} {event : Option Event} (hrun : FaultRun sessionId usable true s)
      (hstep : SessionStep c sessionId (fun _ call => call.Sized c) s event s') :
      FaultRun sessionId usable true s'
  | crash {s s' : SessionState} {stop : Stop} {call : LogCall}
      (hrun : FaultRun sessionId usable true s)
      (hcrash : SessionCrash c sessionId (fun _ call => call.Sized c) stop s call s') :
      FaultRun sessionId usable true s'
  | compactFault {s : SessionState} {snapshot : SessionSnapshotData} {w' : World} {a' : Wal}
      (hrun : FaultRun sessionId usable true s)
      (hthrough : snapshot.throughEventId = s.journal.nextId) (hid : snapshot.sessionId = sessionId)
      (hsized : (LogCall.compact snapshot).Sized c)
      (hfault : LogFault c s.world (.compact snapshot) w')
      (hlog : a' = s.log ∨ a' = Wal.compacted snapshot)
      (hsnapshot : w'.disk.snapshot = a'.snapshot.map (snapshotFile c)) :
      FaultRun sessionId usable false ⟨w', s.journal, a'⟩
  | fault {whole : Bool} {s : SessionState} {w' : World} (unixMs : ℕ) (kind : EventKind)
      (chance : AppendChance) (hrun : FaultRun sessionId usable whole s)
      (husable : usable s.world (s.journal.call unixMs kind chance))
      (hfault : AppendFault c s.world (s.journal.call unixMs kind chance) w') :
      FaultRun sessionId usable false
        ⟨w', (s.journal.append unixMs kind).1.rollback (s.journal.append unixMs kind).2, s.log⟩
  | append {s : SessionState} {w' : World} (unixMs : ℕ) (kind : EventKind) (chance : AppendChance)
      (hrun : FaultRun sessionId usable false s)
      (husable : usable s.world (s.journal.call unixMs kind chance))
      (hsized : (LogCall.append (s.journal.call unixMs kind chance)).Sized c)
      (hok : Asp.append c s.world (s.journal.call unixMs kind chance) = (w', true)) :
      FaultRun sessionId usable false
        ⟨w', (s.journal.append unixMs kind).1.enforceBounds,
          s.log.append (s.journal.append unixMs kind).2
            (syncedAfter c s.world s.log (s.journal.call unixMs kind chance))⟩
  | restart {s : SessionState} {d' : SessionDir Bytes} {mem : SessionDisk} {loaded : LoadedSession}
      (hrun : FaultRun sessionId usable false s)
      (hopen : openSession c sessionId s.world.view = (d', .ok (mem, loaded))) :
      FaultRun sessionId usable false
        ⟨World.opened s.world.disk d' mem loaded, Journal.fromLoaded loaded, s.log⟩
  | reboot {s : SessionState} {d' : SessionDir Bytes} {mem : SessionDisk} {loaded : LoadedSession}
      (hrun : FaultRun sessionId usable false s)
      (hopen : openSession c sessionId s.world.view = (d', .ok (mem, loaded))) :
      FaultRun sessionId usable true
        ⟨World.opened (s.world.view.map Cell.stable) d' mem loaded, Journal.fromLoaded loaded,
          { s.log with synced := s.log.events.length }⟩

end Faults

end Asp
