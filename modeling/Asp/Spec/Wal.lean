import Asp.Spec.EventLog

/-! What the event log is for: a snapshot, the events after it in order, and
how many of those a loss of power cannot take back. The runs of the daemon are
stated against it: each step of the store is paired with the step of this log, and a
stop inside any call with the logs it may leave. -/

namespace Asp

open Std Durable Steps

structure Wal where
  snapshot : Option SessionSnapshotData
  events : List Event
  synced : ℕ

namespace Wal

def boundary (a : Wal) : ℕ := a.snapshot.elim 0 SessionSnapshotData.throughEventId

def head (a : Wal) : ℕ := a.boundary + a.events.length

/-- The id of the newest event that is on disk. -/
def durableHead (a : Wal) : ℕ := a.boundary + a.synced

/-- The tables: `LoadedSession::push` folded over the snapshot and the events. -/
def replay (sha256 : Bytes → String) (a : Wal) : LoadedSession :=
  a.events.foldl (LoadedSession.push sha256)
    (a.snapshot.elim {} (LoadedSession.fromSnapshot sha256))

/-- The log without the events after the first `k`. -/
def take (a : Wal) (k : ℕ) : Wal := { a with events := a.events.take k }

def append (a : Wal) (event : Event) (synced : ℕ) : Wal :=
  ⟨a.snapshot, a.events ++ [event], synced⟩

def compacted (snapshot : SessionSnapshotData) : Wal := ⟨some snapshot, [], 0⟩

end Wal

inductive LogCall where
  | append (call : AppendCall)
  | compact (snapshot : SessionSnapshotData)
  | ack (call : AckCall)
  /-- No call is running. -/
  | idle

/-- What the session guarantees of its calls: the next event id, a snapshot
through the head, of this session. -/
def LogCall.Proper (sessionId : Uuid) (a : Wal) : LogCall → Prop
  | .append call => call.event.id = a.head + 1
  | .compact snapshot => snapshot.throughEventId = a.head ∧ snapshot.sessionId = sessionId
  | .ack _ | .idle => True

section Run

variable (c : Crates) (sessionId : Uuid)

/-- The call writes nothing that the loader refuses for its length. -/
def LogCall.Sized : LogCall → Prop
  | .append call => (c.event.encode call.event).length ≤ maxFrameBytes
  | .compact snapshot => (c.snapshot.encode snapshot).length ≤ maxFrameBytes
  | .ack _ | .idle => True

/-- The same for the record of an append alone. -/
def LogCall.Framed : LogCall → Prop
  | .append call => (c.event.encode call.event).length ≤ maxFrameBytes
  | .compact _ | .ack _ | .idle => True

/-- An acknowledgement of events that are on disk. -/
def LogCall.AckDurable (a : Wal) : LogCall → Prop
  | .ack call => call.throughEventId ≤ a.durableHead
  | .append _ | .compact _ | .idle => True

def LogCall.isAck : LogCall → Bool
  | .ack _ => true
  | .append _ | .compact _ | .idle => false

/-- How many events are on disk after an append: all when it synced, all older
ones when it rotated. -/
def syncedAfter (w : World) (a : Wal) (call : AppendCall) : ℕ :=
  let rotated := (logMachine.run (rotationProgram c w call) w).1
  if syncDue rotated (frameBytes c w call.event) call then a.events.length + 1
  else if needsRotation c w call.event then a.events.length
  else a.synced

/-- The states in which a call can be interrupted. -/
inductive LogCall.Passes (w : World) (a : Wal) : LogCall → World → Prop
  | before (call : LogCall) : Passes w a call w
  | rotating {call : AppendCall} {w' : World}
      (hpass : logMachine.Passes (rotationProgram c w call) w w') : Passes w a (.append call) w'
  | writing {call : AppendCall} {w₁ w' : World}
      (hrun : logMachine.run (rotationProgram c w call) w = (w₁, true))
      (hroom : w₁.mem.totalBytes + frameBytes c w call.event ≤ eventLogMaxBytes)
      (hpass : logMachine.Passes (writeProgram c w₁ (frameBytes c w call.event) call) w₁ w') :
      Passes w a (.append call) w'
  | compacting {snapshot : SessionSnapshotData} {w' : World}
      (hpass : logMachine.Passes (compactProgram c w snapshot) w w') :
      Passes w a (.compact snapshot) w'
  | acked (call : AckCall) : Passes w a (.ack call) (ackEventConsumer c w a.head call).1

/-- The log inside a call: a compaction happens wholly or not at all. -/
def Wal.Midway (a : Wal) : LogCall → Wal → Prop
  | .append call, a' => a' = a ∨ a' = a.append call.event a.synced
  | .compact snapshot, a' => a' = a ∨ a' = Wal.compacted snapshot
  | .ack _, a' | .idle, a' => a' = a

/-- The logs that a stop inside a call may leave: a kill loses nothing, and a loss of
power nothing that was synced. -/
def Wal.Survives (a : Wal) (call : LogCall) : Stop → Wal → Prop
  | .kill, a' => a.Midway call a'
  | .powerLoss, a' => ∃ a₁ k, a.Midway call a₁ ∧ a₁.synced ≤ k ∧ a' = a₁.take k

/-- The log of an open session: all of it is on disk when nothing of its active file is
unsynced, since segments are synced before they are sealed. -/
def Wal.settle (a : Wal) (w : World) : Wal :=
  if w.cell.past.isEmpty then { a with synced := a.events.length } else a

/-- An empty directory, or one with a legacy log of complete records. -/
inductive FirstOpen : SessionDir Bytes → Wal → Prop
  | fresh (files : ℕ → Bytes) (i : ℕ) :
      FirstOpen ⟨files, i, none, [], [], none, none⟩ ⟨none, [], 0⟩
  | legacy (files : ℕ → Bytes) (i n : ℕ) (events : List Event) (hi : i < n)
      (hids : events.map Event.id = List.range' 1 events.length)
      (hfits : ∀ e ∈ events, (c.event.encode e).length ≤ maxFrameBytes)
      (hfile : files i = eventLogHeader false ++
        (events.map fun e => Framing.frame (crcOf c false) (c.event.encode e)).flatten)
      (hsize : (files i).length ≤ eventLogMaxBytes) :
      FirstOpen ⟨files, n, some i, [], [], none, none⟩ ⟨none, events, events.length⟩

/-- Runs of the daemon over one session's log, stopped inside calls and started again.
`allowed` restricts the calls. -/
inductive LogRun (allowed : Wal → LogCall → Prop) : World → Wal → Prop
  | opened {d d' : SessionDir Bytes} {a : Wal} {mem : SessionDisk} {loaded : LoadedSession}
      (hfirst : FirstOpen c d a) (hopen : openSession c sessionId d = (d', .ok (mem, loaded))) :
      LogRun allowed (World.opened (d.map Cell.stable) d' mem loaded) a
  | append {w w' : World} {a : Wal} {call : AppendCall} (hrun : LogRun allowed w a)
      (hproper : (LogCall.append call).Proper sessionId a) (hallowed : allowed a (.append call))
      (hok : append c w call = (w', true)) :
      LogRun allowed w' (a.append call.event (syncedAfter c w a call))
  | refused {w w' : World} {a : Wal} {call : AppendCall} (hrun : LogRun allowed w a)
      (hproper : (LogCall.append call).Proper sessionId a) (hallowed : allowed a (.append call))
      (herr : append c w call = (w', false)) : LogRun allowed w' a
  | compact {w w' : World} {a : Wal} {snapshot : SessionSnapshotData} (hrun : LogRun allowed w a)
      (hproper : (LogCall.compact snapshot).Proper sessionId a)
      (hallowed : allowed a (.compact snapshot)) (hok : compact c w snapshot = (w', true)) :
      LogRun allowed w' (Wal.compacted snapshot)
  | ack {w : World} {a : Wal} {call : AckCall} (hrun : LogRun allowed w a)
      (hallowed : allowed a (.ack call)) : LogRun allowed (ackEventConsumer c w a.head call).1 a
  | stopped {w w₁ : World} {a a' : Wal} {call : LogCall} {stop : Stop}
      {e : SessionDir (Cell Bytes)} {d' : SessionDir Bytes} {mem : SessionDisk}
      {loaded : LoadedSession} (hrun : LogRun allowed w a) (hproper : call.Proper sessionId a)
      (hallowed : allowed a call) (hpass : call.Passes c w a w₁) (hstop : w₁.disk.Stops stop e)
      (hopen : openSession c sessionId (e.map Cell.now) = (d', .ok (mem, loaded)))
      (hsurvives : a.Survives call stop a')
      (hsnapshot : e.snapshot = a'.snapshot.map (snapshotFile c)) (hhead : loaded.nextId = a'.head) :
      LogRun allowed (World.opened e d' mem loaded) (a'.settle (World.opened e d' mem loaded))

/-- A rotation or a compaction in which one I/O call reports an error, and the
state that this leaves. -/
inductive LogFault (w : World) : LogCall → World → Prop
  | rotating {call : AppendCall} {i : Io} {rest : List Io} {w' : World}
      (hfail : logMachine.Fails (rotationProgram c w call) w i rest w') :
      LogFault w (.append call) w'
  | compacting {snapshot : SessionSnapshotData} {i : Io} {rest : List Io} {w' : World}
      (hfail : logMachine.Fails (compactProgram c w snapshot) w i rest w') :
      LogFault w (.compact snapshot) (if i.fatal then w' else (logMachine.run rest w').1)

/-- Appends that the daemon serves from `w` with the journal at `head`, and the
events of those that returned `Ok`. `guard` restricts the states in which one is
made. -/
inductive Serves (guard : World → AppendCall → Prop) : World → ℕ → List Event → World → Prop
  | done (w : World) (head : ℕ) : Serves guard w head [] w
  | ok {w w₁ w' : World} {head : ℕ} {call : AppendCall} {events : List Event}
      (hid : call.event.id = head + 1) (hguard : guard w call)
      (hok : append c w call = (w₁, true)) (hrest : Serves guard w₁ (head + 1) events w') :
      Serves guard w head (call.event :: events) w'
  | refused {w w₁ w' : World} {head : ℕ} {call : AppendCall} {events : List Event}
      (hid : call.event.id = head + 1) (hguard : guard w call)
      (herr : append c w call = (w₁, false)) (hrest : Serves guard w₁ head events w') :
      Serves guard w head events w'

end Run

end Asp
