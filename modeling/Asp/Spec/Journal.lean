import Asp.Spec.Wal

/-! The journal that a session keeps in memory, the replay of its log, and the
two together: `Journal`, `SessionDisk::read_events_since`,
`Session::append_locked` and `events_since_locked`. The commit lock makes each of
them one step. -/

namespace Asp

open Std Durable

structure Journal where
  events : List Event
  nextId : ℕ
  approxBytes : ℕ
  oldestEventUnixMs : Option ℕ
  deriving DecidableEq

namespace Journal

def fromLoaded (loaded : LoadedSession) : Journal where
  events := loaded.events
  nextId := loaded.nextId
  approxBytes := (loaded.events.map eventApproxBytes).sum
  oldestEventUnixMs := (loaded.events.head?.map Event.unixMs).or loaded.oldestEventUnixMs

def append (j : Journal) (unixMs : ℕ) (kind : EventKind) : Journal × Event :=
  let event : Event := ⟨j.nextId + 1, unixMs, kind⟩
  ({ events := j.events ++ [event]
     nextId := j.nextId + 1
     approxBytes := j.approxBytes + eventApproxBytes event
     oldestEventUnixMs := some (j.oldestEventUnixMs.elim unixMs fun oldest => min oldest unixMs) },
   event)

def enforceBounds (j : Journal) : Journal :=
  let window := LoadedSession.evict j.events j.approxBytes
  { j with
    events := window.1
    approxBytes := window.2
    oldestEventUnixMs := window.1.head?.map Event.unixMs }

def rollback (j : Journal) (event : Event) : Journal :=
  match j.events.getLast? with
  | none => j
  | some current =>
      if current.id = event.id then
        { events := j.events.dropLast
          nextId := event.id - 1
          approxBytes := j.approxBytes - eventApproxBytes current
          oldestEventUnixMs := j.events.dropLast.head?.map Event.unixMs }
      else j

def retainedFromEventId (j : Journal) : ℕ := (j.events.head?.map Event.id).getD (j.nextId + 1)

def since (j : Journal) (after : ℕ) : List Event × Bool :=
  let compacted := decide (after + 1 < j.retainedFromEventId)
  (if compacted then [] else j.events.filter fun event => event.id > after, compacted)

/-- What `compact_if_needed` leaves of the journal. -/
def cleared (j : Journal) : Journal := ⟨[], j.nextId, 0, none⟩

end Journal

inductive ReadError where
  | missing (name : SegmentName)
  | segment (name : SegmentName) (error : LogError)
  | missingActive
  | active (error : LogError)
  deriving DecidableEq

/-- `collected.limit_reached` -/
def Replay.limited (replay : Replay) : Bool := replay.collected.any EventReplayBuffer.limitReached

section Read

variable (c : Crates)

/-- The loop over the segments; it ends early when the replay is too long. -/
def readSegments (snapshotBoundary : ℕ) : List SegmentName → SessionDir Bytes → Replay →
    SessionDir Bytes × Except ReadError Replay
  | [], d, replay => (d, .ok replay)
  | name :: names, d, replay =>
      match d.segments.find? fun entry => entry.1 = name with
      | none => (d, .error (.missing name))
      | some segment =>
          match loadEventLog c false (d.files segment.2) snapshotBoundary false replay with
          | .error (.corrupt reason) =>
              (d.quarantineSegment segment, .error (.segment name (.corrupt reason)))
          | .error e => (d, .error (.segment name e))
          | .ok log =>
              let d := d.write segment.2 log.content
              if log.replay.limited then (d, .ok log.replay)
              else readSegments snapshotBoundary names d log.replay

def readActive (snapshotBoundary : ℕ) (d : SessionDir Bytes) (replay : Replay) :
    SessionDir Bytes × Except ReadError Replay :=
  match d.active with
  | none => (d, .error .missingActive)
  | some i =>
      match loadEventLog c false (d.files i) snapshotBoundary false replay with
      | .error (.corrupt reason) => (d.quarantineActive i, .error (.active (.corrupt reason)))
      | .error e => (d, .error (.active e))
      | .ok log => (d.write i log.content, .ok log.replay)

/-- `read_events_since`: the directory it leaves and the events, or `none` when
they are too many to replay. -/
def readEventsSince (d : SessionDir Bytes) (mem : SessionDisk) (after : ℕ) :
    SessionDir Bytes × Except ReadError (Option (List Event)) :=
  let boundary := mem.snapshotBoundary
  if after < boundary then (d, .ok (some []))
  else
    let start : Replay := ⟨{ nextId := boundary }, boundary, some ⟨after, [], 0, false⟩⟩
    match readSegments c boundary mem.segments d start with
    | (d, .error e) => (d, .error e)
    | (d, .ok replay) =>
        if replay.limited then (d, .ok none)
        else
          match readActive c boundary d replay with
          | (d, .error e) => (d, .error e)
          | (d, .ok replay) =>
              (d, .ok (if replay.limited then none
                else some (replay.collected.elim [] EventReplayBuffer.events)))

structure EventsSince where
  events : List Event
  compacted : Bool
  replayLimited : Bool
  deriving DecidableEq

/-- `events_since_locked` of a persisted session. -/
def eventsSinceLocked (d : SessionDir Bytes) (mem : SessionDisk) (journal : Journal) (after : ℕ) :
    SessionDir Bytes × Except ReadError EventsSince :=
  let (events, compacted) := journal.since after
  if !compacted then (d, .ok ⟨events, false, false⟩)
  else if after < mem.snapshotBoundary then (d, .ok ⟨[], true, false⟩)
  else
    match readEventsSince c d mem after with
    | (d, .error e) => (d, .error e)
    | (d, .ok none) => (d, .ok ⟨[], true, true⟩)
    | (d, .ok (some durable)) =>
        if durable.isEmpty && decide (after < journal.nextId) then (d, .ok ⟨[], true, false⟩)
        else (d, .ok ⟨durable, false, false⟩)

/-- What the disk needs to append an event: the identifier a rotation would draw
and whether the sync interval has elapsed. -/
structure AppendChance where
  uuid : Uuid
  elapsed : Bool
  deriving DecidableEq

def Journal.call (j : Journal) (unixMs : ℕ) (kind : EventKind) (chance : AppendChance) :
    AppendCall :=
  ⟨(j.append unixMs kind).2, chance.uuid, chance.elapsed⟩

/-- One session: its storage, its journal, and the log that they stand for. -/
structure SessionState where
  world : World
  journal : Journal
  log : Wal

variable (sessionId : Uuid) (allowed : Wal → LogCall → Prop)

/-- One call under the commit lock, and the event that it publishes. -/
inductive SessionStep (s : SessionState) : Option Event → SessionState → Prop
  | append {w' : World} (unixMs : ℕ) (kind : EventKind) (chance : AppendChance)
      (hallowed : allowed s.log (.append (s.journal.call unixMs kind chance)))
      (hok : Asp.append c s.world (s.journal.call unixMs kind chance) = (w', true)) :
      SessionStep s (some (s.journal.append unixMs kind).2)
        ⟨w', (s.journal.append unixMs kind).1.enforceBounds,
          s.log.append (s.journal.append unixMs kind).2
            (syncedAfter c s.world s.log (s.journal.call unixMs kind chance))⟩
  | refused {w' : World} (unixMs : ℕ) (kind : EventKind) (chance : AppendChance)
      (hallowed : allowed s.log (.append (s.journal.call unixMs kind chance)))
      (herr : Asp.append c s.world (s.journal.call unixMs kind chance) = (w', false)) :
      SessionStep s none
        ⟨w', (s.journal.append unixMs kind).1.rollback (s.journal.append unixMs kind).2, s.log⟩
  | compact {w' : World} {snapshot : SessionSnapshotData}
      (hthrough : snapshot.throughEventId = s.journal.nextId)
      (hid : snapshot.sessionId = sessionId) (hallowed : allowed s.log (.compact snapshot))
      (hok : Asp.compact c s.world snapshot = (w', true)) :
      SessionStep s none ⟨w', s.journal.cleared, Wal.compacted snapshot⟩
  | ack {call : AckCall} (hallowed : allowed s.log (.ack call)) :
      SessionStep s none ⟨(ackEventConsumer c s.world s.journal.nextId call).1, s.journal, s.log⟩

/-- The daemon stops inside `call` and is started again. -/
inductive SessionCrash (stop : Stop) (s : SessionState) (call : LogCall) : SessionState → Prop
  | restart {w₁ : World} {a' : Wal} {e : SessionDir (Cell Bytes)} {d' : SessionDir Bytes}
      {mem : SessionDisk} {loaded : LoadedSession} (hproper : call.Proper sessionId s.log)
      (hallowed : allowed s.log call) (hpass : call.Passes c s.world s.log w₁)
      (hstop : w₁.disk.Stops stop e)
      (hopen : openSession c sessionId (e.map Cell.now) = (d', .ok (mem, loaded)))
      (hsurvives : s.log.Survives call stop a')
      (hsnapshot : e.snapshot = a'.snapshot.map (snapshotFile c)) (hhead : loaded.nextId = a'.head) :
      SessionCrash stop s call ⟨World.opened e d' mem loaded, Journal.fromLoaded loaded,
        a'.settle (World.opened e d' mem loaded)⟩

inductive SessionRun : SessionState → Prop
  | opened {d d' : SessionDir Bytes} {a : Wal} {mem : SessionDisk} {loaded : LoadedSession}
      (hfirst : FirstOpen c d a) (hopen : openSession c sessionId d = (d', .ok (mem, loaded))) :
      SessionRun ⟨World.opened (d.map Cell.stable) d' mem loaded, Journal.fromLoaded loaded, a⟩
  | step {s s' : SessionState} {event : Option Event} (hrun : SessionRun s)
      (hstep : SessionStep c sessionId allowed s event s') : SessionRun s'
  | crash {s s' : SessionState} {stop : Stop} {call : LogCall} (hrun : SessionRun s)
      (hcrash : SessionCrash c sessionId allowed stop s call s') : SessionRun s'

end Read

end Asp
