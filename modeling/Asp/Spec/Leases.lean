import Asp.Lib.Lookup
import Asp.Spec.Journal

/-! The leases of event consumers: `ack_event_consumer` and
`prune_expired_event_consumers_locked` with a write of the sidecar that may
fail, `compact_if_needed`, and the runs of a session that these, its appends and
clean restarts make. -/

namespace Asp

open Std Durable

def eventConsumerLeaseMs : ℕ := 7 * 24 * 60 * 60 * 1000
def eventLogCompactThreshold : ℕ := 256 * 1024 * 1024

/-- The lease has not expired at `now`; the sum saturates. -/
def EventConsumer.leased (consumer : EventConsumer) (now : ℕ) : Bool :=
  decide (min (consumer.lastSeenUnixMs + eventConsumerLeaseMs) (2 ^ 64 - 1) > now)

/-- How `write_atomic_file` ends: it returns `Ok`, it fails before its rename, or
in the sync of the directory after it. -/
inductive AtomicWrite where
  | done
  | failed
  | unsynced
  deriving DecidableEq

section Calls

variable (c : Crates)

/-- The table is replaced, then written; a failed write puts the old one back. -/
def storeEventConsumers (w : World) (consumers : ExtTreeMap String EventConsumer)
    (write : AtomicWrite) : World × Bool :=
  match persistEventConsumers c consumers with
  | none => (w, false)
  | some file =>
      let disk := { w.disk with consumers := some file }
      match write with
      | .done => ({ w with disk := disk, eventConsumers := consumers }, true)
      | .failed => (w, false)
      | .unsynced => ({ w with disk := disk }, false)

/-- `ack_event_consumer` with the journal at `head`. -/
def ackEventConsumerWith (w : World) (head : ℕ) (call : AckCall) (write : AtomicWrite) :
    World × Option ℕ :=
  let existing := w.eventConsumers[call.consumerId]?
  let acknowledged :=
    existing.elim call.throughEventId fun consumer =>
      max consumer.acknowledgedEventId call.throughEventId
  let consumers := w.eventConsumers.insert call.consumerId ⟨acknowledged, call.now⟩
  if !validEventConsumerId call.consumerId then (w, none)
  else if call.throughEventId > head then (w, none)
  else if existing.isNone ∧ w.eventConsumers.size ≥ maxEventConsumersPerSession then (w, none)
  else
    match storeEventConsumers c w consumers write with
    | (w, true) => (w, some acknowledged)
    | (w, false) => (w, none)

/-- `prune_expired_event_consumers_locked`: whether the table changed, or `none` for
an error. -/
def pruneExpiredEventConsumersLocked (w : World) (now : ℕ) (write : AtomicWrite) :
    World × Option Bool :=
  let kept := Lookup.select (fun _ consumer => Option.guard (EventConsumer.leased · now) consumer)
    w.eventConsumers
  if kept = w.eventConsumers then (w, some false)
  else
    match storeEventConsumers c w kept write with
    | (w, true) => (w, some true)
    | (w, false) => (w, none)

/-- A call of `compact_if_needed`: the retention in milliseconds, the clock when it
looks at the leases and when it looks at the oldest event, the tables that
`snapshot_data_filtered` finds, and how the write of the sidecar ends. -/
structure CompactCall where
  retention : Option ℕ
  now : ℕ
  ageNow : ℕ
  tables : SessionSnapshotData
  write : AtomicWrite

inductive CompactOutcome where
  | error
  | kept (consumersPruned : Bool)
  | compacted
  deriving DecidableEq

variable (sessionId : Uuid)

/-- The snapshot of the session through the journal's head. -/
def CompactCall.snapshot (call : CompactCall) (journal : Journal) : SessionSnapshotData :=
  { call.tables with
    sessionId := sessionId
    throughEventId := journal.nextId
    oldestEventUnixMs := none }

def CompactCall.due (call : CompactCall) (w : World) (journal : Journal) : Bool :=
  let sizeDue := decide (w.mem.totalBytes ≥ eventLogCompactThreshold)
  let ageDue := call.retention.any fun retention =>
    journal.oldestEventUnixMs.any fun oldest => decide (call.ageNow - oldest ≥ retention)
  sizeDue || ageDue

/-- `compact_if_needed` of a persisted session. -/
def compactIfNeeded (w : World) (journal : Journal) (call : CompactCall) :
    World × Journal × CompactOutcome :=
  match pruneExpiredEventConsumersLocked c w call.now call.write with
  | (w, none) => (w, journal, .error)
  | (w, some consumersPruned) =>
      let blocked := w.eventConsumers.toList.any fun entry =>
        decide (entry.2.acknowledgedEventId < journal.nextId)
      if !call.due w journal then (w, journal, .kept consumersPruned)
      else if blocked then (w, journal, .kept consumersPruned)
      else
        match compact c w (call.snapshot sessionId journal) with
        | (w, false) => (w, journal, .error)
        | (w, true) => (w, journal.cleared, .compacted)

/-- An append of a record within the loader's limit. -/
def LogCall.FramedAppend : LogCall → Prop
  | .append call => (c.event.encode call.event).length ≤ maxFrameBytes
  | .compact _ | .ack _ | .idle => False

def Wal.maintained (a : Wal) (snapshot : SessionSnapshotData) : CompactOutcome → Wal
  | .compacted => .compacted snapshot
  | .error | .kept _ => a

/-- One call under the commit lock, or a restart of the daemon. The label is the time
at which the call looks at the leases. -/
inductive LeaseStep (s : SessionState) : Option ℕ → SessionState → Prop
  | append {s' : SessionState} {event : Option Event}
      (hstep : SessionStep c sessionId (fun _ call => call.FramedAppend c) s event s') :
      LeaseStep s none s'
  | ack (call : AckCall) (write : AtomicWrite) :
      LeaseStep s none
        ⟨(ackEventConsumerWith c s.world s.journal.nextId call write).1, s.journal, s.log⟩
  | compact {w' : World} {journal' : Journal} {outcome : CompactOutcome} (call : CompactCall)
      (hcall : compactIfNeeded c sessionId s.world s.journal call = (w', journal', outcome)) :
      LeaseStep s (some call.now)
        ⟨w', journal', s.log.maintained (call.snapshot sessionId s.journal) outcome⟩
  | restart {d' : SessionDir Bytes} {mem : SessionDisk} {loaded : LoadedSession}
      (hopen : openSession c sessionId s.world.view = (d', .ok (mem, loaded))) :
      LeaseStep s none ⟨World.opened s.world.disk d' mem loaded, Journal.fromLoaded loaded,
        s.log.settle (World.opened s.world.disk d' mem loaded)⟩

inductive LeaseRun : SessionState → Prop
  | opened {d d' : SessionDir Bytes} {a : Wal} {mem : SessionDisk} {loaded : LoadedSession}
      (hfirst : FirstOpen c d a) (hopen : openSession c sessionId d = (d', .ok (mem, loaded))) :
      LeaseRun ⟨World.opened (d.map Cell.stable) d' mem loaded, Journal.fromLoaded loaded, a⟩
  | step {s s' : SessionState} {reading : Option ℕ} (hrun : LeaseRun s)
      (hstep : LeaseStep c sessionId s reading s') : LeaseRun s'

/-- A step that does not find the lease of `id` expired. -/
def LeaseHolds (id : String) (s : SessionState) (reading : Option ℕ) : Prop :=
  ∀ now ∈ reading, ∀ consumer ∈ s.world.eventConsumers[id]?, consumer.leased now = true

/-- Steps none of which finds the lease of `id` expired. -/
inductive LeasedRun (id : String) (s : SessionState) : SessionState → Prop
  | start : LeasedRun id s s
  | step {s₁ s₂ : SessionState} {reading : Option ℕ} (hrun : LeasedRun id s s₁)
      (hstep : LeaseStep c sessionId s₁ reading s₂) (hholds : LeaseHolds id s₁ reading) :
      LeasedRun id s s₂

/-- The lease of `id` lives: an acknowledgement gave or renewed it, and no step
since then has found it expired. -/
inductive Leased (id : String) : SessionState → Prop
  | acked {s s' : SessionState} {call : AckCall} {write : AtomicWrite} {acknowledged : ℕ}
      (hrun : LeaseRun c sessionId s) (hid : call.consumerId = id)
      (hok : (ackEventConsumerWith c s.world s.journal.nextId call write).2 = some acknowledged)
      (hafter : LeasedRun c sessionId id
        ⟨(ackEventConsumerWith c s.world s.journal.nextId call write).1, s.journal, s.log⟩ s') :
      Leased id s'

end Calls

end Asp
