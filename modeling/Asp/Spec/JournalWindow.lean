import Asp.Lib.Loop
import Asp.Spec.Journal

/-! The events that a session keeps in memory: the loops of
`Journal::enforce_bounds` and `LoadedSession::push`, and every way in which the
journal of a session changes. The byte counts are far from the width of `usize`,
so that only their subtractions can saturate. -/

namespace Asp

open Loop

structure Window where
  events : List Event
  approxBytes : ℕ
  deriving DecidableEq

namespace Window

def overBounds (v : Window) : Bool :=
  decide (v.events.length > journalMaxEvents) || decide (v.approxBytes > journalMaxBytes)

/-- The body of the loops; it does nothing to an empty window. -/
def popFront (v : Window) : Window :=
  match v.events with
  | [] => v
  | old :: events => ⟨events, v.approxBytes - eventApproxBytes old⟩

/-- The loop from `v` ends in `v'`. -/
abbrev Bounds : Window → Window → Prop := While overBounds popFront

end Window

def Journal.window (j : Journal) : Window := ⟨j.events, j.approxBytes⟩

def LoadedSession.window (s : LoadedSession) : Window := ⟨s.events, s.approxBytes⟩

/-- The window of `push` when its loop begins. -/
def LoadedSession.pushed (s : LoadedSession) (event : Event) : Window :=
  ⟨s.events ++ [event], s.approxBytes + eventApproxBytes event⟩

/-- The ids count up to `last`. -/
def Consecutive (events : List Event) (last : ℕ) : Prop :=
  events = [] ∨ ∃ first, events.map Event.id = List.range' first events.length ∧
    first + events.length = last + 1

section Runs

variable (c : Crates) (sessionId : Uuid)

/-- The states of a session while it is loaded: what a snapshot gives, and the
events after it, materialized or only counted. -/
inductive LoadRun : LoadedSession → Prop
  | empty : LoadRun {}
  | snapshot (snapshot : SessionSnapshotData) : LoadRun (.fromSnapshot c.sha256 snapshot)
  | push {s : LoadedSession} (event : Event) (hrun : LoadRun s) : LoadRun (s.push c.sha256 event)
  | count {s : LoadedSession} (id : ℕ) (hrun : LoadRun s) : LoadRun { s with nextId := id }

/-- The journals of a session, over any contents of its directory when it is
opened and any outcome of its writes. -/
inductive JournalRun : Journal → Prop
  /-- A session that is not persisted. -/
  | created : JournalRun (.fromLoaded {})
  | opened {d d' : SessionDir Bytes} {mem : SessionDisk} {loaded : LoadedSession}
      (hopen : openSession c sessionId d = (d', .ok (mem, loaded))) :
      JournalRun (.fromLoaded loaded)
  | append {j : Journal} (unixMs : ℕ) (kind : EventKind) (hrun : JournalRun j) :
      JournalRun (j.append unixMs kind).1.enforceBounds
  | refused {j : Journal} (unixMs : ℕ) (kind : EventKind) (hrun : JournalRun j) :
      JournalRun ((j.append unixMs kind).1.rollback (j.append unixMs kind).2)
  | compact {j : Journal} (hrun : JournalRun j) : JournalRun j.cleared

end Runs

end Asp
