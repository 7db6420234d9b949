import Asp.Spec.Subscription

/-! `subscribe_events` of the client, the command `asp events`: it subscribes, prints the
events that come, keeps a cursor in memory and in the session file, and subscribes again
when the connection is lost. It runs beside the daemon, whose session it follows. The
delays between attempts and the acknowledgements to the daemon are left out. -/

namespace Asp

structure EventsCommand where
  requestedAfterEventId : Option ℕ
  processId : Option Uuid
  includeOutput : Bool
  deriving DecidableEq

/-- The cursor that the command is asked to start from, where the file has `saved`. -/
def EventsCommand.cursor (command : EventsCommand) (saved : ℕ) : ℕ :=
  command.requestedAfterEventId.getD saved

def EventsCommand.wants (command : EventsCommand) (event : Event) : Bool :=
  eventMatchesSubscription event command.processId command.includeOutput

inductive FollowPhase where
  | connected
  /-- The request is written. -/
  | requested (afterEventId : ℕ)
  /-- `read` frames of the stream `index`, in the order of the subscriptions, are read. -/
  | attached (index read : ℕ)
  | reconnecting
  | ended
  deriving DecidableEq

/-- `save`: the file is written and synced, not written, or written and not synced. -/
inductive SaveOutcome where
  | saved
  | unwritten
  | unsynced
  deriving DecidableEq

/-- `lastEventId` is the cursor in memory and `savedCursor` the one in the session file.
`boundaries` has the cursor and the new one at each notice of compacted history. -/
structure Follower where
  lastEventId : ℕ
  savedCursor : ℕ
  firstSubscription : Bool
  phase : FollowPhase
  printed : List Event
  boundaries : List (ℕ × ℕ)
  deriving DecidableEq

namespace Follower

/-- After `ensure_session`. -/
def start (saved : ℕ) : Follower := ⟨saved, saved, true, .connected, [], []⟩

def advanceEventCursor (f : Follower) (eventId : ℕ) : Follower :=
  { f with lastEventId := max f.lastEventId eventId }

/-- `save`, which never moves the cursor of the file back; an error ends the command. -/
def save (f : Follower) (outcome : SaveOutcome) : Follower :=
  match outcome with
  | .saved => { f with savedCursor := max f.savedCursor f.lastEventId }
  | .unwritten => { f with phase := .ended }
  | .unsynced => { f with savedCursor := max f.savedCursor f.lastEventId, phase := .ended }

def afterEventId (command : EventsCommand) (f : Follower) : ℕ :=
  if f.firstSubscription then command.requestedAfterEventId.getD f.lastEventId else f.lastEventId

def attempt (command : EventsCommand) (f : Follower) : Follower :=
  { f with firstSubscription := false, phase := .requested (f.afterEventId command) }

def print (f : Follower) (event : Event) : Follower :=
  { f with printed := f.printed ++ [event] }

/-- The cursor moves to the boundary of compacted history. -/
def skipTo (f : Follower) (throughEventId : ℕ) : Follower :=
  { f.advanceEventCursor throughEventId with
    boundaries := f.boundaries ++ [(f.lastEventId, throughEventId)] }

/-- One response; `due` says that the last save is 250 ms ago. -/
def receive (f : Follower) (due : Bool) (outcome : SaveOutcome) : StreamFrame → Follower
  | .ready throughEventId _ compacted =>
      if compacted then (f.skipTo throughEventId).save outcome else f
  | .caughtUp throughEventId => (f.advanceEventCursor throughEventId).save outcome
  | .notification event =>
      if event.id ≤ f.lastEventId then f
      else if !event.kind.isOutput || due then
        ((f.print event).advanceEventCursor event.id).save outcome
      else (f.print event).advanceEventCursor event.id
  | .error code _ =>
      if code = "subscription_lagged" then { f with phase := .reconnecting }
      else { f with phase := .ended }

/-- An event that a notice of compacted history covers. -/
def skips (f : Follower) (eventId : ℕ) : Bool :=
  f.boundaries.any fun boundary => boundary.1 < eventId && eventId ≤ boundary.2

def isOpen (f : Follower) : Bool :=
  match f.phase with
  | .requested _ | .attached .. => true
  | .connected | .reconnecting | .ended => false

def severed (f : Follower) : Follower := if f.isOpen then { f with phase := .reconnecting } else f

end Follower

structure FollowWorld where
  daemon : Daemon
  follower : Follower

section Runs

variable (c : Crates) (sessionId : Uuid) (capacity : ℕ) (allowed : Wal → LogCall → Prop)
  (command : EventsCommand)

/-- A step of the daemon or of the command, which subscribes only where `asks` lets it. -/
inductive FollowStep (asks : Follower → Prop) (w : FollowWorld) : FollowWorld → Prop
  | daemon {d' : Daemon} (hstep : DaemonStep c sessionId capacity allowed w.daemon d') :
      FollowStep asks w { w with daemon := d' }
  | attempt (hphase : w.follower.phase = .connected) (hasks : asks w.follower) :
      FollowStep asks w { w with follower := w.follower.attempt command }
  | accept {after : ℕ} {marker : Bool} {stream : EventStream}
      (hphase : w.follower.phase = .requested after)
      (hok : subscribeEvents c w.daemon.session w.daemon.published
        ⟨after, command.processId, command.includeOutput, marker⟩ =
          (w.daemon.session.world.view, .ok stream)) :
      FollowStep asks w
        ⟨{ w.daemon with streams := stream :: w.daemon.streams },
          { w.follower with phase := .attached w.daemon.streams.length 0 }⟩
  | read {index read : ℕ} {stream : EventStream} {frame : StreamFrame} (due : Bool)
      (outcome : SaveOutcome) (hphase : w.follower.phase = .attached index read)
      (hstream : w.daemon.streams.reverse[index]? = some stream)
      (hframe : stream.written[read]? = some frame) :
      FollowStep asks w { w with follower :=
        { w.follower with phase := .attached index (read + 1) }.receive due outcome frame }
  /-- The request is refused, or a response of the stream is. -/
  | refused (code message : String) (hopen : w.follower.isOpen = true) :
      FollowStep asks w { w with follower := w.follower.receive false .saved (.error code message) }
  /-- The stream ends, or the connection is lost. -/
  | lose (hopen : w.follower.isOpen = true) :
      FollowStep asks w { w with follower := { w.follower with phase := .reconnecting } }
  | reconnect (hphase : w.follower.phase = .reconnecting) :
      FollowStep asks w { w with follower := { w.follower with phase := .connected } }
  /-- Ctrl-C. -/
  | detach (outcome : SaveOutcome) :
      FollowStep asks w { w with follower := { w.follower.save outcome with phase := .ended } }
  /-- An error that is not retried, or the end of the client's process. -/
  | stop : FollowStep asks w { w with follower := { w.follower with phase := .ended } }

/-- Runs of the command, which starts beside a running daemon with the cursor `saved` in
its file. The daemon may be killed at any time, and loses power only where `crashes` lets
it; what it sent before is read before. -/
inductive FollowRun (asks : Follower → Prop) (crashes : FollowWorld → Prop) (saved : ℕ) :
    FollowWorld → Prop
  | started {d : Daemon} (hrun : DaemonRun c sessionId capacity allowed (fun _ => True) d) :
      FollowRun asks crashes saved ⟨d, .start saved⟩
  | step {w w' : FollowWorld} (hrun : FollowRun asks crashes saved w)
      (hstep : FollowStep c sessionId capacity allowed command asks w w') :
      FollowRun asks crashes saved w'
  | crash {w : FollowWorld} {stop : Stop} {call : LogCall} {s' : SessionState}
      (hrun : FollowRun asks crashes saved w) (hguard : stop = .powerLoss → crashes w)
      (hcrash : SessionCrash c sessionId allowed stop w.daemon.session call s') :
      FollowRun asks crashes saved
        ⟨⟨s', (w.daemon.history ++ call.appended).take s'.log.head, [], [], w.daemon.sent⟩,
          w.follower.severed⟩

/-- A later subscription is not made before the requested cursor is reached. -/
def AsksInOrder (saved : ℕ) (f : Follower) : Prop :=
  f.firstSubscription = false → command.cursor saved ≤ f.lastEventId

/-- The cursor has not passed the requested one, or what it has passed is on disk. -/
def FollowWorld.OnDisk (saved : ℕ) (w : FollowWorld) : Prop :=
  w.follower.lastEventId ≤ command.cursor saved ∨
    w.follower.lastEventId ≤ w.daemon.session.log.durableHead

end Runs

end Asp
