import Asp.Lib.Broadcast
import Asp.Spec.Journal

/-! Event subscriptions: `Session::subscribe_events`, `event_matches_subscription`
and `stream_event_subscription`, and the daemon with any number of streams beside
one session. `append_locked` publishes under the commit lock; each write to a
stream is a step of its own. -/

namespace Asp

open Std Durable

def eventSubscriberCapacity : ℕ := 256

/-- What a client asks for; `marker` is the negotiated feature
`event_consumer_leases`. -/
structure SubscribeRequest where
  afterEventId : ℕ
  processId : Option Uuid
  includeOutput : Bool
  marker : Bool
  deriving DecidableEq

def EventKind.isOutput : EventKind → Bool
  | .processOutput .. => true
  | _ => false

def EventKind.process : EventKind → Option Uuid
  | .processStarted processId _ _ _ | .processOutput processId _ _ _ | .processExited processId _
  | .signalApplied _ _ processId _ _ _ => some processId
  | _ => none

def eventMatchesSubscription (event : Event) (processId : Option Uuid) (includeOutput : Bool) : Bool :=
  if !includeOutput && event.kind.isOutput then false
  else processId.all fun wanted => event.kind.process = some wanted

inductive StreamFrame where
  | ready (throughEventId retainedFromEventId : ℕ) (compacted : Bool)
  | notification (event : Event)
  | caughtUp (throughEventId : ℕ)
  | error (code message : String)
  deriving DecidableEq

def StreamFrame.event : StreamFrame → Option Event
  | .notification event => some event
  | .ready .. | .caughtUp _ | .error .. => none

inductive StreamPhase where
  /-- `SubscriptionReady` is to be written. -/
  | ready
  | starting
  | backlog
  | live
  | finished
  deriving DecidableEq

structure EventStream where
  request : SubscribeRequest
  throughEventId : ℕ
  retainedFromEventId : ℕ
  compacted : Bool
  backlog : List Event
  position : ℕ
  phase : StreamPhase
  written : List StreamFrame
  deriving DecidableEq

/-- What the surroundings decide at a step of a stream. -/
inductive StreamChoice where
  | proceed
  /-- The credential is found to be revoked. -/
  | revoked
  /-- The write fails, the peer is gone or the channel is closed. -/
  | stopped
  deriving DecidableEq

namespace EventStream

def keeps (stream : EventStream) (event : Event) : Bool :=
  eventMatchesSubscription event stream.request.processId stream.request.includeOutput

def write (stream : EventStream) (frames : List StreamFrame) : EventStream :=
  { stream with written := stream.written ++ frames }

/-- The notification of an event, if the filter keeps it. -/
def notify (stream : EventStream) (event : Event) : List StreamFrame :=
  if stream.keeps event then [.notification event] else []

def finish (stream : EventStream) (frames : List StreamFrame) : EventStream :=
  { stream.write frames with phase := .finished }

def revokedFrame : StreamFrame :=
  .error "authentication_revoked" "event subscription credential was revoked"

def laggedFrame (skipped : ℕ) : StreamFrame :=
  .error "subscription_lagged"
    s!"subscriber queue dropped {skipped} events; resume from the last durable event cursor"

/-- `receiver.recv()` and what the loop does with it. -/
def receive (capacity : ℕ) (published : List Event) (stream : EventStream) : EventStream :=
  match Broadcast.recv capacity published stream.position with
  | (.value event, next) => { stream.write (stream.notify event) with position := next }
  | (.lagged skipped, next) => { stream.finish [laggedFrame skipped] with position := next }
  | (.empty, _) => stream

/-- One step of `stream_event_subscription`. -/
def step (capacity : ℕ) (published : List Event) (choice : StreamChoice) (stream : EventStream) :
    EventStream :=
  match stream.phase, choice with
  | .finished, _ => stream
  | _, .stopped => stream.finish []
  | .ready, _ =>
      { stream.write [.ready stream.throughEventId stream.retainedFromEventId stream.compacted] with
        phase := .starting }
  | .starting, .proceed => { stream with phase := .backlog }
  | .starting, .revoked => stream.finish [revokedFrame]
  | .backlog, choice =>
      match stream.backlog with
      | [] =>
          { stream.write (if stream.request.marker then [.caughtUp stream.throughEventId] else []) with
            phase := .live }
      | event :: rest =>
          if choice = .revoked then stream.finish [revokedFrame]
          else { stream.write (stream.notify event) with backlog := rest }
  | .live, .revoked => stream.finish [revokedFrame]
  | .live, .proceed => stream.receive capacity published

def notified (stream : EventStream) : List Event := stream.written.filterMap StreamFrame.event

/-- The cursor that the stream starts from: a compacted one starts at its snapshot. -/
def start (stream : EventStream) : ℕ :=
  if stream.compacted then stream.throughEventId else stream.request.afterEventId

end EventStream

inductive SubscribeError where
  | ahead (afterEventId head : ℕ)
  | read (error : ReadError)
  deriving DecidableEq

section Daemon

variable (c : Crates)

/-- `subscribe_events`, with the receiver at the end of the channel. -/
def subscribeEvents (s : SessionState) (published : List Event) (request : SubscribeRequest) :
    SessionDir Bytes × Except SubscribeError EventStream :=
  if request.afterEventId > s.journal.nextId then
    (s.world.view, .error (.ahead request.afterEventId s.journal.nextId))
  else
    match eventsSinceLocked c s.world.view s.world.mem s.journal request.afterEventId with
    | (d, .error e) => (d, .error (.read e))
    | (d, .ok reply) =>
        (d, .ok
          { request := request
            throughEventId := s.journal.nextId
            retainedFromEventId := s.journal.retainedFromEventId
            compacted := reply.compacted
            backlog := reply.events
            position := published.length
            phase := .ready
            written := [] })

/-- A session and the streams of its subscribers. `history` has every event of the
session, also those that were compacted; `past` what earlier incarnations of the
daemon wrote to their streams. -/
structure Daemon where
  session : SessionState
  history : List Event
  published : List Event
  streams : List EventStream
  past : List Event

def Daemon.sent (d : Daemon) : List Event := d.past ++ d.streams.flatMap EventStream.notified

def Daemon.SentDurable (d : Daemon) : Prop := ∀ e ∈ d.sent, e.id ≤ d.session.log.durableHead

def LogCall.appended : LogCall → List Event
  | .append call => [call.event]
  | .compact _ | .ack _ | .idle => []

variable (sessionId : Uuid) (capacity : ℕ) (allowed : Wal → LogCall → Prop)

inductive DaemonStep (d : Daemon) : Daemon → Prop
  | call {event : Option Event} {s' : SessionState}
      (hstep : SessionStep c sessionId allowed d.session event s') :
      DaemonStep d { d with
        session := s'
        history := d.history ++ event.toList
        published := d.published ++ event.toList }
  | subscribe {request : SubscribeRequest} {stream : EventStream}
      (hok : subscribeEvents c d.session d.published request = (d.session.world.view, .ok stream)) :
      DaemonStep d { d with streams := stream :: d.streams }
  | stream (i : ℕ) (choice : StreamChoice) :
      DaemonStep d { d with streams := d.streams.modify i (EventStream.step capacity d.published choice) }

/-- Runs of the daemon. It may be killed at any time, and the machine loses power only in
states that `guard` lets it. -/
inductive DaemonRun (guard : Daemon → Prop) : Daemon → Prop
  | opened {d d' : SessionDir Bytes} {a : Wal} {mem : SessionDisk} {loaded : LoadedSession}
      (hfirst : FirstOpen c d a) (hopen : openSession c sessionId d = (d', .ok (mem, loaded))) :
      DaemonRun guard
        ⟨⟨World.opened (d.map Cell.stable) d' mem loaded, Journal.fromLoaded loaded, a⟩, a.events,
          [], [], []⟩
  | step {d d' : Daemon} (hrun : DaemonRun guard d)
      (hstep : DaemonStep c sessionId capacity allowed d d') : DaemonRun guard d'
  | crash {d : Daemon} {stop : Stop} {call : LogCall} {s' : SessionState}
      (hrun : DaemonRun guard d) (hguard : stop = .powerLoss → guard d)
      (hcrash : SessionCrash c sessionId allowed stop d.session call s') :
      DaemonRun guard ⟨s', (d.history ++ call.appended).take s'.log.head, [], [], d.sent⟩

end Daemon

end Asp
