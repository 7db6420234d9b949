import Asp.Spec.Pty

/-! A PTY attachment with a record of what its client was given: the generations of the
states that the client took over, and the chunks that it read. -/

namespace Asp

/-- The generation of a snapshot on the stream. -/
def PtyFrame.snapshotGeneration : PtyFrame → Option ℕ
  | .ready snapshot => some snapshot.generation
  | .readyRich snapshot => some snapshot.generation
  | _ => none

def PtyFrame.chunk : PtyFrame → Option Bytes
  | .output _ data => some data
  | _ => none

/-- The state that the client takes over from a datagram. A delta that applies makes a full
state of the one that the client has. -/
def PtyClient.takes (sessionId : Uuid) (datagram : PtyDatagram) (client : PtyClient) : Option ℕ :=
  match datagram with
  | .delta delta _ =>
      if delta.sessionId = sessionId ∧ delta.generation ≥ client.newestGeneration ∧
          (client.plainScreenState.any fun screen => (screen.applyDelta delta).2.isSome) then
        some delta.generation
      else none
  | .rich session snapshot =>
      if session = sessionId ∧ client.newestGeneration < snapshot.generation then
        some snapshot.generation
      else none
  | .full datagram =>
      if datagram.sessionId = sessionId ∧ client.newestGeneration < datagram.generation then
        some datagram.generation
      else none

/-- The state that the client takes over from a frame: the first one in any case. -/
def takesFrame (client : Option PtyClient) (frame : PtyFrame) : Option ℕ :=
  frame.snapshotGeneration.filter fun generation =>
    client.all fun client => client.newestGeneration < generation

structure WatchedPty (τ : Type) where
  world : PtyWorld τ
  states : List ℕ
  received : List Bytes

namespace WatchedPty

variable {τ : Type} (T : Terminal τ) (encoding : PtyEncoding) (sessionId : Uuid)
  (features : PtyFeatures)

def spawned (rows cols generation : ℕ) : WatchedPty τ :=
  ⟨.spawned T rows cols generation, [], []⟩

def frameRead (w : PtyWorld τ) : PtyAction → Option PtyFrame
  | .readFrame => w.attachment.written[w.read]?
  | _ => none

def datagramRead (w : PtyWorld τ) : PtyAction → Option PtyDatagram
  | .readDatagram i => w.datagrams[i]?
  | _ => none

def stateTaken (w : PtyWorld τ) (action : PtyAction) : Option ℕ :=
  ((frameRead w action).bind (takesFrame w.client)).or <|
    (datagramRead w action).bind fun datagram =>
      w.client.bind fun client => client.takes sessionId datagram

def act (action : PtyAction) (w : WatchedPty τ) : Option (WatchedPty τ) :=
  (w.world.act T encoding sessionId features action).map fun world =>
    ⟨world, (stateTaken sessionId w.world action).toList ++ w.states,
      w.received ++ ((frameRead w.world action).bind (·.chunk)).toList⟩

end WatchedPty

def watchedPtyMachine {τ : Type} (T : Terminal τ) (encoding : PtyEncoding) (sessionId : Uuid)
    (features : PtyFeatures) : Steps.Machine PtyAction (WatchedPty τ) where
  act := WatchedPty.act T encoding sessionId features
  fault _ _ := []

namespace WatchedPty

variable {τ : Type}

/-- The next frame is a snapshot of this generation, and the guard makes the client leave
it. -/
def Ignores (w : WatchedPty τ) (generation : ℕ) : Prop :=
  ∃ frame client, w.world.attachment.written[w.world.read]? = some frame ∧
    frame.snapshotGeneration = some generation ∧ w.world.client = some client ∧
    generation ≤ client.newestGeneration

/-- The client has every chunk up to this generation, or took over a state that is as new, be it
one that an applied delta made. -/
def Covered (base generation : ℕ) (w : WatchedPty τ) : Prop :=
  (w.world.chunks.take (generation - base)).Sublist w.received ∨
    ∃ state ∈ w.states, generation ≤ state

/-- When an output frame is written, the screen is ahead of the receiver by no more chunks
than the channel keeps. -/
def KeepsUp (w : WatchedPty τ) (action : PtyAction) : Prop :=
  action = .writeOutput →
    w.world.chunks.length ≤ w.world.attachment.position + ptyOutputCapacity

end WatchedPty

end Asp
