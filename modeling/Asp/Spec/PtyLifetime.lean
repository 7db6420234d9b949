import Asp.Spec.Pty

/-! Who holds a PTY, and when its output channel closes. A `PersistentPty` has a sender of
the channel and its reader thread has another; the object lives as long as the session's
slot, a task or the call that spawned it has an `Arc` of it. -/

namespace Asp

/-- What there is of a PTY: the chunks in its channel and its reader thread. -/
structure PtyObject where
  sent : List Bytes
  readerRuns : Bool
  deriving DecidableEq

inductive PtyTaskKind where
  /-- The task that persists generations. -/
  | tracker
  | attachment
  /-- The thread of `write_async`, which has no receiver. -/
  | write
  deriving DecidableEq

/-- A task with an `Arc` of the PTY; `position` is its receiver, from `subscribe` on. -/
structure PtyTask where
  kind : PtyTaskKind
  pty : ℕ
  position : Option ℕ
  runs : Bool
  deriving DecidableEq

/-- The PTYs of one session, numbered as they were spawned. `launching` is the one that
`ensure_session_pty` has spawned and not yet put into the slot. -/
structure PtyHolders where
  ptys : List PtyObject
  slot : Option ℕ
  launching : Option ℕ
  tasks : List PtyTask
  deriving DecidableEq

inductive PtyLifetimeAction where
  /-- `ensure_session_pty` with an empty slot spawns a PTY. -/
  | launch
  /-- Appending the event fails. -/
  | failLaunch
  /-- The tracker is started, the slot filled and the PTY returned to `handle_pty`. -/
  | install
  /-- `ensure_session_pty` with a PTY in the slot. -/
  | reuse
  | publish (pty : ℕ) (chunk : Bytes)
  /-- The reader's `read` returns nothing, or an error. -/
  | endReader (pty : ℕ)
  | subscribe (task : ℕ)
  | recv (task : ℕ)
  | write (task : ℕ)
  /-- The task is over for another reason than a closed channel. -/
  | leave (task : ℕ)
  deriving DecidableEq

namespace PtyHolders

def started : PtyHolders := ⟨[], none, none, []⟩

def readerRuns (w : PtyHolders) (pty : ℕ) : Bool := w.ptys[pty]?.any (·.readerRuns)

def sent (w : PtyHolders) (pty : ℕ) : List Bytes := (w.ptys[pty]?.map (·.sent)).getD []

def held (w : PtyHolders) (pty : ℕ) : Bool :=
  w.slot = some pty || w.launching = some pty || w.tasks.any fun task => task.runs && task.pty = pty

def senders (w : PtyHolders) (pty : ℕ) : ℕ := (w.readerRuns pty).toNat + (w.held pty).toNat

def poll (w : PtyHolders) (task : PtyTask) (position : ℕ) : Option (Broadcast.Received Bytes) × ℕ :=
  Broadcast.poll ptyOutputCapacity (w.sent task.pty) (w.senders task.pty) position

def setTask (i : ℕ) (task : PtyTask) (w : PtyHolders) : PtyHolders :=
  { w with tasks := w.tasks.set i task }

def spawnTask (task : PtyTask) (w : PtyHolders) : PtyHolders := { w with tasks := w.tasks ++ [task] }

/-- The PTY that `ensure_session_pty` returns in this step. -/
def ensured (w : PtyHolders) : PtyLifetimeAction → Option ℕ
  | .install => w.launching
  | .reuse => w.slot
  | _ => none

def act (action : PtyLifetimeAction) (w : PtyHolders) : Option PtyHolders :=
  match action with
  | .launch =>
      -- the session's lock is held from here to `install`
      if w.slot.isNone && w.launching.isNone then
        some { w with ptys := w.ptys ++ [⟨[], true⟩], launching := some w.ptys.length }
      else none
  | .failLaunch => w.launching.map fun _ => { w with launching := none }
  | .install =>
      w.launching.map fun pty =>
        ({ w with slot := some pty, launching := none }.spawnTask
          ⟨.tracker, pty, some (w.sent pty).length, true⟩).spawnTask ⟨.attachment, pty, none, true⟩
  | .reuse => w.slot.map fun pty => w.spawnTask ⟨.attachment, pty, none, true⟩
  | .publish pty chunk =>
      if w.readerRuns pty then
        some { w with ptys := w.ptys.set pty ⟨w.sent pty ++ [chunk], true⟩ }
      else none
  | .endReader pty =>
      if w.readerRuns pty then some { w with ptys := w.ptys.set pty ⟨w.sent pty, false⟩ } else none
  | .subscribe i =>
      w.tasks[i]?.bind fun task =>
        if task.runs && task.kind = .attachment && task.position.isNone then
          some (w.setTask i { task with position := some (w.sent task.pty).length })
        else none
  | .recv i =>
      w.tasks[i]?.bind fun task =>
        if task.runs then
          task.position.bind fun position =>
            match w.poll task position with
            | (none, _) => some (w.setTask i { task with runs := false })
            | (some .empty, _) => none
            | (some _, next) => some (w.setTask i { task with position := some next })
        else none
  | .write i =>
      w.tasks[i]?.bind fun task =>
        if task.runs && task.kind = .attachment && task.position.isSome then
          some (w.spawnTask ⟨.write, task.pty, none, true⟩)
        else none
  | .leave i =>
      w.tasks[i]?.bind fun task =>
        if task.runs then some (w.setTask i { task with runs := false }) else none

end PtyHolders

def ptyLifetimeMachine : Steps.Machine PtyLifetimeAction PtyHolders where
  act := PtyHolders.act
  fault _ _ := []

namespace PtyHolders

structure CaughtUp (w : PtyHolders) (task : PtyTask) (position : ℕ) : Prop where
  mem : task ∈ w.tasks
  runs : task.runs = true
  subscribed : task.position = some position
  all : position = (w.sent task.pty).length

/-- The end of the reader is seen by whoever has received all chunks, and the PTY is not
returned any more. -/
structure FinishedIsSeen (w : PtyHolders) : Prop where
  closed : ∀ task position, w.CaughtUp task position → w.readerRuns task.pty = false →
    (w.poll task position).1 = none
  ensured : ∀ action w' pty, w.act action = some w' → w.ensured action = some pty →
    w.readerRuns pty = true

/-- The reader of a PTY ends only when nobody has the PTY. -/
def EndsUnheld (w : PtyHolders) (action : PtyLifetimeAction) : Prop :=
  ∀ pty, action = .endReader pty → w.held pty = false

end PtyHolders

end Asp
