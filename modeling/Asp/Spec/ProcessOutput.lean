import Asp.Spec.Journal

/-! The output of one persisted process: `read_new_bytes_with_limit`,
`drain_persistent_stream`, `drain_persistent_output_until_quiet`, the exit path of
`monitor_persistent_process`, and the two ways to a summary
(`persisted_process_summary` and `ProcessSummaryAccumulator`). The process writes its
logs, other parts of the session append their events, appends can fail, and the
daemon can be killed or lose power between any two steps. -/

namespace Asp

open Durable

def processOutputMaxBytes : ℕ := 512 * 1024 * 1024
def processLogReadBatchBytes : ℕ := 256 * 1024
def processExitDrainRounds : ℕ := 500
def processExitIdleRounds : ℕ := 3

namespace ProcessRecord

def bytes (record : ProcessRecord) : OutputStream → ℕ
  | .stdout => record.stdoutBytes
  | .stderr => record.stderrBytes

def setBytes (stream : OutputStream) (bytes : ℕ) (record : ProcessRecord) : ProcessRecord :=
  match stream with
  | .stdout => { record with stdoutBytes := bytes }
  | .stderr => { record with stderrBytes := bytes }

end ProcessRecord

def processOutputWithinLimit (record : ProcessRecord) (additionalBytes : ℕ) : Bool :=
  saturatingAdd (saturatingAdd record.stdoutBytes record.stderrBytes) additionalBytes ≤
    processOutputMaxBytes

/-- The process that an event of the process tables is about. -/
def EventKind.processOf : EventKind → Option Uuid
  | .processStarted id _ _ _ | .processOutput id _ _ _ | .processExited id _ => some id
  | _ => none

/-- The bytes of an event for one stream of the process. -/
def Event.outputOf (processId : Uuid) (stream : OutputStream) (event : Event) : Bytes :=
  match event.kind with
  | .processOutput id from' _ data => if id = processId ∧ from' = stream then data else []
  | _ => []

def loggedOutput (processId : Uuid) (stream : OutputStream) (events : List Event) : Bytes :=
  events.flatMap (Event.outputOf processId stream)

inductive DrainError where
  /-- "process output exceeds ... byte limit" -/
  | exceedsLimit
  /-- "persistent process log shrank below durable cursor (... < ...)" -/
  | logShrank (length cursor : ℕ)
  | io
  /-- The event could not be appended. -/
  | append
  deriving DecidableEq

/-- The loop of reads into a buffer of `wanted` bytes: how many arrive. A read takes
what the file gives, one that gives nothing ends the loop, and after the listed ones
a read gives all that is wanted. -/
def readLoop : List ℕ → ℕ → ℕ
  | [], wanted => wanted
  | count :: counts, wanted =>
      if count = 0 then 0
      else min count wanted + readLoop counts (wanted - min count wanted)

/-- The bytes read; the cursor moves by their number. -/
def readNewBytesWithLimit (file : Bytes) (offset maximumBytes : ℕ) (reads : List ℕ) :
    Except DrainError Bytes :=
  if file.length > processOutputMaxBytes then .error .exceedsLimit
  else if file.length < offset then .error (.logShrank file.length offset)
  else .ok ((file.drop offset).take (readLoop reads (min (file.length - offset) maximumBytes)))

inductive AppendOutcome where
  /-- The event and all before it are on disk. -/
  | synced
  /-- The event waits for the next group commit. -/
  | buffered
  | failed
  /-- The event was written and taken back, neither of which is on disk. -/
  | undone
  deriving DecidableEq

/-- What happens around one call of `drain_persistent_stream`. -/
structure DrainChance where
  readOk : Bool
  reads : List ℕ
  syncOk : Bool
  append : AppendOutcome
  unixMs : ℕ
  deriving DecidableEq

inductive OutputMonitor where
  | stopped
  | running (offset : OutputStream → ℕ)
  /-- A log or an append failed: the process is to be ended. -/
  | failing

/-- `synced` says how many bytes of a log are on disk, `record` is the entry of the
process table. -/
structure OutputWorld where
  log : OutputStream → Bytes
  synced : OutputStream → ℕ
  journal : Kept (List Event)
  nextId : ℕ
  record : Option ProcessRecord
  monitor : OutputMonitor

namespace OutputWorld

def start : OutputWorld := ⟨fun _ => [], fun _ => 0, .stable [], 0, none, .stopped⟩

def grow (data : OutputStream → Bytes) (w : OutputWorld) : OutputWorld :=
  { w with log := fun stream => w.log stream ++ data stream }

/-- `append_locked`: whether the event is in the journal, and the world. -/
def append (unixMs : ℕ) (kind : EventKind) (outcome : AppendOutcome) (w : OutputWorld) :
    Bool × OutputWorld :=
  let events := w.journal.now ++ [⟨w.nextId + 1, unixMs, kind⟩]
  match outcome with
  | .synced => (true, { w with journal := .stable events, nextId := w.nextId + 1 })
  | .buffered => (true, { w with journal := w.journal.change events, nextId := w.nextId + 1 })
  | .failed => (false, w)
  | .undone => (false, { w with journal := w.journal.undone events })

section Monitor

variable (processId : Uuid)

/-- The part of `drain_persistent_stream` behind the read: the log is synced, then the
event is appended and the record follows, both under the commit lock. -/
def publish (stream : OutputStream) (chance : DrainChance) (offset : OutputStream → ℕ)
    (data : Bytes) (w : OutputWorld) : Except DrainError (OutputStream → ℕ) × OutputWorld :=
  if chance.syncOk = false then (.error .io, w)
  else
    let w := { w with synced := Function.update w.synced stream (w.log stream).length }
    if !w.record.any (processOutputWithinLimit · data.length) then (.error .exceedsLimit, w)
    else
      match w.append chance.unixMs (.processOutput processId stream (offset stream) data)
          chance.append with
      | (false, w) => (.error .append, w)
      | (true, w) =>
          let moved := offset stream + data.length
          (.ok (Function.update offset stream moved),
            { w with record := w.record.map (ProcessRecord.setBytes stream moved) })

def drainPersistentStream (stream : OutputStream) (chance : DrainChance)
    (offset : OutputStream → ℕ) (w : OutputWorld) :
    Except DrainError (OutputStream → ℕ) × OutputWorld :=
  if chance.readOk = false then (.error .io, w)
  else
    match readNewBytesWithLimit (w.log stream) (offset stream) processLogReadBatchBytes
        chance.reads with
    | .error error => (.error error, w)
    | .ok data =>
        if data = [] then (.ok offset, w) else w.publish processId stream chance offset data

end Monitor

end OutputWorld

/-- One round of the final drain: what the process wrote since the round before, what
happens to the two reads, and whether its group is still alive then. -/
structure DrainRound where
  grown : OutputStream → Bytes
  chance : OutputStream → DrainChance
  groupAlive : Bool

namespace OutputWorld

section Exit

variable (processId : Uuid) (rounds : ℕ → DrainRound)

/-- The loop of `drain_persistent_output_until_quiet` with `left` rounds to go. -/
def drainRounds : ℕ → ℕ → ℕ → (OutputStream → ℕ) → OutputWorld →
    Except DrainError (OutputStream → ℕ) × OutputWorld
  | 0, _, _, offset, w => (.ok offset, w)
  | left + 1, index, idle, offset, w =>
      let round := rounds index
      match (w.grow round.grown).drainPersistentStream processId .stdout (round.chance .stdout)
          offset with
      | (.error error, w) => (.error error, w)
      | (.ok offset₁, w) =>
          match w.drainPersistentStream processId .stderr (round.chance .stderr) offset₁ with
          | (.error error, w) => (.error error, w)
          | (.ok offset₂, w) =>
              if offset₂ .stdout ≠ offset .stdout ∨ offset₂ .stderr ≠ offset .stderr ∨
                  round.groupAlive then
                drainRounds left (index + 1) 0 offset₂ w
              else if idle + 1 ≥ processExitIdleRounds then (.ok offset₂, w)
              else drainRounds left (index + 1) (idle + 1) offset₂ w

def drainPersistentOutputUntilQuiet (offset : OutputStream → ℕ) (w : OutputWorld) :
    Except DrainError (OutputStream → ℕ) × OutputWorld :=
  w.drainRounds processId rounds processExitDrainRounds 0 0 offset

/-- The exit event with the record that follows it. -/
def recordExit (unixMs : ℕ) (code : Option ℤ) (outcome : AppendOutcome) (w : OutputWorld) :
    Bool × OutputWorld :=
  match w.append unixMs (.processExited processId code) outcome with
  | (true, w) =>
      (true, { w with
        record := w.record.map fun record =>
          { record with running := false, exitCode := code, exitUnixMs := some unixMs }
        monitor := .stopped })
  | (false, w) =>
      (false, { w with
        record := w.record.map fun record => { record with running := false, exitCode := code }
        monitor := .stopped })

/-- The exit path of the monitor: the final drain, then the exit event. The result says
whether the event was appended. -/
def exitPath (offset : OutputStream → ℕ) (unixMs : ℕ) (code : Option ℤ) (outcome : AppendOutcome)
    (w : OutputWorld) : Bool × OutputWorld :=
  match w.drainPersistentOutputUntilQuiet processId rounds offset with
  | (.error _, w) => (false, { w with monitor := .failing })
  | (.ok _, w) => w.recordExit processId unixMs code outcome

end Exit

end OutputWorld

inductive OutputAction where
  /-- The process writes. -/
  | grow (stream : OutputStream) (data : Bytes)
  | startProcess (unixMs : ℕ) (command : String) (pid : Option ℕ) (requestId : Option Uuid)
      (outcome : AppendOutcome)
  /-- An event of another part of the session. -/
  | other (unixMs : ℕ) (kind : EventKind) (outcome : AppendOutcome)
  | drain (stream : OutputStream) (chance : DrainChance)
  | exit (unixMs : ℕ) (code : Option ℤ) (outcome : AppendOutcome)
  /-- The daemon dies and is started again. -/
  | kill
  /-- Power is lost: the journal falls back to `journal`, the logs become these. -/
  | powerLoss (journal : List Event) (stdout stderr : Bytes)
  deriving DecidableEq

namespace OutputWorld

variable (sha256 : Bytes → String) (processId : Uuid)

/-- The record of the process that opening a session with this journal restores. -/
def replayed (journal : List Event) : Option ProcessRecord :=
  (journal.foldl (LoadedSession.push sha256) {}).processes[processId]?

/-- Opening the session: a process that has not exited is monitored from the bytes
its record counts. -/
def reopened (w : OutputWorld) : OutputWorld :=
  let record := replayed sha256 processId w.journal.now
  { w with
    nextId := (w.journal.now.foldl (LoadedSession.push sha256) {}).nextId
    record := record
    monitor :=
      match record with
      | none => .stopped
      | some record =>
          if !record.running then .stopped
          else if (w.log .stdout).length < record.stdoutBytes ∨
              (w.log .stderr).length < record.stderrBytes then .failing
          else .running record.bytes }

/-- Nothing in the journal or on disk is about the process. -/
def unknown (w : OutputWorld) : Bool :=
  w.record.isNone && w.journal.images.all fun events =>
    events.all fun event => event.kind.processOf != some processId

def startProcess (unixMs : ℕ) (command : String) (pid : Option ℕ) (requestId : Option Uuid)
    (outcome : AppendOutcome) (w : OutputWorld) : OutputWorld :=
  match w.append unixMs (.processStarted processId command pid requestId) outcome with
  | (false, w) => w
  | (true, w) =>
      { w with
        record := some ⟨command, true, none, none, pid, none, 0, 0⟩
        monitor := .running fun _ => 0 }

def drain (stream : OutputStream) (chance : DrainChance) (offset : OutputStream → ℕ)
    (w : OutputWorld) : OutputWorld :=
  match w.drainPersistentStream processId stream chance offset with
  | (.ok offset, w) => { w with monitor := .running offset }
  | (.error _, w) => { w with monitor := .failing }

def act (action : OutputAction) (w : OutputWorld) : Option OutputWorld :=
  match action with
  | .grow stream data =>
      some { w with log := Function.update w.log stream (w.log stream ++ data) }
  | .startProcess unixMs command pid requestId outcome =>
      if w.unknown processId then
        some (w.startProcess processId unixMs command pid requestId outcome)
      else none
  | .other unixMs kind outcome =>
      if kind.processOf = some processId then none else some (w.append unixMs kind outcome).2
  | .drain stream chance =>
      match w.monitor with
      | .running offset => some (w.drain processId stream chance offset)
      | _ => none
  | .exit unixMs code outcome =>
      match w.monitor with
      | .running _ | .failing => some (w.recordExit processId unixMs code outcome).2
      | .stopped => none
  | .kill => some ({ w with journal := w.journal.kill }.reopened sha256 processId)
  | .powerLoss journal stdout stderr =>
      if journal ∈ w.journal.images ∧
          stdout.take (w.synced .stdout) = (w.log .stdout).take (w.synced .stdout) ∧
          stderr.take (w.synced .stderr) = (w.log .stderr).take (w.synced .stderr) then
        let log : OutputStream → Bytes := fun stream =>
          match stream with
          | .stdout => stdout
          | .stderr => stderr
        some ({ w with
          journal := .stable journal
          log := log }.reopened sha256 processId)
      else none

end OutputWorld

def outputMachine (sha256 : Bytes → String) (processId : Uuid) :
    Steps.Machine OutputAction OutputWorld where
  act := OutputWorld.act sha256 processId
  fault _ _ := []

structure ProcessSummary where
  processId : Uuid
  eventId : ℕ
  stdoutBytes : ℕ
  stderrBytes : ℕ
  stdoutTail : Bytes
  stderrTail : Bytes
  stdoutTruncated : Bool
  stderrTruncated : Bool
  deriving DecidableEq

/-- `read_exact` of `length` bytes at `position`. -/
def readExact (file : Bytes) (position length : ℕ) : Option Bytes :=
  if position + length ≤ file.length then some ((file.drop position).take length) else none

def readPersistedProcessTail (file : Bytes) (recordedBytes tailBytes : ℕ) : Option Bytes :=
  if tailBytes = 0 ∨ recordedBytes = 0 then some []
  else
    let available := min file.length recordedBytes
    let length := min available tailBytes
    if length = 0 then some [] else readExact file (available - length) length

/-- `none` if a tail cannot be read. -/
def persistedProcessSummary (log : OutputStream → Bytes) (record : ProcessRecord) (tailBytes : ℕ)
    (processId : Uuid) (eventId : ℕ) : Option ProcessSummary := do
  let stdoutTail ← readPersistedProcessTail (log .stdout) record.stdoutBytes tailBytes
  let stderrTail ← readPersistedProcessTail (log .stderr) record.stderrBytes tailBytes
  return {
    processId, eventId, stdoutTail, stderrTail
    stdoutBytes := record.stdoutBytes
    stderrBytes := record.stderrBytes
    stdoutTruncated := record.stdoutBytes > stdoutTail.length
    stderrTruncated := record.stderrBytes > stderrTail.length }

/-- What the monitor sends when a tail cannot be read. -/
def summaryWithoutTails (record : ProcessRecord) (processId : Uuid) (eventId : ℕ) :
    ProcessSummary where
  processId := processId
  eventId := eventId
  stdoutBytes := record.stdoutBytes
  stderrBytes := record.stderrBytes
  stdoutTail := []
  stderrTail := []
  stdoutTruncated := record.stdoutBytes > 0
  stderrTruncated := record.stderrBytes > 0

/-- The summary that the monitor sends behind the exit event. -/
def monitorSummary (log : OutputStream → Bytes) (record : ProcessRecord) (tailBytes : ℕ)
    (processId : Uuid) (eventId : ℕ) : ProcessSummary :=
  (persistedProcessSummary log record tailBytes processId eventId).getD
    (summaryWithoutTails record processId eventId)

structure ProcessSummaryAccumulator where
  tailLimit : ℕ
  stdoutBytes : ℕ
  stderrBytes : ℕ
  stdoutTail : Bytes
  stderrTail : Bytes
  deriving DecidableEq

namespace ProcessSummaryAccumulator

def new (tailLimit : ℕ) : ProcessSummaryAccumulator := ⟨tailLimit, 0, 0, [], []⟩

def pushTail (tailLimit : ℕ) (tail data : Bytes) : Bytes :=
  if tailLimit = 0 then tail
  else if data.length ≥ tailLimit then data.drop (data.length - tailLimit)
  else tail.drop (saturatingAdd tail.length data.length - tailLimit) ++ data

def push (stream : OutputStream) (offset : ℕ) (data : Bytes) (a : ProcessSummaryAccumulator) :
    ProcessSummaryAccumulator :=
  let stop := saturatingAdd offset data.length
  match stream with
  | .stdout => { a with
      stdoutBytes := max a.stdoutBytes stop
      stdoutTail := pushTail a.tailLimit a.stdoutTail data }
  | .stderr => { a with
      stderrBytes := max a.stderrBytes stop
      stderrTail := pushTail a.tailLimit a.stderrTail data }

def intoResponse (a : ProcessSummaryAccumulator) (processId : Uuid) (eventId : ℕ) :
    ProcessSummary where
  processId := processId
  eventId := eventId
  stdoutBytes := a.stdoutBytes
  stderrBytes := a.stderrBytes
  stdoutTail := a.stdoutTail
  stderrTail := a.stderrTail
  stdoutTruncated := a.stdoutBytes > a.stdoutTail.length
  stderrTruncated := a.stderrBytes > a.stderrTail.length

end ProcessSummaryAccumulator

end Asp
