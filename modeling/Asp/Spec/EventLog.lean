import Asp.Lib.Durable
import Asp.Lib.Framing
import Asp.Lib.Steps
import Asp.Spec.Event

/-! The event log of one session: `SessionDisk::open`, `append`,
`rotate_locked` and `compact`, `load_event_log`, and the snapshot and consumer
files. The directory holds the active log, its rotated segments and the two
sidecars; file contents are bytes. `append`, `rotate_locked` and `compact` are
programs over single I/O calls, so that they can be interrupted or fail between
any two of them. Directory operations reach the disk in program order; a file's
bytes do when it is synced, or earlier. -/

namespace Asp

open Std Framing Durable Steps

/-- The crates that the store calls: digests, checksums and `postcard`. -/
structure Crates where
  sha256 : Bytes → String
  crc32 : Bytes → UInt32
  event : Message Event
  snapshot : Message SessionSnapshotData
  consumers : Message (ExtTreeMap String EventConsumer)

def eventLogMaxBytes : ℕ := 4 * 1024 * 1024 * 1024
def eventSegmentMaxBytes : ℕ := 64 * 1024 * 1024
def eventSyncBytes : ℕ := 256 * 1024
def maxDurableReplayEvents : ℕ := 100000
def maxDurableReplayBytes : ℕ := 64 * 1024 * 1024
def maxEventConsumersPerSession : ℕ := 1024
def maxEventConsumerIdBytes : ℕ := 128
def maxEventConsumerStateBytes : ℕ := 4 * 1024 * 1024

/-- `ASPLOG` and a zero byte. -/
def eventLogMagic : Bytes := [65, 83, 80, 76, 79, 71, 0]

/-- Version 2 frames carry a checksum; the legacy version 1 does not. -/
def eventLogVersion (checksummed : Bool) : ℕ := if checksummed then 2 else 1

def headerLen : ℕ := eventLogMagic.length + 2

def eventLogHeader (checksummed : Bool) : Bytes :=
  eventLogMagic ++ be16 (eventLogVersion checksummed)

section Load

variable (c : Crates)

def crcOf (checksummed : Bool) : Option (Bytes → UInt32) :=
  if checksummed then some c.crc32 else none

structure EventReplayBuffer where
  afterEventId : ℕ
  events : List Event
  bytes : ℕ
  limitReached : Bool

def EventReplayBuffer.push (buffer : EventReplayBuffer) (event : Event) :
    EventReplayBuffer × Bool :=
  if event.id ≤ buffer.afterEventId then (buffer, true)
  else if buffer.events.length ≥ maxDurableReplayEvents ∨
      buffer.bytes + eventApproxBytes event > maxDurableReplayBytes then
    ({ buffer with limitReached := true }, false)
  else
    ({ buffer with
        events := buffer.events ++ [event]
        bytes := buffer.bytes + eventApproxBytes event }, true)

inductive Corruption where
  | truncated (stage : Stage)
  | oversized
  | checksumMismatch
  | undecodable
  | zeroId
  | notIncreasing
  | stale
  | gap
  deriving DecidableEq

/-- What one open reads through all its files. -/
structure Replay where
  loaded : LoadedSession
  lastEventId : ℕ
  collected : Option EventReplayBuffer

/-- The variables of the loop over one file's frames. -/
structure LogScan extends Replay where
  firstEventId : Option ℕ
  rawLastEventId : Option ℕ
  offset : ℕ

/-- An event that is newer than what was loaded: collect it, then materialize
it or only count it. The flag says that the collection is full. -/
def Replay.take (materialize : Bool) (s : Replay) (event : Event) : Replay × Bool :=
  let collecting := s.collected.map fun buffer => buffer.push event
  let s := { s with collected := collecting.map Prod.fst }
  if collecting.any fun pushed => !pushed.2 then (s, true)
  else if materialize then
    let loaded := s.loaded.push c.sha256 event
    ({ s with loaded := loaded, lastEventId := loaded.nextId }, false)
  else
    ({ s with loaded := { s.loaded with nextId := event.id }, lastEventId := event.id }, false)

/-- One decoded event: the order checks, then its effect. -/
def LogScan.event (snapshotBoundary : ℕ) (materialize : Bool) (s : LogScan) (event : Event) :
    Except Corruption (LogScan × Bool) :=
  if event.id = 0 then .error .zeroId
  else if s.rawLastEventId.any fun previous => event.id ≤ previous then .error .notIncreasing
  else if event.id ≤ snapshotBoundary ∧ s.lastEventId > snapshotBoundary then .error .stale
  else if event.id > snapshotBoundary ∧ event.id ≠ s.lastEventId + 1 then .error .gap
  else
    let s := { s with
      rawLastEventId := some event.id
      firstEventId := some (s.firstEventId.getD event.id) }
    if event.id > s.loaded.nextId then
      let taken := s.toReplay.take c materialize event
      .ok ({ s with toReplay := taken.1 }, taken.2)
    else .ok (s, false)

/-- The frame loop of `load_event_log`; every turn consumes bytes, so their
number is fuel enough. The flag says that a bounded replay stopped early. -/
def scanFrames (create checksummed : Bool) (snapshotBoundary : ℕ) (materialize : Bool) :
    ℕ → Bytes → LogScan → Except Corruption (LogScan × Bool)
  | 0, _, s => .ok (s, false)
  | fuel + 1, bytes, s =>
      match readFrame maxFrameBytes (crcOf c checksummed) bytes with
      | .torn stage =>
          if create ∨ bytes = [] then .ok (s, false) else .error (.truncated stage)
      | .oversized => .error .oversized
      | .mismatch => .error .checksumMismatch
      | .frame payload rest =>
          match c.event.decode payload with
          | none => .error .undecodable
          | some event =>
              match s.event c snapshotBoundary materialize event with
              | .error reason => .error reason
              | .ok (s, true) => .ok (s, true)
              | .ok (s, false) =>
                  scanFrames create checksummed snapshotBoundary materialize fuel rest
                    { s with
                      offset := s.offset + 4 + (if checksummed then 4 else 0) + payload.length }

inductive LogError where
  | truncatedHeader
  | unsupportedFormat
  | unsupportedVersion (version : ℕ)
  | corrupt (reason : Corruption)
  | tooLarge
  deriving DecidableEq

/-- What `load_event_log` leaves in the file and returns. -/
structure LoadedLog where
  content : Bytes
  checksummed : Bool
  firstEventId : Option ℕ
  replay : Replay

/-- An empty log gets its header; so does a torn header of the active log. -/
def repairHeader (create : Bool) (content : Bytes) : Except LogError Bytes :=
  if content.length = 0 then .ok (eventLogHeader true)
  else if content.length < headerLen then
    if create then .ok (eventLogHeader true) else .error .truncatedHeader
  else .ok content

def readVersion (content : Bytes) : Except LogError Bool :=
  if content.take eventLogMagic.length ≠ eventLogMagic then .error .unsupportedFormat
  else
    match ofBe ((content.drop eventLogMagic.length).take 2) with
    | 1 => .ok false
    | 2 => .ok true
    | version => .error (.unsupportedVersion version)

def loadEventLog (create : Bool) (content : Bytes) (snapshotBoundary : ℕ) (materialize : Bool)
    (replay : Replay) : Except LogError LoadedLog :=
  match repairHeader create content with
  | .error e => .error e
  | .ok content =>
      match readVersion content with
      | .error e => .error e
      | .ok checksummed =>
          let body := content.drop headerLen
          match scanFrames c create checksummed snapshotBoundary materialize (body.length + 1) body
              ⟨replay, none, none, headerLen⟩ with
          | .error reason => .error (.corrupt reason)
          | .ok (s, limited) =>
              let content := if limited then content else content.take s.offset
              if content.length > eventLogMaxBytes then .error .tooLarge
              else .ok ⟨content, checksummed, s.firstEventId, s.toReplay⟩

end Load

structure SidecarFormat where
  magic : Bytes
  version : ℕ
  fileLimit : ℕ
  payloadLimit : ℕ

/-- `snapshot.bin`: `ASPSNAP` and a zero byte. -/
def snapshotFormat : SidecarFormat where
  magic := [65, 83, 80, 83, 78, 65, 80, 0]
  version := 1
  fileLimit := 18 + maxFrameBytes
  payloadLimit := maxFrameBytes

/-- `event-consumers.bin`: `ASPCONS` and a zero byte. -/
def consumersFormat : SidecarFormat where
  magic := [65, 83, 80, 67, 79, 78, 83, 0]
  version := 1
  fileLimit := maxEventConsumerStateBytes
  payloadLimit := maxEventConsumerStateBytes

inductive SidecarError where
  | tooLarge
  | unsupportedFormat
  | unsupportedVersion (version : ℕ)
  | invalidLength
  | checksumMismatch
  | undecodable
  deriving DecidableEq

def writeSidecar (crc32 : Bytes → UInt32) (format : SidecarFormat) (payload : Bytes) : Bytes :=
  format.magic ++ be16 format.version ++ be32 payload.length ++ be32 (crc32 payload).toNat ++ payload

def readSidecar {α : Type} (crc32 : Bytes → UInt32) (format : SidecarFormat) (message : Message α)
    (file : Bytes) : Except SidecarError α :=
  let magic := file.take format.magic.length
  let version := ofBe ((file.drop format.magic.length).take 2)
  let length := ofBe ((file.drop (format.magic.length + 2)).take 4)
  let expectedCrc := ofBe ((file.drop (format.magic.length + 6)).take 4)
  let payload := file.drop (format.magic.length + 10)
  if file.length > format.fileLimit then .error .tooLarge
  else if file.length < format.magic.length + 10 ∨ magic ≠ format.magic then
    .error .unsupportedFormat
  else if version ≠ format.version then .error (.unsupportedVersion version)
  else if length > format.payloadLimit ∨ file.length ≠ format.magic.length + 10 + length then
    .error .invalidLength
  else if (crc32 payload).toNat ≠ expectedCrc then .error .checksumMismatch
  else
    match message.decode payload with
    | none => .error .undecodable
    | some value => .ok value

def snapshotFile (c : Crates) (snapshot : SessionSnapshotData) : Bytes :=
  writeSidecar c.crc32 snapshotFormat (c.snapshot.encode snapshot)

def consumersFile (c : Crates) (consumers : ExtTreeMap String EventConsumer) : Bytes :=
  writeSidecar c.crc32 consumersFormat (c.consumers.encode consumers)

def readSnapshotFile (c : Crates) (file : Option Bytes) :
    Except SidecarError (Option SessionSnapshotData) :=
  match file with
  | none => .ok none
  | some file => (readSidecar c.crc32 snapshotFormat c.snapshot file).map some

/-- `char::is_whitespace`. -/
def isWhitespace (character : Char) : Bool :=
  let n := character.toNat
  decide (9 ≤ n ∧ n ≤ 13) || decide (0x2000 ≤ n ∧ n ≤ 0x200A) ||
    [0x20, 0x85, 0xA0, 0x1680, 0x2028, 0x2029, 0x202F, 0x205F, 0x3000].contains n

def validEventConsumerId (id : String) : Bool :=
  !(id.isEmpty || decide (id.utf8ByteSize > maxEventConsumerIdBytes) ||
    id.toList.any fun character => isWhitespace character || isControl character)

inductive ConsumersError where
  | file (error : SidecarError)
  | tooMany
  | invalidId (id : String)
  deriving DecidableEq

def checkConsumerIds (consumers : ExtTreeMap String EventConsumer) : Except ConsumersError Unit :=
  match consumers.toList.find? fun entry => !validEventConsumerId entry.1 with
  | some (id, _) => .error (.invalidId id)
  | none => .ok ()

def readEventConsumersFile (c : Crates) (file : Option Bytes) :
    Except ConsumersError (ExtTreeMap String EventConsumer) :=
  match file with
  | none => .ok ∅
  | some file =>
      match readSidecar c.crc32 consumersFormat c.consumers file with
      | .error e => .error (.file e)
      | .ok consumers =>
          if consumers.size > maxEventConsumersPerSession then .error .tooMany
          else (checkConsumerIds consumers).map fun _ => consumers

/-- `events-<first>-<uuid>.log`; the zero-padded number makes the order of the
names that of the pairs. A quarantined segment keeps them in its name, in front of
one more `.corrupt-<uuid>` each time, so that it is still listed. -/
structure SegmentName where
  first : ℕ
  uuid : Uuid
  corrupt : ℕ
  deriving DecidableEq

def SegmentName.le (a b : SegmentName) : Prop :=
  a.first < b.first ∨ a.first = b.first ∧ a.uuid ≤ b.uuid

instance (a b : SegmentName) : Decidable (a.le b) :=
  inferInstanceAs (Decidable (a.first < b.first ∨ a.first = b.first ∧ a.uuid ≤ b.uuid))

/-- Names point to inodes; `β` is what an inode holds. -/
structure SessionDir (β : Type) where
  files : ℕ → β
  fresh : ℕ
  active : Option ℕ
  segments : List (SegmentName × ℕ)
  quarantined : List ℕ
  snapshot : Option Bytes
  consumers : Option Bytes

namespace SessionDir

variable {β γ : Type}

def map (f : β → γ) (d : SessionDir β) : SessionDir γ where
  files := fun i => f (d.files i)
  fresh := d.fresh
  active := d.active
  segments := d.segments
  quarantined := d.quarantined
  snapshot := d.snapshot
  consumers := d.consumers

def write (d : SessionDir β) (i : ℕ) (x : β) : SessionDir β :=
  { d with files := Function.update d.files i x }

/-- `list_event_segments`, sorted. -/
def sortedSegments (d : SessionDir β) : List (SegmentName × ℕ) :=
  d.segments.insertionSort fun a b => a.1.le b.1

/-- The inodes in the order in which `open` reads them. -/
def logFiles (d : SessionDir β) : List ℕ :=
  d.sortedSegments.map Prod.snd ++ d.active.toList

/-- `quarantine_event_log` for a segment, and for the active log. -/
def quarantineSegment (d : SessionDir β) (segment : SegmentName × ℕ) : SessionDir β :=
  { d with segments := d.segments.map fun entry =>
      if entry.1 = segment.1 then ({ entry.1 with corrupt := entry.1.corrupt + 1 }, entry.2) else entry }

def quarantineActive (d : SessionDir β) (i : ℕ) : SessionDir β :=
  { d with active := none, quarantined := i :: d.quarantined }

/-- A loss of power leaves every file with one of its images; a log of nothing but
its header may also lose a part of that. -/
def Crashed (d : SessionDir (Cell Bytes)) (f : SessionDir Bytes) : Prop :=
  ∃ files : ℕ → Bytes,
    (∀ i, files i ∈ (d.files i).images ∨
      d.active = some i ∧ (d.files i).now.length = headerLen ∧ files i <+: (d.files i).now) ∧
    f = { d.map Cell.now with files := files }

end SessionDir

/-- How a daemon stops: only its process is killed, or the machine loses power. -/
inductive Stop where
  | kill
  | powerLoss
  deriving DecidableEq

/-- What a stop leaves. A kill takes no written byte back and syncs none. -/
def SessionDir.Stops (d : SessionDir (Cell Bytes)) : Stop → SessionDir (Cell Bytes) → Prop
  | .kill, e => e = d
  | .powerLoss, e => ∃ f, d.Crashed f ∧ e = f.map Cell.stable

structure EventFile where
  inode : ℕ
  pos : ℕ
  checksummed : Bool
  firstEventId : Option ℕ
  dirtyBytes : ℕ
  deriving DecidableEq

structure SessionDisk where
  events : EventFile
  segments : List SegmentName
  snapshotBoundary : ℕ
  totalBytes : ℕ
  deriving DecidableEq

inductive OpenError where
  | snapshot (error : SidecarError)
  | snapshotSession
  | segment (name : SegmentName) (error : LogError)
  | active (error : LogError)
  | consumers (error : ConsumersError)
  | ackBeyondHead (consumerId : String) (acknowledged head : ℕ)
  deriving DecidableEq

section Open

variable (c : Crates)

def loadSegments (snapshotBoundary : ℕ) : List (SegmentName × ℕ) → SessionDir Bytes → Replay →
    SessionDir Bytes × Except OpenError Replay
  | [], d, replay => (d, .ok replay)
  | segment :: segments, d, replay =>
      match loadEventLog c false (d.files segment.2) snapshotBoundary true replay with
      | .error (.corrupt reason) =>
          (d.quarantineSegment segment, .error (.segment segment.1 (.corrupt reason)))
      | .error e => (d, .error (.segment segment.1 e))
      | .ok log => loadSegments snapshotBoundary segments (d.write segment.2 log.content) log.replay

def createActive (d : SessionDir Bytes) : SessionDir Bytes × ℕ :=
  match d.active with
  | some i => (d, i)
  | none => ({ d.write d.fresh [] with active := some d.fresh, fresh := d.fresh + 1 }, d.fresh)

def checkConsumers (consumers : ExtTreeMap String EventConsumer) (head : ℕ) :
    Except OpenError Unit :=
  match consumers.toList.find? fun entry => decide (entry.2.acknowledgedEventId > head) with
  | some (id, consumer) => .error (.ackBeyondHead id consumer.acknowledgedEventId head)
  | none => .ok ()

/-- The snapshot that `open` starts from: absent, unreadable or of another session. -/
def openSnapshot (sessionId : Uuid) (file : Option Bytes) : Except OpenError LoadedSession :=
  match readSnapshotFile c file with
  | .error e => .error (.snapshot e)
  | .ok none => .ok {}
  | .ok (some snapshot) =>
      if snapshot.sessionId ≠ sessionId then .error .snapshotSession
      else .ok (LoadedSession.fromSnapshot c.sha256 snapshot)

/-- `SessionDisk::open` for the session that the directory is named after. On
an error the directory is returned with what was already written to it. -/
def openSession (sessionId : Uuid) (d : SessionDir Bytes) :
    SessionDir Bytes × Except OpenError (SessionDisk × LoadedSession) :=
  match openSnapshot c sessionId d.snapshot with
  | .error e => (d, .error e)
  | .ok loaded =>
      let boundary := loaded.nextId
      let segments := d.sortedSegments
      match loadSegments c boundary segments d ⟨loaded, boundary, none⟩ with
      | (d, .error e) => (d, .error e)
      | (d, .ok replay) =>
          let (d, inode) := createActive d
          match loadEventLog c true (d.files inode) boundary true replay with
          | .error (.corrupt reason) => (d.quarantineActive inode, .error (.active (.corrupt reason)))
          | .error e => (d, .error (.active e))
          | .ok log =>
              let d := d.write inode log.content
              match readEventConsumersFile c d.consumers with
              | .error e => (d, .error (.consumers e))
              | .ok consumers =>
                  match checkConsumers consumers log.replay.loaded.nextId with
                  | .error e => (d, .error e)
                  | .ok () =>
                      (d, .ok
                        ({ events := ⟨inode, log.content.length, log.checksummed,
                             log.firstEventId, 0⟩
                           segments := segments.map Prod.fst
                           snapshotBoundary := boundary
                           totalBytes := log.content.length +
                             (segments.map fun segment => (d.files segment.2).length).sum },
                         { log.replay.loaded with eventConsumers := consumers }))

end Open

/-- One session's storage as the running daemon holds it: the directory, the
open log and the consumer table. -/
structure World where
  disk : SessionDir (Cell Bytes)
  mem : SessionDisk
  eventConsumers : ExtTreeMap String EventConsumer

/-- The files of `d` after an `open` that left `d'`. It syncs what it writes, which is
a new log, a repaired header or a cut tail; the other files keep their unsynced changes. -/
def SessionDir.reopened (d : SessionDir (Cell Bytes)) (d' : SessionDir Bytes) :
    SessionDir (Cell Bytes) :=
  { d'.map Cell.stable with
    files := fun i =>
      if i < d.fresh ∧ d'.files i = (d.files i).now then d.files i else Cell.stable (d'.files i) }

/-- What a successful `open` of `d` leaves running. -/
def World.opened (d : SessionDir (Cell Bytes)) (d' : SessionDir Bytes) (mem : SessionDisk)
    (loaded : LoadedSession) : World :=
  ⟨d.reopened d', mem, loaded.eventConsumers⟩

/-- Write at a position; a gap before it fills with zeros. -/
def writeAt (content : Bytes) (pos : ℕ) (bytes : Bytes) : Bytes :=
  content.take pos ++ List.replicate (pos - content.length) 0 ++ bytes ++
    content.drop (pos + bytes.length)

/-- `write_all` passes through every partial write. -/
def Cell.writeAll (cell : Cell Bytes) (pos : ℕ) (bytes : Bytes) : Cell Bytes :=
  cell.change ((List.range bytes.length).map fun k => writeAt cell.now pos (bytes.take k))
    (writeAt cell.now pos bytes)

inductive Io where
  /-- `event_file.file.sync_data()` -/
  | syncEvents
  /-- `rename("events.log", segment)` -/
  | renameActive (segment : SegmentName)
  | syncDirectory
  | pushSegment (segment : SegmentName)
  /-- Create or truncate `events.log`. -/
  | openActive
  /-- `write_all` on the file just opened. -/
  | writeActive (bytes : Bytes)
  | syncActive
  /-- `*event_file = EventFile { .. }` -/
  | installActive
  /-- `write_snapshot_file`, atomic and durable. -/
  | writeSnapshot (file : Bytes)
  /-- `event_file.file.set_len(0)` -/
  | truncateEvents
  /-- `event_file.file.seek(SeekFrom::Start(0))` -/
  | rewindEvents
  /-- `event_file.file.write_all(bytes)` -/
  | writeEvents (bytes : Bytes)
  /-- The fields that `compact` resets after the sync. -/
  | resetEvents
  | drainSegments
  | removeSegment (segment : SegmentName)
  | storeBoundary (id : ℕ)
  | refreshTotal
  /-- `first_event_id`, `dirty_bytes` and `total_bytes` after a write. -/
  | recordAppend (id frameBytes : ℕ)
  | clearDirty
  deriving DecidableEq

namespace World

def view (w : World) : SessionDir Bytes := w.disk.map Cell.now

def cell (w : World) : Cell Bytes := w.disk.files w.mem.events.inode

def setCell (w : World) (i : ℕ) (cell : Cell Bytes) : World :=
  { w with disk := w.disk.write i cell }

def setEvents (w : World) (events : EventFile) : World :=
  { w with mem := { w.mem with events := events } }

/-- `write_all` through the descriptor of the event file. -/
def writeEvents (w : World) (bytes : Bytes) : World :=
  (w.setCell w.mem.events.inode (Cell.writeAll w.cell w.mem.events.pos bytes)).setEvents
    { w.mem.events with pos := w.mem.events.pos + bytes.length }

/-- `write_all` at the end of the file that `events.log` names. -/
def writeActive (w : World) (i : ℕ) (bytes : Bytes) : World :=
  w.setCell i (Cell.writeAll (w.disk.files i) (w.disk.files i).now.length bytes)

def openActive (w : World) : World :=
  match w.disk.active with
  | some i => w.setCell i ((w.disk.files i).change [] [])
  | none =>
      { w with disk :=
          { w.disk.write w.disk.fresh (Cell.stable []) with
            active := some w.disk.fresh
            fresh := w.disk.fresh + 1 } }

/-- `total_len_locked`; a segment whose file is gone counts for nothing. -/
def totalLen (w : World) : ℕ :=
  w.cell.now.length +
    (w.mem.segments.map fun name =>
      ((w.disk.segments.find? fun entry => entry.1 = name).map fun entry =>
        (w.disk.files entry.2).now.length).getD 0).sum

end World

/-- What a call does when it succeeds; `none` when it cannot. -/
def Io.act : Io → World → Option World
  | .syncEvents, w => some (w.setCell w.mem.events.inode w.cell.sync)
  | .renameActive segment, w =>
      w.disk.active.map fun i =>
        { w with disk :=
            { w.disk with segments := (segment, i) :: w.disk.segments, active := none } }
  | .syncDirectory, w => some w
  | .pushSegment segment, w =>
      some { w with mem := { w.mem with segments := w.mem.segments ++ [segment] } }
  | .openActive, w => some w.openActive
  | .writeActive bytes, w => w.disk.active.map fun i => w.writeActive i bytes
  | .syncActive, w => w.disk.active.map fun i => w.setCell i (w.disk.files i).sync
  | .installActive, w =>
      w.disk.active.map fun i => w.setEvents ⟨i, (w.disk.files i).now.length, true, none, 0⟩
  | .writeSnapshot file, w => some { w with disk := { w.disk with snapshot := some file } }
  | .truncateEvents, w => some (w.setCell w.mem.events.inode (w.cell.change [] []))
  | .rewindEvents, w => some (w.setEvents { w.mem.events with pos := 0 })
  | .writeEvents bytes, w => some (w.writeEvents bytes)
  | .resetEvents, w =>
      some (w.setEvents
        { w.mem.events with checksummed := true, firstEventId := none, dirtyBytes := 0 })
  | .drainSegments, w => some { w with mem := { w.mem with segments := [] } }
  | .removeSegment segment, w =>
      some { w with disk :=
          { w.disk with segments := w.disk.segments.filter fun entry => entry.1 ≠ segment } }
  | .storeBoundary id, w => some { w with mem := { w.mem with snapshotBoundary := id } }
  | .refreshTotal, w => some { w with mem := { w.mem with totalBytes := w.totalLen } }
  | .recordAppend id frameBytes, w =>
      some { w with mem :=
          { w.mem with
            events :=
              { w.mem.events with
                firstEventId := some (w.mem.events.firstEventId.getD id)
                dirtyBytes := w.mem.events.dirtyBytes + frameBytes }
            totalBytes := w.mem.totalBytes + frameBytes } }
  | .clearDirty, w => some (w.setEvents { w.mem.events with dirtyBytes := 0 })

/-- What a call that reports an error may have done: a write some of its
bytes, an open the creation, an atomic write everything but the last directory
sync. Assignments to memory cannot fail. -/
def Io.fault : Io → World → List World
  | .writeEvents bytes, w => (List.range bytes.length).map fun k => w.writeEvents (bytes.take k)
  | .writeActive bytes, w =>
      (List.range bytes.length).flatMap fun k =>
        w.disk.active.toList.map fun i => w.writeActive i (bytes.take k)
  | .openActive, w => [w, w.openActive]
  | .writeSnapshot file, w => [w, { w with disk := { w.disk with snapshot := some file } }]
  | .pushSegment _, _ | .installActive, _ | .resetEvents, _ | .drainSegments, _
  | .storeBoundary _, _ | .recordAppend _ _, _ | .clearDirty, _ => []
  | _, w => [w]

/-- A segment that cannot be removed is only warned about. -/
def Io.fatal : Io → Bool
  | .removeSegment _ => false
  | _ => true

def logMachine : Machine Io World := ⟨Io.act, Io.fault⟩

section Programs

variable (c : Crates)

/-- `rotate_locked`. -/
def rotateLocked (w : World) (nextEventId : ℕ) (uuid : Uuid) : List Io :=
  let segment : SegmentName := ⟨w.mem.events.firstEventId.getD nextEventId, uuid, 0⟩
  [.syncEvents, .renameActive segment, .syncDirectory, .pushSegment segment, .openActive,
    .writeActive eventLogMagic, .writeActive (be16 (eventLogVersion true)), .syncActive,
    .installActive]

/-- An event to append, the identifier a rotation would draw, and whether the
sync interval has elapsed. -/
structure AppendCall where
  event : Event
  uuid : Uuid
  elapsed : Bool
  deriving DecidableEq

/-- The frame's size as `append` counts it, before any rotation. -/
def frameBytes (w : World) (event : Event) : ℕ :=
  4 + (if w.mem.events.checksummed then 4 else 0) + (c.event.encode event).length

def needsRotation (w : World) (event : Event) : Bool :=
  decide (w.cell.now.length > headerLen) &&
    decide (w.cell.now.length + frameBytes c w event > eventSegmentMaxBytes)

/-- Output and terminal state are synced in groups, everything else at once. -/
def forceSync : EventKind → Bool
  | .processOutput .. | .ptyStateAdvanced _ => false
  | _ => true

def syncDue (w : World) (frameBytes : ℕ) (call : AppendCall) : Bool :=
  forceSync call.event.kind || decide (w.mem.events.dirtyBytes + frameBytes ≥ eventSyncBytes) ||
    call.elapsed

def rotationProgram (w : World) (call : AppendCall) : List Io :=
  if needsRotation c w call.event then
    rotateLocked w call.event.id call.uuid ++ [.refreshTotal]
  else []

/-- The writes of `append`, from the state `w` after the rotation. -/
def writeProgram (w : World) (frameBytes : ℕ) (call : AppendCall) : List Io :=
  let payload := c.event.encode call.event
  [.writeEvents (be32 payload.length)] ++
    (if w.mem.events.checksummed then [.writeEvents (be32 (c.crc32 payload).toNat)] else []) ++
    [.writeEvents payload, .recordAppend call.event.id frameBytes] ++
    (if syncDue w frameBytes call then [.syncEvents, .clearDirty] else [])

/-- `SessionDisk::append`: the state it leaves and whether it returned `Ok`. -/
def append (w : World) (call : AppendCall) : World × Bool :=
  let frameBytes := frameBytes c w call.event
  if (c.event.encode call.event).length ≥ 2 ^ 32 then (w, false)
  else
    let rotated := logMachine.run (rotationProgram c w call) w
    if !rotated.2 then (rotated.1, false)
    else if rotated.1.mem.totalBytes + frameBytes > eventLogMaxBytes then (rotated.1, false)
    else logMachine.run (writeProgram c rotated.1 frameBytes call) rotated.1

/-- `SessionDisk::compact`. -/
def compactProgram (w : World) (snapshot : SessionSnapshotData) : List Io :=
  [.writeSnapshot (snapshotFile c snapshot), .truncateEvents, .rewindEvents,
    .writeEvents eventLogMagic, .writeEvents (be16 (eventLogVersion true)), .syncEvents,
    .resetEvents, .drainSegments] ++
    w.mem.segments.map .removeSegment ++
    [.syncDirectory, .storeBoundary snapshot.throughEventId, .refreshTotal]

def compact (w : World) (snapshot : SessionSnapshotData) : World × Bool :=
  if (c.snapshot.encode snapshot).length ≥ 2 ^ 32 then (w, false)
  else logMachine.run (compactProgram c w snapshot) w

/-- An acknowledgement and the time it arrives. -/
structure AckCall where
  consumerId : String
  throughEventId : ℕ
  now : ℕ
  deriving DecidableEq

/-- `persist_event_consumers`: refused, or the file that atomically replaces the sidecar. -/
def persistEventConsumers (consumers : ExtTreeMap String EventConsumer) : Option Bytes :=
  let file := consumersFile c consumers
  if consumers.size > maxEventConsumersPerSession then none
  else if (checkConsumerIds consumers).isOk = false then none
  else if (c.consumers.encode consumers).length ≥ 2 ^ 32 then none
  else if file.length > maxEventConsumerStateBytes then none
  else some file

/-- `ack_event_consumer` with the journal at `head`. -/
def ackEventConsumer (w : World) (head : ℕ) (call : AckCall) : World × Option ℕ :=
  let existing := w.eventConsumers[call.consumerId]?
  let acknowledged :=
    existing.elim call.throughEventId fun consumer =>
      max consumer.acknowledgedEventId call.throughEventId
  let consumers := w.eventConsumers.insert call.consumerId ⟨acknowledged, call.now⟩
  if !validEventConsumerId call.consumerId then (w, none)
  else if call.throughEventId > head then (w, none)
  else if existing.isNone ∧ w.eventConsumers.size ≥ maxEventConsumersPerSession then (w, none)
  else
    match persistEventConsumers c consumers with
    | none => (w, none)
    | some file =>
        ({ w with disk := { w.disk with consumers := some file }, eventConsumers := consumers },
          some acknowledged)

end Programs

end Asp
