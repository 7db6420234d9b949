import Asp.Lib.Broadcast
import Asp.Lib.Steps
import Asp.Spec.Basic

/-! A durable PTY (`PersistentPty` with its reader thread), one attachment to it
(`handle_pty`) and the client's `shell` at the other end. The reader thread, other
attachments and the network act between any two steps of the attachment: a datagram that
was sent may be read at any time, any number of times, or never. -/

namespace Asp

/-- `vt100::Parser`. -/
structure Terminal (τ : Type) where
  new : ℕ → ℕ → τ
  process : Bytes → τ → τ
  setSize : ℕ → ℕ → τ → τ
  size : τ → ℕ × ℕ
  rows : τ → List String
  cursorPosition : τ → ℕ × ℕ
  contentsFormatted : τ → Bytes
  /-- There is one text for each row, and sizes have 16 bits. -/
  rows_length : ∀ t, (rows t).length = (size t).1
  size_lt : ∀ t, (size t).1 < 2 ^ 16

structure PtySnapshot where
  generation : ℕ
  rows : ℕ
  cols : ℕ
  screen : List String
  cursorRow : ℕ
  cursorCol : ℕ
  tail : Bytes
  deriving DecidableEq

structure PtyRichSnapshot where
  generation : ℕ
  rows : ℕ
  cols : ℕ
  screen : Bytes
  cursorRow : ℕ
  cursorCol : ℕ
  deriving DecidableEq

def tailLimit : ℕ := 64 * 1024
def ptyOutputCapacity : ℕ := 256
def ptyMaxDimension : ℕ := 500
def ptyDeltaFullInterval : ℕ := 16
def ptyDeltaMaxRows : ℕ := 4096
def ptyDeltaDatagramMaxDecodedBytes : ℕ := 8 * 1024 * 1024
def ptyDeltaDatagramMagic : Bytes := [0x50, 0x44]

/-- `State` of the PTY, behind its mutex. -/
structure PtyState (τ : Type) where
  generation : ℕ
  tail : Bytes
  parser : τ
  snapshotCache : Option PtySnapshot
  richSnapshotCache : Option PtyRichSnapshot

namespace PtyState

variable {τ : Type} (T : Terminal τ)

def spawn (rows cols generation : ℕ) : PtyState τ := ⟨generation, [], T.new rows cols, none, none⟩

/-- What the reader thread does with a chunk while it holds the lock. -/
def process (chunk : Bytes) (s : PtyState τ) : PtyState τ :=
  { generation := s.generation + 1
    tail := (s.tail ++ chunk).drop ((s.tail ++ chunk).length - tailLimit)
    parser := T.process chunk s.parser
    snapshotCache := none
    richSnapshotCache := none }

def resize (rows cols : ℕ) (s : PtyState τ) : PtyState τ :=
  { s with parser := T.setSize rows cols s.parser, snapshotCache := none, richSnapshotCache := none }

/-- A snapshot that is not taken from the cache. -/
def render (s : PtyState τ) : PtySnapshot :=
  { generation := s.generation
    rows := (T.size s.parser).1
    cols := (T.size s.parser).2
    screen := T.rows s.parser
    cursorRow := (T.cursorPosition s.parser).1
    cursorCol := (T.cursorPosition s.parser).2
    tail := s.tail }

def renderRich (s : PtyState τ) : PtyRichSnapshot :=
  { generation := s.generation
    rows := (T.size s.parser).1
    cols := (T.size s.parser).2
    screen := T.contentsFormatted s.parser
    cursorRow := (T.cursorPosition s.parser).1
    cursorCol := (T.cursorPosition s.parser).2 }

def snapshot (s : PtyState τ) : PtySnapshot × PtyState τ :=
  match s.snapshotCache with
  | some snapshot => (snapshot, s)
  | none => (s.render T, { s with snapshotCache := some (s.render T) })

def richSnapshot (s : PtyState τ) : PtyRichSnapshot × PtyState τ :=
  match s.richSnapshotCache with
  | some snapshot => (snapshot, s)
  | none => (s.renderRich T, { s with richSnapshotCache := some (s.renderRich T) })

end PtyState

structure PtyRowDelta where
  row : ℕ
  text : String
  deriving DecidableEq

structure PtyStateDatagram where
  sessionId : Uuid
  generation : ℕ
  rows : ℕ
  cols : ℕ
  screen : List String
  cursorRow : ℕ
  cursorCol : ℕ
  deriving DecidableEq

structure PtyStateDeltaDatagram where
  sessionId : Uuid
  baseGeneration : ℕ
  generation : ℕ
  rows : ℕ
  cols : ℕ
  changes : List PtyRowDelta
  cursorRow : ℕ
  cursorCol : ℕ
  deriving DecidableEq

/-- A datagram on its way. The snapshot beside a delta is not sent: it is the one that the
delta was derived for. -/
inductive PtyDatagram where
  | full (datagram : PtyStateDatagram)
  | delta (datagram : PtyStateDeltaDatagram) (derivedFor : PtySnapshot)
  | rich (sessionId : Uuid) (snapshot : PtyRichSnapshot)
  deriving DecidableEq

/-- The length that `encode_message` gives a datagram, unless it fails. -/
structure PtyEncoding where
  full : PtyStateDatagram → Option ℕ
  delta : PtyStateDeltaDatagram → Option ℕ

/-- Length of the payload of a delta that fits the budget. -/
def encodePtyStateDeltaDatagram (encoding : PtyEncoding) (datagram : PtyStateDeltaDatagram)
    (maxSize : ℕ) : Option ℕ :=
  if datagram.changes.length > ptyDeltaMaxRows then none
  else
    (encoding.delta datagram).bind fun encoded =>
      if encoded > ptyDeltaDatagramMaxDecodedBytes ∨
          ptyDeltaDatagramMagic.length + encoded > maxSize then none
      else some (ptyDeltaDatagramMagic.length + encoded)

structure PtyDatagramState where
  last : Option PtySnapshot
  deltaFramesSinceFull : ℕ
  deriving DecidableEq

def derivePtyRowDeltas (previous snapshot : PtySnapshot) : Option (List PtyRowDelta) :=
  if previous.generation ≥ snapshot.generation ∨ previous.rows ≠ snapshot.rows ∨
      previous.cols ≠ snapshot.cols ∨ previous.screen.length ≠ snapshot.screen.length then none
  else
    some ((((previous.screen.zip snapshot.screen).zipIdx).filter fun entry =>
      entry.1.1 ≠ entry.1.2).map fun entry => ⟨entry.2 % 2 ^ 16, entry.1.2⟩)

def fullDatagram (sessionId : Uuid) (snapshot : PtySnapshot) : PtyStateDatagram :=
  ⟨sessionId, snapshot.generation, snapshot.rows, snapshot.cols, snapshot.screen,
    snapshot.cursorRow, snapshot.cursorCol⟩

/-- What the connection says when a datagram is to be sent. -/
structure DatagramLink where
  maxDatagramSize : Option ℕ
  deltaAccepted : Bool
  fullAccepted : Bool
  deriving DecidableEq

section Send

variable (encoding : PtyEncoding) (link : DatagramLink) (sessionId : Uuid)

def sendPtyStateDatagram (snapshot : PtySnapshot) : Option PtyDatagram :=
  (encoding.full (fullDatagram sessionId snapshot)).bind fun encoded =>
    if link.maxDatagramSize.any (encoded ≤ ·) && link.fullAccepted then
      some (.full (fullDatagram sessionId snapshot))
    else none

def PtyDatagramState.canDelta (state : PtyDatagramState) (snapshot : PtySnapshot) : Bool :=
  state.last.any fun previous =>
    previous.generation < snapshot.generation && previous.rows = snapshot.rows &&
      previous.cols = snapshot.cols && previous.screen.length = snapshot.screen.length &&
      state.deltaFramesSinceFull < ptyDeltaFullInterval

/-- The delta to the snapshot, if one is sent in place of the full state. -/
def deltaDatagram (state : PtyDatagramState) (snapshot : PtySnapshot) (maxSize fullEncoded : ℕ) :
    Option PtyStateDeltaDatagram :=
  if state.canDelta snapshot then
    state.last.bind fun previous =>
      (derivePtyRowDeltas previous snapshot).bind fun changes =>
        let delta : PtyStateDeltaDatagram :=
          ⟨sessionId, previous.generation, snapshot.generation, snapshot.rows, snapshot.cols, changes,
            snapshot.cursorRow, snapshot.cursorCol⟩
        if (encodePtyStateDeltaDatagram encoding delta maxSize).any (· < fullEncoded) &&
            link.deltaAccepted then
          some delta
        else none
  else none

def sendPtyStateDeltaOrFull (snapshot : PtySnapshot) (state : PtyDatagramState) :
    Option PtyDatagram × PtyDatagramState :=
  match link.maxDatagramSize, encoding.full (fullDatagram sessionId snapshot) with
  | some maxSize, some fullEncoded =>
      match deltaDatagram encoding link sessionId state snapshot maxSize fullEncoded with
      | some delta =>
          (some (.delta delta snapshot), ⟨some snapshot, min 255 (state.deltaFramesSinceFull + 1)⟩)
      | none =>
          if fullEncoded ≤ maxSize && link.fullAccepted then
            (some (.full (fullDatagram sessionId snapshot)), ⟨some snapshot, 0⟩)
          else (none, ⟨none, 0⟩)
  | _, _ => (none, state)

end Send

structure PtyFeatures where
  richState : Bool
  stateDelta : Bool
  scrollback : Bool
  deriving DecidableEq

inductive PtyFrame where
  | ready (snapshot : PtySnapshot)
  | readyRich (snapshot : PtyRichSnapshot)
  | readyScrollback (generation rows cols : ℕ) (lines : List String)
  | output (generation : ℕ) (data : Bytes)
  deriving DecidableEq

/-- Where `handle_pty` is. -/
inductive PtyPhase where
  | closed
  /-- The PTY has the size of the request. -/
  | opened
  /-- The snapshot is written, the scrollback may have to be. -/
  | snapshotted (generation rows cols : ℕ) (scrollback : Bool)
  /-- In the loop. -/
  | live
  /-- `recv` returned a chunk. -/
  | received (data : Bytes)
  /-- `recv` returned `Lagged`. -/
  | lagged
  deriving DecidableEq

structure PtyAttachment where
  phase : PtyPhase
  position : ℕ
  datagramPending : Bool
  plainDatagramState : PtyDatagramState
  written : List PtyFrame
  deriving DecidableEq

structure PlainPtyScreenState where
  generation : ℕ
  rows : ℕ
  cols : ℕ
  screen : List String
  cursorRow : ℕ
  cursorCol : ℕ
  deriving DecidableEq

namespace PlainPtyScreenState

def maxRowBytes : ℕ := 64 * 1024

def fromSnapshot (snapshot : PtySnapshot) : PlainPtyScreenState :=
  ⟨snapshot.generation, snapshot.rows, snapshot.cols, snapshot.screen, snapshot.cursorRow,
    snapshot.cursorCol⟩

def fromDatagram (datagram : PtyStateDatagram) : PlainPtyScreenState :=
  ⟨datagram.generation, datagram.rows, datagram.cols, datagram.screen, datagram.cursorRow,
    datagram.cursorCol⟩

/-- The loop that checks the changes, with the row of the one before. -/
def changesValid (screen : PlainPtyScreenState) : Option ℕ → List PtyRowDelta → Bool
  | _, [] => true
  | previousRow, change :: changes =>
      if change.row ≥ screen.rows || change.row ≥ screen.screen.length ||
          change.text.utf8ByteSize > maxRowBytes || previousRow.any (change.row ≤ ·) then false
      else screen.changesValid (some change.row) changes

def applyDelta (delta : PtyStateDeltaDatagram) (screen : PlainPtyScreenState) :
    PlainPtyScreenState × Option Bool :=
  if delta.baseGeneration ≠ screen.generation ∨ delta.generation ≤ delta.baseGeneration ∨
      delta.rows ≠ screen.rows ∨ delta.cols ≠ screen.cols ∨
      delta.changes.length > screen.screen.length then (screen, none)
  else if !screen.changesValid none delta.changes then (screen, none)
  else
    ({ screen with
        screen := delta.changes.foldl (fun rows change => rows.set change.row change.text)
          screen.screen
        generation := delta.generation
        cursorRow := delta.cursorRow
        cursorCol := delta.cursorCol },
      some (!delta.changes.isEmpty || screen.cursorRow ≠ delta.cursorRow ||
        screen.cursorCol ≠ delta.cursorCol))

end PlainPtyScreenState

structure PtyClient where
  newestGeneration : ℕ
  plainScreenState : Option PlainPtyScreenState
  deriving DecidableEq

namespace PtyClient

/-- `record_pty_generation`. -/
def recordPtyGeneration (candidate : ℕ) (client : PtyClient) : PtyClient × Bool :=
  if candidate ≤ client.newestGeneration then (client, false)
  else ({ client with newestGeneration := candidate }, true)

/-- A snapshot is used if it is newer than everything before. -/
def replaceIfNewer (candidate : ℕ) (screen : Option PlainPtyScreenState) (client : PtyClient) :
    PtyClient :=
  match client.recordPtyGeneration candidate with
  | (client, true) => { client with plainScreenState := screen }
  | (client, false) => client

def readDatagram (sessionId : Uuid) (datagram : PtyDatagram) (client : PtyClient) : PtyClient :=
  match datagram with
  | .delta delta _ =>
      if delta.sessionId = sessionId ∧ delta.generation ≥ client.newestGeneration then
        match client.plainScreenState with
        | none => client
        | some screen =>
            match screen.applyDelta delta with
            | (screen, some _) =>
                ⟨max client.newestGeneration delta.generation, some screen⟩
            | (screen, none) => { client with plainScreenState := some screen }
      else client
  | .rich session snapshot =>
      if session = sessionId then (client.recordPtyGeneration snapshot.generation).1 else client
  | .full datagram =>
      if datagram.sessionId = sessionId then
        client.replaceIfNewer datagram.generation (some (.fromDatagram datagram))
      else client

end PtyClient

/-- A frame of the stream: the first is read by `open_pty`. -/
def readPtyFrame (client : Option PtyClient) (frame : PtyFrame) : Option PtyClient :=
  match client, frame with
  | none, .ready snapshot => some ⟨snapshot.generation, some (.fromSnapshot snapshot)⟩
  | none, .readyRich snapshot => some ⟨snapshot.generation, none⟩
  | none, _ => none
  | some client, .ready snapshot =>
      some (client.replaceIfNewer snapshot.generation (some (.fromSnapshot snapshot)))
  | some client, .readyRich snapshot => some (client.replaceIfNewer snapshot.generation none)
  | some client, .readyScrollback .. => some client
  | some client, .output generation _ => some (client.recordPtyGeneration generation).1

/-- `chunks` has every chunk that the reader put on the screen, `published` every plain
snapshot that the attachment sent in a frame or a datagram. -/
structure PtyWorld (τ : Type) where
  pty : PtyState τ
  /-- The chunk on the screen that is not in the channel yet. -/
  reader : Option Bytes
  chunks : List Bytes
  output : List Bytes
  attachment : PtyAttachment
  datagrams : List PtyDatagram
  published : List PtySnapshot
  read : ℕ
  client : Option PtyClient

inductive PtyAction where
  /-- The reader puts a chunk on the screen. -/
  | process (chunk : Bytes)
  /-- The reader puts it into the channel. -/
  | send
  /-- Another attachment resizes the PTY. -/
  | resize (rows cols : ℕ)
  | openPty (rows cols : ℕ)
  | writeSnapshot
  | writeScrollback (lines : List String)
  | subscribe
  | recv
  | writeOutput
  | writeLagSnapshot
  | resizeRequest (rows cols : ℕ)
  | tick (link : DatagramLink)
  | readFrame
  | readDatagram (i : ℕ)
  deriving DecidableEq

def validPtySize (rows cols : ℕ) : Bool :=
  0 < rows && 0 < cols && rows ≤ ptyMaxDimension && cols ≤ ptyMaxDimension

namespace PtyWorld

variable {τ : Type} (T : Terminal τ) (encoding : PtyEncoding) (sessionId : Uuid)
  (features : PtyFeatures)

def spawned (rows cols generation : ℕ) : PtyWorld τ :=
  ⟨.spawn T rows cols generation, none, [], [], ⟨.closed, 0, false, ⟨none, 0⟩, []⟩, [], [], 0, none⟩

/-- Take a snapshot and write it: the phase after it and, for a plain one, the base of
datagrams. -/
def writeReady (phase : ℕ → ℕ → ℕ → PtyPhase) (w : PtyWorld τ) : PtyWorld τ :=
  if features.richState then
    let (snapshot, pty) := w.pty.richSnapshot T
    { w with
      pty := pty
      attachment := { w.attachment with
        phase := phase snapshot.generation snapshot.rows snapshot.cols
        written := w.attachment.written ++ [.readyRich snapshot] } }
  else
    let (snapshot, pty) := w.pty.snapshot T
    { w with
      pty := pty
      attachment := { w.attachment with
        phase := phase snapshot.generation snapshot.rows snapshot.cols
        plainDatagramState := ⟨some snapshot, 0⟩
        written := w.attachment.written ++ [.ready snapshot] }
      published := snapshot :: w.published }

/-- `receiver.recv()`; nothing happens while the channel is empty. -/
def recv (w : PtyWorld τ) : Option (PtyWorld τ) :=
  match Broadcast.recv ptyOutputCapacity w.output w.attachment.position with
  | (.value data, next) =>
      some { w with attachment := { w.attachment with phase := .received data, position := next } }
  | (.lagged _, next) =>
      some { w with attachment := { w.attachment with phase := .lagged, position := next } }
  | (.empty, _) => none

def sendState (link : DatagramLink) (w : PtyWorld τ) : PtyWorld τ :=
  if features.richState then
    let (snapshot, pty) := w.pty.richSnapshot T
    { w with
      pty := pty
      datagrams := (if link.fullAccepted then [.rich sessionId snapshot] else []) ++ w.datagrams }
  else
    let (snapshot, pty) := w.pty.snapshot T
    let (sent, state) :=
      if features.stateDelta then
        sendPtyStateDeltaOrFull encoding link sessionId snapshot w.attachment.plainDatagramState
      else
        (sendPtyStateDatagram encoding link sessionId snapshot, w.attachment.plainDatagramState)
    { w with
      pty := pty
      attachment := { w.attachment with plainDatagramState := state }
      datagrams := sent.toList ++ w.datagrams
      published := (sent.map fun _ => snapshot).toList ++ w.published }

def act (action : PtyAction) (w : PtyWorld τ) : Option (PtyWorld τ) :=
  match action, w.attachment.phase with
  | .process chunk, _ =>
      if w.reader.isSome then none
      else some { w with
        pty := w.pty.process T chunk, reader := some chunk, chunks := w.chunks ++ [chunk] }
  | .send, _ =>
      w.reader.map fun chunk => { w with reader := none, output := w.output ++ [chunk] }
  | .resize rows cols, _ =>
      if validPtySize rows cols then some { w with pty := w.pty.resize T rows cols } else none
  | .openPty rows cols, .closed =>
      if validPtySize rows cols then
        some { w with
          pty := w.pty.resize T rows cols
          attachment := { w.attachment with phase := .opened } }
      else none
  | .writeSnapshot, .opened =>
      some (w.writeReady T features fun generation rows cols =>
        .snapshotted generation rows cols features.scrollback)
  | .writeScrollback lines, .snapshotted generation rows cols true =>
      some { w with
        attachment := { w.attachment with
          phase := .snapshotted generation rows cols false
          written := w.attachment.written ++ [.readyScrollback generation rows cols lines] } }
  | .subscribe, .snapshotted _ _ _ false =>
      some { w with
        attachment := { w.attachment with phase := .live, position := w.output.length } }
  | .recv, .live => w.recv
  | .writeOutput, .received data =>
      some { w with
        attachment := { w.attachment with
          phase := .live
          datagramPending := true
          written := w.attachment.written ++ [.output w.pty.generation data] } }
  | .writeLagSnapshot, .lagged =>
      let w := w.writeReady T features fun _ _ _ => .live
      some { w with attachment := { w.attachment with datagramPending := true } }
  | .resizeRequest rows cols, .live =>
      if validPtySize rows cols then
        some { w with
          pty := w.pty.resize T rows cols
          attachment := { w.attachment with datagramPending := true } }
      else none
  | .tick link, .live =>
      if w.attachment.datagramPending then
        let w := { w with attachment := { w.attachment with datagramPending := false } }
        some (w.sendState T encoding sessionId features link)
      else some w
  | .readFrame, _ =>
      w.attachment.written[w.read]?.map fun frame =>
        { w with read := w.read + 1, client := readPtyFrame w.client frame }
  | .readDatagram i, _ =>
      w.datagrams[i]?.bind fun datagram =>
        w.client.map fun client => { w with client := some (client.readDatagram sessionId datagram) }
  | _, _ => none

end PtyWorld

section Machine

variable {τ : Type} (T : Terminal τ) (encoding : PtyEncoding) (sessionId : Uuid)
  (features : PtyFeatures)

def ptyMachine : Steps.Machine PtyAction (PtyWorld τ) where
  act := PtyWorld.act T encoding sessionId features
  fault _ _ := []

end Machine

/-- The action takes a snapshot that the client may use as a base. -/
def PtyAction.takesSnapshot : PtyAction → Bool
  | .writeSnapshot | .writeLagSnapshot | .tick _ => true
  | _ => false

/-- The snapshot is identified by its generation and geometry among those that were sent. -/
def PtyWorld.ScreensAgree {τ : Type} (T : Terminal τ) (w : PtyWorld τ) (action : PtyAction) : Prop :=
  action.takesSnapshot → ∀ earlier ∈ w.published,
    earlier.generation = (w.pty.snapshot T).1.generation →
    earlier.rows = (w.pty.snapshot T).1.rows → earlier.cols = (w.pty.snapshot T).1.cols →
    earlier.screen = (w.pty.snapshot T).1.screen

/-- What each frame says about the chunks: those after a snapshot follow it one by one.
`next` is the generation that the stream is at. -/
def PtyFollows (base : ℕ) (chunks : List Bytes) : Option ℕ → List PtyFrame → Prop
  | _, [] => True
  | _, .ready snapshot :: frames => PtyFollows base chunks (some snapshot.generation) frames
  | _, .readyRich snapshot :: frames => PtyFollows base chunks (some snapshot.generation) frames
  | next, .readyScrollback .. :: frames => PtyFollows base chunks next frames
  | none, .output .. :: _ => False
  | some generation, .output _ data :: frames =>
      chunks[generation - base]? = some data ∧ PtyFollows base chunks (some (generation + 1)) frames

/-- At the subscription the channel has had the chunks of the snapshot and no others, and
the receiver never falls behind the channel. -/
def PtyWorld.InStep {τ : Type} (base : ℕ) (w : PtyWorld τ) (action : PtyAction) : Prop :=
  (action = .subscribe → ∀ generation rows cols,
    w.attachment.phase = .snapshotted generation rows cols false →
      generation = base + w.output.length) ∧
  (action = .recv → ¬ Broadcast.Lagging ptyOutputCapacity w.output w.attachment.position)

end Asp
