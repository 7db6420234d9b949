import Asp.Spec.Frame
import Asp.Spec.Pty

/-! The bytes of a PTY datagram. Three forms share the channel: the plain state is bare
`postcard`, the delta and the rich state have a prefix of two bytes, and the rich state has
a second prefix for its compressed form. -/

namespace Asp

open Framing

def ptyDatagramMaxDecodedBytes : ℕ := 8 * 1024 * 1024
def ptyDatagramMaxRows : ℕ := 4096
def ptyRichDatagramMagic : Bytes := [0x50, 0x52]
def ptyRichCompressedDatagramMagic : Bytes := [0x50, 0x5A]
def ptyRichDatagramMaxDecodedBytes : ℕ := 8 * 1024 * 1024

structure PtyStateRichDatagram where
  sessionId : Uuid
  generation : ℕ
  rows : ℕ
  cols : ℕ
  screen : Bytes
  cursorRow : ℕ
  cursorCol : ℕ
  deriving DecidableEq

def PtyStateDatagram.Fits (d : PtyStateDatagram) : Prop :=
  d.sessionId < 2 ^ 128 ∧ d.generation < 2 ^ 64 ∧ d.rows < 2 ^ 16 ∧ d.cols < 2 ^ 16 ∧
    d.cursorRow < 2 ^ 16 ∧ d.cursorCol < 2 ^ 16

def PtyStateDeltaDatagram.Fits (d : PtyStateDeltaDatagram) : Prop :=
  d.sessionId < 2 ^ 128 ∧ d.baseGeneration < 2 ^ 64 ∧ d.generation < 2 ^ 64 ∧ d.rows < 2 ^ 16 ∧
    d.cols < 2 ^ 16 ∧ (∀ change ∈ d.changes, change.row < 2 ^ 16) ∧ d.cursorRow < 2 ^ 16 ∧
    d.cursorCol < 2 ^ 16

def PtyStateRichDatagram.Fits (d : PtyStateRichDatagram) : Prop :=
  d.sessionId < 2 ^ 128 ∧ d.generation < 2 ^ 64 ∧ d.rows < 2 ^ 16 ∧ d.cols < 2 ^ 16 ∧
    d.cursorRow < 2 ^ 16 ∧ d.cursorCol < 2 ^ 16

/-- `encode_message` and `decode_message` for a type whose first field is a session id: the
id is written as a byte string, with its length before it. -/
structure SessionMessage (α : Type) (sessionId : α → Uuid) (Fits : α → Prop) where
  encode : α → Bytes
  decode : Bytes → Option α
  decode_encode : ∀ x, Fits x → decode (encode x) = some x
  encode_uuid : ∀ x, Fits x → ∃ rest, encode x = 16 :: be 16 (sessionId x) ++ rest

structure PtyMessages where
  state : SessionMessage PtyStateDatagram (·.sessionId) PtyStateDatagram.Fits
  delta : SessionMessage PtyStateDeltaDatagram (·.sessionId) PtyStateDeltaDatagram.Fits
  rich : SessionMessage PtyStateRichDatagram (·.sessionId) PtyStateRichDatagram.Fits

inductive PtyWireError where
  | stateTooLarge
  | deltaTooLarge
  | richTooLarge
  | compressedTooLarge
  | truncated
  /-- `postcard` fails, also at an element beyond the limit of a `BoundedVec`. -/
  | decode
  | frame (error : FrameError)
  deriving DecidableEq

/-- A wire type, whose sequence is a `BoundedVec` with a limit. -/
def SessionMessage.decodeBounded {α : Type} {sessionId : α → Uuid} {Fits : α → Prop}
    (message : SessionMessage α sessionId Fits) (count : α → ℕ) (limit : ℕ) (bytes : Bytes) :
    Except PtyWireError α :=
  match message.decode bytes with
  | none => .error .decode
  | some x => if count x > limit then .error .decode else .ok x

namespace PtyMessages

variable (m : PtyMessages) (z : Zlib)

def encodeStateDelta (datagram : PtyStateDeltaDatagram) (maxSize : ℕ) : Option Bytes :=
  if datagram.changes.length > ptyDeltaMaxRows then none
  else
    let encoded := m.delta.encode datagram
    let total := saturatingAdd ptyDeltaDatagramMagic.length encoded.length
    if encoded.length > ptyDeltaDatagramMaxDecodedBytes ∨ total > maxSize then none
    else some (ptyDeltaDatagramMagic ++ encoded)

def decodeStateDelta (payload : Bytes) : Except PtyWireError (Option PtyStateDeltaDatagram) :=
  if ¬ ptyDeltaDatagramMagic.isPrefixOf payload then .ok none
  else
    let body := payload.drop ptyDeltaDatagramMagic.length
    if body.length > ptyDeltaDatagramMaxDecodedBytes then .error .deltaTooLarge
    else (m.delta.decodeBounded (·.changes.length) ptyDeltaMaxRows body).map some

def decodeState (payload : Bytes) : Except PtyWireError PtyStateDatagram :=
  if payload.length > ptyDatagramMaxDecodedBytes then .error .stateTooLarge
  else m.state.decodeBounded (·.screen.length) ptyDatagramMaxRows payload

/-- The compressed form, if it is allowed and worth it. -/
def compressedRich (encoded : Bytes) (maxSize : ℕ) (allowCompression : Bool) :
    Except FrameError (Option Bytes) :=
  if allowCompression ∧ encoded.length ≥ frameCompressionMinBytes then
    (encodeFramePayload z encoded).map fun framed =>
      let plainLen := saturatingAdd ptyRichDatagramMagic.length encoded.length
      let compressedLen := saturatingAdd ptyRichCompressedDatagramMagic.length framed.length
      if (framed.length ≥ frameHeaderBytes ∧
          framed.getD frameMagic.length 0 = frameEncodingZlib) ∧
          compressedLen < plainLen ∧ compressedLen ≤ maxSize then
        some (ptyRichCompressedDatagramMagic ++ framed)
      else none
  else .ok none

def encodeRich (datagram : PtyStateRichDatagram) (maxSize : ℕ) (allowCompression : Bool) :
    Except FrameError (Option Bytes) :=
  let encoded := m.rich.encode datagram
  if encoded.length > ptyRichDatagramMaxDecodedBytes then .ok none
  else
    (compressedRich z encoded maxSize allowCompression).map fun
      | some payload => some payload
      | none =>
          if saturatingAdd ptyRichDatagramMagic.length encoded.length > maxSize then none
          else some (ptyRichDatagramMagic ++ encoded)

def decodeRichBody (body : Bytes) : Except PtyWireError (Option PtyStateRichDatagram) :=
  (m.rich.decodeBounded (·.screen.length) ptyRichDatagramMaxDecodedBytes body).map some

/-- What follows the prefix of the compressed form. -/
def decodeCompressedRich (frame : Bytes) : Except PtyWireError (Option PtyStateRichDatagram) :=
  if frame.length < frameHeaderBytes then .error .truncated
  else
    match frameDecodedLen (frame.take frameHeaderBytes) with
    | .error error => .error (.frame error)
    | .ok decodedLen =>
        if decodedLen > ptyRichDatagramMaxDecodedBytes then .error .compressedTooLarge
        else
          match decodeFramePayload z frame with
          | .error error => .error (.frame error)
          | .ok decoded => m.decodeRichBody decoded

def decodeRich (payload : Bytes) (allowCompression : Bool) :
    Except PtyWireError (Option PtyStateRichDatagram) :=
  if ptyRichDatagramMagic.isPrefixOf payload then
    if payload.length - ptyRichDatagramMagic.length > ptyRichDatagramMaxDecodedBytes then
      .error .richTooLarge
    else m.decodeRichBody (payload.drop ptyRichDatagramMagic.length)
  else if ptyRichCompressedDatagramMagic.isPrefixOf payload then
    if !allowCompression then .ok none
    else m.decodeCompressedRich z (payload.drop ptyRichCompressedDatagramMagic.length)
  else .ok none

end PtyMessages

/-- What a connection negotiated of the features that choose a form. -/
structure PtyWireFeatures where
  ptyRichState : Bool
  ptyRichCompression : Bool
  ptyStateDelta : Bool
  deriving DecidableEq

namespace PtyWireFeatures

variable (features : PtyWireFeatures)

def richState : Bool := features.ptyRichState
def richCompression : Bool := features.richState && features.ptyRichCompression
def deltaState : Bool := !features.richState && features.ptyStateDelta

end PtyWireFeatures

inductive PtyUpdate where
  | plain (datagram : PtyStateDatagram)
  /-- `full` is the state that the delta leads to. -/
  | delta (datagram : PtyStateDeltaDatagram) (full : PtyStateDatagram)
  | rich (datagram : PtyStateRichDatagram)
  deriving DecidableEq

def PtyUpdate.Fits : PtyUpdate → Prop
  | .plain datagram => datagram.Fits
  | .delta datagram _ => datagram.Fits
  | .rich datagram => datagram.Fits

/-- The limits of the decoders that the encoders do not check themselves. -/
def PtyUpdate.WithinLimits (m : PtyMessages) : PtyUpdate → Prop
  | .plain datagram =>
      datagram.screen.length ≤ ptyDatagramMaxRows ∧
        (m.state.encode datagram).length ≤ ptyDatagramMaxDecodedBytes
  | .delta _ _ => True
  | .rich datagram => datagram.screen.length ≤ ptyRichDatagramMaxDecodedBytes

/-- What the client has of a datagram once a decoder accepted it. -/
inductive PtyReceived where
  | plain (datagram : PtyStateDatagram)
  | delta (datagram : PtyStateDeltaDatagram)
  | rich (datagram : PtyStateRichDatagram)
  | ignored
  deriving DecidableEq

def PtyUpdate.received : PtyUpdate → PtyReceived
  | .plain datagram => .plain datagram
  | .delta datagram _ => .delta datagram
  | .rich datagram => .rich datagram

def PtyDatagram.update : PtyDatagram → PtyUpdate
  | .full datagram => .plain datagram
  | .delta datagram derivedFor => .delta datagram (fullDatagram datagram.sessionId derivedFor)
  | .rich sessionId snapshot =>
      .rich ⟨sessionId, snapshot.generation, snapshot.rows, snapshot.cols, snapshot.screen,
        snapshot.cursorRow, snapshot.cursorCol⟩

namespace PtyMessages

variable (m : PtyMessages) (z : Zlib) (features : PtyWireFeatures)

/-- `send_pty_state_datagram`; the full state of `send_pty_state_delta_or_full` is sent so too. -/
def sendState (maxSize : ℕ) (datagram : PtyStateDatagram) : Option Bytes :=
  let encoded := m.state.encode datagram
  if encoded.length ≤ maxSize then some encoded else none

/-- The delta of `send_pty_state_delta_or_full`, if it is used. -/
def sendStateDelta (maxSize : ℕ) (datagram : PtyStateDeltaDatagram) (full : PtyStateDatagram) :
    Option Bytes :=
  (m.encodeStateDelta datagram maxSize).filter (·.length < (m.state.encode full).length)

/-- `send_pty_state_rich_datagram`. -/
def sendRich (maxSize : ℕ) (datagram : PtyStateRichDatagram) : Option Bytes :=
  match m.encodeRich z datagram maxSize features.richCompression with
  | .ok payload => payload
  | .error _ => none

/-- The payload that the server emits for an update, if it emits that form. -/
def emit (maxSize : ℕ) : PtyUpdate → Option Bytes
  | .rich datagram => if features.richState then m.sendRich z features maxSize datagram else none
  | .delta datagram full =>
      if features.deltaState then m.sendStateDelta maxSize datagram full else none
  | .plain datagram => if features.richState then none else m.sendState maxSize datagram

/-- The lengths that the choice between a delta and the full state goes by. -/
def encoding : PtyEncoding where
  full datagram := some (m.state.encode datagram).length
  delta datagram := some (m.delta.encode datagram).length

/-- The client tries the decoders in turn; a decoder that fails hands the payload on. -/
def dispatch (payload : Bytes) : PtyReceived :=
  match if features.ptyStateDelta then m.decodeStateDelta payload else .ok none with
  | .ok (some delta) => .delta delta
  | _ =>
      match m.decodeRich z payload features.ptyRichCompression with
      | .ok (some datagram) => .rich datagram
      | _ =>
          match m.decodeState payload with
          | .ok datagram => .plain datagram
          | .error _ => .ignored

end PtyMessages

end Asp
