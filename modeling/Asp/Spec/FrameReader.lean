import Asp.Lib.StagedRead
import Asp.Spec.Frame

/-! Reading frames in the loops of an attached terminal: `read_frame_with_budget` in
`handle_pty`, and `read_response_frame` in the client's `shell`. Both are branches of a
`select!` that is entered anew for every event, so a read that waits is dropped when
another branch is ready, with the bytes that it has. -/

namespace Asp

open Framing StagedRead

def frameCodecOffloadMinBytes : ℕ := 64 * 1024
def plainResponseCodecOffloadMinBytes : ℕ := 256 * 1024

inductive Endpoint where
  | server
  | client
  deriving DecidableEq

inductive ReadStage where
  | header
  /-- The fixed envelope, before memory is charged for the frame. -/
  | envelope (length : ℕ)
  /-- Waiting for `acquire_many_owned`. -/
  | memory (length : ℕ) (front : Bytes)
  | body (length : ℕ) (front : Bytes)
  /-- Waiting for the blocking task that decodes. -/
  | decoding (payload : Bytes)
  deriving DecidableEq

inductive FrameReadError where
  | wireTooLarge (maximum : ℕ)
  | legacyTooLarge
  | short
  | frame (error : FrameError)
  | decode
  deriving DecidableEq

section Reader

variable {α : Type} (z : Zlib) (message : Message α) (endpoint : Endpoint) (version : ℕ)

def frameCompressed (payload : Bytes) : Bool :=
  version = protocolVersion && frameHeaderBytes ≤ payload.length && payload.getD 2 0 = 1

/-- Whether decoding leaves the reactor, so that the read waits once more. -/
def offloadsDecode (payload : Bytes) : Bool :=
  match endpoint with
  | .server => !(!frameCompressed version payload &&
      payload.length < frameCompressionMinBytes && payload.length < frameCodecOffloadMinBytes)
  | .client => frameCompressed version payload ||
      plainResponseCodecOffloadMinBytes ≤ payload.length

def decodeRead (payload : Bytes) : Next ReadStage FrameReadError α :=
  match decodeFramePayloadForVersion z payload version with
  | .error error => .failed (.frame error)
  | .ok decoded =>
      match message.decode decoded with
      | none => .failed .decode
      | some value => .done value

def payloadRead (payload : Bytes) : Next ReadStage FrameReadError α :=
  if offloadsDecode endpoint version payload then .stage (.decoding payload)
  else decodeRead z message version payload

def bodyRead (length : ℕ) (front : Bytes) : Next ReadStage FrameReadError α :=
  if length = front.length then payloadRead z message endpoint version front
  else .stage (.body length front)

/-- The limit of `read_frame_payload_for_version`. -/
def maxPayloadBytes : ℕ :=
  if version = legacyProtocolVersion then maxFrameBytes else maxWireFrameBytes

def headerRead (len : Bytes) : Next ReadStage FrameReadError α :=
  let length := ofBe len
  match endpoint with
  | .server =>
      if length > maxWireFrameBytes then .failed (.wireTooLarge maxWireFrameBytes)
      else if version = legacyProtocolVersion then
        if length > maxFrameBytes then .failed .legacyTooLarge else .stage (.memory length [])
      else if length < frameHeaderBytes then .failed .short
      else .stage (.envelope length)
  | .client =>
      if length > maxPayloadBytes version then .failed (.wireTooLarge (maxPayloadBytes version))
      else bodyRead z message endpoint version length []

def frameReader : Reader ReadStage FrameReadError α where
  start := .header
  need
    | .header => 4
    | .envelope _ => frameHeaderBytes
    | .memory _ _ => 0
    | .body length front => length - front.length
    | .decoding _ => 0
  next stage bytes :=
    match stage with
    | .header => headerRead z message endpoint version bytes
    | .envelope length =>
        match frameDecodedLen bytes with
        | .error error => .failed (.frame error)
        | .ok _ => .stage (.memory length bytes)
    | .memory length front => bodyRead z message endpoint version length front
    | .body _ front => payloadRead z message endpoint version (front ++ bytes)
    | .decoding payload => decodeRead z message version payload

/-- `write_frame_for_version` -/
def writeFrame (value : α) : Except FrameError Bytes :=
  match encodeFramePayloadForVersion z (message.encode value) version with
  | .error error => .error error
  | .ok payload =>
      if payload.length ≥ 2 ^ 32 then .error .lengthOverflow
      else .ok (be32 payload.length ++ payload)

def writeFrames : List α → Except FrameError Bytes
  | [] => .ok []
  | value :: values =>
      match writeFrame z message version value, writeFrames values with
      | .ok frame, .ok rest => .ok (frame ++ rest)
      | .error error, _ => .error error
      | _, .error error => .error error

end Reader

end Asp
