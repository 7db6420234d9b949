import Asp.Spec.FrameReader
import Asp.Spec.SelectedFiles

/-! The framing mode of a connection: `read_frame_with_budget` on its streams, the mode that they
share, and the memory that a request is charged. -/

namespace Asp

open Framing

inductive FrameMode
  | unknown
  | legacy
  | current
  deriving DecidableEq

/-- `frame_mode_version` -/
def FrameMode.version : FrameMode → ℕ
  | .legacy => legacyProtocolVersion
  | _ => protocolVersion

def frameModeForVersion (version : ℕ) : Option FrameMode :=
  if version = legacyProtocolVersion then some .legacy
  else if version = protocolVersion then some .current
  else none

inductive BudgetReadError
  | frame (error : FrameReadError)
  | memoryOverflow
  | unitOverflow
  | memoryExhausted
  | modeChanged (existing detected : FrameMode)
  deriving DecidableEq

/-- `frame_memory_units` with its overflow checks. -/
def checkedFrameMemoryUnits (length : ℕ) : Except BudgetReadError ℕ :=
  if length + (frameMemoryUnitBytes - 1) > usizeMax then .error .memoryOverflow
  else if frameMemoryUnits length ≥ 2 ^ 32 then .error .unitOverflow
  else .ok (frameMemoryUnits length)

/-- The units of a frame in an envelope, from its first bytes. -/
def envelopeMemoryUnits (length : ℕ) (front : Bytes) : Except BudgetReadError ℕ := do
  let decodedLength ← (frameDecodedLen front).mapError fun error => .frame (.frame error)
  let wirePermits ← checkedFrameMemoryUnits length
  if front.getD 2 0 = 1 then
    let permits := wirePermits + (← checkedFrameMemoryUnits decodedLength)
    if permits ≥ 2 ^ 32 then .error .unitOverflow else .ok permits
  else .ok wirePermits

def firstFrameMemoryUnits (mode : FrameMode) (length : ℕ) (front : Bytes) : Except BudgetReadError ℕ :=
  if mode = .legacy then checkedFrameMemoryUnits length else envelopeMemoryUnits length front

/-- A read on one stream between two of its waits. -/
inductive FrameRead
  | idle
  /-- The mode was unknown: the first bytes decide it. -/
  | first (length : ℕ)
  | envelope (length : ℕ)
  /-- The memory is charged. `pins` if the mode was unknown. -/
  | body (mode : FrameMode) (length : ℕ) (front : Bytes) (permits : ℕ) (pins : Bool)
  | failed (error : BudgetReadError)
  deriving DecidableEq

structure ReturnedRequest (α : Type) where
  value : α
  mode : FrameMode
  payload : Bytes
  permits : ℕ

structure FrameConnection (α : Type) where
  frameMode : FrameMode
  streams : ℕ → FrameRead
  returned : List (ReturnedRequest α)

inductive FrameAction
  /-- The length arrives and the mode is loaded; memory is acquired in time or not. -/
  | header (stream : ℕ) (len : Bytes) (acquired : Bool)
  /-- The first bytes arrive. -/
  | front (stream : ℕ) (bytes : Bytes) (acquired : Bool)
  /-- The rest arrives, the mode is pinned and the payload decoded. -/
  | body (stream : ℕ) (bytes : Bytes)
  /-- An error of the stream, a timeout, or a `select!` that drops the read. -/
  | drop (stream : ℕ)
  /-- `validate_frame_mode_for_version` of a returned HELLO. -/
  | hello (version : ℕ)

namespace FrameConnection

variable {α : Type} (z : Zlib) (message : Message α)

def initial : FrameConnection α := ⟨.unknown, fun _ => .idle, []⟩

def put (s : FrameConnection α) (stream : ℕ) (read : FrameRead) : FrameConnection α :=
  { s with streams := Function.update s.streams stream read }

/-- `compare_exchange` from the unknown mode: the connection and the mode that it then has. -/
def pin (s : FrameConnection α) (mode : FrameMode) : FrameConnection α × FrameMode :=
  if s.frameMode = .unknown then ({ s with frameMode := mode }, mode) else (s, s.frameMode)

def detectMode (front : Bytes) : FrameMode :=
  if front.take 2 = frameMagic then .current else .legacy

/-- The charge for a frame, whose body comes next. -/
def charge (mode : FrameMode) (length : ℕ) (front : Bytes) (units : Except BudgetReadError ℕ)
    (acquired pins : Bool) : FrameRead :=
  match units with
  | .error error => .failed error
  | .ok permits => if acquired then .body mode length front permits pins else .failed .memoryExhausted

/-- What a length leads to in the mode that is loaded; a legacy frame is charged at once. -/
def headerNext (mode : FrameMode) (length : ℕ) (acquired : Bool) : FrameRead :=
  if length > maxWireFrameBytes then .failed (.frame (.wireTooLarge maxWireFrameBytes))
  else
    match mode with
    | .unknown => .first length
    | .legacy =>
        if length > maxFrameBytes then .failed (.frame .legacyTooLarge)
        else charge .legacy length [] (checkedFrameMemoryUnits length) acquired false
    | .current => if length < frameHeaderBytes then .failed (.frame .short) else .envelope length

def finish (s : FrameConnection α) (stream : ℕ) (mode : FrameMode) (payload : Bytes) (permits : ℕ) :
    FrameConnection α :=
  match decodeFramePayloadForVersion z payload mode.version with
  | .error error => s.put stream (.failed (.frame (.frame error)))
  | .ok decoded =>
      match message.decode decoded with
      | none => s.put stream (.failed (.frame .decode))
      | some value =>
          { s.put stream .idle with returned := s.returned ++ [⟨value, mode, payload, permits⟩] }

def act (s : FrameConnection α) : FrameAction → Option (FrameConnection α)
  | .header stream len acquired =>
      if s.streams stream = .idle ∧ len.length = 4 then
        some (s.put stream (headerNext s.frameMode (ofBe len) acquired))
      else none
  | .front stream bytes acquired =>
      match s.streams stream with
      | .first length =>
          if bytes.length = min length frameHeaderBytes then
            let mode := detectMode bytes
            some (s.put stream
              (charge mode length bytes (firstFrameMemoryUnits mode length bytes) acquired true))
          else none
      | .envelope length =>
          if bytes.length = frameHeaderBytes then
            some (s.put stream (charge .current length bytes (envelopeMemoryUnits length bytes) acquired false))
          else none
      | _ => none
  | .body stream bytes =>
      match s.streams stream with
      | .body mode length front permits pins =>
          if front.length + bytes.length = length then
            if pins then
              let (s, existing) := s.pin mode
              if existing = mode then some (finish z message s stream mode (front ++ bytes) permits)
              else some (s.put stream (.failed (.modeChanged existing mode)))
            else some (finish z message s stream mode (front ++ bytes) permits)
          else none
      | _ => none
  | .drop stream => some (s.put stream .idle)
  | .hello version => (frameModeForVersion version).map fun mode => (s.pin mode).1

end FrameConnection

def frameMachine {α : Type} (z : Zlib) (message : Message α) :
    Steps.Machine FrameAction (FrameConnection α) :=
  ⟨fun action s => s.act z message action, fun _ _ => []⟩

def unitsFor (length : ℕ) : ℕ := (length + (frameMemoryUnitBytes - 1)) / frameMemoryUnitBytes

end Asp
