import Asp.Spec.Pty

/-! What `handle_pty` does with the frames that a client writes to an attached PTY, and
`PersistentPty::write_async` behind it. The write waits for the permit of the PTY and then
runs on a thread of its own, which a timeout of the attachment does not stop. -/

namespace Asp

def ptyInputMaxBytes : ℕ := 64 * 1024

structure PtyInputSequencer where
  last : Option ℕ
  deriving DecidableEq

/-- Whether the sequence is new, or the one that is expected in its place. -/
def PtyInputSequencer.accept (sequence : ℕ) (s : PtyInputSequencer) :
    Except ℕ Bool × PtyInputSequencer :=
  match s.last with
  | none => if sequence = 0 then (.ok true, ⟨some sequence⟩) else (.error 0, s)
  | some last =>
      if sequence ≤ last then (.ok false, s)
      else if sequence = saturatingAdd last 1 then (.ok true, ⟨some sequence⟩)
      else (.error (saturatingAdd last 1), s)

structure PtyInputSequenced where
  sequence : ℕ
  data : Bytes
  sequence_le : sequence ≤ usizeMax
  deriving DecidableEq

/-- Input with a sequence number or without one. -/
inductive PtyInput where
  | plain (data : Bytes)
  | sequenced (frame : PtyInputSequenced)
  deriving DecidableEq

/-- A frame of the client; any other request and any other session is `other`. -/
inductive PtyMessage where
  | input (input : PtyInput)
  | resize (rows cols : ℕ)
  | other
  deriving DecidableEq

/-- What the store says about the frame; `none` is no objection. -/
structure PtyChecks where
  principal : Bool
  current : Bool
  scope : Bool
  budget : Option String
  headroom : Option String
  /-- `pty.resize` does not fail. -/
  resized : Bool
  deriving DecidableEq

/-- How the attachment ends: with an error frame, or by an error of its own. -/
inductive PtyRefusal where
  | answered (code message : String)
  | broken
  deriving DecidableEq

namespace PtyChecks

def admitFrame (checks : PtyChecks) : Option PtyRefusal :=
  if !checks.principal then some .broken
  else if !checks.current then some (.answered "authentication_revoked" "PTY credential was revoked")
  else if !checks.scope then some .broken
  else checks.budget.map (.answered "principal_byte_budget")

def admitInput (checks : PtyChecks) (data : Bytes) : Option PtyRefusal :=
  checks.admitFrame.or <|
    if data.length > ptyInputMaxBytes then
      some (.answered "pty_input_too_large"
        ("PTY input exceeds " ++ toString ptyInputMaxBytes ++ " bytes"))
    else checks.headroom.map (.answered "storage_headroom")

def admitResize (checks : PtyChecks) (rows cols : ℕ) : Option PtyRefusal :=
  checks.admitFrame.or <|
    if !validPtySize rows cols then
      some (.answered "invalid_pty_size" ("PTY dimensions must be 1.." ++ toString ptyMaxDimension))
    else if !checks.resized then some .broken
    else none

end PtyChecks

def ptyInputGap (expected sequence : ℕ) : PtyRefusal :=
  .answered "pty_input_gap"
    ("expected sequence " ++ toString expected ++ ", got " ++ toString sequence)

inductive PtyInputPhase where
  | reading
  /-- `write_async` waits for the permit. -/
  | queued (input : PtyInput)
  /-- The blocking write runs. -/
  | writing (input : PtyInput)
  | acknowledging (sequence : ℕ)
  | ended
  deriving DecidableEq

inductive PtyInputEvent where
  | received (message : PtyMessage)
  /-- `PersistentPty::write` is called. -/
  | handed (input : PtyInput)
  /-- It returned without an error. -/
  | wrote (input : PtyInput)
  | acknowledged (sequence : ℕ)
  | refused (refusal : PtyRefusal)
  deriving DecidableEq

/-- One attachment; `detached` is a write that goes on after a timeout. -/
structure PtyInputWorld where
  sequencer : PtyInputSequencer
  phase : PtyInputPhase
  detached : Option PtyInput
  trace : List PtyInputEvent
  deriving DecidableEq

inductive PtyInputAction where
  | receive (message : PtyMessage) (checks : PtyChecks)
  /-- The stream ends, or reading from it or writing output to it fails. -/
  | close
  /-- `reauth_tick` finds the credential revoked. -/
  | revoke
  | acquire
  | finishWrite
  | failWrite
  | timeout
  | writeAck
  | failAck
  deriving DecidableEq

namespace PtyInputWorld

def attached : PtyInputWorld := ⟨⟨none⟩, .reading, none, []⟩

def record (event : PtyInputEvent) (w : PtyInputWorld) : PtyInputWorld :=
  { w with trace := w.trace ++ [event] }

def refuse (refusal : PtyRefusal) (w : PtyInputWorld) : PtyInputWorld :=
  { w.record (.refused refusal) with phase := .ended }

def receive (message : PtyMessage) (checks : PtyChecks) (w : PtyInputWorld) : PtyInputWorld :=
  match message with
  | .input (.plain data) =>
      match checks.admitInput data with
      | some refusal => w.refuse refusal
      | none => { w with phase := .queued (.plain data) }
  | .input (.sequenced frame) =>
      match checks.admitInput frame.data with
      | some refusal => w.refuse refusal
      | none =>
          match w.sequencer.accept frame.sequence with
          | (.error expected, _) => w.refuse (ptyInputGap expected frame.sequence)
          | (.ok true, sequencer) =>
              { w with sequencer := sequencer, phase := .queued (.sequenced frame) }
          | (.ok false, sequencer) =>
              { w with sequencer := sequencer, phase := .acknowledging frame.sequence }
  | .resize rows cols =>
      match checks.admitResize rows cols with
      | some refusal => w.refuse refusal
      | none => w
  | .other =>
      w.refuse (.answered "invalid_pty_message" "unexpected message on PTY stream")

/-- After a write, only sequenced input is acknowledged. -/
def written (input : PtyInput) (w : PtyInputWorld) : PtyInputWorld :=
  match input with
  | .plain _ => { w with phase := .reading }
  | .sequenced frame => { w with phase := .acknowledging frame.sequence }

def act (action : PtyInputAction) (w : PtyInputWorld) : Option PtyInputWorld :=
  match action, w.phase, w.detached with
  | .receive message checks, .reading, _ =>
      some ((w.record (.received message)).receive message checks)
  | .close, .reading, _ => some { w with phase := .ended }
  | .revoke, .reading, _ =>
      some (w.refuse (.answered "authentication_revoked" "PTY credential was revoked"))
  | .acquire, .queued input, _ => some { w.record (.handed input) with phase := .writing input }
  | .timeout, .queued _, _ => some { w with phase := .ended }
  | .finishWrite, .writing input, _ => some ((w.record (.wrote input)).written input)
  | .failWrite, .writing _, _ => some { w with phase := .ended }
  | .timeout, .writing input, _ => some { w with phase := .ended, detached := some input }
  | .finishWrite, .ended, some input => some { w.record (.wrote input) with detached := none }
  | .failWrite, .ended, some _ => some { w with detached := none }
  | .writeAck, .acknowledging sequence, _ =>
      some { w.record (.acknowledged sequence) with phase := .reading }
  | .failAck, .acknowledging _, _ => some { w with phase := .ended }
  | _, _, _ => none

end PtyInputWorld

def ptyInputMachine : Steps.Machine PtyInputAction PtyInputWorld where
  act := PtyInputWorld.act
  fault _ _ := []

def PtyInputEvent.receivedFrame : PtyInputEvent → Option PtyInputSequenced
  | .received (.input (.sequenced frame)) => some frame
  | _ => none

def PtyInputEvent.handedFrame : PtyInputEvent → Option PtyInputSequenced
  | .handed (.sequenced frame) => some frame
  | _ => none

def PtyInputEvent.wroteFrame : PtyInputEvent → Option PtyInputSequenced
  | .wrote (.sequenced frame) => some frame
  | _ => none

def receivedFrames (trace : List PtyInputEvent) : List PtyInputSequenced :=
  trace.filterMap (·.receivedFrame)

def handedFrames (trace : List PtyInputEvent) : List PtyInputSequenced :=
  trace.filterMap (·.handedFrame)

def wroteFrames (trace : List PtyInputEvent) : List PtyInputSequenced :=
  trace.filterMap (·.wroteFrame)

def frameOf (frames : List PtyInputSequenced) (sequence : ℕ) : Option PtyInputSequenced :=
  frames.find? fun frame => frame.sequence == sequence

end Asp
