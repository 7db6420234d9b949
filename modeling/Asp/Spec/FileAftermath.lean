import Asp.Spec.FileTransaction

/-! What becomes of a file transaction once its call is over: other writers use
the path, the session goes on, daemons stop and start. The loop of
`recover_pending_file_mutations` is followed for the intent of this transaction;
its work on the intents of others is the work of other writers. -/

namespace Asp

open Std Durable Steps

namespace FileScene

variable (x : FileScene)

/-- The names of the transaction are new on the disk too: no image from before it
has its backup, its intent or its event. -/
structure Fresh (w : FileWorld) : Prop where
  backup : ∀ f ∈ w.dir.images, f.backup = none
  intent : ∀ i ∈ w.intent.images, i = none
  journal : ∀ events ∈ w.journal.images, mutationsOf x.call.requestId events = 0

/-- One thing that others do: edit, replace or remove the target, inside or
outside a transaction, sync a directory, or append an event of their own. -/
inductive Later (w : FileWorld) : FileWorld → Prop
  | edit (entry : Option Entry) :
      Later w { w with dir := w.dir.change { w.files with target := entry } }
  | syncDir : Later w { w with dir := w.dir.sync }
  | syncIntents : Later w { w with intent := w.intent.sync }
  | event (e : Event) (hother : mutationsOf x.call.requestId [e] = 0) :
      Later w
        { w with
          journal := .stable (w.journal.now ++ [e])
          tables := x.restored (w.journal.now ++ [e]) }
  | failedEvent (e : Event) (hother : mutationsOf x.call.requestId [e] = 0) :
      Later w { w with journal := w.journal.undone (w.journal.now ++ [e]) }

/-- The start of a daemon up to its work on the intent: others may be first. -/
inductive Reopens (w : FileWorld) : FileWorld → Prop
  | restart {w₁ : FileWorld} (hrestart : x.Restart (fun _ _ => True) w w₁) : Reopens w w₁
  | later {w₁ w₂ : FileWorld} (hreopens : Reopens w w₁) (hlater : x.Later w₁ w₂) : Reopens w w₂

/-- The states after the call has ended or was cut off, with any errors in it and
in the recoveries after it. -/
inductive Aftermath (w₀ : FileWorld) : FileWorld → Prop
  | call {w : FileWorld} {faults : List FileIo} {p : FileProgram}
      (hgets : fileMachine.Gets (commitFileTransaction x.sha256 x.call) w₀ faults p w) :
      Aftermath w₀ w
  | later {w w' : FileWorld} (haftermath : Aftermath w₀ w) (hlater : x.Later w w') :
      Aftermath w₀ w'
  | recovery {w w₁ w' : FileWorld} {unixMs : ℕ} {faults : List FileIo} {p : RecoverProgram}
      (haftermath : Aftermath w₀ w) (hreopens : x.Reopens w w₁)
      (hgets : fileMachine.Gets (x.recovery unixMs) w₁ faults p w') : Aftermath w₀ w'

/-- Recovery has succeeded, the target is what it was, and nothing is left of the
transaction. -/
structure Cleaned (w : FileWorld) (result : Except RecoverError Unit × FileWorld) : Prop where
  reply : result.1 = .ok ()
  target : result.2.files.target = w.files.target
  temporary : result.2.files.temporary = none
  backup : result.2.files.backup = none
  intent : result.2.intent.now = none

/-- A daemon that finds the intent also finds the committed bytes, and one that
does not find it finds nothing else of the transaction. -/
def Recoverable (w : FileWorld) : Prop :=
  match w.intent.now with
  | some p => Entry.digest x.sha256 w.files.target = some p.sha256
  | none => w.files.temporary = none ∧ w.files.backup = none

instance (w : FileWorld) : Decidable (x.Recoverable w) :=
  match h : w.intent.now with
  | some p =>
      decidable_of_iff (Entry.digest x.sha256 w.files.target = some p.sha256)
        (by rw [Recoverable, h])
  | none =>
      decidable_of_iff (w.files.temporary = none ∧ w.files.backup = none) (by rw [Recoverable, h])

end FileScene

end Asp
