import Asp.Spec.FileTransaction

/-! The content of one path over many transactions. The workspace gate admits one transaction at a
time; between two of them the file may be changed by others, such as a process of the session. -/

namespace Asp

open Std Durable Steps

/-- A transaction is over: its call has replied, and not that its rollback failed, or the next
daemon has recovered it, after any number of stops and failures. -/
inductive FileScene.Ends (x : FileScene) (w : FileWorld) : Prop
  | replied {w₀ : FileWorld} {faults : List FileIo} {reply : FileReply} (hstart : x.Starts w₀)
      (hgets : fileMachine.Gets (commitFileTransaction x.sha256 x.call) w₀ faults (.ret reply) w)
      (hreply : ∀ site failure, reply ≠ .error (.rollbackFailed site failure))
  | recovered {w₀ w₁ w₂ : FileWorld} {unixMs : ℕ} (hstart : x.Starts w₀)
      (hreach : x.Reaches FileWorld.Recent w₀ w₁) (hrestart : x.Restart FileWorld.Recent w₁ w₂)
      (heval : fileMachine.eval (x.recovery unixMs) w₂ = (.ok (), w))

/-- What has changed the content: a transaction with `expected_sha256`, or something else. -/
inductive FileEdit where
  | guarded (x : FileScene)
  | other (content : Option Entry)

def FileEdit.content : FileEdit → Option Entry
  | .guarded x => some (.file x.staged)
  | .other content => content

def contentAfter (initial : Option Entry) (edits : List FileEdit) : Option Entry :=
  (edits.getLast?.map FileEdit.content).getD initial

/-- The edits of a file with this content at first, and its content after them. -/
inductive FileEdits (sha256 : Bytes → String) (initial : Option Entry) :
    List FileEdit → Option Entry → Prop
  | start : FileEdits sha256 initial [] initial
  | other {edits : List FileEdit} {old : Option Entry} (hedits : FileEdits sha256 initial edits old)
      (content : Option Entry) : FileEdits sha256 initial (edits ++ [.other content]) content
  | stored {edits : List FileEdit} {x : FileScene} {w : FileWorld}
      (hedits : FileEdits sha256 initial edits x.target) (hsha256 : x.sha256 = sha256)
      (hhash : x.Hashes) (hguard : x.call.expectedSha256 ≠ none) (hends : x.Ends w)
      (hstored : x.Stored w) : FileEdits sha256 initial (edits ++ [.guarded x]) w.files.target
  | failed {edits : List FileEdit} {x : FileScene} {w : FileWorld}
      (hedits : FileEdits sha256 initial edits x.target) (hsha256 : x.sha256 = sha256)
      (hhash : x.Hashes) (hguard : x.call.expectedSha256 ≠ none) (hends : x.Ends w)
      (hfailed : ¬ x.Stored w) : FileEdits sha256 initial edits w.files.target

end Asp
