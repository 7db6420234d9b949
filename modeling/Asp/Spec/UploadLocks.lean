import Asp.Lib.Steps
import Asp.Spec.Basic

/-! The locks of uploads: `upload_lock`, `release_upload_lock`, the drop of an `UploadLockLease`
and `prune_staging_root`. Each step is what a thread does between two points where others can
run; the map's own mutex is held by whole steps, or by a prune over several. -/

namespace Asp

/-- An upload waits for its lock, holds the guard, has dropped it (or given up waiting), has run
the drop handler of its lease and has dropped the lease's `Arc`. -/
inductive LockPhase
  | waiting
  | holding
  | unlocked
  | released
  | gone
  deriving DecidableEq

def LockPhase.leased : LockPhase → Bool
  | .waiting | .holding | .unlocked => true
  | .released | .gone => false

structure UploadLockLease where
  requestId : Uuid
  lock : ℕ
  phase : LockPhase
  deriving DecidableEq

structure UploadSession where
  uploadLocks : Uuid → Option ℕ
  /-- One for each upload so far. -/
  leases : List UploadLockLease
  nextLock : ℕ
  /-- The modification times of the files in a staging directory. -/
  staging : Uuid → Option (List ℕ)
  /-- A prune that holds the map's mutex for this directory. -/
  pruning : Option Uuid

namespace UploadSession

def initial (staging : Uuid → Option (List ℕ)) : UploadSession := ⟨fun _ => none, [], 0, staging, none⟩

def uploadLock (s : UploadSession) (requestId : Uuid) : UploadSession × ℕ :=
  match s.uploadLocks requestId with
  | some lock => (s, lock)
  | none =>
      ({ s with uploadLocks := Function.update s.uploadLocks requestId (some s.nextLock),
                nextLock := s.nextLock + 1 }, s.nextLock)

/-- `Arc::strong_count` of a lock that is in the map: the map's own reference and those of
leases. -/
def strongCount (s : UploadSession) (lock : ℕ) : ℕ :=
  1 + s.leases.countP fun lease => lease.lock = lock ∧ lease.phase ≠ .gone

def releaseUploadLock (s : UploadSession) (requestId : Uuid) (lock : ℕ) : UploadSession :=
  if s.uploadLocks requestId = some lock ∧ s.strongCount lock = 2 then
    { s with uploadLocks := Function.update s.uploadLocks requestId none }
  else s

/-- An empty directory goes at once, another one when its newest file is old enough. -/
def stagingExpired (now retention : ℕ) (modified : List ℕ) : Bool :=
  modified.max?.elim true fun newest => ¬ now - newest < retention

def move (s : UploadSession) (upload : ℕ) (lease : UploadLockLease) (phase : LockPhase) :
    UploadSession :=
  { s with leases := s.leases.set upload { lease with phase := phase } }

end UploadSession

inductive UploadAction
  | begin (requestId : Uuid)
  | acquire (upload : ℕ)
  /-- The upload writes or removes its staging directory. -/
  | stage (upload : ℕ) (modified : Option (List ℕ))
  /-- It returns, fails or is cancelled. -/
  | unlock (upload : ℕ)
  | dropHandler (upload : ℕ)
  | dropLock (upload : ℕ)
  | pruneCheck (requestId : Uuid)
  | pruneRemove (now retention : ℕ)
  | pruneNext

namespace UploadSession

def act (s : UploadSession) : UploadAction → Option UploadSession
  | .begin requestId =>
      if s.pruning = none then
        let (s, lock) := s.uploadLock requestId
        some { s with leases := s.leases ++ [⟨requestId, lock, .waiting⟩] }
      else none
  | .acquire upload => do
      let lease ← s.leases[upload]?
      if lease.phase = .waiting ∧
          ∀ other ∈ s.leases, ¬ (other.phase = .holding ∧ other.lock = lease.lock) then
        some (s.move upload lease .holding)
      else none
  | .stage upload modified => do
      let lease ← s.leases[upload]?
      if lease.phase = .holding then
        some { s with staging := Function.update s.staging lease.requestId modified }
      else none
  | .unlock upload => do
      let lease ← s.leases[upload]?
      if lease.phase = .waiting ∨ lease.phase = .holding then some (s.move upload lease .unlocked)
      else none
  | .dropHandler upload => do
      let lease ← s.leases[upload]?
      if s.pruning = none ∧ lease.phase = .unlocked then
        some ((s.releaseUploadLock lease.requestId lease.lock).move upload lease .released)
      else none
  | .dropLock upload => do
      let lease ← s.leases[upload]?
      if lease.phase = .released then some (s.move upload lease .gone) else none
  | .pruneCheck requestId =>
      if s.pruning = none then
        if (s.uploadLocks requestId).isSome then some s else some { s with pruning := some requestId }
      else none
  | .pruneRemove now retention => do
      let requestId ← s.pruning
      let modified ← s.staging requestId
      if stagingExpired now retention modified then
        some { s with staging := Function.update s.staging requestId none }
      else none
  | .pruneNext => if s.pruning.isSome then some { s with pruning := none } else none

end UploadSession

def uploadMachine : Steps.Machine UploadAction UploadSession := ⟨fun action s => s.act action, fun _ _ => []⟩

/-- The last lease of a request id runs its drop handler when no lease of its lock is between its
own handler and the drop of its `Arc`. -/
def UploadSession.DropsApart (s : UploadSession) : UploadAction → Prop
  | .dropHandler upload => ∀ lease, s.leases[upload]? = some lease →
      (∀ i other, i ≠ upload → s.leases[i]? = some other → other.requestId = lease.requestId →
        other.phase.leased = false) →
      ∀ other ∈ s.leases, other.lock = lease.lock → other.phase ≠ .released
  | _ => True

end Asp
