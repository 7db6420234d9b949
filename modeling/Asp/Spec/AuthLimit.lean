import Asp.Lib.Lookup
import Asp.Lib.Steps
import Asp.Spec.Basic

/-! The guard in front of authentication: `auth_attempt_allowed`, `record_auth_failure`
and `record_auth_success` of a daemon that requires credentials. Each holds the mutex of
the table of sources; time is counted in nanoseconds. -/

namespace Asp

open Std

abbrev IpAddr := ℕ

def authFailureWindow : ℕ := 60 * 10 ^ 9
def authFailureLimit : ℕ := 32
def authFailureBlock : ℕ := 30 * 10 ^ 9
def maxAuthFailureSources : ℕ := 4096
def u32Max : ℕ := 2 ^ 32 - 1

structure AuthFailureWindow where
  started : ℕ
  failures : ℕ
  blockedUntil : Option ℕ
  deriving DecidableEq

abbrev AuthFailureWindows := ExtTreeMap IpAddr AuthFailureWindow

namespace AuthFailureWindow

def fresh (now : ℕ) : AuthFailureWindow := ⟨now, 0, none⟩

def blocked (now : ℕ) (window : AuthFailureWindow) : Bool :=
  window.blockedUntil.any fun limit => now < limit

/-- What `retain` keeps. -/
def live (now : ℕ) (window : AuthFailureWindow) : Bool :=
  window.blocked now || now - window.started < authFailureWindow

/-- A block that is over, or a window that is, starts a new window. -/
def renew (now : ℕ) (window : AuthFailureWindow) : AuthFailureWindow :=
  if window.blockedUntil.any (· ≤ now) || authFailureWindow ≤ now - window.started then fresh now
  else window

def block (now : ℕ) (window : AuthFailureWindow) : AuthFailureWindow :=
  if window.failures ≥ authFailureLimit then
    { window with blockedUntil := some (now + authFailureBlock) }
  else window

end AuthFailureWindow

def retainWindows (now : ℕ) (windows : AuthFailureWindows) : AuthFailureWindows :=
  Lookup.select (fun _ window => if window.live now then some window else none) windows

/-- `min_by_key` over the start times may return this source. -/
def isOldest (windows : AuthFailureWindows) (source : IpAddr) : Bool :=
  (windows[source]?).any fun oldest =>
    windows.toList.all fun entry => oldest.started ≤ entry.2.started

/-- A new source has to be added to a full table. -/
def crowdedOut (windows : AuthFailureWindows) (source : IpAddr) : Bool :=
  source ∉ windows && maxAuthFailureSources ≤ windows.size

/-- `victim` is the entry that goes. -/
def makeRoom (windows : AuthFailureWindows) (source victim : IpAddr) : Option AuthFailureWindows :=
  if crowdedOut windows source then
    if isOldest windows victim then some (windows.erase victim) else none
  else some windows

def authAttemptAllowed (windows : AuthFailureWindows) (source : IpAddr) (now : ℕ)
    (victim : IpAddr) : Option (AuthFailureWindows × Bool) :=
  (makeRoom (retainWindows now windows) source victim).map fun windows =>
    let window := (windows[source]?).getD (.fresh now)
    if window.blocked now then (windows.insert source window, false)
    else
      let window := window.renew now
      if window.failures ≥ authFailureLimit then (windows.insert source (window.block now), false)
      else (windows.insert source window, true)

def recordAuthFailure (windows : AuthFailureWindows) (source : IpAddr) (now : ℕ)
    (victim : IpAddr) : Option AuthFailureWindows :=
  (makeRoom (retainWindows now windows) source victim).map fun windows =>
    let window := ((windows[source]?).getD (.fresh now)).renew now
    let window := { window with failures := min (window.failures + 1) u32Max }
    windows.insert source (window.block now)

def recordAuthSuccess (windows : AuthFailureWindows) (source : IpAddr) : AuthFailureWindows :=
  windows.erase source

structure AuthGate where
  windows : AuthFailureWindows
  clock : ℕ
  deriving DecidableEq

inductive AuthAction where
  | attempt (source : IpAddr) (now : ℕ) (victim : IpAddr)
  | failure (source : IpAddr) (now : ℕ) (victim : IpAddr)
  | success (source : IpAddr) (now : ℕ)
  deriving DecidableEq

def AuthAction.now : AuthAction → ℕ
  | .attempt _ now _ | .failure _ now _ | .success _ now => now

def authMachine : Steps.Machine AuthAction AuthGate where
  act action gate :=
    if gate.clock ≤ action.now then
      (match action with
        | .attempt source now victim =>
            (authAttemptAllowed gate.windows source now victim).map Prod.fst
        | .failure source now victim => recordAuthFailure gate.windows source now victim
        | .success source _ => some (recordAuthSuccess gate.windows source)).map
        fun windows => ⟨windows, action.now⟩
    else none
  fault _ _ := []

def AuthGate.initial : AuthGate := ⟨∅, 0⟩

/-- A newcomer to a full table finds an entry that is older than the one of `blocked`. -/
def SparesOldest (blocked : IpAddr) (gate : AuthGate) (source : IpAddr) (now : ℕ) : Prop :=
  crowdedOut (retainWindows now gate.windows) source = true →
    ∀ window, gate.windows[blocked]? = some window →
      ∃ (other : IpAddr) (older : AuthFailureWindow),
        (retainWindows now gate.windows)[other]? = some older ∧ older.started < window.started

/-- The source does not authenticate, no failure of it is recorded after its window, and
newcomers do not push it out. -/
def KeepsBlock (blocked : IpAddr) (gate : AuthGate) : AuthAction → Prop
  | .attempt source now _ => SparesOldest blocked gate source now
  | .failure source now _ => SparesOldest blocked gate source now ∧
      (source = blocked → ∀ window, gate.windows[blocked]? = some window →
        now - window.started < authFailureWindow)
  | .success source _ => source ≠ blocked

end Asp
