import Asp.Lib.Lookup
import Asp.Spec.Basic

/-! The byte budgets of principals: `admit_request_bytes_for_owner` and `admit_response_bytes`.
Each call holds the mutex of its table; time is counted in nanoseconds. -/

namespace Asp

open Std

def principalRequestByteWindow : ℕ := 60 * 10 ^ 9
def maxPrincipalByteBudgetKeys : ℕ := 8192

/-- A limit that `open_with_budgets` takes. -/
structure ByteLimit where
  bytes : ℕ
  pos : 0 < bytes
  le : bytes ≤ 2 ^ 40

structure ByteBudgetWindow where
  started : ℕ
  bytes : ℕ
  deriving DecidableEq

def ByteBudgetWindow.live (now : ℕ) (window : ByteBudgetWindow) : Bool :=
  now - window.started < principalRequestByteWindow

abbrev ByteBudgetWindows (κ : Type) [Ord κ] := ExtTreeMap κ ByteBudgetWindow

inductive BudgetRefusal where
  | tableFull
  | exceeded
  deriving DecidableEq

section Admit

variable {κ : Type} [Ord κ] [TransOrd κ]

/-- `retain` -/
def retainBudgets (now : ℕ) (windows : ByteBudgetWindows κ) : ByteBudgetWindows κ :=
  Lookup.select (fun _ window => if window.live now then some window else none) windows

def admitBytes (limit : ByteLimit) (windows : ByteBudgetWindows κ) (key : κ) (bytes now : ℕ) :
    ByteBudgetWindows κ × Except BudgetRefusal Unit :=
  let windows := retainBudgets now windows
  if key ∉ windows ∧ maxPrincipalByteBudgetKeys ≤ windows.size then (windows, .error .tableFull)
  else
    let window := (windows[key]?).getD ⟨now, 0⟩
    let window := if window.live now then window else ⟨now, 0⟩
    let projected := saturatingAdd window.bytes bytes
    if limit.bytes < projected then (windows.insert key window, .error .exceeded)
    else (windows.insert key { window with bytes := projected }, .ok ())

end Admit

instance ordWindowKey : Ord (String × String) := lexOrd

def admitRequestBytesForOwner (limit : ByteLimit) (windows : ByteBudgetWindows (String × String))
    (owner operation : String) (bytes now : ℕ) :
    ByteBudgetWindows (String × String) × Except BudgetRefusal Unit :=
  admitBytes limit windows (owner, operation) bytes now

def admitResponseBytes (limit : ByteLimit) (windows : ByteBudgetWindows String) (owner : String)
    (bytes now : ℕ) : ByteBudgetWindows String × Except BudgetRefusal Unit :=
  admitBytes limit windows owner bytes now

inductive Meter where
  | request (owner operation : String)
  | response (owner : String)
  deriving DecidableEq

def Meter.owner : Meter → String
  | .request owner _ | .response owner => owner

structure BudgetCall where
  meter : Meter
  bytes : ℕ
  now : ℕ
  deriving DecidableEq

structure ByteBudgets where
  requestLimit : ByteLimit
  responseLimit : ByteLimit
  principalByteWindows : ByteBudgetWindows (String × String)
  principalResponseByteWindows : ByteBudgetWindows String

namespace ByteBudgets

def limit (b : ByteBudgets) : Meter → ℕ
  | .request .. => b.requestLimit.bytes
  | .response _ => b.responseLimit.bytes

def window (b : ByteBudgets) : Meter → Option ByteBudgetWindow
  | .request owner operation => b.principalByteWindows[(owner, operation)]?
  | .response owner => b.principalResponseByteWindows[owner]?

def handle (b : ByteBudgets) (call : BudgetCall) : ByteBudgets × Except BudgetRefusal Unit :=
  match call.meter with
  | .request owner operation =>
      let admission := admitRequestBytesForOwner b.requestLimit b.principalByteWindows owner operation
        call.bytes call.now
      ({ b with principalByteWindows := admission.1 }, admission.2)
  | .response owner =>
      let admission := admitResponseBytes b.responseLimit b.principalResponseByteWindows owner
        call.bytes call.now
      ({ b with principalResponseByteWindows := admission.1 }, admission.2)

def after (b : ByteBudgets) (calls : List BudgetCall) : ByteBudgets :=
  calls.foldl (fun b call => (b.handle call).1) b

def outcomes (b : ByteBudgets) : List BudgetCall → List (BudgetCall × Except BudgetRefusal Unit)
  | [] => []
  | call :: calls => (call, (b.handle call).2) :: outcomes (b.handle call).1 calls

/-- What is spent of the window that is open at `now`. -/
def spent (b : ByteBudgets) (now : ℕ) (meter : Meter) : ℕ :=
  ((b.window meter).filter (·.live now)).elim 0 ByteBudgetWindow.bytes

def initial (requestLimit responseLimit : ByteLimit) : ByteBudgets :=
  ⟨requestLimit, responseLimit, ∅, ∅⟩

/-- The bytes that a run lets through for a meter at the times that `p` selects. -/
def admittedBytes (b : ByteBudgets) (calls : List BudgetCall) (meter : Meter) (p : ℕ → Prop)
    [DecidablePred p] : ℕ :=
  (((b.outcomes calls).filter fun outcome =>
    outcome.1.meter = meter ∧ outcome.2.toBool = true ∧ p outcome.1.now).map (·.1.bytes)).sum

end ByteBudgets

end Asp
