import Mathlib.Tactic

/-! A bounded broadcast channel, as `tokio::sync::broadcast` documents it: every
receiver reads all values in order from where it subscribed. The channel keeps
the last `capacity` values; a receiver that is further behind is told how many it
missed and goes on at the oldest one kept. -/

namespace Broadcast

variable {α : Type}

inductive Received (α : Type) where
  | value (x : α)
  | lagged (skipped : ℕ)
  | empty
  deriving DecidableEq

def Lagging (capacity : ℕ) (sent : List α) (position : ℕ) : Prop := position + capacity < sent.length

instance (capacity : ℕ) (sent : List α) (position : ℕ) : Decidable (Lagging capacity sent position) :=
  inferInstanceAs (Decidable (_ < _))

/-- `recv` of the receiver at `position`, and its next position. -/
def recv (capacity : ℕ) (sent : List α) (position : ℕ) : Received α × ℕ :=
  if Lagging capacity sent position then
    (.lagged (sent.length - capacity - position), sent.length - capacity)
  else
    match sent[position]? with
    | some x => (.value x, position + 1)
    | none => (.empty, position)

variable {capacity position : ℕ} {sent : List α}

theorem recv_cases (capacity : ℕ) (sent : List α) (position : ℕ) :
    (Lagging capacity sent position ∧ recv capacity sent position =
      (.lagged (sent.length - capacity - position), sent.length - capacity)) ∨
    (¬ Lagging capacity sent position ∧ ∃ x, sent[position]? = some x ∧
      recv capacity sent position = (.value x, position + 1)) ∨
    (¬ Lagging capacity sent position ∧ recv capacity sent position = (.empty, position)) := by
  unfold recv
  by_cases hlag : Lagging capacity sent position
  · exact .inl ⟨hlag, if_pos hlag⟩
  · rw [if_neg hlag]
    cases hget : sent[position]? with
    | some x => exact .inr (.inl ⟨hlag, x, rfl, rfl⟩)
    | none => exact .inr (.inr ⟨hlag, rfl⟩)

/-- `recv` with so many senders left: a receiver that has read everything waits, or is told
that the channel is closed, which is `none`. -/
def poll (capacity : ℕ) (sent : List α) (senders position : ℕ) : Option (Received α) × ℕ :=
  match recv capacity sent position with
  | (.empty, next) => (if senders = 0 then none else some .empty, next)
  | (received, next) => (some received, next)

theorem poll_ne_closed {senders : ℕ} (hsenders : senders ≠ 0) :
    (poll capacity sent senders position).1 ≠ none := by
  unfold poll
  split
  · rw [if_neg hsenders]
    exact Option.some_ne_none _
  · exact Option.some_ne_none _

end Broadcast
