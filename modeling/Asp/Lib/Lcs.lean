import Mathlib.Tactic

/-! Longest common subsequences and the walk that follows one: equal heads are
paired; of two different heads the left one is dropped unless that costs a
pair. The walk stops as soon as one of the lists is empty. -/

namespace Lcs

variable {α : Type*} [DecidableEq α]

def len : List α → List α → ℕ
  | [], _ => 0
  | _ :: _, [] => 0
  | x :: xs, y :: ys =>
      if x = y then 1 + len xs ys else max (len xs (y :: ys)) (len (x :: xs) ys)
termination_by xs ys => xs.length + ys.length

@[simp] theorem len_nil_left (ys : List α) : len [] ys = 0 := by
  rw [len]

@[simp] theorem len_nil_right (xs : List α) : len xs [] = 0 := by
  cases xs <;> simp [len]

theorem len_cons_cons (x y : α) (xs ys : List α) :
    len (x :: xs) (y :: ys) =
      if x = y then 1 + len xs ys else max (len xs (y :: ys)) (len (x :: xs) ys) := by
  rw [len]

/-- The walk empties both lists in the same step. -/
def RunOutTogether : List α → List α → Prop
  | [], [] => True
  | [], _ :: _ => False
  | _ :: _, [] => False
  | x :: xs, y :: ys =>
      if x = y then RunOutTogether xs ys
      else if len (x :: xs) ys ≤ len xs (y :: ys) then RunOutTogether xs (y :: ys)
      else RunOutTogether (x :: xs) ys
termination_by xs ys => xs.length + ys.length

@[simp] theorem runOutTogether_nil_left (ys : List α) : RunOutTogether [] ys ↔ ys = [] := by
  cases ys <;> simp [RunOutTogether]

@[simp] theorem runOutTogether_nil_right (xs : List α) : RunOutTogether xs [] ↔ xs = [] := by
  cases xs <;> simp [RunOutTogether]

theorem runOutTogether_cons_cons (x y : α) (xs ys : List α) :
    RunOutTogether (x :: xs) (y :: ys) ↔
      if x = y then RunOutTogether xs ys
      else if len (x :: xs) ys ≤ len xs (y :: ys) then RunOutTogether xs (y :: ys)
      else RunOutTogether (x :: xs) ys := by
  rw [RunOutTogether]

def unread : List α → List α → List α × List α
  | [], ys => ([], ys)
  | x :: xs, [] => (x :: xs, [])
  | x :: xs, y :: ys =>
      if x = y then unread xs ys
      else if len (x :: xs) ys ≤ len xs (y :: ys) then unread xs (y :: ys)
      else unread (x :: xs) ys
termination_by xs ys => xs.length + ys.length

@[simp] theorem unread_nil_left (ys : List α) : unread [] ys = ([], ys) := by
  rw [unread]

@[simp] theorem unread_nil_right (xs : List α) : unread xs [] = (xs, []) := by
  cases xs <;> simp [unread]

theorem unread_cons_cons (x y : α) (xs ys : List α) :
    unread (x :: xs) (y :: ys) =
      if x = y then unread xs ys
      else if len (x :: xs) ys ≤ len xs (y :: ys) then unread xs (y :: ys)
      else unread (x :: xs) ys := by
  rw [unread]

end Lcs
