import Mathlib.Tactic

/-! The positions at which two lists of one length differ, and writing them over the
first list. -/

namespace Patch

variable {α : Type*}

/-- What has to be written, the first position being `start`. -/
def changesFrom [DecidableEq α] (start : ℕ) (old new : List α) : List (ℕ × α) :=
  (((old.zip new).zipIdx start).filter fun entry => entry.1.1 ≠ entry.1.2).map
    fun entry => (entry.2, entry.1.2)

def write (base : List α) (changes : List (ℕ × α)) : List α :=
  changes.foldl (fun list change => list.set change.1 change.2) base

variable [DecidableEq α]

theorem changesFrom_cons (start : ℕ) (x y : α) (old new : List α) :
    changesFrom start (x :: old) (y :: new) =
      if x = y then changesFrom (start + 1) old new
      else (start, y) :: changesFrom (start + 1) old new := by
  unfold changesFrom
  rw [List.zip_cons_cons, List.zipIdx_cons, List.filter_cons]
  split_ifs <;> simp_all

theorem write_changesFrom (done : List α) {old new : List α} (h : old.length = new.length) :
    write (done ++ old) (changesFrom done.length old new) = done ++ new := by
  induction old generalizing done new with
  | nil =>
    obtain rfl := List.length_eq_zero_iff.mp h.symm
    rfl
  | cons x old ih =>
    cases new with
    | nil => cases h
    | cons y new =>
      -- the rest is written with one more element done
      have hrest := ih (done ++ [y]) (Nat.succ.inj h)
      rw [List.length_append, List.length_singleton, List.append_assoc, List.append_assoc] at hrest
      rw [changesFrom_cons]
      split_ifs with hxy
      · rwa [hxy]
      · have hset : (done ++ x :: old).set done.length y = done ++ y :: old := by
          rw [List.set_append_right _ _ le_rfl, Nat.sub_self]
          rfl
        rwa [write, List.foldl_cons, hset]

theorem write_changes {old new : List α} (h : old.length = new.length) :
    write old (changesFrom 0 old new) = new :=
  write_changesFrom [] h

theorem changesFrom_lt {start : ℕ} {old new : List α} {change : ℕ × α}
    (h : change ∈ changesFrom start old new) : change.1 < start + old.length := by
  obtain ⟨entry, hentry, rfl⟩ := List.mem_map.mp h
  have hidx := List.mem_zipIdx (List.mem_of_mem_filter hentry)
  have hlength : (old.zip new).length ≤ old.length := by
    rw [List.length_zip]
    exact Nat.min_le_left _ _
  omega

theorem length_changesFrom_le (start : ℕ) (old new : List α) :
    (changesFrom start old new).length ≤ old.length := by
  rw [changesFrom, List.length_map]
  refine (List.length_filter_le _ _).trans ?_
  rw [List.length_zipIdx, List.length_zip]
  exact Nat.min_le_left _ _

end Patch
