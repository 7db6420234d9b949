import Mathlib.Tactic

/-! Finite maps to natural numbers, where a missing key counts as zero. `raise`
never lowers a value; `collect` lets the last entry of a key win, so it depends on
the order of the entries unless they agree. -/

namespace MaxMap

open Std

variable {κ : Type*} [Ord κ] [TransOrd κ]

def value (m : ExtTreeMap κ ℕ) (k : κ) : ℕ := m.getD k 0

def raise (m : ExtTreeMap κ ℕ) (k : κ) (v : ℕ) : ExtTreeMap κ ℕ := m.insert k (max (value m k) v)

def raiseAll (m : ExtTreeMap κ ℕ) (entries : List (κ × ℕ)) : ExtTreeMap κ ℕ :=
  entries.foldl (fun m entry => raise m entry.1 entry.2) m

def collect (entries : List (κ × ℕ)) : ExtTreeMap κ ℕ :=
  entries.foldl (fun m entry => m.insert entry.1 entry.2) ∅

variable {m : ExtTreeMap κ ℕ} {k k' : κ} {v : ℕ} {entries : List (κ × ℕ)}

theorem value_of_getElem? (h : m[k]? = some v) : value m k = v := by
  rw [value, ExtTreeMap.getD_eq_getD_getElem?, h, Option.getD_some]

theorem getElem?_of_value_pos (h : 0 < value m k) : m[k]? = some (value m k) := by
  rw [value, ExtTreeMap.getD_eq_getD_getElem?] at h ⊢
  cases hget : m[k]? with
  | none =>
    rw [hget] at h
    exact absurd h (lt_irrefl 0)
  | some v => rfl

@[simp] theorem value_insert_self (m : ExtTreeMap κ ℕ) (k : κ) (v : ℕ) :
    value (m.insert k v) k = v := ExtTreeMap.getD_insert_self

theorem le_value_raise (m : ExtTreeMap κ ℕ) (k : κ) (v : ℕ) : v ≤ value (raise m k v) k := by
  rw [raise, value_insert_self]
  exact le_max_right ..

variable [LawfulEqOrd κ]

theorem value_insert_of_ne (h : k ≠ k') (v : ℕ) : value (m.insert k v) k' = value m k' := by
  rw [value, ExtTreeMap.getD_insert, if_neg (fun hcmp => h (LawfulEqCmp.eq_of_compare hcmp))]
  rfl

theorem value_le_raise (m : ExtTreeMap κ ℕ) (k k' : κ) (v : ℕ) :
    value m k' ≤ value (raise m k v) k' := by
  unfold raise
  rcases eq_or_ne k k' with rfl | h
  · rw [value_insert_self]
    exact le_max_left ..
  · rw [value_insert_of_ne h]

theorem value_le_raiseAll (m : ExtTreeMap κ ℕ) (entries : List (κ × ℕ)) (k : κ) :
    value m k ≤ value (raiseAll m entries) k := by
  induction entries generalizing m with
  | nil => exact le_rfl
  | cons entry entries ih => exact (value_le_raise m entry.1 k entry.2).trans (ih _)

theorem le_value_raiseAll (h : (k, v) ∈ entries) : v ≤ value (raiseAll m entries) k := by
  induction entries generalizing m with
  | nil => exact absurd h List.not_mem_nil
  | cons entry entries ih =>
    rcases List.mem_cons.mp h with rfl | h
    · exact (le_value_raise m k v).trans (value_le_raiseAll _ entries k)
    · exact ih h

theorem collect_of_agree (h : (k, v) ∈ entries) (hagree : ∀ v', (k, v') ∈ entries → v' = v) :
    (collect entries)[k]? = some v := by
  suffices hfold : ∀ (entries : List (κ × ℕ)) (m : ExtTreeMap κ ℕ),
      (m[k]? = some v ∨ (k, v) ∈ entries) → (∀ v', (k, v') ∈ entries → v' = v) →
      (entries.foldl (fun m entry => m.insert entry.1 entry.2) m)[k]? = some v from
    hfold entries ∅ (.inr h) hagree
  intro entries
  induction entries with
  | nil =>
    intro m h _
    exact h.resolve_right List.not_mem_nil
  | cons entry entries ih =>
    intro m h hagree
    refine ih _ ?_ fun v' hv' => hagree v' (List.mem_cons_of_mem _ hv')
    obtain ⟨k', v'⟩ := entry
    rcases eq_or_ne k' k with rfl | hne
    · obtain rfl := hagree v' List.mem_cons_self
      exact .inl ExtTreeMap.getElem?_insert_self
    · have hother : (k, v) ≠ (k', v') := fun heq => hne (Prod.mk.inj heq).1.symm
      refine h.imp (fun hm => ?_) fun hmem => (List.mem_cons.mp hmem).resolve_left hother
      rwa [ExtTreeMap.getElem?_insert, if_neg (fun hcmp => hne (LawfulEqCmp.eq_of_compare hcmp))]

end MaxMap
