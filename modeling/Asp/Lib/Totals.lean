import Mathlib.Tactic

/-! The total of a measure over the values of a map, and how it changes when an
entry is added or removed. -/

namespace Totals

open Std

variable {κ β : Type*} [Ord κ] [TransOrd κ] [LawfulEqOrd κ]

def total (f : β → ℕ) (m : ExtTreeMap κ β) : ℕ := (m.toList.map fun entry => f entry.2).sum

variable {m : ExtTreeMap κ β} {k : κ} {x : β} (f : β → ℕ)

theorem nodup_toList (m : ExtTreeMap κ β) : m.toList.Nodup := by
  refine (ExtTreeMap.distinct_keys_toList (t := m)).imp ?_
  rintro a b hne rfl
  exact hne compare_self

theorem total_insert (h : m[k]? = none) (x : β) : total f (m.insert k x) = total f m + f x := by
  have hperm : (m.insert k x).toList.Perm ((k, x) :: m.toList) := by
    refine (List.perm_ext_iff_of_nodup (nodup_toList _) ?_).mpr ?_
    · refine List.nodup_cons.mpr ⟨fun hmem => ?_, nodup_toList m⟩
      cases h.symm.trans (ExtTreeMap.mem_toList_iff_getElem?_eq_some.mp hmem)
    · rintro ⟨k', x'⟩
      rw [List.mem_cons, ExtTreeMap.mem_toList_iff_getElem?_eq_some,
        ExtTreeMap.mem_toList_iff_getElem?_eq_some, ExtTreeMap.getElem?_insert]
      split_ifs with heq
      · obtain rfl := LawfulEqCmp.eq_of_compare heq
        simp [h, eq_comm]
      · have hne : k' ≠ k := fun hk => heq (hk ▸ compare_self)
        simp [hne]
  rw [total, (hperm.map _).sum_eq, List.map_cons, List.sum_cons, Nat.add_comm]
  rfl

theorem erase_of_none (h : m[k]? = none) : m.erase k = m := by
  refine ExtTreeMap.ext_getElem? fun k' => ?_
  rw [ExtTreeMap.getElem?_erase]
  split_ifs with heq
  · rw [← LawfulEqCmp.eq_of_compare heq, h]
  · rfl

theorem total_erase (h : m[k]? = some x) : total f (m.erase k) + f x = total f m := by
  have hback : (m.erase k).insert k x = m := by
    refine ExtTreeMap.ext_getElem? fun k' => ?_
    rw [ExtTreeMap.getElem?_insert, ExtTreeMap.getElem?_erase]
    split_ifs with heq
    · rw [← LawfulEqCmp.eq_of_compare heq, h]
    · rfl
  rw [← total_insert f (m := m.erase k) (k := k) ExtTreeMap.getElem?_erase_self x, hback]

theorem total_erase_le (k : κ) : total f (m.erase k) ≤ total f m := by
  cases h : m[k]? with
  | none => rw [erase_of_none h]
  | some x => exact (Nat.le_add_right ..).trans_eq (total_erase f h)

theorem modify_of_none {g : β → β} (h : m[k]? = none) : m.modify k g = m := by
  refine ExtTreeMap.ext_getElem? fun k' => ?_
  rw [ExtTreeMap.getElem?_modify]
  split_ifs with heq
  · rw [← LawfulEqCmp.eq_of_compare heq, h]
    rfl
  · rfl

theorem total_modify (h : m[k]? = some x) (g : β → β) :
    total f (m.modify k g) + f x = total f m + f (g x) := by
  have hback : (m.erase k).insert k (g x) = m.modify k g := by
    refine ExtTreeMap.ext_getElem? fun k' => ?_
    rw [ExtTreeMap.getElem?_insert, ExtTreeMap.getElem?_erase, ExtTreeMap.getElem?_modify]
    split_ifs with heq
    · rw [h]
      rfl
    · rfl
  rw [← hback, total_insert f ExtTreeMap.getElem?_erase_self, ← total_erase f h]
  omega

theorem total_filter {p : κ → β → Bool} (h : ∀ k x, m[k]? = some x → p k x = false → f x = 0) :
    total f (m.filter p) = total f m := by
  have hlist : ∀ l : List (κ × β), (∀ entry ∈ l, p entry.1 entry.2 = false → f entry.2 = 0) →
      ((l.filter fun entry => p entry.1 entry.2).map fun entry => f entry.2).sum =
        (l.map fun entry => f entry.2).sum := by
    intro l hl
    induction l with
    | nil => rfl
    | cons entry l ih =>
      have hrest := ih fun e he => hl e (List.mem_cons_of_mem _ he)
      rw [List.filter_cons]
      split_ifs with hp
      · rw [List.map_cons, List.sum_cons, hrest, List.map_cons, List.sum_cons]
      · rw [hrest, List.map_cons, List.sum_cons, hl entry List.mem_cons_self (by simpa using hp),
          Nat.zero_add]
  rw [total, ExtTreeMap.toList_filter]
  exact hlist _ fun entry hentry =>
    h entry.1 entry.2 (ExtTreeMap.mem_toList_iff_getElem?_eq_some.mp hentry)

omit [LawfulEqOrd κ] in
theorem total_toNat (p : β → Bool) (m : ExtTreeMap κ β) :
    total (fun x => (p x).toNat) m = m.toList.countP fun entry => p entry.2 := by
  rw [total]
  induction m.toList with
  | nil => rfl
  | cons entry l ih =>
    rw [List.map_cons, List.sum_cons, ih, List.countP_cons, Nat.add_comm]
    cases p entry.2 <;> rfl

end Totals
