import Mathlib.Tactic

/-! Lookups in finite maps after one change, by cases on the key, and a selection of
entries that evaluates. -/

namespace Lookup

open Std

variable {κ β : Type*} [Ord κ] [TransOrd κ] {m : ExtTreeMap κ β} {k k' : κ} {x y : β}

theorem mem_of_getElem? (h : m[k]? = some x) : k ∈ m := by
  rw [ExtTreeMap.mem_iff_isSome_getElem?, h]
  rfl

theorem getElem?_of_mem (h : k ∈ m) : ∃ x, m[k]? = some x :=
  Option.isSome_iff_exists.mp (ExtTreeMap.mem_iff_isSome_getElem?.mp h)

variable [LawfulEqOrd κ]

theorem getElem?_insert_of_ne (hne : k' ≠ k) : (m.insert k x)[k']? = m[k']? := by
  rw [ExtTreeMap.getElem?_insert, if_neg (fun hcmp => hne (LawfulEqCmp.eq_of_compare hcmp).symm)]

theorem getElem?_insert_cases (h : (m.insert k x)[k']? = some y) :
    k' = k ∧ y = x ∨ k' ≠ k ∧ m[k']? = some y := by
  rcases eq_or_ne k' k with rfl | hne
  · rw [ExtTreeMap.getElem?_insert_self] at h
    exact .inl ⟨rfl, (Option.some.inj h).symm⟩
  · rw [getElem?_insert_of_ne hne] at h
    exact .inr ⟨hne, h⟩

theorem getElem?_erase_of_ne (hne : k' ≠ k) : (m.erase k)[k']? = m[k']? := by
  rw [ExtTreeMap.getElem?_erase, if_neg (fun hcmp => hne (LawfulEqCmp.eq_of_compare hcmp).symm)]

theorem getElem?_of_erase (h : (m.erase k)[k']? = some y) : k' ≠ k ∧ m[k']? = some y := by
  rcases eq_or_ne k' k with rfl | hne
  · rw [ExtTreeMap.getElem?_erase_self] at h
    cases h
  · exact ⟨hne, (getElem?_erase_of_ne hne).symm.trans h⟩

theorem getElem?_modify_of_ne {f : β → β} (hne : k' ≠ k) : (m.modify k f)[k']? = m[k']? := by
  rw [ExtTreeMap.getElem?_modify, if_neg (fun hcmp => hne (LawfulEqCmp.eq_of_compare hcmp).symm)]

theorem getElem?_modify_cases {f : β → β} (h : (m.modify k f)[k']? = some y) :
    (k' = k ∧ ∃ x, m[k]? = some x ∧ f x = y) ∨ k' ≠ k ∧ m[k']? = some y := by
  rcases eq_or_ne k' k with rfl | hne
  · rw [ExtTreeMap.getElem?_modify_self] at h
    exact .inl ⟨rfl, Option.map_eq_some_iff.mp h⟩
  · exact .inr ⟨hne, (getElem?_modify_of_ne hne).symm.trans h⟩

/-- The entries that `f` keeps, with their new values. -/
def select {γ : Type*} (f : κ → β → Option γ) (m : ExtTreeMap κ β) : ExtTreeMap κ γ :=
  ExtTreeMap.ofList (m.toList.filterMap fun entry => (f entry.1 entry.2).map (entry.1, ·)) compare

theorem getElem?_select [BEq κ] [LawfulBEqOrd κ] {γ : Type*} (f : κ → β → Option γ)
    (m : ExtTreeMap κ β) (k : κ) : (select f m)[k]? = (m[k]?).bind (f k) := by
  have hdistinct : (m.toList.filterMap fun entry => (f entry.1 entry.2).map (entry.1, ·)).Pairwise
      fun a b => ¬ compare a.1 b.1 = .eq := by
    refine ExtTreeMap.distinct_keys_toList.filterMap _ fun a a' hne b hb b' hb' => ?_
    obtain ⟨_, -, rfl⟩ := Option.map_eq_some_iff.mp hb
    obtain ⟨_, -, rfl⟩ := Option.map_eq_some_iff.mp hb'
    exact hne
  have hmem : ∀ y, (k, y) ∈ m.toList.filterMap (fun entry => (f entry.1 entry.2).map (entry.1, ·)) ↔
      (m[k]?).bind (f k) = some y := by
    intro y
    rw [List.mem_filterMap, Option.bind_eq_some_iff]
    constructor
    · rintro ⟨⟨k', x⟩, hentry, hy⟩
      obtain ⟨y', hf, heq⟩ := Option.map_eq_some_iff.mp hy
      cases heq
      exact ⟨x, ExtTreeMap.mem_toList_iff_getElem?_eq_some.mp hentry, hf⟩
    · rintro ⟨x, hget, hf⟩
      exact ⟨(k, x), ExtTreeMap.mem_toList_iff_getElem?_eq_some.mpr hget, by rw [hf, Option.map_some]⟩
  have hlookup : ∀ y, (m[k]?).bind (f k) = some y → (select f m)[k]? = some y := fun y hy =>
    ExtTreeMap.getElem?_ofList_of_mem compare_self hdistinct ((hmem y).mpr hy)
  cases hbind : (m[k]?).bind (f k) with
  | some y => exact hlookup y hbind
  | none =>
    refine ExtTreeMap.getElem?_ofList_of_contains_eq_false ?_
    rw [← Bool.not_eq_true, List.contains_iff_exists_mem_beq]
    rintro ⟨k', hk', hbeq⟩
    have hcmp : compare k k' = .eq := LawfulBEqCmp.compare_eq_iff_beq.mpr hbeq
    obtain rfl := LawfulEqCmp.eq_of_compare hcmp
    obtain ⟨⟨_, y⟩, hentry, rfl⟩ := List.mem_map.mp hk'
    cases hbind.symm.trans ((hmem y).mp hentry)

end Lookup
