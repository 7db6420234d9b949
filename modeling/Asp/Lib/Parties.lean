import Mathlib.Tactic

/-! A list of parties, of which a step changes one or adds one: who stands where afterwards, and
how many have a property. -/

namespace Parties

variable {α : Type*} {l : List α} {n i : ℕ} {a b c : α}

theorem getElem?_set_cases (h : l[n]? = some a) (hc : (l.set n b)[i]? = some c) :
    i = n ∧ c = b ∨ i ≠ n ∧ l[i]? = some c := by
  obtain ⟨hn, -⟩ := List.getElem?_eq_some_iff.mp h
  rw [List.getElem?_set, if_pos hn] at hc
  split_ifs at hc with heq
  · exact .inl ⟨heq.symm, (Option.some.inj hc).symm⟩
  · exact .inr ⟨Ne.symm heq, hc⟩

theorem getElem?_concat_cases (hc : (l ++ [b])[i]? = some c) :
    l[i]? = some c ∨ i = l.length ∧ c = b := by
  rw [List.getElem?_append] at hc
  split_ifs at hc with hi
  · exact .inl hc
  · have hzero : i - l.length = 0 := by simpa using (List.getElem?_eq_some_iff.mp hc).1
    rw [hzero] at hc
    exact .inr ⟨by omega, (Option.some.inj hc).symm⟩

theorem mem_concat (hc : c ∈ l ++ [b]) : c ∈ l ∨ c = b :=
  (List.mem_append.mp hc).imp_right List.mem_singleton.mp

theorem bind_ite_eq_some {β : Type*} {o : Option α} {p : α → Prop} [DecidablePred p]
    {f : α → Option β} {y : β} :
    (o.bind fun x => if p x then f x else none) = some y ↔ ∃ x, o = some x ∧ p x ∧ f x = some y := by
  simp only [Option.bind_eq_some_iff, Option.ite_none_right_eq_some]

theorem countP_set {p : α → Bool} (h : l[n]? = some a) (b : α) :
    (l.set n b).countP p + (p a).toNat = l.countP p + (p b).toNat := by
  obtain ⟨hn, rfl⟩ := List.getElem?_eq_some_iff.mp h
  have hpos : (if p l[n] = true then 1 else 0) ≤ l.countP p := by
    split_ifs with hp
    · exact List.countP_pos_iff.mpr ⟨_, List.getElem_mem hn, hp⟩
    · exact Nat.zero_le _
  have htoNat : ∀ c : Bool, c.toNat = if c = true then 1 else 0 := by decide
  rw [List.countP_set hn, htoNat, htoNat]
  omega

theorem sum_set {f : α → ℕ} (h : l[n]? = some a) (b : α) :
    ((l.set n b).map f).sum + f a = (l.map f).sum + f b := by
  induction l generalizing n with
  | nil => cases h
  | cons x l ih =>
    cases n with
    | zero =>
      cases h
      simp only [List.set_cons_zero, List.map_cons, List.sum_cons]
      omega
    | succ n =>
      have hrest := ih h
      simp only [List.set_cons_succ, List.map_cons, List.sum_cons]
      omega

end Parties
