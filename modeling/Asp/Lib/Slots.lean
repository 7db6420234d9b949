import Mathlib.Tactic

/-! Amounts in slots of a fixed width. Two slots are the same or a width apart, so an interval
of that width meets at most two of them. -/

namespace Slots

structure Entry where
  start : ℕ
  time : ℕ
  amount : ℕ

def total (p : Entry → Prop) [DecidablePred p] (log : List Entry) : ℕ :=
  ((log.filter p).map Entry.amount).sum

section Total

variable {p q r : Entry → Prop} [DecidablePred p] [DecidablePred q] [DecidablePred r]
  {log : List Entry}

theorem total_append (later : List Entry) : total p (log ++ later) = total p log + total p later := by
  simp [total]

theorem total_le_add (h : ∀ e ∈ log, p e → q e ∨ r e) : total p log ≤ total q log + total r log := by
  induction log with
  | nil => exact Nat.zero_le _
  | cons e log ih =>
    have hrest := ih fun e he => h e (List.mem_cons_of_mem _ he)
    have he := h e List.mem_cons_self
    by_cases hp : p e <;> by_cases hq : q e <;> by_cases hr : r e <;>
      simp [total, hp, hq, hr] at hrest he ⊢ <;> omega

theorem total_eq_zero (h : ∀ e ∈ log, ¬ p e) : total p log = 0 := by
  rw [total, List.filter_eq_nil_iff.mpr (by simpa using h)]
  rfl

end Total

structure Slotted (width limit : ℕ) (log : List Entry) : Prop where
  inside : ∀ e ∈ log, e.start ≤ e.time ∧ e.time < e.start + width
  apart : ∀ e ∈ log, ∀ e' ∈ log,
    e.start = e'.start ∨ e.start + width ≤ e'.start ∨ e'.start + width ≤ e.start
  bounded : ∀ s, total (·.start = s) log ≤ limit

variable {width limit : ℕ} {log : List Entry}

theorem Slotted.nil (width limit : ℕ) : Slotted width limit [] :=
  ⟨nofun, nofun, fun _ => Nat.zero_le _⟩

theorem Slotted.append (h : Slotted width limit log) {e : Entry}
    (hinside : e.start ≤ e.time ∧ e.time < e.start + width)
    (hlast : ∀ e' ∈ log, e'.start = e.start ∨ e'.start + width ≤ e.start)
    (hbounded : total (·.start = e.start) log + e.amount ≤ limit) :
    Slotted width limit (log ++ [e]) := by
  refine ⟨List.forall_mem_append.mpr ⟨h.inside, by simpa using hinside⟩, ?_, fun s => ?_⟩
  · simp only [List.mem_append, List.mem_singleton]
    rintro e₁ (h₁ | rfl) e₂ (h₂ | rfl)
    · exact h.apart e₁ h₁ e₂ h₂
    · exact (hlast e₁ h₁).imp_right .inl
    · exact (hlast e₂ h₂).imp Eq.symm .inr
    · exact .inl rfl
  · rw [total_append]
    by_cases hs : e.start = s
    · simpa [total, hs] using hs ▸ hbounded
    · simpa [total, hs] using h.bounded s

theorem Slotted.same (h : Slotted width limit log) {p : Entry → Prop} [DecidablePred p]
    (hp : ∀ e ∈ log, p e → ∀ e' ∈ log, p e' → e'.start = e.start) : total p log ≤ limit := by
  by_cases hsome : ∃ e ∈ log, p e
  · obtain ⟨e, he, hpe⟩ := hsome
    have hle := total_le_add (q := (·.start = e.start)) (r := fun _ => False)
      fun e' he' hpe' => .inl (hp e he hpe e' he' hpe')
    rw [total_eq_zero (p := fun _ => False) fun _ _ => id] at hle
    exact hle.trans (h.bounded e.start)
  · rw [total_eq_zero fun e he hpe => hsome ⟨e, he, hpe⟩]
    exact Nat.zero_le _

theorem Slotted.slot (h : Slotted width limit log) {e₀ : Entry} (he₀ : e₀ ∈ log) :
    total (fun e => e₀.start ≤ e.time ∧ e.time < e₀.start + width) log ≤ limit := by
  refine h.same fun e he hpe e' he' hpe' => ?_
  have hinside := h.inside e he
  have hinside' := h.inside e' he'
  have hapart := h.apart e he e₀ he₀
  have hapart' := h.apart e' he' e₀ he₀
  omega

theorem Slotted.interval (h : Slotted width limit log) (t : ℕ) :
    total (fun e => t ≤ e.time ∧ e.time ≤ t + width) log ≤ 2 * limit := by
  have hone : ∀ p : Entry → Prop, [DecidablePred p] → (∀ e ∈ log, ∀ e' ∈ log, p e → p e' →
      e.start < e'.start + width) → total p log ≤ limit := fun p _ hp =>
    h.same fun e he hpe e' he' hpe' => by
      have hapart := h.apart e he e' he'
      have hle := hp e he e' he' hpe hpe'
      have hle' := hp e' he' e he hpe' hpe
      omega
  refine (total_le_add (q := fun e => (t ≤ e.time ∧ e.time ≤ t + width) ∧ e.start ≤ t)
    (r := fun e => (t ≤ e.time ∧ e.time ≤ t + width) ∧ t < e.start) fun e _ hin => ?_).trans ?_
  · omega
  · rw [Nat.two_mul]
    refine Nat.add_le_add (hone _ fun e he e' he' hpe hpe' => ?_) (hone _ fun e he e' he' hpe hpe' => ?_)
    · have hinside' := h.inside e' he'
      omega
    · have hinside := h.inside e he
      omega

end Slots
