import Mathlib.Tactic

/-! `while` loops that may not end: the states in which they do. -/

namespace Loop

variable {σ : Type*}

/-- `while cond { body }` started in `s` ends in `s'`. -/
inductive While (cond : σ → Bool) (body : σ → σ) : σ → σ → Prop
  | done {s : σ} (hcond : cond s = false) : While cond body s s
  | turn {s s' : σ} (hcond : cond s = true) (hrest : While cond body (body s) s') :
      While cond body s s'

theorem While.exit {cond : σ → Bool} {body : σ → σ} {s s' : σ} (h : While cond body s s') :
    cond s' = false := by
  induction h with
  | done hcond => exact hcond
  | turn _ _ ih => exact ih

theorem While.not_of_stuck {cond : σ → Bool} {body : σ → σ} {s s' : σ} (hcond : cond s = true)
    (hbody : body s = s) : ¬ While cond body s s' := by
  intro h
  induction h with
  | done hfalse => exact absurd (hcond.symm.trans hfalse) Bool.noConfusion
  | turn _ _ ih => exact ih (by rwa [hbody]) (by rw [hbody, hbody])

end Loop
