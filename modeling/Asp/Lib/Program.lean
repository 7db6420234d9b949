import Asp.Lib.Steps

/-! Programs that read the state, branch on it and handle the errors of their
instructions. `Meets` is their logic: a crash condition between any two
instructions, and a postcondition on the instructions that failed, the result
and the final state. -/

namespace Steps

variable {ι σ α : Type*}

inductive Program (ι σ α : Type*) where
  | ret (a : α)
  | read (next : σ → Program ι σ α)
  | act (i : ι) (ok failed : Program ι σ α)

/-- Every instruction of the program is one of `A`. -/
def Program.Only (A : ι → Prop) : Program ι σ α → Prop
  | .ret _ => True
  | .read next => ∀ s, Only A (next s)
  | .act i ok failed => A i ∧ Only A ok ∧ Only A failed

namespace Machine

variable (M : Machine ι σ)

/-- From `p` in `s` the execution gets to `p'` in `s'`; `faults` are the
instructions that reported an error of the device on the way. An instruction
that the state itself refuses is not one of them. -/
inductive Gets : Program ι σ α → σ → List ι → Program ι σ α → σ → Prop
  | here (p : Program ι σ α) (s : σ) : Gets p s [] p s
  | read {next : σ → Program ι σ α} {s s' : σ} {faults : List ι} {p' : Program ι σ α}
      (hrest : Gets (next s) s faults p' s') : Gets (.read next) s faults p' s'
  | ok {i : ι} {ok failed p' : Program ι σ α} {s s₁ s' : σ} {faults : List ι}
      (hact : M.act i s = some s₁) (hrest : Gets ok s₁ faults p' s') :
      Gets (.act i ok failed) s faults p' s'
  | refused {i : ι} {ok failed p' : Program ι σ α} {s s' : σ} {faults : List ι}
      (hact : M.act i s = none) (hrest : Gets failed s faults p' s') :
      Gets (.act i ok failed) s faults p' s'
  | fault {i : ι} {ok failed p' : Program ι σ α} {s s₁ s' : σ} {faults : List ι}
      (hfault : s₁ ∈ M.fault i s) (hrest : Gets failed s₁ faults p' s') :
      Gets (.act i ok failed) s (i :: faults) p' s'

/-- The execution in which no instruction reports an error of the device. -/
def eval : Program ι σ α → σ → α × σ
  | .ret a, s => (a, s)
  | .read next, s => eval (next s) s
  | .act i ok failed, s =>
      match M.act i s with
      | some s' => eval ok s'
      | none => eval failed s

/-- The first `n` instructions and reads of that execution. -/
def steps : ℕ → Program ι σ α → σ → Program ι σ α × σ
  | 0, p, s => (p, s)
  | _ + 1, .ret a, s => (.ret a, s)
  | n + 1, .read next, s => steps n (next s) s
  | n + 1, .act i ok failed, s =>
      match M.act i s with
      | some s' => steps n ok s'
      | none => steps n failed s

/-- `C` in every state on the way and `Q` at the end, whatever fails. -/
def Meets (C : σ → Prop) : (List ι → α → σ → Prop) → Program ι σ α → σ → Prop
  | Q, .ret a, s => C s ∧ Q [] a s
  | Q, .read next, s => Meets C Q (next s) s
  | Q, .act i ok failed, s =>
      C s ∧ (∀ s', M.act i s = some s' → Meets C Q ok s') ∧
        (M.act i s = none → Meets C Q failed s) ∧
        ∀ s' ∈ M.fault i s, Meets C (fun faults => Q (i :: faults)) failed s'

variable {M} {C : σ → Prop} {Q Q' : List ι → α → σ → Prop} {p p' : Program ι σ α} {s s' : σ}
  {faults : List ι}

theorem Meets.read {next : σ → Program ι σ α} (h : M.Meets C Q (next s) s) :
    M.Meets C Q (.read next) s := h

theorem Meets.act {i : ι} {ok failed : Program ι σ α} {s₁ : σ} (hC : C s)
    (hact : M.act i s = some s₁) (hok : M.Meets C Q ok s₁)
    (hfault : ∀ s' ∈ M.fault i s, M.Meets C (fun faults => Q (i :: faults)) failed s') :
    M.Meets C Q (.act i ok failed) s := by
  refine ⟨hC, fun s' hs' => ?_, fun hnone => ?_, hfault⟩
  · obtain rfl := Option.some.inj (hact.symm.trans hs')
    exact hok
  · exact absurd (hact.symm.trans hnone) (Option.some_ne_none _)

theorem Meets.refused {i : ι} {ok failed : Program ι σ α} (hC : C s) (hact : M.act i s = none)
    (hfailed : M.Meets C Q failed s)
    (hfault : ∀ s' ∈ M.fault i s, M.Meets C (fun faults => Q (i :: faults)) failed s') :
    M.Meets C Q (.act i ok failed) s := by
  refine ⟨hC, fun s' hs' => ?_, fun _ => hfailed, hfault⟩
  exact absurd (hact.symm.trans hs') (Option.some_ne_none _).symm

theorem Meets.start (h : M.Meets C Q p s) : C s := by
  induction p generalizing Q with
  | ret a => exact h.1
  | read next ih => exact ih s h
  | act i ok failed => exact h.1

theorem Meets.gets (h : M.Meets C Q p s) (hg : M.Gets p s faults p' s') :
    M.Meets C (fun later => Q (faults ++ later)) p' s' := by
  induction hg generalizing Q with
  | here => exact h
  | read _ ih => exact ih h
  | ok hact _ ih => exact ih (h.2.1 _ hact)
  | refused hact _ ih => exact ih (h.2.2.1 hact)
  | fault hfault _ ih => exact ih (h.2.2.2 _ hfault)

theorem Meets.crash (h : M.Meets C Q p s) (hg : M.Gets p s faults p' s') : C s' :=
  (h.gets hg).start

theorem Meets.ends {a : α} (h : M.Meets C Q p s) (hg : M.Gets p s faults (.ret a) s') :
    Q faults a s' := by
  simpa using (h.gets hg).2

theorem gets_eval (p : Program ι σ α) (s : σ) :
    M.Gets p s [] (.ret (M.eval p s).1) (M.eval p s).2 := by
  induction p generalizing s with
  | ret a => exact .here _ _
  | read next ih => exact .read (ih s s)
  | act i ok failed ihok ihfailed =>
    cases hact : M.act i s with
    | some s₁ => simpa only [eval, hact] using Gets.ok hact (ihok s₁)
    | none => simpa only [eval, hact] using Gets.refused hact (ihfailed s)

theorem gets_steps (n : ℕ) (p : Program ι σ α) (s : σ) :
    M.Gets p s [] (M.steps n p s).1 (M.steps n p s).2 := by
  induction n generalizing p s with
  | zero => exact .here _ _
  | succ n ih =>
    cases p with
    | ret a => exact .here _ _
    | read next => exact .read (ih _ _)
    | act i ok failed =>
      cases hact : M.act i s with
      | some s₁ => simpa only [steps, hact] using Gets.ok hact (ih ok s₁)
      | none => simpa only [steps, hact] using Gets.refused hact (ih failed s)

theorem Gets.trans {p₁ : Program ι σ α} {s₁ : σ} {later : List ι} (h : M.Gets p s faults p₁ s₁)
    (h₁ : M.Gets p₁ s₁ later p' s') : M.Gets p s (faults ++ later) p' s' := by
  induction h with
  | here => exact h₁
  | read _ ih => exact .read (ih h₁)
  | ok hact _ ih => exact .ok hact (ih h₁)
  | refused hact _ ih => exact .refused hact (ih h₁)
  | fault hfault _ ih => exact .fault hfault (ih h₁)

theorem gets_fault (n : ℕ) {i : ι} {ok failed : Program ι σ α} {s₁ : σ}
    (hprogram : (M.steps n p s).1 = .act i ok failed) (hfault : s₁ ∈ M.fault i (M.steps n p s).2) :
    M.Gets p s [i] (.ret (M.eval failed s₁).1) (M.eval failed s₁).2 := by
  have hsteps := gets_steps (M := M) n p s
  rw [hprogram] at hsteps
  exact hsteps.trans (.fault hfault (gets_eval failed s₁))

theorem Meets.of_only {A : ι → Prop} (honly : p.Only A)
    (hact : ∀ i s s', A i → C s → M.act i s = some s' → C s')
    (hfault : ∀ i s, A i → C s → ∀ s' ∈ M.fault i s, C s') (hC : C s) :
    M.Meets C (fun _ _ _ => True) p s := by
  induction p generalizing s with
  | ret a => exact ⟨hC, trivial⟩
  | read next ih => exact ih s (honly s) hC
  | act i ok failed ihok ihfailed =>
    obtain ⟨hi, hok, hfailed⟩ := honly
    refine ⟨hC, fun s' hs' => ?_, fun _ => ihfailed hfailed hC, fun s' hs' => ?_⟩
    · exact ihok hok (hact i s s' hi hC hs')
    · exact ihfailed hfailed (hfault i s hi hC s' hs')

end Machine

end Steps
