import Mathlib.Tactic

/-! Straight-line programs over instructions that can fail, with the states a
crash can interrupt them in and the states a failing instruction can leave. The
rules are those of a Hoare logic with a crash condition and a fault condition. -/

namespace Steps

variable {ι σ : Type*}

structure Machine (ι σ : Type*) where
  /-- One instruction; `none` is an error that changes nothing. -/
  act : ι → σ → Option σ
  /-- What an instruction that reports an error may have done. -/
  fault : ι → σ → List σ

namespace Machine

variable (M : Machine ι σ)

/-- Run to the end or to the first error: the state reached and whether all ran. -/
def run : List ι → σ → σ × Bool
  | [], s => (s, true)
  | i :: is, s =>
      match M.act i s with
      | none => (s, false)
      | some s' => run is s'

/-- `s'` is a state between two instructions of the program. -/
inductive Passes : List ι → σ → σ → Prop
  | here (is : List ι) (s : σ) : Passes is s s
  | step {i : ι} {is : List ι} {s s₁ s' : σ} (hact : M.act i s = some s₁)
      (hpass : Passes is s₁ s') : Passes (i :: is) s s'

/-- Instruction `i` of the program fails and leaves `s'`, with `rest` still to run. -/
inductive Fails : List ι → σ → ι → List ι → σ → Prop
  | here {i : ι} (is : List ι) {s s' : σ} (hfault : s' ∈ M.fault i s) : Fails (i :: is) s i is s'
  | step {i j : ι} {is rest : List ι} {s s₁ s' : σ} (hact : M.act i s = some s₁)
      (hfail : Fails is s₁ j rest s') : Fails (i :: is) s j rest s'

/-- The states that any instructions lead to, as long as each meets `guard`. -/
inductive Reaches (guard : σ → ι → Prop) (s : σ) : σ → Prop
  | start : Reaches guard s s
  | step {i : ι} {s₁ s₂ : σ} (hreach : Reaches guard s s₁) (hguard : guard s₁ i)
      (hact : M.act i s₁ = some s₂) : Reaches guard s s₂

theorem Reaches.invariant {M : Machine ι σ} {guard : σ → ι → Prop} {P : σ → Prop} {s s' : σ}
    (h : M.Reaches guard s s') (hs : P s)
    (hact : ∀ i s s', guard s i → M.act i s = some s' → P s → P s') : P s' := by
  induction h with
  | start => exact hs
  | step _ hguard hstep ih => exact hact _ _ _ hguard hstep ih

/-- Run to the end, if `check` lets every instruction through. -/
def runWith (check : σ → ι → Bool) : List ι → σ → Option σ
  | [], s => some s
  | i :: is, s => if check s i then (M.act i s).bind (runWith check is) else none

theorem runWith_append (check : σ → ι → Bool) (is js : List ι) (s : σ) :
    M.runWith check (is ++ js) s = (M.runWith check is s).bind (M.runWith check js) := by
  induction is generalizing s with
  | nil => rfl
  | cons i is ih =>
    rw [List.cons_append, runWith, runWith]
    split_ifs
    · rw [Option.bind_assoc]
      exact Option.bind_congr fun s' _ => ih s'
    · rfl

theorem reaches_of_runWith {guard : σ → ι → Prop} {check : σ → ι → Bool}
    (hcheck : ∀ s i, check s i = true → guard s i) {is : List ι} {s₀ s s' : σ}
    (hs : M.Reaches guard s₀ s) (h : M.runWith check is s = some s') : M.Reaches guard s₀ s' := by
  induction is generalizing s with
  | nil => exact Option.some.inj h ▸ hs
  | cons i is ih =>
    unfold runWith at h
    split_ifs at h with hi
    obtain ⟨s₁, hact, hrest⟩ := Option.bind_eq_some_iff.mp h
    exact ih (.step hs (hcheck s i hi) hact) hrest

theorem exists_reaches {guard : σ → ι → Prop} {check : σ → ι → Bool}
    (hcheck : ∀ s i, check s i = true → guard s i) {is : List ι} {s : σ} {p : σ → Bool}
    (h : (M.runWith check is s).any p = true) : ∃ s', M.Reaches guard s s' ∧ p s' = true := by
  obtain ⟨s', hrun, hp⟩ := (Option.any_eq_true _ _).mp h
  exact ⟨s', M.reaches_of_runWith hcheck .start hrun, hp⟩

theorem reaches_of_run {guard : σ → ι → Prop} {is : List ι} (hguard : ∀ i ∈ is, ∀ s, guard s i)
    {s₀ s s' : σ} (hs : M.Reaches guard s₀ s) (h : M.runWith (fun _ _ => true) is s = some s') :
    M.Reaches guard s₀ s' := by
  induction is generalizing s with
  | nil => exact Option.some.inj h ▸ hs
  | cons i is ih =>
    obtain ⟨s₁, hact, hrest⟩ := Option.bind_eq_some_iff.mp h
    exact ih (fun j hj => hguard j (List.mem_cons_of_mem _ hj))
      (.step hs (hguard i List.mem_cons_self s) hact) hrest

theorem run_passes (is : List ι) (s : σ) : M.Passes is s (M.run is s).1 := by
  induction is generalizing s with
  | nil => exact .here _ _
  | cons i is ih =>
    unfold Machine.run
    split
    · exact .here _ _
    · rename_i s' hact
      exact .step hact (ih s')

theorem run_of_total {M : Machine ι σ} {is : List ι} (h : ∀ i ∈ is, ∀ s, (M.act i s).isSome) (s : σ) :
    (M.run is s).2 = true := by
  induction is generalizing s with
  | nil => rfl
  | cons i is ih =>
    obtain ⟨s', hact⟩ := Option.isSome_iff_exists.mp (h i List.mem_cons_self s)
    rw [run, hact]
    exact ih (fun j hj => h j (List.mem_cons_of_mem _ hj)) s'

theorem Passes.invariant {M : Machine ι σ} {P : σ → Prop} {is : List ι} {s s' : σ}
    (hp : M.Passes is s s') (hact : ∀ i ∈ is, ∀ s s', M.act i s = some s' → P s → P s')
    (h : P s) : P s' := by
  induction hp with
  | here => exact h
  | step hstep _ ih =>
    exact ih (fun j hj => hact j (List.mem_cons_of_mem _ hj)) (hact _ List.mem_cons_self _ _ hstep h)

theorem run_establishes {M : Machine ι σ} {P : σ → Prop} {is : List ι} {i : ι} {s s' : σ}
    (hi : i ∈ is) (hdone : ∀ s s', M.act i s = some s' → P s')
    (hact : ∀ j ∈ is, ∀ s s', M.act j s = some s' → P s → P s') (hrun : M.run is s = (s', true)) :
    P s' := by
  induction is generalizing s with
  | nil => exact absurd hi List.not_mem_nil
  | cons j is ih =>
    cases hj : M.act j s with
    | none =>
      simp only [Machine.run, hj] at hrun
      exact absurd (Prod.mk.inj hrun).2 Bool.false_ne_true
    | some s₁ =>
      have hkeep : ∀ j ∈ is, ∀ s s', M.act j s = some s' → P s → P s' :=
        fun k hk => hact k (List.mem_cons_of_mem _ hk)
      simp only [Machine.run, hj] at hrun
      rcases List.mem_cons.mp hi with rfl | hi
      · have := (M.run_passes is s₁).invariant hkeep (hdone _ _ hj)
        rwa [hrun] at this
      · exact ih hi hkeep hrun

/-- `C` between any two instructions, `F` after any failing one, `Q` at the end. -/
def Safe (C : σ → Prop) (F : ι → List ι → σ → Prop) : List ι → (σ → Prop) → σ → Prop
  | [], Q, s => C s ∧ Q s
  | i :: is, Q, s =>
      C s ∧ (∀ s' ∈ M.fault i s, F i is s') ∧ ∀ s', M.act i s = some s' → Safe C F is Q s'

variable {M} {C C' : σ → Prop} {F F' : ι → List ι → σ → Prop} {Q Q' : σ → Prop}

theorem Safe.crash {is : List ι} {s s' : σ} (h : M.Safe C F is Q s) (hp : M.Passes is s s') :
    C s' := by
  induction hp with
  | here is s =>
    cases is with
    | nil => exact h.1
    | cons i is => exact h.1
  | step hact _ ih => exact ih (h.2.2 _ hact)

theorem Safe.fails {is rest : List ι} {s s' : σ} {i : ι} (h : M.Safe C F is Q s)
    (hf : M.Fails is s i rest s') : F i rest s' := by
  induction hf with
  | here is hfault => exact h.2.1 _ hfault
  | step hact _ ih => exact ih (h.2.2 _ hact)

theorem Safe.run {is : List ι} {s : σ} (h : M.Safe C F is Q s) :
    C (M.run is s).1 ∧ ((M.run is s).2 = true → Q (M.run is s).1) := by
  refine ⟨h.crash (M.run_passes is s), ?_⟩
  induction is generalizing s with
  | nil => exact fun _ => h.2
  | cons i is ih =>
    cases hact : M.act i s with
    | none => simp [Machine.run, hact]
    | some s' => simpa only [Machine.run, hact] using ih (h.2.2 _ hact)

theorem Safe.mono {is : List ι} {s : σ} (hC : ∀ s, C s → C' s)
    (hF : ∀ i is s, F i is s → F' i is s) (hQ : ∀ s, Q s → Q' s) (h : M.Safe C F is Q s) :
    M.Safe C' F' is Q' s := by
  induction is generalizing s with
  | nil => exact ⟨hC _ h.1, hQ _ h.2⟩
  | cons i is ih =>
    exact ⟨hC _ h.1, fun s' hs' => hF _ _ _ (h.2.1 s' hs'), fun s' hact => ih (h.2.2 s' hact)⟩

theorem Safe.append {is js : List ι} {s : σ}
    (h : M.Safe C (fun i rest => F i (rest ++ js)) is Q' s)
    (hnext : ∀ s', Q' s' → M.Safe C F js Q s') : M.Safe C F (is ++ js) Q s := by
  induction is generalizing s with
  | nil => exact hnext s h.2
  | cons i is ih => exact ⟨h.1, h.2.1, fun s' hact => ih (h.2.2 s' hact)⟩

end Machine

end Steps
