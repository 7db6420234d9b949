import Asp.Lib.Slots
import Asp.Spec.ByteBudget

/-! Byte budgets. The windows of a meter are slots of one width: a table drops a window only when
it is over, so what a call finds does not depend on the calls of others. -/

namespace Asp

open Std Slots

def kept (now : ℕ) (window : Option ByteBudgetWindow) : Option ByteBudgetWindow :=
  window.filter (·.live now)

def found (now : ℕ) (window : Option ByteBudgetWindow) : ByteBudgetWindow :=
  (kept now window).getD ⟨now, 0⟩

def ByteBudgetWindow.charge (window : ByteBudgetWindow) (limit bytes : ℕ) : ByteBudgetWindow :=
  if window.bytes + bytes ≤ limit then { window with bytes := window.bytes + bytes } else window

def charged (window : ByteBudgetWindow) (limit bytes : ℕ) : Except BudgetRefusal Unit :=
  if window.bytes + bytes ≤ limit then .ok () else .error .exceeded

theorem live_iff {now : ℕ} {window : ByteBudgetWindow} :
    window.live now = true ↔ now < window.started + principalRequestByteWindow := by
  have hpos : 0 < principalRequestByteWindow := by decide
  rw [ByteBudgetWindow.live, decide_eq_true_eq]
  omega

theorem kept_kept {now now' : ℕ} (hle : now ≤ now') (window : Option ByteBudgetWindow) :
    kept now' (kept now window) = kept now' window := by
  rw [kept, kept, Option.filter_filter]
  congr 1
  funext w
  rw [Bool.and_eq_right_iff_imp, live_iff, live_iff]
  omega

theorem found_cases (now : ℕ) (window : Option ByteBudgetWindow) :
    (∃ w, window = some w ∧ w.live now = true ∧ found now window = w) ∨
      kept now window = none ∧ found now window = ⟨now, 0⟩ := by
  cases hkept : kept now window with
  | none => exact .inr ⟨rfl, by rw [found, hkept]; rfl⟩
  | some w =>
    obtain ⟨hwindow, hlive⟩ := Option.filter_eq_some_iff.mp hkept
    exact .inl ⟨w, hwindow, hlive, by rw [found, hkept]; rfl⟩

theorem found_live (now : ℕ) (window : Option ByteBudgetWindow) : (found now window).live now = true := by
  rcases found_cases now window with ⟨w, -, hlive, heq⟩ | ⟨-, heq⟩
  · rwa [heq]
  · rw [heq, live_iff]
    exact Nat.lt_add_of_pos_right (by decide)

theorem admitBytes_cases {κ : Type} [Ord κ] [TransOrd κ] [LawfulEqOrd κ] [BEq κ] [LawfulBEqOrd κ]
    (limit : ByteLimit) (windows : ByteBudgetWindows κ) (key : κ) (bytes now : ℕ) :
    (∀ k : κ, k ≠ key → (admitBytes limit windows key bytes now).1[k]? = kept now windows[k]?) ∧
    ((admitBytes limit windows key bytes now).2 = .error .tableFull ∧
        (admitBytes limit windows key bytes now).1[key]? = kept now windows[key]? ∨
      (admitBytes limit windows key bytes now).2 =
          charged (found now windows[key]?) limit.bytes bytes ∧
        (admitBytes limit windows key bytes now).1[key]? =
          some ((found now windows[key]?).charge limit.bytes bytes)) := by
  have hretain : ∀ k : κ, (retainBudgets now windows)[k]? = kept now windows[k]? := fun k => by
    rw [retainBudgets, Lookup.getElem?_select, kept]
    cases windows[k]? <;> rfl
  have hother : ∀ (w : ByteBudgetWindow) (k : κ), k ≠ key →
      ((retainBudgets now windows).insert key w)[k]? = kept now windows[k]? := fun w k hne => by
    rw [Lookup.getElem?_insert_of_ne hne, hretain]
  unfold admitBytes
  dsimp only
  by_cases hfull : key ∉ retainBudgets now windows ∧
      maxPrincipalByteBudgetKeys ≤ (retainBudgets now windows).size
  · rw [if_pos hfull]
    exact ⟨fun k _ => hretain k, .inl ⟨rfl, hretain key⟩⟩
  · -- the second look at the age of the window changes nothing
    rw [if_neg hfull, hretain, ← found, if_pos (found_live ..), charged, ByteBudgetWindow.charge]
    have hle := limit.le
    by_cases hfits : (found now windows[key]?).bytes + bytes ≤ limit.bytes
    · have hsum : saturatingAdd (found now windows[key]?).bytes bytes =
          (found now windows[key]?).bytes + bytes := Nat.min_eq_left (by rw [usizeMax]; omega)
      rw [hsum, if_neg (Nat.not_lt.mpr hfits), if_pos hfits, if_pos hfits]
      exact ⟨hother _, .inr ⟨rfl, ExtTreeMap.getElem?_insert_self⟩⟩
    · have hover : limit.bytes < saturatingAdd (found now windows[key]?).bytes bytes :=
        Nat.lt_min.mpr ⟨Nat.not_le.mp hfits, by rw [usizeMax]; omega⟩
      rw [if_pos hover, if_neg hfits, if_neg hfits]
      exact ⟨hother _, .inr ⟨rfl, ExtTreeMap.getElem?_insert_self⟩⟩

namespace ByteBudgets

variable {b : ByteBudgets} {call : BudgetCall} {meter : Meter} {calls : List BudgetCall} {clock : ℕ}

theorem handle_limit (b : ByteBudgets) (call : BudgetCall) : (b.handle call).1.limit = b.limit := by
  funext meter
  unfold handle
  cases call.meter <;> cases meter <;> rfl

theorem handle_other (hne : meter ≠ call.meter) :
    (b.handle call).1.window meter = b.window meter ∨
      (b.handle call).1.window meter = kept call.now (b.window meter) := by
  obtain ⟨m, bytes, now⟩ := call
  cases m with
  | request owner operation =>
    cases meter with
    | response => exact .inl rfl
    | request owner' operation' =>
      refine .inr ((admitBytes_cases b.requestLimit _ (owner, operation) bytes now).1 _ fun heq => hne ?_)
      rw [(Prod.mk.inj heq).1, (Prod.mk.inj heq).2]
  | response owner =>
    cases meter with
    | request => exact .inl rfl
    | response owner' =>
      exact .inr ((admitBytes_cases b.responseLimit _ owner bytes now).1 _ fun heq => hne (by rw [heq]))

theorem handle_own (b : ByteBudgets) (call : BudgetCall) :
    (b.handle call).2 = .error .tableFull ∧
        (b.handle call).1.window call.meter = kept call.now (b.window call.meter) ∨
      (b.handle call).2 =
          charged (found call.now (b.window call.meter)) (b.limit call.meter) call.bytes ∧
        (b.handle call).1.window call.meter =
          some ((found call.now (b.window call.meter)).charge (b.limit call.meter) call.bytes) := by
  obtain ⟨m, bytes, now⟩ := call
  cases m with
  | request owner operation =>
    exact (admitBytes_cases b.requestLimit _ (owner, operation) bytes now).2
  | response owner => exact (admitBytes_cases b.responseLimit _ owner bytes now).2

theorem handle_room (h : (b.handle call).2 ≠ .error .tableFull) :
    (b.handle call).2 =
        charged (found call.now (b.window call.meter)) (b.limit call.meter) call.bytes ∧
      (b.handle call).1.window call.meter =
        some ((found call.now (b.window call.meter)).charge (b.limit call.meter) call.bytes) :=
  (handle_own b call).resolve_left fun hfull => h hfull.1

theorem handle_same (h : meter ≠ call.meter ∨ (b.handle call).2 = .error .tableFull) :
    (b.handle call).1.window meter = b.window meter ∨
      (b.handle call).1.window meter = kept call.now (b.window meter) := by
  rcases eq_or_ne meter call.meter with rfl | hne
  · rcases handle_own b call with ⟨-, hkept⟩ | ⟨hresult, -⟩
    · exact .inr hkept
    · rw [hresult, charged] at h
      split_ifs at h <;> simp at h
  · exact handle_other hne

/-- Calls at or after `clock`, in the order of their times. -/
def Timed (clock : ℕ) (calls : List BudgetCall) : Prop :=
  calls.Pairwise (·.now ≤ ·.now) ∧ ∀ call ∈ calls, clock ≤ call.now

theorem Timed.tail (h : Timed clock (call :: calls)) : Timed call.now calls :=
  ⟨h.1.of_cons, fun _ hc => List.rel_of_pairwise_cons h.1 hc⟩

/-- What is known of a meter from the calls that found room in its table. -/
structure Metered (limit clock : ℕ) (window : Option ByteBudgetWindow) (log : List Entry) : Prop where
  slotted : Slotted principalRequestByteWindow limit log
  last : ∀ w ∈ window, w.started ≤ clock ∧ total (·.start = w.started) log = w.bytes ∧
    (∃ e ∈ log, e.start = w.started) ∧
    ∀ e ∈ log, e.start = w.started ∨ e.start + principalRequestByteWindow ≤ w.started
  gone : window = none → ∀ e ∈ log, e.start + principalRequestByteWindow ≤ clock

variable {limit now : ℕ} {window window' : Option ByteBudgetWindow} {log : List Entry}

theorem Metered.later (h : Metered limit clock window log) (hle : clock ≤ now)
    (hsame : window' = window ∨ window' = kept now window) : Metered limit now window' log := by
  rcases hsame with rfl | rfl
  · exact ⟨h.slotted, fun w hw => ⟨(h.last w hw).1.trans hle, (h.last w hw).2⟩,
      fun hnone e he => (h.gone hnone e he).trans hle⟩
  · refine ⟨h.slotted, fun w hw => ?_, fun hnone e he => ?_⟩
    · have hw := (Option.filter_eq_some_iff.mp hw).1
      exact ⟨(h.last w hw).1.trans hle, (h.last w hw).2⟩
    · cases window with
      | none => exact (h.gone rfl e he).trans hle
      | some w =>
        have hover : ¬ w.live now = true := fun hlive => by
          rw [kept, Option.filter_some, if_pos hlive] at hnone
          cases hnone
        rw [live_iff] at hover
        have hlast := (h.last w rfl).2.2.2 e he
        omega

theorem Metered.charge (h : Metered limit clock window log) (hle : clock ≤ now) (bytes : ℕ) :
    Metered limit now (some ((found now window).charge limit bytes))
      (log ++ [⟨(found now window).started, now,
        if (found now window).bytes + bytes ≤ limit then bytes else 0⟩]) := by
  have hkept := h.later hle (.inr rfl)
  have hlive := live_iff.mp (found_live now window)
  -- an open window has the last entries, a new one has none yet
  have hfound : (found now window).started ≤ now ∧
      total (·.start = (found now window).started) log = (found now window).bytes ∧
      ∀ e ∈ log, e.start = (found now window).started ∨
        e.start + principalRequestByteWindow ≤ (found now window).started := by
    rcases found_cases now window with ⟨w, rfl, -, heq⟩ | ⟨hnone, heq⟩
    · rw [heq]
      exact ⟨(h.last w rfl).1.trans hle, (h.last w rfl).2.1, (h.last w rfl).2.2.2⟩
    · rw [heq] at hlive ⊢
      refine ⟨le_rfl, total_eq_zero fun e he heq => ?_, fun e he => .inr (hkept.gone hnone e he)⟩
      have hgone := hkept.gone hnone e he
      omega
  generalize found now window = w at hlive hfound
  obtain ⟨hstarted, htotal, hlast⟩ := hfound
  have hbytes : total (·.start = w.started) log ≤ limit := h.slotted.bounded _
  have hcharge : (w.charge limit bytes).started = w.started ∧ (w.charge limit bytes).bytes =
      w.bytes + if w.bytes + bytes ≤ limit then bytes else 0 := by
    unfold ByteBudgetWindow.charge
    split_ifs <;> exact ⟨rfl, rfl⟩
  refine ⟨h.slotted.append ⟨hstarted, hlive⟩ hlast ?_, ?_, nofun⟩
  · dsimp only
    split_ifs <;> omega
  · rintro w' hw'
    cases hw'
    rw [hcharge.1, hcharge.2, total_append, htotal]
    refine ⟨hstarted, ?_, ⟨_, List.mem_append_right _ List.mem_cons_self, rfl⟩, ?_⟩
    · simp [total]
    · exact List.forall_mem_append.mpr ⟨hlast, by simp⟩

/-- The calls of a meter that find room, with the starts of the windows that they find. -/
def entries (b : ByteBudgets) (meter : Meter) : List BudgetCall → List Entry
  | [] => []
  | call :: calls =>
      (if call.meter = meter ∧ (b.handle call).2 ≠ .error .tableFull then
        [⟨(found call.now (b.window meter)).started, call.now,
          if (found call.now (b.window meter)).bytes + call.bytes ≤ b.limit meter then call.bytes
          else 0⟩] else []) ++ entries (b.handle call).1 meter calls

theorem entries_append (later : List BudgetCall) :
    b.entries meter (calls ++ later) = b.entries meter calls ++ (b.after calls).entries meter later := by
  induction calls generalizing b with
  | nil => rfl
  | cons call calls ih =>
    rw [List.cons_append, entries, entries, ih, List.append_assoc]
    rfl

theorem metered_run (htimed : Timed clock calls)
    (h : Metered (b.limit meter) clock (b.window meter) log) : ∃ clock',
      Metered (b.limit meter) clock' ((b.after calls).window meter) (log ++ b.entries meter calls) := by
  induction calls generalizing b clock log with
  | nil => exact ⟨clock, by rw [entries, List.append_nil]; exact h⟩
  | cons call calls ih =>
    have hle := htimed.2 call List.mem_cons_self
    rw [entries, ← List.append_assoc, ← handle_limit b call]
    refine ih htimed.tail ?_
    rw [handle_limit]
    by_cases hown : call.meter = meter ∧ (b.handle call).2 ≠ .error .tableFull
    · rw [if_pos hown]
      obtain ⟨rfl, hroom⟩ := hown
      rw [(handle_room hroom).2]
      exact h.charge hle call.bytes
    · rw [if_neg hown, List.append_nil]
      exact h.later hle (handle_same (by tauto))

theorem admittedBytes_eq (p : ℕ → Prop) [DecidablePred p] :
    b.admittedBytes calls meter p = total (fun e => p e.time) (b.entries meter calls) := by
  induction calls generalizing b with
  | nil => rfl
  | cons call calls ih =>
    rw [entries, total_append, ← ih, admittedBytes, admittedBytes, outcomes]
    by_cases hown : call.meter = meter ∧ (b.handle call).2 ≠ .error .tableFull
    · obtain ⟨rfl, hroom⟩ := hown
      have hresult := (handle_room hroom).1
      rw [charged] at hresult
      by_cases hp : p call.now <;> split_ifs at hresult ⊢ with hfits <;>
        simp_all [total, Except.toBool]
    · have hskip : ¬ (call.meter = meter ∧ (b.handle call).2.toBool = true ∧ p call.now) := by
        rintro ⟨hmeter, hok, -⟩
        refine hown ⟨hmeter, fun hfull => ?_⟩
        rw [hfull] at hok
        cases hok
      rw [if_neg hown, List.filter_cons_of_neg (by simpa using hskip)]
      exact (Nat.zero_add _).symm

/-- What the calls of one owner come to by themselves. -/
def alone (limit : Meter → ℕ) : (Meter → Option ByteBudgetWindow) → List BudgetCall →
    List (BudgetCall × Except BudgetRefusal Unit)
  | _, [] => []
  | windows, call :: calls =>
      (call, charged (found call.now (windows call.meter)) (limit call.meter) call.bytes) ::
        alone limit (Function.update windows call.meter
          (some ((found call.now (windows call.meter)).charge (limit call.meter) call.bytes))) calls

theorem outcomes_owner {owner : String} {windows : Meter → Option ByteBudgetWindow}
    (htimed : Timed clock calls)
    (h : ∀ meter : Meter, meter.owner = owner →
      ∀ now, clock ≤ now → kept now (b.window meter) = kept now (windows meter))
    (hroom : ∀ outcome ∈ b.outcomes calls, outcome.1.meter.owner = owner →
      outcome.2 ≠ .error .tableFull) :
    (b.outcomes calls).filter (fun outcome => outcome.1.meter.owner = owner) =
      alone b.limit windows (calls.filter fun call => call.meter.owner = owner) := by
  induction calls generalizing b clock windows with
  | nil => rfl
  | cons call calls ih =>
    have hle := htimed.2 call List.mem_cons_self
    have hroom' := fun outcome hmem => hroom outcome (List.mem_cons_of_mem _ hmem)
    have hother : ∀ meter : Meter, meter.owner = owner → meter ≠ call.meter →
        ∀ now, call.now ≤ now → kept now ((b.handle call).1.window meter) = kept now (windows meter) := by
      intro meter hmeter hne now hnow
      rw [← h meter hmeter now (hle.trans hnow)]
      rcases handle_other (b := b) hne with hsame | hkept
      · rw [hsame]
      · rw [hkept, kept_kept hnow]
    by_cases howner : call.meter.owner = owner
    · obtain ⟨hresult, hwindow⟩ := handle_room (hroom _ List.mem_cons_self howner)
      have hfound : found call.now (b.window call.meter) = found call.now (windows call.meter) := by
        rw [found, found, h _ howner _ hle]
      rw [outcomes, List.filter_cons_of_pos (by simpa using howner),
        List.filter_cons_of_pos (by simpa using howner), alone, hresult, ← hfound,
        ih htimed.tail ?_ hroom', handle_limit]
      intro meter hmeter now hnow
      rcases eq_or_ne meter call.meter with rfl | hne
      · rw [Function.update_self, hwindow]
      · rw [Function.update_of_ne hne]
        exact hother meter hmeter hne now hnow
    · rw [outcomes, List.filter_cons_of_neg (by simpa using howner),
        List.filter_cons_of_neg (by simpa using howner), ih htimed.tail ?_ hroom', handle_limit]
      exact fun meter hmeter => hother meter hmeter fun heq => howner (heq ▸ hmeter)

theorem spent_refused {refusal : BudgetRefusal} (h : (b.handle call).2 = .error refusal)
    (meter : Meter) : (b.handle call).1.spent call.now meter = b.spent call.now meter := by
  by_cases hown : meter = call.meter ∧ (b.handle call).2 ≠ .error .tableFull
  · obtain ⟨rfl, hroom⟩ := hown
    obtain ⟨hresult, hwindow⟩ := handle_room hroom
    rw [h, charged] at hresult
    split_ifs at hresult with hfits
    rw [spent, hwindow, ByteBudgetWindow.charge, if_neg hfits, Option.filter_some,
      if_pos (found_live ..), found, spent, ← kept]
    cases kept call.now (b.window call.meter) <;> rfl
  · have hother : meter ≠ call.meter ∨ (b.handle call).2 = .error .tableFull := by tauto
    rcases handle_same hother with hsame | hkept
    · rw [spent, hsame]
      rfl
    · rw [spent, hkept, ← kept, kept_kept le_rfl]
      rfl

end ByteBudgets

/-- The third part compares two runs with the same calls of an owner, neither of which finds
its table full. -/
theorem byte_budgets_bound_traffic (requestLimit responseLimit : ByteLimit) (calls : List BudgetCall)
    (htimes : calls.Pairwise (·.now ≤ ·.now)) (b : ByteBudgets)
    (hb : b = .initial requestLimit responseLimit) :
    (∀ meter t, b.admittedBytes calls meter
        (fun now => t ≤ now ∧ now ≤ t + principalRequestByteWindow) ≤ 2 * b.limit meter) ∧
    (∀ before meter window, before <+: calls → (b.after before).window meter = some window →
      b.admittedBytes calls meter (fun now =>
        window.started ≤ now ∧ now < window.started + principalRequestByteWindow) ≤ b.limit meter) ∧
    (∀ (owner : String) (others : List BudgetCall), others.Pairwise (·.now ≤ ·.now) →
      others.filter (fun call => call.meter.owner = owner) =
        calls.filter (fun call => call.meter.owner = owner) →
      (∀ run ∈ [calls, others], ∀ outcome ∈ b.outcomes run, outcome.1.meter.owner = owner →
        outcome.2 ≠ .error .tableFull) →
      (b.outcomes others).filter (fun outcome => outcome.1.meter.owner = owner) =
        (b.outcomes calls).filter (fun outcome => outcome.1.meter.owner = owner)) ∧
    ∀ before call refusal, before ++ [call] <+: calls →
      ((b.after before).handle call).2 = .error refusal → ∀ meter,
        (b.after (before ++ [call])).spent call.now meter = (b.after before).spent call.now meter := by
  have htimed : ∀ {calls : List BudgetCall}, calls.Pairwise (·.now ≤ ·.now) →
      ByteBudgets.Timed 0 calls := fun h => ⟨h, fun _ _ => Nat.zero_le _⟩
  have hnone : ∀ meter : Meter, b.window meter = none := by
    subst hb
    intro meter
    cases meter <;> exact ExtTreeMap.getElem?_empty
  have hmetered : ∀ meter, ByteBudgets.Metered (b.limit meter) 0 (b.window meter) [] := fun meter =>
    ⟨.nil .., by rw [hnone]; exact nofun, fun _ => nofun⟩
  refine ⟨fun meter t => ?_, ?_, ?_, ?_⟩
  · obtain ⟨_, hrun⟩ := ByteBudgets.metered_run (htimed htimes) (hmetered meter)
    rw [ByteBudgets.admittedBytes_eq]
    exact hrun.slotted.interval t
  · rintro before meter window ⟨later, rfl⟩ hwindow
    obtain ⟨_, hbefore⟩ :=
      ByteBudgets.metered_run (htimed (List.pairwise_append.mp htimes).1) (hmetered meter)
    obtain ⟨_, hrun⟩ := ByteBudgets.metered_run (htimed htimes) (hmetered meter)
    obtain ⟨-, -, ⟨e, he, hstart⟩, -⟩ := hbefore.last window hwindow
    rw [ByteBudgets.admittedBytes_eq, ← hstart]
    refine hrun.slotted.slot ?_
    rw [ByteBudgets.entries_append, ← List.append_assoc]
    exact List.mem_append_left _ he
  · intro owner others hothers hsame hroom
    rw [ByteBudgets.outcomes_owner (htimed hothers) (fun _ _ _ _ => rfl) (hroom others (by simp)), hsame,
      ByteBudgets.outcomes_owner (htimed htimes) (fun _ _ _ _ => rfl) (hroom calls (by simp))]
  · intro before call refusal _ hrefused meter
    rw [ByteBudgets.after, List.foldl_append]
    exact ByteBudgets.spent_refused hrefused meter

def eightBytes : ByteBudgets :=
  .initial ⟨8, by decide, by decide⟩ ⟨8, by decide, by decide⟩

def callsOfA : List BudgetCall :=
  [⟨.request "a" "exec", 8, 0⟩, ⟨.request "a" "exec", 1, 2⟩, ⟨.request "a" "exec", 5, 60 * 10 ^ 9⟩]

def callsOfBoth : List BudgetCall :=
  callsOfA.take 1 ++ ⟨.request "b" "exec", 3, 1⟩ :: callsOfA.drop 1

theorem budgets_of_eight_bytes :
    eightBytes.admittedBytes callsOfBoth (.request "a" "exec")
        (fun now => 0 ≤ now ∧ now ≤ 0 + principalRequestByteWindow) ≤ 2 * 8 ∧
      eightBytes.admittedBytes callsOfBoth (.request "a" "exec")
        (fun now => 0 ≤ now ∧ now < 0 + principalRequestByteWindow) ≤ 8 ∧
      (eightBytes.outcomes callsOfA).filter (fun outcome => outcome.1.meter.owner = "a") =
        (eightBytes.outcomes callsOfBoth).filter (fun outcome => outcome.1.meter.owner = "a") ∧
      (eightBytes.after (callsOfBoth.take 3)).spent 2 (.request "a" "exec") =
        (eightBytes.after (callsOfBoth.take 2)).spent 2 (.request "a" "exec") := by
  obtain ⟨hinterval, hwindow, howner, hrefused⟩ := byte_budgets_bound_traffic _ _ callsOfBoth
    (by decide) eightBytes rfl
  refine ⟨hinterval _ 0, hwindow (callsOfBoth.take 1) _ ⟨0, 8⟩ (List.take_prefix ..) (by decide), ?_, ?_⟩
  · exact howner "a" callsOfA (by decide) (by decide) (by decide)
  · exact hrefused (callsOfBoth.take 2) ⟨.request "a" "exec", 1, 2⟩ .exceeded
      (List.take_prefix 3 callsOfBoth) (by decide) _

end Asp
