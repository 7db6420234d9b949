import Asp.Spec.AuthLimit

/-! Lockouts. A blocked source stays in the table as long as it is not the oldest entry
that a newcomer replaces, and none of its failures is recorded after its window. -/

namespace Asp

open Std Lookup AuthFailureWindow

variable {windows room : AuthFailureWindows} {window : AuthFailureWindow}
  {source victim blocked : IpAddr} {now t : ℕ}

variable {action : AuthAction} {gate gate' : AuthGate}

theorem getElem?_retainWindows (now : ℕ) (windows : AuthFailureWindows) (source : IpAddr) :
    (retainWindows now windows)[source]? =
      (windows[source]?).bind fun window => if window.live now then some window else none :=
  getElem?_select ..

theorem getElem?_of_retainWindows (h : (retainWindows now windows)[source]? = some window) :
    windows[source]? = some window := by
  rw [getElem?_retainWindows] at h
  obtain ⟨window', hget, hlive⟩ := Option.bind_eq_some_iff.mp h
  split_ifs at hlive
  exact hget.trans hlive

theorem makeRoom_cases (h : makeRoom windows source victim = some room) :
    (crowdedOut windows source = true ∧ isOldest windows victim = true ∧
      room = windows.erase victim) ∨ crowdedOut windows source = false ∧ room = windows := by
  unfold makeRoom at h
  split_ifs at h with hcrowded holdest
  · exact .inl ⟨hcrowded, holdest, (Option.some.inj h).symm⟩
  · exact .inr ⟨Bool.eq_false_iff.mpr hcrowded, (Option.some.inj h).symm⟩

theorem getElem?_of_makeRoom (h : makeRoom (retainWindows now windows) source victim = some room)
    {other : IpAddr} (hget : room[other]? = some window) : windows[other]? = some window := by
  rcases makeRoom_cases h with ⟨-, -, rfl⟩ | ⟨-, rfl⟩
  · exact getElem?_of_retainWindows (getElem?_of_erase hget).2
  · exact getElem?_of_retainWindows hget

theorem getElem?_makeRoom (hget : gate.windows[blocked]? = some window)
    (hlive : window.blocked now = true) (hspares : SparesOldest blocked gate source now)
    (h : makeRoom (retainWindows now gate.windows) source victim = some room) :
    room[blocked]? = some window := by
  have hretained : (retainWindows now gate.windows)[blocked]? = some window := by
    rw [getElem?_retainWindows, hget, Option.bind_some, if_pos]
    rw [live, hlive, Bool.true_or]
  rcases makeRoom_cases h with ⟨hcrowded, holdest, rfl⟩ | ⟨-, rfl⟩
  · obtain ⟨other, older, hother, hlt⟩ := hspares hcrowded window hget
    have hne : blocked ≠ victim := by
      rintro rfl
      rw [isOldest, hretained, Option.any_some, List.all_eq_true] at holdest
      have hle := holdest (other, older) (ExtTreeMap.mem_toList_iff_getElem?_eq_some.mpr hother)
      exact absurd hlt (Nat.not_lt.mpr (of_decide_eq_true hle))
    rwa [getElem?_erase_of_ne hne]
  · exact hretained

theorem block_cases (now : ℕ) (window : AuthFailureWindow) :
    (window.block now).blockedUntil = some (now + authFailureBlock) ∨
      (window.block now).blockedUntil = window.blockedUntil := by
  unfold block
  split_ifs
  · exact .inl rfl
  · exact .inr rfl

theorem renew_cases (now : ℕ) (window : AuthFailureWindow) :
    window.renew now = fresh now ∨ window.renew now = window := by
  unfold renew
  split_ifs
  · exact .inl rfl
  · exact .inr rfl

theorem renew_of_blocked (hblocked : window.blocked now = true)
    (hwindow : now - window.started < authFailureWindow) : window.renew now = window := by
  obtain ⟨limit, hlimit, hlt⟩ := (Option.any_eq_true _ _).mp hblocked
  have hlt := of_decide_eq_true hlt
  rw [renew, if_neg]
  simp only [hlimit, Option.any_some, Bool.or_eq_true, decide_eq_true_eq]
  omega

def Timely (clock : ℕ) (window : AuthFailureWindow) : Prop :=
  ∀ limit, window.blockedUntil = some limit → limit ≤ clock + authFailureBlock

theorem Timely.mono {clock clock' : ℕ} (h : Timely clock window) (hle : clock ≤ clock') :
    Timely clock' window := by
  intro limit hlimit
  have := h limit hlimit
  omega

theorem timely_fresh (clock now : ℕ) : Timely clock (fresh now) := by
  intro limit hlimit
  cases hlimit

theorem Timely.renew (h : Timely now window) : Timely now (window.renew now) := by
  rcases renew_cases now window with heq | heq
  · rw [heq]
    exact timely_fresh now now
  · rwa [heq]

theorem Timely.block (h : Timely now window) : Timely now (window.block now) := by
  intro limit hlimit
  rcases block_cases now window with heq | heq
  · exact (Option.some.inj (heq.symm.trans hlimit)).ge
  · exact h limit (heq.symm.trans hlimit)

def AuthGate.Timely (gate : AuthGate) : Prop :=
  ∀ (source : IpAddr) window, gate.windows[source]? = some window → Asp.Timely gate.clock window

theorem authAttemptAllowed_cases {after : AuthFailureWindows} {allowed : Bool}
    (h : authAttemptAllowed windows source now victim = some (after, allowed)) :
    ∃ room window, makeRoom (retainWindows now windows) source victim = some room ∧
      window = (room[source]?).getD (fresh now) ∧
      ((window.blocked now = true ∧ after = room.insert source window ∧ allowed = false) ∨
        ∃ window', (window' = window.renew now ∨ window' = (window.renew now).block now) ∧
          window.blocked now = false ∧ after = room.insert source window') := by
  obtain ⟨room, hroom, heq⟩ := Option.map_eq_some_iff.mp h
  refine ⟨room, _, hroom, rfl, ?_⟩
  dsimp only at heq
  split_ifs at heq with hblocked hfailures
  · cases heq
    exact .inl ⟨hblocked, rfl, rfl⟩
  · cases heq
    exact .inr ⟨_, .inr rfl, Bool.eq_false_iff.mpr hblocked, rfl⟩
  · cases heq
    exact .inr ⟨_, .inl rfl, Bool.eq_false_iff.mpr hblocked, rfl⟩

theorem recordAuthFailure_cases {after : AuthFailureWindows}
    (h : recordAuthFailure windows source now victim = some after) :
    ∃ room failures, makeRoom (retainWindows now windows) source victim = some room ∧
      after = room.insert source
        ({ ((room[source]?).getD (fresh now)).renew now with failures }.block now) := by
  obtain ⟨room, hroom, rfl⟩ := Option.map_eq_some_iff.mp h
  exact ⟨room, _, hroom, rfl⟩

theorem authMachine_cases (h : authMachine.act action gate = some gate') :
    gate.clock ≤ action.now ∧ gate'.clock = action.now ∧
      ((∃ source victim allowed, action = .attempt source action.now victim ∧
          authAttemptAllowed gate.windows source action.now victim =
            some (gate'.windows, allowed)) ∨
        (∃ source victim, action = .failure source action.now victim ∧
          recordAuthFailure gate.windows source action.now victim = some gate'.windows) ∨
        ∃ source, action = .success source action.now ∧
          gate'.windows = recordAuthSuccess gate.windows source) := by
  simp only [authMachine] at h
  split_ifs at h with hclock
  obtain ⟨windows, hwindows, rfl⟩ := Option.map_eq_some_iff.mp h
  refine ⟨hclock, rfl, ?_⟩
  cases action with
  | attempt source now victim =>
    obtain ⟨⟨after, allowed⟩, hattempt, rfl⟩ := Option.map_eq_some_iff.mp hwindows
    exact .inl ⟨source, victim, allowed, rfl, hattempt⟩
  | failure source now victim => exact .inr (.inl ⟨source, victim, rfl, hwindows⟩)
  | success source now => exact .inr (.inr ⟨source, rfl, (Option.some.inj hwindows).symm⟩)

theorem authMachine_timely (hact : authMachine.act action gate = some gate')
    (h : gate.Timely) : gate'.Timely := by
  obtain ⟨hclock, hnow, hcases⟩ := authMachine_cases hact
  intro other window hget
  rw [hnow]
  have hold : ∀ (k : IpAddr) w, gate.windows[k]? = some w → Timely action.now w :=
    fun k w hk => (h k w hk).mono hclock
  have hstart : ∀ (room : AuthFailureWindows) (source victim : IpAddr),
      makeRoom (retainWindows action.now gate.windows) source victim = some room →
      Timely action.now ((room[source]?).getD (fresh action.now)) := by
    intro room source victim hroom
    cases hlookup : room[source]? with
    | none => exact timely_fresh _ _
    | some w => exact hold source w (getElem?_of_makeRoom hroom hlookup)
  rcases hcases with ⟨source, victim, allowed, -, hattempt⟩ | ⟨source, victim, -, hfailure⟩ |
    ⟨source, -, hsuccess⟩
  · obtain ⟨room, window', hroom, rfl, hafter⟩ := authAttemptAllowed_cases hattempt
    have hnew := hstart room source victim hroom
    rcases hafter with ⟨-, hafter, -⟩ | ⟨window', hwindow', -, hafter⟩
    · rw [hafter] at hget
      rcases getElem?_insert_cases hget with ⟨-, rfl⟩ | ⟨-, hkept⟩
      · exact hnew
      · exact hold other window (getElem?_of_makeRoom hroom hkept)
    · rw [hafter] at hget
      rcases getElem?_insert_cases hget with ⟨-, rfl⟩ | ⟨-, hkept⟩
      · rcases hwindow' with rfl | rfl
        · exact hnew.renew
        · exact hnew.renew.block
      · exact hold other window (getElem?_of_makeRoom hroom hkept)
  · obtain ⟨room, failures, hroom, hafter⟩ := recordAuthFailure_cases hfailure
    rw [hafter] at hget
    rcases getElem?_insert_cases hget with ⟨-, rfl⟩ | ⟨-, hkept⟩
    · refine Timely.block ?_
      exact (hstart room source victim hroom).renew
    · exact hold other window (getElem?_of_makeRoom hroom hkept)
  · rw [hsuccess] at hget
    exact hold other window (getElem?_of_erase hget).2

def Locked (blocked : IpAddr) (t : ℕ) (gate : AuthGate) : Prop :=
  ∃ window limit, gate.windows[blocked]? = some window ∧ window.blockedUntil = some limit ∧ t ≤ limit

theorem blocked_of_limit {limit : ℕ} (hlimit : window.blockedUntil = some limit) (hlt : now < limit) :
    window.blocked now = true := by
  rw [AuthFailureWindow.blocked, hlimit, Option.any_some]
  exact decide_eq_true hlt

theorem authMachine_locked (hguard : KeepsBlock blocked gate action)
    (hact : authMachine.act action gate = some gate') (htime : t ≤ gate.clock + authFailureBlock)
    (hbefore : action.now < t) (h : Locked blocked t gate) : Locked blocked t gate' := by
  obtain ⟨hclock, hnow, hcases⟩ := authMachine_cases hact
  obtain ⟨window, limit, hget, hlimit, hle⟩ := h
  have hblocked : window.blocked action.now = true := blocked_of_limit hlimit (by omega)
  rcases hcases with ⟨source, victim, allowed, haction, hattempt⟩ | ⟨source, victim, haction, hfailure⟩ |
    ⟨source, haction, hsuccess⟩
  · rw [haction] at hguard
    obtain ⟨room, window', hroom, rfl, hafter⟩ := authAttemptAllowed_cases hattempt
    have hkept := getElem?_makeRoom hget hblocked hguard hroom
    rcases eq_or_ne blocked source with rfl | hne
    · rw [hkept, Option.getD_some] at hafter
      rcases hafter with ⟨-, hafter, -⟩ | ⟨-, -, hopen, -⟩
      · exact ⟨window, limit, hafter ▸ ExtTreeMap.getElem?_insert_self, hlimit, hle⟩
      · cases hblocked.symm.trans hopen
    · rcases hafter with ⟨-, hafter, -⟩ | ⟨window', -, -, hafter⟩
      · exact ⟨window, limit, hafter ▸ (getElem?_insert_of_ne hne).trans hkept, hlimit, hle⟩
      · exact ⟨window, limit, hafter ▸ (getElem?_insert_of_ne hne).trans hkept, hlimit, hle⟩
  · rw [haction] at hguard
    obtain ⟨room, failures, hroom, hafter⟩ := recordAuthFailure_cases hfailure
    have hkept := getElem?_makeRoom hget hblocked hguard.1 hroom
    rcases eq_or_ne blocked source with rfl | hne
    · rw [hkept, Option.getD_some, renew_of_blocked hblocked (hguard.2 rfl window hget)] at hafter
      have hself : gate'.windows[blocked]? = some ({ window with failures }.block action.now) :=
        hafter ▸ ExtTreeMap.getElem?_insert_self
      rcases block_cases action.now { window with failures } with heq | heq
      · exact ⟨_, _, hself, heq, by omega⟩
      · exact ⟨_, limit, hself, heq.trans hlimit, hle⟩
    · exact ⟨window, limit, hafter ▸ (getElem?_insert_of_ne hne).trans hkept, hlimit, hle⟩
  · rw [haction] at hguard
    refine ⟨window, limit, ?_, hlimit, hle⟩
    rw [hsuccess]
    exact (getElem?_erase_of_ne hguard.symm).trans hget

/-- Once a failure has blocked a source until `t`, an attempt before `t` is refused. -/
theorem lockout_holds {gate₀ gate gate' : AuthGate} {source victim : IpAddr} {now t : ℕ}
    {window : AuthFailureWindow}
    (hreach₀ : authMachine.Reaches (fun _ _ => True) .initial gate₀)
    (hfailure : authMachine.act (.failure source now victim) gate₀ = some gate)
    (hwindow : gate.windows[source]? = some window) (hblocked : window.blockedUntil = some t)
    (hreach : authMachine.Reaches (KeepsBlock source) gate gate')
    {now' : ℕ} (hclock : gate'.clock ≤ now') (hbefore : now' < t) (victim' : IpAddr) :
    ∃ after, authAttemptAllowed gate'.windows source now' victim' = some (after, false) := by
  have htimely₀ : gate₀.Timely := hreach₀.invariant
    (fun source window h => absurd (mem_of_getElem? h) ExtTreeMap.not_mem_empty)
    fun _ _ _ _ hact h => authMachine_timely hact h
  have htime := authMachine_timely hfailure htimely₀ source window hwindow t hblocked
  -- the clock only goes on, and the lock holds while it is before `t`
  have hlocked : t ≤ gate'.clock + authFailureBlock ∧ (gate'.clock < t → Locked source t gate') := by
    refine Steps.Machine.Reaches.invariant (P := fun g => t ≤ g.clock + authFailureBlock ∧
      (g.clock < t → Locked source t g)) hreach
      ⟨htime, fun _ => ⟨window, t, hwindow, hblocked, le_rfl⟩⟩ ?_
    rintro action g g' hguard hact ⟨htime, hlock⟩
    obtain ⟨hle, hnow, -⟩ := authMachine_cases hact
    refine ⟨by omega, fun hlt => ?_⟩
    exact authMachine_locked hguard hact htime (by omega) (hlock (by omega))
  obtain ⟨window', limit, hget, hlimit, hle⟩ := hlocked.2 (by omega)
  have hlive : window'.blocked now' = true := blocked_of_limit hlimit (by omega)
  have hretained : (retainWindows now' gate'.windows)[source]? = some window' := by
    rw [getElem?_retainWindows, hget, Option.bind_some, if_pos]
    rw [live, hlive, Bool.true_or]
  have hroom : makeRoom (retainWindows now' gate'.windows) source victim' =
      some (retainWindows now' gate'.windows) := by
    rw [makeRoom, if_neg]
    simp [crowdedOut, mem_of_getElem? hretained]
  rw [authAttemptAllowed, hroom, Option.map_some]
  rw [hretained, Option.getD_some, if_pos hlive]
  exact ⟨_, rfl⟩

section Runs

variable {n : ℕ}

def second : ℕ := 10 ^ 9

theorem lockout_holds_beside_another_source : ∃ gate₀ gate gate' : AuthGate,
    authMachine.act (.failure 0 0 0) gate₀ = some gate ∧
    authMachine.act (.attempt 1 second 0) gate = some gate' ∧
    ∃ after, authAttemptAllowed gate'.windows 0 (2 * second) 0 = some (after, false) := by
  have hrun : ((authMachine.runWith (fun _ _ => true)
      (List.replicate 31 (.failure 0 0 0)) .initial).any fun gate₀ =>
      (authMachine.act (.failure 0 0 0) gate₀).any fun gate =>
        gate.windows[0]? = some ⟨0, 32, some authFailureBlock⟩ ∧
        crowdedOut (retainWindows second gate.windows) 1 = false ∧
        (authMachine.act (.attempt 1 second 0) gate).any fun gate' => gate'.clock = second) =
      true := by
    decide
  obtain ⟨gate₀, hgate₀, hrest⟩ := (Option.any_eq_true _ _).mp hrun
  obtain ⟨gate, hgate, hrest⟩ := (Option.any_eq_true _ _).mp hrest
  obtain ⟨hwindow, hroom, hrest⟩ := of_decide_eq_true hrest
  obtain ⟨gate', hgate', hclock⟩ := (Option.any_eq_true _ _).mp hrest
  have hclock := of_decide_eq_true hclock
  have hguard : KeepsBlock 0 gate (.attempt 1 second 0) := by
    intro hcrowded
    cases hroom.symm.trans hcrowded
  have hreach : authMachine.Reaches (KeepsBlock 0) gate gate' := .step .start hguard hgate'
  exact ⟨gate₀, gate, gate', hgate, hgate',
    lockout_holds (authMachine.reaches_of_runWith (fun _ _ _ => trivial) .start hgate₀) hgate
      hwindow rfl hreach (hclock.le.trans (by decide)) (by decide) 0⟩

theorem retainWindows_eq (h : ∀ (k : IpAddr) w, windows[k]? = some w → w.live now = true) :
    retainWindows now windows = windows := by
  refine ExtTreeMap.ext_getElem? fun k => ?_
  rw [getElem?_retainWindows]
  cases hget : windows[k]? with
  | none => rfl
  | some w => rw [Option.bind_some, if_pos (h k w hget)]

/-- Source 0 is blocked since time 0, and sources 1 to `n` have come at time 1. -/
structure Crowd (n : ℕ) (windows : AuthFailureWindows) : Prop where
  size : windows.size = n + 1
  get : ∀ k : ℕ, windows[k]? = if k = 0 then some ⟨0, 32, some authFailureBlock⟩
    else if k ≤ n then some (fresh 1) else none

theorem Crowd.retain (h : Crowd n windows) (hnow : now ≤ 2) :
    retainWindows now windows = windows := by
  refine retainWindows_eq fun k w hget => ?_
  rw [h.get] at hget
  split_ifs at hget
  · cases hget
    simp only [live, AuthFailureWindow.blocked, authFailureBlock, Option.any_some, Bool.or_eq_true,
      decide_eq_true_eq]
    omega
  · cases hget
    have hlt : now - 1 < authFailureWindow := by
      unfold authFailureWindow
      omega
    simp [live, fresh, hlt]

theorem Crowd.attempt (h : Crowd n windows) (hn : n + 1 < maxAuthFailureSources) :
    ∃ after, authAttemptAllowed windows (n + 1) 1 0 = some (after, true) ∧ Crowd (n + 1) after := by
  have hget : windows[n + 1]? = none := by
    rw [h.get, if_neg (Nat.succ_ne_zero n), if_neg (by omega)]
  have hnew : n + 1 ∉ windows := fun hmem => by
    obtain ⟨w, hw⟩ := getElem?_of_mem hmem
    cases hget.symm.trans hw
  have hroom : makeRoom (retainWindows 1 windows) (n + 1) 0 = some windows := by
    rw [h.retain (by decide), makeRoom, if_neg]
    rw [crowdedOut, h.size, Bool.and_eq_true, decide_eq_true_eq, decide_eq_true_eq]
    omega
  have hfresh : (fresh 1).renew 1 = fresh 1 := rfl
  rw [authAttemptAllowed, hroom, Option.map_some]
  rw [hget, Option.getD_none, if_neg (by decide), hfresh, if_neg (by decide)]
  refine ⟨_, rfl, ?_, fun k => ?_⟩
  · rw [ExtTreeMap.size_insert, if_neg (fun hmem => hnew (ExtTreeMap.contains_iff_mem.mp hmem)),
      h.size]
  · rcases eq_or_ne k (n + 1) with rfl | hne
    · rw [ExtTreeMap.getElem?_insert_self, if_neg (Nat.succ_ne_zero n), if_pos le_rfl]
    · rw [getElem?_insert_of_ne hne, h.get]
      refine if_congr Iff.rfl rfl (if_congr ?_ rfl rfl)
      omega

theorem crowd_reached (hreach : authMachine.Reaches (fun _ _ => True) .initial gate)
    (hclock : gate.clock ≤ 1) (h : Crowd 0 gate.windows) (hn : n < maxAuthFailureSources) :
    ∃ gate', authMachine.Reaches (fun _ _ => True) .initial gate' ∧ gate'.clock ≤ 1 ∧
      Crowd n gate'.windows := by
  induction n with
  | zero => exact ⟨gate, hreach, hclock, h⟩
  | succ n ih =>
    obtain ⟨gate', hreach', hclock', hcrowd⟩ := ih (by omega)
    obtain ⟨after, hattempt, hcrowd'⟩ := hcrowd.attempt hn
    have hact : authMachine.act (.attempt (n + 1) 1 0) gate' = some ⟨after, 1⟩ := by
      simp only [authMachine, AuthAction.now, if_pos hclock', hattempt, Option.map_some]
    exact ⟨⟨after, 1⟩, .step hreach' trivial hact, le_rfl, hcrowd'⟩

theorem Crowd.evicts (h : Crowd n windows) (hn : n + 1 = maxAuthFailureSources) :
    ∃ after, authAttemptAllowed windows (n + 1) 1 0 = some (after, true) ∧
      after.size = maxAuthFailureSources ∧
      ∀ k : ℕ, after[k]? = if k = 0 then none
        else if k ≤ n + 1 then some (fresh 1) else none := by
  have hget : windows[n + 1]? = none := by
    rw [h.get, if_neg (Nat.succ_ne_zero n), if_neg (by omega)]
  have hzero : windows[0]? = some ⟨0, 32, some authFailureBlock⟩ := by rw [h.get, if_pos rfl]
  have hnew : n + 1 ∉ windows := fun hmem => by
    obtain ⟨w, hw⟩ := getElem?_of_mem hmem
    cases hget.symm.trans hw
  have holdest : isOldest windows 0 = true := by
    rw [isOldest, hzero, Option.any_some, List.all_eq_true]
    exact fun entry _ => decide_eq_true (Nat.zero_le _)
  have hroom : makeRoom (retainWindows 1 windows) (n + 1) 0 = some (windows.erase 0) := by
    rw [h.retain (by decide), makeRoom, if_pos, if_pos holdest]
    rw [crowdedOut, h.size, Bool.and_eq_true, decide_eq_true_eq, decide_eq_true_eq]
    exact ⟨hnew, hn.ge⟩
  have hget' : (windows.erase 0)[n + 1]? = none :=
    (getElem?_erase_of_ne (Nat.succ_ne_zero n)).trans hget
  have hfresh : (fresh 1).renew 1 = fresh 1 := rfl
  rw [authAttemptAllowed, hroom, Option.map_some]
  rw [hget', Option.getD_none, if_neg (by decide), hfresh, if_neg (by decide)]
  refine ⟨_, rfl, ?_, fun k => ?_⟩
  · have hmem : windows.contains 0 = true := ExtTreeMap.contains_iff_mem.mpr (mem_of_getElem? hzero)
    rw [ExtTreeMap.size_insert, if_neg, ExtTreeMap.size_erase, if_pos hmem, h.size]
    · omega
    · exact fun hmem => hnew (ExtTreeMap.mem_of_mem_erase (ExtTreeMap.contains_iff_mem.mp hmem))
  · rcases eq_or_ne k (n + 1) with rfl | hne
    · rw [ExtTreeMap.getElem?_insert_self, if_neg (Nat.succ_ne_zero n), if_pos le_rfl]
    · rw [getElem?_insert_of_ne hne]
      rcases eq_or_ne k 0 with rfl | hpos
      · rw [ExtTreeMap.getElem?_erase_self, if_pos rfl]
      · rw [getElem?_erase_of_ne hpos, h.get, if_neg hpos, if_neg hpos]
        refine if_congr ?_ rfl rfl
        omega

theorem readmits (hsize : windows.size = maxAuthFailureSources)
    (hget : ∀ k : ℕ, windows[k]? = if k = 0 then none
      else if k ≤ n + 1 then some (fresh 1) else none) :
    ∃ after, authAttemptAllowed windows 0 2 1 = some (after, true) := by
  have hone : windows[1]? = some (fresh 1) := by
    rw [hget, if_neg Nat.one_ne_zero, if_pos (Nat.le_add_left 1 n)]
  have hstarted : ∀ (k : ℕ) w, windows[k]? = some w → w = fresh 1 := by
    intro k w hk
    rw [hget] at hk
    split_ifs at hk
    exact (Option.some.inj hk).symm
  have hretain : retainWindows 2 windows = windows :=
    retainWindows_eq fun k w hk => by
      rw [hstarted k w hk]
      decide
  have hnew : 0 ∉ windows := fun hmem => by
    obtain ⟨w, hw⟩ := getElem?_of_mem hmem
    rw [hget, if_pos rfl] at hw
    cases hw
  have holdest : isOldest windows 1 = true := by
    rw [isOldest, hone, Option.any_some, List.all_eq_true]
    intro entry hentry
    have hentry := ExtTreeMap.mem_toList_iff_getElem?_eq_some.mp hentry
    rw [hstarted entry.1 entry.2 hentry]
    decide
  have hroom : makeRoom (retainWindows 2 windows) 0 1 = some (windows.erase 1) := by
    rw [hretain, makeRoom, if_pos, if_pos holdest]
    rw [crowdedOut, hsize, Bool.and_eq_true, decide_eq_true_eq, decide_eq_true_eq]
    exact ⟨hnew, le_rfl⟩
  have hzero : (windows.erase 1)[0]? = none := by
    rw [getElem?_erase_of_ne Nat.zero_ne_one, hget, if_pos rfl]
  rw [authAttemptAllowed, hroom, Option.map_some]
  rw [hzero, Option.getD_none, if_neg (by decide), if_neg (by decide)]
  exact ⟨_, rfl⟩

/-- As many other sources as the table holds push a blocked one out; and a failure of an
attempt that began before the block, recorded when the window is over, forgets the block. -/
theorem lockout_is_lifted :
    (∃ gate, authMachine.Reaches (fun _ _ => True) .initial gate ∧
      gate.windows[0]? = some ⟨0, 32, some authFailureBlock⟩ ∧
      ∃ gate' after, authMachine.act (.attempt maxAuthFailureSources 1 0) gate = some gate' ∧
        authAttemptAllowed gate'.windows 0 2 1 = some (after, true)) ∧
    ∃ gate, authMachine.Reaches (fun _ _ => True) .initial gate ∧
      gate.windows[0]? = some ⟨0, 32, some (89 * second)⟩ ∧
      ∃ gate' after, authMachine.act (.failure 0 (61 * second) 0) gate = some gate' ∧
        authAttemptAllowed gate'.windows 0 (62 * second) 0 = some (after, true) := by
  constructor
  · have hrun : ((authMachine.runWith (fun _ _ => true)
        (List.replicate 32 (.failure 0 0 0)) .initial).any fun gate => gate.clock = 0 ∧
        gate.windows = (∅ : AuthFailureWindows).insert 0 ⟨0, 32, some authFailureBlock⟩) = true := by
      decide
    obtain ⟨gate, hreach, hstart⟩ := authMachine.exists_reaches (fun _ _ _ => trivial) hrun
    obtain ⟨hclock, hwindows⟩ := of_decide_eq_true hstart
    have hcrowd : Crowd 0 gate.windows := by
      rw [hwindows]
      refine ⟨by decide, fun k => ?_⟩
      rcases eq_or_ne k 0 with rfl | hne
      · rw [ExtTreeMap.getElem?_insert_self, if_pos rfl]
      · rw [getElem?_insert_of_ne hne, ExtTreeMap.getElem?_empty, if_neg hne, if_neg (by omega)]
    have hlast : 4095 + 1 = maxAuthFailureSources := rfl
    obtain ⟨full, hfull, hfullClock, hfullCrowd⟩ :=
      crowd_reached hreach (by omega) hcrowd (n := 4095) (by decide)
    obtain ⟨after, hevicts, hsize, hget⟩ := hfullCrowd.evicts hlast
    have hact : authMachine.act (.attempt maxAuthFailureSources 1 0) full = some ⟨after, 1⟩ := by
      rw [hlast] at hevicts
      simp only [authMachine, AuthAction.now, if_pos hfullClock, hevicts, Option.map_some]
    obtain ⟨after', hallowed⟩ := readmits hsize hget
    exact ⟨full, hfull, by rw [hfullCrowd.get, if_pos rfl], ⟨after, 1⟩, after', hact, hallowed⟩
  · have hrun : ((authMachine.runWith (fun _ _ => true)
        (List.replicate 31 (.failure 0 0 0) ++ [.attempt 0 (59 * second) 0,
          .attempt 0 (59 * second) 0, .failure 0 (59 * second) 0]) .initial).any fun gate =>
        gate.windows[0]? = some ⟨0, 32, some (89 * second)⟩ ∧
        (authMachine.act (.failure 0 (61 * second) 0) gate).any fun gate' =>
          (authAttemptAllowed gate'.windows 0 (62 * second) 0).any fun answer => answer.2) =
        true := by
      decide
    obtain ⟨gate, hreach, hrest⟩ := authMachine.exists_reaches (fun _ _ _ => trivial) hrun
    obtain ⟨hwindow, hrest⟩ := of_decide_eq_true hrest
    obtain ⟨gate', hgate', hrest⟩ := (Option.any_eq_true _ _).mp hrest
    obtain ⟨⟨after, allowed⟩, hallowed, htrue⟩ := (Option.any_eq_true _ _).mp hrest
    subst htrue
    exact ⟨gate, hreach, hwindow, gate', after, hgate', hallowed⟩

end Runs

end Asp
