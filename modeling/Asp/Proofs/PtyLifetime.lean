import Asp.Lib.Parties
import Asp.Spec.PtyLifetime

/-! A receiver of a PTY's output belongs to a task that has the PTY, and the PTY has a sender. So no
receiver is ever told that the channel is closed. -/

namespace Asp

namespace PtyHolders

variable {w w' : PtyHolders} {pty : ℕ}

variable {task : PtyTask}

theorem held_iff : w.held pty = true ↔
    w.slot = some pty ∨ w.launching = some pty ∨ ∃ task ∈ w.tasks, task.runs = true ∧ task.pty = pty := by
  simp only [held, Bool.or_eq_true, decide_eq_true_eq, List.any_eq_true, Bool.and_eq_true, or_assoc]

theorem held_of_task (hmem : task ∈ w.tasks) (hruns : task.runs = true) : w.held task.pty = true :=
  held_iff.mpr (.inr (.inr ⟨task, hmem, hruns, rfl⟩))

theorem poll_ne_closed {position : ℕ} (h : w.CaughtUp task position) :
    (w.poll task position).1 ≠ none := by
  refine Broadcast.poll_ne_closed ?_
  rw [senders, held_of_task h.mem h.runs]
  exact Nat.succ_ne_zero _

/-- The PTYs whose end could be seen or ignored have a reader. -/
structure Unfinished (w : PtyHolders) : Prop where
  receivers : ∀ task position, w.CaughtUp task position → w.readerRuns task.pty = true
  slot : ∀ pty, w.slot = some pty → w.readerRuns pty = true
  launching : ∀ pty, w.launching = some pty → w.readerRuns pty = true

theorem finishedIsSeen_iff (w : PtyHolders) : w.FinishedIsSeen ↔ w.Unfinished := by
  constructor
  · rintro ⟨hclosed, hensured⟩
    refine ⟨fun task position hcaught => ?_, fun pty hslot => ?_, fun pty hlaunching => ?_⟩
    · by_contra hended
      exact poll_ne_closed hcaught (hclosed task position hcaught (Bool.eq_false_of_not_eq_true hended))
    · have hact : w.act .reuse = some (w.spawnTask ⟨.attachment, pty, none, true⟩) := by
        rw [act, hslot, Option.map_some]
      exact hensured .reuse _ pty hact hslot
    · have hact : (w.act .install).isSome := by
        rw [act, hlaunching, Option.map_some]
        rfl
      obtain ⟨w', hinstall⟩ := Option.isSome_iff_exists.mp hact
      exact hensured .install w' pty hinstall hlaunching
  · rintro ⟨hreceivers, hslot, hlaunching⟩
    refine ⟨fun task position hcaught hended => ?_, fun action w' pty _ hensured => ?_⟩
    · rw [hreceivers task position hcaught] at hended
      cases hended
    · cases action with
      | install => exact hlaunching pty hensured
      | reuse => exact hslot pty hensured
      | _ => cases hensured

def AllRead (w : PtyHolders) : Prop := ∀ pty, w.held pty = true → w.readerRuns pty = true

theorem AllRead.unfinished (h : w.AllRead) : w.Unfinished where
  receivers task _ hcaught := h task.pty (held_of_task hcaught.mem hcaught.runs)
  slot pty hslot := h pty (held_iff.mpr (.inl hslot))
  launching pty hlaunching := h pty (held_iff.mpr (.inr (.inl hlaunching)))

theorem AllRead.mono (h : w.AllRead) (hptys : w'.ptys = w.ptys)
    (hheld : ∀ pty, w'.held pty = true → w.held pty = true) : w'.AllRead := by
  intro pty hpty
  have hruns := h pty (hheld pty hpty)
  rwa [readerRuns, ← hptys] at hruns

theorem AllRead.spawnTask (h : w.AllRead) (hheld : w.held task.pty = true) :
    (w.spawnTask task).AllRead := by
  refine h.mono rfl fun pty hpty => ?_
  rcases held_iff.mp hpty with hslot | hlaunching | ⟨other, hmem, hruns, rfl⟩
  · exact held_iff.mpr (.inl hslot)
  · exact held_iff.mpr (.inr (.inl hlaunching))
  · rcases Parties.mem_concat hmem with hold | rfl
    · exact held_of_task hold hruns
    · exact hheld

theorem AllRead.setTask (h : w.AllRead) {i : ℕ} {task' : PtyTask} (hget : w.tasks[i]? = some task)
    (hruns : task.runs = true) (hpty : task'.pty = task.pty) : (w.setTask i task').AllRead := by
  refine h.mono rfl fun pty hheld => ?_
  rcases held_iff.mp hheld with hslot | hlaunching | ⟨other, hmem, hother, rfl⟩
  · exact held_iff.mpr (.inl hslot)
  · exact held_iff.mpr (.inr (.inl hlaunching))
  · rcases List.mem_or_eq_of_mem_set hmem with hold | rfl
    · exact held_of_task hold hother
    · rw [hpty]
      exact held_of_task (List.mem_of_getElem? hget) hruns

theorem readerRuns_set {object : PtyObject} (hpty : w.readerRuns pty = true) (other : ℕ) :
    readerRuns { w with ptys := w.ptys.set pty object } other =
      if pty = other then object.readerRuns else w.readerRuns other := by
  obtain ⟨old, hget, -⟩ := (Option.any_eq_true _ _).mp hpty
  have hlt : pty < w.ptys.length := (List.getElem?_eq_some_iff.mp hget).1
  unfold readerRuns
  rw [List.getElem?_set]
  split_ifs with heq
  · rw [Option.any_some]
  · rfl

theorem readerRuns_append (h : w.readerRuns pty = true) (object : PtyObject) (launching : Option ℕ) :
    readerRuns { w with ptys := w.ptys ++ [object], launching := launching } pty = true := by
  obtain ⟨old, hget, hruns⟩ := (Option.any_eq_true _ _).mp h
  have hlt : pty < w.ptys.length := (List.getElem?_eq_some_iff.mp hget).1
  rwa [readerRuns, List.getElem?_append_left hlt, hget]

theorem AllRead.launch (h : w.AllRead) :
    AllRead { w with ptys := w.ptys ++ [⟨[], true⟩], launching := some w.ptys.length } := by
  intro pty hpty
  rcases held_iff.mp hpty with hslot | hlaunching | ⟨task, hmem, hruns, rfl⟩
  · exact readerRuns_append (h pty (held_iff.mpr (.inl hslot))) _ _
  · cases hlaunching
    rw [readerRuns, List.getElem?_concat_length, Option.any_some]
  · exact readerRuns_append (h task.pty (held_of_task hmem hruns)) _ _

theorem AllRead.act (h : w.AllRead) {action : PtyLifetimeAction} (hguard : w.EndsUnheld action)
    (hact : w.act action = some w') : w'.AllRead := by
  cases action with
  | launch =>
    simp only [PtyHolders.act, Option.ite_none_right_eq_some] at hact
    obtain rfl := Option.some.inj hact.2
    exact h.launch
  | failLaunch =>
    obtain ⟨pty, -, rfl⟩ := Option.map_eq_some_iff.mp hact
    refine h.mono rfl fun other hheld => ?_
    rcases held_iff.mp hheld with hslot | hlaunching | htask
    · exact held_iff.mpr (.inl hslot)
    · cases hlaunching
    · exact held_iff.mpr (.inr (.inr htask))
  | install =>
    obtain ⟨pty, hlaunching, rfl⟩ := Option.map_eq_some_iff.mp hact
    have hslot : AllRead { w with slot := some pty, launching := none } := by
      refine h.mono rfl fun other hheld => ?_
      rcases held_iff.mp hheld with hslot | hnone | htask
      · cases hslot
        exact held_iff.mpr (.inr (.inl hlaunching))
      · cases hnone
      · exact held_iff.mpr (.inr (.inr htask))
    refine (hslot.spawnTask ?_).spawnTask ?_
    · exact held_iff.mpr (.inl rfl)
    · exact held_iff.mpr (.inl rfl)
  | reuse =>
    obtain ⟨pty, hslot, rfl⟩ := Option.map_eq_some_iff.mp hact
    exact h.spawnTask (held_iff.mpr (.inl hslot))
  | publish pty chunk =>
    simp only [PtyHolders.act, Option.ite_none_right_eq_some] at hact
    obtain ⟨hruns, hact⟩ := hact
    cases hact
    intro other hheld
    rw [readerRuns_set hruns]
    split_ifs
    · rfl
    · exact h other hheld
  | endReader pty =>
    simp only [PtyHolders.act, Option.ite_none_right_eq_some] at hact
    obtain ⟨hruns, hact⟩ := hact
    cases hact
    intro other hheld
    rw [readerRuns_set hruns]
    split_ifs with heq
    · -- the PTY whose reader ends is the one that nobody has
      have hunheld : w.held pty = false := hguard pty rfl
      have hheld' : w.held pty = true := heq ▸ hheld
      rw [hunheld] at hheld'
      cases hheld'
    · exact h other hheld
  | subscribe i =>
    obtain ⟨task, hget, hruns, ⟨⟩⟩ := Parties.bind_ite_eq_some.mp hact
    rw [Bool.and_eq_true, Bool.and_eq_true] at hruns
    exact h.setTask hget hruns.1.1 rfl
  | recv i =>
    obtain ⟨task, hget, hruns, hact⟩ := Parties.bind_ite_eq_some.mp hact
    obtain ⟨position, -, hact⟩ := Option.bind_eq_some_iff.mp hact
    split at hact
    · cases hact
      exact h.setTask hget hruns rfl
    · cases hact
    · cases hact
      exact h.setTask hget hruns rfl
  | write i =>
    obtain ⟨task, hget, hruns, ⟨⟩⟩ := Parties.bind_ite_eq_some.mp hact
    rw [Bool.and_eq_true, Bool.and_eq_true] at hruns
    have hheld := held_of_task (List.mem_of_getElem? hget) hruns.1.1
    exact h.spawnTask hheld
  | leave i =>
    obtain ⟨task, hget, hruns, ⟨⟩⟩ := Parties.bind_ite_eq_some.mp hact
    exact h.setTask hget hruns rfl

end PtyHolders

/-- The end of a PTY is seen exactly in the states in which every PTY of a receiver that has
all chunks, of the slot and of a launch still has its reader, and so in every run in which
readers end only when nobody has the PTY. -/
theorem finished_pty_is_seen_iff (w : PtyHolders) :
    (w.FinishedIsSeen ↔ w.Unfinished) ∧
    (ptyLifetimeMachine.Reaches PtyHolders.EndsUnheld .started w → w.FinishedIsSeen) := by
  refine ⟨w.finishedIsSeen_iff, fun hrun => ?_⟩
  have hread : w.AllRead := by
    refine hrun.invariant (P := PtyHolders.AllRead) ?_ ?_
    · intro pty hheld
      rcases PtyHolders.held_iff.mp hheld with hslot | hlaunching | ⟨task, hmem, -⟩
      · cases hslot
      · cases hlaunching
      · cases hmem
    · exact fun _ _ _ hguard hact h => h.act hguard hact
  exact w.finishedIsSeen_iff.mpr hread.unfinished

section Examples

/-- A first PTY is given up before anybody has it, the second is attached and read. -/
def relaunched : List PtyLifetimeAction :=
  [.launch, .failLaunch, .endReader 0, .launch, .install, .subscribe 1, .publish 1 [36], .recv 0,
    .recv 1]

def endsUnheldCheck (w : PtyHolders) : PtyLifetimeAction → Bool
  | .endReader pty => !w.held pty
  | _ => true

theorem endsUnheld_of_check (w : PtyHolders) (action : PtyLifetimeAction)
    (h : endsUnheldCheck w action = true) : w.EndsUnheld action := by
  rintro pty rfl
  rwa [endsUnheldCheck, Bool.not_eq_true'] at h

theorem relaunched_pty_is_seen : ∃ w,
    ptyLifetimeMachine.Reaches PtyHolders.EndsUnheld .started w ∧ w.slot = some 1 ∧
      w.readerRuns 0 = false ∧ w.FinishedIsSeen := by
  have hrun : (ptyLifetimeMachine.runWith endsUnheldCheck relaunched .started).any (fun w =>
      decide (w.slot = some 1 ∧ w.readerRuns 0 = false)) = true := by decide
  obtain ⟨w, hreach, hstate⟩ := Steps.Machine.exists_reaches _ endsUnheld_of_check hrun
  obtain ⟨hslot, hended⟩ := of_decide_eq_true hstate
  exact ⟨w, hreach, hslot, hended, (finished_pty_is_seen_iff w).2 hreach⟩

def exited : List PtyLifetimeAction :=
  [.launch, .install, .subscribe 1, .publish 0 [36], .recv 0, .recv 1, .endReader 0]

/-- The attachment and the tracker have received the only chunk and go on waiting, and the
next client is given the PTY without a reader. -/
theorem exited_pty_is_not_seen : ∃ w,
    ptyLifetimeMachine.Reaches (fun _ _ => True) .started w ∧
    w.readerRuns 0 = false ∧ w.sent 0 = [[36]] ∧
    w.tasks = [⟨.tracker, 0, some 1, true⟩, ⟨.attachment, 0, some 1, true⟩] ∧
    (∀ task ∈ w.tasks, (w.poll task 1).1 = some .empty) ∧
    w.ensured .reuse = some 0 ∧ (w.act .reuse).isSome ∧ ¬ w.FinishedIsSeen := by
  have hrun : (ptyLifetimeMachine.runWith (fun _ _ => true) exited .started).any (fun w =>
      decide (w.readerRuns 0 = false ∧ w.sent 0 = [[36]] ∧
        w.tasks = [⟨.tracker, 0, some 1, true⟩, ⟨.attachment, 0, some 1, true⟩] ∧
        (∀ task ∈ w.tasks, (w.poll task 1).1 = some .empty) ∧
        w.ensured .reuse = some 0 ∧ (w.act .reuse).isSome)) = true := by decide
  obtain ⟨w, hreach, hstate⟩ := Steps.Machine.exists_reaches _ (fun _ _ _ => trivial) hrun
  obtain ⟨hended, hsent, htasks, hpoll, hreuse, hact⟩ := of_decide_eq_true hstate
  refine ⟨w, hreach, hended, hsent, htasks, hpoll, hreuse, hact, fun hseen => ?_⟩
  obtain ⟨w', hact⟩ := Option.isSome_iff_exists.mp hact
  have hruns := hseen.ensured .reuse w' 0 hact hreuse
  rw [hended] at hruns
  cases hruns

end Examples

end Asp
