import Asp.Proofs.VersionClock

/-! Fan-out of external changes. `record_workspace_file_events` takes a change for the rest of an
earlier one when some but not all sessions still have the current version in memory. -/

namespace Asp

open Std Lookup

theorem WorkspaceFileObservation.not_changedFrom_self (observation : WorkspaceFileObservation) :
    observation.changedFrom (some observation) = false := by
  cases observation with
  | missing => rfl
  | file bytes modified digest => cases digest <;> simp [changedFrom, metadataEq]

namespace Workspace

variable {w w' : Workspace} {key : PathKey} {relative : String} {version : ℕ}

variable {id : Uuid} {order : List Delivery} {session : WorkspaceSession}

/-- For every session the answer to whether its journal still has the event. -/
def EachRetains (w : Workspace) (relative : String) (version : ℕ) (answer : Bool) : Prop :=
  ∀ (id : Uuid) session, w.sessions[id]? = some session →
    session.journal.hasFileChangedEvent relative version = answer

/-- The clock moved on by one, and every session's log took one event of the new version. -/
def ReachedAll (w w' : Workspace) (key : PathKey) (relative : String) : Prop :=
  MaxMap.value w'.versions key = MaxMap.value w.versions key + 1 ∧
  ∀ (id : Uuid) session, w.sessions[id]? = some session →
    ∃ session' event, w'.sessions[id]? = some session' ∧ session'.log = session.log ++ [event] ∧
      event.kind = .fileChanged relative (MaxMap.value w.versions key + 1)

theorem appendLocked_self (h : w.sessions[id]? = some session) (unixMs : ℕ) (kind : EventKind) :
    (w.appendLocked id unixMs kind).sessions[id]? = some (session.append unixMs kind) := by
  simp only [appendLocked, h]
  exact ExtTreeMap.getElem?_insert_self

theorem appendLocked_of_ne {id' : Uuid} (hne : id' ≠ id) (unixMs : ℕ) (kind : EventKind) :
    (w.appendLocked id unixMs kind).sessions[id']? = w.sessions[id']? := by
  unfold appendLocked
  split
  · rfl
  · exact getElem?_insert_of_ne hne

theorem fanOut_kept (hsession : w.sessions[id]? = some session)
    (hkept : id ∉ order.map Delivery.id ∨
      session.journal.hasFileChangedEvent relative version = true) :
    (fanOut relative version order w).1.sessions[id]? = some session := by
  induction order generalizing w with
  | nil => exact hsession
  | cons delivery order ih =>
    have hrest : id ∉ order.map Delivery.id ∨
        session.journal.hasFileChangedEvent relative version = true :=
      hkept.imp_left fun hnot hmem => hnot (List.mem_cons_of_mem _ hmem)
    unfold fanOut
    dsimp only
    split_ifs with hdelivered
    · exact ih hsession hrest
    · have hne : id ≠ delivery.id := by
        rintro rfl
        rw [hsession, Option.any_some] at hdelivered
        exact (hkept.resolve_right hdelivered) List.mem_cons_self
      exact ih ((appendLocked_of_ne hne _ _).trans hsession) hrest
    · exact hsession

theorem fanOut_appended (hnodup : (order.map Delivery.id).Nodup)
    (haccept : ∀ delivery ∈ order, delivery.accepted = true)
    (hsession : w.sessions[id]? = some session) (hmem : id ∈ order.map Delivery.id)
    (hnew : session.journal.hasFileChangedEvent relative version = false) :
    ∃ unixMs, (fanOut relative version order w).1.sessions[id]? =
      some (session.append unixMs (.fileChanged relative version)) := by
  induction order generalizing w with
  | nil => exact absurd hmem List.not_mem_nil
  | cons delivery order ih =>
    obtain ⟨hfirst, hnodup⟩ := List.nodup_cons.mp hnodup
    have hrest : ∀ d ∈ order, d.accepted = true := fun d hd => haccept d (List.mem_cons_of_mem _ hd)
    unfold fanOut
    dsimp only
    rcases eq_or_ne id delivery.id with rfl | hne
    · rw [hsession, Option.any_some, hnew, if_neg Bool.false_ne_true,
        if_pos (haccept delivery List.mem_cons_self)]
      exact ⟨delivery.unixMs, fanOut_kept (appendLocked_self hsession _ _) (.inl hfirst)⟩
    · have hlater := (List.mem_cons.mp hmem).resolve_left hne
      split_ifs with _ hfail
      · exact ih hnodup hrest hsession hlater
      · exact ih hnodup hrest ((appendLocked_of_ne hne _ _).trans hsession) hlater
      · exact absurd (haccept delivery List.mem_cons_self) hfail

theorem fanOut_value (order : List Delivery) (hpath : workspaceEventPath relative = some key)
    (h : MaxMap.value w.versions key = version) :
    MaxMap.value (fanOut relative version order w).1.versions key = version := by
  induction order generalizing w with
  | nil => exact h
  | cons delivery order ih =>
    unfold fanOut
    dsimp only
    split_ifs
    · exact ih h
    · refine ih ((appendLocked_value rfl hpath h.le _ _).antisymm ?_)
      unfold appendLocked
      split
      · exact h.ge
      · simp only [EventKind.fileVersion, hpath, Option.bind_some, Option.map_some,
          Option.elim_some]
        exact MaxMap.le_value_raise ..
    · exact h

theorem deliver_sessions (key : PathKey) (relative : String) (version : ℕ)
    (observation : WorkspaceFileObservation) (victim : PathKey) (order : List Delivery) :
    (w.deliver key relative version observation victim order).sessions =
      (fanOut relative version order w).1.sessions := by
  unfold deliver
  dsimp only
  split_ifs <;> rfl

theorem deliver_versions (key : PathKey) (relative : String) (version : ℕ)
    (observation : WorkspaceFileObservation) (victim : PathKey) (order : List Delivery) :
    (w.deliver key relative version observation victim order).versions =
      (fanOut relative version order w).1.versions := by
  unfold deliver
  dsimp only
  split_ifs <;> rfl

theorem eachRetains_iff (answer : Bool) :
    w.EachRetains relative version answer ↔ ∀ entry ∈ w.sessions.toList,
      entry.2.journal.hasFileChangedEvent relative version = answer := by
  constructor
  · rintro h ⟨id, session⟩ hmem
    exact h id session (ExtTreeMap.mem_toList_iff_getElem?_eq_some.mp hmem)
  · intro h id session hsession
    exact h (id, session) (ExtTreeMap.mem_toList_iff_getElem?_eq_some.mpr hsession)

theorem partiallyDelivered_eq_false_iff :
    w.partiallyDelivered relative version = false ↔
      (0 < version →
        w.EachRetains relative version true ∨ w.EachRetains relative version false) := by
  have hle : w.deliveredCount relative version ≤ w.sessions.size := by
    rw [← ExtTreeMap.length_toList]
    exact List.countP_le_length
  have hall : w.EachRetains relative version true ↔
      w.deliveredCount relative version = w.sessions.size := by
    rw [eachRetains_iff, deliveredCount, ← ExtTreeMap.length_toList, List.countP_eq_length]
  have hnone : w.EachRetains relative version false ↔ w.deliveredCount relative version = 0 := by
    simp only [eachRetains_iff, deliveredCount, List.countP_eq_zero, Bool.not_eq_true]
  rw [hall, hnone, partiallyDelivered]
  split_ifs with hpos
  · simp only [gt_iff_lt, Bool.and_eq_false_iff, decide_eq_false_iff_not, hpos, forall_const]
    omega
  · simp [hpos]

theorem reachedAll_deliver_iff (advanced : Workspace)
    (hpath : workspaceEventPath relative = some key)
    (hvalue : MaxMap.value advanced.versions key = MaxMap.value w.versions key + 1)
    (hsessions : advanced.sessions = w.sessions)
    (horder : (order.map Delivery.id).Perm w.sessions.keys)
    (haccept : ∀ delivery ∈ order, delivery.accepted = true)
    (observation : WorkspaceFileObservation) (victim : PathKey) :
    w.ReachedAll (advanced.deliver key relative (MaxMap.value w.versions key + 1) observation
      victim order) key relative ↔
      w.EachRetains relative (MaxMap.value w.versions key + 1) false := by
  unfold ReachedAll
  rw [deliver_versions, deliver_sessions, fanOut_value order hpath hvalue, and_iff_right rfl]
  constructor
  · intro h id session hsession
    by_contra hhas
    obtain ⟨session', event, hafter, hlog, -⟩ := h id session hsession
    rw [fanOut_kept (hsessions ▸ hsession) (.inr (Bool.not_eq_false _ ▸ hhas))] at hafter
    cases hafter
    simp at hlog
  · intro h id session hsession
    have hmem : id ∈ order.map Delivery.id := by
      rw [horder.mem_iff, ExtTreeMap.mem_keys, ExtTreeMap.mem_iff_isSome_getElem?, hsession]
      rfl
    obtain ⟨unixMs, hafter⟩ := fanOut_appended (horder.nodup_iff.mpr ExtTreeMap.nodup_keys)
      haccept (hsessions ▸ hsession) hmem (h id session hsession)
    exact ⟨_, _, hafter, rfl, rfl⟩

end Workspace

open Workspace

/-- An observed change reaches every session once, with the next version of its file, exactly
when it is news, the clock can advance, and the journals do not make it look like the rest
of an earlier change; and what is remembered is not sent again. -/
theorem external_change_reaches_all_iff (w : Workspace) {relative : String} {key : PathKey}
    (hpath : workspaceEventPath relative = some key) (observation : WorkspaceFileObservation)
    (victim : PathKey) {order : List Workspace.Delivery}
    (horder : (order.map Delivery.id).Perm w.sessions.keys)
    (haccept : ∀ delivery ∈ order, delivery.accepted = true) :
    ∃ w', w.recordFileEvent relative observation victim order = some w' ∧
      (w.ReachedAll w' key relative ↔
        observation.changedFrom w.observations[key]? = true ∧
        MaxMap.value w.versions key < usizeMax ∧
        (0 < MaxMap.value w.versions key →
          w.EachRetains relative (MaxMap.value w.versions key) true ∨
          w.EachRetains relative (MaxMap.value w.versions key) false) ∧
        w.EachRetains relative (MaxMap.value w.versions key + 1) false) ∧
      (w.observations[key]? = some observation → w' = w) := by
  have hstay : ∀ w' : Workspace,
      MaxMap.value w'.versions key = MaxMap.value w.versions key →
      ¬ w.ReachedAll w' key relative := by
    intro w' h hreached
    have := hreached.1
    omega
  have hremembered : observation.changedFrom w.observations[key]? = true →
      w.observations[key]? ≠ some observation := by
    intro hchanged h
    rw [h, WorkspaceFileObservation.not_changedFrom_self] at hchanged
    exact Bool.false_ne_true hchanged
  simp only [recordFileEvent, hpath, if_pos horder, ← partiallyDelivered_eq_false_iff]
  split_ifs with hsame hpending hfull
  · rw [Bool.not_eq_true'] at hsame
    refine ⟨w, rfl, iff_of_false (hstay w rfl) ?_, fun _ => rfl⟩
    rw [hsame]
    exact fun h => Bool.false_ne_true h.1
  · refine ⟨_, rfl, iff_of_false (hstay _ ?_) ?_, ?_⟩
    · rw [deliver_versions]
      exact fanOut_value order hpath rfl
    · rw [hpending]
      exact fun h => Bool.noConfusion h.2.2.1
    · intro h
      exact absurd h (hremembered (by simpa using hsame))
  · refine ⟨w, rfl, iff_of_false (hstay w rfl) ?_, fun _ => rfl⟩
    intro h
    omega
  · have hchanged : observation.changedFrom w.observations[key]? = true := by simpa using hsame
    refine ⟨_, rfl, ?_, fun h => absurd h (hremembered hchanged)⟩
    have hroom : MaxMap.value w.versions key < usizeMax := by omega
    refine (reachedAll_deliver_iff { w with versions := w.versions.insert key _ } hpath
      (MaxMap.value_insert_self ..) rfl horder haccept observation victim).trans ?_
    simp only [hchanged, hroom, hpending, true_and]

section Runs

/-- Two sessions after a first change of the file, which both were told of. -/
def changedOnce : Workspace :=
  ((workspaceMachine fun _ => "").runWith (fun _ _ => true)
    [.openSession 1 0, .openSession 2 0,
      .observe "a" (.file 1 none (some "d")) [] [⟨1, 0, true⟩, ⟨2, 0, true⟩]] .initial).getD .initial

theorem second_external_change_reaches_all : ∃ w',
    changedOnce.recordFileEvent "a" (.file 2 none (some "e")) [] [⟨2, 0, true⟩, ⟨1, 0, true⟩] =
      some w' ∧
    MaxMap.value changedOnce.versions ["a"] = 1 ∧ changedOnce.ReachedAll w' ["a"] "a" := by
  have hpath : workspaceEventPath "a" = some ["a"] := by decide
  have horder : ([⟨2, 0, true⟩, ⟨1, 0, true⟩].map Delivery.id).Perm changedOnce.sessions.keys := by
    decide
  obtain ⟨w', hrecord, hiff, -⟩ :=
    external_change_reaches_all_iff changedOnce hpath (.file 2 none (some "e")) [] horder (by decide)
  refine ⟨w', hrecord, by decide, hiff.mpr ⟨by decide, by decide, ?_, ?_⟩⟩
  · rw [eachRetains_iff, eachRetains_iff]
    decide
  · rw [eachRetains_iff]
    decide

/-- Session 1 has a first change of the file; session 2 is opened after it. -/
def openedLater : Option Workspace :=
  (workspaceMachine fun _ => "").runWith (fun _ _ => true)
    [.openSession 1 0, .observe "a" (.file 1 none (some "d")) [] [⟨1, 0, true⟩],
      .openSession 2 0] .initial

/-- The second change of the file looks like the rest of the first one, which session 2 never
had: session 1 is not told of it, and the clock stands still. -/
theorem external_change_passes_over_a_session : ∃ w w',
    openedLater = some w ∧
    w.recordFileEvent "a" (.file 2 none (some "e")) [] [⟨1, 0, true⟩, ⟨2, 0, true⟩] = some w' ∧
    (WorkspaceFileObservation.file 2 none (some "e")).changedFrom w.observations[["a"]]? = true ∧
    MaxMap.value w.versions ["a"] = 1 ∧ MaxMap.value w'.versions ["a"] = 1 ∧
    1 ∈ w.sessions ∧ w'.sessions[1]? = w.sessions[1]? := by
  have hrun : (openedLater.any fun w =>
      (w.recordFileEvent "a" (.file 2 none (some "e")) [] [⟨1, 0, true⟩, ⟨2, 0, true⟩]).any
        fun w' => (WorkspaceFileObservation.file 2 none (some "e")).changedFrom
            w.observations[["a"]]? = true ∧
          MaxMap.value w.versions ["a"] = 1 ∧ MaxMap.value w'.versions ["a"] = 1 ∧
          1 ∈ w.sessions ∧ w'.sessions[1]? = w.sessions[1]?) = true := by
    decide
  obtain ⟨w, hw, hafter⟩ := (Option.any_eq_true _ _).mp hrun
  obtain ⟨w', hw', hpassed⟩ := (Option.any_eq_true _ _).mp hafter
  exact ⟨w, w', hw, hw', of_decide_eq_true hpassed⟩

end Runs

end Asp
