import Asp.Proofs.SessionRuns
import Asp.Proofs.Serializers
import Asp.Spec.JournalWindow

/-! The journal in memory is an unbroken run of the newest events, and its byte count is exact,
which is what ends the eviction loops. -/

namespace Asp

open Loop

section Consecutive

variable {events : List Event} {last : ℕ}

theorem Consecutive.suffix {rest : List Event} (h : Consecutive events last)
    (hsuffix : rest <:+ events) : Consecutive rest last := by
  obtain ⟨front, rfl⟩ := hsuffix
  rcases h with hnil | ⟨first, hids, hlast⟩
  · exact .inl (List.append_eq_nil_iff.mp hnil).2
  · rw [List.length_append] at hids hlast
    rw [List.map_append, ← List.range'_append_1] at hids
    have hrest := (List.append_inj hids (by simp)).2
    exact .inr ⟨first + front.length, hrest, by omega⟩

theorem Consecutive.append {e : Event} (h : Consecutive events last) (hid : e.id = last + 1) :
    Consecutive (events ++ [e]) (last + 1) := by
  rcases h with rfl | ⟨first, hids, hlast⟩
  · exact .inr ⟨last + 1, by simp [hid], rfl⟩
  · refine .inr ⟨first, ?_, by simp only [List.length_append, List.length_singleton]; omega⟩
    rw [List.map_append, hids, List.length_append, ← List.range'_append_1, hlast, ← hid]
    rfl

end Consecutive

def Window.Exact (v : Window) : Prop := v.approxBytes = (v.events.map eventApproxBytes).sum

theorem Window.Exact.bounds {events : List Event} {bytes : ℕ} (h : Window.Exact ⟨events, bytes⟩) :
    Window.Bounds ⟨events, bytes⟩
        ⟨(LoadedSession.evict events bytes).1, (LoadedSession.evict events bytes).2⟩ ∧
      Window.Exact ⟨(LoadedSession.evict events bytes).1, (LoadedSession.evict events bytes).2⟩ := by
  induction events generalizing bytes with
  | nil =>
    have hzero : bytes = 0 := h
    subst hzero
    exact ⟨.done (by decide), h⟩
  | cons old events ih =>
    have hbytes : bytes = eventApproxBytes old + (events.map eventApproxBytes).sum := h
    have hrest : Window.Exact ⟨events, bytes - eventApproxBytes old⟩ := by
      show bytes - eventApproxBytes old = (events.map eventApproxBytes).sum
      omega
    rw [LoadedSession.evict]
    split_ifs with hover
    · refine ⟨.turn ?_ (ih hrest).1, (ih hrest).2⟩
      simpa [Window.overBounds] using hover
    · refine ⟨.done ?_, h⟩
      simpa [Window.overBounds] using hover

theorem Window.Exact.snoc {v : Window} (h : v.Exact) (e : Event) :
    Window.Exact ⟨v.events ++ [e], v.approxBytes + eventApproxBytes e⟩ := by
  unfold Window.Exact at h ⊢
  simp [h]

section Load

variable {c : Crates} {s : LoadedSession}

variable {boundary : ℕ} {r : Replay}

theorem LoadedSession.apply_window (sha256 : Bytes → String) (s : LoadedSession) (e : Event) :
    (s.apply sha256 e).window = s.window ∧ (s.apply sha256 e).nextId = s.nextId := by
  unfold LoadedSession.apply
  split <;> exact ⟨rfl, rfl⟩

theorem LoadedSession.push_window (sha256 : Bytes → String) (s : LoadedSession) (e : Event) :
    (s.push sha256 e).window =
      ⟨(LoadedSession.evict (s.pushed e).events (s.pushed e).approxBytes).1,
        (LoadedSession.evict (s.pushed e).events (s.pushed e).approxBytes).2⟩ := by
  have happly := (apply_window sha256 { s with nextId := max s.nextId e.id } e).1
  simp only [LoadedSession.window, Window.mk.injEq] at happly
  simp only [LoadedSession.window, LoadedSession.push, happly.1, happly.2, LoadedSession.pushed]

theorem LoadRun.exact (hrun : LoadRun c s) : s.window.Exact := by
  induction hrun with
  | empty => rfl
  | snapshot snapshot => rfl
  | @push s event hrun ih =>
    rw [LoadedSession.push_window]
    exact (Window.Exact.bounds (ih.snoc event)).2
  | count id hrun ih => exact ih

/-- What the loader keeps of the events that it has read. -/
structure Replay.Tracks (c : Crates) (boundary : ℕ) (r : Replay) : Prop where
  last : r.lastEventId = r.loaded.nextId
  boundary : boundary ≤ r.loaded.nextId
  run : LoadRun c r.loaded
  ids : Consecutive r.loaded.events r.loaded.nextId

theorem Replay.Tracks.take {event : Event} (h : r.Tracks c boundary)
    (hid : event.id = r.lastEventId + 1) : (r.take c true event).1.Tracks c boundary := by
  have hnext : (r.loaded.push c.sha256 event).nextId = r.loaded.nextId + 1 := by
    rw [LoadedSession.push_nextId, hid, h.last]
    omega
  have hids : Consecutive (r.loaded.push c.sha256 event).events (r.loaded.nextId + 1) := by
    have hevents : (r.loaded.push c.sha256 event).events = _ :=
      congrArg Window.events (r.loaded.push_window c.sha256 event)
    have hall : Consecutive (r.loaded.events ++ [event]) (r.loaded.nextId + 1) :=
      h.ids.append (by rw [hid, h.last])
    rw [hevents]
    exact hall.suffix (evict_suffix _ _)
  have hboundary := h.boundary
  simp only [Replay.take, if_true]
  split
  · exact ⟨h.last, h.boundary, h.run, h.ids⟩
  · refine ⟨rfl, ?_, h.run.push event, ?_⟩
    · show boundary ≤ (r.loaded.push c.sha256 event).nextId
      omega
    · rwa [hnext]

theorem LogScan.event_tracks {scan scan' : LogScan} {event : Event} {full : Bool}
    (h : scan.toReplay.Tracks c boundary)
    (hevent : scan.event c boundary true event = .ok (scan', full)) :
    scan'.toReplay.Tracks c boundary := by
  unfold LogScan.event at hevent
  dsimp only at hevent
  split_ifs at hevent with _ _ _ hgap hnew
  · have hid : event.id = scan.lastEventId + 1 := by
      have := h.boundary
      by_contra hne
      exact hgap ⟨by omega, hne⟩
    cases hevent
    exact h.take hid
  · cases hevent
    exact h

theorem scanFrames_tracks {create checksummed : Bool} {fuel : ℕ} {bytes : Bytes}
    {scan scan' : LogScan} {full : Bool} (h : scan.toReplay.Tracks c boundary)
    (hscan : scanFrames c create checksummed boundary true fuel bytes scan = .ok (scan', full)) :
    scan'.toReplay.Tracks c boundary := by
  induction fuel generalizing bytes scan with
  | zero =>
    cases hscan
    exact h
  | succ fuel ih =>
    rw [scanFrames] at hscan
    split at hscan
    · split_ifs at hscan
      cases hscan
      exact h
    · cases hscan
    · cases hscan
    · split at hscan
      · cases hscan
      · split at hscan
        · cases hscan
        · rename_i hevent
          cases hscan
          exact LogScan.event_tracks h hevent
        · rename_i hevent
          have htracks := LogScan.event_tracks h hevent
          refine ih ?_ hscan
          exact htracks

theorem loadEventLog_tracks {create : Bool} {content : Bytes} {log : LoadedLog}
    (h : r.Tracks c boundary) (hload : loadEventLog c create content boundary true r = .ok log) :
    log.replay.Tracks c boundary := by
  unfold loadEventLog at hload
  split at hload
  · cases hload
  · split at hload
    · cases hload
    · dsimp only at hload
      split at hload
      · cases hload
      · rename_i hscan
        split_ifs at hload
        all_goals
          cases hload
          exact scanFrames_tracks h hscan

theorem loadSegments_tracks {segments : List (SegmentName × ℕ)} {d d' : SessionDir Bytes}
    {r' : Replay} (h : r.Tracks c boundary)
    (hload : loadSegments c boundary segments d r = (d', .ok r')) : r'.Tracks c boundary := by
  induction segments generalizing d r with
  | nil =>
    cases hload
    exact h
  | cons segment segments ih =>
    rw [loadSegments] at hload
    split at hload
    · cases hload
    · cases hload
    · rename_i hlog
      exact ih (loadEventLog_tracks h hlog) hload

theorem openSnapshot_run {sessionId : Uuid} {file : Option Bytes} {loaded : LoadedSession}
    (hopen : openSnapshot c sessionId file = .ok loaded) : LoadRun c loaded ∧ loaded.events = [] := by
  unfold openSnapshot at hopen
  split at hopen
  · cases hopen
  · cases hopen
    exact ⟨.empty, rfl⟩
  · split_ifs at hopen
    cases hopen
    exact ⟨.snapshot _, rfl⟩

theorem openSession_consecutive {sessionId : Uuid} {d d' : SessionDir Bytes} {mem : SessionDisk}
    {loaded : LoadedSession} (hopen : openSession c sessionId d = (d', .ok (mem, loaded))) :
    Consecutive loaded.events loaded.nextId := by
  unfold openSession at hopen
  split at hopen
  · cases hopen
  · rename_i start hsnapshot
    obtain ⟨hrun, hempty⟩ := openSnapshot_run hsnapshot
    have hstart : Replay.Tracks c start.nextId ⟨start, start.nextId, none⟩ :=
      ⟨rfl, Nat.le_refl _, hrun, .inl hempty⟩
    dsimp only at hopen
    split at hopen
    · cases hopen
    · rename_i hsegments
      have hloaded := loadSegments_tracks hstart hsegments
      split at hopen
      · cases hopen
      · cases hopen
      · rename_i hactive
        have hall := loadEventLog_tracks hloaded hactive
        split at hopen
        · cases hopen
        · split at hopen
          · cases hopen
          · cases hopen
            exact hall.ids

end Load

section Runs

variable {c : Crates} {sessionId : Uuid} {j : Journal}

structure Journal.Unbroken (j : Journal) : Prop where
  ids : Consecutive j.events j.nextId
  bytes : j.window.Exact

theorem Journal.Unbroken.append (h : j.Unbroken) (unixMs : ℕ) (kind : EventKind) :
    (j.append unixMs kind).1.Unbroken :=
  ⟨h.ids.append rfl, h.bytes.snoc _⟩

theorem Journal.Unbroken.enforceBounds (h : j.Unbroken) : j.enforceBounds.Unbroken :=
  ⟨h.ids.suffix (evict_suffix _ _), (Window.Exact.bounds h.bytes).2⟩

theorem JournalRun.unbroken (hrun : JournalRun c sessionId j) : j.Unbroken := by
  induction hrun with
  | created => exact ⟨.inl rfl, rfl⟩
  | opened hopen => exact ⟨openSession_consecutive hopen, rfl⟩
  | append unixMs kind _ ih => exact (ih.append unixMs kind).enforceBounds
  | @refused j unixMs kind _ ih =>
    obtain ⟨hevents, hnext, hbytes⟩ := j.rollback_append unixMs kind
    constructor
    · rw [hnext, hevents]
      exact ih.ids
    · rw [Journal.window, hevents, hbytes]
      exact ih.bytes
  | compact _ ih => exact ⟨.inl rfl, rfl⟩

end Runs

/-- In every journal of a session the events are consecutive up to the next id and the byte count is
theirs. After an append the eviction loop ends with both bounds met; so does the loop of a load
after each event. -/
theorem journal_is_contiguous_and_bounded (c : Crates) (sessionId : Uuid) :
    (∀ j, JournalRun c sessionId j →
      Consecutive j.events j.nextId ∧ j.approxBytes = (j.events.map eventApproxBytes).sum ∧
      ∀ unixMs kind,
        Window.Bounds (j.append unixMs kind).1.window
          (j.append unixMs kind).1.enforceBounds.window ∧
        (j.append unixMs kind).1.enforceBounds.events.length ≤ journalMaxEvents ∧
        (j.append unixMs kind).1.enforceBounds.approxBytes ≤ journalMaxBytes) ∧
    ∀ s, LoadRun c s → ∀ event, Window.Bounds (s.pushed event) (s.push c.sha256 event).window := by
  refine ⟨fun j hrun => ?_, fun s hrun event => ?_⟩
  · have hunbroken := hrun.unbroken
    refine ⟨hunbroken.ids, hunbroken.bytes, fun unixMs kind => ?_⟩
    have hbounds := (Window.Exact.bounds (hunbroken.append unixMs kind).bytes).1
    have hexit := hbounds.exit
    simp only [Window.overBounds, Bool.or_eq_false_iff, decide_eq_false_iff_not, not_lt] at hexit
    exact ⟨hbounds, hexit.1, hexit.2⟩
  · rw [LoadedSession.push_window]
    exact (Window.Exact.bounds (hrun.exact.snoc event)).1

section Full

variable {n : ℕ}

def outputEvent (n : ℕ) : Event :=
  ⟨n + 1, 0, .processOutput 0 .stdout (65536 * n) (List.replicate 65536 0)⟩

theorem outputEvent_bytes (n : ℕ) : eventApproxBytes (outputEvent n) = 65664 :=
  congrArg (128 + ·) List.length_replicate

def outputJournal : ℕ → Journal
  | 0 => .fromLoaded {}
  | n + 1 => ((outputJournal n).append 0 (outputEvent n).kind).1.enforceBounds

def outputLoaded : ℕ → LoadedSession
  | 0 => {}
  | n + 1 => (outputLoaded n).push hexDigest (outputEvent n)

theorem evict_fits {events : List Event} {bytes : ℕ} (hcount : events.length ≤ journalMaxEvents)
    (hbytes : bytes ≤ journalMaxBytes) : LoadedSession.evict events bytes = (events, bytes) := by
  cases events with
  | nil => rfl
  | cons old events =>
    rw [List.length_cons] at hcount
    rw [LoadedSession.evict, if_neg (by omega)]

theorem evict_output (hn : n < 1022) :
    LoadedSession.evict ((List.range n).map outputEvent ++ [outputEvent n])
      (65664 * n + eventApproxBytes (outputEvent n)) =
    ((List.range (n + 1)).map outputEvent, 65664 * (n + 1)) := by
  rw [outputEvent_bytes, evict_fits, List.range_succ, List.map_append]
  · rfl
  · simp only [List.length_append, List.length_map, List.length_range, journalMaxEvents]
    show n + 1 ≤ 20000
    omega
  · rw [journalMaxBytes]
    omega

theorem outputJournal_full (hn : n ≤ 1022) :
    (outputJournal n).nextId = n ∧
      (outputJournal n).window = ⟨(List.range n).map outputEvent, 65664 * n⟩ := by
  induction n with
  | zero => exact ⟨rfl, rfl⟩
  | succ n ih =>
    obtain ⟨hnext, hwindow⟩ := ih (by omega)
    obtain ⟨hevents, hbytes⟩ := Window.mk.inj hwindow
    have hevent : (⟨(outputJournal n).nextId + 1, 0, (outputEvent n).kind⟩ : Event) = outputEvent n := by
      rw [hnext]
      rfl
    refine ⟨congrArg (· + 1) hnext, ?_⟩
    simp only [outputJournal, Journal.enforceBounds, Journal.append, Journal.window, hevent, hevents,
      hbytes, evict_output (show n < 1022 by omega)]

theorem outputLoaded_full (hn : n ≤ 1022) :
    (outputLoaded n).window = ⟨(List.range n).map outputEvent, 65664 * n⟩ := by
  induction n with
  | zero => rfl
  | succ n ih =>
    obtain ⟨hevents, hbytes⟩ := Window.mk.inj (ih (by omega))
    rw [outputLoaded, LoadedSession.push_window, LoadedSession.pushed, hevents, hbytes,
      evict_output (by omega)]

theorem outputJournal_run (n : ℕ) : JournalRun postcard 0 (outputJournal n) := by
  induction n with
  | zero => exact .created
  | succ n ih => exact .append _ _ ih

theorem outputLoaded_run (n : ℕ) : LoadRun postcard (outputLoaded n) := by
  induction n with
  | zero => exact .empty
  | succ n ih => exact .push _ ih

/-- The first chunk that does not fit beside the 1022 before it, appended and loaded. -/
theorem full_journal_is_bounded :
    ∃ n, n = 1022 ∧
      journalMaxBytes < ((outputJournal n).append 0 (outputEvent n).kind).1.approxBytes ∧
      journalMaxBytes < ((outputLoaded n).pushed (outputEvent n)).approxBytes ∧
      Consecutive (outputJournal (n + 1)).events (n + 1) ∧
      (outputJournal (n + 1)).approxBytes ≤ journalMaxBytes ∧
      Window.Bounds ((outputLoaded n).pushed (outputEvent n)) (outputLoaded (n + 1)).window := by
  obtain ⟨hjournal, hloaded⟩ := journal_is_contiguous_and_bounded postcard 0
  obtain ⟨n, hn⟩ : ∃ n, n = 1022 := ⟨_, rfl⟩
  obtain ⟨hnext, hwindow⟩ := outputJournal_full hn.le
  have hjournaled : (outputJournal n).approxBytes = 65664 * n := congrArg Window.approxBytes hwindow
  have hpushed : (outputLoaded n).approxBytes = 65664 * n :=
    congrArg Window.approxBytes (outputLoaded_full hn.le)
  have hover : journalMaxBytes < 65664 * n + 65664 := by
    rw [hn]
    decide
  refine ⟨n, hn, ?_, ?_, ?_, ((hjournal _ (outputJournal_run n)).2.2 0 _).2.2,
    hloaded _ (outputLoaded_run n) _⟩
  · rwa [← hjournaled, ← outputEvent_bytes n] at hover
  · rwa [← hpushed, ← outputEvent_bytes n] at hover
  · have hids := (hjournal _ (outputJournal_run (n + 1))).1
    have hlast : (outputJournal (n + 1)).nextId = n + 1 := congrArg (· + 1) hnext
    rwa [hlast] at hids

end Full

-- the exactness matters: bytes without events would be evicted for ever
example (v : Window) : ¬ Window.Bounds ⟨[], journalMaxBytes + 1⟩ v :=
  While.not_of_stuck (by decide) rfl

end Asp
