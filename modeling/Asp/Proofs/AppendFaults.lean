import Asp.Proofs.JournalWindow
import Asp.Proofs.LogFaults
import Asp.Spec.AppendFaults

/-! A failed append takes everything back: its bytes, its rotation up to the files that hold the
records, and its event. The exception is a rotation that finds a part of a header. -/

namespace Asp

open Std Framing Durable Steps

section Disk

variable {c : Crates} {sessionId : Uuid} {w w₁ w' : World} {a : Wal} {recs : ℕ → List Event}
  {call : AppendCall} {pre : Bytes}

theorem rotationProgram_runs_on (h : Running c sessionId w.view w.mem a recs)
    (hid : call.event.id = a.head + 1)
    (hwhole : needsRotation c w call.event = true → WholeHeader w) :
    logMachine.Safe (Runs c sessionId a) (fun _ _ => Runs c sessionId a)
      (rotationProgram c w call) (Runs c sessionId a) w := by
  unfold rotationProgram
  split_ifs with hneeds
  · have hlong : headerLen < w.cell.now.length := by
      simp only [needsRotation, Bool.and_eq_true, decide_eq_true_eq] at hneeds
      exact hneeds.1
    refine Machine.Safe.mono (fun _ hw => hw.1) (fun _ _ _ hw => hw) ?_
      (rotate_safe h hlong hid (hwhole hneeds))
    rintro w₁ ⟨-, recs₁, hrun, -⟩
    exact ⟨recs₁, hrun⟩
  · exact ⟨⟨recs, h⟩, recs, h⟩

theorem recordWrites_eq (w : World) (frameBytes : ℕ) (call : AppendCall) :
    recordWrites c w frameBytes call =
      (recordParts c w.mem.events.checksummed call.event).map .writeEvents := by
  rw [recordWrites, writeProgram_eq, List.takeWhile_append_of_pos]
  · exact List.append_nil _
  · intro i hi
    obtain ⟨part, -, rfl⟩ := List.mem_map.mp hi
    rfl

theorem writes_add (parts : List Bytes) (hw : Writing w₁ pre w) :
    logMachine.Safe (fun w => ∃ pre, Writing w₁ pre w) (fun _ _ w => ∃ pre, Writing w₁ pre w)
      (parts.map .writeEvents) (fun w => ∃ pre, Writing w₁ pre w) w := by
  induction parts generalizing pre w with
  | nil => exact ⟨⟨pre, hw⟩, pre, hw⟩
  | cons part parts ih =>
    refine ⟨⟨pre, hw⟩, fun w' hw' => ?_, fun w' hact => ?_⟩
    · obtain ⟨k, -, rfl⟩ := List.mem_map.mp hw'
      exact ⟨_, hw.write (part.take k)⟩
    · cases hact
      exact ih (hw.write part)

theorem Writing.cell (hw : Writing w₁ pre w) : w.cell.now = w₁.cell.now ++ pre := by
  obtain ⟨⟨cell, hdisk, hnow, -⟩, hmem⟩ := hw
  rw [World.cell, hdisk, hmem, SessionDir.write_files_self, hnow]

theorem Writing.undo_view (hw : Writing w₁ pre w) :
    (w.undoAppend w₁.cell.now.length).view = w₁.view := by
  have hinode : w.mem.events.inode = w₁.mem.events.inode := by rw [hw.mem]
  show (w.setCell w.mem.events.inode _).view = _
  rw [World.view_setCell, Cell.change_now, hw.cell, List.take_left, hw.view, hinode,
    SessionDir.write_write]
  exact SessionDir.write_files w₁.view w₁.mem.events.inode

theorem Writing.undo_events (hw : Writing w₁ pre w) (hpos : w₁.mem.events.pos = w₁.cell.now.length) :
    (w.undoAppend w₁.cell.now.length).mem.events = { w₁.mem.events with dirtyBytes := 0 } := by
  show ({ w.mem.events with
    pos := (w.cell.now.take w₁.cell.now.length).length, dirtyBytes := 0 } : EventFile) = _
  rw [hw.cell, List.take_left, hw.mem, ← hpos]

theorem Running.counted (h : Running c sessionId w.view w.mem a recs) (mem' : SessionDisk)
    {id : ℕ} (hid : id = a.head + 1)
    (hmem : mem'.events = { w.mem.events with
      firstEventId := some (w.mem.events.firstEventId.getD id)
      dirtyBytes := mem'.events.dirtyBytes }) :
    Running c sessionId w.view mem' a recs := by
  subst hid
  have hinode : mem'.events.inode = w.mem.events.inode := by rw [hmem]
  have hsum : mem'.events.checksummed = w.mem.events.checksummed := by rw [hmem]
  have hend : mem'.events.pos = w.mem.events.pos := by rw [hmem]
  have hfirst : mem'.events.firstEventId = some (w.mem.events.firstEventId.getD (a.head + 1)) := by
    rw [hmem]
  constructor
  · exact h.recovers
  · rw [hinode]
    exact h.last
  · rw [hinode, hsum]
    exact h.content
  · rw [hinode, hend]
    exact h.pos
  · rw [hinode, hfirst]
    intro e he
    obtain ⟨n, hn, hle⟩ := h.firstLe e he
    rw [hn]
    exact ⟨n, rfl, hle⟩
  · rw [hinode, hfirst]
    exact h.firstAbove
  · rw [hfirst]
    rintro n ⟨⟩
    cases hold : w.mem.events.firstEventId with
    | none => exact le_rfl
    | some m => exact h.firstBound m hold
  · rw [hinode]
    exact h.detached

theorem Rotates.runs (hrotates : Rotates c w call w₁)
    (h : logMachine.Safe (Runs c sessionId a) (fun _ _ => Runs c sessionId a)
      (rotationProgram c w call) (Runs c sessionId a) w) : Runs c sessionId a w₁ := by
  have hrun := h.run.2
  rw [hrotates.1] at hrun
  exact hrun rfl

theorem AppendFault.runs (h : Running c sessionId w.view w.mem a recs)
    (hid : call.event.id = a.head + 1)
    (hwhole : needsRotation c w call.event = true → WholeHeader w)
    (hfault : AppendFault c w call w') : Runs c sessionId a w' := by
  have hrotation := rotationProgram_runs_on h hid hwhole
  cases hfault with
  | refused herr =>
    have hrotated := hrotation.run.1
    unfold append at herr
    dsimp only at herr
    split_ifs at herr with hlong hfailed hfull
    · obtain rfl := (Prod.mk.inj herr).1
      exact ⟨recs, h⟩
    · obtain rfl := (Prod.mk.inj herr).1
      exact hrotated
    · obtain rfl := (Prod.mk.inj herr).1
      exact hrotated
    · have hruns := writeProgram_runs (c := c)
        (logMachine.run (rotationProgram c w call) w).1 (frameBytes c w call.event) call
        (logMachine.run (rotationProgram c w call) w).1
      rw [herr] at hruns
      exact absurd hruns Bool.false_ne_true
  | rotating hfail => exact hrotation.fails hfail
  | @writing i rest w₁ w₂ hrotates hfail =>
    obtain ⟨recs₁, hrun⟩ := hrotates.runs hrotation
    rw [recordWrites_eq] at hfail
    obtain ⟨pre, hw⟩ := (writes_add _ hrun.writing).fails hfail
    refine ⟨recs₁, ?_⟩
    rw [hw.undo_view]
    exact hrun.congr _ (hw.undo_events hrun.pos)
  | @flushing w₁ w₂ hrotates hwritten =>
    obtain ⟨recs₁, hrun⟩ := hrotates.runs hrotation
    rw [recordWrites_eq] at hwritten
    have hwrites := (writes_add (recordParts c w₁.mem.events.checksummed call.event)
      hrun.writing).run.2
    rw [hwritten] at hwrites
    obtain ⟨pre, hw⟩ := hwrites rfl
    refine ⟨recs₁, ?_⟩
    rw [hw.undo_view]
    exact hrun.congr _ (hw.undo_events hrun.pos)
  | @syncing w₁ w₂ hrotates _ hwritten =>
    obtain ⟨recs₁, hrun⟩ := hrotates.runs hrotation
    rw [recordWrites_eq] at hwritten
    have hcounted : logMachine.Safe (fun _ => True) (fun _ _ _ => True)
        ((recordParts c w₁.mem.events.checksummed call.event).map .writeEvents ++
          [.recordAppend call.event.id (frameBytes c w call.event)])
        (fun w₂ => ∃ pre w₃, Writing w₁ pre w₃ ∧
          Io.act (.recordAppend call.event.id (frameBytes c w call.event)) w₃ = some w₂) w₁ := by
      refine Machine.Safe.append ((writes_add _ hrun.writing).mono (fun _ _ => trivial)
        (fun _ _ _ _ => trivial) fun _ hw => hw) ?_
      rintro w₃ ⟨pre, hw⟩
      exact ⟨trivial, fun _ _ => trivial, fun w₂ hact => ⟨trivial, pre, w₃, hw, hact⟩⟩
    have hdone := hcounted.run.2
    rw [hwritten] at hdone
    obtain ⟨pre, w₃, hw, hact⟩ := hdone rfl
    cases hact
    have hevents := hw.undo_events hrun.pos
    refine ⟨recs₁, ?_⟩
    show Running c sessionId (w₃.undoAppend w₁.cell.now.length).view _ a recs₁
    rw [hw.undo_view]
    refine hrun.counted _ hid ?_
    show ({ (w₃.undoAppend w₁.cell.now.length).mem.events with
      firstEventId := some (w₃.mem.events.firstEventId.getD call.event.id) } : EventFile) = _
    rw [hevents, hw.mem]
    rfl

theorem AppendFault.consumers (hfault : AppendFault c w call w') :
    w'.disk.consumers = w.disk.consumers := by
  have hrotated : ∀ {w₁}, Rotates c w call w₁ → w₁.disk.consumers = w.disk.consumers := by
    intro w₁ hrotates
    have hpass := passes_consumers (logMachine.run_passes (rotationProgram c w call) w)
    rw [hrotates.1] at hpass
    exact hpass.1
  have hran : ∀ {is : List Io} {w₁ w₂ : World}, logMachine.run is w₁ = (w₂, true) →
      w₂.disk.consumers = w₁.disk.consumers := by
    intro is w₁ w₂ hrun
    have hpass := passes_consumers (logMachine.run_passes is w₁)
    rw [hrun] at hpass
    exact hpass.1
  cases hfault with
  | refused herr =>
    have hsame := append_consumers (c := c) w call
    rw [herr] at hsame
    exact hsame.1
  | rotating hfail => exact (fails_consumers hfail).1
  | writing hrotates hfail => exact (fails_consumers hfail).1.trans (hrotated hrotates)
  | flushing hrotates hwritten => exact (hran hwritten).trans (hrotated hrotates)
  | syncing hrotates _ hwritten => exact (hran hwritten).trans (hrotated hrotates)

theorem recovered_eq {recs' : ℕ → List Event} (h : Recovers c sessionId w.view a recs)
    (h' : Recovers c sessionId w'.view a recs') (hfits : a.SnapshotFits c)
    (hconsumers : w'.disk.consumers = w.disk.consumers) :
    recovered c sessionId w' = recovered c sessionId w := by
  have hload : ∀ {v : World} {recs : ℕ → List Event}, Recovers c sessionId v.view a recs →
      ∃ d mem, d.consumers = v.disk.consumers ∧
        recovered c sessionId v = (openConsumers c d mem (a.replay c.sha256)).2.map Prod.snd := by
    intro v recs hv
    obtain ⟨d, mem, -, hopen, -, hcons, -⟩ := openSession_loads hv hfits
    exact ⟨d, mem, hcons, by rw [recovered, hopen]⟩
  obtain ⟨d, mem, hd, hv⟩ := hload h
  obtain ⟨d', mem', hd', hv'⟩ := hload h'
  have hsame : d'.consumers = d.consumers := hd'.trans (hconsumers.trans hd.symm)
  rw [hv, hv', openConsumers, openConsumers, hsame]
  cases readEventConsumersFile c d.consumers with
  | error e => rfl
  | ok consumers =>
    dsimp only
    cases checkConsumers consumers (a.replay c.sha256).nextId <;> rfl

end Disk

section Runs

variable {c : Crates} {sessionId : Uuid} {s s' : SessionState} {whole : Bool}

variable (c) in
/-- The descriptor is at the end of a file with its header, and a rotation does
not find a part of a header. -/
def Usable (w : World) (call : AppendCall) : Prop :=
  Headed w ∧ (needsRotation c w call.event = true → WholeHeader w)

/-- What every run keeps; until a call has failed, a crash cannot harm the log. -/
structure SessionState.Tracks (c : Crates) (sessionId : Uuid) (whole : Bool) (s : SessionState) :
    Prop where
  next : s.journal.nextId = s.log.head
  fits : s.log.SnapshotFits c
  faulted : Faulted c sessionId s.log s.world
  live : whole = true → Live c sessionId s.log s.world

theorem SessionState.Tracks.of_live (hnext : s.journal.nextId = s.log.head)
    (hfits : s.log.SnapshotFits c) (hlive : Live c sessionId s.log s.world) :
    s.Tracks c sessionId true :=
  ⟨hnext, hfits, hlive.1.faulted, fun _ => hlive⟩

theorem SessionState.Tracks.of_faulted (hnext : s.journal.nextId = s.log.head)
    (hfits : s.log.SnapshotFits c) (hfaulted : Faulted c sessionId s.log s.world) :
    s.Tracks c sessionId false :=
  ⟨hnext, hfits, hfaulted, fun h => absurd h Bool.false_ne_true⟩

theorem Faulted.synced {a : Wal} {w : World} (h : Faulted c sessionId a w) (n : ℕ) :
    Faulted c sessionId { a with synced := n } w := by
  obtain ⟨recs, hrecovers, hrun⟩ := h
  exact ⟨recs, hrecovers.synced n, fun hheaded => (hrun hheaded).synced n⟩

theorem SessionState.Tracks.step {event : Option Event} (h : s.Tracks c sessionId true)
    (hstep : SessionStep c sessionId (fun _ call => call.Sized c) s event s') :
    s'.Tracks c sessionId true := by
  have hlive := h.live rfl
  cases hstep with
  | append unixMs kind chance hallowed hok =>
    have hproper : (LogCall.append (s.journal.call unixMs kind chance)).Proper sessionId s.log :=
      congrArg (· + 1) h.next
    refine .of_live ?_ h.fits (hlive.append hproper hallowed.framed hok)
    rw [Wal.append_head, ← h.next]
    rfl
  | refused unixMs kind chance hallowed herr =>
    have hproper : (LogCall.append (s.journal.call unixMs kind chance)).Proper sessionId s.log :=
      congrArg (· + 1) h.next
    refine .of_live ?_ h.fits (hlive.refused hproper hallowed.framed herr)
    rw [(s.journal.rollback_append unixMs kind).2.1]
    exact h.next
  | @compact w' snapshot hthrough hid hallowed hok =>
    refine .of_live ?_ ?_ (hlive.compact ⟨hthrough.trans h.next, hid⟩ hok)
    · rw [Wal.compacted_head, hthrough]
      rfl
    · intro t ht
      cases ht
      exact hallowed
  | ack hallowed => exact .of_live h.next h.fits (hlive.ack _ _)

theorem SessionState.Tracks.crash {call : LogCall} {stop : Stop} (h : s.Tracks c sessionId true)
    (hcrash : SessionCrash c sessionId (fun _ call => call.Sized c) stop s call s') :
    s'.Tracks c sessionId true := by
  obtain ⟨hproper, hallowed, hpass, hstop, hopen, hsurvives, hsnapshot, hhead⟩ := hcrash
  have hlasts := (h.live rfl).stop_lasts hproper hallowed.framed hpass hstop hopen hsurvives
    hsnapshot hhead
  exact .of_live (hhead.trans (Wal.settle_head ..).symm)
    ((hsurvives.snapshotFits h.fits hallowed).settle _) (hlasts.live_opened hopen).1

theorem SessionState.Tracks.compactFault {snapshot : SessionSnapshotData} {w' : World} {a' : Wal}
    (h : s.Tracks c sessionId true) (hthrough : snapshot.throughEventId = s.journal.nextId)
    (hid : snapshot.sessionId = sessionId) (hsized : (LogCall.compact snapshot).Sized c)
    (hfault : LogFault c s.world (.compact snapshot) w')
    (hlog : a' = s.log ∨ a' = Wal.compacted snapshot)
    (hsnapshot : w'.disk.snapshot = a'.snapshot.map (snapshotFile c)) :
    SessionState.Tracks c sessionId false ⟨w', s.journal, a'⟩ := by
  have hproper : (LogCall.compact snapshot).Proper sessionId s.log :=
    ⟨hthrough.trans h.next, hid⟩
  obtain ⟨a₁, hcases, hhead, hfaulted⟩ := hfault.faulted (h.live rfl) hproper hsized.framed
  have hsame : a₁.snapshot = a'.snapshot := by
    obtain ⟨recs, hrecovers, -⟩ := hfaulted
    refine Option.map_injective (snapshotFile_injective c) ?_
    rw [← hsnapshot]
    exact hrecovers.snapshot.symm
  have hcompacted : (Wal.compacted snapshot).SnapshotFits c := by
    intro t ht
    cases ht
    exact hsized
  -- when the two candidates have the same snapshot, neither has events
  have hempty : s.log.snapshot = some snapshot → s.log.events = [] := by
    intro hs
    have hsum : s.log.boundary + s.log.events.length = snapshot.throughEventId := hproper.1.symm
    rw [Wal.boundary, hs] at hsum
    exact List.length_eq_zero_iff.mp (Nat.add_left_cancel (n := snapshot.throughEventId) hsum)
  rcases hlog with rfl | rfl
  · refine .of_faulted h.next h.fits ?_
    rcases hcases with rfl | ⟨t, ht, rfl⟩
    · exact hfaulted
    · obtain rfl : snapshot = t := by cases ht; rfl
      have hs : s.log.snapshot = some snapshot := hsame.symm
      have hwal : ({ Wal.compacted snapshot with synced := s.log.synced } : Wal) = s.log := by
        rw [Wal.compacted, ← hs, ← hempty hs]
      exact hwal ▸ hfaulted.synced s.log.synced
  · refine .of_faulted ?_ hcompacted ?_
    · rw [Wal.compacted_head, hthrough]
    · rcases hcases with rfl | ⟨t, ht, rfl⟩
      · have hs : s.log.snapshot = some snapshot := hsame
        have hwal : ({ s.log with synced := 0 } : Wal) = Wal.compacted snapshot := by
          rw [Wal.compacted, ← hempty hs, ← hs]
        exact hwal ▸ hfaulted.synced 0
      · obtain rfl : snapshot = t := by cases ht; rfl
        exact hfaulted

theorem SessionState.Tracks.running (h : s.Tracks c sessionId whole) {call : AppendCall}
    (husable : Usable c s.world call) :
    ∃ recs, Running c sessionId s.world.view s.world.mem s.log recs :=
  let ⟨recs, _, hrun⟩ := h.faulted
  ⟨recs, hrun husable.1⟩

theorem FaultRun.tracks (hrun : FaultRun c sessionId (Usable c) whole s) :
    s.Tracks c sessionId whole := by
  induction hrun with
  | @opened d d' a mem loaded hfirst hopen =>
    obtain ⟨⟨recs, hrecovers⟩, -, hsynced⟩ := hfirst.recovers sessionId
    refine .of_live (hrecovers.opened hopen).1 ?_ (hrecovers.live_opened hsynced hopen).1
    cases hfirst with
    | fresh | legacy => simp [Wal.SnapshotFits]
  | step _ hstep ih => exact ih.step hstep
  | crash _ hcrash ih => exact ih.crash hcrash
  | compactFault _ hthrough hid hsized hfault hlog hsnapshot ih =>
    exact ih.compactFault hthrough hid hsized hfault hlog hsnapshot
  | @fault whole s w' unixMs kind chance _ husable hfault ih =>
    obtain ⟨recs, hrun⟩ := ih.running husable
    refine .of_faulted ?_ ih.fits (hfault.runs hrun ?_ husable.2).faulted
    · rw [(s.journal.rollback_append unixMs kind).2.1]
      exact ih.next
    · exact congrArg (· + 1) ih.next
  | @append s w' unixMs kind chance _ husable hsized hok ih =>
    obtain ⟨recs, hrun⟩ := ih.running husable
    have hid : (s.journal.call unixMs kind chance).event.id = s.log.head + 1 :=
      congrArg (· + 1) ih.next
    have hdone := (append_safe hrun hid hsized husable.2).1
    rw [hok] at hdone
    obtain ⟨recs', hrun', -⟩ := hdone rfl
    refine .of_faulted ?_ ih.fits (Runs.faulted ⟨recs', hrun'⟩)
    rw [Wal.append_head, ← ih.next]
    rfl
  | restart _ hopen ih =>
    obtain ⟨recs, hrecovers, -⟩ := ih.faulted
    obtain ⟨hnext, -, -, ⟨recs', hrun'⟩, -⟩ := hrecovers.opened hopen
    refine .of_faulted hnext ih.fits (Runs.faulted ⟨recs', ?_⟩)
    rwa [World.opened_view]
  | @reboot s _ _ _ _ hopen ih =>
    obtain ⟨recs, hrecovers, -⟩ := ih.faulted
    have hwhole := hrecovers.synced s.log.events.length
    exact .of_live (hwhole.opened hopen).1 ih.fits (hwhole.live_opened rfl hopen).1

end Runs

structure SessionMemory.Same (m m' : SessionMemory) : Prop where
  events : m'.journal.events = m.journal.events
  nextId : m'.journal.nextId = m.journal.nextId
  approxBytes : m'.journal.approxBytes = m.journal.approxBytes
  fileVersions : m'.fileVersions = m.fileVersions
  ptyStarted : m'.ptyStarted = m.ptyStarted
  ptyGeneration : m'.ptyGeneration = m.ptyGeneration
  runningProcesses : m'.runningProcesses = m.runningProcesses
  broadcast : m'.broadcast = m.broadcast

/-- In every run whose appends are usable, an append that fails leaves the session
as it was, in memory and for the next open, and the next one that succeeds takes
the same event id. -/
theorem failed_append_leaves_no_trace {c : Crates} {sessionId : Uuid} {w w' : World} {a : Wal}
    {m : SessionMemory} {whole : Bool}
    (hrun : FaultRun c sessionId (Usable c) whole ⟨w, m.journal, a⟩) (unixMs : ℕ) (kind : EventKind)
    (chance : AppendChance) (husable : Usable c w (m.journal.call unixMs kind chance))
    (hfault : AppendFault c w (m.journal.call unixMs kind chance) w') :
    (m.appendLocked unixMs kind false).2 = none ∧
      m.Same (m.appendLocked unixMs kind false).1 ∧
      recovered c sessionId w' = recovered c sessionId w ∧
      ∀ unixMs' kind', ((m.appendLocked unixMs kind false).1.appendLocked unixMs' kind' true).2.map
        Event.id = some (m.journal.append unixMs kind).2.id := by
  have htracks := hrun.tracks
  obtain ⟨hevents, hnext, hbytes⟩ := m.journal.rollback_append unixMs kind
  have hsame : m.Same (m.appendLocked unixMs kind false).1 :=
    ⟨hevents, hnext, hbytes, rfl, rfl, rfl, rfl, rfl⟩
  refine ⟨rfl, hsame, ?_, fun unixMs' kind' => ?_⟩
  · obtain ⟨recs, hlog⟩ := htracks.running husable
    have hid : (m.journal.call unixMs kind chance).event.id = a.head + 1 :=
      congrArg (· + 1) htracks.next
    obtain ⟨recs', hlog'⟩ := hfault.runs hlog hid husable.2
    exact recovered_eq hlog.recovers hlog'.recovers htracks.fits hfault.consumers
  · show some ((m.appendLocked unixMs kind false).1.journal.nextId + 1) = _
    rw [hsame.nextId]
    rfl

section Sample

variable {usable : World → AppendCall → Prop}

def newMemory : SessionMemory := ⟨.fromLoaded {}, ∅, false, 0, 0, []⟩

theorem freshWorld_faultRun :
    FaultRun postcard 0 usable true ⟨freshWorld, newMemory.journal, ⟨none, [], 0⟩⟩ := by
  obtain ⟨d', hopen, hworld⟩ := freshWorld_opened
  rw [← hworld]
  exact .opened (.fresh (fun _ => []) 0) hopen

theorem failed_first_append_leaves_no_trace : ∃ w',
    AppendFault postcard freshWorld createdCall w' ∧
    newMemory.Same (newMemory.appendLocked 0 .sessionCreated false).1 ∧
    recovered postcard 0 w' = recovered postcard 0 freshWorld := by
  have hfail : logMachine.Fails
      (recordWrites postcard freshWorld (frameBytes postcard freshWorld createdCall.event) createdCall)
      freshWorld (.writeEvents (be32 (postcard.event.encode createdCall.event).length))
      ((recordWrites postcard freshWorld (frameBytes postcard freshWorld createdCall.event)
        createdCall).drop 1) (freshWorld.writeEvents [0, 0]) :=
    .here _ (List.mem_map.mpr ⟨2, by decide, rfl⟩)
  have hfault := AppendFault.writing ⟨rfl, by decide⟩ hfail
  have husable : Usable postcard freshWorld createdCall := by
    refine ⟨?_, fun hneeds => absurd hneeds (by decide)⟩
    unfold Headed
    decide
  obtain ⟨-, hsame, hrecovered, -⟩ := failed_append_leaves_no_trace (m := newMemory)
    freshWorld_faultRun 0 .sessionCreated ⟨0, false⟩ husable hfault
  exact ⟨_, hfault, hsame, hrecovered⟩

def createdJournal : Journal := (newMemory.journal.append 0 .sessionCreated).1.enforceBounds

theorem createdWorld_faultRun :
    FaultRun postcard 0 usable true ⟨createdWorld, createdJournal, ⟨none, [createdCall.event], 1⟩⟩ := by
  have hstep : SessionStep postcard 0 (fun _ call => call.Sized postcard)
      ⟨freshWorld, newMemory.journal, ⟨none, [], 0⟩⟩ (some createdCall.event)
      ⟨createdWorld, createdJournal, ⟨none, [createdCall.event],
        syncedAfter postcard freshWorld ⟨none, [], 0⟩ createdCall⟩⟩ :=
    .append 0 .sessionCreated ⟨0, false⟩ createdCall_sized createdCall_appended.1
  exact .step freshWorld_faultRun hstep

def changedCall (path : String) (uuid : Uuid) : AppendCall :=
  createdJournal.call 0 (.fileChanged path 1) ⟨uuid, false⟩

def LongPath (path : String) : Prop := (Codec.text.encode path).length = 4 + eventSegmentMaxBytes

theorem exists_longPath : ∃ path, LongPath path := by
  have hfour : (Codec.nat.encode eventSegmentMaxBytes).length = 4 := by decide
  refine ⟨String.ofList (List.replicate eventSegmentMaxBytes 'a'), ?_⟩
  rw [LongPath, Codec.text_encode_length, hfour]

variable {path : String}

theorem LongPath.length (hpath : LongPath path) (uuid : Uuid) :
    (postcard.event.encode (changedCall path uuid).event).length = eventSegmentMaxBytes + 14 := by
  have hencode : postcard.event.encode (changedCall path uuid).event =
      [2, 0, 1, 1, 1, 1, 1, 1, 0] ++ (Codec.text.encode path ++ [1]) := rfl
  rw [hencode, List.length_append, List.length_append, hpath]
  show 9 + (4 + eventSegmentMaxBytes + 1) = _
  omega

theorem LongPath.rotates (hpath : LongPath path) {w : World} (hlong : headerLen < w.cell.now.length)
    (uuid : Uuid) : rotationProgram postcard w (changedCall path uuid) =
      rotateLocked w 2 uuid ++ [.refreshTotal] := by
  have hneeds : needsRotation postcard w (changedCall path uuid).event = true := by
    have hframe : eventSegmentMaxBytes + 14 ≤ frameBytes postcard w (changedCall path uuid).event := by
      rw [frameBytes, hpath.length]
      exact Nat.le_add_left _ _
    simp only [needsRotation, Bool.and_eq_true, decide_eq_true_eq]
    exact ⟨hlong, by omega⟩
  rw [rotationProgram, if_pos hneeds]
  rfl

/-- A rotation for the second event finds the disk full after one byte of the
header. -/
def halfRotated : World :=
  (logMachine.run ((rotateLocked createdWorld 2 1).take 5) createdWorld).1.writeActive 1
    (eventLogMagic.take 1)

def sealedHeader : World :=
  (logMachine.run (rotateLocked halfRotated 2 2 ++ [.refreshTotal]) halfRotated).1

theorem halfRotated_fault (hpath : LongPath path) :
    AppendFault postcard createdWorld (changedCall path 1) halfRotated := by
  have hfail : logMachine.Fails (rotateLocked createdWorld 2 1 ++ [.refreshTotal]) createdWorld
      (.writeActive eventLogMagic) ((rotateLocked createdWorld 2 1).drop 6 ++ [.refreshTotal])
      halfRotated := by
    refine .step rfl (.step rfl (.step rfl (.step rfl (.step rfl (.here _ ?_)))))
    exact List.mem_flatMap.mpr ⟨1, by decide, List.mem_map.mpr ⟨1, by decide, rfl⟩⟩
  rw [← hpath.rotates (by decide)] at hfail
  exact .rotating hfail

theorem halfRotated_run (hpath : LongPath path) : FaultRun postcard 0 (fun _ _ => True) false
    ⟨halfRotated, (createdJournal.append 0 (.fileChanged path 1)).1.rollback
      (createdJournal.append 0 (.fileChanged path 1)).2, ⟨none, [createdCall.event], 1⟩⟩ :=
  .fault 0 (.fileChanged path 1) ⟨1, false⟩ createdWorld_faultRun trivial (halfRotated_fault hpath)

theorem sealedHeader_fault (hpath : LongPath path) :
    AppendFault postcard halfRotated (changedCall path 2)
      ((sealedHeader.writeEvents []).undoAppend sealedHeader.cell.now.length) := by
  have hrotates : Rotates postcard halfRotated (changedCall path 2) sealedHeader := by
    refine ⟨?_, ?_⟩
    · rw [hpath.rotates (by decide)]
      exact Prod.ext rfl (by decide)
    · have hsum : halfRotated.mem.events.checksummed = true := rfl
      have htotal : sealedHeader.mem.totalBytes ≤ 1000 := by decide
      have hmax : eventSegmentMaxBytes + 2000 ≤ eventLogMaxBytes := by decide
      rw [frameBytes, hpath.length, hsum, if_pos rfl]
      generalize sealedHeader.mem.totalBytes = total at htotal ⊢
      generalize eventSegmentMaxBytes = segment at hmax ⊢
      generalize eventLogMaxBytes = limit at hmax ⊢
      omega
  refine .writing hrotates (.here _ ?_)
  exact List.mem_map.mpr ⟨0, by simp [be32_length], rfl⟩

/-- Two appends of the long event fail, the first within its rotation, the second
with its first write: before the second the session opens, after it no more. -/
theorem sealed_header_is_a_trace : ∃ path s w',
    FaultRun postcard 0 (fun _ _ => True) false s ∧
    AppendFault postcard s.world (s.journal.call 0 (.fileChanged path 1) ⟨2, false⟩) w' ∧
    (recovered postcard 0 s.world).map LoadedSession.events = .ok [createdCall.event] ∧
    (recovered postcard 0 w').map LoadedSession.events =
      .error (.segment ⟨1, 2, 0⟩ .truncatedHeader) := by
  obtain ⟨path, hpath⟩ := exists_longPath
  refine ⟨path, _, (sealedHeader.writeEvents []).undoAppend sealedHeader.cell.now.length,
    halfRotated_run hpath, sealedHeader_fault hpath, ?_, ?_⟩
  · show (recovered postcard 0 halfRotated).map LoadedSession.events = .ok [createdCall.event]
    decide +kernel
  · decide +kernel

end Sample

end Asp
