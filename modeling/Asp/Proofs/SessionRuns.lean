import Asp.Proofs.LogRuns
import Asp.Spec.Journal

/-! What every run of a session keeps: the open log lists its segments in order,
and the journal in memory is the newest part of the log. -/

namespace Asp

open Std Durable Steps

section Listed

variable {c : Crates} {sessionId : Uuid} {w w' : World} {a : Wal} {call : AppendCall}

variable {i : Io} {recs : ℕ → List Event}

theorem rotation_run {i : ℕ} (hactive : w.disk.active = some i)
    (hneeds : needsRotation c w call.event = true) :
    ∃ w', logMachine.run (rotationProgram c w call) w = (w', true) ∧
      w'.disk.segments =
        (⟨w.mem.events.firstEventId.getD call.event.id, call.uuid, 0⟩, i) :: w.disk.segments ∧
      w'.mem.segments =
        w.mem.segments ++ [⟨w.mem.events.firstEventId.getD call.event.id, call.uuid, 0⟩] ∧
      w'.mem.snapshotBoundary = w.mem.snapshotBoundary ∧
      ∀ j, j ≠ w.disk.fresh → w'.view.files j = w.view.files j := by
  simp only [rotationProgram, hneeds, if_true, rotateLocked, List.cons_append, List.nil_append,
    Machine.run, logMachine, Io.act, World.setCell, SessionDir.write, hactive, Option.map_some,
    World.openActive, World.writeActive, World.setEvents]
  refine ⟨_, rfl, rfl, rfl, rfl, fun j hj => ?_⟩
  simp only [World.view, SessionDir.map, Function.update_apply, hj, if_false]
  split_ifs with h
  · rw [h]
    rfl
  · rfl

theorem sortedSegments_cons {β : Type} {d : SessionDir β} {segment : SegmentName × ℕ}
    (hnewest : ∀ s ∈ d.segments, s.1.first < segment.1.first) :
    (segment :: d.segments).insertionSort (fun a b => a.1.le b.1) = d.sortedSegments ++ [segment] := by
  rw [List.insertionSort_cons, List.orderedInsert_eq_take_drop]
  have hall : ∀ s ∈ d.sortedSegments, ¬ segment.1.le s.1 := by
    intro s hs hle
    have hlt := hnewest s (mem_sortedSegments.mp hs)
    rcases hle with hle | ⟨hle, -⟩ <;> omega
  have htake : d.sortedSegments.takeWhile (fun s => decide ¬ segment.1.le s.1) = d.sortedSegments :=
    List.takeWhile_eq_self_iff.mpr fun s hs => by simpa using hall s hs
  have hdrop : d.sortedSegments.dropWhile (fun s => decide ¬ segment.1.le s.1) = [] :=
    List.dropWhile_eq_nil_iff.mpr fun s hs => by simpa using hall s hs
  exact congrArg₂ (fun l r => l ++ segment :: r) htake hdrop

theorem Listed.rotate (hrun : Running c sessionId w.view w.mem a recs)
    (hl : Lasting c sessionId w a) (hid : call.event.id = a.head + 1) (h : Listed w.view w.mem a) :
    Listed (logMachine.run (rotationProgram c w call) w).1.view
      (logMachine.run (rotationProgram c w call) w).1.mem a := by
  cases hneeds : needsRotation c w call.event with
  | false => simpa [rotationProgram, hneeds, Machine.run] using h
  | true =>
    obtain ⟨w', heq, hsegments, hnames, hboundary, hfiles⟩ := rotation_run hl.attached hneeds
    have hfirst : ∀ s ∈ w.view.segments,
        s.1.first < w.mem.events.firstEventId.getD call.event.id := by
      rw [hid]
      exact hrun.firstAbove hl.attached
    have hold : ∀ j ∈ w.view.logFiles, w'.view.files j = w.view.files j :=
      fun j hj => hfiles j (hrun.recovers.fresh j hj).ne
    rw [heq]
    refine ⟨?_, hboundary.trans h.boundary, ?_, ?_⟩
    · have hsort : w'.view.sortedSegments = w.view.sortedSegments ++
          [(⟨w.mem.events.firstEventId.getD call.event.id, call.uuid, 0⟩, w.mem.events.inode)] := by
        rw [SessionDir.sortedSegments, show w'.view.segments = w'.disk.segments from rfl, hsegments]
        exact sortedSegments_cons hfirst
      rw [hnames, h.segments, hsort, List.map_append]
      rfl
    · intro s hs
      rw [show w'.view.segments = w'.disk.segments from rfl, hsegments] at hs
      rcases List.mem_cons.mp hs with rfl | hs
      · rw [hold _ (mem_logFiles.mpr (.inr hl.attached))]
        -- the log was long enough to rotate
        intro hnil
        have hlong : w.cell.now.length > headerLen := by
          simp only [needsRotation, Bool.and_eq_true, decide_eq_true_eq] at hneeds
          exact hneeds.1
        rw [show w.cell.now = w.view.files w.mem.events.inode from rfl, hnil] at hlong
        exact absurd hlong (Nat.not_lt_zero _)
      · rw [hold _ (mem_logFiles.mpr (.inl ⟨s, hs, rfl⟩))]
        exact h.whole s hs
    · rw [show w'.view.segments = w'.disk.segments from rfl, hsegments, List.map_cons,
        List.nodup_cons]
      refine ⟨fun hmem => ?_, h.distinct⟩
      obtain ⟨s, hs, hname⟩ := List.mem_map.mp hmem
      have := hfirst s hs
      rw [hname] at this
      exact absurd this (Nat.lt_irrefl _)

def SameSegments (w w' : World) : Prop :=
  w'.disk.segments = w.disk.segments ∧ w'.mem.segments = w.mem.segments ∧
    w'.mem.snapshotBoundary = w.mem.snapshotBoundary ∧
    w'.mem.events.inode = w.mem.events.inode ∧
    ∀ j, j ≠ w.mem.events.inode → w'.view.files j = w.view.files j

theorem writeProgram_segments (w : World) (frameBytes : ℕ) (call : AppendCall) :
    SameSegments w (logMachine.run (writeProgram c w frameBytes call) w).1 := by
  refine (logMachine.run_passes _ w).invariant (P := SameSegments w) ?_
    ⟨rfl, rfl, rfl, rfl, fun _ _ => rfl⟩
  rintro i hi s s' hact ⟨hd, hm, hb, hn, hf⟩
  have hkinds : (∃ bytes, i = .writeEvents bytes) ∨ (∃ id n, i = .recordAppend id n) ∨
      i = .syncEvents ∨ i = .clearDirty := by
    simp only [writeProgram, List.mem_append, List.mem_cons, List.not_mem_nil, or_false] at hi
    split_ifs at hi <;> simp only [List.mem_cons, List.not_mem_nil, or_false] at hi <;> grind
  rcases hkinds with ⟨bytes, rfl⟩ | ⟨id, n, rfl⟩ | rfl | rfl
  · cases hact
    refine ⟨hd, hm, hb, hn, fun j hj => ?_⟩
    rw [← hf j hj]
    show ((s.setCell s.mem.events.inode _).view.files j) = _
    rw [World.view_setCell, SessionDir.write_files_of_ne _ _ (hn ▸ hj)]
  · cases hact
    exact ⟨hd, hm, hb, hn, hf⟩
  · cases hact
    refine ⟨hd, hm, hb, hn, fun j hj => ?_⟩
    rw [← hf j hj, World.view_setCell, SessionDir.write_files_of_ne _ _ (hn ▸ hj)]
  · cases hact
    exact ⟨hd, hm, hb, hn, hf⟩

theorem Listed.same (h : Listed w.view w.mem a) (hsame : SameSegments w w') {a' : Wal}
    (hboundary : a'.boundary = a.boundary) (hactive : ∀ s ∈ w.view.segments, s.2 ≠ w.mem.events.inode) :
    Listed w'.view w'.mem a' := by
  obtain ⟨hd, hm, hb, -, hf⟩ := hsame
  have hsegments : w'.view.segments = w.view.segments := hd
  refine ⟨?_, by rw [hb, h.boundary, hboundary], ?_, by rw [hsegments]; exact h.distinct⟩
  · rw [hm, h.segments, SessionDir.sortedSegments, SessionDir.sortedSegments, hsegments]
  · intro s hs
    rw [hsegments] at hs
    rw [hf _ (hactive s hs)]
    exact h.whole s hs

theorem Listed.append (hrun : Running c sessionId w.view w.mem a recs)
    (hl : Lasting c sessionId w a) (hid : call.event.id = a.head + 1)
    (hfits : (c.event.encode call.event).length ≤ maxFrameBytes) (h : Listed w.view w.mem a) :
    Listed (Asp.append c w call).1.view (Asp.append c w call).1.mem a := by
  have hrotated := h.rotate hrun hl hid
  obtain ⟨-, hready⟩ := (rotationProgram_safe hrun hid hfits fun _ => hl.wholeHeader hrun).run
  generalize hrot : logMachine.run (rotationProgram c w call) w = rotated at hrotated hready
  obtain ⟨w₁, ok⟩ := rotated
  unfold Asp.append
  split_ifs with hlong
  · exact h
  · simp only [hrot]
    cases ok with
    | false => exact hrotated
    | true =>
      simp only [Bool.not_true, Bool.false_eq_true, if_false]
      split_ifs with hfull
      · exact hrotated
      · obtain ⟨-, recs₁, hrun₁, hlasting₁⟩ := hready rfl
        exact hrotated.same (writeProgram_segments w₁ _ call) rfl
          fun s hs => hrun₁.recovers.segment_ne_active (hlasting₁ hl).attached hs

theorem Io.act_listing (hact : i.act w = some w') :
    ((∀ segment, i ≠ .renameActive segment) → w'.disk.segments.Sublist w.disk.segments) ∧
      ((∀ segment, i ≠ .pushSegment segment) →
        w'.mem.segments = [] ∨ w'.mem.segments = w.mem.segments) ∧
      ((∃ id, i = .storeBoundary id ∧ w'.mem.snapshotBoundary = id) ∨
        w'.mem.snapshotBoundary = w.mem.snapshotBoundary) := by
  have hrefl := List.Sublist.refl w.disk.segments
  cases i with
  | renameActive segment =>
    obtain ⟨i, -, rfl⟩ := Option.map_eq_some_iff.mp hact
    exact ⟨fun hi => absurd rfl (hi segment), fun _ => .inr rfl, .inr rfl⟩
  | pushSegment segment =>
    cases hact
    exact ⟨fun _ => hrefl, fun hi => absurd rfl (hi segment), .inr rfl⟩
  | removeSegment segment =>
    cases hact
    exact ⟨fun _ => List.filter_sublist, fun _ => .inr rfl, .inr rfl⟩
  | drainSegments =>
    cases hact
    exact ⟨fun _ => hrefl, fun _ => .inl rfl, .inr rfl⟩
  | storeBoundary id =>
    cases hact
    exact ⟨fun _ => hrefl, fun _ => .inr rfl, .inl ⟨id, rfl, rfl⟩⟩
  | writeActive _ | syncActive | installActive =>
    obtain ⟨i, -, rfl⟩ := Option.map_eq_some_iff.mp hact
    exact ⟨fun _ => hrefl, fun _ => .inr rfl, .inr rfl⟩
  | openActive =>
    cases hact
    unfold World.openActive
    split <;> exact ⟨fun _ => hrefl, fun _ => .inr rfl, .inr rfl⟩
  | _ =>
    cases hact
    exact ⟨fun _ => hrefl, fun _ => .inr rfl, .inr rfl⟩

theorem compactProgram_kinds {s : SessionSnapshotData} (hi : i ∈ compactProgram c w s) :
    (∀ segment, i ≠ .renameActive segment) ∧ (∀ segment, i ≠ .pushSegment segment) ∧
      ∀ id, i = .storeBoundary id → id = s.throughEventId := by
  simp only [compactProgram, List.mem_append, List.mem_cons, List.not_mem_nil, or_false,
    List.mem_map] at hi
  rcases hi with (hi | ⟨segment, -, rfl⟩) | hi
  · rcases hi with rfl | rfl | rfl | rfl | rfl | rfl | rfl | rfl <;>
      exact ⟨nofun, nofun, nofun⟩
  · exact ⟨nofun, nofun, nofun⟩
  · rcases hi with rfl | rfl | rfl
    · exact ⟨nofun, nofun, nofun⟩
    · exact ⟨nofun, nofun, fun id h => (Io.storeBoundary.inj h).symm⟩
    · exact ⟨nofun, nofun, nofun⟩

theorem Listed.compact {s : SessionSnapshotData} (h : Listed w.view w.mem a)
    (hrun : logMachine.run (compactProgram c w s) w = (w', true)) :
    Listed w'.view w'.mem (Wal.compacted s) := by
  have hsub : w'.disk.segments.Sublist w.disk.segments := by
    have := (logMachine.run_passes (compactProgram c w s) w).invariant
      (P := fun w' => w'.disk.segments.Sublist w.disk.segments)
      (fun i hi s₁ s₂ hact hs => ((Io.act_listing hact).1 (compactProgram_kinds hi).1).trans hs)
      (List.Sublist.refl _)
    rwa [hrun] at this
  have hgone : ∀ name ∈ w.mem.segments, ∀ entry ∈ w'.disk.segments, entry.1 ≠ name := by
    intro name hname
    refine Machine.run_establishes (P := fun w' => ∀ entry ∈ w'.disk.segments, entry.1 ≠ name)
      (i := .removeSegment name) ?_ ?_ ?_ hrun
    · exact List.mem_append_left _ (List.mem_append_right _ (List.mem_map_of_mem hname))
    · intro s₁ s₂ hact
      cases hact
      intro entry hentry
      simpa using (List.mem_filter.mp hentry).2
    · intro i hi s₁ s₂ hact hs entry hentry
      exact hs entry (((Io.act_listing hact).1 (compactProgram_kinds hi).1).subset hentry)
  have hnone : w'.disk.segments = [] := by
    refine List.eq_nil_iff_forall_not_mem.mpr fun entry hentry => ?_
    refine hgone entry.1 ?_ entry hentry rfl
    rw [h.segments]
    exact List.mem_map_of_mem (mem_sortedSegments.mpr (hsub.subset hentry))
  have hnames : w'.mem.segments = [] := by
    refine Machine.run_establishes (P := fun w' => w'.mem.segments = []) (i := .drainSegments)
      (by simp [compactProgram]) ?_ ?_ hrun
    · intro s₁ s₂ hact
      cases hact
      rfl
    · intro i hi s₁ s₂ hact hs
      exact ((Io.act_listing hact).2.1 (compactProgram_kinds hi).2.1).elim id fun hsame => hsame.trans hs
  have hboundary : w'.mem.snapshotBoundary = s.throughEventId := by
    refine Machine.run_establishes (P := fun w' => w'.mem.snapshotBoundary = s.throughEventId)
      (i := .storeBoundary s.throughEventId) (by simp [compactProgram]) ?_ ?_ hrun
    · intro s₁ s₂ hact
      cases hact
      rfl
    · intro i hi s₁ s₂ hact hs
      rcases (Io.act_listing hact).2.2 with ⟨id, rfl, hid⟩ | hsame
      · rw [hid, (compactProgram_kinds hi).2.2 id rfl]
      · exact hsame.trans hs
  have hview : w'.view.segments = [] := hnone
  refine ⟨?_, hboundary, ?_, ?_⟩
  · rw [hnames, SessionDir.sortedSegments, hview]
    rfl
  · rw [hview]
    exact fun s hs => absurd hs List.not_mem_nil
  · rw [hview]
    exact List.nodup_nil

theorem passes_distinct {is : List Io} (hi : ∀ i ∈ is, ∀ segment, i ≠ .renameActive segment)
    (hpass : logMachine.Passes is w w') (h : (w.disk.segments.map Prod.fst).Nodup) :
    (w'.disk.segments.map Prod.fst).Nodup :=
  hpass.invariant (P := fun w' => (w'.disk.segments.map Prod.fst).Nodup)
    (fun i hmem _ _ hact hs => (((Io.act_listing hact).1 (hi i hmem)).map Prod.fst).nodup hs) h

theorem rotation_distinct (hrun : Running c sessionId w.view w.mem a recs)
    (hl : Lasting c sessionId w a) (hid : call.event.id = a.head + 1)
    (h : (w.disk.segments.map Prod.fst).Nodup)
    (hpass : logMachine.Passes (rotationProgram c w call) w w') :
    (w'.disk.segments.map Prod.fst).Nodup := by
  unfold rotationProgram at hpass
  split_ifs at hpass
  · -- before the rename, or after it with the new name in front
    cases hpass with
    | here => exact h
    | step hact hpass =>
      cases hact
      cases hpass with
      | here => exact h
      | step hact hpass =>
        obtain ⟨i, -, rfl⟩ := Option.map_eq_some_iff.mp hact
        refine passes_distinct ?_ hpass ?_
        · simp
        · rw [List.map_cons, List.nodup_cons]
          refine ⟨fun hmem => ?_, h⟩
          obtain ⟨s, hs, hname⟩ := List.mem_map.mp hmem
          have hlt := hrun.firstAbove hl.attached s hs
          rw [hname, ← hid] at hlt
          exact absurd hlt (Nat.lt_irrefl _)
  · cases hpass
    exact h

theorem LogCall.Passes.distinct {call : LogCall} (hlive : Live c sessionId a w)
    (hproper : call.Proper sessionId a) (hpass : call.Passes c w a w')
    (h : (w.disk.segments.map Prod.fst).Nodup) : (w'.disk.segments.map Prod.fst).Nodup := by
  obtain ⟨⟨recs, hrun⟩, hl⟩ := hlive
  cases hpass with
  | before => exact h
  | rotating hpass => exact rotation_distinct hrun hl hproper h hpass
  | @writing call w₁ _ heq _ hpass =>
    have hrotated := rotation_distinct hrun hl hproper h
      (logMachine.run_passes (rotationProgram c w call) w)
    rw [heq] at hrotated
    refine passes_distinct (fun i hi segment => ?_) hpass hrotated
    rintro rfl
    simp only [writeProgram, List.mem_append, List.mem_cons, List.not_mem_nil, or_false] at hi
    split_ifs at hi <;> simp at hi
  | compacting hpass =>
    exact passes_distinct (fun i hi => (compactProgram_kinds hi).1) hpass h
  | acked call =>
    rcases ackEventConsumer_cases w a.head call with hsame | ⟨_, _, _, _, _, hsame⟩
    · rwa [hsame]
    · rwa [hsame]

end Listed

section Window

variable {loaded : LoadedSession} {w' : World}

structure Windowed (j : Journal) (a : Wal) : Prop where
  next : j.nextId = a.head
  newest : j.events <:+ a.events

variable {c : Crates} {sessionId : Uuid} {j : Journal} {a : Wal}

theorem evict_suffix (events : List Event) (bytes : ℕ) :
    (LoadedSession.evict events bytes).1 <:+ events := by
  induction events generalizing bytes with
  | nil => exact List.suffix_rfl
  | cons old events ih =>
    unfold LoadedSession.evict
    split_ifs
    · exact (ih _).trans (List.suffix_cons ..)
    · exact List.suffix_rfl

theorem push_events_suffix (sha256 : Bytes → String) (s : LoadedSession) (e : Event) :
    (s.push sha256 e).events <:+ s.events ++ [e] := by
  have happly : ∀ s : LoadedSession, (s.apply sha256 e).events = s.events := by
    intro s
    unfold LoadedSession.apply
    split <;> rfl
  unfold LoadedSession.push
  simp only [happly]
  exact evict_suffix _ _

theorem foldl_push_suffix (sha256 : Bytes → String) (s : LoadedSession) (events : List Event) :
    (events.foldl (LoadedSession.push sha256) s).events <:+ s.events ++ events := by
  induction events generalizing s with
  | nil => simp
  | cons e events ih =>
    obtain ⟨front, hfront⟩ := push_events_suffix sha256 s e
    refine (ih _).trans ⟨front, ?_⟩
    rw [← List.append_assoc, hfront, List.append_assoc, List.singleton_append]

theorem Windowed.fromLoaded (hnext : loaded.nextId = a.head)
    (hloaded : loaded = { a.replay c.sha256 with eventConsumers := loaded.eventConsumers }) :
    Windowed (Journal.fromLoaded loaded) a := by
  refine ⟨hnext, ?_⟩
  have hempty : (a.base c.sha256).events = [] := by
    rw [Wal.base]
    cases a.snapshot <;> rfl
  have hsuffix := foldl_push_suffix c.sha256 (a.base c.sha256) a.events
  rw [hempty, List.nil_append] at hsuffix
  rwa [Journal.fromLoaded, hloaded]

theorem Windowed.append (h : Windowed j a) (unixMs : ℕ) (kind : EventKind) (synced : ℕ) :
    Windowed (j.append unixMs kind).1.enforceBounds
      (a.append (j.append unixMs kind).2 synced) := by
  refine ⟨?_, (evict_suffix _ _).trans ?_⟩
  · rw [Wal.append_head, ← h.next]
    rfl
  · obtain ⟨front, hfront⟩ := h.newest
    refine ⟨front, ?_⟩
    show front ++ (j.events ++ [_]) = a.events ++ [_]
    rw [← List.append_assoc, hfront]
    rfl

theorem Journal.rollback_append (j : Journal) (unixMs : ℕ) (kind : EventKind) :
    ((j.append unixMs kind).1.rollback (j.append unixMs kind).2).events = j.events ∧
      ((j.append unixMs kind).1.rollback (j.append unixMs kind).2).nextId = j.nextId ∧
      ((j.append unixMs kind).1.rollback (j.append unixMs kind).2).approxBytes = j.approxBytes := by
  have hlast : (j.append unixMs kind).1.events.getLast? = some (j.append unixMs kind).2 := by
    simp [Journal.append]
  simp only [Journal.rollback, hlast, if_true]
  simp [Journal.append]

theorem Windowed.rollback (h : Windowed j a) (unixMs : ℕ) (kind : EventKind) :
    Windowed ((j.append unixMs kind).1.rollback (j.append unixMs kind).2) a := by
  obtain ⟨hevents, hnext, -⟩ := j.rollback_append unixMs kind
  exact ⟨hnext.trans h.next, hevents ▸ h.newest⟩

theorem Journal.call_proper (h : Windowed j a) (sessionId : Uuid) (unixMs : ℕ) (kind : EventKind)
    (chance : AppendChance) : (LogCall.append (j.call unixMs kind chance)).Proper sessionId a :=
  congrArg (· + 1) h.next

theorem FirstOpen.distinct {d : SessionDir Bytes} (h : FirstOpen c d a) :
    (d.segments.map Prod.fst).Nodup := by
  cases h <;> exact List.nodup_nil

structure SessionState.Kept (c : Crates) (sessionId : Uuid) (s : SessionState) : Prop where
  live : Live c sessionId s.log s.world
  window : Windowed s.journal s.log
  listed : Listed s.world.view s.world.mem s.log

structure SessionState.Sound (c : Crates) (sessionId : Uuid) (allowed : Wal → LogCall → Prop)
    (s : SessionState) : Prop where
  log : LogRun c sessionId allowed s.world s.log
  window : Windowed s.journal s.log
  listed : Listed s.world.view s.world.mem s.log

variable {allowed : Wal → LogCall → Prop} {s s' : SessionState}

theorem SessionState.Kept.append (h : s.Kept c sessionId) (unixMs : ℕ) (kind : EventKind)
    (chance : AppendChance)
    (hframed : (LogCall.append (s.journal.call unixMs kind chance)).Framed c)
    (hok : Asp.append c s.world (s.journal.call unixMs kind chance) = (w', true)) :
    SessionState.Kept c sessionId ⟨w', (s.journal.append unixMs kind).1.enforceBounds,
      s.log.append (s.journal.append unixMs kind).2
        (syncedAfter c s.world s.log (s.journal.call unixMs kind chance))⟩ := by
  have hproper := Journal.call_proper h.window sessionId unixMs kind chance
  obtain ⟨⟨recs, hrun⟩, hl⟩ := h.live
  have hafter := h.listed.append hrun hl hproper hframed
  rw [hok] at hafter
  exact ⟨h.live.append hproper hframed hok, h.window.append unixMs kind _,
    hafter.segments, hafter.boundary, hafter.whole, hafter.distinct⟩

theorem SessionState.Kept.refused (h : s.Kept c sessionId) (unixMs : ℕ) (kind : EventKind)
    (chance : AppendChance)
    (hframed : (LogCall.append (s.journal.call unixMs kind chance)).Framed c)
    (herr : Asp.append c s.world (s.journal.call unixMs kind chance) = (w', false)) :
    SessionState.Kept c sessionId
      ⟨w', (s.journal.append unixMs kind).1.rollback (s.journal.append unixMs kind).2, s.log⟩ := by
  have hproper := Journal.call_proper h.window sessionId unixMs kind chance
  obtain ⟨⟨recs, hrun⟩, hl⟩ := h.live
  have hafter := h.listed.append hrun hl hproper hframed
  rw [herr] at hafter
  exact ⟨h.live.refused hproper hframed herr, h.window.rollback unixMs kind, hafter⟩

theorem SessionState.Kept.compact {snapshot : SessionSnapshotData} (h : s.Kept c sessionId)
    (hthrough : snapshot.throughEventId = s.journal.nextId) (hid : snapshot.sessionId = sessionId)
    (hok : Asp.compact c s.world snapshot = (w', true)) :
    SessionState.Kept c sessionId ⟨w', s.journal.cleared, Wal.compacted snapshot⟩ := by
  refine ⟨h.live.compact ⟨hthrough.trans h.window.next, hid⟩ hok, ⟨?_, List.suffix_rfl⟩,
    h.listed.compact (compact_run hok)⟩
  rw [Wal.compacted_head, hthrough]
  rfl

theorem SessionState.Sound.kept (hframed : ∀ a call, allowed a call → call.Framed c)
    (h : s.Sound c sessionId allowed) : s.Kept c sessionId :=
  ⟨(h.log.live hframed).1, h.window, h.listed⟩

theorem SessionState.Sound.opened {d d' : SessionDir Bytes} {mem : SessionDisk}
    (hfirst : FirstOpen c d a) (hopen : openSession c sessionId d = (d', .ok (mem, loaded))) :
    SessionState.Sound c sessionId allowed
      ⟨World.opened (d.map Cell.stable) d' mem loaded, Journal.fromLoaded loaded, a⟩ := by
  obtain ⟨⟨recs, hrecovers⟩, -, -⟩ := hfirst.recovers sessionId
  obtain ⟨hnext, -, -, -, hlisted, hloaded⟩ := hrecovers.opened hopen
  refine ⟨.opened hfirst hopen, .fromLoaded hnext hloaded, ?_⟩
  rw [World.opened_view]
  exact hlisted hfirst.distinct

theorem SessionState.Sound.step {event : Option Event}
    (hframed : ∀ a call, allowed a call → call.Framed c) (h : s.Sound c sessionId allowed)
    (hstep : SessionStep c sessionId allowed s event s') : s'.Sound c sessionId allowed := by
  have hkept := h.kept hframed
  obtain ⟨hlog, hwindow, hlisted⟩ := h
  cases hstep with
  | append unixMs kind chance hallowed hok =>
    obtain ⟨-, hwindow', hlisted'⟩ := hkept.append unixMs kind chance (hframed _ _ hallowed) hok
    exact ⟨.append hlog (Journal.call_proper hwindow sessionId unixMs kind chance) hallowed hok,
      hwindow', hlisted'⟩
  | refused unixMs kind chance hallowed herr =>
    obtain ⟨-, hwindow', hlisted'⟩ := hkept.refused unixMs kind chance (hframed _ _ hallowed) herr
    exact ⟨.refused hlog (Journal.call_proper hwindow sessionId unixMs kind chance) hallowed herr,
      hwindow', hlisted'⟩
  | compact hthrough hid hallowed hok =>
    obtain ⟨-, hwindow', hlisted'⟩ := hkept.compact hthrough hid hok
    exact ⟨.compact hlog ⟨hthrough.trans hwindow.next, hid⟩ hallowed hok, hwindow', hlisted'⟩
  | @ack call hallowed =>
    rw [hwindow.next]
    refine ⟨.ack hlog hallowed, hwindow, ?_⟩
    rcases ackEventConsumer_cases (c := c) s.world s.log.head call with hsame | ⟨_, _, _, _, _, hsame⟩
    · rwa [hsame]
    · rw [hsame]
      exact ⟨hlisted.segments, hlisted.boundary, hlisted.whole, hlisted.distinct⟩

theorem Windowed.settle (h : Windowed j a) (w : World) : Windowed j (a.settle w) :=
  ⟨h.next.trans (a.settle_head w).symm, (a.settle_events w).symm ▸ h.newest⟩

theorem SessionState.Kept.opened {e : SessionDir (Durable.Cell Bytes)} {d' : SessionDir Bytes}
    {mem : SessionDisk} (h : Lasts c sessionId e a) (hdistinct : (e.segments.map Prod.fst).Nodup)
    (hopen : openSession c sessionId (e.map Durable.Cell.now) = (d', .ok (mem, loaded))) :
    SessionState.Kept c sessionId ⟨World.opened e d' mem loaded, Journal.fromLoaded loaded,
      a.settle (World.opened e d' mem loaded)⟩ := by
  obtain ⟨recs, hrecovers⟩ := h.recovers
  obtain ⟨hnext, -, -, -, hlisted, hloaded⟩ := hrecovers.opened hopen
  obtain ⟨hsegments, hboundary, hwhole, hnames⟩ := hlisted hdistinct
  refine ⟨(h.live_opened hopen).1, (Windowed.fromLoaded hnext hloaded).settle _, ?_⟩
  rw [World.opened_view]
  exact ⟨hsegments, hboundary.trans (Wal.settle_boundary ..).symm, hwhole, hnames⟩

theorem SessionState.Sound.crash {call : LogCall} {stop : Stop}
    (hframed : ∀ a call, allowed a call → call.Framed c) (h : s.Sound c sessionId allowed)
    (hcrash : SessionCrash c sessionId allowed stop s call s') : s'.Sound c sessionId allowed := by
  obtain ⟨hlog, -, hlisted⟩ := h
  obtain ⟨hproper, hallowed, hpass, hstop, hopen, hsurvives, hsnapshot, hhead⟩ := hcrash
  have hlive := (hlog.live hframed).1
  have hlasts := hlive.stop_lasts hproper (hframed _ _ hallowed) hpass hstop hopen hsurvives
    hsnapshot hhead
  have hnames := LogCall.Passes.distinct hlive hproper hpass hlisted.distinct
  have hkept := SessionState.Kept.opened hlasts ((SessionDir.Stops.same hstop).2 ▸ hnames) hopen
  exact ⟨.stopped hlog hproper hallowed hpass hstop hopen hsurvives hsnapshot hhead, hkept.window,
    hkept.listed⟩

theorem SessionRun.sound (hframed : ∀ a call, allowed a call → call.Framed c)
    (h : SessionRun c sessionId allowed s) : s.Sound c sessionId allowed := by
  induction h with
  | opened hfirst hopen => exact .opened hfirst hopen
  | step _ hstep ih => exact ih.step hframed hstep
  | crash _ hcrash ih => exact ih.crash hframed hcrash

end Window

end Asp
