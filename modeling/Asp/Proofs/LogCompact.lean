import Asp.Proofs.LogPrograms

/-! Compaction: once the snapshot is in place, whatever is left of the log files is covered by it,
also after a call that fails. -/

namespace Asp

open Framing Durable Steps

/-- The descriptor's file starts with the header of its format, and the
descriptor is at the end. -/
def Headed (w : World) : Prop :=
  eventLogHeader w.mem.events.checksummed <+: w.cell.now ∧ w.mem.events.pos = w.cell.now.length

section Compact

variable (c : Crates) (sessionId : Uuid)

def Live (a : Wal) (w : World) : Prop :=
  Runs c sessionId a w ∧ Lasting c sessionId w a

/-- What a failing call leaves: the next open finds `a`, and so does the daemon
if the log still has its header. -/
def Faulted (a : Wal) (w : World) : Prop :=
  ∃ recs, Recovers c sessionId w.view a recs ∧
    (Headed w → Running c sessionId w.view w.mem a recs)

variable {c sessionId} {w w₀ w' : World} {a : Wal} {recs : ℕ → List Event}
  {s : SessionSnapshotData} {x : Bytes} {pos : ℕ}

theorem Runs.faulted (h : Runs c sessionId a w) : Faulted c sessionId a w :=
  let ⟨recs, hrun⟩ := h
  ⟨recs, hrun.recovers, fun _ => hrun⟩

/-- Between the snapshot and the new header: the file holds `x`, a part of the header. -/
structure Emptying (w₀ : World) (x : Bytes) (pos : ℕ) (w : World) : Prop where
  disk : ∃ cell, w.disk = w₀.disk.write w₀.mem.events.inode cell ∧ cell.now = x ∧
    ∀ b ∈ cell.images, b ∈ w₀.cell.images ∨ b <+: eventLogHeader true
  within : x <+: eventLogHeader true
  mem : w.mem = { w₀.mem with events := { w₀.mem.events with pos := pos } }

theorem Emptying.view (h : Emptying w₀ x pos w) : w.view = w₀.view.write w₀.mem.events.inode x := by
  obtain ⟨⟨cell, hdisk, rfl, -⟩, -, -⟩ := h
  rw [World.view, hdisk, SessionDir.map_write]
  rfl

theorem Emptying.cell (h : Emptying w₀ x pos w) : w.cell.now = x := by
  obtain ⟨⟨cell, hdisk, rfl, -⟩, -, hmem⟩ := h
  rw [World.cell, hdisk, hmem]
  exact congrArg Cell.now (Function.update_self ..)

theorem truncate_emptying (w₀ : World) :
    Emptying w₀ [] w₀.mem.events.pos
      (w₀.setCell w₀.mem.events.inode (w₀.cell.change [] [])) := by
  refine ⟨⟨_, rfl, rfl, fun b hb => ?_⟩, List.nil_prefix, rfl⟩
  rcases Cell.mem_images_change.mp hb with rfl | hb | hb
  · exact .inr List.nil_prefix
  · exact absurd hb List.not_mem_nil
  · exact .inl hb

theorem Emptying.rewind (h : Emptying w₀ x pos w) (n : ℕ) :
    Emptying w₀ x n (w.setEvents { w.mem.events with pos := n }) := by
  obtain ⟨hdisk, hwithin, hmem⟩ := h
  refine ⟨hdisk, hwithin, ?_⟩
  rw [World.setEvents, hmem]

theorem Emptying.write (h : Emptying w₀ x x.length w) {bytes : Bytes}
    (hpre : x ++ bytes <+: eventLogHeader true) :
    Emptying w₀ (x ++ bytes) (x ++ bytes).length (w.writeEvents bytes) := by
  obtain ⟨⟨cell, hdisk, rfl, himages⟩, hwithin, hmem⟩ := h
  have hinode : w.mem.events.inode = w₀.mem.events.inode := by rw [hmem]
  have hcell : w.cell = cell := by
    rw [World.cell, hdisk, hinode]
    exact Function.update_self ..
  have hpos : w.mem.events.pos = cell.now.length := by rw [hmem]
  refine ⟨⟨Cell.writeAll cell w.mem.events.pos bytes, ?_, writeAll_now hpos, ?_⟩, hpre, ?_⟩
  · show w.disk.write w.mem.events.inode (Cell.writeAll w.cell w.mem.events.pos bytes) = _
    rw [hcell, hdisk, hinode, SessionDir.write_write]
  · intro b hb
    rcases mem_images_writeAll hpos hb with hb | ⟨t, ht, rfl⟩
    · exact himages b hb
    · exact .inr (((List.prefix_append_right_inj _).mpr ht).trans hpre)
  · show ({ w.mem with
      events := { w.mem.events with pos := w.mem.events.pos + bytes.length } } : SessionDisk) = _
    rw [hmem, List.length_append]

theorem Emptying.syncEvents (h : Emptying w₀ x pos w) :
    Emptying w₀ x pos (w.setCell w.mem.events.inode w.cell.sync) := by
  have hnow := h.cell
  obtain ⟨⟨cell, hdisk, rfl, himages⟩, hwithin, hmem⟩ := h
  have hinode : w.mem.events.inode = w₀.mem.events.inode := by rw [hmem]
  refine ⟨⟨w.cell.sync, ?_, hnow, fun b hb => ?_⟩, hwithin, hmem⟩
  · show w.disk.write w.mem.events.inode w.cell.sync = _
    rw [hdisk, hinode, SessionDir.write_write]
  · rw [Cell.mem_images_sync.mp hb, hnow]
    exact .inr hwithin

theorem Emptying.faulted (h : Running c sessionId w₀.view w₀.mem (Wal.compacted s) recs)
    (hactive : w₀.disk.active = some w₀.mem.events.inode) (he : Emptying w₀ x pos w) :
    Faulted c sessionId (Wal.compacted s) w := by
  have hholds : ActiveHolds c x ((recs w₀.mem.events.inode).take 0) :=
    activeHolds_header he.within
  have hsmall : x.length ≤ eventLogMaxBytes :=
    (he.within.length_le : _ ≤ headerLen).trans (by decide)
  have hrecovers := h.recovers.emptied hactive hholds hsmall
  rw [List.take_zero, ← he.view] at hrecovers
  refine ⟨_, hrecovers, fun hheaded => ?_⟩
  obtain ⟨hheader, hpos⟩ := hheaded
  rw [he.cell] at hheader hpos
  -- only a whole header starts with one, and then the format is the checksummed one
  have hwhole : x = eventLogHeader true := he.within.eq_of_length_le hheader.length_le
  have hsum : w.mem.events.checksummed = true := by
    rw [hwhole] at hheader
    have hsame := hheader.eq_of_length rfl
    cases hc : w.mem.events.checksummed with
    | true => rfl
    | false =>
      rw [hc] at hsame
      exact absurd hsame (by decide)
  rw [he.view, hwhole]
  refine h.emptied _ hactive ?_ ?_ hsum ?_
  · rw [he.mem]
  · rw [hpos, hwhole, eventLogHeader_length]
  · rw [he.mem]
    exact fun n hn => hn

theorem Emptying.lasts (h : Running c sessionId w₀.view w₀.mem (Wal.compacted s) recs)
    (hl : Lasting c sessionId w₀ (Wal.compacted s)) (he : Emptying w₀ x pos w) :
    Lasts c sessionId w.disk (Wal.compacted s) := by
  obtain ⟨⟨cell, hdisk, rfl, himages⟩, hwithin, -⟩ := he
  have hheader : ∀ b, b <+: eventLogHeader true → ∃ recs', Recovers c sessionId
      (w₀.view.write w₀.mem.events.inode b) (Wal.compacted s) recs' := by
    intro b hb
    have hholds : ActiveHolds c b ((recs w₀.mem.events.inode).take 0) := activeHolds_header hb
    exact ⟨_, h.recovers.emptied hl.attached hholds
      ((hb.length_le : _ ≤ headerLen).trans (by decide))⟩
  refine hl.lasts_write hdisk le_rfl (hheader _ hwithin) fun b hb => ?_
  rcases himages b hb with hb | hb
  · exact hl.lasts.images _ hl.attached b hb
  · obtain ⟨recs', hrecovers⟩ := hheader b hb
    exact ⟨0, recs', le_rfl, (Wal.compacted_take s 0).symm ▸ hrecovers⟩

/-- The calls that only drop what the snapshot covers. -/
def Io.covers : Io → Bool
  | .drainSegments | .removeSegment _ | .syncDirectory | .storeBoundary _ | .refreshTotal => true
  | _ => false

/-- The snapshot covers whatever the log files hold. -/
theorem Lasts.compacted {d : SessionDir (Cell Bytes)} (h : Lasts c sessionId d a)
    (hthrough : s.throughEventId = a.head) (hid : s.sessionId = sessionId) :
    Lasts c sessionId { d with snapshot := some (snapshotFile c s) } (Wal.compacted s) := by
  obtain ⟨recs, hrecovers⟩ := h.recovers
  refine ⟨⟨recs, hrecovers.covered hthrough.ge hid⟩, le_rfl, h.segments, fun i hi b hb => ?_⟩
  obtain ⟨k, recs', -, himage⟩ := h.images i hi b hb
  refine ⟨0, recs', le_rfl, (Wal.compacted_take s 0).symm ▸ ?_⟩
  refine himage.covered (Nat.le_trans (Nat.add_le_add_left ?_ _) hthrough.ge) hid
  exact List.length_take_le' k a.events

theorem Lasts.remove {d : SessionDir (Cell Bytes)} (h : Lasts c sessionId d (Wal.compacted s))
    (p : SegmentName × ℕ → Bool) :
    Lasts c sessionId { d with segments := d.segments.filter p } (Wal.compacted s) := by
  obtain ⟨recs, hrecovers⟩ := h.recovers
  refine ⟨⟨recs, hrecovers.remove p⟩, le_rfl,
    fun t ht => h.segments t (List.mem_of_mem_filter ht), fun i hi b hb => ?_⟩
  obtain ⟨k, recs', -, himage⟩ := h.images i hi b hb
  rw [Wal.compacted_take] at himage
  exact ⟨0, recs', le_rfl, (Wal.compacted_take s 0).symm ▸ himage.remove p⟩

theorem Live.covers {i : Io} (h : Live c sessionId (Wal.compacted s) w) (hi : i.covers = true)
    (hact : i.act w = some w') : Live c sessionId (Wal.compacted s) w' := by
  obtain ⟨⟨recs, hrun⟩, hl⟩ := h
  cases i with
  | removeSegment name =>
    cases hact
    exact ⟨⟨recs, hrun.remove hl.attached _⟩, hl.attached, hl.lasts.remove _⟩
  | syncDirectory =>
    cases hact
    exact ⟨⟨recs, hrun⟩, hl⟩
  | drainSegments | storeBoundary id | refreshTotal =>
    cases hact
    exact ⟨⟨recs, hrun.congr _ rfl⟩, hl.congr _ rfl rfl⟩
  | _ => exact absurd hi Bool.false_ne_true

theorem Live.covers_run {is : List Io} (h : Live c sessionId (Wal.compacted s) w)
    (his : ∀ i ∈ is, i.covers = true) :
    Live c sessionId (Wal.compacted s) (logMachine.run is w).1 := by
  induction is generalizing w with
  | nil => exact h
  | cons i is ih =>
    unfold Machine.run
    split
    · exact h
    · rename_i w' hact
      exact ih (h.covers (his i (List.mem_cons_self ..)) hact)
        fun j hj => his j (List.mem_cons_of_mem _ hj)

theorem Io.covers_fault {i : Io} (hi : i.covers = true) : ∀ w' ∈ i.fault w, w' = w := by
  cases i with
  | removeSegment | syncDirectory | refreshTotal => exact fun w' hw' => List.mem_singleton.mp hw'
  | drainSegments | storeBoundary => exact fun w' hw' => absurd hw' List.not_mem_nil
  | _ => exact absurd hi Bool.false_ne_true

variable (c sessionId) in
/-- What a failing call of a compaction leaves. A segment that cannot be removed
does not stop it. -/
def CompactFault (a : Wal) (s : SessionSnapshotData) (i : Io) (rest : List Io) (w : World) : Prop :=
  if i.fatal then Faulted c sessionId a w ∨ Faulted c sessionId (Wal.compacted s) w
  else Live c sessionId (Wal.compacted s) (logMachine.run rest w).1

theorem covers_safe {is : List Io} (h : Live c sessionId (Wal.compacted s) w)
    (his : ∀ i ∈ is, i.covers = true) :
    logMachine.Safe (StopSafe c sessionId a (.compact s))
      (CompactFault c sessionId a s) is (Live c sessionId (Wal.compacted s)) w := by
  have hstop : ∀ {w : World}, Live c sessionId (Wal.compacted s) w →
      StopSafe c sessionId a (.compact s) w := fun hw => ⟨_, .inr rfl, hw.2.lasts⟩
  induction is generalizing w with
  | nil => exact ⟨hstop h, h⟩
  | cons i is ih =>
    have hi := his i (List.mem_cons_self ..)
    have hrest := fun j hj => his j (List.mem_cons_of_mem _ hj)
    refine ⟨hstop h, fun w' hw' => ?_, fun w' hact => ih (h.covers hi hact) hrest⟩
    rw [Io.covers_fault hi w' hw', CompactFault]
    split_ifs
    · exact .inr h.1.faulted
    · exact h.covers_run hrest

theorem Emptying.reset (h : Running c sessionId w₀.view w₀.mem (Wal.compacted s) recs)
    (hl : Lasting c sessionId w₀ (Wal.compacted s))
    (he : Emptying w₀ (eventLogHeader true) headerLen w) (hsynced : w.cell = w.cell.sync) :
    Live c sessionId (Wal.compacted s) (w.setEvents
      { w.mem.events with checksummed := true, firstEventId := none, dirtyBytes := 0 }) := by
  have hinode : w.mem.events.inode = w₀.mem.events.inode := by rw [he.mem]
  have hrun := h.emptied (w.setEvents
    { w.mem.events with checksummed := true, firstEventId := none, dirtyBytes := 0 }).mem
    hl.attached hinode (by rw [World.setEvents, he.mem]) rfl fun n hn => nomatch hn
  rw [← he.view] at hrun
  obtain ⟨cell, hdisk, -, -⟩ := he.disk
  refine ⟨⟨_, hrun⟩, hrun.lasting_blank (w := w.setEvents
    { w.mem.events with checksummed := true, firstEventId := none, dirtyBytes := 0 }) ?_ ?_ ?_ ?_⟩
  · show w.disk.active = some w.mem.events.inode
    rw [hdisk, hinode]
    exact hl.attached
  · show Function.update recs w₀.mem.events.inode [] w.mem.events.inode = []
    rw [hinode, Function.update_self]
  · show ∀ t ∈ w.disk.segments, ∃ y, w.disk.files t.2 = Cell.stable y
    rw [hdisk]
    intro t ht
    rw [SessionDir.write_files_of_ne _ _ (h.recovers.segment_ne_active hl.attached ht)]
    exact hl.lasts.segments t ht
  · show ∀ b ∈ w.cell.images, b <+: eventLogHeader true
    rw [hsynced]
    intro b hb
    rw [Cell.mem_images_sync.mp hb, he.cell]

/-- `compact`: a stop finds the old log or the snapshot, and so does the next
open after any call that fails. -/
theorem compactProgram_safe (h : Live c sessionId a w) (hthrough : s.throughEventId = a.head)
    (hid : s.sessionId = sessionId) :
    logMachine.Safe (StopSafe c sessionId a (.compact s)) (CompactFault c sessionId a s)
      (compactProgram c w s) (Live c sessionId (Wal.compacted s)) w := by
  obtain ⟨⟨recs, hrun⟩, hl⟩ := h
  -- `w₀` is the log with the snapshot in place
  set w₀ : World := { w with disk := { w.disk with snapshot := some (snapshotFile c s) } } with hw₀
  have hrun₀ : Running c sessionId w₀.view w₀.mem (Wal.compacted s) recs :=
    hrun.covered hthrough hid
  have hl₀ : Lasting c sessionId w₀ (Wal.compacted s) :=
    ⟨hl.attached, hl.lasts.compacted hthrough hid⟩
  have hfault₀ : Faulted c sessionId (Wal.compacted s) w₀ := Runs.faulted ⟨recs, hrun₀⟩
  have hstop : ∀ {x pos w'}, Emptying w₀ x pos w' → StopSafe c sessionId a (.compact s) w' :=
    fun he => ⟨_, .inr rfl, he.lasts hrun₀ hl₀⟩
  have hfault : ∀ {x pos w'}, Emptying w₀ x pos w' → Faulted c sessionId (Wal.compacted s) w' :=
    fun he => he.faulted hrun₀ hl₀.attached
  have hwritten : ∀ {x bytes w'}, Emptying w₀ x x.length w' → x ++ bytes <+: eventLogHeader true →
      ∀ w'' ∈ Io.fault (.writeEvents bytes) w', Faulted c sessionId (Wal.compacted s) w'' := by
    intro x bytes w' he hpre w'' hmem
    obtain ⟨k, -, rfl⟩ := List.mem_map.mp hmem
    refine hfault (he.write (List.IsPrefix.trans ?_ hpre))
    exact (List.prefix_append_right_inj _).mpr (List.take_prefix _ _)
  refine ⟨⟨a, .inl rfl, hl.lasts⟩, ?_, ?_⟩
  · intro w' hw'
    rcases List.mem_cons.mp hw' with rfl | hw'
    · exact .inl (Runs.faulted ⟨recs, hrun⟩)
    · rw [List.mem_singleton.mp hw']
      exact .inr hfault₀
  intro w₁ hact
  cases hact
  refine ⟨⟨_, .inr rfl, hl₀.lasts⟩, fun w' hw' => List.mem_singleton.mp hw' ▸ .inr hfault₀, ?_⟩
  intro w₂ hact
  cases hact
  have h₂ := truncate_emptying w₀
  refine ⟨hstop h₂, fun w' hw' => List.mem_singleton.mp hw' ▸ .inr (hfault h₂), ?_⟩
  intro w₃ hact
  cases hact
  have h₃ := h₂.rewind 0
  refine ⟨hstop h₃, fun w' hw' => .inr (hwritten h₃ (List.prefix_append _ _) w' hw'), ?_⟩
  intro w₄ hact
  cases hact
  have h₄ := h₃.write (List.prefix_append eventLogMagic _)
  refine ⟨hstop h₄, fun w' hw' => .inr (hwritten h₄ (List.prefix_refl _) w' hw'), ?_⟩
  intro w₅ hact
  cases hact
  have h₅ := h₄.write (List.prefix_refl (eventLogHeader true))
  refine ⟨hstop h₅, fun w' hw' => List.mem_singleton.mp hw' ▸ .inr (hfault h₅), ?_⟩
  intro w₆ hact
  cases hact
  have h₆ := h₅.syncEvents
  refine ⟨hstop h₆, fun w' hw' => absurd hw' List.not_mem_nil, ?_⟩
  intro w₇ hact
  cases hact
  refine covers_safe (h₆.reset hrun₀ hl₀ ?_) ?_
  · rw [World.cell_sync]
    rfl
  · intro i hi
    change i ∈ Io.drainSegments :: (w.mem.segments.map .removeSegment ++
      [.syncDirectory, .storeBoundary s.throughEventId, .refreshTotal]) at hi
    simp only [List.mem_cons, List.mem_append, List.mem_map, List.not_mem_nil, or_false] at hi
    rcases hi with rfl | ⟨name, -, rfl⟩ | rfl | rfl | rfl <;> rfl

end Compact

end Asp
