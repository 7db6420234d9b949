import Asp.Proofs.LogStops

/-! The programs of the log: what holds between any two of their I/O calls,
what a stop there leaves, and what a call that fails leaves. -/

namespace Asp

open Framing Durable Steps

theorem mem_images_writeAll {cell : Cell Bytes} {pos : ℕ} {bytes b : Bytes}
    (hpos : pos = cell.now.length) (hb : b ∈ (Cell.writeAll cell pos bytes).images) :
    b ∈ cell.images ∨ ∃ t, t <+: bytes ∧ b = cell.now ++ t := by
  subst hpos
  rw [Cell.writeAll, Cell.mem_images_change, List.mem_map] at hb
  rcases hb with rfl | ⟨k, -, rfl⟩ | hb
  · exact .inr ⟨bytes, List.prefix_refl _, writeAt_end _ _⟩
  · exact .inr ⟨bytes.take k, List.take_prefix _ _, writeAt_end _ _⟩
  · exact .inl hb

theorem writeAll_now {cell : Cell Bytes} {pos : ℕ} {bytes : Bytes} (hpos : pos = cell.now.length) :
    (Cell.writeAll cell pos bytes).now = cell.now ++ bytes := by
  subst hpos
  exact writeAt_end _ _

section Programs

variable (c : Crates) (sessionId : Uuid)

/-- A stop inside `call` leaves a log that the call passes through. -/
def StopSafe (a : Wal) (call : LogCall) (w : World) : Prop :=
  ∃ a₁, a.Midway call a₁ ∧ Lasts c sessionId w.disk a₁

def Runs (a : Wal) (w : World) : Prop := ∃ recs, Running c sessionId w.view w.mem a recs

variable {c sessionId} {w : World} {a : Wal} {recs : ℕ → List Event}

theorem Lasting.lasts_write {w₁ : World} {a₁ : Wal} {cell : Cell Bytes}
    (h : Lasting c sessionId w₁ a) (hdisk : w.disk = w₁.disk.write w₁.mem.events.inode cell)
    (hsynced : a₁.synced ≤ a₁.events.length)
    (hnow : ∃ recs, Recovers c sessionId (w₁.view.write w₁.mem.events.inode cell.now) a₁ recs)
    (himages : ∀ b ∈ cell.images, ∃ k recs, a₁.synced ≤ k ∧
      Recovers c sessionId (w₁.view.write w₁.mem.events.inode b) (a₁.take k) recs) :
    Lasts c sessionId w.disk a₁ := by
  have hview : w.disk.map Cell.now = w₁.view.write w₁.mem.events.inode cell.now := by
    rw [hdisk, SessionDir.map_write]
    rfl
  obtain ⟨recs, hrecovers⟩ := h.lasts.recovers
  refine ⟨?_, hsynced, ?_, ?_⟩
  · rwa [hview]
  · rw [hdisk]
    intro s hs
    rw [SessionDir.write_files_of_ne _ _ (hrecovers.segment_ne_active h.attached hs)]
    exact h.lasts.segments s hs
  · intro i hi b hb
    obtain rfl : w₁.mem.events.inode = i := by
      rw [hdisk] at hi
      exact Option.some.inj (h.attached.symm.trans hi)
    rw [hdisk, SessionDir.write_files_self] at hb
    rw [hview, SessionDir.write_write]
    exact himages b hb

section Rotation

variable (c sessionId)

variable {i : ℕ} {y : Bytes}

/-- Between the rename and the new log: no `events.log`, or one that holds `x`
and never held more than a header. A log that is `lasting` keeps its segments. -/
structure Rotating (lasting : Prop) (a : Wal) (x : Option Bytes) (w : World) : Prop where
  runs : Runs c sessionId a w
  segments : lasting → ∀ s ∈ w.disk.segments, ∃ y, w.disk.files s.2 = Cell.stable y
  active : w.disk.active.isSome = x.isSome
  blank : ∀ i ∈ w.disk.active, i ≠ w.mem.events.inode ∧ some (w.disk.files i).now = x ∧
    ∀ b ∈ (w.disk.files i).images, b <+: eventLogHeader true

def RotationSafe (lasting : Prop) (a : Wal) (w : World) : Prop :=
  Runs c sessionId a w ∧ (lasting → Lasts c sessionId w.disk a)

/-- A new log with nothing but its header, everything older on disk. -/
def Rotated (lasting : Prop) (a : Wal) (w : World) : Prop :=
  w.cell.now.length = headerLen ∧ ∃ recs, Running c sessionId w.view w.mem a recs ∧
    (lasting → Lasting c sessionId w { a with synced := a.events.length })

variable {c sessionId} {lasting : Prop} {x : Option Bytes}

theorem Rotating.safe (h : Rotating c sessionId lasting a x w)
    (hsynced : lasting → a.synced ≤ a.events.length) : RotationSafe c sessionId lasting a w := by
  refine ⟨h.runs, fun hl => ?_⟩
  obtain ⟨recs, hrun⟩ := h.runs
  refine ⟨⟨recs, hrun.recovers⟩, hsynced hl, h.segments hl, fun i hi b hb => ?_⟩
  obtain ⟨hne, -, himages⟩ := h.blank i hi
  have hpre : b <+: eventLogHeader true := himages b hb
  refine ⟨a.events.length, recs, hsynced hl, ?_⟩
  rw [Wal.take_length]
  refine hrun.recovers.setActive hi ?_ ((hpre.length_le : _ ≤ headerLen).trans (by decide))
  rw [hrun.detached_recs hi hne]
  exact activeHolds_header hpre

theorem World.view_openActive (h : w.disk.active = none) : w.openActive.view = newActive w.view [] := by
  rw [World.openActive, h]
  show SessionDir.map Cell.now
    { w.disk.write w.disk.fresh (Cell.stable []) with
      active := some w.disk.fresh, fresh := w.disk.fresh + 1 } = _
  have := SessionDir.map_write Cell.now w.disk w.disk.fresh (Cell.stable [])
  have hfiles := congrArg SessionDir.files this
  simp only [SessionDir.map, newActive, SessionDir.write] at hfiles ⊢
  rw [hfiles]
  rfl

theorem Rotating.openActive (h : Rotating c sessionId lasting a none w) :
    Rotating c sessionId lasting a (some []) w.openActive := by
  have hnone : w.disk.active = none := by simpa using h.active
  obtain ⟨recs, hrun⟩ := h.runs
  have hold : ∀ j ∈ w.disk.logFiles, w.openActive.disk.files j = w.disk.files j := by
    intro j hj
    have := hrun.recovers.fresh j hj
    rw [World.openActive, hnone]
    exact Function.update_of_ne this.ne _ _
  have hmem : w.openActive.mem = w.mem := by
    rw [World.openActive, hnone]
  refine ⟨?_, ?_, ?_, ?_⟩
  · refine ⟨Function.update recs w.disk.fresh [], ?_⟩
    rw [World.view_openActive hnone, hmem]
    exact hrun.newActive hnone
  · intro hl s hs
    have hs' : s ∈ w.disk.segments := by
      rwa [World.openActive, hnone] at hs
    rw [hold s.2 (mem_logFiles.mpr (.inl ⟨s, hs', rfl⟩))]
    exact h.segments hl s hs'
  · rw [World.openActive, hnone]
    rfl
  · intro i hi
    obtain rfl : w.disk.fresh = i := by
      rw [World.openActive, hnone] at hi
      exact Option.some.inj hi
    have hcell : w.openActive.disk.files w.disk.fresh = Cell.stable [] := by
      rw [World.openActive, hnone]
      exact Function.update_self ..
    rw [hmem, hcell]
    refine ⟨(hrun.recovers.fresh _ hrun.inode_mem).ne', rfl, fun b hb => ?_⟩
    rw [Cell.mem_images_stable.mp hb]
    exact List.nil_prefix

section

variable (h : Rotating c sessionId lasting a (some y) w) (hi : w.disk.active = some i)

include h hi

theorem Rotating.setCell {cell : Cell Bytes} (himages : ∀ b ∈ cell.images, b <+: eventLogHeader true) :
    Rotating c sessionId lasting a (some cell.now) (w.setCell i cell) := by
  obtain ⟨recs, hrun⟩ := h.runs
  obtain ⟨hne, -, -⟩ := h.blank i hi
  refine ⟨⟨recs, ?_⟩, ?_, h.active, ?_⟩
  · rw [World.view_setCell]
    exact hrun.blank hi hne (himages _ (Cell.now_mem_images _))
  · intro hl s hs
    rw [show (w.setCell i cell).disk.files s.2 = w.disk.files s.2 from
      SessionDir.write_files_of_ne _ _ (hrun.recovers.segment_ne_active hi hs)]
    exact h.segments hl s hs
  · intro j hj
    obtain rfl : i = j := Option.some.inj (hi.symm.trans hj)
    rw [show (w.setCell i cell).disk.files i = cell from Function.update_self ..]
    exact ⟨hne, rfl, himages⟩

theorem Rotating.writeActive {bytes : Bytes} (hpre : y ++ bytes <+: eventLogHeader true) :
    Rotating c sessionId lasting a (some (y ++ bytes)) (w.writeActive i bytes) := by
  obtain ⟨-, hnow, himages⟩ := h.blank i hi
  cases hnow
  have himages' : ∀ b ∈ (Cell.writeAll (w.disk.files i) (w.disk.files i).now.length bytes).images,
      b <+: eventLogHeader true := by
    intro b hb
    rcases mem_images_writeAll rfl hb with hb | ⟨t, ht, rfl⟩
    · exact himages b hb
    · exact ((List.prefix_append_right_inj _).mpr ht).trans hpre
  have hcell := h.setCell hi himages'
  rwa [writeAll_now rfl] at hcell

theorem Rotating.syncActive :
    Rotating c sessionId lasting a (some y) (w.setCell i (w.disk.files i).sync) := by
  obtain ⟨-, hnow, himages⟩ := h.blank i hi
  cases hnow
  have hsynced : ∀ b ∈ (w.disk.files i).sync.images, b <+: eventLogHeader true := by
    intro b hb
    rw [Cell.mem_images_sync.mp hb]
    exact himages _ (Cell.now_mem_images _)
  exact h.setCell hi hsynced

end

theorem Running.lasting_blank (h : Running c sessionId w.view w.mem a recs)
    (hactive : w.disk.active = some w.mem.events.inode) (hnone : recs w.mem.events.inode = [])
    (hsegments : ∀ s ∈ w.disk.segments, ∃ y, w.disk.files s.2 = Cell.stable y)
    (himages : ∀ b ∈ w.cell.images, b <+: eventLogHeader true) :
    Lasting c sessionId w { a with synced := a.events.length } := by
  refine ⟨hactive, ⟨recs, h.recovers.synced _⟩, le_rfl, hsegments, fun i hi b hb => ?_⟩
  obtain rfl : w.mem.events.inode = i := Option.some.inj (hactive.symm.trans hi)
  have hpre : b <+: eventLogHeader true := himages b hb
  refine ⟨a.events.length, recs, le_rfl, ?_⟩
  rw [show Wal.take { a with synced := a.events.length } a.events.length =
    { a with synced := a.events.length } from Wal.take_length _]
  refine (h.recovers.setActive hactive ?_ ?_).synced _
  · rw [hnone]
    exact activeHolds_header hpre
  · exact (hpre.length_le : _ ≤ headerLen).trans (by decide)

theorem Rotating.installActive (h : Rotating c sessionId lasting a (some (eventLogHeader true)) w)
    (hi : w.disk.active = some i) :
    Rotated c sessionId lasting a
      (w.setEvents ⟨i, (w.disk.files i).now.length, true, none, 0⟩) := by
  obtain ⟨hne, hnow, himages⟩ := h.blank i hi
  have hfile := Option.some.inj hnow
  obtain ⟨recs, hrun⟩ := h.runs
  have hrun' : Running c sessionId w.view
      (w.setEvents ⟨i, (w.disk.files i).now.length, true, none, 0⟩).mem a recs :=
    hrun.install hi hne hfile rfl
  refine ⟨?_, recs, hrun', fun hl => ?_⟩
  · exact (congrArg List.length hfile).trans (eventLogHeader_length true)
  · exact hrun'.lasting_blank hi (hrun.detached_recs hi hne) (h.segments hl) himages

theorem Rotated.safe (h : Rotated c sessionId lasting a w)
    (hsynced : lasting → a.synced ≤ a.events.length) : RotationSafe c sessionId lasting a w := by
  obtain ⟨-, recs, hrun, hlasting⟩ := h
  exact ⟨⟨recs, hrun⟩, fun hl => (hlasting hl).lasts.synced_mono (hsynced hl)⟩

theorem Rotated.refreshTotal (h : Rotated c sessionId lasting a w) (n : ℕ) :
    Rotated c sessionId lasting a { w with mem := { w.mem with totalBytes := n } } := by
  obtain ⟨hlen, recs, hrun, hlasting⟩ := h
  exact ⟨hlen, recs, hrun.congr _ rfl, fun hl => ⟨(hlasting hl).attached, (hlasting hl).lasts⟩⟩

theorem newLog_safe (h : Rotating c sessionId lasting a none w)
    (hsynced : lasting → a.synced ≤ a.events.length) :
    logMachine.Safe (RotationSafe c sessionId lasting a) (fun _ _ => Runs c sessionId a)
      [.openActive, .writeActive eventLogMagic, .writeActive (be16 (eventLogVersion true)),
        .syncActive, .installActive, .refreshTotal]
      (Rotated c sessionId lasting a) w := by
  have hwrite : ∀ {w' : World} {y bytes : Bytes}, Rotating c sessionId lasting a (some y) w' →
      y ++ bytes <+: eventLogHeader true →
      ∀ w'' ∈ Io.fault (.writeActive bytes) w', Runs c sessionId a w'' := by
    intro w' y bytes hw' hpre w'' hmem
    obtain ⟨k, -, hmem⟩ := List.mem_flatMap.mp hmem
    obtain ⟨i, hi, rfl⟩ := List.mem_map.mp hmem
    refine (hw'.writeActive (Option.mem_toList.mp hi) (List.IsPrefix.trans ?_ hpre)).runs
    exact (List.prefix_append_right_inj _).mpr (List.take_prefix _ _)
  refine ⟨h.safe hsynced, ?_, ?_⟩
  · intro w' hmem
    rcases List.mem_cons.mp hmem with rfl | hmem
    · exact h.runs
    · rw [List.mem_singleton.mp hmem]
      exact h.openActive.runs
  intro w₁ hact
  cases hact
  have h₁ := h.openActive
  refine ⟨h₁.safe hsynced, hwrite h₁ (List.prefix_append _ _), ?_⟩
  intro w₂ hact
  obtain ⟨i, hi, rfl⟩ := Option.map_eq_some_iff.mp hact
  have h₂ := h₁.writeActive hi (List.prefix_append eventLogMagic _)
  refine ⟨h₂.safe hsynced, hwrite h₂ (List.prefix_refl _), ?_⟩
  intro w₃ hact
  obtain ⟨i, hi, rfl⟩ := Option.map_eq_some_iff.mp hact
  have h₃ := h₂.writeActive hi (List.prefix_refl (eventLogHeader true))
  refine ⟨h₃.safe hsynced, fun w' hmem => (List.mem_singleton.mp hmem) ▸ h₃.runs, ?_⟩
  intro w₄ hact
  obtain ⟨i, hi, rfl⟩ := Option.map_eq_some_iff.mp hact
  have h₄ := h₃.syncActive hi
  refine ⟨h₄.safe hsynced, fun w' hmem => absurd hmem List.not_mem_nil, ?_⟩
  intro w₅ hact
  obtain ⟨i, hi, rfl⟩ := Option.map_eq_some_iff.mp hact
  have h₅ := h₄.installActive hi
  refine ⟨h₅.safe hsynced, fun w' hmem => ?_, ?_⟩
  · rw [List.mem_singleton.mp hmem]
    exact (h₅.safe hsynced).1
  intro w₆ hact
  cases hact
  have h₆ := h₅.refreshTotal
  exact ⟨(h₆ _).safe hsynced, h₆ _⟩

theorem Running.records_of_long (h : Running c sessionId w.view w.mem a recs)
    (hlong : headerLen < w.cell.now.length) : recs w.mem.events.inode ≠ [] := by
  intro hnone
  have hcontent : w.cell.now = _ := h.content
  rw [hnone, logBytes_nil] at hcontent
  rw [hcontent, eventLogHeader_length] at hlong
  exact lt_irrefl _ hlong

theorem Running.syncEvents (h : Running c sessionId w.view w.mem a recs) :
    Running c sessionId (w.setCell w.mem.events.inode w.cell.sync).view w.mem a recs := by
  rwa [show (w.setCell w.mem.events.inode w.cell.sync).view = w.view from World.view_sync w _]

theorem World.cell_sync (w : World) :
    (w.setCell w.mem.events.inode w.cell.sync).cell = w.cell.sync := Function.update_self ..

theorem Lasting.syncEvents (h : Running c sessionId w.view w.mem a recs)
    (hl : Lasting c sessionId w a) :
    Lasting c sessionId (w.setCell w.mem.events.inode w.cell.sync)
      { a with synced := a.events.length } := by
  have hsame : w.view.write w.mem.events.inode w.cell.now = w.view := SessionDir.write_files ..
  refine ⟨hl.attached, hl.lasts_write rfl le_rfl ⟨recs, ?_⟩ fun b hb => ?_⟩
  · rw [Cell.sync_now, hsame]
    exact h.recovers.synced _
  · obtain rfl := Cell.mem_images_sync.mp hb
    refine ⟨a.events.length, recs, le_rfl, ?_⟩
    rw [hsame, show Wal.take { a with synced := a.events.length } a.events.length =
      { a with synced := a.events.length } from Wal.take_length _]
    exact h.recovers.synced _

/-- `rotate_locked`: the log stays open between any two calls and after any that
fails, provided `events.log` is not a part of a header. -/
theorem rotate_safe (h : Running c sessionId w.view w.mem a recs) {nextEventId : ℕ} {uuid : Uuid}
    (hlong : headerLen < w.cell.now.length) (hid : nextEventId = a.head + 1)
    (hwhole : ∀ i ∈ w.disk.active,
      (w.disk.files i).now.length = 0 ∨ headerLen ≤ (w.disk.files i).now.length) :
    logMachine.Safe (RotationSafe c sessionId (Lasting c sessionId w a) a)
      (fun _ _ => Runs c sessionId a) (rotateLocked w nextEventId uuid ++ [.refreshTotal])
      (Rotated c sessionId (Lasting c sessionId w a) a) w := by
  have hsynced : Lasting c sessionId w a → a.synced ≤ a.events.length := fun hl => hl.lasts.synced
  have hsame : ∀ w' ∈ [w], Runs c sessionId a w' :=
    fun w' hmem => List.mem_singleton.mp hmem ▸ ⟨recs, h⟩
  refine ⟨⟨⟨recs, h⟩, Lasting.lasts⟩, hsame, ?_⟩
  intro w₁ hact
  cases hact
  have h₁ := h.syncEvents
  refine ⟨⟨⟨recs, h₁⟩, fun hl => (hl.syncEvents h).lasts.synced_mono (hsynced hl)⟩,
    fun w' hmem => List.mem_singleton.mp hmem ▸ ⟨recs, h₁⟩, ?_⟩
  intro w₂ hact
  obtain ⟨i, hi, rfl⟩ := Option.map_eq_some_iff.mp hact
  have hnow : (w.setCell w.mem.events.inode w.cell.sync).view.files i = (w.disk.files i).now :=
    congrArg (fun d => d.files i) (World.view_sync w w.mem.events.inode)
  have hwhole' := hwhole i hi
  rw [← hnow] at hwhole'
  have h₂ := h₁.rename ⟨w.mem.events.firstEventId.getD nextEventId, uuid, 0⟩ hi hwhole'
    (h.records_of_long hlong) (by rw [hid])
  have hrot : Rotating c sessionId (Lasting c sessionId w a) a none
      { w.setCell w.mem.events.inode w.cell.sync with disk :=
          { (w.setCell w.mem.events.inode w.cell.sync).disk with
            segments := (⟨w.mem.events.firstEventId.getD nextEventId, uuid, 0⟩, i) :: w.disk.segments
            active := none } } := by
    refine ⟨⟨recs, h₂⟩, ?_, rfl, fun j hj => absurd hj (by simp)⟩
    rintro hl s (_ | ⟨_, hs⟩)
    · obtain rfl : w.mem.events.inode = i := Option.some.inj (hl.attached.symm.trans hi)
      exact ⟨w.cell.now, Function.update_self ..⟩
    · exact (hl.syncEvents h).lasts.segments s hs
  refine ⟨hrot.safe hsynced, fun w' hmem => List.mem_singleton.mp hmem ▸ hrot.runs, ?_⟩
  intro w₃ hact
  cases hact
  refine ⟨hrot.safe hsynced, fun w' hmem => absurd hmem List.not_mem_nil, ?_⟩
  intro w₄ hact
  cases hact
  exact newLog_safe ⟨⟨recs, h₂.congr _ rfl⟩, hrot.segments, hrot.active, hrot.blank⟩ hsynced

end Rotation

section Append

variable {w₁ w' : World} {call : AppendCall} {pre : Bytes}

variable {e : Event}

/-- From `w₁`, the bytes `pre` have been written at the end of the log. -/
structure Writing (w₁ : World) (pre : Bytes) (w : World) : Prop where
  disk : ∃ cell, w.disk = w₁.disk.write w₁.mem.events.inode cell ∧
    cell.now = w₁.cell.now ++ pre ∧
    ∀ b ∈ cell.images, b ∈ w₁.cell.images ∨ ∃ t, t <+: pre ∧ b = w₁.cell.now ++ t
  mem : w.mem = { w₁.mem with
    events := { w₁.mem.events with pos := w₁.cell.now.length + pre.length } }

theorem Running.writing (h : Running c sessionId w.view w.mem a recs) : Writing w [] w := by
  refine ⟨⟨w.cell, (SessionDir.write_files ..).symm, by simp, fun b hb => .inl hb⟩, ?_⟩
  have hpos : w.mem.events.pos = w.cell.now.length := h.pos
  rw [List.length_nil, Nat.add_zero, ← hpos]

theorem Writing.write (h : Writing w₁ pre w) (bytes : Bytes) :
    Writing w₁ (pre ++ bytes) (w.writeEvents bytes) := by
  obtain ⟨⟨cell, hdisk, hnow, himages⟩, hmem⟩ := h
  have hinode : w.mem.events.inode = w₁.mem.events.inode := by rw [hmem]
  have hcell : w.cell = cell := by
    rw [World.cell, hdisk, hinode]
    exact Function.update_self ..
  have hpos : w.mem.events.pos = cell.now.length := by
    rw [hmem, hnow, List.length_append]
  refine ⟨⟨Cell.writeAll cell w.mem.events.pos bytes, ?_, ?_, ?_⟩, ?_⟩
  · show w.disk.write w.mem.events.inode (Cell.writeAll w.cell w.mem.events.pos bytes) = _
    rw [hcell, hdisk, hinode, SessionDir.write_write]
  · rw [writeAll_now hpos, hnow, List.append_assoc]
  · intro b hb
    rcases mem_images_writeAll hpos hb with hb | ⟨t, ht, rfl⟩
    · rcases himages b hb with hb | ⟨t, ht, hbt⟩
      · exact .inl hb
      · exact .inr ⟨t, ht.trans (List.prefix_append _ _), hbt⟩
    · refine .inr ⟨pre ++ t, (List.prefix_append_right_inj _).mpr ht, ?_⟩
      rw [hnow, List.append_assoc]
  · show ({ w.mem with
      events := { w.mem.events with pos := w.mem.events.pos + bytes.length } } : SessionDisk) = _
    rw [hmem, List.length_append, Nat.add_assoc]

theorem Writing.view (h : Writing w₁ pre w) :
    w.view = w₁.view.write w₁.mem.events.inode (w₁.cell.now ++ pre) := by
  obtain ⟨⟨cell, hdisk, hnow, -⟩, -⟩ := h
  rw [World.view, hdisk, SessionDir.map_write, hnow]
  rfl

theorem torn_of_record {checksummed : Bool} {t : Bytes}
    (hfits : (c.event.encode e).length ≤ maxFrameBytes) (ht : t <+: record c checksummed e)
    (hne : t ≠ record c checksummed e) : Torn c checksummed t :=
  readFrame_torn hfits (hfits.trans_lt maxFrameBytes_lt) ht hne

theorem Running.recovers_torn (h : Running c sessionId w.view w.mem a recs)
    (hactive : w.disk.active = some w.mem.events.inode) {t : Bytes}
    (hfits : (c.event.encode e).length ≤ maxFrameBytes)
    (hroom : w.cell.now.length + (record c w.mem.events.checksummed e).length ≤ eventLogMaxBytes)
    (ht : t <+: record c w.mem.events.checksummed e) (hne : t ≠ record c w.mem.events.checksummed e) :
    Recovers c sessionId (w.view.write w.mem.events.inode (w.cell.now ++ t)) a recs := by
  refine h.recovers.setActive hactive ?_ ?_
  · rw [show w.cell.now = _ from h.content]
    exact .inr ⟨w.mem.events.checksummed, t, rfl, torn_of_record hfits ht hne⟩
  · rw [List.length_append]
    exact (Nat.add_le_add_left ht.length_le _).trans hroom

theorem Wal.append_take (a : Wal) (e : Event) {k : ℕ} (hk : k ≤ a.events.length) :
    (a.append e a.synced).take k = a.take k := by
  rw [Wal.take, Wal.take, Wal.append, List.take_append_of_le_length hk]

theorem Lasting.image_append (h : Lasting c sessionId w a) (e : Event) {b : Bytes}
    (hb : b ∈ w.cell.images) : ∃ k recs, a.synced ≤ k ∧ Recovers c sessionId
      (w.view.write w.mem.events.inode b) ((a.append e a.synced).take k) recs := by
  obtain ⟨k, recs, hk, himage⟩ := h.lasts.images _ h.attached b hb
  refine ⟨min k a.events.length, recs, le_min hk h.lasts.synced, ?_⟩
  have hsame : a.take (min k a.events.length) = a.take k := by
    rw [Wal.take, Wal.take, List.take_eq_take_iff.mpr]
    simp
  rwa [Wal.append_take a e (min_le_right _ _), hsame]

section Written

variable (h : Running c sessionId w₁.view w₁.mem a recs) (hl : Lasting c sessionId w₁ a)
  (hw : Writing w₁ pre w) (hfits : (c.event.encode call.event).length ≤ maxFrameBytes)
  (hroom : w₁.cell.now.length + (record c w₁.mem.events.checksummed call.event).length ≤
    eventLogMaxBytes)

include h hl hw hfits hroom

theorem Writing.lasts_torn (hpre : pre <+: record c w₁.mem.events.checksummed call.event)
    (hne : pre ≠ record c w₁.mem.events.checksummed call.event) : Lasts c sessionId w.disk a := by
  obtain ⟨⟨cell, hdisk, hnow, himages⟩, -⟩ := hw
  have htorn : ∀ t, t <+: pre → Recovers c sessionId
      (w₁.view.write w₁.mem.events.inode (w₁.cell.now ++ t)) a recs := by
    intro t ht
    refine h.recovers_torn hl.attached hfits hroom (ht.trans hpre) fun hwhole => hne ?_
    exact hpre.eq_of_length_le (hwhole ▸ ht.length_le)
  refine hl.lasts_write hdisk hl.lasts.synced ⟨recs, hnow ▸ htorn pre (List.prefix_refl _)⟩ ?_
  intro b hb
  rcases himages b hb with hb | ⟨t, ht, rfl⟩
  · exact hl.lasts.images _ hl.attached b hb
  · exact ⟨a.events.length, recs, hl.lasts.synced, (Wal.take_length a).symm ▸ htorn t ht⟩

theorem Writing.lasts_whole (hid : call.event.id = a.head + 1)
    (hpre : pre = record c w₁.mem.events.checksummed call.event) :
    Lasts c sessionId w.disk (a.append call.event a.synced) := by
  obtain ⟨⟨cell, hdisk, hnow, himages⟩, -⟩ := hw
  have hlen : a.synced ≤ (a.append call.event a.synced).events.length := by
    rw [Wal.append, List.length_append]
    exact hl.lasts.synced.trans (Nat.le_add_right _ _)
  obtain ⟨recs', hrecovers⟩ : ∃ recs', Recovers c sessionId (w₁.view.write w₁.mem.events.inode
      (w₁.cell.now ++ record c w₁.mem.events.checksummed call.event))
      (a.append call.event a.synced) recs' := ⟨_, h.recovers_append a.synced hid hfits hroom⟩
  refine hl.lasts_write hdisk hlen ⟨recs', hnow ▸ hpre ▸ hrecovers⟩ fun b hb => ?_
  rcases himages b hb with hb | ⟨t, ht, rfl⟩
  · exact hl.image_append call.event hb
  by_cases hwhole : t = record c w₁.mem.events.checksummed call.event
  · refine ⟨(a.append call.event a.synced).events.length, recs', hlen, ?_⟩
    rwa [Wal.take_length, hwhole]
  · refine ⟨a.events.length, recs, hl.lasts.synced, ?_⟩
    rw [Wal.append_take a _ le_rfl, Wal.take_length]
    exact h.recovers_torn hl.attached hfits hroom (hpre ▸ ht) hwhole

theorem Writing.stopSafe (hid : call.event.id = a.head + 1)
    (hpre : pre <+: record c w₁.mem.events.checksummed call.event) :
    StopSafe c sessionId a (.append call) w := by
  by_cases hwhole : pre = record c w₁.mem.events.checksummed call.event
  · exact ⟨_, .inr rfl, hw.lasts_whole h hl hfits hroom hid hwhole⟩
  · exact ⟨a, .inl rfl, hw.lasts_torn h hl hfits hroom hpre hwhole⟩

end Written

theorem Writing.runs (h : Running c sessionId w₁.view w₁.mem a recs) {frameBytes : ℕ}
    (hw : Writing w₁ (record c w₁.mem.events.checksummed call.event) w)
    (hid : call.event.id = a.head + 1)
    (hfits : (c.event.encode call.event).length ≤ maxFrameBytes)
    (hroom : w₁.cell.now.length + (record c w₁.mem.events.checksummed call.event).length ≤
      eventLogMaxBytes) (hact : Io.act (.recordAppend call.event.id frameBytes) w = some w') :
    ∃ recs', Running c sessionId w'.view w'.mem (a.append call.event a.synced) recs' ∧
      (Lasting c sessionId w₁ a → Lasting c sessionId w' (a.append call.event a.synced)) := by
  have hview := hw.view
  have hmem := hw.mem
  have hdisk : w'.disk = w.disk := by
    cases hact
    rfl
  have hevents : w'.mem.events = { w₁.mem.events with
      pos := w₁.cell.now.length + (record c w₁.mem.events.checksummed call.event).length
      firstEventId := some (w₁.mem.events.firstEventId.getD call.event.id)
      dirtyBytes := w'.mem.events.dirtyBytes } := by
    cases hact
    rw [hmem]
  refine ⟨Function.update recs w₁.mem.events.inode (recs w₁.mem.events.inode ++ [call.event]),
    ?_, fun hl => ⟨?_, ?_⟩⟩
  · rw [World.view, hdisk, ← World.view, hview]
    exact h.append a.synced hid hfits hroom hevents
  · obtain ⟨⟨cell, hwritten, -⟩, -⟩ := hw
    rw [hdisk, hwritten, hevents]
    exact hl.attached
  · rw [hdisk]
    exact hw.lasts_whole h hl hfits hroom hid rfl

theorem Lasting.congr (h : Lasting c sessionId w a) (w' : World) (hdisk : w'.disk = w.disk)
    (hinode : w'.mem.events.inode = w.mem.events.inode) : Lasting c sessionId w' a := by
  obtain ⟨hattached, hlasts⟩ := h
  rw [← hinode, ← hdisk] at hattached
  rw [← hdisk] at hlasts
  exact ⟨hattached, hlasts⟩

def recordParts (c : Crates) (checksummed : Bool) (e : Event) : List Bytes :=
  [be32 (c.event.encode e).length] ++
    (if checksummed then [be32 (c.crc32 (c.event.encode e)).toNat] else []) ++ [c.event.encode e]

theorem recordParts_flatten (checksummed : Bool) (e : Event) :
    (recordParts c checksummed e).flatten = record c checksummed e := by
  cases checksummed <;> simp [recordParts, record, frame, sumBytes, crcOf]

theorem writeProgram_eq (w : World) (frameBytes : ℕ) (call : AppendCall) :
    writeProgram c w frameBytes call =
      (recordParts c w.mem.events.checksummed call.event).map .writeEvents ++
        (.recordAppend call.event.id frameBytes ::
          if syncDue w frameBytes call then [.syncEvents, .clearDirty] else []) := by
  unfold writeProgram recordParts
  split_ifs <;> rfl

theorem writes_safe {C : World → Prop} {full : Bytes} {parts : List Bytes}
    (hC : ∀ pre w, pre <+: full → Writing w₁ pre w → C w) (hw : Writing w₁ pre w)
    (hpre : pre ++ parts.flatten <+: full) :
    logMachine.Safe C (fun _ _ _ => True) (parts.map .writeEvents)
      (Writing w₁ (pre ++ parts.flatten)) w := by
  induction parts generalizing pre w with
  | nil =>
    rw [List.flatten_nil, List.append_nil] at hpre ⊢
    exact ⟨hC pre w hpre hw, hw⟩
  | cons part parts ih =>
    have hfull := hpre
    rw [List.flatten_cons, ← List.append_assoc] at hfull ⊢
    refine ⟨hC pre w ((List.prefix_append _ _).trans hpre) hw, fun _ _ => trivial, ?_⟩
    intro w' hact
    cases hact
    exact ih (hw.write part) hfull

theorem writeProgram_safe (h : Running c sessionId w₁.view w₁.mem a recs) (frameBytes : ℕ)
    (hid : call.event.id = a.head + 1)
    (hfits : (c.event.encode call.event).length ≤ maxFrameBytes)
    (hroom : w₁.cell.now.length + (record c w₁.mem.events.checksummed call.event).length ≤
      eventLogMaxBytes) :
    logMachine.Safe
      (fun w => Lasting c sessionId w₁ a → StopSafe c sessionId a (.append call) w)
      (fun _ _ _ => True) (writeProgram c w₁ frameBytes call)
      (fun w => ∃ recs', Running c sessionId w.view w.mem (a.append call.event
          (if syncDue w₁ frameBytes call then a.events.length + 1 else a.synced)) recs' ∧
        (Lasting c sessionId w₁ a → Lasting c sessionId w (a.append call.event
          (if syncDue w₁ frameBytes call then a.events.length + 1 else a.synced)))) w₁ := by
  rw [writeProgram_eq]
  have hparts := recordParts_flatten (c := c) w₁.mem.events.checksummed call.event
  refine Machine.Safe.append (@writes_safe _ _ _ _ (record c w₁.mem.events.checksummed call.event) _
    (fun pre w hpre hw hl => hw.stopSafe h hl hfits hroom hid hpre) h.writing ?_) ?_
  · rw [List.nil_append, hparts]
  intro w hw
  rw [List.nil_append, hparts] at hw
  refine ⟨fun hl => hw.stopSafe h hl hfits hroom hid (List.prefix_refl _), fun _ _ => trivial, ?_⟩
  intro w' hact
  obtain ⟨recs', hrun, hlasting⟩ := hw.runs h hid hfits hroom hact
  have hstop : Lasting c sessionId w₁ a → StopSafe c sessionId a (.append call) w' :=
    fun hl => ⟨_, .inr rfl, (hlasting hl).lasts⟩
  split_ifs with hdue
  · have hlen : (a.append call.event a.synced).events.length = a.events.length + 1 := by
      simp [Wal.append]
    have hrun₂ := hrun.syncEvents.synced (a.events.length + 1)
    have hlasting₂ : Lasting c sessionId w₁ a → Lasting c sessionId
        (w'.setCell w'.mem.events.inode w'.cell.sync)
        (a.append call.event (a.events.length + 1)) := by
      intro hl
      have := (hlasting hl).syncEvents hrun
      rwa [hlen] at this
    have hstop₂ : ∀ {w'' : World}, (Lasting c sessionId w₁ a →
          Lasting c sessionId w'' (a.append call.event (a.events.length + 1))) →
        Lasting c sessionId w₁ a → StopSafe c sessionId a (.append call) w'' :=
      fun hlasting' hl => ⟨_, .inr rfl, (hlasting' hl).lasts.synced_mono (n := a.synced)
        (hl.lasts.synced.trans (Nat.le_succ _))⟩
    refine ⟨hstop, fun _ _ => trivial, ?_⟩
    intro w₂ hact₂
    cases hact₂
    refine ⟨hstop₂ hlasting₂, fun _ _ => trivial, ?_⟩
    intro w₃ hact₃
    cases hact₃
    have hrun₃ := hrun₂.congr { w'.mem with
      events := { w'.mem.events with dirtyBytes := 0 } } rfl
    have hlasting₃ := fun hl => (hlasting₂ hl).congr
      ((w'.setCell w'.mem.events.inode w'.cell.sync).setEvents
        { w'.mem.events with dirtyBytes := 0 }) rfl rfl
    exact ⟨hstop₂ hlasting₃, recs', hrun₃, hlasting₃⟩
  · exact ⟨hstop, recs', hrun, hlasting⟩

def Wal.rotated (a : Wal) (rotated : Bool) : Wal :=
  if rotated then { a with synced := a.events.length } else a

theorem Wal.rotated_append (b : Bool) (e : Event) (n : ℕ) :
    (a.rotated b).append e n = a.append e n := by
  cases b <;> rfl

theorem Wal.rotated_head (b : Bool) : (a.rotated b).head = a.head := by
  cases b <;> rfl

theorem Wal.rotated_synced (b : Bool) (hsynced : a.synced ≤ a.events.length) :
    a.synced ≤ (a.rotated b).synced := by
  cases b
  · exact le_rfl
  · exact hsynced

theorem StopSafe.of_rotated {b : Bool} (hsynced : a.synced ≤ a.events.length)
    (h : StopSafe c sessionId (a.rotated b) (.append call) w) :
    StopSafe c sessionId a (.append call) w := by
  obtain ⟨a₁, hmidway, hlasts⟩ := h
  have hweaker := a.rotated_synced b hsynced
  rcases hmidway with rfl | rfl
  · refine ⟨a, .inl rfl, ?_⟩
    have := hlasts.synced_mono hweaker
    cases b <;> exact this
  · refine ⟨a.append call.event a.synced, .inr rfl, ?_⟩
    have := hlasts.synced_mono (n := a.synced) hweaker
    cases b <;> exact this

def WholeHeader (w : World) : Prop :=
  ∀ i ∈ w.disk.active, (w.disk.files i).now.length = 0 ∨ headerLen ≤ (w.disk.files i).now.length

theorem Running.header_le (h : Running c sessionId w.view w.mem a recs) :
    headerLen ≤ w.cell.now.length := by
  rw [show w.cell.now = _ from h.content, logBytes_length]
  exact Nat.le_add_right _ _

theorem Lasting.wholeHeader (h : Running c sessionId w.view w.mem a recs)
    (hl : Lasting c sessionId w a) : WholeHeader w := by
  intro i hi
  obtain rfl : w.mem.events.inode = i := Option.some.inj (hl.attached.symm.trans hi)
  exact .inr h.header_le

theorem room_of_short {length : ℕ} {checksummed : Bool}
    (hfits : (c.event.encode e).length ≤ maxFrameBytes) (hshort : length ≤ headerLen) :
    length + (record c checksummed e).length ≤ eventLogMaxBytes := by
  have hheader : headerLen = 9 := rfl
  have hmax : maxFrameBytes + 17 ≤ eventLogMaxBytes := by decide
  rw [record_length]
  split_ifs <;> omega

theorem rotationProgram_safe (h : Running c sessionId w.view w.mem a recs)
    (hid : call.event.id = a.head + 1)
    (hfits : (c.event.encode call.event).length ≤ maxFrameBytes)
    (hwhole : needsRotation c w call.event = true → WholeHeader w) :
    logMachine.Safe (RotationSafe c sessionId (Lasting c sessionId w a) a)
      (fun _ _ => Runs c sessionId a) (rotationProgram c w call)
      (fun w₁ => w₁.cell.now.length + (record c w₁.mem.events.checksummed call.event).length ≤
          eventLogMaxBytes ∧
        ∃ recs₁, Running c sessionId w₁.view w₁.mem
            (a.rotated (needsRotation c w call.event)) recs₁ ∧
          (Lasting c sessionId w a →
            Lasting c sessionId w₁ (a.rotated (needsRotation c w call.event)))) w := by
  unfold rotationProgram
  split_ifs with hneeds
  · have hlong : headerLen < w.cell.now.length := by
      simp only [needsRotation, Bool.and_eq_true, decide_eq_true_eq] at hneeds
      exact hneeds.1
    rw [hneeds]
    refine Machine.Safe.mono (fun _ hw => hw) (fun _ _ _ hw => hw) ?_
      (rotate_safe h hlong hid (hwhole hneeds))
    rintro w₁ ⟨hlen, recs₁, hrun, hlasting⟩
    exact ⟨room_of_short hfits hlen.le, recs₁, hrun.synced _, hlasting⟩
  · rw [Bool.not_eq_true] at hneeds
    rw [hneeds]
    refine ⟨⟨⟨recs, h⟩, Lasting.lasts⟩, ?_, recs, h, id⟩
    have hframe : frameBytes c w call.event =
        (record c w.mem.events.checksummed call.event).length := (record_length c _ _).symm
    simp only [needsRotation, Bool.and_eq_false_iff, decide_eq_false_iff_not, not_lt] at hneeds
    rcases hneeds with hshort | hroom
    · exact room_of_short hfits hshort
    · rw [hframe] at hroom
      exact hroom.trans (by decide)

theorem rotationProgram_runs (hactive : w.disk.active.isSome) :
    (logMachine.run (rotationProgram c w call) w).2 = true := by
  obtain ⟨i, hi⟩ := Option.isSome_iff_exists.mp hactive
  unfold rotationProgram
  split_ifs
  · simp [rotateLocked, Machine.run, logMachine, Io.act, World.setCell, World.openActive, hi,
      SessionDir.write, World.writeActive, World.setEvents]
  · rfl

theorem syncedAfter_eq (w : World) (a : Wal) (call : AppendCall) :
    syncedAfter c w a call =
      if syncDue (logMachine.run (rotationProgram c w call) w).1 (frameBytes c w call.event) call then
        (a.rotated (needsRotation c w call.event)).events.length + 1
      else (a.rotated (needsRotation c w call.event)).synced := by
  simp only [syncedAfter, Wal.rotated]
  cases needsRotation c w call.event <;> simp

theorem writeProgram_runs (w₁ : World) (frameBytes : ℕ) (call : AppendCall) (w : World) :
    (logMachine.run (writeProgram c w₁ frameBytes call) w).2 = true := by
  refine Machine.run_of_total ?_ w
  rw [writeProgram_eq]
  intro i hi s
  rw [List.mem_append, List.mem_map, List.mem_cons] at hi
  rcases hi with ⟨part, -, rfl⟩ | rfl | hi
  · rfl
  · rfl
  · split_ifs at hi
    · simp only [List.mem_cons, List.not_mem_nil, or_false] at hi
      rcases hi with rfl | rfl <;> rfl
    · exact absurd hi List.not_mem_nil

theorem append_safe (h : Running c sessionId w.view w.mem a recs)
    (hid : call.event.id = a.head + 1)
    (hfits : (c.event.encode call.event).length ≤ maxFrameBytes)
    (hwhole : needsRotation c w call.event = true → WholeHeader w) :
    ((append c w call).2 = true → ∃ recs', Running c sessionId (append c w call).1.view
        (append c w call).1.mem (a.append call.event (syncedAfter c w a call)) recs' ∧
      (Lasting c sessionId w a → Lasting c sessionId (append c w call).1
        (a.append call.event (syncedAfter c w a call)))) ∧
    ((append c w call).2 = false → Runs c sessionId a (append c w call).1 ∧
      (Lasting c sessionId w a → ∃ recs', Running c sessionId (append c w call).1.view
        (append c w call).1.mem a recs' ∧ Lasting c sessionId (append c w call).1 a)) := by
  obtain ⟨hsafe, hready⟩ := (rotationProgram_safe h hid hfits hwhole).run
  have hshort : ¬ (c.event.encode call.event).length ≥ 2 ^ 32 :=
    Nat.not_le.mpr (hfits.trans_lt maxFrameBytes_lt)
  simp only [append, if_neg hshort]
  rw [syncedAfter_eq]
  generalize hrot : logMachine.run (rotationProgram c w call) w = rotated at hsafe hready ⊢
  obtain ⟨w₁, ok⟩ := rotated
  cases ok with
  | false =>
    refine ⟨fun hok => absurd hok Bool.false_ne_true, fun _ => ⟨hsafe.1, fun hl => ?_⟩⟩
    have := @rotationProgram_runs c w call (by rw [hl.attached]; rfl)
    rw [hrot] at this
    exact absurd this Bool.false_ne_true
  | true =>
    obtain ⟨hroom, recs₁, hrun, hlasting⟩ := hready rfl
    simp only [Bool.not_true, Bool.false_eq_true, if_false]
    by_cases hfull : w₁.mem.totalBytes + frameBytes c w call.event > eventLogMaxBytes
    · rw [if_pos hfull]
      refine ⟨fun hok => absurd hok Bool.false_ne_true, fun _ => ⟨hsafe.1, fun hl => ?_⟩⟩
      refine ⟨recs₁, ?_, ?_⟩
      · have := hrun.synced a.synced
        cases hb : needsRotation c w call.event <;> rw [hb] at this <;> exact this
      · have hl₁ := (hlasting hl).lasts.synced_mono (a.rotated_synced _ hl.lasts.synced)
        refine ⟨(hlasting hl).attached, ?_⟩
        cases hb : needsRotation c w call.event <;> rw [hb] at hl₁ <;> exact hl₁
    · rw [if_neg hfull]
      obtain ⟨-, hdone⟩ := (writeProgram_safe hrun (frameBytes c w call.event)
        (by rwa [Wal.rotated_head]) hfits hroom).run
      refine ⟨fun hok => ?_, fun hfail => ?_⟩
      · obtain ⟨recs', hrun', hlasting'⟩ := hdone hok
        rw [Wal.rotated_append] at hrun' hlasting'
        exact ⟨recs', hrun', fun hl => hlasting' (hlasting hl)⟩
      · rw [writeProgram_runs] at hfail
        exact absurd hfail.symm Bool.false_ne_true

theorem append_stops (h : Running c sessionId w.view w.mem a recs) (hl : Lasting c sessionId w a)
    (hid : call.event.id = a.head + 1)
    (hfits : (c.event.encode call.event).length ≤ maxFrameBytes)
    (hpass : (LogCall.append call).Passes c w a w') :
    StopSafe c sessionId a (.append call) w' := by
  have hsafe := rotationProgram_safe h hid hfits fun _ => hl.wholeHeader h
  cases hpass with
  | before => exact ⟨a, .inl rfl, hl.lasts⟩
  | rotating hpass => exact ⟨a, .inl rfl, (hsafe.crash hpass).2 hl⟩
  | writing hrun _ hpass =>
    have hready := hsafe.run.2
    rw [hrun] at hready
    obtain ⟨hroom, recs₁, hrun₁, hlasting⟩ := hready rfl
    have hstop := (writeProgram_safe hrun₁ (frameBytes c w call.event)
      (by rwa [Wal.rotated_head]) hfits hroom).crash hpass
    exact (hstop (hlasting hl)).of_rotated hl.lasts.synced

end Append

end Programs

end Asp
