import Asp.Proofs.LogSteps

/-! What a stop leaves of a log, and what the next open makes of it. A kill keeps
every byte that was written, with what is unsynced still unsynced; a loss of power
leaves an image of the active log. -/

namespace Asp

open Framing Durable Steps

section Stops

variable {c : Crates} {sessionId : Uuid} {a : Wal} {recs : ℕ → List Event} {f : SessionDir Bytes}
  {d e : SessionDir (Cell Bytes)} {mem : SessionDisk}

variable {b : Bytes} {i : ℕ}

theorem Recovers.synced (h : Recovers c sessionId f a recs) (n : ℕ) :
    Recovers c sessionId f { a with synced := n } recs :=
  { h with }

theorem Running.synced (h : Running c sessionId f mem a recs) (n : ℕ) :
    Running c sessionId f mem { a with synced := n } recs :=
  { h with recovers := h.recovers.synced n }

@[simp] theorem Wal.take_length (a : Wal) : a.take a.events.length = a := by
  rw [Wal.take, List.take_length]

/-- What a loss of power may leave in the active log. -/
def Image (cell : Cell Bytes) (b : Bytes) : Prop :=
  b ∈ cell.images ∨ cell.now.length = headerLen ∧ b <+: cell.now

theorem Recovers.congr (h : Recovers c sessionId f a recs) (files : ℕ → Bytes)
    (hsame : ∀ i ∈ f.logFiles, files i = f.files i) :
    Recovers c sessionId { f with files := files } a recs := by
  refine h.rewrite files ?_ ?_ ?_
  · intro s hs
    rw [hsame _ (mem_logFiles.mpr (.inl ⟨s, hs, rfl⟩))]
    exact h.segment s hs
  · intro i hi
    rw [hsame i (mem_logFiles.mpr (.inr hi))]
    exact h.active i hi
  · intro i hi
    rw [hsame i hi]
    exact h.small i hi

theorem ActiveHolds.of_header {x : Bytes} {events : List Event} (h : ActiveHolds c x events)
    (hlen : x.length = headerLen) (hpre : b <+: x) : ActiveHolds c b events := by
  rcases h with ⟨hshort, -⟩ | ⟨checksummed, torn, hx, -⟩
  · exact absurd hlen hshort.ne
  have hle : (logBytes c checksummed events).length ≤ headerLen := by
    rw [← hlen, hx, List.length_append]
    exact Nat.le_add_right _ _
  obtain rfl := logBytes_length_eq c hle
  have htorn : torn = [] := by
    have := congrArg List.length hx
    rw [hlen, List.length_append, logBytes_nil, eventLogHeader_length] at this
    exact List.length_eq_zero_iff.mp (by omega)
  rw [htorn, List.append_nil, logBytes_nil] at hx
  exact activeHolds_header (hx ▸ hpre)

theorem Lasts.image (h : Lasts c sessionId d a) (hactive : d.active = some i)
    (hb : Image (d.files i) b) : ∃ k recs, a.synced ≤ k ∧
      Recovers c sessionId ((d.map Cell.now).write i b) (a.take k) recs := by
  rcases hb with hb | ⟨hheader, hpre⟩
  · exact h.images i hactive b hb
  · obtain ⟨recs, hrecovers⟩ := h.recovers
    refine ⟨a.events.length, recs, h.synced, ?_⟩
    rw [Wal.take_length]
    refine hrecovers.setActive hactive ((hrecovers.active i hactive).of_header hheader hpre) ?_
    exact (hpre.length_le.trans hheader.le).trans (by decide)

theorem crashed_files (hnodup : d.logFiles.Nodup)
    (hsegments : ∀ s ∈ d.segments, ∃ x, d.files s.2 = Cell.stable x) (hcrash : d.Crashed f) :
    ∃ files, f = { d.map Cell.now with files := files } ∧
      (∀ s ∈ d.segments, files s.2 = (d.files s.2).now) ∧
      ∀ i ∈ d.active, Image (d.files i) (files i) := by
  obtain ⟨files, himages, rfl⟩ := hcrash
  refine ⟨files, rfl, fun s hs => ?_, fun i _ => (himages i).imp_right And.right⟩
  obtain ⟨x, hx⟩ := hsegments s hs
  rcases himages s.2 with himage | ⟨hself, -⟩
  · rw [hx, Cell.mem_images_stable] at himage
    rw [himage, hx, Cell.stable_now]
  · rw [SessionDir.logFiles, List.nodup_append] at hnodup
    exact absurd rfl (hnodup.2.2 s.2 (List.mem_map_of_mem (mem_sortedSegments.mpr hs)) s.2
      (by simp [hself]))

theorem Lasts.crash (h : Lasts c sessionId d a) (hcrash : d.Crashed f) :
    ∃ k recs, a.synced ≤ k ∧ Recovers c sessionId f (a.take k) recs := by
  obtain ⟨recs, hrecovers⟩ := h.recovers
  obtain ⟨files, rfl, hsame, himage⟩ := crashed_files hrecovers.nodup h.segments hcrash
  cases hactive : d.active with
  | none =>
    refine ⟨a.events.length, recs, h.synced, ?_⟩
    rw [Wal.take_length]
    refine hrecovers.congr files fun j hj => ?_
    rcases mem_logFiles.mp hj with ⟨s, hs, rfl⟩ | hself
    · exact hsame s hs
    · exact absurd (hactive.symm.trans hself) nofun
  | some i =>
    obtain ⟨k, recs', hk, hcut⟩ := h.image hactive (himage i hactive)
    refine ⟨k, recs', hk, hcut.congr files fun j hj => ?_⟩
    by_cases hji : j = i
    · rw [hji, SessionDir.write_files_self]
    rw [SessionDir.write_files_of_ne _ _ hji]
    rcases mem_logFiles.mp hj with ⟨s, hs, rfl⟩ | hself
    · exact hsame s hs
    · exact absurd (Option.some.inj (hself.symm.trans hactive)) hji

theorem Recovers.lasts (h : Recovers c sessionId f a recs) (hsynced : a.synced ≤ a.events.length) :
    Lasts c sessionId (f.map Cell.stable) a := by
  refine ⟨⟨recs, h⟩, hsynced, fun s _ => ⟨_, rfl⟩, fun i hi b hb => ?_⟩
  obtain rfl : b = f.files i := Cell.mem_images_stable.mp hb
  refine ⟨a.events.length, recs, hsynced, ?_⟩
  rw [Wal.take_length]
  exact (SessionDir.write_files f i).symm ▸ h

theorem Lasts.synced_mono (h : Lasts c sessionId d a) {n : ℕ} (hn : n ≤ a.synced) :
    Lasts c sessionId d { a with synced := n } := by
  obtain ⟨recs, hrecovers⟩ := h.recovers
  refine ⟨⟨recs, hrecovers.synced n⟩, hn.trans h.synced, h.segments, fun i hi b hb => ?_⟩
  obtain ⟨k, recs', hk, himage⟩ := h.images i hi b hb
  exact ⟨k, recs', hn.trans hk, himage.synced n⟩

theorem Lasts.setConsumers (h : Lasts c sessionId d a) (file : Option Bytes) :
    Lasts c sessionId { d with consumers := file } a := by
  obtain ⟨recs, hrecovers⟩ := h.recovers
  refine ⟨⟨recs, { hrecovers with }⟩, h.synced, h.segments, fun i hi b hb => ?_⟩
  obtain ⟨k, recs', hk, himage⟩ := h.images i hi b hb
  exact ⟨k, recs', hk, { himage with }⟩

/-- Whatever stops the daemon, what is left stands for a log that survives the stop. -/
theorem Lasts.stops {a₁ : Wal} {call : LogCall} {stop : Stop} (h : Lasts c sessionId d a₁)
    (hmidway : a.Midway call a₁) (hstop : d.Stops stop e) :
    ∃ a', a.Survives call stop a' ∧ Lasts c sessionId e a' := by
  cases stop with
  | kill =>
    obtain rfl : e = d := hstop
    exact ⟨a₁, hmidway, h⟩
  | powerLoss =>
    obtain ⟨f, hcrash, rfl⟩ := hstop
    obtain ⟨k, recs, hk, hrecovers⟩ := h.crash hcrash
    refine ⟨a₁.take k, ⟨a₁, k, hmidway, hk, rfl⟩, hrecovers.lasts ?_⟩
    show a₁.synced ≤ (a₁.events.take k).length
    rw [List.length_take]
    exact le_min hk h.synced

theorem Wal.settle_eq (a : Wal) (w : World) : ∃ n, a.settle w = { a with synced := n } := by
  unfold Wal.settle
  split_ifs
  · exact ⟨_, rfl⟩
  · exact ⟨a.synced, rfl⟩

theorem Wal.settle_synced_le (w : World) (hsynced : a.synced ≤ a.events.length) :
    (a.settle w).synced ≤ a.events.length := by
  unfold Wal.settle
  split_ifs
  · exact le_rfl
  · exact hsynced

theorem World.opened_view (e : SessionDir (Cell Bytes)) (d' : SessionDir Bytes) (mem : SessionDisk)
    (loaded : LoadedSession) : (World.opened e d' mem loaded).view = d' := by
  have hfiles : ∀ i, ((e.reopened d').files i).now = d'.files i := by
    intro i
    simp only [SessionDir.reopened]
    split_ifs with hkept
    · exact hkept.2.symm
    · rfl
  simp only [World.view, World.opened, SessionDir.map, hfiles]
  rfl

theorem Repaired.write {d' : SessionDir Bytes} {a' : Wal} {recs' : ℕ → List Event}
    (h : Repaired f d' i) (hkept : d' = { f with files := d'.files })
    (hactive : f.active = some i) (hopened : Recovers c sessionId d' a recs)
    (himage : Recovers c sessionId (f.write i b) a' recs') :
    Recovers c sessionId (d'.write i b) a' recs' := by
  have hself : (d'.write i b).files i = (f.write i b).files i := by
    rw [SessionDir.write_files_self, SessionDir.write_files_self]
  have hne : ∀ s ∈ f.segments, s.2 ≠ i := fun s hs =>
    Recovers.segment_ne_active (f := f.write i b) himage hactive hs
  have hother : ∀ s ∈ f.segments, (f.write i b).files s.2 = f.files s.2 ∧
      (d'.write i b).files s.2 = d'.files s.2 := fun s hs =>
    ⟨Function.update_of_ne (hne s hs) _ _, Function.update_of_ne (hne s hs) _ _⟩
  have hdir : d'.write i b = { f.write i b with files := (d'.write i b).files } := by
    rw [hkept]
    rfl
  rw [hdir]
  refine himage.rewrite _ ?_ ?_ ?_
  · intro s hs
    have hholds := himage.segment s hs
    rw [(hother s hs).1] at hholds
    rw [(hother s hs).2]
    exact .inr (hholds.repaired (h.headers s hs))
  · intro j hj
    obtain rfl : i = j := Option.some.inj (hactive.symm.trans hj)
    rw [hself]
    exact himage.active i hj
  · intro j hj
    rcases mem_logFiles.mp hj with ⟨s, hs, rfl⟩ | hj'
    · rw [(hother s hs).2]
      exact hopened.small _ (mem_logFiles.mpr (.inl ⟨s, h.segments ▸ hs, rfl⟩))
    · obtain rfl : i = j := Option.some.inj (hactive.symm.trans hj')
      rw [hself]
      exact himage.small i hj

theorem Lasts.opened {d' : SessionDir Bytes} {loaded : LoadedSession} (h : Lasts c sessionId e a)
    (hopen : openSession c sessionId (e.map Cell.now) = (d', .ok (mem, loaded))) :
    (∃ recs, Running c sessionId (World.opened e d' mem loaded).view mem
      (a.settle (World.opened e d' mem loaded)) recs) ∧
    Lasting c sessionId (World.opened e d' mem loaded)
      (a.settle (World.opened e d' mem loaded)) := by
  obtain ⟨recs, hrecovers⟩ := h.recovers
  obtain ⟨-, -, hactive, ⟨recs', hrun⟩, -⟩ := hrecovers.opened hopen
  have hrepaired := hrecovers.opened_repaired hopen
  set w := World.opened e d' mem loaded with hw
  have hview : w.view = d' := World.opened_view ..
  have hsettled : ∃ n, a.settle w = { a with synced := n } := a.settle_eq w
  have hcell : ∀ i, w.disk.files i = e.files i ∧ i < e.fresh ∨
      w.disk.files i = Cell.stable (d'.files i) := by
    intro i
    simp only [hw, World.opened, SessionDir.reopened]
    split_ifs with hkept
    · exact .inl ⟨rfl, hkept.1⟩
    · exact .inr rfl
  refine ⟨⟨recs', ?_⟩, hactive, ⟨recs', ?_⟩, ?_, ?_, ?_⟩
  · obtain ⟨n, hn⟩ := hsettled
    rw [hview, hn]
    exact hrun.synced n
  · obtain ⟨n, hn⟩ := hsettled
    rw [hn, show w.disk.map Cell.now = d' from hview]
    exact hrun.recovers.synced n
  · obtain ⟨n, hn⟩ := hsettled
    have hle := Wal.settle_synced_le w h.synced
    rw [hn] at hle ⊢
    exact hle
  · intro s hs
    obtain ⟨x, hx⟩ := h.segments s (hrepaired.segments ▸ hs)
    simp only [hw, World.opened, SessionDir.reopened]
    split_ifs
    · exact ⟨x, hx⟩
    · exact ⟨_, rfl⟩
  · intro i hi b hb
    obtain rfl : mem.events.inode = i := Option.some.inj (hactive.symm.trans hi)
    rw [show w.disk.map Cell.now = d' from hview]
    by_cases hnow : b = d'.files mem.events.inode
    · obtain ⟨n, hn⟩ := hsettled
      refine ⟨a.events.length, recs', Wal.settle_synced_le w h.synced, ?_⟩
      rw [hnow, hn, SessionDir.write_files]
      exact (Wal.take_length _).symm ▸ hrun.recovers.synced n
    · -- an older image: the file was not touched, and is still unsynced
      rcases hcell mem.events.inode with ⟨hsame, hold⟩ | hstable
      · have hkept : d' = { e.map Cell.now with files := d'.files } :=
          hrepaired.kept.resolve_right fun hfresh => absurd hold (hfresh ▸ lt_irrefl _)
        have hattached : e.active = some mem.events.inode := by
          rwa [hkept] at hactive
        have hunsynced : a.settle w = a := by
          refine if_neg fun hempty => hnow ?_
          rw [Cell.images, show (w.disk.files mem.events.inode).past = [] from
            List.isEmpty_iff.mp hempty, List.mem_singleton] at hb
          rw [hb]
          exact congrArg (fun d => d.files mem.events.inode) hview
        rw [hsame] at hb
        obtain ⟨k, recs'', hk, himage⟩ := h.images _ hattached b hb
        rw [hunsynced]
        exact ⟨k, recs'', hk, hrepaired.write hkept hattached hrun.recovers himage⟩
      · rw [hstable] at hb
        exact absurd (Cell.mem_images_stable.mp hb) hnow

end Stops

end Asp
