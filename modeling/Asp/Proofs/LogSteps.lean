import Asp.Lib.Parties
import Asp.Proofs.LogOpen
import Mathlib.Data.List.TakeWhile

/-! What each I/O call does to a running log: a write extends it, a rotation
moves its file, a compaction covers it. -/

namespace Asp

open Framing Durable Steps

theorem SessionDir.map_write {β γ : Type} (f : β → γ) (d : SessionDir β) (i : ℕ) (x : β) :
    (d.write i x).map f = (d.map f).write i (f x) := by
  simp only [SessionDir.map, SessionDir.write, SessionDir.mk.injEq, and_self, and_true]
  funext j
  by_cases hj : j = i
  · subst hj
    simp
  · simp [Function.update_of_ne hj]

theorem SessionDir.write_files {β : Type} (d : SessionDir β) (i : ℕ) : d.write i (d.files i) = d := by
  simp [SessionDir.write]

@[simp] theorem SessionDir.write_write {β : Type} (d : SessionDir β) (i : ℕ) (x y : β) :
    (d.write i x).write i y = d.write i y := by
  simp [SessionDir.write]

theorem World.view_setCell (w : World) (i : ℕ) (cell : Cell Bytes) :
    (w.setCell i cell).view = w.view.write i cell.now :=
  SessionDir.map_write ..

theorem World.view_sync (w : World) (i : ℕ) :
    (w.setCell i (w.disk.files i).sync).view = w.view := by
  rw [World.view_setCell]
  exact SessionDir.write_files w.view i

@[simp] theorem writeAt_end (content bytes : Bytes) :
    writeAt content content.length bytes = content ++ bytes := by
  simp [writeAt]

theorem SegmentName.le_total (a b : SegmentName) : a.le b ∨ b.le a := by
  rcases lt_trichotomy a.first b.first with h | h | h
  · exact .inl (.inl h)
  · exact (Nat.le_total a.uuid b.uuid).imp (fun hu => .inr ⟨h, hu⟩) fun hu => .inr ⟨h.symm, hu⟩
  · exact .inr (.inl h)

theorem SegmentName.le_trans {a b d : SegmentName} (h : a.le b) (h' : b.le d) : a.le d := by
  rcases h with h | ⟨h, hu⟩ <;> rcases h' with h' | ⟨h', hu'⟩
  · exact .inl (h.trans h')
  · exact .inl (h' ▸ h)
  · exact .inl (h ▸ h')
  · exact .inr ⟨h.trans h', hu.trans hu'⟩

instance : Std.Total fun a b : SegmentName × ℕ => a.1.le b.1 := ⟨fun a b => a.1.le_total b.1⟩

instance : IsTrans (SegmentName × ℕ) fun a b => a.1.le b.1 := ⟨fun _ _ _ => SegmentName.le_trans⟩

theorem insertionSort_filter_sublist {α : Type*} (r : α → α → Prop) [DecidableRel r]
    [Std.Total r] [IsTrans α r] (p : α → Bool) (l : List α) :
    ((l.filter p).insertionSort r).Sublist (l.insertionSort r) := by
  induction l with
  | nil => simp
  | cons x l ih =>
    rw [List.filter_cons, List.insertionSort_cons]
    split_ifs
    · rw [List.insertionSort_cons]
      exact ih.orderedInsert_sublist x (List.pairwise_insertionSort r l)
    · exact ih.trans (List.sublist_orderedInsert x _)

section Steps

variable {c : Crates} {sessionId : Uuid} {d : SessionDir Bytes} {mem : SessionDisk} {a : Wal}
  {recs : ℕ → List Event}

variable {boundary i : ℕ} {events : List Event}

theorem sealedEvents_update (hnodup : d.logFiles.Nodup) (hactive : d.active = some i)
    (events : List Event) :
    sealedEvents d (Function.update recs i events) = sealedEvents d recs := by
  rw [SessionDir.logFiles, List.nodup_append] at hnodup
  refine List.flatMap_congr fun j hj => Function.update_of_ne ?_ _ _
  rintro rfl
  exact hnodup.2.2 j hj j (by simp [hactive]) rfl

theorem flat_of_active (hactive : d.active = some i) :
    flat d recs = sealedEvents d recs ++ recs i := by
  rw [flat_eq_sealed, hactive]
  simp

theorem Recovers.cut (h : Recovers c sessionId d a recs) {k : ℕ} {content : Bytes}
    (hactive : d.active = some i) (hcontent : ActiveHolds c content ((recs i).take k))
    (hsmall : content.length ≤ eventLogMaxBytes) :
    Recovers c sessionId (d.write i content)
      (a.take (Asp.live a.boundary (sealedEvents d recs ++ (recs i).take k)).length)
      (Function.update recs i ((recs i).take k)) := by
  have hi : i ∈ d.logFiles := mem_logFiles.mpr (.inr hactive)
  have hne : ∀ s ∈ d.segments, s.2 ≠ i := fun s hs => h.segment_ne_active hactive hs
  have hflat : flat (d.write i content) (Function.update recs i ((recs i).take k)) =
      sealedEvents d recs ++ (recs i).take k := by
    rw [flat_of_active (d := d.write i content) hactive, Function.update_self]
    congr 1
    exact sealedEvents_update h.nodup hactive _
  have hsplit : flat d recs = (sealedEvents d recs ++ (recs i).take k) ++ (recs i).drop k := by
    rw [flat_of_active hactive, List.append_assoc, List.take_append_drop]
  have hordered := h.ordered
  have hfollows := h.follows
  have hlive := h.live
  rw [hsplit] at hordered hfollows hlive
  rw [live_append] at hlive
  refine
    { snapshot := h.snapshot, owned := h.owned, segment := ?_, active := ?_
      small := ?_, fits := ?_, nodup := h.nodup, fresh := h.fresh
      ordered := by rw [hflat]; exact (List.pairwise_append.mp hordered).1
      follows := by rw [hflat]; exact (follows_append.mp hfollows).1
      live := by rw [hflat]; exact (List.take_left' rfl).symm.trans (congrArg _ hlive)
      named := ?_, before := ?_ }
  · intro s hs
    rw [SessionDir.write_files_of_ne _ _ (hne s hs), Function.update_of_ne (hne s hs)]
    exact h.segment s hs
  · intro j hj
    obtain rfl : i = j := Option.some.inj (hactive.symm.trans hj)
    rwa [SessionDir.write_files_self, Function.update_self]
  · intro j hj
    by_cases hji : j = i
    · rwa [hji, SessionDir.write_files_self]
    · rw [SessionDir.write_files_of_ne _ _ hji]
      exact h.small j hj
  · intro j hj
    by_cases hji : j = i
    · rw [hji, Function.update_self]
      exact fun e he => h.fits i hi e (List.mem_of_mem_take he)
    · rw [Function.update_of_ne hji]
      exact h.fits j hj
  · intro s hs
    rcases h.named s hs with hcovered | ⟨t, ht, e, he, hle⟩
    · exact .inl hcovered
    · refine .inr ⟨t, ht, e, ?_, hle⟩
      rwa [Function.update_of_ne (hne t ht)]
  · intro s hs j hj e he
    obtain rfl : i = j := Option.some.inj (hactive.symm.trans hj)
    rw [Function.update_self] at he
    exact h.before s hs i hactive e (List.mem_of_mem_take he)

@[simp] theorem Wal.append_head (a : Wal) (e : Event) (synced : ℕ) :
    (a.append e synced).head = a.head + 1 := by
  simp [Wal.head, Wal.append, Wal.boundary, Nat.add_assoc]

theorem flat_append_last (hnodup : d.logFiles.Nodup) {front back : List ℕ}
    (hlast : d.logFiles = front ++ i :: back) (hback : ∀ j ∈ back, recs j = [])
    (events : List Event) :
    flat d (Function.update recs i (recs i ++ events)) = flat d recs ++ events := by
  rw [hlast, List.nodup_append, List.nodup_cons] at hnodup
  obtain ⟨-, ⟨hi, -⟩, hdisjoint⟩ := hnodup
  have hfront : front.flatMap (Function.update recs i (recs i ++ events)) = front.flatMap recs :=
    List.flatMap_congr fun j hj => Function.update_of_ne
      (fun (heq : j = i) => hdisjoint j hj i (List.mem_cons_self ..) heq) _ _
  have hnone : ∀ g : ℕ → List Event, (∀ j ∈ back, g j = []) → back.flatMap g = [] :=
    fun g hg => List.flatMap_eq_nil_iff.mpr hg
  have hback' : ∀ j ∈ back, Function.update recs i (recs i ++ events) j = [] := by
    intro j hj
    rw [Function.update_of_ne fun (heq : j = i) => hi (heq ▸ hj)]
    exact hback j hj
  rw [flat, flat, hlast, List.flatMap_append, List.flatMap_append, List.flatMap_cons,
    List.flatMap_cons, Function.update_self, hfront, hnone _ hback, hnone _ hback']
  simp [List.append_assoc]

theorem Running.inode_mem (h : Running c sessionId d mem a recs) : mem.events.inode ∈ d.logFiles := by
  obtain ⟨front, back, hlast, -⟩ := h.last
  rw [hlast]
  exact List.mem_append_right _ (List.mem_cons_self ..)

theorem Running.content_append (h : Running c sessionId d mem a recs) (e : Event) :
    d.files mem.events.inode ++ record c mem.events.checksummed e =
      logBytes c mem.events.checksummed (recs mem.events.inode ++ [e]) := by
  rw [logBytes_append, ← h.content, records_cons, records_nil, List.append_nil]

theorem Running.recovers_append (h : Running c sessionId d mem a recs) {e : Event} (synced : ℕ)
    (hid : e.id = a.head + 1) (hfits : (c.event.encode e).length ≤ maxFrameBytes)
    (hroom : (d.files mem.events.inode).length + (record c mem.events.checksummed e).length ≤
      eventLogMaxBytes) :
    Recovers c sessionId
      (d.write mem.events.inode (d.files mem.events.inode ++ record c mem.events.checksummed e))
      (a.append e synced)
      (Function.update recs mem.events.inode (recs mem.events.inode ++ [e])) := by
  obtain ⟨front, back, hlast, hback⟩ := h.last
  have hmem_i := h.inode_mem
  have hcontent := h.content_append e
  set i := mem.events.inode
  have hflat := flat_append_last h.recovers.nodup hlast hback [e]
  have hhead : a.head = a.boundary + (Asp.live a.boundary (flat d recs)).length := by
    rw [h.recovers.live, Wal.head]
  have hlive : Asp.live a.boundary [e] = [e] := by
    have : a.boundary < e.id := by omega
    simp [Asp.live, this]
  have hother : ∀ j, j ≠ i → Function.update recs i (recs i ++ [e]) j = recs j :=
    fun j hj => Function.update_of_ne hj _ _
  have hgrow : ∀ j, ∀ x ∈ recs j, x ∈ Function.update recs i (recs i ++ [e]) j := by
    intro j x hx
    by_cases hj : j = i
    · subst hj
      rw [Function.update_self]
      exact List.mem_append_left _ hx
    · rwa [hother j hj]
  have hholds : Holds c (d.files i ++ record c mem.events.checksummed e) (recs i ++ [e]) :=
    .inr ⟨_, hcontent⟩
  refine
    { snapshot := h.recovers.snapshot, owned := h.recovers.owned, segment := ?_
      active := ?_, small := ?_, fits := ?_, nodup := h.recovers.nodup
      fresh := h.recovers.fresh, ordered := ?_, follows := ?_, live := ?_, named := ?_
      before := ?_ }
  · intro s hs
    by_cases hsi : s.2 = i
    · rwa [hsi, SessionDir.write_files_self, Function.update_self]
    · rw [SessionDir.write_files_of_ne _ _ hsi, hother _ hsi]
      exact h.recovers.segment s hs
  · intro j hj
    by_cases hji : j = i
    · rw [hji, SessionDir.write_files_self, Function.update_self]
      exact hholds.active
    · rw [SessionDir.write_files_of_ne _ _ hji, hother _ hji]
      exact h.recovers.active j hj
  · intro j hj
    by_cases hji : j = i
    · rwa [hji, SessionDir.write_files_self, List.length_append]
    · rw [SessionDir.write_files_of_ne _ _ hji]
      exact h.recovers.small j hj
  · intro j hj
    by_cases hji : j = i
    · rw [hji, Function.update_self]
      intro x hx
      rcases List.mem_append.mp hx with hx | hx
      · exact h.recovers.fits i hmem_i x hx
      · rwa [List.mem_singleton.mp hx]
    · rw [hother _ hji]
      exact h.recovers.fits j hj
  · show (flat d (Function.update recs i (recs i ++ [e]))).Pairwise _
    rw [hflat]
    refine List.pairwise_append.mpr ⟨h.recovers.ordered, List.pairwise_singleton _ _, ?_⟩
    intro x hx y hy
    have := h.recovers.id_le_head hx
    rw [List.mem_singleton.mp hy]
    omega
  · show Follows a.boundary a.boundary (flat d (Function.update recs i (recs i ++ [e])))
    rw [hflat, follows_append]
    refine ⟨h.recovers.follows, ?_⟩
    rw [← hhead, Follows, if_neg (by omega)]
    exact ⟨hid, trivial⟩
  · show Asp.live a.boundary (flat d (Function.update recs i (recs i ++ [e]))) = a.events ++ [e]
    rw [hflat, live_append, hlive, h.recovers.live]
  · intro s hs
    rcases h.recovers.named s hs with hcovered | ⟨t, ht, x, hx, hle⟩
    · exact .inl hcovered
    · exact .inr ⟨t, ht, x, hgrow t.2 x hx, hle⟩
  · intro s hs j hj x hx
    by_cases hji : j = i
    · rw [hji, Function.update_self] at hx
      rcases Parties.mem_concat hx with hx | rfl
      · exact h.recovers.before s hs j hj x (hji ▸ hx)
      · exact Nat.lt_of_le_of_lt (h.recovers.first_le_head hs) (by omega)
    · rw [hother _ hji] at hx
      exact h.recovers.before s hs j hj x hx

theorem Running.append (h : Running c sessionId d mem a recs) {e : Event} (synced : ℕ)
    {mem' : SessionDisk} (hid : e.id = a.head + 1)
    (hfits : (c.event.encode e).length ≤ maxFrameBytes)
    (hroom : (d.files mem.events.inode).length + (record c mem.events.checksummed e).length ≤
      eventLogMaxBytes)
    (hmem : mem'.events = { mem.events with
      pos := (d.files mem.events.inode).length + (record c mem.events.checksummed e).length
      firstEventId := some (mem.events.firstEventId.getD e.id)
      dirtyBytes := mem'.events.dirtyBytes }) :
    Running c sessionId
      (d.write mem.events.inode (d.files mem.events.inode ++ record c mem.events.checksummed e))
      mem' (a.append e synced)
      (Function.update recs mem.events.inode (recs mem.events.inode ++ [e])) := by
  obtain ⟨front, back, hlast, hback⟩ := h.last
  have hrecovers := h.recovers_append synced hid hfits hroom
  have hinode : mem'.events.inode = mem.events.inode := by rw [hmem]
  have hsum : mem'.events.checksummed = mem.events.checksummed := by rw [hmem]
  have hfirst : mem'.events.firstEventId = some (mem.events.firstEventId.getD e.id) := by rw [hmem]
  have hfirstLe : mem.events.firstEventId.getD e.id ≤ e.id := by
    cases hn : mem.events.firstEventId with
    | none => exact le_rfl
    | some n => exact (h.firstBound n hn).trans hid.ge
  refine ⟨hrecovers, ?_, ?_, ?_, ?_, ?_, ?_, ?_⟩
  · rw [hinode]
    refine ⟨front, back, hlast, fun j hj => ?_⟩
    have hnodup := h.recovers.nodup
    rw [hlast, List.nodup_append, List.nodup_cons] at hnodup
    rw [Function.update_of_ne fun (heq : j = mem.events.inode) => hnodup.2.1.1 (heq ▸ hj)]
    exact hback j hj
  · rw [hinode, hsum, SessionDir.write_files_self, Function.update_self]
    exact h.content_append e
  · rw [hinode, SessionDir.write_files_self, List.length_append, hmem]
  · rw [hinode, hfirst, Function.update_self]
    intro x hx
    rcases Parties.mem_concat hx with hx | rfl
    · obtain ⟨n, hn, hle⟩ := h.firstLe x hx
      exact ⟨_, rfl, by rw [hn]; exact hle⟩
    · exact ⟨_, rfl, hfirstLe⟩
  · intro hactive s hs
    rw [hfirst, Option.getD_some, hid]
    exact h.firstAbove (hinode ▸ hactive) s hs
  · rw [hfirst]
    rintro n hn
    cases hn
    rw [Wal.append_head]
    omega
  · rw [hinode]
    intro j hj hne
    rw [SessionDir.write_files_of_ne _ _ hne]
    exact h.detached j hj hne

theorem split_insert {α : Type*} {l₁ l₂ front back : List α} {x y : α}
    (h : l₁ ++ l₂ = front ++ x :: back) :
    ∃ front' back', l₁ ++ y :: l₂ = front' ++ x :: back' ∧ ∀ z ∈ back', z = y ∨ z ∈ back := by
  rcases List.append_eq_append_iff.mp h with ⟨mid, rfl, rfl⟩ | ⟨mid, rfl, hmid⟩
  · exact ⟨l₁ ++ y :: mid, back, by simp, fun z hz => .inr hz⟩
  · cases mid with
    | nil =>
      obtain rfl : x :: back = l₂ := hmid
      exact ⟨front ++ [y], back, by simp, fun z hz => .inr hz⟩
    | cons x' mid =>
      obtain ⟨rfl, hrest⟩ := List.cons.inj hmid
      refine ⟨front, mid ++ y :: l₂, by simp, fun z hz => ?_⟩
      rw [hrest]
      simp only [List.append_eq, List.mem_append, List.mem_cons] at hz ⊢
      tauto

def renamed {β : Type} (d : SessionDir β) (segment : SegmentName) (i : ℕ) : SessionDir β :=
  { d with segments := (segment, i) :: d.segments, active := none }

theorem renamed_logFiles {β : Type} (d : SessionDir β) (segment : SegmentName) (i : ℕ) :
    ∃ front back, d.sortedSegments.map Prod.snd = front ++ back ∧
      (renamed d segment i).logFiles = front ++ i :: back ∧
      ((∀ s ∈ d.segments, s.1.first < segment.first) → back = []) := by
  refine ⟨(d.sortedSegments.takeWhile fun s => decide ¬ segment.le s.1).map Prod.snd,
    (d.sortedSegments.dropWhile fun s => decide ¬ segment.le s.1).map Prod.snd, ?_, ?_, ?_⟩
  · rw [← List.map_append, List.takeWhile_append_dropWhile]
  · simp only [SessionDir.logFiles, SessionDir.sortedSegments, renamed, Option.toList_none,
      List.append_nil, List.insertionSort_cons, List.orderedInsert_eq_take_drop, List.map_append,
      List.map_cons]
  · intro hlast
    rw [List.map_eq_nil_iff, List.dropWhile_eq_nil_iff]
    intro s hs
    have hlt := hlast s (mem_sortedSegments.mp hs)
    rw [decide_eq_true_iff]
    rintro (hle | ⟨hle, -⟩) <;> omega

section

variable (h : Running c sessionId d mem a recs)

include h

theorem Running.detached_recs (hactive : d.active = some i) (hne : i ≠ mem.events.inode) : recs i =
    [] := by
  obtain ⟨front, back, hlast, hback⟩ := h.last
  refine hback i ?_
  have hi : (front ++ mem.events.inode :: back).getLast? = some i := by
    rw [← hlast, SessionDir.logFiles, hactive]
    simp
  cases back using List.reverseRecOn with
  | nil =>
    rw [List.getLast?_append_of_ne_nil _ (List.cons_ne_nil _ _)] at hi
    exact absurd (Option.some.inj hi).symm hne
  | append_singleton back j =>
    rw [← List.cons_append, ← List.append_assoc, List.getLast?_concat] at hi
    rw [Option.some.inj hi]
    exact List.mem_append_right _ (List.mem_singleton_self _)

theorem Running.rename (segment : SegmentName) (hactive : d.active = some i)
    (hwhole : (d.files i).length = 0 ∨ headerLen ≤ (d.files i).length)
    (hrecs : recs mem.events.inode ≠ [])
    (hname : segment.first = mem.events.firstEventId.getD (a.head + 1)) :
    Running c sessionId (renamed d segment i) mem a recs := by
  obtain ⟨front, back, hsorted, hfiles, hnewest⟩ := renamed_logFiles d segment i
  have hlogFiles : d.logFiles = front ++ back ++ [i] := by
    rw [SessionDir.logFiles, hsorted, hactive]
    rfl
  have hperm : (renamed d segment i).logFiles.Perm d.logFiles := by
    rw [hfiles, hlogFiles, List.append_assoc]
    exact (List.perm_append_singleton i back).symm.append_left front
  -- the descriptor's own file becomes the newest segment; a detached one holds no record
  have hplace : (i = mem.events.inode ∧ (renamed d segment i).logFiles = d.logFiles) ∨
      (i ≠ mem.events.inode ∧ recs i = []) := by
    by_cases hself : i = mem.events.inode
    · refine .inl ⟨hself, ?_⟩
      have hback : back = [] := hnewest fun s hs => by
        rw [hname]
        exact h.firstAbove (hself ▸ hactive) s hs
      rw [hfiles, hlogFiles, hback, List.append_nil]
    · exact .inr ⟨hself, h.detached_recs hactive hself⟩
  have hflat : flat (renamed d segment i) recs = flat d recs := by
    rcases hplace with ⟨-, hsame⟩ | ⟨-, hnone⟩
    · rw [flat, flat, hsame]
    · rw [flat, flat, hfiles, hlogFiles]
      simp [hnone]
  have hholds : Holds c (d.files i) (recs i) := by
    rcases hplace with ⟨hself, -⟩ | ⟨hne, hnone⟩
    · rw [hself]
      exact .inr ⟨_, h.content⟩
    · rw [hnone]
      have hpre := h.detached i hactive hne
      rcases hwhole with hzero | hlen
      · exact .inl ⟨List.length_eq_zero_iff.mp hzero, rfl⟩
      · refine .inr ⟨true, ?_⟩
        rw [logBytes_nil]
        exact hpre.eq_of_length_le hlen
  have hclosed : ∀ {j : ℕ}, (renamed d segment i).active ≠ some j := Option.some_ne_none _ ∘ Eq.symm
  obtain ⟨t, ht, hti⟩ : ∃ t ∈ (renamed d segment i).segments, t.2 = mem.events.inode :=
    (mem_logFiles.mp (hperm.mem_iff.mpr h.inode_mem)).resolve_right hclosed
  obtain ⟨e, he⟩ := List.exists_mem_of_ne_nil _ hrecs
  obtain ⟨n, hn, hle⟩ := h.firstLe e he
  refine ⟨?_, ?_, h.content, h.pos, h.firstLe, ?_, h.firstBound, ?_⟩
  · refine
      { snapshot := h.recovers.snapshot, owned := h.recovers.owned, segment := ?_
        active := fun _ hnone => absurd hnone hclosed
        small := fun j hj => h.recovers.small j (hperm.mem_iff.mp hj)
        fits := fun j hj => h.recovers.fits j (hperm.mem_iff.mp hj)
        nodup := hperm.nodup_iff.mpr h.recovers.nodup
        fresh := fun j hj => h.recovers.fresh j (hperm.mem_iff.mp hj)
        ordered := by rw [hflat]; exact h.recovers.ordered
        follows := by rw [hflat]; exact h.recovers.follows
        live := by rw [hflat]; exact h.recovers.live
        named := ?_, before := fun _ _ _ hnone => absurd hnone hclosed }
    · rintro s (_ | ⟨_, hs⟩)
      · exact hholds
      · exact h.recovers.segment s hs
    · rintro s (_ | ⟨_, hs⟩)
      · refine .inr ⟨t, ht, e, hti ▸ he, ?_⟩
        rwa [hname, hn]
      · rcases h.recovers.named s hs with hcovered | ⟨u, hu, x, hx, hxle⟩
        · exact .inl hcovered
        · exact .inr ⟨u, List.mem_cons_of_mem _ hu, x, hx, hxle⟩
  · obtain ⟨front₀, back₀, hlast, hback₀⟩ := h.last
    rcases hplace with ⟨-, hsame⟩ | ⟨hne, hnone⟩
    · exact ⟨front₀, back₀, hsame.trans hlast, hback₀⟩
    · obtain ⟨back₁, rfl⟩ : ∃ back₁, back₀ = back₁ ++ [i] := by
        rw [hlogFiles] at hlast
        cases back₀ using List.reverseRecOn with
        | nil =>
          have := (List.append_inj_right' hlast rfl)
          exact absurd (List.cons.inj this).1 hne
        | append_singleton back₁ j =>
          rw [← List.cons_append, ← List.append_assoc] at hlast
          have := List.append_inj_right' hlast rfl
          exact ⟨back₁, by rw [(List.cons.inj this).1]⟩
      rw [hlogFiles, ← List.cons_append, ← List.append_assoc] at hlast
      obtain ⟨front', back', hsplit, hback'⟩ :=
        split_insert (y := i) (List.append_cancel_right hlast)
      refine ⟨front', back', hfiles.trans hsplit, fun j hj => ?_⟩
      rcases hback' j hj with rfl | hj
      · exact hnone
      · exact hback₀ j (List.mem_append_left _ hj)
  · exact fun hnone => absurd hnone hclosed
  · exact fun _ hnone => absurd hnone hclosed

theorem Running.congr (mem' : SessionDisk)
    (hmem : mem'.events = { mem.events with dirtyBytes := mem'.events.dirtyBytes }) :
    Running c sessionId d mem' a recs := by
  obtain ⟨hrecovers, hlast, hcontent, hpos, hfirstLe, hfirstAbove, hfirstBound, hdetached⟩ := h
  have hinode : mem'.events.inode = mem.events.inode := by rw [hmem]
  have hfirst : mem'.events.firstEventId = mem.events.firstEventId := by rw [hmem]
  have hsum : mem'.events.checksummed = mem.events.checksummed := by rw [hmem]
  have hend : mem'.events.pos = mem.events.pos := by rw [hmem]
  rw [← hinode] at hlast hcontent hpos hfirstLe hfirstAbove hdetached
  rw [← hfirst] at hfirstLe hfirstAbove hfirstBound
  rw [← hsum] at hcontent
  rw [← hend] at hpos
  exact ⟨hrecovers, hlast, hcontent, hpos, hfirstLe, hfirstAbove, hfirstBound, hdetached⟩

theorem Running.newActive (hactive : d.active = none) :
    Running c sessionId (Asp.newActive d []) mem a (Function.update recs d.fresh []) := by
  have hne : mem.events.inode ≠ d.fresh := (h.recovers.fresh _ h.inode_mem).ne
  have hfile : (Asp.newActive d []).files mem.events.inode = d.files mem.events.inode :=
    Function.update_of_ne hne _ _
  have hrecs : Function.update recs d.fresh [] mem.events.inode = recs mem.events.inode :=
    Function.update_of_ne hne _ _
  refine ⟨h.recovers.newActive hactive (by decide), ?_, ?_, ?_, ?_, ?_, h.firstBound, ?_⟩
  · obtain ⟨front, back, hlast, hback⟩ := h.last
    refine ⟨front, back ++ [d.fresh], ?_, fun j hj => ?_⟩
    · rw [SessionDir.logFiles, hactive, Option.toList_none, List.append_nil] at hlast
      show d.sortedSegments.map Prod.snd ++ [d.fresh] = _
      rw [hlast]
      simp
    · rcases List.mem_append.mp hj with hj | hj
      · have hmem : j ∈ d.logFiles := by
          rw [hlast]
          exact List.mem_append_right _ (List.mem_cons_of_mem _ hj)
        rw [Function.update_of_ne (h.recovers.fresh j hmem).ne]
        exact hback j hj
      · rw [List.mem_singleton.mp hj, Function.update_self]
  · rw [hfile, hrecs]
    exact h.content
  · rw [hfile]
    exact h.pos
  · rw [hrecs]
    exact h.firstLe
  · exact fun hself => absurd (Option.some.inj hself).symm hne
  · intro j hj _
    cases hj
    rw [show (Asp.newActive d []).files d.fresh = [] from Function.update_self ..]
    exact List.nil_prefix

end

theorem activeHolds_header {checksummed : Bool} {content : Bytes}
    (h : content <+: eventLogHeader checksummed) : ActiveHolds c content [] := by
  rcases (h.length_le : content.length ≤ headerLen).lt_or_eq with hshort | hwhole
  · exact .inl ⟨hshort, rfl⟩
  · refine .inr ⟨checksummed, [], ?_, torn_nil checksummed⟩
    rw [logBytes_nil, List.append_nil]
    exact h.eq_of_length hwhole

theorem Running.blank (h : Running c sessionId d mem a recs) {x : Bytes}
    (hactive : d.active = some i) (hne : i ≠ mem.events.inode) (hx : x <+: eventLogHeader true) :
    Running c sessionId (d.write i x) mem a recs := by
  have hnone := h.detached_recs hactive hne
  have hfile : (d.write i x).files mem.events.inode = d.files mem.events.inode :=
    SessionDir.write_files_of_ne _ _ hne.symm
  have hlen : x.length ≤ headerLen := hx.length_le
  refine ⟨?_, h.last, ?_, ?_, h.firstLe, h.firstAbove, h.firstBound, ?_⟩
  · refine h.recovers.rewrite _ ?_ ?_ ?_
    · intro s hs
      have := SessionDir.write_files_of_ne d x (h.recovers.segment_ne_active hactive hs)
      rw [show Function.update d.files i x = (d.write i x).files from rfl, this]
      exact h.recovers.segment s hs
    · intro j hj
      obtain rfl : i = j := Option.some.inj (hactive.symm.trans hj)
      rw [Function.update_self, hnone]
      exact activeHolds_header hx
    · intro j hj
      by_cases hji : j = i
      · rw [hji, Function.update_self]
        exact hlen.trans (by decide)
      · rw [Function.update_of_ne hji]
        exact h.recovers.small j hj
  · rw [hfile]
    exact h.content
  · rw [hfile]
    exact h.pos
  · intro j hj _
    obtain rfl : i = j := Option.some.inj (hactive.symm.trans hj)
    rwa [SessionDir.write_files_self]

theorem Running.install (h : Running c sessionId d mem a recs) {mem' : SessionDisk}
    (hactive : d.active = some i) (hne : i ≠ mem.events.inode)
    (hfile : d.files i = eventLogHeader true)
    (hmem : mem'.events = ⟨i, (d.files i).length, true, none, 0⟩) :
    Running c sessionId d mem' a recs := by
  have hnone := h.detached_recs hactive hne
  have hlog : d.files i = logBytes c true (recs i) := by
    rwa [hnone, logBytes_nil]
  refine h.recovers.running hactive hlog ?_
  rwa [hnone]

theorem Follows.pos {last : ℕ} (h : Follows boundary last events) : ∀ e ∈ events, 0 < e.id := by
  induction events generalizing last with
  | nil => simp
  | cons x events ih =>
    unfold Follows at h
    split_ifs at h
    · rintro e (_ | ⟨_, he⟩)
      · exact h.1
      · exact ih h.2.2 e he
    · rintro e (_ | ⟨_, he⟩)
      · omega
      · exact ih h.2 e he

theorem follows_covered (h : ∀ e ∈ events, 0 < e.id ∧ e.id ≤ boundary) :
    Follows boundary boundary events := by
  induction events with
  | nil => trivial
  | cons x events ih =>
    have hx := h x (List.mem_cons_self ..)
    rw [Follows, if_pos hx.2]
    exact ⟨hx.1, le_rfl, ih fun e he => h e (List.mem_cons_of_mem _ he)⟩

theorem live_covered (h : ∀ e ∈ events, e.id ≤ boundary) : live boundary events = [] := by
  rw [live, List.filter_eq_nil_iff]
  intro e he
  simpa using h e he

section Compaction

variable {s : SessionSnapshotData}

@[simp] theorem Wal.compacted_take (s : SessionSnapshotData) (k : ℕ) :
    (Wal.compacted s).take k = Wal.compacted s := by
  simp [Wal.take, Wal.compacted]

@[simp] theorem Wal.compacted_head (s : SessionSnapshotData) :
    (Wal.compacted s).head = s.throughEventId := rfl

theorem Recovers.covered (h : Recovers c sessionId d a recs) (hthrough : a.head ≤ s.throughEventId)
    (hid : s.sessionId = sessionId) :
    Recovers c sessionId { d with snapshot := some (snapshotFile c s) } (Wal.compacted s) recs := by
  have hcovered : ∀ e ∈ flat d recs, 0 < e.id ∧ e.id ≤ s.throughEventId :=
    fun e he => ⟨h.follows.pos e he, (h.id_le_head he).trans hthrough⟩
  refine
    { h with
      snapshot := rfl
      owned := ?_
      follows := follows_covered hcovered
      live := live_covered fun e he => (hcovered e he).2
      named := fun t ht => .inl ?_ }
  · intro t ht
    cases ht
    exact hid
  · exact (h.first_le_head ht).trans hthrough

theorem Running.covered (h : Running c sessionId d mem a recs) (hthrough : s.throughEventId = a.head)
    (hid : s.sessionId = sessionId) :
    Running c sessionId { d with snapshot := some (snapshotFile c s) } mem (Wal.compacted s) recs := by
  refine ⟨h.recovers.covered hthrough.ge hid, h.last, h.content, h.pos, h.firstLe, ?_, ?_,
    h.detached⟩
  · rw [Wal.compacted_head, hthrough]
    exact h.firstAbove
  · rw [Wal.compacted_head, hthrough]
    exact h.firstBound

theorem Recovers.emptied (h : Recovers c sessionId d (Wal.compacted s) recs) {k : ℕ}
    {content : Bytes} (hactive : d.active = some i)
    (hcontent : ActiveHolds c content ((recs i).take k))
    (hsmall : content.length ≤ eventLogMaxBytes) :
    Recovers c sessionId (d.write i content) (Wal.compacted s)
      (Function.update recs i ((recs i).take k)) := by
  have := h.cut hactive hcontent hsmall
  rwa [Wal.compacted_take] at this

theorem Running.emptied (h : Running c sessionId d mem (Wal.compacted s) recs) (mem' : SessionDisk)
    (hactive : d.active = some mem.events.inode)
    (hinode : mem'.events.inode = mem.events.inode) (hpos : mem'.events.pos = headerLen)
    (hsum : mem'.events.checksummed = true)
    (hfirst : ∀ n ∈ mem'.events.firstEventId, mem.events.firstEventId = some n) :
    Running c sessionId (d.write mem.events.inode (eventLogHeader true)) mem' (Wal.compacted s)
      (Function.update recs mem.events.inode []) := by
  have hblank : ActiveHolds c (eventLogHeader true) ((recs mem.events.inode).take 0) :=
    activeHolds_header (List.prefix_refl _)
  have hrecovers := h.recovers.emptied hactive hblank (by rw [eventLogHeader_length]; decide)
  refine ⟨hrecovers, ?_, ?_, ?_, ?_, ?_, ?_, ?_⟩
  · rw [hinode]
    exact ⟨d.sortedSegments.map Prod.snd, [], by
      show d.sortedSegments.map Prod.snd ++ d.active.toList = _
      rw [hactive]
      rfl, by simp⟩
  · rw [hinode, hsum, SessionDir.write_files_self, Function.update_self, logBytes_nil]
  · rw [hinode, hpos, SessionDir.write_files_self, eventLogHeader_length]
  · rw [hinode, Function.update_self]
    exact fun e he => absurd he List.not_mem_nil
  · intro _ t ht
    cases hn : mem'.events.firstEventId with
    | none => exact Nat.lt_succ_of_le (h.recovers.first_le_head ht)
    | some n =>
      have := h.firstAbove hactive t ht
      rwa [hfirst n hn] at this
  · exact fun n hn => h.firstBound n (hfirst n hn)
  · rw [hinode]
    exact fun j hj hne => absurd (Option.some.inj (hj.symm.trans hactive)) hne

theorem Recovers.remove (h : Recovers c sessionId d (Wal.compacted s) recs)
    (p : SegmentName × ℕ → Bool) :
    Recovers c sessionId { d with segments := d.segments.filter p } (Wal.compacted s) recs := by
  have hsub : ({ d with segments := d.segments.filter p } : SessionDir Bytes).logFiles.Sublist
      d.logFiles :=
    ((insertionSort_filter_sublist _ p d.segments).map Prod.snd).append_right _
  have hflat : (flat { d with segments := d.segments.filter p } recs).Sublist (flat d recs) :=
    hsub.flatMap recs
  have hcovered : ∀ e ∈ flat { d with segments := d.segments.filter p } recs,
      0 < e.id ∧ e.id ≤ s.throughEventId :=
    fun e he => ⟨h.follows.pos e (hflat.subset he), h.id_le_head (hflat.subset he)⟩
  exact
    { snapshot := h.snapshot, owned := h.owned
      segment := fun t ht => h.segment t (List.mem_of_mem_filter ht)
      active := h.active
      small := fun j hj => h.small j (hsub.subset hj)
      fits := fun j hj => h.fits j (hsub.subset hj)
      nodup := h.nodup.sublist hsub
      fresh := fun j hj => h.fresh j (hsub.subset hj)
      ordered := h.ordered.sublist hflat
      follows := follows_covered hcovered
      live := live_covered fun e he => (hcovered e he).2
      named := fun t ht => .inl (h.first_le_head (List.mem_of_mem_filter ht))
      before := fun t ht => h.before t (List.mem_of_mem_filter ht) }

theorem Running.remove (h : Running c sessionId d mem (Wal.compacted s) recs)
    (hactive : d.active = some mem.events.inode) (p : SegmentName × ℕ → Bool) :
    Running c sessionId { d with segments := d.segments.filter p } mem (Wal.compacted s) recs := by
  refine ⟨h.recovers.remove p, ?_, h.content, h.pos, h.firstLe, ?_, h.firstBound, h.detached⟩
  · refine ⟨(d.segments.filter p |>.insertionSort fun x y => x.1.le y.1).map Prod.snd, [], ?_, by simp⟩
    rw [SessionDir.logFiles, hactive]
    rfl
  · exact fun hself t ht => h.firstAbove hself t (List.mem_of_mem_filter ht)

end Compaction

end Steps

end Asp
