import Asp.Proofs.LogFormat

/-! Opening a session: a directory that stands for a log opens to that log, and
whatever opens has lost no complete record. -/

namespace Asp

open Framing Durable Steps

theorem readSidecar_write {α : Type} (crc32 : Bytes → UInt32) (format : SidecarFormat)
    (message : Message α) (x : α) (hversion : format.version < 2 ^ 16)
    (hfile : (writeSidecar crc32 format (message.encode x)).length ≤ format.fileLimit)
    (hpayload : (message.encode x).length ≤ format.payloadLimit)
    (hlen : (message.encode x).length < 2 ^ 32) :
    readSidecar crc32 format message (writeSidecar crc32 format (message.encode x)) = .ok x := by
  have hdrop : ∀ (front rest : Bytes) (n k : ℕ), front.length = n →
      (front ++ rest).drop (n + k) = rest.drop k := by
    intro front rest n k h
    rw [← List.drop_drop, List.drop_left' h]
  set payload := message.encode x
  have hlength : (writeSidecar crc32 format payload).length =
      format.magic.length + 10 + payload.length := by
    simp [writeSidecar]
    omega
  have hshape : writeSidecar crc32 format payload = format.magic ++ (be16 format.version ++
      (be32 payload.length ++ (be32 (crc32 payload).toNat ++ payload))) := by
    simp [writeSidecar, List.append_assoc]
  have hmagic : (writeSidecar crc32 format payload).take format.magic.length = format.magic := by
    rw [hshape, List.take_left]
  have h2 : ofBe (((writeSidecar crc32 format payload).drop format.magic.length).take 2) =
      format.version := by
    rw [hshape, List.drop_left, List.take_left' (be16_length _), ofBe_be16 hversion]
  have h4 : ofBe (((writeSidecar crc32 format payload).drop (format.magic.length + 2)).take 4) =
      payload.length := by
    rw [hshape, hdrop _ _ _ _ rfl, List.drop_left' (be16_length _), List.take_left' (be32_length _),
      ofBe_be32 hlen]
  have h6 : ofBe (((writeSidecar crc32 format payload).drop (format.magic.length + 6)).take 4) =
      (crc32 payload).toNat := by
    rw [hshape, hdrop _ _ _ _ rfl, hdrop _ _ 2 4 (be16_length _), List.drop_left' (be32_length _),
      List.take_left' (be32_length _), ofBe_be32 (crc32 payload).toNat_lt]
  have h10 : (writeSidecar crc32 format payload).drop (format.magic.length + 10) = payload := by
    rw [hshape, hdrop _ _ _ _ rfl, hdrop _ _ 2 8 (be16_length _), hdrop _ _ 4 4 (be32_length _),
      List.drop_left' (be32_length _)]
  simp only [readSidecar, hmagic, h2, h4, h6, h10]
  rw [if_neg (by omega), if_neg (by simp only [ne_eq, not_true_eq_false, or_false]; omega),
    if_neg (by simp), if_neg (by omega), if_neg (by simp), message.decode_encode]

section Recovery

variable (c : Crates) (sessionId : Uuid)

variable {a : Wal} {boundary i : ℕ} {d d' f : SessionDir Bytes} {loaded : LoadedSession}
  {mem : SessionDisk} {recs : ℕ → List Event}

theorem readSnapshotFile_snapshotFile {snapshot : SessionSnapshotData}
    (h : (c.snapshot.encode snapshot).length ≤ maxFrameBytes) :
    readSnapshotFile c (some (snapshotFile c snapshot)) = .ok (some snapshot) := by
  have hfile : (snapshotFile c snapshot).length ≤ snapshotFormat.fileLimit := by
    simp only [snapshotFile, writeSidecar, List.length_append, be16_length, be32_length,
      snapshotFormat]
    simp
    omega
  have hread := readSidecar_write c.crc32 snapshotFormat c.snapshot snapshot (by decide) hfile h
    (h.trans_lt maxFrameBytes_lt)
  simp only [readSnapshotFile, snapshotFile, hread]
  rfl

/-- The events of all files in the order in which they are read. -/
def flat {β : Type} (f : SessionDir β) (recs : ℕ → List Event) : List Event :=
  f.logFiles.flatMap recs

/-- `f` stands for `a`: file `i` holds the complete records `recs i`. -/
structure Recovers (f : SessionDir Bytes) (a : Wal) (recs : ℕ → List Event) : Prop where
  snapshot : f.snapshot = a.snapshot.map (snapshotFile c)
  owned : ∀ s ∈ a.snapshot, s.sessionId = sessionId
  segment : ∀ s ∈ f.segments, Holds c (f.files s.2) (recs s.2)
  active : ∀ i ∈ f.active, ActiveHolds c (f.files i) (recs i)
  small : ∀ i ∈ f.logFiles, (f.files i).length ≤ eventLogMaxBytes
  fits : ∀ i ∈ f.logFiles, Fits c (recs i)
  nodup : f.logFiles.Nodup
  fresh : ∀ i ∈ f.logFiles, i < f.fresh
  ordered : (flat f recs).Pairwise (·.id < ·.id)
  follows : Follows a.boundary a.boundary (flat f recs)
  live : live a.boundary (flat f recs) = a.events
  /-- A segment's number is that of an event in some segment, or covered. -/
  named : ∀ s ∈ f.segments,
    s.1.first ≤ a.boundary ∨ ∃ t ∈ f.segments, ∃ e ∈ recs t.2, s.1.first ≤ e.id
  /-- Segments come before what the active log holds. -/
  before : ∀ s ∈ f.segments, ∀ i ∈ f.active, ∀ e ∈ recs i, s.1.first < e.id

/-- The open log: its descriptor is at the end of a file of complete records,
and no file after that one holds a record. -/
structure Running (d : SessionDir Bytes) (mem : SessionDisk) (a : Wal) (recs : ℕ → List Event) :
    Prop where
  recovers : Recovers c sessionId d a recs
  last : ∃ front back, d.logFiles = front ++ mem.events.inode :: back ∧ ∀ i ∈ back, recs i = []
  content : d.files mem.events.inode = logBytes c mem.events.checksummed (recs mem.events.inode)
  pos : mem.events.pos = (d.files mem.events.inode).length
  firstLe : ∀ e ∈ recs mem.events.inode, ∃ n, mem.events.firstEventId = some n ∧ n ≤ e.id
  firstAbove : d.active = some mem.events.inode → ∀ s ∈ d.segments,
    s.1.first < mem.events.firstEventId.getD (a.head + 1)
  firstBound : ∀ n ∈ mem.events.firstEventId, n ≤ a.head + 1
  /-- After a rotation that failed, `events.log` is another file, with no more
  than a header. -/
  detached : ∀ i ∈ d.active, i ≠ mem.events.inode → d.files i <+: eventLogHeader true

def sealedEvents {β : Type} (d : SessionDir β) (recs : ℕ → List Event) : List Event :=
  (d.sortedSegments.map Prod.snd).flatMap recs

/-- The directory stands for `a`, and after a loss of power for a part of `a` with all
that was synced: only the active log has unsynced changes. -/
structure Lasts (d : SessionDir (Cell Bytes)) (a : Wal) : Prop where
  recovers : ∃ recs, Recovers c sessionId (d.map Cell.now) a recs
  synced : a.synced ≤ a.events.length
  segments : ∀ s ∈ d.segments, ∃ x, d.files s.2 = Cell.stable x
  images : ∀ i ∈ d.active, ∀ b ∈ (d.files i).images, ∃ k recs, a.synced ≤ k ∧
    Recovers c sessionId ((d.map Cell.now).write i b) (a.take k) recs

/-- A running log that a stop cannot harm. -/
structure Lasting (w : World) (a : Wal) : Prop where
  attached : w.disk.active = some w.mem.events.inode
  lasts : Lasts c sessionId w.disk a

/-- The sidecar holds `consumers`, none of which is past `bound`. -/
structure AcksWithin (file : Option Bytes) (consumers : Std.ExtTreeMap String EventConsumer)
    (bound : ℕ) : Prop where
  file : readEventConsumersFile c file = .ok consumers
  bounded : ∀ (id : String) (consumer : EventConsumer), consumers[id]? = some consumer →
    consumer.acknowledgedEventId ≤ bound

variable {c sessionId}

section Basic

variable {β : Type} {d : SessionDir β} {recs : ℕ → List Event}

theorem mem_sortedSegments {s : SegmentName × ℕ} : s ∈ d.sortedSegments ↔ s ∈ d.segments :=
  List.mem_insertionSort _

theorem mem_logFiles : i ∈ d.logFiles ↔ (∃ s ∈ d.segments, s.2 = i) ∨ d.active = some i := by
  simp [SessionDir.logFiles, mem_sortedSegments]

@[simp] theorem SessionDir.write_files_self (d : SessionDir β) (i : ℕ) (x : β) :
    (d.write i x).files i = x := Function.update_self ..

theorem SessionDir.write_files_of_ne (d : SessionDir β) {i j : ℕ} (x : β) (h : j ≠ i) :
    (d.write i x).files j = d.files j := Function.update_of_ne h ..

theorem flat_eq_sealed (d : SessionDir β) (recs : ℕ → List Event) :
    flat d recs = sealedEvents d recs ++ d.active.toList.flatMap recs := by
  simp [flat, sealedEvents, SessionDir.logFiles]

theorem flat_congr {recs' : ℕ → List Event} (h : ∀ i ∈ d.logFiles, recs i = recs' i) :
    flat d recs = flat d recs' :=
  List.flatMap_congr h

end Basic

theorem follows_id_le {last : ℕ} {events : List Event} (h : Follows boundary last events)
    (hlast : boundary ≤ last) : ∀ e ∈ events, e.id ≤ last + (live boundary events).length := by
  induction events generalizing last with
  | nil => simp
  | cons x events ih =>
    have hcons := live_append boundary [x] events
    rw [List.singleton_append] at hcons
    rw [hcons, List.length_append]
    by_cases hstale : x.id ≤ boundary
    · rw [Follows, if_pos hstale] at h
      rintro e (_ | ⟨_, he⟩)
      · omega
      · have := ih h.2.2 hlast e he
        omega
    · rw [Follows, if_neg hstale] at h
      have hone : (live boundary [x]).length = 1 := by
        simp [live, Nat.lt_of_not_le hstale]
      rintro e (_ | ⟨_, he⟩)
      · omega
      · have := ih h.2 (by omega) e he
        omega

theorem Recovers.ids (h : Recovers c sessionId f a recs) :
    a.events.map Event.id = List.range' (a.boundary + 1) a.events.length := by
  have hids := follows_ids h.follows le_rfl
  rwa [h.live] at hids

theorem Recovers.id_le_head (h : Recovers c sessionId f a recs) {e : Event}
    (he : e ∈ flat f recs) : e.id ≤ a.head := by
  have := follows_id_le h.follows le_rfl e he
  rwa [h.live] at this

theorem Recovers.first_le_head (h : Recovers c sessionId f a recs) {s : SegmentName × ℕ}
    (hs : s ∈ f.segments) : s.1.first ≤ a.head := by
  rcases h.named s hs with hle | ⟨t, ht, e, he, hle⟩
  · exact hle.trans (Nat.le_add_right _ _)
  · exact hle.trans (h.id_le_head (List.mem_flatMap.mpr
      ⟨t.2, mem_logFiles.mpr (.inl ⟨t, ht, rfl⟩), he⟩))

/-- The snapshot, if any, is one that the reader accepts. -/
def Wal.SnapshotFits (c : Crates) (a : Wal) : Prop :=
  ∀ s ∈ a.snapshot, (c.snapshot.encode s).length ≤ maxFrameBytes

theorem openSession_oversized {s : SessionSnapshotData}
    (hfile : f.snapshot = some (snapshotFile c s))
    (hlarge : maxFrameBytes < (c.snapshot.encode s).length) :
    openSession c sessionId f = (f, .error (.snapshot .tooLarge)) := by
  have hlimit : (snapshotFile c s).length > snapshotFormat.fileLimit := by
    simp only [snapshotFile, writeSidecar, List.length_append, be16_length, be32_length,
      snapshotFormat]
    simp
    omega
  have hrefused : Asp.openSnapshot c sessionId f.snapshot = .error (.snapshot .tooLarge) := by
    rw [hfile]
    simp only [Asp.openSnapshot, readSnapshotFile, readSidecar, if_pos hlimit]
    rfl
  rw [openSession, hrefused]

def Wal.base (sha256 : Bytes → String) (a : Wal) : LoadedSession :=
  a.snapshot.elim {} (LoadedSession.fromSnapshot sha256)

theorem Wal.base_nextId (sha256 : Bytes → String) (a : Wal) : (a.base sha256).nextId = a.boundary := by
  unfold Wal.base Wal.boundary
  cases a.snapshot <;> rfl

theorem Recovers.openSnapshot (h : Recovers c sessionId f a recs) (hfits : a.SnapshotFits c) :
    Asp.openSnapshot c sessionId f.snapshot = .ok (a.base c.sha256) := by
  rw [Asp.openSnapshot, h.snapshot, Wal.base]
  cases hs : a.snapshot with
  | none => rfl
  | some s =>
    simp only [Option.map_some, readSnapshotFile_snapshotFile c (hfits s hs), Option.elim_some]
    rw [if_neg (by simpa using h.owned s hs)]

theorem Recovers.snapshotFits {opened : SessionDisk × LoadedSession}
    (h : Recovers c sessionId f a recs)
    (hopen : openSession c sessionId f = (d', .ok opened)) : a.SnapshotFits c := by
  intro s hs
  by_contra hlarge
  have hfile : f.snapshot = some (snapshotFile c s) := by rw [h.snapshot, hs, Option.map_some]
  rw [openSession_oversized hfile (Nat.lt_of_not_le hlarge)] at hopen
  exact absurd (Prod.mk.inj hopen).2 (by simp)

theorem loadSegments_ok {segments : List (SegmentName × ℕ)} {replay : Replay}
    (hholds : ∀ s ∈ segments, Holds c (d.files s.2) (recs s.2))
    (hsmall : ∀ s ∈ segments, (d.files s.2).length ≤ eventLogMaxBytes)
    (hfits : ∀ s ∈ segments, Fits c (recs s.2)) (hnodup : (segments.map Prod.snd).Nodup)
    (hcollected : replay.collected = none) (hnext : replay.loaded.nextId = replay.lastEventId)
    (hlast : boundary ≤ replay.lastEventId)
    (hordered : ∀ s ∈ segments, (recs s.2).Pairwise (·.id < ·.id))
    (hfollows : Follows boundary replay.lastEventId ((segments.map Prod.snd).flatMap recs)) :
    let events := live boundary ((segments.map Prod.snd).flatMap recs)
    let loaded := events.foldl (LoadedSession.push c.sha256) replay.loaded
    ∃ files, loadSegments c boundary segments d replay =
        ({ d with files := files }, .ok ⟨loaded, replay.lastEventId + events.length, none⟩) ∧
      loaded.nextId = replay.lastEventId + events.length ∧
      (∀ s ∈ segments, repairHeader false (d.files s.2) = .ok (files s.2)) ∧
      (∀ s ∈ segments, (files s.2).length ≤ eventLogMaxBytes) ∧
      ∀ i ∉ segments.map Prod.snd, files i = d.files i := by
  induction segments generalizing d replay with
  | nil =>
    obtain ⟨loaded, last, collected⟩ := replay
    obtain rfl : collected = none := hcollected
    exact ⟨d.files, rfl, hnext, by simp, by simp, fun _ _ => rfl⟩
  | cons s segments ih =>
    simp only [List.map_cons, List.flatMap_cons, List.nodup_cons, follows_append] at hnodup hfollows ⊢
    obtain ⟨hs, hnodup⟩ := hnodup
    obtain ⟨hfollow, hfollows⟩ := hfollows
    obtain ⟨checksummed, hrepair, hsize⟩ := (hholds s (List.mem_cons_self ..)).repair
    obtain ⟨hload, hloaded⟩ := loadEventLog_ok
      (by rw [List.append_nil]; exact hrepair) (hfits s (List.mem_cons_self ..))
      (torn_nil checksummed) (.inr rfl) (hsize (hsmall s (List.mem_cons_self ..))) hcollected hnext
      hlast (hordered s (List.mem_cons_self ..)) hfollow
    have hother : ∀ t ∈ segments,
        (d.write s.2 (logBytes c checksummed (recs s.2))).files t.2 = d.files t.2 := by
      intro t ht
      have hne : t.2 ≠ s.2 := fun h => hs (h ▸ List.mem_map_of_mem ht)
      simp [SessionDir.write, Function.update_of_ne hne]
    obtain ⟨files, hrest, hnext', hheaders, hsmall', hsame⟩ := @ih
      (d.write s.2 (logBytes c checksummed (recs s.2)))
      ⟨(live boundary (recs s.2)).foldl (LoadedSession.push c.sha256) replay.loaded,
        replay.lastEventId + (live boundary (recs s.2)).length, none⟩
      (fun t ht => by rw [hother t ht]; exact hholds t (List.mem_cons_of_mem _ ht))
      (fun t ht => by rw [hother t ht]; exact hsmall t (List.mem_cons_of_mem _ ht))
      (fun t ht => hfits t (List.mem_cons_of_mem _ ht)) hnodup rfl hloaded
      (hlast.trans (Nat.le_add_right _ _))
      (fun t ht => hordered t (List.mem_cons_of_mem _ ht)) hfollows
    have hself : files s.2 = logBytes c checksummed (recs s.2) := by
      rw [hsame s.2 hs]
      simp [SessionDir.write]
    refine ⟨files, ?_, ?_, ?_, ?_, ?_⟩
    · rw [loadSegments, hload]
      simp only [hrest, live_append, List.foldl_append, List.length_append, Nat.add_assoc]
      rfl
    · simpa only [live_append, List.foldl_append, List.length_append, Nat.add_assoc] using hnext'
    · rintro t (_ | ⟨_, ht⟩)
      · rwa [hself]
      · rw [← hother t ht]
        exact hheaders t ht
    · rintro t (_ | ⟨_, ht⟩)
      · rw [hself]
        exact hsize (hsmall s (List.mem_cons_self ..))
      · exact hsmall' t ht
    · intro i hi
      rw [List.mem_cons, not_or] at hi
      rw [hsame i hi.2]
      simp [SessionDir.write, Function.update_of_ne hi.1]

theorem checkConsumers_ok {consumers : Std.ExtTreeMap String EventConsumer} {head : ℕ} :
    checkConsumers consumers head = .ok () ↔
      ∀ (id : String) (consumer : EventConsumer), consumers[id]? = some consumer →
        consumer.acknowledgedEventId ≤ head := by
  unfold checkConsumers
  split
  · rename_i id consumer hfind
    obtain ⟨hmem, hack⟩ : (id, consumer) ∈ consumers.toList ∧ consumer.acknowledgedEventId > head :=
      ⟨List.mem_of_find?_eq_some hfind, by simpa using List.find?_some hfind⟩
    rw [Std.ExtTreeMap.mem_toList_iff_getElem?_eq_some] at hmem
    simp only [reduceCtorEq, false_iff, not_forall]
    exact ⟨id, consumer, hmem, by omega⟩
  · rename_i hnone
    simp only [true_iff]
    intro id consumer hc
    rw [← Std.ExtTreeMap.mem_toList_iff_getElem?_eq_some] at hc
    have := List.find?_eq_none.mp hnone _ hc
    simpa using this

theorem Recovers.rewrite (h : Recovers c sessionId f a recs) (files : ℕ → Bytes)
    (hsegment : ∀ s ∈ f.segments, Holds c (files s.2) (recs s.2))
    (hactive : ∀ i ∈ f.active, ActiveHolds c (files i) (recs i))
    (hsmall : ∀ i ∈ f.logFiles, (files i).length ≤ eventLogMaxBytes) :
    Recovers c sessionId { f with files := files } a recs :=
  { h with segment := hsegment, active := hactive, small := hsmall }

def newActive (f : SessionDir Bytes) (x : Bytes) : SessionDir Bytes :=
  { f.write f.fresh x with active := some f.fresh, fresh := f.fresh + 1 }

theorem Recovers.newActive {x : Bytes} (h : Recovers c sessionId f a recs)
    (hactive : f.active = none) (hx : x.length < headerLen) :
    Recovers c sessionId (Asp.newActive f x) a (Function.update recs f.fresh []) := by
  have hfiles : (Asp.newActive f x).logFiles = f.logFiles ++ [f.fresh] := by
    simp [SessionDir.logFiles, hactive, Asp.newActive, SessionDir.sortedSegments, SessionDir.write]
  have hnew : f.fresh ∉ f.logFiles := fun hmem => absurd (h.fresh _ hmem) (lt_irrefl _)
  have hold : ∀ i ∈ f.logFiles, i ≠ f.fresh := fun i hi heq => hnew (heq ▸ hi)
  have hcontent : ∀ i ∈ f.logFiles, (Asp.newActive f x).files i = f.files i :=
    fun i hi => Function.update_of_ne (hold i hi) _ _
  have hself : (Asp.newActive f x).files f.fresh = x := Function.update_self ..
  set recs' := Function.update recs f.fresh [] with hrecs'
  have hrecs : ∀ i ∈ f.logFiles, recs' i = recs i :=
    fun i hi => Function.update_of_ne (hold i hi) _ _
  have hempty : recs' f.fresh = [] := Function.update_self ..
  have hsegment : ∀ s ∈ f.segments, s.2 ∈ f.logFiles :=
    fun s hs => mem_logFiles.mpr (.inl ⟨s, hs, rfl⟩)
  have hflat : flat (Asp.newActive f x) recs' = flat f recs := by
    rw [flat, hfiles, List.flatMap_append, List.flatMap_singleton, hempty, List.append_nil]
    exact flat_congr hrecs
  have hcases : ∀ {p : ℕ → Prop}, (∀ i ∈ f.logFiles, p i) → p f.fresh →
      ∀ i ∈ (Asp.newActive f x).logFiles, p i := by
    intro p hp hfresh i hi
    rw [hfiles, List.mem_append, List.mem_singleton] at hi
    rcases hi with hi | rfl
    · exact hp i hi
    · exact hfresh
  refine
    { snapshot := h.snapshot, owned := h.owned, segment := ?_, active := ?_
      small := ?_, fits := ?_, nodup := ?_, fresh := ?_
      ordered := by rw [hflat]; exact h.ordered
      follows := by rw [hflat]; exact h.follows
      live := by rw [hflat]; exact h.live
      named := ?_, before := ?_ }
  · intro s hs
    rw [hcontent _ (hsegment s hs), hrecs _ (hsegment s hs)]
    exact h.segment s hs
  · intro i hi
    obtain rfl : f.fresh = i := Option.some.inj hi
    rw [hself, hempty]
    exact .inl ⟨hx, rfl⟩
  · refine hcases (fun i hi => ?_) ?_
    · rw [hcontent i hi]
      exact h.small i hi
    · rw [hself]
      exact hx.le.trans (by decide)
  · refine hcases (fun i hi => ?_) ?_
    · rw [hrecs i hi]
      exact h.fits i hi
    · rw [hempty]
      exact fun e he => absurd he (List.not_mem_nil)
  · rw [hfiles]
    exact List.nodup_append.mpr ⟨h.nodup, List.nodup_singleton _, fun i hi j hj => by
      rw [List.mem_singleton.mp hj]; exact hold i hi⟩
  · exact hcases (fun i hi => (h.fresh i hi).trans (Nat.lt_succ_self _)) (Nat.lt_succ_self _)
  · intro s hs
    rcases h.named s hs with hcovered | ⟨t, ht, e, he, hle⟩
    · exact .inl hcovered
    refine .inr ⟨t, ht, e, ?_, hle⟩
    rwa [hrecs _ (hsegment t ht)]
  · intro s _ i hi e he
    obtain rfl : f.fresh = i := Option.some.inj hi
    rw [hempty] at he
    exact absurd he (List.not_mem_nil)

section

variable (h : Recovers c sessionId f a recs)

include h

theorem Recovers.createActive :
    ∃ recs', Recovers c sessionId (Asp.createActive f).1 a recs' ∧
      (Asp.createActive f).1.active = some (Asp.createActive f).2 ∧
      (Asp.createActive f).1.segments = f.segments ∧
      ∀ s ∈ f.segments, recs' s.2 = recs s.2 := by
  cases hactive : f.active with
  | some i =>
    have hsame : Asp.createActive f = (f, i) := by simp [Asp.createActive, hactive]
    rw [hsame]
    exact ⟨recs, h, hactive, rfl, fun _ _ => rfl⟩
  | none =>
    have hnew : Asp.createActive f = (Asp.newActive f [], f.fresh) := by
      simp [Asp.createActive, hactive, Asp.newActive]
    rw [hnew]
    refine ⟨_, h.newActive hactive (by decide), rfl, rfl, fun s hs => ?_⟩
    have := h.fresh s.2 (mem_logFiles.mpr (.inl ⟨s, hs, rfl⟩))
    exact Function.update_of_ne (by omega) _ _

theorem Recovers.segment_ne_active (hactive : f.active = some i) {s : SegmentName × ℕ}
    (hs : s ∈ f.segments) : s.2 ≠ i := by
  rintro rfl
  have hnodup := h.nodup
  rw [SessionDir.logFiles, List.nodup_append] at hnodup
  exact hnodup.2.2 s.2 (List.mem_map_of_mem (mem_sortedSegments.mpr hs)) s.2 (by simp [hactive]) rfl

theorem Recovers.setActive {b : Bytes} (hactive : f.active = some i)
    (hholds : ActiveHolds c b (recs i)) (hsmall : b.length ≤ eventLogMaxBytes) :
    Recovers c sessionId (f.write i b) a recs := by
  refine h.rewrite (f.write i b).files ?_ ?_ ?_
  · intro s hs
    rw [SessionDir.write_files_of_ne _ _ (h.segment_ne_active hactive hs)]
    exact h.segment s hs
  · intro j hj
    obtain rfl : i = j := Option.some.inj (hactive.symm.trans hj)
    rwa [SessionDir.write_files_self]
  · intro j hj
    by_cases hji : j = i
    · rwa [hji, SessionDir.write_files_self]
    · rw [SessionDir.write_files_of_ne _ _ hji]
      exact h.small j hj

theorem Recovers.ordered_file (hi : i ∈ f.logFiles) : (recs i).Pairwise (·.id < ·.id) :=
  (List.pairwise_flatMap.mp h.ordered).1 i hi

theorem Recovers.loadSegments :
    let events := Asp.live a.boundary (sealedEvents f recs)
    let loaded := events.foldl (LoadedSession.push c.sha256) (a.base c.sha256)
    ∃ files, Asp.loadSegments c a.boundary f.sortedSegments f
        ⟨a.base c.sha256, a.boundary, none⟩ =
        ({ f with files := files }, .ok ⟨loaded, a.boundary + events.length, none⟩) ∧
      loaded.nextId = a.boundary + events.length ∧
      Recovers c sessionId { f with files := files } a recs ∧
      (∀ s ∈ f.segments, repairHeader false (f.files s.2) = .ok (files s.2)) ∧
      ∀ i, (∀ s ∈ f.segments, s.2 ≠ i) → files i = f.files i := by
  have hin : ∀ s ∈ f.sortedSegments, s ∈ f.segments ∧ s.2 ∈ f.logFiles :=
    fun s hs => ⟨mem_sortedSegments.mp hs, mem_logFiles.mpr (.inl ⟨s, mem_sortedSegments.mp hs, rfl⟩)⟩
  have hfollows := h.follows
  rw [flat_eq_sealed, follows_append] at hfollows
  have hnodup := h.nodup
  rw [SessionDir.logFiles, List.nodup_append] at hnodup
  obtain ⟨files, hload, hnext, hheaders, hsmall, hsame⟩ := @loadSegments_ok c a.boundary f
    recs f.sortedSegments ⟨a.base c.sha256, a.boundary, none⟩
    (fun s hs => h.segment s (hin s hs).1) (fun s hs => h.small _ (hin s hs).2)
    (fun s hs => h.fits _ (hin s hs).2) hnodup.1 rfl (a.base_nextId c.sha256) le_rfl
    (fun s hs => h.ordered_file (hin s hs).2) hfollows.1
  have hactive : ∀ i ∈ f.active, files i = f.files i := by
    intro i hi
    refine hsame i fun hmem => ?_
    exact hnodup.2.2 i hmem i (by simpa using hi) rfl
  have hrepaired : ∀ s ∈ f.segments, repairHeader false (f.files s.2) = .ok (files s.2) :=
    fun s hs => hheaders s (mem_sortedSegments.mpr hs)
  refine ⟨files, hload, hnext, h.rewrite _ ?_ ?_ ?_, hrepaired, fun i hi => hsame i fun hmem => ?_⟩
  · exact fun s hs => .inr ((h.segment s hs).repaired (hrepaired s hs))
  · intro i hi
    rw [hactive i hi]
    exact h.active i hi
  · intro i hi
    rcases mem_logFiles.mp hi with ⟨s, hs, rfl⟩ | hi'
    · exact hsmall s (mem_sortedSegments.mpr hs)
    · rw [hactive i hi']
      exact h.small i hi
  · obtain ⟨s, hs, rfl⟩ := List.mem_map.mp hmem
    exact hi s (mem_sortedSegments.mp hs) rfl

end

theorem Recovers.loadActive {checksummed : Bool} {torn : Bytes} (h : Recovers c sessionId f a recs)
    (hactive : f.active = some i)
    (hrepair : repairHeader true (f.files i) = .ok (logBytes c checksummed (recs i) ++ torn))
    (htorn : Torn c checksummed torn)
    (hsize : (logBytes c checksummed (recs i)).length ≤ eventLogMaxBytes)
    (hnext : ((Asp.live a.boundary (sealedEvents f recs)).foldl (LoadedSession.push c.sha256)
      (a.base c.sha256)).nextId =
        a.boundary + (Asp.live a.boundary (sealedEvents f recs)).length) :
    loadEventLog c true (f.files i) a.boundary true
        ⟨(Asp.live a.boundary (sealedEvents f recs)).foldl (LoadedSession.push c.sha256)
          (a.base c.sha256), a.boundary + (Asp.live a.boundary (sealedEvents f recs)).length, none⟩ =
        .ok ⟨logBytes c checksummed (recs i), checksummed, (recs i).head?.map Event.id,
          ⟨a.replay c.sha256, a.head, none⟩⟩ ∧
      (a.replay c.sha256).nextId = a.head := by
  have hi : i ∈ f.logFiles := mem_logFiles.mpr (.inr hactive)
  have hflat : flat f recs = sealedEvents f recs ++ recs i := by
    rw [flat_eq_sealed, hactive]
    simp
  have hfollows := h.follows
  have hlive := h.live
  rw [hflat, follows_append] at hfollows
  rw [hflat, live_append] at hlive
  obtain ⟨hload, hloaded⟩ := @loadEventLog_ok c a.boundary _ _ _ _ _
    ⟨_, a.boundary + (Asp.live a.boundary (sealedEvents f recs)).length, none⟩ hrepair
    (h.fits i hi) htorn (.inl rfl) hsize rfl hnext (Nat.le_add_right _ _)
    (h.ordered_file hi) hfollows.2
  simp only [← List.foldl_append, hlive, Nat.add_assoc, ← List.length_append] at hload hloaded
  exact ⟨hload, hloaded⟩

theorem Recovers.running {checksummed : Bool} (h : Recovers c sessionId d a recs)
    (hactive : d.active = some i) (hfile : d.files i = logBytes c checksummed (recs i))
    (hevents : mem.events = ⟨i, (d.files i).length, checksummed, (recs i).head?.map Event.id, 0⟩) :
    Running c sessionId d mem a recs := by
  have hi : i ∈ d.logFiles := mem_logFiles.mpr (.inr hactive)
  have hinode : mem.events.inode = i := by rw [hevents]
  have hfirst : mem.events.firstEventId = (recs i).head?.map Event.id := by rw [hevents]
  refine ⟨h, ?_, ?_, ?_, ?_, ?_, ?_, ?_⟩
  · rw [hinode]
    exact ⟨d.sortedSegments.map Prod.snd, [], by simp [SessionDir.logFiles, hactive], by simp⟩
  · rwa [hinode, hevents]
  · rw [hinode, hevents]
  · rw [hinode, hfirst]
    intro e he
    cases hrecs : recs i with
    | nil =>
      rw [hrecs] at he
      exact absurd he (List.not_mem_nil)
    | cons x events =>
      have hordered := h.ordered_file hi
      rw [hrecs] at hordered he
      refine ⟨x.id, rfl, ?_⟩
      rcases List.mem_cons.mp he with rfl | he
      · exact le_rfl
      · exact ((List.pairwise_cons.mp hordered).1 e he).le
  · intro _ s hs
    rw [hfirst]
    cases hrecs : recs i with
    | nil => exact Nat.lt_succ_of_le (h.first_le_head hs)
    | cons x events =>
      exact h.before s hs i hactive x (by rw [hrecs]; exact List.mem_cons_self ..)
  · rw [hfirst]
    intro n hn
    obtain ⟨e, he, rfl⟩ := Option.map_eq_some_iff.mp hn
    have := h.id_le_head (List.mem_flatMap.mpr ⟨i, hi, List.mem_of_mem_head? he⟩)
    omega
  · rw [hinode]
    exact fun j hj hne => absurd (Option.some.inj (hj.symm.trans hactive)) hne

structure Listed (d : SessionDir Bytes) (mem : SessionDisk) (a : Wal) : Prop where
  segments : mem.segments = d.sortedSegments.map Prod.fst
  boundary : mem.snapshotBoundary = a.boundary
  whole : ∀ s ∈ d.segments, d.files s.2 ≠ []
  distinct : (d.segments.map Prod.fst).Nodup

/-- What `open` does to the files: headers of segments that had none, and the active log. -/
structure Repaired (f d' : SessionDir Bytes) (i : ℕ) : Prop where
  segments : d'.segments = f.segments
  headers : ∀ s ∈ f.segments, repairHeader false (f.files s.2) = .ok (d'.files s.2)
  kept : d' = { f with files := d'.files } ∨ i = f.fresh

theorem createActive_kept (f : SessionDir Bytes) :
    (createActive f).1 = f ∨ (createActive f).2 = f.fresh := by
  unfold createActive
  split
  · exact .inl rfl
  · exact .inr rfl

theorem createActive_files (hi : i < f.fresh) : (createActive f).1.files i = f.files i := by
  unfold createActive
  split
  · rfl
  · exact Function.update_of_ne hi.ne _ _

def openedDisk (d : SessionDir Bytes) (events : EventFile) (boundary : ℕ) : SessionDisk where
  events := events
  segments := d.sortedSegments.map Prod.fst
  snapshotBoundary := boundary
  totalBytes := (d.files events.inode).length +
    (d.sortedSegments.map fun segment => (d.files segment.2).length).sum

/-- What `open` leaves: whole files, and the store for them. -/
structure Whole (c : Crates) (d : SessionDir Bytes) (mem : SessionDisk) (a : Wal)
    (recs : ℕ → List Event) : Prop where
  mem : mem = openedDisk d ⟨mem.events.inode, (d.files mem.events.inode).length,
    mem.events.checksummed, (recs mem.events.inode).head?.map Event.id, 0⟩ a.boundary
  segments : ∀ s ∈ d.segments, ∃ checksummed, d.files s.2 = logBytes c checksummed (recs s.2)

/-- What is left of `open` once the log is read: the consumers. -/
def openConsumers (c : Crates) (d : SessionDir Bytes) (mem : SessionDisk) (loaded : LoadedSession) :
    SessionDir Bytes × Except OpenError (SessionDisk × LoadedSession) :=
  match readEventConsumersFile c d.consumers with
  | .error e => (d, .error (.consumers e))
  | .ok consumers =>
      match checkConsumers consumers loaded.nextId with
      | .error e => (d, .error e)
      | .ok () => (d, .ok (mem, { loaded with eventConsumers := consumers }))

theorem openSession_loads (h : Recovers c sessionId f a recs) (hfits : a.SnapshotFits c) :
    ∃ d' mem recs', openSession c sessionId f = openConsumers c d' mem (a.replay c.sha256) ∧
      (a.replay c.sha256).nextId = a.head ∧ d'.consumers = f.consumers ∧
      d'.active = some mem.events.inode ∧ Running c sessionId d' mem a recs' ∧
      ((f.segments.map Prod.fst).Nodup → Listed d' mem a) ∧ Repaired f d' mem.events.inode ∧
      Whole c d' mem a recs' := by
  obtain ⟨files, hsegments, hnext, h₁, hheaders, -⟩ := h.loadSegments
  obtain ⟨recs', h₂, hactive, hsegs, hrecs⟩ := h₁.createActive
  have hsealed : sealedEvents (createActive { f with files := files }).1 recs' =
      sealedEvents f recs := by
    rw [sealedEvents, SessionDir.sortedSegments, hsegs]
    refine List.flatMap_congr fun i hi => ?_
    obtain ⟨s, hs, rfl⟩ := List.mem_map.mp hi
    exact hrecs s ((List.mem_insertionSort _).mp hs)
  rw [← hsealed] at hsegments hnext
  obtain ⟨checksummed, torn, hrepair, htorn, hbound⟩ := (h₂.active _ hactive).repair
  have hsize := hbound (h₂.small _ (mem_logFiles.mpr (.inr hactive)))
  obtain ⟨hload, hhead⟩ := h₂.loadActive hactive hrepair htorn hsize hnext
  have hcons : (createActive { f with files := files }).1.consumers = f.consumers := by
    unfold createActive
    split <;> rfl
  have hheaders' : ∀ s ∈ f.segments, repairHeader false (f.files s.2) =
      .ok ((createActive { f with files := files }).1.files s.2) := by
    intro s hs
    rw [createActive_files (h₁.fresh s.2 (mem_logFiles.mpr (.inl ⟨s, hs, rfl⟩)))]
    exact hheaders s hs
  have hkept := createActive_kept { f with files := files }
  generalize hcreated : createActive { f with files := files } = created at *
  obtain ⟨d₂, i⟩ := created
  simp only at *
  have hself := d₂.write_files_self i (logBytes c checksummed (recs' i))
  have hrepaired : ∀ s ∈ f.segments, repairHeader false (f.files s.2) =
      .ok ((d₂.write i (logBytes c checksummed (recs' i))).files s.2) := by
    intro s hs
    rw [SessionDir.write_files_of_ne _ _ (h₂.segment_ne_active hactive (hsegs ▸ hs))]
    exact hheaders' s hs
  have h₃ := h₂.setActive hactive (Holds.active (.inr ⟨checksummed, rfl⟩)) hsize
  have hwhole : ∀ s ∈ d₂.segments, ∃ format,
      (d₂.write i (logBytes c checksummed (recs' i))).files s.2 = logBytes c format (recs' s.2) := by
    intro s hs
    rw [hrecs s (hsegs ▸ hs)]
    exact (h.segment s (hsegs ▸ hs)).repaired (hrepaired s (hsegs ▸ hs))
  refine ⟨d₂.write i (logBytes c checksummed (recs' i)),
    openedDisk (d₂.write i (logBytes c checksummed (recs' i)))
      ⟨i, (logBytes c checksummed (recs' i)).length, checksummed,
        (recs' i).head?.map Event.id, 0⟩ a.boundary, recs', ?_, hhead, hcons, hactive,
    h₃.running hactive hself ?_, fun hdistinct => ⟨rfl, rfl, ?_, ?_⟩, ⟨hsegs, hrepaired, ?_⟩, ?_, hwhole⟩
  · have hsorted : d₂.sortedSegments = f.sortedSegments := by
      rw [SessionDir.sortedSegments, SessionDir.sortedSegments, hsegs]
    have hsorted' : (d₂.write i (logBytes c checksummed (recs' i))).sortedSegments =
        f.sortedSegments := hsorted
    simp only [openSession, h.openSnapshot hfits, a.base_nextId, hsegments, hcreated, hload,
      openedDisk, hself, hsorted']
    rfl
  · rw [openedDisk, hself]
  · intro s hs
    obtain ⟨format, hfile⟩ := hwhole s hs
    rw [hfile]
    exact logBytes_ne_nil c format _
  · show (d₂.segments.map Prod.fst).Nodup
    rwa [hsegs]
  · refine hkept.imp_left fun hsame => ?_
    rw [hsame]
    rfl
  · simp only [openedDisk, hself]

theorem Running.reopens (h : Running c sessionId d mem a recs) (hwhole : Whole c d mem a recs)
    (hactive : d.active = some mem.events.inode) (hfits : a.SnapshotFits c) :
    openSession c sessionId d = openConsumers c d mem (a.replay c.sha256) := by
  obtain ⟨files, hsegments, hnext, -, hheaders, hsame⟩ := h.recovers.loadSegments
  have hfiles : files = d.files := by
    funext i
    by_cases hi : ∀ s ∈ d.segments, s.2 ≠ i
    · exact hsame i hi
    simp only [not_forall, not_not] at hi
    obtain ⟨s, hs, rfl⟩ := hi
    obtain ⟨checksummed, hfile⟩ := hwhole.segments s hs
    have hheader := hheaders s hs
    rw [hfile, repairHeader_logBytes] at hheader
    rw [hfile]
    exact (Except.ok.inj hheader).symm
  have hmem : mem.events.inode ∈ d.logFiles := mem_logFiles.mpr (.inr hactive)
  have hrepair : repairHeader true (d.files mem.events.inode) =
      .ok (logBytes c mem.events.checksummed (recs mem.events.inode) ++ []) := by
    rw [h.content, repairHeader_logBytes, List.append_nil]
  obtain ⟨hload, -⟩ := h.recovers.loadActive hactive hrepair (torn_nil _)
    (h.content ▸ h.recovers.small _ hmem) hnext
  have hcreated : createActive d = (d, mem.events.inode) := by
    simp [createActive, hactive]
  rw [hfiles] at hsegments
  have hwrite : d.write mem.events.inode
      (logBytes c mem.events.checksummed (recs mem.events.inode)) = d := by
    rw [← h.content, SessionDir.write, Function.update_eq_self]
  simp only [openSession, h.recovers.openSnapshot hfits, a.base_nextId, hsegments, hcreated, hload,
    hwrite]
  rw [hwhole.mem, openedDisk, ← h.content]
  rfl

theorem openConsumers_ok {mem' : SessionDisk} {loaded' : LoadedSession} :
    openConsumers c d mem loaded = (d', .ok (mem', loaded')) ↔
      d' = d ∧ mem' = mem ∧ loaded' = { loaded with eventConsumers := loaded'.eventConsumers } ∧
        AcksWithin c d.consumers loaded'.eventConsumers loaded.nextId := by
  unfold openConsumers
  constructor
  · intro h
    split at h
    · cases h
    rename_i consumers hread
    split at h
    · cases h
    rename_i hchecked
    obtain ⟨rfl, hok⟩ := Prod.mk.inj h
    cases hok
    exact ⟨rfl, rfl, rfl, hread, checkConsumers_ok.mp hchecked⟩
  · rintro ⟨rfl, rfl, hloaded, hread, hbounded⟩
    simp only [hread, checkConsumers_ok.mpr hbounded]
    rw [← hloaded]

theorem openSession_of_recovers {consumers : Std.ExtTreeMap String EventConsumer}
    (h : Recovers c sessionId f a recs) (hfits : a.SnapshotFits c)
    (hacks : AcksWithin c f.consumers consumers a.head) :
    ∃ d' mem, openSession c sessionId f =
        (d', .ok (mem, { a.replay c.sha256 with eventConsumers := consumers })) := by
  obtain ⟨d', mem, recs', hopen, hhead, hcons, -⟩ := openSession_loads h hfits
  refine ⟨d', mem, hopen.trans (openConsumers_ok.mpr ⟨rfl, rfl, rfl, ?_⟩)⟩
  rwa [hcons, hhead]

section

variable (h : Recovers c sessionId f a recs)

include h

theorem Recovers.replay_nextId (hfits : a.SnapshotFits c) :
    (a.replay c.sha256).nextId = a.head := by
  obtain ⟨-, -, -, -, hhead, -⟩ := openSession_loads h hfits
  exact hhead

section

variable (hopen : openSession c sessionId f = (d', .ok (mem, loaded)))

include hopen

theorem Recovers.opened :
    loaded.nextId = a.head ∧ AcksWithin c d'.consumers loaded.eventConsumers a.head ∧
      d'.active = some mem.events.inode ∧ (∃ recs', Running c sessionId d' mem a recs') ∧
      ((f.segments.map Prod.fst).Nodup → Listed d' mem a) ∧
      loaded = { a.replay c.sha256 with eventConsumers := loaded.eventConsumers } := by
  obtain ⟨d₁, mem₁, recs', heq, hhead, -, hactive, hrun, hlisted, -, -⟩ :=
    openSession_loads h (h.snapshotFits hopen)
  rw [heq, openConsumers_ok] at hopen
  obtain ⟨rfl, rfl, hloaded, hacks⟩ := hopen
  refine ⟨?_, hhead ▸ hacks, hactive, ⟨recs', hrun⟩, hlisted, hloaded⟩
  rwa [hloaded]

theorem Recovers.opened_consumers : d'.consumers = f.consumers := by
  obtain ⟨d₁, mem₁, -, heq, -, hcons, -⟩ := openSession_loads h (h.snapshotFits hopen)
  rw [heq, openConsumers_ok] at hopen
  rw [hopen.1, hcons]

theorem Recovers.opened_repaired : Repaired f d' mem.events.inode := by
  obtain ⟨d₁, mem₁, -, heq, -, -, -, -, -, hrepaired, -⟩ :=
    openSession_loads h (h.snapshotFits hopen)
  rw [heq, openConsumers_ok] at hopen
  rwa [hopen.1, hopen.2.1]

theorem Recovers.opened_again : openSession c sessionId d' = (d', .ok (mem, loaded)) := by
  have hfits := h.snapshotFits hopen
  obtain ⟨d₁, mem₁, recs', heq, -, -, hactive, hrun, -, -, hwhole⟩ := openSession_loads h hfits
  rw [heq, openConsumers_ok] at hopen
  obtain ⟨rfl, rfl, hopened⟩ := hopen
  rw [hrun.reopens hwhole hactive hfits, openConsumers_ok]
  exact ⟨rfl, rfl, hopened⟩

end

end

theorem loadSegments_sound {segments : List (SegmentName × ℕ)} {replay replay' : Replay}
    (hnodup : (segments.map Prod.snd).Nodup) (hcollected : replay.collected = none)
    (hnext : replay.loaded.nextId = replay.lastEventId) (hlast : boundary ≤ replay.lastEventId)
    (h : loadSegments c boundary segments d replay = (d', .ok replay')) :
    ∃ recs : ℕ → List Event, (∀ s ∈ segments, ReadsAs c false (d.files s.2) (recs s.2)) ∧
      Follows boundary replay.lastEventId ((segments.map Prod.snd).flatMap recs) ∧
      replay' = ⟨(live boundary ((segments.map Prod.snd).flatMap recs)).foldl
          (LoadedSession.push c.sha256) replay.loaded,
        replay.lastEventId + (live boundary ((segments.map Prod.snd).flatMap recs)).length, none⟩ ∧
      replay'.loaded.nextId = replay'.lastEventId ∧
      ∃ files, d' = { d with files := files } ∧ ∀ i ∉ segments.map Prod.snd, files i = d.files i := by
  induction segments generalizing d replay with
  | nil =>
    obtain ⟨rfl, hreplay⟩ := Prod.mk.inj h
    obtain rfl := Except.ok.inj hreplay
    obtain ⟨loaded, last, collected⟩ := replay
    obtain rfl : collected = none := hcollected
    exact ⟨fun _ => [], by simp, trivial, rfl, hnext, d.files, rfl, fun _ _ => rfl⟩
  | cons s segments ih =>
    rw [List.map_cons, List.nodup_cons] at hnodup
    obtain ⟨hs, hnodup⟩ := hnodup
    unfold loadSegments at h
    split at h
    · cases h
    · cases h
    rename_i log hload
    obtain ⟨events, hreads, hfollow, -, hreplay, hlogNext⟩ :=
      loadEventLog_sound hcollected hnext hlast hload
    have hother : ∀ i, i ≠ s.2 → (d.write s.2 log.content).files i = d.files i :=
      fun i hi => Function.update_of_ne hi _ _
    obtain ⟨recs, hall, hfollows, hreplay', hnext', files, rfl, hsame⟩ := ih hnodup
      (by rw [hreplay]) hlogNext (by rw [hreplay]; exact hlast.trans (Nat.le_add_right _ _)) h
    have hrest : (segments.map Prod.snd).flatMap (Function.update recs s.2 events) =
        (segments.map Prod.snd).flatMap recs :=
      List.flatMap_congr fun i hi => Function.update_of_ne (fun (heq : i = s.2) => hs (heq ▸ hi)) _ _
    refine ⟨Function.update recs s.2 events, ?_, ?_, ?_, hnext', files, rfl, ?_⟩
    · rintro t (_ | ⟨_, ht⟩)
      · rwa [Function.update_self]
      · have hne : t.2 ≠ s.2 := fun heq => hs (heq ▸ List.mem_map_of_mem ht)
        rw [Function.update_of_ne hne, ← hother _ hne]
        exact hall t ht
    · rw [List.map_cons, List.flatMap_cons, Function.update_self, hrest, follows_append]
      rw [hreplay] at hfollows
      exact ⟨hfollow, hfollows⟩
    · rw [hreplay', hreplay, List.map_cons, List.flatMap_cons, Function.update_self, hrest,
        live_append, List.foldl_append, List.length_append, Nat.add_assoc]
    · intro i hi
      rw [List.map_cons, List.mem_cons, not_or] at hi
      rw [hsame i hi.2, hother i hi.1]

theorem ReadsAs.nil {create : Bool} {events : List Event} (h : ReadsAs c create [] events) :
    events = [] := by
  obtain ⟨checksummed, entries, torn, hrepair, rfl, -⟩ := h
  have hlen := congrArg List.length (Except.ok.inj (show Except.ok (eventLogHeader true) = _ from hrepair))
  simp only [List.length_append, eventLogHeader_length] at hlen
  cases entries with
  | nil => rfl
  | cons entry entries =>
    have := frame_length_pos (crcOf c checksummed) entry.1
    rw [framed_cons, List.length_append] at hlen
    omega

/-- When a session opens, every file is a header and complete valid frames,
the active log apart from a torn tail, and the tables are those of all of them. -/
theorem openSession_sound (hnodup : f.logFiles.Nodup)
    (h : openSession c sessionId f = (d', .ok (mem, loaded))) :
    ∃ base recs, openSnapshot c sessionId f.snapshot = .ok base ∧
      (∀ s ∈ f.segments, ReadsAs c false (f.files s.2) (recs s.2)) ∧
      (∀ i ∈ f.active, ReadsAs c true (f.files i) (recs i)) ∧
      Follows base.nextId base.nextId (flat f recs) ∧
      loaded = { (live base.nextId (flat f recs)).foldl (LoadedSession.push c.sha256) base with
        eventConsumers := loaded.eventConsumers } := by
  unfold openSession at h
  cases hsnapshot : openSnapshot c sessionId f.snapshot with
  | error e => simp only [hsnapshot, Prod.mk.injEq, reduceCtorEq, and_false] at h
  | ok base =>
    simp only [hsnapshot] at h
    rw [SessionDir.logFiles, List.nodup_append] at hnodup
    cases hsegments : loadSegments c base.nextId f.sortedSegments f ⟨base, base.nextId, none⟩ with
    | mk d₁ result =>
      cases result with
      | error e => simp only [hsegments, Prod.mk.injEq, reduceCtorEq, and_false] at h
      | ok replay =>
        simp only [hsegments] at h
        obtain ⟨recs, hall, hfollows, hreplay, hnext, files, rfl, hsame⟩ :=
          loadSegments_sound hnodup.1 rfl rfl (Nat.le_refl base.nextId) hsegments
        split at h
        · cases h
        · cases h
        rename_i log hload
        have hlast : base.nextId ≤ replay.lastEventId := by
          rw [hreplay]
          exact Nat.le_add_right _ _
        obtain ⟨events, hreads, hfollow, -, hlog, -⟩ :=
          loadEventLog_sound (by rw [hreplay]) hnext hlast hload
        have hloaded : loaded = { log.replay.loaded with
            eventConsumers := loaded.eventConsumers } := by
          split at h
          · cases h
          split at h
          · cases h
          obtain ⟨-, hresult⟩ := Prod.mk.inj h
          obtain ⟨-, rfl⟩ := Prod.mk.inj (Except.ok.inj hresult)
          rfl
        rw [hlog, hreplay] at hloaded
        rw [hreplay] at hfollow
        cases hactive : f.active with
        | none =>
          have hcontent : (createActive { f with files := files }).1.files
              (createActive { f with files := files }).2 = [] := by
            simp [createActive, hactive, SessionDir.write]
          rw [hcontent] at hreads
          have hflat : flat f recs = (f.sortedSegments.map Prod.snd).flatMap recs := by
            simp [flat, SessionDir.logFiles, hactive]
          refine ⟨base, recs, rfl, fun s hs => hall s (mem_sortedSegments.mpr hs), by simp, ?_, ?_⟩
          · rwa [hflat]
          · rw [hreads.nil] at hloaded
            rwa [hflat]
        | some i =>
          have hi : i ∉ f.sortedSegments.map Prod.snd :=
            fun hmem => hnodup.2.2 i hmem i (by simp [hactive]) rfl
          have hcontent : (createActive { f with files := files }).1.files
              (createActive { f with files := files }).2 = f.files i := by
            simp [createActive, hactive, hsame i hi]
          rw [hcontent] at hreads
          have hrest : (f.sortedSegments.map Prod.snd).flatMap (Function.update recs i events) =
              (f.sortedSegments.map Prod.snd).flatMap recs :=
            List.flatMap_congr fun j hj =>
              Function.update_of_ne (fun (heq : j = i) => hi (heq ▸ hj)) _ _
          have hflat : flat f (Function.update recs i events) =
              (f.sortedSegments.map Prod.snd).flatMap recs ++ events := by
            simp [flat, SessionDir.logFiles, hactive, hrest]
          refine ⟨base, Function.update recs i events, rfl, ?_, ?_, ?_, ?_⟩
          · intro s hs
            have hmem := List.mem_map_of_mem (f := Prod.snd) (mem_sortedSegments.mpr hs)
            rw [Function.update_of_ne fun (heq : s.2 = i) => hi (heq ▸ hmem)]
            exact hall s (mem_sortedSegments.mpr hs)
          · rintro j hj
            cases hj
            rwa [Function.update_self]
          · rw [hflat]
            exact follows_append.mpr ⟨hfollows, hfollow⟩
          · rwa [hflat, live_append, List.foldl_append]

end Recovery

end Asp
