import Asp.Proofs.LogCompact

/-! Runs of the daemon over one session's log: it stays open and keeps what was
synced, whatever calls are made and wherever they are interrupted. -/

namespace Asp

open Framing Durable Steps

section Runs

variable {c : Crates} {sessionId : Uuid} {w w' : World} {a a' : Wal}

variable {allowed : Wal → LogCall → Prop} {a₁ : Wal} {call : LogCall}
  {consumers : Std.ExtTreeMap String EventConsumer} {d' : SessionDir Bytes}
  {e : SessionDir (Cell Bytes)} {loaded : LoadedSession} {mem : SessionDisk} {n : ℕ} {stop : Stop}

theorem Io.act_consumers {i : Io} (h : i.act w = some w') :
    w'.disk.consumers = w.disk.consumers ∧ w'.eventConsumers = w.eventConsumers := by
  cases i with
  | openActive =>
    cases h
    unfold World.openActive
    split <;> exact ⟨rfl, rfl⟩
  | renameActive | writeActive | syncActive | installActive =>
    obtain ⟨j, -, rfl⟩ := Option.map_eq_some_iff.mp h
    exact ⟨rfl, rfl⟩
  | _ =>
    cases h
    exact ⟨rfl, rfl⟩

theorem passes_consumers {is : List Io} (h : logMachine.Passes is w w') :
    w'.disk.consumers = w.disk.consumers ∧ w'.eventConsumers = w.eventConsumers := by
  refine h.invariant (P := fun w' => w'.disk.consumers = w.disk.consumers ∧
    w'.eventConsumers = w.eventConsumers) (fun i _ s s' hact hs => ?_) ⟨rfl, rfl⟩
  obtain ⟨hfile, htable⟩ := Io.act_consumers hact
  exact ⟨hfile.trans hs.1, htable.trans hs.2⟩

theorem append_consumers (w : World) (call : AppendCall) :
    (append c w call).1.disk.consumers = w.disk.consumers ∧
      (append c w call).1.eventConsumers = w.eventConsumers := by
  have hrot := passes_consumers (logMachine.run_passes (rotationProgram c w call) w)
  have hwrite := passes_consumers (logMachine.run_passes
    (writeProgram c (logMachine.run (rotationProgram c w call) w).1 (frameBytes c w call.event) call)
    (logMachine.run (rotationProgram c w call) w).1)
  unfold append
  dsimp only
  split_ifs
  · exact ⟨rfl, rfl⟩
  · exact hrot
  · exact hrot
  · exact ⟨hwrite.1.trans hrot.1, hwrite.2.trans hrot.2⟩

theorem compact_consumers (w : World) (s : SessionSnapshotData) :
    (compact c w s).1.disk.consumers = w.disk.consumers ∧
      (compact c w s).1.eventConsumers = w.eventConsumers := by
  unfold compact
  split_ifs
  · exact ⟨rfl, rfl⟩
  · exact passes_consumers (logMachine.run_passes _ w)

theorem AcksWithin.mono {file : Option Bytes} {m : ℕ} (h : AcksWithin c file consumers m)
    (hle : m ≤ n) : AcksWithin c file consumers n :=
  ⟨h.file, fun id consumer hid => (h.bounded id consumer hid).trans hle⟩

theorem readEventConsumersFile_persisted {file : Bytes}
    (h : persistEventConsumers c consumers = some file) :
    readEventConsumersFile c (some file) = .ok consumers := by
  unfold persistEventConsumers at h
  dsimp only at h
  split_ifs at h with hmany hids hlen hlarge
  cases h
  have hfile : (consumersFile c consumers).length =
      18 + (c.consumers.encode consumers).length := by
    simp only [consumersFile, writeSidecar, List.length_append, be16_length, be32_length]
    rfl
  have hread := readSidecar_write c.crc32 consumersFormat c.consumers consumers (by decide)
    (Nat.le_of_not_lt hlarge)
    (show (c.consumers.encode consumers).length ≤ maxEventConsumerStateBytes by omega)
    (Nat.lt_of_not_le hlen)
  have hids' : checkConsumerIds consumers = .ok () := by
    cases hcheck : checkConsumerIds consumers with
    | error e =>
      rw [hcheck] at hids
      exact absurd rfl hids
    | ok u => rfl
  simp only [readEventConsumersFile, consumersFile, hread, if_neg hmany, hids']
  rfl

theorem ackEventConsumer_cases (w : World) (head : ℕ) (call : AckCall) :
    (ackEventConsumer c w head call).1 = w ∨
      ∃ file consumers, call.throughEventId ≤ head ∧
        persistEventConsumers c consumers = some file ∧
        (∀ (id : String) (consumer : EventConsumer), consumers[id]? = some consumer →
          w.eventConsumers[id]? = some consumer ∨
          consumer.acknowledgedEventId = call.throughEventId ∨
          ∃ old, w.eventConsumers[id]? = some old ∧
            consumer.acknowledgedEventId = max old.acknowledgedEventId call.throughEventId) ∧
        (ackEventConsumer c w head call).1 =
          { w with disk := { w.disk with consumers := some file }, eventConsumers := consumers } := by
  unfold ackEventConsumer
  dsimp only
  split_ifs with hid hhead hfull
  · exact .inl rfl
  · exact .inl rfl
  · exact .inl rfl
  split
  · exact .inl rfl
  rename_i file hfile
  refine .inr ⟨file, _, Nat.le_of_not_lt hhead, hfile, ?_, rfl⟩
  intro id consumer hget
  rw [Std.ExtTreeMap.getElem?_insert] at hget
  split_ifs at hget with hsame
  · obtain rfl := Std.LawfulEqCmp.eq_of_compare hsame
    cases hget
    cases hold : w.eventConsumers[call.consumerId]? with
    | none => exact .inr (.inl rfl)
    | some old => exact .inr (.inr ⟨old, rfl, rfl⟩)
  · exact .inl hget

theorem AcksWithin.ack {head bound : ℕ} {call : AckCall}
    (h : AcksWithin c w.disk.consumers w.eventConsumers bound)
    (hle : call.throughEventId ≤ head → call.throughEventId ≤ bound) :
    AcksWithin c (ackEventConsumer c w head call).1.disk.consumers
      (ackEventConsumer c w head call).1.eventConsumers bound := by
  rcases ackEventConsumer_cases (c := c) w head call with hsame |
    ⟨file, consumers, hhead, hpersist, hentries, hafter⟩
  · rwa [hsame]
  · rw [hafter]
    refine ⟨readEventConsumersFile_persisted hpersist, fun id consumer hget => ?_⟩
    rcases hentries id consumer hget with hold | hnew | ⟨old, hold, hmax⟩
    · exact h.bounded id consumer hold
    · rw [hnew]
      exact hle hhead
    · rw [hmax]
      exact max_le (h.bounded id old hold) (hle hhead)

theorem Live.ack (h : Live c sessionId a w) (head : ℕ) (call : AckCall) :
    Live c sessionId a (ackEventConsumer c w head call).1 := by
  obtain ⟨⟨recs, hrun⟩, hl⟩ := h
  rcases ackEventConsumer_cases (c := c) w head call with hsame | ⟨file, consumers, -, -, -, hafter⟩
  · rw [hsame]
    exact ⟨⟨recs, hrun⟩, hl⟩
  · rw [hafter]
    exact ⟨⟨recs, { hrun with recovers := { hrun.recovers with } }⟩, hl.attached,
      hl.lasts.setConsumers _⟩

theorem follows_range {boundary : ℕ} {events : List Event} (hle : boundary ≤ n)
    (hids : events.map Event.id = List.range' (n + 1) events.length) :
    Follows boundary n events ∧ live boundary events = events := by
  induction events generalizing n with
  | nil => exact ⟨trivial, rfl⟩
  | cons e events ih =>
    rw [List.map_cons, List.length_cons, List.range'_succ, List.cons.injEq] at hids
    obtain ⟨hfollows, hlive⟩ := ih (n := n + 1) (by omega) hids.2
    have hnew : boundary < e.id := by omega
    refine ⟨?_, ?_⟩
    · rw [Follows, if_neg (by omega)]
      exact ⟨hids.1, hids.1 ▸ hfollows⟩
    · rw [live, List.filter_cons_of_pos (by simpa using hnew)]
      exact congrArg _ hlive

theorem FirstOpen.recovers {d : SessionDir Bytes} (h : FirstOpen c d a) (sessionId : Uuid) :
    (∃ recs, Recovers c sessionId d a recs) ∧ d.consumers = none ∧ a.synced = a.events.length := by
  cases h with
  | fresh files i =>
    refine ⟨⟨fun _ => [], ?_⟩, rfl, rfl⟩
    constructor <;> simp [flat, SessionDir.logFiles, SessionDir.sortedSegments, Follows, Wal.boundary]
  | legacy files i n events hi hids hfits hfile hsize =>
    have hlog : files i = logBytes c false events := hfile
    have hflat : flat (⟨files, n, some i, [], [], none, none⟩ : SessionDir Bytes) (fun _ => events) =
        events := by
      simp [flat, SessionDir.logFiles, SessionDir.sortedSegments]
    have hfiles : (⟨files, n, some i, [], [], none, none⟩ : SessionDir Bytes).logFiles = [i] := by
      simp [SessionDir.logFiles, SessionDir.sortedSegments]
    obtain ⟨hfollows, hlive⟩ := @follows_range 0 0 _ le_rfl hids
    refine ⟨⟨fun _ => events, ?_⟩, rfl, rfl⟩
    refine
      { snapshot := rfl, owned := by simp, segment := by simp, active := ?_, small := ?_
        fits := fun _ _ => hfits, nodup := ?_, fresh := ?_, ordered := ?_
        follows := by rw [hflat]; exact hfollows, live := by rw [hflat]; exact hlive
        named := by simp, before := by simp }
    · rintro j hj
      cases hj
      exact Holds.active (.inr ⟨false, hlog⟩)
    · rw [hfiles]
      intro j hj
      rwa [List.mem_singleton.mp hj]
    · rw [hfiles]
      exact List.nodup_singleton i
    · rw [hfiles]
      intro j hj
      rwa [List.mem_singleton.mp hj]
    · rw [hflat, ← List.pairwise_map (f := Event.id) (R := (· < ·)), hids]
      exact List.pairwise_lt_range'

theorem Live.passes_stop (h : Live c sessionId a w) (hproper : call.Proper sessionId a)
    (hframed : call.Framed c) (hpass : call.Passes c w a w') : StopSafe c sessionId a call w' := by
  cases call with
  | append call =>
    obtain ⟨⟨recs, hrun⟩, hl⟩ := h
    exact append_stops hrun hl hproper hframed hpass
  | compact s =>
    cases hpass with
    | before => exact ⟨a, .inl rfl, h.2.lasts⟩
    | compacting hpass => exact (compactProgram_safe h hproper.1 hproper.2).crash hpass
  | ack call =>
    cases hpass with
    | before => exact ⟨a, rfl, h.2.lasts⟩
    | acked => exact ⟨a, rfl, (h.ack a.head call).2.lasts⟩
  | idle =>
    cases hpass
    exact ⟨a, rfl, h.2.lasts⟩

theorem Wal.Midway.synced_le (h : a.Midway call a₁)
    (hsynced : a.synced ≤ a.events.length) : a₁.synced ≤ a₁.events.length := by
  cases call with
  | append call =>
    rcases h with rfl | rfl
    · exact hsynced
    · simp only [Wal.append, List.length_append]
      exact hsynced.trans (Nat.le_add_right _ _)
  | compact s =>
    rcases h with rfl | rfl
    · exact hsynced
    · exact le_rfl
  | ack | idle => exact h ▸ hsynced

theorem Wal.Survives.cut (h : a.Survives call stop a') (hsynced : a.synced ≤ a.events.length) :
    ∃ a₁ k, a.Midway call a₁ ∧ a₁.synced ≤ k ∧ a' = a₁.take k := by
  cases stop with
  | kill => exact ⟨a', a'.events.length, h, h.synced_le hsynced, (Wal.take_length a').symm⟩
  | powerLoss => exact h

/-- The call, the snapshot file and the head determine which log survived. -/
theorem Wal.Survives.unique {a₂ : Wal} (h₁ : a.Survives call stop a₁) (h₂ : a.Survives call stop a₂)
    (hsynced : a.synced ≤ a.events.length) (hsnapshot : a₁.snapshot = a₂.snapshot)
    (hhead : a₁.head = a₂.head) : a₁ = a₂ := by
  have htake : ∀ {x : Wal} {k k' : ℕ}, (x.take k).head = (x.take k').head → x.take k = x.take k' := by
    intro x k k' hh
    have hlen : (x.events.take k).length = (x.events.take k').length :=
      Nat.add_left_cancel (hh : x.boundary + _ = x.boundary + _)
    rw [List.length_take, List.length_take] at hlen
    rw [Wal.take, Wal.take, List.take_eq_take_iff.mpr hlen]
  -- a log that is cut down to its snapshot is the compacted one
  have hempty : ∀ {k : ℕ} {s : SessionSnapshotData}, a.synced ≤ k → (a.take k).snapshot = some s →
      (a.take k).head = s.throughEventId → a.take k = Wal.compacted s := by
    intro k s hk hs hh
    have hboundary : (a.take k).boundary = s.throughEventId := by
      rw [Wal.boundary, hs]
      rfl
    have hlen : (a.events.take k).length = 0 := by
      have : (a.take k).boundary + (a.events.take k).length = s.throughEventId := hh
      omega
    have hnone : a.synced = 0 := by
      rw [List.length_take] at hlen
      omega
    have hs' : a.snapshot = some s := hs
    rw [Wal.take, List.length_eq_zero_iff.mp hlen, hs', hnone]
    rfl
  obtain ⟨x₁, k₁, hx₁, hk₁, rfl⟩ := h₁.cut hsynced
  obtain ⟨x₂, k₂, hx₂, hk₂, rfl⟩ := h₂.cut hsynced
  cases call with
  | append call =>
    -- both are cuts of the longer log
    have hlong : ∀ {x : Wal} {k : ℕ}, a.Midway (.append call) x →
        ∃ k', x.take k = (a.append call.event a.synced).take k' := by
      rintro x k (rfl | rfl)
      · refine ⟨min k x.events.length, ?_⟩
        rw [Wal.append_take x _ (min_le_right _ _), Wal.take, Wal.take, List.take_eq_take_iff.mpr]
        simp
      · exact ⟨k, rfl⟩
    obtain ⟨k₁', h₁'⟩ := hlong (k := k₁) hx₁
    obtain ⟨k₂', h₂'⟩ := hlong (k := k₂) hx₂
    rw [h₁', h₂'] at hhead ⊢
    exact htake hhead
  | ack | idle =>
    obtain rfl : x₁ = a := hx₁
    obtain rfl : x₂ = x₁ := hx₂
    exact htake hhead
  | compact s =>
    rcases hx₁ with rfl | rfl <;> rcases hx₂ with rfl | rfl
    · exact htake hhead
    · rw [Wal.compacted_take] at hsnapshot hhead ⊢
      exact hempty hk₁ hsnapshot hhead
    · rw [Wal.compacted_take] at hsnapshot hhead ⊢
      exact (hempty hk₂ hsnapshot.symm hhead.symm).symm
    · rw [Wal.compacted_take, Wal.compacted_take]

theorem snapshotFile_injective (c : Crates) : Function.Injective (snapshotFile c) := by
  intro s t h
  have hpayload : c.snapshot.encode s = c.snapshot.encode t :=
    (List.append_inj h (by simp only [List.length_append, be16_length, be32_length])).2
  have hdecode := congrArg c.snapshot.decode hpayload
  rw [c.snapshot.decode_encode, c.snapshot.decode_encode] at hdecode
  exact Option.some.inj hdecode

theorem Wal.Survives.snapshotFits (hfits : a.SnapshotFits c) (hsized : call.Sized c)
    (hsurvives : a.Survives call stop a') : a'.SnapshotFits c := by
  have hmidway : ∀ {a₁}, a.Midway call a₁ → a₁.SnapshotFits c := by
    intro a₁ h
    cases call with
    | append call => rcases h with rfl | rfl <;> exact hfits
    | compact s =>
      rcases h with rfl | rfl
      · exact hfits
      · intro t ht
        cases ht
        exact hsized
    | ack | idle => exact h ▸ hfits
  cases stop with
  | kill => exact hmidway hsurvives
  | powerLoss =>
    obtain ⟨a₁, k, h, -, rfl⟩ := hsurvives
    exact fun t ht => hmidway h t ht

section Settle

@[simp] theorem Wal.settle_events (a : Wal) (w : World) : (a.settle w).events = a.events := by
  unfold Wal.settle
  split_ifs <;> rfl

@[simp] theorem Wal.settle_snapshot (a : Wal) (w : World) : (a.settle w).snapshot = a.snapshot := by
  unfold Wal.settle
  split_ifs <;> rfl

@[simp] theorem Wal.settle_boundary (a : Wal) (w : World) : (a.settle w).boundary = a.boundary := by
  rw [Wal.boundary, Wal.settle_snapshot, Wal.boundary]

@[simp] theorem Wal.settle_head (a : Wal) (w : World) : (a.settle w).head = a.head := by
  rw [Wal.head, Wal.settle_boundary, Wal.settle_events, Wal.head]

theorem Wal.durableHead_le_settle (a : Wal) (w : World) (hsynced : a.synced ≤ a.events.length) :
    a.durableHead ≤ (a.settle w).durableHead := by
  rw [Wal.durableHead, Wal.durableHead, Wal.settle_boundary]
  refine Nat.add_le_add_left ?_ _
  unfold Wal.settle
  split_ifs
  · exact hsynced
  · exact le_rfl

theorem Wal.SnapshotFits.settle (h : a.SnapshotFits c) (w : World) : (a.settle w).SnapshotFits c := by
  rwa [Wal.SnapshotFits, Wal.settle_snapshot]

end Settle

theorem Live.stop_lasts (h : Live c sessionId a w) (hproper : call.Proper sessionId a)
    (hframed : call.Framed c) (hpass : call.Passes c w a w') (hstop : w'.disk.Stops stop e)
    (hopen : openSession c sessionId (e.map Cell.now) = (d', .ok (mem, loaded)))
    (hsurvives : a.Survives call stop a')
    (hsnapshot : e.snapshot = a'.snapshot.map (snapshotFile c)) (hhead : loaded.nextId = a'.head) :
    Lasts c sessionId e a' := by
  obtain ⟨a₁, hmidway, hlasts⟩ := h.passes_stop hproper hframed hpass
  obtain ⟨a'', hsurvives', hlasts'⟩ := hlasts.stops hmidway hstop
  obtain ⟨recs, hrecovers⟩ := hlasts'.recovers
  have hsame : a' = a'' := by
    refine hsurvives.unique hsurvives' h.2.lasts.synced ?_ ?_
    · refine Option.map_injective (snapshotFile_injective c) ?_
      rw [← hsnapshot]
      exact hrecovers.snapshot
    · rw [← hhead]
      exact (hrecovers.opened hopen).1
  exact hsame ▸ hlasts'

theorem Lasts.live_opened (h : Lasts c sessionId e a)
    (hopen : openSession c sessionId (e.map Cell.now) = (d', .ok (mem, loaded))) :
    Live c sessionId (a.settle (World.opened e d' mem loaded)) (World.opened e d' mem loaded) ∧
      AcksWithin c d'.consumers loaded.eventConsumers a.head := by
  obtain ⟨recs, hrecovers⟩ := h.recovers
  exact ⟨h.opened hopen, (hrecovers.opened hopen).2.1⟩

theorem Recovers.live_opened {f : SessionDir Bytes} {recs : ℕ → List Event}
    (h : Recovers c sessionId f a recs) (hsynced : a.synced = a.events.length)
    (hopen : openSession c sessionId f = (d', .ok (mem, loaded))) :
    Live c sessionId a (World.opened (f.map Cell.stable) d' mem loaded) ∧
      AcksWithin c d'.consumers loaded.eventConsumers a.head := by
  have hopened := (h.lasts hsynced.le).live_opened hopen
  have hsettled : a.settle (World.opened (f.map Cell.stable) d' mem loaded) = a := by
    unfold Wal.settle
    rw [← hsynced, ite_self]
  rwa [hsettled] at hopened

theorem LogCall.Sized.framed (h : call.Sized c) : call.Framed c := by
  cases call with
  | append => exact h
  | compact | ack | idle => trivial

theorem Live.append {w' : World} {call : AppendCall} (h : Live c sessionId a w)
    (hproper : (LogCall.append call).Proper sessionId a) (hframed : (LogCall.append call).Framed c)
    (hok : Asp.append c w call = (w', true)) :
    Live c sessionId (a.append call.event (syncedAfter c w a call)) w' := by
  obtain ⟨⟨recs, hrun⟩, hl⟩ := h
  obtain ⟨hdone, -⟩ := append_safe hrun hproper hframed fun _ => hl.wholeHeader hrun
  rw [hok] at hdone
  obtain ⟨recs', hrun', hlasting⟩ := hdone rfl
  exact ⟨⟨recs', hrun'⟩, hlasting hl⟩

theorem Live.refused {w' : World} {call : AppendCall} (h : Live c sessionId a w)
    (hproper : (LogCall.append call).Proper sessionId a) (hframed : (LogCall.append call).Framed c)
    (herr : Asp.append c w call = (w', false)) : Live c sessionId a w' := by
  obtain ⟨⟨recs, hrun⟩, hl⟩ := h
  obtain ⟨-, hfailed⟩ := append_safe hrun hproper hframed fun _ => hl.wholeHeader hrun
  rw [herr] at hfailed
  obtain ⟨recs', hrun', hlasting⟩ := (hfailed rfl).2 hl
  exact ⟨⟨recs', hrun'⟩, hlasting⟩

theorem compact_run {w' : World} {s : SessionSnapshotData} (hok : Asp.compact c w s = (w', true)) :
    logMachine.run (compactProgram c w s) w = (w', true) := by
  unfold Asp.compact at hok
  split_ifs at hok
  · exact absurd (Prod.mk.inj hok).2 Bool.false_ne_true
  · exact hok

theorem Live.compact {w' : World} {s : SessionSnapshotData} (h : Live c sessionId a w)
    (hproper : (LogCall.compact s).Proper sessionId a) (hok : Asp.compact c w s = (w', true)) :
    Live c sessionId (Wal.compacted s) w' := by
  have hsafe := (compactProgram_safe (s := s) h hproper.1 hproper.2).run.2
  rw [compact_run hok] at hsafe
  exact hsafe rfl

/-- Every run whose records are within the loader's limit keeps its log open, and
its acknowledgements within the log. -/
theorem LogRun.live (hframed : ∀ a call, allowed a call → call.Framed c)
    (h : LogRun c sessionId allowed w a) :
    Live c sessionId a w ∧ AcksWithin c w.disk.consumers w.eventConsumers a.head := by
  induction h with
  | opened hfirst hopen =>
    obtain ⟨⟨recs, hrecovers⟩, -, hsynced⟩ := hfirst.recovers sessionId
    exact hrecovers.live_opened hsynced hopen
  | @append w w' a call _ hproper hallowed hok ih =>
    obtain ⟨hlive, hacks⟩ := ih
    have hcons := append_consumers (c := c) w call
    rw [hok] at hcons
    refine ⟨hlive.append hproper (hframed _ _ hallowed) hok, ?_⟩
    rw [hcons.1, hcons.2, Wal.append_head]
    exact hacks.mono (Nat.le_succ _)
  | @refused w w' a call _ hproper hallowed herr ih =>
    obtain ⟨hlive, hacks⟩ := ih
    have hcons := append_consumers (c := c) w call
    rw [herr] at hcons
    refine ⟨hlive.refused hproper (hframed _ _ hallowed) herr, ?_⟩
    rwa [hcons.1, hcons.2]
  | @compact w w' a s _ hproper hallowed hok ih =>
    obtain ⟨hlive, hacks⟩ := ih
    have hcons := compact_consumers (c := c) w s
    rw [hok] at hcons
    refine ⟨hlive.compact hproper hok, ?_⟩
    rwa [hcons.1, hcons.2, Wal.compacted_head, hproper.1]
  | @ack w a call _ _ ih => exact ⟨ih.1.ack a.head call, ih.2.ack id⟩
  | @stopped w w₁ a a' call stop e d' mem loaded _ hproper hallowed hpass hstop hopen hsurvives
      hsnapshot hhead ih =>
    rw [Wal.settle_head]
    exact (ih.1.stop_lasts hproper (hframed _ _ hallowed) hpass hstop hopen hsurvives hsnapshot
      hhead).live_opened hopen

theorem LogRun.snapshotFits (hsized : ∀ a call, allowed a call → call.Sized c)
    (h : LogRun c sessionId allowed w a) : a.SnapshotFits c := by
  induction h with
  | opened hfirst =>
    cases hfirst with
    | fresh | legacy => simp [Wal.SnapshotFits]
  | append _ _ _ _ ih | refused _ _ _ _ ih | ack _ _ ih => exact ih
  | compact _ _ hallowed =>
    intro t ht
    cases ht
    exact hsized _ _ hallowed
  | stopped _ _ hallowed _ _ _ hsurvives _ _ ih =>
    exact (hsurvives.snapshotFits ih (hsized _ _ hallowed)).settle _

theorem Wal.durableHead_of_synced (h : a.synced = a.events.length) : a.durableHead = a.head := by
  rw [Wal.durableHead, Wal.head, h]

theorem Live.synced_le (h : Live c sessionId a w) : a.synced ≤ a.events.length :=
  h.2.lasts.synced

section

variable (hsynced : a.synced ≤ a.events.length)

include hsynced

theorem Wal.durableHead_le_head : a.durableHead ≤ a.head := Nat.add_le_add_left hsynced _

variable (hproper : call.Proper sessionId a)

include hproper

theorem Wal.Midway.durableHead_le (h : a.Midway call a₁) :
    a.durableHead ≤ a₁.durableHead ∧ a.head ≤ a₁.head := by
  cases call with
  | append call =>
    rcases h with rfl | rfl
    · exact ⟨le_rfl, le_rfl⟩
    · exact ⟨le_rfl, Wal.append_head a call.event a.synced ▸ Nat.le_succ _⟩
  | compact s =>
    rcases h with rfl | rfl
    · exact ⟨le_rfl, le_rfl⟩
    · have hthrough : (Wal.compacted s).head = a.head := hproper.1
      refine ⟨?_, hthrough.ge⟩
      rw [Wal.durableHead_of_synced (a := Wal.compacted s) rfl, hthrough]
      exact Nat.add_le_add_left hsynced _
  | ack | idle => exact h ▸ ⟨le_rfl, le_rfl⟩

theorem Wal.Survives.durableHead_le (h : a.Survives call stop a') :
    a.durableHead ≤ a'.durableHead ∧ a'.synced ≤ a'.events.length := by
  obtain ⟨a₁, k, hmidway, hk, rfl⟩ := h.cut hsynced
  refine ⟨(hmidway.durableHead_le hsynced hproper).1, ?_⟩
  show a₁.synced ≤ (a₁.events.take k).length
  rw [List.length_take]
  exact le_min hk (hmidway.synced_le hsynced)

theorem Wal.Survives.head_le (h : a.Survives call .kill a') : a.head ≤ a'.head :=
  (Wal.Midway.durableHead_le hsynced hproper h).2

end

theorem AcksWithin.unique {file : Option Bytes} {consumers' : Std.ExtTreeMap String EventConsumer}
    {m : ℕ} (h : AcksWithin c file consumers m) (h' : AcksWithin c file consumers' n) :
    consumers' = consumers :=
  Except.ok.inj (h'.file.symm.trans h.file)

theorem SessionDir.Stops.same {d : SessionDir (Cell Bytes)} (h : d.Stops stop e) : e.consumers =
    d.consumers ∧ e.segments = d.segments := by
  cases stop with
  | kill => exact ⟨congrArg SessionDir.consumers h, congrArg SessionDir.segments h⟩
  | powerLoss =>
    obtain ⟨f, ⟨files, -, rfl⟩, rfl⟩ := h
    exact ⟨rfl, rfl⟩

theorem passes_acks {w₁ : World} {bound : ℕ}
    (h : AcksWithin c w.disk.consumers w.eventConsumers bound) (hbound : a.durableHead ≤ bound)
    (hdurable : call.AckDurable a) (hpass : call.Passes c w a w₁) :
    AcksWithin c w₁.disk.consumers w₁.eventConsumers bound := by
  cases hpass with
  | before => exact h
  | rotating hpass =>
    obtain ⟨hfile, htable⟩ := passes_consumers hpass
    rwa [hfile, htable]
  | @writing call w₂ w' hrun _ hpass =>
    obtain ⟨hfile, htable⟩ := passes_consumers hpass
    have hrot := passes_consumers (logMachine.run_passes (rotationProgram c w call) w)
    rw [hrun] at hrot
    rwa [hfile, htable, hrot.1, hrot.2]
  | compacting hpass =>
    obtain ⟨hfile, htable⟩ := passes_consumers hpass
    rwa [hfile, htable]
  | acked call => exact h.ack fun _ => hdurable.trans hbound

theorem LogRun.acks_durable (hframed : ∀ a call, allowed a call → call.Framed c)
    (hdurable : ∀ a call, allowed a call → call.AckDurable a) (h : LogRun c sessionId allowed w a) :
    AcksWithin c w.disk.consumers w.eventConsumers a.durableHead := by
  have hwhole := h.live hframed
  induction h with
  | opened hfirst hopen =>
    obtain ⟨-, -, hsynced⟩ := hfirst.recovers sessionId
    rw [Wal.durableHead_of_synced hsynced]
    exact hwhole.2
  | @append w w' a call hrun hproper hallowed hok ih =>
    have hlive := (hrun.live hframed).1
    have hcons := append_consumers (c := c) w call
    rw [hok] at hcons
    rw [hcons.1, hcons.2]
    refine (ih (hrun.live hframed)).mono (Nat.add_le_add_left ?_ _)
    show a.synced ≤ syncedAfter c w a call
    have hsynced := hlive.synced_le
    have hrotated := a.rotated_synced (needsRotation c w call.event) hsynced
    have hevents : (a.rotated (needsRotation c w call.event)).events = a.events := by
      cases needsRotation c w call.event <;> rfl
    rw [syncedAfter_eq, hevents]
    split_ifs
    · omega
    · exact hrotated
  | @refused w w' a call hrun hproper hallowed herr ih =>
    have hcons := append_consumers (c := c) w call
    rw [herr] at hcons
    rw [hcons.1, hcons.2]
    exact ih (hrun.live hframed)
  | @compact w w' a s hrun hproper hallowed hok ih =>
    have hcons := compact_consumers (c := c) w s
    rw [hok] at hcons
    rw [hcons.1, hcons.2, Wal.durableHead_of_synced rfl, Wal.compacted_head, hproper.1]
    exact (hrun.live hframed).2
  | @ack w a call hrun hallowed ih =>
    exact (ih (hrun.live hframed)).ack fun _ => hdurable _ _ hallowed
  | @stopped w w₁ a a' call stop e d' mem loaded hrun hproper hallowed hpass hstop hopen hsurvives
      hsnapshot hhead ih =>
    have hlive := (hrun.live hframed).1
    have hlasts := hlive.stop_lasts hproper (hframed _ _ hallowed) hpass hstop hopen hsurvives
      hsnapshot hhead
    obtain ⟨hle, hsynced⟩ := hsurvives.durableHead_le hlive.synced_le hproper
    have hacks := (passes_acks (ih (hrun.live hframed)) le_rfl (hdurable _ _ hallowed) hpass).mono
      (hle.trans (a'.durableHead_le_settle (World.opened e d' mem loaded) hsynced))
    have hfile : d'.consumers = w₁.disk.consumers := by
      obtain ⟨recs, hrecovers⟩ := hlasts.recovers
      exact (hrecovers.opened_consumers hopen).trans (SessionDir.Stops.same hstop).1
    have hopened := hwhole.2
    have htable : (World.opened e d' mem loaded).eventConsumers = w₁.eventConsumers := by
      refine AcksWithin.unique hacks (n := (a'.settle (World.opened e d' mem loaded)).head) ?_
      rwa [← hfile]
    rw [htable]
    exact hfile ▸ hacks

theorem LogRun.opens {w₁ : World} (hsized : ∀ a call, allowed a call → call.Sized c)
    (hdurable : ∀ a call, allowed a call → call.AckDurable a) (h : LogRun c sessionId allowed w a)
    (hproper : call.Proper sessionId a) (hallowed : allowed a call) (hpass : call.Passes c w a w₁)
    (hstop : w₁.disk.Stops stop e) :
    ∃ d' mem a', openSession c sessionId (e.map Cell.now) =
        (d', .ok (mem, { a'.replay c.sha256 with eventConsumers := w₁.eventConsumers })) ∧
      a.Survives call stop a' ∧ Lasts c sessionId e a' ∧
      AcksWithin c e.consumers w₁.eventConsumers a'.head := by
  have hframed : ∀ a call, allowed a call → call.Framed c := fun a call h => (hsized a call h).framed
  have hlive := (h.live hframed).1
  obtain ⟨a₁, hmidway, hlasts⟩ := hlive.passes_stop hproper (hframed _ _ hallowed) hpass
  obtain ⟨a', hsurvives, hlasts'⟩ := hlasts.stops hmidway hstop
  obtain ⟨hle, hsynced⟩ := hsurvives.durableHead_le hlive.synced_le hproper
  have hbound := hle.trans (Wal.durableHead_le_head hsynced)
  have hacks : AcksWithin c e.consumers w₁.eventConsumers a'.head := by
    rw [(SessionDir.Stops.same hstop).1]
    exact passes_acks ((h.acks_durable hframed hdurable).mono hbound) hbound
      (hdurable _ _ hallowed) hpass
  obtain ⟨recs, hrecovers⟩ := hlasts'.recovers
  obtain ⟨d', mem, hopen⟩ := openSession_of_recovers hrecovers
    (hsurvives.snapshotFits (h.snapshotFits hsized) (hsized _ _ hallowed)) hacks
  exact ⟨d', mem, a', hopen, hsurvives, hlasts', hacks⟩

end Runs

end Asp
