import Asp.Spec.ProcessOutput

/-! The output events of a process tile its logs, in every journal that a crash can
leave, and the live and the replayed counters stand at their end. -/

namespace Asp

open Durable Std

variable {sha256 : Bytes → String} {processId : Uuid}

variable {event : Event} {stream : OutputStream}

theorem loggedOutput_append (stream : OutputStream) (front back : List Event) :
    loggedOutput processId stream (front ++ back) =
      loggedOutput processId stream front ++ loggedOutput processId stream back :=
  List.flatMap_append

theorem loggedOutput_snoc (stream : OutputStream) (events : List Event) (event : Event) :
    loggedOutput processId stream (events ++ [event]) =
      loggedOutput processId stream events ++ event.outputOf processId stream := by
  rw [loggedOutput_append, loggedOutput, loggedOutput, List.flatMap_singleton]

theorem outputOf_self {offset : ℕ} {data : Bytes}
    (h : event.kind = .processOutput processId stream offset data) :
    event.outputOf processId stream = data := by
  simp [Event.outputOf, h]

theorem outputOf_other_stream {other : OutputStream} {offset : ℕ} {data : Bytes}
    (h : event.kind = .processOutput processId stream offset data)
    (hne : stream ≠ other) : event.outputOf processId other = [] := by
  simp [Event.outputOf, h, hne]

theorem outputOf_eq_nil (stream : OutputStream)
    (h : ∀ offset data, event.kind ≠ .processOutput processId stream offset data) :
    event.outputOf processId stream = [] := by
  unfold Event.outputOf
  split
  · rename_i id source offset data hkind
    split_ifs with hsame
    · obtain ⟨rfl, rfl⟩ := hsame
      exact absurd hkind (h offset data)
    · rfl
  · rfl

theorem outputOf_of_processOf (stream : OutputStream)
    (h : event.kind.processOf ≠ some processId) : event.outputOf processId stream = [] := by
  refine outputOf_eq_nil stream fun offset data hkind => h ?_
  rw [hkind, EventKind.processOf]

/-- Each output event of the stream starts where those before it end. -/
def Contiguous (processId : Uuid) (stream : OutputStream) (events : List Event) : Prop :=
  ∀ front event back offset data, events = front ++ event :: back →
    event.kind = .processOutput processId stream offset data →
    offset = (loggedOutput processId stream front).length

theorem Contiguous.snoc {events : List Event} (h : Contiguous processId stream events)
    (hevent : ∀ offset data, event.kind = .processOutput processId stream offset data →
      offset = (loggedOutput processId stream events).length) :
    Contiguous processId stream (events ++ [event]) := by
  intro front last back offset data hsplit hkind
  rcases List.eq_nil_or_concat back with rfl | ⟨back, final, rfl⟩
  · obtain ⟨rfl, hlast⟩ := List.append_inj' hsplit rfl
    obtain rfl := List.singleton_inj.mp hlast
    exact hevent offset data hkind
  · rw [List.concat_eq_append, ← List.cons_append, ← List.append_assoc] at hsplit
    obtain ⟨hfront, -⟩ := List.append_inj' hsplit rfl
    exact h front last back offset data hfront hkind

/-- The ranges of the output events lie end to end from 0 on, and each has the bytes
of the log at its offset. -/
def TilesLog (processId : Uuid) (stream : OutputStream) (log : Bytes) (events : List Event) : Prop :=
  ∀ front event back offset data, events = front ++ event :: back →
    event.kind = .processOutput processId stream offset data →
    offset = (loggedOutput processId stream front).length ∧
      (log.drop offset).take data.length = data

theorem Contiguous.tiles {events : List Event} {log : Bytes}
    (h : Contiguous processId stream events)
    (hlog : loggedOutput processId stream events <+: log) : TilesLog processId stream log events := by
  intro front event back offset data hsplit hkind
  have hoffset := h front event back offset data hsplit hkind
  refine ⟨hoffset, ?_⟩
  obtain ⟨rest, hrest⟩ := hlog
  rw [hsplit, ← List.singleton_append, loggedOutput_append, loggedOutput_append] at hrest
  have hone : loggedOutput processId stream [event] = data := by
    rw [loggedOutput, List.flatMap_singleton, outputOf_self hkind]
  rw [← hrest, hone, hoffset, List.append_assoc, List.drop_left, List.append_assoc,
    List.take_left' rfl]

namespace OutputWorld

theorem push_processes (s : LoadedSession) (event : Event) :
    (LoadedSession.push sha256 s event).processes =
      (LoadedSession.apply sha256 { s with nextId := max s.nextId event.id } event).processes := rfl

theorem replayed_snoc (events : List Event) (event : Event) :
    replayed sha256 processId (events ++ [event]) =
      (LoadedSession.push sha256 (events.foldl (LoadedSession.push sha256) {})
        event).processes[processId]? := by
  rw [replayed, List.foldl_append, List.foldl_cons, List.foldl_nil]

theorem replayed_snoc_other {events : List Event} (h : event.kind.processOf ≠ some processId) :
    replayed sha256 processId (events ++ [event]) = replayed sha256 processId events := by
  rw [replayed_snoc, push_processes, replayed]
  generalize events.foldl (LoadedSession.push sha256) {} = s
  unfold LoadedSession.apply
  split <;> rename_i hkind <;> simp only [hkind, EventKind.processOf, ne_eq, Option.some.injEq] at h
  · rw [ExtTreeMap.getElem?_insert, if_neg (by simpa using h)]
  · rw [ExtTreeMap.getElem?_modify, if_neg (by simpa using h)]
  · rw [ExtTreeMap.getElem?_modify, if_neg (by simpa using h)]
  all_goals rfl

theorem replayed_snoc_start (events : List Event) (id unixMs : ℕ) (command : String)
    (pid : Option ℕ) (requestId : Option Uuid) :
    replayed sha256 processId
        (events ++ [⟨id, unixMs, .processStarted processId command pid requestId⟩]) =
      some ⟨command, true, none, none, pid, none, 0, 0⟩ := by
  rw [replayed_snoc, push_processes]
  simp only [LoadedSession.apply]
  rw [ExtTreeMap.getElem?_insert_self]

theorem replayed_snoc_output (events : List Event) (id unixMs : ℕ) (stream : OutputStream)
    (offset : ℕ) (data : Bytes) :
    replayed sha256 processId
        (events ++ [⟨id, unixMs, .processOutput processId stream offset data⟩]) =
      (replayed sha256 processId events).map (LoadedSession.addOutput stream data.length) := by
  rw [replayed_snoc, push_processes]
  simp only [LoadedSession.apply]
  rw [ExtTreeMap.getElem?_modify_self, replayed]

theorem replayed_snoc_exit (events : List Event) (id unixMs : ℕ) (code : Option ℤ) :
    replayed sha256 processId (events ++ [⟨id, unixMs, .processExited processId code⟩]) =
      (replayed sha256 processId events).map fun record =>
        { record with running := false, exitCode := code, exitUnixMs := some unixMs } := by
  rw [replayed_snoc, push_processes]
  simp only [LoadedSession.apply]
  rw [ExtTreeMap.getElem?_modify_self, replayed]

def recordedBytes (processId : Uuid) (events : List Event) (stream : OutputStream) : ℕ :=
  (loggedOutput processId stream events).length

theorem recordedBytes_snoc_output (events : List Event) {offset : ℕ} {data : Bytes}
    (hkind : event.kind = .processOutput processId stream offset data) (other : OutputStream) :
    recordedBytes processId (events ++ [event]) other =
      recordedBytes processId events other + if stream = other then data.length else 0 := by
  by_cases hne : stream = other
  · subst hne
    rw [recordedBytes, loggedOutput_snoc, outputOf_self hkind, List.length_append, if_pos rfl]
    rfl
  · rw [recordedBytes, loggedOutput_snoc, outputOf_other_stream hkind hne, List.append_nil,
      if_neg hne]
    rfl

/-- A journal that agrees with the logs and replays to the counters it says. -/
structure ImageSound (sha256 : Bytes → String) (processId : Uuid) (w : OutputWorld)
    (events : List Event) : Prop where
  contiguous : ∀ stream, Contiguous processId stream events
  logged : ∀ stream, loggedOutput processId stream events <+: w.log stream
  synced : ∀ stream, recordedBytes processId events stream ≤ w.synced stream
  counted : ∀ stream, (replayed sha256 processId events).elim 0 (·.bytes stream) =
    recordedBytes processId events stream
  limit : recordedBytes processId events .stdout + recordedBytes processId events .stderr ≤
    processOutputMaxBytes

/-- Every journal that a crash can leave is sound, and the live record counts what the
present one holds. -/
structure OutputSound (sha256 : Bytes → String) (processId : Uuid) (w : OutputWorld) : Prop where
  images : ∀ events ∈ w.journal.images, ImageSound sha256 processId w events
  written : ∀ stream, w.synced stream ≤ (w.log stream).length
  record : w.record.map ProcessRecord.bytes =
    (replayed sha256 processId w.journal.now).map ProcessRecord.bytes

/-- A monitor at `offset` reads on where the journal ends. -/
structure ReadsOn (processId : Uuid) (w : OutputWorld) (offset : OutputStream → ℕ) : Prop where
  known : w.record.isSome
  offset_eq : offset = recordedBytes processId w.journal.now

structure OutputInv (sha256 : Bytes → String) (processId : Uuid) (w : OutputWorld) : Prop
    extends OutputSound sha256 processId w where
  monitor : ∀ offset, w.monitor = .running offset → ReadsOn processId w offset

variable {w w' : OutputWorld} {events : List Event}

theorem outputInv_start : OutputInv sha256 processId start where
  images := by
    intro events hevents
    obtain rfl : events = [] := by simpa [start, Kept.images, Kept.stable, Cell.images, Cell.stable]
      using hevents
    refine ⟨fun stream => ?_, fun stream => List.nil_prefix, fun stream => Nat.zero_le _,
      fun stream => ?_, Nat.zero_le _⟩
    · intro front event back offset data hsplit
      exact absurd hsplit (by simp)
    · rfl
  written stream := Nat.zero_le _
  record := rfl
  monitor offset h := by cases h

theorem ImageSound.of_logs (h : ImageSound sha256 processId w events)
    (hsynced : ∀ stream, w.synced stream ≤ w'.synced stream)
    (hlog : ∀ stream, (w'.log stream).take (w.synced stream) =
      (w.log stream).take (w.synced stream)) : ImageSound sha256 processId w' events where
  contiguous := h.contiguous
  logged stream := by
    have hsplit := List.prefix_iff_eq_take.mp (h.logged stream)
    have hle := h.synced stream
    rw [recordedBytes] at hle
    rw [hsplit, ← Nat.min_eq_left hle, ← List.take_take, ← hlog stream, List.take_take]
    exact List.take_prefix _ _
  synced stream := (h.synced stream).trans (hsynced stream)
  counted := h.counted
  limit := h.limit

section Snoc

variable {event : Event}

section

variable (h : ImageSound sha256 processId w events)

include h

theorem ImageSound.snoc_silent
    (hsilent : ∀ stream offset data, event.kind ≠ .processOutput processId stream offset data)
    (hreplay : ∀ stream, (replayed sha256 processId (events ++ [event])).elim 0 (·.bytes stream) =
      (replayed sha256 processId events).elim 0 (·.bytes stream)) :
    ImageSound sha256 processId w (events ++ [event]) := by
  have hlogged : ∀ stream, loggedOutput processId stream (events ++ [event]) =
      loggedOutput processId stream events := by
    intro stream
    rw [loggedOutput_snoc, outputOf_eq_nil stream (hsilent stream), List.append_nil]
  refine ⟨fun stream => (h.contiguous stream).snoc fun offset data hkind => ?_, fun stream => ?_,
    fun stream => ?_, fun stream => ?_, ?_⟩
  · exact absurd hkind (hsilent stream offset data)
  · rw [hlogged]
    exact h.logged stream
  · rw [recordedBytes, hlogged]
    exact h.synced stream
  · rw [hreplay, recordedBytes, hlogged]
    exact h.counted stream
  · rw [recordedBytes, recordedBytes, hlogged, hlogged]
    exact h.limit

theorem ImageSound.snoc_other (hother : event.kind.processOf ≠ some processId) :
    ImageSound sha256 processId w (events ++ [event]) := by
  refine h.snoc_silent (fun stream offset data hkind => hother ?_) fun stream => ?_
  · rw [hkind, EventKind.processOf]
  · rw [replayed_snoc_other hother]

theorem ImageSound.snoc_exit (id unixMs : ℕ) (code : Option ℤ) :
    ImageSound sha256 processId w
      (events ++ [⟨id, unixMs, .processExited processId code⟩]) := by
  refine h.snoc_silent (fun stream offset data hkind => by cases hkind) fun stream => ?_
  rw [replayed_snoc_exit]
  cases replayed sha256 processId events with
  | none => rfl
  | some record => cases stream <;> rfl

theorem ImageSound.snoc_start (hunknown : ∀ event ∈ events, event.kind.processOf ≠ some processId)
    (id unixMs : ℕ) (command : String) (pid : Option ℕ) (requestId : Option Uuid) :
    ImageSound sha256 processId w
      (events ++ [⟨id, unixMs, .processStarted processId command pid requestId⟩]) := by
  refine h.snoc_silent (fun stream offset data hkind => by cases hkind) fun stream => ?_
  have hnone : recordedBytes processId events stream = 0 := by
    rw [recordedBytes, List.length_eq_zero_iff, loggedOutput, List.flatMap_eq_nil_iff]
    exact fun event hevent => outputOf_of_processOf stream (hunknown event hevent)
  rw [replayed_snoc_start, h.counted, hnone]
  cases stream <;> rfl

theorem ImageSound.snoc_output (id unixMs : ℕ) {data : Bytes}
    (hknown : (replayed sha256 processId events).isSome)
    (hdata : loggedOutput processId stream events ++ data <+: w.log stream)
    (hsynced : recordedBytes processId events stream + data.length ≤ w.synced stream)
    (hlimit : recordedBytes processId events .stdout + recordedBytes processId events .stderr +
      data.length ≤ processOutputMaxBytes) :
    ImageSound sha256 processId w (events ++ [⟨id, unixMs,
      .processOutput processId stream (recordedBytes processId events stream) data⟩]) := by
  set event : Event :=
    ⟨id, unixMs, .processOutput processId stream (recordedBytes processId events stream) data⟩
  have hkind : event.kind =
      .processOutput processId stream (recordedBytes processId events stream) data := rfl
  have hbytes := recordedBytes_snoc_output events hkind
  refine ⟨fun other => (h.contiguous other).snoc fun offset bytes hoffset => ?_, fun other => ?_,
    fun other => ?_, fun other => ?_, ?_⟩
  · obtain ⟨-, rfl, rfl, -⟩ := EventKind.processOutput.inj (hkind.symm.trans hoffset)
    rfl
  · rw [loggedOutput_snoc]
    by_cases hne : stream = other
    · subst hne
      rwa [outputOf_self hkind]
    · rw [outputOf_other_stream hkind hne, List.append_nil]
      exact h.logged other
  · rw [hbytes]
    split_ifs with hne
    · rwa [← hne]
    · exact h.synced other
  · obtain ⟨record, hrecord⟩ := Option.isSome_iff_exists.mp hknown
    have hcounted := h.counted other
    rw [hbytes, ← hcounted, replayed_snoc_output, hrecord]
    cases stream <;> cases other <;> rfl
  · rw [hbytes, hbytes]
    cases stream <;> simp <;> omega

end

end Snoc

section Append

variable (unixMs : ℕ) (kind : EventKind) (outcome : AppendOutcome)

def nextEvent (w : OutputWorld) : Event := ⟨w.nextId + 1, unixMs, kind⟩

/-- Of the journal an append changes at most the end; nothing else of the world but
the next id. -/
structure Appended (w : OutputWorld) (result : Bool × OutputWorld) : Prop where
  log : result.2.log = w.log
  synced : result.2.synced = w.synced
  record : result.2.record = w.record
  monitor : result.2.monitor = w.monitor
  now : result.2.journal.now =
    if result.1 then w.journal.now ++ [w.nextEvent unixMs kind] else w.journal.now
  images : ∀ events ∈ result.2.journal.images,
    events ∈ w.journal.images ∨ events = w.journal.now ++ [w.nextEvent unixMs kind]

theorem appended (w : OutputWorld) : Appended unixMs kind w (w.append unixMs kind outcome) := by
  cases outcome with
  | synced =>
    refine ⟨rfl, rfl, rfl, rfl, rfl, fun events hevents => .inr ?_⟩
    exact Kept.mem_images_stable.mp hevents
  | buffered =>
    refine ⟨rfl, rfl, rfl, rfl, rfl, fun events hevents => ?_⟩
    exact (Kept.mem_images_change.mp hevents).symm
  | failed => exact ⟨rfl, rfl, rfl, rfl, rfl, fun events hevents => .inl hevents⟩
  | undone =>
    refine ⟨rfl, rfl, rfl, rfl, rfl, fun events hevents => ?_⟩
    exact (Kept.mem_images_undone.mp hevents).symm

variable {unixMs kind} {result : Bool × OutputWorld}

theorem Appended.images_sound (ha : Appended unixMs kind w result)
    (h : OutputSound sha256 processId w)
    (hnew : ImageSound sha256 processId w (w.journal.now ++ [w.nextEvent unixMs kind])) :
    ∀ events ∈ result.2.journal.images, ImageSound sha256 processId result.2 events := by
  intro events hevents
  have hsound : ImageSound sha256 processId w events := by
    rcases ha.images events hevents with hold | rfl
    · exact h.images events hold
    · exact hnew
  refine hsound.of_logs (fun stream => ?_) fun stream => ?_
  · rw [ha.synced]
  · rw [ha.log]

end Append

section

variable (h : OutputSound sha256 processId w)

include h

theorem OutputSound.now :
    ImageSound sha256 processId w w.journal.now := h.images _ (Kept.now_mem_images _)

theorem OutputSound.known_iff :
    w.record.isSome = (replayed sha256 processId w.journal.now).isSome := by
  have hrecord := congrArg Option.isSome h.record
  rwa [Option.isSome_map, Option.isSome_map] at hrecord

theorem OutputSound.bytes_eq {record : ProcessRecord} (hrecord : w.record = some record)
    (stream : OutputStream) :
    record.bytes stream = recordedBytes processId w.journal.now stream := by
  have hsame := h.record
  rw [hrecord, Option.map_some] at hsame
  obtain ⟨replay, hreplay, hbytes⟩ := Option.map_eq_some_iff.mp hsame.symm
  have hcounted := h.now.counted stream
  rwa [hreplay, Option.elim_some, hbytes] at hcounted

theorem OutputSound.of_grown {log : OutputStream → Bytes}
    (hlog : ∀ stream, w.log stream <+: log stream) :
    OutputSound sha256 processId { w with log := log } := by
  refine ⟨fun events hevents => (h.images events hevents).of_logs (fun stream => le_rfl)
    fun stream => ?_, fun stream => ?_, h.record⟩
  · obtain ⟨rest, hrest⟩ := hlog stream
    change (log stream).take (w.synced stream) = _
    rw [← hrest, List.take_append_of_le_length (h.written stream)]
  · exact (h.written stream).trans (hlog stream).length_le

theorem OutputSound.of_record {record : Option ProcessRecord}
    (hbytes : record.map ProcessRecord.bytes = w.record.map ProcessRecord.bytes)
    (monitor : OutputMonitor) :
    OutputSound sha256 processId { w with record := record, monitor := monitor } :=
  ⟨fun events hevents => (h.images events hevents).of_logs (fun _ => le_rfl) fun _ => rfl,
    h.written, hbytes.trans h.record⟩

end

section Append

variable {unixMs : ℕ} {kind : EventKind} {result : Bool × OutputWorld}

theorem Appended.written (ha : Appended unixMs kind w result) (h : OutputSound sha256 processId w) :
    ∀ stream, result.2.synced stream ≤ (result.2.log stream).length := by
  intro stream
  rw [ha.synced, ha.log]
  exact h.written stream

theorem OutputSound.of_appended (h : OutputSound sha256 processId w)
    (ha : Appended unixMs kind w result)
    (hnew : ImageSound sha256 processId w (w.journal.now ++ [w.nextEvent unixMs kind]))
    (hsame : result.1 = true → (replayed sha256 processId
      (w.journal.now ++ [w.nextEvent unixMs kind])).map ProcessRecord.bytes =
        (replayed sha256 processId w.journal.now).map ProcessRecord.bytes) :
    OutputSound sha256 processId result.2 := by
  refine ⟨ha.images_sound h hnew, ha.written h, ?_⟩
  rw [ha.record, h.record, ha.now]
  split_ifs with hok
  · exact (hsame hok).symm
  · rfl

end Append

theorem OutputInv.other (h : OutputInv sha256 processId w) (unixMs : ℕ) {kind : EventKind}
    (outcome : AppendOutcome) (hother : kind.processOf ≠ some processId) :
    OutputInv sha256 processId (w.append unixMs kind outcome).2 := by
  have ha := appended unixMs kind outcome w
  have hsilent : replayed sha256 processId (w.journal.now ++ [w.nextEvent unixMs kind]) =
      replayed sha256 processId w.journal.now := replayed_snoc_other hother
  refine ⟨h.toOutputSound.of_appended ha (h.now.snoc_other hother) fun _ => by rw [hsilent], ?_⟩
  intro offset hmonitor
  rw [ha.monitor] at hmonitor
  obtain ⟨hknown, hoffset⟩ := h.monitor offset hmonitor
  refine ⟨by rwa [ha.record], ?_⟩
  rw [hoffset, ha.now]
  split_ifs with hok
  · funext stream
    rw [recordedBytes, recordedBytes, loggedOutput_snoc, outputOf_of_processOf stream hother,
      List.append_nil]
  · rfl

theorem OutputInv.recordExit (h : OutputInv sha256 processId w) (unixMs : ℕ) (code : Option ℤ)
    (outcome : AppendOutcome) :
    OutputInv sha256 processId (w.recordExit processId unixMs code outcome).2 := by
  have hbytes : ∀ (record : Option ProcessRecord) (f : ProcessRecord → ProcessRecord),
      (∀ record, (f record).bytes = record.bytes) →
      (record.map f).map ProcessRecord.bytes = record.map ProcessRecord.bytes := by
    intro record f hf
    rw [Option.map_map]
    exact Option.map_congr fun record _ => hf record
  have ha := appended unixMs (.processExited processId code) outcome w
  have hsound := h.toOutputSound.of_appended ha (h.now.snoc_exit _ _ _) fun _ => by
    rw [nextEvent, replayed_snoc_exit]
    refine hbytes _ _ fun record => ?_
    funext stream
    cases stream <;> rfl
  unfold OutputWorld.recordExit
  cases hresult : w.append unixMs (.processExited processId code) outcome with
  | mk ok w' =>
    rw [hresult] at hsound
    cases ok with
    | true =>
      refine ⟨hsound.of_record (hbytes _ _ fun record => ?_) .stopped, fun offset hrun => by cases hrun⟩
      funext stream
      cases stream <;> rfl
    | false =>
      refine ⟨hsound.of_record (hbytes _ _ fun record => ?_) .stopped, fun offset hrun => by cases hrun⟩
      funext stream
      cases stream <;> rfl

theorem OutputInv.startProcess (h : OutputInv sha256 processId w)
    (hunknown : w.unknown processId = true) (unixMs : ℕ) (command : String) (pid : Option ℕ)
    (requestId : Option Uuid) (outcome : AppendOutcome) :
    OutputInv sha256 processId
      (w.startProcess processId unixMs command pid requestId outcome) := by
  simp only [unknown, Bool.and_eq_true, Option.isNone_iff_eq_none, List.all_eq_true, bne_iff_ne] at hunknown
  obtain ⟨hnone, hunknown⟩ := hunknown
  have hnew : ImageSound sha256 processId w (w.journal.now ++
      [w.nextEvent unixMs (.processStarted processId command pid requestId)]) :=
    h.now.snoc_start (hunknown _ (Kept.now_mem_images _)) _ _ _ _ _
  have ha := appended unixMs (.processStarted processId command pid requestId) outcome w
  have himages := ha.images_sound h.toOutputSound hnew
  have hwritten := ha.written h.toOutputSound
  unfold OutputWorld.startProcess
  cases hresult : w.append unixMs (.processStarted processId command pid requestId) outcome with
  | mk ok w' =>
    rw [hresult] at ha himages hwritten
    have hnow := ha.now
    cases ok with
    | true =>
      have hreplayed : replayed sha256 processId w'.journal.now =
          some ⟨command, true, none, none, pid, none, 0, 0⟩ := by
        rw [show w'.journal.now = _ from hnow, if_pos rfl, nextEvent, replayed_snoc_start]
      refine ⟨⟨fun events hevents => (himages events hevents).of_logs (fun _ => le_rfl)
        fun _ => rfl, hwritten, ?_⟩, fun offset hrun => ⟨rfl, ?_⟩⟩
      · change some _ = (replayed sha256 processId w'.journal.now).map _
        rw [hreplayed]
        rfl
      · cases hrun
        funext stream
        have hcounted := (himages w'.journal.now (Kept.now_mem_images _)).counted stream
        rw [hreplayed] at hcounted
        rw [← hcounted]
        cases stream <;> rfl
    | false =>
      refine ⟨⟨himages, hwritten, ?_⟩, fun offset hrun => ?_⟩
      · rw [show w'.record = _ from ha.record, show w'.journal.now = _ from hnow]
        exact h.record
      · rw [show w'.monitor = _ from ha.monitor] at hrun
        obtain ⟨hknown, hoffset⟩ := h.monitor offset hrun
        rw [hnone] at hknown
        exact absurd hknown (by simp)

theorem readNewBytes_ok {file data : Bytes} {offset maximumBytes : ℕ} {reads : List ℕ}
    (h : readNewBytesWithLimit file offset maximumBytes reads = .ok data) :
    offset ≤ file.length ∧ data =
      (file.drop offset).take (readLoop reads (min (file.length - offset) maximumBytes)) := by
  rw [readNewBytesWithLimit] at h
  split_ifs at h with hlimit hshrank
  exact ⟨by omega, (Except.ok.inj h).symm⟩

theorem logged_append_read {log : Bytes} {events : List Event}
    (hlogged : loggedOutput processId stream events <+: log) (count : ℕ) :
    loggedOutput processId stream events ++
      (log.drop (recordedBytes processId events stream)).take count <+: log := by
  have hsplit := List.prefix_iff_eq_take.mp hlogged
  rw [recordedBytes]
  nth_rewrite 1 [hsplit]
  rw [← List.take_add]
  exact List.take_prefix _ _

theorem withinLimit_le {record : ProcessRecord} {bytes : ℕ}
    (h : processOutputWithinLimit record bytes = true) :
    record.stdoutBytes + record.stderrBytes + bytes ≤ processOutputMaxBytes := by
  have hle := of_decide_eq_true h
  have hmax : processOutputMaxBytes < usizeMax := by decide
  simp only [saturatingAdd] at hle
  omega

section Drain

variable (stream : OutputStream) (chance : DrainChance) {offset : OutputStream → ℕ} {data : Bytes}

theorem OutputSound.sync (h : OutputSound sha256 processId w) :
    OutputSound sha256 processId
      { w with synced := Function.update w.synced stream (w.log stream).length } := by
  have hle : ∀ other, w.synced other ≤
      Function.update w.synced stream (w.log stream).length other ∧
      Function.update w.synced stream (w.log stream).length other ≤ (w.log other).length := by
    intro other
    rcases eq_or_ne other stream with rfl | hne
    · rw [Function.update_self]
      exact ⟨h.written other, le_rfl⟩
    · rw [Function.update_of_ne hne]
      exact ⟨le_rfl, h.written other⟩
  exact ⟨fun events hevents => (h.images events hevents).of_logs (fun other => (hle other).1)
    fun _ => rfl, fun other => (hle other).2, h.record⟩

theorem setBytes_bytes {record replay : ProcessRecord} (h : record.bytes = replay.bytes)
    (bytes : ℕ) :
    (record.setBytes stream (record.bytes stream + bytes)).bytes =
      (LoadedSession.addOutput stream bytes replay).bytes := by
  funext other
  have hstdout := congrFun h .stdout
  have hstderr := congrFun h .stderr
  cases stream <;> cases other <;>
    simp_all [ProcessRecord.setBytes, ProcessRecord.bytes, LoadedSession.addOutput]

theorem OutputSound.publish (h : OutputSound sha256 processId w) (hr : ReadsOn processId w offset)
    (hdata : loggedOutput processId stream w.journal.now ++ data <+: w.log stream) :
    OutputSound sha256 processId (w.publish processId stream chance offset data).2 ∧
      (w.publish processId stream chance offset data).2.log = w.log ∧
      ∀ offset', (w.publish processId stream chance offset data).1 = .ok offset' →
        ReadsOn processId (w.publish processId stream chance offset data).2 offset' := by
  have hsynced := h.sync stream
  unfold OutputWorld.publish
  extract_lets w₁ moved
  split_ifs with hsync hlimit
  · exact ⟨h, rfl, fun offset' hok => by cases hok⟩
  · exact ⟨hsynced, rfl, fun offset' hok => by cases hok⟩
  · obtain ⟨record, hrecord⟩ := Option.isSome_iff_exists.mp hr.known
    have hrecord₁ : w₁.record = some record := hrecord
    have hfits : processOutputWithinLimit record data.length = true := by
      rwa [hrecord₁, Option.any_some, Bool.not_eq_true', Bool.not_eq_false] at hlimit
    have hbytes := h.bytes_eq hrecord
    have hstream : offset stream = recordedBytes processId w₁.journal.now stream := by
      rw [hr.offset_eq]
    have hmoved : moved = recordedBytes processId w₁.journal.now stream + data.length := by
      rw [← hstream]
    have hnew : ImageSound sha256 processId w₁ (w₁.journal.now ++ [w₁.nextEvent chance.unixMs
        (.processOutput processId stream (offset stream) data)]) := by
      rw [hstream]
      refine hsynced.now.snoc_output _ _ ?_ hdata ?_ ?_
      · rw [← hsynced.known_iff, hrecord₁, Option.isSome_some]
      · have hlength := hdata.length_le
        rw [List.length_append] at hlength
        change _ ≤ Function.update w.synced stream (w.log stream).length stream
        rwa [Function.update_self]
      · have hwithin := withinLimit_le hfits
        rwa [← hbytes .stdout, ← hbytes .stderr]
    have ha := appended chance.unixMs (.processOutput processId stream (offset stream) data)
      chance.append w₁
    have himages := ha.images_sound hsynced hnew
    have hwritten := ha.written hsynced
    cases hresult : w₁.append chance.unixMs (.processOutput processId stream (offset stream) data)
        chance.append with
    | mk ok w₂ =>
      rw [hresult] at ha himages hwritten
      have hnow := ha.now
      cases ok with
      | false =>
        refine ⟨⟨himages, hwritten, ?_⟩, ha.log, fun offset' hok => by cases hok⟩
        rw [show w₂.record = _ from ha.record, show w₂.journal.now = _ from hnow]
        exact hsynced.record
      | true =>
        have hafter : w₂.journal.now = w₁.journal.now ++ [w₁.nextEvent chance.unixMs
            (.processOutput processId stream (offset stream) data)] := hnow
        refine ⟨⟨fun events hevents => (himages events hevents).of_logs (fun _ => le_rfl)
          fun _ => rfl, hwritten, ?_⟩, ha.log, fun offset' hok => ⟨?_, ?_⟩⟩
        · change (w₂.record.map _).map _ = (replayed sha256 processId w₂.journal.now).map _
          have hsame := hsynced.record
          rw [hrecord₁, Option.map_some] at hsame
          obtain ⟨replay, hreplay, hreplayed⟩ := Option.map_eq_some_iff.mp hsame.symm
          rw [hafter, nextEvent, replayed_snoc_output, hreplay, show w₂.record = _ from ha.record,
            hrecord₁, Option.map_some, Option.map_some, Option.map_some, Option.map_some,
            Option.some_inj, hmoved, ← hbytes stream]
          exact setBytes_bytes stream hreplayed.symm data.length
        · rw [Option.isSome_map, show w₂.record = _ from ha.record, hrecord₁, Option.isSome_some]
        · cases hok
          funext other
          rw [hafter, recordedBytes_snoc_output _ rfl]
          rcases eq_or_ne other stream with rfl | hne
          · rw [Function.update_self, if_pos rfl, hmoved]
          · rw [Function.update_of_ne hne, if_neg (Ne.symm hne), Nat.add_zero, hr.offset_eq]

theorem OutputSound.drain (h : OutputSound sha256 processId w) (hr : ReadsOn processId w offset) :
    OutputSound sha256 processId (w.drainPersistentStream processId stream chance offset).2 ∧
      (w.drainPersistentStream processId stream chance offset).2.log = w.log ∧
      ∀ offset', (w.drainPersistentStream processId stream chance offset).1 = .ok offset' →
        ReadsOn processId (w.drainPersistentStream processId stream chance offset).2 offset' := by
  unfold OutputWorld.drainPersistentStream
  split_ifs with hread
  · exact ⟨h, rfl, fun offset' hok => by cases hok⟩
  · cases hdata : readNewBytesWithLimit (w.log stream) (offset stream) processLogReadBatchBytes
        chance.reads with
    | error error => exact ⟨h, rfl, fun offset' hok => by cases hok⟩
    | ok data =>
      dsimp only
      split_ifs with hempty
      · refine ⟨h, rfl, fun offset' hok => ?_⟩
        cases hok
        exact hr
      · refine h.publish stream chance hr ?_
        rw [(readNewBytes_ok hdata).2, hr.offset_eq]
        exact logged_append_read (h.now.logged stream) _

end Drain

theorem OutputInv.drain (h : OutputInv sha256 processId w) {offset : OutputStream → ℕ}
    (hrun : w.monitor = .running offset) (stream : OutputStream) (chance : DrainChance) :
    OutputInv sha256 processId (w.drain processId stream chance offset) := by
  obtain ⟨hsound, -, hreads⟩ := h.toOutputSound.drain stream chance (h.monitor offset hrun)
  unfold OutputWorld.drain
  cases hresult : w.drainPersistentStream processId stream chance offset with
  | mk result w' =>
    rw [hresult] at hsound hreads
    cases result with
    | error error => exact ⟨hsound.of_record rfl .failing, fun offset' hrun' => by cases hrun'⟩
    | ok offset' =>
      refine ⟨hsound.of_record rfl (.running offset'), fun offset'' hrun' => ?_⟩
      cases hrun'
      obtain ⟨hknown, hoffset⟩ := hreads offset' rfl
      exact ⟨hknown, hoffset⟩

theorem reopened_inv (himages : ∀ events ∈ w.journal.images, ImageSound sha256 processId w events)
    (hwritten : ∀ stream, w.synced stream ≤ (w.log stream).length) :
    OutputInv sha256 processId (w.reopened sha256 processId) := by
  refine ⟨⟨fun events hevents => (himages events hevents).of_logs (fun _ => le_rfl) fun _ => rfl,
    hwritten, rfl⟩, fun offset hrun => ?_⟩
  have hcounted := (himages w.journal.now (Kept.now_mem_images _)).counted
  unfold reopened at hrun ⊢
  cases hrecord : replayed sha256 processId w.journal.now with
  | none =>
    rw [hrecord] at hrun
    cases hrun
  | some record =>
    rw [hrecord] at hrun hcounted
    dsimp only at hrun
    split_ifs at hrun with hexited hshort
    cases hrun
    exact ⟨rfl, funext hcounted⟩

theorem OutputInv.act (h : OutputInv sha256 processId w) {action : OutputAction}
    (hact : w.act sha256 processId action = some w') : OutputInv sha256 processId w' := by
  cases action with
  | grow stream data =>
    cases hact
    refine ⟨h.toOutputSound.of_grown fun other => ?_, fun offset hrun => ?_⟩
    · rcases eq_or_ne other stream with rfl | hne
      · rw [Function.update_self]
        exact List.prefix_append _ _
      · rw [Function.update_of_ne hne]
    · exact ⟨(h.monitor offset hrun).known, (h.monitor offset hrun).offset_eq⟩
  | startProcess unixMs command pid requestId outcome =>
    simp only [OutputWorld.act, Option.ite_none_right_eq_some] at hact
    obtain rfl := Option.some.inj hact.2
    exact h.startProcess hact.1 unixMs command pid requestId outcome
  | other unixMs kind outcome =>
    simp only [OutputWorld.act, Option.ite_none_left_eq_some] at hact
    obtain rfl := Option.some.inj hact.2
    exact h.other unixMs outcome hact.1
  | drain stream chance =>
    cases hrun : w.monitor with
    | running offset =>
      simp only [OutputWorld.act, hrun] at hact
      cases hact
      exact h.drain hrun stream chance
    | stopped | failing =>
      simp only [OutputWorld.act, hrun] at hact
      cases hact
  | exit unixMs code outcome =>
    cases hrun : w.monitor with
    | running offset | failing =>
      simp only [OutputWorld.act, hrun] at hact
      cases hact
      exact h.recordExit unixMs code outcome
    | stopped =>
      simp only [OutputWorld.act, hrun] at hact
      cases hact
  | kill =>
    cases hact
    refine reopened_inv (fun events hevents => ?_) h.written
    exact (h.images events (Kept.mem_images_kill.mp hevents)).of_logs (fun _ => le_rfl)
      fun _ => rfl
  | powerLoss journal stdout stderr =>
    simp only [OutputWorld.act, Option.ite_none_right_eq_some] at hact
    obtain ⟨⟨himage, hstdout, hstderr⟩, hact⟩ := hact
    cases hact
    have hkept : ∀ log log' : Bytes, ∀ n ≤ log.length, log'.take n = log.take n → n ≤ log'.length := by
      intro log log' n hn heq
      have hlength := congrArg List.length heq
      rw [List.length_take, List.length_take] at hlength
      omega
    refine reopened_inv (fun events hevents => ?_) fun stream => ?_
    · obtain rfl := Kept.mem_images_stable.mp hevents
      refine (h.images events himage).of_logs (fun _ => le_rfl) fun stream => ?_
      cases stream with
      | stdout => exact hstdout
      | stderr => exact hstderr
    · cases stream with
      | stdout => exact hkept _ _ _ (h.written .stdout) hstdout
      | stderr => exact hkept _ _ _ (h.written .stderr) hstderr

theorem OutputInv.reaches {guard : OutputWorld → OutputAction → Prop}
    (h : (outputMachine sha256 processId).Reaches guard start w) : OutputInv sha256 processId w :=
  h.invariant outputInv_start fun _ _ _ _ hact hw => hw.act hact

end OutputWorld

/-- In every run, with whatever faults and crashes, the output events of the journal
(and of every journal that a crash can leave) tile the logs, the live and the replayed
counters stand at their end, and both streams together keep the limit. -/
theorem output_events_tile_the_log (sha256 : Bytes → String) (processId : Uuid) (w : OutputWorld)
    (h : (outputMachine sha256 processId).Reaches (fun _ _ => True) .start w) :
    (∀ events ∈ w.journal.images,
      (∀ stream, TilesLog processId stream (w.log stream) events) ∧
      (∀ record, OutputWorld.replayed sha256 processId events = some record → ∀ stream,
        record.bytes stream = (loggedOutput processId stream events).length) ∧
      (loggedOutput processId .stdout events).length +
        (loggedOutput processId .stderr events).length ≤ processOutputMaxBytes) ∧
    ∀ record, w.record = some record → ∀ stream,
      record.bytes stream = (loggedOutput processId stream w.journal.now).length := by
  have hinv := OutputWorld.OutputInv.reaches h
  refine ⟨fun events hevents => ⟨fun stream => ?_, fun record hrecord stream => ?_, ?_⟩, ?_⟩
  · exact ((hinv.images events hevents).contiguous stream).tiles
      ((hinv.images events hevents).logged stream)
  · have hcounted := (hinv.images events hevents).counted stream
    rwa [hrecord, Option.elim_some] at hcounted
  · exact (hinv.images events hevents).limit
  · exact fun record hrecord stream => hinv.toOutputSound.bytes_eq hrecord stream

def buffersAll : DrainChance := ⟨true, [], true, .buffered, 0⟩

def interruptedOutput : List OutputAction :=
  [.startProcess 0 "c" none none .synced, .grow .stdout [1, 2, 3], .drain .stdout
    ⟨true, [2, 0], true, .buffered, 0⟩, .grow .stderr [9], .drain .stderr buffersAll,
    .powerLoss [⟨1, 0, .processStarted 7 "c" none none⟩] [1, 2, 3] [9], .grow .stdout [4],
    .drain .stdout buffersAll, .drain .stderr buffersAll]

set_option maxRecDepth 20000 in
theorem interrupted_output_tiles : ∃ w, (outputMachine (fun _ => "") 7).Reaches (fun _ _ => True)
      .start w ∧ loggedOutput 7 .stdout w.journal.now = [1, 2, 3, 4] ∧
    TilesLog 7 .stdout (w.log .stdout) w.journal.now := by
  have hrun : ((outputMachine (fun _ => "") 7).runWith (fun _ _ => true) interruptedOutput .start).any
      (fun w => loggedOutput 7 .stdout w.journal.now = [1, 2, 3, 4]) = true := by decide
  obtain ⟨w, hreach, hlogged⟩ :=
    Steps.Machine.exists_reaches _ (fun _ _ _ => trivial) hrun
  have htiles := (output_events_tile_the_log _ 7 w hreach).1 _ (Durable.Kept.now_mem_images _)
  exact ⟨w, hreach, of_decide_eq_true hlogged, htiles.1 .stdout⟩

end Asp
