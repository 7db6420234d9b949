import Asp.Proofs.Recovery
import Asp.Proofs.SessionRuns

/-! Replay from a cursor: `events_since_locked` answers with exactly the events after the cursor, or
says that they are compacted. -/

namespace Asp

open Std Framing Durable

namespace EventReplayBuffer

/-- The buffer after these events, or after the first that does not fit. -/
def pushAll (buffer : EventReplayBuffer) : List Event → EventReplayBuffer
  | [] => buffer
  | e :: events => if (buffer.push e).2 then (buffer.push e).1.pushAll events else (buffer.push e).1

def newer (buffer : EventReplayBuffer) (events : List Event) : List Event :=
  events.filter fun e => buffer.afterEventId < e.id

variable {buffer : EventReplayBuffer} {e : Event} {events : List Event}

theorem push_afterEventId : (buffer.push e).1.afterEventId = buffer.afterEventId := by
  unfold push
  split_ifs <;> rfl

theorem push_limitReached (hopen : buffer.limitReached = false) :
    (buffer.push e).1.limitReached = !(buffer.push e).2 := by
  unfold push
  split_ifs <;> simp [hopen]

theorem push_events (h : (buffer.push e).2 = true) :
    (buffer.push e).1.events = buffer.events ++ buffer.newer [e] := by
  unfold push at h ⊢
  split_ifs at h ⊢ with hold hfull
  · simp [newer, hold]
  · simp [newer, Nat.lt_of_not_le hold]

theorem pushAll_cons_of_ok (h : (buffer.push e).2 = true) :
    buffer.pushAll (e :: events) = (buffer.push e).1.pushAll events := if_pos h

theorem pushAll_cons_of_full (h : (buffer.push e).2 = false) :
    buffer.pushAll (e :: events) = (buffer.push e).1 := if_neg (by rw [h]; exact Bool.false_ne_true)

theorem pushAll_append (hopen : (buffer.pushAll events).limitReached = false)
    (hstart : buffer.limitReached = false) (more : List Event) :
    buffer.pushAll (events ++ more) = (buffer.pushAll events).pushAll more := by
  induction events generalizing buffer with
  | nil => rfl
  | cons e events ih =>
    cases hpush : (buffer.push e).2 with
    | false =>
      rw [pushAll_cons_of_full hpush, push_limitReached hstart, hpush] at hopen
      exact absurd hopen (by simp)
    | true =>
      rw [List.cons_append, pushAll_cons_of_ok hpush, pushAll_cons_of_ok hpush]
      rw [pushAll_cons_of_ok hpush] at hopen
      exact ih hopen (by rw [push_limitReached hstart, hpush]; rfl)

theorem pushAll_append_of_full (hfull : (buffer.pushAll events).limitReached = true)
    (hstart : buffer.limitReached = false) (more : List Event) :
    buffer.pushAll (events ++ more) = buffer.pushAll events := by
  induction events generalizing buffer with
  | nil => exact absurd (hstart.symm.trans hfull) Bool.false_ne_true
  | cons e events ih =>
    cases hpush : (buffer.push e).2 with
    | false => rw [List.cons_append, pushAll_cons_of_full hpush, pushAll_cons_of_full hpush]
    | true =>
      rw [List.cons_append, pushAll_cons_of_ok hpush, pushAll_cons_of_ok hpush]
      rw [pushAll_cons_of_ok hpush] at hfull
      exact ih hfull (by rw [push_limitReached hstart, hpush]; rfl)

theorem newer_cons : buffer.newer (e :: events) = buffer.newer [e] ++ buffer.newer events := by
  rw [newer, newer, newer, ← List.filter_append, List.singleton_append]

theorem newer_push : (buffer.push e).1.newer events = buffer.newer events := by
  rw [newer, newer, push_afterEventId]

theorem pushAll_events (hopen : (buffer.pushAll events).limitReached = false)
    (hstart : buffer.limitReached = false) :
    (buffer.pushAll events).events = buffer.events ++ buffer.newer events := by
  induction events generalizing buffer with
  | nil => simp [pushAll, newer]
  | cons e events ih =>
    cases hpush : (buffer.push e).2 with
    | false =>
      rw [pushAll_cons_of_full hpush, push_limitReached hstart, hpush] at hopen
      exact absurd hopen (by simp)
    | true =>
      rw [pushAll_cons_of_ok hpush] at hopen ⊢
      rw [ih hopen (by rw [push_limitReached hstart, hpush]; rfl), push_events hpush, newer_push,
        List.append_assoc, ← newer_cons]

theorem pushAll_fits (hstart : buffer.limitReached = false)
    (hcount : buffer.events.length + (buffer.newer events).length ≤ maxDurableReplayEvents)
    (hbytes : buffer.bytes + ((buffer.newer events).map eventApproxBytes).sum ≤
      maxDurableReplayBytes) :
    (buffer.pushAll events).limitReached = false := by
  induction events generalizing buffer with
  | nil => exact hstart
  | cons e events ih =>
    rw [newer_cons, List.length_append] at hcount
    rw [newer_cons, List.map_append, List.sum_append] at hbytes
    by_cases hold : e.id ≤ buffer.afterEventId
    · have hnone : buffer.newer [e] = [] := by simp [newer, hold]
      have hpush : buffer.push e = (buffer, true) := if_pos hold
      rw [pushAll_cons_of_ok (by rw [hpush]), hpush]
      rw [hnone] at hcount hbytes
      simp only [List.length_nil, List.map_nil, List.sum_nil, Nat.zero_add] at hcount hbytes
      exact ih hstart hcount hbytes
    · have hone : buffer.newer [e] = [e] := by simp [newer, Nat.lt_of_not_le hold]
      rw [hone] at hcount hbytes
      simp only [List.length_singleton, List.map_singleton, List.sum_singleton] at hcount hbytes
      have hpush : buffer.push e = ({ buffer with
          events := buffer.events ++ [e], bytes := buffer.bytes + eventApproxBytes e }, true) := by
        rw [push, if_neg hold, if_neg (by omega)]
      rw [pushAll_cons_of_ok (by rw [hpush]), hpush]
      refine ih hstart ?_ ?_
      · simp only [List.length_append, List.length_singleton]
        exact (Nat.add_assoc _ _ _).le.trans hcount
      · exact (Nat.add_assoc _ _ _).le.trans hbytes

end EventReplayBuffer

section Scan

variable {c : Crates} {boundary : ℕ} {buffer : EventReplayBuffer}

variable {events : List Event} {replay : Replay}

/-- The read is at the newest event so far, which is after the boundary. -/
structure Replay.Reads (boundary : ℕ) (buffer : EventReplayBuffer) (replay : Replay) : Prop where
  collected : replay.collected = some buffer
  room : buffer.limitReached = false
  next : replay.loaded.nextId = replay.lastEventId
  last : boundary ≤ replay.lastEventId

/-- What a read of `events` leaves: the buffer is full, or all was read. -/
structure Replay.Collects (boundary : ℕ) (buffer : EventReplayBuffer) (events : List Event)
    (replay replay' : Replay) : Prop where
  collected : replay'.collected = some (buffer.pushAll (live boundary events))
  reads : (buffer.pushAll (live boundary events)).limitReached = false →
    replay'.Reads boundary (buffer.pushAll (live boundary events)) ∧
      replay'.lastEventId = replay.lastEventId + (live boundary events).length

theorem Replay.Collects.limited {replay' : Replay}
    (h : replay.Collects boundary buffer events replay') :
    replay'.limited = (buffer.pushAll (live boundary events)).limitReached := by
  simp [Replay.limited, h.collected]

theorem Replay.Collects.nil (h : replay.Reads boundary buffer) :
    replay.Collects boundary buffer [] replay :=
  ⟨h.collected, fun _ => ⟨h, rfl⟩⟩

theorem Replay.Collects.trans {more : List Event} {replay₁ replay₂ : Replay}
    (hopen : buffer.limitReached = false) (h₁ : replay.Collects boundary buffer events replay₁)
    (hread : (buffer.pushAll (live boundary events)).limitReached = false)
    (h₂ : replay₁.Collects boundary (buffer.pushAll (live boundary events)) more replay₂) :
    replay.Collects boundary buffer (events ++ more) replay₂ := by
  have happend := EventReplayBuffer.pushAll_append hread hopen (live boundary more)
  refine ⟨?_, fun hlimit => ?_⟩
  · rw [live_append, happend]
    exact h₂.collected
  · rw [live_append, happend] at hlimit ⊢
    obtain ⟨hreads, hlast⟩ := h₂.reads hlimit
    rw [hlast, (h₁.reads hread).2, List.length_append, Nat.add_assoc]
    exact ⟨hreads, rfl⟩

theorem Replay.Collects.full (more : List Event) {replay' : Replay}
    (hopen : buffer.limitReached = false) (h : replay.Collects boundary buffer events replay')
    (hfull : (buffer.pushAll (live boundary events)).limitReached = true) :
    replay.Collects boundary buffer (events ++ more) replay' := by
  have hsame : buffer.pushAll (live boundary (events ++ more)) =
      buffer.pushAll (live boundary events) := by
    rw [live_append, EventReplayBuffer.pushAll_append_of_full hfull hopen]
  refine ⟨by rw [hsame]; exact h.collected, fun hlimit => ?_⟩
  rw [hsame, hfull] at hlimit
  exact absurd hlimit.symm Bool.false_ne_true

theorem LogScan.event_collects {s : LogScan} {e : Event} (hreads : s.toReplay.Reads boundary buffer)
    (hraw : ∀ previous ∈ s.rawLastEventId, previous < e.id)
    (hfollows : Follows boundary s.lastEventId (e :: events)) :
    ∃ s', s.event c boundary false e =
        .ok (s', (buffer.pushAll (live boundary [e])).limitReached) ∧
      s.toReplay.Collects boundary buffer [e] s'.toReplay ∧ s'.rawLastEventId = some e.id ∧
      s'.offset = s.offset ∧
      ((buffer.pushAll (live boundary [e])).limitReached = false →
        Follows boundary s'.lastEventId events) := by
  obtain ⟨hcollected, hopen, hnext, hlast⟩ := hreads
  rcases LogScan.event_cases (c := c) false hnext hlast hraw hfollows with
    ⟨hlive, hevent, hrest⟩ | ⟨hlive, hid, hevent, hrest⟩
  · rw [hlive, hevent, EventReplayBuffer.pushAll, hopen]
    refine ⟨_, rfl, ⟨by rw [hlive]; exact hcollected, fun _ => ?_⟩, rfl, rfl, fun _ => hrest⟩
    rw [hlive]
    exact ⟨⟨hcollected, hopen, hnext, hlast⟩, rfl⟩
  · simp only [Replay.take, hcollected, Option.map_some, Option.any_some] at hevent
    rw [hlive, hevent]
    cases hpush : (buffer.push e).2 with
    | false =>
      have hall : buffer.pushAll [e] = (buffer.push e).1 :=
        EventReplayBuffer.pushAll_cons_of_full hpush
      have hfull : (buffer.pushAll [e]).limitReached = true := by
        rw [hall, EventReplayBuffer.push_limitReached hopen, hpush]
        rfl
      simp only [Bool.not_false, if_true, hfull]
      refine ⟨_, rfl, ?_, rfl, rfl, fun h => ?_⟩
      · refine ⟨by rw [hlive, hall], fun h => ?_⟩
        rw [hlive, hfull] at h
        exact absurd h.symm Bool.false_ne_true
      · exact absurd h.symm Bool.false_ne_true
    | true =>
      have hall : buffer.pushAll [e] = (buffer.push e).1 :=
        EventReplayBuffer.pushAll_cons_of_ok hpush
      have hroom : (buffer.pushAll [e]).limitReached = false := by
        rw [hall, EventReplayBuffer.push_limitReached hopen, hpush]
        rfl
      simp only [Bool.not_true, Bool.false_eq_true, if_false, hroom]
      refine ⟨_, rfl, ?_, rfl, rfl, fun _ => hrest⟩
      refine ⟨by rw [hlive, hall], fun _ => ?_⟩
      rw [hlive, hall]
      refine ⟨⟨rfl, hall ▸ hroom, rfl, ?_⟩, hid⟩
      show boundary ≤ e.id
      omega

theorem scanFrames_collects {checksummed : Bool} {fuel : ℕ} {s : LogScan} (hfits : Fits c events)
    (hfuel : events.length < fuel) (hreads : s.toReplay.Reads boundary buffer)
    (hraw : ∀ previous ∈ s.rawLastEventId, ∀ e ∈ events, previous < e.id)
    (hordered : events.Pairwise (·.id < ·.id)) (hfollows : Follows boundary s.lastEventId events) :
    ∃ s', scanFrames c false checksummed boundary false fuel (records c checksummed events) s =
        .ok (s', (buffer.pushAll (live boundary events)).limitReached) ∧
      s.toReplay.Collects boundary buffer events s'.toReplay ∧
      ((buffer.pushAll (live boundary events)).limitReached = false →
        s'.offset = s.offset + (records c checksummed events).length) := by
  induction events generalizing s fuel buffer with
  | nil =>
    obtain ⟨fuel, rfl⟩ := Nat.exists_eq_succ_of_ne_zero (by omega : fuel ≠ 0)
    obtain ⟨stage, hread⟩ := torn_nil (c := c) checksummed
    refine ⟨s, ?_, .nil hreads, fun _ => by simp⟩
    simp only [scanFrames, records_nil, hread, live_nil, EventReplayBuffer.pushAll, hreads.room]
    exact if_pos (.inr trivial)
  | cons e events ih =>
    obtain ⟨fuel, rfl⟩ := Nat.exists_eq_succ_of_ne_zero (by omega : fuel ≠ 0)
    rw [List.pairwise_cons] at hordered
    obtain ⟨s₁, hevent, hcollects, hr₁, ho₁, hfollows₁⟩ :=
      LogScan.event_collects (c := c) hreads
        (fun previous hp => hraw previous hp e (List.mem_cons_self ..)) hfollows
    have hfit : (c.event.encode e).length ≤ maxFrameBytes := hfits e (List.mem_cons_self ..)
    have hcons : live boundary (e :: events) = live boundary [e] ++ live boundary events :=
      live_append boundary [e] events
    cases hlimit : (buffer.pushAll (live boundary [e])).limitReached with
    | true =>
      have hsame : buffer.pushAll (live boundary (e :: events)) =
          buffer.pushAll (live boundary [e]) := by
        rw [hcons, EventReplayBuffer.pushAll_append_of_full hlimit hreads.room]
      refine ⟨s₁, ?_, hcollects.full events hreads.room hlimit, fun h => ?_⟩
      · rw [records_cons, scanFrames, readFrame_record hfit]
        simp only [c.event.decode_encode, hevent, hsame, hlimit]
      · rw [hsame, hlimit] at h
        exact absurd h.symm Bool.false_ne_true
    | false =>
      have hsame : buffer.pushAll (live boundary (e :: events)) =
          (buffer.pushAll (live boundary [e])).pushAll (live boundary events) := by
        rw [hcons, EventReplayBuffer.pushAll_append hlimit hreads.room]
      obtain ⟨s', hscan, hcollects', ho'⟩ := @ih (buffer.pushAll (live boundary [e])) fuel
        { s₁ with offset := s₁.offset + 4 + (if checksummed then 4 else 0) +
          (c.event.encode e).length }
        (fun x hx => hfits x (List.mem_cons_of_mem _ hx))
        (by rw [List.length_cons] at hfuel; omega) (hcollects.reads hlimit).1
        (by
          intro previous hp x hx
          obtain rfl := Option.some.inj (hr₁.symm.trans hp)
          exact hordered.1 x hx) hordered.2 (hfollows₁ hlimit)
      refine ⟨s', ?_, hcollects.trans hreads.room hlimit hcollects', fun h => ?_⟩
      · rw [records_cons, scanFrames, readFrame_record hfit]
        simp only [c.event.decode_encode, hevent, hlimit, hsame]
        exact hscan
      · rw [hsame] at h
        rw [ho' h, records_cons, List.length_append, record_length]
        simp only [ho₁]
        omega

theorem loadEventLog_collects {checksummed : Bool} (hfits : Fits c events)
    (hsize : (logBytes c checksummed events).length ≤ eventLogMaxBytes)
    (hreads : replay.Reads boundary buffer) (hordered : events.Pairwise (·.id < ·.id))
    (hfollows : Follows boundary replay.lastEventId events) :
    ∃ first replay', loadEventLog c false (logBytes c checksummed events) boundary false replay =
        .ok ⟨logBytes c checksummed events, checksummed, first, replay'⟩ ∧
      replay.Collects boundary buffer events replay' := by
  have hlen := logBytes_length c checksummed events
  have hpos : 0 < headerLen := by decide
  have hrepair : repairHeader false (logBytes c checksummed events) =
      .ok (logBytes c checksummed events) := by
    rw [repairHeader, if_neg (by omega), if_neg (by omega)]
  have hbody : (logBytes c checksummed events).drop headerLen = records c checksummed events := by
    rw [logBytes]
    exact List.drop_left' rfl
  have hversion : readVersion (logBytes c checksummed events) = .ok checksummed :=
    readVersion_header checksummed _
  have hfuel : events.length < (records c checksummed events).length + 1 :=
    Nat.lt_succ_of_le (length_le_records c checksummed events)
  obtain ⟨s', hscan, hcollects, ho'⟩ := scanFrames_collects
    (s := ⟨replay, none, none, headerLen⟩) hfits hfuel hreads (by simp) hordered hfollows
  have hcontent : (if (buffer.pushAll (live boundary events)).limitReached then
      logBytes c checksummed events else (logBytes c checksummed events).take s'.offset) =
      logBytes c checksummed events := by
    split_ifs with hlimit
    · rfl
    · rw [ho' (by simpa using hlimit), ← hlen]
      exact List.take_length
  refine ⟨s'.firstEventId, s'.toReplay, ?_, hcollects⟩
  simp only [loadEventLog, hrepair, hversion, hbody, hscan, hcontent]
  rw [if_neg (by omega)]

theorem find_segment {segments : List (SegmentName × ℕ)} {s : SegmentName × ℕ}
    (hdistinct : (segments.map Prod.fst).Nodup) (hs : s ∈ segments) :
    segments.find? (fun entry => entry.1 = s.1) = some s := by
  induction segments with
  | nil => exact absurd hs List.not_mem_nil
  | cons t segments ih =>
    rw [List.map_cons, List.nodup_cons] at hdistinct
    rcases List.mem_cons.mp hs with rfl | hs
    · exact List.find?_cons_of_pos (by simp)
    · have hne : t.1 ≠ s.1 := fun h => hdistinct.1 (h ▸ List.mem_map_of_mem hs)
      rw [List.find?_cons_of_neg (by simpa using hne)]
      exact ih hdistinct.2 hs

theorem SessionDir.write_self (d : SessionDir Bytes) (i : ℕ) : d.write i (d.files i) = d := by
  rw [SessionDir.write, Function.update_eq_self]

theorem readSegments_collects {d : SessionDir Bytes} {recs : ℕ → List Event}
    {segments : List (SegmentName × ℕ)} (hdistinct : (d.segments.map Prod.fst).Nodup)
    (hlisted : ∀ s ∈ segments, s ∈ d.segments)
    (hfile : ∀ s ∈ segments, ∃ checksummed, d.files s.2 = logBytes c checksummed (recs s.2))
    (hfits : ∀ s ∈ segments, Fits c (recs s.2))
    (hsmall : ∀ s ∈ segments, (d.files s.2).length ≤ eventLogMaxBytes)
    (hordered : ∀ s ∈ segments, (recs s.2).Pairwise (·.id < ·.id))
    (hreads : replay.Reads boundary buffer)
    (hfollows : Follows boundary replay.lastEventId ((segments.map Prod.snd).flatMap recs)) :
    ∃ replay', readSegments c boundary (segments.map Prod.fst) d replay = (d, .ok replay') ∧
      replay.Collects boundary buffer ((segments.map Prod.snd).flatMap recs) replay' := by
  induction segments generalizing replay buffer with
  | nil => exact ⟨replay, rfl, .nil hreads⟩
  | cons s segments ih =>
    rw [List.forall_mem_cons] at hlisted hfile hfits hsmall hordered
    obtain ⟨checksummed, hbytes⟩ := hfile.1
    rw [List.map_cons, List.flatMap_cons, follows_append] at hfollows
    obtain ⟨first, replay₁, hload, hcollects⟩ := loadEventLog_collects hfits.1
      (hbytes ▸ hsmall.1) hreads hordered.1 hfollows.1
    simp only [List.map_cons, List.flatMap_cons, readSegments, find_segment hdistinct hlisted.1]
    rw [hbytes, hload]
    simp only [← hbytes, SessionDir.write_self, hcollects.limited]
    cases hlimit : (buffer.pushAll (live boundary (recs s.2))).limitReached with
    | true => exact ⟨replay₁, rfl, hcollects.full _ hreads.room hlimit⟩
    | false =>
      obtain ⟨hreads₁, hlast⟩ := hcollects.reads hlimit
      obtain ⟨replay', hrest, hcollects'⟩ := ih hlisted.2 hfile.2 hfits.2 hsmall.2 hordered.2 hreads₁
        (hlast ▸ hfollows.2)
      exact ⟨replay', hrest, hcollects.trans hreads.room hlimit hcollects'⟩

end Scan

section Since

variable {c : Crates} {sessionId : Uuid} {w : World} {j : Journal} {a : Wal} {after : ℕ}

def EventReplayBuffer.start (after : ℕ) : EventReplayBuffer := ⟨after, [], 0, false⟩

theorem readActive_collects {recs : ℕ → List Event} {replay : Replay} {buffer : EventReplayBuffer}
    (hrun : Running c sessionId w.view w.mem a recs)
    (hactive : w.view.active = some w.mem.events.inode) (hreads : replay.Reads a.boundary buffer)
    (hfollows : Follows a.boundary replay.lastEventId (recs w.mem.events.inode)) :
    ∃ replay', readActive c a.boundary w.view replay = (w.view, .ok replay') ∧
      replay.Collects a.boundary buffer (recs w.mem.events.inode) replay' := by
  have hfile : w.mem.events.inode ∈ w.view.logFiles := mem_logFiles.mpr (.inr hactive)
  obtain ⟨first, replay', hload, hcollects⟩ := loadEventLog_collects
    (hrun.recovers.fits _ hfile) (hrun.content ▸ hrun.recovers.small _ hfile) hreads
    (hrun.recovers.ordered_file hfile) hfollows
  refine ⟨replay', ?_, hcollects⟩
  simp only [readActive, hactive]
  rw [hrun.content, hload]
  simp only [← hrun.content, SessionDir.write_self]

theorem readEventsSince_eq {recs : ℕ → List Event} (hrun : Running c sessionId w.view w.mem a recs)
    (hactive : w.view.active = some w.mem.events.inode) (hlisted : Listed w.view w.mem a)
    (hafter : a.boundary ≤ after) :
    readEventsSince c w.view w.mem after = (w.view, .ok
      (if ((EventReplayBuffer.start after).pushAll a.events).limitReached then none
        else some ((EventReplayBuffer.start after).newer a.events))) := by
  have hrecovers := hrun.recovers
  have hflat : flat w.view recs = sealedEvents w.view recs ++ recs w.mem.events.inode := by
    rw [flat_eq_sealed, hactive]
    simp
  have hfollows := hrecovers.follows
  rw [hflat, follows_append] at hfollows
  have hin : ∀ s ∈ w.view.sortedSegments, s ∈ w.view.segments ∧ s.2 ∈ w.view.logFiles := fun s hs =>
    ⟨mem_sortedSegments.mp hs, mem_logFiles.mpr (.inl ⟨s, mem_sortedSegments.mp hs, rfl⟩)⟩
  have hstart : (⟨{ nextId := a.boundary }, a.boundary, some (.start after)⟩ : Replay).Reads
      a.boundary (.start after) := ⟨rfl, rfl, rfl, le_rfl⟩
  obtain ⟨replay₁, hsegments, hcollects⟩ : ∃ replay₁,
      readSegments c a.boundary (w.view.sortedSegments.map Prod.fst) w.view
        ⟨{ nextId := a.boundary }, a.boundary, some (.start after)⟩ = (w.view, .ok replay₁) ∧
      Replay.Collects a.boundary (.start after) (sealedEvents w.view recs)
        ⟨{ nextId := a.boundary }, a.boundary, some (.start after)⟩ replay₁ :=
    readSegments_collects hlisted.distinct (fun s hs => (hin s hs).1)
    (fun s hs => (hrecovers.segment s (hin s hs).1).resolve_left
      fun hnil => hlisted.whole s (hin s hs).1 hnil.1)
    (fun s hs => hrecovers.fits _ (hin s hs).2) (fun s hs => hrecovers.small _ (hin s hs).2)
    (fun s hs => hrecovers.ordered_file (hin s hs).2) hstart hfollows.1
  have hanswer : ∀ {replay' : Replay}, Replay.Collects a.boundary (.start after) (flat w.view recs)
      ⟨{ nextId := a.boundary }, a.boundary, some (.start after)⟩ replay' →
      (if replay'.limited then none else some (replay'.collected.elim [] EventReplayBuffer.events)) =
        if ((EventReplayBuffer.start after).pushAll a.events).limitReached then none
        else some ((EventReplayBuffer.start after).newer a.events) := by
    intro replay' hall
    rw [hall.limited, hall.collected, hrecovers.live]
    split_ifs with hlimit
    · rfl
    · rw [Option.elim_some, EventReplayBuffer.pushAll_events (by simpa using hlimit) rfl]
      rfl
  unfold readEventsSince
  rw [hlisted.boundary, hlisted.segments, if_neg (by omega)]
  simp only
  rw [show EventReplayBuffer.mk after [] 0 false = .start after from rfl, hsegments]
  simp only [hcollects.limited]
  cases hlimit : ((EventReplayBuffer.start after).pushAll
      (live a.boundary (sealedEvents w.view recs))).limitReached with
  | true =>
    have hall := hcollects.full (recs w.mem.events.inode) rfl hlimit
    rw [← hflat] at hall
    rw [← hanswer hall, hcollects.limited, hlimit]
    rfl
  | false =>
    obtain ⟨hreads, hlast⟩ := hcollects.reads hlimit
    obtain ⟨replay', hread, hcollects'⟩ := readActive_collects hrun hactive hreads (hlast ▸ hfollows.2)
    have hall := hcollects.trans rfl hlimit hcollects'
    rw [← hflat] at hall
    simp only [hread, Bool.false_eq_true, if_false, hanswer hall]

theorem filter_after {n : ℕ} {events : List Event}
    (hids : events.map Event.id = List.range' (n + 1) events.length) (hle : n ≤ after) :
    events.filter (fun e => after < e.id) = events.drop (after - n) := by
  induction events generalizing n with
  | nil => simp
  | cons e events ih =>
    rw [List.map_cons, List.length_cons, List.range'_succ, List.cons.injEq] at hids
    rcases hle.eq_or_lt with rfl | hlt
    · rw [Nat.sub_self, List.drop_zero, List.filter_eq_self]
      intro x hx
      have hx' : x.id ∈ List.range' (n + 1) (events.length + 1) := by
        rw [List.range'_succ, ← hids.2, ← hids.1, ← List.map_cons]
        exact List.mem_map_of_mem hx
      rw [List.mem_range'_1] at hx'
      exact decide_eq_true hx'.1
    · obtain ⟨k, hk⟩ := Nat.exists_eq_add_of_lt hlt
      rw [List.filter_cons_of_neg (by rw [decide_eq_true_eq, hids.1]; omega), ih hids.2 hlt,
        show after - n = after - (n + 1) + 1 by omega, List.drop_succ_cons]

theorem ids_after {n : ℕ} {events : List Event}
    (hids : events.map Event.id = List.range' (n + 1) events.length) (hle : n ≤ after) :
    (events.drop (after - n)).map Event.id =
      List.range' (after + 1) (n + events.length - after) := by
  rw [List.map_drop, hids, List.drop_range']
  congr 1 <;> omega

theorem Windowed.since (h : Windowed j a)
    (hids : a.events.map Event.id = List.range' (a.boundary + 1) a.events.length)
    (hretained : ¬ after + 1 < j.retainedFromEventId) :
    a.boundary ≤ after ∧ j.events.filter (fun e => after < e.id) = a.events.drop (after - a.boundary) := by
  obtain ⟨front, hfront⟩ := h.newest
  have hreach : a.boundary + front.length ≤ after := by
    rw [Journal.retainedFromEventId] at hretained
    cases hevents : j.events with
    | nil =>
      rw [hevents, List.append_nil] at hfront
      rw [hevents] at hretained
      have hnext : j.nextId = a.boundary + a.events.length := h.next
      rw [hfront]
      simp only [List.head?_nil, Option.map_none, Option.getD_none] at hretained
      omega
    | cons e events =>
      have hid : e.id = a.boundary + 1 + front.length := by
        have hget := congrArg (fun ids => ids[front.length]?) hids
        simp only [← hfront, hevents, List.map_append, List.map_cons] at hget
        simpa using hget
      rw [hevents] at hretained
      simp only [List.head?_cons, Option.map_some, Option.getD_some] at hretained
      omega
  have hboundary : a.boundary ≤ after := by omega
  refine ⟨hboundary, ?_⟩
  rw [← filter_after hids hboundary, ← hfront, List.filter_append]
  have hold : front.filter (fun e => after < e.id) = [] := by
    refine List.filter_eq_nil_iff.mpr fun e he => ?_
    have hmem : e.id ∈ front.map Event.id := List.mem_map_of_mem he
    have htake : front.map Event.id = List.range' (a.boundary + 1) front.length := by
      rw [← hfront, List.map_append, List.length_append, ← List.range'_append_1] at hids
      exact (List.append_inj hids (by simp)).1
    rw [htake, List.mem_range'_1] at hmem
    simp only [decide_eq_true_eq]
    omega
  rw [hold, List.nil_append]

theorem pushAll_start_fits (hcount : ((EventReplayBuffer.start after).newer a.events).length ≤
      maxDurableReplayEvents)
    (hbytes : (((EventReplayBuffer.start after).newer a.events).map eventApproxBytes).sum ≤
      maxDurableReplayBytes) :
    ((EventReplayBuffer.start after).pushAll a.events).limitReached = false :=
  EventReplayBuffer.pushAll_fits rfl ((Nat.zero_add _).le.trans hcount)
    ((Nat.zero_add _).le.trans hbytes)

theorem SessionState.Kept.eventsSince {s : SessionState} (h : s.Kept c sessionId)
    (after : ℕ) :
    ∃ reply, eventsSinceLocked c s.world.view s.world.mem s.journal after =
        (s.world.view, .ok reply) ∧
      (reply.compacted = false ∧ s.log.boundary ≤ after ∧
          reply.events = s.log.events.drop (after - s.log.boundary) ∨
        reply.compacted = true ∧ reply.events = []) ∧
      (s.log.boundary ≤ after →
        (s.log.events.drop (after - s.log.boundary)).length ≤ maxDurableReplayEvents →
        ((s.log.events.drop (after - s.log.boundary)).map eventApproxBytes).sum ≤
          maxDurableReplayBytes → reply.compacted = false) := by
  obtain ⟨⟨⟨recs, hrunning⟩, hlasting⟩, hwindow, hlisted⟩ := h
  have hids := hrunning.recovers.ids
  unfold eventsSinceLocked Journal.since
  by_cases hretained : after + 1 < s.journal.retainedFromEventId
  · simp only [hretained, decide_true, Bool.not_true, Bool.false_eq_true, if_false]
    rw [hlisted.boundary]
    by_cases hcovered : after < s.log.boundary
    · rw [if_pos hcovered]
      exact ⟨_, rfl, .inr ⟨rfl, rfl⟩, fun h => absurd hcovered (Nat.not_lt.mpr h)⟩
    -- the journal has forgotten the cursor: the log is read
    have hboundary : s.log.boundary ≤ after := Nat.not_lt.mp hcovered
    have hnewer : (EventReplayBuffer.start after).newer s.log.events =
        s.log.events.drop (after - s.log.boundary) := filter_after hids hboundary
    have hread := readEventsSince_eq hrunning hlasting.attached hlisted hboundary
    rw [if_neg hcovered, hread]
    cases hlimit : ((EventReplayBuffer.start after).pushAll s.log.events).limitReached with
    | true =>
      refine ⟨_, rfl, .inr ⟨rfl, rfl⟩, fun _ hcount hbytes => ?_⟩
      rw [← hnewer] at hcount hbytes
      exact absurd (hlimit.symm.trans (pushAll_start_fits hcount hbytes)) Bool.false_ne_true.symm
    | false =>
      simp only [Bool.false_eq_true, if_false]
      have hsome : (EventReplayBuffer.start after).newer s.log.events = [] →
          s.journal.nextId ≤ after := by
        rw [hnewer, List.drop_eq_nil_iff, hwindow.next, Wal.head]
        omega
      rw [if_neg (by simpa using hsome)]
      exact ⟨_, rfl, .inl ⟨rfl, hboundary, hnewer⟩, fun _ _ _ => rfl⟩
  · obtain ⟨hboundary, hsince⟩ := hwindow.since hids hretained
    simp only [hretained, decide_false, Bool.not_false, if_true, Bool.false_eq_true, if_false]
    exact ⟨_, rfl, .inl ⟨rfl, hboundary, hsince⟩, fun _ _ _ => rfl⟩

theorem SessionState.Kept.ids {s : SessionState} (h : s.Kept c sessionId) :
    s.log.events.map Event.id = List.range' (s.log.boundary + 1) s.log.events.length := by
  obtain ⟨⟨recs, hrunning⟩, -⟩ := h.live
  exact hrunning.recovers.ids

/-- Replay from a cursor, in every run of a session: exactly the events after it, or
the answer that they are compacted. From the snapshot on, it is the events unless they
are too many or too large to replay. -/
theorem events_since_exact_or_compacted {s : SessionState}
    (hrun : SessionRun c sessionId (fun _ call => call.Framed c) s) (after : ℕ) :
    ∃ reply, eventsSinceLocked c s.world.view s.world.mem s.journal after =
        (s.world.view, .ok reply) ∧
      (reply.compacted = false ∧ s.log.boundary ≤ after ∧
          reply.events = s.log.events.drop (after - s.log.boundary) ∧
          reply.events.map Event.id = List.range' (after + 1) (s.journal.nextId - after) ∨
        reply.compacted = true ∧ reply.events = []) ∧
      (s.world.mem.snapshotBoundary ≤ after →
        (s.log.events.drop (after - s.log.boundary)).length ≤ maxDurableReplayEvents →
        ((s.log.events.drop (after - s.log.boundary)).map eventApproxBytes).sum ≤
          maxDurableReplayBytes → reply.compacted = false) := by
  have hkept := (hrun.sound fun _ _ h => h).kept fun _ _ h => h
  obtain ⟨reply, heq, hcases, hfits⟩ := hkept.eventsSince after
  refine ⟨reply, heq, hcases.imp_left ?_, ?_⟩
  · rintro ⟨hcompacted, hboundary, hevents⟩
    refine ⟨hcompacted, hboundary, hevents, ?_⟩
    rw [hevents, hkept.window.next]
    exact ids_after hkept.ids hboundary
  · rwa [hkept.listed.boundary]

theorem freshSession_run (allowed : Wal → LogCall → Prop) :
    SessionRun postcard 0 allowed ⟨freshWorld, ⟨[], 0, 0, none⟩, ⟨none, [], 0⟩⟩ := by
  obtain ⟨d', hopen, hworld⟩ := freshWorld_opened
  rw [← hworld]
  exact .opened (.fresh (fun _ => []) 0) hopen

def compactedWorld : World := (compact postcard createdWorld createdSnapshot).1

def reportedWorld : World :=
  (Asp.append postcard (Asp.append postcard compactedWorld startedCall).1 lateOutput).1

def reportedJournal : Journal := ⟨[startedCall.event, lateOutput.event], 3, 259, some 0⟩

theorem reportedSession_run : ∃ a : Wal, a.boundary = 1 ∧
    a.events = [startedCall.event, lateOutput.event] ∧
    SessionRun postcard 0 (fun _ call => call.Framed postcard) ⟨reportedWorld, reportedJournal, a⟩ := by
  obtain ⟨hcreated, hstarted, hlate⟩ := lateCalls_sized
  have hok : ∀ w ∈ [(freshWorld, createdCall), (compactedWorld, startedCall),
      ((Asp.append postcard compactedWorld startedCall).1, lateOutput)],
      Asp.append postcard w.1 w.2 = ((Asp.append postcard w.1 w.2).1, true) := by
    intro w hw
    refine Prod.ext rfl ?_
    revert w
    decide +kernel
  have hcompact : compact postcard createdWorld createdSnapshot = (compactedWorld, true) :=
    Prod.ext rfl (by decide +kernel)
  have hrun₁ := (freshSession_run fun _ call => call.Framed postcard).step
    (.append 0 .sessionCreated ⟨0, false⟩ hcreated.framed (hok (freshWorld, createdCall) (by simp)))
  have hrun₂ := hrun₁.step (.compact rfl rfl trivial hcompact)
  have hrun₃ := hrun₂.step (.append 0 startedCall.event.kind ⟨0, false⟩ hstarted.framed
    (hok (compactedWorld, startedCall) (by simp)))
  have hrun₄ := hrun₃.step (.append 0 lateOutput.event.kind ⟨0, false⟩ hlate.framed
    (hok ((Asp.append postcard compactedWorld startedCall).1, lateOutput) (by simp)))
  exact ⟨_, rfl, rfl, hrun₄⟩

/-- From the start the events are compacted, from the snapshot on they are replayed. -/
theorem events_since_compaction : ∃ first next,
    eventsSinceLocked postcard reportedWorld.view reportedWorld.mem reportedJournal 0 =
      (reportedWorld.view, .ok first) ∧
    eventsSinceLocked postcard reportedWorld.view reportedWorld.mem reportedJournal 1 =
      (reportedWorld.view, .ok next) ∧
    first.compacted = true ∧ next.compacted = false ∧
    next.events = [startedCall.event, lateOutput.event] := by
  obtain ⟨a, hboundary, hevents, hrun⟩ := reportedSession_run
  obtain ⟨first, hfirst, hcases, -⟩ := events_since_exact_or_compacted hrun 0
  obtain ⟨next, hnext, hcases', hfits⟩ := events_since_exact_or_compacted hrun 1
  simp only [hboundary, hevents] at hcases hcases' hfits
  have hkept := hfits (by decide +kernel) (by decide) (by decide)
  refine ⟨first, next, hfirst, hnext, ?_, hkept, ?_⟩
  · rcases hcases with ⟨-, hle, -⟩ | ⟨hcompacted, -⟩
    · exact absurd hle (by decide)
    · exact hcompacted
  · rcases hcases' with ⟨-, -, hreplay, -⟩ | ⟨hcompacted, -⟩
    · exact hreplay
    · exact absurd (hkept.symm.trans hcompacted) Bool.false_ne_true

end Since

end Asp
