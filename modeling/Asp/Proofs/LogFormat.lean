import Asp.Spec.Wal

/-! One log file: what was written reads back, a cut file reads as its
complete records, and what loads is complete records and a torn tail. -/

namespace Asp

open Framing Durable Steps

section Format

variable (c : Crates)

def record (checksummed : Bool) (event : Event) : Bytes :=
  frame (crcOf c checksummed) (c.event.encode event)

def records (checksummed : Bool) (events : List Event) : Bytes :=
  (events.map (record c checksummed)).flatten

def logBytes (checksummed : Bool) (events : List Event) : Bytes :=
  eventLogHeader checksummed ++ records c checksummed events

/-- Every record is one that the loader accepts by its length. -/
def Fits (events : List Event) : Prop :=
  ∀ e ∈ events, (c.event.encode e).length ≤ maxFrameBytes

def Torn (checksummed : Bool) (bytes : Bytes) : Prop :=
  ∃ stage, readFrame maxFrameBytes (crcOf c checksummed) bytes = .torn stage

@[simp] theorem eventLogHeader_length (checksummed : Bool) :
    (eventLogHeader checksummed).length = headerLen := rfl

@[simp] theorem records_nil (checksummed : Bool) : records c checksummed [] = [] := rfl

theorem records_cons (checksummed : Bool) (e : Event) (events : List Event) :
    records c checksummed (e :: events) = record c checksummed e ++ records c checksummed events :=
  rfl

theorem records_append (checksummed : Bool) (events more : List Event) :
    records c checksummed (events ++ more) =
      records c checksummed events ++ records c checksummed more := by
  simp [records]

@[simp] theorem logBytes_nil (checksummed : Bool) :
    logBytes c checksummed [] = eventLogHeader checksummed := by
  simp [logBytes]

section

variable (checksummed : Bool)

theorem logBytes_append (events more : List Event) :
    logBytes c checksummed (events ++ more) =
      logBytes c checksummed events ++ records c checksummed more := by
  rw [logBytes, logBytes, records_append, List.append_assoc]

theorem logBytes_length (events : List Event) :
    (logBytes c checksummed events).length = headerLen + (records c checksummed events).length := by
  simp [logBytes]

theorem record_length (e : Event) :
    (record c checksummed e).length =
      4 + (if checksummed then 4 else 0) + (c.event.encode e).length := by
  cases checksummed <;> simp [record, frame_length, sumBytes, crcOf]

theorem record_length_pos (e : Event) : 0 < (record c checksummed e).length := frame_length_pos _ _

theorem length_le_records (events : List Event) :
    events.length ≤ (records c checksummed events).length := by
  induction events with
  | nil => simp
  | cons e events ih =>
    have := record_length_pos c checksummed e
    rw [records_cons, List.length_append, List.length_cons]
    omega

theorem logBytes_ne_nil (events : List Event) : logBytes c checksummed events ≠ [] := by
  intro h
  have hlen := logBytes_length c checksummed events
  rw [h, List.length_nil] at hlen
  exact absurd (Nat.eq_zero_of_add_eq_zero hlen.symm).1 (by decide)

end

theorem logBytes_length_eq {checksummed : Bool} {events : List Event}
    (h : (logBytes c checksummed events).length ≤ headerLen) : events = [] := by
  have := length_le_records c checksummed events
  rw [logBytes_length] at h
  exact List.length_eq_zero_iff.mp (by omega)

variable {c}

theorem torn_nil (checksummed : Bool) : Torn c checksummed [] := ⟨.length, rfl⟩

theorem maxFrameBytes_lt : maxFrameBytes < 2 ^ 32 := by decide

theorem readFrame_record {checksummed : Bool} {e : Event}
    (h : (c.event.encode e).length ≤ maxFrameBytes) (rest : Bytes) :
    readFrame maxFrameBytes (crcOf c checksummed) (record c checksummed e ++ rest) =
      .frame (c.event.encode e) rest :=
  readFrame_frame h (h.trans_lt maxFrameBytes_lt) rest

end Format

def live (boundary : ℕ) (events : List Event) : List Event :=
  events.filter fun e => boundary < e.id

@[simp] theorem live_nil (boundary : ℕ) : live boundary [] = [] := rfl

theorem live_append (boundary : ℕ) (events more : List Event) :
    live boundary (events ++ more) = live boundary events ++ live boundary more :=
  List.filter_append ..

/-- Covered events first, then the events after `last`, without a gap. -/
def Follows (boundary : ℕ) : ℕ → List Event → Prop
  | _, [] => True
  | last, e :: events =>
      if e.id ≤ boundary then 0 < e.id ∧ last ≤ boundary ∧ Follows boundary last events
      else e.id = last + 1 ∧ Follows boundary e.id events

theorem follows_append {boundary last : ℕ} {events more : List Event} :
    Follows boundary last (events ++ more) ↔
      Follows boundary last events ∧
        Follows boundary (last + (live boundary events).length) more := by
  induction events generalizing last with
  | nil => simp [Follows]
  | cons e events ih =>
    by_cases hstale : e.id ≤ boundary
    · have hnot : ¬ boundary < e.id := by omega
      simp only [List.cons_append, Follows, if_pos hstale, ih, live, List.filter_cons, hnot,
        decide_false, Bool.false_eq_true, if_false]
      tauto
    · have hlive : boundary < e.id := by omega
      simp only [List.cons_append, Follows, if_neg hstale, ih, live, List.filter_cons, hlive,
        decide_true, if_true, List.length_cons]
      rw [and_assoc]
      refine and_congr_right fun hid => and_congr_right fun _ => ?_
      rw [hid, Nat.add_right_comm, Nat.add_assoc]

theorem follows_ids {boundary last : ℕ} {events : List Event} (h : Follows boundary last events)
    (hlast : boundary ≤ last) :
    (live boundary events).map Event.id = List.range' (last + 1) (live boundary events).length := by
  induction events generalizing last with
  | nil => rfl
  | cons e events ih =>
    unfold Follows at h
    split_ifs at h with hstale
    · rw [live, List.filter_cons_of_neg (by simpa using hstale)]
      exact ih h.2.2 hlast
    · obtain ⟨hid, hrest⟩ := h
      rw [hid] at hrest
      rw [live, List.filter_cons_of_pos (by simpa using hstale), List.map_cons, List.length_cons,
        List.range'_succ, hid]
      exact congrArg _ (ih hrest (by omega))

section Scan

variable {c : Crates} {boundary : ℕ}

variable {checksummed create : Bool} {content : Bytes} {events : List Event} {s : LogScan}

def LogScan.mark (s : LogScan) (e : Event) : LogScan :=
  { s with rawLastEventId := some e.id, firstEventId := some (s.firstEventId.getD e.id) }

theorem LogScan.event_cases {e : Event} (materialize : Bool)
    (hnext : s.loaded.nextId = s.lastEventId) (hlast : boundary ≤ s.lastEventId)
    (hraw : ∀ previous ∈ s.rawLastEventId, previous < e.id)
    (hfollows : Follows boundary s.lastEventId (e :: events)) :
    (live boundary [e] = [] ∧ s.event c boundary materialize e = .ok (s.mark e, false) ∧
      Follows boundary s.lastEventId events) ∨
    live boundary [e] = [e] ∧ e.id = s.lastEventId + 1 ∧
      s.event c boundary materialize e =
        .ok ({ s.mark e with toReplay := (s.toReplay.take c materialize e).1 },
          (s.toReplay.take c materialize e).2) ∧
      Follows boundary e.id events := by
  have hnotraw : ¬ (s.rawLastEventId.any fun previous => decide (e.id ≤ previous)) = true := by
    cases hr : s.rawLastEventId with
    | none => simp
    | some previous =>
      have := hraw previous hr
      simpa using this
  unfold LogScan.event
  by_cases hstale : e.id ≤ boundary
  · rw [Follows, if_pos hstale] at hfollows
    obtain ⟨hpos, hle, hrest⟩ := hfollows
    refine .inl ⟨by simp [live, hstale], ?_, hrest⟩
    rw [if_neg (by omega), if_neg hnotraw, if_neg (by omega), if_neg (by omega),
      if_neg (by simp only; omega)]
    rfl
  · rw [Follows, if_neg hstale] at hfollows
    obtain ⟨hid, hrest⟩ := hfollows
    refine .inr ⟨by simp [live, Nat.lt_of_not_le hstale], hid, ?_, hrest⟩
    rw [if_neg (by omega), if_neg hnotraw, if_neg (by omega), if_neg (by omega),
      if_pos (by simp only; omega)]
    rfl

theorem LogScan.event_ok {e : Event} (hcollected : s.collected = none)
    (hnext : s.loaded.nextId = s.lastEventId) (hlast : boundary ≤ s.lastEventId)
    (hraw : ∀ previous ∈ s.rawLastEventId, previous < e.id)
    (hfollows : Follows boundary s.lastEventId (e :: events)) :
    ∃ s', s.event c boundary true e = .ok (s', false) ∧ s'.collected = none ∧
      s'.loaded = (live boundary [e]).foldl (LoadedSession.push c.sha256) s.loaded ∧
      s'.loaded.nextId = s'.lastEventId ∧
      s'.lastEventId = s.lastEventId + (live boundary [e]).length ∧
      s'.firstEventId = some (s.firstEventId.getD e.id) ∧ s'.rawLastEventId = some e.id ∧
      s'.offset = s.offset ∧ Follows boundary s'.lastEventId events := by
  rcases LogScan.event_cases (c := c) true hnext hlast hraw hfollows with
    ⟨hlive, hevent, hrest⟩ | ⟨hlive, hid, hevent, hrest⟩
  · rw [hlive]
    exact ⟨_, hevent, hcollected, rfl, hnext, rfl, rfl, rfl, rfl, hrest⟩
  · have hmax : max s.loaded.nextId e.id = e.id := by omega
    simp only [Replay.take, hcollected, Option.map_none, Option.any_none, Bool.false_eq_true,
      if_false, if_true] at hevent
    rw [hlive]
    refine ⟨_, hevent, rfl, rfl, rfl, ?_, rfl, rfl, rfl, ?_⟩
    · rw [LoadedSession.push_nextId, hmax, hid]
      rfl
    · simpa only [LoadedSession.push_nextId, hmax] using hrest

theorem scanFrames_records {torn : Bytes} {fuel : ℕ} (hfits : Fits c events)
    (htorn : Torn c checksummed torn) (hend : create = true ∨ torn = [])
    (hfuel : events.length < fuel) (hcollected : s.collected = none)
    (hnext : s.loaded.nextId = s.lastEventId) (hlast : boundary ≤ s.lastEventId)
    (hraw : ∀ previous ∈ s.rawLastEventId, ∀ e ∈ events, previous < e.id)
    (hordered : events.Pairwise (·.id < ·.id)) (hfollows : Follows boundary s.lastEventId events) :
    ∃ s', scanFrames c create checksummed boundary true fuel
        (records c checksummed events ++ torn) s = .ok (s', false) ∧
      s'.collected = none ∧
      s'.loaded = (live boundary events).foldl (LoadedSession.push c.sha256) s.loaded ∧
      s'.loaded.nextId = s'.lastEventId ∧
      s'.lastEventId = s.lastEventId + (live boundary events).length ∧
      s'.firstEventId = s.firstEventId.or (events.head?.map Event.id) ∧
      s'.offset = s.offset + (records c checksummed events).length := by
  induction events generalizing s fuel with
  | nil =>
    obtain ⟨stage, hread⟩ := htorn
    obtain ⟨fuel, rfl⟩ := Nat.exists_eq_succ_of_ne_zero (by omega : fuel ≠ 0)
    refine ⟨s, ?_, hcollected, by simp, hnext, by simp, by simp, by simp⟩
    simp only [scanFrames, records_nil, List.nil_append, hread]
    exact if_pos hend
  | cons e events ih =>
    obtain ⟨fuel, rfl⟩ := Nat.exists_eq_succ_of_ne_zero (by omega : fuel ≠ 0)
    rw [List.pairwise_cons] at hordered
    obtain ⟨s₁, hevent, hc₁, hl₁, hn₁, hlast₁, hf₁, hr₁, ho₁, hfollows₁⟩ :=
      LogScan.event_ok (c := c) hcollected hnext hlast
        (fun previous hp => hraw previous hp e (List.mem_cons_self ..)) hfollows
    have hfit : (c.event.encode e).length ≤ maxFrameBytes := hfits e (List.mem_cons_self ..)
    obtain ⟨s', hscan, hc', hl', hn', hlast', hf', ho'⟩ := @ih
      { s₁ with offset := s₁.offset + 4 + (if checksummed then 4 else 0) +
        (c.event.encode e).length } fuel
      (fun x hx => hfits x (List.mem_cons_of_mem _ hx))
      (by rw [List.length_cons] at hfuel; omega) hc₁ hn₁ (by simp only; omega)
      (by
        intro previous hp x hx
        obtain rfl := Option.some.inj (hr₁.symm.trans hp)
        exact hordered.1 x hx) hordered.2 hfollows₁
    have hcons : live boundary (e :: events) = live boundary [e] ++ live boundary events :=
      live_append boundary [e] events
    refine ⟨s', ?_, hc', ?_, hn', ?_, ?_, ?_⟩
    · rw [records_cons, List.append_assoc, scanFrames, readFrame_record hfit]
      simp only [c.event.decode_encode, hevent]
      exact hscan
    · rw [hl', hl₁, hcons, List.foldl_append]
    · rw [hlast', hcons, List.length_append]
      simp only [hlast₁]
      omega
    · rw [hf']
      simp only [hf₁, List.head?_cons, Option.map_some, Option.some_or]
      cases s.firstEventId <;> rfl
    · rw [ho', records_cons, List.length_append, record_length]
      simp only [ho₁]
      omega

theorem readVersion_header (checksummed : Bool) (rest : Bytes) :
    readVersion (eventLogHeader checksummed ++ rest) = .ok checksummed := by
  cases checksummed <;> rfl

theorem loadEventLog_ok {torn : Bytes} {replay : Replay}
    (hrepair : repairHeader create content = .ok (logBytes c checksummed events ++ torn))
    (hfits : Fits c events) (htorn : Torn c checksummed torn) (hend : create = true ∨ torn = [])
    (hsize : (logBytes c checksummed events).length ≤ eventLogMaxBytes)
    (hcollected : replay.collected = none) (hnext : replay.loaded.nextId = replay.lastEventId)
    (hlast : boundary ≤ replay.lastEventId) (hordered : events.Pairwise (·.id < ·.id))
    (hfollows : Follows boundary replay.lastEventId events) :
    loadEventLog c create content boundary true replay =
      .ok ⟨logBytes c checksummed events, checksummed, events.head?.map Event.id,
        ⟨(live boundary events).foldl (LoadedSession.push c.sha256) replay.loaded,
          replay.lastEventId + (live boundary events).length, none⟩⟩ ∧
    ((live boundary events).foldl (LoadedSession.push c.sha256) replay.loaded).nextId =
      replay.lastEventId + (live boundary events).length := by
  have hbody : (logBytes c checksummed events ++ torn).drop headerLen =
      records c checksummed events ++ torn := by
    rw [logBytes, List.append_assoc]
    exact List.drop_left' rfl
  have hversion : readVersion (logBytes c checksummed events ++ torn) = .ok checksummed := by
    rw [logBytes, List.append_assoc]
    exact readVersion_header checksummed _
  have hfuel : events.length < (records c checksummed events ++ torn).length + 1 := by
    have := length_le_records c checksummed events
    rw [List.length_append]
    omega
  obtain ⟨s', hscan, hc', hl', hn', hlast', hf', ho'⟩ :=
    scanFrames_records (s := ⟨replay, none, none, headerLen⟩) hfits htorn hend hfuel hcollected
      hnext hlast (by simp) hordered hfollows
  have htake : (logBytes c checksummed events ++ torn).take s'.offset =
      logBytes c checksummed events := by
    rw [ho', ← logBytes_length]
    exact List.take_left
  refine ⟨?_, by rw [← hl', hn', hlast']⟩
  simp only [loadEventLog, hrepair, hversion, hbody, hscan, Bool.false_eq_true, if_false, htake]
  rw [if_neg (by omega)]
  obtain ⟨⟨loaded', last', collected'⟩, first', raw', offset'⟩ := s'
  subst hc' hl' hlast' hf'
  simp

/-- A rotated segment: complete records, or a file that was created and never written. -/
def Holds (c : Crates) (content : Bytes) (events : List Event) : Prop :=
  content = [] ∧ events = [] ∨ ∃ checksummed, content = logBytes c checksummed events

/-- The active log may also end in a torn record, or within its header. -/
def ActiveHolds (c : Crates) (content : Bytes) (events : List Event) : Prop :=
  content.length < headerLen ∧ events = [] ∨
    ∃ checksummed torn, content = logBytes c checksummed events ++ torn ∧ Torn c checksummed torn

theorem logBytes_nil_length_le (checksummed : Bool) :
    (logBytes c checksummed []).length ≤ eventLogMaxBytes := by
  rw [logBytes_nil, eventLogHeader_length]
  decide

theorem repairHeader_logBytes (create checksummed : Bool) (events : List Event) :
    repairHeader create (logBytes c checksummed events) = .ok (logBytes c checksummed events) := by
  have hpos : 0 < headerLen := by decide
  have := logBytes_length c checksummed events
  rw [repairHeader, if_neg (by omega), if_neg (by omega)]

theorem Holds.repair (h : Holds c content events) :
    ∃ checksummed, repairHeader false content = .ok (logBytes c checksummed events) ∧
      (content.length ≤ eventLogMaxBytes →
        (logBytes c checksummed events).length ≤ eventLogMaxBytes) := by
  rcases h with ⟨rfl, rfl⟩ | ⟨checksummed, rfl⟩
  · exact ⟨true, rfl, fun _ => logBytes_nil_length_le true⟩
  · exact ⟨checksummed, repairHeader_logBytes false checksummed events, id⟩

theorem Holds.repaired {x : Bytes} (h : Holds c content events)
    (hrepair : repairHeader false content = .ok x) : ∃ checksummed, x = logBytes c checksummed events := by
  obtain ⟨checksummed, heq, -⟩ := h.repair
  exact ⟨checksummed, Except.ok.inj (hrepair.symm.trans heq)⟩

theorem ActiveHolds.repair (h : ActiveHolds c content events) :
    ∃ checksummed torn,
      repairHeader true content = .ok (logBytes c checksummed events ++ torn) ∧
      Torn c checksummed torn ∧ (content.length ≤ eventLogMaxBytes →
        (logBytes c checksummed events).length ≤ eventLogMaxBytes) := by
  rcases h with ⟨hlen, rfl⟩ | ⟨checksummed, torn, rfl, htorn⟩
  · refine ⟨true, [], ?_, torn_nil true, fun _ => logBytes_nil_length_le true⟩
    rw [repairHeader, logBytes_nil, List.append_nil, if_pos hlen, if_pos rfl, ite_self]
  · refine ⟨checksummed, torn, ?_, htorn, fun h => ?_⟩
    · have hpos : 0 < headerLen := by decide
      have := logBytes_length c checksummed events
      have hlen := @List.length_append _ (logBytes c checksummed events) torn
      rw [repairHeader, if_neg (by omega), if_neg (by omega)]
    · rw [List.length_append] at h
      omega

theorem Holds.active (h : Holds c content events) : ActiveHolds c content events := by
  rcases h with ⟨rfl, rfl⟩ | ⟨checksummed, rfl⟩
  · exact .inl ⟨by decide, rfl⟩
  · exact .inr ⟨checksummed, [], by simp, torn_nil checksummed⟩

/-- Frames as they stand in the file, with the events they decode to. -/
def framed (c : Crates) (checksummed : Bool) (entries : List (Bytes × Event)) : Bytes :=
  (entries.map fun entry => frame (crcOf c checksummed) entry.1).flatten

def Decoded (c : Crates) (entries : List (Bytes × Event)) : Prop :=
  ∀ entry ∈ entries, c.event.decode entry.1 = some entry.2

theorem framed_cons (checksummed : Bool) (entry : Bytes × Event) (entries : List (Bytes × Event)) :
    framed c checksummed (entry :: entries) =
      frame (crcOf c checksummed) entry.1 ++ framed c checksummed entries := rfl

theorem LogScan.event_sound {s' : LogScan} {e : Event} {limited : Bool}
    (h : s.event c boundary true e = .ok (s', limited)) :
    Follows boundary s.lastEventId [e] ∧ ∀ previous ∈ s.rawLastEventId, previous < e.id := by
  unfold LogScan.event at h
  split_ifs at h with hzero hraw hstale hgap
  all_goals
    refine ⟨?_, ?_⟩
    · simp only [Follows]
      split_ifs with hle
      · exact ⟨by omega, by omega, trivial⟩
      · exact ⟨by omega, trivial⟩
    · intro previous hp
      rw [Option.mem_def.mp hp] at hraw
      simpa using hraw

theorem scanFrames_sound {bytes : Bytes} {fuel : ℕ} {s' : LogScan} {limited : Bool}
    (hfuel : bytes.length < fuel) (hcollected : s.collected = none)
    (hnext : s.loaded.nextId = s.lastEventId) (hlast : boundary ≤ s.lastEventId)
    (h : scanFrames c create checksummed boundary true fuel bytes s = .ok (s', limited)) :
    ∃ entries torn, bytes = framed c checksummed entries ++ torn ∧ Decoded c entries ∧
      Torn c checksummed torn ∧ (create = true ∨ torn = []) ∧ limited = false ∧
      Follows boundary s.lastEventId (entries.map Prod.snd) ∧
      (entries.map Prod.snd).Pairwise (·.id < ·.id) ∧
      (∀ previous ∈ s.rawLastEventId, ∀ e ∈ entries.map Prod.snd, previous < e.id) ∧
      s'.loaded = (live boundary (entries.map Prod.snd)).foldl (LoadedSession.push c.sha256) s.loaded ∧
      s'.loaded.nextId = s'.lastEventId ∧
      s'.lastEventId = s.lastEventId + (live boundary (entries.map Prod.snd)).length ∧
      s'.collected = none := by
  induction fuel generalizing bytes s with
  | zero => omega
  | succ fuel ih =>
    unfold scanFrames at h
    cases hread : readFrame maxFrameBytes (crcOf c checksummed) bytes with
    | torn stage =>
      simp only [hread] at h
      split_ifs at h with hend
      cases h
      exact ⟨[], bytes, rfl, by simp [Decoded], ⟨stage, hread⟩, hend, rfl, trivial, .nil,
        by simp, rfl, hnext, rfl, hcollected⟩
    | oversized => simp only [hread, reduceCtorEq] at h
    | mismatch => simp only [hread, reduceCtorEq] at h
    | frame payload rest =>
      simp only [hread] at h
      obtain ⟨rfl, -⟩ := readFrame_eq_frame hread
      cases hdecode : c.event.decode payload with
      | none => simp only [hdecode, reduceCtorEq] at h
      | some e =>
        simp only [hdecode] at h
        cases hevent : s.event c boundary true e with
        | error reason => simp only [hevent, reduceCtorEq] at h
        | ok result =>
          obtain ⟨s₁, full⟩ := result
          obtain ⟨hfollow, hraw⟩ := LogScan.event_sound hevent
          obtain ⟨s₂, hevent₂, hc₂, hl₂, hn₂, hlast₂, -, hr₂, -, -⟩ :=
            LogScan.event_ok (c := c) hcollected hnext hlast hraw hfollow
          obtain ⟨rfl, rfl⟩ := Prod.mk.inj (Except.ok.inj (hevent.symm.trans hevent₂))
          simp only [hevent] at h
          have hlen : rest.length < fuel := by
            have := frame_length_pos (crcOf c checksummed) payload
            rw [List.length_append] at hfuel
            omega
          obtain ⟨entries, torn, rfl, hdecoded, htorn, hend, hlim, hfollows, hordered, hafter, hl',
            hn', hlast', hc'⟩ := ih (s := { s₁ with
              offset := s₁.offset + 4 + (if checksummed then 4 else 0) + payload.length })
              hlen hc₂ hn₂ (by simp only; omega) h
          have hcons : live boundary (((payload, e) :: entries).map Prod.snd) =
              live boundary [e] ++ live boundary (entries.map Prod.snd) :=
            live_append boundary [e] _
          refine ⟨(payload, e) :: entries, torn, ?_, ?_, htorn, hend, hlim, ?_, ?_, ?_, ?_, hn', ?_,
            hc'⟩
          · rw [framed_cons, List.append_assoc]
          · rintro entry (_ | ⟨_, hmem⟩)
            · exact hdecode
            · exact hdecoded entry hmem
          · refine (@follows_append _ _ [e] _).mpr ⟨hfollow, ?_⟩
            rwa [hlast₂] at hfollows
          · exact List.pairwise_cons.mpr ⟨hafter e.id hr₂, hordered⟩
          · intro previous hp x hx
            rcases List.mem_cons.mp hx with rfl | hx
            · exact hraw previous hp
            · exact (hraw previous hp).trans (hafter e.id hr₂ x hx)
          · rw [hl', hl₂, hcons, List.foldl_append]
          · rw [hlast', hcons, List.length_append]
            simp only [hlast₂]
            omega

/-- The events of a file as a loader accepts them: complete frames after a
header, and a torn tail only where one is tolerated. -/
def ReadsAs (c : Crates) (create : Bool) (content : Bytes) (events : List Event) : Prop :=
  ∃ checksummed entries torn,
    repairHeader create content =
      .ok (eventLogHeader checksummed ++ framed c checksummed entries ++ torn) ∧
    entries.map Prod.snd = events ∧ Decoded c entries ∧ Torn c checksummed torn ∧
    (create = true ∨ torn = [])

theorem readVersion_sound (h : readVersion content = .ok checksummed)
    (hlen : headerLen ≤ content.length) :
    content = eventLogHeader checksummed ++ content.drop headerLen := by
  unfold readVersion at h
  split_ifs at h with hmagic
  rw [ne_eq, not_not] at hmagic
  have hsplit : content = eventLogMagic ++ (content.drop eventLogMagic.length).take 2 ++
      content.drop headerLen := by
    conv_lhs => rw [← List.take_append_drop eventLogMagic.length content,
      ← List.take_append_drop 2 (content.drop eventLogMagic.length), List.drop_drop]
    rw [hmagic, List.append_assoc, headerLen]
  have htwo : ((content.drop eventLogMagic.length).take 2).length = 2 := by
    have : eventLogMagic.length + 2 ≤ content.length := hlen
    rw [List.length_take, List.length_drop]
    omega
  have hversion : (content.drop eventLogMagic.length).take 2 =
      be16 (eventLogVersion checksummed) := by
    obtain ⟨x, y, hxy⟩ := List.length_eq_two.mp htwo
    rw [hxy] at h ⊢
    have hof : ofBe [x, y] = x.toNat * 2 ^ 8 + y.toNat := by simp [ofBe]
    have hbytes : ∀ m n : ℕ, m < 256 → n < 256 → x.toNat = m → y.toNat = n →
        [x, y] = [UInt8.ofNat m, UInt8.ofNat n] := by
      intro m n hm hn hxm hyn
      rw [List.cons.injEq, List.cons.injEq, ← UInt8.toNat_inj, ← UInt8.toNat_inj,
        UInt8.toNat_ofNat', UInt8.toNat_ofNat', Nat.mod_eq_of_lt hm, Nat.mod_eq_of_lt hn]
      exact ⟨hxm, hyn, rfl⟩
    split at h
    · rename_i hv
      cases h
      exact hbytes 0 1 (by omega) (by omega) (by omega) (by omega)
    · rename_i hv
      cases h
      exact hbytes 0 2 (by omega) (by omega) (by omega) (by omega)
    · cases h
  rwa [eventLogHeader, ← hversion]

theorem repairHeader_length {repaired : Bytes}
    (h : repairHeader create content = .ok repaired) : headerLen ≤ repaired.length := by
  unfold repairHeader at h
  split_ifs at h with hzero hshort hcreate <;> obtain rfl := Except.ok.inj h
  · exact le_rfl
  · exact le_rfl
  · omega

theorem loadEventLog_sound {replay : Replay} {log : LoadedLog}
    (hcollected : replay.collected = none) (hnext : replay.loaded.nextId = replay.lastEventId)
    (hlast : boundary ≤ replay.lastEventId)
    (h : loadEventLog c create content boundary true replay = .ok log) :
    ∃ events, ReadsAs c create content events ∧ Follows boundary replay.lastEventId events ∧
      events.Pairwise (·.id < ·.id) ∧
      log.replay = ⟨(live boundary events).foldl (LoadedSession.push c.sha256) replay.loaded,
        replay.lastEventId + (live boundary events).length, none⟩ ∧
      log.replay.loaded.nextId = log.replay.lastEventId := by
  unfold loadEventLog at h
  cases hrepair : repairHeader create content with
  | error e => simp only [hrepair, reduceCtorEq] at h
  | ok repaired =>
    simp only [hrepair] at h
    cases hversion : readVersion repaired with
    | error e => simp only [hversion, reduceCtorEq] at h
    | ok checksummed =>
      simp only [hversion] at h
      cases hscan : scanFrames c create checksummed boundary true
          ((repaired.drop headerLen).length + 1) (repaired.drop headerLen)
          ⟨replay, none, none, headerLen⟩ with
      | error reason => simp only [hscan, reduceCtorEq] at h
      | ok result =>
        obtain ⟨s', limited⟩ := result
        obtain ⟨entries, torn, hbody, hdecoded, htorn, hend, rfl, hfollows, hordered, -, hl', hn',
          hlast', hc'⟩ := scanFrames_sound (s := ⟨replay, none, none, headerLen⟩)
            (Nat.lt_succ_self _) hcollected hnext hlast hscan
        simp only [hscan, Bool.false_eq_true, if_false] at h
        split_ifs at h with hsize
        cases h
        have hsplit := readVersion_sound hversion (repairHeader_length hrepair)
        rw [hbody, ← List.append_assoc] at hsplit
        refine ⟨_, ⟨checksummed, entries, torn, by rw [hrepair, ← hsplit], rfl, hdecoded, htorn,
          hend⟩, hfollows, hordered, ?_, hn'⟩
        obtain ⟨⟨loaded', last', collected'⟩, first', raw', offset'⟩ := s'
        simp only at hc' hl' hlast' ⊢
        rw [hc', hl', hlast']

end Scan

end Asp
