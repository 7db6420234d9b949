import Asp.Proofs.Replay
import Asp.Spec.Leases

/-! A lease protects the history of its consumer: the sidecar never falls behind a lease that lives,
and a compaction covers only what every lease that it finds has acknowledged. -/

namespace Asp

open Std

section Table

variable {c : Crates} {w w' : World} {consumers : ExtTreeMap String EventConsumer} {head : ℕ}
  {write : AtomicWrite} {id : String}

variable {call : AckCall} {consumer : EventConsumer}

theorem storeEventConsumers_spec (c : Crates) (w : World)
    (consumers : ExtTreeMap String EventConsumer) (write : AtomicWrite) :
    ∃ file table ok, storeEventConsumers c w consumers write =
        ({ w with disk := { w.disk with consumers := file }, eventConsumers := table }, ok) ∧
      (ok = true → table = consumers ∧ readEventConsumersFile c file = .ok consumers) ∧
      (ok = false → table = w.eventConsumers ∧
        (file = w.disk.consumers ∨ readEventConsumersFile c file = .ok consumers)) := by
  unfold storeEventConsumers
  cases hpersist : persistEventConsumers c consumers with
  | none => exact ⟨w.disk.consumers, w.eventConsumers, false, rfl, nofun, fun _ => ⟨rfl, .inl rfl⟩⟩
  | some file =>
    have hread := readEventConsumersFile_persisted hpersist
    cases write with
    | done => exact ⟨some file, consumers, true, rfl, fun _ => ⟨rfl, hread⟩, nofun⟩
    | failed =>
      exact ⟨w.disk.consumers, w.eventConsumers, false, rfl, nofun, fun _ => ⟨rfl, .inl rfl⟩⟩
    | unsynced =>
      exact ⟨some file, w.eventConsumers, false, rfl, nofun, fun _ => ⟨rfl, .inr hread⟩⟩

/-- No acknowledgement is past the head, in memory or in the sidecar. -/
structure TablesWithin (c : Crates) (w : World) (head : ℕ) : Prop where
  memory : ∀ (id : String) (consumer : EventConsumer), w.eventConsumers[id]? = some consumer →
    consumer.acknowledgedEventId ≤ head
  stored : ∃ stored, AcksWithin c w.disk.consumers stored head

theorem TablesWithin.mono {head' : ℕ} (h : TablesWithin c w head) (hle : head ≤ head') :
    TablesWithin c w head' := by
  obtain ⟨stored, hstored⟩ := h.stored
  exact ⟨fun id consumer hget => (h.memory id consumer hget).trans hle, stored, hstored.mono hle⟩

theorem TablesWithin.congr (h : TablesWithin c w head) (hfile : w'.disk.consumers = w.disk.consumers)
    (htable : w'.eventConsumers = w.eventConsumers) : TablesWithin c w' head := by
  refine ⟨?_, ?_⟩
  · rw [htable]
    exact h.memory
  · rw [hfile]
    exact h.stored

theorem TablesWithin.store (h : TablesWithin c w head)
    (hwithin : ∀ (id : String) (consumer : EventConsumer), consumers[id]? = some consumer →
      consumer.acknowledgedEventId ≤ head) :
    TablesWithin c (storeEventConsumers c w consumers write).1 head := by
  obtain ⟨file, table, ok, heq, hdone, hfailed⟩ := storeEventConsumers_spec c w consumers write
  rw [heq]
  cases ok with
  | true =>
    obtain ⟨rfl, hread⟩ := hdone rfl
    exact ⟨hwithin, table, hread, hwithin⟩
  | false =>
    obtain ⟨rfl, hfile⟩ := hfailed rfl
    refine ⟨h.memory, ?_⟩
    rcases hfile with rfl | hread
    · exact h.stored
    · exact ⟨consumers, hread, hwithin⟩

/-- The consumer has acknowledged `n`, and a restart would find no less. -/
def Backed (c : Crates) (id : String) (n : ℕ) (w : World) : Prop :=
  ∃ consumer stored entry, w.eventConsumers[id]? = some consumer ∧
    n ≤ consumer.acknowledgedEventId ∧ readEventConsumersFile c w.disk.consumers = .ok stored ∧
    stored[id]? = some entry ∧ consumer.acknowledgedEventId ≤ entry.acknowledgedEventId

variable {n : ℕ}

theorem Backed.congr (h : Backed c id n w) (hfile : w'.disk.consumers = w.disk.consumers)
    (htable : w'.eventConsumers = w.eventConsumers) : Backed c id n w' := by
  unfold Backed
  rwa [hfile, htable]

theorem Backed.store (h : Backed c id n w)
    (hgrows : ∀ consumer, w.eventConsumers[id]? = some consumer → ∃ consumer',
      consumers[id]? = some consumer' ∧
        consumer.acknowledgedEventId ≤ consumer'.acknowledgedEventId) :
    Backed c id n (storeEventConsumers c w consumers write).1 := by
  obtain ⟨consumer, stored, entry, hget, hn, hread, hentry, hle⟩ := h
  obtain ⟨consumer', hget', hle'⟩ := hgrows consumer hget
  obtain ⟨file, table, ok, heq, hdone, hfailed⟩ := storeEventConsumers_spec c w consumers write
  rw [heq]
  cases ok with
  | true =>
    obtain ⟨rfl, hread'⟩ := hdone rfl
    exact ⟨consumer', table, consumer', hget', hn.trans hle', hread', hget', le_rfl⟩
  | false =>
    obtain ⟨rfl, rfl | hread'⟩ := hfailed rfl
    · exact ⟨consumer, stored, entry, hget, hn, hread, hentry, hle⟩
    · exact ⟨consumer, consumers, consumer', hget, hn, hread', hget', hle'⟩

def ackedTable (w : World) (call : AckCall) : ExtTreeMap String EventConsumer :=
  w.eventConsumers.insert call.consumerId
    ⟨w.eventConsumers[call.consumerId]?.elim call.throughEventId fun consumer =>
      max consumer.acknowledgedEventId call.throughEventId, call.now⟩

theorem ackEventConsumerWith_cases (c : Crates) (w : World) (head : ℕ) (call : AckCall)
    (write : AtomicWrite) :
    ackEventConsumerWith c w head call write = (w, none) ∨
      call.throughEventId ≤ head ∧
        (ackEventConsumerWith c w head call write).1 =
          (storeEventConsumers c w (ackedTable w call) write).1 ∧
        ((ackEventConsumerWith c w head call write).2.isSome =
          (storeEventConsumers c w (ackedTable w call) write).2) := by
  unfold ackEventConsumerWith
  dsimp only
  split_ifs with hvalid hhead hfull
  · exact .inl rfl
  · exact .inl rfl
  · exact .inl rfl
  refine .inr ⟨Nat.le_of_not_lt hhead, ?_⟩
  unfold ackedTable
  generalize storeEventConsumers c w _ write = result
  obtain ⟨w', ok⟩ := result
  cases ok <;> exact ⟨rfl, rfl⟩

theorem ackEventConsumerWith_done (c : Crates) (w : World) (head : ℕ) (call : AckCall) :
    ackEventConsumerWith c w head call .done = ackEventConsumer c w head call := by
  unfold ackEventConsumerWith ackEventConsumer storeEventConsumers
  dsimp only
  split_ifs
  · rfl
  · rfl
  · rfl
  cases persistEventConsumers c (w.eventConsumers.insert call.consumerId _) <;> rfl

theorem ackedTable_cases (h : (ackedTable w call)[id]? = some consumer) :
    w.eventConsumers[id]? = some consumer ∨ consumer.acknowledgedEventId = call.throughEventId ∨
      ∃ old, w.eventConsumers[id]? = some old ∧
        consumer.acknowledgedEventId = max old.acknowledgedEventId call.throughEventId := by
  rcases Lookup.getElem?_insert_cases h with ⟨rfl, rfl⟩ | ⟨-, hold⟩
  · cases hold : w.eventConsumers[call.consumerId]? with
    | none => exact .inr (.inl rfl)
    | some old => exact .inr (.inr ⟨old, rfl, rfl⟩)
  · exact .inl hold

theorem ackedTable_grows (h : w.eventConsumers[id]? = some consumer) :
    ∃ consumer', (ackedTable w call)[id]? = some consumer' ∧
      consumer.acknowledgedEventId ≤ consumer'.acknowledgedEventId := by
  by_cases hid : id = call.consumerId
  · subst hid
    refine ⟨_, ExtTreeMap.getElem?_insert_self, ?_⟩
    rw [h]
    exact le_max_left ..
  · refine ⟨consumer, ?_, le_rfl⟩
    rwa [ackedTable, Lookup.getElem?_insert_of_ne hid]

theorem TablesWithin.ack (h : TablesWithin c w head) :
    TablesWithin c (ackEventConsumerWith c w head call write).1 head := by
  rcases ackEventConsumerWith_cases c w head call write with heq | ⟨hhead, heq, -⟩
  · rwa [heq]
  · rw [heq]
    refine h.store fun id consumer hget => ?_
    rcases ackedTable_cases hget with hold | hnew | ⟨old, hold, hmax⟩
    · exact h.memory id consumer hold
    · rwa [hnew]
    · rw [hmax]
      exact max_le (h.memory id old hold) hhead

theorem Backed.ack (h : Backed c id n w) :
    Backed c id n (ackEventConsumerWith c w head call write).1 := by
  rcases ackEventConsumerWith_cases c w head call write with heq | ⟨-, heq, -⟩
  · rwa [heq]
  · rw [heq]
    exact h.store fun consumer hget => ackedTable_grows hget

theorem Backed.acked {acknowledged : ℕ}
    (hok : (ackEventConsumerWith c w head call write).2 = some acknowledged) :
    Backed c call.consumerId 0 (ackEventConsumerWith c w head call write).1 := by
  rcases ackEventConsumerWith_cases c w head call write with heq | ⟨-, heq, hsome⟩
  · rw [heq] at hok
    cases hok
  · obtain ⟨file, table, ok, hstore, hdone, -⟩ :=
      storeEventConsumers_spec c w (ackedTable w call) write
    rw [hok, hstore] at hsome
    rw [heq, hstore]
    obtain ⟨rfl, hread⟩ := hdone hsome.symm
    exact ⟨_, _, _, ExtTreeMap.getElem?_insert_self, Nat.zero_le _, hread,
      ExtTreeMap.getElem?_insert_self, le_rfl⟩

def leasedTable (w : World) (now : ℕ) : ExtTreeMap String EventConsumer :=
  Lookup.select (fun _ consumer => Option.guard (EventConsumer.leased · now) consumer)
    w.eventConsumers

theorem getElem?_leasedTable {now : ℕ} :
    (leasedTable w now)[id]? = some consumer ↔
      w.eventConsumers[id]? = some consumer ∧ consumer.leased now = true := by
  rw [leasedTable, Lookup.getElem?_select, Option.bind_eq_some_iff]
  constructor
  · rintro ⟨old, hget, hguard⟩
    obtain ⟨rfl, hleased⟩ := Option.guard_eq_some_iff.mp hguard
    exact ⟨hget, hleased⟩
  · rintro ⟨hget, hleased⟩
    exact ⟨consumer, hget, Option.guard_eq_some_iff.mpr ⟨rfl, hleased⟩⟩

theorem pruneExpired_cases (c : Crates) (w : World) (now : ℕ) (write : AtomicWrite) :
    pruneExpiredEventConsumersLocked c w now write = (w, some false) ∨
      (pruneExpiredEventConsumersLocked c w now write).1 =
          (storeEventConsumers c w (leasedTable w now) write).1 ∧
        ((pruneExpiredEventConsumersLocked c w now write).2 = none →
          (storeEventConsumers c w (leasedTable w now) write).2 = false) := by
  unfold pruneExpiredEventConsumersLocked
  dsimp only
  split_ifs with hsame
  · exact .inl rfl
  · refine .inr ?_
    unfold leasedTable
    generalize storeEventConsumers c w _ write = result
    obtain ⟨w', ok⟩ := result
    cases ok
    · exact ⟨rfl, fun _ => rfl⟩
    · exact ⟨rfl, nofun⟩

theorem TablesWithin.prune (h : TablesWithin c w head) (now : ℕ) (write : AtomicWrite) :
    TablesWithin c (pruneExpiredEventConsumersLocked c w now write).1 head := by
  rcases pruneExpired_cases c w now write with heq | ⟨heq, -⟩
  · rwa [heq]
  · rw [heq]
    exact h.store fun id consumer hget => h.memory id consumer (getElem?_leasedTable.mp hget).1

theorem Backed.prune {now : ℕ} (h : Backed c id n w)
    (hleased : ∀ consumer ∈ w.eventConsumers[id]?, consumer.leased now = true) :
    Backed c id n (pruneExpiredEventConsumersLocked c w now write).1 := by
  rcases pruneExpired_cases c w now write with heq | ⟨heq, -⟩
  · rwa [heq]
  · rw [heq]
    refine h.store fun consumer hget => ⟨consumer, ?_, le_rfl⟩
    exact getElem?_leasedTable.mpr ⟨hget, hleased consumer hget⟩

end Table

section Step

variable {c : Crates} {sessionId : Uuid} {s s' : SessionState} {w' : World} {id : String} {n : ℕ}

variable {w : World}

theorem compactProgram_acts (w w₁ : World) (snapshot : SessionSnapshotData) {i : Io}
    (hi : i ∈ compactProgram c w snapshot) : (i.act w₁).isSome := by
  simp only [compactProgram, List.mem_append, List.mem_cons, List.mem_map, List.not_mem_nil,
    or_false] at hi
  rcases hi with (hi | ⟨name, -, rfl⟩) | hi
  · rcases hi with rfl | rfl | rfl | rfl | rfl | rfl | rfl | rfl <;> rfl
  · rfl
  · rcases hi with rfl | rfl | rfl <;> rfl

theorem compact_refused {snapshot : SessionSnapshotData}
    (h : Asp.compact c w snapshot = (w', false)) : w' = w := by
  unfold Asp.compact at h
  split_ifs at h
  · exact (Prod.mk.inj h).1.symm
  · have hacts : ∀ i ∈ compactProgram c w snapshot, ∀ w₁, (logMachine.act i w₁).isSome :=
      fun i hi w₁ => compactProgram_acts w w₁ snapshot hi
    have hrun := Steps.Machine.run_of_total hacts w
    rw [h] at hrun
    cases hrun

theorem compactIfNeeded_cases {journal journal' : Journal} {call : CompactCall}
    {outcome : CompactOutcome}
    (h : compactIfNeeded c sessionId w journal call = (w', journal', outcome)) :
    (outcome ≠ .compacted ∧ journal' = journal ∧
        w' = (pruneExpiredEventConsumersLocked c w call.now call.write).1) ∨
      (outcome = .compacted ∧ journal' = journal.cleared ∧
        Asp.compact c (pruneExpiredEventConsumersLocked c w call.now call.write).1
          (call.snapshot sessionId journal) = (w', true) ∧
        ∀ (id : String) (consumer : EventConsumer),
          (pruneExpiredEventConsumersLocked c w call.now call.write).1.eventConsumers[id]? =
            some consumer → journal.nextId ≤ consumer.acknowledgedEventId) := by
  unfold compactIfNeeded at h
  generalize pruneExpiredEventConsumersLocked c w call.now call.write = pruned at h ⊢
  obtain ⟨w₁, result⟩ := pruned
  cases result with
  | none =>
    cases h
    exact .inl ⟨nofun, rfl, rfl⟩
  | some consumersPruned =>
    dsimp only at h
    split_ifs at h with hdue hblocked
    · cases h
      exact .inl ⟨nofun, rfl, rfl⟩
    · cases h
      exact .inl ⟨nofun, rfl, rfl⟩
    cases hcompact : Asp.compact c w₁ (call.snapshot sessionId journal) with
    | mk w₂ ok =>
      rw [hcompact] at h
      cases ok with
      | false =>
        cases h
        exact .inl ⟨nofun, rfl, compact_refused hcompact⟩
      | true =>
        cases h
        refine .inr ⟨rfl, rfl, rfl, fun id consumer hget => Nat.le_of_not_lt fun hlt => ?_⟩
        refine hblocked (List.any_eq_true.mpr ⟨(id, consumer), ?_, decide_eq_true hlt⟩)
        exact ExtTreeMap.mem_toList_iff_getElem?_eq_some.mpr hget

theorem SessionState.Kept.tables (h : s.Kept c sessionId) (file : Option Bytes)
    (table : ExtTreeMap String EventConsumer) :
    SessionState.Kept c sessionId
      ⟨{ s.world with disk := { s.world.disk with consumers := file }, eventConsumers := table },
        s.journal, s.log⟩ := by
  obtain ⟨⟨⟨recs, hrun⟩, hl⟩, hwindow, hlisted⟩ := h
  exact ⟨⟨⟨recs, { hrun with recovers := { hrun.recovers with } }⟩, hl.attached,
    hl.lasts.setConsumers file⟩, hwindow, hlisted.segments, hlisted.boundary, hlisted.whole,
    hlisted.distinct⟩

theorem SessionState.Kept.store (h : s.Kept c sessionId)
    (consumers : ExtTreeMap String EventConsumer) (write : AtomicWrite) :
    SessionState.Kept c sessionId
      ⟨(storeEventConsumers c s.world consumers write).1, s.journal, s.log⟩ := by
  obtain ⟨file, table, ok, heq, -⟩ := storeEventConsumers_spec c s.world consumers write
  rw [heq]
  exact h.tables file table

theorem SessionState.Kept.ack (h : s.Kept c sessionId) (call : AckCall) (write : AtomicWrite) :
    SessionState.Kept c sessionId
      ⟨(ackEventConsumerWith c s.world s.journal.nextId call write).1, s.journal, s.log⟩ := by
  rcases ackEventConsumerWith_cases c s.world s.journal.nextId call write with heq | ⟨-, heq, -⟩
  · rwa [heq]
  · rw [heq]
    exact h.store _ write

theorem SessionState.Kept.prune (h : s.Kept c sessionId) (now : ℕ) (write : AtomicWrite) :
    SessionState.Kept c sessionId
      ⟨(pruneExpiredEventConsumersLocked c s.world now write).1, s.journal, s.log⟩ := by
  rcases pruneExpired_cases c s.world now write with heq | ⟨heq, -⟩
  · rwa [heq]
  · rw [heq]
    exact h.store _ write

structure LeasesKept (c : Crates) (sessionId : Uuid) (s : SessionState) : Prop where
  kept : s.Kept c sessionId
  tables : TablesWithin c s.world s.journal.nextId

structure LeaseGrows (c : Crates) (id : String) (s s' : SessionState) : Prop where
  backed : ∀ n, Backed c id n s.world → Backed c id n s'.world
  boundary : ∀ consumer, s'.world.eventConsumers[id]? = some consumer →
    s'.log.boundary ≤ max s.log.boundary consumer.acknowledgedEventId

section

variable (h : LeasesKept c sessionId s) (id : String)

include h

theorem LeasesKept.append {event : Option Event}
    (hstep : SessionStep c sessionId (fun _ call => call.FramedAppend c) s event s') :
    LeasesKept c sessionId s' ∧ LeaseGrows c id s s' := by
  obtain ⟨hkept, htables⟩ := h
  cases hstep with
  | append unixMs kind chance hallowed hok =>
    have hsame := append_consumers (c := c) s.world (s.journal.call unixMs kind chance)
    rw [hok] at hsame
    refine ⟨⟨hkept.append unixMs kind chance hallowed hok, ?_⟩, ?_, ?_⟩
    · exact (htables.mono (Nat.le_succ _)).congr hsame.1 hsame.2
    · exact fun n hbacked => hbacked.congr hsame.1 hsame.2
    · exact fun consumer _ => le_max_left ..
  | refused unixMs kind chance hallowed herr =>
    have hsame := append_consumers (c := c) s.world (s.journal.call unixMs kind chance)
    rw [herr] at hsame
    have hkept' := hkept.refused unixMs kind chance hallowed herr
    refine ⟨⟨hkept', ?_⟩, ?_, ?_⟩
    · rw [hkept'.window.next, ← hkept.window.next]
      exact htables.congr hsame.1 hsame.2
    · exact fun n hbacked => hbacked.congr hsame.1 hsame.2
    · exact fun consumer _ => le_max_left ..
  | compact _ _ hallowed _ => exact hallowed.elim
  | ack hallowed => exact hallowed.elim

theorem LeasesKept.ack (call : AckCall) (write : AtomicWrite) :
    LeasesKept c sessionId
        ⟨(ackEventConsumerWith c s.world s.journal.nextId call write).1, s.journal, s.log⟩ ∧
      LeaseGrows c id s
        ⟨(ackEventConsumerWith c s.world s.journal.nextId call write).1, s.journal, s.log⟩ :=
  ⟨⟨h.kept.ack call write, h.tables.ack⟩, fun _ hbacked => hbacked.ack,
    fun _ _ => le_max_left ..⟩

theorem LeasesKept.compact {journal' : Journal} {outcome : CompactOutcome} {call : CompactCall}
    (hcall : compactIfNeeded c sessionId s.world s.journal call = (w', journal', outcome)) :
    LeasesKept c sessionId
        ⟨w', journal', s.log.maintained (call.snapshot sessionId s.journal) outcome⟩ ∧
      (LeaseHolds id s (some call.now) → LeaseGrows c id s
        ⟨w', journal', s.log.maintained (call.snapshot sessionId s.journal) outcome⟩) := by
  have hpruned := h.kept.prune call.now call.write
  have htables := h.tables.prune call.now call.write
  have hbacked : LeaseHolds id s (some call.now) → ∀ n, Backed c id n s.world →
      Backed c id n (pruneExpiredEventConsumersLocked c s.world call.now call.write).1 :=
    fun hholds n hb => hb.prune (hholds call.now rfl)
  rcases compactIfNeeded_cases hcall with ⟨houtcome, rfl, rfl⟩ | ⟨rfl, rfl, hcompact, hfree⟩
  · have hlog : s.log.maintained (call.snapshot sessionId s.journal) outcome = s.log := by
      cases outcome with
      | error | kept => rfl
      | compacted => exact absurd rfl houtcome
    rw [hlog]
    exact ⟨⟨hpruned, htables⟩, fun hholds => ⟨hbacked hholds, fun _ _ => le_max_left ..⟩⟩
  · have hsame := compact_consumers (c := c)
      (pruneExpiredEventConsumersLocked c s.world call.now call.write).1
      (call.snapshot sessionId s.journal)
    rw [hcompact] at hsame
    refine ⟨⟨hpruned.compact rfl rfl hcompact, htables.congr hsame.1 hsame.2⟩, fun hholds => ?_⟩
    refine ⟨fun n hb => (hbacked hholds n hb).congr hsame.1 hsame.2, fun consumer hget => ?_⟩
    rw [hsame.2] at hget
    exact le_max_of_le_right (hfree id consumer hget)

theorem LeasesKept.restart {d' : SessionDir Bytes} {mem : SessionDisk} {loaded : LoadedSession}
    (hopen : openSession c sessionId s.world.view = (d', .ok (mem, loaded))) :
    LeasesKept c sessionId ⟨World.opened s.world.disk d' mem loaded, Journal.fromLoaded loaded,
        s.log.settle (World.opened s.world.disk d' mem loaded)⟩ ∧
      LeaseGrows c id s ⟨World.opened s.world.disk d' mem loaded, Journal.fromLoaded loaded,
        s.log.settle (World.opened s.world.disk d' mem loaded)⟩ := by
  obtain ⟨⟨⟨⟨recs, hrun⟩, hl⟩, -, hlisted⟩, -⟩ := h
  obtain ⟨hnext, hacks, -⟩ := hrun.recovers.opened hopen
  have hfile : d'.consumers = s.world.disk.consumers := hrun.recovers.opened_consumers hopen
  refine ⟨⟨.opened hl.lasts hlisted.distinct hopen, ?_⟩, ?_,
    fun _ _ => (Wal.settle_boundary ..).le.trans (le_max_left ..)⟩
  · show TablesWithin c (World.opened s.world.disk d' mem loaded) loaded.nextId
    rw [hnext]
    exact ⟨hacks.bounded, loaded.eventConsumers, hacks⟩
  · rintro n ⟨consumer, stored, entry, -, hn, hread, hentry, hle⟩
    obtain rfl : stored = loaded.eventConsumers := by
      have hboth := hacks.file
      rw [hfile, hread] at hboth
      exact Except.ok.inj hboth
    exact ⟨entry, loaded.eventConsumers, entry, hentry, hn.trans hle, hacks.file, hentry, le_rfl⟩

theorem LeasesKept.step {reading : Option ℕ} (hstep : LeaseStep c sessionId s reading s') :
    LeasesKept c sessionId s' ∧ (LeaseHolds id s reading → LeaseGrows c id s s') := by
  cases hstep with
  | append hstep =>
    obtain ⟨hkept, hgrows⟩ := h.append id hstep
    exact ⟨hkept, fun _ => hgrows⟩
  | ack call write =>
    obtain ⟨hkept, hgrows⟩ := h.ack id call write
    exact ⟨hkept, fun _ => hgrows⟩
  | compact call hcall => exact h.compact id hcall
  | restart hopen =>
    obtain ⟨hkept, hgrows⟩ := h.restart id hopen
    exact ⟨hkept, fun _ => hgrows⟩

end

theorem LeaseRun.kept (h : LeaseRun c sessionId s) : LeasesKept c sessionId s := by
  induction h with
  | opened hfirst hopen =>
    obtain ⟨⟨recs, hrecovers⟩, -, hsynced⟩ := hfirst.recovers sessionId
    obtain ⟨hnext, hacks, -, -, hlisted, hloaded⟩ := hrecovers.opened hopen
    refine ⟨⟨(hrecovers.live_opened hsynced hopen).1, .fromLoaded hnext hloaded, ?_⟩, ?_⟩
    · rw [World.opened_view]
      exact hlisted hfirst.distinct
    refine TablesWithin.mono ?_ hnext.ge
    exact ⟨hacks.bounded, _, hacks⟩
  | step _ hstep ih => exact (ih.step "" hstep).1

theorem LeasedRun.kept (h : LeasedRun c sessionId id s s') (hs : LeasesKept c sessionId s) :
    LeasesKept c sessionId s' := by
  induction h with
  | start => exact hs
  | step _ hstep _ ih => exact (ih.step id hstep).1

theorem LeasedRun.grows (h : LeasedRun c sessionId id s s') (hs : LeasesKept c sessionId s)
    (hbacked : Backed c id n s.world) : Backed c id n s'.world ∧
      ∀ consumer, s'.world.eventConsumers[id]? = some consumer →
        s'.log.boundary ≤ max s.log.boundary consumer.acknowledgedEventId := by
  induction h with
  | start => exact ⟨hbacked, fun _ _ => le_max_left ..⟩
  | @step s₁ s₂ _ hrun hstep hholds ih =>
    obtain ⟨hbacked₁, hboundary₁⟩ := ih
    have hgrows := ((hrun.kept hs).step id hstep).2 hholds
    refine ⟨hgrows.backed n hbacked₁, fun consumer hget => ?_⟩
    obtain ⟨consumer₁, stored, entry, hget₁, -, hread, hentry, hle⟩ := hbacked₁
    -- what the consumer had acknowledged before the step it still has
    obtain ⟨consumer₂, -, -, hget₂, hle₂, -⟩ :=
      hgrows.backed consumer₁.acknowledgedEventId ⟨consumer₁, stored, entry, hget₁, le_rfl, hread,
        hentry, hle⟩
    obtain rfl := Option.some.inj (hget₂.symm.trans hget)
    have hbefore := hboundary₁ consumer₁ hget₁
    have hafter := hgrows.boundary consumer₂ hget
    omega

theorem Leased.kept (h : Leased c sessionId id s) :
    LeasesKept c sessionId s ∧ Backed c id 0 s.world := by
  obtain @⟨s₀, _, call, write, _, hrun, rfl, hok, hafter⟩ := h
  have hkept := (hrun.kept.ack call.consumerId call write).1
  exact ⟨hafter.kept hkept, (hafter.grows hkept (Backed.acked hok)).1⟩

theorem ackEventConsumerWith_error {head : ℕ} {call : AckCall} {write : AtomicWrite}
    (h : (ackEventConsumerWith c w head call write).2 = none) :
    (ackEventConsumerWith c w head call write).1.eventConsumers = w.eventConsumers := by
  rcases ackEventConsumerWith_cases c w head call write with heq | ⟨-, heq, hsome⟩
  · rw [heq]
  · obtain ⟨file, table, ok, hstore, -, hfailed⟩ :=
      storeEventConsumers_spec c w (ackedTable w call) write
    rw [h, hstore] at hsome
    rw [heq, hstore]
    exact (hfailed hsome.symm).1

theorem pruneExpired_error {now : ℕ} {write : AtomicWrite}
    (h : (pruneExpiredEventConsumersLocked c w now write).2 = none) :
    (pruneExpiredEventConsumersLocked c w now write).1.eventConsumers = w.eventConsumers := by
  rcases pruneExpired_cases c w now write with heq | ⟨heq, hfalse⟩
  · rw [heq]
  · obtain ⟨file, table, ok, hstore, -, hfailed⟩ :=
      storeEventConsumers_spec c w (leasedTable w now) write
    have hok := hfalse h
    rw [hstore] at hok
    rw [heq, hstore]
    exact (hfailed hok).1

/-- While its lease lives, a consumer's acknowledged id does not decrease, no id is past
the head, and the snapshot moves past no acknowledged id, so that replay from there is
the events unless they are too many or too large. A failed write leaves the table. -/
theorem consumer_leases_protect_history (hleased : Leased c sessionId id s)
    (hrun : LeasedRun c sessionId id s s') :
    ∃ consumer consumer', s.world.eventConsumers[id]? = some consumer ∧
      s'.world.eventConsumers[id]? = some consumer' ∧
      consumer.acknowledgedEventId ≤ consumer'.acknowledgedEventId ∧
      (∀ (other : String) (entry : EventConsumer), s'.world.eventConsumers[other]? = some entry →
        entry.acknowledgedEventId ≤ s'.journal.nextId) ∧
      s'.world.mem.snapshotBoundary ≤
        max s.world.mem.snapshotBoundary consumer'.acknowledgedEventId ∧
      (s.world.mem.snapshotBoundary ≤ consumer.acknowledgedEventId →
        (s'.log.events.drop (consumer'.acknowledgedEventId - s'.log.boundary)).length ≤
          maxDurableReplayEvents →
        ((s'.log.events.drop (consumer'.acknowledgedEventId - s'.log.boundary)).map
          eventApproxBytes).sum ≤ maxDurableReplayBytes →
        ∃ reply, eventsSinceLocked c s'.world.view s'.world.mem s'.journal
            consumer'.acknowledgedEventId = (s'.world.view, .ok reply) ∧
          reply.compacted = false ∧
          reply.events = s'.log.events.drop (consumer'.acknowledgedEventId - s'.log.boundary)) ∧
      (∀ (call : AckCall) (write : AtomicWrite),
        (ackEventConsumerWith c s'.world s'.journal.nextId call write).2 = none →
        (ackEventConsumerWith c s'.world s'.journal.nextId call write).1.eventConsumers =
          s'.world.eventConsumers) ∧
      ∀ (now : ℕ) (write : AtomicWrite),
        (pruneExpiredEventConsumersLocked c s'.world now write).2 = none →
        (pruneExpiredEventConsumersLocked c s'.world now write).1.eventConsumers =
          s'.world.eventConsumers := by
  obtain ⟨hkept, consumer, stored, entry, hget, -, hread, hentry, hle⟩ := hleased.kept
  have hkept' := hrun.kept hkept
  obtain ⟨hbacked, hboundary⟩ := hrun.grows hkept
    ⟨consumer, stored, entry, hget, le_rfl, hread, hentry, hle⟩
  obtain ⟨consumer', -, -, hget', hgrown, -⟩ := hbacked
  have hmoved := hboundary consumer' hget'
  rw [hkept.kept.listed.boundary, hkept'.kept.listed.boundary]
  refine ⟨consumer, consumer', hget, hget', hgrown, hkept'.tables.memory, hmoved, ?_,
    fun _ _ => ackEventConsumerWith_error, fun _ _ => pruneExpired_error⟩
  intro hcovered hcount hbytes
  have hpast : s'.log.boundary ≤ consumer'.acknowledgedEventId := by omega
  obtain ⟨reply, heq, hcases, hfits⟩ := hkept'.kept.eventsSince consumer'.acknowledgedEventId
  have hfound := hfits hpast hcount hbytes
  rcases hcases with ⟨hcompacted, -, hevents⟩ | ⟨hcompacted, -⟩
  · exact ⟨reply, heq, hcompacted, hevents⟩
  · rw [hfound] at hcompacted
    cases hcompacted

def leasedSession : SessionState :=
  ⟨(ackEventConsumerWith postcard freshWorld 0 ⟨"c", 0, 0⟩ .done).1, ⟨[], 0, 0, none⟩, ⟨none, [], 0⟩⟩

def leasedWorld : World := (Asp.append postcard leasedSession.world createdCall).1

def maintenanceCall : CompactCall := ⟨some 0, 5, 5, createdSnapshot, .done⟩

theorem leasedSession_leased : Leased postcard 0 "c" leasedSession := by
  have hrun : LeaseRun postcard 0 ⟨freshWorld, ⟨[], 0, 0, none⟩, ⟨none, [], 0⟩⟩ := by
    obtain ⟨d', hopen, hworld⟩ := freshWorld_opened
    rw [← hworld]
    exact .opened (.fresh (fun _ => []) 0) hopen
  have hok : (ackEventConsumerWith postcard freshWorld 0 ⟨"c", 0, 0⟩ .done).2 = some 0 := by decide
  exact .acked hrun rfl hok .start

theorem lease_defers_compaction : ∃ s' consumer', LeasedRun postcard 0 "c" leasedSession s' ∧
    s'.journal.nextId = 1 ∧ s'.world.eventConsumers["c"]? = some consumer' ∧
    s'.world.mem.snapshotBoundary ≤ max 0 consumer'.acknowledgedEventId := by
  have hok : Asp.append postcard leasedSession.world createdCall = (leasedWorld, true) :=
    Prod.ext rfl (by decide)
  have happend : LeaseStep postcard 0 leasedSession none _ :=
    .append (.append 0 .sessionCreated ⟨0, false⟩ createdCall_sized hok)
  have hbehind := (LeasedRun.start : LeasedRun postcard 0 "c" leasedSession _).step happend nofun
  obtain ⟨w', journal', outcome, hcall⟩ : ∃ w' journal' outcome, compactIfNeeded postcard 0 leasedWorld
      (leasedSession.journal.append 0 .sessionCreated).1.enforceBounds maintenanceCall =
        (w', journal', outcome) := ⟨_, _, _, rfl⟩
  have hcompact := LeaseStep.compact (s := ⟨leasedWorld, _,
    leasedSession.log.append createdCall.event 1⟩) maintenanceCall hcall
  have hholds : LeaseHolds "c" ⟨leasedWorld,
      (leasedSession.journal.append 0 .sessionCreated).1.enforceBounds,
      leasedSession.log.append createdCall.event 1⟩ (some maintenanceCall.now) := by
    intro now hnow consumer hget
    have hconsumer : leasedWorld.eventConsumers["c"]? = some ⟨0, 0⟩ := by decide
    cases hnow
    obtain rfl := Option.some.inj (hconsumer.symm.trans hget)
    decide
  have hrun := hbehind.step hcompact hholds
  obtain ⟨-, consumer', -, hget', -, -, hmoved, -⟩ :=
    consumer_leases_protect_history leasedSession_leased hrun
  have hhead : journal'.nextId = 1 := by
    rcases compactIfNeeded_cases hcall with ⟨-, rfl, -⟩ | ⟨-, rfl, -⟩ <;> rfl
  exact ⟨_, consumer', hrun, hhead, hget', hmoved⟩

end Step

end Asp
