import Asp.Proofs.Recovery

/-! I/O errors: after a rotation or a compaction in which one call fails, the
log opens and can be appended to, unless its header is missing. -/

namespace Asp

open Std Framing Durable Steps

section Faults

variable {c : Crates} {sessionId : Uuid} {w w₁ w' : World} {a : Wal}

theorem Io.fault_consumers {i : Io} (h : w' ∈ i.fault w) :
    w'.disk.consumers = w.disk.consumers ∧ w'.eventConsumers = w.eventConsumers := by
  cases i with
  | openActive =>
    rcases List.mem_cons.mp h with rfl | h
    · exact ⟨rfl, rfl⟩
    · rw [List.mem_singleton.mp h]
      exact Io.act_consumers (i := .openActive) rfl
  | writeEvents =>
    obtain ⟨k, -, rfl⟩ := List.mem_map.mp h
    exact ⟨rfl, rfl⟩
  | writeActive =>
    obtain ⟨k, -, h⟩ := List.mem_flatMap.mp h
    obtain ⟨j, -, rfl⟩ := List.mem_map.mp h
    exact ⟨rfl, rfl⟩
  | writeSnapshot =>
    rcases List.mem_cons.mp h with rfl | h
    · exact ⟨rfl, rfl⟩
    · rw [List.mem_singleton.mp h]
      exact ⟨rfl, rfl⟩
  | pushSegment | installActive | resetEvents | drainSegments | storeBoundary | recordAppend
  | clearDirty => exact absurd h List.not_mem_nil
  | _ =>
    rw [List.mem_singleton.mp h]
    exact ⟨rfl, rfl⟩

theorem fails_consumers {is rest : List Io} {i : Io} (h : logMachine.Fails is w i rest w') :
    w'.disk.consumers = w.disk.consumers ∧ w'.eventConsumers = w.eventConsumers := by
  induction h with
  | here is hfault => exact Io.fault_consumers hfault
  | step hact _ ih =>
    obtain ⟨hfile, htable⟩ := Io.act_consumers hact
    exact ⟨ih.1.trans hfile, ih.2.trans htable⟩

theorem LogFault.consumers {call : LogCall} (h : LogFault c w call w') :
    w'.disk.consumers = w.disk.consumers ∧ w'.eventConsumers = w.eventConsumers := by
  cases h with
  | rotating hfail => exact fails_consumers hfail
  | @compacting s i rest w₁ hfail =>
    have h₁ := fails_consumers hfail
    split_ifs
    · exact h₁
    · have h₂ := passes_consumers (logMachine.run_passes rest w₁)
      exact ⟨h₂.1.trans h₁.1, h₂.2.trans h₁.2⟩

theorem Serves.consumers {guard : World → AppendCall → Prop} {head : ℕ} {events : List Event}
    (h : Serves c guard w head events w') :
    w'.disk.consumers = w.disk.consumers ∧ w'.eventConsumers = w.eventConsumers := by
  induction h with
  | done => exact ⟨rfl, rfl⟩
  | @ok w w₁ w' head call events _ _ hok _ ih | @refused w w₁ w' head call events _ _ hok _ ih =>
    have h := append_consumers (c := c) w call
    rw [hok] at h
    exact ⟨ih.1.trans h.1, ih.2.trans h.2⟩

theorem LogFault.faulted {call : LogCall} (h : Live c sessionId a w)
    (hproper : call.Proper sessionId a) (hframed : call.Framed c) (hfault : LogFault c w call w') :
    ∃ a₁, (a₁ = a ∨ ∃ s, call = .compact s ∧ a₁ = Wal.compacted s) ∧ a₁.head = a.head ∧
      Faulted c sessionId a₁ w' := by
  cases hfault with
  | @rotating call i rest w' hfail =>
    obtain ⟨⟨recs, hrun⟩, hl⟩ := h
    have hruns := (rotationProgram_safe hrun hproper hframed fun _ => hl.wholeHeader hrun).fails hfail
    exact ⟨a, .inl rfl, rfl, hruns.faulted⟩
  | @compacting s i rest w₁ hfail =>
    have hfaults := (compactProgram_safe h hproper.1 hproper.2).fails hfail
    unfold CompactFault at hfaults
    split_ifs at hfaults ⊢
    · rcases hfaults with hold | hnew
      · exact ⟨a, .inl rfl, rfl, hold⟩
      · exact ⟨_, .inr ⟨s, rfl, rfl⟩, hproper.1, hnew⟩
    · exact ⟨_, .inr ⟨s, rfl, rfl⟩, hproper.1, hfaults.1.faulted⟩

variable (c) in
/-- The states in which an append is safe: the descriptor's file has its header,
a rotation does not find a part of one, and the loader accepts the record. -/
def AppendSafe (w : World) (call : AppendCall) : Prop :=
  Headed w ∧ (needsRotation c w call.event = true → WholeHeader w) ∧
    (c.event.encode call.event).length ≤ maxFrameBytes

theorem Serves.faulted {head : ℕ} {events : List Event}
    (h : Serves c (AppendSafe c) w head events w') (hfaulted : Faulted c sessionId a w)
    (hhead : head = a.head) :
    ∃ n, Faulted c sessionId ⟨a.snapshot, a.events ++ events, n⟩ w' := by
  induction h generalizing a with
  | done w head =>
    rw [List.append_nil]
    exact ⟨a.synced, hfaulted⟩
  | @ok w w₁ w' head call events hid hguard hok _ ih =>
    obtain ⟨recs, -, hrun⟩ := hfaulted
    obtain ⟨hheaded, hwhole, hfits⟩ := hguard
    have hdone := (append_safe (hrun hheaded) (hhead ▸ hid) hfits hwhole).1
    rw [hok] at hdone
    obtain ⟨recs', hrun', -⟩ := hdone rfl
    obtain ⟨n, hn⟩ := ih (Runs.faulted ⟨recs', hrun'⟩) (by rw [Wal.append_head, hhead])
    refine ⟨n, ?_⟩
    rwa [List.append_cons]
  | @refused w w₁ w' head call events hid hguard herr _ ih =>
    obtain ⟨recs, -, hrun⟩ := hfaulted
    obtain ⟨hheaded, hwhole, hfits⟩ := hguard
    have hfailed := (append_safe (hrun hheaded) (hhead ▸ hid) hfits hwhole).2
    rw [herr] at hfailed
    exact ih (hfailed rfl).1.faulted hhead

/-- After one failed call of a rotation or a compaction, appends in safe states
lose nothing: the next open succeeds and finds every event, in order. -/
theorem faulted_log_recovers {call : LogCall} {events : List Event}
    (hrun : LogRun c sessionId (fun _ call => call.Sized c) w a) (hproper : call.Proper sessionId a)
    (hsized : call.Sized c) (hfault : LogFault c w call w₁)
    (hserves : Serves c (AppendSafe c) w₁ a.head events w') :
    ∃ a₁ a₂ : Wal, (a₁ = a ∨ ∃ s, call = .compact s ∧ a₁ = Wal.compacted s) ∧
      a₂.snapshot = a₁.snapshot ∧ a₂.events = a₁.events ++ events ∧
      a₂.events.map Event.id = List.range' (a₂.boundary + 1) a₂.events.length ∧
      ∃ d' mem, openSession c sessionId w'.view =
        (d', .ok (mem, { a₂.replay c.sha256 with eventConsumers := w'.eventConsumers })) := by
  obtain ⟨hlive, hacks⟩ := hrun.live fun _ _ h => h.framed
  obtain ⟨a₁, hcases, hhead, hfaulted⟩ := hfault.faulted hlive hproper hsized.framed
  obtain ⟨n, recs, hrecovers, -⟩ := hserves.faulted hfaulted hhead.symm
  have hfits : Wal.SnapshotFits c ⟨a₁.snapshot, a₁.events ++ events, n⟩ := by
    rcases hcases with rfl | ⟨s, rfl, rfl⟩
    · exact (show a₁.SnapshotFits c from hrun.snapshotFits fun _ _ h => h)
    · intro t ht
      cases ht
      exact hsized
  refine ⟨a₁, ⟨a₁.snapshot, a₁.events ++ events, n⟩, hcases, rfl, rfl, hrecovers.ids,
    openSession_of_recovers hrecovers hfits ?_⟩
  have hfile : w'.view.consumers = w.disk.consumers := hserves.consumers.1.trans hfault.consumers.1
  rw [hfile, hserves.consumers.2.trans hfault.consumers.2]
  refine hacks.mono ?_
  rw [← hhead]
  show a₁.boundary + a₁.events.length ≤ a₁.boundary + (a₁.events ++ events).length
  rw [List.length_append]
  omega

end Faults

def compactingWorld (n : ℕ) : World :=
  (logMachine.run ((compactProgram postcard createdWorld createdSnapshot).take n) createdWorld).1

theorem syncFault : LogFault postcard createdWorld (.compact createdSnapshot) (compactingWorld 5) := by
  have hfail : logMachine.Fails (compactProgram postcard createdWorld createdSnapshot) createdWorld
      .syncEvents ((compactProgram postcard createdWorld createdSnapshot).drop 6)
      (compactingWorld 5) :=
    .step rfl (.step rfl (.step rfl (.step rfl (.step rfl (.here _ (List.mem_singleton.mpr rfl))))))
  exact .compacting hfail

/-- The sync of the new header fails; the log has it all the same, and goes on. -/
theorem faulted_log_recovers_next_event : ∃ w' d' mem loaded, ∃ a₂ : Wal,
    Serves postcard (AppendSafe postcard) (compactingWorld 5) 1 [startedCall.event] w' ∧
    a₂.events.getLast? = some startedCall.event ∧
    openSession postcard 0 w'.view = (d', .ok (mem, loaded)) ∧
    loaded = { a₂.replay postcard.sha256 with eventConsumers := w'.eventConsumers } := by
  have hguard : AppendSafe postcard (compactingWorld 5) startedCall := by
    refine ⟨?_, ?_, by decide⟩
    · unfold Headed
      decide
    · have hfalse : needsRotation postcard (compactingWorld 5) startedCall.event = false := by
        decide
      exact fun hneeds => absurd (hfalse.symm.trans hneeds) Bool.false_ne_true
  have hserves : Serves postcard (AppendSafe postcard) (compactingWorld 5) 1 [startedCall.event]
      (append postcard (compactingWorld 5) startedCall).1 :=
    .ok rfl hguard (Prod.ext rfl (by decide)) (.done _ _)
  obtain ⟨a₁, a₂, -, -, hevents, -, d', mem, hopen⟩ := faulted_log_recovers
    (createdWorld_run createdCall_sized) createdSnapshot_proper createdSnapshot_sized syncFault hserves
  exact ⟨_, d', mem, _, a₂, hserves, by rw [hevents]; simp, hopen, rfl⟩

/-- The write of the new header fails. The next append returns `Ok`, and the
session does not open any more. -/
theorem append_after_failed_header_is_lost : ∃ w₁ w',
    LogRun postcard 0 (fun _ call => call.Sized postcard) createdWorld
      ⟨none, [createdCall.event], 1⟩ ∧
    LogFault postcard createdWorld (.compact createdSnapshot) w₁ ∧
    Serves postcard (fun _ _ => True) w₁ 1 [startedCall.event] w' ∧
    (openSession postcard 0 w'.view).2 = .error (.active .unsupportedFormat) := by
  have hfail : logMachine.Fails (compactProgram postcard createdWorld createdSnapshot) createdWorld
      (.writeEvents eventLogMagic) ((compactProgram postcard createdWorld createdSnapshot).drop 4)
      ((compactingWorld 3).writeEvents []) :=
    .step rfl (.step rfl (.step rfl (.here _ (List.mem_map.mpr ⟨0, by decide, rfl⟩))))
  refine ⟨_, (append postcard ((compactingWorld 3).writeEvents []) startedCall).1,
    createdWorld_run createdCall_sized, .compacting hfail,
    .ok rfl trivial (Prod.ext rfl (by decide)) (.done _ _), by decide +kernel⟩

end Asp
