import Asp.Proofs.Subscription

/-! Events that were sent to a subscriber stay in the history under their ids, when the machine
never loses power before they are on disk. -/

set_option maxRecDepth 20000

namespace Asp

open Std Durable

section Delivery

variable {c : Crates} {sessionId : Uuid} {capacity : ℕ} {allowed : Wal → LogCall → Prop}
  {d : Daemon}

theorem Daemon.Sound.notified_subset (h : d.Sound c sessionId allowed) {stream : EventStream}
    (hstream : stream ∈ d.streams) : ∀ e ∈ stream.notified, e ∈ d.history := fun e he => by
  have hmem := (h.streams stream hstream).notified_of_script.subset he
  exact List.mem_of_mem_drop (List.mem_filter.mp hmem).1

theorem Daemon.Sound.sent_subset (h : d.Sound c sessionId allowed)
    (hpast : ∀ e ∈ d.past, e ∈ d.history) : ∀ e ∈ d.sent, e ∈ d.history := fun e he => by
  rcases List.mem_append.mp he with he | he
  · exact hpast e he
  · obtain ⟨stream, hstream, he⟩ := List.mem_flatMap.mp he
    exact h.notified_subset hstream e he

theorem DaemonRun.sent_subset (hframed : ∀ a call, allowed a call → call.Framed c)
    (h : DaemonRun c sessionId capacity allowed Daemon.SentDurable d) :
    ∀ e ∈ d.sent, e ∈ d.history := by
  refine (h.sound hframed).sent_subset ?_
  induction h with
  | opened => exact fun e he => absurd he List.not_mem_nil
  | step _ hstep ih =>
    cases hstep with
    | call => exact fun e he => List.mem_append_left _ (ih e he)
    | subscribe | stream => exact ih
  | @crash d stop call s' hrun hguard hcrash ih =>
    have hsound := hrun.sound hframed
    have hlasts := (hsound.session.log.live hframed).1.2.lasts
    intro e he
    have hmem := hsound.sent_subset ih e he
    have hkept : e.id ≤ s'.log.head := by
      obtain ⟨hproper, -, -, -, -, hsurvives, -, -⟩ := hcrash
      rw [Wal.settle_head]
      cases stop with
      | kill => exact (hsound.recorded.id_le hmem).trans (hsurvives.head_le hlasts.synced hproper)
      | powerLoss =>
        obtain ⟨hdurable, hsynced⟩ := hsurvives.durableHead_le hlasts.synced hproper
        exact (hguard rfl e he).trans (hdurable.trans (Wal.durableHead_le_head hsynced))
    have htake := hsound.recorded.mem_take hmem hkept
    exact (List.IsPrefix.take (List.prefix_append d.history call.appended) _).subset htake

/-- In every run that loses power only when what was sent is on disk, no event gets the
id of one that was sent; a client that resumes there gets the events after it. -/
theorem sent_ids_are_not_reused {e : Event}
    (hrun : DaemonRun c sessionId capacity (fun _ call => call.Framed c) Daemon.SentDurable d)
    (he : e ∈ d.sent) :
    (∀ e' ∈ d.history, e'.id = e.id → e' = e) ∧
    d.session.log.events <:+ d.history ∧ d.session.journal.events <:+ d.history ∧
    ∃ reply, eventsSinceLocked c d.session.world.view d.session.world.mem d.session.journal e.id =
        (d.session.world.view, .ok reply) ∧
      (reply.compacted = true ∨ reply.events = d.history.filter fun x => e.id < x.id) := by
  have hsound := hrun.sound fun _ _ h => h
  have hmem := hrun.sent_subset (fun _ _ h => h) e he
  have hlog : d.session.log.events <:+ d.history := hsound.recorded.log ▸ List.drop_suffix ..
  refine ⟨fun e' he' => hsound.recorded.eq_of_id hmem he', hlog,
    hsound.session.window.newest.trans hlog, ?_⟩
  obtain ⟨reply, heq, hcases⟩ := hsound.eventsSince (fun _ _ h => h) e.id
  refine ⟨reply, heq, ?_⟩
  rcases hcases with ⟨-, hevents⟩ | ⟨hcompacted, -⟩
  · exact .inr (by rw [hsound.recorded.filter_after]; exact hevents)
  · exact .inl hcompacted

def reopenedSession (e : SessionDir (Cell Bytes)) (a : Wal) : SessionState :=
  ⟨reopenedWorld e, Journal.fromLoaded (openedSession (e.map Cell.now)).2, a.settle (reopenedWorld e)⟩

theorem reopenedSession_crash {stop : Stop} {s : SessionState} {e : SessionDir (Cell Bytes)} {a' : Wal}
    (hstop : s.world.disk.Stops stop e)
    (hok : (openSession postcard 0 (e.map Cell.now)).2.isOk = true)
    (hsurvives : s.log.Survives .idle stop a')
    (hsnapshot : e.snapshot = a'.snapshot.map (snapshotFile postcard))
    (hhead : (openedSession (e.map Cell.now)).2.nextId = a'.head) :
    SessionCrash postcard 0 (fun _ call => call.Framed postcard) stop s .idle
      (reopenedSession e a') :=
  .restart trivial trivial (.before _) hstop (openSession_eq hok) hsurvives hsnapshot hhead

def writtenCall (id : ℕ) : AppendCall := ⟨⟨id, 0, .fileChanged "a" 1⟩, 0, false⟩

def writtenSession (s : SessionState) : SessionState :=
  ⟨(append postcard s.world (s.journal.call 0 (.fileChanged "a" 1) ⟨0, false⟩)).1,
    (s.journal.append 0 (.fileChanged "a" 1)).1.enforceBounds,
    s.log.append (s.journal.append 0 (.fileChanged "a" 1)).2
      (syncedAfter postcard s.world s.log (s.journal.call 0 (.fileChanged "a" 1) ⟨0, false⟩))⟩

theorem writtenSession_step {s : SessionState}
    (hframed : (postcard.event.encode (s.journal.append 0 (.fileChanged "a" 1)).2).length ≤
      maxFrameBytes)
    (hok : (append postcard s.world (s.journal.call 0 (.fileChanged "a" 1) ⟨0, false⟩)).2 = true) :
    SessionStep postcard 0 (fun _ call => call.Framed postcard) s
      (some (s.journal.append 0 (.fileChanged "a" 1)).2) (writtenSession s) :=
  .append 0 (.fileChanged "a" 1) ⟨0, false⟩ hframed (Prod.ext rfl hok)

def killedSession : SessionState := reopenedSession lateWorld.disk lateLog

/-- The output is read back, the next event is synced, and only then the power fails. -/
theorem sent_output_is_not_reused : ∃ d : Daemon,
    DaemonRun postcard 0 eventSubscriberCapacity (fun _ call => call.Framed postcard)
      Daemon.SentDurable d ∧
    d.session = reopenedSession ((writtenSession killedSession).world.view.map Cell.stable)
      (writtenSession killedSession).log ∧
    lateOutput.event ∈ d.sent ∧
    (∀ e' ∈ d.history, e'.id = lateOutput.event.id → e' = lateOutput.event) ∧
    ∃ reply, eventsSinceLocked postcard d.session.world.view d.session.world.mem d.session.journal
        lateOutput.event.id = (d.session.world.view, .ok reply) ∧
      (reply.compacted = true ∨ reply.events = d.history.filter fun x => 3 < x.id) := by
  have hkill : SessionCrash postcard 0 (fun _ call => call.Framed postcard) .kill lateSession .idle
      killedSession := reopenedSession_crash rfl (by decide +kernel) rfl rfl (by decide +kernel)
  have hwritten : SessionStep postcard 0 (fun _ call => call.Framed postcard) killedSession
      (some (writtenCall 4).event) (writtenSession killedSession) :=
    writtenSession_step (by decide +kernel) (by decide +kernel)
  have hcrashed := (writtenSession killedSession).world.crashed_view
  have hloss : SessionCrash postcard 0 (fun _ call => call.Framed postcard) .powerLoss
      (writtenSession killedSession) .idle
      (reopenedSession ((writtenSession killedSession).world.view.map Cell.stable)
        (writtenSession killedSession).log) :=
    reopenedSession_crash ⟨_, hcrashed, rfl⟩ (by decide +kernel)
      ⟨_, _, rfl, by decide +kernel, (Wal.take_length _).symm⟩ (by decide +kernel)
      (by decide +kernel)
  have hguard : Stop.kill = .powerLoss → watchedDaemon.SentDurable := fun h => Stop.noConfusion h
  have hlive := ((watchedDaemon_run Daemon.SentDurable).crash hguard hkill).step (.call hwritten)
  have hrun := hlive.crash (fun _ => by unfold Daemon.SentDurable; decide +kernel) hloss
  have hsent : lateOutput.event ∈ watchedDaemon.sent := by decide +kernel
  obtain ⟨hunique, -, -, hreply⟩ := sent_ids_are_not_reused hrun (List.mem_append_left _ hsent)
  exact ⟨_, hrun, rfl, List.mem_append_left _ hsent, hunique, hreply⟩

def lostSession : SessionState :=
  reopenedSession (lateWorld.withoutOutput.map Cell.stable)
    ⟨none, [createdCall.event, startedCall.event], 2⟩

/-- The output is sent, the loss of power takes it back, and the next event gets its id. A
client that resumes after the output is not told of it. -/
theorem sent_output_id_is_reused : ∃ (d : Daemon) (e e' : Event),
    DaemonRun postcard 0 eventSubscriberCapacity (fun _ call => call.Framed postcard)
      (fun _ => True) d ∧
    e ∈ d.sent ∧ e' ∈ d.history ∧ e'.id = e.id ∧ e' ≠ e ∧ e' ∉ d.sent ∧
    (eventsSinceLocked postcard d.session.world.view d.session.world.mem d.session.journal e.id).2 =
      .ok ⟨[], false, false⟩ := by
  have hcrashed : lateWorld.disk.Crashed lateWorld.withoutOutput :=
    World.crashed_withoutOutput (by decide +kernel)
  have hloss : SessionCrash postcard 0 (fun _ call => call.Framed postcard) .powerLoss lateSession
      .idle lostSession :=
    reopenedSession_crash ⟨_, hcrashed, rfl⟩ (by decide +kernel) ⟨lateLog, 2, rfl, le_rfl, rfl⟩ rfl
      (by decide +kernel)
  have hwritten : SessionStep postcard 0 (fun _ call => call.Framed postcard) lostSession
      (some (writtenCall 3).event) (writtenSession lostSession) :=
    writtenSession_step (by decide +kernel) (by decide +kernel)
  have hrun := ((watchedDaemon_run fun _ => True).crash (fun _ => trivial) hloss).step
    (.call hwritten)
  exact ⟨_, lateOutput.event, (writtenCall 3).event, hrun, by decide +kernel, by decide +kernel,
    by decide +kernel, by decide +kernel, by decide +kernel, by decide +kernel⟩

end Delivery

end Asp
