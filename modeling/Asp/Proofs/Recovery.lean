import Asp.Proofs.LogRuns
import Asp.Proofs.Serializers

/-! What survives a stop: the log up to a record that was synced or later, and acknowledgements of
it, as long as the loader refuses nothing that is written. -/

namespace Asp

open Std Framing Durable Steps

variable {allowed : Wal → LogCall → Prop}

def freshDir : SessionDir Bytes := ⟨fun _ => [], 0, none, [], [], none, none⟩

def freshWorld : World where
  disk := { freshDir with
    files := Function.update (fun _ => Cell.stable []) 0 (Cell.stable (eventLogHeader true))
    fresh := 1
    active := some 0 }
  mem := ⟨⟨0, 9, true, none, 0⟩, [], 0, 9⟩
  eventConsumers := ∅

theorem World.opened_stable (f d' : SessionDir Bytes) (mem : SessionDisk) (loaded : LoadedSession) :
    World.opened (f.map Cell.stable) d' mem loaded =
      ⟨d'.map Cell.stable, mem, loaded.eventConsumers⟩ := by
  have hfiles : (fun i => if i < f.fresh ∧ d'.files i = f.files i then Cell.stable (f.files i)
      else Cell.stable (d'.files i)) = fun i => Cell.stable (d'.files i) := by
    funext i
    split_ifs with hkept
    · rw [hkept.2]
    · rfl
  rw [World.opened, SessionDir.reopened]
  exact congrArg (fun files => World.mk { d'.map Cell.stable with files := files } mem
    loaded.eventConsumers) hfiles

theorem freshWorld_opened : ∃ d', openSession postcard 0 freshDir = (d', .ok (freshWorld.mem, {})) ∧
    World.opened (freshDir.map Cell.stable) d' freshWorld.mem {} = freshWorld := by
  refine ⟨{ freshDir with
    files := Function.update (Function.update (fun _ => []) 0 []) 0 (eventLogHeader true)
    fresh := 1
    active := some 0 }, rfl, ?_⟩
  rw [Function.update_idem, World.opened_stable]
  simp only [SessionDir.map, freshWorld, freshDir, World.mk.injEq, SessionDir.mk.injEq, and_true]
  funext i
  by_cases hi : i = 0
  · subst hi
    rfl
  · simp [Function.update_of_ne hi]

theorem freshWorld_run (allowed : Wal → LogCall → Prop) :
    LogRun postcard 0 allowed freshWorld ⟨none, [], 0⟩ := by
  obtain ⟨d', hopen, hworld⟩ := freshWorld_opened
  rw [← hworld]
  exact .opened (.fresh (fun _ => []) 0) hopen

def createdCall : AppendCall := ⟨⟨1, 0, .sessionCreated⟩, 0, false⟩

theorem createdCall_sized : (LogCall.append createdCall).Sized postcard := by
  show (postcard.event.encode createdCall.event).length ≤ maxFrameBytes
  decide

def createdWorld : World := (append postcard freshWorld createdCall).1

theorem createdCall_appended : append postcard freshWorld createdCall = (createdWorld, true) ∧
    syncedAfter postcard freshWorld ⟨none, [], 0⟩ createdCall = 1 :=
  ⟨Prod.ext rfl (by decide), by decide⟩

theorem createdWorld_run (hallowed : allowed ⟨none, [], 0⟩ (.append createdCall)) :
    LogRun postcard 0 allowed createdWorld ⟨none, [createdCall.event], 1⟩ := by
  obtain ⟨hok, hsynced⟩ := createdCall_appended
  have hrun := LogRun.append (freshWorld_run allowed)
    (show (LogCall.append createdCall).Proper 0 ⟨none, [], 0⟩ from rfl) hallowed hok
  rwa [hsynced] at hrun

def startedCall : AppendCall := ⟨⟨2, 0, .processStarted 0 "a" none none⟩, 0, false⟩

def startedWorld : World := (append postcard createdWorld startedCall).1

theorem startedCall_appended : append postcard createdWorld startedCall = (startedWorld, true) ∧
    syncedAfter postcard createdWorld ⟨none, [createdCall.event], 1⟩ startedCall = 2 :=
  ⟨Prod.ext rfl (by decide), by decide⟩

theorem startedWorld_run
    (hallowed : ∀ a, allowed a (.append createdCall) ∧ allowed a (.append startedCall)) :
    LogRun postcard 0 allowed startedWorld ⟨none, [createdCall.event, startedCall.event], 2⟩ := by
  obtain ⟨hok, hsynced⟩ := startedCall_appended
  have hrun := LogRun.append (createdWorld_run (hallowed _).1)
    (show (LogCall.append startedCall).Proper 0 ⟨none, [createdCall.event], 1⟩ from rfl)
    (hallowed _).2 hok
  rwa [hsynced] at hrun

def lateOutput : AppendCall := ⟨⟨3, 0, .processOutput 0 .stdout 0 [104, 105]⟩, 0, false⟩

def lateWorld : World := (append postcard startedWorld lateOutput).1

def lateLog : Wal := ⟨none, [createdCall.event, startedCall.event, lateOutput.event], 2⟩

theorem lateCalls_sized : (LogCall.append createdCall).Sized postcard ∧
    (LogCall.append startedCall).Sized postcard ∧ (LogCall.append lateOutput).Sized postcard := by
  simp only [LogCall.Sized]
  decide

theorem lateOutput_appended : append postcard startedWorld lateOutput = (lateWorld, true) ∧
    syncedAfter postcard startedWorld ⟨none, [createdCall.event, startedCall.event], 2⟩ lateOutput =
      2 :=
  ⟨Prod.ext rfl (by decide), by decide⟩

theorem lateWorld_run
    (hallowed : ∀ a call, (LogCall.append call).Sized postcard → allowed a (.append call)) :
    LogRun postcard 0 allowed lateWorld lateLog := by
  obtain ⟨hcreated, hstarted, hlate⟩ := lateCalls_sized
  obtain ⟨hok, hsynced⟩ := lateOutput_appended
  have hrun := LogRun.append
    (startedWorld_run fun a => ⟨hallowed a _ hcreated, hallowed a _ hstarted⟩)
    (show (LogCall.append lateOutput).Proper 0 ⟨none, [createdCall.event, startedCall.event], 2⟩
      from rfl) (hallowed _ _ hlate) hok
  rwa [hsynced] at hrun

def World.withoutOutput (w : World) : SessionDir Bytes :=
  { w.view with files := Function.update w.view.files 0 (startedWorld.view.files 0) }

theorem World.crashed_view (w : World) : w.disk.Crashed w.view :=
  ⟨_, fun _ => .inl (Cell.now_mem_images _), rfl⟩

theorem World.crashed_withoutOutput {w : World}
    (h : startedWorld.view.files 0 ∈ (w.disk.files 0).images) : w.disk.Crashed w.withoutOutput := by
  refine ⟨_, fun i => .inl ?_, rfl⟩
  by_cases hi : i = 0
  · subst hi
    rwa [Function.update_self]
  · rw [Function.update_of_ne hi]
    exact Cell.now_mem_images _

theorem SessionDir.map_stable_now (f : SessionDir Bytes) :
    (f.map Cell.stable).map Cell.now = f := rfl

def openedSession (f : SessionDir Bytes) : SessionDisk × LoadedSession :=
  match (openSession postcard 0 f).2 with
  | .ok opened => opened
  | .error _ => (freshWorld.mem, {})

theorem openSession_eq {f : SessionDir Bytes} (hok : (openSession postcard 0 f).2.isOk = true) :
    openSession postcard 0 f =
      ((openSession postcard 0 f).1, .ok ((openedSession f).1, (openedSession f).2)) := by
  refine Prod.ext_iff.mpr ⟨rfl, ?_⟩
  unfold openedSession
  cases hopen : (openSession postcard 0 f).2 with
  | ok opened => rfl
  | error e =>
    rw [hopen] at hok
    exact absurd hok.symm Bool.false_ne_true.symm

def reopenedWorld (e : SessionDir (Cell Bytes)) : World :=
  World.opened e (openSession postcard 0 (e.map Cell.now)).1 (openedSession (e.map Cell.now)).1
    (openedSession (e.map Cell.now)).2

/-- In every run whose records and snapshots are within the frame limit, a stop inside any call
leaves a directory that opens: after a kill to the whole log, after a loss of power to the log up to
some record at or after the last synced one. And whatever opens has read every complete frame. -/
theorem recovery_prefix_exact {c : Crates} {sessionId : Uuid} {w w₁ : World} {a : Wal}
    {call : LogCall} {stop : Stop} {e : SessionDir (Cell Bytes)}
    (hrun : LogRun c sessionId (fun _ call => call.Sized c ∧ call.isAck = false) w a)
    (hproper : call.Proper sessionId a) (hsized : call.Sized c) (hlog : call.isAck = false)
    (hpass : call.Passes c w a w₁) (hstop : w₁.disk.Stops stop e) :
    (∃ d' mem a', openSession c sessionId (e.map Cell.now) =
        (d', .ok (mem, { a'.replay c.sha256 with eventConsumers := w₁.eventConsumers })) ∧
      a.Survives call stop a') ∧
    ∀ g d' mem loaded, g.logFiles.Nodup → openSession c sessionId g = (d', .ok (mem, loaded)) →
      ∃ base recs, openSnapshot c sessionId g.snapshot = .ok base ∧
        (∀ s ∈ g.segments, ReadsAs c false (g.files s.2) (recs s.2)) ∧
        (∀ i ∈ g.active, ReadsAs c true (g.files i) (recs i)) ∧
        Follows base.nextId base.nextId (flat g recs) ∧
        loaded = { (live base.nextId (flat g recs)).foldl (LoadedSession.push c.sha256) base with
          eventConsumers := loaded.eventConsumers } := by
  have hdurable : ∀ (a : Wal) (call : LogCall), call.Sized c ∧ call.isAck = false →
      call.AckDurable a := by
    rintro a (_ | _ | _ | _) ⟨-, hack⟩
    · trivial
    · trivial
    · exact absurd hack.symm Bool.false_ne_true
    · trivial
  refine ⟨?_, fun g d' mem loaded hnodup hopen => openSession_sound hnodup hopen⟩
  obtain ⟨d', mem, a', hopen, hsurvives, -⟩ :=
    hrun.opens (fun _ _ h => h.1) hdurable hproper ⟨hsized, hlog⟩ hpass hstop
  exact ⟨d', mem, a', hopen, hsurvives⟩

/-- The new session's first append, cut by a loss of power within the frame length. -/
theorem recovery_of_torn_first_record : ∃ w₁ f,
    (LogCall.append createdCall).Passes postcard freshWorld ⟨none, [], 0⟩ w₁ ∧
      w₁.disk.Crashed f ∧ f.files 0 = eventLogHeader true ++ [0, 0] ∧
      ∃ d' mem a', openSession postcard 0 f =
          (d', .ok (mem, { a'.replay postcard.sha256 with eventConsumers := ∅ })) ∧
        Wal.Survives ⟨none, [], 0⟩ (.append createdCall) .powerLoss a' := by
  have hpass : (LogCall.append createdCall).Passes postcard freshWorld ⟨none, [], 0⟩
      (freshWorld.writeEvents (be32 (postcard.event.encode createdCall.event).length)) :=
    .writing rfl (by decide) (.step rfl (.here _ _))
  have hcrash : (freshWorld.writeEvents
      (be32 (postcard.event.encode createdCall.event).length)).disk.Crashed
      { freshWorld.view with
        files := Function.update (fun _ => []) 0 (eventLogHeader true ++ [0, 0]) } := by
    refine ⟨_, fun i => .inl ?_, rfl⟩
    by_cases hi : i = 0
    · subst hi
      decide
    · rw [Function.update_of_ne hi]
      simp [World.writeEvents, World.setCell, World.setEvents, SessionDir.write, freshWorld,
        Function.update_of_ne hi]
  have hproper : (LogCall.append createdCall).Proper 0 ⟨none, [], 0⟩ := rfl
  have hstop : SessionDir.Stops _ .powerLoss _ := ⟨_, hcrash, rfl⟩
  exact ⟨_, _, hpass, hcrash, rfl, (recovery_prefix_exact (freshWorld_run _)
    hproper createdCall_sized rfl hpass hstop).1⟩

/-- Recovery is idempotent: what a session leaves that opens after a stop opens again to
the same store and the same session, and nothing more is written. -/
theorem reopening_loads_the_same {c : Crates} {sessionId : Uuid} {w w₁ : World} {a : Wal}
    {call : LogCall} {stop : Stop} {e : SessionDir (Cell Bytes)} {d' : SessionDir Bytes}
    {mem : SessionDisk} {loaded : LoadedSession}
    (hrun : LogRun c sessionId (fun _ call => call.Framed c) w a)
    (hproper : call.Proper sessionId a) (hframed : call.Framed c)
    (hpass : call.Passes c w a w₁) (hstop : w₁.disk.Stops stop e)
    (hopen : openSession c sessionId (e.map Cell.now) = (d', .ok (mem, loaded))) :
    openSession c sessionId d' = (d', .ok (mem, loaded)) := by
  obtain ⟨a₁, hmidway, hlasts⟩ :=
    (hrun.live fun _ _ h => h).1.passes_stop hproper hframed hpass
  obtain ⟨a', -, hlasts'⟩ := hlasts.stops hmidway hstop
  obtain ⟨recs, hrecovers⟩ := hlasts'.recovers
  exact hrecovers.opened_again hopen

def tornOutput : World :=
  startedWorld.writeEvents (be32 (postcard.event.encode lateOutput.event).length)

/-- The daemon is killed there: the next open cuts the length off, and the one after that
finds nothing to do. -/
theorem torn_output_reopens : ∃ d' mem loaded,
    (LogCall.append lateOutput).Passes postcard startedWorld
      ⟨none, [createdCall.event, startedCall.event], 2⟩ tornOutput ∧
    openSession postcard 0 tornOutput.view = (d', .ok (mem, loaded)) ∧
    (tornOutput.view.files 0).length = (d'.files 0).length + 4 ∧ loaded.nextId = 2 ∧
    openSession postcard 0 d' = (d', .ok (mem, loaded)) := by
  have hpass : (LogCall.append lateOutput).Passes postcard startedWorld
      ⟨none, [createdCall.event, startedCall.event], 2⟩ tornOutput :=
    .writing rfl (by decide +kernel) (.step rfl (.here _ _))
  have hopen := @openSession_eq tornOutput.view (by decide +kernel)
  obtain ⟨hcreated, hstarted, hlate⟩ := lateCalls_sized
  have hproper : (LogCall.append lateOutput).Proper 0
      ⟨none, [createdCall.event, startedCall.event], 2⟩ := rfl
  have hstop : tornOutput.disk.Stops .kill tornOutput.disk := rfl
  exact ⟨_, _, _, hpass, hopen, by decide +kernel, by decide +kernel,
    reopening_loads_the_same (startedWorld_run fun _ => ⟨hcreated.framed, hstarted.framed⟩)
      hproper hlate.framed hpass hstop hopen⟩

def createdSnapshot : SessionSnapshotData where
  sessionId := 0
  throughEventId := 1
  oldestEventUnixMs := none
  processes := ∅
  processRequests := (∅ : ExtTreeMap Uuid ProcessRequest).insert 0 ⟨"a", none, 0, 0⟩
  fileVersions := ∅
  fileRequests := ∅
  signalRequests := ∅
  artifactRequests := ∅
  artifacts := ∅
  ptyStarted := false
  ptyGeneration := 0

theorem createdSnapshot_proper :
    (LogCall.compact createdSnapshot).Proper 0 ⟨none, [createdCall.event], 1⟩ := ⟨rfl, rfl⟩

theorem createdSnapshot_sized : (LogCall.compact createdSnapshot).Sized postcard := by
  show (postcard.snapshot.encode createdSnapshot).length ≤ maxFrameBytes
  decide

/-- In every run that acknowledges only events that are on disk, a stop inside any call leaves
acknowledgements of recovered events, and the session opens. An event that was read back after a
kill is on disk only when it was synced before. -/
theorem acks_within_recovered_log {c : Crates} {sessionId : Uuid} {w w₁ : World} {a : Wal}
    {call : LogCall} {stop : Stop} {e : SessionDir (Cell Bytes)}
    (hrun : LogRun c sessionId (fun a call => call.Sized c ∧ call.AckDurable a) w a)
    (hproper : call.Proper sessionId a) (hsized : call.Sized c) (hdurable : call.AckDurable a)
    (hpass : call.Passes c w a w₁) (hstop : w₁.disk.Stops stop e) :
    ∃ d' mem loaded, openSession c sessionId (e.map Cell.now) = (d', .ok (mem, loaded)) ∧
      loaded.eventConsumers = w₁.eventConsumers ∧
      ∀ (id : String) (consumer : EventConsumer), w₁.eventConsumers[id]? = some consumer →
        consumer.acknowledgedEventId ≤ loaded.nextId := by
  obtain ⟨d', mem, a', hopen, -, hlasts, hacks⟩ :=
    hrun.opens (fun _ _ h => h.1) (fun _ _ h => h.2) hproper ⟨hsized, hdurable⟩ hpass hstop
  obtain ⟨recs, hrecovers⟩ := hlasts.recovers
  refine ⟨d', mem, _, hopen, rfl, fun id consumer hid => ?_⟩
  rw [(hrecovers.opened hopen).1]
  exact hacks.bounded id consumer hid

theorem killedWorld_run
    (hallowed : ∀ a call, (LogCall.append call).Sized postcard → allowed a (.append call))
    (hidle : allowed lateLog .idle) :
    LogRun postcard 0 allowed (reopenedWorld lateWorld.disk) lateLog := by
  have hopen := @openSession_eq lateWorld.view (by decide +kernel)
  have hstop : lateWorld.disk.Stops .kill lateWorld.disk := rfl
  have hsurvives : lateLog.Survives .idle .kill lateLog := rfl
  have hrun := LogRun.stopped (lateWorld_run hallowed)
    (show LogCall.idle.Proper 0 lateLog from trivial) hidle (.before _) hstop hopen hsurvives rfl
    (by decide +kernel)
  have hsettled : lateLog.settle (reopenedWorld lateWorld.disk) = lateLog :=
    if_neg (by decide +kernel)
  change LogRun postcard 0 allowed (reopenedWorld lateWorld.disk)
    (lateLog.settle (reopenedWorld lateWorld.disk)) at hrun
  rwa [hsettled] at hrun

/-- The next daemon acknowledges what was synced before the kill; then a loss of power
takes back the output that it has read. -/
theorem acks_within_log_of_killed_daemon : ∃ f,
    LogRun postcard 0 (fun a call => call.Sized postcard ∧ call.AckDurable a)
      (reopenedWorld lateWorld.disk) lateLog ∧
    (ackEventConsumer postcard (reopenedWorld lateWorld.disk) lateLog.head
      ⟨"c", 2, 0⟩).1.disk.Crashed f ∧
      ∃ d' mem loaded, openSession postcard 0 f = (d', .ok (mem, loaded)) ∧
        loaded.eventConsumers = (∅ : ExtTreeMap String EventConsumer).insert "c" ⟨2, 0⟩ ∧
        2 ≤ loaded.nextId := by
  have hrun := @killedWorld_run (fun a call => call.Sized postcard ∧ call.AckDurable a)
    (fun _ _ hsized => ⟨hsized, trivial⟩) ⟨trivial, trivial⟩
  have hcrash : (ackEventConsumer postcard (reopenedWorld lateWorld.disk) lateLog.head
      ⟨"c", 2, 0⟩).1.disk.Crashed _ := World.crashed_withoutOutput (by decide +kernel)
  have hdurable : (LogCall.ack ⟨"c", 2, 0⟩).AckDurable lateLog := le_rfl
  have hstop : SessionDir.Stops _ .powerLoss _ := ⟨_, hcrash, rfl⟩
  obtain ⟨d', mem, loaded, hopen, htable, hbounded⟩ := acks_within_recovered_log hrun
    (show (LogCall.ack ⟨"c", 2, 0⟩).Proper 0 lateLog from trivial) trivial hdurable
    (.acked ⟨"c", 2, 0⟩) hstop
  have hconsumers : (ackEventConsumer postcard (reopenedWorld lateWorld.disk) lateLog.head
      ⟨"c", 2, 0⟩).1.eventConsumers =
      (∅ : ExtTreeMap String EventConsumer).insert "c" ⟨2, 0⟩ := by decide +kernel
  rw [SessionDir.map_stable_now] at hopen
  refine ⟨World.withoutOutput _, hrun, hcrash, d', mem, loaded, hopen,
    htable.trans hconsumers, ?_⟩
  refine hbounded "c" ⟨2, 0⟩ ?_
  rw [hconsumers]
  decide

/-- Event 3 is acknowledged, and a loss of power then leaves a directory that does not open. -/
def AckBlocksOpen (w : World) (f : SessionDir Bytes) : Prop :=
  LogRun postcard 0 (fun _ call => call.Sized postcard)
      (ackEventConsumer postcard w lateLog.head ⟨"c", 3, 0⟩).1 lateLog ∧
    (ackEventConsumer postcard w lateLog.head ⟨"c", 3, 0⟩).2 = some 3 ∧
    (ackEventConsumer postcard w lateLog.head ⟨"c", 3, 0⟩).1.disk.Crashed f ∧
    (openSession postcard 0 f).2 = .error (.ackBeyondHead "c" 3 2)

/-- The acknowledgement is durable, the output it acknowledges is not, whether or not the daemon was
restarted in between. -/
theorem ack_of_unsynced_output_blocks_open :
    ∃ f g, AckBlocksOpen lateWorld f ∧ AckBlocksOpen (reopenedWorld lateWorld.disk) g := by
  have hlate : AckBlocksOpen lateWorld _ :=
    ⟨.ack (lateWorld_run fun _ _ h => h) trivial, by decide +kernel,
      World.crashed_withoutOutput (by decide +kernel), by decide +kernel⟩
  have hreopened : AckBlocksOpen (reopenedWorld lateWorld.disk) _ :=
    ⟨.ack (killedWorld_run (fun _ _ h => h) trivial) trivial, by decide +kernel,
      World.crashed_withoutOutput (by decide +kernel), by decide +kernel⟩
  exact ⟨_, _, hlate, hreopened⟩

end Asp
