import Asp.Proofs.ProcessOutput

/-! The final drain. In every round it takes at most one batch of each log, and it
ends after 500 rounds whether or not the logs are read to their end. -/

namespace Asp

open Durable

namespace DrainRound

/-- The process is gone, and a read before the end of a log gives something. -/
structure Quiet (round : DrainRound) : Prop where
  grown : round.grown = fun _ => []
  reads : ∀ stream, 0 ∉ (round.chance stream).reads
  dead : round.groupAlive = false

structure Calm (round : DrainRound) : Prop where
  read : ∀ stream, (round.chance stream).readOk = true
  sync : ∀ stream, (round.chance stream).syncOk = true
  append : ∀ stream, (round.chance stream).append = .synced ∨
    (round.chance stream).append = .buffered

end DrainRound

namespace OutputWorld

variable {sha256 : Bytes → String} {processId : Uuid} {w w' : OutputWorld}
  {offset offset' : OutputStream → ℕ}

theorem readLoop_full {reads : List ℕ} (h : 0 ∉ reads) (wanted : ℕ) :
    readLoop reads wanted = wanted := by
  induction reads generalizing wanted with
  | nil => rfl
  | cons count counts ih =>
    rw [List.mem_cons, not_or] at h
    rw [readLoop, if_neg (Ne.symm h.1), ih h.2]
    omega

theorem publish_ok {stream : OutputStream} {chance : DrainChance} {data : Bytes}
    (h : w.publish processId stream chance offset data = (.ok offset', w')) :
    offset' = Function.update offset stream (offset stream + data.length) := by
  unfold publish at h
  extract_lets w₁ moved at h
  split_ifs at h with hsync hlimit
  · cases (Prod.mk.inj h).1
  · cases (Prod.mk.inj h).1
  · cases hresult : w₁.append chance.unixMs (.processOutput processId stream (offset stream) data)
        chance.append with
    | mk ok w₂ =>
      rw [hresult] at h
      cases ok with
      | false => cases (Prod.mk.inj h).1
      | true => exact (Except.ok.inj (Prod.mk.inj h).1).symm

theorem drain_ok {stream : OutputStream} {chance : DrainChance} (hreads : 0 ∉ chance.reads)
    (h : w.drainPersistentStream processId stream chance offset = (.ok offset', w')) :
    offset' = Function.update offset stream
      (min (w.log stream).length (offset stream + processLogReadBatchBytes)) := by
  unfold drainPersistentStream at h
  split_ifs at h with hread
  · cases (Prod.mk.inj h).1
  cases hdata : readNewBytesWithLimit (w.log stream) (offset stream) processLogReadBatchBytes
      chance.reads with
  | error error =>
    rw [hdata] at h
    cases (Prod.mk.inj h).1
  | ok data =>
    obtain ⟨hle, hbytes⟩ := readNewBytes_ok hdata
    have hlength : data.length =
        min ((w.log stream).length - offset stream) processLogReadBatchBytes := by
      rw [hbytes, readLoop_full hreads, List.length_take, List.length_drop]
      omega
    have hmoved : min (w.log stream).length (offset stream + processLogReadBatchBytes) =
        offset stream + data.length := by omega
    rw [hmoved]
    rw [hdata] at h
    dsimp only at h
    split_ifs at h with hempty
    · cases h
      rw [hempty, List.length_nil, Nat.add_zero, Function.update_eq_self]
    · exact publish_ok h

theorem grow_nothing (w : OutputWorld) : w.grow (fun _ => []) = w := by
  unfold grow
  simp only [List.append_nil]

def drainedTo (w : OutputWorld) (offset : OutputStream → ℕ) (count : ℕ) (stream : OutputStream) :
    ℕ :=
  min (w.log stream).length (offset stream + count * processLogReadBatchBytes)

section Rounds

variable {rounds : ℕ → DrainRound}

theorem round_ok (h : OutputSound sha256 processId w) (hr : ReadsOn processId w offset)
    {round : DrainRound} (hquiet : round.Quiet) {offset₁ offset₂ : OutputStream → ℕ}
    {w₁ w₂ : OutputWorld}
    (hstdout : (w.grow round.grown).drainPersistentStream processId .stdout (round.chance .stdout)
      offset = (.ok offset₁, w₁))
    (hstderr : w₁.drainPersistentStream processId .stderr (round.chance .stderr) offset₁ =
      (.ok offset₂, w₂)) :
    OutputSound sha256 processId w₂ ∧ ReadsOn processId w₂ offset₂ ∧ w₂.log = w.log ∧
      offset₂ = w.drainedTo offset 1 := by
  rw [hquiet.grown, grow_nothing] at hstdout
  obtain ⟨hsound₁, hlog₁, hreads₁⟩ := h.drain .stdout (round.chance .stdout) hr
  rw [hstdout] at hsound₁ hlog₁ hreads₁
  obtain ⟨hsound₂, hlog₂, hreads₂⟩ :=
    hsound₁.drain .stderr (round.chance .stderr) (hreads₁ offset₁ rfl)
  rw [hstderr] at hsound₂ hlog₂ hreads₂
  have hmoved₁ := drain_ok (hquiet.reads .stdout) hstdout
  have hmoved₂ := drain_ok (hquiet.reads .stderr) hstderr
  refine ⟨hsound₂, hreads₂ offset₂ rfl, hlog₂.trans hlog₁, ?_⟩
  funext stream
  rw [drainedTo, Nat.one_mul, hmoved₂, hmoved₁, show w₁.log = w.log from hlog₁]
  cases stream <;> simp [Function.update]

/-- The loop: whether it ends because the logs are quiet or because its rounds are
used up, the cursors are where so many batches lead. -/
theorem drainRounds_ok (hquiet : ∀ index, (rounds index).Quiet) (left : ℕ) :
    ∀ (index idle : ℕ) (w : OutputWorld) (offset : OutputStream → ℕ),
      OutputSound sha256 processId w → ReadsOn processId w offset →
      ∀ offset' w', w.drainRounds processId rounds left index idle offset = (.ok offset', w') →
        OutputSound sha256 processId w' ∧ ReadsOn processId w' offset' ∧ w'.log = w.log ∧
          offset' = w.drainedTo offset left := by
  induction left with
  | zero =>
    intro index idle w offset h hr offset' w' hdrain
    obtain ⟨hoffset, rfl⟩ := Prod.mk.inj hdrain
    cases hoffset
    refine ⟨h, hr, rfl, funext fun stream => ?_⟩
    have hle := (h.now.logged stream).length_le
    rw [drainedTo, Nat.zero_mul, Nat.add_zero, hr.offset_eq]
    exact (Nat.min_eq_right hle).symm
  | succ left ih =>
    intro index idle w offset h hr offset' w' hdrain
    unfold drainRounds at hdrain
    dsimp only at hdrain
    cases hstdout : (w.grow (rounds index).grown).drainPersistentStream processId .stdout
        ((rounds index).chance .stdout) offset with
    | mk result₁ w₁ =>
      rw [hstdout] at hdrain
      cases result₁ with
      | error error => cases (Prod.mk.inj hdrain).1
      | ok offset₁ =>
        dsimp only at hdrain
        cases hstderr : w₁.drainPersistentStream processId .stderr
            ((rounds index).chance .stderr) offset₁ with
        | mk result₂ w₂ =>
          rw [hstderr] at hdrain
          cases result₂ with
          | error error => cases (Prod.mk.inj hdrain).1
          | ok offset₂ =>
            obtain ⟨hsound, hreads, hlog, hmoved⟩ := round_ok h hr (hquiet index) hstdout hstderr
            -- the rounds that follow, from where this one ends
            have hnext : ∀ idle', w₂.drainRounds processId rounds left (index + 1) idle' offset₂ =
                (.ok offset', w') → OutputSound sha256 processId w' ∧ ReadsOn processId w' offset' ∧
                w'.log = w.log ∧ offset' = w.drainedTo offset (left + 1) := by
              intro idle' hrest
              obtain ⟨hsound', hreads', hlog', hmoved'⟩ :=
                ih (index + 1) idle' w₂ offset₂ hsound hreads offset' w' hrest
              refine ⟨hsound', hreads', hlog'.trans hlog, hmoved'.trans (funext fun stream => ?_)⟩
              rw [hmoved]
              simp only [drainedTo, hlog]
              rw [Nat.add_mul]
              omega
            dsimp only at hdrain
            split_ifs at hdrain with hagain hidle
            · exact hnext 0 hdrain
            · obtain ⟨hoffset, rfl⟩ := Prod.mk.inj hdrain
              obtain rfl := Except.ok.inj hoffset
              refine ⟨hsound, hreads, hlog, hmoved.trans (funext fun stream => ?_)⟩
              -- a round that moved nothing found both logs at their end
              have hstill : offset₂ stream = offset stream := by
                cases stream <;> tauto
              rw [hmoved] at hstill
              have hbatch : 0 < processLogReadBatchBytes := by decide
              simp only [drainedTo] at hstill ⊢
              rw [Nat.add_mul]
              omega
            · exact hnext (idle + 1) hdrain

def WithinOutputLimit (w : OutputWorld) : Prop :=
  (w.log .stdout).length + (w.log .stderr).length ≤ processOutputMaxBytes

theorem append_succeeds (unixMs : ℕ) (kind : EventKind) {outcome : AppendOutcome}
    (h : outcome = .synced ∨ outcome = .buffered) : (w.append unixMs kind outcome).1 = true := by
  rcases h with rfl | rfl <;> rfl

theorem drain_succeeds (h : OutputSound sha256 processId w) (hr : ReadsOn processId w offset)
    (hlimit : w.WithinOutputLimit) (stream : OutputStream) {chance : DrainChance}
    (hread : chance.readOk = true) (hsync : chance.syncOk = true)
    (happend : chance.append = .synced ∨ chance.append = .buffered) :
    ∃ offset', (w.drainPersistentStream processId stream chance offset).1 = .ok offset' := by
  have hlogged := (h.now.logged stream).length_le
  have hoffset := congrFun hr.offset_eq stream
  rw [recordedBytes] at hoffset
  have hmax : (w.log stream).length ≤ processOutputMaxBytes := by
    unfold WithinOutputLimit at hlimit
    cases stream <;> omega
  unfold drainPersistentStream
  rw [hread, if_neg (by decide), readNewBytesWithLimit, if_neg (by omega), if_neg (by omega)]
  dsimp only
  split_ifs with hempty
  · exact ⟨offset, rfl⟩
  · set data := ((w.log stream).drop (offset stream)).take
      (readLoop chance.reads (min ((w.log stream).length - offset stream) processLogReadBatchBytes))
      with hdata
    obtain ⟨record, hrecord⟩ := Option.isSome_iff_exists.mp hr.known
    have hfits : processOutputWithinLimit record data.length = true := by
      have hnext := (logged_append_read (h.now.logged stream) (readLoop chance.reads
        (min ((w.log stream).length - offset stream) processLogReadBatchBytes))).length_le
      rw [List.length_append, ← congrFun hr.offset_eq stream, ← hdata] at hnext
      have hstdout := h.bytes_eq hrecord .stdout
      have hstderr := h.bytes_eq hrecord .stderr
      have hout := (h.now.logged .stdout).length_le
      have herr := (h.now.logged .stderr).length_le
      unfold WithinOutputLimit at hlimit
      simp only [ProcessRecord.bytes, recordedBytes] at hstdout hstderr
      refine decide_eq_true ?_
      simp only [saturatingAdd]
      cases stream <;> omega
    unfold publish
    extract_lets w₁ moved
    have hany : w₁.record.any (processOutputWithinLimit · data.length) = true := by
      rw [show w₁.record = some record from hrecord, Option.any_some, hfits]
    rw [if_neg (by rw [hsync]; decide), if_neg (by rw [hany]; decide)]
    have hok := append_succeeds (w := w₁) chance.unixMs
      (.processOutput processId stream (offset stream) data) happend
    cases hresult : w₁.append chance.unixMs (.processOutput processId stream (offset stream) data)
        chance.append with
    | mk ok w₂ =>
      rw [hresult] at hok
      obtain rfl : ok = true := hok
      exact ⟨_, rfl⟩

theorem drainRounds_succeeds (hquiet : ∀ index, (rounds index).Quiet)
    (hcalm : ∀ index, (rounds index).Calm) (left : ℕ) :
    ∀ (index idle : ℕ) (w : OutputWorld) (offset : OutputStream → ℕ),
      OutputSound sha256 processId w → ReadsOn processId w offset → w.WithinOutputLimit →
      ∃ offset', (w.drainRounds processId rounds left index idle offset).1 = .ok offset' := by
  induction left with
  | zero => exact fun index idle w offset _ _ _ => ⟨offset, rfl⟩
  | succ left ih =>
    intro index idle w offset h hr hlimit
    have hgrown : w.grow (rounds index).grown = w := by rw [(hquiet index).grown, grow_nothing]
    unfold drainRounds
    dsimp only
    obtain ⟨offset₁, hfirst⟩ := drain_succeeds h hr hlimit .stdout ((hcalm index).read .stdout)
      ((hcalm index).sync .stdout) ((hcalm index).append .stdout)
    obtain ⟨hsound₁, hlog₁, hreads₁⟩ := h.drain .stdout ((rounds index).chance .stdout) hr
    cases hstdout : (w.grow (rounds index).grown).drainPersistentStream processId .stdout
        ((rounds index).chance .stdout) offset with
    | mk result₁ w₁ =>
      have hstdout' := hstdout
      rw [hgrown] at hstdout'
      rw [hstdout'] at hfirst hsound₁ hlog₁ hreads₁
      obtain rfl : result₁ = .ok offset₁ := hfirst
      have hlimit₁ : w₁.WithinOutputLimit := by
        unfold WithinOutputLimit
        rwa [show w₁.log = w.log from hlog₁]
      obtain ⟨offset₂, hsecond⟩ := drain_succeeds hsound₁ (hreads₁ offset₁ rfl) hlimit₁ .stderr
        ((hcalm index).read .stderr) ((hcalm index).sync .stderr) ((hcalm index).append .stderr)
      dsimp only
      cases hstderr : w₁.drainPersistentStream processId .stderr ((rounds index).chance .stderr)
          offset₁ with
      | mk result₂ w₂ =>
        rw [hstderr] at hsecond
        obtain rfl : result₂ = .ok offset₂ := hsecond
        obtain ⟨hsound₂, hreads₂, hlog₂, -⟩ := round_ok h hr (hquiet index) hstdout hstderr
        have hlimit₂ : w₂.WithinOutputLimit := by
          unfold WithinOutputLimit
          rwa [hlog₂]
        dsimp only
        split_ifs
        · exact ih (index + 1) 0 w₂ offset₂ hsound₂ hreads₂ hlimit₂
        · exact ⟨offset₂, rfl⟩
        · exact ih (index + 1) (idle + 1) w₂ offset₂ hsound₂ hreads₂ hlimit₂

end Rounds

theorem recordExit_ok {unixMs : ℕ} {code : Option ℤ} {outcome : AppendOutcome}
    (h : w.recordExit processId unixMs code outcome = (true, w')) :
    w'.journal.now = w.journal.now ++ [w.nextEvent unixMs (.processExited processId code)] ∧
      w'.record = w.record.map fun record =>
        { record with running := false, exitCode := code, exitUnixMs := some unixMs } := by
  have ha := appended unixMs (.processExited processId code) outcome w
  unfold recordExit at h
  cases hresult : w.append unixMs (.processExited processId code) outcome with
  | mk ok w₁ =>
    rw [hresult] at h ha
    cases ok with
    | false => cases (Prod.mk.inj h).1
    | true =>
      obtain rfl := (Prod.mk.inj h).2
      refine ⟨ha.now, ?_⟩
      rw [show w₁.record = w.record from ha.record]

theorem recordExit_succeeds {unixMs : ℕ} {code : Option ℤ} {outcome : AppendOutcome}
    (h : outcome = .synced ∨ outcome = .buffered) :
    (w.recordExit processId unixMs code outcome).1 = true := by
  rcases h with rfl | rfl <;> rfl

theorem monitorSummary_bytes (log : OutputStream → Bytes) (record : ProcessRecord)
    (tailBytes : ℕ) (processId : Uuid) (eventId : ℕ) :
    (monitorSummary log record tailBytes processId eventId).stdoutBytes = record.stdoutBytes ∧
      (monitorSummary log record tailBytes processId eventId).stderrBytes = record.stderrBytes := by
  unfold monitorSummary persistedProcessSummary
  cases readPersistedProcessTail (log .stdout) record.stdoutBytes tailBytes with
  | none => exact ⟨rfl, rfl⟩
  | some stdoutTail =>
    cases readPersistedProcessTail (log .stderr) record.stderrBytes tailBytes with
    | none => exact ⟨rfl, rfl⟩
    | some stderrTail => exact ⟨rfl, rfl⟩

/-- The journal in front of the exit event has all of both logs, and the summary says so. -/
structure ExitComplete (processId : Uuid) (log : OutputStream → Bytes) (before : List Event)
    (summary : ProcessSummary) : Prop where
  covered : ∀ stream, loggedOutput processId stream before = log stream
  stdoutBytes : summary.stdoutBytes = (log .stdout).length
  stderrBytes : summary.stderrBytes = (log .stderr).length

/-- What the final drain can read of a log in all its rounds. -/
def exitDrainBytes : ℕ := processExitDrainRounds * processLogReadBatchBytes

section Exit

variable {rounds : ℕ → DrainRound} {unixMs : ℕ} {code : Option ℤ} {outcome : AppendOutcome}

theorem exitPath_complete_iff (h : OutputSound sha256 processId w)
    (hr : ReadsOn processId w offset) (hquiet : ∀ index, (rounds index).Quiet)
    (hexit : w.exitPath processId rounds offset unixMs code outcome = (true, w')) :
    ∃ before event record, w'.journal.now = before ++ [event] ∧
      event.kind = .processExited processId code ∧ w'.record = some record ∧
      ∀ tailBytes, ExitComplete processId w.log before
          (monitorSummary w'.log record tailBytes processId event.id) ↔
        ∀ stream, (w.log stream).length ≤ offset stream + exitDrainBytes := by
  unfold exitPath at hexit
  cases hdrain : w.drainPersistentOutputUntilQuiet processId rounds offset with
  | mk result w₁ =>
    rw [hdrain] at hexit
    cases result with
    | error error => cases (Prod.mk.inj hexit).1
    | ok offset₁ =>
      obtain ⟨hsound, hreads, hlog, hmoved⟩ :=
        drainRounds_ok hquiet processExitDrainRounds 0 0 w offset h hr offset₁ w₁ hdrain
      obtain ⟨hnow, hrecord⟩ := recordExit_ok hexit
      obtain ⟨record, hrecord₁⟩ := Option.isSome_iff_exists.mp hreads.known
      rw [hrecord₁, Option.map_some] at hrecord
      refine ⟨_, _, _, hnow, rfl, hrecord, fun tailBytes => ?_⟩
      have hsummary := monitorSummary_bytes w'.log
        { record with running := false, exitCode := code, exitUnixMs := some unixMs } tailBytes
        processId (w₁.nextEvent unixMs (.processExited processId code)).id
      -- the cursors, the counters and the covered bytes are the same number
      have hcovered : ∀ stream, (loggedOutput processId stream w₁.journal.now).length =
          w.drainedTo offset processExitDrainRounds stream := by
        intro stream
        rw [← hmoved, hreads.offset_eq, recordedBytes]
      have hall : ∀ stream, loggedOutput processId stream w₁.journal.now = w.log stream ↔
          (w.log stream).length ≤ offset stream + exitDrainBytes := by
        intro stream
        have hlogged := hsound.now.logged stream
        rw [hlog] at hlogged
        have hlength := hcovered stream
        rw [drainedTo] at hlength
        constructor
        · intro heq
          rw [heq] at hlength
          rw [exitDrainBytes]
          omega
        · intro hle
          refine hlogged.eq_of_length ?_
          rw [exitDrainBytes] at hle
          omega
      constructor
      · exact fun hcomplete stream => (hall stream).mp (hcomplete.covered stream)
      · intro hle
        have hbytes := hsound.bytes_eq hrecord₁
        refine ⟨fun stream => (hall stream).mpr (hle stream), ?_, ?_⟩
        · rw [hsummary.1, ← (hall .stdout).mpr (hle .stdout)]
          exact hbytes .stdout
        · rw [hsummary.2, ← (hall .stderr).mpr (hle .stderr)]
          exact hbytes .stderr

theorem exitPath_succeeds (h : OutputSound sha256 processId w) (hr : ReadsOn processId w offset)
    (hlimit : w.WithinOutputLimit) (hquiet : ∀ index, (rounds index).Quiet)
    (hcalm : ∀ index, (rounds index).Calm) (houtcome : outcome = .synced ∨ outcome = .buffered) :
    (w.exitPath processId rounds offset unixMs code outcome).1 = true := by
  obtain ⟨offset₁, hdrain⟩ :=
    drainRounds_succeeds hquiet hcalm processExitDrainRounds 0 0 w offset h hr hlimit
  unfold exitPath drainPersistentOutputUntilQuiet
  cases hresult : w.drainRounds processId rounds processExitDrainRounds 0 0 offset with
  | mk result w₁ =>
    rw [hresult] at hdrain
    obtain rfl : result = .ok offset₁ := hdrain
    exact recordExit_succeeds houtcome

end Exit

end OutputWorld

open OutputWorld

/-- When the group of a process is gone and its logs have stopped growing, the exit event and the
summary come behind the whole of both logs exactly if neither cursor is more than 500 batches
behind. -/
theorem exit_follows_all_output_iff (sha256 : Bytes → String) (processId : Uuid) (w : OutputWorld)
    (h : (outputMachine sha256 processId).Reaches (fun _ _ => True) .start w)
    (offset : OutputStream → ℕ) (hrun : w.monitor = .running offset) (rounds : ℕ → DrainRound)
    (hquiet : ∀ index, (rounds index).Quiet) (unixMs : ℕ) (code : Option ℤ)
    (outcome : AppendOutcome) :
    (∀ w', w.exitPath processId rounds offset unixMs code outcome = (true, w') →
      ∃ before event record, w'.journal.now = before ++ [event] ∧
        event.kind = .processExited processId code ∧ w'.record = some record ∧
        ∀ tailBytes, ExitComplete processId w.log before
            (monitorSummary w'.log record tailBytes processId event.id) ↔
          ∀ stream, (w.log stream).length ≤ offset stream + exitDrainBytes) ∧
    (w.WithinOutputLimit → (∀ index, (rounds index).Calm) → outcome = .synced →
      (w.exitPath processId rounds offset unixMs code outcome).1 = true) := by
  have hinv := OutputInv.reaches h
  have hr := hinv.monitor offset hrun
  exact ⟨fun w' hexit => exitPath_complete_iff hinv.toOutputSound hr hquiet hexit,
    fun hlimit hcalm houtcome =>
      exitPath_succeeds hinv.toOutputSound hr hlimit hquiet hcalm (.inl houtcome)⟩

def calmRound : DrainRound := ⟨fun _ => [], fun _ => buffersAll, false⟩

theorem calmRound_quiet : calmRound.Quiet := ⟨rfl, fun _ => List.not_mem_nil, rfl⟩

theorem calmRound_calm : calmRound.Calm := ⟨fun _ => rfl, fun _ => rfl, fun _ => .inr rfl⟩

def laggingWorld (count : ℕ) : OutputWorld :=
  let w := OutputWorld.start.startProcess 7 0 "c" none none .synced
  { w with log := Function.update w.log .stdout (w.log .stdout ++ List.replicate count 0) }

theorem laggingWorld_reached (count : ℕ) :
    (outputMachine (fun _ => "") 7).Reaches (fun _ _ => True) .start (laggingWorld count) :=
  .step (i := .grow .stdout (List.replicate count 0))
    (.step (i := .startProcess 0 "c" none none .synced) .start trivial rfl) trivial rfl

theorem laggingWorld_stdout (count : ℕ) : ((laggingWorld count).log .stdout).length = count := by
  rw [laggingWorld]
  dsimp only
  rw [Function.update_self, List.length_append, List.length_replicate]
  exact Nat.zero_add count

theorem laggingWorld_stderr (count : ℕ) : (laggingWorld count).log .stderr = [] := by
  rw [laggingWorld]
  dsimp only
  rw [Function.update_of_ne (by decide)]
  rfl

theorem laggingWorld_limit {count : ℕ} (h : count ≤ processOutputMaxBytes) :
    (laggingWorld count).WithinOutputLimit := by
  rwa [WithinOutputLimit, laggingWorld_stdout, laggingWorld_stderr, List.length_nil]

theorem small_backlog_precedes_exit :
    ((laggingWorld 2).exitPath 7 (fun _ => calmRound) (fun _ => 0) 0 none .synced).1 = true ∧
      ∀ w', (laggingWorld 2).exitPath 7 (fun _ => calmRound) (fun _ => 0) 0 none .synced =
        (true, w') → ∃ before event record, w'.journal.now = before ++ [event] ∧
          ExitComplete 7 (laggingWorld 2).log before (monitorSummary w'.log record 10 7 event.id) := by
  obtain ⟨hiff, hcomes⟩ := exit_follows_all_output_iff (fun _ => "") 7 (laggingWorld 2)
    (laggingWorld_reached 2) (fun _ => 0) rfl (fun _ => calmRound) (fun _ => calmRound_quiet) 0 none
    .synced
  refine ⟨hcomes (laggingWorld_limit (by decide)) (fun _ => calmRound_calm) rfl, ?_⟩
  intro w' hexit
  obtain ⟨before, event, record, hnow, -, -, hcomplete⟩ := hiff w' hexit
  refine ⟨before, event, record, hnow, (hcomplete 10).mpr fun stream => ?_⟩
  cases stream with
  | stdout =>
    rw [laggingWorld_stdout]
    decide
  | stderr =>
    rw [laggingWorld_stderr]
    exact Nat.zero_le _

/-- One byte more than 500 batches behind, within the output limit and without any
fault: the exit event comes in front of the end of the log. -/
theorem long_backlog_is_lost :
    (outputMachine (fun _ => "") 7).Reaches (fun _ _ => True) .start
        (laggingWorld (exitDrainBytes + 1)) ∧
      (laggingWorld (exitDrainBytes + 1)).monitor = .running (fun _ => 0) ∧
      (laggingWorld (exitDrainBytes + 1)).WithinOutputLimit ∧
      ∃ w', (laggingWorld (exitDrainBytes + 1)).exitPath 7 (fun _ => calmRound) (fun _ => 0) 0 none
          .synced = (true, w') ∧
        ∃ before event record, w'.journal.now = before ++ [event] ∧
          event.kind = .processExited 7 none ∧
          ¬ ExitComplete 7 (laggingWorld (exitDrainBytes + 1)).log before
            (monitorSummary w'.log record 10 7 event.id) := by
  have hreached := laggingWorld_reached (exitDrainBytes + 1)
  have hinv := OutputInv.reaches hreached
  have hlimit : (laggingWorld (exitDrainBytes + 1)).WithinOutputLimit :=
    laggingWorld_limit (by decide)
  have hr := hinv.monitor (fun _ => 0) rfl
  refine ⟨hreached, rfl, hlimit, ?_⟩
  have hcomes : ((laggingWorld (exitDrainBytes + 1)).exitPath 7 (fun _ => calmRound) (fun _ => 0) 0
      none .synced).1 = true :=
    exitPath_succeeds hinv.toOutputSound hr hlimit (fun _ => calmRound_quiet)
      (fun _ => calmRound_calm) (.inl rfl)
  cases hexit : (laggingWorld (exitDrainBytes + 1)).exitPath 7 (fun _ => calmRound) (fun _ => 0) 0
      none .synced with
  | mk appended w' =>
    rw [hexit] at hcomes
    obtain rfl : appended = true := hcomes
    obtain ⟨before, event, record, hnow, hkind, -, hcomplete⟩ :=
      exitPath_complete_iff hinv.toOutputSound hr (fun _ => calmRound_quiet) hexit
    refine ⟨w', rfl, before, event, record, hnow, hkind, fun hall => ?_⟩
    have hle := (hcomplete 10).mp hall .stdout
    rw [laggingWorld_stdout] at hle
    omega

end Asp
