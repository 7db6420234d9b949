import Asp.Proofs.FileTransaction
import Asp.Proofs.Serializers

/-! What a file transaction is for: whatever interrupts it, the next daemon finds the old content
and no event, or the new content and one. The blind overwrite, the creation of a file and the
rollback of a blind overwrite have gaps. -/

namespace Asp

open Std Durable Steps

namespace FileScene

variable {x : FileScene} {w₀ w w₁ : FileWorld} {allowed : FileWorld → FileImage → Prop}

section Runs

theorem Restart.at (hrestart : x.Restart allowed w w₁)
    (hallowed : ∀ w image, allowed w image → w.Recent image) (hsafe : x.Safe w) :
    x.At (· = w₁.files) (· = w₁.intent.now) w₁.journal.now w₁ ∧
      x.Good w₁.files w₁.intent.now w₁.journal.now := by
  cases hrestart with
  | kill _ =>
    refine ⟨⟨fun f hf => Kept.mem_recent_kill.mp hf, fun i hi => Kept.mem_recent_kill.mp hi, rfl,
      rfl⟩, ?_⟩
    exact hsafe.good _ w.dir.now_mem_recent _ w.intent.now_mem_recent
  | powerLoss image _ _ _ himage =>
    obtain ⟨hfiles, hintent, hjournal⟩ := hallowed _ _ himage
    refine ⟨⟨fun f hf => Kept.mem_recent_stable.mp hf, fun i hi => Kept.mem_recent_stable.mp hi, rfl,
      rfl⟩, ?_⟩
    show x.Good image.files image.intent image.journal
    rw [hjournal]
    exact hsafe.good _ hfiles _ hintent

theorem Reaches.safe (hstart : x.Starts w₀) (hhash : x.Hashes) (hother : x.target ≠ some .other)
    (hallowed : ∀ w image, allowed w image → w.Recent image) (h : x.Reaches allowed w₀ w) :
    x.Safe w := by
  induction h with
  | call hgets => exact (commit_meets hstart).crash hgets
  | recovery _ hrestart hgets ih =>
    obtain ⟨hat, hgood⟩ := hrestart.at hallowed ih
    exact (recovery_meets _ hstart hhash hother hat hgood).crash hgets

theorem Restart.finished (unixMs : ℕ) (hstart : x.Starts w₀) (hhash : x.Hashes)
    (hother : x.target ≠ some .other) (hallowed : ∀ w image, allowed w image → w.Recent image)
    (hsafe : x.Safe w) (hrestart : x.Restart allowed w w₁) :
    x.Safe (fileMachine.eval (x.recovery unixMs) w₁).2 ∧
      x.Finished w₁.files w₁.intent.now w₁.journal.now []
        (fileMachine.eval (x.recovery unixMs) w₁).1 (fileMachine.eval (x.recovery unixMs) w₁).2 := by
  obtain ⟨hat, hgood⟩ := hrestart.at hallowed hsafe
  have hmeets := recovery_meets unixMs hstart hhash hother hat hgood
  exact ⟨hmeets.crash (Machine.gets_eval _ _), hmeets.ends (Machine.gets_eval _ _)⟩

theorem Safe.unchanged (hstart : x.Starts w₀) (hsafe : x.Safe w) (hjournal : w.journal.now = x.journal)
    (htarget : w.files.target = x.target) : x.Unchanged w := by
  refine ⟨htarget, ?_, ?_⟩
  · rw [hjournal]
    exact hstart.unused.2
  · rw [hsafe.tables, hjournal]
    exact hstart.record

theorem Safe.stored (hstart : x.Starts w₀) (hsafe : x.Safe w) (hcommitted : x.Committed w.journal.now)
    (htarget : w.files.target = some (.file x.staged)) : x.Stored w := by
  refine ⟨htarget, hcommitted.events hstart.unused.2, x.pending.record, ?_, ?_, rfl, rfl, rfl⟩
  · rw [hsafe.tables]
    exact hcommitted.record
  · obtain ⟨unixMs, hjournal⟩ := hcommitted
    exact ⟨x.event unixMs, by simp [hjournal], rfl⟩

theorem Undecided.restores {f : Files} {i : Option PendingFileMutation} (hstart : x.Starts w₀)
    (hsame : x.previous = x.target) (hundecided : x.Undecided f) (hsettled : i = none → x.Settled f)
    (hunmatched : i ≠ none → Entry.digest x.sha256 f.target ≠ some x.call.digest) :
    f.target.or f.backup = x.target := by
  by_cases hi : i = none
  · obtain ⟨hb, ht⟩ := hsettled hi
    rw [hb, Option.or_none]
    exact ht.elim id fun ht => ht.trans hsame
  · rcases hundecided with ⟨ht, hb⟩ | ⟨ht, hb⟩ | ⟨ht, -⟩ | ⟨ht, hb⟩
    · rw [ht, hb, Option.or_none]
    · rw [ht, hb, Option.none_or, hsame]
    · refine absurd ?_ (hunmatched hi)
      rw [ht, hstart.digest]
      rfl
    · rw [ht, hb, Option.or_none, hsame]

theorem Restart.recovers {unixMs : ℕ} (hstart : x.Starts w₀) (hhash : x.Hashes)
    (hother : x.target ≠ some .other) (hsame : x.previous = x.target)
    (hallowed : ∀ w image, allowed w image → w.Recent image) (hsafe : x.Safe w)
    (hrestart : x.Restart allowed w w₁)
    (hstuck : ¬ x.Stuck w₁.files w₁.intent.now w₁.journal.now) :
    ∃ w₂, fileMachine.eval (x.recovery unixMs) w₁ = (.ok (), w₂) ∧ w₂.intent.now = none ∧
      (x.Unchanged w₂ ∨ x.Stored w₂) := by
  obtain ⟨-, hgood⟩ := hrestart.at hallowed hsafe
  obtain ⟨hsafe₂, hfinished⟩ :=
    hrestart.finished unixMs hstart hhash hother hallowed hsafe
  rcases hfinished rfl with ⟨h, -⟩ | ⟨-, hreply, hrecovered⟩
  · exact absurd h hstuck
  · refine ⟨_, Prod.ext hreply rfl, hrecovered.intent, ?_⟩
    rcases hrecovered.decided with ⟨hevents, hj, ht, hunmatched⟩ | ⟨hcommitted, ht, -⟩
    · rcases hgood.decided with ⟨-, hundecided, hsettled⟩ | ⟨hcommitted, -⟩
      · exact .inl (hsafe₂.unchanged hstart hj
          (ht.trans (hundecided.restores hstart hsame hsettled hunmatched)))
      · exact absurd hevents hcommitted.ne
    · exact .inr (hsafe₂.stored hstart hcommitted ht)

end Runs

theorem previous_of_guarded (hguard : x.call.expectedSha256 ≠ none) : x.previous = x.target :=
  if_neg hguard

/-- While there is no event of a guarded replace, the old content is on the target or on the
backup. -/
theorem Undecided.keeps {old : Bytes} (htarget : x.target = some (.file old))
    (hguard : x.call.expectedSha256 ≠ none) {f : Files} (h : x.Undecided f) :
    f.target = some (.file old) ∨ f.backup = some (.file old) := by
  have hprevious : x.previous = some (.file old) := (previous_of_guarded hguard).trans htarget
  rcases h with ⟨ht, -⟩ | ⟨-, hb⟩ | ⟨-, hb⟩ | ⟨ht, -⟩
  · exact .inl (ht.trans htarget)
  · exact .inr (hb.trans hprevious)
  · exact .inr (hb.trans hprevious)
  · exact .inl (ht.trans hprevious)

theorem Restart.recovers_guarded {old : Bytes} {unixMs : ℕ} (hstart : x.Starts w₀)
    (hhash : x.Hashes) (htarget : x.target = some (.file old))
    (hguard : x.call.expectedSha256 ≠ none) (hsafe : x.Safe w)
    (hrestart : x.Restart FileWorld.Recent w w₁) :
    ∃ w₂, fileMachine.eval (x.recovery unixMs) w₁ = (.ok (), w₂) ∧ w₂.intent.now = none ∧
      (x.Unchanged w₂ ∨ x.Stored w₂) := by
  have hother : x.target ≠ some .other := by simp [htarget]
  have hallowed : ∀ w image, FileWorld.Recent w image → w.Recent image := fun _ _ h => h
  have hprevious : x.previous = x.target := previous_of_guarded hguard
  refine hrestart.recovers hstart hhash hother hprevious hallowed hsafe ?_
  -- the target or the backup is there, and the intent knows both
  rintro ⟨-, hjournal, ⟨hnone, hbackup, -⟩ | ⟨hnone, -, -⟩⟩
  · rcases (hrestart.at hallowed hsafe).2.decided with ⟨-, hundecided, -⟩ | ⟨hcommitted, -⟩
    · rcases hundecided.keeps htarget hguard with h | h
      · exact absurd (hnone.symm.trans h) nofun
      · exact absurd (hbackup.symm.trans h) nofun
    · exact absurd hjournal hcommitted.ne
  · exact absurd (hprevious.symm.trans hnone) (by simp [htarget])

theorem previous_of_blind (hblind : x.call.expectedSha256 = none) : x.previous = none :=
  if_pos hblind

theorem previous_of_absent (habsent : x.target = none) : x.previous = none := by
  rcases x.previous_cases with h | h
  · exact h
  · exact h.trans habsent

section Sample

def world (x : FileScene) : FileWorld where
  dir := .stable ⟨x.target, some (.file x.staged), none⟩
  intent := .stable none
  journal := .stable x.journal
  tables := x.restored x.journal

/-- A request for the path `a` with the staged bytes `[2]`, in a new session. -/
def sample (target : Option Entry) (expected : Option String) (allowBlind : Bool) : FileScene where
  sha256 := hexDigest
  call := ⟨7, "put", "a", "a.asp-tmp", hexDigest [2], expected, allowBlind, "a.asp-backup", 0⟩
  target := target
  staged := [2]
  base := {}
  journal := []

theorem world_starts {x : FileScene} (hunused : x.base.fileRequests[x.call.requestId]? = none ∧
      mutationsOf x.call.requestId x.journal = 0) (hdigest : x.call.digest = x.sha256 x.staged)
    (hnamed : x.call.path ≠ "" ∧ x.call.temporaryPath ≠ "" ∧ x.call.requestHash ≠ "") :
    x.Starts x.world where
  files := by simp [world]
  staged := rfl
  intent := by simp [world]
  journal := rfl
  tables := rfl
  unused := hunused
  digest := hdigest
  named := hnamed

variable (target : Option Entry) (expected : Option String) (allowBlind : Bool)

theorem sample_starts :
    (sample target expected allowBlind).Starts (world (sample target expected allowBlind)) :=
  world_starts ⟨by simp [sample], rfl⟩ rfl (by simp [sample])

theorem sample_hashes {bytes : Bytes} (hvalid : validSha256 (hexDigest bytes) = true)
    (hne : hexDigest bytes ≠ hexDigest [2]) :
    (sample (some (.file bytes)) expected allowBlind).Hashes where
  staged := show validSha256 (hexDigest [2]) = true by decide
  target := by
    rintro _ ⟨⟩
    exact hvalid
  collision := by
    rintro _ ⟨⟩ h
    exact absurd h hne

end Sample

/-- A guarded replace is atomic over crashes. While there is no event, the old
content is on the target or on the backup. -/
theorem guarded_replace_crash_atomic {old : Bytes} (htarget : x.target = some (.file old))
    (hguard : x.call.expectedSha256 ≠ none) (hhash : x.Hashes) (hstart : x.Starts w₀)
    (hreach : x.Reaches FileWorld.Recent w₀ w) :
    (∀ image, w.Recent image → mutationsOf x.call.requestId image.journal = 0 →
      image.files.target = some (.file old) ∨ image.files.backup = some (.file old)) ∧
    ∀ w₁ unixMs, x.Restart FileWorld.Recent w w₁ →
      ∃ w₂, fileMachine.eval (x.recovery unixMs) w₁ = (.ok (), w₂) ∧ w₂.intent.now = none ∧
        (x.Unchanged w₂ ∨ x.Stored w₂) := by
  have hsafe := hreach.safe hstart hhash (by simp [htarget]) fun _ _ h => h
  refine ⟨?_, fun w₁ unixMs hrestart =>
    hrestart.recovers_guarded hstart hhash htarget hguard hsafe⟩
  rintro image ⟨hfiles, hintent, hjournal⟩ hnone
  rcases (hsafe.good _ hfiles _ hintent).decided with ⟨-, hundecided, -⟩ | ⟨hcommitted, -⟩
  · exact hundecided.keeps htarget hguard
  · rw [hjournal, hcommitted.events hstart.unused.2] at hnone
    exact absurd hnone one_ne_zero

def guardedSample : FileScene := sample (some (.file [1])) (some (hexDigest [1])) false

theorem guardedSample_hashes : guardedSample.Hashes :=
  sample_hashes _ _ (by decide) (by decide +kernel)

def interrupted (x : FileScene) (n : ℕ) : FileWorld :=
  (fileMachine.steps n (commitFileTransaction x.sha256 x.call) x.world).2

def recovering (x : FileScene) (n unixMs : ℕ) (w : FileWorld) : FileWorld :=
  (fileMachine.steps n (x.recovery unixMs) w).2

theorem reaches_interrupted (x : FileScene) (n : ℕ) : x.Reaches allowed x.world (x.interrupted n) :=
  .call (Machine.gets_steps n _ _)

theorem restart_killed (x : FileScene) (w : FileWorld) :
    x.Restart FileWorld.Recent w (x.killed w) :=
  .kill ⟨Kept.now_mem_recent _, Kept.now_mem_recent _, rfl⟩

theorem guarded_replace_of_killed :
    ∃ w₂, fileMachine.eval (guardedSample.recovery 1)
        (guardedSample.killed (guardedSample.interrupted 11)) = (.ok (), w₂) ∧
      w₂.intent.now = none ∧ (guardedSample.Unchanged w₂ ∨ guardedSample.Stored w₂) :=
  (guarded_replace_crash_atomic rfl (Option.some_ne_none _) guardedSample_hashes
    (sample_starts _ _ _) (guardedSample.reaches_interrupted 11)).2 _ 1 (restart_killed _ _)

/-- What a loss of power leaves when the next daemon has written the event of an
install that was never synced. -/
def unsyncedInstall : FileImage where
  files := ⟨none, some (.file [2]), some (.file [1])⟩
  intent := some guardedSample.pending
  journal := [guardedSample.event 1]

/-- The daemon is killed between the install and its directory sync. The next one
finds the new bytes, writes the event and loses power before it removes the
intent: the rename was never synced and is taken back. -/
theorem journaled_install_is_lost :
    guardedSample.Starts guardedSample.world ∧
    ∃ w, guardedSample.Reaches (fun _ _ => True) guardedSample.world w ∧
      guardedSample.Restart (fun _ _ => True) w (guardedSample.rebooted unsyncedInstall) ∧
      (fileMachine.eval (guardedSample.recovery 2) (guardedSample.rebooted unsyncedInstall)).1 =
        .error .committedTargetLost := by
  refine ⟨sample_starts _ _ _,
    guardedSample.recovering 3 1 (guardedSample.killed (guardedSample.interrupted 12)), ?_, ?_, ?_⟩
  · exact .recovery (guardedSample.reaches_interrupted 12) (.kill trivial)
      (Machine.gets_steps 3 _ _)
  · exact .powerLoss _ (by decide) (by decide +kernel) (by decide +kernel) trivial
  · decide

/-- The restart finds an intent only with the target or the staged file. -/
def LeavesFile (w : FileWorld) (image : FileImage) : Prop :=
  w.Recent image ∧
    (image.intent ≠ none → image.files.target ≠ none ∨ image.files.temporary ≠ none)

/-- The creation of a file is atomic over crashes that leave its staged file as
long as the intent. -/
theorem create_crash_atomic (htarget : x.target = none) (hhash : x.Hashes) (hstart : x.Starts w₀)
    (hreach : x.Reaches LeavesFile w₀ w) {unixMs : ℕ} (hrestart : x.Restart LeavesFile w w₁) :
    ∃ w₂, fileMachine.eval (x.recovery unixMs) w₁ = (.ok (), w₂) ∧ w₂.intent.now = none ∧
      (x.Unchanged w₂ ∨ x.Stored w₂) := by
  have hother : x.target ≠ some .other := by simp [htarget]
  have hallowed : ∀ w image, LeavesFile w image → w.Recent image := fun _ _ h => h.1
  have hsame : x.previous = x.target := (previous_of_absent htarget).trans htarget.symm
  have hsafe := hreach.safe hstart hhash hother hallowed
  refine hrestart.recovers hstart hhash hother hsame hallowed hsafe ?_
  rintro ⟨hintent, hjournal, hstuck⟩
  have hleaves : w₁.intent.now ≠ none → w₁.files.target ≠ none ∨ w₁.files.temporary ≠ none := by
    cases hrestart with
    | kill h => exact h.2
    | powerLoss _ _ _ _ h => exact h.2
  rcases hstuck with ⟨hnone, -, htemporary⟩ | ⟨hprevious, hthere, hunmatched⟩
  · exact (hleaves hintent).elim (fun h => h hnone) fun h => h htemporary
  · rcases (hrestart.at hallowed hsafe).2.decided with ⟨-, hundecided, -⟩ | ⟨hcommitted, -⟩
    · rcases hundecided with ⟨ht, -⟩ | ⟨ht, -⟩ | ⟨ht, -⟩ | ⟨ht, -⟩
      · exact hthere (ht.trans htarget)
      · exact hthere ht
      · refine hunmatched ?_
        rw [ht, hstart.digest]
        rfl
      · exact hthere (ht.trans hprevious)
    · exact hcommitted.ne hjournal

def createSample : FileScene := sample none none false

theorem createSample_hashes : createSample.Hashes where
  staged := show validSha256 (hexDigest [2]) = true by decide
  target := nofun
  collision := nofun

theorem create_of_killed :
    ∃ w₂, fileMachine.eval (createSample.recovery 1)
        (createSample.killed (createSample.interrupted 8)) = (.ok (), w₂) ∧
      w₂.intent.now = none ∧ (createSample.Unchanged w₂ ∨ createSample.Stored w₂) :=
  create_crash_atomic rfl createSample_hashes (sample_starts _ _ _)
    (createSample.reaches_interrupted 8)
    (.kill ⟨⟨Kept.now_mem_recent _, Kept.now_mem_recent _, rfl⟩, by decide⟩)

/-- The daemon is killed with the intent on disk, and the next one between its
removal of the staged file and of the intent: the third refuses the intent. -/
theorem interrupted_create_recovery_is_refused :
    createSample.Starts createSample.world ∧
    ∃ w, createSample.Reaches FileWorld.Recent createSample.world w ∧
      createSample.Restart FileWorld.Recent w (createSample.killed w) ∧
      (fileMachine.eval (createSample.recovery 2) (createSample.killed w)).1 =
        .error .noRecoverableFile := by
  refine ⟨sample_starts _ _ _,
    createSample.recovering 5 1 (createSample.killed (createSample.interrupted 8)), ?_, ?_, ?_⟩
  · exact .recovery (createSample.reaches_interrupted 8) (restart_killed _ _)
      (Machine.gets_steps 5 _ _)
  · exact restart_killed _ _
  · decide

/-- The next daemon recovers a blind overwrite exactly when the crash left the
staged bytes on the target, or neither an intent nor a removed target. -/
theorem blind_overwrite_recovers_iff {old : Bytes} (htarget : x.target = some (.file old))
    (hblind : x.call.expectedSha256 = none) (hhash : x.Hashes) (hstart : x.Starts w₀)
    {faults : List FileIo} {p : FileProgram}
    (hgets : fileMachine.Gets (commitFileTransaction x.sha256 x.call) w₀ faults p w) {unixMs : ℕ}
    (hrestart : x.Restart FileWorld.Recent w w₁) :
    (∃ w₂, fileMachine.eval (x.recovery unixMs) w₁ = (.ok (), w₂) ∧
      (x.Unchanged w₂ ∨ x.Stored w₂)) ↔
    (Entry.digest x.sha256 w₁.files.target = some x.call.digest ∨
      (w₁.intent.now = none ∧ w₁.files.target ≠ none)) := by
  have hother : x.target ≠ some .other := by simp [htarget]
  have hallowed : ∀ w image, FileWorld.Recent w image → w.Recent image := fun _ _ h => h
  have hprevious : x.previous = none := previous_of_blind hblind
  have hsafe : x.Safe w := (commit_meets hstart).crash hgets
  obtain ⟨-, hgood⟩ := hrestart.at hallowed hsafe
  obtain ⟨hsafe₂, hfinished⟩ :=
    hrestart.finished unixMs hstart hhash hother hallowed hsafe
  rcases hfinished rfl with ⟨⟨hintent, -, hstuck⟩, error, hreply⟩ | ⟨hstuck, hreply, hrecovered⟩
  · -- refused: the target is gone, or is the old one under an intent
    refine iff_of_false ?_ ?_
    · rintro ⟨w₂, heval, -⟩
      rw [heval] at hreply
      exact absurd hreply nofun
    · rintro (hmatches | ⟨hnone, -⟩)
      · rcases hstuck with ⟨ht, -, -⟩ | ⟨-, -, hunmatched⟩
        · simp [ht, Entry.digest] at hmatches
        · exact hunmatched hmatches
      · exact hintent hnone
  · rcases hrecovered.decided with ⟨hevents, hj, ht, hunmatched⟩ | ⟨hcommitted, ht, hmatches⟩
    · rcases hgood.decided with ⟨-, hundecided, hsettled⟩ | ⟨hcommitted, -⟩
      · have hbackup : w₁.files.backup = none := by
          rcases hundecided with ⟨-, hb⟩ | ⟨-, hb⟩ | ⟨-, hb⟩ | ⟨-, hb⟩
          · exact hb
          · exact hb.trans hprevious
          · exact hb.trans hprevious
          · exact hb
        rw [hbackup, Option.or_none] at ht
        constructor
        · rintro ⟨w₂, heval, hunchanged | hstored⟩
          · rw [heval] at ht
            have hthere : w₁.files.target ≠ none := by
              rw [← ht, hunchanged.target, htarget]
              exact Option.some_ne_none _
            by_cases hintent : w₁.intent.now = none
            · exact .inr ⟨hintent, hthere⟩
            · exact absurd ⟨hintent, hevents, .inr ⟨hprevious, hthere, hunmatched hintent⟩⟩ hstuck
          · have hevents₂ := hstored.events
            rw [heval] at hj
            rw [hj, hstart.unused.2] at hevents₂
            exact absurd hevents₂ zero_ne_one
        · intro hcond
          obtain ⟨hintent, hthere⟩ : w₁.intent.now = none ∧ w₁.files.target ≠ none := by
            refine hcond.elim (fun hmatches => ?_) id
            refine ⟨by_contra fun hintent => hunmatched hintent hmatches, fun hnone => ?_⟩
            simp [hnone, Entry.digest] at hmatches
          refine ⟨_, Prod.ext hreply rfl, .inl (hsafe₂.unchanged hstart hj ?_)⟩
          rcases (hsettled hintent).2 with h | h
          · exact ht.trans h
          · exact absurd (h.trans hprevious) hthere
      · exact absurd hevents hcommitted.ne
    · exact iff_of_true ⟨_, Prod.ext hreply rfl, .inr (hsafe₂.stored hstart hcommitted ht)⟩
        (.inl hmatches)

def blindSample : FileScene := sample (some (.file [1])) none true

theorem blindSample_hashes : blindSample.Hashes :=
  sample_hashes _ _ (by decide) (by decide +kernel)

/-- Killed after the install: the next daemon writes the event. -/
theorem blind_overwrite_of_killed :
    ∃ w₂, fileMachine.eval (blindSample.recovery 1)
        (blindSample.killed (blindSample.interrupted 10)) = (.ok (), w₂) ∧
      (blindSample.Unchanged w₂ ∨ blindSample.Stored w₂) :=
  (blind_overwrite_recovers_iff rfl rfl blindSample_hashes (sample_starts _ _ _)
    (Machine.gets_steps 10 _ _) (restart_killed _ _)).mpr (.inl (by decide))

/-- Killed with the intent on disk and the old bytes still on the target. -/
theorem interrupted_blind_overwrite_is_refused :
    blindSample.Starts blindSample.world ∧
    (blindSample.interrupted 8).intent = .stable (some blindSample.pending) ∧
    blindSample.Restart FileWorld.Recent (blindSample.interrupted 8)
      (blindSample.killed (blindSample.interrupted 8)) ∧
    (fileMachine.eval (blindSample.recovery 1)
      (blindSample.killed (blindSample.interrupted 8))).1 = .error .unexpectedTargetState := by
  refine ⟨sample_starts _ _ _, ?_, restart_killed _ _, ?_⟩
  · decide
  · decide

/-- A call that reports success has stored the file, and only its cleanup may have
failed. One that reports an error, and whose rollback did not fail, has no effect,
except where a blind overwrite is rolled back. -/
theorem failed_transaction_unchanged_iff (hstart : x.Starts w₀) {faults : List FileIo}
    {reply : FileReply}
    (hgets : fileMachine.Gets (commitFileTransaction x.sha256 x.call) w₀ faults (.ret reply) w) :
    (∀ stored, reply = .ok stored → x.Stored w ∧ ∀ i ∈ faults, i.isCleanup = true) ∧
    ∀ error, reply = .error error → (∀ site failure, error ≠ .rollbackFailed site failure) →
      ((x.Unchanged w ∧ w.tables = w₀.tables) ↔
        ¬ (x.call.expectedSha256 = none ∧ x.target ≠ none ∧ ∃ i ∈ faults, i.rollsBack = true)) := by
  have hsafe : x.Safe w := (commit_meets hstart).crash hgets
  have houtcome : x.Outcome faults reply w := (commit_meets hstart).ends hgets
  refine ⟨?_, ?_⟩
  · rintro stored rfl
    exact ⟨hsafe.stored hstart houtcome.1 houtcome.2.1, houtcome.2.2⟩
  · rintro error rfl hrolled
    rcases houtcome with ⟨site, failure, rfl⟩ | ⟨hjournal, hend⟩
    · exact absurd rfl (hrolled site failure)
    · have htables : w.tables = w₀.tables := by
        rw [hsafe.tables, hjournal, hstart.tables]
      rcases hend with ⟨ht, hfaults⟩ | ⟨ht, hfault⟩
      · refine iff_of_true ⟨hsafe.unchanged hstart hjournal ht, htables⟩ ?_
        rintro ⟨-, -, i, hi, hback⟩
        simp [hfaults i hi] at hback
      · by_cases hblind : x.call.expectedSha256 = none ∧ x.target ≠ none
        · refine iff_of_false ?_ (not_not_intro ⟨hblind.1, hblind.2, hfault⟩)
          rintro ⟨hunchanged, -⟩
          exact hblind.2 (hunchanged.target.symm.trans (ht.trans (previous_of_blind hblind.1)))
        · refine iff_of_true ⟨hsafe.unchanged hstart hjournal (ht.trans ?_), htables⟩
            fun h => hblind ⟨h.1, h.2.1⟩
          rcases not_and_or.mp hblind with hguard | habsent
          · exact previous_of_guarded hguard
          · have habsent := not_not.mp habsent
            exact (previous_of_absent habsent).trans habsent.symm

/-- The state of the call when its append has failed and the rollback is over. -/
def unjournaled (x : FileScene) (n : ℕ) : FileReply × FileWorld :=
  fileMachine.eval
    (rollback x.sha256 x.call x.pending .append
      (.io (.append x.call.unixMs x.call.requestId x.pending.record)))
    (x.interrupted n)

theorem failed_replace_unchanged :
    (guardedSample.unjournaled 14).1 = .error (.io (.append 0 7 guardedSample.pending.record)) ∧
    guardedSample.Unchanged (guardedSample.unjournaled 14).2 ∧
    (guardedSample.unjournaled 14).2.tables = guardedSample.world.tables := by
  have hreply : (guardedSample.unjournaled 14).1 =
      .error (.io (.append 0 7 guardedSample.pending.record)) := by decide
  have hgets : fileMachine.Gets (commitFileTransaction hexDigest guardedSample.call)
      guardedSample.world [.append 0 7 guardedSample.pending.record]
      (.ret (guardedSample.unjournaled 14).1) (guardedSample.unjournaled 14).2 :=
    Machine.gets_fault 14 rfl List.mem_cons_self
  refine ⟨hreply, ((failed_transaction_unchanged_iff (sample_starts _ _ _) hgets).2 _ hreply
    nofun).mpr ?_⟩
  rintro ⟨hnone, -⟩
  exact absurd hnone nofun

/-- A blind overwrite whose event cannot be appended: the rollback succeeds, and
removes the file. -/
theorem failed_blind_overwrite_removes_file :
    fileMachine.Gets (commitFileTransaction hexDigest blindSample.call) blindSample.world
      [.append 0 7 blindSample.pending.record] (.ret (blindSample.unjournaled 11).1)
      (blindSample.unjournaled 11).2 ∧
    (blindSample.unjournaled 11).1 = .error (.io (.append 0 7 blindSample.pending.record)) ∧
    blindSample.world.files.target = some (.file [1]) ∧
    (blindSample.unjournaled 11).2.files.target = none := by
  refine ⟨Machine.gets_fault 11 rfl List.mem_cons_self, ?_, rfl, ?_⟩
  · decide
  · decide

end FileScene

end Asp
