import Asp.Proofs.FileRecovery
import Asp.Spec.FileEdits

/-! A guarded write replaces only the content that it names, over failures, stops and recoveries,
so of two writes from one base the second is stored only if the base has come back. -/

namespace Asp

open Std Durable Steps

namespace FileScene

variable {x : FileScene} {w₀ w w₁ : FileWorld}

section Stale

/-- The transaction has left nothing, and finds nothing when it is recovered. -/
def Idle (x : FileScene) (w : FileWorld) : Prop := x.At x.Untouched (· = none) x.journal w

theorem Idle.target (h : x.Idle w) : w.files.target = x.target := h.now.2.1

theorem Idle.not_stored (hstart : x.Starts w₀) (h : x.Idle w) : ¬ x.Stored w := by
  intro hstored
  have hevents := hstored.events
  rw [h.journal, hstart.unused.2] at hevents
  exact absurd hevents zero_ne_one

theorem Restart.idle (hrestart : x.Restart FileWorld.Recent w w₁) (h : x.Idle w) : x.Idle w₁ := by
  cases hrestart with
  | kill _ =>
    refine ⟨fun f hf => ?_, fun i hi => ?_, h.journal, ?_⟩
    · rw [Kept.mem_recent_kill.mp hf]
      exact h.now
    · rw [Kept.mem_recent_kill.mp hi]
      exact h.intent_now
    · exact congrArg x.restored h.journal
  | powerLoss image _ _ _ himage =>
    obtain ⟨hfiles, hintent, hjournal⟩ := himage
    refine ⟨fun f hf => ?_, fun i hi => ?_, hjournal.trans h.journal, ?_⟩
    · rw [Kept.mem_recent_stable.mp hf]
      exact h.files _ hfiles
    · rw [Kept.mem_recent_stable.mp hi]
      exact h.intent _ hintent
    · exact congrArg x.restored (hjournal.trans h.journal)

theorem Idle.recovery (h : x.Idle w) (unixMs : ℕ) :
    fileMachine.Meets (· = w) (fun _ _ _ => True) (x.recovery unixMs) w := by
  refine Machine.Meets.read ?_
  rw [h.intent_now]
  exact ⟨rfl, trivial⟩

variable {expected : String}

theorem Starts.stale_meets (hstart : x.Starts w₀) (hguard : x.call.expectedSha256 = some expected)
    (hstale : Entry.digest x.sha256 x.target ≠ some expected) :
    fileMachine.Meets (· = w₀) (fun _ _ _ => True) (commitFileTransaction x.sha256 x.call) w₀ := by
  have hcached : cachedFileResponse w₀.tables x.call.requestId x.call.requestHash = .ok none := by
    rw [cachedFileResponse, hstart.tables, hstart.record]
  have hends : ∀ reply : FileReply, fileMachine.Meets (· = w₀) (fun _ _ _ => True) (.ret reply) w₀ :=
    fun _ => ⟨rfl, trivial⟩
  -- each step before the precondition leaves the state alone, also when it fails
  have hstep : ∀ {i : FileIo} {ok : FileProgram} {error : FileError}, i.act w₀ = some w₀ →
      i.fault w₀ = [w₀] → fileMachine.Meets (· = w₀) (fun _ _ _ => True) ok w₀ →
      fileMachine.Meets (· = w₀) (fun _ _ _ => True) (.act i ok (.ret (.error error))) w₀ := by
    intro i ok error hact hfault hok
    refine .act rfl hact hok fun s' hs' => ?_
    have hs : s' ∈ i.fault w₀ := hs'
    rw [hfault, List.mem_singleton] at hs
    exact ⟨hs, trivial⟩
  have hrefused : ∀ existing, fileMachine.Meets (· = w₀) (fun _ _ _ => True)
      (checkPrecondition x.sha256 x.call existing (Entry.digest x.sha256 x.target)) w₀ := by
    intro existing
    rw [checkPrecondition, hguard, validateFilePrecondition]
    by_cases hvalid : validSha256 expected = true
    · simpa [hvalid, hstale] using hends _
    · simpa [hvalid] using hends _
  refine Machine.Meets.read ?_
  rw [hcached]
  refine hstep rfl rfl ?_
  rw [hstart.staged]
  refine hstep rfl rfl (Machine.Meets.read ?_)
  rw [hstart.at.now.2.1, hguard]
  rcases htarget : x.target with _ | bytes | _ <;> rw [htarget] at hrefused
  · exact hrefused false
  · exact hstep rfl rfl (hrefused true)
  · exact hends _

theorem Reaches.idle (hstart : x.Starts w₀) (hguard : x.call.expectedSha256 = some expected)
    (hstale : Entry.digest x.sha256 x.target ≠ some expected)
    (h : x.Reaches FileWorld.Recent w₀ w) : x.Idle w := by
  induction h with
  | call hgets =>
    obtain rfl := (hstart.stale_meets hguard hstale).crash hgets
    exact hstart.at
  | recovery _ hrestart hgets ih =>
    have hidle := hrestart.idle ih
    obtain rfl := (hidle.recovery _).crash hgets
    exact hidle

theorem Ends.idle (hends : x.Ends w) (hguard : x.call.expectedSha256 = some expected)
    (hstale : Entry.digest x.sha256 x.target ≠ some expected) :
    ¬ x.Stored w ∧ w.files.target = x.target := by
  cases hends with
  | replied hstart hgets _ =>
    obtain rfl := (hstart.stale_meets hguard hstale).crash hgets
    exact ⟨Idle.not_stored hstart hstart.at, hstart.at.now.2.1⟩
  | @recovered _ _ _ unixMs hstart hreach hrestart heval =>
    have hidle := hrestart.idle (hreach.idle hstart hguard hstale)
    have hsame := (hidle.recovery unixMs).crash (Machine.gets_eval _ _)
    rw [heval] at hsame
    obtain rfl := hsame
    exact ⟨hidle.not_stored hstart, hidle.target⟩

end Stale

theorem Ends.decided (hends : x.Ends w) (hhash : x.Hashes) {old : Bytes}
    (htarget : x.target = some (.file old)) (hguard : x.call.expectedSha256 ≠ none) :
    x.Stored w ∨ w.files.target = x.target := by
  cases hends with
  | @replied _ _ reply hstart hgets hreply =>
    have hsafe : x.Safe w := (commit_meets hstart).crash hgets
    have houtcome : x.Outcome _ reply w := (commit_meets hstart).ends hgets
    cases reply with
    | ok stored => exact .inl (hsafe.stored hstart houtcome.1 houtcome.2.1)
    | error error =>
      rcases houtcome with ⟨site, failure, rfl⟩ | ⟨-, ⟨ht, -⟩ | ⟨ht, -⟩⟩
      · exact absurd rfl (hreply site failure)
      · exact .inr ht
      · exact .inr (ht.trans (previous_of_guarded hguard))
  | recovered hstart hreach hrestart heval =>
    have hsafe := hreach.safe hstart hhash (by simp [htarget]) fun _ _ h => h
    obtain ⟨w', heval', -, hcases⟩ :=
      hrestart.recovers_guarded hstart hhash htarget hguard hsafe
    obtain rfl := (Prod.ext_iff.mp (heval.symm.trans heval')).2
    exact hcases.symm.imp_right Unchanged.target

/-- What a guarded write does to the content: it replaces the content that it names, or nothing. -/
theorem Ends.cases (hends : x.Ends w) (hhash : x.Hashes) (hguard : x.call.expectedSha256 ≠ none) :
    x.Stored w ∧ Entry.digest x.sha256 x.target = x.call.expectedSha256 ∨
      ¬ x.Stored w ∧ w.files.target = x.target := by
  obtain ⟨expected, hexpected⟩ := Option.ne_none_iff_exists'.mp hguard
  by_cases hstale : Entry.digest x.sha256 x.target = some expected
  · have hfile : ∃ old, x.target = some (.file old) := by
      rcases htarget : x.target with _ | old | _ <;> rw [htarget] at hstale
      · exact absurd hstale nofun
      · exact ⟨old, rfl⟩
      · exact absurd hstale nofun
    obtain ⟨old, htarget⟩ := hfile
    by_cases hstored : x.Stored w
    · exact .inl ⟨hstored, hstale.trans hexpected.symm⟩
    · exact .inr ⟨hstored, (hends.decided hhash htarget hguard).resolve_left hstored⟩
  · exact .inr (hends.idle hexpected hstale)

end FileScene

section Chain

theorem contentAfter_append {initial : Option Entry} (edits : List FileEdit) (edit : FileEdit) :
    contentAfter initial (edits ++ [edit]) = edit.content := by
  simp [contentAfter]

theorem contentAfter_mem {initial : Option Entry} (before between : List FileEdit)
    (edit : FileEdit) :
    ∃ last ∈ edit :: between, contentAfter initial (before ++ edit :: between) = last.content := by
  refine ⟨(edit :: between).getLast (List.cons_ne_nil _ _), List.getLast_mem _, ?_⟩
  rw [contentAfter, List.getLast?_append_of_ne_nil _ (List.cons_ne_nil _ _),
    List.getLast?_eq_some_getLast (List.cons_ne_nil _ _)]
  rfl

theorem concat_eq_append_cons {edits before after : List FileEdit} {last edit : FileEdit}
    (h : edits ++ [last] = before ++ edit :: after) :
    edits = before ∧ last = edit ∨ ∃ rest, edits = before ++ edit :: rest := by
  rcases List.eq_nil_or_concat after with rfl | ⟨rest, final, rfl⟩
  · exact .inl (by simpa using List.append_inj' h rfl)
  · have hsame : edits ++ [last] = (before ++ edit :: rest) ++ [final] := by simpa using h
    exact .inr ⟨rest, List.append_inj_left' hsame rfl⟩

variable {sha256 : Bytes → String} {initial current : Option Entry} {edits : List FileEdit}

theorem FileEdits.content (h : FileEdits sha256 initial edits current) :
    current = contentAfter initial edits := by
  induction h with
  | start => rfl
  | other _ content => exact (contentAfter_append _ (.other content)).symm
  | @stored _ x _ _ _ _ _ _ hstored =>
    exact hstored.target.trans (contentAfter_append _ (.guarded x)).symm
  | failed _ _ hhash hguard hends hfailed ih =>
    rcases hends.cases hhash hguard with ⟨hstored, -⟩ | ⟨-, hsame⟩
    · exact absurd hstored hfailed
    · exact hsame.trans ih

theorem FileEdits.base (h : FileEdits sha256 initial edits current) {before after : List FileEdit}
    {x : FileScene} (hedits : edits = before ++ .guarded x :: after) :
    x.call.expectedSha256 = Entry.digest sha256 (contentAfter initial before) := by
  induction h generalizing after with
  | start => simp at hedits
  | failed _ _ _ _ _ _ ih => exact ih hedits
  | other _ _ ih =>
    rcases concat_eq_append_cons hedits with ⟨-, heq⟩ | ⟨rest, hrest⟩
    · exact absurd heq nofun
    · exact ih hrest
  | @stored edits y w hbefore hsha256 hhash hguard hends hstored ih =>
    rcases concat_eq_append_cons hedits with ⟨rfl, heq⟩ | ⟨rest, hrest⟩
    · cases heq
      rcases hends.cases hhash hguard with ⟨-, hbase⟩ | ⟨hfailed, -⟩
      · rw [← hbefore.content, ← hbase, hsha256]
      · exact absurd hstored hfailed
    · exact ih hrest

/-- No update is lost: a stored guarded write names the content that the edit before it left, and of
two that name the same content the second is stored only after an edit that brought it back. -/
theorem guarded_writes_lose_no_update (h : FileEdits sha256 initial edits current) :
    current = contentAfter initial edits ∧
    (∀ before x after, edits = before ++ .guarded x :: after →
      x.call.expectedSha256 = Entry.digest sha256 (contentAfter initial before)) ∧
    ∀ before x between y after, edits = before ++ .guarded x :: between ++ .guarded y :: after →
      x.call.expectedSha256 = y.call.expectedSha256 →
      ∃ edit ∈ .guarded x :: between, Entry.digest sha256 edit.content = x.call.expectedSha256 := by
  refine ⟨h.content, fun _ _ _ => h.base, fun before x between y after hedits hsame => ?_⟩
  obtain ⟨edit, hmem, hlast⟩ := contentAfter_mem before between (.guarded x)
  refine ⟨edit, hmem, ?_⟩
  rw [hsame, h.base hedits, hlast]

end Chain

section Sample

open FileScene

def secondSample : FileScene :=
  { sample (some (.file [2])) (some (hexDigest [1])) false with
    call := { guardedSample.call with requestId := 8 } }

theorem secondSample_hashes : secondSample.Hashes where
  staged := show validSha256 (hexDigest [2]) = true by decide
  target := by
    rintro _ ⟨⟩
    exact show validSha256 (hexDigest [2]) = true by decide
  collision := by
    rintro _ ⟨⟩ -
    rfl

def thirdSample : FileScene :=
  { guardedSample with call := { guardedSample.call with requestId := 9 } }

theorem thirdSample_hashes : thirdSample.Hashes :=
  ⟨guardedSample_hashes.staged, guardedSample_hashes.target, guardedSample_hashes.collision⟩

theorem FileScene.ends_eval {x : FileScene} {reply : FileReply} (hstart : x.Starts x.world)
    (heval : (fileMachine.eval (commitFileTransaction x.sha256 x.call) x.world).1 = reply)
    (hreply : ∀ site failure, reply ≠ .error (.rollbackFailed site failure)) :
    x.Ends (fileMachine.eval (commitFileTransaction x.sha256 x.call) x.world).2 :=
  .replied hstart (Machine.gets_eval _ _) (heval ▸ hreply)

theorem guardedSample_ends :
    guardedSample.Ends (fileMachine.eval (guardedSample.recovery 1)
      (guardedSample.killed (guardedSample.interrupted 12))).2 :=
  .recovered (sample_starts _ _ _) (guardedSample.reaches_interrupted 12) (restart_killed _ _)
    (Prod.ext (by decide) rfl)

theorem secondSample_refused :
    (fileMachine.eval (commitFileTransaction hexDigest secondSample.call) secondSample.world).1 =
      .error .versionConflict := by
  decide

theorem secondSample_ends :
    secondSample.Ends
      (fileMachine.eval (commitFileTransaction hexDigest secondSample.call) secondSample.world).2 :=
  ends_eval (world_starts ⟨by decide, rfl⟩ rfl (by decide)) secondSample_refused nofun

theorem thirdSample_ends :
    thirdSample.Ends
      (fileMachine.eval (commitFileTransaction hexDigest thirdSample.call) thirdSample.world).2 := by
  have hstored : (fileMachine.eval (commitFileTransaction hexDigest thirdSample.call)
      thirdSample.world).1 = .ok ⟨"a", 1, hexDigest [2]⟩ := by decide
  exact ends_eval (world_starts ⟨by decide, rfl⟩ rfl (by decide)) hstored nofun

/-- Three writes from the base `[1]`: the daemon is killed inside the first and the next one
finishes it, the second is refused, and the third is stored once a process has put `[1]` back. -/
theorem third_write_finds_its_base :
    FileEdits hexDigest (some (.file [1]))
      [.guarded guardedSample, .other (some (.file [1])), .guarded thirdSample]
      (some (.file [2])) ∧
    (fileMachine.eval (commitFileTransaction hexDigest secondSample.call) secondSample.world).1 =
      .error .versionConflict ∧
    ∃ edit ∈ [FileEdit.guarded guardedSample, .other (some (.file [1]))],
      Entry.digest hexDigest edit.content = some (hexDigest [1]) := by
  have hguard : some (hexDigest [1]) ≠ none := Option.some_ne_none _
  have hfirst : FileEdits hexDigest (some (.file [1])) [.guarded guardedSample]
      (some (.file [2])) :=
    .stored .start rfl guardedSample_hashes hguard guardedSample_ends
      ((guardedSample_ends.decided guardedSample_hashes rfl hguard).resolve_right (by decide))
  have hsecond : FileEdits hexDigest (some (.file [1])) [.guarded guardedSample]
      (some (.file [2])) :=
    .failed (x := secondSample) hfirst rfl secondSample_hashes hguard secondSample_ends
      fun hstored => absurd hstored.events (by decide)
  have hedits : FileEdits hexDigest (some (.file [1]))
      [.guarded guardedSample, .other (some (.file [1])), .guarded thirdSample]
      (some (.file [2])) :=
    .stored (x := thirdSample) (hsecond.other (some (.file [1]))) rfl thirdSample_hashes hguard
      thirdSample_ends
      ((thirdSample_ends.decided thirdSample_hashes rfl hguard).resolve_right (by decide))
  exact ⟨hedits, secondSample_refused,
    (guarded_writes_lose_no_update hedits).2.2 [] _ [.other (some (.file [1]))] _ [] rfl rfl⟩

end Sample

end Asp
