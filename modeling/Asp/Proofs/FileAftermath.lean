import Asp.Proofs.FileRecovery
import Asp.Spec.FileAftermath

/-! The recovery of a committed file mutation, whatever happened since. What the disk may show of a
transaction never leaves a few values. -/

namespace Asp

open Std Durable Steps

namespace FileScene

variable (x : FileScene)

/-- A journal that knows the request at most by its own record. -/
def Knows (events : List Event) : Prop :=
  (x.restored events).fileRequests[x.call.requestId]? = none ∨
    (x.restored events).fileRequests[x.call.requestId]? = some x.pending.record

/-- The invariant of everything after the call began, over all that a loss of
power may leave. -/
structure Traced (w : FileWorld) : Prop where
  intent : ∀ i ∈ w.intent.images, x.Either i
  backup : ∀ f ∈ w.dir.images, f.backup ≠ none → x.pending.backupPath.isSome = true
  journal : ∀ events ∈ w.journal.images, x.Knows events
  tables : w.tables.fileRequests = (x.restored w.journal.now).fileRequests

def Own : FileIo → Prop
  | .rename _ .backup => x.pending.backupPath.isSome = true
  | .publishIntent p => p = x.pending
  | .append _ requestId record => requestId = x.call.requestId ∧ record = x.pending.record
  | _ => True

variable {x} {w w' : FileWorld}

section Replay

variable {events : List Event}

theorem restored_append (events : List Event) (e : Event) :
    (x.restored (events ++ [e])).fileRequests =
      ((events.foldl (LoadedSession.push x.sha256) x.base).apply x.sha256 e).fileRequests := by
  simp only [restored, List.foldl_append, List.foldl_cons, List.foldl_nil, FileTables.ofLoaded]
  simp only [LoadedSession.push, LoadedSession.apply]
  split <;> rfl

theorem restored_mutation {id unixMs : ℕ} :
    (x.restored (events ++ [⟨id, unixMs, mutationKind x.call.requestId x.pending.record⟩])).fileRequests
      = (x.restored events).fileRequests.insert x.call.requestId x.pending.record := by
  rw [restored_append]
  rfl

theorem restored_other {e : Event} (hother : mutationsOf x.call.requestId [e] = 0) :
    (x.restored (events ++ [e])).fileRequests[x.call.requestId]? =
      (x.restored events).fileRequests[x.call.requestId]? := by
  simp only [restored, List.foldl_append, FileTables.ofLoaded]
  exact restored_fileRequests x.sha256 [e] _ hother

theorem restored_ne_none (hevent : 0 < mutationsOf x.call.requestId events) :
    (x.restored events).fileRequests[x.call.requestId]? ≠ none := by
  induction events using List.reverseRecOn with
  | nil => exact absurd hevent (Nat.lt_irrefl 0)
  | append_singleton events e ih =>
    by_cases hother : mutationsOf x.call.requestId [e] = 0
    · rw [restored_other hother]
      refine ih ?_
      unfold mutationsOf at hevent hother ⊢
      rwa [List.countP_append, hother] at hevent
    · rw [restored_append]
      simp only [mutationsOf, List.countP_singleton] at hother
      unfold LoadedSession.apply
      split at hother <;> simp_all

theorem Knows.mutation {id unixMs : ℕ} :
    x.Knows (events ++ [⟨id, unixMs, mutationKind x.call.requestId x.pending.record⟩]) := by
  right
  rw [restored_mutation]
  simp

theorem Knows.other {e : Event} (h : x.Knows events)
    (hother : mutationsOf x.call.requestId [e] = 0) : x.Knows (events ++ [e]) := by
  unfold Knows
  rwa [restored_other hother]

end Replay

namespace Traced

section

variable (h : x.Traced w)

include h

theorem change {f : Files} (hf : f.backup ≠ none → x.pending.backupPath.isSome = true) :
    x.Traced { w with dir := w.dir.change f } := by
  refine ⟨h.intent, fun g hg => ?_, h.journal, h.tables⟩
  rcases Kept.mem_images_change.mp hg with rfl | hg
  · exact hf
  · exact h.backup g hg

theorem changeIntent {i : Option PendingFileMutation} (hi : x.Either i) :
    x.Traced { w with intent := w.intent.change i } := by
  refine ⟨fun j hj => ?_, h.backup, h.journal, h.tables⟩
  rcases Kept.mem_images_change.mp hj with rfl | hj
  · exact hi
  · exact h.intent j hj

theorem now : w.files.backup ≠ none → x.pending.backupPath.isSome = true :=
  h.backup _ w.dir.now_mem_images

theorem syncDir : x.Traced { w with dir := w.dir.sync } := by
  refine ⟨h.intent, fun f hf => ?_, h.journal, h.tables⟩
  obtain rfl := Kept.mem_images_stable.mp hf
  exact h.now

theorem syncIntents : x.Traced { w with intent := w.intent.sync } := by
  refine ⟨fun i hi => ?_, h.backup, h.journal, h.tables⟩
  obtain rfl := Kept.mem_images_stable.mp hi
  exact h.intent _ w.intent.now_mem_images

theorem undone {events : List Event} (hknows : x.Knows events) :
    x.Traced { w with journal := w.journal.undone events } := by
  refine ⟨h.intent, h.backup, fun j hj => ?_, h.tables⟩
  rcases Kept.mem_images_undone.mp hj with rfl | hj
  · exact hknows
  · exact h.journal j hj

theorem stable {events : List Event} {t : FileTables} (hknows : x.Knows events)
    (ht : t.fileRequests = (x.restored events).fileRequests) :
    x.Traced { w with journal := .stable events, tables := t } := by
  refine ⟨h.intent, h.backup, fun j hj => ?_, ht⟩
  rwa [Kept.mem_images_stable.mp hj]

end

theorem act {i : FileIo} (hi : x.Own i) (h : x.Traced w) (hact : i.act w = some w') :
    x.Traced w' := by
  cases i with
  | reserve | createParent | hashTarget | permissions =>
    cases hact
    exact h
  | rename source dest =>
    rw [FileIo.act] at hact
    split_ifs at hact
    cases hact
    refine h.change fun hbackup => ?_
    cases dest with
    | backup => exact hi
    | target => cases source <;> first | exact absurd rfl hbackup | exact h.now hbackup
    | temporary => cases source <;> first | exact absurd rfl hbackup | exact h.now hbackup
  | remove name =>
    rw [FileIo.act] at hact
    split_ifs at hact
    cases hact
    refine h.change fun hbackup => ?_
    cases name with
    | backup => exact absurd rfl hbackup
    | target | temporary => exact h.now hbackup
  | syncDir =>
    cases hact
    exact h.syncDir
  | publishIntent p =>
    cases hact
    exact h.changeIntent (.inr (congrArg some hi))
  | removeIntent =>
    rw [FileIo.act] at hact
    split_ifs at hact
    cases hact
    exact h.changeIntent (.inl rfl)
  | syncIntents =>
    cases hact
    exact h.syncIntents
  | append unixMs requestId record =>
    obtain ⟨rfl, rfl⟩ := hi
    cases hact
    refine h.stable .mutation ?_
    rw [FileWorld.mutation, restored_mutation, ← h.tables]
    rfl

theorem fault {i : FileIo} (hi : x.Own i) (h : x.Traced w) (hfault : w' ∈ i.fault w) :
    x.Traced w' := by
  cases i with
  | append unixMs requestId record =>
    obtain ⟨rfl, rfl⟩ := hi
    rcases hfault with _ | ⟨_, _ | ⟨_, ⟨⟩⟩⟩
    · exact h
    · exact h.undone .mutation
  | _ =>
    obtain rfl := List.mem_singleton.mp hfault
    exact h

theorem later (h : x.Traced w) (hlater : x.Later w w') : x.Traced w' := by
  cases hlater with
  | edit entry => exact h.change h.now
  | syncDir => exact h.syncDir
  | syncIntents => exact h.syncIntents
  | event e hother =>
    exact h.stable ((h.journal _ w.journal.now_mem_images).other hother) rfl
  | failedEvent e hother => exact h.undone ((h.journal _ w.journal.now_mem_images).other hother)

theorem restart {allowed : FileWorld → FileImage → Prop} (h : x.Traced w)
    (hrestart : x.Restart allowed w w') : x.Traced w' := by
  cases hrestart with
  | kill =>
    exact ⟨fun i hi => h.intent i (Kept.mem_images_kill.mp hi),
      fun f hf => h.backup f (Kept.mem_images_kill.mp hf),
      fun j hj => h.journal j (Kept.mem_images_kill.mp hj), rfl⟩
  | powerLoss image hfiles hintent hjournal =>
    refine ⟨fun i hi => ?_, fun f hf => ?_, fun j hj => ?_, rfl⟩
    · rw [Kept.mem_images_stable.mp hi]
      exact h.intent _ hintent
    · rw [Kept.mem_images_stable.mp hf]
      exact h.backup _ hfiles
    · rw [Kept.mem_images_stable.mp hj]
      exact h.journal _ hjournal

theorem reopens (h : x.Traced w) (hreopens : x.Reopens w w') : x.Traced w' := by
  induction hreopens with
  | restart hrestart => exact h.restart hrestart
  | later _ hlater ih => exact ih.later hlater

theorem meets {α : Type} {p : Program FileIo FileWorld α} (h : x.Traced w) (honly : p.Only x.Own) :
    fileMachine.Meets x.Traced (fun _ _ _ => True) p w :=
  .of_only honly (fun _ _ _ hi h hact => h.act hi hact) (fun _ _ hi h _ hfault => h.fault hi hfault)
    h

end Traced

section Programs

variable {α : Type} {ok failed : Program FileIo FileWorld α}

variable {p : PendingFileMutation}

theorem clearPending_only {failed : FileIo → Program FileIo FileWorld α} (hok : ok.Only x.Own)
    (hfailed : ∀ i, (failed i).Only x.Own) : (clearPendingFileMutation ok failed).Only x.Own := by
  intro w
  dsimp only
  split
  · exact hok
  · exact ⟨trivial, ⟨trivial, hok, hfailed _⟩, hfailed _⟩

theorem removeIfThere_only {name : FileName} (hok : ok.Only x.Own) (hfailed : failed.Only x.Own) :
    (removeIfThere name ok failed).Only x.Own := by
  intro w
  dsimp only
  split
  · exact hok
  · exact ⟨trivial, hok, hfailed⟩

theorem rollbackFinish_only {failed : RollbackError → Program FileIo FileWorld α}
    (hok : ok.Only x.Own) (hfailed : ∀ e, (failed e).Only x.Own) :
    (rollbackFinish ok failed).Only x.Own :=
  removeIfThere_only ⟨trivial, clearPending_only hok fun _ => hfailed _, hfailed _⟩ (hfailed _)

theorem rollbackRestore_only {backup : Bool} {failed : RollbackError → Program FileIo FileWorld α}
    (hok : ok.Only x.Own) (hfailed : ∀ e, (failed e).Only x.Own) :
    (rollbackRestore backup ok failed).Only x.Own := by
  intro w
  dsimp only
  split
  · exact ⟨trivial, rollbackFinish_only hok hfailed, hfailed _⟩
  · exact rollbackFinish_only hok hfailed

theorem rollback_only {pending : PendingFileMutation} {site : RollbackSite} {error : FileError} :
    (rollback x.sha256 x.call pending site error).Only x.Own := by
  intro w
  dsimp only
  have hrestore : ∀ backup, (rollbackRestore backup (.ret (.error error))
      fun failure => .ret (.error (.rollbackFailed site failure)) : FileProgram).Only x.Own :=
    fun _ => rollbackRestore_only trivial fun _ => trivial
  split
  · exact hrestore _
  · trivial
  · split
    · trivial
    · exact ⟨trivial, hrestore _, trivial⟩

theorem discard_only {error : FileError} : (discard error).Only x.Own := by
  have hremove : (.act (.remove .temporary) (.ret (.error error)) (.ret (.error error)) :
      FileProgram).Only x.Own := ⟨trivial, trivial, trivial⟩
  exact clearPending_only hremove fun _ => hremove

theorem finishTransaction_only {pending : PendingFileMutation} :
    (finishTransaction pending).Only x.Own := by
  have hclear : ∀ reply : FileReply,
      (clearPendingFileMutation (.ret reply) fun _ => .ret reply).Only x.Own :=
    fun _ => clearPending_only trivial fun _ => trivial
  unfold finishTransaction
  split
  · exact ⟨trivial, ⟨trivial, hclear _, hclear _⟩, hclear _⟩
  · exact hclear _

theorem journalMutation_only : (journalMutation x.sha256 x.call x.pending).Only x.Own := by
  intro w
  dsimp only
  split
  · exact rollback_only
  · exact ⟨⟨rfl, rfl⟩, finishTransaction_only, rollback_only⟩

theorem moveTarget_only : (moveTarget x.sha256 x.call x.pending).Only x.Own := by
  have hinstall : (installTemporary x.sha256 x.call x.pending).Only x.Own :=
    ⟨trivial, ⟨trivial, journalMutation_only, rollback_only⟩, rollback_only⟩
  unfold moveTarget
  split
  · rename_i hbackup
    exact ⟨hbackup, ⟨trivial, hinstall, rollback_only⟩, discard_only⟩
  · exact hinstall

theorem clearIntent_only : clearIntent.Only x.Own := clearPending_only trivial fun _ => trivial

theorem dropTemporary_only : dropTemporary.Only x.Own := by
  intro w
  dsimp only
  split
  · exact ⟨trivial, ⟨trivial, clearIntent_only, trivial⟩, trivial⟩
  · exact clearIntent_only

theorem cleanup_only : (cleanupPendingFileMutation p).Only x.Own := by
  intro w
  have hfinish : ∀ (changed : Prop) [Decidable changed],
      (if changed then .act .syncDir clearIntent (.ret (.error (.io .syncDir)))
        else clearIntent : RecoverProgram).Only x.Own := by
    intro changed _
    split
    · exact ⟨trivial, clearIntent_only, trivial⟩
    · exact clearIntent_only
  refine removeIfThere_only ?_ trivial
  split
  · exact removeIfThere_only (hfinish _) trivial
  · exact hfinish _

theorem recoverCommitted_only {previous : FileRequest} :
    (recoverCommitted x.sha256 p previous).Only x.Own := by
  intro w
  dsimp only
  split
  · trivial
  · split
    · trivial
    · exact cleanup_only

theorem recoverInstalled_only {unixMs : ℕ} : (recoverInstalled unixMs x.pending).Only x.Own := by
  intro w
  dsimp only
  split
  · trivial
  · refine ⟨⟨rfl, rfl⟩, ?_, trivial⟩
    split
    · exact ⟨trivial, ⟨trivial, clearIntent_only, clearIntent_only⟩, trivial, clearIntent_only,
        clearIntent_only⟩
    · exact ⟨trivial, clearIntent_only, clearIntent_only⟩

theorem recoverMissing_only : (recoverMissing x.sha256 p).Only x.Own := by
  intro w
  dsimp only
  have hdrop : ∀ (there : Bool) (error : RecoverError),
      (if there then dropTemporary else .ret (.error error) : RecoverProgram).Only x.Own := by
    intro there error
    split
    · exact dropTemporary_only
    · trivial
  split
  · split
    · trivial
    · exact ⟨trivial, ⟨trivial, dropTemporary_only, trivial⟩, trivial⟩
  · exact hdrop _ _
  · exact hdrop _ _
  · exact hdrop _ _

end Programs

section Runs

variable {w₀ : FileWorld}

theorem Fresh.traced (hfresh : x.Fresh w) (hstart : x.Starts w) : x.Traced w where
  intent i hi := .inl (hfresh.intent i hi)
  backup f hf hbackup := absurd (hfresh.backup f hf) hbackup
  journal events hevents := by
    left
    simp only [restored, FileTables.ofLoaded]
    rw [restored_fileRequests _ _ _ (hfresh.journal events hevents), hstart.unused.1]
  tables := by rw [hstart.tables, hstart.journal]

theorem prepare_traced (h : x.Traced w) (hstart : x.Starts w) {existing : Bool}
    {previous : Option String} (hprevious : previous = Entry.digest x.sha256 x.previous) :
    fileMachine.Meets x.Traced (fun _ _ _ => True)
      (checkPrecondition x.sha256 x.call existing previous) w := by
  have hpending : pendingOf x.call (w.tables.version x.call.path + 1) previous = x.pending := by
    rw [hprevious, hstart.tables]
    rfl
  unfold checkPrecondition
  split
  · exact ⟨h, trivial⟩
  · refine Machine.Meets.read ?_
    rw [hpending]
    refine h.meets ?_
    split_ifs
    · exact discard_only
    · exact discard_only
    · exact ⟨trivial, discard_only, discard_only⟩
    · exact ⟨trivial, ⟨rfl, ⟨trivial, moveTarget_only, discard_only⟩, discard_only⟩, discard_only⟩

theorem target_traced (h : x.Traced w) (hstart : x.Starts w) :
    fileMachine.Meets x.Traced (fun _ _ _ => True) (checkTarget x.sha256 x.call) w := by
  refine Machine.Meets.read ?_
  rw [hstart.at.now.2.1]
  cases htarget : x.target with
  | none =>
    refine prepare_traced h hstart ?_
    rw [previous_of_absent htarget]
    rfl
  | some e =>
    cases e with
    | other => exact ⟨h, trivial⟩
    | file bytes =>
      split_ifs with hexpected
      · exact ⟨h, trivial⟩
      · refine prepare_traced h hstart ?_
        rw [previous_of_blind hexpected]
        rfl
      · refine .act h rfl (prepare_traced h hstart ?_) fun w' hw' => ?_
        · rw [previous_of_guarded hexpected, htarget]
          rfl
        · obtain rfl : w' = w := List.mem_singleton.mp hw'
          exact ⟨h, trivial⟩

theorem commit_traced (h : x.Traced w) (hstart : x.Starts w) :
    fileMachine.Meets x.Traced (fun _ _ _ => True) (commitFileTransaction x.sha256 x.call) w := by
  have hcached : cachedFileResponse w.tables x.call.requestId x.call.requestHash = .ok none := by
    rw [cachedFileResponse, hstart.tables, hstart.record]
  have hrefused : ∀ (i : FileIo) (reply : FileReply), i.fault w = [w] → ∀ w' ∈ i.fault w,
      fileMachine.Meets x.Traced (fun _ _ _ => True) (.ret reply) w' := by
    intro i reply hfault w' hw'
    rw [hfault, List.mem_singleton] at hw'
    exact hw' ▸ ⟨h, trivial⟩
  refine Machine.Meets.read ?_
  rw [hcached]
  refine .act h rfl ?_ (hrefused .reserve _ rfl)
  rw [hstart.staged]
  exact .act h rfl (target_traced h hstart) (hrefused .createParent _ rfl)

theorem recovery_traced (h : x.Traced w) (unixMs : ℕ) :
    fileMachine.Meets x.Traced (fun _ _ _ => True) (x.recovery unixMs) w := by
  refine Machine.Meets.read ?_
  rcases h.intent _ w.intent.now_mem_images with hnone | hsome
  · rw [hnone]
    exact ⟨h, trivial⟩
  · rw [hsome]
    refine h.meets ?_
    dsimp only
    split
    · trivial
    · split
      · trivial
      · split
        · exact recoverCommitted_only
        · split_ifs
          · exact recoverInstalled_only
          · exact dropTemporary_only
          · trivial
          · exact recoverMissing_only

theorem Aftermath.traced (hstart : x.Starts w₀) (hfresh : x.Fresh w₀)
    (haftermath : x.Aftermath w₀ w) : x.Traced w := by
  induction haftermath with
  | call hgets => exact (commit_traced (hfresh.traced hstart) hstart).crash hgets
  | later _ hlater ih => exact ih.later hlater
  | recovery _ hreopens hgets ih => exact (recovery_traced (ih.reopens hreopens) _).crash hgets

end Runs

section Cleanup

/-- The state in which `name` has been removed if it was there. -/
def without (w : FileWorld) (name : FileName) : FileWorld :=
  if w.files.get name = none then w
  else { w with dir := w.dir.change (w.files.set name none) }

theorem set_of_get {f : Files} {name : FileName} {entry : Option Entry}
    (hget : f.get name = entry) : f.set name entry = f := by
  subst hget
  cases name <;> rfl

theorem without_files (w : FileWorld) (name : FileName) :
    (without w name).files = w.files.set name none := by
  unfold without
  split
  · rename_i hnone
    exact (set_of_get hnone).symm
  · rfl

theorem eval_removeIfThere {α : Type} (name : FileName) (next failed : Program FileIo FileWorld α)
    (w : FileWorld) :
    fileMachine.eval (removeIfThere name next failed) w =
      fileMachine.eval next (without w name) := by
  unfold removeIfThere without
  rw [Machine.eval]
  split
  · rfl
  · rename_i hthere
    rw [Machine.eval]
    have hact : fileMachine.act (.remove name) w =
        some { w with dir := w.dir.change (w.files.set name none) } := if_neg hthere
    rw [hact]

theorem eval_clearIntent (w : FileWorld) :
    ∃ w', fileMachine.eval clearIntent w = (.ok (), w') ∧ w'.files = w.files ∧
      w'.intent.now = none := by
  unfold clearIntent clearPendingFileMutation
  rw [Machine.eval]
  split
  · rename_i hnone
    exact ⟨w, rfl, rfl, hnone⟩
  · rename_i hthere
    have hact : fileMachine.act .removeIntent w = some { w with intent := w.intent.change none } :=
      if_neg hthere
    rw [Machine.eval, hact]
    exact ⟨_, rfl, rfl, rfl⟩

theorem eval_cleanup {p : PendingFileMutation} (w : FileWorld)
    (hbackup : w.files.backup ≠ none → p.backupPath.isSome = true) :
    Cleaned w (fileMachine.eval (cleanupPendingFileMutation p) w) := by
  have hfinish : ∀ (changed : Prop) [Decidable changed] w₁, w₁.files.target = w.files.target →
      w₁.files.temporary = none → w₁.files.backup = none →
      Cleaned w (fileMachine.eval
        (if changed then .act .syncDir clearIntent (.ret (.error (.io .syncDir)))
        else clearIntent) w₁) := by
    intro changed _ w₁ htarget htemporary hbackup
    have hclear : ∀ w₂, w₂.files = w₁.files → Cleaned w (fileMachine.eval clearIntent w₂) := by
      intro w₂ hfiles
      obtain ⟨w', heval, hfiles', hintent⟩ := eval_clearIntent w₂
      have hsame : w'.files = w₁.files := hfiles'.trans hfiles
      rw [heval]
      exact ⟨rfl, by rw [hsame, htarget], by rw [hsame, htemporary], by rw [hsame, hbackup],
        hintent⟩
    split
    · exact hclear { w₁ with dir := w₁.dir.sync } rfl
    · exact hclear w₁ rfl
  unfold cleanupPendingFileMutation
  rw [Machine.eval]
  rw [eval_removeIfThere]
  split
  · rw [eval_removeIfThere]
    refine hfinish _ _ ?_ ?_ ?_ <;> simp only [without_files] <;> rfl
  · rename_i hno
    refine hfinish _ _ ?_ ?_ ?_ <;> simp only [without_files]
    · rfl
    · rfl
    · exact not_not.mp fun hthere => hno (hbackup hthere)

end Cleanup

end FileScene

open FileScene

variable {x : FileScene} {w₀ w w₁ : FileWorld}

/-- A restart after the event is on disk leaves nothing of the transaction and
keeps the target exactly when an intent that is still there names the bytes of the
target, and an intent that is gone went last. -/
theorem committed_mutation_is_cleaned_iff (hstart : x.Starts w₀) (hfresh : x.Fresh w₀)
    (hhash : x.Hashes) (haftermath : x.Aftermath w₀ w) (hreopens : x.Reopens w w₁)
    (hevent : 0 < mutationsOf x.call.requestId w₁.journal.now) (unixMs : ℕ) :
    Cleaned w₁ (fileMachine.eval (x.recovery unixMs) w₁) ↔ x.Recoverable w₁ := by
  have htraced : x.Traced w₁ := (Aftermath.traced hstart hfresh haftermath).reopens hreopens
  have hrecord : w₁.tables.fileRequests[x.pending.requestId]? = some x.pending.record := by
    rw [htraced.tables]
    exact (htraced.journal _ w₁.journal.now_mem_images).resolve_left (restored_ne_none hevent)
  unfold Recoverable FileScene.recovery recoverPendingFileMutation
  rw [Machine.eval]
  rcases htraced.intent _ w₁.intent.now_mem_images with hintent | hintent
  · rw [hintent]
    refine ⟨fun h => ⟨h.temporary, h.backup⟩, fun h => ⟨rfl, rfl, h.1, h.2, hintent⟩⟩
  · rw [hintent]
    have hvalid : ¬ (!x.pending.valid x.call.requestId) = true := by
      rw [pending_valid hstart hhash]
      exact Bool.false_ne_true
    dsimp only
    rw [if_neg hvalid, hrecord]
    by_cases hother : w₁.files.target = some .other
    · rw [if_pos hother, hother]
      exact ⟨fun h => absurd h.reply (by simp [Machine.eval]), fun h => absurd h (by simp [Entry.digest])⟩
    · rw [if_neg hother]
      dsimp only [recoverCommitted]
      rw [Machine.eval, if_neg (by simp [PendingFileMutation.record])]
      by_cases hdigest : Entry.digest x.sha256 w₁.files.target = some x.pending.sha256
      · rw [if_neg (not_not_intro hdigest)]
        exact ⟨fun _ => hdigest, fun _ => eval_cleanup w₁ htraced.now⟩
      · rw [if_pos hdigest]
        exact ⟨fun h => absurd h.reply (by simp [Machine.eval]), fun h => absurd h hdigest⟩

theorem sample_fresh (target : Option Entry) (expected : Option String) (allowBlind : Bool) :
    (sample target expected allowBlind).Fresh (sample target expected allowBlind).world where
  backup := by simp [world, Kept.mem_images_stable]
  intent := by simp [world, Kept.mem_images_stable]
  journal := by simp [world, Kept.mem_images_stable, sample, mutationsOf]

/-- Killed right after the append: the next daemon removes the backup and the
intent. -/
theorem killed_mutation_is_cleaned :
    Cleaned (guardedSample.killed (guardedSample.interrupted 15))
      (fileMachine.eval (guardedSample.recovery 1)
        (guardedSample.killed (guardedSample.interrupted 15))) :=
  (committed_mutation_is_cleaned_iff (sample_starts _ _ _) (sample_fresh _ _ _)
    guardedSample_hashes (.call (Machine.gets_steps 15 _ _)) (.restart (.kill trivial)) (by decide)
    1).mpr (by decide)

/-- The path is edited after a call whose intent could not be removed: the next
daemon does not start. After one whose backup could not be removed, the intent is
cleared all the same and the backup stays. -/
theorem failed_cleanup_is_not_retried :
    guardedSample.Starts guardedSample.world ∧ guardedSample.Fresh guardedSample.world ∧
    guardedSample.Hashes ∧
    (∃ w w₁, guardedSample.Aftermath guardedSample.world w ∧ guardedSample.Reopens w w₁ ∧
      0 < mutationsOf guardedSample.call.requestId w₁.journal.now ∧
      w₁.files.target = some (.file [3]) ∧
      (fileMachine.eval (guardedSample.recovery 1) w₁).1 = .error .committedTargetLost) ∧
    ∃ w w₁, guardedSample.Aftermath guardedSample.world w ∧ guardedSample.Reopens w w₁ ∧
      0 < mutationsOf guardedSample.call.requestId w₁.journal.now ∧
      (fileMachine.eval (guardedSample.recovery 1) w₁).1 = .ok () ∧
      (fileMachine.eval (guardedSample.recovery 1) w₁).2.files.backup = some (.file [1]) := by
  refine ⟨sample_starts _ _ _, sample_fresh _ _ _, guardedSample_hashes, ?_, ?_⟩
  · have hcall : guardedSample.Aftermath guardedSample.world _ :=
      .call (Machine.gets_fault 18 rfl List.mem_cons_self)
    exact ⟨_, _, .later hcall (.edit (some (.file [3]))), .restart (.kill trivial), by decide, rfl,
      by decide⟩
  · have hcall : guardedSample.Aftermath guardedSample.world _ :=
      .call (Machine.gets_fault 15 rfl List.mem_cons_self)
    exact ⟨_, _, hcall, .restart (.kill trivial), by decide, by decide, by decide⟩

end Asp
