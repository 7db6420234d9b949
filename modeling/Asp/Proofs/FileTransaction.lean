import Asp.Spec.FileTransaction

/-! The states that a file transaction passes through. One invariant covers the guarded, the
create-only and the blind mode; every step of the commit, of the rollback and of the recovery keeps
it. -/

namespace Asp

open Std Durable Steps

namespace FileScene

variable (x : FileScene)

/-- What the backup holds while there is one: only a guarded call makes one. -/
def previous : Option Entry := if x.call.expectedSha256 = none then none else x.target

def pending : PendingFileMutation :=
  pendingOf x.call ((x.restored x.journal).version x.call.path + 1)
    (Entry.digest x.sha256 x.previous)

def event (unixMs : ℕ) : Event :=
  ⟨(x.restored x.journal).nextId + 1, unixMs, mutationKind x.call.requestId x.pending.record⟩

def Committed (journal : List Event) : Prop := ∃ unixMs, journal = x.journal ++ [x.event unixMs]

/-- The target and the backup while the event is not in the journal: untouched,
moved, installed, or taken back. -/
def Undecided (f : Files) : Prop :=
  (f.target = x.target ∧ f.backup = none) ∨ (f.target = none ∧ f.backup = x.previous) ∨
    (f.target = some (.file x.staged) ∧ f.backup = x.previous) ∨
    (f.target = x.previous ∧ f.backup = none)

def Settled (f : Files) : Prop := f.backup = none ∧ (f.target = x.target ∨ f.target = x.previous)

structure Good (f : Files) (i : Option PendingFileMutation) (events : List Event) : Prop where
  temporary : f.temporary = none ∨ f.temporary = some (.file x.staged)
  intent : i = none ∨ i = some x.pending
  decided : (events = x.journal ∧ x.Undecided f ∧ (i = none → x.Settled f)) ∨
    (x.Committed events ∧ f.target = some (.file x.staged))

structure Safe (w : FileWorld) : Prop where
  good : ∀ f ∈ w.dir.recent, ∀ i ∈ w.intent.recent, x.Good f i w.journal.now
  tables : w.tables = x.restored w.journal.now

abbrev Meets {α : Type} (Q : List FileIo → α → FileWorld → Prop) (p : Program FileIo FileWorld α)
    (w : FileWorld) : Prop := fileMachine.Meets x.Safe Q p w

/-- An assertion at a point of a program: what the directory and the intent may
be after a crash, and the journal. -/
structure At (D : Files → Prop) (I : Option PendingFileMutation → Prop) (events : List Event)
    (w : FileWorld) : Prop where
  files : ∀ f ∈ w.dir.recent, D f
  intent : ∀ i ∈ w.intent.recent, I i
  journal : w.journal.now = events
  tables : w.tables = x.restored events

variable {x} {D D' : Files → Prop} {I I' : Option PendingFileMutation → Prop}
  {journal : List Event} {w : FileWorld}

namespace At

section

variable (h : x.At D I journal w)

include h

theorem safe (hgood : ∀ f i, D f → I i → x.Good f i journal) : x.Safe w := by
  refine ⟨fun f hf i hi => ?_, ?_⟩
  · rw [h.journal]
    exact hgood f i (h.files f hf) (h.intent i hi)
  · rw [h.tables, h.journal]

theorem mono (hD : ∀ f, D f → D' f) (hI : ∀ i, I i → I' i) : x.At D' I' journal w :=
  ⟨fun f hf => hD f (h.files f hf), fun i hi => hI i (h.intent i hi), h.journal, h.tables⟩

theorem now : D w.files := h.files _ w.dir.now_mem_recent

theorem intent_now : I w.intent.now := h.intent _ w.intent.now_mem_recent

theorem change {f : Files} (hf : D f) : x.At D I journal { w with dir := w.dir.change f } := by
  refine ⟨fun g hg => ?_, h.intent, h.journal, h.tables⟩
  rcases Kept.mem_recent_change.mp hg with rfl | hg
  · exact hf
  · exact h.files g hg

theorem sync : x.At (· = w.files) I journal { w with dir := w.dir.sync } :=
  ⟨fun _ hf => Kept.mem_recent_sync.mp hf, h.intent, h.journal, h.tables⟩

theorem withIntent {c : Kept (Option PendingFileMutation)} (hc : ∀ i ∈ c.recent, I' i) :
    x.At D I' journal { w with intent := c } :=
  ⟨h.files, hc, h.journal, h.tables⟩

theorem undone {events : List Event} :
    x.At D I journal { w with journal := w.journal.undone events } :=
  ⟨h.files, h.intent, h.journal, h.tables⟩

end

end At

section Replay

theorem restored_fileRequests {requestId : Uuid} (sha256 : Bytes → String) (journal : List Event)
    (s : LoadedSession) (hnone : mutationsOf requestId journal = 0) :
    (journal.foldl (LoadedSession.push sha256) s).fileRequests[requestId]? =
      s.fileRequests[requestId]? := by
  induction journal generalizing s with
  | nil => rfl
  | cons e journal ih =>
    have hrest : mutationsOf requestId journal = 0 := by
      unfold mutationsOf at hnone ⊢
      rw [List.countP_cons] at hnone
      omega
    have hhead : (LoadedSession.push sha256 s e).fileRequests[requestId]? =
        s.fileRequests[requestId]? := by
      simp only [LoadedSession.push, LoadedSession.apply]
      split <;> try rfl
      rename_i id hash path version digest hkind
      have hid : id ≠ requestId := by
        intro hid
        simp [mutationsOf, hkind, hid] at hnone
      simp [ExtTreeMap.getElem?_insert, hid]
    rw [List.foldl_cons, ih _ hrest, hhead]

theorem insert_insert {κ β : Type} [Ord κ] [TransOrd κ] [LawfulEqOrd κ] (m : ExtTreeMap κ β)
    (k : κ) (a b : β) : (m.insert k a).insert k b = m.insert k b := by
  apply ExtTreeMap.ext_getElem?
  intro j
  simp only [ExtTreeMap.getElem?_insert]
  split <;> rfl

theorem restored_event (unixMs : ℕ) :
    x.restored (x.journal ++ [x.event unixMs]) =
      ((x.restored x.journal).appended x.pending.record).recorded x.call.requestId
        x.pending.record := by
  simp only [restored, List.foldl_append, List.foldl_cons, List.foldl_nil, FileTables.ofLoaded,
    LoadedSession.push, LoadedSession.apply, event, mutationKind, FileTables.appended,
    FileTables.recorded, insert_insert, FileTables.mk.injEq, and_self, and_true]
  omega

theorem Committed.events (h : x.Committed journal)
    (hunused : mutationsOf x.call.requestId x.journal = 0) :
    mutationsOf x.call.requestId journal = 1 := by
  obtain ⟨unixMs, rfl⟩ := h
  unfold mutationsOf at hunused ⊢
  rw [List.countP_append, hunused]
  simp [event, mutationKind]

theorem Committed.record (h : x.Committed journal) :
    (x.restored journal).fileRequests[x.call.requestId]? = some x.pending.record := by
  obtain ⟨unixMs, rfl⟩ := h
  rw [restored_event]
  simp [FileTables.recorded]

theorem Starts.record (h : x.Starts w) :
    (x.restored x.journal).fileRequests[x.call.requestId]? = none := by
  simp only [restored, FileTables.ofLoaded]
  rw [restored_fileRequests _ _ _ h.unused.2, h.unused.1]

end Replay

section Programs

variable {α : Type} {Q : List FileIo → α → FileWorld → Prop} {w' : FileWorld} {i : FileIo}
  {ok failed : Program FileIo FileWorld α}

theorem meets_act (hsafe : x.Safe w) (hact : i.act w = some w') (hfault : i.fault w = [w])
    (hok : x.Meets Q ok w') (hfailed : x.Meets (fun faults => Q (i :: faults)) failed w) :
    x.Meets Q (.act i ok failed) w := by
  refine .act hsafe hact hok fun s' hs' => ?_
  have hs : s' ∈ i.fault w := hs'
  rw [hfault, List.mem_singleton] at hs
  exact hs ▸ hfailed

theorem meets_remove {name : FileName} (hsafe : x.Safe w) (hthere : w.files.get name ≠ none)
    (hok : x.Meets Q ok { w with dir := w.dir.change (w.files.set name none) })
    (hfailed : x.Meets (fun faults => Q (.remove name :: faults)) failed w) :
    x.Meets Q (.act (.remove name) ok failed) w :=
  meets_act hsafe (if_neg hthere) rfl hok hfailed

theorem meets_rename {source dest : FileName} (hsafe : x.Safe w)
    (hthere : w.files.get source ≠ none) (hok : x.Meets Q ok
      { w with dir := w.dir.change (w.files.rename source dest) })
    (hfailed : x.Meets (fun faults => Q (.rename source dest :: faults)) failed
      w) : x.Meets Q (.act (.rename source dest) ok failed) w :=
  meets_act hsafe (if_neg hthere) rfl hok hfailed

theorem meets_remove_ignored {name : FileName} {next : Program FileIo FileWorld α}
    (hsafe : x.Safe w) (hnext : x.Meets Q next w) (hremoved : w.files.get name ≠ none →
      x.Meets Q next { w with dir := w.dir.change (w.files.set name none) })
    (hfailed : x.Meets (fun faults => Q (.remove name :: faults)) next w) :
    x.Meets Q (.act (.remove name) next next) w := by
  by_cases hthere : w.files.get name = none
  · refine .refused hsafe (if_pos hthere) hnext fun s' hs' => ?_
    have hs : s' = w := List.mem_singleton.mp hs'
    exact hs ▸ hfailed
  · exact meets_remove hsafe hthere (hremoved hthere) hfailed

/-- Either there is no intent, or it is the one of this call. -/
def Either (x : FileScene) (i : Option PendingFileMutation) : Prop := i = none ∨ i = some x.pending

theorem clearPending_meets {failed : FileIo → Program FileIo FileWorld α}
    (h : x.At D x.Either journal w) (hgood : ∀ f i, D f → x.Either i → x.Good f i journal)
    (hok : ∀ w', x.At D x.Either journal w' → w'.dir = w.dir → w'.intent.now = none →
      x.Meets Q ok w')
    (hfailed : ∀ i w', i.rollsBack = false → i.isCleanup = true → x.At D x.Either journal w' →
      w'.dir = w.dir → x.Meets (fun faults => Q (i :: faults)) (failed i) w') :
    x.Meets Q (clearPendingFileMutation ok failed) w := by
  show x.Meets Q (if w.intent.now = none then ok else _) w
  by_cases hnone : w.intent.now = none
  · rw [if_pos hnone]
    exact hok w h rfl hnone
  · rw [if_neg hnone]
    have hremoved : x.At D x.Either journal { w with intent := w.intent.change none } := by
      refine h.withIntent fun i hi => ?_
      rcases Kept.mem_recent_change.mp hi with rfl | hi
      · exact .inl rfl
      · exact h.intent i hi
    have hsynced : x.At D x.Either journal { w with intent := (w.intent.change none).sync } :=
      h.withIntent fun i hi => .inl (Kept.mem_recent_sync.mp hi)
    refine meets_act (h.safe hgood) (if_neg hnone) rfl ?_ (hfailed _ w rfl rfl h rfl)
    exact meets_act (hremoved.safe hgood) rfl rfl (hok _ hsynced rfl rfl)
      (hfailed _ _ rfl rfl hremoved rfl)

end Programs

section Commit

variable {f : Files} {i : Option PendingFileMutation}

def Temporary (x : FileScene) (f : Files) : Prop :=
  f.temporary = none ∨ f.temporary = some (.file x.staged)

def Untouched (x : FileScene) (f : Files) : Prop :=
  x.Temporary f ∧ f.target = x.target ∧ f.backup = none

def Open (x : FileScene) (f : Files) : Prop := x.Temporary f ∧ x.Undecided f

def Written (x : FileScene) (f : Files) : Prop :=
  x.Temporary f ∧ f.target = some (.file x.staged)

theorem Untouched.open (h : x.Untouched f) : x.Open f := ⟨h.1, .inl h.2⟩

theorem Untouched.good (h : x.Untouched f) (hi : x.Either i) : x.Good f i x.journal :=
  ⟨h.1, hi, .inl ⟨rfl, .inl h.2, fun _ => ⟨h.2.2, .inl h.2.1⟩⟩⟩

theorem Open.good (h : x.Open f) (hi : i = some x.pending) : x.Good f i x.journal := by
  subst hi
  exact ⟨h.1, .inr rfl, .inl ⟨rfl, h.2, nofun⟩⟩

theorem Open.good_of_settled (h : x.Open f) (hsettled : x.Settled f) (hi : x.Either i) :
    x.Good f i x.journal :=
  ⟨h.1, hi, .inl ⟨rfl, h.2, fun _ => hsettled⟩⟩

theorem Committed.good (hcommitted : x.Committed journal) (f : Files)
    (i : Option PendingFileMutation) (h : x.Written f) (hi : x.Either i) : x.Good f i journal :=
  ⟨h.1, hi, .inr ⟨hcommitted, h.2⟩⟩

theorem At.safe_open (h : x.At x.Open (· = some x.pending) x.journal w) : x.Safe w :=
  h.safe fun _ _ hf hi => hf.good hi

theorem Temporary.removed : x.Temporary (f.set .temporary none) := .inl rfl

variable {Q : List FileIo → FileReply → FileWorld → Prop}

theorem discard_meets {error : FileError} (h : x.At x.Untouched x.Either x.journal w)
    (hQ : ∀ faults w', (∀ i ∈ faults, i.rollsBack = false) → w'.files.target = x.target →
      w'.journal.now = x.journal → Q faults (.error error) w') : x.Meets Q (discard error) w := by
  have hgood : ∀ f i, x.Untouched f → x.Either i → x.Good f i x.journal :=
    fun f i hf hi => hf.good hi
  -- the staged file is removed last, whether or not the intent could be cleared
  have hremove : ∀ (Q : List FileIo → FileReply → FileWorld → Prop) (w' : FileWorld),
      x.At x.Untouched x.Either x.journal w' →
      (∀ faults w', (∀ i ∈ faults, i.rollsBack = false) → w'.files.target = x.target →
        w'.journal.now = x.journal → Q faults (.error error) w') →
      x.Meets Q
        (.act (.remove .temporary) (.ret (.error error)) (.ret (.error error))) w' := by
    intro Q w' h' hQ
    have hgone : x.Untouched (w'.files.set .temporary none) :=
      ⟨Temporary.removed, h'.now.2.1, h'.now.2.2⟩
    have hsafe := h'.safe hgood
    exact meets_remove_ignored hsafe ⟨hsafe, hQ _ _ (by simp) h'.now.2.1 h'.journal⟩
      (fun _ => ⟨(h'.change hgone).safe hgood, hQ _ _ (by simp) h'.now.2.1 h'.journal⟩)
      ⟨hsafe, hQ _ _ (by simp [FileIo.rollsBack]) h'.now.2.1 h'.journal⟩
  unfold discard
  refine clearPending_meets h hgood (fun w' h' _ _ => hremove Q w' h' hQ) ?_
  intro i w' hi _ h' _
  refine hremove _ w' h' fun faults w₁ hfaults => hQ _ _ ?_
  rintro j (_ | ⟨_, hj⟩)
  · exact hi
  · exact hfaults j hj

theorem pending_backup (hother : x.target ≠ some .other) :
    x.pending.backupPath.isSome = x.previous.isSome := by
  simp only [pending, pendingOf, Option.isSome_map, previous]
  split
  · rfl
  · cases htarget : x.target with
    | none => rfl
    | some e =>
      cases e with
      | file bytes => rfl
      | other => exact absurd htarget hother

section

variable {site : RollbackSite} {error : FileError}
  (hfail : ∀ faults failure w', Q faults (.error (.rollbackFailed site failure)) w')
  (hdone : ∀ faults w', w'.files.target = x.previous → w'.journal.now = x.journal →
    Q faults (.error error) w')

include hfail hdone

theorem rollbackFinish_meets (h : x.At x.Open (· = some x.pending) x.journal w)
    (htarget : w.files.target = x.previous) (hbackup : w.files.backup = none) :
    x.Meets Q
      (rollbackFinish (.ret (.error error)) fun failure =>
        .ret (.error (.rollbackFailed site failure))) w := by
  -- once the directory is synced it is settled, and the intent may go
  have hsync : ∀ w', x.At x.Open (· = some x.pending) x.journal w' →
      w'.files.target = x.previous → w'.files.backup = none →
      x.Meets Q
        (.act .syncDir
          (clearPendingFileMutation (.ret (.error error)) fun i =>
            .ret (.error (.rollbackFailed site (.io i))))
          (.ret (.error (.rollbackFailed site (.io .syncDir))))) w' := by
    intro w' h' htarget' hbackup'
    have hsynced : x.At (· = w'.files) x.Either x.journal { w' with dir := w'.dir.sync } :=
      h'.sync.mono (fun _ hf => hf) fun _ hi => .inr hi
    have hsettled : ∀ f i, f = w'.files → x.Either i → x.Good f i x.journal := by
      rintro f i rfl hi
      exact h'.now.good_of_settled ⟨hbackup', .inr htarget'⟩ hi
    refine meets_act h'.safe_open rfl rfl ?_ ⟨h'.safe_open, hfail _ _ _⟩
    refine clearPending_meets hsynced hsettled (fun w₁ h₁ hdir _ => ?_) fun i w₁ _ _ h₁ _ =>
      ⟨h₁.safe hsettled, hfail _ _ _⟩
    refine ⟨h₁.safe hsettled, hdone _ _ ?_ h₁.journal⟩
    rwa [FileWorld.files, hdir]
  show x.Meets Q (if w.files.get .temporary = none then _ else _) w
  by_cases hthere : w.files.get .temporary = none
  · rw [if_pos hthere]
    exact hsync w h htarget hbackup
  · rw [if_neg hthere]
    have hgone : x.Open (w.files.set .temporary none) := ⟨Temporary.removed, h.now.2⟩
    exact meets_remove h.safe_open hthere (hsync _ (h.change hgone) htarget hbackup)
      ⟨h.safe_open, hfail _ _ _⟩

theorem rollbackRestore_meets (hother : x.target ≠ some .other)
    (h : x.At x.Open (· = some x.pending) x.journal w) (htarget : w.files.target = none)
    (hbackup : w.files.backup = x.previous) :
    x.Meets Q
      (rollbackRestore x.pending.backupPath.isSome (.ret (.error error)) fun failure =>
        .ret (.error (.rollbackFailed site failure))) w := by
  show x.Meets Q
    (if x.pending.backupPath.isSome = true ∧ w.files.backup ≠ none then _ else _) w
  rw [pending_backup hother, hbackup]
  by_cases hprevious : x.previous = none
  · rw [if_neg (by simp [hprevious])]
    exact rollbackFinish_meets hfail hdone h (htarget.trans hprevious.symm) (hbackup.trans hprevious)
  · rw [if_pos ⟨Option.isSome_iff_ne_none.mpr hprevious, hprevious⟩]
    have hthere : w.files.get .backup ≠ none := fun hnone => hprevious (hbackup.symm.trans hnone)
    have hback : x.Open (w.files.rename .backup .target) :=
      ⟨h.now.1, .inr (.inr (.inr ⟨hbackup, rfl⟩))⟩
    exact meets_rename h.safe_open hthere
      (rollbackFinish_meets hfail hdone (h.change hback) hbackup rfl) ⟨h.safe_open, hfail _ _ _⟩

theorem rollback_meets (hother : x.target ≠ some .other)
    (h : x.At x.Open (· = some x.pending) x.journal w) (hbackup : w.files.backup = x.previous) :
    x.Meets Q (rollback x.sha256 x.call x.pending site error) w := by
  have hsafe := h.safe_open
  refine Machine.Meets.read ?_
  cases htarget : w.files.target with
  | none => exact rollbackRestore_meets hfail hdone hother h htarget hbackup
  | some e =>
    cases e with
    | other => exact ⟨hsafe, hfail _ _ _⟩
    | file bytes =>
      by_cases hdigest : x.sha256 bytes ≠ x.call.digest
      · simp only [if_pos hdigest]
        exact ⟨hsafe, hfail _ _ _⟩
      · simp only [if_neg hdigest]
        have hthere : w.files.get .target ≠ none := by simp [Files.get, htarget]
        have hgone : x.Open (w.files.set .target none) :=
          ⟨h.now.1, .inr (.inl ⟨rfl, hbackup⟩)⟩
        exact meets_remove hsafe hthere
          (rollbackRestore_meets hfail hdone hother (h.change hgone) rfl hbackup)
          ⟨hsafe, hfail _ _ _⟩

end

theorem finish_meets (hcommitted : x.Committed journal) (h : x.At x.Written x.Either journal w)
    (hQ : ∀ faults stored w', (∀ i ∈ faults, i.isCleanup = true) → w'.journal.now = journal →
      w'.files.target = some (.file x.staged) → Q faults (.ok stored) w') :
    x.Meets Q (finishTransaction x.pending) w := by
  have hgood := hcommitted.good
  have hclear : ∀ (Q : List FileIo → FileReply → FileWorld → Prop) (w' : FileWorld),
      x.At x.Written x.Either journal w' →
      (∀ faults stored w', (∀ i ∈ faults, i.isCleanup = true) → w'.journal.now = journal →
        w'.files.target = some (.file x.staged) → Q faults (.ok stored) w') →
      x.Meets Q
        (clearPendingFileMutation (.ret (.ok ⟨x.pending.path, x.pending.version, x.pending.sha256⟩))
          fun _ => .ret (.ok ⟨x.pending.path, x.pending.version, x.pending.sha256⟩)) w' := by
    intro Q w' h' hQ
    refine clearPending_meets h' hgood
      (fun w₁ h₁ _ _ => ⟨h₁.safe hgood, hQ _ _ _ (by simp) h₁.journal h₁.now.2⟩) ?_
    intro i w₁ _ hi h₁ _
    exact ⟨h₁.safe hgood, hQ _ _ _ (by simpa using hi) h₁.journal h₁.now.2⟩
  have hcons : ∀ i : FileIo, i.isCleanup = true → ∀ faults stored w',
      (∀ i ∈ faults, i.isCleanup = true) → w'.journal.now = journal →
      w'.files.target = some (.file x.staged) → Q (i :: faults) (.ok stored) w' := by
    intro i hi faults stored w' hfaults
    refine hQ _ _ _ ?_
    rintro j (_ | ⟨_, hj⟩)
    · exact hi
    · exact hfaults j hj
  unfold finishTransaction
  split
  · by_cases hthere : w.files.get .backup = none
    · refine .refused (h.safe hgood) (if_pos hthere) (hclear Q w h hQ) fun s' hs' => ?_
      obtain rfl : s' = w := List.mem_singleton.mp hs'
      exact hclear _ s' h (hcons (.remove .backup) rfl)
    · have hgone : x.Written (w.files.set .backup none) := ⟨h.now.1, h.now.2⟩
      have hremoved := h.change hgone
      have hsynced : x.At x.Written x.Either journal
          { w with dir := (w.dir.change (w.files.set .backup none)).sync } :=
        hremoved.sync.mono (by rintro f rfl; exact hgone) fun _ hi => hi
      refine meets_remove (h.safe hgood) hthere ?_ (hclear _ w h (hcons (.remove .backup) rfl))
      exact meets_act (hremoved.safe hgood) rfl rfl (hclear Q _ hsynced hQ)
        (hclear _ _ hremoved (hcons .syncDir rfl))
  · exact hclear Q w h hQ

/-- How a call ends. After an error that was undone, the target is as before,
or as the backup when a step of the replacement failed. -/
def Outcome (x : FileScene) (faults : List FileIo) (reply : FileReply) (w : FileWorld) : Prop :=
  match reply with
  | .ok _ => x.Committed w.journal.now ∧ w.files.target = some (.file x.staged) ∧
      ∀ i ∈ faults, i.isCleanup = true
  | .error error => (∃ site failure, error = .rollbackFailed site failure) ∨
      (w.journal.now = x.journal ∧
        ((w.files.target = x.target ∧ ∀ i ∈ faults, i.rollsBack = false) ∨
          (w.files.target = x.previous ∧ ∃ i ∈ faults, i.rollsBack = true)))

theorem rollback_outcome {i : FileIo} (hi : i.rollsBack = true) (hother : x.target ≠ some .other)
    (h : x.At x.Open (· = some x.pending) x.journal w) (hbackup : w.files.backup = x.previous) :
    x.Meets (fun faults => x.Outcome (i :: faults))
      (rollback x.sha256 x.call x.pending site error) w := by
  refine rollback_meets (fun _ _ _ => .inl ⟨_, _, rfl⟩) (fun faults w' ht hj => ?_) hother h hbackup
  exact .inr ⟨hj, .inr ⟨ht, i, List.mem_cons_self, hi⟩⟩

theorem discard_outcome (h : x.At x.Untouched x.Either x.journal w) :
    x.Meets x.Outcome (discard error) w :=
  discard_meets h fun _ _ hfaults ht hj => .inr ⟨hj, .inl ⟨ht, hfaults⟩⟩

theorem discard_outcome_after {i : FileIo} (hi : i.rollsBack = false)
    (h : x.At x.Untouched x.Either x.journal w) :
    x.Meets (fun faults => x.Outcome (i :: faults)) (discard error) w := by
  refine discard_meets h fun faults w' hfaults ht hj => .inr ⟨hj, .inl ⟨ht, ?_⟩⟩
  rintro j (_ | ⟨_, hj⟩)
  · exact hi
  · exact hfaults j hj

section

variable (hother : x.target ≠ some .other)

include hother

section

variable (hfit : (x.restored x.journal).version x.call.path + 1 ≤ u64Max)

include hfit

theorem journal_meets
    (h : x.At (fun f => x.Written f ∧ f.backup = x.previous) (· = some x.pending) x.journal w) :
    x.Meets x.Outcome (journalMutation x.sha256 x.call x.pending) w := by
  have hopen : x.At x.Open (· = some x.pending) x.journal w :=
    h.mono (fun f hf => ⟨hf.1.1, .inr (.inr (.inl ⟨hf.1.2, hf.2⟩))⟩) fun _ hi => hi
  have hversion : ¬ min (w.tables.version x.call.path + 1) u64Max ≠ x.pending.version := by
    rw [h.tables, min_eq_left hfit]
    exact not_not_intro rfl
  show x.Meets x.Outcome (if _ then _ else _) w
  rw [if_neg hversion]
  have hevent : w.mutation x.call.unixMs x.call.requestId x.pending.record =
      x.event x.call.unixMs := by
    rw [FileWorld.mutation, h.tables]
    rfl
  have hcommitted : x.Committed (x.journal ++ [x.event x.call.unixMs]) := ⟨_, rfl⟩
  refine .act hopen.safe_open rfl ?_ ?_
  · refine finish_meets hcommitted
      ⟨fun f hf => (h.files f hf).1, fun i hi => .inr (h.intent i hi), ?_, ?_⟩
      fun faults stored w' hfaults hj ht => ⟨hj ▸ hcommitted, ht, hfaults⟩
    · rw [Kept.stable_now, hevent, h.journal]
    · rw [restored_event, h.tables]
  · rintro s' (_ | ⟨_, _ | ⟨_, ⟨⟩⟩⟩)
    · exact rollback_outcome rfl hother hopen h.now.2
    · exact rollback_outcome rfl hother hopen.undone h.now.2

theorem install_meets (h : x.At x.Open (· = some x.pending) x.journal w)
    (hbackup : w.files.backup = x.previous) (hstaged : w.files.temporary = some (.file x.staged)) :
    x.Meets x.Outcome (installTemporary x.sha256 x.call x.pending) w := by
  have hinstalled : x.Open (w.files.rename .temporary .target) :=
    ⟨.inl rfl, .inr (.inr (.inl ⟨hstaged, hbackup⟩))⟩
  have hat := h.change hinstalled
  refine meets_rename h.safe_open (by simp [Files.get, hstaged]) ?_
    (rollback_outcome rfl hother h hbackup)
  refine meets_act hat.safe_open rfl rfl ?_ (rollback_outcome rfl hother hat hbackup)
  refine journal_meets hother hfit (hat.sync.mono ?_ fun _ hi => hi)
  rintro f rfl
  exact ⟨⟨.inl rfl, hstaged⟩, hbackup⟩

theorem move_meets (h : x.At x.Untouched (· = some x.pending) x.journal w)
    (hstaged : w.files.temporary = some (.file x.staged)) :
    x.Meets x.Outcome (moveTarget x.sha256 x.call x.pending) w := by
  have hopen : x.At x.Open (· = some x.pending) x.journal w :=
    h.mono (fun f hf => hf.open) fun _ hi => hi
  unfold moveTarget
  rw [pending_backup hother]
  by_cases hprevious : x.previous = none
  · rw [if_neg (by simp [hprevious])]
    exact install_meets hother hfit hopen (h.now.2.2.trans hprevious.symm) hstaged
  · rw [if_pos (Option.isSome_iff_ne_none.mpr hprevious)]
    have hsame : x.previous = x.target := by
      unfold previous at hprevious ⊢
      split at hprevious
      · exact absurd rfl hprevious
      · rename_i hexpected
        rw [if_neg hexpected]
    have hmoved : x.Open (w.files.rename .target .backup) :=
      ⟨h.now.1, .inr (.inl ⟨rfl, h.now.2.1.trans hsame.symm⟩)⟩
    have hat := hopen.change hmoved
    have hbackup : (w.files.rename .target .backup).backup = x.previous :=
      h.now.2.1.trans hsame.symm
    refine meets_rename (h.safe fun f i hf hi => hf.good (.inr hi)) ?_ ?_
      (discard_outcome_after rfl (h.mono (fun _ hf => hf) fun _ hi => .inr hi))
    · rwa [Files.get, h.now.2.1, ← hsame]
    · refine meets_act hat.safe_open rfl rfl ?_ (rollback_outcome rfl hother hat hbackup)
      refine install_meets hother hfit (hat.sync.mono ?_ fun _ hi => hi) hbackup hstaged
      rintro f rfl
      exact hmoved

end

theorem prepare_meets {existing : Bool} (hexisting : x.target.isSome = existing)
    {previous : Option String} (hprevious : previous = Entry.digest x.sha256 x.previous)
    (h : x.At x.Untouched (· = none) x.journal w)
    (hstaged : w.files.temporary = some (.file x.staged)) :
    x.Meets x.Outcome (prepareTransaction x.sha256 x.call existing previous) w := by
  have heither : x.At x.Untouched x.Either x.journal w := h.mono (fun _ hf => hf) fun _ hi => .inl hi
  have hgood : ∀ f i, x.Untouched f → x.Either i → x.Good f i x.journal :=
    fun f i hf hi => hf.good hi
  show x.Meets x.Outcome (if _ then _ else _) w
  rw [h.now.2.1, if_neg hother, if_neg (by simp [hexisting]), h.tables]
  refine meets_act (heither.safe hgood) rfl rfl ?_ (discard_outcome_after rfl heither)
  by_cases hfit : (x.restored x.journal).version x.call.path + 1 > u64Max
  · rw [if_pos hfit]
    exact discard_outcome heither
  · rw [if_neg hfit]
    have hpending : pendingOf x.call ((x.restored x.journal).version x.call.path + 1) previous =
        x.pending := by
      rw [hprevious]
      rfl
    simp only [hpending]
    have hpublished : x.At x.Untouched x.Either x.journal
        { w with intent := w.intent.change (some x.pending) } := by
      refine heither.withIntent fun i hi => ?_
      rcases Kept.mem_recent_change.mp hi with rfl | hi
      · exact .inr rfl
      · exact heither.intent i hi
    refine meets_act (heither.safe hgood) rfl rfl ?_ (discard_outcome_after rfl heither)
    refine meets_act (hpublished.safe hgood) rfl rfl ?_ (discard_outcome_after rfl hpublished)
    refine move_meets hother (Nat.le_of_not_lt hfit) (h.withIntent fun i hi => ?_) hstaged
    exact Kept.mem_recent_sync.mp hi

end

section

variable (h : x.Starts w)

include h

theorem Starts.at : x.At x.Untouched (· = none) x.journal w :=
  ⟨fun f hf => ⟨(h.files f hf).2.2, (h.files f hf).1, (h.files f hf).2.1⟩, h.intent, h.journal,
    h.tables⟩

theorem Starts.safe : x.Safe w := h.at.safe fun _ _ hf hi => hf.good (.inl hi)

theorem Starts.refuses : x.Meets x.Outcome (.ret (.error error)) w :=
  ⟨h.safe, .inr ⟨h.journal, .inl ⟨h.at.now.2.1, by simp⟩⟩⟩

theorem Starts.refuses_after {i : FileIo} (hi : i.rollsBack = false) :
    x.Meets (fun faults => x.Outcome (i :: faults)) (.ret (.error error)) w :=
  ⟨h.safe, .inr ⟨h.journal, .inl ⟨h.at.now.2.1, by simpa using hi⟩⟩⟩

theorem precondition_meets (hother : x.target ≠ some .other) {existing : Bool}
    (hexisting : x.target.isSome = existing) {previous : Option String}
    (hprevious : previous = Entry.digest x.sha256 x.previous) :
    x.Meets x.Outcome (checkPrecondition x.sha256 x.call existing previous) w := by
  unfold checkPrecondition
  split
  · exact h.refuses
  · exact prepare_meets hother hexisting hprevious h.at h.staged

theorem target_meets : x.Meets x.Outcome (checkTarget x.sha256 x.call) w := by
  refine Machine.Meets.read ?_
  rw [h.at.now.2.1]
  cases htarget : x.target with
  | none =>
    refine precondition_meets h (by simp [htarget]) (by simp [htarget]) ?_
    unfold FileScene.previous
    split <;> simp [htarget, Entry.digest]
  | some e =>
    cases e with
    | other => exact h.refuses
    | file bytes =>
      have hother : x.target ≠ some .other := by simp [htarget]
      by_cases hexpected : x.call.expectedSha256 = none
      · simp only [if_pos hexpected]
        split
        · exact h.refuses
        · exact precondition_meets h hother (by simp [htarget])
            (by simp [FileScene.previous, hexpected, Entry.digest])
      · simp only [if_neg hexpected]
        refine meets_act h.safe rfl rfl ?_ (h.refuses_after rfl)
        exact precondition_meets h hother (by simp [htarget])
          (by simp [FileScene.previous, hexpected, htarget, Entry.digest])

theorem commit_meets : x.Meets x.Outcome (commitFileTransaction x.sha256 x.call) w := by
  have hcached : cachedFileResponse w.tables x.call.requestId x.call.requestHash = .ok none := by
    rw [cachedFileResponse, h.tables, h.record]
  refine Machine.Meets.read ?_
  rw [hcached]
  refine meets_act h.safe rfl rfl ?_ (h.refuses_after rfl)
  rw [h.staged]
  exact meets_act h.safe rfl rfl (target_meets h) (h.refuses_after rfl)

end

end Commit

section Recovery

variable {Q : List FileIo → Except RecoverError Unit → FileWorld → Prop}

section

variable (h : x.At D x.Either journal w) (hgood : ∀ f i, D f → x.Either i → x.Good f i journal)

include h hgood

theorem clearIntent_meets (hfault : ∀ i faults reply w', Q (i :: faults) reply w')
    (hQ : ∀ w', w'.files.target = w.files.target → w'.journal.now = journal →
      w'.intent.now = none → Q [] (.ok ()) w') : x.Meets Q clearIntent w := by
  refine clearPending_meets h hgood (fun w' h' hdir hnone => ?_) fun i w' _ _ h' _ =>
    ⟨h'.safe hgood, hfault _ _ _ _⟩
  exact ⟨h'.safe hgood, hQ w' (by rw [FileWorld.files, hdir]) h'.journal hnone⟩

theorem dropTemporary_meets (hD : D (w.files.set .temporary none))
    (hfault : ∀ i faults reply w', Q (i :: faults) reply w')
    (hQ : ∀ w', w'.files.target = w.files.target → w'.journal.now = journal →
      w'.intent.now = none → Q [] (.ok ()) w') : x.Meets Q dropTemporary w := by
  show x.Meets Q (if Entry.isFile w.files.temporary = true then _ else _) w
  split
  · rename_i hfile
    have hthere : w.files.get .temporary ≠ none := by
      intro hnone
      rw [Files.get] at hnone
      simp [hnone, Entry.isFile] at hfile
    have hat := h.change hD
    have hsynced : x.At D x.Either journal
        { w with dir := (w.dir.change (w.files.set .temporary none)).sync } :=
      hat.sync.mono (by rintro f rfl; exact hD) fun _ hi => hi
    refine meets_remove (h.safe hgood) hthere ?_ ⟨h.safe hgood, hfault _ _ _ _⟩
    exact meets_act (hat.safe hgood) rfl rfl (clearIntent_meets hsynced hgood hfault hQ)
      ⟨hat.safe hgood, hfault _ _ _ _⟩
  · exact clearIntent_meets h hgood hfault hQ

theorem removeIfThere_meets {name : FileName} {next failed : RecoverProgram}
    (hD : ∀ f, D f → D (f.set name none))
    (hnext : ∀ w', x.At D x.Either journal w' → x.Meets Q next w')
    (hfailed : x.Meets (fun faults => Q (.remove name :: faults)) failed w) :
    x.Meets Q (removeIfThere name next failed) w := by
  show x.Meets Q (if w.files.get name = none then _ else _) w
  by_cases hthere : w.files.get name = none
  · rw [if_pos hthere]
    exact hnext w h
  · rw [if_neg hthere]
    exact meets_remove (h.safe hgood) hthere (hnext _ (h.change (hD _ h.now))) hfailed

end

theorem Written.removed {f : Files} {name : FileName} (h : x.Written f) (hname : name ≠ .target) :
    x.Written (f.set name none) := by
  cases name with
  | target => exact absurd rfl hname
  | temporary => exact ⟨.inl rfl, h.2⟩
  | backup => exact h

theorem cleanup_meets (hcommitted : x.Committed journal) (h : x.At x.Written x.Either journal w)
    (hfault : ∀ i faults reply w', Q (i :: faults) reply w')
    (hQ : ∀ w', w'.files.target = some (.file x.staged) → w'.journal.now = journal →
      w'.intent.now = none → Q [] (.ok ()) w') :
    x.Meets Q (cleanupPendingFileMutation x.pending) w := by
  have hgood := hcommitted.good
  have hclear : ∀ w', x.At x.Written x.Either journal w' →
      x.Meets Q clearIntent w' := fun w' h' =>
    clearIntent_meets h' hgood hfault fun w₁ ht => hQ w₁ (ht.trans h'.now.2)
  have hfinish : ∀ (changed : Prop) [Decidable changed] w', x.At x.Written x.Either journal w' →
      x.Meets Q
        (if changed then .act .syncDir clearIntent (.ret (.error (.io .syncDir)))
        else clearIntent) w' := by
    intro changed _ w' h'
    split
    · refine meets_act (h'.safe hgood) rfl rfl (hclear _ (h'.sync.mono ?_ fun _ hi => hi))
        ⟨h'.safe hgood, hfault _ _ _ _⟩
      rintro f rfl
      exact h'.now
    · exact hclear w' h'
  have hremoved : ∀ name, name ≠ FileName.target → ∀ f, x.Written f → x.Written (f.set name none) :=
    fun name hname f hf => hf.removed hname
  refine removeIfThere_meets h hgood (hremoved _ nofun) (fun w' h' => ?_)
    ⟨h.safe hgood, hfault _ _ _ _⟩
  split
  · exact removeIfThere_meets h' hgood (hremoved _ nofun) (fun w₁ h₁ => hfinish _ w₁ h₁)
      ⟨h'.safe hgood, hfault _ _ _ _⟩
  · exact hfinish _ w' h'

theorem tidy_meets (names : List FileName) (hcommitted : x.Committed journal)
    (hnames : ∀ name ∈ names, name ≠ .target) (h : x.At x.Written x.Either journal w)
    (hfault : ∀ i faults reply w', Q (i :: faults) reply w')
    (hQ : ∀ w', w'.files.target = some (.file x.staged) → x.Committed w'.journal.now →
      w'.intent.now = none → Q [] (.ok ()) w') :
    x.Meets Q
      (names.foldr (fun name next => .act (.remove name) next next) clearIntent) w := by
  have hgood := hcommitted.good
  induction names generalizing Q w with
  | nil =>
    exact clearIntent_meets h hgood hfault fun w' ht hj =>
      hQ w' (ht.trans h.now.2) (hj ▸ hcommitted)
  | cons name names ih =>
    have hrest : ∀ name ∈ names, name ≠ FileName.target :=
      fun n hn => hnames n (List.mem_cons_of_mem _ hn)
    have hremoved := h.change (h.now.removed (hnames name List.mem_cons_self))
    exact meets_remove_ignored (h.safe hgood) (ih hrest h hfault hQ)
      (fun _ => ih hrest hremoved hfault hQ)
      (ih hrest h (fun _ _ _ _ => hfault _ _ _ _) fun _ _ _ _ => hfault _ _ _ _)

theorem installed_meets {unixMs : ℕ} (h : x.At x.Written (· = some x.pending) x.journal w)
    (hsafe : x.Safe w) (hfault : ∀ i faults reply w', Q (i :: faults) reply w')
    (hQ : ∀ w', w'.files.target = some (.file x.staged) → x.Committed w'.journal.now →
      w'.intent.now = none → Q [] (.ok ()) w') :
    x.Meets Q (recoverInstalled unixMs x.pending) w := by
  have hversion : ¬ w.tables.version x.pending.path ≥ x.pending.version := by
    rw [h.tables]
    exact Nat.not_succ_le_self _
  have hevent : w.mutation unixMs x.pending.requestId x.pending.record = x.event unixMs := by
    rw [FileWorld.mutation, h.tables]
    rfl
  have hcommitted : x.Committed (x.journal ++ [x.event unixMs]) := ⟨_, rfl⟩
  show x.Meets Q (if _ then _ else _) w
  rw [if_neg hversion]
  refine .act hsafe rfl ?_ ?_
  · have hat : x.At x.Written x.Either (x.journal ++ [x.event unixMs])
        { w with
          journal := .stable (w.journal.now ++
            [w.mutation unixMs x.pending.requestId x.pending.record])
          tables := (w.tables.appended x.pending.record).recorded x.pending.requestId
            x.pending.record } := by
      refine ⟨h.files, fun i hi => .inr (h.intent i hi), ?_, ?_⟩
      · rw [Kept.stable_now, hevent, h.journal]
      · rw [restored_event, h.tables]
        rfl
    split
    · exact tidy_meets [.backup, .temporary] hcommitted (by simp) hat hfault hQ
    · exact tidy_meets [.temporary] hcommitted (by simp) hat hfault hQ
  · rintro s' (_ | ⟨_, _ | ⟨_, ⟨⟩⟩⟩)
    · exact ⟨hsafe, hfault _ _ _ _⟩
    · exact ⟨⟨hsafe.good, hsafe.tables⟩, hfault _ _ _ _⟩

theorem previous_cases (x : FileScene) : x.previous = none ∨ x.previous = x.target := by
  unfold previous
  split
  · exact .inl rfl
  · exact .inr rfl

theorem pending_valid {w₀ : FileWorld} (hstart : x.Starts w₀) (hhash : x.Hashes) :
    x.pending.valid x.call.requestId = true := by
  obtain ⟨hpath, htemporary, hrequest⟩ := hstart.named
  have hdigest : validSha256 x.call.digest = true := hstart.digest ▸ hhash.staged
  have hprevious : (Entry.digest x.sha256 x.previous).all validSha256 = true := by
    rcases x.previous_cases with h | h
    · rw [h]
      rfl
    · rw [h]
      cases htarget : x.target with
      | none => rfl
      | some e =>
        cases e with
        | other => rfl
        | file bytes => exact hhash.target bytes htarget
  simp [PendingFileMutation.valid, pending, pendingOf, hdigest, hpath, htemporary, hrequest,
    hprevious]

/-- An intent that recovery refuses: nothing is left of the call but the intent,
or the target is one that the intent does not know. -/
def Stuck (x : FileScene) (f : Files) (i : Option PendingFileMutation) (events : List Event) :
    Prop :=
  i ≠ none ∧ events = x.journal ∧
    ((f.target = none ∧ f.backup = none ∧ f.temporary = none) ∨
      (x.previous = none ∧ f.target ≠ none ∧
        Entry.digest x.sha256 f.target ≠ some x.call.digest))

structure Recovered (x : FileScene) (f : Files) (i : Option PendingFileMutation)
    (events : List Event) (w : FileWorld) : Prop where
  intent : w.intent.now = none
  decided : (events = x.journal ∧ w.journal.now = x.journal ∧
      w.files.target = f.target.or f.backup ∧
      (i ≠ none → Entry.digest x.sha256 f.target ≠ some x.call.digest)) ∨
    (x.Committed w.journal.now ∧ w.files.target = some (.file x.staged) ∧
      Entry.digest x.sha256 f.target = some x.call.digest)

def Finished (x : FileScene) (f : Files) (i : Option PendingFileMutation) (events : List Event)
    (faults : List FileIo) (reply : Except RecoverError Unit) (w : FileWorld) : Prop :=
  faults = [] →
    (x.Stuck f i events ∧ ∃ error, reply = .error error) ∨
      (¬ x.Stuck f i events ∧ reply = .ok () ∧ x.Recovered f i events w)

variable {f : Files} {i : Option PendingFileMutation} {unixMs : ℕ}

theorem Committed.ne (h : x.Committed journal) : journal ≠ x.journal := by
  obtain ⟨unixMs, rfl⟩ := h
  simp

theorem missing_meets (hother : x.target ≠ some .other)
    (h : x.At (· = f) (· = some x.pending) x.journal w) (hopen : x.Open f)
    (htarget : f.target = none) :
    x.Meets (x.Finished f (some x.pending) x.journal)
      (recoverMissing x.sha256 x.pending) w := by
  have hfiles : w.files = f := h.now
  have hfault : ∀ i faults reply w',
      x.Finished f (some x.pending) x.journal (i :: faults) reply w' := fun _ _ _ _ => nofun
  have hsafe : x.Safe w := h.safe (by rintro g i rfl hi; exact hopen.good hi)
  have hbackup : f.backup = x.previous := by
    rcases hopen.2 with ⟨ht, hb⟩ | ⟨-, hb⟩ | ⟨ht, -⟩ | ⟨ht, hb⟩
    · rcases x.previous_cases with hp | hp
      · rw [hb, hp]
      · rw [hb, hp, ← ht, htarget]
    · exact hb
    · simp [htarget] at ht
    · rw [hb, ← ht, htarget]
  -- what is left is settled: the staged file and the intent go
  have hdrop : ∀ w', x.At (fun g => x.Temporary g ∧ g.target = x.previous ∧ g.backup = none)
      (· = some x.pending) x.journal w' → (f.temporary ≠ none ∨ x.previous ≠ none) →
      x.Meets (x.Finished f (some x.pending) x.journal) dropTemporary w' := by
    intro w' h' hleft
    refine dropTemporary_meets (h'.mono (fun _ hf => hf) fun _ hi => .inr hi) ?_ ?_ hfault ?_
    · intro g i hg hi
      exact Open.good_of_settled ⟨hg.1, .inr (.inr (.inr hg.2))⟩ ⟨hg.2.2, .inr hg.2.1⟩ hi
    · exact ⟨Temporary.removed, h'.now.2⟩
    · intro w₁ ht hj hi _
      refine .inr ⟨?_, rfl, hi, .inl ⟨rfl, hj, ?_, fun _ => ?_⟩⟩
      · rintro ⟨-, -, ⟨-, hb, htemp⟩ | ⟨-, ht', -⟩⟩
        · rcases hleft with hleft | hleft
          · exact hleft htemp
          · exact hleft (hbackup.symm.trans hb)
        · exact ht' htarget
      · rw [ht, h'.now.2.1, htarget, Option.none_or, hbackup]
      · simp [htarget, Entry.digest]
  refine Machine.Meets.read ?_
  have hpath : x.pending.backupPath =
      (Entry.digest x.sha256 x.previous).map fun _ => x.call.backupPath := rfl
  have hsha : x.pending.previousSha256 = Entry.digest x.sha256 x.previous := rfl
  rw [hfiles, hbackup, hpath]
  cases hprevious : x.previous with
  | none =>
    show x.Meets _ (if Entry.isFile f.temporary = true then _ else _) w
    split
    · rename_i hfile
      have htemporary : f.temporary ≠ none := by
        intro hnone
        simp [hnone, Entry.isFile] at hfile
      refine hdrop w (h.mono ?_ fun _ hi => hi) (.inl htemporary)
      rintro g rfl
      exact ⟨hopen.1, htarget.trans hprevious.symm, hbackup.trans hprevious⟩
    · rename_i hfile
      have htemporary : f.temporary = none := by
        rcases hopen.1 with ht | ht
        · exact ht
        · simp [ht, Entry.isFile] at hfile
      exact ⟨hsafe, fun _ => .inl ⟨⟨nofun, rfl, .inl ⟨htarget, hbackup.trans hprevious,
        htemporary⟩⟩, _, rfl⟩⟩
  | some e =>
    cases e with
    | other =>
      rcases x.previous_cases with hp | hp
      · simp [hprevious] at hp
      · exact absurd (hp.symm.trans hprevious) hother
    | file bytes =>
      show x.Meets _
        (if some (x.sha256 bytes) ≠ x.pending.previousSha256 then _ else _) w
      rw [if_neg (by simp [hsha, hprevious, Entry.digest])]
      have hback : x.Temporary (w.files.rename .backup .target) ∧
          (w.files.rename .backup .target).target = x.previous ∧
          (w.files.rename .backup .target).backup = none := by
        rw [hfiles]
        exact ⟨hopen.1, hbackup, rfl⟩
      have hat : x.At x.Open (· = some x.pending) x.journal
          { w with dir := w.dir.change (w.files.rename .backup .target) } :=
        (h.mono (by rintro g rfl; exact hopen) fun _ hi => hi).change
          ⟨hback.1, .inr (.inr (.inr hback.2))⟩
      have hsafe' := hat.safe_open
      refine meets_rename hsafe ?_ ?_ ⟨hsafe, hfault _ _ _ _⟩
      · rw [Files.get, hfiles, hbackup, hprevious]
        exact Option.some_ne_none _
      · refine meets_act hsafe' rfl rfl (hdrop _ (hat.sync.mono ?_ fun _ hi => hi) (.inr ?_))
          ⟨hsafe', hfault _ _ _ _⟩
        · rintro g rfl
          exact hback
        · simp [hprevious]

theorem Undecided.staged (hundecided : x.Undecided f) (hhash : x.Hashes)
    (hmatches : Entry.digest x.sha256 f.target = some (x.sha256 x.staged)) :
    f.target = some (.file x.staged) := by
  have hold : f.target = x.target → f.target = some (.file x.staged) := by
    intro ht
    rw [ht] at hmatches ⊢
    cases htarget : x.target with
    | none => simp [htarget, Entry.digest] at hmatches
    | some e =>
      cases e with
      | other => simp [htarget, Entry.digest] at hmatches
      | file bytes =>
        simp only [htarget, Entry.digest, Option.some.injEq] at hmatches
        rw [hhash.collision bytes htarget hmatches]
  rcases hundecided with ⟨ht, -⟩ | ⟨ht, -⟩ | ⟨ht, -⟩ | ⟨ht, -⟩
  · exact hold ht
  · simp [ht, Entry.digest] at hmatches
  · exact ht
  · rcases x.previous_cases with hp | hp
    · simp [ht, hp, Entry.digest] at hmatches
    · exact hold (ht.trans hp)

theorem unmatched_meets (hother : x.target ≠ some .other)
    (h : x.At (· = f) (· = some x.pending) x.journal w) (hopen : x.Open f) (htarget : f.target ≠ none)
    (hunmatched : Entry.digest x.sha256 f.target ≠ some x.call.digest)
    (hstaged : f.target ≠ some (.file x.staged)) :
    x.Meets (x.Finished f (some x.pending) x.journal)
      (if ¬(x.pending.backupPath.isSome ∧ Entry.isFile f.backup) ∧
          x.pending.previousSha256 ≠ none ∧
          Entry.digest x.sha256 f.target = x.pending.previousSha256 then dropTemporary
        else .ret (.error .unexpectedTargetState)) w := by
  have hsafe : x.Safe w := h.safe (by rintro g j rfl hj; exact hopen.good hj)
  have hsha : x.pending.previousSha256 = Entry.digest x.sha256 x.previous := rfl
  obtain ⟨ht, hbackup⟩ : f.target = x.target ∧ f.backup = none := by
    rcases hopen.2 with hf | ⟨ht, -⟩ | ⟨ht, -⟩ | ⟨ht, hb⟩
    · exact hf
    · exact absurd ht htarget
    · exact absurd ht hstaged
    · rcases x.previous_cases with hp | hp
      · exact absurd (ht.trans hp) htarget
      · exact ⟨ht.trans hp, hb⟩
  by_cases hprevious : x.previous = none
  · rw [if_neg (by simp [hsha, hprevious, Entry.digest])]
    exact ⟨hsafe, fun _ => .inl ⟨⟨nofun, rfl, .inr ⟨hprevious, htarget, hunmatched⟩⟩, _, rfl⟩⟩
  · have hp : x.previous = x.target := x.previous_cases.resolve_left hprevious
    have hknown : x.pending.previousSha256 ≠ none := by
      rw [hsha, hp]
      rcases htarget' : x.target with _ | _ | _
      · exact absurd (ht.trans htarget') htarget
      · exact Option.some_ne_none _
      · exact absurd htarget' hother
    have huntouched : x.Untouched f := ⟨hopen.1, ht, hbackup⟩
    rw [if_pos ⟨by simp [hbackup, Entry.isFile], hknown, by rw [hsha, hp, ht]⟩]
    refine dropTemporary_meets (D := x.Untouched)
      (h.mono (by rintro g rfl; exact huntouched) fun _ hj => .inr hj) (fun g j hg hj => hg.good hj)
      ⟨Temporary.removed, h.now ▸ huntouched.2⟩ (fun _ _ _ _ => nofun) ?_
    intro w' ht' hj hi _
    refine .inr ⟨?_, rfl, hi, .inl ⟨rfl, hj, ?_, fun _ => hunmatched⟩⟩
    · rintro ⟨-, -, ⟨hnone, -, -⟩ | ⟨hnone, -, -⟩⟩
      · exact htarget hnone
      · exact hprevious hnone
    · rw [ht', h.now, hbackup, Option.or_none]

theorem recovery_meets (unixMs : ℕ) {w₀ : FileWorld} (hstart : x.Starts w₀) (hhash : x.Hashes)
    (hother : x.target ≠ some .other) (h : x.At (· = f) (· = i) journal w)
    (hgood : x.Good f i journal) : x.Meets (x.Finished f i journal) (x.recovery unixMs) w := by
  have hfiles : w.files = f := h.now
  have hsafe : x.Safe w := h.safe (by rintro g j rfl rfl; exact hgood)
  refine Machine.Meets.read ?_
  rw [h.intent_now]
  rcases hgood.intent with rfl | rfl
  · -- no intent
    refine ⟨hsafe, fun _ => .inr ⟨fun hstuck => hstuck.1 rfl, rfl, h.intent_now, ?_⟩⟩
    rcases hgood.decided with ⟨rfl, -, hsettled⟩ | ⟨hcommitted, htarget⟩
    · refine .inl ⟨rfl, h.journal, ?_, fun hne => absurd rfl hne⟩
      rw [hfiles, (hsettled rfl).1, Option.or_none]
    · refine .inr ⟨h.journal ▸ hcommitted, hfiles ▸ htarget, ?_⟩
      rw [htarget, hstart.digest]
      rfl
  · have hregular : f.target ≠ some .other := by
      rcases hgood.decided with ⟨-, hopen, -⟩ | ⟨-, htarget⟩
      · rcases hopen with ⟨ht, -⟩ | ⟨ht, -⟩ | ⟨ht, -⟩ | ⟨ht, -⟩
        · rwa [ht]
        · simp [ht]
        · simp [ht]
        · rcases x.previous_cases with hp | hp
          · simp [ht, hp]
          · rwa [ht, hp]
      · simp [htarget]
    have hfault : ∀ i faults reply w',
        x.Finished f (some x.pending) journal (i :: faults) reply w' := fun _ _ _ _ => nofun
    have hdigest : x.pending.sha256 = x.sha256 x.staged := hstart.digest
    have hid : x.pending.requestId = x.call.requestId := rfl
    show x.Meets _ (if (!x.pending.valid x.call.requestId) = true then _
      else if w.files.target = some .other then _ else _) w
    rw [if_neg (by simp [pending_valid hstart hhash]), hfiles, if_neg hregular, h.tables,
      hid]
    rcases hgood.decided with ⟨rfl, hundecided, -⟩ | ⟨hcommitted, htarget⟩
    · have hopen : x.Open f := ⟨hgood.temporary, hundecided⟩
      rw [hstart.record]
      by_cases hmatches : Entry.digest x.sha256 f.target = some x.pending.sha256
      · have hwritten : x.Written f := ⟨hopen.1, hundecided.staged hhash (hdigest ▸ hmatches)⟩
        simp only [if_pos hmatches]
        refine installed_meets (h.mono (by rintro g rfl; exact hwritten) fun _ hj => hj) hsafe hfault
          fun w' ht hj hi _ => .inr ⟨?_, rfl, hi, .inr ⟨hj, ht, hmatches⟩⟩
        rintro ⟨-, -, ⟨hnone, -, -⟩ | ⟨-, -, hne⟩⟩
        · exact absurd (hnone.symm.trans hwritten.2) nofun
        · exact hne hmatches
      · simp only [if_neg hmatches]
        by_cases htarget : f.target = none
        · rw [if_neg (not_not_intro htarget)]
          exact missing_meets hother h hopen htarget
        · rw [if_pos htarget]
          refine unmatched_meets hother h hopen htarget hmatches fun hstaged => hmatches ?_
          rw [hstaged, hdigest]
          rfl
    · -- the event is in the journal
      have hwritten : x.Written f := ⟨hgood.temporary, htarget⟩
      rw [hcommitted.record]
      show x.Meets _ (if _ then _ else if _ then _ else _) w
      rw [hfiles, if_neg (by simp [PendingFileMutation.record]),
        if_neg (by simp [htarget, hdigest, Entry.digest])]
      refine cleanup_meets hcommitted (h.mono (by rintro g rfl; exact hwritten) fun _ hj => .inr hj)
        hfault fun w' ht hj hi _ => .inr ⟨?_, rfl, hi, .inr ⟨hj ▸ hcommitted, ht, ?_⟩⟩
      · exact fun hstuck => hcommitted.ne hstuck.2.1
      · rw [htarget, hstart.digest]
        rfl

end Recovery

end FileScene

end Asp
