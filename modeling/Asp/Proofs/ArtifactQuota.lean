import Asp.Lib.Totals
import Asp.Spec.ArtifactQuota

/-! The artifact quota of a session. The check of `commit_artifact` keeps it; an object without a
record is recorded without the check. -/

namespace Asp

open Std Totals

theorem foldl_saturatingAdd (entries : List (String × ArtifactRecord)) (start : ℕ)
    (hstart : start ≤ usizeMax) :
    entries.foldl (fun total entry => saturatingAdd total entry.2.totalSize) start =
      min (start + (entries.map fun entry => entry.2.totalSize).sum) usizeMax := by
  induction entries generalizing start with
  | nil => simpa using hstart
  | cons entry entries ih =>
    have hnext : saturatingAdd start entry.2.totalSize ≤ usizeMax := Nat.min_le_right ..
    rw [List.foldl_cons, ih _ hnext, List.map_cons, List.sum_cons, saturatingAdd]
    omega

theorem artifactBytes_eq (artifacts : ExtTreeMap String ArtifactRecord) :
    artifactBytes artifacts = min (total ArtifactRecord.totalSize artifacts) usizeMax := by
  rw [artifactBytes, foldl_saturatingAdd _ _ (Nat.zero_le _), Nat.zero_add]
  rfl

def Admitted (artifacts : ExtTreeMap String ArtifactRecord) (objects : ExtTreeMap String FileInfo)
    (commit : ArtifactCommit) : Prop :=
  artifacts[commit.artifactId]? = none ∧ objects[commit.artifactId]? ≠ none ∧
    total ArtifactRecord.totalSize artifacts + commit.totalSize ≤ artifactMaxBytesPerSession

def ArtifactTask.Within (artifacts : ExtTreeMap String ArtifactRecord)
    (objects : ExtTreeMap String FileInfo) : ArtifactTask → Prop
  | .append commit _ _ | .recordRequest commit _ _ | .recordArtifact commit _ _ =>
      Admitted artifacts objects commit
  | .uninstall commit => artifacts[commit.artifactId]? = none
  | .forgetRequests record | .unlink record => artifacts[record.artifactId]? = none
  | .install _ | .tombstone _ | .forgetArtifact _ => True

theorem within_none {artifacts : ExtTreeMap String ArtifactRecord}
    {objects : ExtTreeMap String FileInfo} :
    ∀ task ∈ (none : Option ArtifactTask), task.Within artifacts objects :=
  fun _ htask => absurd htask (Option.not_mem_none _)

namespace ArtifactTables

variable {task : ArtifactTask}

/-- The artifacts once the task has brought the tables up to the journal. -/
def pendingArtifacts (st : ArtifactTables) : ExtTreeMap String ArtifactRecord :=
  match st.task with
  | some (.recordRequest commit event storedName)
  | some (.recordArtifact commit event storedName) =>
      st.artifacts.insert commit.artifactId (commit.record event storedName)
  | some (.forgetArtifact record) => st.artifacts.erase record.artifactId
  | _ => st.artifacts

structure Within (sha256 : Bytes → String) (st : ArtifactTables) : Prop where
  replayed : (st.journal.foldl (LoadedSession.apply sha256) {}).artifacts = st.pendingArtifacts
  fits : total ArtifactRecord.totalSize st.artifacts ≤ artifactMaxBytesPerSession
  objects : ∀ id : String, st.artifacts[id]? ≠ none → st.objects[id]? ≠ none
  task : ∀ task ∈ st.task, task.Within st.artifacts st.objects

variable {sha256 : Bytes → String} {st st' : ArtifactTables} {commit : ArtifactCommit}

theorem replay_created (journal : List Event) (eventId unixMs : ℕ) (storedName : Option String) :
    ((journal ++ [commit.created eventId unixMs storedName]).foldl
        (LoadedSession.apply sha256) {}).artifacts =
      (journal.foldl (LoadedSession.apply sha256) {}).artifacts.insert commit.artifactId
        (commit.record (commit.created eventId unixMs storedName) storedName) := by
  rw [List.foldl_append]
  rfl

theorem replay_deleted (journal : List Event) (eventId unixMs totalSize : ℕ) (artifactId : String) :
    ((journal ++ [Event.mk eventId unixMs (.artifactDeleted artifactId totalSize)]).foldl
        (LoadedSession.apply sha256) {}).artifacts =
      (journal.foldl (LoadedSession.apply sha256) {}).artifacts.erase artifactId := by
  rw [List.foldl_append]
  rfl

theorem insert_object {objects : ExtTreeMap String FileInfo} {id id' : String} (file : FileInfo)
    (h : objects[id]? ≠ none) : (objects.insert id' file)[id]? ≠ none := by
  by_cases hid : id = id'
  · rw [hid, ExtTreeMap.getElem?_insert_self]
    exact Option.some_ne_none _
  · rwa [Lookup.getElem?_insert_of_ne hid]

theorem decideInstall_adopt {artifacts : ExtTreeMap String ArtifactRecord} {object : Option FileInfo}
    (h : decideInstall artifacts object commit = .adopt) :
    artifacts[commit.artifactId]? = none ∧ object ≠ none := by
  unfold decideInstall at h
  cases object with
  | some file =>
    dsimp only at h
    split_ifs at h
    refine ⟨?_, Option.some_ne_none _⟩
    cases hget : artifacts[commit.artifactId]? with
    | none => rfl
    | some record =>
      rw [hget] at h
      cases h
  | none =>
    cases hpayload : commit.payload with
    | none =>
      rw [hpayload] at h
      cases h
    | some payload =>
      rw [hpayload] at h
      dsimp only at h
      split_ifs at h

theorem decideInstall_install {artifacts : ExtTreeMap String ArtifactRecord}
    {object : Option FileInfo} {payload : FileInfo}
    (h : decideInstall artifacts object commit = .install payload) :
    object = none ∧ (artifacts[commit.artifactId]? = none →
      total ArtifactRecord.totalSize artifacts + commit.totalSize ≤ artifactMaxBytesPerSession) := by
  unfold decideInstall at h
  cases object with
  | some file =>
    dsimp only at h
    split_ifs at h
    cases hget : artifacts[commit.artifactId]? with
    | none =>
      rw [hget] at h
      cases h
    | some record =>
      rw [hget] at h
      cases h
  | none =>
    refine ⟨rfl, fun hnew => ?_⟩
    cases hpayload : commit.payload with
    | none =>
      rw [hpayload] at h
      cases h
    | some staged =>
      rw [hpayload] at h
      dsimp only at h
      split_ifs at h with _ hquota
      rw [hnew, artifactBytes_eq, saturatingAdd] at hquota
      have hlimit : artifactMaxBytesPerSession < usizeMax := by decide
      simp only [Option.isNone_none, true_and, Nat.not_lt] at hquota
      omega

section

variable (h : st.Within sha256)

include h

theorem Within.goto (hpending : st.pendingArtifacts = st.artifacts)
    (hnext : (st.goto task).pendingArtifacts = st.artifacts)
    (htask : task.Within st.artifacts st.objects) : (st.goto task).Within sha256 := by
  refine ⟨(h.replayed.trans hpending).trans hnext.symm, h.fits, h.objects, ?_⟩
  intro t ht
  cases ht
  exact htask

theorem Within.release (hpending : st.pendingArtifacts = st.artifacts) : st.release.Within sha256 :=
  ⟨h.replayed.trans hpending, h.fits, h.objects, within_none⟩

theorem Within.setObjects (hpending : st.pendingArtifacts = st.artifacts)
    {objects : ExtTreeMap String FileInfo}
    (hobjects : ∀ id : String, st.artifacts[id]? ≠ none → objects[id]? ≠ none) :
    { st with objects := objects, task := none }.Within sha256 :=
  ⟨h.replayed.trans hpending, h.fits, hobjects, within_none⟩

theorem erase_object {id : String} (hid : st.artifacts[id]? = none) :
    ∀ id' : String, st.artifacts[id']? ≠ none → (st.objects.erase id)[id']? ≠ none := by
  intro id' hid'
  have hne : id' ≠ id := fun heq => hid' (heq ▸ hid)
  rw [Lookup.getElem?_erase_of_ne hne]
  exact h.objects id' hid'

theorem Within.install (htask : st.task = some (.install commit))
    (hguard : AdoptsWithin st .proceed) : (st.install commit).Within sha256 := by
  have hpending : st.pendingArtifacts = st.artifacts := by rw [pendingArtifacts, htask]
  unfold ArtifactTables.install
  cases hdecide : decideInstall st.artifacts st.objects[commit.artifactId]? commit with
  | refuse | stored => exact h.release hpending
  | adopt =>
    obtain ⟨hnew, hobject⟩ := decideInstall_adopt hdecide
    have hroom := hguard commit htask hdecide
    have hlimit : artifactMaxBytesPerSession < usizeMax := by decide
    rw [artifactBytes_eq] at hroom
    exact h.goto hpending rfl ⟨hnew, hobject, by omega⟩
  | install payload =>
    obtain ⟨hobject, hroom⟩ := decideInstall_install hdecide
    -- a record has its object, so there is none
    have hnew : st.artifacts[commit.artifactId]? = none :=
      Decidable.byContradiction fun hne => h.objects _ hne hobject
    have hobjects : ∀ id : String, st.artifacts[id]? ≠ none →
        (st.objects.insert commit.artifactId payload)[id]? ≠ none :=
      fun id hid => insert_object payload (h.objects id hid)
    have hinstalled := h.setObjects hpending hobjects
    refine hinstalled.goto rfl rfl ⟨hnew, ?_, hroom hnew⟩
    rw [ExtTreeMap.getElem?_insert_self]
    exact Option.some_ne_none _

theorem Within.installFailed (htask : st.task = some (.install commit))
    (renamed : Bool) : (st.installFailed commit renamed).Within sha256 := by
  have hpending : st.pendingArtifacts = st.artifacts := by rw [pendingArtifacts, htask]
  unfold ArtifactTables.installFailed
  cases decideInstall st.artifacts st.objects[commit.artifactId]? commit with
  | refuse | stored | adopt => exact h.release hpending
  | install payload =>
    split_ifs
    · exact h.setObjects hpending fun id hid => insert_object payload (h.objects id hid)
    · exact h.release hpending

theorem Within.pending :
    total ArtifactRecord.totalSize st.pendingArtifacts ≤ artifactMaxBytesPerSession ∧
      ∀ id : String, st.pendingArtifacts[id]? ≠ none → st.objects[id]? ≠ none := by
  have hrecord : ∀ commit event storedName, Admitted st.artifacts st.objects commit →
      total ArtifactRecord.totalSize
          (st.artifacts.insert commit.artifactId (commit.record event storedName)) ≤
        artifactMaxBytesPerSession ∧
      ∀ id : String, (st.artifacts.insert commit.artifactId (commit.record event storedName))[id]? ≠
        none → st.objects[id]? ≠ none := by
    rintro commit event storedName ⟨hnew, hobject, hroom⟩
    refine ⟨(total_insert _ hnew _).trans_le hroom, fun id hid => ?_⟩
    by_cases heq : id = commit.artifactId
    · rwa [heq]
    · rw [Lookup.getElem?_insert_of_ne heq] at hid
      exact h.objects id hid
  unfold pendingArtifacts
  split
  · rename_i commit event storedName htask
    exact hrecord commit event storedName (h.task _ htask)
  · rename_i commit event storedName htask
    exact hrecord commit event storedName (h.task _ htask)
  · rename_i record _
    refine ⟨(total_erase_le _ _).trans h.fits, fun id hid => h.objects id ?_⟩
    obtain ⟨artifact, hget⟩ := Option.ne_none_iff_exists'.mp hid
    rw [(Lookup.getElem?_of_erase hget).2]
    exact Option.some_ne_none _
  · exact ⟨h.fits, h.objects⟩

theorem Within.proceed (htask : st.task = some task) (hguard : AdoptsWithin st .proceed)
    (hact : st.proceed task = some st') : st'.Within sha256 := by
  have hwithin := h.task task htask
  have hreplayed := h.replayed
  obtain ⟨hfits, hobjects⟩ := h.pending
  rw [pendingArtifacts, htask] at hreplayed hfits hobjects
  cases task with
  | install commit =>
    cases hact
    exact h.install htask hguard
  | append | tombstone => cases hact
  | uninstall commit =>
    cases hact
    exact ⟨hreplayed, hfits, erase_object h hwithin, within_none⟩
  | recordRequest commit event storedName =>
    cases hact
    refine ⟨hreplayed, h.fits, h.objects, ?_⟩
    intro t ht
    cases ht
    exact hwithin
  | recordArtifact commit event storedName =>
    cases hact
    exact ⟨hreplayed, hfits, hobjects, within_none⟩
  | forgetArtifact record =>
    cases hact
    refine ⟨hreplayed, hfits, hobjects, ?_⟩
    intro t ht
    cases ht
    exact ExtTreeMap.getElem?_erase_self
  | forgetRequests record =>
    cases hact
    refine ⟨hreplayed, hfits, hobjects, ?_⟩
    intro t ht
    cases ht
    exact hwithin
  | unlink record =>
    cases hact
    exact ⟨hreplayed, hfits, erase_object h hwithin, within_none⟩

theorem Within.stamp (htask : st.task = some task) {eventId unixMs : ℕ}
    (hact : st.stamp eventId unixMs task = some st') : st'.Within sha256 := by
  have hwithin := h.task task htask
  have hreplayed := h.replayed
  rw [pendingArtifacts, htask] at hreplayed
  cases task with
  | append commit installed storedName =>
    cases hact
    refine ⟨?_, h.fits, h.objects, ?_⟩
    · refine (replay_created st.journal eventId unixMs storedName).trans ?_
      rw [hreplayed]
      rfl
    · intro t ht
      cases ht
      exact hwithin
  | tombstone record =>
    cases hact
    refine ⟨?_, h.fits, h.objects, ?_⟩
    · refine (replay_deleted st.journal eventId unixMs record.totalSize record.artifactId).trans ?_
      rw [hreplayed]
      rfl
    · intro t ht
      cases ht
      trivial
  | _ => cases hact

theorem Within.fail (htask : st.task = some task) {done : Bool}
    (hact : st.fail done task = some st') : st'.Within sha256 := by
  have hwithin := h.task task htask
  cases task with
  | install commit =>
    cases hact
    exact h.installFailed htask done
  | append commit installed storedName =>
    have hpending : st.pendingArtifacts = st.artifacts := by rw [pendingArtifacts, htask]
    cases installed with
    | true =>
      cases hact
      exact h.goto hpending rfl hwithin.1
    | false =>
      cases hact
      exact h.release hpending
  | uninstall | tombstone | unlink =>
    cases hact
    exact h.release (by rw [pendingArtifacts, htask])
  | recordRequest | recordArtifact | forgetArtifact | forgetRequests => cases hact

theorem Within.restart : (st.restart sha256).Within sha256 := by
  obtain ⟨hfits, hobjects⟩ := h.pending
  rw [← h.replayed] at hfits hobjects
  exact ⟨rfl, hfits, hobjects, within_none⟩

theorem Within.begin (hfree : st.task = none) (commit : ArtifactCommit) :
    (st.begin commit).Within sha256 := by
  unfold ArtifactTables.begin
  split
  · exact h
  · exact h.goto (by rw [pendingArtifacts, hfree]) rfl trivial

theorem Within.prune (hfree : st.task = none) (artifactId : String) (cutoff : ℕ)
    (reading : Bool) : (st.prune artifactId cutoff reading).Within sha256 := by
  unfold ArtifactTables.prune
  split
  · exact h
  · split_ifs
    · exact h.goto (by rw [pendingArtifacts, hfree]) rfl trivial
    · exact h

theorem Within.sweep (hfree : st.task = none) (artifactId : String) :
    (st.sweep artifactId).Within sha256 := by
  unfold ArtifactTables.sweep
  split_ifs with hrecord
  · exact h
  · have hreplayed := h.replayed
    rw [pendingArtifacts, hfree] at hreplayed
    refine ⟨?_, h.fits, erase_object h (Option.not_isSome_iff_eq_none.mp hrecord), ?_⟩
    · rw [hreplayed, pendingArtifacts]
      simp only [hfree]
    · rw [hfree]
      exact within_none

end

theorem initial_within (sha256 : Bytes → String) : initial.Within sha256 := by
  refine ⟨rfl, by decide, fun id hid => absurd ExtTreeMap.getElem?_empty hid, within_none⟩

theorem Within.act {action : QuotaAction} (h : st.Within sha256) (hguard : AdoptsWithin st action)
    (hact : (quotaMachine sha256).act action st = some st') : st'.Within sha256 := by
  cases action with
  | commit commit =>
    obtain ⟨hfree, hact⟩ := Option.ite_none_right_eq_some.mp hact
    exact Option.some.inj hact ▸ h.begin hfree commit
  | prune artifactId cutoff reading =>
    obtain ⟨hfree, hact⟩ := Option.ite_none_right_eq_some.mp hact
    exact Option.some.inj hact ▸ h.prune hfree artifactId cutoff reading
  | sweep artifactId =>
    obtain ⟨hfree, hact⟩ := Option.ite_none_right_eq_some.mp hact
    exact Option.some.inj hact ▸ h.sweep hfree artifactId
  | proceed =>
    obtain ⟨task, htask, hact⟩ := Option.bind_eq_some_iff.mp hact
    exact h.proceed htask hguard hact
  | stamp eventId unixMs =>
    obtain ⟨task, htask, hact⟩ := Option.bind_eq_some_iff.mp hact
    exact h.stamp htask hact
  | fail done =>
    obtain ⟨task, htask, hact⟩ := Option.bind_eq_some_iff.mp hact
    exact h.fail htask hact
  | crash => exact Option.some.inj hact ▸ h.restart

end ArtifactTables

/-- In every history in which an object without a record is recorded only when there
is room for it, the committed artifacts are within the quota. -/
theorem artifact_quota_holds {sha256 : Bytes → String} {st : ArtifactTables}
    (hreach : (quotaMachine sha256).Reaches AdoptsWithin .initial st) :
    total ArtifactRecord.totalSize st.artifacts ≤ artifactMaxBytesPerSession :=
  (hreach.invariant (P := ArtifactTables.Within sha256) (ArtifactTables.initial_within sha256)
    fun _ _ _ hguard hact h => h.act hguard hact).fits

def gibibyteCommit (n : ℕ) : ArtifactCommit :=
  let id := String.ofList (List.replicate 64 (Nat.digitChar n))
  ⟨n, "", id, 2 ^ 30, none, some ⟨2 ^ 30, id⟩, id⟩

def commitActions (n : ℕ) : List QuotaAction :=
  [.commit (gibibyteCommit n), .proceed, .stamp n n, .proceed, .proceed]

def interruptedCommit (n : ℕ) : List QuotaAction :=
  [.commit (gibibyteCommit n), .proceed, .crash]

def adoptsWithin (st : ArtifactTables) (action : QuotaAction) : Bool :=
  match action, st.task with
  | .proceed, some (.install commit) =>
      decide (artifactBytes st.artifacts + commit.totalSize ≤ artifactMaxBytesPerSession)
  | _, _ => true

theorem adoptsWithin_sound (st : ArtifactTables) (action : QuotaAction)
    (h : adoptsWithin st action = true) : AdoptsWithin st action := by
  cases action with
  | proceed =>
    intro commit htask _
    simp only [adoptsWithin, htask] at h
    exact of_decide_eq_true h
  | _ => trivial

theorem adopted_object_is_within_quota : ∃ st,
    (quotaMachine fun _ => "").Reaches AdoptsWithin .initial st ∧
      total ArtifactRecord.totalSize st.artifacts = 2 ^ 30 ∧
      total ArtifactRecord.totalSize st.artifacts ≤ artifactMaxBytesPerSession := by
  have hrun : ((quotaMachine fun _ => "").runWith adoptsWithin
      (interruptedCommit 0 ++ commitActions 0) .initial).any (fun st =>
        decide (total ArtifactRecord.totalSize st.artifacts = 2 ^ 30)) := by
    decide
  obtain ⟨st, hreach, hone⟩ := Steps.Machine.exists_reaches _ adoptsWithin_sound hrun
  exact ⟨st, hreach, of_decide_eq_true hone, artifact_quota_holds hreach⟩

/-- Nine gibibytes: the object of the first commit outlives the crash, and its second
commit is not checked. -/
theorem artifact_quota_is_exceeded : ∃ st,
    (quotaMachine fun _ => "").Reaches (fun _ _ => True) .initial st ∧
      artifactMaxBytesPerSession < total ArtifactRecord.totalSize st.artifacts := by
  have hrun : ((quotaMachine fun _ => "").runWith (fun _ _ => true)
      (interruptedCommit 0 ++ (List.range 8).flatMap (fun n => commitActions (n + 1)) ++
        commitActions 0) .initial).any (fun st =>
          decide (artifactMaxBytesPerSession < total ArtifactRecord.totalSize st.artifacts)) := by
    decide
  obtain ⟨st, hreach, hover⟩ := Steps.Machine.exists_reaches _ (fun _ _ _ => trivial) hrun
  exact ⟨st, hreach, of_decide_eq_true hover⟩

end Asp
