import Asp.Proofs.WorkspaceRuns

/-! Tree versions. The counter behind a version belongs to a resolved root, so a version
stands for one tree of its root; two roots give the same versions to different trees. -/

namespace Asp

variable {φ δ : Type} [DecidableEq δ] {R : WorkspaceReader φ} {epoch : Uuid}
  {digest : DigestInput → δ}

theorem WorkspaceQuery.Answered.of_answer {strict : Prop} {t : Timeline φ}
    {published : List TreePublication} {query : WorkspaceQuery δ} {answer : WorkspaceAnswer δ}
    (h : query.Sound R epoch digest strict t published) (hanswer : query.answer = some answer) :
    query.Answered R epoch digest strict t published answer := by
  rw [WorkspaceQuery.answer] at hanswer
  split at hanswer
  · rename_i found hphase
    cases hanswer
    have hsound := h.2
    rwa [hphase] at hsound
  · cases hanswer

namespace WorkspaceResponse

variable (request : WorkspaceRequest δ) (parts : StateParts)

theorem treeVersion_eq : (workspaceResponse epoch digest request parts).treeVersion =
    parts.version.map fun generation => ⟨epoch, generation⟩ := by
  rw [workspaceResponse]
  split
  · rfl
  · rfl

theorem stateDigest_eq : (workspaceResponse epoch digest request parts).stateDigest =
    digest (parts.digestInput request.workspace request.key) := by
  rw [workspaceResponse]
  split
  · rfl
  · rfl

theorem treeUnchanged_cases
    (h : (workspaceResponse epoch digest request parts).treeUnchanged = true) :
    request.knownStateDigest = some (digest (parts.digestInput request.workspace request.key)) ∨
      (parts.version.map fun generation => (⟨epoch, generation⟩ : WorkspaceVersion)) =
        request.knownTreeVersion := by
  rw [workspaceResponse] at h
  split at h
  · rename_i hdigest
    exact .inl hdigest
  · simp only [Bool.and_eq_true, decide_eq_true_eq] at h
    exact .inr h.2

end WorkspaceResponse

section Answered

variable {strict : Prop} {t : Timeline φ} {published : List TreePublication}
  {query : WorkspaceQuery δ} {answer : WorkspaceAnswer δ}

theorem WorkspaceQuery.Answered.fields
    (h : query.Answered R epoch digest strict t published answer) :
    ∃ workspace, answer.parts.Sound R t published query.started query.root workspace
        query.request.key ∧
      answer.response.treeVersion =
        (answer.parts.version.map fun generation => ⟨epoch, generation⟩) ∧
      answer.response.stateDigest =
        digest (answer.parts.digestInput workspace query.request.key) ∧
      (answer.response.treeUnchanged = true →
        query.request.knownStateDigest = some answer.response.stateDigest ∨
          answer.response.treeVersion = query.request.knownTreeVersion) := by
  obtain ⟨workspace, -, hparts, ⟨rfl, hresponse⟩ | ⟨hknown, hresponse⟩⟩ := h
  · refine ⟨_, hparts, ?_, ?_, fun hunchanged => ?_⟩
    · rw [hresponse, WorkspaceResponse.treeVersion_eq]
    · rw [hresponse, WorkspaceResponse.stateDigest_eq]
    · rw [hresponse] at hunchanged ⊢
      rw [WorkspaceResponse.stateDigest_eq, WorkspaceResponse.treeVersion_eq]
      exact WorkspaceResponse.treeUnchanged_cases _ _ hunchanged
  · rw [hresponse]
    exact ⟨workspace, hparts, rfl, rfl, fun _ => .inl hknown⟩

end Answered

/-- In every run, answers for one resolved root that carry the same version are about the same tree;
and an unchanged tree is the tree of the answer whose version the query repeats, if it repeats no
other digest. -/
theorem tree_version_identifies_tree_of_root (hdigest : Function.Injective digest) (state : φ)
    {w : IndexWorld φ δ}
    (h : (indexMachine R epoch digest).Reaches (fun _ _ => True) (.init state) w) :
    ∀ earlier ∈ w.queries, ∀ later ∈ w.queries, ∀ sent ∈ earlier.answer, ∀ answer ∈ later.answer,
      earlier.root = later.root →
      (∀ version, sent.response.treeVersion = some version →
        answer.response.treeVersion = some version →
          sent.parts.completeTree = answer.parts.completeTree) ∧
      (earlier.request.includeTree = true → later.request.includeTree = true →
        sent.response.treeVersion.isSome = true →
        later.request.knownTreeVersion = sent.response.treeVersion →
        (∀ known ∈ later.request.knownStateDigest, known = sent.response.stateDigest) →
        answer.response.treeUnchanged = true →
          sent.parts.completeTree = answer.parts.completeTree) := by
  have hsound : w.Sound R epoch digest False :=
    h.invariant (P := IndexWorld.Sound R epoch digest False) (.init state)
      fun _ _ _ _ hact hw => IndexWorld.act_sound hw (fun _ _ _ _ _ hno => hno.elim) hact
  intro earlier hearlier later hlater sent hsent answer hanswer hroot
  obtain ⟨workspace, hparts, hversion, hstate, -⟩ :=
    (WorkspaceQuery.Answered.of_answer (hsound.queries earlier hearlier) hsent).fields
  obtain ⟨workspace', hparts', hversion', hstate', hunchanged⟩ :=
    (WorkspaceQuery.Answered.of_answer (hsound.queries later hlater) hanswer).fields
  have hone : ∀ version, sent.response.treeVersion = some version →
      answer.response.treeVersion = some version →
        sent.parts.completeTree = answer.parts.completeTree := by
    intro version hfirst hsecond
    obtain ⟨number, hnumber, rfl⟩ := Option.map_eq_some_iff.mp (hversion.symm.trans hfirst)
    obtain ⟨number', hnumber', hsame⟩ := Option.map_eq_some_iff.mp (hversion'.symm.trans hsecond)
    obtain ⟨-, rfl⟩ := WorkspaceVersion.mk.inj hsame
    exact StateParts.completeTree_eq hsound.published hparts.versioned
      (hroot ▸ hparts'.versioned) hnumber hnumber'
  refine ⟨hone, fun htree htree' hsome hknown hknownDigest hflag => ?_⟩
  rcases hunchanged hflag with hdigests | hversions
  · -- the digests are of the same input, and that has the tree
    have hsame := hknownDigest _ hdigests
    rw [hstate, hstate'] at hsame
    have htrees := congrArg DigestInput.tree (hdigest hsame)
    dsimp only [StateParts.digestInput, StateParts.tree, WorkspaceRequest.key] at htrees
    rw [htree, htree', if_pos rfl, if_pos rfl] at htrees
    exact htrees.symm
  · obtain ⟨version, hfirst⟩ := Option.isSome_iff_exists.mp hsome
    exact hone version hfirst (hversions.trans (hknown.trans hfirst))

section Sample

/-- A workspace in which the link `w` points to one of two directories with a file each. -/
def linkReader : WorkspaceReader Bool where
  resolve target name := if name = "w" then some (if target then "b" else "a") else none
  scanWorkspace root states entries :=
    !states.isEmpty && entries = [⟨root, root, 1⟩]
  searchWorkspace _ _ states hits := !states.isEmpty && hits = []
  runGit _ _ states value := !states.isEmpty && value = none
  readWorkspaceFiles _ _ states files := !states.isEmpty && files = []

def treeQuery (known : Option WorkspaceVersion) : WorkspaceRequest DigestInput :=
  ⟨"w", true, false, false, 0, [], [], known, none⟩

def scanRun (i g n : ℕ) (root : String) : List (IndexAction Bool DigestInput) :=
  [.observe i, .lookupMiss i, .work i (.scan (.finish g ⟨n, n⟩ [⟨root, root, 1⟩])),
    .work i (.scan .check), .work i (.scan .number), .work i (.scan .write),
    .work i (.read ⟨n, n⟩ []), .conclude i, .insertCheck i false]

def treeReport (known : Option WorkspaceVersion) (root : String) (unchanged : Bool) :
    QueryReport DigestInput :=
  { request := treeQuery known
    root := root
    acknowledged := []
    response :=
      { workspace := "w"
        treeVersion := some ⟨0, 1⟩
        treeUnchanged := unchanged
        tree := if unchanged then [] else [⟨root, 1⟩]
        gitStatus := none
        diff := none
        recentCommits := []
        searchHits := []
        files := []
        stateDigest := ⟨"w", [⟨root, 1⟩], none, none, [], [], []⟩
        stateUnchanged := false }
    tree := [⟨root, 1⟩] }

theorem unchanged_tree_of_one_root : ∃ w : IndexWorld Bool DigestInput,
    (indexMachine linkReader 0 id).Reaches (fun _ _ => True) (.init false) w ∧
    ∃ earlier ∈ w.queries, ∃ later ∈ w.queries, ∃ sent ∈ earlier.answer, ∃ answer ∈ later.answer,
      answer.response.treeUnchanged = true ∧
        sent.parts.completeTree = answer.parts.completeTree := by
  have hrun : ((indexMachine linkReader 0 id).runWith (fun _ _ => true)
      ([.index "a", .arrive (treeQuery none)] ++ scanRun 0 0 0 "a" ++
        [.arrive (treeQuery (some ⟨0, 1⟩)), .observe 1, .lookupMiss 1, .work 1 (.scan (.hit 0)),
          .work 1 (.read ⟨0, 0⟩ []), .conclude 1, .insertCheck 1 false])
      (.init false)).any (fun w => decide (w.queries.map WorkspaceQuery.report =
        [some (treeReport none "a" false), some (treeReport (some ⟨0, 1⟩) "a" true)])) = true := by
    decide +kernel
  obtain ⟨w, hreach, hreports⟩ := exists_reports hrun
  obtain ⟨earlier, hearlier, hrequest, hroot, -, sent, hsent, hresponse, -⟩ :=
    WorkspaceQuery.of_report hreports List.mem_cons_self
  obtain ⟨later, hlater, hrequest', hroot', -, answer, hanswer, hresponse', -⟩ :=
    WorkspaceQuery.of_report hreports (List.mem_cons_of_mem _ List.mem_cons_self)
  have hunchanged : answer.response.treeUnchanged = true := by
    rw [hresponse']
    rfl
  refine ⟨w, hreach, earlier, hearlier, later, hlater, sent, hsent, answer, hanswer, hunchanged, ?_⟩
  refine (tree_version_identifies_tree_of_root Function.injective_id false hreach earlier hearlier
    later hlater sent hsent answer hanswer (hroot.trans hroot'.symm)).2 ?_ ?_ ?_ ?_ ?_ hunchanged
  · rw [hrequest]
    rfl
  · rw [hrequest']
    rfl
  · rw [hresponse]
    rfl
  · rw [hrequest', hresponse]
    rfl
  · rw [hrequest']
    rintro known ⟨⟩

/-- The link is pointed elsewhere between two queries. -/
theorem unchanged_tree_of_another_root : ∃ w : IndexWorld Bool DigestInput,
    (indexMachine linkReader 0 id).Reaches (fun _ _ => True) (.init false) w ∧
    ∃ earlier ∈ w.queries, ∃ later ∈ w.queries, ∃ sent ∈ earlier.answer, ∃ answer ∈ later.answer,
      earlier.request.workspace = later.request.workspace ∧
      sent.response.treeVersion = some ⟨0, 1⟩ ∧ answer.response.treeVersion = some ⟨0, 1⟩ ∧
      later.request.knownTreeVersion = some ⟨0, 1⟩ ∧ answer.response.treeUnchanged = true ∧
      sent.parts.completeTree ≠ answer.parts.completeTree := by
  have hrun : ((indexMachine linkReader 0 id).runWith (fun _ _ => true)
      ([.index "a", .arrive (treeQuery none)] ++ scanRun 0 0 0 "a" ++
        [.change true, .invalidate, .index "b", .arrive (treeQuery (some ⟨0, 1⟩))] ++
        scanRun 1 1 1 "b")
      (.init false)).any (fun w => decide (w.queries.map WorkspaceQuery.report =
        [some (treeReport none "a" false), some (treeReport (some ⟨0, 1⟩) "b" true)])) = true := by
    decide +kernel
  obtain ⟨w, hreach, hreports⟩ := exists_reports hrun
  obtain ⟨earlier, hearlier, hrequest, -, -, sent, hsent, hresponse, htree⟩ :=
    WorkspaceQuery.of_report hreports List.mem_cons_self
  obtain ⟨later, hlater, hrequest', -, -, answer, hanswer, hresponse', htree'⟩ :=
    WorkspaceQuery.of_report hreports (List.mem_cons_of_mem _ List.mem_cons_self)
  refine ⟨w, hreach, earlier, hearlier, later, hlater, sent, hsent, answer, hanswer, ?_⟩
  rw [hrequest, hrequest', hresponse, hresponse', htree, htree']
  exact ⟨rfl, rfl, rfl, rfl, rfl, by decide⟩

end Sample

end Asp
