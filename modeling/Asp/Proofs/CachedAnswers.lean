import Asp.Proofs.TreeVersions

/-! Answers from the caches. An acknowledged mutation lies before the generation in which a later
query starts, if a repeated request waits for the mutation's own invalidation. -/

namespace Asp

open Timeline

variable {φ δ : Type} [DecidableEq δ] {R : WorkspaceReader φ} {epoch : Uuid}
  {digest : DigestInput → δ}

/-- Mutations lie before the generation in which they were acknowledged. -/
structure IndexWorld.Acknowledges (w : IndexWorld φ δ) : Prop where
  position_le : ∀ m ∈ w.mutations, m.position ≤ w.timeline.now
  invalidated : ∀ m ∈ w.mutations, m.invalidated = true → m.position ≤ w.timeline.mark
  acknowledged : ∀ m ∈ w.mutations, m.acknowledged = true → m.position ≤ w.timeline.mark
  started_le : ∀ query ∈ w.queries, query.started ≤ w.timeline.generation
  queries : ∀ query ∈ w.queries, ∀ position ∈ query.acknowledged,
    position ≤ w.timeline.markOf query.started

theorem Timeline.markOf_generation (t : Timeline φ) : t.markOf t.generation = t.mark := by
  simp [markOf, marks, generation]

namespace IndexWorld

variable {w w' : IndexWorld φ δ}

theorem queryAct_frame {i : ℕ} {query : WorkspaceQuery δ} {action : IndexAction φ δ}
    (h : w.queryAct R epoch digest i query action query.phase = some w') :
    w'.timeline = w.timeline ∧ w'.mutations = w.mutations ∧
      ∃ phase, w'.queries = w.queries.set i { query with phase := phase } := by
  unfold queryAct at h
  split at h
  · cases h
    exact ⟨rfl, rfl, _, rfl⟩
  · obtain ⟨answer, -, rfl⟩ := Option.map_eq_some_iff.mp h
    exact ⟨rfl, rfl, _, rfl⟩
  · cases h
    exact ⟨rfl, rfl, _, rfl⟩
  · obtain ⟨result, -, rfl⟩ := Option.map_eq_some_iff.mp h
    exact ⟨rfl, rfl, _, rfl⟩
  · obtain ⟨parts, -, rfl⟩ := Option.map_eq_some_iff.mp h
    exact ⟨rfl, rfl, _, rfl⟩
  · split_ifs at h
    · cases h
      exact ⟨rfl, rfl, _, rfl⟩
    · cases h
      exact ⟨rfl, rfl, _, rfl⟩
  · cases h
    exact ⟨rfl, rfl, _, rfl⟩
  · cases h
  · cases h
    exact ⟨rfl, rfl, _, rfl⟩
  · cases h

omit [DecidableEq δ] in
theorem Acknowledges.init (state : φ) : (init state : IndexWorld φ δ).Acknowledges where
  position_le _ hm := (List.not_mem_nil hm).elim
  invalidated _ hm := (List.not_mem_nil hm).elim
  acknowledged _ hm := (List.not_mem_nil hm).elim
  started_le _ hquery := (List.not_mem_nil hquery).elim
  queries _ hquery := (List.not_mem_nil hquery).elim

omit [DecidableEq δ] in
theorem Acknowledges.later_queries (h : w.Acknowledges) {t : Timeline φ}
    (hlater : Later w.timeline t) :
    (∀ query ∈ w.queries, query.started ≤ t.generation) ∧
      ∀ query ∈ w.queries, ∀ position ∈ query.acknowledged, position ≤ t.markOf query.started := by
  refine ⟨fun query hquery => (h.started_le query hquery).trans hlater.generation_le,
    fun query hquery position hposition => ?_⟩
  rw [hlater.markOf_eq (h.started_le query hquery)]
  exact h.queries query hquery position hposition

omit [DecidableEq δ] in
theorem Acknowledges.change (h : w.Acknowledges) (state : φ) :
    ({ w with timeline := w.timeline.change state } : IndexWorld φ δ).Acknowledges where
  position_le m hm := (h.position_le m hm).trans (Later.change state w.timeline).now_le
  invalidated := h.invalidated
  acknowledged := h.acknowledged
  started_le := (h.later_queries (.change state _)).1
  queries := (h.later_queries (.change state _)).2

omit [DecidableEq δ] in
theorem Acknowledges.invalidate (h : w.Acknowledges) :
    ({ w with timeline := w.timeline.invalidate } : IndexWorld φ δ).Acknowledges where
  position_le := h.position_le
  invalidated m hm _ := h.position_le m hm
  acknowledged m hm _ := h.position_le m hm
  started_le := (h.later_queries (.invalidate _)).1
  queries := (h.later_queries (.invalidate _)).2

omit [DecidableEq δ] in
theorem Acknowledges.setMutation (h : w.Acknowledges) (i : ℕ) {mutation : FileMutation}
    (hposition : mutation.position ≤ w.timeline.mark) : (w.setMutation i mutation).Acknowledges := by
  have hmem : ∀ m ∈ w.mutations.set i mutation, m ∈ w.mutations ∨ m = mutation :=
    fun m hm => List.mem_or_eq_of_mem_set hm
  refine ⟨fun m hm => ?_, fun m hm hflag => ?_, fun m hm hflag => ?_, h.started_le, h.queries⟩
  · rcases hmem m hm with hold | rfl
    · exact h.position_le m hold
    · exact hposition.trans w.timeline.mark_le
  · rcases hmem m hm with hold | rfl
    · exact h.invalidated m hold hflag
    · exact hposition
  · rcases hmem m hm with hold | rfl
    · exact h.acknowledged m hold hflag
    · exact hposition

omit [DecidableEq δ] in
theorem worldAct_acknowledges {action : IndexAction φ δ} (h : w.Acknowledges)
    (htimely : w.Timely action) (hact : w.worldAct R action = some w') : w'.Acknowledges := by
  cases action with
  | change state =>
    cases hact
    exact h.change state
  | invalidate =>
    cases hact
    exact h.invalidate
  | commit state =>
    cases hact
    have hchanged := h.change state
    refine ⟨fun m hm => ?_, fun m hm hflag => ?_, fun m hm hflag => ?_, hchanged.started_le,
      hchanged.queries⟩
    · rcases List.mem_append.mp hm with hold | hnew
      · exact hchanged.position_le m hold
      · rw [List.mem_singleton.mp hnew]
    · rcases Parties.mem_concat hm with hold | rfl
      · exact hchanged.invalidated m hold hflag
      · cases hflag
    · rcases Parties.mem_concat hm with hold | rfl
      · exact hchanged.acknowledged m hold hflag
      · cases hflag
  | invalidateAfter m =>
    obtain ⟨mutation, hmutation, rfl⟩ := Option.map_eq_some_iff.mp hact
    exact h.invalidate.setMutation m (h.position_le mutation (List.mem_of_getElem? hmutation))
  | stored m =>
    obtain ⟨mutation, hmutation, hstored⟩ := Option.bind_eq_some_iff.mp hact
    split_ifs at hstored with hinvalidated
    cases hstored
    exact h.setMutation m (h.invalidated mutation (List.mem_of_getElem? hmutation) hinvalidated)
  | replayed m =>
    obtain ⟨mutation, hmutation, rfl⟩ := Option.map_eq_some_iff.mp hact
    exact h.setMutation m (h.invalidated mutation (List.mem_of_getElem? hmutation)
      (htimely mutation hmutation))
  | index root =>
    rw [worldAct] at hact
    split_ifs at hact
    cases hact
    exact ⟨h.position_le, h.invalidated, h.acknowledged, h.started_le, h.queries⟩
  | arrive request =>
    rw [worldAct] at hact
    split_ifs at hact
    obtain ⟨root, -, rfl⟩ := Option.map_eq_some_iff.mp hact
    refine ⟨h.position_le, h.invalidated, h.acknowledged, fun query hquery => ?_,
      fun query hquery position hposition => ?_⟩
    · rcases List.mem_append.mp hquery with hold | hnew
      · exact h.started_le query hold
      · rw [List.mem_singleton.mp hnew]
    · rcases List.mem_append.mp hquery with hold | hnew
      · exact h.queries query hold position hposition
      · -- a new query starts in the current generation
        rw [List.mem_singleton.mp hnew] at hposition ⊢
        obtain ⟨m, hm, rfl⟩ := List.mem_map.mp hposition
        obtain ⟨hm, hacknowledged⟩ := List.mem_filter.mp hm
        rw [Timeline.markOf_generation]
        exact h.acknowledged m hm hacknowledged
  | observe i => cases hact
  | lookupHit i current => cases hact
  | lookupMiss i => cases hact
  | work i action => cases hact
  | conclude i => cases hact
  | insertCheck i fits => cases hact
  | insertWrite i evicted => cases hact
  | fail i => cases hact

theorem act_acknowledges {action : IndexAction φ δ} (h : w.Acknowledges)
    (htimely : w.Timely action) (hact : w.act R epoch digest action = some w') :
    w'.Acknowledges := by
  rw [act] at hact
  split at hact
  · exact worldAct_acknowledges h htimely hact
  · rename_i i htarget
    obtain ⟨query, hquery, hact⟩ := Option.bind_eq_some_iff.mp hact
    obtain ⟨htimeline, hmutations, phase, hqueries⟩ := queryAct_frame hact
    have hmem := List.mem_of_getElem? hquery
    refine ⟨?_, ?_, ?_, fun other hother => ?_, fun other hother position hposition => ?_⟩
    · rw [htimeline, hmutations]
      exact h.position_le
    · rw [htimeline, hmutations]
      exact h.invalidated
    · rw [htimeline, hmutations]
      exact h.acknowledged
    · rw [htimeline]
      rw [hqueries] at hother
      rcases List.mem_or_eq_of_mem_set hother with hold | rfl
      · exact h.started_le other hold
      · exact h.started_le query hmem
    · rw [htimeline]
      rw [hqueries] at hother
      rcases List.mem_or_eq_of_mem_set hother with hold | rfl
      · exact h.queries other hold position hposition
      · exact h.queries query hmem position hposition

end IndexWorld

theorem WorkspaceQuery.Answered.response {t : Timeline φ} {published : List TreePublication}
    {query : WorkspaceQuery δ} {answer : WorkspaceAnswer δ}
    (h : query.Answered R epoch digest True t published answer) :
    answer.response = workspaceResponse epoch digest query.request answer.parts ∧
      answer.parts.Computed R t (t.markOf query.started) query.root query.request.workspace
        query.request.key := by
  obtain ⟨workspace, hname, hparts, hresponse⟩ := h
  obtain rfl := hname trivial
  refine ⟨?_, hparts.computed⟩
  rcases hresponse with ⟨-, hresponse⟩ | ⟨hknown, hresponse⟩
  · exact hresponse
  · rw [hresponse, workspaceResponse, if_pos hknown]

/-- Whatever the interleaving, a response is the one for parts that the computations can
return when they all run after the last invalidation before the query started, and after every
mutation that was acknowledged before. -/
theorem cached_answers_are_fresh (state : φ) {w : IndexWorld φ δ}
    (h : (indexMachine R epoch digest).Reaches IndexWorld.Timely (.init state) w) :
    ∀ query ∈ w.queries, ∀ answer ∈ query.answer,
      answer.response = workspaceResponse epoch digest query.request answer.parts ∧
      answer.parts.Computed R w.timeline (w.timeline.markOf query.started) query.root
        query.request.workspace query.request.key ∧
      ∀ position ∈ query.acknowledged, answer.parts.Computed R w.timeline position query.root
        query.request.workspace query.request.key := by
  have hsound : w.Sound R epoch digest True :=
    h.invariant (P := IndexWorld.Sound R epoch digest True) (.init state) fun _ w₁ _ htimely hact hw =>
      IndexWorld.act_sound hw (fun i current query hlookup hquery _ => by
        rw [hlookup] at htimely
        exact htimely query hquery) hact
  have hacknowledges : w.Acknowledges :=
    h.invariant (P := IndexWorld.Acknowledges) (.init state)
      fun _ _ _ htimely hact hw => IndexWorld.act_acknowledges hw htimely hact
  intro query hquery answer hanswer
  obtain ⟨hresponse, hcomputed⟩ :=
    (WorkspaceQuery.Answered.of_answer (hsound.queries query hquery) hanswer).response
  exact ⟨hresponse, hcomputed, fun position hposition =>
    hcomputed.mono (hacknowledges.queries query hquery position hposition)⟩

section Sample

/-- A directory with two names and one file, whose size is the state. -/
def sizeReader : WorkspaceReader Bool where
  resolve _ name := if name = "a" ∨ name = "b" then some "r" else none
  scanWorkspace root states entries :=
    !states.isEmpty && states.all fun large => entries = [⟨root, root, if large then 2 else 1⟩]
  searchWorkspace _ _ states hits := !states.isEmpty && hits = []
  runGit _ _ states value := !states.isEmpty && value = none
  readWorkspaceFiles _ _ states files := !states.isEmpty && files = []

def sizeQuery (name : String) (known : Option DigestInput) : WorkspaceRequest DigestInput :=
  ⟨name, true, false, false, 0, [], [], none, known⟩

def cachedRun (i g n : ℕ) : List (IndexAction Bool DigestInput) :=
  [.observe i, .lookupMiss i, .work i (.scan (.hit g)), .work i (.read ⟨n, n⟩ []), .conclude i,
    .insertCheck i false]

def smallDigest (name : String) : DigestInput := ⟨name, [⟨"r", 1⟩], none, none, [], [], []⟩

def smallReport (acknowledged : List ℕ) : QueryReport DigestInput :=
  { request := sizeQuery "a" none
    root := "r"
    acknowledged := acknowledged
    response :=
      { workspace := "a"
        treeVersion := some ⟨0, 1⟩
        treeUnchanged := false
        tree := [⟨"r", 1⟩]
        gitStatus := none
        diff := none
        recentCommits := []
        searchHits := []
        files := []
        stateDigest := smallDigest "a"
        stateUnchanged := false }
    tree := [⟨"r", 1⟩] }

def IndexAction.plain : IndexAction φ δ → Bool
  | .replayed _ | .lookupHit _ _ => false
  | _ => true

omit [DecidableEq δ] in
theorem IndexWorld.timely_of_plain (w : IndexWorld φ δ) (action : IndexAction φ δ)
    (h : action.plain = true) : w.Timely action := by
  cases action with
  | replayed m => cases h
  | lookupHit i current => cases h
  | _ => trivial

/-- A mutation is stored, and the tree is scanned and then taken from the cache. -/
theorem cached_answer_after_stored : ∃ w : IndexWorld Bool DigestInput,
    (indexMachine sizeReader 0 id).Reaches IndexWorld.Timely (.init true) w ∧
    ∃ query ∈ w.queries, ∃ answer ∈ query.answer, 1 ∈ query.acknowledged ∧
      answer.parts.Computed sizeReader w.timeline 1 query.root query.request.workspace
        query.request.key := by
  have hrun : ((indexMachine sizeReader 0 id).runWith (fun _ action => action.plain)
      ([.index "r", .commit false, .invalidateAfter 0, .stored 0, .arrive (sizeQuery "a" none)] ++
        scanRun 0 1 1 "r" ++ [.arrive (sizeQuery "a" none)] ++ cachedRun 1 1 1)
      (.init true)).any (fun w => decide (w.queries.map WorkspaceQuery.report =
        [some (smallReport [1]), some (smallReport [1])])) = true := by
    decide +kernel
  obtain ⟨w, hreach, hreports⟩ :=
    (indexMachine sizeReader 0 id).exists_reaches IndexWorld.timely_of_plain hrun
  obtain ⟨query, hquery, -, -, hacknowledged, answer, hanswer, -⟩ :=
    WorkspaceQuery.of_report (of_decide_eq_true hreports)
      (List.mem_cons_of_mem _ List.mem_cons_self)
  have hone : 1 ∈ query.acknowledged := by
    rw [hacknowledged]
    exact List.mem_singleton_self 1
  exact ⟨w, hreach, query, hquery, answer, hanswer, hone,
    (cached_answers_are_fresh true hreach query hquery answer hanswer).2.2 1 hone⟩

theorem no_small_scan {t : Timeline Bool} (ht : t.history = [false, true]) {parts : StateParts}
    {name : String} {known : Option DigestInput}
    (h : parts.Computed sizeReader t 1 "r" name (sizeQuery name known).key) :
    parts.completeTree = [⟨"r", 2⟩] := by
  obtain ⟨tree, hscanned, ⟨hstart, -, -⟩, htest⟩ := h.scan rfl
  dsimp only [sizeReader] at htest
  simp only [Bool.and_eq_true, Bool.not_eq_true', List.all_eq_true, decide_eq_true_eq] at htest
  obtain ⟨large, hlarge⟩ := List.isEmpty_eq_false_iff_exists_mem.mp htest.1
  have hentries := htest.2 large hlarge
  -- every state from position 1 on is the large file
  have htrue : large = true := by
    have hmem := List.mem_of_mem_drop (i := tree.span.start - 1) (l := t.history.drop 1) <| by
      rw [List.drop_drop, Nat.add_sub_cancel' hstart]
      exact List.mem_of_mem_take hlarge
    rw [ht] at hmem
    exact List.mem_singleton.mp hmem
  rw [htrue] at hentries
  rw [StateParts.completeTree, hscanned]
  simp [hentries]

/-- A request is repeated between the commit and the invalidation of its first call; and a
digest made for one name of a directory is hit by another. -/
theorem cached_answers_of_before :
    (∃ w : IndexWorld Bool DigestInput,
      (indexMachine sizeReader 0 id).Reaches (fun _ _ => True) (.init false) w ∧
      ∃ query ∈ w.queries, ∃ answer ∈ query.answer, ∃ position ∈ query.acknowledged,
        ∀ parts : StateParts, parts.Computed sizeReader w.timeline position query.root
            query.request.workspace query.request.key →
          answer.response ≠ workspaceResponse 0 id query.request parts) ∧
    ∃ w : IndexWorld Bool DigestInput,
      (indexMachine sizeReader 0 id).Reaches (fun _ _ => True) (.init false) w ∧
      ∃ query ∈ w.queries, ∃ answer ∈ query.answer, ∀ parts : StateParts,
        answer.response ≠ workspaceResponse 0 id query.request parts := by
  constructor
  · have hrun : ((indexMachine sizeReader 0 id).runWith (fun _ _ => true)
        ([.index "r", .arrive (sizeQuery "a" none)] ++ scanRun 0 0 0 "r" ++
          [.commit true, .replayed 0, .arrive (sizeQuery "a" none)] ++ cachedRun 1 0 1)
        (.init false)).any (fun w => decide (w.timeline.history = [false, true] ∧
          w.queries.map WorkspaceQuery.report =
            [some (smallReport []), some (smallReport [1])])) = true := by
      decide +kernel
    obtain ⟨w, hreach, hfound⟩ :=
      (indexMachine sizeReader 0 id).exists_reaches (fun _ _ _ => trivial) hrun
    obtain ⟨hhistory, hreports⟩ := of_decide_eq_true hfound
    obtain ⟨query, hquery, hrequest, hroot, hacknowledged, answer, hanswer, hresponse, -⟩ :=
      WorkspaceQuery.of_report hreports (List.mem_cons_of_mem _ List.mem_cons_self)
    refine ⟨w, hreach, query, hquery, answer, hanswer, 1, ?_, fun parts hparts heq => ?_⟩
    · rw [hacknowledged]
      exact List.mem_singleton_self 1
    · rw [hrequest, hroot] at hparts
      have hdigest := congrArg (fun response => response.stateDigest.tree) heq
      rw [hresponse, hrequest] at hdigest
      have htree : (parts.digestInput "a" (sizeQuery "a" none).key).tree = parts.completeTree := rfl
      have hsmall := hdigest.trans (htree.trans (no_small_scan hhistory hparts))
      exact absurd hsmall (by decide)
  · have hrun : ((indexMachine sizeReader 0 id).runWith (fun _ _ => true)
        ([.index "r", .arrive (sizeQuery "a" none)] ++ (scanRun 0 0 0 "r").dropLast ++
          [.insertCheck 0 true, .insertWrite 0 [], .arrive (sizeQuery "b" (smallDigest "a")),
            .observe 1, .lookupHit 1 0])
        (.init false)).any (fun w => decide (w.queries.map WorkspaceQuery.report =
          [some (smallReport []), some
            { smallReport [] with
              request := sizeQuery "b" (smallDigest "a")
              response := .unchanged "b" (some ⟨0, 1⟩) (smallDigest "a") }])) = true := by
      decide +kernel
    obtain ⟨w, hreach, hreports⟩ := exists_reports hrun
    obtain ⟨query, hquery, hrequest, -, -, answer, hanswer, hresponse, -⟩ :=
      WorkspaceQuery.of_report hreports (List.mem_cons_of_mem _ List.mem_cons_self)
    refine ⟨w, hreach, query, hquery, answer, hanswer, fun parts heq => ?_⟩
    have hname := congrArg (fun response => response.stateDigest.workspace) heq
    rw [hresponse, hrequest] at hname
    have hnames : "a" = "b" := hname
    exact absurd hnames (by decide)

end Sample

end Asp
