import Asp.Lib.Parties
import Asp.Proofs.WorkspaceIndex

/-! The index over a whole run: every step of every query, change and invalidation keeps the
caches, the publications and the queries sound. -/

namespace Asp

open Timeline

variable {φ δ : Type} [DecidableEq δ] {R : WorkspaceReader φ} {epoch : Uuid}
  {digest : DigestInput → δ} {t t' : Timeline φ} {published published' : List TreePublication}

/-- The parts of an answer were computed since the query started, for some name of the
workspace; the response is the one for these parts, or a digest hit. With `strict` the name is
the one in the request. -/
def WorkspaceQuery.Answered (R : WorkspaceReader φ) (epoch : Uuid) (digest : DigestInput → δ)
    (strict : Prop) (t : Timeline φ) (published : List TreePublication) (query : WorkspaceQuery δ)
    (answer : WorkspaceAnswer δ) : Prop :=
  ∃ workspace, (strict → workspace = query.request.workspace) ∧
    answer.parts.Sound R t published query.started query.root workspace query.request.key ∧
    ((workspace = query.request.workspace ∧
        answer.response = workspaceResponse epoch digest query.request answer.parts) ∨
      (query.request.knownStateDigest =
          some (digest (answer.parts.digestInput workspace query.request.key)) ∧
        answer.response = .unchanged query.request.workspace
          (answer.parts.version.map fun generation => ⟨epoch, generation⟩)
          (digest (answer.parts.digestInput workspace query.request.key))))

def WorkspaceQuery.Sound (R : WorkspaceReader φ) (epoch : Uuid) (digest : DigestInput → δ)
    (strict : Prop) (t : Timeline φ) (published : List TreePublication) (query : WorkspaceQuery δ) :
    Prop :=
  query.started ≤ t.generation ∧
    match query.phase with
    | .arrived | .failed => True
    | .looking observed => query.started ≤ observed ∧ observed ≤ t.generation
    | .working observed since work =>
        query.started ≤ observed ∧ observed ≤ t.generation ∧ t.markOf observed ≤ since ∧
          work.Sound R t published observed query.root query.request.workspace query.request.key
    | .concluded observed parts | .inserting observed parts =>
        query.started ≤ observed ∧
          parts.Sound R t published observed query.root query.request.workspace query.request.key
    | .answered answer => query.Answered R epoch digest strict t published answer

variable {strict : Prop}

theorem WorkspaceQuery.Sound.later {query : WorkspaceQuery δ} (hlater : Later t t')
    (hsub : published ⊆ published') (h : query.Sound R epoch digest strict t published) :
    query.Sound R epoch digest strict t' published' := by
  obtain ⟨hstarted, hphase⟩ := h
  refine ⟨hstarted.trans hlater.generation_le, ?_⟩
  split
  · trivial
  · trivial
  · rename_i observed hquery
    rw [hquery] at hphase
    exact ⟨hphase.1, hphase.2.trans hlater.generation_le⟩
  · rename_i observed since work hquery
    rw [hquery] at hphase
    obtain ⟨hle, hobserved, hsince, hwork⟩ := hphase
    refine ⟨hle, hobserved.trans hlater.generation_le, ?_, hwork.later hobserved hlater hsub⟩
    rwa [hlater.markOf_eq hobserved]
  · rename_i observed parts hquery
    rw [hquery] at hphase
    exact ⟨hphase.1, hphase.2.later hlater hsub⟩
  · rename_i observed parts hquery
    rw [hquery] at hphase
    exact ⟨hphase.1, hphase.2.later hlater hsub⟩
  · rename_i answer hquery
    rw [hquery] at hphase
    obtain ⟨workspace, hstrict, hparts, hresponse⟩ := hphase
    exact ⟨workspace, hstrict, hparts.later hlater hsub, hresponse⟩

structure IndexWorld.Sound (R : WorkspaceReader φ) (epoch : Uuid) (digest : DigestInput → δ)
    (strict : Prop) (w : IndexWorld φ δ) : Prop where
  published : Published R w.timeline w.caches w.published
  caches : ∀ root, (w.caches root).Sound R digest w.timeline w.published root
  queries : ∀ query ∈ w.queries, query.Sound R epoch digest strict w.timeline w.published

namespace IndexWorld

variable {w w' : IndexWorld φ δ}

theorem Sound.init (state : φ) : (init state : IndexWorld φ δ).Sound R epoch digest strict where
  published := ⟨fun p hp => (List.not_mem_nil hp).elim, fun p hp => (List.not_mem_nil hp).elim,
    fun p hp => (List.not_mem_nil hp).elim⟩
  caches root := by
    refine ⟨?_, ?_, ?_, ?_⟩
    · rintro p ⟨⟩
    · rintro searches entry ⟨⟩
    · rintro args entry ⟨⟩
    · rintro key entry ⟨⟩
  queries query hquery := (List.not_mem_nil hquery).elim

theorem Sound.later (h : w.Sound R epoch digest strict) {timeline : Timeline φ}
    {indexed : List String} {mutations : List FileMutation} (hlater : Later w.timeline timeline) :
    (⟨timeline, indexed, w.caches, w.published, w.queries, mutations⟩ : IndexWorld φ δ).Sound
      R epoch digest strict where
  published := h.published.later hlater
  caches root := (h.caches root).later hlater (List.Subset.refl _)
  queries query hquery := (h.queries query hquery).later hlater (List.Subset.refl _)

theorem Sound.setPhase (h : w.Sound R epoch digest strict) (i : ℕ) (query : WorkspaceQuery δ)
    (phase : QueryPhase δ)
    (hphase : ({ query with phase := phase } : WorkspaceQuery δ).Sound R epoch digest strict
      w.timeline w.published) :
    (w.setPhase i query phase).Sound R epoch digest strict where
  published := h.published
  caches := h.caches
  queries other hother := by
    rcases List.mem_or_eq_of_mem_set hother with hold | rfl
    · exact h.queries other hold
    · exact hphase

section

variable (h : w.Sound R epoch digest strict)

include h

theorem worldAct_sound {action : IndexAction φ δ} (hact : w.worldAct R action = some w') :
    w'.Sound R epoch digest strict := by
  cases action with
  | change state =>
    cases hact
    exact h.later (.change state _)
  | invalidate =>
    cases hact
    exact h.later (.invalidate _)
  | commit state =>
    cases hact
    exact h.later (.change state _)
  | invalidateAfter m =>
    obtain ⟨mutation, -, rfl⟩ := Option.map_eq_some_iff.mp hact
    exact h.later (.invalidate _)
  | stored m =>
    obtain ⟨mutation, -, hmutation⟩ := Option.bind_eq_some_iff.mp hact
    split_ifs at hmutation
    cases hmutation
    exact h.later (.refl _)
  | replayed m =>
    obtain ⟨mutation, -, rfl⟩ := Option.map_eq_some_iff.mp hact
    exact h.later (.refl _)
  | index root =>
    rw [worldAct] at hact
    split_ifs at hact
    cases hact
    exact h.later (.refl _)
  | arrive request =>
    rw [worldAct] at hact
    split_ifs at hact
    obtain ⟨root, -, rfl⟩ := Option.map_eq_some_iff.mp hact
    refine ⟨h.published, h.caches, fun query hquery => ?_⟩
    rcases Parties.mem_concat hquery with hold | rfl
    · exact h.queries query hold
    · exact ⟨le_rfl, trivial⟩
  | observe i => cases hact
  | lookupHit i current => cases hact
  | lookupMiss i => cases hact
  | work i action => cases hact
  | conclude i => cases hact
  | insertCheck i fits => cases hact
  | insertWrite i evicted => cases hact
  | fail i => cases hact

theorem lookup_sound {query : WorkspaceQuery δ} {observed current : ℕ} {answer : WorkspaceAnswer δ}
    (hstarted : query.started ≤ observed) (hsame : strict → w.SameWorkspace query)
    (hact : w.lookup epoch query observed current = some answer) :
    query.Answered R epoch digest strict w.timeline w.published answer := by
  rw [lookup] at hact
  split at hact
  · rename_i known entry hknown hentry
    split_ifs at hact with hguard
    cases hact
    obtain ⟨-, hcurrent, -, hdigest, hobserved⟩ := hguard
    obtain ⟨hparts, hmade, hversion⟩ := (h.caches query.root).digest _ entry hentry
    have hle : query.started ≤ entry.observed := hobserved ▸ hstarted.trans hcurrent
    refine ⟨entry.workspace, fun hs => hsame hs entry hentry, hparts.mono hle, .inr ⟨?_, ?_⟩⟩
    · rw [hknown, ← hdigest, hmade]
    · rw [← hdigest, hmade, hversion]
  · cases hact

theorem queryAct_sound {i : ℕ} {query : WorkspaceQuery δ} {action : IndexAction φ δ}
    (hquery : query.Sound R epoch digest strict w.timeline w.published)
    (hsame : ∀ current, action = .lookupHit i current → strict → w.SameWorkspace query)
    (hact : w.queryAct R epoch digest i query action query.phase = some w')
    (htarget : target action = some i) : w'.Sound R epoch digest strict := by
  obtain ⟨hstarted, hphase⟩ := hquery
  unfold queryAct at hact
  split at hact
  · cases hact
    exact h.setPhase i query _ ⟨hstarted, hstarted, le_rfl⟩
  · rename_i current observed hlooking
    rw [hlooking] at hphase
    obtain ⟨answer, hlookup, rfl⟩ := Option.map_eq_some_iff.mp hact
    cases htarget
    exact h.setPhase _ query _ ⟨hstarted, lookup_sound h hphase.1 (hsame current rfl) hlookup⟩
  · rename_i observed hlooking
    rw [hlooking] at hphase
    cases hact
    refine h.setPhase i query _ ⟨hstarted, hphase.1, hphase.2, markOf_le_now hphase.2, ?_⟩
    exact ⟨trivial, fun _ => trivial, fun files hfiles => by cases hfiles⟩
  · rename_i action observed since work hworking
    rw [hworking] at hphase
    obtain ⟨hle, hobserved, hsince, hwork⟩ := hphase
    obtain ⟨⟨work', cache', new⟩, hwork', rfl⟩ := Option.map_eq_some_iff.mp hact
    have hview : (w.view query observed since).Sound := ⟨hobserved, hsince⟩
    have hstep := workAct_sound hview h.published (h.caches query.root) hwork hwork'
    refine ⟨hstep.published, fun root => ?_, fun other hother => ?_⟩
    · dsimp only [setCache]
      rw [Function.update_apply]
      split_ifs with hroot
      · rw [hroot]
        exact hstep.cache
      · exact (h.caches root).later (.refl _) (List.subset_append_right new _)
    · rcases List.mem_or_eq_of_mem_set hother with hold | rfl
      · exact (h.queries other hold).later (.refl _) (List.subset_append_right new _)
      · exact ⟨hstarted, hle, hobserved, hsince, hstep.work⟩
  · rename_i observed since work hworking
    rw [hworking] at hphase
    obtain ⟨hle, hobserved, -, hwork⟩ := hphase
    obtain ⟨parts, hparts, rfl⟩ := Option.map_eq_some_iff.mp hact
    exact h.setPhase i query _ ⟨hstarted, hle, hwork.parts_sound hobserved hparts⟩
  · rename_i fits observed parts hconcluded
    rw [hconcluded] at hphase
    split_ifs at hact
    · cases hact
      exact h.setPhase i query _ ⟨hstarted, hphase⟩
    · cases hact
      exact h.setPhase i query _ ⟨hstarted, query.request.workspace, fun _ => rfl, hphase.2.mono hphase.1,
        .inl ⟨rfl, rfl⟩⟩
  · rename_i evicted observed parts hinserting
    rw [hinserting] at hphase
    cases hact
    have hanswered := h.setPhase i query (.answered (answer epoch digest query parts))
      ⟨hstarted, query.request.workspace, fun _ => rfl, hphase.2.mono hphase.1, .inl ⟨rfl, rfl⟩⟩
    refine ⟨hanswered.published.update_self, fun root => ?_, hanswered.queries⟩
    dsimp only [setCache]
    rw [Function.update_apply]
    split_ifs with hroot
    · rw [hroot]
      have hcache := h.caches query.root
      refine ⟨hcache.snapshot, hcache.search, hcache.git, fun key entry hentry => ?_⟩
      rcases insertEvicting_eq_some hentry with ⟨rfl, rfl⟩ | hold
      · exact ⟨hphase.2, rfl, rfl⟩
      · exact hcache.digest key entry hold
    · exact h.caches root
  · cases hact
  · cases hact
    exact h.setPhase i query _ ⟨hstarted, trivial⟩
  · cases hact

theorem act_sound {action : IndexAction φ δ}
    (hsame : ∀ i current query, action = .lookupHit i current → w.queries[i]? = some query →
      strict → w.SameWorkspace query) (hact : w.act R epoch digest action = some w') :
    w'.Sound R epoch digest strict := by
  rw [act] at hact
  split at hact
  · exact worldAct_sound h hact
  · rename_i i htarget
    obtain ⟨query, hquery, hact⟩ := Option.bind_eq_some_iff.mp hact
    exact queryAct_sound h (h.queries query (List.mem_of_getElem? hquery))
      (fun current hlookup => hsame i current query hlookup hquery) hact htarget

end

end IndexWorld

/-- What can be seen of a query that was answered, and the tree that it is about. -/
structure QueryReport (δ : Type) where
  request : WorkspaceRequest δ
  root : String
  acknowledged : List ℕ
  response : WorkspaceResponse δ
  tree : List WorkspaceTreeEntry
  deriving DecidableEq

def WorkspaceQuery.report (query : WorkspaceQuery δ) : Option (QueryReport δ) :=
  query.answer.map fun answer =>
    ⟨query.request, query.root, query.acknowledged, answer.response, answer.parts.completeTree⟩

omit [DecidableEq δ] in
theorem WorkspaceQuery.of_report {queries : List (WorkspaceQuery δ)}
    {reports : List (Option (QueryReport δ))} (h : queries.map WorkspaceQuery.report = reports)
    {report : QueryReport δ} (hreport : some report ∈ reports) :
    ∃ query ∈ queries, query.request = report.request ∧ query.root = report.root ∧
      query.acknowledged = report.acknowledged ∧ ∃ answer ∈ query.answer,
        answer.response = report.response ∧ answer.parts.completeTree = report.tree := by
  rw [← h] at hreport
  obtain ⟨query, hquery, hfound⟩ := List.mem_map.mp hreport
  obtain ⟨answer, hanswer, rfl⟩ := Option.map_eq_some_iff.mp hfound
  exact ⟨query, hquery, rfl, rfl, rfl, answer, hanswer, rfl, rfl⟩

theorem exists_reports {steps : List (IndexAction φ δ)} {w : IndexWorld φ δ}
    {reports : List (Option (QueryReport δ))}
    (h : ((indexMachine R epoch digest).runWith (fun _ _ => true) steps w).any
      (fun w => decide (w.queries.map WorkspaceQuery.report = reports)) = true) :
    ∃ w', (indexMachine R epoch digest).Reaches (fun _ _ => True) w w' ∧
      w'.queries.map WorkspaceQuery.report = reports := by
  obtain ⟨w', hreach, hreports⟩ :=
    (indexMachine R epoch digest).exists_reaches (fun _ _ _ => trivial) h
  exact ⟨w', hreach, of_decide_eq_true hreports⟩

end Asp
