import Asp.Spec.WorkspaceIndex

/-! What is in the caches of the workspace index: an entry that is tagged with a generation was
computed after that generation began, and a version of a root belongs to one tree. -/

namespace Asp

open Timeline

variable {φ δ : Type} {R : WorkspaceReader φ} {t t' : Timeline φ}
  {published published' : List TreePublication} {root workspace : String} {key : WorkspaceDigestKey}

variable {g : ℕ} {parts : StateParts}

structure TreePublication.Sound (R : WorkspaceReader φ) (t : Timeline φ) (p : TreePublication) :
    Prop where
  observed_le : p.observed ≤ t.generation
  scan : t.Computed (t.markOf p.observed) p.span (R.scanWorkspace p.root · p.entries)

theorem TreePublication.Sound.later {p : TreePublication} (h : p.Sound R t) (hlater : Later t t') :
    p.Sound R t' :=
  ⟨h.observed_le.trans hlater.generation_le, h.scan.since_later h.observed_le hlater⟩

structure Published (R : WorkspaceReader φ) (t : Timeline φ) (caches : String → WorkspaceTreeCache δ)
    (published : List TreePublication) : Prop where
  sound : ∀ p ∈ published, p.Sound R t
  numbered : ∀ p ∈ published, p.version ≤ (caches p.root).nextGeneration
  unique : ∀ p ∈ published, ∀ p' ∈ published, p.root = p'.root → p.version = p'.version → p = p'

theorem Published.later {caches : String → WorkspaceTreeCache δ} (h : Published R t caches published)
    (hlater : Later t t') : Published R t' caches published :=
  ⟨fun p hp => (h.sound p hp).later hlater, h.numbered, h.unique⟩

/-- The tree that has a version is the one that was published with it. -/
def Scanned.Versioned (published : List TreePublication) (root : String) (tree : Scanned) : Prop :=
  ∀ version, tree.version = some version → ∃ p ∈ published, p.root = root ∧ p.version = version ∧
    p.entries = tree.entries ∧ p.span = tree.span

theorem Scanned.Versioned.mono {tree : Scanned} (h : tree.Versioned published root)
    (hsub : published ⊆ published') : tree.Versioned published' root := by
  intro version hversion
  obtain ⟨p, hp, hfields⟩ := h version hversion
  exact ⟨p, hsub hp, hfields⟩

theorem TreePublication.versioned {p : TreePublication} (h : p ∈ published) :
    Scanned.Versioned published p.root ⟨p.entries, some p.version, p.span⟩ := by
  rintro version ⟨⟩
  exact ⟨p, h, rfl, rfl, rfl, rfl⟩

theorem Scanned.versioned_none {entries : List ScannedFile} {span : Span} :
    Scanned.Versioned published root ⟨entries, none, span⟩ := by
  rintro version ⟨⟩

theorem StateParts.Computed.mono {a b : ℕ} (h : parts.Computed R t a root workspace key)
    (hle : b ≤ a) : parts.Computed R t b root workspace key where
  scan hscans := by
    obtain ⟨tree, htree, hscan⟩ := h.scan hscans
    exact ⟨tree, htree, hscan.mono hle⟩
  search := h.search
  git command hasks := by
    obtain ⟨output, houtput, hgit⟩ := h.git command hasks
    exact ⟨output, houtput, hgit.mono hle⟩
  files := h.files.mono hle
  noScan := h.noScan
  noSearch := h.noSearch
  noGit := h.noGit

theorem StateParts.Computed.later {bound : ℕ} (h : parts.Computed R t bound root workspace key)
    (hlater : Later t t') : parts.Computed R t' bound root workspace key where
  scan hscans := by
    obtain ⟨tree, htree, hscan⟩ := h.scan hscans
    exact ⟨tree, htree, hscan.later hlater⟩
  search hsearches := by
    obtain ⟨tree, hits, htree, hhits, hsearch⟩ := h.search hsearches
    exact ⟨tree, hits, htree, hhits, hsearch.later hlater⟩
  git command hasks := by
    obtain ⟨output, houtput, hgit⟩ := h.git command hasks
    exact ⟨output, houtput, hgit.later hlater⟩
  files := h.files.later hlater
  noScan := h.noScan
  noSearch := h.noSearch
  noGit := h.noGit

/-- Parts that were computed since a generation, with a version that is theirs. -/
structure StateParts.Sound (R : WorkspaceReader φ) (t : Timeline φ)
    (published : List TreePublication) (g : ℕ) (root workspace : String) (key : WorkspaceDigestKey)
    (parts : StateParts) : Prop where
  generation_le : g ≤ t.generation
  computed : parts.Computed R t (t.markOf g) root workspace key
  versioned : ∀ tree, parts.scanned = some tree → tree.Versioned published root

theorem StateParts.Sound.later (h : parts.Sound R t published g root workspace key)
    (hlater : Later t t') (hsub : published ⊆ published') : parts.Sound R t' published' g root
    workspace key where
  generation_le := h.generation_le.trans hlater.generation_le
  computed := by
    rw [hlater.markOf_eq h.generation_le]
    exact h.computed.later hlater
  versioned tree htree := (h.versioned tree htree).mono hsub

theorem StateParts.Sound.mono {g' : ℕ} (h : parts.Sound R t published g' root workspace key)
    (hle : g ≤ g') : parts.Sound R t published g root workspace key :=
  ⟨hle.trans h.generation_le, h.computed.mono (markOf_mono hle h.generation_le), h.versioned⟩

structure WorkspaceTreeCache.Sound (R : WorkspaceReader φ) (digest : DigestInput → δ)
    (t : Timeline φ) (published : List TreePublication) (root : String)
    (cache : WorkspaceTreeCache δ) : Prop where
  snapshot : ∀ p, cache.snapshot = some p → p ∈ published ∧ p.root = root
  search : ∀ searches entry, cache.search searches = some entry → ∃ p ∈ published,
    p.root = root ∧ p.version = entry.version ∧
      t.Computed p.span.stop entry.span (R.searchWorkspace p.entries searches · entry.hits)
  git : ∀ args entry, cache.git args = some entry → entry.observed ≤ t.generation ∧
    t.Computed (t.markOf entry.observed) entry.span (R.runGit root args · entry.value)
  digest : ∀ key entry, cache.digest key = some entry →
    entry.parts.Sound R t published entry.observed root entry.workspace key ∧
      entry.digest = digest (entry.parts.digestInput entry.workspace key) ∧
      entry.treeVersion = entry.parts.version

variable {digest : DigestInput → δ} {cache : WorkspaceTreeCache δ}

theorem WorkspaceTreeCache.Sound.later (h : cache.Sound R digest t published root)
    (hlater : Later t t') (hsub : published ⊆ published') :
    cache.Sound R digest t' published' root where
  snapshot p hp := ⟨hsub (h.snapshot p hp).1, (h.snapshot p hp).2⟩
  search searches entry hentry := by
    obtain ⟨p, hp, hroot, hversion, hsearch⟩ := h.search searches entry hentry
    exact ⟨p, hsub hp, hroot, hversion, hsearch.later hlater⟩
  git args entry hentry := by
    obtain ⟨hle, hgit⟩ := h.git args entry hentry
    exact ⟨hle.trans hlater.generation_le, hgit.since_later hle hlater⟩
  digest key entry hentry := by
    obtain ⟨hparts, hdigest⟩ := h.digest key entry hentry
    exact ⟨hparts.later hlater hsub, hdigest⟩

theorem WorkspaceTreeCache.Sound.renumber (h : cache.Sound R digest t published root) (next : ℕ) :
    ({ cache with nextGeneration := next } : WorkspaceTreeCache δ).Sound R digest t published root :=
  ⟨h.snapshot, h.search, h.git, h.digest⟩

theorem insertEvicting_eq_some {κ ε : Type} [DecidableEq κ] {evicted : List κ} {key other : κ}
    {entry found : ε} {entries : κ → Option ε}
    (h : insertEvicting evicted key entry entries other = some found) :
    (other = key ∧ found = entry) ∨ entries other = some found := by
  rw [insertEvicting, Function.update_apply] at h
  split_ifs at h with hkey hevicted
  · exact .inl ⟨hkey, (Option.some.inj h).symm⟩
  · exact .inr h

def SearchWork.Sound (R : WorkspaceReader φ) (t : Timeline φ) (key : WorkspaceDigestKey)
    (tree : Scanned) : SearchWork → Prop
  | .idle => True
  | .keeping hits _ | .done hits => key.searches.isEmpty = false ∧
      t.Computed tree.span.stop hits.span (R.searchWorkspace tree.entries key.searches · hits.value)

/-- A scan of one generation that is not before generation `g`. -/
def StableScan.Sound (R : WorkspaceReader φ) (t : Timeline φ) (g : ℕ) (root : String)
    (scan : StableScan) : Prop :=
  g ≤ scan.observed ∧ scan.observed ≤ t.generation ∧
    t.Computed (t.markOf scan.observed) scan.span (R.scanWorkspace root · scan.entries)

def ScanWork.Sound (R : WorkspaceReader φ) (t : Timeline φ) (published : List TreePublication)
    (g : ℕ) (root : String) (key : WorkspaceDigestKey) : ScanWork → Prop
  | .idle => True
  | .again => key.scans = true
  | .stable scan | .checked scan => key.scans = true ∧ scan.Sound R t g root
  | .numbered p => key.scans = true ∧ p ∈ published ∧ p.root = root ∧ g ≤ p.observed
  | .scanned tree search => key.scans = true ∧
      t.Computed (t.markOf g) tree.span (R.scanWorkspace root · tree.entries) ∧
      tree.Versioned published root ∧ search.Sound R t key tree

def GitWork.Sound (R : WorkspaceReader φ) (t : Timeline φ) (g : ℕ) (root : String)
    (key : WorkspaceDigestKey) (command : GitCommand) : GitWork → Prop
  | .idle => True
  | .keeping output observed => key.asks command = true ∧ g ≤ observed ∧ observed ≤ t.generation ∧
      t.Computed (t.markOf observed) output.span (R.runGit root (key.gitArgs command) · output.value)
  | .done output => key.asks command = true ∧
      t.Computed (t.markOf g) output.span (R.runGit root (key.gitArgs command) · output.value)

structure QueryWork.Sound (R : WorkspaceReader φ) (t : Timeline φ)
    (published : List TreePublication) (g : ℕ) (root workspace : String) (key : WorkspaceDigestKey)
    (work : QueryWork) : Prop where
  scan : work.scan.Sound R t published g root key
  git : ∀ command, (work.git command).Sound R t g root key command
  files : ∀ files, work.files = some files → t.Computed (t.markOf g) files.span
    (R.readWorkspaceFiles workspace key.readPaths · files.value)

section Later

variable (hg : g ≤ t.generation) (hlater : Later t t')

include hlater

theorem SearchWork.Sound.later {tree : Scanned} {search : SearchWork}
    (h : search.Sound R t key tree) : search.Sound R t' key tree := by
  cases search with
  | idle => trivial
  | keeping hits observed => exact ⟨h.1, h.2.later hlater⟩
  | done hits => exact ⟨h.1, h.2.later hlater⟩

theorem StableScan.Sound.later {scan : StableScan} (h : scan.Sound R t g root) :
    scan.Sound R t' g root :=
  ⟨h.1, h.2.1.trans hlater.generation_le, h.2.2.since_later h.2.1 hlater⟩

include hg

theorem ScanWork.Sound.later {scan : ScanWork} (hsub : published ⊆ published')
    (h : scan.Sound R t published g root key) : scan.Sound R t' published' g root key := by
  cases scan with
  | idle => trivial
  | again => exact h
  | stable scan => exact ⟨h.1, StableScan.Sound.later hlater h.2⟩
  | checked scan => exact ⟨h.1, StableScan.Sound.later hlater h.2⟩
  | numbered p => exact ⟨h.1, hsub h.2.1, h.2.2⟩
  | scanned tree search =>
    exact ⟨h.1, h.2.1.since_later hg hlater, h.2.2.1.mono hsub, h.2.2.2.later hlater⟩

theorem GitWork.Sound.later {command : GitCommand} {git : GitWork}
    (h : git.Sound R t g root key command) : git.Sound R t' g root key command := by
  cases git with
  | idle => trivial
  | keeping output observed =>
    exact ⟨h.1, h.2.1, h.2.2.1.trans hlater.generation_le, h.2.2.2.since_later h.2.2.1 hlater⟩
  | done output => exact ⟨h.1, h.2.since_later hg hlater⟩

theorem QueryWork.Sound.later {work : QueryWork} (hsub : published ⊆ published')
    (h : work.Sound R t published g root workspace key) :
    work.Sound R t' published' g root workspace key where
  scan := h.scan.later hg hlater hsub
  git command := (h.git command).later hg hlater
  files files hfiles := (h.files files hfiles).since_later hg hlater

end Later

/-- The generation that a query observed began before it set to work. -/
structure WorkView.Sound (view : WorkView φ) : Prop where
  observed_le : view.observed ≤ view.timeline.generation
  mark_le : view.timeline.markOf view.observed ≤ view.since

section Steps

variable {view : WorkView φ}

theorem WorkView.loaded_iff {current : ℕ} :
    view.loaded current = true ↔
      view.observed ≤ current ∧ current ≤ view.timeline.generation := by
  rw [loaded, Bool.and_eq_true, decide_eq_true_eq, decide_eq_true_eq]

theorem WorkView.ran_iff {after : ℕ} {span : Span} :
    view.ran after span = true ↔ view.timeline.Ran (max view.since after) span := by
  rw [ran, decide_eq_true_eq]

theorem WorkView.Sound.computed (hview : view.Sound) {after : ℕ} {span : Span}
    {test : List φ → Bool} (hran : view.ran after span = true)
    (htest : test (view.timeline.during span) = true) :
    view.timeline.Computed (view.timeline.markOf view.observed) span test ∧
      view.timeline.Computed after span test := by
  have hran := WorkView.ran_iff.mp hran
  exact ⟨⟨hran.mono (hview.mark_le.trans (le_max_left ..)), htest⟩,
    ⟨hran.mono (le_max_right ..), htest⟩⟩

variable {caches : String → WorkspaceTreeCache δ}

theorem Published.number (h : Published R t caches published) {scan : StableScan}
    (hscan : scan.Sound R t g root) : let version := (caches root).nextGeneration + 1
    Published R t
      (Function.update caches root { caches root with nextGeneration := version })
      (⟨root, version, scan.entries, scan.observed, scan.span⟩ :: published) := by
  intro version
  have hfresh : ∀ p ∈ published, p.root = root → p.version ≠ version := by
    intro p hp hroot
    have hle := h.numbered p hp
    rw [hroot] at hle
    exact (Nat.lt_succ_of_le hle).ne
  refine ⟨fun p hp => ?_, fun p hp => ?_, fun p hp p' hp' hroot hversion => ?_⟩
  · rcases List.mem_cons.mp hp with rfl | hp
    · exact ⟨hscan.2.1, hscan.2.2⟩
    · exact h.sound p hp
  · rcases List.mem_cons.mp hp with rfl | hp
    · rw [Function.update_self]
    · rw [Function.update_apply]
      split_ifs with hroot
      · have hle := h.numbered p hp
        rw [hroot] at hle
        exact hle.trans (Nat.le_succ _)
      · exact h.numbered p hp
  · rcases List.mem_cons.mp hp with rfl | hp
    · rcases List.mem_cons.mp hp' with rfl | hp'
      · rfl
      · exact absurd hversion.symm (hfresh p' hp' hroot.symm)
    · rcases List.mem_cons.mp hp' with rfl | hp'
      · exact absurd hversion (hfresh p hp hroot)
      · exact h.unique p hp p' hp' hroot hversion

structure ScanStep (R : WorkspaceReader φ) (digest : DigestInput → δ) (t : Timeline φ)
    (caches : String → WorkspaceTreeCache δ) (published : List TreePublication) (g : ℕ)
    (root : String) (key : WorkspaceDigestKey)
    (result : ScanWork × WorkspaceTreeCache δ × List TreePublication) : Prop where
  scan : result.1.Sound R t (result.2.2 ++ published) g root key
  cache : result.2.1.Sound R digest t (result.2.2 ++ published) root
  published : Published R t (Function.update caches root result.2.1) (result.2.2 ++ published)

theorem Published.update_self (h : Published R t caches published)
    {snapshot : Option TreePublication}
    {search : List String → Option WorkspaceSearchCacheEntry}
    {git : List String → Option WorkspaceGitCacheEntry}
    {digests : WorkspaceDigestKey → Option (WorkspaceDigestCacheEntry δ)} :
    Published R t
      (Function.update caches root ⟨(caches root).nextGeneration, snapshot, search, git, digests⟩)
      published := by
  refine ⟨h.sound, fun p hp => ?_, h.unique⟩
  rw [Function.update_apply]
  split_ifs with hroot
  · have hle := h.numbered p hp
    rwa [hroot] at hle
  · exact h.numbered p hp

theorem ScanStep.same (hpublished : Published R t caches published)
    (hcache : (caches root).Sound R digest t published root) {scan : ScanWork}
    (hscan : scan.Sound R t published g root key) :
    ScanStep R digest t caches published g root key (scan, caches root, []) :=
  ⟨hscan, hcache, hpublished.update_self⟩

theorem scanAct_sound (hview : view.Sound)
    (hpublished : Published R view.timeline caches published)
    (hcache : (caches view.root).Sound R digest view.timeline published view.root)
    {scan : ScanWork} (hscan : scan.Sound R view.timeline published view.observed view.root view.key)
    {action : ScanAction} {result : ScanWork × WorkspaceTreeCache δ × List TreePublication}
    (h : view.scanAct R (caches view.root) scan action = some result) :
    ScanStep R digest view.timeline caches published view.observed view.root view.key result := by
  unfold WorkView.scanAct at h
  split at h
  · -- a hit: the snapshot is of a generation that the query loaded
    split at h
    · rename_i p hp
      split_ifs at h with hguard
      cases h
      simp only [Bool.and_eq_true, decide_eq_true_eq, WorkView.loaded_iff] at hguard
      obtain ⟨⟨⟨-, hscans⟩, hloaded⟩, hobserved⟩ := hguard
      obtain ⟨hmem, hroot⟩ := hcache.snapshot p hp
      have hsound := hpublished.sound p hmem
      have hle : view.observed ≤ p.observed := hobserved ▸ hloaded.1
      have hcomputed := hsound.scan.mono (markOf_mono hle hsound.observed_le)
      rw [hroot] at hcomputed
      exact .same hpublished hcache
        ⟨hscans, hcomputed, hroot ▸ TreePublication.versioned hmem, trivial⟩
    · cases h
  · -- the first scan
    split_ifs at h with hguard hsame
    · cases h
      simp only [Bool.and_eq_true, WorkView.loaded_iff] at hguard
      obtain ⟨⟨⟨⟨-, hscans⟩, hloaded⟩, hran⟩, htest⟩ := hguard
      exact .same hpublished hcache
        ⟨hscans, hloaded.1, hloaded.2, (hview.computed hran htest).2⟩
    · cases h
      simp only [Bool.and_eq_true] at hguard
      exact .same hpublished hcache hguard.1.1.1.2
  · -- the second scan
    split_ifs at h with hguard hsame
    · cases h
      simp only [Bool.and_eq_true, WorkView.loaded_iff] at hguard
      obtain ⟨⟨hloaded, hran⟩, htest⟩ := hguard
      exact .same hpublished hcache
        ⟨hscan, hloaded.1, hloaded.2, (hview.computed hran htest).2⟩
    · cases h
      simp only [Bool.and_eq_true, WorkView.loaded_iff] at hguard
      obtain ⟨⟨-, hran⟩, htest⟩ := hguard
      exact .same hpublished hcache
        ⟨hscan, (hview.computed hran htest).1, Scanned.versioned_none, trivial⟩
  · split_ifs at h
    · cases h
      exact .same hpublished hcache hscan
    · cases h
      obtain ⟨hscans, hle, hobserved, hcomputed⟩ := hscan
      exact .same hpublished hcache ⟨hscans, hcomputed.mono (markOf_mono hle hobserved),
        Scanned.versioned_none, trivial⟩
  · -- the tree gets a number
    cases h
    exact ⟨⟨hscan.1, List.mem_cons_self, rfl, hscan.2.1⟩,
      (hcache.later (Later.refl _) (List.subset_cons_self _ _)).renumber _,
      hpublished.number hscan.2⟩
  · -- and becomes the snapshot
    rename_i p
    cases h
    obtain ⟨hscans, hmem, hroot, hle⟩ := hscan
    have hsound := hpublished.sound p hmem
    have hcomputed := hsound.scan.mono (markOf_mono hle hsound.observed_le)
    rw [hroot] at hcomputed
    refine ⟨⟨hscans, hcomputed, hroot ▸ TreePublication.versioned hmem, trivial⟩,
      ⟨?_, hcache.search, hcache.git, hcache.digest⟩, hpublished.update_self⟩
    rintro p' ⟨⟩
    exact ⟨hmem, hroot⟩
  · split_ifs at h with hguard
    cases h
    simp only [Bool.and_eq_true] at hguard
    obtain ⟨⟨⟨-, hscans⟩, hran⟩, htest⟩ := hguard
    exact .same hpublished hcache
      ⟨hscans, (hview.computed hran htest).1, Scanned.versioned_none, trivial⟩
  · cases h

theorem searchAct_sound (hview : view.Sound)
    (hpublished : Published R view.timeline caches published)
    (hcache : cache.Sound R digest view.timeline published view.root)
    (hsearches : view.key.searches.isEmpty = false) {tree : Scanned}
    (htree : tree.Versioned published view.root) {search search' : SearchWork}
    (hsearch : search.Sound R view.timeline view.key tree) {action : SearchAction}
    {cache' : WorkspaceTreeCache δ}
    (h : view.searchAct R cache tree search action = some (search', cache')) :
    search'.Sound R view.timeline view.key tree ∧
      cache'.Sound R digest view.timeline published view.root ∧
      cache'.nextGeneration = cache.nextGeneration := by
  unfold WorkView.searchAct at h
  split at h
  · -- a hit: the entry is for the tree that the query has, because the version is
    split at h
    · rename_i entry version hentry hversion
      split_ifs at h with hguard
      cases h
      simp only [Bool.and_eq_true, decide_eq_true_eq] at hguard
      obtain ⟨p, hp, hroot, hsame, hcomputed⟩ := hcache.search _ entry hentry
      obtain ⟨p', hp', hroot', hsame', hentries, hspan⟩ := htree version hversion
      obtain rfl := hpublished.unique p hp p' hp' (hroot.trans hroot'.symm)
        (hsame.trans (hguard.2.trans hsame'.symm))
      rw [hspan, hentries] at hcomputed
      exact ⟨⟨hsearches, hcomputed⟩, hcache, rfl⟩
    · cases h
  · split_ifs at h with hguard hkeep
    · cases h
      simp only [Bool.and_eq_true] at hguard
      obtain ⟨⟨-, hran⟩, htest⟩ := hguard
      exact ⟨⟨hsearches, (hview.computed hran htest).2.mono (le_max_left ..)⟩, hcache, rfl⟩
    · cases h
      simp only [Bool.and_eq_true] at hguard
      obtain ⟨⟨-, hran⟩, htest⟩ := hguard
      exact ⟨⟨hsearches, (hview.computed hran htest).2.mono (le_max_left ..)⟩, hcache, rfl⟩
  · -- the result is inserted for the tree that it was found in
    split at h
    · rename_i version hversion
      cases h
      obtain ⟨p, hp, hroot, hsame, hentries, hspan⟩ := htree version hversion
      refine ⟨hsearch, ⟨hcache.snapshot, fun searches entry hentry => ?_, hcache.git,
        hcache.digest⟩, rfl⟩
      rcases insertEvicting_eq_some hentry with ⟨rfl, rfl⟩ | hold
      · refine ⟨p, hp, hroot, hsame, ?_⟩
        rw [hspan, hentries]
        exact hsearch.2
      · exact hcache.search searches entry hold
    · cases h
      exact ⟨hsearch, hcache, rfl⟩
  · split_ifs at h with hguard
    cases h
    simp only [Bool.and_eq_true] at hguard
    obtain ⟨⟨-, hran⟩, htest⟩ := hguard
    exact ⟨⟨hsearches, (hview.computed hran htest).2⟩, hcache, rfl⟩
  · cases h

theorem gitAct_sound (hview : view.Sound)
    (hcache : cache.Sound R digest view.timeline published view.root) {command : GitCommand}
    {git git' : GitWork}
    (hgit : git.Sound R view.timeline view.observed view.root view.key command)
    {action : GitAction} {cache' : WorkspaceTreeCache δ}
    (h : view.gitAct R cache command git action = some (git', cache')) :
    git'.Sound R view.timeline view.observed view.root view.key command ∧
      cache'.Sound R digest view.timeline published view.root ∧
      cache'.nextGeneration = cache.nextGeneration := by
  unfold WorkView.gitAct at h
  split at h
  · split at h
    · rename_i entry hentry
      split_ifs at h with hguard
      cases h
      simp only [Bool.and_eq_true, decide_eq_true_eq, WorkView.loaded_iff] at hguard
      obtain ⟨⟨⟨-, hasks⟩, hloaded⟩, hobserved⟩ := hguard
      obtain ⟨hle, hcomputed⟩ := hcache.git _ entry hentry
      have hmono := markOf_mono (hobserved ▸ hloaded.1 : view.observed ≤ entry.observed) hle
      exact ⟨⟨hasks, hcomputed.mono hmono⟩, hcache, rfl⟩
    · cases h
  · split_ifs at h with hguard hsame
    · cases h
      simp only [Bool.and_eq_true, WorkView.loaded_iff] at hguard
      obtain ⟨⟨⟨⟨-, hasks⟩, hloaded⟩, hran⟩, htest⟩ := hguard
      exact ⟨⟨hasks, hloaded.1, hloaded.2, (hview.computed hran htest).2⟩, hcache, rfl⟩
    · cases h
      simp only [Bool.and_eq_true] at hguard
      obtain ⟨⟨⟨⟨-, hasks⟩, -⟩, hran⟩, htest⟩ := hguard
      exact ⟨⟨hasks, (hview.computed hran htest).1⟩, hcache, rfl⟩
  · obtain ⟨hasks, hle, hobserved, hcomputed⟩ := hgit
    have hdone := hcomputed.mono (markOf_mono hle hobserved)
    split_ifs at h
    · cases h
      refine ⟨⟨hasks, hdone⟩, ⟨hcache.snapshot, hcache.search, fun args entry hentry => ?_,
        hcache.digest⟩, rfl⟩
      rcases insertEvicting_eq_some hentry with ⟨rfl, rfl⟩ | hold
      · exact ⟨hobserved, hcomputed⟩
      · exact hcache.git args entry hold
    · cases h
      exact ⟨⟨hasks, hdone⟩, hcache, rfl⟩
  · split_ifs at h with hguard
    cases h
    simp only [Bool.and_eq_true] at hguard
    obtain ⟨⟨⟨-, hasks⟩, hran⟩, htest⟩ := hguard
    exact ⟨⟨hasks, (hview.computed hran htest).1⟩, hcache, rfl⟩
  · cases h

structure WorkStep (R : WorkspaceReader φ) (digest : DigestInput → δ) (view : WorkView φ)
    (caches : String → WorkspaceTreeCache δ) (published : List TreePublication)
    (result : QueryWork × WorkspaceTreeCache δ × List TreePublication) : Prop where
  work : result.1.Sound R view.timeline (result.2.2 ++ published) view.observed view.root
    view.workspace view.key
  cache : result.2.1.Sound R digest view.timeline (result.2.2 ++ published) view.root
  published : Published R view.timeline (Function.update caches view.root result.2.1)
    (result.2.2 ++ published)

theorem WorkStep.unnumbered {work : QueryWork} {cache : WorkspaceTreeCache δ}
    (hpublished : Published R view.timeline caches published)
    (hwork : work.Sound R view.timeline published view.observed view.root view.workspace view.key)
    (hcache : cache.Sound R digest view.timeline published view.root)
    (hnext : cache.nextGeneration = (caches view.root).nextGeneration) :
    WorkStep R digest view caches published (work, cache, []) := by
  refine ⟨hwork, hcache, ?_⟩
  have h : Published R view.timeline (Function.update caches view.root
      ⟨(caches view.root).nextGeneration, cache.snapshot, cache.search, cache.git, cache.digest⟩)
      published := hpublished.update_self
  rwa [← hnext] at h

theorem workAct_sound (hview : view.Sound)
    (hpublished : Published R view.timeline caches published)
    (hcache : (caches view.root).Sound R digest view.timeline published view.root)
    {work : QueryWork}
    (hwork : work.Sound R view.timeline published view.observed view.root view.workspace view.key)
    {action : WorkAction} {result : QueryWork × WorkspaceTreeCache δ × List TreePublication}
    (h : view.workAct R (caches view.root) work action = some result) :
    WorkStep R digest view caches published result := by
  cases action with
  | scan action =>
    obtain ⟨⟨scan, cache, new⟩, hact, rfl⟩ := Option.map_eq_some_iff.mp h
    have hstep := scanAct_sound hview hpublished hcache hwork.scan hact
    have hkept := hwork.later hview.observed_le (Later.refl _) (List.subset_append_right new published)
    exact ⟨⟨hstep.scan, hkept.git, hkept.files⟩, hstep.cache, hstep.published⟩
  | search action =>
    rw [WorkView.workAct] at h
    split at h
    · rename_i tree search hscanned
      split_ifs at h with hsearches
      obtain ⟨⟨search', cache⟩, hact, rfl⟩ := Option.map_eq_some_iff.mp h
      have hscan := hwork.scan
      rw [hscanned] at hscan
      obtain ⟨hscans, hcomputed, hversioned, hsearch⟩ := hscan
      obtain ⟨hsearch', hcache', hnext⟩ := searchAct_sound hview hpublished hcache
        (Bool.not_eq_true _ ▸ hsearches) hversioned hsearch hact
      exact .unnumbered hpublished
        ⟨⟨hscans, hcomputed, hversioned, hsearch'⟩, hwork.git, hwork.files⟩ hcache' hnext
    · cases h
  | git command action =>
    obtain ⟨⟨git, cache⟩, hact, rfl⟩ := Option.map_eq_some_iff.mp h
    obtain ⟨hgit, hcache', hnext⟩ := gitAct_sound hview hcache (hwork.git command) hact
    refine .unnumbered hpublished ⟨hwork.scan, fun other => ?_, hwork.files⟩ hcache' hnext
    dsimp only
    rw [Function.update_apply]
    split_ifs with hother
    · rwa [hother]
    · exact hwork.git other
  | read span files =>
    rw [WorkView.workAct] at h
    split_ifs at h with hguard
    cases h
    simp only [Bool.and_eq_true] at hguard
    obtain ⟨⟨-, hran⟩, htest⟩ := hguard
    refine .unnumbered hpublished ⟨hwork.scan, hwork.git, ?_⟩ hcache rfl
    rintro found ⟨⟩
    exact (hview.computed hran htest).1

end Steps

/-- What the scan and the search contribute to an answer. -/
structure ScanResult (R : WorkspaceReader φ) (t : Timeline φ) (published : List TreePublication)
    (g : ℕ) (root : String) (key : WorkspaceDigestKey)
    (result : Option Scanned × Option (Measured (List WorkspaceSearchHit))) : Prop where
  scan : key.scans = true → ∃ tree, result.1 = some tree ∧
    t.Computed (t.markOf g) tree.span (R.scanWorkspace root · tree.entries)
  search : key.searches.isEmpty = false → ∃ tree hits, result.1 = some tree ∧
    result.2 = some hits ∧ t.Computed tree.span.stop hits.span
      (R.searchWorkspace tree.entries key.searches · hits.value)
  noScan : key.scans = false → result.1 = none
  noSearch : key.searches.isEmpty = true → result.2 = none
  versioned : ∀ tree, result.1 = some tree → tree.Versioned published root

theorem ScanResult.unasked {result : Option Scanned × Option (Measured (List WorkspaceSearchHit))}
    (h : (if key.scans then none else some (none, none)) = some result) :
    ScanResult R t published g root key result := by
  split_ifs at h with hscans
  cases h
  refine ⟨fun hyes => absurd hyes hscans, fun hsearches => ?_, fun _ => rfl, fun _ => rfl, ?_⟩
  · rw [WorkspaceDigestKey.scans, hsearches, Bool.not_false, Bool.or_true] at hscans
    exact absurd rfl hscans
  · rintro tree ⟨⟩

theorem ScanWork.Sound.result {scan : ScanWork} (h : scan.Sound R t published g root key)
    {result : Option Scanned × Option (Measured (List WorkspaceSearchHit))}
    (hresult : scan.result key = some result) : ScanResult R t published g root key result := by
  cases scan with
  | scanned tree search =>
    obtain ⟨hscans, hcomputed, hversioned, hsearch⟩ := h
    have hscan : ∀ other : Option (Measured (List WorkspaceSearchHit)),
        (∀ tree', (some tree, other).1 = some tree' → tree'.Versioned published root) := by
      rintro other tree' ⟨⟩
      exact hversioned
    have hasked : ∀ p : Prop, key.scans = false → p := fun p hno => by
      rw [hscans] at hno
      cases hno
    unfold ScanWork.result at hresult
    dsimp only at hresult
    split at hresult
    · rename_i hempty
      cases hresult
      refine ⟨fun _ => ⟨tree, rfl, hcomputed⟩, fun hno => ?_, hasked _, fun _ => rfl, hscan _⟩
      rw [hempty] at hno
      cases hno
    · rename_i hempty
      split at hresult
      · cases hresult
        exact ⟨fun _ => ⟨tree, rfl, hcomputed⟩, fun _ => ⟨tree, _, rfl, rfl, hsearch.2⟩, hasked _,
          fun hyes => absurd hyes hempty, hscan _⟩
      · cases hresult
  | idle => exact .unasked hresult
  | again => exact .unasked hresult
  | stable scan => exact .unasked hresult
  | checked scan => exact .unasked hresult
  | numbered p => exact .unasked hresult

theorem GitWork.Sound.result {git : GitWork} {command : GitCommand}
    (h : git.Sound R t g root key command) {output : Measured (Option String)}
    (houtput : git.result = some output) : key.asks command = true ∧
      t.Computed (t.markOf g) output.span (R.runGit root (key.gitArgs command) · output.value) := by
  cases git with
  | idle => cases houtput
  | keeping value observed => cases houtput
  | done value =>
    cases houtput
    exact h

theorem GitCommand.mem_all (command : GitCommand) : command ∈ GitCommand.all := by
  cases command <;> decide

theorem QueryWork.Sound.parts_sound {work : QueryWork} (hg : g ≤ t.generation)
    (h : work.Sound R t published g root workspace key) (hparts : work.parts key = some parts) :
    parts.Sound R t published g root workspace key := by
  rw [QueryWork.parts] at hparts
  split at hparts
  · rename_i scanned hits files hresult hfiles
    split_ifs at hparts with hgit
    cases hparts
    have hscan := h.scan.result hresult
    refine ⟨hg, ⟨hscan.scan, hscan.search, fun command hasks => ?_, h.files files hfiles,
      hscan.noScan, hscan.noSearch, fun command hasks => ?_⟩, hscan.versioned⟩
    · have hdone := List.all_eq_true.mp hgit command command.mem_all
      rw [hasks, Bool.not_true, Bool.false_or] at hdone
      obtain ⟨output, houtput⟩ := Option.isSome_iff_exists.mp hdone
      exact ⟨output, houtput, ((h.git command).result houtput).2⟩
    · dsimp only
      cases houtput : (work.git command).result with
      | none => rfl
      | some output =>
        have hyes := ((h.git command).result houtput).1
        rw [hasks] at hyes
        cases hyes
  · cases hparts

theorem StateParts.completeTree_eq {caches : String → WorkspaceTreeCache δ}
    (hpublished : Published R t caches published) {parts' : StateParts} {version : ℕ}
    (h : ∀ tree, parts.scanned = some tree → tree.Versioned published root)
    (h' : ∀ tree, parts'.scanned = some tree → tree.Versioned published root)
    (hversion : parts.version = some version) (hversion' : parts'.version = some version) :
    parts.completeTree = parts'.completeTree := by
  obtain ⟨tree, htree, hnumber⟩ := Option.bind_eq_some_iff.mp hversion
  obtain ⟨tree', htree', hnumber'⟩ := Option.bind_eq_some_iff.mp hversion'
  obtain ⟨p, hp, hroot, hsame, hentries, -⟩ := h tree htree version hnumber
  obtain ⟨p', hp', hroot', hsame', hentries', -⟩ := h' tree' htree' version hnumber'
  obtain rfl := hpublished.unique p hp p' hp' (hroot.trans hroot'.symm) (hsame.trans hsame'.symm)
  rw [completeTree, completeTree, htree, htree', Option.elim_some, Option.elim_some, ← hentries,
    ← hentries']

end Asp
