import Asp.Lib.Timeline
import Asp.Spec.Patch
import Asp.Spec.Workspace

/-! `WORKSPACE_STATE` and the index behind it: the cached tree of each root with its version,
the cached searches and Git results, and the digests of whole answers. Queries, changes of the
workspace, mutations and invalidations interleave step by step; the watcher is healthy.

An atomic load of the generation before a lookup or a computation is not a step of its own:
the step that uses the value says what was loaded, which is any generation since the query
observed one. A computation likewise ran over some span of the time that the query had for
it. The age of an entry, eviction and the memory budgets may turn down any hit and any entry. -/

namespace Asp

def maxWorkspaceIndexes : ℕ := 128
def queryTermMaxBytes : ℕ := 4 * 1024

structure ScannedFile where
  relative : String
  full : String
  bytes : ℕ
  deriving DecidableEq

structure WorkspaceTreeEntry where
  path : String
  bytes : ℕ
  deriving DecidableEq

structure WorkspaceSearchHit where
  query : String
  path : String
  line : ℕ
  text : String
  deriving DecidableEq

structure WorkspaceVersion where
  epoch : Uuid
  generation : ℕ
  deriving DecidableEq

/-- What is computed from the workspace. A computation may see every state that the workspace
goes through while it runs; each test says whether a result is one that it can then have. -/
structure WorkspaceReader (φ : Type) where
  /-- `resolve_existing_path`, if it is a directory. -/
  resolve : φ → String → Option String
  scanWorkspace : String → List φ → List ScannedFile → Bool
  searchWorkspace : List ScannedFile → List String → List φ → List WorkspaceSearchHit → Bool
  runGit : String → List String → List φ → Option String → Bool
  readWorkspaceFiles : String → List String → List φ → List WorkspaceFile → Bool

structure WorkspaceRequest (δ : Type) where
  workspace : String
  includeTree : Bool
  includeGitStatus : Bool
  includeDiff : Bool
  recentCommits : ℕ
  searches : List String
  readPaths : List String
  knownTreeVersion : Option WorkspaceVersion
  knownStateDigest : Option δ
  deriving DecidableEq

structure WorkspaceDigestKey where
  includeTree : Bool
  includeGitStatus : Bool
  includeDiff : Bool
  recentCommits : ℕ
  searches : List String
  readPaths : List String
  deriving DecidableEq

inductive GitCommand where
  | status
  | diff
  | log
  deriving DecidableEq

def GitCommand.all : List GitCommand := [.status, .diff, .log]

namespace WorkspaceRequest

variable {δ : Type} (request : WorkspaceRequest δ)

def valid : Bool :=
  request.workspace.utf8ByteSize ≤ pathMaxBytes &&
    request.searches.all (·.utf8ByteSize ≤ queryTermMaxBytes) &&
    request.readPaths.all (·.utf8ByteSize ≤ pathMaxBytes) &&
    request.searches.length ≤ 32 && request.readPaths.length ≤ 64

def key : WorkspaceDigestKey :=
  ⟨request.includeTree, request.includeGitStatus, request.includeDiff, request.recentCommits,
    request.searches, request.readPaths⟩

end WorkspaceRequest

namespace WorkspaceDigestKey

variable (key : WorkspaceDigestKey)

def scans : Bool := key.includeTree || !key.searches.isEmpty

def asks : GitCommand → Bool
  | .status => key.includeGitStatus
  | .diff => key.includeDiff
  | .log => key.recentCommits ≠ 0

def gitArgs : GitCommand → List String
  | .status => ["status", "--short"]
  | .diff => ["diff", "--no-ext-diff"]
  | .log => ["log", "--format=%H%x09%s", "-n", toString (min key.recentCommits 100)]

end WorkspaceDigestKey

/-- A result, with the time over which it was computed. -/
structure Measured (α : Type) where
  value : α
  span : Span
  deriving DecidableEq

/-- What `entries` returns. -/
structure Scanned where
  entries : List ScannedFile
  version : Option ℕ
  span : Span
  deriving DecidableEq

/-- The results that an answer is made of; those that are not asked for are missing. -/
structure StateParts where
  scanned : Option Scanned
  hits : Option (Measured (List WorkspaceSearchHit))
  git : GitCommand → Option (Measured (Option String))
  files : Measured (List WorkspaceFile)

/-- `str::lines`. -/
def textLines (text : String) : List String :=
  let pieces := text.toList.splitOn '\n'
  let pieces := if pieces.getLast? = some [] then pieces.dropLast else pieces
  pieces.map fun line =>
    String.ofList (if line.getLast? = some '\r' then line.dropLast else line)

structure DigestInput where
  workspace : String
  tree : List WorkspaceTreeEntry
  gitStatus : Option String
  diff : Option String
  recentCommits : List String
  searchHits : List WorkspaceSearchHit
  files : List WorkspaceFile
  deriving DecidableEq

namespace StateParts

variable (parts : StateParts)

def completeTree : List WorkspaceTreeEntry :=
  (parts.scanned.elim [] (·.entries)).map fun entry => ⟨entry.relative, entry.bytes⟩

def tree (key : WorkspaceDigestKey) : List WorkspaceTreeEntry :=
  if key.includeTree then parts.completeTree else []

def version : Option ℕ := parts.scanned.bind (·.version)

def gitValue (command : GitCommand) : Option String := (parts.git command).bind (·.value)

def digestInput (workspace : String) (key : WorkspaceDigestKey) : DigestInput :=
  ⟨workspace, parts.tree key, parts.gitValue .status, parts.gitValue .diff,
    textLines ((parts.gitValue .log).getD ""), parts.hits.elim [] (·.value), parts.files.value⟩

end StateParts

structure WorkspaceResponse (δ : Type) where
  workspace : String
  treeVersion : Option WorkspaceVersion
  treeUnchanged : Bool
  tree : List WorkspaceTreeEntry
  gitStatus : Option String
  diff : Option String
  recentCommits : List String
  searchHits : List WorkspaceSearchHit
  files : List WorkspaceFile
  stateDigest : δ
  stateUnchanged : Bool
  deriving DecidableEq

def WorkspaceResponse.unchanged {δ : Type} (workspace : String) (version : Option WorkspaceVersion)
    (digest : δ) : WorkspaceResponse δ :=
  ⟨workspace, version, true, [], none, none, [], [], [], digest, true⟩

section Response

variable {δ : Type} [DecidableEq δ] (epoch : Uuid) (digest : DigestInput → δ)

def workspaceResponse (request : WorkspaceRequest δ) (parts : StateParts) : WorkspaceResponse δ :=
  let version := parts.version.map fun generation => ⟨epoch, generation⟩
  let treeUnchanged :=
    request.includeTree && request.knownTreeVersion.isSome && version = request.knownTreeVersion
  let input := parts.digestInput request.workspace request.key
  if request.knownStateDigest = some (digest input) then
    .unchanged request.workspace version (digest input)
  else
    { workspace := request.workspace
      treeVersion := version
      treeUnchanged := treeUnchanged
      tree := if request.includeTree && !treeUnchanged then input.tree else []
      gitStatus := input.gitStatus
      diff := input.diff
      recentCommits := input.recentCommits
      searchHits := input.searchHits
      files := input.files
      stateDigest := digest input
      stateUnchanged := false }

end Response

/-- A tree with its version, as it is published for a root. -/
structure TreePublication where
  root : String
  version : ℕ
  entries : List ScannedFile
  observed : ℕ
  span : Span
  deriving DecidableEq

structure WorkspaceSearchCacheEntry where
  hits : List WorkspaceSearchHit
  version : ℕ
  observed : ℕ
  span : Span

structure WorkspaceGitCacheEntry where
  value : Option String
  observed : ℕ
  span : Span

/-- `workspace` and `parts` are what the digest was made from; they are not kept. -/
structure WorkspaceDigestCacheEntry (δ : Type) where
  digest : δ
  treeVersion : Option ℕ
  observed : ℕ
  workspace : String
  parts : StateParts

structure WorkspaceTreeCache (δ : Type) where
  nextGeneration : ℕ
  snapshot : Option TreePublication
  search : List String → Option WorkspaceSearchCacheEntry
  git : List String → Option WorkspaceGitCacheEntry
  digest : WorkspaceDigestKey → Option (WorkspaceDigestCacheEntry δ)

def WorkspaceTreeCache.new {δ : Type} : WorkspaceTreeCache δ :=
  ⟨0, none, fun _ => none, fun _ => none, fun _ => none⟩

def insertEvicting {κ ε : Type} [DecidableEq κ] (evicted : List κ) (key : κ) (entry : ε)
    (entries : κ → Option ε) : κ → Option ε :=
  Function.update (fun other => if other ∈ evicted then none else entries other) key (some entry)

structure StableScan where
  entries : List ScannedFile
  span : Span
  observed : ℕ
  deriving DecidableEq

inductive SearchWork where
  | idle
  /-- A result of one generation, before it is inserted. -/
  | keeping (hits : Measured (List WorkspaceSearchHit)) (observed : ℕ)
  | done (hits : Measured (List WorkspaceSearchHit))
  deriving DecidableEq

inductive ScanWork where
  | idle
  /-- The first scan saw an invalidation. -/
  | again
  | stable (scan : StableScan)
  | checked (scan : StableScan)
  | numbered (publication : TreePublication)
  | scanned (scanned : Scanned) (search : SearchWork)
  deriving DecidableEq

inductive GitWork where
  | idle
  | keeping (value : Measured (Option String)) (observed : ℕ)
  | done (value : Measured (Option String))
  deriving DecidableEq

structure QueryWork where
  scan : ScanWork
  git : GitCommand → GitWork
  files : Option (Measured (List WorkspaceFile))

def QueryWork.new : QueryWork := ⟨.idle, fun _ => .idle, none⟩

inductive ScanAction where
  | hit (current : ℕ)
  | finish (startGeneration : ℕ) (span : Span) (entries : List ScannedFile)
  | check
  | number
  | write
  /-- Without a cache for the root. -/
  | uncached (span : Span) (entries : List ScannedFile)
  deriving DecidableEq

inductive SearchAction where
  | hit (current : ℕ)
  | finish (current startGeneration : ℕ) (span : Span) (hits : List WorkspaceSearchHit)
  | write (evicted : List (List String)) (kept : Bool)
  /-- Without a version or a cache. -/
  | uncached (span : Span) (hits : List WorkspaceSearchHit)
  deriving DecidableEq

inductive GitAction where
  | hit (current : ℕ)
  | finish (current : ℕ) (span : Span) (value : Option String)
  | write (evicted : List (List String)) (kept : Bool)
  | uncached (span : Span) (value : Option String)
  deriving DecidableEq

inductive WorkAction where
  | scan (action : ScanAction)
  | search (action : SearchAction)
  | git (command : GitCommand) (action : GitAction)
  | read (span : Span) (files : List WorkspaceFile)
  deriving DecidableEq

/-- What a query works with; `since` is the position at which it began to. -/
structure WorkView (φ : Type) where
  timeline : Timeline φ
  workspace : String
  key : WorkspaceDigestKey
  root : String
  observed : ℕ
  since : ℕ
  hasCache : Bool

namespace WorkView

variable {φ δ : Type} (R : WorkspaceReader φ) (view : WorkView φ)

def loaded (current : ℕ) : Bool :=
  view.observed ≤ current && current ≤ view.timeline.generation

/-- A computation of the query ran over the span. -/
def ran (after : ℕ) (span : Span) : Bool := view.timeline.Ran (max view.since after) span

/-- `entries`. A lookup, first without the rebuild lock and then with it, may hit; otherwise
the tree is scanned, once more if the generation moved, and published if it did not. -/
def scanAct (cache : WorkspaceTreeCache δ) :
    ScanWork → ScanAction → Option (ScanWork × WorkspaceTreeCache δ × List TreePublication)
  | .idle, .hit current =>
      match cache.snapshot with
      | some snapshot =>
          if view.hasCache && view.key.scans && view.loaded current && snapshot.observed = current
          then some (.scanned ⟨snapshot.entries, some snapshot.version, snapshot.span⟩ .idle, cache, [])
          else none
      | none => none
  | .idle, .finish startGeneration span entries =>
      if view.hasCache && view.key.scans && view.loaded startGeneration &&
          view.ran (view.timeline.markOf startGeneration) span &&
          R.scanWorkspace view.root (view.timeline.during span) entries then
        if startGeneration = view.timeline.generation then
          some (.stable ⟨entries, span, startGeneration⟩, cache, [])
        else some (.again, cache, [])
      else none
  | .again, .finish startGeneration span entries =>
      if view.loaded startGeneration && view.ran (view.timeline.markOf startGeneration) span &&
          R.scanWorkspace view.root (view.timeline.during span) entries then
        if startGeneration = view.timeline.generation then
          some (.stable ⟨entries, span, startGeneration⟩, cache, [])
        else some (.scanned ⟨entries, none, span⟩ .idle, cache, [])
      else none
  | .stable scan, .check =>
      if scan.observed = view.timeline.generation then some (.checked scan, cache, [])
      else some (.scanned ⟨scan.entries, none, scan.span⟩ .idle, cache, [])
  | .checked scan, .number =>
      let version := cache.nextGeneration + 1
      let publication := ⟨view.root, version, scan.entries, scan.observed, scan.span⟩
      some (.numbered publication, { cache with nextGeneration := version }, [publication])
  | .numbered publication, .write =>
      some (.scanned ⟨publication.entries, some publication.version, publication.span⟩ .idle,
        { cache with snapshot := some publication }, [])
  | .idle, .uncached span entries =>
      if !view.hasCache && view.key.scans && view.ran 0 span &&
          R.scanWorkspace view.root (view.timeline.during span) entries then
        some (.scanned ⟨entries, none, span⟩ .idle, cache, [])
      else none
  | _, _ => none

/-- `search`, with what `entries` returned. -/
def searchAct (cache : WorkspaceTreeCache δ) (scanned : Scanned) :
    SearchWork → SearchAction → Option (SearchWork × WorkspaceTreeCache δ)
  | .idle, .hit current =>
      match cache.search view.key.searches, scanned.version with
      | some entry, some version =>
          if view.hasCache && view.loaded current && entry.observed = current &&
              entry.version = version then
            some (.done ⟨entry.hits, entry.span⟩, cache)
          else none
      | _, _ => none
  | .idle, .finish current startGeneration span hits =>
      if view.hasCache && scanned.version.isSome && view.loaded current &&
          current ≤ startGeneration && startGeneration ≤ view.timeline.generation &&
          view.ran (max scanned.span.stop (view.timeline.markOf startGeneration)) span &&
          R.searchWorkspace scanned.entries view.key.searches (view.timeline.during span) hits then
        if startGeneration = view.timeline.generation && current = view.timeline.generation then
          some (.keeping ⟨hits, span⟩ current, cache)
        else some (.done ⟨hits, span⟩, cache)
      else none
  | .keeping hits observed, .write evicted kept =>
      match kept, scanned.version with
      | true, some version =>
          some (.done hits, { cache with
            search := insertEvicting evicted view.key.searches
              ⟨hits.value, version, observed, hits.span⟩ cache.search })
      | _, _ => some (.done hits, cache)
  | .idle, .uncached span hits =>
      if !(view.hasCache && scanned.version.isSome) && view.ran scanned.span.stop span &&
          R.searchWorkspace scanned.entries view.key.searches (view.timeline.during span) hits then
        some (.done ⟨hits, span⟩, cache)
      else none
  | _, _ => none

/-- `git`. -/
def gitAct (cache : WorkspaceTreeCache δ) (command : GitCommand) :
    GitWork → GitAction → Option (GitWork × WorkspaceTreeCache δ)
  | .idle, .hit current =>
      match cache.git (view.key.gitArgs command) with
      | some entry =>
          if view.hasCache && view.key.asks command && view.loaded current &&
              entry.observed = current then
            some (.done ⟨entry.value, entry.span⟩, cache)
          else none
      | none => none
  | .idle, .finish current span value =>
      if view.hasCache && view.key.asks command && view.loaded current &&
          view.ran (view.timeline.markOf current) span &&
          R.runGit view.root (view.key.gitArgs command) (view.timeline.during span) value then
        if current = view.timeline.generation then some (.keeping ⟨value, span⟩ current, cache)
        else some (.done ⟨value, span⟩, cache)
      else none
  | .keeping value observed, .write evicted kept =>
      if kept then
        some (.done value, { cache with
          git := insertEvicting evicted (view.key.gitArgs command)
            ⟨value.value, observed, value.span⟩ cache.git })
      else some (.done value, cache)
  | .idle, .uncached span value =>
      if !view.hasCache && view.key.asks command && view.ran 0 span &&
          R.runGit view.root (view.key.gitArgs command) (view.timeline.during span) value then
        some (.done ⟨value, span⟩, cache)
      else none
  | _, _ => none

def workAct (cache : WorkspaceTreeCache δ) (work : QueryWork) :
    WorkAction → Option (QueryWork × WorkspaceTreeCache δ × List TreePublication)
  | .scan action =>
      (view.scanAct R cache work.scan action).map fun (scan, cache, published) =>
        ({ work with scan := scan }, cache, published)
  | .search action =>
      match work.scan with
      | .scanned scanned search =>
          if view.key.searches.isEmpty then none
          else
            (view.searchAct R cache scanned search action).map fun (search, cache) =>
              ({ work with scan := .scanned scanned search }, cache, [])
      | _ => none
  | .git command action =>
      (view.gitAct R cache command (work.git command) action).map fun (git, cache) =>
        ({ work with git := Function.update work.git command git }, cache, [])
  | .read span files =>
      if work.files.isNone && view.ran 0 span &&
          R.readWorkspaceFiles view.workspace view.key.readPaths (view.timeline.during span) files
      then some ({ work with files := some ⟨files, span⟩ }, cache, [])
      else none

end WorkView

/-- The scan and the search, once they are done. -/
def ScanWork.result (key : WorkspaceDigestKey) :
    ScanWork → Option (Option Scanned × Option (Measured (List WorkspaceSearchHit)))
  | .scanned tree search =>
      if key.searches.isEmpty then some (some tree, none)
      else
        match search with
        | .done hits => some (some tree, some hits)
        | _ => none
  | _ => if key.scans then none else some (none, none)

def GitWork.result : GitWork → Option (Measured (Option String))
  | .done value => some value
  | _ => none

/-- The `join!` of the parts. -/
def QueryWork.parts (key : WorkspaceDigestKey) (work : QueryWork) : Option StateParts :=
  match work.scan.result key, work.files with
  | some (scanned, hits), some files =>
      if GitCommand.all.all fun command => !key.asks command || (work.git command).result.isSome
      then some ⟨scanned, hits, fun command => (work.git command).result, files⟩
      else none
  | _, _ => none

/-- The parts are results that the computations can have when all of them run after a position:
the scan, then the search in the files that it found, the Git commands and the reads. -/
structure StateParts.Computed {φ : Type} (R : WorkspaceReader φ) (t : Timeline φ) (bound : ℕ)
    (root workspace : String) (key : WorkspaceDigestKey) (parts : StateParts) : Prop where
  scan : key.scans = true → ∃ tree, parts.scanned = some tree ∧
    t.Computed bound tree.span (R.scanWorkspace root · tree.entries)
  search : key.searches.isEmpty = false → ∃ tree hits, parts.scanned = some tree ∧
    parts.hits = some hits ∧ t.Computed tree.span.stop hits.span
      (R.searchWorkspace tree.entries key.searches · hits.value)
  git : ∀ command, key.asks command = true → ∃ output, parts.git command = some output ∧
    t.Computed bound output.span (R.runGit root (key.gitArgs command) · output.value)
  files : t.Computed bound parts.files.span
    (R.readWorkspaceFiles workspace key.readPaths · parts.files.value)
  noScan : key.scans = false → parts.scanned = none
  noSearch : key.searches.isEmpty = true → parts.hits = none
  noGit : ∀ command, key.asks command = false → parts.git command = none

/-- A response that was sent, and the results that it stands for. -/
structure WorkspaceAnswer (δ : Type) where
  response : WorkspaceResponse δ
  parts : StateParts

inductive QueryPhase (δ : Type) where
  /-- The root is resolved. -/
  | arrived
  | looking (observed : ℕ)
  | working (observed since : ℕ) (work : QueryWork)
  | concluded (observed : ℕ) (parts : StateParts)
  | inserting (observed : ℕ) (parts : StateParts)
  | answered (answer : WorkspaceAnswer δ)
  | failed

/-- `started` is the generation at which the query arrived, `acknowledged` has the positions
of the mutations that were acknowledged before. -/
structure WorkspaceQuery (δ : Type) where
  request : WorkspaceRequest δ
  root : String
  started : ℕ
  acknowledged : List ℕ
  phase : QueryPhase δ

def WorkspaceQuery.answer {δ : Type} (query : WorkspaceQuery δ) : Option (WorkspaceAnswer δ) :=
  match query.phase with
  | .answered answer => some answer
  | _ => none

structure FileMutation where
  position : ℕ
  invalidated : Bool
  acknowledged : Bool
  deriving DecidableEq

structure IndexWorld (φ δ : Type) where
  timeline : Timeline φ
  indexed : List String
  caches : String → WorkspaceTreeCache δ
  published : List TreePublication
  queries : List (WorkspaceQuery δ)
  mutations : List FileMutation

inductive IndexAction (φ δ : Type) where
  /-- Something else changes the workspace. -/
  | change (state : φ)
  /-- The watcher calls `invalidate`. -/
  | invalidate
  /-- `commit_file_transaction` installs and records a file. -/
  | commit (state : φ)
  /-- The call that committed goes on to `invalidate`. -/
  | invalidateAfter (m : ℕ)
  /-- It answers with `FileStored`. -/
  | stored (m : ℕ)
  /-- A repeated request gets `FileStored` from `cached_file_response`. -/
  | replayed (m : ℕ)
  /-- `cache_for` makes a cache. -/
  | index (root : String)
  | arrive (request : WorkspaceRequest δ)
  | observe (i : ℕ)
  | lookupHit (i current : ℕ)
  | lookupMiss (i : ℕ)
  | work (i : ℕ) (action : WorkAction)
  | conclude (i : ℕ)
  | insertCheck (i : ℕ) (fits : Bool)
  | insertWrite (i : ℕ) (evicted : List WorkspaceDigestKey)
  /-- A limit, a budget or a computation fails the request. -/
  | fail (i : ℕ)

namespace IndexWorld

variable {φ δ : Type} [DecidableEq δ] (R : WorkspaceReader φ) (epoch : Uuid)
  (digest : DigestInput → δ)

def init (state : φ) : IndexWorld φ δ := ⟨.init state, [], fun _ => .new, [], [], []⟩

def setPhase (i : ℕ) (query : WorkspaceQuery δ) (phase : QueryPhase δ) (w : IndexWorld φ δ) :
    IndexWorld φ δ :=
  { w with queries := w.queries.set i { query with phase := phase } }

def setCache (root : String) (cache : WorkspaceTreeCache δ) (w : IndexWorld φ δ) :
    IndexWorld φ δ :=
  { w with caches := Function.update w.caches root cache }

def setMutation (m : ℕ) (mutation : FileMutation) (w : IndexWorld φ δ) : IndexWorld φ δ :=
  { w with mutations := w.mutations.set m mutation }

def view (w : IndexWorld φ δ) (query : WorkspaceQuery δ) (observed since : ℕ) : WorkView φ :=
  ⟨w.timeline, query.request.workspace, query.request.key, query.root, observed, since,
    decide (query.root ∈ w.indexed)⟩

/-- The answer to a query whose parts are there. -/
def answer (query : WorkspaceQuery δ) (parts : StateParts) : WorkspaceAnswer δ :=
  ⟨workspaceResponse epoch digest query.request parts, parts⟩

/-- `lookup_digest`, and the answer if it hits. -/
def lookup (query : WorkspaceQuery δ) (observed current : ℕ) (w : IndexWorld φ δ) :
    Option (WorkspaceAnswer δ) :=
  match query.request.knownStateDigest, (w.caches query.root).digest query.request.key with
  | some known, some entry =>
      if query.root ∈ w.indexed ∧ observed ≤ current ∧ current ≤ w.timeline.generation ∧
          entry.digest = known ∧ entry.observed = current then
        some ⟨.unchanged query.request.workspace
          (entry.treeVersion.map fun generation => ⟨epoch, generation⟩) known, entry.parts⟩
      else none
  | _, _ => none

/-- A step of query `i` in its phase. -/
def queryAct (i : ℕ) (query : WorkspaceQuery δ) (w : IndexWorld φ δ) :
    IndexAction φ δ → QueryPhase δ → Option (IndexWorld φ δ)
  | .observe _, .arrived => some (w.setPhase i query (.looking w.timeline.generation))
  | .lookupHit _ current, .looking observed =>
      (w.lookup epoch query observed current).map fun answer =>
        w.setPhase i query (.answered answer)
  | .lookupMiss _, .looking observed =>
      some (w.setPhase i query (.working observed w.timeline.now .new))
  | .work _ action, .working observed since work =>
      ((w.view query observed since).workAct R (w.caches query.root) work action).map
        fun (work, cache, published) =>
          { (w.setPhase i query (.working observed since work)).setCache query.root cache with
            published := published ++ w.published }
  | .conclude _, .working observed _ work =>
      (work.parts query.request.key).map fun parts =>
        w.setPhase i query (.concluded observed parts)
  | .insertCheck _ fits, .concluded observed parts =>
      if fits ∧ observed = w.timeline.generation ∧ query.root ∈ w.indexed then
        some (w.setPhase i query (.inserting observed parts))
      else some (w.setPhase i query (.answered (answer epoch digest query parts)))
  | .insertWrite _ evicted, .inserting observed parts =>
      let cache := w.caches query.root
      let entry := ⟨digest (parts.digestInput query.request.workspace query.request.key),
        parts.version, observed, query.request.workspace, parts⟩
      some ((w.setPhase i query (.answered (answer epoch digest query parts))).setCache query.root
        { cache with digest := insertEvicting evicted query.request.key entry cache.digest })
  | .fail _, .answered _ => none
  | .fail _, _ => some (w.setPhase i query .failed)
  | _, _ => none

def target : IndexAction φ δ → Option ℕ
  | .observe i | .lookupHit i _ | .lookupMiss i | .work i _ | .conclude i | .insertCheck i _
  | .insertWrite i _ | .fail i => some i
  | _ => none

def worldAct (w : IndexWorld φ δ) : IndexAction φ δ → Option (IndexWorld φ δ)
  | .change state => some { w with timeline := w.timeline.change state }
  | .invalidate => some { w with timeline := w.timeline.invalidate }
  | .commit state =>
      some { w with
        timeline := w.timeline.change state
        mutations := w.mutations ++ [⟨(w.timeline.change state).now, false, false⟩] }
  | .invalidateAfter m =>
      w.mutations[m]?.map fun mutation =>
        ({ w with timeline := w.timeline.invalidate }).setMutation m
          { mutation with invalidated := true }
  | .stored m =>
      w.mutations[m]?.bind fun mutation =>
        if mutation.invalidated then
          some (w.setMutation m { mutation with acknowledged := true })
        else none
  | .replayed m =>
      w.mutations[m]?.map fun mutation => w.setMutation m { mutation with acknowledged := true }
  | .index root =>
      if w.indexed.length < maxWorkspaceIndexes then some { w with indexed := root :: w.indexed }
      else none
  | .arrive request =>
      if request.valid then
        (R.resolve w.timeline.current request.workspace).map fun root =>
          { w with queries := w.queries ++
              [⟨request, root, w.timeline.generation,
                (w.mutations.filter (·.acknowledged)).map (·.position), .arrived⟩] }
      else none
  | _ => none

def act (action : IndexAction φ δ) (w : IndexWorld φ δ) : Option (IndexWorld φ δ) :=
  match target action with
  | none => w.worldAct R action
  | some i =>
      w.queries[i]?.bind fun query => w.queryAct R epoch digest i query action query.phase

end IndexWorld

/-- A digest that is hit was made for the workspace that the query names. -/
def IndexWorld.SameWorkspace {φ δ : Type} (w : IndexWorld φ δ) (query : WorkspaceQuery δ) : Prop :=
  ∀ entry, (w.caches query.root).digest query.request.key = some entry →
    entry.workspace = query.request.workspace

/-- A repeated request is answered after the mutation's own invalidation, and a digest is hit
by the name of the workspace that it was made for. -/
def IndexWorld.Timely {φ δ : Type} (w : IndexWorld φ δ) : IndexAction φ δ → Prop
  | .replayed m => ∀ mutation, w.mutations[m]? = some mutation → mutation.invalidated = true
  | .lookupHit i _ => ∀ query, w.queries[i]? = some query → w.SameWorkspace query
  | _ => True

section Machine

variable {φ δ : Type} [DecidableEq δ] (R : WorkspaceReader φ) (epoch : Uuid)
  (digest : DigestInput → δ)

def indexMachine : Steps.Machine (IndexAction φ δ) (IndexWorld φ δ) where
  act := IndexWorld.act R epoch digest
  fault _ _ := []

end Machine

end Asp
