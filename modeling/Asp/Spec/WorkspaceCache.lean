import Asp.Lib.Totals
import Asp.Spec.WorkspaceIndex

/-! The workspace cache of the agent adapter: `AgentWorkspaceCache` with its byte counter. -/

namespace Asp

open Std

def agentWorkspaceCacheMaxEntries : ℕ := 16
def agentWorkspaceCacheMaxBytes : ℕ := 32 * 1024 * 1024

structure CachedWorkspaceState where
  digest : String
  treeVersion : Option WorkspaceVersion
  tree : List WorkspaceTreeEntry
  gitStatus : Option String
  diff : Option String
  recentCommits : List String
  searchHits : List WorkspaceSearchHit
  files : List WorkspaceFile
  bytes : ℕ

def workspaceCacheBytes (state : CachedWorkspaceState) : ℕ :=
  let length := String.utf8ByteSize
  let tree := (state.tree.map fun entry => saturatingAdd (length entry.path) 8).sum
  let git := saturatingAdd (state.gitStatus.elim 0 length) (state.diff.elim 0 length)
  let commits := (state.recentCommits.map length).sum
  let hits := (state.searchHits.map fun hit => saturatingAdd
    (saturatingAdd (saturatingAdd (length hit.query) (length hit.path)) (length hit.text)) 8).sum
  let files := (state.files.map fun file =>
    saturatingAdd (saturatingAdd (length file.path) (length file.sha256)) file.data.length).sum
  [tree, git, commits, hits, files].foldl saturatingAdd (length state.digest)

section Cache

variable {κ : Type} [Ord κ] [TransOrd κ]

abbrev CacheEntries (κ : Type) [Ord κ] := ExtTreeMap κ CachedWorkspaceState

/-- `κ` are the keys, of which nothing but their identity is used. -/
structure WorkspaceCache (κ : Type) [Ord κ] where
  entries : CacheEntries κ
  bytes : ℕ

/-- `keys().next()` of a hash map, which may be any of its keys. -/
structure FirstKey (κ : Type) [Ord κ] [TransOrd κ] where
  next : CacheEntries κ → Option κ
  mem : ∀ entries key, next entries = some key → key ∈ entries
  empty : ∀ entries, next entries = none → entries = ∅

namespace WorkspaceCache

def clear : WorkspaceCache κ := ⟨∅, 0⟩

/-- `entries.remove` with the counter. -/
def remove (cache : WorkspaceCache κ) (key : κ) : WorkspaceCache κ :=
  match cache.entries[key]? with
  | some previous => ⟨cache.entries.erase key, cache.bytes - previous.bytes⟩
  | none => cache

/-- The loop that evicts; it ends when there is nothing left to evict. -/
def makeRoom (first : FirstKey κ) (needed : ℕ) : ℕ → WorkspaceCache κ → WorkspaceCache κ
  | 0, cache => cache
  | fuel + 1, cache =>
      if agentWorkspaceCacheMaxEntries ≤ cache.entries.size ∨
          agentWorkspaceCacheMaxBytes < saturatingAdd cache.bytes needed then
        match first.next cache.entries with
        | none => cache
        | some oldestKey => makeRoom first needed fuel (cache.remove oldestKey)
      else cache

def insert (first : FirstKey κ) (cache : WorkspaceCache κ) (key : κ) (state : CachedWorkspaceState) :
    WorkspaceCache κ :=
  let state := { state with bytes := workspaceCacheBytes state }
  if agentWorkspaceCacheMaxBytes < state.bytes then
    { cache with entries := cache.entries.erase key }
  else
    let cache := cache.remove key
    let cache := cache.makeRoom first state.bytes cache.entries.size
    ⟨cache.entries.insert key state, saturatingAdd cache.bytes state.bytes⟩

def stored (cache : WorkspaceCache κ) : ℕ := Totals.total CachedWorkspaceState.bytes cache.entries

/-- The other entries and a new one are too many or too large together. -/
def Exceeds (cache : WorkspaceCache κ) (key : κ) (needed : ℕ) : Prop :=
  agentWorkspaceCacheMaxEntries < (cache.entries.erase key).size + 1 ∨ agentWorkspaceCacheMaxBytes <
    Totals.total CachedWorkspaceState.bytes (cache.entries.erase key) + needed

end WorkspaceCache

inductive CacheAction (κ : Type) [Ord κ] [TransOrd κ] where
  | insert (first : FirstKey κ) (key : κ) (state : CachedWorkspaceState)
  | clear

def cacheMachine (κ : Type) [Ord κ] [TransOrd κ] :
    Steps.Machine (CacheAction κ) (WorkspaceCache κ) where
  act action cache :=
    match action with
    | .insert first key state => some (cache.insert first key state)
    | .clear => some .clear
  fault _ _ := []

/-- A state above the limit does not take the place of an entry that counts. -/
def SparesCounted (cache : WorkspaceCache κ) : CacheAction κ → Prop
  | .insert _ key state => agentWorkspaceCacheMaxBytes < workspaceCacheBytes state →
      ∀ previous, cache.entries[key]? = some previous → previous.bytes = 0
  | .clear => True

end Cache

end Asp
