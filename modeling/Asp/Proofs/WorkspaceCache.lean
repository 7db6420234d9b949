import Asp.Lib.Lookup
import Asp.Spec.WorkspaceCache

/-! The byte counter of the workspace cache. It is exact as long as no state above the limit
replaces an entry: that exit of `insert` removes the entry and leaves the counter. -/

namespace Asp

open Std Totals

theorem saturatingAdd_of_le {a b n : ℕ} (h : saturatingAdd a b ≤ n) (hn : n < usizeMax) :
    saturatingAdd a b = a + b ∧ a + b ≤ n := by
  unfold saturatingAdd at *
  omega

section Counter

variable {κ : Type} [Ord κ] [TransOrd κ] [LawfulEqOrd κ]
variable {cache : WorkspaceCache κ} {first : FirstKey κ} {key : κ} {state : CachedWorkspaceState}

namespace WorkspaceCache

theorem remove_entries (cache : WorkspaceCache κ) (key : κ) :
    (cache.remove key).entries = cache.entries.erase key := by
  unfold remove
  split
  · rfl
  · rename_i hnone
    exact (erase_of_none hnone).symm

theorem remove_exact (h : cache.bytes = cache.stored) (key : κ) :
    (cache.remove key).bytes = (cache.remove key).stored := by
  unfold remove
  split
  · rename_i previous hprevious
    have herased := total_erase CachedWorkspaceState.bytes hprevious
    unfold stored at h ⊢
    dsimp only
    omega
  · exact h

theorem makeRoom_spec (first : FirstKey κ) {needed fuel : ℕ}
    (hneeded : needed ≤ agentWorkspaceCacheMaxBytes)
    (hfuel : cache.entries.size ≤ fuel) (h : cache.bytes = cache.stored) :
    (cache.makeRoom first needed fuel).bytes = (cache.makeRoom first needed fuel).stored ∧
      (cache.makeRoom first needed fuel).bytes + needed ≤ agentWorkspaceCacheMaxBytes ∧
      (cache.makeRoom first needed fuel).entries.size < agentWorkspaceCacheMaxEntries ∧
      (∀ (k : κ) (x : CachedWorkspaceState),
        (cache.makeRoom first needed fuel).entries[k]? = some x → cache.entries[k]? = some x) ∧
      (cache.makeRoom first needed fuel = cache ∨
        agentWorkspaceCacheMaxEntries ≤ cache.entries.size ∨
          agentWorkspaceCacheMaxBytes < cache.stored + needed) := by
  have hempty : cache.entries = ∅ → cache.bytes = 0 ∧ cache.entries.size = 0 := fun hempty => by
    rw [h, stored, hempty]
    exact ⟨rfl, rfl⟩
  induction fuel generalizing cache with
  | zero =>
    obtain ⟨hbytes, hsize⟩ := hempty (ExtTreeMap.eq_empty_iff_size_eq_zero.mpr (Nat.le_zero.mp hfuel))
    exact ⟨h, by rw [makeRoom, hbytes]; omega, by rw [makeRoom, hsize]; decide, fun _ _ => id, .inl rfl⟩
  | succ fuel ih =>
    rw [makeRoom]
    split_ifs with hfull
    · have hover : agentWorkspaceCacheMaxEntries ≤ cache.entries.size ∨
          agentWorkspaceCacheMaxBytes < cache.stored + needed :=
        hfull.imp_right fun hlt => h ▸ hlt.trans_le (Nat.min_le_left ..)
      cases hfirst : first.next cache.entries with
      | none =>
        obtain ⟨hbytes, hsize⟩ := hempty (first.empty _ hfirst)
        dsimp only
        exact ⟨h, by omega, by rw [hsize]; decide, fun _ _ => id, .inl rfl⟩
      | some oldest =>
        have hmem : cache.entries.contains oldest = true := first.mem _ _ hfirst
        have hsize : (cache.remove oldest).entries.size = cache.entries.size - 1 := by
          rw [remove_entries, ExtTreeMap.size_erase, if_pos hmem]
        have hexact := remove_exact h oldest
        obtain ⟨hbytes, hfits, hroom, hsub, -⟩ := ih (by omega) hexact fun hnone => by
          rw [hexact, stored, hnone]
          exact ⟨rfl, rfl⟩
        refine ⟨hbytes, hfits, hroom, fun k x hk => ?_, .inr hover⟩
        have hk := hsub k x hk
        rw [remove_entries] at hk
        exact (Lookup.getElem?_of_erase hk).2
    · obtain ⟨hsize, hbytes⟩ := not_or.mp hfull
      exact ⟨h, (saturatingAdd_of_le (Nat.not_lt.mp hbytes) (by decide)).2, Nat.not_le.mp hsize,
        fun _ _ => id, .inl rfl⟩

structure Exact (cache : WorkspaceCache κ) : Prop where
  stored : cache.bytes = cache.stored
  bytes : cache.bytes ≤ agentWorkspaceCacheMaxBytes
  size : cache.entries.size ≤ agentWorkspaceCacheMaxEntries

theorem Exact.insert (h : cache.Exact)
    (hsmall : ¬ agentWorkspaceCacheMaxBytes < workspaceCacheBytes state) :
    (cache.insert first key state).Exact ∧
      ∀ (k : κ) (x : CachedWorkspaceState), k ≠ key → cache.entries[k]? = some x →
        (cache.insert first key state).entries[k]? = none →
        cache.Exceeds key (workspaceCacheBytes state) := by
  obtain ⟨hexact, hfits, hroom, hsub, hkept⟩ := makeRoom_spec first
    (Nat.not_lt.mp hsmall) le_rfl (remove_exact h.stored key)
  rw [WorkspaceCache.insert, if_neg hsmall]
  dsimp only
  generalize (cache.remove key).makeRoom first (workspaceCacheBytes state)
    (cache.remove key).entries.size = room at *
  rw [WorkspaceCache.stored, remove_entries] at hkept
  have hnew : room.entries[key]? = none := by
    refine Option.eq_none_iff_forall_ne_some.mpr fun x hx => ?_
    have hx := hsub key x hx
    rw [remove_entries, ExtTreeMap.getElem?_erase_self] at hx
    cases hx
  have hsum : saturatingAdd room.bytes (workspaceCacheBytes state) =
      room.bytes + workspaceCacheBytes state := Nat.min_eq_left (hfits.trans (by decide))
  refine ⟨⟨?_, by rw [hsum]; exact hfits, ?_⟩, fun k x hne hk hgone => ?_⟩
  · rw [hsum, hexact, WorkspaceCache.stored, WorkspaceCache.stored, total_insert _ hnew]
  · exact (ExtTreeMap.size_insert_le).trans hroom
  · rw [Lookup.getElem?_insert_of_ne hne] at hgone
    refine (hkept.resolve_left ?_).imp_left Nat.lt_succ_of_le
    rintro rfl
    rw [remove_entries, Lookup.getElem?_erase_of_ne hne, hk] at hgone
    cases hgone

omit [LawfulEqOrd κ] in
theorem insert_oversized (hlarge : agentWorkspaceCacheMaxBytes < workspaceCacheBytes state) :
    cache.insert first key state = { cache with entries := cache.entries.erase key } := by
  rw [WorkspaceCache.insert, if_pos hlarge]

theorem Exact.oversized (h : cache.Exact) :
    cache.bytes = WorkspaceCache.stored { cache with entries := cache.entries.erase key } ↔
      ∀ previous, cache.entries[key]? = some previous → previous.bytes = 0 := by
  rw [h.stored, WorkspaceCache.stored, WorkspaceCache.stored]
  cases hget : cache.entries[key]? with
  | none => simp [erase_of_none hget]
  | some previous =>
    have herased := total_erase CachedWorkspaceState.bytes hget
    simp only [Option.some.injEq, forall_eq']
    omega

theorem Exact.insert_iff (h : cache.Exact) :
    (cache.insert first key state).bytes = (cache.insert first key state).stored ↔
      SparesCounted cache (.insert first key state) := by
  by_cases hlarge : agentWorkspaceCacheMaxBytes < workspaceCacheBytes state
  · rw [insert_oversized hlarge]
    exact h.oversized.trans ⟨fun hzero _ => hzero, fun hguard => hguard hlarge⟩
  · exact ⟨fun _ hno => absurd hno hlarge, fun _ => (h.insert hlarge).1.stored⟩

theorem Exact.step (h : cache.Exact) {action : CacheAction κ} (hguard : SparesCounted cache action)
    {cache' : WorkspaceCache κ} (hact : (cacheMachine κ).act action cache = some cache') :
    cache'.Exact := by
  cases action with
  | clear =>
    cases hact
    exact ⟨rfl, Nat.zero_le _, Nat.zero_le _⟩
  | insert first key state =>
    cases hact
    by_cases hlarge : agentWorkspaceCacheMaxBytes < workspaceCacheBytes state
    · have hexact := h.insert_iff.mpr hguard
      rw [insert_oversized hlarge] at hexact ⊢
      exact ⟨hexact, h.bytes, ExtTreeMap.size_erase_le.trans h.size⟩
    · exact (h.insert hlarge).1

end WorkspaceCache

/-- In every run in which no state above the limit replaces an entry that counts. -/
theorem workspace_cache_is_exact {cache : WorkspaceCache κ}
    (hreach : (cacheMachine κ).Reaches SparesCounted .clear cache) :
    cache.bytes = cache.stored ∧ cache.bytes ≤ agentWorkspaceCacheMaxBytes ∧
      cache.entries.size ≤ agentWorkspaceCacheMaxEntries ∧
      ∀ (first : FirstKey κ) (key : κ) (state : CachedWorkspaceState),
        ((cache.insert first key state).bytes = (cache.insert first key state).stored ↔
          SparesCounted cache (.insert first key state)) ∧
        ∀ (k : κ) (x : CachedWorkspaceState), k ≠ key → cache.entries[k]? = some x →
          (cache.insert first key state).entries[k]? = none →
          cache.Exceeds key (workspaceCacheBytes state) := by
  have hexact : cache.Exact := hreach.invariant (P := WorkspaceCache.Exact)
    ⟨rfl, Nat.zero_le _, Nat.zero_le _⟩ fun _ _ _ hguard hact h => h.step hguard hact
  refine ⟨hexact.stored, hexact.bytes, hexact.size, fun first key state => ⟨hexact.insert_iff, ?_⟩⟩
  intro k x hne hk hgone
  by_cases hlarge : agentWorkspaceCacheMaxBytes < workspaceCacheBytes state
  · rw [WorkspaceCache.insert_oversized hlarge, Lookup.getElem?_erase_of_ne hne, hk] at hgone
    cases hgone
  · exact (hexact.insert hlarge).2 k x hne hk hgone

end Counter

def leastKey : FirstKey ℕ :=
  ⟨fun entries => entries.minKey?, fun _ _ => ExtTreeMap.minKey?_mem,
    fun _ => ExtTreeMap.minKey?_eq_none_iff.mp⟩

def fileState (n : ℕ) : CachedWorkspaceState :=
  ⟨"", none, [], none, none, [], [], [⟨"", "", List.replicate n 0⟩], n⟩

theorem fileState_bytes {n : ℕ} (h : n ≤ usizeMax) : workspaceCacheBytes (fileState n) = n := by
  simp [workspaceCacheBytes, fileState, saturatingAdd, h]

def oneFile (key n : ℕ) : CacheEntries ℕ := (∅ : CacheEntries ℕ).insert key (fileState n)

theorem oneFile_erase (key n : ℕ) : (oneFile key n).erase key = ∅ :=
  ExtTreeMap.ext_getElem? fun k => by simp [oneFile]

theorem remove_empty (key bytes : ℕ) : WorkspaceCache.remove ⟨∅, bytes⟩ key = ⟨∅, bytes⟩ := by
  rw [WorkspaceCache.remove, ExtTreeMap.getElem?_empty]

theorem remove_oneFile (key n bytes : ℕ) :
    WorkspaceCache.remove ⟨oneFile key n, bytes⟩ key = ⟨∅, bytes - n⟩ := by
  rw [WorkspaceCache.remove, oneFile, ExtTreeMap.getElem?_insert_self]
  exact congrArg (WorkspaceCache.mk · _) (oneFile_erase key n)

theorem fileState_oversized :
    agentWorkspaceCacheMaxBytes <
      workspaceCacheBytes (fileState (agentWorkspaceCacheMaxBytes + 1)) := by
  rw [fileState_bytes (by decide)]
  exact Nat.lt_succ_self _

section Insert

variable (first : FirstKey ℕ) {key key' bytes m n : ℕ} (hfits : n ≤ agentWorkspaceCacheMaxBytes)
include hfits

theorem insert_of_removed {entries : CacheEntries ℕ} {left : ℕ}
    (hremove : WorkspaceCache.remove ⟨entries, bytes⟩ key = ⟨∅, left⟩) :
    WorkspaceCache.insert first ⟨entries, bytes⟩ key (fileState n) =
      ⟨oneFile key n, saturatingAdd left n⟩ := by
  rw [WorkspaceCache.insert]
  rw [fileState_bytes (hfits.trans (by decide)), if_neg (Nat.not_lt.mpr hfits), hremove]
  rfl

theorem insert_evicts (hne : key ≠ key')
    (hover : agentWorkspaceCacheMaxBytes < saturatingAdd bytes n) :
    WorkspaceCache.insert first ⟨oneFile key m, bytes⟩ key' (fileState n) =
      ⟨oneFile key' n, saturatingAdd (bytes - m) n⟩ := by
  have hnone : (oneFile key m)[key']? = none := by simp [oneFile, hne]
  have hsize : (oneFile key m).size = 1 := by simp [oneFile, ExtTreeMap.size_insert]
  have hnext : first.next (oneFile key m) = some key := by
    cases hnext : first.next (oneFile key m) with
    | none => simpa [oneFile] using first.empty _ hnext
    | some k =>
      obtain rfl : key = k := by simpa [oneFile] using first.mem _ _ hnext
      rfl
  rw [WorkspaceCache.insert]
  rw [fileState_bytes (hfits.trans (by decide)), if_neg (Nat.not_lt.mpr hfits), WorkspaceCache.remove,
    hnone]
  dsimp only
  rw [hsize, WorkspaceCache.makeRoom, if_pos (.inr hover), hnext]
  dsimp only
  rw [remove_oneFile]
  rfl

theorem fits_sparesCounted {cache : WorkspaceCache ℕ} :
    SparesCounted cache (.insert first key (fileState n)) := by
  intro hlarge
  rw [fileState_bytes (hfits.trans (by decide))] at hlarge
  exact absurd hlarge (Nat.not_lt.mpr hfits)

end Insert

theorem reaches_insert {guard : WorkspaceCache ℕ → CacheAction ℕ → Prop}
    {cache cache' : WorkspaceCache ℕ} {first : FirstKey ℕ} {key : ℕ} {state : CachedWorkspaceState}
    (hreach : (cacheMachine ℕ).Reaches guard .clear cache)
    (hguard : guard cache (.insert first key state))
    (hinsert : cache.insert first key state = cache') :
    (cacheMachine ℕ).Reaches guard .clear cache' :=
  hreach.step hguard (congrArg some hinsert)

/-- A state is replaced by one of 20 MiB, a second one of that size evicts it, and a state that is
too large comes under a third key. -/
theorem evicting_run_is_counted : ∃ n, n = 20 * 1024 * 1024 ∧
    (cacheMachine ℕ).Reaches SparesCounted .clear ⟨oneFile 1 n, n⟩ ∧
    n = WorkspaceCache.stored ⟨oneFile 1 n, n⟩ := by
  obtain ⟨n, hn⟩ : ∃ n, n = 20 * 1024 * 1024 := ⟨_, rfl⟩
  have hfits : n ≤ agentWorkspaceCacheMaxBytes := hn ▸ (by decide)
  have hone : 1 ≤ agentWorkspaceCacheMaxBytes := by decide
  have hsum : saturatingAdd 0 n = n := by
    rw [hn]
    decide
  have hover : agentWorkspaceCacheMaxBytes < saturatingAdd n n := by
    rw [hn]
    decide
  have hnone : (oneFile 1 n)[2]? = none := by simp [oneFile]
  have hfirst : WorkspaceCache.insert leastKey .clear 0 (fileState 1) = ⟨oneFile 0 1, 1⟩ :=
    insert_of_removed leastKey hone (remove_empty 0 0)
  have hreplace : WorkspaceCache.insert leastKey ⟨oneFile 0 1, 1⟩ 0 (fileState n) = ⟨oneFile 0 n, n⟩ := by
    rw [insert_of_removed leastKey hfits (remove_oneFile 0 1 1), hsum]
  have hevict : WorkspaceCache.insert leastKey ⟨oneFile 0 n, n⟩ 1 (fileState n) = ⟨oneFile 1 n, n⟩ := by
    rw [insert_evicts leastKey hfits zero_ne_one hover, Nat.sub_self, hsum]
  have hlast : WorkspaceCache.insert leastKey ⟨oneFile 1 n, n⟩ 2
      (fileState (agentWorkspaceCacheMaxBytes + 1)) = ⟨oneFile 1 n, n⟩ := by
    rw [WorkspaceCache.insert_oversized fileState_oversized]
    exact congrArg (WorkspaceCache.mk · n) (erase_of_none hnone)
  have hreach : (cacheMachine ℕ).Reaches SparesCounted .clear ⟨oneFile 1 n, n⟩ := by
    have hreplaced := reaches_insert (reaches_insert .start (fits_sparesCounted leastKey hone) hfirst)
      (fits_sparesCounted leastKey hfits) hreplace
    refine reaches_insert (reaches_insert hreplaced (fits_sparesCounted leastKey hfits) hevict) ?_ hlast
    exact fun _ previous hprevious => absurd (hnone.symm.trans hprevious) nofun
  exact ⟨n, hn, hreach, (workspace_cache_is_exact hreach).1⟩

/-- 20 MiB are replaced by a state that is too large, then stored again, and the next small
state evicts them. -/
theorem oversized_state_is_not_uncounted : ∃ cache : WorkspaceCache ℕ,
    (cacheMachine ℕ).Reaches (fun _ _ => True) .clear cache ∧
    cache.bytes = 2 * cache.stored ∧ agentWorkspaceCacheMaxBytes < cache.bytes ∧
    cache.entries[0]? = some (fileState (20 * 1024 * 1024)) ∧
    ¬ cache.Exceeds 1 (workspaceCacheBytes (fileState 1)) ∧
    (cache.insert leastKey 1 (fileState 1)).entries[0]? = none := by
  generalize hn : 20 * 1024 * 1024 = n
  have hfits : n ≤ agentWorkspaceCacheMaxBytes := hn ▸ (by decide)
  have hsum : saturatingAdd (saturatingAdd 0 n) n = 2 * n := by
    rw [← hn]
    decide
  have hover : agentWorkspaceCacheMaxBytes < saturatingAdd (2 * n) 1 := by
    rw [← hn]
    decide
  have htotal : total CachedWorkspaceState.bytes (oneFile 0 n) = n := by
    rw [oneFile, total_insert _ ExtTreeMap.getElem?_empty]
    exact Nat.zero_add n
  refine ⟨⟨oneFile 0 n, 2 * n⟩, ?_, ?_, ?_, ?_, ?_, ?_⟩
  · have hfirst : WorkspaceCache.insert leastKey .clear 0 (fileState n) =
        ⟨oneFile 0 n, saturatingAdd 0 n⟩ := insert_of_removed leastKey hfits (remove_empty 0 0)
    have hlarge : WorkspaceCache.insert leastKey ⟨oneFile 0 n, saturatingAdd 0 n⟩ 0
        (fileState (agentWorkspaceCacheMaxBytes + 1)) = ⟨∅, saturatingAdd 0 n⟩ := by
      rw [WorkspaceCache.insert_oversized fileState_oversized, oneFile_erase]
    have hagain : WorkspaceCache.insert leastKey ⟨∅, saturatingAdd 0 n⟩ 0 (fileState n) =
        ⟨oneFile 0 n, 2 * n⟩ := by
      rw [insert_of_removed leastKey hfits (remove_empty 0 _), hsum]
    exact reaches_insert (reaches_insert (reaches_insert .start trivial hfirst) trivial hlarge) trivial
      hagain
  · exact congrArg (2 * ·) htotal.symm
  · rw [← hn]
    decide
  · exact ExtTreeMap.getElem?_insert_self
  · have herase : (oneFile 0 n).erase 1 = _ := erase_of_none (by simp [oneFile])
    rw [WorkspaceCache.Exceeds, fileState_bytes (by decide), herase, htotal, oneFile,
      ExtTreeMap.size_insert, ← hn]
    decide
  · rw [insert_evicts leastKey (by decide) zero_ne_one hover]
    simp [oneFile]

end Asp
