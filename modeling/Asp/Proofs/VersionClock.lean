import Asp.Lib.Lookup
import Asp.Spec.Workspace

/-! The version clock over restarts. When every session spells a file in one way and no deletion
takes the newest version away, `from_loaded` finds it in whatever order it reads. -/

namespace Asp

open Std Lookup

variable {sha256 : Bytes → String}

theorem LoadedSession.push_fileVersions (s : LoadedSession) (event : Event) :
    (s.push sha256 event).fileVersions =
      event.kind.fileVersion.elim s.fileVersions fun entry =>
        s.fileVersions.insert entry.1 entry.2 := by
  simp only [LoadedSession.push, LoadedSession.apply]
  cases event.kind <;> rfl

theorem WorkspaceSession.table_append (session : WorkspaceSession) (unixMs : ℕ)
    (kind : EventKind) :
    (session.append unixMs kind).table sha256 =
      kind.fileVersion.elim (session.table sha256) fun entry =>
        (session.table sha256).insert entry.1 entry.2 := by
  simp only [WorkspaceSession.table, WorkspaceSession.loaded, WorkspaceSession.append,
    List.foldl_append, List.foldl_cons, List.foldl_nil]
  exact LoadedSession.push_fileVersions ..

theorem loadedPath_of_workspaceEventPath {path : String} {key : PathKey}
    (h : workspaceEventPath path = some key) : loadedPath path = some key := by
  unfold workspaceEventPath at h
  split_ifs at h
  exact h

section Tables

variable {table : ExtTreeMap String ℕ} {key : PathKey} {path : String} {version : ℕ}

def OneSpelling (table : ExtTreeMap String ℕ) : Prop :=
  ∀ path ∈ table, (loadedPath path).isSome → SpelledAs table path

theorem HasVersion.of_insert {key' : PathKey} {version' : ℕ} (hpath : loadedPath path = some key)
    (h : HasVersion (table.insert path version) key' version') :
    key' = key ∧ version' = version ∨ HasVersion table key' version' := by
  obtain ⟨path', hget, hkey⟩ := h
  rcases getElem?_insert_cases hget with ⟨rfl, rfl⟩ | ⟨-, hget⟩
  · exact .inl ⟨Option.some.inj (hkey.symm.trans hpath), rfl⟩
  · exact .inr ⟨path', hget, hkey⟩

theorem HasVersion.insert {key' : PathKey} {version' : ℕ} (h : HasVersion table key' version')
    (hle : ∀ old, table[path]? = some old → old ≤ version) :
    ∃ version'', HasVersion (table.insert path version) key' version'' ∧ version' ≤ version'' := by
  obtain ⟨path', hget, hkey⟩ := h
  rcases eq_or_ne path' path with rfl | hne
  · exact ⟨version, ⟨path', ExtTreeMap.getElem?_insert_self, hkey⟩, hle version' hget⟩
  · exact ⟨version', ⟨path', (getElem?_insert_of_ne hne).trans hget, hkey⟩, le_rfl⟩

theorem SpelledAs.insert (h : SpelledAs table path) (version : ℕ) :
    SpelledAs (table.insert path version) path := fun path' hmem hsame => by
  rcases ExtTreeMap.mem_insert.mp hmem with hcmp | hmem
  · exact (LawfulEqCmp.eq_of_compare hcmp).symm
  · exact h path' hmem hsame

theorem OneSpelling.insert (h : OneSpelling table) (hpath : SpelledAs table path) (version : ℕ) :
    OneSpelling (table.insert path version) := fun path₁ hmem hsome path₂ hmem₂ hsame => by
  rcases ExtTreeMap.mem_insert.mp hmem with hcmp | hmem
  · obtain rfl := LawfulEqCmp.eq_of_compare hcmp
    exact hpath.insert version path₂ hmem₂ hsame
  · rcases ExtTreeMap.mem_insert.mp hmem₂ with hcmp | hmem₂
    · obtain rfl := LawfulEqCmp.eq_of_compare hcmp
      exact (hpath path₁ hmem hsame.symm).symm
    · exact h path₁ hmem hsome path₂ hmem₂ hsame

end Tables

structure Workspace.Sound (sha256 : Bytes → String) (w : Workspace) : Prop where
  positive : ∀ key version, (key, version) ∈ w.recorded → 0 < version
  held : ∀ key version, (key, version) ∈ w.recorded →
    ∃ (id : Uuid) (session : WorkspaceSession) (version' : ℕ), w.sessions[id]? = some session ∧
      HasVersion (session.table sha256) key version' ∧ version ≤ version'
  spelled : ∀ (id : Uuid) session, w.sessions[id]? = some session →
    OneSpelling (session.table sha256)
  below : ∀ (id : Uuid) session key version, w.sessions[id]? = some session →
    HasVersion (session.table sha256) key version → version ≤ MaxMap.value w.versions key

namespace Workspace.Sound

variable {w : Workspace} {id : Uuid} {session : WorkspaceSession} {key : PathKey} {path : String}
  {version : ℕ} {kind : EventKind}

section

variable (h : w.Sound sha256)

include h

theorem clock (hmem : (key, version) ∈ w.recorded) : version ≤ MaxMap.value w.versions key := by
  obtain ⟨id, session, version', hsession, hhas, hle⟩ := h.held key version hmem
  exact hle.trans (h.below id session key version' hsession hhas)

theorem setVersions (versions : ExtTreeMap PathKey ℕ)
    (hle : ∀ key, MaxMap.value w.versions key ≤ MaxMap.value versions key) :
    ({ w with versions := versions } : Workspace).Sound sha256 :=
  ⟨h.positive, h.held, h.spelled, fun id session key version hsession hhas =>
    (h.below id session key version hsession hhas).trans (hle key)⟩

theorem remember (key : PathKey) (observation : WorkspaceFileObservation)
    (victim : PathKey) : (w.remember key observation victim).Sound sha256 :=
  ⟨h.positive, h.held, h.spelled, h.below⟩

theorem setSession (id : Uuid) (session' : WorkspaceSession)
    (hold : ∀ session, w.sessions[id]? = some session → ∀ key version, 0 < version →
      HasVersion (session.table sha256) key version →
      ∃ version', HasVersion (session'.table sha256) key version' ∧ version ≤ version')
    (hspelled : OneSpelling (session'.table sha256))
    (hbelow : ∀ key version, HasVersion (session'.table sha256) key version →
      version ≤ MaxMap.value w.versions key) :
    ({ w with sessions := w.sessions.insert id session' } : Workspace).Sound sha256 := by
  refine ⟨h.positive, fun key version hmem => ?_, fun id' s hs => ?_, fun id' s key version hs => ?_⟩
  · obtain ⟨id₀, s₀, version', hs₀, hhas, hle⟩ := h.held key version hmem
    rcases eq_or_ne id₀ id with rfl | hne
    · obtain ⟨version'', hhas', hle'⟩ :=
        hold s₀ hs₀ key version' ((h.positive key version hmem).trans_le hle) hhas
      exact ⟨id₀, session', version'', ExtTreeMap.getElem?_insert_self, hhas', hle.trans hle'⟩
    · exact ⟨id₀, s₀, version', (getElem?_insert_of_ne hne).trans hs₀, hhas, hle⟩
  · rcases getElem?_insert_cases hs with ⟨-, rfl⟩ | ⟨-, hs⟩
    · exact hspelled
    · exact h.spelled id' s hs
  · rcases getElem?_insert_cases hs with ⟨-, rfl⟩ | ⟨-, hs⟩
    · exact hbelow key version
    · exact h.below id' s key version hs

theorem record (hsession : w.sessions[id]? = some session)
    (hhas : HasVersion (session.table sha256) key version) (hpos : 0 < version) :
    ({ w with recorded := w.recorded ++ [(key, version)] } : Workspace).Sound sha256 := by
  refine ⟨fun key' version' hmem => ?_, fun key' version' hmem => ?_, h.spelled, h.below⟩
  · rcases List.mem_append.mp hmem with hmem | hmem
    · exact h.positive key' version' hmem
    · obtain ⟨rfl, rfl⟩ := Prod.mk.inj (List.mem_singleton.mp hmem)
      exact hpos
  · rcases List.mem_append.mp hmem with hmem | hmem
    · exact h.held key' version' hmem
    · obtain ⟨rfl, rfl⟩ := Prod.mk.inj (List.mem_singleton.mp hmem)
      exact ⟨id, session, version', hsession, hhas, le_rfl⟩

theorem append (hkind : kind.fileVersion = none) (unixMs : ℕ) :
    (w.appendLocked id unixMs kind).Sound sha256 := by
  unfold Workspace.appendLocked
  split
  · exact h
  · rename_i session hsession
    have htable : (session.append unixMs kind).table sha256 = session.table sha256 := by
      rw [WorkspaceSession.table_append, hkind, Option.elim_none]
    simp only [hkind, Option.bind_none, Option.elim_none, Option.toList_none, List.append_nil]
    refine h.setSession id (session.append unixMs kind) (fun s hs key version _ hhas => ?_) ?_
      fun key version hhas => ?_
    · obtain rfl := Option.some.inj (hsession.symm.trans hs)
      exact ⟨version, htable.symm ▸ hhas, le_rfl⟩
    · exact htable.symm ▸ h.spelled id session hsession
    · exact h.below id session key version hsession (htable ▸ hhas)

theorem appendFile (hkind : kind.fileVersion = some (path, version))
    (hpath : workspaceEventPath path = some key) (hpos : 0 < version)
    (hspelled : ∀ session, w.sessions[id]? = some session → SpelledAs (session.table sha256) path)
    (hle : MaxMap.value w.versions key ≤ version) (unixMs : ℕ) :
    (w.appendLocked id unixMs kind).Sound sha256 := by
  have hloaded := loadedPath_of_workspaceEventPath hpath
  unfold Workspace.appendLocked
  split
  · exact h
  · rename_i session hsession
    have htable : (session.append unixMs kind).table sha256 =
        (session.table sha256).insert path version := by
      rw [WorkspaceSession.table_append, hkind, Option.elim_some]
    simp only [hkind, hpath, Option.bind_some, Option.map_some, Option.elim_some,
      Option.toList_some]
    have hold : ∀ old, (session.table sha256)[path]? = some old → old ≤ version := fun old hget =>
      (h.below id session key old hsession ⟨path, hget, hloaded⟩).trans hle
    have hraised := h.setVersions _ fun key' => MaxMap.value_le_raise w.versions key key' version
    have hset := hraised.setSession id (session.append unixMs kind) (fun s hs key version _ hhas => ?_) ?_
      fun key version hhas => ?_
    · refine hset.record ExtTreeMap.getElem?_insert_self ?_ hpos
      rw [htable]
      exact ⟨path, ExtTreeMap.getElem?_insert_self, hloaded⟩
    · obtain rfl := Option.some.inj (hsession.symm.trans hs)
      rw [htable]
      exact hhas.insert hold
    · rw [htable]
      exact (h.spelled id session hsession).insert (hspelled session hsession) version
    · rw [htable] at hhas
      rcases hhas.of_insert hloaded with ⟨rfl, rfl⟩ | hhas
      · exact MaxMap.le_value_raise ..
      · exact hraised.below id session key version hsession hhas

end

end Workspace.Sound

namespace Workspace

variable {w w' : Workspace} {id : Uuid} {key : PathKey} {path relative : String} {version : ℕ}
  {kind : EventKind}

theorem appendLocked_spelled (hkind : kind.fileVersion = some (path, version))
    (h : ∀ (id : Uuid) session, w.sessions[id]? = some session → SpelledAs (session.table sha256) path)
    (id : Uuid) (unixMs : ℕ) : ∀ (id' : Uuid) session,
      (w.appendLocked id unixMs kind).sessions[id']? = some session →
      SpelledAs (session.table sha256) path := by
  intro id' session hsession
  unfold appendLocked at hsession
  split at hsession
  · exact h id' session hsession
  · rename_i old hold
    rcases getElem?_insert_cases hsession with ⟨-, rfl⟩ | ⟨-, hsession⟩
    · rw [WorkspaceSession.table_append, hkind, Option.elim_some]
      exact (h id old hold).insert version
    · exact h id' session hsession

theorem appendLocked_value (hkind : kind.fileVersion = some (path, version))
    (hpath : workspaceEventPath path = some key) (hle : MaxMap.value w.versions key ≤ version)
    (id : Uuid) (unixMs : ℕ) : MaxMap.value (w.appendLocked id unixMs kind).versions key ≤ version := by
  unfold appendLocked
  split
  · exact hle
  · simp only [hkind, hpath, Option.bind_some, Option.map_some, Option.elim_some, MaxMap.raise,
      MaxMap.value_insert_self]
    exact max_le hle le_rfl

theorem fanOut_sound (order : List Delivery) (h : w.Sound sha256)
    (hpath : workspaceEventPath relative = some key) (hpos : 0 < version)
    (hspelled : ∀ (id : Uuid) session, w.sessions[id]? = some session →
      SpelledAs (session.table sha256) relative)
    (hle : MaxMap.value w.versions key ≤ version) :
    (fanOut relative version order w).1.Sound sha256 := by
  induction order generalizing w with
  | nil => exact h
  | cons delivery order ih =>
    unfold fanOut
    dsimp only
    split_ifs
    · exact ih h hspelled hle
    · exact ih (h.appendFile rfl hpath hpos (hspelled _) hle _) (appendLocked_spelled rfl hspelled _ _)
        (appendLocked_value rfl hpath hle _ _)
    · exact h

theorem mutate_sound (h : w.Sound sha256) {unixMs requestId : ℕ} {requestHash digest : String}
    (hspelled : ∀ session, w.sessions[id]? = some session → SpelledAs (session.table sha256) path)
    (hact : w.mutate id unixMs requestId requestHash path version digest = some w') :
    w'.Sound sha256 := by
  unfold mutate at hact
  split at hact
  · cases hact
  · rename_i key hpath
    split_ifs at hact with hnew
    obtain ⟨-, hlt, -⟩ := hnew
    cases hact
    have happended : (w.appendLocked id unixMs
        (.fileMutation requestId requestHash path version digest)).Sound sha256 :=
      h.appendFile rfl hpath (Nat.zero_lt_of_lt hlt) hspelled hlt.le unixMs
    refine happended.setVersions _ fun key' => ?_
    rcases eq_or_ne key key' with rfl | hne
    · rw [MaxMap.value_insert_self]
      exact appendLocked_value rfl hpath hlt.le id unixMs
    · rw [MaxMap.value_insert_of_ne hne]

theorem deliver_sound (h : w.Sound sha256) (hpath : workspaceEventPath relative = some key)
    (hpos : 0 < version)
    (hspelled : ∀ (id : Uuid) session, w.sessions[id]? = some session →
      SpelledAs (session.table sha256) relative)
    (hle : MaxMap.value w.versions key ≤ version) (observation : WorkspaceFileObservation)
    (victim : PathKey) (order : List Delivery) :
    (w.deliver key relative version observation victim order).Sound sha256 := by
  have hfan := fanOut_sound order h hpath hpos hspelled hle
  unfold deliver
  dsimp only
  split_ifs
  · exact hfan.remember key observation victim
  · exact hfan

theorem recordFileEvent_sound (h : w.Sound sha256) {observation : WorkspaceFileObservation}
    {victim : PathKey} {order : List Delivery}
    (hspelled : ∀ (id : Uuid) session, w.sessions[id]? = some session →
      SpelledAs (session.table sha256) relative)
    (hact : w.recordFileEvent relative observation victim order = some w') : w'.Sound sha256 := by
  unfold recordFileEvent at hact
  split at hact
  · cases hact
  · rename_i key hpath
    dsimp only at hact
    split_ifs at hact with hperm hchanged hpartial
    · exact Option.some.inj hact ▸ h
    · have hpos : 0 < MaxMap.value w.versions key := by
        unfold partiallyDelivered at hpartial
        by_contra hzero
        simp [hzero] at hpartial
      exact Option.some.inj hact ▸ deliver_sound h hpath hpos hspelled le_rfl _ _ _
    · exact Option.some.inj hact ▸ h
    · have hadvanced := h.setVersions (w.versions.insert key (MaxMap.value w.versions key + 1))
        fun key' => by
          rcases eq_or_ne key key' with rfl | hne
          · rw [MaxMap.value_insert_self]
            exact Nat.le_succ _
          · rw [MaxMap.value_insert_of_ne hne]
      exact Option.some.inj hact ▸ deliver_sound hadvanced hpath (Nat.succ_pos _) hspelled
        (MaxMap.value_insert_self ..).le _ _ _

end Workspace

section Snapshot

open Workspace

variable {versions : ExtTreeMap PathKey ℕ} {spelling : PathKey → String}

theorem spelledVersions_get
    (hspelling : ∀ entry ∈ versions.toList, loadedPath (spelling entry.1) = some entry.1)
    {key : PathKey} {version : ℕ} (hget : versions[key]? = some version) :
    (spelledVersions versions spelling)[spelling key]? = some version := by
  have hmem := ExtTreeMap.mem_toList_iff_getElem?_eq_some.mpr hget
  refine ExtTreeMap.getElem?_ofList_of_mem ReflCmp.compare_self ?_
    (List.mem_map.mpr ⟨(key, version), hmem, rfl⟩)
  rw [List.pairwise_map]
  refine ExtTreeMap.distinct_keys_toList.imp_of_mem fun {entry other} hentry hother hne hcmp => hne ?_
  -- Two keys with one spelling would be loaded as one key.
  have hsame := (hspelling entry hentry).symm.trans
    ((congrArg loadedPath (LawfulEqCmp.eq_of_compare hcmp)).trans (hspelling other hother))
  rw [Option.some.inj hsame]
  exact ReflCmp.compare_self

theorem spelledVersions_of_get
    (hspelling : ∀ entry ∈ versions.toList, loadedPath (spelling entry.1) = some entry.1)
    {path : String} {version : ℕ} (hget : (spelledVersions versions spelling)[path]? = some version) :
    ∃ key, path = spelling key ∧ loadedPath path = some key ∧ versions[key]? = some version := by
  have hmem : path ∈ spelledVersions versions spelling :=
    ExtTreeMap.mem_iff_isSome_getElem?.mpr (by rw [hget]; rfl)
  have hlisted := List.contains_iff_mem.mp (ExtTreeMap.mem_ofList.mp hmem)
  rw [List.map_map] at hlisted
  obtain ⟨⟨key, version'⟩, hentry, rfl⟩ := List.mem_map.mp hlisted
  have hkey := ExtTreeMap.mem_toList_iff_getElem?_eq_some.mp hentry
  obtain rfl := Option.some.inj ((spelledVersions_get hspelling hkey).symm.trans hget)
  exact ⟨key, rfl, hspelling _ hentry, hkey⟩

end Snapshot

namespace Workspace

variable {w w' : Workspace} {id : Uuid} {key : PathKey} {version : ℕ}

theorem compact_sound (h : w.Sound sha256) {spelling : PathKey → String}
    (hact : w.compact id spelling = some w') : w'.Sound sha256 := by
  unfold compact at hact
  split at hact
  · cases hact
  · rename_i session hsession
    split_ifs at hact with hall
    cases hact
    have hspelling : ∀ entry ∈ w.versions.toList, loadedPath (spelling entry.1) = some entry.1 :=
      fun entry hentry => of_decide_eq_true (List.all_eq_true.mp hall entry hentry)
    refine h.setSession id _ (fun s hs key version hpos hhas => ?_) ?_ ?_
    · have hbelow := h.below id s key version hs hhas
      have hget := MaxMap.getElem?_of_value_pos (hpos.trans_le hbelow)
      have hmem := ExtTreeMap.mem_toList_iff_getElem?_eq_some.mpr hget
      exact ⟨_, ⟨spelling key, spelledVersions_get hspelling hget, hspelling _ hmem⟩, hbelow⟩
    · intro path hpath hsome path' hpath' hsame
      obtain ⟨version, hget⟩ := Option.isSome_iff_exists.mp (ExtTreeMap.mem_iff_isSome_getElem?.mp hpath)
      obtain ⟨version', hget'⟩ := Option.isSome_iff_exists.mp (ExtTreeMap.mem_iff_isSome_getElem?.mp hpath')
      obtain ⟨key, rfl, hkey, -⟩ := spelledVersions_of_get hspelling hget
      obtain ⟨key', rfl, hkey', -⟩ := spelledVersions_of_get hspelling hget'
      rw [Option.some.inj (hkey'.symm.trans (hsame.trans hkey))]
    · rintro key version ⟨path, hget, hkey⟩
      obtain ⟨key', -, hkey', hversion⟩ := spelledVersions_of_get hspelling hget
      obtain rfl := Option.some.inj (hkey'.symm.trans hkey)
      exact (MaxMap.value_of_getElem? hversion).ge

theorem delete_sound (h : w.Sound sha256)
    (hkept : ∀ session, w.sessions[id]? = some session →
      ∀ key version, HasVersion (session.table sha256) key version →
        ∃ (id' : Uuid) (session' : WorkspaceSession) (version' : ℕ), id' ≠ id ∧
          w.sessions[id']? = some session' ∧
          HasVersion (session'.table sha256) key version' ∧ version ≤ version') :
    ({ w with sessions := w.sessions.erase id } : Workspace).Sound sha256 := by
  have hother : ∀ {id' : Uuid}, id' ≠ id → (w.sessions.erase id)[id']? = w.sessions[id']? :=
    fun {id'} hne => by
      rw [ExtTreeMap.getElem?_erase, if_neg (fun hcmp => hne (LawfulEqCmp.eq_of_compare hcmp).symm)]
  have hleft : ∀ {id' : Uuid} {s}, (w.sessions.erase id)[id']? = some s →
      w.sessions[id']? = some s := fun {id' s} hs => by
    rw [ExtTreeMap.getElem?_erase] at hs
    split_ifs at hs
    exact hs
  refine ⟨h.positive, fun key version hmem => ?_, fun id' s hs => h.spelled id' s (hleft hs),
    fun id' s key version hs => h.below id' s key version (hleft hs)⟩
  obtain ⟨id₀, s₀, version', hs₀, hhas, hle⟩ := h.held key version hmem
  rcases eq_or_ne id₀ id with rfl | hne
  · obtain ⟨id', s', version'', hne, hs', hhas', hle'⟩ := hkept s₀ hs₀ key version' hhas
    exact ⟨id', s', version'', (hother hne).trans hs', hhas', hle.trans hle'⟩
  · exact ⟨id₀, s₀, version', (hother hne).trans hs₀, hhas, hle⟩

theorem le_mergeLoaded {table : ExtTreeMap String ℕ} (hone : OneSpelling table)
    {entries : List (String × ℕ)} (hperm : entries.Perm table.toList)
    (hhas : HasVersion table key version) (versions : ExtTreeMap PathKey ℕ) :
    version ≤ MaxMap.value (mergeLoaded versions entries) key := by
  obtain ⟨path, hget, hkey⟩ := hhas
  have hentry : ∀ {path' : String} {version' : ℕ}, (path', version') ∈ entries →
      table[path']? = some version' := fun hmem =>
    ExtTreeMap.mem_toList_iff_getElem?_eq_some.mp (hperm.mem_iff.mp hmem)
  have hcollected : (MaxMap.collect (entries.filterMap fun entry =>
      (loadedPath entry.1).map fun key => (key, entry.2)))[key]? = some version := by
    refine MaxMap.collect_of_agree (List.mem_filterMap.mpr ⟨(path, version), ?_, ?_⟩) fun version' hmem => ?_
    · exact hperm.mem_iff.mpr (ExtTreeMap.mem_toList_iff_getElem?_eq_some.mpr hget)
    · rw [hkey]
      rfl
    · obtain ⟨⟨path', version''⟩, hlisted, hsome⟩ := List.mem_filterMap.mp hmem
      obtain ⟨key', hkey', heq⟩ := Option.map_eq_some_iff.mp hsome
      cases heq
      have hget' := hentry hlisted
      have hpath : path ∈ table := ExtTreeMap.mem_iff_isSome_getElem?.mpr (by rw [hget]; rfl)
      have hpath' : path' ∈ table := ExtTreeMap.mem_iff_isSome_getElem?.mpr (by rw [hget']; rfl)
      obtain rfl := hone path hpath (by rw [hkey]; rfl) path' hpath' (hkey'.trans hkey.symm)
      exact Option.some.inj (hget'.symm.trans hget)
  exact MaxMap.le_value_raiseAll (ExtTreeMap.mem_toList_iff_getElem?_eq_some.mpr hcollected)

theorem mergeLoaded_mono (versions : ExtTreeMap PathKey ℕ) (entries : List (String × ℕ))
    (key : PathKey) : MaxMap.value versions key ≤ MaxMap.value (mergeLoaded versions entries) key :=
  MaxMap.value_le_raiseAll ..

theorem le_merged {order : List (Uuid × List (String × ℕ))} {entry : Uuid × List (String × ℕ)}
    (hmem : entry ∈ order) {table : ExtTreeMap String ℕ} (hone : OneSpelling table)
    (hperm : entry.2.Perm table.toList) (hhas : HasVersion table key version) :
    version ≤ MaxMap.value
      (order.foldl (fun versions entry => mergeLoaded versions entry.2) ∅) key := by
  have hmono : ∀ (order : List (Uuid × List (String × ℕ))) (versions : ExtTreeMap PathKey ℕ),
      MaxMap.value versions key ≤ MaxMap.value
        (order.foldl (fun versions entry => mergeLoaded versions entry.2) versions) key := by
    intro order
    induction order with
    | nil => exact fun _ => le_rfl
    | cons entry order ih => exact fun versions => (mergeLoaded_mono versions entry.2 key).trans (ih _)
  obtain ⟨before, after, rfl⟩ := List.append_of_mem hmem
  rw [List.foldl_append, List.foldl_cons]
  exact (le_mergeLoaded hone hperm hhas _).trans (hmono after _)

theorem restart_sound (h : w.Sound sha256) {order : List (Uuid × List (String × ℕ))}
    (hact : w.restart sha256 order = some w') : w'.Sound sha256 := by
  unfold restart at hact
  split_ifs at hact with horder
  obtain ⟨hsessions, hentries⟩ := horder
  cases hact
  have hreloaded : ∀ {id : Uuid} {s : WorkspaceSession},
      (w.sessions.map fun _ session =>
        { session with journal := Journal.fromLoaded (session.loaded sha256) })[id]? = some s →
      ∃ old, w.sessions[id]? = some old ∧ s.table sha256 = old.table sha256 := fun {id s} hs => by
    rw [ExtTreeMap.getElem?_map] at hs
    obtain ⟨old, hold, rfl⟩ := Option.map_eq_some_iff.mp hs
    exact ⟨old, hold, rfl⟩
  refine ⟨h.positive, fun key version hmem => ?_, fun id s hs => ?_, fun id s key version hs hhas => ?_⟩
  · obtain ⟨id, session, version', hsession, hhas, hle⟩ := h.held key version hmem
    refine ⟨id, { session with journal := Journal.fromLoaded (session.loaded sha256) }, version',
      ?_, hhas, hle⟩
    rw [ExtTreeMap.getElem?_map, hsession]
    rfl
  · obtain ⟨old, hold, htable⟩ := hreloaded hs
    exact htable ▸ h.spelled id old hold
  · obtain ⟨old, hold, htable⟩ := hreloaded hs
    have hid : id ∈ order.map Prod.fst :=
      hsessions.mem_iff.mpr (ExtTreeMap.mem_keys.mpr
        (ExtTreeMap.mem_iff_isSome_getElem?.mpr (by rw [hold]; rfl)))
    obtain ⟨entry, hentry, rfl⟩ := List.mem_map.mp hid
    exact le_merged hentry (h.spelled entry.1 old hold) (hentries entry hentry old hold) (htable ▸ hhas)

theorem openSession_sound (h : w.Sound sha256) (hnew : id ∉ w.sessions) (unixMs : ℕ) :
    (({ w with sessions := w.sessions.insert id ⟨∅, 0, [], ⟨[], 0, 0, none⟩⟩ } : Workspace).appendLocked
      id unixMs .sessionCreated).Sound sha256 := by
  have hempty : ∀ path, (∅ : ExtTreeMap String ℕ)[path]? = none := fun path =>
    ExtTreeMap.getElem?_empty
  refine Sound.append ?_ rfl unixMs
  refine h.setSession id _ (fun s hs => ?_) (fun path hpath => ?_) fun key version hhas => ?_
  · exact absurd (ExtTreeMap.mem_iff_isSome_getElem?.mpr (by rw [hs]; rfl)) hnew
  · exact absurd hpath ExtTreeMap.not_mem_empty
  · obtain ⟨path, hget, -⟩ := hhas
    cases (hempty path).symm.trans hget

end Workspace

theorem workspaceMachine_sound {w w' : Workspace} {action : WorkspaceAction}
    (hguard : KeepsVersions sha256 w action)
    (hact : (workspaceMachine sha256).act action w = some w') (h : w.Sound sha256) :
    w'.Sound sha256 := by
  cases action with
  | openSession id unixMs =>
    simp only [workspaceMachine] at hact
    split_ifs at hact with hnew
    exact Option.some.inj hact ▸ Workspace.openSession_sound h hnew unixMs
  | append id unixMs kind =>
    simp only [workspaceMachine] at hact
    split_ifs at hact with hkind
    exact Option.some.inj hact ▸ h.append hkind unixMs
  | mutate id unixMs requestId requestHash path version digest =>
    exact Workspace.mutate_sound h hguard hact
  | note path observation victim =>
    obtain ⟨key, -, rfl⟩ := Option.map_eq_some_iff.mp hact
    exact h.remember key observation victim
  | observe relative observation victim order =>
    exact Workspace.recordFileEvent_sound h hguard hact
  | compact id spelling => exact Workspace.compact_sound h hact
  | delete id => exact Option.some.inj hact ▸ Workspace.delete_sound h hguard
  | restart order => exact Workspace.restart_sound h hact

theorem Workspace.initial_sound (sha256 : Bytes → String) : Workspace.initial.Sound sha256 := by
  have hnone : ∀ id : Uuid, Workspace.initial.sessions[id]? = none := fun id =>
    ExtTreeMap.getElem?_empty
  refine ⟨fun _ _ h => (nomatch h), fun _ _ h => (nomatch h), fun id s hs => ?_, fun id s _ _ hs => ?_⟩
  · cases (hnone id).symm.trans hs
  · cases (hnone id).symm.trans hs

/-- In every run in which each session spells a file in one way and a session is deleted
only when another one has its versions, the clock is at all times, also after a restart
in any order, at least at every version that an event recorded. -/
theorem version_clock_never_regresses {w : Workspace}
    (hreach : (workspaceMachine sha256).Reaches (KeepsVersions sha256) .initial w)
    {key : PathKey} {version : ℕ} (hrecorded : (key, version) ∈ w.recorded) :
    version ≤ MaxMap.value w.versions key :=
  (hreach.invariant (Workspace.initial_sound sha256) fun _ _ _ hguard hact h =>
    workspaceMachine_sound hguard hact h).clock hrecorded

section Runs

def clockMachine : Steps.Machine WorkspaceAction Workspace := workspaceMachine fun _ => ""

/-- Steps that are seen to keep the versions by looking at the paths of one table. -/
def spellsAlike (w : Workspace) : WorkspaceAction → Bool
  | .mutate id _ _ _ path _ _ =>
      (w.sessions[id]?).all fun session => (session.table fun _ => "").keys.all fun path' =>
        loadedPath path' ≠ loadedPath path || path' = path
  | .observe .. | .delete _ => false
  | _ => true

theorem spellsAlike_keepsVersions (w : Workspace) (action : WorkspaceAction)
    (h : spellsAlike w action = true) : KeepsVersions (fun _ => "") w action := by
  cases action with
  | mutate id unixMs requestId requestHash path version digest =>
    intro session hsession path' hmem hsame
    simp only [spellsAlike, hsession, Option.all_some, List.all_eq_true] at h
    have hpath := h path' (ExtTreeMap.mem_keys.mpr hmem)
    simpa [hsame] using hpath
  | observe | delete => cases h
  | _ => trivial

/-- Two sessions write one file and one of them a second file; the restart reads both tables. -/
theorem version_clock_survives_a_restart : ∃ w,
    clockMachine.Reaches (KeepsVersions fun _ => "") .initial w ∧
    (((["a"] : PathKey), 2) ∈ w.recorded ∧ ((["b"] : PathKey), 1) ∈ w.recorded) ∧
    2 ≤ MaxMap.value w.versions ["a"] ∧ 1 ≤ MaxMap.value w.versions ["b"] := by
  have hrun : ((clockMachine.runWith spellsAlike
      [.openSession 1 0, .openSession 2 0, .mutate 1 0 10 "h" "a" 1 "d", .mutate 2 0 11 "h" "a" 2 "e",
        .mutate 1 0 12 "h" "b" 1 "d", .restart [(2, [("a", 2)]), (1, [("b", 1), ("a", 1)])]]
      .initial).any fun w => ((["a"] : PathKey), 2) ∈ w.recorded ∧ ((["b"] : PathKey), 1) ∈ w.recorded) =
      true := by
    decide
  obtain ⟨w, hreach, hrecorded⟩ := clockMachine.exists_reaches spellsAlike_keepsVersions hrun
  have hboth := of_decide_eq_true hrecorded
  exact ⟨w, hreach, hboth, version_clock_never_regresses hreach hboth.1,
    version_clock_never_regresses hreach hboth.2⟩

/-- Two spellings of one file in a session, of which startup keeps the older one; and the
deletion of the only session that has a version. -/
theorem version_clock_regresses :
    (∃ w, clockMachine.Reaches (fun _ _ => True) .initial w ∧
      ((["a"] : PathKey), 2) ∈ w.recorded ∧ MaxMap.value w.versions ["a"] = 1) ∧
    ∃ w, clockMachine.Reaches (fun _ _ => True) .initial w ∧
      ((["a"] : PathKey), 1) ∈ w.recorded ∧ MaxMap.value w.versions ["a"] = 0 := by
  have halias : ((clockMachine.runWith (fun _ _ => true)
      [.openSession 1 0, .mutate 1 0 10 "h" "a" 1 "d", .mutate 1 0 11 "h" "./a" 2 "d",
        .restart [(1, [("./a", 2), ("a", 1)])]] .initial).any
      fun w => ((["a"] : PathKey), 2) ∈ w.recorded ∧ MaxMap.value w.versions ["a"] = 1) = true := by
    decide
  have hdelete : ((clockMachine.runWith (fun _ _ => true)
      [.openSession 1 0, .mutate 1 0 10 "h" "a" 1 "d", .delete 1, .restart []] .initial).any
      fun w => ((["a"] : PathKey), 1) ∈ w.recorded ∧ MaxMap.value w.versions ["a"] = 0) = true := by
    decide
  obtain ⟨w, hreach, hbehind⟩ := clockMachine.exists_reaches (fun _ _ _ => trivial) halias
  obtain ⟨w', hreach', hbehind'⟩ := clockMachine.exists_reaches (fun _ _ _ => trivial) hdelete
  exact ⟨⟨w, hreach, of_decide_eq_true hbehind⟩, ⟨w', hreach', of_decide_eq_true hbehind'⟩⟩

end Runs

end Asp
