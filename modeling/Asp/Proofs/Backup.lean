import Asp.Lib.Lookup
import Asp.Proofs.Serializers
import Asp.Spec.Backup

/-! A backup restores exactly the files of the state, if its manifest can be read back. The walks of
`copy_tree` and `collect_backup_entries` are each described by the files of the tree. -/

namespace Asp

open Std FileTree

theorem permissions_permissions (mode : ℕ) : permissions (permissions mode) = permissions mode :=
  Nat.mod_mod mode 0o1000

section Walks

variable {path : List String} {tree copied : StateListing} {name : String}

def keptFiles (path : List String) (tree : StateListing) : List (List String × StateFile) :=
  (tree.files path).filter fun file => decide (daemonLock ∉ file.1)

def maskFile (file : List String × StateFile) : List String × StateFile :=
  (file.1, ⟨permissions file.2.mode, file.2.content⟩)

theorem not_mem_snoc (hpath : daemonLock ∉ path) (hname : name ≠ daemonLock) :
    daemonLock ∉ path ++ [name] := by
  simp [hpath, hname.symm]

theorem keptFiles_lock (tree : StateListing) (path : List String) :
    keptFiles (path ++ [daemonLock]) tree = [] := by
  refine List.filter_eq_nil_iff.mpr fun file hfile => ?_
  obtain ⟨name, -, hbelow⟩ := Listing.files_below hfile
  have hlock : daemonLock ∈ file.1 := hbelow.subset (by simp)
  simpa using hlock

theorem keptFiles_file (hpath : daemonLock ∉ path) (data : StateFile) (rest : StateListing) :
    keptFiles path (.file name data rest) =
      if name = daemonLock then keptFiles path rest
      else (path ++ [name], data) :: keptFiles path rest := by
  rw [keptFiles, Listing.files, List.filter_cons]
  split_ifs with hkeep hname hname
  · simp [hname] at hkeep
  · rfl
  · rfl
  · exact absurd (decide_eq_true (not_mem_snoc hpath hname)) hkeep

theorem keptFiles_directory (mode : ℕ) (children rest : StateListing) :
    keptFiles path (.directory name mode children rest) =
      if name = daemonLock then keptFiles path rest
      else keptFiles (path ++ [name]) children ++ keptFiles path rest := by
  rw [keptFiles, Listing.files, List.filter_append]
  split_ifs with hname
  · subst hname
    exact congrArg (· ++ _) (keptFiles_lock children path)
  · rfl

theorem copyChildren_files (hpath : daemonLock ∉ path) (h : copyChildren path tree = .ok copied) :
    copied.files path = (keptFiles path tree).map maskFile := by
  induction tree generalizing path copied with
  | done =>
    cases h
    rfl
  | file name data rest ih =>
    rw [keptFiles_file hpath]
    unfold copyChildren at h
    split_ifs at h ⊢ with hname
    · exact ih hpath h
    · obtain ⟨copy, hcopy, rfl⟩ := map_ok h
      rw [Listing.files, ih hpath hcopy, List.map_cons]
      rfl
  | directory name mode children rest ihchildren ihrest =>
    rw [keptFiles_directory]
    unfold copyChildren at h
    split_ifs at h ⊢ with hname
    · exact ihrest hpath h
    · obtain ⟨inner, hinner, h⟩ := bind_ok h
      obtain ⟨copy, hcopy, rfl⟩ := map_ok h
      rw [Listing.files, ihchildren (not_mem_snoc hpath hname) hinner, ihrest hpath hcopy,
        List.map_append]
  | symlink name rest ih | special name rest ih =>
    unfold copyChildren at h
    split_ifs at h with hname
    exact ih hpath h

theorem copyChildren_names (h : copyChildren path tree = .ok copied) :
    copied.names.Sublist tree.names ∧ daemonLock ∉ copied.names := by
  induction tree generalizing copied with
  | done =>
    cases h
    exact ⟨List.Sublist.refl _, List.not_mem_nil⟩
  | file name data rest ih =>
    unfold copyChildren at h
    split_ifs at h with hname
    · exact ⟨(ih h).1.cons _, (ih h).2⟩
    · obtain ⟨copy, hcopy, rfl⟩ := map_ok h
      obtain ⟨hsub, hlock⟩ := ih hcopy
      refine ⟨hsub.cons_cons _, fun hmem => ?_⟩
      rcases List.mem_cons.mp hmem with heq | hmem
      · exact hname heq.symm
      · exact hlock hmem
  | directory name mode children rest _ ih =>
    unfold copyChildren at h
    split_ifs at h with hname
    · exact ⟨(ih h).1.cons _, (ih h).2⟩
    · obtain ⟨inner, -, h⟩ := bind_ok h
      obtain ⟨copy, hcopy, rfl⟩ := map_ok h
      obtain ⟨hsub, hlock⟩ := ih hcopy
      refine ⟨hsub.cons_cons _, fun hmem => ?_⟩
      rcases List.mem_cons.mp hmem with heq | hmem
      · exact hname heq.symm
      · exact hlock hmem
  | symlink name rest ih | special name rest ih =>
    unfold copyChildren at h
    split_ifs at h with hname
    exact ⟨(ih h).1.cons _, (ih h).2⟩

theorem copyChildren_valid (hvalid : tree.Valid) (h : copyChildren path tree = .ok copied) :
    copied.Valid := by
  induction tree generalizing path copied with
  | done =>
    cases h
    trivial
  | file name data rest ih =>
    obtain ⟨hname, hnew, hrest⟩ := hvalid
    unfold copyChildren at h
    split_ifs at h with hlock
    · exact ih hrest h
    · obtain ⟨copy, hcopy, rfl⟩ := map_ok h
      exact ⟨hname, fun hmem => hnew ((copyChildren_names hcopy).1.subset hmem), ih hrest hcopy⟩
  | directory name mode children rest ihchildren ihrest =>
    obtain ⟨hname, hnew, hchildren, hrest⟩ := hvalid
    unfold copyChildren at h
    split_ifs at h with hlock
    · exact ihrest hrest h
    · obtain ⟨inner, hinner, h⟩ := bind_ok h
      obtain ⟨copy, hcopy, rfl⟩ := map_ok h
      exact ⟨hname, fun hmem => hnew ((copyChildren_names hcopy).1.subset hmem),
        ihchildren hchildren hinner, ihrest hrest hcopy⟩
  | symlink name rest ih | special name rest ih =>
    unfold copyChildren at h
    split_ifs at h with hlock
    exact ih hvalid.2.2 h

theorem copyChildren_copied {path' : List String} (h : copyChildren path tree = .ok copied) :
    copyChildren path' copied = .ok copied := by
  induction tree generalizing path path' copied with
  | done =>
    cases h
    rfl
  | file name data rest ih =>
    unfold copyChildren at h
    split_ifs at h with hlock
    · exact ih h
    · obtain ⟨copy, hcopy, rfl⟩ := map_ok h
      rw [copyChildren, if_neg hlock, ih hcopy, permissions_permissions]
      rfl
  | directory name mode children rest ihchildren ihrest =>
    unfold copyChildren at h
    split_ifs at h with hlock
    · exact ihrest h
    · obtain ⟨inner, hinner, h⟩ := bind_ok h
      obtain ⟨copy, hcopy, rfl⟩ := map_ok h
      rw [copyChildren, if_neg hlock, ihchildren hinner, ihrest hcopy, permissions_permissions]
      rfl
  | symlink name rest ih | special name rest ih =>
    unfold copyChildren at h
    split_ifs at h with hlock
    exact ih h

variable {sha256 : Bytes → String} {entries entries' : List BackupEntry}

theorem collectBackupEntriesInner_ok (hpath : daemonLock ∉ path)
    (hlength : entries.length ≤ maxBackupEntries)
    (h : collectBackupEntriesInner sha256 path tree entries = .ok entries') :
    entries' = entries ++ (keptFiles path tree).map (backupEntry sha256) ∧
      entries'.length ≤ maxBackupEntries := by
  induction tree generalizing path entries entries' with
  | done =>
    cases h
    exact ⟨(List.append_nil _).symm, hlength⟩
  | file name data rest ih =>
    rw [keptFiles_file hpath]
    unfold collectBackupEntriesInner at h
    split_ifs at h ⊢ with hname hfull
    · exact ih hpath hlength h
    · obtain ⟨heq, hle⟩ := ih hpath
        (by simp only [List.length_append, List.length_singleton]; omega) h
      refine ⟨?_, hle⟩
      rw [heq, List.map_cons, List.append_assoc, List.singleton_append]
  | directory name mode children rest ihchildren ihrest =>
    rw [keptFiles_directory]
    unfold collectBackupEntriesInner at h
    split_ifs at h ⊢ with hname
    · exact ihrest hpath hlength h
    · obtain ⟨inner, hinner, h⟩ := bind_ok h
      obtain ⟨rfl, hle⟩ := ihchildren (not_mem_snoc hpath hname) hlength hinner
      obtain ⟨rfl, hle'⟩ := ihrest hpath hle h
      refine ⟨?_, hle'⟩
      rw [List.map_append, List.append_assoc]
  | symlink name rest ih | special name rest ih =>
    unfold collectBackupEntriesInner at h
    split_ifs at h with hname
    exact ih hpath hlength h

def Plain : StateListing → Prop
  | .done => True
  | .file _ _ rest => Plain rest
  | .directory _ _ children rest => Plain children ∧ Plain rest
  | .symlink .. | .special .. => False

theorem copyChildren_plain (h : Plain tree) (path : List String) :
    ∃ copied, copyChildren path tree = .ok copied ∧ Plain copied := by
  induction tree generalizing path with
  | done => exact ⟨.done, rfl, trivial⟩
  | file name data rest ih =>
    obtain ⟨copied, hcopied, hplain⟩ := ih h path
    rw [copyChildren, hcopied]
    split_ifs
    · exact ⟨copied, rfl, hplain⟩
    · exact ⟨_, rfl, hplain⟩
  | directory name mode children rest ihchildren ihrest =>
    obtain ⟨inner, hinner, hinnerPlain⟩ := ihchildren h.1 (path ++ [name])
    obtain ⟨copied, hcopied, hplain⟩ := ihrest h.2 path
    rw [copyChildren, hcopied, hinner]
    split_ifs
    · exact ⟨copied, rfl, hplain⟩
    · exact ⟨_, rfl, hinnerPlain, hplain⟩
  | symlink | special => exact h.elim

theorem collectBackupEntriesInner_plain (h : Plain tree) (hpath : daemonLock ∉ path)
    (hcount : entries.length + (keptFiles path tree).length ≤ maxBackupEntries) :
    ∃ entries', collectBackupEntriesInner sha256 path tree entries = .ok entries' := by
  induction tree generalizing path entries with
  | done => exact ⟨entries, rfl⟩
  | file name data rest ih =>
    rw [keptFiles_file hpath] at hcount
    unfold collectBackupEntriesInner
    split_ifs at hcount ⊢ with hname hfull
    · exact ih h hpath hcount
    · rw [List.length_cons] at hcount
      omega
    · refine ih h hpath ?_
      simp only [List.length_cons, List.length_append, List.length_nil] at hcount ⊢
      omega
  | directory name mode children rest ihchildren ihrest =>
    rw [keptFiles_directory] at hcount
    unfold collectBackupEntriesInner
    split_ifs at hcount ⊢ with hname
    · exact ihrest h.2 hpath hcount
    · rw [List.length_append] at hcount
      obtain ⟨inner, hinner⟩ := @ihchildren (path ++ [name]) entries h.1 (not_mem_snoc hpath hname)
        (by omega)
      rw [hinner]
      obtain ⟨rfl, -⟩ := collectBackupEntriesInner_ok (not_mem_snoc hpath hname) (by omega) hinner
      refine ihrest h.2 hpath ?_
      rw [List.length_append, List.length_map]
      omega
  | symlink | special => exact h.elim

end Walks

section Compare

variable {sha256 : Bytes → String} {tree state : StateTree} {entries : List BackupEntry}

variable {expected : ExtTreeMap String BackupEntry}

theorem sortEntries_perm (entries : List BackupEntry) : (sortEntries entries).Perm entries :=
  List.mergeSort_perm ..

theorem collectBackupEntries_ok (h : collectBackupEntries sha256 tree = .ok entries) :
    entries = sortEntries (tree.stateFiles.map (backupEntry sha256)) ∧
      entries.length ≤ maxBackupEntries := by
  obtain ⟨collected, hcollected, rfl⟩ := map_ok h
  obtain ⟨rfl, hle⟩ :=
    collectBackupEntriesInner_ok List.not_mem_nil (Nat.zero_le _) hcollected
  exact ⟨rfl, (sortEntries_perm _).length_eq.trans_le hle⟩

theorem stateFiles_valid (hvalid : tree.children.Valid) {file : List String × StateFile}
    (h : file ∈ tree.stateFiles) : file.1 ≠ [] ∧ ∀ name ∈ file.1, ValidName name :=
  Listing.path_valid hvalid (fun _ hname => absurd hname List.not_mem_nil) (List.mem_filter.mp h).1

theorem entry_paths_nodup (sha256 : Bytes → String) (hvalid : tree.children.Valid) :
    ((tree.stateFiles.map (backupEntry sha256)).map BackupEntry.path).Nodup := by
  have hpaths : (tree.stateFiles.map Prod.fst).Nodup :=
    (List.filter_sublist.map _).nodup (Listing.nodup_paths hvalid)
  rw [List.map_map]
  refine (List.nodup_map_iff_inj_on hpaths.of_map).mpr fun file hfile file' hfile' hsame => ?_
  obtain ⟨hne, hnames⟩ := stateFiles_valid hvalid hfile
  obtain ⟨hne', hnames'⟩ := stateFiles_valid hvalid hfile'
  exact List.inj_on_of_nodup_map hpaths hfile hfile' (pathText_inj hne hne' hnames hnames' hsame)

theorem safe_pathText {path : List String} (hne : path ≠ [])
    (hvalid : ∀ name ∈ path, ValidName name) : safeBackupRelativePath (pathText path) = true := by
  have hsplit := splitOn_pathText hne hvalid
  have hfirst : (pathText path).toList ≠ [] ∧ (pathText path).toList.head? ≠ some '/' := by
    obtain ⟨name, names, rfl⟩ := List.exists_cons_of_ne_nil hne
    have hname : name.toList ≠ [] := fun h =>
      (hvalid name List.mem_cons_self).1 (String.toList_injective h)
    constructor
    · intro h
      rw [h, List.splitOn_nil] at hsplit
      exact hname (List.cons.inj hsplit).1.symm
    · intro h
      obtain ⟨rest, hrest⟩ := List.head?_eq_some_iff.mp h
      rw [hrest, List.splitOn, List.splitOnP_cons_eq_if_modifyHead, if_pos (beq_self_eq_true '/')] at hsplit
      exact hname (List.cons.inj hsplit).1.symm
  have hparent : ∀ component ∈ (pathText path).toList.splitOn '/', component ≠ ['.', '.'] := by
    rw [hsplit]
    intro component hmem heq
    obtain ⟨name, hname, rfl⟩ := List.mem_map.mp hmem
    exact (hvalid name hname).2.2.2 (String.toList_injective heq)
  have hempty : pathText path ≠ "" := fun h => hfirst.1 (congrArg String.toList h)
  simp only [safeBackupRelativePath, Bool.and_eq_true, decide_eq_true_eq, List.all_eq_true]
  exact ⟨⟨hempty, hfirst.2⟩, hparent⟩

theorem expectedEntries_ok {expected' : ExtTreeMap String BackupEntry}
    (h : expectedEntries entries expected = .ok expected') :
    expected'.size = expected.size + entries.length ∧
      ∀ (path : String) (entry : BackupEntry), expected'[path]? = some entry →
        expected[path]? = some entry ∨ entry ∈ entries ∧ entry.path = path := by
  induction entries generalizing expected with
  | nil =>
    cases h
    exact ⟨rfl, fun _ _ hget => .inl hget⟩
  | cons entry entries ih =>
    unfold expectedEntries at h
    split_ifs at h with hsafe hnew
    obtain ⟨hsize, hfound⟩ := ih h
    constructor
    · rw [← ExtTreeMap.contains_eq_isSome_getElem?] at hnew
      rw [hsize, ExtTreeMap.size_insert, if_neg hnew, List.length_cons]
      omega
    · intro path found hget
      rcases hfound path found hget with hold | ⟨hmem, hpath⟩
      · rcases Lookup.getElem?_insert_cases hold with ⟨rfl, rfl⟩ | ⟨-, hold⟩
        · exact .inr ⟨List.mem_cons_self, rfl⟩
        · exact .inl hold
      · exact .inr ⟨List.mem_cons_of_mem _ hmem, hpath⟩

theorem expectedEntries_of_distinct
    (hsafe : ∀ entry ∈ entries, safeBackupRelativePath entry.path = true)
    (hnodup : (entries.map BackupEntry.path).Nodup)
    (hnew : ∀ entry ∈ entries, expected[entry.path]? = none) :
    ∃ expected', expectedEntries entries expected = .ok expected' ∧
      (∀ entry ∈ entries, expected'[entry.path]? = some entry) ∧
      ∀ path ∉ entries.map BackupEntry.path, expected'[path]? = expected[path]? := by
  induction entries generalizing expected with
  | nil => exact ⟨expected, rfl, fun _ h => absurd h List.not_mem_nil, fun _ _ => rfl⟩
  | cons entry entries ih =>
    rw [List.map_cons, List.nodup_cons] at hnodup
    have hother : ∀ later ∈ entries, later.path ≠ entry.path := fun later hlater heq =>
      hnodup.1 (heq ▸ List.mem_map_of_mem hlater)
    obtain ⟨expected', hok, hfound, hkept⟩ := @ih (expected.insert entry.path entry)
      (fun later hlater => hsafe later (List.mem_cons_of_mem _ hlater)) hnodup.2
      fun later hlater => by
        rw [Lookup.getElem?_insert_of_ne (hother later hlater)]
        exact hnew later (List.mem_cons_of_mem _ hlater)
    refine ⟨expected', ?_, ?_, ?_⟩
    · rwa [expectedEntries, hsafe entry List.mem_cons_self, hnew entry List.mem_cons_self]
    · intro found hfound'
      rcases List.mem_cons.mp hfound' with rfl | hmem
      · rw [hkept _ hnodup.1, ExtTreeMap.getElem?_insert_self]
      · exact hfound found hmem
    · intro path hpath
      rw [List.map_cons, List.mem_cons, not_or] at hpath
      rw [hkept path hpath.2, Lookup.getElem?_insert_of_ne hpath.1]

theorem checkEntries_ok :
    checkEntries expected entries = .ok () ↔ ∀ entry ∈ entries, ∃ listed : BackupEntry,
      expected[entry.path]? = some listed ∧ entry.bytes = listed.bytes ∧
        entry.sha256 = listed.sha256 ∧ entry.mode = listed.mode := by
  induction entries with
  | nil => exact ⟨fun _ _ h => absurd h List.not_mem_nil, fun _ => rfl⟩
  | cons entry entries ih =>
    rw [List.forall_mem_cons, ← ih, checkEntries]
    cases hget : expected[entry.path]? with
    | none => simp
    | some listed =>
      dsimp only
      split_ifs with hdiffers
      · simp only [Option.some.injEq, exists_eq_left', false_iff, not_and]
        tauto
      · tauto

theorem verifyManifest_ok {manifest verified : BackupManifest} (hvalid : state.children.Valid)
    (h : verifyManifest sha256 manifest (some state) = .ok verified) :
    verified = manifest ∧
      manifest.entries.Perm (state.stateFiles.map (backupEntry sha256)) := by
  unfold verifyManifest at h
  split_ifs at h
  obtain ⟨actual, hactual, h⟩ := bind_ok h
  obtain ⟨expected, hexpected, h⟩ := bind_ok h
  split_ifs at h with hcount
  obtain ⟨⟨⟩, hchecked, rfl⟩ := map_ok h
  obtain ⟨rfl, -⟩ := collectBackupEntries_ok hactual
  obtain ⟨hsize, hfound⟩ := expectedEntries_ok hexpected
  refine ⟨rfl, ?_⟩
  have hperm := sortEntries_perm (state.stateFiles.map (backupEntry sha256))
  have hnodup : (sortEntries (state.stateFiles.map (backupEntry sha256))).Nodup :=
    hperm.nodup_iff.mpr (entry_paths_nodup sha256 hvalid).of_map
  have hsub : sortEntries (state.stateFiles.map (backupEntry sha256)) ⊆ verified.entries := by
    intro entry hentry
    obtain ⟨listed, hlisted, hbytes, hdigest, hmode⟩ := checkEntries_ok.mp hchecked entry hentry
    rcases hfound entry.path listed hlisted with hold | ⟨hmem, hpath⟩
    · cases hold
    · obtain ⟨path, bytes, digest, mode⟩ := entry
      obtain ⟨path', bytes', digest', mode'⟩ := listed
      obtain rfl : path' = path := hpath
      obtain rfl : bytes = bytes' := hbytes
      obtain rfl : digest = digest' := hdigest
      obtain rfl : mode = mode' := hmode
      exact hmem
  have hlength : verified.entries.length ≤
      (sortEntries (state.stateFiles.map (backupEntry sha256))).length := by
    rw [ExtTreeMap.size_empty, Nat.zero_add] at hsize
    exact hsize.symm.trans_le (Decidable.not_not.mp hcount).ge
  exact (((List.subperm_of_subset hnodup hsub).perm_of_length_le hlength).symm.trans hperm)

theorem verifyManifest_complete (hvalid : state.children.Valid) (unixMs : ℕ)
    (h : collectBackupEntries sha256 state = .ok entries) :
    verifyManifest sha256 ⟨backupManifestVersion, unixMs, entries⟩ (some state) =
      .ok ⟨backupManifestVersion, unixMs, entries⟩ := by
  obtain ⟨hentries, hle⟩ := collectBackupEntries_ok h
  have hperm := sortEntries_perm (state.stateFiles.map (backupEntry sha256))
  rw [← hentries] at hperm
  have hnodup : (entries.map BackupEntry.path).Nodup :=
    (hperm.map _).nodup_iff.mpr (entry_paths_nodup sha256 hvalid)
  have hsafe : ∀ entry ∈ entries, safeBackupRelativePath entry.path = true := by
    intro entry hentry
    obtain ⟨file, hfile, rfl⟩ := List.mem_map.mp (hperm.subset hentry)
    obtain ⟨hne, hnames⟩ := stateFiles_valid hvalid hfile
    exact safe_pathText hne hnames
  have hnone : ∀ entry ∈ entries, (∅ : ExtTreeMap String BackupEntry)[entry.path]? = none :=
    fun _ _ => ExtTreeMap.getElem?_empty
  obtain ⟨expected, hexpected, hfound, -⟩ := expectedEntries_of_distinct hsafe hnodup hnone
  have hsize : entries.length = expected.size := by
    rw [(expectedEntries_ok hexpected).1, ExtTreeMap.size_empty, Nat.zero_add]
  have hchecked : checkEntries expected entries = .ok () :=
    checkEntries_ok.mpr fun entry hentry => ⟨entry, hfound entry hentry, rfl, rfl, rfl⟩
  unfold verifyManifest
  rw [if_neg (not_not.mpr rfl), if_neg (Nat.not_lt.mpr hle)]
  dsimp only
  rw [h, Except.bind, hexpected]
  dsimp only [Except.bind]
  rw [if_neg (not_not.mpr hsize), hchecked]
  rfl

end Compare

section Restore

variable {sha256 : Bytes → String} {json : ManifestJson} {tree state : StateTree}

variable {backup : Backup} {manifest : BackupManifest} {unixMs : ℕ}

theorem maskFile_entry (sha256 : Bytes → String) (file : List String × StateFile) :
    backupEntry sha256 (maskFile file) = backupEntry sha256 file := by
  simp only [backupEntry, maskFile, permissions_permissions]

theorem copyTree_files (h : copyTree tree = .ok state) :
    state.files = tree.stateFiles.map maskFile ∧ state.stateFiles = state.files := by
  obtain ⟨copied, hcopied, rfl⟩ := map_ok h
  have hfiles : copied.files [] = (keptFiles [] tree.children).map maskFile :=
    copyChildren_files List.not_mem_nil hcopied
  refine ⟨hfiles, List.filter_eq_self.mpr fun file hfile => ?_⟩
  change file ∈ copied.files [] at hfile
  rw [hfiles] at hfile
  obtain ⟨original, horiginal, rfl⟩ := List.mem_map.mp hfile
  exact (List.mem_filter.mp horiginal).2

theorem copyTree_copied (h : copyTree tree = .ok state) : copyTree state = .ok state := by
  obtain ⟨copied, hcopied, rfl⟩ := map_ok h
  rw [copyTree, copyChildren_copied hcopied, permissions_permissions]
  rfl

theorem backupState_ok
    (h : backupState sha256 json (some tree) false unixMs = .ok (manifest, backup)) :
    ∃ state, copyTree tree = .ok state ∧ backup = ⟨some (json.encode manifest), some state⟩ ∧
      manifest = tree.manifest sha256 unixMs ∧
      collectBackupEntries sha256 state = .ok manifest.entries := by
  obtain ⟨state, hstate, h⟩ := bind_ok h
  obtain ⟨entries, hentries, h⟩ := map_ok h
  cases h
  refine ⟨state, hstate, rfl, ?_, hentries⟩
  obtain ⟨hfiles, hsame⟩ := copyTree_files hstate
  have hmasked : backupEntry sha256 ∘ maskFile = backupEntry sha256 :=
    funext (maskFile_entry sha256)
  rw [(collectBackupEntries_ok hentries).1, StateTree.manifest, hsame, hfiles, List.map_map,
    hmasked]

theorem verifyBackup_backupState (hvalid : tree.children.Valid)
    (h : backupState sha256 json (some tree) false unixMs = .ok (manifest, backup)) :
    verifyBackup sha256 json backup =
      if (json.encode (tree.manifest sha256 unixMs)).length ≤ maxBackupManifestBytes then
        .ok manifest
      else .error .manifestTooLong := by
  obtain ⟨state, hstate, rfl, hmanifest, hentries⟩ := backupState_ok h
  have hstateValid : state.children.Valid := by
    obtain ⟨copied, hcopied, rfl⟩ := map_ok hstate
    exact copyChildren_valid hvalid hcopied
  unfold verifyBackup
  dsimp only
  rw [← hmanifest]
  split_ifs with hlong hshort hshort
  · omega
  · rfl
  · rw [json.decode_encode]
    have hself : manifest = ⟨backupManifestVersion, unixMs, manifest.entries⟩ := by
      rw [hmanifest]
      rfl
    have hverified := verifyManifest_complete hstateValid unixMs hentries
    rwa [← hself] at hverified
  · omega

theorem restoreState_backupState (hvalid : tree.children.Valid)
    (h : backupState sha256 json (some tree) false unixMs = .ok (manifest, backup)) :
    ∃ state, state.files = tree.stateFiles.map maskFile ∧
      restoreState sha256 json backup none false =
        if (json.encode (tree.manifest sha256 unixMs)).length ≤ maxBackupManifestBytes then
          .ok (state, none)
        else .error .manifestTooLong := by
  have hverify := verifyBackup_backupState hvalid h
  obtain ⟨state, hstate, rfl, -, -⟩ := backupState_ok h
  refine ⟨state, (copyTree_files hstate).1, ?_⟩
  rw [restoreState, hverify]
  by_cases hshort : (json.encode (tree.manifest sha256 unixMs)).length ≤ maxBackupManifestBytes
  · rw [if_pos hshort, if_pos hshort]
    simp only [Except.bind, Option.isSome_none, Bool.false_and, Bool.false_eq_true, if_false,
      copyTree_copied hstate]
    rfl
  · rw [if_neg hshort, if_neg hshort]
    rfl

theorem map_maskFile_eq {files : List (List String × StateFile)} :
    files.map maskFile = files ↔ ∀ file ∈ files, file.2.mode < 0o1000 := by
  have hone : ∀ file, maskFile file = file ↔ file.2.mode < 0o1000 := by
    rintro ⟨path, mode, content⟩
    simp only [maskFile, permissions, Prod.mk.injEq, StateFile.mk.injEq, true_and, and_true]
    exact ⟨fun h => h ▸ Nat.mod_lt _ (by decide), Nat.mod_eq_of_lt⟩
  nth_rewrite 2 [← List.map_id files]
  rw [List.map_inj_left]
  exact forall₂_congr fun file _ => hone file

/-- A backup verifies and restores the files of the state exactly when its manifest can be
read back and no file has more than permission bits. And a backup that verifies holds the
files that its manifest lists, besides those under the name of the daemon's lock. -/
theorem backup_is_restorable_iff (sha256 : Bytes → String) (json : ManifestJson) :
    (∀ (tree : StateTree) (unixMs : ℕ) (manifest : BackupManifest) (backup : Backup),
      tree.children.Valid →
      backupState sha256 json (some tree) false unixMs = .ok (manifest, backup) →
      (((∃ verified, verifyBackup sha256 json backup = .ok verified) ∧
          ∃ restored, restoreState sha256 json backup none false = .ok (restored, none) ∧
            restored.files = tree.stateFiles) ↔
        (json.encode (tree.manifest sha256 unixMs)).length ≤ maxBackupManifestBytes ∧
          ∀ file ∈ tree.stateFiles, file.2.mode < 0o1000)) ∧
    ∀ (backup : Backup) (state : StateTree) (manifest : BackupManifest),
      backup.state = some state → state.children.Valid →
      verifyBackup sha256 json backup = .ok manifest →
      manifest.entries.Perm (state.stateFiles.map (backupEntry sha256)) ∧
        (manifest.entries.Perm (state.files.map (backupEntry sha256)) ↔
          ∀ file ∈ state.files, daemonLock ∉ file.1) := by
  constructor
  · intro tree unixMs manifest backup hvalid hok
    obtain ⟨state, hfiles, hrestore⟩ := restoreState_backupState hvalid hok
    rw [verifyBackup_backupState hvalid hok, hrestore, ← map_maskFile_eq, ← hfiles]
    by_cases hshort : (json.encode (tree.manifest sha256 unixMs)).length ≤ maxBackupManifestBytes
    · rw [if_pos hshort, if_pos hshort]
      constructor
      · rintro ⟨-, restored, hrestored, hsame⟩
        cases hrestored
        exact ⟨hshort, hsame⟩
      · rintro ⟨-, hsame⟩
        exact ⟨⟨manifest, rfl⟩, state, rfl, hsame⟩
    · rw [if_neg hshort]
      constructor
      · rintro ⟨⟨verified, hverified⟩, -⟩
        cases hverified
      · exact fun h => absurd h.1 hshort
  · intro backup state manifest hstate hvalid hverified
    have hperm : manifest.entries.Perm (state.stateFiles.map (backupEntry sha256)) := by
      unfold verifyBackup at hverified
      cases hfile : backup.manifestFile with
      | none =>
        rw [hfile] at hverified
        cases hverified
      | some bytes =>
        rw [hfile] at hverified
        dsimp only at hverified
        split_ifs at hverified
        cases hdecode : json.decode bytes with
        | none =>
          rw [hdecode] at hverified
          cases hverified
        | some read =>
          rw [hdecode, hstate] at hverified
          obtain ⟨rfl, hperm⟩ := verifyManifest_ok hvalid hverified
          exact hperm
    refine ⟨hperm, fun hall => ?_, fun hnone => ?_⟩
    · -- as many files outside the lock as there are files
      have hlength := (hall.symm.trans hperm).length_eq
      rw [List.length_map, List.length_map] at hlength
      have hkept : state.stateFiles = state.files :=
        List.filter_sublist.eq_of_length hlength.symm
      intro file hfile
      rw [← hkept] at hfile
      exact of_decide_eq_true (List.mem_filter.mp hfile).2
    · have hkept : state.stateFiles = state.files :=
        List.filter_eq_self.mpr fun file hfile => decide_eq_true (hnone file hfile)
      rwa [hkept] at hperm

end Restore

section Examples

/-- A self-delimiting form of manifests, in place of JSON. -/
def entryCodec : Codec BackupEntry :=
  (Codec.pair (.pair .text .text) (.pair .nat (.option .nat))).via
    (fun entry => ((entry.path, entry.sha256), entry.bytes, entry.mode))
    (fun x => ⟨x.1.1, x.2.1, x.1.2, x.2.2⟩) fun _ => rfl

def manifestCodec : Codec BackupManifest :=
  (Codec.pair (.pair .nat .nat) (.list entryCodec)).via
    (fun manifest => ((manifest.version, manifest.createdUnixMs), manifest.entries))
    (fun x => ⟨x.1.1, x.1.2, x.2⟩) fun _ => rfl

theorem length_le_text (text : String) : text.length ≤ (Codec.text.encode text).length := by
  have hone : ∀ n : ℕ, 1 ≤ (Codec.nat.encode n).length := fun n => (Codec.nat_encode_length n).1
  have hsum := List.card_nsmul_le_sum
    ((text.toList.map Char.toNat).map fun n => (Codec.nat.encode n).length) 1 fun k hk => by
      obtain ⟨n, -, rfl⟩ := List.mem_map.mp hk
      exact hone n
  simp only [List.length_map, smul_eq_mul, mul_one, String.length_toList] at hsum
  simp only [Codec.text, Codec.via, Codec.list, List.length_append, List.length_flatMap]
  omega

def plainJson : ManifestJson where
  encode := manifestCodec.encode
  decode bytes := (manifestCodec.decode bytes).map Prod.fst
  decode_encode manifest := by
    have h := manifestCodec.decode_encode manifest []
    rw [List.append_nil] at h
    rw [h]
    rfl
  writes_strings manifest := by
    have hentries :
        (manifest.entries.map fun entry => entry.path.length + entry.sha256.length).sum ≤
        (manifest.entries.map fun entry => (entryCodec.encode entry).length).sum := by
      refine List.sum_le_sum fun entry _ => ?_
      have hpath := length_le_text entry.path
      have hdigest := length_le_text entry.sha256
      simp only [entryCodec, Codec.via, Codec.pair, List.length_append]
      omega
    refine hentries.trans ?_
    simp only [manifestCodec, Codec.via, Codec.pair, Codec.list, List.length_append,
      List.length_flatMap]
    omega

theorem backupState_plain (sha256 : Bytes → String) (json : ManifestJson) {tree : StateTree}
    (hplain : Plain tree.children) (hcount : tree.stateFiles.length ≤ maxBackupEntries)
    (unixMs : ℕ) : ∃ manifest backup,
      backupState sha256 json (some tree) false unixMs = .ok (manifest, backup) := by
  obtain ⟨copied, hcopied, hcopiedPlain⟩ := copyChildren_plain hplain []
  have hcopy : copyTree tree = .ok ⟨permissions tree.mode, copied⟩ := by
    rw [copyTree, hcopied]
    rfl
  have hkept : (keptFiles [] copied).length ≤ maxBackupEntries := by
    refine (List.length_filter_le ..).trans ?_
    rwa [copyChildren_files List.not_mem_nil hcopied, List.length_map]
  obtain ⟨entries, hentries⟩ :
      ∃ entries, collectBackupEntriesInner sha256 [] copied [] = .ok entries :=
    collectBackupEntriesInner_plain hcopiedPlain List.not_mem_nil ((Nat.zero_add _).trans_le hkept)
  have hcollect : collectBackupEntries sha256 ⟨permissions tree.mode, copied⟩ =
      .ok (sortEntries entries) := by
    rw [collectBackupEntries, hentries]
    rfl
  refine ⟨⟨backupManifestVersion, unixMs, sortEntries entries⟩,
    ⟨some (json.encode ⟨backupManifestVersion, unixMs, sortEntries entries⟩),
      some ⟨permissions tree.mode, copied⟩⟩, ?_⟩
  rw [backupState, if_neg Bool.false_ne_true, hcopy, Except.bind, hcollect]
  rfl

def sessionState : StateTree :=
  ⟨0o700, .file "aspd.lock" ⟨0o600, []⟩
    (.directory "sessions" 0o700 (.file "events.log" ⟨0o644, [1, 2]⟩ .done)
      (.file "token" ⟨0o600, [7]⟩ .done))⟩

theorem session_is_restored : ∃ manifest backup restored,
    backupState hexDigest plainJson (some sessionState) false 0 = .ok (manifest, backup) ∧
      restoreState hexDigest plainJson backup none false = .ok (restored, none) ∧
      restored.files =
        [(["sessions", "events.log"], ⟨0o644, [1, 2]⟩), (["token"], ⟨0o600, [7]⟩)] := by
  have hfiles : sessionState.stateFiles =
      [(["sessions", "events.log"], ⟨0o644, [1, 2]⟩), (["token"], ⟨0o600, [7]⟩)] := by decide
  have hplain : Plain sessionState.children := ⟨trivial, trivial⟩
  have hvalid : sessionState.children.Valid := by
    refine ⟨?_, ?_, ?_, ?_, ⟨?_, ?_, trivial⟩, ?_, ?_, trivial⟩ <;> decide
  obtain ⟨manifest, backup, hok⟩ := backupState_plain hexDigest plainJson hplain
    (by rw [hfiles]; decide) 0
  have hshort : (plainJson.encode (sessionState.manifest hexDigest 0)).length ≤
      maxBackupManifestBytes := by
    rw [StateTree.manifest, hfiles, sortEntries, List.mergeSort_of_pairwise]
    · decide +kernel
    · decide +kernel
  have hmodes : ∀ file ∈ sessionState.stateFiles, file.2.mode < 0o1000 := by
    rw [hfiles]
    decide
  have hiff := (backup_is_restorable_iff hexDigest plainJson).1 sessionState 0 manifest backup
    hvalid hok
  obtain ⟨-, restored, hrestored, hsame⟩ := hiff.mpr ⟨hshort, hmodes⟩
  exact ⟨manifest, backup, restored, hok, hrestored, hsame.trans hfiles⟩

/-- The names differ in their last characters, which are not in the Basic Multilingual Plane. -/
def numberedName (n : ℕ) : String := String.ofList ['l', 'o', 'g', Char.ofNat (0x10000 + n)]

@[irreducible] def millionNames : List String := (List.range 1000000).map numberedName

def filesNamed (names : List String) : StateListing :=
  names.foldr (fun name rest => .file name ⟨0o600, []⟩ rest) .done

def millionFiles : StateTree := ⟨0o700, filesNamed millionNames⟩

theorem filesNamed_files (names : List String) :
    (filesNamed names).files [] = names.map fun name => ([name], ⟨0o600, []⟩) := by
  induction names with
  | nil => rfl
  | cons name names ih => exact congrArg (List.cons _) ih

theorem filesNamed_names (names : List String) : (filesNamed names).names = names := by
  induction names with
  | nil => rfl
  | cons name names ih => exact congrArg (List.cons name) ih

theorem filesNamed_valid {names : List String} (hnames : ∀ name ∈ names, ValidName name)
    (hnodup : names.Nodup) : (filesNamed names).Valid := by
  induction names with
  | nil => trivial
  | cons name names ih =>
    rw [List.nodup_cons] at hnodup
    rw [List.forall_mem_cons] at hnames
    refine ⟨hnames.1, ?_, ih hnames.2 hnodup.2⟩
    exact (filesNamed_names names).symm ▸ hnodup.1

theorem filesNamed_plain (names : List String) : Plain (filesNamed names) := by
  induction names with
  | nil => trivial
  | cons name names ih => exact ih

theorem toNat_numbered {n : ℕ} (hn : n < 1000000) :
    (Char.ofNat (0x10000 + n)).toNat = 0x10000 + n := by
  have hvalid : (0x10000 + n).isValidChar := .inr ⟨by omega, by omega⟩
  rw [Char.ofNat, dif_pos hvalid]
  rfl

theorem millionNames_nodup : millionNames.Nodup := by
  unfold millionNames
  refine (List.nodup_map_iff_inj_on List.nodup_range).mpr fun m hm n hn h => ?_
  rw [List.mem_range] at hm hn
  have hchars := String.ofList_injective h
  simp only [List.cons.injEq, and_true, true_and] at hchars
  have hnat := congrArg Char.toNat hchars
  rw [toNat_numbered hm, toNat_numbered hn] at hnat
  omega

theorem millionNames_valid {name : String} (h : name ∈ millionNames) :
    ValidName name ∧ name ≠ daemonLock ∧ name.toList.length = 4 := by
  unfold millionNames at h
  obtain ⟨n, hn, rfl⟩ := List.mem_map.mp h
  have hlast := toNat_numbered (List.mem_range.mp hn)
  have hchars : (numberedName n).toList = ['l', 'o', 'g', Char.ofNat (0x10000 + n)] :=
    String.toList_ofList
  have hdiffers : ∀ other : String, other.toList.length ≠ 4 → numberedName n ≠ other := by
    rintro _ hlength rfl
    exact hlength (congrArg List.length hchars)
  have hslash : '/' ≠ Char.ofNat (0x10000 + n) := by
    intro heq
    rw [← heq] at hlast
    exact absurd hlast (by simp; omega)
  refine ⟨⟨hdiffers "" (by decide), ?_, hdiffers "." (by decide), hdiffers ".." (by decide)⟩,
    hdiffers daemonLock (by decide), congrArg List.length hchars⟩
  rw [hchars]
  simp [hslash]

theorem millionFiles_mem {file : List String × StateFile} (h : file ∈ millionFiles.files) :
    daemonLock ∉ file.1 ∧ (pathText file.1).length = 4 := by
  rw [StateTree.files, millionFiles, filesNamed_files] at h
  obtain ⟨name, hname, rfl⟩ := List.mem_map.mp h
  obtain ⟨-, hlock, hlength⟩ := millionNames_valid hname
  refine ⟨by simp [hlock.symm], ?_⟩
  rw [pathText, String.length_ofList]
  simpa [List.intercalate] using hlength

theorem millionFiles_length : millionFiles.files.length = 1000000 := by
  rw [StateTree.files, millionFiles, filesNamed_files]
  unfold millionNames
  simp only [List.length_map, List.length_range]

theorem millionFiles_valid : millionFiles.children.Valid :=
  filesNamed_valid (fun _ h => (millionNames_valid h).1) millionNames_nodup

def zeroDigest (_ : Bytes) : String := String.ofList (List.replicate 64 '0')

theorem zeroDigest_length (content : Bytes) : (zeroDigest content).length = 64 :=
  String.length_ofList.trans List.length_replicate

theorem length_le_manifest {sha256 : Bytes → String} {tree : StateTree} {c : ℕ}
    (json : ManifestJson) (unixMs : ℕ)
    (h : ∀ file ∈ tree.stateFiles,
      c ≤ (backupEntry sha256 file).path.length + (backupEntry sha256 file).sha256.length) :
    tree.stateFiles.length * c ≤ (json.encode (tree.manifest sha256 unixMs)).length := by
  refine Nat.le_trans ?_ (json.writes_strings _)
  rw [StateTree.manifest, ((sortEntries_perm _).map _).sum_eq, List.map_map]
  refine Nat.le_trans (Nat.le_of_eq ?_) (List.card_nsmul_le_sum _ c ?_)
  · rw [List.length_map, smul_eq_mul]
  · intro n hn
    obtain ⟨file, hfile, rfl⟩ := List.mem_map.mp hn
    exact h file hfile

/-- With digests of 64 characters the backup succeeds and its manifest is too long to read. -/
theorem large_backup_is_not_restorable : millionFiles.children.Valid ∧
    ∀ json : ManifestJson, ∃ manifest backup,
      backupState zeroDigest json (some millionFiles) false 0 = .ok (manifest, backup) ∧
      verifyBackup zeroDigest json backup = .error .manifestTooLong ∧
      restoreState zeroDigest json backup none false = .error .manifestTooLong := by
  refine ⟨millionFiles_valid, fun json => ?_⟩
  have hkept : millionFiles.stateFiles = millionFiles.files :=
    List.filter_eq_self.mpr fun file hfile => decide_eq_true (millionFiles_mem hfile).1
  have hcount : millionFiles.stateFiles.length = 1000000 :=
    (congrArg List.length hkept).trans millionFiles_length
  have hplain : Plain millionFiles.children := filesNamed_plain millionNames
  obtain ⟨manifest, backup, hok⟩ := backupState_plain zeroDigest json hplain hcount.le 0
  have hlong : ¬ (json.encode (millionFiles.manifest zeroDigest 0)).length ≤
      maxBackupManifestBytes := by
    have heach : ∀ file ∈ millionFiles.stateFiles,
        68 ≤ (backupEntry zeroDigest file).path.length +
          (backupEntry zeroDigest file).sha256.length := by
      intro file hfile
      have hpath : (backupEntry zeroDigest file).path.length = 4 :=
        (millionFiles_mem (hkept ▸ hfile)).2
      have hdigest : (backupEntry zeroDigest file).sha256.length = 64 :=
        zeroDigest_length file.2.content
      rw [hpath, hdigest]
    have hstrings := length_le_manifest json 0 heach
    rw [hcount] at hstrings
    have hmax : maxBackupManifestBytes < 1000000 * 68 := by decide
    exact Nat.not_le_of_lt (hmax.trans_le hstrings)
  obtain ⟨state, -, hrestore⟩ := restoreState_backupState millionFiles_valid hok
  rw [if_neg hlong] at hrestore
  have hverify := verifyBackup_backupState millionFiles_valid hok
  rw [if_neg hlong] at hverify
  exact ⟨manifest, backup, hok, hverify, hrestore⟩

end Examples

end Asp
