import Asp.Spec.SelectedFiles

/-! A selected-files query starves itself exactly when the units of all its files but one
leave no slot. -/

namespace Asp

open Steps Finset

variable {files : List ℕ} {q q' : FilesQuery files}

@[simp] theorem FileTask.held_waiting (bytes : ℕ) : FileTask.waiting.held bytes = 0 := rfl

@[simp] theorem FileTask.held_reading (bytes : ℕ) :
    FileTask.reading.held bytes = workspaceFileMaxMemoryUnits := rfl

@[simp] theorem FileTask.held_read (bytes : ℕ) : FileTask.read.held bytes = frameMemoryUnits bytes :=
  rfl

theorem frameMemoryUnits_le {bytes : ℕ} (h : bytes ≤ fileMaxBytes) :
    frameMemoryUnits bytes ≤ workspaceFileMaxMemoryUnits := by
  unfold frameMemoryUnits workspaceFileMaxMemoryUnits divCeil frameMemoryUnitBytes fileMaxBytes at *
  omega

theorem SelectedFiles.units_le (h : SelectedFiles files) (i : Fin files.length) :
    frameMemoryUnits (files.get i) ≤ workspaceFileMaxMemoryUnits :=
  frameMemoryUnits_le (h.1 _ (List.get_mem files i))

namespace FilesQuery

def Accounted (q : FilesQuery files) : Prop :=
  q.free + ∑ i, (q.tasks i).held (files.get i) = workspaceFileMemoryUnits

theorem start_accounted : (start files).Accounted := by
  simp [Accounted, start]

theorem held_update (tasks : Fin files.length → FileTask) (i : Fin files.length) (task : FileTask) :
    ∑ j, (Function.update tasks i task j).held (files.get j) + (tasks i).held (files.get i) =
      ∑ j, (tasks j).held (files.get j) + task.held (files.get i) := by
  have hrest : ∑ j ∈ univ.erase i, (Function.update tasks i task j).held (files.get j) =
      ∑ j ∈ univ.erase i, (tasks j).held (files.get j) := by
    refine sum_congr rfl fun j hj => ?_
    rw [Function.update_of_ne (ne_of_mem_erase hj)]
  rw [← add_sum_erase univ _ (mem_univ i), ← add_sum_erase univ _ (mem_univ i), hrest,
    Function.update_self]
  omega

theorem act_acquire {i : Fin files.length} (hwaiting : q.tasks i = .waiting)
    (hfree : workspaceFileMaxMemoryUnits ≤ q.free) : (filesMachine files).act (.acquire i) q =
      some ⟨Function.update q.tasks i .reading, q.free - workspaceFileMaxMemoryUnits⟩ :=
  if_pos ⟨hwaiting, hfree⟩

theorem act_split {i : Fin files.length} (hreading : q.tasks i = .reading)
    (hunits : frameMemoryUnits (files.get i) ≤ workspaceFileMaxMemoryUnits) :
    (filesMachine files).act (.split i) q = some ⟨Function.update q.tasks i .read,
      q.free + (workspaceFileMaxMemoryUnits - frameMemoryUnits (files.get i))⟩ :=
  if_pos ⟨hreading, hunits⟩

theorem Accounted.step {action : FilesAction files} (h : q.Accounted)
    (hact : act action q = some q') : q'.Accounted := by
  unfold Accounted at *
  cases action with
  | acquire i =>
    rw [act] at hact
    split_ifs at hact with hguard
    cases hact
    have hheld := held_update q.tasks i .reading
    rw [hguard.1, FileTask.held_waiting, FileTask.held_reading] at hheld
    dsimp only
    omega
  | split i =>
    rw [act] at hact
    split_ifs at hact with hguard
    cases hact
    have hheld := held_update q.tasks i .read
    rw [hguard.1, FileTask.held_reading, FileTask.held_read] at hheld
    dsimp only
    omega

theorem accounted_of_reaches (h : (filesMachine files).Reaches (fun _ _ => True) (start files) q) :
    q.Accounted :=
  h.invariant start_accounted fun _ _ _ _ hact hold => hold.step hact

theorem Accounted.slot_free (h : q.Accounted) {i : Fin files.length} (hwaiting : q.tasks i = .waiting)
    (hreading : ∀ j, q.tasks j ≠ .reading)
    (hunits : ∑ j ∈ univ.erase i, frameMemoryUnits (files.get j) ≤
      workspaceFileMemoryUnits - workspaceFileMaxMemoryUnits) :
    workspaceFileMaxMemoryUnits ≤ q.free := by
  have hrest : ∑ j ∈ univ.erase i, (q.tasks j).held (files.get j) ≤
      ∑ j ∈ univ.erase i, frameMemoryUnits (files.get j) := by
    refine sum_le_sum fun j _ => ?_
    cases htask : q.tasks j with
    | waiting => exact Nat.zero_le _
    | reading => exact absurd htask (hreading j)
    | read => exact Nat.le_refl _
  have hslot : workspaceFileMaxMemoryUnits ≤ workspaceFileMemoryUnits := by decide
  unfold Accounted at h
  rw [← add_sum_erase univ _ (mem_univ i), hwaiting, FileTask.held_waiting] at h
  omega

def readSet (files : List ℕ) (s : Finset (Fin files.length)) : FilesQuery files :=
  ⟨fun j => if j ∈ s then .read else .waiting,
    workspaceFileMemoryUnits - ∑ j ∈ s, frameMemoryUnits (files.get j)⟩

theorem readSet_waiting {s : Finset (Fin files.length)} {i : Fin files.length} (h : i ∉ s) :
    (readSet files s).tasks i = .waiting := if_neg h

theorem readSet_ne_reading (s : Finset (Fin files.length)) (j : Fin files.length) :
    (readSet files s).tasks j ≠ .reading := by
  unfold readSet
  dsimp only
  split_ifs <;> decide

theorem readSet_insert (hfiles : SelectedFiles files) {s : Finset (Fin files.length)}
    {i : Fin files.length} (hi : i ∉ s)
    (hs : (filesMachine files).Reaches (fun _ _ => True) (start files) (readSet files s))
    (hfree : workspaceFileMaxMemoryUnits ≤ (readSet files s).free) :
    (filesMachine files).Reaches (fun _ _ => True) (start files) (readSet files (insert i s)) := by
  have hunits := hfiles.units_le i
  have hacquire := hs.step trivial (act_acquire (readSet_waiting hi) hfree)
  have hsplit := hacquire.step trivial (act_split (Function.update_self ..) hunits)
  convert hsplit using 1
  unfold readSet at hfree ⊢
  dsimp only at hfree ⊢
  rw [sum_insert hi]
  congr 1
  · funext j
    rcases eq_or_ne j i with rfl | hne
    · rw [Function.update_self, if_pos (mem_insert_self j s)]
    · rw [Function.update_of_ne hne, Function.update_of_ne hne]
      simp only [mem_insert, hne, false_or]
  · omega

theorem reaches_readSet_or_starves (hfiles : SelectedFiles files) (i : Fin files.length)
    (s : Finset (Fin files.length)) (hi : i ∉ s) :
    (filesMachine files).Reaches (fun _ _ => True) (start files) (readSet files s) ∨
      ∃ q, (filesMachine files).Reaches (fun _ _ => True) (start files) q ∧ q.Starves := by
  induction s using Finset.induction_on with
  | empty =>
    left
    have hempty : readSet files ∅ = start files := by
      simp [readSet, start]
    rw [hempty]
    exact .start
  | insert j s hj ih =>
    rcases ih (fun h => hi (mem_insert_of_mem h)) with hs | hstarves
    · rcases Nat.lt_or_ge (readSet files s).free workspaceFileMaxMemoryUnits with hlt | hge
      · exact .inr ⟨_, hs, ⟨j, readSet_waiting hj⟩, readSet_ne_reading s, hlt⟩
      · exact .inl (readSet_insert hfiles hj hs hge)
    · exact .inr hstarves

end FilesQuery

theorem selected_files_starve_iff (files : List ℕ) (hfiles : SelectedFiles files) :
    (∀ q, (filesMachine files).Reaches (fun _ _ => True) (.start files) q →
      (∃ i, q.tasks i = .waiting) → (∀ i, q.tasks i ≠ .reading) →
      workspaceFileMaxMemoryUnits ≤ q.free) ↔
    ∀ i : Fin files.length, ∑ j ∈ univ.erase i, frameMemoryUnits (files.get j) ≤
      workspaceFileMemoryUnits - workspaceFileMaxMemoryUnits := by
  constructor
  · intro hslots i
    by_contra hunits
    have hstarves : ∃ q, (filesMachine files).Reaches (fun _ _ => True) (.start files) q ∧
        q.Starves := by
      rcases FilesQuery.reaches_readSet_or_starves hfiles i (univ.erase i) (notMem_erase i univ) with
        hreach | hstarves
      · refine ⟨_, hreach, ⟨i, FilesQuery.readSet_waiting (notMem_erase i univ)⟩,
          FilesQuery.readSet_ne_reading _, ?_⟩
        have hslot : 0 < workspaceFileMaxMemoryUnits := by decide
        unfold FilesQuery.readSet
        dsimp only
        omega
      · exact hstarves
    obtain ⟨q, hreach, hwaiting, hreading, hfree⟩ := hstarves
    exact Nat.not_le.mpr hfree (hslots q hreach hwaiting hreading)
  · rintro hunits q hreach ⟨i, hwaiting⟩ hreading
    exact (FilesQuery.accounted_of_reaches hreach).slot_free hwaiting hreading (hunits i)

theorem small_files_do_not_starve :
    SelectedFiles [1, 2, 3] ∧ ∀ q, (filesMachine [1, 2, 3]).Reaches (fun _ _ => True) (.start _) q →
      (∃ i, q.tasks i = .waiting) → (∀ i, q.tasks i ≠ .reading) →
      workspaceFileMaxMemoryUnits ≤ q.free :=
  ⟨by decide, (selected_files_starve_iff [1, 2, 3] (by decide)).mpr (by decide)⟩

/-- A file of 16 MiB and one of 1 MiB, both read, leave no slot for a third of one byte. -/
theorem third_file_starves :
    SelectedFiles [16 * 1024 * 1024, 1024 * 1024, 1] ∧
    ∃ q, (filesMachine [16 * 1024 * 1024, 1024 * 1024, 1]).Reaches (fun _ _ => True) (.start _) q ∧
      q.Starves := by
  have hfiles : SelectedFiles [16 * 1024 * 1024, 1024 * 1024, 1] := by decide
  have hfirst := FilesQuery.readSet_insert hfiles (s := ∅) (i := 0) (by decide)
    (by convert Machine.Reaches.start using 1; simp [FilesQuery.readSet, FilesQuery.start]) (by decide)
  have hsecond := FilesQuery.readSet_insert hfiles (i := 1) (by decide) hfirst (by decide)
  refine ⟨hfiles, _, hsecond, ⟨2, FilesQuery.readSet_waiting (by decide)⟩,
    FilesQuery.readSet_ne_reading _, by decide⟩

end Asp
