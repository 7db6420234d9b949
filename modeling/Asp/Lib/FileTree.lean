import Mathlib.Tactic

/-! Directory trees. A listing is the children of one directory, one after the
other; a child that is a directory carries its own listing. The files of a tree
are listed with their paths, and the text of a path determines it. -/

namespace FileTree

variable {φ δ : Type}

/-- `φ` is the data of a file, `δ` that of a directory. -/
inductive Listing (φ δ : Type) where
  | done
  | file (name : String) (data : φ) (rest : Listing φ δ)
  | directory (name : String) (data : δ) (children rest : Listing φ δ)
  | symlink (name : String) (rest : Listing φ δ)
  | special (name : String) (rest : Listing φ δ)
  deriving DecidableEq

def ValidName (name : String) : Prop :=
  name ≠ "" ∧ '/' ∉ name.toList ∧ name ≠ "." ∧ name ≠ ".."

instance (name : String) : Decidable (ValidName name) := by
  unfold ValidName
  infer_instance

def pathText (path : List String) : String :=
  String.ofList (['/'].intercalate (path.map String.toList))

namespace Listing

def names : Listing φ δ → List String
  | done => []
  | file name _ rest | directory name _ _ rest | symlink name rest | special name rest =>
      name :: rest.names

/-- Names are valid and differ within a directory. -/
def Valid : Listing φ δ → Prop
  | done => True
  | file name _ rest | symlink name rest | special name rest =>
      ValidName name ∧ name ∉ rest.names ∧ rest.Valid
  | directory name _ children rest =>
      ValidName name ∧ name ∉ rest.names ∧ children.Valid ∧ rest.Valid

def files (path : List String) : Listing φ δ → List (List String × φ)
  | done => []
  | file name data rest => (path ++ [name], data) :: rest.files path
  | directory name _ children rest => children.files (path ++ [name]) ++ rest.files path
  | symlink _ rest | special _ rest => rest.files path

variable {path : List String} {tree : Listing φ δ} {entry : List String × φ}

theorem files_below (h : entry ∈ tree.files path) :
    ∃ name ∈ tree.names, path ++ [name] <+: entry.1 := by
  induction tree generalizing path with
  | done => exact absurd h List.not_mem_nil
  | file name data rest ih =>
    rcases List.mem_cons.mp h with rfl | h
    · exact ⟨name, List.mem_cons_self, List.prefix_rfl⟩
    · obtain ⟨other, hother, hbelow⟩ := ih h
      exact ⟨other, List.mem_cons_of_mem _ hother, hbelow⟩
  | directory name data children rest ihchildren ihrest =>
    rcases List.mem_append.mp h with h | h
    · obtain ⟨other, -, hbelow⟩ := ihchildren h
      exact ⟨name, List.mem_cons_self, (List.prefix_append _ _).trans hbelow⟩
    · obtain ⟨other, hother, hbelow⟩ := ihrest h
      exact ⟨other, List.mem_cons_of_mem _ hother, hbelow⟩
  | symlink name rest ih | special name rest ih =>
    obtain ⟨other, hother, hbelow⟩ := ih h
    exact ⟨other, List.mem_cons_of_mem _ hother, hbelow⟩

theorem prefix_name {name other : String} {p : List String} (h : path ++ [name] <+: p)
    (h' : path ++ [other] <+: p) : name = other := by
  have hsame : path ++ [name] = path ++ [other] :=
    (List.prefix_of_prefix_length_le h h' (by simp)).eq_of_length (by simp)
  exact List.singleton_inj.mp (List.append_cancel_left hsame)

theorem nodup_paths (h : tree.Valid) : ((tree.files path).map Prod.fst).Nodup := by
  induction tree generalizing path with
  | done => exact List.nodup_nil
  | file name data rest ih =>
    obtain ⟨-, hname, hrest⟩ := h
    refine List.nodup_cons.mpr ⟨fun hmem => ?_, ih hrest⟩
    obtain ⟨entry, hentry, hpath⟩ := List.mem_map.mp hmem
    obtain ⟨other, hother, hbelow⟩ := files_below hentry
    rw [hpath] at hbelow
    exact hname (prefix_name List.prefix_rfl hbelow ▸ hother)
  | directory name data children rest ihchildren ihrest =>
    obtain ⟨-, hname, hchildren, hrest⟩ := h
    rw [files, List.map_append, List.nodup_append]
    refine ⟨ihchildren hchildren, ihrest hrest, ?_⟩
    rintro p hp q hq rfl
    obtain ⟨inner, hinner, rfl⟩ := List.mem_map.mp hp
    obtain ⟨outer, houter, hpath⟩ := List.mem_map.mp hq
    obtain ⟨_, -, hbelow⟩ := files_below hinner
    obtain ⟨other, hother, hbelow'⟩ := files_below houter
    rw [hpath] at hbelow'
    exact hname (prefix_name ((List.prefix_append _ _).trans hbelow) hbelow' ▸ hother)
  | symlink name rest ih | special name rest ih => exact ih h.2.2

theorem path_valid (h : tree.Valid) (hpath : ∀ name ∈ path, ValidName name)
    (hentry : entry ∈ tree.files path) :
    entry.1 ≠ [] ∧ ∀ name ∈ entry.1, ValidName name := by
  have hsnoc : ∀ name, ValidName name → ∀ other ∈ path ++ [name], ValidName other := by
    intro name hname other hother
    rcases List.mem_append.mp hother with hother | hother
    · exact hpath other hother
    · rwa [List.mem_singleton.mp hother]
  induction tree generalizing path with
  | done => exact absurd hentry List.not_mem_nil
  | file name data rest ih =>
    rcases List.mem_cons.mp hentry with rfl | hentry
    · exact ⟨by simp, hsnoc name h.1⟩
    · exact ih h.2.2 hpath hentry hsnoc
  | directory name data children rest ihchildren ihrest =>
    obtain ⟨hname, -, hchildren, hrest⟩ := h
    rcases List.mem_append.mp hentry with hentry | hentry
    · refine ihchildren hchildren (hsnoc name hname) hentry fun other hvalid last hlast => ?_
      rcases List.mem_append.mp hlast with hlast | hlast
      · exact hsnoc name hname last hlast
      · rwa [List.mem_singleton.mp hlast]
    · exact ihrest hrest hpath hentry hsnoc
  | symlink name rest ih | special name rest ih => exact ih h.2.2 hpath hentry hsnoc

end Listing

theorem splitOn_pathText {path : List String} (hne : path ≠ [])
    (hvalid : ∀ name ∈ path, ValidName name) :
    (pathText path).toList.splitOn '/' = path.map String.toList := by
  rw [pathText, String.toList_ofList]
  refine List.splitOn_intercalate '/' ?_ (by simpa using hne)
  intro chars hchars
  obtain ⟨name, hname, rfl⟩ := List.mem_map.mp hchars
  exact (hvalid name hname).2.1

theorem pathText_inj {path path' : List String} (hne : path ≠ []) (hne' : path' ≠ [])
    (hvalid : ∀ name ∈ path, ValidName name) (hvalid' : ∀ name ∈ path', ValidName name)
    (h : pathText path = pathText path') : path = path' := by
  have hsplit := splitOn_pathText hne hvalid
  rw [h, splitOn_pathText hne' hvalid'] at hsplit
  exact (List.map_injective_iff.mpr (fun _ _ hchars => String.toList_injective hchars) hsplit).symm

end FileTree
