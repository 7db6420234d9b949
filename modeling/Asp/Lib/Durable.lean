import Mathlib.Tactic

/-! Storage that a crash can roll back. A cell keeps what reads see and, since
its last sync, every value it passed through; a crash leaves one of them. -/

namespace Durable

variable {α β : Type*}

structure Cell (α : Type*) where
  now : α
  past : List α
  deriving DecidableEq

namespace Cell

def images (c : Cell α) : List α := c.now :: c.past

def stable (x : α) : Cell α := ⟨x, []⟩

def sync (c : Cell α) : Cell α := stable c.now

/-- An unsynced change to `x` through the values `mids`. -/
def change (c : Cell α) (mids : List α) (x : α) : Cell α := ⟨x, mids ++ c.images⟩

@[simp] theorem stable_now (x : α) : (stable x).now = x := rfl

@[simp] theorem mem_images_stable {x y : α} : y ∈ (stable x).images ↔ y = x := by
  simp [images, stable]

@[simp] theorem sync_now (c : Cell α) : c.sync.now = c.now := rfl

@[simp] theorem mem_images_sync {c : Cell α} {y : α} : y ∈ c.sync.images ↔ y = c.now :=
  mem_images_stable

@[simp] theorem change_now (c : Cell α) (mids : List α) (x : α) : (c.change mids x).now = x := rfl

@[simp] theorem mem_images_change {c : Cell α} {mids : List α} {x y : α} :
    y ∈ (c.change mids x).images ↔ y = x ∨ y ∈ mids ∨ y ∈ c.images := by
  simp [images, change]

theorem now_mem_images (c : Cell α) : c.now ∈ c.images := List.mem_cons_self

/-- A change to `x` that was taken back, neither of them synced. -/
def undone (c : Cell α) (x : α) : Cell α := ⟨c.now, x :: c.past⟩

end Cell

/-- A cell that outlives the process that writes it. When only the process
dies, reads still see its unsynced changes, and a later loss of power can still
take them back. -/
structure Kept (α : Type*) extends Cell α where
  /-- The unsynced values of earlier processes. -/
  earlier : List α
  deriving DecidableEq

namespace Kept

def images (c : Kept α) : List α := c.toCell.images ++ c.earlier

/-- The values that the running process has seen since its last sync. -/
def recent (c : Kept α) : List α := c.toCell.images

def stable (x : α) : Kept α := ⟨.stable x, []⟩

def sync (c : Kept α) : Kept α := stable c.now

def change (c : Kept α) (x : α) : Kept α := ⟨c.toCell.change [] x, c.earlier⟩

def undone (c : Kept α) (x : α) : Kept α := ⟨c.toCell.undone x, c.earlier⟩

/-- The process dies and another takes its place. -/
def kill (c : Kept α) : Kept α := ⟨.stable c.now, c.past ++ c.earlier⟩

@[simp] theorem stable_now (x : α) : (stable x).now = x := rfl

@[simp] theorem mem_recent_stable {x y : α} : y ∈ (stable x).recent ↔ y = x :=
  Cell.mem_images_stable

@[simp] theorem mem_recent_sync {c : Kept α} {y : α} : y ∈ c.sync.recent ↔ y = c.now :=
  mem_recent_stable

@[simp] theorem mem_recent_change {c : Kept α} {x y : α} :
    y ∈ (c.change x).recent ↔ y = x ∨ y ∈ c.recent := by
  simp [recent, change]

@[simp] theorem mem_recent_kill {c : Kept α} {y : α} : y ∈ c.kill.recent ↔ y = c.now :=
  Cell.mem_images_stable

theorem now_mem_recent (c : Kept α) : c.now ∈ c.recent := Cell.now_mem_images _

theorem now_mem_images (c : Kept α) : c.now ∈ c.images :=
  List.mem_append_left _ (Cell.now_mem_images _)

theorem mem_images_stable {x y : α} : y ∈ (stable x).images ↔ y = x := by
  simp [images, stable, Cell.images, Cell.stable]

theorem mem_images_change {c : Kept α} {x y : α} :
    y ∈ (c.change x).images ↔ y = x ∨ y ∈ c.images := by
  simp [images, change, Cell.images, Cell.change]

theorem mem_images_undone {c : Kept α} {x y : α} :
    y ∈ (c.undone x).images ↔ y = x ∨ y ∈ c.images := by
  simp only [images, undone, Cell.images, Cell.undone, List.mem_append, List.mem_cons]
  tauto

theorem mem_images_kill {c : Kept α} {y : α} : y ∈ c.kill.images ↔ y ∈ c.images := by
  simp [images, kill, Cell.images, Cell.stable]

end Kept

end Durable
