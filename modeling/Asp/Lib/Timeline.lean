import Mathlib.Tactic

/-! What was computed while something changed. A timeline has every state so far and, for
each value of a generation counter, the position at which the counter reached it. A
computation that ran over a span of positions saw the states of that span; later positions
and generations do not change what it saw. -/

structure Span where
  start : ℕ
  stop : ℕ
  deriving DecidableEq

/-- The states before the current one, and the positions at which the earlier generations
and the current one began. -/
structure Timeline (φ : Type*) where
  past : List φ
  current : φ
  earlier : List ℕ
  mark : ℕ
  sorted : (earlier ++ [mark]).Pairwise (· ≤ ·)
  mark_le : mark ≤ past.length

namespace Timeline

variable {φ : Type*}

variable {g : ℕ} {span : Span}

def init (s : φ) : Timeline φ := ⟨[], s, [], 0, List.pairwise_singleton _ _, le_rfl⟩

def history (t : Timeline φ) : List φ := t.past ++ [t.current]

def marks (t : Timeline φ) : List ℕ := t.earlier ++ [t.mark]

def now (t : Timeline φ) : ℕ := t.past.length

def generation (t : Timeline φ) : ℕ := t.earlier.length

def markOf (t : Timeline φ) (g : ℕ) : ℕ := t.marks.getD g 0

/-- The states that something saw while it ran. -/
def during (t : Timeline φ) (span : Span) : List φ :=
  (t.history.drop span.start).take (span.stop + 1 - span.start)

/-- The span lies between a position and now. -/
def Ran (t : Timeline φ) (bound : ℕ) (span : Span) : Prop :=
  bound ≤ span.start ∧ span.start ≤ span.stop ∧ span.stop ≤ t.now

instance (t : Timeline φ) (bound : ℕ) (span : Span) : Decidable (t.Ran bound span) :=
  inferInstanceAs (Decidable (_ ∧ _ ∧ _))

/-- Something ran after a position, and saw what passes a test. -/
def Computed (t : Timeline φ) (bound : ℕ) (span : Span) (test : List φ → Bool) : Prop :=
  t.Ran bound span ∧ test (t.during span) = true

def change (s : φ) (t : Timeline φ) : Timeline φ :=
  { t with
    past := t.past ++ [t.current]
    current := s
    mark_le := by
      rw [List.length_append]
      exact t.mark_le.trans (Nat.le_add_right ..) }

theorem le_mark {t : Timeline φ} {m : ℕ} (h : m ∈ t.marks) : m ≤ t.mark := by
  rcases List.mem_append.mp h with hm | hm
  · exact (List.pairwise_append.mp t.sorted).2.2 m hm t.mark (List.mem_singleton_self _)
  · exact (List.mem_singleton.mp hm).le

def invalidate (t : Timeline φ) : Timeline φ :=
  { t with
    earlier := t.marks
    mark := t.now
    mark_le := le_rfl
    sorted := by
      refine List.pairwise_append.mpr ⟨t.sorted, List.pairwise_singleton _ _, fun m hm n hn => ?_⟩
      rw [List.mem_singleton.mp hn]
      exact (le_mark hm).trans t.mark_le }

theorem markOf_eq {t : Timeline φ} (h : g ≤ t.generation) :
    ∃ hg : g < t.marks.length, t.markOf g = t.marks[g] := by
  have hg : g < t.marks.length := by
    rw [marks, List.length_append]
    exact Nat.lt_succ_of_le h
  exact ⟨hg, by simp [markOf, hg]⟩

theorem markOf_mono {t : Timeline φ} {g' : ℕ} (h : g ≤ g') (hg' : g' ≤ t.generation) :
    t.markOf g ≤ t.markOf g' := by
  obtain ⟨hlt, hmark⟩ := markOf_eq (h.trans hg')
  obtain ⟨hlt', hmark'⟩ := markOf_eq hg'
  rw [hmark, hmark']
  rcases h.eq_or_lt with rfl | hne
  · exact le_rfl
  · exact List.pairwise_iff_getElem.mp t.sorted g g' hlt hlt' hne

theorem markOf_le_now {t : Timeline φ} (h : g ≤ t.generation) : t.markOf g ≤ t.now := by
  obtain ⟨hlt, hmark⟩ := markOf_eq h
  rw [hmark]
  exact (le_mark (List.getElem_mem hlt)).trans t.mark_le

theorem Ran.mono {t : Timeline φ} {a b : ℕ} (h : t.Ran a span) (hle : b ≤ a) : t.Ran b span :=
  ⟨hle.trans h.1, h.2⟩

theorem Computed.mono {t : Timeline φ} {a b : ℕ} {test : List φ → Bool} (h : t.Computed a span test)
    (hle : b ≤ a) : t.Computed b span test :=
  ⟨h.1.mono hle, h.2⟩

structure Later (t t' : Timeline φ) : Prop where
  history : t.history <+: t'.history
  marks : t.marks <+: t'.marks

theorem Later.refl (t : Timeline φ) : Later t t := ⟨List.prefix_rfl, List.prefix_rfl⟩

theorem Later.change (s : φ) (t : Timeline φ) : Later t (t.change s) :=
  ⟨List.prefix_append _ _, List.prefix_rfl⟩

theorem Later.invalidate (t : Timeline φ) : Later t t.invalidate :=
  ⟨List.prefix_rfl, List.prefix_append _ _⟩

variable {t t' : Timeline φ}

theorem Later.now_le (h : Later t t') : t.now ≤ t'.now := by
  have hlength := h.history.length_le
  simp only [Timeline.history, List.length_append, List.length_singleton] at hlength
  exact Nat.le_of_succ_le_succ hlength

theorem Later.generation_le (h : Later t t') : t.generation ≤ t'.generation := by
  have hlength := h.marks.length_le
  simp only [Timeline.marks, List.length_append, List.length_singleton] at hlength
  exact Nat.le_of_succ_le_succ hlength

theorem Later.markOf_eq (h : Later t t') (hg : g ≤ t.generation) : t'.markOf g = t.markOf g := by
  obtain ⟨hlt, hmark⟩ := Timeline.markOf_eq hg
  obtain ⟨hlt', hmark'⟩ := Timeline.markOf_eq (hg.trans h.generation_le)
  rw [hmark, hmark']
  exact (h.marks.getElem hlt).symm

theorem Later.during_eq (h : Later t t') (hstop : span.stop ≤ t.now) :
    t'.during span = t.during span := by
  obtain ⟨rest, hrest⟩ := h.history
  have hlength : t.history.length = t.now + 1 := by
    rw [Timeline.history, List.length_append, List.length_singleton]
    rfl
  rw [during, during, ← hrest]
  rcases Nat.lt_or_ge span.stop span.start with hempty | hle
  · rw [Nat.sub_eq_zero_of_le hempty, List.take_zero, List.take_zero]
  · rw [List.drop_append_of_le_length (by omega), List.take_append_of_le_length]
    rw [List.length_drop]
    omega

theorem Ran.later {bound : ℕ} (h : t.Ran bound span) (hlater : Later t t') : t'.Ran bound span :=
  ⟨h.1, h.2.1, h.2.2.trans hlater.now_le⟩

theorem Computed.later {bound : ℕ} {test : List φ → Bool} (h : t.Computed bound span test)
    (hlater : Later t t') : t'.Computed bound span test := by
  refine ⟨h.1.later hlater, ?_⟩
  rw [hlater.during_eq h.1.2.2]
  exact h.2

theorem Computed.since_later {test : List φ → Bool} (hg : g ≤ t.generation)
    (h : t.Computed (t.markOf g) span test) (hlater : Later t t') :
    t'.Computed (t'.markOf g) span test := by
  rw [hlater.markOf_eq hg]
  exact h.later hlater

end Timeline
