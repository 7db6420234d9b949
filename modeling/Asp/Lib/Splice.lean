import Mathlib.Tactic

/-! Replacing intervals of a list. An edit names an interval of `old` and the
interval of `new` that takes its place; a script is a list of edits whose gaps
are equal in both lists. Splicing a script that reaches `(I, J)` yields the
first `J` elements of `new` followed by what `old` holds from `I` on. -/

namespace Splice

variable {α : Type*}

variable {I J K L f i j k n : ℕ} {e : Edit} {es : List Edit}

def slice (l : List α) (i j : ℕ) : List α := (l.take j).drop i

@[simp] theorem slice_self (l : List α) (i : ℕ) : slice l i i = [] := by
  simp [slice]

theorem slice_to_end (l : List α) (i : ℕ) : slice l i l.length = l.drop i := by
  simp [slice]

theorem slice_length (l : List α) (hj : j ≤ l.length) : (slice l i j).length = j - i := by
  simp [slice, Nat.min_eq_left hj]

theorem slice_append (l : List α) (hij : i ≤ j) (hjk : j ≤ k) :
    slice l i j ++ slice l j k = slice l i k := by
  have hk : l.take k = l.take j ++ (l.take k).drop j := by
    conv_lhs => rw [← List.take_append_drop j (l.take k), List.take_take, Nat.min_eq_left hjk]
  unfold slice
  by_cases hj : j ≤ l.length
  · conv_rhs => rw [hk]
    rw [List.drop_append_of_le_length (by simp [Nat.min_eq_left hj, hij])]
  · have hlen : l.length ≤ j := by omega
    rw [List.take_of_length_le hlen, List.take_of_length_le (hlen.trans hjk),
      List.drop_eq_nil_of_le hlen, List.append_nil]

theorem slice_append_drop (l : List α) (hij : i ≤ j) (hj : j ≤ l.length) :
    slice l i j ++ l.drop j = l.drop i := by
  rw [← slice_to_end l j, slice_append l hij hj, slice_to_end]

theorem slice_one (l : List α) (hi : i < l.length) : slice l i (i + 1) = [l[i]] := by
  rw [slice, List.drop_take, List.drop_eq_getElem_cons hi, Nat.add_sub_cancel_left]
  rfl

theorem slice_slice (l : List α) (hj : f + j ≤ k) :
    slice (slice l f k) i j = slice l (f + i) (f + j) := by
  rw [slice, slice, slice, List.take_drop, List.drop_drop, List.take_take, Nat.min_eq_left hj]

/-- `old[oldStart, oldEnd)` becomes `new[newStart, newEnd)`. -/
structure Edit where
  oldStart : ℕ
  oldEnd : ℕ
  newStart : ℕ
  newEnd : ℕ
  deriving DecidableEq

/-- The intervals between two positions are equal in both lists. -/
structure Gap (old new : List α) (i j I J : ℕ) : Prop where
  old_le : i ≤ I
  old_len : I ≤ old.length
  new_le : j ≤ J
  new_len : J ≤ new.length
  eq : slice old i I = slice new j J

structure Edit.Fits (old new : List α) (e : Edit) : Prop where
  old_le : e.oldStart ≤ e.oldEnd
  old_len : e.oldEnd ≤ old.length
  new_le : e.newStart ≤ e.newEnd
  new_len : e.newEnd ≤ new.length

/-- From `(i, j)` the edits and the equal gaps between them lead to `(I, J)`. -/
def Script (old new : List α) : ℕ → ℕ → List Edit → ℕ → ℕ → Prop
  | i, j, [], I, J => Gap old new i j I J
  | i, j, e :: es, I, J =>
      Gap old new i j e.oldStart e.newStart ∧ e.Fits old new ∧
        Script old new e.oldEnd e.newEnd es I J

theorem Gap.refl {old new : List α} (hi : i ≤ old.length) (hj : j ≤ new.length) :
    Gap old new i j i j :=
  ⟨le_rfl, hi, le_rfl, hj, by simp⟩

theorem Gap.trans {old new : List α} (h : Gap old new i j I J) (h' : Gap old new I J K L) :
    Gap old new i j K L := by
  refine ⟨h.old_le.trans h'.old_le, h'.old_len, h.new_le.trans h'.new_le, h'.new_len, ?_⟩
  rw [← slice_append old h.old_le h'.old_le, ← slice_append new h.new_le h'.new_le, h.eq, h'.eq]

theorem Script.of_gap {old new : List α} (h : Gap old new i j I J)
    (hs : Script old new I J es K L) : Script old new i j es K L := by
  cases es with
  | nil => exact h.trans hs
  | cons e es => exact ⟨h.trans hs.1, hs.2.1, hs.2.2⟩

theorem Script.trans {old new : List α} {fs : List Edit} (h : Script old new i j es I J)
    (h' : Script old new I J fs K L) : Script old new i j (es ++ fs) K L := by
  induction es generalizing i j with
  | nil => exact Script.of_gap h h'
  | cons e es ih => exact ⟨h.1, h.2.1, ih h.2.2⟩

theorem Script.single {old new : List α} (h : e.Fits old new) :
    Script old new e.oldStart e.newStart [e] e.oldEnd e.newEnd :=
  ⟨Gap.refl (h.old_le.trans h.old_len) (h.new_le.trans h.new_len), h,
    Gap.refl h.old_len h.new_len⟩

theorem Script.bounds {old new : List α} (h : Script old new i j es I J) :
    i ≤ I ∧ I ≤ old.length ∧ j ≤ J ∧ J ≤ new.length := by
  induction es generalizing i j with
  | nil => exact ⟨h.old_le, h.old_len, h.new_le, h.new_len⟩
  | cons e es ih =>
    obtain ⟨hg, hf, hs⟩ := h
    obtain ⟨h1, h2, h3, h4⟩ := ih hs
    exact ⟨hg.old_le.trans (hf.old_le.trans h1), h2, hg.new_le.trans (hf.new_le.trans h3), h4⟩

theorem Script.fits {old new : List α} (h : Script old new i j es I J) : ∀ e ∈ es, e.Fits old new :=
    by
  induction es generalizing i j with
  | nil => simp
  | cons e es ih =>
    rintro d (_ | ⟨_, hd⟩)
    · exact h.2.1
    · exact ih h.2.2 d hd

def Edit.shift (f g : ℕ) (e : Edit) : Edit :=
  ⟨f + e.oldStart, f + e.oldEnd, g + e.newStart, g + e.newEnd⟩

theorem Gap.of_slice {old new : List α} {g l : ℕ} (hk : k ≤ old.length) (hl : l ≤ new.length)
    (hf : f ≤ k) (hg : g ≤ l) (h : Gap (slice old f k) (slice new g l) i j I J) :
    Gap old new (f + i) (g + j) (f + I) (g + J) := by
  obtain ⟨h1, h2, h3, h4, heq⟩ := h
  rw [slice_length old hk] at h2
  rw [slice_length new hl] at h4
  rw [slice_slice old (by omega), slice_slice new (by omega)] at heq
  exact ⟨by omega, by omega, by omega, by omega, heq⟩

theorem Script.of_slice {old new : List α} {g l : ℕ} (hk : k ≤ old.length) (hl : l ≤ new.length)
    (hf : f ≤ k) (hg : g ≤ l) (h : Script (slice old f k) (slice new g l) i j es I J) :
    Script old new (f + i) (g + j) (es.map (Edit.shift f g)) (f + I) (g + J) := by
  induction es generalizing i j with
  | nil => exact Gap.of_slice hk hl hf hg h
  | cons e es ih =>
    obtain ⟨hgap, ⟨h1, h2, h3, h4⟩, hs⟩ := h
    rw [slice_length old hk] at h2
    rw [slice_length new hl] at h4
    refine ⟨Gap.of_slice hk hl hf hg hgap, ⟨?_, ?_, ?_, ?_⟩, ih hs⟩ <;>
      simp only [Edit.shift] <;> omega

def Edit.merge (e f : Edit) : Edit := ⟨e.oldStart, f.oldEnd, e.newStart, f.newEnd⟩

def Edit.isEmpty (e : Edit) : Bool := e.oldStart == e.oldEnd && e.newStart == e.newEnd

theorem Script.drop_empty {old new : List α} (he : e.isEmpty = true)
    (h : Script old new i j (e :: es) I J) : Script old new i j es I J := by
  simp only [Edit.isEmpty, Bool.and_eq_true, beq_iff_eq] at he
  obtain ⟨hg, -, hs⟩ := h
  rw [← he.1, ← he.2] at hs
  exact Script.of_gap hg hs

theorem Script.merge {old new : List α} {f : Edit}
    (h : Script old new i j (e :: f :: es) I J) : Script old new i j (e.merge f :: es) I J := by
  obtain ⟨hg, he, hg', hf, hs⟩ := h
  refine ⟨hg, ⟨?_, hf.old_len, ?_, hf.new_len⟩, hs⟩
  · exact he.old_le.trans (hg'.old_le.trans hf.old_le)
  · exact he.new_le.trans (hg'.new_le.trans hf.new_le)

theorem Script.append_mono {old new : List α} {fs : List Edit} (ds : List Edit)
    (hef : ∀ {i j}, Script old new i j es I J → Script old new i j fs I J)
    (h : Script old new i j (ds ++ es) I J) : Script old new i j (ds ++ fs) I J := by
  induction ds generalizing i j with
  | nil => exact hef h
  | cons d ds ih => exact ⟨h.1, h.2.1, ih h.2.2⟩

/-- Merge neighbours that `near` accepts, reading left to right; the last entry
written so far is the head of `done`. -/
def coalesceOnto {β : Type*} (near : β → β → Bool) (merge : β → β → β) :
    List β → List β → List β
  | done, [] => done.reverse
  | [], e :: es => coalesceOnto near merge [e] es
  | p :: done, e :: es =>
      if near p e then coalesceOnto near merge (merge p e :: done) es
      else coalesceOnto near merge (e :: p :: done) es

def coalesce {β : Type*} (near : β → β → Bool) (merge : β → β → β) (es : List β) : List β :=
  coalesceOnto near merge [] es

theorem length_coalesceOnto_le {β : Type*} (near : β → β → Bool) (merge : β → β → β)
    (done es : List β) : (coalesceOnto near merge done es).length ≤ done.length + es.length := by
  induction es generalizing done with
  | nil => cases done <;> simp [coalesceOnto]
  | cons e es ih =>
    cases done with
    | nil =>
      have hrest := ih [e]
      simp only [coalesceOnto, List.length_cons, List.length_nil] at hrest ⊢
      omega
    | cons p done =>
      rw [coalesceOnto]
      split
      · have hrest := ih (merge p e :: done)
        simp only [List.length_cons] at hrest ⊢
        omega
      · have hrest := ih (e :: p :: done)
        simp only [List.length_cons] at hrest ⊢
        omega

theorem coalesceOnto_map {β γ : Type*} (f : β → γ) {near : β → β → Bool} {merge : β → β → β}
    {near' : γ → γ → Bool} {merge' : γ → γ → γ} (hnear : ∀ a b, near' (f a) (f b) = near a b)
    (hmerge : ∀ a b, merge' (f a) (f b) = f (merge a b)) (done es : List β) :
    coalesceOnto near' merge' (done.map f) (es.map f) =
      (coalesceOnto near merge done es).map f := by
  induction es generalizing done with
  | nil => cases done <;> simp [coalesceOnto]
  | cons e es ih =>
    cases done with
    | nil => exact ih [e]
    | cons p done =>
      simp only [List.map_cons, coalesceOnto, hnear, hmerge]
      split
      · exact ih (merge p e :: done)
      · exact ih (e :: p :: done)

theorem coalesce_map {β γ : Type*} (f : β → γ) {near : β → β → Bool} {merge : β → β → β}
    {near' : γ → γ → Bool} {merge' : γ → γ → γ} (hnear : ∀ a b, near' (f a) (f b) = near a b)
    (hmerge : ∀ a b, merge' (f a) (f b) = f (merge a b)) (es : List β) :
    coalesce near' merge' (es.map f) = (coalesce near merge es).map f :=
  coalesceOnto_map f hnear hmerge [] es

theorem Script.coalesceOnto {old new : List α} (near : Edit → Edit → Bool) (done es : List Edit)
    (h : Script old new i j (done.reverse ++ es) I J) :
    Script old new i j (Splice.coalesceOnto near Edit.merge done es) I J := by
  induction es generalizing done with
  | nil => cases done <;> simpa [Splice.coalesceOnto] using h
  | cons e es ih =>
    cases done with
    | nil => exact ih [e] (by simpa using h)
    | cons p done =>
      unfold Splice.coalesceOnto
      split
      · apply ih
        simp only [List.reverse_cons, List.append_assoc, List.singleton_append] at h ⊢
        -- the merge happens behind the edits that are already final
        exact Script.append_mono done.reverse Script.merge h
      · exact ih _ (by simpa using h)

theorem Script.coalesce {old new : List α} (near : Edit → Edit → Bool)
    (h : Script old new i j es I J) : Script old new i j (Splice.coalesce near Edit.merge es) I J :=
  Script.coalesceOnto near [] es (by simpa using h)

theorem Script.filter_nonempty {old new : List α} (h : Script old new i j es I J) :
    Script old new i j (es.filter (fun e => !e.isEmpty)) I J := by
  induction es generalizing i j with
  | nil => exact h
  | cons e es ih =>
    cases he : e.isEmpty
    · simp only [List.filter_cons, he, Bool.not_false, if_true]
      exact ⟨h.1, h.2.1, ih h.2.2⟩
    · simp only [List.filter_cons, he, Bool.not_true, Bool.false_eq_true, if_false]
      exact ih (Script.drop_empty he h)

/-- What a script writes: copies of `old` between the edits, replacements from `new`. -/
def output (old new : List α) : ℕ → List Edit → List α
  | i, [] => old.drop i
  | i, e :: es => slice old i e.oldStart ++ slice new e.newStart e.newEnd ++ output old new e.oldEnd es

theorem Script.output {old new : List α} (h : Script old new i j es I J) :
    Splice.output old new i es = slice new j J ++ old.drop I := by
  induction es generalizing i j with
  | nil =>
    rw [Splice.output, ← h.eq, slice_append_drop old h.old_le h.old_len]
  | cons e es ih =>
    obtain ⟨hg, hf, hs⟩ := h
    obtain ⟨-, -, hJ, -⟩ := hs.bounds
    rw [Splice.output, ih hs, hg.eq, ← List.append_assoc, slice_append new hg.new_le hf.new_le,
      slice_append new (hg.new_le.trans hf.new_le) hJ]

theorem Script.output_eq {old new : List α}
    (h : Script old new 0 0 es old.length new.length) : Splice.output old new 0 es = new := by
  rw [h.output, slice_to_end, List.drop_length, List.drop_zero, List.append_nil]

/-- A script that ends where one list is exhausted yields `new` only if the other is too. -/
theorem Script.output_eq_iff {old new : List α} (h : Script old new 0 0 es I J)
    (hend : I = old.length ∨ J = new.length) :
    Splice.output old new 0 es = new ↔ I = old.length ∧ J = new.length := by
  obtain ⟨-, hI, -, hJ⟩ := h.bounds
  constructor
  · intro heq
    have hlen := congrArg List.length heq
    rw [h.output, List.length_append, slice_length new hJ, List.length_drop] at hlen
    omega
  · rintro ⟨rfl, rfl⟩
    exact h.output_eq

/-- `l` with its `n` elements from `i` on replaced by `r`. -/
def replaceAt (l : List α) (i n : ℕ) (r : List α) : List α := l.take i ++ r ++ l.drop (i + n)

theorem take_replaceAt {l : List α} (r : List α) (hk : k ≤ i) (hi : i ≤ l.length) :
    (replaceAt l i n r).take k = l.take k := by
  have hlen : k ≤ (l.take i).length := by rwa [List.length_take, Nat.min_eq_left hi]
  rw [replaceAt, List.append_assoc, List.take_append_of_le_length hlen, List.take_take,
    Nat.min_eq_left hk]

theorem drop_replaceAt {l : List α} (r : List α) (hk : k ≤ i) (hi : i ≤ l.length) :
    (replaceAt l i n r).drop k = slice l k i ++ r ++ l.drop (i + n) := by
  have hlen : k ≤ (l.take i).length := by rwa [List.length_take, Nat.min_eq_left hi]
  rw [replaceAt, List.append_assoc, List.drop_append_of_le_length hlen, ← List.append_assoc, slice]

theorem length_replaceAt {l : List α} (r : List α) (h : i + n ≤ l.length) :
    (replaceAt l i n r).length + n = l.length + r.length := by
  simp only [replaceAt, List.length_append, List.length_take, List.length_drop]
  omega

end Splice
