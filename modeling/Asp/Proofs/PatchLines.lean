import Asp.Lib.Lcs
import Asp.Spec.Patch

/-! The line branch of the client's diff: the table holds longest common subsequence lengths of the
remaining lines, and the walk writes a script up to wherever its cursors stop. -/

namespace Asp

open Splice

variable {k : ℕ}

def patchLines (data : Bytes) : List Bytes :=
  (splitPatchLines data).map fun line => slice data line.1 line.2

@[simp] theorem patchLines_length (data : Bytes) :
    (patchLines data).length = (splitPatchLines data).length := by
  simp [patchLines]

/-- Where line `k` of `data` starts; past the last line, where the file ends. -/
def lineStart (data : Bytes) (k : ℕ) : ℕ := patchLineOffset (splitPatchLines data) k data.length

theorem splitPatchLinesFrom_offset_zero (start index : ℕ) (rest : Bytes) (h : start ≤ index) :
    patchLineOffset (splitPatchLinesFrom start index rest) 0 (index + rest.length) = start := by
  induction rest generalizing start index with
  | nil =>
    unfold splitPatchLinesFrom
    split_ifs with hs
    · rfl
    · simp only [patchLineOffset, List.length_nil]
      simpa using (by omega : index = start)
  | cons byte rest ih =>
    unfold splitPatchLinesFrom
    split_ifs
    · rfl
    · have := ih start (index + 1) (by omega)
      rwa [show index + 1 + rest.length = index + (byte :: rest).length by simp; omega] at this

theorem splitPatchLinesFrom_get (start index : ℕ) (rest : Bytes) (h : start ≤ index) (k : ℕ)
    (hk : k < (splitPatchLinesFrom start index rest).length) :
    let off := fun k => patchLineOffset (splitPatchLinesFrom start index rest) k (index + rest.length)
    (splitPatchLinesFrom start index rest)[k]? = some (off k, off (k + 1)) ∧ off k < off (k + 1) ∧
      off (k + 1) ≤ index + rest.length := by
  induction rest generalizing start index k with
  | nil =>
    unfold splitPatchLinesFrom at hk ⊢
    split_ifs at hk ⊢ with hs
    · obtain rfl : k = 0 := by simpa using hk
      simp [patchLineOffset, hs]
    · simp at hk
  | cons byte rest ih =>
    have hlen : index + (byte :: rest).length = index + 1 + rest.length := by simp; omega
    rw [hlen]
    unfold splitPatchLinesFrom at hk ⊢
    split_ifs at hk ⊢ with hb
    · have hzero := splitPatchLinesFrom_offset_zero (index + 1) (index + 1) rest le_rfl
      cases k with
      | zero =>
        simp only [patchLineOffset, List.getElem?_cons_zero, Option.elim_some, List.getElem?_cons_succ]
          at hzero ⊢
        rw [hzero]
        exact ⟨rfl, by omega, by omega⟩
      | succ k =>
        have := ih (index + 1) (index + 1) le_rfl k (by simpa using hk)
        simpa only [patchLineOffset, List.getElem?_cons_succ] using this
    · exact ih start (index + 1) (by omega) k hk

section

variable (data : Bytes)

theorem lineStart_zero : lineStart data 0 = 0 := by
  have := splitPatchLinesFrom_offset_zero 0 0 data le_rfl
  simpa [lineStart, splitPatchLines] using this

theorem lineStart_get (hk : k < (splitPatchLines data).length) :
    (splitPatchLines data)[k]? = some (lineStart data k, lineStart data (k + 1)) ∧
      lineStart data k < lineStart data (k + 1) ∧ lineStart data (k + 1) ≤ data.length := by
  have := splitPatchLinesFrom_get 0 0 data le_rfl k hk
  simpa [lineStart, splitPatchLines] using this

theorem lineStart_end (hk : (splitPatchLines data).length ≤ k) :
    lineStart data k = data.length := by
  simp [lineStart, patchLineOffset, List.getElem?_eq_none hk]

theorem lineStart_le (k : ℕ) : lineStart data k ≤ data.length := by
  by_cases hk : k < (splitPatchLines data).length
  · obtain ⟨-, h1, h2⟩ := lineStart_get data hk
    omega
  · rw [lineStart_end data (by omega)]

theorem lineStart_mono {j : ℕ} (h : j ≤ k) : lineStart data j ≤ lineStart data k := by
  induction h with
  | refl => exact le_rfl
  | @step k _ ih =>
    refine ih.trans ?_
    by_cases hk : k < (splitPatchLines data).length
    · exact (lineStart_get data hk).2.1.le
    · rw [lineStart_end data (by omega : (splitPatchLines data).length ≤ k + 1)]
      exact lineStart_le data k

theorem lineStart_eq_length_iff (k : ℕ) :
    lineStart data k = data.length ↔ (splitPatchLines data).length ≤ k := by
  refine ⟨fun h => ?_, lineStart_end data⟩
  by_contra hk
  obtain ⟨-, h1, h2⟩ := lineStart_get data (by omega : k < (splitPatchLines data).length)
  omega

theorem patchLine_eq_slice (hk : k < (splitPatchLines data).length) :
    patchLine data (splitPatchLines data) k = slice data (lineStart data k) (lineStart data (k + 1)) := by
  simp [patchLine, List.getD_eq_getElem?_getD, (lineStart_get data hk).1]

theorem patchLine_eq_get (hk : k < (patchLines data).length) :
    patchLine data (splitPatchLines data) k = (patchLines data)[k] := by
  have hk' : k < (splitPatchLines data).length := by simpa using hk
  simp [patchLine, patchLines, List.getD_eq_getElem?_getD, List.getElem?_eq_getElem hk']

theorem flatten_drop_patchLines (k : ℕ) :
    ((patchLines data).drop k).flatten = data.drop (lineStart data k) := by
  obtain ⟨n, hn⟩ : ∃ n, (patchLines data).length - k = n := ⟨_, rfl⟩
  induction n generalizing k with
  | zero =>
    have hk : (patchLines data).length ≤ k := by omega
    rw [List.drop_eq_nil_of_le hk, lineStart_end data (by rwa [← patchLines_length]),
      List.drop_length, List.flatten_nil]
  | succ n ih =>
    have hk : k < (patchLines data).length := by omega
    have hk' : k < (splitPatchLines data).length := by rwa [← patchLines_length]
    obtain ⟨-, hlt, hle⟩ := lineStart_get data hk'
    rw [List.drop_eq_getElem_cons hk, List.flatten_cons, ih (k + 1) (by omega),
      ← patchLine_eq_get data hk, patchLine_eq_slice data hk', slice_append_drop data hlt.le hle]

end

theorem foldl_countdown {σ : Type*} (P : ℕ → σ → Prop) (f : σ → ℕ → σ) (n : ℕ)
    (step : ∀ k < n, ∀ s, P (k + 1) s → P k (f s k)) (s : σ) (h : P n s) :
    P 0 ((List.range n).reverse.foldl f s) := by
  induction n generalizing s with
  | zero => simpa using h
  | succ n ih =>
    rw [List.range_succ, List.reverse_append, List.reverse_singleton, List.singleton_append,
      List.foldl_cons]
    exact ih (fun k hk => step k (by omega)) _ (step n (by omega) s h)

section Table

variable (old new : Bytes)

variable {i j : ℕ} {table : List ℕ}

def lcsFrom (i j : ℕ) : ℕ := Lcs.len ((patchLines old).drop i) ((patchLines new).drop j)

theorem lcsFrom_end_left (j : ℕ) (hi : (patchLines old).length ≤ i) : lcsFrom old new i j = 0 := by
  rw [lcsFrom, List.drop_eq_nil_of_le hi, Lcs.len_nil_left]

theorem lcsFrom_end_right (i : ℕ) (hj : (patchLines new).length ≤ j) : lcsFrom old new i j = 0 := by
  rw [lcsFrom, List.drop_eq_nil_of_le hj, Lcs.len_nil_right]

theorem lcsFrom_step (hi : i < (patchLines old).length) (hj : j < (patchLines new).length) :
    lcsFrom old new i j =
      if (patchLines old)[i] = (patchLines new)[j] then 1 + lcsFrom old new (i + 1) (j + 1)
      else max (lcsFrom old new (i + 1) j) (lcsFrom old new i (j + 1)) := by
  simp only [lcsFrom]
  rw [List.drop_eq_getElem_cons hi, List.drop_eq_getElem_cons hj, Lcs.len_cons_cons,
    ← List.drop_eq_getElem_cons hj, ← List.drop_eq_getElem_cons hi]

/-- Cells at or after `(i, j)` in the order of filling, borders included, are right. -/
def FilledFrom (i j : ℕ) (table : List ℕ) : Prop :=
  table.length = ((patchLines old).length + 1) * ((patchLines new).length + 1) ∧
    ∀ i' j', i' ≤ (patchLines old).length → j' ≤ (patchLines new).length →
      (i' = (patchLines old).length ∨ j' = (patchLines new).length ∨ i < i' ∨ i = i' ∧ j ≤ j') →
      table.getD (i' * ((patchLines new).length + 1) + j') 0 = lcsFrom old new i' j'

theorem cell_lt {m n : ℕ} (hi : i ≤ m) (hj : j ≤ n) : i * (n + 1) + j < (m + 1) * (n + 1) := by
  have := Nat.mul_le_mul_right (n + 1) hi
  rw [Nat.add_mul, Nat.one_mul]
  omega

theorem cell_inj {n i' j' : ℕ} (hj : j ≤ n) (hj' : j' ≤ n)
    (h : i * (n + 1) + j = i' * (n + 1) + j') : i = i' ∧ j = j' := by
  have hdiv : ∀ a b, b ≤ n → (a * (n + 1) + b) / (n + 1) = a := by
    intro a b hb
    rw [Nat.mul_comm, Nat.mul_add_div (by omega), Nat.div_eq_of_lt (by omega), Nat.add_zero]
  have hii : i = i' := by rw [← hdiv i j hj, h, hdiv i' j' hj']
  subst hii
  exact ⟨rfl, by omega⟩

theorem lcsCell_eq (hi : i < (patchLines old).length) (hj : j < (patchLines new).length)
    (h : FilledFrom old new i (j + 1) table) :
    lcsCell old new (splitPatchLines old) (splitPatchLines new) ((patchLines new).length + 1)
      table i j = lcsFrom old new i j := by
  have hdiag := h.2 (i + 1) (j + 1) (by omega) (by omega) (by omega)
  have hdown := h.2 (i + 1) j (by omega) (by omega) (by omega)
  have hright := h.2 i (j + 1) (by omega) (by omega) (by omega)
  simp only [← Nat.add_assoc] at hdiag hright
  rw [lcsCell, lcsFrom_step old new hi hj, patchLine_eq_get old hi, patchLine_eq_get new hj, hdiag,
    hdown, hright]

theorem filledFrom_set (hi : i < (patchLines old).length) (hj : j < (patchLines new).length)
    (h : FilledFrom old new i (j + 1) table) :
    FilledFrom old new i j (table.set (i * ((patchLines new).length + 1) + j)
      (lcsCell old new (splitPatchLines old) (splitPatchLines new) ((patchLines new).length + 1)
        table i j)) := by
  rw [lcsCell_eq old new hi hj h]
  refine ⟨by rw [List.length_set, h.1], fun i' j' hi' hj' hc => ?_⟩
  by_cases hcell : i = i' ∧ j = j'
  · obtain ⟨rfl, rfl⟩ := hcell
    rw [List.getD_eq_getElem?_getD, List.getElem?_set_self (by rw [h.1]; exact cell_lt hi' hj'),
      Option.getD_some]
  · rw [List.getD_eq_getElem?_getD, List.getElem?_set_ne, ← List.getD_eq_getElem?_getD]
    · exact h.2 i' j' hi' hj' (by omega)
    · exact fun he => hcell (cell_inj (by omega) hj' he)

theorem lcsRow_filled (hi : i < (patchLines old).length)
    (h : FilledFrom old new i (patchLines new).length table) :
    FilledFrom old new i 0 (lcsRow old new (splitPatchLines old) (splitPatchLines new)
      ((patchLines new).length + 1) table i) := by
  rw [lcsRow, ← patchLines_length new]
  exact foldl_countdown (FilledFrom old new i) _ _
    (fun j hj t ht => filledFrom_set old new hi hj ht) table h

theorem lcsTable_getD (hi : i ≤ (patchLines old).length) (hj : j ≤ (patchLines new).length) :
    (lcsTable old new (splitPatchLines old) (splitPatchLines new) ((patchLines new).length + 1)
      (((patchLines old).length + 1) * ((patchLines new).length + 1))).getD
        (i * ((patchLines new).length + 1) + j) 0 = lcsFrom old new i j := by
  set w := (patchLines new).length + 1 with hw
  have hstart : FilledFrom old new (patchLines old).length 0
      (List.replicate (((patchLines old).length + 1) * w) 0) := by
    refine ⟨by simp [hw], fun i' j' hi' hj' hc => ?_⟩
    rw [List.getD_eq_getElem?_getD, List.getElem?_replicate_of_lt (cell_lt hi' hj'), Option.getD_some]
    rcases (by omega : i' = (patchLines old).length ∨ j' = (patchLines new).length) with h | h
    · rw [lcsFrom_end_left old new j' h.ge]
    · rw [lcsFrom_end_right old new i' h.ge]
  -- a row filled to its left end is the row above it, not begun
  have hrow : ∀ i < (patchLines old).length, ∀ t, FilledFrom old new (i + 1) 0 t →
      FilledFrom old new i 0 (lcsRow old new (splitPatchLines old) (splitPatchLines new) w t i) := by
    intro i hi t ht
    refine lcsRow_filled old new hi ⟨ht.1, fun i' j' hi' hj' hc => ht.2 i' j' hi' hj' (by omega)⟩
  have hfill := foldl_countdown (fun i => FilledFrom old new i 0) _ _ hrow _ hstart
  rw [lcsTable, ← patchLines_length old]
  exact hfill.2 i j hi hj (by omega)

end Table

section Walk

variable (old new : Bytes)

variable {i j : ℕ} {w : LineWalk}

structure WalkInv (w : LineWalk) : Prop where
  oldLe : w.oldIndex ≤ (patchLines old).length
  newLe : w.newIndex ≤ (patchLines new).length
  oldAnchorLe : w.oldAnchor ≤ w.oldIndex
  newAnchorLe : w.newAnchor ≤ w.newIndex
  script : Script old new 0 0 w.edits (lineStart old w.oldAnchor) (lineStart new w.newAnchor)
  /-- What remains runs out together exactly if the files do. -/
  together :
    Lcs.RunOutTogether ((patchLines old).drop w.oldIndex) ((patchLines new).drop w.newIndex) ↔
      Lcs.RunOutTogether (patchLines old) (patchLines new)

theorem walkInv_start : WalkInv old new LineWalk.start where
  oldLe := Nat.zero_le _
  newLe := Nat.zero_le _
  oldAnchorLe := le_rfl
  newAnchorLe := le_rfl
  script := by
    rw [LineWalk.start, lineStart_zero, lineStart_zero]
    exact Gap.refl (Nat.zero_le _) (Nat.zero_le _)
  together := by simp [LineWalk.start]

variable {old new}

theorem WalkInv.emit_script (h : WalkInv old new w) :
    Script old new 0 0 (w.emit old new (splitPatchLines old) (splitPatchLines new))
      (lineStart old w.oldIndex) (lineStart new w.newIndex) := by
  unfold LineWalk.emit
  split_ifs with hopen
  · refine Script.trans h.script (Script.single (e := ⟨_, _, _, _⟩) ⟨?_, ?_, ?_, ?_⟩)
    · exact lineStart_mono old h.oldAnchorLe
    · exact lineStart_le old _
    · exact lineStart_mono new h.newAnchorLe
    · exact lineStart_le new _
  · have hanchors : w.oldIndex = w.oldAnchor ∧ w.newIndex = w.newAnchor := by tauto
    rw [hanchors.1, hanchors.2]
    exact h.script

theorem gap_of_equal_lines (hi : i < (patchLines old).length) (hj : j < (patchLines new).length)
    (heq : patchLine old (splitPatchLines old) i = patchLine new (splitPatchLines new) j) :
    Gap old new (lineStart old i) (lineStart new j) (lineStart old (i + 1))
      (lineStart new (j + 1)) := by
  refine ⟨lineStart_mono old (by omega), lineStart_le old _, lineStart_mono new (by omega),
    lineStart_le new _, ?_⟩
  rwa [patchLine_eq_slice old (by simpa using hi), patchLine_eq_slice new (by simpa using hj)]
    at heq

theorem runOutTogether_drop (hi : i < (patchLines old).length) (hj : j < (patchLines new).length) :
    Lcs.RunOutTogether ((patchLines old).drop i) ((patchLines new).drop j) ↔
      if (patchLines old)[i] = (patchLines new)[j] then
        Lcs.RunOutTogether ((patchLines old).drop (i + 1)) ((patchLines new).drop (j + 1))
      else if lcsFrom old new i (j + 1) ≤ lcsFrom old new (i + 1) j then
        Lcs.RunOutTogether ((patchLines old).drop (i + 1)) ((patchLines new).drop j)
      else Lcs.RunOutTogether ((patchLines old).drop i) ((patchLines new).drop (j + 1)) := by
  have hcons := Lcs.runOutTogether_cons_cons (patchLines old)[i] (patchLines new)[j]
    ((patchLines old).drop (i + 1)) ((patchLines new).drop (j + 1))
  rwa [← List.drop_eq_getElem_cons hi, ← List.drop_eq_getElem_cons hj] at hcons

def filledTable (old new : Bytes) : List ℕ :=
  lcsTable old new (splitPatchLines old) (splitPatchLines new) ((splitPatchLines new).length + 1)
    (((splitPatchLines old).length + 1) * ((splitPatchLines new).length + 1))

theorem filledTable_getD (hi : i ≤ (patchLines old).length) (hj : j ≤ (patchLines new).length) :
    (filledTable old new).getD (i * ((splitPatchLines new).length + 1) + j) 0 =
      lcsFrom old new i j := by
  rw [filledTable, ← patchLines_length old, ← patchLines_length new]
  exact lcsTable_getD old new hi hj

theorem WalkInv.next (h : WalkInv old new w) (hi : w.oldIndex < (patchLines old).length)
    (hj : w.newIndex < (patchLines new).length) :
    WalkInv old new (w.next old new (splitPatchLines old) (splitPatchLines new)
      ((splitPatchLines new).length + 1) (filledTable old new)) := by
  have hold := h.oldAnchorLe
  have hnew := h.newAnchorLe
  have htogether := h.together
  rw [runOutTogether_drop hi hj] at htogether
  have hright := @filledTable_getD old new _ _ h.oldLe (Nat.succ_le_of_lt hj)
  have hdown := @filledTable_getD old new _ _ (Nat.succ_le_of_lt hi) h.newLe
  simp only [Nat.succ_eq_add_one, ← Nat.add_assoc] at hright hdown
  unfold LineWalk.next
  rw [hright, hdown]
  split_ifs with heq hlen
  · rw [patchLine_eq_get old hi, patchLine_eq_get new hj] at heq
    rw [if_pos heq] at htogether
    refine ⟨hi, hj, le_rfl, le_rfl, ?_, htogether⟩
    have hgap := gap_of_equal_lines hi hj
      (by rw [patchLine_eq_get old hi, patchLine_eq_get new hj, heq])
    have hscript := @Script.trans _ _ _ _ _ _ _ _ _ _ [] h.emit_script hgap
    rwa [List.append_nil] at hscript
  · rw [patchLine_eq_get old hi, patchLine_eq_get new hj] at heq
    rw [if_neg heq, if_pos hlen] at htogether
    exact ⟨hi, h.newLe, Nat.le_succ_of_le hold, hnew, h.script, htogether⟩
  · rw [patchLine_eq_get old hi, patchLine_eq_get new hj] at heq
    rw [if_neg heq, if_neg hlen] at htogether
    exact ⟨h.oldLe, hj, hold, Nat.le_succ_of_le hnew, h.script, htogether⟩

theorem next_indices (table : List ℕ) (width : ℕ) (w : LineWalk) :
    w.oldIndex + w.newIndex < (w.next old new (splitPatchLines old) (splitPatchLines new) width
      table).oldIndex + (w.next old new (splitPatchLines old) (splitPatchLines new) width
      table).newIndex := by
  unfold LineWalk.next
  split_ifs <;> dsimp only <;> omega

theorem WalkInv.run (fuel : ℕ) (h : WalkInv old new w)
    (hfuel : (patchLines old).length + (patchLines new).length ≤ w.oldIndex + w.newIndex + fuel) :
    let w' := LineWalk.run old new (splitPatchLines old) (splitPatchLines new)
      ((splitPatchLines new).length + 1) (filledTable old new) fuel w
    WalkInv old new w' ∧
      (w'.oldIndex = (patchLines old).length ∨ w'.newIndex = (patchLines new).length) := by
  induction fuel generalizing w with
  | zero =>
    have h1 := h.oldLe
    have h2 := h.newLe
    exact ⟨h, by simp only [LineWalk.run]; omega⟩
  | succ fuel ih =>
    simp only [LineWalk.run]
    split_ifs with hboth
    · rw [← patchLines_length old, ← patchLines_length new] at hboth
      have hmoved := @next_indices old new (filledTable old new)
        ((splitPatchLines new).length + 1) w
      exact ih (h.next hboth.1 hboth.2) (by omega)
    · rw [← patchLines_length old, ← patchLines_length new] at hboth
      have h1 := h.oldLe
      have h2 := h.newLe
      exact ⟨h, by omega⟩

theorem LineWalk.run_invariant {P : LineWalk → Prop} {table : List ℕ} {width : ℕ}
    (hnext : ∀ w, P w → w.oldIndex < (splitPatchLines old).length →
      w.newIndex < (splitPatchLines new).length →
      P (w.next old new (splitPatchLines old) (splitPatchLines new) width table)) (fuel : ℕ)
    (h : P w) :
    P (LineWalk.run old new (splitPatchLines old) (splitPatchLines new) width table fuel w) := by
  induction fuel generalizing w with
  | zero => exact h
  | succ fuel ih =>
    rw [LineWalk.run]
    split_ifs with hboth
    · exact ih (hnext w h hboth.1 hboth.2)
    · exact h

theorem WalkInv.next_unread (h : WalkInv old new w) (hi : w.oldIndex < (patchLines old).length)
    (hj : w.newIndex < (patchLines new).length) :
    let w' := w.next old new (splitPatchLines old) (splitPatchLines new)
      ((splitPatchLines new).length + 1) (filledTable old new)
    Lcs.unread ((patchLines old).drop w'.oldIndex) ((patchLines new).drop w'.newIndex) =
      Lcs.unread ((patchLines old).drop w.oldIndex) ((patchLines new).drop w.newIndex) := by
  have hright := @filledTable_getD old new _ _ h.oldLe (Nat.succ_le_of_lt hj)
  have hdown := @filledTable_getD old new _ _ (Nat.succ_le_of_lt hi) h.newLe
  simp only [Nat.succ_eq_add_one, ← Nat.add_assoc] at hright hdown
  have hcons := Lcs.unread_cons_cons (patchLines old)[w.oldIndex] (patchLines new)[w.newIndex]
    ((patchLines old).drop (w.oldIndex + 1)) ((patchLines new).drop (w.newIndex + 1))
  rw [← List.drop_eq_getElem_cons hi, ← List.drop_eq_getElem_cons hj] at hcons
  unfold LineWalk.next
  rw [hright, hdown, hcons]
  rw [patchLine_eq_get old hi, patchLine_eq_get new hj]
  split_ifs with heq hlen hlen' hlen'
  · rfl
  · rfl
  · exact absurd hlen hlen'
  · exact absurd hlen' hlen
  · rfl

variable (old new)

theorem linePatchWalk_spec :
    WalkInv old new (linePatchWalk old new) ∧
      ((linePatchWalk old new).oldIndex = (patchLines old).length ∨
        (linePatchWalk old new).newIndex = (patchLines new).length) :=
  (walkInv_start old new).run _ (by simp [LineWalk.start])

theorem linePatchWalk_unread :
    Lcs.unread (patchLines old) (patchLines new) =
      ((patchLines old).drop (linePatchWalk old new).oldIndex,
        (patchLines new).drop (linePatchWalk old new).newIndex) := by
  have hrun : WalkInv old new (linePatchWalk old new) ∧
      Lcs.unread ((patchLines old).drop (linePatchWalk old new).oldIndex)
        ((patchLines new).drop (linePatchWalk old new).newIndex) =
        Lcs.unread (patchLines old) (patchLines new) := by
    refine LineWalk.run_invariant (P := fun w => WalkInv old new w ∧
      Lcs.unread ((patchLines old).drop w.oldIndex) ((patchLines new).drop w.newIndex) =
        Lcs.unread (patchLines old) (patchLines new)) ?_ _ ⟨walkInv_start old new, rfl⟩
    rintro w ⟨hinv, hunread⟩ hi hj
    rw [← patchLines_length] at hi hj
    exact ⟨hinv.next hi hj, (hinv.next_unread hi hj).trans hunread⟩
  rw [← hrun.2]
  rcases (linePatchWalk_spec old new).2 with hend | hend
  · rw [List.drop_eq_nil_of_le hend.ge, Lcs.unread_nil_left]
  · rw [List.drop_eq_nil_of_le hend.ge, Lcs.unread_nil_right]

theorem linePatchWalk_together :
    ((linePatchWalk old new).oldIndex = (patchLines old).length ∧
      (linePatchWalk old new).newIndex = (patchLines new).length) ↔
      Lcs.RunOutTogether (patchLines old) (patchLines new) := by
  obtain ⟨hinv, hend⟩ := linePatchWalk_spec old new
  have h1 := hinv.oldLe
  have h2 := hinv.newLe
  rw [← hinv.together]
  rcases hend with hend | hend
  · rw [List.drop_eq_nil_of_le hend.ge, Lcs.runOutTogether_nil_left, List.drop_eq_nil_iff]
    omega
  · rw [List.drop_eq_nil_of_le hend.ge, Lcs.runOutTogether_nil_right, List.drop_eq_nil_iff]
    omega

end Walk

end Asp
