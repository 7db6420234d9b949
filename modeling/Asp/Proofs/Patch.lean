import Asp.Proofs.PatchLines

/-! What the client sends reconstructs the file it read, except where the line
walk leaves one side unread. -/

set_option maxRecDepth 20000

namespace Asp

open Splice

variable {back front : ℕ} {new old : Bytes} {ranges : List FilePatchRange}

theorem spliceRanges_of_script {i j I J : ℕ} {es : List Edit} (h : Script old new i j es I J) :
    spliceRanges old i (es.map (editRange new)) = some (output old new i es) := by
  induction es generalizing i j with
  | nil =>
    have hi := h.old_le.trans h.old_len
    simp [spliceRanges, output, hi]
  | cons e es ih =>
    obtain ⟨hg, hf, hs⟩ := h
    have hend : e.oldStart + (e.oldEnd - e.oldStart) = e.oldEnd := Nat.add_sub_cancel' hf.old_le
    simp [spliceRanges, output, editRange, hend, hg.old_le, hg.old_len, ih hs]

theorem checkPatchRanges_of_splice {data : Bytes} (index cursor removed replaced : ℕ)
    (h : spliceRanges old cursor ranges = some data)
    (hold : removed + (old.length - cursor) ≤ usizeMax) (hcursor : cursor ≤ old.length)
    (hdata : replaced + data.length ≤ usizeMax) (hlen : old.length ≤ usizeMax) :
    ∃ removed' replaced', checkPatchRanges old.length index cursor removed replaced ranges =
        .ok (removed', replaced') ∧ removed ≤ removed' ∧ replaced ≤ replaced' ∧
      removed' - removed ≤ old.length - cursor ∧
      data.length = old.length - cursor - (removed' - removed) + (replaced' - replaced) := by
  induction ranges generalizing index cursor removed replaced data with
  | nil =>
    rw [spliceRanges, if_pos hcursor] at h
    cases h
    exact ⟨removed, replaced, rfl, le_rfl, le_rfl, by omega, by simp⟩
  | cons range ranges ih =>
    simp only [spliceRanges] at h
    split_ifs at h with hoff
    obtain ⟨tail, htail, rfl⟩ := Option.map_eq_some_iff.mp h
    have hnext : range.offset + range.removeLen ≤ old.length := by
      cases ranges with
      | nil =>
        simp only [spliceRanges] at htail
        split_ifs at htail with hle
        exact hle
      | cons r rs =>
        simp only [spliceRanges] at htail
        split_ifs at htail with hle
        exact hle.1.trans hle.2
    have hslice := slice_length old (i := cursor) hoff.2
    simp only [List.length_append, hslice] at hdata ⊢
    obtain ⟨r1, r2, hcheck, h1, h2, h3, h4⟩ := ih (index + 1) (range.offset + range.removeLen)
      (removed + range.removeLen) (replaced + range.replacement.length) htail (by omega) hnext
      (by omega)
    refine ⟨r1, r2, ?_, by omega, by omega, by omega, by omega⟩
    rw [checkPatchRanges, if_neg (by omega), if_neg (by omega), if_neg (by omega),
      if_neg (by omega), if_neg (by omega), hcheck]

theorem materialize_of_splice {data : Bytes} (h : spliceRanges old 0 ranges = some data)
    (hne : ranges ≠ []) (hcount : ranges.length ≤ maxFilePatchRanges) (hold : old.length ≤ usizeMax)
    (hdata : data.length ≤ fileMaxBytes) : materializeFilePatchRanges old ranges = .ok data := by
  have hmax : fileMaxBytes ≤ usizeMax := by decide
  obtain ⟨removed, replaced, hcheck, -, -, hle, hlen⟩ :=
    checkPatchRanges_of_splice 0 0 0 0 h (by omega) (Nat.zero_le _) (by omega) (by omega)
  have hsize : ¬ (old.length < removed ∨ old.length - removed + replaced > usizeMax) := by omega
  have hfile : ¬ old.length - removed + replaced > fileMaxBytes := by omega
  have hempty : ranges.isEmpty = false := by simpa using hne
  simp [materializeFilePatchRanges, hempty, Nat.not_lt.mpr hcount, hcheck, hsize, hfile, h, pure,
    bind, Except.pure, Except.bind]

theorem commonPrefix_take (a b : Bytes) :
    a.take (commonPrefix a b) = b.take (commonPrefix a b) ∧ commonPrefix a b ≤ a.length ∧
      commonPrefix a b ≤ b.length := by
  induction a generalizing b with
  | nil => simp [commonPrefix]
  | cons x a ih =>
    cases b with
    | nil => simp [commonPrefix]
    | cons y b =>
      by_cases hxy : x = y
      · subst hxy
        have hstep : commonPrefix (x :: a) (x :: b) = commonPrefix a b + 1 := by
          simp [commonPrefix]
        obtain ⟨h1, h2, h3⟩ := ih b
        simp only [hstep, List.take_succ_cons, h1, List.length_cons]
        exact ⟨trivial, by omega, by omega⟩
      · have hstep : commonPrefix (x :: a) (y :: b) = 0 := by simp [commonPrefix, hxy]
        simp [hstep]

theorem commonSuffix_drop (a b : Bytes) :
    a.drop (a.length - commonSuffix a b) = b.drop (b.length - commonSuffix a b) ∧
      commonSuffix a b ≤ a.length ∧ commonSuffix a b ≤ b.length := by
  obtain ⟨h1, h2, h3⟩ := commonPrefix_take a.reverse b.reverse
  rw [List.length_reverse] at h2 h3
  rw [List.take_reverse, List.take_reverse, List.reverse_inj] at h1
  exact ⟨h1, h2, h3⟩

/-- `old` and `new` share `front` bytes at the start and `back` bytes at the end. -/
structure Framed (old new : Bytes) (front back : ℕ) : Prop where
  old_len : front + back ≤ old.length
  new_len : front + back ≤ new.length
  take_eq : old.take front = new.take front
  drop_eq : old.drop (old.length - back) = new.drop (new.length - back)

theorem framed_common (old new : Bytes) :
    let front := commonPrefix old new
    Framed old new front (commonSuffix (old.drop front) (new.drop front)) := by
  intro front
  obtain ⟨hp, hp1, hp2⟩ := commonPrefix_take old new
  obtain ⟨hs, hs1, hs2⟩ := commonSuffix_drop (old.drop front) (new.drop front)
  set back := commonSuffix (old.drop front) (new.drop front)
  simp only [List.length_drop] at hs hs1 hs2
  rw [List.drop_drop, List.drop_drop, show front + (old.length - front - back) = old.length - back by omega,
    show front + (new.length - front - back) = new.length - back by omega] at hs
  exact ⟨by omega, by omega, hp, hs⟩

theorem Framed.applyFilePatch (h : Framed old new front back) (hnew : new.length ≤ fileMaxBytes) :
    Asp.applyFilePatch old front back (slice new front (new.length - back)) = .ok new := by
  have h1 := h.old_len
  have h2 := h.new_len
  have hmax : fileMaxBytes ≤ usizeMax := by decide
  have hslice := slice_length new (i := front) (Nat.sub_le new.length back)
  rw [Asp.applyFilePatch, if_neg (by omega), if_neg (by omega), if_neg (by omega),
    if_neg (by omega), h.take_eq, h.drop_eq]
  have hfront : slice new 0 front = new.take front := by simp [slice]
  rw [← hfront, slice_append new (Nat.zero_le _) (by omega),
    slice_append_drop new (Nat.zero_le _) (Nat.sub_le _ _), List.drop_zero]

theorem Framed.script (h : Framed old new front back) {es : List Edit}
    (hs : Script (slice old front (old.length - back)) (slice new front (new.length - back)) 0 0 es
      (old.length - back - front) (new.length - back - front)) :
    Script old new 0 0 (es.map (Edit.shift front front)) old.length new.length := by
  have h1 := h.old_len
  have h2 := h.new_len
  have hfront : Gap old new 0 0 front front :=
    ⟨Nat.zero_le _, by omega, Nat.zero_le _, by omega, by simpa [slice] using h.take_eq⟩
  have hback : Gap old new (old.length - back) (new.length - back) old.length new.length :=
    ⟨by omega, le_rfl, by omega, le_rfl, by simpa [slice_to_end] using h.drop_eq⟩
  have hmid := Script.of_slice (Nat.sub_le _ _) (Nat.sub_le _ _) (by omega) (by omega) hs
  rw [Nat.add_zero, show front + (old.length - back - front) = old.length - back by omega,
    show front + (new.length - back - front) = new.length - back by omega] at hmid
  simpa using @Script.trans _ _ _ _ _ _ _ _ _ _ [] (Script.of_gap hfront hmid) hback

/-- A run replaces an interval by the same interval of the other file. -/
def runEdit (run : ℕ × ℕ) : Edit := ⟨run.1, run.2, run.1, run.2⟩

theorem changedRunsFrom_script {a b : Bytes} (hlen : a.length = b.length) (i : ℕ)
    (hi : i ≤ a.length) (start : Option ℕ) (hstart : start.getD i ≤ i) :
    Script a b (start.getD i) (start.getD i)
      ((changedRunsFrom i start ((a.drop i).zip (b.drop i))).map runEdit) a.length b.length := by
  obtain ⟨n, hn⟩ : ∃ n, a.length - i = n := ⟨_, rfl⟩
  induction n generalizing i start with
  | zero =>
    obtain rfl : i = a.length := by omega
    rw [List.drop_length, List.zip_nil_left]
    cases start with
    | none =>
      rw [Option.getD_none, hlen]
      exact Gap.refl hlen.ge le_rfl
    | some s =>
      have hfits : (runEdit (s, a.length)).Fits a b := ⟨hstart, le_rfl, hstart, hlen.le⟩
      have hsingle := Script.single hfits
      simpa [changedRunsFrom, runEdit, hlen] using hsingle
  | succ n ih =>
    have hia : i < a.length := by omega
    have hib : i < b.length := by omega
    have hgap : a[i] = b[i] → Gap a b i i (i + 1) (i + 1) := by
      intro heq
      refine ⟨by omega, hia, by omega, hib, ?_⟩
      rw [slice_one a hia, slice_one b hib, heq]
    rw [List.drop_eq_getElem_cons hia, List.drop_eq_getElem_cons hib, List.zip_cons_cons]
    cases start with
    | none =>
      unfold changedRunsFrom
      split_ifs with heq
      · exact Script.of_gap (hgap heq) (ih (i + 1) hia none le_rfl (by omega))
      · exact ih (i + 1) hia (some i) (by simp) (by omega)
    | some s =>
      unfold changedRunsFrom
      simp only [Option.getD_some] at hstart ⊢
      split_ifs with heq
      · refine ⟨Gap.refl (by omega) (by omega), ⟨hstart, hia.le, hstart, hib.le⟩, ?_⟩
        exact Script.of_gap (hgap heq) (ih (i + 1) hia none le_rfl (by omega))
      · exact ih (i + 1) hia (some s) (by simp only [Option.getD_some]; omega) (by omega)

theorem Framed.middle_length (h : Framed old new front back) :
    (slice old front (old.length - back)).length = (slice new front (new.length - back)).length ↔
      old.length = new.length := by
  have h1 := h.old_len
  have h2 := h.new_len
  rw [slice_length old (Nat.sub_le _ _), slice_length new (Nat.sub_le _ _)]
  omega

theorem derive_splices_of_length_eq (hlen : old.length = new.length) :
    spliceRanges old 0 (deriveFilePatchRanges old new) = some new := by
  have hframe := framed_common old new
  simp only [deriveFilePatchRanges]
  set front := commonPrefix old new
  set back := commonSuffix (old.drop front) (new.drop front)
  have hmiddle := hframe.middle_length.mpr hlen
  rw [if_neg (not_not.mpr hmiddle)]
  set oldMiddle := slice old front (old.length - back) with hoM
  set newMiddle := slice new front (new.length - back) with hnM
  have hruns := changedRunsFrom_script hmiddle 0 (Nat.zero_le _) none le_rfl
  rw [List.drop_zero, List.drop_zero, Option.getD_none] at hruns
  have hmerged := hruns.coalesce editsNear
  rw [@coalesce_map _ _ runEdit runsNear mergeRuns _ _ (fun _ _ => rfl)
    (fun _ _ => rfl)] at hmerged
  set runs := coalesce runsNear mergeRuns (changedRunsFrom 0 none (oldMiddle.zip newMiddle))
  have hold : oldMiddle.length = old.length - back - front := by
    rw [hoM, slice_length old (Nat.sub_le _ _)]
  have hnew : newMiddle.length = new.length - back - front := by
    rw [hnM, slice_length new (Nat.sub_le _ _)]
  have hranges : runs.map (fun run => (⟨front + run.1, run.2 - run.1, slice newMiddle run.1 run.2⟩ :
      FilePatchRange)) = ((runs.map runEdit).map (Edit.shift front front)).map (editRange new) := by
    rw [List.map_map, List.map_map]
    apply List.map_congr_left
    intro run hrun
    have hfits := (hmerged.fits (runEdit run) (List.mem_map_of_mem hrun)).new_len
    simp only [runEdit] at hfits
    have hback := hframe.new_len
    simp only [Function.comp, runEdit, Edit.shift, editRange, FilePatchRange.mk.injEq, true_and]
    refine ⟨by omega, ?_⟩
    rw [hnM, slice_slice new (by omega)]
  rw [hranges]
  rw [hold, hnew] at hmerged
  have hscript := hframe.script hmerged
  rw [spliceRanges_of_script hscript, hscript.output_eq]

theorem deriveLinePatchRanges_splices_iff (h : deriveLinePatchRanges old new = some ranges) :
    spliceRanges old 0 ranges = some new ↔
      Lcs.RunOutTogether (patchLines old) (patchLines new) := by
  simp only [deriveLinePatchRanges] at h
  split_ifs at h
  cases h
  obtain ⟨hinv, hend⟩ := linePatchWalk_spec old new
  have hscript := (hinv.emit_script.filter_nonempty).coalesce editsNear
  have hreach : ∀ data k, k ≤ (patchLines data).length →
      (lineStart data k = data.length ↔ k = (patchLines data).length) := by
    intro data k hk
    rw [lineStart_eq_length_iff, ← patchLines_length]
    omega
  have hold := hreach old _ hinv.oldLe
  have hnew := hreach new _ hinv.newLe
  rw [spliceRanges_of_script hscript, Option.some_inj, hscript.output_eq_iff (by rwa [hold, hnew]),
    hold, hnew, linePatchWalk_together]

theorem deriveFilePatchRanges_of_lines (hlen : old.length ≠ new.length)
    (h : deriveLinePatchRanges old new = some ranges) : deriveFilePatchRanges old new = ranges := by
  have hmiddle := mt (framed_common old new).middle_length.mp hlen
  simp only [deriveFilePatchRanges, if_pos hmiddle, h]

theorem not_shouldUse_of_no_lines (hlen : old.length ≠ new.length)
    (h : deriveLinePatchRanges old new = none) (fullFileLen : ℕ) :
    shouldUseFilePatchRanges (deriveFilePatchRanges old new) fullFileLen = false := by
  have hmiddle := mt (framed_common old new).middle_length.mp hlen
  simp [deriveFilePatchRanges, hmiddle, h, shouldUseFilePatchRanges]

/-- `new` comes back when the answer is spliced into `old`. -/
def Reconstructs (old new : Bytes) : CachedFilePatch → Prop
  | .unchanged _ => old = new
  | .patch prefixLen suffixLen replacement =>
      applyFilePatch old prefixLen suffixLen replacement = .ok new
  | .ranges ranges => spliceRanges old 0 ranges = some new

def CacheMatches (cache : AgentWorkspaceCache) (requestedPath expectedSha256 : String) : Prop :=
  ∃ entry ∈ cache, ∃ file ∈ entry.2, fileMatches requestedPath expectedSha256 entry.1 file = true

def LineRangesChosen (cache : AgentWorkspaceCache) (requestedPath expectedSha256 : String)
    (old new : Bytes) (allowRanges : Bool) : Prop :=
  CacheMatches cache requestedPath expectedSha256 ∧ allowRanges = true ∧
    old.length ≠ new.length ∧
    ∃ ranges, deriveLinePatchRanges old new = some ranges ∧
      shouldUseFilePatchRanges ranges new.length = true

section Lookup

variable {cache : AgentWorkspaceCache} {requestedPath expectedSha256 : String} {old new : Bytes}
  {allowRanges : Bool}

theorem cachedFilePatchWithRanges_eq_some_iff
    (hbase : ∀ entry ∈ cache, ∀ file ∈ entry.2,
      fileMatches requestedPath expectedSha256 entry.1 file = true → file.data = old)
    (result : CachedFilePatch) :
    cachedFilePatchWithRanges cache requestedPath expectedSha256 new allowRanges = some result ↔
      CacheMatches cache requestedPath expectedSha256 ∧
        patchFromBase old expectedSha256 new allowRanges = some result := by
  have hfile : ∀ entry ∈ cache, ∀ file ∈ entry.2,
      fileMatches requestedPath expectedSha256 entry.1 file = true →
      patchFromBase file.data file.sha256 new allowRanges =
        patchFromBase old expectedSha256 new allowRanges := by
    intro entry hentry file hmem hmatch
    have hsha : file.sha256 = expectedSha256 := by
      simp only [fileMatches, Bool.and_eq_true, beq_iff_eq] at hmatch
      exact hmatch.2
    rw [hbase entry hentry file hmem hmatch, hsha]
  have hsound : ∀ r, cachedFilePatchWithRanges cache requestedPath expectedSha256 new allowRanges =
      some r → CacheMatches cache requestedPath expectedSha256 ∧
        patchFromBase old expectedSha256 new allowRanges = some r := by
    intro r hr
    obtain ⟨entry, hentry, hr⟩ := List.exists_of_findSome?_eq_some hr
    obtain ⟨file, hmem, hr⟩ := List.exists_of_findSome?_eq_some hr
    split_ifs at hr with hmatch
    rw [hfile entry hentry file hmem hmatch] at hr
    exact ⟨⟨entry, hentry, file, hmem, hmatch⟩, hr⟩
  refine ⟨hsound result, ?_⟩
  rintro ⟨⟨entry, hentry, file, hmem, hmatch⟩, hresult⟩
  have hsome : (cachedFilePatchWithRanges cache requestedPath expectedSha256 new
      allowRanges).isSome := by
    rw [cachedFilePatchWithRanges, List.findSome?_isSome_iff]
    refine ⟨entry, hentry, List.findSome?_isSome_iff.mpr ⟨file, hmem, ?_⟩⟩
    rw [if_pos hmatch, hfile entry hentry file hmem hmatch, hresult]
    rfl
  obtain ⟨r, hr⟩ := Option.isSome_iff_exists.mp hsome
  rw [hr, ← (hsound r hr).2, hresult]

theorem patchFromBase_reconstructs_iff (sha256 : String) {result : CachedFilePatch}
    (hnew : new.length ≤ fileMaxBytes)
    (h : patchFromBase old sha256 new allowRanges = some result) :
    Reconstructs old new result ↔
      (allowRanges = true → old.length ≠ new.length →
        (∃ ranges, deriveLinePatchRanges old new = some ranges ∧
          shouldUseFilePatchRanges ranges new.length = true) →
        Lcs.RunOutTogether (patchLines old) (patchLines new)) := by
  simp only [patchFromBase] at h
  split_ifs at h with heq hranges hpatch
  · cases h
    subst heq
    exact iff_of_true rfl fun _ hlen => absurd rfl hlen
  · cases h
    rw [Bool.and_eq_true] at hranges
    by_cases hlen : old.length = new.length
    · exact iff_of_true (derive_splices_of_length_eq hlen) fun _ hne => absurd hlen hne
    · cases hline : deriveLinePatchRanges old new with
      | none => simp [not_shouldUse_of_no_lines hlen hline] at hranges
      | some ranges =>
        have hderived := deriveFilePatchRanges_of_lines hlen hline
        rw [hderived] at hranges
        rw [Reconstructs, hderived, deriveLinePatchRanges_splices_iff hline]
        exact ⟨fun h _ _ _ => h, fun h => h hranges.1 hlen ⟨ranges, rfl, hranges.2⟩⟩
  · cases h
    refine iff_of_true ((framed_common old new).applyFilePatch hnew) fun hallow hlen hchosen => ?_
    obtain ⟨ranges, hline, huse⟩ := hchosen
    rw [hallow, deriveFilePatchRanges_of_lines hlen hline, huse] at hranges
    exact absurd rfl hranges

theorem patchFromBase_of_lines (sha256 : String) (hlen : old.length ≠ new.length)
    (hline : deriveLinePatchRanges old new = some ranges)
    (huse : shouldUseFilePatchRanges ranges new.length = true) :
    patchFromBase old sha256 new true = some (.ranges ranges) := by
  have hne : old ≠ new := fun h => hlen (congrArg List.length h)
  simp [patchFromBase, hne, deriveFilePatchRanges_of_lines hlen hline, huse]

end Lookup

/-- Whatever the lookup returns reconstructs the new file, exactly if the files
run out of lines together whenever line ranges are chosen. -/
theorem cached_patch_reconstructs_iff (cache : AgentWorkspaceCache)
    (requestedPath expectedSha256 : String) (old new : Bytes) (allowRanges : Bool)
    (hbase : ∀ entry ∈ cache, ∀ file ∈ entry.2,
      fileMatches requestedPath expectedSha256 entry.1 file = true → file.data = old)
    (hnew : new.length ≤ fileMaxBytes) :
    (∀ result, cachedFilePatchWithRanges cache requestedPath expectedSha256 new allowRanges =
      some result → Reconstructs old new result) ↔
    (LineRangesChosen cache requestedPath expectedSha256 old new allowRanges →
      Lcs.RunOutTogether (patchLines old) (patchLines new)) := by
  constructor
  · rintro hall ⟨hmatches, rfl, hlen, ranges, hline, huse⟩
    have hpatch := patchFromBase_of_lines expectedSha256 hlen hline huse
    have hright := hall _ ((cachedFilePatchWithRanges_eq_some_iff hbase _).mpr ⟨hmatches, hpatch⟩)
    exact (patchFromBase_reconstructs_iff _ hnew hpatch).mp hright rfl hlen ⟨ranges, hline, huse⟩
  · intro hlines result hresult
    obtain ⟨hmatches, hpatch⟩ := (cachedFilePatchWithRanges_eq_some_iff hbase _).mp hresult
    refine (patchFromBase_reconstructs_iff _ hnew hpatch).mpr fun hallow hlen hchosen => ?_
    exact hlines ⟨hmatches, hallow, hlen, hchosen⟩

def appendedOld : Bytes :=
  [120, 10] ++ List.replicate 99 97 ++ [10] ++ [121, 10] ++ List.replicate 149 98 ++ [10]

def appendedNew : Bytes :=
  [88, 10] ++ List.replicate 99 97 ++ [10] ++ [89, 10] ++ List.replicate 149 98 ++ [10] ++ [116, 10]

def appendedCache : AgentWorkspaceCache := [(".", [⟨"f", "h", appendedOld⟩])]

theorem appendedCache_base : ∀ entry ∈ appendedCache, ∀ file ∈ entry.2,
    fileMatches "f" "h" entry.1 file = true → file.data = appendedOld := by
  intro entry hentry file hfile _
  obtain rfl := List.mem_singleton.mp hentry
  obtain rfl := List.mem_singleton.mp hfile
  rfl

set_option maxRecDepth 20000 in
theorem patchLines_appendedOld :
    patchLines appendedOld =
      [[120, 10], List.replicate 99 97 ++ [10], [121, 10], List.replicate 149 98 ++ [10]] := by
  decide

def changedNew : Bytes :=
  [88, 10] ++ List.replicate 99 97 ++ [10] ++ [89, 89, 10] ++ List.replicate 149 98 ++ [10]

set_option maxRecDepth 20000 in
theorem cached_patch_reconstructs_changed_lines :
    cachedFilePatchWithRanges appendedCache "f" "h" changedNew true =
      some (.ranges [⟨0, 2, [88, 10]⟩, ⟨102, 2, [89, 89, 10]⟩]) ∧
    Reconstructs appendedOld changedNew (.ranges [⟨0, 2, [88, 10]⟩, ⟨102, 2, [89, 89, 10]⟩]) := by
  have hranges : cachedFilePatchWithRanges appendedCache "f" "h" changedNew true =
      some (.ranges [⟨0, 2, [88, 10]⟩, ⟨102, 2, [89, 89, 10]⟩]) := by decide
  have hlines : patchLines changedNew =
      [[88, 10], List.replicate 99 97 ++ [10], [89, 89, 10], List.replicate 149 98 ++ [10]] := by
    decide
  refine ⟨hranges, (cached_patch_reconstructs_iff appendedCache "f" "h" appendedOld changedNew true
    appendedCache_base (by decide)).mpr (fun _ => ?_) _ hranges⟩
  rw [patchLines_appendedOld, hlines]
  simp [Lcs.runOutTogether_cons_cons, Lcs.len]

/-- The appended line is lost: the server ends with the base's last line. -/
theorem cached_patch_drops_appended_line :
    ∃ result, cachedFilePatchWithRanges appendedCache "f" "h" appendedNew true = some result ∧
      ¬ Reconstructs appendedOld appendedNew result := by
  refine ⟨.ranges [⟨0, 2, [88, 10]⟩, ⟨102, 2, [89, 10]⟩], ?_, ?_⟩
  · decide
  · unfold Reconstructs
    decide

end Asp
