import Asp.Proofs.PatchRanges

/-! Whether the server accepts the ranges that the client derives. What can fail is their number and
the size of a result in which lines of the base stayed unread. -/

namespace Asp

open Splice

variable {a b : UInt8} {count : ℕ} {new old : Bytes}

theorem materialize_accepts_iff {data : Bytes} {ranges : List FilePatchRange}
    (h : spliceRanges old 0 ranges = some data) (hne : ranges ≠ []) (hold : old.length ≤ usizeMax) :
    (∃ result, materializeFilePatchRanges old ranges = .ok result) ↔
      ranges.length ≤ maxFilePatchRanges ∧ data.length ≤ fileMaxBytes := by
  constructor
  · rintro ⟨result, hresult⟩
    obtain ⟨haccepted, -⟩ := (materialize_ok_iff hold ranges result).mp hresult
    rw [haccepted.fit.splices.1, Option.some_inj] at h
    exact ⟨haccepted.count, h ▸ haccepted.size⟩
  · rintro ⟨hcount, hsize⟩
    exact ⟨data, materialize_of_splice h hne hcount hold hsize⟩

/-- The groups of changed bytes in which at most 32 equal bytes separate two
neighbours; `quiet` is the number of equal bytes since the last changed one. -/
def changeGroups : Option ℕ → List (UInt8 × UInt8) → ℕ
  | _, [] => 0
  | quiet, p :: rest =>
      if p.1 = p.2 then changeGroups (quiet.map (· + 1)) rest
      else (if quiet.any (· ≤ filePatchRangeCoalesceGapBytes) then 0 else 1) +
        changeGroups (some 0) rest

theorem changeGroups_equal_append {pairs : List (UInt8 × UInt8)} (h : ∀ p ∈ pairs, p.1 = p.2)
    (rest : List (UInt8 × UInt8)) : changeGroups none (pairs ++ rest) = changeGroups none rest := by
  induction pairs with
  | nil => rfl
  | cons p pairs ih =>
    rw [List.cons_append, changeGroups, if_pos (h p List.mem_cons_self), Option.map_none]
    exact ih fun q hq => h q (List.mem_cons_of_mem _ hq)

theorem changeGroups_equal {pairs : List (UInt8 × UInt8)} (h : ∀ p ∈ pairs, p.1 = p.2)
    (quiet : Option ℕ) : changeGroups quiet pairs = 0 := by
  induction pairs generalizing quiet with
  | nil => rfl
  | cons p pairs ih =>
    rw [changeGroups, if_pos (h p List.mem_cons_self)]
    exact ih (fun q hq => h q (List.mem_cons_of_mem _ hq)) _

theorem changeGroups_append_equal (pairs : List (UInt8 × UInt8)) {rest : List (UInt8 × UInt8)}
    (h : ∀ p ∈ rest, p.1 = p.2) (quiet : Option ℕ) :
    changeGroups quiet (pairs ++ rest) = changeGroups quiet pairs := by
  induction pairs generalizing quiet with
  | nil => exact changeGroups_equal h quiet
  | cons p pairs ih => simp only [List.cons_append, changeGroups, ih]

theorem coalesceOnto_run (done : List (ℕ × ℕ)) (s e : ℕ) :
    ∃ (done' : List (ℕ × ℕ)) (first : ℕ), done'.head? = some (first, e) ∧
      done'.length = done.length +
        (if done.head?.any (fun p => s - p.2 ≤ filePatchRangeCoalesceGapBytes) then 0 else 1) ∧
      ∀ rest, coalesceOnto runsNear mergeRuns done ((s, e) :: rest) =
        coalesceOnto runsNear mergeRuns done' rest := by
  cases done with
  | nil => exact ⟨[(s, e)], s, rfl, rfl, fun _ => rfl⟩
  | cons p done =>
    have hany : (p :: done).head?.any (fun p => s - p.2 ≤ filePatchRangeCoalesceGapBytes) =
        runsNear p (s, e) := rfl
    rw [hany]
    by_cases hnear : runsNear p (s, e) = true
    · refine ⟨(p.1, e) :: done, p.1, rfl, ?_, fun _ => if_pos hnear⟩
      rw [if_pos hnear]
      rfl
    · refine ⟨(s, e) :: p :: done, s, rfl, ?_, fun _ => if_neg hnear⟩
      rw [if_neg hnear]
      rfl

/-- The scan for runs, continued onto the runs that are already coalesced. With
an open run the question whether it joins the last of them is still to come. -/
theorem length_coalesce_changedRuns (pairs : List (UInt8 × UInt8)) (i : ℕ) (done : List (ℕ × ℕ))
    (hdone : ∀ p ∈ done.head?, p.2 ≤ i) :
    (coalesceOnto runsNear mergeRuns done (changedRunsFrom i none pairs)).length =
        done.length + changeGroups (done.head?.map fun p => i - p.2) pairs ∧
      ∀ s, (coalesceOnto runsNear mergeRuns done (changedRunsFrom i (some s) pairs)).length =
        done.length + (if done.head?.any (fun p => s - p.2 ≤ filePatchRangeCoalesceGapBytes) then 0
          else 1) + changeGroups (some 0) pairs := by
  have hlater : ∀ p ∈ done.head?, p.2 ≤ i + 1 := fun p hp => (hdone p hp).trans (Nat.le_succ i)
  induction pairs generalizing i done with
  | nil =>
    refine ⟨?_, fun s => ?_⟩
    · cases done <;> simp [changedRunsFrom, coalesceOnto, changeGroups]
    · obtain ⟨done', first, -, hlength, hrun⟩ := coalesceOnto_run done s i
      rw [changedRunsFrom, hrun, changeGroups, Nat.add_zero, ← hlength]
      cases done' <;> simp [coalesceOnto]
  | cons p pairs ih =>
    obtain ⟨hclosed, hopen⟩ := ih (i + 1) done hlater fun q hq => (hlater q hq).trans (Nat.le_succ _)
    refine ⟨?_, fun s => ?_⟩
    · rw [changedRunsFrom, changeGroups, Option.any_map]
      by_cases hequal : p.1 = p.2
      · rw [if_pos hequal, if_pos hequal, hclosed, Option.map_map]
        congr 2
        refine Option.map_congr fun q hq => ?_
        have hle := hdone q hq
        simp only [Function.comp_apply]
        omega
      · rw [if_neg hequal, if_neg hequal, hopen i, Nat.add_assoc]
    · rw [changedRunsFrom, changeGroups]
      by_cases hequal : p.1 = p.2
      · obtain ⟨done', first, hhead, hlength, hrun⟩ := coalesceOnto_run done s i
        have hbehind : ∀ q ∈ done'.head?, q.2 ≤ i := by
          intro q hq
          rw [hhead] at hq
          cases hq
          exact le_rfl
        obtain ⟨hnext, -⟩ := ih (i + 1) done' (fun q hq => (hbehind q hq).trans (Nat.le_succ i))
          fun q hq => (hbehind q hq).trans (by omega)
        rw [if_pos hequal, if_pos hequal, hrun, hnext, hhead, hlength]
        simp
      · rw [if_neg hequal, if_neg hequal, hopen s]
        simp [filePatchRangeCoalesceGapBytes]

theorem zip_self_equal (l : Bytes) : ∀ p ∈ l.zip l, p.1 = p.2 := by
  intro p hp
  obtain ⟨i, hi, rfl⟩ := List.getElem_of_mem hp
  rw [List.getElem_zip]

theorem Framed.changeGroups_middle {front back : ℕ} (h : Framed old new front back)
    (hlen : old.length = new.length) :
    changeGroups none (old.zip new) =
      changeGroups none ((slice old front (old.length - back)).zip
        (slice new front (new.length - back))) := by
  have hmiddle := h.middle_length.mpr hlen
  have hsplit : ∀ data : Bytes, front + back ≤ data.length →
      data = data.take front ++ (slice data front (data.length - back) ++
        data.drop (data.length - back)) := by
    intro data hdata
    rw [slice_append_drop data (by omega) (Nat.sub_le _ _), List.take_append_drop]
  conv_lhs => rw [hsplit old h.old_len, hsplit new h.new_len, h.take_eq, h.drop_eq]
  rw [List.zip_append rfl, List.zip_append hmiddle, changeGroups_equal_append (zip_self_equal _),
    changeGroups_append_equal _ (zip_self_equal _)]

theorem length_derive_of_length_eq (hlen : old.length = new.length) :
    (deriveFilePatchRanges old new).length = changeGroups none (old.zip new) := by
  have hframe := framed_common old new
  have hruns := (length_coalesce_changedRuns
    ((slice old (commonPrefix old new) (old.length - commonSuffix (old.drop (commonPrefix old new))
      (new.drop (commonPrefix old new)))).zip
      (slice new (commonPrefix old new) (new.length - commonSuffix (old.drop (commonPrefix old new))
      (new.drop (commonPrefix old new))))) 0 [] (fun p hp => (Option.not_mem_none p hp).elim)).1
  rw [hframe.changeGroups_middle hlen]
  simp only [deriveFilePatchRanges]
  rw [if_neg (not_not.mpr (hframe.middle_length.mpr hlen)), List.length_map]
  rwa [List.length_nil, Nat.zero_add] at hruns

/-- The bytes in the lines that the walk leaves unread, of the base and of the new file. -/
def unreadBytes (old new : Bytes) : ℕ × ℕ :=
  let unread := Lcs.unread (patchLines old) (patchLines new)
  (unread.1.flatten.length, unread.2.flatten.length)

theorem deriveLinePatchRanges_splices {ranges : List FilePatchRange}
    (h : deriveLinePatchRanges old new = some ranges) :
    ranges.length ≤ maxFilePatchRanges ∧ ∃ data, spliceRanges old 0 ranges = some data ∧
      data.length = new.length - (unreadBytes old new).2 + (unreadBytes old new).1 := by
  simp only [deriveLinePatchRanges] at h
  split_ifs at h with hlines hcells hedits
  cases h
  obtain ⟨hinv, -⟩ := linePatchWalk_spec old new
  have hscript := (hinv.emit_script.filter_nonempty).coalesce editsNear
  refine ⟨?_, _, spliceRanges_of_script hscript, ?_⟩
  · rw [List.length_map]
    have hkept := List.length_filter_le (fun e : Edit => !e.isEmpty)
      ((linePatchWalk old new).emit old new (splitPatchLines old) (splitPatchLines new))
    have hmerged := length_coalesceOnto_le editsNear Edit.merge []
      (((linePatchWalk old new).emit old new (splitPatchLines old) (splitPatchLines new)).filter
        fun e => !e.isEmpty)
    rw [List.length_nil, Nat.zero_add] at hmerged
    have hcap : filePatchMaxDerivedRanges = maxFilePatchRanges := rfl
    rw [coalesce]
    omega
  · have hnew := lineStart_le new (linePatchWalk old new).newIndex
    rw [hscript.output, List.length_append, slice_length new hnew]
    simp only [unreadBytes, linePatchWalk_unread, flatten_drop_patchLines, List.length_drop]
    omega

/-- The ranges from `old` to `new` keep the server's limits. -/
def PatchWithinLimits (old new : Bytes) : Prop :=
  if old.length = new.length then changeGroups none (old.zip new) ≤ maxFilePatchRanges
  else new.length - (unreadBytes old new).2 + (unreadBytes old new).1 ≤ fileMaxBytes

theorem derive_accepted_iff (hold : old.length ≤ fileMaxBytes) (hnew : new.length ≤ fileMaxBytes)
    (huse : shouldUseFilePatchRanges (deriveFilePatchRanges old new) new.length = true) :
    (∃ data, materializeFilePatchRanges old (deriveFilePatchRanges old new) = .ok data) ↔
      PatchWithinLimits old new := by
  have hmax : fileMaxBytes ≤ usizeMax := by decide
  have hne : deriveFilePatchRanges old new ≠ [] := by
    intro hnil
    rw [hnil] at huse
    exact absurd huse (by simp [shouldUseFilePatchRanges])
  rw [PatchWithinLimits]
  split_ifs with hlen
  · rw [materialize_accepts_iff (derive_splices_of_length_eq hlen) hne (hold.trans hmax),
      length_derive_of_length_eq hlen]
    exact and_iff_left hnew
  · cases hline : deriveLinePatchRanges old new with
    | none => simp [not_shouldUse_of_no_lines hlen hline] at huse
    | some ranges =>
      rw [deriveFilePatchRanges_of_lines hlen hline] at hne ⊢
      obtain ⟨hcount, data, hsplice, hlength⟩ := deriveLinePatchRanges_splices hline
      rw [materialize_accepts_iff hsplice hne (hold.trans hmax), hlength]
      exact and_iff_right hcount

/-- Ranges that the lookup returns are accepted by the server, exactly if the
files' changes keep its limits. -/
theorem derived_ranges_are_accepted_iff (cache : AgentWorkspaceCache)
    (requestedPath expectedSha256 : String) (old new : Bytes) (allowRanges : Bool)
    (hbase : ∀ entry ∈ cache, ∀ file ∈ entry.2,
      fileMatches requestedPath expectedSha256 entry.1 file = true → file.data = old)
    (hold : old.length ≤ fileMaxBytes) (hnew : new.length ≤ fileMaxBytes)
    (ranges : List FilePatchRange)
    (hranges : cachedFilePatchWithRanges cache requestedPath expectedSha256 new allowRanges =
      some (.ranges ranges)) :
    (∃ data, materializeFilePatchRanges old ranges = .ok data) ↔ PatchWithinLimits old new := by
  obtain ⟨-, hpatch⟩ := (cachedFilePatchWithRanges_eq_some_iff hbase _).mp hranges
  simp only [patchFromBase] at hpatch
  split_ifs at hpatch with heq huse hsmall
  · cases hpatch
  · cases hpatch
    rw [Bool.and_eq_true] at huse
    exact derive_accepted_iff hold hnew huse.2
  · cases hpatch

set_option maxRecDepth 20000 in
theorem appended_ranges_are_accepted :
    ∃ data, materializeFilePatchRanges appendedOld [⟨0, 2, [88, 10]⟩, ⟨102, 2, [89, 10]⟩] =
      .ok data := by
  have hlines : patchLines appendedNew = [[88, 10], List.replicate 99 97 ++ [10], [89, 10],
      List.replicate 149 98 ++ [10], [116, 10]] := by decide
  have hunread : unreadBytes appendedOld appendedNew = (0, 2) := by
    rw [unreadBytes, patchLines_appendedOld, hlines]
    simp [Lcs.unread_cons_cons, Lcs.len]
  refine (derived_ranges_are_accepted_iff appendedCache "f" "h" appendedOld appendedNew true
    appendedCache_base (by decide) (by decide) _ (by decide)).mpr ?_
  rw [PatchWithinLimits, hunread]
  decide

/-- `count` blocks of one byte and 33 zeros, and the byte once more. -/
def scattered (byte : UInt8) : ℕ → Bytes
  | 0 => [byte]
  | count + 1 => byte :: (List.replicate 33 0 ++ scattered byte count)

theorem length_scattered (byte : UInt8) (count : ℕ) :
    (scattered byte count).length = 34 * count + 1 := by
  induction count with
  | zero => rfl
  | succ count ih =>
    simp only [scattered, List.length_cons, List.length_append, List.length_replicate, ih]
    omega

theorem scattered_last (byte : UInt8) (count : ℕ) :
    ∃ front, scattered byte count = front ++ [byte] := by
  induction count with
  | zero => exact ⟨[], rfl⟩
  | succ count ih =>
    obtain ⟨front, hfront⟩ := ih
    exact ⟨byte :: (List.replicate 33 0 ++ front), by simp [scattered, hfront]⟩

theorem scattered_head (byte : UInt8) (count : ℕ) :
    ∃ rest, scattered byte count = byte :: rest := by
  cases count <;> exact ⟨_, rfl⟩

theorem scattered_commonPrefix (hab : a ≠ b) (count : ℕ) :
    commonPrefix (scattered a count) (scattered b count) = 0 := by
  obtain ⟨left, hleft⟩ := scattered_head a count
  obtain ⟨right, hright⟩ := scattered_head b count
  simp [commonPrefix, hleft, hright, hab]

theorem scattered_commonSuffix (hab : a ≠ b) (count : ℕ) :
    commonSuffix (scattered a count) (scattered b count) = 0 := by
  obtain ⟨left, hleft⟩ := scattered_last a count
  obtain ⟨right, hright⟩ := scattered_last b count
  simp [commonSuffix, hleft, hright, hab]

/-- The changed bytes of two scattered files from position `i` on. -/
def scatteredRuns (i : ℕ) : ℕ → List (ℕ × ℕ)
  | 0 => [(i, i + 1)]
  | count + 1 => (i, i + 1) :: scatteredRuns (i + 34) count

theorem changedRunsFrom_zeros (zeros i : ℕ) (rest : List (UInt8 × UInt8)) :
    changedRunsFrom i none (List.replicate zeros (0, 0) ++ rest) =
      changedRunsFrom (i + zeros) none rest := by
  induction zeros generalizing i with
  | zero => rfl
  | succ zeros ih =>
    rw [List.replicate_succ, List.cons_append, changedRunsFrom, if_pos rfl, ih]
    congr 1
    omega

theorem changedRunsFrom_scattered (hab : a ≠ b) (count i : ℕ) :
    changedRunsFrom i none ((scattered a count).zip (scattered b count)) =
      scatteredRuns i count := by
  induction count generalizing i with
  | zero => simp [scattered, changedRunsFrom, scatteredRuns, hab]
  | succ count ih =>
    have hzeros : List.replicate 33 ((0 : UInt8), (0 : UInt8)) =
        (0, 0) :: List.replicate 32 (0, 0) := rfl
    rw [scattered, scattered, List.zip_cons_cons, List.zip_append rfl, List.zip_replicate', hzeros,
      List.cons_append, changedRunsFrom, if_neg hab, changedRunsFrom, if_pos rfl,
      changedRunsFrom_zeros, ih]
    rfl

theorem coalesceOnto_far {done : List (ℕ × ℕ)} {i : ℕ} (hdone : ∀ p ∈ done.head?, p.2 + 32 < i)
    (e : ℕ) (rest : List (ℕ × ℕ)) :
    coalesceOnto runsNear mergeRuns done ((i, e) :: rest) =
      coalesceOnto runsNear mergeRuns ((i, e) :: done) rest := by
  cases done with
  | nil => rfl
  | cons p done =>
    have hp := hdone p rfl
    have hnear : ¬ runsNear p (i, e) = true := by
      rw [runsNear, decide_eq_true_eq, filePatchRangeCoalesceGapBytes]
      omega
    rw [coalesceOnto, if_neg hnear]

theorem coalesce_scatteredRuns (count i : ℕ) (done : List (ℕ × ℕ))
    (hdone : ∀ p ∈ done.head?, p.2 + 32 < i) :
    coalesceOnto runsNear mergeRuns done (scatteredRuns i count) =
      done.reverse ++ scatteredRuns i count := by
  induction count generalizing i done with
  | zero => rw [scatteredRuns, coalesceOnto_far hdone, coalesceOnto, List.reverse_cons]
  | succ count ih =>
    have hnext : ∀ p ∈ ((i, i + 1) :: done).head?, p.2 + 32 < i + 34 := by
      intro p hp
      cases hp
      omega
    rw [scatteredRuns, coalesceOnto_far hdone, ih (i + 34) _ hnext, List.reverse_cons,
      List.append_assoc, List.singleton_append]

theorem length_scatteredRuns (count i : ℕ) : (scatteredRuns i count).length = count + 1 := by
  induction count generalizing i with
  | zero => rfl
  | succ count ih => rw [scatteredRuns, List.length_cons, ih]

theorem scatteredRuns_single (count i : ℕ) : ∀ run ∈ scatteredRuns i count, run.2 = run.1 + 1 := by
  induction count generalizing i with
  | zero =>
    intro run hrun
    rw [List.mem_singleton.mp hrun]
  | succ count ih =>
    rintro run (_ | ⟨_, hrun⟩)
    · rfl
    · exact ih (i + 34) run hrun

theorem deriveFilePatchRanges_scattered (hab : a ≠ b) (count : ℕ) :
    deriveFilePatchRanges (scattered a count) (scattered b count) =
      (scatteredRuns 0 count).map fun run =>
        ⟨run.1, run.2 - run.1, slice (scattered b count) run.1 run.2⟩ := by
  have hruns := coalesce_scatteredRuns count 0 [] fun p hp => (Option.not_mem_none p hp).elim
  simp only [deriveFilePatchRanges, scattered_commonPrefix hab, List.drop_zero,
    scattered_commonSuffix hab, Nat.sub_zero, slice_to_end, Nat.zero_add,
    changedRunsFrom_scattered hab]
  rw [if_neg (by rw [length_scattered, length_scattered, ne_eq, not_not]), coalesce, hruns,
    List.reverse_nil, List.nil_append]

theorem filePatchRangesReplacementLen_le (ranges : List FilePatchRange) :
    filePatchRangesReplacementLen ranges ≤ replacedLen ranges := by
  suffices h : ∀ total, ranges.foldl
      (fun total range => saturatingAdd total range.replacement.length) total ≤
        total + replacedLen ranges by
    simpa [filePatchRangesReplacementLen] using h 0
  induction ranges with
  | nil => exact fun total => le_rfl
  | cons range ranges ih =>
    intro total
    have hstep : saturatingAdd total range.replacement.length ≤
        total + range.replacement.length := Nat.min_le_left _ _
    have hrest := ih (saturatingAdd total range.replacement.length)
    simp only [replacedLen, List.map_cons, List.sum_cons] at hrest ⊢
    rw [List.foldl_cons]
    omega

theorem estimatedFilePatchRangesWireBytes_le (ranges : List FilePatchRange) :
    estimatedFilePatchRangesWireBytes ranges ≤ 160 + 24 * ranges.length + replacedLen ranges := by
  have hreplaced := filePatchRangesReplacementLen_le ranges
  simp only [estimatedFilePatchRangesWireBytes, saturatingAdd, saturatingMul,
    filePatchRangesFixedOverheadBytes, filePatchRangeOverheadBytes]
  omega

theorem length_derive_scattered (hab : a ≠ b) (count : ℕ) :
    (deriveFilePatchRanges (scattered a count) (scattered b count)).length = count + 1 := by
  rw [deriveFilePatchRanges_scattered hab, List.length_map, length_scatteredRuns]

theorem shouldUse_scattered (hab : a ≠ b) (hcount : 160 ≤ count) :
    shouldUseFilePatchRanges (deriveFilePatchRanges (scattered a count) (scattered b count))
      (scattered b count).length = true := by
  have hlength := length_derive_scattered hab count
  have hreplaced : replacedLen (deriveFilePatchRanges (scattered a count) (scattered b count)) ≤
      count + 1 := by
    rw [deriveFilePatchRanges_scattered hab, replacedLen, List.map_map, ← length_scatteredRuns count 0]
    refine (List.sum_le_card_nsmul _ 1 ?_).trans (by simp)
    intro length hmem
    obtain ⟨run, hrun, rfl⟩ := List.mem_map.mp hmem
    have hone := scatteredRuns_single count 0 run hrun
    simp only [Function.comp_apply, slice, List.length_drop, List.length_take]
    omega
  have hreplacement := filePatchRangesReplacementLen_le
    (deriveFilePatchRanges (scattered a count) (scattered b count))
  have hwire := estimatedFilePatchRangesWireBytes_le
    (deriveFilePatchRanges (scattered a count) (scattered b count))
  rw [shouldUseFilePatchRanges, length_scattered, hlength]
  simp only [Bool.and_eq_true, decide_eq_true_eq]
  omega

theorem patchFromBase_scattered (hab : a ≠ b) (hcount : 160 ≤ count) (sha256 : String) :
    patchFromBase (scattered a count) sha256 (scattered b count) true =
      some (.ranges (deriveFilePatchRanges (scattered a count) (scattered b count))) := by
  have hne : scattered a count ≠ scattered b count := by
    obtain ⟨left, hleft⟩ := scattered_head a count
    obtain ⟨right, hright⟩ := scattered_head b count
    rw [hleft, hright]
    exact fun heq => hab (List.cons.inj heq).1
  rw [patchFromBase, if_neg hne]
  simp only [shouldUse_scattered hab hcount, Bool.and_self, if_true]

theorem cachedFilePatch_scattered (hab : a ≠ b) (hcount : 160 ≤ count) :
    cachedFilePatchWithRanges [(".", [⟨"f", "h", scattered a count⟩])] "f" "h" (scattered b count)
      true = some (.ranges (deriveFilePatchRanges (scattered a count) (scattered b count))) := by
  have hmatch : fileMatches "f" "h" "." ⟨"f", "h", scattered a count⟩ = true := by
    have hpath : cachedPath "." ⟨"f", "h", scattered a count⟩ = stripDotSlash "f" := rfl
    rw [fileMatches, hpath, beq_self_eq_true, beq_self_eq_true, Bool.and_self]
  simp only [cachedFilePatchWithRanges, List.findSome?_cons, hmatch, if_true,
    patchFromBase_scattered hab hcount]

/-- 4097 changed bytes with 33 equal ones between any two: the lookup answers
with one range for each, and the server refuses so many. -/
theorem scattered_ranges_are_refused :
    (scattered 1 4096).length ≤ fileMaxBytes ∧ (scattered 2 4096).length ≤ fileMaxBytes ∧
    ∃ ranges, cachedFilePatchWithRanges [(".", [⟨"f", "h", scattered 1 4096⟩])] "f" "h"
        (scattered 2 4096) true = some (.ranges ranges) ∧
      ¬ ∃ data, materializeFilePatchRanges (scattered 1 4096) ranges = .ok data := by
  have hab : (1 : UInt8) ≠ 2 := by decide
  have hsize : ∀ byte, (scattered byte 4096).length ≤ fileMaxBytes := by
    intro byte
    rw [length_scattered]
    decide
  refine ⟨hsize 1, hsize 2, _, cachedFilePatch_scattered hab (by decide), ?_⟩
  rintro ⟨data, hdata⟩
  have hmax : fileMaxBytes ≤ usizeMax := by decide
  have haccepted := ((materialize_ok_iff ((hsize 1).trans hmax) _ _).mp hdata).1.count
  rw [length_derive_scattered hab] at haccepted
  exact absurd haccepted (by decide)

end Asp
