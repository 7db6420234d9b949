import Asp.Proofs.Patch

/-! What the server makes of a list of ranges: the one pass over the base is the
same as splicing the ranges one at a time from the last to the first. -/

namespace Asp

open Splice

variable {cursor oldLen : ℕ} {old : Bytes} {ranges : List FilePatchRange}

def FilePatchRange.stop (range : FilePatchRange) : ℕ := range.offset + range.removeLen

def FilePatchRange.splice (range : FilePatchRange) (data : Bytes) : Bytes :=
  replaceAt data range.offset range.removeLen range.replacement

def spliceFromLast (old : Bytes) (ranges : List FilePatchRange) : Bytes :=
  ranges.foldr FilePatchRange.splice old

/-- Sorted, without overlap, inside a base of `oldLen` bytes. -/
structure RangesFit (oldLen : ℕ) (ranges : List FilePatchRange) : Prop where
  sorted : ranges.IsChain fun range next => range.stop ≤ next.offset
  inside : ∀ range ∈ ranges, range.stop ≤ oldLen

def removedLen (ranges : List FilePatchRange) : ℕ :=
  (ranges.map FilePatchRange.removeLen).sum

def replacedLen (ranges : List FilePatchRange) : ℕ :=
  (ranges.map fun range => range.replacement.length).sum

/-- What the loops assume when they come to `cursor`: the next range starts there or later. -/
def FitsFrom (oldLen cursor : ℕ) (ranges : List FilePatchRange) : Prop :=
  (∀ range ∈ ranges.head?, cursor ≤ range.offset) ∧ RangesFit oldLen ranges

theorem fitsFrom_zero : FitsFrom oldLen 0 ranges ↔ RangesFit oldLen ranges :=
  ⟨And.right, fun h => ⟨fun _ _ => Nat.zero_le _, h⟩⟩

theorem fitsFrom_cons {range : FilePatchRange} :
    FitsFrom oldLen cursor (range :: ranges) ↔
      cursor ≤ range.offset ∧ range.stop ≤ oldLen ∧ FitsFrom oldLen range.stop ranges := by
  constructor
  · rintro ⟨hhead, hsorted, hinside⟩
    rw [List.isChain_cons] at hsorted
    refine ⟨hhead range rfl, hinside range List.mem_cons_self, fun next hnext => hsorted.1 next hnext,
      hsorted.2, fun next hnext => hinside next (List.mem_cons_of_mem _ hnext)⟩
  · rintro ⟨hcursor, hstop, hhead, hsorted, hinside⟩
    refine ⟨?_, List.isChain_cons.mpr ⟨hhead, hsorted⟩, ?_⟩
    · intro next hnext
      cases hnext
      exact hcursor
    · rintro next (_ | ⟨_, hnext⟩)
      · exact hstop
      · exact hinside next hnext

theorem FitsFrom.removedLen_le (h : FitsFrom oldLen cursor ranges) (hcursor : cursor ≤ oldLen) :
    removedLen ranges ≤ oldLen - cursor := by
  induction ranges generalizing cursor with
  | nil => exact Nat.zero_le _
  | cons range ranges ih =>
    obtain ⟨hoffset, hstop, hrest⟩ := fitsFrom_cons.mp h
    have hle := ih hrest hstop
    simp only [removedLen, List.map_cons, List.sum_cons, FilePatchRange.stop] at hle hstop ⊢
    omega

/-- Where the ranges fit, the one pass from `cursor` writes what the splices
leave from there on, and the splices leave what is in front of it. -/
theorem spliceRanges_eq_spliceFromLast (h : FitsFrom old.length cursor ranges)
    (hcursor : cursor ≤ old.length) :
    spliceRanges old cursor ranges = some ((spliceFromLast old ranges).drop cursor) ∧
      (spliceFromLast old ranges).take cursor = old.take cursor ∧
      (spliceFromLast old ranges).length + removedLen ranges = old.length + replacedLen ranges := by
  induction ranges generalizing cursor with
  | nil =>
    simp only [spliceRanges, if_pos hcursor]
    exact ⟨rfl, rfl, rfl⟩
  | cons range ranges ih =>
    obtain ⟨hoffset, hstop, hrest⟩ := fitsFrom_cons.mp h
    obtain ⟨hpass, hfront, hlength⟩ := ih hrest hstop
    have hremoved := hrest.removedLen_le hstop
    have hoff : range.offset ≤ range.stop := Nat.le_add_right _ _
    have hinside : range.stop ≤ (spliceFromLast old ranges).length := by omega
    -- the later splices have not reached this range's interval
    have htake : ∀ k ≤ range.stop, (spliceFromLast old ranges).take k = old.take k := by
      intro k hk
      have hcut := congrArg (List.take k) hfront
      rwa [List.take_take, List.take_take, Nat.min_eq_left hk] at hcut
    have hstep : spliceFromLast old (range :: ranges) = range.splice (spliceFromLast old ranges) := rfl
    refine ⟨?_, ?_, ?_⟩
    · rw [spliceRanges, if_pos ⟨hoffset, hoff.trans hstop⟩]
      simp only [FilePatchRange.stop] at hpass
      rw [hpass, Option.map_some, hstep, FilePatchRange.splice,
        drop_replaceAt _ hoffset (hoff.trans hinside), slice, slice, htake _ hoff]
    · rw [hstep, FilePatchRange.splice, take_replaceAt _ hoffset (hoff.trans hinside)]
      exact htake _ (hoffset.trans hoff)
    · have hone := length_replaceAt range.replacement hinside
      rw [hstep, FilePatchRange.splice]
      simp only [removedLen, replacedLen, List.map_cons, List.sum_cons] at hlength ⊢
      omega

theorem fits_of_checkPatchRanges {index removed replaced : ℕ} {totals : ℕ × ℕ}
    (h : checkPatchRanges oldLen index cursor removed replaced ranges = .ok totals) :
    FitsFrom oldLen cursor ranges ∧ totals.1 = removed + removedLen ranges ∧
      totals.2 = replaced + replacedLen ranges := by
  induction ranges generalizing index cursor removed replaced with
  | nil =>
    cases h
    exact ⟨⟨fun range hrange => (Option.not_mem_none range hrange).elim, List.isChain_nil,
      fun range hrange => (List.not_mem_nil hrange).elim⟩, rfl, rfl⟩
  | cons range ranges ih =>
    rw [checkPatchRanges] at h
    split_ifs at h with hcursor hend hold hremoved hreplaced
    obtain ⟨hrest, hfirst, hsecond⟩ := ih h
    simp only [removedLen, replacedLen, List.map_cons, List.sum_cons] at hfirst hsecond ⊢
    refine ⟨fitsFrom_cons.mpr ⟨by omega, ?_, hrest⟩, by omega, by omega⟩
    rw [FilePatchRange.stop]
    omega

structure RangesAccepted (old : Bytes) (ranges : List FilePatchRange) : Prop where
  nonempty : 1 ≤ ranges.length
  count : ranges.length ≤ maxFilePatchRanges
  fit : RangesFit old.length ranges
  size : (spliceFromLast old ranges).length ≤ fileMaxBytes

theorem RangesFit.splices (h : RangesFit old.length ranges) :
    spliceRanges old 0 ranges = some (spliceFromLast old ranges) ∧
      (spliceFromLast old ranges).length =
        old.length - removedLen ranges + replacedLen ranges := by
  have hfits := fitsFrom_zero.mpr h
  obtain ⟨hpass, -, hlength⟩ := spliceRanges_eq_spliceFromLast hfits (Nat.zero_le _)
  have hremoved := hfits.removedLen_le (Nat.zero_le _)
  refine ⟨by rwa [List.drop_zero] at hpass, by omega⟩

theorem materialize_ok_iff (hold : old.length ≤ usizeMax) (ranges : List FilePatchRange)
    (data : Bytes) :
    materializeFilePatchRanges old ranges = .ok data ↔
      RangesAccepted old ranges ∧ data = spliceFromLast old ranges := by
  constructor
  · intro h
    simp only [materializeFilePatchRanges, throw, throwThe, MonadExceptOf.throw, bind, Except.bind,
      pure, Except.pure] at h
    split_ifs at h with hempty hcount
    cases hcheck : checkPatchRanges old.length 0 0 0 0 ranges with
    | error message => simp [hcheck] at h
    | ok totals =>
      simp only [hcheck] at h
      obtain ⟨hfits, hremoved, hreplaced⟩ := fits_of_checkPatchRanges hcheck
      have hfit := fitsFrom_zero.mp hfits
      obtain ⟨hsplice, hlength⟩ := hfit.splices
      split_ifs at h with hoverflow hsize
      rw [hsplice] at h
      cases h
      have hne : ranges ≠ [] := fun hnil => hempty (by rw [hnil]; rfl)
      refine ⟨⟨List.length_pos_iff.mpr hne, by omega, hfit, by omega⟩, rfl⟩
  · rintro ⟨haccepted, rfl⟩
    have hne : ranges ≠ [] := by
      rintro rfl
      exact absurd haccepted.nonempty (by decide)
    exact materialize_of_splice haccepted.fit.splices.1 hne haccepted.count hold haccepted.size

/-- The server's answer is the splice of the ranges from the last to the first,
it answers exactly the lists that fit, and a list that passes the checks leaves
every slice of the splice loop inside the base. -/
theorem range_patch_is_simultaneous_splice (old : Bytes) (ranges : List FilePatchRange)
    (hold : old.length ≤ usizeMax) :
    (∀ data, materializeFilePatchRanges old ranges = .ok data ↔
      RangesAccepted old ranges ∧ data = spliceFromLast old ranges) ∧
    (RangesFit old.length ranges → (spliceFromLast old ranges).length =
      old.length - removedLen ranges + replacedLen ranges) ∧
    ∀ totals, checkPatchRanges old.length 0 0 0 0 ranges = .ok totals →
      (spliceRanges old 0 ranges).isSome = true := by
  refine ⟨materialize_ok_iff hold ranges, fun hfit => hfit.splices.2, ?_⟩
  intro totals hcheck
  have hfits := (fits_of_checkPatchRanges hcheck).1
  rw [(fitsFrom_zero.mp hfits).splices.1, Option.isSome_some]

def touchingRanges : List FilePatchRange := [⟨1, 2, [9]⟩, ⟨3, 0, [8, 7]⟩, ⟨4, 0, [6]⟩]

theorem touching_ranges_are_spliced :
    materializeFilePatchRanges [0, 1, 2, 3] touchingRanges =
      .ok (spliceFromLast [0, 1, 2, 3] touchingRanges) := by
  have hsplice := range_patch_is_simultaneous_splice [0, 1, 2, 3] touchingRanges (by decide)
  refine (hsplice.1 _).mpr ⟨⟨by decide, by decide, ⟨by decide, by decide⟩, by decide⟩, rfl⟩

end Asp
