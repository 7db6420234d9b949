import Asp.Lib.Splice
import Asp.Spec.Basic

/-! File patches. The client derives one from a cached base file
(`derive_file_patch_ranges`, `cached_file_patch_with_ranges`); the server
splices it into the base it holds (`materialize_file_patch_ranges` and the
`FilePatch` handler). Lengths are natural numbers; where the source saturates
or checks at the width of `usize`, so do the definitions. -/

namespace Asp

open Splice

def fileMaxBytes : ℕ := 16 * 1024 * 1024
def maxFilePatchRanges : ℕ := 4096
def filePatchFixedOverheadBytes : ℕ := 128
def filePatchRangesFixedOverheadBytes : ℕ := 160
def filePatchRangeOverheadBytes : ℕ := 24
def filePatchRangeCoalesceGapBytes : ℕ := 32
def filePatchLineMaxLines : ℕ := 2048
def filePatchLineMaxLcsCells : ℕ := 4000000
def filePatchMaxDerivedRanges : ℕ := 4096

structure FilePatchRange where
  offset : ℕ
  removeLen : ℕ
  replacement : Bytes
  deriving DecidableEq

def commonPrefix (a b : Bytes) : ℕ := ((a.zip b).takeWhile fun p => p.1 == p.2).length

def commonSuffix (a b : Bytes) : ℕ :=
  ((a.reverse.zip b.reverse).takeWhile fun p => p.1 == p.2).length

def shouldUseFilePatch (replacementLen fullFileLen : ℕ) : Bool :=
  decide (saturatingAdd replacementLen filePatchFixedOverheadBytes < fullFileLen)

def filePatchRangesReplacementLen (ranges : List FilePatchRange) : ℕ :=
  ranges.foldl (fun total range => saturatingAdd total range.replacement.length) 0

def estimatedFilePatchRangesWireBytes (ranges : List FilePatchRange) : ℕ :=
  saturatingAdd
    (saturatingAdd filePatchRangesFixedOverheadBytes
      (saturatingMul ranges.length filePatchRangeOverheadBytes))
    (filePatchRangesReplacementLen ranges)

def shouldUseFilePatchRanges (ranges : List FilePatchRange) (fullFileLen : ℕ) : Bool :=
  decide (1 < ranges.length) &&
    decide (estimatedFilePatchRangesWireBytes ranges < fullFileLen) &&
    decide (filePatchRangesReplacementLen ranges < fullFileLen)

/-- `split_patch_lines`: the intervals of the lines, each with its newline. -/
def splitPatchLinesFrom (start index : ℕ) : Bytes → List (ℕ × ℕ)
  | [] => if start < index then [(start, index)] else []
  | byte :: rest =>
      if byte = 10 then (start, index + 1) :: splitPatchLinesFrom (index + 1) (index + 1) rest
      else splitPatchLinesFrom start (index + 1) rest

def splitPatchLines (data : Bytes) : List (ℕ × ℕ) := splitPatchLinesFrom 0 0 data

def patchLineOffset (lines : List (ℕ × ℕ)) (index dataLen : ℕ) : ℕ :=
  (lines[index]?).elim dataLen Prod.fst

def patchLine (data : Bytes) (lines : List (ℕ × ℕ)) (index : ℕ) : Bytes :=
  let line := lines.getD index (0, 0)
  slice data line.1 line.2

section LineWalk

variable (old new : Bytes) (oldLines newLines : List (ℕ × ℕ)) (width : ℕ)

def lcsCell (table : List ℕ) (oldIndex newIndex : ℕ) : ℕ :=
  if patchLine old oldLines oldIndex = patchLine new newLines newIndex then
    1 + table.getD ((oldIndex + 1) * width + newIndex + 1) 0
  else
    max (table.getD ((oldIndex + 1) * width + newIndex) 0)
      (table.getD (oldIndex * width + newIndex + 1) 0)

def lcsRow (table : List ℕ) (oldIndex : ℕ) : List ℕ :=
  (List.range newLines.length).reverse.foldl
    (fun t newIndex => t.set (oldIndex * width + newIndex)
      (lcsCell old new oldLines newLines width t oldIndex newIndex)) table

def lcsTable (cells : ℕ) : List ℕ :=
  (List.range oldLines.length).reverse.foldl (lcsRow old new oldLines newLines width)
    (List.replicate cells 0)

structure LineWalk where
  oldIndex : ℕ
  newIndex : ℕ
  oldAnchor : ℕ
  newAnchor : ℕ
  edits : List Edit
  deriving DecidableEq

def LineWalk.start : LineWalk := ⟨0, 0, 0, 0, []⟩

/-- Record what lies between the anchors and the cursors, if anything does. -/
def LineWalk.emit (w : LineWalk) : List Edit :=
  if w.oldIndex ≠ w.oldAnchor ∨ w.newIndex ≠ w.newAnchor then
    w.edits ++ [⟨patchLineOffset oldLines w.oldAnchor old.length,
      patchLineOffset oldLines w.oldIndex old.length,
      patchLineOffset newLines w.newAnchor new.length,
      patchLineOffset newLines w.newIndex new.length⟩]
  else w.edits

/-- One turn of the `while` loop, taken while both sides have lines left. -/
def LineWalk.next (table : List ℕ) (w : LineWalk) : LineWalk :=
  if patchLine old oldLines w.oldIndex = patchLine new newLines w.newIndex then
    ⟨w.oldIndex + 1, w.newIndex + 1, w.oldIndex + 1, w.newIndex + 1,
      w.emit old new oldLines newLines⟩
  else if table.getD (w.oldIndex * width + w.newIndex + 1) 0 ≤
      table.getD ((w.oldIndex + 1) * width + w.newIndex) 0 then
    { w with oldIndex := w.oldIndex + 1 }
  else { w with newIndex := w.newIndex + 1 }

def LineWalk.run (table : List ℕ) : ℕ → LineWalk → LineWalk
  | 0, w => w
  | fuel + 1, w =>
      if w.oldIndex < oldLines.length ∧ w.newIndex < newLines.length then
        LineWalk.run table fuel (w.next old new oldLines newLines width table)
      else w

end LineWalk

def editsNear (previous edit : Edit) : Bool :=
  decide (edit.oldStart - previous.oldEnd ≤ filePatchRangeCoalesceGapBytes)

def editRange (new : Bytes) (e : Edit) : FilePatchRange :=
  ⟨e.oldStart, e.oldEnd - e.oldStart, slice new e.newStart e.newEnd⟩

/-- The walk over both files' lines; each turn moves a cursor, so the lines of
both files bound the number of turns. -/
def linePatchWalk (old new : Bytes) : LineWalk :=
  let oldLines := splitPatchLines old
  let newLines := splitPatchLines new
  let width := newLines.length + 1
  let table := lcsTable old new oldLines newLines width ((oldLines.length + 1) * width)
  LineWalk.run old new oldLines newLines width table (oldLines.length + newLines.length)
    LineWalk.start

def deriveLinePatchRanges (old new : Bytes) : Option (List FilePatchRange) :=
  let oldLines := splitPatchLines old
  let newLines := splitPatchLines new
  if oldLines.length > filePatchLineMaxLines ∨ newLines.length > filePatchLineMaxLines then none
  else if (oldLines.length + 1) * (newLines.length + 1) > filePatchLineMaxLcsCells then none
  else
    let edits := (linePatchWalk old new).emit old new oldLines newLines
    if edits.length > filePatchMaxDerivedRanges then none
    else
      let kept := edits.filter fun e => !e.isEmpty
      some ((coalesce editsNear Edit.merge kept).map (editRange new))

/-- The maximal runs of differing bytes; `start` is the open run, if there is one. -/
def changedRunsFrom (index : ℕ) : Option ℕ → List (UInt8 × UInt8) → List (ℕ × ℕ)
  | none, [] => []
  | some start, [] => [(start, index)]
  | none, p :: rest =>
      if p.1 = p.2 then changedRunsFrom (index + 1) none rest
      else changedRunsFrom (index + 1) (some index) rest
  | some start, p :: rest =>
      if p.1 = p.2 then (start, index) :: changedRunsFrom (index + 1) none rest
      else changedRunsFrom (index + 1) (some start) rest

def runsNear (previous run : ℕ × ℕ) : Bool :=
  decide (run.1 - previous.2 ≤ filePatchRangeCoalesceGapBytes)

def mergeRuns (previous run : ℕ × ℕ) : ℕ × ℕ := (previous.1, run.2)

def deriveFilePatchRanges (old new : Bytes) : List FilePatchRange :=
  let front := commonPrefix old new
  let back := commonSuffix (old.drop front) (new.drop front)
  let oldMiddle := slice old front (old.length - back)
  let newMiddle := slice new front (new.length - back)
  if oldMiddle.length ≠ newMiddle.length then
    match deriveLinePatchRanges old new with
    | some ranges => ranges
    | none => [⟨front, oldMiddle.length, newMiddle⟩]
  else
    (coalesce runsNear mergeRuns (changedRunsFrom 0 none (oldMiddle.zip newMiddle))).map
      fun run => ⟨front + run.1, run.2 - run.1, slice newMiddle run.1 run.2⟩

inductive CachedFilePatch where
  | unchanged (sha256 : String)
  | patch (prefixLen suffixLen : ℕ) (replacement : Bytes)
  | ranges (ranges : List FilePatchRange)
  deriving DecidableEq

structure WorkspaceFile where
  path : String
  sha256 : String
  data : Bytes
  deriving DecidableEq

/-- The cached inspections in the order the map yields them: the workspace of
each key and the files retained for it. -/
abbrev AgentWorkspaceCache := List (String × List WorkspaceFile)

def stripDotSlash (path : String) : String :=
  match path.toList with
  | '.' :: '/' :: rest => String.ofList rest
  | _ => path

def trimEndSlashes (path : String) : String :=
  String.ofList (path.toList.reverse.dropWhile (· == '/')).reverse

def cachedPath (workspace : String) (file : WorkspaceFile) : String :=
  stripDotSlash
    (if workspace = "." ∨ workspace = "" then file.path
     else trimEndSlashes workspace ++ "/" ++ file.path)

/-- What the loop body does with a file whose path and digest match. -/
def patchFromBase (old : Bytes) (sha256 : String) (replacementFile : Bytes) (allowRanges : Bool) :
    Option CachedFilePatch :=
  if old = replacementFile then some (.unchanged sha256)
  else
    let ranges := deriveFilePatchRanges old replacementFile
    if allowRanges && shouldUseFilePatchRanges ranges replacementFile.length then
      some (.ranges ranges)
    else
      let front := commonPrefix old replacementFile
      let back := commonSuffix (old.drop front) (replacementFile.drop front)
      let replacement := slice replacementFile front (replacementFile.length - back)
      if shouldUseFilePatch replacement.length replacementFile.length then
        some (.patch front back replacement)
      else none

def fileMatches (requestedPath expectedSha256 : String) (workspace : String)
    (file : WorkspaceFile) : Bool :=
  cachedPath workspace file == stripDotSlash requestedPath && file.sha256 == expectedSha256

def cachedFilePatchWithRanges (cache : AgentWorkspaceCache) (requestedPath expectedSha256 : String)
    (replacementFile : Bytes) (allowRanges : Bool) : Option CachedFilePatch :=
  cache.findSome? fun entry =>
    entry.2.findSome? fun file =>
      if fileMatches requestedPath expectedSha256 entry.1 file then
        patchFromBase file.data file.sha256 replacementFile allowRanges
      else none

/-- The checks of `materialize_file_patch_ranges`, with the totals they add up. -/
def checkPatchRanges (oldLen : ℕ) :
    ℕ → ℕ → ℕ → ℕ → List FilePatchRange → Except String (ℕ × ℕ)
  | _, _, removed, replaced, [] => .ok (removed, replaced)
  | index, cursor, removed, replaced, range :: rest =>
      if range.offset < cursor then .error "patch ranges overlap or are not sorted"
      else if range.offset + range.removeLen > usizeMax then
        .error s!"patch range {index} end offset overflow"
      else if range.offset + range.removeLen > oldLen then
        .error s!"patch range {index} exceeds the base file"
      else if removed + range.removeLen > usizeMax then .error "patch removal length overflow"
      else if replaced + range.replacement.length > usizeMax then
        .error "patch replacement length overflow"
      else
        checkPatchRanges oldLen (index + 1) (range.offset + range.removeLen)
          (removed + range.removeLen) (replaced + range.replacement.length) rest

/-- The splice loop. A slice with its end before its start, or beyond the base,
would panic: the result is then absent. -/
def spliceRanges (old : Bytes) : ℕ → List FilePatchRange → Option Bytes
  | cursor, [] => if cursor ≤ old.length then some (old.drop cursor) else none
  | cursor, range :: rest =>
      if cursor ≤ range.offset ∧ range.offset ≤ old.length then
        (spliceRanges old (range.offset + range.removeLen) rest).map fun tail =>
          slice old cursor range.offset ++ range.replacement ++ tail
      else none

def materializeFilePatchRanges (old : Bytes) (ranges : List FilePatchRange) :
    Except String Bytes := do
  if ranges.isEmpty then throw "patch ranges must not be empty"
  if ranges.length > maxFilePatchRanges then
    throw s!"patch range count exceeds v0 limit of {maxFilePatchRanges} ranges"
  let (removed, replaced) ← checkPatchRanges old.length 0 0 0 0 ranges
  if old.length < removed ∨ old.length - removed + replaced > usizeMax then
    throw "patch output length overflow"
  if old.length - removed + replaced > fileMaxBytes then
    throw s!"file exceeds v0 limit of {fileMaxBytes} bytes"
  match spliceRanges old 0 ranges with
  | some data => pure data
  | none => throw "slice index out of range"

/-- The `FilePatch` handler once the base hash matched: error code and message,
or the new contents. -/
def applyFilePatch (old : Bytes) (prefixLen suffixLen : ℕ) (replacement : Bytes) :
    Except (String × String) Bytes :=
  if prefixLen + suffixLen > usizeMax then
    .error ("invalid_patch", "patch prefix and suffix overflow")
  else if prefixLen + suffixLen > old.length then
    .error ("invalid_patch", "patch prefix and suffix overlap")
  else if prefixLen + suffixLen + replacement.length > usizeMax then
    .error ("invalid_patch", "patch replacement length overflow")
  else if prefixLen + suffixLen + replacement.length > fileMaxBytes then
    .error ("file_too_large", s!"file exceeds v0 limit of {fileMaxBytes} bytes")
  else .ok (old.take prefixLen ++ replacement ++ old.drop (old.length - suffixLen))

end Asp
