import Asp.Spec.Basic
import Mathlib.Data.List.ReduceOption

/-! The page of history that a client is given with a PTY: `PersistentPty::scrollback`,
`protocol_pty_scrollback_snapshot` and the client's `validate_pty_scrollback_snapshot`. -/

namespace Asp

def ptyScrollbackMaxLines : ℕ := 256
def ptyScrollbackMaxLineBytes : ℕ := 64 * 1024
def ptyScrollbackMaxBytes : ℕ := 256 * 1024

/-- What `PersistentPty` uses of a `vt100` screen; `rows` are the visible ones, as wide as the
screen. -/
structure Vt100 (σ : Type) where
  scrollback : σ → ℕ
  setScrollback : ℕ → σ → σ
  rows : σ → List String
  height : σ → ℕ

/-- What is assumed of the crate: the view can be moved up by as many lines as the history has,
which are then visible above the screen, and moving it changes nothing else. -/
structure Vt100.Lawful {σ : Type} (vt : Vt100 σ) (history screen : σ → List String) : Prop where
  scrollback_set : ∀ n t, vt.scrollback (vt.setScrollback n t) = min n (history t).length
  rows : ∀ t, vt.rows t = ((history t ++ screen t).drop ((history t).length - vt.scrollback t)).take
    (vt.height t)
  history_set : ∀ n t, history (vt.setScrollback n t) = history t
  screen_set : ∀ n t, screen (vt.setScrollback n t) = screen t
  height_set : ∀ n t, vt.height (vt.setScrollback n t) = vt.height t
  set_set : ∀ m n t, vt.setScrollback m (vt.setScrollback n t) = vt.setScrollback m t
  set_scrollback : ∀ t, vt.setScrollback (vt.scrollback t) t = t
  history_le : ∀ t, (history t).length ≤ usizeMax

namespace PersistentPty

variable {σ : Type} (vt : Vt100 σ)

/-- The loop of `parser_scrollback`: one screen after the other, from the oldest. -/
def pages (height remaining : ℕ) (t : σ) : σ × List String :=
  if 0 < remaining then
    let t := vt.setScrollback remaining t
    let take := min remaining (max height 1)
    let rest := pages height (remaining - take) t
    (rest.1, (vt.rows t).take take ++ rest.2)
  else (t, [])
termination_by remaining
decreasing_by omega

def parserScrollback (maxLines : ℕ) (t : σ) : σ × List String :=
  let originalOffset := vt.scrollback t
  let t := vt.setScrollback usizeMax t
  let available := vt.scrollback t
  let requested := min available maxLines
  if requested = 0 then (vt.setScrollback originalOffset t, [])
  else
    let (t, lines) := pages vt (vt.height t) requested t
    (vt.setScrollback originalOffset t, lines)

end PersistentPty

/-- What `capture_tmux_scrollback` returns of the lines that tmux printed. -/
def captureTmuxScrollback (rows maxLines : ℕ) (lines : List String) : List String :=
  let visibleRows := max rows 1
  if lines.length ≤ visibleRows then []
  else
    let historyEnd := lines.length - visibleRows
    (lines.take historyEnd).drop (historyEnd - maxLines)

/-- The attempts to capture; an empty page is kept only if no later one has lines. -/
def retriedCapture : Option (List String) → List (Option (List String)) → Option (List String)
  | lastCapture, [] => lastCapture
  | lastCapture, none :: captures => retriedCapture lastCapture captures
  | _, some lines :: captures =>
      if lines.isEmpty then retriedCapture (some lines) captures else some lines

/-- `captures` are the lines that tmux printed in each attempt, `none` for one that failed;
without tmux there are none. -/
def PersistentPty.scrollback {σ : Type} (vt : Vt100 σ) (maxLines : ℕ)
    (captures : List (Option (List String))) (t : σ) : σ × List String :=
  if maxLines = 0 then (t, [])
  else
    match retriedCapture none
      (captures.map (Option.map (captureTmuxScrollback (vt.height t) maxLines))) with
    | some lines => (t, lines)
    | none => parserScrollback vt maxLines t

/-- What tmux printed above the visible rows. -/
def aboveVisible (rows : ℕ) (printed : List String) : List String :=
  printed.take (printed.length - max rows 1)

/-- The history that a page is taken from: that of the first capture that has any, none if all
captures that succeeded are without, and the parser's if none succeeded. -/
def historySource (rows : ℕ) (captures : List (Option (List String))) (history : List String) :
    List String :=
  let printed := captures.reduceOption
  if printed = [] then history else ((printed.map (aboveVisible rows)).find? (· ≠ [])).getD []

def utf8Len (chars : List Char) : ℕ := (chars.map Char.utf8Size).sum

/-- `is_char_boundary`. -/
def isCharBoundary : List Char → ℕ → Bool
  | _, 0 => true
  | [], _ + 1 => false
  | char :: chars, n + 1 => char.utf8Size ≤ n + 1 && isCharBoundary chars (n + 1 - char.utf8Size)

def boundaryAtMost (chars : List Char) : ℕ → ℕ
  | 0 => 0
  | n + 1 => if isCharBoundary chars (n + 1) then n + 1 else boundaryAtMost chars n

/-- `String::truncate`, at a boundary. -/
def truncate : List Char → ℕ → List Char
  | [], _ => []
  | char :: chars, n => if char.utf8Size ≤ n then char :: truncate chars (n - char.utf8Size) else []

def sanitizePtyLine (line : String) : String :=
  let chars := line.toList.filter fun character => !isControl character
  String.ofList <|
    if utf8Len chars > ptyScrollbackMaxLineBytes then
      truncate chars (boundaryAtMost chars ptyScrollbackMaxLineBytes)
    else chars

/-- The loop over the lines, with what is retained so far. -/
def retainPtyLines (retained : List String) (totalBytes : ℕ) : List String → List String
  | [] => retained
  | line :: lines =>
      if retained.length ≥ ptyScrollbackMaxLines then retained
      else
        let line := sanitizePtyLine line
        let next := saturatingAdd totalBytes line.utf8ByteSize
        if next > ptyScrollbackMaxBytes then retained
        else retainPtyLines (retained ++ [line]) next lines

structure PtyScrollbackSnapshot where
  generation : ℕ
  rows : ℕ
  cols : ℕ
  lines : List String
  deriving DecidableEq

def protocolPtyScrollbackSnapshot (generation rows cols : ℕ) (lines : List String) :
    PtyScrollbackSnapshot :=
  ⟨generation, rows, cols, retainPtyLines [] 0 lines⟩

/-- The loop of the client over the lines: their total length, unless one is invalid. -/
def scrollbackBytes (totalBytes : ℕ) : List String → Except String ℕ
  | [] => .ok totalBytes
  | line :: lines =>
      if line.utf8ByteSize > ptyScrollbackMaxLineBytes || line.toList.any isControl then
        .error "PTY scrollback snapshot contains an invalid line"
      else scrollbackBytes (saturatingAdd totalBytes line.utf8ByteSize) lines

def validatePtyScrollbackSnapshot (snapshot : PtyScrollbackSnapshot) : Except String Unit :=
  if snapshot.rows = 0 ∨ snapshot.cols = 0 then
    .error "PTY scrollback snapshot has invalid geometry"
  else if snapshot.lines.length > ptyScrollbackMaxLines then
    .error "PTY scrollback snapshot contains too many lines"
  else
    (scrollbackBytes 0 snapshot.lines).bind fun totalBytes =>
      if totalBytes > ptyScrollbackMaxBytes then
        .error "PTY scrollback snapshot exceeds its byte bound"
      else .ok ()

structure FitsPage (page : List String) : Prop where
  count : page.length ≤ ptyScrollbackMaxLines
  line : ∀ line ∈ page, line.utf8ByteSize ≤ ptyScrollbackMaxLineBytes
  total : (page.map String.utf8ByteSize).sum ≤ ptyScrollbackMaxBytes

/-- The most recent lines of the history, in order, as many as fit. -/
structure IsNewestPage (history page : List String) : Prop where
  recent : page <:+ history
  fits : FitsPage page
  longest : ∀ other, other <:+ history → FitsPage other → other.length ≤ page.length

/-- The same number of the oldest and of the newest lines fits, and they are the same lines.
A history that fits as a whole is of this kind. -/
structure OldestAreNewest (history : List String) (n : ℕ) : Prop where
  le : n ≤ history.length
  same : history.take n = history.drop (history.length - n)
  oldest : ∀ m ≤ history.length, FitsPage (history.take m) ↔ m ≤ n
  newest : ∀ m ≤ history.length, FitsPage (history.drop (history.length - m)) ↔ m ≤ n

end Asp
