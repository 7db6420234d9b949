import Asp.Spec.PtyScrollback
import Mathlib.Data.List.DropRight

/-! The page of history of a PTY is made from the oldest line on and stops at the first line
that does not fit, so it is the newest page only if the two ends of the history agree. -/

namespace Asp

theorem utf8ByteSize_ofList (chars : List Char) :
    (String.ofList chars).utf8ByteSize = utf8Len chars := by
  induction chars with
  | nil => rfl
  | cons char chars ih =>
    rw [String.ofList_cons, String.utf8ByteSize_append, String.utf8ByteSize_singleton, ih]
    rfl

theorem utf8Len_truncate_le (chars : List Char) (n : ℕ) : utf8Len (truncate chars n) ≤ n := by
  induction chars generalizing n with
  | nil => exact Nat.zero_le n
  | cons char chars ih =>
    unfold truncate
    split_ifs with hfits
    · have hrest := ih (n - char.utf8Size)
      simp only [utf8Len, List.map_cons, List.sum_cons] at hrest ⊢
      omega
    · exact Nat.zero_le n

theorem truncate_beginning (chars : List Char) (n : ℕ) : truncate chars n <+: chars := by
  induction chars generalizing n with
  | nil => exact List.prefix_rfl
  | cons char chars ih =>
    unfold truncate
    split_ifs
    · exact (List.prefix_cons_inj char).mpr (ih _)
    · exact List.nil_prefix

theorem boundaryAtMost_le (chars : List Char) (n : ℕ) : boundaryAtMost chars n ≤ n := by
  induction n with
  | zero => exact le_rfl
  | succ n ih =>
    unfold boundaryAtMost
    split_ifs
    · exact le_rfl
    · exact ih.trans (Nat.le_succ n)

theorem utf8ByteSize_sanitizePtyLine_le (line : String) :
    (sanitizePtyLine line).utf8ByteSize ≤ ptyScrollbackMaxLineBytes := by
  unfold sanitizePtyLine
  rw [utf8ByteSize_ofList]
  split_ifs with hlong
  · exact (utf8Len_truncate_le _ _).trans (boundaryAtMost_le _ _)
  · exact Nat.le_of_not_lt hlong

theorem not_isControl_of_mem_sanitizePtyLine {line : String} {character : Char}
    (h : character ∈ (sanitizePtyLine line).toList) : isControl character = false := by
  have hkept : character ∈ line.toList.filter fun character => !isControl character := by
    unfold sanitizePtyLine at h
    rw [String.toList_ofList] at h
    split_ifs at h
    · exact (truncate_beginning _ _).subset h
    · exact h
  have hcontrol := (List.mem_filter.mp hkept).2
  rwa [Bool.not_eq_true'] at hcontrol

theorem FitsPage.nil : FitsPage [] :=
  ⟨Nat.zero_le _, fun _ h => absurd h List.not_mem_nil, Nat.zero_le _⟩

theorem FitsPage.sublist {page smaller : List String} (h : FitsPage page)
    (hsub : smaller.Sublist page) : FitsPage smaller where
  count := hsub.length_le.trans h.count
  line line hmem := h.line line (hsub.subset hmem)
  total := ((hsub.map String.utf8ByteSize).sum_le_sum fun _ _ => Nat.zero_le _).trans h.total

theorem fitsPage_concat {page : List String} (h : FitsPage page) {line : String}
    (hline : line.utf8ByteSize ≤ ptyScrollbackMaxLineBytes) :
    FitsPage (page ++ [line]) ↔ page.length < ptyScrollbackMaxLines ∧
      (page.map String.utf8ByteSize).sum + line.utf8ByteSize ≤ ptyScrollbackMaxBytes := by
  constructor
  · intro hfits
    have hcount := hfits.count
    have htotal := hfits.total
    simp only [List.length_append, List.length_singleton] at hcount
    simp only [List.map_append, List.map_singleton, List.sum_append, List.sum_singleton] at htotal
    exact ⟨hcount, htotal⟩
  · rintro ⟨hcount, htotal⟩
    refine ⟨?_, ?_, ?_⟩
    · rwa [List.length_append, List.length_singleton]
    · intro other hmem
      rcases List.mem_append.mp hmem with hold | hnew
      · exact h.line other hold
      · rwa [List.mem_singleton.mp hnew]
    · rwa [List.map_append, List.map_singleton, List.sum_append, List.sum_singleton]

theorem retainPtyLines_spec (lines retained : List String) (totalBytes : ℕ)
    (htotal : totalBytes = (retained.map String.utf8ByteSize).sum) (hfits : FitsPage retained) :
    ∃ taken rest, lines.map sanitizePtyLine = taken ++ rest ∧
      retainPtyLines retained totalBytes lines = retained ++ taken ∧
      FitsPage (retained ++ taken) ∧
      ∀ next ∈ rest.head?, ¬ FitsPage (retained ++ taken ++ [next]) := by
  induction lines generalizing retained totalBytes with
  | nil =>
    refine ⟨[], [], rfl, (List.append_nil _).symm, ?_, fun next hnext => ?_⟩
    · rwa [List.append_nil]
    · cases hnext
  | cons line lines ih =>
    have hline := utf8ByteSize_sanitizePtyLine_le line
    -- the two bounds are far below the limit of the counter
    have hsum : saturatingAdd totalBytes (sanitizePtyLine line).utf8ByteSize =
        totalBytes + (sanitizePtyLine line).utf8ByteSize := by
      have hbound := hfits.total
      unfold saturatingAdd
      rw [htotal]
      simp only [ptyScrollbackMaxBytes, ptyScrollbackMaxLineBytes, usizeMax] at hbound hline ⊢
      omega
    have hstop (hnot : ¬ FitsPage (retained ++ [sanitizePtyLine line])) :
        ∃ taken rest, (line :: lines).map sanitizePtyLine = taken ++ rest ∧
          retained = retained ++ taken ∧ FitsPage (retained ++ taken) ∧
          ∀ next ∈ rest.head?, ¬ FitsPage (retained ++ taken ++ [next]) := by
      refine ⟨[], _, rfl, (List.append_nil _).symm, ?_, fun next hnext => ?_⟩
      · rwa [List.append_nil]
      · rwa [List.append_nil, ← Option.some.inj hnext]
    unfold retainPtyLines
    dsimp only
    rw [hsum]
    split_ifs with hcount hbytes
    · refine hstop fun h => ?_
      exact absurd ((fitsPage_concat hfits hline).mp h).1 (Nat.not_lt_of_le hcount)
    · refine hstop fun h => ?_
      rw [htotal] at hbytes
      exact absurd ((fitsPage_concat hfits hline).mp h).2 (Nat.not_le_of_lt hbytes)
    · have hnext : FitsPage (retained ++ [sanitizePtyLine line]) := by
        rw [htotal] at hbytes
        exact (fitsPage_concat hfits hline).mpr ⟨Nat.lt_of_not_le hcount, Nat.le_of_not_lt hbytes⟩
      have hnextTotal : totalBytes + (sanitizePtyLine line).utf8ByteSize =
          ((retained ++ [sanitizePtyLine line]).map String.utf8ByteSize).sum := by
        rw [List.map_append, List.map_singleton, List.sum_append, List.sum_singleton, htotal]
      obtain ⟨taken, rest, hsplit, heq, hpage, hlast⟩ := ih _ _ hnextTotal hnext
      simp only [List.append_assoc, List.singleton_append] at heq hpage hlast
      refine ⟨sanitizePtyLine line :: taken, rest, ?_, heq, hpage, ?_⟩
      · rw [List.map_cons, hsplit, List.cons_append]
      · intro next hmem
        rw [List.append_assoc, List.cons_append]
        exact hlast next hmem

theorem exists_retained (lines : List String) :
    ∃ rest, lines.map sanitizePtyLine = retainPtyLines [] 0 lines ++ rest ∧
      FitsPage (retainPtyLines [] 0 lines) ∧
      ∀ next ∈ rest.head?, ¬ FitsPage (retainPtyLines [] 0 lines ++ [next]) := by
  obtain ⟨taken, rest, hsplit, heq, hfits, hlast⟩ := retainPtyLines_spec lines [] 0 rfl .nil
  rw [heq]
  exact ⟨rest, hsplit, hfits, hlast⟩

section Ends

variable {history page rest : List String}

theorem fitsPage_take_iff (hsplit : history = page ++ rest) (hfits : FitsPage page)
    (hlast : ∀ next ∈ rest.head?, ¬ FitsPage (page ++ [next])) {m : ℕ}
    (hm : m ≤ history.length) : FitsPage (history.take m) ↔ m ≤ page.length := by
  constructor
  · intro htake
    by_contra hlong
    cases rest with
    | nil =>
      rw [hsplit, List.append_nil] at hm
      exact hlong hm
    | cons next rest =>
      refine hlast next rfl (htake.sublist ?_)
      have hmore : page ++ [next] = history.take (page.length + 1) := by
        rw [hsplit, List.take_append, List.take_of_length_le (Nat.le_succ _), Nat.add_sub_cancel_left,
          List.take_succ_cons, List.take_zero]
      rw [hmore]
      exact (List.take_prefix_take_left (by omega)).sublist
  · intro hle
    refine hfits.sublist ?_
    rw [hsplit, List.take_append_of_le_length hle]
    exact List.take_sublist _ _

theorem isNewestPage_iff (hsplit : history = page ++ rest) (hfits : FitsPage page)
    (hlast : ∀ next ∈ rest.head?, ¬ FitsPage (page ++ [next])) :
    IsNewestPage history page ↔ ∃ n, OldestAreNewest history n := by
  have hlength : page.length ≤ history.length := by
    rw [hsplit, List.length_append]
    exact Nat.le_add_right _ _
  have htake : history.take page.length = page := by
    rw [hsplit, List.take_left]
  have holdest : ∀ m ≤ history.length, FitsPage (history.take m) ↔ m ≤ page.length :=
    fun m hm => fitsPage_take_iff hsplit hfits hlast hm
  constructor
  · rintro ⟨hrecent, -, hlongest⟩
    have hdrop : page = history.drop (history.length - page.length) :=
      List.suffix_iff_eq_drop.mp hrecent
    refine ⟨page.length, hlength, htake.trans hdrop, holdest, fun m hm => ⟨fun hm' => ?_, fun hle => ?_⟩⟩
    · have hcount := hlongest _ (List.drop_suffix _ _) hm'
      rw [List.length_drop] at hcount
      omega
    · refine hfits.sublist ?_
      rw [hdrop]
      exact (List.drop_suffix_drop_left _ (by omega)).sublist
  · rintro ⟨n, hle, hsame, htakes, hdrops⟩
    -- the page has as many lines as the condition says
    have hn : n = page.length := by
      refine Nat.le_antisymm ?_ ?_
      · exact (holdest n hle).mp ((htakes n hle).mpr le_rfl)
      · exact (htakes page.length hlength).mp (htake.symm ▸ hfits)
    subst hn
    have hdrop : page = history.drop (history.length - page.length) := htake.symm.trans hsame
    refine ⟨?_, hfits, fun other hother hfits' => ?_⟩
    · rw [hdrop]
      exact List.drop_suffix _ _
    · refine (hdrops other.length hother.length_le).mp ?_
      rwa [← List.suffix_iff_eq_drop.mp hother]

end Ends

theorem scrollbackBytes_eq_ok {lines : List String} (totalBytes : ℕ)
    (hlines : ∀ line ∈ lines, line.utf8ByteSize ≤ ptyScrollbackMaxLineBytes ∧
      line.toList.any isControl = false)
    (htotal : totalBytes + (lines.map String.utf8ByteSize).sum ≤ ptyScrollbackMaxBytes) :
    scrollbackBytes totalBytes lines = .ok (totalBytes + (lines.map String.utf8ByteSize).sum) := by
  induction lines generalizing totalBytes with
  | nil => rfl
  | cons line lines ih =>
    obtain ⟨hline, hcontrol⟩ := hlines line List.mem_cons_self
    rw [List.map_cons, List.sum_cons, ← Nat.add_assoc] at htotal ⊢
    have hsum : saturatingAdd totalBytes line.utf8ByteSize = totalBytes + line.utf8ByteSize := by
      unfold saturatingAdd
      simp only [ptyScrollbackMaxBytes, usizeMax] at htotal ⊢
      omega
    unfold scrollbackBytes
    rw [hsum, hcontrol, Bool.or_false, if_neg (by simpa using hline)]
    exact ih _ (fun other hmem => hlines other (List.mem_cons_of_mem _ hmem)) htotal

theorem validate_protocolPtyScrollbackSnapshot (generation rows cols : ℕ) (lines : List String) :
    validatePtyScrollbackSnapshot (protocolPtyScrollbackSnapshot generation rows cols lines) =
      if rows = 0 ∨ cols = 0 then .error "PTY scrollback snapshot has invalid geometry"
      else .ok () := by
  obtain ⟨rest, hsplit, hfits, -⟩ := exists_retained lines
  have hlines : ∀ line ∈ retainPtyLines [] 0 lines,
      line.utf8ByteSize ≤ ptyScrollbackMaxLineBytes ∧ line.toList.any isControl = false := by
    intro line hmem
    refine ⟨hfits.line line hmem, ?_⟩
    have hmapped : line ∈ lines.map sanitizePtyLine := by
      rw [hsplit]
      exact List.mem_append_left _ hmem
    obtain ⟨source, -, rfl⟩ := List.mem_map.mp hmapped
    rw [List.any_eq_false]
    intro character hcharacter
    rw [not_isControl_of_mem_sanitizePtyLine hcharacter]
    exact Bool.false_ne_true
  have htotal : 0 + ((retainPtyLines [] 0 lines).map String.utf8ByteSize).sum ≤
      ptyScrollbackMaxBytes := by
    rw [Nat.zero_add]
    exact hfits.total
  unfold validatePtyScrollbackSnapshot protocolPtyScrollbackSnapshot
  rw [scrollbackBytes_eq_ok 0 hlines htotal, if_neg (Nat.not_lt_of_le hfits.count), Except.bind,
    if_neg (Nat.not_lt_of_le htotal)]

/-- The page is the newest one exactly if the same number of the oldest and of the newest
lines fits and these are the same lines. The client accepts the page in any case. -/
theorem scrollback_page_is_newest_iff (generation rows cols : ℕ) (lines : List String) :
    (IsNewestPage (lines.map sanitizePtyLine)
      (protocolPtyScrollbackSnapshot generation rows cols lines).lines ↔
      ∃ n, OldestAreNewest (lines.map sanitizePtyLine) n) ∧
    validatePtyScrollbackSnapshot (protocolPtyScrollbackSnapshot generation rows cols lines) =
      if rows = 0 ∨ cols = 0 then .error "PTY scrollback snapshot has invalid geometry"
      else .ok () := by
  obtain ⟨rest, hsplit, hfits, hlast⟩ := exists_retained lines
  exact ⟨isNewestPage_iff hsplit hfits hlast,
    validate_protocolPtyScrollbackSnapshot generation rows cols lines⟩

section Recent

variable {σ : Type} {vt : Vt100 σ} {history screen : σ → List String} {t : σ} {maxLines : ℕ}

theorem pages_eq (h : vt.Lawful history screen) (hheight : 0 < vt.height t) {n : ℕ}
    (hn : n ≤ (history t).length) :
    (PersistentPty.pages vt (vt.height t) n t).2 = (history t).rtake n ∧
      ∀ m, vt.setScrollback m (PersistentPty.pages vt (vt.height t) n t).1 = vt.setScrollback m t := by
  induction n using Nat.strong_induction_on generalizing t with
  | _ n ih =>
    rw [PersistentPty.pages]
    split_ifs with hpos
    · have hpage : (vt.rows (vt.setScrollback n t)).take (min n (max (vt.height t) 1)) =
          ((history t).rtake n).take (min n (vt.height t)) := by
        rw [h.rows, h.scrollback_set, h.history_set, h.screen_set, h.height_set, List.take_take,
          min_eq_left hn, List.drop_append_of_le_length (Nat.sub_le _ _),
          List.take_append_of_le_length, List.rtake]
        · congr 1
          omega
        · rw [List.length_drop]
          omega
      have hheight' : 0 < vt.height (vt.setScrollback n t) := (h.height_set n t).symm ▸ hheight
      have hle : n - min n (max (vt.height t) 1) ≤ (history (vt.setScrollback n t)).length := by
        rw [h.history_set]
        omega
      obtain ⟨hrest, hback⟩ := ih (n - min n (max (vt.height t) 1)) (by omega) hheight' hle
      rw [h.height_set, h.history_set] at hrest
      rw [h.height_set] at hback
      refine ⟨?_, fun m => (hback m).trans (h.set_set m n t)⟩
      dsimp only
      rw [hpage, hrest]
      have hdrop : (history t).rtake (n - min n (max (vt.height t) 1)) =
          ((history t).rtake n).drop (min n (vt.height t)) := by
        rw [List.rtake, List.rtake, List.drop_drop]
        congr 1
        omega
      rw [hdrop, List.take_append_drop]
    · rw [Nat.eq_zero_of_not_pos hpos, List.rtake_zero]
      exact ⟨rfl, fun _ => rfl⟩

theorem rtake_min_length (lines : List String) (n : ℕ) :
    lines.rtake (min lines.length n) = lines.rtake n := by
  rw [List.rtake, List.rtake]
  congr 1
  omega

theorem parserScrollback_eq (h : vt.Lawful history screen) (hheight : 0 < vt.height t) :
    PersistentPty.parserScrollback vt maxLines t = (t, (history t).rtake maxLines) := by
  have hback : ∀ m, vt.setScrollback (vt.scrollback t) (vt.setScrollback m t) = t := fun m =>
    (h.set_set _ m t).trans (h.set_scrollback t)
  have havailable : vt.scrollback (vt.setScrollback usizeMax t) = (history t).length := by
    rw [h.scrollback_set, min_eq_right (h.history_le t)]
  have hsame := h.history_set usizeMax t
  have hle : min (history t).length maxLines ≤ (history (vt.setScrollback usizeMax t)).length := by
    rw [hsame]
    exact Nat.min_le_left _ _
  obtain ⟨hlines, hrestored⟩ := pages_eq h ((h.height_set usizeMax t).symm ▸ hheight) hle
  rw [hsame, rtake_min_length] at hlines
  unfold PersistentPty.parserScrollback
  dsimp only
  rw [havailable]
  split_ifs with hzero
  · rw [hback, ← rtake_min_length, hzero, List.rtake_zero]
  · rw [hlines, hrestored, hback]

theorem captureTmuxScrollback_eq (rows maxLines : ℕ) (printed : List String) :
    captureTmuxScrollback rows maxLines printed = (aboveVisible rows printed).rtake maxLines := by
  have hlength : (aboveVisible rows printed).length = printed.length - max rows 1 := by
    rw [aboveVisible, List.length_take, min_eq_left (Nat.sub_le _ _)]
  unfold captureTmuxScrollback
  dsimp only
  split_ifs with hvisible
  · have hnone : aboveVisible rows printed = [] := by
      rw [aboveVisible, Nat.sub_eq_zero_of_le hvisible, List.take_zero]
    rw [hnone, List.rtake_nil]
  · rw [List.rtake, hlength, aboveVisible]

theorem retriedCapture_eq (captures : List (Option (List String))) {last : Option (List String)}
    (hlast : last = none ∨ last = some []) :
    retriedCapture last captures =
      if captures.reduceOption = [] then last
      else some ((captures.reduceOption.find? (· ≠ [])).getD []) := by
  induction captures generalizing last with
  | nil => rfl
  | cons capture captures ih =>
    cases capture with
    | none => exact ih hlast
    | some page =>
      rw [List.reduceOption_cons_of_some, if_neg (List.cons_ne_nil _ _)]
      cases page with
      | nil =>
        show retriedCapture (some []) captures = _
        rw [ih (.inr rfl), List.find?_cons_of_neg (by simp)]
        split_ifs with hnone
        · rw [hnone]
          rfl
        · rfl
      | cons line lines => rfl

theorem find_map_rtake (hpos : 0 < maxLines) (sources : List (List String)) :
    ((sources.map fun source => source.rtake maxLines).find? (· ≠ [])).getD [] =
      ((sources.find? (· ≠ [])).getD []).rtake maxLines := by
  induction sources with
  | nil => exact (List.rtake_nil maxLines).symm
  | cons source sources ih =>
    cases hsource : source with
    | nil =>
      rw [List.map_cons, List.rtake_nil, List.find?_cons_of_neg (by simp),
        List.find?_cons_of_neg (by simp), ih]
    | cons line lines =>
      have hsome : (line :: lines).rtake maxLines ≠ [] := by
        rw [List.rtake, Ne, List.drop_eq_nil_iff, List.length_cons]
        omega
      rw [List.map_cons, List.find?_cons_of_pos (by simpa using hsome),
        List.find?_cons_of_pos (by simp)]
      rfl

theorem scrollback_eq (h : vt.Lawful history screen) (hheight : 0 < vt.height t) (maxLines : ℕ)
    (captures : List (Option (List String))) :
    PersistentPty.scrollback vt maxLines captures t =
      (t, (historySource (vt.height t) captures (history t)).rtake maxLines) := by
  unfold PersistentPty.scrollback
  split_ifs with hzero
  · rw [hzero, List.rtake_zero]
  · have hcapture : captures.map (Option.map (captureTmuxScrollback (vt.height t) maxLines)) =
        captures.map (Option.map fun printed =>
          (aboveVisible (vt.height t) printed).rtake maxLines) :=
      congrArg (fun f => captures.map (Option.map f))
        (funext (captureTmuxScrollback_eq (vt.height t) maxLines))
    rw [hcapture, retriedCapture_eq _ (.inl rfl), List.reduceOption_map, historySource]
    by_cases hnone : captures.reduceOption = []
    · rw [hnone, List.map_nil, if_pos rfl, if_pos rfl]
      exact parserScrollback_eq h hheight
    · have hfound := find_map_rtake (Nat.pos_of_ne_zero hzero)
        (captures.reduceOption.map (aboveVisible (vt.height t)))
      rw [List.map_map] at hfound
      rw [if_neg (mt List.map_eq_nil_iff.mp hnone), if_neg hnone]
      exact congrArg (Prod.mk t) hfound

/-- The page is the last lines, oldest first, of one history, as many as it has up to the number
that was asked for, and the view of the terminal is where it was. -/
theorem scrollback_is_recent (h : vt.Lawful history screen) (hheight : 0 < vt.height t)
    (maxLines : ℕ) (captures : List (Option (List String))) :
    (PersistentPty.scrollback vt maxLines captures t).1 = t ∧
    (PersistentPty.scrollback vt maxLines captures t).2 =
      (historySource (vt.height t) captures (history t)).rtake maxLines ∧
    (PersistentPty.scrollback vt maxLines captures t).2.length =
      min (historySource (vt.height t) captures (history t)).length maxLines := by
  rw [scrollback_eq h hheight]
  refine ⟨rfl, rfl, ?_⟩
  rw [List.rtake, List.length_drop]
  omega

end Recent

section Examples

variable {cols : ℕ}

/-- A terminal that keeps its lines as they are. -/
structure PlainScreen where
  history : List String
  screen : List String
  offset : ℕ
  offset_le : offset ≤ history.length
  history_le : history.length ≤ usizeMax

def plainScreen : Vt100 PlainScreen where
  scrollback t := t.offset
  setScrollback n t := { t with offset := min n t.history.length, offset_le := Nat.min_le_right _ _ }
  rows t := ((t.history ++ t.screen).drop (t.history.length - t.offset)).take t.screen.length
  height t := t.screen.length

theorem plainScreen_lawful : plainScreen.Lawful PlainScreen.history PlainScreen.screen where
  scrollback_set _ _ := rfl
  rows _ := rfl
  history_set _ _ := rfl
  screen_set _ _ := rfl
  height_set _ _ := rfl
  set_set _ _ _ := rfl
  set_scrollback t := by
    obtain ⟨history, screen, offset, hoffset, hhistory⟩ := t
    simp [plainScreen, hoffset]
  history_le t := t.history_le

/-- Five lines of history above two rows, and the view is moved up by one. -/
def scrolledScreen : PlainScreen := ⟨["a", "b", "c", "d", "e"], ["f", "g"], 1, by decide, by decide⟩

/-- Without tmux the page is made of two screens of the parser; the first capture has no history
and the second fails, so the third is used. -/
theorem last_lines_are_recent :
    PersistentPty.scrollback plainScreen 3 [none] scrolledScreen = (scrolledScreen, ["c", "d", "e"]) ∧
    PersistentPty.scrollback plainScreen 3
      [some ["f", "g"], none, some ["x", "y", "f", "g"]] scrolledScreen =
        (scrolledScreen, ["x", "y"]) := by
  have hpage : ∀ captures lines,
      (historySource 2 captures scrolledScreen.history).rtake 3 = lines →
      PersistentPty.scrollback plainScreen 3 captures scrolledScreen = (scrolledScreen, lines) := by
    rintro captures lines rfl
    have hrecent := scrollback_is_recent plainScreen_lawful (t := scrolledScreen) (by decide) 3 captures
    exact Prod.ext hrecent.1 hrecent.2.1
  exact ⟨hpage _ _ (by decide), hpage _ _ (by decide)⟩

def ruleLine (cols : ℕ) : String := String.ofList (List.replicate cols '─')

/-- A command has printed rules, and at last that it is done. -/
def ruledHistory (count cols : ℕ) : List String := List.replicate count (ruleLine cols) ++ ["done"]

theorem utf8Len_rule (cols : ℕ) : utf8Len (List.replicate cols '─') = cols * 3 := by
  rw [utf8Len, List.map_replicate, List.sum_replicate]
  rfl

theorem utf8ByteSize_ruleLine (cols : ℕ) : (ruleLine cols).utf8ByteSize = cols * 3 := by
  rw [ruleLine, utf8ByteSize_ofList, utf8Len_rule]

theorem sanitizePtyLine_ruleLine (hcols : cols * 3 ≤ ptyScrollbackMaxLineBytes) :
    sanitizePtyLine (ruleLine cols) = ruleLine cols := by
  have hkept : ((ruleLine cols).toList.filter fun character => !isControl character) =
      List.replicate cols '─' := by
    rw [ruleLine, String.toList_ofList, List.filter_replicate]
    rfl
  unfold sanitizePtyLine
  rw [hkept]
  dsimp only
  rw [utf8Len_rule, if_neg (Nat.not_lt_of_le hcols), ruleLine]

theorem sanitizePtyLine_ruledHistory (count : ℕ) (hcols : cols * 3 ≤ ptyScrollbackMaxLineBytes) :
    (ruledHistory count cols).map sanitizePtyLine = ruledHistory count cols := by
  rw [ruledHistory, List.map_append, List.map_replicate, sanitizePtyLine_ruleLine hcols]
  congr 1

theorem length_ruledHistory (count cols : ℕ) : (ruledHistory count cols).length = count + 1 := by
  rw [ruledHistory, List.length_append, List.length_replicate]
  rfl

theorem not_fitsPage_ruledHistory {count : ℕ} (hlong : ptyScrollbackMaxBytes < count * (cols * 3)) :
    ¬ FitsPage (ruledHistory count cols) := by
  intro h
  have htotal := h.total
  rw [ruledHistory, List.map_append, List.map_replicate, List.sum_append, List.sum_replicate,
    utf8ByteSize_ruleLine, smul_eq_mul] at htotal
  exact absurd htotal (Nat.not_le_of_lt (hlong.trans_le (Nat.le_add_right _ _)))

theorem done_ne_ruleLine (cols : ℕ) : "done" ≠ ruleLine cols := by
  intro h
  have hsize := congrArg String.utf8ByteSize h
  rw [utf8ByteSize_ruleLine] at hsize
  have hfour : "done".utf8ByteSize = 4 := by decide
  omega

def clearedScreen : PlainScreen := ⟨[], [""], 0, by decide, by decide⟩

theorem scrollback_ruledHistory (count cols : ℕ) :
    (PersistentPty.scrollback plainScreen (count + 1) [some (ruledHistory count cols ++ [""])]
      clearedScreen).2 = ruledHistory count cols := by
  have hlength := length_ruledHistory count cols
  have habove : aboveVisible 1 (ruledHistory count cols ++ [""]) = ruledHistory count cols := by
    rw [aboveVisible, Nat.max_self, List.length_append, List.length_singleton, Nat.add_sub_cancel,
      List.take_left]
  have hsome : ruledHistory count cols ≠ [] := by
    rw [← List.length_pos_iff, hlength]
    exact Nat.succ_pos count
  have hsource : historySource 1 [some (ruledHistory count cols ++ [""])] [] =
      ruledHistory count cols := by
    show ((([ruledHistory count cols ++ [""]].map (aboveVisible 1)).find? (· ≠ [])).getD []) = _
    rw [List.map_singleton, habove, List.find?_cons_of_pos (by simpa using hsome), Option.getD_some]
  rw [scrollback_eq plainScreen_lawful (by decide)]
  show (historySource 1 [some (ruledHistory count cols ++ [""])] []).rtake (count + 1) = _
  rw [hsource, List.rtake, hlength, Nat.sub_self, List.drop_zero]

theorem not_isNewestPage_ruledHistory {count : ℕ} (hcols : cols * 3 ≤ ptyScrollbackMaxLineBytes)
    (hlong : ptyScrollbackMaxBytes < count * (cols * 3)) (generation rows : ℕ) :
    ¬ IsNewestPage ((ruledHistory count cols).map sanitizePtyLine)
      (protocolPtyScrollbackSnapshot generation rows cols (ruledHistory count cols)).lines := by
  obtain ⟨rest, hsplit, hfits, -⟩ := exists_retained (ruledHistory count cols)
  rw [sanitizePtyLine_ruledHistory count hcols] at hsplit ⊢
  rw [protocolPtyScrollbackSnapshot]
  set page := retainPtyLines [] 0 (ruledHistory count cols)
  rintro ⟨hrecent, -, hlongest⟩
  have hdone : FitsPage ["done"] := ⟨by decide, by decide, by decide⟩
  have hpos : 1 ≤ page.length := hlongest ["done"] (List.suffix_append _ _) hdone
  -- the last line of a page that is recent is the last line of the history
  have hmem : "done" ∈ page := by
    have hlast : ["done"] <:+ page :=
      List.suffix_of_suffix_length_le (List.suffix_append _ _) hrecent hpos
    exact hlast.subset (List.mem_singleton.mpr rfl)
  rcases List.eq_nil_or_concat rest with rfl | ⟨front, line, rfl⟩
  · rw [List.append_nil] at hsplit
    exact not_fitsPage_ruledHistory hlong (hsplit ▸ hfits)
  · rw [ruledHistory, List.concat_eq_append, ← List.append_assoc] at hsplit
    have hfront : List.replicate count (ruleLine cols) = page ++ front :=
      (List.append_inj' hsplit rfl).1
    have hrule : "done" ∈ List.replicate count (ruleLine cols) := by
      rw [hfront]
      exact List.mem_append_left _ hmem
    exact done_ne_ruleLine cols (List.eq_of_mem_replicate hrule)

/-- With 255 rules on a screen of 500 columns the last line is not on the page. -/
theorem ruled_history_loses_its_end :
    ∃ (t : PlainScreen) (captures : List (Option (List String))),
      ¬ IsNewestPage
        ((PersistentPty.scrollback plainScreen ptyScrollbackMaxLines captures t).2.map sanitizePtyLine)
        (protocolPtyScrollbackSnapshot 1 1 500
          (PersistentPty.scrollback plainScreen ptyScrollbackMaxLines captures t).2).lines := by
  refine ⟨clearedScreen, [some (ruledHistory 255 500 ++ [""])], ?_⟩
  rw [show ptyScrollbackMaxLines = 255 + 1 from rfl, scrollback_ruledHistory 255 500]
  exact not_isNewestPage_ruledHistory (by decide) (by decide) 1 1

end Examples

end Asp
