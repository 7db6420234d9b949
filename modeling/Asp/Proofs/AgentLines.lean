import Asp.Spec.AgentLines

/-! Bounded lines. What a call takes depends on its line alone, not on the buffers in which the
line is delivered: a line is too long as soon as what was seen of it is. -/

namespace Asp

variable {maximum : ℕ} {seen line part tail : Bytes} {oversized : Bool} {reader : LineReader}

/-- What the loop has made of the bytes that it has seen of its line. -/
structure Taken (maximum : ℕ) (seen line : Bytes) (oversized : Bool) : Prop where
  oversized : oversized = decide (maximum < seen.length)
  bounded : line.length ≤ maximum
  kept : seen.length ≤ maximum → line = seen

theorem Taken.piece (h : Taken maximum seen line oversized) (piece : Bytes) :
    Taken maximum (seen ++ piece) (takePiece maximum line oversized piece).1
      (takePiece maximum line oversized piece).2 := by
  obtain ⟨rfl, hbounded, hkept⟩ := h
  unfold takePiece
  by_cases hlong : maximum < seen.length
  · rw [if_pos (decide_eq_true hlong)]
    refine ⟨?_, hbounded, fun hle => ?_⟩
    · simp; omega
    · rw [List.length_append] at hle
      omega
  · obtain rfl := hkept (Nat.not_lt.mp hlong)
    rw [if_neg (mt of_decide_eq_true hlong)]
    by_cases hpiece : maximum - line.length < piece.length
    · rw [if_pos hpiece]
      refine ⟨?_, hbounded, fun hle => ?_⟩
      · simp; omega
      · rw [List.length_append] at hle
        omega
    · rw [if_neg hpiece]
      refine ⟨?_, ?_, fun _ => rfl⟩
      · simp; omega
      · rw [List.length_append]
        omega

/-- `part` is what is left of a line, `tail` what follows it. -/
def LineEnd (part tail : Bytes) : Prop :=
  (∃ body, 10 ∉ body ∧ part = body ++ [10]) ∨ 10 ∉ part ∧ tail = []

theorem LineEnd.over (h : LineEnd [] tail) : tail = [] := by
  rcases h with ⟨body, -, hnil⟩ | ⟨-, rfl⟩
  · simp at hnil
  · rfl

theorem fillBuf_cases (hend : LineEnd part tail) (hrest : reader.rest = part ++ tail)
    (hne : part ≠ []) :
    (∃ left, part = reader.fillBuf ++ left ∧ reader.fillBuf ≠ [] ∧ 10 ∉ reader.fillBuf ∧
      LineEnd left tail) ∨
    ∃ body more, 10 ∉ body ∧ part = body ++ [10] ∧ reader.fillBuf = body ++ 10 :: more := by
  rw [LineReader.fillBuf, hrest]
  rcases hend with ⟨body, hbody, rfl⟩ | ⟨hpart, rfl⟩
  · rcases Nat.lt_or_ge body.length (reader.sizes 0 + 1) with hlt | hle
    · refine .inr ⟨body, tail.take (reader.sizes 0 - body.length), hbody, rfl, ?_⟩
      rw [List.append_assoc, List.take_append, List.take_of_length_le hlt.le,
        show reader.sizes 0 + 1 - body.length = reader.sizes 0 - body.length + 1 by omega]
      rfl
    · rw [List.append_assoc, List.take_append_of_le_length hle]
      refine .inl ⟨body.drop (reader.sizes 0 + 1) ++ [10], ?_, ?_,
        fun hmem => hbody (List.mem_of_mem_take hmem),
        .inl ⟨_, fun hmem => hbody (List.mem_of_mem_drop hmem), rfl⟩⟩
      · rw [← List.append_assoc, List.take_append_drop]
      · exact List.ne_nil_of_length_pos (by rw [List.length_take]; omega)
  · rw [List.append_nil]
    refine .inl ⟨part.drop (reader.sizes 0 + 1), (List.take_append_drop ..).symm, ?_,
      fun hmem => hpart (List.mem_of_mem_take hmem),
      .inr ⟨fun hmem => hpart (List.mem_of_mem_drop hmem), rfl⟩⟩
    simpa using hne

theorem lineLoop_spec (fuel : ℕ) (htaken : Taken maximum seen line oversized)
    (hend : LineEnd part tail) (hrest : reader.rest = part ++ tail) (hfuel : part.length < fuel) :
    (lineLoop maximum fuel reader line oversized).1 =
        (if seen ++ part = [] then none else some (decide (maximum < (seen ++ part).length))) ∧
      Taken maximum (seen ++ part) (lineLoop maximum fuel reader line oversized).2.1
        (decide (maximum < (seen ++ part).length)) ∧
      (lineLoop maximum fuel reader line oversized).2.2.rest = tail := by
  induction fuel generalizing reader seen line oversized part with
  | zero => exact absurd hfuel (Nat.not_lt_zero _)
  | succ fuel ih =>
    rw [lineLoop]
    rcases eq_or_ne part [] with rfl | hne
    · obtain rfl := hend.over
      have hempty : reader.fillBuf = [] := by rw [LineReader.fillBuf, hrest]; rfl
      rw [if_pos hempty, List.append_nil]
      refine ⟨?_, htaken.oversized ▸ htaken, hrest⟩
      have hiff : line = [] ∧ oversized = false ↔ seen = [] := by
        rw [htaken.oversized, decide_eq_false_iff_not, Nat.not_lt]
        refine ⟨fun h => htaken.kept h.2 ▸ h.1, ?_⟩
        rintro rfl
        exact ⟨htaken.kept (Nat.zero_le _), Nat.zero_le _⟩
      rw [← htaken.oversized]
      simp only [hiff]
    · rcases fillBuf_cases hend hrest hne with ⟨left, rfl, hpiece, hnone, hleft⟩ | ⟨body, more, hbody, rfl, hshown⟩
      · have hfind : reader.fillBuf.findIdx? (· = 10) = none := by
          rw [List.findIdx?_eq_none_iff]
          exact fun b hb => decide_eq_false fun heq => hnone (heq ▸ hb)
        rw [if_neg hpiece]
        dsimp only
        rw [hfind, Option.elim_none, List.take_length, ← List.append_assoc]
        refine ih (htaken.piece _) hleft ?_ ?_
        · rw [LineReader.consume, hrest, List.append_assoc]
          exact List.drop_left
        · have := List.length_pos_of_ne_nil hpiece
          rw [List.length_append] at hfuel
          omega
      · have hfind : reader.fillBuf.findIdx? (· = 10) = some body.length := by
          have hnone : body.findIdx? (· = 10) = none := by
            rw [List.findIdx?_eq_none_iff]
            exact fun b hb => decide_eq_false fun heq => hbody (heq ▸ hb)
          rw [hshown, List.findIdx?_append, hnone, List.findIdx?_cons]
          simp
        have htake : reader.fillBuf.take (body.length + 1) = body ++ [10] := by
          rw [hshown, List.take_append, List.take_of_length_le (Nat.le_succ _)]
          simp
        have hdone := htaken.piece (body ++ [10])
        rw [if_neg (by rw [hshown]; simp)]
        dsimp only
        rw [hfind, Option.elim_some, htake, Option.isSome_some, if_pos rfl, if_neg (by simp)]
        refine ⟨congrArg some hdone.oversized, hdone.oversized ▸ hdone, ?_⟩
        rw [LineReader.consume, hrest]
        exact List.drop_left' (by simp)

theorem streamLines_newline {body : Bytes} (h : 10 ∉ body) (tail : Bytes) :
    streamLines (body ++ 10 :: tail) = (body ++ [10]) :: streamLines tail := by
  induction body with
  | nil => rw [List.nil_append, streamLines, if_pos rfl]; rfl
  | cons byte body ih =>
    obtain ⟨hbyte, hbody⟩ := not_or.mp (mt List.mem_cons.mpr h)
    rw [List.cons_append, streamLines, if_neg (Ne.symm hbyte), ih hbody]
    rfl

theorem streamLines_last {part : Bytes} (h : 10 ∉ part) (hne : part ≠ []) :
    streamLines part = [part] := by
  induction part with
  | nil => exact absurd rfl hne
  | cons byte part ih =>
    obtain ⟨hbyte, hpart⟩ := not_or.mp (mt List.mem_cons.mpr h)
    rw [streamLines, if_neg (Ne.symm hbyte)]
    rcases eq_or_ne part [] with rfl | hne
    · rfl
    · rw [ih hpart hne]
      rfl

theorem lineEnd_of_stream (stream : Bytes) : ∃ part tail, stream = part ++ tail ∧ LineEnd part tail ∧
    streamLines stream = (if part = [] then [] else [part]) ++ streamLines tail := by
  by_cases h : 10 ∈ stream
  · obtain ⟨body, tail, rfl, hbody⟩ := List.eq_append_cons_of_mem h
    refine ⟨body ++ [10], tail, by simp, .inl ⟨body, hbody, rfl⟩, ?_⟩
    rw [streamLines_newline hbody, if_neg (by simp)]
    rfl
  · refine ⟨stream, [], (List.append_nil _).symm, .inr ⟨h, rfl⟩, ?_⟩
    split_ifs with hnil
    · rw [hnil]
      rfl
    · rw [streamLines_last h hnil]
      rfl

theorem readBoundedAgentLine_spec (maximum : ℕ) (reader : LineReader) :
    (∃ line, streamLines reader.rest =
        line :: streamLines (readBoundedAgentLine maximum reader).2.2.rest ∧
      (readBoundedAgentLine maximum reader).1 = some (decide (maximum < line.length)) ∧
      Taken maximum line (readBoundedAgentLine maximum reader).2.1 (decide (maximum < line.length))) ∨
    streamLines reader.rest = [] ∧ (readBoundedAgentLine maximum reader).1 = none ∧
      (readBoundedAgentLine maximum reader).2.2.rest = [] := by
  obtain ⟨part, tail, hrest, hend, hlines⟩ := lineEnd_of_stream reader.rest
  have hstart : Taken maximum [] [] false := ⟨by simp, Nat.zero_le _, fun _ => rfl⟩
  obtain ⟨hresult, htaken, htail⟩ := lineLoop_spec (reader.rest.length + 1) hstart hend hrest
    (by rw [hrest, List.length_append]; omega)
  rw [List.nil_append] at hresult htaken
  rw [readBoundedAgentLine, hresult, htail, hlines]
  split_ifs with hnil
  · subst hnil
    obtain rfl := hend.over
    exact .inr ⟨rfl, rfl, rfl⟩
  · exact .inl ⟨part, rfl, rfl, htaken⟩

/-- Each call in turn reads one line of the stream; a call after the last one reads nothing. -/
theorem bounded_lines_stay_aligned (maximum : ℕ) (reader : LineReader) (calls : ℕ) :
    (∀ line, (streamLines reader.rest)[calls]? = some line →
      (readBoundedAgentLine maximum (afterLines maximum calls reader)).1 =
          some (decide (maximum < line.length)) ∧
        (readBoundedAgentLine maximum (afterLines maximum calls reader)).2.1.length ≤ maximum ∧
        (line.length ≤ maximum →
          (readBoundedAgentLine maximum (afterLines maximum calls reader)).2.1 = line)) ∧
    ((streamLines reader.rest).length ≤ calls →
      (readBoundedAgentLine maximum (afterLines maximum calls reader)).1 = none) := by
  induction calls generalizing reader with
  | zero =>
    rcases readBoundedAgentLine_spec maximum reader with ⟨line, hlines, hresult, htaken⟩ | ⟨hlines, hresult, -⟩
    · rw [hlines]
      refine ⟨fun line' hline' => ?_, nofun⟩
      cases hline'
      exact ⟨hresult, htaken.bounded, htaken.kept⟩
    · rw [hlines]
      exact ⟨nofun, fun _ => hresult⟩
  | succ calls ih =>
    obtain ⟨hline, hover⟩ := ih (readBoundedAgentLine maximum reader).2.2
    rcases readBoundedAgentLine_spec maximum reader with ⟨line, hlines, -⟩ | ⟨hlines, -, hrest⟩
    · rw [hlines]
      exact ⟨hline, fun hle => hover (Nat.le_of_succ_le_succ hle)⟩
    · rw [hlines]
      rw [hrest] at hover
      exact ⟨nofun, fun _ => hover (Nat.zero_le _)⟩

/-- `"xxx\na\n"` with at most two bytes a line, one byte at a time. -/
theorem long_line_before_a_short_one :
    (readBoundedAgentLine 2 ⟨[120, 120, 120, 10, 97, 10], fun _ => 0⟩).1 = some true ∧
      (readBoundedAgentLine 2
        (afterLines 2 1 ⟨[120, 120, 120, 10, 97, 10], fun _ => 0⟩)).2.1 = [97, 10] ∧
      (readBoundedAgentLine 2
        (afterLines 2 2 ⟨[120, 120, 120, 10, 97, 10], fun _ => 0⟩)).1 = none :=
  ⟨((bounded_lines_stay_aligned 2 ⟨[120, 120, 120, 10, 97, 10], fun _ => 0⟩ 0).1
      [120, 120, 120, 10] (by decide)).1,
    ((bounded_lines_stay_aligned 2 ⟨[120, 120, 120, 10, 97, 10], fun _ => 0⟩ 1).1 [97, 10]
      (by decide)).2.2 (by decide),
    (bounded_lines_stay_aligned 2 ⟨[120, 120, 120, 10, 97, 10], fun _ => 0⟩ 2).2 (by decide)⟩

end Asp
