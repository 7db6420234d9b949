import Mathlib.Data.List.DropRight
import Asp.Spec.ProcessOutput

/-! The two ways to a process summary agree: chunks pushed one by one into bounded
tails, and the tails read from the log files at the end. -/

namespace Asp

/-- Chunks of both streams in the order in which they arrive. -/
abbrev OutputChunks := List (OutputStream × Bytes)

def OutputChunks.content (chunks : OutputChunks) (stream : OutputStream) : Bytes :=
  chunks.flatMap fun chunk => if chunk.1 = stream then chunk.2 else []

namespace ProcessSummaryAccumulator

/-- A chunk pushed at the offset where its stream has come to. -/
def pushNext (state : (OutputStream → ℕ) × ProcessSummaryAccumulator)
    (chunk : OutputStream × Bytes) : (OutputStream → ℕ) × ProcessSummaryAccumulator :=
  (Function.update state.1 chunk.1 (state.1 chunk.1 + chunk.2.length),
    state.2.push chunk.1 (state.1 chunk.1) chunk.2)

def pushAll (tailLimit : ℕ) (chunks : OutputChunks) : ProcessSummaryAccumulator :=
  (chunks.foldl pushNext (fun _ => 0, .new tailLimit)).2

def bytes (a : ProcessSummaryAccumulator) : OutputStream → ℕ
  | .stdout => a.stdoutBytes
  | .stderr => a.stderrBytes

def tail (a : ProcessSummaryAccumulator) : OutputStream → Bytes
  | .stdout => a.stdoutTail
  | .stderr => a.stderrTail

theorem pushTail_rtake (tailLimit : ℕ) (seen data : Bytes)
    (hlen : seen.length + data.length ≤ usizeMax) :
    pushTail tailLimit (seen.rtake tailLimit) data = (seen ++ data).rtake tailLimit := by
  unfold pushTail
  split_ifs with hzero hlong
  · rw [hzero, List.rtake_zero, List.rtake_zero]
  · have hcut : (seen ++ data).length - tailLimit = seen.length + (data.length - tailLimit) := by
      rw [List.length_append]
      omega
    rw [List.rtake, hcut, ← List.drop_drop, List.drop_left]
  · have hkept : (seen.rtake tailLimit).length = min tailLimit seen.length := by
      rw [List.rtake, List.length_drop]
      omega
    have hcut : (seen ++ data).length - tailLimit ≤ seen.length := by
      rw [List.length_append]
      omega
    rw [hkept, saturatingAdd, Nat.min_eq_left (by omega), List.rtake, List.rtake, List.drop_drop,
      List.drop_append_of_le_length hcut, List.length_append]
    congr 2
    omega

structure Summarizes (tailLimit : ℕ) (state : (OutputStream → ℕ) × ProcessSummaryAccumulator)
    (seen : OutputStream → Bytes) : Prop where
  offset : ∀ stream, state.1 stream = (seen stream).length
  limit : state.2.tailLimit = tailLimit
  bytes : ∀ stream, state.2.bytes stream = (seen stream).length
  tail : ∀ stream, state.2.tail stream = (seen stream).rtake tailLimit

theorem summarizes_new (tailLimit : ℕ) :
    Summarizes tailLimit (fun _ => 0, .new tailLimit) fun _ => [] := by
  refine ⟨fun stream => rfl, rfl, fun stream => ?_, fun stream => ?_⟩
  · cases stream <;> rfl
  · rw [List.rtake_nil]
    cases stream <;> rfl

theorem push_bytes (a : ProcessSummaryAccumulator) (stream other : OutputStream) (offset : ℕ)
    (data : Bytes) : (a.push stream offset data).bytes other =
      if other = stream then max (a.bytes stream) (saturatingAdd offset data.length)
      else a.bytes other := by
  cases stream <;> cases other <;> rfl

theorem push_tail (a : ProcessSummaryAccumulator) (stream other : OutputStream) (offset : ℕ)
    (data : Bytes) : (a.push stream offset data).tail other =
      if other = stream then pushTail a.tailLimit (a.tail stream) data else a.tail other := by
  cases stream <;> cases other <;> rfl

theorem push_limit (a : ProcessSummaryAccumulator) (stream : OutputStream) (offset : ℕ)
    (data : Bytes) : (a.push stream offset data).tailLimit = a.tailLimit := by
  cases stream <;> rfl

theorem Summarizes.pushNext {tailLimit : ℕ}
    {state : (OutputStream → ℕ) × ProcessSummaryAccumulator} {seen : OutputStream → Bytes}
    (h : Summarizes tailLimit state seen) (chunk : OutputStream × Bytes)
    (hlen : (seen chunk.1).length + chunk.2.length ≤ usizeMax) :
    Summarizes tailLimit (pushNext state chunk)
      fun stream => seen stream ++ if chunk.1 = stream then chunk.2 else [] := by
  refine ⟨fun stream => ?_, ?_, fun stream => ?_, fun stream => ?_⟩
  · rw [List.length_append]
    change Function.update state.1 chunk.1 (state.1 chunk.1 + chunk.2.length) stream = _
    rcases eq_or_ne stream chunk.1 with rfl | hne
    · rw [Function.update_self, if_pos rfl, h.offset]
    · rw [Function.update_of_ne hne, if_neg hne.symm, h.offset, List.length_nil, Nat.add_zero]
  · rw [ProcessSummaryAccumulator.pushNext, push_limit, h.limit]
  · rw [ProcessSummaryAccumulator.pushNext, push_bytes, List.length_append]
    split_ifs with hsame hsame' hsame'
    · rw [h.bytes, h.offset, saturatingAdd, hsame]
      omega
    · exact absurd hsame.symm hsame'
    · exact absurd hsame'.symm hsame
    · rw [h.bytes, List.length_nil, Nat.add_zero]
  · rw [ProcessSummaryAccumulator.pushNext, push_tail]
    split_ifs with hsame hsame' hsame'
    · rw [h.limit, h.tail, hsame, pushTail_rtake tailLimit _ _ hlen]
    · exact absurd hsame.symm hsame'
    · exact absurd hsame'.symm hsame
    · rw [h.tail, List.append_nil]

theorem Summarizes.pushAll {tailLimit : ℕ} (chunks : OutputChunks) :
    ∀ {state : (OutputStream → ℕ) × ProcessSummaryAccumulator} {seen : OutputStream → Bytes},
      Summarizes tailLimit state seen →
      (∀ stream, (seen stream ++ chunks.content stream).length ≤ usizeMax) →
      Summarizes tailLimit (chunks.foldl ProcessSummaryAccumulator.pushNext state)
        fun stream => seen stream ++ chunks.content stream := by
  induction chunks with
  | nil =>
    intro state seen h hlen
    simp only [OutputChunks.content, List.flatMap_nil, List.append_nil, List.foldl_nil]
    exact h
  | cons chunk chunks ih =>
    intro state seen h hlen
    have hsplit : ∀ stream, seen stream ++ OutputChunks.content (chunk :: chunks) stream =
        (seen stream ++ if chunk.1 = stream then chunk.2 else []) ++
          OutputChunks.content chunks stream := by
      intro stream
      rw [OutputChunks.content, List.flatMap_cons, List.append_assoc]
      rfl
    simp only [hsplit] at hlen ⊢
    have hfirst := hlen chunk.1
    rw [if_pos rfl, List.length_append, List.length_append] at hfirst
    exact ih (h.pushNext chunk (by omega)) hlen

end ProcessSummaryAccumulator

theorem readPersistedProcessTail_eq {file content : Bytes} (h : content <+: file) (tailBytes : ℕ) :
    readPersistedProcessTail file content.length tailBytes = some (content.rtake tailBytes) := by
  have hle := h.length_le
  have hcontent := List.prefix_iff_eq_take.mp h
  unfold readPersistedProcessTail
  split_ifs with hzero
  · rcases hzero with rfl | hnil
    · rw [List.rtake_zero]
    · rw [List.length_eq_zero_iff.mp hnil, List.rtake_nil]
  · rw [Nat.min_eq_right hle]
    rw [if_neg (by omega), readExact, if_pos (by omega), Option.some_inj, List.rtake]
    have hstart : content.length - min content.length tailBytes = content.length - tailBytes := by
      omega
    have hend : content.drop (content.length - tailBytes) =
        (file.take content.length).drop (content.length - tailBytes) := by rw [← hcontent]
    rw [hstart, hend, List.drop_take]
    congr 1
    omega

/-- The summary of a process whose streams hold `content`, of which the tails keep the
last `tailLimit` bytes. -/
def summaryOf (content : OutputStream → Bytes) (tailLimit : ℕ) (processId : Uuid) (eventId : ℕ) :
    ProcessSummary where
  processId := processId
  eventId := eventId
  stdoutBytes := (content .stdout).length
  stderrBytes := (content .stderr).length
  stdoutTail := (content .stdout).rtake tailLimit
  stderrTail := (content .stderr).rtake tailLimit
  stdoutTruncated := tailLimit < (content .stdout).length
  stderrTruncated := tailLimit < (content .stderr).length

theorem truncated_eq (content : Bytes) (tailLimit : ℕ) :
    decide (content.length > (content.rtake tailLimit).length) =
      decide (tailLimit < content.length) := by
  rw [decide_eq_decide, List.rtake, List.length_drop]
  omega

/-- For every limit, every content and every way to cut it into chunks, both summaries are the same:
the byte counts, the last bytes of each stream up to the limit, and a flag exactly where bytes are
missing. -/
theorem streamed_and_persisted_summaries_agree (tailLimit : ℕ) (chunks : OutputChunks)
    (log : OutputStream → Bytes) (record : ProcessRecord) (processId : Uuid) (eventId : ℕ)
    (hsize : ∀ stream, (chunks.content stream).length ≤ usizeMax)
    (hlog : ∀ stream, chunks.content stream <+: log stream)
    (hrecord : ∀ stream, record.bytes stream = (chunks.content stream).length) :
    (ProcessSummaryAccumulator.pushAll tailLimit chunks).intoResponse processId eventId =
        summaryOf chunks.content tailLimit processId eventId ∧
      persistedProcessSummary log record tailLimit processId eventId =
        some (summaryOf chunks.content tailLimit processId eventId) := by
  constructor
  · have hpushed := (ProcessSummaryAccumulator.summarizes_new tailLimit).pushAll chunks hsize
    have hout := hpushed.bytes .stdout
    have herr := hpushed.bytes .stderr
    have houtTail := hpushed.tail .stdout
    have herrTail := hpushed.tail .stderr
    simp only [ProcessSummaryAccumulator.bytes, ProcessSummaryAccumulator.tail, List.nil_append]
      at hout herr houtTail herrTail
    simp only [ProcessSummaryAccumulator.pushAll, ProcessSummaryAccumulator.intoResponse, summaryOf,
      hout, herr, houtTail, herrTail, truncated_eq]
  · have hout := hrecord .stdout
    have herr := hrecord .stderr
    simp only [ProcessRecord.bytes] at hout herr
    simp only [persistedProcessSummary, hout, herr, readPersistedProcessTail_eq (hlog .stdout),
      readPersistedProcessTail_eq (hlog .stderr), summaryOf, truncated_eq, bind, Option.bind_some,
      pure]

/-- Two chunks around one of the other stream, of which the tail keeps four bytes. -/
theorem interleaved_chunks_agree :
    persistedProcessSummary (fun stream => OutputChunks.content
        [(.stdout, [1, 2, 3]), (.stderr, [9]), (.stdout, [4, 5])] stream)
        ⟨"c", true, none, none, none, none, 5, 1⟩ 4 7 19 =
      some ((ProcessSummaryAccumulator.pushAll 4
        [(.stdout, [1, 2, 3]), (.stderr, [9]), (.stdout, [4, 5])]).intoResponse 7 19) := by
  obtain ⟨hstreamed, hpersisted⟩ := streamed_and_persisted_summaries_agree 4
    [(.stdout, [1, 2, 3]), (.stderr, [9]), (.stdout, [4, 5])]
    (fun stream => OutputChunks.content
      [(.stdout, [1, 2, 3]), (.stderr, [9]), (.stdout, [4, 5])] stream)
    ⟨"c", true, none, none, none, none, 5, 1⟩ 7 19
    (fun stream => by cases stream <;> decide) (fun stream => List.prefix_rfl)
    (fun stream => by cases stream <;> rfl)
  rw [hstreamed, hpersisted]

end Asp
