import Asp.Proofs.PtySteps

/-! The reliable stream of a PTY attachment: if the subscription starts right behind the
snapshot and the receiver keeps up, the chunks on the stream are those of the reader. -/

namespace Asp

variable {τ : Type} {T : Terminal τ} {encoding : PtyEncoding} {sessionId : Uuid}
  {features : PtyFeatures}

/-- The generation that a stream is at behind the frames. -/
def streamAt : Option ℕ → List PtyFrame → Option ℕ
  | next, [] => next
  | _, .ready snapshot :: frames => streamAt (some snapshot.generation) frames
  | _, .readyRich snapshot :: frames => streamAt (some snapshot.generation) frames
  | next, .readyScrollback .. :: frames => streamAt next frames
  | next, .output .. :: frames => streamAt (next.map (· + 1)) frames

theorem streamAt_append (next : Option ℕ) (frames more : List PtyFrame) :
    streamAt next (frames ++ more) = streamAt (streamAt next frames) more := by
  induction frames generalizing next with
  | nil => rfl
  | cons frame frames ih =>
    cases frame with
    | ready snapshot => exact ih _
    | readyRich snapshot => exact ih _
    | readyScrollback => exact ih _
    | output => exact ih _

section Follows

variable {base : ℕ} {chunks : List Bytes}

theorem ptyFollows_append (next : Option ℕ) (frames more : List PtyFrame) :
    PtyFollows base chunks next (frames ++ more) ↔
      PtyFollows base chunks next frames ∧ PtyFollows base chunks (streamAt next frames) more := by
  induction frames generalizing next with
  | nil => simp only [List.nil_append, PtyFollows, streamAt, true_and]
  | cons frame frames ih =>
    cases frame with
    | ready snapshot => exact ih _
    | readyRich snapshot => exact ih _
    | readyScrollback => exact ih _
    | output generation data =>
      cases next with
      | none => simp only [List.cons_append, PtyFollows, false_and]
      | some at' =>
        simp only [List.cons_append, PtyFollows, streamAt, Option.map_some]
        rw [ih, and_assoc]

theorem PtyFollows.mono {next : Option ℕ} {frames : List PtyFrame}
    (h : PtyFollows base chunks next frames) (more : List Bytes) :
    PtyFollows base (chunks ++ more) next frames := by
  induction frames generalizing next with
  | nil => trivial
  | cons frame frames ih =>
    cases frame with
    | ready snapshot => exact ih h
    | readyRich snapshot => exact ih h
    | readyScrollback => exact ih h
    | output generation data =>
      cases next with
      | none => exact h
      | some at' =>
        obtain ⟨hchunk, hrest⟩ := h
        refine ⟨?_, ih hrest⟩
        obtain ⟨hlt, -⟩ := List.getElem?_eq_some_iff.mp hchunk
        rwa [List.getElem?_append_left hlt]

end Follows

/-- Where the stream and the receiver are in each phase. -/
def PtyPhase.At (base : ℕ) (output : List Bytes) (position : ℕ) (next : Option ℕ) : PtyPhase → Prop
  | .closed | .opened => True
  | .snapshotted generation _ _ _ => next = some generation
  | .live => next = some (base + position) ∧ position ≤ output.length
  | .received data => ∃ n, position = n + 1 ∧ next = some (base + n) ∧ output[n]? = some data
  | .lagged => False

theorem PtyPhase.At.send {base position : ℕ} {output : List Bytes} {next : Option ℕ}
    {phase : PtyPhase} (h : phase.At base output position next) (chunk : Bytes) :
    phase.At base (output ++ [chunk]) position next := by
  cases phase with
  | live =>
    refine ⟨h.1, h.2.trans ?_⟩
    rw [List.length_append]
    exact Nat.le_add_right _ _
  | received data =>
    obtain ⟨n, hposition, hnext, hchunk⟩ := h
    refine ⟨n, hposition, hnext, ?_⟩
    obtain ⟨hlt, -⟩ := List.getElem?_eq_some_iff.mp hchunk
    rwa [List.getElem?_append_left hlt]
  | _ => exact h

namespace PtyWorld

structure Following (base : ℕ) (w : PtyWorld τ) : Prop where
  generation : w.pty.generation = base + w.chunks.length
  chunks : w.chunks = w.output ++ w.reader.toList
  follows : PtyFollows base w.chunks none w.attachment.written
  phase : w.attachment.phase.At base w.output w.attachment.position
    (streamAt none w.attachment.written)

variable {base : ℕ} {w w' : PtyWorld τ}

theorem following_spawned (T : Terminal τ) (rows cols base : ℕ) :
    (spawned T rows cols base).Following base :=
  ⟨rfl, rfl, trivial, trivial⟩

theorem Following.writeReady (h : w.Following base) {phase : ℕ → ℕ → ℕ → PtyPhase}
    (hphase : ∀ generation rows cols, (phase generation rows cols).At base w.output
      w.attachment.position (some generation)) :
    (w.writeReady T features phase).Following base := by
  unfold PtyWorld.writeReady
  split_ifs
  · refine ⟨(PtyState.richSnapshot_generation _).trans h.generation, h.chunks, ?_, ?_⟩
    · exact (ptyFollows_append ..).mpr ⟨h.follows, trivial⟩
    · rw [streamAt_append]
      exact hphase _ _ _
  · refine ⟨(PtyState.snapshot_generation _).trans h.generation, h.chunks, ?_, ?_⟩
    · exact (ptyFollows_append ..).mpr ⟨h.follows, trivial⟩
    · rw [streamAt_append]
      exact hphase _ _ _

theorem Following.writeOutput (h : w.Following base) {data : Bytes}
    (hphase : w.attachment.phase = .received data) (generation : ℕ) :
    PtyFollows base w.chunks none (w.attachment.written ++ [.output generation data]) ∧
      PtyPhase.live.At base w.output w.attachment.position
        (streamAt none (w.attachment.written ++ [.output generation data])) := by
  have hreceived := h.phase
  rw [hphase] at hreceived
  obtain ⟨n, hposition, hnext, hdata⟩ := hreceived
  obtain ⟨hlt, -⟩ := List.getElem?_eq_some_iff.mp hdata
  rw [ptyFollows_append, streamAt_append, hnext, hposition]
  refine ⟨⟨h.follows, ?_, trivial⟩, rfl, hlt⟩
  rwa [Nat.add_sub_cancel_left, h.chunks, List.getElem?_append_left hlt]

theorem Following.same (h : w.Following base) (hgeneration : w'.pty.generation = w.pty.generation)
    (hchunks : w'.chunks = w.chunks) (hreader : w'.reader = w.reader) (houtput : w'.output = w.output)
    (hwritten : w'.attachment.written = w.attachment.written)
    (hposition : w'.attachment.position = w.attachment.position)
    (hphase : w'.attachment.phase = w.attachment.phase) : w'.Following base := by
  refine ⟨?_, ?_, ?_, ?_⟩
  · rw [hgeneration, hchunks]
    exact h.generation
  · rw [hchunks, houtput, hreader]
    exact h.chunks
  · rw [hchunks, hwritten]
    exact h.follows
  · rw [hphase, houtput, hposition, hwritten]
    exact h.phase

theorem Following.act {action : PtyAction} (h : w.Following base) (hguard : w.InStep base action)
    (hact : w.act T encoding sessionId features action = some w') : w'.Following base := by
  have hat := h.phase
  cases step_of_act hact with
  | process chunk hreader =>
    have hchunks := h.chunks
    rw [hreader, Option.toList_none, List.append_nil] at hchunks
    refine ⟨?_, ?_, h.follows.mono [chunk], h.phase⟩
    · simp only [PtyState.process, List.length_append, List.length_singleton, h.generation]
      omega
    · simp only [hchunks, Option.toList_some]
  | send hreader =>
    refine ⟨h.generation, ?_, h.follows, h.phase.send _⟩
    have hchunks := h.chunks
    rw [hreader, Option.toList_some] at hchunks
    simp only [hchunks, Option.toList_none, List.append_nil]
  | resize rows cols => exact h.same rfl rfl rfl rfl rfl rfl rfl
  | openPty rows cols hphase => exact ⟨h.generation, h.chunks, h.follows, trivial⟩
  | writeSnapshot hphase => exact h.writeReady fun _ _ _ => rfl
  | writeScrollback lines hphase =>
    rw [hphase] at hat
    refine ⟨h.generation, h.chunks, (ptyFollows_append ..).mpr ⟨h.follows, trivial⟩, ?_⟩
    rwa [streamAt_append]
  | subscribe hphase =>
    rw [hphase] at hat
    -- the snapshot has exactly the chunks that went through the channel
    rw [hguard.1 rfl _ _ _ hphase] at hat
    exact ⟨h.generation, h.chunks, h.follows, hat, le_rfl⟩
  | received hphase hkeeps hdata =>
    rw [hphase] at hat
    exact ⟨h.generation, h.chunks, h.follows, w.attachment.position, rfl, hat.1, hdata⟩
  | lagged hphase hlag => exact absurd hlag (hguard.2 rfl)
  | writeOutput hphase =>
    obtain ⟨hfollows, hlive⟩ := h.writeOutput hphase w.pty.generation
    exact ⟨h.generation, h.chunks, hfollows, hlive⟩
  | writeLagSnapshot hphase hready =>
    rw [hphase] at hat
    exact hat.elim
  | resizeRequest rows cols hphase => exact h.same rfl rfl rfl rfl rfl rfl hphase.symm
  | tick link hphase hpending =>
    subst hpending
    obtain ⟨pty, state, datagrams, published, heq, hgeneration⟩ := sendState_same _ link
    rw [heq]
    exact h.same hgeneration rfl rfl rfl rfl rfl hphase.symm
  | idleTick link hphase => exact h
  | readFrame hframe => exact h.same rfl rfl rfl rfl rfl rfl rfl
  | readDatagram i hdatagram hclient => exact h.same rfl rfl rfl rfl rfl rfl rfl

end PtyWorld

/-- The chunks after each snapshot on the stream are those that the reader put on the screen after
it, one by one, as long as the subscription finds the channel where the snapshot was and the
receiver keeps up. -/
theorem pty_stream_follows_the_reader (T : Terminal τ) (encoding : PtyEncoding) (sessionId : Uuid)
    (features : PtyFeatures) (rows cols base : ℕ) {w : PtyWorld τ}
    (hrun : (ptyMachine T encoding sessionId features).Reaches (PtyWorld.InStep base)
      (PtyWorld.spawned T rows cols base) w) :
    w.pty.generation = base + w.chunks.length ∧
      PtyFollows base w.chunks none w.attachment.written := by
  have hfollowing : w.Following base :=
    hrun.invariant (PtyWorld.following_spawned T rows cols base)
      fun _ _ _ hguard hact h => h.act hguard hact
  exact ⟨hfollowing.generation, hfollowing.follows⟩

section Examples

def blankTerminal : Terminal Unit where
  new _ _ := ()
  process _ _ := ()
  setSize _ _ _ := ()
  size _ := (1, 1)
  rows _ := [""]
  cursorPosition _ := (0, 0)
  contentsFormatted _ := []
  rows_length _ := rfl
  size_lt _ := by decide

def plainFeatures : PtyFeatures := ⟨false, false, false⟩

def noEncoding : PtyEncoding := ⟨fun _ => none, fun _ => none⟩

def inStepCheck (w : PtyWorld Unit) : PtyAction → Bool
  | .subscribe => w.attachment.phase = .snapshotted w.output.length 1 1 false
  | .recv => ¬ Broadcast.Lagging ptyOutputCapacity w.output w.attachment.position
  | _ => true

theorem inStep_of_check (w : PtyWorld Unit) (action : PtyAction)
    (h : inStepCheck w action = true) : w.InStep 0 action := by
  refine ⟨?_, ?_⟩
  · rintro rfl generation rows cols hphase
    have hnow := of_decide_eq_true h
    rw [hphase] at hnow
    rw [Nat.zero_add]
    exact (PtyPhase.snapshotted.inj hnow).1
  · rintro rfl
    exact of_decide_eq_true h

def blankSnapshot (generation : ℕ) (tail : Bytes) : PtySnapshot :=
  ⟨generation, 1, 1, [""], 0, 0, tail⟩

def quietAttach : List PtyAction :=
  [.process [7], .send, .openPty 1 1, .writeSnapshot, .subscribe, .process [8], .send, .recv,
    .writeOutput]

theorem second_chunk_follows :
    PtyFollows 0 [[7], [8]] none [.ready (blankSnapshot 1 [7]), .output 2 [8]] := by
  have hrun : ((ptyMachine blankTerminal noEncoding 0 plainFeatures).runWith inStepCheck quietAttach
      (PtyWorld.spawned blankTerminal 1 1 0)).any (fun w => decide (w.chunks = [[7], [8]] ∧
        w.attachment.written = [.ready (blankSnapshot 1 [7]), .output 2 [8]])) = true := by decide
  obtain ⟨w, hreach, hstate⟩ := Steps.Machine.exists_reaches _ inStep_of_check hrun
  obtain ⟨hchunks, hwritten⟩ := of_decide_eq_true hstate
  rw [← hchunks, ← hwritten]
  exact (pty_stream_follows_the_reader blankTerminal noEncoding 0 plainFeatures 1 1 0 hreach).2

def lossyAttach : List PtyAction :=
  [.openPty 1 1, .writeSnapshot, .process [7], .send, .subscribe, .process [8], .send, .recv,
    .writeOutput]

/-- The reader has put a chunk on the screen and not yet into the channel. -/
def repeatingAttach : List PtyAction :=
  [.process [7], .openPty 1 1, .writeSnapshot, .subscribe, .send, .recv, .writeOutput]

theorem exists_stream (actions : List PtyAction) {chunks : List Bytes} {written : List PtyFrame}
    (hrun : ((ptyMachine blankTerminal noEncoding 0 plainFeatures).runWith (fun _ _ => true) actions
      (PtyWorld.spawned blankTerminal 1 1 0)).any (fun w =>
        decide (w.chunks = chunks ∧ w.attachment.written = written)) = true)
    (hnot : ¬ PtyFollows 0 chunks none written) :
    ∃ w, (ptyMachine blankTerminal noEncoding 0 plainFeatures).Reaches (fun _ _ => True)
        (PtyWorld.spawned blankTerminal 1 1 0) w ∧ w.chunks = chunks ∧
      w.attachment.written = written ∧ ¬ PtyFollows 0 w.chunks none w.attachment.written := by
  obtain ⟨w, hreach, hstate⟩ := Steps.Machine.exists_reaches _ (fun _ _ _ => trivial) hrun
  obtain ⟨rfl, rfl⟩ := of_decide_eq_true hstate
  exact ⟨w, hreach, rfl, rfl, hnot⟩

/-- A chunk that comes between the snapshot and the subscription is lost, and one that is
sent after the subscription for a screen that the snapshot has is repeated. -/
theorem attachment_loses_and_repeats_chunks :
    (∃ w, (ptyMachine blankTerminal noEncoding 0 plainFeatures).Reaches (fun _ _ => True)
        (PtyWorld.spawned blankTerminal 1 1 0) w ∧ w.chunks = [[7], [8]] ∧
      w.attachment.written = [.ready (blankSnapshot 0 []), .output 2 [8]] ∧
      ¬ PtyFollows 0 w.chunks none w.attachment.written) ∧
    ∃ w, (ptyMachine blankTerminal noEncoding 0 plainFeatures).Reaches (fun _ _ => True)
        (PtyWorld.spawned blankTerminal 1 1 0) w ∧ w.chunks = [[7]] ∧
      w.attachment.written = [.ready (blankSnapshot 1 [7]), .output 1 [7]] ∧
      ¬ PtyFollows 0 w.chunks none w.attachment.written := by
  constructor
  · refine exists_stream lossyAttach (by decide) fun h => ?_
    exact absurd h.1 (by decide)
  · refine exists_stream repeatingAttach (by decide) fun h => ?_
    exact absurd h.1 (by decide)

end Examples

end Asp
