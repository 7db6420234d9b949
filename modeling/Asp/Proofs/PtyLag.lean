import Asp.Proofs.PtyCheckpoint
import Asp.Proofs.PtyStream
import Asp.Spec.PtyReceipts

/-! Snapshots that a PTY attachment writes after its receiver has fallen behind. An output frame has
the generation of the screen and not that of its chunk; while the screen is not further ahead than
the channel reaches, this does no harm. -/

namespace Asp

variable {τ : Type} {T : Terminal τ} {encoding : PtyEncoding} {sessionId : Uuid}
  {features : PtyFeatures}

variable {frame : PtyFrame}

def PtyFrame.tag : PtyFrame → Option ℕ
  | .output generation _ => some generation
  | _ => none

def outputTags (frames : List PtyFrame) : List ℕ := frames.filterMap (·.tag)

/-- Every snapshot is newer than the output frames in front of it. -/
def SnapshotsAbove (frames : List PtyFrame) : Prop :=
  ∀ i frame generation, frames[i]? = some frame → frame.snapshotGeneration = some generation →
    ∀ tag ∈ outputTags (frames.take i), tag < generation

theorem mem_outputTags_concat {frames : List PtyFrame} {tag : ℕ} :
    tag ∈ outputTags (frames ++ [frame]) ↔ tag ∈ outputTags frames ∨ frame.tag = some tag := by
  simp only [outputTags, List.filterMap_append, List.mem_append, List.mem_filterMap,
    List.mem_singleton, exists_eq_left]

theorem SnapshotsAbove.concat {frames : List PtyFrame} (h : SnapshotsAbove frames)
    (hframe : ∀ generation, frame.snapshotGeneration = some generation →
      ∀ tag ∈ outputTags frames, tag < generation) : SnapshotsAbove (frames ++ [frame]) := by
  intro i other generation hget hgeneration
  rcases Nat.lt_or_ge i frames.length with hlt | hge
  · rw [List.getElem?_append_left hlt] at hget
    rw [List.take_append_of_le_length hlt.le]
    exact h i other generation hget hgeneration
  · rw [List.getElem?_append_right hge] at hget
    have hzero : i - frames.length = 0 := by
      by_contra hpos
      rw [List.getElem?_singleton, if_neg hpos] at hget
      cases hget
    rw [hzero] at hget
    cases hget
    rw [List.take_append_of_le_length (by omega), List.take_of_length_le hge]
    exact hframe generation hgeneration

structure PtyState.Dated (s : PtyState τ) : Prop where
  plain : ∀ snapshot ∈ s.snapshotCache, snapshot.generation = s.generation
  rich : ∀ snapshot ∈ s.richSnapshotCache, snapshot.generation = s.generation

namespace PtyState

variable {s : PtyState τ}

theorem dated_none (hplain : s.snapshotCache = none) (hrich : s.richSnapshotCache = none) :
    s.Dated := by
  refine ⟨fun snapshot hsnapshot => ?_, fun snapshot hsnapshot => ?_⟩
  · rw [hplain] at hsnapshot
    cases hsnapshot
  · rw [hrich] at hsnapshot
    cases hsnapshot

theorem Dated.snapshot_generation (h : s.Dated) (T : Terminal τ) :
    (s.snapshot T).1.generation = s.generation := by
  unfold PtyState.snapshot
  split
  · rename_i snapshot hcache
    exact h.plain snapshot hcache
  · rfl

theorem Dated.richSnapshot_generation (h : s.Dated) (T : Terminal τ) :
    (s.richSnapshot T).1.generation = s.generation := by
  unfold PtyState.richSnapshot
  split
  · rename_i snapshot hcache
    exact h.rich snapshot hcache
  · rfl

theorem Dated.snapshot (h : s.Dated) (T : Terminal τ) : (s.snapshot T).2.Dated := by
  unfold PtyState.snapshot
  split
  · exact h
  · refine ⟨fun snapshot hsnapshot => ?_, h.rich⟩
    rw [← Option.some.inj hsnapshot]
    rfl

theorem Dated.richSnapshot (h : s.Dated) (T : Terminal τ) : (s.richSnapshot T).2.Dated := by
  unfold PtyState.richSnapshot
  split
  · exact h
  · refine ⟨h.plain, fun snapshot hsnapshot => ?_⟩
    rw [← Option.some.inj hsnapshot]
    rfl

end PtyState

namespace PtyWorld

variable {base : ℕ} {w w' : PtyWorld τ}

variable {action : PtyAction}

theorem dated_act (h : w.pty.Dated)
    (hact : w.act T encoding sessionId features action = some w') : w'.pty.Dated := by
  rcases act_pty hact with hsame | ⟨hplain, hrich⟩ | hplain | hrich
  · rwa [hsame]
  · exact PtyState.dated_none hplain hrich
  · rw [hplain]
    exact h.snapshot T
  · rw [hrich]
    exact h.richSnapshot T

/-- What the generations on the stream have to do with the chunks. -/
structure Tagged (base : ℕ) (w : PtyWorld τ) : Prop where
  dated : w.pty.Dated
  generation : w.pty.generation = base + w.chunks.length
  chunks : w.chunks = w.output ++ w.reader.toList
  position : w.attachment.position ≤ w.output.length
  tags : ∀ tag ∈ outputTags w.attachment.written,
    tag ≤ base + w.attachment.position + ptyOutputCapacity
  lagged : w.attachment.phase = .lagged →
    ∀ tag ∈ outputTags w.attachment.written, tag < w.pty.generation
  unopened : w.attachment.phase = .closed ∨ w.attachment.phase = .opened →
    w.attachment.written = []
  above : SnapshotsAbove w.attachment.written

theorem tagged_spawned (T : Terminal τ) (rows cols base : ℕ) :
    (spawned T rows cols base).Tagged base := by
  refine ⟨PtyState.dated_none rfl rfl, rfl, rfl, le_rfl, ?_, ?_, fun _ => rfl, ?_⟩
  · intro tag htag
    cases htag
  · intro hphase
    cases hphase
  · intro i frame generation hget
    cases hget

section

variable (h : w.Tagged base)

include h

theorem Tagged.same (hdated : w'.pty.Dated) (hgeneration : w'.pty.generation = w.pty.generation)
    (hchunks : w'.chunks = w.chunks) (hreader : w'.reader = w.reader)
    (houtput : w'.output = w.output) (hwritten : w'.attachment.written = w.attachment.written)
    (hposition : w'.attachment.position = w.attachment.position)
    (hphase : w'.attachment.phase = w.attachment.phase) : w'.Tagged base := by
  refine ⟨hdated, ?_, ?_, ?_, ?_, ?_, ?_, ?_⟩
  · rw [hgeneration, hchunks]
    exact h.generation
  · rw [hchunks, houtput, hreader]
    exact h.chunks
  · rw [hposition, houtput]
    exact h.position
  · rw [hwritten, hposition]
    exact h.tags
  · rw [hphase, hwritten, hgeneration]
    exact h.lagged
  · rw [hphase, hwritten]
    exact h.unopened
  · rw [hwritten]
    exact h.above

theorem Tagged.write {phase : PtyPhase} {pty : PtyState τ} (hdated : pty.Dated)
    (hgeneration : pty.generation = w.pty.generation)
    (hphase : phase ≠ .lagged ∧ phase ≠ .closed ∧ phase ≠ .opened) (htag : frame.tag = none)
    (hnewer : ∀ generation, frame.snapshotGeneration = some generation →
      ∀ tag ∈ outputTags w.attachment.written, tag < generation) (hpty : w'.pty = pty)
    (hchunks : w'.chunks = w.chunks) (hreader : w'.reader = w.reader)
    (houtput : w'.output = w.output)
    (hwritten : w'.attachment.written = w.attachment.written ++ [frame])
    (hposition : w'.attachment.position = w.attachment.position)
    (hphase' : w'.attachment.phase = phase) : w'.Tagged base := by
  have htags : ∀ tag, tag ∈ outputTags w'.attachment.written → tag ∈ outputTags w.attachment.written := by
    intro tag hmem
    rw [hwritten, mem_outputTags_concat, htag] at hmem
    exact hmem.resolve_right fun hnone => by cases hnone
  refine ⟨hpty ▸ hdated, ?_, ?_, ?_, ?_, ?_, ?_, ?_⟩
  · rw [hpty, hgeneration, hchunks]
    exact h.generation
  · rw [hchunks, houtput, hreader]
    exact h.chunks
  · rw [hposition, houtput]
    exact h.position
  · intro tag hmem
    rw [hposition]
    exact h.tags tag (htags tag hmem)
  · intro hlagged
    exact absurd (hphase'.symm.trans hlagged) hphase.1
  · intro hunopened
    rw [hphase'] at hunopened
    exact absurd hunopened (not_or.mpr hphase.2)
  · rw [hwritten]
    exact h.above.concat hnewer

theorem Tagged.writeReady {phase : ℕ → ℕ → ℕ → PtyPhase}
    (hphase : ∀ generation rows cols, phase generation rows cols ≠ .lagged ∧
      phase generation rows cols ≠ .closed ∧ phase generation rows cols ≠ .opened)
    (hnewer : ∀ tag ∈ outputTags w.attachment.written, tag < w.pty.generation) :
    (w.writeReady T features phase).Tagged base := by
  unfold PtyWorld.writeReady
  split_ifs
  · refine h.write (h.dated.richSnapshot T) (PtyState.richSnapshot_generation _) (hphase _ _ _) rfl
      ?_ rfl rfl rfl rfl rfl rfl rfl
    intro generation hgeneration
    rwa [← Option.some.inj hgeneration, h.dated.richSnapshot_generation]
  · refine h.write (h.dated.snapshot T) (PtyState.snapshot_generation _) (hphase _ _ _) rfl
      ?_ rfl rfl rfl rfl rfl rfl rfl
    intro generation hgeneration
    rwa [← Option.some.inj hgeneration, h.dated.snapshot_generation]

theorem Tagged.moved {phase : PtyPhase} {position : ℕ} (hle : w.attachment.position ≤ position)
    (hlength : position ≤ w.output.length) (hunopened : phase ≠ .closed ∧ phase ≠ .opened)
    (hlagged : phase = .lagged → ∀ tag ∈ outputTags w.attachment.written, tag < w.pty.generation) :
    Tagged base { w with
      attachment := { w.attachment with phase := phase, position := position } } := by
  refine ⟨h.dated, h.generation, h.chunks, hlength, ?_, hlagged, ?_, h.above⟩
  · intro tag htag
    have hbound := h.tags tag htag
    dsimp only
    omega
  · intro hphase
    exact absurd hphase (not_or.mpr hunopened)

theorem Tagged.writeOutput (data : Bytes)
    (hkeeps : w.chunks.length ≤ w.attachment.position + ptyOutputCapacity) :
    Tagged base { w with
      attachment := { w.attachment with
        phase := .live
        datagramPending := true
        written := w.attachment.written ++ [.output w.pty.generation data] } } := by
  refine ⟨h.dated, h.generation, h.chunks, h.position, ?_, ?_, ?_, h.above.concat ?_⟩
  · intro tag htag
    rcases mem_outputTags_concat.mp htag with hold | hnew
    · exact h.tags tag hold
    · rw [← Option.some.inj hnew, h.generation]
      dsimp only
      omega
  · intro hphase
    cases hphase
  · rintro (hphase | hphase)
    · cases hphase
    · cases hphase
  · intro generation hgeneration
    cases hgeneration

theorem Tagged.act (hguard : action = .writeOutput →
      w.chunks.length ≤ w.attachment.position + ptyOutputCapacity)
    (hact : w.act T encoding sessionId features action = some w') : w'.Tagged base := by
  have hdated := dated_act h.dated hact
  cases step_of_act hact with
  | process chunk hreader =>
    have hchunks := h.chunks
    rw [hreader, Option.toList_none, List.append_nil] at hchunks
    refine ⟨hdated, ?_, ?_, h.position, h.tags, ?_, h.unopened, h.above⟩
    · simp only [PtyState.process, List.length_append, List.length_singleton, h.generation]
      omega
    · simp only [hchunks, Option.toList_some]
    · intro hlagged tag htag
      exact (h.lagged hlagged tag htag).trans (Nat.lt_succ_self _)
  | send hreader =>
    refine ⟨hdated, h.generation, ?_, ?_, h.tags, h.lagged, h.unopened, h.above⟩
    · have hchunks := h.chunks
      rw [hreader, Option.toList_some] at hchunks
      simp only [hchunks, Option.toList_none, List.append_nil]
    · rw [List.length_append]
      exact h.position.trans (Nat.le_add_right _ _)
  | resize rows cols => exact h.same hdated rfl rfl rfl rfl rfl rfl rfl
  | openPty rows cols hphase =>
    refine ⟨hdated, h.generation, h.chunks, h.position, h.tags, ?_, ?_, h.above⟩
    · intro hlagged
      cases hlagged
    · exact fun _ => h.unopened (.inl hphase)
  | writeSnapshot hphase =>
    refine h.writeReady (fun _ _ _ =>
      ⟨PtyPhase.noConfusion, PtyPhase.noConfusion, PtyPhase.noConfusion⟩) fun tag htag => ?_
    rw [h.unopened (.inr hphase)] at htag
    cases htag
  | writeScrollback lines hphase =>
    refine h.write h.dated rfl
      ⟨PtyPhase.noConfusion, PtyPhase.noConfusion, PtyPhase.noConfusion⟩ rfl ?_
      rfl rfl rfl rfl rfl rfl rfl
    intro generation hgeneration
    cases hgeneration
  | subscribe hphase =>
    refine h.moved h.position le_rfl ⟨PtyPhase.noConfusion, PtyPhase.noConfusion⟩ ?_
    intro hlagged
    cases hlagged
  | received hphase hkeeps hdata =>
    obtain ⟨hlt, -⟩ := List.getElem?_eq_some_iff.mp hdata
    refine h.moved (Nat.le_succ _) hlt ⟨PtyPhase.noConfusion, PtyPhase.noConfusion⟩ ?_
    intro hlagged
    cases hlagged
  | lagged hphase hlag =>
    have hbehind : w.attachment.position + ptyOutputCapacity < w.output.length := hlag
    refine h.moved (by omega) (Nat.sub_le _ _) ⟨PtyPhase.noConfusion, PtyPhase.noConfusion⟩ ?_
    -- the output on the stream does not reach to the end of the channel
    intro _ tag htag
    have hbound := h.tags tag htag
    rw [h.generation, h.chunks, List.length_append]
    omega
  | writeOutput hphase => exact h.writeOutput _ (hguard rfl)
  | writeLagSnapshot hphase hready =>
    subst hready
    have htagged : (w.writeReady T features fun _ _ _ => .live).Tagged base :=
      h.writeReady (fun _ _ _ =>
        ⟨PtyPhase.noConfusion, PtyPhase.noConfusion, PtyPhase.noConfusion⟩) (h.lagged hphase)
    exact htagged.same htagged.dated rfl rfl rfl rfl rfl rfl rfl
  | resizeRequest rows cols hphase => exact h.same hdated rfl rfl rfl rfl rfl rfl hphase.symm
  | tick link hphase hpending =>
    subst hpending
    obtain ⟨pty, state, datagrams, published, heq, hgeneration⟩ := sendState_same _ link
    rw [heq] at hdated ⊢
    exact h.same hdated hgeneration rfl rfl rfl rfl rfl hphase.symm
  | idleTick link hphase => exact h
  | readFrame hframe => exact h.same hdated rfl rfl rfl rfl rfl rfl rfl
  | readDatagram i hdatagram hclient => exact h.same hdated rfl rfl rfl rfl rfl rfl rfl

end

theorem act_client (hact : w.act T encoding sessionId features action = some w') :
    w.attachment.written <+: w'.attachment.written ∧
    ((w'.client = w.client ∧ w'.read = w.read) ∨
      (∃ frame, action = .readFrame ∧ w.attachment.written[w.read]? = some frame ∧
        w'.client = readPtyFrame w.client frame ∧ w'.read = w.read + 1) ∨
      ∃ i datagram client, action = .readDatagram i ∧ w.datagrams[i]? = some datagram ∧
        w.client = some client ∧ w'.client = some (client.readDatagram sessionId datagram) ∧
        w'.read = w.read) := by
  have hready (phase : ℕ → ℕ → ℕ → PtyPhase) :
      w.attachment.written <+: (w.writeReady T features phase).attachment.written ∧
        (w.writeReady T features phase).client = w.client ∧
        (w.writeReady T features phase).read = w.read := by
    unfold writeReady
    split_ifs
    · exact ⟨List.prefix_append _ _, rfl, rfl⟩
    · exact ⟨List.prefix_append _ _, rfl, rfl⟩
  cases step_of_act hact with
  | writeSnapshot hphase => exact ⟨(hready _).1, .inl (hready _).2⟩
  | writeScrollback | writeOutput => exact ⟨List.prefix_append _ _, .inl ⟨rfl, rfl⟩⟩
  | writeLagSnapshot hphase hw =>
    rw [hw]
    exact ⟨(hready _).1, .inl (hready _).2⟩
  | tick link hphase hpending =>
    subst hpending
    obtain ⟨pty, state, datagrams, published, heq, -⟩ := sendState_same _ link
    rw [heq]
    exact ⟨List.prefix_rfl, .inl ⟨rfl, rfl⟩⟩
  | readFrame hframe => exact ⟨List.prefix_rfl, .inr (.inl ⟨_, rfl, hframe, rfl, rfl⟩)⟩
  | readDatagram i hdatagram hclient =>
    exact ⟨List.prefix_rfl, .inr (.inr ⟨i, _, _, rfl, hdatagram, hclient, rfl, rfl⟩)⟩
  | _ => exact ⟨List.prefix_rfl, .inl ⟨rfl, rfl⟩⟩

end PtyWorld

section

variable (client : PtyClient) (candidate : ℕ)

theorem PtyClient.newest_replaceIfNewer (screen : Option PlainPtyScreenState) :
    (client.replaceIfNewer candidate screen).newestGeneration = client.newestGeneration ∨
      (client.newestGeneration < candidate ∧
        (client.replaceIfNewer candidate screen).newestGeneration = candidate) := by
  unfold replaceIfNewer recordPtyGeneration
  split_ifs with hold
  · exact .inl rfl
  · exact .inr ⟨Nat.lt_of_not_le hold, rfl⟩

theorem PtyClient.newest_recordPtyGeneration :
    (client.recordPtyGeneration candidate).1.newestGeneration = client.newestGeneration ∨
      (client.newestGeneration < candidate ∧
        (client.recordPtyGeneration candidate).1.newestGeneration = candidate) := by
  unfold recordPtyGeneration
  split_ifs with hold
  · exact .inl rfl
  · exact .inr ⟨Nat.lt_of_not_le hold, rfl⟩

theorem PtyClient.le_newest_recordPtyGeneration :
    candidate ≤ (client.recordPtyGeneration candidate).1.newestGeneration := by
  unfold recordPtyGeneration
  split_ifs with hold
  · exact hold
  · exact le_rfl

theorem PtyClient.le_newest_replaceIfNewer (screen : Option PlainPtyScreenState) :
    candidate ≤ (client.replaceIfNewer candidate screen).newestGeneration := by
  unfold replaceIfNewer recordPtyGeneration
  split_ifs with hold
  · exact hold
  · exact le_rfl

end

theorem PtyClient.newest_readDatagram (client : PtyClient) (datagram : PtyDatagram) :
    (client.readDatagram sessionId datagram).newestGeneration = client.newestGeneration ∨
      client.takes sessionId datagram =
        some (client.readDatagram sessionId datagram).newestGeneration := by
  cases datagram with
  | delta delta derivedFor =>
    unfold readDatagram
    dsimp only
    split_ifs with hgate
    · cases hscreen : client.plainScreenState with
      | none => exact .inl rfl
      | some screen =>
        cases happly : screen.applyDelta delta with
        | mk screen' changed =>
          cases changed with
          | none =>
            simp only [happly]
            exact .inl trivial
          | some changed =>
            have happlied : (client.plainScreenState.any fun screen =>
                (screen.applyDelta delta).2.isSome) = true := by
              rw [hscreen, Option.any_some, happly]
              rfl
            simp only [happly, Nat.max_eq_right hgate.2]
            exact .inr (if_pos ⟨hgate.1, hgate.2, happlied⟩)
    · exact .inl rfl
  | rich session snapshot =>
    unfold readDatagram
    dsimp only
    split_ifs with hsession
    · rcases client.newest_recordPtyGeneration snapshot.generation with hsame | ⟨hnewer, heq⟩
      · exact .inl hsame
      · rw [heq]
        exact .inr (if_pos ⟨hsession, hnewer⟩)
    · exact .inl rfl
  | full datagram =>
    unfold readDatagram
    dsimp only
    split_ifs with hsession
    · rcases client.newest_replaceIfNewer datagram.generation (some (.fromDatagram datagram)) with
        hsame | ⟨hnewer, heq⟩
      · exact .inl hsame
      · rw [heq]
        exact .inr (if_pos ⟨hsession, hnewer⟩)
    · exact .inl rfl

theorem newest_readPtyFrame {client : Option PtyClient} {client' : PtyClient}
    (h : readPtyFrame client frame = some client') :
    (∃ c, client = some c ∧ client'.newestGeneration = c.newestGeneration) ∨
      takesFrame client frame = some client'.newestGeneration ∨
      frame.tag = some client'.newestGeneration := by
  cases client with
  | none =>
    cases frame with
    | ready snapshot =>
      cases h
      exact .inr (.inl rfl)
    | readyRich snapshot =>
      cases h
      exact .inr (.inl rfl)
    | readyScrollback | output => cases h
  | some c =>
    have htaken {generation : ℕ} (hframe : frame.snapshotGeneration = some generation)
        (hnewer : c.newestGeneration < generation) : takesFrame (some c) frame = some generation := by
      rw [takesFrame, hframe, Option.filter_some, Option.all_some, if_pos (decide_eq_true hnewer)]
    cases frame with
    | ready snapshot =>
      cases h
      rcases c.newest_replaceIfNewer snapshot.generation (some (.fromSnapshot snapshot)) with
        hsame | ⟨hnewer, heq⟩
      · exact .inl ⟨c, rfl, hsame⟩
      · rw [heq]
        exact .inr (.inl (htaken rfl hnewer))
    | readyRich snapshot =>
      cases h
      rcases c.newest_replaceIfNewer snapshot.generation none with hsame | ⟨hnewer, heq⟩
      · exact .inl ⟨c, rfl, hsame⟩
      · rw [heq]
        exact .inr (.inl (htaken rfl hnewer))
    | readyScrollback =>
      obtain rfl := Option.some.inj h
      exact .inl ⟨c, rfl, rfl⟩
    | output generation data =>
      cases h
      rcases c.newest_recordPtyGeneration generation with hsame | ⟨-, heq⟩
      · exact .inl ⟨c, rfl, hsame⟩
      · rw [heq]
        exact .inr (.inr rfl)

namespace WatchedPty

variable {base : ℕ} {w w' : WatchedPty τ}

/-- The guard is at a state that was taken over, or at an output frame that was read. -/
def Guarded (w : WatchedPty τ) : Prop :=
  ∀ client, w.world.client = some client →
    client.newestGeneration ∈ w.states ∨
      client.newestGeneration ∈ outputTags (w.world.attachment.written.take w.world.read)

theorem mem_outputTags_take {frames more : List PtyFrame} (hle : frames <+: more) {n m : ℕ}
    (hn : n ≤ m) {tag : ℕ} (h : tag ∈ outputTags (frames.take n)) :
    tag ∈ outputTags (more.take m) := by
  obtain ⟨frame, hmem, htag⟩ := List.mem_filterMap.mp h
  refine List.mem_filterMap.mpr ⟨frame, ?_, htag⟩
  have hsub : frames.take n <+: more.take m :=
    (hle.take n).trans (List.take_prefix_take_left hn)
  exact hsub.subset hmem

theorem Guarded.act {action : PtyAction} (h : w.Guarded)
    (hact : w.act T encoding sessionId features action = some w') : w'.Guarded := by
  obtain ⟨world, hworld, rfl⟩ := Option.map_eq_some_iff.mp hact
  obtain ⟨hwritten, hclient⟩ := PtyWorld.act_client hworld
  -- what held the guard before still holds it
  have hkeep {newest : ℕ} (hread : w.world.read ≤ world.read)
      (hold : newest ∈ w.states ∨
        newest ∈ outputTags (w.world.attachment.written.take w.world.read)) :
      newest ∈ (stateTaken sessionId w.world action).toList ++ w.states ∨
        newest ∈ outputTags (world.attachment.written.take world.read) :=
    hold.imp (List.mem_append_right _) (mem_outputTags_take hwritten hread)
  intro client' hclient'
  rcases hclient with ⟨hsame, hread⟩ | ⟨frame, rfl, hframe, hnew, hread⟩ |
    ⟨i, datagram, client, rfl, hdatagram, hold, hnew, hread⟩
  · exact hkeep hread.ge (h client' (hsame ▸ hclient'))
  · have hnext : w.world.attachment.written[w.world.read]? = some frame := hframe
    rcases newest_readPtyFrame (hnew.symm.trans hclient') with ⟨client, hold, heq⟩ | htaken | htag
    · rw [heq]
      exact hkeep (by omega) (h client hold)
    · refine .inl (List.mem_append_left _ (Option.mem_toList.mpr ?_))
      rw [stateTaken, frameRead, hnext, Option.bind_some, htaken]
      rfl
    · right
      have hfront : world.attachment.written[w.world.read]? = some frame := by
        obtain ⟨rest, hrest⟩ := hwritten
        obtain ⟨hlt, -⟩ := List.getElem?_eq_some_iff.mp hnext
        rwa [← hrest, List.getElem?_append_left hlt]
      obtain ⟨hlt, heq⟩ := List.getElem?_eq_some_iff.mp hfront
      rw [hread, List.take_succ_eq_append_getElem hlt, heq]
      exact mem_outputTags_concat.mpr (.inr htag)
  · obtain rfl := Option.some.inj (hnew.symm.trans hclient')
    rcases client.newest_readDatagram datagram with heq | htaken
    · rw [heq]
      exact hkeep hread.ge (h client hold)
    · refine .inl (List.mem_append_left _ (Option.mem_toList.mpr ?_))
      have hnone : frameRead w.world (.readDatagram i) = none := rfl
      rw [stateTaken, hnone, Option.bind_none, Option.none_or, datagramRead, hdatagram,
        Option.bind_some, hold, Option.bind_some]
      exact htaken

end WatchedPty

/-- A snapshot that the client leaves because of its guard brings nothing that the client
does not have, as long as the screen is never further ahead of the receiver than the
channel reaches when an output frame is written. -/
theorem ignored_snapshot_is_covered (T : Terminal τ) (encoding : PtyEncoding) (sessionId : Uuid)
    (features : PtyFeatures) (rows cols base : ℕ) {w : WatchedPty τ}
    (hrun : (watchedPtyMachine T encoding sessionId features).Reaches WatchedPty.KeepsUp
      (WatchedPty.spawned T rows cols base) w) {generation : ℕ} (hignored : w.Ignores generation) :
    w.Covered base generation := by
  have hinv : w.world.Tagged base ∧ w.Guarded := by
    refine hrun.invariant (P := fun w => w.world.Tagged base ∧ w.Guarded)
      ⟨PtyWorld.tagged_spawned T rows cols base, fun _ hclient => by cases hclient⟩ ?_
    rintro action s s' hguard hact ⟨htagged, hguarded⟩
    have hguarded' : s'.Guarded := hguarded.act hact
    obtain ⟨world, hworld, rfl⟩ := Option.map_eq_some_iff.mp hact
    exact ⟨htagged.act hguard hworld, hguarded'⟩
  obtain ⟨htagged, hguarded⟩ := hinv
  obtain ⟨frame, client, hget, hframe, hclient, hle⟩ := hignored
  rcases hguarded client hclient with hstate | htag
  · exact .inr ⟨_, hstate, hle⟩
  · exact absurd (htagged.above _ frame generation hget hframe _ htag) (Nat.not_lt_of_le hle)

section Examples

def burstPty (attachment : PtyAttachment) (generation : ℕ) (chunks : List Bytes) (tail : Bytes) :
    WatchedPty Unit where
  world :=
    { pty := ⟨generation, tail, (), none, none⟩
      reader := none
      chunks := chunks
      output := chunks
      attachment := attachment
      datagrams := []
      published := [blankSnapshot 0 []]
      read := 1
      client := some ⟨0, some (.fromSnapshot (blankSnapshot 0 []))⟩ }
  states := [0]
  received := []

def burstAttachment (phase : PtyPhase) (position : ℕ) (pending : Bool) (output : List PtyFrame) :
    PtyAttachment :=
  ⟨phase, position, pending, ⟨some (blankSnapshot 0 []), 0⟩, .ready (blankSnapshot 0 []) :: output⟩

def burstMachine : Steps.Machine PtyAction (WatchedPty Unit) :=
  watchedPtyMachine blankTerminal lengthEncoding 0 plainFeatures

section Burst

variable {guard : WatchedPty Unit → PtyAction → Prop} {w : WatchedPty Unit} {attachment : PtyAttachment}
  {generation : ℕ} {chunks : List Bytes} {tail : Bytes}

theorem burst_reaches (hguard : ∀ action ∈ [PtyAction.process [7], .send], ∀ w, guard w action)
    (hrun : burstMachine.Reaches guard w (burstPty attachment generation chunks tail)) (n : ℕ) :
    ∃ tail', burstMachine.Reaches guard w
      (burstPty attachment (generation + n) (chunks ++ List.replicate n [7]) tail') := by
  induction n with
  | zero =>
    rw [List.replicate_zero, List.append_nil]
    exact ⟨tail, hrun⟩
  | succ n ih =>
    obtain ⟨tail', hrun'⟩ := ih
    have hmore : burstMachine.runWith (fun _ _ => true) [.process [7], .send]
        (burstPty attachment (generation + n) (chunks ++ List.replicate n [7]) tail') =
          some (burstPty attachment (generation + n + 1)
            (chunks ++ List.replicate n [7] ++ [[7]]) _) := rfl
    rw [List.replicate_succ', ← List.append_assoc]
    exact ⟨_, burstMachine.reaches_of_run hguard hrun' hmore⟩

theorem burst_lags {position : ℕ} (pending : Bool) (output : List PtyFrame)
    (hlag : position + ptyOutputCapacity < chunks.length) :
    burstMachine.act .recv (burstPty (burstAttachment .live position pending output) generation chunks
        tail) =
      some (burstPty (burstAttachment .lagged (chunks.length - ptyOutputCapacity) pending output)
        generation chunks tail) := by
  have hrecv : Broadcast.recv ptyOutputCapacity chunks position = (.lagged _, _) := if_pos hlag
  have hworld : (burstPty (burstAttachment .live position pending output) generation chunks
      tail).world.recv = some (burstPty (burstAttachment .lagged (chunks.length - ptyOutputCapacity)
        pending output) generation chunks tail).world := by
    simp only [PtyWorld.recv, burstPty, burstAttachment, hrecv]
  have hact : burstMachine.act .recv (burstPty (burstAttachment .live position pending output)
      generation chunks tail) = (burstPty (burstAttachment .live position pending output) generation
        chunks tail).world.recv.map fun world => ⟨world, [0], []⟩ := rfl
  rw [hact, hworld]
  rfl

end Burst

def receivedStart : List PtyAction :=
  [.openPty 1 1, .writeSnapshot, .subscribe, .readFrame, .process [7], .send, .recv]

theorem burst_is_ignored {n : ℕ} (hn : ptyOutputCapacity < n) : ∃ w : WatchedPty Unit,
    burstMachine.Reaches (fun _ _ => True) (.spawned blankTerminal 1 1 0) w ∧
    w.world.chunks = [7] :: List.replicate n [7] ∧ w.received = [[7]] ∧ w.states = [0] ∧
    w.Ignores (1 + n) := by
  have hstart : burstMachine.runWith (fun _ _ => true) receivedStart (.spawned blankTerminal 1 1 0) =
      some (burstPty (burstAttachment (.received [7]) 1 false []) 1 [[7]] [7]) := rfl
  obtain ⟨tail, hrun⟩ := burst_reaches (fun _ _ _ => trivial)
    (burstMachine.reaches_of_runWith (fun _ _ _ => trivial) .start hstart) n
  have hwrite : burstMachine.act .writeOutput (burstPty (burstAttachment (.received [7]) 1 false [])
        (1 + n) ([[7]] ++ List.replicate n [7]) tail) =
      some (burstPty (burstAttachment .live 1 true [.output (1 + n) [7]]) (1 + n)
        ([[7]] ++ List.replicate n [7]) tail) := rfl
  have hlag : 1 + ptyOutputCapacity < ([[7]] ++ List.replicate n ([7] : Bytes)).length := by
    rw [List.length_append, List.length_replicate, List.length_singleton]
    omega
  have hlagged := (hrun.step (i := .writeOutput) trivial hwrite).step (i := .recv) trivial
    (burst_lags true [.output (1 + n) [7]] hlag)
  refine ⟨_, (hlagged.step (i := .writeLagSnapshot) trivial rfl).step (i := .readFrame) trivial rfl,
    rfl, rfl, rfl, ?_⟩
  exact ⟨.ready (blankSnapshot (1 + n) tail), _, rfl, rfl, rfl,
    PtyClient.le_newest_recordPtyGeneration _ _⟩

/-- More chunks than the channel keeps come between receiving one and writing it: the client
gets this one, ignores the snapshot and never sees the others. -/
theorem burst_loses_output : ∃ (w : WatchedPty Unit) (generation : ℕ),
    (watchedPtyMachine blankTerminal lengthEncoding 0 plainFeatures).Reaches (fun _ _ => True)
      (.spawned blankTerminal 1 1 0) w ∧ w.Ignores generation ∧ ¬ w.Covered 0 generation := by
  obtain ⟨w, hrun, hchunks, hreceived, hstates, hignores⟩ :=
    burst_is_ignored (Nat.lt_succ_self ptyOutputCapacity)
  refine ⟨w, _, hrun, hignores, ?_⟩
  rintro (hall | ⟨state, hmem, hle⟩)
  · rw [hchunks, hreceived, Nat.sub_zero] at hall
    have hlength := hall.length_le
    rw [List.length_take, List.length_cons, List.length_replicate, List.length_singleton] at hlength
    exact absurd hlength (by decide)
  · rw [hstates, List.mem_singleton] at hmem
    rw [hmem] at hle
    exact absurd hle (by decide)

def liveStart : List PtyAction :=
  [.openPty 1 1, .writeSnapshot, .subscribe, .readFrame, .process [7], .send]

theorem snapshot_is_overtaken {n : ℕ} (hn : ptyOutputCapacity ≤ n) : ∃ w : WatchedPty Unit,
    burstMachine.Reaches WatchedPty.KeepsUp (.spawned blankTerminal 1 1 0) w ∧ w.Ignores (1 + n) := by
  have hstart : burstMachine.runWith (fun _ _ => true) liveStart (.spawned blankTerminal 1 1 0) =
      some (burstPty (burstAttachment .live 0 false []) 1 [[7]] [7]) := rfl
  have hlive : burstMachine.Reaches WatchedPty.KeepsUp (.spawned blankTerminal 1 1 0)
      (burstPty (burstAttachment .live 0 false []) 1 [[7]] [7]) :=
    burstMachine.reaches_of_run (by simp [liveStart, WatchedPty.KeepsUp]) .start hstart
  obtain ⟨tail, hrun⟩ := burst_reaches (by simp [WatchedPty.KeepsUp]) hlive n
  have hlag : 0 + ptyOutputCapacity < ([[7]] ++ List.replicate n ([7] : Bytes)).length := by
    rw [List.length_append, List.length_replicate, List.length_singleton]
    omega
  have hlagged := hrun.step (i := .recv) (fun heq => by cases heq) (burst_lags false [] hlag)
  have hwritten := hlagged.step (i := .writeLagSnapshot) (fun heq => by cases heq) rfl
  have hsent := hwritten.step (i := .tick wideLink) (fun heq => by cases heq) rfl
  refine ⟨_, hsent.step (i := .readDatagram 0) (fun heq => by cases heq) rfl, ?_⟩
  exact ⟨.ready (blankSnapshot (1 + n) tail), _, rfl, rfl, rfl,
    PtyClient.le_newest_replaceIfNewer _ _ _⟩

theorem overtaken_snapshot_is_covered : ∃ (w : WatchedPty Unit) (generation : ℕ),
    (watchedPtyMachine blankTerminal lengthEncoding 0 plainFeatures).Reaches WatchedPty.KeepsUp
      (.spawned blankTerminal 1 1 0) w ∧ w.Ignores generation ∧ w.Covered 0 generation := by
  obtain ⟨w, hrun, hignores⟩ := snapshot_is_overtaken le_rfl
  exact ⟨w, _, hrun, hignores, ignored_snapshot_is_covered blankTerminal lengthEncoding 0
    plainFeatures 1 1 0 hrun hignores⟩

end Examples

end Asp
