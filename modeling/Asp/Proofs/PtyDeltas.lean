import Asp.Lib.Patch
import Asp.Proofs.PtySteps

/-! Row deltas of a PTY. The client's screen and the base of a delta are both snapshots that were
sent; if generation and geometry tell these apart, the two are the same. -/

namespace Asp

variable {τ : Type} {T : Terminal τ}

variable {client : Option PtyClient} {datagrams : List PtyDatagram} {last : Option PtySnapshot}
  {previous snapshot : PtySnapshot} {published : List PtySnapshot} {written : List PtyFrame}

structure PtyStateDeltaDatagram.Derives (delta : PtyStateDeltaDatagram)
    (previous snapshot : PtySnapshot) : Prop where
  changes : derivePtyRowDeltas previous snapshot = some delta.changes
  base : delta.baseGeneration = previous.generation
  generation : delta.generation = snapshot.generation
  rows : delta.rows = snapshot.rows
  cols : delta.cols = snapshot.cols
  cursorRow : delta.cursorRow = snapshot.cursorRow
  cursorCol : delta.cursorCol = snapshot.cursorCol

theorem derivePtyRowDeltas_eq_some {changes : List PtyRowDelta}
    (h : derivePtyRowDeltas previous snapshot = some changes) :
    previous.rows = snapshot.rows ∧ previous.cols = snapshot.cols ∧
      previous.screen.length = snapshot.screen.length ∧
      changes = (Patch.changesFrom 0 previous.screen snapshot.screen).map
        fun change => ⟨change.1 % 2 ^ 16, change.2⟩ := by
  unfold derivePtyRowDeltas at h
  split_ifs at h with hbase
  simp only [not_or, not_not] at hbase
  refine ⟨hbase.2.1, hbase.2.2.1, hbase.2.2.2, ?_⟩
  rw [← Option.some.inj h, Patch.changesFrom, List.map_map]
  rfl

theorem foldl_derivePtyRowDeltas {changes : List PtyRowDelta}
    (h : derivePtyRowDeltas previous snapshot = some changes)
    (hsize : previous.screen.length < 2 ^ 16) :
    changes.foldl (fun rows change => rows.set change.row change.text) previous.screen =
      snapshot.screen := by
  obtain ⟨-, -, hlength, rfl⟩ := derivePtyRowDeltas_eq_some h
  rw [List.foldl_map]
  refine Eq.trans ?_ (Patch.write_changes hlength)
  refine List.foldl_ext _ _ _ fun rows change hchange => ?_
  have hlt := Patch.changesFrom_lt hchange
  rw [Nat.mod_eq_of_lt (by omega)]

theorem applyDelta_cases (delta : PtyStateDeltaDatagram) (screen : PlainPtyScreenState) :
    screen.applyDelta delta = (screen, none) ∨
    (delta.baseGeneration = screen.generation ∧ delta.rows = screen.rows ∧
      delta.cols = screen.cols ∧ ∃ changed, screen.applyDelta delta =
        ({ screen with
            screen := delta.changes.foldl (fun rows change => rows.set change.row change.text)
              screen.screen
            generation := delta.generation
            cursorRow := delta.cursorRow
            cursorCol := delta.cursorCol }, some changed)) := by
  unfold PlainPtyScreenState.applyDelta
  split_ifs with hbase hvalid
  · exact .inl rfl
  · exact .inl rfl
  · simp only [not_or, not_not] at hbase
    exact .inr ⟨hbase.1, hbase.2.2.1, hbase.2.2.2.1, _, rfl⟩

theorem applyDelta_derives {delta : PtyStateDeltaDatagram} {base : PtySnapshot}
    (hderives : delta.Derives previous snapshot) (hsize : previous.screen.length < 2 ^ 16)
    (hscreen : base.generation = previous.generation → base.rows = previous.rows →
      base.cols = previous.cols → base.screen = previous.screen) :
    (PlainPtyScreenState.fromSnapshot base).applyDelta delta =
        (.fromSnapshot base, none) ∨
      ∃ changed, (PlainPtyScreenState.fromSnapshot base).applyDelta delta =
        (.fromSnapshot snapshot, some changed) := by
  rcases applyDelta_cases delta (.fromSnapshot base) with hnone | ⟨hbase, hrows, hcols, changed, heq⟩
  · exact .inl hnone
  · obtain ⟨hrows', hcols', -, -⟩ := derivePtyRowDeltas_eq_some hderives.changes
    have hsame : base.screen = previous.screen :=
      hscreen (hbase.symm.trans hderives.base) (hrows.symm.trans (hderives.rows.trans hrows'.symm))
        (hcols.symm.trans (hderives.cols.trans hcols'.symm))
    refine .inr ⟨changed, heq.trans ?_⟩
    have hwritten := foldl_derivePtyRowDeltas hderives.changes hsize
    rw [← hsame] at hwritten
    simp only [PlainPtyScreenState.fromSnapshot, hwritten, hderives.generation, hderives.cursorRow,
      hderives.cursorCol, ← hderives.rows, ← hderives.cols, hrows, hcols]

section Send

variable {encoding : PtyEncoding} {link : DatagramLink} {sessionId : Uuid}

theorem deltaDatagram_eq_some {state : PtyDatagramState} {maxSize fullEncoded : ℕ}
    {delta : PtyStateDeltaDatagram}
    (h : deltaDatagram encoding link sessionId state snapshot maxSize fullEncoded = some delta) :
    ∃ previous, state.last = some previous ∧ delta.Derives previous snapshot := by
  unfold deltaDatagram at h
  split_ifs at h
  obtain ⟨previous, hlast, h⟩ := Option.bind_eq_some_iff.mp h
  obtain ⟨changes, hchanges, h⟩ := Option.bind_eq_some_iff.mp h
  dsimp only at h
  split_ifs at h
  cases h
  exact ⟨previous, hlast, hchanges, rfl, rfl, rfl, rfl, rfl, rfl⟩

theorem sendPtyStateDeltaOrFull_cases (encoding : PtyEncoding) (link : DatagramLink)
    (sessionId : Uuid) (snapshot : PtySnapshot) (state : PtyDatagramState) :
    (∃ delta previous, state.last = some previous ∧ delta.Derives previous snapshot ∧
      (sendPtyStateDeltaOrFull encoding link sessionId snapshot state).1 =
        some (.delta delta snapshot) ∧
      (sendPtyStateDeltaOrFull encoding link sessionId snapshot state).2.last = some snapshot) ∨
    ((sendPtyStateDeltaOrFull encoding link sessionId snapshot state).1 =
        some (.full (fullDatagram sessionId snapshot)) ∧
      (sendPtyStateDeltaOrFull encoding link sessionId snapshot state).2.last = some snapshot) ∨
    ((sendPtyStateDeltaOrFull encoding link sessionId snapshot state).1 = none ∧
      ∀ previous, (sendPtyStateDeltaOrFull encoding link sessionId snapshot state).2.last =
        some previous → state.last = some previous) := by
  unfold sendPtyStateDeltaOrFull
  split
  · split
    · rename_i delta hdelta
      obtain ⟨previous, hlast, hderives⟩ := deltaDatagram_eq_some hdelta
      exact .inl ⟨delta, previous, hlast, hderives, rfl, rfl⟩
    · split_ifs
      · exact .inr (.inl ⟨rfl, rfl⟩)
      · exact .inr (.inr ⟨rfl, fun _ h => by cases h⟩)
  · exact .inr (.inr ⟨rfl, fun _ h => h⟩)

theorem sendPtyStateDatagram_eq_some {datagram : PtyDatagram}
    (h : sendPtyStateDatagram encoding link sessionId snapshot = some datagram) :
    datagram = .full (fullDatagram sessionId snapshot) := by
  obtain ⟨encoded, -, h⟩ := Option.bind_eq_some_iff.mp h
  split_ifs at h
  exact (Option.some.inj h).symm

end Send

def PtyState.Cached (T : Terminal τ) (s : PtyState τ) : Prop :=
  ∀ snapshot, s.snapshotCache = some snapshot → snapshot = s.render T

namespace PtyState

variable {s : PtyState τ}

theorem cached_none (h : s.snapshotCache = none) : s.Cached T := by
  intro snapshot hsnapshot
  rw [h] at hsnapshot
  cases hsnapshot

theorem snapshot_eq_render (h : s.Cached T) : (s.snapshot T).1 = s.render T := by
  unfold snapshot
  split
  · rename_i snapshot hcache
    exact h snapshot hcache
  · rfl

theorem cached_snapshot (h : s.Cached T) : (s.snapshot T).2.Cached T := by
  unfold snapshot
  split
  · exact h
  · intro snapshot hsnapshot
    exact (Option.some.inj hsnapshot).symm

theorem cached_richSnapshot (h : s.Cached T) : (s.richSnapshot T).2.Cached T := by
  unfold richSnapshot
  split
  · exact h
  · exact h

theorem snapshot_screen_length (h : s.Cached T) : (s.snapshot T).1.screen.length < 2 ^ 16 := by
  rw [snapshot_eq_render h, render, T.rows_length]
  exact T.size_lt _

end PtyState

/-- Everything on the way was made from snapshots that were sent, and the client shows one
of them. -/
structure PtyBases (sessionId : Uuid) (published : List PtySnapshot) (last : Option PtySnapshot)
    (written : List PtyFrame) (datagrams : List PtyDatagram) (client : Option PtyClient) : Prop where
  size : ∀ s ∈ published, s.screen.length < 2 ^ 16
  agree : ∀ s ∈ published, ∀ t ∈ published, s.generation = t.generation → s.rows = t.rows →
    s.cols = t.cols → s.screen = t.screen
  last : ∀ s, last = some s → s ∈ published
  frames : ∀ s, .ready s ∈ written → s ∈ published
  fulls : ∀ d, .full d ∈ datagrams → ∃ s ∈ published, d = fullDatagram sessionId s
  deltas : ∀ delta s, .delta delta s ∈ datagrams → s ∈ published ∧
    ∃ previous ∈ published, delta.Derives previous s
  client : ∀ c ∈ client, ∀ screen ∈ c.plainScreenState, ∃ s ∈ published, screen = .fromSnapshot s

namespace PtyBases

variable {sessionId : Uuid} {published : List PtySnapshot} {last : Option PtySnapshot}
  {written : List PtyFrame} {datagrams : List PtyDatagram} {client : Option PtyClient}

section

variable (h : PtyBases sessionId published last written datagrams client)

include h

theorem publish (hsize : snapshot.screen.length < 2 ^ 16)
    (hagree : ∀ s ∈ published, s.generation = snapshot.generation → s.rows = snapshot.rows →
      s.cols = snapshot.cols → s.screen = snapshot.screen) :
    PtyBases sessionId (snapshot :: published) last written datagrams client where
  size := List.forall_mem_cons.mpr ⟨hsize, h.size⟩
  agree := by
    intro s hs t ht hgeneration hrows hcols
    rcases List.mem_cons.mp hs with rfl | hold <;> rcases List.mem_cons.mp ht with rfl | hold'
    · rfl
    · exact (hagree t hold' hgeneration.symm hrows.symm hcols.symm).symm
    · exact hagree s hold hgeneration hrows hcols
    · exact h.agree s hold t hold' hgeneration hrows hcols
  last s hs := List.mem_cons_of_mem _ (h.last s hs)
  frames s hs := List.mem_cons_of_mem _ (h.frames s hs)
  fulls d hd := by
    obtain ⟨s, hs, hfull⟩ := h.fulls d hd
    exact ⟨s, List.mem_cons_of_mem _ hs, hfull⟩
  deltas delta s hs := by
    obtain ⟨hmem, previous, hprevious, hderives⟩ := h.deltas delta s hs
    exact ⟨List.mem_cons_of_mem _ hmem, previous, List.mem_cons_of_mem _ hprevious, hderives⟩
  client c hc screen hscreen := by
    obtain ⟨s, hs, hshown⟩ := h.client c hc screen hscreen
    exact ⟨s, List.mem_cons_of_mem _ hs, hshown⟩

theorem setLast {last' : Option PtySnapshot} (hlast : ∀ s, last' = some s → s ∈ published) :
    PtyBases sessionId published last' written datagrams client :=
  { h with last := hlast }

theorem write {frame : PtyFrame} (hframe : ∀ s, frame = .ready s → s ∈ published) :
    PtyBases sessionId published last (written ++ [frame]) datagrams client :=
  { h with
    frames := by
      intro s hs
      rcases List.mem_append.mp hs with hs | hs
      · exact h.frames s hs
      · exact hframe s (List.mem_singleton.mp hs).symm }

theorem sendFull (hmem : snapshot ∈ published) :
    PtyBases sessionId published last written
      (.full (fullDatagram sessionId snapshot) :: datagrams) client :=
  { h with
    fulls := by
      intro d hd
      rcases List.mem_cons.mp hd with hd | hd
      · exact ⟨snapshot, hmem, PtyDatagram.full.inj hd⟩
      · exact h.fulls d hd
    deltas := by
      intro delta s hs
      rcases List.mem_cons.mp hs with hs | hs
      · cases hs
      · exact h.deltas delta s hs }

theorem sendDelta {delta : PtyStateDeltaDatagram} (hmem : snapshot ∈ published)
    (hprevious : previous ∈ published) (hderives : delta.Derives previous snapshot) :
    PtyBases sessionId published last written (.delta delta snapshot :: datagrams) client :=
  { h with
    fulls := by
      intro d hd
      rcases List.mem_cons.mp hd with hd | hd
      · cases hd
      · exact h.fulls d hd
    deltas := by
      intro delta' s hs
      rcases List.mem_cons.mp hs with hs | hs
      · cases hs
        exact ⟨hmem, previous, hprevious, hderives⟩
      · exact h.deltas delta' s hs }

theorem sendRich (snapshot : PtyRichSnapshot) :
    PtyBases sessionId published last written (.rich sessionId snapshot :: datagrams) client :=
  { h with
    fulls := by
      intro d hd
      rcases List.mem_cons.mp hd with hd | hd
      · cases hd
      · exact h.fulls d hd
    deltas := by
      intro delta s hs
      rcases List.mem_cons.mp hs with hs | hs
      · cases hs
      · exact h.deltas delta s hs }

theorem setClient {client' : Option PtyClient}
    (hclient : ∀ c ∈ client', ∀ screen ∈ c.plainScreenState,
      ∃ s ∈ published, screen = .fromSnapshot s) :
    PtyBases sessionId published last written datagrams client' :=
  { h with client := hclient }

theorem applyDelta {delta : PtyStateDeltaDatagram} (hdelta : .delta delta snapshot ∈ datagrams)
    {c : PtyClient} (hc : c ∈ client) {screen : PlainPtyScreenState}
    (hscreen : screen ∈ c.plainScreenState) :
    screen.applyDelta delta = (screen, none) ∨
      ∃ changed, screen.applyDelta delta = (.fromSnapshot snapshot, some changed) := by
  obtain ⟨-, previous, hprevious, hderives⟩ := h.deltas delta snapshot hdelta
  obtain ⟨base, hbase, rfl⟩ := h.client c hc screen hscreen
  exact applyDelta_derives hderives (h.size previous hprevious) (h.agree base hbase previous hprevious)

end

end PtyBases

namespace PtyClient

theorem recordPtyGeneration_screen (candidate : ℕ) (client : PtyClient) :
    (client.recordPtyGeneration candidate).1.plainScreenState = client.plainScreenState := by
  unfold recordPtyGeneration
  split_ifs <;> rfl

theorem replaceIfNewer_screen (candidate : ℕ) (screen : Option PlainPtyScreenState)
    (client : PtyClient) :
    (client.replaceIfNewer candidate screen).plainScreenState = client.plainScreenState ∨
      (client.replaceIfNewer candidate screen).plainScreenState = screen := by
  unfold replaceIfNewer recordPtyGeneration
  split_ifs
  · exact .inl rfl
  · exact .inr rfl

end PtyClient

variable {encoding : PtyEncoding} {sessionId : Uuid} {features : PtyFeatures}

section

variable (h : PtyBases sessionId published last written datagrams client)

include h

theorem PtyBases.readDelta {delta : PtyStateDeltaDatagram}
    (hdelta : .delta delta snapshot ∈ datagrams) {c : PtyClient} (hc : c ∈ client) :
    c.readDatagram sessionId (.delta delta snapshot) = c ∨
      (c.readDatagram sessionId (.delta delta snapshot)).plainScreenState =
        some (.fromSnapshot snapshot) := by
  unfold PtyClient.readDatagram
  dsimp only
  split_ifs
  · obtain ⟨newest, state⟩ := c
    cases state with
    | none => exact .inl rfl
    | some screen =>
      rcases h.applyDelta hdelta hc rfl with hnone | ⟨changed, hsome⟩
      · simp only [hnone]
        exact .inl trivial
      · simp only [hsome]
        exact .inr trivial
  · exact .inl rfl

theorem PtyBases.readDatagram {datagram : PtyDatagram} (hdatagram : datagram ∈ datagrams)
    {c : PtyClient} (hc : c ∈ client) :
    PtyBases sessionId published last written datagrams
      (some (c.readDatagram sessionId datagram)) := by
  refine h.setClient fun c' hc' screen hscreen => ?_
  cases hc'
  have hold : screen ∈ c.plainScreenState → ∃ s ∈ published, screen = .fromSnapshot s :=
    h.client c hc screen
  cases datagram with
  | delta delta snapshot =>
    rcases h.readDelta hdatagram hc with hsame | hshown
    · rw [hsame] at hscreen
      exact hold hscreen
    · rw [hshown] at hscreen
      exact ⟨snapshot, (h.deltas delta snapshot hdatagram).1, (Option.some.inj hscreen).symm⟩
  | rich session snapshot =>
    unfold PtyClient.readDatagram at hscreen
    dsimp only at hscreen
    split_ifs at hscreen
    · rw [PtyClient.recordPtyGeneration_screen] at hscreen
      exact hold hscreen
    · exact hold hscreen
  | full datagram =>
    obtain ⟨s, hs, rfl⟩ := h.fulls datagram hdatagram
    unfold PtyClient.readDatagram at hscreen
    dsimp only at hscreen
    split_ifs at hscreen
    · rcases PtyClient.replaceIfNewer_screen _ _ c with hsame | hnew
      · exact hold (hsame ▸ hscreen)
      · rw [hnew] at hscreen
        exact ⟨s, hs, (Option.some.inj hscreen).symm⟩
    · exact hold hscreen

theorem PtyBases.readFrame {frame : PtyFrame} (hframe : frame ∈ written) :
    PtyBases sessionId published last written datagrams (readPtyFrame client frame) := by
  refine h.setClient fun c' hc' screen hscreen => ?_
  cases client with
  | none =>
    cases frame with
    | ready snapshot =>
      cases hc'
      exact ⟨snapshot, h.frames snapshot hframe, (Option.some.inj hscreen).symm⟩
    | readyRich snapshot =>
      cases hc'
      cases hscreen
    | readyScrollback | output => cases hc'
  | some c =>
    have hold : screen ∈ c.plainScreenState → ∃ s ∈ published, screen = .fromSnapshot s :=
      h.client c rfl screen
    cases frame with
    | ready snapshot =>
      cases hc'
      rcases PtyClient.replaceIfNewer_screen snapshot.generation
        (some (.fromSnapshot snapshot)) c with hsame | hnew
      · exact hold (hsame ▸ hscreen)
      · rw [hnew] at hscreen
        exact ⟨snapshot, h.frames snapshot hframe, (Option.some.inj hscreen).symm⟩
    | readyRich snapshot =>
      cases hc'
      rcases PtyClient.replaceIfNewer_screen snapshot.generation none c with hsame | hnew
      · exact hold (hsame ▸ hscreen)
      · rw [hnew] at hscreen
        cases hscreen
    | readyScrollback =>
      cases hc'
      exact hold hscreen
    | output generation data =>
      cases hc'
      rw [PtyClient.recordPtyGeneration_screen] at hscreen
      exact hold hscreen

end

/-- The cache is coherent and the two sides share their bases. -/
structure PtyWorld.Synced (T : Terminal τ) (sessionId : Uuid) (w : PtyWorld τ) : Prop where
  cached : w.pty.Cached T
  bases : PtyBases sessionId w.published w.attachment.plainDatagramState.last w.attachment.written
    w.datagrams w.client

namespace PtyWorld

variable {w w' : PtyWorld τ}

variable {action : PtyAction}

theorem act_pty (hact : w.act T encoding sessionId features action = some w') :
    w'.pty = w.pty ∨ (w'.pty.snapshotCache = none ∧ w'.pty.richSnapshotCache = none) ∨
      w'.pty = (w.pty.snapshot T).2 ∨ w'.pty = (w.pty.richSnapshot T).2 := by
  have hready (phase : ℕ → ℕ → ℕ → PtyPhase) :
      (w.writeReady T features phase).pty = (w.pty.snapshot T).2 ∨
        (w.writeReady T features phase).pty = (w.pty.richSnapshot T).2 := by
    unfold writeReady
    split_ifs
    · exact .inr rfl
    · exact .inl rfl
  cases step_of_act hact with
  | process | resize | openPty | resizeRequest => exact .inr (.inl ⟨rfl, rfl⟩)
  | writeSnapshot hphase => exact .inr (.inr (hready _))
  | writeLagSnapshot hphase hw =>
    rw [hw]
    exact .inr (.inr (hready _))
  | tick link hphase hpending =>
    subst hpending
    unfold sendState
    split_ifs
    · exact .inr (.inr (.inr rfl))
    · exact .inr (.inr (.inr rfl))
    · exact .inr (.inr (.inl rfl))
    · exact .inr (.inr (.inl rfl))
  | _ => exact .inl rfl

theorem cached_act (h : w.pty.Cached T)
    (hact : w.act T encoding sessionId features action = some w') : w'.pty.Cached T := by
  rcases act_pty hact with hsame | ⟨hnone, -⟩ | hplain | hrich
  · rwa [hsame]
  · exact PtyState.cached_none hnone
  · rw [hplain]
    exact PtyState.cached_snapshot h
  · rw [hrich]
    exact PtyState.cached_richSnapshot h

theorem cached_reaches {guard : PtyWorld τ → PtyAction → Prop}
    (hrun : (ptyMachine T encoding sessionId features).Reaches guard w w') (h : w.pty.Cached T) :
    w'.pty.Cached T :=
  hrun.invariant h fun _ _ _ _ hact hcached => cached_act hcached hact

section

variable (h : w.Synced T sessionId) (hagree : ∀ earlier ∈ w.published,
  earlier.generation = (w.pty.snapshot T).1.generation →
  earlier.rows = (w.pty.snapshot T).1.rows → earlier.cols = (w.pty.snapshot T).1.cols →
  earlier.screen = (w.pty.snapshot T).1.screen)

include h hagree

theorem Synced.publish :
    PtyBases sessionId ((w.pty.snapshot T).1 :: w.published) w.attachment.plainDatagramState.last
      w.attachment.written w.datagrams w.client :=
  h.bases.publish (PtyState.snapshot_screen_length h.cached) hagree

theorem Synced.writeReady (features : PtyFeatures) (phase : ℕ → ℕ → ℕ → PtyPhase) :
    (w.writeReady T features phase).Synced T sessionId := by
  unfold PtyWorld.writeReady
  split_ifs
  · refine ⟨PtyState.cached_richSnapshot h.cached, h.bases.write fun s hs => ?_⟩
    cases hs
  · refine ⟨PtyState.cached_snapshot h.cached, ((h.publish hagree).setLast fun s hs => ?_).write
      fun s hs => ?_⟩
    · rw [← Option.some.inj hs]
      exact List.mem_cons_self
    · rw [← PtyFrame.ready.inj hs]
      exact List.mem_cons_self

theorem Synced.sendState (link : DatagramLink) :
    (w.sendState T encoding sessionId features link).Synced T sessionId := by
  unfold PtyWorld.sendState
  have hnew := h.publish hagree
  split_ifs with hrich haccepted hdelta
  · exact ⟨PtyState.cached_richSnapshot h.cached, h.bases.sendRich _⟩
  · exact ⟨PtyState.cached_richSnapshot h.cached, h.bases⟩
  · refine ⟨PtyState.cached_snapshot h.cached, ?_⟩
    rcases sendPtyStateDeltaOrFull_cases encoding link sessionId (w.pty.snapshot T).1
      w.attachment.plainDatagramState with
      ⟨delta, previous, hlast, hderives, hsent, hbase⟩ | ⟨hsent, hbase⟩ | ⟨hsent, hbase⟩
    · simp only [hsent, hbase]
      refine (hnew.setLast fun s hs => ?_).sendDelta List.mem_cons_self
        (List.mem_cons_of_mem _ (h.bases.last previous hlast)) hderives
      rw [← Option.some.inj hs]
      exact List.mem_cons_self
    · simp only [hsent, hbase]
      refine (hnew.setLast fun s hs => ?_).sendFull List.mem_cons_self
      rw [← Option.some.inj hs]
      exact List.mem_cons_self
    · simp only [hsent]
      exact h.bases.setLast fun s hs => h.bases.last s (hbase s hs)
  · refine ⟨PtyState.cached_snapshot h.cached, ?_⟩
    cases hsent : sendPtyStateDatagram encoding link sessionId (w.pty.snapshot T).1 with
    | none =>
      simp only [hsent]
      exact h.bases
    | some datagram =>
      simp only [hsent, sendPtyStateDatagram_eq_some hsent]
      exact hnew.sendFull List.mem_cons_self

end

theorem Synced.act (h : w.Synced T sessionId) (hguard : w.ScreensAgree T action)
    (hact : w.act T encoding sessionId features action = some w') : w'.Synced T sessionId := by
  have hcached := cached_act h.cached hact
  cases step_of_act hact with
  | writeSnapshot hphase => exact h.writeReady (hguard rfl) features _
  | writeScrollback lines hphase =>
    refine ⟨hcached, h.bases.write fun s hs => ?_⟩
    cases hs
  | writeOutput hphase =>
    refine ⟨hcached, h.bases.write fun s hs => ?_⟩
    cases hs
  | writeLagSnapshot hphase hready =>
    subst hready
    exact ⟨hcached, (h.writeReady (hguard rfl) features fun _ _ _ => .live).bases⟩
  | tick link hphase hpending =>
    subst hpending
    refine Synced.sendState ?_ ?_ link
    · exact ⟨h.cached, h.bases⟩
    · exact hguard rfl
  | readFrame hframe => exact ⟨hcached, h.bases.readFrame (List.mem_of_getElem? hframe)⟩
  | readDatagram i hdatagram hclient =>
    exact ⟨hcached, h.bases.readDatagram (List.mem_of_getElem? hdatagram) hclient⟩
  | _ => exact ⟨hcached, h.bases⟩

end PtyWorld

section Examples

/-- What `vt100` shows of printable characters, carriage returns and line feeds, as long as no
line is full. -/
structure Grid where
  rows : Fin (2 ^ 16)
  cols : ℕ
  lines : List (List Char)
  row : ℕ
  col : ℕ
  deriving DecidableEq

def Grid.line (g : Grid) (i : ℕ) : List Char := (g.lines[i]?).getD []

def Grid.put (g : Grid) (byte : UInt8) : Grid :=
  if byte = 13 then { g with col := 0 }
  else if byte = 10 then
    if g.row + 1 < g.rows then { g with row := g.row + 1 } else { g with lines := g.lines.tail ++ [[]] }
  else
    let line := g.line g.row
    { g with
      lines := g.lines.set g.row (line.takeD g.col ' ' ++ Char.ofNat byte.toNat :: line.drop (g.col + 1))
      col := g.col + 1 }

def lengthEncoding : PtyEncoding where
  full datagram := some (40 + (datagram.screen.map String.length).sum)
  delta datagram := some (20 + (datagram.changes.map fun change => change.text.length).sum)

def deltaFeatures : PtyFeatures := ⟨false, true, false⟩

def wideLink : DatagramLink := ⟨some 1200, true, true⟩

instance {τ : Type} (T : Terminal τ) (w : PtyWorld τ) (action : PtyAction) :
    Decidable (w.ScreensAgree T action) :=
  inferInstanceAs (Decidable (_ → ∀ earlier ∈ w.published, _))

end Examples

end Asp
