import Asp.Proofs.PtyDeltas

/-! A full state that an attachment sends becomes the base of its next delta. The client takes it
over only if nothing that it read before had this generation. -/

namespace Asp

variable {τ : Type} {T : Terminal τ} {encoding : PtyEncoding} {sessionId : Uuid}
  {features : PtyFeatures}

variable {delta : PtyStateDeltaDatagram} {snapshot : PtySnapshot}

/-- `vt100` has bounded cells, and at most `ptyMaxDimension` of them in a row. -/
def Terminal.RowsFit (T : Terminal τ) : Prop :=
  ∀ t, ∀ row ∈ T.rows t, row.utf8ByteSize ≤ PlainPtyScreenState.maxRowBytes

theorem changesValid_changesFrom (screen : PlainPtyScreenState) {old new : List String} {start : ℕ}
    {previous : Option ℕ} (hprevious : ∀ row ∈ previous, row < start)
    (hrows : start + old.length ≤ screen.rows) (hlength : start + old.length ≤ screen.screen.length)
    (hbits : start + old.length ≤ 2 ^ 16) (hsame : old.length = new.length)
    (htext : ∀ row ∈ new, row.utf8ByteSize ≤ PlainPtyScreenState.maxRowBytes) :
    screen.changesValid previous ((Patch.changesFrom start old new).map
      fun change => ⟨change.1 % 2 ^ 16, change.2⟩) = true := by
  induction old generalizing start previous new with
  | nil =>
    obtain rfl := List.length_eq_zero_iff.mp hsame.symm
    rfl
  | cons x old ih =>
    cases new with
    | nil => cases hsame
    | cons y new =>
      rw [List.length_cons] at hrows hlength hbits
      obtain ⟨hy, hnew⟩ := List.forall_mem_cons.mp htext
      rw [Patch.changesFrom_cons]
      split_ifs with hxy
      · refine ih (fun row hrow => ?_) (by omega) (by omega) (by omega) (Nat.succ.inj hsame) hnew
        exact (hprevious row hrow).trans (Nat.lt_succ_self start)
      · have hstart : start % 2 ^ 16 = start := Nat.mod_eq_of_lt (by omega)
        have hafter : previous.any (start ≤ ·) = false := by
          cases previous with
          | none => rfl
          | some row => simpa using hprevious row rfl
        rw [List.map_cons, PlainPtyScreenState.changesValid, hstart, hafter, Bool.or_false, if_neg]
        · refine ih (fun row hrow => ?_) (by omega) (by omega) (by omega) (Nat.succ.inj hsame) hnew
          rw [← Option.some.inj hrow]
          exact Nat.lt_succ_self start
        · simp only [Bool.or_eq_true, decide_eq_true_eq, not_or]
          omega

theorem derivePtyRowDeltas_newer {previous : PtySnapshot} {changes : List PtyRowDelta}
    (h : derivePtyRowDeltas previous snapshot = some changes) :
    previous.generation < snapshot.generation := by
  unfold derivePtyRowDeltas at h
  split_ifs at h with hbase
  simp only [not_or] at hbase
  exact Nat.lt_of_not_le hbase.1

theorem applyDelta_accepts {base : PtySnapshot} (hderives : delta.Derives base snapshot)
    (hrows : base.rows = base.screen.length) (hsize : base.screen.length < 2 ^ 16)
    (htext : ∀ row ∈ snapshot.screen, row.utf8ByteSize ≤ PlainPtyScreenState.maxRowBytes) :
    ∃ changed, (PlainPtyScreenState.fromSnapshot base).applyDelta delta =
      (.fromSnapshot snapshot, some changed) := by
  refine (applyDelta_derives hderives hsize fun _ _ _ => rfl).resolve_left fun hnone => ?_
  have hnewer := derivePtyRowDeltas_newer hderives.changes
  obtain ⟨hsame, hcols, hlength, hchanges⟩ := derivePtyRowDeltas_eq_some hderives.changes
  have hvalid : (PlainPtyScreenState.fromSnapshot base).changesValid none delta.changes = true := by
    rw [hchanges]
    refine changesValid_changesFrom _ (fun _ hrow => by cases hrow) ?_ ?_ ?_ hlength htext
    · rw [Nat.zero_add]
      exact hrows.ge
    · rw [Nat.zero_add]
      exact le_rfl
    · rw [Nat.zero_add]
      exact hsize.le
  have hcount : delta.changes.length ≤ base.screen.length := by
    rw [hchanges, List.length_map]
    exact Patch.length_changesFrom_le _ _ _
  have hrejected := congrArg Prod.snd hnone
  rw [PlainPtyScreenState.applyDelta, hvalid, if_neg] at hrejected
  · cases hrejected
  · simp only [PlainPtyScreenState.fromSnapshot, hderives.base, hderives.generation, hderives.rows,
      hderives.cols, hsame, hcols]
    omega

theorem deltaDatagram_sessionId {link : DatagramLink} {state : PtyDatagramState}
    {maxSize fullEncoded : ℕ}
    (h : deltaDatagram encoding link sessionId state snapshot maxSize fullEncoded = some delta) :
    delta.sessionId = sessionId := by
  unfold deltaDatagram at h
  split_ifs at h
  obtain ⟨previous, -, h⟩ := Option.bind_eq_some_iff.mp h
  obtain ⟨changes, -, h⟩ := Option.bind_eq_some_iff.mp h
  dsimp only at h
  split_ifs at h
  rw [← Option.some.inj h]

theorem sendPtyStateDeltaOrFull_sessionId {link : DatagramLink} {state : PtyDatagramState}
    {derivedFor : PtySnapshot}
    (h : (sendPtyStateDeltaOrFull encoding link sessionId snapshot state).1 =
      some (.delta delta derivedFor)) : delta.sessionId = sessionId := by
  unfold sendPtyStateDeltaOrFull at h
  split at h
  · split at h
    · rename_i sent hsent
      rw [← (PtyDatagram.delta.inj (Option.some.inj h)).1]
      exact deltaDatagram_sessionId hsent
    · split_ifs at h
      · cases h
  · cases h

namespace PtyWorld

variable {w w' : PtyWorld τ}

variable {link : DatagramLink}

section

variable (hplain : features.richState = false) (hdelta : features.stateDelta = true)
  (htick : w.act T encoding sessionId features (.tick link) = some w')

include hplain hdelta htick

theorem tick_sends {datagram : PtyDatagram} (hsent : w'.datagrams = datagram :: w.datagrams) :
    (sendPtyStateDeltaOrFull encoding link sessionId (w.pty.snapshot T).1
      w.attachment.plainDatagramState).1 = some datagram ∧
    w'.attachment.plainDatagramState = (sendPtyStateDeltaOrFull encoding link sessionId
      (w.pty.snapshot T).1 w.attachment.plainDatagramState).2 := by
  cases step_of_act htick with
  | tick link hphase hpending =>
    subst hpending
    simp only [sendState, hplain, hdelta, if_true, Bool.false_eq_true, if_false] at hsent ⊢
    refine ⟨?_, trivial⟩
    cases hnew : (sendPtyStateDeltaOrFull encoding link sessionId (w.pty.snapshot T).1
      w.attachment.plainDatagramState).1 with
    | none =>
      rw [hnew, Option.toList_none, List.nil_append] at hsent
      exact absurd hsent.symm (List.cons_ne_self _ _)
    | some sent =>
      rw [hnew, Option.toList_some, List.singleton_append] at hsent
      rw [(List.cons.inj hsent).1]
  | idleTick link hphase => exact absurd hsent.symm (List.cons_ne_self _ _)

theorem tick_sends_full {datagram : PtyStateDatagram}
    (hsent : w'.datagrams = .full datagram :: w.datagrams) :
    datagram = fullDatagram sessionId (w.pty.snapshot T).1 ∧
      w'.attachment.plainDatagramState.last = some (w.pty.snapshot T).1 := by
  obtain ⟨hnew, hstate⟩ := tick_sends hplain hdelta htick hsent
  rw [hstate]
  rcases sendPtyStateDeltaOrFull_cases encoding link sessionId (w.pty.snapshot T).1
    w.attachment.plainDatagramState with
    ⟨delta, previous, -, -, hfirst, -⟩ | ⟨hfirst, hbase⟩ | ⟨hfirst, -⟩
  · rw [hfirst] at hnew
    cases hnew
  · rw [hfirst] at hnew
    exact ⟨(PtyDatagram.full.inj (Option.some.inj hnew)).symm, hbase⟩
  · rw [hfirst] at hnew
    cases hnew

theorem tick_sends_delta (hsent : w'.datagrams = .delta delta snapshot :: w.datagrams) :
    delta.sessionId = sessionId ∧ snapshot = (w.pty.snapshot T).1 ∧
      ∃ previous, w.attachment.plainDatagramState.last = some previous ∧
        delta.Derives previous snapshot := by
  obtain ⟨hnew, -⟩ := tick_sends hplain hdelta htick hsent
  have hsession := sendPtyStateDeltaOrFull_sessionId hnew
  rcases sendPtyStateDeltaOrFull_cases encoding link sessionId (w.pty.snapshot T).1
    w.attachment.plainDatagramState with
    ⟨sent, previous, hlast, hderives, hfirst, -⟩ | ⟨hfirst, -⟩ | ⟨hfirst, -⟩
  · rw [hfirst] at hnew
    cases hnew
    exact ⟨hsession, rfl, previous, hlast, hderives⟩
  · rw [hfirst] at hnew
    cases hnew
  · rw [hfirst] at hnew
    cases hnew

end

end PtyWorld

namespace PtyClient

theorem readDatagram_full_iff (client : PtyClient) (snapshot : PtySnapshot) :
    (client.readDatagram sessionId (.full (fullDatagram sessionId snapshot))).plainScreenState =
        some (.fromSnapshot snapshot) ↔
      client.newestGeneration < snapshot.generation ∨
        client.plainScreenState = some (.fromSnapshot snapshot) := by
  have hread : client.readDatagram sessionId (.full (fullDatagram sessionId snapshot)) =
      client.replaceIfNewer snapshot.generation (some (.fromSnapshot snapshot)) := if_pos rfl
  rw [hread, replaceIfNewer, recordPtyGeneration]
  split_ifs with hold
  · exact ⟨.inr, fun h => h.resolve_left (Nat.not_lt_of_le hold)⟩
  · exact ⟨fun _ => .inl (Nat.lt_of_not_le hold), fun _ => rfl⟩

theorem readDatagram_delta_iff {client : PtyClient} {base : PtySnapshot}
    (hsession : delta.sessionId = sessionId) (hderives : delta.Derives base snapshot)
    {changed : Bool} (happly : (PlainPtyScreenState.fromSnapshot base).applyDelta delta =
      (.fromSnapshot snapshot, some changed))
    (hscreen : client.plainScreenState = some (.fromSnapshot base)) :
    (client.readDatagram sessionId (.delta delta snapshot)).plainScreenState =
        some (.fromSnapshot snapshot) ↔ client.newestGeneration ≤ delta.generation := by
  have hnewer := derivePtyRowDeltas_newer hderives.changes
  unfold readDatagram
  dsimp only
  split_ifs with haccepted
  · simp only [hscreen, happly, true_iff]
    exact haccepted.2
  · refine ⟨fun hshown => ?_, fun hle => absurd ⟨hsession, hle⟩ haccepted⟩
    rw [hscreen] at hshown
    have hgeneration := congrArg PlainPtyScreenState.generation (Option.some.inj hshown)
    exact absurd hgeneration hnewer.ne

end PtyClient

/-- A full state that the attachment sends is its base. When it is read, the client shows the base
exactly if its guard is below the state's generation (or it showed it before), and a delta from this
base is then applied exactly if the guard has not passed the delta. -/
theorem full_state_resynchronises_iff (T : Terminal τ) (hfit : T.RowsFit) (encoding : PtyEncoding)
    (sessionId : Uuid) (features : PtyFeatures) (hplain : features.richState = false)
    (hdelta : features.stateDelta = true) (rows cols generation : ℕ) {w₀ w₁ : PtyWorld τ}
    {link : DatagramLink} {datagram : PtyStateDatagram}
    (hrun : (ptyMachine T encoding sessionId features).Reaches (fun _ _ => True)
      (PtyWorld.spawned T rows cols generation) w₀)
    (htick : w₀.act T encoding sessionId features (.tick link) = some w₁)
    (hsent : w₁.datagrams = .full datagram :: w₀.datagrams) :
    ∃ base, w₁.attachment.plainDatagramState.last = some base ∧
    (∀ w₂ i client, (ptyMachine T encoding sessionId features).Reaches (fun _ _ => True) w₁ w₂ →
      w₂.datagrams[i]? = some (.full datagram) → w₂.client = some client →
      ∃ w₃ client', w₂.act T encoding sessionId features (.readDatagram i) = some w₃ ∧
        w₃.client = some client' ∧
        (client'.plainScreenState = some (.fromSnapshot base) ↔
          client.newestGeneration < datagram.generation ∨
            client.plainScreenState = some (.fromSnapshot base))) ∧
    (∀ w₄ w₅ link' delta snapshot (client : PtyClient),
      (ptyMachine T encoding sessionId features).Reaches (fun _ _ => True) w₁ w₄ →
      w₄.attachment.plainDatagramState.last = some base →
      w₄.act T encoding sessionId features (.tick link') = some w₅ →
      w₅.datagrams = .delta delta snapshot :: w₄.datagrams →
      client.plainScreenState = some (.fromSnapshot base) →
      ((client.readDatagram sessionId (.delta delta snapshot)).plainScreenState =
        some (.fromSnapshot snapshot) ↔ client.newestGeneration ≤ delta.generation)) := by
  have hcached₀ : w₀.pty.Cached T := PtyWorld.cached_reaches hrun (PtyState.cached_none rfl)
  have hcached₁ : w₁.pty.Cached T := PtyWorld.cached_act hcached₀ htick
  obtain ⟨rfl, hlast⟩ := PtyWorld.tick_sends_full hplain hdelta htick hsent
  refine ⟨_, hlast, ?_, ?_⟩
  · intro w₂ i client _ hget hclient
    refine ⟨{ w₂ with client := some (client.readDatagram sessionId
      (.full (fullDatagram sessionId (w₀.pty.snapshot T).1))) }, _, ?_, rfl,
      client.readDatagram_full_iff _⟩
    rw [PtyWorld.act, hget, Option.bind_some, hclient, Option.map_some]
  · intro w₄ w₅ link' delta snapshot client hlater hbase hnext hdelta' hscreen
    have hcached₄ : w₄.pty.Cached T := PtyWorld.cached_reaches hlater hcached₁
    obtain ⟨hsession, rfl, previous, hprevious, hderives⟩ :=
      PtyWorld.tick_sends_delta hplain hdelta hnext hdelta'
    rw [hbase] at hprevious
    cases hprevious
    have htext : ∀ row ∈ (w₄.pty.snapshot T).1.screen,
        row.utf8ByteSize ≤ PlainPtyScreenState.maxRowBytes := by
      rw [PtyState.snapshot_eq_render hcached₄]
      exact hfit _
    have hrows : (w₀.pty.snapshot T).1.rows = (w₀.pty.snapshot T).1.screen.length := by
      rw [PtyState.snapshot_eq_render hcached₀]
      exact (T.rows_length _).symm
    obtain ⟨changed, happly⟩ := applyDelta_accepts hderives hrows
      (PtyState.snapshot_screen_length hcached₀) htext
    exact PtyClient.readDatagram_delta_iff hsession hderives happly hscreen

section Examples

/-- The chunks that the examples print: a carriage return, a word and, after the shorter one, an
erase to the end of the line. -/
def printWord : Bool → Bytes
  | true => [13, 111, 110, 27, 91, 75]
  | false => [13, 111, 102, 102]

def shownWord : Option Bool → String
  | none => ""
  | some true => "on"
  | some false => "off"

/-- What `vt100` shows of these chunks in one row of four columns. -/
def wordTerminal : Terminal (Option Bool) where
  new _ _ := none
  process chunk shown := [true, false].find? (printWord · = chunk) |>.or shown
  setSize _ _ shown := shown
  size _ := (1, 4)
  rows shown := [shownWord shown]
  cursorPosition shown := (0, (shownWord shown).length)
  contentsFormatted shown := asBytes (shownWord shown)
  rows_length _ := rfl
  size_lt _ := by decide

theorem rowsFit_wordTerminal : wordTerminal.RowsFit := by
  intro shown row hrow
  obtain rfl := List.mem_singleton.mp hrow
  rcases shown with _ | _ | _ <;> decide

def fullLink : DatagramLink := ⟨some 1200, false, true⟩

/-- A word is put on the screen and written to the stream. -/
def wordUpdate (word : Bool) : List PtyAction := [.process (printWord word), .send, .recv, .writeOutput]

def wordAttach : List PtyAction := [.openPty 1 4, .writeSnapshot, .subscribe, .readFrame]

def onSnapshot : PtySnapshot := ⟨1, 1, 4, ["on"], 0, 2, printWord true⟩

set_option maxRecDepth 20000 in
theorem early_full_state_is_shown : ∃ (w₂ w₃ : PtyWorld (Option Bool)) (client : PtyClient),
    w₂.datagrams[0]? = some (.full (fullDatagram 0 onSnapshot)) ∧
    w₂.act wordTerminal lengthEncoding 0 deltaFeatures (.readDatagram 0) = some w₃ ∧
    w₃.client = some client ∧ client.plainScreenState = some (.fromSnapshot onSnapshot) := by
  have hrun : ((ptyMachine wordTerminal lengthEncoding 0 deltaFeatures).runWith (fun _ _ => true)
      (wordAttach ++ wordUpdate true) (PtyWorld.spawned wordTerminal 1 4 0)).any (fun w =>
        (w.act wordTerminal lengthEncoding 0 deltaFeatures (.tick fullLink)).any fun w' =>
          decide (w'.datagrams = .full (fullDatagram 0 onSnapshot) :: w.datagrams ∧
            w'.attachment.plainDatagramState.last = some onSnapshot ∧
            w'.client.any fun client => client.newestGeneration = 0)) = true := by decide
  obtain ⟨w₀, hreach, hticked⟩ := Steps.Machine.exists_reaches _ (fun _ _ _ => trivial) hrun
  obtain ⟨w₁, htick, hstate⟩ := (Option.any_eq_true _ _).mp hticked
  obtain ⟨hsent, hlast, hclient⟩ := of_decide_eq_true hstate
  obtain ⟨client, hclient, hguard⟩ := (Option.any_eq_true _ _).mp hclient
  obtain ⟨base, hbase, hread, -⟩ := full_state_resynchronises_iff wordTerminal rowsFit_wordTerminal
    lengthEncoding 0 deltaFeatures rfl rfl 1 4 0 hreach htick hsent
  obtain rfl := Option.some.inj (hlast.symm.trans hbase)
  have hget : w₁.datagrams[0]? = some (.full (fullDatagram 0 onSnapshot)) := by
    rw [hsent]
    rfl
  obtain ⟨w₃, client', hact, hclient', hiff⟩ := hread w₁ 0 client .start hget hclient
  refine ⟨w₁, w₃, client', hget, hact, hclient', hiff.mpr (.inl ?_)⟩
  rw [of_decide_eq_true hguard]
  decide

/-- One update whose delta is lost, and another one whose full state comes after its frame. -/
def lateFullState : List PtyAction :=
  wordAttach ++ wordUpdate true ++ [.readFrame, .tick wideLink] ++ wordUpdate false ++
    [.readFrame, .tick fullLink]

def offSnapshot : PtySnapshot := ⟨2, 1, 4, ["off"], 0, 3, printWord true ++ printWord false⟩

set_option maxRecDepth 20000 in
/-- The full state is read and the client still shows the screen of before the lost delta. -/
theorem late_full_state_is_ignored : ∃ (w₂ w₃ : PtyWorld (Option Bool)) (client : PtyClient),
    (ptyMachine wordTerminal lengthEncoding 0 deltaFeatures).Reaches (fun _ _ => True)
      (PtyWorld.spawned wordTerminal 1 4 0) w₂ ∧
    w₂.attachment.plainDatagramState.last = some offSnapshot ∧
    w₂.datagrams[0]? = some (.full (fullDatagram 0 offSnapshot)) ∧
    w₂.act wordTerminal lengthEncoding 0 deltaFeatures (.readDatagram 0) = some w₃ ∧
    w₃.client = some client ∧ client.plainScreenState ≠ some (.fromSnapshot offSnapshot) := by
  have hrun : ((ptyMachine wordTerminal lengthEncoding 0 deltaFeatures).runWith (fun _ _ => true)
      lateFullState (PtyWorld.spawned wordTerminal 1 4 0)).any (fun w =>
        decide (w.attachment.plainDatagramState.last = some offSnapshot ∧
          w.datagrams[0]? = some (.full (fullDatagram 0 offSnapshot))) &&
        (w.act wordTerminal lengthEncoding 0 deltaFeatures (.readDatagram 0)).any fun w' =>
          w'.client.any fun client =>
            decide (client.plainScreenState ≠ some (.fromSnapshot offSnapshot))) = true := by decide
  obtain ⟨w₂, hreach, hstate⟩ := Steps.Machine.exists_reaches _ (fun _ _ _ => trivial) hrun
  obtain ⟨hsent, hread⟩ := Bool.and_eq_true_iff.mp hstate
  obtain ⟨hlast, hget⟩ := of_decide_eq_true hsent
  obtain ⟨w₃, hact, hclient⟩ := (Option.any_eq_true _ _).mp hread
  obtain ⟨client, hclient, hscreen⟩ := (Option.any_eq_true _ _).mp hclient
  exact ⟨w₂, w₃, client, hreach, hlast, hget, hact, hclient, of_decide_eq_true hscreen⟩

end Examples

end Asp
