import Asp.Spec.Pty

/-! The steps of a PTY and its attachment, one by one: what each needs and what it changes. -/

namespace Asp

variable {τ : Type}

namespace PtyState

variable {T : Terminal τ}

theorem snapshot_generation (s : PtyState τ) : (s.snapshot T).2.generation = s.generation := by
  unfold PtyState.snapshot
  split <;> rfl

theorem richSnapshot_generation (s : PtyState τ) :
    (s.richSnapshot T).2.generation = s.generation := by
  unfold PtyState.richSnapshot
  split <;> rfl

end PtyState

inductive PtyStep (T : Terminal τ) (encoding : PtyEncoding) (sessionId : Uuid)
    (features : PtyFeatures) (w : PtyWorld τ) : PtyAction → PtyWorld τ → Prop
  | process (chunk : Bytes) (hreader : w.reader = none) :
      PtyStep T encoding sessionId features w (.process chunk)
        { w with pty := w.pty.process T chunk, reader := some chunk, chunks := w.chunks ++ [chunk] }
  | send {chunk : Bytes} (hreader : w.reader = some chunk) :
      PtyStep T encoding sessionId features w .send
        { w with reader := none, output := w.output ++ [chunk] }
  | resize (rows cols : ℕ) :
      PtyStep T encoding sessionId features w (.resize rows cols)
        { w with pty := w.pty.resize T rows cols }
  | openPty (rows cols : ℕ) (hphase : w.attachment.phase = .closed) :
      PtyStep T encoding sessionId features w (.openPty rows cols)
        { w with
          pty := w.pty.resize T rows cols
          attachment := { w.attachment with phase := .opened } }
  | writeSnapshot (hphase : w.attachment.phase = .opened) :
      PtyStep T encoding sessionId features w .writeSnapshot
        (w.writeReady T features fun generation rows cols =>
          .snapshotted generation rows cols features.scrollback)
  | writeScrollback (lines : List String) {generation rows cols : ℕ}
      (hphase : w.attachment.phase = .snapshotted generation rows cols true) :
      PtyStep T encoding sessionId features w (.writeScrollback lines)
        { w with
          attachment := { w.attachment with
            phase := .snapshotted generation rows cols false
            written := w.attachment.written ++ [.readyScrollback generation rows cols lines] } }
  | subscribe {generation rows cols : ℕ}
      (hphase : w.attachment.phase = .snapshotted generation rows cols false) :
      PtyStep T encoding sessionId features w .subscribe
        { w with attachment := { w.attachment with phase := .live, position := w.output.length } }
  | received {data : Bytes} (hphase : w.attachment.phase = .live)
      (hkeeps : ¬ Broadcast.Lagging ptyOutputCapacity w.output w.attachment.position)
      (hdata : w.output[w.attachment.position]? = some data) :
      PtyStep T encoding sessionId features w .recv
        { w with
          attachment := { w.attachment with
            phase := .received data
            position := w.attachment.position + 1 } }
  | lagged (hphase : w.attachment.phase = .live)
      (hlag : Broadcast.Lagging ptyOutputCapacity w.output w.attachment.position) :
      PtyStep T encoding sessionId features w .recv
        { w with
          attachment := { w.attachment with
            phase := .lagged
            position := w.output.length - ptyOutputCapacity } }
  | writeOutput {data : Bytes} (hphase : w.attachment.phase = .received data) :
      PtyStep T encoding sessionId features w .writeOutput
        { w with
          attachment := { w.attachment with
            phase := .live
            datagramPending := true
            written := w.attachment.written ++ [.output w.pty.generation data] } }
  | writeLagSnapshot {w₁ : PtyWorld τ} (hphase : w.attachment.phase = .lagged)
      (hready : w₁ = w.writeReady T features fun _ _ _ => .live) :
      PtyStep T encoding sessionId features w .writeLagSnapshot
        { w₁ with attachment := { w₁.attachment with datagramPending := true } }
  | resizeRequest (rows cols : ℕ) (hphase : w.attachment.phase = .live) :
      PtyStep T encoding sessionId features w (.resizeRequest rows cols)
        { w with
          pty := w.pty.resize T rows cols
          attachment := { w.attachment with phase := .live, datagramPending := true } }
  | tick (link : DatagramLink) {w₁ : PtyWorld τ} (hphase : w.attachment.phase = .live)
      (hpending : w₁ = { w with
        attachment := { w.attachment with phase := .live, datagramPending := false } }) :
      PtyStep T encoding sessionId features w (.tick link)
        (w₁.sendState T encoding sessionId features link)
  | idleTick (link : DatagramLink) (hphase : w.attachment.phase = .live) :
      PtyStep T encoding sessionId features w (.tick link) w
  | readFrame {frame : PtyFrame} (hframe : w.attachment.written[w.read]? = some frame) :
      PtyStep T encoding sessionId features w .readFrame
        { w with read := w.read + 1, client := readPtyFrame w.client frame }
  | readDatagram (i : ℕ) {datagram : PtyDatagram} {client : PtyClient}
      (hdatagram : w.datagrams[i]? = some datagram) (hclient : w.client = some client) :
      PtyStep T encoding sessionId features w (.readDatagram i)
        { w with client := some (client.readDatagram sessionId datagram) }

namespace PtyWorld

variable {T : Terminal τ} {encoding : PtyEncoding} {sessionId : Uuid} {features : PtyFeatures}
  {w w' : PtyWorld τ}

theorem step_of_recv (hphase : w.attachment.phase = .live) (hrecv : w.recv = some w') :
    PtyStep T encoding sessionId features w .recv w' := by
  unfold PtyWorld.recv at hrecv
  rcases Broadcast.recv_cases ptyOutputCapacity w.output w.attachment.position with
    ⟨hlag, heq⟩ | ⟨hkeeps, data, hdata, heq⟩ | ⟨-, heq⟩
  · rw [heq] at hrecv
    cases hrecv
    exact .lagged hphase hlag
  · rw [heq] at hrecv
    cases hrecv
    exact .received hphase hkeeps hdata
  · rw [heq] at hrecv
    cases hrecv

theorem step_of_act {action : PtyAction} (hact : w.act T encoding sessionId features action = some w') :
    PtyStep T encoding sessionId features w action w' := by
  cases action with
  | process chunk =>
    simp only [PtyWorld.act, Option.ite_none_left_eq_some, Option.not_isSome_iff_eq_none] at hact
    obtain rfl := Option.some.inj hact.2
    exact .process chunk hact.1
  | send =>
    obtain ⟨chunk, hreader, rfl⟩ := Option.map_eq_some_iff.mp hact
    exact .send hreader
  | resize rows cols =>
    simp only [PtyWorld.act, Option.ite_none_right_eq_some] at hact
    obtain rfl := Option.some.inj hact.2
    exact .resize rows cols
  | openPty rows cols =>
    cases hphase : w.attachment.phase <;>
      simp only [PtyWorld.act, hphase, reduceCtorEq, Option.ite_none_right_eq_some] at hact
    obtain rfl := Option.some.inj hact.2
    exact .openPty rows cols hphase
  | writeSnapshot =>
    cases hphase : w.attachment.phase <;> simp only [PtyWorld.act, hphase, reduceCtorEq] at hact
    cases hact
    exact .writeSnapshot hphase
  | writeScrollback lines =>
    cases hphase : w.attachment.phase with
    | snapshotted generation rows cols scrollback =>
      cases scrollback <;> simp only [PtyWorld.act, hphase, reduceCtorEq] at hact
      cases hact
      exact .writeScrollback lines hphase
    | _ => simp only [PtyWorld.act, hphase, reduceCtorEq] at hact
  | subscribe =>
    cases hphase : w.attachment.phase with
    | snapshotted generation rows cols scrollback =>
      cases scrollback <;> simp only [PtyWorld.act, hphase, reduceCtorEq] at hact
      cases hact
      exact .subscribe hphase
    | _ => simp only [PtyWorld.act, hphase, reduceCtorEq] at hact
  | recv =>
    cases hphase : w.attachment.phase <;> simp only [PtyWorld.act, hphase, reduceCtorEq] at hact
    exact step_of_recv hphase hact
  | writeOutput =>
    cases hphase : w.attachment.phase <;> simp only [PtyWorld.act, hphase, reduceCtorEq] at hact
    cases hact
    exact .writeOutput hphase
  | writeLagSnapshot =>
    cases hphase : w.attachment.phase <;> simp only [PtyWorld.act, hphase, reduceCtorEq] at hact
    cases hact
    exact .writeLagSnapshot hphase rfl
  | resizeRequest rows cols =>
    cases hphase : w.attachment.phase <;>
      simp only [PtyWorld.act, hphase, reduceCtorEq, Option.ite_none_right_eq_some] at hact
    obtain rfl := Option.some.inj hact.2
    exact .resizeRequest rows cols hphase
  | tick link =>
    cases hphase : w.attachment.phase <;> simp only [PtyWorld.act, hphase, reduceCtorEq] at hact
    split_ifs at hact
    · cases hact
      exact .tick link hphase rfl
    · cases hact
      exact .idleTick link hphase
  | readFrame =>
    obtain ⟨frame, hframe, rfl⟩ := Option.map_eq_some_iff.mp hact
    exact .readFrame hframe
  | readDatagram i =>
    obtain ⟨datagram, hdatagram, hact⟩ := Option.bind_eq_some_iff.mp hact
    obtain ⟨client, hclient, rfl⟩ := Option.map_eq_some_iff.mp hact
    exact .readDatagram i hdatagram hclient

theorem sendState_same (w : PtyWorld τ) (link : DatagramLink) :
    ∃ pty state datagrams published,
      w.sendState T encoding sessionId features link =
        { w with
          pty := pty
          attachment := { w.attachment with plainDatagramState := state }
          datagrams := datagrams
          published := published } ∧ pty.generation = w.pty.generation := by
  unfold PtyWorld.sendState
  split_ifs
  · exact ⟨_, _, _, _, rfl, PtyState.richSnapshot_generation _⟩
  · exact ⟨_, _, _, _, rfl, PtyState.richSnapshot_generation _⟩
  · exact ⟨_, _, _, _, rfl, PtyState.snapshot_generation _⟩
  · exact ⟨_, _, _, _, rfl, PtyState.snapshot_generation _⟩

end PtyWorld

end Asp
