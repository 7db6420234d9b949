import Asp.Lib.Parties
import Asp.Proofs.FrameReader
import Asp.Spec.FrameMode

/-! One framing mode for a connection: a read that found the mode unknown pins it before it decodes,
and the mode leaves `unknown` once. -/

namespace Asp

open Framing

variable {front : Bytes} {length permits : ℕ}

theorem unitsFor_le {units : ℕ} (h : checkedFrameMemoryUnits length = .ok units) :
    unitsFor length ≤ units := by
  unfold checkedFrameMemoryUnits at h
  split_ifs at h
  cases h
  exact le_max_left (unitsFor length) 1

def UnitsCover (mode : FrameMode) (length : ℕ) (front : Bytes) (permits : ℕ) : Prop :=
  mode = .legacy ∧ unitsFor length ≤ permits ∨
  mode = .current ∧ front.length = frameHeaderBytes ∧ ∃ decodedLength,
    frameDecodedLen front = .ok decodedLength ∧
    unitsFor length + (if front.getD 2 0 = 1 then unitsFor decodedLength else 0) ≤ permits

theorem unitsCover_envelope (hfront : front.length ≤ frameHeaderBytes)
    (h : envelopeMemoryUnits length front = .ok permits) : UnitsCover .current length front permits := by
  obtain ⟨decodedLength, hdecoded, h⟩ := bind_ok h
  obtain ⟨wirePermits, hwire, h⟩ := bind_ok h
  have hdecoded : frameDecodedLen front = .ok decodedLength := by
    cases hfound : frameDecodedLen front with
    | error error => simp [hfound, Except.mapError] at hdecoded
    | ok found => simpa [hfound, Except.mapError] using hdecoded
  have hlong : ¬ front.length < frameHeaderBytes := by
    intro hshort
    rw [frameDecodedLen, if_pos hshort] at hdecoded
    cases hdecoded
  have hle := unitsFor_le hwire
  refine .inr ⟨rfl, by omega, decodedLength, hdecoded, ?_⟩
  split_ifs at h ⊢ with hcompressed
  · obtain ⟨units, hunits, h⟩ := bind_ok h
    have hle' := unitsFor_le hunits
    dsimp only at h
    split_ifs at h
    cases h
    exact Nat.add_le_add hle hle'
  · cases h
    rwa [Nat.add_zero]

theorem detectMode_cases (front : Bytes) :
    FrameConnection.detectMode front = .legacy ∨ FrameConnection.detectMode front = .current := by
  unfold FrameConnection.detectMode
  split_ifs
  · exact .inr rfl
  · exact .inl rfl

theorem unitsCover_first (hfront : front.length ≤ frameHeaderBytes)
    (h : firstFrameMemoryUnits (FrameConnection.detectMode front) length front = .ok permits) :
    UnitsCover (FrameConnection.detectMode front) length front permits := by
  rcases detectMode_cases front with hmode | hmode <;> rw [hmode] at h ⊢
  · rw [firstFrameMemoryUnits, if_pos rfl] at h
    exact .inl ⟨rfl, unitsFor_le h⟩
  · exact unitsCover_envelope hfront h

variable {α : Type} {z : Zlib} {message : Message α}

/-- A request that was decoded from its payload and is charged for it. -/
def ReturnedRequest.Charged (z : Zlib) (message : Message α) (r : ReturnedRequest α) : Prop :=
  ∃ decoded, decodeFramePayloadForVersion z r.payload r.mode.version = .ok decoded ∧
    message.decode decoded = some r.value ∧
    unitsFor r.payload.length +
      (if frameCompressed r.mode.version r.payload then unitsFor decoded.length else 0) ≤ r.permits

theorem UnitsCover.charged {mode : FrameMode} {rest decoded : Bytes} {value : α}
    (h : UnitsCover mode (front ++ rest).length front permits)
    (hdecode : decodeFramePayloadForVersion z (front ++ rest) mode.version = .ok decoded)
    (hvalue : message.decode decoded = some value) :
    ReturnedRequest.Charged z message ⟨value, mode, front ++ rest, permits⟩ := by
  refine ⟨decoded, hdecode, hvalue, ?_⟩
  rcases h with ⟨rfl, hle⟩ | ⟨rfl, hfront, decodedLength, hdecoded, hle⟩
  · have hcompressed : frameCompressed legacyProtocolVersion (front ++ rest) = false := rfl
    simpa [FrameMode.version, hcompressed] using hle
  · have hlength := (decodeFramePayload_length z hdecode).1
    rw [List.take_left' hfront, hdecoded] at hlength
    have hthird : (front ++ rest).getD 2 0 = front.getD 2 0 := by
      rw [List.getD_eq_getElem?_getD, List.getD_eq_getElem?_getD,
        List.getElem?_append_left (by rw [hfront]; decide)]
    have hcompressed : frameCompressed protocolVersion (front ++ rest) = decide (front.getD 2 0 = 1) := by
      rw [frameCompressed, hthird, List.length_append, hfront]
      simp
    rw [← Except.ok.inj hlength]
    show unitsFor (front ++ rest).length +
      (if frameCompressed protocolVersion (front ++ rest) = true then _ else 0) ≤ permits
    simpa only [hcompressed, decide_eq_true_eq] using hle

namespace FrameConnection

variable {s s' : FrameConnection α}

structure Pinned (z : Zlib) (message : Message α) (s : FrameConnection α) : Prop where
  returned : ∀ r ∈ s.returned, r.mode = s.frameMode ∧ r.mode ≠ .unknown ∧ r.Charged z message
  envelope : ∀ i length, s.streams i = .envelope length → s.frameMode = .current
  body : ∀ i mode length front permits pins, s.streams i = .body mode length front permits pins →
    mode ≠ .unknown ∧ UnitsCover mode length front permits ∧ (pins = false → mode = s.frameMode)

def Sound (frameMode : FrameMode) (read : FrameRead) : Prop :=
  (∀ length, read = .envelope length → frameMode = .current) ∧
  ∀ mode length front permits pins, read = .body mode length front permits pins →
    mode ≠ .unknown ∧ UnitsCover mode length front permits ∧ (pins = false → mode = frameMode)

theorem sound_idle (frameMode : FrameMode) : Sound frameMode .idle := ⟨nofun, nofun⟩

theorem sound_failed (frameMode : FrameMode) (error : BudgetReadError) : Sound frameMode (.failed error) :=
  ⟨nofun, nofun⟩

theorem Pinned.put (h : s.Pinned z message) (stream : ℕ) {read : FrameRead} (hread : Sound s.frameMode read) :
    (s.put stream read).Pinned z message := by
  refine ⟨h.returned, fun i length hi => ?_, fun i mode length front permits pins hi => ?_⟩
  all_goals
    rcases eq_or_ne i stream with rfl | hne
    · dsimp only [FrameConnection.put] at hi
      rw [Function.update_self] at hi
      first | exact hread.1 length hi | exact hread.2 mode length front permits pins hi
    · dsimp only [FrameConnection.put] at hi
      rw [Function.update_of_ne hne] at hi
      first | exact h.envelope i length hi | exact h.body i mode length front permits pins hi

theorem sound_charge {frameMode : FrameMode} (mode : FrameMode) {acquired pins : Bool}
    {units : Except BudgetReadError ℕ} (hmode : mode ≠ .unknown)
    (hunits : ∀ permits, units = .ok permits → UnitsCover mode length front permits)
    (hpins : pins = false → mode = frameMode) :
    Sound frameMode (charge mode length front units acquired pins) := by
  unfold charge
  split
  · exact sound_failed ..
  · next permits =>
    split_ifs
    · refine ⟨nofun, fun _ _ _ _ _ heq => ?_⟩
      cases heq
      exact ⟨hmode, hunits permits rfl, hpins⟩
    · exact sound_failed ..

theorem sound_headerNext (mode : FrameMode) (length : ℕ) (acquired : Bool) :
    Sound mode (headerNext mode length acquired) := by
  cases mode with
  | unknown =>
    simp only [headerNext]
    split_ifs
    · exact sound_failed ..
    · exact ⟨nofun, nofun⟩
  | legacy =>
    simp only [headerNext]
    split_ifs
    · exact sound_failed ..
    · exact sound_failed ..
    · exact sound_charge .legacy nofun (fun permits hunits => .inl ⟨rfl, unitsFor_le hunits⟩) fun _ => rfl
  | current =>
    simp only [headerNext]
    split_ifs
    · exact sound_failed ..
    · exact sound_failed ..
    · exact ⟨fun _ _ => rfl, nofun⟩

theorem pin_spec (s : FrameConnection α) (mode : FrameMode) :
    (s.pin mode).1.frameMode = (s.pin mode).2 ∧
      (s.frameMode ≠ .unknown → (s.pin mode).1.frameMode = s.frameMode) := by
  unfold pin
  split_ifs with hmode
  · exact ⟨rfl, fun hne => absurd hmode hne⟩
  · exact ⟨rfl, fun _ => rfl⟩

theorem Pinned.pin (h : s.Pinned z message) (mode : FrameMode) : (s.pin mode).1.Pinned z message := by
  unfold FrameConnection.pin
  split_ifs with hmode
  · refine ⟨fun r hr => ?_, fun i length hi => ?_, fun i mode' length front permits pins hi => ?_⟩
    · obtain ⟨heq, hne, -⟩ := h.returned r hr
      exact absurd (heq.trans hmode) hne
    · cases hmode.symm.trans (h.envelope i length hi)
    · obtain ⟨hne, hcovers, hpins⟩ := h.body i mode' length front permits pins hi
      exact ⟨hne, hcovers, fun hfalse => absurd ((hpins hfalse).trans hmode) hne⟩
  · exact h

theorem Pinned.finish (h : s.Pinned z message) {mode : FrameMode} {rest : Bytes}
    (hmode : mode = s.frameMode) (hne : mode ≠ .unknown)
    (hcovers : UnitsCover mode (front ++ rest).length front permits) (stream : ℕ) :
    (finish z message s stream mode (front ++ rest) permits).Pinned z message := by
  unfold FrameConnection.finish
  split
  · exact h.put stream (sound_failed ..)
  · next decoded hdecode =>
    split
    · exact h.put stream (sound_failed ..)
    · next value hvalue =>
      have hidle := h.put stream (sound_idle _)
      refine ⟨fun r hr => ?_, hidle.envelope, hidle.body⟩
      rcases Parties.mem_concat hr with hr | rfl
      · exact h.returned r hr
      · exact ⟨hmode, hne, hcovers.charged hdecode hvalue⟩

theorem finish_frameMode (s : FrameConnection α) (stream : ℕ) (mode : FrameMode) (payload : Bytes)
    (permits : ℕ) : (finish z message s stream mode payload permits).frameMode = s.frameMode := by
  unfold finish
  split
  · rfl
  · split <;> rfl

theorem Pinned.act {action : FrameAction} (h : s.Pinned z message) (hact : s.act z message action = some s') :
    s'.Pinned z message ∧ (s.frameMode ≠ .unknown → s'.frameMode = s.frameMode) := by
  cases action with
  | header stream len acquired =>
    simp only [FrameConnection.act, Option.ite_none_right_eq_some, Option.some.injEq] at hact
    obtain ⟨-, rfl⟩ := hact
    exact ⟨h.put stream (sound_headerNext ..), fun _ => rfl⟩
  | front stream bytes acquired =>
    simp only [FrameConnection.act] at hact
    split at hact
    · next length hstream =>
      split_ifs at hact with hlength
      cases hact
      refine ⟨h.put stream (sound_charge _ ?_ (fun permits => ?_) nofun), fun _ => rfl⟩
      · rcases detectMode_cases bytes with hmode | hmode <;> rw [hmode] <;> nofun
      · exact unitsCover_first (hlength.trans_le (Nat.min_le_right ..))
    · next length hstream =>
      split_ifs at hact with hlength
      cases hact
      refine ⟨h.put stream (sound_charge .current nofun (fun permits => unitsCover_envelope hlength.le)
        fun _ => ?_), fun _ => rfl⟩
      exact (h.envelope stream length hstream).symm
    · cases hact
  | body stream bytes =>
    simp only [FrameConnection.act] at hact
    split at hact
    · next mode length front permits pins hstream =>
      obtain ⟨hne, hcovers, hpins⟩ := h.body stream mode length front permits pins hstream
      split_ifs at hact with hlength hpinned hsame <;> obtain rfl := Option.some.inj hact
      all_goals rw [← hlength, ← List.length_append] at hcovers
      · obtain ⟨hmode, hkept⟩ := pin_spec s mode
        exact ⟨(h.pin mode).finish (hsame.symm.trans hmode.symm) hne hcovers stream,
          fun hknown => (finish_frameMode ..).trans (hkept hknown)⟩
      · exact ⟨(h.pin mode).put stream (sound_failed ..), (pin_spec s mode).2⟩
      · exact ⟨h.finish (hpins (by simpa using hpinned)) hne hcovers stream, fun _ => finish_frameMode ..⟩
    · cases hact
  | drop stream =>
    cases hact
    exact ⟨h.put stream (sound_idle _), fun _ => rfl⟩
  | hello version =>
    simp only [FrameConnection.act, Option.map_eq_some_iff] at hact
    obtain ⟨mode, -, rfl⟩ := hact
    exact ⟨h.pin mode, (pin_spec s mode).2⟩

end FrameConnection

/-- All requests of a connection were decoded in the mode that it has, and are charged. -/
theorem one_frame_mode_and_full_charge {α : Type} (z : Zlib) (message : Message α) (s : FrameConnection α)
    (h : (frameMachine z message).Reaches (fun _ _ => True) .initial s) :
    (∀ r ∈ s.returned, r.mode = s.frameMode ∧ r.mode ≠ .unknown ∧ r.Charged z message) ∧
    ∀ action s', (frameMachine z message).act action s = some s' → s.frameMode ≠ .unknown →
      s'.frameMode = s.frameMode := by
  have hpinned : s.Pinned z message :=
    h.invariant ⟨nofun, nofun, nofun⟩ fun _ _ _ _ hact h => (h.act hact).1
  exact ⟨hpinned.returned, fun action s' hact => (hpinned.act hact).2⟩

/-- Two streams race with their first frames; the legacy one finds the mode pinned. -/
theorem slower_stream_does_not_switch : ∃ s : FrameConnection Bytes,
    (frameMachine runZlib plainMessage).Reaches (fun _ _ => True) .initial s ∧
      s.returned.length = 1 ∧ (∀ r ∈ s.returned, r.mode = .current ∧ r.Charged runZlib plainMessage) ∧
      s.streams 1 = .failed (.modeChanged .current .legacy) := by
  have hreach : (frameMachine runZlib plainMessage).Reaches (fun _ _ => True) .initial _ :=
    (frameMachine runZlib plainMessage).reaches_of_run (fun _ _ _ => trivial) .start
      (show (frameMachine runZlib plainMessage).runWith (fun _ _ => true)
        [.header 0 [0, 0, 0, 8] true, .header 1 [0, 0, 0, 1] true,
          .front 0 [65, 70, 0, 0, 0, 0, 1] true, .front 1 [9] true, .body 0 [42], .body 1 []] _ =
        some _ from rfl)
  obtain ⟨hreturned, -⟩ := one_frame_mode_and_full_charge _ _ _ hreach
  exact ⟨_, hreach, rfl, fun r hr => ⟨(hreturned r hr).1, (hreturned r hr).2.2⟩, rfl⟩

end Asp
