import Asp.Lib.Parties
import Asp.Spec.PtyInput

/-! Sequenced input of a PTY attachment: the accepted frames are numbered from zero, what was handed
to the PTY is a beginning of them, and what was written is a beginning of that. -/

namespace Asp

def PtyInputSequencer.next (s : PtyInputSequencer) : ℕ := s.last.elim 0 (· + 1)

/-- The boundary of the counter needs no case of its own: behind it every number is a
duplicate. -/
theorem PtyInputSequencer.accept_cases (s : PtyInputSequencer) {sequence : ℕ}
    (hsequence : sequence ≤ usizeMax) :
    (sequence = s.next ∧ s.accept sequence = (.ok true, ⟨some sequence⟩)) ∨
    (sequence < s.next ∧ s.accept sequence = (.ok false, s)) ∨
    (s.next < sequence ∧ s.accept sequence = (.error s.next, s)) := by
  obtain ⟨last⟩ := s
  cases last with
  | none =>
    simp only [accept, next, Option.elim_none]
    split_ifs with hzero
    · exact .inl ⟨hzero, rfl⟩
    · exact .inr (.inr ⟨Nat.pos_of_ne_zero hzero, rfl⟩)
  | some last =>
    simp only [accept, next, Option.elim_some]
    split_ifs with hold hnext
    · exact .inr (.inl ⟨Nat.lt_succ_of_le hold, rfl⟩)
    all_goals
      have hexpected : saturatingAdd last 1 = last + 1 := by
        unfold saturatingAdd
        omega
    · exact .inl ⟨hnext.trans hexpected, rfl⟩
    · rw [hexpected] at hnext ⊢
      exact .inr (.inr ⟨by omega, rfl⟩)

theorem filterMap_concat {α β : Type} (f : α → Option β) (xs : List α) (x : α) :
    (xs ++ [x]).filterMap f = xs.filterMap f ++ (f x).toList := by
  rw [List.filterMap_append, List.filterMap_cons]
  cases f x <;> rfl

section Trace

variable (trace : List PtyInputEvent) (event : PtyInputEvent)

theorem receivedFrames_concat :
    receivedFrames (trace ++ [event]) = receivedFrames trace ++ event.receivedFrame.toList :=
  filterMap_concat ..

theorem handedFrames_concat :
    handedFrames (trace ++ [event]) = handedFrames trace ++ event.handedFrame.toList :=
  filterMap_concat ..

theorem wroteFrames_concat :
    wroteFrames (trace ++ [event]) = wroteFrames trace ++ event.wroteFrame.toList :=
  filterMap_concat ..

end Trace

/-- The frames are numbered from zero, each the first that was received with its number. -/
def Numbered (received frames : List PtyInputSequenced) : Prop :=
  frames.map some = (List.range frames.length).map (frameOf received)

namespace Numbered

variable {received frames handed : List PtyInputSequenced}

section

variable (h : Numbered received frames)

include h

theorem frameOf_eq {sequence : ℕ} (hlt : sequence < frames.length) :
    ∃ frame, frame ∈ frames ∧ frameOf received sequence = some frame := by
  refine ⟨frames.get ⟨sequence, hlt⟩, List.get_mem .., ?_⟩
  have hget := congrArg (·[sequence]?) h
  simp only [List.getElem?_map, List.getElem?_range hlt, Option.map_some,
    List.getElem?_eq_getElem hlt] at hget
  exact (Option.some.inj hget).symm

theorem sequence_lt {frame : PtyInputSequenced} (hmem : frame ∈ frames) : frame.sequence <
    frames.length := by
  have hsome : some frame ∈ (List.range frames.length).map (frameOf received) := by
    rw [← h]
    exact List.mem_map_of_mem hmem
  obtain ⟨sequence, hrange, hframe⟩ := List.mem_map.mp hsome
  have hnumber := List.find?_some hframe
  rw [beq_iff_eq] at hnumber
  rw [hnumber]
  exact List.mem_range.mp hrange

theorem receive (more : List PtyInputSequenced) : Numbered (received ++ more) frames := by
  refine Eq.trans h (List.map_congr_left fun sequence hmem => ?_)
  obtain ⟨frame, -, hframe⟩ := h.frameOf_eq (List.mem_range.mp hmem)
  rw [frameOf] at hframe
  rw [frameOf, frameOf, List.find?_append, hframe, Option.some_or]

theorem accept {frame : PtyInputSequenced}
    (hnew : ∀ earlier ∈ received, earlier.sequence < frames.length)
    (hnext : frame.sequence = frames.length) : Numbered (received ++ [frame]) (frames ++ [frame]) := by
  have hnone : received.find? (fun earlier => earlier.sequence == frames.length) = none := by
    rw [List.find?_eq_none]
    intro earlier hmem
    simpa using Nat.ne_of_lt (hnew earlier hmem)
  have hframe : frameOf (received ++ [frame]) frames.length = some frame := by
    rw [frameOf, List.find?_append, hnone, Option.none_or]
    simp only [List.find?_cons, hnext, beq_self_eq_true]
  have hold : frames.map some = (List.range frames.length).map (frameOf (received ++ [frame])) :=
    h.receive [frame]
  rw [Numbered, List.map_append, hold, List.length_append, List.length_singleton, List.range_succ,
    List.map_append, List.map_singleton, List.map_singleton, hframe]

theorem beginning (hle : handed <+: frames) : Numbered received handed := by
  obtain ⟨rest, rfl⟩ := hle
  have htake := congrArg (List.take handed.length) h
  rw [← List.map_take, ← List.map_take, List.take_left, List.take_range, List.length_append,
    Nat.min_eq_left (Nat.le_add_right _ _)] at htake
  exact htake

end

end Numbered

def PtyInput.frame : PtyInput → List PtyInputSequenced
  | .plain _ => []
  | .sequenced frame => [frame]

theorem PtyInputEvent.handedFrame_handed (input : PtyInput) :
    (PtyInputEvent.handed input).handedFrame.toList = input.frame := by
  cases input <;> rfl

theorem PtyInputEvent.wroteFrame_wrote (input : PtyInput) :
    (PtyInputEvent.wrote input).wroteFrame.toList = input.frame := by
  cases input <;> rfl

/-- What was handed and written of the accepted frames. -/
def PtyInputPhase.At (accepted handed wrote : List PtyInputSequenced) (detached : Option PtyInput) :
    PtyInputPhase → Prop
  | .reading => detached = none ∧ handed = accepted ∧ wrote = accepted
  | .queued input => detached = none ∧ handed ++ input.frame = accepted ∧ wrote = handed
  | .writing input => detached = none ∧ handed = accepted ∧ wrote ++ input.frame = accepted
  | .acknowledging sequence =>
      detached = none ∧ handed = accepted ∧ wrote = accepted ∧ sequence < accepted.length
  | .ended => handed <+: accepted ∧ wrote ++ (detached.elim [] (·.frame)) <+: handed

theorem PtyInputPhase.At.close {accepted handed wrote : List PtyInputSequenced}
    {detached : Option PtyInput} {phase : PtyInputPhase}
    (h : phase.At accepted handed wrote detached) :
    PtyInputPhase.ended.At accepted handed wrote detached := by
  cases phase with
  | reading =>
    obtain ⟨rfl, rfl, rfl⟩ := h
    exact ⟨List.prefix_rfl, (List.append_nil _).symm ▸ List.prefix_rfl⟩
  | queued input =>
    obtain ⟨rfl, rfl, rfl⟩ := h
    exact ⟨List.prefix_append _ _, (List.append_nil _).symm ▸ List.prefix_rfl⟩
  | writing input =>
    obtain ⟨rfl, rfl, hwrote⟩ := h
    refine ⟨List.prefix_rfl, ?_⟩
    rw [Option.elim_none, List.append_nil, ← hwrote]
    exact List.prefix_append _ _
  | acknowledging sequence =>
    obtain ⟨rfl, rfl, rfl, -⟩ := h
    exact ⟨List.prefix_rfl, (List.append_nil _).symm ▸ List.prefix_rfl⟩
  | ended => exact h

/-- Everything up to an acknowledged number was written before. -/
def AcknowledgedAfterWrite (trace : List PtyInputEvent) : Prop :=
  ∀ earlier sequence, earlier ++ [.acknowledged sequence] <+: trace → ∀ number ≤ sequence,
    ∃ frame, frameOf (receivedFrames earlier) number = some frame ∧ frame ∈ wroteFrames earlier

theorem AcknowledgedAfterWrite.concat {trace : List PtyInputEvent} (h : AcknowledgedAfterWrite trace)
    {event : PtyInputEvent}
    (hevent : ∀ sequence, event = .acknowledged sequence → ∀ number ≤ sequence,
      ∃ frame, frameOf (receivedFrames trace) number = some frame ∧ frame ∈ wroteFrames trace) :
    AcknowledgedAfterWrite (trace ++ [event]) := by
  intro earlier sequence hbegin
  rcases List.prefix_concat_iff.mp hbegin with hlast | hbefore
  · obtain ⟨rfl, hsame⟩ := List.append_inj' hlast rfl
    exact hevent sequence (List.singleton_inj.mp hsame).symm
  · exact h earlier sequence hbefore

namespace PtyInputWorld

variable {input : PtyInput} {phase : PtyInputPhase}

structure Sound (accepted : List PtyInputSequenced) (w : PtyInputWorld) : Prop where
  next : w.sequencer.next = accepted.length
  numbered : Numbered (receivedFrames w.trace) accepted
  /-- As long as frames are read, there was no gap. -/
  known : w.phase ≠ .ended → ∀ frame ∈ receivedFrames w.trace, frame.sequence < accepted.length
  phase : w.phase.At accepted (handedFrames w.trace) (wroteFrames w.trace) w.detached
  acks : AcknowledgedAfterWrite w.trace

variable {accepted : List PtyInputSequenced} {w w' : PtyInputWorld}

theorem sound_attached : attached.Sound [] := by
  refine ⟨rfl, rfl, ?_, ⟨rfl, rfl, rfl⟩, ?_⟩
  · intro _ frame hframe
    cases hframe
  · intro earlier sequence hbegin
    exact absurd (List.prefix_nil.mp hbegin) (by simp)

section

variable (h : w.Sound accepted)

include h

theorem Sound.move {detached : Option PtyInput} (hended : phase ≠ .ended → w.phase ≠ .ended)
    (hat : phase.At accepted (handedFrames w.trace) (wroteFrames w.trace) detached) :
    Sound accepted { w with phase := phase, detached := detached } :=
  ⟨h.next, h.numbered, fun hphase => h.known (hended hphase), hat, h.acks⟩

theorem Sound.advance {event : PtyInputEvent} {detached : Option PtyInput}
    (hended : phase ≠ .ended → w.phase ≠ .ended)
    (hreceived : phase ≠ .ended → ∀ frame ∈ event.receivedFrame, frame.sequence < accepted.length)
    (hat : phase.At accepted (handedFrames w.trace ++ event.handedFrame.toList)
      (wroteFrames w.trace ++ event.wroteFrame.toList) detached)
    (hack : ∀ sequence, event = .acknowledged sequence → wroteFrames w.trace = accepted ∧
      sequence < accepted.length) :
    Sound accepted { w.record event with phase := phase, detached := detached } := by
  refine ⟨h.next, ?_, ?_, ?_, h.acks.concat ?_⟩
  · simp only [record, receivedFrames_concat]
    exact h.numbered.receive _
  · intro hphase frame hframe
    simp only [record, receivedFrames_concat] at hframe
    rcases List.mem_append.mp hframe with hold | hnew
    · exact h.known (hended hphase) frame hold
    · exact hreceived hphase frame (Option.mem_toList.mp hnew)
  · simp only [record, handedFrames_concat, wroteFrames_concat]
    exact hat
  · intro sequence hevent number hnumber
    obtain ⟨hwrote, hlt⟩ := hack sequence hevent
    obtain ⟨frame, hmem, hframe⟩ := h.numbered.frameOf_eq (hnumber.trans_lt hlt)
    rw [hwrote]
    exact ⟨frame, hframe, hmem⟩

theorem Sound.at_reading (hphase : w.phase = .reading) :
    w.detached = none ∧ handedFrames w.trace = accepted ∧ wroteFrames w.trace = accepted := by
  have hat := h.phase
  rwa [hphase] at hat

theorem Sound.close : Sound accepted { w with phase := .ended } :=
  h.move (fun hended => absurd rfl hended) h.phase.close

theorem Sound.record_ended {event : PtyInputEvent}
    (hhanded : event.handedFrame = none) (hwrote : event.wroteFrame = none)
    (hack : ∀ sequence, event ≠ .acknowledged sequence) :
    Sound accepted { w.record event with phase := .ended } := by
  refine h.advance (fun hphase => absurd rfl hphase) (fun hphase => absurd rfl hphase) ?_
    fun sequence hevent => absurd hevent (hack sequence)
  rw [hhanded, hwrote, Option.toList_none, List.append_nil, List.append_nil]
  exact h.phase.close

theorem Sound.refuse (refusal : PtyRefusal) : (w.refuse refusal).Sound accepted :=
  h.record_ended rfl rfl fun _ hack => by cases hack

theorem Sound.refuse_received (message : PtyMessage) (refusal : PtyRefusal) :
    ((w.record (.received message)).refuse refusal).Sound accepted :=
  (h.record_ended rfl rfl fun _ hack => by cases hack).refuse refusal

theorem Sound.received (hphase : w.phase = .reading) {message : PtyMessage}
    (hold : ∀ frame ∈ (PtyInputEvent.received message).receivedFrame,
      frame.sequence < accepted.length) (hat : phase.At accepted accepted accepted none) :
    Sound accepted { w.record (.received message) with phase := phase } := by
  obtain ⟨hdetached, hhanded, hwrote⟩ := h.at_reading hphase
  refine h.advance (fun _ => ?_) (fun _ => hold) ?_ ?_
  · rw [hphase]
    exact PtyInputPhase.noConfusion
  · rw [hhanded, hwrote]
    simp only [PtyInputEvent.handedFrame, PtyInputEvent.wroteFrame, Option.toList_none,
      List.append_nil, record, hdetached]
    exact hat
  · intro sequence hevent
    cases hevent

theorem Sound.accepts (hphase : w.phase = .reading) {frame : PtyInputSequenced}
    (hnext : frame.sequence = accepted.length) :
    Sound (accepted ++ [frame])
      { w.record (.received (.input (.sequenced frame))) with
        sequencer := ⟨some frame.sequence⟩
        phase := .queued (.sequenced frame) } := by
  obtain ⟨hdetached, hhanded, hwrote⟩ := h.at_reading hphase
  have hknown := h.known (by rw [hphase]; exact PtyInputPhase.noConfusion)
  refine ⟨?_, ?_, ?_, ?_, h.acks.concat ?_⟩
  · simp only [PtyInputSequencer.next, Option.elim_some, hnext, List.length_append,
      List.length_singleton]
  · simp only [record, receivedFrames_concat]
    exact h.numbered.accept hknown hnext
  · intro _ earlier hearlier
    simp only [record, receivedFrames_concat] at hearlier
    rw [List.length_append, List.length_singleton]
    rcases Parties.mem_concat hearlier with hold | rfl
    · exact (hknown earlier hold).trans (Nat.lt_succ_self _)
    · rw [hnext]
      exact Nat.lt_succ_self _
  · simp only [record, handedFrames_concat, wroteFrames_concat, PtyInputEvent.handedFrame,
      PtyInputEvent.wroteFrame, Option.toList_none, List.append_nil, hhanded, hwrote]
    exact ⟨hdetached, rfl, rfl⟩
  · intro sequence hevent
    cases hevent

theorem Sound.receive (hphase : w.phase = .reading) (message : PtyMessage) (checks : PtyChecks) :
    ∃ accepted', ((w.record (.received message)).receive message checks).Sound accepted' := by
  cases message with
  | input input =>
    cases input with
    | plain data =>
      unfold PtyInputWorld.receive
      dsimp only
      cases checks.admitInput data with
      | some refusal => exact ⟨accepted, h.refuse_received _ refusal⟩
      | none =>
        refine ⟨accepted, h.received hphase ?_ ⟨rfl, List.append_nil _, rfl⟩⟩
        intro frame hframe
        cases hframe
    | sequenced frame =>
      unfold PtyInputWorld.receive
      dsimp only
      cases checks.admitInput frame.data with
      | some refusal => exact ⟨accepted, h.refuse_received _ refusal⟩
      | none =>
        have hsequencer : (w.record (.received (.input (.sequenced frame)))).sequencer =
          w.sequencer := rfl
        rw [hsequencer]
        rcases w.sequencer.accept_cases frame.sequence_le with
          ⟨hnext, heq⟩ | ⟨hold, heq⟩ | ⟨-, heq⟩
        · rw [heq]
          exact ⟨accepted ++ [frame], h.accepts hphase (hnext.trans h.next)⟩
        · rw [heq]
          rw [h.next] at hold
          refine ⟨accepted, h.received hphase ?_ ⟨rfl, rfl, rfl, hold⟩⟩
          intro earlier hearlier
          cases hearlier
          exact hold
        · rw [heq]
          exact ⟨accepted, h.refuse_received _ _⟩
  | resize rows cols =>
    unfold PtyInputWorld.receive
    dsimp only
    cases checks.admitResize rows cols with
    | some refusal => exact ⟨accepted, h.refuse_received _ refusal⟩
    | none =>
      have hsame : { w.record (.received (.resize rows cols)) with phase := .reading } =
          w.record (.received (.resize rows cols)) := by
        rw [← hphase]
        rfl
      rw [← hsame]
      refine ⟨accepted, h.received hphase ?_ ⟨rfl, rfl, rfl⟩⟩
      intro frame hframe
      cases hframe
  | other => exact ⟨accepted, h.refuse_received _ _⟩

theorem Sound.hand (hphase : w.phase = .queued input) :
    Sound accepted { w.record (.handed input) with phase := .writing input } := by
  have hat := h.phase
  rw [hphase] at hat
  obtain ⟨hdetached, hhanded, hwrote⟩ := hat
  refine h.advance (fun _ => ?_) (fun _ frame hframe => ?_) ?_ fun sequence hevent => ?_
  · rw [hphase]
    exact PtyInputPhase.noConfusion
  · cases hframe
  · have hnone : (PtyInputEvent.handed input).wroteFrame = none := rfl
    rw [PtyInputEvent.handedFrame_handed, hnone, Option.toList_none, List.append_nil, hwrote]
    exact ⟨hdetached, hhanded, hhanded⟩
  · cases hevent

theorem Sound.wrote (hphase : w.phase = .writing input) :
    ((w.record (.wrote input)).written input).Sound accepted := by
  have hat := h.phase
  rw [hphase] at hat
  obtain ⟨hdetached, hhanded, hwrote⟩ := hat
  have hgoing : w.phase ≠ .ended := by
    rw [hphase]
    exact PtyInputPhase.noConfusion
  cases input with
  | plain data =>
    refine h.advance (fun _ => hgoing) (fun _ frame hframe => ?_) ?_ fun sequence hevent => ?_
    · cases hframe
    · exact ⟨hdetached, (List.append_nil _).trans hhanded, hwrote⟩
    · cases hevent
  | sequenced frame =>
    have hmem : frame ∈ accepted := by
      rw [← hwrote]
      exact List.mem_append_right _ (List.mem_singleton.mpr rfl)
    refine h.advance (fun _ => hgoing) (fun _ frame hframe => ?_) ?_ fun sequence hevent => ?_
    · cases hframe
    · exact ⟨hdetached, (List.append_nil _).trans hhanded, hwrote, h.numbered.sequence_lt hmem⟩
    · cases hevent

theorem Sound.wrote_detached (hphase : w.phase = .ended) (hdetached : w.detached = some input) :
    Sound accepted { w.record (.wrote input) with detached := none } := by
  have hat := h.phase
  rw [hphase, hdetached] at hat
  obtain ⟨hhanded, hwrote⟩ := hat
  refine h.advance (fun hgoing => hgoing) (fun _ frame hframe => ?_) ?_ fun sequence hevent => ?_
  · cases hframe
  · have hended : (w.record (.wrote input)).phase = .ended := hphase
    have hnone : (PtyInputEvent.wrote input).handedFrame = none := rfl
    rw [hended, hnone, PtyInputEvent.wroteFrame_wrote, Option.toList_none, List.append_nil]
    refine ⟨hhanded, ?_⟩
    rwa [Option.elim_none, List.append_nil]
  · cases hevent

theorem Sound.acknowledge {sequence : ℕ} (hphase : w.phase = .acknowledging sequence) :
    Sound accepted { w.record (.acknowledged sequence) with phase := .reading } := by
  have hat := h.phase
  rw [hphase] at hat
  obtain ⟨hdetached, hhanded, hwrote, hlt⟩ := hat
  refine h.advance (fun _ => ?_) (fun _ frame hframe => ?_) ?_ fun number hevent => ?_
  · rw [hphase]
    exact PtyInputPhase.noConfusion
  · cases hframe
  · exact ⟨hdetached, (List.append_nil _).trans hhanded, (List.append_nil _).trans hwrote⟩
  · cases hevent
    exact ⟨hwrote, hlt⟩

theorem Sound.act {action : PtyInputAction} (hact : w.act action = some w') :
    ∃ accepted', w'.Sound accepted' := by
  cases action with
  | receive message checks =>
    cases hphase : w.phase <;> simp only [PtyInputWorld.act, hphase, reduceCtorEq] at hact
    cases hact
    exact h.receive hphase message checks
  | close =>
    cases hphase : w.phase <;> simp only [PtyInputWorld.act, hphase, reduceCtorEq] at hact
    cases hact
    exact ⟨accepted, h.close⟩
  | revoke =>
    cases hphase : w.phase <;> simp only [PtyInputWorld.act, hphase, reduceCtorEq] at hact
    cases hact
    exact ⟨accepted, h.refuse _⟩
  | acquire =>
    cases hphase : w.phase <;> simp only [PtyInputWorld.act, hphase, reduceCtorEq] at hact
    cases hact
    exact ⟨accepted, h.hand hphase⟩
  | finishWrite =>
    cases hphase : w.phase with
    | writing input =>
      simp only [PtyInputWorld.act, hphase] at hact
      cases hact
      exact ⟨accepted, h.wrote hphase⟩
    | ended =>
      cases hdetached : w.detached <;>
        simp only [PtyInputWorld.act, hphase, hdetached, reduceCtorEq] at hact
      cases hact
      exact ⟨accepted, h.wrote_detached hphase hdetached⟩
    | _ => simp only [PtyInputWorld.act, hphase, reduceCtorEq] at hact
  | failWrite =>
    cases hphase : w.phase with
    | writing input =>
      simp only [PtyInputWorld.act, hphase] at hact
      cases hact
      exact ⟨accepted, h.close⟩
    | ended =>
      cases hdetached : w.detached <;>
        simp only [PtyInputWorld.act, hphase, hdetached, reduceCtorEq] at hact
      cases hact
      have hat := h.phase
      rw [hphase] at hat
      refine ⟨accepted, h.move (fun hended => absurd rfl hended) ⟨hat.1, ?_⟩⟩
      rw [Option.elim_none, List.append_nil]
      exact (List.prefix_append _ _).trans hat.2
    | _ => simp only [PtyInputWorld.act, hphase, reduceCtorEq] at hact
  | timeout =>
    cases hphase : w.phase with
    | queued input =>
      simp only [PtyInputWorld.act, hphase] at hact
      cases hact
      exact ⟨accepted, h.close⟩
    | writing input =>
      simp only [PtyInputWorld.act, hphase] at hact
      cases hact
      have hat := h.phase
      rw [hphase] at hat
      obtain ⟨-, hhanded, hwrote⟩ := hat
      refine ⟨accepted, h.move (fun hended => absurd rfl hended) ⟨?_, ?_⟩⟩
      · rw [hhanded]
      · rw [Option.elim_some, hwrote, hhanded]
    | _ => simp only [PtyInputWorld.act, hphase, reduceCtorEq] at hact
  | writeAck =>
    cases hphase : w.phase <;> simp only [PtyInputWorld.act, hphase, reduceCtorEq] at hact
    cases hact
    exact ⟨accepted, h.acknowledge hphase⟩
  | failAck =>
    cases hphase : w.phase <;> simp only [PtyInputWorld.act, hphase, reduceCtorEq] at hact
    cases hact
    exact ⟨accepted, h.close⟩

end

theorem exists_sound (hrun : ptyInputMachine.Reaches (fun _ _ => True) attached w) :
    ∃ accepted, w.Sound accepted := by
  refine hrun.invariant (P := fun w => ∃ accepted, w.Sound accepted) ⟨[], sound_attached⟩ ?_
  rintro action s s' - hact ⟨accepted, h⟩
  exact h.act hact

theorem act_ended (hphase : w.phase = .ended) (hdetached : w.detached = none)
    (action : PtyInputAction) : w.act action = none := by
  cases action <;> simp only [act, hphase, hdetached]

theorem receive_gap {frame : PtyInputSequenced} (checks : PtyChecks)
    (hgap : w.sequencer.next < frame.sequence) :
    ∃ refusal, w.receive (.input (.sequenced frame)) checks = w.refuse refusal ∧
      (checks.admitInput frame.data = none → refusal = ptyInputGap w.sequencer.next frame.sequence) := by
  unfold receive
  dsimp only
  cases hadmit : checks.admitInput frame.data with
  | some refusal => exact ⟨refusal, rfl, fun hnone => by cases hnone⟩
  | none =>
    rcases w.sequencer.accept_cases frame.sequence_le with ⟨hnext, -⟩ | ⟨hold, -⟩ | ⟨-, heq⟩
    · omega
    · omega
    · rw [heq]
      exact ⟨_, rfl, fun _ => rfl⟩

end PtyInputWorld

/-- Whatever frames come and however their writes end: the frames handed to the PTY are those with
the numbers up to some `k`, in order, each the first with its number; a gap hands nothing; and when
a number is acknowledged, the frames up to it have been written. -/
theorem sequenced_input_is_written_once_in_order {w : PtyInputWorld}
    (hrun : ptyInputMachine.Reaches (fun _ _ => True) .attached w) :
    (∃ k, (handedFrames w.trace).map some =
      (List.range k).map (frameOf (receivedFrames w.trace))) ∧
    (∀ frame checks w', w.phase = .reading → (handedFrames w.trace).length < frame.sequence →
      w.act (.receive (.input (.sequenced frame)) checks) = some w' →
        handedFrames w'.trace = handedFrames w.trace ∧ (∀ action, w'.act action = none) ∧
        (checks.admitInput frame.data = none → .refused
          (ptyInputGap (handedFrames w.trace).length frame.sequence) ∈ w'.trace)) ∧
    (∀ earlier sequence, earlier ++ [.acknowledged sequence] <+: w.trace → ∀ number ≤ sequence,
      ∃ frame, frameOf (receivedFrames earlier) number = some frame ∧
        frame ∈ wroteFrames earlier) := by
  obtain ⟨accepted, hsound⟩ := PtyInputWorld.exists_sound hrun
  refine ⟨?_, ?_, hsound.acks⟩
  · exact ⟨_, hsound.numbered.beginning hsound.phase.close.1⟩
  · intro frame checks w' hphase hgap hact
    obtain ⟨hdetached, hhanded, -⟩ := hsound.at_reading hphase
    rw [hhanded, ← hsound.next] at hgap
    simp only [PtyInputWorld.act, hphase] at hact
    cases hact
    obtain ⟨refusal, hreceive, hmessage⟩ :=
      PtyInputWorld.receive_gap (w := w.record (.received (.input (.sequenced frame)))) checks hgap
    rw [hreceive]
    refine ⟨?_, PtyInputWorld.act_ended rfl hdetached, ?_⟩
    · simp only [PtyInputWorld.refuse, PtyInputWorld.record, handedFrames_concat,
        PtyInputEvent.handedFrame, Option.toList_none, List.append_nil]
    · intro hadmit
      rw [hhanded, ← hsound.next, hmessage hadmit]
      exact List.mem_append_right _ (List.mem_singleton.mpr rfl)

section Examples

def admittedChecks : PtyChecks := ⟨true, true, true, none, none, true⟩

def inputFrame (sequence : ℕ) (data : Bytes) (h : sequence ≤ usizeMax) : PtyMessage :=
  .input (.sequenced ⟨sequence, data, h⟩)

/-- Two frames, the second of them twice; then a third one whose write times out and ends
later. -/
def retriedInput : List PtyInputAction :=
  [.receive (inputFrame 0 [104] (by decide)) admittedChecks, .acquire, .finishWrite, .writeAck,
    .receive (inputFrame 1 [105] (by decide)) admittedChecks, .acquire, .finishWrite, .writeAck,
    .receive (inputFrame 1 [105] (by decide)) admittedChecks, .writeAck,
    .receive (inputFrame 2 [10] (by decide)) admittedChecks, .acquire, .timeout, .finishWrite]

/-- Three frames are handed over, and the retried one is acknowledged twice. -/
theorem retried_input_is_written_once : ∃ w,
    ptyInputMachine.Reaches (fun _ _ => True) .attached w ∧
    (handedFrames w.trace).flatMap (·.data) = [104, 105, 10] ∧
    ∃ k, (handedFrames w.trace).map some =
      (List.range k).map (frameOf (receivedFrames w.trace)) := by
  have hrun : (ptyInputMachine.runWith (fun _ _ => true) retriedInput .attached).any (fun w =>
      decide ((handedFrames w.trace).flatMap (·.data) = [104, 105, 10])) = true := by decide
  obtain ⟨w, hreach, hdata⟩ := Steps.Machine.exists_reaches _ (fun _ _ _ => trivial) hrun
  exact ⟨w, hreach, of_decide_eq_true hdata, (sequenced_input_is_written_once_in_order hreach).1⟩

end Examples

end Asp
