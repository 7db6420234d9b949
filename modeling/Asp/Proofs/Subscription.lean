import Asp.Proofs.Replay
import Asp.Spec.Subscription

/-! What subscribers see. A stream writes the session's history from its cursor on, in order and
without a gap, up to an error that ends it. -/

namespace Asp

open Std Broadcast

section History

variable {c : Crates} {sessionId : Uuid} {allowed : Wal → LogCall → Prop} {s s' : SessionState}
  {history : List Event} {a : Wal} {e : Event}

/-- The events of a session are numbered from 1, and its log has the newest. -/
structure Recorded (history : List Event) (a : Wal) : Prop where
  ids : history.map Event.id = List.range' 1 a.head
  log : a.events = history.drop a.boundary

section

variable (h : Recorded history a)

include h

theorem Recorded.length : history.length = a.head := by
  simpa using congrArg List.length h.ids

theorem Recorded.boundary_le : a.boundary ≤ history.length :=
  h.length ▸ Nat.le_add_right _ _

theorem Recorded.append (hid : e.id = a.head + 1) (synced : ℕ) :
    Recorded (history ++ [e]) (a.append e synced) := by
  refine ⟨?_, ?_⟩
  · rw [List.map_append, h.ids, Wal.append_head, ← List.range'_append_1, List.map_singleton, hid,
      Nat.add_comm a.head 1]
    rfl
  · rw [show (a.append e synced).boundary = a.boundary from rfl,
      List.drop_append_of_le_length h.boundary_le, ← h.log]
    rfl

theorem Recorded.take (k : ℕ) : Recorded (history.take (a.take k).head) (a.take k) := by
  have hhead : (a.take k).head = a.boundary + (a.events.take k).length := rfl
  have hle : (a.take k).head ≤ a.head := by
    rw [hhead, Wal.head]
    exact Nat.add_le_add_left (List.length_take_le' ..) _
  refine ⟨?_, ?_⟩
  · obtain ⟨n, hn⟩ := Nat.exists_eq_add_of_le hle
    rw [List.map_take, h.ids, hn, ← List.range'_append_1]
    exact List.take_left' (List.length_range' ..)
  · rw [show (a.take k).boundary = a.boundary from rfl, List.drop_take, ← h.log, hhead,
      Nat.add_sub_cancel_left, List.length_take, ← List.take_eq_take_min]
    rfl

theorem Recorded.same {a' : Wal} (hhead : a'.head = a.head)
    (hevents : a'.events = a.events ∨ a'.events = []) : Recorded history a' := by
  refine ⟨hhead ▸ h.ids, ?_⟩
  rcases hevents with hsame | hnil
  · have hboundary : a'.boundary = a.boundary := by
      rw [Wal.head, Wal.head, hsame] at hhead
      omega
    rw [hsame, hboundary, h.log]
  · have hboundary : a'.boundary = a'.head := by
      rw [Wal.head, hnil]
      rfl
    rw [hnil, hboundary, hhead, ← h.length, List.drop_length]

end

theorem Recorded.step {event : Option Event} (h : Recorded history s.log)
    (hwindow : Windowed s.journal s.log) (hstep : SessionStep c sessionId allowed s event s') :
    Recorded (history ++ event.toList) s'.log := by
  cases hstep with
  | append unixMs kind chance =>
    exact h.append (Journal.call_proper hwindow sessionId unixMs kind chance) _
  | refused | ack =>
    rwa [Option.toList_none, List.append_nil]
  | compact hthrough =>
    rw [Option.toList_none, List.append_nil]
    refine h.same ?_ (.inr rfl)
    rw [Wal.compacted_head, hthrough, hwindow.next]

theorem Recorded.settle (h : Recorded history a) (w : World) : Recorded history (a.settle w) :=
  h.same (a.settle_head w) (.inl (a.settle_events w))

theorem Recorded.midway {call : LogCall} {a' : Wal} (h : Recorded history a)
    (hproper : call.Proper sessionId a) (hmidway : a.Midway call a') :
    Recorded ((history ++ call.appended).take a'.head) a' := by
  have hsame : Recorded ((history ++ call.appended).take a.head) a := by
    rwa [List.take_left' h.length]
  cases call with
  | append call =>
    rcases hmidway with rfl | rfl
    · exact hsame
    · have happend := h.append (e := call.event) hproper a.synced
      rwa [LogCall.appended, ← happend.length, List.take_length]
  | compact snapshot =>
    rcases hmidway with rfl | rfl
    · exact hsame
    · have hhead : (Wal.compacted snapshot).head = a.head := by
        rw [Wal.compacted_head, hproper.1]
      rw [hhead]
      exact hsame.same hhead (.inr rfl)
  | ack | idle =>
    obtain rfl := hmidway
    exact hsame

theorem Recorded.crash {call : LogCall} {stop : Stop} (h : Recorded history s.log)
    (hcrash : SessionCrash c sessionId allowed stop s call s') :
    Recorded ((history ++ call.appended).take s'.log.head) s'.log := by
  obtain ⟨hproper, -, -, -, -, hsurvives, -, -⟩ := hcrash
  rw [Wal.settle_head]
  refine Recorded.settle ?_ _
  cases stop with
  | kill => exact h.midway hproper hsurvives
  | powerLoss =>
    obtain ⟨a₁, k, hmidway, -, rfl⟩ := hsurvives
    have htaken := (h.midway hproper hmidway).take k
    have hle : (a₁.take k).head ≤ a₁.head := Nat.add_le_add_left (List.length_take_le' ..) _
    rwa [List.take_take, min_eq_left hle] at htaken

section

variable (h : Recorded history a)

include h

theorem Recorded.id_at {i : ℕ} (he : history[i]? = some e) : e.id = i + 1 := by
  have hi : i < a.head := h.length ▸ (List.getElem?_eq_some_iff.mp he).1
  have hget := congrArg (fun ids => ids[i]?) h.ids
  simp only [List.getElem?_map, he, Option.map_some] at hget
  rw [List.getElem?_range' hi] at hget
  have := Option.some.inj hget
  omega

theorem Recorded.getElem (he : e ∈ history) : 0 < e.id ∧ history[e.id - 1]? = some e := by
  obtain ⟨i, hi⟩ := List.getElem?_of_mem he
  rw [h.id_at hi]
  exact ⟨Nat.succ_pos i, hi⟩

theorem Recorded.id_le (he : e ∈ history) : e.id ≤ a.head := by
  obtain ⟨-, hget⟩ := h.getElem he
  have hlt := (List.getElem?_eq_some_iff.mp hget).1
  rw [h.length] at hlt
  omega

theorem Recorded.eq_of_id {e' : Event} (he : e ∈ history) (he' : e' ∈ history)
    (hid : e'.id = e.id) : e' = e := by
  have hsame := (h.getElem he').2
  rw [hid, (h.getElem he).2] at hsame
  exact (Option.some.inj hsame).symm

theorem Recorded.mem_take (he : e ∈ history) {n : ℕ} (hn : e.id ≤ n) : e ∈ history.take n := by
  obtain ⟨hpos, hget⟩ := h.getElem he
  refine List.mem_of_getElem? (i := e.id - 1) ?_
  rw [List.getElem?_take_of_lt (by omega), hget]

theorem Recorded.filter_after (n : ℕ) : history.filter (fun e => n < e.id) = history.drop n := by
  have hids : history.map Event.id = List.range' (0 + 1) history.length := by
    rw [h.length]
    exact h.ids
  simpa using Asp.filter_after hids (Nat.zero_le n)

theorem Recorded.increasing : history.Pairwise (·.id < ·.id) := by
  rw [← List.pairwise_map (f := Event.id) (R := (· < ·)), h.ids]
  exact List.pairwise_lt_range'

theorem Recorded.filter_between (m n : ℕ) :
    history.filter (fun e => m < e.id ∧ e.id ≤ n) = (history.take n).drop m := by
  have hlater : ∀ e ∈ history.drop n, n < e.id := fun e he => by
    rw [← h.filter_after, List.mem_filter] at he
    exact of_decide_eq_true he.2
  have hids : (history.take n).map Event.id = List.range' (0 + 1) (history.take n).length := by
    rw [List.map_take, h.ids, ← h.length]
    exact List.ext_getElem (by simp) (by simp)
  have hearlier : ∀ e ∈ history.take n, e.id ≤ n := fun e he => by
    have hmem : e.id ∈ (history.take n).map Event.id := List.mem_map_of_mem he
    rw [hids, List.mem_range'_1] at hmem
    have := List.length_take_le n history
    omega
  have htake : (history.take n).filter (fun e => m < e.id ∧ e.id ≤ n) = (history.take n).drop m := by
    rw [← Nat.sub_zero m, ← Asp.filter_after hids (Nat.zero_le m), Nat.sub_zero]
    exact List.filter_congr fun e he => by simp [hearlier e he]
  have hdrop : (history.drop n).filter (fun e => m < e.id ∧ e.id ≤ n) = [] :=
    List.filter_eq_nil_iff.mpr fun e he => by
      have := hlater e he
      simp only [decide_eq_true_eq]
      omega
  conv_lhs => rw [← List.take_append_drop n history]
  rw [List.filter_append, htake, hdrop, List.append_nil]

end

end History

namespace EventStream

variable {history published : List Event} {stream : EventStream}

variable {m n : ℕ}

/-- The notifications of the events numbered after `m`, up to `n`. -/
def span (stream : EventStream) (history : List Event) (m n : ℕ) : List StreamFrame :=
  ((history.take n).drop m).flatMap stream.notify

def readyFrame (stream : EventStream) : StreamFrame :=
  .ready stream.throughEventId stream.retainedFromEventId stream.compacted

def markerFrames (stream : EventStream) : List StreamFrame :=
  if stream.request.marker then [.caughtUp stream.throughEventId] else []

/-- All that a stream writes for the first `n` events. -/
def script (stream : EventStream) (history : List Event) (n : ℕ) : List StreamFrame :=
  stream.readyFrame :: (stream.span history stream.start stream.throughEventId ++
    stream.markerFrames ++ stream.span history stream.throughEventId n)

def cursor (stream : EventStream) (history published : List Event) : ℕ :=
  history.length - (published.length - stream.position)

inductive Progress (history : List Event) (cursor : ℕ) (stream : EventStream) : Prop
  | ready (hphase : stream.phase = .ready) (hcursor : cursor = stream.throughEventId)
      (hbacklog : stream.backlog = (history.take stream.throughEventId).drop stream.start)
      (hwritten : stream.written = [])
  | backlog (front : List Event)
      (hphase : stream.phase = .starting ∨ stream.phase = .backlog)
      (hcursor : cursor = stream.throughEventId)
      (hbacklog : front ++ stream.backlog = (history.take stream.throughEventId).drop stream.start)
      (hwritten : stream.written = stream.readyFrame :: front.flatMap stream.notify)
  | live (hphase : stream.phase = .live) (hcursor : stream.throughEventId ≤ cursor)
      (hwritten : stream.written = stream.script history cursor)
  | finished (body ending : List StreamFrame) (hphase : stream.phase = .finished)
      (hbody : body <+: stream.script history history.length)
      (hending : ending = [] ∨ ∃ code message, ending = [.error code message])
      (hwritten : stream.written = body ++ ending)

structure Tracks (history published : List Event) (stream : EventStream) : Prop where
  position : stream.position ≤ published.length
  through : stream.throughEventId ≤ history.length
  start : stream.start ≤ stream.throughEventId
  progress : stream.Progress history (stream.cursor history published)

theorem cursor_le : stream.cursor history published ≤ history.length := Nat.sub_le ..

theorem span_append (hn : n ≤ history.length) (more : List Event) :
    stream.span (history ++ more) m n = stream.span history m n := by
  rw [span, span, List.take_append_of_le_length hn]

theorem span_mono {n' : ℕ} (hn : n ≤ n') :
    stream.span history m n <+: stream.span history m n' := by
  obtain ⟨k, rfl⟩ := Nat.exists_eq_add_of_le hn
  have htake : history.take n <+: history.take (n + k) :=
    List.take_prefix_take_left (Nat.le_add_right n k)
  exact (htake.drop m).flatMap _

theorem span_succ (hm : m ≤ n) {e : Event} (he : history[n]? = some e) :
    stream.span history m (n + 1) = stream.span history m n ++ stream.notify e := by
  have hn : n < history.length := (List.getElem?_eq_some_iff.mp he).1
  rw [span, span, List.take_add_one, he, Option.toList_some,
    List.drop_append_of_le_length (by rw [List.length_take]; omega), List.flatMap_append,
    List.flatMap_singleton]

theorem script_append (hthrough : stream.throughEventId ≤ history.length) (hn : n ≤ history.length)
    (more : List Event) : stream.script (history ++ more) n = stream.script history n := by
  rw [script, script, span_append hthrough, span_append hn]

theorem script_mono {n' : ℕ} (hn : n ≤ n') : stream.script history n <+: stream.script history n' :=
  List.prefix_cons_inj _ |>.mpr ((List.prefix_append_right_inj _).mpr (span_mono hn))

theorem script_grows (hthrough : stream.throughEventId ≤ history.length) (more : List Event) :
    stream.script history history.length <+:
      stream.script (history ++ more) (history ++ more).length := by
  rw [← script_append hthrough le_rfl more]
  exact script_mono (by simp)

theorem published_at_cursor (hsuffix : published <:+ history)
    {e : Event} (he : published[stream.position]? = some e) :
    history[stream.cursor history published]? = some e := by
  obtain ⟨front, rfl⟩ := hsuffix
  have hlt : stream.position < published.length := (List.getElem?_eq_some_iff.mp he).1
  have hcursor : stream.cursor (front ++ published) published = front.length + stream.position := by
    rw [cursor, List.length_append]
    omega
  rw [hcursor, List.getElem?_append_right (Nat.le_add_right ..), Nat.add_sub_cancel_left, he]

section

variable (h : stream.Tracks history published)

include h

theorem Tracks.publish (hle : published.length ≤ history.length) (more : List Event) :
    stream.Tracks (history ++ more) (published ++ more) := by
  obtain ⟨hposition, hthrough, hstart, hprogress⟩ := h
  have hcursor : stream.cursor (history ++ more) (published ++ more) =
      stream.cursor history published := by
    simp only [cursor, List.length_append]
    omega
  have hbacklog : ((history ++ more).take stream.throughEventId) =
      history.take stream.throughEventId := List.take_append_of_le_length hthrough
  refine ⟨?_, ?_, hstart, ?_⟩
  · rw [List.length_append]
    omega
  · rw [List.length_append]
    omega
  · rw [hcursor]
    cases hprogress with
    | ready hphase hcur hb hwritten => exact .ready hphase hcur (hbacklog ▸ hb) hwritten
    | backlog front hphase hcur hb hwritten => exact .backlog front hphase hcur (hbacklog ▸ hb) hwritten
    | live hphase hcur hwritten =>
      exact .live hphase hcur (by rw [script_append hthrough cursor_le]; exact hwritten)
    | finished body ending hphase hbody hending hwritten =>
      exact .finished body ending hphase (hbody.trans (script_grows hthrough more)) hending hwritten

theorem Tracks.written :
    ∃ body ending, stream.written = body ++ ending ∧
      body <+: stream.script history history.length ∧
      (ending = [] ∨ stream.phase = .finished ∧ ∃ code message, ending = [.error code message]) := by
  obtain ⟨-, hthrough, hstart, hprogress⟩ := h
  cases hprogress with
  | ready _ _ _ hwritten => exact ⟨[], [], hwritten, List.nil_prefix, .inl rfl⟩
  | backlog front _ _ hb hwritten =>
    refine ⟨_, [], by rw [hwritten, List.append_nil], ?_, .inl rfl⟩
    refine (List.prefix_cons_inj _).mpr ?_
    rw [List.append_assoc]
    refine List.IsPrefix.trans ?_ (List.prefix_append _ _)
    rw [span, ← hb, List.flatMap_append]
    exact List.prefix_append _ _
  | live _ _ hwritten =>
    exact ⟨_, [], by rw [hwritten, List.append_nil], script_mono cursor_le, .inl rfl⟩
  | finished body ending hphase hbody hending hwritten =>
    exact ⟨body, ending, hwritten, hbody, hending.imp_right fun h => ⟨hphase, h⟩⟩

theorem Tracks.finish (hphase : stream.phase ≠ .finished) {ending : List StreamFrame}
    (hending : ending = [] ∨ ∃ code message, ending = [.error code message]) {position : ℕ}
    (hposition : position ≤ published.length) :
    ({ stream.finish ending with position := position } : EventStream).Tracks history published := by
  obtain ⟨body, rest, hwritten, hbody, hrest⟩ := h.written
  obtain rfl : rest = [] := hrest.resolve_right fun hfin => hphase hfin.1
  refine ⟨hposition, h.through, h.start, .finished body ending rfl hbody hending ?_⟩
  show stream.written ++ ending = body ++ ending
  rw [hwritten, List.append_nil]

theorem Tracks.receive (hsuffix : published <:+ history) (hphase : stream.phase = .live)
    (capacity : ℕ) : (stream.receive capacity published).Tracks history published := by
  unfold EventStream.receive
  rcases recv_cases capacity published stream.position with ⟨hlag, heq⟩ | ⟨-, e, he, heq⟩ | ⟨-, heq⟩
  · rw [heq]
    exact h.finish (by rw [hphase]; exact nofun) (.inr ⟨_, _, rfl⟩) (Nat.sub_le ..)
  · rw [heq]
    have hlt : stream.position < published.length := (List.getElem?_eq_some_iff.mp he).1
    have hle := hsuffix.length_le
    have hcursor : ({ stream.write (stream.notify e) with position := stream.position + 1 } :
        EventStream).cursor history published = stream.cursor history published + 1 := by
      simp only [cursor]
      omega
    refine ⟨hlt, h.through, h.start, ?_⟩
    rw [hcursor]
    cases h.progress with
    | live _ hcur hwritten =>
      refine .live hphase (hcur.trans (Nat.le_succ _)) ?_
      show stream.written ++ stream.notify e = stream.script history _
      rw [hwritten, script, script, span_succ hcur (published_at_cursor hsuffix he), List.cons_append,
        List.append_assoc _ _ (stream.notify e)]
    | ready hother | backlog _ hother | finished _ _ hother => simp [hphase] at hother
  · rwa [heq]

theorem Tracks.writeBacklog {front : List Event} (hphase : stream.phase = .backlog)
    (hcursor : stream.cursor history published = stream.throughEventId)
    (hbacklog : front ++ stream.backlog = (history.take stream.throughEventId).drop stream.start)
    (hwritten : stream.written = stream.readyFrame :: front.flatMap stream.notify) (capacity : ℕ) :
    (stream.step capacity published .proceed).Tracks history published := by
  cases hrest : stream.backlog with
  | nil =>
    have hstep : stream.step capacity published .proceed =
        { stream.write stream.markerFrames with phase := .live } := by
      simp [EventStream.step, hphase, hrest, markerFrames]
    rw [hstep]
    refine ⟨h.position, h.through, h.start, .live rfl hcursor.ge ?_⟩
    show stream.written ++ stream.markerFrames =
      stream.script history (stream.cursor history published)
    have hnone : stream.span history stream.throughEventId stream.throughEventId = [] := by
      rw [span, List.drop_eq_nil_of_le (List.length_take_le ..)]
      rfl
    rw [hrest, List.append_nil] at hbacklog
    rw [hcursor, script, hnone, List.append_nil, span, ← hbacklog, hwritten, List.cons_append]
  | cons e rest =>
    have hstep : stream.step capacity published .proceed =
        { stream.write (stream.notify e) with backlog := rest } := by
      simp [EventStream.step, hphase, hrest]
    rw [hstep]
    refine ⟨h.position, h.through, h.start, .backlog (front ++ [e]) (.inr hphase) hcursor ?_ ?_⟩
    · rwa [List.append_assoc, List.singleton_append, ← hrest]
    · show stream.written ++ stream.notify e = stream.readyFrame :: (front ++ [e]).flatMap stream.notify
      rw [hwritten, List.flatMap_append, List.flatMap_singleton, List.cons_append]

end

theorem step_lagging {capacity : ℕ} (hphase : stream.phase = .live)
    (hlag : Lagging capacity published stream.position) :
    stream.step capacity published .proceed =
      { stream.finish [laggedFrame (published.length - capacity - stream.position)] with
        position := published.length - capacity } := by
  simp only [EventStream.step, hphase, EventStream.receive, recv, if_pos hlag]

theorem notified_finish {ending : List StreamFrame}
    (hending : ending = [] ∨ ∃ code message, ending = [.error code message]) {position : ℕ} :
    ({ stream.finish ending with position := position } : EventStream).notified = stream.notified := by
  show (stream.written ++ ending).filterMap StreamFrame.event = stream.written.filterMap _
  rw [List.filterMap_append]
  rcases hending with rfl | ⟨code, message, rfl⟩ <;> simp [StreamFrame.event]

theorem Tracks.step (h : stream.Tracks history published) (hsuffix : published <:+ history)
    (capacity : ℕ) (choice : StreamChoice) :
    (stream.step capacity published choice).Tracks history published := by
  have hstopped : stream.phase ≠ .finished → (stream.finish []).Tracks history published :=
    fun hphase => h.finish hphase (.inl rfl) h.position
  have hrevoked : stream.phase ≠ .finished → (stream.finish [revokedFrame]).Tracks history published :=
    fun hphase => h.finish hphase (.inr ⟨_, _, rfl⟩) h.position
  cases h.progress with
  | ready hphase hcursor hbacklog hwritten =>
    have hready : ({ stream.write [stream.readyFrame] with phase := .starting } :
        EventStream).Tracks history published := by
      refine ⟨h.position, h.through, h.start, .backlog [] (.inl rfl) hcursor hbacklog ?_⟩
      show stream.written ++ [stream.readyFrame] = [stream.readyFrame]
      rw [hwritten, List.nil_append]
    cases choice with
    | stopped => simpa [EventStream.step, hphase] using hstopped (by simp [hphase])
    | proceed | revoked => simpa [EventStream.step, hphase, readyFrame] using hready
  | backlog front hphase hcursor hbacklog hwritten =>
    rcases hphase with hphase | hphase
    · have hbegin : ({ stream with phase := .backlog } : EventStream).Tracks history published :=
        ⟨h.position, h.through, h.start, .backlog front (.inr rfl) hcursor hbacklog hwritten⟩
      cases choice with
      | stopped => simpa [EventStream.step, hphase] using hstopped (by simp [hphase])
      | proceed => simpa [EventStream.step, hphase] using hbegin
      | revoked => simpa [EventStream.step, hphase] using hrevoked (by simp [hphase])
    · have hproceed := h.writeBacklog hphase hcursor hbacklog hwritten capacity
      cases choice with
      | stopped => simpa [EventStream.step, hphase] using hstopped (by simp [hphase])
      | proceed => exact hproceed
      | revoked =>
        -- the credential is checked before an event, not before the marker
        cases hrest : stream.backlog with
        | nil => simpa [EventStream.step, hphase, hrest] using hproceed
        | cons e rest =>
          simpa [EventStream.step, hphase, hrest] using hrevoked (by simp [hphase])
  | live hphase hcursor hwritten =>
    cases choice with
    | stopped => simpa [EventStream.step, hphase] using hstopped (by simp [hphase])
    | proceed => simpa [EventStream.step, hphase] using h.receive hsuffix hphase capacity
    | revoked => simpa [EventStream.step, hphase] using hrevoked (by simp [hphase])
  | finished body ending hphase =>
    have hsame : stream.step capacity published choice = stream := by simp [EventStream.step, hphase]
    rwa [hsame]

theorem flatMap_notify_event (events : List Event) :
    (events.flatMap stream.notify).filterMap StreamFrame.event = events.filter stream.keeps := by
  induction events with
  | nil => rfl
  | cons e events ih =>
    rw [List.flatMap_cons, List.filterMap_append, ih, List.filter_cons, notify]
    split_ifs <;> rfl

theorem mem_span {frame : StreamFrame} (h : frame ∈ stream.span history m n) :
    ∃ e, frame = .notification e := by
  obtain ⟨e, -, he⟩ := List.mem_flatMap.mp h
  unfold notify at he
  split_ifs at he
  · exact ⟨e, List.mem_singleton.mp he⟩
  · exact absurd he List.not_mem_nil

theorem markerFrames_event : stream.markerFrames.filterMap StreamFrame.event = [] := by
  unfold markerFrames
  split_ifs <;> rfl

theorem script_event (hstart : stream.start ≤ stream.throughEventId)
    (hthrough : stream.throughEventId ≤ history.length) :
    (stream.script history history.length).filterMap StreamFrame.event =
      (history.drop stream.start).filter stream.keeps := by
  have hsplit : history.drop stream.start =
      (history.take stream.throughEventId).drop stream.start ++ history.drop stream.throughEventId := by
    conv_lhs => rw [← List.take_append_drop stream.throughEventId history]
    exact List.drop_append_of_le_length (by rw [List.length_take]; omega)
  rw [script, List.filterMap_cons_none rfl, List.filterMap_append, List.filterMap_append,
    markerFrames_event, List.append_nil, span, span, flatMap_notify_event, flatMap_notify_event,
    List.take_length, ← List.filter_append, ← hsplit]

theorem Tracks.notified_of_script (h : stream.Tracks history published) :
    stream.notified <+: (history.drop stream.start).filter stream.keeps := by
  obtain ⟨body, ending, hwritten, hbody, hending⟩ := h.written
  have hnone : ending.filterMap StreamFrame.event = [] := by
    rcases hending with rfl | ⟨-, code, message, rfl⟩ <;> rfl
  rw [notified, hwritten, List.filterMap_append, hnone, List.append_nil,
    ← script_event h.start h.through]
  exact hbody.filterMap _

theorem Tracks.caughtUp (h : stream.Tracks history published) {front back : List StreamFrame}
    {through : ℕ} (hwritten : stream.written = front ++ .caughtUp through :: back) :
    through = stream.throughEventId ∧ front.filterMap StreamFrame.event =
      ((history.take stream.throughEventId).drop stream.start).filter stream.keeps := by
  obtain ⟨body, ending, heq, ⟨rest, hscript⟩, hending⟩ := h.written
  have herror : StreamFrame.caughtUp through ∉ ending := by
    rcases hending with rfl | ⟨-, code, message, rfl⟩ <;> simp
  -- the marker is not the error at the end, so it is in the script
  obtain ⟨back', hbody⟩ : ∃ back', body = front ++ .caughtUp through :: back' := by
    rw [heq] at hwritten
    rcases List.append_eq_append_iff.mp hwritten with ⟨l, rfl, hl⟩ | ⟨l, rfl, hl⟩
    · exact absurd (hl ▸ List.mem_append_right l (List.mem_cons_self ..)) herror
    · cases l with
      | nil =>
        rw [List.nil_append] at hl
        exact absurd (hl ▸ List.mem_cons_self ..) herror
      | cons frame l =>
        cases hl
        exact ⟨l, rfl⟩
  rw [hbody, List.append_assoc, List.cons_append] at hscript
  have hspan : ∀ m n, StreamFrame.caughtUp through ∉ stream.span history m n := by
    intro m n hmem
    obtain ⟨e, he⟩ := mem_span hmem
    cases he
  unfold script markerFrames at hscript
  split_ifs at hscript
  · rw [List.append_assoc, List.singleton_append, ← List.cons_append] at hscript
    have hbefore : StreamFrame.caughtUp through ∉
        stream.readyFrame :: stream.span history stream.start stream.throughEventId := by
      simp [readyFrame, hspan]
    obtain ⟨hfront, hmarker, -⟩ :=
      (List.append_cons_inj_of_notMem hbefore (hspan _ _)).mp hscript.symm
    refine ⟨(StreamFrame.caughtUp.inj hmarker).symm, ?_⟩
    rw [← hfront, List.filterMap_cons_none rfl, span, flatMap_notify_event]
  · have hmem : StreamFrame.caughtUp through ∈ front ++ .caughtUp through :: (back' ++ rest) :=
      List.mem_append_right _ (List.mem_cons_self ..)
    rw [hscript] at hmem
    simp [readyFrame, hspan] at hmem

end EventStream

section Daemon

variable {c : Crates} {sessionId : Uuid} {capacity : ℕ} {allowed : Wal → LogCall → Prop}
  {d d' : Daemon}

structure Daemon.Sound (c : Crates) (sessionId : Uuid) (allowed : Wal → LogCall → Prop)
    (d : Daemon) : Prop where
  session : d.session.Sound c sessionId allowed
  recorded : Recorded d.history d.session.log
  published : d.published <:+ d.history
  streams : ∀ stream ∈ d.streams, stream.Tracks d.history d.published

theorem Daemon.Sound.eventsSince (hframed : ∀ a call, allowed a call → call.Framed c)
    (h : d.Sound c sessionId allowed) (after : ℕ) :
    ∃ reply, eventsSinceLocked c d.session.world.view d.session.world.mem d.session.journal after =
        (d.session.world.view, .ok reply) ∧
      (reply.compacted = false ∧ reply.events = d.history.drop after ∨
        reply.compacted = true ∧ reply.events = []) := by
  obtain ⟨reply, heq, hcases, -⟩ := (h.session.kept hframed).eventsSince after
  refine ⟨reply, heq, hcases.imp_left ?_⟩
  rintro ⟨hcompacted, hboundary, hevents⟩
  refine ⟨hcompacted, ?_⟩
  rw [hevents, h.recorded.log, List.drop_drop, Nat.add_sub_cancel' hboundary]

theorem Daemon.Sound.subscribe (hframed : ∀ a call, allowed a call → call.Framed c)
    (h : d.Sound c sessionId allowed) {request : SubscribeRequest} {stream : EventStream}
    (hok : subscribeEvents c d.session d.published request = (d.session.world.view, .ok stream)) :
    stream.Tracks d.history d.published ∧ stream.notified = [] := by
  unfold subscribeEvents at hok
  split_ifs at hok with hahead
  · cases (Prod.mk.inj hok).2
  obtain ⟨reply, heq, hcases⟩ := h.eventsSince hframed request.afterEventId
  simp only [heq] at hok
  cases hok
  have hlength : d.session.journal.nextId = d.history.length :=
    h.session.window.next.trans h.recorded.length.symm
  have hcursor : d.history.length - (d.published.length - d.published.length) =
      d.session.journal.nextId := by
    rw [Nat.sub_self, Nat.sub_zero, hlength]
  refine ⟨⟨le_rfl, hlength.le, ?_, .ready rfl hcursor ?_ rfl⟩, rfl⟩
  · unfold EventStream.start
    split_ifs
    · exact le_rfl
    · exact Nat.le_of_not_lt hahead
  · simp only [EventStream.start]
    rw [hlength, List.take_length]
    rcases hcases with ⟨hcompacted, hevents⟩ | ⟨hcompacted, hevents⟩
    · rw [hcompacted, hevents]
      rfl
    · rw [hcompacted, hevents, if_pos rfl, List.drop_length]

theorem mem_modify {α : Type} {f : α → α} {i : ℕ} {l : List α} {x : α} (h : x ∈ l.modify i f) :
    x ∈ l ∨ ∃ y ∈ l, x = f y := by
  obtain ⟨j, hj⟩ := List.getElem?_of_mem h
  rw [List.getElem?_modify] at hj
  obtain ⟨y, hy, rfl⟩ := Option.map_eq_some_iff.mp hj
  split_ifs
  · exact .inr ⟨y, List.mem_of_getElem? hy, rfl⟩
  · exact .inl (List.mem_of_getElem? hy)

theorem Daemon.Sound.step (hframed : ∀ a call, allowed a call → call.Framed c)
    (h : d.Sound c sessionId allowed) (hstep : DaemonStep c sessionId capacity allowed d d') :
    d'.Sound c sessionId allowed := by
  cases hstep with
  | @call event s' hstep =>
    refine ⟨h.session.step hframed hstep, h.recorded.step h.session.window hstep, ?_, ?_⟩
    · obtain ⟨front, hfront⟩ := h.published
      exact ⟨front, by rw [← List.append_assoc, hfront]⟩
    · exact fun stream hstream => (h.streams stream hstream).publish h.published.length_le _
  | subscribe hok =>
    refine ⟨h.session, h.recorded, h.published, ?_⟩
    rw [List.forall_mem_cons]
    exact ⟨(h.subscribe hframed hok).1, h.streams⟩
  | stream i choice =>
    refine ⟨h.session, h.recorded, h.published, fun stream hstream => ?_⟩
    rcases mem_modify hstream with hold | ⟨stream, hold, rfl⟩
    · exact h.streams stream hold
    · exact (h.streams stream hold).step h.published capacity choice

theorem DaemonRun.sound {guard : Daemon → Prop} (hframed : ∀ a call, allowed a call → call.Framed c)
    (h : DaemonRun c sessionId capacity allowed guard d) : d.Sound c sessionId allowed := by
  induction h with
  | @opened _ _ a _ _ hfirst hopen =>
    have hsession : SessionState.Sound c sessionId allowed _ := .opened hfirst hopen
    refine ⟨hsession, ?_, List.nil_suffix, fun _ hstream => absurd hstream List.not_mem_nil⟩
    have hids := (hsession.kept hframed).ids
    have hboundary : a.boundary = 0 := by cases hfirst <;> rfl
    refine ⟨?_, by rw [hboundary]; rfl⟩
    rw [hids, Wal.head, hboundary, Nat.zero_add, Nat.zero_add]
  | step _ hstep ih => exact ih.step hframed hstep
  | crash _ _ hcrash ih =>
    exact ⟨ih.session.crash hframed hcrash, ih.recorded.crash hcrash, List.nil_suffix,
      fun _ hstream => absurd hstream List.not_mem_nil⟩

/-- In every run, each stream has written a part of the session's events from its
cursor on, from the first without a gap; a stream whose receiver has missed events
ends with an error, and the marker comes after all events that it covers. -/
theorem subscription_loses_and_repeats_nothing {stream : EventStream}
    (hrun : DaemonRun c sessionId capacity (fun _ call => call.Framed c) (fun _ => True) d)
    (hstream : stream ∈ d.streams) :
    d.history.map Event.id = List.range' 1 d.session.journal.nextId ∧
    stream.notified <+: d.history.filter (fun e => stream.keeps e && decide (stream.start < e.id)) ∧
    stream.notified.Pairwise (·.id < ·.id) ∧
    (stream.phase = .live → Lagging capacity d.published stream.position → ∀ choice,
      (stream.step capacity d.published choice).phase = .finished ∧
      (stream.step capacity d.published choice).notified = stream.notified ∧
      (choice = .proceed → ∃ skipped, (stream.step capacity d.published choice).written =
        stream.written ++ [EventStream.laggedFrame skipped])) ∧
    (stream.phase = .finished → ∀ choice, stream.step capacity d.published choice = stream) ∧
    ∀ front back through, stream.written = front ++ .caughtUp through :: back →
      through = stream.throughEventId ∧ (stream.compacted = true ∨
        front.filterMap StreamFrame.event = d.history.filter fun e =>
          stream.keeps e && decide (stream.request.afterEventId < e.id ∧ e.id ≤ through)) := by
  have hsound := hrun.sound fun _ _ h => h
  have htracks := hsound.streams stream hstream
  have hpart : stream.notified <+:
      d.history.filter (fun e => stream.keeps e && decide (stream.start < e.id)) := by
    rw [← List.filter_filter, hsound.recorded.filter_after]
    exact htracks.notified_of_script
  refine ⟨?_, hpart, ?_, ?_, ?_, ?_⟩
  · rw [hsound.session.window.next]
    exact hsound.recorded.ids
  · exact (hsound.recorded.increasing.sublist List.filter_sublist).sublist hpart.sublist
  · intro hphase hlag choice
    cases choice with
    | proceed =>
      have hstep := EventStream.step_lagging hphase hlag
      rw [hstep]
      exact ⟨rfl, EventStream.notified_finish (.inr ⟨_, _, rfl⟩), fun _ => ⟨_, rfl⟩⟩
    | revoked | stopped =>
      simp only [EventStream.step, hphase]
      exact ⟨rfl, EventStream.notified_finish (by simp [EventStream.revokedFrame]), nofun⟩
  · intro hphase choice
    simp [EventStream.step, hphase]
  · intro front back through hwritten
    obtain ⟨hthrough, hfront⟩ := htracks.caughtUp hwritten
    refine ⟨hthrough, ?_⟩
    cases hcompacted : stream.compacted with
    | true => exact .inl rfl
    | false =>
      right
      have hstart : stream.start = stream.request.afterEventId := by simp [EventStream.start, hcompacted]
      rw [hfront, hthrough, ← List.filter_filter, hsound.recorded.filter_between, hstart]

def freshDaemon : Daemon := ⟨⟨freshWorld, ⟨[], 0, 0, none⟩, ⟨none, [], 0⟩⟩, [], [], [], []⟩

theorem freshDaemon_run (capacity : ℕ) (allowed : Wal → LogCall → Prop) (guard : Daemon → Prop) :
    DaemonRun postcard 0 capacity allowed guard freshDaemon := by
  obtain ⟨d', hopen, hworld⟩ := freshWorld_opened
  have hrun : DaemonRun postcard 0 capacity allowed guard
      ⟨⟨World.opened (freshDir.map Durable.Cell.stable) d' freshWorld.mem {}, Journal.fromLoaded {},
        ⟨none, [], 0⟩⟩, [], [], [], []⟩ :=
    .opened (.fresh (fun _ => []) 0) hopen
  rwa [hworld] at hrun

def createdSession : SessionState :=
  ⟨createdWorld, ⟨[createdCall.event], 1, 128, some 0⟩, ⟨none, [createdCall.event], 1⟩⟩

def startedSession : SessionState :=
  ⟨startedWorld, ⟨[createdCall.event, startedCall.event], 2, 257, some 0⟩,
    ⟨none, [createdCall.event, startedCall.event], 2⟩⟩

def lateSession : SessionState :=
  ⟨lateWorld, ⟨[createdCall.event, startedCall.event, lateOutput.event], 3, 387, some 0⟩, lateLog⟩

theorem createdCall_step : SessionStep postcard 0 (fun _ call => call.Framed postcard)
    freshDaemon.session (some createdCall.event) createdSession := by
  obtain ⟨happend, hsynced⟩ := createdCall_appended
  rw [createdSession, ← hsynced]
  exact .append 0 .sessionCreated ⟨0, false⟩ createdCall_sized.framed happend

theorem startedCall_step : SessionStep postcard 0 (fun _ call => call.Framed postcard)
    createdSession (some startedCall.event) startedSession := by
  obtain ⟨happend, hsynced⟩ := startedCall_appended
  rw [startedSession, ← hsynced]
  exact .append 0 startedCall.event.kind ⟨0, false⟩ lateCalls_sized.2.1.framed happend

theorem lateOutput_step : SessionStep postcard 0 (fun _ call => call.Framed postcard)
    startedSession (some lateOutput.event) lateSession := by
  obtain ⟨happend, hsynced⟩ := lateOutput_appended
  rw [lateSession, lateLog, ← hsynced]
  exact .append 0 lateOutput.event.kind ⟨0, false⟩ lateCalls_sized.2.2.framed happend

def watchRequest : SubscribeRequest := ⟨0, some 0, true, true⟩

def watchStream : EventStream :=
  ⟨watchRequest, 2, 1, false, [], 3, .live,
    [.ready 2 1 false, .notification startedCall.event, .caughtUp 2,
      .notification lateOutput.event]⟩

def watchedDaemon : Daemon :=
  ⟨lateSession, lateLog.events, lateLog.events, [watchStream], []⟩

theorem watchedDaemon_run (guard : Daemon → Prop) :
    DaemonRun postcard 0 eventSubscriberCapacity (fun _ call => call.Framed postcard) guard
      watchedDaemon := by
  have hstarted := ((freshDaemon_run eventSubscriberCapacity (fun _ call => call.Framed postcard)
    guard).step (.call createdCall_step)).step (.call startedCall_step)
  have hsubscribe : subscribeEvents postcard startedSession
      [createdCall.event, startedCall.event] watchRequest =
      (startedWorld.view, .ok ⟨watchRequest, 2, 1, false, [createdCall.event, startedCall.event], 2,
        .ready, []⟩) := rfl
  have hlive : DaemonRun postcard 0 eventSubscriberCapacity (fun _ call => call.Framed postcard)
      guard ⟨startedSession, [createdCall.event, startedCall.event],
        [createdCall.event, startedCall.event],
        [⟨watchRequest, 2, 1, false, [], 2, .live,
          [.ready 2 1 false, .notification startedCall.event, .caughtUp 2]⟩], []⟩ :=
    (((((hstarted.step (.subscribe hsubscribe)).step (.stream 0 .proceed)).step
      (.stream 0 .proceed)).step (.stream 0 .proceed)).step (.stream 0 .proceed)).step
      (.stream 0 .proceed)
  exact (hlive.step (.call lateOutput_step)).step (.stream 0 .proceed)

theorem subscription_of_one_process : watchStream ∈ watchedDaemon.streams ∧
    watchStream.notified = [startedCall.event, lateOutput.event] ∧
    watchStream.notified <+: watchedDaemon.history.filter
      (fun e => watchStream.keeps e && decide (watchStream.start < e.id)) ∧
    watchedDaemon.history.length = 3 := by
  have hmem : watchStream ∈ watchedDaemon.streams := List.mem_singleton_self _
  exact ⟨hmem, rfl, (subscription_loses_and_repeats_nothing (watchedDaemon_run _) hmem).2.1, rfl⟩

end Daemon

end Asp
