import Asp.Proofs.Delivery
import Asp.Spec.EventFollower

/-! What `asp events` prints: while every subscription asks for the events after the greater of the
requested cursor and its own, all events between the two that it wants, in order, but for those that
a notice of compacted history covers. -/

namespace Asp

section Follow

variable {c : Crates} {sessionId : Uuid} {capacity saved cursor : ℕ}
  {allowed : Wal → LogCall → Prop} {command : EventsCommand} {history published : List Event}
  {a : Wal} {f : Follower} {stream : EventStream} {w w' : FollowWorld}

variable {m n : ℕ}

theorem Recorded.mem_range (h : Recorded history a) {e : Event} :
    e ∈ (history.take n).drop m ↔ e ∈ history ∧ m < e.id ∧ e.id ≤ n := by
  rw [← h.filter_between, List.mem_filter, decide_eq_true_eq]

theorem range_split {α : Type} (l : List α) {k : ℕ} (hkm : k ≤ m) (hmn : m ≤ n)
    (hm : m ≤ l.length) : (l.take n).drop k = (l.take m).drop k ++ (l.take n).drop m := by
  have htake : l.take n = l.take m ++ (l.take n).drop m := by
    conv_lhs => rw [← List.take_append_drop m (l.take n)]
    rw [List.take_take, min_eq_left hmn]
  have hlength : k ≤ (l.take m).length := by rw [List.length_take]; omega
  conv_lhs => rw [htake, List.drop_append_of_le_length hlength]

theorem next_kept {α : Type} {l : List α} {p : α → Bool} {x : α} (hmn : m ≤ n) (hn : n ≤ l.length)
    (h : ((l.take n).drop m).filter p ++ [x] <+: (l.drop m).filter p) :
    ∃ gap, (∀ y ∈ gap, p y = false) ∧ p x = true ∧ l[n + gap.length]? = some x ∧
      l.take (n + gap.length + 1) = l.take n ++ (gap ++ [x]) := by
  have hsplit : l.drop m = (l.take n).drop m ++ l.drop n := by
    have := range_split l hmn hn hn
    rwa [List.take_length] at this
  rw [hsplit, List.filter_append, List.prefix_append_right_inj] at h
  obtain ⟨rest, hrest⟩ := h
  obtain ⟨gap, later, hdrop, hgap, hx, -⟩ := List.filter_eq_cons_iff.mp hrest.symm
  refine ⟨gap, fun y hy => Bool.eq_false_iff.mpr (hgap y hy), hx, ?_, ?_⟩
  · rw [← List.getElem?_drop, hdrop, List.getElem?_append_right le_rfl, Nat.sub_self]
    rfl
  · have hlength : (gap ++ [x]).length = gap.length + 1 := by rw [List.length_append]; rfl
    rw [Nat.add_assoc, List.take_add, hdrop, List.append_cons, ← hlength, List.take_left]

theorem filter_next {α : Type} {l gap : List α} {p : α → Bool} {x : α} (hmn : m ≤ n)
    (hn : n ≤ l.length) (hgap : ∀ y ∈ gap, p y = false) (hx : p x = true) :
    ((l.take n ++ (gap ++ [x])).drop m).filter p = ((l.take n).drop m).filter p ++ [x] := by
  have hlength : m ≤ (l.take n).length := by rw [List.length_take, min_eq_left hn]; exact hmn
  have hnone : gap.filter p = [] :=
    List.filter_eq_nil_iff.mpr fun y hy => Bool.eq_false_iff.mp (hgap y hy)
  rw [List.drop_append_of_le_length hlength, List.filter_append, List.filter_append, hnone,
    List.nil_append, List.filter_singleton, hx, cond_true]

namespace EventStream

variable {frame : StreamFrame}

theorem Tracks.first_frame (h : stream.Tracks history published)
    (hframe : stream.written[0]? = some frame) :
    frame = stream.readyFrame ∨ ∃ code message, frame = .error code message := by
  obtain ⟨body, ending, hwritten, ⟨rest, hscript⟩, hending⟩ := h.written
  rw [hwritten] at hframe
  cases body with
  | nil =>
    rcases hending with rfl | ⟨-, code, message, rfl⟩
    · cases hframe
    · exact .inr ⟨code, message, (Option.some.inj hframe).symm⟩
  | cons first body =>
    obtain ⟨hfirst, -⟩ := List.cons.inj hscript
    exact .inl ((Option.some.inj hframe).symm.trans hfirst)

theorem Tracks.later_frame (h : stream.Tracks history published)
    (hframe : stream.written[n + 1]? = some frame) :
    (∃ e, frame = .notification e) ∨ (∃ through, frame = .caughtUp through) ∨
      ∃ code message, frame = .error code message := by
  obtain ⟨body, ending, hwritten, ⟨rest, hscript⟩, hending⟩ := h.written
  rw [hwritten] at hframe
  rcases Nat.lt_or_ge (n + 1) body.length with hlt | hge
  · have hmem : frame ∈ stream.span history stream.start stream.throughEventId ++
        stream.markerFrames ++ stream.span history stream.throughEventId history.length := by
      have hget : (stream.script history history.length)[n + 1]? = some frame := by
        rw [← hscript, List.getElem?_append_left hlt, ← hframe, List.getElem?_append_left hlt]
      exact List.mem_of_getElem? hget
    rw [List.mem_append, List.mem_append] at hmem
    rcases hmem with (hspan | hmarker) | hspan
    · exact .inl (mem_span hspan)
    · unfold markerFrames at hmarker
      split_ifs at hmarker
      · exact .inr (.inl ⟨_, List.mem_singleton.mp hmarker⟩)
      · exact absurd hmarker List.not_mem_nil
    · exact .inl (mem_span hspan)
  · rw [List.getElem?_append_right hge] at hframe
    rcases hending with rfl | ⟨-, code, message, rfl⟩
    · cases hframe
    · exact .inr (.inr ⟨code, message, List.mem_singleton.mp (List.mem_of_getElem? hframe)⟩)

theorem written_at (hframe : stream.written[n]? = some frame) :
    stream.written = stream.written.take n ++ frame :: stream.written.drop (n + 1) := by
  obtain ⟨hlt, rfl⟩ := List.getElem?_eq_some_iff.mp hframe
  rw [← List.drop_eq_getElem_cons hlt, List.take_append_drop]

theorem take_succ_event (hframe : stream.written[n]? = some frame) :
    (stream.written.take (n + 1)).filterMap StreamFrame.event =
      (stream.written.take n).filterMap StreamFrame.event ++ frame.event.toList := by
  rw [List.take_add_one, hframe, Option.toList_some, List.filterMap_append]
  cases hevent : frame.event with
  | none => rw [List.filterMap_cons_none hevent]; rfl
  | some e => rw [List.filterMap_cons_some hevent]; rfl

theorem Tracks.take_event (h : stream.Tracks history published) (n : ℕ) :
    (stream.written.take n).filterMap StreamFrame.event <+:
      (history.drop stream.start).filter stream.keeps :=
  ((List.take_prefix n stream.written).filterMap _).trans h.notified_of_script

theorem step_extends (capacity : ℕ) (published : List Event) (choice : StreamChoice)
    (stream : EventStream) :
    (stream.step capacity published choice).request = stream.request ∧
      (stream.step capacity published choice).throughEventId = stream.throughEventId ∧
      (stream.step capacity published choice).compacted = stream.compacted ∧
      stream.written <+: (stream.step capacity published choice).written := by
  unfold EventStream.step
  split
  · exact ⟨rfl, rfl, rfl, List.prefix_rfl⟩
  · exact ⟨rfl, rfl, rfl, List.prefix_append _ _⟩
  · exact ⟨rfl, rfl, rfl, List.prefix_append _ _⟩
  · exact ⟨rfl, rfl, rfl, List.prefix_rfl⟩
  · exact ⟨rfl, rfl, rfl, List.prefix_append _ _⟩
  · split
    · exact ⟨rfl, rfl, rfl, List.prefix_append _ _⟩
    · split_ifs
      · exact ⟨rfl, rfl, rfl, List.prefix_append _ _⟩
      · exact ⟨rfl, rfl, rfl, List.prefix_append _ _⟩
  · exact ⟨rfl, rfl, rfl, List.prefix_append _ _⟩
  · unfold EventStream.receive
    split
    · exact ⟨rfl, rfl, rfl, List.prefix_append _ _⟩
    · exact ⟨rfl, rfl, rfl, List.prefix_append _ _⟩
    · exact ⟨rfl, rfl, rfl, List.prefix_rfl⟩

end EventStream

namespace Follower

variable {read : ℕ}

def reach (f : Follower) (cursor : ℕ) : ℕ := max f.lastEventId cursor

def shows (command : EventsCommand) (f : Follower) (event : Event) : Bool :=
  command.wants event && !f.skips event.id

@[simp] theorem save_lastEventId (f : Follower) (outcome : SaveOutcome) :
    (f.save outcome).lastEventId = f.lastEventId := by
  cases outcome <;> rfl

@[simp] theorem save_firstSubscription (f : Follower) (outcome : SaveOutcome) :
    (f.save outcome).firstSubscription = f.firstSubscription := by
  cases outcome <;> rfl

theorem save_phase (f : Follower) (outcome : SaveOutcome) :
    (f.save outcome).phase = f.phase ∨ (f.save outcome).phase = .ended := by
  cases outcome
  · exact .inl rfl
  · exact .inr rfl
  · exact .inr rfl

theorem isOpen_of_requested {after : ℕ} (h : f.phase = .requested after) : f.isOpen = true := by
  rw [isOpen, h]

theorem isOpen_of_attached {index : ℕ} (h : f.phase = .attached index read) : f.isOpen = true := by
  rw [isOpen, h]

theorem receive_firstSubscription (f : Follower) (due : Bool) (outcome : SaveOutcome)
    (frame : StreamFrame) :
    (f.receive due outcome frame).firstSubscription = f.firstSubscription := by
  cases frame with
  | ready through retained compacted =>
    cases compacted with
    | true => exact save_firstSubscription _ _
    | false => rfl
  | caughtUp through => exact save_firstSubscription _ _
  | notification e =>
    rw [receive]
    split_ifs
    · rfl
    · exact save_firstSubscription _ _
    · rfl
  | error code message =>
    rw [receive]
    split_ifs <;> rfl

theorem receive_error_phase (f : Follower) (due : Bool) (outcome : SaveOutcome)
    (code message : String) :
    (f.receive due outcome (.error code message)).isOpen = false := by
  rw [receive]
  split_ifs <;> rfl

theorem receive_phase (f : Follower) (due : Bool) (outcome : SaveOutcome) (frame : StreamFrame) :
    (f.receive due outcome frame).phase = f.phase ∨
      (f.receive due outcome frame).isOpen = false := by
  have hsave : ∀ g : Follower, g.phase = f.phase →
      (g.save outcome).phase = f.phase ∨ (g.save outcome).isOpen = false := by
    intro g hphase
    rcases save_phase g outcome with hsame | hended
    · exact .inl (hsame.trans hphase)
    · exact .inr (by rw [isOpen, hended])
  cases frame with
  | ready through retained compacted =>
    cases compacted with
    | true => exact hsave _ rfl
    | false => exact .inl rfl
  | caughtUp through => exact hsave _ rfl
  | notification e =>
    rw [receive]
    split_ifs
    · exact .inl rfl
    · exact hsave _ rfl
    · exact .inl rfl
  | error code message => exact .inr (receive_error_phase f due outcome code message)

theorem skips_le (hboundaries : ∀ boundary ∈ f.boundaries, boundary.2 ≤ f.lastEventId)
    (h : f.skips n = true) : n ≤ f.lastEventId := by
  obtain ⟨boundary, hmem, hskips⟩ := List.any_eq_true.mp h
  simp only [Bool.and_eq_true, decide_eq_true_eq] at hskips
  exact hskips.2.trans (hboundaries boundary hmem)

structure Kept (command : EventsCommand) (cursor : ℕ) (history : List Event) (f : Follower) :
    Prop where
  printed : f.printed = ((history.take (f.reach cursor)).drop cursor).filter (f.shows command)
  saved : f.savedCursor ≤ f.lastEventId
  boundaries : ∀ boundary ∈ f.boundaries, boundary.2 ≤ f.lastEventId
  head : f.lastEventId ≤ cursor ∨ f.lastEventId ≤ history.length

section

variable (h : f.Kept command cursor history)

include h

theorem Kept.same {f' : Follower} (hlast : f'.lastEventId = f.lastEventId)
    (hsaved : f'.savedCursor = f.savedCursor) (hprinted : f'.printed = f.printed)
    (hboundaries : f'.boundaries = f.boundaries) : f'.Kept command cursor history := by
  obtain ⟨hshown, hfile, hbehind, hhead⟩ := h
  refine ⟨?_, by rw [hlast, hsaved]; exact hfile, by rw [hlast, hboundaries]; exact hbehind,
    by rw [hlast]; exact hhead⟩
  have hshows : f'.shows command = f.shows command := by
    funext e
    rw [shows, shows, skips, skips, hboundaries]
  rwa [hprinted, reach, hlast, hshows]

theorem Kept.save (outcome : SaveOutcome) : (f.save outcome).Kept command cursor history := by
  have hwritten : ({ f with savedCursor := max f.savedCursor f.lastEventId } : Follower).Kept
      command cursor history :=
    ⟨h.printed, max_le h.saved le_rfl, h.boundaries, h.head⟩
  cases outcome with
  | saved => exact hwritten
  | unwritten => exact h.same rfl rfl rfl rfl
  | unsynced => exact hwritten.same rfl rfl rfl rfl

theorem Kept.receive_error (due : Bool) (outcome : SaveOutcome) (code message : String) :
    (f.receive due outcome (.error code message)).Kept command cursor history := by
  rw [receive]
  split_ifs
  · exact h.same rfl rfl rfl rfl
  · exact h.same rfl rfl rfl rfl

theorem Kept.of_take {history' : List Event}
    (hsame : f.lastEventId ≤ cursor ∨ f.lastEventId ≤ history'.length ∧
      history'.take f.lastEventId = history.take f.lastEventId) :
    f.Kept command cursor history' := by
  refine ⟨?_, h.saved, h.boundaries, hsame.imp_right And.left⟩
  rw [h.printed]
  rcases Nat.le_total f.lastEventId cursor with hle | hge
  · have hreach : f.reach cursor = cursor := max_eq_right hle
    rw [hreach, List.drop_eq_nil_of_le (List.length_take_le ..),
      List.drop_eq_nil_of_le (List.length_take_le ..)]
  · have hreach : f.reach cursor = f.lastEventId := max_eq_left hge
    rw [hreach]
    rcases hsame with hle | ⟨-, htake⟩
    · rw [List.drop_eq_nil_of_le ((List.length_take_le ..).trans hle),
        List.drop_eq_nil_of_le ((List.length_take_le ..).trans hle)]
    · rw [htake]

theorem Kept.append (more : List Event) : f.Kept command cursor (history ++ more) := by
  refine h.of_take (h.head.imp_right fun hle => ⟨?_, List.take_append_of_le_length hle⟩)
  rw [List.length_append]
  exact hle.trans (Nat.le_add_right _ _)

theorem Kept.advance (hn : n ≤ history.length) (hreach : f.reach cursor ≤ history.length)
    (hnone : ∀ e ∈ (history.take n).drop (f.reach cursor), command.wants e = false) :
    (f.advanceEventCursor n).Kept command cursor history := by
  have hcursor : cursor ≤ f.reach cursor := le_max_right _ _
  have hnew : (f.advanceEventCursor n).reach cursor = max n (f.reach cursor) := by
    show max (max f.lastEventId n) cursor = _
    unfold reach
    omega
  refine ⟨?_, h.saved.trans (le_max_left _ _),
    fun boundary hmem => (h.boundaries boundary hmem).trans (le_max_left _ _), .inr ?_⟩
  · show f.printed = List.filter (f.shows command) _
    rw [hnew, h.printed]
    rcases Nat.le_total n (f.reach cursor) with hle | hge
    · rw [max_eq_right hle]
    · have hskipped : ((history.take n).drop (f.reach cursor)).filter (f.shows command) = [] := by
        refine List.filter_eq_nil_iff.mpr fun e he => ?_
        rw [shows, hnone e he]
        exact Bool.false_ne_true
      rw [max_eq_left hge, range_split history hcursor hge hreach, List.filter_append,
        hskipped, List.append_nil]
  · have hlast : f.lastEventId ≤ history.length := (le_max_left _ _).trans hreach
    exact max_le hlast hn

theorem Kept.print {e : Event} {gap : List Event} (hreach : f.reach cursor ≤ history.length)
    (hgap : ∀ x ∈ gap, command.wants x = false) (hwants : command.wants e = true)
    (hid : e.id = f.reach cursor + gap.length + 1)
    (htake : history.take e.id = history.take (f.reach cursor) ++ (gap ++ [e])) :
    ((f.print e).advanceEventCursor e.id).Kept command cursor history := by
  have hlast : f.lastEventId ≤ f.reach cursor := le_max_left _ _
  have hcursor : cursor ≤ f.reach cursor := le_max_right _ _
  have hnew : ((f.print e).advanceEventCursor e.id).reach cursor = e.id := by
    show max (max f.lastEventId e.id) cursor = _
    omega
  have hlength : e.id ≤ history.length := by
    have hcount := congrArg List.length htake
    rw [List.length_take, List.length_append, List.length_append, List.length_take,
      min_eq_left hreach, List.length_singleton] at hcount
    omega
  have hshows : f.shows command e = true := by
    rw [shows, hwants, Bool.true_and, Bool.not_eq_true']
    refine Bool.eq_false_iff.mpr fun hskips => ?_
    have := skips_le h.boundaries hskips
    omega
  refine ⟨?_, h.saved.trans (le_max_left _ _),
    fun boundary hmem => (h.boundaries boundary hmem).trans (le_max_left _ _), .inr ?_⟩
  · show f.printed ++ [e] = List.filter (f.shows command) _
    have hhidden : ∀ x ∈ gap, f.shows command x = false := by
      intro x hx
      rw [shows, hgap x hx, Bool.false_and]
    rw [hnew, htake, filter_next hcursor hreach hhidden hshows, h.printed]
  · exact max_le (hlast.trans hreach) hlength

theorem Kept.compacted (hrecorded : Recorded history a) {through : ℕ}
    (hthrough : through ≤ history.length) (hreach : f.reach cursor ≤ through) :
    (f.skipTo through).Kept command cursor history := by
  have hlast : f.lastEventId ≤ f.reach cursor := le_max_left _ _
  have hcursor : cursor ≤ f.reach cursor := le_max_right _ _
  have hmax : max f.lastEventId through = through := max_eq_right (hlast.trans hreach)
  have hnew : max (max f.lastEventId through) cursor = through := by omega
  refine ⟨?_, h.saved.trans (le_max_left _ _), ?_, .inr ?_⟩
  · have hskips : ∀ n, (f.skipTo through).skips n =
        (f.skips n || (decide (f.lastEventId < n) && decide (n ≤ through))) := by
      intro n
      show (f.boundaries ++ [(f.lastEventId, through)]).any _ = _
      rw [List.any_append, List.any_cons, List.any_nil, Bool.or_false]
      rfl
    -- up to the old cursor nothing changes, and the notice covers the rest
    have hbefore : ∀ e ∈ (history.take (f.reach cursor)).drop cursor,
        (f.skipTo through).shows command e = f.shows command e := by
      intro e he
      obtain ⟨-, hafter, hle⟩ := hrecorded.mem_range.mp he
      have hold : ¬ f.lastEventId < e.id := by unfold reach at hle; omega
      rw [shows, shows, hskips, decide_eq_false hold, Bool.false_and, Bool.or_false]
    have hbehind : ((history.take through).drop (f.reach cursor)).filter
        ((f.skipTo through).shows command) = [] := by
      refine List.filter_eq_nil_iff.mpr fun e he => ?_
      obtain ⟨-, hafter, hle⟩ := hrecorded.mem_range.mp he
      have hnewer : f.lastEventId < e.id := hlast.trans_lt hafter
      rw [shows, hskips, decide_eq_true hnewer, decide_eq_true hle, Bool.and_true, Bool.or_true,
        Bool.not_true, Bool.and_false]
      exact Bool.false_ne_true
    show f.printed = List.filter _ ((history.take (max (max f.lastEventId through) cursor)).drop _)
    rw [hnew, range_split history hcursor hreach (hreach.trans hthrough), List.filter_append,
      hbehind, List.append_nil, List.filter_congr hbefore, ← h.printed]
  · intro boundary hmem
    rcases Parties.mem_concat hmem with hold | rfl
    · exact (h.boundaries boundary hold).trans (le_max_left _ _)
    · exact le_max_right _ _
  · show max f.lastEventId through ≤ history.length
    rwa [hmax]

end

/-- The command has read `read` frames of its stream: it knows of every event up to its
cursor that the stream keeps. -/
structure Reading (command : EventsCommand) (cursor : ℕ) (history : List Event) (f : Follower)
    (stream : EventStream) (read : ℕ) : Prop where
  keeps : stream.keeps = command.wants
  reach_le : f.reach cursor ≤ history.length
  read_le : read ≤ stream.written.length
  progress :
    (read = 0 ∧ stream.request.afterEventId = f.reach cursor ∧
      f.reach cursor ≤ stream.throughEventId) ∨
    0 < read ∧ stream.start ≤ f.reach cursor ∧
      (stream.written.take read).filterMap StreamFrame.event =
        ((history.take (f.reach cursor)).drop stream.start).filter command.wants

section

variable (h : f.Reading command cursor history stream read)

include h

theorem Reading.same {f' : Follower} (hlast : f'.lastEventId = f.lastEventId) :
    f'.Reading command cursor history stream read := by
  obtain ⟨hkeeps, hreach, hread, hprogress⟩ := h
  have heq : f'.reach cursor = f.reach cursor := by rw [reach, reach, hlast]
  exact ⟨hkeeps, by rw [heq]; exact hreach, hread, by rw [heq]; exact hprogress⟩

theorem Reading.extend {stream' : EventStream} (hrequest : stream'.request = stream.request)
    (hthrough : stream'.throughEventId = stream.throughEventId)
    (hcompacted : stream'.compacted = stream.compacted) (hwritten : stream.written <+: stream'.written) :
    f.Reading command cursor history stream' read := by
  obtain ⟨hkeeps, hreach, hread, hprogress⟩ := h
  have hsame : stream'.keeps = stream.keeps := by
    funext e
    rw [EventStream.keeps, EventStream.keeps, hrequest]
  have hstart : stream'.start = stream.start := by
    rw [EventStream.start, EventStream.start, hcompacted, hthrough, hrequest]
  have htake : stream'.written.take read = stream.written.take read := by
    obtain ⟨more, hmore⟩ := hwritten
    rw [← hmore, List.take_append_of_le_length hread]
  refine ⟨hsame.trans hkeeps, hreach, hread.trans hwritten.length_le, ?_⟩
  rwa [hrequest, hthrough, hstart, htake]

theorem Reading.append (more : List Event) :
    f.Reading command cursor (history ++ more) stream read := by
  obtain ⟨hkeeps, hreach, hread, hprogress⟩ := h
  refine ⟨hkeeps, ?_, hread, ?_⟩
  · rw [List.length_append]
    exact hreach.trans (Nat.le_add_right _ _)
  · rwa [List.take_append_of_le_length hreach]

end

theorem Reading.ready (h : f.Reading command cursor history stream 0)
    (hkept : f.Kept command cursor history) (htracks : stream.Tracks history published)
    (hrecorded : Recorded history a) (hframe : stream.written[0]? = some stream.readyFrame)
    (due : Bool) (outcome : SaveOutcome) :
    (f.receive due outcome stream.readyFrame).Kept command cursor history ∧
      (f.receive due outcome stream.readyFrame).Reading command cursor history stream 1 := by
  obtain ⟨hasked, hthrough⟩ : stream.request.afterEventId = f.reach cursor ∧
      f.reach cursor ≤ stream.throughEventId :=
    h.progress.elim And.right fun hread => absurd hread.1 (Nat.lt_irrefl 0)
  have hread : 1 ≤ stream.written.length := (List.getElem?_eq_some_iff.mp hframe).1
  have hnone : (stream.written.take 1).filterMap StreamFrame.event = [] :=
    EventStream.take_succ_event hframe
  have hreceive : f.receive due outcome stream.readyFrame =
      if stream.compacted = true then (f.skipTo stream.throughEventId).save outcome else f := rfl
  cases hcompacted : stream.compacted with
  | false =>
    have hstart : stream.start = f.reach cursor := by
      rw [EventStream.start, hcompacted, if_neg Bool.false_ne_true, hasked]
    rw [hreceive, hcompacted, if_neg Bool.false_ne_true]
    refine ⟨hkept, h.keeps, h.reach_le, hread, .inr ⟨Nat.one_pos, hstart.le, ?_⟩⟩
    rw [hnone, hstart, List.drop_eq_nil_of_le (List.length_take_le ..)]
    rfl
  | true =>
    have hstart : stream.start = stream.throughEventId := by
      rw [EventStream.start, hcompacted, if_pos rfl]
    have hreach : (f.skipTo stream.throughEventId).reach cursor = stream.throughEventId := by
      show max (max f.lastEventId stream.throughEventId) cursor = _
      unfold reach at hthrough
      omega
    rw [hreceive, hcompacted, if_pos rfl]
    refine ⟨(hkept.compacted hrecorded htracks.through hthrough).save outcome, ?_⟩
    refine Reading.same ?_ (save_lastEventId _ _)
    refine ⟨h.keeps, ?_, hread, .inr ⟨Nat.one_pos, ?_, ?_⟩⟩
    · rw [hreach]
      exact htracks.through
    · rw [hreach, hstart]
    · rw [hnone, hreach, hstart, List.drop_eq_nil_of_le (List.length_take_le ..)]
      rfl

section

variable (h : f.Reading command cursor history stream read)

include h

theorem Reading.notification (hpos : 0 < read) (hkept : f.Kept command cursor history)
    (htracks : stream.Tracks history published) (hrecorded : Recorded history a) {e : Event}
    (hframe : stream.written[read]? = some (.notification e)) (due : Bool) (outcome : SaveOutcome) :
    (f.receive due outcome (.notification e)).Kept command cursor history ∧
      (f.receive due outcome (.notification e)).Reading command cursor history stream (read + 1) := by
  obtain ⟨hstart, hread⟩ := (h.progress.resolve_left fun hzero => hpos.ne' hzero.1).2
  have hnext := htracks.take_event (read + 1)
  have hadded := EventStream.take_succ_event hframe
  rw [hadded, hread, h.keeps] at hnext
  obtain ⟨gap, hgap, hwants, hget, htake⟩ := next_kept hstart h.reach_le hnext
  have hid : e.id = f.reach cursor + gap.length + 1 := hrecorded.id_at hget
  have hlast : f.lastEventId ≤ f.reach cursor := le_max_left _ _
  have hnew : ¬ e.id ≤ f.lastEventId := by omega
  rw [← hid] at htake
  have hprinted := hkept.print h.reach_le hgap hwants hid htake
  have hreach : ((f.print e).advanceEventCursor e.id).reach cursor = e.id := by
    have hcursor : cursor ≤ f.reach cursor := le_max_right _ _
    show max (max f.lastEventId e.id) cursor = e.id
    omega
  have hreading : ((f.print e).advanceEventCursor e.id).Reading command cursor history stream
      (read + 1) := by
    refine ⟨h.keeps, ?_, (List.getElem?_eq_some_iff.mp hframe).1, .inr ⟨Nat.succ_pos _, ?_, ?_⟩⟩
    · have hlt := (List.getElem?_eq_some_iff.mp hget).1
      rw [hreach]
      omega
    · rw [hreach]
      omega
    · rw [hadded, hread, hreach, htake, filter_next hstart h.reach_le hgap hwants]
      rfl
  have hreceive : f.receive due outcome (.notification e) =
      if !e.kind.isOutput || due then ((f.print e).advanceEventCursor e.id).save outcome
      else (f.print e).advanceEventCursor e.id := if_neg hnew
  rw [hreceive]
  split_ifs
  · exact ⟨hprinted.save outcome, hreading.same (save_lastEventId _ _)⟩
  · exact ⟨hprinted, hreading⟩

theorem Reading.caughtUp (hpos : 0 < read) (hkept : f.Kept command cursor history)
    (htracks : stream.Tracks history published) {through : ℕ}
    (hframe : stream.written[read]? = some (.caughtUp through)) (due : Bool)
    (outcome : SaveOutcome) :
    (f.receive due outcome (.caughtUp through)).Kept command cursor history ∧
      (f.receive due outcome (.caughtUp through)).Reading command cursor history stream
        (read + 1) := by
  obtain ⟨hstart, hread⟩ := (h.progress.resolve_left fun hzero => hpos.ne' hzero.1).2
  have hadded := EventStream.take_succ_event hframe
  obtain ⟨rfl, hcovered⟩ := htracks.caughtUp (EventStream.written_at hframe)
  rw [hread, h.keeps] at hcovered
  have hnone : ∀ e ∈ (history.take stream.throughEventId).drop (f.reach cursor),
      command.wants e = false := by
    rcases Nat.le_total stream.throughEventId (f.reach cursor) with hle | hge
    · rw [List.drop_eq_nil_of_le ((List.length_take_le ..).trans hle)]
      exact fun e he => absurd he List.not_mem_nil
    · rw [range_split history hstart hge h.reach_le, List.filter_append,
        List.self_eq_append_right] at hcovered
      exact fun e he => Bool.eq_false_iff.mpr (List.filter_eq_nil_iff.mp hcovered e he)
  have hreach : (f.advanceEventCursor stream.throughEventId).reach cursor =
      max stream.throughEventId (f.reach cursor) := by
    show max (max f.lastEventId stream.throughEventId) cursor = _
    unfold reach
    omega
  refine ⟨(hkept.advance htracks.through h.reach_le hnone).save outcome,
    Reading.same ?_ (save_lastEventId _ _)⟩
  refine ⟨h.keeps, ?_, (List.getElem?_eq_some_iff.mp hframe).1, .inr ⟨Nat.succ_pos _, ?_, ?_⟩⟩
  · rw [hreach]
    exact max_le htracks.through h.reach_le
  · rw [hreach]
    exact hstart.trans (le_max_right _ _)
  · rw [hadded, hread, hreach]
    rcases Nat.le_total stream.throughEventId (f.reach cursor) with hle | hge
    · rw [max_eq_right hle]
      exact List.append_nil _
    · rw [max_eq_left hge, ← hcovered]
      exact List.append_nil _

theorem Reading.receive (hkept : f.Kept command cursor history)
    (htracks : stream.Tracks history published) (hrecorded : Recorded history a)
    {frame : StreamFrame} (hframe : stream.written[read]? = some frame) (due : Bool)
    (outcome : SaveOutcome) :
    (f.receive due outcome frame).Kept command cursor history ∧
      ((∃ code message, frame = .error code message) ∨
        (f.receive due outcome frame).Reading command cursor history stream (read + 1)) := by
  have herror := hkept.receive_error due outcome
  cases read with
  | zero =>
    rcases htracks.first_frame hframe with rfl | ⟨code, message, rfl⟩
    · exact (h.ready hkept htracks hrecorded hframe due outcome).imp_right .inr
    · exact ⟨herror code message, .inl ⟨code, message, rfl⟩⟩
  | succ n =>
    rcases htracks.later_frame hframe with ⟨e, rfl⟩ | ⟨through, rfl⟩ | ⟨code, message, rfl⟩
    · exact (h.notification n.succ_pos hkept htracks hrecorded hframe due outcome).imp_right .inr
    · exact (h.caughtUp n.succ_pos hkept htracks hframe due outcome).imp_right .inr
    · exact ⟨herror code message, .inl ⟨code, message, rfl⟩⟩

end

end Follower

theorem modify_reverse_at {α : Type} {l : List α} {g : α → α} {i index : ℕ} {x : α}
    (h : l.reverse[index]? = some x) :
    ∃ y, (l.modify i g).reverse[index]? = some y ∧ (y = x ∨ y = g x) := by
  have hlt : index < l.length := by
    have := (List.getElem?_eq_some_iff.mp h).1
    rwa [List.length_reverse] at this
  rw [List.getElem?_reverse hlt] at h
  rw [List.getElem?_reverse (by rwa [List.length_modify]), List.length_modify,
    List.getElem?_modify, h, Option.map_eq_map, Option.map_some]
  split_ifs
  · exact ⟨_, rfl, .inr rfl⟩
  · exact ⟨_, rfl, .inl rfl⟩

theorem Daemon.Sound.subscribed {d : Daemon} (hframed : ∀ a call, allowed a call → call.Framed c)
    (h : d.Sound c sessionId allowed) {request : SubscribeRequest}
    (hok : subscribeEvents c d.session d.published request = (d.session.world.view, .ok stream)) :
    stream.request = request ∧ request.afterEventId ≤ stream.throughEventId ∧
      stream.throughEventId = d.history.length := by
  unfold subscribeEvents at hok
  split_ifs at hok with hahead
  · cases (Prod.mk.inj hok).2
  obtain ⟨reply, heq, -⟩ := h.eventsSince hframed request.afterEventId
  simp only [heq] at hok
  cases hok
  exact ⟨rfl, Nat.le_of_not_lt hahead, h.session.window.next.trans h.recorded.length.symm⟩

structure FollowWorld.Faithful (command : EventsCommand) (saved : ℕ) (w : FollowWorld) : Prop where
  kept : w.follower.Kept command (command.cursor saved) w.daemon.history
  first : w.follower.firstSubscription = true →
    w.follower.lastEventId = saved ∧ w.follower.isOpen = false
  requested : ∀ after, w.follower.phase = .requested after →
    after = w.follower.reach (command.cursor saved)
  attached : ∀ index read, w.follower.phase = .attached index read →
    ∃ stream, w.daemon.streams.reverse[index]? = some stream ∧
      w.follower.Reading command (command.cursor saved) w.daemon.history stream read

namespace FollowWorld.Faithful

theorem started (hsaved : saved ≤ command.cursor saved) (d : Daemon) :
    Faithful command saved ⟨d, .start saved⟩ := by
  have hreach : (Follower.start saved).reach (command.cursor saved) = command.cursor saved :=
    max_eq_right hsaved
  refine ⟨⟨?_, le_rfl, fun _ hmem => absurd hmem List.not_mem_nil, .inl hsaved⟩,
    fun _ => ⟨rfl, rfl⟩, nofun, nofun⟩
  rw [hreach, List.drop_eq_nil_of_le (List.length_take_le ..)]
  rfl

theorem closed {f' : Follower} {d' : Daemon}
    (hkept : f'.Kept command (command.cursor saved) d'.history) (hopen : f'.isOpen = false)
    (hfirst : f'.firstSubscription = true → f'.lastEventId = saved) :
    Faithful command saved ⟨d', f'⟩ := by
  refine ⟨hkept, fun hflag => ⟨hfirst hflag, hopen⟩, fun after hphase => ?_,
    fun index read hphase => ?_⟩
  · exact absurd (Follower.isOpen_of_requested hphase) (Bool.eq_false_iff.mp hopen)
  · exact absurd (Follower.isOpen_of_attached hphase) (Bool.eq_false_iff.mp hopen)

theorem not_first (h : w.Faithful command saved) (hopen : w.follower.isOpen = true) :
    w.follower.firstSubscription ≠ true := fun hflag => by
  rw [(h.first hflag).2] at hopen
  cases hopen

theorem daemonStep (h : w.Faithful command saved) {d' : Daemon}
    (hstep : DaemonStep c sessionId capacity allowed w.daemon d') :
    Faithful command saved { w with daemon := d' } := by
  cases hstep with
  | @call event s' hstep =>
    refine ⟨h.kept.append _, h.first, h.requested, fun index read hphase => ?_⟩
    obtain ⟨stream, hstream, hreading⟩ := h.attached index read hphase
    exact ⟨stream, hstream, hreading.append _⟩
  | @subscribe request added hok =>
    refine ⟨h.kept, h.first, h.requested, fun index read hphase => ?_⟩
    obtain ⟨stream, hstream, hreading⟩ := h.attached index read hphase
    refine ⟨stream, ?_, hreading⟩
    have hlt := (List.getElem?_eq_some_iff.mp hstream).1
    rw [List.reverse_cons, List.getElem?_append_left hlt, hstream]
  | stream i choice =>
    refine ⟨h.kept, h.first, h.requested, fun index read hphase => ?_⟩
    obtain ⟨stream, hstream, hreading⟩ := h.attached index read hphase
    obtain ⟨stream', hstream', hcases⟩ := modify_reverse_at (i := i)
      (g := EventStream.step capacity w.daemon.published choice) hstream
    refine ⟨stream', hstream', ?_⟩
    rcases hcases with rfl | rfl
    · exact hreading
    · obtain ⟨hrequest, hthrough, hcompacted, hwritten⟩ :=
        EventStream.step_extends capacity w.daemon.published choice stream
      exact hreading.extend hrequest hthrough hcompacted hwritten

theorem attempt (h : w.Faithful command saved) (hsaved : saved ≤ command.cursor saved)
    (hasks : AsksInOrder command saved w.follower) :
    Faithful command saved { w with follower := w.follower.attempt command } := by
  refine ⟨h.kept.same rfl rfl rfl rfl, nofun, fun after hphase => ?_, nofun⟩
  cases hphase
  show w.follower.afterEventId command = max w.follower.lastEventId (command.cursor saved)
  unfold Follower.afterEventId
  cases hfirst : w.follower.firstSubscription with
  | true =>
    rw [if_pos rfl, (h.first hfirst).1]
    exact (max_eq_right hsaved).symm
  | false =>
    rw [if_neg Bool.false_ne_true]
    exact (max_eq_left (hasks hfirst)).symm

theorem accept (hframed : ∀ a call, allowed a call → call.Framed c)
    (hsound : w.daemon.Sound c sessionId allowed) (h : w.Faithful command saved) {after : ℕ}
    {marker : Bool} {stream : EventStream} (hphase : w.follower.phase = .requested after)
    (hok : subscribeEvents c w.daemon.session w.daemon.published
      ⟨after, command.processId, command.includeOutput, marker⟩ =
        (w.daemon.session.world.view, .ok stream)) :
    Faithful command saved
      ⟨{ w.daemon with streams := stream :: w.daemon.streams },
        { w.follower with phase := .attached w.daemon.streams.length 0 }⟩ := by
  obtain ⟨hrequest, hthrough, hhead⟩ := hsound.subscribed hframed hok
  have hafter := h.requested after hphase
  refine ⟨h.kept.same rfl rfl rfl rfl,
    fun hflag => absurd hflag (h.not_first (Follower.isOpen_of_requested hphase)), nofun,
    fun index read hattached => ?_⟩
  cases hattached
  refine ⟨stream, ?_, ?_⟩
  · rw [List.reverse_cons, List.getElem?_append_right (List.length_reverse ..).le,
      List.length_reverse, Nat.sub_self]
    rfl
  · refine Follower.Reading.same (f := w.follower) ?_ rfl
    refine ⟨?_, ?_, Nat.zero_le _, .inl ⟨rfl, ?_, ?_⟩⟩
    · funext e
      rw [EventStream.keeps, hrequest]
      rfl
    · rwa [← hafter, ← hhead]
    · rwa [hrequest]
    · rwa [← hafter]

theorem read (hsound : w.daemon.Sound c sessionId allowed) (h : w.Faithful command saved)
    {index read : ℕ} {stream : EventStream} {frame : StreamFrame} (due : Bool)
    (outcome : SaveOutcome) (hphase : w.follower.phase = .attached index read)
    (hstream : w.daemon.streams.reverse[index]? = some stream)
    (hframe : stream.written[read]? = some frame) :
    Faithful command saved { w with follower :=
      { w.follower with phase := .attached index (read + 1) }.receive due outcome frame } := by
  have hnot := h.not_first (Follower.isOpen_of_attached hphase)
  obtain ⟨stream', hstream', hreading⟩ := h.attached index read hphase
  obtain rfl : stream = stream' := Option.some.inj (hstream.symm.trans hstream')
  have htracks := hsound.streams stream (List.mem_reverse.mp (List.mem_of_getElem? hstream))
  have hkept : ({ w.follower with phase := .attached index (read + 1) } : Follower).Kept command
      (command.cursor saved) w.daemon.history := h.kept.same rfl rfl rfl rfl
  have hstill : ({ w.follower with phase := .attached index (read + 1) } : Follower).Reading command
      (command.cursor saved) w.daemon.history stream read := hreading.same rfl
  obtain ⟨hafter, hnext⟩ := hstill.receive hkept htracks hsound.recorded hframe due outcome
  rcases Follower.receive_phase { w.follower with phase := .attached index (read + 1) } due outcome
    frame with hsame | hclosed
  · refine ⟨hafter, fun hflag => absurd hflag ?_, fun after hrequested => ?_,
      fun index' read' hattached => ?_⟩
    · rwa [Follower.receive_firstSubscription]
    · cases hsame.symm.trans hrequested
    · obtain ⟨rfl, rfl⟩ := FollowPhase.attached.inj (hsame.symm.trans hattached)
      refine ⟨stream, hstream, hnext.resolve_left ?_⟩
      rintro ⟨code, message, rfl⟩
      have hopen := Follower.isOpen_of_attached hsame
      rw [Follower.receive_error_phase] at hopen
      cases hopen
  · refine closed hafter hclosed fun hflag => absurd hflag ?_
    rwa [Follower.receive_firstSubscription]

theorem step (hframed : ∀ a call, allowed a call → call.Framed c)
    (hsound : w.daemon.Sound c sessionId allowed) (hsaved : saved ≤ command.cursor saved)
    (h : w.Faithful command saved)
    (hstep : FollowStep c sessionId capacity allowed command (AsksInOrder command saved) w w') :
    w'.Faithful command saved := by
  cases hstep with
  | daemon hstep => exact h.daemonStep hstep
  | attempt _ hasks => exact h.attempt hsaved hasks
  | accept hphase hok => exact h.accept hframed hsound hphase hok
  | read due outcome hphase hstream hframe => exact h.read hsound due outcome hphase hstream hframe
  | refused code message hopen =>
    refine closed ?_ (Follower.receive_error_phase ..) fun hflag => absurd hflag ?_
    · exact h.kept.receive_error _ _ code message
    · rw [Follower.receive_firstSubscription]
      exact h.not_first hopen
  | lose hopen =>
    exact closed (h.kept.same rfl rfl rfl rfl) rfl fun hflag => absurd hflag (h.not_first hopen)
  | reconnect => exact closed (h.kept.same rfl rfl rfl rfl) rfl fun hflag => (h.first hflag).1
  | detach outcome =>
    refine closed ((h.kept.save outcome).same rfl rfl rfl rfl) rfl fun hflag => ?_
    exact (Follower.save_lastEventId _ _).trans
      (h.first ((Follower.save_firstSubscription _ _).symm.trans hflag)).1
  | stop => exact closed (h.kept.same rfl rfl rfl rfl) rfl fun hflag => (h.first hflag).1

theorem crash (hframed : ∀ a call, allowed a call → call.Framed c)
    (hsound : w.daemon.Sound c sessionId allowed) (h : w.Faithful command saved)
    {stop : Stop} (hdisk : stop = .powerLoss → w.OnDisk command saved) {call : LogCall}
    {s' : SessionState} (hcrash : SessionCrash c sessionId allowed stop w.daemon.session call s') :
    Faithful command saved
      ⟨⟨s', (w.daemon.history ++ call.appended).take s'.log.head, [], [], w.daemon.sent⟩,
        w.follower.severed⟩ := by
  have hlength := (hsound.recorded.crash hcrash).length
  have hsynced := (hsound.session.log.live hframed).1.2.lasts.synced
  have hreached : w.follower.lastEventId ≤ command.cursor saved ∨
      w.follower.lastEventId ≤ w.daemon.history.length ∧ w.follower.lastEventId ≤ s'.log.head := by
    obtain ⟨hproper, -, -, -, -, hsurvives, -, -⟩ := hcrash
    rw [Wal.settle_head, hsound.recorded.length]
    cases stop with
    | kill =>
      have hgrows := hsurvives.head_le hsynced hproper
      exact h.kept.head.imp_right fun hle =>
        ⟨hsound.recorded.length ▸ hle, (hsound.recorded.length ▸ hle).trans hgrows⟩
    | powerLoss =>
      obtain ⟨hdurable, hsynced'⟩ := hsurvives.durableHead_le hsynced hproper
      exact (hdisk rfl).imp_right fun hle => ⟨hle.trans (Wal.durableHead_le_head hsynced),
        hle.trans (hdurable.trans (Wal.durableHead_le_head hsynced'))⟩
  have hkept : w.follower.Kept command (command.cursor saved)
      ((w.daemon.history ++ call.appended).take s'.log.head) := by
    refine h.kept.of_take (hreached.imp_right fun hle => ⟨hle.2.trans_eq hlength.symm, ?_⟩)
    rw [List.take_take, min_eq_left hle.2, List.take_append_of_le_length hle.1]
  unfold Follower.severed
  split_ifs with hopen
  · exact closed (hkept.same rfl rfl rfl rfl) rfl fun hflag => absurd hflag (h.not_first hopen)
  · exact closed hkept (Bool.eq_false_iff.mpr hopen) fun hflag => (h.first hflag).1

end FollowWorld.Faithful

theorem FollowRun.daemonRun {asks : Follower → Prop} {crashes : FollowWorld → Prop}
    (h : FollowRun c sessionId capacity allowed command asks crashes saved w) :
    DaemonRun c sessionId capacity allowed (fun _ => True) w.daemon := by
  induction h with
  | started hrun => exact hrun
  | step _ hstep ih =>
    cases hstep with
    | daemon hstep => exact ih.step hstep
    | accept _ hok => exact ih.step (.subscribe hok)
    | attempt | read | refused | lose | reconnect | detach | stop => exact ih
  | crash _ _ hcrash ih => exact ih.crash (fun _ => trivial) hcrash

theorem FollowRun.faithful (hframed : ∀ a call, allowed a call → call.Framed c)
    (hsaved : saved ≤ command.cursor saved)
    (h : FollowRun c sessionId capacity allowed command (AsksInOrder command saved)
      (FollowWorld.OnDisk command saved) saved w) : w.Faithful command saved := by
  induction h with
  | started => exact .started hsaved _
  | step hrun hstep ih => exact ih.step hframed (hrun.daemonRun.sound hframed) hsaved hstep
  | crash hrun hguard hcrash ih => exact ih.crash hframed (hrun.daemonRun.sound hframed) hguard hcrash

theorem Follower.Reading.complete (hrecorded : Recorded history a)
    (htracks : stream.Tracks history published) (hlive : stream.phase = .live)
    (hposition : stream.position = published.length)
    (h : f.Reading command cursor history stream stream.written.length) :
    ∀ e ∈ history, command.wants e = true → cursor < e.id → e.id ≤ f.lastEventId := by
  have hwritten : stream.written = stream.script history history.length := by
    have hcursor : stream.cursor history published = history.length := by
      rw [EventStream.cursor, hposition, Nat.sub_self, Nat.sub_zero]
    cases htracks.progress with
    | live _ _ hwritten => rwa [hcursor] at hwritten
    | ready hother | backlog _ hother | finished _ _ hother => simp [hlive] at hother
  have hpos : 0 < stream.written.length := by
    rw [hwritten]
    exact Nat.succ_pos _
  obtain ⟨hstart, hread⟩ := (h.progress.resolve_left fun hzero => hpos.ne' hzero.1).2
  rw [List.take_length, hwritten, EventStream.script_event htracks.start htracks.through,
    h.keeps] at hread
  have hall : history.take history.length = history := List.take_length
  have hsplit := range_split history hstart h.reach_le h.reach_le
  rw [hall] at hsplit
  rw [hsplit, List.filter_append] at hread
  have hnone := List.self_eq_append_right.mp hread.symm
  intro e he hwants hafter
  by_contra hlate
  have hmem : e ∈ (history.take history.length).drop (f.reach cursor) := by
    obtain ⟨hpos, hget⟩ := hrecorded.getElem he
    have hlt := (List.getElem?_eq_some_iff.mp hget).1
    refine hrecorded.mem_range.mpr ⟨he, max_lt (Nat.not_le.mp hlate) hafter, by omega⟩
  rw [hall] at hmem
  exact List.filter_eq_nil_iff.mp hnone e hmem hwants

/-- In every run whose subscriptions are made in order and whose daemon crashes only with the cursor
on disk, the command has printed what it wants from the requested cursor up to its own, each event
once and in order, but for what a notice of compacted history covers; and when it has read all of a
stream, nothing that it wants is left. -/
theorem events_are_printed_from_requested_cursor (hsaved : saved ≤ command.cursor saved)
    (hrun : FollowRun c sessionId capacity (fun _ call => call.Framed c) command
      (AsksInOrder command saved) (FollowWorld.OnDisk command saved) saved w) :
    (w.follower.printed = w.daemon.history.filter fun e => command.wants e &&
      decide (command.cursor saved < e.id ∧ e.id ≤ w.follower.lastEventId) &&
        !w.follower.skips e.id) ∧
    w.follower.printed.Pairwise (·.id < ·.id) ∧
    w.follower.savedCursor ≤ w.follower.lastEventId ∧
    ∀ index stream, w.daemon.streams.reverse[index]? = some stream →
      w.follower.phase = .attached index stream.written.length → stream.phase = .live →
      stream.position = w.daemon.published.length →
      w.follower.printed = w.daemon.history.filter fun e => command.wants e &&
        decide (command.cursor saved < e.id) && !w.follower.skips e.id := by
  have hsound := hrun.daemonRun.sound fun _ _ h => h
  have hfaithful := hrun.faithful (fun _ _ h => h) hsaved
  have hprinted : w.follower.printed = w.daemon.history.filter fun e => command.wants e &&
      decide (command.cursor saved < e.id ∧ e.id ≤ w.follower.lastEventId) &&
        !w.follower.skips e.id := by
    rw [hfaithful.kept.printed, ← hsound.recorded.filter_between, List.filter_filter]
    refine List.filter_congr fun e _ => ?_
    have hreach : command.cursor saved < e.id ∧
        e.id ≤ w.follower.reach (command.cursor saved) ↔
          command.cursor saved < e.id ∧ e.id ≤ w.follower.lastEventId := by
      unfold Follower.reach
      omega
    rw [Follower.shows, decide_eq_decide.mpr hreach, Bool.and_right_comm]
  refine ⟨hprinted, ?_, hfaithful.kept.saved, ?_⟩
  · rw [hprinted]
    exact hsound.recorded.increasing.sublist List.filter_sublist
  · intro index stream hstream hphase hlive hposition
    obtain ⟨stream', hstream', hreading⟩ := hfaithful.attached index _ hphase
    obtain rfl : stream = stream' := Option.some.inj (hstream.symm.trans hstream')
    have htracks := hsound.streams stream (List.mem_reverse.mp (List.mem_of_getElem? hstream))
    have hall := hreading.complete hsound.recorded htracks hlive hposition
    rw [hprinted]
    refine List.filter_congr fun e he => ?_
    cases hwants : command.wants e with
    | false => rw [Bool.false_and, Bool.false_and, Bool.false_and, Bool.false_and]
    | true =>
      have hreach : command.cursor saved < e.id ∧ e.id ≤ w.follower.lastEventId ↔
          command.cursor saved < e.id :=
        and_iff_left_of_imp fun hafter => hall e he hwants hafter
      rw [decide_eq_decide.mpr hreach]

end Follow

section Examples

def createdDaemon : Daemon :=
  ⟨createdSession, [createdCall.event], [createdCall.event], [], []⟩

def allRequest : SubscribeRequest := ⟨0, none, true, true⟩

theorem createdDaemon_run : DaemonRun postcard 0 eventSubscriberCapacity
    (fun _ call => call.Framed postcard) (fun _ => True) createdDaemon :=
  (freshDaemon_run _ _ _).step (.call createdCall_step)

def sentStream : EventStream :=
  ⟨allRequest, 1, 1, false, [], 1, .live,
    [.ready 1 1 false, .notification createdCall.event, .caughtUp 1]⟩

def readSent (f : Follower) : Follower :=
  let ready := { f with phase := .attached 0 1 }
  let notified := { ready with phase := .attached 0 2 }.receive false .saved
    (.notification createdCall.event)
  { notified with phase := .attached 0 3 }.receive false .saved (.caughtUp 1)

theorem readSent_run {command : EventsCommand} {asks : Follower → Prop}
    {crashes : FollowWorld → Prop} {saved : ℕ} {f : Follower}
    (hall : command.processId = none ∧ command.includeOutput = true)
    (hphase : f.phase = .requested 0)
    (hrun : FollowRun postcard 0 eventSubscriberCapacity (fun _ call => call.Framed postcard) command
      asks crashes saved ⟨createdDaemon, f⟩) :
    FollowRun postcard 0 eventSubscriberCapacity (fun _ call => call.Framed postcard) command
      asks crashes saved ⟨{ createdDaemon with streams := [sentStream] }, readSent f⟩ := by
  obtain ⟨requested, processId, includeOutput⟩ := command
  obtain ⟨rfl, rfl⟩ := hall
  have hok : subscribeEvents postcard createdDaemon.session createdDaemon.published allRequest =
      (createdDaemon.session.world.view,
        .ok ⟨allRequest, 1, 1, false, [createdCall.event], 1, .ready, []⟩) := rfl
  have haccept := hrun.step (.accept hphase hok)
  have hsent : FollowRun postcard 0 eventSubscriberCapacity (fun _ call => call.Framed postcard)
      ⟨requested, none, true⟩ asks crashes saved
        ⟨{ createdDaemon with streams := [sentStream] }, { f with phase := .attached 0 0 }⟩ :=
    (((haccept.step (.daemon (.stream 0 .proceed))).step (.daemon (.stream 0 .proceed))).step
      (.daemon (.stream 0 .proceed))).step (.daemon (.stream 0 .proceed))
  have hstream : [sentStream].reverse[0]? = some sentStream := rfl
  have hready := hsent.step (.read false .saved rfl hstream rfl)
  have hnotified := hready.step (.read false .saved rfl hstream rfl)
  have hattached : (({ f with phase := .attached 0 2 } : Follower).receive false .saved
      (.notification createdCall.event)).phase = .attached 0 2 := by
    rw [Follower.receive]
    split_ifs <;> rfl
  have hmarked := hnotified.step (.read false .saved hattached hstream rfl)
  exact hmarked

theorem attempted_run (command : EventsCommand) (crashes : FollowWorld → Prop) (saved : ℕ)
    {P : Follower → Prop} (hasks : P (.start saved)) :
    FollowRun postcard 0 eventSubscriberCapacity (fun _ call => call.Framed postcard) command
      P crashes saved ⟨createdDaemon, (Follower.start saved).attempt command⟩ :=
  (FollowRun.started createdDaemon_run).step (.attempt rfl hasks)

/-- A command without a cursor of its own, from the start of the session. -/
theorem first_event_is_printed : ∃ w,
    FollowRun postcard 0 eventSubscriberCapacity (fun _ call => call.Framed postcard)
      ⟨none, none, true⟩ (AsksInOrder ⟨none, none, true⟩ 0)
      (FollowWorld.OnDisk ⟨none, none, true⟩ 0) 0 w ∧
    w.follower.printed = [createdCall.event] ∧
    w.follower.printed = w.daemon.history.filter fun e =>
      EventsCommand.wants ⟨none, none, true⟩ e && decide (0 < e.id) && !w.follower.skips e.id := by
  have hrun := readSent_run ⟨rfl, rfl⟩ rfl
    (attempted_run ⟨none, none, true⟩ (FollowWorld.OnDisk ⟨none, none, true⟩ 0) 0
      (P := AsksInOrder ⟨none, none, true⟩ 0) fun _ => le_rfl)
  refine ⟨_, hrun, by decide, ?_⟩
  exact (events_are_printed_from_requested_cursor le_rfl hrun).2.2.2 0 sentStream rfl rfl rfl rfl

/-- The file has cursor 1, and the command is asked for the events after 0: it prints none. The file
has cursor 0, and the command is asked for the events after 1: its first attempt fails, and the
second prints event 1. -/
theorem requested_cursor_is_not_honoured :
    (∃ w, FollowRun postcard 0 eventSubscriberCapacity (fun _ call => call.Framed postcard)
        ⟨some 0, none, true⟩ (fun _ => True) (fun _ => True) 1 w ∧
      w.follower.phase = .attached 0 3 ∧ w.daemon.streams = [sentStream] ∧
      createdCall.event ∈ w.daemon.history ∧ 0 < createdCall.event.id ∧
      EventsCommand.wants ⟨some 0, none, true⟩ createdCall.event = true ∧
      w.follower.boundaries = [] ∧ w.follower.printed = []) ∧
    ∃ w, FollowRun postcard 0 eventSubscriberCapacity (fun _ call => call.Framed postcard)
        ⟨some 1, none, true⟩ (fun _ => True) (fun _ => True) 0 w ∧
      createdCall.event.id ≤ 1 ∧ w.follower.printed = [createdCall.event] := by
  constructor
  · have hrun := readSent_run ⟨rfl, rfl⟩ rfl
      (attempted_run ⟨some 0, none, true⟩ (fun _ => True) 1 (P := fun _ => True) trivial)
    exact ⟨_, hrun, rfl, rfl, List.mem_singleton_self _, by decide, by decide, rfl, by decide⟩
  · have hattempted := attempted_run ⟨some 1, none, true⟩ (fun _ => True) 0 (P := fun _ => True) trivial
    have hfailed := (hattempted.step (.lose rfl)).step (.reconnect rfl)
    have hrun := readSent_run ⟨rfl, rfl⟩ rfl (hfailed.step (.attempt rfl trivial))
    exact ⟨_, hrun, by decide, by decide⟩

end Examples

end Asp
