import Asp.Lib.Steps

/-! Tasks that read a stream in stages: each stage takes a fixed number of bytes, or
waits for something else, and then says what comes next. A task in a loop may be
dropped while it waits, and the next one starts over with the bytes that are left.
When no task is dropped in the middle of an item, the loop reads what was written. -/

namespace StagedRead

abbrev Bytes := List UInt8

inductive Next (σ ε μ : Type) where
  | stage (s : σ)
  | failed (e : ε)
  | done (x : μ)

/-- A stage that needs no bytes waits until it is woken. -/
structure Reader (σ ε μ : Type) where
  start : σ
  need : σ → ℕ
  next : σ → Bytes → Next σ ε μ

inductive Action where
  | read (n : ℕ)
  | wake
  | drop
  deriving DecidableEq

/-- What is left of the stream, the task that reads, and what earlier tasks returned. -/
structure Loop (σ ε μ : Type) where
  stream : Bytes
  stage : σ
  got : Bytes
  out : List μ
  failed : Option ε
  deriving DecidableEq

variable {σ ε μ : Type}

namespace Reader

variable (R : Reader σ ε μ)

variable {front got rest : Bytes}

def begin (stream : Bytes) : Loop σ ε μ := ⟨stream, R.start, [], [], none⟩

def complete (st : Loop σ ε μ) (bytes : Bytes) : Loop σ ε μ :=
  match R.next st.stage bytes with
  | .stage s => { st with stage := s, got := [] }
  | .failed e => { st with failed := some e }
  | .done x => { st with stage := R.start, got := [], out := st.out ++ [x] }

/-- The task receives some more bytes of its stage, is woken, or is dropped. -/
def machine : Steps.Machine Action (Loop σ ε μ) where
  act action st :=
    if st.failed.isSome then none
    else
      match action with
      | .read n =>
          if 0 < n ∧ st.got.length + n ≤ R.need st.stage ∧ n ≤ st.stream.length then
            let st' := { st with stream := st.stream.drop n, got := st.got ++ st.stream.take n }
            some (if st'.got.length = R.need st.stage then R.complete st' st'.got else st')
          else none
      | .wake => if R.need st.stage = 0 then some (R.complete st []) else none
      | .drop => some { st with stage := R.start, got := [] }
  fault _ _ := []

/-- Reading exactly these bytes from the stage on returns the item. -/
inductive Yields : σ → Bytes → μ → Prop
  | done {s : σ} {front : Bytes} {x : μ} (hneed : front.length = R.need s)
      (hnext : R.next s front = .done x) : Yields s front x
  | stage {s s' : σ} {front rest : Bytes} {x : μ} (hneed : front.length = R.need s)
      (hnext : R.next s front = .stage s') (hrest : Yields s' rest x) : Yields s (front ++ rest) x

/-- The rest of the stream is the rest of one item and then whole items. -/
inductive Aligned (sent : List μ) : Loop σ ε μ → Prop
  | idle : Aligned sent ⟨[], R.start, [], sent, none⟩
  | reading {out : List μ} {x : μ} {items : List (μ × Bytes)} {s : σ} {got rest : Bytes}
      (hsent : sent = out ++ x :: items.map Prod.fst)
      (hitems : ∀ item ∈ items, R.Yields R.start item.2 item.1)
      (hgot : got = [] ∨ got.length < R.need s)
      (hyields : R.Yields s (got ++ rest) x) :
      Aligned sent ⟨rest ++ (items.map Prod.snd).flatten, s, got, out, none⟩

/-- Tasks are only dropped before their first byte. -/
def KeepsItem (st : Loop σ ε μ) (action : Action) : Prop :=
  action = .drop → st.stage = R.start ∧ st.got = []

variable {R} {sent out : List μ} {st st' : Loop σ ε μ}

theorem Aligned.next_item {items : List (μ × Bytes)} (hsent : sent = out ++ items.map Prod.fst)
    (hitems : ∀ item ∈ items, R.Yields R.start item.2 item.1) :
    R.Aligned sent ⟨(items.map Prod.snd).flatten, R.start, [], out, none⟩ := by
  cases items with
  | nil =>
    rw [List.map_nil, List.append_nil] at hsent
    subst hsent
    exact .idle
  | cons item items =>
    exact .reading hsent (fun i hi => hitems i (List.mem_cons_of_mem _ hi)) (.inl rfl)
      (hitems item List.mem_cons_self)

theorem complete_aligned {x : μ} {items : List (μ × Bytes)} {s : σ}
    (hsent : sent = out ++ x :: items.map Prod.fst)
    (hitems : ∀ item ∈ items, R.Yields R.start item.2 item.1) (hneed : front.length = R.need s)
    (hyields : R.Yields s (front ++ rest) x) :
    R.Aligned sent
      (R.complete ⟨rest ++ (items.map Prod.snd).flatten, s, got, out, none⟩ front) := by
  unfold complete
  generalize hbytes : front ++ rest = bytes at hyields
  cases hyields with
  | done hneed' hnext =>
    obtain ⟨rfl, rfl⟩ := List.append_inj (hbytes.trans (List.append_nil bytes).symm)
      (hneed.trans hneed'.symm)
    simp only [hnext, List.nil_append]
    refine Aligned.next_item ?_ hitems
    rw [hsent, List.append_assoc]
    rfl
  | stage hneed' hnext hrest =>
    obtain ⟨rfl, rfl⟩ := List.append_inj hbytes (hneed.trans hneed'.symm)
    simp only [hnext]
    exact .reading hsent hitems (.inl rfl) hrest

theorem Yields.need_le {s : σ} {bytes : Bytes} {x : μ} (h : R.Yields s bytes x) :
    R.need s ≤ bytes.length := by
  cases h with
  | done hneed => exact hneed.ge
  | stage hneed =>
    rw [List.length_append]
    omega

theorem act_read {n : ℕ} (hact : R.machine.act (.read n) st = some st') :
    0 < n ∧ st.got.length + n ≤ R.need st.stage ∧ n ≤ st.stream.length ∧
      st' = if (st.got ++ st.stream.take n).length = R.need st.stage then
        R.complete { st with stream := st.stream.drop n, got := st.got ++ st.stream.take n }
          (st.got ++ st.stream.take n)
        else { st with stream := st.stream.drop n, got := st.got ++ st.stream.take n } := by
  simp only [machine] at hact
  split_ifs at hact with hfailed hread hfull
  · exact ⟨hread.1, hread.2.1, hread.2.2, by rw [if_pos hfull]; exact (Option.some.inj hact).symm⟩
  · exact ⟨hread.1, hread.2.1, hread.2.2, by rw [if_neg hfull]; exact (Option.some.inj hact).symm⟩

theorem act_wake (hact : R.machine.act .wake st = some st') :
    R.need st.stage = 0 ∧ st' = R.complete st [] := by
  simp only [machine] at hact
  split_ifs at hact with hfailed hneed
  exact ⟨hneed, (Option.some.inj hact).symm⟩

theorem act_drop (hact : R.machine.act .drop st = some st') :
    st' = { st with stage := R.start, got := [] } := by
  simp only [machine] at hact
  split_ifs at hact
  exact (Option.some.inj hact).symm

theorem read_aligned {x : μ} {items : List (μ × Bytes)} {s : σ} {n : ℕ}
    (hsent : sent = out ++ x :: items.map Prod.fst)
    (hitems : ∀ item ∈ items, R.Yields R.start item.2 item.1) (hyields : R.Yields s (got ++ rest) x)
    (hact : R.machine.act (.read n) ⟨rest ++ (items.map Prod.snd).flatten, s, got, out, none⟩ =
      some st') : R.Aligned sent st' := by
  obtain ⟨hpos, hn, -, rfl⟩ := act_read hact
  dsimp only at hn ⊢
  have hle := hyields.need_le
  rw [List.length_append] at hle
  have htake : (rest ++ (items.map Prod.snd).flatten).take n = rest.take n :=
    List.take_append_of_le_length (by omega)
  have hdrop : (rest ++ (items.map Prod.snd).flatten).drop n =
      rest.drop n ++ (items.map Prod.snd).flatten := List.drop_append_of_le_length (by omega)
  have hlength : (got ++ rest.take n).length = got.length + n := by
    rw [List.length_append, List.length_take_of_le (by omega)]
  have hyields' : R.Yields s ((got ++ rest.take n) ++ rest.drop n) x := by
    rwa [List.append_assoc, List.take_append_drop]
  rw [htake, hdrop]
  split_ifs with hfull
  · exact complete_aligned hsent hitems hfull hyields'
  · exact .reading hsent hitems (.inr (by omega)) hyields'

theorem step_aligned {action : Action} (hstart : 0 < R.need R.start)
    (hguard : R.KeepsItem st action) (hact : R.machine.act action st = some st')
    (h : R.Aligned sent st) : R.Aligned sent st' := by
  cases action with
  | read n =>
    cases h with
    | idle =>
      obtain ⟨hpos, -, hn, -⟩ := act_read hact
      exact absurd hn (Nat.not_le.mpr hpos)
    | reading hsent hitems hgot hyields => exact read_aligned hsent hitems hyields hact
  | wake =>
    obtain ⟨hneed, rfl⟩ := act_wake hact
    cases h with
    | idle => exact absurd hneed hstart.ne'
    | reading hsent hitems hgot hyields =>
      dsimp only at hneed
      obtain rfl := hgot.resolve_right (by omega)
      exact complete_aligned hsent hitems hneed.symm hyields
  | drop =>
    obtain rfl := act_drop hact
    obtain ⟨hstage, hgot⟩ := hguard rfl
    rwa [← hstage, ← hgot]

theorem reaches_aligned {items : List (μ × Bytes)} (hstart : 0 < R.need R.start)
    (hitems : ∀ item ∈ items, R.Yields R.start item.2 item.1)
    (hreach : R.machine.Reaches R.KeepsItem (R.begin (items.map Prod.snd).flatten) st) :
    R.Aligned (items.map Prod.fst) st :=
  hreach.invariant (.next_item rfl hitems) fun _ _ _ hguard hact h =>
    step_aligned hstart hguard hact h

theorem act_read_all (out : List μ) (rest : Bytes) {s : σ} (hgot : got.length < R.need s)
    (hneed : (got ++ front).length = R.need s) :
    R.machine.act (.read front.length) ⟨front ++ rest, s, got, out, none⟩ =
      some (R.complete ⟨rest, s, got ++ front, out, none⟩ (got ++ front)) := by
  rw [List.length_append] at hneed
  have hlen : (front ++ rest).length = front.length + rest.length := List.length_append
  simp only [machine, Option.isSome_none, Bool.false_eq_true, if_false, List.take_left,
    List.drop_left]
  rw [if_pos ⟨by omega, by omega, by omega⟩, if_pos (by rw [List.length_append]; omega)]

theorem stage_completes (out : List μ) (rest : Bytes) {s : σ}
    (hgot : got = [] ∨ got.length < R.need s) (hneed : (got ++ front).length = R.need s) :
    ∃ action ≠ Action.drop, ∃ got',
      R.machine.act action ⟨front ++ rest, s, got, out, none⟩ =
        some (R.complete ⟨rest, s, got', out, none⟩ (got ++ front)) := by
  rcases Nat.eq_zero_or_pos (R.need s) with hzero | hpos
  · obtain ⟨rfl, rfl⟩ : got = [] ∧ front = [] := by
      rwa [hzero, List.length_eq_zero_iff, List.append_eq_nil_iff] at hneed
    refine ⟨.wake, Action.noConfusion, [], ?_⟩
    simp only [machine, Option.isSome_none, Bool.false_eq_true, if_false, if_pos hzero]
    rfl
  · have hlt : got.length < R.need s := by
      rcases hgot with rfl | hlt
      · exact hpos
      · exact hlt
    exact ⟨.read front.length, Action.noConfusion, _, act_read_all out rest hlt hneed⟩

theorem item_completes (out : List μ) (tail : Bytes) {s : σ} {bytes : Bytes} {x : μ}
    (hyields : R.Yields s bytes x) (hbytes : bytes = got ++ rest)
    (hgot : got = [] ∨ got.length < R.need s) :
    ∃ is, Action.drop ∉ is ∧
      R.machine.runWith (fun _ _ => true) is ⟨rest ++ tail, s, got, out, none⟩ =
        some ⟨tail, R.start, [], out ++ [x], none⟩ := by
  induction hyields generalizing got rest with
  | @done s front x hneed hnext =>
    subst hbytes
    obtain ⟨action, hdrop, got', hact⟩ := stage_completes out tail hgot hneed
    refine ⟨[action], fun hmem => hdrop (List.mem_singleton.mp hmem).symm, ?_⟩
    simp only [Steps.Machine.runWith, if_true, hact, Option.bind_some, complete, hnext]
  | @stage s s' front rest' x hneed hnext hrest ih =>
    have hle : got.length ≤ front.length := by
      rcases hgot with rfl | hlt
      · exact Nat.zero_le _
      · omega
    obtain ⟨more, rfl⟩ := List.prefix_of_prefix_length_le ⟨rest, hbytes.symm⟩
      (List.prefix_append front rest') hle
    rw [List.append_assoc, List.append_cancel_left_eq] at hbytes
    subst hbytes
    obtain ⟨action, hdrop, got', hact⟩ := stage_completes out (rest' ++ tail) hgot hneed
    obtain ⟨is, hkeeps, hrun⟩ := ih (List.nil_append rest').symm (.inl rfl)
    refine ⟨action :: is, ?_, ?_⟩
    · rw [List.mem_cons, not_or]
      exact ⟨hdrop.symm, hkeeps⟩
    · simp only [Steps.Machine.runWith, if_true, List.append_assoc, hact, Option.bind_some,
        complete, hnext]
      exact hrun

theorem items_complete (out : List μ) {items : List (μ × Bytes)}
    (hitems : ∀ item ∈ items, R.Yields R.start item.2 item.1) :
    ∃ is, Action.drop ∉ is ∧
      R.machine.runWith (fun _ _ => true) is
        ⟨(items.map Prod.snd).flatten, R.start, [], out, none⟩ =
        some ⟨[], R.start, [], out ++ items.map Prod.fst, none⟩ := by
  induction items generalizing out with
  | nil =>
    refine ⟨[], List.not_mem_nil, ?_⟩
    simp [Steps.Machine.runWith]
  | cons item items ih =>
    obtain ⟨is, hdrop, hrun⟩ := item_completes out (items.map Prod.snd).flatten
      (hitems item List.mem_cons_self) (List.nil_append _).symm (.inl rfl)
    obtain ⟨js, hdrop', hrun'⟩ := ih (out ++ [item.1]) fun i hi =>
      hitems i (List.mem_cons_of_mem _ hi)
    refine ⟨is ++ js, ?_, ?_⟩
    · rw [List.mem_append, not_or]
      exact ⟨hdrop, hdrop'⟩
    · rw [List.map_cons, List.flatten_cons, Steps.Machine.runWith_append, hrun, Option.bind_some,
        hrun', List.append_assoc]
      rfl

/-- From every state of an undisturbed loop, tasks that are not dropped read the rest. -/
theorem Aligned.completes (h : R.Aligned sent st) :
    ∃ is, Action.drop ∉ is ∧
      R.machine.runWith (fun _ _ => true) is st = some ⟨[], R.start, [], sent, none⟩ := by
  cases h with
  | idle => exact ⟨[], List.not_mem_nil, rfl⟩
  | @reading out x items s got rest hsent hitems hgot hyields =>
    obtain ⟨is, hdrop, hrun⟩ := item_completes out (items.map Prod.snd).flatten hyields rfl hgot
    obtain ⟨js, hdrop', hrun'⟩ := items_complete (out ++ [x]) hitems
    refine ⟨is ++ js, ?_, ?_⟩
    · rw [List.mem_append, not_or]
      exact ⟨hdrop, hdrop'⟩
    · rw [Steps.Machine.runWith_append, hrun, Option.bind_some, hrun', hsent, List.append_assoc]
      rfl

theorem Aligned.out_spec (hstart : 0 < R.need R.start) (h : R.Aligned sent st) :
    st.failed = none ∧ st.out <+: sent ∧
      (st.stream = [] → st.stage = R.start → st.out = sent) := by
  cases h with
  | idle => exact ⟨rfl, List.prefix_rfl, fun _ _ => rfl⟩
  | reading hsent hitems hgot hyields =>
    refine ⟨rfl, hsent ▸ List.prefix_append .., fun hstream hstage => ?_⟩
    dsimp only at hstream hstage
    obtain ⟨rfl, -⟩ := List.append_eq_nil_iff.mp hstream
    have hneed := hyields.need_le
    rw [List.append_nil] at hneed
    rcases hgot with rfl | hlt
    · rw [hstage] at hneed
      exact absurd hneed (Nat.not_le.mpr hstart)
    · exact absurd hneed (Nat.not_le.mpr hlt)

end Reader

end StagedRead
