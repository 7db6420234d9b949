import Asp.Lib.Parties
import Asp.Spec.UploadLocks

/-! Upload locks. A lease that has not run its drop handler keeps its lock in the map, which
excludes other uploads and prunes. -/

namespace Asp

namespace UploadSession

variable {s s' : UploadSession} {n : ℕ} {lease : UploadLockLease} {phase : LockPhase}

variable {action : UploadAction}

theorem strongCount_eq_two (h : s.leases[n]? = some lease) (hphase : lease.phase ≠ .gone) :
    s.strongCount lease.lock = 2 ↔
      ∀ i a, i ≠ n → s.leases[i]? = some a → a.lock = lease.lock → a.phase = .gone := by
  have hcount := Parties.countP_set (p := fun a => decide (a.lock = lease.lock ∧ a.phase ≠ .gone)) h
    { lease with phase := .gone }
  rw [decide_eq_true ⟨rfl, hphase⟩, decide_eq_false (by simp)] at hcount
  have hzero : s.strongCount lease.lock = 2 ↔ (s.move n lease .gone).leases.countP
      (fun a => decide (a.lock = lease.lock ∧ a.phase ≠ .gone)) = 0 := by
    simp only [strongCount, move, Bool.toNat_true, Bool.toNat_false] at hcount ⊢
    omega
  rw [hzero, List.countP_eq_zero]
  constructor
  · intro hall i a hi ha hlock
    have hmem : (s.move n lease .gone).leases[i]? = some a := by
      rw [move, List.getElem?_set_ne (Ne.symm hi), ha]
    simpa [hlock] using hall a (List.mem_of_getElem? hmem)
  · intro hall a ha
    obtain ⟨i, hi⟩ := List.mem_iff_getElem?.mp ha
    rcases Parties.getElem?_set_cases h hi with ⟨-, rfl⟩ | ⟨hne, hi⟩
    · simp
    · simpa using hall i a hne hi

inductive Change (s : UploadSession) : UploadAction → UploadSession → Prop
  | begin (requestId : Uuid) (hpruning : s.pruning = none) : Change s (.begin requestId)
      { (s.uploadLock requestId).1 with
        leases := s.leases ++ [⟨requestId, (s.uploadLock requestId).2, .waiting⟩] }
  | move {action : UploadAction} {n : ℕ} {lease : UploadLockLease} {phase : LockPhase}
      (hlease : s.leases[n]? = some lease) (hleased : phase.leased = lease.phase.leased)
      (hholding : phase = .holding → ∀ a ∈ s.leases, ¬ (a.phase = .holding ∧ a.lock = lease.lock)) :
      Change s action (s.move n lease phase)
  | dropHandler {n : ℕ} {lease : UploadLockLease} (hpruning : s.pruning = none)
      (hlease : s.leases[n]? = some lease) (hphase : lease.phase = .unlocked) :
      Change s (.dropHandler n) ((s.releaseUploadLock lease.requestId lease.lock).move n lease .released)
  | other {action : UploadAction} (staging : Uuid → Option (List ℕ)) (pruning : Option Uuid)
      (hpruning : pruning = s.pruning ∨ ∀ id, pruning = some id → s.uploadLocks id = none) :
      Change s action { s with staging := staging, pruning := pruning }

theorem change_of_act (h : s.act action = some s') : Change s action s' := by
  cases action with
  | begin requestId =>
    simp only [act, Option.ite_none_right_eq_some, Option.some.injEq] at h
    obtain ⟨hpruning, rfl⟩ := h
    have hleases : (s.uploadLock requestId).1.leases = s.leases := by
      unfold uploadLock
      split <;> rfl
    rw [hleases]
    exact .begin requestId hpruning
  | acquire upload =>
    obtain ⟨lease, hlease, ⟨hphase, hfree⟩, ⟨⟩⟩ := Parties.bind_ite_eq_some.mp h
    exact .move hlease (by rw [hphase]; rfl) fun _ => hfree
  | stage upload modified =>
    obtain ⟨lease, -, -, ⟨⟩⟩ := Parties.bind_ite_eq_some.mp h
    exact .other _ _ (.inl rfl)
  | unlock upload =>
    obtain ⟨lease, hlease, hphase, ⟨⟩⟩ := Parties.bind_ite_eq_some.mp h
    refine .move hlease ?_ nofun
    rcases hphase with hphase | hphase <;> rw [hphase] <;> rfl
  | dropHandler upload =>
    obtain ⟨lease, hlease, ⟨hpruning, hphase⟩, ⟨⟩⟩ := Parties.bind_ite_eq_some.mp h
    exact .dropHandler hpruning hlease hphase
  | dropLock upload =>
    obtain ⟨lease, hlease, hphase, ⟨⟩⟩ := Parties.bind_ite_eq_some.mp h
    exact .move hlease (by rw [hphase]; rfl) nofun
  | pruneCheck requestId =>
    simp only [act, Option.ite_none_right_eq_some] at h
    obtain ⟨-, h⟩ := h
    split_ifs at h with hsome <;> obtain rfl := Option.some.inj h
    · exact .other s.staging s.pruning (.inl rfl)
    · refine .other s.staging (some requestId) (.inr fun id hid => ?_)
      cases hid
      exact Option.not_isSome_iff_eq_none.mp hsome
  | pruneRemove now retention =>
    simp only [act, Option.bind_eq_bind, Option.bind_eq_some_iff, Option.ite_none_right_eq_some,
      Option.some.injEq] at h
    obtain ⟨requestId, -, modified, -, -, rfl⟩ := h
    exact .other _ _ (.inl rfl)
  | pruneNext =>
    simp only [act, Option.ite_none_right_eq_some, Option.some.injEq] at h
    obtain ⟨-, rfl⟩ := h
    exact .other _ none (.inr nofun)

/-- The map has the lock of a lease until its drop handler. -/
structure Exclusive (s : UploadSession) : Prop where
  leased : ∀ (i : ℕ) (a : UploadLockLease), s.leases[i]? = some a → a.phase.leased = true →
    s.uploadLocks a.requestId = some a.lock
  apart : ∀ (i j : ℕ) (a b : UploadLockLease), s.leases[i]? = some a → s.leases[j]? = some b → a.phase = .holding →
    b.phase = .holding → a.lock = b.lock → i = j
  pruning : ∀ id, s.pruning = some id → s.uploadLocks id = none

theorem uploadLock_spec (s : UploadSession) (requestId : Uuid) :
    (s.uploadLock requestId).1.uploadLocks =
        Function.update s.uploadLocks requestId (some (s.uploadLock requestId).2) ∧
      (s.uploadLock requestId).1.pruning = s.pruning ∧
      (s.uploadLocks requestId = some (s.uploadLock requestId).2 ∧
          (s.uploadLock requestId).1.nextLock = s.nextLock ∨
        s.uploadLocks requestId = none ∧ (s.uploadLock requestId).2 = s.nextLock ∧
          (s.uploadLock requestId).1.nextLock = s.nextLock + 1) := by
  unfold uploadLock
  cases hlock : s.uploadLocks requestId with
  | none => exact ⟨rfl, rfl, .inr ⟨rfl, rfl, rfl⟩⟩
  | some lock =>
    exact ⟨(hlock ▸ Function.update_eq_self requestId s.uploadLocks).symm, rfl, .inl ⟨rfl, rfl⟩⟩

theorem Exclusive.begin (h : s.Exclusive) (hpruning : s.pruning = none) (requestId : Uuid) :
    Exclusive { (s.uploadLock requestId).1 with
      leases := s.leases ++ [⟨requestId, (s.uploadLock requestId).2, .waiting⟩] } := by
  obtain ⟨hlocks, hsame, hold⟩ := uploadLock_spec s requestId
  refine ⟨fun i a ha hleased => ?_, fun i j a b ha hb hwa hwb => ?_, fun id hid => ?_⟩
  · rw [hlocks]
    rcases Parties.getElem?_concat_cases ha with ha | ⟨-, rfl⟩
    · have hlock := h.leased i a ha hleased
      rcases eq_or_ne a.requestId requestId with heq | hne
      · rw [heq, Function.update_self, ← hlock, heq]
        rcases hold with ⟨hold, -⟩ | ⟨hnone, -⟩
        · exact hold.symm
        · rw [heq, hnone] at hlock
          cases hlock
      · rw [Function.update_of_ne hne, hlock]
    · exact Function.update_self ..
  · rcases Parties.getElem?_concat_cases ha with ha | ⟨-, rfl⟩
    · rcases Parties.getElem?_concat_cases hb with hb | ⟨-, rfl⟩
      · exact h.apart i j a b ha hb hwa hwb
      · cases hwb
    · cases hwa
  · rw [hsame, hpruning] at hid
    cases hid

theorem Exclusive.move (h : s.Exclusive) (hlease : s.leases[n]? = some lease)
    (hleased : phase.leased = true → lease.phase.leased = true)
    (hholding : phase = .holding → ∀ a ∈ s.leases, ¬ (a.phase = .holding ∧ a.lock = lease.lock)) :
    (s.move n lease phase).Exclusive := by
  refine ⟨fun i a ha hphase => ?_, fun i j a b ha hb hwa hwb hlock => ?_, h.pruning⟩
  · rcases Parties.getElem?_set_cases hlease ha with ⟨-, rfl⟩ | ⟨-, ha⟩
    · exact h.leased n lease hlease (hleased hphase)
    · exact h.leased i a ha hphase
  · rcases Parties.getElem?_set_cases hlease ha with ⟨rfl, rfl⟩ | ⟨-, ha⟩
    · rcases Parties.getElem?_set_cases hlease hb with ⟨rfl, -⟩ | ⟨-, hb⟩
      · rfl
      · exact absurd ⟨hwb, hlock.symm⟩ (hholding hwa b (List.mem_of_getElem? hb))
    · rcases Parties.getElem?_set_cases hlease hb with ⟨-, rfl⟩ | ⟨-, hb⟩
      · exact absurd ⟨hwa, hlock⟩ (hholding hwb a (List.mem_of_getElem? ha))
      · exact h.apart i j a b ha hb hwa hwb hlock

theorem dropHandler_cases (hlease : s.leases[n]? = some lease) (hphase : lease.phase = .unlocked)
    (hlock : s.uploadLocks lease.requestId = some lease.lock) :
    (s.releaseUploadLock lease.requestId lease.lock).move n lease .released =
        s.move n lease .released ∧
      (∃ i a, i ≠ n ∧ s.leases[i]? = some a ∧ a.lock = lease.lock ∧ a.phase ≠ .gone) ∨
    (s.releaseUploadLock lease.requestId lease.lock).move n lease .released =
        { s.move n lease .released with
          uploadLocks := Function.update s.uploadLocks lease.requestId none } ∧
      ∀ i a, i ≠ n → s.leases[i]? = some a → a.lock = lease.lock → a.phase = .gone := by
  have htwo := strongCount_eq_two hlease (by rw [hphase]; decide)
  unfold releaseUploadLock
  split_ifs with h
  · exact .inr ⟨rfl, htwo.mp h.2⟩
  · refine .inl ⟨rfl, ?_⟩
    have hnot := mt (fun hcount => ⟨hlock, htwo.mpr hcount⟩) h
    push Not at hnot
    exact hnot

theorem Exclusive.dropHandler (h : s.Exclusive) (hlease : s.leases[n]? = some lease)
    (hphase : lease.phase = .unlocked) (hpruning : s.pruning = none) :
    ((s.releaseUploadLock lease.requestId lease.lock).move n lease .released).Exclusive := by
  have hmoved : (s.move n lease .released).Exclusive := h.move hlease nofun nofun
  have hlock := h.leased n lease hlease (by rw [hphase]; rfl)
  rcases dropHandler_cases hlease hphase hlock with ⟨heq, -⟩ | ⟨heq, hlast⟩
  · exact heq ▸ hmoved
  · rw [heq]
    refine ⟨fun i a ha hleased => ?_, hmoved.apart, fun id hid => ?_⟩
    · have hkept := hmoved.leased i a ha hleased
      refine (Function.update_of_ne (fun hid => ?_) _ _).trans hkept
      rcases Parties.getElem?_set_cases hlease ha with ⟨-, rfl⟩ | ⟨hne, ha⟩
      · cases hleased
      · -- another lease of this request id would have this lock
        have hsame : some a.lock = some lease.lock := hkept.symm.trans (hid ▸ hlock)
        rw [hlast i a hne ha (Option.some.inj hsame)] at hleased
        cases hleased
    · rw [show s.pruning = some id from hid] at hpruning
      cases hpruning

theorem Exclusive.act (h : s.Exclusive) (hact : s.act action = some s') : s'.Exclusive := by
  cases change_of_act hact with
  | begin requestId hpruning => exact h.begin hpruning requestId
  | move hlease hleased hholding => exact h.move hlease (hleased ▸ id) hholding
  | dropHandler hpruning hlease hphase => exact h.dropHandler hlease hphase hpruning
  | other staging pruning hpruning =>
    refine ⟨h.leased, h.apart, ?_⟩
    rcases hpruning with rfl | hpruning
    · exact h.pruning
    · exact hpruning

theorem Exclusive.initial (staging : Uuid → Option (List ℕ)) : (initial staging).Exclusive :=
  ⟨nofun, nofun, nofun⟩

/-- Every lock in the map has a lease that will take it out, and locks are not shared. -/
structure Reclaimed (s : UploadSession) : Prop where
  leased : ∀ id lock, s.uploadLocks id = some lock →
    ∃ (i : ℕ) (a : UploadLockLease), s.leases[i]? = some a ∧ a.requestId = id ∧ a.phase.leased = true
  fresh : ∀ a ∈ s.leases, a.lock < s.nextLock
  own : ∀ a ∈ s.leases, ∀ b ∈ s.leases, a.lock = b.lock → a.requestId = b.requestId

theorem Reclaimed.begin (h : s.Reclaimed) (hs : s.Exclusive) (requestId : Uuid) :
    Reclaimed { (s.uploadLock requestId).1 with
      leases := s.leases ++ [⟨requestId, (s.uploadLock requestId).2, .waiting⟩] } := by
  obtain ⟨hlocks, -, hold⟩ := uploadLock_spec s requestId
  -- a lease with the lock that this upload gets has this request id
  have hown : ∀ a ∈ s.leases, a.lock = (s.uploadLock requestId).2 → a.requestId = requestId := by
    intro a ha hlock
    rcases hold with ⟨hold, -⟩ | ⟨-, hfresh, -⟩
    · obtain ⟨i, b, hb, rfl, hleased⟩ := h.leased _ _ hold
      refine h.own a ha b (List.mem_of_getElem? hb) (hlock.trans ?_)
      exact Option.some.inj (hold.symm.trans (hs.leased i b hb hleased))
    · exact absurd (h.fresh a ha) (by omega)
  have hbound : (s.uploadLock requestId).2 < (s.uploadLock requestId).1.nextLock ∧
      s.nextLock ≤ (s.uploadLock requestId).1.nextLock := by
    rcases hold with ⟨hold, hnext⟩ | ⟨-, hfresh, hnext⟩
    · obtain ⟨i, b, hb, rfl, hleased⟩ := h.leased _ _ hold
      have := h.fresh b (List.mem_of_getElem? hb)
      have := Option.some.inj (hold.symm.trans (hs.leased i b hb hleased))
      omega
    · omega
  refine ⟨fun id lock hlock => ?_, fun a ha => ?_, fun a ha b hb hab => ?_⟩
  · rcases eq_or_ne id requestId with rfl | hne
    · exact ⟨s.leases.length, _, List.getElem?_concat_length, rfl, rfl⟩
    · rw [hlocks, Function.update_of_ne hne] at hlock
      obtain ⟨i, a, ha, hrest⟩ := h.leased id lock hlock
      exact ⟨i, a, (List.getElem?_append_left (List.getElem?_eq_some_iff.mp ha).1).trans ha, hrest⟩
  · rcases Parties.mem_concat ha with ha | rfl
    · exact (h.fresh a ha).trans_le hbound.2
    · exact hbound.1
  · rcases List.mem_append.mp ha with ha | ha <;> rcases List.mem_append.mp hb with hb | hb
    · exact h.own a ha b hb hab
    · obtain rfl := List.mem_singleton.mp hb
      exact hown a ha hab
    · obtain rfl := List.mem_singleton.mp ha
      exact (hown b hb hab.symm).symm
    · rw [List.mem_singleton.mp ha, List.mem_singleton.mp hb]

theorem mem_move (hlease : s.leases[n]? = some lease) {a : UploadLockLease}
    (ha : a ∈ (s.move n lease phase).leases) :
    ∃ b ∈ s.leases, b.lock = a.lock ∧ b.requestId = a.requestId := by
  rcases List.mem_or_eq_of_mem_set ha with ha | rfl
  · exact ⟨a, ha, rfl, rfl⟩
  · exact ⟨lease, List.mem_of_getElem? hlease, rfl, rfl⟩

theorem Reclaimed.move (h : s.Reclaimed) (hlease : s.leases[n]? = some lease)
    (hleft : s.uploadLocks lease.requestId ≠ none → phase.leased ≠ lease.phase.leased →
      ∃ i a, i ≠ n ∧ s.leases[i]? = some a ∧ a.requestId = lease.requestId ∧ a.phase.leased = true) :
    (s.move n lease phase).Reclaimed := by
  obtain ⟨hn, -⟩ := List.getElem?_eq_some_iff.mp hlease
  refine ⟨fun id lock hlock => ?_, fun a ha => ?_, fun a ha b hb hab => ?_⟩
  · change s.uploadLocks id = some lock at hlock
    obtain ⟨i, a, ha, rfl, hleased⟩ := h.leased id lock hlock
    rcases eq_or_ne i n with rfl | hi
    · obtain rfl := Option.some.inj (hlease.symm.trans ha)
      cases hphase : phase.leased with
      | true => exact ⟨i, _, List.getElem?_set_self hn, rfl, hphase⟩
      | false =>
        obtain ⟨j, b, hj, hb, hrest⟩ := hleft (by simp [hlock]) (by simp [hleased, hphase])
        exact ⟨j, b, (List.getElem?_set_ne (Ne.symm hj)).trans hb, hrest⟩
    · exact ⟨i, a, (List.getElem?_set_ne (Ne.symm hi)).trans ha, rfl, hleased⟩
  · obtain ⟨b, hb, hlock, -⟩ := mem_move hlease ha
    exact hlock ▸ h.fresh b hb
  · obtain ⟨a', ha', hlock, hid⟩ := mem_move hlease ha
    obtain ⟨b', hb', hlock', hid'⟩ := mem_move hlease hb
    rw [← hid, ← hid']
    exact h.own a' ha' b' hb' (by rw [hlock, hlock', hab])

theorem Reclaimed.dropHandler (h : s.Reclaimed) (hs : s.Exclusive) (hlease : s.leases[n]? = some lease)
    (hphase : lease.phase = .unlocked) (hguard : s.DropsApart (.dropHandler n)) :
    ((s.releaseUploadLock lease.requestId lease.lock).move n lease .released).Reclaimed := by
  have hlock := hs.leased n lease hlease (by rw [hphase]; rfl)
  rcases dropHandler_cases hlease hphase hlock with ⟨heq, i, a, hi, ha, hsame, hgone⟩ | ⟨heq, -⟩
  · rw [heq]
    refine h.move hlease fun _ _ => ?_
    by_contra hnone
    push Not at hnone
    have hid : a.requestId = lease.requestId :=
      h.own a (List.mem_of_getElem? ha) lease (List.mem_of_getElem? hlease) hsame
    have hdropped := hguard lease hlease (fun j b hj hb hid => by simpa using hnone j b hj hb hid) a
      (List.mem_of_getElem? ha) hsame
    have hnot := hnone i a hi ha hid
    cases hcase : a.phase <;> rw [hcase] at hdropped hgone hnot <;> simp [LockPhase.leased] at *
  · rw [heq]
    let removed : UploadSession :=
      { s with uploadLocks := Function.update s.uploadLocks lease.requestId none }
    have hremoved : removed.Reclaimed := by
      refine ⟨fun id lock hlock => h.leased id lock ?_, h.fresh, h.own⟩
      dsimp only [removed] at hlock
      rcases eq_or_ne id lease.requestId with rfl | hne
      · rw [Function.update_self] at hlock
        cases hlock
      · rwa [Function.update_of_ne hne] at hlock
    exact Reclaimed.move (s := removed) hremoved hlease fun hsome => absurd (Function.update_self ..) hsome

theorem Reclaimed.act (h : s.Reclaimed) (hs : s.Exclusive) (hguard : s.DropsApart action)
    (hact : s.act action = some s') : s'.Reclaimed := by
  cases change_of_act hact with
  | begin requestId => exact h.begin hs requestId
  | move hlease hleased => exact h.move hlease fun _ hne => absurd hleased hne
  | dropHandler _ hlease hphase => exact h.dropHandler hs hlease hphase hguard
  | other => exact ⟨h.leased, h.fresh, h.own⟩

theorem pruneRemove_unlocked (hs : s.Exclusive) {now retention : ℕ}
    (h : s.act (.pruneRemove now retention) = some s') {id : Uuid}
    (hid : s'.staging id ≠ s.staging id) : s.uploadLocks id = none := by
  simp only [UploadSession.act, Option.bind_eq_bind, Option.bind_eq_some_iff,
    Option.ite_none_right_eq_some, Option.some.injEq] at h
  obtain ⟨requestId, hpruning, modified, -, -, rfl⟩ := h
  rcases eq_or_ne id requestId with rfl | hne
  · exact hs.pruning id hpruning
  · exact absurd (Function.update_of_ne hne ..) hid

end UploadSession

/-- Exclusion holds in every run. The map is clean in the runs where the last drop handler of a
request id finds no `Arc` of its lock that another lease is about to drop. -/
theorem upload_locks_exclude_and_are_reclaimed (staging : Uuid → Option (List ℕ)) (s : UploadSession) :
    (uploadMachine.Reaches (fun _ _ => True) (.initial staging) s →
      (∀ (i j : ℕ) (a b : UploadLockLease), s.leases[i]? = some a → s.leases[j]? = some b →
        a.phase = .holding → b.phase = .holding → a.requestId = b.requestId → i = j) ∧
      ∀ now retention s', uploadMachine.act (.pruneRemove now retention) s = some s' →
        ∀ id, s'.staging id ≠ s.staging id → ∀ a ∈ s.leases, a.requestId = id →
          a.phase ≠ .waiting ∧ a.phase ≠ .holding) ∧
    (uploadMachine.Reaches UploadSession.DropsApart (.initial staging) s →
      ∀ id, (∀ a ∈ s.leases, a.requestId = id → a.phase = .gone) → s.uploadLocks id = none) := by
  constructor
  · intro hreach
    have hs : s.Exclusive := hreach.invariant (.initial staging) fun _ _ _ _ hact h => h.act hact
    refine ⟨fun i j a b ha hb hwa hwb hid => ?_, fun now retention s' hact id hid a ha heq => ?_⟩
    · have hlock := hs.leased i a ha (by rw [hwa]; rfl)
      rw [hid, hs.leased j b hb (by rw [hwb]; rfl)] at hlock
      exact hs.apart i j a b ha hb hwa hwb (Option.some.inj hlock).symm
    · obtain ⟨i, hi⟩ := List.mem_iff_getElem?.mp ha
      have hnone := heq ▸ UploadSession.pruneRemove_unlocked hs hact hid
      constructor
      all_goals
        intro hphase
        rw [hs.leased i a hi (by rw [hphase]; rfl)] at hnone
        cases hnone
  · intro hreach id hgone
    obtain ⟨-, hclean⟩ := hreach.invariant (P := fun s => s.Exclusive ∧ s.Reclaimed)
      ⟨.initial staging, nofun, nofun, nofun⟩
      fun _ _ _ hguard hact h => ⟨h.1.act hact, h.2.act h.1 hguard hact⟩
    rw [Option.eq_none_iff_forall_ne_some]
    intro lock hlock
    obtain ⟨i, a, ha, hid, hleased⟩ := hclean.leased id lock hlock
    rw [hgone a (List.mem_of_getElem? ha) hid] at hleased
    cases hleased

def dropsAlone (s : UploadSession) : UploadAction → Bool
  | .dropHandler upload => (s.leases[upload]?).all fun lease =>
      s.leases.all fun other => other.lock ≠ lease.lock || other.phase ≠ .released
  | _ => true

theorem dropsAlone_dropsApart (s : UploadSession) (action : UploadAction)
    (h : dropsAlone s action = true) : s.DropsApart action := by
  cases action with
  | dropHandler upload =>
    intro lease hlease _ other hother hlock
    simp only [dropsAlone, hlease, Option.all_some, List.all_eq_true] at h
    simpa [hlock] using h other hother
  | _ => trivial

/-- The second upload of a request id waits for the first one, and both run to their ends. -/
theorem second_upload_leaves_no_lock : ∃ s s',
    uploadMachine.Reaches (fun _ _ => True) (.initial fun _ => none) s ∧
    s.leases = [⟨7, 0, .holding⟩, ⟨7, 0, .waiting⟩] ∧
    (∀ j b, s.leases[j]? = some b → b.phase = .holding → b.requestId = 7 → 0 = j) ∧
    uploadMachine.Reaches UploadSession.DropsApart (.initial fun _ => none) s' ∧
    s'.leases = [⟨7, 0, .gone⟩, ⟨7, 0, .gone⟩] ∧ s'.uploadLocks 7 = none := by
  have hstaged : uploadMachine.Reaches (fun _ _ => True) (.initial fun _ => none) _ :=
    uploadMachine.reaches_of_run (fun _ _ _ => trivial) .start
      (show uploadMachine.runWith (fun _ _ => true)
        [.begin 7, .begin 7, .acquire 0, .stage 0 (some [1])] _ = some _ from rfl)
  have hrun : ((uploadMachine.runWith dropsAlone
      [.begin 7, .begin 7, .acquire 0, .stage 0 (some [1]), .unlock 0, .dropHandler 0, .dropLock 0,
        .acquire 1, .stage 1 none, .unlock 1, .dropHandler 1, .dropLock 1] (.initial fun _ => none)).any
      fun s => s.leases = [⟨7, 0, .gone⟩, ⟨7, 0, .gone⟩]) = true := by
    decide
  obtain ⟨s', hreach, hgone⟩ := uploadMachine.exists_reaches dropsAlone_dropsApart hrun
  have hgone := of_decide_eq_true hgone
  refine ⟨_, s', hstaged, rfl, fun j b hb hwb hid => ?_, hreach, hgone, ?_⟩
  · exact ((upload_locks_exclude_and_are_reclaimed _ _).1 hstaged).1 0 j _ b rfl hb rfl hwb hid.symm
  · refine (upload_locks_exclude_and_are_reclaimed _ _).2 hreach 7 fun a ha _ => ?_
    rw [hgone] at ha
    simp only [List.mem_cons, List.not_mem_nil, or_false, or_self] at ha
    rw [ha]

/-- Two leases of a request id run their handlers before either drops its `Arc`: both count three
references. The entry stays, and no prune collects the directory. -/
theorem two_drops_leave_a_lock : ∃ s,
    uploadMachine.Reaches (fun _ _ => True) (.initial fun _ => some []) s ∧
    (∀ a ∈ s.leases, a.phase = .gone) ∧ s.uploadLocks 7 = some 0 ∧
    uploadMachine.act (.pruneCheck 7) s = some s :=
  ⟨_, uploadMachine.reaches_of_run (fun _ _ _ => trivial) .start
    (show uploadMachine.runWith (fun _ _ => true) [.begin 7, .begin 7, .unlock 0, .unlock 1,
      .dropHandler 0, .dropHandler 1, .dropLock 0, .dropLock 1] _ = some _ from rfl),
    by decide, rfl, rfl⟩

end Asp
