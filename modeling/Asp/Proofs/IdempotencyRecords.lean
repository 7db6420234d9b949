import Asp.Lib.Parties
import Asp.Spec.IdempotencyRecords

/-! The counter of request records. Every step moves one unit between the counter, the tables, the
reservations and the records that a prune has yet to release. -/

namespace Asp

open Std

namespace LoadedSession

variable (t : LoadedSession) (requestId : Uuid)

theorem requestCount_insertRequest {t : LoadedSession} {requestId : Uuid} (record : RequestRecord)
    (h : t.hasRequest requestId record.kind = false) :
    (t.insertRequest requestId record).requestCount = t.requestCount + 1 := by
  cases record <;> simp only [hasRequest, RequestRecord.kind] at h <;>
    simp only [insertRequest, requestCount, ExtTreeMap.size_insert, h] <;>
    simp <;> omega

theorem hasRequest_insertRequest (record : RequestRecord) {id : Uuid} {kind : RequestKind}
    (h : kind ≠ record.kind) : (t.insertRequest requestId record).hasRequest id kind = t.hasRequest id kind := by
  cases record <;> cases kind <;> first | rfl | exact absurd rfl h

theorem requestCount_compactRequests (sha256 : Bytes → String) (pruned : Uuid → Bool) :
    (t.compactRequests sha256 pruned).requestCount = t.requestCount := by
  simp only [compactRequests, requestCount, ExtTreeMap.size_map]

theorem hasRequest_compactRequests (sha256 : Bytes → String) (pruned : Uuid → Bool) (kind : RequestKind) :
    (t.compactRequests sha256 pruned).hasRequest requestId kind = t.hasRequest requestId kind := by
  cases kind <;> simp only [compactRequests, hasRequest, ExtTreeMap.contains_map]

theorem requestCount_removeArtifact (artifactId : String) :
    (t.removeArtifact artifactId).1.requestCount + (t.removeArtifact artifactId).2 = t.requestCount := by
  have hsplit := List.length_eq_countP_add_countP
    (fun entry : Uuid × ArtifactRequest => entry.2.artifactId == artifactId) (l := t.artifactRequests.toList)
  have hkept : (t.artifactRequests.filter fun _ request => request.artifactId != artifactId).size =
      t.artifactRequests.toList.countP fun entry => ¬ (entry.2.artifactId == artifactId) := by
    rw [← ExtTreeMap.length_toList, ExtTreeMap.toList_filter, List.countP_eq_length_filter]
    simp [bne, beq_eq_decide]
  simp only [removeArtifact, requestCount, hkept]
  rw [← t.artifactRequests.length_toList]
  omega

theorem hasRequest_removeArtifact (artifactId : String) {kind : RequestKind}
    (h : t.hasRequest requestId kind = false) :
    (t.removeArtifact artifactId).1.hasRequest requestId kind = false := by
  cases kind with
  | artifact =>
    exact Bool.eq_false_iff.mpr fun hmem => Bool.eq_false_iff.mp h (ExtTreeMap.contains_of_contains_filter hmem)
  | _ => exact h

end LoadedSession

namespace RecordCounter

variable {s s' : RecordCounter} {n : ℕ} {r : MutationRequest}

structure Counted (s : RecordCounter) : Prop where
  balance : s.idempotencyRecords + s.recorded =
    s.tables.requestCount + s.uncommitted + s.pruning.getD 0
  inserted : ∀ r ∈ s.requests, r.inserted = true → r.reserved = true ∧ r.checked = true
  fresh : ∀ (i : ℕ) (r : MutationRequest), s.requests[i]? = some r → r.checked = true →
    r.inserted = false → s.tables.hasRequest r.requestId r.kind = false
  alone : ∀ (i j : ℕ) (r q : MutationRequest), s.requests[i]? = some r → s.requests[j]? = some q →
    r.checked = true → q.checked = true → r.kind.lock = q.kind.lock → i = j

theorem counted_fromLoaded (loaded : LoadedSession) : (fromLoaded loaded).Counted :=
  ⟨rfl, nofun, nofun, nofun⟩

theorem Counted.recorded_le (h : s.Counted) : s.recorded ≤ s.uncommitted :=
  List.countP_mono_left fun r hr hinserted => (h.inserted r hr hinserted).1

theorem Counted.put (h : s.Counted) (hr : s.requests[n]? = some r) (r' : MutationRequest)
    (hkind : r'.kind = r.kind) (hid : r'.requestId = r.requestId) (hinserted : r'.inserted = true → r'.reserved = true ∧ r'.checked = true)
    (hlock : r'.checked = true → r.checked = true ∨ s.lockFree r.kind.lock = true)
    {records : ℕ} {tables : LoadedSession}
    (hfresh : r'.checked = true → r'.inserted = false → tables.hasRequest r.requestId r.kind = false)
    (hother : ∀ (i : ℕ) (q : MutationRequest), i ≠ n → s.requests[i]? = some q → q.checked = true →
      q.inserted = false → tables.hasRequest q.requestId q.kind = false)
    (hbalance : records + r'.inserted.toNat + r.reserved.toNat + s.tables.requestCount =
      s.idempotencyRecords + r.inserted.toNat + r'.reserved.toNat + tables.requestCount) :
    Counted { s.put n r' with idempotencyRecords := records, tables := tables } := by
  have hfree : ∀ {i q}, i ≠ n → s.requests[i]? = some q → q.checked = true → r'.checked = true →
      q.kind.lock ≠ r.kind.lock := by
    intro i q hi hq hqc hrc heq
    rcases hlock hrc with hrc | hfree
    · exact hi (h.alone i n q r hq hr hqc hrc heq)
    · have := List.all_eq_true.mp (Bool.and_eq_true_iff.mp hfree).1 q (List.mem_of_getElem? hq)
      simp [hqc, heq] at this
  refine ⟨?_, fun q hq hins => ?_, fun i q hq hqc hqi => ?_, fun i j q p hq hp hqc hpc heq => ?_⟩
  · have hbefore := h.balance
    have hrecorded := Parties.countP_set (p := fun r : MutationRequest => r.inserted) hr r'
    have hreserved := Parties.countP_set (p := fun r : MutationRequest => r.reserved) hr r'
    simp only [recorded, uncommitted, RecordCounter.put] at *
    omega
  · rcases List.mem_or_eq_of_mem_set hq with hq | rfl
    · exact h.inserted q hq hins
    · exact hinserted hins
  · rcases Parties.getElem?_set_cases hr hq with ⟨rfl, rfl⟩ | ⟨hi, hq⟩
    · rw [hid, hkind]
      exact hfresh hqc hqi
    · exact hother i q hi hq hqc hqi
  · rcases Parties.getElem?_set_cases hr hq with ⟨rfl, rfl⟩ | ⟨hi, hold⟩ <;> rcases Parties.getElem?_set_cases hr hp with ⟨rfl, rfl⟩ | ⟨hj, hpold⟩
    · rfl
    · exact absurd (heq.symm.trans (congrArg _ hkind)) (hfree hj hpold hpc hqc)
    · exact absurd (heq.trans (congrArg _ hkind)) (hfree hi hold hqc hpc)
    · exact h.alone i j q p hold hpold hqc hpc heq

theorem Counted.dropReservation (h : s.Counted) (hr : s.requests[n]? = some r)
    (hinserted : r.inserted = false) : (s.dropReservation n r).Counted := by
  have hcleared : (s.put n r.cleared).recorded ≤ (s.put n r.cleared).uncommitted := by
    refine List.countP_mono_left fun q hq hins => ?_
    rcases List.mem_or_eq_of_mem_set hq with hq | rfl
    · exact (h.inserted q hq hins).1
    · cases hins
  -- so the counter covers the reservation that is dropped
  have hle : r.reserved.toNat ≤ s.idempotencyRecords := by
    have hrecorded := Parties.countP_set (p := fun r : MutationRequest => r.inserted) hr r.cleared
    have hreserved := Parties.countP_set (p := fun r : MutationRequest => r.reserved) hr r.cleared
    have hbefore := h.balance
    simp only [recorded, uncommitted, RecordCounter.put, hinserted, MutationRequest.cleared,
      Bool.toNat_false] at *
    omega
  have hput : Counted { s.put n r.cleared with
      idempotencyRecords := s.idempotencyRecords - r.reserved.toNat, tables := s.tables } := by
    refine h.put hr r.cleared rfl rfl nofun nofun nofun (fun i q _ hq => h.fresh i q hq) ?_
    simp only [hinserted, MutationRequest.cleared, Bool.toNat_false]
    omega
  rw [RecordCounter.dropReservation]
  cases hreserved : r.reserved <;> rw [hreserved] at hput <;> exact hput

theorem Counted.act {action : RecordAction} (h : s.Counted) (hact : s.act action = some s') :
    s'.Counted := by
  cases action with
  | begin kind requestId =>
    cases hact
    have hget : ∀ {i : ℕ} {q : MutationRequest}, (s.requests ++ [⟨kind, requestId, false, false, false⟩])[i]? = some q →
        q.checked = true → s.requests[i]? = some q := by
      intro i q hq hqc
      rcases Parties.getElem?_concat_cases hq with hq | ⟨-, rfl⟩
      · exact hq
      · cases hqc
    refine ⟨?_, fun q hq hins => ?_, fun i q hq hqc => h.fresh i q (hget hq hqc) hqc,
      fun i j q p hq hp hqc hpc => h.alone i j q p (hget hq hqc) (hget hp hpc) hqc hpc⟩
    · simpa [recorded, uncommitted] using h.balance
    · rcases Parties.mem_concat hq with hq | rfl
      · exact h.inserted q hq hins
      · cases hins
  | reserve n =>
    obtain ⟨r, hr, ⟨hreserved, -, -⟩, ⟨⟩⟩ := Parties.bind_ite_eq_some.mp hact
    refine h.put hr { r with reserved := true } rfl rfl (fun hins => ?_) (fun hrc => .inl hrc)
      (fun hrc hri => h.fresh n r hr hrc hri) (fun i q _ hq => h.fresh i q hq) ?_
    · exact ⟨rfl, (h.inserted r (List.mem_of_getElem? hr) hins).2⟩
    · simp only [RecordCounter.put, hreserved, Bool.toNat_true, Bool.toNat_false]
      omega
  | check n =>
    obtain ⟨r, hr, ⟨hchecked, hfree⟩, hact⟩ := Parties.bind_ite_eq_some.mp hact
    have hinserted : r.inserted = false := by
      by_contra hins
      have := (h.inserted r (List.mem_of_getElem? hr) (by simpa using hins)).2
      simp [hchecked] at this
    split_ifs at hact with hfound <;> obtain rfl := Option.some.inj hact
    · exact h.dropReservation hr hinserted
    · refine h.put hr { r with checked := true } rfl rfl (fun hins => ?_) (fun _ => .inr hfree)
        (fun _ _ => by simpa using hfound) (fun i q _ hq => h.fresh i q hq) rfl
      simp [hinserted] at hins
  | insert n record =>
    obtain ⟨r, hr, ⟨hreserved, hchecked, hinserted, hkind⟩, ⟨⟩⟩ := Parties.bind_ite_eq_some.mp hact
    have hnew := h.fresh n r hr hchecked hinserted
    refine h.put hr { r with inserted := true } rfl rfl (fun _ => ⟨hreserved, hchecked⟩)
      (fun hrc => .inl hrc) nofun (fun i q hi hq hqc hqi => ?_) ?_
    · rw [LoadedSession.hasRequest_insertRequest]
      · exact h.fresh i q hq hqc hqi
      · -- the lock of this kind is held once
        intro heq
        exact hi (h.alone i n q r hq hr hqc hchecked (by rw [heq, hkind]))
    · rw [LoadedSession.requestCount_insertRequest record (hkind ▸ hnew)]
      simp only [RecordCounter.put, hinserted, hreserved, Bool.toNat_true, Bool.toNat_false]
      omega
  | commit n =>
    obtain ⟨r, hr, hinserted, ⟨⟩⟩ := Parties.bind_ite_eq_some.mp hact
    have hreserved := (h.inserted r (List.mem_of_getElem? hr) hinserted).1
    refine h.put hr r.cleared rfl rfl nofun nofun nofun (fun i q _ hq => h.fresh i q hq) ?_
    simp only [MutationRequest.cleared, hinserted, hreserved, Bool.toNat_true, Bool.toNat_false]
  | leave n =>
    obtain ⟨r, hr, hinserted, ⟨⟩⟩ := Parties.bind_ite_eq_some.mp hact
    exact h.dropReservation hr hinserted
  | pruneBegin =>
    simp only [RecordCounter.act, Option.ite_none_right_eq_some, Option.some.injEq] at hact
    obtain ⟨hfree, rfl⟩ := hact
    have hnone : s.pruning = none := by simpa using (Bool.and_eq_true_iff.mp hfree).2
    refine ⟨?_, h.inserted, h.fresh, h.alone⟩
    exact h.balance.trans (by rw [hnone]; rfl)
  | pruneArtifact artifactId =>
    simp only [RecordCounter.act, Option.ite_none_right_eq_some, Option.some.injEq] at hact
    obtain ⟨hpruning, rfl⟩ := hact
    refine ⟨?_, h.inserted, fun i q hq hqc hqi => ?_, h.alone⟩
    · have hremoved := s.tables.requestCount_removeArtifact artifactId
      have hbefore := h.balance
      rw [hpruning] at hbefore
      simp only [recorded, uncommitted, Option.getD_some] at *
      omega
    · exact LoadedSession.hasRequest_removeArtifact _ _ _ (h.fresh i q hq hqc hqi)
  | pruneRelease =>
    cases hpruning : s.pruning with
    | none => simp [RecordCounter.act, hpruning] at hact
    | some removed =>
      cases removed with
      | zero => simp [RecordCounter.act, hpruning] at hact
      | succ removed =>
        simp only [RecordCounter.act, hpruning, Option.some.injEq] at hact
        subst hact
        refine ⟨?_, h.inserted, h.fresh, h.alone⟩
        have hle := h.recorded_le
        have hbefore := h.balance
        rw [hpruning] at hbefore
        simp only [recorded, uncommitted, Option.getD_some] at *
        omega
  | pruneEnd =>
    simp only [RecordCounter.act, Option.ite_none_right_eq_some, Option.some.injEq] at hact
    obtain ⟨hpruning, rfl⟩ := hact
    refine ⟨?_, h.inserted, h.fresh, h.alone⟩
    exact h.balance.trans (by rw [hpruning]; rfl)
  | compact sha256 pruned =>
    cases hact
    refine ⟨?_, h.inserted, fun i q hq hqc hqi => ?_, h.alone⟩
    · exact h.balance.trans (by rw [LoadedSession.requestCount_compactRequests]; rfl)
    · exact (LoadedSession.hasRequest_compactRequests ..).trans (h.fresh i q hq hqc hqi)
  | restart loaded =>
    cases hact
    exact counted_fromLoaded loaded
  | recover requestId request =>
    simp only [RecordCounter.act, Option.ite_none_right_eq_some] at hact
    obtain ⟨⟨hnone, hpruning⟩, hact⟩ := hact
    split_ifs at hact with hfound <;> obtain rfl := Option.some.inj hact
    · exact h
    · have hbefore := h.balance
      simp only [recorded, uncommitted, hnone] at hbefore
      refine ⟨?_, ?_, ?_, ?_⟩
      · simp only [recorded, uncommitted, hnone]
        rw [LoadedSession.requestCount_insertRequest (.file request) (Bool.eq_false_iff.mpr hfound)]
        omega
      all_goals simp [hnone]

end RecordCounter

/-- The counter covers the records in the tables, the reservations whose record is not there yet,
and the records that a prune has removed and is about to release. -/
theorem idempotency_counter_is_exact (loaded : LoadedSession) (s : RecordCounter)
    (h : recordMachine.Reaches (fun _ _ => True) (.fromLoaded loaded) s) :
    s.idempotencyRecords + s.recorded =
        s.tables.requestCount + s.uncommitted + s.pruning.getD 0 ∧
      (s.uncommitted = 0 → s.pruning.getD 0 = 0 → s.idempotencyRecords = s.tables.requestCount) := by
  have hcounted : s.Counted :=
    h.invariant (RecordCounter.counted_fromLoaded loaded) fun _ _ _ _ hact h => h.act hact
  refine ⟨hcounted.balance, fun hidle hreleased => ?_⟩
  have hbalance := hcounted.balance
  have hle := hcounted.recorded_le
  omega

theorem retried_file_counts_once : ∃ s,
    recordMachine.Reaches (fun _ _ => True) (.fromLoaded {}) s ∧
      s.requests.length = 2 ∧ s.idempotencyRecords = 1 ∧ s.tables.requestCount = 1 := by
  have hreach : recordMachine.Reaches (fun _ _ => True) (.fromLoaded {}) _ :=
    recordMachine.reaches_of_run (fun _ _ _ => trivial) .start
      (show recordMachine.runWith (fun _ _ => true) [.begin .file 7, .begin .file 7, .reserve 0,
        .reserve 1, .check 0, .insert 0 (.file ⟨"", "", 1, ""⟩), .commit 0, .check 1] _ = some _ from rfl)
  refine ⟨_, hreach, rfl, rfl, ?_⟩
  exact ((idempotency_counter_is_exact {} _ hreach).2 rfl rfl).symm

/-- A signal's record is in its table while its reservation is not committed, and a prune has
removed a record that it has not released. -/
theorem counter_lags_within_a_request_and_a_prune :
    (∃ s, recordMachine.Reaches (fun _ _ => True) (.fromLoaded {}) s ∧ s.uncommitted = 1 ∧
      s.idempotencyRecords = s.tables.requestCount) ∧
    ∃ loaded s, recordMachine.Reaches (fun _ _ => True) (.fromLoaded loaded) s ∧ s.requests = [] ∧
      s.idempotencyRecords = s.tables.requestCount + 1 := by
  constructor
  · exact ⟨_, recordMachine.reaches_of_run (fun _ _ _ => trivial) .start
      (show recordMachine.runWith (fun _ _ => true) [.begin .signal 7, .check 0, .reserve 0,
        .insert 0 (.signal ⟨"", 1, 2, true, none⟩)] _ = some _ from rfl), rfl, rfl⟩
  · let loaded : LoadedSession :=
      { artifactRequests := (∅ : ExtTreeMap Uuid ArtifactRequest).insert 7 ⟨"", "a", 0, none, 0⟩ }
    refine ⟨loaded, _, recordMachine.reaches_of_run (fun _ _ _ => trivial) .start
      (show recordMachine.runWith (fun _ _ => true) [.pruneBegin, .pruneArtifact "a"] _ = some _
        from rfl), rfl, ?_⟩
    exact (loaded.requestCount_removeArtifact "a").symm

end Asp
