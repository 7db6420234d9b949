import Asp.Lib.Lookup
import Asp.Lib.Parties
import Asp.Lib.Totals
import Asp.Spec.RunningProcesses

/-! The count of running processes. Every task holds its slot and its running record for known parts
of its life, so that counter and table are both counts of tasks. -/

namespace Asp

open Std Totals

namespace LoadedSession

variable {t : LoadedSession} {processId : Uuid}

def RunningExact (t : LoadedSession) : Prop :=
  t.runningProcesses = total (fun record => record.running.toNat) t.processes

theorem RunningExact.started (h : t.RunningExact) (hnew : processId ∉ t.processes)
    (sha256 : Bytes → String) (id unixMs : ℕ) (command : String) (pid : Option ℕ) (requestId : Option Uuid) :
    (t.push sha256 ⟨id, unixMs, .processStarted processId command pid requestId⟩).RunningExact := by
  rw [RunningExact] at *
  simp only [push, apply, if_neg hnew]
  rw [total_insert _ (ExtTreeMap.getElem?_eq_none hnew), h]
  rfl

theorem RunningExact.exited (h : t.RunningExact) (sha256 : Bytes → String) (id unixMs : ℕ)
    (processId : Uuid) (code : Option ℤ) :
    (t.push sha256 ⟨id, unixMs, .processExited processId code⟩).RunningExact := by
  rw [RunningExact] at *
  simp only [push, apply]
  cases hrecord : t.processes[processId]? with
  | none => rw [modify_of_none hrecord, ← h]; rfl
  | some record =>
    have hstopped := total_modify (fun record : ProcessRecord => record.running.toNat) hrecord
      fun record => { record with running := false, exitCode := code, exitUnixMs := some unixMs }
    rw [Option.any_some, h]
    cases hrunning : record.running <;> simp [hrunning] at hstopped ⊢ <;> omega

theorem mem_push_exited {sha256 : Bytes → String} {id unixMs : ℕ} {code : Option ℤ} {processId' : Uuid}
    (h : processId' ∈ (t.push sha256 ⟨id, unixMs, .processExited processId code⟩).processes) :
    processId' ∈ t.processes := by
  simpa only [push, apply, ExtTreeMap.mem_modify] using h

end LoadedSession

namespace ProcessSession

variable {s s' : ProcessSession} {n : ℕ} {task : ProcessTask}

structure Exact (s : ProcessSession) : Prop where
  slots : s.live.runningProcesses = s.tasks.countP (·.holdsSlot)
  records : total (fun record => record.running.toNat) s.live.processes =
    s.tasks.countP (·.process?.isSome)
  present : ∀ (i : ℕ) (task : ProcessTask) (id : Uuid), s.tasks[i]? = some task → task.process? = some id →
    ∃ record, s.live.processes[id]? = some record ∧ record.running = true
  apart : ∀ (i j : ℕ) (a b : ProcessTask) (id : Uuid), s.tasks[i]? = some a → s.tasks[j]? = some b →
    a.process? = some id → b.process? = some id → i = j
  durable : s.durable.RunningExact
  fresh : ∀ (i : ℕ) (requestId id : Uuid), s.tasks[i]? = some (.recorded requestId id) →
    id ∉ s.durable.processes

theorem Exact.put (h : s.Exact) (ht : s.tasks[n]? = some task) (task' : ProcessTask)
    {live durable : LoadedSession}
    (hslots : live.runningProcesses + task.holdsSlot.toNat = s.live.runningProcesses + task'.holdsSlot.toNat)
    (hrecords : total (fun record => record.running.toNat) live.processes + task.process?.isSome.toNat =
      total (fun record => record.running.toNat) s.live.processes + task'.process?.isSome.toNat)
    (hown : ∀ id, task'.process? = some id → (task.process? = some id ∨ id ∉ s.live.processes) ∧
      ∃ record, live.processes[id]? = some record ∧ record.running = true)
    (hother : ∀ id, task.process? ≠ some id → id ∈ s.live.processes → live.processes[id]? = s.live.processes[id]?)
    (hdurable : durable.RunningExact)
    (hfresh : ∀ requestId id, task' = .recorded requestId id → id ∉ durable.processes)
    (hkept : ∀ id ∈ durable.processes, id ∈ s.durable.processes ∨ task.process? = some id) :
    Exact { s.put n task' with live := live, durable := durable } := by
  have hfree : ∀ {i : ℕ} {a : ProcessTask} {id : Uuid}, i ≠ n → s.tasks[i]? = some a →
      a.process? = some id → task.process? ≠ some id ∧ id ∈ s.live.processes := by
    intro i a id hi ha hid
    obtain ⟨record, hrecord, -⟩ := h.present i a id ha hid
    exact ⟨fun heq => hi (h.apart i n a task id ha ht hid heq), Lookup.mem_of_getElem? hrecord⟩
  refine ⟨?_, ?_, fun i a id ha hid => ?_, fun i j a b id ha hb hia hib => ?_, hdurable,
    fun i requestId id ha hmem => ?_⟩
  · have hcount := Parties.countP_set (p := fun task : ProcessTask => task.holdsSlot) ht task'
    have hbefore := h.slots
    simp only [ProcessSession.put]
    omega
  · have hcount := Parties.countP_set (p := fun task : ProcessTask => task.process?.isSome) ht task'
    have hbefore := h.records
    simp only [ProcessSession.put]
    omega
  · rcases Parties.getElem?_set_cases ht ha with ⟨-, rfl⟩ | ⟨hi, ha⟩
    · exact (hown id hid).2
    · obtain ⟨hne, hmem⟩ := hfree hi ha hid
      rw [hother id hne hmem]
      exact h.present i a id ha hid
  · rcases Parties.getElem?_set_cases ht ha with ⟨rfl, rfl⟩ | ⟨hi, hold⟩ <;>
      rcases Parties.getElem?_set_cases ht hb with ⟨rfl, rfl⟩ | ⟨hj, hbold⟩
    · rfl
    · obtain ⟨hne, hmem⟩ := hfree hj hbold hib
      exact absurd hmem ((hown id hia).1.resolve_left hne)
    · obtain ⟨hne, hmem⟩ := hfree hi hold hia
      exact absurd hmem ((hown id hib).1.resolve_left hne)
    · exact h.apart i j a b id hold hbold hia hib
  · rcases Parties.getElem?_set_cases ht ha with ⟨-, heq⟩ | ⟨hi, ha⟩
    · exact hfresh requestId id heq.symm hmem
    · rcases hkept id hmem with hold | hid
      · exact h.fresh i requestId id ha hold
      · exact (hfree hi ha rfl).1 hid

theorem Exact.stopped (h : s.Exact) {id : Uuid} (ht : s.tasks[n]? = some task) (hid : task.process? = some id)
    (task' : ProcessTask) (hnone : task'.process? = none) (hslot : task'.holdsSlot = task.holdsSlot)
    {f : ProcessRecord → ProcessRecord} (hf : ∀ record, (f record).running = false) :
    ((s.modifyRecord id f).put n task').Exact := by
  obtain ⟨record, hrecord, hrunning⟩ := h.present n task id ht hid
  have hstopped := total_modify (fun record : ProcessRecord => record.running.toNat) hrecord f
  simp only [hf, hrunning, Bool.toNat_true, Bool.toNat_false] at hstopped
  refine h.put ht task' (by rw [hslot]; rfl) ?_ (fun id' hid' => ?_) (fun id' hne _ => ?_) h.durable
    (fun requestId id' heq => ?_) fun _ => .inl
  · simp only [hid, hnone, Option.isSome_some, Option.isSome_none, Bool.toNat_true, Bool.toNat_false]
    exact hstopped
  · rw [hnone] at hid'
    cases hid'
  · exact Lookup.getElem?_modify_of_ne fun heq => hne (heq ▸ hid)
  · rw [heq] at hnone
    cases hnone

theorem Exact.released (h : s.Exact) (ht : s.tasks[n]? = some task) (hslot : task.holdsSlot = true)
    (task' : ProcessTask) (hslot' : task'.holdsSlot = false) (hsame : task'.process? = task.process?)
    {nextId : ℕ} {durable : LoadedSession} (hdurable : durable.RunningExact)
    (hkept : ∀ id ∈ durable.processes, id ∈ s.durable.processes) :
    Exact ({ s with live := { s.live with nextId := nextId }, durable := durable }.releaseProcessSlot.put n
      task') := by
  have hpos : 0 < s.live.runningProcesses := by
    rw [h.slots]
    exact List.countP_pos_iff.mpr ⟨task, List.mem_of_getElem? ht, hslot⟩
  refine h.put ht task' ?_ (by rw [hsame]; rfl) (fun id hid => ?_) (fun _ _ _ => rfl) hdurable
    (fun requestId id heq => ?_) fun id hid => .inl (hkept id hid)
  · simp only [hslot, hslot', releaseProcessSlot, Bool.toNat_true, Bool.toNat_false]
    omega
  · rw [hsame] at hid
    exact ⟨.inl hid, h.present n task id ht hid⟩
  · rw [heq] at hslot'
    cases hslot'

theorem Exact.stamped (h : s.Exact) (id : Uuid) {f : ProcessRecord → ProcessRecord}
    (hf : ∀ record, (f record).running = record.running) : (s.modifyRecord id f).Exact := by
  refine ⟨h.slots, Eq.trans ?_ h.records, fun i a id' ha hid => ?_, h.apart, h.durable, h.fresh⟩
  · simp only [modifyRecord, setProcesses]
    cases hrecord : s.live.processes[id]? with
    | none => rw [modify_of_none hrecord]
    | some record =>
      have hsame := total_modify (fun record : ProcessRecord => record.running.toNat) hrecord f
      simp only [hf] at hsame
      omega
  · obtain ⟨record, hrecord, hrunning⟩ := h.present i a id' ha hid
    simp only [modifyRecord, setProcesses]
    rcases eq_or_ne id' id with rfl | hne
    · exact ⟨f record, by rw [ExtTreeMap.getElem?_modify_self, hrecord]; rfl, (hf record).trans hrunning⟩
    · exact ⟨record, (Lookup.getElem?_modify_of_ne hne).trans hrecord, hrunning⟩

variable {sha256 : Bytes → String} {sessionId : Uuid} {action : ProcessAction}

theorem Exact.started (h : s.Exact) {requestId processId : Uuid}
    (ht : s.tasks[n]? = some (.recorded requestId processId)) {nextId id unixMs : ℕ}
    {command : String} {pid : Option ℕ} {requests : ExtTreeMap Uuid ProcessRequest} :
    Exact { s.put n (.monitored processId) with
      live := { s.live with nextId := nextId, processRequests := requests }
      durable := s.durable.push sha256 ⟨id, unixMs, .processStarted processId command pid (some requestId)⟩ } := by
  refine h.put ht (.monitored processId) rfl rfl (fun id' hid => ?_) (fun _ _ _ => rfl)
    (h.durable.started (h.fresh n requestId processId ht) ..) nofun fun id' hid => ?_
  · cases hid
    exact ⟨.inl rfl, h.present n _ processId ht rfl⟩
  · simp only [LoadedSession.push, LoadedSession.apply, ExtTreeMap.mem_insert] at hid
    exact hid.symm.imp_right fun heq => congrArg some (LawfulEqCmp.eq_of_compare heq)

theorem Exact.compact (h : s.Exact) (cutoff : Option ℕ) (hfree : s.tasks.any (·.commits) = false) :
    Exact { s with
      live := s.live.compactRequests sha256 (s.pruned cutoff)
      durable := .fromSnapshot sha256 (s.live.snapshotData sha256 sessionId (s.pruned cutoff)) } := by
  have hkept : ∀ id record, s.live.processes[id]? = some record → record.running = true →
      s.pruned cutoff id = false := by
    intro id record hrecord hrunning
    simp [pruned, hrecord, hrunning]
  refine ⟨h.slots, Eq.trans (total_filter _ fun id record hrecord hpruned => ?_) h.records,
    fun i a id ha hid => ?_, h.apart, (total_toNat ..).symm, fun i requestId id ha => ?_⟩
  · cases hrunning : record.running with
    | false => rfl
    | true => simp [hkept id record hrecord hrunning] at hpruned
  · obtain ⟨record, hrecord, hrunning⟩ := h.present i a id ha hid
    refine ⟨record, ?_, hrunning⟩
    simp [LoadedSession.compactRequests, hrecord, hkept id record hrecord hrunning]
  · have := List.any_eq_false.mp hfree _ (List.mem_of_getElem? ha)
    exact absurd rfl this

theorem Exact.act (h : s.Exact) (hact : s.act sha256 sessionId action = some s') :
    s'.Exact ∧ s'.owner = s.owner ∧ s'.live.runningProcesses ≤ s.live.runningProcesses := by
  cases action with
  | record n processId command pid pidStartTime =>
    simp only [ProcessSession.act] at hact
    split at hact
    next requestId ht =>
      split_ifs at hact with hnew
      cases hact
      obtain ⟨hlive, hdurable⟩ := not_or.mp hnew
      refine ⟨h.put ht (.recorded requestId processId) rfl ?_ (fun id hid => ?_) (fun id _ hmem => ?_) h.durable
        (fun _ _ heq => ?_) fun _ => .inl, rfl, le_rfl⟩
      · rw [setProcesses, total_insert _ (ExtTreeMap.getElem?_eq_none hlive)]
        rfl
      · cases hid
        exact ⟨.inr hlive, _, ExtTreeMap.getElem?_insert_self, rfl⟩
      · exact Lookup.getElem?_insert_of_ne fun heq => hlive (heq ▸ hmem)
      · cases heq
        exact hdurable
    next => cases hact
  | abandon n =>
    simp only [ProcessSession.act] at hact
    split at hact
    next requestId ht =>
      cases hact
      exact ⟨h.released ht rfl .ended rfl rfl h.durable fun _ => id, rfl, Nat.sub_le ..⟩
    next => cases hact
  | started n unixMs =>
    simp only [ProcessSession.act] at hact
    split at hact
    next requestId processId ht =>
      obtain ⟨record, -, rfl⟩ := Option.map_eq_some_iff.mp hact
      exact ⟨h.started ht, rfl, le_rfl⟩
    next => cases hact
  | startLost n =>
    simp only [ProcessSession.act] at hact
    split at hact
    next requestId processId ht =>
      cases hact
      obtain ⟨record, hrecord, hrunning⟩ := h.present n _ processId ht rfl
      have herased := total_erase (fun record : ProcessRecord => record.running.toNat) hrecord
      rw [hrunning] at herased
      refine ⟨h.put ht (.reserved requestId) rfl herased nofun (fun id hne _ => ?_) h.durable nofun
        fun _ => .inl, rfl, le_rfl⟩
      exact Lookup.getElem?_erase_of_ne fun heq => hne (heq ▸ rfl)
    next => cases hact
  | exit n code unixMs =>
    simp only [ProcessSession.act] at hact
    split at hact
    next processId ht =>
      cases hact
      exact ⟨h.released ht rfl (.exited processId) rfl rfl (h.durable.exited ..)
        fun _ => LoadedSession.mem_push_exited, rfl, Nat.sub_le ..⟩
    next => cases hact
  | exitRecord n code unixMs =>
    simp only [ProcessSession.act] at hact
    split at hact
    next processId ht =>
      cases hact
      exact ⟨h.stopped ht rfl .ended rfl rfl fun _ => by rfl, rfl, le_rfl⟩
    next => cases hact
  | exitLost n code =>
    simp only [ProcessSession.act] at hact
    split at hact
    next processId ht =>
      cases hact
      exact ⟨h.stopped ht rfl .unsaved rfl rfl fun _ => by rfl, rfl, le_rfl⟩
    next => cases hact
  | monitorFails n =>
    simp only [ProcessSession.act] at hact
    split at hact
    next processId ht =>
      cases hact
      obtain ⟨record, hrecord, hrunning⟩ := h.present n _ processId ht rfl
      rw [hrecord, Option.any_some, if_pos hrunning]
      exact ⟨h.stopped ht rfl (.stopping processId) rfl rfl fun _ => by rfl, rfl, le_rfl⟩
    next => cases hact
  | stop n unixMs =>
    simp only [ProcessSession.act] at hact
    split at hact
    next processId ht =>
      cases hact
      have hreleased : ((s.append sha256 unixMs (.processExited processId none)).releaseProcessSlot.put n
          .ended).Exact :=
        h.released ht rfl .ended rfl rfl (h.durable.exited ..) fun _ => LoadedSession.mem_push_exited
      exact ⟨hreleased.stamped processId fun _ => by rfl, rfl, Nat.sub_le ..⟩
    next => cases hact
  | stopLost n =>
    simp only [ProcessSession.act] at hact
    split at hact
    next processId ht =>
      cases hact
      exact ⟨h.put ht .unsaved rfl rfl nofun (fun _ _ _ => rfl) h.durable nofun fun _ => .inl, rfl, le_rfl⟩
    next => cases hact
  | release n =>
    simp only [ProcessSession.act] at hact
    split at hact
    next ht =>
      cases hact
      exact ⟨h.released ht rfl .ended rfl rfl h.durable fun _ => id, rfl, Nat.sub_le ..⟩
    next => cases hact
  | compact cutoff =>
    simp only [ProcessSession.act] at hact
    split_ifs at hact with hfree
    cases hact
    exact ⟨h.compact cutoff (Bool.eq_false_iff.mpr hfree), rfl, le_rfl⟩

theorem Exact.restart (h : s.Exact) : s.restart.Exact := by
  have hlength : s.durable.runningProcesses = s.restart.tasks.length := by
    rw [h.durable, total_toNat, List.countP_eq_length_filter, ProcessSession.restart, List.length_map]
  have htasks : ∀ task ∈ s.restart.tasks, ∃ id record, task = .monitored id ∧
      s.durable.processes[id]? = some record ∧ record.running = true := by
    intro task htask
    obtain ⟨⟨id, record⟩, hentry, rfl⟩ := List.mem_map.mp htask
    obtain ⟨hmem, hrunning⟩ := List.mem_filter.mp hentry
    exact ⟨id, record, rfl, ExtTreeMap.mem_toList_iff_getElem?_eq_some.mp hmem, hrunning⟩
  have hnodup : s.restart.tasks.Nodup := by
    refine List.Pairwise.map _ (fun a b hne heq => hne ?_)
      ((ExtTreeMap.distinct_keys_toList (t := s.durable.processes)).filter _)
    rw [ProcessTask.monitored.inj heq]
    exact compare_self
  refine ⟨hlength.trans (List.countP_eq_length.mpr fun task htask => ?_).symm,
    h.durable.symm.trans (hlength.trans (List.countP_eq_length.mpr fun task htask => ?_).symm),
    fun i task id ha hid => ?_, fun i j a b id ha hb hia hib => ?_, h.durable, fun i requestId id ha => ?_⟩
  · obtain ⟨id, -, rfl, -⟩ := htasks task htask
    rfl
  · obtain ⟨id, -, rfl, -⟩ := htasks task htask
    rfl
  · obtain ⟨id', record, rfl, hrecord, hrunning⟩ := htasks task (List.mem_of_getElem? ha)
    cases hid
    exact ⟨record, hrecord, hrunning⟩
  · obtain ⟨id₁, -, rfl, -⟩ := htasks a (List.mem_of_getElem? ha)
    obtain ⟨id₂, -, rfl, -⟩ := htasks b (List.mem_of_getElem? hb)
    obtain rfl := Option.some.inj (hia.trans hib.symm)
    exact (List.getElem?_inj (List.getElem?_eq_some_iff.mp ha).1 hnodup).mp (ha.trans hb.symm)
  · obtain ⟨_, _, heq, -⟩ := htasks _ (List.mem_of_getElem? ha)
    cases heq

theorem Exact.reserve (h : s.Exact) (requestId : Uuid) : (s.reserveProcessSlot requestId).Exact := by
  have hold : ∀ {i : ℕ} {task : ProcessTask} {id : Uuid}, (s.tasks ++ [.reserved requestId])[i]? = some task →
      task.process? = some id → s.tasks[i]? = some task := by
    intro i task id ht hid
    rcases Parties.getElem?_concat_cases ht with ht | ⟨-, rfl⟩
    · exact ht
    · cases hid
  refine ⟨?_, ?_, fun i task id ht hid => h.present i task id (hold ht hid) hid,
    fun i j a b id ha hb hia hib => h.apart i j a b id (hold ha hia) (hold hb hib) hia hib, h.durable,
    fun i requestId' id ht => h.fresh i requestId' id (hold ht rfl)⟩
  · simp [reserveProcessSlot, h.slots, ProcessTask.holdsSlot]
  · simp [reserveProcessSlot, h.records, ProcessTask.process?]

end ProcessSession

namespace ProcessStore

variable {s s' : ProcessStore} {sha256 : Bytes → String} {action : SlotAction} {owner : String}

variable {c c' : ProcessSession} {i : ℕ}

/-- While the gate is held, the counters that were loaded can only fall. -/
structure Gated (sessions : List ProcessSession) (gate : PrincipalGate) : Prop where
  loaded : ownerRunning gate.owner (sessions.take gate.next) ≤ gate.running
  later : ∀ (i : ℕ) (c : ProcessSession), gate.sessions ≤ i → sessions[i]? = some c →
    c.live.runningProcesses = 0
  owner : ∃ c, sessions[gate.session]? = some c ∧ c.owner = gate.owner

structure Exact (s : ProcessStore) : Prop where
  sessions : ∀ c ∈ s.sessions, c.Exact
  gate : ∀ gate, s.gate = some gate → Gated s.sessions gate

theorem ownerRunning_set {sessions : List ProcessSession} (hc : sessions[i]? = some c)
    (hle : c'.owner = c.owner ∧ c'.live.runningProcesses ≤ c.live.runningProcesses) :
    ownerRunning owner (sessions.set i c') ≤ ownerRunning owner sessions := by
  have hsum := Parties.sum_set (f := fun session : ProcessSession =>
    if session.owner = owner then session.live.runningProcesses else 0) hc c'
  rw [hle.1] at hsum
  simp only [ownerRunning]
  split_ifs at hsum <;> omega

theorem Gated.set {gate : PrincipalGate} (h : Gated s.sessions gate) (hc : s.sessions[i]? = some c)
    (hle : c'.owner = c.owner ∧ c'.live.runningProcesses ≤ c.live.runningProcesses) :
    Gated (s.sessions.set i c') gate := by
  refine ⟨?_, fun j d hj hd => ?_, ?_⟩
  · rw [List.take_set]
    refine Nat.le_trans ?_ h.loaded
    rcases Nat.lt_or_ge i gate.next with hi | hi
    · exact ownerRunning_set ((List.getElem?_take_of_lt hi).trans hc) hle
    · rw [List.set_eq_of_length_le (by rw [List.length_take]; omega)]
  · rcases Parties.getElem?_set_cases hc hd with ⟨rfl, rfl⟩ | ⟨-, hd⟩
    · have := h.later j c hj hc
      omega
    · exact h.later j d hj hd
  · obtain ⟨d, hd, howner⟩ := h.owner
    rcases eq_or_ne gate.session i with heq | hne
    · obtain rfl := Option.some.inj (hc.symm.trans (heq ▸ hd))
      exact ⟨c', by rw [heq]; exact List.getElem?_set_self (List.getElem?_eq_some_iff.mp hc).1,
        hle.1.trans howner⟩
    · exact ⟨d, (List.getElem?_set_ne (Ne.symm hne)).trans hd, howner⟩

/-- No step but a restart takes a counter over its limit. -/
structure Bounded (s s' : ProcessStore) : Prop where
  session : ∀ (i : ℕ) (c c' : ProcessSession), s.sessions[i]? = some c → s'.sessions[i]? = some c' →
    c'.live.runningProcesses ≤ max c.live.runningProcesses maxRunningProcesses
  owner : ∀ owner, ownerRunning owner s'.sessions ≤
    max (ownerRunning owner s.sessions) maxRunningProcessesPerPrincipal

theorem Bounded.same (h : s'.sessions = s.sessions) : Bounded s s' := by
  refine ⟨fun i c c' hc hc' => ?_, fun owner => ?_⟩
  · rw [h, hc] at hc'
    rw [← Option.some.inj hc']
    exact le_max_left ..
  · rw [h]
    exact le_max_left ..

theorem Bounded.set {gate : Option PrincipalGate} (hc : s.sessions[i]? = some c)
    (hle : c'.owner = c.owner ∧ c'.live.runningProcesses ≤ c.live.runningProcesses) :
    Bounded s ⟨s.sessions.set i c', gate⟩ := by
  refine ⟨fun j d d' hd hd' => ?_, fun owner => (ownerRunning_set hc hle).trans (le_max_left ..)⟩
  rcases Parties.getElem?_set_cases hc hd' with ⟨rfl, rfl⟩ | ⟨-, hd'⟩
  · rw [Option.some.inj (hd.symm.trans hc)]
    exact hle.2.trans (le_max_left ..)
  · rw [Option.some.inj (hd'.symm.trans hd)]
    exact le_max_left ..

theorem Gated.le {gate : PrincipalGate} (h : Gated s.sessions gate) (hdone : gate.next = gate.sessions) :
    ownerRunning gate.owner s.sessions ≤ gate.running := by
  have hrest : ownerRunning gate.owner (s.sessions.drop gate.sessions) = 0 := by
    rw [ownerRunning, List.sum_eq_zero_iff]
    intro x hx
    obtain ⟨c, hc, rfl⟩ := List.mem_map.mp hx
    obtain ⟨i, hi⟩ := List.mem_iff_getElem?.mp hc
    rw [List.getElem?_drop] at hi
    rw [h.later _ c (Nat.le_add_right ..) hi, ite_self]
  have hsplit : ownerRunning gate.owner s.sessions = ownerRunning gate.owner (s.sessions.take gate.sessions) +
      ownerRunning gate.owner (s.sessions.drop gate.sessions) := by
    rw [ownerRunning, ownerRunning, ownerRunning, ← List.sum_append, ← List.map_append, List.take_append_drop]
  have hloaded := hdone ▸ h.loaded
  omega

theorem Exact.openSession (h : s.Exact) (owner : String) :
    Exact { s with sessions := s.sessions ++ [⟨owner, {}, {}, []⟩] } ∧
      Bounded s { s with sessions := s.sessions ++ [⟨owner, {}, {}, []⟩] } := by
  have hempty : ProcessSession.Exact ⟨owner, {}, {}, []⟩ := ⟨rfl, rfl, nofun, nofun, rfl, nofun⟩
  refine ⟨⟨fun c hc => ?_, fun gate hgate => ?_⟩, fun i c c' hc hc' => ?_, fun owner' => ?_⟩
  · rcases Parties.mem_concat hc with hc | rfl
    · exact h.sessions c hc
    · exact hempty
  · have hgated := h.gate gate hgate
    refine ⟨?_, fun i c hi hc => ?_, ?_⟩
    · have hnew : ∀ k, ownerRunning gate.owner ([⟨owner, {}, {}, []⟩].take k) = 0 := by
        rintro (- | k) <;> simp [ownerRunning]
      have happend := hnew (gate.next - s.sessions.length)
      have hloaded := hgated.loaded
      rw [List.take_append, ownerRunning, List.map_append, List.sum_append]
      simp only [ownerRunning] at *
      omega
    · rcases Parties.getElem?_concat_cases hc with hc | ⟨-, rfl⟩
      · exact hgated.later i c hi hc
      · rfl
    · obtain ⟨c, hc, howner⟩ := hgated.owner
      exact ⟨c, (List.getElem?_append_left (List.getElem?_eq_some_iff.mp hc).1).trans hc, howner⟩
  · rw [List.getElem?_append_left (List.getElem?_eq_some_iff.mp hc).1, hc] at hc'
    rw [← Option.some.inj hc']
    exact le_max_left ..
  · simp [ownerRunning]

theorem Exact.act (h : s.Exact) (hact : s.act sha256 action = some s') :
    s'.Exact ∧ (action ≠ .restart → Bounded s s') := by
  cases action with
  | openSession owner =>
    cases hact
    obtain ⟨hexact, hbounded⟩ := h.openSession owner
    exact ⟨hexact, fun _ => hbounded⟩
  | request i requestId =>
    simp only [ProcessStore.act, Option.bind_eq_bind, Option.bind_eq_some_iff] at hact
    obtain ⟨c, hc, hact⟩ := hact
    split_ifs at hact with hduplicate hheld <;> obtain rfl := Option.some.inj hact
    · exact ⟨h, fun _ => .same rfl⟩
    · refine ⟨⟨h.sessions, fun gate hgate => ?_⟩, fun _ => .same rfl⟩
      cases hgate
      refine ⟨le_rfl, fun j d hj hd => ?_, c, hc, rfl⟩
      exact absurd hj (Nat.not_le.mpr (List.getElem?_eq_some_iff.mp hd).1)
  | load =>
    simp only [ProcessStore.act, Option.bind_eq_bind, Option.bind_eq_some_iff,
      Option.ite_none_right_eq_some, Option.some.injEq] at hact
    obtain ⟨gate, hgate, c, hc, -, rfl⟩ := hact
    refine ⟨⟨h.sessions, fun gate' hgate' => ?_⟩, fun _ => .same rfl⟩
    cases hgate'
    have hgated := h.gate gate hgate
    refine ⟨?_, hgated.later, hgated.owner⟩
    have hloaded := hgated.loaded
    rw [List.take_add_one, hc, Option.toList_some, ownerRunning, List.map_append, List.sum_append,
      List.map_singleton, List.sum_singleton]
    exact Nat.add_le_add_right hloaded _
  | reserve =>
    simp only [ProcessStore.act, Option.bind_eq_bind, Option.bind_eq_some_iff,
      Option.ite_none_right_eq_some] at hact
    obtain ⟨gate, hgate, c, hc, hdone, hact⟩ := hact
    split_ifs at hact with hfull <;> obtain rfl := Option.some.inj hact
    · exact ⟨⟨h.sessions, nofun⟩, fun _ => .same rfl⟩
    · push Not at hfull
      have hgated := h.gate gate hgate
      have hle := hgated.le hdone
      obtain ⟨d, hd, howner⟩ := hgated.owner
      obtain rfl := Option.some.inj (hc.symm.trans hd)
      refine ⟨⟨fun d hd => ?_, nofun⟩, fun _ => ⟨fun i d d' hd hd' => ?_, fun owner => ?_⟩⟩
      · rcases List.mem_or_eq_of_mem_set hd with hd | rfl
        · exact h.sessions d hd
        · exact (h.sessions c (List.mem_of_getElem? hc)).reserve gate.requestId
      · rcases Parties.getElem?_set_cases hc hd' with ⟨-, rfl⟩ | ⟨-, hd'⟩
        · exact Nat.le_trans hfull.2 (le_max_right ..)
        · rw [Option.some.inj (hd'.symm.trans hd)]
          exact le_max_left ..
      · have hsum : ownerRunning owner (s.sessions.set gate.session (c.reserveProcessSlot gate.requestId)) +
            (if c.owner = owner then c.live.runningProcesses else 0) = ownerRunning owner s.sessions +
            if c.owner = owner then c.live.runningProcesses + 1 else 0 := Parties.sum_set hc _
        split_ifs at hsum with heq
        · rw [← howner, heq] at hle
          exact Nat.le_trans (by dsimp only; omega) (le_max_right ..)
        · exact Nat.le_trans (by dsimp only; omega) (le_max_left ..)
  | session i sessionId action =>
    simp only [ProcessStore.act, Option.bind_eq_bind, Option.bind_eq_some_iff, Option.some.injEq] at hact
    obtain ⟨c, hc, c', hact, rfl⟩ := hact
    obtain ⟨hexact, hle⟩ := (h.sessions c (List.mem_of_getElem? hc)).act hact
    refine ⟨⟨fun d hd => ?_, fun gate hgate => (h.gate gate hgate).set hc hle⟩, fun _ => .set hc hle⟩
    rcases List.mem_or_eq_of_mem_set hd with hd | rfl
    · exact h.sessions d hd
    · exact hexact
  | restart =>
    cases hact
    refine ⟨⟨fun c hc => ?_, nofun⟩, fun hne => absurd rfl hne⟩
    obtain ⟨d, hd, rfl⟩ := List.mem_map.mp hc
    exact (h.sessions d hd).restart

end ProcessStore

/-- `Bounded` is about any step of any run: only a restart, which loads what the log has, can put
a counter over its limit. -/
theorem running_count_is_exact_and_bounded (sha256 : Bytes → String) (s : ProcessStore)
    (h : (processMachine sha256).Reaches (fun _ _ => True) .initial s) :
    (∀ session ∈ s.sessions, (∀ task ∈ session.tasks, task.inProgress = false) →
      session.live.runningProcesses = session.runningRecords) ∧
    (∀ session ∈ s.sessions, session.restart.live.runningProcesses = session.restart.runningRecords) ∧
    ∀ action s', (processMachine sha256).act action s = some s' → action ≠ .restart → s.Bounded s' := by
  have hexact : s.Exact :=
    h.invariant ⟨nofun, nofun⟩ fun _ _ _ _ hact h => (h.act hact).1
  have hquiet : ∀ session : ProcessSession, session.Exact →
      (∀ task ∈ session.tasks, task.inProgress = false) →
      session.live.runningProcesses = session.runningRecords := by
    intro session hs hidle
    rw [hs.slots, ProcessSession.runningRecords, ← total_toNat, hs.records]
    refine List.countP_congr fun task htask => ?_
    have := hidle task htask
    cases task <;> first | exact Iff.rfl | cases this
  refine ⟨fun session hmem => hquiet session (hexact.sessions session hmem), fun session hmem => ?_,
    fun action s' hact hne => (hexact.act hact).2 hne⟩
  refine hquiet _ (hexact.sessions session hmem).restart fun task htask => ?_
  obtain ⟨entry, -, rfl⟩ := List.mem_map.mp htask
  rfl

theorem one_of_two_processes_runs : ∃ s session,
    (processMachine fun _ => "").Reaches (fun _ _ => True) .initial s ∧ s.sessions = [session] ∧
      session.live.runningProcesses = 1 ∧ session.runningRecords = 1 ∧
      ∀ s', (processMachine fun _ => "").act (.openSession "b") s = some s' → s.Bounded s' := by
  have hreach : (processMachine fun _ => "").Reaches (fun _ _ => True) .initial _ :=
    (processMachine fun _ => "").reaches_of_run (fun _ _ _ => trivial) .start
      (show (processMachine fun _ => "").runWith (fun _ _ => true) [.openSession "a",
        .request 0 1, .load, .reserve, .session 0 0 (.record 0 10 "ls" none none),
        .session 0 0 (.started 0 0), .request 0 2, .load, .reserve,
        .session 0 0 (.record 1 20 "ls" none none), .session 0 0 (.started 1 0),
        .session 0 0 (.exitLost 0 none), .session 0 0 (.release 0)] _ = some _ from rfl)
  obtain ⟨hexact, -, hbounded⟩ := running_count_is_exact_and_bounded _ _ hreach
  refine ⟨_, _, hreach, rfl, rfl, ?_, fun s' hact => hbounded _ s' hact nofun⟩
  exact (hexact _ List.mem_cons_self (by decide)).symm

end Asp
