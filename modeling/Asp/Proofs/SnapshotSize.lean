import Asp.Proofs.Recovery

/-! Snapshots that read back: `write_snapshot_file` accepts what fits 32 bits,
`read_snapshot_file` what fits a protocol frame. -/

namespace Asp

open Std Framing Durable Steps

section ReadsBack

variable {c : Crates} {sessionId : Uuid} {w w' : World} {a : Wal} {s : SessionSnapshotData}

theorem compact_ok (w : World) (hshort : (c.snapshot.encode s).length < 2 ^ 32) :
    ∃ w', compact c w s = (w', true) := by
  rw [compact, if_neg (Nat.not_le.mpr hshort)]
  refine ⟨_, Prod.ext rfl (Machine.run_of_total (fun i hi w => ?_) w)⟩
  simp only [compactProgram, List.mem_append, List.mem_cons, List.not_mem_nil, or_false,
    List.mem_map] at hi
  rcases hi with (hi | ⟨segment, -, rfl⟩) | hi
  · rcases hi with rfl | rfl | rfl | rfl | rfl | rfl | rfl | rfl <;> rfl
  · rfl
  · rcases hi with rfl | rfl | rfl <;> rfl

/-- After any compaction that returns `Ok`, the snapshot reads back, and the session
opens with its tables, exactly when the snapshot fits a frame. -/
theorem snapshot_reads_back_iff {f : SessionDir Bytes}
    (hrun : LogRun c sessionId (fun _ call => call.Framed c) w a)
    (hproper : (LogCall.compact s).Proper sessionId a) (hok : compact c w s = (w', true))
    (hcrash : w'.disk.Crashed f) :
    (readSnapshotFile c f.snapshot = .ok (some s) ∧
      ∃ d' mem, openSession c sessionId f = (d', .ok (mem,
        { LoadedSession.fromSnapshot c.sha256 s with eventConsumers := w'.eventConsumers }))) ↔
      (c.snapshot.encode s).length ≤ maxFrameBytes := by
  obtain ⟨hlive, hacks⟩ := (LogRun.compact hrun hproper trivial hok).live fun _ _ h => h
  obtain ⟨k, recs, -, hrecovers⟩ := hlive.2.lasts.crash hcrash
  have hsame : (Wal.compacted s).take k = Wal.compacted s := by simp [Wal.take, Wal.compacted]
  rw [hsame] at hrecovers
  have hfile : f.snapshot = some (snapshotFile c s) := hrecovers.snapshot
  constructor
  · rintro ⟨-, d', mem, hopen⟩
    by_contra hlarge
    rw [openSession_oversized hfile (Nat.lt_of_not_le hlarge)] at hopen
    cases (Prod.mk.inj hopen).2
  · intro hfits
    have hsnapshot : (Wal.compacted s).SnapshotFits c := fun t ht => by
      cases ht
      exact hfits
    refine ⟨by rw [hfile]; exact readSnapshotFile_snapshotFile c hfits,
      openSession_of_recovers hrecovers hsnapshot ?_⟩
    obtain ⟨files, -, rfl⟩ := hcrash
    exact hacks

theorem short_snapshot_reads_back : ∃ w',
    compact postcard createdWorld createdSnapshot = (w', true) ∧
    readSnapshotFile postcard w'.view.snapshot = .ok (some createdSnapshot) := by
  have hfits := createdSnapshot_sized
  have hshort : (postcard.snapshot.encode createdSnapshot).length < 2 ^ 32 :=
    Nat.lt_of_le_of_lt hfits (by decide)
  obtain ⟨w', hok⟩ := compact_ok createdWorld hshort
  exact ⟨w', hok, ((snapshot_reads_back_iff (createdWorld_run createdCall_sized.framed)
    createdSnapshot_proper hok w'.crashed_view).mpr hfits).1⟩

theorem FirstOpen.opens {allowed : Wal → LogCall → Prop} {d : SessionDir Bytes}
    (h : FirstOpen c d a) :
    ∃ w, LogRun c sessionId allowed w a ∧ (openSession c sessionId w.view).2.isOk = true := by
  have hnone : a.SnapshotFits c ∧ d.consumers = none := by
    cases h <;> exact ⟨fun s hs => absurd hs (by simp), rfl⟩
  have hacks : ∀ head, AcksWithin c none ∅ head :=
    fun head => ⟨rfl, fun id consumer hget => by simp at hget⟩
  obtain ⟨⟨recs, hrecovers⟩, -, -⟩ := h.recovers sessionId
  obtain ⟨d', mem, hopen⟩ := openSession_of_recovers hrecovers hnone.1 (hnone.2 ▸ hacks _)
  refine ⟨_, .opened h hopen, ?_⟩
  obtain ⟨-, hacks', -, ⟨recs', hrunning⟩, -⟩ := hrecovers.opened hopen
  obtain ⟨d₂, mem₂, hagain⟩ := openSession_of_recovers hrunning.recovers hnone.1 hacks'
  rw [World.opened_view]
  exact congrArg (fun result => result.2.isOk) hagain

end ReadsBack

section Long

def longCommand : String := String.ofList (List.replicate commandMaxBytes 'a')

def finishedProcess (i : ℕ) : List Event :=
  [⟨2 * i + 1, 0, .processStarted i longCommand none (some i)⟩,
    ⟨2 * i + 2, 0, .processExited i (some 0)⟩]

def finishedProcesses (n : ℕ) : List Event := (List.range n).flatMap finishedProcess

theorem finishedProcesses_succ (n : ℕ) :
    finishedProcesses (n + 1) = finishedProcesses n ++ finishedProcess n := by
  rw [finishedProcesses, List.range_succ, List.flatMap_append, List.flatMap_singleton]
  rfl

theorem finishedProcesses_ids (n : ℕ) :
    (finishedProcesses n).map Event.id = List.range' 1 (2 * n) := by
  induction n with
  | zero => rfl
  | succ n ih =>
    rw [finishedProcesses_succ, List.map_append, ih, show 2 * (n + 1) = 2 * n + 2 by ring,
      ← List.range'_append_1, Nat.add_comm 1 (2 * n)]
    rfl

structure FinishedTables (sha256 : Bytes → String) (n : ℕ) (t : LoadedSession) : Prop where
  size : t.processes.size = n
  requests : t.processRequests.size = n
  process : ∀ (k : Uuid) (r : ProcessRecord), t.processes[k]? = some r →
    k < n ∧ r = ⟨longCommand, false, some 0, some 0, none, none, 0, 0⟩
  request : ∀ (k : Uuid) (r : ProcessRequest), t.processRequests[k]? = some r →
    k < n ∧ r = ⟨longCommand, some (sha256 (asBytes longCommand)), k, 2 * k + 1⟩
  rest : t.fileVersions = ∅ ∧ t.fileRequests = ∅ ∧ t.signalRequests = ∅ ∧ t.artifactRequests = ∅ ∧
    t.artifacts = ∅ ∧ t.ptyStarted = false ∧ t.ptyGeneration = 0

theorem FinishedTables.step {sha256 : Bytes → String} {n : ℕ} {t : LoadedSession}
    (h : FinishedTables sha256 n t) :
    FinishedTables sha256 (n + 1) ((finishedProcess n).foldl (LoadedSession.push sha256) t) := by
  have hprocess : n ∉ t.processes := fun hmem => by
    obtain ⟨r, hr⟩ := ExtTreeMap.mem_iff_isSome_getElem?.mp hmem |> Option.isSome_iff_exists.mp
    exact absurd (h.process n r hr).1 (lt_irrefl n)
  have hrequest : n ∉ t.processRequests := fun hmem => by
    obtain ⟨r, hr⟩ := ExtTreeMap.mem_iff_isSome_getElem?.mp hmem |> Option.isSome_iff_exists.mp
    exact absurd (h.request n r hr).1 (lt_irrefl n)
  simp only [finishedProcess, List.foldl_cons, List.foldl_nil, LoadedSession.push,
    LoadedSession.apply]
  refine ⟨?_, ?_, ?_, ?_, h.rest⟩
  · rw [ExtTreeMap.size_modify, ExtTreeMap.size_insert,
      if_neg (by simpa [← ExtTreeMap.mem_iff_contains] using hprocess), h.size]
  · rw [ExtTreeMap.size_insert, if_neg (by simpa [← ExtTreeMap.mem_iff_contains] using hrequest),
      h.requests]
  · intro k r hr
    rw [ExtTreeMap.getElem?_modify] at hr
    split_ifs at hr with hk
    · rw [ExtTreeMap.getElem?_insert_self, Option.map_some] at hr
      obtain rfl := Option.some.inj hr
      obtain rfl := LawfulEqCmp.eq_of_compare hk
      exact ⟨Nat.lt_succ_self n, rfl⟩
    · rw [ExtTreeMap.getElem?_insert, if_neg hk] at hr
      obtain ⟨hlt, hsame⟩ := h.process k r hr
      exact ⟨Nat.lt_succ_of_lt hlt, hsame⟩
  · intro k r hr
    rw [ExtTreeMap.getElem?_insert] at hr
    split_ifs at hr with hk
    · obtain rfl := LawfulEqCmp.eq_of_compare hk
      exact ⟨Nat.lt_succ_self n, (Option.some.inj hr).symm⟩
    · obtain ⟨hlt, hsame⟩ := h.request k r hr
      exact ⟨Nat.lt_succ_of_lt hlt, hsame⟩

theorem finishedTables (sha256 : Bytes → String) (n : ℕ) :
    FinishedTables sha256 n ((finishedProcesses n).foldl (LoadedSession.push sha256) {}) := by
  induction n with
  | zero =>
    refine ⟨rfl, rfl, fun k r hr => ?_, fun k r hr => ?_, rfl, rfl, rfl, rfl, rfl, rfl, rfl⟩
    · simp [finishedProcesses] at hr
    · simp [finishedProcesses] at hr
  | succ n ih =>
    rw [finishedProcesses_succ, List.foldl_append]
    exact ih.step

theorem longCommand_utf8ByteSize : longCommand.utf8ByteSize = commandMaxBytes := by
  have hlen : ∀ n, (String.ofList (List.replicate n 'a')).utf8ByteSize = n := by
    intro n
    induction n with
    | zero => rfl
    | succ n ih =>
      rw [List.replicate_succ, String.ofList_cons, String.utf8ByteSize_append,
        String.utf8ByteSize_singleton, ih]
      exact Nat.add_comm 1 n
  exact hlen _

theorem longCommand_length : (Codec.text.encode longCommand).length = commandMaxBytes + 3 := by
  have hthree : (Codec.nat.encode commandMaxBytes).length = 3 := by decide
  rw [longCommand, Codec.text_encode_length, hthree, Nat.add_comm]

theorem hexDigest_length (bytes : Bytes) : (Codec.text.encode (hexDigest bytes)).length ≤ 6593 := by
  have hdigit : ∀ k < 16, (Nat.digitChar k).toNat ≤ 102 := by decide
  have hchars : ∀ n ∈ ((List.range 64).map fun k =>
      (Codec.nat.encode (Nat.digitChar (ofBe (1 :: bytes) / 16 ^ (63 - k) % 16)).toNat).length),
      n ≤ 103 := by
    intro n hn
    obtain ⟨k, -, rfl⟩ := List.mem_map.mp hn
    have := hdigit _ (Nat.mod_lt (ofBe (1 :: bytes) / 16 ^ (63 - k)) (by decide : 16 > 0))
    exact (Codec.nat_encode_length _).2.trans (Nat.succ_le_succ this)
  have hsum := List.sum_le_card_nsmul _ _ hchars
  have hcount : (Codec.nat.encode 64).length = 1 := by decide
  simp only [hexDigest, Codec.text, Codec.via, Codec.list, String.toList_ofList, List.map_map,
    List.length_append, List.length_flatMap, List.length_map, List.length_range, hcount]
  simp only [List.length_map, List.length_range, smul_eq_mul] at hsum
  exact Nat.add_le_add_left hsum 1

theorem finishedRecord_entry {k : ℕ} (hk : k < 1024) :
    commandMaxBytes ≤ (processRecordCodec.encode
      ⟨longCommand, false, some 0, some 0, none, none, 0, 0⟩).length ∧
    (Codec.nat.encode k).length + (processRecordCodec.encode
      ⟨longCommand, false, some 0, some 0, none, none, 0, 0⟩).length ≤ 2 ^ 17 := by
  have hlength : (processRecordCodec.encode
      ⟨longCommand, false, some 0, some 0, none, none, 0, 0⟩).length = commandMaxBytes + 12 := by
    show (Codec.text.encode longCommand ++ _).length = _
    rw [List.length_append, longCommand_length]
    rfl
  have hkey := (Codec.nat_encode_length k).2
  rw [hlength, commandMaxBytes]
  omega

theorem finishedRequest_entry {k : ℕ} (hk : k < 1024) (bytes : Bytes) :
    commandMaxBytes ≤ (processRequestCodec.encode
      ⟨longCommand, some (hexDigest bytes), k, 2 * k + 1⟩).length ∧
    (Codec.nat.encode k).length + (processRequestCodec.encode
      ⟨longCommand, some (hexDigest bytes), k, 2 * k + 1⟩).length ≤ 2 ^ 17 := by
  have hlength : (processRequestCodec.encode
      ⟨longCommand, some (hexDigest bytes), k, 2 * k + 1⟩).length = commandMaxBytes + 4 +
        (Codec.text.encode (hexDigest bytes)).length + (Codec.nat.encode k).length +
        (Codec.nat.encode (2 * k + 1)).length := by
    show (Codec.text.encode longCommand ++ ((1 :: Codec.text.encode (hexDigest bytes)) ++
      (Codec.nat.encode k ++ Codec.nat.encode (2 * k + 1)))).length = _
    simp only [List.length_append, List.length_cons, longCommand_length]
    omega
  have hdigest := hexDigest_length bytes
  have hkey := (Codec.nat_encode_length k).2
  have hstarted := (Codec.nat_encode_length (2 * k + 1)).2
  rw [hlength, commandMaxBytes]
  omega

theorem FinishedTables.snapshot_length {t : LoadedSession}
    (h : FinishedTables postcard.sha256 1024 t) (hnext : t.nextId = 2048) :
    maxFrameBytes < (postcard.snapshot.encode
      (t.snapshotData postcard.sha256 0 fun _ => false)).length ∧
    (postcard.snapshot.encode (t.snapshotData postcard.sha256 0 fun _ => false)).length < 2 ^ 32 := by
  have hprocesses : (t.snapshotData postcard.sha256 0 fun _ => false).processes = t.processes :=
    ExtTreeMap.filter_eq_self_iff.mpr fun _ _ => rfl
  have hrequests : ∀ (k : Uuid) (r : ProcessRequest),
      (t.snapshotData postcard.sha256 0 fun _ => false).processRequests[k]? = some r →
      k < 1024 ∧ r = ⟨longCommand, some (hexDigest (asBytes longCommand)), k, 2 * k + 1⟩ := by
    intro k r hr
    rw [LoadedSession.snapshotData, ExtTreeMap.getElem?_map] at hr
    obtain ⟨old, hold, rfl⟩ := Option.map_eq_some_iff.mp hr
    obtain ⟨hk, rfl⟩ := h.request k old hold
    exact ⟨hk, rfl⟩
  have hsize : (t.snapshotData postcard.sha256 0 fun _ => false).processRequests.size = 1024 := by
    rw [LoadedSession.snapshotData, ExtTreeMap.size_map, h.requests]
  have hrecord : ∀ (k : Uuid) (r : ProcessRecord), t.processes[k]? = some r →
      commandMaxBytes ≤ (processRecordCodec.encode r).length ∧
      (Codec.nat.encode k).length + (processRecordCodec.encode r).length ≤ 2 ^ 17 := by
    intro k r hr
    obtain ⟨hk, rfl⟩ := h.process k r hr
    exact finishedRecord_entry hk
  have hrequest : ∀ (k : Uuid) (r : ProcessRequest),
      (t.snapshotData postcard.sha256 0 fun _ => false).processRequests[k]? = some r →
      commandMaxBytes ≤ (processRequestCodec.encode r).length ∧
      (Codec.nat.encode k).length + (processRequestCodec.encode r).length ≤ 2 ^ 17 := by
    intro k r hr
    obtain ⟨hk, rfl⟩ := hrequests k r hr
    exact finishedRequest_entry hk _
  have hlow := Codec.le_map_encode_length Codec.nat processRecordCodec fun k r hr => (hrecord k r hr).1
  have hhigh := Codec.map_encode_length_le Codec.nat processRecordCodec fun k r hr => (hrecord k r hr).2
  have hlow' := Codec.le_map_encode_length Codec.nat processRequestCodec
    fun k r hr => (hrequest k r hr).1
  have hhigh' := Codec.map_encode_length_le Codec.nat processRequestCodec
    fun k r hr => (hrequest k r hr).2
  rw [h.size] at hlow hhigh
  obtain ⟨hversions, hfiles, hsignals, hartifactRequests, hartifacts, hpty, hgeneration⟩ := h.rest
  have hvalue : (postcard.snapshot.encode (t.snapshotData postcard.sha256 0 fun _ => false)).length =
      1 + (2 + (1 + (((Codec.map Codec.nat processRecordCodec).encode t.processes).length +
        (((Codec.map Codec.nat processRequestCodec).encode
          (t.snapshotData postcard.sha256 0 fun _ => false).processRequests).length + 7)))) := by
    have hthrough : (Codec.nat.encode 2048).length = 2 := by decide
    simp only [postcard, Message.ofCodec, snapshotCodec, Codec.via, Codec.pair, List.length_append]
    rw [← hthrough, ← hnext]
    simp only [LoadedSession.snapshotData, hversions, hfiles, hsignals, hartifactRequests, hartifacts,
      hpty, hgeneration] at hprocesses ⊢
    rw [hprocesses]
    rfl
  rw [hvalue, maxFrameBytes]
  rw [commandMaxBytes] at hlow hlow'
  omega

theorem finishedProcess_length {i : ℕ} (hi : i < 1024) {e : Event} (he : e ∈ finishedProcess i) :
    (postcard.event.encode e).length ≤ 2 ^ 17 := by
  have hkey := (Codec.nat_encode_length i).2
  rw [finishedProcess, List.mem_cons, List.mem_singleton] at he
  rcases he with rfl | rfl
  · have hid := (Codec.nat_encode_length (2 * i + 1)).2
    show (Codec.nat.encode (2 * i + 1) ++ (Codec.nat.encode 0 ++ (1 :: 0 :: (Codec.nat.encode i ++
      (Codec.text.encode longCommand ++ ([0] ++ (1 :: Codec.nat.encode i))))))).length ≤ _
    have hzero : (Codec.nat.encode 0).length = 1 := rfl
    simp only [List.length_append, List.length_cons, List.length_nil, longCommand_length, hzero,
      commandMaxBytes]
    omega
  · have hid := (Codec.nat_encode_length (2 * i + 2)).2
    show (Codec.nat.encode (2 * i + 2) ++ (Codec.nat.encode 0 ++ (1 :: 1 :: 1 :: 0 ::
      (Codec.nat.encode i ++ [1, 0])))).length ≤ _
    have hzero : (Codec.nat.encode 0).length = 1 := rfl
    simp only [List.length_append, List.length_cons, List.length_nil, hzero]
    omega

theorem finishedProcesses_fit {e : Event} (he : e ∈ finishedProcesses 1024) :
    (postcard.event.encode e).length ≤ 2 ^ 17 := by
  obtain ⟨i, hi, he⟩ := List.mem_flatMap.mp he
  exact finishedProcess_length (List.mem_range.mp hi) he

theorem finishedProcesses_log_length :
    (logBytes postcard false (finishedProcesses 1024)).length ≤ eventLogMaxBytes := by
  have hcount : (finishedProcesses 1024).length = 2048 := by
    simpa using congrArg List.length (finishedProcesses_ids 1024)
  have hsum := List.sum_le_card_nsmul
    ((finishedProcesses 1024).map fun e => (record postcard false e).length) (2 ^ 17 + 4) fun n hn => by
      obtain ⟨e, he, rfl⟩ := List.mem_map.mp hn
      have := finishedProcesses_fit he
      rw [record_length]
      simp only [Bool.false_eq_true, if_false]
      omega
  rw [List.length_map, hcount, smul_eq_mul] at hsum
  have hrecords : (records postcard false (finishedProcesses 1024)).length =
      ((finishedProcesses 1024).map fun e => (record postcard false e).length).sum := by
    simp only [records, List.length_flatten, List.map_map]
    rfl
  have hheader : headerLen = 9 := rfl
  rw [logBytes_length, hrecords, hheader, eventLogMaxBytes]
  omega

def longLog : Wal := ⟨none, finishedProcesses 1024, (finishedProcesses 1024).length⟩

def longSnapshot : SessionSnapshotData :=
  (longLog.replay postcard.sha256).snapshotData postcard.sha256 0 fun _ => false

theorem longLog_requests :
    (longLog.replay postcard.sha256).processRequests.size ≤ maxIdempotencyRecordsPerSession ∧
    ∀ (id : Uuid) (request : ProcessRequest),
      (longLog.replay postcard.sha256).processRequests[id]? = some request →
        request.command.utf8ByteSize ≤ commandMaxBytes := by
  have htables := finishedTables postcard.sha256 1024
  unfold longLog
  generalize finishedProcesses 1024 = events at htables ⊢
  refine ⟨htables.requests.le.trans (by decide), fun id request hrequest => ?_⟩
  rw [(htables.request id request hrequest).2]
  exact longCommand_utf8ByteSize.le

theorem longCommands_compact {allowed : Wal → LogCall → Prop}
    (hallowed : ∀ a s, allowed a (.compact s))
    (hframed : ∀ a call, allowed a call → call.Framed postcard) : ∃ w w',
    LogRun postcard 0 allowed w longLog ∧
    (openSession postcard 0 w.view).2.isOk = true ∧
    compact postcard w longSnapshot = (w', true) ∧
    LogRun postcard 0 allowed w' (Wal.compacted longSnapshot) ∧
    (openSession postcard 0 w'.view).2 = .error (.snapshot .tooLarge) := by
  have hids := finishedProcesses_ids 1024
  have hfit : ∀ e ∈ finishedProcesses 1024, (postcard.event.encode e).length ≤ maxFrameBytes :=
    fun e he => (finishedProcesses_fit he).trans (by decide)
  have hsize := finishedProcesses_log_length
  have htables := finishedTables postcard.sha256 1024
  unfold longSnapshot longLog
  generalize finishedProcesses 1024 = events at hids hfit hsize htables ⊢
  have hcount : events.length = 2048 := by simpa using congrArg List.length hids
  have hfirst : FirstOpen postcard ⟨fun _ => logBytes postcard false events, 1, some 0, [], [], none,
      none⟩ ⟨none, events, events.length⟩ :=
    .legacy _ 0 1 events Nat.one_pos (hcount ▸ hids) hfit rfl hsize
  have hnext : (Wal.replay postcard.sha256 ⟨none, events, events.length⟩).nextId = 2048 := by
    obtain ⟨⟨recs, hrecovers⟩, -, -⟩ := hfirst.recovers 0
    rw [hrecovers.replay_nextId fun s hs => by cases hs]
    show 0 + events.length = 2048
    rw [hcount]
  obtain ⟨hlarge, hshort⟩ := htables.snapshot_length hnext
  obtain ⟨w, hrun, hopens⟩ := @FirstOpen.opens _ 0 _ allowed _ hfirst
  obtain ⟨w', hok⟩ := compact_ok w hshort
  have hproper : (LogCall.compact ((Wal.replay postcard.sha256
      ⟨none, events, events.length⟩).snapshotData postcard.sha256 0 fun _ => false)).Proper 0
      ⟨none, events, events.length⟩ := by
    refine ⟨hnext.trans ?_, rfl⟩
    show 2048 = 0 + events.length
    rw [hcount]
  have hcompacted := LogRun.compact hrun hproper (hallowed _ _) hok
  obtain ⟨⟨⟨recs, hrunning⟩, -⟩, -⟩ := hcompacted.live hframed
  refine ⟨w, w', hrun, hopens, hok, hcompacted, ?_⟩
  rw [openSession_oversized hrunning.recovers.snapshot hlarge]

/-- The session opens; its compaction returns `Ok`, and then it does not open any more. -/
theorem compacted_long_commands_are_refused : ∃ (w w' : World) (a : Wal),
    LogRun postcard 0 (fun _ call => call.Framed postcard) w a ∧
    (a.replay postcard.sha256).processRequests.size ≤ maxIdempotencyRecordsPerSession ∧
    (∀ (id : Uuid) (request : ProcessRequest),
      (a.replay postcard.sha256).processRequests[id]? = some request →
        request.command.utf8ByteSize ≤ commandMaxBytes) ∧
    (openSession postcard 0 w.view).2.isOk = true ∧
    compact postcard w ((a.replay postcard.sha256).snapshotData postcard.sha256 0 fun _ => false) =
      (w', true) ∧
    (openSession postcard 0 w'.view).2 = .error (.snapshot .tooLarge) := by
  obtain ⟨w, w', hrun, hopens, hok, -, herr⟩ :=
    @longCommands_compact (fun _ call => call.Framed postcard) (fun _ _ => trivial) fun _ _ h => h
  obtain ⟨hcount, hcommands⟩ := longLog_requests
  exact ⟨w, w', longLog, hrun, hcount, hcommands, hopens, hok, herr⟩

/-- Every event of the run fits a record. Its last call is the compaction, which returned
`Ok`, and without any crash the next open refuses the snapshot. -/
theorem oversized_snapshot_is_refused : ∃ w,
    LogRun postcard 0 (fun _ call => call.Framed postcard ∧ call.isAck = false) w
      (Wal.compacted longSnapshot) ∧
    w.disk.Stops .kill w.disk ∧ (openSession postcard 0 w.view).2 = .error (.snapshot .tooLarge) := by
  obtain ⟨-, w, -, -, -, hrun, herr⟩ :=
    @longCommands_compact (fun _ call => call.Framed postcard ∧ call.isAck = false)
      (fun _ _ => ⟨trivial, rfl⟩) fun _ _ h => h.1
  exact ⟨w, hrun, rfl, herr⟩

end Long

end Asp
