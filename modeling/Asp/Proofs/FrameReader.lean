import Asp.Proofs.Frame
import Asp.Spec.FrameReader

/-! Frames over a `select!`. Reading the bytes of one frame from the start yields its
message, so the loop decodes what was sent as long as no read is dropped inside a frame. -/

namespace Asp

open Framing StagedRead

section Frames

variable {α : Type} {z : Zlib} {message : Message α} {endpoint : Endpoint} {version : ℕ}

variable {bytes : Bytes}

theorem encodeFramePayload_le {payload framed : Bytes}
    (h : encodeFramePayload z payload = .ok framed) : payload.length ≤ maxFrameBytes := by
  by_contra hlarge
  rw [encodeFramePayload, if_pos (not_le.mp hlarge)] at h
  cases h

theorem maxPayloadBytes_le (version : ℕ) : maxPayloadBytes version ≤ maxWireFrameBytes := by
  unfold maxPayloadBytes maxWireFrameBytes
  split_ifs <;> omega

theorem writeFrame_spec {value : α} (h : writeFrame z message version value = .ok bytes) :
    ∃ payload, bytes = be32 payload.length ++ payload ∧ payload.length ≤ maxPayloadBytes version ∧
      decodeFramePayloadForVersion z payload version = .ok (message.encode value) ∧
      (version = legacyProtocolVersion ∨ version = protocolVersion) := by
  unfold writeFrame at h
  split at h
  · cases h
  · rename_i payload hencode
    split_ifs at h
    refine ⟨payload, (Except.ok.inj h).symm, ?_⟩
    unfold encodeFramePayloadForVersion at hencode
    split_ifs at hencode with hlegacy hlarge hcurrent
    · cases hencode
      rw [maxPayloadBytes, if_pos hlegacy, decodeFramePayloadForVersion, if_pos hlegacy,
        if_neg hlarge]
      exact ⟨not_lt.mp hlarge, rfl, .inl hlegacy⟩
    · have hle := encodeFramePayload_le hencode
      obtain ⟨framed, hframed, hdecode, hlength⟩ := encodeFramePayload_spec z hle
      obtain rfl := Except.ok.inj (hframed.symm.trans hencode)
      rw [maxPayloadBytes, if_neg hlegacy, decodeFramePayloadForVersion, if_neg hlegacy,
        if_pos hcurrent]
      refine ⟨?_, hdecode, .inr hcurrent⟩
      unfold maxWireFrameBytes
      omega

theorem decodeFramePayload_header {decoded : Bytes}
    (h : decodeFramePayload z bytes = .ok decoded) : frameHeaderBytes ≤ bytes.length := by
  by_contra hshort
  rw [decodeFramePayload, if_pos (not_le.mp hshort)] at h
  cases h

variable {payload : Bytes} {value : α}

section Stages

variable (hdecode : decodeFramePayloadForVersion z payload version = .ok (message.encode value))

include hdecode

theorem decodeRead_done : decodeRead z message version payload = .done value := by
  unfold decodeRead
  rw [hdecode]
  dsimp only
  rw [message.decode_encode]

theorem yields_payloadRead {stage : ReadStage}
    (hneed : bytes.length = (frameReader z message endpoint version).need stage)
    (hnext : (frameReader z message endpoint version).next stage bytes =
      payloadRead z message endpoint version payload) :
    (frameReader z message endpoint version).Yields stage bytes value := by
  unfold payloadRead at hnext
  split_ifs at hnext
  · have hlast : (frameReader z message endpoint version).Yields (.decoding payload) [] value :=
      .done rfl (decodeRead_done hdecode)
    simpa using Reader.Yields.stage hneed hnext hlast
  · exact .done hneed (hnext.trans (decodeRead_done hdecode))

theorem yields_bodyRead {stage : ReadStage} {front rest : Bytes}
    (hpayload : payload = front ++ rest)
    (hneed : bytes.length = (frameReader z message endpoint version).need stage)
    (hnext : (frameReader z message endpoint version).next stage bytes =
      bodyRead z message endpoint version payload.length front) :
    (frameReader z message endpoint version).Yields stage (bytes ++ rest) value := by
  subst hpayload
  unfold bodyRead at hnext
  split_ifs at hnext with hwhole
  · obtain rfl : rest = [] := by
      rw [List.length_append] at hwhole
      exact List.eq_nil_of_length_eq_zero (by omega)
    rw [List.append_nil] at hdecode ⊢
    exact yields_payloadRead hdecode hneed hnext
  · refine .stage hneed hnext (yields_payloadRead hdecode ?_ rfl)
    simp [frameReader]

end Stages

theorem yields_frame (h : writeFrame z message version value = .ok bytes) :
    (frameReader z message endpoint version).Yields .header bytes value := by
  obtain ⟨payload, rfl, hle, hdecode, hversion⟩ := writeFrame_spec h
  have hwire := hle.trans (maxPayloadBytes_le version)
  have hlength : ofBe (be32 payload.length) = payload.length := by
    refine ofBe_be32 ?_
    unfold maxWireFrameBytes maxFrameBytes frameHeaderBytes at hwire
    omega
  have hheader : (be32 payload.length).length =
      (frameReader z message endpoint version).need .header := rfl
  have hnext : (frameReader z message endpoint version).next .header (be32 payload.length) =
      headerRead z message endpoint version (be32 payload.length) := rfl
  unfold headerRead at hnext
  rw [hlength] at hnext
  cases endpoint with
  | client =>
    dsimp only at hnext
    rw [if_neg (not_lt.mpr hle)] at hnext
    exact yields_bodyRead hdecode (List.nil_append payload).symm hheader hnext
  | server =>
    dsimp only at hnext
    rw [if_neg (not_lt.mpr hwire)] at hnext
    have hmemory : ∀ front rest, payload = front ++ rest →
        (frameReader z message .server version).Yields (.memory payload.length front) ([] ++ rest)
          value := fun front rest hpayload => yields_bodyRead hdecode hpayload rfl rfl
    rcases hversion with hlegacy | hcurrent
    · rw [maxPayloadBytes, if_pos hlegacy] at hle
      rw [if_pos hlegacy, if_neg (not_lt.mpr hle)] at hnext
      exact .stage hheader hnext (hmemory [] payload (List.nil_append payload).symm)
    · have hlegacy : version ≠ legacyProtocolVersion := by
        rw [hcurrent]
        decide
      rw [decodeFramePayloadForVersion, if_neg hlegacy, if_pos hcurrent] at hdecode
      have hshort := decodeFramePayload_header hdecode
      rw [if_neg hlegacy, if_neg (not_lt.mpr hshort)] at hnext
      refine .stage hheader hnext ?_
      have henvelope : (frameReader z message .server version).next (.envelope payload.length)
          (payload.take frameHeaderBytes) =
            .stage (.memory payload.length (payload.take frameHeaderBytes)) := by
        simp only [frameReader, (decodeFramePayload_length z hdecode).1]
      have hsplit := (List.take_append_drop frameHeaderBytes payload).symm
      rw [hsplit]
      refine .stage (List.length_take_of_le hshort) ?_ (hmemory _ _ hsplit)
      rwa [← hsplit]

theorem writeFrames_spec (endpoint : Endpoint) {values : List α} {stream : Bytes}
    (h : writeFrames z message version values = .ok stream) :
    ∃ items : List (α × Bytes), items.map Prod.fst = values ∧
      (items.map Prod.snd).flatten = stream ∧
      ∀ item ∈ items, (frameReader z message endpoint version).Yields .header item.2 item.1 := by
  induction values generalizing stream with
  | nil => exact ⟨[], rfl, Except.ok.inj h, fun item hitem => absurd hitem List.not_mem_nil⟩
  | cons value values ih =>
    unfold writeFrames at h
    split at h
    · rename_i frame rest hframe hrest
      obtain ⟨items, hvalues, hstream, hitems⟩ := ih hrest
      refine ⟨(value, frame) :: items, ?_, ?_, fun item hitem => ?_⟩
      · rw [List.map_cons, hvalues]
      · rw [List.map_cons, List.flatten_cons, hstream]
        exact Except.ok.inj h
      · rcases List.mem_cons.mp hitem with rfl | hold
        · exact yields_frame hframe
        · exact hitems item hold
    · cases h
    · cases h

end Frames

/-- Whatever the reads return and whatever the other branches do between two frames, the
loop has decoded the first of the frames that were sent, without an error, and can go on
to decode them all. -/
theorem frames_survive_select {α : Type} {z : Zlib} {message : Message α} {endpoint : Endpoint}
    {version : ℕ} {sent : List α} {stream : Bytes}
    (hsent : writeFrames z message version sent = .ok stream)
    {st : Loop ReadStage FrameReadError α}
    (hreach : (frameReader z message endpoint version).machine.Reaches
      (frameReader z message endpoint version).KeepsItem
      ((frameReader z message endpoint version).begin stream) st) :
    st.failed = none ∧ st.out <+: sent ∧ (st.stream = [] → st.stage = .header → st.out = sent) ∧
      ∃ is, StagedRead.Action.drop ∉ is ∧
        (frameReader z message endpoint version).machine.runWith (fun _ _ => true) is st =
          some ⟨[], .header, [], sent, none⟩ := by
  have hstart : 0 < (frameReader z message endpoint version).need
      (frameReader z message endpoint version).start := Nat.succ_pos 3
  obtain ⟨items, rfl, rfl, hitems⟩ := writeFrames_spec endpoint hsent
  have haligned := Reader.reaches_aligned hstart hitems hreach
  obtain ⟨hfailed, hread, hall⟩ := haligned.out_spec hstart
  exact ⟨hfailed, hread, hall, haligned.completes⟩

section Runs

def plainMessage : Message Bytes := ⟨id, some, fun _ => rfl⟩

def serverReader : Reader ReadStage FrameReadError Bytes :=
  frameReader runZlib plainMessage .server protocolVersion

def legacyClientReader : Reader ReadStage FrameReadError Bytes :=
  frameReader runZlib plainMessage .client legacyProtocolVersion

def keepsItem (st : Loop ReadStage FrameReadError Bytes) (action : StagedRead.Action) : Bool :=
  action ≠ .drop || (st.stage = .header && st.got = [])

theorem keepsItem_guard (st : Loop ReadStage FrameReadError Bytes) (action : StagedRead.Action)
    (h : keepsItem st action = true) : serverReader.KeepsItem st action := by
  rintro rfl
  have hfresh : st.stage = .header ∧ st.got = [] := by simpa [keepsItem] using h
  exact hfresh

/-- The bytes of a frame arrive one by one, and ticks come before and after it. -/
theorem frame_survives_ticks : ∃ stream st,
    writeFrames runZlib plainMessage protocolVersion [[9, 9]] = .ok stream ∧
    serverReader.machine.Reaches serverReader.KeepsItem (serverReader.begin stream) st ∧
    st.failed = none ∧ st.out = [[9, 9]] := by
  have hsent : writeFrames runZlib plainMessage protocolVersion [[9, 9]] =
      .ok [0, 0, 0, 9, 65, 70, 0, 0, 0, 0, 2, 9, 9] := by decide
  have hrun : ((serverReader.machine.runWith keepsItem
      (.drop :: List.replicate 4 (.read 1) ++ List.replicate 7 (.read 1) ++
        [.wake, .read 1, .read 1, .drop])
      (serverReader.begin [0, 0, 0, 9, 65, 70, 0, 0, 0, 0, 2, 9, 9])).any
      fun st => st.stream = [] ∧ st.stage = .header) = true := by
    decide
  obtain ⟨st, hreach, hread⟩ := serverReader.machine.exists_reaches keepsItem_guard hrun
  obtain ⟨hstream, hstage⟩ := of_decide_eq_true hread
  obtain ⟨hfailed, -, hall, -⟩ := frames_survive_select hsent hreach
  exact ⟨_, st, hsent, hreach, hfailed, hall hstream hstage⟩

/-- A tick after the length of a frame: on the server the marker is then read as a length,
which is refused; on a client of the older version a message comes out that nobody sent. -/
theorem frame_is_lost_to_a_tick :
    (∃ stream st,
      writeFrames runZlib plainMessage protocolVersion [[9, 9]] = .ok stream ∧
      serverReader.machine.Reaches (fun _ _ => True) (serverReader.begin stream) st ∧
      st.failed = some (.wireTooLarge maxWireFrameBytes)) ∧
    ∃ stream st,
      writeFrames runZlib plainMessage legacyProtocolVersion [[0, 0, 0, 0]] = .ok stream ∧
      legacyClientReader.machine.Reaches (fun _ _ => True) (legacyClientReader.begin stream) st ∧
      st.out = [[]] := by
  have hserver : writeFrames runZlib plainMessage protocolVersion [[9, 9]] =
      .ok [0, 0, 0, 9, 65, 70, 0, 0, 0, 0, 2, 9, 9] := by decide
  have hclient : writeFrames runZlib plainMessage legacyProtocolVersion [[0, 0, 0, 0]] =
      .ok [0, 0, 0, 4, 0, 0, 0, 0] := by decide
  have hfails : ((serverReader.machine.runWith (fun _ _ => true) [.read 4, .drop, .read 4]
      (serverReader.begin [0, 0, 0, 9, 65, 70, 0, 0, 0, 0, 2, 9, 9])).any
      fun st => st.failed = some (.wireTooLarge maxWireFrameBytes)) = true := by
    decide
  have hinvents : ((legacyClientReader.machine.runWith (fun _ _ => true) [.read 4, .drop, .read 4]
      (legacyClientReader.begin [0, 0, 0, 4, 0, 0, 0, 0])).any fun st => st.out = [[]]) = true := by
    decide
  obtain ⟨st, hreach, hfailed⟩ :=
    serverReader.machine.exists_reaches (fun _ _ _ => trivial) hfails
  obtain ⟨st', hreach', hout⟩ :=
    legacyClientReader.machine.exists_reaches (fun _ _ _ => trivial) hinvents
  exact ⟨⟨_, st, hserver, hreach, of_decide_eq_true hfailed⟩,
    ⟨_, st', hclient, hreach', of_decide_eq_true hout⟩⟩

end Runs

end Asp
