import Asp.Spec.Frame

/-! The frame codec. An envelope decodes to its body, so every choice of the encoder
is undone; and the decoder hands out exactly as many bytes as the header announced. -/

namespace Asp

open Framing

section Envelope

variable (encoding : UInt8) (originalLen : ℕ) (body : Bytes)

theorem envelope_length :
    (envelope encoding originalLen body).length = body.length + frameHeaderBytes := by
  simp only [envelope, frameMagic, frameHeaderBytes, List.length_append, be32_length,
    List.length_cons, List.length_nil]
  omega

theorem envelope_take_magic :
    (envelope encoding originalLen body).take frameMagic.length = frameMagic := rfl

theorem envelope_encoding :
    (envelope encoding originalLen body).getD frameMagic.length 0 = encoding := rfl

theorem envelope_originalLen (h : originalLen ≤ maxFrameBytes) :
    ofBe (((envelope encoding originalLen body).drop (frameMagic.length + 1)).take 4) =
      originalLen := by
  have hlt : originalLen < 2 ^ 32 := by
    unfold maxFrameBytes at h
    omega
  exact ofBe_be32 hlt

theorem envelope_body : (envelope encoding originalLen body).drop frameHeaderBytes = body := rfl

end Envelope

variable (z : Zlib)

variable {payload : Bytes}

theorem Zlib.readLimited_compress (payload : Bytes) :
    z.readLimited (z.compress payload) (payload.length + 1) = some payload := by
  simp [Zlib.readLimited, z.decoder_compress]

section

variable (h : payload.length ≤ maxFrameBytes)

include h

theorem decodeFramePayload_plain :
    decodeFramePayload z (envelope frameEncodingPlain payload.length payload) = .ok payload := by
  unfold decodeFramePayload
  rw [if_neg (by rw [envelope_length]; omega), envelope_take_magic, if_neg (not_not.mpr rfl)]
  rw [envelope_originalLen _ _ _ h, if_neg (not_lt.mpr h), envelope_encoding, if_pos rfl,
    envelope_body, if_neg (not_not.mpr rfl)]

theorem decodeFramePayload_zlib :
    decodeFramePayload z (envelope frameEncodingZlib payload.length (z.compress payload)) =
      .ok payload := by
  unfold decodeFramePayload
  rw [if_neg (by rw [envelope_length]; omega), envelope_take_magic, if_neg (not_not.mpr rfl)]
  rw [envelope_originalLen _ _ _ h, if_neg (not_lt.mpr h), envelope_encoding,
    if_neg (by decide), if_pos rfl, envelope_body, if_neg (z.compress_ne_nil payload),
    z.readLimited_compress]
  dsimp only
  rw [if_neg (not_not.mpr rfl)]

theorem encodeFramePayload_spec :
    ∃ framed, encodeFramePayload z payload = .ok framed ∧
      decodeFramePayload z framed = .ok payload ∧
      framed.length ≤ payload.length + frameHeaderBytes := by
  have hlt : payload.length < 2 ^ 32 := by
    unfold maxFrameBytes at h
    omega
  have hplain : (envelope frameEncodingPlain payload.length payload).length ≤
      payload.length + frameHeaderBytes := (envelope_length ..).le
  unfold encodeFramePayload
  rw [if_neg (not_lt.mpr h), if_neg (not_le.mpr hlt)]
  dsimp only
  split_ifs with hattempt hwin
  · refine ⟨_, rfl, decodeFramePayload_zlib z h, ?_⟩
    rw [envelope_length]
    omega
  · exact ⟨_, rfl, decodeFramePayload_plain z h, hplain⟩
  · exact ⟨_, rfl, decodeFramePayload_plain z h, hplain⟩

theorem encodeFramePayloadForVersion_spec {version : ℕ}
    (hversion : version ∈ supportedProtocolVersions) :
    ∃ framed, encodeFramePayloadForVersion z payload version = .ok framed ∧
      decodeFramePayloadForVersion z framed version = .ok payload ∧
      framed.length ≤ payload.length + frameHeaderBytes := by
  rcases List.mem_pair.mp hversion with rfl | rfl
  · refine ⟨payload, ?_, ?_, Nat.le_add_right ..⟩
    · rw [encodeFramePayloadForVersion, if_pos rfl, if_neg (not_lt.mpr h)]
    · rw [decodeFramePayloadForVersion, if_pos rfl, if_neg (not_lt.mpr h)]
  · exact encodeFramePayload_spec z h

end

theorem decodeFramePayload_length {bytes decoded : Bytes}
    (h : decodeFramePayload z bytes = .ok decoded) :
    frameDecodedLen (bytes.take frameHeaderBytes) = .ok decoded.length ∧
      decoded.length ≤ maxFrameBytes := by
  unfold decodeFramePayload at h
  split_ifs at h with hshort hmarker
  dsimp only at h
  have hheader : (bytes.take frameHeaderBytes).length = frameHeaderBytes :=
    List.length_take_of_le (not_lt.mp hshort)
  have hmagic : (bytes.take frameHeaderBytes).take frameMagic.length = frameMagic := by
    rw [List.take_take]
    exact not_not.mp hmarker
  have hencoding : (bytes.take frameHeaderBytes).getD frameMagic.length 0 =
      bytes.getD frameMagic.length 0 := by
    simp [List.getD_eq_getElem?_getD, frameMagic, frameHeaderBytes]
  have hlength : ((bytes.take frameHeaderBytes).drop (frameMagic.length + 1)).take 4 =
      (bytes.drop (frameMagic.length + 1)).take 4 := by
    rw [List.drop_take, List.take_take]
    rfl
  unfold frameDecodedLen
  rw [hheader, if_neg (lt_irrefl _), if_neg (not_not.mpr hmagic)]
  rw [hencoding, hlength]
  split_ifs at h with hlarge hplain hbody hzlib hempty
  · rw [if_neg (not_not.mpr (.inl hplain)), if_neg hlarge, ← Except.ok.inj h]
    exact ⟨congrArg _ (not_not.mp hbody).symm, by omega⟩
  · split at h
    · cases h
    · split_ifs at h with hdecoded
      rw [if_neg (not_not.mpr (.inr hzlib)), if_neg hlarge, ← Except.ok.inj h]
      exact ⟨congrArg _ (not_not.mp hdecoded).symm, by omega⟩

/-- Whatever the encoder chose, the frame decodes to the message and fits the wire limit;
whatever the decoder accepts, it is as long as the header announced. -/
theorem frame_codec_is_exact :
    (∀ payload : Bytes, payload.length ≤ maxFrameBytes →
      ∀ version ∈ supportedProtocolVersions,
        ∃ framed, encodeFramePayloadForVersion z payload version = .ok framed ∧
          decodeFramePayloadForVersion z framed version = .ok payload ∧
          (version = protocolVersion →
            framed.length ≤ payload.length + 7 ∧ framed.length ≤ maxWireFrameBytes)) ∧
    ∀ bytes decoded : Bytes, decodeFramePayload z bytes = .ok decoded →
      frameDecodedLen (bytes.take 7) = .ok decoded.length ∧ decoded.length ≤ maxFrameBytes := by
  refine ⟨fun payload h version hversion => ?_, fun bytes decoded h => ?_⟩
  · obtain ⟨framed, hencode, hdecode, hlength⟩ := encodeFramePayloadForVersion_spec z h hversion
    refine ⟨framed, hencode, hdecode, fun _ => ⟨hlength, ?_⟩⟩
    unfold maxWireFrameBytes
    omega
  · exact decodeFramePayload_length z h

section Sample

/-- Runs of equal bytes: how many more there are, and the byte. -/
def runs : Bytes → Bytes
  | [] => []
  | byte :: rest =>
      match runs rest with
      | more :: next :: tail =>
          if next = byte ∧ more < 255 then (more + 1) :: byte :: tail
          else 0 :: byte :: more :: next :: tail
      | _ => [0, byte]

def unruns : Bytes → Bytes
  | more :: byte :: tail => List.replicate (more.toNat + 1) byte ++ unruns tail
  | _ => []

theorem unruns_runs (payload : Bytes) : unruns (runs payload) = payload := by
  induction payload with
  | nil => rfl
  | cons byte rest ih =>
    rw [runs]
    split
    next more next tail hruns =>
      rw [hruns, unruns] at ih
      split_ifs with hsame
      · obtain ⟨rfl, hmore⟩ := hsame
        have hnext : (more + 1).toNat = more.toNat + 1 := by
          have hlt : more.toNat < 255 := UInt8.lt_iff_toNat_lt.mp hmore
          rw [UInt8.toNat_add]
          exact Nat.mod_eq_of_lt (Nat.succ_lt_succ hlt)
        rw [unruns, hnext, List.replicate_succ, List.cons_append, ih]
      · rw [unruns, unruns, ih]
        rfl
    next hshort =>
      have hnil : unruns (runs rest) = [] := by
        rw [unruns]
        exact fun _ _ _ h => hshort _ _ _ h
      rw [← ih, hnil]
      rfl

/-- Run lengths after a byte of header, in place of zlib. -/
def runZlib : Zlib where
  compress payload := 120 :: runs payload
  decoder
    | 120 :: payload => (unruns payload, true)
    | _ => ([], false)
  decoder_compress payload := congrArg (·, true) (unruns_runs payload)
  compress_ne_nil _ := List.cons_ne_nil 120 _

theorem frame_codec_compresses :
    encodeFramePayloadForVersion runZlib (List.replicate 1024 7) 17 =
      .ok (envelope frameEncodingZlib 1024 [120, 255, 7, 255, 7, 255, 7, 255, 7]) ∧
    decodeFramePayloadForVersion runZlib
      (envelope frameEncodingZlib 1024 [120, 255, 7, 255, 7, 255, 7, 255, 7]) 17 =
      .ok (List.replicate 1024 7) := by
  have hcompressed : encodeFramePayloadForVersion runZlib (List.replicate 1024 7) 17 =
      .ok (envelope frameEncodingZlib 1024 [120, 255, 7, 255, 7, 255, 7, 255, 7]) := by
    decide +kernel
  obtain ⟨framed, hencode, hdecode, -⟩ :=
    (frame_codec_is_exact runZlib).1 (List.replicate 1024 7) (by decide +kernel) 17 (by decide)
  obtain rfl := Except.ok.inj (hencode.symm.trans hcompressed)
  exact ⟨hcompressed, hdecode⟩

end Sample

end Asp
