import Asp.Lib.Codec
import Asp.Proofs.Frame
import Asp.Spec.PtyWire

/-! The three forms of a PTY datagram. What an encoder writes begins with the prefix of its
form, or with the length of a UUID if the form has none, so no other decoder takes it. -/

namespace Asp

open Framing

theorem saturatingAdd_eq {a b : ℕ} (h : a + b ≤ usizeMax) : saturatingAdd a b = a + b :=
  min_eq_left h

theorem isPrefixOf_append (magic body : Bytes) : magic.isPrefixOf (magic ++ body) = true :=
  List.isPrefixOf_iff_prefix.mpr (List.prefix_append magic body)

section Message

variable {α : Type} {sessionId : α → Uuid} {Fits : α → Prop}
  (message : SessionMessage α sessionId Fits)

theorem SessionMessage.decodeBounded_encode {x : α} {count : α → ℕ} {limit : ℕ} (hfits : Fits x)
    (hcount : count x ≤ limit) : message.decodeBounded count limit (message.encode x) = .ok x := by
  rw [decodeBounded, message.decode_encode x hfits]
  exact if_neg (not_lt.mpr hcount)

theorem SessionMessage.not_isPrefixOf_encode {x : α} (hfits : Fits x) (byte : UInt8)
    (tail : Bytes) (h : byte ≠ 16) : (byte :: tail).isPrefixOf (message.encode x) = false := by
  obtain ⟨rest, hrest⟩ := message.encode_uuid x hfits
  rw [hrest, List.cons_append, List.isPrefixOf, beq_eq_false_iff_ne.mpr h, Bool.false_and]

end Message

namespace PtyMessages

variable (m : PtyMessages) (z : Zlib)

variable {d : PtyStateRichDatagram} {payload : Bytes} {update : PtyUpdate}

theorem sendState_eq_some {d : PtyStateDatagram} {maxSize : ℕ}
    (h : m.sendState maxSize d = some payload) :
    payload = m.state.encode d ∧ payload.length ≤ maxSize := by
  rw [sendState] at h
  split_ifs at h with hsize
  cases h
  exact ⟨rfl, hsize⟩

theorem encodeStateDelta_eq_some {d : PtyStateDeltaDatagram} {maxSize : ℕ}
    (h : m.encodeStateDelta d maxSize = some payload) :
    payload = ptyDeltaDatagramMagic ++ m.delta.encode d ∧ d.changes.length ≤ ptyDeltaMaxRows ∧
      (m.delta.encode d).length ≤ ptyDeltaDatagramMaxDecodedBytes ∧ payload.length ≤ maxSize := by
  rw [encodeStateDelta] at h
  dsimp only at h
  split_ifs at h with hrows hsize
  obtain ⟨hdecoded, htotal⟩ := not_or.mp hsize
  cases h
  have hmax : ptyDeltaDatagramMagic.length + (m.delta.encode d).length ≤ usizeMax := by
    have hlimit : 2 + ptyDeltaDatagramMaxDecodedBytes ≤ usizeMax := by decide
    have hmagic : ptyDeltaDatagramMagic.length = 2 := rfl
    omega
  rw [saturatingAdd_eq hmax] at htotal
  refine ⟨rfl, not_lt.mp hrows, not_lt.mp hdecoded, ?_⟩
  rw [List.length_append]
  exact not_lt.mp htotal

/-- The compressed form is an envelope of the state that is shorter than the plain form. -/
structure Compresses (encoded : Bytes) (maxSize : ℕ) (payload : Bytes) : Prop where
  envelope : ∃ framed, payload = ptyRichCompressedDatagramMagic ++ framed ∧
    frameHeaderBytes ≤ framed.length ∧ decodeFramePayload z framed = .ok encoded
  length_le : payload.length ≤ maxSize
  length_lt : payload.length < (ptyRichDatagramMagic ++ encoded).length

theorem compressedRich_spec {encoded : Bytes} (maxSize : ℕ) (allowCompression : Bool)
    (h : encoded.length ≤ ptyRichDatagramMaxDecodedBytes) :
    ∃ result, compressedRich z encoded maxSize allowCompression = .ok result ∧
      ∀ payload ∈ result, allowCompression = true ∧ Compresses z encoded maxSize payload := by
  have hsmall : 2 + ptyRichDatagramMaxDecodedBytes + frameHeaderBytes ≤ usizeMax := by decide
  have hframe : ptyRichDatagramMaxDecodedBytes ≤ maxFrameBytes := by decide
  obtain ⟨framed, hencode, hdecode, hlength⟩ := encodeFramePayload_spec z (h.trans hframe)
  rw [compressedRich]
  split_ifs with hallow
  · rw [hencode]
    refine ⟨_, rfl, fun payload hpayload => ⟨hallow.1, ?_⟩⟩
    dsimp only at hpayload
    split_ifs at hpayload with hworth
    · obtain ⟨⟨hheader, -⟩, hlt, hle⟩ := hworth
      obtain rfl := Option.some.inj (Option.mem_def.mp hpayload)
      have hplain : ptyRichDatagramMagic.length = 2 := rfl
      have hcompressed : ptyRichCompressedDatagramMagic.length = 2 := rfl
      rw [saturatingAdd_eq (by omega), saturatingAdd_eq (by omega)] at hlt
      rw [saturatingAdd_eq (by omega)] at hle
      refine ⟨⟨framed, rfl, hheader, hdecode⟩, ?_, ?_⟩
      · rwa [List.length_append]
      · rwa [List.length_append, List.length_append]
    · cases hpayload
  · exact ⟨none, rfl, fun payload hpayload => by cases hpayload⟩

theorem encodeRich_spec (d : PtyStateRichDatagram) (maxSize : ℕ) (allowCompression : Bool) :
    ∃ result, m.encodeRich z d maxSize allowCompression = .ok result ∧ ∀ payload ∈ result,
      (m.rich.encode d).length ≤ ptyRichDatagramMaxDecodedBytes ∧
      (allowCompression = true ∧ Compresses z (m.rich.encode d) maxSize payload ∨
        payload = ptyRichDatagramMagic ++ m.rich.encode d ∧ payload.length ≤ maxSize) := by
  rw [encodeRich]
  by_cases hlarge : (m.rich.encode d).length > ptyRichDatagramMaxDecodedBytes
  · rw [if_pos hlarge]
    exact ⟨none, rfl, fun payload hpayload => by cases hpayload⟩
  · have hle := not_lt.mp hlarge
    rw [if_neg hlarge]
    obtain ⟨result, hresult, hspec⟩ := compressedRich_spec z maxSize allowCompression hle
    rw [hresult]
    refine ⟨_, rfl, fun payload hpayload => ⟨hle, ?_⟩⟩
    cases result with
    | some compressed =>
      obtain rfl := Option.some.inj (Option.mem_def.mp hpayload)
      exact .inl (hspec _ rfl)
    | none =>
      split_ifs at hpayload with hsize
      · cases hpayload
      · obtain rfl := Option.some.inj (Option.mem_def.mp hpayload)
        have hmagic : ptyRichDatagramMagic.length = 2 := rfl
        have hsmall : 2 + ptyRichDatagramMaxDecodedBytes ≤ usizeMax := by decide
        rw [saturatingAdd_eq (by omega)] at hsize
        refine .inr ⟨rfl, ?_⟩
        rw [List.length_append]
        exact not_lt.mp hsize

theorem decodeState_encode {d : PtyStateDatagram} (hfits : d.Fits)
    (hrows : d.screen.length ≤ ptyDatagramMaxRows)
    (hsize : (m.state.encode d).length ≤ ptyDatagramMaxDecodedBytes) :
    m.decodeState (m.state.encode d) = .ok d := by
  rw [decodeState, if_neg (not_lt.mpr hsize)]
  exact m.state.decodeBounded_encode hfits hrows

theorem decodeStateDelta_encode {d : PtyStateDeltaDatagram} (hfits : d.Fits)
    (hrows : d.changes.length ≤ ptyDeltaMaxRows)
    (hsize : (m.delta.encode d).length ≤ ptyDeltaDatagramMaxDecodedBytes) :
    m.decodeStateDelta (ptyDeltaDatagramMagic ++ m.delta.encode d) = .ok (some d) := by
  rw [decodeStateDelta, if_neg (not_not.mpr (isPrefixOf_append ..))]
  rw [List.drop_left, if_neg (not_lt.mpr hsize), m.delta.decodeBounded_encode hfits hrows]
  rfl

theorem decodeRichBody_encode (hfits : d.Fits)
    (hscreen : d.screen.length ≤ ptyRichDatagramMaxDecodedBytes) :
    m.decodeRichBody (m.rich.encode d) = .ok (some d) := by
  rw [decodeRichBody, m.rich.decodeBounded_encode hfits hscreen]
  rfl

theorem decodeRich_plain (allowCompression : Bool) (hfits : d.Fits)
    (hscreen : d.screen.length ≤ ptyRichDatagramMaxDecodedBytes)
    (hsize : (m.rich.encode d).length ≤ ptyRichDatagramMaxDecodedBytes) :
    m.decodeRich z (ptyRichDatagramMagic ++ m.rich.encode d) allowCompression = .ok (some d) := by
  rw [decodeRich, if_pos (isPrefixOf_append ..), List.length_append, Nat.add_sub_cancel_left,
    if_neg (not_lt.mpr hsize), List.drop_left]
  exact m.decodeRichBody_encode hfits hscreen

theorem decodeRich_compressed {maxSize : ℕ} (hfits : d.Fits)
    (hscreen : d.screen.length ≤ ptyRichDatagramMaxDecodedBytes)
    (hsize : (m.rich.encode d).length ≤ ptyRichDatagramMaxDecodedBytes)
    (h : Compresses z (m.rich.encode d) maxSize payload) :
    m.decodeRich z payload true = .ok (some d) := by
  obtain ⟨framed, rfl, hheader, hdecode⟩ := h.envelope
  have hplain : ¬ ptyRichDatagramMagic.isPrefixOf (ptyRichCompressedDatagramMagic ++ framed) :=
    Bool.false_ne_true
  rw [decodeRich, if_neg hplain, if_pos (isPrefixOf_append ..), if_neg (by decide),
    List.drop_left, decodeCompressedRich, if_neg (not_lt.mpr hheader),
    (decodeFramePayload_length z hdecode).1]
  dsimp only
  rw [if_neg (not_lt.mpr hsize), hdecode]
  exact m.decodeRichBody_encode hfits hscreen

theorem encodeRich_compressed {maxSize : ℕ} {allowCompression : Bool}
    (h : m.encodeRich z d maxSize allowCompression = .ok (some payload))
    (hmagic : ptyRichCompressedDatagramMagic.isPrefixOf payload = true) :
    allowCompression = true ∧ payload.length < (ptyRichDatagramMagic ++ m.rich.encode d).length := by
  obtain ⟨result, hresult, hspec⟩ := m.encodeRich_spec z d maxSize allowCompression
  obtain rfl : result = some payload := Except.ok.inj (hresult.symm.trans h)
  obtain ⟨-, ⟨hallow, hcompresses⟩ | ⟨rfl, -⟩⟩ := hspec payload rfl
  · exact ⟨hallow, hcompresses.length_lt⟩
  · exact absurd hmagic Bool.false_ne_true

theorem decodeRich_encodeRich {maxSize : ℕ} {allowCompression : Bool} (hfits : d.Fits)
    (hscreen : d.screen.length ≤ ptyRichDatagramMaxDecodedBytes)
    (h : m.encodeRich z d maxSize allowCompression = .ok (some payload)) :
    payload.length ≤ maxSize ∧ m.decodeRich z payload allowCompression = .ok (some d) := by
  obtain ⟨result, hresult, hspec⟩ := m.encodeRich_spec z d maxSize allowCompression
  obtain rfl : result = some payload := Except.ok.inj (hresult.symm.trans h)
  obtain ⟨hsize, ⟨rfl, hcompresses⟩ | ⟨rfl, hle⟩⟩ := hspec payload rfl
  · exact ⟨hcompresses.length_le, m.decodeRich_compressed z hfits hscreen hsize hcompresses⟩
  · exact ⟨hle, m.decodeRich_plain z _ hfits hscreen hsize⟩

variable {features : PtyWireFeatures}

theorem decodeStateDelta_other (h : ptyDeltaDatagramMagic.isPrefixOf payload = false) :
    m.decodeStateDelta payload = .ok none := by
  rw [decodeStateDelta, h]
  rfl

theorem dispatch_rich (h : ptyDeltaDatagramMagic.isPrefixOf payload = false)
    (hdecode : m.decodeRich z payload features.ptyRichCompression = .ok (some d)) :
    m.dispatch z features payload = .rich d := by
  rw [dispatch, m.decodeStateDelta_other h, ite_self, hdecode]

theorem dispatch_delta {d : PtyStateDeltaDatagram} (hfeature : features.ptyStateDelta = true)
    (hdecode : m.decodeStateDelta payload = .ok (some d)) :
    m.dispatch z features payload = .delta d := by
  rw [dispatch, if_pos hfeature, hdecode]

theorem dispatch_plain {d : PtyStateDatagram} (hfits : d.Fits)
    (hdecode : m.decodeState (m.state.encode d) = .ok d) :
    m.dispatch z features (m.state.encode d) = .plain d := by
  have hnot : ∀ tail : Bytes, (0x50 :: tail).isPrefixOf (m.state.encode d) = false :=
    fun tail => m.state.not_isPrefixOf_encode hfits 0x50 tail (by decide)
  have hrich : m.decodeRich z (m.state.encode d) features.ptyRichCompression = .ok none := by
    rw [decodeRich, ptyRichDatagramMagic, hnot, ptyRichCompressedDatagramMagic, hnot]
    rfl
  rw [dispatch, m.decodeStateDelta_other (hnot _), ite_self, hrich]
  rw [hdecode]

theorem dispatch_emit {maxSize : ℕ} (hfits : update.Fits) (hlimits : update.WithinLimits m)
    (h : m.emit z features maxSize update = some payload) :
    m.dispatch z features payload = update.received := by
  cases update with
  | plain d =>
    rw [emit] at h
    split_ifs at h with hrich
    obtain ⟨rfl, -⟩ := m.sendState_eq_some h
    exact m.dispatch_plain z hfits (m.decodeState_encode hfits hlimits.1 hlimits.2)
  | delta d full =>
    rw [emit] at h
    split_ifs at h with hdelta
    obtain ⟨hencode, -⟩ := Option.filter_eq_some_iff.mp h
    obtain ⟨rfl, hrows, hsize, -⟩ := m.encodeStateDelta_eq_some hencode
    exact m.dispatch_delta z (Bool.and_elim_right hdelta)
      (m.decodeStateDelta_encode hfits hrows hsize)
  | rich d =>
    rw [emit] at h
    split_ifs at h with hrich
    obtain ⟨result, hresult, hspec⟩ := m.encodeRich_spec z d maxSize features.richCompression
    rw [sendRich, hresult] at h
    obtain rfl : result = some payload := h
    have hallow : features.richCompression = features.ptyRichCompression := by
      rw [PtyWireFeatures.richCompression, hrich, Bool.true_and]
    have hdecode := (m.decodeRich_encodeRich z hfits hlimits hresult).2
    rw [hallow] at hdecode
    refine m.dispatch_rich z ?_ hdecode
    obtain ⟨-, ⟨-, hcompresses⟩ | ⟨rfl, -⟩⟩ := hspec payload rfl
    · obtain ⟨framed, rfl, -, -⟩ := hcompresses.envelope
      rfl
    · rfl

theorem emit_length {maxSize : ℕ}
    (h : m.emit z features maxSize update = some payload) : payload.length ≤ maxSize := by
  cases update with
  | plain d =>
    rw [emit] at h
    split_ifs at h
    exact (m.sendState_eq_some h).2
  | delta d full =>
    rw [emit] at h
    split_ifs at h
    exact (m.encodeStateDelta_eq_some (Option.filter_eq_some_iff.mp h).1).2.2.2
  | rich d =>
    rw [emit] at h
    split_ifs at h
    obtain ⟨result, hresult, hspec⟩ := m.encodeRich_spec z d maxSize features.richCompression
    rw [sendRich, hresult] at h
    exact (hspec payload h).2.elim (fun hcompresses => hcompresses.2.length_le) And.right

theorem emit_compressed {maxSize : ℕ} (hfits : update.Fits)
    (h : m.emit z features maxSize update = some payload)
    (hmagic : ptyRichCompressedDatagramMagic.isPrefixOf payload = true) :
    features.ptyRichCompression = true ∧ ∃ d, update = .rich d ∧
      payload.length < (ptyRichDatagramMagic ++ m.rich.encode d).length := by
  cases update with
  | plain d =>
    rw [emit] at h
    split_ifs at h
    obtain ⟨rfl, -⟩ := m.sendState_eq_some h
    rw [ptyRichCompressedDatagramMagic,
      m.state.not_isPrefixOf_encode hfits 0x50 [0x5A] (by decide)] at hmagic
    cases hmagic
  | delta d full =>
    rw [emit] at h
    split_ifs at h
    obtain ⟨hencode, -⟩ := Option.filter_eq_some_iff.mp h
    obtain ⟨rfl, -⟩ := m.encodeStateDelta_eq_some hencode
    exact absurd hmagic Bool.false_ne_true
  | rich d =>
    rw [emit] at h
    split_ifs at h
    obtain ⟨result, hresult, -⟩ := m.encodeRich_spec z d maxSize features.richCompression
    rw [sendRich, hresult] at h
    obtain rfl : result = some payload := h
    obtain ⟨hallow, hlt⟩ := m.encodeRich_compressed z hresult hmagic
    exact ⟨Bool.and_elim_right hallow, d, rfl, hlt⟩

theorem encodePtyStateDeltaDatagram_encoding (d : PtyStateDeltaDatagram) (maxSize : ℕ) :
    encodePtyStateDeltaDatagram m.encoding d maxSize =
      (m.encodeStateDelta d maxSize).map List.length := by
  have hlimit : 2 + ptyDeltaDatagramMaxDecodedBytes ≤ usizeMax := by decide
  have hmagic : ptyDeltaDatagramMagic.length = 2 := rfl
  rw [encodePtyStateDeltaDatagram, encodeStateDelta]
  split_ifs with hrows
  · rfl
  · dsimp only [encoding, Option.bind_some]
    by_cases hdecoded : (m.delta.encode d).length > ptyDeltaDatagramMaxDecodedBytes
    · rw [if_pos (.inl hdecoded), if_pos (.inl hdecoded)]
      rfl
    · rw [saturatingAdd_eq (by omega)]
      split_ifs with hsize
      · rfl
      · rw [Option.map_some, List.length_append]

variable {link : DatagramLink} {sessionId : Uuid} {snapshot : PtySnapshot}
  {state : PtyDatagramState} {datagram : PtyDatagram} {maxSize : ℕ}

theorem sendPtyStateDeltaOrFull_emits
    (hdelta : features.deltaState = true) (hmax : link.maxDatagramSize = some maxSize)
    (h : (sendPtyStateDeltaOrFull m.encoding link sessionId snapshot state).1 = some datagram) :
    (m.emit z features maxSize datagram.update).isSome = true := by
  have hfull : m.encoding.full (fullDatagram sessionId snapshot) =
      some (m.state.encode (fullDatagram sessionId snapshot)).length := rfl
  rw [sendPtyStateDeltaOrFull, hmax, hfull] at h
  dsimp only at h
  split at h
  · rename_i delta hsent
    cases h
    rw [deltaDatagram] at hsent
    split_ifs at hsent
    obtain ⟨previous, -, hsent⟩ := Option.bind_eq_some_iff.mp hsent
    obtain ⟨changes, -, hsent⟩ := Option.bind_eq_some_iff.mp hsent
    dsimp only at hsent
    split_ifs at hsent with hshort
    cases hsent
    have hlt := Bool.and_elim_left hshort
    rw [m.encodePtyStateDeltaDatagram_encoding, Option.any_map] at hlt
    rwa [PtyDatagram.update, emit, if_pos hdelta, sendStateDelta, Option.isSome_filter]
  · split_ifs at h with hsize
    cases h
    have hrich : features.richState = false := by
      rw [← Bool.not_eq_true']
      exact Bool.and_elim_left hdelta
    have hle := of_decide_eq_true (Bool.and_elim_left hsize)
    rw [PtyDatagram.update, emit, if_neg (by rw [hrich]; exact Bool.false_ne_true), sendState,
      if_pos hle]
    rfl

/-- Whichever form is sent, its payload is within the size of the link and the client takes it for
the state that was sent. -/
theorem sent_state_is_received
    (hdelta : features.deltaState = true) (hmax : link.maxDatagramSize = some maxSize)
    (h : (sendPtyStateDeltaOrFull m.encoding link sessionId snapshot state).1 = some datagram)
    (hfits : datagram.update.Fits) (hlimits : datagram.update.WithinLimits m) :
    ∃ payload ∈ m.emit z features maxSize datagram.update,
      payload.length ≤ maxSize ∧ m.dispatch z features payload = datagram.update.received := by
  obtain ⟨payload, hpayload⟩ :=
    Option.isSome_iff_exists.mp (m.sendPtyStateDeltaOrFull_emits z hdelta hmax h)
  exact ⟨payload, hpayload, m.emit_length z hpayload, m.dispatch_emit z hfits hlimits hpayload⟩

end PtyMessages

/-- Each encoder writes nothing or a payload within the budget that its decoder undoes, and
the client's dispatch hands every payload that the server emits to that decoder. -/
theorem pty_datagrams_are_not_confused (m : PtyMessages) (z : Zlib) (maxSize : ℕ) :
    (∀ d : PtyStateDatagram, d.Fits → d.screen.length ≤ ptyDatagramMaxRows →
      (m.state.encode d).length ≤ ptyDatagramMaxDecodedBytes →
      ∀ payload ∈ m.sendState maxSize d,
        payload.length ≤ maxSize ∧ m.decodeState payload = .ok d) ∧
    (∀ d : PtyStateDeltaDatagram, d.Fits → ∀ payload ∈ m.encodeStateDelta d maxSize,
      payload.length ≤ maxSize ∧ m.decodeStateDelta payload = .ok (some d)) ∧
    (∀ (d : PtyStateRichDatagram) (allowCompression : Bool), d.Fits →
      d.screen.length ≤ ptyRichDatagramMaxDecodedBytes →
      ∃ result, m.encodeRich z d maxSize allowCompression = .ok result ∧ ∀ payload ∈ result,
        payload.length ≤ maxSize ∧ m.decodeRich z payload allowCompression = .ok (some d) ∧
        (ptyRichCompressedDatagramMagic.isPrefixOf payload = true →
          allowCompression = true ∧
            payload.length < (ptyRichDatagramMagic ++ m.rich.encode d).length)) ∧
    ∀ (features : PtyWireFeatures) (update : PtyUpdate), update.Fits → update.WithinLimits m →
      ∀ payload ∈ m.emit z features maxSize update,
        m.dispatch z features payload = update.received ∧
        (ptyRichCompressedDatagramMagic.isPrefixOf payload = true →
          features.ptyRichCompression = true ∧ ∃ d, update = .rich d ∧
            payload.length < (ptyRichDatagramMagic ++ m.rich.encode d).length) := by
  refine ⟨fun d hfits hrows hsize payload h => ?_, fun d hfits payload h => ?_,
    fun d allowCompression hfits hscreen => ?_, fun features update hfits hlimits payload h => ?_⟩
  · obtain ⟨rfl, hle⟩ := m.sendState_eq_some h
    exact ⟨hle, m.decodeState_encode hfits hrows hsize⟩
  · obtain ⟨rfl, hrows, hsize, hle⟩ := m.encodeStateDelta_eq_some h
    exact ⟨hle, m.decodeStateDelta_encode hfits hrows hsize⟩
  · obtain ⟨result, hresult, -⟩ := m.encodeRich_spec z d maxSize allowCompression
    refine ⟨result, hresult, fun payload hpayload => ?_⟩
    obtain rfl : result = some payload := hpayload
    obtain ⟨hle, hdecode⟩ := m.decodeRich_encodeRich z hfits hscreen hresult
    exact ⟨hle, hdecode, m.encodeRich_compressed z hresult⟩
  · exact ⟨m.dispatch_emit z hfits hlimits h, m.emit_compressed z hfits h⟩

section Sample

/-- A session id before the codec of the other fields. -/
def SessionMessage.ofCodec {α β : Type} {sessionId : α → Uuid} {Fits : α → Prop} (C : Codec β)
    (fields : α → β) (make : Uuid → β → α) (hmake : ∀ x, make (sessionId x) (fields x) = x)
    (hfits : ∀ x, Fits x → sessionId x < 256 ^ 16) : SessionMessage α sessionId Fits where
  encode x := 16 :: be 16 (sessionId x) ++ C.encode (fields x)
  decode bytes :=
    if bytes.take 1 = [16] then
      (C.decode (bytes.drop 17)).map fun entry => make (ofBe ((bytes.drop 1).take 16)) entry.1
    else none
  decode_encode x hx := by
    have hfields := C.decode_encode (fields x) []
    rw [List.append_nil] at hfields
    rw [List.cons_append, List.take_succ_cons, List.take_zero, if_pos rfl, List.drop_succ_cons,
      List.drop_zero, List.take_left' (be_length ..), List.drop_succ_cons,
      List.drop_left' (be_length ..), hfields, ofBe_be (hfits x hx), Option.map_some, hmake]
  encode_uuid x _ := ⟨C.encode (fields x), rfl⟩

def ptyMessages : PtyMessages :=
  open Codec in
  { state := .ofCodec (pair nat (pair nat (pair nat (pair (list text) (pair nat nat)))))
      (fun d => (d.generation, d.rows, d.cols, d.screen, d.cursorRow, d.cursorCol))
      (fun id fields => ⟨id, fields.1, fields.2.1, fields.2.2.1, fields.2.2.2.1, fields.2.2.2.2.1,
        fields.2.2.2.2.2⟩)
      (fun _ => rfl) (fun _ h => h.1)
    delta := .ofCodec
      (pair nat (pair nat (pair nat (pair nat (pair (list (pair nat text)) (pair nat nat))))))
      (fun d => (d.baseGeneration, d.generation, d.rows, d.cols,
        d.changes.map fun change => (change.row, change.text), d.cursorRow, d.cursorCol))
      (fun id fields => ⟨id, fields.1, fields.2.1, fields.2.2.1, fields.2.2.2.1,
        fields.2.2.2.2.1.map fun change => ⟨change.1, change.2⟩, fields.2.2.2.2.2.1,
        fields.2.2.2.2.2.2⟩)
      (fun d => by simp [Function.comp_def]) (fun _ h => h.1)
    rich := .ofCodec (pair nat (pair nat (pair nat (pair (list byte) (pair nat nat)))))
      (fun d => (d.generation, d.rows, d.cols, d.screen, d.cursorRow, d.cursorCol))
      (fun id fields => ⟨id, fields.1, fields.2.1, fields.2.2.1, fields.2.2.2.1, fields.2.2.2.2.1,
        fields.2.2.2.2.2⟩)
      (fun _ => rfl) (fun _ h => h.1) }

def changedRow : PtyDatagram :=
  .delta ⟨7, 1, 2, 2, 80, [⟨0, "a"⟩], 0, 1⟩ ⟨2, 2, 80, ["a", "long enough"], 0, 1, []⟩

theorem changedRow_is_received :
    ∃ payload ∈ ptyMessages.emit runZlib ⟨false, true, true⟩ 1200 changedRow.update,
      payload.length ≤ 1200 ∧ ptyMessages.dispatch runZlib ⟨false, true, true⟩ payload = changedRow.update.received := by
  have h : (sendPtyStateDeltaOrFull ptyMessages.encoding ⟨some 1200, true, true⟩ 7
      ⟨2, 2, 80, ["a", "long enough"], 0, 1, []⟩
      ⟨some ⟨1, 2, 80, ["b", "long enough"], 0, 1, []⟩, 0⟩).1 = some changedRow := by
    decide +kernel
  exact ptyMessages.sent_state_is_received runZlib rfl rfl h
    ⟨by decide, by decide, by decide, by decide, by decide, by decide, by decide, by decide⟩ trivial

def longScreen : PtyStateRichDatagram := ⟨7, 2, 1, 80, List.replicate 1100 97, 0, 1⟩

/-- A plain state, the delta to it, and a rich state that is worth compressing, for a client with
every feature that the form leaves open. -/
theorem each_form_is_dispatched :
    (∃ payload ∈ ptyMessages.emit runZlib ⟨false, true, true⟩ 1200
        (.plain ⟨7, 2, 1, 80, ["a"], 0, 1⟩),
      ptyMessages.dispatch runZlib ⟨false, true, true⟩ payload =
        .plain ⟨7, 2, 1, 80, ["a"], 0, 1⟩) ∧
    (∃ payload ∈ ptyMessages.emit runZlib ⟨false, true, true⟩ 1200
        (.delta ⟨7, 1, 2, 2, 80, [⟨0, "a"⟩], 0, 1⟩ ⟨7, 2, 2, 80, ["a", "long enough"], 0, 1⟩),
      ptyMessages.dispatch runZlib ⟨false, true, true⟩ payload =
        .delta ⟨7, 1, 2, 2, 80, [⟨0, "a"⟩], 0, 1⟩) ∧
    ∃ payload ∈ ptyMessages.emit runZlib ⟨true, true, true⟩ 1200 (.rich longScreen),
      ptyRichCompressedDatagramMagic.isPrefixOf payload = true ∧
      ptyMessages.dispatch runZlib ⟨true, true, true⟩ payload = .rich longScreen := by
  have hnoConfusion := (pty_datagrams_are_not_confused ptyMessages runZlib 1200).2.2.2
  refine ⟨?_, ?_, ?_⟩
  · obtain ⟨payload, hpayload⟩ := Option.isSome_iff_exists.mp
      (show (ptyMessages.emit runZlib ⟨false, true, true⟩ 1200
        (.plain ⟨7, 2, 1, 80, ["a"], 0, 1⟩)).isSome = true by decide +kernel)
    refine ⟨payload, hpayload, (hnoConfusion _ _ ?_ ?_ payload hpayload).1⟩
    · exact ⟨by decide, by decide, by decide, by decide, by decide, by decide⟩
    · exact ⟨by decide, by decide +kernel⟩
  · obtain ⟨payload, hpayload⟩ := Option.isSome_iff_exists.mp
      (show (ptyMessages.emit runZlib ⟨false, true, true⟩ 1200
        (.delta ⟨7, 1, 2, 2, 80, [⟨0, "a"⟩], 0, 1⟩
          ⟨7, 2, 2, 80, ["a", "long enough"], 0, 1⟩)).isSome = true by decide +kernel)
    refine ⟨payload, hpayload, (hnoConfusion _ _ ?_ ?_ payload hpayload).1⟩
    · exact ⟨by decide, by decide, by decide, by decide, by decide, by decide, by decide,
        by decide⟩
    · exact trivial
  · obtain ⟨payload, hpayload, hcompressed⟩ := (Option.any_eq_true _ _).mp
      (show (ptyMessages.emit runZlib ⟨true, true, true⟩ 1200 (.rich longScreen)).any
        ptyRichCompressedDatagramMagic.isPrefixOf = true by decide +kernel)
    refine ⟨payload, hpayload, hcompressed, (hnoConfusion _ _ ?_ ?_ payload hpayload).1⟩
    · exact ⟨by decide, by decide, by decide, by decide, by decide, by decide⟩
    · show (List.replicate 1100 97).length ≤ ptyRichDatagramMaxDecodedBytes
      rw [List.length_replicate]
      decide

end Sample

end Asp
