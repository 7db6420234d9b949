import Asp.Proofs.Serializers
import Asp.Spec.Download

/-! Two downloads in a row. A call that does not end with the file in place removes what it resumed
from, unless the bytes on disk are what was wrong. -/

namespace Asp

theorem stale_errors_are_final :
    ∀ error ∈ [DownloadError.remoteChanged,
        .remote (fileReadErrorCode offsetBeyondEnd) offsetBeyondEnd],
      retryableConnectionError error = false := by
  decide +kernel

namespace DownloadClient

variable {c : DownloadClient} {remote : String} {content : Bytes} {peer : DownloadPeer}

variable {files files' : DownloadFiles} {info : StreamFileInfo} {offset : ℕ}

def Installed (c : DownloadClient) (info : StreamFileInfo) (files : DownloadFiles) : Prop :=
  ∃ bytes, files = ⟨none, none, some bytes⟩ ∧ bytes.length = info.totalSize ∧
    c.sha256 bytes = info.sha256

theorem install_eq_ok {info' : StreamFileInfo}
    (h : c.install info files = (.ok info', files')) : c.Installed info' files' := by
  rw [install] at h
  split at h
  · cases h
  · rename_i temporary _
    split_ifs at h with hlength hlarge hdigest
    · cases h
    · cases h
    · cases h
    · obtain ⟨hinfo, rfl⟩ := Prod.mk.inj h
      cases hinfo
      exact ⟨temporary, rfl, not_not.mp hlength, not_not.mp hdigest⟩

theorem attempt_ok {answers : ℕ → List StreamReply}
    (h : c.attempt remote answers files = .ended (.ok info) files') : c.Installed info files' := by
  rw [attempt] at h
  split at h
  · cases h
  · split at h
    · obtain ⟨hresult, rfl⟩ := DownloadAttempt.ended.inj h
      exact install_eq_ok (Prod.ext hresult rfl)
    · split_ifs at h
      cases h

theorem downloadLoop_ok {left : ℕ}
    (h : c.downloadLoop remote peer left files = (.ok info, files')) : c.Installed info files' := by
  induction left generalizing files with
  | zero =>
    rw [downloadLoop] at h
    split at h
    · rename_i result files hattempt
      cases h
      exact attempt_ok hattempt
    · cases h
  | succ left ih =>
    rw [downloadLoop] at h
    split at h
    · rename_i result files hattempt
      cases h
      exact attempt_ok hattempt
    · split at h
      · cases h
      · exact ih h

theorem receiveChunks_chunks (info : StreamFileInfo) {position : ℕ} {rest : Bytes}
    {chunks : List StreamReply} (h : StreamChunks position rest chunks) {received : ℕ}
    (temporary : Bytes) (hposition : position = info.offset + received)
    (hlength : received + rest.length = info.length) (hsmall : info.length < 2 ^ 64) :
    c.receiveChunks info received (chunks ++ [.fileStreamEnd info.length info.sha256]) temporary =
      (.ok info, temporary ++ rest) := by
  induction h generalizing received temporary with
  | done position =>
    obtain rfl : received = info.length := hlength
    rw [List.nil_append, receiveChunks, if_neg (by simp), List.append_nil]
  | @read position data rest replies hne hle hreplies ih =>
    rw [List.length_append] at hlength
    rw [List.cons_append, receiveChunks, if_neg (not_or.mpr ⟨hne, not_lt.mpr hle⟩),
      if_neg (not_not.mpr hposition), if_neg (by omega), if_neg (by omega),
      ih (temporary ++ data) (by omega) (by omega), List.append_assoc]

def served (c : DownloadClient) (content : Bytes) (offset : ℕ) : StreamFileInfo :=
  ⟨content.length, offset, content.length - offset, c.sha256 content⟩

theorem acceptBegin_served {expected : Option (ℕ × String)}
    (hsize : content.length ≤ streamFileMaxBytes) (hsha : validSha256 (c.sha256 content) = true)
    (hoffset : offset ≤ content.length)
    (hexpected : ∀ known ∈ expected, known = (content.length, c.sha256 content)) :
    c.acceptBegin remote expected (some (.fileStreamBegin remote content.length offset
      (content.length - offset) (c.sha256 content))) = .ok (c.served content offset) := by
  have hknown : expected.any (fun known =>
      decide (known.1 ≠ content.length ∨ known.2 ≠ c.sha256 content)) = false := by
    cases expected with
    | none => rfl
    | some known =>
      rw [hexpected known rfl]
      simp
  rw [acceptBegin, if_neg (not_not.mpr rfl), if_neg (by omega), hknown,
    if_neg Bool.false_ne_true, if_neg (by simp [hsha])]
  rfl

theorem receiveFileStream_served (expected : Option (ℕ × String)) {replies : List StreamReply}
    (files : DownloadFiles) (hsize : content.length ≤ streamFileMaxBytes)
    (hsha : validSha256 (c.sha256 content) = true) (hoffset : offset ≤ content.length)
    (hexpected : ∀ known ∈ expected, known = (content.length, c.sha256 content))
    (hserves : StreamServes c.sha256 remote content offset replies) :
    c.receiveFileStream remote offset expected replies files =
      (.ok (c.served content offset),
        { files with
          metadata := some (c.json.encode ⟨remote, content.length, c.sha256 content⟩)
          temporary := some (files.temporary.getD [] ++ content.drop offset) }) := by
  have hsmall : streamFileMaxBytes < 2 ^ 64 := by decide
  cases hserves with
  | beyondEnd hlt => omega
  | @range chunks _ hchunks =>
    have hreceive := receiveChunks_chunks (c := c) (c.served content offset) hchunks
      (files.temporary.getD []) (Nat.add_zero offset).symm
      (by rw [List.length_drop, Nat.zero_add]; rfl)
      (lt_of_le_of_lt (Nat.sub_le ..) (lt_of_le_of_lt hsize hsmall))
    rw [receiveFileStream, List.head?_cons, acceptBegin_served hsize hsha hoffset hexpected]
    dsimp only
    have hsame : ¬ (c.served content offset).offset ≠ offset := not_not.mpr rfl
    rw [if_neg hsame, List.tail_cons]
    exact congrArg (fun received => (received.1,
      { files with
        metadata := some (c.json.encode ⟨remote, content.length, c.sha256 content⟩)
        temporary := some received.2 })) hreceive

theorem receiveFileStream_stale {known : ℕ × String} {replies : List StreamReply}
    (files : DownloadFiles) (hsize : content.length ≤ streamFileMaxBytes)
    (hstale : content.length < offset ∨ known ≠ (content.length, c.sha256 content))
    (hserves : StreamServes c.sha256 remote content offset replies) :
    ∃ error, c.receiveFileStream remote offset (some known) replies files = (.error error, files) ∧
      retryableConnectionError error = false := by
  cases hserves with
  | beyondEnd hlt =>
    exact ⟨_, rfl, stale_errors_are_final _ (by simp)⟩
  | range hle _ =>
    have hknown : (some known).any (fun known =>
        decide (known.1 ≠ content.length ∨ known.2 ≠ c.sha256 content)) = true := by
      have hne := hstale.resolve_left (not_lt.mpr hle)
      simp only [Option.any_some, decide_eq_true_eq]
      by_contra hsame
      obtain ⟨hfst, hsnd⟩ := not_or.mp hsame
      exact hne (Prod.ext (not_not.mp hfst) (not_not.mp hsnd))
    refine ⟨.remoteChanged, ?_, stale_errors_are_final _ (by simp)⟩
    rw [receiveFileStream, List.head?_cons, acceptBegin, if_neg (not_not.mpr rfl),
      if_neg (by omega), if_pos hknown]

theorem resumePoint_current {metadata temporary : Bytes}
    (hsize : content.length ≤ streamFileMaxBytes) (hsha : validSha256 (c.sha256 content) = true)
    (hmetadata : files.metadata = some metadata)
    (hlarge : ¬ metadata.length > maxClientMetadataBytes)
    (hdecode : c.json.decode metadata = some ⟨remote, content.length, c.sha256 content⟩)
    (htemporary : files.temporary = some temporary) (hlength : temporary.length ≤ content.length) :
    c.resumePoint remote files =
      (.ok (temporary.length, some (content.length, c.sha256 content)), files) := by
  have hvalid : ¬ (remote ≠ remote ∨ content.length > streamFileMaxBytes ∨
      validSha256 (c.sha256 content) = false) := by
    simp [hsize, hsha]
  rw [resumePoint, hmetadata]
  dsimp only
  rw [if_neg hlarge, hdecode]
  dsimp only
  rw [if_neg hvalid, htemporary]
  dsimp only
  rw [if_pos hlength]

theorem resumePoint_cases (c : DownloadClient) (remote : String) (files : DownloadFiles) :
    (∃ metadata, files.metadata = some metadata ∧ metadata.length > maxClientMetadataBytes) ∨
    c.resumePoint remote files = (.error .invalidMetadata, files.discard) ∨
    (∃ cleared, c.resumePoint remote files = (.ok (0, none), cleared) ∧
      cleared.temporary = none) ∨
    ∃ metadata checkpoint temporary, files.metadata = some metadata ∧
      c.json.decode metadata = some checkpoint ∧ checkpoint.remote = remote ∧
      files.temporary = some temporary ∧
      c.resumePoint remote files =
        (.ok (temporary.length, some (checkpoint.totalSize, checkpoint.sha256)), files) := by
  rw [resumePoint]
  split
  · exact .inr (.inr (.inl ⟨_, rfl, rfl⟩))
  · rename_i metadata hmetadata
    split_ifs with hlarge
    · exact .inl ⟨metadata, hmetadata, hlarge⟩
    · split
      · exact .inr (.inl rfl)
      · rename_i checkpoint hdecode
        split
        · exact .inr (.inr (.inl ⟨_, rfl, rfl⟩))
        · rename_i hvalid
          split
          · exact .inr (.inr (.inl ⟨_, rfl, rfl⟩))
          · rename_i temporary htemporary
            split_ifs
            · exact .inr (.inr (.inr ⟨metadata, checkpoint, temporary, hmetadata, hdecode,
                not_not.mp (not_or.mp hvalid).1, htemporary, rfl⟩))
            · exact .inr (.inr (.inl ⟨_, rfl, rfl⟩))

theorem length_append_drop {temporary : Bytes} (h : temporary.length ≤ content.length) :
    (temporary ++ content.drop temporary.length).length = content.length := by
  rw [List.length_append, List.length_drop]
  omega

section Call

variable (hsize : content.length ≤ streamFileMaxBytes)
  (hsha : validSha256 (c.sha256 content) = true)
  (hpeer : peer.Faithful c.sha256 remote content)

theorem downloadFileWithRetry_of_attempt {result : Except DownloadError StreamFileInfo}
    (h : c.attempt remote (peer.answers 3) files = .ended result files') :
    c.downloadFileWithRetry remote peer files = (result, files') := by
  rw [downloadFileWithRetry, downloadLoop, h]

include hsize hsha hpeer

theorem attempt_clean {cleared : DownloadFiles}
    (hresume : c.resumePoint remote files = (.ok (0, none), cleared))
    (hcleared : cleared.temporary = none) :
    c.attempt remote (peer.answers 3) files =
      .ended (.ok (c.served content 0)) ⟨none, none, some content⟩ := by
  have hreceive := receiveFileStream_served none cleared hsize hsha (Nat.zero_le _)
    (fun known hknown => by cases hknown) (hpeer 3 0)
  rw [hcleared, Option.getD_none, List.nil_append, List.drop_zero] at hreceive
  have hlength : ¬ content.length ≠ (c.served content 0).totalSize := not_not.mpr rfl
  have hdigest : ¬ c.sha256 content ≠ (c.served content 0).sha256 := not_not.mpr rfl
  rw [attempt, hresume]
  dsimp only
  rw [hreceive]
  dsimp only [install]
  rw [if_neg hlength, if_neg (not_lt.mpr hsize), if_neg hdigest]

theorem attempt_resumed {temporary : Bytes} (htemporary : files.temporary = some temporary)
    (hlength : temporary.length ≤ content.length) (hresume : c.resumePoint remote files =
      (.ok (temporary.length, some (content.length, c.sha256 content)), files)) :
    c.attempt remote (peer.answers 3) files =
      if c.sha256 (temporary ++ content.drop temporary.length) ≠ c.sha256 content then
        .ended (.error .digestMismatch)
          { files with
            metadata := some (c.json.encode ⟨remote, content.length, c.sha256 content⟩)
            temporary := some (temporary ++ content.drop temporary.length) }
      else
        .ended (.ok (c.served content temporary.length))
          ⟨none, none, some (temporary ++ content.drop temporary.length)⟩ := by
  have hreceive := receiveFileStream_served (some (content.length, c.sha256 content)) files hsize
    hsha hlength (fun known hknown => (Option.some.inj hknown).symm) (hpeer 3 temporary.length)
  rw [htemporary, Option.getD_some] at hreceive
  rw [attempt, hresume]
  dsimp only
  rw [hreceive]
  dsimp only [install, served]
  rw [length_append_drop hlength, if_neg (not_not.mpr rfl), if_neg (not_lt.mpr hsize)]
  split_ifs
  · rfl
  · rfl

theorem download_wedged (h : c.Wedged remote content files) :
    (∃ error, (c.downloadFileWithRetry remote peer files).1 = .error error) ∧
      c.Wedged remote content (c.downloadFileWithRetry remote peer files).2 := by
  obtain ⟨metadata, hmetadata, hcontent⟩ := h
  by_cases hlarge : metadata.length > maxClientMetadataBytes
  · have hattempt : c.attempt remote (peer.answers 3) files =
        .ended (.error .metadataTooLarge) files := by
      rw [attempt, resumePoint, hmetadata]
      dsimp only
      rw [if_pos hlarge]
    rw [downloadFileWithRetry_of_attempt hattempt]
    exact ⟨⟨_, rfl⟩, metadata, hmetadata, .inl hlarge⟩
  · obtain ⟨hdecode, temporary, htemporary, hlength, hdigest⟩ := hcontent.resolve_left hlarge
    have hresume := resumePoint_current hsize hsha hmetadata hlarge hdecode htemporary hlength
    have hattempt := attempt_resumed hsize hsha hpeer htemporary hlength hresume
    rw [if_pos hdigest] at hattempt
    rw [downloadFileWithRetry_of_attempt hattempt]
    have htotal := length_append_drop hlength
    refine ⟨⟨_, rfl⟩, _, rfl, .inr ⟨c.json.decode_encode _, _, rfl, htotal.le, ?_⟩⟩
    rwa [htotal, List.drop_length, List.append_nil]

theorem download_not_wedged (h : ¬ c.Wedged remote content files) :
    (c.downloadFileWithRetry remote peer files).2.metadata = none := by
  rcases resumePoint_cases c remote files with ⟨metadata, hmetadata, hlarge⟩ | hinvalid |
    ⟨cleared, hresume, hcleared⟩ |
    ⟨metadata, checkpoint, temporary, hmetadata, hdecode, hremote, htemporary, hresume⟩
  · exact absurd ⟨metadata, hmetadata, .inl hlarge⟩ h
  · have hattempt : c.attempt remote (peer.answers 3) files =
        .ended (.error .invalidMetadata) files.discard := by
      rw [attempt, hinvalid]
    rw [downloadFileWithRetry_of_attempt hattempt]
    rfl
  · rw [downloadFileWithRetry_of_attempt (attempt_clean hsize hsha hpeer hresume hcleared)]
  · by_cases hstale : content.length < temporary.length ∨
        (checkpoint.totalSize, checkpoint.sha256) ≠ (content.length, c.sha256 content)
    · obtain ⟨error, herror, hfinal⟩ :=
        receiveFileStream_stale files hsize hstale (hpeer 3 temporary.length)
      have hattempt : c.attempt remote (peer.answers 3) files =
          .ended (.error error) files.discard := by
        rw [attempt, hresume]
        dsimp only
        rw [herror]
        dsimp only
        rw [hfinal, if_neg Bool.false_ne_true]
      rw [downloadFileWithRetry_of_attempt hattempt]
      rfl
    · obtain ⟨hlength, hsame⟩ := not_or.mp hstale
      obtain ⟨htotal, hsum⟩ := Prod.mk.inj (not_not.mp hsame)
      have hcurrent : checkpoint = ⟨remote, content.length, c.sha256 content⟩ := by
        rw [← hremote, ← htotal, ← hsum]
      have hdigest : ¬ c.sha256 (temporary ++ content.drop temporary.length) ≠ c.sha256 content :=
        fun hne => h ⟨metadata, hmetadata, .inr ⟨hcurrent ▸ hdecode, temporary, htemporary,
          not_lt.mp hlength, hne⟩⟩
      rw [htotal, hsum] at hresume
      have hattempt := attempt_resumed hsize hsha hpeer htemporary (not_lt.mp hlength) hresume
      rw [if_neg hdigest] at hattempt
      rw [downloadFileWithRetry_of_attempt hattempt]

theorem download_clean (h : files.metadata = none) :
    c.downloadFileWithRetry remote peer files =
      (.ok (c.served content 0), ⟨none, none, some content⟩) := by
  have hresume : c.resumePoint remote files =
      (.ok (0, none), { files with temporary := none }) := by
    rw [resumePoint, h]
  exact downloadFileWithRetry_of_attempt (attempt_clean hsize hsha hpeer hresume rfl)

end Call

end DownloadClient

/-- Success means that the file in place was checked, whatever the server sent; and of two
calls for a file that does not change the second succeeds, unless the files beside the
destination are wedged. -/
theorem second_download_succeeds_iff (c : DownloadClient) (remote : String) :
    (∀ (peer : DownloadPeer) (files files' : DownloadFiles) (info : StreamFileInfo),
      c.downloadFileWithRetry remote peer files = (.ok info, files') →
        ∃ bytes, files'.destination = some bytes ∧ bytes.length = info.totalSize ∧
          c.sha256 bytes = info.sha256) ∧
    ∀ content : Bytes, content.length ≤ streamFileMaxBytes →
      validSha256 (c.sha256 content) = true →
      ∀ first second : DownloadPeer, first.Faithful c.sha256 remote content →
        second.Faithful c.sha256 remote content → ∀ files : DownloadFiles,
          (∃ info files', c.downloadFileWithRetry remote second
              (c.downloadFileWithRetry remote first files).2 = (.ok info, files')) ↔
            ¬ c.Wedged remote content files := by
  refine ⟨fun peer files files' info h => ?_,
    fun content hsize hsha first second hfirst hsecond files => ⟨?_, fun hnot => ?_⟩⟩
  · obtain ⟨bytes, rfl, hlength, hdigest⟩ := DownloadClient.downloadLoop_ok h
    exact ⟨bytes, rfl, hlength, hdigest⟩
  · rintro ⟨info, files', hok⟩ hwedged
    obtain ⟨-, hstill⟩ := DownloadClient.download_wedged hsize hsha hfirst hwedged
    obtain ⟨⟨error, herror⟩, -⟩ := DownloadClient.download_wedged hsize hsha hsecond hstill
    rw [hok] at herror
    cases herror
  · exact ⟨_, _, DownloadClient.download_clean hsize hsha hsecond
      (DownloadClient.download_not_wedged hsize hsha hfirst hnot)⟩

section Sample

def checkpointCodec : Codec DownloadCheckpoint :=
  open Codec in
  (pair text (pair nat text)).via
    (fun checkpoint => (checkpoint.remote, checkpoint.totalSize, checkpoint.sha256))
    (fun fields => ⟨fields.1, fields.2.1, fields.2.2⟩) (fun _ => rfl)

def sampleClient : DownloadClient := ⟨hexDigest, .ofCodec checkpointCodec, fun _ => ""⟩

def servingPeer (sha256 : Bytes → String) (path : String) (content : Bytes) : DownloadPeer where
  answers _ offset :=
    if content.length < offset then
      [.error (fileReadErrorCode offsetBeyondEnd) offsetBeyondEnd]
    else
      .fileStreamBegin path content.length offset (content.length - offset) (sha256 content) ::
        ((if content.drop offset = [] then [] else [.fileStreamChunk offset (content.drop offset)])
          ++ [.fileStreamEnd (content.length - offset) (sha256 content)])
  reconnectError _ := none

theorem servingPeer_faithful (sha256 : Bytes → String) (path : String) {content : Bytes}
    (h : content.length ≤ fileStreamChunkBytes) :
    (servingPeer sha256 path content).Faithful sha256 path content := by
  intro attempt offset
  dsimp only [servingPeer]
  split_ifs with hbeyond hempty
  · exact .beyondEnd hbeyond
  · refine .range (not_lt.mp hbeyond) ?_
    rw [hempty]
    exact .done offset
  · refine .range (not_lt.mp hbeyond) ?_
    have hread := StreamChunks.read hempty
      ((List.length_drop ▸ Nat.sub_le ..).trans h) (.done (offset + (content.drop offset).length))
    rwa [List.append_nil] at hread

def wrongBytes : DownloadFiles :=
  ⟨some [2], some (sampleClient.json.encode ⟨"r", 1, hexDigest [1]⟩), none⟩

theorem second_download_of_one_byte : ∃ info files',
    sampleClient.downloadFileWithRetry "r" (servingPeer hexDigest "r" [1])
      (sampleClient.downloadFileWithRetry "r" (servingPeer hexDigest "r" [1])
        ⟨some [7, 7], none, none⟩).2 = (.ok info, files') := by
  have hfaithful := servingPeer_faithful hexDigest "r" (show [1].length ≤ _ by decide)
  refine ((second_download_succeeds_iff sampleClient "r").2 [1] (by decide) ?_ _ _ hfaithful
    hfaithful _).mpr ?_
  · exact (by decide : validSha256 (hexDigest [1]) = true)
  · rintro ⟨metadata, hmetadata, -⟩
    cases hmetadata

theorem wrong_bytes_stay :
    (servingPeer hexDigest "r" [1]).Faithful hexDigest "r" [1] ∧
    sampleClient.downloadFileWithRetry "r" (servingPeer hexDigest "r" [1]) wrongBytes =
      (.error .digestMismatch, wrongBytes) ∧
    sampleClient.downloadFileWithRetry "r" (servingPeer hexDigest "r" [1])
        (sampleClient.downloadFileWithRetry "r" (servingPeer hexDigest "r" [1]) wrongBytes).2 =
      (.error .digestMismatch, wrongBytes) := by
  have hcall : sampleClient.downloadFileWithRetry "r" (servingPeer hexDigest "r" [1]) wrongBytes =
      (.error .digestMismatch, wrongBytes) := by
    decide +kernel
  refine ⟨servingPeer_faithful hexDigest "r" (by decide), hcall, ?_⟩
  rwa [hcall]

end Sample

end Asp
