import Asp.Spec.Event

/-! `download_file_with_retry`: a download into a temporary file beside its destination,
with a checkpoint that a later call resumes from. The server's answers are arbitrary here;
`StreamServes` says what `send_file_stream` answers for a file that does not change. -/

namespace Asp

def fileStreamChunkBytes : ℕ := 64 * 1024
def streamFileMaxBytes : ℕ := 1024 * 1024 * 1024
def maxClientMetadataBytes : ℕ := 8 * 1024 * 1024

def containsText (message text : String) : Bool := decide (text.toList <:+: message.toList)

structure DownloadCheckpoint where
  remote : String
  totalSize : ℕ
  sha256 : String
  deriving DecidableEq

structure StreamFileInfo where
  totalSize : ℕ
  offset : ℕ
  length : ℕ
  sha256 : String
  deriving DecidableEq

/-- What the client gets when it reads from the stream. The end of the list is the end of
the stream. -/
inductive StreamReply where
  | fileStreamBegin (path : String) (totalSize offset length : ℕ) (sha256 : String)
  | fileStreamChunk (offset : ℕ) (data : Bytes)
  | fileStreamEnd (bytes : ℕ) (sha256 : String)
  | error (code message : String)
  /-- A response of another kind. -/
  | other (response : Bytes)
  /-- The request or the read failed, with this text. -/
  | failed (text : String)
  deriving DecidableEq

inductive DownloadError where
  | metadataTooLarge
  | invalidMetadata
  | transport (text : String)
  | closedBeforeBegin
  | pathMismatch
  | invalidBounds
  | remoteChanged
  | invalidSha256
  | remote (code message : String)
  | unexpectedResponse (debug : String)
  | resumedAt (actual expected : ℕ)
  | closedBeforeEnd
  | invalidChunk
  | chunkOffset
  | byteCountOverflow
  | exceededRange
  | endMismatch
  | unexpectedInStream (debug : String)
  | temporaryMissing
  | endedAt (actual expected : ℕ)
  | tooLarge
  | digestMismatch
  deriving DecidableEq

def DownloadError.message : DownloadError → String
  | .metadataTooLarge => s!"client state file exceeds the {maxClientMetadataBytes} byte safety limit"
  | .invalidMetadata => "invalid download metadata"
  | .transport text => text
  | .closedBeforeBegin => "server closed file stream before BEGIN"
  | .pathMismatch => "file stream path mismatch"
  | .invalidBounds => "invalid file stream bounds"
  | .remoteChanged => "remote file changed while resuming"
  | .invalidSha256 => "invalid SHA-256 in file stream header"
  | .remote code message => code ++ ": " ++ message
  | .unexpectedResponse debug => "unexpected file stream response: " ++ debug
  | .resumedAt actual expected => s!"file stream resumed at {actual}, expected {expected}"
  | .closedBeforeEnd => "server closed file stream before END"
  | .invalidChunk => "invalid streamed file chunk"
  | .chunkOffset => "file stream chunk offset mismatch"
  | .byteCountOverflow => "file stream byte count overflow"
  | .exceededRange => "file stream exceeded declared range"
  | .endMismatch => "file stream end metadata mismatch"
  | .unexpectedInStream debug => "unexpected response in file stream: " ++ debug
  | .temporaryMissing => "No such file or directory"
  | .endedAt actual expected => s!"download ended at {actual} bytes, expected {expected}"
  | .tooLarge => s!"file exceeds streamed limit of {streamFileMaxBytes} bytes"
  | .digestMismatch => "download SHA-256 mismatch"

def finalErrorMarkers : List String :=
  ["authentication", "unauthorized", "forbidden", "certificate", "invalid peer", "server name",
    "invalid dns", "unknown session", "session_not_found", "request_id", "command must",
    "process_limit", "process_spawn_failed", "exec_timeout", "result_compacted", "invalid_cursor",
    "invalid_ack", "version_mismatch", "principal_byte_budget", "principal_response_budget",
    "idempotency_capacity"]

def retryableErrorMarkers : List String :=
  ["connect to", "connection", "connection lost", "connection reset", "connection closed",
    "closed by peer", "connection refused", "server refused", "aborted by peer", "closed stream",
    "broken pipe", "network is unreachable", "no route to host", "timed out", "timeout",
    "transport error", "stream stopped", "open quic bidirectional request stream", "reset by peer",
    "unexpected eof", "server closed response stream", "server_busy"]

def retryableConnectionError (error : DownloadError) : Bool :=
  let text := toAsciiLowercase error.message
  if finalErrorMarkers.any (containsText text) then false
  else retryableErrorMarkers.any (containsText text)

structure DownloadFiles where
  temporary : Option Bytes
  metadata : Option Bytes
  destination : Option Bytes
  deriving DecidableEq

def DownloadFiles.discard (files : DownloadFiles) : DownloadFiles :=
  { files with temporary := none, metadata := none }

/-- SHA-256 in hexadecimal, `serde_json` for checkpoints, and `Debug` of a response. -/
structure DownloadClient where
  sha256 : Bytes → String
  json : Message DownloadCheckpoint
  debug : StreamReply → String

/-- What the connection does in each attempt: how the server answers a request for the bytes
from an offset on, and whether reconnecting after it fails. Attempts are counted down. -/
structure DownloadPeer where
  answers : ℕ → ℕ → List StreamReply
  reconnectError : ℕ → Option String

/-- How a round ends: for good, or with an error that is worth another connection. -/
inductive DownloadAttempt where
  | ended (result : Except DownloadError StreamFileInfo) (files : DownloadFiles)
  | interrupted (error : DownloadError) (files : DownloadFiles)

namespace DownloadClient

variable (c : DownloadClient) (remote : String)

/-- Where to resume, and what the remote file must then be. -/
def resumePoint (files : DownloadFiles) :
    Except DownloadError (ℕ × Option (ℕ × String)) × DownloadFiles :=
  match files.metadata with
  -- A temporary file without a checkpoint is not appended to.
  | none => (.ok (0, none), { files with temporary := none })
  | some metadata =>
      if metadata.length > maxClientMetadataBytes then (.error .metadataTooLarge, files)
      else
        match c.json.decode metadata with
        | none => (.error .invalidMetadata, files.discard)
        | some checkpoint =>
            if checkpoint.remote ≠ remote ∨ checkpoint.totalSize > streamFileMaxBytes ∨
                validSha256 checkpoint.sha256 = false then
              (.ok (0, none), files.discard)
            else
              match files.temporary with
              | none => (.ok (0, none), files.discard)
              | some temporary =>
                  if temporary.length ≤ checkpoint.totalSize then
                    (.ok (temporary.length, some (checkpoint.totalSize, checkpoint.sha256)), files)
                  else (.ok (0, none), files.discard)

def acceptBegin (expected : Option (ℕ × String)) :
    Option StreamReply → Except DownloadError StreamFileInfo
  | none => .error .closedBeforeBegin
  | some (.fileStreamBegin path totalSize offset length sha256) =>
      if path ≠ remote then .error .pathMismatch
      else if totalSize > streamFileMaxBytes ∨ offset > totalSize ∨ length > totalSize - offset then
        .error .invalidBounds
      else if expected.any fun known => known.1 ≠ totalSize ∨ known.2 ≠ sha256 then
        .error .remoteChanged
      else if validSha256 sha256 = false then .error .invalidSha256
      else .ok ⟨totalSize, offset, length, sha256⟩
  | some (.error code message) => .error (.remote code message)
  | some (.failed text) => .error (.transport text)
  | some misplaced => .error (.unexpectedResponse (c.debug misplaced))

/-- The loop over the chunks, which are appended to the temporary file. -/
def receiveChunks (info : StreamFileInfo) :
    ℕ → List StreamReply → Bytes → Except DownloadError StreamFileInfo × Bytes
  | _, [], temporary => (.error .closedBeforeEnd, temporary)
  | received, .fileStreamChunk offset data :: replies, temporary =>
      if data = [] ∨ data.length > fileStreamChunkBytes then (.error .invalidChunk, temporary)
      else if offset ≠ info.offset + received then (.error .chunkOffset, temporary)
      else if received + data.length ≥ 2 ^ 64 then (.error .byteCountOverflow, temporary)
      else if received + data.length > info.length then (.error .exceededRange, temporary)
      else receiveChunks info (received + data.length) replies (temporary ++ data)
  | received, .fileStreamEnd bytes sha256 :: _, temporary =>
      if bytes ≠ received ∨ received ≠ info.length ∨ sha256 ≠ info.sha256 then
        (.error .endMismatch, temporary)
      else (.ok info, temporary)
  | _, .error code message :: _, temporary => (.error (.remote code message), temporary)
  | _, .failed text :: _, temporary => (.error (.transport text), temporary)
  | _, misplaced :: _, temporary => (.error (.unexpectedInStream (c.debug misplaced)), temporary)

def receiveFileStream (offset : ℕ) (expected : Option (ℕ × String)) (replies : List StreamReply)
    (files : DownloadFiles) : Except DownloadError StreamFileInfo × DownloadFiles :=
  match c.acceptBegin remote expected replies.head? with
  | .error error => (.error error, files)
  | .ok info =>
      -- The checkpoint is replaced by a rename, before a byte is written.
      let checkpoint := c.json.encode ⟨remote, info.totalSize, info.sha256⟩
      let files := { files with metadata := some checkpoint }
      if info.offset ≠ offset then (.error (.resumedAt info.offset offset), files)
      else
        let (result, temporary) :=
          c.receiveChunks info 0 replies.tail (files.temporary.getD [])
        (result, { files with temporary := some temporary })

/-- What follows a stream that was received: the whole file is checked, then renamed. -/
def install (info : StreamFileInfo) (files : DownloadFiles) :
    Except DownloadError StreamFileInfo × DownloadFiles :=
  match files.temporary with
  | none => (.error .temporaryMissing, files)
  | some temporary =>
      if temporary.length ≠ info.totalSize then
        (.error (.endedAt temporary.length info.totalSize), files)
      else if temporary.length > streamFileMaxBytes then (.error .tooLarge, files)
      else if c.sha256 temporary ≠ info.sha256 then (.error .digestMismatch, files)
      else (.ok info, ⟨none, none, some temporary⟩)

def attempt (answers : ℕ → List StreamReply) (files : DownloadFiles) : DownloadAttempt :=
  match c.resumePoint remote files with
  | (.error error, files) => .ended (.error error) files
  | (.ok (offset, expected), files) =>
      match c.receiveFileStream remote offset expected (answers offset) files with
      | (.ok info, files) =>
          let (result, files) := c.install info files
          .ended result files
      | (.error error, files) =>
          if retryableConnectionError error then .interrupted error files
          else .ended (.error error) files.discard

/-- The loop of `download_file_with_retry`, with the number of retries that are left. -/
def downloadLoop (peer : DownloadPeer) :
    ℕ → DownloadFiles → Except DownloadError StreamFileInfo × DownloadFiles
  | 0, files =>
      match c.attempt remote (peer.answers 0) files with
      | .ended result files => (result, files)
      | .interrupted error files => (.error error, files)
  | left + 1, files =>
      match c.attempt remote (peer.answers (left + 1)) files with
      | .ended result files => (result, files)
      | .interrupted _ files =>
          match peer.reconnectError left with
          | some text => (.error (.transport text), files)
          | none => downloadLoop peer left files

def downloadFileWithRetry (peer : DownloadPeer) (files : DownloadFiles) :
    Except DownloadError StreamFileInfo × DownloadFiles :=
  c.downloadLoop remote peer 3 files

end DownloadClient

def fileReadErrorCode (message : String) : String :=
  if containsText message "No such file" || containsText message "not found" ||
      containsText message "does not exist" || containsText message "resolve workspace path" then
    "file_not_found"
  else if containsText message "path must be" || containsText message "workspace path" ||
      containsText message "refusing to follow symlink" ||
      containsText message "escapes the configured root" then
    "invalid_path"
  else if containsText message "range" || containsText message "offset" then "invalid_range"
  else if containsText message "file exceeds" then "file_too_large"
  else if containsText message "changed while streaming" then "file_changed"
  else "file_read_failed"

def offsetBeyondEnd : String := "file stream offset is beyond end of file"

/-- The chunks of the bytes from a position on: each read returns some of them. -/
inductive StreamChunks : ℕ → Bytes → List StreamReply → Prop
  | done (position : ℕ) : StreamChunks position [] []
  | read {position : ℕ} {data rest : Bytes} {replies : List StreamReply} :
      data ≠ [] → data.length ≤ fileStreamChunkBytes →
      StreamChunks (position + data.length) rest replies →
      StreamChunks position (data ++ rest) (.fileStreamChunk position data :: replies)

/-- The answers of `send_file_stream` for a file that does not change. -/
inductive StreamServes (sha256 : Bytes → String) (path : String) (content : Bytes) (offset : ℕ) :
    List StreamReply → Prop
  | beyondEnd : content.length < offset →
      StreamServes sha256 path content offset [.error (fileReadErrorCode offsetBeyondEnd) offsetBeyondEnd]
  | range {chunks : List StreamReply} : offset ≤ content.length →
      StreamChunks offset (content.drop offset) chunks →
      StreamServes sha256 path content offset
        (.fileStreamBegin path content.length offset (content.length - offset) (sha256 content) ::
          (chunks ++ [.fileStreamEnd (content.length - offset) (sha256 content)]))

def DownloadPeer.Faithful (peer : DownloadPeer) (sha256 : Bytes → String) (path : String)
    (content : Bytes) : Prop :=
  ∀ attempt offset, StreamServes sha256 path content offset (peer.answers attempt offset)

/-- What no call gets out of: a checkpoint that is too large to be read, or a current one
beside bytes that do not extend to the remote file. -/
def DownloadClient.Wedged (c : DownloadClient) (remote : String) (content : Bytes)
    (files : DownloadFiles) : Prop :=
  ∃ metadata, files.metadata = some metadata ∧
    (metadata.length > maxClientMetadataBytes ∨
      c.json.decode metadata = some ⟨remote, content.length, c.sha256 content⟩ ∧
        ∃ temporary, files.temporary = some temporary ∧ temporary.length ≤ content.length ∧
          c.sha256 (temporary ++ content.drop temporary.length) ≠ c.sha256 content)

end Asp
