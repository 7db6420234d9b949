import Asp.Lib.Codec
import Asp.Spec.EventLog

/-! Serializers for the stored types, in the manner of `postcard`: varints, length-prefixed
sequences, fields in order and tagged alternatives. -/

set_option maxRecDepth 20000

namespace Asp

open Std Framing

def outputStreamCodec : Codec OutputStream :=
  Codec.bool.via (fun stream => stream matches .stderr) (fun b => if b then .stderr else .stdout)
    (fun stream => by cases stream <;> rfl)

def eventKindCodec : Codec EventKind :=
  open Codec in
  (sum unit <| sum (pair nat (pair text (pair (option nat) (option nat)))) <|
    sum (pair nat (pair outputStreamCodec (pair nat (list byte)))) <| sum (pair nat (option int)) <|
    sum unit <| sum nat <| sum (pair text nat) <|
    sum (pair nat (pair text (pair text (pair nat text)))) <|
    sum (pair nat (pair text (pair nat (pair int (pair bool (option text)))))) <|
    sum (pair nat (pair text (pair text (pair nat (option text))))) (pair text nat)).via
  (fun
    | .sessionCreated => .inl ()
    | .processStarted process command pid request => .inr (.inl (process, command, pid, request))
    | .processOutput process stream offset data => .inr (.inr (.inl (process, stream, offset, data)))
    | .processExited process code => .inr (.inr (.inr (.inl (process, code))))
    | .ptyStarted => .inr (.inr (.inr (.inr (.inl ()))))
    | .ptyStateAdvanced generation => .inr (.inr (.inr (.inr (.inr (.inl generation)))))
    | .fileChanged path version => .inr (.inr (.inr (.inr (.inr (.inr (.inl (path, version)))))))
    | .fileMutation request hash path version sha256 =>
        .inr (.inr (.inr (.inr (.inr (.inr (.inr (.inl (request, hash, path, version, sha256))))))))
    | .signalApplied request hash process signal success message =>
        .inr (.inr (.inr (.inr (.inr (.inr (.inr (.inr
          (.inl (request, hash, process, signal, success, message)))))))))
    | .artifactCreated request hash artifact size name =>
        .inr (.inr (.inr (.inr (.inr (.inr (.inr (.inr (.inr
          (.inl (request, hash, artifact, size, name))))))))))
    | .artifactDeleted artifact size =>
        .inr (.inr (.inr (.inr (.inr (.inr (.inr (.inr (.inr (.inr (artifact, size)))))))))))
  (fun
    | .inl () => .sessionCreated
    | .inr (.inl (process, command, pid, request)) => .processStarted process command pid request
    | .inr (.inr (.inl (process, stream, offset, data))) => .processOutput process stream offset data
    | .inr (.inr (.inr (.inl (process, code)))) => .processExited process code
    | .inr (.inr (.inr (.inr (.inl ())))) => .ptyStarted
    | .inr (.inr (.inr (.inr (.inr (.inl generation))))) => .ptyStateAdvanced generation
    | .inr (.inr (.inr (.inr (.inr (.inr (.inl (path, version))))))) => .fileChanged path version
    | .inr (.inr (.inr (.inr (.inr (.inr (.inr (.inl (request, hash, path, version, sha256)))))))) =>
        .fileMutation request hash path version sha256
    | .inr (.inr (.inr (.inr (.inr (.inr (.inr (.inr
          (.inl (request, hash, process, signal, success, message))))))))) =>
        .signalApplied request hash process signal success message
    | .inr (.inr (.inr (.inr (.inr (.inr (.inr (.inr (.inr
          (.inl (request, hash, artifact, size, name)))))))))) =>
        .artifactCreated request hash artifact size name
    | .inr (.inr (.inr (.inr (.inr (.inr (.inr (.inr (.inr (.inr (artifact, size)))))))))) =>
        .artifactDeleted artifact size)
  (fun kind => by cases kind <;> rfl)

def eventCodec : Codec Event :=
  open Codec in
  (pair nat (pair nat eventKindCodec)).via (fun e => (e.id, e.unixMs, e.kind))
    (fun (id, unixMs, kind) => ⟨id, unixMs, kind⟩) (fun _ => rfl)

def processRecordCodec : Codec ProcessRecord :=
  open Codec in
  (pair text (pair bool (pair (option int) (pair (option nat) (pair (option nat) (pair (option nat)
    (pair nat nat))))))).via
    (fun r => (r.command, r.running, r.exitCode, r.exitUnixMs, r.pid, r.pidStartTime, r.stdoutBytes,
      r.stderrBytes))
    (fun (command, running, exitCode, exitUnixMs, pid, pidStartTime, stdoutBytes, stderrBytes) =>
      ⟨command, running, exitCode, exitUnixMs, pid, pidStartTime, stdoutBytes, stderrBytes⟩)
    (fun _ => rfl)

def processRequestCodec : Codec ProcessRequest :=
  open Codec in
  (pair text (pair (option text) (pair nat nat))).via
    (fun r => (r.command, r.commandHash, r.processId, r.startedEventId))
    (fun (command, commandHash, processId, startedEventId) =>
      ⟨command, commandHash, processId, startedEventId⟩)
    (fun _ => rfl)

def fileRequestCodec : Codec FileRequest :=
  open Codec in
  (pair text (pair text (pair nat text))).via (fun r => (r.requestHash, r.path, r.version, r.sha256))
    (fun (requestHash, path, version, sha256) => ⟨requestHash, path, version, sha256⟩) (fun _ => rfl)

def signalRequestCodec : Codec SignalRequest :=
  open Codec in
  (pair text (pair nat (pair int (pair bool (option text))))).via
    (fun r => (r.requestHash, r.processId, r.signal, r.success, r.message))
    (fun (requestHash, processId, signal, success, message) =>
      ⟨requestHash, processId, signal, success, message⟩)
    (fun _ => rfl)

def artifactRequestCodec : Codec ArtifactRequest :=
  open Codec in
  (pair text (pair text (pair nat (pair (option text) nat)))).via
    (fun r => (r.requestHash, r.artifactId, r.totalSize, r.name, r.eventId))
    (fun (requestHash, artifactId, totalSize, name, eventId) =>
      ⟨requestHash, artifactId, totalSize, name, eventId⟩)
    (fun _ => rfl)

def artifactRecordCodec : Codec ArtifactRecord :=
  open Codec in
  (pair text (pair nat (pair (option text) (pair nat nat)))).via
    (fun r => (r.artifactId, r.totalSize, r.name, r.createdEventId, r.createdUnixMs))
    (fun (artifactId, totalSize, name, createdEventId, createdUnixMs) =>
      ⟨artifactId, totalSize, name, createdEventId, createdUnixMs⟩)
    (fun _ => rfl)

def eventConsumerCodec : Codec EventConsumer :=
  open Codec in
  (pair nat nat).via (fun r => (r.acknowledgedEventId, r.lastSeenUnixMs))
    (fun (acknowledgedEventId, lastSeenUnixMs) => ⟨acknowledgedEventId, lastSeenUnixMs⟩) (fun _ => rfl)

def snapshotCodec : Codec SessionSnapshotData :=
  open Codec in
  (pair nat (pair nat (pair (option nat) (pair (map nat processRecordCodec)
    (pair (map nat processRequestCodec) (pair (map text nat) (pair (map nat fileRequestCodec)
    (pair (map nat signalRequestCodec) (pair (map nat artifactRequestCodec)
    (pair (map text artifactRecordCodec) (pair bool nat))))))))))).via
    (fun s => (s.sessionId, s.throughEventId, s.oldestEventUnixMs, s.processes, s.processRequests,
      s.fileVersions, s.fileRequests, s.signalRequests, s.artifactRequests, s.artifacts,
      s.ptyStarted, s.ptyGeneration))
    (fun (sessionId, throughEventId, oldestEventUnixMs, processes, processRequests, fileVersions,
        fileRequests, signalRequests, artifactRequests, artifacts, ptyStarted, ptyGeneration) =>
      ⟨sessionId, throughEventId, oldestEventUnixMs, processes, processRequests, fileVersions,
        fileRequests, signalRequests, artifactRequests, artifacts, ptyStarted, ptyGeneration⟩)
    (fun _ => rfl)

/-- `to_allocvec` and `from_bytes`, which rejects bytes that are left over. -/
def Message.ofCodec {α : Type} (C : Codec α) : Message α where
  encode := C.encode
  decode bytes :=
    match C.decode bytes with
    | some (x, []) => some x
    | _ => none
  decode_encode x := by
    have h := C.decode_encode x []
    rw [List.append_nil] at h
    rw [h]

def crc32Byte (crc : UInt32) (b : UInt8) : UInt32 :=
  (List.range 8).foldl (fun crc _ => if crc &&& 1 = 1 then crc >>> 1 ^^^ 0xEDB88320 else crc >>> 1)
    (crc ^^^ b.toUInt32)

def crc32 (bytes : Bytes) : UInt32 := bytes.foldl crc32Byte 0xFFFFFFFF ^^^ 0xFFFFFFFF

example : crc32 (asBytes "123456789") = 0xCBF43926 := by decide

/-- The bytes as a number, in 64 hexadecimal digits: a stand-in for SHA-256 on
short inputs. -/
def hexDigest (bytes : Bytes) : String :=
  let n := ofBe (1 :: bytes)
  String.ofList ((List.range 64).map fun k => Nat.digitChar (n / 16 ^ (63 - k) % 16))

def postcard : Crates where
  sha256 := hexDigest
  crc32 := crc32
  event := .ofCodec eventCodec
  snapshot := .ofCodec snapshotCodec
  consumers := .ofCodec (Codec.map Codec.text eventConsumerCodec)

end Asp
