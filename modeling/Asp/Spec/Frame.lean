import Asp.Lib.Framing
import Asp.Spec.Basic

/-! Stream frames of the two protocol versions: `encode_frame_payload` with its
compression heuristic, `decode_frame_payload` and `frame_decoded_len`. Zlib is a
parameter: its decoder undoes its encoder, and does anything on other input. -/

namespace Asp

open Framing

def protocolVersion : ℕ := 17
def legacyProtocolVersion : ℕ := 16
def supportedProtocolVersions : List ℕ := [legacyProtocolVersion, protocolVersion]

def frameHeaderBytes : ℕ := 7
def maxWireFrameBytes : ℕ := maxFrameBytes + frameHeaderBytes
def frameMagic : Bytes := [65, 70]
def frameEncodingPlain : UInt8 := 0
def frameEncodingZlib : UInt8 := 1
def frameCompressionMinBytes : ℕ := 1024
def frameCompressionHeuristicMinBytes : ℕ := 64 * 1024
def frameCompressionSampleBytes : ℕ := 4096
def frameCompressionHighDiversityBytes : ℕ := 240

structure Zlib where
  compress : Bytes → Bytes
  /-- What reading a stream yields, and whether it then ends without an error. -/
  decoder : Bytes → Bytes × Bool
  decoder_compress : ∀ payload, decoder (compress payload) = (payload, true)
  /-- A zlib stream has a header. -/
  compress_ne_nil : ∀ payload, compress payload ≠ []

/-- `read_to_end` of the decoder behind `Read::take`: an error after the limit is not seen. -/
def Zlib.readLimited (z : Zlib) (body : Bytes) (limit : ℕ) : Option Bytes :=
  let (decoded, ended) := z.decoder body
  if limit ≤ decoded.length then some (decoded.take limit)
  else if ended then some decoded
  else none

inductive FrameError where
  | legacyTooLarge
  | unsupportedVersion (version : ℕ)
  | tooLarge
  | lengthOverflow
  | short
  | marker
  | decodedTooLarge
  | plainLength
  | emptyCompressed
  | decompress
  | compressedLength
  | unknownEncoding (encoding : UInt8)
  deriving DecidableEq

/-- The three windows that the heuristic looks at. -/
def frameSample (payload : Bytes) : Bytes :=
  let window := min frameCompressionSampleBytes payload.length
  let starts := [0, (payload.length - window) / 2, payload.length - window]
  starts.flatMap fun start => (payload.drop start).take window

def shouldAttemptFrameCompression (payload : Bytes) : Bool :=
  if payload.length < frameCompressionMinBytes then false
  else if payload.length < frameCompressionHeuristicMinBytes then true
  else
    let sample := frameSample payload
    let histogram := (List.range 256).map fun byte => sample.count (UInt8.ofNat byte)
    let distinct := histogram.countP (· ≠ 0)
    let largestBucket := histogram.foldl max 0
    !(decide (frameCompressionHighDiversityBytes ≤ distinct) &&
      decide (largestBucket ≤ sample.length / 32))

/-- An envelope: marker, encoding, the length of the message, and the body. -/
def envelope (encoding : UInt8) (originalLen : ℕ) (body : Bytes) : Bytes :=
  frameMagic ++ [encoding] ++ be32 originalLen ++ body

section Codec

variable (z : Zlib)

def encodeFramePayload (payload : Bytes) : Except FrameError Bytes :=
  if payload.length > maxFrameBytes then .error .tooLarge
  else if payload.length ≥ 2 ^ 32 then .error .lengthOverflow
  else
    let plain := envelope frameEncodingPlain payload.length payload
    if shouldAttemptFrameCompression payload then
      let compressed := z.compress payload
      let framed := envelope frameEncodingZlib payload.length compressed
      if compressed.length < payload.length ∧ framed.length ≤ maxWireFrameBytes then .ok framed
      else .ok plain
    else .ok plain

def decodeFramePayload (payload : Bytes) : Except FrameError Bytes :=
  if payload.length < frameHeaderBytes then .error .short
  else if payload.take frameMagic.length ≠ frameMagic then .error .marker
  else
    let encoding := payload.getD frameMagic.length 0
    let originalLen := ofBe ((payload.drop (frameMagic.length + 1)).take 4)
    if originalLen > maxFrameBytes then .error .decodedTooLarge
    else
      let body := payload.drop frameHeaderBytes
      if encoding = frameEncodingPlain then
        if body.length ≠ originalLen then .error .plainLength else .ok body
      else if encoding = frameEncodingZlib then
        if body = [] then .error .emptyCompressed
        else
          match z.readLimited body (originalLen + 1) with
          | none => .error .decompress
          | some decoded =>
              if decoded.length ≠ originalLen then .error .compressedLength else .ok decoded
      else .error (.unknownEncoding encoding)

def frameDecodedLen (payloadHeader : Bytes) : Except FrameError ℕ :=
  if payloadHeader.length < frameHeaderBytes then .error .short
  else if payloadHeader.take frameMagic.length ≠ frameMagic then .error .marker
  else
    let encoding := payloadHeader.getD frameMagic.length 0
    if ¬ (encoding = frameEncodingPlain ∨ encoding = frameEncodingZlib) then
      .error (.unknownEncoding encoding)
    else
      let originalLen := ofBe ((payloadHeader.drop (frameMagic.length + 1)).take 4)
      if originalLen > maxFrameBytes then .error .decodedTooLarge else .ok originalLen

def encodeFramePayloadForVersion (payload : Bytes) (version : ℕ) : Except FrameError Bytes :=
  if version = legacyProtocolVersion then
    if payload.length > maxFrameBytes then .error .legacyTooLarge else .ok payload
  else if version = protocolVersion then encodeFramePayload z payload
  else .error (.unsupportedVersion version)

def decodeFramePayloadForVersion (payload : Bytes) (version : ℕ) : Except FrameError Bytes :=
  if version = legacyProtocolVersion then
    if payload.length > maxFrameBytes then .error .legacyTooLarge else .ok payload
  else if version = protocolVersion then decodeFramePayload z payload
  else .error (.unsupportedVersion version)

end Codec

end Asp
