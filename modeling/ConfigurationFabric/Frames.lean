import ConfigurationFabric.Codec
import ConfigurationFabric.Protocol
import ConfigurationFabric.Library.Chunked

/-! Wire framing. -/

namespace ConfigurationFabric

open LittleEndian

inductive FrameType
  | invalid | hello | helloAck | helloConfirm | authReject
  | prepare | prepareAck | prepareReject | chunk | chunkAck | transferComplete | transferResult | stage | stageAck
  | applyPrepare | applyPrepareAck | applyCommit | applyCommitAck | applyAbort | applyAbortAck
  | deliveryAck | deliveryNack | reconcileRequest | reconcileReport | retire | retireAck | ping | pong
  | goodbye | error | controlHello | controlHelloAck | controlRequest | controlResponse
  deriving DecidableEq

def frameTypeName : FrameType → String
  | .invalid => "invalid" | .hello => "hello" | .helloAck => "hello-ack" | .helloConfirm => "hello-confirm"
  | .authReject => "auth-reject" | .prepare => "prepare" | .prepareAck => "prepare-ack"
  | .prepareReject => "prepare-reject" | .chunk => "chunk" | .chunkAck => "chunk-ack"
  | .transferComplete => "transfer-complete" | .transferResult => "transfer-result" | .stage => "stage"
  | .stageAck => "stage-ack" | .applyPrepare => "apply-prepare" | .applyPrepareAck => "apply-prepare-ack"
  | .applyCommit => "apply-commit" | .applyCommitAck => "apply-commit-ack" | .applyAbort => "apply-abort"
  | .applyAbortAck => "apply-abort-ack" | .deliveryAck => "delivery-ack" | .deliveryNack => "delivery-nack"
  | .reconcileRequest => "reconcile-request" | .reconcileReport => "reconcile-report" | .retire => "retire"
  | .retireAck => "retire-ack" | .ping => "ping" | .pong => "pong" | .goodbye => "goodbye" | .error => "error"
  | .controlHello => "control-hello" | .controlHelloAck => "control-hello-ack"
  | .controlRequest => "control-request" | .controlResponse => "control-response"

def FrameType.value : FrameType → ℕ
  | .invalid => 0 | .hello => 10 | .helloAck => 11 | .helloConfirm => 12 | .authReject => 13 | .prepare => 30
  | .prepareAck => 31 | .prepareReject => 32 | .chunk => 33 | .chunkAck => 34 | .transferComplete => 35
  | .transferResult => 36 | .stage => 37 | .stageAck => 38 | .applyPrepare => 39 | .applyPrepareAck => 40
  | .applyCommit => 41 | .applyCommitAck => 42 | .applyAbort => 43 | .applyAbortAck => 44 | .deliveryAck => 80
  | .deliveryNack => 81 | .reconcileRequest => 100 | .reconcileReport => 101 | .retire => 120 | .retireAck => 121
  | .ping => 122 | .pong => 123 | .goodbye => 140 | .error => 141 | .controlHello => 150 | .controlHelloAck => 151
  | .controlRequest => 152 | .controlResponse => 153

/-- The known types, the name of type 0 among them. -/
def FrameType.ofValue : ℕ → Option FrameType
  | 0 => some .invalid | 10 => some .hello | 11 => some .helloAck | 12 => some .helloConfirm
  | 13 => some .authReject | 30 => some .prepare | 31 => some .prepareAck | 32 => some .prepareReject
  | 33 => some .chunk | 34 => some .chunkAck | 35 => some .transferComplete | 36 => some .transferResult
  | 37 => some .stage | 38 => some .stageAck | 39 => some .applyPrepare | 40 => some .applyPrepareAck
  | 41 => some .applyCommit | 42 => some .applyCommitAck | 43 => some .applyAbort | 44 => some .applyAbortAck
  | 80 => some .deliveryAck | 81 => some .deliveryNack | 100 => some .reconcileRequest
  | 101 => some .reconcileReport | 120 => some .retire | 121 => some .retireAck | 122 => some .ping
  | 123 => some .pong | 140 => some .goodbye | 141 => some .error | 150 => some .controlHello
  | 151 => some .controlHelloAck | 152 => some .controlRequest | 153 => some .controlResponse
  | _ => none

def kFrameMagic : ℕ := 0x4D524643
def kFrameHeaderBytes : ℕ := 24
def kFrameFlagKnownMask : ℕ := 3

namespace Wire

structure FrameHeader where
  wireVersion : ℕ := kWireVersion
  type : FrameType := .invalid
  flags : ℕ := 0
  reserved : ℕ := 0
  payloadLength : ℕ := 0
  headerCrc : ℕ := 0
  payloadCrc : ℕ := 0
  deriving DecidableEq

structure Frame where
  header : FrameHeader
  payload : Bytes
  deriving DecidableEq

/-- The bits of a number that a mask does not name. -/
def unknownBits (mask value : ℕ) : ℕ := value - (value &&& mask)

def encodeFrameHeader (h : FrameHeader) : Bytes :=
  let fields := store 4 kFrameMagic ++ store 2 h.wireVersion ++ store 2 h.type.value ++ store 2 h.flags ++
    store 2 h.reserved ++ store 4 h.payloadLength
  fields ++ store 4 (crc32c fields).toNat ++ store 4 h.payloadCrc

def decodeFrameHeader (bytes : Bytes) (maxPayloadBytes : ℕ) : Result FrameHeader :=
  if bytes.length < kFrameHeaderBytes then
    .fail .truncatedFrame "stream ended inside a frame header" (toString bytes.length)
  else if maxPayloadBytes > kAbsoluteMaxPayloadBytes then
    .fail .internal "configured payload ceiling exceeds the protocol ceiling"
  else if load (bytes.take 4) ≠ kFrameMagic then
    .fail .protocolViolation
      "frame magic does not match; the stream is not framed by this protocol or it has desynchronized"
  else if (crc32c (bytes.take 16)).toNat ≠ load ((bytes.drop 16).take 4) then
    .fail .integrityFailure "frame header checksum does not match"
  else
    let wireVersion := load ((bytes.drop 4).take 2)
    if wireVersion ≠ kWireVersion then
      .fail .unsupportedVersion "frame wire version is not supported" (toString wireVersion)
    else
      let rawType := load ((bytes.drop 6).take 2)
      match FrameType.ofValue rawType with
      | none => .fail .unexpectedMessage "frame carries an undefined message type" (toString rawType)
      | some type =>
        let flags := load ((bytes.drop 8).take 2)
        let reserved := load ((bytes.drop 10).take 2)
        let payloadLength := load ((bytes.drop 12).take 4)
        let payloadCrc := load ((bytes.drop 20).take 4)
        if unknownBits kFrameFlagKnownMask flags ≠ 0 then
          .fail .protocolViolation "frame carries unknown flag bits" (toString flags)
        else if reserved ≠ 0 then .fail .protocolViolation "frame reserved field must be zero"
        else if payloadLength > maxPayloadBytes then
          .fail .oversizePayload "frame declares a payload larger than the negotiated maximum"
            (toString payloadLength ++ " > " ++ toString maxPayloadBytes)
        else if payloadLength = 0 ∧ payloadCrc ≠ 0 then
          .fail .protocolViolation "empty frame declares a non-zero payload checksum"
        else .ok { wireVersion, type, flags, reserved, payloadLength, payloadCrc }

/-- The header that goes in front of a payload. -/
def headerOf (type : FrameType) (flags : ℕ) (payload : Bytes) : FrameHeader where
  type := type
  flags := flags
  payloadLength := payload.length
  payloadCrc := if payload = [] then 0 else (crc32c payload).toNat

def encodeFrame (type : FrameType) (flags : ℕ) (payload : Bytes) (maxPayloadBytes : ℕ) : Result Bytes :=
  if maxPayloadBytes > kAbsoluteMaxPayloadBytes then
    .fail .invalidArgument "payload ceiling exceeds the protocol ceiling"
  else if payload.length > maxPayloadBytes then
    .fail .oversizePayload "payload exceeds the negotiated maximum"
      (toString payload.length ++ " > " ++ toString maxPayloadBytes)
  else if unknownBits kFrameFlagKnownMask flags ≠ 0 then
    .fail .invalidArgument "cannot encode unknown flag bits"
  else .ok (encodeFrameHeader (headerOf type flags payload) ++ payload)

structure FrameDecoder where
  maxPayloadBytes : ℕ
  buffer : Bytes := []
  offset : ℕ := 0
  deriving DecidableEq

namespace FrameDecoder

/-- The bytes that have not been consumed. -/
def remaining (d : FrameDecoder) : Bytes := d.buffer.drop d.offset

def buffered (d : FrameDecoder) : ℕ := d.buffer.length - d.offset

def compact (d : FrameDecoder) : FrameDecoder :=
  if d.offset > 0 ∧ d.offset = d.buffer.length then { d with buffer := [], offset := 0 }
  else if d.offset > 0 ∧ d.offset > d.buffer.length / 2 then { d with buffer := d.buffer.drop d.offset, offset := 0 }
  else d

/-- The complete frames from `offset` on, and the offset behind them. -/
def drain (maxPayloadBytes : ℕ) (buffer : Bytes) (offset : ℕ) : Status × List Frame × ℕ :=
  let available := buffer.length - offset
  if available < kFrameHeaderBytes then (.ok (), [], offset)
  else
    match decodeFrameHeader ((buffer.drop offset).take kFrameHeaderBytes) maxPayloadBytes with
    | .error e => (.error e, [], offset)
    | .ok header =>
      let total := kFrameHeaderBytes + header.payloadLength
      if available < total then (.ok (), [], offset)
      else
        let payload := (buffer.drop (offset + kFrameHeaderBytes)).take header.payloadLength
        if payload ≠ [] ∧ (crc32c payload).toNat ≠ header.payloadCrc then
          (.fail .integrityFailure "frame payload checksum does not match" (frameTypeName header.type), [], offset)
        else
          let (status, frames, offset) := drain maxPayloadBytes buffer (offset + total)
          (status, ⟨header, payload⟩ :: frames, offset)
termination_by buffer.length - offset
decreasing_by
  have hpos : kFrameHeaderBytes = 24 := rfl
  omega

def feed (d : FrameDecoder) (data : Bytes) : Status × List Frame × FrameDecoder :=
  if data = [] then (.ok (), [], d)
  else
    let d := d.compact
    match checkedAdd kFrameHeaderBytes d.maxPayloadBytes with
    | none => (.fail .internal "frame size ceiling overflowed", [], d)
    | some ceiling =>
      match checkedAdd d.buffer.length data.length with
      | none => (.fail .arithmeticOverflow "receive buffer size overflowed", [], d)
      | some _ =>
        let buffer := d.buffer ++ data
        let (status, frames, offset) := drain d.maxPayloadBytes buffer d.offset
        let d := { d with buffer, offset }
        match status with
        | .error e => (.error e, frames, d)
        | .ok () =>
          if buffer.length - offset > ceiling then
            (.fail .oversizePayload "decoder buffered more than one maximum frame" (toString (buffer.length - offset)),
              frames, d)
          else (.ok (), frames, d)

/-- One `feed` for each piece, up to the first error. -/
def feedAll (d : FrameDecoder) : List Bytes → Status × List Frame × FrameDecoder
  | [] => (.ok (), [], d)
  | data :: rest =>
    match d.feed data with
    | (.error e, frames, d) => (.error e, frames, d)
    | (.ok (), frames, d) =>
      let (status, more, d) := feedAll d rest
      (status, frames ++ more, d)

def finish (d : FrameDecoder) (what : String) : Status :=
  if d.buffered ≠ 0 then
    .fail .truncatedFrame "stream ended with a partially received frame"
      (what ++ ": " ++ toString d.buffered ++ " byte(s)")
  else .ok ()

end FrameDecoder

end Wire

end ConfigurationFabric
