import ConfigurationFabric.FrameChannel
import ConfigurationFabric.Replies

/-! The messages of a session as the frames they are sent in, and what the other side reads. -/

namespace ConfigurationFabric

open LittleEndian
open Reading
open Wire

namespace Message

def type : Message → FrameType
  | hello _ => .hello
  | prepare _ => .prepare
  | chunk _ => .chunk
  | transferComplete _ => .transferComplete
  | stage _ => .stage
  | applyPrepare _ => .applyPrepare
  | applyCommit _ => .applyCommit
  | applyAbort _ => .applyAbort
  | reconcileRequest _ => .reconcileRequest
  | retire _ => .retire
  | ping _ => .ping
  | goodbye => .goodbye
  | unexpected => .invalid

def encode : Message → Result Bytes
  | hello m => encodeHello m
  | prepare m => encodePrepare m
  | chunk m => encodeChunk m
  | transferComplete m => encodeTransferComplete m
  | stage m => encodeStage m
  | applyPrepare m => encodeApplyPrepare m
  | applyCommit m => encodeApplyCommit m
  | applyAbort m => encodeApplyAbort m
  | reconcileRequest m => encodeReconcileRequest m
  | retire m => encodeRetire m
  | ping nonce => encodePing nonce
  | goodbye => encodeGoodbye ⟨.ok, "session complete"⟩
  | unexpected => .ok []

/-- What passes the decoder's checks, of the messages after the handshake. -/
def Readable : Message → Prop
  | prepare m => m.Readable
  | chunk m => m.Readable
  | transferComplete m => m.Readable
  | stage m => m.Readable
  | applyPrepare m => m.Readable
  | applyCommit m => m.Readable
  | applyAbort m => m.Readable
  | reconcileRequest m => m.Readable
  | retire m => m.Readable
  | ping nonce => nonce < 2 ^ 64
  | goodbye => True
  | hello _ | unexpected => False

/-- How an agent's session reads a frame that it dispatches. -/
def ofFrame (f : Wire.Frame) : Result Message :=
  match f.header.type with
  | .prepare => prepare <$> decodePrepare f.payload
  | .chunk => chunk <$> decodeChunk f.payload
  | .transferComplete => transferComplete <$> decodeTransferComplete f.payload
  | .stage => stage <$> decodeStage f.payload
  | .applyPrepare => applyPrepare <$> decodeApplyPrepare f.payload
  | .applyCommit => applyCommit <$> decodeApplyCommit f.payload
  | .applyAbort => applyAbort <$> decodeApplyAbort f.payload
  | .reconcileRequest => reconcileRequest <$> decodeReconcileRequest f.payload
  | .retire => retire <$> decodeRetire f.payload
  | .ping => ping <$> decodePing f.payload
  | .goodbye => (fun _ => goodbye) <$> decodeGoodbye f.payload
  | _ => .ok unexpected

theorem ofFrame_eq {m : Message} {f : Wire.Frame} (hm : m.Readable) (h : f.header.type = m.type) :
    ofFrame f = m.decode f.payload := by
  rw [ofFrame, h]
  cases m with
  | hello | unexpected => exact hm.elim
  | _ => rfl

theorem decode_of_encode {m : Message} {payload : Bytes} (hm : m.Readable) (h : m.encode = .ok payload) :
    m.decode payload = .ok m := by
  have hread {α : Type} {decode : Bytes → Result α} {P : α → Prop} {encode : α → Result Bytes} {v : α}
      (hcanonical : Canonical decode P encode) (hv : P v) (h : encode v = .ok payload) (make : α → Message) :
      make <$> decode payload = .ok (make v) :=
    Result.map_eq_ok.mpr ⟨v, (hcanonical payload v).mpr ⟨hv, h⟩, rfl⟩
  cases m with
  | hello | unexpected => exact hm.elim
  | prepare m => exact hread prepare_canonical hm h _
  | chunk m => exact hread chunk_canonical hm h _
  | transferComplete m => exact hread transferComplete_canonical hm h _
  | stage m => exact hread stage_canonical hm h _
  | applyPrepare m => exact hread applyPrepare_canonical hm h _
  | applyCommit m => exact hread applyCommit_canonical hm h _
  | applyAbort m => exact hread applyAbort_canonical hm h _
  | reconcileRequest m => exact hread reconcileRequest_canonical hm h _
  | retire m => exact hread retire_canonical hm h _
  | ping nonce => exact hread ping_canonical hm h _
  | goodbye =>
    have hreason : GoodbyeMessage.Readable ⟨.ok, "session complete"⟩ := by
      unfold GoodbyeMessage.Readable OfBytes
      decide
    exact hread goodbye_canonical hreason h _

end Message

namespace Reply

def type : Reply → FrameType
  | helloAck _ => .helloAck
  | authReject _ _ => .authReject
  | prepareAck _ => .prepareAck
  | prepareReject _ => .prepareReject
  | chunkAck _ => .chunkAck
  | transferResult _ => .transferResult
  | stageAck _ => .stageAck
  | applyPrepareAck _ => .applyPrepareAck
  | applyCommitAck _ => .applyCommitAck
  | applyAbortAck _ => .applyAbortAck
  | deliveryAck _ => .deliveryAck
  | deliveryNack _ => .deliveryNack
  | reconcileReport _ => .reconcileReport
  | retireAck _ => .retireAck
  | pong _ => .pong

/-- What passes the decoder's checks. -/
def Readable : Reply → Prop
  | helloAck a => a.Readable
  | authReject code detail => AuthRejectMessage.Readable ⟨code, detail⟩
  | prepareAck a => a.Readable
  | prepareReject a => a.Readable
  | chunkAck a => a.Readable
  | transferResult a => a.Readable
  | stageAck a => a.Readable
  | applyPrepareAck a => a.Readable
  | applyCommitAck a => a.Readable
  | applyAbortAck a => a.Readable
  | deliveryAck a => a.Readable
  | deliveryNack a => a.Readable
  | reconcileReport a => a.Readable
  | retireAck a => a.Readable
  | pong nonce => nonce < 2 ^ 64

/-- How the controller's session reads a frame: whichever call takes it, by the decoder for its type. -/
def ofFrame (f : Wire.Frame) : Result Reply :=
  match f.header.type with
  | .helloAck => helloAck <$> decodeHelloAck f.payload
  | .authReject => (fun m => authReject m.code m.detail) <$> decodeAuthReject f.payload
  | .prepareAck => prepareAck <$> decodePrepareAck f.payload
  | .prepareReject => prepareReject <$> decodePrepareReject f.payload
  | .chunkAck => chunkAck <$> decodeChunkAck f.payload
  | .transferResult => transferResult <$> decodeTransferResult f.payload
  | .stageAck => stageAck <$> decodeStageAck f.payload
  | .applyPrepareAck => applyPrepareAck <$> decodeApplyPrepareAck f.payload
  | .applyCommitAck => applyCommitAck <$> decodeApplyCommitAck f.payload
  | .applyAbortAck => applyAbortAck <$> decodeApplyAbortAck f.payload
  | .deliveryAck => deliveryAck <$> decodeDeliveryAck f.payload
  | .deliveryNack => deliveryNack <$> decodeDeliveryNack f.payload
  | .reconcileReport => reconcileReport <$> decodeReconcileReport f.payload
  | .retireAck => retireAck <$> decodeRetireAck f.payload
  | .pong => pong <$> decodePong f.payload
  | type => .fail .unexpectedMessage "no answer of an agent" (frameTypeName type)

theorem ofFrame_eq {r : Reply} {f : Wire.Frame} (h : f.header.type = r.type) : ofFrame f = r.decode f.payload := by
  rw [ofFrame, h]
  cases r with
  | _ => rfl

theorem decode_of_encode {r : Reply} {payload : Bytes} (hr : r.Readable) (h : r.encode = .ok payload) :
    r.decode payload = .ok r := by
  have hread {α : Type} {decode : Bytes → Result α} {P : α → Prop} {encode : α → Result Bytes} {v : α}
      (hcanonical : Canonical decode P encode) (hv : P v) (h : encode v = .ok payload) (make : α → Reply) :
      make <$> decode payload = .ok (make v) :=
    Result.map_eq_ok.mpr ⟨v, (hcanonical payload v).mpr ⟨hv, h⟩, rfl⟩
  cases r with
  | helloAck a => exact hread helloAck_canonical hr h _
  | authReject code detail =>
    have hdecode : decodeAuthReject payload = .ok ⟨code, detail⟩ := (authReject_canonical payload _).mpr ⟨hr, h⟩
    exact Result.map_eq_ok.mpr ⟨_, hdecode, rfl⟩
  | prepareAck a => exact hread prepareAck_canonical hr h _
  | prepareReject a => exact hread prepareReject_canonical hr h _
  | chunkAck a => exact hread chunkAck_canonical hr h _
  | transferResult a => exact hread transferResult_canonical hr h _
  | stageAck a => exact hread stageAck_canonical hr h _
  | applyPrepareAck a => exact hread applyPrepareAck_canonical hr h _
  | applyCommitAck a => exact hread applyCommitAck_canonical hr h _
  | applyAbortAck a => exact hread applyAbortAck_canonical hr h _
  | deliveryAck a => exact hread deliveryAck_canonical hr h _
  | deliveryNack a => exact hread deliveryNack_canonical hr h _
  | reconcileReport a => exact hread reconcileReport_canonical hr h _
  | retireAck a => exact hread retireAck_canonical hr h _
  | pong nonce => exact hread pong_canonical hr h _

end Reply

/-- One side's messages, and how the other side reads a frame. -/
structure Language (α : Type) where
  type : α → FrameType
  encode : α → Result Bytes
  Readable : α → Prop
  read : Wire.Frame → Result α
  reads : ∀ {m payload} {f : Wire.Frame}, Readable m → encode m = .ok payload → f.header.type = type m →
    f.payload = payload → read f = .ok m

namespace Language

/-- What the controller sends after the handshake. -/
def toAgent : Language Message where
  type := Message.type
  encode := Message.encode
  Readable := Message.Readable
  read := Message.ofFrame
  reads hm h htype hpayload := by
    rw [Message.ofFrame_eq hm htype, hpayload]
    exact Message.decode_of_encode hm h

/-- What the agent sends. -/
def toController : Language Reply where
  type := Reply.type
  encode := Reply.encode
  Readable := Reply.Readable
  read := Reply.ofFrame
  reads hr h htype hpayload := by
    rw [Reply.ofFrame_eq htype, hpayload]
    exact Reply.decode_of_encode hr h

variable {α : Type} (L : Language α)

/-- The message goes out in this frame, with whatever flags. -/
structure Puts (m : α) (frame : Wire.Outgoing) : Prop where
  readable : L.Readable m
  type : frame.type = L.type m
  encode : L.encode m = .ok frame.payload

variable {L}

theorem Puts.read {m : α} {frame : Wire.Outgoing} (h : L.Puts m frame) : L.read frame.frame = .ok m :=
  L.reads h.readable h.encode h.type rfl

theorem read_frames {ms : List α} {frames : List Wire.Outgoing} (h : List.Forall₂ L.Puts ms frames) :
    (frames.map Wire.Outgoing.frame).mapM L.read = .ok ms := by
  induction h with
  | nil => rfl
  | cons hput _ ih =>
    rw [List.map_cons, List.mapM_cons, hput.read, ih]
    rfl

/-- However writes are split and fail, wherever the connection is cut and however it is read: what the other side has
read are the messages that were sent, in order and from the first on. -/
def InOrder (L : Language α) : Prop :=
  ∀ (maxPayloadBytes n : ℕ) (ms : List α) (frames : List Wire.Outgoing) (s : Sender) (reads : List Bytes)
    (ending : Error), maxPayloadBytes ≤ n → n ≤ kAbsoluteMaxPayloadBytes → List.Forall₂ L.Puts ms frames →
    Sends { maxPayloadBytes } frames s → (∀ p ∈ reads, p ≠ [] ∧ p.length ≤ kReadBufferBytes) →
    reads.flatten <+: s.stream →
    ∃ k rest, Carries n ending frames s.stream reads k rest ∧
      ((frames.take k).map Wire.Outgoing.frame).mapM L.read = .ok (ms.take k)

theorem inOrder (L : Language α) : L.InOrder := by
  intro maxPayloadBytes n ms frames s reads ending hle hn hputs hsends hreads hcut
  obtain ⟨k, rest, hcarries⟩ := channel_carries n hle hn s hsends reads hreads hcut ending
  exact ⟨k, rest, hcarries, read_frames (List.forall₂_take k hputs)⟩

end Language

/-- Both directions of a session. -/
theorem session_in_order : Language.toAgent.InOrder ∧ Language.toController.InOrder :=
  ⟨Language.inOrder _, Language.inOrder _⟩

def pingFrame (nonce : ℕ) : Wire.Outgoing := ⟨.ping, 0, ByteWriter.u64 nonce⟩

theorem puts_pingFrame {nonce : ℕ} (h : nonce < 2 ^ 64) : Language.toAgent.Puts (.ping nonce) (pingFrame nonce) where
  readable := h
  type := rfl
  encode := by
    change encodePing nonce = .ok (ByteWriter.u64 nonce)
    change Except.ok (ByteWriter.u64 nonce ++ []) = _
    rw [List.append_nil]

/-- The first ping goes out in three writes, the second in one. -/
def firstPing : Sender := (Sender.send { maxPayloadBytes := 64 } (pingFrame 7) [.sent 9, .again, .sent 0, .sent 99]).2

def bothPings : Sender := (firstPing.send (pingFrame 8) [.sent 99]).2

theorem sends_pings : Sends { maxPayloadBytes := 64 } [pingFrame 7, pingFrame 8] bothPings := by
  have hfirst : Sender.send { maxPayloadBytes := 64 } (pingFrame 7) [.sent 9, .again, .sent 0, .sent 99] =
      (some (.ok ()), firstPing) := Prod.ext (by decide) rfl
  have hsecond : firstPing.send (pingFrame 8) [.sent 99] = (some (.ok ()), bothPings) := Prod.ext (by decide) rfl
  exact .sent hfirst (.sent hsecond .nil)

/-- The connection is cut inside the second frame. -/
theorem pings_cut_in_order : ∃ k rest, Carries 64 ⟨.connectionReset, "reset", ""⟩ [pingFrame 7, pingFrame 8] bothPings.stream
    [bothPings.stream.take 20, (bothPings.stream.drop 20).take 30] k rest ∧
      (([pingFrame 7, pingFrame 8].take k).map Wire.Outgoing.frame).mapM Message.ofFrame =
        .ok ([Message.ping 7, .ping 8].take k) :=
  session_in_order.1 64 64 _ _ _ _ _ le_rfl (by decide)
    (.cons (puts_pingFrame (by decide)) (.cons (puts_pingFrame (by decide)) .nil)) sends_pings (by decide)
    (by decide +kernel)

end ConfigurationFabric
