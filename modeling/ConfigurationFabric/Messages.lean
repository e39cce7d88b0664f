import ConfigurationFabric.DistributorSession
import ConfigurationFabric.Handshake
import ConfigurationFabric.StateSnapshot

/-! The messages of the protocol as bytes. -/

namespace ConfigurationFabric

open LittleEndian
open ByteReader

/-! Fields. -/

def readEnum8 {α : Type} (ofValue : ℕ → Option α) : ByteReader α := do
  let raw ← u8
  match ofValue raw with
  | some value => return value
  | none => ByteReader.fail .malformedInput "message carries an unknown enumerator" (toString raw)

def readErrorCode : ByteReader ErrorCode := do
  let raw ← u16
  match ErrorCode.ofValue raw with
  | some code => return code
  | none => ByteReader.fail .malformedInput "message carries an unknown error code" (toString raw)

def readDeliveryState : ByteReader DeliveryState := readEnum8 DeliveryState.ofValue
def readTargetClass : ByteReader TargetClass := readEnum8 TargetClass.ofValue
def readApplyGuarantee : ByteReader ApplyGuarantee := readEnum8 ApplyGuarantee.ofValue
def readGuaranteeRequirement : ByteReader GuaranteeRequirement := readEnum8 GuaranteeRequirement.ofValue
def readRetryDirective : ByteReader RetryDirective := readEnum8 RetryDirective.ofValue
def readTargetId : ByteReader TargetId := identifier parseTargetId
def readConfigKey : ByteReader ConfigKey := identifier parseConfigKey
def readArtifactId : ByteReader ArtifactId := identifier parseArtifactId
def readOptionalArtifactId : ByteReader ArtifactId := optionalIdentifier parseArtifactId
def readDeploymentId : ByteReader DeploymentId := identifier parseDeploymentId
def readOptionalDeploymentId : ByteReader DeploymentId := optionalIdentifier parseDeploymentId
def readNodeId : ByteReader NodeId := identifier parseNodeId
def readSchemaId : ByteReader SchemaId := identifier parseSchemaId
def readGeneration : ByteReader Generation := nonZero "message carries the unset generation 0"

/-- The bytes of a detail, one character each. -/
def readDetail : ByteReader String := do
  return textString (← string kMaxMessageDetailBytes)

def writeDetail (detail : String) : Result Bytes := ByteWriter.string (text detail) kMaxMessageDetailBytes

def checkDetail (detail : String) : Status :=
  if detail.length > kMaxMessageDetailBytes then
    .fail .limitExceeded "message detail exceeds its bound" (toString detail.length)
  else .ok ()

/-- Every decoder reads its fields, lets nothing follow them and then looks at the message as a whole. -/
def decodeMessage {α : Type} (fields : ByteReader α) (check : α → Status) (payload : Bytes) : Result α :=
  StateT.run' (do
    let message ← fields
    requireEnd
    liftM (check message)
    return message) payload

def unchecked {α : Type} (_ : α) : Status := .ok ()

/-! Session establishment. -/

def decodeHelloAck : Bytes → Result HelloAckMessage := decodeMessage
  (do
    let wireVersion ← u16
    let target ← readTargetId
    let targetClass ← readTargetClass
    let guarantee ← readApplyGuarantee
    let term ← u64
    let incarnation ← opaque128
    let nonce ← opaque128
    let maxPayloadBytes ← u32
    let capabilities ← u32
    let committedGeneration ← u64
    let committedDigest ← ByteReader.digest
    let committedArtifact ← readOptionalArtifactId
    let restartCount ← u32
    let authTag ← ByteReader.digest
    return { wireVersion, target, targetClass, guarantee, term, incarnation, nonce, maxPayloadBytes, capabilities,
             committedGeneration, committedDigest, committedArtifact, restartCount, authTag })
  Distributor.checkHelloAck

structure AuthRejectMessage where
  code : ErrorCode := .unauthenticated
  detail : String := ""
  deriving DecidableEq

def encodeAuthReject (m : AuthRejectMessage) : Result Bytes := do
  checkDetail m.detail
  concat [.ok (ByteWriter.u16 m.code.value), writeDetail m.detail]

def decodeAuthReject : Bytes → Result AuthRejectMessage := decodeMessage
  (do
    let code ← readErrorCode
    let detail ← readDetail
    return { code, detail })
  unchecked

/-! Delivery. -/

def encodePrepare (m : PrepareMessage) : Result Bytes :=
  concat [
    encodeIdentifier m.deployment, encodeIdentifier m.key, encodeIdentifier m.artifact,
    .ok (ByteWriter.u64 m.generation), .ok m.digest.1, .ok (ByteWriter.u64 m.sizeBytes), encodeIdentifier m.schema,
    .ok (ByteWriter.u32 m.schemaVersion), .ok (ByteWriter.u8 m.requirement.value),
    .ok (ByteWriter.u8 m.guarantee.value), .ok (ByteWriter.u64 m.authorityEpoch), .ok (ByteWriter.u64 m.attempt),
    .ok (ByteWriter.u64 m.stream), .ok (ByteWriter.u32 m.chunkBytes), .ok (ByteWriter.u64 m.resumeFromOffset)]

def checkPrepare (m : PrepareMessage) : Status :=
  if !m.digest.isSet then .fail .malformedInput "prepare carries the all-zero digest"
  else if m.sizeBytes = 0 then .fail .malformedInput "prepare declares an empty artifact"
  else if m.chunkBytes = 0 ∨ m.chunkBytes > kMaxChunkPayloadBytes then
    .fail .oversizePayload "prepare declares an out-of-range chunk size"
  else if m.stream = 0 then .fail .malformedInput "prepare carries the unset stream id 0"
  else if m.authorityEpoch = 0 then .fail .malformedInput "prepare carries the unset authority epoch 0"
  else .ok ()

def decodePrepare : Bytes → Result PrepareMessage := decodeMessage
  (do
    let deployment ← readDeploymentId
    let key ← readConfigKey
    let artifact ← readArtifactId
    let generation ← readGeneration
    let digest ← ByteReader.digest
    let sizeBytes ← u64
    let schema ← readSchemaId
    let schemaVersion ← u32
    let requirement ← readGuaranteeRequirement
    let guarantee ← readApplyGuarantee
    let authorityEpoch ← u64
    let attempt ← u64
    let stream ← u64
    let chunkBytes ← u32
    let resumeFromOffset ← u64
    return { deployment, key, artifact, generation, digest, sizeBytes, schema, schemaVersion, requirement, guarantee,
             authorityEpoch, attempt, stream, chunkBytes, resumeFromOffset })
  checkPrepare

def encodePrepareAck (m : PrepareAckMessage) : Result Bytes :=
  concat [
    encodeIdentifier m.deployment, .ok (ByteWriter.u64 m.stream), .ok (ByteWriter.u64 m.resumeFromOffset),
    .ok (ByteWriter.u64 m.committedGeneration), .ok m.committedDigest.1,
    .ok (ByteWriter.boolean m.duplicateSuppressed), .ok (ByteWriter.u8 m.priorState.value),
    .ok (ByteWriter.u64 m.priorGeneration), .ok m.priorDigest.1]

def decodePrepareAck : Bytes → Result PrepareAckMessage := decodeMessage
  (do
    let deployment ← readDeploymentId
    let stream ← u64
    let resumeFromOffset ← u64
    let committedGeneration ← u64
    let committedDigest ← ByteReader.digest
    let duplicateSuppressed ← boolean
    let priorState ← readDeliveryState
    let priorGeneration ← u64
    let priorDigest ← ByteReader.digest
    return { deployment, stream, resumeFromOffset, committedGeneration, committedDigest, duplicateSuppressed,
             priorState, priorGeneration, priorDigest })
  unchecked

def encodePrepareReject (m : PrepareRejectMessage) : Result Bytes := do
  checkDetail m.detail
  concat [
    encodeIdentifier m.deployment, .ok (ByteWriter.u16 m.code.value), writeDetail m.detail,
    .ok (ByteWriter.u8 m.observedState.value), .ok (ByteWriter.u64 m.committedGeneration)]

def decodePrepareReject : Bytes → Result PrepareRejectMessage := decodeMessage
  (do
    let deployment ← readDeploymentId
    let code ← readErrorCode
    let detail ← readDetail
    let observedState ← readDeliveryState
    let committedGeneration ← u64
    return { deployment, code, detail, observedState, committedGeneration })
  unchecked

def encodeChunk (m : ChunkMessage) : Result Bytes := do
  if m.data.length > kMaxChunkPayloadBytes then
    .fail .oversizePayload "chunk payload exceeds the protocol maximum" (toString m.data.length)
  concat [
    .ok (ByteWriter.u64 m.stream), .ok (ByteWriter.u64 m.sequence), .ok (ByteWriter.u64 m.offset),
    ByteWriter.string m.data kMaxChunkPayloadBytes]

def checkChunk (m : ChunkMessage) : Status :=
  if m.stream = 0 then .fail .malformedInput "chunk carries the unset stream id"
  else if m.data = [] then .fail .malformedInput "chunk carries no payload"
  else .ok ()

def decodeChunk : Bytes → Result ChunkMessage := decodeMessage
  (do
    let stream ← u64
    let sequence ← u64
    let offset ← u64
    let data ← string kMaxChunkPayloadBytes
    return { stream, sequence, offset, data })
  checkChunk

def encodeChunkAck (m : ChunkAckMessage) : Result Bytes := do
  checkDetail m.detail
  concat [
    .ok (ByteWriter.u64 m.stream), .ok (ByteWriter.u64 m.sequence), .ok (ByteWriter.u16 m.code.value),
    .ok (ByteWriter.u64 m.bytesReceived), writeDetail m.detail]

def decodeChunkAck : Bytes → Result ChunkAckMessage := decodeMessage
  (do
    let stream ← u64
    let sequence ← u64
    let code ← readErrorCode
    let bytesReceived ← u64
    let detail ← readDetail
    return { stream, sequence, code, bytesReceived, detail })
  unchecked

def encodeTransferComplete (m : TransferCompleteMessage) : Result Bytes :=
  concat [
    encodeIdentifier m.deployment, .ok (ByteWriter.u64 m.stream), .ok m.digest.1, .ok (ByteWriter.u64 m.sizeBytes)]

def decodeTransferComplete : Bytes → Result TransferCompleteMessage := decodeMessage
  (do
    let deployment ← readDeploymentId
    let stream ← u64
    let digest ← ByteReader.digest
    let sizeBytes ← u64
    return { deployment, stream, digest, sizeBytes })
  unchecked

def encodeTransferResult (m : TransferResultMessage) : Result Bytes := do
  checkDetail m.detail
  concat [
    encodeIdentifier m.deployment, .ok (ByteWriter.u64 m.stream), .ok (ByteWriter.boolean m.verified),
    .ok (ByteWriter.u64 m.bytesReceived), .ok (ByteWriter.u16 m.code.value), writeDetail m.detail]

def decodeTransferResult : Bytes → Result TransferResultMessage := decodeMessage
  (do
    let deployment ← readDeploymentId
    let stream ← u64
    let verified ← boolean
    let bytesReceived ← u64
    let code ← readErrorCode
    let detail ← readDetail
    return { deployment, stream, verified, bytesReceived, code, detail })
  unchecked

def encodeStage (m : StageMessage) : Result Bytes :=
  concat [
    encodeIdentifier m.deployment, .ok (ByteWriter.u64 m.stream), .ok (ByteWriter.u64 m.generation), .ok m.digest.1]

def decodeStage : Bytes → Result StageMessage := decodeMessage
  (do
    let deployment ← readDeploymentId
    let stream ← u64
    let generation ← readGeneration
    let digest ← ByteReader.digest
    return { deployment, stream, generation, digest })
  unchecked

/-- A deployment, whether it was done, and why not. -/
def writeOutcome (deployment : DeploymentId) (done : Bool) (code : ErrorCode) (detail : String) : Result Bytes := do
  checkDetail detail
  concat [
    encodeIdentifier deployment, .ok (ByteWriter.boolean done), .ok (ByteWriter.u16 code.value), writeDetail detail]

def readOutcome {α : Type} (make : DeploymentId → Bool → ErrorCode → String → α) : ByteReader α := do
  let deployment ← readDeploymentId
  let done ← boolean
  let code ← readErrorCode
  let detail ← readDetail
  return make deployment done code detail

def encodeStageAck (m : StageAckMessage) : Result Bytes := writeOutcome m.deployment m.staged m.code m.detail

def decodeStageAck : Bytes → Result StageAckMessage := decodeMessage (readOutcome StageAckMessage.mk) unchecked

/-- A deployment with the generation and the content it is for. -/
def writeSubject (deployment : DeploymentId) (generation : Generation) (digest : Digest) : Result Bytes :=
  concat [encodeIdentifier deployment, .ok (ByteWriter.u64 generation), .ok digest.1]

def readSubject {α : Type} (make : DeploymentId → Generation → Digest → α) : ByteReader α := do
  let deployment ← readDeploymentId
  let generation ← readGeneration
  let digest ← ByteReader.digest
  return make deployment generation digest

def encodeApplyPrepare (m : ApplyPrepareMessage) : Result Bytes := writeSubject m.deployment m.generation m.digest

def decodeApplyPrepare : Bytes → Result ApplyPrepareMessage :=
  decodeMessage (readSubject ApplyPrepareMessage.mk) unchecked

def encodeApplyPrepareAck (m : ApplyPrepareAckMessage) : Result Bytes :=
  writeOutcome m.deployment m.prepared m.code m.detail

def decodeApplyPrepareAck : Bytes → Result ApplyPrepareAckMessage :=
  decodeMessage (readOutcome ApplyPrepareAckMessage.mk) unchecked

def encodeApplyCommit (m : ApplyCommitMessage) : Result Bytes := writeSubject m.deployment m.generation m.digest

def decodeApplyCommit : Bytes → Result ApplyCommitMessage :=
  decodeMessage (readSubject ApplyCommitMessage.mk) unchecked

def encodeApplyCommitAck (m : ApplyCommitAckMessage) : Result Bytes := do
  checkDetail m.detail
  concat [
    encodeIdentifier m.deployment, .ok (ByteWriter.boolean m.committed), .ok (ByteWriter.u8 m.state.value),
    .ok (ByteWriter.u64 m.committedGeneration), .ok m.committedDigest.1, .ok (ByteWriter.u16 m.code.value),
    writeDetail m.detail]

def decodeApplyCommitAck : Bytes → Result ApplyCommitAckMessage := decodeMessage
  (do
    let deployment ← readDeploymentId
    let committed ← boolean
    let state ← readDeliveryState
    let committedGeneration ← u64
    let committedDigest ← ByteReader.digest
    let code ← readErrorCode
    let detail ← readDetail
    return { deployment, committed, state, committedGeneration, committedDigest, code, detail })
  unchecked

/-- A deployment with its generation and the reason for ending it. -/
def writeEnding (deployment : DeploymentId) (generation : Generation) (reason : String) : Result Bytes := do
  checkDetail reason
  concat [encodeIdentifier deployment, .ok (ByteWriter.u64 generation), writeDetail reason]

def readEnding {α : Type} (make : DeploymentId → Generation → String → α) : ByteReader α := do
  let deployment ← readDeploymentId
  let generation ← readGeneration
  let reason ← readDetail
  return make deployment generation reason

def encodeApplyAbort (m : ApplyAbortMessage) : Result Bytes := writeEnding m.deployment m.generation m.reason

def decodeApplyAbort : Bytes → Result ApplyAbortMessage := decodeMessage (readEnding ApplyAbortMessage.mk) unchecked

def encodeApplyAbortAck (m : ApplyAbortAckMessage) : Result Bytes :=
  writeOutcome m.deployment m.aborted m.code m.detail

def decodeApplyAbortAck : Bytes → Result ApplyAbortAckMessage :=
  decodeMessage (readOutcome ApplyAbortAckMessage.mk) unchecked

/-! Evidence. -/

def encodeDeliveryAck (m : DeliveryAckMessage) : Result Bytes :=
  concat [
    encodeIdentifier m.deployment, encodeIdentifier m.key, .ok (ByteWriter.u64 m.generation), .ok m.digest.1,
    encodeIdentifier m.artifact, .ok (ByteWriter.u8 m.state.value), .ok (ByteWriter.u64 m.term), .ok m.incarnation.1,
    .ok (ByteWriter.u64 m.authorityEpoch), .ok (ByteWriter.u8 m.guarantee.value),
    .ok (ByteWriter.u64 m.bytesTransferred), .ok (ByteWriter.i64 m.targetTimestampMillis),
    .ok (ByteWriter.boolean m.evidenceFromReconcile)]

def checkDeliveryAck (m : DeliveryAckMessage) : Status :=
  if !isActivationState m.state then
    .fail .protocolViolation "delivery-ack must report an activation state; failures use delivery-nack"
  else if m.term = 0 ∨ !m.incarnation.isSet then
    .fail .protocolViolation "delivery-ack carries unset target authority"
  else .ok ()

def decodeDeliveryAck : Bytes → Result DeliveryAckMessage := decodeMessage
  (do
    let deployment ← readDeploymentId
    let key ← readConfigKey
    let generation ← readGeneration
    let digest ← ByteReader.digest
    let artifact ← readOptionalArtifactId
    let state ← readDeliveryState
    let term ← u64
    let incarnation ← opaque128
    let authorityEpoch ← u64
    let guarantee ← readApplyGuarantee
    let bytesTransferred ← u64
    let targetTimestampMillis ← i64
    let evidenceFromReconcile ← boolean
    return { deployment, key, generation, digest, artifact, state, term, incarnation, authorityEpoch, guarantee,
             bytesTransferred, targetTimestampMillis, evidenceFromReconcile })
  checkDeliveryAck

def encodeDeliveryNack (m : DeliveryNackMessage) : Result Bytes := do
  checkDetail m.detail
  concat [
    encodeIdentifier m.deployment, encodeIdentifier m.key, .ok (ByteWriter.u64 m.generation), .ok m.digest.1,
    .ok (ByteWriter.u16 m.code.value), .ok (ByteWriter.u8 m.directive.value), .ok (ByteWriter.u64 m.term),
    .ok m.incarnation.1, writeDetail m.detail]

def decodeDeliveryNack : Bytes → Result DeliveryNackMessage := decodeMessage
  (do
    let deployment ← readDeploymentId
    let key ← readConfigKey
    let generation ← readGeneration
    let digest ← ByteReader.digest
    let code ← readErrorCode
    let directive ← readRetryDirective
    let term ← u64
    let incarnation ← opaque128
    let detail ← readDetail
    return { deployment, key, generation, digest, code, directive, term, incarnation, detail })
  unchecked

/-! Reconciliation. -/

def encodeReconcileRequest (m : ReconcileRequestMessage) : Result Bytes :=
  concat [
    encodeIdentifier m.nodeId, .ok (ByteWriter.u64 m.epoch), .ok m.incarnation.1, .ok (ByteWriter.u32 m.maxFindings)]

def checkReconcileRequest (m : ReconcileRequestMessage) : Status :=
  if m.epoch = 0 then .fail .malformedInput "reconcile request carries the unset epoch 0"
  else if m.maxFindings > kMaxFindingsInReport then
    .fail .oversizePayload "reconcile request asks for more findings than the protocol allows"
  else .ok ()

def decodeReconcileRequest : Bytes → Result ReconcileRequestMessage := decodeMessage
  (do
    let nodeId ← readNodeId
    let epoch ← u64
    let incarnation ← opaque128
    let maxFindings ← u32
    return { nodeId, epoch, incarnation, maxFindings })
  checkReconcileRequest

def writeTransferStatus (r : TransferStatusRecord) : Result Bytes :=
  concat [
    encodeIdentifier r.deployment, .ok (ByteWriter.u64 r.stream), encodeIdentifier r.key,
    .ok (ByteWriter.u64 r.generation), .ok r.digest.1, .ok (ByteWriter.u64 r.bytesReceived),
    .ok (ByteWriter.u64 r.totalBytes), .ok (ByteWriter.boolean r.verified), .ok (ByteWriter.boolean r.staged)]

def readTransferStatus : ByteReader TransferStatusRecord := do
  let deployment ← readDeploymentId
  let stream ← u64
  let key ← readConfigKey
  let generation ← readGeneration
  let digest ← ByteReader.digest
  let bytesReceived ← u64
  let totalBytes ← u64
  let verified ← boolean
  let staged ← boolean
  if bytesReceived > totalBytes then
    ByteReader.fail .malformedInput "reconcile transfer reports more bytes than its total"
  return { deployment, stream, key, generation, digest, bytesReceived, totalBytes, verified, staged }

def writeReconcileFinding (f : AppliedFinding) : Result Bytes :=
  concat [
    encodeIdentifier f.key, .ok (ByteWriter.u64 f.generation), .ok f.digest.1, encodeIdentifier f.artifact,
    encodeIdentifier f.deployment, .ok (ByteWriter.u8 f.state.value), .ok (ByteWriter.i64 f.recordedAtMillis)]

def readReconcileFinding : ByteReader AppliedFinding := do
  let key ← readConfigKey
  let generation ← readGeneration
  let digest ← ByteReader.digest
  let artifact ← readOptionalArtifactId
  let deployment ← readDeploymentId
  let state ← readDeliveryState
  let recordedAtMillis ← i64
  return { key, generation, digest, artifact, deployment, state, recordedAtMillis }

def encodeReconcileReport (m : ReconcileReportMessage) : Result Bytes := do
  if m.transfers.length > kMaxTransfersInReport ∨ m.findings.length > kMaxFindingsInReport then
    .fail .oversizePayload "reconcile report exceeds the bound collection sizes"
  concat ([
    encodeIdentifier m.target, .ok (ByteWriter.u8 m.targetClass.value), .ok (ByteWriter.u8 m.guarantee.value),
    .ok (ByteWriter.u64 m.term), .ok m.incarnation.1, .ok (ByteWriter.u64 m.committedGeneration),
    .ok m.committedDigest.1, encodeIdentifier m.committedArtifact, .ok (ByteWriter.boolean m.applyPrepared),
    encodeIdentifier m.preparedDeployment, .ok (ByteWriter.u64 m.preparedGeneration), .ok m.preparedDigest.1,
    .ok (ByteWriter.u32 m.restartCount), .ok (ByteWriter.u32 m.applyRollbacks),
    .ok (ByteWriter.u32 m.transfers.length)] ++ (m.transfers.map writeTransferStatus ++
    .ok (ByteWriter.u32 m.findings.length) :: (m.findings.map writeReconcileFinding ++ [])))

def checkReconcileReport (m : ReconcileReportMessage) : Status :=
  if m.term = 0 ∨ !m.incarnation.isSet then
    .fail .protocolViolation "reconcile report carries unset target authority"
  else .ok ()

def decodeReconcileReport : Bytes → Result ReconcileReportMessage := decodeMessage
  (do
    let target ← readTargetId
    let targetClass ← readTargetClass
    let guarantee ← readApplyGuarantee
    let term ← u64
    let incarnation ← opaque128
    let committedGeneration ← u64
    let committedDigest ← ByteReader.digest
    let committedArtifact ← readOptionalArtifactId
    let applyPrepared ← boolean
    let preparedDeployment ← readOptionalDeploymentId
    let preparedGeneration ← u64
    let preparedDigest ← ByteReader.digest
    let restartCount ← u32
    let applyRollbacks ← u32
    let transferCount ← u32
    if transferCount > kMaxTransfersInReport then
      ByteReader.fail .oversizePayload "reconcile report declares too many transfers" (toString transferCount)
    let transfers ← times transferCount readTransferStatus
    let findingCount ← u32
    if findingCount > kMaxFindingsInReport then
      ByteReader.fail .oversizePayload "reconcile report declares too many findings" (toString findingCount)
    let findings ← times findingCount readReconcileFinding
    return { target, targetClass, guarantee, term, incarnation, committedGeneration, committedDigest,
             committedArtifact, applyPrepared, preparedDeployment, preparedGeneration, preparedDigest, restartCount,
             applyRollbacks, transfers, findings })
  checkReconcileReport

/-! Control and teardown. -/

def encodeRetire (m : RetireMessage) : Result Bytes := writeEnding m.deployment m.generation m.reason

def decodeRetire : Bytes → Result RetireMessage := decodeMessage (readEnding RetireMessage.mk) unchecked

def encodeRetireAck (m : RetireAckMessage) : Result Bytes :=
  concat [encodeIdentifier m.deployment, .ok (ByteWriter.boolean m.retired)]

def decodeRetireAck : Bytes → Result RetireAckMessage := decodeMessage
  (do
    let deployment ← readDeploymentId
    let retired ← boolean
    return { deployment, retired })
  unchecked

-- a ping and a pong are their nonce
def encodePing (nonce : ℕ) : Result Bytes := concat [.ok (ByteWriter.u64 nonce)]

def decodePing : Bytes → Result ℕ := decodeMessage u64 unchecked

def encodePong (nonce : ℕ) : Result Bytes := concat [.ok (ByteWriter.u64 nonce)]

def decodePong : Bytes → Result ℕ := decodeMessage u64 unchecked

structure GoodbyeMessage where
  code : ErrorCode := .ok
  reason : String := ""
  deriving DecidableEq

def encodeGoodbye (m : GoodbyeMessage) : Result Bytes := do
  checkDetail m.reason
  concat [.ok (ByteWriter.u16 m.code.value), writeDetail m.reason]

def decodeGoodbye : Bytes → Result GoodbyeMessage := decodeMessage
  (do
    let code ← readErrorCode
    let reason ← readDetail
    return { code, reason })
  unchecked

structure ErrorMessage where
  code : ErrorCode := .ok
  directive : RetryDirective := .doNotRetry
  detail : String := ""
  deriving DecidableEq

def encodeError (m : ErrorMessage) : Result Bytes := do
  checkDetail m.detail
  concat [.ok (ByteWriter.u16 m.code.value), .ok (ByteWriter.u8 m.directive.value), writeDetail m.detail]

def decodeError : Bytes → Result ErrorMessage := decodeMessage
  (do
    let code ← readErrorCode
    let directive ← readRetryDirective
    let detail ← readDetail
    return { code, directive, detail })
  unchecked

/-! The control channel. -/

def kMaxControlCommandBytes : ℕ := 32
def kMaxControlArguments : ℕ := 16
def kMaxControlArgumentBytes : ℕ := 512
def kMaxControlBodyBytes : ℕ := 512 * 1024

structure ControlHelloMessage where
  clientName : Bytes
  nonce : SessionNonce
  authTag : Digest := .zero 32
  deriving DecidableEq

def encodeControlHello (m : ControlHelloMessage) : Result Bytes := do
  if m.clientName.length > kMaxIdentifierLength then
    .fail .limitExceeded "control client name exceeds its bound"
  concat [ByteWriter.string m.clientName kMaxIdentifierLength, .ok m.nonce.1, .ok m.authTag.1]

def checkControlHello (m : ControlHelloMessage) : Status :=
  if m.clientName = [] then .fail .missingField "control client name must not be empty" else .ok ()

def decodeControlHello : Bytes → Result ControlHelloMessage := decodeMessage
  (do
    let clientName ← string kMaxIdentifierLength
    let nonce ← opaque128
    let authTag ← ByteReader.digest
    return { clientName, nonce, authTag })
  checkControlHello

structure ControlHelloAckMessage where
  nodeId : NodeId
  epoch : Epoch
  incarnation : IncarnationId
  nonce : SessionNonce
  authTag : Digest := .zero 32
  deriving DecidableEq

def encodeControlHelloAck (m : ControlHelloAckMessage) : Result Bytes :=
  concat [
    encodeIdentifier m.nodeId, .ok (ByteWriter.u64 m.epoch), .ok m.incarnation.1, .ok m.nonce.1, .ok m.authTag.1]

def decodeControlHelloAck : Bytes → Result ControlHelloAckMessage := decodeMessage
  (do
    let nodeId ← readNodeId
    let epoch ← u64
    let incarnation ← opaque128
    let nonce ← opaque128
    let authTag ← ByteReader.digest
    return { nodeId, epoch, incarnation, nonce, authTag })
  unchecked

structure ControlRequestMessage where
  command : Bytes
  arguments : List Bytes
  deriving DecidableEq

def writeControlArgument (argument : Bytes) : Result Bytes := do
  if argument.length > kMaxControlArgumentBytes then .fail .limitExceeded "control argument exceeds its bound"
  ByteWriter.string argument kMaxControlArgumentBytes

def encodeControlRequest (m : ControlRequestMessage) : Result Bytes := do
  if m.command = [] ∨ m.command.length > kMaxControlCommandBytes then
    .fail .invalidArgument "control command is empty or too long"
  if m.arguments.length > kMaxControlArguments then
    .fail .limitExceeded "control request has too many arguments"
  concat (ByteWriter.string m.command kMaxControlCommandBytes :: .ok (ByteWriter.u32 m.arguments.length) ::
    (m.arguments.map writeControlArgument ++ []))

def decodeControlRequest : Bytes → Result ControlRequestMessage := decodeMessage
  (do
    let command ← string kMaxControlCommandBytes
    if command = [] then ByteReader.fail .missingField "control request has no command"
    let count ← u32
    if count > kMaxControlArguments then
      ByteReader.fail .oversizePayload "control request declares too many arguments"
    let arguments ← times count (string kMaxControlArgumentBytes)
    return { command, arguments })
  unchecked

structure ControlResponseMessage where
  code : ErrorCode := .ok
  body : Bytes
  deriving DecidableEq

def encodeControlResponse (m : ControlResponseMessage) : Result Bytes := do
  if m.body.length > kMaxControlBodyBytes then .fail .limitExceeded "control response body exceeds its bound"
  concat [.ok (ByteWriter.u16 m.code.value), ByteWriter.string m.body kMaxControlBodyBytes]

def decodeControlResponse : Bytes → Result ControlResponseMessage := decodeMessage
  (do
    let code ← readErrorCode
    let body ← string kMaxControlBodyBytes
    return { code, body })
  unchecked

end ConfigurationFabric
