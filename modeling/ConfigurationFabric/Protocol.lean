import ConfigurationFabric.State

namespace ConfigurationFabric

open LittleEndian

def kMaxMessageDetailBytes : ℕ := 256
def kMaxTransfersInReport : ℕ := 64
def kMaxFindingsInReport : ℕ := 64
def kWireVersion : ℕ := 1
def kDefaultMaxPayloadBytes : ℕ := 1024 * 1024
def kAbsoluteMaxPayloadBytes : ℕ := 16 * 1024 * 1024
def kMaxChunkPayloadBytes : ℕ := kAbsoluteMaxPayloadBytes / 2
def kCapabilityAtomicApply : ℕ := 1
def kCapabilityPrepareCommit : ℕ := 2
def kCapabilityReconcile : ℕ := 4
def kCapabilityResumeTransfer : ℕ := 8
def kCapabilityRetire : ℕ := 16
def kCapabilityKnownMask : ℕ := 0x1F

def capabilitiesFor : ApplyGuarantee → ℕ
  | .atomicActivate =>
    kCapabilityReconcile ||| kCapabilityResumeTransfer ||| kCapabilityRetire ||| kCapabilityAtomicApply
  | .prepareCommitAbort =>
    kCapabilityReconcile ||| kCapabilityResumeTransfer ||| kCapabilityRetire ||| kCapabilityPrepareCommit

/-! What the controller sends. -/

structure HelloMessage where
  nodeId : NodeId
  epoch : Epoch
  incarnation : IncarnationId
  nonce : SessionNonce
  minWireVersion : ℕ := kWireVersion
  maxWireVersion : ℕ := kWireVersion
  maxPayloadBytes : ℕ := kDefaultMaxPayloadBytes
  capabilities : ℕ := kCapabilityKnownMask
  authTag : Digest := .zero 32
  deriving DecidableEq

structure PrepareMessage where
  deployment : DeploymentId
  key : ConfigKey
  artifact : ArtifactId
  generation : Generation
  digest : Digest
  sizeBytes : ℕ
  schema : SchemaId
  schemaVersion : SchemaVersion
  requirement : GuaranteeRequirement
  guarantee : ApplyGuarantee
  authorityEpoch : Epoch
  attempt : AttemptId
  stream : StreamId
  chunkBytes : ℕ
  resumeFromOffset : ℕ := 0
  deriving DecidableEq

structure ChunkMessage where
  stream : StreamId
  sequence : ℕ
  offset : ℕ
  data : Bytes
  deriving DecidableEq

structure TransferCompleteMessage where
  deployment : DeploymentId
  stream : StreamId
  digest : Digest
  sizeBytes : ℕ
  deriving DecidableEq

structure StageMessage where
  deployment : DeploymentId
  stream : StreamId
  generation : Generation
  digest : Digest
  deriving DecidableEq

structure ApplyPrepareMessage where
  deployment : DeploymentId
  generation : Generation
  digest : Digest
  deriving DecidableEq

structure ApplyCommitMessage where
  deployment : DeploymentId
  generation : Generation
  digest : Digest
  deriving DecidableEq

structure ApplyAbortMessage where
  deployment : DeploymentId
  generation : Generation
  reason : String
  deriving DecidableEq

structure ReconcileRequestMessage where
  nodeId : NodeId
  epoch : Epoch
  incarnation : IncarnationId
  maxFindings : ℕ := kMaxFindingsInReport
  deriving DecidableEq

structure RetireMessage where
  deployment : DeploymentId
  generation : Generation
  reason : String
  deriving DecidableEq

/-- The frames of a session; an agent dispatches neither a second hello nor an unknown type. -/
inductive Message
  | hello (m : HelloMessage)
  | prepare (m : PrepareMessage)
  | chunk (m : ChunkMessage)
  | transferComplete (m : TransferCompleteMessage)
  | stage (m : StageMessage)
  | applyPrepare (m : ApplyPrepareMessage)
  | applyCommit (m : ApplyCommitMessage)
  | applyAbort (m : ApplyAbortMessage)
  | reconcileRequest (m : ReconcileRequestMessage)
  | retire (m : RetireMessage)
  | ping (nonce : ℕ)
  | goodbye
  | unexpected
  deriving DecidableEq

/-- What the decoders check of the fields. -/
def Message.Valid : Message → Prop
  | .prepare m =>
    isValidIdentifier m.deployment = true ∧ isValidIdentifier m.key = true ∧ isValidIdentifier m.artifact = true ∧
      m.generation ≠ 0 ∧ m.digest.isSet = true ∧ m.sizeBytes ≠ 0 ∧ m.chunkBytes ≠ 0 ∧
      m.chunkBytes ≤ kMaxChunkPayloadBytes ∧ m.stream ≠ 0 ∧ m.authorityEpoch ≠ 0
  | .chunk m => m.stream ≠ 0 ∧ m.data ≠ []
  | .transferComplete m => isValidIdentifier m.deployment = true
  | .stage m => isValidIdentifier m.deployment = true ∧ m.generation ≠ 0
  | .applyPrepare m => isValidIdentifier m.deployment = true ∧ m.generation ≠ 0
  | .applyCommit m => isValidIdentifier m.deployment = true ∧ m.generation ≠ 0
  | .applyAbort m => isValidIdentifier m.deployment = true ∧ m.generation ≠ 0
  | .retire m => isValidIdentifier m.deployment = true ∧ m.generation ≠ 0
  | .hello _ | .reconcileRequest _ | .ping _ | .goodbye | .unexpected => True

instance : DecidablePred Message.Valid := fun m => by
  cases m <;> unfold Message.Valid <;> infer_instance

/-! What the agent sends. -/

structure HelloAckMessage where
  wireVersion : ℕ := kWireVersion
  target : TargetId
  targetClass : TargetClass
  guarantee : ApplyGuarantee
  term : Term
  incarnation : IncarnationId
  nonce : SessionNonce
  maxPayloadBytes : ℕ := kDefaultMaxPayloadBytes
  capabilities : ℕ := kCapabilityKnownMask
  committedGeneration : Generation
  committedDigest : Digest
  committedArtifact : ArtifactId
  restartCount : ℕ
  authTag : Digest := .zero 32
  deriving DecidableEq

structure PrepareAckMessage where
  deployment : DeploymentId
  stream : StreamId
  resumeFromOffset : ℕ := 0
  committedGeneration : Generation
  committedDigest : Digest
  duplicateSuppressed : Bool := false
  priorState : DeliveryState
  priorGeneration : Generation
  priorDigest : Digest
  deriving DecidableEq

structure PrepareRejectMessage where
  deployment : DeploymentId
  code : ErrorCode
  detail : String
  observedState : DeliveryState
  committedGeneration : Generation
  deriving DecidableEq

structure ChunkAckMessage where
  stream : StreamId
  sequence : ℕ
  code : ErrorCode := .ok
  bytesReceived : ℕ := 0
  detail : String := ""
  deriving DecidableEq

structure TransferResultMessage where
  deployment : DeploymentId
  stream : StreamId
  verified : Bool := false
  bytesReceived : ℕ := 0
  code : ErrorCode := .ok
  detail : String := ""
  deriving DecidableEq

structure StageAckMessage where
  deployment : DeploymentId
  staged : Bool := false
  code : ErrorCode := .ok
  detail : String := ""
  deriving DecidableEq

structure ApplyPrepareAckMessage where
  deployment : DeploymentId
  prepared : Bool := false
  code : ErrorCode := .ok
  detail : String := ""
  deriving DecidableEq

structure ApplyCommitAckMessage where
  deployment : DeploymentId
  committed : Bool := false
  state : DeliveryState
  committedGeneration : Generation
  committedDigest : Digest
  code : ErrorCode := .ok
  detail : String := ""
  deriving DecidableEq

structure ApplyAbortAckMessage where
  deployment : DeploymentId
  aborted : Bool := false
  code : ErrorCode := .ok
  detail : String := ""
  deriving DecidableEq

structure DeliveryAckMessage where
  deployment : DeploymentId
  key : ConfigKey
  generation : Generation
  digest : Digest
  artifact : ArtifactId
  state : DeliveryState
  term : Term
  incarnation : IncarnationId
  authorityEpoch : Epoch
  guarantee : ApplyGuarantee
  bytesTransferred : ℕ
  targetTimestampMillis : ℤ
  evidenceFromReconcile : Bool
  deriving DecidableEq

structure DeliveryNackMessage where
  deployment : DeploymentId
  key : ConfigKey
  generation : Generation
  digest : Digest
  code : ErrorCode
  directive : RetryDirective
  term : Term
  incarnation : IncarnationId
  detail : String
  deriving DecidableEq

structure TransferStatusRecord where
  deployment : DeploymentId
  stream : StreamId
  key : ConfigKey
  generation : Generation
  digest : Digest
  bytesReceived : ℕ
  totalBytes : ℕ
  verified : Bool
  staged : Bool
  deriving DecidableEq

structure ReconcileReportMessage where
  target : TargetId
  targetClass : TargetClass
  guarantee : ApplyGuarantee
  term : Term
  incarnation : IncarnationId
  committedGeneration : Generation
  committedDigest : Digest
  committedArtifact : ArtifactId
  applyPrepared : Bool
  preparedDeployment : DeploymentId
  preparedGeneration : Generation
  preparedDigest : Digest
  restartCount : ℕ
  applyRollbacks : ℕ
  transfers : List TransferStatusRecord
  findings : List AppliedFinding
  deriving DecidableEq

structure RetireAckMessage where
  deployment : DeploymentId
  retired : Bool
  deriving DecidableEq

inductive Reply
  | helloAck (a : HelloAckMessage)
  | authReject (code : ErrorCode) (detail : String)
  | prepareAck (a : PrepareAckMessage)
  | prepareReject (a : PrepareRejectMessage)
  | chunkAck (a : ChunkAckMessage)
  | transferResult (a : TransferResultMessage)
  | stageAck (a : StageAckMessage)
  | applyPrepareAck (a : ApplyPrepareAckMessage)
  | applyCommitAck (a : ApplyCommitAckMessage)
  | applyAbortAck (a : ApplyAbortAckMessage)
  | deliveryAck (a : DeliveryAckMessage)
  | deliveryNack (a : DeliveryNackMessage)
  | reconcileReport (a : ReconcileReportMessage)
  | retireAck (a : RetireAckMessage)
  | pong (nonce : ℕ)
  deriving DecidableEq

end ConfigurationFabric
