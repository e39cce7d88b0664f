import ConfigurationFabric.StateApply
import ConfigurationFabric.Store

namespace ConfigurationFabric

open LittleEndian
open ByteReader

/-! Writing the parts of a record. -/

def encodeIdentifier (value : Bytes) : Result Bytes := ByteWriter.string value kMaxIdentifierLength

def concat (parts : List (Result Bytes)) : Result Bytes := do
  return (← parts.mapM id).flatten

def writeLifecycleEvent (e : LifecycleEvent) : Result Bytes :=
  concat [
    .ok (ByteWriter.u8 e.kind.value), .ok (ByteWriter.u8 e.source.value), .ok (ByteWriter.u8 e.target.value),
    .ok (ByteWriter.u64 e.generation), .ok e.digest.1, .ok (ByteWriter.u16 e.code.value),
    .ok (ByteWriter.u8 e.directive.value), .ok (ByteWriter.u64 e.authorityEpoch),
    .ok e.authorityIncarnation.1, .ok (ByteWriter.u64 e.targetTerm), .ok e.targetIncarnation.1,
    .ok (ByteWriter.boolean e.fromReconciliation), .ok (ByteWriter.i64 e.atMillis),
    ByteWriter.string e.detail kMaxEvidenceDetailBytes ]

def writeTargetRuntime (r : TargetRuntime) : Result Bytes :=
  concat [
    encodeIdentifier r.id, .ok (ByteWriter.u8 r.klass.value), .ok (ByteWriter.u8 r.guarantee.value),
    .ok (ByteWriter.u64 r.term), .ok r.incarnation.1, .ok (ByteWriter.u64 r.committedGeneration),
    .ok r.committedDigest.1, encodeIdentifier r.committedArtifact, .ok (ByteWriter.i64 r.lastContactMillis),
    .ok (ByteWriter.u64 r.sessionsEstablished), .ok (ByteWriter.u64 r.restartsObserved),
    .ok (ByteWriter.boolean r.applyPrepared), encodeIdentifier r.preparedDeployment,
    .ok (ByteWriter.u64 r.preparedGeneration), .ok r.preparedDigest.1,
    ByteWriter.string r.endpoint kMaxEndpointBytes ]

def writeDeliveryRecord (r : DeliveryRecord) : Result Bytes :=
  concat ([
    encodeIdentifier r.id, encodeIdentifier r.setId, encodeIdentifier r.rolloutSet, encodeIdentifier r.target,
    encodeIdentifier r.key, encodeIdentifier r.artifact, .ok (ByteWriter.u64 r.revision),
    .ok (ByteWriter.u64 r.generation), .ok r.digest.1, encodeIdentifier r.schema,
    .ok (ByteWriter.u32 r.schemaVersion), .ok (ByteWriter.u64 r.sizeBytes),
    .ok (ByteWriter.u8 r.requirement.value), .ok (ByteWriter.u8 r.effectiveGuarantee.value),
    .ok (ByteWriter.u8 r.state.value), .ok (ByteWriter.u64 r.attempt), .ok (ByteWriter.u32 r.failures),
    .ok (ByteWriter.u16 r.lastError.value), .ok (ByteWriter.u8 r.lastDirective.value),
    ByteWriter.string r.lastDetail kMaxDeliveryDetailBytes, .ok (ByteWriter.u32 r.events.length) ] ++
    r.events.map writeLifecycleEvent ++ [
    .ok (ByteWriter.u64 r.authorityEpoch), .ok r.authorityIncarnation.1, .ok (ByteWriter.u64 r.targetTerm),
    .ok r.targetIncarnation.1, .ok (ByteWriter.boolean r.acknowledgedFromReconcile),
    .ok (ByteWriter.boolean r.superseded), .ok (ByteWriter.i64 r.createdAtMillis),
    .ok (ByteWriter.i64 r.updatedAtMillis) ])

def writeTransferRecord (r : TransferRecord) : Result Bytes :=
  concat [
    encodeIdentifier r.deployment, .ok (ByteWriter.u64 r.stream), encodeIdentifier r.key,
    encodeIdentifier r.artifact, .ok (ByteWriter.u64 r.generation), .ok r.digest.1,
    .ok (ByteWriter.u64 r.totalBytes), .ok (ByteWriter.u64 r.bytesReceived),
    .ok (ByteWriter.boolean r.verified), .ok (ByteWriter.boolean r.staged),
    .ok (ByteWriter.i64 r.updatedAtMillis) ]

def writeAppliedFinding (f : AppliedFinding) : Result Bytes :=
  concat [
    encodeIdentifier f.key, .ok (ByteWriter.u64 f.generation), .ok f.digest.1, encodeIdentifier f.artifact,
    encodeIdentifier f.deployment, .ok (ByteWriter.u8 f.state.value), .ok (ByteWriter.i64 f.recordedAtMillis) ]

def encodeArtifactMetadata (m : ArtifactMetadata) : Result Bytes := do
  if m.id.length > kMaxIdentifierLength ∨ m.schema.length > kMaxIdentifierLength ∨
      m.mediaType.length > kMaxMediaTypeBytes ∨ m.producer.length > kMaxProducerBytes then
    Result.fail .limitExceeded "artifact metadata field exceeds its bound"
  let body ← concat [
    .ok (ByteWriter.u32 kMetadataMagic), .ok (ByteWriter.u16 kArtifactMetadataFormatVersion),
    encodeIdentifier m.id, .ok (ByteWriter.u64 m.revision), encodeIdentifier m.schema,
    .ok (ByteWriter.u32 m.schemaVersion), .ok m.digest.1, .ok (ByteWriter.u64 m.sizeBytes),
    ByteWriter.string m.mediaType kMaxMediaTypeBytes, ByteWriter.string m.producer kMaxProducerBytes,
    .ok (ByteWriter.i64 m.producedAtMillis), .ok (ByteWriter.i64 m.storedAtMillis) ]
  return body ++ ByteWriter.u32 (crc32c body).toNat

/-! Snapshots of both states. -/

def kStateFormatVersion : ℕ := 1
def kMaxSnapshotEntries : ℕ := 100000

/-- `std::map::emplace`: an entry that is already there stays. -/
def emplace {κ α : Type} [DecidableEq κ] [LT κ] [DecidableRel (fun a b : κ => a < b)]
    (m : SortedMap κ α) (k : κ) (v : α) : SortedMap κ α :=
  if (m.find k).isSome then m else m.insert k v

def readVersion (what : String) : ByteReader Unit := do
  let version ← u16
  if version ≠ kStateFormatVersion then
    ByteReader.fail .unsupportedVersion (what ++ " state snapshot version is not supported") (toString version)

def readCount (bound : ℕ) (message : String) : ByteReader ℕ := do
  let count ← u32
  if count > bound then ByteReader.fail .oversizePayload message
  return count

namespace ControllerStateCodec

def encodeSnapshot (s : ControllerState) : Result Bytes := do
  if s.targets.length > kMaxSnapshotEntries ∨ s.deliveries.length > kMaxSnapshotEntries then
    Result.fail .limitExceeded "controller state exceeds the snapshot bound"
  concat ([
    .ok (ByteWriter.u16 kStateFormatVersion), encodeIdentifier s.nodeId, .ok (ByteWriter.u64 s.epoch),
    .ok s.incarnation.1, .ok (ByteWriter.i64 s.startedAtMillis), .ok (ByteWriter.u32 s.targets.length) ] ++
    s.targets.map (fun e => writeTargetRuntime e.2) ++
    [.ok (ByteWriter.u32 s.deliveries.length)] ++ s.deliveries.map (fun e => writeDeliveryRecord e.2) ++
    [.ok (ByteWriter.u32 s.artifacts.length)] ++
    s.artifacts.map fun e => do ByteWriter.string (← encodeArtifactMetadata e.2) kAbsoluteMaxFieldBytes)

def readSnapshot : ByteReader ControllerState := do
  readVersion "controller"
  let nodeId ← optionalIdentifier parseNodeId
  let epoch ← u64
  let incarnation ← opaque128
  let startedAtMillis ← i64
  let targetCount ← readCount kMaxSnapshotEntries "controller state snapshot declares too many targets"
  let targets ← times targetCount readTargetRuntime
  let deliveryCount ← readCount kMaxSnapshotEntries "controller state snapshot declares too many deliveries"
  let deliveries ← times deliveryCount readDeliveryRecord
  let artifactCount ← readCount kMaxSnapshotEntries "controller state snapshot declares too many artifacts"
  let artifacts ← times artifactCount embeddedMetadata
  requireEnd
  return {
    nodeId, epoch, incarnation, startedAtMillis
    targets := targets.foldl (fun m r => emplace m r.id r) []
    deliveries := deliveries.foldl (fun m r => emplace m r.id r) []
    artifacts := artifacts.foldl (fun m r => emplace m r.digest r) [] }

def decodeSnapshot (payload : Bytes) : Result ControllerState := readSnapshot.run' payload

end ControllerStateCodec

namespace AgentStateCodec

def encodeSnapshot (s : AgentState) : Result Bytes := do
  if s.findings.length > kMaxFindingsPerAgent ∨ s.transfers.length > kMaxSnapshotEntries then
    Result.fail .limitExceeded "agent state exceeds the snapshot bound"
  concat ([
    .ok (ByteWriter.u16 kStateFormatVersion), encodeIdentifier s.target, .ok (ByteWriter.u8 s.klass.value),
    .ok (ByteWriter.u8 s.guarantee.value), .ok (ByteWriter.u64 s.term), .ok s.incarnation.1,
    .ok (ByteWriter.u32 s.restartCount), .ok (ByteWriter.u64 s.lastControllerEpoch),
    .ok s.lastControllerIncarnation.1, encodeIdentifier s.lastControllerNode,
    .ok (ByteWriter.u64 s.committedGeneration), .ok s.committedDigest.1,
    encodeIdentifier s.committedArtifact, .ok (ByteWriter.boolean s.applyPrepared),
    encodeIdentifier s.preparedDeployment, .ok (ByteWriter.u64 s.preparedGeneration),
    .ok s.preparedDigest.1, .ok (ByteWriter.u64 s.activations), .ok (ByteWriter.u64 s.duplicatesSuppressed),
    .ok (ByteWriter.u64 s.staleOffersRefused), .ok (ByteWriter.u64 s.digestRejections),
    .ok (ByteWriter.u64 s.applyRollbacks), .ok (ByteWriter.u32 s.transfers.length) ] ++
    s.transfers.map (fun e => writeTransferRecord e.2) ++
    [.ok (ByteWriter.u32 s.findings.length)] ++ s.findings.map writeAppliedFinding)

def readSnapshot : ByteReader AgentState := do
  readVersion "agent"
  let target ← optionalIdentifier parseTargetId
  let klass ← enumeration TargetClass.ofValue "agent state has an unknown class"
  let guarantee ← enumeration ApplyGuarantee.ofValue "agent state has an unknown guarantee"
  let term ← u64
  let incarnation ← opaque128
  let restartCount ← u32
  let lastControllerEpoch ← u64
  let lastControllerIncarnation ← opaque128
  let lastControllerNode ← optionalIdentifier parseNodeId
  let committedGeneration ← u64
  let committedDigest ← ByteReader.digest
  let committedArtifact ← optionalIdentifier parseArtifactId
  let applyPrepared ← boolean
  let preparedDeployment ← optionalIdentifier parseDeploymentId
  let preparedGeneration ← u64
  let preparedDigest ← ByteReader.digest
  let activations ← u64
  let duplicatesSuppressed ← u64
  let staleOffersRefused ← u64
  let digestRejections ← u64
  let applyRollbacks ← u64
  let transferCount ← readCount kMaxSnapshotEntries "agent state declares too many transfers"
  let transfers ← times transferCount readTransferRecord
  let findingCount ← readCount kMaxFindingsPerAgent "agent state declares too many findings"
  let findings ← times findingCount readAppliedFinding
  requireEnd
  return {
    target, klass, guarantee, term, incarnation, restartCount, lastControllerEpoch,
    lastControllerIncarnation, lastControllerNode, committedGeneration, committedDigest, committedArtifact,
    applyPrepared, preparedDeployment, preparedGeneration, preparedDigest
    transfers := transfers.foldl (fun m r => emplace m r.deployment r) []
    findings, activations, duplicatesSuppressed, staleOffersRefused, digestRejections, applyRollbacks }

def decodeSnapshot (payload : Bytes) : Result AgentState := readSnapshot.run' payload

end AgentStateCodec

def controllerCodec : Codec ControllerState where
  initial := {}
  apply := ControllerStateCodec.apply
  encodeSnapshot := ControllerStateCodec.encodeSnapshot
  decodeSnapshot := ControllerStateCodec.decodeSnapshot
  framing_refused := by rintro s payload _ (rfl | rfl) <;> rfl

def agentCodec : Codec AgentState where
  initial := {}
  apply := AgentStateCodec.apply
  encodeSnapshot := AgentStateCodec.encodeSnapshot
  decodeSnapshot := AgentStateCodec.decodeSnapshot
  framing_refused := by rintro s payload _ (rfl | rfl) <;> rfl

end ConfigurationFabric
