import ConfigurationFabric.Codec
import ConfigurationFabric.Journal
import ConfigurationFabric.State

namespace ConfigurationFabric

open LittleEndian
open ByteReader

/-! Reading the parts of a record. -/

def readLifecycleEvent : ByteReader LifecycleEvent := do
  let kind ← enumeration EvidenceKind.ofValue "stored lifecycle event has an unknown evidence kind"
  let source ← u8
  let target ← u8
  match DeliveryState.ofValue source, DeliveryState.ofValue target with
  | some source, some target =>
    let generation ← u64
    let digest ← ByteReader.digest
    match ErrorCode.ofValue (← u16) with
    | none => ByteReader.fail .malformedInput "stored lifecycle event has an unknown error code"
    | some code =>
      let directive ← enumeration RetryDirective.ofValue
        "stored lifecycle event has an unknown retry directive"
      let authorityEpoch ← u64
      let authorityIncarnation ← opaque128
      let targetTerm ← u64
      let targetIncarnation ← opaque128
      let fromReconciliation ← boolean
      let atMillis ← i64
      let detail ← string kMaxEvidenceDetailBytes
      return { kind, source, target, generation, digest, code, directive, authorityEpoch,
               authorityIncarnation, targetTerm, targetIncarnation, fromReconciliation, atMillis, detail }
  | _, _ => ByteReader.fail .malformedInput "stored lifecycle event has an unknown state"

def endpointHostByte (c : UInt8) : Bool :=
  (48 ≤ c && c ≤ 57) || (65 ≤ c && c ≤ 90) || (97 ≤ c && c ≤ 122) ||
    c == 46 || c == 45 || c == 95 || c == 58

structure Endpoint where
  host : Bytes
  port : ℕ
  deriving DecidableEq

def Endpoint.isSet (e : Endpoint) : Bool := !e.host.isEmpty && decide (e.port ≠ 0)

def endpointPort (port : ℕ) : Bytes → Result ℕ
  | [] => .ok port
  | c :: rest =>
    if c < 48 ∨ 57 < c then .fail .invalidArgument "endpoint port is not a decimal integer"
    else
      let port := port * 10 + (c - 48).toNat
      if port > 65535 then .fail .outOfRange "endpoint port is out of range"
      else endpointPort port rest

def parseEndpoint (text : Bytes) : Result Endpoint :=
  if text = [] ∨ text.length > 128 then .fail .invalidArgument "endpoint text is empty or too long"
  else
    -- the port stands after the last colon
    let portText := (text.reverse.takeWhile (· ≠ 58)).reverse
    let host := text.take (text.length - portText.length - 1)
    if portText.length = text.length ∨ host = [] ∨ portText = [] then
      .fail .invalidArgument "endpoint must be written as host:port" (textString text)
    else if !host.all endpointHostByte then
      .fail .invalidArgument "endpoint host contains an unsupported character" (textString text)
    else do
      let port ← endpointPort 0 portText
      return ⟨host, port⟩

def readTargetRuntime : ByteReader TargetRuntime := do
  let id ← identifier parseTargetId
  let klass ← enumeration TargetClass.ofValue "stored target has an unknown class"
  let guarantee ← enumeration ApplyGuarantee.ofValue "stored target has an unknown guarantee"
  let term ← u64
  let incarnation ← opaque128
  let committedGeneration ← u64
  let committedDigest ← ByteReader.digest
  let committedArtifact ← optionalIdentifier parseArtifactId
  let lastContactMillis ← i64
  let sessionsEstablished ← u64
  let restartsObserved ← u64
  let applyPrepared ← boolean
  let preparedDeployment ← optionalIdentifier parseDeploymentId
  let preparedGeneration ← u64
  let preparedDigest ← ByteReader.digest
  let endpoint ← string kMaxEndpointBytes
  if endpoint ≠ [] then
    let _ ← (liftM (parseEndpoint endpoint) : ByteReader Endpoint)
  return { id, klass, guarantee, term, incarnation, committedGeneration, committedDigest,
           committedArtifact, lastContactMillis, contactEstablishedThisProcess := false,
           sessionsEstablished, restartsObserved, applyPrepared, preparedDeployment, preparedGeneration,
           preparedDigest, endpoint }

def readDeliveryRecord : ByteReader DeliveryRecord := do
  let id ← identifier parseDeploymentId
  let setId ← identifier parseDeploymentSetId
  let rolloutSet ← optionalIdentifier parseRolloutSetId
  let target ← identifier parseTargetId
  let key ← identifier parseConfigKey
  let artifact ← identifier parseArtifactId
  let revision ← u64
  let generation ← u64
  if generation = 0 then ByteReader.fail .malformedInput "stored delivery carries the unset generation 0"
  let digest ← ByteReader.digest
  let schema ← identifier parseSchemaId
  let schemaVersion ← u32
  let sizeBytes ← u64
  let requirement ← enumeration GuaranteeRequirement.ofValue
    "stored delivery has an unknown guarantee requirement"
  let effectiveGuarantee ← enumeration ApplyGuarantee.ofValue "stored delivery has an unknown guarantee"
  let state ← enumeration DeliveryState.ofValue "stored delivery has an unknown lifecycle state"
  let attempt ← u64
  let failures ← u32
  match ErrorCode.ofValue (← u16) with
  | none => ByteReader.fail .malformedInput "stored delivery has an unknown error code"
  | some lastError =>
    let lastDirective ← enumeration RetryDirective.ofValue "stored delivery has an unknown retry directive"
    let lastDetail ← string kMaxDeliveryDetailBytes
    let eventCount ← u32
    if eventCount > kMaxEventsPerDelivery then
      ByteReader.fail .limitExceeded "stored delivery carries too many lifecycle events" (toString eventCount)
    let events ← times eventCount readLifecycleEvent
    let authorityEpoch ← u64
    let authorityIncarnation ← opaque128
    let targetTerm ← u64
    let targetIncarnation ← opaque128
    let acknowledgedFromReconcile ← boolean
    let superseded ← boolean
    let createdAtMillis ← i64
    let updatedAtMillis ← i64
    return { id, setId, rolloutSet, target, key, artifact, revision, generation, digest, schema,
             schemaVersion, sizeBytes, requirement, effectiveGuarantee, state, attempt, failures, lastError,
             lastDirective, lastDetail, events, authorityEpoch, authorityIncarnation, targetTerm,
             targetIncarnation, acknowledgedFromReconcile, superseded, createdAtMillis, updatedAtMillis }

def readTransferRecord : ByteReader TransferRecord := do
  let deployment ← identifier parseDeploymentId
  let stream ← u64
  let key ← identifier parseConfigKey
  let artifact ← optionalIdentifier parseArtifactId
  let generation ← u64
  let digest ← ByteReader.digest
  let totalBytes ← u64
  let bytesReceived ← u64
  if bytesReceived > totalBytes then
    ByteReader.fail .malformedInput "stored transfer claims more bytes than its total"
  let verified ← boolean
  let staged ← boolean
  let updatedAtMillis ← i64
  return { deployment, stream, key, artifact, generation, digest, totalBytes, bytesReceived, verified,
           staged, updatedAtMillis }

def readAppliedFinding : ByteReader AppliedFinding := do
  let key ← identifier parseConfigKey
  let generation ← u64
  let digest ← ByteReader.digest
  let artifact ← optionalIdentifier parseArtifactId
  let deployment ← identifier parseDeploymentId
  let state ← enumeration DeliveryState.ofValue "stored finding has an unknown lifecycle state"
  let recordedAtMillis ← i64
  return { key, generation, digest, artifact, deployment, state, recordedAtMillis }

def kMetadataMagic : ℕ := 0x4D414643
def kArtifactMetadataFormatVersion : ℕ := 1

def readArtifactMetadata : ByteReader ArtifactMetadata := do
  let magic ← u32
  if magic ≠ kMetadataMagic then
    ByteReader.fail .malformedInput "artifact metadata magic does not match"
  let version ← u16
  if version ≠ kArtifactMetadataFormatVersion then
    ByteReader.fail .unsupportedVersion "artifact metadata format version is not supported" (toString version)
  let id ← identifier parseArtifactId
  let revision ← u64
  let schema ← identifier parseSchemaId
  let schemaVersion ← u32
  let digest ← ByteReader.digest
  let sizeBytes ← u64
  let mediaType ← string kMaxMediaTypeBytes
  let producer ← string kMaxProducerBytes
  let producedAtMillis ← i64
  let storedAtMillis ← i64
  requireEnd
  return { id, revision, schema, schemaVersion, digest, sizeBytes, mediaType, producer, producedAtMillis,
           storedAtMillis }

def decodeArtifactMetadata (record : Bytes) : Result ArtifactMetadata :=
  if record.length < 6 then .fail .truncatedFrame "artifact metadata record is too short"
  else
    let body := record.take (record.length - 4)
    if (crc32c body).toNat ≠ load (record.drop (record.length - 4)) then
      .fail .integrityFailure "artifact metadata record failed its checksum"
    else readArtifactMetadata.run' body

end ConfigurationFabric
