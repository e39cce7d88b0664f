import Mathlib.Data.List.Sort
import ConfigurationFabric.Distributor

/-! A session with a target: handshake, reconciliation, and the deliveries one after the other. -/

namespace ConfigurationFabric

open LittleEndian
open Threads

def Incoming.typeName : Incoming → String
  | .reply (.helloAck _) => "hello-ack"
  | .reply (.authReject _ _) => "auth-reject"
  | .reply (.prepareAck _) => "prepare-ack"
  | .reply (.prepareReject _) => "prepare-reject"
  | .reply (.chunkAck _) => "chunk-ack"
  | .reply (.transferResult _) => "transfer-result"
  | .reply (.stageAck _) => "stage-ack"
  | .reply (.applyPrepareAck _) => "apply-prepare-ack"
  | .reply (.applyCommitAck _) => "apply-commit-ack"
  | .reply (.applyAbortAck _) => "apply-abort-ack"
  | .reply (.deliveryAck _) => "delivery-ack"
  | .reply (.deliveryNack _) => "delivery-nack"
  | .reply (.reconcileReport _) => "reconcile-report"
  | .reply (.retireAck _) => "retire-ack"
  | .reply (.pong _) => "pong"
  | .ping _ => "ping"
  | .other type => type

structure SessionContext where
  target : TargetId
  targetTerm : Term
  targetIncarnation : IncarnationId
  peerMaxPayload : ℕ
  report : Option ReconcileReportMessage := none

namespace Distributor

def kMaxStepsPerDelivery : ℕ := 16
def kMaxSessionErrors : ℕ := 3

def isTerminalRejection (code : ErrorCode) : Bool :=
  code ∈ [.guaranteeUnsupported, .schemaUnsupported, .oversizePayload, .invalidArgument, .unsupportedVersion,
    .unsupportedFeature, .policyDenied, .capabilityMismatch]

/-! The handshake. -/

def capabilitySupportsGuarantee (capabilities : ℕ) : ApplyGuarantee → Bool
  | .atomicActivate => capabilities &&& kCapabilityAtomicApply != 0
  | .prepareCommitAbort => capabilities &&& kCapabilityPrepareCommit != 0

/-- What the decoder checks of an acknowledgement. -/
def checkHelloAck (ack : HelloAckMessage) : Status :=
  if ack.wireVersion ≠ kWireVersion then
    .fail .unsupportedVersion "hello-ack negotiated an unsupported wire version" (toString ack.wireVersion)
  else if ack.term = 0 then .fail .protocolViolation "hello-ack carries the unset term 0"
  else if ack.maxPayloadBytes = 0 ∨ ack.maxPayloadBytes > kAbsoluteMaxPayloadBytes then
    .fail .oversizePayload "hello-ack advertises an out-of-range payload ceiling"
  else if ack.capabilities &&& (2 ^ 32 - 1 - kCapabilityKnownMask) ≠ 0 then
    .fail .capabilityMismatch "hello-ack advertises unknown capability bits"
  else if !capabilitySupportsGuarantee ack.capabilities ack.guarantee then
    .fail .capabilityMismatch "hello-ack advertises a guarantee its capability bits do not support"
  else .ok ()

/-- An incarnation of the target that the controller has moved past is refused. -/
def fenceTarget (existing : Option TargetRuntime) (ack : HelloAckMessage) : Status :=
  match existing with
  | none => .ok ()
  | some runtime =>
    if runtime.term = 0 then .ok ()
    else if ack.term < runtime.term then
      .fail .fencedIncarnation "the target presented an older boot term than the one already fenced"
        s!"{ack.term} < {runtime.term}"
    else if ack.term = runtime.term ∧ runtime.incarnation.isSet ∧ ack.incarnation ≠ runtime.incarnation then
      .fail .fencedIncarnation "a different incarnation claims an already observed boot term"
        (textString (toHex ack.incarnation.1))
    else .ok ()

def rearm (newTerm : Term) : List DeliveryRecord → Worker Status
  | [] => return .ok ()
  | record :: rest => do
    let record := { record with failures := 0, attempt := (record.attempt + 1) % 2 ^ 64 }
    match ← noteEvent record .retried
      (text s!"retry budget re-armed: the target came back with boot term {newTerm}") .own with
    | (.error e, _) => return .error e
    | (.ok (), _) => rearm newTerm rest

def rearmAfterRestart (target : TargetId) (newTerm : Term) : Worker Status := do
  let s ← state
  rearm newTerm ((s.deliveries.map (·.2)).filter fun r => r.target == target && r.state == .failed)

def restartObserved (existing : Option TargetRuntime) (ack : HelloAckMessage) : Bool :=
  existing.any fun runtime => runtime.term != 0 && decide (ack.term > runtime.term)

/-- The target's record as its acknowledgement has it. -/
def helloRuntime (target : TargetId) (existing : Option TargetRuntime) (ack : HelloAckMessage) (nowMillis : ℤ) :
    TargetRuntime :=
  let runtime := existing.getD {}
  { runtime with
    id := target
    klass := ack.targetClass
    guarantee := ack.guarantee
    term := ack.term
    incarnation := ack.incarnation
    committedGeneration := ack.committedGeneration
    committedDigest := ack.committedDigest
    committedArtifact := ack.committedArtifact
    lastContactMillis := nowMillis
    contactEstablishedThisProcess := false
    sessionsEstablished := (runtime.sessionsEstablished + 1) % 2 ^ 64
    restartsObserved :=
      if restartObserved existing ack then (runtime.restartsObserved + 1) % 2 ^ 64 else runtime.restartsObserved }

def adoptTarget (target : TargetId) (ack : HelloAckMessage) : Worker Status := do
  let existing := (← state).findTarget target
  let nowMillis ← clock
  match ← upsertTarget target existing (helloRuntime target existing ack nowMillis) with
  | .error e => return .error e
  | .ok () =>
    markContactCurrent target true nowMillis
    if restartObserved existing ack then rearmAfterRestart target ack.term else return .ok ()

/-- The tag of the last frame, where tags are checked. -/
def verifyTag (o : DistributorOptions) : Worker Status := do
  if o.authenticate then return (← Thread.ask).status else return .ok ()

/-- Everything after the acknowledgement has been decoded. -/
def admitTarget (o : DistributorOptions) (target : TargetId) (ack : HelloAckMessage) :
    Worker (Result SessionContext) := do
  match checkHelloAck ack with
  | .error e => return .error e
  | .ok () =>
    if ack.target ≠ target then
      return .fail .unauthorized "the peer identifies as a different target" (textString ack.target)
    match ← verifyTag o with
    | .error e => return .error e
    | .ok () =>
      match fenceTarget ((← state).findTarget target) ack with
      | .error e => return .error e
      | .ok () =>
        match ← transmit ⟨target, none, .helloConfirm⟩ with
        | .error e => return .error e
        | .ok () =>
          match ← adoptTarget target ack with
          | .error e => return .error e
          | .ok () =>
            return .ok {
              target
              targetTerm := ack.term
              targetIncarnation := ack.incarnation
              peerMaxPayload := min o.policy.maxPayloadBytes ack.maxPayloadBytes }

def handshake (o : DistributorOptions) (target : TargetId) : Worker (Result SessionContext) := do
  let epoch ← epoch
  let incarnation ← incarnation
  let nonce := (← Thread.ask).random
  let hello : HelloMessage :=
    { nodeId := o.nodeId, epoch, incarnation, nonce, maxPayloadBytes := o.policy.maxPayloadBytes }
  match ← transmit ⟨target, none, .message (.hello hello)⟩ with
  | .error e => return .error e
  | .ok () =>
    match ← Thread.hear with
    | .error e => return .error e
    | .ok (.reply (.authReject code detail)) => return .fail code "target refused the session" detail
    | .ok (.reply (.helloAck ack)) => admitTarget o target ack
    | .ok frame => return .fail .unexpectedMessage "expected a hello-ack from the target" frame.typeName

/-! Failures of a whole session. -/

def failAll (code : ErrorCode) (detail : Bytes) : List DeliveryRecord → Worker Unit
  | [] => return ()
  | record :: rest => do
    let _ ← recordFailure record code detail .own
    failAll code detail rest

def recordSessionFailure (target : TargetId) (e : Error) : Worker Unit := do
  let s ← state
  failAll e.code (text e.str) ((s.deliveries.map (·.2)).filter fun r => r.target == target && isPendingState r.state)
  match (← state).findTarget target with
  | none => return ()
  | some existing =>
    let _ ← upsertTarget target (some existing) { existing with contactEstablishedThisProcess := false }
    markContactCurrent target false 0

/-! Reconciliation. -/

/-- Older generations first, then by name. -/
def precedes (a b : DeliveryRecord) : Prop := a.generation < b.generation ∨ a.generation = b.generation ∧ ¬ b.id < a.id

instance : DecidableRel precedes := fun a b =>
  inferInstanceAs (Decidable (a.generation < b.generation ∨ a.generation = b.generation ∧ ¬ b.id < a.id))

def deliveriesOf (target : TargetId) (s : ControllerState) : List DeliveryRecord :=
  ((s.deliveries.map (·.2)).filter fun r => r.target == target).insertionSort precedes

def resolveWindow (session : SessionContext) (report : ReconcileReportMessage) (record : DeliveryRecord) :
    Worker Status := do
  let abort : ApplyAbortMessage := {
    deployment := report.preparedDeployment
    generation := if report.preparedGeneration ≠ 0 then report.preparedGeneration else record.generation
    reason := "distributor reconciliation resolved an unresolved prepare window" }
  match ← transmit ⟨session.target, some report.preparedDeployment, .message (.applyAbort abort)⟩ with
  | .error e => return .error e
  | .ok () =>
    match ← Thread.hear with
    | .error e => return .error e
    | .ok (.reply (.applyAbortAck _)) => return .ok ()
    | .ok _ => return .fail .unexpectedMessage "expected an apply-abort-ack"

def reconcileRecord (session : SessionContext) (report : ReconcileReportMessage) (record : DeliveryRecord) :
    Worker Status := do
  let decision := reconcileDelivery {
    report := some report
    sessionTerm := session.targetTerm
    sessionIncarnation := session.targetIncarnation
    desiredGeneration := record.generation
    desiredDigest := record.digest
    key := record.key
    deployment := record.id
    state := record.state
    guarantee := record.effectiveGuarantee
    requirement := record.requirement
    artifactAvailable := true }
  match decision.outcome with
  | .adoptActivation =>
    match ← adoptActivation record true (text ("reconciliation: " ++ decision.reason)) .report with
    | .error e => return .error e
    | .ok () =>
      let record ← snapshotDelivery record.id
      acknowledge record true
        (text ("acknowledgement recorded from a live reconcile report: " ++ decision.reason)) .report
  | .retireStale =>
    let reason := s!"reconciliation: the target is already at generation {decision.targetGeneration}"
    return (← recordRetired record (text reason) .report).1
  | .resolvePrepareWindow => resolveWindow session report record
  | .fenceAuthority => return .fail .fencedIncarnation decision.reason
  | .unknownAtTarget | .resumeTransfer | .driveNormally => return .ok ()

def reconcileRecords (session : SessionContext) (report : ReconcileReportMessage) : List DeliveryRecord → Worker Status
  | [] => return .ok ()
  | record :: rest => do
    if !isPendingState record.state then reconcileRecords session report rest
    else
      match ← reconcileRecord session report record with
      | .error e => return .error e
      | .ok () => reconcileRecords session report rest

def applyReconcileReport (session : SessionContext) (report : ReconcileReportMessage) : Worker Status := do
  reconcileRecords session report (deliveriesOf session.target (← state))

/-- The target's record as its report has it. -/
def reportRuntime (target : TargetId) (existing : Option TargetRuntime) (report : ReconcileReportMessage)
    (nowMillis : ℤ) : TargetRuntime :=
  { existing.getD {} with
    id := target
    klass := report.targetClass
    guarantee := report.guarantee
    term := report.term
    incarnation := report.incarnation
    committedGeneration := report.committedGeneration
    committedDigest := report.committedDigest
    committedArtifact := report.committedArtifact
    applyPrepared := report.applyPrepared
    preparedDeployment := report.preparedDeployment
    preparedGeneration := report.preparedGeneration
    preparedDigest := report.preparedDigest
    lastContactMillis := nowMillis
    contactEstablishedThisProcess := false }

def adoptReport (session : SessionContext) (report : ReconcileReportMessage) : Worker (Result SessionContext) := do
  if report.term = 0 ∨ !report.incarnation.isSet then
    return .fail .protocolViolation "reconcile report carries unset target authority"
  if report.target ≠ session.target then
    return .fail .unauthorized "the reconcile report names a different target" (textString report.target)
  if report.term ≠ session.targetTerm ∨ report.incarnation ≠ session.targetIncarnation then
    return .fail .fencedIncarnation "the reconcile report carries authority that does not match the session"
  let existing := (← state).findTarget session.target
  let nowMillis ← clock
  match ← upsertTarget session.target existing (reportRuntime session.target existing report nowMillis) with
  | .error e => return .error e
  | .ok () =>
    markContactCurrent session.target true nowMillis
    match ← applyReconcileReport session report with
    | .error e => return .error e
    | .ok () => return .ok { session with report := some report }

def reconcile (o : DistributorOptions) (session : SessionContext) : Worker (Result SessionContext) := do
  let epoch ← epoch
  let incarnation ← incarnation
  let request : ReconcileRequestMessage := {
    nodeId := o.nodeId
    epoch
    incarnation
    maxFindings := min o.policy.maxReconcileFindings kMaxFindingsInReport }
  match ← transmit ⟨session.target, none, .message (.reconcileRequest request)⟩ with
  | .error e => return .error e
  | .ok () =>
    match ← Thread.hear with
    | .error e => return .error e
    | .ok (.reply (.reconcileReport report)) => adoptReport session report
    | .ok frame => return .fail .unexpectedMessage "expected a reconcile report" frame.typeName

/-! Activation. -/

def stageDelivery (session : SessionContext) (record : DeliveryRecord) : Worker (Except Status DeliveryRecord) := do
  let stage : StageMessage := {
    deployment := record.id
    stream := deriveStreamId record.id record.attempt
    generation := record.generation
    digest := record.digest }
  match ← transmit ⟨session.target, some record.id, .message (.stage stage)⟩ with
  | .error e => return .error (.error e)
  | .ok () =>
    match ← Thread.hear with
    | .error e => return .error (.error e)
    | .ok (.reply (.deliveryNack nack)) => return .error (← recordFailure record nack.code (text nack.detail) .frame).1
    | .ok (.reply (.stageAck ack)) =>
      if !ack.staged then
        let code := if ack.code = .ok then .applyFailed else ack.code
        return .error (← recordFailure record code (text ack.detail) .frame).1
      match ← recordTransition record .staged .stagedAtTarget .ok
        (text "the target holds the verified artifact staged") false .frame with
      | (.error e, _) => return .error (.error e)
      | (.ok (), record) => return .ok record
    | .ok frame =>
      return .error (.fail .unexpectedMessage "expected a stage acknowledgement" frame.typeName)

def prepareApply (session : SessionContext) (record : DeliveryRecord) : Worker (Except Status DeliveryRecord) := do
  let prepare : ApplyPrepareMessage :=
    { deployment := record.id, generation := record.generation, digest := record.digest }
  match ← transmit ⟨session.target, some record.id, .message (.applyPrepare prepare)⟩ with
  | .error e => return .error (.error e)
  | .ok () =>
    match ← Thread.hear with
    | .error e => return .error (.error e)
    | .ok (.reply (.deliveryNack nack)) => return .error (← recordFailure record nack.code (text nack.detail) .frame).1
    | .ok (.reply (.applyPrepareAck ack)) =>
      if !ack.prepared then
        let code := if ack.code = .ok then .notPrepared else ack.code
        return .error (← recordFailure record code (text ack.detail) .frame).1
      match ← noteEvent record .applyPrepared
        (text "target entered a prepare window; activation is not atomic for this target") .frame with
      | (.error e, _) => return .error (.error e)
      | (.ok (), record) => return .ok record
    | .ok frame =>
      return .error (.fail .unexpectedMessage "expected an apply-prepare acknowledgement" frame.typeName)

/-- At most `rounds` frames are looked at. -/
def awaitAcknowledgement (session : SessionContext) (record : DeliveryRecord) : ℕ → Worker Status
  | 0 => .hang
  | rounds + 1 => do
    match ← Thread.hear with
    | .error e =>
      -- the activation was reported; losing the message loses the claim only
      if e.code = .peerIdleTimeout ∨ e.code = .connectionClosed then return .ok () else return .error e
    | .ok (.reply (.deliveryAck ack)) =>
      if ack.deployment ≠ record.id ∨ ack.generation ≠ record.generation ∨ ack.digest ≠ record.digest then
        return .fail .protocolViolation "the acknowledgement does not describe this deployment"
      if ack.term ≠ session.targetTerm ∨ ack.incarnation ≠ session.targetIncarnation then
        return .fail .fencedIncarnation "the acknowledgement carries target authority that is not current"
      match ← adoptActivation record ack.evidenceFromReconcile
        (text "the target reported the activation boundary under current authority") .frame with
      | .error e => return .error e
      | .ok () =>
        let record ← snapshotDelivery record.id
        let epoch ← epoch
        acknowledge record ack.evidenceFromReconcile
          (text s!"the activation acknowledgement was durably recorded under epoch {epoch}") .frame
    | .ok (.reply (.deliveryNack nack)) => return (← recordFailure record nack.code (text nack.detail) .frame).1
    | .ok (.ping nonce) =>
      match ← transmit ⟨session.target, some record.id, .pong nonce⟩ with
      | .error e => return .error e
      | .ok () => awaitAcknowledgement session record rounds
    | .ok frame =>
      return .fail .unexpectedMessage "unexpected message while awaiting an acknowledgement" frame.typeName

def commitApply (rounds : ℕ) (session : SessionContext) (record : DeliveryRecord) : Worker Status := do
  let commit : ApplyCommitMessage :=
    { deployment := record.id, generation := record.generation, digest := record.digest }
  match ← transmit ⟨session.target, some record.id, .message (.applyCommit commit)⟩ with
  | .error e => return .error e
  | .ok () =>
    match ← Thread.hear with
    | .error e => return .error e
    | .ok (.reply (.deliveryNack nack)) =>
      if nack.code = .staleGeneration then
        return (← recordRetired record (text ("the target fenced the commit as stale: " ++ nack.detail)) .frame).1
      return (← recordFailure record nack.code (text nack.detail) .frame).1
    | .ok (.reply (.applyCommitAck ack)) =>
      if !ack.committed then
        let code := if ack.code = .ok then .applyFailed else ack.code
        return (← recordFailure record code (text ack.detail) .frame).1
      if ack.committedGeneration ≠ record.generation ∨ ack.committedDigest ≠ record.digest then
        return (← recordFailure record .conflict
          (text "the target committed a different generation than the one requested") .frame).1
      match ← adoptActivation record false
        (text "the target reported the generation active at the commit boundary") .frame with
      | .error e => return .error e
      | .ok () =>
        let record ← snapshotDelivery record.id
        awaitAcknowledgement session record rounds
    | .ok frame => return .fail .unexpectedMessage "expected an apply-commit acknowledgement" frame.typeName

def stageIfVerified (session : SessionContext) (record : DeliveryRecord) : Worker (Except Status DeliveryRecord) :=
  if record.state = .verified then stageDelivery session record else return .ok record

def prepareIfGuaranteed (session : SessionContext) (record : DeliveryRecord) : Worker (Except Status DeliveryRecord) :=
  if record.effectiveGuarantee = .prepareCommitAbort then prepareApply session record else return .ok record

def activateDelivery (rounds : ℕ) (session : SessionContext) (record : DeliveryRecord) : Worker Status := do
  match ← stageIfVerified session record with
  | .error status => return status
  | .ok record =>
    match ← prepareIfGuaranteed session record with
    | .error status => return status
    | .ok record => commitApply rounds session record

/-! Transfer. -/

def prepareMessage (o : DistributorOptions) (session : SessionContext) (epoch : Epoch) (record : DeliveryRecord) :
    PrepareMessage :=
  let chunkBytes := min o.policy.transferChunkBytes (session.peerMaxPayload / 2) % 2 ^ 32
  let transfer := (session.report.bind fun report => findTransferStatus report record.id).filter fun t =>
    t.generation == record.generation && t.digest == record.digest
  { deployment := record.id
    key := record.key
    artifact := record.artifact
    generation := record.generation
    digest := record.digest
    sizeBytes := record.sizeBytes
    schema := record.schema
    schemaVersion := record.schemaVersion
    requirement := record.requirement
    guarantee := record.effectiveGuarantee
    authorityEpoch := epoch
    attempt := record.attempt
    stream := deriveStreamId record.id record.attempt
    chunkBytes := if chunkBytes = 0 then 1024 else chunkBytes
    resumeFromOffset := (transfer.map (·.bytesReceived)).getD 0 }

/-- The chunks from an offset on; a status when the transfer ends before the last one. -/
def streamChunks (session : SessionContext) (prepare : PrepareMessage) (record : DeliveryRecord) :
    ℕ → ℕ → Worker (Option Status)
  | 0, _ => .hang
  | rounds + 1, offset => do
    if offset ≥ record.sizeBytes then return none
    if (← Thread.ask).stopRequested then return some (.fail .cancelled "distributor is stopping")
    match (← Thread.ask).bytes with
    | .error e => return some (← recordFailure record e.code (text e.str) .own).1
    | .ok data =>
      if data = [] then
        return some (← recordFailure record .integrityFailure
          (text "the artifact ended before its declared size") .own).1
      let chunk : ChunkMessage := { stream := prepare.stream, sequence := offset, offset, data }
      match ← transmit ⟨session.target, some record.id, .message (.chunk chunk)⟩ with
      | .error e => return some (.error e)
      | .ok () =>
        match ← Thread.hear with
        | .error e => return some (.error e)
        | .ok (.reply (.deliveryNack nack)) =>
          return some (← recordFailure record nack.code (text nack.detail) .frame).1
        | .ok (.reply (.chunkAck ack)) =>
          if ack.stream ≠ prepare.stream then
            return some (.fail .protocolViolation "the chunk acknowledgement names a different stream")
          if ack.code ≠ .reorderedFrame ∧ ack.code ≠ .ok then
            return some (← recordFailure record ack.code (text ack.detail) .frame).1
          if ack.bytesReceived = offset then
            return some (← recordFailure record .protocolViolation
              (text "the target did not advance its accepted byte count") .frame).1
          streamChunks session prepare record rounds ack.bytesReceived
        | .ok frame =>
          return some (.fail .unexpectedMessage "expected a chunk acknowledgement" frame.typeName)

def verifyTransfer (rounds : ℕ) (session : SessionContext) (record : DeliveryRecord) : Worker Status := do
  match ← Thread.hear with
  | .error e => return .error e
  | .ok (.reply (.deliveryNack nack)) => return (← recordFailure record nack.code (text nack.detail) .frame).1
  | .ok (.reply (.transferResult result)) =>
    if !result.verified then
      let code := if result.code = .ok then .digestMismatch else result.code
      return (← recordFailure record code (text result.detail) .frame).1
    match ← recordTransition record .verified .digestVerified .ok
      (text "the target recomputed the digest and it matched") false .frame with
    | (.error e, _) => return .error e
    | (.ok (), record) => activateDelivery rounds session record
  | .ok frame => return .fail .unexpectedMessage "expected a transfer result" frame.typeName

def completeTransfer (rounds : ℕ) (session : SessionContext) (prepare : PrepareMessage) (record : DeliveryRecord) :
    Worker Status := do
  let complete : TransferCompleteMessage := {
    deployment := record.id
    stream := prepare.stream
    digest := record.digest
    sizeBytes := prepare.sizeBytes }
  match ← transmit ⟨session.target, some record.id, .message (.transferComplete complete)⟩ with
  | .error e => return .error e
  | .ok () =>
    if record.state = .offered ∨ record.state = .prepared then
      match ← recordTransition record .transferred .bytesAccepted .ok
        (text "all declared bytes were accepted by the target") false .frame with
      | (.error e, _) => return .error e
      | (.ok (), record) => verifyTransfer rounds session record
    else verifyTransfer rounds session record

def noteResume (record : DeliveryRecord) (resumeFrom : ℕ) : Worker (Status × DeliveryRecord) :=
  if resumeFrom ≠ 0 then noteEvent record .bytesAccepted (text s!"resuming the transfer at byte {resumeFrom}") .frame
  else return (.ok (), record)

def transferArtifact (rounds : ℕ) (session : SessionContext) (prepare : PrepareMessage) (record : DeliveryRecord)
    (resumeFrom : ℕ) : Worker Status := do
  match (← Thread.ask).artifact with
  | .error e => return (← recordFailure record .artifactUnavailable (text e.str) .own).1
  | .ok () =>
    match ← noteResume record resumeFrom with
    | (.error e, _) => return .error e
    | (.ok (), record) =>
      match ← streamChunks session prepare record rounds resumeFrom with
      | some status => return status
      | none => completeTransfer rounds session prepare record

/-- The target's answer to an offer. -/
def awaitPrepare (rounds : ℕ) (session : SessionContext) (prepare : PrepareMessage) (record : DeliveryRecord) :
    Worker Status := do
  match ← Thread.hear with
  | .error e => return .error e
  | .ok (.reply (.prepareAck ack)) =>
    if ack.deployment ≠ record.id ∨ ack.stream ≠ prepare.stream then
      return .fail .protocolViolation "the prepare acknowledgement does not describe this deployment"
    if ack.duplicateSuppressed then
      match ← adoptActivation record false
        (text "the target reported this generation already active and suppressed the duplicate") .frame with
      | .error e => return .error e
      | .ok () =>
        let record ← snapshotDelivery record.id
        return ← acknowledge record false
          (text "acknowledgement recorded from the target's duplicate suppression") .frame
    transferArtifact rounds session prepare record ack.resumeFromOffset
  | .ok (.reply (.prepareReject reject)) =>
    if isTerminalRejection reject.code then return (← recordRejected record reject.code (text reject.detail) .frame).1
    if reject.code = .staleGeneration then
      return (← recordRetired record (text ("the target refused a stale generation: " ++ reject.detail)) .frame).1
    if reject.code = .generationConflict then
      return (← recordRejected record reject.code
        (text ("the target has different content for this generation: " ++ reject.detail)) .frame).1
    return (← recordFailure record reject.code (text reject.detail) .frame).1
  | .ok (.reply (.deliveryNack nack)) => return (← recordFailure record nack.code (text nack.detail) .frame).1
  | .ok frame => return .fail .unexpectedMessage "expected a prepare response" frame.typeName

def offerAndTransfer (o : DistributorOptions) (rounds : ℕ) (session : SessionContext) (record : DeliveryRecord) :
    Worker Status := do
  let epoch ← epoch
  let prepare := prepareMessage o session epoch record
  match ← transmit ⟨session.target, some record.id, .message (.prepare prepare)⟩ with
  | .error e => return .error e
  | .ok () =>
    if record.state = .prepared then
      match ← recordTransition record .offered .offeredToTarget .ok (text "offer sent to the target") false .own with
      | (.error e, _) => return .error e
      | (.ok (), record) => awaitPrepare rounds session prepare record
    else awaitPrepare rounds session prepare record

/-! Driving the deliveries. -/

/-- What a rejection that the policy decides is recorded as. -/
def rejectionCode (input : DecisionInput) (record : DeliveryRecord) : ErrorCode :=
  if !guaranteeSatisfies input.targetGuarantee record.requirement then .guaranteeUnsupported
  else if !input.artifactAvailable then .artifactUnavailable
  else .policyDenied

def retryCode (record : DeliveryRecord) : ErrorCode := if record.lastError = .ok then .ioFailure else record.lastError

/-- The budget is exhausted. -/
def giveUp (record : DeliveryRecord) (reason : String) : Worker Status := do
  if record.state = .failed then return .ok ()
  match ← recordTransition record .failed .failureReported record.lastError (text reason) false .own with
  | (.error e, _) => return .error e
  | (.ok (), failed) => upsertDelivery failed .own

def offerDelivery (o : DistributorOptions) (rounds : ℕ) (session : SessionContext) (record : DeliveryRecord) :
    Worker Status := do
  if record.state = .failed then
    let attempt := (record.attempt + 1) % 2 ^ 64
    match ← recordTransition record .prepared .retried .ok
      (text s!"retry attempt {attempt} begins; the delivery re-enters at the offer boundary") false .own with
    | (.error e, _) => return .error e
    | (.ok (), record) => offerAndTransfer o rounds session record
  else offerAndTransfer o rounds session record

/-- At most `steps` protocol steps of one delivery. -/
def driveDelivery (o : DistributorOptions) (rounds : ℕ) (session : SessionContext) (id : DeploymentId) :
    ℕ → Worker Status
  | 0 => return .ok ()
  | steps + 1 => do
    if (← Thread.ask).stopRequested then return .fail .cancelled "distributor is stopping"
    let record ← snapshotDelivery id
    if record.id = [] then return .ok ()
    let nowMillis ← clock
    let input ← decisionInputFor o.policy record nowMillis
    let epoch ← epoch
    let decision := o.policy.decide input epoch record.generation
    match decision.action with
    | .none | .wait | .reconcile => return .ok ()
    | .reject => return (← recordRejected record (rejectionCode input record) (text decision.reason) .own).1
    | .retire => return (← recordRetired record (text decision.reason) .own).1
    | .giveUp => giveUp record decision.reason
    | .recordFailureAndRetry => return (← recordFailure record (retryCode record) (text decision.reason) .own).1
    | .offer | .resumeTransfer =>
      match ← offerDelivery o rounds session record with
      | .error e => return .error e
      | .ok () => driveDelivery o rounds session id steps
    | .activate =>
      match ← activateDelivery rounds session record with
      | .error e => return .error e
      | .ok () => driveDelivery o rounds session id steps

/-- Errors that end the session at once. -/
def endsSession (code : ErrorCode) : Bool :=
  code ∈ [.connectionClosed, .connectionReset, .truncatedFrame, .peerIdleTimeout]

def driveAll (o : DistributorOptions) (rounds : ℕ) (session : SessionContext) : List DeliveryRecord → ℕ → Worker Status
  | [], _ => return .ok ()
  | queued :: rest, errors => do
    if (← Thread.ask).stopRequested then return .fail .cancelled "distributor is stopping"
    match ← driveDelivery o rounds session queued.id kMaxStepsPerDelivery with
    | .ok () => driveAll o rounds session rest errors
    | .error e =>
      if endsSession e.code ∨ errors + 1 ≥ kMaxSessionErrors then return .error e
      driveAll o rounds session rest (errors + 1)

def driveDeliveries (o : DistributorOptions) (rounds : ℕ) (session : SessionContext) : Worker Status := do
  driveAll o rounds session ((deliveriesOf session.target (← state)).filter (isPendingState ·.state)) 0

def reconcileAndDrive (o : DistributorOptions) (rounds : ℕ) (session : SessionContext) : Worker Unit := do
  match ← reconcile o session with
  | .error e => recordSessionFailure session.target e
  | .ok session =>
    let _ ← driveDeliveries o rounds session
    return ()

def runSession (o : DistributorOptions) (rounds : ℕ) (target : TargetId) : Worker Unit := do
  match (← Thread.ask).status with
  | .error e => recordSessionFailure target e
  | .ok () =>
    match ← handshake o target with
    | .error e => recordSessionFailure target e
    | .ok session =>
      reconcileAndDrive o rounds session
      -- the connection may be gone by now
      let _ ← transmit ⟨target, none, .message .goodbye⟩
      return ()

end Distributor

end ConfigurationFabric
