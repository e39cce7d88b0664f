import ConfigurationFabric.Agent

namespace ConfigurationFabric

open LittleEndian
open Program

namespace Agent

/-- The committed generation is set and newer than `generation`. -/
def stale (s : AgentState) (generation : Generation) : Bool :=
  s.committedGeneration ≠ 0 && generation < s.committedGeneration

/-- Another content is committed for the same generation. -/
def conflicting (s : AgentState) (generation : Generation) (digest : Digest) : Bool :=
  s.committedGeneration ≠ 0 && generation = s.committedGeneration && digest ≠ s.committedDigest

def observed (s : AgentState) : DeliveryState := if s.committedGeneration ≠ 0 then .applied else .prepared

/-- Where a transfer that is already known can be taken up again. -/
def resumePoint (m : PrepareMessage) : Agent ℕ := do
  match (← state).transfers.find m.deployment with
  | none => return 0
  | some record =>
    let onDisk := ((← Prog.read).files.staging.lookup (stagingPath m.deployment)).map (·.length)
    -- the key is no part of what counts as the same content
    if record.digest = m.digest ∧ record.generation = m.generation ∧ record.totalBytes = m.sizeBytes then
      if record.verified then
        if onDisk = some record.totalBytes then return record.totalBytes
        destroyTransfer m.deployment
        return 0
      else
        match onDisk with
        | some size => return min record.bytesReceived size
        | none => return 0
    else
      destroyTransfer m.deployment
      return 0

def onPrepare (o : AgentOptions) (m : PrepareMessage) : Agent Status := do
  let s ← state
  if m.sizeBytes > o.maxArtifactBytes then
    return ← refusePrepare m .oversizePayload "artifact exceeds this target's size bound" (observed s)
  if stale s m.generation then
    setState fun s => { s with staleOffersRefused := increment s.staleOffersRefused }
    commit (rollbackPayload (← state))
    return ← refusePrepare m .staleGeneration "offered generation is older than the committed generation" .applied
  if conflicting s m.generation m.digest then
    setState fun s => { s with staleOffersRefused := increment s.staleOffersRefused }
    commit (rollbackPayload (← state))
    return ← refusePrepare m .generationConflict
      "a different content digest is already committed for this generation" .applied
  if !guaranteeSatisfies s.guarantee m.requirement then
    return ← refusePrepare m .guaranteeUnsupported
      ("target offers '" ++ applyGuaranteeName s.guarantee ++ "' which cannot satisfy '" ++
        guaranteeRequirementName m.requirement ++ "'") .prepared
  if s.applyPrepared then
    return ← refusePrepare m .busy "an unresolved prepare window is open on this target" .staged
  let ack : PrepareAckMessage := {
    deployment := m.deployment, stream := m.stream
    committedGeneration := s.committedGeneration, committedDigest := s.committedDigest
    priorGeneration := s.committedGeneration, priorDigest := s.committedDigest, priorState := observed s }
  match (s.findFinding m.key m.digest).filter fun f => isActivationState f.state && f.generation == m.generation with
  | some finding =>
    setState fun s => { s with duplicatesSuppressed := increment s.duplicatesSuppressed }
    commit (rollbackPayload (← state))
    send (.prepare m) (.prepareAck {
      ack with
      duplicateSuppressed := true, priorState := finding.state, priorGeneration := finding.generation
      priorDigest := finding.digest, resumeFromOffset := m.sizeBytes })
  | none =>
    let resumeFrom ← resumePoint m
    beginTransfer m resumeFrom
    send (.prepare m) (.prepareAck { ack with resumeFromOffset := resumeFrom })

/-- Writing at an offset; a gap behind the end of the file reads as zeros. -/
def overwriteAt (content : Bytes) (offset : ℕ) (data : Bytes) : Bytes :=
  if data = [] then content
  else (content ++ List.replicate (offset - content.length) 0).take offset ++ data ++
    content.drop (offset + data.length)

def kTransferCheckpointChunks : ℕ := 16

/-- The bytes of a chunk on their way to the staging file; the code of a refusal and its detail. -/
def writeChunk (deployment : DeploymentId) (current : TransferRecord) (m : ChunkMessage) :
    Agent (Option (ErrorCode × String)) := do
  let path := stagingPath deployment
  let before := (← Prog.read).files.staging.lookup path
  -- "wb" creates or empties the file, "r+b" needs it
  if !(← succeeds) ∨ (current.bytesReceived ≠ 0 ∧ before = none) then
    return some (.ioFailure, "cannot open the staging file")
  let content := if current.bytesReceived = 0 then [] else before.getD []
  Prog.modify (World.writeStaging path content)
  let env ← Prog.ask
  Prog.modify (World.writeStaging path (overwriteAt content m.offset (m.data.take env.count)))
  if !env.ok then return some (.ioFailure, "cannot persist the chunk")
  Prog.modify (World.writeStaging path (overwriteAt content m.offset m.data))
  if !(← succeeds) then return some (.ioFailure, "cannot persist the chunk")
  return none

def onChunk (m : ChunkMessage) : Agent Status := do
  let s ← state
  let respond (ack : ChunkAckMessage) : Agent Status := send (.chunk m) (.chunkAck ack)
  match s.transfers.find? fun e => e.2.stream == m.stream && e.1 ≠ [] with
  | none =>
    respond {
      stream := m.stream, sequence := m.sequence, code := .notFound
      detail := "no transfer is open for this stream" }
  | some (deployment, current) =>
    let ack : ChunkAckMessage := {
      stream := m.stream, sequence := m.sequence, bytesReceived := current.bytesReceived }
    if m.offset ≠ current.bytesReceived then
      return ← respond { ack with
        code := .reorderedFrame
        detail := if m.offset < current.bytesReceived then "duplicate chunk" else "chunk arrived out of order" }
    match checkedAdd m.offset m.data.length with
    | none =>
      respond { ack with code := .sizeMismatch, detail := "chunk would extend past the declared artifact size" }
    | some finish =>
      if finish > current.totalBytes then
        return ← respond { ack with
          code := .sizeMismatch, detail := "chunk would extend past the declared artifact size" }
      match ← writeChunk deployment current m with
      | some (code, detail) => respond { ack with code, detail }
      | none =>
        let updatedAtMillis ← now
        let updated := { current with bytesReceived := finish, updatedAtMillis }
        Prog.modify fun w => { w with chunkCounter := w.chunkCounter + 1 }
        if (← Prog.read).chunkCounter % kTransferCheckpointChunks = 0 ∨ finish = current.totalBytes then
          checkpointTransfer updated
        else Prog.modify (World.remember deployment updated)
        respond { ack with bytesReceived := finish }

/-- Content that does not hash to its digest is destroyed and reported. -/
def rejectTransfer (m : TransferCompleteMessage) (current : TransferRecord) (actual : Result Digest) :
    Agent Status := do
  setState fun s => { s with digestRejections := increment s.digestRejections }
  commit (rollbackPayload (← state))
  destroyTransfer m.deployment
  let code := match actual with
    | .ok _ => ErrorCode.digestMismatch
    | .error e => e.code
  match ← send (.transferComplete m) (.transferResult {
      deployment := m.deployment, stream := m.stream, bytesReceived := current.bytesReceived, code
      detail := "the staged content does not hash to the declared digest" }) with
  | .error e => return .error e
  | .ok () =>
    sendNack (.transferComplete m) m.deployment current.key current.generation current.digest .digestMismatch
      "digest mismatch at the target"

def onTransferComplete (m : TransferCompleteMessage) : Agent Status := do
  let s ← state
  let respond (result : TransferResultMessage) : Agent Status := send (.transferComplete m) (.transferResult result)
  let result : TransferResultMessage := { deployment := m.deployment, stream := m.stream }
  match s.transfers.find m.deployment with
  | none => respond { result with code := .notFound, detail := "no transfer is open for this deployment" }
  | some current =>
    let result := { result with bytesReceived := current.bytesReceived }
    if current.bytesReceived ≠ current.totalBytes then
      return ← respond { result with code := .sizeMismatch, detail := "the transfer is incomplete at the target" }
    if m.digest ≠ current.digest ∨ m.sizeBytes ≠ current.totalBytes then
      return ← respond { result with
        code := .conflict, detail := "the completion message describes different content" }
    let content := (← Prog.read).files.staging.lookup (stagingPath m.deployment)
    let actual ← hashStagingFile content current.totalBytes
    if actual = .ok current.digest then
      let updatedAtMillis ← now
      checkpointTransfer { current with verified := true, updatedAtMillis }
      respond { result with verified := true, code := .ok }
    else rejectTransfer m current actual

def onStage (m : StageMessage) : Agent Status := do
  let s ← state
  let respond (ack : StageAckMessage) : Agent Status := send (.stage m) (.stageAck ack)
  let ack : StageAckMessage := { deployment := m.deployment }
  match s.transfers.find m.deployment with
  | none => respond { ack with code := .notFound, detail := "no transfer is open for this deployment" }
  | some current =>
    if !current.verified then
      return ← respond { ack with code := .notPrepared, detail := "the staged artifact has not been verified" }
    if m.digest ≠ current.digest ∨ m.generation ≠ current.generation then
      return ← respond { ack with code := .conflict, detail := "the stage message describes different content" }
    if stale s m.generation then
      return ← respond { ack with
        code := .staleGeneration, detail := "staging a generation older than the committed one is refused" }
    if !(← succeeds) then
      return ← respond { ack with code := .openFailed, detail := "cannot create the live payload directory" }
    let name := payloadName (liveKeyDirectory current.key) current.generation current.digest
    match ← copyFileAtomic (stagingPath m.deployment) name with
    | .error e => respond { ack with code := e.code, detail := "cannot place the artifact into the live area" }
    | .ok () =>
      let updatedAtMillis ← now
      checkpointTransfer { current with staged := true, updatedAtMillis }
      respond { ack with staged := true, code := .ok }

/-! Activation. -/

/-- The prepare marker on disk, then its durable record. -/
def openWindow (r : TransferRecord) (marker : PointerValue) : Agent Status := do
  let directory := liveKeyDirectory r.key
  match ← writeFileAtomic (.onFiles (·.putPending directory marker)) (·.dropPending directory) with
  | .error e => return .error e
  | .ok () =>
    commit (.applyPrepared r.deployment r.generation r.digest)
    return .ok ()

def onApplyPrepare (m : ApplyPrepareMessage) : Agent Status := do
  let s ← state
  let respond (ack : ApplyPrepareAckMessage) : Agent Status := send (.applyPrepare m) (.applyPrepareAck ack)
  let ack : ApplyPrepareAckMessage := { deployment := m.deployment }
  if s.guarantee = .atomicActivate then
    return ← respond { ack with
      code := .unexpectedMessage
      detail := "this target activates atomically; a prepare/commit window would weaken its contract" }
  match (s.transfers.find m.deployment).filter (·.staged) with
  | none =>
    respond { ack with code := .notPrepared, detail := "no staged artifact is available for this deployment" }
  | some current =>
    if stale s m.generation then
      return ← respond { ack with
        code := .staleGeneration, detail := "prepare refused: the generation is older than the committed one" }
    if m.digest ≠ current.digest ∨ m.generation ≠ current.generation then
      return ← respond { ack with code := .conflict, detail := "prepare describes different content" }
    if s.applyPrepared then
      return ← respond { ack with code := .busy, detail := "a prepare window is already open" }
    match ← openWindow current { current.pointer with artifact := [] } with
    | .error e => respond { ack with code := e.code, detail := "cannot write the prepare marker" }
    | .ok () => respond { ack with prepared := true, code := .ok }

def findingOf (c : TransferRecord) (recordedAtMillis : ℤ) : AppliedFinding where
  key := c.key
  generation := c.generation
  digest := c.digest
  artifact := c.artifact
  deployment := c.deployment
  state := .applied
  recordedAtMillis := recordedAtMillis

/-- The durable records of an activation, once an open window has been resolved. -/
def recordActivation (c : TransferRecord) : Agent Unit := do
  commit (.targetCommit c.generation c.digest c.artifact)
  let recordedAtMillis ← now
  commit (.findingUpsert (findingOf c recordedAtMillis))
  setState fun s => { s with
    activations := if s.activations ≠ 2 ^ 64 - 1 then s.activations + 1 else s.activations }
  commit (rollbackPayload (← state))

def commitGeneration (c : TransferRecord) : Agent Unit := do
  let s ← state
  if s.applyPrepared then commit (.applyResolved (increment s.activations))
  recordActivation c

/-- The activation switch: the live pointer is replaced by a rename. -/
def switchPointer (r : TransferRecord) : Agent Status :=
  writeFileAtomic (World.switch r) (·.dropCurrent (liveKeyDirectory r.key))

def activate (o : AgentOptions) (r : TransferRecord) (explicitPrepare : Bool) : Agent Status := do
  let s ← state
  let prepared ← if explicitPrepare && !s.applyPrepared then openWindow r r.pointer else pure (.ok ())
  match prepared with
  | .error e => return .error e
  | .ok () =>
    match ← switchPointer r with
    | .error e => return .error e
    | .ok () =>
      if explicitPrepare then remove (·.dropPending (liveKeyDirectory r.key))
      commitGeneration r
      prunePayloads o r.key
      return .ok ()

/-- An answer to a commit and the evidence that follows it. -/
def refuseCommit (m : ApplyCommitMessage) (ack : ApplyCommitAckMessage) (key : ConfigKey) (detail : String) :
    Agent Status := do
  match ← send (.applyCommit m) (.applyCommitAck ack) with
  | .error e => return .error e
  | .ok () => sendNack (.applyCommit m) m.deployment key m.generation m.digest ack.code detail

def confirmCommit (session : Session) (m : ApplyCommitMessage) (ack : ApplyCommitAckMessage) (key : ConfigKey)
    (bytesTransferred : ℕ) : Agent Status := do
  match ← send (.applyCommit m) (.applyCommitAck ack) with
  | .error e => return .error e
  | .ok () => sendAck session (.applyCommit m) m.deployment key m.generation m.digest bytesTransferred

def onApplyCommit (o : AgentOptions) (session : Session) (m : ApplyCommitMessage) : Agent Status := do
  let s ← state
  let ack : ApplyCommitAckMessage := {
    deployment := m.deployment, state := observed s
    committedGeneration := s.committedGeneration, committedDigest := s.committedDigest }
  if stale s m.generation then
    setState fun s => { s with staleOffersRefused := increment s.staleOffersRefused }
    commit (rollbackPayload (← state))
    return ← refuseCommit m { ack with
      code := .staleGeneration
      detail := "commit refused: the generation is older than the committed one" } []
      "stale commit refused at the target"
  if s.committedGeneration ≠ 0 ∧ m.generation = s.committedGeneration ∧ m.digest = s.committedDigest then
    setState fun s => { s with duplicatesSuppressed := increment s.duplicatesSuppressed }
    commit (rollbackPayload (← state))
    return ← confirmCommit session m { ack with
      committed := true, state := .applied, code := .duplicateSuppressed
      detail := "the generation is already active; the commit was not re-applied" } [] 0
  if conflicting s m.generation m.digest then
    return ← refuseCommit m { ack with
      code := .generationConflict
      detail := "a different digest is already committed for this generation" } []
      "generation conflict at the target"
  match (s.transfers.find m.deployment).filter (·.staged) with
  | none =>
    -- the key of a finding is not looked at here
    if s.findings.any fun f =>
        f.generation == m.generation && f.digest == m.digest && isActivationState f.state then
      confirmCommit session m { ack with
        committed := true, state := .applied, code := .duplicateSuppressed
        detail := "activation for this content is already recorded" } [] 0
    else
      refuseCommit m { ack with
        code := .notPrepared, detail := "no staged artifact is available for this deployment" } []
        "commit without a staged artifact"
  | some current =>
    if m.digest ≠ current.digest ∨ m.generation ≠ current.generation then
      return ← refuseCommit m { ack with
        code := .conflict, detail := "commit describes different content than the staged artifact" } current.key
        "commit content conflict"
    if s.guarantee = .prepareCommitAbort ∧ !s.applyPrepared then
      return ← refuseCommit m { ack with
        code := .notPrepared, detail := "this target requires an explicit prepare window before a commit" }
        current.key "this target requires an explicit prepare window before a commit"
    if s.applyPrepared ∧ s.preparedDeployment ≠ m.deployment then
      return ← refuseCommit m { ack with
        code := .conflict, detail := "a different deployment holds the open prepare window" } current.key
        "a different deployment holds the open prepare window"
    match ← activate o current (s.guarantee == .prepareCommitAbort) with
    | .error e => refuseCommit m { ack with code := e.code, detail := e.str } current.key e.str
    | .ok () =>
      let s ← state
      confirmCommit session m { ack with
        committed := true, state := .applied, code := .ok
        committedGeneration := s.committedGeneration, committedDigest := s.committedDigest } current.key
        current.totalBytes

def onApplyAbort (m : ApplyAbortMessage) : Agent Status := do
  let s ← state
  let respond (ack : ApplyAbortAckMessage) : Agent Status := send (.applyAbort m) (.applyAbortAck ack)
  let ack : ApplyAbortAckMessage := { deployment := m.deployment }
  if !s.applyPrepared then
    return ← respond { ack with code := .notPrepared, detail := "no prepare window is open" }
  if m.deployment ≠ s.preparedDeployment ∨ m.generation ≠ s.preparedGeneration then
    return ← respond { ack with code := .conflict, detail := "the abort describes a different prepare window" }
  match s.transfers.find? fun e => e.2.deployment == s.preparedDeployment with
  | some (_, r) => remove (·.dropPending (liveKeyDirectory r.key))
  | none => pure ()
  setState fun s => { s with applyRollbacks := increment s.applyRollbacks }
  commit (rollbackPayload (← state))
  commit (.applyResolved (← state).activations)
  respond { ack with aborted := true, code := .ok }

def transferStatus (f : Files) (r : TransferRecord) : TransferStatusRecord :=
  let onDisk := ((f.staging.lookup (stagingPath r.deployment)).map (·.length)).getD 0
  let bytesReceived := min r.bytesReceived onDisk
  { deployment := r.deployment, stream := r.stream, key := r.key, generation := r.generation, digest := r.digest
    totalBytes := r.totalBytes, bytesReceived
    verified := r.verified && bytesReceived == r.totalBytes, staged := r.staged }

def reconcileReport (s : AgentState) (f : Files) (maxFindings : ℕ) : ReconcileReportMessage where
  target := s.target
  targetClass := s.klass
  guarantee := s.guarantee
  term := s.term
  incarnation := s.incarnation
  committedGeneration := s.committedGeneration
  committedDigest := s.committedDigest
  committedArtifact := s.committedArtifact
  applyPrepared := s.applyPrepared
  preparedDeployment := s.preparedDeployment
  preparedGeneration := s.preparedGeneration
  preparedDigest := s.preparedDigest
  restartCount := s.restartCount
  applyRollbacks := min s.applyRollbacks (2 ^ 32 - 1)
  transfers := (s.transfers.take kMaxTransfersInReport).map fun e => transferStatus f e.2
  findings := s.findings.drop (s.findings.length - min (min maxFindings kMaxFindingsInReport) s.findings.length)

def onReconcileRequest (m : ReconcileRequestMessage) : Agent Status := do
  let w ← Prog.read
  send (.reconcileRequest m) (.reconcileReport (reconcileReport w.mem w.files m.maxFindings))

def onRetire (m : RetireMessage) : Agent Status := do
  let s ← state
  if s.committedGeneration ≠ 0 ∧ m.generation ≥ s.committedGeneration then
    return ← send (.retire m) (.retireAck { deployment := m.deployment, retired := false })
  destroyTransfer m.deployment
  send (.retire m) (.retireAck { deployment := m.deployment, retired := true })

def dispatch (o : AgentOptions) (session : Session) : Message → Agent Status
  | .prepare m => onPrepare o m
  | .chunk m => onChunk m
  | .transferComplete m => onTransferComplete m
  | .stage m => onStage m
  | .applyPrepare m => onApplyPrepare m
  | .applyCommit m => onApplyCommit o session m
  | .applyAbort m => onApplyAbort m
  | .reconcileRequest m => onReconcileRequest m
  | .retire m => onRetire m
  | .ping nonce => send (.ping nonce) (.pong nonce)
  | .goodbye => return .ok ()
  | .hello _ | .unexpected => return .fail .unexpectedMessage "message is not valid on an agent session"

end Agent

end ConfigurationFabric
