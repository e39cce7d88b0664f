import ConfigurationFabric.Library.Threads
import ConfigurationFabric.Reconciliation
import ConfigurationFabric.StateApply

/-! The distributor: its state, the records it writes and the evidence it keeps on a delivery. -/

namespace ConfigurationFabric

open LittleEndian
open Threads

/-! Durable records, as the distributor writes them. -/

inductive ControllerRecord
  | identity (nodeId : NodeId) (epoch : Epoch) (incarnation : IncarnationId) (startedAtMillis : ℤ)
  | targetUpsert (runtime : TargetRuntime)
  | deliveryUpsert (record : DeliveryRecord)
  | deliveryRemove (id : DeploymentId)
  | artifactUpsert (metadata : ArtifactMetadata)

def ControllerRecord.apply (s : ControllerState) : ControllerRecord → ControllerState
  | .identity nodeId epoch incarnation startedAtMillis => { s with nodeId, epoch, incarnation, startedAtMillis }
  | .targetUpsert runtime => ControllerStateCodec.setTarget { runtime with contactEstablishedThisProcess := false } s
  | .deliveryUpsert record => { s with deliveries := s.deliveries.insert record.id record }
  | .deliveryRemove id => { s with deliveries := s.deliveries.erase id }
  | .artifactUpsert metadata => { s with artifacts := s.artifacts.insert metadata.digest metadata }

/-- The store's state in memory, and what replaying its journal gives. -/
structure Controller where
  mem : ControllerState := {}
  dur : ControllerState := {}

def Controller.commit (durable : Bool) (r : ControllerRecord) (c : Controller) : Controller :=
  ⟨r.apply c.mem, if durable then r.apply c.dur else c.dur⟩

/-- Why a delivery is written: the controller's own reasons, the last frame of the target, or its reconcile report. -/
inductive Cause
  | own | frame | report
  deriving DecidableEq

/-- The copy a thread holds of what it writes back. -/
inductive Copy
  | delivery (record : DeliveryRecord) (cause : Cause)
  | target (id : TargetId) (runtime : Option TargetRuntime)
  | own

/-- A record that cannot be encoded leaves no trace; a journal that fails leaves it in memory. -/
inductive CommitOutcome
  | done
  | refused (e : Error)
  | failed (e : Error) (durable : Bool)

/-- What the outside decides at one operation. -/
structure Choice where
  now : ℤ := 0
  stopRequested : Bool := false
  /-- of encoding and sending a frame, and of connecting -/
  status : Status := .ok ()
  artifact : Status := .ok ()
  outcome : CommitOutcome := .done
  bytes : Result Bytes := .ok []
  present : Bool := true
  random : FixedBytes 16 := .zero 16

inductive Outgoing
  | message (m : Message)
  | helloConfirm
  | pong (nonce : ℕ)
  deriving DecidableEq

/-- A frame to a target, with the delivery it is about. -/
structure Request where
  target : TargetId
  about : Option DeploymentId
  frame : Outgoing
  deriving DecidableEq

inductive Incoming
  | reply (r : Reply)
  | ping (nonce : ℕ)
  | other (type : String)

abbrev Worker (α : Type) := Thread Controller Copy Choice Request (Result Incoming) α

structure DistributorOptions where
  nodeId : NodeId
  policy : DistributorPolicy := {}
  authenticate : Bool := true

namespace Distributor

def clock : Worker ℤ := do
  return (← Thread.ask).now

def state : Worker ControllerState := do
  return (← Thread.view).mem

/-- One critical section around a commit; it gives the state found there. -/
def commit (copy : Copy) (make : ControllerState → ControllerRecord) : Worker (Status × ControllerState) := do
  match (← Thread.ask).outcome with
  | .refused e => return (.error e, ← state)
  | .failed e durable =>
    let before ← Thread.update copy fun c => c.commit durable (make c.mem)
    return (.error e, before.mem)
  | .done =>
    let before ← Thread.update copy fun c => c.commit true (make c.mem)
    return (.ok (), before.mem)

def epoch : Worker Epoch := do
  return (← state).epoch

def incarnation : Worker IncarnationId := do
  return (← state).incarnation

def transmit (request : Request) : Worker Status := do
  match (← Thread.ask).status with
  | .error e => return .error e
  | .ok () =>
    Thread.send request
    return .ok ()

/-! Targets. -/

/-- The record as edited from the copy the thread has read. -/
def upsertTarget (id : TargetId) (copy : Option TargetRuntime) (runtime : TargetRuntime) : Worker Status := do
  return (← commit (.target id copy) fun _ => .targetUpsert runtime).1

def markContact (target : TargetId) (current : Bool) (atMillis : ℤ) (s : ControllerState) :
    ControllerState :=
  match s.targets.find target with
  | none => s
  | some runtime =>
    { s with
      targets := s.targets.insert target { runtime with
        contactEstablishedThisProcess := current
        lastContactMillis := if atMillis > 0 then atMillis else runtime.lastContactMillis } }

/-- In memory only. -/
def markContactCurrent (target : TargetId) (current : Bool) (atMillis : ℤ) : Worker Unit := do
  let _ ← Thread.update .own fun c => { c with mem := markContact target current atMillis c.mem }
  return ()

/-! Deliveries. A worker keeps a copy of the record and writes all of it back. -/

def snapshotDelivery (id : DeploymentId) : Worker DeliveryRecord := do
  return ((← state).findDelivery id).getD {}

def commitDelivery (copy : DeliveryRecord) (cause : Cause) (make : ControllerState → DeliveryRecord) :
    Worker (Status × DeliveryRecord) := do
  -- a record without a name does not decode again, and the store refuses it
  match parseDeploymentId copy.id with
  | .error e => return (.error e, make (← state))
  | .ok _ =>
    let (status, before) ← commit (.delivery copy cause) fun s => .deliveryUpsert (make s)
    return (status, make before)

def upsertDelivery (record : DeliveryRecord) (cause : Cause) : Worker Status := do
  return (← commitDelivery record cause fun _ => record).1

def decisionInputFor (p : DistributorPolicy) (record : DeliveryRecord) (nowMillis : ℤ) : Worker DecisionInput := do
  return buildDecisionInput (← state) p record nowMillis

def appendEvent (events : List LifecycleEvent) (e : LifecycleEvent) : List LifecycleEvent :=
  let all := events ++ [e]
  all.drop (all.length - kMaxEventsPerDelivery)

/-- The record after a transition, with its event. -/
def moved (record : DeliveryRecord) (target : DeliveryState) (kind : EvidenceKind) (code : ErrorCode) (detail : Bytes)
    (fromReconciliation : Bool) (nowMillis : ℤ) (s : ControllerState) : DeliveryRecord :=
  { record with
    state := target
    updatedAtMillis := nowMillis
    authorityEpoch := s.epoch
    authorityIncarnation := s.incarnation
    lastError := code
    lastDirective := retryDirectiveFor code
    lastDetail := detail
    events := appendEvent record.events {
      kind
      source := record.state
      target
      generation := record.generation
      digest := record.digest
      code
      directive := retryDirectiveFor code
      authorityEpoch := s.epoch
      authorityIncarnation := s.incarnation
      targetTerm := record.targetTerm
      targetIncarnation := record.targetIncarnation
      fromReconciliation
      atMillis := nowMillis
      detail } }

def illegalTransition (source target : DeliveryState) : Error where
  code := .illegalTransition
  message := "delivery lifecycle transition is not permitted"
  detail := "from=" ++ deliveryStateName source ++ " to=" ++ deliveryStateName target ++ " at=distributor"

def recordTransition (record : DeliveryRecord) (target : DeliveryState) (kind : EvidenceKind) (code : ErrorCode)
    (detail : Bytes) (fromReconciliation : Bool) (cause : Cause) : Worker (Status × DeliveryRecord) := do
  if !isLegalTransition record.state target then return (.error (illegalTransition record.state target), record)
  let nowMillis ← clock
  commitDelivery record cause
    (moved record target kind code (detail.take kMaxDeliveryDetailBytes) fromReconciliation nowMillis)

/-- The record with one more event and its state unchanged. -/
def noted (record : DeliveryRecord) (kind : EvidenceKind) (detail : Bytes) (nowMillis updatedAtMillis : ℤ)
    (s : ControllerState) : DeliveryRecord :=
  { record with
    updatedAtMillis
    events := appendEvent record.events {
      kind
      source := record.state
      target := record.state
      generation := record.generation
      digest := record.digest
      authorityEpoch := s.epoch
      authorityIncarnation := s.incarnation
      targetTerm := record.targetTerm
      targetIncarnation := record.targetIncarnation
      atMillis := nowMillis
      detail } }

def noteEvent (record : DeliveryRecord) (kind : EvidenceKind) (detail : Bytes) (cause : Cause) :
    Worker (Status × DeliveryRecord) := do
  let nowMillis ← clock
  let updatedAtMillis ← clock
  commitDelivery record cause (noted record kind (detail.take kMaxDeliveryDetailBytes) nowMillis updatedAtMillis)

def isFencingCode : ErrorCode → Bool
  | .staleGeneration | .staleEpoch | .fencedIncarnation | .generationConflict | .replayDetected => true
  | _ => false

def isIndeterminateCode : ErrorCode → Bool
  | .applyUncertain | .ioFailure | .connectionReset | .connectionClosed | .truncatedFrame | .peerIdleTimeout => true
  | _ => false

def failureDetail (code : ErrorCode) (detail : Bytes) : Bytes :=
  (if isIndeterminateCode code then
    detail ++ text "; the outcome at the target is unknown, so the next step is reconciliation"
  else if isFencingCode code then
    detail ++ text "; the operation was fenced as stale authority, generation or replay"
  else detail).take kMaxDeliveryDetailBytes

def recordFailure (record : DeliveryRecord) (code : ErrorCode) (detail : Bytes) (cause : Cause) :
    Worker (Status × DeliveryRecord) := do
  let detail := failureDetail code detail
  if record.failures > 2 ^ 32 - 1 - 1 then
    return (.fail .arithmeticOverflow "delivery failure counter exhausted", record)
  match checkedAdd record.attempt 1 with
  | none => return (.fail .arithmeticOverflow "delivery attempt counter exhausted", record)
  | some attempt =>
    let record := { record with
      failures := record.failures + 1
      attempt
      lastError := code
      lastDirective := retryDirectiveFor code
      lastDetail := detail }
    if record.state = .failed then noteEvent record .failureReported detail cause
    else recordTransition record .failed .failureReported code detail false cause

def recordRejected (record : DeliveryRecord) (code : ErrorCode) (detail : Bytes) (cause : Cause) :
    Worker (Status × DeliveryRecord) := do
  let detail := detail.take kMaxDeliveryDetailBytes
  if record.state = .rejected then return ← noteEvent record .refused detail cause
  match ← recordTransition record .rejected .refused code detail false cause with
  | (.error e, record) => return (.error e, record)
  | (.ok (), record) =>
    let record := { record with lastError := code, lastDetail := detail }
    return (← upsertDelivery record cause, record)

def recordRetired (record : DeliveryRecord) (reason : Bytes) (cause : Cause) : Worker (Status × DeliveryRecord) := do
  if record.state = .retired then return (.ok (), record)
  match ← recordTransition record .retired .superseded .retired (reason.take kMaxDeliveryDetailBytes) false cause with
  | (.error e, record) => return (.error e, record)
  | (.ok (), record) =>
    let record := { record with superseded := true }
    return (← upsertDelivery record cause, record)

/-- The target's record follows an activation, and never backwards. -/
def adoptRuntime (record : DeliveryRecord) : Worker Status := do
  match (← state).findTarget record.target with
  | none => return .ok ()
  | some existing =>
    if existing.committedGeneration ≠ 0 ∧ existing.committedGeneration > record.generation then return .ok ()
    let nowMillis ← clock
    upsertTarget record.target (some existing) { existing with
      committedGeneration := record.generation
      committedDigest := record.digest
      committedArtifact := record.artifact
      lastContactMillis := nowMillis }

def adoptActivation (record : DeliveryRecord) (fromReconciliation : Bool) (detail : Bytes) (cause : Cause) :
    Worker Status := do
  if record.state ≠ .applied ∧ record.state ≠ .acknowledged then
    match ← recordTransition record .applied .activationReported .ok detail fromReconciliation cause with
    | (.error e, _) => return .error e
    | (.ok (), record) => adoptRuntime record
  else adoptRuntime record

def acknowledge (record : DeliveryRecord) (fromReconciliation : Bool) (detail : Bytes) (cause : Cause) :
    Worker Status := do
  if record.state = .acknowledged then
    if fromReconciliation ∧ !record.acknowledgedFromReconcile then
      return ← upsertDelivery { record with acknowledgedFromReconcile := true } cause
    return .ok ()
  match ← recordTransition record .acknowledged .acknowledgementRecorded .ok detail fromReconciliation cause with
  | (.error e, _) => return .error e
  | (.ok (), record) => upsertDelivery { record with acknowledgedFromReconcile := fromReconciliation } cause

end Distributor

end ConfigurationFabric
