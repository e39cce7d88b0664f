import ConfigurationFabric.DistributorSession

/-! Start-up, the control operations, and the threads of one process. -/

namespace ConfigurationFabric

open LittleEndian
open Threads

structure DeploymentInstruction where
  target : TargetId
  targetClass : TargetClass := .unspecified
  declaredGuarantee : ApplyGuarantee := .atomicActivate
  configKey : ConfigKey
  artifact : ArtifactId
  revision : Revision
  generation : Generation
  schema : SchemaId
  schemaVersion : SchemaVersion
  digest : Digest
  sizeBytes : ℕ := 0
  requirement : GuaranteeRequirement := .requireAtomic
  mediaType : Bytes := text "application/octet-stream"
  producer : Bytes := []
  sourcePath : Bytes := []
  endpoint : Bytes := []

structure DeploymentPlan where
  setId : DeploymentSetId
  rolloutSet : RolloutSetId
  instructions : List DeploymentInstruction

structure TargetResolution where
  target : TargetId
  configKey : ConfigKey
  accepted : Bool
  reason : String

namespace Distributor

/-! Plans. -/

def resolveInstruction (seen : List TargetId) (instruction : DeploymentInstruction) : TargetResolution :=
  let resolved (accepted : Bool) (reason : String) : TargetResolution :=
    { target := instruction.target, configKey := instruction.configKey, accepted, reason }
  if instruction.target ∈ seen then resolved false "the deployment set names the same target more than once"
  else if instruction.endpoint = [] then
    resolved true "explicitly selected by the deployment set; no endpoint supplied"
  else
    match parseEndpoint instruction.endpoint with
    | .error _ => resolved false "the instruction endpoint is not a valid host:port pair"
    | .ok endpoint =>
      resolved true ("explicitly selected by the deployment set; endpoint " ++ textString endpoint.host ++ ":" ++
        toString endpoint.port)

def resolveInstructions : List TargetId → List DeploymentInstruction → List TargetResolution
  | _, [] => []
  | seen, instruction :: rest =>
    resolveInstruction seen instruction :: resolveInstructions (instruction.target :: seen) rest

def resolveDeploymentSet (p : DistributorPolicy) (plan : DeploymentPlan) : List TargetResolution :=
  let resolutions := resolveInstructions [] plan.instructions
  if resolutions.length > p.maxTargets then
    resolutions.map fun r =>
      { r with accepted := false, reason := "the deployment set exceeds the configured target budget" }
  else resolutions

def plannedDelivery (plan : DeploymentPlan) (i : DeploymentInstruction) (nowMillis : ℤ) : DeliveryRecord where
  id := deriveDeploymentId i.target i.configKey i.generation i.digest
  setId := plan.setId
  rolloutSet := plan.rolloutSet
  target := i.target
  key := i.configKey
  artifact := i.artifact
  revision := i.revision
  generation := i.generation
  digest := i.digest
  schema := i.schema
  schemaVersion := i.schemaVersion
  sizeBytes := i.sizeBytes
  requirement := i.requirement
  effectiveGuarantee := i.declaredGuarantee
  state := .prepared
  createdAtMillis := nowMillis
  updatedAtMillis := nowMillis

/-- What a new plan keeps of a delivery that is already known. -/
def inherit (record existing : DeliveryRecord) : DeliveryRecord :=
  { record with
    attempt := existing.attempt
    failures := existing.failures
    events := existing.events
    authorityEpoch := existing.authorityEpoch
    authorityIncarnation := existing.authorityIncarnation
    targetTerm := existing.targetTerm
    targetIncarnation := existing.targetIncarnation
    state := if isPendingState existing.state then existing.state else record.state }

def ingestArtifact (declared : ArtifactMetadata) : Worker Status := do
  match (← Thread.ask).status with
  | .error e => return .error e
  | .ok () => return (← commit .own fun _ => .artifactUpsert declared).1

def ingestSource (i : DeploymentInstruction) : Worker Unit := do
  if i.sourcePath = [] then return ()
  if (← Thread.ask).present then return ()
  let producedAtMillis ← clock
  let storedAtMillis ← clock
  let _ ← ingestArtifact {
    id := i.artifact
    revision := i.revision
    schema := i.schema
    schemaVersion := i.schemaVersion
    digest := i.digest
    sizeBytes := i.sizeBytes
    mediaType := i.mediaType
    producer := i.producer
    producedAtMillis
    storedAtMillis }
  return ()

def retireAll (reason : Bytes) : List DeliveryRecord → Worker Status
  | [] => return .ok ()
  | other :: rest => do
    match ← recordRetired other reason .own with
    | (.error e, _) => return .error e
    | (.ok (), _) => retireAll reason rest

def superseded (record : DeliveryRecord) (s : ControllerState) : List DeliveryRecord :=
  (s.deliveries.map (·.2)).filter fun other =>
    other.id != record.id && other.target == record.target && other.key == record.key &&
      decide (other.generation < record.generation) && isPendingState other.state

/-- Newer generations first, then by name backwards. -/
def newerFirst (a b : DeliveryRecord) : Prop := a.generation > b.generation ∨ a.generation = b.generation ∧ ¬ a.id < b.id

instance : DecidableRel newerFirst := fun a b =>
  inferInstanceAs (Decidable (a.generation > b.generation ∨ a.generation = b.generation ∧ ¬ a.id < b.id))

/-- The deliveries of the lineage beyond the history that is kept. -/
def doomed (p : DistributorPolicy) (record : DeliveryRecord) (s : ControllerState) : List DeliveryRecord :=
  (((s.deliveries.map (·.2)).filter fun other => other.target == record.target && other.key == record.key).insertionSort
    newerFirst).drop p.maxHistoryPerLineage

def removeAll : List DeliveryRecord → Worker Status
  | [] => return .ok ()
  | stale :: rest => do
    match ← commit .own fun _ => .deliveryRemove stale.id with
    | (.error e, _) => return .error e
    | (.ok (), _) => removeAll rest

/-- The target's record carries the endpoint and the declared guarantee. -/
def plannedRuntime (i : DeploymentInstruction) (accepted : Bool) (existing : Option TargetRuntime) : TargetRuntime :=
  let runtime := existing.getD {}
  { runtime with
    id := i.target
    klass :=
      if runtime.klass = .unspecified then if accepted then i.targetClass else .unspecified else runtime.klass
    endpoint := if i.endpoint = [] then runtime.endpoint else i.endpoint
    guarantee := if runtime.term = 0 then i.declaredGuarantee else runtime.guarantee }

def planTarget (i : DeploymentInstruction) (accepted : Bool) : Worker Status := do
  let existing := (← state).findTarget i.target
  upsertTarget i.target existing (plannedRuntime i accepted existing)

def planDelivery (p : DistributorPolicy) (i : DeploymentInstruction) (accepted : Bool) (record : DeliveryRecord) :
    Worker Status := do
  match ← retireAll (text s!"superseded by generation {record.generation}") (superseded record (← state)) with
  | .error e => return .error e
  | .ok () =>
    match ← removeAll (doomed p record (← state)) with
    | .error e => return .error e
    | .ok () =>
      match ← planTarget i accepted with
      | .error e => return .error e
      | .ok () => upsertDelivery record .own

def planInstructions (p : DistributorPolicy) (plan : DeploymentPlan) :
    List (DeploymentInstruction × TargetResolution) → Worker Status
  | [] => return .ok ()
  | (i, resolution) :: rest => do
    ingestSource i
    let nowMillis ← clock
    let record := plannedDelivery plan i nowMillis
    match (← state).findDelivery record.id with
    | some existing =>
      if existing.state = .acknowledged then planInstructions p plan rest
      else
        match ← planDelivery p i resolution.accepted (inherit record existing) with
        | .error e => return .error e
        | .ok () => planInstructions p plan rest
    | none =>
      match ← planDelivery p i resolution.accepted record with
      | .error e => return .error e
      | .ok () => planInstructions p plan rest

/-- A compaction makes durable what is in memory. -/
def compact (written : Bool) : Worker Unit := do
  if !written then return ()
  let _ ← Thread.update .own fun c => { c with dur := c.mem }
  return ()

def compactIfNeeded : Worker Status := do
  let choice ← Thread.ask
  match choice.outcome with
  | .refused e => return .error e
  | .failed e durable =>
    compact durable
    return .error e
  | .done =>
    compact choice.present
    return .ok ()

def submitPlan (p : DistributorPolicy) (plan : DeploymentPlan) : Worker Status := do
  let resolutions := resolveDeploymentSet p plan
  if !resolutions.any (·.accepted) then
    return .fail .invalidArgument "the deployment set selects no usable target"
  match ← planInstructions p plan (plan.instructions.zip resolutions) with
  | .error e => return .error e
  | .ok () =>
    let live := (((← state).deliveries.map (·.2)).filter (isPendingState ·.state)).length
    if live > p.maxLiveDeliveries then
      return .fail .limitExceeded "the live delivery count exceeds the configured budget" (toString live)
    compactIfNeeded

/-! The other operations. -/

def retireDeployment (id : DeploymentId) (reason : Bytes) : Worker Status := do
  let record ← snapshotDelivery id
  if record.id = [] then return .fail .notFound "no such delivery" (textString id)
  return (← recordRetired record reason .own).1

/-- A decision that needs no session, on a delivery found while work was picked. -/
def applyLocalDecision (p : DistributorPolicy) (candidate : DeploymentId) : Worker Status := do
  let record ← snapshotDelivery candidate
  if record.id = [] ∨ !isPendingState record.state then return .ok ()
  let nowMillis ← clock
  let input ← decisionInputFor p record nowMillis
  let epoch ← epoch
  let decision := p.decide input epoch record.generation
  match decision.action with
  | .reject => return (← recordRejected record (rejectionCode input record) (text decision.reason) .own).1
  | .retire => return (← recordRetired record (text decision.reason) .own).1
  | .recordFailureAndRetry => return (← recordFailure record (retryCode record) (text decision.reason) .own).1
  | _ => return .ok ()

/-! Start-up. -/

/-- A transfer the previous authority never verified is offered again; contact evidence is not current. -/
def reopened (s : ControllerState) : ControllerState :=
  { s with
    targets := s.targets.map fun e => (e.1, { e.2 with contactEstablishedThisProcess := false })
    deliveries := s.deliveries.map fun e =>
      (e.1, if e.2.state = .transferred then
        { e.2 with
          state := .offered
          lastDetail := text "reset to offered after distributor restart: the previous transfer was never verified" }
      else e.2) }

/-- Everything `Distributor::open` does once the stores have been opened. -/
def «open» (o : DistributorOptions) : Worker Status := do
  if o.nodeId = [] then return .fail .invalidArgument "distributor node id must be set"
  match o.policy.validate with
  | .error e => return .error e
  | .ok () =>
    match (← Thread.ask).status with
    | .error e => return .error e
    | .ok () =>
      match checkedAdd (← epoch) 1 with
      | none => return .fail .arithmeticOverflow "distributor epoch exhausted"
      | some nextEpoch =>
        let incarnation := (← Thread.ask).random
        let startedAtMillis ← clock
        match ← commit .own fun _ => .identity o.nodeId nextEpoch incarnation startedAtMillis with
        | (.error e, _) => return .error e
        | (.ok (), _) =>
          let _ ← Thread.update .own fun c => { c with mem := reopened c.mem }
          compactIfNeeded

/-! The threads of a process that is open. -/

inductive Task
  | session (target : TargetId) (rounds : ℕ)
  | localDecision (candidate : DeploymentId)
  | submitPlan (plan : DeploymentPlan)
  | retire (id : DeploymentId) (reason : Bytes)
  | ingest (declared : ArtifactMetadata)

def program (o : DistributorOptions) : Task → Worker Status
  | .session target rounds => do
    runSession o rounds target
    return .ok ()
  | .localDecision candidate => applyLocalDecision o.policy candidate
  | .submitPlan plan => submitPlan o.policy plan
  | .retire id reason => retireDeployment id reason
  | .ingest declared => ingestArtifact declared

end Distributor

end ConfigurationFabric
