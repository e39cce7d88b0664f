import ConfigurationFabric.Policy

namespace ConfigurationFabric

open LittleEndian

/-! What a live report says about a delivery. -/

inductive ReconcileOutcome
  | driveNormally | adoptActivation | resumeTransfer | retireStale | resolvePrepareWindow | fenceAuthority
  | unknownAtTarget
  deriving DecidableEq

structure ReconcileInput where
  report : Option ReconcileReportMessage := none
  sessionTerm : Term := 0
  sessionIncarnation : IncarnationId := .zero 16
  desiredGeneration : Generation := 0
  desiredDigest : Digest := .zero 32
  key : ConfigKey := []
  deployment : DeploymentId := []
  state : DeliveryState := .prepared
  guarantee : ApplyGuarantee := .atomicActivate
  requirement : GuaranteeRequirement := .requireAtomic
  artifactAvailable : Bool := false

structure ReconcileDecision where
  outcome : ReconcileOutcome := .driveNormally
  reason : String
  adoptedState : DeliveryState := .applied
  resumeFromOffset : ℕ := 0
  targetGeneration : Generation := 0
  targetDigest : Digest := .zero 32

def findTransferStatus (report : ReconcileReportMessage) (deployment : DeploymentId) : Option TransferStatusRecord :=
  report.transfers.find? fun t => t.deployment == deployment

-- the key is given and not looked at
def reportProvesActivation (report : ReconcileReportMessage) (generation : Generation) (digest : Digest)
    (_key : ConfigKey) : Bool :=
  if generation = 0 ∨ !digest.isSet then false
  else if report.committedGeneration ≠ generation ∨ report.committedDigest ≠ digest then
    report.findings.any fun f => f.generation == generation && f.digest == digest && isActivationState f.state
  else true

def reconcileDelivery (input : ReconcileInput) : ReconcileDecision :=
  match input.report with
  | none =>
    { reason := "no live report from the target in this session; persisted evidence is not treated as " ++
        "current, so the delivery is driven from its recorded state" }
  | some report =>
    if report.term ≠ input.sessionTerm ∨ report.incarnation ≠ input.sessionIncarnation then
      { outcome := .fenceAuthority
        reason := "the report carries target authority that does not match the authenticated session" }
    else if report.applyPrepared then
      { outcome := .resolvePrepareWindow
        reason := s!"the target reports an unresolved prepare/commit window for generation {report.preparedGeneration}" ++
          "; committing blind could activate content the target never verified" }
    else if report.committedGeneration ≠ 0 ∧ report.committedGeneration > input.desiredGeneration then
      { outcome := .retireStale
        targetGeneration := report.committedGeneration
        targetDigest := report.committedDigest
        reason := s!"the target is already at generation {report.committedGeneration}" ++
          s!", which is newer than the desired generation {input.desiredGeneration}" ++
          "; pushing this delivery would move the target backwards" }
    else if reportProvesActivation report input.desiredGeneration input.desiredDigest input.key then
      { outcome := .adoptActivation
        reason := s!"the target reports generation {input.desiredGeneration}" ++
          " with the expected digest as active under the current incarnation" }
    else
      match findTransferStatus report input.deployment with
      | some transfer =>
        if transfer.bytesReceived > 0 ∧ transfer.generation = input.desiredGeneration ∧
            transfer.digest = input.desiredDigest ∧ transfer.bytesReceived < transfer.totalBytes then
          { outcome := .resumeTransfer
            resumeFromOffset := transfer.bytesReceived
            reason := s!"the target holds {transfer.bytesReceived}" ++
              " verified byte(s) for this deployment; restarting the transfer would discard them" }
        else if transfer.verified ∧ transfer.staged ∧ transfer.generation = input.desiredGeneration ∧
            transfer.digest = input.desiredDigest then
          { reason := "the target holds a verified, staged artifact for this generation; activation is the " ++
              "remaining boundary" }
        else { reason := "the target holds nothing usable for this deployment; it is driven normally" }
      | none =>
        if report.committedGeneration = 0 ∧ report.findings = [] then
          { outcome := .unknownAtTarget
            reason := "the target reports no state at all; the delivery starts from the beginning" }
        else { reason := "the target holds nothing usable for this deployment; it is driven normally" }

/-! What the policy is shown of a delivery. -/

namespace ControllerState

def findDelivery (s : ControllerState) (id : DeploymentId) : Option DeliveryRecord := s.deliveries.find id

def findTarget (s : ControllerState) (id : TargetId) : Option TargetRuntime := s.targets.find id

/-- The newest delivery of a key on a target. -/
def latestForLineage (s : ControllerState) (target : TargetId) (key : ConfigKey) : Option DeliveryRecord :=
  s.deliveries.foldl (fun newest entry =>
    let record := entry.2
    if record.target ≠ target ∨ record.key ≠ key then newest
    else
      match newest with
      | none => some record
      | some n =>
        if record.generation > n.generation ∨ record.generation = n.generation ∧ n.id < record.id then some record
        else some n) none

end ControllerState

def isFreshContact (runtime : TargetRuntime) (p : DistributorPolicy) (nowMillis : ℤ) : Bool :=
  runtime.contactEstablishedThisProcess && decide (runtime.lastContactMillis > 0) &&
    decide (nowMillis - runtime.lastContactMillis ≥ 0) &&
    decide (nowMillis - runtime.lastContactMillis ≤ p.livenessFreshnessMillis)

def buildDecisionInput (s : ControllerState) (p : DistributorPolicy) (delivery : DeliveryRecord) (nowMillis : ℤ) :
    DecisionInput :=
  let base : DecisionInput := {
    state := delivery.state
    failures := delivery.failures
    attempt := delivery.attempt
    requirement := delivery.requirement
    desiredGeneration := delivery.generation
    desiredDigest := delivery.digest
    artifactAvailable := (s.artifacts.find delivery.digest).isSome
    millisSinceLastAttempt := nowMillis - delivery.updatedAtMillis
    supersededByNewerGeneration := (s.latestForLineage delivery.target delivery.key).any fun latest =>
      latest.id != delivery.id && decide (latest.generation > delivery.generation)
    resumableTransfer := s.deliveries.any fun entry =>
      entry.2.id != delivery.id && entry.2.target == delivery.target && entry.2.key == delivery.key &&
        entry.2.generation == delivery.generation && entry.2.digest == delivery.digest &&
        entry.2.state == .failed }
  match s.findTarget delivery.target with
  | none => base
  | some runtime =>
    { base with
      targetGuarantee := runtime.guarantee
      targetGeneration := runtime.committedGeneration
      targetDigest := runtime.committedDigest
      targetLive := isFreshContact runtime p nowMillis
      livenessEvidenceStale := !runtime.contactEstablishedThisProcess
      targetApplyPrepared := runtime.applyPrepared }

end ConfigurationFabric
