import ConfigurationFabric.Protocol

namespace ConfigurationFabric

open LittleEndian

/-! The distribution policy. -/

def deliveryStateName : DeliveryState → String
  | .prepared => "prepared" | .offered => "offered" | .transferred => "transferred" | .verified => "verified"
  | .staged => "staged" | .applied => "applied" | .acknowledged => "acknowledged" | .failed => "failed"
  | .rejected => "rejected" | .retired => "retired"

structure DistributorPolicy where
  maxAttempts : ℕ := 4
  retryBackoffMillis : ℤ := 200
  maxBackoffMillis : ℤ := 5000
  connectTimeoutMillis : ℤ := 5000
  sessionIdleTimeoutMillis : ℤ := 10000
  requestTimeoutMillis : ℤ := 10000
  maxTargets : ℕ := 1024
  maxLiveDeliveries : ℕ := 4096
  maxHistoryPerLineage : ℕ := 8
  maxConcurrentSessions : ℕ := 8
  transferChunkBytes : ℕ := 16384
  maxPayloadBytes : ℕ := 1024 * 1024
  requireAcknowledgement : Bool := true
  reconcileOnRestart : Bool := true
  maxReconcileFindings : ℕ := 64
  repairProbeMillis : ℤ := 2000
  sessionMinIntervalMillis : ℤ := 50
  livenessFreshnessMillis : ℤ := 15000
  deriving DecidableEq

namespace DistributorPolicy

def validate (p : DistributorPolicy) : Status :=
  if p.maxAttempts = 0 then .fail .invalidArgument "maxAttempts must be at least 1"
  else if p.maxConcurrentSessions = 0 then .fail .invalidArgument "maxConcurrentSessions must be at least 1"
  else if p.maxTargets = 0 ∨ p.maxLiveDeliveries = 0 then
    .fail .invalidArgument "target and delivery budgets must be non-zero"
  else if p.transferChunkBytes = 0 then .fail .invalidArgument "transferChunkBytes must be non-zero"
  else if p.transferChunkBytes > p.maxPayloadBytes then
    .fail .invalidArgument "transferChunkBytes must not exceed maxPayloadBytes"
      s!"{p.transferChunkBytes} > {p.maxPayloadBytes}"
  else if p.retryBackoffMillis < 0 ∨ p.maxBackoffMillis < p.retryBackoffMillis then
    .fail .invalidArgument "backoff bounds are inconsistent"
  else if p.connectTimeoutMillis ≤ 0 ∨ p.sessionIdleTimeoutMillis ≤ 0 ∨ p.requestTimeoutMillis ≤ 0 then
    .fail .invalidArgument "timeouts must be positive"
  else if p.livenessFreshnessMillis ≤ 0 then .fail .invalidArgument "livenessFreshnessMillis must be positive"
  else if p.maxHistoryPerLineage = 0 then .fail .invalidArgument "maxHistoryPerLineage must be at least 1"
  else if p.repairProbeMillis ≤ 0 ∨ p.sessionMinIntervalMillis ≤ 0 then
    .fail .invalidArgument "probe and session interval bounds must be positive"
  else .ok ()

end DistributorPolicy

inductive PolicyAction
  | none | offer | resumeTransfer | activate | reconcile | wait | recordFailureAndRetry | reject | giveUp | retire
  deriving DecidableEq

structure DecisionInput where
  state : DeliveryState := .prepared
  failures : ℕ := 0
  attempt : AttemptId := 0
  targetGuarantee : ApplyGuarantee := .atomicActivate
  requirement : GuaranteeRequirement := .requireAtomic
  desiredGeneration : Generation := 0
  targetGeneration : Generation := 0
  desiredDigest : Digest := .zero 32
  targetDigest : Digest := .zero 32
  targetLive : Bool := false
  livenessEvidenceStale : Bool := false
  targetApplyPrepared : Bool := false
  artifactAvailable : Bool := false
  resumableTransfer : Bool := false
  supersededByNewerGeneration : Bool := false
  millisSinceLastAttempt : ℤ := 0

structure Decision where
  action : PolicyAction
  reason : String
  alternatives : List (PolicyAction × String) := []
  epoch : Epoch
  generation : Generation
  attempt : AttemptId
  retryAfterMillis : ℤ := 0
  terminal : Bool := false

def doubled (ceiling : ℕ) : ℕ → ℕ → ℕ
  | 0, delay => delay
  | n + 1, delay => if delay ≥ ceiling then delay else doubled ceiling n ((checkedMul delay 2).getD ceiling)

def backoffFor (p : DistributorPolicy) (failures : ℕ) : ℤ :=
  let ceiling := (p.maxBackoffMillis % 2 ^ 64).toNat
  let delay := doubled ceiling (if failures > 16 then 16 else failures) (p.retryBackoffMillis % 2 ^ 64).toNat
  (if delay > ceiling then ceiling else delay : ℕ)

/-- The order of the guards is part of the contract. -/
def DistributorPolicy.decide (p : DistributorPolicy) (i : DecisionInput) (epoch : Epoch) (generation : Generation) : Decision :=
  let decided (action : PolicyAction) (reason : String) (alternatives : List (PolicyAction × String))
      (terminal : Bool) (retryAfterMillis : ℤ) : Decision :=
    { action, reason, alternatives, epoch, generation, attempt := i.attempt, retryAfterMillis, terminal }
  if i.supersededByNewerGeneration ∨ i.targetGeneration ≠ 0 ∧ i.targetGeneration > i.desiredGeneration then
    decided .retire
      s!"target is at generation {i.targetGeneration} which is not older than the desired generation {i.desiredGeneration}"
      [(.offer, "offering would push a generation the target has already moved past"),
        (.activate, "activation would install a stale generation over a newer one")] true 0
  else if !guaranteeSatisfies i.targetGuarantee i.requirement then
    decided .reject
      ("target offers guarantee '" ++ applyGuaranteeName i.targetGuarantee ++
        "' which does not satisfy requirement '" ++ guaranteeRequirementName i.requirement ++ "'")
      [(.offer, "the target cannot satisfy the required guarantee")] true 0
  else if !i.artifactAvailable then
    if i.state = .prepared then
      decided .reject "artifact for the desired digest is not present in the artifact store"
        [(.offer, "the artifact bytes are not in the store")] true 0
    else
      let reason := "artifact bytes are no longer available; the delivery cannot progress"
      let alternatives := [(PolicyAction.offer, "digest is unavailable for distribution")]
      if i.failures ≥ p.maxAttempts then
        decided .giveUp reason
          (alternatives ++ [(.recordFailureAndRetry, "retry budget is exhausted for this delivery")]) true
          (backoffFor p i.failures)
      else decided .recordFailureAndRetry reason alternatives false (backoffFor p i.failures)
  else if isTerminalState i.state then
    decided .none ("delivery is terminal in state '" ++ deliveryStateName i.state ++ "'")
      [(.offer, "the delivery already reached a terminal state")] true 0
  else if i.state = .applied then
    if p.requireAcknowledgement then
      decided .reconcile
        ("target reported activation; the acknowledgement boundary must be confirmed against " ++
          "current target authority before it can be recorded")
        [(.activate, "the activation boundary already occurred")] false 0
    else decided .none "acknowledgement is not required by policy" [] true 0
  else if i.state = .failed then
    if i.failures ≥ p.maxAttempts then
      decided .giveUp
        s!"delivery failed {i.failures} time(s), which exhausts the retry budget of {p.maxAttempts}"
        [(.recordFailureAndRetry, "retry budget is exhausted for this delivery")] true 0
    else if i.millisSinceLastAttempt < backoffFor p i.failures then
      decided .wait s!"waiting out the retry backoff before attempt {(i.attempt + 1) % 2 ^ 64}"
        [(.offer, "the retry backoff has not elapsed")] false (backoffFor p i.failures - i.millisSinceLastAttempt)
    else decided .offer "retry budget remains and the backoff elapsed" [] false 0
  else if i.livenessEvidenceStale then
    decided .reconcile
      ("target contact evidence is older than the freshness window; a live session must " ++
        "re-establish it before any state change is accepted")
      [(.offer, "persisted liveness evidence predates this process and is not fresh"),
        (.resumeTransfer, "resuming needs a fresh target report, not persisted evidence")] false 0
  else if i.targetApplyPrepared then
    decided .reconcile
      ("target reported an unresolved prepare/commit window; its authoritative state must be " ++
        "resolved before the delivery continues")
      [(.activate, "an unresolved prepare/commit window exists; committing blind could " ++
        "activate an unverified generation")] false 0
  else if !i.targetLive then
    decided .reconcile
      "target contact evidence is older than the freshness window; a live session must refresh it"
      [(.offer, "no fresh session evidence exists for the target")] false 0
  else
    match i.state with
    | .prepared => decided .offer "artifact is available and the target is live" [] false 0
    | .offered | .transferred =>
      if i.resumableTransfer then
        decided .resumeTransfer
          "target reported partial bytes for this deployment; resume instead of restarting the transfer"
          [(.offer, "the target already holds bytes for this exact deployment")] false 0
      else decided .offer "transfer has not yet completed at the target" [] false 0
    | .verified | .staged =>
      decided .activate "target holds a verified, staged artifact; activation is the next boundary" [] false 0
    | _ => decided .none "no action required" [] true 0

end ConfigurationFabric
