import Mathlib.Data.List.Sort
import ConfigurationFabric.Reconciliation

/-! The convergence report. -/

namespace ConfigurationFabric

open LittleEndian

inductive BlockerKind
  | none | notYetDelivered | deliveryInFlight | awaitingAcknowledgement | retryBudgetExhausted | targetUnreachable
  | targetAuthorityFenced | guaranteeUnsupported | artifactUnavailable | digestMismatchReported
  | sizeMismatchReported | schemaUnsupported | policyRejected | targetAheadOfDesired | superseded
  | livenessEvidenceStale | prepareWindowOpen | livePointerUnverified
  deriving DecidableEq

def BlockerKind.value : BlockerKind → ℕ
  | .none => 0 | .notYetDelivered => 1 | .deliveryInFlight => 2 | .awaitingAcknowledgement => 3
  | .retryBudgetExhausted => 4 | .targetUnreachable => 5 | .targetAuthorityFenced => 6
  | .guaranteeUnsupported => 7 | .artifactUnavailable => 8 | .digestMismatchReported => 9
  | .sizeMismatchReported => 10 | .schemaUnsupported => 11 | .policyRejected => 12
  | .targetAheadOfDesired => 13 | .superseded => 14 | .livenessEvidenceStale => 15
  | .prepareWindowOpen => 16 | .livePointerUnverified => 17

def blockerKindName : BlockerKind → String
  | .none => "none"
  | .notYetDelivered => "not-yet-delivered"
  | .deliveryInFlight => "delivery-in-flight"
  | .awaitingAcknowledgement => "awaiting-acknowledgement"
  | .retryBudgetExhausted => "retry-budget-exhausted"
  | .targetUnreachable => "target-unreachable"
  | .targetAuthorityFenced => "target-authority-fenced"
  | .guaranteeUnsupported => "guarantee-unsupported"
  | .artifactUnavailable => "artifact-unavailable"
  | .digestMismatchReported => "digest-mismatch-reported"
  | .sizeMismatchReported => "size-mismatch-reported"
  | .schemaUnsupported => "schema-unsupported"
  | .policyRejected => "policy-rejected"
  | .targetAheadOfDesired => "target-ahead-of-desired"
  | .superseded => "superseded"
  | .livenessEvidenceStale => "liveness-evidence-stale"
  | .prepareWindowOpen => "prepare-window-open"
  | .livePointerUnverified => "live-pointer-unverified"

structure LineageConvergence where
  target : TargetId := []
  key : ConfigKey := []
  artifact : ArtifactId := []
  desiredGeneration : Generation := 0
  desiredDigest : Digest := .zero 32
  currentGeneration : Generation := 0
  currentDigest : Digest := .zero 32
  state : DeliveryState := .prepared
  guarantee : ApplyGuarantee := .atomicActivate
  requirement : GuaranteeRequirement := .requireAtomic
  converged : Bool := false
  currentReason : Bytes := []
  blockers : List BlockerKind := []
  pending : List Bytes := []
  contactEstablishedThisProcess : Bool := false
  evidenceFromReconciliation : Bool := false
  attempts : ℕ := 0
  failures : ℕ := 0

structure ConvergenceReport where
  nodeId : NodeId := []
  epoch : Epoch := 0
  incarnation : IncarnationId := .zero 16
  lineageCount : ℕ := 0
  convergedCount : ℕ := 0
  pendingCount : ℕ := 0
  blockedCount : ℕ := 0
  divergedCount : ℕ := 0
  lineages : List LineageConvergence := []
  retiredCount : ℕ := 0
  rejectedCount : ℕ := 0

def ConvergenceReport.converged (r : ConvergenceReport) : Bool :=
  r.blockedCount == 0 && r.divergedCount == 0 && r.pendingCount == 0

/-! Lineages. -/

structure LineageKey where
  target : TargetId
  key : ConfigKey
  deriving DecidableEq

instance : LT LineageKey := ⟨fun a b => a.target < b.target ∨ a.target = b.target ∧ a.key < b.key⟩

instance : DecidableRel (fun a b : LineageKey => a < b) :=
  fun a b => inferInstanceAs (Decidable (a.target < b.target ∨ a.target = b.target ∧ a.key < b.key))

def DeliveryRecord.lineage (d : DeliveryRecord) : LineageKey := ⟨d.target, d.key⟩

namespace Convergence

def lineages (s : ControllerState) : SortedMap LineageKey (List DeliveryRecord) :=
  s.deliveries.foldl (fun m e => m.insert e.2.lineage ((m.find e.2.lineage).getD [] ++ [e.2])) []

/-- By generation, then by id. -/
def older (lhs rhs : DeliveryRecord) : Bool :=
  if lhs.generation ≠ rhs.generation then lhs.generation < rhs.generation else lhs.id < rhs.id

/-- `std::sort` with a strict comparison. -/
def sort {α : Type} (less : α → α → Bool) (l : List α) : List α := l.insertionSort fun a b => less b a = false

/-- `std::unique`. -/
def unique {α : Type} [DecidableEq α] : List α → List α
  | [] => []
  | [a] => [a]
  | a :: b :: l => if a = b then unique (b :: l) else a :: unique (b :: l)

def failureBlocker : ErrorCode → List BlockerKind
  | .digestMismatch => [.digestMismatchReported]
  | .sizeMismatch => [.sizeMismatchReported]
  | .artifactUnavailable => [.artifactUnavailable]
  | .staleEpoch | .staleGeneration | .fencedIncarnation => [.targetAuthorityFenced]
  | .generationConflict | .conflict => [.policyRejected]
  | _ => []

def refusalBlocker : ErrorCode → BlockerKind
  | .guaranteeUnsupported => .guaranteeUnsupported
  | .artifactUnavailable => .artifactUnavailable
  | .schemaUnsupported => .schemaUnsupported
  | _ => .policyRejected

/-- What the lifecycle state of the desired delivery says. -/
def stateFindings (p : DistributorPolicy) (d : DeliveryRecord) (l : LineageConvergence) : LineageConvergence :=
  match d.state with
  | .acknowledged =>
    let reason := text <|
      "the target reported activation of the desired generation and the acknowledgement " ++
        "was durably recorded under the current authority"
    { l with
      converged := true
      currentReason :=
        if d.acknowledgedFromReconcile then reason ++ text " (evidence recovered by reconciliation)" else reason }
  | .applied =>
    { l with
      blockers := l.blockers ++ [.awaitingAcknowledgement]
      pending := l.pending ++ [text "await the activation acknowledgement or reconcile it"]
      currentReason := text <|
        "the target reports the desired generation active, but the acknowledgement boundary " ++
          "has not been recorded" }
  | .staged | .verified =>
    { l with
      blockers := l.blockers ++ [.deliveryInFlight]
      pending := l.pending ++ [text "activate the staged artifact"]
      currentReason := text "the artifact is verified and staged at the target" }
  | .offered | .transferred =>
    { l with
      blockers := l.blockers ++ [.deliveryInFlight]
      pending := l.pending ++ [text "finish transferring the artifact"]
      currentReason := text "the transfer to the target has started but has not completed" }
  | .prepared =>
    { l with
      blockers := l.blockers ++ [.notYetDelivered]
      pending := l.pending ++ [text "deliver the artifact to the target"]
      currentReason := text "the delivery has been prepared but nothing has been sent" }
  | .failed =>
    let (blocker, work) :=
      if d.failures ≥ p.maxAttempts then
        (BlockerKind.retryBudgetExhausted, "operator action: raise the retry budget or fix the target")
      else (.deliveryInFlight, "retry the delivery")
    { l with
      blockers := l.blockers ++ blocker :: failureBlocker d.lastError
      pending := l.pending ++ [text work]
      currentReason := text "the last attempt failed: " ++ d.lastDetail }
  | .rejected =>
    { l with
      blockers := l.blockers ++ [refusalBlocker d.lastError]
      pending := l.pending ++ [text "operator action: change the deployment instruction"]
      currentReason := text "the delivery was refused: " ++ d.lastDetail }
  | .retired =>
    { l with
      blockers := l.blockers ++ [.superseded]
      currentReason := text "the delivery was superseded" }

def unreachable (l : LineageConvergence) : LineageConvergence :=
  { l with
    blockers := l.blockers ++ [.targetUnreachable]
    currentReason :=
      if l.currentReason = [] then text "the target has never been contacted by this controller" else l.currentReason }

def staleFinding (l : LineageConvergence) : LineageConvergence :=
  { l with
    blockers := l.blockers ++ [.livenessEvidenceStale]
    pending := l.pending ++ [text "establish a live session with the target"] }

def windowFinding (l : LineageConvergence) : LineageConvergence :=
  { l with
    blockers := l.blockers ++ [.prepareWindowOpen]
    pending := l.pending ++ [text "resolve the target's prepare/commit window"] }

def aheadFinding (runtime : TargetRuntime) (d : DeliveryRecord) (l : LineageConvergence) : LineageConvergence :=
  { l with
    blockers := l.blockers ++ [.targetAheadOfDesired]
    currentReason := text "the target is at generation " ++ text (toString runtime.committedGeneration) ++
      text ", which is newer than the desired generation " ++ text (toString d.generation) }

/-- What the runtime of the target adds. -/
def runtimeFindings (fresh : Bool) (d : DeliveryRecord) (runtime : Option TargetRuntime) (l : LineageConvergence) :
    LineageConvergence :=
  match runtime with
  | none => unreachable l
  | some runtime =>
    let l := if !fresh && isPendingState d.state then staleFinding l else l
    let l := if runtime.applyPrepared then windowFinding l else l
    if runtime.committedGeneration > d.generation then aheadFinding runtime d l else l

def arranged (l : LineageConvergence) : LineageConvergence :=
  { l with
    blockers := unique (sort (fun lhs rhs => lhs.value < rhs.value) l.blockers)
    pending := unique (sort (fun lhs rhs => lhs < rhs) l.pending) }

def lineageBase (d : DeliveryRecord) (runtime : Option TargetRuntime) : LineageConvergence :=
  let l : LineageConvergence := {
    target := d.target, key := d.key, artifact := d.artifact
    desiredGeneration := d.generation, desiredDigest := d.digest
    state := d.state, guarantee := d.effectiveGuarantee, requirement := d.requirement
    attempts := min d.attempt (2 ^ 32 - 1), failures := d.failures
    evidenceFromReconciliation := d.acknowledgedFromReconcile }
  match runtime with
  | none => l
  | some runtime =>
    { l with
      currentGeneration := runtime.committedGeneration
      currentDigest := runtime.committedDigest
      guarantee := runtime.guarantee
      contactEstablishedThisProcess := runtime.contactEstablishedThisProcess }

def lineageOf (p : DistributorPolicy) (desired : DeliveryRecord) (runtime : Option TargetRuntime) (fresh : Bool) :
    LineageConvergence :=
  arranged (runtimeFindings fresh desired runtime (stateFindings p desired (lineageBase desired runtime)))

def buildLineage (s : ControllerState) (p : DistributorPolicy) (nowMillis : ℤ) (desired : DeliveryRecord) :
    LineageConvergence :=
  let runtime := s.findTarget desired.target
  lineageOf p desired runtime (runtime.any fun runtime => isFreshContact runtime p nowMillis)

/-- The blockers that nothing but an operator removes, when they come first. -/
def blocks : BlockerKind → Bool
  | .retryBudgetExhausted | .guaranteeUnsupported | .artifactUnavailable | .policyRejected | .targetAheadOfDesired
  | .digestMismatchReported | .schemaUnsupported => true
  | _ => false

/-- A lineage is counted in one of four ways. -/
def count (report : ConvergenceReport) (l : LineageConvergence) : ConvergenceReport :=
  let report := { report with lineageCount := report.lineageCount + 1, lineages := report.lineages ++ [l] }
  if l.converged then { report with convergedCount := report.convergedCount + 1 }
  else if l.blockers.head?.any blocks then { report with blockedCount := report.blockedCount + 1 }
  else if l.currentGeneration ≠ 0 ∧ l.currentGeneration < l.desiredGeneration then
    { report with divergedCount := report.divergedCount + 1 }
  else { report with pendingCount := report.pendingCount + 1 }

/-- The newest record of a lineage. -/
def desired (records : List DeliveryRecord) : Option DeliveryRecord := (sort older records).getLast?

def addLineage (s : ControllerState) (p : DistributorPolicy) (nowMillis : ℤ) (report : ConvergenceReport)
    (records : List DeliveryRecord) : ConvergenceReport :=
  match desired records with
  | none => report
  | some desired =>
    let report := { report with
      retiredCount := report.retiredCount + records.countP (·.state == .retired)
      rejectedCount := report.rejectedCount + if desired.state = .rejected then 1 else 0 }
    count report (buildLineage s p nowMillis desired)

end Convergence

def buildConvergenceReport (s : ControllerState) (p : DistributorPolicy) (nowMillis : ℤ) : ConvergenceReport :=
  (Convergence.lineages s).foldl (fun report e => Convergence.addLineage s p nowMillis report e.2)
    { nodeId := s.nodeId, epoch := s.epoch, incarnation := s.incarnation }

/-! Its text. -/

namespace LineageConvergence

def summary (l : LineageConvergence) : Bytes :=
  text "target=" ++ l.target ++ text " key=" ++ l.key ++
    text " desired-generation=" ++ text (toString l.desiredGeneration) ++
    text " desired-digest=" ++ shortDigest l.desiredDigest ++
    text " current-generation=" ++ text (if l.currentGeneration ≠ 0 then toString l.currentGeneration else "none") ++
    text " current-digest=" ++ (if l.currentDigest.isSet then shortDigest l.currentDigest else text "none") ++
    text " state=" ++ text (deliveryStateName l.state) ++
    text " guarantee=" ++ text (applyGuaranteeName l.guarantee) ++
    text " required=" ++ text (guaranteeRequirementName l.requirement) ++
    text " outcome=" ++ text (if l.converged then "converged" else "not-converged") ++ text "\n" ++
    text "  reason: " ++ l.currentReason ++ text "\n"

def blockerLine (bs : List BlockerKind) : Bytes :=
  if bs = [] then []
  else text "  blockers:" ++ (bs.flatMap fun b => text " " ++ text (blockerKindName b)) ++ text "\n"

def pendingLines (items : List Bytes) : Bytes :=
  if items = [] then []
  else text "  pending:\n" ++ items.flatMap fun item => text "    - " ++ item ++ text "\n"

def render (l : LineageConvergence) : Bytes := l.summary ++ blockerLine l.blockers ++ pendingLines l.pending

end LineageConvergence

namespace ConvergenceReport

def header (r : ConvergenceReport) : Bytes :=
  text "convergence node=" ++ r.nodeId ++ text " epoch=" ++ text (toString r.epoch) ++
    text " incarnation=" ++ (toHex r.incarnation.1).take 8 ++ text "\n" ++
    text "lineages=" ++ text (toString r.lineageCount) ++ text " converged=" ++ text (toString r.convergedCount) ++
    text " pending=" ++ text (toString r.pendingCount) ++ text " diverged=" ++ text (toString r.divergedCount) ++
    text " blocked=" ++ text (toString r.blockedCount) ++ text " retired=" ++ text (toString r.retiredCount) ++
    text " rejected=" ++ text (toString r.rejectedCount) ++ text "\n" ++
    text "state=" ++ text (if r.converged then "converged" else "not-converged") ++ text "\n"

def render (r : ConvergenceReport) : Bytes := r.header ++ r.lineages.flatMap LineageConvergence.render

def lineageMaterial (l : LineageConvergence) : Bytes :=
  l.target ++ text ":" ++ l.key ++ text ":" ++ text (toString l.desiredGeneration) ++ text ":" ++
    text (if l.currentGeneration ≠ 0 then toString l.currentGeneration else "-") ++ text ":" ++
    text (deliveryStateName l.state) ++ text ":" ++ text (if l.converged then "1" else "0") ++ text ";"

def material (r : ConvergenceReport) : Bytes :=
  r.nodeId ++ text "|" ++ text (toString r.epoch) ++ text "|" ++ r.lineages.flatMap lineageMaterial

def fingerprint (r : ConvergenceReport) : Bytes := shortDigest (.ofContent r.material)

end ConvergenceReport

end ConfigurationFabric
