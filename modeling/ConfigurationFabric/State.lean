import ConfigurationFabric.Lifecycle

namespace ConfigurationFabric

open LittleEndian

structure ArtifactMetadata where
  id : ArtifactId := []
  revision : Revision := 0
  schema : SchemaId := []
  schemaVersion : SchemaVersion := 0
  digest : Digest := .zero 32
  sizeBytes : ℕ := 0
  mediaType : Bytes := []
  producer : Bytes := []
  producedAtMillis : ℤ := 0
  storedAtMillis : ℤ := 0
  deriving DecidableEq

structure TargetRuntime where
  id : TargetId := []
  klass : TargetClass := .unspecified
  guarantee : ApplyGuarantee := .atomicActivate
  term : Term := 0
  incarnation : IncarnationId := .zero 16
  committedGeneration : Generation := 0
  committedDigest : Digest := .zero 32
  committedArtifact : ArtifactId := []
  lastContactMillis : ℤ := 0
  contactEstablishedThisProcess : Bool := false
  sessionsEstablished : ℕ := 0
  restartsObserved : ℕ := 0
  applyPrepared : Bool := false
  preparedDeployment : DeploymentId := []
  preparedGeneration : Generation := 0
  preparedDigest : Digest := .zero 32
  endpoint : Bytes := []
  deriving DecidableEq

structure DeliveryRecord where
  id : DeploymentId := []
  setId : DeploymentSetId := []
  rolloutSet : RolloutSetId := []
  target : TargetId := []
  key : ConfigKey := []
  artifact : ArtifactId := []
  revision : Revision := 0
  generation : Generation := 0
  digest : Digest := .zero 32
  schema : SchemaId := []
  schemaVersion : SchemaVersion := 0
  sizeBytes : ℕ := 0
  requirement : GuaranteeRequirement := .requireAtomic
  effectiveGuarantee : ApplyGuarantee := .atomicActivate
  state : DeliveryState := .prepared
  attempt : AttemptId := 0
  failures : ℕ := 0
  lastError : ErrorCode := .ok
  lastDirective : RetryDirective := .doNotRetry
  lastDetail : Bytes := []
  events : List LifecycleEvent := []
  authorityEpoch : Epoch := 0
  authorityIncarnation : IncarnationId := .zero 16
  targetTerm : Term := 0
  targetIncarnation : IncarnationId := .zero 16
  acknowledgedFromReconcile : Bool := false
  superseded : Bool := false
  createdAtMillis : ℤ := 0
  updatedAtMillis : ℤ := 0
  deriving DecidableEq

structure ControllerState where
  nodeId : NodeId := []
  epoch : Epoch := 0
  incarnation : IncarnationId := .zero 16
  startedAtMillis : ℤ := 0
  targets : SortedMap TargetId TargetRuntime := []
  deliveries : SortedMap DeploymentId DeliveryRecord := []
  artifacts : SortedMap Digest ArtifactMetadata := []
  deriving DecidableEq

structure TransferRecord where
  deployment : DeploymentId := []
  stream : StreamId := 0
  key : ConfigKey := []
  artifact : ArtifactId := []
  generation : Generation := 0
  digest : Digest := .zero 32
  totalBytes : ℕ := 0
  bytesReceived : ℕ := 0
  verified : Bool := false
  staged : Bool := false
  updatedAtMillis : ℤ := 0
  deriving DecidableEq

structure AppliedFinding where
  key : ConfigKey := []
  generation : Generation := 0
  digest : Digest := .zero 32
  artifact : ArtifactId := []
  deployment : DeploymentId := []
  state : DeliveryState := .applied
  recordedAtMillis : ℤ := 0
  deriving DecidableEq

structure AgentState where
  target : TargetId := []
  klass : TargetClass := .unspecified
  guarantee : ApplyGuarantee := .atomicActivate
  term : Term := 0
  incarnation : IncarnationId := .zero 16
  restartCount : ℕ := 0
  lastControllerEpoch : Epoch := 0
  lastControllerIncarnation : IncarnationId := .zero 16
  lastControllerNode : NodeId := []
  committedGeneration : Generation := 0
  committedDigest : Digest := .zero 32
  committedArtifact : ArtifactId := []
  applyPrepared : Bool := false
  preparedDeployment : DeploymentId := []
  preparedGeneration : Generation := 0
  preparedDigest : Digest := .zero 32
  transfers : SortedMap DeploymentId TransferRecord := []
  findings : List AppliedFinding := []
  activations : ℕ := 0
  duplicatesSuppressed : ℕ := 0
  staleOffersRefused : ℕ := 0
  digestRejections : ℕ := 0
  applyRollbacks : ℕ := 0
  deriving DecidableEq

def kMaxFindingsPerAgent : ℕ := 128
def kMaxDeliveryDetailBytes : ℕ := 192
def kMaxEndpointBytes : ℕ := 128
def kMaxNoteBytes : ℕ := 256

namespace AgentState

def findFinding (s : AgentState) (key : ConfigKey) (digest : Digest) : Option AppliedFinding :=
  s.findings.find? fun f => f.key == key && f.digest == digest

def replaceFinding (finding : AppliedFinding) : List AppliedFinding → List AppliedFinding
  | [] => []
  | f :: fs =>
    if f.key = finding.key ∧ f.digest = finding.digest then finding :: fs
    else f :: replaceFinding finding fs

/-- The table answers from the newest outcome of a key and digest; a full table drops its oldest entry. -/
def insertFinding (finding : AppliedFinding) (findings : List AppliedFinding) : List AppliedFinding :=
  if findings.any fun f => f.key == finding.key && f.digest == finding.digest then
    replaceFinding finding findings
  else if findings.length ≥ kMaxFindingsPerAgent then findings.tail ++ [finding]
  else findings ++ [finding]

def upsertFinding (finding : AppliedFinding) (s : AgentState) : AgentState :=
  { s with findings := insertFinding finding s.findings }

theorem mem_replaceFinding {f x : AppliedFinding} {fs : List AppliedFinding} (h : x ∈ replaceFinding f fs) :
    x = f ∨ x ∈ fs := by
  induction fs with
  | nil => cases h
  | cons y ys ih =>
    rw [replaceFinding] at h
    split at h
    · exact (List.mem_cons.mp h).imp id (List.mem_cons_of_mem _)
    · obtain rfl | h := List.mem_cons.mp h
      · exact .inr List.mem_cons_self
      · exact (ih h).imp id (List.mem_cons_of_mem _)

theorem mem_insertFinding {f x : AppliedFinding} {fs : List AppliedFinding} (h : x ∈ insertFinding f fs) :
    x = f ∨ x ∈ fs := by
  rw [insertFinding] at h
  split at h
  · exact mem_replaceFinding h
  split at h
  · obtain h | h := List.mem_append.mp h
    · exact .inr (List.mem_of_mem_tail h)
    · exact .inl (List.mem_singleton.mp h)
  · obtain h | h := List.mem_append.mp h
    · exact .inr h
    · exact .inl (List.mem_singleton.mp h)

theorem length_replaceFinding (f : AppliedFinding) (fs : List AppliedFinding) :
    (replaceFinding f fs).length = fs.length := by
  induction fs with
  | nil => rfl
  | cons g gs ih =>
    rw [replaceFinding]
    split
    · rfl
    · rw [List.length_cons, ih, List.length_cons]

theorem length_insertFinding {f : AppliedFinding} {fs : List AppliedFinding} (h : fs.length ≤ kMaxFindingsPerAgent) :
    (insertFinding f fs).length ≤ kMaxFindingsPerAgent := by
  have hpos : 0 < kMaxFindingsPerAgent := by decide
  rw [insertFinding]
  split
  · rw [length_replaceFinding]
    exact h
  split
  · rw [List.length_append, List.length_tail, List.length_singleton]
    omega
  · rw [List.length_append, List.length_singleton]
    omega

end AgentState

end ConfigurationFabric
