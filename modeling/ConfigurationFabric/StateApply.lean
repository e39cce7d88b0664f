import ConfigurationFabric.StateCodec
import ConfigurationFabric.Library.Script

namespace ConfigurationFabric

open LittleEndian
open ByteReader

def journalRecordTypeName : JournalRecordType → String
  | .invalid => "invalid"
  | .segmentStart => "segment-start"
  | .controllerIdentity => "controller-identity"
  | .controllerEpoch => "controller-epoch"
  | .targetUpsert => "target-upsert"
  | .targetRemove => "target-remove"
  | .deliveryUpsert => "delivery-upsert"
  | .deliveryRemove => "delivery-remove"
  | .artifactUpsert => "artifact-upsert"
  | .artifactRemove => "artifact-remove"
  | .deploymentSetNote => "deployment-set-note"
  | .agentIdentity => "agent-identity"
  | .agentTargetCommit => "agent-target-commit"
  | .agentTransferUpsert => "agent-transfer-upsert"
  | .agentTransferRemove => "agent-transfer-remove"
  | .agentFindingUpsert => "agent-finding-upsert"
  | .agentApplyPrepared => "agent-apply-prepared"
  | .agentApplyResolved => "agent-apply-resolved"
  | .agentControllerFence => "agent-controller-fence"
  | .agentRollbackNote => "agent-rollback-note"
  | .note => "note"

/-- One field of a record, assigned to the state as soon as it has been read. -/
abbrev FieldStep (State : Type) := Script.Step State Bytes Error

variable {State : Type}

def applyScript (steps : List (FieldStep State)) (state : State) (payload : Bytes) : Status × State :=
  match Script.run steps state payload with
  | (.error e, state, _) => (.error e, state)
  | (.ok (), state, rest) => (requireEnd.run' rest, state)

theorem applyScript_state (fields : List (FieldStep State)) (s : State) (payload : Bytes) :
    (applyScript fields s payload).2 = (Script.run fields s payload).2.1 := by
  unfold applyScript
  split
  · simp_all
  · simp_all

def field {α : Type} (read : ByteReader α) (assign : α → State → State) : FieldStep State := fun bytes =>
  match read bytes with
  | .error e => .error e
  | .ok (value, rest) => .ok (assign value, rest)

def nonZero (message : String) : ByteReader ℕ := do
  let value ← u64
  if value = 0 then ByteReader.fail .malformedInput message
  return value

def embeddedMetadata : ByteReader ArtifactMetadata := do
  let encoded ← string kAbsoluteMaxFieldBytes
  liftM (decodeArtifactMetadata encoded)

namespace ControllerStateCodec

-- contact evidence belongs to the running process: an applied record keeps what the process established
def setTarget (runtime : TargetRuntime) (s : ControllerState) : ControllerState :=
  let contact := ((s.targets.find runtime.id).map (·.contactEstablishedThisProcess)).getD
    runtime.contactEstablishedThisProcess
  { s with targets := s.targets.insert runtime.id { runtime with contactEstablishedThisProcess := contact } }

def steps : JournalRecordType → Option (List (FieldStep ControllerState))
  | .controllerIdentity => some
    [ field (identifier parseNodeId) fun v s => { s with nodeId := v },
      field u64 fun v s => { s with epoch := v },
      field opaque128 fun v s => { s with incarnation := v },
      field i64 fun v s => { s with startedAtMillis := v } ]
  | .controllerEpoch => some
    [ field (nonZero "recorded epoch 0 is not a valid authority") fun v s => { s with epoch := v } ]
  | .targetUpsert => some [ field readTargetRuntime setTarget ]
  | .targetRemove => some
    [ field (identifier parseTargetId) fun v s => { s with targets := s.targets.erase v } ]
  | .deliveryUpsert => some
    [ field readDeliveryRecord fun v s => { s with deliveries := s.deliveries.insert v.id v } ]
  | .deliveryRemove => some
    [ field (identifier parseDeploymentId) fun v s => { s with deliveries := s.deliveries.erase v } ]
  | .artifactUpsert => some
    [ field embeddedMetadata fun v s => { s with artifacts := s.artifacts.insert v.digest v } ]
  | .artifactRemove => some
    [ field ByteReader.digest fun v s => { s with artifacts := s.artifacts.erase v } ]
  | .note => some [ field (string kMaxNoteBytes) fun _ s => s ]
  | _ => none

def apply (state : ControllerState) (type : JournalRecordType) (payload : Bytes) : Status × ControllerState :=
  match steps type with
  | some fields => applyScript fields state payload
  | none =>
    (.fail .unexpectedMessage "record type is not valid for controller state" (journalRecordTypeName type), state)

end ControllerStateCodec

namespace AgentStateCodec

def steps : JournalRecordType → Option (List (FieldStep AgentState))
  | .agentIdentity => some
    [ field (identifier parseTargetId) fun v s => { s with target := v },
      field (enumeration TargetClass.ofValue "agent identity has an unknown class")
        fun v s => { s with klass := v },
      field (enumeration ApplyGuarantee.ofValue "agent identity has an unknown guarantee")
        fun v s => { s with guarantee := v },
      field (nonZero "agent identity carries the unset term 0") fun v s => { s with term := v },
      field opaque128 fun v s => { s with incarnation := v },
      field u32 fun v s => { s with restartCount := v } ]
  | .agentControllerFence => some
    [ field u64 fun v s => { s with lastControllerEpoch := v },
      field opaque128 fun v s => { s with lastControllerIncarnation := v },
      field (optionalIdentifier parseNodeId) fun v s => if v = [] then s else { s with lastControllerNode := v } ]
  | .agentTargetCommit => some
    [ field u64 fun v s => { s with committedGeneration := v },
      field ByteReader.digest fun v s => { s with committedDigest := v },
      field (optionalIdentifier parseArtifactId)
        fun v s => if v = [] then s else { s with committedArtifact := v } ]
  | .agentTransferUpsert => some
    [ field readTransferRecord fun v s => { s with transfers := s.transfers.insert v.deployment v } ]
  | .agentTransferRemove => some
    [ field (identifier parseDeploymentId) fun v s => { s with transfers := s.transfers.erase v } ]
  | .agentFindingUpsert => some [ field readAppliedFinding AgentState.upsertFinding ]
  | .agentApplyPrepared => some
    [ field (identifier parseDeploymentId) fun v s => { s with preparedDeployment := v },
      field u64 fun v s => { s with preparedGeneration := v },
      field ByteReader.digest fun v s => { s with preparedDigest := v, applyPrepared := true } ]
  | .agentApplyResolved => some
    [ field (pure ()) fun _ s =>
        { s with
          applyPrepared := false
          preparedDeployment := []
          preparedGeneration := 0
          preparedDigest := .zero 32 },
      field u64 fun v s => { s with activations := v } ]
  | .agentRollbackNote => some
    [ field u64 fun v s => { s with applyRollbacks := v },
      field u64 fun v s => { s with duplicatesSuppressed := v },
      field u64 fun v s => { s with staleOffersRefused := v },
      field u64 fun v s => { s with digestRejections := v } ]
  | .note => some [ field (string kMaxNoteBytes) fun _ s => s ]
  | _ => none

def apply (state : AgentState) (type : JournalRecordType) (payload : Bytes) : Status × AgentState :=
  match steps type with
  | some fields => applyScript fields state payload
  | none =>
    (.fail .unexpectedMessage "record type is not valid for agent state" (journalRecordTypeName type), state)

end AgentStateCodec

/-! No record assigns a part of the state twice. -/

theorem fixes_field {α π : Type} {read : ByteReader α} {assign : α → State → State} {p : State → π}
    (h : ∀ v s, p (assign v s) = p s → assign v s = s) : Script.Fixes (field read assign) p := by
  intro bs f bs' hstep s hp
  rw [field] at hstep
  split at hstep
  · cases hstep
  · obtain ⟨rfl, -⟩ := Prod.mk.inj (Except.ok.inj hstep)
    exact h _ s hp

theorem keeps_field {α π : Type} {read : ByteReader α} {assign : α → State → State} {p : State → π}
    (h : ∀ v s, p (assign v s) = p s) : Script.Keeps (field read assign) p := by
  intro bs f bs' hstep s
  rw [field] at hstep
  split at hstep
  · cases hstep
  · obtain ⟨rfl, -⟩ := Prod.mk.inj (Except.ok.inj hstep)
    exact h _ s

theorem ControllerStateCodec.separate {type : JournalRecordType} {fields : List (FieldStep ControllerState)}
    (h : steps type = some fields) : Script.Separate fields := by
  cases type <;> simp only [steps, Option.some.injEq, reduceCtorEq] at h <;> subst h
  case controllerIdentity =>
    refine .cons (·.nodeId) (fixes_field ?_) ?_ (.cons (·.epoch) (fixes_field ?_) ?_
      (.cons (·.incarnation) (fixes_field ?_) ?_ (.single _)))
    all_goals first
      | (rintro v ⟨⟩ hp; simpa using hp)
      | (simp only [List.forall_mem_cons, List.not_mem_nil, false_implies, implies_true, and_true]
         repeat' constructor
         all_goals exact keeps_field fun _ _ => rfl)
  all_goals exact .single _

theorem AgentStateCodec.separate {type : JournalRecordType} {fields : List (FieldStep AgentState)}
    (h : steps type = some fields) : Script.Separate fields := by
  have hnode : Script.Keeps (field (optionalIdentifier parseNodeId)
      fun v (s : AgentState) => if v = [] then s else { s with lastControllerNode := v })
      (fun s => (s.lastControllerEpoch, s.lastControllerIncarnation)) :=
    keeps_field fun v s => by split <;> rfl
  have hartifact : Script.Keeps (field (optionalIdentifier parseArtifactId)
      fun v (s : AgentState) => if v = [] then s else { s with committedArtifact := v })
      (fun s => (s.committedGeneration, s.committedDigest)) :=
    keeps_field fun v s => by split <;> rfl
  cases type <;> simp only [steps, Option.some.injEq, reduceCtorEq] at h <;> subst h
  case agentIdentity =>
    refine .cons (·.target) (fixes_field ?_) ?_ (.cons (·.klass) (fixes_field ?_) ?_
      (.cons (·.guarantee) (fixes_field ?_) ?_ (.cons (·.term) (fixes_field ?_) ?_
      (.cons (·.incarnation) (fixes_field ?_) ?_ (.single _)))))
    all_goals first
      | (rintro v ⟨⟩ hp; simpa using hp)
      | (simp only [List.forall_mem_cons, List.not_mem_nil, false_implies, implies_true, and_true]
         repeat' constructor
         all_goals exact keeps_field fun _ _ => rfl)
  case agentControllerFence =>
    refine .cons (·.lastControllerEpoch) (fixes_field ?_) ?_
      (.cons (·.lastControllerIncarnation) (fixes_field ?_) ?_ (.single _))
    · rintro v ⟨⟩ hp; simpa using hp
    · simp only [List.forall_mem_cons, List.not_mem_nil, false_implies, implies_true, and_true]
      exact ⟨keeps_field fun _ _ => rfl, fun bs f bs' hs s => (Prod.mk.inj (hnode bs f bs' hs s)).1⟩
    · rintro v ⟨⟩ hp; simpa using hp
    · simp only [List.forall_mem_cons, List.not_mem_nil, false_implies, implies_true, and_true]
      exact fun bs f bs' hs s => (Prod.mk.inj (hnode bs f bs' hs s)).2
  case agentTargetCommit =>
    refine .cons (·.committedGeneration) (fixes_field ?_) ?_
      (.cons (·.committedDigest) (fixes_field ?_) ?_ (.single _))
    · rintro v ⟨⟩ hp; simpa using hp
    · simp only [List.forall_mem_cons, List.not_mem_nil, false_implies, implies_true, and_true]
      exact ⟨keeps_field fun _ _ => rfl, fun bs f bs' hs s => (Prod.mk.inj (hartifact bs f bs' hs s)).1⟩
    · rintro v ⟨⟩ hp; simpa using hp
    · simp only [List.forall_mem_cons, List.not_mem_nil, false_implies, implies_true, and_true]
      exact fun bs f bs' hs s => (Prod.mk.inj (hartifact bs f bs' hs s)).2
  case agentApplyPrepared =>
    refine .cons (·.preparedDeployment) (fixes_field ?_) ?_
      (.cons (·.preparedGeneration) (fixes_field ?_) ?_ (.single _))
    all_goals first
      | (rintro v ⟨⟩ hp; simpa using hp)
      | (simp only [List.forall_mem_cons, List.not_mem_nil, false_implies, implies_true, and_true]
         repeat' constructor
         all_goals exact keeps_field fun _ _ => rfl)
  case agentApplyResolved =>
    refine .cons (fun s => (s.applyPrepared, s.preparedDeployment, s.preparedGeneration, s.preparedDigest))
      (fixes_field ?_) ?_ (.single _)
    · rintro v ⟨⟩ hp
      simpa using hp
    · simp only [List.forall_mem_cons, List.not_mem_nil, false_implies, implies_true, and_true]
      exact keeps_field fun _ _ => rfl
  case agentRollbackNote =>
    refine .cons (·.applyRollbacks) (fixes_field ?_) ?_ (.cons (·.duplicatesSuppressed) (fixes_field ?_) ?_
      (.cons (·.staleOffersRefused) (fixes_field ?_) ?_ (.single _)))
    all_goals first
      | (rintro v ⟨⟩ hp; simpa using hp)
      | (simp only [List.forall_mem_cons, List.not_mem_nil, false_implies, implies_true, and_true]
         repeat' constructor
         all_goals exact keeps_field fun _ _ => rfl)
  all_goals exact .single _

end ConfigurationFabric
