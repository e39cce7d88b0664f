import ConfigurationFabric.MessageFields

/-! Each decoder of the protocol accepts exactly what its encoder writes. -/

namespace ConfigurationFabric

open LittleEndian
open Reading
open ByteReader

/-! Session establishment. -/

def AuthRejectMessage.Readable (m : AuthRejectMessage) : Prop := OfBytes m.detail

theorem authReject_canonical : Canonical decodeAuthReject AuthRejectMessage.Readable encodeAuthReject := by
  apply Canonical.congr
  case h =>
    apply message_canonical
    apply part_readErrorCode.plain AuthRejectMessage.code; intro code
    apply part_readDetail.cons AuthRejectMessage.detail; intro detail
    apply exact_pure (P := fun _ => True)
    intro m
    cases m
    simp
  case hQ => simp [AuthRejectMessage.Readable, unchecked]
  case hencode => exact fun m _ => detail_guarded (by simp)

/-! Delivery. -/

def PrepareMessage.Readable (m : PrepareMessage) : Prop :=
  isValidIdentifier m.deployment = true ∧ isValidIdentifier m.key = true ∧ isValidIdentifier m.artifact = true ∧
    m.generation ≠ 0 ∧ m.generation < 2 ^ 64 ∧ m.digest.isSet = true ∧ m.sizeBytes ≠ 0 ∧ m.sizeBytes < 2 ^ 64 ∧
    isValidIdentifier m.schema = true ∧ m.schemaVersion < 2 ^ 32 ∧ m.authorityEpoch ≠ 0 ∧
    m.authorityEpoch < 2 ^ 64 ∧ m.attempt < 2 ^ 64 ∧ m.stream ≠ 0 ∧ m.stream < 2 ^ 64 ∧ m.chunkBytes ≠ 0 ∧
    m.chunkBytes ≤ kMaxChunkPayloadBytes ∧ m.resumeFromOffset < 2 ^ 64

theorem prepare_canonical : Canonical decodePrepare PrepareMessage.Readable encodePrepare := by
  apply Canonical.congr
  case h =>
    apply message_canonical
    apply (part_identifier _).cons PrepareMessage.deployment; intro deployment
    apply (part_identifier _).cons PrepareMessage.key; intro key
    apply (part_identifier _).cons PrepareMessage.artifact; intro artifact
    apply (part_nonZero _).cons PrepareMessage.generation; intro generation
    apply part_digest.plain PrepareMessage.digest; intro digest
    apply part_u64.cons PrepareMessage.sizeBytes; intro sizeBytes
    apply (part_identifier _).cons PrepareMessage.schema; intro schema
    apply part_u32.cons PrepareMessage.schemaVersion; intro schemaVersion
    apply part_readRequirement.plain PrepareMessage.requirement; intro requirement
    apply part_readGuarantee.plain PrepareMessage.guarantee; intro guarantee
    apply part_u64.cons PrepareMessage.authorityEpoch; intro epoch
    apply part_u64.cons PrepareMessage.attempt; intro attempt
    apply part_u64.cons PrepareMessage.stream; intro stream
    apply part_u32.cons PrepareMessage.chunkBytes; intro chunkBytes
    apply part_u64.cons PrepareMessage.resumeFromOffset; intro offset
    apply exact_pure (P := fun _ => True)
    intro m
    cases m
    simp [and_assoc]
  case hQ =>
    intro m
    have hchunk : kMaxChunkPayloadBytes < 2 ^ 32 := by decide
    simp only [PrepareMessage.Readable, checkPrepare, refusal_ok]
    grind
  case hencode => exact fun _ _ _ => Iff.rfl

def PrepareAckMessage.Readable (m : PrepareAckMessage) : Prop :=
  isValidIdentifier m.deployment = true ∧ m.stream < 2 ^ 64 ∧ m.resumeFromOffset < 2 ^ 64 ∧
    m.committedGeneration < 2 ^ 64 ∧ m.priorGeneration < 2 ^ 64

theorem prepareAck_canonical : Canonical decodePrepareAck PrepareAckMessage.Readable encodePrepareAck := by
  apply Canonical.congr
  case h =>
    apply message_canonical
    apply (part_identifier _).cons PrepareAckMessage.deployment; intro deployment
    apply part_u64.cons PrepareAckMessage.stream; intro stream
    apply part_u64.cons PrepareAckMessage.resumeFromOffset; intro resumeFromOffset
    apply part_u64.cons PrepareAckMessage.committedGeneration; intro committedGeneration
    apply part_digest.plain PrepareAckMessage.committedDigest; intro committedDigest
    apply part_boolean.plain PrepareAckMessage.duplicateSuppressed; intro duplicateSuppressed
    apply part_readState.plain PrepareAckMessage.priorState; intro priorState
    apply part_u64.cons PrepareAckMessage.priorGeneration; intro priorGeneration
    apply part_digest.plain PrepareAckMessage.priorDigest; intro priorDigest
    apply exact_pure (P := fun _ => True)
    intro m
    cases m
    simp [and_assoc]
  case hQ => simp [PrepareAckMessage.Readable, unchecked]
  case hencode => exact fun _ _ _ => Iff.rfl

def PrepareRejectMessage.Readable (m : PrepareRejectMessage) : Prop :=
  isValidIdentifier m.deployment = true ∧ OfBytes m.detail ∧ m.committedGeneration < 2 ^ 64

theorem prepareReject_canonical : Canonical decodePrepareReject PrepareRejectMessage.Readable encodePrepareReject := by
  apply Canonical.congr
  case h =>
    apply message_canonical
    apply (part_identifier _).cons PrepareRejectMessage.deployment; intro deployment
    apply part_readErrorCode.plain PrepareRejectMessage.code; intro code
    apply part_readDetail.cons PrepareRejectMessage.detail; intro detail
    apply part_readState.plain PrepareRejectMessage.observedState; intro observedState
    apply part_u64.cons PrepareRejectMessage.committedGeneration; intro committedGeneration
    apply exact_pure (P := fun _ => True)
    intro m
    cases m
    simp [and_assoc]
  case hQ => simp [PrepareRejectMessage.Readable, unchecked]
  case hencode => exact fun m _ => detail_guarded (by simp)

def ChunkMessage.Readable (m : ChunkMessage) : Prop :=
  m.stream ≠ 0 ∧ m.stream < 2 ^ 64 ∧ m.sequence < 2 ^ 64 ∧ m.offset < 2 ^ 64 ∧ m.data ≠ []

theorem chunk_canonical : Canonical decodeChunk ChunkMessage.Readable encodeChunk := by
  apply Canonical.congr
  case h =>
    apply message_canonical
    apply part_u64.cons ChunkMessage.stream; intro stream
    apply part_u64.cons ChunkMessage.sequence; intro sequence
    apply part_u64.cons ChunkMessage.offset; intro offset
    apply (part_string _).plain ChunkMessage.data; intro data
    apply exact_pure (P := fun _ => True)
    intro m
    cases m
    simp [and_assoc]
  case hQ =>
    intro m
    simp only [ChunkMessage.Readable, checkChunk, refusal_ok]
    grind
  case hencode => exact fun m _ => bound_guarded (by simp)

def ChunkAckMessage.Readable (m : ChunkAckMessage) : Prop :=
  m.stream < 2 ^ 64 ∧ m.sequence < 2 ^ 64 ∧ m.bytesReceived < 2 ^ 64 ∧ OfBytes m.detail

theorem chunkAck_canonical : Canonical decodeChunkAck ChunkAckMessage.Readable encodeChunkAck := by
  apply Canonical.congr
  case h =>
    apply message_canonical
    apply part_u64.cons ChunkAckMessage.stream; intro stream
    apply part_u64.cons ChunkAckMessage.sequence; intro sequence
    apply part_readErrorCode.plain ChunkAckMessage.code; intro code
    apply part_u64.cons ChunkAckMessage.bytesReceived; intro bytesReceived
    apply part_readDetail.cons ChunkAckMessage.detail; intro detail
    apply exact_pure (P := fun _ => True)
    intro m
    cases m
    simp [and_assoc]
  case hQ => simp [ChunkAckMessage.Readable, unchecked]
  case hencode => exact fun m _ => detail_guarded (by simp)

def TransferCompleteMessage.Readable (m : TransferCompleteMessage) : Prop :=
  isValidIdentifier m.deployment = true ∧ m.stream < 2 ^ 64 ∧ m.sizeBytes < 2 ^ 64

theorem transferComplete_canonical : Canonical decodeTransferComplete TransferCompleteMessage.Readable encodeTransferComplete := by
  apply Canonical.congr
  case h =>
    apply message_canonical
    apply (part_identifier _).cons TransferCompleteMessage.deployment; intro deployment
    apply part_u64.cons TransferCompleteMessage.stream; intro stream
    apply part_digest.plain TransferCompleteMessage.digest; intro digest
    apply part_u64.cons TransferCompleteMessage.sizeBytes; intro sizeBytes
    apply exact_pure (P := fun _ => True)
    intro m
    cases m
    simp [and_assoc]
  case hQ => simp [TransferCompleteMessage.Readable, unchecked]
  case hencode => exact fun _ _ _ => Iff.rfl

def TransferResultMessage.Readable (m : TransferResultMessage) : Prop :=
  isValidIdentifier m.deployment = true ∧ m.stream < 2 ^ 64 ∧ m.bytesReceived < 2 ^ 64 ∧ OfBytes m.detail

theorem transferResult_canonical : Canonical decodeTransferResult TransferResultMessage.Readable encodeTransferResult := by
  apply Canonical.congr
  case h =>
    apply message_canonical
    apply (part_identifier _).cons TransferResultMessage.deployment; intro deployment
    apply part_u64.cons TransferResultMessage.stream; intro stream
    apply part_boolean.plain TransferResultMessage.verified; intro verified
    apply part_u64.cons TransferResultMessage.bytesReceived; intro bytesReceived
    apply part_readErrorCode.plain TransferResultMessage.code; intro code
    apply part_readDetail.cons TransferResultMessage.detail; intro detail
    apply exact_pure (P := fun _ => True)
    intro m
    cases m
    simp [and_assoc]
  case hQ => simp [TransferResultMessage.Readable, unchecked]
  case hencode => exact fun m _ => detail_guarded (by simp)

def StageMessage.Readable (m : StageMessage) : Prop :=
  isValidIdentifier m.deployment = true ∧ m.stream < 2 ^ 64 ∧ m.generation ≠ 0 ∧ m.generation < 2 ^ 64

theorem stage_canonical : Canonical decodeStage StageMessage.Readable encodeStage := by
  apply Canonical.congr
  case h =>
    apply message_canonical
    apply (part_identifier _).cons StageMessage.deployment; intro deployment
    apply part_u64.cons StageMessage.stream; intro stream
    apply (part_nonZero _).cons StageMessage.generation; intro generation
    apply part_digest.plain StageMessage.digest; intro digest
    apply exact_pure (P := fun _ => True)
    intro m
    cases m
    simp [and_assoc]
  case hQ => simp [StageMessage.Readable, unchecked]
  case hencode => exact fun _ _ _ => Iff.rfl

/-! Three shapes that several messages share. -/

section Shapes

variable {α : Type} {encode : α → Result Bytes} {Readable : α → Prop}

theorem outcome_canonical {make : DeploymentId → Bool → ErrorCode → String → α} (deployment : α → DeploymentId)
    (done : α → Bool) (code : α → ErrorCode) (detail : α → String)
    (hmake : ∀ m d b c s, (((deployment m = d ∧ done m = b) ∧ code m = c) ∧ detail m = s) ↔ m = make d b c s)
    (hencode : ∀ m, encode m = writeOutcome (deployment m) (done m) (code m) (detail m))
    (hQ : ∀ m, Readable m ↔ isValidIdentifier (deployment m) = true ∧ OfBytes (detail m)) :
    Canonical (decodeMessage (readOutcome make) unchecked) Readable encode := by
  apply Canonical.congr
  case h =>
    apply message_canonical
    apply (part_identifier _).cons deployment; intro d
    apply part_boolean.plain done; intro b
    apply part_readErrorCode.plain code; intro c
    apply part_readDetail.cons detail; intro s
    apply exact_pure (P := fun _ => True)
    intro m
    simpa using hmake m d b c s
  case hQ => simp [hQ, unchecked]
  case hencode =>
    intro m _
    rw [hencode]
    exact detail_guarded (by simp)

theorem subject_canonical {make : DeploymentId → Generation → Digest → α} (deployment : α → DeploymentId)
    (generation : α → Generation) (digest : α → Digest)
    (hmake : ∀ m d g c, ((deployment m = d ∧ generation m = g) ∧ digest m = c) ↔ m = make d g c)
    (hencode : ∀ m, encode m = writeSubject (deployment m) (generation m) (digest m))
    (hQ : ∀ m, Readable m ↔ isValidIdentifier (deployment m) = true ∧ generation m ≠ 0 ∧ generation m < 2 ^ 64) :
    Canonical (decodeMessage (readSubject make) unchecked) Readable encode := by
  apply Canonical.congr
  case h =>
    apply message_canonical
    apply (part_identifier _).cons deployment; intro d
    apply (part_nonZero _).cons generation; intro g
    apply part_digest.plain digest; intro c
    apply exact_pure (P := fun _ => True)
    intro m
    simpa using hmake m d g c
  case hQ => simp [hQ, unchecked]
  case hencode =>
    intro m _ bs
    rw [hencode]
    rfl

theorem ending_canonical {make : DeploymentId → Generation → String → α} (deployment : α → DeploymentId)
    (generation : α → Generation) (reason : α → String)
    (hmake : ∀ m d g s, ((deployment m = d ∧ generation m = g) ∧ reason m = s) ↔ m = make d g s)
    (hencode : ∀ m, encode m = writeEnding (deployment m) (generation m) (reason m))
    (hQ : ∀ m, Readable m ↔ isValidIdentifier (deployment m) = true ∧ generation m ≠ 0 ∧ generation m < 2 ^ 64 ∧
      OfBytes (reason m)) : Canonical (decodeMessage (readEnding make) unchecked) Readable encode := by
  apply Canonical.congr
  case h =>
    apply message_canonical
    apply (part_identifier _).cons deployment; intro d
    apply (part_nonZero _).cons generation; intro g
    apply part_readDetail.cons reason; intro s
    apply exact_pure (P := fun _ => True)
    intro m
    simpa using hmake m d g s
  case hQ => simp [hQ, unchecked, and_assoc]
  case hencode =>
    intro m _
    rw [hencode]
    exact detail_guarded (by simp)

end Shapes

def StageAckMessage.Readable (m : StageAckMessage) : Prop :=
  isValidIdentifier m.deployment = true ∧ OfBytes m.detail

theorem stageAck_canonical : Canonical decodeStageAck StageAckMessage.Readable encodeStageAck := by
  apply outcome_canonical StageAckMessage.deployment StageAckMessage.staged StageAckMessage.code StageAckMessage.detail
  case hmake =>
    rintro ⟨⟩
    simp [and_assoc]
  case hencode => exact fun _ => rfl
  case hQ => exact fun _ => Iff.rfl

def ApplyPrepareMessage.Readable (m : ApplyPrepareMessage) : Prop :=
  isValidIdentifier m.deployment = true ∧ m.generation ≠ 0 ∧ m.generation < 2 ^ 64

theorem applyPrepare_canonical : Canonical decodeApplyPrepare ApplyPrepareMessage.Readable encodeApplyPrepare := by
  apply subject_canonical ApplyPrepareMessage.deployment ApplyPrepareMessage.generation ApplyPrepareMessage.digest
  case hmake =>
    rintro ⟨⟩
    simp [and_assoc]
  case hencode => exact fun _ => rfl
  case hQ => exact fun _ => Iff.rfl

def ApplyPrepareAckMessage.Readable (m : ApplyPrepareAckMessage) : Prop :=
  isValidIdentifier m.deployment = true ∧ OfBytes m.detail

theorem applyPrepareAck_canonical : Canonical decodeApplyPrepareAck ApplyPrepareAckMessage.Readable encodeApplyPrepareAck := by
  apply outcome_canonical ApplyPrepareAckMessage.deployment ApplyPrepareAckMessage.prepared ApplyPrepareAckMessage.code ApplyPrepareAckMessage.detail
  case hmake =>
    rintro ⟨⟩
    simp [and_assoc]
  case hencode => exact fun _ => rfl
  case hQ => exact fun _ => Iff.rfl

def ApplyCommitMessage.Readable (m : ApplyCommitMessage) : Prop :=
  isValidIdentifier m.deployment = true ∧ m.generation ≠ 0 ∧ m.generation < 2 ^ 64

theorem applyCommit_canonical : Canonical decodeApplyCommit ApplyCommitMessage.Readable encodeApplyCommit := by
  apply subject_canonical ApplyCommitMessage.deployment ApplyCommitMessage.generation ApplyCommitMessage.digest
  case hmake =>
    rintro ⟨⟩
    simp [and_assoc]
  case hencode => exact fun _ => rfl
  case hQ => exact fun _ => Iff.rfl

def ApplyCommitAckMessage.Readable (m : ApplyCommitAckMessage) : Prop :=
  isValidIdentifier m.deployment = true ∧ m.committedGeneration < 2 ^ 64 ∧ OfBytes m.detail

theorem applyCommitAck_canonical : Canonical decodeApplyCommitAck ApplyCommitAckMessage.Readable encodeApplyCommitAck := by
  apply Canonical.congr
  case h =>
    apply message_canonical
    apply (part_identifier _).cons ApplyCommitAckMessage.deployment; intro deployment
    apply part_boolean.plain ApplyCommitAckMessage.committed; intro committed
    apply part_readState.plain ApplyCommitAckMessage.state; intro state
    apply part_u64.cons ApplyCommitAckMessage.committedGeneration; intro committedGeneration
    apply part_digest.plain ApplyCommitAckMessage.committedDigest; intro committedDigest
    apply part_readErrorCode.plain ApplyCommitAckMessage.code; intro code
    apply part_readDetail.cons ApplyCommitAckMessage.detail; intro detail
    apply exact_pure (P := fun _ => True)
    intro m
    cases m
    simp [and_assoc]
  case hQ => simp [ApplyCommitAckMessage.Readable, unchecked]
  case hencode => exact fun m _ => detail_guarded (by simp)

def ApplyAbortMessage.Readable (m : ApplyAbortMessage) : Prop :=
  isValidIdentifier m.deployment = true ∧ m.generation ≠ 0 ∧ m.generation < 2 ^ 64 ∧ OfBytes m.reason

theorem applyAbort_canonical : Canonical decodeApplyAbort ApplyAbortMessage.Readable encodeApplyAbort := by
  apply ending_canonical ApplyAbortMessage.deployment ApplyAbortMessage.generation ApplyAbortMessage.reason
  case hmake =>
    rintro ⟨⟩
    simp [and_assoc]
  case hencode => exact fun _ => rfl
  case hQ => exact fun _ => Iff.rfl

def ApplyAbortAckMessage.Readable (m : ApplyAbortAckMessage) : Prop :=
  isValidIdentifier m.deployment = true ∧ OfBytes m.detail

theorem applyAbortAck_canonical : Canonical decodeApplyAbortAck ApplyAbortAckMessage.Readable encodeApplyAbortAck := by
  apply outcome_canonical ApplyAbortAckMessage.deployment ApplyAbortAckMessage.aborted ApplyAbortAckMessage.code ApplyAbortAckMessage.detail
  case hmake =>
    rintro ⟨⟩
    simp [and_assoc]
  case hencode => exact fun _ => rfl
  case hQ => exact fun _ => Iff.rfl

/-! Evidence. -/

def DeliveryAckMessage.Readable (m : DeliveryAckMessage) : Prop :=
  isValidIdentifier m.deployment = true ∧ isValidIdentifier m.key = true ∧ m.generation ≠ 0 ∧
    m.generation < 2 ^ 64 ∧ (m.artifact = [] ∨ isValidIdentifier m.artifact = true) ∧
    isActivationState m.state = true ∧ m.term ≠ 0 ∧ m.term < 2 ^ 64 ∧ m.incarnation.isSet = true ∧
    m.authorityEpoch < 2 ^ 64 ∧ m.bytesTransferred < 2 ^ 64 ∧ -2 ^ 63 ≤ m.targetTimestampMillis ∧
    m.targetTimestampMillis < 2 ^ 63

theorem deliveryAck_canonical : Canonical decodeDeliveryAck DeliveryAckMessage.Readable encodeDeliveryAck := by
  apply Canonical.congr
  case h =>
    apply message_canonical
    apply (part_identifier _).cons DeliveryAckMessage.deployment; intro deployment
    apply (part_identifier _).cons DeliveryAckMessage.key; intro key
    apply (part_nonZero _).cons DeliveryAckMessage.generation; intro generation
    apply part_digest.plain DeliveryAckMessage.digest; intro digest
    apply (part_optional _).cons DeliveryAckMessage.artifact; intro artifact
    apply part_readState.plain DeliveryAckMessage.state; intro state
    apply part_u64.cons DeliveryAckMessage.term; intro term
    apply part_opaque128.plain DeliveryAckMessage.incarnation; intro incarnation
    apply part_u64.cons DeliveryAckMessage.authorityEpoch; intro authorityEpoch
    apply part_readGuarantee.plain DeliveryAckMessage.guarantee; intro guarantee
    apply part_u64.cons DeliveryAckMessage.bytesTransferred; intro bytesTransferred
    apply part_i64.cons DeliveryAckMessage.targetTimestampMillis; intro targetTimestampMillis
    apply part_boolean.plain DeliveryAckMessage.evidenceFromReconcile; intro evidenceFromReconcile
    apply exact_pure (P := fun _ => True)
    intro m
    cases m
    simp [and_assoc]
  case hQ =>
    intro m
    simp only [DeliveryAckMessage.Readable, checkDeliveryAck, refusal_ok]
    grind
  case hencode => exact fun _ _ _ => Iff.rfl

def DeliveryNackMessage.Readable (m : DeliveryNackMessage) : Prop :=
  isValidIdentifier m.deployment = true ∧ isValidIdentifier m.key = true ∧ m.generation ≠ 0 ∧
    m.generation < 2 ^ 64 ∧ m.term < 2 ^ 64 ∧ OfBytes m.detail

theorem deliveryNack_canonical : Canonical decodeDeliveryNack DeliveryNackMessage.Readable encodeDeliveryNack := by
  apply Canonical.congr
  case h =>
    apply message_canonical
    apply (part_identifier _).cons DeliveryNackMessage.deployment; intro deployment
    apply (part_identifier _).cons DeliveryNackMessage.key; intro key
    apply (part_nonZero _).cons DeliveryNackMessage.generation; intro generation
    apply part_digest.plain DeliveryNackMessage.digest; intro digest
    apply part_readErrorCode.plain DeliveryNackMessage.code; intro code
    apply part_readDirective.plain DeliveryNackMessage.directive; intro directive
    apply part_u64.cons DeliveryNackMessage.term; intro term
    apply part_opaque128.plain DeliveryNackMessage.incarnation; intro incarnation
    apply part_readDetail.cons DeliveryNackMessage.detail; intro detail
    apply exact_pure (P := fun _ => True)
    intro m
    cases m
    simp [and_assoc]
  case hQ => simp [DeliveryNackMessage.Readable, unchecked, and_assoc]
  case hencode => exact fun m _ => detail_guarded (by simp)

/-! Reconciliation. -/

def ReconcileRequestMessage.Readable (m : ReconcileRequestMessage) : Prop :=
  isValidIdentifier m.nodeId = true ∧ m.epoch ≠ 0 ∧ m.epoch < 2 ^ 64 ∧ m.maxFindings ≤ kMaxFindingsInReport

theorem reconcileRequest_canonical : Canonical decodeReconcileRequest ReconcileRequestMessage.Readable encodeReconcileRequest := by
  apply Canonical.congr
  case h =>
    apply message_canonical
    apply (part_identifier _).cons ReconcileRequestMessage.nodeId; intro nodeId
    apply part_u64.cons ReconcileRequestMessage.epoch; intro epoch
    apply part_opaque128.plain ReconcileRequestMessage.incarnation; intro incarnation
    apply part_u32.cons ReconcileRequestMessage.maxFindings; intro maxFindings
    apply exact_pure (P := fun _ => True)
    intro m
    cases m
    simp [and_assoc]
  case hQ =>
    intro m
    have hfindings : kMaxFindingsInReport < 2 ^ 32 := by decide
    simp only [ReconcileRequestMessage.Readable, checkReconcileRequest, refusal_ok]
    grind
  case hencode => exact fun _ _ _ => Iff.rfl

def TransferStatusRecord.Readable (r : TransferStatusRecord) : Prop :=
  isValidIdentifier r.deployment = true ∧ r.stream < 2 ^ 64 ∧ isValidIdentifier r.key = true ∧ r.generation ≠ 0 ∧
    r.generation < 2 ^ 64 ∧ r.bytesReceived ≤ r.totalBytes ∧ r.totalBytes < 2 ^ 64

theorem part_transferStatus : Part readTransferStatus TransferStatusRecord.Readable writeTransferStatus := by
  apply Exact.part
  case hwrite => exact fun r => concat_eq_joined _
  case h =>
    apply (part_identifier _).cons TransferStatusRecord.deployment; intro deployment
    apply part_u64.cons TransferStatusRecord.stream; intro stream
    apply (part_identifier _).cons TransferStatusRecord.key; intro key
    apply (part_nonZero _).cons TransferStatusRecord.generation; intro generation
    apply part_digest.plain TransferStatusRecord.digest; intro digest
    apply part_u64.cons TransferStatusRecord.bytesReceived; intro bytesReceived
    apply part_u64.cons TransferStatusRecord.totalBytes; intro totalBytes
    apply part_boolean.plain TransferStatusRecord.verified; intro verified
    apply part_boolean.plain TransferStatusRecord.staged; intro staged
    dsimp only
    apply Exact.guard (C := fun r : TransferStatusRecord => r.bytesReceived ≤ r.totalBytes) fail_refuses
    · intro r hK
      rw [hK.1.1.2, hK.1.1.1.2]
      exact not_lt.symm
    apply exact_pure (P := fun _ => True)
    intro r
    cases r
    simp [and_assoc]
  case hQ =>
    intro r
    simp only [TransferStatusRecord.Readable]
    grind

/-- What a report can carry of a finding; its generation is set. -/
def AppliedFinding.Reportable (f : AppliedFinding) : Prop :=
  isValidIdentifier f.key = true ∧ f.generation ≠ 0 ∧ f.generation < 2 ^ 64 ∧
    (f.artifact = [] ∨ isValidIdentifier f.artifact = true) ∧ isValidIdentifier f.deployment = true ∧
    -2 ^ 63 ≤ f.recordedAtMillis ∧ f.recordedAtMillis < 2 ^ 63

theorem part_reconcileFinding : Part readReconcileFinding AppliedFinding.Reportable writeReconcileFinding := by
  apply Exact.part
  case hwrite => exact fun f => concat_eq_joined _
  case h =>
    apply (part_identifier _).cons AppliedFinding.key; intro key
    apply (part_nonZero _).cons AppliedFinding.generation; intro generation
    apply part_digest.plain AppliedFinding.digest; intro digest
    apply (part_optional _).cons AppliedFinding.artifact; intro artifact
    apply (part_identifier _).cons AppliedFinding.deployment; intro deployment
    apply part_readState.plain AppliedFinding.state; intro state
    apply part_i64.cons AppliedFinding.recordedAtMillis; intro recordedAtMillis
    apply exact_pure (P := fun _ => True)
    intro f
    cases f
    simp [and_assoc]
  case hQ =>
    intro f
    simp [AppliedFinding.Reportable, and_assoc]

def ReconcileReportMessage.Readable (m : ReconcileReportMessage) : Prop :=
  isValidIdentifier m.target = true ∧ m.term ≠ 0 ∧ m.term < 2 ^ 64 ∧ m.incarnation.isSet = true ∧
    m.committedGeneration < 2 ^ 64 ∧ (m.committedArtifact = [] ∨ isValidIdentifier m.committedArtifact = true) ∧
    (m.preparedDeployment = [] ∨ isValidIdentifier m.preparedDeployment = true) ∧ m.preparedGeneration < 2 ^ 64 ∧
    m.restartCount < 2 ^ 32 ∧ m.applyRollbacks < 2 ^ 32 ∧ m.transfers.length ≤ kMaxTransfersInReport ∧
    (∀ r ∈ m.transfers, r.Readable) ∧ m.findings.length ≤ kMaxFindingsInReport ∧ ∀ f ∈ m.findings, f.Reportable

theorem reconcileReport_canonical :
    Canonical decodeReconcileReport ReconcileReportMessage.Readable encodeReconcileReport := by
  apply Canonical.congr
  case h =>
    apply message_canonical
    apply (part_identifier _).cons ReconcileReportMessage.target; intro target
    apply part_readClass.plain ReconcileReportMessage.targetClass; intro targetClass
    apply part_readGuarantee.plain ReconcileReportMessage.guarantee; intro guarantee
    apply part_u64.cons ReconcileReportMessage.term; intro term
    apply part_opaque128.plain ReconcileReportMessage.incarnation; intro incarnation
    apply part_u64.cons ReconcileReportMessage.committedGeneration; intro committedGeneration
    apply part_digest.plain ReconcileReportMessage.committedDigest; intro committedDigest
    apply (part_optional _).cons ReconcileReportMessage.committedArtifact; intro committedArtifact
    apply part_boolean.plain ReconcileReportMessage.applyPrepared; intro applyPrepared
    apply (part_optional _).cons ReconcileReportMessage.preparedDeployment; intro preparedDeployment
    apply part_u64.cons ReconcileReportMessage.preparedGeneration; intro preparedGeneration
    apply part_digest.plain ReconcileReportMessage.preparedDigest; intro preparedDigest
    apply part_u32.cons ReconcileReportMessage.restartCount; intro restartCount
    apply part_u32.cons ReconcileReportMessage.applyRollbacks; intro applyRollbacks
    apply exact_counted ReconcileReportMessage.transfers part_transferStatus (by decide) fun _ => fail_refuses
    intro transfers
    apply exact_counted ReconcileReportMessage.findings part_reconcileFinding (by decide) fun _ => fail_refuses
    intro findings
    apply exact_pure (P := fun _ => True)
    intro m
    cases m
    simp [and_assoc]
  case hQ =>
    intro m
    simp only [ReconcileReportMessage.Readable, checkReconcileReport, refusal_ok]
    grind
  case hencode =>
    intro m hm bs
    have hbounds : ¬ (m.transfers.length > kMaxTransfersInReport ∨ m.findings.length > kMaxFindingsInReport) := by
      grind
    rw [encodeReconcileReport, if_neg hbounds]
    rfl

/-! Control and teardown. -/

def RetireMessage.Readable (m : RetireMessage) : Prop :=
  isValidIdentifier m.deployment = true ∧ m.generation ≠ 0 ∧ m.generation < 2 ^ 64 ∧ OfBytes m.reason

theorem retire_canonical : Canonical decodeRetire RetireMessage.Readable encodeRetire := by
  apply ending_canonical RetireMessage.deployment RetireMessage.generation RetireMessage.reason
  case hmake =>
    rintro ⟨⟩
    simp [and_assoc]
  case hencode => exact fun _ => rfl
  case hQ => exact fun _ => Iff.rfl

def RetireAckMessage.Readable (m : RetireAckMessage) : Prop :=
  isValidIdentifier m.deployment = true

theorem retireAck_canonical : Canonical decodeRetireAck RetireAckMessage.Readable encodeRetireAck := by
  apply Canonical.congr
  case h =>
    apply message_canonical
    apply (part_identifier _).cons RetireAckMessage.deployment; intro deployment
    apply part_boolean.plain RetireAckMessage.retired; intro retired
    apply exact_pure (P := fun _ => True)
    intro m
    cases m
    simp
  case hQ => simp [RetireAckMessage.Readable, unchecked]
  case hencode => exact fun _ _ _ => Iff.rfl

theorem ping_canonical : Canonical decodePing (· < 2 ^ 64) encodePing := by
  apply Canonical.congr
  case h => exact message_canonical (part_u64.exact)
  case hQ => simp [unchecked]
  case hencode => exact fun _ _ _ => Iff.rfl

theorem pong_canonical : Canonical decodePong (· < 2 ^ 64) encodePong := ping_canonical

def GoodbyeMessage.Readable (m : GoodbyeMessage) : Prop :=
  OfBytes m.reason

theorem goodbye_canonical : Canonical decodeGoodbye GoodbyeMessage.Readable encodeGoodbye := by
  apply Canonical.congr
  case h =>
    apply message_canonical
    apply part_readErrorCode.plain GoodbyeMessage.code; intro code
    apply part_readDetail.cons GoodbyeMessage.reason; intro reason
    apply exact_pure (P := fun _ => True)
    intro m
    cases m
    simp
  case hQ => simp [GoodbyeMessage.Readable, unchecked]
  case hencode => exact fun m _ => detail_guarded (by simp)

def ErrorMessage.Readable (m : ErrorMessage) : Prop :=
  OfBytes m.detail

theorem error_canonical : Canonical decodeError ErrorMessage.Readable encodeError := by
  apply Canonical.congr
  case h =>
    apply message_canonical
    apply part_readErrorCode.plain ErrorMessage.code; intro code
    apply part_readDirective.plain ErrorMessage.directive; intro directive
    apply part_readDetail.cons ErrorMessage.detail; intro detail
    apply exact_pure (P := fun _ => True)
    intro m
    cases m
    simp [and_assoc]
  case hQ => simp [ErrorMessage.Readable, unchecked]
  case hencode => exact fun m _ => detail_guarded (by simp)

/-! The control channel. -/

def ControlHelloMessage.Readable (m : ControlHelloMessage) : Prop :=
  m.clientName ≠ []

theorem controlHello_canonical : Canonical decodeControlHello ControlHelloMessage.Readable encodeControlHello := by
  apply Canonical.congr
  case h =>
    apply message_canonical
    apply (part_string _).plain ControlHelloMessage.clientName; intro clientName
    apply part_opaque128.plain ControlHelloMessage.nonce; intro nonce
    apply part_digest.plain ControlHelloMessage.authTag; intro authTag
    apply exact_pure (P := fun _ => True)
    intro m
    cases m
    simp [and_assoc]
  case hQ =>
    intro m
    simp only [ControlHelloMessage.Readable, checkControlHello, refusal_ok]
    grind
  case hencode => exact fun m _ => bound_guarded (by simp)

def ControlHelloAckMessage.Readable (m : ControlHelloAckMessage) : Prop :=
  isValidIdentifier m.nodeId = true ∧ m.epoch < 2 ^ 64

theorem controlHelloAck_canonical : Canonical decodeControlHelloAck ControlHelloAckMessage.Readable encodeControlHelloAck := by
  apply Canonical.congr
  case h =>
    apply message_canonical
    apply (part_identifier _).cons ControlHelloAckMessage.nodeId; intro nodeId
    apply part_u64.cons ControlHelloAckMessage.epoch; intro epoch
    apply part_opaque128.plain ControlHelloAckMessage.incarnation; intro incarnation
    apply part_opaque128.plain ControlHelloAckMessage.nonce; intro nonce
    apply part_digest.plain ControlHelloAckMessage.authTag; intro authTag
    apply exact_pure (P := fun _ => True)
    intro m
    cases m
    simp [and_assoc]
  case hQ => simp [ControlHelloAckMessage.Readable, unchecked]
  case hencode => exact fun _ _ _ => Iff.rfl

def ControlRequestMessage.Readable (m : ControlRequestMessage) : Prop :=
  m.command ≠ [] ∧ m.arguments.length ≤ kMaxControlArguments

theorem part_controlArgument : Part (string kMaxControlArgumentBytes) (fun _ => True) writeControlArgument := by
  intro bs v rest
  rw [part_string]
  refine and_congr_right fun _ => exists_congr fun out => and_congr_left fun _ => ?_
  exact (refused_ok (fun _ hout => not_lt.mpr (string_ok hout).1) out).symm

theorem controlRequest_canonical :
    Canonical decodeControlRequest ControlRequestMessage.Readable encodeControlRequest := by
  apply Canonical.congr
  case h =>
    apply message_canonical
    apply (part_string _).plain ControlRequestMessage.command; intro command
    apply Exact.guard (C := fun m : ControlRequestMessage => m.command ≠ []) fail_refuses
    · intro m hK
      rw [hK.2]
    apply exact_counted ControlRequestMessage.arguments part_controlArgument (by decide) fun _ => fail_refuses
    intro arguments
    apply exact_pure (P := fun _ => True)
    intro m
    cases m
    simp
  case hQ => simp [ControlRequestMessage.Readable, unchecked]
  case hencode =>
    intro m hm bs
    have hcount : ¬ m.arguments.length > kMaxControlArguments := not_lt.mpr hm.1.2.1.1
    refine (refused_ok (fun out hout => ?_) bs).trans (refused_ok (fun _ _ => hcount) bs)
    obtain ⟨front, hfront⟩ := concat_mem_ok ((refused_ok (fun _ _ => hcount) out).mp hout) List.mem_cons_self
    exact not_or.mpr ⟨hm.1.1, not_lt.mpr (string_ok hfront).1⟩

theorem controlResponse_canonical : Canonical decodeControlResponse (fun _ => True) encodeControlResponse := by
  apply Canonical.congr
  case h =>
    apply message_canonical
    apply part_readErrorCode.plain ControlResponseMessage.code; intro code
    apply (part_string _).plain ControlResponseMessage.body; intro body
    apply exact_pure (P := fun _ => True)
    intro m
    cases m
    simp
  case hQ => simp [unchecked]
  case hencode => exact fun m _ => bound_guarded (by simp)

/-! The handshake. -/

/-- The hello as a list of its parts; the order of the versions is checked on both sides. -/
theorem encodeHello_ok (m : HelloMessage) (hm : m.minWireVersion ≤ m.maxWireVersion) (bs : Bytes) :
    encodeHello m = .ok bs ↔ concat [encodeIdentifier m.nodeId, .ok (ByteWriter.u64 m.epoch), .ok m.incarnation.1,
      .ok m.nonce.1, .ok (ByteWriter.u16 m.minWireVersion), .ok (ByteWriter.u16 m.maxWireVersion),
      .ok (ByteWriter.u32 m.maxPayloadBytes), .ok (ByteWriter.u32 m.capabilities), .ok m.authTag.1] = .ok bs := by
  rw [encodeHello, if_neg (not_lt.mpr hm), encodeIdentifier, concat_eq_joined]
  cases ByteWriter.string m.nodeId kMaxIdentifierLength with
  | error e => rfl
  | ok nodeId => simp [joined, bind, Except.bind, pure, Except.pure]

def HelloMessage.Readable (m : HelloMessage) : Prop :=
  isValidIdentifier m.nodeId = true ∧ m.epoch < 2 ^ 64 ∧ m.minWireVersion ≤ m.maxWireVersion ∧
    m.maxWireVersion < 2 ^ 16 ∧ m.maxPayloadBytes ≠ 0 ∧ m.maxPayloadBytes ≤ kAbsoluteMaxPayloadBytes ∧
    m.capabilities < 2 ^ 32 ∧ m.capabilities &&& (2 ^ 32 - 1 - kCapabilityKnownMask) = 0

theorem hello_canonical : Canonical decodeHello HelloMessage.Readable encodeHello := by
  apply Canonical.congr (P := HelloMessage.Readable)
  case h =>
    intro bs v
    apply decode_exact
    apply Exact.congr
    case h =>
      apply (part_identifier _).cons HelloMessage.nodeId; intro nodeId
      apply part_u64.cons HelloMessage.epoch; intro epoch
      apply part_opaque128.plain HelloMessage.incarnation; intro incarnation
      apply part_opaque128.plain HelloMessage.nonce; intro nonce
      apply part_u16.cons HelloMessage.minWireVersion; intro minWireVersion
      apply part_u16.cons HelloMessage.maxWireVersion; intro maxWireVersion
      apply part_u32.cons HelloMessage.maxPayloadBytes; intro maxPayloadBytes
      apply part_u32.cons HelloMessage.capabilities; intro capabilities
      apply part_digest.plain HelloMessage.authTag; intro authTag
      apply Exact.close requireEnd_ok
      apply Exact.guard (C := fun m : HelloMessage => m.minWireVersion ≤ m.maxWireVersion) fail_refuses
      · grind
      apply Exact.guard (C := fun m : HelloMessage =>
        m.capabilities &&& (2 ^ 32 - 1 - kCapabilityKnownMask) = 0) fail_refuses
      · grind
      apply Exact.guard (C := fun m : HelloMessage =>
        m.maxPayloadBytes ≠ 0 ∧ m.maxPayloadBytes ≤ kAbsoluteMaxPayloadBytes) fail_refuses
      · grind
      apply exact_pure (P := fun _ => True)
      intro m
      cases m
      simp [and_assoc]
    case hQ =>
      intro m _
      have hpayload : kAbsoluteMaxPayloadBytes < 2 ^ 32 := by decide
      simp only [HelloMessage.Readable]
      grind
  case hQ => exact fun _ => Iff.rfl
  case hencode => exact fun m hm => encodeHello_ok m hm.2.2.1

def HelloAckMessage.Readable (m : HelloAckMessage) : Prop :=
  m.wireVersion = kWireVersion ∧ isValidIdentifier m.target = true ∧ m.term < 2 ^ 64 ∧ m.term ≠ 0 ∧
    m.maxPayloadBytes ≠ 0 ∧ m.maxPayloadBytes ≤ kAbsoluteMaxPayloadBytes ∧ m.capabilities < 2 ^ 32 ∧
    m.capabilities &&& (2 ^ 32 - 1 - kCapabilityKnownMask) = 0 ∧
    Distributor.capabilitySupportsGuarantee m.capabilities m.guarantee = true ∧ m.committedGeneration < 2 ^ 64 ∧
    (m.committedArtifact = [] ∨ isValidIdentifier m.committedArtifact = true) ∧ m.restartCount < 2 ^ 32

theorem encodeHelloAck_eq (m : HelloAckMessage) : encodeHelloAck m = concat [.ok (ByteWriter.u16 m.wireVersion),
    encodeIdentifier m.target, .ok (ByteWriter.u8 m.targetClass.value), .ok (ByteWriter.u8 m.guarantee.value),
    .ok (ByteWriter.u64 m.term), .ok m.incarnation.1, .ok m.nonce.1, .ok (ByteWriter.u32 m.maxPayloadBytes),
    .ok (ByteWriter.u32 m.capabilities), .ok (ByteWriter.u64 m.committedGeneration), .ok m.committedDigest.1,
    encodeIdentifier m.committedArtifact, .ok (ByteWriter.u32 m.restartCount), .ok m.authTag.1] := by
  rw [encodeHelloAck, concat_eq_joined, encodeIdentifier, encodeIdentifier]
  cases ByteWriter.string m.target kMaxIdentifierLength with
  | error e => rfl
  | ok target =>
    cases ByteWriter.string m.committedArtifact kMaxIdentifierLength with
    | error e => rfl
    | ok artifact => simp [joined, bind, Except.bind, pure, Except.pure]

theorem helloAck_canonical : Canonical decodeHelloAck HelloAckMessage.Readable encodeHelloAck := by
  apply Canonical.congr
  case h =>
    apply message_canonical
    apply part_u16.cons HelloAckMessage.wireVersion; intro wireVersion
    apply (part_identifier _).cons HelloAckMessage.target; intro target
    apply part_readClass.plain HelloAckMessage.targetClass; intro targetClass
    apply part_readGuarantee.plain HelloAckMessage.guarantee; intro guarantee
    apply part_u64.cons HelloAckMessage.term; intro term
    apply part_opaque128.plain HelloAckMessage.incarnation; intro incarnation
    apply part_opaque128.plain HelloAckMessage.nonce; intro nonce
    apply part_u32.cons HelloAckMessage.maxPayloadBytes; intro maxPayloadBytes
    apply part_u32.cons HelloAckMessage.capabilities; intro capabilities
    apply part_u64.cons HelloAckMessage.committedGeneration; intro committedGeneration
    apply part_digest.plain HelloAckMessage.committedDigest; intro committedDigest
    apply (part_optional _).cons HelloAckMessage.committedArtifact; intro committedArtifact
    apply part_u32.cons HelloAckMessage.restartCount; intro restartCount
    apply part_digest.plain HelloAckMessage.authTag; intro authTag
    apply exact_pure (P := fun _ => True)
    intro m
    cases m
    simp [and_assoc]
  case hQ =>
    intro m
    have hpayload : kAbsoluteMaxPayloadBytes < 2 ^ 32 := by decide
    have hversion : kWireVersion < 2 ^ 16 := by decide
    simp only [HelloAckMessage.Readable, Distributor.checkHelloAck, refusal_ok]
    grind
  case hencode =>
    intro m _ bs
    rw [encodeHelloAck_eq]

theorem helloConfirm_canonical :
    Canonical decodeHelloConfirm (fun _ => True) fun authTag => .ok (encodeHelloConfirm authTag) := by
  apply Canonical.congr (P := fun _ => True)
  case h =>
    intro bs v
    apply decode_exact
    apply part_digest.plain id; intro authTag
    apply Exact.close requireEnd_ok
    apply exact_pure (P := fun _ => True)
    simp
  case hQ => exact fun _ => Iff.rfl
  case hencode =>
    intro authTag _ bs
    simp [concat, encodeHelloConfirm, pure, Except.pure, bind, Except.bind]

/-! Every message. -/

/-- Decoding and encoding are inverse to each other on every message of the protocol: what a decoder accepts is the
encoding of a message that passes its checks, and of no other. -/
theorem codecs_canonical :
    Canonical decodeHello HelloMessage.Readable encodeHello ∧
    Canonical decodeHelloAck HelloAckMessage.Readable encodeHelloAck ∧
    Canonical decodeHelloConfirm (fun _ => True) (fun authTag => .ok (encodeHelloConfirm authTag)) ∧
    Canonical decodeAuthReject AuthRejectMessage.Readable encodeAuthReject ∧
    Canonical decodePrepare PrepareMessage.Readable encodePrepare ∧
    Canonical decodePrepareAck PrepareAckMessage.Readable encodePrepareAck ∧
    Canonical decodePrepareReject PrepareRejectMessage.Readable encodePrepareReject ∧
    Canonical decodeChunk ChunkMessage.Readable encodeChunk ∧
    Canonical decodeChunkAck ChunkAckMessage.Readable encodeChunkAck ∧
    Canonical decodeTransferComplete TransferCompleteMessage.Readable encodeTransferComplete ∧
    Canonical decodeTransferResult TransferResultMessage.Readable encodeTransferResult ∧
    Canonical decodeStage StageMessage.Readable encodeStage ∧
    Canonical decodeStageAck StageAckMessage.Readable encodeStageAck ∧
    Canonical decodeApplyPrepare ApplyPrepareMessage.Readable encodeApplyPrepare ∧
    Canonical decodeApplyPrepareAck ApplyPrepareAckMessage.Readable encodeApplyPrepareAck ∧
    Canonical decodeApplyCommit ApplyCommitMessage.Readable encodeApplyCommit ∧
    Canonical decodeApplyCommitAck ApplyCommitAckMessage.Readable encodeApplyCommitAck ∧
    Canonical decodeApplyAbort ApplyAbortMessage.Readable encodeApplyAbort ∧
    Canonical decodeApplyAbortAck ApplyAbortAckMessage.Readable encodeApplyAbortAck ∧
    Canonical decodeDeliveryAck DeliveryAckMessage.Readable encodeDeliveryAck ∧
    Canonical decodeDeliveryNack DeliveryNackMessage.Readable encodeDeliveryNack ∧
    Canonical decodeReconcileRequest ReconcileRequestMessage.Readable encodeReconcileRequest ∧
    Canonical decodeReconcileReport ReconcileReportMessage.Readable encodeReconcileReport ∧
    Canonical decodeRetire RetireMessage.Readable encodeRetire ∧
    Canonical decodeRetireAck RetireAckMessage.Readable encodeRetireAck ∧
    Canonical decodePing (· < 2 ^ 64) encodePing ∧
    Canonical decodePong (· < 2 ^ 64) encodePong ∧
    Canonical decodeGoodbye GoodbyeMessage.Readable encodeGoodbye ∧
    Canonical decodeError ErrorMessage.Readable encodeError ∧
    Canonical decodeControlHello ControlHelloMessage.Readable encodeControlHello ∧
    Canonical decodeControlHelloAck ControlHelloAckMessage.Readable encodeControlHelloAck ∧
    Canonical decodeControlRequest ControlRequestMessage.Readable encodeControlRequest ∧
    Canonical decodeControlResponse (fun _ => True) encodeControlResponse :=
  ⟨hello_canonical, helloAck_canonical, helloConfirm_canonical, authReject_canonical, prepare_canonical,
    prepareAck_canonical, prepareReject_canonical, chunk_canonical, chunkAck_canonical, transferComplete_canonical,
    transferResult_canonical, stage_canonical, stageAck_canonical, applyPrepare_canonical, applyPrepareAck_canonical,
    applyCommit_canonical, applyCommitAck_canonical, applyAbort_canonical, applyAbortAck_canonical,
    deliveryAck_canonical, deliveryNack_canonical, reconcileRequest_canonical, reconcileReport_canonical,
    retire_canonical, retireAck_canonical, ping_canonical, pong_canonical, goodbye_canonical, error_canonical,
    controlHello_canonical, controlHelloAck_canonical, controlRequest_canonical, controlResponse_canonical⟩

end ConfigurationFabric
