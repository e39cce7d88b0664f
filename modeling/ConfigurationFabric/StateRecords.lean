import ConfigurationFabric.RecordFields

/-! The records of the durable state: what each reader accepts, and that it accepts nothing else. -/

namespace ConfigurationFabric

open LittleEndian
open Reading
open ByteReader

theorem part_state (message : String) :
    Part (enumeration DeliveryState.ofValue message) (fun _ => True) fun s => .ok (ByteWriter.u8 s.value) :=
  part_enumeration message DeliveryState.ofValue_value DeliveryState.value_of_ofValue

theorem part_kind (message : String) :
    Part (enumeration EvidenceKind.ofValue message) (fun _ => True) fun k => .ok (ByteWriter.u8 k.value) :=
  part_enumeration message EvidenceKind.ofValue_value EvidenceKind.value_of_ofValue

theorem part_directive (message : String) :
    Part (enumeration RetryDirective.ofValue message) (fun _ => True) fun d => .ok (ByteWriter.u8 d.value) :=
  part_enumeration message RetryDirective.ofValue_value RetryDirective.value_of_ofValue

theorem part_class (message : String) :
    Part (enumeration TargetClass.ofValue message) (fun _ => True) fun c => .ok (ByteWriter.u8 c.value) :=
  part_enumeration message TargetClass.ofValue_value TargetClass.value_of_ofValue

theorem part_guarantee (message : String) :
    Part (enumeration ApplyGuarantee.ofValue message) (fun _ => True) fun g => .ok (ByteWriter.u8 g.value) :=
  part_enumeration message ApplyGuarantee.ofValue_value ApplyGuarantee.value_of_ofValue

theorem part_requirement (message : String) :
    Part (enumeration GuaranteeRequirement.ofValue message) (fun _ => True) fun g => .ok (ByteWriter.u8 g.value) :=
  part_enumeration message GuaranteeRequirement.ofValue_value GuaranteeRequirement.value_of_ofValue

def LifecycleEvent.Readable (e : LifecycleEvent) : Prop :=
  e.generation < 2 ^ 64 ∧ e.authorityEpoch < 2 ^ 64 ∧ e.targetTerm < 2 ^ 64 ∧ -2 ^ 63 ≤ e.atMillis ∧ e.atMillis < 2 ^ 63

theorem readLifecycleEvent_part : Part readLifecycleEvent LifecycleEvent.Readable writeLifecycleEvent := by
  apply Exact.part
  case hwrite => exact fun e => concat_eq_joined _
  case h =>
    apply (part_kind _).plain LifecycleEvent.kind; intro kind
    apply part_u8.cons (fun e : LifecycleEvent => e.source.value); intro source
    apply part_u8.cons (fun e : LifecycleEvent => e.target.value); intro target
    -- an unknown state is refused, and no state is written so
    apply Exact.decoded (o := DeliveryState.ofValue source)
    case hnone =>
      intro hs
      rw [hs]
      exact ⟨fail_refuses, fun e hK => by rw [← hK.1.2, (DeliveryState.ofValue_value _).1] at hs; cases hs⟩
    intro s hs
    apply Exact.decoded (o := DeliveryState.ofValue target)
    case hnone =>
      intro ht
      rw [hs, ht]
      exact ⟨fail_refuses, fun e hK => by rw [← hK.2, (DeliveryState.ofValue_value _).1] at ht; cases ht⟩
    intro t ht
    rw [hs, ht]
    apply part_u64.cons LifecycleEvent.generation; intro generation
    apply part_digest.plain LifecycleEvent.digest; intro digest
    apply exact_code LifecycleEvent.code fail_refuses; intro code
    apply (part_directive _).plain LifecycleEvent.directive; intro directive
    apply part_u64.cons LifecycleEvent.authorityEpoch; intro epoch
    apply part_opaque128.plain LifecycleEvent.authorityIncarnation; intro incarnation
    apply part_u64.cons LifecycleEvent.targetTerm; intro term
    apply part_opaque128.plain LifecycleEvent.targetIncarnation; intro targetIncarnation
    apply part_boolean.plain LifecycleEvent.fromReconciliation; intro fromReconciliation
    apply part_i64.cons LifecycleEvent.atMillis; intro atMillis
    apply (part_string _).plain LifecycleEvent.detail; intro detail
    apply exact_pure (P := fun _ => True)
    intro e
    cases e
    simp [and_assoc, DeliveryState.value_eq_iff hs, DeliveryState.value_eq_iff ht]
  case hQ =>
    intro e
    have hsource := (DeliveryState.ofValue_value e.source).2
    have htarget := (DeliveryState.ofValue_value e.target).2
    simp [LifecycleEvent.Readable, hsource, htarget]

def TargetRuntime.Readable (r : TargetRuntime) : Prop :=
  isValidIdentifier r.id = true ∧ r.term < 2 ^ 64 ∧ r.committedGeneration < 2 ^ 64 ∧
    (r.committedArtifact = [] ∨ isValidIdentifier r.committedArtifact = true) ∧
    (-2 ^ 63 ≤ r.lastContactMillis ∧ r.lastContactMillis < 2 ^ 63) ∧ r.sessionsEstablished < 2 ^ 64 ∧
    r.restartsObserved < 2 ^ 64 ∧ (r.preparedDeployment = [] ∨ isValidIdentifier r.preparedDeployment = true) ∧
    r.preparedGeneration < 2 ^ 64 ∧ (r.endpoint ≠ [] → ∃ e, parseEndpoint r.endpoint = .ok e) ∧
    r.contactEstablishedThisProcess = false

theorem readTargetRuntime_part : Part readTargetRuntime TargetRuntime.Readable writeTargetRuntime := by
  apply Exact.part
  case hwrite => exact fun r => concat_eq_joined _
  case h =>
    apply (part_identifier _).cons TargetRuntime.id; intro id
    apply (part_class _).plain TargetRuntime.klass; intro klass
    apply (part_guarantee _).plain TargetRuntime.guarantee; intro guarantee
    apply part_u64.cons TargetRuntime.term; intro term
    apply part_opaque128.plain TargetRuntime.incarnation; intro incarnation
    apply part_u64.cons TargetRuntime.committedGeneration; intro generation
    apply part_digest.plain TargetRuntime.committedDigest; intro digest
    apply (part_optional _).cons TargetRuntime.committedArtifact; intro artifact
    apply part_i64.cons TargetRuntime.lastContactMillis; intro contact
    apply part_u64.cons TargetRuntime.sessionsEstablished; intro sessions
    apply part_u64.cons TargetRuntime.restartsObserved; intro restarts
    apply part_boolean.plain TargetRuntime.applyPrepared; intro prepared
    apply (part_optional _).cons TargetRuntime.preparedDeployment; intro deployment
    apply part_u64.cons TargetRuntime.preparedGeneration; intro preparedGeneration
    apply part_digest.plain TargetRuntime.preparedDigest; intro preparedDigest
    apply (part_string _).plain TargetRuntime.endpoint; intro endpoint
    apply Exact.parsed (R := ∃ e, parseEndpoint endpoint = .ok e)
      (C := fun r : TargetRuntime => r.endpoint ≠ [] → ∃ e, parseEndpoint r.endpoint = .ok e)
    · rintro bs ⟨e, rest⟩ h
      obtain ⟨he, rfl⟩ := lift_ok.mp h
      exact ⟨⟨e, he⟩, rfl⟩
    · rintro ⟨e, he⟩ bs
      exact ⟨e, lift_ok.mpr ⟨he, rfl⟩⟩
    · intro r hK
      rw [hK.2]
    apply exact_pure (P := fun r : TargetRuntime => r.contactEstablishedThisProcess = false)
    intro r
    cases r
    simp only [true_and, TargetRuntime.mk.injEq]
    tauto
  case hQ => exact fun r => Iff.rfl

def DeliveryRecord.Readable (r : DeliveryRecord) : Prop :=
  isValidIdentifier r.id = true ∧ isValidIdentifier r.setId = true ∧
    (r.rolloutSet = [] ∨ isValidIdentifier r.rolloutSet = true) ∧ isValidIdentifier r.target = true ∧
    isValidIdentifier r.key = true ∧ isValidIdentifier r.artifact = true ∧ r.revision < 2 ^ 64 ∧
    r.generation < 2 ^ 64 ∧ r.generation ≠ 0 ∧ isValidIdentifier r.schema = true ∧ r.schemaVersion < 2 ^ 32 ∧
    r.sizeBytes < 2 ^ 64 ∧ r.attempt < 2 ^ 64 ∧ r.failures < 2 ^ 32 ∧ r.events.length ≤ kMaxEventsPerDelivery ∧
    (∀ e ∈ r.events, e.Readable) ∧ r.authorityEpoch < 2 ^ 64 ∧ r.targetTerm < 2 ^ 64 ∧
    (-2 ^ 63 ≤ r.createdAtMillis ∧ r.createdAtMillis < 2 ^ 63) ∧
    -2 ^ 63 ≤ r.updatedAtMillis ∧ r.updatedAtMillis < 2 ^ 63

theorem readDeliveryRecord_part : Part readDeliveryRecord DeliveryRecord.Readable writeDeliveryRecord := by
  apply Exact.part
  case hwrite => exact fun r => concat_eq_joined _
  case h =>
    apply (part_identifier _).cons DeliveryRecord.id; intro id
    apply (part_identifier _).cons DeliveryRecord.setId; intro setId
    apply (part_optional _).cons DeliveryRecord.rolloutSet; intro rolloutSet
    apply (part_identifier _).cons DeliveryRecord.target; intro target
    apply (part_identifier _).cons DeliveryRecord.key; intro key
    apply (part_identifier _).cons DeliveryRecord.artifact; intro artifact
    apply part_u64.cons DeliveryRecord.revision; intro revision
    apply part_u64.cons DeliveryRecord.generation; intro generation
    apply Exact.guard (C := fun r : DeliveryRecord => r.generation ≠ 0) fail_refuses
    · intro r hK
      rw [hK.2]
    apply part_digest.plain DeliveryRecord.digest; intro digest
    apply (part_identifier _).cons DeliveryRecord.schema; intro schema
    apply part_u32.cons DeliveryRecord.schemaVersion; intro schemaVersion
    apply part_u64.cons DeliveryRecord.sizeBytes; intro sizeBytes
    apply (part_requirement _).plain DeliveryRecord.requirement; intro requirement
    apply (part_guarantee _).plain DeliveryRecord.effectiveGuarantee; intro guarantee
    apply (part_state _).plain DeliveryRecord.state; intro state
    apply part_u64.cons DeliveryRecord.attempt; intro attempt
    apply part_u32.cons DeliveryRecord.failures; intro failures
    apply exact_code DeliveryRecord.lastError fail_refuses; intro lastError
    apply (part_directive _).plain DeliveryRecord.lastDirective; intro lastDirective
    apply (part_string _).plain DeliveryRecord.lastDetail; intro lastDetail
    apply exact_counted DeliveryRecord.events readLifecycleEvent_part (by decide) fun _ => fail_refuses
    intro events
    apply part_u64.cons DeliveryRecord.authorityEpoch; intro epoch
    apply part_opaque128.plain DeliveryRecord.authorityIncarnation; intro incarnation
    apply part_u64.cons DeliveryRecord.targetTerm; intro term
    apply part_opaque128.plain DeliveryRecord.targetIncarnation; intro targetIncarnation
    apply part_boolean.plain DeliveryRecord.acknowledgedFromReconcile; intro reconciled
    apply part_boolean.plain DeliveryRecord.superseded; intro superseded
    apply part_i64.cons DeliveryRecord.createdAtMillis; intro createdAt
    apply part_i64.cons DeliveryRecord.updatedAtMillis; intro updatedAt
    apply exact_pure (P := fun _ => True)
    intro r
    cases r
    simp [and_assoc]
  case hQ =>
    intro r
    simp [DeliveryRecord.Readable, and_assoc]

def TransferRecord.Readable (r : TransferRecord) : Prop :=
  isValidIdentifier r.deployment = true ∧ r.stream < 2 ^ 64 ∧ isValidIdentifier r.key = true ∧
    (r.artifact = [] ∨ isValidIdentifier r.artifact = true) ∧ r.generation < 2 ^ 64 ∧ r.totalBytes < 2 ^ 64 ∧
    r.bytesReceived < 2 ^ 64 ∧ r.bytesReceived ≤ r.totalBytes ∧ -2 ^ 63 ≤ r.updatedAtMillis ∧ r.updatedAtMillis < 2 ^ 63

theorem readTransferRecord_part : Part readTransferRecord TransferRecord.Readable writeTransferRecord := by
  apply Exact.part
  case hwrite => exact fun r => concat_eq_joined _
  case h =>
    apply (part_identifier _).cons TransferRecord.deployment; intro deployment
    apply part_u64.cons TransferRecord.stream; intro stream
    apply (part_identifier _).cons TransferRecord.key; intro key
    apply (part_optional _).cons TransferRecord.artifact; intro artifact
    apply part_u64.cons TransferRecord.generation; intro generation
    apply part_digest.plain TransferRecord.digest; intro digest
    apply part_u64.cons TransferRecord.totalBytes; intro totalBytes
    apply part_u64.cons TransferRecord.bytesReceived; intro bytesReceived
    dsimp only
    apply Exact.guard (C := fun r : TransferRecord => r.bytesReceived ≤ r.totalBytes) fail_refuses
    · intro r hK
      rw [hK.2, hK.1.2]
      exact not_lt.symm
    apply part_boolean.plain TransferRecord.verified; intro verified
    apply part_boolean.plain TransferRecord.staged; intro staged
    apply part_i64.cons TransferRecord.updatedAtMillis; intro updatedAt
    apply exact_pure (P := fun _ => True)
    intro r
    cases r
    simp [and_assoc]
  case hQ =>
    intro r
    simp [TransferRecord.Readable]

def AppliedFinding.Readable (f : AppliedFinding) : Prop :=
  isValidIdentifier f.key = true ∧ f.generation < 2 ^ 64 ∧ (f.artifact = [] ∨ isValidIdentifier f.artifact = true) ∧
    isValidIdentifier f.deployment = true ∧ -2 ^ 63 ≤ f.recordedAtMillis ∧ f.recordedAtMillis < 2 ^ 63

theorem readAppliedFinding_part : Part readAppliedFinding AppliedFinding.Readable writeAppliedFinding := by
  apply Exact.part
  case hwrite => exact fun f => concat_eq_joined _
  case h =>
    apply (part_identifier _).cons AppliedFinding.key; intro key
    apply part_u64.cons AppliedFinding.generation; intro generation
    apply part_digest.plain AppliedFinding.digest; intro digest
    apply (part_optional _).cons AppliedFinding.artifact; intro artifact
    apply (part_identifier _).cons AppliedFinding.deployment; intro deployment
    apply (part_state _).plain AppliedFinding.state; intro state
    apply part_i64.cons AppliedFinding.recordedAtMillis; intro recordedAt
    apply exact_pure (P := fun _ => True)
    intro f
    cases f
    simp [and_assoc]
  case hQ =>
    intro f
    simp [AppliedFinding.Readable]

/-! Artifact metadata carries its own checksum. -/

def ArtifactMetadata.Readable (m : ArtifactMetadata) : Prop :=
  isValidIdentifier m.id = true ∧ m.revision < 2 ^ 64 ∧ isValidIdentifier m.schema = true ∧
    m.schemaVersion < 2 ^ 32 ∧ m.sizeBytes < 2 ^ 64 ∧ (-2 ^ 63 ≤ m.producedAtMillis ∧ m.producedAtMillis < 2 ^ 63) ∧
    -2 ^ 63 ≤ m.storedAtMillis ∧ m.storedAtMillis < 2 ^ 63

/-- What is written of a metadata record before its checksum. -/
def metadataBody (m : ArtifactMetadata) : List (Result Bytes) := [
  .ok (ByteWriter.u32 kMetadataMagic), .ok (ByteWriter.u16 kArtifactMetadataFormatVersion),
  encodeIdentifier m.id, .ok (ByteWriter.u64 m.revision), encodeIdentifier m.schema,
  .ok (ByteWriter.u32 m.schemaVersion), .ok m.digest.1, .ok (ByteWriter.u64 m.sizeBytes),
  ByteWriter.string m.mediaType kMaxMediaTypeBytes, ByteWriter.string m.producer kMaxProducerBytes,
  .ok (ByteWriter.i64 m.producedAtMillis), .ok (ByteWriter.i64 m.storedAtMillis)]

theorem readArtifactMetadata_exact :
    Exact (· = []) readArtifactMetadata (fun _ => True) ArtifactMetadata.Readable metadataBody := by
  apply Exact.congr
  case h =>
    unfold readArtifactMetadata metadataBody
    dsimp only
    apply part_u32.constant (by decide) fun _ => fail_refuses
    apply part_u16.constant (by decide) fun _ => fail_refuses
    apply (part_identifier _).cons ArtifactMetadata.id; intro id
    apply part_u64.cons ArtifactMetadata.revision; intro revision
    apply (part_identifier _).cons ArtifactMetadata.schema; intro schema
    apply part_u32.cons ArtifactMetadata.schemaVersion; intro schemaVersion
    apply part_digest.plain ArtifactMetadata.digest; intro digest
    apply part_u64.cons ArtifactMetadata.sizeBytes; intro sizeBytes
    apply (part_string _).plain ArtifactMetadata.mediaType; intro mediaType
    apply (part_string _).plain ArtifactMetadata.producer; intro producer
    apply part_i64.cons ArtifactMetadata.producedAtMillis; intro producedAt
    apply part_i64.cons ArtifactMetadata.storedAtMillis; intro storedAt
    apply Exact.close requireEnd_ok
    apply exact_pure (P := fun _ => True)
    intro m
    cases m
    simp [and_assoc]
  case hQ =>
    intro m
    simp [ArtifactMetadata.Readable]

theorem part_ok_of_joined {ps : List (Result Bytes)} {out : Bytes} (h : joined ps = .ok out) :
    ∀ p ∈ ps, ∃ front, p = .ok front := by
  induction ps generalizing out with
  | nil => simp
  | cons p ps ih =>
    obtain ⟨front, back, hfront, hback, -⟩ := joined_cons_ok.mp h
    exact List.forall_mem_cons.mpr ⟨⟨front, hfront⟩, ih hback⟩

theorem encodeArtifactMetadata_ok {m : ArtifactMetadata} {record : Bytes} :
    encodeArtifactMetadata m = .ok record ↔
      ∃ body, concat (metadataBody m) = .ok body ∧ record = body ++ ByteWriter.u32 (crc32c body).toNat := by
  have hbody : (do let body ← concat (metadataBody m); return body ++ ByteWriter.u32 (crc32c body).toNat : Result Bytes) =
      .ok record ↔ ∃ body, concat (metadataBody m) = .ok body ∧ record = body ++ ByteWriter.u32 (crc32c body).toNat := by
    rw [Result.bind_eq_ok]
    constructor
    · rintro ⟨body, hbody, ⟨⟩⟩
      exact ⟨body, hbody, rfl⟩
    · rintro ⟨body, hbody, rfl⟩
      exact ⟨body, hbody, rfl⟩
  unfold encodeArtifactMetadata
  split
  case isFalse => exact hbody
  case isTrue hlong =>
    constructor
    · intro h
      cases h
    · rintro ⟨body, hok, -⟩
      rw [concat_eq_joined] at hok
      have hall := part_ok_of_joined hok
      obtain ⟨_, hid⟩ := hall (encodeIdentifier m.id) (by simp [metadataBody])
      obtain ⟨_, hschema⟩ := hall (encodeIdentifier m.schema) (by simp [metadataBody])
      obtain ⟨_, hmedia⟩ := hall (ByteWriter.string m.mediaType kMaxMediaTypeBytes) (by simp [metadataBody])
      obtain ⟨_, hproducer⟩ := hall (ByteWriter.string m.producer kMaxProducerBytes) (by simp [metadataBody])
      have := (string_ok hid).1
      have := (string_ok hschema).1
      have := (string_ok hmedia).1
      have := (string_ok hproducer).1
      omega

theorem length_metadataBody {m : ArtifactMetadata} {body : Bytes} (h : concat (metadataBody m) = .ok body) :
    2 ≤ body.length := by
  rw [concat_eq_joined] at h
  obtain ⟨front, back, hfront, -, rfl⟩ := joined_cons_ok.mp h
  obtain rfl := Except.ok.inj hfront
  simp [ByteWriter.u32]
  omega

theorem decodeArtifactMetadata_iff (record : Bytes) (m : ArtifactMetadata) :
    decodeArtifactMetadata record = .ok m ↔ m.Readable ∧ encodeArtifactMetadata m = .ok record := by
  rw [encodeArtifactMetadata_ok]
  constructor
  · intro h
    unfold decodeArtifactMetadata at h
    split at h
    · cases h
    case isFalse hlen =>
    dsimp only at h
    split at h
    · cases h
    case isFalse hcrc =>
    obtain ⟨hreadable, hbody⟩ := (decode_exact readArtifactMetadata_exact _ _).mp h
    refine ⟨hreadable, _, hbody, ?_⟩
    have hfour : (record.drop (record.length - 4)).length = 4 := by
      rw [List.length_drop]
      omega
    have hback := store_load (record.drop (record.length - 4))
    rw [hfour] at hback
    rw [not_not.mp hcrc, ByteWriter.u32, hback, List.take_append_drop]
  · rintro ⟨hreadable, body, hbody, rfl⟩
    have hlen := length_metadataBody hbody
    have hfour : (ByteWriter.u32 (crc32c body).toNat).length = 4 := store_length _ _
    have hcut : (body ++ ByteWriter.u32 (crc32c body).toNat).length - 4 = body.length := by
      simp [hfour]
    have hcrc : load (ByteWriter.u32 (crc32c body).toNat) = (crc32c body).toNat :=
      load_store (by have := (crc32c body).isLt; omega)
    unfold decodeArtifactMetadata
    rw [if_neg (by simp [hfour]; omega)]
    simp only [hcut, List.take_left, List.drop_left, hcrc, ne_eq, not_true, if_false]
    exact (decode_exact readArtifactMetadata_exact _ _).mpr ⟨hreadable, hbody⟩

def writeEmbeddedMetadata (m : ArtifactMetadata) : Result Bytes := do
  ByteWriter.string (← encodeArtifactMetadata m) kAbsoluteMaxFieldBytes

theorem embeddedMetadata_part : Part embeddedMetadata ArtifactMetadata.Readable writeEmbeddedMetadata := by
  intro bs m rest
  unfold embeddedMetadata writeEmbeddedMetadata
  rw [bind_ok]
  constructor
  · rintro ⟨encoded, bs', hencoded, hlift⟩
    obtain ⟨hdecode, rfl⟩ := lift_ok.mp hlift
    obtain ⟨hreadable, hencode⟩ := (decodeArtifactMetadata_iff _ _).mp hdecode
    obtain ⟨-, out, hout, rfl⟩ := (part_string _ _ _ _).mp hencoded
    exact ⟨hreadable, out, Result.bind_eq_ok.mpr ⟨encoded, hencode, hout⟩, rfl⟩
  · rintro ⟨hreadable, out, hout, rfl⟩
    obtain ⟨encoded, hencode, hstring⟩ := Result.bind_eq_ok.mp hout
    exact ⟨encoded, rest, (part_string _ _ _ _).mpr ⟨trivial, out, hstring, rfl⟩,
      lift_ok.mpr ⟨(decodeArtifactMetadata_iff _ _).mpr ⟨hreadable, hencode⟩, rfl⟩⟩

end ConfigurationFabric
