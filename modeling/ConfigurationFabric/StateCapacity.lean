import ConfigurationFabric.StateUpserts

/-! How much a controller's snapshot may hold for it to be read again. -/

namespace ConfigurationFabric

open LittleEndian
open Reading
open ByteReader

namespace ControllerStateCodec

def applyAll (records : List (JournalRecordType × Bytes)) : ControllerState :=
  records.foldl (fun s r => (apply s r.1 r.2).2) {}

theorem applyAll_append (records : List (JournalRecordType × Bytes)) (r : JournalRecordType × Bytes) :
    applyAll (records ++ [r]) = (apply (applyAll records) r.1 r.2).2 := by
  rw [applyAll, List.foldl_append]
  rfl

theorem stored_apply {s : ControllerState} (h : s.Stored) (type : JournalRecordType) (payload : Bytes) :
    (apply s type payload).2.Stored := by
  unfold apply
  split
  case h_1 fields hsteps => exact applyScript_assigns (stored_assigns hsteps) h payload
  case h_2 => exact h

theorem stored_applyAll (records : List (JournalRecordType × Bytes)) : (applyAll records).Stored :=
  List.foldlRecOn records _ stored_initial fun _ h r _ => stored_apply h r.1 r.2

/-- The writer bounds targets and deliveries, the reader artifacts as well. -/
theorem snapshot_readable_iff (records : List (JournalRecordType × Bytes)) (out : Bytes)
    (hout : encodeSnapshot (applyAll records) = .ok out) (hlen : out.length ≤ kMaxSnapshotBytes) :
    decodeSnapshot out = .ok (applyAll records) ↔ (applyAll records).artifacts.length ≤ kMaxSnapshotEntries := by
  have hstored := stored_applyAll records
  constructor
  · intro hdecode
    obtain ⟨rest, hread⟩ := run'_ok.mp hdecode
    by_contra hgt
    exact readSnapshot_oversized hstored (Nat.not_le.mp hgt) hout hlen hread
  · intro hle
    exact run'_ok.mpr ⟨[], read_encodeSnapshot hstored hle hout⟩

/-! A journal of one artifact for each digest below a bound. -/

def exampleArtifact (n : ℕ) : ArtifactMetadata where
  id := text "a"
  schema := text "s"
  digest := ⟨store 32 n, store_length _ _⟩

theorem readable_exampleArtifact (n : ℕ) : (exampleArtifact n).Readable := by
  have hid : isValidIdentifier (text "a") = true := by decide
  have hschema : isValidIdentifier (text "s") = true := by decide
  simp [ArtifactMetadata.Readable, exampleArtifact, hid, hschema]

theorem encode_exampleArtifact (n : ℕ) :
    ∃ out, encodeArtifactMetadata (exampleArtifact n) = .ok out ∧ out.length = 96 := by
  have hbody : ∃ body, concat (metadataBody (exampleArtifact n)) = .ok body ∧ body.length = 92 := by
    refine ⟨_, rfl, ?_⟩
    simp [exampleArtifact, ByteWriter.u16, ByteWriter.u32, ByteWriter.u64, ByteWriter.i64, text]
  obtain ⟨body, hbody, hlen⟩ := hbody
  exact ⟨_, encodeArtifactMetadata_ok.mpr ⟨body, hbody, rfl⟩, by simp [hlen, ByteWriter.u32]⟩

theorem digest_injective {n m : ℕ} (hn : n < 256 ^ 32) (hm : m < 256 ^ 32)
    (h : (exampleArtifact n).digest = (exampleArtifact m).digest) : n = m := by
  have hstore : store 32 n = store 32 m := congrArg Subtype.val h
  rw [← load_store hn, hstore, load_store hm]

def artifactRecord (n : ℕ) : JournalRecordType × Bytes :=
  (.artifactUpsert, ((encodeArtifactMetadata (exampleArtifact n)).bind
    fun out => ByteWriter.string out kAbsoluteMaxFieldBytes).toOption.getD [])

def artifactJournal (count : ℕ) : List (JournalRecordType × Bytes) := (List.range count).map artifactRecord

theorem apply_artifactRecord (n : ℕ) (s : ControllerState) :
    (apply s (artifactRecord n).1 (artifactRecord n).2).2 =
      { s with artifacts := s.artifacts.insert (exampleArtifact n).digest (exampleArtifact n) } := by
  obtain ⟨out, hout, -⟩ := encode_exampleArtifact n
  have hstring := encodeArtifactRecord hout
  have hrecord : (artifactRecord n).2 = ByteWriter.u32 out.length ++ out := by
    simp [artifactRecord, hout, Except.bind, hstring, Except.toOption]
  have hdecode := (decodeArtifactMetadata_iff _ _).mpr ⟨readable_exampleArtifact n, hout⟩
  rw [hrecord, artifactRecord, apply_artifactUpsert hdecode hstring]

/-! A journal of one artifact, one target and one delivery. -/

def exampleJournal : List (JournalRecordType × Bytes) := [
  artifactRecord 0, (.targetUpsert, (encodeTargetRuntime exampleRuntime).toOption.getD []),
  (.deliveryUpsert, (encodeDeliveryRecord exampleDelivery).toOption.getD [])]

def exampleState : ControllerState where
  artifacts := [((exampleArtifact 0).digest, exampleArtifact 0)]
  targets := [(exampleRuntime.id, exampleRuntime)]
  deliveries := [(exampleDelivery.id, exampleDelivery)]

theorem applyAll_exampleJournal : applyAll exampleJournal = exampleState := by
  have hruntime : decodeTargetRuntime ((encodeTargetRuntime exampleRuntime).toOption.getD []) =
      .ok { exampleRuntime with contactEstablishedThisProcess := false } := by decide +kernel
  have hdelivery : decodeDeliveryRecord ((encodeDeliveryRecord exampleDelivery).toOption.getD []) =
      .ok exampleDelivery := by decide +kernel
  rw [applyAll, exampleJournal, List.foldl_cons, List.foldl_cons, List.foldl_cons, List.foldl_nil, apply_artifactRecord,
    apply_targetUpsert hruntime, apply_deliveryUpsert hdelivery]
  rfl

theorem encode_exampleState : ∃ out, encodeSnapshot exampleState = .ok out ∧ out.length ≤ kMaxSnapshotBytes := by
  have hok : (encodeSnapshot exampleState).isOk = true := by decide
  have hlen : ((encodeSnapshot exampleState).toOption.getD []).length ≤ kMaxSnapshotBytes := by decide +kernel
  cases hout : encodeSnapshot exampleState with
  | error e =>
    rw [hout] at hok
    cases hok
  | ok out =>
    rw [hout] at hlen
    exact ⟨out, rfl, hlen⟩

theorem example_snapshot_readable : ∃ out, encodeSnapshot (applyAll exampleJournal) = .ok out ∧
    decodeSnapshot out = .ok (applyAll exampleJournal) ∧ applyAll exampleJournal = exampleState := by
  obtain ⟨out, hout, hlen⟩ := encode_exampleState
  rw [← applyAll_exampleJournal] at hout
  have hread := (snapshot_readable_iff exampleJournal out hout hlen).mpr (by
    rw [applyAll_exampleJournal]
    decide)
  exact ⟨out, hout, hread, applyAll_exampleJournal⟩

/-- After `count` records the state holds the artifacts below `count`, and nothing else. -/
theorem applyAll_artifactJournal (count : ℕ) (hcount : ∀ n < count, n < 256 ^ 32) :
    ∃ artifacts : SortedMap Digest ArtifactMetadata, applyAll (artifactJournal count) = { artifacts := artifacts } ∧
      artifacts.length = count ∧ ∀ e ∈ artifacts, ∃ n < count, e = ((exampleArtifact n).digest, exampleArtifact n) := by
  induction count with
  | zero => exact ⟨[], rfl, rfl, by simp⟩
  | succ count ih =>
    obtain ⟨artifacts, hstate, hlen, hall⟩ := ih fun n hn => hcount n (by omega)
    have hnext : applyAll (artifactJournal (count + 1)) =
        { artifacts := artifacts.insert (exampleArtifact count).digest (exampleArtifact count) } := by
      have hjournal : artifactJournal (count + 1) = artifactJournal count ++ [artifactRecord count] := by
        rw [artifactJournal, List.range_succ, List.map_append]
        rfl
      rw [hjournal, applyAll_append, apply_artifactRecord, hstate]
    have hfresh : ∀ e ∈ artifacts, e.1 ≠ (exampleArtifact count).digest := by
      rintro e he heq
      obtain ⟨n, hn, rfl⟩ := hall e he
      have hsame := digest_injective (hcount n (by omega)) (hcount count (by omega)) heq
      omega
    refine ⟨_, hnext, ?_, ?_⟩
    · rw [SortedMap.length_insert hfresh, hlen]
    · intro e he
      obtain rfl | he := SortedMap.mem_insert he
      · exact ⟨count, by omega, rfl⟩
      · obtain ⟨n, hn, rfl⟩ := hall e he
        exact ⟨n, by omega, rfl⟩

theorem joined_artifacts {artifacts : SortedMap Digest ArtifactMetadata}
    (h : ∀ e ∈ artifacts, ∃ n, e.2 = exampleArtifact n) :
    ∃ out, joined (artifacts.map fun e => writeEmbeddedMetadata e.2) = .ok out ∧ out.length = 100 * artifacts.length := by
  induction artifacts with
  | nil => exact ⟨[], rfl, rfl⟩
  | cons e es ih =>
    obtain ⟨⟨n, hn⟩, hes⟩ := List.forall_mem_cons.mp h
    obtain ⟨back, hback, hlen⟩ := ih hes
    obtain ⟨encoded, hencoded, hlength⟩ := encode_exampleArtifact n
    have hstring := encodeArtifactRecord hencoded
    have hfront : writeEmbeddedMetadata e.2 = .ok (ByteWriter.u32 encoded.length ++ encoded) := by
      rw [hn]
      exact Result.bind_eq_ok.mpr ⟨encoded, hencoded, hstring⟩
    refine ⟨_, joined_cons_ok.mpr ⟨_, back, hfront, hback, rfl⟩, ?_⟩
    simp [ByteWriter.u32, hlength, hlen]
    omega

theorem encode_artifacts {artifacts : SortedMap Digest ArtifactMetadata}
    (h : ∀ e ∈ artifacts, ∃ n, e.2 = exampleArtifact n) :
    ∃ out, encodeSnapshot { artifacts := artifacts } = .ok out ∧ out.length = 50 + 100 * artifacts.length := by
  obtain ⟨back, hback, hlen⟩ := joined_artifacts h
  have hnone : ¬ (([] : SortedMap TargetId TargetRuntime).length > kMaxSnapshotEntries ∨
      ([] : SortedMap DeploymentId DeliveryRecord).length > kMaxSnapshotEntries) := by simp
  unfold encodeSnapshot
  rw [if_neg hnone, concat_eq_joined]
  refine ⟨_, joined_append_ok.mpr ⟨_, back, rfl, hback, rfl⟩, ?_⟩
  simp [ByteWriter.u16, ByteWriter.u32, ByteWriter.u64, ByteWriter.i64, (FixedBytes.zero 16).2, hlen]
  omega

/-- One artifact more than the reader takes: the snapshot is written and cannot be read. -/
theorem oversized_snapshot_unreadable :
    ∃ out, encodeSnapshot (applyAll (artifactJournal (kMaxSnapshotEntries + 1))) = .ok out ∧
      out.length ≤ kMaxSnapshotBytes ∧ ∀ s, decodeSnapshot out ≠ .ok s := by
  obtain ⟨artifacts, hstate, hlen, hall⟩ := applyAll_artifactJournal (kMaxSnapshotEntries + 1) fun n hn =>
    hn.trans (by decide)
  have hstored := stored_applyAll (artifactJournal (kMaxSnapshotEntries + 1))
  have hentries : kMaxSnapshotEntries = 100000 := rfl
  have hbytes : kMaxSnapshotBytes = 67108864 := rfl
  rw [hstate] at hstored ⊢
  obtain ⟨out, hout, hlength⟩ := encode_artifacts fun e he => by
    obtain ⟨n, -, rfl⟩ := hall e he
    exact ⟨n, rfl⟩
  have hle : out.length ≤ kMaxSnapshotBytes := by omega
  refine ⟨out, hout, hle, fun s hdecode => ?_⟩
  obtain ⟨rest, hread⟩ := run'_ok.mp hdecode
  exact readSnapshot_oversized hstored (by simp only; omega) hout hle hread

end ControllerStateCodec

end ConfigurationFabric
