import ConfigurationFabric.StateStored

/-! Round trips of the durable records, and what applying one of them stores. -/

namespace ConfigurationFabric

open LittleEndian
open Reading
open ByteReader

/-! Records of their own. -/

def checkBounded (text : Bytes) (bound : ℕ) (what : String) : Status :=
  if text.length > bound then .fail .limitExceeded (what ++ " exceeds its bound") else .ok ()

/-- A record that ends where its payload ends. -/
def decodeWhole {α : Type} (r : ByteReader α) (payload : Bytes) : Result α :=
  (do let value ← r; requireEnd; return value : ByteReader α).run' payload

def encodeTargetRuntime (runtime : TargetRuntime) : Result Bytes := do
  checkBounded runtime.id kMaxIdentifierLength "target id"
  writeTargetRuntime runtime

def decodeTargetRuntime (payload : Bytes) : Result TargetRuntime := decodeWhole readTargetRuntime payload

def encodeDeliveryRecord (record : DeliveryRecord) : Result Bytes := do
  checkBounded record.id kMaxIdentifierLength "deployment id"
  checkBounded record.lastDetail kMaxDeliveryDetailBytes "delivery detail"
  if record.events.length > kMaxEventsPerDelivery then
    Result.fail .limitExceeded "delivery carries too many lifecycle events"
  writeDeliveryRecord record

def decodeDeliveryRecord (payload : Bytes) : Result DeliveryRecord := decodeWhole readDeliveryRecord payload

section Whole

variable {α : Type} {r : ByteReader α} {P : α → Prop} {write : α → Result Bytes}

theorem decodeWhole_iff (h : Part r P write) (payload : Bytes) (v : α) :
    decodeWhole r payload = .ok v ↔ P v ∧ write v = .ok payload := by
  unfold decodeWhole
  rw [run'_ok]
  constructor
  · rintro ⟨rest, hok⟩
    obtain ⟨a, bs', ha, hok⟩ := bind_ok.mp hok
    obtain ⟨_, bs'', hend, hok⟩ := bind_ok.mp hok
    obtain ⟨rfl, rfl⟩ := pure_ok.mp hok
    obtain ⟨rfl, -⟩ := (requireEnd_ok _ _).mp hend
    obtain ⟨hP, out, hout, rfl⟩ := (h _ _ _).mp ha
    rw [List.append_nil]
    exact ⟨hP, hout⟩
  · rintro ⟨hP, hout⟩
    refine ⟨[], bind_ok.mpr ⟨v, [], (h _ _ _).mpr ⟨hP, payload, hout, by simp⟩, ?_⟩⟩
    rfl

theorem applyScript_whole {State : Type} {assign : α → State → State} {payload : Bytes} {v : α}
    (h : Part r P write) (hP : P v) (hwrite : write v = .ok payload) (s : State) :
    applyScript [field r assign] s payload = (.ok (), assign v s) := by
  have hread : r payload = .ok (v, []) := (h _ _ _).mpr ⟨hP, payload, hwrite, by simp⟩
  simp only [applyScript, Script.run, field, hread]
  rfl

end Whole

theorem checkBounded_ok {text : Bytes} {bound : ℕ} (h : text.length ≤ bound) (what : String) :
    checkBounded text bound what = .ok () := by
  rw [checkBounded, if_neg (by omega)]

theorem encodeTargetRuntime_iff (runtime : TargetRuntime) (out : Bytes) :
    encodeTargetRuntime runtime = .ok out ↔ writeTargetRuntime runtime = .ok out := by
  unfold encodeTargetRuntime
  rw [Result.bind_eq_ok]
  constructor
  · rintro ⟨_, -, hout⟩
    exact hout
  · intro hout
    have hparts := hout
    rw [writeTargetRuntime, concat_eq_joined] at hparts
    obtain ⟨_, hid⟩ := part_ok_of_joined hparts (encodeIdentifier runtime.id) (by simp)
    exact ⟨(), checkBounded_ok (string_ok hid).1 _, hout⟩

theorem encodeDeliveryRecord_iff (record : DeliveryRecord) (out : Bytes) :
    encodeDeliveryRecord record = .ok out ↔
      record.events.length ≤ kMaxEventsPerDelivery ∧ writeDeliveryRecord record = .ok out := by
  constructor
  · intro h
    obtain ⟨_, -, h⟩ := Result.bind_eq_ok.mp h
    obtain ⟨_, -, h⟩ := Result.bind_eq_ok.mp h
    split at h
    · cases h
    · exact ⟨by omega, h⟩
  · rintro ⟨hle, hout⟩
    have hparts := hout
    rw [writeDeliveryRecord, concat_eq_joined] at hparts
    obtain ⟨_, hid⟩ := part_ok_of_joined hparts (encodeIdentifier record.id) (by simp)
    obtain ⟨_, hdetail⟩ :=
      part_ok_of_joined hparts (ByteWriter.string record.lastDetail kMaxDeliveryDetailBytes) (by simp)
    refine Result.bind_eq_ok.mpr ⟨(), checkBounded_ok (string_ok hid).1 _, ?_⟩
    refine Result.bind_eq_ok.mpr ⟨(), checkBounded_ok (string_ok hdetail).1 _, ?_⟩
    rw [if_neg (by omega)]
    exact hout

theorem decodeTargetRuntime_iff (payload : Bytes) (runtime : TargetRuntime) :
    decodeTargetRuntime payload = .ok runtime ↔ runtime.Readable ∧ encodeTargetRuntime runtime = .ok payload := by
  rw [encodeTargetRuntime_iff]
  exact decodeWhole_iff readTargetRuntime_part _ _

theorem decodeDeliveryRecord_iff (payload : Bytes) (record : DeliveryRecord) :
    decodeDeliveryRecord payload = .ok record ↔ record.Readable ∧ encodeDeliveryRecord record = .ok payload := by
  rw [encodeDeliveryRecord_iff]
  refine (decodeWhole_iff readDeliveryRecord_part _ _).trans ?_
  constructor
  · rintro ⟨hreadable, hout⟩
    have hall := hreadable
    obtain ⟨-, -, -, -, -, -, -, -, -, -, -, -, -, -, hevents, -⟩ := hall
    exact ⟨hreadable, hevents, hout⟩
  · rintro ⟨hreadable, -, hout⟩
    exact ⟨hreadable, hout⟩

theorem length_joined_le {ps : List (Result Bytes)} {n : ℕ} {out : Bytes}
    (hps : ∀ p ∈ ps, ∀ front, p = .ok front → front.length ≤ n) (h : joined ps = .ok out) :
    out.length ≤ ps.length * n := by
  induction ps generalizing out with
  | nil =>
    obtain rfl := Except.ok.inj h
    simp
  | cons p ps ih =>
    obtain ⟨hp, hps⟩ := List.forall_mem_cons.mp hps
    obtain ⟨front, back, hfront, hback, rfl⟩ := joined_cons_ok.mp h
    have hle := hp front hfront
    have hrest := ih hps hback
    rw [List.length_append, List.length_cons, Nat.succ_mul]
    omega

theorem length_string_le {v out : Bytes} {maxBytes : ℕ} (h : ByteWriter.string v maxBytes = .ok out) :
    out.length ≤ maxBytes + 4 := by
  obtain ⟨hle, -, rfl⟩ := string_ok h
  simp [ByteWriter.u32]
  omega

theorem length_encodeArtifactMetadata {m : ArtifactMetadata} {out : Bytes} (h : encodeArtifactMetadata m = .ok out) :
    out.length ≤ kAbsoluteMaxFieldBytes := by
  obtain ⟨body, hbody, rfl⟩ := encodeArtifactMetadata_ok.mp h
  rw [concat_eq_joined] at hbody
  have hle := length_joined_le (n := 132) ?_ hbody
  · have hbound : kAbsoluteMaxFieldBytes = 1048576 := rfl
    have hlen : (metadataBody m).length = 12 := rfl
    rw [hlen] at hle
    simp [ByteWriter.u32]
    omega
  have hdigest := m.digest.2
  have hid : kMaxIdentifierLength = 128 := rfl
  have hmedia : kMaxMediaTypeBytes = 64 := rfl
  have hproducer : kMaxProducerBytes = 128 := rfl
  simp only [metadataBody, List.forall_mem_cons, List.not_mem_nil, false_implies, implies_true, and_true]
  refine ⟨?_, ?_, ?_, ?_, ?_, ?_, ?_, ?_, ?_, ?_, ?_, ?_⟩ <;> intro front hfront
  case refine_3 | refine_5 | refine_9 | refine_10 =>
    have hle := length_string_le hfront
    omega
  all_goals
    obtain rfl := Except.ok.inj hfront
    simp [ByteWriter.u16, ByteWriter.u32, ByteWriter.u64, ByteWriter.i64, hdigest]

theorem encodeArtifactRecord {m : ArtifactMetadata} {out : Bytes} (h : encodeArtifactMetadata m = .ok out) :
    ByteWriter.string out kAbsoluteMaxFieldBytes = .ok (ByteWriter.u32 out.length ++ out) := by
  have hle := length_encodeArtifactMetadata h
  rw [ByteWriter.string, if_neg (by omega), if_neg (by omega)]

/-! Applying a record. -/

namespace AgentStateCodec

/-- The state that a journal builds up, whatever its records are. -/
def applyAll (records : List (JournalRecordType × Bytes)) : AgentState :=
  records.foldl (fun s r => (apply s r.1 r.2).2) {}

theorem stored_apply {s : AgentState} (h : s.Stored) (type : JournalRecordType) (payload : Bytes) :
    (apply s type payload).2.Stored := by
  unfold apply
  split
  case h_1 fields hsteps => exact applyScript_assigns (stored_assigns hsteps) h payload
  case h_2 => exact h

theorem stored_applyAll (records : List (JournalRecordType × Bytes)) : (applyAll records).Stored :=
  List.foldlRecOn records _ stored_initial fun _ h r _ => stored_apply h r.1 r.2

end AgentStateCodec

namespace ControllerStateCodec

theorem apply_deliveryUpsert {payload : Bytes} {record : DeliveryRecord}
    (h : decodeDeliveryRecord payload = .ok record) (s : ControllerState) :
    apply s .deliveryUpsert payload = (.ok (), { s with deliveries := s.deliveries.insert record.id record }) := by
  obtain ⟨hreadable, hencode⟩ := (decodeDeliveryRecord_iff _ _).mp h
  exact applyScript_whole readDeliveryRecord_part hreadable ((encodeDeliveryRecord_iff _ _).mp hencode).2 s

theorem apply_targetUpsert {payload : Bytes} {runtime : TargetRuntime}
    (h : decodeTargetRuntime payload = .ok runtime) (s : ControllerState) :
    apply s .targetUpsert payload = (.ok (), setTarget runtime s) := by
  obtain ⟨hreadable, hencode⟩ := (decodeTargetRuntime_iff _ _).mp h
  exact applyScript_whole readTargetRuntime_part hreadable ((encodeTargetRuntime_iff _ _).mp hencode) s

theorem apply_artifactUpsert {encoded record : Bytes} {metadata : ArtifactMetadata}
    (h : decodeArtifactMetadata encoded = .ok metadata)
    (hrecord : ByteWriter.string encoded kAbsoluteMaxFieldBytes = .ok record) (s : ControllerState) :
    apply s .artifactUpsert record =
      (.ok (), { s with artifacts := s.artifacts.insert metadata.digest metadata }) := by
  obtain ⟨hreadable, hencode⟩ := (decodeArtifactMetadata_iff _ _).mp h
  exact applyScript_whole embeddedMetadata_part hreadable (Result.bind_eq_ok.mpr ⟨encoded, hencode, hrecord⟩) s

end ControllerStateCodec

/-- Snapshots of agents, and the records of targets, deliveries and artifacts, are read back as they were written; an
upsert stores its record under its key and changes nothing else. -/
theorem state_codecs_round_trip :
    (∀ records out, AgentStateCodec.encodeSnapshot (AgentStateCodec.applyAll records) = .ok out →
      AgentStateCodec.decodeSnapshot out = .ok (AgentStateCodec.applyAll records)) ∧
    (∀ payload record, decodeDeliveryRecord payload = .ok record →
      ∃ out, encodeDeliveryRecord record = .ok out ∧ decodeDeliveryRecord out = .ok record ∧
        ∀ s, ∃ deliveries,
          ControllerStateCodec.apply s .deliveryUpsert out = (.ok (), { s with deliveries := deliveries }) ∧
          ∀ id, deliveries.find id = if id = record.id then some record else s.deliveries.find id) ∧
    (∀ payload runtime, decodeTargetRuntime payload = .ok { runtime with contactEstablishedThisProcess := false } →
      ∃ out, encodeTargetRuntime runtime = .ok out ∧
        decodeTargetRuntime out = .ok { runtime with contactEstablishedThisProcess := false } ∧
        ∀ s, ∃ targets,
          ControllerStateCodec.apply s .targetUpsert out = (.ok (), { s with targets := targets }) ∧
          ∀ id, targets.find id = if id = runtime.id then
            some { runtime with
              contactEstablishedThisProcess := ((s.targets.find id).map (·.contactEstablishedThisProcess)).getD false }
            else s.targets.find id) ∧
    ∀ payload metadata, decodeArtifactMetadata payload = .ok metadata →
      ∃ out record, encodeArtifactMetadata metadata = .ok out ∧ decodeArtifactMetadata out = .ok metadata ∧
        ByteWriter.string out kAbsoluteMaxFieldBytes = .ok record ∧
        ∀ s, ∃ artifacts,
          ControllerStateCodec.apply s .artifactUpsert record = (.ok (), { s with artifacts := artifacts }) ∧
          ∀ digest, artifacts.find digest = if digest = metadata.digest then some metadata else s.artifacts.find digest := by
  refine ⟨?_, ?_, ?_, ?_⟩
  · intro records out hout
    exact run'_ok.mpr ⟨[], AgentStateCodec.read_encodeSnapshot (AgentStateCodec.stored_applyAll records) hout⟩
  · intro payload record hdecode
    refine ⟨payload, ((decodeDeliveryRecord_iff _ _).mp hdecode).2, hdecode, fun s => ?_⟩
    exact ⟨_, ControllerStateCodec.apply_deliveryUpsert hdecode s, fun _ => SortedMap.find_insert _ _ _ _⟩
  · intro payload runtime hdecode
    refine ⟨payload, ((decodeTargetRuntime_iff _ _).mp hdecode).2, hdecode, fun s => ?_⟩
    refine ⟨_, ControllerStateCodec.apply_targetUpsert hdecode s, fun id => ?_⟩
    refine (SortedMap.find_insert _ _ _ _).trans ?_
    split
    case isTrue hid => rw [hid]
    case isFalse => rfl
  · intro payload metadata hdecode
    have hencode := ((decodeArtifactMetadata_iff _ _).mp hdecode).2
    have hrecord := encodeArtifactRecord hencode
    refine ⟨payload, _, hencode, hdecode, hrecord, fun s => ?_⟩
    exact ⟨_, ControllerStateCodec.apply_artifactUpsert hdecode hrecord s, fun _ => SortedMap.find_insert _ _ _ _⟩

def exampleRuntime : TargetRuntime where
  id := text "router"
  endpoint := text "10.0.0.1:7000"

def exampleDelivery : DeliveryRecord where
  id := text "d"
  setId := text "set"
  target := text "router"
  key := text "k"
  artifact := text "a"
  generation := 1
  schema := text "s"

def exampleMetadata : ArtifactMetadata where
  id := text "a"
  schema := text "s"

/-- A fence, a commit of the second generation and a window for the third. -/
def exampleHistory : List (JournalRecordType × Bytes) := [
  (.agentControllerFence, ByteWriter.u64 3 ++ (List.replicate 16 1 ++ (ByteWriter.u32 4 ++ text "node"))),
  (.agentTargetCommit, ByteWriter.u64 2 ++ (List.replicate 32 7 ++ (ByteWriter.u32 1 ++ text "a"))),
  (.agentApplyPrepared, ByteWriter.u32 1 ++ (text "d" ++ (ByteWriter.u64 3 ++ List.replicate 32 8)))]

instance : DecidablePred ArtifactMetadata.Readable := fun _ => inferInstanceAs (Decidable (_ ∧ _))

theorem example_records_round_trip :
    (∃ out, AgentStateCodec.encodeSnapshot (AgentStateCodec.applyAll exampleHistory) = .ok out ∧
      AgentStateCodec.decodeSnapshot out = .ok (AgentStateCodec.applyAll exampleHistory)) ∧
    (AgentStateCodec.applyAll exampleHistory).lastControllerEpoch = 3 ∧
    (AgentStateCodec.applyAll exampleHistory).committedGeneration = 2 ∧
    (AgentStateCodec.applyAll exampleHistory).preparedGeneration = 3 ∧
    (∃ out, encodeDeliveryRecord exampleDelivery = .ok out ∧ decodeDeliveryRecord out = .ok exampleDelivery) ∧
    (∃ out, encodeTargetRuntime { exampleRuntime with contactEstablishedThisProcess := true } = .ok out ∧
      decodeTargetRuntime out = .ok exampleRuntime) ∧
    ∃ out, encodeArtifactMetadata exampleMetadata = .ok out ∧ decodeArtifactMetadata out = .ok exampleMetadata := by
  obtain ⟨hagent, hdelivery, hruntime, hartifact⟩ := state_codecs_round_trip
  refine ⟨?_, by decide, by decide, by decide, ?_, ?_, ?_⟩
  · obtain ⟨out, hout⟩ : ∃ out, AgentStateCodec.encodeSnapshot (AgentStateCodec.applyAll exampleHistory) = .ok out :=
      ⟨(AgentStateCodec.encodeSnapshot (AgentStateCodec.applyAll exampleHistory)).toOption.getD [], by decide +kernel⟩
    exact ⟨out, hout, hagent exampleHistory out hout⟩
  · obtain ⟨out, hout, hback, -⟩ := hdelivery ((encodeDeliveryRecord exampleDelivery).toOption.getD [])
      exampleDelivery (by decide +kernel)
    exact ⟨out, hout, hback⟩
  · obtain ⟨out, hout, hback, -⟩ := hruntime ((encodeTargetRuntime exampleRuntime).toOption.getD [])
      { exampleRuntime with contactEstablishedThisProcess := true } (by decide +kernel)
    exact ⟨out, hout, hback⟩
  · obtain ⟨record, hrecord⟩ : ∃ record, encodeArtifactMetadata exampleMetadata = .ok record :=
      ⟨_, encodeArtifactMetadata_ok.mpr ⟨_, rfl, rfl⟩⟩
    have hdecode := (decodeArtifactMetadata_iff record exampleMetadata).mpr ⟨by decide, hrecord⟩
    obtain ⟨out, _, hout, hback, -⟩ := hartifact record exampleMetadata hdecode
    exact ⟨out, hout, hback⟩

end ConfigurationFabric
