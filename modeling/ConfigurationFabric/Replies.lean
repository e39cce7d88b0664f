import ConfigurationFabric.MessageCodecs

/-! Frames as the other side reads them. -/

namespace ConfigurationFabric

open LittleEndian
open Reading
open ByteReader

def Reply.encode : Reply → Result Bytes
  | .helloAck a => encodeHelloAck a
  | .authReject code detail => encodeAuthReject ⟨code, detail⟩
  | .prepareAck a => encodePrepareAck a
  | .prepareReject a => encodePrepareReject a
  | .chunkAck a => encodeChunkAck a
  | .transferResult a => encodeTransferResult a
  | .stageAck a => encodeStageAck a
  | .applyPrepareAck a => encodeApplyPrepareAck a
  | .applyCommitAck a => encodeApplyCommitAck a
  | .applyAbortAck a => encodeApplyAbortAck a
  | .deliveryAck a => encodeDeliveryAck a
  | .deliveryNack a => encodeDeliveryNack a
  | .reconcileReport a => encodeReconcileReport a
  | .retireAck a => encodeRetireAck a
  | .pong nonce => encodePong nonce

/-- The decoder for the type of the frame. -/
def Reply.decode (payload : Bytes) : Reply → Result Reply
  | .helloAck _ => .helloAck <$> decodeHelloAck payload
  | .authReject _ _ => (fun m => .authReject m.code m.detail) <$> decodeAuthReject payload
  | .prepareAck _ => .prepareAck <$> decodePrepareAck payload
  | .prepareReject _ => .prepareReject <$> decodePrepareReject payload
  | .chunkAck _ => .chunkAck <$> decodeChunkAck payload
  | .transferResult _ => .transferResult <$> decodeTransferResult payload
  | .stageAck _ => .stageAck <$> decodeStageAck payload
  | .applyPrepareAck _ => .applyPrepareAck <$> decodeApplyPrepareAck payload
  | .applyCommitAck _ => .applyCommitAck <$> decodeApplyCommitAck payload
  | .applyAbortAck _ => .applyAbortAck <$> decodeApplyAbortAck payload
  | .deliveryAck _ => .deliveryAck <$> decodeDeliveryAck payload
  | .deliveryNack _ => .deliveryNack <$> decodeDeliveryNack payload
  | .reconcileReport _ => .reconcileReport <$> decodeReconcileReport payload
  | .retireAck _ => .retireAck <$> decodeRetireAck payload
  | .pong _ => .pong <$> decodePong payload

/-- If the frame can be encoded at all, its decoder makes something of it. -/
def Reply.Decodes (r : Reply) : Prop := ∀ payload, r.encode = .ok payload → ∃ r', r.decode payload = .ok r'

def Message.decode (payload : Bytes) : Message → Result Message
  | .hello _ => .hello <$> decodeHello payload
  | .prepare _ => .prepare <$> decodePrepare payload
  | .chunk _ => .chunk <$> decodeChunk payload
  | .transferComplete _ => .transferComplete <$> decodeTransferComplete payload
  | .stage _ => .stage <$> decodeStage payload
  | .applyPrepare _ => .applyPrepare <$> decodeApplyPrepare payload
  | .applyCommit _ => .applyCommit <$> decodeApplyCommit payload
  | .applyAbort _ => .applyAbort <$> decodeApplyAbort payload
  | .reconcileRequest _ => .reconcileRequest <$> decodeReconcileRequest payload
  | .retire _ => .retire <$> decodeRetire payload
  | .ping _ => .ping <$> decodePing payload
  | .goodbye => (fun _ => .goodbye) <$> decodeGoodbye payload
  | .unexpected => .ok .unexpected

/-- The message has come as a frame, with whatever payload. -/
def Message.Arrives (m : Message) : Prop := ∃ payload, m.decode payload = .ok m

section Arrives

variable {α β : Type}

theorem arrived_prepare {m : PrepareMessage} (h : (Message.prepare m).Arrives) : m.Readable := by
  obtain ⟨payload, h⟩ := h
  obtain ⟨m', hm, ⟨⟩⟩ := Result.map_eq_ok.mp h
  exact ((prepare_canonical payload m).mp hm).1

theorem arrived_applyCommit {m : ApplyCommitMessage} (h : (Message.applyCommit m).Arrives) : m.Readable := by
  obtain ⟨payload, h⟩ := h
  obtain ⟨m', hm, ⟨⟩⟩ := Result.map_eq_ok.mp h
  exact ((applyCommit_canonical payload m).mp hm).1

/-- What the decoders check of a message has been checked. -/
theorem Message.Arrives.valid {m : Message} (h : m.Arrives) : m.Valid := by
  obtain ⟨payload, h⟩ := h
  cases m with
  | prepare m =>
    obtain ⟨m', hm, ⟨⟩⟩ := Result.map_eq_ok.mp h
    have hread := ((prepare_canonical payload m).mp hm).1
    simp only [PrepareMessage.Readable] at hread
    simp only [Message.Valid]
    grind
  | chunk m =>
    obtain ⟨m', hm, ⟨⟩⟩ := Result.map_eq_ok.mp h
    have hread := ((chunk_canonical payload m).mp hm).1
    exact ⟨hread.1, hread.2.2.2.2⟩
  | transferComplete m =>
    obtain ⟨m', hm, ⟨⟩⟩ := Result.map_eq_ok.mp h
    exact ((transferComplete_canonical payload m).mp hm).1.1
  | stage m =>
    obtain ⟨m', hm, ⟨⟩⟩ := Result.map_eq_ok.mp h
    have hread := ((stage_canonical payload m).mp hm).1
    exact ⟨hread.1, hread.2.2.1⟩
  | applyPrepare m =>
    obtain ⟨m', hm, ⟨⟩⟩ := Result.map_eq_ok.mp h
    have hread := ((applyPrepare_canonical payload m).mp hm).1
    exact ⟨hread.1, hread.2.1⟩
  | applyCommit m =>
    obtain ⟨m', hm, ⟨⟩⟩ := Result.map_eq_ok.mp h
    have hread := ((applyCommit_canonical payload m).mp hm).1
    exact ⟨hread.1, hread.2.1⟩
  | applyAbort m =>
    obtain ⟨m', hm, ⟨⟩⟩ := Result.map_eq_ok.mp h
    have hread := ((applyAbort_canonical payload m).mp hm).1
    exact ⟨hread.1, hread.2.1⟩
  | retire m =>
    obtain ⟨m', hm, ⟨⟩⟩ := Result.map_eq_ok.mp h
    have hread := ((retire_canonical payload m).mp hm).1
    exact ⟨hread.1, hread.2.1⟩
  | hello _ | reconcileRequest _ | ping _ | goodbye | unexpected => trivial

end Arrives

/-! Encoders take any number and any text; what is left of them on the wire can be read. -/

theorem store_mod (w v : ℕ) : store w (v % 256 ^ w) = store w v := by
  apply load_injective
  · simp
  · rw [load_store_mod, load_store_mod, Nat.mod_mod]

theorem u32_mod (n : ℕ) : ByteWriter.u32 (n % 2 ^ 32) = ByteWriter.u32 n := store_mod 4 n

theorem u64_mod (n : ℕ) : ByteWriter.u64 (n % 2 ^ 64) = ByteWriter.u64 n := store_mod 8 n

theorem i64_bmod (v : ℤ) : ByteWriter.i64 (v.bmod (2 ^ 64)) = ByteWriter.i64 v := by
  have hmod : v.bmod (2 ^ 64) % 2 ^ 64 = v % 2 ^ 64 := Int.bmod_emod
  rw [ByteWriter.i64, ByteWriter.i64, hmod]

/-- The characters of a detail cut down to bytes. -/
def wired (detail : String) : String := textString (text detail)

theorem ofBytes_wired (detail : String) : OfBytes (wired detail) := by
  rw [OfBytes, wired, text_textString]

theorem writeDetail_wired (detail : String) : writeDetail (wired detail) = writeDetail detail := by
  rw [writeDetail, wired, text_textString, writeDetail]

theorem checkDetail_wired (detail : String) : checkDetail (wired detail) = checkDetail detail := by
  have hlength : (wired detail).length = detail.length := by
    simp [wired, textString, text, ← String.length_toList]
  rw [checkDetail, hlength, checkDetail]

/-- What a frame has to carry for its decoder to accept it. -/
def Reply.Sendable : Reply → Prop
  | .helloAck _ | .authReject _ _ => False
  | .chunkAck _ | .pong _ => True
  | .prepareAck a => isValidIdentifier a.deployment = true
  | .prepareReject a => isValidIdentifier a.deployment = true
  | .transferResult a => isValidIdentifier a.deployment = true
  | .stageAck a => isValidIdentifier a.deployment = true
  | .applyPrepareAck a => isValidIdentifier a.deployment = true
  | .applyCommitAck a => isValidIdentifier a.deployment = true
  | .applyAbortAck a => isValidIdentifier a.deployment = true
  | .retireAck a => isValidIdentifier a.deployment = true
  | .deliveryAck a =>
    isValidIdentifier a.deployment = true ∧ isValidIdentifier a.key = true ∧ a.generation ≠ 0 ∧
      a.generation < 2 ^ 64 ∧ (a.artifact = [] ∨ isValidIdentifier a.artifact = true) ∧
      isActivationState a.state = true ∧ a.term ≠ 0 ∧ a.term < 2 ^ 64 ∧ a.incarnation.isSet = true
  | .deliveryNack a =>
    isValidIdentifier a.deployment = true ∧ isValidIdentifier a.key = true ∧ a.generation ≠ 0 ∧ a.generation < 2 ^ 64
  | .reconcileReport a =>
    isValidIdentifier a.target = true ∧ a.term ≠ 0 ∧ a.term < 2 ^ 64 ∧ a.incarnation.isSet = true ∧
      (a.committedArtifact = [] ∨ isValidIdentifier a.committedArtifact = true) ∧
      (a.preparedDeployment = [] ∨ isValidIdentifier a.preparedDeployment = true) ∧
      a.transfers.length ≤ kMaxTransfersInReport ∧ a.findings.length ≤ kMaxFindingsInReport ∧
      (∀ r ∈ a.transfers, isValidIdentifier r.deployment = true ∧ isValidIdentifier r.key = true ∧
        r.generation ≠ 0 ∧ r.generation < 2 ^ 64 ∧ r.bytesReceived ≤ r.totalBytes ∧ r.totalBytes < 2 ^ 64) ∧
      ∀ f ∈ a.findings, isValidIdentifier f.key = true ∧ f.generation ≠ 0 ∧ f.generation < 2 ^ 64 ∧
        (f.artifact = [] ∨ isValidIdentifier f.artifact = true) ∧ isValidIdentifier f.deployment = true

section Decodes

variable {α : Type}

/-- Two values with one encoding, of which one can be read. -/
theorem decodes_of {decode : Bytes → Result α} {encode : α → Result Bytes} {P : α → Prop} {make : α → Reply}
    (h : Canonical decode P encode) {m : α} (m' : α) (hm : P m') (hencode : encode m' = encode m) {payload : Bytes}
    (hpayload : encode m = .ok payload) : ∃ r, make <$> decode payload = .ok r :=
  ⟨make m', Result.map_eq_ok.mpr ⟨m', (h payload m').mpr ⟨hm, hencode.trans hpayload⟩, rfl⟩⟩

theorem outcome_wired (deployment : DeploymentId) (done : Bool) (code : ErrorCode) (detail : String) :
    writeOutcome deployment done code (wired detail) = writeOutcome deployment done code detail := by
  rw [writeOutcome, checkDetail_wired, writeDetail_wired, writeOutcome]

theorem status_mod (r : TransferStatusRecord) :
    writeTransferStatus { r with stream := r.stream % 2 ^ 64 } = writeTransferStatus r := by
  rw [writeTransferStatus, u64_mod, writeTransferStatus]

theorem finding_mod (f : AppliedFinding) :
    writeReconcileFinding { f with recordedAtMillis := f.recordedAtMillis.bmod (2 ^ 64) } =
      writeReconcileFinding f := by
  rw [writeReconcileFinding, i64_bmod, writeReconcileFinding]

theorem bmod_range (v : ℤ) : -2 ^ 63 ≤ v.bmod (2 ^ 64) ∧ v.bmod (2 ^ 64) < 2 ^ 63 := by
  have hlow := Int.le_bmod (x := v) (m := 2 ^ 64) (by decide)
  have hhigh := Int.bmod_lt (x := v) (m := 2 ^ 64) (by decide)
  omega

theorem decodes_reconcileReport {a : ReconcileReportMessage} (h : (Reply.reconcileReport a).Sendable) :
    (Reply.reconcileReport a).Decodes := by
  obtain ⟨htarget, hterm, hbound, hset, hartifact, hprepared, htransfers, hfindings, hstatus, hfound⟩ := h
  intro payload hpayload
  refine decodes_of reconcileReport_canonical { a with
    committedGeneration := a.committedGeneration % 2 ^ 64, preparedGeneration := a.preparedGeneration % 2 ^ 64
    restartCount := a.restartCount % 2 ^ 32, applyRollbacks := a.applyRollbacks % 2 ^ 32
    transfers := a.transfers.map fun r => { r with stream := r.stream % 2 ^ 64 }
    findings := a.findings.map fun f => { f with recordedAtMillis := f.recordedAtMillis.bmod (2 ^ 64) } }
    ?_ ?_ hpayload
  · refine ⟨htarget, hterm, hbound, hset, Nat.mod_lt _ (by decide), hartifact, hprepared, Nat.mod_lt _ (by decide),
      Nat.mod_lt _ (by decide), Nat.mod_lt _ (by decide), by simpa using htransfers, ?_, by simpa using hfindings, ?_⟩
    · intro r' hr'
      obtain ⟨r, hr, rfl⟩ := List.mem_map.mp hr'
      obtain ⟨hdeployment, hkey, hgeneration, hlt, hle, htotal⟩ := hstatus r hr
      exact ⟨hdeployment, Nat.mod_lt _ (by decide), hkey, hgeneration, hlt, hle, htotal⟩
    · intro f' hf'
      obtain ⟨f, hf, rfl⟩ := List.mem_map.mp hf'
      obtain ⟨hkey, hgeneration, hlt, hartifact, hdeployment⟩ := hfound f hf
      exact ⟨hkey, hgeneration, hlt, hartifact, hdeployment, bmod_range _⟩
  · simp only [encodeReconcileReport, u64_mod, u32_mod, List.length_map, List.map_map, Function.comp_def, status_mod,
      finding_mod]

theorem Reply.Sendable.decodes {r : Reply} (h : r.Sendable) : r.Decodes := by
  intro payload hpayload
  cases r with
  | helloAck _ | authReject _ _ => exact h.elim
  | prepareAck a =>
    refine decodes_of prepareAck_canonical { a with
      stream := a.stream % 2 ^ 64, resumeFromOffset := a.resumeFromOffset % 2 ^ 64
      committedGeneration := a.committedGeneration % 2 ^ 64, priorGeneration := a.priorGeneration % 2 ^ 64 } ?_ ?_ hpayload
    · exact ⟨h, Nat.mod_lt _ (by decide), Nat.mod_lt _ (by decide), Nat.mod_lt _ (by decide), Nat.mod_lt _ (by decide)⟩
    · simp only [encodePrepareAck, u64_mod]
  | prepareReject a =>
    refine decodes_of prepareReject_canonical { a with
      detail := wired a.detail, committedGeneration := a.committedGeneration % 2 ^ 64 } ?_ ?_ hpayload
    · exact ⟨h, ofBytes_wired _, Nat.mod_lt _ (by decide)⟩
    · simp only [encodePrepareReject, u64_mod, checkDetail_wired, writeDetail_wired]
  | chunkAck a =>
    refine decodes_of chunkAck_canonical { a with
      stream := a.stream % 2 ^ 64, sequence := a.sequence % 2 ^ 64, bytesReceived := a.bytesReceived % 2 ^ 64
      detail := wired a.detail } ?_ ?_ hpayload
    · exact ⟨Nat.mod_lt _ (by decide), Nat.mod_lt _ (by decide), Nat.mod_lt _ (by decide), ofBytes_wired _⟩
    · simp only [encodeChunkAck, u64_mod, checkDetail_wired, writeDetail_wired]
  | transferResult a =>
    refine decodes_of transferResult_canonical { a with
      stream := a.stream % 2 ^ 64, bytesReceived := a.bytesReceived % 2 ^ 64, detail := wired a.detail } ?_ ?_ hpayload
    · exact ⟨h, Nat.mod_lt _ (by decide), Nat.mod_lt _ (by decide), ofBytes_wired _⟩
    · simp only [encodeTransferResult, u64_mod, checkDetail_wired, writeDetail_wired]
  | stageAck a =>
    exact decodes_of stageAck_canonical { a with detail := wired a.detail } ⟨h, ofBytes_wired _⟩
      (outcome_wired _ _ _ _) hpayload
  | applyPrepareAck a =>
    exact decodes_of applyPrepareAck_canonical { a with detail := wired a.detail } ⟨h, ofBytes_wired _⟩
      (outcome_wired _ _ _ _) hpayload
  | applyCommitAck a =>
    refine decodes_of applyCommitAck_canonical { a with
      committedGeneration := a.committedGeneration % 2 ^ 64, detail := wired a.detail } ?_ ?_ hpayload
    · exact ⟨h, Nat.mod_lt _ (by decide), ofBytes_wired _⟩
    · simp only [encodeApplyCommitAck, u64_mod, checkDetail_wired, writeDetail_wired]
  | applyAbortAck a =>
    exact decodes_of applyAbortAck_canonical { a with detail := wired a.detail } ⟨h, ofBytes_wired _⟩
      (outcome_wired _ _ _ _) hpayload
  | deliveryAck a =>
    obtain ⟨hdeployment, hkey, hgeneration, hlt, hartifact, hstate, hterm, hbound, hset⟩ := h
    refine decodes_of deliveryAck_canonical { a with
      authorityEpoch := a.authorityEpoch % 2 ^ 64, bytesTransferred := a.bytesTransferred % 2 ^ 64
      targetTimestampMillis := a.targetTimestampMillis.bmod (2 ^ 64) } ?_ ?_ hpayload
    · exact ⟨hdeployment, hkey, hgeneration, hlt, hartifact, hstate, hterm, hbound, hset, Nat.mod_lt _ (by decide),
        Nat.mod_lt _ (by decide), bmod_range _⟩
    · simp only [encodeDeliveryAck, u64_mod, i64_bmod]
  | deliveryNack a =>
    obtain ⟨hdeployment, hkey, hgeneration, hlt⟩ := h
    refine decodes_of deliveryNack_canonical { a with term := a.term % 2 ^ 64, detail := wired a.detail } ?_ ?_ hpayload
    · exact ⟨hdeployment, hkey, hgeneration, hlt, Nat.mod_lt _ (by decide), ofBytes_wired _⟩
    · simp only [encodeDeliveryNack, u64_mod, checkDetail_wired, writeDetail_wired]
  | reconcileReport a => exact decodes_reconcileReport h payload hpayload
  | retireAck a => exact decodes_of retireAck_canonical a h rfl hpayload
  | pong nonce =>
    refine decodes_of pong_canonical (nonce % 2 ^ 64) (Nat.mod_lt _ (by decide)) ?_ hpayload
    simp only [encodePong, u64_mod]

/-! Evidence that names no key is written and cannot be read. -/

theorem string_short {value : Bytes} (h : value.length ≤ kMaxIdentifierLength) :
    ∃ out, encodeIdentifier value = .ok out := by
  have hbound : kMaxIdentifierLength ≤ kAbsoluteMaxFieldBytes := by decide
  refine ⟨_, (if_neg (not_lt.mpr h)).trans (if_neg (not_lt.mpr (h.trans hbound)))⟩

theorem identifier_short {value : Bytes} (h : isValidIdentifier value = true) : value.length ≤ kMaxIdentifierLength := by
  simp only [isValidIdentifier, Bool.and_eq_true, decide_eq_true_eq] at h
  exact h.1.1.2

theorem detail_short {detail : String} (h : detail.length ≤ kMaxMessageDetailBytes) :
    checkDetail detail = .ok () ∧ ∃ out, writeDetail detail = .ok out := by
  have hbound : kMaxMessageDetailBytes ≤ kAbsoluteMaxFieldBytes := by decide
  have hlength : (text detail).length = detail.length := by rw [text, List.length_map, String.length_toList]
  refine ⟨if_neg (not_lt.mpr h), _, (if_neg ?_).trans (if_neg ?_)⟩
  · rw [hlength]
    exact not_lt.mpr h
  · rw [hlength]
    exact not_lt.mpr (h.trans hbound)

/-- The second identifier of a frame. -/
theorem second_unique {first second first' second' : Bytes} {ps ps' : List (Result Bytes)} {payload : Bytes}
    (h : joined (encodeIdentifier first :: encodeIdentifier second :: ps) = .ok payload)
    (h' : joined (encodeIdentifier first' :: encodeIdentifier second' :: ps') = .ok payload) : second' = second := by
  obtain ⟨out₁, back, hout₁, hback, rfl⟩ := joined_cons_ok.mp h
  obtain ⟨out₂, _, hout₂, -, rfl⟩ := joined_cons_ok.mp hback
  obtain ⟨out₁', back', hout₁', hback', heq⟩ := joined_cons_ok.mp h'
  obtain ⟨out₂', _, hout₂', -, rfl⟩ := joined_cons_ok.mp hback'
  have hstring := part_string kMaxIdentifierLength
  obtain ⟨-, hrest⟩ := hstring.unique trivial trivial hout₁ hout₁' heq
  exact (hstring.unique trivial trivial hout₂ hout₂' hrest).1.symm

theorem valid_ne_nil {value : Bytes} (h : isValidIdentifier value = true) : value ≠ [] := by
  rintro rfl
  cases h

theorem keyless_nack {a : DeliveryNackMessage} (hkey : a.key = []) (hdeployment : isValidIdentifier a.deployment = true)
    (hdetail : a.detail.length ≤ kMaxMessageDetailBytes) : ¬ (Reply.deliveryNack a).Decodes := by
  intro h
  obtain ⟨hcheck, hwrite⟩ := detail_short hdetail
  obtain ⟨payload, hparts⟩ : ∃ payload, joined [encodeIdentifier a.deployment, encodeIdentifier a.key,
      .ok (ByteWriter.u64 a.generation), .ok a.digest.1, .ok (ByteWriter.u16 a.code.value),
      .ok (ByteWriter.u8 a.directive.value), .ok (ByteWriter.u64 a.term), .ok a.incarnation.1,
      writeDetail a.detail] = .ok payload := by
    apply joined_ok
    have hkeyed : ∃ out, encodeIdentifier a.key = .ok out := string_short (by rw [hkey]; decide)
    simp [string_short (identifier_short hdeployment), hkeyed, hwrite]
  have hpayload : encodeDeliveryNack a = .ok payload := by
    rw [encodeDeliveryNack, hcheck, concat_eq_joined]
    exact hparts
  obtain ⟨r, hr⟩ := h payload hpayload
  obtain ⟨a', ha', -⟩ := Result.map_eq_ok.mp hr
  obtain ⟨hread, hsame⟩ := (deliveryNack_canonical payload a').mp ha'
  rw [encodeDeliveryNack, Result.bind_eq_ok, concat_eq_joined] at hsame
  obtain ⟨_, -, hparts'⟩ := hsame
  exact valid_ne_nil hread.2.1 ((second_unique hparts hparts').trans hkey)

theorem keyless_ack {a : DeliveryAckMessage} (hkey : a.key = []) (hdeployment : isValidIdentifier a.deployment = true)
    (hartifact : a.artifact = [] ∨ isValidIdentifier a.artifact = true) : ¬ (Reply.deliveryAck a).Decodes := by
  intro h
  have hshort : a.artifact.length ≤ kMaxIdentifierLength := by
    obtain hnone | hvalid := hartifact
    · rw [hnone]
      decide
    · exact identifier_short hvalid
  obtain ⟨payload, hpayload⟩ : ∃ payload, encodeDeliveryAck a = .ok payload := by
    rw [encodeDeliveryAck, concat_eq_joined]
    apply joined_ok
    have hkeyed : ∃ out, encodeIdentifier a.key = .ok out := string_short (by rw [hkey]; decide)
    simp [string_short (identifier_short hdeployment), hkeyed, string_short hshort]
  obtain ⟨r, hr⟩ := h payload hpayload
  obtain ⟨a', ha', -⟩ := Result.map_eq_ok.mp hr
  obtain ⟨hread, hsame⟩ := (deliveryAck_canonical payload a').mp ha'
  rw [encodeDeliveryAck, concat_eq_joined] at hpayload hsame
  exact valid_ne_nil hread.2.1 ((second_unique hpayload hsame).trans hkey)

end Decodes

end ConfigurationFabric
