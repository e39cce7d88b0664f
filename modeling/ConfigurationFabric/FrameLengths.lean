import Mathlib.Tactic.Linarith
import ConfigurationFabric.Frames
import ConfigurationFabric.Replies

/-! How long the frames of the protocol are. -/

namespace ConfigurationFabric

open LittleEndian
open Reading
open Wire

/-! How long an encoding is. -/

def AtMost (n : ℕ) (part : Result Bytes) : Prop := ∀ bs, part = .ok bs → bs.length ≤ n

section AtMost

variable {n m : ℕ} {part : Result Bytes} {parts : List (Result Bytes)}

theorem AtMost.mono (h : AtMost n part) (hle : n ≤ m) : AtMost m part := fun bs hbs => (h bs hbs).trans hle

theorem atMost_ok {bs : Bytes} (h : bs.length = n) : AtMost n (.ok bs) := by
  rintro _ ⟨⟩
  exact h.le

theorem atMost_fail {code : ErrorCode} {message detail : String} : AtMost n (.fail code message detail) := by
  intro bs h
  cases h

theorem atMost_u8 (v : ℕ) : AtMost 1 (.ok (ByteWriter.u8 v)) := atMost_ok (store_length _ _)
theorem atMost_u16 (v : ℕ) : AtMost 2 (.ok (ByteWriter.u16 v)) := atMost_ok (store_length _ _)
theorem atMost_u32 (v : ℕ) : AtMost 4 (.ok (ByteWriter.u32 v)) := atMost_ok (store_length _ _)
theorem atMost_u64 (v : ℕ) : AtMost 8 (.ok (ByteWriter.u64 v)) := atMost_ok (store_length _ _)
theorem atMost_i64 (v : ℤ) : AtMost 8 (.ok (ByteWriter.i64 v)) := atMost_ok (store_length _ _)
theorem atMost_boolean (b : Bool) : AtMost 1 (.ok (ByteWriter.boolean b)) := atMost_ok rfl
theorem atMost_fixed (v : FixedBytes n) : AtMost n (.ok v.1) := atMost_ok v.2

theorem atMost_string (value : Bytes) (maxBytes : ℕ) : AtMost (4 + maxBytes) (ByteWriter.string value maxBytes) := by
  rw [ByteWriter.string]
  split
  · exact atMost_fail
  split
  · exact atMost_fail
  · have hprefix : (ByteWriter.u32 value.length).length = 4 := store_length _ _
    rintro _ ⟨⟩
    rw [List.length_append, hprefix]
    omega

theorem atMost_identifier (value : Bytes) : AtMost 132 (encodeIdentifier value) := atMost_string value kMaxIdentifierLength

theorem atMost_detail (detail : String) : AtMost 260 (writeDetail detail) := atMost_string _ kMaxMessageDetailBytes

theorem atMost_nil : AtMost 0 (concat []) := atMost_ok rfl

theorem AtMost.cons (h : AtMost n part) (hs : AtMost m (concat parts)) : AtMost (n + m) (concat (part :: parts)) := by
  intro bs hbs
  rw [concat_eq_joined] at hbs
  obtain ⟨front, back, hfront, hback, rfl⟩ := joined_cons_ok.mp hbs
  rw [← concat_eq_joined] at hback
  rw [List.length_append]
  exact Nat.add_le_add (h front hfront) (hs back hback)

/-- So many parts of so many bytes at most, and the rest. -/
theorem AtMost.many {first : List (Result Bytes)} (h : ∀ p ∈ first, AtMost n p) (hs : AtMost m (concat parts)) :
    AtMost (n * first.length + m) (concat (first ++ parts)) := by
  induction first with
  | nil => simpa using hs
  | cons p rest ih =>
    obtain ⟨hp, hrest⟩ := List.forall_mem_cons.mp h
    refine (hp.cons (ih hrest)).mono (le_of_eq ?_)
    rw [List.length_cons, Nat.mul_add]
    omega

theorem AtMost.all (h : ∀ p ∈ parts, AtMost n p) : AtMost (n * parts.length) (concat parts) := by
  have hmany := AtMost.many h atMost_nil
  rwa [List.append_nil] at hmany

theorem AtMost.guarded {check : Status} (h : AtMost n part) : AtMost n (do check; part) := by
  intro bs hbs
  obtain ⟨⟨⟩, -, hpart⟩ := Result.bind_eq_ok.mp hbs
  exact h bs hpart

end AtMost

/-! The longest of the target's frames is a report with all the transfers and findings it may hold. -/

/-- The report that so many findings are asked for. -/
def largestReply (maxFindings : ℕ) : ℕ := 519 + kMaxTransfersInReport * 330 + min maxFindings kMaxFindingsInReport * 445

/-- A report has no more findings than were asked for. -/
def Reply.Brief (maxFindings : ℕ) : Reply → Prop
  | .reconcileReport a => a.findings.length ≤ maxFindings
  | _ => True

theorem atMost_transferStatus (r : TransferStatusRecord) : AtMost 330 (writeTransferStatus r) := by
  have hparts := (atMost_identifier r.deployment).cons <| (atMost_u64 r.stream).cons <| (atMost_identifier r.key).cons <|
    (atMost_u64 r.generation).cons <| (atMost_fixed r.digest).cons <| (atMost_u64 r.bytesReceived).cons <|
    (atMost_u64 r.totalBytes).cons <| (atMost_boolean r.verified).cons <| (atMost_boolean r.staged).cons atMost_nil
  exact hparts.mono (by decide)

theorem atMost_finding (f : AppliedFinding) : AtMost 445 (writeReconcileFinding f) := by
  have hparts := (atMost_identifier f.key).cons <| (atMost_u64 f.generation).cons <| (atMost_fixed f.digest).cons <|
    (atMost_identifier f.artifact).cons <| (atMost_identifier f.deployment).cons <| (atMost_u8 f.state.value).cons <|
    (atMost_i64 f.recordedAtMillis).cons atMost_nil
  exact hparts.mono (by decide)

section Longest

variable {maxFindings : ℕ}

theorem atMost_report {a : ReconcileReportMessage} (hbrief : a.findings.length ≤ maxFindings) :
    AtMost (largestReply maxFindings) (encodeReconcileReport a) := by
  rw [encodeReconcileReport]
  split
  · exact atMost_fail
  next hbounded =>
    rw [not_or, not_lt, not_lt] at hbounded
    have htransfers : ∀ p ∈ a.transfers.map writeTransferStatus, AtMost 330 p := fun p hp => by
      obtain ⟨r, -, rfl⟩ := List.mem_map.mp hp
      exact atMost_transferStatus r
    have hfindings : ∀ p ∈ a.findings.map writeReconcileFinding, AtMost 445 p := fun p hp => by
      obtain ⟨f, -, rfl⟩ := List.mem_map.mp hp
      exact atMost_finding f
    have hparts := (atMost_identifier a.target).cons <| (atMost_u8 a.targetClass.value).cons <|
      (atMost_u8 a.guarantee.value).cons <| (atMost_u64 a.term).cons <| (atMost_fixed a.incarnation).cons <|
      (atMost_u64 a.committedGeneration).cons <| (atMost_fixed a.committedDigest).cons <|
      (atMost_identifier a.committedArtifact).cons <| (atMost_boolean a.applyPrepared).cons <|
      (atMost_identifier a.preparedDeployment).cons <| (atMost_u64 a.preparedGeneration).cons <|
      (atMost_fixed a.preparedDigest).cons <| (atMost_u32 a.restartCount).cons <| (atMost_u32 a.applyRollbacks).cons <|
      (atMost_u32 a.transfers.length).cons <| AtMost.many htransfers <| (atMost_u32 a.findings.length).cons <|
      AtMost.many hfindings atMost_nil
    simp only [List.cons_append, List.nil_append]
    refine AtMost.mono hparts ?_
    have htransfersFew : a.transfers.length ≤ 64 := hbounded.1
    have hfindingsFew : a.findings.length ≤ min maxFindings kMaxFindingsInReport := le_min hbrief hbounded.2
    rw [List.length_map, List.length_map, largestReply, show kMaxTransfersInReport = 64 from rfl]
    linarith

/-- No other frame has more than fourteen fields. -/
theorem atMost_fields {parts : List (Result Bytes)} (hfew : parts.length ≤ 14) (h : ∀ p ∈ parts, AtMost 260 p) :
    AtMost (largestReply maxFindings) (concat parts) := by
  have hlargest : 260 * 14 ≤ largestReply maxFindings := by
    rw [largestReply, show kMaxTransfersInReport = 64 from rfl]
    omega
  exact (AtMost.all h).mono ((Nat.mul_le_mul_left _ hfew).trans hlargest)

theorem AtMost.field {n : ℕ} {part : Result Bytes} (h : AtMost n part) (hn : n ≤ 260) : AtMost 260 part := h.mono hn

theorem atMost_outcome (deployment : DeploymentId) (done : Bool) (code : ErrorCode) (detail : String) :
    AtMost (largestReply maxFindings) (writeOutcome deployment done code detail) := by
  refine AtMost.guarded (atMost_fields (by simp) ?_)
  simp only [List.forall_mem_cons]
  exact ⟨(atMost_identifier _).field (by decide), (atMost_boolean _).field (by decide), (atMost_u16 _).field (by decide),
    atMost_detail _, fun _ h => absurd h List.not_mem_nil⟩

/-- Whatever an answer says, its frame is no longer than that. -/
theorem atMost_reply {r : Reply} (hbrief : r.Brief maxFindings) : AtMost (largestReply maxFindings) r.encode := by
  have hid (value : Bytes) : AtMost 260 (encodeIdentifier value) := (atMost_identifier value).field (by decide)
  have hu8 (v : ℕ) : AtMost 260 (.ok (ByteWriter.u8 v)) := (atMost_u8 v).field (by decide)
  have hu16 (v : ℕ) : AtMost 260 (.ok (ByteWriter.u16 v)) := (atMost_u16 v).field (by decide)
  have hu32 (v : ℕ) : AtMost 260 (.ok (ByteWriter.u32 v)) := (atMost_u32 v).field (by decide)
  have hu64 (v : ℕ) : AtMost 260 (.ok (ByteWriter.u64 v)) := (atMost_u64 v).field (by decide)
  have hi64 (v : ℤ) : AtMost 260 (.ok (ByteWriter.i64 v)) := (atMost_i64 v).field (by decide)
  have hbool (b : Bool) : AtMost 260 (.ok (ByteWriter.boolean b)) := (atMost_boolean b).field (by decide)
  have hdigest (v : FixedBytes 32) : AtMost 260 (.ok v.1) := (atMost_fixed v).field (by decide)
  have hfixed (v : FixedBytes 16) : AtMost 260 (.ok v.1) := (atMost_fixed v).field (by decide)
  have hnone : ∀ p ∈ ([] : List (Result Bytes)), AtMost 260 p := fun _ h => absurd h List.not_mem_nil
  cases r with
  | helloAck a =>
    rw [Reply.encode, encodeHelloAck_eq]
    refine atMost_fields (by simp) ?_
    simp [hid, hu16, hu8, hu64, hfixed, hu32, hdigest]
  | authReject code detail =>
    refine AtMost.guarded (atMost_fields (by simp) ?_)
    simp [hu16, atMost_detail]
  | prepareAck a =>
    refine atMost_fields (by simp) ?_
    simp [hid, hu64, hdigest, hbool, hu8]
  | prepareReject a =>
    refine AtMost.guarded (atMost_fields (by simp) ?_)
    simp [hid, hu16, atMost_detail, hu8, hu64]
  | chunkAck a =>
    refine AtMost.guarded (atMost_fields (by simp) ?_)
    simp [hu64, hu16, atMost_detail]
  | transferResult a =>
    refine AtMost.guarded (atMost_fields (by simp) ?_)
    simp [hid, hu64, hbool, hu16, atMost_detail]
  | stageAck a => exact atMost_outcome _ _ _ _
  | applyPrepareAck a => exact atMost_outcome _ _ _ _
  | applyCommitAck a =>
    refine AtMost.guarded (atMost_fields (by simp) ?_)
    simp [hid, hbool, hu8, hu64, hdigest, hu16, atMost_detail]
  | applyAbortAck a => exact atMost_outcome _ _ _ _
  | deliveryAck a =>
    refine atMost_fields (by simp) ?_
    simp [hid, hu64, hdigest, hu8, hfixed, hi64, hbool]
  | deliveryNack a =>
    refine AtMost.guarded (atMost_fields (by simp) ?_)
    simp [hid, hu64, hdigest, hu16, hu8, hfixed, atMost_detail]
  | reconcileReport a => exact atMost_report hbrief
  | retireAck a =>
    refine atMost_fields (by simp) ?_
    simp [hid, hbool]
  | pong nonce =>
    refine atMost_fields (by simp) ?_
    simp [hu64]

end Longest

/-! A report that is as long as that. -/

def Exactly (n : ℕ) (part : Result Bytes) : Prop := ∃ bs, part = .ok bs ∧ bs.length = n

section Exactly

variable {n m : ℕ} {part : Result Bytes} {parts : List (Result Bytes)}

theorem exactly_ok {bs : Bytes} (h : bs.length = n) : Exactly n (.ok bs) := ⟨bs, rfl, h⟩

theorem Exactly.of_eq (h : Exactly n part) (hn : n = m) : Exactly m part := hn ▸ h

theorem Exactly.cons (h : Exactly n part) (hs : Exactly m (concat parts)) : Exactly (n + m) (concat (part :: parts)) := by
  obtain ⟨front, hfront, rfl⟩ := h
  obtain ⟨back, hback, rfl⟩ := hs
  refine ⟨front ++ back, ?_, List.length_append⟩
  rw [concat_eq_joined] at hback ⊢
  exact joined_cons_ok.mpr ⟨front, back, hfront, hback, rfl⟩

theorem Exactly.many {first : List (Result Bytes)} (h : ∀ p ∈ first, Exactly n p) (hs : Exactly m (concat parts)) :
    Exactly (n * first.length + m) (concat (first ++ parts)) := by
  induction first with
  | nil => simpa using hs
  | cons p rest ih =>
    obtain ⟨hp, hrest⟩ := List.forall_mem_cons.mp h
    refine (hp.cons (ih hrest)).of_eq ?_
    rw [List.length_cons, Nat.mul_add]
    omega

/-- An identifier of the greatest length. -/
def Longest (value : Bytes) : Prop := value.length = kMaxIdentifierLength

instance (value : Bytes) : Decidable (Longest value) := inferInstanceAs (Decidable (_ = _))

theorem exactly_longest {value : Bytes} (h : Longest value) : Exactly 132 (encodeIdentifier value) := by
  have hlength : value.length = 128 := h
  rw [encodeIdentifier, ByteWriter.string, if_neg (by rw [hlength]; decide), if_neg (by rw [hlength]; decide)]
  refine exactly_ok ?_
  rw [List.length_append, hlength, ByteWriter.u32, store_length]

/-- A report whose identifiers are all of the greatest length. -/
structure ReconcileReportMessage.Longest (a : ReconcileReportMessage) : Prop where
  target : ConfigurationFabric.Longest a.target
  committedArtifact : ConfigurationFabric.Longest a.committedArtifact
  preparedDeployment : ConfigurationFabric.Longest a.preparedDeployment
  transfers : ∀ r ∈ a.transfers, ConfigurationFabric.Longest r.deployment ∧ ConfigurationFabric.Longest r.key
  findings : ∀ f ∈ a.findings, ConfigurationFabric.Longest f.key ∧ ConfigurationFabric.Longest f.artifact ∧
    ConfigurationFabric.Longest f.deployment
  transfersFew : a.transfers.length ≤ kMaxTransfersInReport
  findingsFew : a.findings.length ≤ kMaxFindingsInReport

theorem ReconcileReportMessage.Longest.length {a : ReconcileReportMessage} (h : a.Longest) :
    Exactly (519 + a.transfers.length * 330 + a.findings.length * 445) (encodeReconcileReport a) := by
  have hnil : Exactly 0 (concat []) := exactly_ok rfl
  have hu8 (v : ℕ) : Exactly 1 (.ok (ByteWriter.u8 v)) := exactly_ok (store_length _ _)
  have hu32 (v : ℕ) : Exactly 4 (.ok (ByteWriter.u32 v)) := exactly_ok (store_length _ _)
  have hu64 (v : ℕ) : Exactly 8 (.ok (ByteWriter.u64 v)) := exactly_ok (store_length _ _)
  have hi64 (v : ℤ) : Exactly 8 (.ok (ByteWriter.i64 v)) := exactly_ok (store_length _ _)
  have hbool (b : Bool) : Exactly 1 (.ok (ByteWriter.boolean b)) := exactly_ok rfl
  have hfixed {n : ℕ} (v : FixedBytes n) : Exactly n (.ok v.1) := exactly_ok v.2
  have hstatuses : ∀ p ∈ a.transfers.map writeTransferStatus, Exactly 330 p := fun p hp => by
    obtain ⟨r, hr, rfl⟩ := List.mem_map.mp hp
    obtain ⟨hdeployment, hkey⟩ := h.transfers r hr
    have hparts := (exactly_longest hdeployment).cons <| (hu64 r.stream).cons <| (exactly_longest hkey).cons <|
      (hu64 r.generation).cons <| (hfixed r.digest).cons <| (hu64 r.bytesReceived).cons <|
      (hu64 r.totalBytes).cons <| (hbool r.verified).cons <| (hbool r.staged).cons hnil
    exact hparts.of_eq (by decide)
  have hfindings : ∀ p ∈ a.findings.map writeReconcileFinding, Exactly 445 p := fun p hp => by
    obtain ⟨f, hf, rfl⟩ := List.mem_map.mp hp
    obtain ⟨hkey, hartifact, hdeployment⟩ := h.findings f hf
    have hparts := (exactly_longest hkey).cons <| (hu64 f.generation).cons <| (hfixed f.digest).cons <|
      (exactly_longest hartifact).cons <| (exactly_longest hdeployment).cons <| (hu8 f.state.value).cons <|
      (hi64 f.recordedAtMillis).cons hnil
    exact hparts.of_eq (by decide)
  have hparts := (exactly_longest h.target).cons <| (hu8 a.targetClass.value).cons <|
    (hu8 a.guarantee.value).cons <| (hu64 a.term).cons <| (hfixed a.incarnation).cons <|
    (hu64 a.committedGeneration).cons <| (hfixed a.committedDigest).cons <|
    (exactly_longest h.committedArtifact).cons <| (hbool a.applyPrepared).cons <|
    (exactly_longest h.preparedDeployment).cons <| (hu64 a.preparedGeneration).cons <|
    (hfixed a.preparedDigest).cons <| (hu32 a.restartCount).cons <| (hu32 a.applyRollbacks).cons <|
    (hu32 a.transfers.length).cons <| Exactly.many hstatuses <| (hu32 a.findings.length).cons <|
    Exactly.many hfindings hnil
  rw [encodeReconcileReport, if_neg (by have := h.transfersFew; have := h.findingsFew; omega)]
  simp only [List.cons_append, List.nil_append]
  refine hparts.of_eq ?_
  rw [List.length_map, List.length_map]
  omega

end Exactly

/-! Chunks. -/

def chunkOverhead : ℕ := 28

theorem encodeChunk_ok {m : ChunkMessage} {payload : Bytes} (h : encodeChunk m = .ok payload) :
    payload.length = chunkOverhead + m.data.length ∧ m.data.length ≤ kAbsoluteMaxFieldBytes := by
  rw [encodeChunk] at h
  split at h
  · cases h
  have hparts : concat _ = .ok payload := h
  rw [concat_eq_joined] at hparts
  obtain ⟨_, rest₁, ⟨⟩, hrest₁, hpayload⟩ := joined_cons_ok.mp hparts
  obtain ⟨_, rest₂, ⟨⟩, hrest₂, rfl⟩ := joined_cons_ok.mp hrest₁
  obtain ⟨_, rest₃, ⟨⟩, hrest₃, rfl⟩ := joined_cons_ok.mp hrest₂
  obtain ⟨data, rest₄, hdata, hrest₄, rfl⟩ := joined_cons_ok.mp hrest₃
  cases hrest₄
  rw [ByteWriter.string] at hdata
  split at hdata
  · cases hdata
  split at hdata
  · cases hdata
  next hfield =>
    cases hdata
    refine ⟨?_, not_lt.mp hfield⟩
    rw [hpayload]
    simp only [List.length_append, ByteWriter.u64, ByteWriter.u32, store_length, List.length_nil, chunkOverhead]
    omega

/-- A chunk above the bound of a field ends the process; up to it, chunks are encoded. -/
theorem encodeChunk_of_le {m : ChunkMessage} (h : m.data.length ≤ kAbsoluteMaxFieldBytes) :
    ∃ payload, encodeChunk m = .ok payload := by
  have hchunk : m.data.length ≤ kMaxChunkPayloadBytes := h.trans (by decide)
  rw [encodeChunk, if_neg (not_lt.mpr hchunk), ByteWriter.string, if_neg (not_lt.mpr hchunk), if_neg (not_lt.mpr h)]
  exact ⟨_, rfl⟩

theorem encodeFrame_chunk {payload : Bytes} {ceiling : ℕ} : (∃ frame, encodeFrame .chunk 0 payload ceiling = .ok frame) ↔
    ceiling ≤ kAbsoluteMaxPayloadBytes ∧ payload.length ≤ ceiling := by
  rw [encodeFrame]
  split
  next hceiling => exact ⟨(fun ⟨_, h⟩ => by cases h), fun h => absurd h.1 (not_le.mpr hceiling)⟩
  next hceiling =>
    split
    next hlong => exact ⟨(fun ⟨_, h⟩ => by cases h), fun h => absurd h.2 (not_le.mpr hlong)⟩
    next hlong =>
      rw [if_neg (by decide)]
      exact ⟨fun _ => ⟨not_lt.mp hceiling, not_lt.mp hlong⟩, fun _ => ⟨_, rfl⟩⟩

end ConfigurationFabric
