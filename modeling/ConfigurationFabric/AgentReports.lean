import ConfigurationFabric.AgentAuthority
import ConfigurationFabric.AgentReplies
import ConfigurationFabric.FrameLengths

/-! How long the reports of an agent get: what a request asks for bounds them, and some run comes to that. -/

namespace ConfigurationFabric

open LittleEndian
open Program

namespace Agent

/-! Every report answers a request. -/

/-- A report has no more findings than its request asks for. -/
def Proportioned (a : Answered) : Prop :=
  ∀ report, a.reply = .reconcileReport report →
    ∃ m, a.request = .reconcileRequest m ∧ report.findings.length ≤ m.maxFindings

section Proportioned

variable {o : AgentOptions} {allowed : Env → Prop} {M : Machine} {w w' : World}

theorem proportioned_of_grounded {m : Message} {r : Reply} (h : Grounded w m r) :
    Proportioned ⟨m, r, w.files.current, w.mem⟩ := by
  rintro report rfl
  cases m with
  | reconcileRequest m =>
    obtain rfl : report = reconcileReport w.mem w.files m.maxFindings := h
    refine ⟨m, rfl, ?_⟩
    simp only [reconcileReport, List.length_drop]
    omega
  | _ => exact False.elim h

theorem proportioned_quiet (hq : Quiet w w') (h : ∀ a ∈ w.sent, Proportioned a) : ∀ a ∈ w'.sent, Proportioned a := by
  cases hq with
  | answer hgrounded =>
    intro a ha
    obtain ha | ha := List.mem_append.mp ha
    · exact h a ha
    · rw [List.mem_singleton.mp ha]
      exact proportioned_of_grounded hgrounded
  | _ => exact h

theorem proportioned_handled {failing : Prop} {I : World → Prop} (hstep : AStep failing I w w')
    (h : ∀ a ∈ w.sent, Proportioned a) : ∀ a ∈ w'.sent, Proportioned a := by
  cases hstep with
  | quiet _ hq => exact proportioned_quiet hq h
  | _ => exact h

theorem proportioned_inductive : Inductive o allowed Arriving (fun w => Sound w ∧ ∀ a ∈ w.sent, Proportioned a)
    (fun _ => True) where
  empty := ⟨sound_empty, by simp⟩
  kept h := (@sound_inductive o allowed).kept h.1
  readable h := h.1.ordered.readable
  restart h := ⟨(@sound_inductive o allowed).restart h.1, h.2⟩
  hello h hI := ⟨⟨((@sound_inductive o allowed).hello h.1 hI).1, h.2⟩, hI⟩
  receive hmeets _ h hI := ⟨⟨h.1.arrive hmeets, h.2⟩, hI⟩
  handled hstep h := ⟨h.1.handled hstep, proportioned_handled hstep h.2⟩
  recovered hstep h := ⟨h.1.recovered hstep, hstep.sent ▸ h.2⟩
  stable := stable_true
  started _ _ _ _ := trivial

/-- In every run, what is sent is as brief as what was asked for. -/
theorem brief_sent (h : Reachable o allowed Arriving M) {a : Answered} (ha : a ∈ M.world.sent) {n : ℕ}
    (hasked : ∀ m, a.request = .reconcileRequest m → m.maxFindings ≤ n) : a.reply.Brief n := by
  obtain ⟨⟨-, hproportioned⟩, -⟩ := proportioned_inductive.reachable h
  cases hreply : a.reply with
  | reconcileReport report =>
    obtain ⟨m, hm, hfew⟩ := hproportioned a ha report hreply
    exact hfew.trans (hasked m hm)
  | _ => trivial

end Proportioned

/-! A state with as much to report as there can be. -/

structure Crowded (s : AgentState) : Prop where
  target : Longest s.target
  committedArtifact : Longest s.committedArtifact
  preparedDeployment : Longest s.preparedDeployment
  transfers : kMaxTransfersInReport ≤ s.transfers.length
  statuses : ∀ e ∈ s.transfers, Longest e.2.deployment ∧ Longest e.2.key
  findings : kMaxFindingsInReport ≤ s.findings.length
  named : ∀ f ∈ s.findings, Longest f.key ∧ Longest f.artifact ∧ Longest f.deployment

theorem Crowded.length {s : AgentState} (h : Crowded s) (f : Files) (maxFindings : ℕ) :
    Exactly (largestReply maxFindings) (encodeReconcileReport (reconcileReport s f maxFindings)) := by
  have htransfers : (reconcileReport s f maxFindings).transfers.length = kMaxTransfersInReport := by
    rw [reconcileReport, List.length_map, List.length_take]
    exact min_eq_left h.transfers
  have hfindings : (reconcileReport s f maxFindings).findings.length = min maxFindings kMaxFindingsInReport := by
    have hmany := h.findings
    rw [reconcileReport, List.length_drop]
    omega
  have hlongest : (reconcileReport s f maxFindings).Longest := by
    refine ⟨h.target, h.committedArtifact, h.preparedDeployment, fun r hr => ?_, fun g hg => ?_, htransfers.le, ?_⟩
    · obtain ⟨e, he, rfl⟩ := List.mem_map.mp hr
      exact h.statuses e (List.mem_of_mem_take he)
    · exact h.named g (List.mem_of_mem_drop hg)
    · rw [hfindings]
      exact min_le_right _ _
  refine hlongest.length.of_eq ?_
  rw [htransfers, hfindings, largestReply]

/-! The run: a window for each of sixty-four keys in turn, committed, and one more that stays open. -/

def wide (i : ℕ) : Bytes := UInt8.ofNat (97 + (64 - i) / 10) :: UInt8.ofNat (97 + (64 - i) % 10) :: List.replicate 126 97

def wideOptions : AgentOptions := { target := wide 0, guarantee := .prepareCommitAbort }

def wideOffer (i : ℕ) : PrepareMessage where
  deployment := wide i
  key := wide i
  artifact := wide i
  generation := i + 1
  digest := Digest.ofContent [66]
  sizeBytes := 1
  schema := wide i
  schemaVersion := 1
  requirement := .allowPrepareCommit
  guarantee := .prepareCommitAbort
  authorityEpoch := 1
  attempt := 1
  stream := i + 1
  chunkBytes := 1

def wideWindow (i : ℕ) : List Message :=
  let p := wideOffer i
  [.prepare p, .chunk ⟨p.stream, 0, 0, [66]⟩, .transferComplete ⟨p.deployment, p.stream, p.digest, 1⟩,
    .stage ⟨p.deployment, p.stream, p.generation, p.digest⟩, .applyPrepare ⟨p.deployment, p.generation, p.digest⟩]

def wideCommit (i : ℕ) : Message :=
  .applyCommit ⟨(wideOffer i).deployment, (wideOffer i).generation, (wideOffer i).digest⟩

def crowding : List Message := (List.range 64).flatMap (fun i => wideWindow i ++ [wideCommit i]) ++ wideWindow 64

def crowded : Machine := (.start [] :: crowding.map (.message {})).foldl (advance wideOptions awake 200) {}

theorem wide_longest (i : ℕ) : Longest (wide i) := by
  rw [Longest, wide, List.length_cons, List.length_cons, List.length_replicate]
  rfl

theorem wide_valid : ∀ i < 65, isValidIdentifier (wide i) = true := by decide +kernel

theorem arrives_of_exactly {α : Type} {decode : Bytes → Result α} {encode : α → Result Bytes} {P : α → Prop}
    {make : α → Message} (h : Reading.Canonical decode P encode) {v : α} (hP : P v) {n : ℕ}
    (hencode : Exactly n (encode v)) (hmake : ∀ payload, (make v).decode payload = make <$> decode payload) :
    (make v).Arrives := by
  obtain ⟨payload, hpayload, -⟩ := hencode
  exact arrives_of h hP ⟨payload, hpayload⟩ hmake

theorem wideWindow_arrives {i : ℕ} (hi : i < 65) : ∀ m ∈ wideWindow i, m.Arrives := by
  have hid := wide_valid i hi
  have hdigestSet : (Digest.ofContent [66]).isSet = true := by decide +kernel
  have hset : i + 1 ≠ 0 := Nat.succ_ne_zero i
  have hlt : i + 1 < 2 ^ 64 := Nat.lt_trans (Nat.succ_lt_succ hi) (by decide)
  have hone : 1 < 2 ^ 64 := by decide
  have hzero : 0 < 2 ^ 64 := by decide
  have hschema : 1 < 2 ^ 32 := by decide
  have hchunk : 1 ≤ kMaxChunkPayloadBytes := by decide
  have hfield : 1 ≤ kAbsoluteMaxFieldBytes := by decide
  have hwide := exactly_longest (wide_longest i)
  have hnil : Exactly 0 (concat []) := exactly_ok rfl
  have hu8 (v : ℕ) : Exactly 1 (.ok (ByteWriter.u8 v)) := exactly_ok (store_length _ _)
  have hu32 (v : ℕ) : Exactly 4 (.ok (ByteWriter.u32 v)) := exactly_ok (store_length _ _)
  have hu64 (v : ℕ) : Exactly 8 (.ok (ByteWriter.u64 v)) := exactly_ok (store_length _ _)
  have hdigest (v : Digest) : Exactly 32 (.ok v.1) := exactly_ok v.2
  simp only [wideWindow, List.forall_mem_cons, List.not_mem_nil, false_imp_iff, implies_true, and_true]
  refine ⟨?_, ?_, ?_, ?_, ?_⟩
  · refine arrives_of_exactly prepare_canonical ?_ (hwide.cons <| hwide.cons <| hwide.cons <| (hu64 _).cons <|
      (hdigest _).cons <| (hu64 _).cons <| hwide.cons <| (hu32 _).cons <| (hu8 _).cons <| (hu8 _).cons <|
      (hu64 _).cons <| (hu64 _).cons <| (hu64 _).cons <| (hu32 _).cons <| (hu64 _).cons hnil) fun _ => rfl
    exact ⟨hid, hid, hid, hset, hlt, hdigestSet, one_ne_zero, hone, hid, hschema, one_ne_zero, hone, hone, hset, hlt,
      one_ne_zero, hchunk, hzero⟩
  · refine arrives_of chunk_canonical ?_ (encodeChunk_of_le hfield) fun _ => rfl
    exact ⟨hset, hlt, hzero, hzero, by simp⟩
  · refine arrives_of_exactly transferComplete_canonical ?_ (hwide.cons <| (hu64 _).cons <| (hdigest _).cons <|
      (hu64 _).cons hnil) fun _ => rfl
    exact ⟨hid, hlt, hone⟩
  · refine arrives_of_exactly stage_canonical ?_ (hwide.cons <| (hu64 _).cons <| (hu64 _).cons <|
      (hdigest _).cons hnil) fun _ => rfl
    exact ⟨hid, hlt, hset, hlt⟩
  · refine arrives_of_exactly applyPrepare_canonical ?_ (hwide.cons <| (hu64 _).cons <| (hdigest _).cons hnil)
      fun _ => rfl
    exact ⟨hid, hset, hlt⟩

theorem wideCommit_arrives {i : ℕ} (hi : i < 65) : (wideCommit i).Arrives := by
  have hu64 (v : ℕ) : Exactly 8 (.ok (ByteWriter.u64 v)) := exactly_ok (store_length _ _)
  have hdigest (v : Digest) : Exactly 32 (.ok v.1) := exactly_ok v.2
  refine arrives_of_exactly applyCommit_canonical ?_ ((exactly_longest (wide_longest i)).cons <| (hu64 _).cons <|
    (hdigest _).cons (exactly_ok rfl)) fun _ => rfl
  exact ⟨wide_valid i hi, Nat.succ_ne_zero i, Nat.lt_trans (Nat.succ_lt_succ hi) (by decide)⟩

theorem crowding_arrives : ∀ m ∈ crowding, m.Arrives := by
  intro m hm
  obtain hm | hm := List.mem_append.mp hm
  · obtain ⟨i, hi, hm⟩ := List.mem_flatMap.mp hm
    have hi : i < 65 := (List.mem_range.mp hi).trans (by decide)
    obtain hm | hm := List.mem_append.mp hm
    · exact wideWindow_arrives hi m hm
    · rw [List.mem_singleton.mp hm]
      exact wideCommit_arrives hi
  · exact wideWindow_arrives (by decide) m hm

theorem reachable_crowded : Reachable wideOptions (fun _ => True) Arriving crowded := by
  refine reachable_foldl (fun _ _ _ => ⟨trivial, trivial⟩) .empty (meetsAll (fun e he w => ?_) {})
  obtain rfl | he := List.mem_cons.mp he
  · trivial
  · obtain ⟨m, hm, rfl⟩ := List.mem_map.mp he
    exact crowding_arrives m hm

/-- The content that the run transfers is not hashed again for every window. -/
def hashKnown (content : Option Bytes) (expectedBytes : ℕ) : Result Digest :=
  if content = some [66] ∧ expectedBytes = 1 then .ok (.ofContent [66]) else hashFile content expectedBytes

theorem hashKnown_eq : hashKnown = hashFile := by
  funext content expectedBytes
  rw [hashKnown]
  split
  next h =>
    obtain ⟨rfl, rfl⟩ := h
    rfl
  · rfl

theorem crowded_state : crowded.running = true ∧ Crowded crowded.world.mem := by
  have hall : crowded.running = true ∧ Longest crowded.world.mem.target ∧
      Longest crowded.world.mem.committedArtifact ∧ Longest crowded.world.mem.preparedDeployment ∧
      kMaxTransfersInReport ≤ crowded.world.mem.transfers.length ∧
      (∀ e ∈ crowded.world.mem.transfers, Longest e.2.deployment ∧ Longest e.2.key) ∧
      kMaxFindingsInReport ≤ crowded.world.mem.findings.length ∧
      ∀ f ∈ crowded.world.mem.findings, Longest f.key ∧ Longest f.artifact ∧ Longest f.deployment := by
    delta crowded advance dispatch onTransferComplete hashStagingFile
    rw [← hashKnown_eq]
    decide +kernel
  obtain ⟨hrun, htarget, hartifact, hprepared, htransfers, hstatuses, hfindings, hnamed⟩ := hall
  exact ⟨hrun, htarget, hartifact, hprepared, htransfers, hstatuses, hfindings, hnamed⟩

theorem reconcileRequest_arrives {n : ℕ} (hn : n ≤ kMaxFindingsInReport) :
    (Message.reconcileRequest ⟨wide 0, 1, .zero 16, n⟩).Arrives := by
  have hu32 (v : ℕ) : Exactly 4 (.ok (ByteWriter.u32 v)) := exactly_ok (store_length _ _)
  have hu64 (v : ℕ) : Exactly 8 (.ok (ByteWriter.u64 v)) := exactly_ok (store_length _ _)
  have hfixed (v : FixedBytes 16) : Exactly 16 (.ok v.1) := exactly_ok v.2
  refine arrives_of_exactly reconcileRequest_canonical ?_ ((exactly_longest (wide_longest 0)).cons <|
    (hu64 _).cons <| (hfixed _).cons <| (hu32 _).cons (exactly_ok rfl)) fun _ => rfl
  exact ⟨wide_valid 0 (by decide), one_ne_zero, Nat.one_lt_two_pow (by decide), hn⟩

/-- An agent that comes to a crowded state sends a report as long as what is asked for may make it. -/
theorem longest_sent {o : AgentOptions} {M : Machine} (h : Reachable o (fun _ => True) Arriving M)
    (hrun : M.running = true) (hcrowded : Crowded M.world.mem) {n : ℕ} (hn : n ≤ kMaxFindingsInReport) :
    ∃ M', Reachable o (fun _ => True) Arriving M' ∧ ∃ a ∈ M'.world.sent, ∃ m, a.request = .reconcileRequest m ∧
      m.maxFindings = n ∧ Exactly (largestReply n) a.reply.encode := by
  obtain ⟨w, running⟩ := M
  obtain rfl : running = true := hrun
  let m : ReconcileRequestMessage := ⟨wide 0, 1, .zero 16, n⟩
  have harrives : (Message.reconcileRequest m).Arrives := reconcileRequest_arrives hn
  have hsteps : (onReconcileRequest m).Steps Connected Any (fun _ w' => w' = (w.receive (.reconcileRequest m)).answer
      (.reconcileRequest m) (.reconcileReport (reconcileReport w.mem w.files n))) (w.receive (.reconcileRequest m)) := by
    simp only [onReconcileRequest, Prog.steps_bind, Prog.steps_read]
    exact garbles_send rfl
  have hconnected : Connected {} := rfl
  obtain ⟨r, w', hexec⟩ := Prog.Exec.complete hconnected (onReconcileRequest m) (w.receive (.reconcileRequest m))
  have hanswered := (hsteps.exec hexec).2 r rfl
  have hstep : Step o (fun _ => True) ⟨w, true⟩ (.message {} (.reconcileRequest m)) ⟨w', true⟩ :=
    .message harrives.valid (hexec.mono fun _ _ => trivial)
  have hmeets : Arriving w (.message {} (.reconcileRequest m)) := harrives
  refine ⟨_, h.step hmeets hstep, ⟨.reconcileRequest m, .reconcileReport (reconcileReport w.mem w.files n),
    w.files.current, w.mem⟩, ?_, m, rfl, rfl, hcrowded.length w.files n⟩
  rw [hanswered]
  exact List.mem_append_right _ (List.mem_singleton_self _)

end Agent

end ConfigurationFabric
