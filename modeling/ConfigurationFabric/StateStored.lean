import ConfigurationFabric.StateRecords

namespace ConfigurationFabric

open LittleEndian
open Reading
open ByteReader

/-! Maps that are read back. -/

section Maps

variable {κ α : Type} [LT κ] {key : α → κ} {r : ByteReader α} {m : SortedMap κ α}

/-- The map is in order, and each entry stands under the key of its record, which came from the reader. -/
structure Kept (key : α → κ) (r : ByteReader α) (m : SortedMap κ α) : Prop where
  sorted : m.Sorted
  keyed : ∀ e ∈ m, e.1 = key e.2
  came : ∀ e ∈ m, Came r e.2

theorem kept_nil : Kept key r [] := by
  constructor
  · exact List.Pairwise.nil
  · simp
  · simp

variable [DecidableEq κ]

theorem Kept.erase (h : Kept key r m) (k : κ) : Kept key r (m.erase k) where
  sorted := SortedMap.sorted_erase h.sorted k
  keyed e he := h.keyed e (SortedMap.mem_erase he).1
  came e he := h.came e (SortedMap.mem_erase he).1

variable [DecidableRel (fun a b : κ => a < b)] [IsTrans κ (· < ·)] [Std.Trichotomous (α := κ) (· < ·)]

theorem Kept.insert (h : Kept key r m) {v : α} (hv : Came r v) : Kept key r (m.insert (key v) v) where
  sorted := SortedMap.sorted_insert h.sorted _ _
  keyed e he := by
    obtain rfl | he := SortedMap.mem_insert he
    · rfl
    · exact h.keyed e he
  came e he := by
    obtain rfl | he := SortedMap.mem_insert he
    · exact hv
    · exact h.came e he

end Maps

section Emplace

variable {κ α : Type} [LT κ] [DecidableEq κ] [DecidableRel (fun a b : κ => a < b)] [IsTrans κ (· < ·)]
  [Std.Irrefl (α := κ) (· < ·)]

theorem emplace_last {m : SortedMap κ α} {e : κ × α} (h : ∀ d ∈ m, d.1 < e.1) : emplace m e.1 e.2 = m ++ [e] := by
  have hnone : m.find e.1 = none := by
    rw [Option.eq_none_iff_forall_ne_some]
    intro v hv
    exact Std.Irrefl.irrefl (r := ((· < ·) : κ → κ → Prop)) e.1 (h (e.1, v) (SortedMap.find_mem hv))
  unfold emplace
  rw [hnone]
  simp only [Option.isSome_none, Bool.false_eq_true, if_false]
  induction m with
  | nil => rfl
  | cons d m ih =>
    obtain ⟨hd, hm⟩ := List.forall_mem_cons.mp h
    have hne : e.1 ≠ d.1 := by
      intro heq
      rw [heq] at hd
      exact Std.Irrefl.irrefl (r := ((· < ·) : κ → κ → Prop)) d.1 hd
    have hlt : ¬ e.1 < d.1 := by
      intro hlt
      exact Std.Irrefl.irrefl (r := ((· < ·) : κ → κ → Prop)) _ (IsTrans.trans _ _ _ hlt hd)
    rw [SortedMap.find_cons, if_neg hne] at hnone
    rw [SortedMap.insert, if_neg hne, if_neg hlt, ih hm hnone]
    rfl

theorem foldl_emplace {key : α → κ} {front m : SortedMap κ α} (hs : (front ++ m).Pairwise fun a b => a.1 < b.1)
    (hk : ∀ e ∈ m, e.1 = key e.2) :
    (m.map Prod.snd).foldl (fun m v => emplace m (key v) v) front = front ++ m := by
  induction m generalizing front with
  | nil => simp
  | cons e m ih =>
    obtain ⟨he, hm⟩ := List.forall_mem_cons.mp hk
    have hlast : ∀ d ∈ front, d.1 < e.1 := by
      intro d hd
      exact (List.pairwise_append.mp hs).2.2 d hd e List.mem_cons_self
    rw [List.map_cons, List.foldl_cons, ← he, emplace_last hlast, ih (by simpa using hs) hm]
    simp

theorem Kept.emplaced {key : α → κ} {r : ByteReader α} {m : SortedMap κ α} (h : Kept key r m) :
    (m.map Prod.snd).foldl (fun m v => emplace m (key v) v) [] = m := by
  have hsorted : (([] : SortedMap κ α) ++ m).Pairwise fun a b => a.1 < b.1 := h.sorted
  exact foldl_emplace hsorted h.keyed

end Emplace

/-! States that are read back. -/

instance (n : ℕ) : IsTrans (FixedBytes n) (· < ·) :=
  ⟨fun a _ c h₁ h₂ => (IsTrans.trans _ _ _ h₁ h₂ : a.1 < c.1)⟩

instance (n : ℕ) : Std.Irrefl (α := FixedBytes n) (· < ·) :=
  ⟨fun a h => Std.Irrefl.irrefl (r := ((· < ·) : Bytes → Bytes → Prop)) a.1 h⟩

instance (n : ℕ) : Std.Trichotomous (α := FixedBytes n) (· < ·) :=
  ⟨fun a b h₁ h₂ => Subtype.ext (Std.Trichotomous.trichotomous (r := ((· < ·) : Bytes → Bytes → Prop)) a.1 b.1 h₁ h₂)⟩

theorem came_unsigned {width n : ℕ} (h : n < 256 ^ width) : Came (unsigned width) n :=
  ⟨_, _, reads_unsigned h []⟩

theorem came_empty (what : String) : Came (optionalIdentifier (parseId what)) [] :=
  ⟨[0, 0, 0, 0], [], rfl⟩

theorem came_optional {what : String} {v : Bytes} (h : Came (identifier (parseId what)) v) :
    Came (optionalIdentifier (parseId what)) v := by
  obtain ⟨bs, rest, h⟩ := h
  obtain ⟨raw, bs', hraw, hparse⟩ := bind_ok.mp h
  have hne : raw ≠ [] := by
    rintro rfl
    cases (lift_ok.mp hparse).1
  refine ⟨bs, rest, bind_ok.mpr ⟨raw, bs', hraw, ?_⟩⟩
  rwa [if_neg hne]

theorem came_nonZero {message : String} {v : ℕ} (h : Came (nonZero message) v) : Came u64 v := by
  obtain ⟨bs, rest, h⟩ := h
  obtain ⟨raw, bs', hraw, h⟩ := bind_ok.mp h
  split at h
  · obtain ⟨_, _, hfail, -⟩ := bind_ok.mp h
    exact absurd hfail fail_ne
  · obtain ⟨rfl, -⟩ := pure_ok.mp h
    exact ⟨bs, bs', hraw⟩

theorem reads_count {bound n : ℕ} (message : String) (h : n ≤ bound) (hb : bound < 256 ^ 4) :
    ∀ out, (.ok (ByteWriter.u32 n) : Result Bytes) = .ok out → Reads (readCount bound message) out n := by
  rintro _ ⟨⟩ rest
  refine bind_ok.mpr ⟨n, rest, reads_unsigned (by omega) rest, ?_⟩
  rw [if_neg (by omega)]
  rfl

theorem reads_version (what : String) :
    ∀ out, (.ok (ByteWriter.u16 kStateFormatVersion) : Result Bytes) = .ok out → Reads (readVersion what) out () := by
  rintro _ ⟨⟩ rest
  exact bind_ok.mpr ⟨kStateFormatVersion, rest, reads_unsigned (by decide) rest, rfl⟩

theorem Kept.reads {κ α : Type} [LT κ] {key : α → κ} {r : ByteReader α} {m : SortedMap κ α}
    {write : α → Result Bytes} (h : Kept key r m) (hr : ReadsBack r write) :
    Leads (times m.length r) (m.map fun e => write e.2) (pure (m.map Prod.snd)) := by
  have hcame : ∀ v ∈ m.map Prod.snd, ∀ out, write v = .ok out → Reads r out v := by
    intro v hv
    obtain ⟨e, he, rfl⟩ := List.mem_map.mp hv
    exact (h.came e he).back hr
  have hreads := reads_times hcame
  rwa [List.length_map, List.map_map] at hreads

/-- Whatever the step reads, assigning it keeps `P`. -/
def Assigns {State : Type} (P : State → Prop) (step : FieldStep State) : Prop :=
  ∀ bs f bs', step bs = .ok (f, bs') → ∀ s, P s → P (f s)

theorem assigns_field {State α : Type} {P : State → Prop} {read : ByteReader α} {assign : α → State → State}
    (h : ∀ v, Came read v → ∀ s, P s → P (assign v s)) : Assigns P (field read assign) := by
  intro bs f bs' hstep s hs
  rw [field] at hstep
  split at hstep
  · cases hstep
  case h_2 v rest hread =>
    obtain ⟨rfl, -⟩ := Prod.mk.inj (Except.ok.inj hstep)
    exact h v ⟨bs, rest, hread⟩ s hs

theorem applyScript_assigns {State : Type} {P : State → Prop} {fields : List (FieldStep State)}
    (h : ∀ step ∈ fields, Assigns P step) {s : State} (hs : P s) (payload : Bytes) :
    P (applyScript fields s payload).2 := by
  rw [applyScript_state]
  exact Script.run_preserves h hs payload

/-- Every part of the state came from the reader that reads it back. -/
structure AgentState.Stored (s : AgentState) : Prop where
  target : Came (optionalIdentifier parseTargetId) s.target
  term : Came u64 s.term
  restartCount : Came u32 s.restartCount
  epoch : Came u64 s.lastControllerEpoch
  node : Came (optionalIdentifier parseNodeId) s.lastControllerNode
  generation : Came u64 s.committedGeneration
  artifact : Came (optionalIdentifier parseArtifactId) s.committedArtifact
  preparedDeployment : Came (optionalIdentifier parseDeploymentId) s.preparedDeployment
  preparedGeneration : Came u64 s.preparedGeneration
  activations : Came u64 s.activations
  duplicates : Came u64 s.duplicatesSuppressed
  stale : Came u64 s.staleOffersRefused
  rejections : Came u64 s.digestRejections
  rollbacks : Came u64 s.applyRollbacks
  transfers : Kept (·.deployment) readTransferRecord s.transfers
  findings : ∀ f ∈ s.findings, Came readAppliedFinding f
  bounded : s.findings.length ≤ kMaxFindingsPerAgent

namespace AgentStateCodec

theorem stored_initial : AgentState.Stored {} := by
  constructor
  case transfers => exact kept_nil
  case findings => simp
  case bounded => decide
  case target | node | artifact | preparedDeployment => exact came_empty _
  all_goals exact came_unsigned (by decide)

theorem read_encodeSnapshot {s : AgentState} (h : s.Stored) {out : Bytes} (hout : encodeSnapshot s = .ok out) :
    readSnapshot out = .ok (s, []) := by
  unfold encodeSnapshot at hout
  split at hout
  · cases hout
  case isFalse hbound =>
  have hfour : kMaxSnapshotEntries < 256 ^ 4 := by decide
  have hcount : kMaxFindingsPerAgent < 256 ^ 4 := by decide
  rw [concat_eq_joined] at hout
  refine (Leads.whole (k := do requireEnd; return s) ?_ hout).trans rfl
  simp only [List.append_assoc, List.cons_append, List.nil_append]
  apply Leads.cons (reads_version _)
  apply Leads.cons (h.target.back (optionalIdentifier_back _))
  apply Leads.cons (reads_enumeration _ TargetClass.ofValue_value _)
  apply Leads.cons (reads_enumeration _ ApplyGuarantee.ofValue_value _)
  apply Leads.cons (h.term.back (unsigned_back _))
  apply Leads.cons (reads_fixedBytes _)
  apply Leads.cons (h.restartCount.back (unsigned_back _))
  apply Leads.cons (h.epoch.back (unsigned_back _))
  apply Leads.cons (reads_fixedBytes _)
  apply Leads.cons (h.node.back (optionalIdentifier_back _))
  apply Leads.cons (h.generation.back (unsigned_back _))
  apply Leads.cons (reads_fixedBytes _)
  apply Leads.cons (h.artifact.back (optionalIdentifier_back _))
  apply Leads.cons (reads_boolean _)
  apply Leads.cons (h.preparedDeployment.back (optionalIdentifier_back _))
  apply Leads.cons (h.preparedGeneration.back (unsigned_back _))
  apply Leads.cons (reads_fixedBytes _)
  apply Leads.cons (h.activations.back (unsigned_back _))
  apply Leads.cons (h.duplicates.back (unsigned_back _))
  apply Leads.cons (h.stale.back (unsigned_back _))
  apply Leads.cons (h.rejections.back (unsigned_back _))
  apply Leads.cons (h.rollbacks.back (unsigned_back _))
  apply Leads.cons (reads_count _ (by omega) hfour)
  apply Leads.append (h.transfers.reads readTransferRecord_part.back)
  apply Leads.cons (reads_count _ h.bounded hcount)
  have hfindings := reads_times fun f hf => (h.findings f hf).back readAppliedFinding_part.back
  rw [← List.append_nil (s.findings.map writeAppliedFinding)]
  apply Leads.append hfindings
  rw [h.transfers.emplaced]
  exact leads_refl _

theorem stored_assigns {type : JournalRecordType} {fields : List (FieldStep AgentState)}
    (h : steps type = some fields) : ∀ step ∈ fields, Assigns AgentState.Stored step := by
  cases type <;> simp only [steps, Option.some.injEq, reduceCtorEq] at h <;> subst h <;>
    simp only [List.forall_mem_cons, List.not_mem_nil, false_implies, implies_true, and_true]
  case agentIdentity =>
    exact ⟨assigns_field fun v hv s hs => { hs with target := came_optional hv },
      assigns_field fun v hv s hs => { hs with }, assigns_field fun v hv s hs => { hs with },
      assigns_field fun v hv s hs => { hs with term := came_nonZero hv },
      assigns_field fun v hv s hs => { hs with }, assigns_field fun v hv s hs => { hs with restartCount := hv }⟩
  case agentTargetCommit =>
    refine ⟨assigns_field fun v hv s hs => { hs with generation := hv }, assigns_field fun v hv s hs => { hs with },
      assigns_field fun v hv s hs => ?_⟩
    split
    · exact hs
    · exact { hs with artifact := hv }
  case agentTransferUpsert => exact assigns_field fun v hv s hs => { hs with transfers := hs.transfers.insert hv }
  case agentTransferRemove => exact assigns_field fun v _ s hs => { hs with transfers := hs.transfers.erase v }
  case agentFindingUpsert =>
    refine assigns_field fun v hv s hs => { hs with findings := ?_, bounded := ?_ }
    · intro f hf
      obtain rfl | hf := AgentState.mem_insertFinding hf
      · exact hv
      · exact hs.findings f hf
    · exact AgentState.length_insertFinding hs.bounded
  case agentApplyPrepared =>
    exact ⟨assigns_field fun v hv s hs => { hs with preparedDeployment := came_optional hv },
      assigns_field fun v hv s hs => { hs with preparedGeneration := hv },
      assigns_field fun v hv s hs => { hs with }⟩
  case agentApplyResolved =>
    refine ⟨assigns_field fun v hv s hs => { hs with preparedDeployment := ?_, preparedGeneration := ?_ },
      assigns_field fun v hv s hs => { hs with activations := hv }⟩
    · exact came_empty _
    · exact (came_unsigned (by decide) : Came (unsigned 8) 0)
  case agentControllerFence =>
    refine ⟨assigns_field fun v hv s hs => { hs with epoch := hv }, assigns_field fun v hv s hs => { hs with },
      assigns_field fun v hv s hs => ?_⟩
    split
    · exact hs
    · exact { hs with node := hv }
  case agentRollbackNote =>
    exact ⟨assigns_field fun v hv s hs => { hs with rollbacks := hv },
      assigns_field fun v hv s hs => { hs with duplicates := hv },
      assigns_field fun v hv s hs => { hs with stale := hv },
      assigns_field fun v hv s hs => { hs with rejections := hv }⟩
  case note => exact assigns_field fun _ _ s hs => hs

end AgentStateCodec

/-- Every part of the state came from the reader that reads it back. -/
structure ControllerState.Stored (s : ControllerState) : Prop where
  node : Came (optionalIdentifier parseNodeId) s.nodeId
  epoch : Came u64 s.epoch
  started : Came i64 s.startedAtMillis
  targets : Kept (·.id) readTargetRuntime s.targets
  deliveries : Kept (·.id) readDeliveryRecord s.deliveries
  artifacts : Kept (·.digest) embeddedMetadata s.artifacts

namespace ControllerStateCodec

theorem stored_initial : ControllerState.Stored {} where
  node := came_empty _
  epoch := came_unsigned (by decide)
  started := ⟨[0, 0, 0, 0, 0, 0, 0, 0], [], rfl⟩
  targets := kept_nil
  deliveries := kept_nil
  artifacts := kept_nil

/-- What is left to read once the deliveries of `s` have been read. -/
def readArtifacts (s : ControllerState) : ByteReader ControllerState := do
  let artifactCount ← readCount kMaxSnapshotEntries "controller state snapshot declares too many artifacts"
  let artifacts ← times artifactCount embeddedMetadata
  requireEnd
  return { s with artifacts := artifacts.foldl (fun m r => emplace m r.digest r) [] }

def artifactParts (s : ControllerState) : List (Result Bytes) :=
  .ok (ByteWriter.u32 s.artifacts.length) :: s.artifacts.map fun e => writeEmbeddedMetadata e.2

theorem encodeSnapshot_split {s : ControllerState} (h : s.Stored) {out : Bytes} (hout : encodeSnapshot s = .ok out) :
    ∃ front back, out = front ++ back ∧ joined (artifactParts s) = .ok back ∧
      readSnapshot out = readArtifacts s back := by
  unfold encodeSnapshot at hout
  split at hout
  · cases hout
  case isFalse hbound =>
  have hfour : kMaxSnapshotEntries < 256 ^ 4 := by decide
  rw [concat_eq_joined] at hout
  rw [List.append_assoc _ [_]] at hout
  obtain ⟨front, back, hfront, hback, rfl⟩ := joined_append_ok.mp hout
  refine ⟨front, back, rfl, hback, ?_⟩
  refine (?_ : Leads readSnapshot _ (readArtifacts s)) front hfront back
  simp only [List.append_assoc, List.cons_append, List.nil_append]
  apply Leads.cons (reads_version _)
  apply Leads.cons (h.node.back (optionalIdentifier_back _))
  apply Leads.cons (h.epoch.back (unsigned_back _))
  apply Leads.cons (reads_fixedBytes _)
  apply Leads.cons (h.started.back i64_back)
  apply Leads.cons (reads_count _ (by omega) hfour)
  apply Leads.append (h.targets.reads readTargetRuntime_part.back)
  apply Leads.cons (reads_count _ (by omega) hfour)
  rw [← List.append_nil (s.deliveries.map fun e => writeDeliveryRecord e.2)]
  apply Leads.append (h.deliveries.reads readDeliveryRecord_part.back)
  rw [h.targets.emplaced, h.deliveries.emplaced]
  exact leads_refl _

theorem read_encodeSnapshot {s : ControllerState} (h : s.Stored) (hle : s.artifacts.length ≤ kMaxSnapshotEntries)
    {out : Bytes} (hout : encodeSnapshot s = .ok out) : readSnapshot out = .ok (s, []) := by
  obtain ⟨front, back, rfl, hback, hread⟩ := encodeSnapshot_split h hout
  rw [hread]
  refine (Leads.whole (k := do requireEnd; return s) ?_ hback).trans rfl
  unfold artifactParts
  apply Leads.cons (reads_count _ hle (by decide))
  rw [← List.append_nil (s.artifacts.map fun e => writeEmbeddedMetadata e.2)]
  apply Leads.append (h.artifacts.reads embeddedMetadata_part.back)
  rw [h.artifacts.emplaced]
  exact leads_refl _

theorem length_artifactParts {artifacts : SortedMap Digest ArtifactMetadata} {back : Bytes}
    (h : joined (artifacts.map fun e => writeEmbeddedMetadata e.2) = .ok back) : artifacts.length ≤ back.length := by
  induction artifacts generalizing back with
  | nil => simp
  | cons e es ih =>
    obtain ⟨first, rest, hfirst, hrest, rfl⟩ := joined_cons_ok.mp h
    have hle := ih hrest
    have hpos : 1 ≤ first.length := by
      obtain ⟨encoded, -, hstring⟩ := Result.bind_eq_ok.mp hfirst
      unfold ByteWriter.string at hstring
      split at hstring
      · cases hstring
      obtain rfl := Except.ok.inj hstring
      simp [ByteWriter.u32]
      omega
    rw [List.length_append, List.length_cons]
    omega

/-- A snapshot of too many artifacts is written but never read. -/
theorem readSnapshot_oversized {s : ControllerState} (h : s.Stored) (hgt : kMaxSnapshotEntries < s.artifacts.length)
    {out : Bytes} (hout : encodeSnapshot s = .ok out) (hlen : out.length ≤ kMaxSnapshotBytes)
    {t : ControllerState} {rest : Bytes} : readSnapshot out ≠ .ok (t, rest) := by
  obtain ⟨front, back, rfl, hback, hread⟩ := encodeSnapshot_split h hout
  obtain ⟨count, parts, hcount, hparts, rfl⟩ := joined_cons_ok.mp hback
  obtain rfl := Except.ok.inj hcount
  have hle := length_artifactParts hparts
  have hlt : s.artifacts.length < 256 ^ 4 := by
    have hbound : kMaxSnapshotBytes = 67108864 := rfl
    simp only [List.length_append] at hlen
    omega
  rw [hread]
  intro hok
  obtain ⟨n, _, hn, -⟩ := bind_ok.mp hok
  obtain ⟨m, _, hm, hn⟩ := bind_ok.mp hn
  have hm' := (reads_unsigned hlt parts).symm.trans hm
  obtain ⟨rfl, -⟩ := Prod.mk.inj (Except.ok.inj hm')
  rw [if_pos hgt] at hn
  obtain ⟨_, _, hfail, -⟩ := bind_ok.mp hn
  exact fail_ne hfail

theorem contact_of_came {v : TargetRuntime} (h : Came readTargetRuntime v) :
    v.contactEstablishedThisProcess = false := by
  obtain ⟨-, -, -, -, -, -, -, -, -, -, hcontact⟩ := (readTargetRuntime_part.came h).1
  exact hcontact

theorem setTarget_stored {s : ControllerState} (h : s.Stored) {v : TargetRuntime} (hv : Came readTargetRuntime v) :
    setTarget v s = { s with targets := s.targets.insert v.id v } := by
  have hcontact : ((s.targets.find v.id).map (·.contactEstablishedThisProcess)).getD
      v.contactEstablishedThisProcess = v.contactEstablishedThisProcess := by
    cases hfind : s.targets.find v.id with
    | none => rfl
    | some old =>
      have hold := contact_of_came (h.targets.came _ (SortedMap.find_mem hfind))
      rw [contact_of_came hv]
      exact hold
  unfold setTarget
  rw [hcontact]

theorem stored_assigns {type : JournalRecordType} {fields : List (FieldStep ControllerState)}
    (h : steps type = some fields) : ∀ step ∈ fields, Assigns ControllerState.Stored step := by
  cases type <;> simp only [steps, Option.some.injEq, reduceCtorEq] at h <;> subst h <;>
    simp only [List.forall_mem_cons, List.not_mem_nil, false_implies, implies_true, and_true]
  case controllerIdentity =>
    exact ⟨assigns_field fun v hv s hs => { hs with node := came_optional hv },
      assigns_field fun v hv s hs => { hs with epoch := hv }, assigns_field fun v hv s hs => { hs with },
      assigns_field fun v hv s hs => { hs with started := hv }⟩
  case controllerEpoch => exact assigns_field fun v hv s hs => { hs with epoch := came_nonZero hv }
  case targetUpsert =>
    refine assigns_field fun v hv s hs => ?_
    rw [setTarget_stored hs hv]
    exact { hs with targets := hs.targets.insert hv }
  case targetRemove => exact assigns_field fun v _ s hs => { hs with targets := hs.targets.erase v }
  case deliveryUpsert => exact assigns_field fun v hv s hs => { hs with deliveries := hs.deliveries.insert hv }
  case deliveryRemove => exact assigns_field fun v _ s hs => { hs with deliveries := hs.deliveries.erase v }
  case artifactUpsert => exact assigns_field fun v hv s hs => { hs with artifacts := hs.artifacts.insert hv }
  case artifactRemove => exact assigns_field fun v _ s hs => { hs with artifacts := hs.artifacts.erase v }
  case note => exact assigns_field fun _ _ s hs => hs

end ControllerStateCodec

end ConfigurationFabric
