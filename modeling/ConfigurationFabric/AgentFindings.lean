import ConfigurationFabric.AgentAuthority
import ConfigurationFabric.AgentFencing

/-! The table of findings: which activations it still has a record of. -/

namespace ConfigurationFabric

open LittleEndian
open Program

namespace Agent

def SameEntry (f g : AppliedFinding) : Prop := f.key = g.key ∧ f.digest = g.digest

/-- An activation of what the pointer names. -/
def Recorded (findings : List AppliedFinding) (key : ConfigKey) (v : PointerValue) : Prop :=
  ∃ f ∈ findings, f.key = key ∧ f.generation = v.generation ∧ f.digest = v.digest ∧ isActivationState f.state = true

def OfferedKey (w : World) (key : ConfigKey) : Prop := ∃ q, Message.prepare q ∈ w.received ∧ q.key = key

/-- Every live pointer of a key has its record. -/
def Complete (w : World) : Prop :=
  ∀ key v, OfferedKey w key → w.files.current.lookup (liveKeyDirectory key) = some (.pointer v) →
    Recorded w.mem.findings key v

/-! The table. -/

/-- The entry that makes room for a new one. -/
def displaced (findings : List AppliedFinding) (key : ConfigKey) (digest : Digest) : Option AppliedFinding :=
  if findings.any fun f => f.key == key && f.digest == digest then none
  else if findings.length ≥ kMaxFindingsPerAgent then findings.head?
  else none

section Table

variable {f g : AppliedFinding} {fs : List AppliedFinding}

theorem any_sameEntry : (fs.any fun g => g.key == f.key && g.digest == f.digest) = true ↔ ∃ g ∈ fs, SameEntry g f := by
  simp [List.any_eq_true, SameEntry]

theorem mem_replaceFinding_self (h : ∃ g ∈ fs, SameEntry g f) : f ∈ AgentState.replaceFinding f fs := by
  obtain ⟨g, hg, hsame⟩ := h
  induction fs with
  | nil => cases hg
  | cons x xs ih =>
    rw [AgentState.replaceFinding]
    split
    case isTrue => exact List.mem_cons_self
    case isFalse hne =>
      obtain rfl | hg := List.mem_cons.mp hg
      · exact absurd hsame hne
      · exact List.mem_cons_of_mem _ (ih hg)

/-- Only the entry of the same key and digest goes. -/
theorem mem_replaceFinding_of_ne (hg : g ∈ fs) (hne : ¬ SameEntry g f) : g ∈ AgentState.replaceFinding f fs := by
  induction fs with
  | nil => cases hg
  | cons x xs ih =>
    rw [AgentState.replaceFinding]
    split
    case isTrue hsame =>
      obtain rfl | hg := List.mem_cons.mp hg
      · exact absurd hsame hne
      · exact List.mem_cons_of_mem _ hg
    case isFalse =>
      obtain rfl | hg := List.mem_cons.mp hg
      · exact List.mem_cons_self
      · exact List.mem_cons_of_mem _ (ih hg)

theorem mem_insertFinding_self : f ∈ AgentState.insertFinding f fs := by
  rw [AgentState.insertFinding]
  split
  case isTrue hany => exact mem_replaceFinding_self (any_sameEntry.mp hany)
  case isFalse =>
    split
    · exact List.mem_append_right _ (List.mem_singleton_self f)
    · exact List.mem_append_right _ (List.mem_singleton_self f)

theorem mem_insertFinding_of_ne (hg : g ∈ fs) (hne : ¬ SameEntry g f) (hkept : displaced fs f.key f.digest ≠ some g) :
    g ∈ AgentState.insertFinding f fs := by
  rw [AgentState.insertFinding]
  rw [displaced] at hkept
  split
  · exact mem_replaceFinding_of_ne hg hne
  case isFalse hany =>
    rw [if_neg hany] at hkept
    split
    case isTrue hfull =>
      rw [if_pos hfull] at hkept
      refine List.mem_append_left _ ?_
      cases fs with
      | nil => cases hg
      | cons x xs =>
        obtain rfl | hg := List.mem_cons.mp hg
        · exact absurd rfl hkept
        · exact hg
    case isFalse => exact List.mem_append_left _ hg

/-- One entry for a key and digest. -/
def Distinct (fs : List AppliedFinding) : Prop := fs.Pairwise fun f g => ¬ SameEntry f g

theorem distinct_replaceFinding (h : Distinct fs) : Distinct (AgentState.replaceFinding f fs) := by
  induction fs with
  | nil => exact .nil
  | cons x xs ih =>
    obtain ⟨hx, hxs⟩ := List.pairwise_cons.mp h
    rw [AgentState.replaceFinding]
    split
    case isTrue hsame =>
      refine List.pairwise_cons.mpr ⟨fun g hg hfg => hx g hg ⟨hsame.1.trans hfg.1, hsame.2.trans hfg.2⟩, hxs⟩
    case isFalse hne =>
      refine List.pairwise_cons.mpr ⟨fun g hg => ?_, ih hxs⟩
      obtain rfl | hg := AgentState.mem_replaceFinding hg
      · exact hne
      · exact hx g hg

theorem distinct_append (h : Distinct fs) (hnew : ∀ g ∈ fs, ¬ SameEntry g f) : Distinct (fs ++ [f]) := by
  refine List.pairwise_append.mpr ⟨h, List.pairwise_singleton _ _, fun g hg f' hf' => ?_⟩
  rw [List.mem_singleton.mp hf']
  exact hnew g hg

theorem distinct_insertFinding (h : Distinct fs) : Distinct (AgentState.insertFinding f fs) := by
  rw [AgentState.insertFinding]
  split
  · exact distinct_replaceFinding h
  case isFalse hany =>
    have hnew : ∀ g ∈ fs, ¬ SameEntry g f := fun g hg hsame => hany (any_sameEntry.mpr ⟨g, hg, hsame⟩)
    split
    · exact distinct_append (h.sublist (List.tail_sublist fs)) fun g hg => hnew g (List.mem_of_mem_tail hg)
    · exact distinct_append h hnew

/-- A key's record goes where it is replaced by a newer one of the key, or displaced. -/
theorem Recorded.insert {c : TransferRecord} {at_ : ℤ} {key : ConfigKey} {v : PointerValue} (h : Recorded fs key v)
    (hkey : key ≠ c.key) (hspared : ∀ f ∈ displaced fs c.key c.digest, f.key = key →
      ¬ (v.generation = f.generation ∧ v.digest = f.digest)) :
    Recorded (AgentState.insertFinding (findingOf c at_) fs) key v := by
  obtain ⟨g, hg, hgk, hgg, hgd, hactive⟩ := h
  refine ⟨g, mem_insertFinding_of_ne hg (fun hsame => hkey (hgk.symm.trans hsame.1)) fun hdrop => ?_, hgk, hgg, hgd, hactive⟩
  exact hspared g hdrop hgk ⟨hgg.symm, hgd.symm⟩

/-- What is displaced leaves a pointer of its content without a record. -/
theorem displaced_unrecorded (h : Distinct fs) {c : TransferRecord} {at_ : ℤ} {v : PointerValue}
    (hdrop : displaced fs c.key c.digest = some f) (hv : v.digest = f.digest) :
    ¬ Recorded (AgentState.insertFinding (findingOf c at_) fs) f.key v := by
  rintro ⟨g, hg, hkey, -, hdigest, -⟩
  rw [displaced] at hdrop
  split at hdrop
  · cases hdrop
  case isFalse hany =>
  split at hdrop
  case isFalse => cases hdrop
  case isTrue hfull =>
  cases fs with
  | nil => cases hdrop
  | cons x xs =>
    obtain rfl := Option.some.inj hdrop
    have hsame : SameEntry x g := ⟨hkey.symm, hv.symm.trans hdigest.symm⟩
    have hinsert : AgentState.insertFinding (findingOf c at_) (x :: xs) = xs ++ [findingOf c at_] := by
      rw [AgentState.insertFinding]
      exact (if_neg hany).trans (if_pos hfull)
    rw [hinsert] at hg
    obtain hg | hg := List.mem_append.mp hg
    · exact (List.pairwise_cons.mp h).1 g hg hsame
    · rw [List.mem_singleton.mp hg] at hsame
      exact hany (List.any_eq_true.mpr ⟨x, List.mem_cons_self, by simpa [SameEntry, findingOf] using hsame⟩)

theorem recorded_insert_self {c : TransferRecord} {at_ : ℤ} :
    Recorded (AgentState.insertFinding (findingOf c at_) fs) c.key c.pointer :=
  ⟨findingOf c at_, mem_insertFinding_self, rfl, rfl, rfl, rfl⟩

end Table

/-! What every update keeps. -/

structure Filing (w : World) : Prop where
  ordered : Ordered w
  bounded : w.mem.findings.length ≤ kMaxFindingsPerAgent
  distinct : Distinct w.mem.findings
  durable : w.dur.findings = w.mem.findings
  /-- pointers stand only in directories of keys that have been offered -/
  homed : ∀ d v, w.files.current.lookup d = some (.pointer v) → ∃ key, OfferedKey w key ∧ d = liveKeyDirectory key

/-- No pointer appears and the table is left alone. -/
structure Beside (w w' : World) : Prop where
  current : ∀ d v, w'.files.current.lookup d = some (.pointer v) → w.files.current.lookup d = some (.pointer v)
  findings : w'.mem.findings = w.mem.findings
  switched : w'.switched = w.switched
  received : w'.received = w.received

section Filing

variable {w w' w'' : World}

theorem Beside.same (hcurrent : w'.files.current = w.files.current) (hfindings : w'.mem.findings = w.mem.findings)
    (hswitched : w'.switched = w.switched) (hreceived : w'.received = w.received) : Beside w w' :=
  ⟨fun _ _ h => hcurrent ▸ h, hfindings, hswitched, hreceived⟩

theorem Beside.refl (w : World) : Beside w w := .same rfl rfl rfl rfl

theorem Beside.trans (h : Beside w w') (h' : Beside w' w'') : Beside w w'' where
  current d v hv := h.current d v (h'.current d v hv)
  findings := h'.findings.trans h.findings
  switched := h'.switched.trans h.switched
  received := h'.received.trans h.received

theorem Beside.dropCurrent (w : World) (directory : Directory) : Beside w (w.onFiles (·.dropCurrent directory)) where
  current d v hv := by
    rw [World.onFiles, lookup_dropCurrent] at hv
    split at hv
    · cases hv
    · exact hv
  findings := rfl
  switched := rfl
  received := rfl

theorem Quiet.beside (h : Quiet w w') : Beside w w' := by
  cases h <;> exact .same rfl rfl rfl rfl

theorem RStep.beside (h : RStep w w') : Beside w w' := by
  cases h with
  | quiet hq _ => exact hq.beside
  | resized | checkpointed | adopted | cleared | identified => exact .same rfl rfl rfl rfl
  | dropped => exact .dropCurrent _ _

theorem Quiet.durFindings (h : Quiet w w') : w'.dur.findings = w.dur.findings := by
  cases h <;> rfl

theorem RStep.durFindings (h : RStep w w') : w'.dur.findings = w.dur.findings := by
  cases h with
  | quiet hq _ => exact hq.durFindings
  | resized | checkpointed | dropped | adopted | cleared | identified => rfl

theorem OfferedKey.congr {key : ConfigKey} (h : OfferedKey w key) (hreceived : w'.received = w.received) :
    OfferedKey w' key := by
  rw [OfferedKey, hreceived]
  exact h

theorem Filing.beside (h : Filing w) (hw' : Ordered w') (hb : Beside w w') (hdur : w'.dur.findings = w.dur.findings) :
    Filing w' where
  ordered := hw'
  bounded := hb.findings ▸ h.bounded
  distinct := hb.findings ▸ h.distinct
  durable := by rw [hdur, hb.findings, h.durable]
  homed d v hv := by
    obtain ⟨key, hkey, hd⟩ := h.homed d v (hb.current d v hv)
    exact ⟨key, hkey.congr hb.received, hd⟩

theorem offered_of_holds (h : Ordered w) {c : TransferRecord} (hc : Holds w c) : OfferedKey w c.key := by
  obtain ⟨q, hq, -, hkey, -⟩ := (h.tables.holds hc).requested
  exact ⟨q, hq, hkey⟩

theorem Filing.handled {failing : Prop} {I : World → Prop} (h : Filing w) (hstep : AStep failing I w w') :
    Filing w' := by
  have hordered := h.ordered.handled hstep
  cases hstep with
  | quiet _ hq => exact h.beside hordered hq.beside hq.durFindings
  | resolved | unmarked | settled => exact h.beside hordered (.same rfl rfl rfl rfl) rfl
  | lost directory => exact h.beside hordered (.dropCurrent w directory) rfl
  | @switched c _ hc _ _ =>
    refine ⟨hordered, h.bounded, h.distinct, h.durable, fun d v hv => ?_⟩
    rw [World.switch, lookup_putCurrent] at hv
    split at hv
    case isTrue hd => exact ⟨c.key, offered_of_holds h.ordered hc, hd⟩
    case isFalse => exact h.homed d v hv
  | @found c at_ =>
    refine ⟨hordered, ?_, ?_, ?_, h.homed⟩
    · exact AgentState.length_insertFinding h.bounded
    · exact distinct_insertFinding h.distinct
    · exact congrArg (AgentState.insertFinding (findingOf c at_)) h.durable

theorem Filing.recovered (h : Filing w) (hstep : RStep w w') : Filing w' :=
  h.beside (h.ordered.recovered hstep) hstep.beside hstep.durFindings

theorem Filing.receive (h : Filing w) {m : Message} (hm : m.Valid) : Filing (w.receive m) where
  ordered := ⟨h.ordered.tables.receive hm, h.ordered.readable⟩
  bounded := h.bounded
  distinct := h.distinct
  durable := h.durable
  homed d v hv := by
    obtain ⟨key, ⟨q, hq, hkey⟩, hd⟩ := h.homed d v hv
    exact ⟨key, ⟨q, List.mem_append_left _ hq, hkey⟩, hd⟩

theorem filing_empty : Filing {} := ⟨ordered_empty, by decide, .nil, rfl, by simp⟩

theorem filing_inductive {o : AgentOptions} {allowed : Env → Prop} :
    Inductive o allowed (fun _ _ => True) Filing (fun _ => True) where
  empty := filing_empty
  kept h := ⟨h.ordered.tables.mem.kept, h.ordered.tables.dur.kept⟩
  readable h := h.ordered.readable
  restart h := by
    refine ⟨⟨h.ordered.tables.restart, h.ordered.readable⟩, ?_, ?_, rfl, h.homed⟩
    · exact h.durable ▸ h.bounded
    · exact h.durable ▸ h.distinct
  hello h _ := ⟨h.receive trivial, trivial⟩
  receive _ hm h _ := ⟨h.receive hm, trivial⟩
  handled hstep h := h.handled hstep
  recovered hstep h := h.recovered hstep
  stable := stable_true
  started _ _ _ _ := trivial

end Filing

/-! Activations. -/

/-- The record that a commit activates. -/
def activating (s : AgentState) (m : ApplyCommitMessage) : Option TransferRecord :=
  if stale s m.generation ∨
      (s.committedGeneration ≠ 0 ∧ m.generation = s.committedGeneration ∧ m.digest = s.committedDigest) ∨
      conflicting s m.generation m.digest then none
  else (s.transfers.find m.deployment).filter fun c =>
    c.staged && m.digest == c.digest && m.generation == c.generation &&
      (s.guarantee != .prepareCommitAbort || s.applyPrepared) &&
      (!s.applyPrepared || s.preparedDeployment == m.deployment)

/-- The pointer of the record's key has been switched. -/
structure Redirected (w : World) (c : TransferRecord) (w' : World) : Prop where
  current : ∀ d v, w'.files.current.lookup d = some (.pointer v) →
    d = liveKeyDirectory c.key ∧ v = c.pointer ∨
      d ≠ liveKeyDirectory c.key ∧ w.files.current.lookup d = some (.pointer v)
  switched : w'.switched = w.switched ++ [(c.key, c.pointer)]
  received : w'.received = w.received

/-- Nothing has been switched, or that has been recorded too. -/
def Done (w : World) (c : TransferRecord) (w' : World) : Prop :=
  Beside w w' ∨ Redirected w c w' ∧ ∃ at_, w'.mem.findings = AgentState.insertFinding (findingOf c at_) w.mem.findings

def Traced (w : World) (c : TransferRecord) (w' : World) : Prop :=
  Done w c w' ∨ Redirected w c w' ∧ w'.mem.findings = w.mem.findings

section Activating

variable {allowed : Env → Prop} {o : AgentOptions} {w w' w'' : World} {c : TransferRecord}

theorem Redirected.beside (h : Redirected w c w') (hb : Beside w' w'') : Redirected w c w'' where
  current d v hv := h.current d v (hb.current d v hv)
  switched := hb.switched.trans h.switched
  received := hb.received.trans h.received

theorem Done.beside (h : Done w c w') (hb : Beside w' w'') : Done w c w'' := by
  obtain h | ⟨h, at_, hf⟩ := h
  · exact .inl (h.trans hb)
  · exact .inr ⟨h.beside hb, at_, hb.findings.trans hf⟩

theorem Beside.switch (h : Beside w w') : Redirected w c (w'.switch c) ∧ (w'.switch c).mem.findings = w.mem.findings where
  left := {
    current := fun d v hv => by
      rw [World.switch, lookup_putCurrent] at hv
      split at hv
      case isTrue hd =>
        cases hv
        exact .inl ⟨hd, rfl⟩
      case isFalse hd => exact .inr ⟨hd, h.current d v hv⟩
    switched := by rw [← h.switched]; rfl
    received := h.received }
  right := h.findings

/-- A condition that such updates keep holds wherever a program of them comes to. -/
theorem beside_visits {α : Type} {p : Agent α} {P : World → Prop} (hp : p.Steps allowed Beside (fun _ _ => True) w')
    (hP : ∀ w w', Beside w w' → P w → P w') (hw : P w') :
    p.Steps allowed (fun _ w' => P w') (fun _ w' => P w') w' :=
  (hp.visits hP hw).mono fun _ _ h => h.2

theorem beside_quiet {α : Type} {p : Agent α} (hp : p.Steps allowed Quiet (fun _ _ => True) w) :
    p.Steps allowed Beside (fun _ _ => True) w := hp.rel_mono fun _ _ h => h.beside

theorem beside_confirmCommit {session : Session} {m : ApplyCommitMessage} {ack : ApplyCommitAckMessage}
    {key : ConfigKey} {bytes : ℕ} :
    (confirmCommit session m ack key bytes).Steps allowed Beside (fun _ _ => True) w := by
  simp only [confirmCommit, Prog.steps_bind]
  refine steps_send (.same rfl rfl rfl rfl) ?_ fun _ => trivial
  simp only [sendAck, Prog.steps_bind, steps_state, steps_now]
  exact fun e _ => steps_send (.same rfl rfl rfl rfl) trivial fun _ => trivial

theorem traced_switchPointer {Q : Status → World → Prop} (hw : Beside w w')
    (hok : ∀ w', Redirected w c w' → w'.mem.findings = w.mem.findings → Q (.ok ()) w')
    (herr : ∀ e w', Beside w w' → Q (.error e) w') :
    (switchPointer c).Steps allowed (fun _ w' => Traced w c w') Q w' := by
  have hmoved := hw.switch (c := c)
  refine steps_writeFileAtomic (.inr hmoved) (hok _ hmoved.1 hmoved.2) (fun e => herr e w' hw) fun _ => ?_
  have hdropped := hw.trans (.dropCurrent w' (liveKeyDirectory c.key))
  have hretried := hdropped.switch (c := c)
  exact ⟨.inl (.inl hdropped), .inr hretried, hok _ hretried.1 hretried.2, fun e => herr e _ hdropped⟩

theorem traced_recordActivation (h : Redirected w c w') (hf : w'.mem.findings = w.mem.findings) :
    (recordActivation c).Steps allowed (fun _ w' => Traced w c w') (fun _ w' => Done w c w') w' := by
  simp only [recordActivation, Prog.steps_bind, steps_commit, steps_now, steps_setState, steps_state]
  refine ⟨.inr ⟨h.beside (.same rfl rfl rfl rfl), hf⟩, fun e _ => ?_⟩
  have hdone : Done w c ((w'.commit (.targetCommit c.generation c.digest c.artifact)).commit
      (.findingUpsert (findingOf c e.now))) := by
    refine .inr ⟨⟨h.current, h.switched, h.received⟩, e.now, ?_⟩
    exact congrArg (AgentState.insertFinding (findingOf c e.now)) hf
  exact ⟨.inl hdone, .inl (hdone.beside (.same rfl rfl rfl rfl)), .inl (hdone.beside (.same rfl rfl rfl rfl)),
    hdone.beside (.same rfl rfl rfl rfl)⟩

theorem traced_commitGeneration (h : Redirected w c w') (hf : w'.mem.findings = w.mem.findings) :
    (commitGeneration c).Steps allowed (fun _ w' => Traced w c w') (fun _ w' => Done w c w') w' := by
  simp only [commitGeneration, Prog.steps_bind, steps_state]
  split
  · rw [Prog.steps_bind, steps_commit]
    have hmoved : Redirected w c (w'.commit (.applyResolved (increment w'.mem.activations))) :=
      h.beside (.same rfl rfl rfl rfl)
    exact ⟨.inr ⟨hmoved, hf⟩, traced_recordActivation hmoved hf⟩
  · exact traced_recordActivation h hf

theorem traced_activate {explicitPrepare : Bool} (hc : Holds w c) :
    (activate o c explicitPrepare).Steps allowed (fun _ w' => Traced w c w') (fun _ w' => Done w c w') w := by
  have hrecord (w' : World) (h : Redirected w c w') (hf : w'.mem.findings = w.mem.findings) : (do
      commitGeneration c
      prunePayloads o c.key
      return .ok () : Agent Status).Steps allowed (fun _ w' => Traced w c w') (fun _ w' => Done w c w') w' := by
    rw [Prog.steps_bind]
    refine (traced_commitGeneration h hf).mono fun _ w' hdone => ?_
    rw [Prog.steps_bind]
    refine (beside_visits (beside_quiet (steps_prunePayloads fun _ _ => trivial)) (fun _ _ hb h => h.beside hb) hdone).rel_mono ?_
    exact fun _ _ h => .inl h
  have hswitch (w' : World) (hw' : Beside w w') : (switchAndCommit o c explicitPrepare).Steps allowed
      (fun _ w' => Traced w c w') (fun _ w' => Done w c w') w' := by
    rw [switchAndCommit, Prog.steps_bind]
    refine traced_switchPointer hw' (fun w₁ h₁ hf₁ => ?_) fun e w₁ h₁ => .inl h₁
    simp only
    split
    · rw [Prog.steps_bind]
      have hunmarked : Redirected w c (w₁.onFiles (·.dropPending (liveKeyDirectory c.key))) :=
        h₁.beside (.same rfl rfl rfl rfl)
      exact steps_remove (.inr ⟨hunmarked, hf₁⟩) (hrecord _ hunmarked hf₁) (hrecord _ h₁ hf₁)
    · exact hrecord _ h₁ hf₁
  simp only [activate, Prog.steps_bind, steps_state]
  split
  · rw [Prog.steps_bind]
    have hopen : (openWindow c c.pointer).Steps allowed Quiet (fun _ _ => True) w :=
      steps_openWindow hc (fun _ _ => trivial) fun _ _ _ => trivial
    refine ((beside_visits (beside_quiet hopen) (P := Beside w) (fun _ _ hb h => h.trans hb) (.refl w)).rel_mono ?_).mono ?_
    · exact fun _ _ h => .inl (.inl h)
    · intro r w' hw'
      cases r with
      | error e => exact .inl hw'
      | ok _ => exact hswitch w' hw'
  · exact hswitch w (.refl w)

theorem Done.received (h : Done w c w') : w'.received = w.received := by
  obtain h | ⟨h, -⟩ := h
  · exact h.received
  · exact h.received

theorem Traced.received (h : Traced w c w') : w'.received = w.received := by
  obtain h | ⟨h, -⟩ := h
  · exact h.received
  · exact h.received

theorem activating_find {s : AgentState} {m : ApplyCommitMessage} (h : c ∈ activating s m) :
    s.transfers.find m.deployment = some c := by
  rw [activating] at h
  split at h
  · cases h
  · exact (Option.filter_eq_some_iff.mp h).1

/-- What has passed every check of a commit is what it activates. -/
theorem activating_eq {s : AgentState} {m : ApplyCommitMessage} (hstale : ¬ stale s m.generation = true)
    (hsame : ¬ (s.committedGeneration ≠ 0 ∧ m.generation = s.committedGeneration ∧ m.digest = s.committedDigest))
    (hconflict : ¬ conflicting s m.generation m.digest = true) (hfind : s.transfers.find m.deployment = some c)
    (hstaged : c.staged = true) (hcontent : ¬ (m.digest ≠ c.digest ∨ m.generation ≠ c.generation))
    (hexplicit : ¬ (s.guarantee = .prepareCommitAbort ∧ (!s.applyPrepared) = true))
    (hmine : ¬ (s.applyPrepared = true ∧ s.preparedDeployment ≠ m.deployment)) : activating s m = some c := by
  obtain ⟨hd, hg⟩ := not_or.mp hcontent
  rw [activating, if_neg (by simp only [hstale, hsame, hconflict]; simp)]
  refine Option.filter_eq_some_iff.mpr ⟨hfind, ?_⟩
  simp only [not_and, Bool.not_eq_true, Bool.not_eq_false'] at hexplicit hmine
  simp only [Bool.and_eq_true, Bool.or_eq_true, hstaged, beq_iff_eq, bne_iff_ne, Bool.not_eq_true', true_and]
  refine ⟨⟨⟨not_not.mp hd, not_not.mp hg⟩, ?_⟩, ?_⟩
  · by_cases hguarantee : s.guarantee = .prepareCommitAbort
    · exact .inr (by simpa using hexplicit hguarantee)
    · exact .inl hguarantee
  · by_cases hopen : s.applyPrepared = true
    · exact .inr (not_not.mp (hmine hopen))
    · exact .inl (Bool.eq_false_of_not_eq_true hopen)

/-- Nothing has been switched, or the record the commit activates. -/
def Committing (R : World → TransferRecord → World → Prop) (m : ApplyCommitMessage) (w w' : World) : Prop :=
  Beside w w' ∨ ∃ c ∈ activating w.mem m, R w c w'

theorem Committing.beside {m : ApplyCommitMessage} (h : Committing Done m w w') (hb : Beside w' w'') :
    Committing Done m w w'' := by
  obtain h | ⟨c, hc, h⟩ := h
  · exact .inl (h.trans hb)
  · exact .inr ⟨c, hc, h.beside hb⟩

theorem Committing.traced {m : ApplyCommitMessage} (h : Committing Done m w w') : Committing Traced m w w' := by
  obtain h | ⟨c, hc, h⟩ := h
  · exact .inl h
  · exact .inr ⟨c, hc, .inl h⟩

theorem traced_onApplyCommit {session : Session} {m : ApplyCommitMessage} (hk : Kept w.mem) :
    (onApplyCommit o session m).Steps allowed (fun _ w' => Committing Traced m w w')
      (fun _ w' => Committing Done m w w') w := by
  have hbeside {p : Agent Status} {w' : World} (h : p.Steps allowed Beside (fun _ _ => True) w')
      (hw' : Committing Done m w w') : p.Steps allowed (fun _ w' => Committing Traced m w w')
        (fun _ w' => Committing Done m w w') w' :=
    (beside_visits h (fun _ _ hb h => h.beside hb) hw').rel_mono fun _ _ h => h.traced
  have hrefuse {ack : ApplyCommitAckMessage} {key : ConfigKey} {detail : String} {w' : World}
      (hack : ack.committed = false) (hw' : Committing Done m w w') : (refuseCommit m ack key detail).Steps allowed
        (fun _ w' => Committing Traced m w w') (fun _ w' => Committing Done m w w') w' :=
    hbeside (beside_quiet (steps_refuseCommit hack)) hw'
  have hstart : Committing Done m w w := .inl (.refl w)
  simp only [onApplyCommit, Prog.steps_bind, steps_state]
  split
  · refine hbeside (beside_quiet ?_) hstart
    simp only [Prog.steps_bind, steps_setState, steps_state, steps_commit]
    exact ⟨.count _ _ _ _ _, .note _ _ _ _, steps_refuseCommit rfl⟩
  case isFalse hstale =>
  split
  · refine hbeside ?_ hstart
    simp only [Prog.steps_bind, steps_setState, steps_state, steps_commit]
    exact ⟨.same rfl rfl rfl rfl, .same rfl rfl rfl rfl, beside_confirmCommit⟩
  case isFalse hsame =>
  split
  · exact hrefuse rfl hstart
  case isFalse hconflict =>
  split
  · split
    · exact hbeside beside_confirmCommit hstart
    · exact hrefuse rfl hstart
  case h_2 c hfind =>
  obtain ⟨hfind, hstaged⟩ := Option.filter_eq_some_iff.mp hfind
  split
  · exact hrefuse rfl hstart
  case isFalse hcontent =>
  split
  · exact hrefuse rfl hstart
  case isFalse hexplicit =>
  split
  · exact hrefuse rfl hstart
  case isFalse hmine =>
    have hactivating := activating_eq hstale hsame hconflict hfind hstaged hcontent hexplicit hmine
    rw [Prog.steps_bind]
    refine ((traced_activate (hk.holds hfind)).rel_mono fun _ _ h => .inr ⟨c, hactivating, h⟩).mono ?_
    intro r w' hdone
    have hw' : Committing Done m w w' := .inr ⟨c, hactivating, hdone⟩
    split
    · exact hrefuse rfl hw'
    · simp only [Prog.steps_bind, steps_state]
      exact hbeside beside_confirmCommit hw'

end Activating

/-! Runs. -/

/-- Room is not made at the cost of the record of another key's live pointer. -/
def SparesLive (w : World) (c : TransferRecord) : Prop :=
  ∀ f ∈ displaced w.mem.findings c.key c.digest, f.key ≠ c.key →
    ∀ v ∈ pointerAt w.files.current (liveKeyDirectory f.key), ¬ (v.generation = f.generation ∧ v.digest = f.digest)

def OwnDirectory (p : PrepareMessage) : Message → Prop
  | .prepare q => liveKeyDirectory q.key = liveKeyDirectory p.key → q.key = p.key
  | _ => True

/-- Every key has a directory of its own, and no commit pushes out the record of a live pointer. -/
def Lossless (w : World) : Event → Prop
  | .message _ (.prepare p) => isKeyDirectory (liveKeyDirectory p.key) = true ∧ ∀ m ∈ w.received, OwnDirectory p m
  | .message _ (.applyCommit m) => ∀ c ∈ activating w.mem m, SparesLive w c
  | _ => True

/-- The table is as it was after a switch, with no record of what was switched from an earlier time. -/
def Unrecorded (w w' : World) : Prop :=
  w'.mem.findings = w.mem.findings ∧ ∃ e ∈ w'.switched.drop w.switched.length, ¬ Recorded w.mem.findings e.1 e.2

/-- The machines that runs come to whose every event is lossless and whose process never dies between a switch and
its record. -/
inductive Recording (o : AgentOptions) : Machine → Prop
  | empty : Recording o {}
  | step {M M' : Machine} {e : Event} :
      Recording o M → Lossless M.world e → Step o (fun _ => True) M e M' →
      (M'.running = false → ¬ Unrecorded M.world M'.world) → Recording o M'

def OwnDirectories (w : World) : Prop :=
  ∀ key key', OfferedKey w key → OfferedKey w key' → liveKeyDirectory key = liveKeyDirectory key' → key = key'

section Runs

variable {o : AgentOptions} {allowed : Env → Prop} {w w' : World} {c : TransferRecord} {M M' : Machine} {e : Event}

theorem OwnDirectories.congr (h : OwnDirectories w) (hreceived : w'.received = w.received) : OwnDirectories w' :=
  fun key key' hk hk' => h key key' (hk.congr hreceived.symm) (hk'.congr hreceived.symm)

theorem Complete.beside (h : Complete w) (hb : Beside w w') : Complete w' := by
  intro key v hkey hv
  rw [hb.findings]
  exact h key v (hkey.congr hb.received.symm) (hb.current _ v hv)

/-- The pointers of the other keys are where they were. -/
theorem Redirected.complete (h : Redirected w c w') (hc : Complete w) (hown : OwnDirectories w)
    (hoffered : OfferedKey w c.key) (hself : Recorded w'.mem.findings c.key c.pointer)
    (hothers : ∀ key v, key ≠ c.key → w.files.current.lookup (liveKeyDirectory key) = some (.pointer v) →
      Recorded w.mem.findings key v → Recorded w'.mem.findings key v) : Complete w' := by
  intro key v hkey hv
  have hkey' : OfferedKey w key := hkey.congr h.received.symm
  obtain ⟨hd, rfl⟩ | ⟨hd, hold⟩ := h.current _ v hv
  · rw [hown key c.key hkey' hoffered hd]
    exact hself
  · refine hothers key v (fun heq => hd (congrArg liveKeyDirectory heq)) hold (hc key v hkey' hold)

theorem Done.complete (h : Done w c w') (hc : Complete w) (hown : OwnDirectories w) (hoffered : OfferedKey w c.key)
    (hspares : SparesLive w c) : Complete w' := by
  obtain h | ⟨h, at_, hf⟩ := h
  · exact hc.beside h
  · refine h.complete hc hown hoffered (hf ▸ recorded_insert_self) fun key v hkey hv hrec => ?_
    rw [hf]
    refine hrec.insert hkey fun f hdrop hfk => hspares f hdrop (hfk ▸ hkey) v ?_
    rw [hfk]
    exact mem_pointerAt.mpr hv

theorem Traced.complete (h : Traced w c w') (hc : Complete w) (hown : OwnDirectories w) (hoffered : OfferedKey w c.key)
    (hspares : SparesLive w c) (hcut : ¬ Unrecorded w w') : Complete w' := by
  obtain h | ⟨h, hf⟩ := h
  · exact h.complete hc hown hoffered hspares
  · have hself : Recorded w.mem.findings c.key c.pointer := by
      by_contra hnone
      refine hcut ⟨hf, (c.key, c.pointer), ?_, hnone⟩
      rw [h.switched, List.drop_left]
      exact List.mem_singleton_self _
    exact h.complete hc hown hoffered (hf ▸ hself) fun key v _ _ hrec => hf ▸ hrec

theorem OwnDirectories.receive (h : OwnDirectories w) {m : Message}
    (hm : ∀ p, m = .prepare p → ∀ m' ∈ w.received, OwnDirectory p m') : OwnDirectories (w.receive m) := by
  rintro key key' ⟨p, hp, rfl⟩ ⟨q, hq, rfl⟩ hd
  obtain hp | hp := List.mem_append.mp hp
  · obtain hq | hq := List.mem_append.mp hq
    · exact h _ _ ⟨p, hp, rfl⟩ ⟨q, hq, rfl⟩ hd
    · exact hm q (List.mem_singleton.mp hq).symm _ hp hd
  · obtain hq | hq := List.mem_append.mp hq
    · exact (hm p (List.mem_singleton.mp hp).symm _ hq hd.symm).symm
    · have hsame := (List.mem_singleton.mp hp).trans (List.mem_singleton.mp hq).symm
      cases hsame
      rfl

/-- A key that is new has no pointer yet. -/
theorem Complete.receive (h : Complete w) (hw : Filing w) {m : Message} (hown : OwnDirectories (w.receive m)) :
    Complete (w.receive m) := by
  intro key v hkey hv
  obtain ⟨key', hkey', hd⟩ := hw.homed _ v hv
  obtain ⟨q, hq, hq'⟩ := hkey'
  rw [hown key key' hkey ⟨q, List.mem_append_left _ hq, hq'⟩ hd]
  exact h key' v ⟨q, hq, hq'⟩ (hd ▸ hv)

/-- Wherever a program of updates beside the pointers is cut. -/
theorem exec_beside {α : Type} {p : Agent α} {R : World → World → Prop} {Q : α → World → Prop} {r : Option α}
    (h : p.Steps allowed R Q w) (hR : ∀ w w', R w w' → Beside w w') (hexec : Prog.Exec allowed p w r w') :
    Beside w w' := by
  obtain ⟨hreach, -⟩ := h.exec hexec
  exact along hreach (fun _ _ hstep hb => hb.trans (hR _ _ hstep)) (.refl w)

theorem complete_step (hw : Filing M.world) (hown : OwnDirectories M.world) (hc : Complete M.world)
    (hmeets : Lossless M.world e) (hstep : Step o allowed M e M')
    (hcut : M'.running = false → ¬ Unrecorded M.world M'.world) :
    OwnDirectories M'.world ∧ Complete M'.world := by
  cases hstep with
  | @start w w' order r hexec =>
    have hrestart : Beside w w.restart := ⟨fun _ _ h => h, hw.durable, rfl, rfl⟩
    have hk : Kept w.restart.mem := hw.ordered.tables.dur.kept
    have hrecovered : («open» o).Steps (fun e => allowed e ∧ e.order = order) RStep (fun _ _ => True) w.restart :=
      steps_open (fun e he => he.2) hk hw.ordered.readable (fun _ _ _ _ => trivial) fun _ => trivial
    have hb := hrestart.trans (exec_beside hrecovered (fun _ _ => RStep.beside) hexec)
    exact ⟨hown.congr hb.received, hc.beside hb⟩
  | @hello w w' m r hexec =>
    have hown' : OwnDirectories (w.receive (.hello m)) := hown.receive (by simp)
    have hb := exec_beside steps_acceptHello (fun _ _ => Quiet.beside) hexec
    exact ⟨hown'.congr hb.received, (hc.receive hw hown').beside hb⟩
  | @message w w' session m r hvalid hexec =>
    have hw' := hw.receive hvalid
    have hown' : OwnDirectories (w.receive m) := by
      refine hown.receive ?_
      rintro p rfl
      exact hmeets.2
    have hc' := hc.receive hw hown'
    by_cases hcommit : ∃ c, m = .applyCommit c
    · obtain ⟨a, rfl⟩ := hcommit
      have hk := hw'.ordered.tables.mem.kept
      obtain ⟨hreach, hdone⟩ := (traced_onApplyCommit hk).exec hexec
      have hoffered {c : TransferRecord} (hcommits : c ∈ activating w.mem a) :
          OfferedKey (w.receive (.applyCommit a)) c.key :=
        offered_of_holds hw'.ordered (hk.holds (activating_find hcommits))
      cases r with
      | some r =>
        obtain hb | ⟨c, hcommits, hmade⟩ := hdone r rfl
        · exact ⟨hown'.congr hb.received, hc'.beside hb⟩
        · refine ⟨hown'.congr hmade.received, hmade.complete hc' hown' (hoffered hcommits) (hmeets c hcommits)⟩
      | none =>
        obtain hb | ⟨c, hcommits, hmade⟩ := along hreach (fun _ _ h _ => h) (.inl (.refl _))
        · exact ⟨hown'.congr hb.received, hc'.beside hb⟩
        · refine ⟨hown'.congr hmade.received, ?_⟩
          exact hmade.complete hc' hown' (hoffered hcommits) (hmeets c hcommits) (hcut rfl)
    · have hquiet : (dispatch o session m).Steps allowed Quiet (fun _ _ => True) (w.receive m) :=
        quiet_dispatch hw'.ordered.tables.mem.kept hvalid (by simp [World.receive]) (not_exists.mp hcommit)
      have hb := exec_beside hquiet (fun _ _ => Quiet.beside) hexec
      exact ⟨hown'.congr hb.received, hc'.beside hb⟩
  | crash => exact ⟨hown, hc⟩

theorem Recording.complete (h : Recording o M) :
    Filing M.world ∧ OwnDirectories M.world ∧ Complete M.world := by
  induction h with
  | empty =>
    refine ⟨filing_empty, ?_, ?_⟩
    · rintro key key' ⟨q, hq, -⟩
      cases hq
    · rintro key v ⟨q, hq, -⟩
      cases hq
  | step _ hmeets hstep hcut ih =>
    obtain ⟨hw, hown, hc⟩ := ih
    exact ⟨(filing_inductive.step ⟨hw, fun _ => trivial⟩ trivial hstep).1, complete_step hw hown hc hmeets hstep hcut⟩

/-- The table is bounded, has one entry for a key and digest, and one for what every live pointer names. -/
theorem findings_complete (h : Recording o M) :
    M.world.mem.findings.length ≤ kMaxFindingsPerAgent ∧ Distinct M.world.mem.findings ∧ Complete M.world := by
  obtain ⟨hw, -, hc⟩ := h.complete
  exact ⟨hw.bounded, hw.distinct, hc⟩

/-- Bound and distinctness need nothing of the run. -/
theorem findings_filed (h : Reachable o allowed (fun _ _ => True) M) :
    M.world.mem.findings.length ≤ kMaxFindingsPerAgent ∧ Distinct M.world.mem.findings ∧
      M.world.dur.findings = M.world.mem.findings := by
  have hw := (filing_inductive.reachable h).1
  exact ⟨hw.bounded, hw.distinct, hw.durable⟩

/-! Runs on fixed inputs. -/

instance (w : World) (c : TransferRecord) : Decidable (SparesLive w c) :=
  inferInstanceAs (Decidable (∀ f ∈ displaced w.mem.findings c.key c.digest, f.key ≠ c.key →
    ∀ v ∈ pointerAt w.files.current (liveKeyDirectory f.key), ¬ (v.generation = f.generation ∧ v.digest = f.digest)))

instance (p : PrepareMessage) : DecidablePred (OwnDirectory p)
  | .prepare q => inferInstanceAs (Decidable (liveKeyDirectory q.key = liveKeyDirectory p.key → q.key = p.key))
  | .hello _ | .chunk _ | .transferComplete _ | .stage _ | .applyPrepare _ | .applyCommit _ | .applyAbort _
  | .reconcileRequest _ | .retire _ | .ping _ | .goodbye | .unexpected => .isTrue trivial

instance (w : World) : DecidablePred (Lossless w)
  | .message _ (.prepare p) => inferInstanceAs (Decidable
      (isKeyDirectory (liveKeyDirectory p.key) = true ∧ ∀ m ∈ w.received, OwnDirectory p m))
  | .message _ (.applyCommit m) => inferInstanceAs (Decidable (∀ c ∈ activating w.mem m, SparesLive w c))
  | .start _ | .hello _ | .crash | .message _ (.hello _) | .message _ (.chunk _) | .message _ (.transferComplete _)
  | .message _ (.stage _) | .message _ (.applyPrepare _) | .message _ (.applyAbort _) | .message _ (.reconcileRequest _)
  | .message _ (.retire _) | .message _ (.ping _) | .message _ .goodbye | .message _ .unexpected => .isTrue trivial

/-- Every event of the list is lossless where it comes, and completed. -/
def Undying (o : AgentOptions) : Machine → List Event → Prop
  | _, [] => True
  | M, e :: es => (Lossless M.world e ∧ (advance o calm 200 M e).running = true) ∧ Undying o (advance o calm 200 M e) es

instance decidableUndying : ∀ (M : Machine) (es : List Event), Decidable (Undying o M es)
  | _, [] => .isTrue trivial
  | M, e :: es =>
    @instDecidableAnd _ (Undying o (advance o calm 200 M e) es) _ (decidableUndying (advance o calm 200 M e) es)

theorem recording_foldl {es : List Event} {M : Machine} (h : Recording o M) (hes : Undying o M es) :
    Recording o (es.foldl (advance o calm 200) M) := by
  induction es generalizing M with
  | nil => exact h
  | cons e es ih =>
    obtain ⟨⟨hmeets, hrun⟩, hes⟩ := hes
    have hadvance : advance o calm 200 M e = M ∨ Step o (fun _ => True) M e (advance o calm 200 M e) :=
      step_advance fun _ _ _ => ⟨trivial, trivial⟩
    obtain heq | hstep := hadvance
    · exact ih (heq.symm ▸ h) hes
    · exact ih (h.step hmeets hstep fun hdead => absurd (hrun.symm.trans hdead) (by decide)) hes

theorem two_keys_recorded :
    (run { target := text "t" } (.start [] :: delivery (text "d1") (text "a") 3 66 ++
      delivery (text "d2") (text "b") 4 67)).world.mem.findings.length = 2 ∧
    Complete (run { target := text "t" } (.start [] :: delivery (text "d1") (text "a") 3 66 ++
      delivery (text "d2") (text "b") 4 67)).world :=
  ⟨by decide +kernel, (findings_complete (recording_foldl .empty (by decide +kernel))).2.2⟩

def stagedDelivery : List Event := .start [] :: (delivery (text "d") (text "k") 3 66).dropLast

/-- A process that dies right after the switch, and the next one that adopts the pointer. -/
def cutAfterSwitch : Machine :=
  advance { target := text "t" } calm 200
    (advance { target := text "t" } calm 1 (run { target := text "t" } stagedDelivery)
      (.message {} (.applyCommit ⟨text "d", 3, Digest.ofContent [66]⟩))) (.start [])

def offersKey (key : ConfigKey) : Message → Bool
  | .prepare q => q.key = key
  | _ => false

theorem offered_of_any {w : World} {key : ConfigKey} (h : w.received.any (offersKey key) = true) :
    OfferedKey w key := by
  obtain ⟨m, hm, hkey⟩ := List.any_eq_true.mp h
  cases m with
  | prepare q => exact ⟨q, hm, by simpa [offersKey] using hkey⟩
  | _ => cases hkey

theorem adopted_pointer_unrecorded :
    ¬ ∀ M, Reachable { target := text "t" } (fun _ => True) (fun _ _ => True) M → M.running = true →
      Complete M.world := by
  have hadvance (M : Machine) (n : ℕ) (e : Event) (h : Reachable { target := text "t" } (fun _ => True)
      (fun _ _ => True) M) : Reachable { target := text "t" } (fun _ => True) (fun _ _ => True)
        (advance { target := text "t" } calm n M e) :=
    reachable_advance h n trivial fun _ _ _ => ⟨trivial, trivial⟩
  have hstaged : Reachable { target := text "t" } (fun _ => True) (fun _ _ => True)
      (run { target := text "t" } stagedDelivery) :=
    reachable_run (fun _ => trivial) (meetsAll (fun _ _ _ => trivial) _)
  have hreach := hadvance _ 200 (.start []) (hadvance _ 1
    (.message {} (.applyCommit ⟨text "d", 3, Digest.ofContent [66]⟩)) hstaged)
  have hempty (w : World) (key : ConfigKey) (hnone : w.mem.findings = []) (hoffered : OfferedKey w key)
      (hlive : (pointerAt w.files.current (liveKeyDirectory key)).isSome = true) : ¬ Complete w := by
    obtain ⟨v, hv⟩ := Option.isSome_iff_exists.mp hlive
    intro hc
    obtain ⟨f, hf, -⟩ := hc key v hoffered (mem_pointerAt.mp hv)
    rw [hnone] at hf
    cases hf
  intro h
  exact hempty _ (text "k") (by decide +kernel) (offered_of_any (by decide +kernel)) (by decide +kernel)
    (h cutAfterSwitch hreach (by decide +kernel))

end Runs

end Agent

end ConfigurationFabric
