import ConfigurationFabric.StoreReplay

namespace ConfigurationFabric

open LittleEndian
open Program

/-! Directories whose files come from anywhere. -/

namespace DurableStore

variable {State : Type} {codec : Codec State}

/-- `Committed codec st d cs st' d'`: the commits `cs`, which all returned ok, lead from `st` on `d` to `st'` on `d'`. -/
inductive Committed (codec : Codec State) (st : DurableStore State) (d : Disk) :
    List Commit → DurableStore State → Disk → Prop
  | nil : Committed codec st d [] st d
  | snoc {cs : List Commit} {c : Commit} {st₁ st₂ : DurableStore State} {d₁ d₂ : Disk} :
      Committed codec st d cs st₁ d₁ →
      Prog.Exec (fun _ => True) (st₁.commit codec c.type c.payload) d₁ (some (.ok (), st₂)) d₂ →
      Committed codec st d (cs ++ [c]) st₂ d₂

/-- Opening `d` comes to an end, always in an open store with state `s`. -/
def OpensIn (codec : Codec State) (d : Disk) (s : State) : Prop :=
  ∀ durable, (∃ r d', Prog.Exec Sound (DurableStore.open codec durable) d (some r) d') ∧
    ∀ r d', Prog.Exec Sound (DurableStore.open codec durable) d (some r) d' → ∃ st, r = .ok st ∧ st.state = s

/-- However the directory is opened, what is committed afterwards is there when it is opened again. -/
def DurableFrom (codec : Codec State) (d : Disk) : Prop :=
  ∀ durable st d₁, Prog.Exec Sound (DurableStore.open codec durable) d (some (.ok st)) d₁ →
    ∀ cs st' d₂, Committed codec st d₁ cs st' d₂ →
      OpensIn codec d₂ (cs.foldl (fun s c => (codec.apply s c.type c.payload).2) st.state)

def Accepted (codec : Codec State) (d : Disk) : Prop :=
  ∃ durable st d₁, Prog.Exec Sound (DurableStore.open codec durable) d (some (.ok st)) d₁

/-- What the newest loadable snapshot covers. -/
def snapshotCovered (d : Disk) : ℕ :=
  match SnapshotFile.load kMaxSnapshotBytes d with
  | .ok loaded => loaded.coveredSequence
  | .error _ => 0

theorem snapshotCovered_lt (d : Disk) : snapshotCovered d < 2 ^ 64 := by
  unfold snapshotCovered
  split
  case h_1 l hl =>
    obtain ⟨content, -, hcheck⟩ := SnapshotFile.loadSlot_ok (SnapshotFile.load_slot hl)
    have hcovered : l.coveredSequence = load ((content.drop 8).take 8) := (SnapshotFile.checkSlot_ok hcheck).2.2
    have hlt := load_lt ((content.drop 8).take 8)
    have hle : ((content.drop 8).take 8).length ≤ 8 := List.length_take_le _ _
    rw [hcovered]
    calc load ((content.drop 8).take 8) < 256 ^ ((content.drop 8).take 8).length := hlt
      _ ≤ 256 ^ 8 := Nat.pow_le_pow_right (by decide) hle
  case h_2 => decide

theorem loadSnapshot_covered {d : Disk} {covered : ℕ} {s₀ : State} (h : loadSnapshot codec d = .ok (covered, s₀)) :
    covered = snapshotCovered d := by
  unfold loadSnapshot at h
  unfold snapshotCovered
  split at h
  case h_1 e he =>
    rw [he]
    split at h
    · cases h
      rfl
    · cases h
  case h_2 l hl =>
    rw [hl]
    obtain ⟨t, -, hpair⟩ := Result.bind_eq_ok.mp h
    cases hpair
    rfl

theorem recover_eq {covered : ℕ} {s₀ : State} {records : List JournalRecord} :
    recover codec covered s₀ records =
      match baseSequence records with
      | .error e => .error e
      | .ok base =>
        if base = 0 then .fail .integrityFailure "journal does not begin with a segment-start record"
        else if base > (covered + 1) % 2 ^ 64 then
          .fail .integrityFailure "durable state has a gap between the newest loadable snapshot and the journal base"
            s!"snapshot-covered={covered} journal-base={base}"
        else replay codec covered records s₀ := by
  unfold recover
  cases baseSequence records with
  | error e => rfl
  | ok base =>
    by_cases hz : base = 0
    · simp [hz, bind, Except.bind, Result.fail]
    by_cases hgap : base > (covered + 1) % 2 ^ 64
    · simp only [hz, hgap, bind, Except.bind, if_false, if_true, Result.fail]
    · simp only [hz, hgap, bind, Except.bind, if_false]

theorem baseSequence_append {records more : List JournalRecord} {base : ℕ} (h : baseSequence records = .ok base)
    (hpos : base ≠ 0) : baseSequence (records ++ more) = .ok base := by
  unfold baseSequence at h ⊢
  cases hfind : records.find? fun r => r.type == .segmentStart with
  | none =>
    rw [hfind] at h
    exact absurd (Except.ok.inj h).symm hpos
  | some r =>
    rw [List.find?_append, hfind]
    rw [hfind] at h
    exact h

/-- Records behind those of an opened directory are replayed on top of its state. -/
theorem recover_append {covered : ℕ} {s₀ s : State} {records more : List JournalRecord}
    (h : recover codec covered s₀ records = .ok s) :
    recover codec covered s₀ (records ++ more) = replay codec covered more s ∧
      replay codec covered records s₀ = .ok s := by
  rw [recover_eq] at h
  cases hbase : baseSequence records with
  | error e => simp [hbase] at h
  | ok base =>
    simp only [hbase] at h
    split at h
    · cases h
    case isFalse hz =>
    split at h
    · cases h
    case isFalse hgap =>
    refine ⟨?_, h⟩
    rw [recover_eq, baseSequence_append hbase hz]
    simp only [hz, hgap, if_false]
    exact replay_append h

/-- What commits after an opening leave: `more` records behind those that were there. -/
structure Extends (codec : Codec State) (d : Disk) (records more : List JournalRecord) (s : State) (cs : List Commit)
    (st' : DurableStore State) (d' : Disk) : Prop where
  logged : Logged d' (records ++ more)
  slots : loadSnapshot codec d' = loadSnapshot codec d
  state : st'.state = cs.foldl (fun s c => (codec.apply s c.type c.payload).2) s
  bound : st'.journal.maxRecordBytes = kMaxJournalRecordBytes
  last : st'.journal.lastSequence = lastSequenceOf (records ++ more)
  replays : ∀ covered ≤ lastSequenceOf records, replay codec covered more s = .ok st'.state
  grown : lastSequenceOf (records ++ more) = lastSequenceOf records + cs.length

theorem Committed.extends {st st' : DurableStore State} {d d' : Disk} {records : List JournalRecord} {cs : List Commit}
    (hne : records ≠ []) (hlogged : Logged d records) (hlast : st.journal.lastSequence = lastSequenceOf records)
    (hbound : st.journal.maxRecordBytes = kMaxJournalRecordBytes) (h : Committed codec st d cs st' d') :
    ∃ more, Extends codec d records more st.state cs st' d' := by
  induction h with
  | nil =>
    refine ⟨[], ?_⟩
    exact
      { logged := by rwa [List.append_nil]
        slots := rfl
        state := rfl
        bound := hbound
        last := by rwa [List.append_nil]
        replays := fun _ _ => rfl
        grown := by rw [List.append_nil]; rfl }
  | @snoc cs c st₁ st₂ d₁ d₂ _ he ih =>
    obtain ⟨more, ih⟩ := ih
    obtain ⟨state, ha, ⟨hknown, hsmall, hseq⟩, rfl, rfl⟩ := commit_ok he
    have hseq' : (st₁.journal.nextRecord c.type c.payload).sequence = lastSequenceOf (records ++ more) + 1 := by
      rw [← ih.last]
      rfl
    have hw : (st₁.journal.nextRecord c.type c.payload).WellFormed :=
      ⟨hknown, by simp [Journal.nextRecord], by simp only [Journal.nextRecord]; omega, by rwa [← ih.bound]⟩
    refine ⟨more ++ [st₁.journal.nextRecord c.type c.payload], ?_⟩
    refine
      { logged := ⟨?_, ?_, ?_⟩
        slots := ih.slots
        state := ?_
        bound := ih.bound
        last := ?_
        replays := fun covered hc => ?_
        grown := ?_ }
    · simp [Disk.append, ih.logged.file, journalBytes]
    · rw [← List.append_assoc]
      intro q hq
      obtain hq | hq := List.mem_append.mp hq
      · exact ih.logged.wellFormed q hq
      · rwa [List.mem_singleton.mp hq]
    · rw [← List.append_assoc]
      exact ih.logged.consecutive.snoc (follows_last (by simp [hne]) hseq' (by rw [← ih.last]; exact hseq))
    · rw [List.foldl_append, ← ih.state]
      simp only [List.foldl_cons, List.foldl_nil, ha]
    · rw [← List.append_assoc, lastSequenceOf_snoc]
      rfl
    · have hgrown := ih.grown
      exact replay_snoc (ih.replays covered hc) (not_framing ha) (by omega) ha
    · rw [← List.append_assoc, lastSequenceOf_snoc, hseq', ih.grown, List.length_append, List.length_singleton]
      omega

/-- An opened directory: what was loaded, and that its records come to the state of the store. -/
theorem open_ok_recovers {d d₁ : Disk} {st : DurableStore State} {durable : Bool}
    (he : Prog.Exec Sound (DurableStore.open codec durable) d (some (.ok st)) d₁) :
    ∃ records s₀, Logged d₁ records ∧ records ≠ [] ∧ loadSnapshot codec d₁ = .ok (snapshotCovered d, s₀) ∧
      recover codec (snapshotCovered d) s₀ records = .ok st.state ∧ lastSequenceOf records = journalEnd d ∧
      st.failed = false ∧ st.journal.maxRecordBytes = kMaxJournalRecordBytes ∧
      st.journal.lastSequence = lastSequenceOf records := by
  obtain ⟨records, hlogged, hd, hend, hst⟩ := open_ok he
  unfold reopened at hst
  split at hst
  · cases hst
  case h_2 covered s₀ hload =>
  split at hst
  · cases hst
  case h_2 s hrecover =>
  cases hst
  have hload' : loadSnapshot codec d = .ok (covered, s₀) := by
    rw [hd] at hload
    exact hload
  obtain rfl := loadSnapshot_covered hload'
  refine ⟨records, s₀, hlogged, ?_, hload, hrecover, hend, rfl, rfl, rfl⟩
  rintro rfl
  rw [recover_eq] at hrecover
  cases hrecover

theorem durableFrom_of_le {d : Disk} (h : snapshotCovered d ≤ journalEnd d) : DurableFrom codec d := by
  intro durable st d₁ hopen cs st' d₂ hcommitted
  obtain ⟨records, s₀, hlogged, hne, hload, hrecover, hend, -, hbound, hlast⟩ := open_ok_recovers hopen
  obtain ⟨more, hext⟩ := hcommitted.extends hne hlogged hlast hbound
  have hagain : recover codec (snapshotCovered d) s₀ (records ++ more) = .ok st'.state := by
    rw [(recover_append hrecover).1]
    exact hext.replays _ (by omega)
  intro durable'
  refine ⟨Prog.Exec.complete (show Sound .done from rfl) _ _, fun r d₃ he => ?_⟩
  obtain ⟨rfl, -⟩ := hext.logged.open_eq he
  rw [reopened, hext.slots, hload]
  simp only [hagain]
  exact ⟨_, rfl, hext.state⟩

/-- Every state has a record that changes it. -/
def Changeable (codec : Codec State) : Prop :=
  ∀ s, ∃ type payload t, payload.length ≤ kMaxJournalRecordBytes ∧ codec.apply s type payload = (.ok (), t) ∧ t ≠ s

theorem exec_commit_ok {st : DurableStore State} {type : JournalRecordType} {payload : Bytes} {t : State} (d : Disk)
    (hf : st.failed = false) (hl : payload.length ≤ st.journal.maxRecordBytes)
    (ha : codec.apply st.state type payload = (.ok (), t)) (hs : st.journal.lastSequence < 2 ^ 64 - 1) :
    ∃ st' d', Prog.Exec Sound (st.commit codec type payload) d (some (.ok (), st')) d' := by
  obtain ⟨⟨status, st'⟩, d', he⟩ := Prog.Exec.complete (show Sound .done from rfl) (st.commit codec type payload) d
  have hsteps : (st.commit codec type payload).Steps Sound (fun _ _ => True) (fun r _ => r.1 = .ok ()) d := by
    apply steps_commit
    · rintro (hbad | hbad)
      · rw [hf] at hbad
        cases hbad
      · omega
    · intro e state _ _ hbad
      rw [ha] at hbad
      cases hbad
    · intro state _ _ _
      have hacc : st.journal.Accepts type payload := ⟨known_of_accepted ha, hl, hs⟩
      apply Journal.steps_append
      · exact fun _ _ _ => trivial
      · exact fun _ => rfl
      · exact fun hno => absurd hacc hno
      · exact fun hfaulty => absurd hfaulty not_faulty_sound
  have hok : status = .ok () := (hsteps.exec he).2 _ rfl
  rw [hok] at he
  exact ⟨st', d', he⟩

/-- Where the snapshot covers more than the journal holds, the next commit is skipped when it is read back. -/
theorem not_durableFrom {d : Disk} (hchange : Changeable codec) (hacc : Accepted codec d)
    (h : journalEnd d < snapshotCovered d) : ¬ DurableFrom codec d := by
  intro hdurable
  obtain ⟨durable, st, d₁, hopen⟩ := hacc
  obtain ⟨records, s₀, hlogged, hne, hload, hrecover, hend, hfailed, hbound, hlast⟩ := open_ok_recovers hopen
  obtain ⟨type, payload, t, hlen, ha, hdiffers⟩ := hchange st.state
  have hcov := snapshotCovered_lt d
  obtain ⟨st', d₂, he⟩ := exec_commit_ok d₁ hfailed (by omega) ha (by omega)
  have hcommitted : Committed codec st d₁ [⟨type, payload⟩] st' d₂ := .snoc .nil (Exec.anyway he)
  obtain ⟨more, hext⟩ := hcommitted.extends hne hlogged hlast hbound
  have hskipped : replay codec (snapshotCovered d) more st.state = .ok st.state := by
    refine replay_covered fun r hr => ?_
    have hle := hext.logged.consecutive.le_last r (List.mem_append_right _ hr)
    have hgrown := hext.grown
    simp only [List.length_singleton] at hgrown
    omega
  obtain ⟨⟨r, d₃, hagain⟩, hopens⟩ := hdurable durable st d₁ hopen _ _ _ hcommitted true
  obtain ⟨st'', hr, hstate⟩ := hopens r d₃ hagain
  obtain ⟨hr', -⟩ := hext.logged.open_eq hagain
  rw [reopened, hext.slots, hload] at hr'
  simp only [(recover_append hrecover).1, hskipped] at hr'
  rw [hr] at hr'
  cases hr'
  simp only [List.foldl_cons, List.foldl_nil, ha] at hstate
  exact hdiffers hstate.symm

/-- A directory without a journal is given a fresh one. -/
theorem accepted_of_missing {d : Disk} {covered : ℕ} {s₀ s : State} (hnone : d.journal = none)
    (hload : loadSnapshot codec d = .ok (covered, s₀)) (hrecover : recover codec covered s₀ [segmentStart 1] = .ok s) :
    Accepted codec d := by
  obtain ⟨r, d', he⟩ := Prog.Exec.complete (show Sound .done from rfl) (DurableStore.open codec true) d
  have hs : (DurableStore.open codec true).Steps Sound (fun _ _ => True)
      (fun r t => r = reopened codec true t [segmentStart 1] ∧ loadSnapshot codec t = .ok (covered, s₀)) d :=
    steps_open_rest hload (logged_fresh d) hload (steps_create hnone) ⟨rfl, hload⟩
  obtain ⟨hr, hload'⟩ := (hs.exec he).2 _ rfl
  rw [reopened, hload'] at hr
  simp only [hrecover] at hr
  rw [hr] at he
  exact ⟨true, _, d', he⟩

theorem durableFrom_iff {d : Disk} (hchange : Changeable codec) (hacc : Accepted codec d) :
    DurableFrom codec d ↔ snapshotCovered d ≤ journalEnd d := by
  constructor
  · intro hdurable
    by_contra hlt
    exact not_durableFrom hchange hacc (Nat.not_le.mp hlt) hdurable
  · exact durableFrom_of_le

end DurableStore

/-! Both states can always be changed. -/

theorem field_ok {State α : Type} {read : ByteReader α} {assign : α → State → State} {bs rest : Bytes} {v : α}
    (h : read bs = .ok (v, rest)) : field read assign bs = .ok (assign v, rest) := by
  simp [field, h]

theorem reads_u64 {v : ℕ} (h : v < 256 ^ 8) : ByteReader.u64 (store 8 v) = .ok (v, []) := by
  have hread := reads_unsigned h []
  rwa [List.append_nil] at hread

theorem changeable_controller : DurableStore.Changeable controllerCodec := by
  intro s
  have hepoch (v : ℕ) (hv : v ≠ 0) (hlt : v < 256 ^ 8) :
      controllerCodec.apply s .controllerEpoch (store 8 v) = (.ok (), { s with epoch := v }) := by
    have hread : nonZero "recorded epoch 0 is not a valid authority" (store 8 v) = .ok (v, []) := by
      refine Reading.bind_ok.mpr ⟨v, [], reads_u64 hlt, ?_⟩
      rw [if_neg hv]
      rfl
    rw [scripted_controller.apply_some rfl]
    simp only [applyScript, Script.run, field_ok hread]
    rfl
  by_cases h1 : s.epoch = 1
  · refine ⟨.controllerEpoch, store 8 2, _, by decide, hepoch 2 (by decide) (by decide), fun h => ?_⟩
    have hsame := congrArg ControllerState.epoch h
    simp [h1] at hsame
  · refine ⟨.controllerEpoch, store 8 1, _, by decide, hepoch 1 (by decide) (by decide), fun h => ?_⟩
    exact h1 (congrArg ControllerState.epoch h).symm

theorem changeable_agent : DurableStore.Changeable agentCodec := by
  intro s
  have hresolved (v : ℕ) (hlt : v < 256 ^ 8) : ∃ t, t.activations = v ∧
      agentCodec.apply s .agentApplyResolved (store 8 v) = (.ok (), t) := by
    have hread := reads_u64 hlt
    have hnone : (pure () : ByteReader Unit) (store 8 v) = .ok ((), store 8 v) := rfl
    rw [scripted_agent.apply_some rfl]
    simp only [applyScript, Script.run, field_ok hnone, field_ok hread]
    exact ⟨_, rfl, rfl⟩
  by_cases h1 : s.activations = 1
  · obtain ⟨t, ht, ha⟩ := hresolved 2 (by decide)
    refine ⟨.agentApplyResolved, store 8 2, t, by decide, ha, fun h => ?_⟩
    rw [h, h1] at ht
    cases ht
  · obtain ⟨t, ht, ha⟩ := hresolved 1 (by decide)
    refine ⟨.agentApplyResolved, store 8 1, t, by decide, ha, fun h => ?_⟩
    rw [h] at ht
    exact h1 ht

/-- What is committed after a directory has been opened is durable exactly when its journal ends no earlier than its
snapshot. -/
theorem durable_from_any_start_iff (d : Disk) :
    (DurableStore.Accepted controllerCodec d →
      (DurableStore.DurableFrom controllerCodec d ↔ DurableStore.snapshotCovered d ≤ DurableStore.journalEnd d)) ∧
    (DurableStore.Accepted agentCodec d →
      (DurableStore.DurableFrom agentCodec d ↔ DurableStore.snapshotCovered d ≤ DurableStore.journalEnd d)) :=
  ⟨DurableStore.durableFrom_iff changeable_controller, DurableStore.durableFrom_iff changeable_agent⟩

theorem SnapshotFile.load_only {covered : ℕ} {payload : Bytes} {d : Disk} (hc : covered < 2 ^ 64)
    (hlen : payload.length ≤ kMaxSnapshotBytes) (hempty : ∀ slot, d.slot slot = none) :
    load kMaxSnapshotBytes (d.setSlot .a (some (encodeSlot covered payload))) = .ok ⟨covered, payload, .a⟩ := by
  have hslot := loadSlot_written hc hlen d .a
  have ha := hslot .a
  have hb := hslot .b
  have hnone : loadSlot kMaxSnapshotBytes d .b = none := by rw [loadSlot, hempty]
  simp only [if_true, reduceCtorEq, if_false, hnone] at ha hb
  rw [load, ha, hb]
  rfl

/-- The snapshot of a delivered agent covers five records; the journal begins at the sixth and has a seventh. -/
def keptSnapshot : Bytes := (AgentStateCodec.encodeSnapshot secondCommitted).toOption.getD []

def keptRecords : List JournalRecord := [segmentStart 6, ⟨.agentApplyResolved, 7, store 8 4⟩]

def keptDirectory : Disk :=
  ({ journal := some (journalBytes keptRecords) } : Disk).setSlot .a (some (SnapshotFile.encodeSlot 5 keptSnapshot))

theorem loadSnapshot_keptDirectory : DurableStore.loadSnapshot agentCodec keptDirectory = .ok (5, secondCommitted) ∧
    DurableStore.snapshotCovered keptDirectory = 5 := by
  obtain ⟨encoded, hencoded⟩ : ∃ encoded, AgentStateCodec.encodeSnapshot secondCommitted = .ok encoded := ⟨_, rfl⟩
  have hkept : keptSnapshot = encoded := by
    rw [keptSnapshot, hencoded]
    rfl
  have hlen : keptSnapshot.length ≤ kMaxSnapshotBytes := by decide +kernel
  have hload : SnapshotFile.load kMaxSnapshotBytes keptDirectory = .ok ⟨5, keptSnapshot, .a⟩ :=
    SnapshotFile.load_only (by decide) hlen fun slot => by cases slot <;> rfl
  have happly : agentCodec.apply {} secondCommit.type secondCommit.payload = (.ok (), secondCommitted) := by
    decide
  have hdecode := faithful_agent.reads (faithful_agent.apply faithful_agent.initial happly) trivial hencoded
  rw [← hkept] at hdecode
  refine ⟨(DurableStore.loadSnapshot_ok hload).mpr ⟨rfl, hdecode⟩, ?_⟩
  rw [DurableStore.snapshotCovered, hload]

theorem accepted_keptDirectory : DurableStore.Accepted agentCodec keptDirectory := by
  have hlogged : DurableStore.Logged keptDirectory keptRecords := {
    file := Disk.setSlot_journal _ _ _
    wellFormed := by
      intro r hr
      obtain rfl | rfl := by simpa only [keptRecords, List.mem_cons, List.not_mem_nil, or_false] using hr
      · exact segmentStart_wellFormed (by decide) (by decide)
      · exact ⟨rfl, by decide, by decide, by decide⟩
    consecutive := ⟨rfl, rfl, trivial⟩ }
  obtain ⟨r, d', he⟩ := Prog.Exec.complete (show Sound .done from rfl) (DurableStore.open agentCodec true) keptDirectory
  have hrecover : DurableStore.recover agentCodec 5 secondCommitted keptRecords =
      .ok { secondCommitted with activations := 4 } := by decide
  have hopen := (hlogged.open_eq he).1
  rw [DurableStore.reopened, loadSnapshot_keptDirectory.1] at hopen
  simp only [hrecover] at hopen
  rw [hopen] at he
  exact ⟨true, _, d', he⟩

theorem durable_from_kept_directory :
    DurableStore.snapshotCovered keptDirectory = 5 ∧ DurableStore.journalEnd keptDirectory = 7 ∧
      DurableStore.DurableFrom agentCodec keptDirectory := by
  have hcovered := loadSnapshot_keptDirectory.2
  have hend : DurableStore.journalEnd keptDirectory = 7 := by decide +kernel
  have hdurable := ((durable_from_any_start_iff keptDirectory).2 accepted_keptDirectory).mpr (by
    rw [hcovered, hend]
    decide)
  exact ⟨hcovered, hend, hdurable⟩

/-- A snapshot of the empty state that covers five records, in a directory without its journal. -/
def orphanedSnapshot : Disk :=
  ({} : Disk).setSlot .a (some (SnapshotFile.encodeSlot 5 ((AgentStateCodec.encodeSnapshot {}).toOption.getD [])))

theorem load_orphanedSnapshot :
    SnapshotFile.load kMaxSnapshotBytes orphanedSnapshot =
      .ok ⟨5, (AgentStateCodec.encodeSnapshot {}).toOption.getD [], .a⟩ :=
  SnapshotFile.load_only (by decide) (by decide +kernel) fun slot => by cases slot <;> rfl

theorem accepted_orphanedSnapshot : DurableStore.Accepted agentCodec orphanedSnapshot := by
  obtain ⟨encoded, hencoded⟩ : ∃ encoded, AgentStateCodec.encodeSnapshot {} = .ok encoded := ⟨_, rfl⟩
  have hdecode := faithful_agent.reads AgentStateCodec.stored_initial trivial hencoded
  have hpayload : (AgentStateCodec.encodeSnapshot {}).toOption.getD [] = encoded := by
    rw [hencoded]
    rfl
  have hloaded := load_orphanedSnapshot
  rw [hpayload] at hloaded
  have hload : DurableStore.loadSnapshot agentCodec orphanedSnapshot = .ok (5, {}) :=
    (DurableStore.loadSnapshot_ok hloaded).mpr ⟨rfl, hdecode⟩
  have hnone : orphanedSnapshot.journal = none := Disk.setSlot_journal _ _ _
  exact DurableStore.accepted_of_missing hnone hload rfl

theorem orphaned_snapshot_not_durable : ¬ ∀ d, DurableStore.DurableFrom agentCodec d := by
  intro hall
  have hcovered : DurableStore.journalEnd orphanedSnapshot < DurableStore.snapshotCovered orphanedSnapshot := by
    rw [DurableStore.snapshotCovered, load_orphanedSnapshot]
    decide
  exact DurableStore.not_durableFrom changeable_agent accepted_orphanedSnapshot hcovered (hall orphanedSnapshot)

end ConfigurationFabric
