import ConfigurationFabric.StateStored
import ConfigurationFabric.StoreCalls

namespace ConfigurationFabric

open LittleEndian
open Program

/-! Codecs whose snapshots say what the state is. -/

/-- States reached by accepted records are `Stored`, and a snapshot of one is read back as that state or not at all. -/
structure Faithful {State : Type} (codec : Codec State) (Stored Fits : State → Prop) : Prop where
  initial : Stored codec.initial
  apply : ∀ {s t type payload}, Stored s → codec.apply s type payload = (.ok (), t) → Stored t
  reads : ∀ {s encoded}, Stored s → Fits s → codec.encodeSnapshot s = .ok encoded → codec.decodeSnapshot encoded = .ok s
  agrees : ∀ {s t encoded}, Stored s → codec.encodeSnapshot s = .ok encoded → encoded.length ≤ kMaxSnapshotBytes →
    codec.decodeSnapshot encoded = .ok t → t = s

theorem Scripted.stored {State : Type} {codec : Codec State}
    {steps : JournalRecordType → Option (List (FieldStep State))} (h : Scripted codec steps) {Stored : State → Prop}
    (hassigns : ∀ {type fields}, steps type = some fields → ∀ step ∈ fields, Assigns Stored step) {s t : State}
    {type : JournalRecordType} {payload : Bytes} (hs : Stored s) (ha : codec.apply s type payload = (.ok (), t)) :
    Stored t := by
  cases hsteps : steps type with
  | none =>
    have hno := (h.apply_none hsteps s payload).2
    rw [ha] at hno
    cases hno
  | some fields =>
    have hstate := applyScript_assigns (hassigns hsteps) hs payload
    rwa [← h.apply_some hsteps, ha] at hstate

/-- The snapshot reader takes at most this many artifacts; the writer does not look. -/
def ControllerState.Fits (s : ControllerState) : Prop := s.artifacts.length ≤ kMaxSnapshotEntries

theorem faithful_agent : Faithful agentCodec AgentState.Stored fun _ => True where
  initial := AgentStateCodec.stored_initial
  apply := scripted_agent.stored AgentStateCodec.stored_assigns
  reads h _ hencoded := run'_ok.mpr ⟨[], AgentStateCodec.read_encodeSnapshot h hencoded⟩
  agrees h hencoded _ hdecoded := by
    have hback := run'_ok.mpr ⟨[], AgentStateCodec.read_encodeSnapshot h hencoded⟩
    exact Except.ok.inj (hdecoded.symm.trans hback)

theorem faithful_controller : Faithful controllerCodec ControllerState.Stored ControllerState.Fits where
  initial := ControllerStateCodec.stored_initial
  apply := scripted_controller.stored ControllerStateCodec.stored_assigns
  reads h hfits hencoded := run'_ok.mpr ⟨[], ControllerStateCodec.read_encodeSnapshot h hfits hencoded⟩
  agrees {s t encoded} h hencoded hlen hdecoded := by
    by_cases hfits : s.artifacts.length ≤ kMaxSnapshotEntries
    · have hback := run'_ok.mpr ⟨[], ControllerStateCodec.read_encodeSnapshot h hfits hencoded⟩
      exact Except.ok.inj (hdecoded.symm.trans hback)
    · obtain ⟨rest, hread⟩ := run'_ok.mp hdecoded
      exact absurd hread (ControllerStateCodec.readSnapshot_oversized h (Nat.not_le.mp hfits) hencoded hlen)

namespace DurableStore

variable {State : Type}

/-! Fault-free histories. -/

/-- The committed records, folded over the empty state. -/
def folded (codec : Codec State) (cs : List Commit) : State :=
  cs.foldl (fun s c => (codec.apply s c.type c.payload).2) codec.initial

/-- `Ran codec fits cs st d`: from an empty directory, calls that all returned ok have committed `cs`; every
compaction was of a state that `fits`. -/
inductive Ran (codec : Codec State) (fits : State → Prop) : List Commit → DurableStore State → Disk → Prop
  | created {st : DurableStore State} {d : Disk} {durable : Bool} :
      Prog.Exec Sound (DurableStore.open codec durable) {} (some (.ok st)) d → Ran codec fits [] st d
  | committed {cs : List Commit} {st st' : DurableStore State} {d d' : Disk} {c : Commit} : Ran codec fits cs st d →
      Prog.Exec Sound (st.commit codec c.type c.payload) d (some (.ok (), st')) d' →
      Ran codec fits (cs ++ [c]) st' d'
  | compacted {cs : List Commit} {st st' : DurableStore State} {d d' : Disk} : Ran codec fits cs st d →
      fits st.state → Prog.Exec Sound (st.compact codec) d (some (.ok (), st')) d' → Ran codec fits cs st' d'
  | reopened {cs : List Commit} {st st' : DurableStore State} {d d' : Disk} {durable : Bool} : Ran codec fits cs st d →
      Prog.Exec Sound (DurableStore.open codec durable) d (some (.ok st')) d' → Ran codec fits cs st' d'

/-- Opening `d` comes to an end, always in an open store with state `s` at sequence number `last`. -/
def OpensAs (codec : Codec State) (d : Disk) (s : State) (last : ℕ) : Prop :=
  ∀ durable, (∃ r d', Prog.Exec Sound (DurableStore.open codec durable) d (some r) d') ∧
    ∀ r d', Prog.Exec Sound (DurableStore.open codec durable) d (some r) d' →
      ∃ st, r = .ok st ∧ st.state = s ∧ st.journal.lastSequence = last

variable {codec : Codec State} {Stored Fits : State → Prop}

/-- The store and its directory after a fault-free history. -/
structure Replays (codec : Codec State) (Stored : State → Prop) (cs : List Commit) (st : DurableStore State) (d : Disk) :
    Prop where
  state : st.state = folded codec cs
  stored : Stored st.state
  bound : st.journal.maxRecordBytes = kMaxJournalRecordBytes
  holds : ∃ base records, Holds codec d base records [] st.state ∧
    st.journal.lastSequence = lastSequenceOf (segmentStart base :: records)

theorem folded_snoc (cs : List Commit) (c : Commit) :
    folded codec (cs ++ [c]) = (codec.apply (folded codec cs) c.type c.payload).2 := by
  simp [folded]

theorem Holds.logged {d : Disk} {base : ℕ} {records : List JournalRecord} {s : State}
    (h : Holds codec d base records [] s) : Logged d (segmentStart base :: records) where
  file := by rw [h.file, List.append_nil]
  wellFormed := h.wellFormed
  consecutive := h.consecutive

theorem Holds.reopened_eq {d : Disk} {base : ℕ} {records : List JournalRecord} {s : State}
    (h : Holds codec d base records [] s) (durable : Bool) :
    reopened codec durable d (segmentStart base :: records) =
      .ok { state := s, journal := { durable, lastSequence := lastSequenceOf (segmentStart base :: records),
                                     recordCount := records.length + 1 } } := by
  obtain ⟨covered, s₀, hload, hrecover⟩ := h.recover
  simp [reopened, hload, hrecover]

theorem open_fresh {d : Disk} {r : Journal.Opened (DurableStore State)} {durable : Bool}
    (he : Prog.Exec Sound (DurableStore.open codec durable) {} (some r) d) :
    r = reopened codec durable d [segmentStart 1] ∧ d = { journal := some (journalBytes [segmentStart 1]) } := by
  have hload : loadSnapshot codec {} = .ok (0, codec.initial) := rfl
  have hs : (DurableStore.open codec durable).Steps Sound (fun _ _ => True) (fun r t =>
      r = reopened codec durable t [segmentStart 1] ∧ t = { journal := some (journalBytes [segmentStart 1]) }) {} :=
    steps_open_rest hload (logged_fresh {}) hload (steps_create rfl) ⟨rfl, rfl⟩
  exact (hs.exec he).2 _ rfl

theorem Exec.anyway {α : Type} {p : Prog Disk Io α} {d d' : Disk} {r : Option α} (h : Prog.Exec Sound p d r d') :
    Prog.Exec (fun _ => True) p d r d' := h.mono fun _ _ => trivial

theorem not_framing {s t : State} {type : JournalRecordType} {payload : Bytes}
    (ha : codec.apply s type payload = (.ok (), t)) : type ≠ .segmentStart := by
  intro ht
  have hno := codec.framing_refused s payload type (.inl ht)
  rw [ha] at hno
  cases hno

theorem Replays.committed {cs : List Commit} {st st' : DurableStore State} {d d' : Disk} {c : Commit}
    (hf : Faithful codec Stored Fits) (h : Replays codec Stored cs st d)
    (he : Prog.Exec Sound (st.commit codec c.type c.payload) d (some (.ok (), st')) d') :
    Replays codec Stored (cs ++ [c]) st' d' ∧ st'.journal.lastSequence = st.journal.lastSequence + 1 := by
  obtain ⟨state, ha, hacc, rfl, rfl⟩ := commit_ok (Exec.anyway he)
  obtain ⟨base, records, hd, hlast⟩ := h.holds
  obtain ⟨hknown, hsmall, hseq⟩ := hacc
  have hw : (st.journal.nextRecord c.type c.payload).WellFormed :=
    ⟨hknown, by simp [Journal.nextRecord], by simp only [Journal.nextRecord]; omega, by rwa [← h.bound]⟩
  have hd' := hd.snoc hw (not_framing ha) (by rw [← hlast]; rfl) ha
  refine ⟨{ state := ?_, stored := hf.apply h.stored ha, bound := h.bound, holds := ⟨base, _, hd', ?_⟩ }, rfl⟩
  · rw [folded_snoc, ← h.state, ha]
  · rw [← List.cons_append, lastSequenceOf_snoc]
    rfl

theorem Replays.compacted {cs : List Commit} {st st' : DurableStore State} {d d' : Disk}
    (hf : Faithful codec Stored Fits) (h : Replays codec Stored cs st d) (hfits : Fits st.state)
    (he : Prog.Exec Sound (st.compact codec) d (some (.ok (), st')) d') : Replays codec Stored cs st' d' := by
  obtain ⟨base, records, hd, hlast⟩ := h.holds
  obtain ⟨encoded, hencoded, hlen, hbase, rfl, rfl⟩ := compact_ok hd.file he
  have hbelow : st.journal.lastSequence < 2 ^ 64 := by
    obtain ⟨q, hq⟩ : ∃ q, (segmentStart base :: records).getLast? = some q :=
      Option.isSome_iff_exists.mp (by simp)
    have hlt := (hd.wellFormed q (List.mem_of_getLast? hq)).sequence_lt
    rw [hlast, lastSequenceOf, hq]
    exact hlt
  have hlt : st.journal.lastSequence < 2 ^ 64 - 1 := by
    by_contra hge
    have hend : st.journal.lastSequence + 1 = 2 ^ 64 := by omega
    rw [hend] at hbase
    exact hbase (Nat.mod_self _)
  have hmod : (st.journal.lastSequence + 1) % 2 ^ 64 = st.journal.lastSequence + 1 := Nat.mod_eq_of_lt (by omega)
  have hdec := hf.reads h.stored hfits hencoded
  have hnew := holds_restarted hlt (hd.loadSnapshot_written hlast hlt hlen hdec)
  refine { state := h.state, stored := h.stored, bound := h.bound, holds := ⟨st.journal.lastSequence + 1, [], ?_, ?_⟩ }
  · rw [DurableStore.compacted, hmod]
    exact hnew
  · simp only [hmod]
    rfl

theorem Replays.reopened {cs : List Commit} {st st' : DurableStore State} {d d' : Disk} {durable : Bool}
    (h : Replays codec Stored cs st d)
    (he : Prog.Exec Sound (DurableStore.open codec durable) d (some (.ok st')) d') :
    Replays codec Stored cs st' d' := by
  obtain ⟨base, records, hd, -⟩ := h.holds
  obtain ⟨hr, rfl⟩ := hd.logged.open_eq he
  rw [hd.reopened_eq] at hr
  cases hr
  exact { state := h.state, stored := h.stored, bound := rfl, holds := ⟨base, records, hd, rfl⟩ }

theorem Ran.replays (hf : Faithful codec Stored Fits) {cs : List Commit} {st : DurableStore State} {d : Disk}
    (h : Ran codec Fits cs st d) : Replays codec Stored cs st d := by
  induction h with
  | created he =>
    obtain ⟨hr, rfl⟩ := open_fresh he
    rw [holds_fresh.reopened_eq] at hr
    cases hr
    exact { state := rfl, stored := hf.initial, bound := rfl, holds := ⟨1, [], holds_fresh, rfl⟩ }
  | committed _ he ih => exact (ih.committed hf he).1
  | compacted _ hfits he ih => exact ih.compacted hf hfits he
  | reopened _ he ih => exact ih.reopened he

theorem Replays.opensAs {cs : List Commit} {st : DurableStore State} {d : Disk} (h : Replays codec Stored cs st d) :
    OpensAs codec d (folded codec cs) st.journal.lastSequence := by
  obtain ⟨base, records, hd, hlast⟩ := h.holds
  intro durable
  refine ⟨Prog.Exec.complete (show Sound .done from rfl) _ _, fun r d' he => ?_⟩
  obtain ⟨rfl, -⟩ := hd.logged.open_eq he
  rw [hd.reopened_eq]
  exact ⟨_, rfl, h.state, hlast.symm⟩

/-- Reopening gives the folded state, and so does reopening after one more commit, whose number is the next. -/
def Continues (codec : Codec State) (clear : State → State) (cs : List Commit) (st : DurableStore State) (d : Disk) :
    Prop :=
  OpensAs codec d (clear (folded codec cs)) st.journal.lastSequence ∧
    ∀ durable st₁ d₁ c st₂ d₂, Prog.Exec Sound (DurableStore.open codec durable) d (some (.ok st₁)) d₁ →
      Prog.Exec Sound (st₁.commit codec c.type c.payload) d₁ (some (.ok (), st₂)) d₂ →
        st₂.journal.lastSequence = st.journal.lastSequence + 1 ∧
          OpensAs codec d₂ (clear (folded codec (cs ++ [c]))) st₂.journal.lastSequence

theorem Ran.continues (hf : Faithful codec Stored Fits) {clear : State → State} (hclear : ∀ s, Stored s → clear s = s)
    {cs : List Commit} {st : DurableStore State} {d : Disk} (h : Ran codec Fits cs st d) :
    Continues codec clear cs st d := by
  have hreplays := h.replays hf
  have hopens := hreplays.opensAs
  constructor
  · rw [hclear _ (hreplays.state ▸ hreplays.stored)]
    exact hopens
  · intro durable st₁ d₁ c st₂ d₂ hopen hcommit
    obtain ⟨st', hst', -, hlast⟩ := (hopens durable).2 _ _ hopen
    cases hst'
    obtain ⟨hnext, hseq⟩ := (hreplays.reopened hopen).committed hf hcommit
    refine ⟨by rw [hseq, hlast], ?_⟩
    rw [hclear _ (hnext.state ▸ hnext.stored)]
    exact hnext.opensAs

end DurableStore

/-- Contact evidence belongs to one process; a state read from disk has none. -/
def ControllerState.clearContact (s : ControllerState) : ControllerState :=
  { s with targets := s.targets.map fun e => (e.1, { e.2 with contactEstablishedThisProcess := false }) }

theorem ControllerState.Stored.clearContact_eq {s : ControllerState} (h : s.Stored) : s.clearContact = s := by
  have hmap : s.targets.map (fun e => (e.1, { e.2 with contactEstablishedThisProcess := false })) = s.targets := by
    rw [List.map_congr_left (g := id), List.map_id]
    rintro ⟨k, v⟩ he
    have hcontact := ControllerStateCodec.contact_of_came (h.targets.came _ he)
    simp only at hcontact
    simp [← hcontact]
  unfold ControllerState.clearContact
  rw [hmap]

/-- After any fault-free history of commits, compactions and reopenings the directory reopens as the fold of its
records, for controllers (up to contact evidence, with artifacts a snapshot can hold) and for agents. -/
theorem replay_fidelity :
    (∀ (cs : List Commit) (st : DurableStore ControllerState) (d : Disk),
      DurableStore.Ran controllerCodec ControllerState.Fits cs st d →
        DurableStore.Continues controllerCodec ControllerState.clearContact cs st d) ∧
      ∀ (cs : List Commit) (st : DurableStore AgentState) (d : Disk),
        DurableStore.Ran agentCodec (fun _ => True) cs st d → DurableStore.Continues agentCodec id cs st d :=
  ⟨fun _ _ _ h => h.continues faithful_controller fun _ hs => hs.clearContact_eq,
    fun _ _ _ h => h.continues faithful_agent fun _ _ => rfl⟩

/-- The second generation becomes the committed one. -/
def secondCommit : Commit :=
  ⟨.agentTargetCommit, ByteWriter.u64 2 ++ (List.replicate 32 7 ++ (ByteWriter.u32 1 ++ text "a"))⟩

def secondCommitted : AgentState where
  committedGeneration := 2
  committedDigest := .fill 32 7
  committedArtifact := text "a"

/-- A commit and a compaction. -/
theorem ran_commit_and_compaction :
    ∃ d, DurableStore.Ran agentCodec (fun _ => True) [secondCommit]
      { state := secondCommitted, journal := { lastSequence := 3, recordCount := 1 } } d := by
  let st (s : AgentState) (last count : ℕ) : DurableStore AgentState :=
    { state := s, journal := { lastSequence := last, recordCount := count } }
  let d : Disk := { journal := some (journalBytes [segmentStart 1]) }
  let d₁ : Disk := { journal := some (journalBytes [segmentStart 1, ⟨.agentTargetCommit, 2, secondCommit.payload⟩]) }
  have hsound : ∀ io ∈ List.replicate 30 Io.done, Sound io := by simp [Sound]
  have hopen : Prog.Exec Sound (DurableStore.open agentCodec true) {} (some (.ok (st {} 1 1))) d :=
    Prog.exec_of_run _ 100 hsound (by decide +kernel)
  have hfirst : Prog.Exec Sound ((st {} 1 1).commit agentCodec secondCommit.type secondCommit.payload) d
      (some (.ok (), st secondCommitted 2 2)) d₁ :=
    Prog.exec_of_run _ 100 hsound (by decide +kernel)
  obtain ⟨d₂, hcompact⟩ : ∃ d₂, Prog.Exec Sound ((st secondCommitted 2 2).compact agentCodec) d₁
      (some (.ok (), st secondCommitted 3 1)) d₂ :=
    Prog.exec_of_result _ 100 hsound (by decide +kernel)
  exact ⟨d₂, .compacted (.committed (c := secondCommit) (.created hopen) hfirst) trivial hcompact⟩

theorem folded_secondCommit : DurableStore.folded agentCodec [secondCommit] = secondCommitted := by decide

theorem commit_and_compaction_replayed :
    ∃ st d, DurableStore.Ran agentCodec (fun _ => True) [secondCommit] st d ∧
      DurableStore.OpensAs agentCodec d secondCommitted 3 := by
  obtain ⟨d, hran⟩ := ran_commit_and_compaction
  have hopens := (replay_fidelity.2 _ _ _ hran).1
  rw [folded_secondCommit] at hopens
  exact ⟨_, d, hran, hopens⟩

end ConfigurationFabric
