import ConfigurationFabric.JournalLog
import ConfigurationFabric.StoreCrash

namespace ConfigurationFabric

open LittleEndian
open Program

namespace DurableStore

variable {State : Type} {codec : Codec State}

/-! What a call that returned ok has done. -/

theorem commit_ok {st st' : DurableStore State} {d d' : Disk} {type : JournalRecordType} {payload : Bytes}
    (h : Prog.Exec (fun _ => True) (st.commit codec type payload) d (some (.ok (), st')) d') :
    ∃ state, codec.apply st.state type payload = (.ok (), state) ∧ st.journal.Accepts type payload ∧
      st' = { st with state, journal := st.journal.appended } ∧
      d' = d.append (recordBytes (st.journal.nextRecord type payload)) := by
  have hs : (st.commit codec type payload).Steps (fun _ => True) (fun _ _ => True) (fun r t => r.1 = .ok () →
      ∃ state, codec.apply st.state type payload = (.ok (), state) ∧ st.journal.Accepts type payload ∧
        r.2 = { st with state, journal := st.journal.appended } ∧
        t = d.append (recordBytes (st.journal.nextRecord type payload))) d := by
    apply steps_commit
    · intro _ e hok
      cases hok
    · intro e state _ _ _ hok
      cases hok
    · intro state _ _ ha
      apply Journal.steps_append
      · exact fun _ _ _ => trivial
      · exact fun hacc _ => ⟨state, ha, hacc, rfl, rfl⟩
      · intro _ e hok
        cases hok
      · intro _ _ e _ _ hok
        cases hok
  exact (hs.exec h).2 _ rfl rfl

/-- The directory after a compaction at `covered`. -/
def compacted (d : Disk) (covered : ℕ) (encoded : Bytes) : Disk :=
  { withSnapshot d covered encoded with journal := some (journalBytes [segmentStart ((covered + 1) % 2 ^ 64)]) }

theorem steps_compact {st : DurableStore State} {d : Disk} {file : Bytes} (hfile : d.journal = some file) :
    (st.compact codec).Steps Sound (fun _ _ => True) (fun r t => r.1 = .ok () →
      ∃ encoded, codec.encodeSnapshot st.state = .ok encoded ∧ encoded.length ≤ kMaxSnapshotBytes ∧
        (st.journal.lastSequence + 1) % 2 ^ 64 ≠ 0 ∧
        r.2 = { st with journal :=
          { st.journal with lastSequence := (st.journal.lastSequence + 1) % 2 ^ 64, recordCount := 1 } } ∧
        t = compacted d st.journal.lastSequence encoded) d := by
  unfold compact
  split
  · intro hok
    cases hok
  split
  case h_1 e he =>
    intro hok
    cases hok
  case h_2 encoded he =>
    rw [Prog.steps_bind]
    refine steps_writeSnapshot ?_ (fun _ => trivial) ?_
    · intro _ e hok
      cases hok
    · intro hlen
      have hfile' : (withSnapshot d st.journal.lastSequence encoded).journal = some file := by simp [hfile]
      simp only [Prog.steps_bind]
      refine Journal.steps_restartSegment hfile' (fun _ _ => trivial) trivial (fun _ _ => trivial) ?_ ?_
        fun hf => absurd hf not_faulty_sound
      · intro hbase _
        refine ⟨encoded, he, hlen, hbase, rfl, ?_⟩
        simp [compacted, Disk.append, Journal.headerOnly, journalBytes]
      · intro _ e hok
        cases hok

theorem compact_ok {st st' : DurableStore State} {d d' : Disk} {file : Bytes} (hfile : d.journal = some file)
    (h : Prog.Exec Sound (st.compact codec) d (some (.ok (), st')) d') :
    ∃ encoded, codec.encodeSnapshot st.state = .ok encoded ∧ encoded.length ≤ kMaxSnapshotBytes ∧
      (st.journal.lastSequence + 1) % 2 ^ 64 ≠ 0 ∧
      st' = { st with journal :=
        { st.journal with lastSequence := (st.journal.lastSequence + 1) % 2 ^ 64, recordCount := 1 } } ∧
      d' = compacted d st.journal.lastSequence encoded :=
  ((steps_compact hfile).exec h).2 _ rfl rfl

/-! Opening a directory whose journal holds whole records. -/

structure Logged (d : Disk) (records : List JournalRecord) : Prop where
  file : d.journal = some (journalBytes records)
  wellFormed : ∀ r ∈ records, r.WellFormed
  consecutive : Consecutive none records

variable (codec) in
/-- What opening such a directory comes to. -/
def reopened (durable : Bool) (d : Disk) (records : List JournalRecord) : Journal.Opened (DurableStore State) :=
  match loadSnapshot codec d with
  | .error e => .refused e
  | .ok (covered, s₀) =>
    match recover codec covered s₀ records with
    | .error e => .refused e
    | .ok state =>
      .ok { state, journal := { durable, lastSequence := lastSequenceOf records, recordCount := records.length } }

theorem Logged.same {d : Disk} {records : List JournalRecord} (h : Logged d records) :
    { d with journal := some (journalBytes records) } = d := by
  rw [← h.file]

/-- The rest of opening, once the journal of a directory has been opened. -/
theorem steps_open_rest {d t : Disk} {records : List JournalRecord} {covered : ℕ} {s₀ : State} {durable : Bool}
    {Q : Journal.Opened (DurableStore State) → Disk → Prop} (hload : loadSnapshot codec d = .ok (covered, s₀))
    (ht : Logged t records) (hslots : loadSnapshot codec t = .ok (covered, s₀))
    (hj : (Journal.open { durable }).Steps Sound (fun _ _ => True) (fun r t' => t' = t ∧
      r = .ok { durable, lastSequence := lastSequenceOf records, recordCount := records.length }) d)
    (hQ : Q (reopened codec durable t records) t) :
    (DurableStore.open codec durable).Steps Sound (fun _ _ => True) Q d := by
  simp only [DurableStore.open, Prog.steps_bind, Prog.steps_read, hload]
  refine hj.mono ?_
  rintro _ _ ⟨rfl, rfl⟩
  obtain ⟨hok, hrec, hmis, -, -, -⟩ := @scan_whole _ [] ht.wellFormed ht.consecutive false (by decide)
  rw [List.append_nil, ← ht.file] at hok hrec hmis
  simp only [reopened, hslots] at hQ
  simp only [Prog.steps_bind]
  refine steps_askScan ?_
  simp only [hok, hrec, hmis, Bool.false_eq_true, if_false, Prog.steps_bind, Prog.steps_read]
  cases hrecover : recover codec covered s₀ records with
  | error e => simpa only [hrecover, Prog.steps_pure] using hQ
  | ok s => simpa only [hrecover, Prog.steps_pure] using hQ

theorem steps_openScanned {d : Disk} {content : Bytes} {records : List JournalRecord} {durable : Bool}
    (hfile : d.journal = some content)
    (hok : (scanInto kMaxJournalRecordBytes {} true (some content)).status = .ok ())
    (hmis : (scanInto kMaxJournalRecordBytes {} true (some content)).stream.misused = false)
    (hlog : (scanInto kMaxJournalRecordBytes {} true (some content)).file = some (journalBytes records))
    (hlast : (scanInto kMaxJournalRecordBytes {} true (some content)).recovery.lastSequence = lastSequenceOf records)
    (hcount : (scanInto kMaxJournalRecordBytes {} true (some content)).recovery.recordsRecovered = records.length) :
    (Journal.open { durable }).Steps Sound (fun _ _ => True) (fun r t =>
      t = { d with journal := some (journalBytes records) } ∧
      r = .ok { durable, lastSequence := lastSequenceOf records, recordCount := records.length }) d := by
  unfold Journal.open
  rw [if_neg (by simp [kMaxJournalRecordBytes]), Prog.steps_bind, Prog.steps_read]
  simp only [hfile, Journal.openExisting, Prog.steps_bind]
  refine steps_askScan ?_
  simp only [hfile, hlog, hmis, hok, Bool.false_eq_true, if_false, Prog.steps_bind, Prog.steps_read,
    Prog.steps_modify, true_and]
  refine steps_succeeds_sound ?_
  simp only [Bool.not_true, Bool.false_eq_true, if_false, Prog.steps_bind]
  refine steps_succeeds_sound ?_
  simp only [Bool.not_true, Bool.false_eq_true, if_false, Prog.steps_pure, hlast, hcount, and_self]

theorem Logged.open_eq {d d' : Disk} {records : List JournalRecord} (h : Logged d records) {durable : Bool}
    {r : Journal.Opened (DurableStore State)}
    (he : Prog.Exec Sound (DurableStore.open codec durable) d (some r) d') :
    r = reopened codec durable d records ∧ d' = d := by
  have hs : (DurableStore.open codec durable).Steps Sound (fun _ _ => True)
      (fun r t => r = reopened codec durable d records ∧ t = d) d := by
    cases hload : loadSnapshot codec d with
    | error e =>
      simp only [DurableStore.open, Prog.steps_bind, Prog.steps_read, hload, Prog.steps_pure, reopened, and_self]
    | ok loaded =>
      obtain ⟨covered, s₀⟩ := loaded
      obtain ⟨hok, -, hmis, hlast, hcount, hfile⟩ :=
        @scan_whole _ [] h.wellFormed h.consecutive true (by decide)
      rw [List.append_nil] at hok hmis hlast hcount hfile
      have hj := @steps_openScanned d _ records durable h.file hok hmis hfile hlast hcount
      rw [h.same] at hj
      exact steps_open_rest hload h hload hj ⟨rfl, rfl⟩
  exact (hs.exec he).2 _ rfl

/-! Opening any directory. -/

theorem logged_fresh (d : Disk) : Logged { d with journal := some (journalBytes [segmentStart 1]) } [segmentStart 1] where
  file := rfl
  wellFormed := by simpa using segmentStart_wellFormed (by decide) (by decide)
  consecutive := ⟨rfl, trivial⟩

theorem steps_create {d : Disk} (hnone : d.journal = none) {durable : Bool} :
    (Journal.open { durable }).Steps Sound (fun _ _ => True) (fun r t =>
      t = { d with journal := some (journalBytes [segmentStart 1]) } ∧
      r = .ok { durable, lastSequence := 1, recordCount := 1 }) d := by
  unfold Journal.open
  rw [if_neg (by simp [kMaxJournalRecordBytes]), Prog.steps_bind, Prog.steps_read]
  simp only [hnone, Journal.create, Prog.steps_bind]
  refine steps_succeeds_sound ?_
  simp only [Bool.not_true, Bool.false_eq_true, if_false, Prog.steps_bind]
  refine steps_succeeds_sound ?_
  simp only [Bool.not_true, Bool.false_eq_true, if_false, Prog.steps_bind, Prog.steps_modify, true_and]
  refine steps_fwrite (fun _ _ => trivial) ?_ fun hf => absurd hf not_faulty_sound
  simp only [Bool.not_true, Bool.false_eq_true, if_false, Prog.steps_bind]
  refine steps_flushJournal ?_ fun hf => absurd hf not_faulty_sound
  simp only [Prog.steps_bind]
  refine Journal.steps_restartSegment rfl (fun _ _ => trivial) trivial (fun _ _ => trivial) ?_
    (fun h => absurd h (by decide)) fun hf => absurd hf not_faulty_sound
  intro _
  simp [Disk.append, Journal.headerOnly, journalBytes]

/-- A journal whose scan does not come out well is not opened. -/
theorem steps_open_unreadable {d : Disk} {content : Bytes} (hfile : d.journal = some content) {durable : Bool}
    (hbad : (scanInto kMaxJournalRecordBytes {} true (some content)).stream.misused = true ∨
      (scanInto kMaxJournalRecordBytes {} true (some content)).status ≠ .ok ()) :
    (Journal.open { durable }).Steps Sound (fun _ _ => True) (fun r _ => ∀ j, r ≠ .ok j) d := by
  unfold Journal.open
  rw [if_neg (by simp [kMaxJournalRecordBytes]), Prog.steps_bind, Prog.steps_read]
  simp only [hfile, Journal.openExisting, Prog.steps_bind]
  refine steps_askScan ?_
  simp only [hfile, Prog.steps_bind, Prog.steps_read, Prog.steps_modify, true_and]
  split
  · simp
  case isFalse hmis =>
    have hstatus := hbad.resolve_left hmis
    split
    · simp
    case h_2 hok => exact absurd hok hstatus

theorem steps_open_refused {d : Disk} {covered : ℕ} {s₀ : State} {durable : Bool}
    (hload : loadSnapshot codec d = .ok (covered, s₀))
    (hj : (Journal.open { durable }).Steps Sound (fun _ _ => True) (fun r _ => ∀ j, r ≠ .ok j) d) :
    (DurableStore.open codec durable).Steps Sound (fun _ _ => True) (fun r _ => ∀ st, r ≠ .ok st) d := by
  simp only [DurableStore.open, Prog.steps_bind, Prog.steps_read, hload]
  refine hj.mono ?_
  intro r t hr
  cases r with
  | ok j => exact absurd rfl (hr j)
  | refused e => simp
  | undefined => simp

/-- The sequence number at which the journal of a directory ends once it is opened. -/
def journalEnd (d : Disk) : ℕ :=
  match d.journal with
  | none => 1
  | some content => (scanInto kMaxJournalRecordBytes {} true (some content)).recovery.lastSequence

/-- A directory that is opened holds whole records afterwards, and the store stands for what they come to. -/
theorem open_ok {d d' : Disk} {st : DurableStore State} {durable : Bool}
    (he : Prog.Exec Sound (DurableStore.open codec durable) d (some (.ok st)) d') :
    ∃ records, Logged d' records ∧ d' = { d with journal := some (journalBytes records) } ∧
      lastSequenceOf records = journalEnd d ∧ .ok st = reopened codec durable d' records := by
  have hs : (DurableStore.open codec durable).Steps Sound (fun _ _ => True) (fun r t => ∀ st, r = .ok st →
      ∃ records, Logged t records ∧ t = { d with journal := some (journalBytes records) } ∧
        lastSequenceOf records = journalEnd d ∧ r = reopened codec durable t records) d := by
    cases hload : loadSnapshot codec d with
    | error e =>
      simp only [DurableStore.open, Prog.steps_bind, Prog.steps_read, hload, Prog.steps_pure]
      rintro st ⟨⟩
    | ok loaded =>
      obtain ⟨covered, s₀⟩ := loaded
      cases hfile : d.journal with
      | none =>
        refine steps_open_rest hload (logged_fresh d) hload (steps_create hfile) ?_
        exact fun st _ => ⟨[segmentStart 1], logged_fresh d, rfl, by rw [journalEnd, hfile]; rfl, rfl⟩
      | some content =>
        by_cases hmis : (scanInto kMaxJournalRecordBytes {} true (some content)).stream.misused = true
        · refine (steps_open_refused hload (steps_open_unreadable hfile (.inl hmis))).mono ?_
          exact fun r t hno st hst => absurd hst (hno st)
        cases hok : (scanInto kMaxJournalRecordBytes {} true (some content)).status with
        | error e =>
          have hbad : (scanInto kMaxJournalRecordBytes {} true (some content)).status ≠ .ok () := by
            rw [hok]
            simp
          refine (steps_open_refused hload (steps_open_unreadable hfile (.inr hbad))).mono ?_
          exact fun r t hno st hst => absurd hst (hno st)
        | ok _ =>
          have hmis' := Bool.eq_false_of_not_eq_true hmis
          obtain ⟨records, hwell, hcons, hlog, hlast, hcount, -⟩ := scan_log hok hmis'
          have hlogged : Logged { d with journal := some (journalBytes records) } records := ⟨rfl, hwell, hcons⟩
          refine steps_open_rest hload hlogged hload (steps_openScanned hfile hok hmis' hlog hlast hcount) ?_
          exact fun st _ => ⟨records, hlogged, rfl, by rw [journalEnd, hfile]; exact hlast.symm, rfl⟩
  exact (hs.exec he).2 _ rfl st rfl

end DurableStore

end ConfigurationFabric
