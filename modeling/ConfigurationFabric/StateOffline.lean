import ConfigurationFabric.StateSnapshot
import ConfigurationFabric.StoreCalls

/-! Loading a state directory without opening it, and where that agrees with opening it. -/

namespace ConfigurationFabric

open LittleEndian
open Program

namespace DurableStore

variable {State : Type} (codec : Codec State)

def offlineSnapshot (d : Disk) : Result (ℕ × State) :=
  match SnapshotFile.load kMaxSnapshotBytes d with
  | .error _ => .ok (0, codec.initial)
  | .ok loaded => do
    let state ← codec.decodeSnapshot loaded.payload
    return (loaded.coveredSequence, state)

/-- The base of the first segment-start record that has room for one, or zero. -/
def offlineBase (records : List JournalRecord) : ℕ :=
  match records.find? fun r => r.type == .segmentStart && r.payload.length == 8 with
  | none => 0
  | some r => load r.payload

def loadOffline (gap : String) : Prog Disk Io (Journal.Opened State) := do
  let d ← Prog.read
  match offlineSnapshot codec d with
  | .error e => return .refused e
  | .ok (covered, state) =>
    let io ← Journal.askScan
    let d ← Prog.read
    let scan := scanInto kMaxJournalRecordBytes io false d.journal
    Prog.modify fun d => { d with journal := scan.file }
    if scan.stream.misused then return .undefined
    match scan.status with
    | .error e => return .refused e
    | .ok () =>
      let base := offlineBase scan.records
      if base > (covered + 1) % 2 ^ 64 then
        return .refused ⟨.integrityFailure, gap, s!"snapshot-covered={covered} journal-base={base}"⟩
      match replay codec covered scan.records state with
      | .error e => return .refused e
      | .ok state => return .ok state

end DurableStore

def loadControllerStateOffline : Prog Disk Io (Journal.Opened ControllerState) :=
  DurableStore.loadOffline controllerCodec
    "durable state has a gap between the newest loadable snapshot and the journal base"

def loadAgentStateOffline : Prog Disk Io (Journal.Opened AgentState) :=
  DurableStore.loadOffline agentCodec
    "agent state has a gap between the newest loadable snapshot and the journal base"

/-! A scan that does not truncate. -/

theorem finishScan_file (io : ScanIo) (content : Bytes) (scan : Scanned) :
    (finishScan io false content scan).file = some content := by
  unfold finishScan
  split
  · rfl
  dsimp only
  split
  · rfl
  · rfl

theorem scanInto_file (maxRecordBytes : ℕ) (io : ScanIo) (file : Option Bytes) :
    (scanInto maxRecordBytes io false file).file = file := by
  unfold scanInto
  split
  · rfl
  case h_2 content hfile =>
  have hcontent : file = some content := by
    split at hfile
    · exact hfile
    · cases hfile
  dsimp only
  split
  · rfl
  split
  all_goals
    split
    · rfl
    split
    · rfl
    · rw [finishScan_file, hcontent]

theorem finishScan_untruncated (content : Bytes) (scan : Scanned) :
    let truncated := finishScan {} true content scan
    let kept := finishScan {} false content scan
    kept.status = truncated.status ∧ kept.stream.misused = truncated.stream.misused ∧ kept.records = truncated.records := by
  by_cases hknown : (scan.records.any fun r => !isKnownRecordType r.type.value) = true
  · cases hend : scan.ending <;> simp [finishScan, hend, hknown]
  · -- the torn tail is cut off a stream that may have been closed before
    cases hend : scan.ending <;> simp [finishScan, hend, hknown, Stream.use, Stream.close]

/-- Truncating changes the file and nothing else that a scan comes to. -/
theorem scanInto_untruncated (maxRecordBytes : ℕ) (content : Bytes) :
    let truncated := scanInto maxRecordBytes {} true (some content)
    let kept := scanInto maxRecordBytes {} false (some content)
    kept.status = truncated.status ∧ kept.stream.misused = truncated.stream.misused ∧
      kept.records = truncated.records := by
  unfold scanInto
  dsimp only
  split
  · exact ⟨rfl, rfl, rfl⟩
  split
  · exact ⟨rfl, rfl, rfl⟩
  split
  · exact ⟨rfl, rfl, rfl⟩
  split
  · exact ⟨rfl, rfl, rfl⟩
  · exact finishScan_untruncated _ _

namespace DurableStore

variable {State : Type} {codec : Codec State} {gap : String} {durable : Bool} {d : Disk} {content : Bytes} {s : State}

/-! What either way of reading a directory comes to. -/

theorem offlineSnapshot_eq : offlineSnapshot codec d = loadSnapshot codec d := by
  unfold offlineSnapshot loadSnapshot SnapshotFile.load
  cases SnapshotFile.newer (SnapshotFile.loadSlot kMaxSnapshotBytes d .a)
    (SnapshotFile.loadSlot kMaxSnapshotBytes d .b) with
  | none => rfl
  | some loaded => rfl

/-- The journal is read to its end. -/
structure JournalReads (content : Bytes) (records : List JournalRecord) : Prop where
  ok : (scanInto kMaxJournalRecordBytes {} false (some content)).status = .ok ()
  defined : (scanInto kMaxJournalRecordBytes {} false (some content)).stream.misused = false
  records_eq : (scanInto kMaxJournalRecordBytes {} false (some content)).records = records

theorem journalReads_whole {records : List JournalRecord} (hw : ∀ r ∈ records, r.WellFormed)
    (hc : Consecutive none records) : JournalReads (journalBytes records) records := by
  obtain ⟨hok, hrec, hmis, -⟩ := @scan_whole records [] hw hc false (by decide)
  rw [List.append_nil] at hok hrec hmis
  exact ⟨hok, hmis, hrec⟩

theorem recover_ok {covered : ℕ} {s₀ : State} {records : List JournalRecord} :
    recover codec covered s₀ records = .ok s ↔ ∃ base, baseSequence records = .ok base ∧ base ≠ 0 ∧
      base ≤ (covered + 1) % 2 ^ 64 ∧ replay codec covered records s₀ = .ok s := by
  unfold recover
  cases hbase : baseSequence records with
  | error e => simp [bind, Except.bind]
  | ok base =>
    by_cases hzero : base = 0
    · simp [bind, Except.bind, Result.fail, hzero]
    by_cases hgap : base > (covered + 1) % 2 ^ 64
    · simp only [bind, Except.bind, Result.fail, hzero, hgap, if_true, if_false]
      constructor
      · rintro ⟨⟩
      · rintro ⟨_, ⟨⟩, -, hle, -⟩
        omega
    · simp only [bind, Except.bind, hzero, hgap, if_false]
      constructor
      · exact fun h => ⟨base, rfl, hzero, not_lt.mp hgap, h⟩
      · rintro ⟨_, -, -, -, h⟩
        exact h

theorem offlineBase_eq {records : List JournalRecord} {base : ℕ} (h : baseSequence records = .ok base)
    (hbase : base ≠ 0) : offlineBase records = base := by
  unfold baseSequence at h
  cases hfirst : records.find? fun r => r.type == .segmentStart with
  | none =>
    rw [hfirst] at h
    exact absurd (Except.ok.inj h).symm hbase
  | some r =>
    rw [hfirst] at h
    dsimp only at h
    split at h
    · cases h
    case isFalse hlen =>
    obtain ⟨hseg, before, after, hsplit, hnone⟩ := List.find?_eq_some_iff_append.mp hfirst
    have hwide : records.find? (fun r => r.type == .segmentStart && r.payload.length == 8) = some r := by
      rw [List.find?_eq_some_iff_append]
      refine ⟨by simpa [not_not.mp hlen] using hseg, before, after, hsplit, fun a ha => ?_⟩
      have := hnone a ha
      simp only [Bool.not_eq_true', beq_eq_false_iff_ne, Bool.and_eq_false_imp] at this ⊢
      intro h
      exact absurd (eq_of_beq h) this
    unfold offlineBase
    rw [hwide]
    exact Except.ok.inj h

variable (codec durable d) in
def OpensWith (s : State) : Prop :=
  ∃ st d', Prog.Exec Sound (DurableStore.open codec durable) d (some (.ok st)) d' ∧ st.state = s

variable (codec gap d) in
def LoadsOffline (s : State) : Prop :=
  ∃ d', Prog.Exec Sound (loadOffline codec gap) d (some (.ok s)) d'

theorem opensWith_iff (hfile : d.journal = some content) :
    OpensWith codec durable d s ↔ ∃ covered s₀ records, loadSnapshot codec d = .ok (covered, s₀) ∧
      JournalReads content records ∧ recover codec covered s₀ records = .ok s := by
  obtain ⟨hstatus, hmisused, hrecords⟩ := scanInto_untruncated kMaxJournalRecordBytes content
  constructor
  · rintro ⟨st, d', he, rfl⟩
    cases hload : loadSnapshot codec d with
    | error e =>
      have hs : (DurableStore.open codec durable).Steps Sound (fun _ _ => True) (fun r _ => ∀ st, r ≠ .ok st) d := by
        simp only [DurableStore.open, Prog.steps_bind, Prog.steps_read, hload, Prog.steps_pure]
        simp
      exact absurd rfl ((hs.exec he).2 _ rfl st)
    | ok loaded =>
      obtain ⟨covered, s₀⟩ := loaded
      by_cases hbad : (scanInto kMaxJournalRecordBytes {} true (some content)).stream.misused = true ∨
          (scanInto kMaxJournalRecordBytes {} true (some content)).status ≠ .ok ()
      · have hs : (DurableStore.open codec durable).Steps Sound (fun _ _ => True) (fun r _ => ∀ st, r ≠ .ok st) d :=
          steps_open_refused hload (steps_open_unreadable hfile hbad)
        exact absurd rfl ((hs.exec he).2 _ rfl st)
      have hmis := Bool.eq_false_of_not_eq_true fun h => hbad (.inl h)
      have hok := not_not.mp fun h => hbad (.inr h)
      obtain ⟨records, hwell, hcons, hlog, hlast, hcount, hread⟩ := scan_log hok hmis
      have hlogged : Logged { d with journal := some (journalBytes records) } records := ⟨rfl, hwell, hcons⟩
      have hs := steps_open_rest (Q := fun r t => r = reopened codec durable t records ∧
          t = { d with journal := some (journalBytes records) }) hload hlogged hload
        (steps_openScanned hfile hok hmis hlog hlast hcount) ⟨rfl, rfl⟩
      obtain ⟨hr, rfl⟩ := (hs.exec he).2 _ rfl
      have hslots : loadSnapshot codec { d with journal := some (journalBytes records) } = .ok (covered, s₀) := hload
      rw [reopened, hslots] at hr
      refine ⟨covered, s₀, records, rfl, ⟨hstatus.trans hok, hmisused.trans hmis, hrecords.trans hread⟩, ?_⟩
      cases hrecover : recover codec covered s₀ records with
      | error e => simp [hrecover] at hr
      | ok s =>
        simp only [hrecover, Journal.Opened.ok.injEq] at hr
        rw [hr]
  · rintro ⟨covered, s₀, records, hload, hreads, hrecover⟩
    have hok := hstatus.symm.trans hreads.ok
    have hmis := hmisused.symm.trans hreads.defined
    obtain ⟨records', hwell, hcons, hlog, hlast, hcount, hread⟩ := scan_log hok hmis
    obtain rfl : records' = records := hread.symm.trans (hrecords.symm.trans hreads.records_eq)
    have hlogged : Logged { d with journal := some (journalBytes records') } records' := ⟨rfl, hwell, hcons⟩
    have hslots : loadSnapshot codec { d with journal := some (journalBytes records') } = .ok (covered, s₀) := hload
    obtain ⟨r, d', he⟩ := Prog.Exec.complete (show Sound .done from rfl) (DurableStore.open codec durable) d
    have hs := steps_open_rest (Q := fun r t => r = reopened codec durable t records' ∧
        t = { d with journal := some (journalBytes records') }) hload hlogged hload
      (steps_openScanned hfile hok hmis hlog hlast hcount) ⟨rfl, rfl⟩
    obtain ⟨rfl, rfl⟩ := (hs.exec he).2 _ rfl
    rw [reopened, hslots] at he
    simp only [hrecover] at he
    exact ⟨_, _, he, rfl⟩

/-- An offline load that is not disturbed. -/
theorem steps_loadOffline (hfile : d.journal = some content) :
    (loadOffline codec gap).Steps Sound (fun _ _ => True) (fun r t => t = d ∧ ∀ s, r = .ok s ↔
      ∃ covered s₀ records, loadSnapshot codec d = .ok (covered, s₀) ∧ JournalReads content records ∧
        offlineBase records ≤ (covered + 1) % 2 ^ 64 ∧ replay codec covered records s₀ = .ok s) d := by
  have hsame : { d with journal := (scanInto kMaxJournalRecordBytes {} false d.journal).file } = d := by
    rw [scanInto_file]
  simp only [loadOffline, Prog.steps_bind, Prog.steps_read, offlineSnapshot_eq]
  cases hload : loadSnapshot codec d with
  | error e =>
    refine ⟨rfl, fun s => iff_of_false (fun h => by cases h) ?_⟩
    rintro ⟨_, _, _, ⟨⟩, _⟩
  | ok loaded =>
    obtain ⟨covered, s₀⟩ := loaded
    simp only [Prog.steps_bind]
    refine steps_askScan ?_
    simp only [Prog.steps_bind, Prog.steps_read, Prog.steps_modify, true_and, hsame]
    rw [hfile]
    have hread (records : List JournalRecord) (h : JournalReads content records) := h.records_eq
    split
    case isTrue hmis =>
      refine ⟨rfl, fun s => iff_of_false (fun h => by cases h) ?_⟩
      rintro ⟨_, _, _, -, hreads, -⟩
      exact absurd (hmis.symm.trans hreads.defined) (by decide)
    case isFalse hmis =>
    cases hstatus : (scanInto kMaxJournalRecordBytes {} false (some content)).status with
    | error e =>
      refine ⟨rfl, fun s => iff_of_false (fun h => by cases h) ?_⟩
      rintro ⟨_, _, _, -, hreads, -⟩
      exact absurd (hstatus.symm.trans hreads.ok) (by simp)
    | ok _ =>
      dsimp only
      have hreads : JournalReads content (scanInto kMaxJournalRecordBytes {} false (some content)).records :=
        ⟨hstatus, Bool.eq_false_of_not_eq_true hmis, rfl⟩
      split
      case isTrue hgap =>
        refine ⟨rfl, fun s => iff_of_false (fun h => by cases h) ?_⟩
        rintro ⟨_, _, records, hload', hreads', hle, -⟩
        cases hload'
        rw [← hreads'.records_eq] at hle
        omega
      case isFalse hgap =>
      cases hreplay : replay codec covered (scanInto kMaxJournalRecordBytes {} false (some content)).records s₀ with
      | error e =>
        refine ⟨rfl, fun s => iff_of_false (fun h => by cases h) ?_⟩
        rintro ⟨_, _, records, hload', hreads', -, hok⟩
        cases hload'
        rw [← hreads'.records_eq, hreplay] at hok
        cases hok
      | ok s' =>
        refine ⟨rfl, fun s => ⟨?_, ?_⟩⟩
        · rintro ⟨⟩
          exact ⟨covered, s₀, _, rfl, hreads, not_lt.mp hgap, hreplay⟩
        · rintro ⟨_, _, records, hload', hreads', -, hok⟩
          cases hload'
          rw [← hreads'.records_eq, hreplay] at hok
          cases hok
          rfl

theorem loadsOffline_iff (hfile : d.journal = some content) :
    LoadsOffline codec gap d s ↔ ∃ covered s₀ records, loadSnapshot codec d = .ok (covered, s₀) ∧
      JournalReads content records ∧ offlineBase records ≤ (covered + 1) % 2 ^ 64 ∧
        replay codec covered records s₀ = .ok s := by
  have hs := @steps_loadOffline _ codec gap _ _ hfile
  constructor
  · rintro ⟨d', he⟩
    exact (((hs.exec he).2 _ rfl).2 s).mp rfl
  · intro h
    obtain ⟨r, d', he⟩ := Prog.Exec.complete (show Sound .done from rfl) (loadOffline codec gap) d
    obtain rfl := (((hs.exec he).2 _ rfl).2 s).mpr h
    exact ⟨d', he⟩

theorem steps_askScan_any {allowed : Io → Prop} {R : Disk → Disk → Prop} {Q : ScanIo → Disk → Prop}
    (h : ∀ io, Q io d) : Journal.askScan.Steps allowed R Q d := by
  simp only [Journal.askScan, Prog.steps_bind, Prog.steps_ask, Prog.steps_pure]
  intro _ _ _ _ _ _ _ _
  exact h _

theorem steps_loadOffline_unchanged (allowed : Io → Prop) :
    (loadOffline codec gap).Steps allowed Eq (fun _ _ => True) d := by
  simp only [loadOffline, Prog.steps_bind, Prog.steps_read]
  split
  · trivial
  simp only [Prog.steps_bind]
  refine steps_askScan_any fun io => ?_
  simp only [Prog.steps_bind, Prog.steps_read, Prog.steps_modify, scanInto_file, true_and]
  split
  · trivial
  split
  · trivial
  split
  · trivial
  split
  · trivial
  · trivial

/-- Whatever goes wrong on the way, an offline load leaves the directory as it was. -/
theorem loadOffline_unchanged {r : Option (Journal.Opened State)} {d' : Disk}
    (he : Prog.Exec (fun _ => True) (loadOffline codec gap) d r d') : d' = d := by
  have hreach := ((steps_loadOffline_unchanged (fun _ => True)).exec he).1
  clear he
  induction hreach with
  | refl => rfl
  | tail _ h ih => rw [← h, ih]

/-! Where the two agree. -/

variable (codec) in
/-- A directory that is loaded as what it is opened as, and left alone. -/
def Agrees (loading : Prog Disk Io (Journal.Opened State)) (d : Disk) : Prop :=
  (∀ durable s, (∃ d', Prog.Exec Sound loading d (some (.ok s)) d') ↔ OpensWith codec durable d s) ∧
    ∀ r d', Prog.Exec (fun _ => True) loading d r d' → d' = d

/-- The first segment-start record is there, has room for a base and names one. -/
def BeginsSegment (records : List JournalRecord) : Prop :=
  ∃ r, records.find? (fun r => r.type == .segmentStart) = some r ∧ r.payload.length = 8 ∧ load r.payload ≠ 0

variable (codec) in
/-- The journal begins a segment, or it is not read to the end, the snapshot does not decode, the first base that
can be read leaves a gap, or a record does not apply. -/
def SegmentedOrRefused (d : Disk) (content : Bytes) : Prop :=
  ∀ covered s₀ records s, loadSnapshot codec d = .ok (covered, s₀) → JournalReads content records →
    (∀ r, records.find? (fun r => r.type == .segmentStart && r.payload.length == 8) = some r →
      load r.payload ≤ (covered + 1) % 2 ^ 64) →
    replay codec covered records s₀ = .ok s → BeginsSegment records

theorem beginsSegment_iff {records : List JournalRecord} :
    BeginsSegment records ↔ ∃ base, baseSequence records = .ok base ∧ base ≠ 0 := by
  unfold BeginsSegment baseSequence
  cases records.find? fun r => r.type == .segmentStart with
  | none => simp
  | some r =>
    by_cases hlen : r.payload.length = 8
    · simp [hlen]
    · simp [hlen, Result.fail]

theorem offlineBase_le {records : List JournalRecord} {n : ℕ} :
    offlineBase records ≤ n ↔
      ∀ r, records.find? (fun r => r.type == .segmentStart && r.payload.length == 8) = some r → load r.payload ≤ n := by
  unfold offlineBase
  cases records.find? fun r => r.type == .segmentStart && r.payload.length == 8 <;> simp

theorem LoadsOffline.of_opens (hfile : d.journal = some content) (h : OpensWith codec durable d s) :
    LoadsOffline codec gap d s := by
  obtain ⟨covered, s₀, records, hload, hreads, hrecover⟩ := (opensWith_iff hfile).mp h
  obtain ⟨base, hbase, hne, hle, hreplay⟩ := recover_ok.mp hrecover
  exact (loadsOffline_iff hfile).mpr ⟨covered, s₀, records, hload, hreads, by rwa [offlineBase_eq hbase hne], hreplay⟩

theorem agrees_iff (hfile : d.journal = some content) :
    Agrees codec (loadOffline codec gap) d ↔ SegmentedOrRefused codec d content := by
  constructor
  · rintro ⟨hagree, -⟩ covered s₀ records s hload hreads hgap hreplay
    have hloads : LoadsOffline codec gap d s :=
      (loadsOffline_iff hfile).mpr ⟨covered, s₀, records, hload, hreads, offlineBase_le.mpr hgap, hreplay⟩
    obtain ⟨_, _, _, hload', hreads', hrecover⟩ := (opensWith_iff hfile).mp ((hagree true s).mp hloads)
    cases hload.symm.trans hload'
    rw [← hreads'.records_eq, hreads.records_eq] at hrecover
    obtain ⟨base, hbase, hne, -⟩ := recover_ok.mp hrecover
    exact beginsSegment_iff.mpr ⟨base, hbase, hne⟩
  · intro h
    refine ⟨fun durable s => ⟨fun hloads => ?_, LoadsOffline.of_opens hfile⟩, fun r d' => loadOffline_unchanged⟩
    obtain ⟨covered, s₀, records, hload, hreads, hle, hreplay⟩ := (loadsOffline_iff hfile).mp hloads
    obtain ⟨base, hbase, hne⟩ := beginsSegment_iff.mp (h covered s₀ records s hload hreads (offlineBase_le.mp hle) hreplay)
    rw [offlineBase_eq hbase hne] at hle
    exact (opensWith_iff hfile).mpr ⟨covered, s₀, records, hload, hreads, recover_ok.mpr ⟨base, hbase, hne, hle, hreplay⟩⟩

end DurableStore

/-- A directory with a journal is inspected as it is opened exactly when its journal begins a segment or both refuse
it. -/
theorem offline_agrees_iff (d : Disk) (content : Bytes) (hfile : d.journal = some content) :
    (DurableStore.Agrees controllerCodec loadControllerStateOffline d ↔
        DurableStore.SegmentedOrRefused controllerCodec d content) ∧
      (DurableStore.Agrees agentCodec loadAgentStateOffline d ↔
        DurableStore.SegmentedOrRefused agentCodec d content) :=
  ⟨DurableStore.agrees_iff hfile, DurableStore.agrees_iff hfile⟩

/-- A journal with one segment. -/
theorem begun_journal_agrees :
    (⟨some (journalBytes [segmentStart 1]), none, none⟩ : Disk).journal = some (journalBytes [segmentStart 1]) ∧
      DurableStore.Agrees agentCodec loadAgentStateOffline ⟨some (journalBytes [segmentStart 1]), none, none⟩ := by
  refine ⟨rfl, (offline_agrees_iff _ (journalBytes [segmentStart 1]) rfl).2.mpr ?_⟩
  intro covered s₀ records s _ hreads _ _
  have hfresh := DurableStore.logged_fresh {}
  have hwhole := DurableStore.journalReads_whole hfresh.wellFormed hfresh.consecutive
  rw [← hreads.records_eq, hwhole.records_eq]
  exact ⟨segmentStart 1, rfl, rfl, by decide⟩

/-- A journal that was cut after its header is inspected as an empty state and cannot be opened. -/
theorem headed_journal_disagrees :
    ¬ DurableStore.Agrees agentCodec loadAgentStateOffline ⟨some (journalBytes []), none, none⟩ := by
  intro h
  have hreads : DurableStore.JournalReads (journalBytes []) [] := DurableStore.journalReads_whole (by simp) trivial
  have hloads : DurableStore.LoadsOffline agentCodec
      "agent state has a gap between the newest loadable snapshot and the journal base"
      ⟨some (journalBytes []), none, none⟩ {} :=
    (DurableStore.loadsOffline_iff (rfl : _ = some (journalBytes []))).mpr ⟨0, {}, [], rfl, hreads, Nat.zero_le _, rfl⟩
  obtain ⟨_, _, records, -, hreads', hrecover⟩ := (DurableStore.opensWith_iff rfl).mp ((h.1 true {}).mp hloads)
  rw [← hreads'.records_eq, hreads.records_eq] at hrecover
  obtain ⟨base, hbase, hne, -⟩ := DurableStore.recover_ok.mp hrecover
  exact hne (Except.ok.inj hbase).symm

end ConfigurationFabric
