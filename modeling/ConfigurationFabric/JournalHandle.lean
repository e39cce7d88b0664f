import ConfigurationFabric.JournalScan

/-! The stream of a scan as a handle that can be closed once. -/

namespace ConfigurationFabric

open LittleEndian

structure Handle where
  isOpen : Bool := false
  closes : ℕ := 0
  deriving DecidableEq

/-- Code that works on a handle; `none` is the error of using one that is closed. -/
abbrev Handled (α : Type) := StateT Handle Option α

namespace Handled

def fopen : Handled Unit := fun h => some ((), { h with isOpen := true })

def touch : Handled Unit := fun h => if h.isOpen then some ((), h) else none

def fclose : Handled Unit := fun h => if h.isOpen then some ((), ⟨false, h.closes + 1⟩) else none

variable {α β : Type}

theorem bind_run (p : Handled α) (f : α → Handled β) (h : Handle) :
    (p >>= f) h = (p h).bind fun r => f r.1 r.2 := rfl

theorem fopen_run (h : Handle) : fopen h = some ((), { h with isOpen := true }) := rfl

end Handled

open Handled

/-- What the calls of one scan answer; `stream` is what can be read before the end or an error. -/
structure ScanCalls where
  path : String
  opens : Bool
  fileSize : Option ℕ
  stream : Bytes
  resizeError : Option String

structure ScanState where
  recovery : JournalRecovery := {}
  records : Option (List JournalRecord)

def ScanState.push (s : ScanState) (record : JournalRecord) : ScanState :=
  { recovery :=
      { s.recovery with recordsRecovered := s.recovery.recordsRecovered + 1, lastSequence := record.sequence }
    records := s.records.map (· ++ [record]) }

/-- The recovery of a tail that is given up; the count of its bytes wraps around as the source's does. -/
def ScanState.tornTail (s : ScanState) (fileSize lastGoodOffset : ℕ) (detail : String) : ScanState :=
  { s with
    recovery :=
      { s.recovery with
        outcome := .truncatedTail
        discardedBytes := if lastGoodOffset ≤ fileSize then fileSize - lastGoodOffset
          else fileSize + 2 ^ 64 - lastGoodOffset
        detail := detail } }

def ScanState.failed (s : ScanState) (outcome : JournalOutcome) (detail : String) : ScanState :=
  { s with recovery := { s.recovery with outcome := outcome, detail := detail } }

structure ScanReturn where
  status : Status
  state : ScanState
  /-- the length that the file was cut back to -/
  resized : Option ℕ := none

/-- The record loop is left by a return, or to the code behind it. -/
inductive LoopExit
  | returned (result : ScanReturn)
  | left (state : ScanState) (lastGoodOffset : ℕ)

def readExact (stream : Bytes) (count : ℕ) : Handled (Option (Bytes × Bytes)) := do
  touch
  pure (if stream.length < count then none else some (stream.take count, stream.drop count))

def readPayload (stream : Bytes) (count : ℕ) : Handled (Option (Bytes × Bytes)) :=
  if count > 0 then readExact stream count else pure (some ([], stream))

def failMidFile (s : ScanState) (detail : String) : LoopExit :=
  .returned ⟨.fail .integrityFailure "journal is corrupted" detail, s.failed .corrupted detail, none⟩

def scanRecords (maxRecordBytes fileSize : ℕ) : ℕ → Option ℕ → ℕ → Bytes → ScanState → Handled LoopExit
  | 0, _, offset, _, s => pure (.left s offset)
  | fuel + 1, expected, offset, stream, s => do
    match ← readExact stream kJournalRecordHeaderBytes with
    | none =>
      if offset ≠ fileSize then
        pure (.left (s.tornTail fileSize offset "torn record header at the end of the journal was discarded") offset)
      else if s.recovery.outcome ≠ .truncatedTail then
        pure (.left { s with recovery := { s.recovery with outcome := .clean } } offset)
      else pure (.left s offset)
    | some (recordHeader, body) =>
      let h := loadRecordHeader recordHeader
      if headerPlausible maxRecordBytes h = false then do
        fclose
        pure (failMidFile s s!"record header at offset {offset} is not a valid record")
      else do
        match ← readPayload body h.payloadLength with
        | none => do
          -- the stream is closed here, and the loop is left to code that goes on with it
          fclose
          pure (.left (s.tornTail fileSize offset "torn record payload at the end of the journal was discarded") offset)
        | some (payload, rest) =>
          let record := h.record payload
          if (recordChecksum record.type record.sequence record.payload).toNat ≠ h.storedCrc then do
            fclose
            pure (failMidFile s s!"record at offset {offset} failed its checksum")
          else if follows expected record.sequence = false then do
            fclose
            pure (failMidFile s s!"record sequence {record.sequence} does not follow {expected.getD 0}")
          else
            scanRecords maxRecordBytes fileSize fuel (some record.sequence)
              (offset + kJournalRecordHeaderBytes + h.payloadLength) rest (s.push record)

/-- The code behind the record loop. -/
def finishRecords (calls : ScanCalls) (truncateTornTail : Bool) (s : ScanState) (lastGoodOffset : ℕ) :
    Handled ScanReturn :=
  if (s.records.getD []).any fun r => !isKnownRecordType r.type.value then do
    fclose
    let detail := "journal contains a record type this build does not understand"
    pure ⟨.fail .unsupportedVersion detail, s.failed .unsupportedVersion detail, none⟩
  else if truncateTornTail = true ∧ s.recovery.outcome = .truncatedTail then do
    touch
    match calls.resizeError with
    | some message =>
      fclose
      let detail := "cannot truncate a torn tail from the journal: " ++ message
      pure ⟨.fail .ioFailure detail, s.failed .corrupted detail, none⟩
    | none =>
      fclose
      pure ⟨.ok (), s, some lastGoodOffset⟩
  else do
    fclose
    pure ⟨.ok (), s, none⟩

/-- `scanInto` with its stream as a handle; `records` is what the caller's vector holds, if there is one. -/
def scanHandled (maxRecordBytes : ℕ) (calls : ScanCalls) (truncateTornTail : Bool)
    (records : Option (List JournalRecord)) : Handled ScanReturn :=
  let s : ScanState := { records }
  if calls.opens = false then
    pure ⟨.fail .openFailed "cannot open journal file" calls.path, s.failed .notAJournal "cannot open journal file", none⟩
  else do
    fopen
    match calls.fileSize with
    | none =>
      fclose
      pure ⟨.fail .ioFailure "cannot size journal file" calls.path, s.failed .notAJournal "", none⟩
    | some fileSize =>
      match ← readExact calls.stream kJournalHeaderBytes with
      | none =>
        fclose
        pure ⟨.fail .truncatedFrame "journal header is incomplete",
          s.failed .notAJournal "journal header is incomplete", none⟩
      | some (header, stream) =>
        match validateJournalHeader header with
        | .error e =>
          fclose
          pure ⟨.error e,
            s.failed (if e.code = .unsupportedVersion then .unsupportedVersion else .notAJournal) e.str, none⟩
        | .ok () =>
          match ← scanRecords maxRecordBytes fileSize (stream.length + 1) none kJournalHeaderBytes stream s with
          | .returned result => pure result
          | .left s lastGoodOffset => finishRecords calls truncateTornTail s lastGoodOffset

/-! The loop against the scan of bytes alone. -/

section Loop

variable {maxRecordBytes fileSize n : ℕ}

/-- How the loop leaves an open handle: closed where it returns, and where a payload is cut short. -/
def leaves (fileSize n : ℕ) (s : ScanState) (scan : Scanned) : LoopExit × Handle :=
  let s := scan.records.foldl ScanState.push s
  match scan.ending with
  | .clean => (.left { s with recovery := { s.recovery with outcome := .clean } } scan.lastGoodOffset, ⟨true, n⟩)
  | .tornHeader => (.left (s.tornTail fileSize scan.lastGoodOffset (tornDetail .tornHeader)) scan.lastGoodOffset, ⟨true, n⟩)
  | .tornPayload =>
    (.left (s.tornTail fileSize scan.lastGoodOffset (tornDetail .tornPayload)) scan.lastGoodOffset, ⟨false, n + 1⟩)
  | .corrupted detail => (failMidFile s detail, ⟨false, n + 1⟩)

theorem loadRecordHeader_taken (stream : Bytes) :
    loadRecordHeader (stream.take kJournalRecordHeaderBytes) = loadRecordHeader stream := by
  simp only [loadRecordHeader, kJournalRecordHeaderBytes, List.drop_take, List.take_take]
  rfl

theorem readExact_open (stream : Bytes) (count : ℕ) :
    readExact stream count ⟨true, n⟩ =
      some (if stream.length < count then none else some (stream.take count, stream.drop count), ⟨true, n⟩) := rfl

theorem readPayload_open (stream : Bytes) (count : ℕ) :
    readPayload stream count ⟨true, n⟩ =
      some (if stream.length < count then none else some (stream.take count, stream.drop count), ⟨true, n⟩) := by
  unfold readPayload
  by_cases hcount : count > 0
  · rw [if_pos hcount, readExact_open]
  · obtain rfl : count = 0 := by omega
    rw [if_neg hcount, if_neg (Nat.not_lt_zero _)]
    rfl

theorem leaves_cons (s : ScanState) (record : JournalRecord) (scan : Scanned) :
    leaves fileSize n s { scan with records := record :: scan.records } = leaves fileSize n (s.push record) scan := rfl

theorem scanRecords_open {fuel : ℕ} {expected : Option ℕ} {offset : ℕ} {stream : Bytes} {s : ScanState}
    (hfuel : stream.length < fuel) (houtcome : s.recovery.outcome ≠ .truncatedTail) :
    scanRecords maxRecordBytes fileSize fuel expected offset stream s ⟨true, n⟩ =
      some (leaves fileSize n s (scanLoop maxRecordBytes fileSize fuel expected offset stream)) := by
  induction fuel generalizing expected offset stream s with
  | zero => omega
  | succ fuel ih =>
    rw [scanRecords, scanLoop, Handled.bind_run, readExact_open]
    by_cases hs : stream.length < kJournalRecordHeaderBytes
    · rw [if_pos hs, if_pos hs]
      dsimp only [Option.bind_some]
      by_cases hsize : offset = fileSize
      · rw [if_neg (not_not.mpr hsize), if_neg (not_not.mpr hsize), if_pos houtcome]
        rfl
      · rw [if_pos hsize, if_pos hsize]
        rfl
    rw [if_neg hs, if_neg hs]
    dsimp only [Option.bind_some]
    rw [loadRecordHeader_taken]
    have hrest : (stream.drop kJournalRecordHeaderBytes).length < fuel := by
      simp only [List.length_drop, kJournalRecordHeaderBytes] at hs ⊢
      omega
    generalize loadRecordHeader stream = h
    generalize stream.drop kJournalRecordHeaderBytes = body at hrest
    by_cases hp : headerPlausible maxRecordBytes h = false
    · rw [if_pos hp, if_pos hp]
      rfl
    rw [if_neg hp, if_neg hp, Handled.bind_run, readPayload_open]
    by_cases hshort : body.length < h.payloadLength
    · rw [if_pos hshort, if_pos hshort]
      rfl
    rw [if_neg hshort, if_neg hshort]
    dsimp only [Option.bind_some]
    generalize h.record (body.take h.payloadLength) = record
    by_cases hc : (recordChecksum record.type record.sequence record.payload).toNat ≠ h.storedCrc
    · rw [if_pos hc, if_pos hc]
      rfl
    rw [if_neg hc, if_neg hc]
    by_cases hf : follows expected record.sequence = false
    · rw [if_pos hf, if_pos hf]
      rfl
    rw [if_neg hf, if_neg hf, leaves_cons]
    apply ih
    · rw [List.length_drop]
      omega
    · exact houtcome

/-- Records that follow one another, then a header that may stand and less payload than it announces. -/
inductive TornPayload (maxRecordBytes : ℕ) : Option ℕ → Bytes → Prop
  | torn {expected : Option ℕ} {header payload : Bytes} (hs : header.length = kJournalRecordHeaderBytes)
      (hp : headerPlausible maxRecordBytes (loadRecordHeader header) = true)
      (ht : payload.length < (loadRecordHeader header).payloadLength) :
      TornPayload maxRecordBytes expected (header ++ payload)
  | record {expected : Option ℕ} {header payload rest : Bytes} {h : RecordHeader}
      (hs : header.length = kJournalRecordHeaderBytes) (hh : loadRecordHeader header = h)
      (hp : headerPlausible maxRecordBytes h = true) (hl : payload.length = h.payloadLength)
      (hc : (recordChecksum (h.record payload).type h.rawSequence payload).toNat = h.storedCrc)
      (hf : follows expected h.rawSequence = true) (hr : TornPayload maxRecordBytes (some h.rawSequence) rest) :
      TornPayload maxRecordBytes expected (header ++ (payload ++ rest))

theorem tornPayload_iff {expected : Option ℕ} {header body : Bytes} (hs : header.length = kJournalRecordHeaderBytes) :
    TornPayload maxRecordBytes expected (header ++ body) ↔
      let h := loadRecordHeader header
      let payload := body.take h.payloadLength
      headerPlausible maxRecordBytes h = true ∧
        (body.length < h.payloadLength ∨
          (recordChecksum (h.record payload).type h.rawSequence payload).toNat = h.storedCrc ∧
            follows expected h.rawSequence = true ∧
            TornPayload maxRecordBytes (some h.rawSequence) (body.drop h.payloadLength)) := by
  dsimp only
  constructor
  · intro ht
    generalize hstream : header ++ body = stream at ht
    cases ht with
    | @torn _ front payload hs' hp ht =>
      obtain ⟨rfl, rfl⟩ := List.append_inj hstream (hs.trans hs'.symm)
      exact ⟨hp, .inl ht⟩
    | @record _ front payload rest h hs' hh hp hl hc hf hr =>
      obtain ⟨rfl, rfl⟩ := List.append_inj hstream (hs.trans hs'.symm)
      subst hh
      rw [← hl, List.take_left, List.drop_left]
      exact ⟨hp, .inr ⟨hc, hf, hr⟩⟩
  · rintro ⟨hp, hcase⟩
    by_cases ht : body.length < (loadRecordHeader header).payloadLength
    · exact .torn hs hp ht
    obtain hshort | ⟨hc, hf, hr⟩ := hcase
    · exact absurd hshort ht
    · rw [← List.take_append_drop (loadRecordHeader header).payloadLength body]
      refine .record hs rfl hp ?_ hc hf hr
      rw [List.length_take]
      exact min_eq_left (Nat.not_lt.mp ht)

theorem not_tornPayload_of_short {expected : Option ℕ} {stream : Bytes}
    (hs : stream.length < kJournalRecordHeaderBytes) : ¬ TornPayload maxRecordBytes expected stream := by
  intro h
  cases h <;>
  · rw [List.length_append] at hs
    omega

theorem ending_tornPayload_iff {fuel : ℕ} {expected : Option ℕ} {offset : ℕ} {stream : Bytes}
    (hfuel : stream.length < fuel) :
    (scanLoop maxRecordBytes fileSize fuel expected offset stream).ending = .tornPayload ↔
      TornPayload maxRecordBytes expected stream := by
  induction fuel generalizing expected offset stream with
  | zero => omega
  | succ fuel ih =>
    by_cases hs : stream.length < kJournalRecordHeaderBytes
    · rw [scanLoop_short hs]
      refine iff_of_false ?_ (not_tornPayload_of_short hs)
      by_cases hsize : offset ≠ fileSize <;> simp [hsize]
    have hfront : (stream.take kJournalRecordHeaderBytes).length = kJournalRecordHeaderBytes := by
      rw [List.length_take]
      exact min_eq_left (Nat.not_lt.mp hs)
    have hrest : (stream.drop kJournalRecordHeaderBytes).length < fuel := by
      simp only [List.length_drop, kJournalRecordHeaderBytes] at hs ⊢
      omega
    have hsplit : TornPayload maxRecordBytes expected stream ↔ TornPayload maxRecordBytes expected
        (stream.take kJournalRecordHeaderBytes ++ stream.drop kJournalRecordHeaderBytes) := by
      rw [List.take_append_drop]
    rw [hsplit, tornPayload_iff hfront, loadRecordHeader_taken, scanLoop, if_neg hs]
    generalize loadRecordHeader stream = h
    generalize stream.drop kJournalRecordHeaderBytes = body at hrest
    dsimp only
    by_cases hp : headerPlausible maxRecordBytes h = false
    · rw [if_pos hp]
      exact iff_of_false (by simp) (fun hall => Bool.false_ne_true (hp.symm.trans hall.1))
    rw [if_neg hp, and_iff_right (Bool.eq_true_of_not_eq_false hp)]
    by_cases hshort : body.length < h.payloadLength
    · rw [if_pos hshort]
      exact iff_of_true rfl (.inl hshort)
    rw [if_neg hshort, or_iff_right hshort]
    generalize body.take h.payloadLength = payload
    have hsequence : (h.record payload).sequence = h.rawSequence := rfl
    have hpayload : (h.record payload).payload = payload := rfl
    rw [hsequence, hpayload]
    by_cases hc : (recordChecksum (h.record payload).type h.rawSequence payload).toNat = h.storedCrc
    · rw [if_neg (not_not.mpr hc), and_iff_right hc]
      by_cases hf : follows expected h.rawSequence = false
      · rw [if_pos hf]
        exact iff_of_false (by simp) (fun hall => Bool.false_ne_true (hf.symm.trans hall.1))
      · rw [if_neg hf, and_iff_right (Bool.eq_true_of_not_eq_false hf)]
        apply ih
        rw [List.length_drop]
        omega
    · rw [if_pos hc]
      exact iff_of_false (by simp) (fun hall => hc hall.1)

end Loop

/-! The whole scan. -/

theorem finishRecords_closed (calls : ScanCalls) (truncateTornTail : Bool) (s : ScanState) (lastGoodOffset n : ℕ) :
    finishRecords calls truncateTornTail s lastGoodOffset ⟨false, n⟩ = none := by
  unfold finishRecords
  split
  · rfl
  split <;> rfl

theorem finishRecords_open (calls : ScanCalls) (truncateTornTail : Bool) (s : ScanState) (lastGoodOffset n : ℕ) :
    ∃ result, finishRecords calls truncateTornTail s lastGoodOffset ⟨true, n⟩ = some (result, ⟨false, n + 1⟩) := by
  unfold finishRecords
  split
  · exact ⟨_, rfl⟩
  split
  · cases hresize : calls.resizeError <;> exact ⟨_, rfl⟩
  · exact ⟨_, rfl⟩

variable {maxRecordBytes : ℕ} {calls : ScanCalls} {truncateTornTail : Bool} {records : Option (List JournalRecord)}

/-- The file is opened and sized, its header is a journal's, and what follows ends inside a payload. -/
structure EndsInPayload (maxRecordBytes : ℕ) (calls : ScanCalls) : Prop where
  opens : calls.opens = true
  sized : calls.fileSize ≠ none
  header : kJournalHeaderBytes ≤ calls.stream.length
  valid : validateJournalHeader (calls.stream.take kJournalHeaderBytes) = .ok ()
  torn : TornPayload maxRecordBytes none (calls.stream.drop kJournalHeaderBytes)

/-- What the scan comes to once the file is open and sized and its header is read. -/
theorem scanHandled_read {fileSize : ℕ} (hopens : calls.opens = true) (hsize : calls.fileSize = some fileSize)
    (hheader : kJournalHeaderBytes ≤ calls.stream.length)
    (hvalid : validateJournalHeader (calls.stream.take kJournalHeaderBytes) = .ok ()) :
    scanHandled maxRecordBytes calls truncateTornTail records {} =
      let stream := calls.stream.drop kJournalHeaderBytes
      let run := leaves fileSize 0 { records }
        (scanLoop maxRecordBytes fileSize (stream.length + 1) none kJournalHeaderBytes stream)
      match run.1 with
      | .returned result => some (result, run.2)
      | .left s lastGoodOffset => finishRecords calls truncateTornTail s lastGoodOffset run.2 := by
  have houtcome : ({ records } : ScanState).recovery.outcome ≠ .truncatedTail := by
    change JournalOutcome.created ≠ .truncatedTail
    decide
  have hexact : readExact calls.stream kJournalHeaderBytes ⟨true, 0⟩ =
      some (some (calls.stream.take kJournalHeaderBytes, calls.stream.drop kJournalHeaderBytes), ⟨true, 0⟩) := by
    rw [readExact_open, if_neg (Nat.not_lt.mpr hheader)]
  rw [scanHandled, if_neg (by simp [hopens])]
  simp only [Handled.bind_run, Handled.fopen_run, Option.bind_some, hsize, hexact, hvalid,
    scanRecords_open (Nat.lt_succ_self _) houtcome]
  generalize leaves fileSize 0 { records } _ = run
  obtain ⟨result | ⟨s, lastGoodOffset⟩, h⟩ := run <;> rfl

theorem scanHandled_torn (h : EndsInPayload maxRecordBytes calls) :
    scanHandled maxRecordBytes calls truncateTornTail records {} = none := by
  obtain ⟨fileSize, hsize⟩ := Option.ne_none_iff_exists'.mp h.sized
  have hending : (scanLoop maxRecordBytes fileSize ((calls.stream.drop kJournalHeaderBytes).length + 1) none
      kJournalHeaderBytes (calls.stream.drop kJournalHeaderBytes)).ending = .tornPayload :=
    (ending_tornPayload_iff (Nat.lt_succ_self _)).mpr h.torn
  rw [scanHandled_read h.opens hsize h.header h.valid]
  dsimp only
  rw [leaves, hending]
  exact finishRecords_closed _ _ _ _ _

/-- Whatever the file holds and the calls answer, the stream is closed once, unless the file ends inside a payload. -/
theorem scan_closes_once_iff (maxRecordBytes : ℕ) (calls : ScanCalls) (truncateTornTail : Bool)
    (records : Option (List JournalRecord)) :
    (∃ result, scanHandled maxRecordBytes calls truncateTornTail records {} =
      some (result, ⟨false, if calls.opens then 1 else 0⟩)) ↔ ¬ EndsInPayload maxRecordBytes calls := by
  constructor
  · rintro ⟨result, hrun⟩ h
    rw [scanHandled_torn h] at hrun
    cases hrun
  intro hnot
  by_cases hopens : calls.opens = true
  case neg =>
    rw [Bool.not_eq_true] at hopens
    rw [scanHandled, if_pos hopens, hopens]
    exact ⟨_, rfl⟩
  rw [hopens, if_pos rfl]
  cases hsize : calls.fileSize with
  | none =>
    simp only [scanHandled, hopens, Bool.true_eq_false, if_false, hsize, Handled.bind_run, Handled.fopen_run,
      Option.bind_some]
    exact ⟨_, rfl⟩
  | some fileSize =>
    by_cases hheader : calls.stream.length < kJournalHeaderBytes
    · have hexact : readExact calls.stream kJournalHeaderBytes ⟨true, 0⟩ = some (none, ⟨true, 0⟩) := by
        rw [readExact_open, if_pos hheader]
      simp only [scanHandled, hopens, Bool.true_eq_false, if_false, hsize, Handled.bind_run, Handled.fopen_run,
        Option.bind_some, hexact]
      exact ⟨_, rfl⟩
    rw [Nat.not_lt] at hheader
    cases hvalid : validateJournalHeader (calls.stream.take kJournalHeaderBytes) with
    | error e =>
      have hexact : readExact calls.stream kJournalHeaderBytes ⟨true, 0⟩ =
          some (some (calls.stream.take kJournalHeaderBytes, calls.stream.drop kJournalHeaderBytes), ⟨true, 0⟩) := by
        rw [readExact_open, if_neg (Nat.not_lt.mpr hheader)]
      simp only [scanHandled, hopens, Bool.true_eq_false, if_false, hsize, Handled.bind_run, Handled.fopen_run,
        Option.bind_some, hexact, hvalid]
      exact ⟨_, rfl⟩
    | ok =>
      rw [scanHandled_read hopens hsize hheader hvalid]
      dsimp only
      generalize hscan : scanLoop maxRecordBytes fileSize _ none kJournalHeaderBytes _ = scan
      have hending : scan.ending ≠ .tornPayload := by
        intro hending
        rw [← hscan] at hending
        have htorn := (ending_tornPayload_iff (Nat.lt_succ_self _)).mp hending
        exact hnot ⟨hopens, by simp [hsize], hheader, hvalid, htorn⟩
      unfold leaves
      cases hcase : scan.ending with
      | tornPayload => exact absurd hcase hending
      | corrupted detail => exact ⟨_, rfl⟩
      | clean => exact finishRecords_open _ _ _ _ _
      | tornHeader => exact finishRecords_open _ _ _ _ _

theorem torn_payload_closes_twice :
    scanHandled kMaxJournalRecordBytes
        ⟨"journal", true, some 35, (journalBytes [segmentStart 1]).take 35, none⟩ true none {} = none ∧
      scanHandled kMaxJournalRecordBytes
        ⟨"journal", true, some 35, (journalBytes [segmentStart 1]).take 35, none⟩ false none {} = none := by
  decide +kernel

/-! The stream of the scan of bytes alone. -/

def ScanCalls.ofIo (path message : String) (io : ScanIo) (file : Option Bytes) : ScanCalls where
  path := path
  opens := io.opens && file.isSome
  fileSize := if io.sized then file.map List.length else none
  stream := match io.readable with
    | none => file.getD []
    | some n => (file.getD []).take n
  resizeError := if io.resized then none else some message

theorem misused_finishScan {io : ScanIo} {content : Bytes} {scan : Scanned} :
    (finishScan io truncateTornTail content scan).stream.misused = true ↔ scan.ending = .tornPayload := by
  unfold finishScan
  cases hending : scan.ending with
  | corrupted detail => simp [Stream.close, Stream.use]
  | clean =>
    dsimp only
    split_ifs <;> simp_all [Stream.close, Stream.use]
  | tornHeader =>
    dsimp only
    split_ifs <;> simp_all [Stream.close, Stream.use]
  | tornPayload =>
    dsimp only
    split_ifs <;> simp_all [Stream.close, Stream.use]

theorem misused_scanInto {io : ScanIo} {content readable : Bytes} {path message : String} (hio : io.opens = true)
    (hreadable : (ScanCalls.ofIo path message io (some content)).stream = readable) :
    (scanInto maxRecordBytes io truncateTornTail (some content)).stream.misused =
      if io.sized = false ∨ readable.length < kJournalHeaderBytes then false
      else match validateJournalHeader (readable.take kJournalHeaderBytes) with
        | .error _ => false
        | .ok () =>
          decide ((scanLoop maxRecordBytes content.length (readable.length + 1) none kJournalHeaderBytes
            (readable.drop kJournalHeaderBytes)).ending = .tornPayload) := by
  subst hreadable
  unfold scanInto ScanCalls.ofIo
  rw [if_pos hio]
  dsimp only [Option.getD_some]
  cases io.readable <;>
  · by_cases hsized : io.sized = false
    · rw [if_pos hsized, if_pos (.inl hsized)]
      rfl
    rw [if_neg hsized]
    simp only [hsized, Bool.true_eq_false, false_or]
    split
    · rfl
    · generalize validateJournalHeader _ = header
      cases header with
      | error e => rfl
      | ok => rw [Bool.eq_iff_iff, misused_finishScan, decide_eq_true_iff]

/-- The stream is misused just where the handle's scan ends in the error. -/
theorem misused_iff {io : ScanIo} {file : Option Bytes} {path message : String} :
    (scanInto maxRecordBytes io truncateTornTail file).stream.misused = true ↔
      EndsInPayload maxRecordBytes (.ofIo path message io file) := by
  by_cases hopens : (ScanCalls.ofIo path message io file).opens = true
  case neg =>
    have hclosed : (if io.opens then file else none) = none := by
      simp only [ScanCalls.ofIo, Bool.and_eq_true, not_and] at hopens
      split
      · cases file with
        | none => rfl
        | some content => exact absurd rfl (hopens ‹_›)
      · rfl
    rw [scanInto, hclosed]
    exact iff_of_false Bool.false_ne_true fun h => hopens h.opens
  have hparts := hopens
  simp only [ScanCalls.ofIo, Bool.and_eq_true, Option.isSome_iff_exists] at hparts
  obtain ⟨hio, content, rfl⟩ := hparts
  generalize hreadable : (ScanCalls.ofIo path message io (some content)).stream = readable
  rw [misused_scanInto hio hreadable]
  have hfuel : (readable.drop kJournalHeaderBytes).length < readable.length + 1 := by
    rw [List.length_drop]
    omega
  constructor
  · intro h
    split at h
    case isTrue => cases h
    case isFalse hboth =>
      obtain ⟨hsized, hheader⟩ := not_or.mp hboth
      cases hvalid : validateJournalHeader (readable.take kJournalHeaderBytes) with
      | error e =>
        rw [hvalid] at h
        cases h
      | ok =>
        rw [hvalid] at h
        have htorn := (ending_tornPayload_iff hfuel).mp (of_decide_eq_true h)
        subst hreadable
        exact ⟨hopens, by simp [ScanCalls.ofIo, hsized], Nat.not_lt.mp hheader, hvalid, htorn⟩
  · intro h
    have hsized : ¬ io.sized = false := fun hno => h.sized (by simp [ScanCalls.ofIo, hno])
    have hheader := h.header
    have hvalid := h.valid
    have htorn := h.torn
    rw [hreadable] at hheader hvalid htorn
    rw [if_neg (not_or.mpr ⟨hsized, Nat.not_lt.mpr hheader⟩), hvalid]
    exact decide_eq_true ((ending_tornPayload_iff hfuel).mpr htorn)

end ConfigurationFabric
