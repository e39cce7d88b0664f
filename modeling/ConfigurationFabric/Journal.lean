import ConfigurationFabric.Errors
import ConfigurationFabric.Hash
import ConfigurationFabric.Library.Program

namespace ConfigurationFabric

open LittleEndian
open Program

inductive JournalRecordType
  | invalid
  | segmentStart
  | controllerIdentity | controllerEpoch
  | targetUpsert | targetRemove
  | deliveryUpsert | deliveryRemove
  | artifactUpsert | artifactRemove | deploymentSetNote
  | agentIdentity | agentTargetCommit | agentTransferUpsert | agentTransferRemove
  | agentFindingUpsert | agentApplyPrepared | agentApplyResolved | agentControllerFence
  | agentRollbackNote
  | note
  deriving DecidableEq, Repr

def JournalRecordType.value : JournalRecordType → ℕ
  | .invalid => 0
  | .segmentStart => 1
  | .controllerIdentity => 10 | .controllerEpoch => 11
  | .targetUpsert => 20 | .targetRemove => 21
  | .deliveryUpsert => 30 | .deliveryRemove => 31
  | .artifactUpsert => 40 | .artifactRemove => 41 | .deploymentSetNote => 42
  | .agentIdentity => 60 | .agentTargetCommit => 61 | .agentTransferUpsert => 62
  | .agentTransferRemove => 63 | .agentFindingUpsert => 64 | .agentApplyPrepared => 65
  | .agentApplyResolved => 66 | .agentControllerFence => 67 | .agentRollbackNote => 68
  | .note => 90

def JournalRecordType.ofValue : ℕ → Option JournalRecordType
  | 0 => some .invalid
  | 1 => some .segmentStart
  | 10 => some .controllerIdentity | 11 => some .controllerEpoch
  | 20 => some .targetUpsert | 21 => some .targetRemove
  | 30 => some .deliveryUpsert | 31 => some .deliveryRemove
  | 40 => some .artifactUpsert | 41 => some .artifactRemove | 42 => some .deploymentSetNote
  | 60 => some .agentIdentity | 61 => some .agentTargetCommit | 62 => some .agentTransferUpsert
  | 63 => some .agentTransferRemove | 64 => some .agentFindingUpsert
  | 65 => some .agentApplyPrepared | 66 => some .agentApplyResolved
  | 67 => some .agentControllerFence | 68 => some .agentRollbackNote
  | 90 => some .note
  | _ => none

def isKnownRecordType (raw : ℕ) : Bool :=
  match JournalRecordType.ofValue raw with
  | none => false
  | some .invalid => false
  | some _ => true

structure JournalRecord where
  type : JournalRecordType
  sequence : ℕ
  payload : Bytes
  deriving DecidableEq, Repr

inductive JournalOutcome
  | created | clean | truncatedTail | corrupted | notAJournal | unsupportedVersion
  deriving DecidableEq, Repr

structure JournalRecovery where
  outcome : JournalOutcome := .created
  discardedBytes : ℕ := 0
  recordsRecovered : ℕ := 0
  lastSequence : ℕ := 0
  detail : String := ""
  deriving DecidableEq, Repr

def JournalRecovery.fatal (r : JournalRecovery) : Bool :=
  r.outcome == .corrupted || r.outcome == .notAJournal || r.outcome == .unsupportedVersion

def kJournalMagic : ℕ := 0x314A4643
def kJournalFormatVersion : ℕ := 1
def kJournalHeaderBytes : ℕ := 12
def kJournalRecordHeaderBytes : ℕ := 20
def kMaxJournalRecordBytes : ℕ := 1024 * 1024

def journalHeaderBytes : Bytes :=
  let fields := store 4 kJournalMagic ++ store 2 kJournalFormatVersion ++ store 2 0
  fields ++ store 4 (crc32c fields).toNat

def validateJournalHeader (bytes : Bytes) : Status :=
  if bytes.length < kJournalHeaderBytes then
    .fail .truncatedFrame "journal header is incomplete"
  else if load (bytes.take 4) ≠ kJournalMagic then
    .fail .malformedInput "file is not a configuration-fabric journal"
  else if (crc32c (bytes.take 8)).toNat ≠ load ((bytes.drop 8).take 4) then
    .fail .integrityFailure "journal header checksum does not match"
  else if load ((bytes.drop 4).take 2) ≠ kJournalFormatVersion then
    .fail .unsupportedVersion "journal format version is not supported"
      (toString (load ((bytes.drop 4).take 2)))
  else if load ((bytes.drop 6).take 2) ≠ 0 then
    .fail .protocolViolation "journal header reserved field is not zero"
  else .ok ()

def recordChecksum (type : JournalRecordType) (sequence : ℕ) (payload : Bytes) : BitVec 32 :=
  (((({} : Crc32c).update (store 4 type.value ++ store 8 sequence)).update payload)).value

def recordHeader (r : JournalRecord) : Bytes :=
  store 4 r.payload.length ++ store 4 r.type.value ++
    store 4 (recordChecksum r.type r.sequence r.payload).toNat ++ store 8 r.sequence

def recordBytes (r : JournalRecord) : Bytes := recordHeader r ++ r.payload

def journalBytes (records : List JournalRecord) : Bytes :=
  journalHeaderBytes ++ records.flatMap recordBytes

def segmentStart (base : ℕ) : JournalRecord := ⟨.segmentStart, base, store 8 base⟩

/-! Reading a journal. -/

structure RecordHeader where
  payloadLength : ℕ
  rawType : ℕ
  storedCrc : ℕ
  rawSequence : ℕ
  deriving DecidableEq, Repr

def loadRecordHeader (bs : Bytes) : RecordHeader :=
  ⟨load (bs.take 4), load ((bs.drop 4).take 4), load ((bs.drop 8).take 4), load ((bs.drop 12).take 8)⟩

def headerPlausible (maxRecordBytes : ℕ) (h : RecordHeader) : Bool :=
  decide (h.payloadLength ≤ maxRecordBytes) && isKnownRecordType h.rawType && decide (0 < h.rawSequence)

/-- The record a plausible header and its payload stand for. -/
def RecordHeader.record (h : RecordHeader) (payload : Bytes) : JournalRecord :=
  ⟨(JournalRecordType.ofValue h.rawType).getD .invalid, h.rawSequence, payload⟩

def follows (expected : Option ℕ) (sequence : ℕ) : Bool :=
  match expected with
  | none => true
  | some previous => checkedAdd previous 1 == some sequence

inductive ScanEnd
  | clean
  | tornHeader
  | tornPayload
  | corrupted (detail : String)
  deriving DecidableEq, Repr

def ScanEnd.accepted : ScanEnd → Bool
  | .corrupted _ => false
  | _ => true

structure Scanned where
  records : List JournalRecord
  lastGoodOffset : ℕ
  ending : ScanEnd
  deriving DecidableEq, Repr

/-- The record loop of `scanInto`; every round takes at least a header off the stream. -/
def scanLoop (maxRecordBytes fileSize : ℕ) : ℕ → Option ℕ → ℕ → Bytes → Scanned
  | 0, _, offset, _ => ⟨[], offset, .clean⟩
  | fuel + 1, expected, offset, stream =>
    if stream.length < kJournalRecordHeaderBytes then
      if offset ≠ fileSize then ⟨[], offset, .tornHeader⟩ else ⟨[], offset, .clean⟩
    else
      let h := loadRecordHeader stream
      let body := stream.drop kJournalRecordHeaderBytes
      if headerPlausible maxRecordBytes h = false then
        ⟨[], offset, .corrupted s!"record header at offset {offset} is not a valid record"⟩
      else if body.length < h.payloadLength then ⟨[], offset, .tornPayload⟩
      else
        let record := h.record (body.take h.payloadLength)
        if (recordChecksum record.type record.sequence record.payload).toNat ≠ h.storedCrc then
          ⟨[], offset, .corrupted s!"record at offset {offset} failed its checksum"⟩
        else if follows expected record.sequence = false then
          ⟨[], offset, .corrupted
            s!"record sequence {record.sequence} does not follow {expected.getD 0}"⟩
        else
          let rest := scanLoop maxRecordBytes fileSize fuel (some record.sequence)
            (offset + kJournalRecordHeaderBytes + h.payloadLength) (body.drop h.payloadLength)
          { rest with records := record :: rest.records }

/-- The stdio stream of a scan: whether it is open, and whether it was used while it was not. -/
structure Stream where
  isOpen : Bool := true
  misused : Bool := false
  deriving DecidableEq, Repr

def Stream.use (s : Stream) : Stream := { s with misused := s.misused || !s.isOpen }

def Stream.close (s : Stream) : Stream := { s.use with isOpen := false }

/-- How the file operations of one scan turn out; `readable` bounds what can be read before an error. -/
structure ScanIo where
  opens : Bool := true
  sized : Bool := true
  readable : Option ℕ := none
  resized : Bool := true
  deriving DecidableEq, Repr

structure ScanResult where
  status : Status
  recovery : JournalRecovery
  records : List JournalRecord
  file : Option Bytes
  stream : Stream

def lastSequenceOf (records : List JournalRecord) : ℕ := (records.getLast?.map (·.sequence)).getD 0

def tornDetail : ScanEnd → String
  | .tornHeader => "torn record header at the end of the journal was discarded"
  | .tornPayload => "torn record payload at the end of the journal was discarded"
  | _ => ""

def finishScan (io : ScanIo) (truncateTornTail : Bool) (content : Bytes) (scan : Scanned) : ScanResult :=
  let recovery : JournalRecovery :=
    { recordsRecovered := scan.records.length, lastSequence := lastSequenceOf scan.records }
  match scan.ending with
  | .corrupted detail =>
    ⟨.fail .integrityFailure "journal is corrupted" detail,
      { recovery with outcome := .corrupted, detail := detail }, scan.records, some content,
      ({} : Stream).close⟩
  | ending =>
    -- the torn-payload branch has closed the stream before it leaves the loop
    let stream : Stream := if ending = .tornPayload then ({} : Stream).close else {}
    let recovery : JournalRecovery :=
      if ending = .clean then { recovery with outcome := .clean }
      else
        { recovery with
          outcome := .truncatedTail
          discardedBytes := content.length - scan.lastGoodOffset
          detail := tornDetail ending }
    if scan.records.any fun r => !isKnownRecordType r.type.value then
      ⟨.fail .unsupportedVersion "journal contains a record type this build does not understand",
        { recovery with
          outcome := .unsupportedVersion
          detail := "journal contains a record type this build does not understand" },
        scan.records, some content, stream.close⟩
    else if truncateTornTail = true ∧ ending ≠ .clean then
      if io.resized = false then
        ⟨.fail .ioFailure "cannot truncate a torn tail from the journal",
          { recovery with
            outcome := .corrupted
            detail := "cannot truncate a torn tail from the journal" },
          scan.records, some content, stream.use.close⟩
      else ⟨.ok (), recovery, scan.records, some (content.take scan.lastGoodOffset), stream.use.close⟩
    else ⟨.ok (), recovery, scan.records, some content, stream.close⟩

def scanInto (maxRecordBytes : ℕ) (io : ScanIo) (truncateTornTail : Bool) (file : Option Bytes) :
    ScanResult :=
  match if io.opens then file else none with
  | none =>
    ⟨.fail .openFailed "cannot open journal file",
      { outcome := .notAJournal, detail := "cannot open journal file" }, [], file, { isOpen := false }⟩
  | some content =>
    let readable := match io.readable with
      | none => content
      | some n => content.take n
    if io.sized = false then
      ⟨.fail .ioFailure "cannot size journal file", { outcome := .notAJournal }, [], file,
        ({} : Stream).close⟩
    else if readable.length < kJournalHeaderBytes then
      ⟨.fail .truncatedFrame "journal header is incomplete",
        { outcome := .notAJournal, detail := "journal header is incomplete" }, [], file,
        ({} : Stream).close⟩
    else match validateJournalHeader (readable.take kJournalHeaderBytes) with
      | .error e =>
        ⟨.error e,
          { outcome := if e.code = .unsupportedVersion then .unsupportedVersion else .notAJournal,
            detail := e.str }, [], file, ({} : Stream).close⟩
      | .ok () =>
        finishScan io truncateTornTail content
          (scanLoop maxRecordBytes content.length (readable.length + 1) none kJournalHeaderBytes
            (readable.drop kJournalHeaderBytes))

/-! Writing a journal. The state of a program is the store's directory; what it returns is memory. -/

structure Disk where
  journal : Option Bytes := none
  snapshotA : Option Bytes := none
  snapshotB : Option Bytes := none
  deriving DecidableEq, Repr

/-- How one file operation turns out: it succeeds, moves only some bytes, or fails. -/
inductive Io
  | done
  | short (count : ℕ)
  | failed
  deriving DecidableEq, Repr

def Io.written (io : Io) (wanted : ℕ) : ℕ :=
  match io with
  | .done => wanted
  | .short count => min count wanted
  | .failed => 0

def appendByte (b : UInt8) (d : Disk) : Disk := { d with journal := d.journal.map (· ++ [b]) }

def appendBytes : Bytes → Prog Disk Io Unit
  | [] => .ret ()
  | b :: bs => .set (appendByte b) (appendBytes bs)

-- a stream that writes through, byte by byte
def fwrite (bytes : Bytes) : Prog Disk Io Bool := do
  let io ← Prog.ask
  let written := io.written bytes.length
  appendBytes (bytes.take written)
  return written == bytes.length

def succeeds : Prog Disk Io Bool := do
  let io ← Prog.ask
  return io == .done

structure Journal where
  maxRecordBytes : ℕ := kMaxJournalRecordBytes
  durable : Bool := true
  lastSequence : ℕ := 0
  recordCount : ℕ := 0
  deriving DecidableEq, Repr

def flushJournal (durable : Bool) : Prog Disk Io Status := do
  if !(← succeeds) then
    return .fail .ioFailure
      (if durable then "failed to flush stream buffers" else "cannot flush the journal stream")
  if durable then
    if !(← succeeds) then return .fail .ioFailure "failed to sync stream to disk"
  return .ok ()

namespace Journal

def writeRecord (j : Journal) (r : JournalRecord) : Prog Disk Io Status := do
  if !(← fwrite (recordHeader r)) then
    return .fail .ioFailure "cannot append a journal record header"
  if r.payload ≠ [] then
    if !(← fwrite r.payload) then
      return .fail .ioFailure "cannot append a journal record payload"
  flushJournal j.durable

def append (j : Journal) (type : JournalRecordType) (payload : Bytes) :
    Prog Disk Io (Status × Journal) := do
  if isKnownRecordType type.value = false then
    return (.fail .invalidArgument "cannot append an undefined record type", j)
  if payload.length > j.maxRecordBytes then
    return (.fail .oversizePayload "record exceeds the journal record bound"
      (toString payload.length), j)
  match checkedAdd j.lastSequence 1 with
  | none => return (.fail .arithmeticOverflow "journal sequence exhausted", j)
  | some sequence =>
    match ← j.writeRecord ⟨type, sequence, payload⟩ with
    | .error e => return (.error e, j)
    | .ok () =>
      return (.ok (), { j with lastSequence := sequence, recordCount := j.recordCount + 1 })

/-- Writing the header over the first bytes of the file; `written` of them arrive. -/
def overwriteHeader (written : ℕ) (d : Disk) : Disk :=
  { d with journal := d.journal.map fun f => journalHeaderBytes.take written ++ f.drop written }

def rewriteHeader : Prog Disk Io Status := do
  if !(← succeeds) then return .fail .ioFailure "cannot seek to the journal header"
  let io ← Prog.ask
  let written := io.written journalHeaderBytes.length
  Prog.modify (overwriteHeader written)
  if written ≠ journalHeaderBytes.length then
    return .fail .ioFailure "cannot rewrite the journal header"
  return .ok ()

def truncateToHeader (d : Disk) : Disk :=
  { d with journal := d.journal.map (·.take kJournalHeaderBytes) }

def restartSegment (j : Journal) (baseSequence : ℕ) : Prog Disk Io (Status × Journal) := do
  if baseSequence = 0 then
    return (.fail .invalidArgument "journal base sequence must be non-zero", j)
  if !(← succeeds) then
    return (.fail .ioFailure "cannot flush the journal before restarting", j)
  match ← rewriteHeader with
  | .error e => return (.error e, j)
  | .ok () =>
    if !(← succeeds) then return (.fail .ioFailure "cannot seek in the journal", j)
    if !(← succeeds) then return (.fail .ioFailure "cannot flush the journal stream", j)
    if !(← succeeds) then return (.fail .ioFailure "cannot truncate the journal", j)
    Prog.modify truncateToHeader
    if !(← succeeds) then
      return (.fail .ioFailure "cannot seek to the end of the journal", j)
    match ← j.writeRecord (segmentStart baseSequence) with
    | .error e => return (.error e, j)
    | .ok () => return (.ok (), { j with lastSequence := baseSequence, recordCount := 1 })

end Journal

end ConfigurationFabric
