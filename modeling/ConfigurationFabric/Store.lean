import ConfigurationFabric.Snapshot

namespace ConfigurationFabric

open LittleEndian
open Program

/-- What a state type gives its store. Framing records never reach the state. -/
structure Codec (State : Type) where
  initial : State
  apply : State → JournalRecordType → Bytes → Status × State
  encodeSnapshot : State → Result Bytes
  decodeSnapshot : Bytes → Result State
  framing_refused : ∀ s payload type, type = .segmentStart ∨ type = .invalid → (apply s type payload).1.isOk = false

namespace Journal

/-- How opening ends; a stream used after it was closed leaves nothing to say about the rest. -/
inductive Opened (α : Type)
  | ok (value : α)
  | refused (error : Error)
  | undefined
  deriving DecidableEq

def askScan : Prog Disk Io ScanIo := do
  let opens ← Prog.ask
  let sized ← Prog.ask
  let reads ← Prog.ask
  let resized ← Prog.ask
  return {
    opens := opens == .done
    sized := sized == .done
    readable := match reads with
      | .done => none
      | .short count => some count
      | .failed => some 0
    resized := resized == .done }

def create (j : Journal) : Prog Disk Io (Opened Journal) := do
  if !(← succeeds) then return .refused ⟨.openFailed, "cannot create journal directory", ""⟩
  if !(← succeeds) then return .refused ⟨.openFailed, "cannot create journal", ""⟩
  Prog.modify fun d => { d with journal := some [] }
  if !(← fwrite journalHeaderBytes) then return .refused ⟨.ioFailure, "cannot write journal header", ""⟩
  match ← flushJournal true with
  | .error e => return .refused e
  | .ok () =>
    match ← j.restartSegment 1 with
    | (.error e, _) => return .refused e
    | (.ok (), j) => return .ok j

def openExisting (j : Journal) : Prog Disk Io (Opened Journal) := do
  let io ← askScan
  let d ← Prog.read
  let scan := scanInto j.maxRecordBytes io true d.journal
  Prog.modify fun d => { d with journal := scan.file }
  if scan.stream.misused then return .undefined
  match scan.status with
  | .error _ =>
    return .refused ⟨if scan.recovery.fatal then .integrityFailure else .ioFailure, "journal recovery failed", ""⟩
  | .ok () =>
    if !(← succeeds) then return .refused ⟨.openFailed, "cannot open journal", ""⟩
    if !(← succeeds) then return .refused ⟨.ioFailure, "cannot seek to the end of the journal", ""⟩
    return .ok { j with
      lastSequence := scan.recovery.lastSequence, recordCount := scan.recovery.recordsRecovered }

def «open» (j : Journal) : Prog Disk Io (Opened Journal) := do
  if j.maxRecordBytes = 0 ∨ j.maxRecordBytes > kMaxJournalRecordBytes then
    return .refused ⟨.invalidArgument, "journal record bound is outside the accepted range", ""⟩
  let d ← Prog.read
  match d.journal with
  | none => j.create
  | some _ => j.openExisting

end Journal

structure DurableStore (State : Type) where
  state : State
  journal : Journal
  failed : Bool := false
  compactAfterBytes : ℕ := 4 * 1024 * 1024
  deriving DecidableEq

namespace DurableStore

variable {State : Type} (codec : Codec State)

/-- The base of the first segment-start record, or zero when there is none. -/
def baseSequence (records : List JournalRecord) : Result ℕ :=
  match records.find? fun r => r.type == .segmentStart with
  | none => .ok 0
  | some r =>
    if r.payload.length ≠ 8 then .fail .integrityFailure "journal segment-start record is malformed"
    else .ok (load r.payload)

def replay (covered : ℕ) : List JournalRecord → State → Result State
  | [], state => .ok state
  | r :: rs, state =>
    if r.type = .segmentStart ∨ r.sequence ≤ covered then replay covered rs state
    else
      match codec.apply state r.type r.payload with
      | (.error e, _) => .error e
      | (.ok (), state) => replay covered rs state

def loadSnapshot (d : Disk) : Result (ℕ × State) :=
  match SnapshotFile.load kMaxSnapshotBytes d with
  | .error e => if e.code = .notFound then .ok (0, codec.initial) else .error e
  | .ok loaded => do
    let state ← codec.decodeSnapshot loaded.payload
    return (loaded.coveredSequence, state)

def recover (covered : ℕ) (state : State) (records : List JournalRecord) : Result State := do
  let base ← baseSequence records
  if base = 0 then
    Result.fail .integrityFailure "journal does not begin with a segment-start record"
  if base > (covered + 1) % 2 ^ 64 then
    Result.fail .integrityFailure
      "durable state has a gap between the newest loadable snapshot and the journal base"
      s!"snapshot-covered={covered} journal-base={base}"
  replay codec covered records state

def «open» (durable : Bool) : Prog Disk Io (Journal.Opened (DurableStore State)) := do
  let d ← Prog.read
  match loadSnapshot codec d with
  | .error e => return .refused e
  | .ok (covered, state) =>
    match ← Journal.open { durable } with
    | .refused e => return .refused e
    | .undefined => return .undefined
    | .ok journal =>
      let io ← Journal.askScan
      let d ← Prog.read
      let scan := scanInto kMaxJournalRecordBytes io false d.journal
      if scan.stream.misused then return .undefined
      match scan.status with
      | .error e => return .refused e
      | .ok () =>
        match recover codec covered state scan.records with
        | .error e => return .refused e
        | .ok state => return .ok { state, journal }

def commit (st : DurableStore State) (type : JournalRecordType) (payload : Bytes) :
    Prog Disk Io (Status × DurableStore State) := do
  if st.failed then
    return (.fail .internal "durable state store is failed; no further commits are accepted", st)
  if payload.length > st.journal.maxRecordBytes then
    return (.fail .oversizePayload "state record exceeds the journal bound", st)
  match codec.apply st.state type payload with
  | (.error e, state) => return (.error e, { st with state })
  | (.ok (), state) =>
    let (status, journal) ← st.journal.append type payload
    return (status, { st with state, journal })

def compact (st : DurableStore State) : Prog Disk Io (Status × DurableStore State) := do
  if st.failed then return (.fail .internal "durable state store is failed", st)
  match codec.encodeSnapshot st.state with
  | .error e => return (.error e, st)
  | .ok encoded =>
    let covered := st.journal.lastSequence
    match ← SnapshotFile.write kMaxSnapshotBytes covered encoded with
    | .error e => return (.error e, st)
    | .ok () =>
      let (status, journal) ← st.journal.restartSegment ((covered + 1) % 2 ^ 64)
      return (status, { st with journal })

end DurableStore

end ConfigurationFabric
