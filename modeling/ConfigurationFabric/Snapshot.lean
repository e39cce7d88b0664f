import ConfigurationFabric.JournalWrite

namespace ConfigurationFabric

open LittleEndian
open Program

inductive Slot
  | a | b
  deriving DecidableEq, Repr

def Disk.slot (d : Disk) : Slot → Option Bytes
  | .a => d.snapshotA
  | .b => d.snapshotB

def Disk.setSlot (d : Disk) (slot : Slot) (content : Option Bytes) : Disk :=
  match slot with
  | .a => { d with snapshotA := content }
  | .b => { d with snapshotB := content }

@[simp] theorem Disk.setSlot_journal (d : Disk) (slot : Slot) (content : Option Bytes) :
    (d.setSlot slot content).journal = d.journal := by
  cases slot <;> rfl

theorem Disk.slot_setSlot (d : Disk) (slot slot' : Slot) (content : Option Bytes) :
    (d.setSlot slot content).slot slot' = if slot' = slot then content else d.slot slot' := by
  cases slot <;> cases slot' <;> rfl

def kSnapshotMagic : ℕ := 0x31534643
def kSnapshotFormatVersion : ℕ := 1
def kSnapshotHeaderBytes : ℕ := 28
def kMaxSnapshotBytes : ℕ := 64 * 1024 * 1024

namespace SnapshotFile

structure Loaded where
  coveredSequence : ℕ
  payload : Bytes
  slot : Slot
  deriving DecidableEq, Repr

/-- The checks of one slot file, in order; a refusal carries the note it leaves. -/
def checkSlot (maxBytes : ℕ) (record : Bytes) : Except String (ℕ × Bytes) :=
  if record.length > maxBytes + kSnapshotHeaderBytes then .error ""
  else if record.length < kSnapshotHeaderBytes then .error "short"
  else if load (record.take 4) ≠ kSnapshotMagic then .error "magic"
  else if load ((record.drop 4).take 2) ≠ kSnapshotFormatVersion then .error "version"
  else if (crc32c (record.take (kSnapshotHeaderBytes - 4))).toNat ≠
      load ((record.drop (kSnapshotHeaderBytes - 4)).take 4) then .error "header-crc"
  else
    let payloadLength := load ((record.drop 16).take 4)
    let payload := record.drop kSnapshotHeaderBytes
    if payloadLength > maxBytes then .error "oversize"
    else if record.length ≠ kSnapshotHeaderBytes + payloadLength then .error "length"
    else if (crc32c payload).toNat ≠ load ((record.drop 20).take 4) then .error "payload-crc"
    else .ok (load ((record.drop 8).take 8), payload)

def loadSlot (maxBytes : ℕ) (d : Disk) (slot : Slot) : Option Loaded :=
  match d.slot slot with
  | none => none
  | some record =>
    match checkSlot maxBytes record with
    | .error _ => none
    | .ok (covered, payload) => some ⟨covered, payload, slot⟩

/-- Slot `a` is looked at first; slot `b` replaces it only when it covers strictly more. -/
def newer (first second : Option Loaded) : Option Loaded :=
  match first, second with
  | none, s => s
  | some f, none => some f
  | some f, some s => if s.coveredSequence > f.coveredSequence then some s else some f

def load (maxBytes : ℕ) (d : Disk) : Result Loaded :=
  match newer (loadSlot maxBytes d .a) (loadSlot maxBytes d .b) with
  | some loaded => .ok loaded
  | none => .fail .notFound "no valid snapshot is present"

def encodeSlot (coveredSequence : ℕ) (payload : Bytes) : Bytes :=
  let fields := store 4 kSnapshotMagic ++ store 2 kSnapshotFormatVersion ++ store 2 0 ++
    store 8 coveredSequence ++ store 4 payload.length ++
    store 4 (if payload = [] then 0 else (crc32c payload).toNat)
  fields ++ store 4 (crc32c fields).toNat ++ payload

def writeTarget (maxBytes : ℕ) (d : Disk) : Slot :=
  match load maxBytes d with
  | .ok loaded => if loaded.slot = .a then .b else .a
  | .error _ => .a

/-- The temporary file is never read by name, so only the renames show on the disk. -/
def writeFileAtomic (slot : Slot) (content : Bytes) : Prog Disk Io Status := do
  if !(← succeeds) then return .fail .openFailed "cannot create temporary file"
  let written ← Prog.ask
  if written.written content.length ≠ content.length then
    return .fail .ioFailure "failed to write complete file"
  match ← flushJournal true with
  | .error _ => return .fail .ioFailure "failed to write complete file"
  | .ok () =>
    if ← succeeds then
      Prog.modify fun d => d.setSlot slot (some content)
      return .ok ()
    if ← succeeds then Prog.modify fun d => d.setSlot slot none
    if ← succeeds then
      Prog.modify fun d => d.setSlot slot (some content)
      return .ok ()
    return .fail .ioFailure "cannot rename temporary file into place"

def write (maxBytes : ℕ) (coveredSequence : ℕ) (payload : Bytes) : Prog Disk Io Status := do
  if payload.length > maxBytes then
    return .fail .oversizePayload "snapshot exceeds the configured maximum"
  let d ← Prog.read
  writeFileAtomic (writeTarget maxBytes d) (encodeSlot coveredSequence payload)

end SnapshotFile

end ConfigurationFabric
