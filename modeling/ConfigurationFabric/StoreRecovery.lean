import ConfigurationFabric.Store

namespace ConfigurationFabric

open LittleEndian
open Program

/-! Scanning a journal of whole records with at most a torn record header behind them. -/

theorem length_le_flatMap (records : List JournalRecord) :
    records.length ≤ (records.flatMap recordBytes).length := by
  induction records with
  | nil => simp
  | cons r rs ih => simp only [List.flatMap_cons, List.length_append, List.length_cons, recordBytes_length]; omega

section Within

variable {maxRecordBytes : ℕ} {records : List JournalRecord} {tail : Bytes} (hw : ∀ r ∈ records, r.WellFormed)
  (hc : Consecutive none records) (hm : ∀ r ∈ records, r.payload.length ≤ maxRecordBytes)
include hw hc hm

theorem scanLoop_within (ht : tail.length < kJournalRecordHeaderBytes) :
    scanLoop maxRecordBytes (journalBytes records ++ tail).length ((journalBytes records ++ tail).length + 1)
        none kJournalHeaderBytes (records.flatMap recordBytes ++ tail) =
      ⟨records, (journalBytes records).length, if tail = [] then .clean else .tornHeader⟩ := by
  have hle := length_le_flatMap records
  have hlen : (journalBytes records ++ tail).length = 12 + (records.flatMap recordBytes).length + tail.length := by
    simp only [journalBytes, List.length_append, journalHeaderBytes_length]
  obtain ⟨fuel, hfuel⟩ : ∃ fuel, (journalBytes records ++ tail).length + 1 = fuel + 1 + records.length :=
    ⟨(journalBytes records ++ tail).length - records.length, by omega⟩
  rw [hfuel, scanLoop_records hw hc hm, scanLoop_short ht]
  have hend : (kJournalHeaderBytes + (records.flatMap recordBytes).length ≠ (journalBytes records ++ tail).length) =
      (tail ≠ []) := by
    rw [hlen, kJournalHeaderBytes, ← List.length_pos_iff]
    exact propext (by omega)
  have hoff : (journalBytes records).length = kJournalHeaderBytes + (records.flatMap recordBytes).length := by
    simp only [journalBytes, List.length_append, journalHeaderBytes_length, kJournalHeaderBytes]
  simp only [hoff, List.append_nil]
  by_cases hnil : tail = []
  · rw [if_pos hnil, if_neg (by rw [hend]; simp [hnil])]
  · rw [if_neg hnil, if_pos (by rw [hend]; exact hnil)]

/-- All that a scan reports of whole records with less than a header behind them. -/
theorem scan_within (truncateTornTail : Bool) (ht : tail.length < kJournalRecordHeaderBytes) :
    let scan := scanInto maxRecordBytes {} truncateTornTail (some (journalBytes records ++ tail))
    scan.status = .ok () ∧ scan.records = records ∧ scan.stream.misused = false ∧
      scan.recovery = {
        outcome := if tail = [] then .clean else .truncatedTail
        discardedBytes := tail.length
        recordsRecovered := records.length
        lastSequence := lastSequenceOf records
        detail := if tail = [] then "" else tornDetail .tornHeader } ∧
      scan.file = some (if truncateTornTail then journalBytes records else journalBytes records ++ tail) := by
  have hsplit : journalBytes records ++ tail = journalHeaderBytes ++ (records.flatMap recordBytes ++ tail) := by
    simp [journalBytes]
  have hk : (records.any fun r => !isKnownRecordType r.type.value) = false := by
    rw [List.any_eq_false]
    exact fun r hr => by simp [(hw r hr).known]
  have hloop := scanLoop_within hw hc hm ht
  have hoff : (journalBytes records).length = 12 + (records.flatMap recordBytes).length := by
    rw [journalBytes, List.length_append, journalHeaderBytes_length]
  rw [hsplit] at hloop ⊢
  have htake : (journalHeaderBytes ++ (records.flatMap recordBytes ++ tail)).take (journalBytes records).length =
      journalBytes records := by
    rw [← hsplit, List.take_left]
  rw [scanInto_header, hloop]
  rw [hoff] at htake ⊢
  by_cases hnil : tail = []
  · subst hnil
    simp [finishScan, hk, Stream.close, Stream.use, journalBytes]
  · cases truncateTornTail <;>
      simp [finishScan, hk, hnil, htake, - List.length_flatMap, ← Nat.add_assoc, Stream.close, Stream.use]

end Within

section Whole

variable {records : List JournalRecord} {tail : Bytes} (hw : ∀ r ∈ records, r.WellFormed)
  (hc : Consecutive none records)
include hw hc

theorem scanLoop_whole (ht : tail.length < kJournalRecordHeaderBytes) :
    scanLoop kMaxJournalRecordBytes (journalBytes records ++ tail).length ((journalBytes records ++ tail).length + 1)
        none kJournalHeaderBytes (records.flatMap recordBytes ++ tail) =
      ⟨records, (journalBytes records).length, if tail = [] then .clean else .tornHeader⟩ :=
  scanLoop_within hw hc (fun r hr => (hw r hr).small) ht

theorem scan_whole (truncateTornTail : Bool) (ht : tail.length < kJournalRecordHeaderBytes) :
    let scan := scanInto kMaxJournalRecordBytes {} truncateTornTail (some (journalBytes records ++ tail))
    scan.status = .ok () ∧ scan.records = records ∧ scan.stream.misused = false ∧
      scan.recovery.lastSequence = lastSequenceOf records ∧
      scan.recovery.recordsRecovered = records.length ∧
      scan.file = some (if truncateTornTail then journalBytes records else journalBytes records ++ tail) := by
  obtain ⟨hok, hrecords, hmis, hrecovery, hfile⟩ :=
    scan_within hw hc (fun r hr => (hw r hr).small) truncateTornTail ht
  exact ⟨hok, hrecords, hmis, by rw [hrecovery], by rw [hrecovery], hfile⟩

end Whole

/-- A record whose header is there but whose payload is cut short ends the scan in the torn-payload branch. -/
theorem scanLoop_torn_record {maxRecordBytes : ℕ} {records : List JournalRecord} {r : JournalRecord} {n : ℕ}
    (hw : ∀ q ∈ records, q.WellFormed) (hc : Consecutive none records)
    (hm : ∀ q ∈ records, q.payload.length ≤ maxRecordBytes) (hr : r.WellFormed)
    (hmr : r.payload.length ≤ maxRecordBytes) (h20 : 20 ≤ n) (hn : n < (recordBytes r).length) :
    let file := journalBytes records ++ (recordBytes r).take n
    (scanLoop maxRecordBytes file.length (file.length + 1) none kJournalHeaderBytes
      (records.flatMap recordBytes ++ (recordBytes r).take n)).ending = .tornPayload := by
  intro file
  have hle := length_le_flatMap records
  have hlen : file.length = 12 + (records.flatMap recordBytes).length + n := by
    simp only [file, journalBytes, List.length_append, journalHeaderBytes_length, List.length_take]
    omega
  obtain ⟨fuel, hfuel⟩ : ∃ fuel, file.length + 1 = fuel + 1 + records.length :=
    ⟨file.length - records.length, by omega⟩
  have hload := hr.loadRecordHeader_take h20
  rw [recordBytes_length] at hn
  have hs : kJournalRecordHeaderBytes ≤ ((recordBytes r).take n).length := by
    rw [List.length_take, recordBytes_length, kJournalRecordHeaderBytes]; omega
  rw [hfuel, scanLoop_records hw hc hm,
    scanLoop_torn hs (by
      rw [hload]
      simp [headerPlausible, hmr, hr.known, hr.sequence_pos]) (by
      rw [hload, List.length_take, recordBytes_length, kJournalRecordHeaderBytes]
      simp only
      omega)]

/-! Snapshots that are read back. -/

namespace SnapshotFile

theorem checkSlot_encodeSlot {maxBytes covered : ℕ} {payload : Bytes} (hc : covered < 2 ^ 64)
    (hp : payload.length ≤ maxBytes) (hfield : payload.length < 2 ^ 32) :
    checkSlot maxBytes (encodeSlot covered payload) = .ok (covered, payload) := by
  let l := store 4 kSnapshotMagic
  let v := store 2 kSnapshotFormatVersion
  let z := store 2 0
  let q := store 8 covered
  let n := store 4 payload.length
  let c := store 4 (if payload = [] then 0 else (crc32c payload).toNat)
  let h := store 4 (crc32c (l ++ v ++ z ++ q ++ n ++ c)).toNat
  have hrec : encodeSlot covered payload = l ++ v ++ z ++ q ++ n ++ c ++ h ++ payload := rfl
  have hl : l.length = 4 := store_length _ _
  have hv : v.length = 2 := store_length _ _
  have hz : z.length = 2 := store_length _ _
  have hq : q.length = 8 := store_length _ _
  have hn : n.length = 4 := store_length _ _
  have hcl : c.length = 4 := store_length _ _
  have hh : h.length = 4 := store_length _ _
  have hlen : (encodeSlot covered payload).length = 28 + payload.length := by
    simp only [hrec, List.length_append, hl, hv, hz, hq, hn, hcl, hh]
  rw [checkSlot, hlen, if_neg (by simp [kSnapshotHeaderBytes]; omega), if_neg (by simp [kSnapshotHeaderBytes])]
  have hcrc := (crc32c (l ++ v ++ z ++ q ++ n ++ c)).isLt
  have hpcrc := (crc32c payload).isLt
  have lh : LittleEndian.load h = (crc32c (l ++ v ++ z ++ q ++ n ++ c)).toNat := load_store (by omega)
  have lq : LittleEndian.load q = covered := load_store (by omega)
  have ln : LittleEndian.load n = payload.length := load_store (by omega)
  have ll : LittleEndian.load l = kSnapshotMagic := load_store (by decide)
  have lv : LittleEndian.load v = kSnapshotFormatVersion := load_store (by decide)
  have lc : LittleEndian.load c = (crc32c payload).toNat := by
    by_cases hnil : payload = []
    · simp only [c, hnil, if_true]
      decide
    · simp only [c, hnil, if_false]
      exact load_store (by omega)
  simp only [List.append_assoc] at lh
  simp [hrec, List.take_append, List.drop_append, List.take_of_length_le, List.drop_of_length_le, hl, hv, hz,
    hq, hn, hcl, hh, kSnapshotHeaderBytes, ll, lv, lq, ln, lc, lh, Nat.not_lt.mpr hp]

/-- The length field of a slot has four bytes. -/
theorem lt_of_le_kMaxSnapshotBytes {n : ℕ} (h : n ≤ kMaxSnapshotBytes) : n < 2 ^ 32 :=
  lt_of_le_of_lt h (by decide)

theorem loadSlot_written {covered : ℕ} {payload : Bytes} (hc : covered < 2 ^ 64)
    (hp : payload.length ≤ kMaxSnapshotBytes) (d : Disk) (slot slot' : Slot) :
    loadSlot kMaxSnapshotBytes (d.setSlot slot (some (encodeSlot covered payload))) slot' =
      if slot' = slot then some ⟨covered, payload, slot⟩ else loadSlot kMaxSnapshotBytes d slot' := by
  unfold loadSlot
  rw [Disk.slot_setSlot]
  by_cases h : slot' = slot
  · simp [checkSlot_encodeSlot hc hp (lt_of_le_kMaxSnapshotBytes hp), h]
  · simp [h]

theorem loadSlot_slot {maxBytes : ℕ} {d : Disk} {slot : Slot} {l : Loaded} (h : loadSlot maxBytes d slot = some l) :
    l.slot = slot := by
  unfold loadSlot at h
  split at h
  · cases h
  · split at h
    · cases h
    · rw [← Option.some.inj h]

theorem checkSlot_ok {maxBytes : ℕ} {record : Bytes} {x : ℕ × Bytes} (h : checkSlot maxBytes record = .ok x) :
    (crc32c (record.take 24)).toNat = LittleEndian.load ((record.drop 24).take 4) ∧
      (crc32c (record.drop 28)).toNat = LittleEndian.load ((record.drop 20).take 4) ∧
      x.1 = LittleEndian.load ((record.drop 8).take 8) := by
  unfold checkSlot at h
  split at h
  · cases h
  split at h
  · cases h
  split at h
  · cases h
  split at h
  · cases h
  split at h
  · cases h
  case isFalse hheader =>
  dsimp only at h
  split at h
  · cases h
  split at h
  · cases h
  split at h
  · cases h
  case isFalse hpayload =>
  cases h
  exact ⟨not_not.mp hheader, not_not.mp hpayload, rfl⟩

theorem loadSlot_ok {maxBytes : ℕ} {d : Disk} {slot : Slot} {l : Loaded} (h : loadSlot maxBytes d slot = some l) :
    ∃ content, d.slot slot = some content ∧
      checkSlot maxBytes content = .ok (l.coveredSequence, l.payload) := by
  unfold loadSlot at h
  split at h
  · cases h
  case h_2 content hcontent =>
  split at h
  · cases h
  case h_2 covered payload hcheck =>
  cases h
  exact ⟨content, hcontent, hcheck⟩

theorem load_slot {maxBytes : ℕ} {d : Disk} {l : Loaded} (h : load maxBytes d = .ok l) :
    loadSlot maxBytes d l.slot = some l := by
  have hof (slot : Slot) (hl : loadSlot maxBytes d slot = some l) :
      loadSlot maxBytes d l.slot = some l := by
    rw [loadSlot_slot hl]
    exact hl
  unfold load at h
  cases ha : loadSlot maxBytes d .a with
  | none =>
    cases hb : loadSlot maxBytes d .b with
    | none => simp [ha, hb, newer, Result.fail] at h
    | some b =>
      simp only [ha, hb, newer, Except.ok.injEq] at h
      exact hof .b (by rw [hb, h])
  | some a =>
    cases hb : loadSlot maxBytes d .b with
    | none =>
      simp only [ha, hb, newer, Except.ok.injEq] at h
      exact hof .a (by rw [ha, h])
    | some b =>
      simp only [ha, hb, newer] at h
      split at h
      case h_1 loaded hloaded =>
        cases h
        split at hloaded
        · exact hof .b (by rw [hb, hloaded])
        · exact hof .a (by rw [ha, hloaded])
      case h_2 => cases h

/-- After a write the new snapshot is loaded, unless the old one covers just as much. -/
theorem load_written {covered : ℕ} {payload : Bytes} (hc : covered < 2 ^ 64)
    (hp : payload.length ≤ kMaxSnapshotBytes) (d : Disk)
    (hle : ∀ l, load kMaxSnapshotBytes d = .ok l → l.coveredSequence ≤ covered) :
    let d' := d.setSlot (writeTarget kMaxSnapshotBytes d) (some (encodeSlot covered payload))
    (∃ slot, load kMaxSnapshotBytes d' = .ok ⟨covered, payload, slot⟩) ∨
      ∃ l, load kMaxSnapshotBytes d = .ok l ∧ load kMaxSnapshotBytes d' = .ok l ∧ l.coveredSequence = covered := by
  intro d'
  have hslot (slot : Slot) : loadSlot kMaxSnapshotBytes d' slot = _ :=
    loadSlot_written hc hp d (writeTarget kMaxSnapshotBytes d) slot
  have hload : load kMaxSnapshotBytes d' = load kMaxSnapshotBytes d' := rfl
  conv at hload => rhs; rw [load, hslot .a, hslot .b]
  cases ha : loadSlot kMaxSnapshotBytes d .a with
  | none =>
    cases hb : loadSlot kMaxSnapshotBytes d .b with
    | none =>
      have ht : writeTarget kMaxSnapshotBytes d = .a := by simp [writeTarget, load, ha, hb, newer, Result.fail]
      left
      exact ⟨.a, by simp [hload, ht, hb, newer]⟩
    | some b =>
      have hbs := loadSlot_slot hb
      have ht : writeTarget kMaxSnapshotBytes d = .a := by simp [writeTarget, load, ha, hb, newer, hbs]
      have hbc : b.coveredSequence ≤ covered := hle b (by simp [load, ha, hb, newer])
      left
      exact ⟨.a, by simp [hload, ht, hb, newer, Nat.not_lt.mpr hbc]⟩
  | some a =>
    have has := loadSlot_slot ha
    cases hb : loadSlot kMaxSnapshotBytes d .b with
    | none =>
      have ht : writeTarget kMaxSnapshotBytes d = .b := by simp [writeTarget, load, ha, hb, newer, has]
      have hac : a.coveredSequence ≤ covered := hle a (by simp [load, ha, hb, newer])
      by_cases hlt : a.coveredSequence < covered
      · left
        exact ⟨.b, by simp [hload, ht, ha, newer, hlt]⟩
      · right
        exact ⟨a, by simp [load, ha, hb, newer], by simp [hload, ht, ha, newer, hlt], by omega⟩
    | some b =>
      have hbs := loadSlot_slot hb
      by_cases hab : b.coveredSequence > a.coveredSequence
      · have ht : writeTarget kMaxSnapshotBytes d = .a := by simp [writeTarget, load, ha, hb, newer, hab, hbs]
        have hbc : b.coveredSequence ≤ covered := hle b (by simp [load, ha, hb, newer, hab])
        left
        exact ⟨.a, by simp [hload, ht, hb, newer, Nat.not_lt.mpr hbc]⟩
      · have ht : writeTarget kMaxSnapshotBytes d = .b := by simp [writeTarget, load, ha, hb, newer, hab, has]
        have hac : a.coveredSequence ≤ covered := hle a (by simp [load, ha, hb, newer, hab])
        by_cases hlt : a.coveredSequence < covered
        · left
          exact ⟨.b, by simp [hload, ht, ha, newer, hlt]⟩
        · right
          exact ⟨a, by simp [load, ha, hb, newer, hab], by simp [hload, ht, ha, newer, hlt], by omega⟩

end SnapshotFile

/-! What a directory stands for. -/

theorem lastSequenceOf_cons (r : JournalRecord) (rs : List JournalRecord) :
    lastSequenceOf (r :: rs) = if rs = [] then r.sequence else lastSequenceOf rs := by
  cases hrs : rs.getLast? with
  | none => simp_all [lastSequenceOf]
  | some q =>
    have hne : rs ≠ [] := by rintro rfl; cases hrs
    simp [lastSequenceOf, List.getLast?_cons, hrs, hne]

theorem Consecutive.le_last {expected : Option ℕ} {records : List JournalRecord}
    (hc : Consecutive expected records) : ∀ r ∈ records, r.sequence ≤ lastSequenceOf records := by
  induction records generalizing expected with
  | nil => simp
  | cons q qs ih =>
    intro r hr
    rw [lastSequenceOf_cons]
    cases qs with
    | nil => simp_all
    | cons q' qs' =>
      have hqs := ih hc.2
      rw [if_neg (by simp)]
      obtain rfl | hr := List.mem_cons.mp hr
      · have hnext : q'.sequence = r.sequence + 1 := by
          have := hc.2.1
          simp only [follows, checkedAdd] at this
          split at this <;> simp_all
        exact (by omega : r.sequence ≤ q'.sequence).trans (hqs q' List.mem_cons_self)
      · exact hqs r hr

namespace DurableStore

variable {State : Type} {codec : Codec State}

/-- The journal of `d` holds a segment start and `records`, then `tail`; recovering it gives `s`. -/
structure Holds (codec : Codec State) (d : Disk) (base : ℕ) (records : List JournalRecord) (tail : Bytes) (s : State) :
    Prop where
  file : d.journal = some (journalBytes (segmentStart base :: records) ++ tail)
  short : tail.length < kJournalRecordHeaderBytes
  wellFormed : ∀ r ∈ segmentStart base :: records, r.WellFormed
  consecutive : Consecutive none (segmentStart base :: records)
  entries : ∀ r ∈ records, r.type ≠ .segmentStart
  snapshot : ∃ covered s₀, loadSnapshot codec d = .ok (covered, s₀) ∧ base ≤ covered + 1 ∧ covered < 2 ^ 64 - 1 ∧
    covered ≤ lastSequenceOf (segmentStart base :: records) ∧ replay codec covered records s₀ = .ok s

theorem baseSequence_segment {base : ℕ} (hb : base < 2 ^ 64) (records : List JournalRecord) :
    baseSequence (segmentStart base :: records) = .ok base := by
  have hload : load (store 8 base) = base := load_store (by omega)
  simp [baseSequence, segmentStart, hload]

theorem Holds.recover {d : Disk} {base : ℕ} {records : List JournalRecord} {tail : Bytes} {s : State}
    (h : Holds codec d base records tail s) :
    ∃ covered s₀, loadSnapshot codec d = .ok (covered, s₀) ∧
      DurableStore.recover codec covered s₀ (segmentStart base :: records) = .ok s := by
  obtain ⟨covered, s₀, hload, hbase, hcov, -, hreplay⟩ := h.snapshot
  have hstart := h.wellFormed _ List.mem_cons_self
  have hpos : base ≠ 0 := Nat.pos_iff_ne_zero.mp hstart.sequence_pos
  have hlt : base < 2 ^ 64 := hstart.sequence_lt
  refine ⟨covered, s₀, hload, ?_⟩
  have hskip : replay codec covered (segmentStart base :: records) s₀ = replay codec covered records s₀ := by
    simp [replay, segmentStart]
  simp [DurableStore.recover, baseSequence_segment hlt, bind, Except.bind, hpos, hskip, hreplay]
  omega

theorem replay_covered {covered : ℕ} {records : List JournalRecord} {s : State}
    (h : ∀ r ∈ records, r.sequence ≤ covered) : replay codec covered records s = .ok s := by
  induction records with
  | nil => rfl
  | cons r rs ih =>
    obtain ⟨hr, hrs⟩ := List.forall_mem_cons.mp h
    rw [replay, if_pos (.inr hr), ih hrs]

theorem replay_append {covered : ℕ} {records more : List JournalRecord} {s₀ s : State}
    (h : replay codec covered records s₀ = .ok s) :
    replay codec covered (records ++ more) s₀ = replay codec covered more s := by
  induction records generalizing s₀ with
  | nil =>
    obtain rfl : s₀ = s := Except.ok.inj h
    rfl
  | cons q qs ih =>
    rw [replay] at h
    rw [List.cons_append, replay]
    split
    case isTrue hq =>
      rw [if_pos hq] at h
      exact ih h
    case isFalse hq =>
      rw [if_neg hq] at h
      cases hq' : codec.apply s₀ q.type q.payload with
      | mk status t =>
        rw [hq'] at h
        cases status with
        | error e => cases h
        | ok _ => exact ih h

theorem replay_snoc {covered : ℕ} {records : List JournalRecord} {r : JournalRecord} {s₀ s s' : State}
    (h : replay codec covered records s₀ = .ok s) (ht : r.type ≠ .segmentStart) (hs : covered < r.sequence)
    (ha : codec.apply s r.type r.payload = (.ok (), s')) :
    replay codec covered (records ++ [r]) s₀ = .ok s' := by
  rw [replay_append h]
  simp [replay, ht, Nat.not_le.mpr hs, ha]

end DurableStore

end ConfigurationFabric
