import ConfigurationFabric.JournalWrite

namespace ConfigurationFabric

open LittleEndian
open Program

/-- `Written records j d`: calls that returned ok have left exactly `records` in the journal of `d`. -/
inductive Written : List JournalRecord → Journal → Disk → Prop
  | restart {j j' : Journal} {d d' : Disk} {file : Bytes} {base : ℕ} (hmax : j.maxRecordBytes ≤ kMaxJournalRecordBytes)
      (hfile : d.journal = some file) (hbase : base < 2 ^ 64)
      (h : Prog.Exec (fun _ => True) (j.restartSegment base) d (some (.ok (), j')) d') :
      Written [segmentStart base] j' d'
  | append {records : List JournalRecord} {j j' : Journal} {d d' : Disk} {type : JournalRecordType} {payload : Bytes}
      (hw : Written records j d) (h : Prog.Exec (fun _ => True) (j.append type payload) d (some (.ok (), j')) d') :
      Written (records ++ [⟨type, j'.lastSequence, payload⟩]) j' d'

theorem restartSegment_ok {j j' : Journal} {d d' : Disk} {file : Bytes} {base : ℕ}
    (hfile : d.journal = some file)
    (h : Prog.Exec (fun _ => True) (j.restartSegment base) d (some (.ok (), j')) d') :
    base ≠ 0 ∧ j' = { j with lastSequence := base, recordCount := 1 } ∧
      d' = (Journal.headerOnly d).append (recordBytes (segmentStart base)) := by
  have hs : (j.restartSegment base).Steps (fun _ => True) (fun _ _ => True) (fun r t => r.1 = .ok () →
      base ≠ 0 ∧ r.2 = { j with lastSequence := base, recordCount := 1 } ∧
        t = (Journal.headerOnly d).append (recordBytes (segmentStart base))) d := by
    apply Journal.steps_restartSegment hfile
    case hok => exact fun hb _ => ⟨hb, rfl, rfl⟩
    all_goals simp
  exact (hs.exec h).2 _ rfl rfl

theorem append_ok {j j' : Journal} {d d' : Disk} {type : JournalRecordType} {payload : Bytes}
    (h : Prog.Exec (fun _ => True) (j.append type payload) d (some (.ok (), j')) d') :
    j.Accepts type payload ∧ j' = j.appended ∧ d' = d.append (recordBytes (j.nextRecord type payload)) := by
  have hs : (j.append type payload).Steps (fun _ => True) (fun _ _ => True) (fun r t => r.1 = .ok () →
      j.Accepts type payload ∧ r.2 = j.appended ∧ t = d.append (recordBytes (j.nextRecord type payload))) d := by
    apply Journal.steps_append
    case hok => exact fun ha _ => ⟨ha, rfl, rfl⟩
    all_goals simp
  exact (hs.exec h).2 _ rfl rfl

theorem Consecutive.split {expected : Option ℕ} {before after : List JournalRecord} {r : JournalRecord}
    (hc : Consecutive expected (before ++ r :: after)) :
    Consecutive expected before ∧ follows (lastOf expected before) r.sequence = true := by
  induction before generalizing expected with
  | nil => exact ⟨trivial, by simpa [lastOf] using hc.1⟩
  | cons q qs ih =>
    obtain ⟨hqs, hr⟩ := ih hc.2
    exact ⟨⟨hc.1, hqs⟩, by rwa [lastOf_cons]⟩

/-- What a written journal looks like on disk. -/
structure Layout (records : List JournalRecord) (j : Journal) (d : Disk) : Prop where
  file : d.journal = some (journalBytes records)
  bound : j.maxRecordBytes ≤ kMaxJournalRecordBytes
  wellFormed : ∀ r ∈ records, r.WellFormed
  consecutive : Consecutive none records
  last : lastOf none records = some j.lastSequence

theorem Written.layout {records : List JournalRecord} {j : Journal} {d : Disk} (hw : Written records j d) :
    Layout records j d := by
  induction hw with
  | @restart j j' d d' file base hmax hfile hbase h =>
    obtain ⟨h0, rfl, rfl⟩ := restartSegment_ok hfile h
    exact
      { file := by simp [Disk.append, Journal.headerOnly, journalBytes]
        bound := hmax
        wellFormed := by simpa using segmentStart_wellFormed h0 hbase
        consecutive := ⟨rfl, trivial⟩
        last := rfl }
  | @append records j j' d d' type payload hw h ih =>
    obtain ⟨⟨hk, hl, hs⟩, rfl, rfl⟩ := append_ok h
    have hbound := ih.bound
    refine
      { file := by simp [Disk.append, ih.file, journalBytes, Journal.nextRecord, Journal.appended]
        bound := hbound
        wellFormed := fun r hr => ?_
        consecutive := ih.consecutive.snoc ?_
        last := by simp [lastOf] }
    · obtain hr | hr := List.mem_append.mp hr
      · exact ih.wellFormed r hr
      · obtain rfl := List.mem_singleton.mp hr
        exact ⟨hk, by simp [Journal.appended], by simp only [Journal.appended]; omega, by
          simp only; omega⟩
    · have hnot : ¬ j.lastSequence > 2 ^ 64 - 1 - 1 := by omega
      rw [ih.last]
      simp only [follows, checkedAdd, Journal.appended, if_neg hnot, beq_self_eq_true]

/-! Damage to one byte. -/

/-- The scan refuses the file and leaves it as it is. -/
def Reported (maxRecordBytes : ℕ) (truncateTornTail : Bool) (file : Bytes) : Prop :=
  let result := scanInto maxRecordBytes {} truncateTornTail (some file)
  result.status.isOk = false ∧ result.file = some file

theorem finishScan_refuses_iff {scan : Scanned} (hknown : ∀ r ∈ scan.records, isKnownRecordType r.type.value = true)
    (truncateTornTail : Bool) (content : Bytes) :
    ((finishScan {} truncateTornTail content scan).status.isOk = false ∧
      (finishScan {} truncateTornTail content scan).file = some content) ↔ scan.ending.accepted = false := by
  have hk : (scan.records.any fun r => !isKnownRecordType r.type.value) = false := by
    rw [List.any_eq_false]
    exact fun r hr => by simp [hknown r hr]
  unfold finishScan
  simp only [hk]
  cases scan.ending with
  | corrupted detail => simp [Result.isOk, Result.fail, ScanEnd.accepted]
  | clean => simp [Result.isOk, ScanEnd.accepted]
  | tornHeader => cases truncateTornTail <;> simp [Result.isOk, ScanEnd.accepted]
  | tornPayload => cases truncateTornTail <;> simp [Result.isOk, ScanEnd.accepted]

theorem reported_iff (maxRecordBytes : ℕ) (truncateTornTail : Bool) (rest : Bytes) :
    Reported maxRecordBytes truncateTornTail (journalHeaderBytes ++ rest) ↔
      ¬ Readable maxRecordBytes none rest := by
  have hfuel : rest.length < (journalHeaderBytes ++ rest).length + 1 := by
    rw [List.length_append]; omega
  rw [Reported, scanInto_header, finishScan_refuses_iff scanLoop_known, ← Bool.not_eq_true]
  exact not_congr (accepted_iff_readable hfuel)

/-- The length field of `r` once its byte `i` reads `b`. -/
def damagedLength (r : JournalRecord) (i : ℕ) (b : UInt8) : ℕ :=
  load ((store 4 r.payload.length).set i b)

/-- The damaged byte lies in a length field and the record it now announces is taken at its word: it runs
past the end of the file, or its other span carries the same checksum and the bytes after it read on as
records. -/
structure LengthMisread (maxRecordBytes : ℕ) (before : List JournalRecord) (r : JournalRecord)
    (after : List JournalRecord) (i : ℕ) (b : UInt8) : Prop where
  inLength : i < 4
  reached : ∀ q ∈ before, q.payload.length ≤ maxRecordBytes
  bounded : damagedLength r i b ≤ maxRecordBytes
  taken : (r.payload ++ after.flatMap recordBytes).length < damagedLength r i b ∨
    recordChecksum r.type r.sequence ((r.payload ++ after.flatMap recordBytes).take (damagedLength r i b)) =
        recordChecksum r.type r.sequence r.payload ∧
      Readable maxRecordBytes (some r.sequence)
        ((r.payload ++ after.flatMap recordBytes).drop (damagedLength r i b))

theorem damage_inside {bs front mid back : Bytes} (hsplit : bs = front ++ (mid ++ back)) {i : ℕ} {b : UInt8}
    (hlo : front.length ≤ i) (hhi : i < front.length + mid.length) (hb : bs[i]? ≠ some b) :
    ∃ k < mid.length, mid[k]? ≠ some b ∧ bs.set i b = front ++ (mid.set k b ++ back) := by
  obtain ⟨k, rfl⟩ := Nat.exists_eq_add_of_le hlo
  have hk : k < mid.length := by omega
  refine ⟨k, hk, ?_, ?_⟩
  · rwa [hsplit, List.getElem?_append_right (by omega), Nat.add_sub_cancel_left,
      List.getElem?_append_left hk] at hb
  · rw [hsplit, List.set_append_right _ _ (by omega), Nat.add_sub_cancel_left, List.set_append_left _ _ hk]

theorem crc32cRegister_set {bs : Bytes} {i : ℕ} (hi : i < bs.length) {b : UInt8} (hb : bs[i]? ≠ some b) :
    crc32cRegister (bs.set i b) ≠ crc32cRegister bs := by
  have hold : bs = bs.take i ++ bs[i] :: bs.drop (i + 1) := by
    rw [List.getElem_cons_drop, List.take_append_drop]
  have hne : b ≠ bs[i] := fun h => hb (by rw [h, List.getElem?_eq_getElem hi])
  rw [List.set_eq_take_append_cons_drop, if_pos hi]
  conv_rhs => rw [hold]
  exact crc32cRegister_one_byte _ _ hne

theorem crc32c_set {bs : Bytes} {i : ℕ} (hi : i < bs.length) {b : UInt8} (hb : bs[i]? ≠ some b) :
    crc32c (bs.set i b) ≠ crc32c bs := by
  intro h
  have hregister : crc32cRegister (bs.set i b) ^^^ 0xFFFFFFFF#32 = crc32cRegister bs ^^^ 0xFFFFFFFF#32 := h
  exact crc32cRegister_set hi hb ((BitVec.xor_left_inj _).mp hregister)

theorem set_ne {bs : Bytes} {i : ℕ} {b : UInt8} (hi : i < bs.length) (hb : bs[i]? ≠ some b) :
    bs.set i b ≠ bs := by
  intro h
  rw [← h, List.getElem?_set_self hi] at hb
  exact hb rfl

/-- A record header that is read back has the checksum of the bytes it is made of. -/
theorem checksum_of_readable {maxRecordBytes : ℕ} {expected : Option ℕ} {f₁ f₂ f₃ f₄ payload rest : Bytes}
    (h₁ : f₁.length = 4) (h₂ : f₂.length = 4) (h₃ : f₃.length = 4) (h₄ : f₄.length = 8)
    (hl : load f₁ = payload.length)
    (hr : Readable maxRecordBytes expected (f₁ ++ f₂ ++ f₃ ++ f₄ ++ (payload ++ rest))) :
    (crc32cRegister (f₂ ++ f₄ ++ payload)).toNat = load f₃ := by
  have hs : kJournalRecordHeaderBytes ≤ (f₁ ++ f₂ ++ f₃ ++ f₄ ++ (payload ++ rest)).length := by
    simp [kJournalRecordHeaderBytes, h₁, h₂, h₃, h₄]
    omega
  obtain ⟨hp, hcase⟩ := (readable_iff hs (loadRecordHeader_fields h₁ h₂ h₃ h₄ _) (drop_fields h₁ h₂ h₃ h₄ _)).mp hr
  have hk : isKnownRecordType (load f₂) = true := by
    simp only [headerPlausible, Bool.and_eq_true] at hp
    exact hp.1.2
  obtain hshort | ⟨hc, -, -⟩ := hcase
  · simp only [hl, List.length_append] at hshort; omega
  · simp only [hl, List.take_left] at hc
    rw [← hc]
    exact congrArg BitVec.toNat (checksum_fields h₂ h₄ rfl rfl hk payload).symm

theorem stored_checksum (r : JournalRecord) :
    load (store 4 (recordChecksum r.type r.sequence r.payload).toNat) =
      (crc32cRegister (store 4 r.type.value ++ store 8 r.sequence ++ r.payload)).toNat := by
  have hlt := (recordChecksum r.type r.sequence r.payload).isLt
  rw [load_store (by omega), recordChecksum_eq]

/-- Damage inside the fields a checksum covers separates it from them. -/
theorem checksum_inside (front : Bytes) {mid : Bytes} (back : Bytes) {k : ℕ} {b : UInt8} (hk : k < mid.length)
    (hb : mid[k]? ≠ some b) :
    (crc32cRegister (front ++ (mid.set k b ++ back))).toNat ≠ (crc32cRegister (front ++ (mid ++ back))).toNat := by
  have hset : (front ++ (mid ++ back)).set (front.length + k) b = front ++ (mid.set k b ++ back) := by
    rw [List.set_append_right _ _ (by omega), Nat.add_sub_cancel_left, List.set_append_left _ _ hk]
  rw [← hset]
  intro h
  refine crc32cRegister_set (by simp; omega) ?_ (BitVec.eq_of_toNat_eq h)
  rwa [List.getElem?_append_right (by omega), Nat.add_sub_cancel_left, List.getElem?_append_left hk]

/-- Outside the length field, damage separates the stored checksum from the fields it covers. -/
theorem damaged_fields (r : JournalRecord) {i : ℕ} {b : UInt8} (h4 : 4 ≤ i) (hi : i < (recordBytes r).length)
    (hb : (recordBytes r)[i]? ≠ some b) :
    ∃ f₂ f₃ f₄ payload : Bytes, f₂.length = 4 ∧ f₃.length = 4 ∧ f₄.length = 8 ∧
      payload.length = r.payload.length ∧
      (recordBytes r).set i b = store 4 r.payload.length ++ f₂ ++ f₃ ++ f₄ ++ payload ∧
      (crc32cRegister (f₂ ++ f₄ ++ payload)).toNat ≠ load f₃ := by
  let l := store 4 r.payload.length
  let t := store 4 r.type.value
  let c := store 4 (recordChecksum r.type r.sequence r.payload).toNat
  let q := store 8 r.sequence
  have hl : l.length = 4 := store_length _ _
  have ht : t.length = 4 := store_length _ _
  have hc : c.length = 4 := store_length _ _
  have hq : q.length = 8 := store_length _ _
  have hrec : recordBytes r = l ++ t ++ c ++ q ++ r.payload := rfl
  have hstored : load c = (crc32cRegister (t ++ q ++ r.payload)).toNat := stored_checksum r
  rw [recordBytes_length] at hi
  obtain h8 | h8 := Nat.lt_or_ge i 8
  · -- the record type
    have hsplit : recordBytes r = l ++ (t ++ (c ++ q ++ r.payload)) := by simp [hrec]
    obtain ⟨k, hk, hb, hset⟩ := damage_inside hsplit (by omega) (by omega) hb
    refine ⟨t.set k b, c, q, r.payload, by simpa using ht, hc, hq, rfl, by simp [hset, l], ?_⟩
    simpa [hstored] using checksum_inside [] (q ++ r.payload) hk hb
  obtain h12 | h12 := Nat.lt_or_ge i 12
  · -- the checksum itself
    have hsplit : recordBytes r = (l ++ t) ++ (c ++ (q ++ r.payload)) := by simp [hrec]
    obtain ⟨k, hk, hb, hset⟩ := damage_inside hsplit (by simp; omega) (by simp; omega) hb
    refine ⟨t, c.set k b, q, r.payload, ht, by simpa using hc, hq, rfl, by simp [hset, l], ?_⟩
    rw [← hstored]
    exact fun h => set_ne hk hb (load_injective (by simp) h.symm)
  obtain h20 | h20 := Nat.lt_or_ge i 20
  · -- the sequence number
    have hsplit : recordBytes r = (l ++ t ++ c) ++ (q ++ r.payload) := by simp [hrec]
    obtain ⟨k, hk, hb, hset⟩ := damage_inside hsplit (by simp; omega) (by simp; omega) hb
    refine ⟨t, c, q.set k b, r.payload, ht, hc, by simpa using hq, rfl, by simp [hset, l], ?_⟩
    simpa [hstored] using checksum_inside t r.payload hk hb
  · -- the payload
    have hsplit : recordBytes r = (l ++ t ++ c ++ q) ++ (r.payload ++ []) := by simp [hrec]
    obtain ⟨k, hk, hb, hset⟩ := damage_inside hsplit (by simp; omega) (by simp; omega) hb
    refine ⟨t, c, q, r.payload.set k b, ht, hc, hq, by simp, by simp [hset, l], ?_⟩
    simpa [hstored] using checksum_inside (t ++ q) [] hk hb

theorem damaged_not_readable {r : JournalRecord} (hr : r.WellFormed) {maxRecordBytes : ℕ} {expected : Option ℕ}
    {i : ℕ} {b : UInt8} (rest : Bytes) (h4 : 4 ≤ i) (hi : i < (recordBytes r).length)
    (hb : (recordBytes r)[i]? ≠ some b) :
    ¬ Readable maxRecordBytes expected ((recordBytes r).set i b ++ rest) := by
  intro hread
  obtain ⟨f₂, f₃, f₄, payload, h₂, h₃, h₄, hp, hset, hne⟩ := damaged_fields r h4 hi hb
  rw [hset, List.append_assoc _ payload rest] at hread
  exact hne (checksum_of_readable (by simp) h₂ h₃ h₄ (by rw [load_store hr.payload_lt, hp]) hread)

/-- Inside its length field a damaged record is read with the length it now announces. -/
theorem damaged_length_readable {r : JournalRecord} (hr : r.WellFormed) {maxRecordBytes : ℕ} {expected : Option ℕ}
    (hf : follows expected r.sequence = true) {i : ℕ} (b : UInt8) (rest : Bytes) (h4 : i < 4) :
    Readable maxRecordBytes expected ((recordBytes r).set i b ++ rest) ↔
      damagedLength r i b ≤ maxRecordBytes ∧
        ((r.payload ++ rest).length < damagedLength r i b ∨
          recordChecksum r.type r.sequence ((r.payload ++ rest).take (damagedLength r i b)) =
              recordChecksum r.type r.sequence r.payload ∧
            Readable maxRecordBytes (some r.sequence) ((r.payload ++ rest).drop (damagedLength r i b))) := by
  let l := (store 4 r.payload.length).set i b
  let t := store 4 r.type.value
  let c := store 4 (recordChecksum r.type r.sequence r.payload).toNat
  let q := store 8 r.sequence
  have hl : l.length = 4 := by simp [l]
  have ht : t.length = 4 := store_length _ _
  have hc : c.length = 4 := store_length _ _
  have hq : q.length = 8 := store_length _ _
  have hset : (recordBytes r).set i b ++ rest = l ++ t ++ c ++ q ++ (r.payload ++ rest) := by
    have hsplit : recordBytes r = store 4 r.payload.length ++ (t ++ c ++ q ++ r.payload) := by
      simp [recordBytes, recordHeader, t, c, q]
    rw [hsplit, List.set_append_left _ _ (by simpa using h4)]
    simp [l]
  have hs : kJournalRecordHeaderBytes ≤ (l ++ t ++ c ++ q ++ (r.payload ++ rest)).length := by
    simp [kJournalRecordHeaderBytes, hl, ht, hc, hq]
    omega
  have hcrc := (recordChecksum r.type r.sequence r.payload).isLt
  have htype := r.type.value_lt
  have hseq := hr.sequence_lt
  have hlc : load c = (recordChecksum r.type r.sequence r.payload).toNat := load_store (by omega)
  have hlt : load t = r.type.value := load_store (by omega)
  have hlq : load q = r.sequence := load_store (by omega)
  rw [hset, readable_iff hs (loadRecordHeader_fields hl ht hc hq _) (drop_fields hl ht hc hq _), hlc, hlt, hlq]
  simp only [headerPlausible, hr.known, hr.sequence_pos, hf, RecordHeader.record,
    JournalRecordType.ofValue_value, Option.getD_some, Bool.and_true, decide_true, decide_eq_true_eq,
    true_and, BitVec.toNat_inj]
  rfl

/-- A changed byte is reported exactly when it does not turn a length field into one that is misread. -/
theorem damage_reported_iff {before after : List JournalRecord} {r : JournalRecord} {j : Journal} {d : Disk}
    {file : Bytes} (hw : Written (before ++ r :: after) j d) (hfile : d.journal = some file)
    {i : ℕ} (hi : i < (recordBytes r).length) {b : UInt8} (hb : (recordBytes r)[i]? ≠ some b)
    (maxRecordBytes : ℕ) (truncateTornTail : Bool) :
    Reported maxRecordBytes truncateTornTail (file.set ((journalBytes before).length + i) b) ↔
      ¬ LengthMisread maxRecordBytes before r after i b := by
  obtain ⟨hlayout, -, hwf, hcons, -⟩ := hw.layout
  obtain rfl : file = journalBytes (before ++ r :: after) := Option.some.inj (hfile.symm.trans hlayout)
  have hr : r.WellFormed := hwf r (by simp)
  have hbefore : ∀ q ∈ before, q.WellFormed := fun q hq => hwf q (by simp [hq])
  obtain ⟨hcb, hf⟩ := hcons.split
  have hsplit : journalBytes (before ++ r :: after) =
      journalBytes before ++ (recordBytes r ++ after.flatMap recordBytes) := by
    simp [journalBytes]
  have hset : (journalBytes (before ++ r :: after)).set ((journalBytes before).length + i) b =
      journalHeaderBytes ++ (before.flatMap recordBytes ++
        ((recordBytes r).set i b ++ after.flatMap recordBytes)) := by
    rw [hsplit, List.set_append_right _ _ (by omega), Nat.add_sub_cancel_left, List.set_append_left _ _ hi]
    simp [journalBytes]
  rw [hset, reported_iff, readable_records hbefore hcb]
  refine not_congr ?_
  by_cases h4 : i < 4
  · rw [damaged_length_readable hr hf b _ h4]
    constructor
    · rintro ⟨hreach, hbound, htaken⟩
      exact ⟨h4, hreach, hbound, htaken⟩
    · rintro ⟨-, hreach, hbound, htaken⟩
      exact ⟨hreach, hbound, htaken⟩
  · refine iff_of_false (fun h => ?_) (fun h => h4 h.inLength)
    exact damaged_not_readable hr _ (Nat.not_lt.mp h4) hi hb h.2

/-! A journal of a segment start and one note. -/

def noteRecord : JournalRecord := ⟨.note, 2, [7]⟩

theorem written_note :
    Written ([segmentStart 1] ++ [noteRecord]) { lastSequence := 2, recordCount := 2 }
      { journal := some (journalBytes [segmentStart 1, noteRecord]) } := by
  have hrestart : Prog.Exec (fun _ => True) (({} : Journal).restartSegment 1) { journal := some [] }
      (some (.ok (), { lastSequence := 1, recordCount := 1 })) { journal := some (journalBytes [segmentStart 1]) } :=
    Prog.exec_of_run (List.replicate 20 .done) 100 (by simp) (by decide +kernel)
  have happend : Prog.Exec (fun _ => True) (Journal.append { lastSequence := 1, recordCount := 1 } .note [7])
      { journal := some (journalBytes [segmentStart 1]) }
      (some (.ok (), { lastSequence := 2, recordCount := 2 }))
      { journal := some (journalBytes [segmentStart 1, noteRecord]) } :=
    Prog.exec_of_run (List.replicate 20 .done) 100 (by simp) (by decide +kernel)
  exact .append (.restart (by decide) rfl (by decide) hrestart) happend

theorem damaged_segment_start_reported :
    Reported kMaxJournalRecordBytes true ((journalBytes [segmentStart 1, noteRecord]).set (12 + 20) 9) := by
  have hiff := @damage_reported_iff [] [noteRecord] (segmentStart 1) _ _ _ written_note rfl 20
    (by simp [segmentStart]) 9 (by decide) kMaxJournalRecordBytes true
  exact hiff.mpr fun h => absurd h.inLength (by decide)

/-- One changed length byte of the first record: the scan drops both records and cuts the file. -/
theorem damaged_length_cuts_journal :
    Written ([] ++ segmentStart 1 :: [noteRecord]) { lastSequence := 2, recordCount := 2 }
        { journal := some (journalBytes [segmentStart 1, noteRecord]) } ∧
      (recordBytes (segmentStart 1))[1]? ≠ some 1 ∧
      let result := scanInto kMaxJournalRecordBytes {} true
        (some ((journalBytes [segmentStart 1, noteRecord]).set (12 + 1) 1))
      result.status = .ok () ∧ result.records = [] ∧ result.file = some journalHeaderBytes ∧
        ¬ Reported kMaxJournalRecordBytes true ((journalBytes [segmentStart 1, noteRecord]).set (12 + 1) 1) := by
  have hscan : (scanInto kMaxJournalRecordBytes {} true
      (some ((journalBytes [segmentStart 1, noteRecord]).set (12 + 1) 1))).status = .ok () := by decide +kernel
  refine ⟨written_note, by decide +kernel, hscan, by decide +kernel, by decide +kernel, fun h => ?_⟩
  have hrefused := h.1
  rw [hscan] at hrefused
  exact absurd hrefused (by decide)

end ConfigurationFabric
