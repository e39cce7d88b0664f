import ConfigurationFabric.Journal

namespace ConfigurationFabric

open LittleEndian

theorem recordChecksum_eq (type : JournalRecordType) (sequence : ℕ) (payload : Bytes) :
    recordChecksum type sequence payload = crc32cRegister (store 4 type.value ++ store 8 sequence ++ payload) :=
  crc32c_pieces _ _

theorem JournalRecordType.value_lt (t : JournalRecordType) : t.value < 256 := by
  cases t <;> decide

theorem JournalRecordType.ofValue_value (t : JournalRecordType) : ofValue t.value = some t := by
  cases t <;> rfl

theorem JournalRecordType.value_ofValue {raw : ℕ} {t : JournalRecordType} (h : ofValue raw = some t) :
    t.value = raw := by
  unfold ofValue at h
  split at h <;> first
    | exact Option.some.inj h ▸ rfl
    | exact absurd h (by simp)

theorem known_record_value {h : RecordHeader} (hk : isKnownRecordType h.rawType = true) (payload : Bytes) :
    (h.record payload).type.value = h.rawType := by
  unfold isKnownRecordType at hk
  unfold RecordHeader.record
  cases ht : JournalRecordType.ofValue h.rawType with
  | none => simp [ht] at hk
  | some t => exact JournalRecordType.value_ofValue ht

@[simp] theorem recordHeader_length (r : JournalRecord) : (recordHeader r).length = 20 := by
  simp [recordHeader]

@[simp] theorem recordBytes_length (r : JournalRecord) : (recordBytes r).length = 20 + r.payload.length := by
  simp [recordBytes]

@[simp] theorem journalHeaderBytes_length : journalHeaderBytes.length = 12 := by
  simp [journalHeaderBytes]

theorem validate_journalHeaderBytes : validateJournalHeader journalHeaderBytes = .ok () := by
  decide +kernel

/-! The fields of a record header, wherever they come from. -/

section Fields

variable {f₁ f₂ f₃ f₄ : Bytes} (h₁ : f₁.length = 4) (h₂ : f₂.length = 4) (h₃ : f₃.length = 4)
  (h₄ : f₄.length = 8)
include h₁ h₂ h₃ h₄

theorem loadRecordHeader_fields (body : Bytes) :
    loadRecordHeader (f₁ ++ f₂ ++ f₃ ++ f₄ ++ body) = ⟨load f₁, load f₂, load f₃, load f₄⟩ := by
  have hd₄ : (f₁ ++ f₂ ++ f₃ ++ f₄ ++ body).drop 4 = f₂ ++ f₃ ++ f₄ ++ body := by
    simp [← h₁, List.append_assoc]
  have hd₈ : (f₁ ++ f₂ ++ f₃ ++ f₄ ++ body).drop 8 = f₃ ++ f₄ ++ body := by
    rw [show 8 = 4 + 4 from rfl, ← List.drop_drop, hd₄]
    simp [← h₂, List.append_assoc]
  have hd₁₂ : (f₁ ++ f₂ ++ f₃ ++ f₄ ++ body).drop 12 = f₄ ++ body := by
    rw [show 12 = 8 + 4 from rfl, ← List.drop_drop, hd₈]
    simp [← h₃, List.append_assoc]
  have ht₁ : (f₁ ++ f₂ ++ f₃ ++ f₄ ++ body).take 4 = f₁ := by simp [← h₁, List.append_assoc]
  have ht₂ : (f₂ ++ f₃ ++ f₄ ++ body).take 4 = f₂ := by simp [← h₂, List.append_assoc]
  have ht₃ : (f₃ ++ f₄ ++ body).take 4 = f₃ := by simp [← h₃, List.append_assoc]
  have ht₄ : (f₄ ++ body).take 8 = f₄ := by simp [← h₄]
  rw [loadRecordHeader, hd₄, hd₈, hd₁₂, ht₁, ht₂, ht₃, ht₄]

theorem drop_fields (body : Bytes) : (f₁ ++ f₂ ++ f₃ ++ f₄ ++ body).drop 20 = body := by
  have hl : (f₁ ++ f₂ ++ f₃ ++ f₄).length = 20 := by simp [h₁, h₂, h₃, h₄]
  rw [← hl, List.drop_left]

omit h₁ h₃ in
theorem checksum_fields {h : RecordHeader} (ht : h.rawType = load f₂) (hs : h.rawSequence = load f₄)
    (hk : isKnownRecordType h.rawType = true) (payload : Bytes) :
    recordChecksum (h.record payload).type h.rawSequence payload = crc32cRegister (f₂ ++ f₄ ++ payload) := by
  rw [recordChecksum_eq, known_record_value hk, ht, hs, ← h₂, ← h₄, store_load, store_load]

end Fields

/-! What the record loop accepts. -/

/-- The bytes read as records up to the end of the file or up to a torn last record. -/
inductive Readable (maxRecordBytes : ℕ) : Option ℕ → Bytes → Prop
  | short {expected : Option ℕ} {stream : Bytes} (hs : stream.length < kJournalRecordHeaderBytes) :
      Readable maxRecordBytes expected stream
  | torn {expected : Option ℕ} {stream : Bytes} (hs : kJournalRecordHeaderBytes ≤ stream.length)
      (hp : headerPlausible maxRecordBytes (loadRecordHeader stream) = true)
      (ht : stream.length < kJournalRecordHeaderBytes + (loadRecordHeader stream).payloadLength) :
      Readable maxRecordBytes expected stream
  | record {expected : Option ℕ} {stream payload rest : Bytes} {h : RecordHeader}
      (hs : kJournalRecordHeaderBytes ≤ stream.length) (hh : loadRecordHeader stream = h)
      (hp : headerPlausible maxRecordBytes h = true)
      (hb : stream.drop kJournalRecordHeaderBytes = payload ++ rest) (hl : payload.length = h.payloadLength)
      (hc : (recordChecksum (h.record payload).type h.rawSequence payload).toNat = h.storedCrc)
      (hf : follows expected h.rawSequence = true) (hr : Readable maxRecordBytes (some h.rawSequence) rest) :
      Readable maxRecordBytes expected stream

section Loop

variable {maxRecordBytes size : ℕ}

theorem scanLoop_short {fuel : ℕ} {expected : Option ℕ} {offset : ℕ} {stream : Bytes}
    (hs : stream.length < kJournalRecordHeaderBytes) :
    scanLoop maxRecordBytes size (fuel + 1) expected offset stream =
      ⟨[], offset, if offset ≠ size then .tornHeader else .clean⟩ := by
  simp only [scanLoop, hs, if_true]
  split <;> rfl

theorem scanLoop_torn {fuel : ℕ} {expected : Option ℕ} {offset : ℕ} {stream : Bytes}
    (hs : kJournalRecordHeaderBytes ≤ stream.length)
    (hp : headerPlausible maxRecordBytes (loadRecordHeader stream) = true)
    (ht : stream.length < kJournalRecordHeaderBytes + (loadRecordHeader stream).payloadLength) :
    scanLoop maxRecordBytes size (fuel + 1) expected offset stream = ⟨[], offset, .tornPayload⟩ := by
  have hb : (stream.drop kJournalRecordHeaderBytes).length < (loadRecordHeader stream).payloadLength := by
    rw [List.length_drop]; omega
  simp [scanLoop, Nat.not_lt.mpr hs, hp, - List.length_drop, hb]

theorem scanLoop_step {fuel : ℕ} {expected : Option ℕ} {offset : ℕ} {stream payload rest : Bytes}
    {h : RecordHeader} (hs : kJournalRecordHeaderBytes ≤ stream.length) (hh : loadRecordHeader stream = h)
    (hp : headerPlausible maxRecordBytes h = true)
    (hb : stream.drop kJournalRecordHeaderBytes = payload ++ rest) (hl : payload.length = h.payloadLength)
    (hc : (recordChecksum (h.record payload).type h.rawSequence payload).toNat = h.storedCrc)
    (hf : follows expected h.rawSequence = true) :
    scanLoop maxRecordBytes size (fuel + 1) expected offset stream =
      let t := scanLoop maxRecordBytes size fuel (some h.rawSequence)
        (offset + kJournalRecordHeaderBytes + h.payloadLength) rest
      { t with records := h.record payload :: t.records } := by
  have htake : (payload ++ rest).take h.payloadLength = payload := by rw [← hl, List.take_left]
  have hdrop : (payload ++ rest).drop h.payloadLength = rest := by rw [← hl, List.drop_left]
  have hfit : ¬ (payload ++ rest).length < h.payloadLength := by simp [hl]
  have hseq : (h.record payload).sequence = h.rawSequence := rfl
  have hpay : (h.record payload).payload = payload := rfl
  simp only [scanLoop, Nat.not_lt.mpr hs, if_false, hh, hp, Bool.true_eq_false, hb, hfit, htake, hdrop,
    hseq, hpay, hc, ne_eq, not_true_eq_false, hf]

theorem scanLoop_accepted {fuel : ℕ} {expected : Option ℕ} {offset : ℕ} {stream : Bytes}
    {h : RecordHeader} {body : Bytes} (hs : kJournalRecordHeaderBytes ≤ stream.length)
    (hh : loadRecordHeader stream = h) (hb : stream.drop kJournalRecordHeaderBytes = body) :
    (scanLoop maxRecordBytes size (fuel + 1) expected offset stream).ending.accepted = true ↔
      headerPlausible maxRecordBytes h = true ∧
        (body.length < h.payloadLength ∨
          (recordChecksum (h.record (body.take h.payloadLength)).type h.rawSequence
              (body.take h.payloadLength)).toNat = h.storedCrc ∧
            follows expected h.rawSequence = true ∧
            (scanLoop maxRecordBytes size fuel (some h.rawSequence)
              (offset + kJournalRecordHeaderBytes + h.payloadLength)
              (body.drop h.payloadLength)).ending.accepted = true) := by
  subst hh hb
  rw [scanLoop, if_neg (Nat.not_lt.mpr hs)]
  simp only
  split
  case isTrue hp => simp [ScanEnd.accepted, hp]
  case isFalse hp =>
    have hp' := Bool.eq_true_of_not_eq_false hp
    split
    case isTrue ht => exact iff_of_true rfl ⟨hp', .inl ht⟩
    case isFalse ht =>
      split
      case isTrue hc => exact iff_of_false (by simp [ScanEnd.accepted]) (fun h' => h'.2.elim ht fun h' => hc h'.1)
      case isFalse hc =>
        split
        case isTrue hf =>
          refine iff_of_false (by simp [ScanEnd.accepted]) (fun h' => h'.2.elim ht fun h' => ?_)
          exact Bool.false_ne_true (hf.symm.trans h'.2.1)
        case isFalse hf =>
          constructor
          · intro ha
            exact ⟨hp', .inr ⟨not_not.mp hc, Bool.eq_true_of_not_eq_false hf, ha⟩⟩
          · rintro ⟨-, ht' | ⟨-, -, ha⟩⟩
            · exact absurd ht' ht
            · exact ha

theorem readable_iff {expected : Option ℕ} {stream body : Bytes} {h : RecordHeader}
    (hs : kJournalRecordHeaderBytes ≤ stream.length) (hh : loadRecordHeader stream = h)
    (hb : stream.drop kJournalRecordHeaderBytes = body) :
    Readable maxRecordBytes expected stream ↔
      headerPlausible maxRecordBytes h = true ∧
        (body.length < h.payloadLength ∨
          (recordChecksum (h.record (body.take h.payloadLength)).type h.rawSequence
              (body.take h.payloadLength)).toNat = h.storedCrc ∧
            follows expected h.rawSequence = true ∧
            Readable maxRecordBytes (some h.rawSequence) (body.drop h.payloadLength)) := by
  have hlen : body.length = stream.length - kJournalRecordHeaderBytes := by rw [← hb, List.length_drop]
  subst hh
  constructor
  · intro hr
    cases hr with
    | short hs' => omega
    | torn _ hp ht => exact ⟨hp, .inl (by omega)⟩
    | @record _ _ payload rest _ _ hh hp hb' hl hc hf hr =>
      subst hh
      have hbody : body = payload ++ rest := hb.symm.trans hb'
      have htake : body.take (loadRecordHeader stream).payloadLength = payload := by
        rw [hbody, ← hl, List.take_left]
      have hdrop : body.drop (loadRecordHeader stream).payloadLength = rest := by
        rw [hbody, ← hl, List.drop_left]
      rw [htake, hdrop]
      exact ⟨hp, .inr ⟨hc, hf, hr⟩⟩
  · rintro ⟨hp, hcase⟩
    by_cases ht : body.length < (loadRecordHeader stream).payloadLength
    · exact .torn hs hp (by omega)
    obtain hc | ⟨hc, hf, hr⟩ := hcase
    · exact absurd hc ht
    · exact .record hs rfl hp (hb.trans (List.take_append_drop _ body).symm)
        (by rw [List.length_take]; exact min_eq_left (Nat.not_lt.mp ht)) hc hf hr

theorem accepted_iff_readable {fuel : ℕ} {expected : Option ℕ} {offset : ℕ} {stream : Bytes}
    (hfuel : stream.length < fuel) :
    (scanLoop maxRecordBytes size fuel expected offset stream).ending.accepted = true ↔
      Readable maxRecordBytes expected stream := by
  induction fuel generalizing expected offset stream with
  | zero => omega
  | succ fuel ih =>
    by_cases hs : stream.length < kJournalRecordHeaderBytes
    · rw [scanLoop_short hs]
      refine iff_of_true ?_ (.short hs)
      by_cases hsize : offset ≠ size <;> simp [hsize, ScanEnd.accepted]
    have hs' := Nat.not_lt.mp hs
    have hrest : ((stream.drop kJournalRecordHeaderBytes).drop
        (loadRecordHeader stream).payloadLength).length < fuel := by
      simp only [List.length_drop, kJournalRecordHeaderBytes] at hs' ⊢
      omega
    rw [readable_iff hs' rfl rfl, ← ih hrest]
    exact scanLoop_accepted hs' rfl rfl

theorem scanLoop_known {fuel : ℕ} {expected : Option ℕ} {offset : ℕ} {stream : Bytes} :
    ∀ r ∈ (scanLoop maxRecordBytes size fuel expected offset stream).records,
      isKnownRecordType r.type.value = true := by
  induction fuel generalizing expected offset stream with
  | zero => simp [scanLoop]
  | succ fuel ih =>
    rw [scanLoop]
    simp only
    split
    · split <;> simp
    split
    · simp
    case isFalse hp =>
      have hk : isKnownRecordType (loadRecordHeader stream).rawType = true := by
        simp only [headerPlausible, Bool.not_eq_false, Bool.and_eq_true] at hp
        exact hp.1.2
      split
      · simp
      split
      · simp
      split
      · simp
      · intro r hr
        obtain rfl | hr := List.mem_cons.mp hr
        · rw [known_record_value hk]; exact hk
        · exact ih r hr

end Loop

theorem scanInto_header (maxRecordBytes : ℕ) (truncateTornTail : Bool) (rest : Bytes) :
    scanInto maxRecordBytes {} truncateTornTail (some (journalHeaderBytes ++ rest)) =
      finishScan {} truncateTornTail (journalHeaderBytes ++ rest)
        (scanLoop maxRecordBytes (journalHeaderBytes ++ rest).length ((journalHeaderBytes ++ rest).length + 1)
          none kJournalHeaderBytes rest) := by
  have htake : (journalHeaderBytes ++ rest).take kJournalHeaderBytes = journalHeaderBytes := by
    rw [kJournalHeaderBytes, ← journalHeaderBytes_length, List.take_left]
  have hdrop : (journalHeaderBytes ++ rest).drop kJournalHeaderBytes = rest := by
    rw [kJournalHeaderBytes, ← journalHeaderBytes_length, List.drop_left]
  have hlong : ¬ (journalHeaderBytes ++ rest).length < kJournalHeaderBytes := by
    simp [kJournalHeaderBytes]
  simp only [scanInto, if_true, Bool.true_eq_false, if_false, hlong, htake, hdrop, validate_journalHeaderBytes]

/-! Records as `append` and `restartSegment` write them. -/

structure JournalRecord.WellFormed (r : JournalRecord) : Prop where
  known : isKnownRecordType r.type.value = true
  sequence_pos : 0 < r.sequence
  sequence_lt : r.sequence < 2 ^ 64
  small : r.payload.length ≤ kMaxJournalRecordBytes

theorem segmentStart_wellFormed {base : ℕ} (h0 : base ≠ 0) (hlt : base < 2 ^ 64) :
    (segmentStart base).WellFormed :=
  ⟨rfl, Nat.pos_of_ne_zero h0, hlt, by simp [segmentStart, kMaxJournalRecordBytes]⟩

/-- Sequence numbers that increase by one from record to record. -/
def Consecutive : Option ℕ → List JournalRecord → Prop
  | _, [] => True
  | expected, r :: rs => follows expected r.sequence = true ∧ Consecutive (some r.sequence) rs

def lastOf (expected : Option ℕ) (records : List JournalRecord) : Option ℕ :=
  (records.getLast?.map (·.sequence)).or expected

theorem lastOf_cons (expected : Option ℕ) (r : JournalRecord) (rs : List JournalRecord) :
    lastOf expected (r :: rs) = lastOf (some r.sequence) rs := by
  cases hrs : rs.getLast? with
  | none => simp_all [lastOf]
  | some q => simp [lastOf, List.getLast?_cons, hrs]

theorem Consecutive.snoc {expected : Option ℕ} {records : List JournalRecord} {r : JournalRecord}
    (hc : Consecutive expected records) (hr : follows (lastOf expected records) r.sequence = true) :
    Consecutive expected (records ++ [r]) := by
  induction records generalizing expected with
  | nil => exact ⟨by simpa [lastOf] using hr, trivial⟩
  | cons q qs ih => exact ⟨hc.1, ih hc.2 (by rwa [lastOf_cons] at hr)⟩

namespace JournalRecord.WellFormed

variable {r : JournalRecord} (hr : r.WellFormed)
include hr

theorem payload_lt : r.payload.length < 256 ^ 4 := by
  have := hr.small
  simp only [kMaxJournalRecordBytes] at this
  omega

theorem loadRecordHeader_eq (rest : Bytes) :
    loadRecordHeader (recordBytes r ++ rest) =
      ⟨r.payload.length, r.type.value, (recordChecksum r.type r.sequence r.payload).toNat, r.sequence⟩ := by
  have hcrc := (recordChecksum r.type r.sequence r.payload).isLt
  have htype := r.type.value_lt
  have hseq := hr.sequence_lt
  rw [recordBytes, recordHeader, List.append_assoc _ r.payload rest, loadRecordHeader_fields (by simp) (by simp)
    (by simp) (by simp), load_store hr.payload_lt, load_store (by omega), load_store (by omega),
    load_store (by omega)]

theorem loadRecordHeader_take {n : ℕ} (h20 : 20 ≤ n) :
    loadRecordHeader ((recordBytes r).take n) =
      ⟨r.payload.length, r.type.value, (recordChecksum r.type r.sequence r.payload).toNat, r.sequence⟩ := by
  have hsplit : (recordBytes r).take n = recordHeader r ++ r.payload.take (n - 20) := by
    rw [recordBytes, List.take_append, recordHeader_length, List.take_of_length_le (by simp; omega)]
  rw [← hr.loadRecordHeader_eq [], hsplit, recordBytes, recordHeader,
    loadRecordHeader_fields (by simp) (by simp) (by simp) (by simp), List.append_nil,
    loadRecordHeader_fields (by simp) (by simp) (by simp) (by simp)]

omit hr in
theorem record_eq : (⟨r.payload.length, r.type.value, (recordChecksum r.type r.sequence r.payload).toNat,
    r.sequence⟩ : RecordHeader).record r.payload = r := by
  simp [RecordHeader.record, JournalRecordType.ofValue_value]

omit hr in
theorem drop_header (rest : Bytes) :
    (recordBytes r ++ rest).drop kJournalRecordHeaderBytes = r.payload ++ rest := by
  rw [recordBytes, List.append_assoc, kJournalRecordHeaderBytes, ← recordHeader_length r, List.drop_left]

theorem readable_record {maxRecordBytes : ℕ} {expected : Option ℕ} (hf : follows expected r.sequence = true)
    (rest : Bytes) :
    Readable maxRecordBytes expected (recordBytes r ++ rest) ↔
      r.payload.length ≤ maxRecordBytes ∧ Readable maxRecordBytes (some r.sequence) rest := by
  have hs : kJournalRecordHeaderBytes ≤ (recordBytes r ++ rest).length := by
    simp [kJournalRecordHeaderBytes]; omega
  rw [readable_iff hs (hr.loadRecordHeader_eq rest) (drop_header rest)]
  simp only [List.take_left, List.drop_left, record_eq, headerPlausible, hr.known, hr.sequence_pos, hf]
  simp

theorem scanLoop_record {maxRecordBytes size fuel offset : ℕ} {expected : Option ℕ}
    (hf : follows expected r.sequence = true) (hm : r.payload.length ≤ maxRecordBytes) (rest : Bytes) :
    scanLoop maxRecordBytes size (fuel + 1) expected offset (recordBytes r ++ rest) =
      let t := scanLoop maxRecordBytes size fuel (some r.sequence) (offset + (recordBytes r).length) rest
      { t with records := r :: t.records } := by
  have hs : kJournalRecordHeaderBytes ≤ (recordBytes r ++ rest).length := by
    simp [kJournalRecordHeaderBytes]; omega
  have hp : headerPlausible maxRecordBytes ⟨r.payload.length, r.type.value,
      (recordChecksum r.type r.sequence r.payload).toNat, r.sequence⟩ = true := by
    simp [headerPlausible, hm, hr.known, hr.sequence_pos]
  rw [scanLoop_step hs (hr.loadRecordHeader_eq rest) hp (drop_header rest) rfl
    (by rw [record_eq]) hf, record_eq, recordBytes_length, kJournalRecordHeaderBytes, Nat.add_assoc]

end JournalRecord.WellFormed

theorem readable_records {maxRecordBytes : ℕ} {records : List JournalRecord} {expected : Option ℕ}
    (hw : ∀ r ∈ records, r.WellFormed) (hc : Consecutive expected records) (rest : Bytes) :
    Readable maxRecordBytes expected (records.flatMap recordBytes ++ rest) ↔
      (∀ r ∈ records, r.payload.length ≤ maxRecordBytes) ∧
        Readable maxRecordBytes (lastOf expected records) rest := by
  induction records generalizing expected with
  | nil => simp [lastOf]
  | cons r rs ih =>
    obtain ⟨hr, hrs⟩ := List.forall_mem_cons.mp hw
    rw [List.flatMap_cons, List.append_assoc, hr.readable_record hc.1, ih hrs hc.2, lastOf_cons,
      List.forall_mem_cons, and_assoc]

theorem scanLoop_records {maxRecordBytes size fuel : ℕ} {records : List JournalRecord}
    {expected : Option ℕ} (hw : ∀ r ∈ records, r.WellFormed) (hc : Consecutive expected records)
    (hm : ∀ r ∈ records, r.payload.length ≤ maxRecordBytes) (offset : ℕ) (rest : Bytes) :
    scanLoop maxRecordBytes size (fuel + records.length) expected offset (records.flatMap recordBytes ++ rest) =
      let t := scanLoop maxRecordBytes size fuel (lastOf expected records)
        (offset + (records.flatMap recordBytes).length) rest
      { t with records := records ++ t.records } := by
  induction records generalizing expected offset with
  | nil => simp [lastOf]
  | cons r rs ih =>
    obtain ⟨hr, hrs⟩ := List.forall_mem_cons.mp hw
    obtain ⟨hmr, hmrs⟩ := List.forall_mem_cons.mp hm
    rw [List.flatMap_cons, List.append_assoc, List.length_cons, ← Nat.add_assoc,
      hr.scanLoop_record hc.1 hmr, ih hrs hc.2 hmrs, lastOf_cons]
    simp only [List.length_append, Nat.add_assoc, List.cons_append]

end ConfigurationFabric
