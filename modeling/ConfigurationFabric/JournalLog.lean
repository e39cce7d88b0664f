import ConfigurationFabric.StoreRecovery

namespace ConfigurationFabric

open LittleEndian

/-! Files that a scan accepts, whoever wrote them. -/

theorem field_of_load {w v : ℕ} {bs : Bytes} (hlen : bs.length = w) (h : load bs = v) : bs = store w v := by
  rw [← h, ← hlen, store_load]

theorem header_of_validated {bytes : Bytes} (hlen : bytes.length = kJournalHeaderBytes)
    (h : validateJournalHeader bytes = .ok ()) : bytes = journalHeaderBytes := by
  have h12 : bytes.length = 12 := hlen
  unfold validateJournalHeader at h
  split at h
  · cases h
  split at h
  · cases h
  case isFalse hmagic =>
  split at h
  · cases h
  case isFalse hcrc =>
  split at h
  · cases h
  case isFalse hversion =>
  split at h
  · cases h
  case isFalse hreserved =>
  have hm := field_of_load (w := 4) (by simp; omega) (not_not.mp hmagic)
  have hv := field_of_load (w := 2) (by simp; omega) (not_not.mp hversion)
  have hr := field_of_load (w := 2) (by simp; omega) (not_not.mp hreserved)
  have hc := field_of_load (w := 4) (by simp; omega) (not_not.mp hcrc).symm
  have h8 : bytes.take 8 = store 4 kJournalMagic ++ store 2 kJournalFormatVersion ++ store 2 0 := by
    rw [← hm, ← hv, ← hr, ← List.take_add, ← List.take_add]
  have hrest : (bytes.drop 8).take 4 = bytes.drop 8 := List.take_of_length_le (by simp; omega)
  rw [hrest, h8] at hc
  calc bytes = bytes.take 8 ++ bytes.drop 8 := (List.take_append_drop 8 bytes).symm
    _ = journalHeaderBytes := by rw [h8, hc]; rfl

/-- A record that passes the checks of the loop is written as it stands. -/
theorem record_of_header {stream payload rest : Bytes} (hs : kJournalRecordHeaderBytes ≤ stream.length)
    (hp : headerPlausible kMaxJournalRecordBytes (loadRecordHeader stream) = true)
    (hb : stream.drop kJournalRecordHeaderBytes = payload ++ rest)
    (hl : payload.length = (loadRecordHeader stream).payloadLength)
    (hc : (recordChecksum ((loadRecordHeader stream).record payload).type (loadRecordHeader stream).rawSequence
      payload).toNat = (loadRecordHeader stream).storedCrc) :
    ((loadRecordHeader stream).record payload).WellFormed ∧
      stream = recordBytes ((loadRecordHeader stream).record payload) ++ rest := by
  have hlen : 20 ≤ stream.length := hs
  simp only [headerPlausible, Bool.and_eq_true, decide_eq_true_eq] at hp
  obtain ⟨⟨hsmall, hknown⟩, hpos⟩ := hp
  have hvalue := known_record_value hknown payload
  have hseq : (loadRecordHeader stream).rawSequence < 2 ^ 64 := by
    have hlt := load_lt ((stream.drop 12).take 8)
    have h8 : ((stream.drop 12).take 8).length = 8 := by simp; omega
    rw [h8] at hlt
    exact hlt
  constructor
  · exact ⟨by rw [hvalue]; exact hknown, hpos, hseq, by rw [← hl] at hsmall; exact hsmall⟩
  · have h₁ := field_of_load (by simp; omega : (stream.take 4).length = 4) hl.symm
    have h₂ := field_of_load (by simp; omega : ((stream.drop 4).take 4).length = 4) hvalue.symm
    have h₃ := field_of_load (by simp; omega : ((stream.drop 8).take 4).length = 4) hc.symm
    have h₄ := field_of_load (by simp; omega : ((stream.drop 12).take 8).length = 8) rfl
    have hhead : stream.take 20 = recordHeader ((loadRecordHeader stream).record payload) := by
      have hsplit : stream.take 20 =
          stream.take 4 ++ (stream.drop 4).take 4 ++ (stream.drop 8).take 4 ++ (stream.drop 12).take 8 := by
        rw [← List.take_add, ← List.take_add, ← List.take_add]
      rw [hsplit, h₁, h₂, h₃, h₄]
      rfl
    calc stream = stream.take 20 ++ stream.drop 20 := (List.take_append_drop 20 stream).symm
      _ = recordHeader ((loadRecordHeader stream).record payload) ++ (payload ++ rest) := by
        rw [hhead]
        exact congrArg _ hb
      _ = recordBytes ((loadRecordHeader stream).record payload) ++ rest := by
        rw [recordBytes, List.append_assoc]
        rfl

/-- What the loop has read when it comes to the end of the file or to a torn record header. -/
theorem scanLoop_log {size fuel offset : ℕ} {expected : Option ℕ} {stream : Bytes} (hfuel : stream.length < fuel)
    {t : Scanned} (ht : scanLoop kMaxJournalRecordBytes size fuel expected offset stream = t)
    (hend : t.ending = .clean ∨ t.ending = .tornHeader) :
    ∃ tail, stream = t.records.flatMap recordBytes ++ tail ∧ (∀ r ∈ t.records, r.WellFormed) ∧
      Consecutive expected t.records ∧ t.lastGoodOffset = offset + (t.records.flatMap recordBytes).length ∧
      (t.ending = .clean → t.lastGoodOffset = size) := by
  induction fuel generalizing offset expected stream t with
  | zero => omega
  | succ fuel ih =>
    by_cases hs : stream.length < kJournalRecordHeaderBytes
    · rw [scanLoop_short hs] at ht
      subst ht
      refine ⟨stream, by simp, by simp, trivial, by simp, ?_⟩
      intro hclean
      by_contra hne
      simp only [if_pos hne] at hclean
      cases hclean
    have hs' := Nat.not_lt.mp hs
    have hacc : t.ending.accepted = true := by
      obtain h | h := hend <;> rw [h] <;> rfl
    rw [← ht, scanLoop_accepted hs' rfl rfl] at hacc
    obtain ⟨hp, hcase⟩ := hacc
    by_cases htorn : (stream.drop kJournalRecordHeaderBytes).length < (loadRecordHeader stream).payloadLength
    · rw [List.length_drop] at htorn
      rw [scanLoop_torn hs' hp (by omega)] at ht
      subst ht
      obtain h | h := hend <;> cases h
    obtain hshort | ⟨hc, hf, -⟩ := hcase
    · exact absurd hshort htorn
    have hb := (List.take_append_drop (loadRecordHeader stream).payloadLength
      (stream.drop kJournalRecordHeaderBytes)).symm
    have hl : ((stream.drop kJournalRecordHeaderBytes).take (loadRecordHeader stream).payloadLength).length =
        (loadRecordHeader stream).payloadLength := by
      rw [List.length_take]
      exact min_eq_left (Nat.not_lt.mp htorn)
    rw [scanLoop_step hs' rfl hp hb hl hc hf] at ht
    obtain ⟨hw, hstream⟩ := record_of_header hs' hp hb hl hc
    subst ht
    have hrest : ((stream.drop kJournalRecordHeaderBytes).drop (loadRecordHeader stream).payloadLength).length <
        fuel := by
      simp only [List.length_drop, kJournalRecordHeaderBytes] at hs' ⊢
      omega
    obtain ⟨tail, hsplit, hall, hcons, hoff, hclean⟩ := ih hrest rfl hend
    refine ⟨tail, ?_, List.forall_mem_cons.mpr ⟨hw, hall⟩, ⟨hf, hcons⟩, ?_, hclean⟩
    · rw [List.flatMap_cons, List.append_assoc, ← hsplit]
      exact hstream
    · rw [hoff, List.flatMap_cons, List.length_append, recordBytes_length]
      have hpay : ((loadRecordHeader stream).record ((stream.drop kJournalRecordHeaderBytes).take
          (loadRecordHeader stream).payloadLength)).payload.length = (loadRecordHeader stream).payloadLength := hl
      rw [hpay, kJournalRecordHeaderBytes]
      omega

/-- A scan that accepts a file leaves whole records in it. -/
theorem scan_log {content : Bytes} (hok : (scanInto kMaxJournalRecordBytes {} true (some content)).status = .ok ())
    (hstream : (scanInto kMaxJournalRecordBytes {} true (some content)).stream.misused = false) :
    ∃ records, (∀ r ∈ records, r.WellFormed) ∧ Consecutive none records ∧
      (scanInto kMaxJournalRecordBytes {} true (some content)).file = some (journalBytes records) ∧
      (scanInto kMaxJournalRecordBytes {} true (some content)).recovery.lastSequence = lastSequenceOf records ∧
      (scanInto kMaxJournalRecordBytes {} true (some content)).recovery.recordsRecovered = records.length ∧
      (scanInto kMaxJournalRecordBytes {} true (some content)).records = records := by
  have hheader : ∃ rest, content = journalHeaderBytes ++ rest := by
    unfold scanInto at hok
    simp only [if_true, Bool.true_eq_false, if_false] at hok
    split at hok
    · cases hok
    case isFalse hlen =>
    split at hok
    · cases hok
    case h_2 hvalid =>
    have hhead := header_of_validated (by rw [List.length_take]; exact min_eq_left (Nat.not_lt.mp hlen)) hvalid
    exact ⟨content.drop kJournalHeaderBytes, by rw [← hhead, List.take_append_drop]⟩
  obtain ⟨rest, rfl⟩ := hheader
  rw [scanInto_header] at hok hstream ⊢
  generalize hloop : scanLoop kMaxJournalRecordBytes (journalHeaderBytes ++ rest).length
    ((journalHeaderBytes ++ rest).length + 1) none kJournalHeaderBytes rest = t at hok hstream ⊢
  have hknown : (t.records.any fun r => !isKnownRecordType r.type.value) = false := by
    rw [List.any_eq_false]
    intro r hr
    rw [← hloop] at hr
    simp [scanLoop_known r hr]
  have hend : t.ending = .clean ∨ t.ending = .tornHeader := by
    cases hending : t.ending with
    | clean => exact .inl rfl
    | tornHeader => exact .inr rfl
    | corrupted detail => simp [finishScan, hending, Result.fail] at hok
    | tornPayload => simp [finishScan, hending, hknown, Stream.close, Stream.use] at hstream
  obtain ⟨tail, hsplit, hall, hcons, hoff, hclean⟩ :=
    scanLoop_log (by rw [List.length_append]; omega) hloop hend
  have htake : (journalHeaderBytes ++ rest).take t.lastGoodOffset = journalBytes t.records := by
    have hbytes : journalHeaderBytes ++ rest = journalBytes t.records ++ tail := by
      rw [journalBytes, List.append_assoc, ← hsplit]
    have hlen : t.lastGoodOffset = (journalBytes t.records).length := by
      rw [hoff, journalBytes, List.length_append, journalHeaderBytes_length, kJournalHeaderBytes]
    rw [hbytes, hlen, List.take_left]
  refine ⟨t.records, hall, hcons, ?_⟩
  obtain hending | hending := hend
  · rw [hclean hending, List.take_length] at htake
    simp [finishScan, hending, hknown, htake]
  · simp [finishScan, hending, hknown, htake]

end ConfigurationFabric
