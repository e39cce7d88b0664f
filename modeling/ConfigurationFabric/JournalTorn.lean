import ConfigurationFabric.UnreportedDamage
import ConfigurationFabric.StoreCrash

/-! Journals cut off at any length: what the scan reports, and how the log goes on. -/

namespace ConfigurationFabric

open LittleEndian
open Program

/-- The records of which all bytes lie in the first `n`. -/
def wholeRecords : ℕ → List JournalRecord → List JournalRecord
  | _, [] => []
  | n, r :: rs => if (recordBytes r).length ≤ n then r :: wholeRecords (n - (recordBytes r).length) rs else []

/-- Appends that returned ok, from one open journal to the next. -/
inductive Appended (j : Journal) (d : Disk) : List JournalRecord → Journal → Disk → Prop
  | nil : Appended j d [] j d
  | append {records : List JournalRecord} {j₁ j₂ : Journal} {d₁ d₂ : Disk} {type : JournalRecordType} {payload : Bytes}
      (h : Appended j d records j₁ d₁)
      (ha : Prog.Exec (fun _ => True) (j₁.append type payload) d₁ (some (.ok (), j₂)) d₂) :
      Appended j d (records ++ [⟨type, j₂.lastSequence, payload⟩]) j₂ d₂

/-- A scan of `file` gives `whole`, is clean just at the end of a record, and counts the bytes behind it. -/
def Scans (maxRecordBytes : ℕ) (file : Bytes) (whole : List JournalRecord) : Prop :=
  ∀ truncateTornTail,
    let scan := scanInto maxRecordBytes {} truncateTornTail (some file)
    scan.status = .ok () ∧ scan.stream.misused = false ∧ scan.records = whole ∧
      (scan.recovery.outcome = .clean ↔ file.length = (journalBytes whole).length) ∧
      scan.recovery.discardedBytes = file.length - (journalBytes whole).length

/-- A journal file that was cut off is read as `whole`, and the log goes on behind it. -/
structure Recovers (j₀ : Journal) (cut : Bytes) (whole : List JournalRecord) : Prop where
  scanned : Scans j₀.maxRecordBytes cut whole
  resumed : ∀ d r d', d.journal = some cut → Prog.Exec Sound j₀.open d (some r) d' →
    ∃ j, r = .ok j ∧ ∀ more j' d'', Appended j d' more j' d'' →
      Consecutive none (whole ++ more) ∧ ∃ file, d''.journal = some file ∧ Scans j₀.maxRecordBytes file (whole ++ more)

theorem wholeRecords_prefix (n : ℕ) (records : List JournalRecord) : wholeRecords n records <+: records := by
  induction records generalizing n with
  | nil => exact List.prefix_rfl
  | cons r rs ih =>
    rw [wholeRecords]
    split
    · exact (List.prefix_cons_inj r).mpr (ih _)
    · exact List.nil_prefix

/-- The first `n` bytes are the whole records and, behind them, the front of the next one. -/
theorem take_flatMap (n : ℕ) (records : List JournalRecord) :
    ∃ tail, (records.flatMap recordBytes).take n = (wholeRecords n records).flatMap recordBytes ++ tail ∧
      (tail = [] ∨ ∃ r ∈ records, ∃ k < (recordBytes r).length, tail = (recordBytes r).take k) := by
  induction records generalizing n with
  | nil => exact ⟨[], by simp [wholeRecords], .inl rfl⟩
  | cons r rs ih =>
    rw [wholeRecords, List.flatMap_cons]
    split
    case isTrue hle =>
      obtain ⟨tail, htake, htail⟩ := ih (n - (recordBytes r).length)
      refine ⟨tail, ?_, ?_⟩
      · rw [List.take_append, List.take_of_length_le hle, htake, List.flatMap_cons, List.append_assoc]
      · obtain hnil | ⟨q, hq, k, hk, htail⟩ := htail
        · exact .inl hnil
        · exact .inr ⟨q, List.mem_cons_of_mem r hq, k, hk, htail⟩
    case isFalse hlt =>
      have hlt' := Nat.not_le.mp hlt
      refine ⟨(recordBytes r).take n, ?_, .inr ⟨r, List.mem_cons_self, n, hlt', rfl⟩⟩
      rw [List.take_append_of_le_length hlt'.le, List.flatMap_nil, List.nil_append]

theorem Consecutive.of_prefix {expected : Option ℕ} {before records : List JournalRecord} (h : before <+: records)
    (hc : Consecutive expected records) : Consecutive expected before := by
  induction before generalizing expected records with
  | nil => trivial
  | cons r rs ih =>
    obtain ⟨after, rfl⟩ := h
    exact ⟨hc.1, ih (List.prefix_append rs after) hc.2⟩

section Torn

variable {maxRecordBytes : ℕ} {whole : List JournalRecord} {tail : Bytes}

theorem scans_within (hw : ∀ r ∈ whole, r.WellFormed) (hc : Consecutive none whole)
    (hm : ∀ r ∈ whole, r.payload.length ≤ maxRecordBytes) (ht : tail.length < kJournalRecordHeaderBytes) :
    Scans maxRecordBytes (journalBytes whole ++ tail) whole := by
  intro truncateTornTail
  obtain ⟨hok, hrecords, hmis, hrecovery, -⟩ := scan_within hw hc hm truncateTornTail ht
  have hlen : (journalBytes whole ++ tail).length - (journalBytes whole).length = tail.length := by
    rw [List.length_append, Nat.add_sub_cancel_left]
  refine ⟨hok, hmis, hrecords, ?_, by rw [hrecovery, hlen]⟩
  rw [hrecovery, List.length_append]
  by_cases hnil : tail = []
  · simp [hnil]
  · have hpos := List.length_pos_iff.mpr hnil
    simp only [hnil, if_false, reduceCtorEq, false_iff]
    omega

theorem readable_of_scans (h : Scans maxRecordBytes (journalBytes whole ++ tail) whole) :
    Readable maxRecordBytes none (whole.flatMap recordBytes ++ tail) := by
  by_contra hunreadable
  have hreported := (reported_iff maxRecordBytes true (whole.flatMap recordBytes ++ tail)).mpr hunreadable
  rw [← List.append_assoc] at hreported
  have hok := (h true).1
  rw [journalBytes] at hok
  have hrefused := hreported.1
  rw [hok] at hrefused
  cases hrefused

theorem payload_le_of_readable {r : JournalRecord} {expected : Option ℕ} {k : ℕ} (hr : r.WellFormed) (h20 : 20 ≤ k)
    (hk : k < (recordBytes r).length) (h : Readable maxRecordBytes expected ((recordBytes r).take k)) :
    r.payload.length ≤ maxRecordBytes := by
  have hs : kJournalRecordHeaderBytes ≤ ((recordBytes r).take k).length := by
    rw [List.length_take, kJournalRecordHeaderBytes]
    omega
  obtain ⟨hp, -⟩ := (readable_iff hs (hr.loadRecordHeader_take h20) rfl).mp h
  simp only [headerPlausible, Bool.and_eq_true, decide_eq_true_eq] at hp
  exact hp.1.1

/-- The stream of a scan that ends inside a payload is closed twice. -/
theorem misused_of_torn_payload {r : JournalRecord} {k : ℕ} (hw : ∀ q ∈ whole, q.WellFormed)
    (hc : Consecutive none whole) (hm : ∀ q ∈ whole, q.payload.length ≤ maxRecordBytes) (hr : r.WellFormed)
    (hmr : r.payload.length ≤ maxRecordBytes) (h20 : 20 ≤ k) (hk : k < (recordBytes r).length) :
    (scanInto maxRecordBytes {} true (some (journalBytes whole ++ (recordBytes r).take k))).stream.misused = true := by
  have hending := scanLoop_torn_record hw hc hm hr hmr h20 hk
  dsimp only at hending
  have hsplit : journalBytes whole ++ (recordBytes r).take k =
      journalHeaderBytes ++ (whole.flatMap recordBytes ++ (recordBytes r).take k) := by
    rw [journalBytes, List.append_assoc]
  rw [hsplit] at hending ⊢
  rw [scanInto_header]
  generalize hscan : scanLoop maxRecordBytes _ _ none kJournalHeaderBytes _ = scan at hending ⊢
  have hknown : (scan.records.any fun r => !isKnownRecordType r.type.value) = false := by
    rw [List.any_eq_false]
    intro q hq
    rw [← hscan] at hq
    simp [scanLoop_known q hq]
  simp [finishScan, hending, hknown, Stream.close, Stream.use]

theorem steps_open_within {j₀ : Journal} {d : Disk} (hbound : j₀.maxRecordBytes ≠ 0)
    (hmax : j₀.maxRecordBytes ≤ kMaxJournalRecordBytes) (hw : ∀ r ∈ whole, r.WellFormed)
    (hc : Consecutive none whole) (hm : ∀ r ∈ whole, r.payload.length ≤ j₀.maxRecordBytes)
    (ht : tail.length < kJournalRecordHeaderBytes) (hfile : d.journal = some (journalBytes whole ++ tail)) :
    j₀.open.Steps Sound (fun _ _ => True) (fun r t => t.journal = some (journalBytes whole) ∧
      r = .ok { j₀ with lastSequence := lastSequenceOf whole, recordCount := whole.length }) d := by
  obtain ⟨hok, -, hmis, hrecovery, hcut⟩ := scan_within hw hc hm true ht
  rw [if_pos rfl] at hcut
  have hrange : ¬ (j₀.maxRecordBytes = 0 ∨ j₀.maxRecordBytes > kMaxJournalRecordBytes) := by omega
  unfold Journal.open
  rw [if_neg hrange, Prog.steps_bind, Prog.steps_read]
  simp only [hfile, Journal.openExisting, Prog.steps_bind]
  refine DurableStore.steps_askScan ?_
  simp only [hfile, hcut, hmis, hok, Bool.false_eq_true, if_false, Prog.steps_bind, Prog.steps_read,
    Prog.steps_modify, true_and]
  refine DurableStore.steps_succeeds_sound ?_
  simp only [Bool.not_true, Bool.false_eq_true, if_false, Prog.steps_bind]
  refine DurableStore.steps_succeeds_sound ?_
  simp only [Bool.not_true, Bool.false_eq_true, if_false, Prog.steps_pure, hrecovery, and_self]

end Torn

/-! Going on behind the last whole record. -/

structure Resumed (maxRecordBytes : ℕ) (records : List JournalRecord) (j : Journal) (d : Disk) : Prop where
  file : d.journal = some (journalBytes records)
  bound : j.maxRecordBytes = maxRecordBytes
  wellFormed : ∀ r ∈ records, r.WellFormed
  small : ∀ r ∈ records, r.payload.length ≤ maxRecordBytes
  consecutive : Consecutive none records
  last : j.lastSequence = lastSequenceOf records

theorem Resumed.append {maxRecordBytes : ℕ} {records : List JournalRecord} {j j' : Journal} {d d' : Disk}
    {type : JournalRecordType} {payload : Bytes} (hmax : maxRecordBytes ≤ kMaxJournalRecordBytes)
    (h : Resumed maxRecordBytes records j d)
    (ha : Prog.Exec (fun _ => True) (j.append type payload) d (some (.ok (), j')) d') :
    Resumed maxRecordBytes (records ++ [⟨type, j'.lastSequence, payload⟩]) j' d' := by
  obtain ⟨⟨hknown, hlen, hseq⟩, rfl, rfl⟩ := append_ok ha
  rw [h.bound] at hlen
  have hnew : (j.nextRecord type payload).WellFormed :=
    ⟨hknown, Nat.succ_pos _, by simp only [Journal.nextRecord]; omega, hlen.trans hmax⟩
  refine
    { file := by simp [Disk.append, h.file, journalBytes, Journal.nextRecord, Journal.appended]
      bound := h.bound
      wellFormed := fun r hr => ?_
      small := fun r hr => ?_
      consecutive := h.consecutive.snoc ?_
      last := by rw [DurableStore.lastSequenceOf_snoc] }
  · obtain hr | hr := List.mem_append.mp hr
    · exact h.wellFormed r hr
    · rw [List.mem_singleton.mp hr]
      exact hnew
  · obtain hr | hr := List.mem_append.mp hr
    · exact h.small r hr
    · rw [List.mem_singleton.mp hr]
      exact hlen
  · by_cases hnil : records = []
    · rw [hnil]
      rfl
    · rw [h.last] at hseq
      exact DurableStore.follows_last hnil (by rw [← h.last]; rfl) hseq

theorem Resumed.appended {maxRecordBytes : ℕ} {records more : List JournalRecord} {j j' : Journal} {d d' : Disk}
    (hmax : maxRecordBytes ≤ kMaxJournalRecordBytes) (h : Resumed maxRecordBytes records j d)
    (ha : Appended j d more j' d') : Resumed maxRecordBytes (records ++ more) j' d' := by
  induction ha with
  | nil => rwa [List.append_nil]
  | append _ ha ih =>
    rw [← List.append_assoc]
    exact ih.append hmax ha

theorem Resumed.scans {maxRecordBytes : ℕ} {records : List JournalRecord} {j : Journal} {d : Disk}
    (h : Resumed maxRecordBytes records j d) : Scans maxRecordBytes (journalBytes records) records := by
  have hscans := @scans_within maxRecordBytes records [] h.wellFormed h.consecutive h.small (by decide)
  rwa [List.append_nil] at hscans

/-- A cut journal recovers when and only when the cut is less than a record header behind the last whole record, and no
whole record is larger than the reading journal allows. -/
theorem torn_tail_iff {records : List JournalRecord} {j : Journal} {d : Disk} (hw : Written records j d) {file : Bytes}
    (hfile : d.journal = some file) {n : ℕ} (h12 : kJournalHeaderBytes ≤ n) (hn : n ≤ file.length) {j₀ : Journal}
    (hbound : j₀.maxRecordBytes ≠ 0) (hmax : j₀.maxRecordBytes ≤ kMaxJournalRecordBytes) :
    Recovers j₀ (file.take n) (wholeRecords (n - kJournalHeaderBytes) records) ↔
      n < (journalBytes (wholeRecords (n - kJournalHeaderBytes) records)).length + kJournalRecordHeaderBytes ∧
        ∀ r ∈ wholeRecords (n - kJournalHeaderBytes) records, r.payload.length ≤ j₀.maxRecordBytes := by
  obtain ⟨hlayout, -, hall, hconsecutive, -⟩ := hw.layout
  obtain rfl : file = journalBytes records := Option.some.inj (hfile.symm.trans hlayout)
  obtain ⟨tail, htake, htail⟩ := take_flatMap (n - kJournalHeaderBytes) records
  have hwholes := wholeRecords_prefix (n - kJournalHeaderBytes) records
  have hc := hconsecutive.of_prefix hwholes
  have hwhole : ∀ r ∈ wholeRecords (n - kJournalHeaderBytes) records, r.WellFormed :=
    fun r hr => hall r (hwholes.subset hr)
  generalize wholeRecords (n - kJournalHeaderBytes) records = whole at htake hc hwhole ⊢
  have hheader : journalHeaderBytes.length ≤ n := by rwa [journalHeaderBytes_length]
  have hcut : (journalBytes records).take n = journalBytes whole ++ tail := by
    rw [journalBytes, List.take_append, List.take_of_length_le hheader, journalHeaderBytes_length, ← kJournalHeaderBytes,
      htake, ← List.append_assoc, journalBytes]
  have hlen : n = (journalBytes whole).length + tail.length := by
    rw [← List.length_append, ← hcut, List.length_take]
    omega
  rw [hcut]
  constructor
  · intro h
    have hreadable := readable_of_scans h.scanned
    obtain ⟨hsmall, hrest⟩ := (readable_records hwhole hc tail).mp hreadable
    refine ⟨?_, hsmall⟩
    by_contra hlong
    have h20 : 20 ≤ tail.length := by
      rw [kJournalRecordHeaderBytes] at hlong
      omega
    obtain rfl | ⟨r, hr, k, hk, rfl⟩ := htail
    · cases h20
    rw [List.length_take, min_eq_left hk.le] at h20
    have hmr := payload_le_of_readable (hall r hr) h20 hk hrest
    have hmisused := misused_of_torn_payload hwhole hc hsmall (hall r hr) hmr h20 hk
    rw [(h.scanned true).2.1] at hmisused
    cases hmisused
  · rintro ⟨hshort, hsmall⟩
    have ht : tail.length < kJournalRecordHeaderBytes := by omega
    refine ⟨scans_within hwhole hc hsmall ht, fun d r d' hd hopen => ?_⟩
    obtain ⟨hd', rfl⟩ := ((steps_open_within hbound hmax hwhole hc hsmall ht hd).exec hopen).2 _ rfl
    refine ⟨_, rfl, fun more j' d'' hmore => ?_⟩
    have hresumed : Resumed j₀.maxRecordBytes whole
        { j₀ with lastSequence := lastSequenceOf whole, recordCount := whole.length } d' :=
      ⟨hd', rfl, hwhole, hsmall, hc, rfl⟩
    have hgone := hresumed.appended hmax hmore
    exact ⟨hgone.consecutive, _, hgone.file, hgone.scans⟩

/-- The note's header is cut after three bytes. -/
theorem torn_header_recovers :
    Recovers {} ((journalBytes [segmentStart 1, noteRecord]).take 43) [segmentStart 1] := by
  have hwhole : wholeRecords (43 - kJournalHeaderBytes) ([segmentStart 1] ++ [noteRecord]) = [segmentStart 1] := by
    decide
  have hiff := @torn_tail_iff _ _ _ written_note _ rfl 43 (by decide) (by decide) {} (by decide) (by decide)
  rw [hwhole] at hiff
  exact hiff.mpr (by decide)

/-- The first record's payload is cut after three bytes: the scan goes on with a stream that it has closed. -/
theorem torn_payload_not_recovered :
    ¬ ∀ records j d, Written records j d → ∀ file n, d.journal = some file → kJournalHeaderBytes ≤ n → n ≤ file.length →
      Recovers {} (file.take n) (wholeRecords (n - kJournalHeaderBytes) records) := by
  intro hall
  have hrecovers := hall _ _ _ written_note _ 35 rfl (by decide) (by decide)
  have hmisused : (scanInto ({} : Journal).maxRecordBytes {} true
      (some ((journalBytes [segmentStart 1, noteRecord]).take 35))).stream.misused = true := by decide +kernel
  exact Bool.false_ne_true ((hrecovers.scanned true).2.1.symm.trans hmisused)

end ConfigurationFabric
