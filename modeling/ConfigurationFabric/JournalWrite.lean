import ConfigurationFabric.JournalScan

namespace ConfigurationFabric

open LittleEndian
open Program

def Disk.append (d : Disk) (bs : Bytes) : Disk := { d with journal := d.journal.map (· ++ bs) }

@[simp] theorem Disk.append_nil (d : Disk) : d.append [] = d := by
  cases d with
  | mk j a b => cases j <;> simp [Disk.append]

@[simp] theorem Disk.append_append (d : Disk) (as bs : Bytes) : (d.append as).append bs = d.append (as ++ bs) := by
  cases d with
  | mk j a b => cases j <;> simp [Disk.append]

/-- Some file operation may not succeed. -/
def Faulty (allowed : Io → Prop) : Prop := ∃ io, allowed io ∧ io ≠ .done

variable {allowed : Io → Prop} {R : Disk → Disk → Prop}

theorem steps_appendBytes {bs : Bytes} {d : Disk} {Q : Unit → Disk → Prop}
    (hR : ∀ n < bs.length, R (d.append (bs.take n)) (d.append (bs.take (n + 1))))
    (hQ : Q () (d.append bs)) : (appendBytes bs).Steps allowed R Q d := by
  induction bs generalizing d with
  | nil => simpa [appendBytes, Prog.Steps] using hQ
  | cons b bs ih =>
    have hfirst : appendByte b d = d.append [b] := rfl
    refine ⟨by simpa [hfirst] using hR 0 (by simp), ?_⟩
    rw [hfirst]
    refine ih (fun n hn => ?_) (by simpa using hQ)
    simpa using hR (n + 1) (by simpa using hn)

theorem exec_appendBytes (bs : Bytes) (d : Disk) : Prog.Exec allowed (appendBytes bs) d (some ()) (d.append bs) := by
  induction bs generalizing d with
  | nil => rw [Disk.append_nil]; exact .ret () d
  | cons b bs ih =>
    have hstep := ih (d.append [b])
    rw [Disk.append_append] at hstep
    exact .set hstep

theorem exec_fwrite {io : Io} (hio : allowed io) (bs : Bytes) (d : Disk) :
    Prog.Exec allowed (fwrite bs) d (some (io.written bs.length == bs.length))
      (d.append (bs.take (io.written bs.length))) := by
  have hask : Prog.Exec allowed Prog.ask d (some io) d := .input hio (.ret io d)
  exact hask.bind ((exec_appendBytes _ d).bind (.ret _ _))

theorem Io.written_le (io : Io) (wanted : ℕ) : io.written wanted ≤ wanted := by
  cases io <;> simp [Io.written]

theorem steps_fwrite {bs : Bytes} {d : Disk} {Q : Bool → Disk → Prop}
    (hR : ∀ n < bs.length, R (d.append (bs.take n)) (d.append (bs.take (n + 1))))
    (hdone : Q true (d.append bs))
    (hshort : Faulty allowed → ∀ n < bs.length, Q false (d.append (bs.take n))) :
    (fwrite bs).Steps allowed R Q d := by
  simp only [fwrite, Prog.steps_bind, Prog.steps_ask]
  intro io hio
  have hle := io.written_le bs.length
  apply steps_appendBytes
  · intro n hn
    rw [List.length_take] at hn
    have h₁ : (bs.take (io.written bs.length)).take n = bs.take n := by rw [List.take_take]; congr 1; omega
    have h₂ : (bs.take (io.written bs.length)).take (n + 1) = bs.take (n + 1) := by
      rw [List.take_take]; congr 1; omega
    rw [h₁, h₂]
    exact hR n (by omega)
  · by_cases hw : io.written bs.length = bs.length
    · simpa [hw] using hdone
    · have hne : io ≠ .done := fun h => hw (by rw [h]; rfl)
      rw [beq_eq_false_iff_ne.mpr hw]
      exact hshort ⟨io, hio, hne⟩ _ (by omega)

theorem steps_succeeds {d : Disk} {Q : Bool → Disk → Prop} (hdone : Q true d)
    (hfailed : Faulty allowed → Q false d) : succeeds.Steps allowed R Q d := by
  simp only [succeeds, Prog.steps_bind, Prog.steps_ask, Prog.steps_pure]
  intro io hio
  by_cases h : io = .done
  · rw [h]; exact hdone
  · rw [beq_eq_false_iff_ne.mpr h]; exact hfailed ⟨io, hio, h⟩

theorem steps_flushJournal {durable : Bool} {d : Disk} {Q : Status → Disk → Prop}
    (hok : Q (.ok ()) d) (herr : Faulty allowed → ∀ e, Q (.error e) d) :
    (flushJournal durable).Steps allowed R Q d := by
  simp only [flushJournal, Prog.steps_bind]
  refine steps_succeeds ?_ fun hf => herr hf _
  cases durable with
  | false => exact hok
  | true =>
    simp only [Bool.not_true, Bool.false_eq_true, if_false, if_true, Prog.steps_bind]
    exact steps_succeeds hok fun hf => herr hf _

namespace Journal

theorem steps_writeRecord {j : Journal} {r : JournalRecord} {d : Disk} {Q : Status → Disk → Prop}
    (hR : ∀ n < (recordBytes r).length,
      R (d.append ((recordBytes r).take n)) (d.append ((recordBytes r).take (n + 1))))
    (hok : Q (.ok ()) (d.append (recordBytes r)))
    (herr : Faulty allowed → ∀ e, ∀ n ≤ (recordBytes r).length,
      Q (.error e) (d.append ((recordBytes r).take n))) :
    (j.writeRecord r).Steps allowed R Q d := by
  have hhead (n : ℕ) (hn : n ≤ 20) : (recordHeader r).take n = (recordBytes r).take n := by
    rw [recordBytes, List.take_append_of_le_length (by simpa using hn)]
  have hbody (n : ℕ) : recordHeader r ++ r.payload.take n = (recordBytes r).take (20 + n) := by
    have hall : (recordHeader r).take (20 + n) = recordHeader r := List.take_of_length_le (by simp)
    rw [recordBytes, List.take_append, recordHeader_length, Nat.add_sub_cancel_left, hall]
  have hflush : ∀ bs, bs = recordBytes r → (flushJournal j.durable).Steps allowed R Q (d.append bs) := by
    rintro bs rfl
    exact steps_flushJournal hok fun hf e => by simpa only [List.take_length] using herr hf e _ le_rfl
  simp only [writeRecord, Prog.steps_bind]
  apply steps_fwrite
  · intro n hn
    rw [recordHeader_length] at hn
    rw [hhead n (by omega), hhead (n + 1) (by omega)]
    exact hR n (by simp; omega)
  · simp only [Bool.not_true, Bool.false_eq_true, if_false]
    split
    case isTrue hne =>
      simp only [Prog.steps_bind]
      apply steps_fwrite
      · intro n hn
        simp only [Disk.append_append, hbody]
        exact hR (20 + n) (by simpa using hn)
      · simpa using hflush _ (by rw [recordBytes])
      · intro hf n hn
        simp only [Disk.append_append, hbody]
        exact herr hf _ (20 + n) (by simp; omega)
    case isFalse hnil =>
      refine hflush _ ?_
      rw [recordBytes, not_not.mp hnil, List.append_nil]
  · intro hf n hn
    rw [recordHeader_length] at hn
    rw [hhead n (by omega)]
    exact herr hf _ n (by simp; omega)

/-- What a record given to `append` becomes. -/
def nextRecord (j : Journal) (type : JournalRecordType) (payload : Bytes) : JournalRecord :=
  ⟨type, j.lastSequence + 1, payload⟩

def appended (j : Journal) : Journal :=
  { j with lastSequence := j.lastSequence + 1, recordCount := j.recordCount + 1 }

def Accepts (j : Journal) (type : JournalRecordType) (payload : Bytes) : Prop :=
  isKnownRecordType type.value = true ∧ payload.length ≤ j.maxRecordBytes ∧ j.lastSequence < 2 ^ 64 - 1

theorem steps_append {j : Journal} {type : JournalRecordType} {payload : Bytes} {d : Disk}
    {Q : Status × Journal → Disk → Prop}
    (hR : j.Accepts type payload → ∀ n < (recordBytes (j.nextRecord type payload)).length,
      R (d.append ((recordBytes (j.nextRecord type payload)).take n))
        (d.append ((recordBytes (j.nextRecord type payload)).take (n + 1))))
    (hok : j.Accepts type payload → Q (.ok (), j.appended) (d.append (recordBytes (j.nextRecord type payload))))
    (hrefused : ¬ j.Accepts type payload → ∀ e, Q (.error e, j) d)
    (hfailed : Faulty allowed → j.Accepts type payload → ∀ e, ∀ n ≤ (recordBytes (j.nextRecord type payload)).length,
      Q (.error e, j) (d.append ((recordBytes (j.nextRecord type payload)).take n))) :
    (j.append type payload).Steps allowed R Q d := by
  unfold append
  split
  case isTrue hk => exact hrefused (fun h => by simp [h.1] at hk) _
  case isFalse hk =>
    split
    case isTrue hl => exact hrefused (fun h => by have := h.2.1; omega) _
    case isFalse hl =>
      unfold checkedAdd
      split
      case h_1 hnone =>
        refine hrefused (fun h => ?_) _
        have := h.2.2
        simp only [ite_eq_left_iff, reduceCtorEq, imp_false, not_not] at hnone
        omega
      case h_2 sequence hsome =>
        simp only [Option.ite_none_left_eq_some, Option.some.injEq] at hsome
        obtain ⟨hlast, hseq⟩ := hsome
        have ha : j.Accepts type payload := ⟨by simpa using hk, by omega, by omega⟩
        subst hseq
        rw [Prog.steps_bind]
        exact steps_writeRecord (hR ha) (hok ha) fun hf => hfailed hf ha

theorem steps_rewriteHeader {d : Disk} {Q : Status → Disk → Prop}
    (hR : ∀ n ≤ 12, R d (overwriteHeader n d)) (hok : Q (.ok ()) (overwriteHeader 12 d))
    (herr : Faulty allowed → ∀ e d', Q (.error e) d') : rewriteHeader.Steps allowed R Q d := by
  simp only [rewriteHeader, Prog.steps_bind]
  refine steps_succeeds ?_ fun hf => herr hf _ _
  simp only [Bool.not_true, Bool.false_eq_true, if_false, Prog.steps_bind, Prog.steps_ask,
    Prog.steps_modify, journalHeaderBytes_length]
  intro io hio
  refine ⟨hR _ (io.written_le 12), ?_⟩
  by_cases hw : io.written 12 = 12
  · simpa [hw] using hok
  · rw [if_pos hw]
    exact herr ⟨io, hio, fun h => hw (by rw [h]; rfl)⟩ _ _

/-- The journal cut back to its header. -/
def headerOnly (d : Disk) : Disk := { d with journal := some journalHeaderBytes }

theorem truncate_overwrite {d : Disk} {file : Bytes} (hfile : d.journal = some file) :
    truncateToHeader (overwriteHeader 12 d) = headerOnly d := by
  have hall : journalHeaderBytes.take 12 = journalHeaderBytes := List.take_of_length_le (by simp)
  have htake : (journalHeaderBytes ++ file.drop 12).take 12 = journalHeaderBytes := by
    rw [← journalHeaderBytes_length, List.take_left]
  simp [truncateToHeader, overwriteHeader, headerOnly, hfile, kJournalHeaderBytes, hall, htake]

theorem steps_restartSegment {j : Journal} {base : ℕ} {d : Disk} {file : Bytes}
    {Q : Status × Journal → Disk → Prop} (hfile : d.journal = some file)
    (hR : ∀ n ≤ 12, R d (overwriteHeader n d)) (hT : R (overwriteHeader 12 d) (headerOnly d))
    (hS : ∀ n < (recordBytes (segmentStart base)).length,
      R ((headerOnly d).append ((recordBytes (segmentStart base)).take n))
        ((headerOnly d).append ((recordBytes (segmentStart base)).take (n + 1))))
    (hok : base ≠ 0 → Q (.ok (), { j with lastSequence := base, recordCount := 1 })
      ((headerOnly d).append (recordBytes (segmentStart base))))
    (hzero : base = 0 → ∀ e, Q (.error e, j) d) (herr : Faulty allowed → ∀ e d', Q (.error e, j) d') :
    (j.restartSegment base).Steps allowed R Q d := by
  unfold restartSegment
  split
  case isTrue hz => exact hzero hz _
  case isFalse hz =>
    rw [Prog.steps_bind]
    refine steps_succeeds ?_ fun hf => herr hf _ _
    simp only [Bool.not_true, Bool.false_eq_true, if_false, Prog.steps_bind]
    refine steps_rewriteHeader hR ?_ fun hf e d' => herr hf e d'
    simp only [Prog.steps_bind]
    refine steps_succeeds ?_ fun hf => herr hf _ _
    simp only [Bool.not_true, Bool.false_eq_true, if_false, Prog.steps_bind]
    refine steps_succeeds ?_ fun hf => herr hf _ _
    simp only [Bool.not_true, Bool.false_eq_true, if_false, Prog.steps_bind]
    refine steps_succeeds ?_ fun hf => herr hf _ _
    simp only [Bool.not_true, Bool.false_eq_true, if_false, Prog.steps_bind, Prog.steps_modify,
      truncate_overwrite hfile]
    refine ⟨hT, steps_succeeds ?_ fun hf => herr hf _ _⟩
    simp only [Bool.not_true, Bool.false_eq_true, if_false, Prog.steps_bind]
    exact steps_writeRecord hS (hok hz) fun hf e n _ => herr hf e _

end Journal

end ConfigurationFabric
