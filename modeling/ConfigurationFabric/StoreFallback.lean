import ConfigurationFabric.UnreportedDamage
import ConfigurationFabric.StoreReplay

namespace ConfigurationFabric

open LittleEndian
open Program

/-! Snapshot slots that are lost or damaged. -/

namespace SnapshotFile

/-- Wherever one byte is changed, one of the two checksums no longer fits. -/
theorem damaged_unverified {front c h payload : Bytes} (hfront : front.length = 20) (hc : c.length = 4)
    (hh : h.length = 4) (hloadh : LittleEndian.load h = (crc32c (front ++ c)).toNat)
    (hloadc : LittleEndian.load c = (crc32c payload).toNat) {record : Bytes}
    (hrec : record = [] ++ ((front ++ c) ++ (h ++ payload))) {i : ℕ} {b : UInt8} (hi : i < record.length)
    (hb : record[i]? ≠ some b)
    (hheader : (crc32c ((record.set i b).take 24)).toNat = LittleEndian.load (((record.set i b).drop 24).take 4))
    (hpay : (crc32c ((record.set i b).drop 28)).toNat = LittleEndian.load (((record.set i b).drop 20).take 4)) :
    False := by
  have hfields : (front ++ c).length = 24 := by rw [List.length_append, hfront, hc]
  have hall : (front ++ c ++ h).length = 28 := by rw [List.length_append, hfields, hh]
  have hlen : record.length = 28 + payload.length := by
    rw [hrec, List.nil_append, List.length_append, hfields, List.length_append, hh]
    omega
  obtain h24 | h24 := Nat.lt_or_ge i 24
  · -- a field: the header no longer has its checksum
    obtain ⟨k, hk, hkb, hset⟩ := damage_inside hrec (Nat.zero_le i) (by rw [hfields, List.length_nil]; omega) hb
    rw [List.nil_append] at hset
    have hk24 : ((front ++ c).set k b).length = 24 := by rw [List.length_set, hfields]
    rw [hset, List.take_left' hk24, List.drop_left' hk24, List.take_left' hh, hloadh] at hheader
    exact crc32c_set hk hkb (BitVec.eq_of_toNat_eq hheader)
  obtain h28 | h28 := Nat.lt_or_ge i 28
  · -- the header checksum itself
    have hsplit : record = (front ++ c) ++ (h ++ payload) := by rw [hrec, List.nil_append]
    obtain ⟨k, hk, hkb, hset⟩ := damage_inside hsplit (by omega) (by omega) hb
    have hk4 : (h.set k b).length = 4 := by rw [List.length_set, hh]
    rw [hset, List.take_left' hfields, List.drop_left' hfields, List.take_left' hk4, ← hloadh] at hheader
    exact set_ne hk hkb (load_injective (by rw [List.length_set]) hheader.symm)
  · -- the payload
    have hsplit : record = (front ++ c ++ h) ++ (payload ++ []) := by
      rw [hrec, List.nil_append, List.append_nil, List.append_assoc (front ++ c)]
    obtain ⟨k, hk, hkb, hset⟩ := damage_inside hsplit (by omega) (by omega) hb
    have hfield : ((record.set i b).drop 20).take 4 = c := by
      rw [hset, List.append_assoc, List.append_assoc, List.drop_left' hfront, List.take_left' hc]
    rw [hfield, hset, List.drop_left' hall, List.append_nil, hloadc] at hpay
    exact crc32c_set hk hkb (BitVec.eq_of_toNat_eq hpay)

/-- A slot file with one byte changed is not loaded. -/
theorem checkSlot_damaged {maxBytes covered : ℕ} {payload : Bytes} {i : ℕ} {b : UInt8}
    (hi : i < (encodeSlot covered payload).length) (hb : (encodeSlot covered payload)[i]? ≠ some b) (x : ℕ × Bytes) :
    checkSlot maxBytes ((encodeSlot covered payload).set i b) ≠ .ok x := by
  intro hok
  obtain ⟨hheader, hpay, -⟩ := checkSlot_ok hok
  have hcrc : (if payload = [] then 0 else (crc32c payload).toNat) = (crc32c payload).toNat := by
    split
    case isTrue hnil =>
      rw [hnil]
      decide
    case isFalse => rfl
  have hlt (v : BitVec 32) : v.toNat < 256 ^ 4 := by
    have := v.isLt
    omega
  have hfront : (store 4 kSnapshotMagic ++ store 2 kSnapshotFormatVersion ++ store 2 0 ++ store 8 covered ++
      store 4 payload.length).length = 20 := by
    simp only [List.length_append, store_length]
  refine @damaged_unverified _ _ _ payload hfront (store_length 4 _) (store_length 4 _) (load_store (hlt _))
    (load_store (hlt (crc32c payload))) _ ?_ i b hi hb hheader hpay
  rw [encodeSlot, hcrc, List.nil_append]
  simp only [List.append_assoc]

end SnapshotFile

/-- One slot file is gone or has one byte changed. -/
inductive SlotDamaged (d : Disk) : Disk → Prop
  | deleted (slot : Slot) : SlotDamaged d (d.setSlot slot none)
  | changed {slot : Slot} {content : Bytes} {i : ℕ} {b : UInt8} (hcontent : d.slot slot = some content)
      (hi : i < content.length) (hb : content[i]? ≠ some b) : SlotDamaged d (d.setSlot slot (some (content.set i b)))

namespace DurableStore

variable {State : Type} {codec : Codec State} {Stored Fits : State → Prop}

/-- The slot file was written whole, and if the journal reaches back to it, its snapshot and the journal give `s`. -/
def SlotHolds (codec : Codec State) (base : ℕ) (records : List JournalRecord) (s : State) (content : Bytes) : Prop :=
  ∃ covered payload, content = SnapshotFile.encodeSlot covered payload ∧ covered < 2 ^ 64 ∧
    payload.length ≤ kMaxSnapshotBytes ∧ covered ≤ lastSequenceOf (segmentStart base :: records) ∧
    ∀ t, codec.decodeSnapshot payload = .ok t → base ≤ (covered + 1) % 2 ^ 64 →
      replay codec covered records t = .ok s

/-- Whichever snapshot is left, the journal completes it to `s` or does not reach back to it. -/
structure Fallback (codec : Codec State) (d : Disk) (base : ℕ) (records : List JournalRecord) (s : State) : Prop where
  logged : Logged d (segmentStart base :: records)
  slots : ∀ slot content, d.slot slot = some content → SlotHolds codec base records s content
  empty : base ≤ 1 → replay codec 0 records codec.initial = .ok s

theorem recover_segment {base covered : ℕ} {records : List JournalRecord} {s₀ s : State} (hbase : base < 2 ^ 64)
    (h : recover codec covered s₀ (segmentStart base :: records) = .ok s) :
    base ≤ (covered + 1) % 2 ^ 64 ∧ replay codec covered records s₀ = .ok s := by
  have hskip : replay codec covered (segmentStart base :: records) s₀ = replay codec covered records s₀ := by
    simp [replay, segmentStart]
  unfold recover at h
  rw [baseSequence_segment hbase] at h
  by_cases hz : base = 0
  · simp [hz, bind, Except.bind, Result.fail] at h
  by_cases hgap : base > (covered + 1) % 2 ^ 64
  · simp only [hz, hgap, bind, Except.bind, if_false, if_true, Result.fail, reduceCtorEq] at h
  · simp only [hz, hgap, bind, Except.bind, if_false, hskip] at h
    exact ⟨Nat.not_lt.mp hgap, h⟩

theorem Fallback.base_lt {d : Disk} {base : ℕ} {records : List JournalRecord} {s : State}
    (h : Fallback codec d base records s) : base < 2 ^ 64 :=
  (h.logged.wellFormed _ List.mem_cons_self).sequence_lt

/-- With slots missing, the directory still opens as `s` or not at all. -/
theorem Fallback.reopened_eq {d d' : Disk} {base : ℕ} {records : List JournalRecord} {s : State}
    (h : Fallback codec d base records s)
    (hslots : ∀ slot l, SnapshotFile.loadSlot kMaxSnapshotBytes d' slot = some l →
      SnapshotFile.loadSlot kMaxSnapshotBytes d slot = some l) (durable : Bool) :
    (∃ e, reopened codec durable d' (segmentStart base :: records) = .refused e) ∨
      ∃ st, reopened codec durable d' (segmentStart base :: records) = .ok st ∧ st.state = s ∧
        st.journal = { durable, lastSequence := lastSequenceOf (segmentStart base :: records),
                       recordCount := records.length + 1 } := by
  unfold reopened
  cases hload : loadSnapshot codec d' with
  | error e => exact .inl ⟨e, rfl⟩
  | ok loaded =>
    obtain ⟨covered, t⟩ := loaded
    cases hrecover : recover codec covered t (segmentStart base :: records) with
    | error e => exact .inl ⟨e, by simp [hrecover]⟩
    | ok s' =>
      right
      refine ⟨_, by simp only [hrecover]; rfl, ?_, rfl⟩
      obtain ⟨hgap, hreplay⟩ := recover_segment h.base_lt hrecover
      unfold loadSnapshot at hload
      split at hload
      case h_1 e he =>
        split at hload
        · cases hload
          exact Except.ok.inj (hreplay.symm.trans (h.empty (by simpa using hgap)))
        · cases hload
      case h_2 l hl =>
        obtain ⟨t', hdecode, hpair⟩ := Result.bind_eq_ok.mp hload
        cases hpair
        obtain ⟨content, hcontent, hcheck⟩ :=
          SnapshotFile.loadSlot_ok (hslots l.slot l (SnapshotFile.load_slot hl))
        obtain ⟨covered', payload, rfl, hcov, hlen, -, hholds⟩ := h.slots _ content hcontent
        rw [SnapshotFile.checkSlot_encodeSlot hcov hlen (SnapshotFile.lt_of_le_kMaxSnapshotBytes hlen)] at hcheck
        obtain ⟨hc, hp⟩ := Prod.mk.inj (Except.ok.inj hcheck)
        rw [hc, hp] at hholds
        exact Except.ok.inj (hreplay.symm.trans (hholds t hdecode hgap))

theorem slotDamaged_loads {d d' : Disk} {base : ℕ} {records : List JournalRecord} {s : State}
    (h : Fallback codec d base records s) (hd : SlotDamaged d d') {slot : Slot} {l : SnapshotFile.Loaded}
    (hl : SnapshotFile.loadSlot kMaxSnapshotBytes d' slot = some l) :
    SnapshotFile.loadSlot kMaxSnapshotBytes d slot = some l := by
  obtain ⟨content, hcontent, hcheck⟩ := SnapshotFile.loadSlot_ok hl
  cases hd with
  | deleted slot' =>
    rw [Disk.slot_setSlot] at hcontent
    split at hcontent
    · cases hcontent
    case isFalse hne =>
      rw [SnapshotFile.loadSlot, Disk.slot_setSlot, if_neg hne] at hl
      exact hl
  | @changed slot' old i b hold hi hb =>
    rw [Disk.slot_setSlot] at hcontent
    split at hcontent
    · cases hcontent
      obtain ⟨covered, payload, rfl, -⟩ := h.slots _ old hold
      exact absurd hcheck (SnapshotFile.checkSlot_damaged hi hb _)
    case isFalse hne =>
      rw [SnapshotFile.loadSlot, Disk.slot_setSlot, if_neg hne] at hl
      exact hl

theorem slotDamaged_journal {d d' : Disk} (h : SlotDamaged d d') : d'.journal = d.journal := by
  cases h with
  | deleted slot => simp
  | changed => simp

/-! The steps of a history keep every fallback right. -/

theorem SlotHolds.snoc {base : ℕ} {records : List JournalRecord} {s s' : State} {content : Bytes} {r : JournalRecord}
    (h : SlotHolds codec base records s content) (ht : r.type ≠ .segmentStart)
    (hseq : r.sequence = lastSequenceOf (segmentStart base :: records) + 1)
    (ha : codec.apply s r.type r.payload = (.ok (), s')) : SlotHolds codec base (records ++ [r]) s' content := by
  obtain ⟨covered, payload, hcontent, hcov, hlen, hle, hreplay⟩ := h
  have hend : lastSequenceOf (segmentStart base :: (records ++ [r])) = r.sequence := by
    rw [← List.cons_append, lastSequenceOf_snoc]
  refine ⟨covered, payload, hcontent, hcov, hlen, by omega, fun t hdecode hbase => ?_⟩
  exact replay_snoc (hreplay t hdecode hbase) ht (by omega) ha

theorem Fallback.snoc {d : Disk} {base : ℕ} {records : List JournalRecord} {s s' : State} {r : JournalRecord}
    (h : Fallback codec d base records s) (hw : r.WellFormed) (ht : r.type ≠ .segmentStart)
    (hseq : r.sequence = lastSequenceOf (segmentStart base :: records) + 1)
    (ha : codec.apply s r.type r.payload = (.ok (), s')) :
    Fallback codec (d.append (recordBytes r)) base (records ++ [r]) s' where
  logged := by
    have hlt := hw.sequence_lt
    refine ⟨by simp [Disk.append, h.logged.file, journalBytes], ?_, ?_⟩
    · rw [← List.cons_append]
      intro q hq
      obtain hq | hq := List.mem_append.mp hq
      · exact h.logged.wellFormed q hq
      · rwa [List.mem_singleton.mp hq]
    · rw [← List.cons_append]
      exact h.logged.consecutive.snoc (follows_last (by simp) hseq (by omega))
  slots slot content hcontent := by
    have hold : d.slot slot = some content := by
      cases slot <;> exact hcontent
    exact (h.slots slot content hold).snoc ht hseq ha
  empty hbase := replay_snoc (h.empty hbase) ht hw.sequence_pos ha

theorem Logged.last_lt {d : Disk} {records : List JournalRecord} (h : Logged d records) :
    lastSequenceOf records < 2 ^ 64 := by
  cases hq : records.getLast? with
  | none => simp [lastSequenceOf, hq]
  | some q =>
    have hlt := (h.wellFormed q (List.mem_of_getLast? hq)).sequence_lt
    simpa [lastSequenceOf, hq] using hlt

theorem Fallback.le_last {d : Disk} {base : ℕ} {records : List JournalRecord} {s : State}
    (h : Fallback codec d base records s) {r : JournalRecord} (hr : r ∈ segmentStart base :: records) :
    r.sequence ≤ lastSequenceOf (segmentStart base :: records) :=
  h.logged.consecutive.le_last r hr

/-- The new snapshot stands for the state that the directory stands for. -/
theorem Fallback.snapshotted {d : Disk} {base : ℕ} {records : List JournalRecord} {s : State} {encoded : Bytes}
    (h : Fallback codec d base records s) (hlen : encoded.length ≤ kMaxSnapshotBytes)
    (hagrees : ∀ t, codec.decodeSnapshot encoded = .ok t → t = s) :
    Fallback codec (withSnapshot d (lastSequenceOf (segmentStart base :: records)) encoded) base records s where
  logged := ⟨by rw [withSnapshot_journal, h.logged.file], h.logged.wellFormed, h.logged.consecutive⟩
  slots slot content hcontent := by
    rw [withSnapshot, Disk.slot_setSlot] at hcontent
    split at hcontent
    · cases hcontent
      refine ⟨_, encoded, rfl, h.logged.last_lt, hlen, le_rfl, fun t hdecode _ => ?_⟩
      rw [hagrees t hdecode]
      exact replay_covered fun r hr => h.le_last (List.mem_cons_of_mem _ hr)
    · exact h.slots slot content hcontent
  empty := h.empty

theorem Fallback.restarted {d : Disk} {base : ℕ} {records : List JournalRecord} {s : State}
    (h : Fallback codec d base records s)
    (hnext : (lastSequenceOf (segmentStart base :: records) + 1) % 2 ^ 64 ≠ 0) :
    Fallback codec
      { d with journal := some (journalBytes
          [segmentStart ((lastSequenceOf (segmentStart base :: records) + 1) % 2 ^ 64)]) }
      ((lastSequenceOf (segmentStart base :: records) + 1) % 2 ^ 64) [] s := by
  have hlast := h.logged.last_lt
  have hbase : base ≤ lastSequenceOf (segmentStart base :: records) := h.le_last List.mem_cons_self
  have hpos : 0 < base := (h.logged.wellFormed _ List.mem_cons_self).sequence_pos
  have hmod : (lastSequenceOf (segmentStart base :: records) + 1) % 2 ^ 64 =
      lastSequenceOf (segmentStart base :: records) + 1 := by
    apply Nat.mod_eq_of_lt
    by_contra hge
    have hend : lastSequenceOf (segmentStart base :: records) + 1 = 2 ^ 64 := by omega
    rw [hend] at hnext
    exact hnext (Nat.mod_self _)
  rw [hmod] at hnext ⊢
  have hlt : lastSequenceOf (segmentStart base :: records) + 1 < 2 ^ 64 := by
    rw [← hmod]
    exact Nat.mod_lt _ (by decide)
  refine ⟨⟨rfl, by simpa using segmentStart_wellFormed hnext hlt, ⟨rfl, trivial⟩⟩, ?_, by omega⟩
  intro slot content hcontent
  have hold : d.slot slot = some content := by
    cases slot <;> exact hcontent
  obtain ⟨covered, payload, hcontent, hcov, hlen, hle, hreplay⟩ := h.slots slot content hold
  refine ⟨covered, payload, hcontent, hcov, hlen, ?_, fun t hdecode hreach => ?_⟩
  · change covered ≤ lastSequenceOf (segmentStart base :: records) + 1
    omega
  · -- the journal starts over behind the last record, so only a snapshot of the whole of it is reached
    have hsucc : (covered + 1) % 2 ^ 64 = covered + 1 := Nat.mod_eq_of_lt (by omega)
    rw [hsucc] at hreach hreplay
    have hcovered : replay codec covered records t = .ok t := by
      refine replay_covered fun r hr => ?_
      have := h.le_last (List.mem_cons_of_mem _ hr)
      omega
    obtain rfl : t = s := Except.ok.inj (hcovered.symm.trans (hreplay t hdecode (by omega)))
    rfl

/-- The store and its directory after a fault-free history, whatever the snapshots hold. -/
structure Falls (codec : Codec State) (Stored : State → Prop) (cs : List Commit) (st : DurableStore State) (d : Disk) :
    Prop where
  state : st.state = folded codec cs
  stored : Stored st.state
  bound : st.journal.maxRecordBytes = kMaxJournalRecordBytes
  fallback : ∃ base records, Fallback codec d base records st.state ∧
    st.journal.lastSequence = lastSequenceOf (segmentStart base :: records)

theorem fallback_fresh :
    Fallback codec { journal := some (journalBytes [segmentStart 1]) } 1 [] codec.initial where
  logged := logged_fresh {}
  slots slot content hcontent := by cases slot <;> cases hcontent
  empty _ := rfl

theorem Ran.falls (hf : Faithful codec Stored Fits) {cs : List Commit} {st : DurableStore State} {d : Disk}
    (h : Ran codec (fun _ => True) cs st d) : Falls codec Stored cs st d := by
  induction h with
  | created he =>
    obtain ⟨hr, rfl⟩ := open_fresh he
    rw [holds_fresh.reopened_eq] at hr
    cases hr
    exact { state := rfl, stored := hf.initial, bound := rfl, fallback := ⟨1, [], fallback_fresh, rfl⟩ }
  | @committed cs st st' d d' c _ he ih =>
    obtain ⟨state, ha, ⟨hknown, hsmall, hseq⟩, rfl, rfl⟩ := commit_ok (Exec.anyway he)
    obtain ⟨base, records, hd, hlast⟩ := ih.fallback
    have hw : (st.journal.nextRecord c.type c.payload).WellFormed :=
      ⟨hknown, by simp [Journal.nextRecord], by simp only [Journal.nextRecord]; omega, by rwa [← ih.bound]⟩
    have hd' := hd.snoc hw (not_framing ha) (by rw [← hlast]; rfl) ha
    refine { state := ?_, stored := hf.apply ih.stored ha, bound := ih.bound, fallback := ⟨base, _, hd', ?_⟩ }
    · rw [folded_snoc, ← ih.state, ha]
    · rw [← List.cons_append, lastSequenceOf_snoc]
      rfl
  | compacted _ _ he ih =>
    obtain ⟨base, records, hd, hlast⟩ := ih.fallback
    obtain ⟨encoded, hencoded, hlen, hbase, rfl, rfl⟩ := compact_ok hd.logged.file he
    rw [hlast] at hbase
    have hd' := (hd.snapshotted hlen fun t => hf.agrees ih.stored hencoded hlen).restarted hbase
    refine { state := ih.state, stored := ih.stored, bound := ih.bound, fallback := ⟨_, [], ?_, rfl⟩ }
    rw [DurableStore.compacted, hlast]
    exact hd'
  | @reopened cs st st' d d' durable _ he ih =>
    obtain ⟨base, records, hd, -⟩ := ih.fallback
    obtain ⟨hr, rfl⟩ := hd.logged.open_eq he
    obtain ⟨e, hrefused⟩ | ⟨st'', hok, hstate, hjournal⟩ := hd.reopened_eq (fun _ _ hl => hl) durable
    · rw [hrefused] at hr
      cases hr
    · rw [hok] at hr
      cases hr
      refine { state := hstate.trans ih.state, stored := hstate ▸ ih.stored, bound := by rw [hjournal], fallback := ?_ }
      exact ⟨base, records, hstate ▸ hd, by rw [hjournal]⟩

/-- Where a compaction is cut off before it has touched the journal. -/
theorem compact_cut {st : DurableStore State} {d d' : Disk} {file : Bytes} (hfile : d.journal = some file)
    (h : Prog.Exec Sound (st.compact codec) d none d') (hjournal : d'.journal = d.journal) :
    d' = d ∨ ∃ encoded, codec.encodeSnapshot st.state = .ok encoded ∧ encoded.length ≤ kMaxSnapshotBytes ∧
      d' = withSnapshot d st.journal.lastSequence encoded := by
  let R (_ t : Disk) : Prop := ∃ encoded journal, codec.encodeSnapshot st.state = .ok encoded ∧
    encoded.length ≤ kMaxSnapshotBytes ∧ t = { withSnapshot d st.journal.lastSequence encoded with journal := journal }
  have hs : (st.compact codec).Steps Sound R (fun _ _ => True) d := by
    unfold compact
    split
    · trivial
    split
    · trivial
    case h_2 encoded he =>
      rw [Prog.steps_bind]
      refine steps_writeSnapshot (fun _ _ => trivial) (fun hlen => ?_) fun hlen => ?_
      · exact ⟨encoded, _, he, hlen, rfl⟩
      have hfile' : (withSnapshot d st.journal.lastSequence encoded).journal = some file := by simp [hfile]
      simp only [Prog.steps_bind]
      refine Journal.steps_restartSegment hfile' ?_ ?_ ?_ (fun _ => trivial) (fun _ _ => trivial) fun _ _ _ => trivial
      · exact fun n _ => ⟨encoded, _, he, hlen, rfl⟩
      · exact ⟨encoded, _, he, hlen, rfl⟩
      · exact fun n _ => ⟨encoded, _, he, hlen, rfl⟩
  obtain hrefl | ⟨_, -, encoded, journal, he, hlen, rfl⟩ := Relation.ReflTransGen.cases_tail (hs.exec h).1
  · exact .inl hrefl
  · right
    refine ⟨encoded, he, hlen, ?_⟩
    have hsame : (withSnapshot d st.journal.lastSequence encoded).journal = journal := by
      rw [withSnapshot_journal]
      exact hjournal.symm
    rw [← hsame]

/-- Opening `d` is refused or ends in an open store with state `s`. -/
def NeverOlder (codec : Codec State) (d : Disk) (s : State) : Prop :=
  ∀ durable r d', Prog.Exec Sound (DurableStore.open codec durable) d (some r) d' →
    (∃ e, r = .refused e) ∨ ∃ st, r = .ok st ∧ st.state = s

theorem Falls.neverOlder (hf : Faithful codec Stored Fits) {cs : List Commit} {st : DurableStore State} {d d' d'' : Disk}
    (h : Falls codec Stored cs st d)
    (hcrash : d' = d ∨ Prog.Exec Sound (st.compact codec) d none d' ∧ d'.journal = d.journal)
    (hdamage : SlotDamaged d' d'') : NeverOlder codec d'' (folded codec cs) := by
  obtain ⟨base, records, hd, hlast⟩ := h.fallback
  have hd' : Fallback codec d' base records st.state := by
    have hcut : d' = d ∨ ∃ encoded, codec.encodeSnapshot st.state = .ok encoded ∧ encoded.length ≤ kMaxSnapshotBytes ∧
        d' = withSnapshot d st.journal.lastSequence encoded := by
      obtain hsame | ⟨hcut, hjournal⟩ := hcrash
      · exact .inl hsame
      · exact compact_cut hd.logged.file hcut hjournal
    obtain rfl | ⟨encoded, hencoded, hlen, rfl⟩ := hcut
    · exact hd
    · rw [hlast]
      exact hd.snapshotted hlen fun t => hf.agrees h.stored hencoded hlen
  have hlogged : Logged d'' (segmentStart base :: records) :=
    ⟨by rw [slotDamaged_journal hdamage, hd'.logged.file], hd'.logged.wellFormed, hd'.logged.consecutive⟩
  intro durable r e he
  obtain ⟨rfl, -⟩ := hlogged.open_eq he
  obtain hrefused | ⟨st', hok, hstate, -⟩ := hd'.reopened_eq (fun _ _ hl => slotDamaged_loads hd' hdamage hl) durable
  · exact .inl hrefused
  · exact .inr ⟨st', hok, hstate.trans h.state⟩

end DurableStore

/-- A store whose last compaction may have been cut off between its snapshot and its journal, and of which one
snapshot slot is then lost or damaged, is refused or opens in the state after all its commits. -/
theorem snapshot_fallback :
    (∀ (cs : List Commit) (st : DurableStore ControllerState) (d d' d'' : Disk),
      DurableStore.Ran controllerCodec (fun _ => True) cs st d →
      (d' = d ∨ Prog.Exec Sound (st.compact controllerCodec) d none d' ∧ d'.journal = d.journal) →
      SlotDamaged d' d'' → DurableStore.NeverOlder controllerCodec d'' (DurableStore.folded controllerCodec cs)) ∧
    ∀ (cs : List Commit) (st : DurableStore AgentState) (d d' d'' : Disk),
      DurableStore.Ran agentCodec (fun _ => True) cs st d →
      (d' = d ∨ Prog.Exec Sound (st.compact agentCodec) d none d' ∧ d'.journal = d.journal) →
      SlotDamaged d' d'' → DurableStore.NeverOlder agentCodec d'' (DurableStore.folded agentCodec cs) :=
  ⟨fun _ _ _ _ _ hran hcrash hdamage => (hran.falls faithful_controller).neverOlder faithful_controller hcrash hdamage,
    fun _ _ _ _ _ hran hcrash hdamage => (hran.falls faithful_agent).neverOlder faithful_agent hcrash hdamage⟩

/-- The only snapshot is deleted after a commit and a compaction. -/
theorem deleted_snapshot_never_older :
    ∃ st d, DurableStore.Ran agentCodec (fun _ => True) [secondCommit] st d ∧
      DurableStore.NeverOlder agentCodec (d.setSlot .a none) secondCommitted := by
  obtain ⟨d, hran⟩ := ran_commit_and_compaction
  have hnever := snapshot_fallback.2 _ _ d d _ hran (.inl rfl) (.deleted .a)
  rw [folded_secondCommit] at hnever
  exact ⟨_, d, hran, hnever⟩

end ConfigurationFabric
