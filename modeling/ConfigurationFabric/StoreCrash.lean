import ConfigurationFabric.StoreCommit
import ConfigurationFabric.StoreRecovery

namespace ConfigurationFabric

open LittleEndian
open Program

/-! A store whose process may die between any two file operations. -/

structure Commit where
  type : JournalRecordType
  payload : Bytes

/-- A commit that came back, or one that the death of the process cut off. -/
inductive Attempt
  | returned (c : Commit)
  | cut (c : Commit)

/-- The commits that are left of a history: all that returned, and of those cut off any choice.
With a single crash this is a prefix of the attempts that contains every returned one. -/
inductive Survive : List Attempt → List Commit → Prop
  | nil : Survive [] []
  | returned {as : List Attempt} {cs : List Commit} (c : Commit) :
      Survive as cs → Survive (as ++ [.returned c]) (cs ++ [c])
  | kept {as : List Attempt} {cs : List Commit} (c : Commit) : Survive as cs → Survive (as ++ [.cut c]) (cs ++ [c])
  | lost {as : List Attempt} {cs : List Commit} (c : Commit) : Survive as cs → Survive (as ++ [.cut c]) cs

inductive Phase (State : Type)
  | closed
  | running (store : DurableStore State)

structure System (State : Type) where
  disk : Disk := {}
  phase : Phase State := .closed
  attempts : List Attempt := []

inductive Event
  | «open» (durable : Bool)
  | commit (c : Commit)
  | compact
  | crash

/-- File operations that do what they are asked to; the process may still die between two of them. -/
def Sound (io : Io) : Prop := io = .done

namespace DurableStore

variable {State : Type} (codec : Codec State)

/-- What a commit is meant to do: a refused one does nothing. -/
def effect (s : State) (c : Commit) : State :=
  if c.payload.length > kMaxJournalRecordBytes then s
  else
    match codec.apply s c.type c.payload with
    | (.ok (), s') => s'
    | (.error _, _) => s

def stateAfter (cs : List Commit) : State := cs.foldl (effect codec) codec.initial

inductive Next : System State → Event → System State → Prop
  | opened {d d' : Disk} {as : List Attempt} {st : DurableStore State} {durable : Bool} :
      Prog.Exec Sound (DurableStore.open codec durable) d (some (.ok st)) d' →
      Next ⟨d, .closed, as⟩ (.open durable) ⟨d', .running st, as⟩
  | refused {d d' : Disk} {as : List Attempt} {r : Journal.Opened (DurableStore State)} {durable : Bool} :
      Prog.Exec Sound (DurableStore.open codec durable) d (some r) d' → (∀ st, r ≠ .ok st) →
      Next ⟨d, .closed, as⟩ (.open durable) ⟨d', .closed, as⟩
  | openCut {d d' : Disk} {as : List Attempt} {durable : Bool} :
      Prog.Exec Sound (DurableStore.open codec durable) d none d' →
      Next ⟨d, .closed, as⟩ (.open durable) ⟨d', .closed, as⟩
  | committed {d d' : Disk} {as : List Attempt} {st st' : DurableStore State} {status : Status} {c : Commit} :
      Prog.Exec Sound (st.commit codec c.type c.payload) d (some (status, st')) d' →
      Next ⟨d, .running st, as⟩ (.commit c) ⟨d', .running st', as ++ [.returned c]⟩
  | commitCut {d d' : Disk} {as : List Attempt} {st : DurableStore State} {c : Commit} :
      Prog.Exec Sound (st.commit codec c.type c.payload) d none d' →
      Next ⟨d, .running st, as⟩ (.commit c) ⟨d', .closed, as ++ [.cut c]⟩
  | compacted {d d' : Disk} {as : List Attempt} {st st' : DurableStore State} {status : Status} :
      Prog.Exec Sound (st.compact codec) d (some (status, st')) d' →
      Next ⟨d, .running st, as⟩ .compact ⟨d', .running st', as⟩
  | compactCut {d d' : Disk} {as : List Attempt} {st : DurableStore State} :
      Prog.Exec Sound (st.compact codec) d none d' →
      Next ⟨d, .running st, as⟩ .compact ⟨d', .closed, as⟩
  | crashed {d : Disk} {as : List Attempt} {st : DurableStore State} :
      Next ⟨d, .running st, as⟩ .crash ⟨d, .closed, as⟩

/-- Every way in which opening `d` can end is an open store in a state that `as` accounts for. -/
def Reopens (d : Disk) (as : List Attempt) : Prop :=
  ∀ durable, (∃ r d', Prog.Exec Sound (DurableStore.open codec durable) d (some r) d') ∧
    ∀ r d', Prog.Exec Sound (DurableStore.open codec durable) d (some r) d' →
      ∃ st cs, r = .ok st ∧ Survive as cs ∧ st.state = stateAfter codec cs

/-- The journal is absent, or holds its segment start whole and behind the last whole record less than a header. -/
def SafeCut (d : Disk) : Prop :=
  d.journal = none ∨ ∃ base records tail,
    d.journal = some (journalBytes (segmentStart base :: records) ++ tail) ∧
      (∀ r ∈ segmentStart base :: records, r.WellFormed) ∧ Consecutive none (segmentStart base :: records) ∧
      tail.length < kJournalRecordHeaderBytes

/-- A refused commit leaves the state alone, and an accepted one still has a sequence number. -/
def Commits (st : DurableStore State) (c : Commit) : Prop :=
  c.payload.length ≤ st.journal.maxRecordBytes →
    match codec.apply st.state c.type c.payload with
    | (.error _, s) => s = st.state
    | (.ok (), _) => st.journal.lastSequence < 2 ^ 64 - 1

/-- The snapshot reads back as the state it was taken of, and the next segment still has a base. -/
def Compacts (st : DurableStore State) : Prop :=
  st.journal.lastSequence < 2 ^ 64 - 1 ∧
    ∀ encoded, codec.encodeSnapshot st.state = .ok encoded → codec.decodeSnapshot encoded = .ok st.state

/-- The steps after which the store can be opened again. -/
def Safe (s : System State) (e : Event) (t : System State) : Prop :=
  (t.phase = .closed → SafeCut t.disk) ∧
    match s.phase, e with
    | .running st, .commit c => Commits codec st c
    | .running st, .compact => Compacts codec st
    | _, _ => True

/-- Runs whose every step is safe. -/
def SafeRun : System State → System State → Prop :=
  Relation.ReflTransGen fun s t => ∃ e, Next codec s e t ∧ Safe codec s e t

/-- The directory holds what `as` accounts for. -/
def Good (d : Disk) (as : List Attempt) : Prop :=
  (d = {} ∧ as = []) ∨ ∃ base records tail cs,
    Holds codec d base records tail (stateAfter codec cs) ∧ Survive as cs

/-- The open store holds the same state as the directory and knows where its journal ends. -/
structure Tracks (st : DurableStore State) (d : Disk) (as : List Attempt) : Prop where
  unfailed : st.failed = false
  bound : st.journal.maxRecordBytes = kMaxJournalRecordBytes
  journal : ∃ base records cs, Holds codec d base records [] st.state ∧
    st.journal.lastSequence = lastSequenceOf (segmentStart base :: records) ∧
    Survive as cs ∧ st.state = stateAfter codec cs

variable {codec}

theorem not_faulty_sound : ¬ Faulty Sound := fun ⟨_, hio, hne⟩ => hne hio

theorem segmentStart_length (base : ℕ) : (recordBytes (segmentStart base)).length = 28 := by
  simp [segmentStart, store_length]

theorem SafeCut.length_le {d : Disk} {file : Bytes} (h : SafeCut d) (hfile : d.journal = some file) :
    40 ≤ file.length := by
  obtain hnone | ⟨base, records, tail, hsome, -⟩ := h
  · rw [hnone] at hfile
    cases hfile
  · obtain rfl : journalBytes (segmentStart base :: records) ++ tail = file :=
      Option.some.inj (hsome.symm.trans hfile)
    simp only [journalBytes, List.flatMap_cons, List.length_append, journalHeaderBytes_length, segmentStart_length]
    omega

theorem steps_askScan {R : Disk → Disk → Prop} {Q : ScanIo → Disk → Prop} {d : Disk} (h : Q {} d) :
    Journal.askScan.Steps Sound R Q d := by
  simp only [Journal.askScan, Prog.steps_bind, Prog.steps_ask, Prog.steps_pure]
  rintro _ rfl _ rfl _ rfl _ rfl
  exact h

theorem Holds.untorn {d : Disk} {base : ℕ} {records : List JournalRecord} {tail : Bytes} {s : State}
    (h : Holds codec d base records tail s) :
    Holds codec { d with journal := some (journalBytes (segmentStart base :: records)) } base records [] s where
  file := by rw [List.append_nil]
  short := by decide
  wellFormed := h.wellFormed
  consecutive := h.consecutive
  entries := h.entries
  snapshot := h.snapshot

variable {R : Disk → Disk → Prop}

theorem steps_succeeds_sound {Q : Bool → Disk → Prop} {d : Disk} (h : Q true d) : succeeds.Steps Sound R Q d :=
  steps_succeeds h fun hf => absurd hf not_faulty_sound

/-- Opening the journal of a directory cuts its torn tail off. -/
theorem Holds.steps_openJournal {d : Disk} {base : ℕ} {records : List JournalRecord} {tail : Bytes} {s : State}
    (h : Holds codec d base records tail s) {durable : Bool} {Q : Journal.Opened Journal → Disk → Prop}
    (hR : R d { d with journal := some (journalBytes (segmentStart base :: records)) })
    (hQ : ∀ recordCount, Q (.ok { durable, lastSequence := lastSequenceOf (segmentStart base :: records), recordCount })
      { d with journal := some (journalBytes (segmentStart base :: records)) }) :
    (Journal.open { durable }).Steps Sound R Q d := by
  obtain ⟨hok, -, hmis, hlast, -, hfile⟩ := scan_whole h.wellFormed h.consecutive true h.short
  rw [if_pos rfl] at hfile
  unfold Journal.open
  rw [if_neg (by simp [kMaxJournalRecordBytes]), Prog.steps_bind, Prog.steps_read]
  simp only [h.file, Journal.openExisting, Prog.steps_bind]
  refine steps_askScan ?_
  simp only [h.file, hfile, hmis, hok, Bool.false_eq_true, if_false, Prog.steps_bind, Prog.steps_read,
    Prog.steps_modify]
  refine ⟨hR, steps_succeeds_sound ?_⟩
  simp only [Bool.not_true, Bool.false_eq_true, if_false, Prog.steps_bind]
  refine steps_succeeds_sound ?_
  simp only [Bool.not_true, Bool.false_eq_true, if_false, Prog.steps_pure, hlast]
  exact hQ _

/-- Once the journal is open, the rest of opening reads a directory without a torn tail. -/
theorem steps_open_of_journal {d : Disk} {covered : ℕ} {s₀ : State}
    (hload : loadSnapshot codec d = .ok (covered, s₀)) {durable : Bool}
    {Q : Journal.Opened (DurableStore State) → Disk → Prop}
    (hj : (Journal.open { durable }).Steps Sound R (fun r t => ∃ journal base records s, r = .ok journal ∧
      Holds codec t base records [] s ∧ loadSnapshot codec t = .ok (covered, s₀) ∧
      Q (.ok { state := s, journal }) t) d) :
    (DurableStore.open codec durable).Steps Sound R Q d := by
  simp only [DurableStore.open, Prog.steps_bind, Prog.steps_read, hload]
  refine hj.mono ?_
  rintro _ t ⟨journal, base, records, s, rfl, h, hload', hQ⟩
  obtain ⟨covered', s₀', hload'', hrecover⟩ := h.recover
  rw [hload'] at hload''
  cases hload''
  obtain ⟨hok, hrec, hmis, -, -, -⟩ :=
    @scan_whole _ [] h.wellFormed h.consecutive false (by decide)
  rw [← h.file] at hok hrec hmis
  simp only [Prog.steps_bind]
  refine steps_askScan ?_
  simp only [hok, hrec, hmis, hrecover, Bool.false_eq_true, if_false, Prog.steps_bind, Prog.steps_read,
    Prog.steps_pure]
  exact hQ

variable (codec) in
/-- Where a store may be cut: short of a safe point, or with everything that is accounted for. -/
def Cuts (as : List Attempt) (_ t : Disk) : Prop := SafeCut t → Good codec t as

theorem cuts_short {as : List Attempt} {d t : Disk} {file : Bytes} (hfile : t.journal = some file)
    (hlen : file.length < 40) : Cuts codec as d t :=
  fun hsafe => absurd (hsafe.length_le hfile) (Nat.not_le.mpr hlen)

theorem Holds.tracks {d : Disk} {base : ℕ} {records : List JournalRecord} {cs : List Commit} {as : List Attempt}
    (h : Holds codec d base records [] (stateAfter codec cs)) (hs : Survive as cs) (durable : Bool)
    (recordCount : ℕ) :
    Tracks codec
      { state := stateAfter codec cs
        journal := { durable, lastSequence := lastSequenceOf (segmentStart base :: records), recordCount } } d as where
  unfailed := rfl
  bound := rfl
  journal := ⟨base, records, cs, h, rfl, hs, rfl⟩

theorem steps_open_existing {d : Disk} {base : ℕ} {records : List JournalRecord} {tail : Bytes} {cs : List Commit}
    {as : List Attempt} (h : Holds codec d base records tail (stateAfter codec cs)) (hs : Survive as cs)
    (durable : Bool) :
    (DurableStore.open codec durable).Steps Sound (Cuts codec as)
      (fun r t => ∃ st, r = .ok st ∧ Tracks codec st t as) d := by
  obtain ⟨covered, s₀, hload, -⟩ := h.snapshot
  refine steps_open_of_journal hload (h.steps_openJournal ?_ fun recordCount => ?_)
  · exact fun _ => .inr ⟨base, records, [], cs, h.untorn, hs⟩
  · exact ⟨_, base, records, _, rfl, h.untorn, hload, _, rfl, h.untorn.tracks hs durable recordCount⟩

theorem holds_fresh : Holds codec { journal := some (journalBytes [segmentStart 1]) } 1 [] [] codec.initial where
  file := by rw [List.append_nil]
  short := by decide
  wellFormed := by simpa using segmentStart_wellFormed (by decide) (by decide)
  consecutive := ⟨rfl, trivial⟩
  entries := by simp
  snapshot := ⟨0, codec.initial, rfl, by decide, by decide, by decide, rfl⟩

theorem steps_restart {j : Journal} {base : ℕ} {d : Disk} {file : Bytes} {as : List Attempt}
    {Q : Status × Journal → Disk → Prop} (hbase : base ≠ 0) (hfile : d.journal = some file)
    (hover : ∀ n ≤ 12, Cuts codec as d (Journal.overwriteHeader n d))
    (hgood : Good codec { d with journal := some (journalBytes [segmentStart base]) } as)
    (hok : Q (.ok (), { j with lastSequence := base, recordCount := 1 })
      { d with journal := some (journalBytes [segmentStart base]) }) :
    (j.restartSegment base).Steps Sound (Cuts codec as) Q d := by
  have hdone : (Journal.headerOnly d).append (recordBytes (segmentStart base)) =
      { d with journal := some (journalBytes [segmentStart base]) } := by
    simp [Disk.append, Journal.headerOnly, journalBytes]
  refine Journal.steps_restartSegment hfile hover (cuts_short rfl (by simp)) ?_ (fun _ => ?_)
    (fun h => absurd h hbase) (fun hf => absurd hf not_faulty_sound)
  · intro n hn
    rw [segmentStart_length] at hn
    by_cases hlast : n + 1 = 28
    · have hall : (recordBytes (segmentStart base)).take (n + 1) = recordBytes (segmentStart base) :=
        List.take_of_length_le (by rw [segmentStart_length]; omega)
      rw [hall, hdone]
      exact fun _ => hgood
    · refine cuts_short rfl ?_
      rw [List.length_append, journalHeaderBytes_length, List.length_take, segmentStart_length]
      omega
  · rw [hdone]
    exact hok

theorem steps_open_fresh (durable : Bool) :
    (DurableStore.open codec durable).Steps Sound (Cuts codec [])
      (fun r t => ∃ st, r = .ok st ∧ Tracks codec st t []) {} := by
  have hload : loadSnapshot codec {} = .ok (0, codec.initial) := rfl
  have hfresh := @holds_fresh _ codec
  refine steps_open_of_journal hload ?_
  unfold Journal.open
  rw [if_neg (by simp [kMaxJournalRecordBytes]), Prog.steps_bind, Prog.steps_read]
  simp only [Journal.create, Prog.steps_bind]
  refine steps_succeeds_sound ?_
  simp only [Bool.not_true, Bool.false_eq_true, if_false, Prog.steps_bind]
  refine steps_succeeds_sound ?_
  simp only [Bool.not_true, Bool.false_eq_true, if_false, Prog.steps_bind, Prog.steps_modify]
  refine ⟨cuts_short rfl (by decide), ?_⟩
  refine steps_fwrite (fun n hn => cuts_short rfl ?_) ?_ fun hf => absurd hf not_faulty_sound
  · rw [journalHeaderBytes_length] at hn
    simp only [List.nil_append, List.length_take, journalHeaderBytes_length]
    omega
  simp only [Bool.not_true, Bool.false_eq_true, if_false, Prog.steps_bind]
  refine steps_flushJournal ?_ fun hf => absurd hf not_faulty_sound
  simp only [Prog.steps_bind]
  refine steps_restart (by decide) rfl (fun n _ => cuts_short rfl ?_) (.inr ⟨1, [], [], [], hfresh, .nil⟩) ?_
  · simp only [List.nil_append, List.length_append, List.length_take, List.length_drop, journalHeaderBytes_length]
    omega
  · exact ⟨_, 1, [], codec.initial, rfl, hfresh, rfl, _, rfl, rfl, rfl, 1, [], [], hfresh, rfl, .nil, rfl⟩

theorem Good.steps_open {d : Disk} {as : List Attempt} (h : Good codec d as) (durable : Bool) :
    (DurableStore.open codec durable).Steps Sound (Cuts codec as)
      (fun r t => ∃ st, r = .ok st ∧ Tracks codec st t as) d := by
  obtain ⟨rfl, rfl⟩ | ⟨base, records, tail, cs, h, hs⟩ := h
  · exact steps_open_fresh durable
  · exact steps_open_existing h hs durable

/-! Commits. -/

theorem stateAfter_snoc (cs : List Commit) (c : Commit) :
    stateAfter codec (cs ++ [c]) = effect codec (stateAfter codec cs) c := by
  simp [stateAfter]

theorem lastSequenceOf_snoc (records : List JournalRecord) (r : JournalRecord) :
    lastSequenceOf (records ++ [r]) = r.sequence := by
  simp [lastSequenceOf]

theorem follows_last {records : List JournalRecord} {r : JournalRecord} (hne : records ≠ [])
    (hseq : r.sequence = lastSequenceOf records + 1) (hlt : lastSequenceOf records < 2 ^ 64 - 1) :
    follows (lastOf none records) r.sequence = true := by
  obtain ⟨q, hq⟩ : ∃ q, records.getLast? = some q := Option.isSome_iff_exists.mp (by simpa using hne)
  simp only [lastOf, lastSequenceOf, hq, Option.map_some, Option.getD_some, Option.some_or] at hseq hlt ⊢
  rw [hseq]
  simp only [follows, checkedAdd, if_neg (show ¬ q.sequence > 2 ^ 64 - 1 - 1 by omega), beq_self_eq_true]

/-- The directory with one more record at the end of its journal. -/
theorem Holds.snoc {d : Disk} {base : ℕ} {records : List JournalRecord} {s s' : State} {r : JournalRecord}
    (h : Holds codec d base records [] s) (hw : r.WellFormed) (ht : r.type ≠ .segmentStart)
    (hseq : r.sequence = lastSequenceOf (segmentStart base :: records) + 1)
    (ha : codec.apply s r.type r.payload = (.ok (), s')) :
    Holds codec (d.append (recordBytes r)) base (records ++ [r]) [] s' := by
  obtain ⟨covered, s₀, hload, hbase, hcov, hlast, hreplay⟩ := h.snapshot
  have hlt := hw.sequence_lt
  have hend : lastSequenceOf (segmentStart base :: (records ++ [r])) = r.sequence := by
    rw [← List.cons_append, lastSequenceOf_snoc]
  refine
    { file := by simp [Disk.append, h.file, journalBytes]
      short := by decide
      wellFormed := ?_
      consecutive := ?_
      entries := ?_
      snapshot := ⟨covered, s₀, hload, hbase, hcov, by omega, replay_snoc hreplay ht (by omega) ha⟩ }
  · rw [← List.cons_append]
    intro q hq
    obtain hq | hq := List.mem_append.mp hq
    · exact h.wellFormed q hq
    · rwa [List.mem_singleton.mp hq]
  · rw [← List.cons_append]
    exact h.consecutive.snoc (follows_last (by simp) hseq (by omega))
  · intro q hq
    obtain hq | hq := List.mem_append.mp hq
    · exact h.entries q hq
    · rwa [List.mem_singleton.mp hq]

/-- The directory with the first bytes of a record header at the end of its journal. -/
theorem Holds.torn {d : Disk} {base : ℕ} {records : List JournalRecord} {s : State} {tail : Bytes}
    (h : Holds codec d base records [] s) (ht : tail.length < kJournalRecordHeaderBytes) :
    Holds codec (d.append tail) base records tail s where
  file := by simp [Disk.append, h.file]
  short := ht
  wellFormed := h.wellFormed
  consecutive := h.consecutive
  entries := h.entries
  snapshot := h.snapshot

/-- A file that ends inside a record's payload is no safe place to stop. -/
theorem Holds.not_safe {d : Disk} {base : ℕ} {records : List JournalRecord} {s : State} {r : JournalRecord} {n : ℕ}
    (h : Holds codec d base records [] s) (hw : r.WellFormed) (h20 : 20 ≤ n) (hn : n < (recordBytes r).length) :
    ¬ SafeCut (d.append ((recordBytes r).take n)) := by
  have hfile : (d.append ((recordBytes r).take n)).journal =
      some (journalBytes (segmentStart base :: records) ++ (recordBytes r).take n) := by
    simp [Disk.append, h.file]
  rintro (hnone | ⟨base', records', tail', hsome, hw', hc', ht'⟩)
  · rw [hfile] at hnone
    cases hnone
  · have heq := Option.some.inj (hfile.symm.trans hsome)
    have hbody := heq
    simp only [journalBytes, List.append_assoc, List.append_cancel_left_eq] at hbody
    have htorn := scanLoop_torn_record h.wellFormed h.consecutive (fun q hq => (h.wellFormed q hq).small) hw hw.small h20 hn
    have hwhole := scanLoop_whole hw' hc' ht'
    simp only [heq, hbody, hwhole] at htorn
    split at htorn <;> cases htorn

theorem Tracks.steps_commit {st : DurableStore State} {d : Disk} {as : List Attempt} (h : Tracks codec st d as)
    {c : Commit} (hc : Commits codec st c) :
    (st.commit codec c.type c.payload).Steps Sound (Cuts codec (as ++ [.cut c]))
      (fun r t => Tracks codec r.2 t (as ++ [.returned c])) d := by
  obtain ⟨base, records, cs, hd, hlast, hs, hstate⟩ := h.journal
  have hbound := h.bound
  have heffect : stateAfter codec (cs ++ [c]) = effect codec st.state c := by rw [stateAfter_snoc, hstate]
  apply DurableStore.steps_commit
  · rintro (hf | hl) e
    · rw [h.unfailed] at hf
      cases hf
    · have hnop : effect codec st.state c = st.state := by rw [effect, if_pos (by omega)]
      exact ⟨h.unfailed, hbound, base, records, _, hd, hlast, .returned c hs, by rw [heffect, hnop]⟩
  · intro e state _ hl ha
    have hsame := hc hl
    rw [ha] at hsame
    have hnop : effect codec st.state c = st.state := by rw [effect, if_neg (by omega), ha]
    refine ⟨h.unfailed, hbound, base, records, _, ?_, hlast, .returned c hs, ?_⟩
    · rw [hsame]
      exact hd
    · rw [heffect, hnop, hsame]
  · intro state _ hl ha
    have hseq := hc hl
    rw [ha] at hseq
    have hacc : st.journal.Accepts c.type c.payload := ⟨known_of_accepted ha, hl, hseq⟩
    have hnew : effect codec st.state c = state := by rw [effect, if_neg (by omega), ha]
    have hw : (st.journal.nextRecord c.type c.payload).WellFormed :=
      ⟨hacc.1, by simp [Journal.nextRecord], by simp only [Journal.nextRecord]; omega,
        by simp only [Journal.nextRecord]; omega⟩
    have htype : (st.journal.nextRecord c.type c.payload).type ≠ .segmentStart := by
      intro ht
      have := codec.framing_refused st.state c.payload c.type (.inl ht)
      rw [ha] at this
      cases this
    have hd' := hd.snoc hw htype (by rw [← hlast]; rfl) ha
    have hlen := recordBytes_length (st.journal.nextRecord c.type c.payload)
    apply Journal.steps_append
    · intro _ n hn hsafe
      by_cases hhead : n + 1 < kJournalRecordHeaderBytes
      · have hshort : ((recordBytes (st.journal.nextRecord c.type c.payload)).take (n + 1)).length <
            kJournalRecordHeaderBytes := by rw [List.length_take]; omega
        exact .inr ⟨base, records, _, cs, by rw [← hstate]; exact hd.torn hshort, .lost c hs⟩
      by_cases hall : n + 1 = (recordBytes (st.journal.nextRecord c.type c.payload)).length
      · rw [List.take_of_length_le (by omega)]
        exact .inr ⟨base, _, [], cs ++ [c], by rwa [heffect, hnew], .kept c hs⟩
      · exact absurd hsafe (hd.not_safe hw (by simp only [kJournalRecordHeaderBytes] at hhead; omega) (by omega))
    · intro _
      refine ⟨h.unfailed, hbound, base, _, cs ++ [c], hd', ?_, .returned c hs, by rw [heffect, hnew]⟩
      rw [← List.cons_append, lastSequenceOf_snoc]
      rfl
    · exact fun hno => absurd hacc hno
    · exact fun hf => absurd hf not_faulty_sound

/-! Compaction. -/

/-- The directory with a new snapshot in the slot that is not in use. -/
def withSnapshot (d : Disk) (covered : ℕ) (encoded : Bytes) : Disk :=
  d.setSlot (SnapshotFile.writeTarget kMaxSnapshotBytes d) (some (SnapshotFile.encodeSlot covered encoded))

@[simp] theorem withSnapshot_journal (d : Disk) (covered : ℕ) (encoded : Bytes) :
    (withSnapshot d covered encoded).journal = d.journal := by
  simp [withSnapshot]

theorem steps_writeSnapshot {d : Disk} {covered : ℕ} {encoded : Bytes} {Q : Status → Disk → Prop}
    (hlarge : kMaxSnapshotBytes < encoded.length → ∀ e, Q (.error e) d)
    (hR : encoded.length ≤ kMaxSnapshotBytes → R d (withSnapshot d covered encoded))
    (hok : encoded.length ≤ kMaxSnapshotBytes → Q (.ok ()) (withSnapshot d covered encoded)) :
    (SnapshotFile.write kMaxSnapshotBytes covered encoded).Steps Sound R Q d := by
  unfold SnapshotFile.write
  split
  case isTrue hl => exact hlarge hl _
  case isFalse hl =>
    have hl' := Nat.not_lt.mp hl
    simp only [Prog.steps_bind, Prog.steps_read, SnapshotFile.writeFileAtomic]
    refine steps_succeeds_sound ?_
    simp only [Bool.not_true, Bool.false_eq_true, if_false, Prog.steps_bind, Prog.steps_ask]
    rintro _ rfl
    simp only [Io.written, ne_eq, not_true_eq_false, if_false, Prog.steps_bind]
    refine steps_flushJournal ?_ fun hf => absurd hf not_faulty_sound
    simp only [Prog.steps_bind]
    refine steps_succeeds_sound ?_
    simp only [if_true, Prog.steps_bind, Prog.steps_modify, Prog.steps_pure]
    exact ⟨hR hl', hok hl'⟩

theorem loadSnapshot_ok {d : Disk} {l : SnapshotFile.Loaded} {covered : ℕ} {s : State}
    (hl : SnapshotFile.load kMaxSnapshotBytes d = .ok l) :
    loadSnapshot codec d = .ok (covered, s) ↔ l.coveredSequence = covered ∧ codec.decodeSnapshot l.payload = .ok s := by
  rw [loadSnapshot, hl]
  cases hdec : codec.decodeSnapshot l.payload with
  | error e => simp [bind, Except.bind, hdec]
  | ok s' => simp [bind, Except.bind, pure, Except.pure, hdec]

theorem Holds.loadSnapshot_written {d : Disk} {base covered : ℕ} {records : List JournalRecord} {s : State}
    {encoded : Bytes} (h : Holds codec d base records [] s)
    (hc : covered = lastSequenceOf (segmentStart base :: records)) (hlt : covered < 2 ^ 64 - 1)
    (hlen : encoded.length ≤ kMaxSnapshotBytes) (hdec : codec.decodeSnapshot encoded = .ok s) :
    loadSnapshot codec (withSnapshot d covered encoded) = .ok (covered, s) := by
  obtain ⟨covered₀, s₀, hload, -, -, hle, hreplay⟩ := h.snapshot
  have hold (l : SnapshotFile.Loaded) (hl : SnapshotFile.load kMaxSnapshotBytes d = .ok l) :
      l.coveredSequence ≤ covered := by
    have := ((loadSnapshot_ok hl).mp hload).1
    omega
  obtain ⟨slot, hnew⟩ | ⟨l, hl, hl', hcov⟩ :=
    @SnapshotFile.load_written covered encoded (by omega) hlen d hold
  · exact (loadSnapshot_ok hnew).mpr ⟨rfl, hdec⟩
  · -- the old snapshot covers every record, so what it holds is the state already
    obtain ⟨hcov₀, hdec₀⟩ := (loadSnapshot_ok hl).mp hload
    have hall : replay codec covered₀ records s₀ = .ok s₀ := by
      refine replay_covered fun r hr => ?_
      have := h.consecutive.le_last r (List.mem_cons_of_mem _ hr)
      omega
    obtain rfl : s₀ = s := Except.ok.inj (hall.symm.trans hreplay)
    exact (loadSnapshot_ok hl').mpr ⟨hcov, hdec₀⟩

theorem Holds.snapshotted {d : Disk} {base covered : ℕ} {records : List JournalRecord} {s : State}
    {encoded : Bytes} (h : Holds codec d base records [] s)
    (hc : covered = lastSequenceOf (segmentStart base :: records)) (hlt : covered < 2 ^ 64 - 1)
    (hlen : encoded.length ≤ kMaxSnapshotBytes) (hdec : codec.decodeSnapshot encoded = .ok s) :
    Holds codec (withSnapshot d covered encoded) base records [] s where
  file := by rw [withSnapshot_journal, h.file]
  short := h.short
  wellFormed := h.wellFormed
  consecutive := h.consecutive
  entries := h.entries
  snapshot := by
    have hle := h.consecutive.le_last
    refine ⟨covered, s, h.loadSnapshot_written hc hlt hlen hdec, ?_, hlt, by omega, replay_covered fun r hr => ?_⟩
    · have : base ≤ lastSequenceOf (segmentStart base :: records) := hle _ List.mem_cons_self
      omega
    · rw [hc]
      exact hle r (List.mem_cons_of_mem _ hr)

theorem holds_restarted {d : Disk} {covered : ℕ} {s : State} (hlt : covered < 2 ^ 64 - 1)
    (hload : loadSnapshot codec d = .ok (covered, s)) :
    Holds codec { d with journal := some (journalBytes [segmentStart (covered + 1)]) } (covered + 1) [] [] s where
  file := by rw [List.append_nil]
  short := by decide
  wellFormed := by simpa using segmentStart_wellFormed (by omega) (by omega)
  consecutive := ⟨rfl, trivial⟩
  entries := by simp
  snapshot := ⟨covered, s, hload, by omega, hlt, by simp [lastSequenceOf, segmentStart], rfl⟩

theorem overwriteHeader_same {d : Disk} {rest : Bytes} (hfile : d.journal = some (journalHeaderBytes ++ rest)) {n : ℕ}
    (hn : n ≤ 12) : Journal.overwriteHeader n d = d := by
  have htake : journalHeaderBytes.take n = (journalHeaderBytes ++ rest).take n := by
    rw [List.take_append_of_le_length (by simpa using hn)]
  cases d with
  | mk j a b =>
    simp only at hfile
    simp [Journal.overwriteHeader, hfile, htake]

theorem Tracks.steps_compact {st : DurableStore State} {d : Disk} {as : List Attempt} (h : Tracks codec st d as)
    (hc : Compacts codec st) :
    (st.compact codec).Steps Sound (Cuts codec as) (fun r t => Tracks codec r.2 t as) d := by
  obtain ⟨base, records, cs, hd, hlast, hs, hstate⟩ := h.journal
  obtain ⟨hlt, hround⟩ := hc
  unfold compact
  rw [if_neg (by simp [h.unfailed])]
  split
  case h_1 e he => exact h
  case h_2 encoded he =>
    have hdec := hround encoded he
    rw [Prog.steps_bind]
    refine steps_writeSnapshot (fun _ _ => h) ?_ ?_
    · intro hlen _
      have hd' := hd.snapshotted hlast hlt hlen hdec
      exact .inr ⟨base, records, [], cs, by rwa [← hstate], hs⟩
    · intro hlen
      have hd' := hd.snapshotted hlast hlt hlen hdec
      have hnew := holds_restarted hlt (hd.loadSnapshot_written hlast hlt hlen hdec)
      have hfile : (withSnapshot d st.journal.lastSequence encoded).journal =
          some (journalHeaderBytes ++ (segmentStart base :: records).flatMap recordBytes) := by
        rw [hd'.file, List.append_nil, journalBytes]
      have hmod : (st.journal.lastSequence + 1) % 2 ^ 64 = st.journal.lastSequence + 1 := Nat.mod_eq_of_lt (by omega)
      simp only [hmod, Prog.steps_bind]
      refine steps_restart (by omega) hfile (fun n hn _ => ?_) ?_ ?_
      · rw [overwriteHeader_same hfile hn]
        exact .inr ⟨base, records, [], cs, by rwa [← hstate], hs⟩
      · exact .inr ⟨_, [], [], cs, by rwa [← hstate], hs⟩
      · exact ⟨h.unfailed, h.bound, _, [], cs, hnew, rfl, hs, hstate⟩

/-! Whole runs. -/

/-- What every system reached by safe steps looks like. -/
def Accounted (codec : Codec State) (s : System State) : Prop :=
  match s.phase with
  | .closed => Good codec s.disk s.attempts
  | .running st => Tracks codec st s.disk s.attempts

theorem Tracks.good {st : DurableStore State} {d : Disk} {as : List Attempt} (h : Tracks codec st d as) :
    Good codec d as := by
  obtain ⟨base, records, cs, hd, -, hs, hstate⟩ := h.journal
  exact .inr ⟨base, records, [], cs, by rwa [← hstate], hs⟩

/-- A program that keeps to the cuts leaves, wherever it stops safely, what is accounted for. -/
theorem good_of_cuts {as : List Attempt} {d d' : Disk} (hreach : Relation.ReflTransGen (Cuts codec as) d d')
    (hd : Good codec d as) (hsafe : SafeCut d') : Good codec d' as := by
  cases hreach with
  | refl => exact hd
  | tail _ hlast => exact hlast hsafe

theorem accounted_next {s t : System State} {e : Event} (hs : Accounted codec s) (hn : Next codec s e t)
    (hsafe : Safe codec s e t) : Accounted codec t := by
  cases hn with
  | opened h =>
    obtain ⟨st, hst, htracks⟩ := ((Good.steps_open hs _).exec h).2 _ rfl
    cases hst
    exact htracks
  | refused h hno =>
    obtain ⟨st, hst, -⟩ := ((Good.steps_open hs _).exec h).2 _ rfl
    exact absurd hst (hno st)
  | openCut h => exact good_of_cuts ((Good.steps_open hs _).exec h).1 hs (hsafe.1 rfl)
  | committed h => exact ((Tracks.steps_commit hs hsafe.2).exec h).2 _ rfl
  | @commitCut d _ as st c h =>
    have hgood : Good codec d (as ++ [.cut c]) := by
      obtain ⟨base, records, cs, hd, -, hsurvive, hstate⟩ := Tracks.journal hs
      exact .inr ⟨base, records, [], cs, by rwa [← hstate], .lost c hsurvive⟩
    exact good_of_cuts ((Tracks.steps_commit hs hsafe.2).exec h).1 hgood (hsafe.1 rfl)
  | compacted h => exact ((Tracks.steps_compact hs hsafe.2).exec h).2 _ rfl
  | compactCut h => exact good_of_cuts ((Tracks.steps_compact hs hsafe.2).exec h).1 (Tracks.good hs) (hsafe.1 rfl)
  | crashed => exact Tracks.good hs

theorem accounted_run {s : System State} (h : SafeRun codec {} s) : Accounted codec s := by
  induction h with
  | refl => exact .inl ⟨rfl, rfl⟩
  | tail _ hstep ih =>
    obtain ⟨e, hn, hsafe⟩ := hstep
    exact accounted_next ih hn hsafe

/-- However often the process dies in between, the store opens again in a state its history accounts for. -/
theorem safe_run_reopens (codec : Codec State) (s : System State) (hrun : SafeRun codec {} s)
    (hclosed : s.phase = .closed) : Reopens codec s.disk s.attempts := by
  have hgood := accounted_run hrun
  rw [Accounted, hclosed] at hgood
  intro durable
  refine ⟨Prog.Exec.complete (show Sound .done from rfl) _ _, fun r d' h => ?_⟩
  obtain ⟨st, rfl, htracks⟩ := ((Good.steps_open hgood durable).exec h).2 _ rfl
  obtain ⟨-, -, cs, -, -, hs, hstate⟩ := htracks.journal
  exact ⟨st, cs, rfl, hs, hstate⟩

/-- A note whose record header is cut after three bytes. -/
theorem cut_note_reopens :
    Reopens agentCodec { journal := some (journalBytes [segmentStart 1] ++ [5, 0, 0]) }
      [.cut ⟨.note, [1, 0, 0, 0, 65]⟩] := by
  let note : Commit := ⟨.note, [1, 0, 0, 0, 65]⟩
  let st : DurableStore AgentState := { state := {}, journal := { lastSequence := 1, recordCount := 1 } }
  have hopen : Prog.Exec Sound (DurableStore.open agentCodec true) {} (some (.ok st))
      { journal := some (journalBytes [segmentStart 1]) } :=
    Prog.exec_of_run (List.replicate 30 .done) 100 (by simp [Sound]) (by decide +kernel)
  have hcut : Prog.Exec Sound (st.commit agentCodec note.type note.payload)
      { journal := some (journalBytes [segmentStart 1]) } none
      { journal := some (journalBytes [segmentStart 1] ++ [5, 0, 0]) } :=
    Prog.exec_of_run (List.replicate 30 .done) 3 (by simp [Sound]) (by decide +kernel)
  have hsafe : SafeCut { journal := some (journalBytes [segmentStart 1] ++ [5, 0, 0]) } :=
    .inr ⟨1, [], [5, 0, 0], rfl, by simpa using segmentStart_wellFormed (by decide) (by decide), ⟨rfl, trivial⟩,
      by decide⟩
  have hcommits : Commits agentCodec st note := fun _ => (by decide : 1 < 2 ^ 64 - 1)
  refine safe_run_reopens agentCodec ⟨_, .closed, [.cut note]⟩ ?_ rfl
  refine .tail (.tail .refl ⟨_, .opened hopen, ?_, trivial⟩) ⟨_, .commitCut hcut, fun _ => hsafe, hcommits⟩
  exact fun h => by cases h

variable (codec) in
def Run : System State → System State → Prop := Relation.ReflTransGen fun s t => ∃ e, Next codec s e t

/-- A process that dies as soon as it has created the journal file leaves a directory that cannot be opened. -/
theorem created_journal_not_reopened :
    ¬ ∀ s, Run agentCodec {} s → s.phase = .closed → Reopens agentCodec s.disk s.attempts := by
  intro hall
  have hcut : Prog.Exec Sound (DurableStore.open agentCodec true) {} none { journal := some [] } :=
    Prog.exec_of_run [.done, .done] 1 (by simp [Sound]) rfl
  have hrefused : Prog.Exec Sound (DurableStore.open agentCodec true) { journal := some [] }
      (some (.refused ⟨.integrityFailure, "journal recovery failed", ""⟩)) { journal := some [] } :=
    Prog.exec_of_run [.done, .done, .done, .done] 1 (by simp [Sound]) rfl
  have hreopens := hall ⟨{ journal := some [] }, .closed, []⟩ (.single ⟨_, .openCut hcut⟩) rfl
  obtain ⟨st, cs, hok, -⟩ := (hreopens true).2 _ _ hrefused
  cases hok

end DurableStore

end ConfigurationFabric
