import ConfigurationFabric.StateSnapshot

namespace ConfigurationFabric

open LittleEndian
open Program

namespace DurableStore

variable {State : Type} (codec : Codec State)

/-- The store refuses every later commit and compaction. -/
def FailedForGood (st : DurableStore State) : Prop :=
  st.failed = true ∧ ∀ (d d' : Disk) (r : Status × DurableStore State),
    (∀ type payload, Prog.Exec (fun _ => True) (st.commit codec type payload) d (some r) d' → r.1.isOk = false) ∧
      (Prog.Exec (fun _ => True) (st.compact codec) d (some r) d' → r.1.isOk = false)

/-- Whatever the append does, an error leaves state and journal alone or the store failed. -/
def CleanFailure (st : DurableStore State) (d : Disk) (type : JournalRecordType) (payload : Bytes) : Prop :=
  ∀ (status : Status) (st' : DurableStore State) (d' : Disk),
    Prog.Exec (fun _ => True) (st.commit codec type payload) d (some (status, st')) d' → status.isOk = false →
      (st'.state = st.state ∧ d'.journal = d.journal) ∨ FailedForGood codec st'

variable {codec}

theorem steps_commit {st : DurableStore State} {type : JournalRecordType} {payload : Bytes} {d : Disk}
    {allowed : Io → Prop} {R : Disk → Disk → Prop} {Q : Status × DurableStore State → Disk → Prop}
    (hrefused : st.failed = true ∨ payload.length > st.journal.maxRecordBytes → ∀ e, Q (.error e, st) d)
    (herror : ∀ e state, st.failed = false → payload.length ≤ st.journal.maxRecordBytes →
      codec.apply st.state type payload = (.error e, state) → Q (.error e, { st with state }) d)
    (happend : ∀ state, st.failed = false → payload.length ≤ st.journal.maxRecordBytes →
      codec.apply st.state type payload = (.ok (), state) →
      (st.journal.append type payload).Steps allowed R
        (fun r => Q (r.1, { st with state, journal := r.2 })) d) :
    (st.commit codec type payload).Steps allowed R Q d := by
  unfold commit
  split
  case isTrue hf => exact hrefused (.inl hf) _
  case isFalse hf =>
    split
    case isTrue hl => exact hrefused (.inr hl) _
    case isFalse hl =>
      have hf' := Bool.eq_false_of_not_eq_true hf
      split
      case h_1 e state ha => exact herror e state hf' (Nat.not_lt.mp hl) ha
      case h_2 state ha =>
        rw [Prog.steps_bind]
        exact happend state hf' (Nat.not_lt.mp hl) ha

theorem exec_commit_error {st : DurableStore State} {type : JournalRecordType} {payload : Bytes} {d : Disk}
    (hf : st.failed = false) (hl : payload.length ≤ st.journal.maxRecordBytes) {e : Error} {state : State}
    (ha : codec.apply st.state type payload = (.error e, state)) :
    Prog.Exec (fun _ => True) (st.commit codec type payload) d (some (.error e, { st with state })) d := by
  unfold commit
  rw [if_neg (by simp [hf]), if_neg (Nat.not_lt.mpr hl), ha]
  exact .ret _ _

theorem exec_commit_append {st : DurableStore State} {type : JournalRecordType} {payload : Bytes} {d d' : Disk}
    (hf : st.failed = false) (hl : payload.length ≤ st.journal.maxRecordBytes) {state : State}
    (ha : codec.apply st.state type payload = (.ok (), state)) {status : Status} {journal : Journal}
    (h : Prog.Exec (fun _ => True) (st.journal.append type payload) d (some (status, journal)) d') :
    Prog.Exec (fun _ => True) (st.commit codec type payload) d (some (status, { st with state, journal })) d' := by
  unfold commit
  rw [if_neg (by simp [hf]), if_neg (Nat.not_lt.mpr hl), ha]
  exact h.bind (.ret _ _)

theorem known_of_accepted {s state : State} {type : JournalRecordType} {payload : Bytes}
    (ha : codec.apply s type payload = (.ok (), state)) : isKnownRecordType type.value = true := by
  have hframe := codec.framing_refused s payload type
  rw [ha] at hframe
  cases type with
  | invalid => exact absurd (hframe (.inr rfl)) (by simp [Result.isOk])
  | _ => rfl

end DurableStore

namespace Journal

theorem exec_append_exhausted {j : Journal} {type : JournalRecordType} {payload : Bytes} (d : Disk)
    (hk : isKnownRecordType type.value = true) (hl : payload.length ≤ j.maxRecordBytes)
    (hs : 2 ^ 64 - 1 ≤ j.lastSequence) :
    Prog.Exec (fun _ => True) (j.append type payload) d
      (some (.fail .arithmeticOverflow "journal sequence exhausted", j)) d := by
  unfold append checkedAdd
  rw [if_neg (by simp [hk]), if_neg (Nat.not_lt.mpr hl), if_pos (by omega)]
  exact .ret _ _

/-- An append that stops after the first byte of the record header. -/
theorem exec_append_torn {j : Journal} {type : JournalRecordType} {payload : Bytes} (d : Disk)
    (ha : j.Accepts type payload) :
    ∃ b, Prog.Exec (fun _ => True) (j.append type payload) d
      (some (.fail .ioFailure "cannot append a journal record header", j)) (d.append [b]) := by
  obtain ⟨hk, hl, hs⟩ := ha
  have hlen := recordHeader_length (j.nextRecord type payload)
  obtain ⟨b, bs, hb⟩ : ∃ b bs, recordHeader (j.nextRecord type payload) = b :: bs :=
    List.exists_cons_of_length_pos (by omega)
  have hwrite : Prog.Exec (fun _ => True) (fwrite (recordHeader (j.nextRecord type payload))) d (some false)
      (d.append [b]) := by
    have h := @exec_fwrite (fun _ => True) (.short 1) trivial (recordHeader (j.nextRecord type payload)) d
    rw [hlen] at h
    rw [hb] at h ⊢
    exact h
  have hrecord : Prog.Exec (fun _ => True) (j.writeRecord (j.nextRecord type payload)) d
      (some (.fail .ioFailure "cannot append a journal record header")) (d.append [b]) :=
    hwrite.bind (.ret _ _)
  refine ⟨b, ?_⟩
  unfold append checkedAdd
  rw [if_neg (by simp [hk]), if_neg (by omega), if_neg (by omega)]
  exact hrecord.bind (.ret _ _)

end Journal

/-! Records that are read and assigned field by field. -/

/-- Every field in front of the first unreadable one carries the value the state already has. -/
def NothingNew {State : Type} (steps : JournalRecordType → Option (List (FieldStep State))) (state : State)
    (type : JournalRecordType) (payload : Bytes) : Prop :=
  ∀ fields, steps type = some fields → ∀ assign ∈ Script.reached fields payload, assign state = state

/-- The codec applies the records of `steps` and refuses every other record untouched. -/
structure Scripted {State : Type} (codec : Codec State)
    (steps : JournalRecordType → Option (List (FieldStep State))) : Prop where
  apply_some : ∀ {type fields}, steps type = some fields → ∀ s payload,
    codec.apply s type payload = applyScript fields s payload
  apply_none : ∀ {type}, steps type = none → ∀ s payload,
    (codec.apply s type payload).2 = s ∧ (codec.apply s type payload).1.isOk = false
  separate : ∀ {type fields}, steps type = some fields → Script.Separate fields

theorem Scripted.unchanged_iff {State : Type} {codec : Codec State}
    {steps : JournalRecordType → Option (List (FieldStep State))} (h : Scripted codec steps) (s : State)
    (type : JournalRecordType) (payload : Bytes) :
    (codec.apply s type payload).2 = s ↔ NothingNew steps s type payload := by
  cases hsteps : steps type with
  | none =>
    refine iff_of_true (h.apply_none hsteps s payload).1 ?_
    intro fields hf
    rw [hsteps] at hf
    cases hf
  | some fields =>
    rw [h.apply_some hsteps, applyScript_state, Script.run_unchanged_iff (h.separate hsteps)]
    constructor
    · intro hall fields' hf
      obtain rfl : fields = fields' := Option.some.inj (hsteps.symm.trans hf)
      exact hall
    · exact fun hnew => hnew fields hsteps

theorem scripted_agent : Scripted agentCodec AgentStateCodec.steps where
  apply_some {type fields} h s payload := by
    change AgentStateCodec.apply s type payload = _
    simp [AgentStateCodec.apply, h]
  apply_none {type} h s payload := by
    change (AgentStateCodec.apply s type payload).2 = s ∧ _
    simp [agentCodec, AgentStateCodec.apply, h, Result.fail, Result.isOk]
  separate := AgentStateCodec.separate

theorem scripted_controller : Scripted controllerCodec ControllerStateCodec.steps where
  apply_some {type fields} h s payload := by
    change ControllerStateCodec.apply s type payload = _
    simp [ControllerStateCodec.apply, h]
  apply_none {type} h s payload := by
    change (ControllerStateCodec.apply s type payload).2 = s ∧ _
    simp [controllerCodec, ControllerStateCodec.apply, h, Result.fail, Result.isOk]
  separate := ControllerStateCodec.separate

/-- The commit is refused before it has assigned a new value or written a byte. -/
def RefusedEarly {State : Type} (codec : Codec State)
    (steps : JournalRecordType → Option (List (FieldStep State))) (st : DurableStore State)
    (type : JournalRecordType) (payload : Bytes) : Prop :=
  st.failed = true ∨ payload.length > st.journal.maxRecordBytes ∨
    NothingNew steps st.state type payload ∧
      ((codec.apply st.state type payload).1.isOk = false ∨ 2 ^ 64 - 1 ≤ st.journal.lastSequence)

theorem append_bytes_ne {d : Disk} {file : Bytes} (hfile : d.journal = some file) (b : UInt8) :
    (d.append [b]).journal ≠ d.journal := by
  simp [Disk.append, hfile]

theorem Scripted.cleanFailure_iff {State : Type} {codec : Codec State}
    {steps : JournalRecordType → Option (List (FieldStep State))} (h : Scripted codec steps)
    (st : DurableStore State) (d : Disk) {file : Bytes} (hfile : d.journal = some file)
    (type : JournalRecordType) (payload : Bytes) :
    DurableStore.CleanFailure codec st d type payload ↔ RefusedEarly codec steps st type payload := by
  constructor
  · intro hclean
    by_cases hf : st.failed = true
    · exact .inl hf
    have hf' := Bool.eq_false_of_not_eq_true hf
    by_cases hl : payload.length > st.journal.maxRecordBytes
    · exact .inr (.inl hl)
    have hl' := Nat.not_lt.mp hl
    refine .inr (.inr ?_)
    -- a store that is not marked failed has to have left everything alone
    have hsame {status : Status} {st' : DurableStore State} {d' : Disk}
        (he : Prog.Exec (fun _ => True) (st.commit codec type payload) d (some (status, st')) d')
        (herr : status.isOk = false) (hst : st'.failed = st.failed) :
        st'.state = st.state ∧ d'.journal = d.journal := by
      obtain hsame | hbad := hclean status st' d' he herr
      · exact hsame
      · exact absurd (hst.symm.trans hbad.1) hf
    cases ha : codec.apply st.state type payload with
    | mk status state =>
      have hstate : state = st.state → NothingNew steps st.state type payload := by
        intro hs
        rw [← h.unchanged_iff, ha, hs]
      cases status with
      | error e =>
        have hs := (hsame (DurableStore.exec_commit_error hf' hl' ha) rfl rfl).1
        exact ⟨hstate hs, .inl rfl⟩
      | ok _ =>
        have hk := DurableStore.known_of_accepted ha
        by_cases hs : 2 ^ 64 - 1 ≤ st.journal.lastSequence
        · have hrun := DurableStore.exec_commit_append hf' hl' ha (Journal.exec_append_exhausted d hk hl' hs)
          exact ⟨hstate (hsame hrun rfl rfl).1, .inr hs⟩
        · obtain ⟨b, hb⟩ := Journal.exec_append_torn d ⟨hk, hl', Nat.not_le.mp hs⟩
          have hrun := DurableStore.exec_commit_append hf' hl' ha hb
          exact absurd (hsame hrun rfl rfl).2 (append_bytes_ne hfile b)
  · intro hearly status st' d' he herr
    left
    have hsteps : (st.commit codec type payload).Steps (fun _ => True) (fun _ _ => True)
        (fun r t => r.1.isOk = false → r.2.state = st.state ∧ t.journal = d.journal) d := by
      apply DurableStore.steps_commit
      · exact fun _ e _ => ⟨rfl, rfl⟩
      · intro e state hf hl ha _
        obtain hbad | hbad | ⟨hnew, -⟩ := hearly
        · exact absurd hbad (by simp [hf])
        · omega
        · rw [← h.unchanged_iff, ha] at hnew
          exact ⟨hnew, rfl⟩
      · intro state hf hl ha
        obtain hbad | hbad | ⟨hnew, hbad | hs⟩ := hearly
        · exact absurd hbad (by simp [hf])
        · omega
        · exact absurd hbad (by simp [ha, Result.isOk])
        · rw [← h.unchanged_iff, ha] at hnew
          have hno : ¬ st.journal.Accepts type payload := fun hacc => by have := hacc.2.2; omega
          apply Journal.steps_append
          · exact fun hacc => absurd hacc hno
          · exact fun hacc => absurd hacc hno
          · exact fun _ e _ => ⟨hnew, rfl⟩
          · exact fun _ hacc => absurd hacc hno
    exact (hsteps.exec he).2 _ rfl herr

/-- For both states, a failing commit is clean exactly when it is refused early. -/
theorem clean_failure_iff {d : Disk} {file : Bytes} (hfile : d.journal = some file) (type : JournalRecordType)
    (payload : Bytes) :
    (∀ st : DurableStore AgentState, DurableStore.CleanFailure agentCodec st d type payload ↔
      RefusedEarly agentCodec AgentStateCodec.steps st type payload) ∧
      ∀ st : DurableStore ControllerState, DurableStore.CleanFailure controllerCodec st d type payload ↔
        RefusedEarly controllerCodec ControllerStateCodec.steps st type payload :=
  ⟨fun st => scripted_agent.cleanFailure_iff st d hfile type payload,
    fun st => scripted_controller.cleanFailure_iff st d hfile type payload⟩

theorem framing_commit_clean :
    DurableStore.CleanFailure agentCodec { state := {}, journal := { lastSequence := 1, recordCount := 1 } }
      { journal := some (journalBytes [segmentStart 1]) } .segmentStart [] := by
  refine ((clean_failure_iff rfl _ _).1 _).mpr (.inr (.inr ⟨?_, .inl rfl⟩))
  intro fields hfields
  cases hfields

/-- A resolution record without its counter: the commit fails and the prepare window is gone from memory. -/
theorem torn_resolution_not_clean :
    let st : DurableStore AgentState :=
      { state := { applyPrepared := true, preparedDeployment := [100], preparedGeneration := 3 }
        journal := { lastSequence := 1, recordCount := 1 } }
    let d : Disk := { journal := some (journalBytes [segmentStart 1]) }
    Prog.Exec (fun _ => True) (st.commit agentCodec .agentApplyResolved []) d
        (some (.fail .truncatedFrame "record ended before the declared field count", { st with state := {} })) d ∧
      ¬ DurableStore.CleanFailure agentCodec st d .agentApplyResolved [] := by
  intro st d
  have hrun : Prog.Exec (fun _ => True) (st.commit agentCodec .agentApplyResolved []) d
      (some (.fail .truncatedFrame "record ended before the declared field count", { st with state := {} })) d :=
    DurableStore.exec_commit_error rfl (by decide) rfl
  refine ⟨hrun, fun hclean => ?_⟩
  obtain ⟨hstate, -⟩ | ⟨hfailed, -⟩ := hclean _ _ _ hrun rfl
  · exact absurd (congrArg AgentState.applyPrepared hstate) (by decide)
  · exact absurd hfailed (by decide)

end ConfigurationFabric
