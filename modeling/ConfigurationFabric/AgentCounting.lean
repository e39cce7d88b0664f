import ConfigurationFabric.AgentFindings
import ConfigurationFabric.AgentSteady

/-! The count of activations, in memory and in the journal. -/

namespace ConfigurationFabric

open LittleEndian
open Program

namespace Agent

def bumped (n : ℕ) : ℕ := if n ≠ 2 ^ 64 - 1 then n + 1 else n

/-- The counter in memory, and the one the journal gives. -/
def tally (w : World) : ℕ × ℕ := (w.mem.activations, w.dur.activations)

/-- What an activation makes of the two: past an open window each of its two records counts. -/
def activated (s : AgentState) (journal : ℕ) : ℕ × ℕ :=
  if s.applyPrepared then (bumped (increment s.activations), increment s.activations)
  else (bumped s.activations, journal)

/-- Nothing is switched and memory counts on, or the switch is counted. -/
def Tallied (w w' : World) : Prop :=
  w'.switched = w.switched ∧ w'.mem.activations = w.mem.activations ∧
      (w'.dur.activations = w.dur.activations ∨ w'.dur.activations = w.mem.activations) ∨
    w'.switched ≠ w.switched ∧ tally w' = activated w.mem w.dur.activations

section Handlers

variable {w w' w'' : World} {allowed : Env → Prop} {o : AgentOptions} {c : TransferRecord}

theorem Booked.tally (h : Booked w w') : tally w' = tally w := by
  have hmem := congrArg Ledger.activations h.mem
  have hdur : (ledger w'.dur).activations = (ledger w.dur).activations := by
    obtain hsame | hnoted := h.dur
    · rw [hsame]
    · rw [hnoted]
  exact Prod.ext hmem hdur

theorem Tallied.same (hswitched : w'.switched = w.switched) (htally : tally w' = tally w) : Tallied w w' := by
  obtain ⟨hmem, hdur⟩ := Prod.mk.inj htally
  exact .inl ⟨hswitched, hmem, .inl hdur⟩

theorem Tallied.refl (w : World) : Tallied w w := .same rfl rfl

theorem Tallied.booked (h : Tallied w w') (hb : Booked w' w'') : Tallied w w'' := by
  obtain ⟨hmem, hdur⟩ := Prod.mk.inj hb.tally
  obtain ⟨hswitched, hmem', hdur'⟩ | ⟨hswitched, htally⟩ := h
  · exact .inl ⟨hb.switched.trans hswitched, hmem.trans hmem', hdur'.imp hdur.trans hdur.trans⟩
  · exact .inr ⟨fun h => hswitched (hb.switched.symm.trans h), hb.tally.trans htally⟩

theorem tallied_steady {α : Type} {p : Agent α} (hw : Tallied w w')
    (hp : p.Steps allowed Steady (fun _ _ => True) w') : p.Steps allowed Any (fun _ => Tallied w) w' :=
  steady_any hp fun _ _ h => hw.booked h.toBooked

theorem tallied_copyFileAtomic {source : Directory} {name : PayloadName} {Q : Status → World → Prop}
    (hQ : ∀ r w', Booked w w' → w'.mem = w.mem → Q r w') : (copyFileAtomic source name).Steps allowed Any Q w := by
  have hplaced (f : Files) (hcurrent : f.current = w.files.current) (hpending : f.pending = w.files.pending) :
      Booked w (w.onFiles fun _ => f) := .same hcurrent hpending rfl rfl rfl
  simp only [copyFileAtomic, Prog.steps_bind, Prog.steps_ask, Prog.steps_read]
  intro e _
  split
  · exact hQ _ _ (.refl w) rfl
  simp only [Prog.steps_bind, steps_succeeds]
  intro e₁ _
  split
  · exact hQ _ _ (.refl w) rfl
  simp only [Prog.steps_bind, steps_setFiles, steps_succeeds]
  refine ⟨trivial, fun e₂ _ => ?_⟩
  split
  · rw [Prog.steps_bind]
    exact steps_remove trivial (hQ _ _ (hplaced _ rfl rfl) rfl) (hQ _ _ (hplaced _ rfl rfl) rfl)
  simp only [Prog.steps_bind, steps_succeeds]
  intro e₃ _
  split
  · rw [Prog.steps_bind]
    exact steps_remove trivial (hQ _ _ (hplaced _ rfl rfl) rfl) (hQ _ _ (hplaced _ rfl rfl) rfl)
  · simp only [Prog.steps_bind, steps_setFiles]
    exact ⟨trivial, hQ _ _ (hplaced _ rfl rfl) rfl⟩

theorem tallied_onStage {m : StageMessage} : (onStage m).Steps allowed Any (fun _ => Tallied w) w := by
  have hrespond (ack : StageAckMessage) {w' : World} (hw' : Booked w w') :
      (send (.stage m) (.stageAck ack)).Steps allowed Any (fun _ => Tallied w) w' :=
    tallied_steady ((Tallied.refl w).booked hw') steady_send
  simp only [onStage, Prog.steps_bind, steps_state]
  split
  · exact hrespond _ (.refl w)
  split
  · exact hrespond _ (.refl w)
  split
  · exact hrespond _ (.refl w)
  split
  · exact hrespond _ (.refl w)
  simp only [Prog.steps_bind, steps_succeeds]
  intro e _
  split
  · exact hrespond _ (.refl w)
  rw [Prog.steps_bind]
  refine tallied_copyFileAtomic fun r w' hw' _ => ?_
  split
  · exact hrespond _ hw'
  · simp only [checkpointTransfer, Prog.steps_bind, steps_now]
    exact fun e _ => ⟨trivial, hrespond _ (hw'.trans (.same rfl rfl rfl rfl rfl))⟩

theorem tallied_openWindow {marker : PointerValue} (hw : Tallied w w') :
    (openWindow c marker).Steps allowed Any (fun _ => Tallied w) w' := by
  simp only [openWindow, Prog.steps_bind]
  refine steps_writeFileAtomic trivial ⟨trivial, hw⟩ (fun _ => hw) fun _ => ?_
  exact ⟨trivial, trivial, ⟨trivial, hw⟩, fun _ => hw⟩

theorem tallied_onApplyPrepare {m : ApplyPrepareMessage} :
    (onApplyPrepare m).Steps allowed Any (fun _ => Tallied w) w := by
  have hrespond (ack : ApplyPrepareAckMessage) {w' : World} (hw' : Tallied w w') :
      (send (.applyPrepare m) (.applyPrepareAck ack)).Steps allowed Any (fun _ => Tallied w) w' :=
    tallied_steady hw' steady_send
  simp only [onApplyPrepare, Prog.steps_bind, steps_state]
  split
  · exact hrespond _ (.refl w)
  split
  · exact hrespond _ (.refl w)
  split
  · exact hrespond _ (.refl w)
  split
  · exact hrespond _ (.refl w)
  split
  · exact hrespond _ (.refl w)
  rw [Prog.steps_bind]
  refine (tallied_openWindow (.refl w)).mono fun r w' hw' => ?_
  split
  · exact hrespond _ hw'
  · exact hrespond _ hw'

theorem tallied_onApplyAbort {m : ApplyAbortMessage} :
    (onApplyAbort m).Steps allowed Any (fun _ => Tallied w) w := by
  have hrespond (ack : ApplyAbortAckMessage) {w' : World} (hw' : Tallied w w') :
      (send (.applyAbort m) (.applyAbortAck ack)).Steps allowed Any (fun _ => Tallied w) w' :=
    tallied_steady hw' steady_send
  simp only [onApplyAbort, Prog.steps_bind, steps_state]
  split
  · exact hrespond _ (.refl w)
  split
  · exact hrespond _ (.refl w)
  split
  · rw [Prog.steps_bind]
    refine steps_remove trivial ?_ ?_
    · simp only [Prog.steps_bind, steps_setState, steps_state, steps_commit]
      exact ⟨trivial, trivial, trivial, hrespond _ (.inl ⟨rfl, rfl, .inr rfl⟩)⟩
    · simp only [Prog.steps_bind, steps_setState, steps_state, steps_commit]
      exact ⟨trivial, trivial, trivial, hrespond _ (.inl ⟨rfl, rfl, .inr rfl⟩)⟩
  · simp only [Prog.steps_bind, steps_setState, steps_state, steps_commit]
    exact ⟨trivial, trivial, trivial, hrespond _ (.inl ⟨rfl, rfl, .inr rfl⟩)⟩

/-! The activation. -/

/-- The pointer has been switched and nothing recorded yet. -/
structure Turned (w w' : World) : Prop where
  switched : w'.switched ≠ w.switched
  mem : w'.mem = w.mem
  dur : w'.dur = w.dur

theorem Turned.of_append {x : ConfigKey × PointerValue} (hswitched : w'.switched = w.switched ++ [x])
    (hmem : w'.mem = w.mem) (hdur : w'.dur = w.dur) : Turned w w' where
  switched h := by
    rw [hswitched] at h
    simpa using congrArg List.length h
  mem := hmem
  dur := hdur

theorem turned_switchPointer {Q : Status → World → Prop} (hok : ∀ w', Turned w w' → Q (.ok ()) w')
    (herr : ∀ e w', w'.switched = w.switched → tally w' = tally w → Q (.error e) w') :
    (switchPointer c).Steps allowed Any Q w := by
  refine steps_writeFileAtomic trivial (hok _ ?_) (fun e => herr e w rfl rfl) fun _ => ?_
  · exact Turned.of_append rfl rfl rfl
  · exact ⟨trivial, trivial, hok _ (Turned.of_append rfl rfl rfl), fun e => herr e _ rfl rfl⟩

theorem tallied_recordActivation {Q : World → Prop}
    (hQ : ∀ w', w'.switched = w.switched → tally w' = (bumped w.mem.activations, w.dur.activations) → Q w') :
    (recordActivation c).Steps allowed Any (fun _ => Q) w := by
  simp only [recordActivation, Prog.steps_bind, steps_commit, steps_now, steps_setState, steps_state]
  exact ⟨trivial, fun e _ => ⟨trivial, trivial, trivial, hQ _ rfl rfl⟩⟩

theorem tallied_commitGeneration (h : Turned w w') :
    (commitGeneration c).Steps allowed Any (fun _ => Tallied w) w' := by
  have hdone (w'' : World) (hswitched : w''.switched = w'.switched)
      (htally : tally w'' = activated w.mem w.dur.activations) : Tallied w w'' :=
    .inr ⟨fun heq => h.switched (hswitched.symm.trans heq), htally⟩
  simp only [commitGeneration, Prog.steps_bind, steps_state]
  by_cases hopen : w.mem.applyPrepared = true
  · rw [if_pos (h.mem ▸ hopen), Prog.steps_bind, steps_commit]
    refine ⟨trivial, tallied_recordActivation fun w'' hswitched htally => hdone w'' hswitched ?_⟩
    rw [htally, activated, if_pos hopen, ← h.mem]
    rfl
  · rw [if_neg (h.mem ▸ hopen)]
    refine tallied_recordActivation fun w'' hswitched htally => hdone w'' hswitched ?_
    rw [htally, activated, if_neg hopen, h.mem, h.dur]

/-- An activation past an open window, or one that needs none. -/
theorem tallied_activate {explicitPrepare : Bool} (hopen : explicitPrepare = true → w.mem.applyPrepared = true) :
    (activate o c explicitPrepare).Steps allowed Any (fun _ => Tallied w) w := by
  have hready : (explicitPrepare && !w.mem.applyPrepared) = false := by
    cases explicitPrepare with
    | false => rfl
    | true => simp [hopen rfl]
  have hrecord (w' : World) (h : Turned w w') : (do
      commitGeneration c
      prunePayloads o c.key
      return .ok () : Agent Status).Steps allowed Any (fun _ => Tallied w) w' := by
    rw [Prog.steps_bind]
    refine (tallied_commitGeneration h).mono fun _ w₁ h₁ => ?_
    rw [Prog.steps_bind]
    have hpruned : (prunePayloads o c.key).Steps allowed Quiet (fun _ => Tallied w) w₁ := by
      refine steps_prunePayloads fun f _ => ?_
      exact h₁
    exact hpruned.rel_mono fun _ _ _ => trivial
  simp only [activate, hready, Bool.false_eq_true, if_false, Prog.steps_bind, steps_state, Prog.steps_pure]
  refine turned_switchPointer (fun w₁ h₁ => ?_) fun e w₁ hswitched htally => .same hswitched htally
  simp only
  split
  · rw [Prog.steps_bind]
    exact steps_remove trivial (hrecord _ ⟨h₁.switched, h₁.mem, h₁.dur⟩) (hrecord _ h₁)
  · exact hrecord _ h₁

theorem tallied_onApplyCommit {session : Session} {m : ApplyCommitMessage} :
    (onApplyCommit o session m).Steps allowed Any (fun _ => Tallied w) w := by
  have hrefuse {ack : ApplyCommitAckMessage} {key : ConfigKey} {detail : String} {w' : World} (hw' : Tallied w w') :
      (refuseCommit m ack key detail).Steps allowed Any (fun _ => Tallied w) w' :=
    tallied_steady hw' steady_refuseCommit
  have hconfirm {ack : ApplyCommitAckMessage} {key : ConfigKey} {bytes : ℕ} {w' : World} (hw' : Tallied w w') :
      (confirmCommit session m ack key bytes).Steps allowed Any (fun _ => Tallied w) w' :=
    tallied_steady hw' steady_confirmCommit
  simp only [onApplyCommit, Prog.steps_bind, steps_state]
  split
  · simp only [Prog.steps_bind, steps_setState, steps_state, steps_commit]
    exact ⟨trivial, trivial, hrefuse (.same rfl rfl)⟩
  split
  · simp only [Prog.steps_bind, steps_setState, steps_state, steps_commit]
    exact ⟨trivial, trivial, hconfirm (.same rfl rfl)⟩
  split
  · exact hrefuse (.refl w)
  split
  · split
    · exact hconfirm (.refl w)
    · exact hrefuse (.refl w)
  split
  · exact hrefuse (.refl w)
  split
  · exact hrefuse (.refl w)
  case isFalse hexplicit =>
  split
  · exact hrefuse (.refl w)
  rw [Prog.steps_bind]
  have hopen : (w.mem.guarantee == .prepareCommitAbort) = true → w.mem.applyPrepared = true := by
    intro hguarantee
    by_contra hclosed
    exact hexplicit ⟨beq_iff_eq.mp hguarantee, by simpa using hclosed⟩
  refine (tallied_activate hopen).mono fun r w' hw' => ?_
  split
  · exact hrefuse hw'
  · simp only [Prog.steps_bind, steps_state]
    exact hconfirm hw'

theorem tallied_dispatch {session : Session} {m : Message} (hk : Kept w.mem) :
    (dispatch o session m).Steps allowed Any (fun _ => Tallied w) w := by
  by_cases hbooks : keepsBooks m = true
  · exact tallied_steady (.refl w) (steady_dispatch hk hbooks)
  · cases m with
    | stage m => exact tallied_onStage
    | applyPrepare m => exact tallied_onApplyPrepare
    | applyCommit m => exact tallied_onApplyCommit
    | applyAbort m => exact tallied_onApplyAbort
    | _ => exact absurd rfl hbooks

end Handlers

/-! Runs without crashes. -/

/-- An event that is handled to its end; between messages the process may be closed. -/
inductive Completed : Machine → Event → Machine → Prop
  | start {o : AgentOptions} {w w' : World} {order : List Directory} {r : Result LiveRecovery} :
      Prog.Exec (fun e => e.order = order) («open» o) w.restart (some r) w' →
      Completed ⟨w, false⟩ (.start order) ⟨w', opened (some r)⟩
  | hello {w w' : World} {m : HelloMessage} {r : Result Session} :
      Prog.Exec (fun _ => True) (acceptHello m) (w.receive (.hello m)) (some r) w' →
      Completed ⟨w, true⟩ (.hello m) ⟨w', true⟩
  | message {o : AgentOptions} {w w' : World} {session : Session} {m : Message} {r : Status} :
      m.Valid → Prog.Exec (fun _ => True) (dispatch o session m) (w.receive m) (some r) w' →
      Completed ⟨w, true⟩ (.message session m) ⟨w', true⟩
  | closed {w : World} : Completed ⟨w, true⟩ .crash ⟨w, false⟩

/-- The runs from an empty directory, with the machines before and after each event. -/
inductive Uninterrupted : List (Machine × Machine) → Machine → Prop
  | empty : Uninterrupted [] {}
  | step {steps : List (Machine × Machine)} {M M' : Machine} {e : Event} :
      Uninterrupted steps M → Completed M e M' → Uninterrupted (steps ++ [(M, M')]) M'

def Activates (s : Machine × Machine) : Prop := s.2.world.switched ≠ s.1.world.switched

def CountsOnce (s : Machine × Machine) : Prop :=
  Activates s → s.2.world.mem.activations = s.1.world.mem.activations + 1

/-- The counter is the same once the store has been closed and opened again. -/
def Outlives (M : Machine) : Prop := M.world.restart.mem.activations = M.world.mem.activations

section Runs

variable {M M' : Machine} {e : Event} {steps : List (Machine × Machine)}

theorem activations_reckoned (f : Files) (directories : List Directory) (l : Ledger) :
    (reckoned f directories l).1.activations = l.activations := by
  have hresolve (l : Ledger) : l.resolve.activations = l.activations := by
    rw [Ledger.resolve]
    split
    · rfl
    · rfl
  have hvisits (pointers : List (Option PointerValue)) (x : Ledger × Bool) :
      (pointers.foldl visit x).1.activations = x.1.activations := by
    induction pointers generalizing x with
    | nil => rfl
    | cons pointer pointers ih =>
      rw [List.foldl_cons, ih, visit]
      split
      · exact hresolve _
      · exact hresolve _
  rw [reckoned, concluded]
  split
  · exact (hresolve _).trans (hvisits _ _)
  · exact hvisits _ _

/-- An event that activates counts as `activated` says, any other leaves both counters at what memory had or the
journal. -/
theorem tallied_step (ho : Ordered M.world) (hstep : Completed M e M') :
    Tallied M.world M'.world ∨
      M'.world.switched = M.world.switched ∧ tally M'.world = (M.world.dur.activations, M.world.dur.activations) := by
  cases hstep with
  | @start o w w' order r hexec =>
    right
    have hw : Entered (ledger w.dur) w.restart := ⟨rfl, rfl⟩
    have hdone := ((any_open (fun _ he => he) hw).exec hexec).2 r rfl
    have hentered (l : Ledger) (hl : Entered l w') : tally w' = (l.activations, l.activations) :=
      Prod.ext (congrArg Ledger.activations hl.mem) (congrArg Ledger.activations hl.dur)
    refine ⟨hdone.switched, ?_⟩
    cases r with
    | error e => exact hentered _ (hdone.refused e rfl)
    | ok recovery =>
      rw [hentered _ (hdone.opened recovery rfl).1, activations_reckoned]
      rfl
  | @hello w w' m r hexec =>
    left
    exact ((tallied_steady (Tallied.refl (w.receive (.hello m))) steady_acceptHello).exec hexec).2 r rfl
  | @message o w w' session m r hvalid hexec =>
    left
    exact ((tallied_dispatch (w := w.receive m) (ho.tables.receive hvalid).mem.kept).exec hexec).2 r rfl
  | closed => exact .inl (.refl _)

theorem Completed.step (h : Completed M e M') : ∃ o, Step o (fun _ => True) M e M' := by
  cases h with
  | @start o w w' order r hexec => exact ⟨o, .start (hexec.mono fun _ he => ⟨trivial, he⟩)⟩
  | hello hexec => exact ⟨{ target := [] }, .hello hexec⟩
  | @message o w w' session m r hvalid hexec => exact ⟨o, .message hvalid hexec⟩
  | closed => exact ⟨{ target := [] }, .crash⟩

theorem Uninterrupted.ordered (h : Uninterrupted steps M) : Ordered M.world := by
  induction h with
  | empty => exact ordered_empty
  | step _ hstep ih =>
    obtain ⟨o, hstep⟩ := hstep.step
    exact (ordered_inductive.step ⟨ih, fun _ => trivial⟩ trivial hstep).1

theorem forall_mem_snoc {P : Machine × Machine → Prop} {s : Machine × Machine} :
    (∀ x ∈ steps ++ [s], P x) ↔ (∀ x ∈ steps, P x) ∧ P s := by
  rw [List.forall_mem_append, List.forall_mem_singleton]

/-- A run that has activated nothing has counted nothing. -/
theorem uncounted (h : Uninterrupted steps M) (hnone : ∀ s ∈ steps, ¬ Activates s) : tally M.world = (0, 0) := by
  induction h with
  | empty => rfl
  | @step steps M M' e hrun hstep ih =>
    obtain ⟨hnone, hlast⟩ := forall_mem_snoc.mp hnone
    obtain ⟨hmem, hdur⟩ := Prod.mk.inj (ih hnone)
    obtain (⟨-, hmem', hdur'⟩ | ⟨hswitched, -⟩) | ⟨-, htally⟩ := tallied_step hrun.ordered hstep
    · exact Prod.ext (hmem'.trans hmem) (hdur'.elim (·.trans hdur) (·.trans hmem))
    · exact absurd hswitched hlast
    · rw [htally, hdur]

/-- In a run without crashes every activation counts once and every reopening finds the counter as it was just where
nothing is activated. -/
theorem activations_counted_iff (h : Uninterrupted steps M) :
    (∀ s ∈ steps, CountsOnce s ∧ Outlives s.2) ↔ ∀ s ∈ steps, ¬ Activates s := by
  induction h with
  | empty => simp
  | @step steps M M' e hrun hstep ih =>
    have hwhole := hrun.step hstep
    rw [forall_mem_snoc, forall_mem_snoc, ih]
    refine and_congr_right fun hnone => ?_
    obtain ⟨hmem, hdur⟩ := Prod.mk.inj (uncounted hrun hnone)
    constructor
    · -- the first activation starts from zero in memory and in the journal
      rintro ⟨honce, houtlives⟩ hactivates
      have honce := honce hactivates
      obtain (⟨hsame, -⟩ | ⟨-, htally⟩) | ⟨hsame, -⟩ := tallied_step hrun.ordered hstep
      · exact hactivates hsame
      · rw [activated, hmem, hdur] at htally
        by_cases hopen : M.world.mem.applyPrepared = true
        · rw [if_pos hopen] at htally
          have htwice := (congrArg Prod.fst htally).symm.trans honce
          rw [hmem] at htwice
          exact absurd htwice (by decide)
        · rw [if_neg hopen] at htally
          have hlost := (congrArg Prod.snd htally).symm.trans (houtlives.trans (congrArg Prod.fst htally))
          exact absurd hlost (by decide)
      · exact hactivates hsame
    · intro hquiet
      refine ⟨fun hactivates => absurd hactivates hquiet, ?_⟩
      obtain ⟨hmem', hdur'⟩ := Prod.mk.inj (uncounted hwhole (forall_mem_snoc.mpr ⟨hnone, hquiet⟩))
      exact hdur'.trans hmem'.symm

/-! Runs on fixed inputs. -/

theorem Step.completed {o : AgentOptions} (h : Step o (fun _ => True) M e M') (hrun : M'.running = true) :
    Completed M e M' := by
  cases h with
  | @start w w' order r hexec =>
    cases r with
    | none => cases hrun
    | some r => exact .start (hexec.mono fun _ he => he.2)
  | hello hexec =>
    obtain ⟨r, rfl⟩ := Option.isSome_iff_exists.mp hrun
    exact .hello hexec
  | message hvalid hexec =>
    obtain ⟨r, rfl⟩ := Option.isSome_iff_exists.mp hrun
    exact .message hvalid hexec
  | crash => cases hrun

/-- Something has started or arrived, and the process lives. -/
def moved (M M' : Machine) : Bool :=
  M'.running && (M'.running != M.running || M'.world.received.length != M.world.received.length)

theorem completed_advance {o : AgentOptions} (h : moved M (advance o calm 200 M e) = true) :
    Completed M e (advance o calm 200 M e) := by
  have hadvance : advance o calm 200 M e = M ∨ Step o (fun _ => True) M e (advance o calm 200 M e) :=
    step_advance fun _ _ _ => ⟨trivial, trivial⟩
  rw [moved, Bool.and_eq_true] at h
  obtain heq | hstep := hadvance
  · rw [heq] at h
    simp at h
  · exact hstep.completed h.1

/-- The machines before and after each of these events. -/
def trace (o : AgentOptions) : Machine → List Event → List (Machine × Machine)
  | _, [] => []
  | M, e :: es => (M, advance o calm 200 M e) :: trace o (advance o calm 200 M e) es

theorem uninterrupted_trace {o : AgentOptions} {es : List Event} (h : Uninterrupted steps M)
    (hes : (trace o M es).all fun s => moved s.1 s.2) :
    Uninterrupted (steps ++ trace o M es) (es.foldl (advance o calm 200) M) := by
  induction es generalizing steps M with
  | nil =>
    rw [trace, List.append_nil]
    exact h
  | cons e es ih =>
    rw [trace, List.all_cons, Bool.and_eq_true] at hes
    have hnext := ih (h.step (completed_advance hes.1)) hes.2
    rwa [List.append_assoc] at hnext

theorem uninterrupted_run {o : AgentOptions} {es : List Event} (hes : (trace o {} es).all fun s => moved s.1 s.2) :
    Uninterrupted (trace o {} es) (run o es) := by
  have htrace : Uninterrupted ([] ++ trace o {} es) (run o es) := uninterrupted_trace .empty hes
  exact htrace

instance (s : Machine × Machine) : Decidable (Activates s) :=
  inferInstanceAs (Decidable (s.2.world.switched ≠ s.1.world.switched))

instance (s : Machine × Machine) : Decidable (CountsOnce s) :=
  inferInstanceAs (Decidable (Activates s → s.2.world.mem.activations = s.1.world.mem.activations + 1))

instance (M : Machine) : Decidable (Outlives M) :=
  inferInstanceAs (Decidable (M.world.restart.mem.activations = M.world.mem.activations))

/-- Up to the activation nothing is lost; the activation itself is counted twice past a window. -/
theorem staged_run_counted :
    (∀ s ∈ trace windowOptions {} openedWindow, CountsOnce s ∧ Outlives s.2) ∧
    ¬ ∀ s ∈ trace windowOptions {} (openedWindow ++ [.message {} (.applyCommit ⟨text "d", 3, Digest.ofContent [66]⟩)]),
      CountsOnce s ∧ Outlives s.2 :=
  ⟨(activations_counted_iff (uninterrupted_run (by decide +kernel))).mpr (by decide +kernel),
    mt (activations_counted_iff (uninterrupted_run (by decide +kernel))).mp (by decide +kernel)⟩

theorem atomic_activation_forgotten :
    ¬ ∀ steps M, Uninterrupted steps M → ∀ s ∈ steps, CountsOnce s ∧ Outlives s.2 := by
  intro h
  have hrun : Uninterrupted (trace { target := text "t" } {} (.start [] :: delivery (text "d") (text "k") 3 66)) _ :=
    uninterrupted_run (by decide +kernel)
  exact absurd (h _ _ hrun) (by decide +kernel)

end Runs

end Agent

end ConfigurationFabric
