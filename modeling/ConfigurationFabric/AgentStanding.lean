import ConfigurationFabric.AgentHonesty

/-! What a target runs, while its agent handles a frame, dies over it, or starts again. -/

namespace ConfigurationFabric

open LittleEndian
open Program
open Ledgers

namespace Agent

/-- What a target with one config key runs: what the pointer names, with a window that the journal has open for
something newer. -/
def standing (directory : Directory) (w : World) : Site Generation Digest :=
  let content : Content Generation Digest :=
    match pointerAt w.files.current directory with
    | some v => ⟨v.generation, v.digest⟩
    | none => ⟨0, .zero 32⟩
  { content, window := (siteOf w.dur).window.filter fun g => decide (content.generation < g) }

/-- Files and journal tell what memory does. -/
def Level (directory : Directory) (w : World) : Prop := standing directory w = siteOf w.mem

/-- What handling a frame has come to, at any point. -/
structure Underway (directory : Directory) (m : Message) (w w' : World) : Prop where
  serves : serves (standing directory w) (.message m) (standing directory w')
  sent : ∃ more, w'.sent = w.sent ++ more ∧ ∀ a ∈ more, truthful (standing directory w') (.message m) a.reply

/-- The same, where nothing is half done. -/
structure Abreast (directory : Directory) (m : Message) (w w' : World) : Prop extends Underway directory m w w' where
  level : Level directory w'

section Handlers

variable {directory : Directory} {w w' w'' : World} {m : Message} {allowed : Env → Prop} {o : AgentOptions}

theorem standing_congr (hcurrent : w'.files.current = w.files.current)
    (hwindow : (siteOf w'.dur).window = (siteOf w.dur).window) : standing directory w' = standing directory w := by
  rw [standing, standing, hcurrent, hwindow]

theorem standing_content : (standing directory w).content =
    match pointerAt w.files.current directory with
    | some v => ⟨v.generation, v.digest⟩
    | none => ⟨0, .zero 32⟩ := rfl

theorem Underway.same (hstanding : standing directory w' = standing directory w) (hsent : w'.sent = w.sent) :
    Underway directory m w w' :=
  ⟨hstanding ▸ serves_self _ _, [], by rw [hsent, List.append_nil], fun _ h => absurd h List.not_mem_nil⟩

theorem Abreast.refl (h : Level directory w) : Abreast directory m w w := ⟨.same rfl rfl, h⟩

theorem Abreast.tells (h : Abreast directory m w w') (hspoken : Says m w' w'') : Abreast directory m w w'' := by
  have hstanding : standing directory w'' = standing directory w' := standing_congr hspoken.current hspoken.window
  refine ⟨⟨hstanding ▸ h.serves, ?_⟩, hstanding.trans (h.level.trans hspoken.site.symm)⟩
  obtain ⟨more, hmore, htrue⟩ := h.sent
  obtain ⟨more', hmore', htrue'⟩ := hspoken.sent
  refine ⟨more ++ more', by rw [hmore', hmore, List.append_assoc], fun a ha => ?_⟩
  rw [hstanding]
  obtain ha | ha := List.mem_append.mp ha
  · exact htrue a ha
  · rw [show standing directory w' = siteOf w'.mem from h.level]
    exact htrue' a ha

theorem Abreast.rests (h : Abreast directory m w w') (hrests : Rests w' w'') : Abreast directory m w w'' :=
  h.tells (.same hrests.site hrests.window hrests.current hrests.sent)

theorem abreast_tells {α : Type} {p : Agent α} (hp : p.Steps allowed (Says m) (fun _ _ => True) w')
    (h : Abreast directory m w w') :
    p.Steps allowed (fun _ => Underway directory m w) (fun _ => Abreast directory m w) w' :=
  ((hp.visits (fun _ _ hspoken h => h.tells hspoken) h).mono fun _ _ h => h.2).rel_mono fun _ _ h => h.toUnderway

theorem Rests.trans (h : Rests w w') (h' : Rests w' w'') : Rests w w'' :=
  ⟨h'.site.trans h.site, h'.window.trans h.window, h'.current.trans h.current, h'.sent.trans h.sent⟩

theorem rests_putPending (d : Directory) (v : PointerValue) : Rests w (w.onFiles (·.putPending d v)) :=
  ⟨rfl, rfl, rfl, rfl⟩

theorem rests_dropPending (d : Directory) : Rests w (w.onFiles (·.dropPending d)) := ⟨rfl, rfl, rfl, rfl⟩

/-! Windows. -/

theorem abreast_onApplyPrepare {p : ApplyPrepareMessage} (hlevel : Level directory w)
    (hne : p.generation ≠ w.mem.committedGeneration) :
    (onApplyPrepare p).Steps allowed (fun _ => Underway directory (.applyPrepare p) w)
      (fun _ => Abreast directory (.applyPrepare p) w) w := by
  have hstart : Abreast directory (.applyPrepare p) w w := .refl hlevel
  have hrespond (ack : ApplyPrepareAckMessage) {w' : World} (hw' : Abreast directory (.applyPrepare p) w w') :
      (send (.applyPrepare p) (.applyPrepareAck ack)).Steps allowed (fun _ => Underway directory (.applyPrepare p) w)
        (fun _ => Abreast directory (.applyPrepare p) w) w' := abreast_tells (says_send trivial) hw'
  simp only [onApplyPrepare, Prog.steps_bind, steps_state]
  split
  · exact hrespond _ hstart
  split
  · exact hrespond _ hstart
  next c hfind =>
    split
    · exact hrespond _ hstart
    next hstale =>
    split
    · exact hrespond _ hstart
    next hcontent =>
    split
    · exact hrespond _ hstart
    have hgeneration : p.generation = c.generation := not_not.mp (not_or.mp hcontent).2
    have hle : w.mem.committedGeneration ≤ p.generation := by
      rw [stale, Bool.and_eq_true, not_and, decide_eq_true_eq, decide_eq_true_eq] at hstale
      by_cases hzero : w.mem.committedGeneration = 0
      · rw [hzero]
        exact Nat.zero_le _
      · exact not_lt.mp (hstale hzero)
    have hcommitted : (standing directory w).content.generation = w.mem.committedGeneration :=
      congrArg (fun x => x.content.generation) hlevel
    have hlt : (standing directory w).content.generation < p.generation := hcommitted ▸ lt_of_le_of_ne hle hne.symm
    have hopened {w₁ : World} (h₁ : Rests w w₁) : Abreast directory (.applyPrepare p) w
        (w₁.commit (.applyPrepared c.deployment c.generation c.digest)) := by
      have hsame : (standing directory w₁).content = (standing directory w).content :=
        congrArg Site.content (standing_congr h₁.current h₁.window)
      have hopen : standing directory (w₁.commit (.applyPrepared c.deployment c.generation c.digest)) =
          { standing directory w with window := some p.generation } := by
        refine congrArg₂ Site.mk hsame ?_
        change Option.filter (fun g => decide ((standing directory w₁).content.generation < g)) (some c.generation) = _
        rw [hsame, ← hgeneration, Option.filter_some, if_pos (decide_eq_true hlt)]
      refine ⟨⟨hopen ▸ .inr ⟨hlt.le, rfl⟩, [], ?_, fun _ h => absurd h List.not_mem_nil⟩, ?_⟩
      · exact h₁.sent.trans (List.append_nil _).symm
      · rw [Level, hopen, show standing directory w = siteOf w.mem from hlevel, hgeneration]
        exact congrArg (fun x => Site.mk x.content (some c.generation)) h₁.site.symm
    rw [Prog.steps_bind, openWindow, Prog.steps_bind]
    refine steps_writeFileAtomic ?_ ?_ (fun _ => hrespond _ hstart) fun _ => ⟨?_, ?_, ?_, fun _ => ?_⟩
    · exact (hstart.rests (rests_putPending _ _)).toUnderway
    · exact ⟨(hopened (rests_putPending _ _)).toUnderway, hrespond _ (hopened (rests_putPending _ _))⟩
    · exact (hstart.rests (rests_dropPending _)).toUnderway
    · exact (hstart.rests ((rests_dropPending _).trans (rests_putPending _ _))).toUnderway
    · have hagain (v : PointerValue) :=
        hopened ((rests_dropPending (liveKeyDirectory c.key)).trans (rests_putPending (liveKeyDirectory c.key) v))
      exact ⟨(hagain _).toUnderway, hrespond _ (hagain _)⟩
    · exact hrespond _ (hstart.rests (rests_dropPending _))

theorem abreast_onApplyAbort {p : ApplyAbortMessage} (hlevel : Level directory w) :
    (onApplyAbort p).Steps allowed (fun _ => Underway directory (.applyAbort p) w)
      (fun _ => Abreast directory (.applyAbort p) w) w := by
  have hstart : Abreast directory (.applyAbort p) w w := .refl hlevel
  have hrespond (ack : ApplyAbortAckMessage) {w' : World} (hw' : Abreast directory (.applyAbort p) w w') :
      (send (.applyAbort p) (.applyAbortAck ack)).Steps allowed (fun _ => Underway directory (.applyAbort p) w)
        (fun _ => Abreast directory (.applyAbort p) w) w' := abreast_tells (says_send trivial) hw'
  have hclosed {w₁ : World} {n : ℕ} (h₁ : Rests w w₁) :
      Abreast directory (.applyAbort p) w (w₁.commit (.applyResolved n)) := by
    have hclose : standing directory (w₁.commit (.applyResolved n)) = { standing directory w with window := none } :=
      congrArg (fun x => Site.mk x.content none) (standing_congr h₁.current h₁.window)
    refine ⟨⟨hclose ▸ .inr rfl, [], ?_, fun _ h => absurd h List.not_mem_nil⟩, ?_⟩
    · exact h₁.sent.trans (List.append_nil _).symm
    · rw [Level, hclose, show standing directory w = siteOf w.mem from hlevel]
      exact congrArg (fun x => Site.mk x.content none) h₁.site.symm
  have hrollback {w₁ : World} (h₁ : Rests w w₁) : (do
      setState fun s => { s with applyRollbacks := increment s.applyRollbacks }
      commit (rollbackPayload (← state))
      commit (.applyResolved (← state).activations)
      send (.applyAbort p) (.applyAbortAck { deployment := p.deployment, aborted := true, code := .ok }) :
        Agent Status).Steps allowed (fun _ => Underway directory (.applyAbort p) w)
          (fun _ => Abreast directory (.applyAbort p) w) w₁ := by
    have hcounted : Rests w { w₁ with mem := { w₁.mem with applyRollbacks := increment w₁.mem.applyRollbacks } } :=
      h₁.trans ⟨rfl, rfl, rfl, rfl⟩
    have hnoted (r : AgentState) : Rests w
        ({ w₁ with mem := { w₁.mem with applyRollbacks := increment w₁.mem.applyRollbacks } }.commit
          (rollbackPayload r)) := hcounted.trans ⟨rfl, rfl, rfl, rfl⟩
    simp only [Prog.steps_bind, steps_setState, steps_state, steps_commit]
    refine ⟨(hstart.rests hcounted).toUnderway, (hstart.rests (hnoted _)).toUnderway, ?_, ?_⟩
    · exact (hclosed (hnoted _)).toUnderway
    · exact hrespond _ (hclosed (hnoted _))
  simp only [onApplyAbort, Prog.steps_bind, steps_state]
  split
  · exact hrespond _ hstart
  split
  · exact hrespond _ hstart
  split
  · rw [Prog.steps_bind]
    refine steps_remove (hstart.rests (rests_dropPending _)).toUnderway ?_ ?_
    · exact hrollback (rests_dropPending _)
    · exact hrollback ⟨rfl, rfl, rfl, rfl⟩
  · exact hrollback ⟨rfl, rfl, rfl, rfl⟩

/-! Commits: the switch of the pointer is the moment at which the target moves. -/

variable {c : TransferRecord}

/-- The pointer names the record's content, and the journal has no window for anything newer. -/
structure Landed (directory : Directory) (c : TransferRecord) (w : World) : Prop where
  pointer : pointerAt w.files.current directory = some c.pointer
  window : ∀ g ∈ (siteOf w.dur).window, g ≤ c.generation

theorem Landed.standing (h : Landed directory c w) :
    standing directory w = { content := ⟨c.generation, c.digest⟩ } := by
  rw [Agent.standing, h.pointer]
  refine congrArg (Site.mk _) (Option.filter_eq_none_iff.mpr fun g hg hlt => ?_)
  exact absurd (of_decide_eq_true hlt) (not_lt.mpr (h.window g hg))

theorem Landed.rests (h : Landed directory c w) (hrests : Rests w w') : Landed directory c w' :=
  ⟨hrests.current ▸ h.pointer, hrests.window ▸ h.window⟩

/-- The pointer has been switched, and nothing has been said yet. -/
def Switching (directory : Directory) (c : TransferRecord) (w w' : World) : Prop :=
  Landed directory c w' ∧ w'.sent = w.sent

theorem Switching.rests (h : Switching directory c w w') (hrests : Rests w' w'') : Switching directory c w w'' :=
  ⟨h.1.rests hrests, hrests.sent.trans h.2⟩

theorem switching_commitGeneration (h : Switching directory c w w') :
    (commitGeneration c).Steps allowed (fun _ => Switching directory c w) (fun _ => Switching directory c w) w' := by
  have hrecord {w₁ : World} (h₁ : Switching directory c w w₁) : (recordActivation c).Steps allowed
      (fun _ => Switching directory c w) (fun _ => Switching directory c w) w₁ := by
    simp only [recordActivation, Prog.steps_bind, steps_commit, steps_now, steps_setState, steps_state]
    have hlater {w₂ : World} (hcurrent : w₂.files.current = w₁.files.current)
        (hwindow : (siteOf w₂.dur).window = (siteOf w₁.dur).window) (hsent : w₂.sent = w₁.sent) :
        Switching directory c w w₂ := ⟨⟨hcurrent ▸ h₁.1.pointer, hwindow ▸ h₁.1.window⟩, hsent.trans h₁.2⟩
    exact ⟨hlater rfl rfl rfl, fun e _ => ⟨hlater rfl rfl rfl, hlater rfl rfl rfl, hlater rfl rfl rfl,
      hlater rfl rfl rfl⟩⟩
  simp only [commitGeneration, Prog.steps_bind, steps_state]
  split
  · rw [Prog.steps_bind]
    have hresolved (n : ℕ) : Switching directory c w (w'.commit (.applyResolved n)) :=
      ⟨⟨h.1.pointer, fun g hg => by cases hg⟩, h.2⟩
    exact ⟨hresolved _, hrecord (hresolved _)⟩
  · exact hrecord h

/-- What an activation has come to, at any point. -/
def Activating (directory : Directory) (c : TransferRecord) (w w' : World) : Prop :=
  Rests w w' ∨ Switching directory c w w'

theorem activating_activate {explicitPrepare : Bool} (hcalm : ¬ Failing allowed)
    (hopen : explicitPrepare = true → w.mem.applyPrepared = true) (hswitch : Landed directory c (w.switch c)) :
    (activate o c explicitPrepare).Steps allowed (fun _ => Activating directory c w)
      (fun r w' => (∃ e, r = .error e) ∧ Rests w w' ∨ r = .ok () ∧ Switching directory c w w' ∧ Commits c w w') w := by
  have hnone : (explicitPrepare && !w.mem.applyPrepared) = false := by
    cases explicitPrepare with
    | false => rfl
    | true => rw [hopen rfl]; rfl
  have hcommit {w₁ : World} (h₁ : Switching directory c w w₁) : (do
      commitGeneration c
      prunePayloads o c.key
      return .ok () : Agent Status).Steps allowed (fun _ => Activating directory c w)
        (fun r w' => (∃ e, r = .error e) ∧ Rests w w' ∨ r = .ok () ∧ Switching directory c w w' ∧ Commits c w w') w₁ := by
    rw [Prog.steps_bind]
    have hrecorded : (commitGeneration c).Steps allowed (fun s t => Switching directory c w t ∧ Any s t)
        (fun _ t => Switching directory c w t ∧ Commits c w₁ t) w₁ :=
      (switching_commitGeneration h₁).and commits_commitGeneration
    refine (hrecorded.mono fun _ w₂ h₂ => ?_).rel_mono fun _ _ h => .inr h.1
    obtain ⟨hswitching, hsite, hsent⟩ := h₂
    rw [Prog.steps_bind]
    have hrests : (prunePayloads o c.key).Steps allowed Rests (fun _ _ => True) w₂ := rests_prunePayloads
    have hpruned := hrests.visits (P := fun t => Switching directory c w t ∧ Commits c w t)
      (fun _ _ hrests h => ⟨h.1.rests hrests, hrests.site.trans h.2.1, hrests.sent.trans h.2.2⟩)
      ⟨hswitching, hsite, hsent.trans h₁.2⟩
    exact (hpruned.mono fun _ _ h => .inr ⟨rfl, h.2⟩).rel_mono fun _ _ h => .inr h.1
  simp only [activate, Prog.steps_bind, steps_state, hnone, Bool.false_eq_true, if_false, Prog.steps_pure]
  refine steps_writeFileAtomic (.inr ⟨hswitch, rfl⟩) ?_ (fun e => .inl ⟨⟨e, rfl⟩, rfl, rfl, rfl, rfl⟩)
    fun hfailing => absurd hfailing hcalm
  dsimp only
  split
  · rw [Prog.steps_bind]
    have hdropped : Switching directory c w ((w.switch c).onFiles (·.dropPending (liveKeyDirectory c.key))) :=
      ⟨hswitch.rests (rests_dropPending _), rfl⟩
    exact steps_remove (.inr hdropped) (hcommit hdropped) (hcommit ⟨hswitch, rfl⟩)
  · exact hcommit ⟨hswitch, rfl⟩

end Handlers

/-! The invariant of an agent whose deliveries are all of one key, and each of one content. -/

section Housed

variable {key : ConfigKey} {content : DeploymentId → Content Generation Digest} {w w' : World} {s : AgentState}
  {c : TransferRecord} {allowed : Env → Prop} {o : AgentOptions}

structure Sober (content : DeploymentId → Content Generation Digest) (s : AgentState) : Prop where
  window : s.applyPrepared = true → (content s.preparedDeployment).generation = s.preparedGeneration
  blank : s.committedGeneration = 0 → s.committedDigest = .zero 32

structure Housed (key : ConfigKey) (content : DeploymentId → Content Generation Digest) (w : World) : Prop where
  fenced : Fenced w
  asked : ∀ p, Message.prepare p ∈ w.received → p.key = key ∧ content p.deployment = ⟨p.generation, p.digest⟩
  mem : Sober content w.mem
  dur : Sober content w.dur

/-- What a record says of a window and of the content fits. -/
def SoberRecord (content : DeploymentId → Content Generation Digest) : AgentRecord → Prop
  | .applyPrepared deployment generation _ => (content deployment).generation = generation
  | .targetCommit generation digest _ => generation = 0 → digest = .zero 32
  | _ => True

theorem Sober.apply {r : AgentRecord} (h : Sober content s) (hr : SoberRecord content r) : Sober content (r.apply s) := by
  cases r with
  | applyPrepared => exact ⟨fun _ => hr, h.blank⟩
  | applyResolved => exact ⟨fun hopen => (by cases hopen), h.blank⟩
  | targetCommit => exact ⟨h.window, hr⟩
  | _ => exact ⟨h.window, h.blank⟩

theorem Sober.congr {s' : AgentState} (h : Sober content s) (hprepared : s'.applyPrepared = s.applyPrepared)
    (hdeployment : s'.preparedDeployment = s.preparedDeployment)
    (hgeneration : s'.preparedGeneration = s.preparedGeneration)
    (hcommitted : s'.committedGeneration = s.committedGeneration) (hdigest : s'.committedDigest = s.committedDigest) :
    Sober content s' := by
  constructor
  · rw [hprepared, hdeployment, hgeneration]
    exact h.window
  · rw [hcommitted, hdigest]
    exact h.blank

theorem Housed.record (h : Housed key content w) (hc : Holds w c) :
    c.key = key ∧ content c.deployment = ⟨c.generation, c.digest⟩ ∧ c.generation ≠ 0 := by
  obtain ⟨p, hp, hdeployment, hkey, -, hgeneration, hdigest, -⟩ := (h.fenced.tables.holds hc).requested
  obtain ⟨hasked, hcontent⟩ := h.asked p hp
  have hvalid : (Message.prepare p).Valid := h.fenced.tables.valid _ hp
  rw [← hkey, ← hdeployment, ← hgeneration, ← hdigest]
  exact ⟨hasked, hcontent, hvalid.2.2.2.1⟩

theorem Housed.directory (h : Housed key content w) {directory : Directory} {v : PointerValue}
    (hv : w.files.current.lookup directory = some (.pointer v)) : directory = liveKeyDirectory key := by
  obtain ⟨-, q, -, hq, hdirectory, -⟩ := h.fenced.pointers directory _ hv
  rw [hdirectory, (h.asked q hq).1]

/-- What the pointer names is what an agent that is up has on record. -/
theorem Housed.agrees (h : Housed key content w) (hguarded : Guarded w) :
    (standing (liveKeyDirectory key) w).content = (siteOf w.mem).content := by
  rw [standing_content]
  split
  next v hv =>
    have hlookup := mem_pointerAt.mp hv
    have hle : v.generation ≤ w.mem.committedGeneration := hguarded _ v hlookup
    have hne : w.mem.committedGeneration ≠ 0 := by
      intro hzero
      exact h.fenced.pointer_ne_zero hlookup (Nat.le_zero.mp (hzero ▸ hle))
    obtain ⟨directory, v', hv', hpast⟩ := h.fenced.mem.committed hne
    rw [h.directory hv', hlookup] at hv'
    cases hv'
    obtain hlt | ⟨hgeneration, hdigest⟩ := hpast
    · exact absurd hle (not_le.mpr hlt)
    · exact congrArg₂ Content.mk hgeneration hdigest
  next hnone =>
    have hzero : w.mem.committedGeneration = 0 := by
      by_contra hne
      obtain ⟨directory, v, hv, -⟩ := h.fenced.mem.committed hne
      rw [h.directory hv] at hv
      rw [mem_pointerAt.mpr hv] at hnone
      cases hnone
    exact congrArg₂ Content.mk hzero.symm (h.mem.blank hzero).symm

/-- With no window on record, files and journal tell what memory does. -/
theorem Housed.level (h : Housed key content w) (hguarded : Guarded w) (hmem : (siteOf w.mem).window = none)
    (hdur : (siteOf w.dur).window = none) : Level (liveKeyDirectory key) w := by
  have hwindow : (standing (liveKeyDirectory key) w).window = none := by
    change Option.filter _ (siteOf w.dur).window = none
    rw [hdur]
    rfl
  exact congrArg₂ Site.mk (h.agrees hguarded) (hwindow.trans hmem.symm)

theorem Housed.commit (h : Housed key content w) {r : AgentRecord} (hr : SoberRecord content r) :
    Sober content (w.commit r).mem ∧ Sober content (w.commit r).dur := ⟨h.mem.apply hr, h.dur.apply hr⟩

theorem Housed.quiet (h : Housed key content w) (hq : Quiet w w') : Sober content w'.mem ∧ Sober content w'.dur := by
  cases hq with
  | prepared hc =>
    refine h.commit ?_
    exact congrArg Content.generation (h.record hc).2.1
  | note | resolved | fence | begun | progressed | verified | staged | removed =>
    exact h.commit (by trivial)
  | count | remembered => exact ⟨h.mem.congr rfl rfl rfl rfl rfl, h.dur⟩
  | answer | counter | unstaged | written | copying | placed | pruned | marked | unmarked => exact ⟨h.mem, h.dur⟩

theorem Housed.handled {failing : Prop} (hcalm : ¬ failing) (h : Housed key content w)
    (hstep : AStep failing Guarded w w') : Housed key content w' := by
  have hsober : Sober content w'.mem ∧ Sober content w'.dur := by
    cases hstep with
    | quiet _ hq => exact h.quiet hq
    | resolved | found => exact h.commit (by trivial)
    | settled hc =>
      refine h.commit fun hzero => ?_
      exact absurd hzero (h.record hc).2.2
    | unmarked | switched | lost => exact ⟨h.mem, h.dur⟩
  exact ⟨h.fenced.handled hcalm hstep, hstep.received ▸ h.asked, hsober.1, hsober.2⟩

theorem Housed.recovered (h : Housed key content w) (hstep : RStep w w') : Housed key content w' := by
  have hsober : Sober content w'.mem ∧ Sober content w'.dur := by
    cases hstep with
    | quiet hq _ => exact h.quiet hq
    | checkpointed | identified => exact h.commit (by trivial)
    | adopted hv =>
      refine h.commit fun hzero => ?_
      exact absurd hzero (h.fenced.pointer_ne_zero hv)
    | cleared =>
      refine h.commit fun _ => ?_
      rfl
    | resized | dropped => exact ⟨h.mem, h.dur⟩
  exact ⟨h.fenced.recovered hstep, hstep.received ▸ h.asked, hsober.1, hsober.2⟩

/-- What an event has to meet: a start ends its walk at the newest pointer, whose payload can be verified, and deliveries
are of the target's key, each of one content. -/
def Suits (o : AgentOptions) (key : ConfigKey) (content : DeploymentId → Content Generation Digest) (w : World) :
    Event → Prop
  | .start order => EndsAtNewest order w ∧ EndsVerifiable o order w.files
  | .message _ (.prepare p) => p.key = key ∧ content p.deployment = ⟨p.generation, p.digest⟩
  | _ => True

theorem housed_empty : Housed key content {} where
  fenced := fenced_empty
  asked := by simp
  mem := ⟨by simp, fun _ => rfl⟩
  dur := ⟨by simp, fun _ => rfl⟩

theorem Housed.receive (h : Housed key content w) {m : Message} (hm : m.Valid)
    (hasked : ∀ p, m = .prepare p → p.key = key ∧ content p.deployment = ⟨p.generation, p.digest⟩) :
    Housed key content (w.receive m) := by
  refine ⟨h.fenced.receive hm, fun p hp => ?_, h.mem, h.dur⟩
  obtain hp | hp := List.mem_append.mp hp
  · exact h.asked p hp
  · exact hasked p (List.mem_singleton.mp hp).symm

theorem housed_inductive : Inductive o Calm (Suits o key content) (Housed key content) Guarded where
  empty := housed_empty
  kept h := ⟨h.fenced.tables.mem.kept, h.fenced.tables.dur.kept⟩
  readable h := h.fenced.readable
  restart h := ⟨h.fenced.restart, h.asked, h.dur, h.dur⟩
  hello h hg := ⟨h.receive trivial fun _ heq => (by cases heq), hg⟩
  receive hmeets hm h hg := ⟨h.receive hm fun p heq => by subst heq; exact hmeets, hg⟩
  handled hstep h := h.handled not_failing_calm hstep
  recovered hstep h := h.recovered hstep
  stable := guarded_stable _
  started hmeets _ _ hdone := hdone.guarded not_failing_calm hmeets.1 hmeets.2

/-! Every frame, wherever the agent is cut. -/

theorem landed_switch (h : Housed key content w) (hlevel : Level (liveKeyDirectory key) w) (hc : Holds w c)
    (hfresh : Fresh w.mem c.generation)
    (hsame : w.mem.applyPrepared = true → w.mem.preparedDeployment = c.deployment) :
    Landed (liveKeyDirectory key) c (w.switch c) := by
  obtain ⟨hkey, hcontent, hne⟩ := h.record hc
  constructor
  · apply mem_pointerAt.mpr
    change (w.files.putCurrent (liveKeyDirectory c.key) c.pointer).current.lookup (liveKeyDirectory key) = _
    rw [lookup_putCurrent, hkey, if_pos rfl]
  · intro g hg
    have hcommitted : (standing (liveKeyDirectory key) w).content.generation = w.mem.committedGeneration :=
      congrArg (fun x => x.content.generation) hlevel
    have hlt : w.mem.committedGeneration < c.generation := by
      obtain hzero | hlt := hfresh
      · exact hzero ▸ Nat.pos_of_ne_zero hne
      · exact hlt
    have hdur : (siteOf w.dur).window = some g := hg
    by_cases hpast : w.mem.committedGeneration < g
    · have hwindow : (siteOf w.mem).window = some g := by
        rw [← congrArg Site.window hlevel]
        change Option.filter (fun g => decide ((standing (liveKeyDirectory key) w).content.generation < g)) _ = _
        rw [hdur, Option.filter_some, hcommitted, if_pos (decide_eq_true hpast)]
      rw [siteOf] at hwindow
      dsimp only at hwindow
      split at hwindow
      next hopen =>
        have hgeneration := h.mem.window hopen
        rw [hsame hopen, hcontent] at hgeneration
        exact (hgeneration.trans (Option.some.inj hwindow)).ge
      · cases hwindow
    · exact (not_lt.mp hpast).trans hlt.le

theorem abreast_onApplyCommit {session : Session} {p : ApplyCommitMessage} (hcalm : ¬ Failing allowed)
    (h : Housed key content w) (hguarded : Guarded w) (hlevel : Level (liveKeyDirectory key) w)
    (hvalid : p.generation ≠ 0) :
    (onApplyCommit o session p).Steps allowed (fun _ => Underway (liveKeyDirectory key) (.applyCommit p) w)
      (fun _ => Abreast (liveKeyDirectory key) (.applyCommit p) w) w := by
  have hstart : Abreast (liveKeyDirectory key) (.applyCommit p) w w := .refl hlevel
  have hrefuse {ack : ApplyCommitAckMessage} {key' : ConfigKey} {detail : String} {w' : World}
      (hack : ack.committed = false) (hw' : Abreast (liveKeyDirectory key) (.applyCommit p) w w') :
      (refuseCommit p ack key' detail).Steps allowed (fun _ => Underway (liveKeyDirectory key) (.applyCommit p) w)
        (fun _ => Abreast (liveKeyDirectory key) (.applyCommit p) w) w' := abreast_tells (says_refuseCommit hack) hw'
  have hcounted {s : AgentState} (hs : siteOf s = siteOf w.mem) : Rests w { w with mem := s } := ⟨hs, rfl, rfl, rfl⟩
  have hnoted {s s' : AgentState} (hs : siteOf s = siteOf w.mem) :
      Rests w ({ w with mem := s }.commit (rollbackPayload s')) := ⟨hs, rfl, rfl, rfl⟩
  simp only [onApplyCommit, Prog.steps_bind, steps_state]
  split
  · simp only [Prog.steps_bind, steps_setState, steps_state, steps_commit]
    refine ⟨(hstart.rests (hcounted (by rfl))).toUnderway, (hstart.rests (hnoted (by rfl))).toUnderway, ?_⟩
    exact hrefuse rfl (hstart.rests (hnoted (by rfl)))
  next hstale =>
  split
  next hsame =>
    have hcontent : (siteOf w.mem).content = ⟨p.generation, p.digest⟩ :=
      congrArg₂ Content.mk hsame.2.1.symm hsame.2.2.symm
    simp only [Prog.steps_bind, steps_setState, steps_state, steps_commit]
    refine ⟨(hstart.rests (hcounted (by rfl))).toUnderway, (hstart.rests (hnoted (by rfl))).toUnderway, ?_⟩
    exact abreast_tells (says_confirmCommit hcontent rfl) (hstart.rests (hnoted (by rfl)))
  next hsame =>
  split
  · exact hrefuse rfl hstart
  next hconflict =>
  have hfresh := fresh_of hstale hsame hconflict
  split
  · split
    next hany =>
      obtain ⟨f, hf, hmatch⟩ := List.any_eq_true.mp hany
      simp only [Bool.and_eq_true, beq_iff_eq] at hmatch
      exact (h.fenced.not_fresh hguarded hfresh hf hmatch.1.1).elim
    · exact hrefuse rfl hstart
  next c hfind =>
  split
  · exact hrefuse rfl hstart
  next hcontent =>
  obtain ⟨hdigest, hgeneration⟩ := not_or.mp hcontent
  rw [not_not] at hdigest hgeneration
  split
  · exact hrefuse rfl hstart
  next hexplicit =>
  split
  · exact hrefuse rfl hstart
  next hother =>
  have hopen : (w.mem.guarantee == .prepareCommitAbort) = true → w.mem.applyPrepared = true := by
    intro hguarantee
    by_contra hclosed
    exact hexplicit ⟨eq_of_beq hguarantee, by rw [Bool.not_eq_true] at hclosed; rw [hclosed]; rfl⟩
  have hfound := (Option.filter_eq_some_iff.mp hfind).1
  have hdeployment : c.deployment = p.deployment := (h.fenced.tables.mem.find hfound).2
  have hc : Holds w c := h.fenced.tables.mem.kept.holds hfound
  have hlt : w.mem.committedGeneration < p.generation := by
    obtain hzero | hlt := hfresh
    · rw [hzero]
      exact Nat.pos_of_ne_zero hvalid
    · exact hlt
  have hswitch : Landed (liveKeyDirectory key) c (w.switch c) := by
    refine landed_switch h hlevel hc (hgeneration ▸ hfresh) fun hprepared => ?_
    by_contra hne
    exact hother ⟨hprepared, hdeployment ▸ hne⟩
  -- once the pointer is switched, the target runs what the commit names
  have hmoved {w' : World} (hw' : Switching (liveKeyDirectory key) c w w') :
      Underway (liveKeyDirectory key) (.applyCommit p) w w' := by
    refine ⟨.inr ⟨?_, ?_⟩, [], by rw [hw'.2, List.append_nil], fun _ h => absurd h List.not_mem_nil⟩
    · rw [show standing (liveKeyDirectory key) w = siteOf w.mem from hlevel]
      exact hlt
    · rw [hw'.1.standing, hgeneration, hdigest]
  rw [Prog.steps_bind]
  refine ((activating_activate hcalm hopen hswitch).mono ?_).rel_mono ?_
  · rintro r w' (⟨⟨e, rfl⟩, hrests⟩ | ⟨rfl, hswitching, hsite, hsent⟩)
    · exact hrefuse rfl (hstart.rests hrests)
    · have habreast : Abreast (liveKeyDirectory key) (.applyCommit p) w w' :=
        ⟨hmoved hswitching, hswitching.1.standing.trans hsite.symm⟩
      rw [← hgeneration, ← hdigest] at hsite
      simp only [Prog.steps_bind, steps_state]
      exact abreast_tells (says_confirmCommit (congrArg Site.content hsite) rfl) habreast
  · rintro _ w' (hrests | hswitching)
    · exact (hstart.rests hrests).toUnderway
    · exact hmoved hswitching

theorem abreast_dispatch {session : Session} {m : Message} (hcalm : ¬ Failing allowed) (h : Housed key content w)
    (hguarded : Guarded w) (hlevel : Level (liveKeyDirectory key) w) (hvalid : m.Valid)
    (hwindow : ∀ p, m = .applyPrepare p → p.generation ≠ w.mem.committedGeneration) :
    (dispatch o session m).Steps allowed (fun _ => Underway (liveKeyDirectory key) m w)
      (fun _ => Abreast (liveKeyDirectory key) m w) w := by
  have hspeaks {p : Agent Status} (hp : p.Steps allowed (Says m) (fun _ _ => True) w) :
      p.Steps allowed (fun _ => Underway (liveKeyDirectory key) m w) (fun _ => Abreast (liveKeyDirectory key) m w) w :=
    abreast_tells hp (.refl hlevel)
  cases m with
  | prepare p => exact hspeaks (says_onPrepare h.fenced hguarded)
  | chunk p => exact hspeaks says_onChunk
  | transferComplete p => exact hspeaks says_onTransferComplete
  | stage p => exact hspeaks says_onStage
  | applyPrepare p => exact abreast_onApplyPrepare hlevel (hwindow p rfl)
  | applyCommit p => exact abreast_onApplyCommit hcalm h hguarded hlevel hvalid.2
  | applyAbort p => exact abreast_onApplyAbort hlevel
  | reconcileRequest p => exact hspeaks (says_onReconcileRequest h.fenced hguarded)
  | retire p => exact hspeaks says_onRetire
  | ping nonce => exact hspeaks (says_send trivial)
  | goodbye | hello _ | unexpected => exact .refl hlevel

end Housed

/-! Start-up: windows are rolled back, and nothing else shows. -/

section Startup

variable {w w' : World} {allowed : Env → Prop} {o : AgentOptions}

def Shut (w : World) : Prop := (siteOf w.mem).window = none ∧ (siteOf w.dur).window = none

/-- Updates that leave the windows as they are, or none at all. -/
def Dwindles (w w' : World) : Prop :=
  (siteOf w'.mem).window = (siteOf w.mem).window ∧ (siteOf w'.dur).window = (siteOf w.dur).window ∨ Shut w'

/-- All that the program updates dwindles, wherever it starts. -/
abbrev Wanes {α : Type} (allowed : Env → Prop) (p : Agent α) : Prop :=
  ∀ w, p.Steps allowed Dwindles (fun _ _ => True) w

theorem wanes_pure {α : Type} (a : α) : Wanes allowed (pure a : Agent α) := fun _ => trivial

theorem wanes_bind {α β : Type} {p : Agent α} {f : α → Agent β} (hp : Wanes allowed p)
    (hf : ∀ a, Wanes allowed (f a)) : Wanes allowed (p >>= f) := fun w => by
  rw [Prog.steps_bind]
  exact (hp w).mono fun a w' _ => hf a w'

theorem wanes_read : Wanes allowed (Prog.read : Agent World) := fun _ => trivial

theorem wanes_state : Wanes allowed state := fun _ => trivial

theorem wanes_succeeds : Wanes allowed succeeds := fun _ _ _ => trivial

theorem wanes_setFiles (f : Files → Files) : Wanes allowed (setFiles f) := fun _ => ⟨.inl ⟨rfl, rfl⟩, trivial⟩

theorem wanes_remove (f : Files → Files) : Wanes allowed (remove f) := fun _ =>
  steps_remove (.inl ⟨rfl, rfl⟩) trivial trivial

theorem wanes_resolved (n : ℕ) : Wanes allowed (commit (.applyResolved n)) := fun _ => ⟨.inr ⟨rfl, rfl⟩, trivial⟩

theorem wanes_commit {r : AgentRecord} (h : ∀ s : AgentState, (siteOf (r.apply s)).window = (siteOf s).window) :
    Wanes allowed (commit r) := fun _ => ⟨.inl ⟨h _, h _⟩, trivial⟩

theorem wanes_removeUnknownStaging {known : List DeploymentId} {paths : List Directory} {recovery : LiveRecovery} :
    Wanes allowed (removeUnknownStaging known paths recovery) := by
  fun_induction removeUnknownStaging known paths recovery with
  | case1 => exact wanes_pure _
  | case2 name paths recovery hknown ih => exact ih
  | case3 name paths recovery hunknown ihdone ihkept =>
    refine wanes_bind wanes_succeeds fun ok => ?_
    split
    · exact wanes_bind (wanes_setFiles _) fun _ => ihdone
    · exact ihkept
  | case4 name paths recovery hname ih => exact ih

theorem wanes_fitTransfers : ∀ rs : List TransferRecord, Wanes allowed (fitTransfers rs)
  | [] => wanes_pure _
  | r :: rs => by
    have hrest (f : List DeploymentId × List TransferRecord → List DeploymentId × List TransferRecord) :
        Wanes allowed (do return f (← fitTransfers rs)) := wanes_bind (wanes_fitTransfers rs) fun _ => wanes_pure _
    rw [fitTransfers]
    refine wanes_bind wanes_read fun w₁ => ?_
    split
    · exact hrest _
    split
    · exact hrest _
    split
    · refine wanes_bind wanes_succeeds fun ok => ?_
      split
      · exact wanes_bind (fun _ => ⟨.inl ⟨rfl, rfl⟩, trivial⟩) fun _ => hrest _
      · exact hrest _
    · exact wanes_fitTransfers rs

theorem wanes_destroyTransfers : ∀ discard : List DeploymentId, Wanes allowed (destroyTransfers discard)
  | [] => wanes_pure _
  | d :: rest => by
    have hdestroy : Wanes allowed (destroyTransfer d) := by
      refine wanes_bind (wanes_remove _) fun _ => wanes_bind wanes_state fun s => ?_
      split
      · exact wanes_commit fun _ => rfl
      · exact wanes_pure _
    exact wanes_bind hdestroy fun _ => wanes_destroyTransfers rest

theorem wanes_checkpointTransfers : ∀ rs : List TransferRecord, Wanes allowed (checkpointTransfers rs)
  | [] => wanes_pure _
  | _ :: rest => wanes_bind (wanes_commit fun _ => rfl) fun _ => wanes_checkpointTransfers rest

theorem wanes_recoverTransfers : Wanes allowed recoverTransfers :=
  wanes_bind wanes_read fun _ => wanes_bind wanes_removeUnknownStaging fun _ => wanes_bind wanes_state fun _ =>
    wanes_bind (wanes_fitTransfers _) fun _ => wanes_bind (wanes_destroyTransfers _) fun _ =>
      wanes_bind (wanes_checkpointTransfers _) fun _ => wanes_pure _

theorem wanes_noteRollback {recovery : LiveRecovery} : Wanes allowed (noteRollback recovery) :=
  wanes_bind (fun _ => ⟨.inl ⟨rfl, rfl⟩, trivial⟩) fun _ => wanes_bind wanes_state fun _ =>
    wanes_bind (wanes_commit fun _ => rfl) fun _ => wanes_pure _

theorem wanes_readPointer {directory : Directory} {recovery : LiveRecovery} :
    Wanes allowed (readPointer directory recovery) := by
  refine wanes_bind wanes_read fun w₁ => ?_
  split
  · exact wanes_pure _
  · exact wanes_pure _
  · exact wanes_bind (wanes_remove _) fun _ => wanes_pure _

theorem wanes_resolvePending {directory : Directory} {pointer : Option PointerValue} {recovery : LiveRecovery} :
    Wanes allowed (resolvePending directory pointer recovery) := by
  have hrest (recovery : LiveRecovery) : Wanes allowed (do
      remove (·.dropPending directory)
      let s ← state
      if s.applyPrepared then commit (.applyResolved s.activations)
      return recovery : Agent LiveRecovery) := by
    refine wanes_bind (wanes_remove _) fun _ => wanes_bind wanes_state fun s => ?_
    dsimp only
    split
    · exact wanes_bind (wanes_resolved _) fun _ => wanes_pure _
    · exact wanes_pure _
  refine wanes_bind wanes_state fun s => ?_
  dsimp only
  split
  · exact hrest _
  · exact wanes_bind wanes_noteRollback fun _ => hrest _

theorem wanes_clearCommit {recovery : LiveRecovery} : Wanes allowed (clearCommit recovery) :=
  wanes_bind (wanes_commit fun _ => rfl) fun _ => wanes_pure _

theorem wanes_adoptPointer {directory : Directory} {pointer : Option PointerValue} {recovery : LiveRecovery} :
    Wanes allowed (adoptPointer o directory pointer recovery) := by
  unfold adoptPointer
  cases pointer with
  | none =>
    refine wanes_bind wanes_state fun s => ?_
    split
    · exact wanes_clearCommit
    · exact wanes_pure _
  | some value =>
    have hrest (actual : Result Digest) (recovery : LiveRecovery) : Wanes allowed (do
        let s ← state
        if actual ≠ .ok value.digest then clearCommit recovery
        else if value.generation = s.committedGeneration ∧ value.digest = s.committedDigest ∧
            s.committedGeneration ≠ 0 then
          return recovery
        else
          commit (.targetCommit value.generation value.digest value.artifact)
          return { recovery with adoptedCompletedSwitch := true } : Agent LiveRecovery) := by
      refine wanes_bind wanes_state fun s => ?_
      split
      · exact wanes_clearCommit
      split
      · exact wanes_pure _
      · exact wanes_bind (wanes_commit fun _ => rfl) fun _ => wanes_pure _
    refine wanes_bind wanes_read fun w₁ => ?_
    dsimp only
    split
    · refine wanes_bind (wanes_bind wanes_succeeds fun ok => ?_) fun _ => hrest _ _
      split <;> exact wanes_pure _
    · exact hrest _ _

theorem wanes_recoverDirectories : ∀ (directories : List Directory) (recovery : LiveRecovery),
    Wanes allowed (recoverDirectories o directories recovery)
  | [], _ => wanes_pure _
  | directory :: rest, recovery => by
    have hdirectory : Wanes allowed (recoverDirectory o directory recovery) := by
      refine wanes_bind wanes_read fun w₁ => wanes_bind wanes_readPointer fun found => ?_
      dsimp only
      split
      · exact wanes_bind wanes_resolvePending fun _ => wanes_adoptPointer
      · exact wanes_adoptPointer
    exact wanes_bind hdirectory fun _ => wanes_recoverDirectories rest _

/-- Recovery leaves no window. -/
theorem wanes_recoverLiveArea : (recoverLiveArea o).Steps allowed Dwindles
    (fun _ w' => (siteOf w'.mem).window = none) w := by
  rw [recoverLiveArea, Prog.steps_bind]
  refine (wanes_recoverTransfers w).mono fun recovery w₁ _ => ?_
  simp only [Prog.steps_bind, Prog.steps_ask, Prog.steps_read]
  refine fun e _ => (wanes_recoverDirectories _ _ w₁).mono fun recovery w₂ _ => ?_
  simp only [Prog.steps_bind, steps_state]
  split
  · rw [Prog.steps_bind]
    refine (wanes_noteRollback w₂).mono fun recovery w₃ _ => ?_
    simp only [Prog.steps_bind, steps_state, steps_commit]
    exact ⟨.inr ⟨rfl, rfl⟩, rfl⟩
  next hclosed => exact if_neg hclosed

theorem wanes_open : («open» o).Steps allowed Dwindles
    (fun r w' => opened (some r) = true → (siteOf w'.mem).window = none) w := by
  have herr (e : Error) (w' : World) : opened (some (.error e)) = true → (siteOf w'.mem).window = none := by
    simp [opened]
  rw [«open»]
  split
  · exact herr _ w
  split
  · exact herr _ w
  simp only [Prog.steps_bind, steps_succeeds]
  intro e _
  split
  · exact herr _ w
  simp only [Prog.steps_bind, steps_state]
  split
  · exact herr _ w
  split
  · exact herr _ w
  split
  · exact herr _ w
  split
  · exact herr _ w
  split
  · exact herr _ w
  simp only [Prog.steps_bind, Prog.steps_ask, steps_commit]
  exact fun e _ => ⟨.inl ⟨rfl, rfl⟩, wanes_recoverLiveArea.mono fun _ _ h _ => h⟩

end Startup

/-! One event of a machine. -/

section Machines

variable {key : ConfigKey} {content : DeploymentId → Content Generation Digest} {o : AgentOptions} {M M' : Machine}
  {w w' : World}

/-- The machine of a target, running or not. -/
structure Poised (key : ConfigKey) (content : DeploymentId → Content Generation Digest) (M : Machine) : Prop where
  housed : Housed key content M.world
  guarded : M.running = true → Guarded M.world
  level : M.running = true → Level (liveKeyDirectory key) M.world

theorem poised_empty : Poised key content {} := ⟨housed_empty, fun h => (by cases h), fun h => (by cases h)⟩

/-- What a machine comes to by itself: a window may be rolled back. -/
structure Lapses (key : ConfigKey) (w w' : World) : Prop where
  standing : standing (liveKeyDirectory key) w' = standing (liveKeyDirectory key) w ∨
    standing (liveKeyDirectory key) w' = { standing (liveKeyDirectory key) w with window := none }
  sent : w'.sent = w.sent

theorem lapses_content (h : Lapses key w w') : (Agent.standing (liveKeyDirectory key) w').content =
    (Agent.standing (liveKeyDirectory key) w).content := by
  obtain hsame | hclosed := h.standing
  · rw [hsame]
  · rw [hclosed]

theorem Lapses.refl (w : World) : Lapses key w w := ⟨.inl rfl, rfl⟩

theorem Lapses.trans {w'' : World} (h : Lapses key w w') (h' : Lapses key w' w'') : Lapses key w w'' := by
  refine ⟨?_, h'.sent.trans h.sent⟩
  obtain hsame | hclosed := h.standing
  · obtain hsame' | hclosed' := h'.standing
    · exact .inl (hsame'.trans hsame)
    · exact .inr (hclosed'.trans (by rw [hsame]))
  · obtain hsame' | hclosed' := h'.standing
    · exact .inr (hsame'.trans hclosed)
    · exact .inr (hclosed'.trans (by rw [hclosed]))

theorem RStep.lapses (h : Housed key content w) (hstep : RStep w w') (hdwindles : Dwindles w w') : Lapses key w w' := by
  have hsame : w'.files.current = w.files.current ∧ w'.sent = w.sent := by
    cases hstep with
    | quiet hq hsent =>
      refine ⟨?_, hsent⟩
      cases hq <;> rfl
    | dropped hbad => exact absurd hbad (h.fenced.readable _)
    | resized | checkpointed | adopted | cleared | identified => exact ⟨rfl, rfl⟩
  refine ⟨?_, hsame.2⟩
  obtain ⟨-, hwindow⟩ | ⟨-, hwindow⟩ := hdwindles
  · exact .inl (standing_congr hsame.1 hwindow)
  · right
    rw [standing, standing, hsame.1, hwindow]
    rfl

theorem Poised.start (h : Poised key content M) {order : List Directory} (hsuits : Suits o key content M.world (.start order))
    (hstep : Step o Calm M (.start order) M') : Poised key content M' ∧ Lapses key M.world M'.world := by
  obtain ⟨hhoused, hguarded⟩ := housed_inductive.step ⟨h.housed, h.guarded⟩ hsuits hstep
  cases hstep with
  | @start w w' _ r hexec =>
    have hrestart : Housed key content w.restart := ⟨h.housed.fenced.restart, h.housed.asked, h.housed.dur, h.housed.dur⟩
    have hsteps : («open» o).Steps (fun e => Calm e ∧ e.order = order) RStep (fun _ _ => True) w.restart :=
      steps_open (fun _ he => he.2) hrestart.fenced.tables.mem.kept hrestart.fenced.readable
        (fun _ _ _ _ => trivial) fun _ => trivial
    obtain ⟨hreach, hdone⟩ := (hsteps.and wanes_open).exec hexec
    have hcome : Housed key content w' ∧ (siteOf w'.mem).window = (siteOf w'.dur).window ∧ Lapses key w.restart w' := by
      clear hdone hexec hhoused hguarded
      induction hreach with
      | refl => exact ⟨hrestart, rfl, .refl _⟩
      | tail _ hlast ih =>
        obtain ⟨hhoused, hsame, hlapses⟩ := ih
        refine ⟨hhoused.recovered hlast.1, ?_, hlapses.trans (hlast.1.lapses hhoused hlast.2)⟩
        obtain ⟨hmem, hdur⟩ | ⟨hmem, hdur⟩ := hlast.2
        · rw [hmem, hdur, hsame]
        · rw [hmem, hdur]
    obtain ⟨-, hsame, hlapses⟩ := hcome
    refine ⟨⟨hhoused, hguarded, fun hrun => ?_⟩, hlapses.standing, hlapses.sent⟩
    cases r with
    | none => cases hrun
    | some r =>
      have hnone := (hdone r rfl).2 hrun
      exact hhoused.level (hguarded hrun) hnone (hsame.symm.trans hnone)

/-- Where a program that is under way throughout has come to. -/
theorem underway_exec {α : Type} {directory : Directory} {m : Message} {p : Agent α} {r : Option α}
    (hlevel : Level directory w)
    (h : p.Steps Calm (fun _ => Underway directory m w) (fun _ => Abreast directory m w) w)
    (hexec : Prog.Exec Calm p w r w') :
    Underway directory m w w' ∧ (r.isSome = true → Level directory w') := by
  obtain ⟨hreach, hdone⟩ := h.exec hexec
  constructor
  · obtain heq | ⟨_, -, hlast⟩ := hreach.cases_tail
    · rw [heq]
      exact (Abreast.refl hlevel).toUnderway
    · exact hlast
  · intro hsome
    obtain ⟨a, rfl⟩ := Option.isSome_iff_exists.mp hsome
    exact (hdone a rfl).level

theorem Poised.hello (h : Poised key content M) {hello : HelloMessage} (hstep : Step o Calm M (.hello hello) M') :
    Poised key content M' ∧ Underway (liveKeyDirectory key) (.hello hello) M.world M'.world := by
  obtain ⟨hhoused, hguarded⟩ := housed_inductive.step ⟨h.housed, h.guarded⟩ (by trivial) hstep
  cases hstep with
  | @hello w w' _ r hexec =>
    have hlevel : Level (liveKeyDirectory key) (w.receive (.hello hello)) := h.level rfl
    obtain ⟨hunderway, hend⟩ := underway_exec hlevel (abreast_tells says_acceptHello (.refl hlevel)) hexec
    exact ⟨⟨hhoused, hguarded, hend⟩, hunderway.serves, hunderway.sent⟩

theorem Poised.message (h : Poised key content M) {session : Session} {m : Message}
    (hsuits : Suits o key content M.world (.message session m))
    (hwindow : ∀ p, m = .applyPrepare p → p.generation ≠ (standing (liveKeyDirectory key) M.world).content.generation)
    (hstep : Step o Calm M (.message session m) M') :
    Poised key content M' ∧ Underway (liveKeyDirectory key) m M.world M'.world := by
  obtain ⟨hhoused, hguarded⟩ := housed_inductive.step ⟨h.housed, h.guarded⟩ hsuits hstep
  cases hstep with
  | @message w w' _ _ r hvalid hexec =>
    have hlevel : Level (liveKeyDirectory key) (w.receive m) := h.level rfl
    have hreceived : Housed key content (w.receive m) :=
      h.housed.receive hvalid fun p heq => by subst heq; exact hsuits
    have hne (p : ApplyPrepareMessage) (heq : m = .applyPrepare p) :
        p.generation ≠ (w.receive m).mem.committedGeneration := by
      rw [show (w.receive m).mem.committedGeneration = (standing (liveKeyDirectory key) w).content.generation from
        congrArg (fun x => x.content.generation) hlevel.symm]
      exact hwindow p heq
    have hsteps : (dispatch o session m).Steps Calm (fun _ => Underway (liveKeyDirectory key) m (w.receive m))
        (fun _ => Abreast (liveKeyDirectory key) m (w.receive m)) (w.receive m) :=
      abreast_dispatch not_failing_calm hreceived (h.guarded rfl) hlevel hvalid hne
    obtain ⟨hunderway, hend⟩ := underway_exec hlevel hsteps hexec
    exact ⟨⟨hhoused, hguarded, hend⟩, hunderway.serves, hunderway.sent⟩

end Machines

end Agent

end ConfigurationFabric
