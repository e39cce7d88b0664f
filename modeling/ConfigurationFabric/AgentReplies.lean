import ConfigurationFabric.AgentWindow
import ConfigurationFabric.Replies

/-! That the frames the agent answers with can be read. -/

namespace ConfigurationFabric

open LittleEndian
open Program

namespace Agent

/-! What the agent has to say comes from messages it has read. -/

def OptionalId (id : Bytes) : Prop := id = [] ∨ isValidIdentifier id = true

/-- A transfer as its prepare message has described it. -/
structure Offered (c : TransferRecord) : Prop where
  deployment : isValidIdentifier c.deployment = true
  key : isValidIdentifier c.key = true
  artifact : isValidIdentifier c.artifact = true
  generation : c.generation ≠ 0 ∧ c.generation < 2 ^ 64
  bytes : c.bytesReceived ≤ c.totalBytes ∧ c.totalBytes < 2 ^ 64

structure FindingSound (f : AppliedFinding) : Prop where
  key : isValidIdentifier f.key = true
  generation : f.generation ≠ 0 ∧ f.generation < 2 ^ 64
  artifact : OptionalId f.artifact
  deployment : isValidIdentifier f.deployment = true

structure Told (s : AgentState) : Prop where
  artifact : OptionalId s.committedArtifact
  prepared : OptionalId s.preparedDeployment
  findings : ∀ f ∈ s.findings, FindingSound f

/-- Every identifier the agent keeps has come in a message or belongs to no message at all. -/
structure Sound (w : World) : Prop where
  ordered : Ordered w
  offers : ∀ p, Message.prepare p ∈ w.received → p.Readable
  mem : Told w.mem
  dur : Told w.dur
  current : ∀ directory v, w.files.current.lookup directory = some (.pointer v) → OptionalId v.artifact

section Sound

variable {w w' : World} {c : TransferRecord}

theorem Sound.record (h : Sound w) (hc : Holds w c) : Offered c := by
  have hs := h.ordered.tables.holds hc
  obtain ⟨p, hp, hdeployment, hkey, hartifact, hgeneration, hdigest, hsize⟩ := hs.requested
  obtain ⟨hid, hkid, haid, hset, hlt, -, -, hbytes, -⟩ := h.offers _ hp
  constructor
  case deployment => rwa [← hdeployment]
  case key => rwa [← hkey]
  case artifact => rwa [← hartifact]
  case generation => exact ⟨hgeneration ▸ hset, hgeneration ▸ hlt⟩
  case bytes => exact ⟨hs.bounded, hsize ▸ hbytes⟩

theorem Sound.found (h : Sound w) {deployment : DeploymentId} (hc : w.mem.transfers.find deployment = some c) :
    Offered c := h.record (h.ordered.tables.mem.kept.holds hc)

/-- The same identifiers are kept. -/
theorem Told.congr {s s' : AgentState} (h : Told s) (hartifact : s'.committedArtifact = s.committedArtifact)
    (hprepared : s'.preparedDeployment = s.preparedDeployment) (hfindings : s'.findings = s.findings) : Told s' where
  artifact := hartifact ▸ h.artifact
  prepared := hprepared ▸ h.prepared
  findings := hfindings ▸ h.findings

theorem Told.resolved {s : AgentState} (h : Told s) (n : ℕ) : Told ((AgentRecord.applyResolved n).apply s) where
  artifact := h.artifact
  prepared := .inl rfl
  findings := h.findings

theorem Told.prepared' {s : AgentState} (h : Told s) (hc : Offered c) :
    Told ((AgentRecord.applyPrepared c.deployment c.generation c.digest).apply s) where
  artifact := h.artifact
  prepared := .inr hc.deployment
  findings := h.findings

theorem Told.targetCommit {s : AgentState} (h : Told s) {generation : Generation} {digest : Digest}
    {artifact : ArtifactId} (hartifact : OptionalId artifact) :
    Told ((AgentRecord.targetCommit generation digest artifact).apply s) where
  artifact := by
    change OptionalId (if artifact = [] then s.committedArtifact else artifact)
    split
    · exact h.artifact
    · exact hartifact
  prepared := h.prepared
  findings := h.findings

theorem Told.found {s : AgentState} (h : Told s) (hc : Offered c) (at_ : ℤ) :
    Told ((AgentRecord.findingUpsert (findingOf c at_)).apply s) where
  artifact := h.artifact
  prepared := h.prepared
  findings f hf := by
    obtain rfl | hf := AgentState.mem_insertFinding hf
    · exact ⟨hc.key, hc.generation, .inr hc.artifact, hc.deployment⟩
    · exact h.findings f hf

theorem Quiet.told (hq : Quiet w w') (h : Sound w) : Told w'.mem ∧ Told w'.dur := by
  cases hq with
  | answer | counter | unstaged | written | copying | placed | pruned | marked | unmarked => exact ⟨h.mem, h.dur⟩
  | count | remembered => exact ⟨h.mem.congr rfl rfl rfl, h.dur⟩
  | note | fence | begun | progressed | verified | staged | removed =>
    exact ⟨h.mem.congr rfl rfl rfl, h.dur.congr rfl rfl rfl⟩
  | resolved n => exact ⟨h.mem.resolved n, h.dur.resolved n⟩
  | prepared hc => exact ⟨h.mem.prepared' (h.record hc), h.dur.prepared' (h.record hc)⟩

theorem Sound.quiet (h : Sound w) (hq : Quiet w w') : Sound w' where
  ordered := h.ordered.quiet hq
  offers := hq.received ▸ h.offers
  mem := (hq.told h).1
  dur := (hq.told h).2
  current := hq.current ▸ h.current

theorem Sound.handled {failing : Prop} {I : World → Prop} (h : Sound w) (hstep : AStep failing I w w') : Sound w' := by
  have hordered := h.ordered.handled hstep
  have hoffers : ∀ p, Message.prepare p ∈ w'.received → p.Readable := hstep.received ▸ h.offers
  cases hstep with
  | quiet _ hq => exact h.quiet hq
  | resolved n => exact ⟨hordered, hoffers, h.mem.resolved n, h.dur.resolved n, h.current⟩
  | unmarked => exact ⟨hordered, hoffers, h.mem, h.dur, h.current⟩
  | @switched c _ hc =>
    refine ⟨hordered, hoffers, h.mem, h.dur, fun directory v hv => ?_⟩
    rw [World.switch, lookup_putCurrent] at hv
    split at hv
    · cases hv
      exact .inr (h.record hc).artifact
    · exact h.current directory v hv
  | lost =>
    refine ⟨hordered, hoffers, h.mem, h.dur, fun directory v hv => ?_⟩
    rw [World.onFiles, lookup_dropCurrent] at hv
    split at hv
    · cases hv
    · exact h.current directory v hv
  | settled hc =>
    have hartifact : OptionalId _ := .inr (h.record hc).artifact
    exact ⟨hordered, hoffers, h.mem.targetCommit hartifact, h.dur.targetCommit hartifact, h.current⟩
  | found hc => exact ⟨hordered, hoffers, h.mem.found (h.record hc) _, h.dur.found (h.record hc) _, h.current⟩

theorem Sound.recovered (h : Sound w) (hstep : RStep w w') : Sound w' := by
  have hordered := h.ordered.recovered hstep
  have hoffers : ∀ p, Message.prepare p ∈ w'.received → p.Readable := hstep.received ▸ h.offers
  cases hstep with
  | quiet hq => exact h.quiet hq
  | resized => exact ⟨hordered, hoffers, h.mem, h.dur, h.current⟩
  | checkpointed | identified =>
    exact ⟨hordered, hoffers, h.mem.congr rfl rfl rfl, h.dur.congr rfl rfl rfl, h.current⟩
  | dropped =>
    refine ⟨hordered, hoffers, h.mem, h.dur, fun directory v hv => ?_⟩
    rw [World.onFiles, lookup_dropCurrent] at hv
    split at hv
    · cases hv
    · exact h.current directory v hv
  | adopted hv =>
    have hartifact := h.current _ _ hv
    exact ⟨hordered, hoffers, h.mem.targetCommit hartifact, h.dur.targetCommit hartifact, h.current⟩
  | cleared => exact ⟨hordered, hoffers, h.mem.targetCommit (.inl rfl), h.dur.targetCommit (.inl rfl), h.current⟩

theorem Sound.receive (h : Sound w) {m : Message} (hvalid : m.Valid) (hm : ∀ p, m = .prepare p → p.Readable) :
    Sound (w.receive m) where
  ordered := ⟨h.ordered.tables.receive hvalid, h.ordered.readable⟩
  offers p hp := by
    obtain hp | hp := List.mem_append.mp hp
    · exact h.offers p hp
    · exact hm p (List.mem_singleton.mp hp).symm
  mem := h.mem
  dur := h.dur
  current := h.current

theorem Sound.arrive (h : Sound w) {m : Message} (hm : m.Arrives) : Sound (w.receive m) := by
  refine h.receive hm.valid ?_
  rintro p rfl
  exact arrived_prepare hm

theorem sound_empty : Sound {} where
  ordered := ordered_empty
  offers := by simp
  mem := ⟨.inl rfl, .inl rfl, by simp⟩
  dur := ⟨.inl rfl, .inl rfl, by simp⟩
  current directory v hv := by simp at hv

/-- Every message of a session has come as a frame. -/
def Arriving (_ : World) : Event → Prop
  | .message _ m => m.Arrives
  | .start _ | .hello _ | .crash => True

theorem sound_inductive {o : AgentOptions} {allowed : Env → Prop} :
    Inductive o allowed Arriving Sound (fun _ => True) where
  empty := sound_empty
  kept h := ⟨h.ordered.tables.mem.kept, h.ordered.tables.dur.kept⟩
  readable h := h.ordered.readable
  restart h := ⟨⟨h.ordered.tables.restart, h.ordered.readable⟩, h.offers, h.dur, h.dur, h.current⟩
  hello h _ := ⟨h.receive trivial (fun _ hp => nomatch hp), trivial⟩
  receive hmeets _ h _ := ⟨h.arrive hmeets, trivial⟩
  handled hstep h := h.handled hstep
  recovered hstep h := h.recovered hstep
  stable := stable_true
  started _ _ _ _ := trivial

end Sound

/-! Who the agent says it is. -/

structure SameName (w w' : World) : Prop where
  target : w'.mem.target = w.mem.target
  term : w'.mem.term = w.mem.term
  incarnation : w'.mem.incarnation = w.mem.incarnation

/-- The identity a start records. -/
structure Identified (o : AgentOptions) (s : AgentState) : Prop where
  target : s.target = o.target
  term : s.term ≠ 0 ∧ s.term < 2 ^ 64

section Name

variable {allowed : Env → Prop} {o : AgentOptions} {w w' : World}

theorem Identified.same (h : Identified o w.mem) (hsame : SameName w w') : Identified o w'.mem where
  target := hsame.target.trans h.target
  term := by rw [hsame.term]; exact h.term

theorem Quiet.sameName (h : Quiet w w') : SameName w w' := by
  cases h <;> exact ⟨rfl, rfl, rfl⟩

theorem AStep.sameName {failing : Prop} {I : World → Prop} (h : AStep failing I w w') : SameName w w' := by
  cases h with
  | quiet _ hq => exact hq.sameName
  | resolved | unmarked | switched | lost | settled | found => exact ⟨rfl, rfl, rfl⟩

theorem named_remove {f : Files → Files} : (remove f).Steps allowed SameName (fun _ _ => True) w :=
  steps_remove ⟨rfl, rfl, rfl⟩ trivial trivial

theorem named_removeUnknownStaging {known : List DeploymentId} {paths : List Directory} {recovery : LiveRecovery} :
    (removeUnknownStaging known paths recovery).Steps allowed SameName (fun _ _ => True) w := by
  induction paths generalizing recovery w with
  | nil => trivial
  | cons path paths ih =>
    rw [removeUnknownStaging.eq_def]
    split
    · contradiction
    case h_2 name rest _ heq =>
      obtain ⟨-, rfl⟩ := List.cons.inj heq
      split
      · exact ih
      simp only [Prog.steps_bind, steps_succeeds]
      intro e _
      split
      · exact ⟨⟨rfl, rfl, rfl⟩, ih⟩
      · exact ih
    case h_3 rest _ heq =>
      obtain ⟨-, rfl⟩ := List.cons.inj heq
      exact ih

theorem named_fitTransfers {rs : List TransferRecord} :
    (fitTransfers rs).Steps allowed SameName (fun _ _ => True) w := by
  induction rs generalizing w with
  | nil => trivial
  | cons r rs ih =>
    have hrest {w : World} (pick : List DeploymentId × List TransferRecord → List DeploymentId × List TransferRecord) :
        (do let found ← fitTransfers rs; return pick found : Agent _).Steps allowed SameName (fun _ _ => True) w := by
      rw [Prog.steps_bind]
      exact ih.mono fun _ _ _ => trivial
    simp only [fitTransfers, Prog.steps_bind, Prog.steps_read]
    split
    · exact hrest _
    split
    · exact hrest _
    split
    · simp only [Prog.steps_bind, steps_succeeds]
      intro e _
      split
      · exact ⟨⟨rfl, rfl, rfl⟩, hrest _⟩
      · exact hrest _
    · exact ih

theorem named_destroyTransfer (d : DeploymentId) : (destroyTransfer d).Steps allowed SameName (fun _ _ => True) w := by
  simp only [destroyTransfer, Prog.steps_bind]
  refine named_remove.mono fun _ w' _ => ?_
  simp only [Prog.steps_bind, steps_state]
  split
  · exact ⟨⟨rfl, rfl, rfl⟩, trivial⟩
  · trivial

theorem named_destroyTransfers {discard : List DeploymentId} :
    (destroyTransfers discard).Steps allowed SameName (fun _ _ => True) w := by
  induction discard generalizing w with
  | nil => trivial
  | cons d ds ih =>
    simp only [destroyTransfers, Prog.steps_bind]
    exact (named_destroyTransfer d).mono fun _ _ _ => ih

theorem named_checkpointTransfers {rs : List TransferRecord} :
    (checkpointTransfers rs).Steps allowed SameName (fun _ _ => True) w := by
  induction rs generalizing w with
  | nil => trivial
  | cons r rs ih => exact ⟨⟨rfl, rfl, rfl⟩, ih⟩

theorem named_recoverTransfers : recoverTransfers.Steps allowed SameName (fun _ _ => True) w := by
  simp only [recoverTransfers, Prog.steps_bind, Prog.steps_read]
  refine named_removeUnknownStaging.mono fun recovery w₁ _ => ?_
  simp only [Prog.steps_bind, steps_state]
  refine named_fitTransfers.mono fun found w₂ _ => ?_
  simp only [Prog.steps_bind]
  refine named_destroyTransfers.mono fun _ w₃ _ => ?_
  rw [Prog.steps_bind]
  exact named_checkpointTransfers.mono fun _ _ _ => trivial

theorem named_readPointer {directory : Directory} {recovery : LiveRecovery} :
    (readPointer directory recovery).Steps allowed SameName (fun _ _ => True) w := by
  simp only [readPointer, Prog.steps_bind, Prog.steps_read]
  split
  · trivial
  · trivial
  · rw [Prog.steps_bind]
    exact named_remove.mono fun _ _ _ => trivial

theorem named_noteRollback {recovery : LiveRecovery} :
    (noteRollback recovery).Steps allowed SameName (fun _ _ => True) w :=
  ⟨⟨rfl, rfl, rfl⟩, ⟨rfl, rfl, rfl⟩, trivial⟩

theorem named_resolvePending {directory : Directory} {pointer : Option PointerValue} {recovery : LiveRecovery} :
    (resolvePending directory pointer recovery).Steps allowed SameName (fun _ _ => True) w := by
  have hrest (recovery : LiveRecovery) (w : World) : (do
      remove (·.dropPending directory)
      let s ← state
      if s.applyPrepared then commit (.applyResolved s.activations)
      return recovery : Agent LiveRecovery).Steps allowed SameName (fun _ _ => True) w := by
    rw [Prog.steps_bind]
    refine named_remove.mono fun _ w₁ _ => ?_
    simp only [Prog.steps_bind, steps_state]
    split
    · exact ⟨⟨rfl, rfl, rfl⟩, trivial⟩
    · trivial
  simp only [resolvePending, Prog.steps_bind, steps_state]
  split
  · exact hrest _ w
  · rw [Prog.steps_bind]
    exact named_noteRollback.mono fun recovery w₁ _ => hrest recovery w₁

theorem named_adoptPointer {directory : Directory} {pointer : Option PointerValue} {recovery : LiveRecovery} :
    (adoptPointer o directory pointer recovery).Steps allowed SameName (fun _ _ => True) w := by
  have hclear (recovery : LiveRecovery) : (clearCommit recovery).Steps allowed SameName (fun _ _ => True) w :=
    ⟨⟨rfl, rfl, rfl⟩, trivial⟩
  cases pointer with
  | none =>
    simp only [adoptPointer, Prog.steps_bind, steps_state]
    split
    · exact hclear _
    · trivial
  | some value =>
    have hrest (actual : Result Digest) (recovery : LiveRecovery) : (do
        let s ← state
        if actual ≠ .ok value.digest then clearCommit recovery
        else if value.generation = s.committedGeneration ∧ value.digest = s.committedDigest ∧
            s.committedGeneration ≠ 0 then
          return recovery
        else
          commit (.targetCommit value.generation value.digest value.artifact)
          return { recovery with adoptedCompletedSwitch := true } : Agent LiveRecovery).Steps allowed SameName
            (fun _ _ => True) w := by
      simp only [Prog.steps_bind, steps_state]
      split
      · exact hclear _
      split
      · trivial
      · exact ⟨⟨rfl, rfl, rfl⟩, trivial⟩
    simp only [adoptPointer, Prog.steps_bind, Prog.steps_read]
    split
    · simp only [hashStagingFile, Prog.steps_bind, steps_succeeds]
      intro e _
      split
      · exact hrest _ _
      · exact hrest _ _
    · exact hrest _ _

theorem named_recoverDirectories {directories : List Directory} {recovery : LiveRecovery} :
    (recoverDirectories o directories recovery).Steps allowed SameName (fun _ _ => True) w := by
  induction directories generalizing recovery w with
  | nil => trivial
  | cons directory rest ih =>
    have hrest (recovery : LiveRecovery) (pointer : Option PointerValue) (w : World) :
        (adoptPointer o directory pointer recovery).Steps allowed SameName
          (fun recovery => (recoverDirectories o rest recovery).Steps allowed SameName fun _ _ => True) w :=
      named_adoptPointer.mono fun _ _ _ => ih
    simp only [recoverDirectories, recoverDirectory, Prog.steps_bind, Prog.steps_read]
    refine named_readPointer.mono fun found w₁ _ => ?_
    split
    · rw [Prog.steps_bind]
      exact named_resolvePending.mono fun recovery w₂ _ => hrest recovery _ w₂
    · exact hrest _ _ w₁

theorem named_recoverLiveArea : (recoverLiveArea o).Steps allowed SameName (fun _ _ => True) w := by
  simp only [recoverLiveArea, Prog.steps_bind]
  refine named_recoverTransfers.mono fun recovery w₁ _ => ?_
  simp only [Prog.steps_bind, Prog.steps_ask, Prog.steps_read]
  intro e _
  refine named_recoverDirectories.mono fun recovery w₂ _ => ?_
  simp only [Prog.steps_bind, steps_state]
  split
  · rw [Prog.steps_bind]
    exact named_noteRollback.mono fun _ _ _ => ⟨⟨rfl, rfl, rfl⟩, trivial⟩
  · trivial

theorem named_open : («open» o).Steps allowed Any (fun r w' => opened (some r) = true → Identified o w'.mem) w := by
  have herr (e : Error) (w' : World) : opened (some (.error e)) = true → Identified o w'.mem := by simp [opened]
  rw [«open»]
  split
  · exact herr _ w
  split
  · exact herr _ w
  simp only [Prog.steps_bind, steps_succeeds]
  intro e _
  split
  · exact herr _ w
  simp only [Prog.steps_bind, steps_state]
  split
  · exact herr _ w
  split
  · exact herr _ w
  split
  · exact herr _ w
  split
  · exact herr _ w
  case h_2 nextTerm hnext =>
    simp only [checkedAdd, Option.ite_none_left_eq_some, Option.some.injEq] at hnext
    split
    · exact herr _ w
    simp only [Prog.steps_bind, Prog.steps_ask, steps_commit]
    intro e _
    let w₁ := w.commit (.identity o.target o.klass o.guarantee nextTerm e.incarnation (w.mem.restartCount + 1))
    have hnamed : Identified o w₁.mem := ⟨rfl, by change nextTerm ≠ 0 ∧ nextTerm < 2 ^ 64; omega⟩
    refine ⟨trivial, ?_⟩
    have hlive : (recoverLiveArea o).Steps allowed SameName (fun _ _ => True) w₁ := named_recoverLiveArea
    have hrest := hlive.keep (P := fun w' => Identified o w'.mem) (fun _ _ hstep h => h.same hstep) hnamed
    exact (hrest.rel_mono fun _ _ _ => trivial).mono fun _ _ h _ => h.2

end Name

/-! The frames the handlers send. -/

/-- A process that has something to say for itself. -/
structure Spoken (w : World) : Prop where
  sound : Sound w
  target : isValidIdentifier w.mem.target = true
  term : w.mem.term ≠ 0 ∧ w.mem.term < 2 ^ 64
  incarnation : w.mem.incarnation.isSet = true

/-- What such a process sends on the way can be read. -/
def Speaks (w w' : World) : Prop :=
  ∃ more, w'.sent = w.sent ++ more ∧ (Spoken w → ∀ a ∈ more, a.reply.Sendable)

/-- The answer to this frame names no key: nothing newer than what is committed, or nothing staged for it. -/
def keyless (s : AgentState) : Message → Bool
  | .applyCommit m =>
    s.committedGeneration ≠ 0 && m.generation ≤ s.committedGeneration ||
      ((s.transfers.find m.deployment).filter (·.staged)).isNone
  | _ => false

section Speaks

variable {allowed : Env → Prop} {o : AgentOptions} {w w' : World}

theorem Spoken.handled {failing : Prop} {I : World → Prop} (h : Spoken w) (hstep : AStep failing I w w') :
    Spoken w' where
  sound := h.sound.handled hstep
  target := by rw [hstep.sameName.target]; exact h.target
  term := by rw [hstep.sameName.term]; exact h.term
  incarnation := by rw [hstep.sameName.incarnation]; exact h.incarnation

theorem Speaks.silent (h : w'.sent = w.sent) : Speaks w w' := ⟨[], by rw [h, List.append_nil], by simp⟩

theorem speaks_send {request : Message} {reply : Reply} (h : Spoken w → reply.Sendable) :
    (send request reply).Steps allowed Speaks (fun _ _ => True) w := by
  refine steps_send ⟨[_], rfl, fun hw a ha => ?_⟩ trivial fun _ => trivial
  rw [List.mem_singleton.mp ha]
  exact h hw

theorem speaks_sendNack {request : Message} {deployment : DeploymentId} {key : ConfigKey} {generation : Generation}
    {digest : Digest} {code : ErrorCode} {detail : String} (hdeployment : isValidIdentifier deployment = true)
    (hkey : isValidIdentifier key = true) (hgeneration : generation < 2 ^ 64) :
    (sendNack request deployment key generation digest code detail).Steps allowed Speaks (fun _ _ => True) w := by
  simp only [sendNack, Prog.steps_bind, steps_state]
  refine speaks_send fun _ => ⟨hdeployment, hkey, ?_⟩
  dsimp only
  split
  case isTrue hset => exact ⟨hset, hgeneration⟩
  case isFalse => decide

theorem speaks_sendAck {session : Session} {request : Message} {deployment : DeploymentId} {key : ConfigKey}
    {generation : Generation} {digest : Digest} {bytes : ℕ} (hdeployment : isValidIdentifier deployment = true)
    (hkey : isValidIdentifier key = true) (hgeneration : generation ≠ 0 ∧ generation < 2 ^ 64) :
    (sendAck session request deployment key generation digest bytes).Steps allowed Speaks (fun _ _ => True) w := by
  simp only [sendAck, Prog.steps_bind, steps_state, steps_now]
  intro e _
  apply speaks_send
  intro hw
  exact ⟨hdeployment, hkey, hgeneration.1, hgeneration.2, hw.sound.mem.artifact, rfl, hw.term.1, hw.term.2,
    hw.incarnation⟩

theorem speaks_remove {f : Files → Files} : (remove f).Steps allowed Speaks (fun _ _ => True) w :=
  steps_remove (.silent rfl) trivial trivial

theorem speaks_writeFileAtomic {put : World → World} {drop : Files → Files} (hput : ∀ w, (put w).sent = w.sent) :
    (writeFileAtomic put drop).Steps allowed Speaks (fun _ _ => True) w := by
  refine steps_writeFileAtomic (.silent (hput _)) trivial (fun _ => trivial) fun _ => ?_
  exact ⟨.silent rfl, .silent (hput _), trivial, fun _ => trivial⟩

theorem speaks_destroyTransfer (d : DeploymentId) : (destroyTransfer d).Steps allowed Speaks (fun _ _ => True) w := by
  simp only [destroyTransfer, Prog.steps_bind]
  refine speaks_remove.mono fun _ w₁ _ => ?_
  simp only [Prog.steps_bind, steps_state]
  split
  · exact ⟨.silent rfl, trivial⟩
  · trivial

theorem speaks_resumePoint (m : PrepareMessage) : (resumePoint m).Steps allowed Speaks (fun _ _ => True) w := by
  have hdestroy : (do destroyTransfer m.deployment; return 0 : Agent ℕ).Steps allowed Speaks (fun _ _ => True) w := by
    rw [Prog.steps_bind]
    exact (speaks_destroyTransfer _).mono fun _ _ _ => trivial
  simp only [resumePoint, Prog.steps_bind, steps_state]
  split
  · trivial
  simp only [Prog.steps_bind, Prog.steps_read]
  split
  · split
    · split
      · trivial
      · exact hdestroy
    · split
      · trivial
      · trivial
  · exact hdestroy

theorem speaks_onPrepare {m : PrepareMessage} (hm : isValidIdentifier m.deployment = true) :
    (onPrepare o m).Steps allowed Speaks (fun _ _ => True) w := by
  have hrefuse (code : ErrorCode) (detail : String) (observed : DeliveryState) (w : World) :
      (refusePrepare m code detail observed).Steps allowed Speaks (fun _ _ => True) w := by
    simp only [refusePrepare, Prog.steps_bind, steps_state]
    exact speaks_send fun _ => hm
  simp only [onPrepare, Prog.steps_bind, steps_state]
  split
  · exact hrefuse _ _ _ _
  split
  · simp only [Prog.steps_bind, steps_setState, steps_state, steps_commit]
    exact ⟨.silent rfl, .silent rfl, hrefuse _ _ _ _⟩
  split
  · simp only [Prog.steps_bind, steps_setState, steps_state, steps_commit]
    exact ⟨.silent rfl, .silent rfl, hrefuse _ _ _ _⟩
  split
  · exact hrefuse _ _ _ _
  split
  · exact hrefuse _ _ _ _
  split
  · simp only [Prog.steps_bind, steps_setState, steps_state, steps_commit]
    exact ⟨.silent rfl, .silent rfl, speaks_send fun _ => hm⟩
  · rw [Prog.steps_bind]
    refine (speaks_resumePoint m).mono fun n w₁ _ => ?_
    simp only [beginTransfer, checkpointTransfer, Prog.steps_bind, steps_now]
    exact fun e _ => ⟨.silent rfl, speaks_send fun _ => hm⟩

theorem speaks_writeChunk {d : DeploymentId} {c : TransferRecord} {m : ChunkMessage} :
    (writeChunk d c m).Steps allowed Speaks (fun _ _ => True) w := by
  simp only [writeChunk, Prog.steps_bind, Prog.steps_read, steps_succeeds]
  intro e₁ _
  split
  · trivial
  simp only [Prog.steps_bind, Prog.steps_modify, Prog.steps_ask]
  refine ⟨.silent rfl, fun e₂ _ => ⟨.silent rfl, ?_⟩⟩
  split
  · trivial
  simp only [Prog.steps_bind, Prog.steps_modify, steps_succeeds]
  refine ⟨.silent rfl, fun e₃ _ => ?_⟩
  split
  · trivial
  · trivial

theorem speaks_onChunk {m : ChunkMessage} : (onChunk m).Steps allowed Speaks (fun _ _ => True) w := by
  have hrespond (ack : ChunkAckMessage) (w : World) :
      (send (.chunk m) (.chunkAck ack)).Steps allowed Speaks (fun _ _ => True) w := speaks_send fun _ => trivial
  simp only [onChunk, Prog.steps_bind, steps_state]
  split
  · exact hrespond _ _
  split
  · exact hrespond _ _
  split
  · exact hrespond _ _
  split
  · exact hrespond _ _
  rw [Prog.steps_bind]
  refine speaks_writeChunk.mono fun r w₁ _ => ?_
  split
  · exact hrespond _ _
  simp only [Prog.steps_bind, steps_now, Prog.steps_modify, Prog.steps_read]
  refine fun e _ => ⟨.silent rfl, ?_⟩
  split
  · exact ⟨.silent rfl, hrespond _ _⟩
  · exact ⟨.silent rfl, hrespond _ _⟩

theorem speaks_rejectTransfer {m : TransferCompleteMessage} {c : TransferRecord} {actual : Result Digest}
    (hm : isValidIdentifier m.deployment = true) (hc : Offered c) :
    (rejectTransfer m c actual).Steps allowed Speaks (fun _ _ => True) w := by
  simp only [rejectTransfer, Prog.steps_bind, steps_setState, steps_state, steps_commit]
  refine ⟨.silent rfl, .silent rfl, (speaks_destroyTransfer _).mono fun _ w₁ _ => ?_⟩
  rw [Prog.steps_bind]
  refine (speaks_send ?_).mono fun r w₂ _ => ?_
  · exact fun _ => hm
  split
  · trivial
  · exact speaks_sendNack hm hc.key hc.generation.2

theorem speaks_onTransferComplete {m : TransferCompleteMessage} (hw : Sound w)
    (hm : isValidIdentifier m.deployment = true) : (onTransferComplete m).Steps allowed Speaks (fun _ _ => True) w := by
  have hrespond (result : TransferResultMessage) (hresult : result.deployment = m.deployment) (w : World) :
      (send (.transferComplete m) (.transferResult result)).Steps allowed Speaks (fun _ _ => True) w :=
    speaks_send fun _ => by rw [Reply.Sendable, hresult, hm]
  simp only [onTransferComplete, Prog.steps_bind, steps_state]
  split
  · exact hrespond _ rfl _
  case h_2 c hfind =>
    have hc := hw.found hfind
    split
    · exact hrespond _ rfl _
    split
    · exact hrespond _ rfl _
    simp only [Prog.steps_bind, Prog.steps_read, checkpointTransfer]
    refine steps_hashStagingFile ?_ fun e => ?_
    · split
      · exact fun e _ => ⟨.silent rfl, hrespond _ rfl _⟩
      · exact speaks_rejectTransfer hm hc
    · split
      · exact fun e _ => ⟨.silent rfl, hrespond _ rfl _⟩
      · exact speaks_rejectTransfer hm hc

theorem speaks_copyFileAtomic {source : Directory} {name : PayloadName} :
    (copyFileAtomic source name).Steps allowed Speaks (fun _ _ => True) w := by
  simp only [copyFileAtomic, Prog.steps_bind, Prog.steps_ask, Prog.steps_read]
  intro e _
  split
  · trivial
  simp only [Prog.steps_bind, steps_succeeds]
  intro e₁ _
  split
  · trivial
  simp only [Prog.steps_bind, steps_setFiles, steps_succeeds]
  refine ⟨.silent rfl, fun e₂ _ => ?_⟩
  split
  · rw [Prog.steps_bind]
    exact speaks_remove.mono fun _ _ _ => trivial
  simp only [Prog.steps_bind, steps_succeeds]
  intro e₃ _
  split
  · rw [Prog.steps_bind]
    exact speaks_remove.mono fun _ _ _ => trivial
  · exact ⟨.silent rfl, trivial⟩

theorem speaks_onStage {m : StageMessage} (hm : isValidIdentifier m.deployment = true) :
    (onStage m).Steps allowed Speaks (fun _ _ => True) w := by
  have hrespond (ack : StageAckMessage) (hack : ack.deployment = m.deployment) (w : World) :
      (send (.stage m) (.stageAck ack)).Steps allowed Speaks (fun _ _ => True) w :=
    speaks_send fun _ => by rw [Reply.Sendable, hack, hm]
  simp only [onStage, Prog.steps_bind, steps_state]
  split
  · exact hrespond _ rfl _
  split
  · exact hrespond _ rfl _
  split
  · exact hrespond _ rfl _
  split
  · exact hrespond _ rfl _
  simp only [Prog.steps_bind, steps_succeeds]
  intro e _
  split
  · exact hrespond _ rfl _
  rw [Prog.steps_bind]
  refine speaks_copyFileAtomic.mono fun r w₁ _ => ?_
  split
  · exact hrespond _ rfl _
  · exact fun e _ => ⟨.silent rfl, hrespond _ rfl _⟩

theorem speaks_openWindow {c : TransferRecord} {marker : PointerValue} :
    (openWindow c marker).Steps allowed Speaks (fun _ _ => True) w := by
  simp only [openWindow, Prog.steps_bind]
  refine (speaks_writeFileAtomic ?_).mono fun r w₁ _ => ?_
  · exact fun _ => rfl
  split
  · trivial
  · exact ⟨.silent rfl, trivial⟩

theorem speaks_onApplyPrepare {m : ApplyPrepareMessage} (hm : isValidIdentifier m.deployment = true) :
    (onApplyPrepare m).Steps allowed Speaks (fun _ _ => True) w := by
  have hrespond (ack : ApplyPrepareAckMessage) (hack : ack.deployment = m.deployment) (w : World) :
      (send (.applyPrepare m) (.applyPrepareAck ack)).Steps allowed Speaks (fun _ _ => True) w :=
    speaks_send fun _ => by rw [Reply.Sendable, hack, hm]
  simp only [onApplyPrepare, Prog.steps_bind, steps_state]
  split
  · exact hrespond _ rfl _
  split
  · exact hrespond _ rfl _
  split
  · exact hrespond _ rfl _
  split
  · exact hrespond _ rfl _
  split
  · exact hrespond _ rfl _
  rw [Prog.steps_bind]
  refine speaks_openWindow.mono fun r w₁ _ => ?_
  split
  · exact hrespond _ rfl _
  · exact hrespond _ rfl _

theorem speaks_onApplyAbort {m : ApplyAbortMessage} (hm : isValidIdentifier m.deployment = true) :
    (onApplyAbort m).Steps allowed Speaks (fun _ _ => True) w := by
  have hrespond (ack : ApplyAbortAckMessage) (hack : ack.deployment = m.deployment) (w : World) :
      (send (.applyAbort m) (.applyAbortAck ack)).Steps allowed Speaks (fun _ _ => True) w :=
    speaks_send fun _ => by rw [Reply.Sendable, hack, hm]
  simp only [onApplyAbort, Prog.steps_bind, steps_state]
  split
  · exact hrespond _ rfl _
  split
  · exact hrespond _ rfl _
  split
  · rw [Prog.steps_bind]
    exact speaks_remove.mono fun _ _ _ => ⟨.silent rfl, .silent rfl, .silent rfl, hrespond _ rfl _⟩
  · exact ⟨.silent rfl, .silent rfl, .silent rfl, hrespond _ rfl _⟩

theorem speaks_onReconcileRequest {m : ReconcileRequestMessage} :
    (onReconcileRequest m).Steps allowed Speaks (fun _ _ => True) w := by
  simp only [onReconcileRequest, Prog.steps_bind, Prog.steps_read]
  apply speaks_send
  intro hw
  refine ⟨hw.target, hw.term.1, hw.term.2, hw.incarnation, hw.sound.mem.artifact, hw.sound.mem.prepared, ?_, ?_, ?_, ?_⟩
  · simp [reconcileReport]
  · simp only [reconcileReport, List.length_drop]
    omega
  · intro r hr
    obtain ⟨e, he, rfl⟩ := List.mem_map.mp hr
    have hkept := hw.sound.ordered.tables.mem
    have hfound : w.mem.transfers.find e.1 = some e.2 :=
      SortedMap.find_of_mem hkept.sorted (List.mem_of_mem_take he)
    have hc := hw.sound.found hfound
    refine ⟨hc.deployment, hc.key, hc.generation.1, hc.generation.2, ?_, hc.bytes.2⟩
    exact (Nat.min_le_left _ _).trans hc.bytes.1
  · intro f hf
    have hsound := hw.sound.mem.findings f (List.mem_of_mem_drop hf)
    exact ⟨hsound.key, hsound.generation.1, hsound.generation.2, hsound.artifact, hsound.deployment⟩

theorem speaks_onRetire {m : RetireMessage} (hm : isValidIdentifier m.deployment = true) :
    (onRetire m).Steps allowed Speaks (fun _ _ => True) w := by
  simp only [onRetire, Prog.steps_bind, steps_state]
  split
  · exact speaks_send fun _ => hm
  · rw [Prog.steps_bind]
    exact (speaks_destroyTransfer _).mono fun _ _ _ => speaks_send fun _ => hm

theorem speaks_removePayloads (names : List (PayloadName ⊕ Directory × Bytes)) :
    (removePayloads names).Steps allowed Speaks (fun _ _ => True) w := by
  induction names generalizing w with
  | nil => trivial
  | cons name rest ih =>
    cases name with
    | inl name =>
      simp only [removePayloads, Prog.steps_bind]
      exact speaks_remove.mono fun _ _ _ => ih
    | inr part =>
      simp only [removePayloads, Prog.steps_bind]
      exact speaks_remove.mono fun _ _ _ => ih

theorem speaks_prunePayloads {key : ConfigKey} : (prunePayloads o key).Steps allowed Speaks (fun _ _ => True) w := by
  simp only [prunePayloads, Prog.steps_bind, Prog.steps_ask, Prog.steps_read]
  intro e _
  split
  · trivial
  · exact speaks_removePayloads _

theorem speaks_commitGeneration {c : TransferRecord} :
    (commitGeneration c).Steps allowed Speaks (fun _ _ => True) w := by
  have hrecord (w : World) : (recordActivation c).Steps allowed Speaks (fun _ _ => True) w := by
    simp only [recordActivation, Prog.steps_bind, steps_commit, steps_now, steps_setState, steps_state]
    exact ⟨.silent rfl, fun e _ => ⟨.silent rfl, .silent rfl, .silent rfl, trivial⟩⟩
  simp only [commitGeneration, Prog.steps_bind, steps_state]
  split
  · rw [Prog.steps_bind, steps_commit]
    exact ⟨.silent rfl, hrecord _⟩
  · exact hrecord w

theorem speaks_activate {c : TransferRecord} {explicitPrepare : Bool} :
    (activate o c explicitPrepare).Steps allowed Speaks (fun _ _ => True) w := by
  have hcommit (w : World) : (do
      commitGeneration c
      prunePayloads o c.key
      return .ok () : Agent Status).Steps allowed Speaks (fun _ _ => True) w := by
    rw [Prog.steps_bind]
    refine speaks_commitGeneration.mono fun _ w₁ _ => ?_
    rw [Prog.steps_bind]
    exact speaks_prunePayloads.mono fun _ _ _ => trivial
  have hswitch (w : World) : (switchAndCommit o c explicitPrepare).Steps allowed Speaks (fun _ _ => True) w := by
    rw [switchAndCommit, Prog.steps_bind]
    refine (speaks_writeFileAtomic ?_).mono fun r w₁ _ => ?_
    · exact fun _ => rfl
    split
    · trivial
    simp only
    split
    · rw [Prog.steps_bind]
      exact speaks_remove.mono fun _ _ _ => hcommit _
    · exact hcommit _
  simp only [activate, Prog.steps_bind, steps_state]
  split
  · rw [Prog.steps_bind]
    refine speaks_openWindow.mono fun r w₁ _ => ?_
    split
    · trivial
    · exact hswitch w₁
  · exact hswitch w

/-- A commit that names what is staged for its deployment is answered with the key of the transfer. -/
theorem speaks_onApplyCommit {session : Session} {m : ApplyCommitMessage} (hw : Sound w) (hm : m.Readable)
    (hkeyed : keyless w.mem (.applyCommit m) = false) :
    (onApplyCommit o session m).Steps allowed Speaks (fun _ _ => True) w := by
  simp only [keyless, Bool.or_eq_false_iff, Bool.and_eq_false_imp, decide_eq_true_eq, decide_eq_false_iff_not,
    Option.isNone_eq_false_iff] at hkeyed
  obtain ⟨hnewer, hstaged⟩ := hkeyed
  have hrefuse {c : TransferRecord} (hc : Offered c) (ack : ApplyCommitAckMessage) (hack : ack.deployment = m.deployment)
      (detail : String) (w : World) :
      (refuseCommit m ack c.key detail).Steps allowed Speaks (fun _ _ => True) w := by
    simp only [refuseCommit, Prog.steps_bind]
    refine (speaks_send ?_).mono fun r w₁ _ => ?_
    · intro _
      rw [Reply.Sendable, hack, hm.1]
    split
    · trivial
    · exact speaks_sendNack hm.1 hc.key hm.2.2
  simp only [onApplyCommit, Prog.steps_bind, steps_state]
  split
  case isTrue hstale =>
    simp only [stale, Bool.and_eq_true, decide_eq_true_eq] at hstale
    exact absurd hstale.2.le (hnewer hstale.1)
  split
  case isTrue hsame => exact absurd hsame.2.1.le (hnewer hsame.1)
  split
  case isTrue hconflict =>
    simp only [conflicting, Bool.and_eq_true, decide_eq_true_eq] at hconflict
    exact absurd hconflict.1.2.le (hnewer hconflict.1.1)
  split
  case h_1 hnone =>
    rw [hnone] at hstaged
    cases hstaged
  case h_2 c hfind =>
    have hc := hw.found (Option.filter_eq_some_iff.mp hfind).1
    split
    · exact hrefuse hc _ rfl _ w
    split
    · exact hrefuse hc _ rfl _ w
    split
    · exact hrefuse hc _ rfl _ w
    rw [Prog.steps_bind]
    refine speaks_activate.mono fun r w₁ _ => ?_
    split
    · exact hrefuse hc _ rfl _ w₁
    · simp only [confirmCommit, Prog.steps_bind, steps_state]
      refine (speaks_send ?_).mono fun r w₂ _ => ?_
      · exact fun _ => hm.1
      split
      · trivial
      · exact speaks_sendAck hm.1 hc.key hm.2

theorem speaks_dispatch {session : Session} {m : Message} (hw : Sound w) (hm : m.Arrives)
    (hkeyed : keyless w.mem m = false) : (dispatch o session m).Steps allowed Speaks (fun _ _ => True) w := by
  have hvalid := hm.valid
  cases m with
  | prepare m => exact speaks_onPrepare hvalid.1
  | chunk m => exact speaks_onChunk
  | transferComplete m => exact speaks_onTransferComplete hw hvalid
  | stage m => exact speaks_onStage hvalid.1
  | applyPrepare m => exact speaks_onApplyPrepare hvalid.1
  | applyCommit m => exact speaks_onApplyCommit hw (arrived_applyCommit hm) hkeyed
  | applyAbort m => exact speaks_onApplyAbort hvalid.1
  | reconcileRequest m => exact speaks_onReconcileRequest
  | retire m => exact speaks_onRetire hvalid.1
  | ping nonce => exact speaks_send fun _ => trivial
  | goodbye | hello _ | unexpected => trivial

end Speaks

/-! The frames that cannot be read. -/

/-- The connection stays up. -/
def Connected (e : Env) : Prop := e.connected = true

/-- Something sent after the first `n` frames cannot be read. -/
def Garbles (n : ℕ) (w : World) : Prop := ∃ a ∈ w.sent.drop n, ¬ a.reply.Decodes

section Garbles

variable {w : World} {m : ApplyCommitMessage} {n : ℕ}

theorem garbles_send {request : Message} {reply : Reply} {Q : Status → World → Prop}
    (hQ : Q (.ok ()) (w.answer request reply)) : (send request reply).Steps Connected Any Q w := by
  simp only [send, Prog.steps_bind, Prog.steps_ask]
  intro e he
  rw [if_neg (by rw [Connected.eq_def] at he; simp [he])]
  exact ⟨trivial, hQ⟩

theorem garbles_answer {request : Message} {reply : Reply} (hn : n ≤ w.sent.length) (h : ¬ reply.Decodes) :
    Garbles n (w.answer request reply) := by
  refine ⟨⟨request, reply, w.files.current, w.mem⟩, ?_, h⟩
  change _ ∈ (w.sent ++ [_]).drop n
  rw [List.drop_append_of_le_length hn]
  simp

theorem bounded_length (detail : String) : (bounded detail).length ≤ kMaxMessageDetailBytes := by
  rw [bounded, String.length_ofList]
  exact List.length_take_le _ _

theorem garbles_refuseCommit {ack : ApplyCommitAckMessage} {detail : String}
    (hm : isValidIdentifier m.deployment = true) (hn : n ≤ w.sent.length) :
    (refuseCommit m ack [] detail).Steps Connected Any (fun _ => Garbles n) w := by
  simp only [refuseCommit, Prog.steps_bind]
  apply garbles_send
  simp only [sendNack, Prog.steps_bind, steps_state]
  apply garbles_send
  apply garbles_answer
  · simp only [World.answer, List.length_append]
    omega
  · exact keyless_nack rfl hm (bounded_length _)

theorem garbles_confirmCommit {session : Session} {ack : ApplyCommitAckMessage} {bytes : ℕ}
    (hm : isValidIdentifier m.deployment = true) (hartifact : OptionalId w.mem.committedArtifact)
    (hn : n ≤ w.sent.length) : (confirmCommit session m ack [] bytes).Steps Connected Any (fun _ => Garbles n) w := by
  simp only [confirmCommit, Prog.steps_bind]
  apply garbles_send
  simp only [sendAck, Prog.steps_bind, steps_state, steps_now]
  intro e _
  apply garbles_send
  apply garbles_answer
  · simp only [World.answer, List.length_append]
    omega
  · exact keyless_ack rfl hm hartifact

theorem garbles_onApplyCommit {o : AgentOptions} {session : Session} (hm : isValidIdentifier m.deployment = true)
    (hartifact : OptionalId w.mem.committedArtifact) (hkeyless : keyless w.mem (.applyCommit m) = true) :
    (onApplyCommit o session m).Steps Connected Any (fun _ => Garbles w.sent.length) w := by
  simp only [onApplyCommit, Prog.steps_bind, steps_state]
  split
  · simp only [Prog.steps_bind, steps_setState, steps_state, steps_commit]
    exact ⟨trivial, trivial, garbles_refuseCommit hm le_rfl⟩
  case isFalse hstale =>
    split
    · simp only [Prog.steps_bind, steps_setState, steps_state, steps_commit]
      exact ⟨trivial, trivial, garbles_confirmCommit hm hartifact le_rfl⟩
    case isFalse hsame =>
      split
      · exact garbles_refuseCommit hm le_rfl
      case isFalse hconflict =>
        split
        case h_1 =>
          split
          · exact garbles_confirmCommit hm hartifact le_rfl
          · exact garbles_refuseCommit hm le_rfl
        case h_2 c hfind =>
          -- what is newer and staged is answered with its key
          have hfresh := fresh_of hstale hsame hconflict
          simp only [keyless, hfind, Bool.or_eq_true, Bool.and_eq_true, decide_eq_true_eq, Option.isNone_some,
            Bool.false_eq_true, or_false] at hkeyless
          obtain ⟨hset, hle⟩ := hkeyless
          obtain hunset | hlt := hfresh
          · exact absurd hunset hset
          · exact absurd hlt (not_lt.mpr hle)

end Garbles

/-! Runs. -/

section Runs

variable {allowed : Env → Prop} {o : AgentOptions} {M : Machine} {session : Session} {m : Message} {w w' : World}

theorem Reachable.identified (h : Reachable o allowed Arriving M) (hrun : M.running = true) :
    Identified o M.world.mem := by
  have hsound {M : Machine} (h : Reachable o allowed Arriving M) : Sound M.world := (sound_inductive.reachable h).1
  induction h with
  | empty => cases hrun
  | @step M M' e h hmeets hstep ih =>
    cases hstep with
    | @start w w' order r hexec =>
      cases r with
      | none => cases hrun
      | some r => exact (named_open.exec hexec).2 r rfl hrun
    | @hello w w' m r hexec =>
      have hreach := ((@steps_acceptHello allowed m (w.receive (.hello m))).exec hexec).1
      exact along (W := fun w' => Identified o w'.mem) hreach (fun _ _ hq h => h.same hq.sameName) (ih rfl)
    | @message w w' session m r hvalid hexec =>
      have hmem : m ∈ (w.receive m).received := by simp [World.receive]
      have hkept := ((hsound h).arrive hmeets).ordered.tables.mem.kept
      have hreach := ((steps_dispatch stable_true trivial hkept hvalid hmem).exec hexec).1
      exact along (W := fun w' => Identified o w'.mem) hreach (fun _ _ hq h => h.same hq.sameName) (ih rfl)
    | crash => cases hrun

/-- What is sent on the way from a sound world. -/
theorem sends_along {failing : Prop} {I : World → Prop}
    (h : Relation.ReflTransGen (fun w w' => AStep failing I w w' ∧ Speaks w w') w w') (hw : Spoken w) :
    Spoken w' ∧ ∃ more, w'.sent = w.sent ++ more ∧ ∀ a ∈ more, a.reply.Sendable := by
  induction h with
  | refl => exact ⟨hw, [], by rw [List.append_nil], by simp⟩
  | tail _ hstep ih =>
    obtain ⟨hspoken, more, hmore, hall⟩ := ih
    obtain ⟨hastep, more', hmore', hall'⟩ := hstep
    refine ⟨hspoken.handled hastep, more ++ more', by rw [hmore', hmore, List.append_assoc], fun a ha => ?_⟩
    obtain ha | ha := List.mem_append.mp ha
    · exact hall a ha
    · exact hall' hspoken a ha

theorem keyed_decodes (hw : Spoken w) (hm : m.Arrives) (hkeyed : keyless w.mem m = false) {r : Option Status}
    (hexec : Prog.Exec allowed (dispatch o session m) (w.receive m) r w') :
    ∀ a ∈ w'.sent.drop w.sent.length, a.reply.Decodes := by
  have hsound := hw.sound.arrive hm
  have hmem : m ∈ (w.receive m).received := by simp [World.receive]
  have hreach := (((steps_dispatch stable_true trivial hsound.ordered.tables.mem.kept hm.valid hmem).and
    (speaks_dispatch hsound hm hkeyed)).exec hexec).1
  have hspoken : Spoken (w.receive m) := ⟨hsound, hw.target, hw.term, hw.incarnation⟩
  obtain ⟨-, more, hmore, hall⟩ := sends_along hreach hspoken
  intro a ha
  have hmore' : w'.sent = w.sent ++ more := hmore
  rw [hmore', List.drop_left] at ha
  exact (hall a ha).decodes

/-- A commit whose answer names no key is answered with something that cannot be read. -/
theorem keyless_garbles (hw : Sound w) (hm : m.Arrives) (hkeyless : keyless w.mem m = true) :
    ∃ (r : Option Status) (w' : World), Prog.Exec (fun _ => True) (dispatch o session m) (w.receive m) r w' ∧
      Garbles w.sent.length w' := by
  cases m with
  | applyCommit m =>
    have hconnected : Connected {} := rfl
    obtain ⟨r, w', hexec⟩ := Prog.Exec.complete hconnected (onApplyCommit o session m) (w.receive (.applyCommit m))
    have hgarbled := ((garbles_onApplyCommit (w := w.receive (.applyCommit m)) hm.valid.1 hw.mem.artifact
      hkeyless).exec hexec).2 r rfl
    exact ⟨some r, w', hexec.mono fun _ _ => trivial, hgarbled⟩
  | prepare _ | chunk _ | transferComplete _ | stage _ | applyPrepare _ | applyAbort _ | reconcileRequest _ | retire _
  | ping _ | goodbye | hello _ | unexpected => cases hkeyless

/-- Whatever is answered to a frame can be read, unless the frame is a commit whose answer names no key. -/
theorem answers_decode_iff (htarget : isValidIdentifier o.target = true)
    (h : Reachable o (fun _ => True) Arriving M) (hrun : M.running = true)
    (hset : M.world.mem.incarnation.isSet = true) (hm : m.Arrives) :
    (∀ M', Step o (fun _ => True) M (.message session m) M' →
      ∀ a ∈ M'.world.sent.drop M.world.sent.length, a.reply.Decodes) ↔ keyless M.world.mem m = false := by
  have hsound := (sound_inductive.reachable h).1
  have hid := h.identified hrun
  constructor
  · intro hall
    by_contra hkeyless
    obtain ⟨r, w', hexec, a, ha, hbad⟩ : ∃ r w', Prog.Exec (fun _ => True) (dispatch o session m)
        (M.world.receive m) r w' ∧ Garbles M.world.sent.length w' :=
      keyless_garbles hsound hm (Bool.eq_true_of_not_eq_false hkeyless)
    obtain ⟨w, running⟩ := M
    obtain rfl : running = true := hrun
    exact hbad (hall _ (.message hm.valid hexec) a ha)
  · intro hkeyed M' hstep
    cases hstep with
    | message hvalid hexec =>
      exact keyed_decodes ⟨hsound, by rw [hid.target]; exact htarget, hid.term, hset⟩ hm hkeyed hexec

/-! Runs on fixed inputs. -/

/-- Inputs with which nothing fails and every process draws an incarnation. -/
def awake : List Env := List.replicate 60 { incarnation := ⟨List.replicate 16 7, by decide⟩ }

def awakened (es : List Event) : Machine := es.foldl (advance { target := text "t" } awake 200) {}

theorem reachable_awakened {es : List Event} (h : ∀ e ∈ es, ∀ w, Arriving w e) :
    Reachable { target := text "t" } (fun _ => True) Arriving (awakened es) :=
  reachable_foldl (fun _ _ _ => ⟨trivial, trivial⟩) .empty (meetsAll h {})

def offer : PrepareMessage where
  deployment := text "d"
  key := text "k"
  artifact := text "artifact"
  generation := 3
  digest := Digest.ofContent [66]
  sizeBytes := 1
  schema := text "schema"
  schemaVersion := 1
  requirement := .allowPrepareCommit
  guarantee := .atomicActivate
  authorityEpoch := 1
  attempt := 1
  stream := 3
  chunkBytes := 1

/-- The frames in front of the commit of the offer. -/
def staging : List Message :=
  [.prepare offer, .chunk ⟨3, 0, 0, [66]⟩, .transferComplete ⟨text "d", 3, offer.digest, 1⟩,
    .stage ⟨text "d", 3, 3, offer.digest⟩]

def commitOffer : Message := .applyCommit ⟨text "d", 3, offer.digest⟩

theorem arrives_of {α : Type} {decode : Bytes → Result α} {encode : α → Result Bytes} {P : α → Prop}
    {make : α → Message} (h : Reading.Canonical decode P encode) {v : α} (hP : P v)
    (hencode : ∃ payload, encode v = .ok payload) (hmake : ∀ payload, (make v).decode payload = make <$> decode payload) :
    (make v).Arrives := by
  obtain ⟨payload, hpayload⟩ := hencode
  exact ⟨payload, (hmake payload).trans (Result.map_eq_ok.mpr ⟨v, (h payload v).mpr ⟨hP, hpayload⟩, rfl⟩)⟩

theorem commitOffer_arrives : commitOffer.Arrives := by
  apply arrives_of applyCommit_canonical
  case hP =>
    unfold ApplyCommitMessage.Readable
    decide
  case hencode => exact ⟨_, rfl⟩
  case hmake => exact fun _ => rfl

theorem staging_arrives : ∀ m ∈ staging, m.Arrives := by
  simp only [staging, List.forall_mem_cons, List.not_mem_nil, false_imp_iff, implies_true, and_true]
  refine ⟨arrives_of prepare_canonical ?_ ⟨_, rfl⟩ fun _ => rfl, arrives_of chunk_canonical ?_ ⟨_, rfl⟩ fun _ => rfl,
    arrives_of transferComplete_canonical ?_ ⟨_, rfl⟩ fun _ => rfl, arrives_of stage_canonical ?_ ⟨_, rfl⟩ fun _ => rfl⟩
  · unfold PrepareMessage.Readable
    decide +kernel
  · unfold ChunkMessage.Readable
    decide
  · unfold TransferCompleteMessage.Readable
    decide
  · unfold StageMessage.Readable
    decide

theorem reachable_staging (n : ℕ) : Reachable { target := text "t" } (fun _ => True) Arriving
    (awakened (.start [] :: (staging.take n).map (.message {}))) := by
  apply reachable_awakened
  intro e he w
  obtain rfl | he := List.mem_cons.mp he
  · exact trivial
  · obtain ⟨m, hm, rfl⟩ := List.mem_map.mp he
    exact staging_arrives m (List.mem_of_mem_take hm)

/-- A commit of what is staged and the state it comes to. -/
def stagedMachine : Machine := awakened (.start [] :: (staging.take 4).map (.message {}))

theorem staged_commit_readable : keyless stagedMachine.world.mem commitOffer = false ∧
    ∀ M', Step { target := text "t" } (fun _ => True) stagedMachine (.message {} commitOffer) M' →
      ∀ a ∈ M'.world.sent.drop stagedMachine.world.sent.length, a.reply.Decodes := by
  have hdecodes (M : Machine) (h : Reachable { target := text "t" } (fun _ => True) Arriving M)
      (hrun : M.running = true) (hset : M.world.mem.incarnation.isSet = true)
      (hkeyed : keyless M.world.mem commitOffer = false) :
      ∀ M', Step { target := text "t" } (fun _ => True) M (.message {} commitOffer) M' →
        ∀ a ∈ M'.world.sent.drop M.world.sent.length, a.reply.Decodes :=
    (answers_decode_iff (by decide) h hrun hset commitOffer_arrives).mpr hkeyed
  have hkeyed : keyless stagedMachine.world.mem commitOffer = false := by decide +kernel
  exact ⟨hkeyed, hdecodes _ (reachable_staging 4) (by decide +kernel) (by decide +kernel) hkeyed⟩

/-- Nothing is staged for the commit, and the refusal that follows the answer cannot be read. -/
theorem unstaged_commit_unreadable : ¬ ∀ M, Reachable { target := text "t" } (fun _ => True) Arriving M →
    M.running = true → M.world.mem.incarnation.isSet = true → ∀ m, m.Arrives →
      ∀ M', Step { target := text "t" } (fun _ => True) M (.message {} m) M' →
        ∀ a ∈ M'.world.sent.drop M.world.sent.length, a.reply.Decodes := by
  have hgarbled (M : Machine) (h : Reachable { target := text "t" } (fun _ => True) Arriving M)
      (hrun : M.running = true) (hkeyless : keyless M.world.mem commitOffer = true) :
      ∃ M', Step { target := text "t" } (fun _ => True) M (.message {} commitOffer) M' ∧
        Garbles M.world.sent.length M'.world := by
    obtain ⟨r, w', hexec, hbad⟩ : ∃ r w', Prog.Exec (fun _ => True) (dispatch { target := text "t" } {} commitOffer)
        (M.world.receive commitOffer) r w' ∧ Garbles M.world.sent.length w' :=
      keyless_garbles (sound_inductive.reachable h).1 commitOffer_arrives hkeyless
    obtain ⟨w, running⟩ := M
    obtain rfl : running = true := hrun
    exact ⟨_, .message commitOffer_arrives.valid hexec, hbad⟩
  obtain ⟨M', hstep, a, ha, hbad⟩ := hgarbled _ (reachable_staging 0) (by decide) (by decide)
  simp only [not_forall]
  exact ⟨_, reachable_staging 0, by decide, by decide, commitOffer, commitOffer_arrives, M', hstep, a,
    ha, hbad⟩

end Runs

end Agent

end ConfigurationFabric
