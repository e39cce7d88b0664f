import ConfigurationFabric.AgentAnswers
import ConfigurationFabric.AgentWindow
import ConfigurationFabric.DistributorTargets

/-! The agent is the honest target that the distributor's ledger relies on. -/

namespace ConfigurationFabric

open LittleEndian
open Program
open Ledgers

namespace Agent

/-- What the target runs, as its agent has it. -/
def siteOf (s : AgentState) : Site Generation Digest where
  content := ⟨s.committedGeneration, s.committedDigest⟩
  window := if s.applyPrepared then some s.preparedGeneration else none

abbrev Truth (w : World) (m : Message) (reply : Reply) : Prop :=
  truthful (siteOf w.mem) (.message m) reply

/-- Updates that leave the site and the live pointers alone, and answers that are true of it. -/
structure Says (m : Message) (w w' : World) : Prop where
  site : siteOf w'.mem = siteOf w.mem
  window : (siteOf w'.dur).window = (siteOf w.dur).window
  current : w'.files.current = w.files.current
  sent : ∃ more, w'.sent = w.sent ++ more ∧ ∀ a ∈ more, Truth w m a.reply

/-- What handling a frame comes to. -/
structure Honest (m : Message) (w w' : World) : Prop where
  serves : serves (siteOf w.mem) (.message m) (siteOf w'.mem)
  sent : ∃ more, w'.sent = w.sent ++ more ∧ ∀ a ∈ more, Truth w' m a.reply

/-- Updates that leave the site alone, and say nothing. -/
def Still (w w' : World) : Prop := siteOf w'.mem = siteOf w.mem ∧ w'.sent = w.sent

/-- Updates that show nowhere. -/
structure Rests (w w' : World) : Prop where
  site : siteOf w'.mem = siteOf w.mem
  window : (siteOf w'.dur).window = (siteOf w.dur).window
  current : w'.files.current = w.files.current
  sent : w'.sent = w.sent

section Handlers

variable {w w' w'' : World} {m : Message} {allowed : Env → Prop} {o : AgentOptions}

theorem Says.same (hsite : siteOf w'.mem = siteOf w.mem) (hwindow : (siteOf w'.dur).window = (siteOf w.dur).window)
    (hcurrent : w'.files.current = w.files.current) (hsent : w'.sent = w.sent) : Says m w w' :=
  ⟨hsite, hwindow, hcurrent, [], by rw [hsent, List.append_nil], fun _ h => absurd h List.not_mem_nil⟩

theorem Says.refl (w : World) : Says m w w := .same rfl rfl rfl rfl

theorem Says.trans (h : Says m w w') (h' : Says m w' w'') : Says m w w'' := by
  refine ⟨h'.site.trans h.site, h'.window.trans h.window, h'.current.trans h.current, ?_⟩
  obtain ⟨more, hmore, htrue⟩ := h.sent
  obtain ⟨more', hmore', htrue'⟩ := h'.sent
  refine ⟨more ++ more', by rw [hmore', hmore, List.append_assoc], fun a ha => ?_⟩
  obtain ha | ha := List.mem_append.mp ha
  · exact htrue a ha
  · rw [Truth, ← h.site]
    exact htrue' a ha

theorem Says.answer {request : Message} {reply : Reply} (h : Truth w m reply) : Says m w (w.answer request reply) :=
  ⟨rfl, rfl, rfl, [_], rfl, fun a ha => by rwa [List.mem_singleton.mp ha]⟩

theorem Honest.tells (h : Honest m w w') (hspoken : Says m w' w'') : Honest m w w'' := by
  refine ⟨hspoken.site ▸ h.serves, ?_⟩
  obtain ⟨more, hmore, htrue⟩ := h.sent
  obtain ⟨more', hmore', htrue'⟩ := hspoken.sent
  refine ⟨more ++ more', by rw [hmore', hmore, List.append_assoc], fun a ha => ?_⟩
  rw [Truth, hspoken.site]
  obtain ha | ha := List.mem_append.mp ha
  · exact htrue a ha
  · exact htrue' a ha

theorem serves_self (x : Site Generation Digest) (m : Message) : serves x (.message m) x := by
  cases m with
  | hello => exact .inl rfl
  | applyAbort => exact .inl rfl
  | applyPrepare => exact .inl rfl
  | applyCommit => exact .inl rfl
  | _ => rfl

theorem Honest.still (h : Still w w') : Honest m w w' :=
  ⟨h.1 ▸ serves_self _ _, [], by rw [h.2, List.append_nil], fun _ h => absurd h List.not_mem_nil⟩

theorem Honest.refl (w : World) : Honest m w w := .still ⟨rfl, rfl⟩

/-! Programs that only speak. -/

theorem says_then {α : Type} {p : Agent α} {Q : α → World → Prop} (hp : p.Steps allowed (Says m) (fun _ _ => True) w)
    (hQ : ∀ a w', Says m w w' → Q a w') : p.Steps allowed (Says m) Q w :=
  (hp.keep (P := Says m w) (fun _ _ hstep hw => hw.trans hstep) (.refl w)).mono fun a w' h => hQ a w' h.2

theorem honest_tells {α : Type} {p : Agent α} (hp : p.Steps allowed (Says m) (fun _ _ => True) w') (h : Honest m w w') :
    p.Steps allowed Any (fun _ => Honest m w) w' :=
  (says_then hp fun _ _ hspoken => h.tells hspoken).rel_mono fun _ _ _ => trivial

theorem says_send {request : Message} {reply : Reply} (h : Truth w m reply) :
    (send request reply).Steps allowed (Says m) (fun _ _ => True) w := steps_send (.answer h) trivial fun _ => trivial

theorem says_sendNack {request : Message} {deployment : DeploymentId} {key : ConfigKey} {generation : Generation}
    {digest : Digest} {code : ErrorCode} {detail : String} :
    (sendNack request deployment key generation digest code detail).Steps allowed (Says m) (fun _ _ => True) w := by
  simp only [sendNack, Prog.steps_bind, steps_state]
  exact says_send trivial

theorem says_destroyTransfer (d : DeploymentId) :
    (destroyTransfer d).Steps allowed (Says m) (fun _ _ => True) w := by
  have hrest (w' : World) :
      (do if ((← state).transfers.find d).isSome then commit (.transferRemove d) : Agent Unit).Steps
        allowed (Says m) (fun _ _ => True) w' := by
    simp only [Prog.steps_bind, steps_state]
    split
    · exact ⟨.same rfl rfl rfl rfl, trivial⟩
    · trivial
  simp only [destroyTransfer, Prog.steps_bind]
  exact steps_remove (.same rfl rfl rfl rfl) (hrest _) (hrest _)

theorem says_resumePoint (p : PrepareMessage) : (resumePoint p).Steps allowed (Says m) (fun _ _ => True) w := by
  have hdestroy (w' : World) : (do destroyTransfer p.deployment; return 0 : Agent ℕ).Steps allowed (Says m)
      (fun _ _ => True) w' := by
    rw [Prog.steps_bind]
    exact says_then (says_destroyTransfer _) fun _ _ _ => trivial
  simp only [resumePoint, Prog.steps_bind, steps_state]
  split
  · trivial
  simp only [Prog.steps_bind, Prog.steps_read]
  split
  · split
    · split
      · trivial
      · exact hdestroy w
    · split
      · trivial
      · trivial
  · exact hdestroy w

theorem says_refusePrepare {p : PrepareMessage} {code : ErrorCode} {detail : String} {observed : DeliveryState} :
    (refusePrepare p code detail observed).Steps allowed (Says m) (fun _ _ => True) w := by
  simp only [refusePrepare, Prog.steps_bind, steps_state]
  exact says_send trivial

/-- A duplicate is confirmed of what the target runs. -/
theorem says_onPrepare {p : PrepareMessage} (hfenced : Fenced w) (hguarded : Guarded w) :
    (onPrepare o p).Steps allowed (Says (.prepare p)) (fun _ _ => True) w := by
  simp only [onPrepare, Prog.steps_bind, steps_state]
  split
  · exact says_refusePrepare
  split
  · simp only [Prog.steps_bind, steps_setState, steps_state, steps_commit]
    exact ⟨.same rfl rfl rfl rfl, .same rfl rfl rfl rfl, says_refusePrepare⟩
  case isFalse hstale =>
  split
  · simp only [Prog.steps_bind, steps_setState, steps_state, steps_commit]
    exact ⟨.same rfl rfl rfl rfl, .same rfl rfl rfl rfl, says_refusePrepare⟩
  split
  · exact says_refusePrepare
  split
  · exact says_refusePrepare
  split
  case h_1 f hfound =>
    obtain ⟨hfind, hmatch⟩ := Option.filter_eq_some_iff.mp hfound
    have hgeneration : f.generation = p.generation := eq_of_beq (Bool.and_eq_true_iff.mp hmatch).2
    have hentry := List.find?_some hfind
    obtain ⟨hkey, hdigest⟩ := Bool.and_eq_true_iff.mp hentry
    have hreached := hfenced.mem.findings f (List.mem_of_find?_eq_some hfind)
    rw [eq_of_beq hkey, eq_of_beq hdigest, hgeneration] at hreached
    obtain ⟨-, hcommitted, hcontent⟩ :=
      hfenced.live_of_finding hguarded (Bool.eq_false_of_not_eq_true hstale) hreached
    simp only [Prog.steps_bind, steps_setState, steps_state, steps_commit]
    refine ⟨.same rfl rfl rfl rfl, .same rfl rfl rfl rfl, says_send fun _ => ⟨p, rfl, rfl, ?_⟩⟩
    exact congrArg₂ Content.mk hcommitted hcontent
  case h_2 =>
    rw [Prog.steps_bind]
    refine says_then (says_resumePoint p) fun n w' _ => ?_
    simp only [beginTransfer, checkpointTransfer, Prog.steps_bind, steps_now]
    exact fun e _ => ⟨.same rfl rfl rfl rfl, says_send fun h => by cases h⟩

theorem says_writeChunk {d : DeploymentId} {c : TransferRecord} {p : ChunkMessage} :
    (writeChunk d c p).Steps allowed (Says m) (fun _ _ => True) w := by
  simp only [writeChunk, Prog.steps_bind, Prog.steps_read, steps_succeeds]
  intro e₁ _
  split
  · trivial
  simp only [Prog.steps_bind, Prog.steps_modify, Prog.steps_ask]
  refine ⟨.same rfl rfl rfl rfl, fun e₂ _ => ⟨.same rfl rfl rfl rfl, ?_⟩⟩
  split
  · trivial
  simp only [Prog.steps_bind, Prog.steps_modify, steps_succeeds]
  refine ⟨.same rfl rfl rfl rfl, fun e₃ _ => ?_⟩
  split <;> trivial

theorem says_onChunk {p : ChunkMessage} : (onChunk p).Steps allowed (Says (.chunk p)) (fun _ _ => True) w := by
  have hrespond (ack : ChunkAckMessage) (w' : World) :
      (send (.chunk p) (.chunkAck ack)).Steps allowed (Says (.chunk p)) (fun _ _ => True) w' := says_send trivial
  simp only [onChunk, Prog.steps_bind, steps_state]
  split
  · exact hrespond _ _
  split
  · exact hrespond _ _
  split
  · exact hrespond _ _
  split
  · exact hrespond _ _
  rw [Prog.steps_bind]
  refine says_then says_writeChunk fun r w' _ => ?_
  split
  · exact hrespond _ _
  simp only [Prog.steps_bind, steps_now, Prog.steps_modify, Prog.steps_read]
  refine fun e _ => ⟨.same rfl rfl rfl rfl, ?_⟩
  split
  · exact ⟨.same rfl rfl rfl rfl, hrespond _ _⟩
  · exact ⟨.same rfl rfl rfl rfl, hrespond _ _⟩

theorem says_rejectTransfer {p : TransferCompleteMessage} {c : TransferRecord} {actual : Result Digest} :
    (rejectTransfer p c actual).Steps allowed (Says m) (fun _ _ => True) w := by
  simp only [rejectTransfer, Prog.steps_bind, steps_setState, steps_state, steps_commit]
  refine ⟨.same rfl rfl rfl rfl, .same rfl rfl rfl rfl, says_then (says_destroyTransfer _) fun _ w' _ => ?_⟩
  rw [Prog.steps_bind]
  exact steps_send (.answer trivial) says_sendNack fun _ => trivial

theorem says_onTransferComplete {p : TransferCompleteMessage} :
    (onTransferComplete p).Steps allowed (Says (.transferComplete p)) (fun _ _ => True) w := by
  have hrespond (result : TransferResultMessage) (w' : World) :
      (send (.transferComplete p) (.transferResult result)).Steps allowed (Says (.transferComplete p))
        (fun _ _ => True) w' := says_send trivial
  have hverified (c : TransferRecord) (actual : Result Digest) (w' : World) :
      (if actual = .ok c.digest then do
        let updatedAtMillis ← now
        checkpointTransfer { c with verified := true, updatedAtMillis }
        send (.transferComplete p) (.transferResult {
          deployment := p.deployment, stream := p.stream, bytesReceived := c.bytesReceived, verified := true, code := .ok })
      else rejectTransfer p c actual).Steps allowed (Says (.transferComplete p)) (fun _ _ => True) w' := by
    split
    · simp only [Prog.steps_bind, checkpointTransfer, steps_now]
      exact fun e _ => ⟨.same rfl rfl rfl rfl, hrespond _ _⟩
    · exact says_rejectTransfer
  simp only [onTransferComplete, Prog.steps_bind, steps_state]
  split
  · exact hrespond _ _
  split
  · exact hrespond _ _
  split
  · exact hrespond _ _
  simp only [Prog.steps_bind, Prog.steps_read]
  exact steps_hashStagingFile (hverified _ _ _) fun e => hverified _ _ _

theorem says_copyFileAtomic {source : Directory} {name : PayloadName} :
    (copyFileAtomic source name).Steps allowed (Says m) (fun _ _ => True) w := by
  simp only [copyFileAtomic, Prog.steps_bind, Prog.steps_ask, Prog.steps_read]
  intro e _
  split
  · trivial
  simp only [Prog.steps_bind, steps_succeeds]
  intro e₁ _
  split
  · trivial
  simp only [Prog.steps_bind, steps_setFiles, steps_succeeds]
  refine ⟨.same rfl rfl rfl rfl, fun e₂ _ => ?_⟩
  split
  · rw [Prog.steps_bind]
    exact steps_remove (.same rfl rfl rfl rfl) trivial trivial
  simp only [Prog.steps_bind, steps_succeeds]
  intro e₃ _
  split
  · rw [Prog.steps_bind]
    exact steps_remove (.same rfl rfl rfl rfl) trivial trivial
  · simp only [Prog.steps_bind, steps_setFiles]
    exact ⟨.same rfl rfl rfl rfl, trivial⟩

theorem says_onStage {p : StageMessage} : (onStage p).Steps allowed (Says (.stage p)) (fun _ _ => True) w := by
  have hrespond (ack : StageAckMessage) (w' : World) :
      (send (.stage p) (.stageAck ack)).Steps allowed (Says (.stage p)) (fun _ _ => True) w' := says_send trivial
  simp only [onStage, Prog.steps_bind, steps_state]
  split
  · exact hrespond _ _
  split
  · exact hrespond _ _
  split
  · exact hrespond _ _
  split
  · exact hrespond _ _
  simp only [Prog.steps_bind, steps_succeeds]
  intro e _
  split
  · exact hrespond _ _
  rw [Prog.steps_bind]
  refine says_then says_copyFileAtomic fun r w' _ => ?_
  split
  · exact hrespond _ _
  · simp only [checkpointTransfer, Prog.steps_bind, steps_now]
    exact fun e _ => ⟨.same rfl rfl rfl rfl, hrespond _ _⟩

theorem says_onRetire {p : RetireMessage} : (onRetire p).Steps allowed (Says (.retire p)) (fun _ _ => True) w := by
  simp only [onRetire, Prog.steps_bind, steps_state]
  split
  · exact says_send trivial
  · rw [Prog.steps_bind]
    exact says_then (says_destroyTransfer _) fun _ _ _ => says_send trivial

/-- A recorded activation is of what the target runs, or older. -/
theorem Fenced.finding (h : Fenced w) (hg : Guarded w) {f : AppliedFinding} (hf : f ∈ w.mem.findings) :
    f.generation < w.mem.committedGeneration ∨ ⟨f.generation, f.digest⟩ = (siteOf w.mem).content := by
  by_cases hlt : f.generation < w.mem.committedGeneration
  · exact .inl hlt
  · have hstale : stale w.mem f.generation = false := by simp [stale, hlt]
    obtain ⟨-, hcommitted, hcontent⟩ := h.live_of_finding hg hstale (h.mem.findings f hf)
    exact .inr (congrArg₂ Content.mk hcommitted.symm hcontent.symm)

theorem says_onReconcileRequest {p : ReconcileRequestMessage} (hfenced : Fenced w) (hguarded : Guarded w) :
    (onReconcileRequest p).Steps allowed (Says (.reconcileRequest p)) (fun _ _ => True) w := by
  simp only [onReconcileRequest, Prog.steps_bind, Prog.steps_read]
  refine says_send ⟨rfl, ?_, fun f hf _ => hfenced.finding hguarded (List.mem_of_mem_drop hf)⟩
  change (if w.mem.applyPrepared = true then some w.mem.preparedGeneration else none).isSome = w.mem.applyPrepared
  cases w.mem.applyPrepared <;> rfl

/-- The acknowledgement tells what the target runs. -/
theorem says_acceptHello {hello : HelloMessage} :
    (acceptHello hello).Steps allowed (Says (.hello hello)) (fun _ _ => True) w := by
  have hrefuse (code : ErrorCode) (detail : String) {Q : Result HelloAckMessage → World → Prop}
      (hQ : ∀ w', Q (.error ⟨code, detail, ""⟩) w') :
      (refuseHello hello code detail : Agent (Result HelloAckMessage)).Steps allowed (Says (.hello hello)) Q w := by
    simp only [refuseHello, Prog.steps_bind]
    exact steps_send (.answer trivial) (hQ _) fun _ => hQ _
  have hadopt : (adoptAuthority hello).Steps allowed (Says (.hello hello)) (fun r w' => ∀ ack, r = .ok ack →
      (siteOf w'.mem).content = ⟨ack.committedGeneration, ack.committedDigest⟩) w := by
    simp only [adoptAuthority, Prog.steps_bind, steps_state]
    split
    · exact hrefuse _ _ fun _ _ h => by cases h
    split
    · exact hrefuse _ _ fun _ _ h => by cases h
    simp only [Prog.steps_bind, steps_commit, steps_state, Prog.steps_ask]
    refine ⟨.same rfl rfl rfl rfl, fun e _ ack hack => ?_⟩
    cases hack
    rfl
  simp only [acceptHello, Prog.steps_bind]
  refine hadopt.mono fun r w' htrue => ?_
  split
  · trivial
  next ack =>
    simp only [Prog.steps_bind]
    exact steps_send (.answer (htrue ack rfl)) trivial fun _ => trivial

/-! Windows. -/

/-- A window is opened for what is staged, or not at all. -/
theorem honest_onApplyPrepare {p : ApplyPrepareMessage} :
    (onApplyPrepare p).Steps allowed Any (fun _ => Honest (.applyPrepare p) w) w := by
  have hrespond (ack : ApplyPrepareAckMessage) {w' : World} (hw' : Honest (.applyPrepare p) w w') :
      (send (.applyPrepare p) (.applyPrepareAck ack)).Steps allowed Any (fun _ => Honest (.applyPrepare p) w) w' :=
    honest_tells (says_send trivial) hw'
  simp only [onApplyPrepare, Prog.steps_bind, steps_state]
  split
  · exact hrespond _ (.refl w)
  split
  · exact hrespond _ (.refl w)
  next c hfind =>
    split
    · exact hrespond _ (.refl w)
    next hstale =>
    split
    · exact hrespond _ (.refl w)
    next hcontent =>
    split
    · exact hrespond _ (.refl w)
    have hgeneration : p.generation = c.generation := not_not.mp (not_or.mp hcontent).2
    have hle : w.mem.committedGeneration ≤ p.generation := by
      rw [stale, Bool.and_eq_true, not_and, decide_eq_true_eq, decide_eq_true_eq] at hstale
      by_cases hzero : w.mem.committedGeneration = 0
      · rw [hzero]
        exact Nat.zero_le _
      · exact not_lt.mp (hstale hzero)
    have hsame (f : Files → Files) : Honest (.applyPrepare p) w (w.onFiles f) := .still ⟨rfl, rfl⟩
    have hopened {files : Files} : Honest (.applyPrepare p) w
        ({ w with files }.commit (.applyPrepared c.deployment c.generation c.digest)) := by
      refine ⟨.inr ⟨hle, ?_⟩, [], (List.append_nil _).symm, fun _ h => absurd h List.not_mem_nil⟩
      rw [hgeneration]
      rfl
    rw [Prog.steps_bind, openWindow, Prog.steps_bind]
    refine steps_writeFileAtomic trivial ?_ (fun _ => hrespond _ (.refl w)) fun _ => ⟨trivial, trivial, ?_, fun _ => ?_⟩
    · exact ⟨trivial, hrespond _ hopened⟩
    · exact ⟨trivial, hrespond _ hopened⟩
    · exact hrespond _ (hsame _)

/-- A window is rolled back, or stays. -/
theorem honest_onApplyAbort {p : ApplyAbortMessage} :
    (onApplyAbort p).Steps allowed Any (fun _ => Honest (.applyAbort p) w) w := by
  have hrespond (ack : ApplyAbortAckMessage) {w' : World} (hw' : Honest (.applyAbort p) w w') :
      (send (.applyAbort p) (.applyAbortAck ack)).Steps allowed Any (fun _ => Honest (.applyAbort p) w) w' :=
    honest_tells (says_send trivial) hw'
  have hclosed {w' : World} (hcontent : siteOf w'.mem = { siteOf w.mem with window := none }) (hsent : w'.sent = w.sent) :
      Honest (.applyAbort p) w w' :=
    ⟨.inr hcontent, [], by rw [hsent, List.append_nil], fun _ h => absurd h List.not_mem_nil⟩
  simp only [onApplyAbort, Prog.steps_bind, steps_state]
  split
  · exact hrespond _ (.refl w)
  split
  · exact hrespond _ (.refl w)
  split
  · rw [Prog.steps_bind]
    refine steps_remove trivial ?_ ?_
    · simp only [Prog.steps_bind, steps_setState, steps_state, steps_commit]
      exact ⟨trivial, trivial, trivial, hrespond _ (hclosed rfl rfl)⟩
    · simp only [Prog.steps_bind, steps_setState, steps_state, steps_commit]
      exact ⟨trivial, trivial, trivial, hrespond _ (hclosed rfl rfl)⟩
  · simp only [Prog.steps_bind, steps_setState, steps_state, steps_commit]
    exact ⟨trivial, trivial, trivial, hrespond _ (hclosed rfl rfl)⟩

/-! Commits. -/

theorem says_refuseCommit {p : ApplyCommitMessage} {ack : ApplyCommitAckMessage} {key : ConfigKey} {detail : String}
    (hack : ack.committed = false) :
    (refuseCommit p ack key detail).Steps allowed (Says (.applyCommit p)) (fun _ _ => True) w := by
  simp only [refuseCommit, Prog.steps_bind]
  refine steps_send (.answer fun h => ?_) says_sendNack fun _ => trivial
  rw [hack] at h
  cases h

theorem says_confirmCommit {session : Session} {p : ApplyCommitMessage} {ack : ApplyCommitAckMessage} {key : ConfigKey}
    {bytes : ℕ} (hcontent : (siteOf w.mem).content = ⟨p.generation, p.digest⟩)
    (hack : (siteOf w.mem).content = ⟨ack.committedGeneration, ack.committedDigest⟩) :
    (confirmCommit session p ack key bytes).Steps allowed (Says (.applyCommit p)) (fun _ _ => True) w := by
  simp only [confirmCommit, Prog.steps_bind]
  refine steps_send (.answer fun _ => hack) ?_ fun _ => trivial
  simp only [sendAck, Prog.steps_bind, steps_state, steps_now]
  exact fun e _ => says_send hcontent

theorem Still.trans (h : Still w w') (h' : Still w' w'') : Still w w'' := ⟨h'.1.trans h.1, h'.2.trans h.2⟩

/-- What follows may rely on nothing having changed. -/
theorem still_then {α : Type} {p : Agent α} {Q : α → World → Prop} (hp : p.Steps allowed Still (fun _ _ => True) w)
    (hQ : ∀ a w', Still w w' → Q a w') : p.Steps allowed Any Q w :=
  ((hp.keep (P := Still w) (fun _ _ hstep hw => hw.trans hstep) ⟨rfl, rfl⟩).mono fun a w' h => hQ a w' h.2).rel_mono
    fun _ _ _ => trivial

theorem still_switchPointer {c : TransferRecord} : (switchPointer c).Steps allowed Still (fun _ _ => True) w := by
  refine steps_writeFileAtomic ⟨rfl, rfl⟩ trivial (fun _ => trivial) fun _ => ?_
  exact ⟨⟨rfl, rfl⟩, ⟨rfl, rfl⟩, trivial, fun _ => trivial⟩

theorem rests_removePayloads (names : List (PayloadName ⊕ Directory × Bytes)) :
    (removePayloads names).Steps allowed Rests (fun _ _ => True) w := by
  induction names generalizing w with
  | nil => exact trivial
  | cons name rest ih =>
    cases name with
    | inl name =>
      simp only [removePayloads, Prog.steps_bind]
      exact steps_remove ⟨rfl, rfl, rfl, rfl⟩ ih ih
    | inr part =>
      simp only [removePayloads, Prog.steps_bind]
      exact steps_remove ⟨rfl, rfl, rfl, rfl⟩ ih ih

theorem rests_prunePayloads {key : ConfigKey} : (prunePayloads o key).Steps allowed Rests (fun _ _ => True) w := by
  simp only [prunePayloads, Prog.steps_bind, Prog.steps_ask, Prog.steps_read]
  intro e _
  split
  · trivial
  · exact rests_removePayloads _

/-- The content of a record, with no window. -/
def Commits (c : TransferRecord) (w w' : World) : Prop :=
  siteOf w'.mem = { content := ⟨c.generation, c.digest⟩ } ∧ w'.sent = w.sent

theorem commits_commitGeneration {c : TransferRecord} :
    (commitGeneration c).Steps allowed Any (fun _ => Commits c w) w := by
  have hrecord (w' : World) (hsent : w'.sent = w.sent) (hclosed : w'.mem.applyPrepared = false) :
      (recordActivation c).Steps allowed Any (fun _ => Commits c w) w' := by
    simp only [recordActivation, Prog.steps_bind, steps_commit, steps_now, steps_setState, steps_state]
    refine ⟨trivial, fun e _ => ⟨trivial, trivial, trivial, ?_, hsent⟩⟩
    change Site.mk _ (if w'.mem.applyPrepared = true then some w'.mem.preparedGeneration else none) = _
    rw [hclosed]
    rfl
  simp only [commitGeneration, Prog.steps_bind, steps_state]
  split
  · rw [Prog.steps_bind]
    exact ⟨trivial, hrecord _ rfl rfl⟩
  next hclosed => exact hrecord _ rfl (Bool.eq_false_of_not_eq_true hclosed)

/-- An activation that succeeds leaves the site at its content, with no window; one that fails leaves it alone. -/
theorem honest_activate {c : TransferRecord} {explicitPrepare : Bool}
    (hopen : explicitPrepare = true → w.mem.applyPrepared = true) : (activate o c explicitPrepare).Steps allowed Any
      (fun r w' => (∃ e, r = .error e) ∧ Still w w' ∨ r = .ok () ∧ Commits c w w') w := by
  have hnone : (explicitPrepare && !w.mem.applyPrepared) = false := by
    cases explicitPrepare with
    | false => rfl
    | true => rw [hopen rfl]; rfl
  have hcommit (w' : World) (hw' : Still w w') : (do
      commitGeneration c
      prunePayloads o c.key
      return .ok () : Agent Status).Steps allowed Any
        (fun r w' => (∃ e, r = .error e) ∧ Still w w' ∨ r = .ok () ∧ Commits c w w') w' := by
    rw [Prog.steps_bind]
    refine commits_commitGeneration.mono fun _ w₁ h₁ => ?_
    rw [Prog.steps_bind]
    refine still_then (rests_prunePayloads.rel_mono fun _ _ h => ⟨h.site, h.sent⟩) fun _ w₂ h₂ => .inr ⟨rfl, ?_, ?_⟩
    · rw [h₂.1]
      exact h₁.1
    · rw [h₂.2, h₁.2, hw'.2]
  simp only [activate, Prog.steps_bind, steps_state, hnone, Bool.false_eq_true, if_false, Prog.steps_pure]
  refine still_then still_switchPointer fun r w₁ h₁ => ?_
  split
  · exact .inl ⟨⟨_, rfl⟩, h₁⟩
  split
  · rw [Prog.steps_bind]
    exact steps_remove trivial (hcommit _ (h₁.trans ⟨rfl, rfl⟩)) (hcommit _ h₁)
  · exact hcommit _ h₁

theorem honest_onApplyCommit {session : Session} {p : ApplyCommitMessage} (hfenced : Fenced w) (hguarded : Guarded w)
    (hvalid : p.generation ≠ 0) :
    (onApplyCommit o session p).Steps allowed Any (fun _ => Honest (.applyCommit p) w) w := by
  have hrefuse {ack : ApplyCommitAckMessage} {key : ConfigKey} {detail : String} {w' : World}
      (hack : ack.committed = false) (hw' : Honest (.applyCommit p) w w') :
      (refuseCommit p ack key detail).Steps allowed Any (fun _ => Honest (.applyCommit p) w) w' :=
    honest_tells (says_refuseCommit hack) hw'
  simp only [onApplyCommit, Prog.steps_bind, steps_state]
  split
  · simp only [Prog.steps_bind, steps_setState, steps_state, steps_commit]
    exact ⟨trivial, trivial, hrefuse rfl (.still ⟨rfl, rfl⟩)⟩
  next hstale =>
  split
  next hsame =>
    have hcontent : (siteOf w.mem).content = ⟨p.generation, p.digest⟩ :=
      congrArg₂ Content.mk hsame.2.1.symm hsame.2.2.symm
    simp only [Prog.steps_bind, steps_setState, steps_state, steps_commit]
    exact ⟨trivial, trivial, honest_tells (says_confirmCommit hcontent rfl) (.still ⟨rfl, rfl⟩)⟩
  next hsame =>
  split
  · exact hrefuse rfl (.refl w)
  next hconflict =>
  have hfresh := fresh_of hstale hsame hconflict
  split
  · split
    next hany =>
      obtain ⟨f, hf, hmatch⟩ := List.any_eq_true.mp hany
      simp only [Bool.and_eq_true, beq_iff_eq] at hmatch
      exact (hfenced.not_fresh hguarded hfresh hf hmatch.1.1).elim
    · exact hrefuse rfl (.refl w)
  next c hfind =>
  split
  · exact hrefuse rfl (.refl w)
  next hcontent =>
  obtain ⟨hdigest, hgeneration⟩ := not_or.mp hcontent
  rw [not_not] at hdigest hgeneration
  split
  · exact hrefuse rfl (.refl w)
  next hexplicit =>
  split
  · exact hrefuse rfl (.refl w)
  have hopen : (w.mem.guarantee == .prepareCommitAbort) = true → w.mem.applyPrepared = true := by
    intro hguarantee
    by_contra hclosed
    exact hexplicit ⟨eq_of_beq hguarantee, by rw [Bool.not_eq_true] at hclosed; rw [hclosed]; rfl⟩
  have hlt : w.mem.committedGeneration < p.generation := by
    obtain hzero | hlt := hfresh
    · rw [hzero]
      exact Nat.pos_of_ne_zero hvalid
    · exact hlt
  rw [Prog.steps_bind]
  refine (honest_activate hopen).mono ?_
  rintro r w' (⟨⟨e, rfl⟩, hsite, hsent⟩ | ⟨rfl, hsite, hsent⟩)
  · exact hrefuse rfl (.still ⟨hsite, hsent⟩)
  · rw [← hgeneration, ← hdigest] at hsite
    have hcommitted : Honest (.applyCommit p) w w' :=
      ⟨.inr ⟨hlt, hsite⟩, [], by rw [hsent, List.append_nil], fun _ h => absurd h List.not_mem_nil⟩
    simp only [Prog.steps_bind, steps_state]
    exact honest_tells (says_confirmCommit (congrArg Site.content hsite) rfl) hcommitted

/-! Every frame. -/

theorem honest_dispatch {session : Session} (hfenced : Fenced w) (hguarded : Guarded w) (hvalid : m.Valid) :
    (dispatch o session m).Steps allowed Any (fun _ => Honest m w) w := by
  have hspeaks {p : Agent Status} (hp : p.Steps allowed (Says m) (fun _ _ => True) w) :
      p.Steps allowed Any (fun _ => Honest m w) w := honest_tells hp (.refl w)
  cases m with
  | prepare p => exact hspeaks (says_onPrepare hfenced hguarded)
  | chunk p => exact hspeaks says_onChunk
  | transferComplete p => exact hspeaks says_onTransferComplete
  | stage p => exact hspeaks says_onStage
  | applyPrepare p => exact honest_onApplyPrepare
  | applyCommit p => exact honest_onApplyCommit hfenced hguarded hvalid.2
  | applyAbort p => exact honest_onApplyAbort
  | reconcileRequest p => exact hspeaks (says_onReconcileRequest hfenced hguarded)
  | retire p => exact hspeaks says_onRetire
  | ping nonce => exact hspeaks (says_send trivial)
  | goodbye | hello _ | unexpected => exact .refl w

/-- The target of an agent, with what a session has not read, and what it was sent. -/
def peerOf (w : World) (unread : List Reply) (heard : List Outgoing) : ConfigurationFabric.Peer :=
  { siteOf w.mem with unread, heard }

/-- What the agent does on a frame is what the ledger expects of the target. -/
theorem Honest.answers (h : Honest m w w') (unread : List Reply) (heard : List Outgoing) :
    ∃ more, w'.sent = w.sent ++ more ∧ (peerOf w unread heard).Answers (.message m)
      (peerOf w' ((peerOf w unread heard).waiting (.message m) ++ more.map (·.reply)) (heard ++ [.message m])) := by
  obtain ⟨more, hmore, htrue⟩ := h.sent
  refine ⟨more, hmore, rfl, h.serves, more.map (·.reply), rfl, fun reply hreply => ?_⟩
  obtain ⟨a, ha, rfl⟩ := List.mem_map.mp hreply
  exact htrue a ha

/-- A start's walk ends at the newest pointer, and its payload can be verified. -/
def EndsWell (o : AgentOptions) (w : World) : Event → Prop
  | .start order => EndsAtNewest order w ∧ EndsVerifiable o order w.files
  | _ => True

instance (o : AgentOptions) (w : World) : DecidablePred (EndsWell o w)
  | .start order => inferInstanceAs (Decidable (EndsAtNewest order w ∧ EndsVerifiable o order w.files))
  | .hello _ | .crash | .message _ _ => .isTrue trivial

end Handlers

/-- Everything up to the commit of a byte. -/
def uncommitted : Machine := run { target := text "t" } (.start [] :: (delivery (text "d") (text "k") 3 66).take 4)

def byteCommit : Message := .applyCommit ⟨text "d", 3, Digest.ofContent [66]⟩

def committing : Option Status × World :=
  Prog.run (dispatch { target := text "t" } {} byteCommit) calm 200 (uncommitted.world.receive byteCommit)

end Agent

end ConfigurationFabric
