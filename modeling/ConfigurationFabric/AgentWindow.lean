import Mathlib.Data.List.Dedup
import ConfigurationFabric.AgentAuthority

/-! The prepare window: its marker in the live area and its record in the state. -/

namespace ConfigurationFabric

open LittleEndian
open Program

namespace Agent

/-- The answers that say a window is closed. -/
def Closing : Reply → Prop
  | .applyCommitAck a => a.committed = true
  | .applyAbortAck a => a.aborted = true
  | _ => False

/-- The key a deployment was offered for; a record of its transfer has it. -/
structure KeyOf (w : World) (deployment : DeploymentId) (key : ConfigKey) : Prop where
  requested : ∃ q, Message.prepare q ∈ w.received ∧ q.deployment = deployment ∧ q.key = key
  recorded : ∀ c, w.mem.transfers.find deployment = some c → c.key = key

/-- A marker stands exactly while a window is open: one, in the directory of the prepared deployment's key. -/
def Consistent (w : World) : Prop :=
  if w.mem.applyPrepared then
    ∃ key, KeyOf w w.mem.preparedDeployment key ∧ w.files.pending.keys = [liveKeyDirectory key]
  else w.files.pending.keys = []

def Closed (w : World) : Prop := w.mem.applyPrepared = false ∧ w.files.pending.keys = []

/-! Updates that leave the window alone. -/

structure Idle (w w' : World) : Prop where
  pending : w'.files.pending = w.files.pending
  prepared : w'.mem.applyPrepared = w.mem.applyPrepared
  deployment : w'.mem.preparedDeployment = w.mem.preparedDeployment
  guarantee : w'.mem.guarantee = w.mem.guarantee
  received : w'.received = w.received
  /-- while a window is open no record appears and none changes its key -/
  transfers : w.mem.applyPrepared = true → ∀ d c', w'.mem.transfers.find d = some c' →
    ∃ c, w.mem.transfers.find d = some c ∧ c.key = c'.key
  sent : ∃ more, w'.sent = w.sent ++ more ∧ ∀ a ∈ more, Closing a.reply → w.mem.applyPrepared = false

section Idle

variable {w w' w'' : World} {allowed : Env → Prop}

theorem Idle.same (hpending : w'.files.pending = w.files.pending) (hprepared : w'.mem.applyPrepared = w.mem.applyPrepared)
    (hdeployment : w'.mem.preparedDeployment = w.mem.preparedDeployment)
    (hguarantee : w'.mem.guarantee = w.mem.guarantee) (hreceived : w'.received = w.received)
    (htransfers : w'.mem.transfers = w.mem.transfers) (hsent : w'.sent = w.sent) : Idle w w' where
  pending := hpending
  prepared := hprepared
  deployment := hdeployment
  guarantee := hguarantee
  received := hreceived
  transfers _ d c' hc := ⟨c', by rw [← htransfers, hc], rfl⟩
  sent := ⟨[], by rw [hsent, List.append_nil], by simp⟩

theorem Idle.refl (w : World) : Idle w w := .same rfl rfl rfl rfl rfl rfl rfl

theorem Idle.trans (h : Idle w w') (h' : Idle w' w'') : Idle w w'' where
  pending := h'.pending.trans h.pending
  prepared := h'.prepared.trans h.prepared
  deployment := h'.deployment.trans h.deployment
  guarantee := h'.guarantee.trans h.guarantee
  received := h'.received.trans h.received
  transfers hopen d c'' hc := by
    obtain ⟨c', hc', hkey'⟩ := h'.transfers (h.prepared.trans hopen) d c'' hc
    obtain ⟨c, hc, hkey⟩ := h.transfers hopen d c' hc'
    exact ⟨c, hc, hkey.trans hkey'⟩
  sent := by
    obtain ⟨more, hmore, hclosing⟩ := h.sent
    obtain ⟨more', hmore', hclosing'⟩ := h'.sent
    refine ⟨more ++ more', by rw [hmore', hmore, List.append_assoc], fun a ha hc => ?_⟩
    obtain ha | ha := List.mem_append.mp ha
    · exact hclosing a ha hc
    · exact h.prepared.symm.trans (hclosing' a ha hc)

theorem Idle.answer {request : Message} {reply : Reply} (h : Closing reply → w.mem.applyPrepared = false) :
    Idle w (w.answer request reply) where
  pending := rfl
  prepared := rfl
  deployment := rfl
  guarantee := rfl
  received := rfl
  transfers _ d c' hc := ⟨c', hc, rfl⟩
  sent := ⟨[_], rfl, fun a ha hc => h (by rwa [List.mem_singleton.mp ha] at hc)⟩

/-- A record that is kept up to date has its key already, or no window is open. -/
theorem Idle.upsert {c' : TransferRecord} (h : w.mem.applyPrepared = true → ∃ c,
    w.mem.transfers.find c'.deployment = some c ∧ c.key = c'.key) : Idle w (w.commit (.transferUpsert c')) where
  pending := rfl
  prepared := rfl
  deployment := rfl
  guarantee := rfl
  received := rfl
  transfers hopen d c'' hc := by
    change (w.mem.transfers.insert c'.deployment c').find d = some c'' at hc
    rw [SortedMap.find_insert] at hc
    split at hc
    case isTrue hd =>
      rw [hd, ← Option.some.inj hc]
      exact h hopen
    case isFalse => exact ⟨c'', hc, rfl⟩
  sent := ⟨[], by rw [List.append_nil]; rfl, by simp⟩

theorem Idle.removed (d : DeploymentId) : Idle w (w.commit (.transferRemove d)) where
  pending := rfl
  prepared := rfl
  deployment := rfl
  guarantee := rfl
  received := rfl
  transfers _ d' c' hc := by
    change (w.mem.transfers.erase d).find d' = some c' at hc
    rw [SortedMap.find_erase] at hc
    split at hc
    · cases hc
    · exact ⟨c', hc, rfl⟩
  sent := ⟨[], by rw [List.append_nil]; rfl, by simp⟩

theorem Idle.remembered {c c' : TransferRecord} (hc : w.mem.transfers.find c.deployment = some c) (hkey : c.key = c'.key) :
    Idle w (w.remember c.deployment c') where
  pending := rfl
  prepared := rfl
  deployment := rfl
  guarantee := rfl
  received := rfl
  transfers _ d c'' hc'' := by
    change (w.mem.transfers.insert c.deployment c').find d = some c'' at hc''
    rw [SortedMap.find_insert] at hc''
    split at hc''
    case isTrue hd =>
      rw [hd, ← Option.some.inj hc'']
      exact ⟨c, hc, hkey⟩
    case isFalse => exact ⟨c'', hc'', rfl⟩
  sent := ⟨[], by rw [List.append_nil]; rfl, by simp⟩

/-! Programs of such updates. -/

/-- What follows may rely on nothing having touched the window. -/
theorem idle_then {α : Type} {p : Agent α} {Q : α → World → Prop} (hp : p.Steps allowed Idle (fun _ _ => True) w)
    (hQ : ∀ a w', Idle w w' → Q a w') : p.Steps allowed Idle Q w :=
  (hp.keep (P := Idle w) (fun _ _ hstep hw => hw.trans hstep) (.refl w)).mono fun a w' h => hQ a w' h.2

theorem idle_send {request : Message} {reply : Reply} (h : Closing reply → w.mem.applyPrepared = false) :
    (send request reply).Steps allowed Idle (fun _ _ => True) w :=
  steps_send (.answer h) trivial fun _ => trivial

theorem idle_sendNack {request : Message} {deployment : DeploymentId} {key : ConfigKey} {generation : Generation}
    {digest : Digest} {code : ErrorCode} {detail : String} :
    (sendNack request deployment key generation digest code detail).Steps allowed Idle (fun _ _ => True) w := by
  simp only [sendNack, Prog.steps_bind, steps_state]
  exact idle_send fun h => h.elim

theorem idle_sendAck {session : Session} {request : Message} {deployment : DeploymentId} {key : ConfigKey}
    {generation : Generation} {digest : Digest} {bytes : ℕ} :
    (sendAck session request deployment key generation digest bytes).Steps allowed Idle (fun _ _ => True) w := by
  simp only [sendAck, Prog.steps_bind, steps_state, steps_now]
  exact fun e _ => idle_send fun h => h.elim

theorem idle_destroyTransfer (d : DeploymentId) : (destroyTransfer d).Steps allowed Idle (fun _ _ => True) w := by
  have hrest (w' : World) :
      (do if ((← state).transfers.find d).isSome then commit (.transferRemove d) : Agent Unit).Steps
        allowed Idle (fun _ _ => True) w' := by
    simp only [Prog.steps_bind, steps_state]
    split
    · exact ⟨.removed d, trivial⟩
    · trivial
  simp only [destroyTransfer, Prog.steps_bind]
  exact steps_remove (.same rfl rfl rfl rfl rfl rfl rfl) (hrest _) (hrest _)

theorem idle_resumePoint (m : PrepareMessage) : (resumePoint m).Steps allowed Idle (fun _ _ => True) w := by
  have hdestroy (w' : World) : (do destroyTransfer m.deployment; return 0 : Agent ℕ).Steps allowed Idle
      (fun _ _ => True) w' := by
    rw [Prog.steps_bind]
    exact idle_then (idle_destroyTransfer _) fun _ _ _ => trivial
  simp only [resumePoint, Prog.steps_bind, steps_state]
  split
  · trivial
  simp only [Prog.steps_bind, Prog.steps_read]
  split
  · split
    · split
      · trivial
      · exact hdestroy w
    · split
      · trivial
      · trivial
  · exact hdestroy w

theorem idle_refusePrepare {m : PrepareMessage} {code : ErrorCode} {detail : String} {observed : DeliveryState} :
    (refusePrepare m code detail observed).Steps allowed Idle (fun _ _ => True) w := by
  simp only [refusePrepare, Prog.steps_bind, steps_state]
  exact idle_send fun h => h.elim

/-- An offer is refused while a window is open. -/
theorem idle_onPrepare {o : AgentOptions} {m : PrepareMessage} :
    (onPrepare o m).Steps allowed Idle (fun _ _ => True) w := by
  simp only [onPrepare, Prog.steps_bind, steps_state]
  split
  · exact idle_refusePrepare
  split
  · simp only [Prog.steps_bind, steps_setState, steps_state, steps_commit]
    exact ⟨.same rfl rfl rfl rfl rfl rfl rfl, .same rfl rfl rfl rfl rfl rfl rfl, idle_refusePrepare⟩
  split
  · simp only [Prog.steps_bind, steps_setState, steps_state, steps_commit]
    exact ⟨.same rfl rfl rfl rfl rfl rfl rfl, .same rfl rfl rfl rfl rfl rfl rfl, idle_refusePrepare⟩
  split
  · exact idle_refusePrepare
  split
  · exact idle_refusePrepare
  case isFalse hclosed =>
  split
  · simp only [Prog.steps_bind, steps_setState, steps_state, steps_commit]
    exact ⟨.same rfl rfl rfl rfl rfl rfl rfl, .same rfl rfl rfl rfl rfl rfl rfl, idle_send fun h => h.elim⟩
  · rw [Prog.steps_bind]
    refine idle_then (idle_resumePoint m) fun n w' hw' => ?_
    simp only [beginTransfer, checkpointTransfer, Prog.steps_bind, steps_now]
    intro e _
    refine ⟨.upsert fun hopen => ?_, idle_send fun h => h.elim⟩
    exact absurd (hw'.prepared.symm.trans hopen) hclosed

theorem idle_writeChunk {d : DeploymentId} {c : TransferRecord} {m : ChunkMessage}
    {Q : Option (ErrorCode × String) → World → Prop} (hQ : ∀ r w', w'.mem = w.mem → Q r w') :
    (writeChunk d c m).Steps allowed Idle Q w := by
  simp only [writeChunk, Prog.steps_bind, Prog.steps_read, steps_succeeds]
  intro e₁ _
  split
  · exact hQ _ w rfl
  simp only [Prog.steps_bind, Prog.steps_modify, Prog.steps_ask]
  refine ⟨.same rfl rfl rfl rfl rfl rfl rfl, fun e₂ _ => ⟨.same rfl rfl rfl rfl rfl rfl rfl, ?_⟩⟩
  split
  · exact hQ _ _ rfl
  simp only [Prog.steps_bind, Prog.steps_modify, steps_succeeds]
  refine ⟨.same rfl rfl rfl rfl rfl rfl rfl, fun e₃ _ => ?_⟩
  split
  · exact hQ _ _ rfl
  · exact hQ _ _ rfl

theorem idle_onChunk {m : ChunkMessage} (hk : Kept w.mem) : (onChunk m).Steps allowed Idle (fun _ _ => True) w := by
  have hrespond (ack : ChunkAckMessage) (w' : World) :
      (send (.chunk m) (.chunkAck ack)).Steps allowed Idle (fun _ _ => True) w' := idle_send fun h => h.elim
  simp only [onChunk, Prog.steps_bind, steps_state]
  split
  · exact hrespond _ _
  case h_2 deployment c hfind =>
    have hmem := List.mem_of_find?_eq_some hfind
    obtain rfl : c.deployment = deployment := hk.keyed _ hmem
    have hc : w.mem.transfers.find c.deployment = some c := SortedMap.find_of_mem hk.sorted hmem
    split
    · exact hrespond _ _
    split
    · exact hrespond _ _
    split
    · exact hrespond _ _
    rw [Prog.steps_bind]
    refine idle_writeChunk fun r w' hmem' => ?_
    have hc' : w'.mem.transfers.find c.deployment = some c := by rw [hmem', hc]
    split
    · exact hrespond _ _
    simp only [Prog.steps_bind, steps_now, Prog.steps_modify, Prog.steps_read]
    refine fun e _ => ⟨.same rfl rfl rfl rfl rfl rfl rfl, ?_⟩
    split
    · exact ⟨.upsert fun _ => ⟨c, hc', rfl⟩, hrespond _ _⟩
    · exact ⟨.remembered hc' rfl, hrespond _ _⟩

theorem idle_rejectTransfer {m : TransferCompleteMessage} {c : TransferRecord} {actual : Result Digest} :
    (rejectTransfer m c actual).Steps allowed Idle (fun _ _ => True) w := by
  simp only [rejectTransfer, Prog.steps_bind, steps_setState, steps_state, steps_commit]
  refine ⟨.same rfl rfl rfl rfl rfl rfl rfl, .same rfl rfl rfl rfl rfl rfl rfl, ?_⟩
  refine idle_then (idle_destroyTransfer _) fun _ w' _ => ?_
  rw [Prog.steps_bind]
  exact steps_send (.answer fun h => h.elim) idle_sendNack fun _ => trivial

theorem idle_onTransferComplete {m : TransferCompleteMessage} (hk : Kept w.mem) :
    (onTransferComplete m).Steps allowed Idle (fun _ _ => True) w := by
  have hrespond (result : TransferResultMessage) (w' : World) :
      (send (.transferComplete m) (.transferResult result)).Steps allowed Idle (fun _ _ => True) w' :=
    idle_send fun h => h.elim
  simp only [onTransferComplete, Prog.steps_bind, steps_state]
  split
  · exact hrespond _ _
  case h_2 c hfind =>
    split
    · exact hrespond _ _
    split
    · exact hrespond _ _
    simp only [Prog.steps_bind, Prog.steps_read]
    have hheld := hk.holds hfind
    refine steps_hashStagingFile ?_ fun e => ?_
    · split
      · simp only [Prog.steps_bind, checkpointTransfer, steps_now]
        exact fun e _ => ⟨.upsert fun _ => ⟨c, hheld, rfl⟩, hrespond _ _⟩
      · exact idle_rejectTransfer
    · split
      · simp only [Prog.steps_bind, checkpointTransfer, steps_now]
        exact fun e _ => ⟨.upsert fun _ => ⟨c, hheld, rfl⟩, hrespond _ _⟩
      · exact idle_rejectTransfer

theorem idle_copyFileAtomic {source : Directory} {name : PayloadName} {Q : Status → World → Prop}
    (hQ : ∀ r w', w'.mem = w.mem → Q r w') : (copyFileAtomic source name).Steps allowed Idle Q w := by
  simp only [copyFileAtomic, Prog.steps_bind, Prog.steps_ask, Prog.steps_read]
  intro e _
  split
  · exact hQ _ _ rfl
  simp only [Prog.steps_bind, steps_succeeds]
  intro e₁ _
  split
  · exact hQ _ _ rfl
  simp only [Prog.steps_bind, steps_setFiles, steps_succeeds]
  refine ⟨.same rfl rfl rfl rfl rfl rfl rfl, fun e₂ _ => ?_⟩
  split
  · rw [Prog.steps_bind]
    exact steps_remove (.same rfl rfl rfl rfl rfl rfl rfl) (hQ _ _ rfl) (hQ _ _ rfl)
  simp only [Prog.steps_bind, steps_succeeds]
  intro e₃ _
  split
  · rw [Prog.steps_bind]
    exact steps_remove (.same rfl rfl rfl rfl rfl rfl rfl) (hQ _ _ rfl) (hQ _ _ rfl)
  · simp only [Prog.steps_bind, steps_setFiles]
    exact ⟨.same rfl rfl rfl rfl rfl rfl rfl, hQ _ _ rfl⟩

theorem idle_onStage {m : StageMessage} (hk : Kept w.mem) : (onStage m).Steps allowed Idle (fun _ _ => True) w := by
  have hrespond (ack : StageAckMessage) (w' : World) :
      (send (.stage m) (.stageAck ack)).Steps allowed Idle (fun _ _ => True) w' := idle_send fun h => h.elim
  simp only [onStage, Prog.steps_bind, steps_state]
  split
  · exact hrespond _ _
  case h_2 c hfind =>
    split
    · exact hrespond _ _
    split
    · exact hrespond _ _
    split
    · exact hrespond _ _
    simp only [Prog.steps_bind, steps_succeeds]
    intro e _
    split
    · exact hrespond _ _
    rw [Prog.steps_bind]
    refine idle_copyFileAtomic fun r w' hmem => ?_
    have hc' : w'.mem.transfers.find c.deployment = some c := by rw [hmem]; exact hk.holds hfind
    split
    · exact hrespond _ _
    · simp only [checkpointTransfer, Prog.steps_bind, steps_now]
      exact fun e _ => ⟨.upsert fun _ => ⟨c, hc', rfl⟩, hrespond _ _⟩

theorem idle_onReconcileRequest {m : ReconcileRequestMessage} :
    (onReconcileRequest m).Steps allowed Idle (fun _ _ => True) w := by
  simp only [onReconcileRequest, Prog.steps_bind, Prog.steps_read]
  exact idle_send fun h => h.elim

theorem idle_onRetire {m : RetireMessage} : (onRetire m).Steps allowed Idle (fun _ _ => True) w := by
  simp only [onRetire, Prog.steps_bind, steps_state]
  split
  · exact idle_send fun h => h.elim
  · rw [Prog.steps_bind]
    exact idle_then (idle_destroyTransfer _) fun _ _ _ => idle_send fun h => h.elim

theorem idle_acceptHello {hello : HelloMessage} : (acceptHello hello).Steps allowed Idle (fun _ _ => True) w := by
  have hrefuse (code : ErrorCode) (detail : String) : (refuseHello hello code detail : Agent (Result HelloAckMessage)).Steps
      allowed Idle (fun _ _ => True) w := by
    simp only [refuseHello, Prog.steps_bind]
    exact steps_send (.answer fun h => h.elim) trivial fun _ => trivial
  have hadopt : (adoptAuthority hello).Steps allowed Idle (fun _ _ => True) w := by
    simp only [adoptAuthority, Prog.steps_bind, steps_state]
    split
    · exact hrefuse _ _
    split
    · exact hrefuse _ _
    simp only [Prog.steps_bind, steps_commit, steps_state, Prog.steps_ask]
    exact ⟨.same rfl rfl rfl rfl rfl rfl rfl, fun e _ => trivial⟩
  simp only [acceptHello, Prog.steps_bind]
  refine idle_then hadopt fun r w' _ => ?_
  split
  · trivial
  · simp only [Prog.steps_bind]
    exact steps_send (.answer fun h => h.elim) trivial fun _ => trivial

theorem idle_refuseCommit {m : ApplyCommitMessage} {ack : ApplyCommitAckMessage} {key : ConfigKey} {detail : String}
    (hack : ack.committed = false) : (refuseCommit m ack key detail).Steps allowed Idle (fun _ _ => True) w := by
  simp only [refuseCommit, Prog.steps_bind]
  refine steps_send (.answer fun h => ?_) idle_sendNack fun _ => trivial
  rw [Closing, hack] at h
  cases h

theorem idle_confirmCommit {session : Session} {m : ApplyCommitMessage} {ack : ApplyCommitAckMessage} {key : ConfigKey}
    {bytes : ℕ} (hclosed : w.mem.applyPrepared = false) :
    (confirmCommit session m ack key bytes).Steps allowed Idle (fun _ _ => True) w := by
  simp only [confirmCommit, Prog.steps_bind]
  exact steps_send (.answer fun _ => hclosed) idle_sendAck fun _ => trivial

theorem idle_switchPointer {c : TransferRecord} : (switchPointer c).Steps allowed Idle (fun _ _ => True) w := by
  refine steps_writeFileAtomic (.same rfl rfl rfl rfl rfl rfl rfl) trivial (fun _ => trivial) fun _ => ?_
  exact ⟨.same rfl rfl rfl rfl rfl rfl rfl, .same rfl rfl rfl rfl rfl rfl rfl, trivial, fun _ => trivial⟩

theorem idle_recordActivation {c : TransferRecord} :
    (recordActivation c).Steps allowed Idle (fun _ _ => True) w := by
  simp only [recordActivation, Prog.steps_bind, steps_commit, steps_now, steps_setState, steps_state]
  refine ⟨.same rfl rfl rfl rfl rfl rfl rfl, fun e _ => ⟨.same rfl rfl rfl rfl rfl rfl rfl, ?_⟩⟩
  exact ⟨.same rfl rfl rfl rfl rfl rfl rfl, .same rfl rfl rfl rfl rfl rfl rfl, trivial⟩

theorem idle_removePayloads (names : List (PayloadName ⊕ Directory × Bytes)) :
    (removePayloads names).Steps allowed Idle (fun _ _ => True) w := by
  induction names generalizing w with
  | nil => exact trivial
  | cons name rest ih =>
    cases name with
    | inl name =>
      simp only [removePayloads, Prog.steps_bind]
      exact steps_remove (.same rfl rfl rfl rfl rfl rfl rfl) ih ih
    | inr part =>
      simp only [removePayloads, Prog.steps_bind]
      exact steps_remove (.same rfl rfl rfl rfl rfl rfl rfl) ih ih

theorem idle_prunePayloads {o : AgentOptions} {key : ConfigKey} :
    (prunePayloads o key).Steps allowed Idle (fun _ _ => True) w := by
  simp only [prunePayloads, Prog.steps_bind, Prog.steps_ask, Prog.steps_read]
  intro e _
  split
  · trivial
  · exact idle_removePayloads _

end Idle

/-! What the windows ask of the events of a run. -/

/-- The commit is confirmed as one that has been made before; the window is not looked at. -/
def duplicate (s : AgentState) (m : ApplyCommitMessage) : Bool :=
  !stale s m.generation &&
    (s.committedGeneration ≠ 0 && m.generation = s.committedGeneration && m.digest = s.committedDigest ||
      !conflicting s m.generation m.digest && ((s.transfers.find m.deployment).filter (·.staged)).isNone &&
        s.findings.any fun f => f.generation == m.generation && f.digest == m.digest && isActivationState f.state)

/-- The abort describes the open window. -/
def aborts (s : AgentState) (m : ApplyAbortMessage) : Bool :=
  s.applyPrepared && m.deployment = s.preparedDeployment && m.generation = s.preparedGeneration

/-- No commit is confirmed as a duplicate past an open window, an abort finds the record that leads to the marker, and
the walk of a start comes to every marker. -/
def Orderly (w : World) : Event → Prop
  | .start _ => ∀ directory ∈ w.files.pending.keys, isWalked directory = true
  | .message _ (.applyCommit m) => w.mem.applyPrepared = true → duplicate w.mem m = false
  | .message _ (.applyAbort m) => aborts w.mem m = true → (w.mem.transfers.find m.deployment).isSome = true
  | _ => True

/-- Files do as they are told while a window is being closed. -/
def Sure : Event → Env → Prop
  | .start _, env | .message _ (.applyCommit _), env | .message _ (.applyAbort _), env => env.ok = true
  | _, _ => True

/-! The handlers that open and close windows. -/

structure Windows (w : World) : Prop where
  consistent : Consistent w
  guarantee : w.mem.applyPrepared = true → w.mem.guarantee = .prepareCommitAbort

/-- The windows hold, and whoever has been told since that one is closed was told so rightly. -/
structure Answers (w w' : World) : Prop where
  windows : Windows w'
  told : ∃ more, w'.sent = w.sent ++ more ∧ ∀ a ∈ more, Closing a.reply → w'.mem.applyPrepared = false

section Answers

variable {w w' w'' : World} {allowed : Env → Prop} {o : AgentOptions}

theorem Windows.closed (h : Windows w) (hclosed : w.mem.applyPrepared = false) : Closed w := by
  have hconsistent := h.consistent
  rw [Consistent, if_neg (by simp [hclosed])] at hconsistent
  exact ⟨hclosed, hconsistent⟩

theorem Windows.opened (h : Windows w) (hopen : w.mem.applyPrepared = true) :
    ∃ key, KeyOf w w.mem.preparedDeployment key ∧ w.files.pending.keys = [liveKeyDirectory key] := by
  have hconsistent := h.consistent
  rwa [Consistent, if_pos hopen] at hconsistent

theorem Closed.windows (h : Closed w) : Windows w where
  consistent := by rw [Consistent, if_neg (by simp [h.1])]; exact h.2
  guarantee hopen := by rw [h.1] at hopen; cases hopen

theorem Windows.idle (h : Windows w) (hidle : Idle w w') : Windows w' where
  consistent := by
    rw [Consistent, hidle.prepared]
    split
    case isTrue hopen =>
      obtain ⟨key, hkey, hkeys⟩ := h.opened hopen
      refine ⟨key, ⟨?_, fun c' hc' => ?_⟩, by rw [hidle.pending, hkeys]⟩
      · rw [hidle.received, hidle.deployment]
        exact hkey.requested
      · rw [hidle.deployment] at hc'
        obtain ⟨c, hc, hsame⟩ := hidle.transfers hopen _ _ hc'
        rw [← hsame]
        exact hkey.recorded c hc
    case isFalse hclosed =>
      rw [hidle.pending]
      exact (h.closed (Bool.eq_false_of_not_eq_true hclosed)).2
  guarantee hopen := by
    rw [hidle.guarantee]
    exact h.guarantee (hidle.prepared ▸ hopen)

theorem Answers.refl (h : Windows w) : Answers w w := ⟨h, [], by rw [List.append_nil], by simp⟩

theorem Answers.idle (h : Answers w w') (hidle : Idle w' w'') : Answers w w'' where
  windows := h.windows.idle hidle
  told := by
    obtain ⟨more, hmore, htold⟩ := h.told
    obtain ⟨more', hmore', htold'⟩ := hidle.sent
    refine ⟨more ++ more', by rw [hmore', hmore, List.append_assoc], fun a ha hclosing => ?_⟩
    rw [hidle.prepared]
    obtain ha | ha := List.mem_append.mp ha
    · exact htold a ha hclosing
    · exact htold' a ha hclosing

theorem Answers.closed (h : Answers w w') (hclosed : Closed w'') (hsent : w''.sent = w'.sent) : Answers w w'' where
  windows := hclosed.windows
  told := by
    obtain ⟨more, hmore, -⟩ := h.told
    exact ⟨more, hsent.trans hmore, fun _ _ _ => hclosed.1⟩

/-- Which updates a program makes is of no interest here. -/
abbrev Any : World → World → Prop := fun _ _ => True

theorem any_then {α : Type} {p : Agent α} {Q : α → World → Prop} (hp : p.Steps allowed Idle (fun _ _ => True) w)
    (hQ : ∀ a w', Idle w w' → Q a w') : p.Steps allowed Any Q w := (idle_then hp hQ).rel_mono fun _ _ _ => trivial

theorem answers_idle {α : Type} {p : Agent α} (hw : Answers w w')
    (hp : p.Steps allowed Idle (fun _ _ => True) w') : p.Steps allowed Any (fun _ => Answers w) w' :=
  any_then hp fun _ _ hidle => hw.idle hidle

/-- A file is removed when files do as they are told. -/
theorem any_remove {f : Files → Files} {Q : Unit → World → Prop} (hsure : ∀ e, allowed e → e.ok = true)
    (hQ : Q () (w.onFiles f)) : (remove f).Steps allowed Any Q w := by
  simp only [remove, Prog.steps_bind, steps_succeeds]
  intro e he
  rw [if_pos (hsure e he), steps_setFiles]
  exact ⟨trivial, hQ⟩

theorem keys_putPending {f : Files} {directory : Directory} {v : PointerValue} (h : f.pending.keys = []) :
    (f.putPending directory v).pending.keys = [directory] := by
  rw [Files.putPending, AList.keys_insert, h]
  rfl

theorem mem_dropPending {f : Files} {directory d : Directory} :
    d ∈ (f.dropPending directory).pending.keys ↔ d ≠ directory ∧ d ∈ f.pending.keys := AList.mem_erase

theorem keys_dropPending {f : Files} {directory : Directory} (h : ∀ d ∈ f.pending.keys, d = directory) :
    (f.dropPending directory).pending.keys = [] := by
  refine List.eq_nil_iff_forall_not_mem.mpr fun d hd => ?_
  obtain ⟨hne, hmem⟩ := mem_dropPending.mp hd
  exact hne (h d hmem)

/-- What a record was asked for is the key its window belongs to. -/
theorem KeyOf.of_record (ht : Tables w) {c : TransferRecord} (hc : Holds w c) : KeyOf w c.deployment c.key where
  requested := by
    obtain ⟨q, hq, hdeployment, hkey, -⟩ := (ht.holds hc).requested
    exact ⟨q, hq, hdeployment, hkey⟩
  recorded c' hc' := by
    obtain rfl := Option.some.inj (hc.symm.trans hc')
    rfl

/-- A marker and the record of its window; a failure on the way leaves neither. -/
theorem answers_openWindow {c : TransferRecord} {marker : PointerValue} (ht : Tables w) (hw : Windows w)
    (hc : Holds w c) (hclosed : w.mem.applyPrepared = false) (hguarantee : w.mem.guarantee = .prepareCommitAbort) :
    (openWindow c marker).Steps allowed Any (fun _ => Answers w) w := by
  have hkeys := (hw.closed hclosed).2
  have hopened (f : Files) (hf : f.pending.keys = []) : Answers w
      ((w.onFiles fun _ => f.putPending (liveKeyDirectory c.key) marker).commit
        (.applyPrepared c.deployment c.generation c.digest)) := by
    have hkey := KeyOf.of_record ht hc
    refine ⟨⟨?_, fun _ => hguarantee⟩, [], by rw [List.append_nil]; rfl, by simp⟩
    exact ⟨c.key, ⟨hkey.requested, hkey.recorded⟩, keys_putPending hf⟩
  have hdropped : (w.files.dropPending (liveKeyDirectory c.key)).pending.keys = [] :=
    keys_dropPending (by rw [hkeys]; simp)
  simp only [openWindow, Prog.steps_bind]
  refine steps_writeFileAtomic trivial ⟨trivial, hopened _ hkeys⟩ (fun _ => .refl hw) fun _ => ?_
  exact ⟨trivial, trivial, ⟨trivial, hopened _ hdropped⟩, fun _ => (Answers.refl hw).closed ⟨hclosed, hdropped⟩ rfl⟩

theorem answers_onApplyPrepare {m : ApplyPrepareMessage} (ht : Tables w) (hw : Windows w) :
    (onApplyPrepare m).Steps allowed Any (fun _ => Answers w) w := by
  have hrespond (ack : ApplyPrepareAckMessage) {w' : World} (hw' : Answers w w') :
      (send (.applyPrepare m) (.applyPrepareAck ack)).Steps allowed Any (fun _ => Answers w) w' :=
    answers_idle hw' (idle_send fun h => h.elim)
  simp only [onApplyPrepare, Prog.steps_bind, steps_state]
  split
  · exact hrespond _ (.refl hw)
  case isFalse hguarantee =>
  split
  · exact hrespond _ (.refl hw)
  case h_2 c hfind =>
    split
    · exact hrespond _ (.refl hw)
    split
    · exact hrespond _ (.refl hw)
    split
    · exact hrespond _ (.refl hw)
    case isFalse hclosed =>
      have hc := ht.mem.kept.holds (Option.filter_eq_some_iff.mp hfind).1
      have hexplicit : w.mem.guarantee = .prepareCommitAbort := by
        cases h : w.mem.guarantee with
        | atomicActivate => exact absurd h hguarantee
        | prepareCommitAbort => rfl
      rw [Prog.steps_bind]
      refine (answers_openWindow ht hw hc (Bool.eq_false_of_not_eq_true hclosed) hexplicit).mono fun r w' hw' => ?_
      split
      · exact hrespond _ hw'
      · exact hrespond _ hw'

/-- An activation past a closed window leaves it closed. -/
theorem answers_activate_closed {c : TransferRecord} (hw : Windows w) (hclosed : w.mem.applyPrepared = false) :
    (activate o c false).Steps allowed Any (fun _ w' => Answers w w' ∧ w'.mem.applyPrepared = false) w := by
  have hdone {w' : World} (h : Idle w w') : Answers w w' ∧ w'.mem.applyPrepared = false :=
    ⟨(Answers.refl hw).idle h, h.prepared.trans hclosed⟩
  simp only [activate, Bool.false_and, Bool.false_eq_true, if_false, Prog.steps_bind, steps_state, Prog.steps_pure]
  refine any_then idle_switchPointer fun r w₁ h₁ => ?_
  split
  · exact hdone h₁
  simp only [Prog.steps_bind, commitGeneration, steps_state]
  split
  case isTrue hopen => rw [h₁.prepared, hclosed] at hopen; cases hopen
  case isFalse =>
    refine any_then idle_recordActivation fun _ w₂ h₂ => ?_
    rw [Prog.steps_bind]
    exact any_then idle_prunePayloads fun _ w₃ h₃ => hdone ((h₁.trans h₂).trans h₃)

/-- Past an open one it removes the only marker and resolves the window, or has not switched. -/
theorem answers_activate_open {c : TransferRecord} (hsure : ∀ e, allowed e → e.ok = true) (hw : Windows w)
    (hopen : w.mem.applyPrepared = true) (hkeys : w.files.pending.keys = [liveKeyDirectory c.key]) :
    (activate o c true).Steps allowed Any
      (fun r w' => Answers w w' ∧ (r = .ok () → w'.mem.applyPrepared = false)) w := by
  simp only [activate, hopen, Bool.not_true, Bool.and_false, Bool.false_eq_true, if_false, if_true, Prog.steps_bind,
    steps_state, Prog.steps_pure]
  refine any_then idle_switchPointer fun r w₁ h₁ => ?_
  split
  · exact ⟨(Answers.refl hw).idle h₁, by simp⟩
  rw [Prog.steps_bind]
  refine any_remove hsure ?_
  simp only [Prog.steps_bind, commitGeneration, steps_state]
  have hstill : (w₁.onFiles (·.dropPending (liveKeyDirectory c.key))).mem.applyPrepared = true :=
    h₁.prepared.trans hopen
  rw [if_pos hstill, Prog.steps_bind, steps_commit]
  refine ⟨trivial, ?_⟩
  have hclosed : Closed ((w₁.onFiles (·.dropPending (liveKeyDirectory c.key))).commit
      (.applyResolved (increment w₁.mem.activations))) := by
    refine ⟨rfl, keys_dropPending ?_⟩
    rw [h₁.pending, hkeys]
    simp
  have hrest := ((Answers.refl hw).idle h₁).closed hclosed rfl
  refine any_then idle_recordActivation fun _ w₂ h₂ => ?_
  rw [Prog.steps_bind]
  refine any_then idle_prunePayloads fun _ w₃ h₃ => ⟨(hrest.idle h₂).idle h₃, fun _ => ?_⟩
  rw [h₃.prepared, h₂.prepared]
  exact hclosed.1

theorem answers_onApplyCommit {session : Session} {m : ApplyCommitMessage} (hsure : ∀ e, allowed e → e.ok = true)
    (hw : Windows w) (hmeets : Orderly w (.message session (.applyCommit m))) :
    (onApplyCommit o session m).Steps allowed Any (fun _ => Answers w) w := by
  have hrefuse {ack : ApplyCommitAckMessage} {key : ConfigKey} {detail : String} {w' : World}
      (hack : ack.committed = false) (hw' : Answers w w') :
      (refuseCommit m ack key detail).Steps allowed Any (fun _ => Answers w) w' :=
    answers_idle hw' (idle_refuseCommit hack)
  have hclosed (h : duplicate w.mem m = true) : w.mem.applyPrepared = false := by
    by_contra hopen
    have hnot := hmeets (Bool.eq_true_of_not_eq_false hopen)
    rw [h] at hnot
    cases hnot
  simp only [onApplyCommit, Prog.steps_bind, steps_state]
  split
  · simp only [Prog.steps_bind, steps_setState, steps_state, steps_commit]
    refine ⟨trivial, trivial, hrefuse rfl ?_⟩
    exact ((Answers.refl hw).idle (.same rfl rfl rfl rfl rfl rfl rfl)).idle (.same rfl rfl rfl rfl rfl rfl rfl)
  case isFalse hstale =>
  split
  case isTrue hsame =>
    have hdone := hclosed (by simp only [duplicate, Bool.eq_false_of_not_eq_true hstale]; simp [hsame])
    simp only [Prog.steps_bind, steps_setState, steps_state, steps_commit]
    refine ⟨trivial, trivial, answers_idle ?_ (idle_confirmCommit hdone)⟩
    exact ((Answers.refl hw).idle (.same rfl rfl rfl rfl rfl rfl rfl)).idle (.same rfl rfl rfl rfl rfl rfl rfl)
  case isFalse =>
  split
  · exact hrefuse rfl (.refl hw)
  case isFalse hconflict =>
  split
  case h_1 hnone =>
    split
    case isTrue hany =>
      have hdone := hclosed (by simp [duplicate, hstale, hconflict, hnone, hany])
      exact answers_idle (.refl hw) (idle_confirmCommit hdone)
    case isFalse => exact hrefuse rfl (.refl hw)
  case h_2 c hfind =>
  split
  · exact hrefuse rfl (.refl hw)
  split
  · exact hrefuse rfl (.refl hw)
  case isFalse hexplicit =>
  split
  · exact hrefuse rfl (.refl hw)
  case isFalse hmine =>
    have hactivated : (activate o c (w.mem.guarantee == .prepareCommitAbort)).Steps allowed Any
        (fun r w' => Answers w w' ∧ (r = .ok () → w'.mem.applyPrepared = false)) w := by
      by_cases hopen : w.mem.applyPrepared = true
      · obtain ⟨key, hkey, hkeys⟩ := hw.opened hopen
        have hprepared : w.mem.preparedDeployment = m.deployment := by
          by_contra hne
          exact hmine ⟨hopen, hne⟩
        have hrecord := hkey.recorded c (hprepared ▸ (Option.filter_eq_some_iff.mp hfind).1)
        rw [hw.guarantee hopen]
        exact answers_activate_open hsure hw hopen (hrecord ▸ hkeys)
      · have hatomic : (w.mem.guarantee == .prepareCommitAbort) = false := by
          refine beq_eq_false_iff_ne.mpr fun hguarantee => hexplicit ⟨hguarantee, ?_⟩
          simpa using hopen
        rw [hatomic]
        exact (answers_activate_closed hw (Bool.eq_false_of_not_eq_true hopen)).mono fun _ _ h => ⟨h.1, fun _ => h.2⟩
    rw [Prog.steps_bind]
    refine hactivated.mono fun r w' h => ?_
    obtain ⟨hw', hdone⟩ := h
    split
    · exact hrefuse rfl hw'
    · simp only [Prog.steps_bind, steps_state]
      exact answers_idle hw' (idle_confirmCommit (hdone rfl))

theorem answers_onApplyAbort {session : Session} {m : ApplyAbortMessage} (hsure : ∀ e, allowed e → e.ok = true)
    (ht : Tables w) (hw : Windows w) (hmeets : Orderly w (.message session (.applyAbort m))) :
    (onApplyAbort m).Steps allowed Any (fun _ => Answers w) w := by
  have hrespond {ack : ApplyAbortAckMessage} (hack : ack.aborted = false) :
      (send (.applyAbort m) (.applyAbortAck ack)).Steps allowed Any (fun _ => Answers w) w := by
    refine answers_idle (.refl hw) (idle_send fun h => ?_)
    rw [Closing, hack] at h
    cases h
  simp only [onApplyAbort, Prog.steps_bind, steps_state]
  split
  · exact hrespond rfl
  case isFalse hopen =>
  split
  · exact hrespond rfl
  case isFalse hmine =>
  obtain ⟨hdeployment, hgeneration⟩ := not_or.mp hmine
  rw [not_not] at hdeployment hgeneration
  have hopen : w.mem.applyPrepared = true := by simpa using hopen
  obtain ⟨key, hkey, hkeys⟩ := hw.opened hopen
  obtain ⟨c, hc⟩ := Option.isSome_iff_exists.mp (hmeets (by simp [aborts, hopen, hdeployment, hgeneration]))
  split
  case h_2 hnone =>
    -- the record is in the table, so the search comes to it
    have hnot := List.find?_eq_none.mp hnone _ (SortedMap.find_mem hc)
    exact absurd (beq_iff_eq.mpr ((ht.mem.keyed _ (SortedMap.find_mem hc)).trans hdeployment)) hnot
  case h_1 d r hfound =>
    have hmem := List.mem_of_find?_eq_some hfound
    have hr : r.deployment = w.mem.preparedDeployment := by simpa using List.find?_some hfound
    have hheld : w.mem.transfers.find w.mem.preparedDeployment = some r := by
      rw [← hr, ht.mem.keyed _ hmem]
      exact SortedMap.find_of_mem ht.mem.sorted hmem
    rw [Prog.steps_bind]
    refine any_remove hsure ?_
    simp only [Prog.steps_bind, steps_setState, steps_state, steps_commit]
    refine ⟨trivial, trivial, trivial, answers_idle ((Answers.refl hw).closed ⟨rfl, ?_⟩ rfl) ?_⟩
    · refine keys_dropPending (f := w.files) ?_
      rw [hkeys, hkey.recorded r hheld]
      simp
    · exact idle_send fun _ => rfl

theorem answers_dispatch {session : Session} {m : Message} (hsure : ∀ e, allowed e → Sure (.message session m) e)
    (ht : Tables w) (hw : Windows w) (hmeets : Orderly w (.message session m)) :
    (dispatch o session m).Steps allowed Any (fun _ => Answers w) w := by
  cases m with
  | prepare m => exact answers_idle (.refl hw) idle_onPrepare
  | chunk m => exact answers_idle (.refl hw) (idle_onChunk ht.mem.kept)
  | transferComplete m => exact answers_idle (.refl hw) (idle_onTransferComplete ht.mem.kept)
  | stage m => exact answers_idle (.refl hw) (idle_onStage ht.mem.kept)
  | applyPrepare m => exact answers_onApplyPrepare ht hw
  | applyCommit m => exact answers_onApplyCommit hsure hw hmeets
  | applyAbort m => exact answers_onApplyAbort hsure ht hw hmeets
  | reconcileRequest m => exact answers_idle (.refl hw) idle_onReconcileRequest
  | retire m => exact answers_idle (.refl hw) idle_onRetire
  | ping nonce => exact answers_idle (.refl hw) (idle_send fun h => h.elim)
  | goodbye | hello _ | unexpected => exact .refl hw

end Answers

/-! Start-up. -/

/-- The markers left are old ones, in none of these directories. -/
def Swept (directories : List Directory) (w w' : World) : Prop :=
  ∀ d ∈ w'.files.pending.keys, d ∈ w.files.pending.keys ∧ d ∉ directories

section Startup

variable {w w' w'' : World} {allowed : Env → Prop} {o : AgentOptions}

theorem Swept.of_eq (h : w'.files.pending = w.files.pending) : Swept [] w w' :=
  fun _ hd => ⟨h ▸ hd, List.not_mem_nil⟩

theorem Swept.trans {ds ds' : List Directory} (h : Swept ds w w') (h' : Swept ds' w' w'') :
    Swept (ds ++ ds') w w'' := by
  intro d hd
  obtain ⟨hd', hnot'⟩ := h' d hd
  obtain ⟨hd'', hnot⟩ := h d hd'
  exact ⟨hd'', fun hmem => (List.mem_append.mp hmem).elim hnot hnot'⟩

theorem Swept.congr {ds : List Directory} (h : Swept ds w w') (heq : w''.files.pending = w'.files.pending) :
    Swept ds w w'' :=
  fun d hd => h d (heq ▸ hd)

theorem pending_readPointer {directory : Directory} {recovery : LiveRecovery}
    {Q : Option PointerValue × LiveRecovery → World → Prop}
    (hQ : ∀ r w', w'.files.pending = w.files.pending → Q r w') :
    (readPointer directory recovery).Steps allowed Any Q w := by
  simp only [readPointer, Prog.steps_bind, Prog.steps_read]
  split
  · exact hQ _ w rfl
  · exact hQ _ w rfl
  · rw [Prog.steps_bind]
    exact steps_remove trivial (hQ _ _ rfl) (hQ _ _ rfl)

theorem pending_adoptPointer {directory : Directory} {pointer : Option PointerValue} {recovery : LiveRecovery}
    {Q : LiveRecovery → World → Prop} (hQ : ∀ r w', w'.files.pending = w.files.pending → Q r w') :
    (adoptPointer o directory pointer recovery).Steps allowed Any Q w := by
  have hclear (recovery : LiveRecovery) : (clearCommit recovery).Steps allowed Any Q w := ⟨trivial, hQ _ _ rfl⟩
  cases pointer with
  | none =>
    simp only [adoptPointer, Prog.steps_bind, steps_state]
    split
    · exact hclear _
    · exact hQ _ w rfl
  | some value =>
    have hrest (actual : Result Digest) (recovery : LiveRecovery) : (do
        let s ← state
        if actual ≠ .ok value.digest then clearCommit recovery
        else if value.generation = s.committedGeneration ∧ value.digest = s.committedDigest ∧
            s.committedGeneration ≠ 0 then
          return recovery
        else
          commit (.targetCommit value.generation value.digest value.artifact)
          return { recovery with adoptedCompletedSwitch := true } : Agent LiveRecovery).Steps allowed Any Q w := by
      simp only [Prog.steps_bind, steps_state]
      split
      · exact hclear _
      split
      · exact hQ _ w rfl
      · exact ⟨trivial, hQ _ _ rfl⟩
    simp only [adoptPointer, Prog.steps_bind, Prog.steps_read]
    split
    · simp only [hashStagingFile, Prog.steps_bind, steps_succeeds]
      intro e _
      split
      · exact hrest _ _
      · exact hrest _ _
    · exact hrest _ _

theorem swept_resolvePending {directory : Directory} {pointer : Option PointerValue} {recovery : LiveRecovery}
    (hsure : ∀ e, allowed e → e.ok = true) :
    (resolvePending directory pointer recovery).Steps allowed Any (fun _ => Swept [directory] w) w := by
  have hrest (recovery : LiveRecovery) (w' : World) (hw' : w'.files.pending = w.files.pending) : (do
      remove (·.dropPending directory)
      let s ← state
      if s.applyPrepared then commit (.applyResolved s.activations)
      return recovery : Agent LiveRecovery).Steps allowed Any (fun _ => Swept [directory] w) w' := by
    have hswept : Swept [directory] w (w'.onFiles (·.dropPending directory)) := by
      intro d hd
      obtain ⟨hne, hmem⟩ := mem_dropPending.mp hd
      exact ⟨hw' ▸ hmem, by simpa using hne⟩
    rw [Prog.steps_bind]
    refine any_remove hsure ?_
    simp only [Prog.steps_bind, steps_state]
    split
    · rw [Prog.steps_bind, steps_commit]
      exact ⟨trivial, hswept.congr rfl⟩
    · exact hswept
  simp only [resolvePending, Prog.steps_bind, steps_state]
  split
  · exact hrest _ w rfl
  · rw [Prog.steps_bind]
    exact ⟨trivial, trivial, hrest _ _ rfl⟩

theorem swept_recoverDirectory {directory : Directory} {recovery : LiveRecovery}
    (hsure : ∀ e, allowed e → e.ok = true) :
    (recoverDirectory o directory recovery).Steps allowed Any (fun _ => Swept [directory] w) w := by
  simp only [recoverDirectory, Prog.steps_bind, Prog.steps_read]
  refine pending_readPointer fun r w₁ h₁ => ?_
  split
  case isTrue =>
    rw [Prog.steps_bind]
    refine (swept_resolvePending hsure).mono fun recovery w₂ h₂ => pending_adoptPointer fun _ w₃ h₃ => ?_
    exact ((Swept.of_eq h₁).trans h₂).congr h₃
  case isFalse hnone =>
    simp only [Prog.steps_bind, Prog.steps_pure]
    refine pending_adoptPointer fun _ w₂ h₂ d hd => ?_
    rw [h₂, h₁] at hd
    refine ⟨hd, fun hmem => hnone ?_⟩
    rw [← List.mem_singleton.mp hmem]
    exact AList.lookup_isSome.mpr (AList.mem_keys.mp hd)

theorem swept_recoverDirectories {directories : List Directory} {recovery : LiveRecovery}
    (hsure : ∀ e, allowed e → e.ok = true) :
    (recoverDirectories o directories recovery).Steps allowed Any (fun _ => Swept directories w) w := by
  induction directories generalizing recovery w with
  | nil => exact .of_eq rfl
  | cons directory rest ih =>
    simp only [recoverDirectories, Prog.steps_bind]
    exact (swept_recoverDirectory hsure).mono fun _ w₁ h₁ => ih.mono fun _ w₂ h₂ => h₁.trans h₂

/-- The walk comes to every directory with a marker whose name does not hide it. -/
theorem mem_walk {order : List Directory} {f : Files} {d : Directory} (hd : d ∈ f.pending.keys)
    (hwalked : isWalked d = true) : d ∈ walk order f := by
  have hmem : d ∈ keyDirectories f := by
    rw [keyDirectories, List.mem_dedup, List.mem_filter]
    exact ⟨List.mem_append_right _ hd, hwalked⟩
  rw [walk]
  split
  case isTrue hperm => exact hperm.mem_iff.mpr hmem
  case isFalse => exact hmem

theorem closed_recoverLiveArea (hsure : ∀ e, allowed e → e.ok = true) (hk : Kept w.mem)
    (hwalked : ∀ d ∈ w.files.pending.keys, isWalked d = true) :
    (recoverLiveArea o).Steps allowed Any (fun _ => Closed) w := by
  have htransfers : recoverTransfers.Steps allowed Any (fun _ => SameLive w) w :=
    (steps_recoverTransfers hk fun _ _ h => h).rel_mono fun _ _ _ => trivial
  simp only [recoverLiveArea, Prog.steps_bind]
  refine htransfers.mono fun recovery w₁ h₁ => ?_
  simp only [Prog.steps_bind, Prog.steps_ask, Prog.steps_read]
  intro e he
  refine (swept_recoverDirectories hsure).mono fun recovery w₂ h₂ => ?_
  have hnone : w₂.files.pending.keys = [] := by
    refine List.eq_nil_iff_forall_not_mem.mpr fun d hd => ?_
    obtain ⟨hold, hnot⟩ := h₂ d hd
    exact hnot (mem_walk hold (hwalked d (h₁.pending ▸ hold)))
  simp only [Prog.steps_bind, steps_state]
  split
  · rw [Prog.steps_bind]
    exact ⟨trivial, trivial, trivial, rfl, hnone⟩
  case isFalse hclosed => exact ⟨Bool.eq_false_of_not_eq_true hclosed, hnone⟩

theorem closed_open (hsure : ∀ e, allowed e → e.ok = true) (hk : Kept w.mem)
    (hwalked : ∀ d ∈ w.files.pending.keys, isWalked d = true) :
    («open» o).Steps allowed Any (fun r w' => opened (some r) = true → Closed w') w := by
  have herr (e : Error) (w' : World) : opened (some (.error e)) = true → Closed w' := by simp [opened]
  have hrest (w₁ : World) (hk₁ : Kept w₁.mem) (hw₁ : w₁.files = w.files) :
      (recoverLiveArea o).Steps allowed Any (fun _ => Closed) w₁ :=
    closed_recoverLiveArea hsure hk₁ (by rw [hw₁]; exact hwalked)
  rw [«open»]
  split
  · exact herr _ w
  split
  · exact herr _ w
  simp only [Prog.steps_bind, steps_succeeds]
  intro e _
  split
  · exact herr _ w
  simp only [Prog.steps_bind, steps_state]
  split
  · exact herr _ w
  split
  · exact herr _ w
  split
  · exact herr _ w
  split
  · exact herr _ w
  split
  · exact herr _ w
  simp only [Prog.steps_bind, Prog.steps_ask, steps_commit]
  intro e _
  refine ⟨trivial, (hrest _ ?_ ?_).mono fun _ _ hclosed _ => hclosed⟩
  · exact ⟨hk.sorted, hk.keyed, hk.bounded⟩
  · rfl

end Startup

/-! Runs. -/

/-- The machines that runs come to whose every event is orderly and can rely on the files it needs. -/
inductive Windowed (o : AgentOptions) : Machine → Prop
  | empty : Windowed o {}
  | step {M M' : Machine} {e : Event} :
      Windowed o M → Orderly M.world e → Step o (Sure e) M e M' → Windowed o M'

section Runs

variable {o : AgentOptions} {M M' : Machine} {e : Event}

theorem ordered_inductive {allowed : Env → Prop} :
    Inductive o allowed (fun _ _ => True) Ordered (fun _ => True) where
  empty := ordered_empty
  kept h := ⟨h.tables.mem.kept, h.tables.dur.kept⟩
  readable h := h.readable
  restart h := ⟨h.tables.restart, h.readable⟩
  hello h _ := ⟨⟨h.tables.receive trivial, h.readable⟩, trivial⟩
  receive _ hm h _ := ⟨⟨h.tables.receive hm, h.readable⟩, trivial⟩
  handled hstep h := h.handled hstep
  recovered hstep h := h.recovered hstep
  stable := stable_true
  started _ _ _ _ := trivial

theorem Windows.receive {w : World} (h : Windows w) (m : Message) : Windows (w.receive m) where
  consistent := by
    by_cases hopen : (w.receive m).mem.applyPrepared = true
    · obtain ⟨key, ⟨⟨q, hq, hrest⟩, hrecorded⟩, hkeys⟩ := h.opened hopen
      rw [Consistent, if_pos hopen]
      exact ⟨key, ⟨⟨q, List.mem_append_left _ hq, hrest⟩, hrecorded⟩, hkeys⟩
    · rw [Consistent, if_neg hopen]
      exact (h.closed (Bool.eq_false_of_not_eq_true hopen)).2
  guarantee := h.guarantee

/-- An event that is completed keeps the windows; the answers it gave count from the state it started in. -/
theorem windows_step (ho : Ordered M.world) (hw : M.running = true → Windows M.world) (hmeets : Orderly M.world e)
    (hstep : Step o (Sure e) M e M') (hrun : M'.running = true) : Windows M'.world ∧ (M.running = true →
      ∃ more, M'.world.sent = M.world.sent ++ more ∧
        ∀ a ∈ more, Closing a.reply → M'.world.mem.applyPrepared = false) := by
  cases hstep with
  | @start w w' order r hexec =>
    have hclosed := ((closed_open (fun e he => he.1) ho.tables.restart.mem.kept hmeets).exec hexec).2
    cases r with
    | none => cases hrun
    | some r => exact ⟨(hclosed r rfl hrun).windows, fun hrunning => nomatch hrunning⟩
  | @hello w w' m r hexec =>
    obtain ⟨a, rfl⟩ := Option.isSome_iff_exists.mp hrun
    have hanswers := ((answers_idle (.refl ((hw rfl).receive (.hello m))) idle_acceptHello).exec hexec).2 a rfl
    exact ⟨hanswers.windows, fun _ => hanswers.told⟩
  | @message w w' session m r hvalid hexec =>
    obtain ⟨a, rfl⟩ := Option.isSome_iff_exists.mp hrun
    have hanswers := ((answers_dispatch (fun _ h => h) (ho.tables.receive hvalid) ((hw rfl).receive m)
      hmeets).exec hexec).2 a rfl
    exact ⟨hanswers.windows, fun _ => hanswers.told⟩
  | crash => cases hrun

theorem Windowed.windows (h : Windowed o M) : Ordered M.world ∧ (M.running = true → Windows M.world) := by
  induction h with
  | empty => exact ⟨ordered_empty, fun hrun => nomatch hrun⟩
  | step _ hmeets hstep ih =>
    have hordered := ordered_inductive.step ⟨ih.1, fun _ => trivial⟩ trivial hstep
    exact ⟨hordered.1, fun hrun => (windows_step ih.1 ih.2 hmeets hstep hrun).1⟩

/-- Between messages a marker stands exactly for an open window, and once a commit or an abort has been confirmed
there is neither. -/
theorem windows_consistent (h : Windowed o M) (hrun : M.running = true) : Consistent M.world ∧
    ∀ e M', Orderly M.world e → Step o (Sure e) M e M' → M'.running = true →
      ∀ a ∈ M'.world.sent.drop M.world.sent.length, Closing a.reply → Closed M'.world := by
  obtain ⟨hordered, hwindows⟩ := h.windows
  refine ⟨(hwindows hrun).consistent, fun e M' hmeets hstep hrun' a ha hclosing => ?_⟩
  obtain ⟨hwindows', htold⟩ := windows_step hordered hwindows hmeets hstep hrun'
  obtain ⟨more, hmore, hall⟩ := htold hrun
  rw [hmore, List.drop_left] at ha
  exact hwindows'.closed (hall a ha hclosing)

/-! Runs on fixed inputs. -/

instance decidableOrderly : ∀ w e, Decidable (Orderly w e)
  | w, .start _ => inferInstanceAs (Decidable (∀ d ∈ w.files.pending.keys, isWalked d = true))
  | w, .message _ (.applyCommit m) =>
    inferInstanceAs (Decidable (w.mem.applyPrepared = true → duplicate w.mem m = false))
  | w, .message _ (.applyAbort m) =>
    inferInstanceAs (Decidable (aborts w.mem m = true → (w.mem.transfers.find m.deployment).isSome = true))
  | _, .hello _ | _, .crash | _, .message _ (.prepare _) | _, .message _ (.chunk _)
  | _, .message _ (.transferComplete _) | _, .message _ (.stage _) | _, .message _ (.applyPrepare _)
  | _, .message _ (.reconcileRequest _) | _, .message _ (.retire _) | _, .message _ (.ping _)
  | _, .message _ .goodbye | _, .message _ (.hello _) | _, .message _ .unexpected => .isTrue trivial

theorem sure_calm (e : Event) : ∀ i ∈ calm, ∀ order, Sure e { i with order } ∧ Sure e i := by
  intro i hi order
  obtain rfl : i = {} := List.eq_of_mem_replicate hi
  unfold Sure
  split
  · exact ⟨rfl, rfl⟩
  · exact ⟨rfl, rfl⟩
  · exact ⟨rfl, rfl⟩
  · exact ⟨trivial, trivial⟩

theorem windowed_foldl {es : List Event} {M : Machine} (h : Windowed o M) (hes : MeetsAll o Orderly calm 200 M es) :
    Windowed o (es.foldl (advance o calm 200) M) := by
  induction es generalizing M with
  | nil => exact h
  | cons e es ih =>
    obtain ⟨hmeets, hes⟩ := hes
    obtain heq | hstep := step_advance (M := M) (n := 200) (sure_calm e)
    · exact ih (heq.symm ▸ h) hes
    · exact ih (h.step hmeets hstep) hes

/-- A byte staged for a key, and a window opened to activate it. -/
def openedWindow : List Event :=
  .start [] :: (delivery (text "d") (text "k") 3 66).dropLast ++
    [.message {} (.applyPrepare ⟨text "d", 3, Digest.ofContent [66]⟩)]

def windowOptions : AgentOptions := { target := text "t", guarantee := .prepareCommitAbort }

def abort : Event := .message {} (.applyAbort ⟨text "d", 3, "abandoned"⟩)

instance decidableClosing : ∀ reply, Decidable (Closing reply)
  | .applyCommitAck a => inferInstanceAs (Decidable (a.committed = true))
  | .applyAbortAck a => inferInstanceAs (Decidable (a.aborted = true))
  | .prepareAck _ | .prepareReject _ | .chunkAck _ | .transferResult _ | .stageAck _ | .applyPrepareAck _
  | .deliveryAck _ | .deliveryNack _ | .reconcileReport _ | .retireAck _ | .pong _ | .helloAck _ | .authReject _ _ =>
    .isFalse id

theorem openedWindow_windowed : Windowed windowOptions (run windowOptions openedWindow) :=
  windowed_foldl .empty (by decide)

theorem abort_step : Step windowOptions (Sure abort) (run windowOptions openedWindow) abort
    (advance windowOptions calm 200 (run windowOptions openedWindow) abort) :=
  (step_advance (sure_calm abort)).resolve_left fun h =>
    absurd (congrArg (fun M => M.world.sent.length) h) (by decide +kernel)

theorem abort_confirmed : ∃ a ∈ (advance windowOptions calm 200 (run windowOptions openedWindow) abort).world.sent.drop
    (run windowOptions openedWindow).world.sent.length, Closing a.reply := by
  decide +kernel

theorem aborted_window_closed : Consistent (run windowOptions openedWindow).world ∧
    Closed (advance windowOptions calm 200 (run windowOptions openedWindow) abort).world := by
  have hboth (M M' : Machine) (h : Windowed windowOptions M) (hrun : M.running = true)
      (hmeets : Orderly M.world abort) (hstep : Step windowOptions (Sure abort) M abort M')
      (hrun' : M'.running = true) (hconfirmed : ∃ a ∈ M'.world.sent.drop M.world.sent.length, Closing a.reply) :
      Consistent M.world ∧ Closed M'.world := by
    obtain ⟨a, ha, hclosing⟩ := hconfirmed
    obtain ⟨hconsistent, hclosed⟩ := windows_consistent h hrun
    exact ⟨hconsistent, hclosed abort M' hmeets hstep hrun' a ha hclosing⟩
  exact hboth _ _ openedWindow_windowed (by decide +kernel) (by decide +kernel) abort_step (by decide +kernel)
    abort_confirmed

/-- The record of a prepared deployment is retired, and its abort is confirmed with the marker still in place. -/
def retiredWindow : List Event := openedWindow ++ [.message {} (.retire ⟨text "d", 3, "superseded"⟩), abort]

theorem retired_window_inconsistent :
    ¬ ∀ M, Reachable windowOptions (·.ok = true) (fun _ _ => True) M → M.running = true → Consistent M.world := by
  have hleft (w : World) (hclosed : w.mem.applyPrepared = false) (hmarker : w.files.pending.keys ≠ []) :
      ¬ Consistent w := by
    rwa [Consistent, if_neg (by simp [hclosed])]
  simp only [not_forall]
  exact ⟨run windowOptions retiredWindow, reachable_run (fun _ => rfl) (by decide +kernel), by decide +kernel,
    hleft _ (by decide +kernel) (by decide +kernel)⟩

end Runs

end Agent

end ConfigurationFabric
