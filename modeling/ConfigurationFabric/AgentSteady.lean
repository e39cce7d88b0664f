import ConfigurationFabric.AgentFencing
import ConfigurationFabric.AgentWindow

/-! What the handlers that activate nothing leave alone. -/

namespace ConfigurationFabric

open LittleEndian
open Program

namespace Agent

/-- What is counted of activations and rollbacks, with the window that is open. -/
structure Ledger where
  activations : ℕ
  rollbacks : ℕ
  prepared : Bool
  deployment : DeploymentId
  generation : Generation
  digest : Digest

def ledger (s : AgentState) : Ledger where
  activations := s.activations
  rollbacks := s.applyRollbacks
  prepared := s.applyPrepared
  deployment := s.preparedDeployment
  generation := s.preparedGeneration
  digest := s.preparedDigest

/-- No pointer, no marker and no count changes; the journal may learn of the rollbacks counted in memory. -/
structure Booked (w w' : World) : Prop where
  current : w'.files.current = w.files.current
  pending : w'.files.pending = w.files.pending
  switched : w'.switched = w.switched
  mem : ledger w'.mem = ledger w.mem
  dur : ledger w'.dur = ledger w.dur ∨ ledger w'.dur = { ledger w.dur with rollbacks := w.mem.applyRollbacks }

/-- No payload comes or goes either, and nothing becomes staged. -/
structure Steady (w w' : World) : Prop extends Booked w w' where
  payload : w'.files.payload = w.files.payload
  parts : w'.files.parts = w.files.parts
  staged : ∀ d c', w'.mem.transfers.find d = some c' → c'.staged = true →
    ∃ c, w.mem.transfers.find d = some c ∧ c.staged = true ∧ c.key = c'.key ∧ c.pointer = c'.pointer

section Relations

variable {w w' w'' : World}

theorem Booked.same (hcurrent : w'.files.current = w.files.current) (hpending : w'.files.pending = w.files.pending)
    (hswitched : w'.switched = w.switched) (hmem : ledger w'.mem = ledger w.mem)
    (hdur : ledger w'.dur = ledger w.dur) : Booked w w' := ⟨hcurrent, hpending, hswitched, hmem, .inl hdur⟩

theorem Booked.refl (w : World) : Booked w w := .same rfl rfl rfl rfl rfl

theorem Booked.rollbacks (h : Booked w w') : w'.mem.applyRollbacks = w.mem.applyRollbacks :=
  congrArg Ledger.rollbacks h.mem

theorem Booked.trans (h : Booked w w') (h' : Booked w' w'') : Booked w w'' where
  current := h'.current.trans h.current
  pending := h'.pending.trans h.pending
  switched := h'.switched.trans h.switched
  mem := h'.mem.trans h.mem
  dur := by
    obtain hsame | hnoted := h'.dur
    · rw [hsame]
      exact h.dur
    · rw [h.rollbacks] at hnoted
      right
      obtain hfirst | hfirst := h.dur
      · rw [hnoted, hfirst]
      · rw [hnoted, hfirst]

theorem Steady.same (hbooked : Booked w w') (hpayload : w'.files.payload = w.files.payload)
    (hparts : w'.files.parts = w.files.parts) (htransfers : w'.mem.transfers = w.mem.transfers) : Steady w w' where
  toBooked := hbooked
  payload := hpayload
  parts := hparts
  staged d c' hc hstaged := ⟨c', by rw [← htransfers, hc], hstaged, rfl, rfl⟩

theorem Steady.plain (hcurrent : w'.files.current = w.files.current) (hpending : w'.files.pending = w.files.pending)
    (hpayload : w'.files.payload = w.files.payload) (hparts : w'.files.parts = w.files.parts)
    (hswitched : w'.switched = w.switched) (hmem : ledger w'.mem = ledger w.mem) (hdur : ledger w'.dur = ledger w.dur)
    (htransfers : w'.mem.transfers = w.mem.transfers) : Steady w w' :=
  .same (.same hcurrent hpending hswitched hmem hdur) hpayload hparts htransfers

theorem Steady.refl (w : World) : Steady w w := .same (.refl w) rfl rfl rfl

theorem Steady.trans (h : Steady w w') (h' : Steady w' w'') : Steady w w'' where
  toBooked := h.toBooked.trans h'.toBooked
  payload := h'.payload.trans h.payload
  parts := h'.parts.trans h.parts
  staged d c'' hc hstaged := by
    obtain ⟨c', hc', hstaged', hkey', hpointer'⟩ := h'.staged d c'' hc hstaged
    obtain ⟨c, hc, hstaged, hkey, hpointer⟩ := h.staged d c' hc' hstaged'
    exact ⟨c, hc, hstaged, hkey.trans hkey', hpointer.trans hpointer'⟩

theorem Steady.answer (request : Message) (reply : Reply) : Steady w (w.answer request reply) :=
  .plain rfl rfl rfl rfl rfl rfl rfl rfl

theorem Steady.note (w : World) : Steady w (w.commit (rollbackPayload w.mem)) :=
  .same ⟨rfl, rfl, rfl, rfl, .inr rfl⟩ rfl rfl rfl

/-- A record kept up to date is no more staged than it was. -/
theorem Steady.upsert {c' : TransferRecord} (h : c'.staged = true → ∃ c,
    w.mem.transfers.find c'.deployment = some c ∧ c.staged = true ∧ c.key = c'.key ∧ c.pointer = c'.pointer) :
    Steady w (w.commit (.transferUpsert c')) where
  toBooked := .same rfl rfl rfl rfl rfl
  payload := rfl
  parts := rfl
  staged d c'' hc hstaged := by
    change (w.mem.transfers.insert c'.deployment c').find d = some c'' at hc
    rw [SortedMap.find_insert] at hc
    split at hc
    case isTrue hd =>
      obtain rfl := Option.some.inj hc
      rw [hd]
      exact h hstaged
    case isFalse => exact ⟨c'', hc, hstaged, rfl, rfl⟩

theorem Steady.removed (d : DeploymentId) : Steady w (w.commit (.transferRemove d)) where
  toBooked := .same rfl rfl rfl rfl rfl
  payload := rfl
  parts := rfl
  staged d' c' hc hstaged := by
    change (w.mem.transfers.erase d).find d' = some c' at hc
    rw [SortedMap.find_erase] at hc
    split at hc
    · cases hc
    · exact ⟨c', hc, hstaged, rfl, rfl⟩

theorem Steady.remembered {c c' : TransferRecord} (hc : w.mem.transfers.find c.deployment = some c)
    (h : c'.staged = true → c.staged = true ∧ c.key = c'.key ∧ c.pointer = c'.pointer) :
    Steady w (w.remember c.deployment c') where
  toBooked := .same rfl rfl rfl rfl rfl
  payload := rfl
  parts := rfl
  staged d c'' hc'' hstaged := by
    change (w.mem.transfers.insert c.deployment c').find d = some c'' at hc''
    rw [SortedMap.find_insert] at hc''
    split at hc''
    case isTrue hd =>
      obtain rfl := Option.some.inj hc''
      rw [hd]
      exact ⟨c, hc, h hstaged⟩
    case isFalse => exact ⟨c'', hc'', hstaged, rfl, rfl⟩

end Relations

/-! The handlers. -/

section Handlers

variable {w w' : World} {allowed : Env → Prop} {o : AgentOptions}

/-- What such a program comes to, wherever it ends. -/
theorem steady_then {α : Type} {p : Agent α} {Q : α → World → Prop} (hp : p.Steps allowed Steady (fun _ _ => True) w)
    (hQ : ∀ a w', Steady w w' → Q a w') : p.Steps allowed Steady Q w :=
  (hp.keep (P := Steady w) (fun _ _ hstep hw => hw.trans hstep) (.refl w)).mono fun a w' h => hQ a w' h.2

theorem steady_any {α : Type} {p : Agent α} {Q : α → World → Prop} (hp : p.Steps allowed Steady (fun _ _ => True) w)
    (hQ : ∀ a w', Steady w w' → Q a w') : p.Steps allowed Any Q w :=
  (steady_then hp hQ).rel_mono fun _ _ _ => trivial

theorem steady_send {request : Message} {reply : Reply} :
    (send request reply).Steps allowed Steady (fun _ _ => True) w :=
  steps_send (.answer _ _) trivial fun _ => trivial

theorem steady_sendNack {request : Message} {deployment : DeploymentId} {key : ConfigKey} {generation : Generation}
    {digest : Digest} {code : ErrorCode} {detail : String} :
    (sendNack request deployment key generation digest code detail).Steps allowed Steady (fun _ _ => True) w := by
  simp only [sendNack, Prog.steps_bind, steps_state]
  exact steady_send

theorem steady_refuseCommit {m : ApplyCommitMessage} {ack : ApplyCommitAckMessage} {key : ConfigKey}
    {detail : String} : (refuseCommit m ack key detail).Steps allowed Steady (fun _ _ => True) w := by
  simp only [refuseCommit, Prog.steps_bind]
  exact steps_send (.answer _ _) steady_sendNack fun _ => trivial

theorem steady_confirmCommit {session : Session} {m : ApplyCommitMessage} {ack : ApplyCommitAckMessage}
    {key : ConfigKey} {bytes : ℕ} :
    (confirmCommit session m ack key bytes).Steps allowed Steady (fun _ _ => True) w := by
  simp only [confirmCommit, Prog.steps_bind]
  refine steps_send (.answer _ _) ?_ fun _ => trivial
  simp only [sendAck, Prog.steps_bind, steps_state, steps_now]
  exact fun e _ => steady_send

theorem steady_destroyTransfer (d : DeploymentId) :
    (destroyTransfer d).Steps allowed Steady (fun _ _ => True) w := by
  have hrest (w' : World) :
      (do if ((← state).transfers.find d).isSome then commit (.transferRemove d) : Agent Unit).Steps
        allowed Steady (fun _ _ => True) w' := by
    simp only [Prog.steps_bind, steps_state]
    split
    · exact ⟨.removed d, trivial⟩
    · trivial
  simp only [destroyTransfer, Prog.steps_bind]
  exact steps_remove (.plain rfl rfl rfl rfl rfl rfl rfl rfl) (hrest _) (hrest _)

theorem steady_resumePoint (m : PrepareMessage) :
    (resumePoint m).Steps allowed Steady (fun _ _ => True) w := by
  have hdestroy (w' : World) : (do destroyTransfer m.deployment; return 0 : Agent ℕ).Steps allowed Steady
      (fun _ _ => True) w' := by
    rw [Prog.steps_bind]
    exact steady_then (steady_destroyTransfer _) fun _ _ _ => trivial
  simp only [resumePoint, Prog.steps_bind, steps_state]
  split
  · trivial
  simp only [Prog.steps_bind, Prog.steps_read]
  split
  · split
    · split
      · trivial
      · exact hdestroy w
    · split
      · trivial
      · trivial
  · exact hdestroy w

theorem steady_refusePrepare {m : PrepareMessage} {code : ErrorCode} {detail : String} {observed : DeliveryState} :
    (refusePrepare m code detail observed).Steps allowed Steady (fun _ _ => True) w := by
  simp only [refusePrepare, Prog.steps_bind, steps_state]
  exact steady_send

/-- A count other than that of the rollbacks, and the note that records all of them. -/
theorem steady_counted {α : Type} {f : AgentState → AgentState} {p : Agent α} (hf : ledger (f w.mem) = ledger w.mem)
    (htransfers : (f w.mem).transfers = w.mem.transfers)
    (hp : ∀ w', p.Steps allowed Steady (fun _ _ => True) w') : (do
      setState f
      commit (rollbackPayload (← state))
      p : Agent α).Steps allowed Steady (fun _ _ => True) w := by
  simp only [Prog.steps_bind, steps_setState, steps_state, steps_commit]
  exact ⟨.plain rfl rfl rfl rfl rfl hf rfl htransfers, .note _, hp _⟩

theorem steady_onPrepare {m : PrepareMessage} : (onPrepare o m).Steps allowed Steady (fun _ _ => True) w := by
  simp only [onPrepare, Prog.steps_bind, steps_state]
  split
  · exact steady_refusePrepare
  split
  · exact steady_counted rfl rfl fun _ => steady_refusePrepare
  split
  · exact steady_counted rfl rfl fun _ => steady_refusePrepare
  split
  · exact steady_refusePrepare
  split
  · exact steady_refusePrepare
  split
  · exact steady_counted rfl rfl fun _ => steady_send
  · rw [Prog.steps_bind]
    refine steady_then (steady_resumePoint m) fun n w' _ => ?_
    simp only [beginTransfer, checkpointTransfer, Prog.steps_bind, steps_now]
    exact fun e _ => ⟨.upsert (fun hstaged => by cases hstaged), steady_send⟩

theorem steady_writeChunk {d : DeploymentId} {c : TransferRecord} {m : ChunkMessage}
    {Q : Option (ErrorCode × String) → World → Prop} (hQ : ∀ r w', w'.mem = w.mem → Q r w') :
    (writeChunk d c m).Steps allowed Steady Q w := by
  simp only [writeChunk, Prog.steps_bind, Prog.steps_read, steps_succeeds]
  intro e₁ _
  split
  · exact hQ _ w rfl
  simp only [Prog.steps_bind, Prog.steps_modify, Prog.steps_ask]
  refine ⟨.plain rfl rfl rfl rfl rfl rfl rfl rfl, fun e₂ _ => ⟨.plain rfl rfl rfl rfl rfl rfl rfl rfl, ?_⟩⟩
  split
  · exact hQ _ _ rfl
  simp only [Prog.steps_bind, Prog.steps_modify, steps_succeeds]
  refine ⟨.plain rfl rfl rfl rfl rfl rfl rfl rfl, fun e₃ _ => ?_⟩
  split
  · exact hQ _ _ rfl
  · exact hQ _ _ rfl

theorem steady_onChunk {m : ChunkMessage} (hk : Kept w.mem) :
    (onChunk m).Steps allowed Steady (fun _ _ => True) w := by
  simp only [onChunk, Prog.steps_bind, steps_state]
  split
  · exact steady_send
  case h_2 deployment c hfind =>
    have hmem := List.mem_of_find?_eq_some hfind
    obtain rfl : c.deployment = deployment := hk.keyed _ hmem
    have hc : w.mem.transfers.find c.deployment = some c := SortedMap.find_of_mem hk.sorted hmem
    split
    · exact steady_send
    split
    · exact steady_send
    split
    · exact steady_send
    rw [Prog.steps_bind]
    refine steady_writeChunk fun r w' hmem' => ?_
    have hc' : w'.mem.transfers.find c.deployment = some c := by rw [hmem', hc]
    split
    · exact steady_send
    simp only [Prog.steps_bind, steps_now, Prog.steps_modify, Prog.steps_read]
    refine fun e _ => ⟨.plain rfl rfl rfl rfl rfl rfl rfl rfl, ?_⟩
    split
    · exact ⟨.upsert fun hstaged => ⟨c, hc', hstaged, rfl, rfl⟩, steady_send⟩
    · exact ⟨.remembered hc' fun hstaged => ⟨hstaged, rfl, rfl⟩, steady_send⟩

theorem steady_rejectTransfer {m : TransferCompleteMessage} {c : TransferRecord} {actual : Result Digest} :
    (rejectTransfer m c actual).Steps allowed Steady (fun _ _ => True) w := by
  refine steady_counted rfl rfl fun w' => ?_
  rw [Prog.steps_bind]
  refine steady_then (steady_destroyTransfer _) fun _ w' _ => ?_
  rw [Prog.steps_bind]
  exact steps_send (.answer _ _) steady_sendNack fun _ => trivial

theorem steady_onTransferComplete {m : TransferCompleteMessage} (hk : Kept w.mem) :
    (onTransferComplete m).Steps allowed Steady (fun _ _ => True) w := by
  simp only [onTransferComplete, Prog.steps_bind, steps_state]
  split
  · exact steady_send
  case h_2 c hfind =>
    split
    · exact steady_send
    split
    · exact steady_send
    simp only [Prog.steps_bind, Prog.steps_read]
    have hheld := hk.holds hfind
    refine steps_hashStagingFile ?_ fun e => ?_
    · split
      · simp only [Prog.steps_bind, checkpointTransfer, steps_now]
        exact fun e _ => ⟨.upsert fun hstaged => ⟨c, hheld, hstaged, rfl, rfl⟩, steady_send⟩
      · exact steady_rejectTransfer
    · split
      · simp only [Prog.steps_bind, checkpointTransfer, steps_now]
        exact fun e _ => ⟨.upsert fun hstaged => ⟨c, hheld, hstaged, rfl, rfl⟩, steady_send⟩
      · exact steady_rejectTransfer

theorem steady_onReconcileRequest {m : ReconcileRequestMessage} :
    (onReconcileRequest m).Steps allowed Steady (fun _ _ => True) w := by
  simp only [onReconcileRequest, Prog.steps_bind, Prog.steps_read]
  exact steady_send

theorem steady_onRetire {m : RetireMessage} : (onRetire m).Steps allowed Steady (fun _ _ => True) w := by
  simp only [onRetire, Prog.steps_bind, steps_state]
  split
  · exact steady_send
  · rw [Prog.steps_bind]
    exact steady_then (steady_destroyTransfer _) fun _ _ _ => steady_send

theorem steady_acceptHello {hello : HelloMessage} :
    (acceptHello hello).Steps allowed Steady (fun _ _ => True) w := by
  have hrefuse (code : ErrorCode) (detail : String) :
      (refuseHello hello code detail : Agent (Result HelloAckMessage)).Steps allowed Steady (fun _ _ => True) w := by
    simp only [refuseHello, Prog.steps_bind]
    exact steps_send (.answer _ _) trivial fun _ => trivial
  have hadopt : (adoptAuthority hello).Steps allowed Steady (fun _ _ => True) w := by
    simp only [adoptAuthority, Prog.steps_bind, steps_state]
    split
    · exact hrefuse _ _
    split
    · exact hrefuse _ _
    simp only [Prog.steps_bind, steps_commit, steps_state, Prog.steps_ask]
    exact ⟨.plain rfl rfl rfl rfl rfl rfl rfl rfl, fun e _ => trivial⟩
  simp only [acceptHello, Prog.steps_bind]
  refine steady_then hadopt fun r w' _ => ?_
  split
  · trivial
  · simp only [Prog.steps_bind]
    exact steps_send (.answer _ _) trivial fun _ => trivial

/-- The messages whose handlers only keep tables of transfers and answer. -/
def keepsBooks : Message → Bool
  | .stage _ | .applyPrepare _ | .applyCommit _ | .applyAbort _ => false
  | _ => true

theorem steady_dispatch {session : Session} {m : Message} (hk : Kept w.mem) (hm : keepsBooks m = true) :
    (dispatch o session m).Steps allowed Steady (fun _ _ => True) w := by
  cases m with
  | prepare m => exact steady_onPrepare
  | chunk m => exact steady_onChunk hk
  | transferComplete m => exact steady_onTransferComplete hk
  | stage m | applyPrepare m | applyCommit m | applyAbort m => cases hm
  | reconcileRequest m => exact steady_onReconcileRequest
  | retire m => exact steady_onRetire
  | ping nonce => exact steady_send
  | goodbye | hello _ | unexpected => trivial

end Handlers

/-! Start-up. -/

def Ledger.resolve (l : Ledger) : Ledger :=
  if l.prepared then { l with prepared := false, deployment := [], generation := 0, digest := .zero 32 } else l

def Ledger.rolledBack (l : Ledger) : Ledger := { l with rollbacks := increment l.rollbacks }

/-- The pointer is that of the window on record. -/
def Ledger.names (l : Ledger) (pointer : Option PointerValue) : Bool :=
  pointer.any fun v => v.generation == l.generation && v.digest == l.digest

/-- The ledger and the report of a rollback, past a directory with a marker. -/
def visit (x : Ledger × Bool) (pointer : Option PointerValue) : Ledger × Bool :=
  if x.1.names pointer then (x.1.resolve, x.2) else (x.1.rolledBack.resolve, true)

/-- The directories with a marker. -/
def marked (f : Files) (directories : List Directory) : List Directory :=
  directories.filter fun d => (f.pending.lookup d).isSome

/-- A window that no marker has led to is taken for one that was not switched. -/
def concluded (x : Ledger × Bool) : Ledger × Bool := if x.1.prepared then (x.1.rolledBack.resolve, true) else x

/-- Start-up past these markers. -/
def reckoned (f : Files) (directories : List Directory) (l : Ledger) : Ledger × Bool :=
  concluded (((marked f directories).map (pointerAt f.current)).foldl visit (l, false))

theorem ledger_resolved (w : World) (h : w.mem.applyPrepared = true) :
    ledger (w.commit (.applyResolved w.mem.activations)).mem = (ledger w.mem).resolve := by
  rw [Ledger.resolve, if_pos (show (ledger w.mem).prepared = true from h)]
  rfl

theorem ledger_resolved_dur (w : World) (h : w.mem.applyPrepared = true) (hsame : ledger w.dur = ledger w.mem) :
    ledger (w.commit (.applyResolved w.mem.activations)).dur = (ledger w.mem).resolve := by
  rw [Ledger.resolve, if_pos (show (ledger w.mem).prepared = true from h)]
  change { ledger w.dur with
    activations := (ledger w.mem).activations, prepared := false, deployment := [], generation := 0
    digest := .zero 32 } = _
  rw [hsame]

/-- The ledger in memory is the one in the journal. -/
structure Entered (l : Ledger) (w : World) : Prop where
  mem : ledger w.mem = l
  dur : ledger w.dur = l

/-- What the walk has left alone when it has come past some directories. -/
structure Surveyed (directories : List Directory) (w w' : World) : Prop where
  switched : w'.switched = w.switched
  pointers : ∀ d, pointerAt w'.files.current d = pointerAt w.files.current d
  pending : ∀ d, d ∉ directories → w'.files.pending.lookup d = w.files.pending.lookup d

section Startup

variable {w w' w'' : World} {allowed : Env → Prop} {o : AgentOptions} {l : Ledger} {directory : Directory}
  {pointer : Option PointerValue} {recovery : LiveRecovery} {Q : LiveRecovery → World → Prop}

theorem Surveyed.refl (ds : List Directory) (w : World) : Surveyed ds w w := ⟨rfl, fun _ => rfl, fun _ _ => rfl⟩

theorem Surveyed.trans {ds ds' : List Directory} (h : Surveyed ds w w') (h' : Surveyed ds' w' w'') :
    Surveyed (ds ++ ds') w w'' where
  switched := h'.switched.trans h.switched
  pointers d := (h'.pointers d).trans (h.pointers d)
  pending d hd := by
    obtain ⟨hnot, hnot'⟩ := not_or.mp fun hmem => hd (List.mem_append.mpr hmem)
    exact (h'.pending d hnot').trans (h.pending d hnot)

theorem Entered.resolve (h : Entered l w) : Entered l.resolve
    (if w.mem.applyPrepared then w.commit (.applyResolved w.mem.activations) else w) := by
  obtain ⟨rfl, hdur⟩ := h
  by_cases hopen : w.mem.applyPrepared = true
  · rw [if_pos hopen]
    exact ⟨ledger_resolved w hopen, ledger_resolved_dur w hopen hdur⟩
  · have hclosed : (ledger w.mem).resolve = ledger w.mem := by
      rw [Ledger.resolve]
      exact if_neg hopen
    rw [if_neg hopen, hclosed]
    exact ⟨rfl, hdur⟩

theorem Entered.rolledBack (h : Entered l w) : Entered l.rolledBack
    (World.commit (rollbackPayload { w.mem with applyRollbacks := increment w.mem.applyRollbacks })
      { w with mem := { w.mem with applyRollbacks := increment w.mem.applyRollbacks } }) := by
  obtain ⟨rfl, hdur⟩ := h
  refine ⟨rfl, ?_⟩
  change { ledger w.dur with rollbacks := increment w.mem.applyRollbacks } = _
  rw [hdur]
  rfl

theorem any_noteRollback (hw : Entered l w) (hQ : ∀ recovery' w', w'.files = w.files → w'.switched = w.switched →
    Entered l.rolledBack w' → recovery'.rolledBackUnresolvedPrepare = true → Q recovery' w') :
    (noteRollback recovery).Steps allowed Any Q w := by
  simp only [noteRollback, Prog.steps_bind, steps_setState, steps_state, steps_commit]
  exact ⟨trivial, trivial, hQ _ _ rfl rfl hw.rolledBack rfl⟩

theorem any_resolvePending (hw : Entered l w) (hQ : ∀ recovery' w', Surveyed [directory] w w' →
    Entered (visit (l, recovery.rolledBackUnresolvedPrepare) pointer).1 w' →
    recovery'.rolledBackUnresolvedPrepare = (visit (l, recovery.rolledBackUnresolvedPrepare) pointer).2 →
    Q recovery' w') : (resolvePending directory pointer recovery).Steps allowed Any Q w := by
  have hmarker (recovery' : LiveRecovery) (w' : World) (l' : Ledger) (hfiles : w'.files = w.files)
      (hswitched : w'.switched = w.switched) (hw' : Entered l' w')
      (hvisit : visit (l, recovery.rolledBackUnresolvedPrepare) pointer =
        (l'.resolve, recovery'.rolledBackUnresolvedPrepare)) : (do
        remove (·.dropPending directory)
        let s ← state
        if s.applyPrepared then commit (.applyResolved s.activations)
        return recovery' : Agent LiveRecovery).Steps allowed Any Q w' := by
    have hresolve (w₂ : World) (h₂ : Surveyed [directory] w w₂) (hw₂ : Entered l' w₂) : (do
        let s ← state
        if s.applyPrepared then commit (.applyResolved s.activations)
        return recovery' : Agent LiveRecovery).Steps allowed Any Q w₂ := by
      have hresolved := hw₂.resolve
      simp only [Prog.steps_bind, steps_state]
      by_cases hopen : w₂.mem.applyPrepared = true
      · rw [if_pos hopen] at hresolved
        rw [if_pos hopen, Prog.steps_bind, steps_commit]
        refine ⟨trivial, hQ _ _ ⟨h₂.switched, h₂.pointers, h₂.pending⟩ ?_ (by rw [hvisit])⟩
        rw [hvisit]
        exact hresolved
      · rw [if_neg hopen] at hresolved
        rw [if_neg hopen]
        refine hQ _ _ h₂ ?_ (by rw [hvisit])
        rw [hvisit]
        exact hresolved
    rw [Prog.steps_bind]
    refine steps_remove trivial (hresolve _ ⟨hswitched, fun d => ?_, fun d hd => ?_⟩ ⟨hw'.mem, hw'.dur⟩) ?_
    · exact congrArg (fun f => pointerAt f.current d) hfiles
    · rw [← hfiles]
      exact AList.lookup_erase_ne (by simpa using hd)
    · exact hresolve w' ⟨hswitched, fun d => by rw [hfiles], fun d _ => by rw [hfiles]⟩ hw'
  have hnames : (pointer.any fun v => v.generation == w.mem.preparedGeneration && v.digest == w.mem.preparedDigest) =
      l.names pointer := by
    rw [← hw.mem]
    rfl
  simp only [resolvePending, Prog.steps_bind, steps_state]
  rw [hnames]
  split
  case isTrue hnamed => exact hmarker _ w l rfl rfl hw (by rw [visit, if_pos hnamed])
  case isFalse hnamed =>
    rw [Prog.steps_bind]
    refine any_noteRollback hw fun recovery' w' hfiles hswitched hw' hflag => ?_
    exact hmarker _ w' _ hfiles hswitched hw' (by rw [visit, if_neg hnamed, hflag])

/-- The pointer is adopted or given up, and nothing of this shows in the ledger. -/
theorem any_adoptPointer (hw : Entered l w) (hQ : ∀ recovery' w', w'.files = w.files → w'.switched = w.switched →
    Entered l w' → recovery'.rolledBackUnresolvedPrepare = recovery.rolledBackUnresolvedPrepare → Q recovery' w') :
    (adoptPointer o directory pointer recovery).Steps allowed Any Q w := by
  have hclear (recovery' : LiveRecovery)
      (hflag : recovery'.rolledBackUnresolvedPrepare = recovery.rolledBackUnresolvedPrepare) :
      (clearCommit recovery').Steps allowed Any Q w := ⟨trivial, hQ _ _ rfl rfl ⟨hw.mem, hw.dur⟩ hflag⟩
  cases pointer with
  | none =>
    simp only [adoptPointer, Prog.steps_bind, steps_state]
    split
    · exact hclear _ rfl
    · exact hQ _ w rfl rfl hw rfl
  | some value =>
    have hrest (actual : Result Digest) (recovery' : LiveRecovery)
        (hflag : recovery'.rolledBackUnresolvedPrepare = recovery.rolledBackUnresolvedPrepare) : (do
        let s ← state
        if actual ≠ .ok value.digest then clearCommit recovery'
        else if value.generation = s.committedGeneration ∧ value.digest = s.committedDigest ∧
            s.committedGeneration ≠ 0 then
          return recovery'
        else
          commit (.targetCommit value.generation value.digest value.artifact)
          return { recovery' with adoptedCompletedSwitch := true } : Agent LiveRecovery).Steps allowed Any Q w := by
      simp only [Prog.steps_bind, steps_state]
      split
      · exact hclear _ hflag
      split
      · exact hQ _ w rfl rfl hw hflag
      · exact ⟨trivial, hQ _ _ rfl rfl ⟨hw.mem, hw.dur⟩ hflag⟩
    simp only [adoptPointer, Prog.steps_bind, Prog.steps_read]
    split
    · simp only [hashStagingFile, Prog.steps_bind, steps_succeeds]
      intro e _
      split
      · exact hrest _ _ rfl
      · exact hrest _ _ rfl
    · exact hrest _ _ rfl

theorem any_readPointer {R : Option PointerValue × LiveRecovery → World → Prop}
    (hQ : ∀ recovery' w', w'.mem = w.mem → w'.dur = w.dur → Surveyed [] w w' →
      recovery'.rolledBackUnresolvedPrepare = recovery.rolledBackUnresolvedPrepare →
      R (pointerAt w.files.current directory, recovery') w') :
    (readPointer directory recovery).Steps allowed Any R w := by
  simp only [readPointer, Prog.steps_bind, Prog.steps_read]
  split
  case h_1 hnone =>
    have hpointer : pointerAt w.files.current directory = none := by simp only [pointerAt, hnone]
    exact hpointer ▸ hQ recovery w rfl rfl (.refl _ w) rfl
  case h_2 v hv =>
    have hpointer : pointerAt w.files.current directory = some v := by simp only [pointerAt, hv]
    exact hpointer ▸ hQ recovery w rfl rfl (.refl _ w) rfl
  case h_3 hunreadable =>
    have hpointer : pointerAt w.files.current directory = none := by simp only [pointerAt, hunreadable]
    have hdropped (d : Directory) : pointerAt (w.files.dropCurrent directory).current d =
        pointerAt w.files.current d := by
      by_cases hd : d = directory
      · rw [hd, hpointer, pointerAt, lookup_dropCurrent, if_pos rfl]
      · simp only [pointerAt, lookup_dropCurrent, if_neg hd]
    rw [Prog.steps_bind]
    refine steps_remove trivial ?_ ?_
    · exact hpointer ▸ hQ _ _ rfl rfl ⟨rfl, hdropped, fun _ _ => rfl⟩ rfl
    · exact hpointer ▸ hQ _ _ rfl rfl (.refl _ w) rfl

theorem any_recoverDirectory (hw : Entered l w) (hQ : ∀ recovery' w', Surveyed [directory] w w' →
    Entered (((marked w.files [directory]).map (pointerAt w.files.current)).foldl visit
      (l, recovery.rolledBackUnresolvedPrepare)).1 w' →
    recovery'.rolledBackUnresolvedPrepare = (((marked w.files [directory]).map (pointerAt w.files.current)).foldl visit
      (l, recovery.rolledBackUnresolvedPrepare)).2 → Q recovery' w') :
    (recoverDirectory o directory recovery).Steps allowed Any Q w := by
  simp only [recoverDirectory, Prog.steps_bind, Prog.steps_read]
  refine any_readPointer fun recovery₁ w₁ hmem₁ hdur₁ h₁ hflag₁ => ?_
  have hw₁ : Entered l w₁ := ⟨hmem₁ ▸ hw.mem, hdur₁ ▸ hw.dur⟩
  simp only
  by_cases hpending : (w.files.pending.lookup directory).isSome = true
  · have hmarked : marked w.files [directory] = [directory] := by
      rw [marked, List.filter_singleton, hpending]
      rfl
    rw [hmarked] at hQ
    rw [if_pos hpending, Prog.steps_bind]
    refine any_resolvePending hw₁ fun recovery₂ w₂ h₂ hw₂ hflag₂ => ?_
    refine any_adoptPointer hw₂ fun recovery₃ w₃ hfiles₃ hswitched₃ hw₃ hflag₃ => ?_
    rw [hflag₁] at hw₃ hflag₂
    refine hQ recovery₃ w₃ ⟨?_, fun d => ?_, fun d hd => ?_⟩ hw₃ (hflag₃.trans hflag₂)
    · exact hswitched₃.trans ((h₁.trans h₂).switched)
    · rw [hfiles₃]
      exact (h₁.trans h₂).pointers d
    · rw [hfiles₃]
      exact (h₁.trans h₂).pending d hd
  · have hmarked : marked w.files [directory] = [] := by
      rw [marked, List.filter_singleton, Bool.eq_false_of_not_eq_true hpending]
      rfl
    rw [hmarked] at hQ
    rw [if_neg hpending, Prog.steps_bind, Prog.steps_pure]
    refine any_adoptPointer hw₁ fun recovery₃ w₃ hfiles₃ hswitched₃ hw₃ hflag₃ => ?_
    refine hQ recovery₃ w₃ ⟨?_, fun d => ?_, fun d _ => ?_⟩ hw₃ (hflag₃.trans hflag₁)
    · exact hswitched₃.trans h₁.switched
    · rw [hfiles₃]
      exact h₁.pointers d
    · rw [hfiles₃]
      exact h₁.pending d List.not_mem_nil

theorem any_recoverDirectories {directories : List Directory} (hnodup : directories.Nodup) (hw : Entered l w)
    (hQ : ∀ recovery' w', w'.switched = w.switched →
      Entered (((marked w.files directories).map (pointerAt w.files.current)).foldl visit
        (l, recovery.rolledBackUnresolvedPrepare)).1 w' →
      recovery'.rolledBackUnresolvedPrepare = (((marked w.files directories).map (pointerAt w.files.current)).foldl visit
        (l, recovery.rolledBackUnresolvedPrepare)).2 → Q recovery' w') :
    (recoverDirectories o directories recovery).Steps allowed Any Q w := by
  induction directories generalizing recovery w l with
  | nil => exact hQ recovery w rfl hw rfl
  | cons directory rest ih =>
    obtain ⟨hnot, hnodup⟩ := List.nodup_cons.mp hnodup
    simp only [recoverDirectories, Prog.steps_bind]
    refine any_recoverDirectory hw fun recovery₁ w₁ h₁ hw₁ hflag₁ => ?_
    -- the rest of the walk finds its markers and pointers as they were
    have hmarked : marked w₁.files rest = marked w.files rest := by
      refine List.filter_congr fun d hd => ?_
      rw [h₁.pending d fun hmem => hnot (List.mem_singleton.mp hmem ▸ hd)]
    have hpointers : pointerAt w₁.files.current = pointerAt w.files.current := by
      funext d
      exact h₁.pointers d
    have hsplit : marked w.files (directory :: rest) = marked w.files [directory] ++ marked w.files rest :=
      List.filter_append [directory] rest
    rw [hsplit, List.map_append, List.foldl_append] at hQ
    refine ih hnodup hw₁ fun recovery₂ w₂ hswitched₂ hw₂ hflag₂ => ?_
    rw [hmarked, hpointers, hflag₁] at hw₂ hflag₂
    exact hQ recovery₂ w₂ (hswitched₂.trans h₁.switched) hw₂ hflag₂

/-! The transfers at start-up. -/

theorem booked_removeUnknownStaging {known : List DeploymentId} {paths : List Directory} :
    (removeUnknownStaging known paths recovery).Steps allowed Booked
      (fun recovery' _ => recovery'.rolledBackUnresolvedPrepare = recovery.rolledBackUnresolvedPrepare) w := by
  induction paths generalizing recovery w with
  | nil => exact rfl
  | cons path paths ih =>
    rw [removeUnknownStaging.eq_def]
    split
    · contradiction
    case h_2 name rest _ heq =>
      obtain ⟨-, rfl⟩ := List.cons.inj heq
      split
      · exact ih
      simp only [Prog.steps_bind, steps_succeeds]
      intro e _
      split
      · simp only [Prog.steps_bind, steps_setFiles]
        exact ⟨.same rfl rfl rfl rfl rfl, ih.mono fun _ _ h => h⟩
      · exact ih
    case h_3 rest _ heq =>
      obtain ⟨-, rfl⟩ := List.cons.inj heq
      exact ih

theorem booked_fitTransfers {rs : List TransferRecord} :
    (fitTransfers rs).Steps allowed Booked (fun _ _ => True) w := by
  induction rs generalizing w with
  | nil => exact trivial
  | cons r rs ih =>
    simp only [fitTransfers, Prog.steps_bind, Prog.steps_read]
    split
    · rw [Prog.steps_bind]
      exact ih.mono fun _ _ _ => trivial
    · split
      · rw [Prog.steps_bind]
        exact ih.mono fun _ _ _ => trivial
      split
      · simp only [Prog.steps_bind, steps_succeeds]
        intro e _
        split
        · simp only [Prog.steps_bind, Prog.steps_modify]
          exact ⟨.same rfl rfl rfl rfl rfl, ih.mono fun _ _ _ => trivial⟩
        · rw [Prog.steps_bind]
          exact ih.mono fun _ _ _ => trivial
      · exact ih

theorem booked_destroyTransfers {ds : List DeploymentId} :
    (destroyTransfers ds).Steps allowed Booked (fun _ _ => True) w := by
  induction ds generalizing w with
  | nil => exact trivial
  | cons d ds ih =>
    simp only [destroyTransfers, Prog.steps_bind]
    exact ((steady_destroyTransfer d).rel_mono fun _ _ h => h.toBooked).mono fun _ _ _ => ih

theorem booked_checkpointTransfers {rs : List TransferRecord} :
    (checkpointTransfers rs).Steps allowed Booked (fun _ _ => True) w := by
  induction rs generalizing w with
  | nil => exact trivial
  | cons r rs ih =>
    simp only [checkpointTransfers, checkpointTransfer, Prog.steps_bind, steps_commit]
    exact ⟨.same rfl rfl rfl rfl rfl, ih⟩

theorem booked_recoverTransfers : recoverTransfers.Steps allowed Booked
    (fun recovery' w' => Booked w w' ∧ recovery'.rolledBackUnresolvedPrepare = false) w := by
  have hsteps : recoverTransfers.Steps allowed Booked
      (fun recovery' _ => recovery'.rolledBackUnresolvedPrepare = false) w := by
    simp only [recoverTransfers, Prog.steps_bind, Prog.steps_read]
    refine booked_removeUnknownStaging.mono fun recovery' w₁ hflag => ?_
    simp only [Prog.steps_bind, steps_state]
    refine booked_fitTransfers.mono fun fitted w₂ _ => ?_
    simp only [Prog.steps_bind]
    refine booked_destroyTransfers.mono fun _ w₃ _ => ?_
    simp only [Prog.steps_bind]
    exact booked_checkpointTransfers.mono fun _ w₄ _ => hflag
  exact (hsteps.keep (P := Booked w) (fun _ _ hstep hw => hw.trans hstep) (.refl w)).mono fun _ _ h => ⟨h.2, h.1⟩

theorem Booked.entered (h : Booked w w') (hw : Entered l w) : Entered l w' where
  mem := h.mem.trans hw.mem
  dur := by
    obtain hsame | hnoted := h.dur
    · exact hsame.trans hw.dur
    · rw [hnoted, hw.dur, ← hw.mem]
      rfl

theorem nodup_walk (order : List Directory) (f : Files) : (walk order f).Nodup := by
  have hnodup : (keyDirectories f).Nodup := List.nodup_dedup _
  rw [walk]
  split
  case isTrue hperm => exact hperm.nodup_iff.mpr hnodup
  case isFalse => exact hnodup

theorem any_recoverLiveArea {order : List Directory} (horder : ∀ e, allowed e → e.order = order) (hw : Entered l w)
    (hQ : ∀ recovery' w', w'.switched = w.switched →
      Entered (reckoned w.files (walk order w.files) l).1 w' →
      recovery'.rolledBackUnresolvedPrepare = (reckoned w.files (walk order w.files) l).2 → Q recovery' w') :
    (recoverLiveArea o).Steps allowed Any Q w := by
  simp only [recoverLiveArea, Prog.steps_bind]
  refine (booked_recoverTransfers.rel_mono fun _ _ _ => trivial).mono fun recovery₁ w₁ h₁ => ?_
  obtain ⟨hbooked, hflag₁⟩ := h₁
  simp only [Prog.steps_bind, Prog.steps_ask, Prog.steps_read]
  intro e he
  rw [horder e he, walk_congr hbooked.current hbooked.pending]
  refine any_recoverDirectories (nodup_walk order w.files) (hbooked.entered hw) fun recovery₂ w₂ hswitched₂ hw₂ hflag₂ => ?_
  have hmarked : marked w₁.files (walk order w.files) = marked w.files (walk order w.files) := by
    rw [marked, marked, hbooked.pending]
  rw [hflag₁, hmarked, hbooked.current] at hw₂ hflag₂
  rw [reckoned] at hQ
  have hopen : w₂.mem.applyPrepared = (ledger w₂.mem).prepared := rfl
  rw [hw₂.mem] at hopen
  simp only [Prog.steps_bind, steps_state]
  by_cases hprepared : w₂.mem.applyPrepared = true
  · have hstill := hopen.symm.trans hprepared
    rw [concluded, if_pos hstill] at hQ
    rw [if_pos hprepared, Prog.steps_bind]
    refine any_noteRollback hw₂ fun recovery₃ w₃ _ hswitched₃ hw₃ hflag₃ => ?_
    have hwindow : w₃.mem.applyPrepared = true := (congrArg Ledger.prepared hw₃.mem).trans hstill
    have hresolved := hw₃.resolve
    rw [if_pos hwindow] at hresolved
    simp only [Prog.steps_bind, steps_state, steps_commit]
    exact ⟨trivial, hQ _ _ (hswitched₃.trans (hswitched₂.trans hbooked.switched)) hresolved hflag₃⟩
  · rw [concluded, if_neg fun hstill => hprepared (hopen.trans hstill)] at hQ
    rw [if_neg hprepared]
    exact hQ _ _ (hswitched₂.trans hbooked.switched) hw₂ hflag₂

/-- What a start-up makes of the ledger. -/
structure Reckons (order : List Directory) (l : Ledger) (w : World) (r : Result LiveRecovery) (w' : World) : Prop where
  switched : w'.switched = w.switched
  refused : ∀ e, r = .error e → Entered l w'
  opened : ∀ recovery, r = .ok recovery → Entered (reckoned w.files (walk order w.files) l).1 w' ∧
    recovery.rolledBackUnresolvedPrepare = (reckoned w.files (walk order w.files) l).2

theorem any_open {order : List Directory} (horder : ∀ e, allowed e → e.order = order) (hw : Entered l w) :
    («open» o).Steps allowed Any (Reckons order l w) w := by
  have herr (e : Error) : Reckons order l w (.error e) w := ⟨rfl, fun _ _ => hw, fun _ h => by cases h⟩
  rw [«open»]
  split
  · exact herr _
  split
  · exact herr _
  simp only [Prog.steps_bind, steps_succeeds]
  intro e _
  split
  · exact herr _
  simp only [Prog.steps_bind, steps_state]
  split
  · exact herr _
  split
  · exact herr _
  split
  · exact herr _
  split
  · exact herr _
  split
  · exact herr _
  simp only [Prog.steps_bind, Prog.steps_ask, steps_commit]
  intro e _
  refine ⟨trivial, any_recoverLiveArea horder ⟨hw.mem, hw.dur⟩ fun recovery' w' hswitched hw' hflag => ?_⟩
  refine ⟨hswitched, (fun _ h => by cases h), fun recovery h => ?_⟩
  obtain rfl := Except.ok.inj h
  exact ⟨hw', hflag⟩

end Startup

end Agent

end ConfigurationFabric
