import ConfigurationFabric.AgentRecovery

namespace ConfigurationFabric

open LittleEndian
open Program

/-! What a single update of the agent can do, with what has been checked before it. -/

/-- Who speaks for the controller. -/
structure Authority where
  epoch : Epoch
  incarnation : IncarnationId
  deriving DecidableEq

def HelloMessage.authority (m : HelloMessage) : Authority := ⟨m.epoch, m.incarnation⟩

def AgentState.authority (s : AgentState) : Authority := ⟨s.lastControllerEpoch, s.lastControllerIncarnation⟩

/-- An authority that the fence lets follow another one. -/
def Authority.Follows (q p : Authority) : Prop :=
  p.epoch ≤ q.epoch ∧ (p.epoch ≠ 0 → q.epoch = p.epoch → p.incarnation.isSet = true → q.incarnation = p.incarnation)

namespace Agent

variable {allowed : Env → Prop} {R : World → World → Prop}

/-! Rules for the operations the handlers are made of. -/

@[simp] theorem steps_succeeds (Q : Bool → World → Prop) (w : World) :
    succeeds.Steps allowed R Q w ↔ ∀ e, allowed e → Q e.ok w := Iff.rfl

@[simp] theorem steps_now (Q : ℤ → World → Prop) (w : World) :
    now.Steps allowed R Q w ↔ ∀ e, allowed e → Q e.now w := Iff.rfl

@[simp] theorem steps_state (Q : AgentState → World → Prop) (w : World) :
    state.Steps allowed R Q w ↔ Q w.mem w := Iff.rfl

@[simp] theorem steps_setState (f : AgentState → AgentState) (Q : Unit → World → Prop) (w : World) :
    (setState f).Steps allowed R Q w ↔
      R w { w with mem := f w.mem } ∧ Q () { w with mem := f w.mem } := Iff.rfl

@[simp] theorem steps_commit (r : AgentRecord) (Q : Unit → World → Prop) (w : World) :
    (commit r).Steps allowed R Q w ↔ R w (w.commit r) ∧ Q () (w.commit r) := Iff.rfl

@[simp] theorem steps_setFiles (f : Files → Files) (Q : Unit → World → Prop) (w : World) :
    (setFiles f).Steps allowed R Q w ↔ R w (w.onFiles f) ∧ Q () (w.onFiles f) := Iff.rfl

theorem steps_remove {f : Files → Files} {Q : Unit → World → Prop} {w : World} (hR : R w (w.onFiles f))
    (hdone : Q () (w.onFiles f)) (hkept : Q () w) : (remove f).Steps allowed R Q w := by
  simp only [remove, Prog.steps_bind, steps_succeeds]
  intro e _
  split
  · exact ⟨hR, hdone⟩
  · exact hkept

theorem steps_send {request : Message} {reply : Reply} {Q : Status → World → Prop} {w : World}
    (hR : R w (w.answer request reply)) (hsent : Q (.ok ()) (w.answer request reply)) (hlost : ∀ e, Q (.error e) w) :
    (send request reply).Steps allowed R Q w := by
  simp only [send, Prog.steps_bind, Prog.steps_ask]
  intro e _
  split
  · exact hlost _
  · exact ⟨hR, hsent⟩

/-- Some file operation may fail. -/
def Failing (allowed : Env → Prop) : Prop := ∃ e, allowed e ∧ e.ok = false

theorem steps_writeFileAtomic {put : World → World} {drop : Files → Files} {Q : Status → World → Prop} {w : World}
    (hput : R w (put w)) (hok : Q (.ok ()) (put w)) (herr : ∀ e, Q (.error e) w)
    (hdrop : Failing allowed → R w (w.onFiles drop) ∧ R (w.onFiles drop) (put (w.onFiles drop)) ∧
      Q (.ok ()) (put (w.onFiles drop)) ∧ ∀ e, Q (.error e) (w.onFiles drop)) :
    (writeFileAtomic put drop).Steps allowed R Q w := by
  simp only [writeFileAtomic, Prog.steps_bind, steps_succeeds]
  intro e₁ _
  split
  · exact herr _
  simp only [Prog.steps_bind, steps_succeeds]
  intro e₂ _
  split
  · exact herr _
  simp only [Prog.steps_bind, steps_succeeds]
  intro e₃ he₃
  split
  · exact ⟨hput, hok⟩
  case isFalse hfail =>
    obtain ⟨hR₁, hR₂, hQ₁, hQ₂⟩ := hdrop ⟨e₃, he₃, Bool.eq_false_of_not_eq_true hfail⟩
    rw [Prog.steps_bind]
    refine steps_remove hR₁ ?_ ?_
    · simp only [Prog.steps_bind, steps_succeeds]
      intro e₄ _
      split
      · exact ⟨hR₂, hQ₁⟩
      · exact hQ₂ _
    · simp only [Prog.steps_bind, steps_succeeds]
      intro e₄ _
      split
      · exact ⟨hput, hok⟩
      · exact herr _

/-! The updates. -/

/-- The generation is the committed one, with the same content. -/
def Committed (s : AgentState) (generation : Generation) (digest : Digest) : Prop :=
  s.committedGeneration ≠ 0 ∧ generation = s.committedGeneration ∧ digest = s.committedDigest

/-- Nothing of this generation or a later one is committed. -/
def Fresh (s : AgentState) (generation : Generation) : Prop :=
  s.committedGeneration = 0 ∨ s.committedGeneration < generation

/-- What an activation is answered from. -/
def Proven (s : AgentState) (generation : Generation) (digest : Digest) : Prop :=
  Committed s generation digest ∨ Fresh s generation ∧
    ∃ f ∈ s.findings, f.generation = generation ∧ f.digest = digest ∧ isActivationState f.state = true

/-- What stands behind a frame when it is sent. -/
def Grounded (w : World) : Message → Reply → Prop
  | .prepare m, .prepareAck a => a.duplicateSuppressed = true →
    stale w.mem m.generation = false ∧ ∃ f, w.mem.findFinding m.key m.digest = some f ∧
      isActivationState f.state = true ∧ f.generation = m.generation
  | .applyCommit m, .applyCommitAck a => a.committed = true → Proven w.mem m.generation m.digest
  | .applyCommit m, .deliveryAck a =>
    a.deployment = m.deployment ∧ a.generation = m.generation ∧ a.digest = m.digest ∧
      Proven w.mem m.generation m.digest
  | .reconcileRequest m, .reconcileReport a => a = reconcileReport w.mem w.files m.maxFindings
  | .hello m, .helloAck a =>
    (a.committedGeneration = w.mem.committedGeneration ∧ a.committedDigest = w.mem.committedDigest) ∧
      a.term = w.mem.term ∧ m.authority = w.mem.authority
  | _, .prepareAck _ | _, .applyCommitAck _ | _, .deliveryAck _ | _, .reconcileReport _ | _, .helloAck _ => False
  | _, _ => True

def counted (s : AgentState) (activations duplicatesSuppressed staleOffersRefused digestRejections applyRollbacks : ℕ) :
    AgentState :=
  { s with activations, duplicatesSuppressed, staleOffersRefused, digestRejections, applyRollbacks }

/-- The transfer record is the one the state holds. -/
def Holds (w : World) (c : TransferRecord) : Prop := w.mem.transfers.find c.deployment = some c

/-- Updates that leave pointers, committed generation and findings alone. -/
inductive Quiet : World → World → Prop
  | answer {w : World} {m : Message} {r : Reply} : Grounded w m r → Quiet w (w.answer m r)
  | count {w : World} (a b c d e : ℕ) : Quiet w { w with mem := counted w.mem a b c d e }
  | counter {w : World} (n : ℕ) : Quiet w { w with chunkCounter := n }
  | note {w : World} (a b c d : ℕ) : Quiet w (w.commit (.rollbackNote a b c d))
  | resolved {w : World} (n : ℕ) : Quiet w (w.commit (.applyResolved n))
  | fence {w : World} {m : HelloMessage} :
      m.authority.Follows w.mem.authority → Quiet w (w.commit (.controllerFence m.epoch m.incarnation m.nodeId))
  | prepared {w : World} {c : TransferRecord} :
      Holds w c → Quiet w (w.commit (.applyPrepared c.deployment c.generation c.digest))
  | begun {w : World} {m : PrepareMessage} {resumeFrom : ℕ} {at_ : ℤ} :
      Message.prepare m ∈ w.received → resumeFrom ≤ m.sizeBytes →
      Quiet w (w.commit (.transferUpsert {
        deployment := m.deployment, stream := m.stream, key := m.key, artifact := m.artifact
        generation := m.generation, digest := m.digest, totalBytes := m.sizeBytes, bytesReceived := resumeFrom
        verified := false, staged := false, updatedAtMillis := at_ }))
  | progressed {w : World} {c : TransferRecord} {finish : ℕ} {at_ : ℤ} :
      Holds w c → c.bytesReceived < finish → finish ≤ c.totalBytes →
      Quiet w (w.commit (.transferUpsert { c with bytesReceived := finish, updatedAtMillis := at_ }))
  | remembered {w : World} {c : TransferRecord} {finish : ℕ} {at_ : ℤ} :
      Holds w c → c.bytesReceived < finish → finish ≤ c.totalBytes →
      Quiet w (w.remember c.deployment { c with bytesReceived := finish, updatedAtMillis := at_ })
  | verified {w : World} {c : TransferRecord} {content : Bytes} {at_ : ℤ} :
      Holds w c → c.bytesReceived = c.totalBytes →
      w.files.staging.lookup (stagingPath c.deployment) = some content →
      hashFile (some content) c.totalBytes = .ok c.digest →
      Quiet w (w.commit (.transferUpsert { c with verified := true, updatedAtMillis := at_ }))
  | staged {w : World} {c : TransferRecord} {at_ : ℤ} :
      Holds w c → c.verified = true →
      Quiet w (w.commit (.transferUpsert { c with staged := true, updatedAtMillis := at_ }))
  | removed {w : World} (deployment : DeploymentId) : Quiet w (w.commit (.transferRemove deployment))
  | unstaged {w : World} (path : Directory) :
      Quiet w (w.onFiles fun f => { f with staging := f.staging.erase path })
  | written {w : World} {c : TransferRecord} (content : Bytes) :
      Holds w c → c.bytesReceived < c.totalBytes → Quiet w (w.writeStaging (stagingPath c.deployment) content)
  | copying {w : World} (parts : List (Directory × Bytes)) : Quiet w (w.onFiles fun f => { f with parts })
  | placed {w : World} {c : TransferRecord} {content : Bytes} (parts : List (Directory × Bytes)) :
      Holds w c → c.verified = true → w.files.staging.lookup (stagingPath c.deployment) = some content →
      Quiet w (w.onFiles fun f => { f with
        parts, payload := f.payload.insert (payloadName (liveKeyDirectory c.key) c.generation c.digest) content })
  | pruned {w : World} (name : PayloadName) :
      Quiet w (w.onFiles fun f => { f with payload := f.payload.erase name })
  | marked {w : World} (directory : Directory) (value : PointerValue) :
      Quiet w (w.onFiles (·.putPending directory value))
  | unmarked {w : World} (directory : Directory) : Quiet w (w.onFiles (·.dropPending directory))

/-- Transfer tables as the agent keeps them. -/
structure Kept (s : AgentState) : Prop where
  sorted : SortedMap.Sorted s.transfers
  keyed : ∀ e ∈ s.transfers, e.2.deployment = e.1
  bounded : ∀ e ∈ s.transfers, e.2.bytesReceived ≤ e.2.totalBytes

theorem Kept.find {s : AgentState} (h : Kept s) {deployment : DeploymentId} {c : TransferRecord}
    (hc : s.transfers.find deployment = some c) : c.deployment = deployment ∧ c.bytesReceived ≤ c.totalBytes :=
  ⟨h.keyed _ (SortedMap.find_mem hc), h.bounded _ (SortedMap.find_mem hc)⟩

theorem Kept.holds {w : World} (h : Kept w.mem) {deployment : DeploymentId} {c : TransferRecord}
    (hc : w.mem.transfers.find deployment = some c) : Holds w c := by
  rw [Holds, (h.find hc).1, hc]

/-! The handlers of a transfer. -/

theorem steps_destroyTransfer {deployment : DeploymentId} {Q : Unit → World → Prop} {w : World}
    (hQ : ∀ w', w'.received = w.received → Q () w') :
    (destroyTransfer deployment).Steps allowed Quiet Q w := by
  have hrest (w' : World) (h : w'.received = w.received) :
      (do if ((← state).transfers.find deployment).isSome then commit (.transferRemove deployment) : Agent Unit).Steps
        allowed Quiet Q w' := by
    simp only [Prog.steps_bind, steps_state]
    split
    · exact ⟨.removed deployment, hQ _ h⟩
    · exact hQ _ h
  simp only [destroyTransfer, Prog.steps_bind]
  exact steps_remove (.unstaged _) (hrest _ rfl) (hrest _ rfl)

theorem steps_resumePoint {m : PrepareMessage} {w : World} (hk : Kept w.mem) {Q : ℕ → World → Prop}
    (hQ : ∀ n ≤ m.sizeBytes, ∀ w', w'.received = w.received → Q n w') :
    (resumePoint m).Steps allowed Quiet Q w := by
  simp only [resumePoint, Prog.steps_bind, steps_state]
  split
  case h_1 => exact hQ 0 (Nat.zero_le _) w rfl
  case h_2 record hrecord =>
    have hle := (hk.find hrecord).2
    simp only [Prog.steps_bind, Prog.steps_read]
    split
    case isTrue hsame =>
      split
      · split
        · exact hQ _ (by omega) w rfl
        · simp only [Prog.steps_bind]
          exact steps_destroyTransfer fun w' hw => hQ 0 (Nat.zero_le _) w' hw
      · split
        · exact hQ _ (by omega) w rfl
        · exact hQ 0 (Nat.zero_le _) w rfl
    case isFalse =>
      simp only [Prog.steps_bind]
      exact steps_destroyTransfer fun w' hw => hQ 0 (Nat.zero_le _) w' hw

theorem steps_refusePrepare {m : PrepareMessage} {code : ErrorCode} {detail : String} {observed : DeliveryState}
    {w : World} : (refusePrepare m code detail observed).Steps allowed Quiet (fun _ _ => True) w := by
  simp only [refusePrepare, Prog.steps_bind, steps_state]
  exact steps_send (.answer trivial) trivial fun _ => trivial

theorem steps_onPrepare {o : AgentOptions} {m : PrepareMessage} {w : World} (hk : Kept w.mem)
    (hm : Message.prepare m ∈ w.received) :
    (onPrepare o m).Steps allowed Quiet (fun _ _ => True) w := by
  simp only [onPrepare, Prog.steps_bind, steps_state]
  split
  · exact steps_refusePrepare
  split
  · simp only [Prog.steps_bind, steps_setState, steps_state, steps_commit]
    exact ⟨.count _ _ _ _ _, .note _ _ _ _, steps_refusePrepare⟩
  case isFalse hstale =>
    split
    · simp only [Prog.steps_bind, steps_setState, steps_state, steps_commit]
      exact ⟨.count _ _ _ _ _, .note _ _ _ _, steps_refusePrepare⟩
    split
    · exact steps_refusePrepare
    split
    · exact steps_refusePrepare
    split
    case h_1 finding hfinding =>
      obtain ⟨hfind, hactive⟩ := Option.filter_eq_some_iff.mp hfinding
      simp only [Bool.and_eq_true, beq_iff_eq] at hactive
      simp only [Prog.steps_bind, steps_setState, steps_state, steps_commit]
      refine ⟨.count _ _ _ _ _, .note _ _ _ _, steps_send (.answer fun _ => ?_) trivial fun _ => trivial⟩
      exact ⟨Bool.eq_false_of_not_eq_true hstale, finding, hfind, hactive⟩
    case h_2 =>
      rw [Prog.steps_bind]
      refine steps_resumePoint hk fun n hn w' hw => ?_
      simp only [beginTransfer, checkpointTransfer, Prog.steps_bind, steps_now]
      intro e _
      refine ⟨.begun (hw ▸ hm) hn, steps_send (.answer fun h => ?_) trivial fun _ => trivial⟩
      cases h

theorem steps_writeChunk {c : TransferRecord} {m : ChunkMessage} {w : World} (hc : Holds w c)
    (hlt : c.bytesReceived < c.totalBytes) {Q : Option (ErrorCode × String) → World → Prop}
    (hQ : ∀ r w', w'.mem = w.mem → w'.chunkCounter = w.chunkCounter → Q r w') :
    (writeChunk c.deployment c m).Steps allowed Quiet Q w := by
  simp only [writeChunk, Prog.steps_bind, Prog.steps_read, steps_succeeds]
  intro e₁ _
  split
  · exact hQ _ w rfl rfl
  simp only [Prog.steps_bind, Prog.steps_modify, Prog.steps_ask]
  refine ⟨.written _ hc hlt, fun e₂ _ => ⟨.written _ hc hlt, ?_⟩⟩
  split
  · exact hQ _ _ rfl rfl
  simp only [Prog.steps_bind, Prog.steps_modify, steps_succeeds]
  refine ⟨.written _ hc hlt, fun e₃ _ => ?_⟩
  split
  · exact hQ _ _ rfl rfl
  · exact hQ _ _ rfl rfl

theorem steps_onChunk {m : ChunkMessage} {w : World} (hk : Kept w.mem) (hm : m.data ≠ []) :
    (onChunk m).Steps allowed Quiet (fun _ _ => True) w := by
  have hrespond (ack : ChunkAckMessage) (w' : World) :
      (send (.chunk m) (.chunkAck ack)).Steps allowed Quiet (fun _ _ => True) w' :=
    steps_send (.answer trivial) trivial fun _ => trivial
  simp only [onChunk, Prog.steps_bind, steps_state]
  split
  · exact hrespond _ _
  case h_2 deployment c hfind =>
    have hmem := List.mem_of_find?_eq_some hfind
    obtain rfl : c.deployment = deployment := hk.keyed _ hmem
    have hc : Holds w c := SortedMap.find_of_mem hk.sorted hmem
    split
    · exact hrespond _ _
    case isFalse hoffset =>
      split
      · exact hrespond _ _
      case h_2 finish hfinish =>
        split
        · exact hrespond _ _
        case isFalse hle =>
          simp only [checkedAdd, Option.ite_none_left_eq_some, Option.some.injEq] at hfinish
          have hpos := List.length_pos_iff.mpr hm
          have hlt : c.bytesReceived < finish := by omega
          rw [Prog.steps_bind]
          refine steps_writeChunk hc (by omega) fun r w' hmem' _ => ?_
          have hc' : Holds w' c := by rw [Holds, hmem']; exact hc
          split
          · exact hrespond _ _
          simp only [Prog.steps_bind, steps_now, Prog.steps_modify, Prog.steps_read]
          refine fun e _ => ⟨.counter _, ?_⟩
          split
          · exact ⟨.progressed hc' hlt (by omega), hrespond _ _⟩
          · exact ⟨.remembered hc' hlt (by omega), hrespond _ _⟩

theorem steps_sendNack {request : Message} {deployment : DeploymentId} {key : ConfigKey} {generation : Generation}
    {digest : Digest} {code : ErrorCode} {detail : String} {w : World} :
    (sendNack request deployment key generation digest code detail).Steps allowed Quiet (fun _ _ => True) w := by
  simp only [sendNack, Prog.steps_bind, steps_state]
  exact steps_send (.answer (by cases request <;> trivial)) trivial fun _ => trivial

theorem steps_hashStagingFile {content : Option Bytes} {expected : ℕ} {w : World} {Q : Result Digest → World → Prop}
    (hread : Q (hashFile content expected) w) (hfail : ∀ e, Q (.error e) w) :
    (hashStagingFile content expected).Steps allowed R Q w := by
  simp only [hashStagingFile, Prog.steps_bind, steps_succeeds]
  intro e _
  split
  · exact hfail _
  · exact hread

theorem steps_rejectTransfer {m : TransferCompleteMessage} {c : TransferRecord} {actual : Result Digest} {w : World} :
    (rejectTransfer m c actual).Steps allowed Quiet (fun _ _ => True) w := by
  simp only [rejectTransfer, Prog.steps_bind, steps_setState, steps_state, steps_commit]
  refine ⟨.count _ _ _ _ _, .note _ _ _ _, steps_destroyTransfer fun w' _ => ?_⟩
  rw [Prog.steps_bind]
  exact steps_send (.answer trivial) steps_sendNack fun _ => trivial

theorem hashFile_some {content : Option Bytes} {expected : ℕ} {digest : Digest}
    (h : hashFile content expected = .ok digest) : ∃ bytes, content = some bytes := by
  cases content with
  | none => cases h
  | some bytes => exact ⟨bytes, rfl⟩

theorem steps_onTransferComplete {m : TransferCompleteMessage} {w : World} (hk : Kept w.mem) :
    (onTransferComplete m).Steps allowed Quiet (fun _ _ => True) w := by
  have hrespond (result : TransferResultMessage) (w' : World) :
      (send (.transferComplete m) (.transferResult result)).Steps allowed Quiet (fun _ _ => True) w' :=
    steps_send (.answer trivial) trivial fun _ => trivial
  simp only [onTransferComplete, Prog.steps_bind, steps_state]
  split
  · exact hrespond _ _
  case h_2 c hfind =>
    obtain ⟨hdep, -⟩ := hk.find hfind
    split
    · exact hrespond _ _
    case isFalse hall =>
      split
      · exact hrespond _ _
      simp only [Prog.steps_bind, Prog.steps_read]
      refine steps_hashStagingFile ?_ fun e => ?_
      · split
        case isTrue hhash =>
          obtain ⟨content, hcontent⟩ := hashFile_some hhash
          rw [hcontent] at hhash
          simp only [Prog.steps_bind, steps_now]
          exact fun e _ => ⟨.verified (hk.holds hfind) (not_not.mp hall) (hdep ▸ hcontent) hhash, hrespond _ _⟩
        case isFalse => exact steps_rejectTransfer
      · split
        case isTrue hbad => cases hbad
        case isFalse => exact steps_rejectTransfer

theorem steps_copyFileAtomic {c : TransferRecord} {w : World} (hc : Holds w c) (hv : c.verified = true)
    {Q : Status → World → Prop} (hQ : ∀ r w', w'.mem = w.mem → Q r w') :
    (copyFileAtomic (stagingPath c.deployment)
      (payloadName (liveKeyDirectory c.key) c.generation c.digest)).Steps allowed Quiet Q w := by
  simp only [copyFileAtomic, Prog.steps_bind, Prog.steps_ask, Prog.steps_read]
  intro e _
  split
  · exact hQ _ _ rfl
  case h_2 content hcontent =>
    simp only [Prog.steps_bind, steps_succeeds]
    intro e₁ _
    split
    · exact hQ _ _ rfl
    simp only [Prog.steps_bind, steps_setFiles, steps_succeeds]
    refine ⟨.copying _, fun e₂ _ => ?_⟩
    split
    · rw [Prog.steps_bind]
      exact steps_remove (.copying _) (hQ _ _ rfl) (hQ _ _ rfl)
    simp only [Prog.steps_bind, steps_succeeds]
    intro e₃ _
    split
    · rw [Prog.steps_bind]
      exact steps_remove (.copying _) (hQ _ _ rfl) (hQ _ _ rfl)
    · simp only [Prog.steps_bind, steps_setFiles]
      exact ⟨.placed _ hc hv hcontent, hQ _ _ rfl⟩

theorem steps_onStage {m : StageMessage} {w : World} (hk : Kept w.mem) :
    (onStage m).Steps allowed Quiet (fun _ _ => True) w := by
  have hrespond (ack : StageAckMessage) (w' : World) :
      (send (.stage m) (.stageAck ack)).Steps allowed Quiet (fun _ _ => True) w' :=
    steps_send (.answer trivial) trivial fun _ => trivial
  simp only [onStage, Prog.steps_bind, steps_state]
  split
  · exact hrespond _ _
  case h_2 c hfind =>
    obtain ⟨hdep, -⟩ := hk.find hfind
    split
    · exact hrespond _ _
    case isFalse hv =>
      have hv' : c.verified = true := by simpa using hv
      split
      · exact hrespond _ _
      split
      · exact hrespond _ _
      simp only [Prog.steps_bind, steps_succeeds]
      intro e _
      split
      · exact hrespond _ _
      rw [← hdep, Prog.steps_bind]
      refine steps_copyFileAtomic (hk.holds hfind) hv' fun r w' hmem => ?_
      have hc' : Holds w' c := by rw [Holds, hmem]; exact hk.holds hfind
      split
      · exact hrespond _ _
      · simp only [checkpointTransfer, Prog.steps_bind, steps_now]
        exact fun e _ => ⟨.staged hc' hv', hrespond _ _⟩

/-! The handlers that leave the live pointers alone. -/

theorem steps_openWindow {c : TransferRecord} {marker : PointerValue} {w : World} (hc : Holds w c)
    {Q : Status → World → Prop}
    (hok : ∀ f, f.current = w.files.current →
      Q (.ok ()) ((w.onFiles fun _ => f).commit (.applyPrepared c.deployment c.generation c.digest)))
    (herr : ∀ e f, f.current = w.files.current → Q (.error e) (w.onFiles fun _ => f)) :
    (openWindow c marker).Steps allowed Quiet Q w := by
  simp only [openWindow, Prog.steps_bind]
  refine steps_writeFileAtomic (.marked _ _) ?_ (fun e => herr e w.files rfl) fun _ => ⟨.unmarked _, .marked _ _, ?_, ?_⟩
  · exact ⟨.prepared hc, hok _ rfl⟩
  · exact ⟨.prepared hc, hok _ rfl⟩
  · exact fun e => herr e _ rfl

theorem steps_onApplyPrepare {m : ApplyPrepareMessage} {w : World} (hk : Kept w.mem) :
    (onApplyPrepare m).Steps allowed Quiet (fun _ _ => True) w := by
  have hrespond (ack : ApplyPrepareAckMessage) (w' : World) :
      (send (.applyPrepare m) (.applyPrepareAck ack)).Steps allowed Quiet (fun _ _ => True) w' :=
    steps_send (.answer trivial) trivial fun _ => trivial
  simp only [onApplyPrepare, Prog.steps_bind, steps_state]
  split
  · exact hrespond _ _
  split
  · exact hrespond _ _
  case h_2 c hfind =>
    have hc := hk.holds (Option.filter_eq_some_iff.mp hfind).1
    split
    · exact hrespond _ _
    split
    · exact hrespond _ _
    split
    · exact hrespond _ _
    rw [Prog.steps_bind]
    exact steps_openWindow hc (fun _ _ => hrespond _ _) fun _ _ _ => hrespond _ _

theorem steps_onApplyAbort {m : ApplyAbortMessage} {w : World} :
    (onApplyAbort m).Steps allowed Quiet (fun _ _ => True) w := by
  have hrespond (ack : ApplyAbortAckMessage) (w' : World) :
      (send (.applyAbort m) (.applyAbortAck ack)).Steps allowed Quiet (fun _ _ => True) w' :=
    steps_send (.answer trivial) trivial fun _ => trivial
  have hrest (w' : World) : (do
      setState fun s => { s with applyRollbacks := increment s.applyRollbacks }
      commit (rollbackPayload (← state))
      commit (.applyResolved (← state).activations)
      send (.applyAbort m) (.applyAbortAck { deployment := m.deployment, aborted := true, code := .ok }) :
      Agent Status).Steps allowed Quiet (fun _ _ => True) w' := by
    simp only [Prog.steps_bind, steps_setState, steps_state, steps_commit]
    exact ⟨.count _ _ _ _ _, .note _ _ _ _, .resolved _, hrespond _ _⟩
  simp only [onApplyAbort, Prog.steps_bind, steps_state]
  split
  · exact hrespond _ _
  split
  · exact hrespond _ _
  split
  · rw [Prog.steps_bind]
    exact steps_remove (.unmarked _) (hrest _) (hrest _)
  · exact hrest _

theorem steps_onReconcileRequest {m : ReconcileRequestMessage} {w : World} :
    (onReconcileRequest m).Steps allowed Quiet (fun _ _ => True) w := by
  simp only [onReconcileRequest, Prog.steps_bind, Prog.steps_read]
  exact steps_send (.answer rfl) trivial fun _ => trivial

theorem steps_onRetire {m : RetireMessage} {w : World} :
    (onRetire m).Steps allowed Quiet (fun _ _ => True) w := by
  have hrespond (ack : RetireAckMessage) (w' : World) :
      (send (.retire m) (.retireAck ack)).Steps allowed Quiet (fun _ _ => True) w' :=
    steps_send (.answer trivial) trivial fun _ => trivial
  simp only [onRetire, Prog.steps_bind, steps_state]
  split
  · exact hrespond _ _
  · rw [Prog.steps_bind]
    exact steps_destroyTransfer fun w' _ => hrespond _ w'

theorem steps_refuseHello {α : Type} {hello : HelloMessage} {code : ErrorCode} {detail : String} {w : World}
    {Q : Result α → World → Prop} (hQ : ∀ e w', w'.mem = w.mem → Q (.error e) w') :
    (refuseHello hello code detail).Steps allowed Quiet Q w := by
  simp only [refuseHello, Prog.steps_bind]
  exact steps_send (.answer trivial) (hQ _ _ rfl) fun _ => hQ _ _ rfl

theorem steps_adoptAuthority {hello : HelloMessage} {w : World} {Q : Result HelloAckMessage → World → Prop}
    (hok : ∀ ack w', Grounded w' (.hello hello) (.helloAck ack) → Q (.ok ack) w')
    (herr : ∀ e w', Q (.error e) w') : (adoptAuthority hello).Steps allowed Quiet Q w := by
  simp only [adoptAuthority, Prog.steps_bind, steps_state]
  split
  · exact steps_refuseHello fun e w' _ => herr e w'
  case isFalse hstale =>
    split
    · exact steps_refuseHello fun e w' _ => herr e w'
    case isFalse hfenced =>
      have hfollows : hello.authority.Follows w.mem.authority := by
        constructor
        · by_contra hlt
          have hlt' : hello.epoch < w.mem.lastControllerEpoch := not_le.mp hlt
          exact hstale ⟨Nat.ne_zero_of_lt hlt', hlt'⟩
        · intro hset heq hknown
          by_contra hne
          exact hfenced ⟨hset, heq, hknown, hne⟩
      simp only [Prog.steps_bind, steps_commit, steps_state, Prog.steps_ask]
      exact ⟨.fence hfollows, fun e _ => hok _ _ ⟨⟨rfl, rfl⟩, rfl, rfl⟩⟩

theorem steps_acceptHello {hello : HelloMessage} {w : World} :
    (acceptHello hello).Steps allowed Quiet (fun _ _ => True) w := by
  simp only [acceptHello, Prog.steps_bind]
  refine steps_adoptAuthority (fun ack w' hground => ?_) fun e w' => trivial
  simp only [Prog.steps_bind]
  exact steps_send (.answer hground) trivial fun _ => trivial

/-! Activation. -/

/-- The live pointer of the record's key is what the record activates. -/
def Switched (w : World) (c : TransferRecord) : Prop :=
  w.files.current.lookup (liveKeyDirectory c.key) = some (.pointer c.pointer) ∧ (c.key, c.pointer) ∈ w.switched

/-- Every update of a handler. `I` holds between messages and whenever nothing is being activated. -/
inductive AStep (failing : Prop) (I : World → Prop) : World → World → Prop
  | quiet {w w' : World} : I w → Quiet w w' → AStep failing I w w'
  | resolved {w : World} (n : ℕ) : AStep failing I w (w.commit (.applyResolved n))
  | unmarked {w : World} (directory : Directory) : AStep failing I w (w.onFiles (·.dropPending directory))
  | switched {w : World} {c : TransferRecord} :
      I w → Holds w c → c.staged = true → Fresh w.mem c.generation → AStep failing I w (w.switch c)
  | lost {w : World} (directory : Directory) :
      failing → I w → AStep failing I w (w.onFiles (·.dropCurrent directory))
  | settled {w : World} {c : TransferRecord} :
      Holds w c → Switched w c → AStep failing I w (w.commit (.targetCommit c.generation c.digest c.artifact))
  | found {w : World} {c : TransferRecord} {at_ : ℤ} :
      Holds w c → Switched w c → w.mem.committedGeneration = c.generation → w.mem.committedDigest = c.digest →
      AStep failing I w (w.commit (.findingUpsert (findingOf c at_)))

/-- What a finished activation has changed. -/
structure Activated (w : World) (c : TransferRecord) (w' : World) : Prop where
  current : ∀ directory, w'.files.current.lookup directory =
    if directory = liveKeyDirectory c.key then some (.pointer c.pointer) else w.files.current.lookup directory
  generation : w'.mem.committedGeneration = c.generation
  digest : w'.mem.committedDigest = c.digest
  findings : ∃ at_, w'.mem.findings = AgentState.insertFinding (findingOf c at_) w.mem.findings
  transfers : w'.mem.transfers = w.mem.transfers
  switched : w'.switched = w.switched ++ [(c.key, c.pointer)]
  sent : w'.sent = w.sent
  received : w'.received = w.received

/-- `I` survives everything a handler does between two activations, and a whole activation. -/
structure Stable (failing : Prop) (I : World → Prop) : Prop where
  quiet : ∀ {w w' : World}, I w → Quiet w w' → I w'
  lost : failing → ∀ {w : World} (directory : Directory), I w → I (w.onFiles (·.dropCurrent directory))
  activated : ∀ {w w' : World} {c : TransferRecord}, I w → Holds w c → c.staged = true → Fresh w.mem c.generation →
    Activated w c w' → I w'

section Activation

variable {I : World → Prop} {o : AgentOptions} {c : TransferRecord}

/-- A program of quiet updates, started where `I` holds. -/
theorem steps_quiet {α : Type} {p : Agent α} {w : World} {Q : α → World → Prop} (hI : Stable (Failing allowed) I)
    (hw : I w) (h : p.Steps allowed Quiet Q w) :
    p.Steps allowed (AStep (Failing allowed) I) (fun a w' => Q a w' ∧ I w') w := by
  induction p generalizing w with
  | ret a => exact ⟨h, hw⟩
  | get k ih => exact ih w hw h
  | set f k ih => exact ⟨.quiet hw h.1, ih (hI.quiet hw h.1) h.2⟩
  | input k ih => exact fun i hi => ih i hw (h i hi)

theorem steps_removePayloads {w : World} {Q : Unit → World → Prop} (names : List (PayloadName ⊕ Directory × Bytes))
    (hQ : ∀ f, f.current = w.files.current → Q () (w.onFiles fun _ => f)) :
    (removePayloads names).Steps allowed Quiet Q w := by
  induction names generalizing w with
  | nil => exact hQ w.files rfl
  | cons name rest ih =>
    cases name with
    | inl name =>
      simp only [removePayloads, Prog.steps_bind]
      exact steps_remove (.pruned name) (ih fun f hf => hQ f hf) (ih hQ)
    | inr part =>
      simp only [removePayloads, Prog.steps_bind]
      exact steps_remove (.copying _) (ih fun f hf => hQ f hf) (ih hQ)

theorem steps_prunePayloads {key : ConfigKey} {w : World} {Q : Unit → World → Prop}
    (hQ : ∀ f, f.current = w.files.current → Q () (w.onFiles fun _ => f)) :
    (prunePayloads o key).Steps allowed Quiet Q w := by
  simp only [prunePayloads, Prog.steps_bind, Prog.steps_ask, Prog.steps_read]
  intro e _
  split
  · exact hQ w.files rfl
  · exact steps_removePayloads _ hQ

/-- The pointer has been switched and nothing else recorded. -/
structure Started (w : World) (c : TransferRecord) (w' : World) : Prop where
  current : ∀ directory, w'.files.current.lookup directory =
    if directory = liveKeyDirectory c.key then some (.pointer c.pointer) else w.files.current.lookup directory
  mem : w'.mem = w.mem
  switched : w'.switched = w.switched ++ [(c.key, c.pointer)]
  sent : w'.sent = w.sent
  received : w'.received = w.received

theorem lookup_putCurrent (f : Files) (directory directory' : Directory) (value : PointerValue) :
    (f.putCurrent directory value).current.lookup directory' =
      if directory' = directory then some (.pointer value) else f.current.lookup directory' := by
  by_cases h : directory' = directory
  · subst h
    simp [Files.putCurrent]
  · simp [Files.putCurrent, h]

theorem lookup_dropCurrent (f : Files) (directory directory' : Directory) :
    (f.dropCurrent directory).current.lookup directory' =
      if directory' = directory then none else f.current.lookup directory' := by
  by_cases h : directory' = directory
  · subst h
    simp [Files.dropCurrent]
  · simp [Files.dropCurrent, h]

theorem started_switch (w : World) (c : TransferRecord) : Started w c (w.switch c) :=
  ⟨fun _ => lookup_putCurrent _ _ _ _, rfl, rfl, rfl, rfl⟩

theorem started_retry (w : World) (c : TransferRecord) :
    Started w c ((w.onFiles (·.dropCurrent (liveKeyDirectory c.key))).switch c) := by
  refine ⟨fun directory => ?_, rfl, rfl, rfl, rfl⟩
  simp only [World.switch, World.onFiles, lookup_putCurrent, lookup_dropCurrent]
  split
  · rfl
  · rfl

theorem Started.switchedTo {w w' : World} (h : Started w c w') : Switched w' c :=
  ⟨by rw [h.current, if_pos rfl], by rw [h.switched]; simp⟩

theorem steps_switchPointer {w : World} (hI : Stable (Failing allowed) I) (hw : I w) (hc : Holds w c)
    (hs : c.staged = true) (hf : Fresh w.mem c.generation) {Q : Status → World → Prop}
    (hok : ∀ w', Started w c w' → Q (.ok ()) w') (herr : ∀ e w', I w' → Q (.error e) w') :
    (switchPointer c).Steps allowed (AStep (Failing allowed) I) Q w := by
  refine steps_writeFileAtomic (.switched hw hc hs hf) (hok _ (started_switch w c)) (fun e => herr e w hw) ?_
  intro hfailing
  have hlost := hI.lost hfailing (liveKeyDirectory c.key) hw
  exact ⟨.lost _ hfailing hw, .switched hlost hc hs hf, hok _ (started_retry w c), fun e => herr e _ hlost⟩

theorem steps_recordActivation {w w₁ : World} (hI : Stable (Failing allowed) I) (hw : I w) (hc : Holds w c)
    (hs : c.staged = true) (hf : Fresh w.mem c.generation) (hstart : Started w c w₁) {w₂ : World}
    (hfiles : w₂.files.current = w₁.files.current) (htransfers : w₂.mem.transfers = w₁.mem.transfers)
    (hfindings : w₂.mem.findings = w₁.mem.findings) (hswitched : w₂.switched = w₁.switched)
    (hsent : w₂.sent = w₁.sent) (hreceived : w₂.received = w₁.received) {Q : Unit → World → Prop}
    (hQ : ∀ w', I w' → w'.mem.committedGeneration = c.generation → w'.mem.committedDigest = c.digest → Q () w') :
    (recordActivation c).Steps allowed (AStep (Failing allowed) I) Q w₂ := by
  have hc₂ : Holds w₂ c := by rw [Holds, htransfers, hstart.mem]; exact hc
  have hs₂ : Switched w₂ c := by
    rw [Switched, hfiles, hswitched]
    exact hstart.switchedTo
  simp only [recordActivation, Prog.steps_bind, steps_commit, steps_now, steps_setState, steps_state]
  refine ⟨.settled hc₂ hs₂, fun e _ => ⟨.found hc₂ hs₂ rfl rfl, ?_⟩⟩
  have hdone : Activated w c ((w₂.commit (.targetCommit c.generation c.digest c.artifact)).commit
      (.findingUpsert (findingOf c e.now))) :=
    { current := fun directory => by rw [← hstart.current, ← hfiles]; rfl
      generation := rfl
      digest := rfl
      findings := ⟨e.now, by rw [← hstart.mem, ← hfindings]; rfl⟩
      transfers := htransfers.trans (by rw [hstart.mem])
      switched := hswitched.trans hstart.switched
      sent := hsent.trans hstart.sent
      received := hreceived.trans hstart.received }
  have hI₃ := hI.activated hw hc hs hf hdone
  refine ⟨.quiet hI₃ (.count _ _ _ _ _), .quiet ?_ (.note _ _ _ _), hQ _ ?_ rfl rfl⟩
  · exact hI.quiet hI₃ (.count _ _ _ _ _)
  · exact hI.quiet (hI.quiet hI₃ (.count _ _ _ _ _)) (.note _ _ _ _)

theorem steps_commitGeneration {w w₁ : World} (hI : Stable (Failing allowed) I) (hw : I w) (hc : Holds w c)
    (hs : c.staged = true) (hf : Fresh w.mem c.generation) (hstart : Started w c w₁) {Q : Unit → World → Prop}
    (hQ : ∀ w', I w' → w'.mem.committedGeneration = c.generation → w'.mem.committedDigest = c.digest → Q () w') :
    (commitGeneration c).Steps allowed (AStep (Failing allowed) I) Q w₁ := by
  simp only [commitGeneration, Prog.steps_bind, steps_state]
  split
  · rw [Prog.steps_bind, steps_commit]
    refine ⟨.resolved _, ?_⟩
    refine steps_recordActivation hI hw hc hs hf hstart ?_ ?_ ?_ ?_ ?_ ?_ hQ <;> rfl
  · exact steps_recordActivation hI hw hc hs hf hstart rfl rfl rfl rfl rfl rfl hQ

/-- An activation past its window. -/
def switchAndCommit (o : AgentOptions) (r : TransferRecord) (explicitPrepare : Bool) : Agent Status := do
  match ← switchPointer r with
  | .error e => return .error e
  | .ok () =>
    if explicitPrepare then remove (·.dropPending (liveKeyDirectory r.key))
    commitGeneration r
    prunePayloads o r.key
    return .ok ()

theorem steps_activate {explicitPrepare : Bool} {w : World} (hI : Stable (Failing allowed) I) (hw : I w)
    (hc : Holds w c) (hs : c.staged = true) (hf : Fresh w.mem c.generation) {Q : Status → World → Prop}
    (hok : ∀ w', I w' → w'.mem.committedGeneration = c.generation → w'.mem.committedDigest = c.digest →
      Q (.ok ()) w') (herr : ∀ e w', I w' → Q (.error e) w') :
    (activate o c explicitPrepare).Steps allowed (AStep (Failing allowed) I) Q w := by
  have hprune (w' : World) (hw' : I w') (hg : w'.mem.committedGeneration = c.generation)
      (hd : w'.mem.committedDigest = c.digest) :
      (do prunePayloads o c.key; return .ok () : Agent Status).Steps allowed (AStep (Failing allowed) I) Q w' := by
    rw [Prog.steps_bind]
    refine (steps_quiet hI hw' (Q := fun _ w'' => w''.mem = w'.mem) (steps_prunePayloads fun f _ => rfl)).mono ?_
    rintro _ w'' ⟨hmem, hw''⟩
    exact hok w'' hw'' (by rw [hmem, hg]) (by rw [hmem, hd])
  have hswitch (w₀ : World) (hw₀ : I w₀) (hc₀ : Holds w₀ c) (hf₀ : Fresh w₀.mem c.generation) :
      (switchAndCommit o c explicitPrepare).Steps allowed (AStep (Failing allowed) I) Q w₀ := by
    rw [switchAndCommit, Prog.steps_bind]
    refine steps_switchPointer hI hw₀ hc₀ hs hf₀ (fun w₁ h₁ => ?_) fun e w' hw' => herr e w' hw'
    have hcommit (w₂ : World) (h₂ : Started w₀ c w₂) : (do
        commitGeneration c
        prunePayloads o c.key
        return .ok () : Agent Status).Steps allowed (AStep (Failing allowed) I) Q w₂ := by
      rw [Prog.steps_bind]
      exact steps_commitGeneration hI hw₀ hc₀ hs hf₀ h₂ hprune
    simp only
    split
    · rw [Prog.steps_bind]
      exact steps_remove (.unmarked _) (hcommit _ ⟨h₁.current, h₁.mem, h₁.switched, h₁.sent, h₁.received⟩)
        (hcommit _ h₁)
    · exact hcommit _ h₁
  simp only [activate, Prog.steps_bind, steps_state]
  split
  · rw [Prog.steps_bind]
    refine (steps_quiet hI hw (Q := fun r w' => w'.mem.transfers = w.mem.transfers ∧
      w'.mem.committedGeneration = w.mem.committedGeneration) (steps_openWindow hc ?_ ?_)).mono ?_
    · exact fun f _ => ⟨rfl, rfl⟩
    · exact fun e f _ => ⟨rfl, rfl⟩
    · rintro r w' ⟨⟨htransfers, hcommitted⟩, hw'⟩
      cases r with
      | error e => exact herr e w' hw'
      | ok _ => exact hswitch w' hw' (by rw [Holds, htransfers]; exact hc) (by rw [Fresh, hcommitted]; exact hf)
  · exact hswitch w hw hc hf

/-! Commits, and every message. -/

theorem fresh_of {s : AgentState} {generation : Generation} {digest : Digest} (hstale : ¬ stale s generation = true)
    (hsame : ¬ (s.committedGeneration ≠ 0 ∧ generation = s.committedGeneration ∧ digest = s.committedDigest))
    (hconflict : ¬ conflicting s generation digest = true) : Fresh s generation := by
  simp only [stale, conflicting, Bool.and_eq_true, decide_eq_true_eq, ne_eq, not_and, not_lt] at hstale hsame hconflict
  by_cases h0 : s.committedGeneration = 0
  · exact .inl h0
  · have hle := hstale h0
    have hne : generation ≠ s.committedGeneration := by
      intro h
      have hd := hsame h0 h
      exact hconflict ⟨h0, h⟩ hd
    exact .inr (lt_of_le_of_ne hle hne.symm)

theorem steps_refuseCommit {m : ApplyCommitMessage} {ack : ApplyCommitAckMessage} {key : ConfigKey} {detail : String}
    {w : World} (hack : ack.committed = false) :
    (refuseCommit m ack key detail).Steps allowed Quiet (fun _ _ => True) w := by
  simp only [refuseCommit, Prog.steps_bind]
  refine steps_send (.answer fun h => ?_) steps_sendNack fun _ => trivial
  rw [hack] at h
  cases h

theorem steps_confirmCommit {session : Session} {m : ApplyCommitMessage} {ack : ApplyCommitAckMessage}
    {key : ConfigKey} {bytes : ℕ} {w : World} (hp : Proven w.mem m.generation m.digest) :
    (confirmCommit session m ack key bytes).Steps allowed Quiet (fun _ _ => True) w := by
  simp only [confirmCommit, Prog.steps_bind]
  refine steps_send (.answer fun _ => hp) ?_ fun _ => trivial
  simp only [sendAck, Prog.steps_bind, steps_state, steps_now]
  exact fun e _ => steps_send (.answer ⟨rfl, rfl, rfl, hp⟩) trivial fun _ => trivial

theorem steps_onApplyCommit {session : Session} {m : ApplyCommitMessage} {w : World}
    (hI : Stable (Failing allowed) I) (hw : I w) (hk : Kept w.mem) (hm : m.generation ≠ 0) :
    (onApplyCommit o session m).Steps allowed (AStep (Failing allowed) I) (fun _ w' => I w') w := by
  have hquiet {p : Agent Status} {w' : World} (hw' : I w') (h : p.Steps allowed Quiet (fun _ _ => True) w') :
      p.Steps allowed (AStep (Failing allowed) I) (fun _ w' => I w') w' :=
    (steps_quiet hI hw' h).mono fun _ _ h => h.2
  simp only [onApplyCommit, Prog.steps_bind, steps_state]
  split
  · refine hquiet hw ?_
    simp only [Prog.steps_bind, steps_setState, steps_state, steps_commit]
    exact ⟨.count _ _ _ _ _, .note _ _ _ _, steps_refuseCommit rfl⟩
  case isFalse hstale =>
    split
    case isTrue hsame =>
      refine hquiet hw ?_
      simp only [Prog.steps_bind, steps_setState, steps_state, steps_commit]
      exact ⟨.count _ _ _ _ _, .note _ _ _ _, steps_confirmCommit (.inl hsame)⟩
    case isFalse hsame =>
      split
      · exact hquiet hw (steps_refuseCommit rfl)
      case isFalse hconflict =>
        have hfresh := fresh_of hstale hsame hconflict
        split
        case h_1 =>
          split
          case isTrue hany =>
            obtain ⟨f, hf, hmatch⟩ := List.any_eq_true.mp hany
            simp only [Bool.and_eq_true, beq_iff_eq] at hmatch
            exact hquiet hw (steps_confirmCommit (.inr ⟨hfresh, f, hf, hmatch.1.1, hmatch.1.2, hmatch.2⟩))
          case isFalse => exact hquiet hw (steps_refuseCommit rfl)
        case h_2 c hfind =>
          obtain ⟨hfind, hstaged⟩ := Option.filter_eq_some_iff.mp hfind
          split
          · exact hquiet hw (steps_refuseCommit rfl)
          case isFalse hcontent =>
            obtain ⟨hd, hg⟩ := not_or.mp hcontent
            have hd' := not_not.mp hd
            have hg' := not_not.mp hg
            split
            · exact hquiet hw (steps_refuseCommit rfl)
            split
            · exact hquiet hw (steps_refuseCommit rfl)
            rw [Prog.steps_bind]
            refine steps_activate hI hw (hk.holds hfind) hstaged (hg' ▸ hfresh) ?_ ?_
            · intro w' hw' hgen hdig
              simp only [Prog.steps_bind, steps_state]
              refine hquiet hw' (steps_confirmCommit (.inl ⟨?_, ?_, ?_⟩))
              · rw [hgen, ← hg']
                exact hm
              · rw [hgen, hg']
              · rw [hdig, hd']
            · exact fun e w' hw' => hquiet hw' (steps_refuseCommit rfl)

/-- Only a commit does more than quiet updates. -/
theorem quiet_dispatch {session : Session} {m : Message} {w : World} (hk : Kept w.mem) (hm : m.Valid)
    (hreceived : m ∈ w.received) (hcommit : ∀ c, m ≠ .applyCommit c) :
    (dispatch o session m).Steps allowed Quiet (fun _ _ => True) w := by
  cases m with
  | prepare m => exact steps_onPrepare hk hreceived
  | chunk m => exact steps_onChunk hk hm.2
  | transferComplete m => exact steps_onTransferComplete hk
  | stage m => exact steps_onStage hk
  | applyPrepare m => exact steps_onApplyPrepare hk
  | applyCommit m => exact absurd rfl (hcommit m)
  | applyAbort m => exact steps_onApplyAbort
  | reconcileRequest m => exact steps_onReconcileRequest
  | retire m => exact steps_onRetire
  | ping nonce => exact steps_send (.answer trivial) trivial fun _ => trivial
  | goodbye | hello m | unexpected => exact trivial

theorem steps_dispatch {session : Session} {m : Message} {w : World} (hI : Stable (Failing allowed) I) (hw : I w)
    (hk : Kept w.mem) (hm : m.Valid) (hreceived : m ∈ w.received) :
    (dispatch o session m).Steps allowed (AStep (Failing allowed) I) (fun _ w' => I w') w := by
  by_cases hcommit : ∃ c, m = .applyCommit c
  · obtain ⟨c, rfl⟩ := hcommit
    exact steps_onApplyCommit hI hw hk hm.2
  · refine (steps_quiet hI hw (Q := fun _ _ => True) ?_).mono fun _ _ h => h.2
    exact quiet_dispatch hk hm hreceived (not_exists.mp hcommit)

end Activation

end Agent

end ConfigurationFabric
