import ConfigurationFabric.DistributorSteps

/-! Every task of a process keeps to its guarantee. -/

namespace ConfigurationFabric

open LittleEndian
open Threads

namespace Distributor

namespace Setting

variable {ε α : Type} {S : Setting ε} {w : ε × Controller}

theorem runs_ask : S.Runs Thread.ask := fun _ => steps_ask fun _ _ _ => trivial

theorem runs_clock : S.Runs clock := fun _ => steps_clock fun _ _ _ => trivial

theorem runs_state : S.Runs state := fun _ => steps_state fun _ _ => trivial

theorem runs_epoch : S.Runs Distributor.epoch := fun _ => steps_epoch fun _ _ => trivial

theorem runs_transmit {request : Request} (h : ∀ hello, request.frame ≠ .message (.hello hello)) :
    S.Runs (transmit request) := by
  intro w
  apply steps_transmit
  · exact fun hello hframe => absurd hframe (h hello)
  · exact fun _ _ _ => trivial
  · exact fun _ _ _ _ _ _ => trivial

theorem steps_markContactCurrent {target : TargetId} {current : Bool} {atMillis : ℤ}
    {Q : Unit → ε × Controller → Prop}
    (h : ∀ w', S.rely w w' → Q () (w'.1, { w'.2 with mem := markContact target current atMillis w'.2.mem })) :
    S.Steps (markContactCurrent target current atMillis) Q w :=
  fun w' hrely => ⟨S.contact (S.filed hrely), h w' hrely⟩

theorem runs_snapshotDelivery {id : DeploymentId} : S.Runs (snapshotDelivery id) :=
  runs_bind runs_state fun _ => runs_pure _

theorem runs_recordRetired {record : DeliveryRecord} {reason : Bytes} : S.Runs (recordRetired record reason .own) :=
  (within_recordRetired Stable.always (grounds_own _)).runs

theorem runs_recordRejected {record : DeliveryRecord} {code : ErrorCode} {detail : Bytes} :
    S.Runs (recordRejected record code detail .own) := (within_recordRejected Stable.always (grounds_own _)).runs

theorem runs_recordFailure {record : DeliveryRecord} {code : ErrorCode} {detail : Bytes} :
    S.Runs (recordFailure record code detail .own) := (within_recordFailure Stable.always (grounds_own _)).runs

theorem runs_recordTransition {record : DeliveryRecord} {target : DeliveryState} {kind : EvidenceKind}
    {code : ErrorCode} {detail : Bytes} {fromReconciliation : Bool} :
    S.Runs (recordTransition record target kind code detail fromReconciliation .own) :=
  (within_recordTransition Stable.always (grounds_own _)).runs

theorem runs_upsertDelivery {record : DeliveryRecord} : S.Runs (upsertDelivery record .own) :=
  (within_upsertDelivery Stable.always (grounds_own _)).runs

/-! Driving the deliveries. -/

section Driving

variable {o : DistributorOptions} {rounds : ℕ} {session : SessionContext}

theorem runs_giveUp {record : DeliveryRecord} {reason : String} : S.Runs (giveUp record reason) := by
  rw [giveUp]
  split
  · exact runs_pure _
  · apply runs_bind runs_recordTransition
    rintro ⟨_ | ⟨⟩, failed⟩
    · exact runs_pure _
    · exact runs_upsertDelivery

theorem runs_offerDelivery {record : DeliveryRecord} : S.Runs (offerDelivery o rounds session record) := by
  rw [offerDelivery]
  split
  · apply runs_bind runs_recordTransition
    rintro ⟨_ | ⟨⟩, retried⟩
    · exact runs_pure _
    · exact runs_offerAndTransfer
  · exact runs_offerAndTransfer

theorem runs_driveDelivery {id : DeploymentId} {steps : ℕ} : S.Runs (driveDelivery o rounds session id steps) := by
  induction steps with
  | zero => exact runs_pure _
  | succ steps ih =>
    apply runs_bind runs_ask
    intro choice
    split
    · exact runs_pure _
    apply runs_bind runs_snapshotDelivery
    intro record
    split
    · exact runs_pure _
    apply runs_bind runs_clock
    intro now
    apply runs_bind (runs_bind runs_state fun _ => runs_pure _)
    intro input
    apply runs_bind runs_epoch
    intro epoch
    dsimp only
    cases (o.policy.decide input epoch record.generation).action with
    | none => exact runs_pure _
    | wait => exact runs_pure _
    | reconcile => exact runs_pure _
    | reject => exact runs_bind runs_recordRejected fun _ => runs_pure _
    | retire => exact runs_bind runs_recordRetired fun _ => runs_pure _
    | giveUp => exact runs_giveUp
    | recordFailureAndRetry => exact runs_bind runs_recordFailure fun _ => runs_pure _
    | offer => exact runs_check runs_offerDelivery (fun _ => runs_pure _) ih
    | resumeTransfer => exact runs_check runs_offerDelivery (fun _ => runs_pure _) ih
    | activate => exact runs_check runs_activateDelivery (fun _ => runs_pure _) ih

theorem runs_driveAll {queue : List DeliveryRecord} {errors : ℕ} : S.Runs (driveAll o rounds session queue errors) := by
  induction queue generalizing errors with
  | nil => exact runs_pure _
  | cons queued rest ih =>
    apply runs_bind runs_ask
    intro choice
    split
    · exact runs_pure _
    apply runs_bind runs_driveDelivery
    rintro (e | ⟨⟩)
    · dsimp only
      split
      · exact runs_pure _
      · exact ih
    · exact ih

theorem runs_driveDeliveries : S.Runs (driveDeliveries o rounds session) :=
  runs_bind runs_state fun _ => runs_driveAll

theorem runs_failAll {code : ErrorCode} {detail : Bytes} {records : List DeliveryRecord} :
    S.Runs (failAll code detail records) := by
  induction records with
  | nil => exact runs_pure _
  | cons record rest ih => exact runs_bind runs_recordFailure fun _ => ih

theorem runs_recordSessionFailure {target : TargetId} {e : Error} : S.Runs (recordSessionFailure target e) := by
  apply runs_bind runs_state
  intro s
  apply runs_bind runs_failAll
  intro _
  apply Within.runs (T := fun _ => True)
  apply (within_state Stable.always).bind
  intro s' hs'
  cases hfind : s'.findTarget target with
  | none => exact within_pure trivial
  | some existing =>
    have hid : existing.id = target := hs'.target hfind
    apply Within.bind
    · exact within_upsertTarget (E := fun _ => True) (fun _ _ _ h => h) hid rfl
    · exact fun _ _ => within_markContactCurrent (E := fun _ => True) fun _ _ _ h => h

end Driving

/-! The handshake and the report move the fence of the session's target. -/

theorem fenceTarget_follows {existing : Option TargetRuntime} {ack : HelloAckMessage} (hterm : ack.term ≠ 0)
    (h : fenceTarget existing ack = .ok ()) : (existing.getD {}).fence.Follows ack.fence := by
  cases existing with
  | none => exact ⟨Nat.zero_le _, fun heq => absurd heq.symm hterm⟩
  | some runtime =>
    rw [fenceTarget] at h
    split at h
    next hzero =>
      have hle : runtime.term ≤ ack.term := by
        rw [hzero]
        exact Nat.zero_le _
      exact ⟨hle, fun heq => absurd (heq.symm.trans hzero) hterm⟩
    split at h
    · exact nomatch h
    next hlow =>
      split at h
      · exact nomatch h
      next hsame =>
        refine ⟨Nat.le_of_not_lt hlow, fun heq hset => ?_⟩
        by_contra hne
        exact hsame ⟨heq.symm, hset, hne⟩

theorem checkHelloAck_term {ack : HelloAckMessage} (h : checkHelloAck ack = .ok ()) : ack.term ≠ 0 := by
  rw [checkHelloAck] at h
  split at h
  · exact nomatch h
  split at h
  · exact nomatch h
  · assumption

@[simp] theorem fence_commit_target {c : Controller} {durable : Bool} {runtime : TargetRuntime} {id : TargetId} :
    (c.commit durable (.targetUpsert runtime)).mem.fence id = if id = runtime.id then runtime.fence else c.mem.fence id := by
  simp only [Controller.commit, ControllerRecord.apply, ControllerStateCodec.setTarget, ControllerState.fence,
    ControllerState.findTarget, SortedMap.find_insert]
  split <;> rfl

@[simp] theorem fence_markContact {s : ControllerState} {target id : TargetId} {current : Bool} {atMillis : ℤ} :
    (markContact target current atMillis s).fence id = s.fence id := by
  rw [markContact]
  split
  · rfl
  next runtime hfind =>
    simp only [ControllerState.fence, ControllerState.findTarget, SortedMap.find_insert]
    split
    next heq =>
      subst heq
      rw [hfind]
      rfl
    · rfl

section Fencing

variable {target : TargetId} (hown : S.own target)

include hown

/-- The fence of the target stands as the session took it over. -/
theorem stable_fence (fence : Fence) : S.Stable fun w => S.fenced → w.2.mem.fence target = fence :=
  ⟨fun hrely h hfenced => (S.fence hfenced hown hrely).trans (h hfenced), fun h => h⟩

theorem within_rearm {fence : Fence} {newTerm : Term} {records : List DeliveryRecord} :
    S.Within (fun w => S.fenced → w.2.mem.fence target = fence) (rearm newTerm records) fun _ => True := by
  induction records with
  | nil => exact within_pure trivial
  | cons record rest ih =>
    apply Within.bind (within_noteEvent (stable_fence hown fence) (grounds_own _))
    rintro ⟨_ | ⟨⟩, noted⟩ -
    · exact within_pure trivial
    · exact ih

theorem steps_adoptTarget {ack : HelloAckMessage}
    (hack : S.fenced → (w.2.mem.fence target).Follows ack.fence) :
    S.Steps (adoptTarget target ack)
      (fun status w' => status = .ok () → S.fenced → w'.2.mem.fence target = ack.fence) w := by
  rw [adoptTarget, Setting.Steps, Thread.steps_bind]
  apply steps_state
  intro w₁ hrely₁
  rw [Thread.steps_bind]
  apply steps_clock
  intro w₂ now hrely₂
  rw [Thread.steps_bind, upsertTarget, Thread.steps_bind]
  apply steps_commit
  · exact fun _ _ _ h => by cases h
  · intro w₃ status durable hrely₃ _
    have hfollows (hfenced : S.fenced) : (w₁.2.mem.fence target).Follows ack.fence := by
      rw [S.fence hfenced hown hrely₁]
      exact hack hfenced
    refine ⟨S.adopt (S.filed hrely₃) hown rfl hfollows, ?_⟩
    have hnew : (w₃.2.commit durable (.targetUpsert (helloRuntime target (w₁.2.mem.findTarget target) ack now))).mem.fence
        target = ack.fence := fence_commit_target.trans (if_pos rfl)
    cases status with
    | error e => exact fun h => by cases h
    | ok _ =>
      dsimp only
      rw [Thread.steps_pure, Thread.steps_bind]
      apply steps_markContactCurrent
      intro w₄ hrely₄
      have hstays (hfenced : S.fenced) : (markContact target true now w₄.2.mem).fence target = ack.fence := by
        rw [fence_markContact, S.fence hfenced hown hrely₄]
        exact hnew
      split
      · rw [rearmAfterRestart, Thread.steps_bind]
        apply steps_state
        intro w₅ hrely₅
        exact (within_rearm hown).steps (fun hfenced => (S.fence hfenced hown hrely₅).trans (hstays hfenced))
          fun _ _ _ h _ => h
      · exact fun _ => hstays

theorem steps_admitTarget {o : DistributorOptions} {ack : HelloAckMessage} :
    S.Steps (admitTarget o target ack) (fun result w' => ∀ session, result = .ok session →
      session.target = target ∧
        (S.fenced → w'.2.mem.fence target = ⟨session.targetTerm, session.targetIncarnation⟩)) w := by
  rw [admitTarget]
  split
  · exact fun _ h => by cases h
  next hcheck =>
    split
    · exact fun _ h => by cases h
    rw [Setting.Steps, Thread.steps_bind]
    have htag : S.Runs (verifyTag o) := by
      rw [verifyTag]
      split
      · exact runs_bind runs_ask fun _ => runs_pure _
      · exact runs_pure _
    refine (htag w).mono fun status w₁ _ => ?_
    cases status with
    | error e => exact fun _ h => by cases h
    | ok _ =>
      dsimp only
      rw [Thread.steps_bind]
      apply steps_state
      intro w₂ _
      split
      · exact fun _ h => by cases h
      next hfence =>
        rw [Thread.steps_bind]
        apply steps_transmit
        · exact fun hello h => by cases h
        · exact fun _ _ _ _ h => by cases h
        · intro w₃ e hrely₃ _ _ _
          dsimp only
          rw [Thread.steps_bind]
          have hfollows (hfenced : S.fenced) : (w₃.2.mem.fence target).Follows ack.fence := by
            rw [S.fence hfenced hown hrely₃]
            exact fenceTarget_follows (checkHelloAck_term hcheck) hfence
          refine (steps_adoptTarget hown (w := (e, w₃.2)) hfollows).mono fun status w₄ h => ?_
          cases status with
          | error e => exact fun _ h => by cases h
          | ok _ =>
            rintro session ⟨⟩
            exact ⟨rfl, h rfl⟩

theorem steps_handshake {o : DistributorOptions} :
    S.Steps (handshake o target) (fun result w' => ∀ session, result = .ok session →
      session.target = target ∧
        (S.fenced → w'.2.mem.fence target = ⟨session.targetTerm, session.targetIncarnation⟩)) w := by
  rw [handshake, Setting.Steps, Thread.steps_bind]
  apply steps_epoch
  intro w₁ _
  rw [Thread.steps_bind, incarnation, Thread.steps_bind]
  apply steps_state
  intro w₂ hrely₂
  rw [Thread.steps_pure, Thread.steps_bind]
  apply steps_ask
  intro w₃ choice hrely₃
  rw [Thread.steps_bind]
  apply steps_transmit
  · rintro hello ⟨⟩
    exact (S.epoch (S.trans hrely₂ hrely₃)).symm
  · exact fun _ _ _ _ h => by cases h
  · intro w₄ e _ hasked _ _
    dsimp only
    rw [Thread.steps_bind]
    apply steps_hear hasked
    intro w₅ e' r _ _ _ _
    split
    · exact fun _ h => by cases h
    · exact fun _ h => by cases h
    · exact steps_admitTarget hown
    · exact fun _ h => by cases h

end Fencing

/-! Reconciliation. -/

section Reconciling

variable {session : SessionContext} {report : ReconcileReportMessage}

theorem steps_hear_reported {Q : Result Incoming → ε × Controller → Prop} (hw : S.reported w.1)
    (h : ∀ w' r, S.reported w'.1 → Q r w') : S.Steps Thread.hear Q w := by
  intro w' r e hrely hreceive
  obtain ⟨hG, hkept, -⟩ := S.receive hreceive (S.filed hrely)
  exact ⟨hG, h (e, w'.2) r (hkept (S.reported_rely hrely hw))⟩

theorem steps_resolveWindow {record : DeliveryRecord} (hw : S.reported w.1) :
    S.Steps (resolveWindow session report record) (fun _ w' => S.reported w'.1) w := by
  rw [resolveWindow, Setting.Steps, Thread.steps_bind]
  apply steps_transmit
  · exact fun hello h => by cases h
  · exact fun w' e hrely => S.reported_rely hrely hw
  · intro w₁ e _ _ _ hreported
    dsimp only
    rw [Thread.steps_bind]
    apply steps_hear_reported (hreported hw)
    intro w₂ r hw₂
    split
    · exact hw₂
    · exact hw₂
    · exact hw₂

theorem steps_reconcileRecord {record : DeliveryRecord} (hw : S.reported w.1) :
    S.Steps (reconcileRecord session report record) (fun _ w' => S.reported w'.1) w := by
  have hE (w w' : ε × Controller) : S.rely w w' → S.reported w.1 → S.reported w'.1 := S.reported_rely
  rw [reconcileRecord]
  dsimp only
  split
  · rw [Setting.Steps, Thread.steps_bind]
    apply (within_adoptActivation hE (grounds_report _)).steps hw
    rintro (_ | ⟨⟩) w₁ - hw₁
    · exact hw₁
    · dsimp only
      rw [Thread.steps_bind]
      apply (within_snapshotDelivery hE).steps hw₁
      intro r w₂ hr hw₂
      exact (within_acknowledge_snapshot hE (grounds_report _) hr).steps hw₂ fun _ _ _ h => h
  · rw [Setting.Steps, Thread.steps_bind]
    exact (within_recordRetired Stable.reported (grounds_report _)).steps hw fun _ _ _ h => h
  · exact steps_resolveWindow hw
  · exact hw
  · exact hw
  · exact hw
  · exact hw

theorem steps_reconcileRecords {records : List DeliveryRecord} (hw : S.reported w.1) :
    S.Steps (reconcileRecords session report records) (fun _ _ => True) w := by
  induction records generalizing w with
  | nil => trivial
  | cons record rest ih =>
    rw [reconcileRecords]
    split
    · exact ih hw
    · rw [Setting.Steps, Thread.steps_bind]
      refine (steps_reconcileRecord hw).mono fun status w' hw' => ?_
      cases status with
      | error e => trivial
      | ok _ => exact ih hw'

variable (hown : S.own session.target)

include hown

theorem steps_adoptReport (hw : S.reported w.1)
    (hfence : S.fenced → w.2.mem.fence session.target = ⟨session.targetTerm, session.targetIncarnation⟩) :
    S.Steps (adoptReport session report) (fun _ _ => True) w := by
  rw [adoptReport]
  split
  · trivial
  split
  · trivial
  split
  · trivial
  next hsame =>
    rw [Setting.Steps, Thread.steps_bind]
    apply steps_state
    intro w₁ hrely₁
    rw [Thread.steps_bind]
    apply steps_clock
    intro w₂ now hrely₂
    rw [Thread.steps_bind, upsertTarget, Thread.steps_bind]
    apply steps_commit
    · exact fun _ _ _ => trivial
    · intro w₃ status durable hrely₃ _
      have hfollows (hfenced : S.fenced) :
          (w₁.2.mem.fence session.target).Follows ⟨report.term, report.incarnation⟩ := by
        obtain ⟨hterm, hincarnation⟩ := not_or.mp hsame
        rw [S.fence hfenced hown hrely₁, hfence hfenced, not_not.mp hterm, not_not.mp hincarnation]
        exact Fence.follows_refl _
      refine ⟨S.adopt (S.filed hrely₃) hown rfl hfollows, ?_⟩
      cases status with
      | error e => trivial
      | ok _ =>
        dsimp only
        rw [Thread.steps_pure, Thread.steps_bind]
        apply steps_markContactCurrent
        intro w₄ hrely₄
        rw [Thread.steps_bind, applyReconcileReport, Thread.steps_bind]
        apply steps_state
        intro w₅ hrely₅
        have hw₃ : S.reported w₃.1 := S.reported_rely (S.trans (S.trans hrely₁ hrely₂) hrely₃) hw
        have hw₄ : S.reported w₄.1 := S.reported_rely hrely₄ hw₃
        refine (steps_reconcileRecords (S.reported_rely hrely₅ hw₄)).mono fun status w₆ _ => ?_
        cases status with
        | error e => trivial
        | ok _ => trivial

theorem steps_reconcile {o : DistributorOptions}
    (hfence : S.fenced → w.2.mem.fence session.target = ⟨session.targetTerm, session.targetIncarnation⟩) :
    S.Steps (reconcile o session) (fun _ _ => True) w := by
  rw [reconcile, Setting.Steps, Thread.steps_bind]
  apply steps_epoch
  intro w₁ hrely₁
  rw [Thread.steps_bind, incarnation, Thread.steps_bind]
  apply steps_state
  intro w₂ hrely₂
  rw [Thread.steps_pure, Thread.steps_bind]
  apply steps_transmit
  · exact fun hello h => by cases h
  · exact fun _ _ _ => trivial
  · intro w₃ e hrely₃ hasked _ _
    dsimp only
    rw [Thread.steps_bind]
    apply steps_hear hasked
    intro w₄ e' r hrely₄ _ _ hreported
    split
    · trivial
    next report =>
      apply steps_adoptReport hown
      · exact hreported rfl _ rfl
      · intro hfenced
        have hrely : S.rely w w₃ := S.trans (S.trans hrely₁ hrely₂) hrely₃
        rw [S.fence hfenced hown hrely₄, S.fence hfenced hown hrely]
        exact hfence hfenced
    · trivial

end Reconciling

theorem runs_runSession {o : DistributorOptions} {rounds : ℕ} {target : TargetId} (hown : S.own target) :
    S.Runs (runSession o rounds target) := by
  intro w
  rw [runSession, Setting.Steps, Thread.steps_bind]
  apply steps_ask
  intro w₁ choice _
  split
  · exact runs_recordSessionFailure w₁
  rw [Thread.steps_bind]
  refine (steps_handshake hown).mono fun result w₂ h => ?_
  cases result with
  | error e => exact runs_recordSessionFailure w₂
  | ok session =>
    obtain ⟨rfl, hfence⟩ := h session rfl
    dsimp only
    rw [Thread.steps_bind, reconcileAndDrive, Thread.steps_bind]
    refine (steps_reconcile hown hfence).mono fun result w₃ _ => ?_
    have hgoodbye : S.Runs (do
        let _ ← transmit ⟨session.target, none, .message .goodbye⟩
        return ()) := runs_bind (runs_transmit fun _ h => by cases h) fun _ => runs_pure _
    cases result with
    | error e => exact (runs_recordSessionFailure w₃).mono fun _ w₄ _ => hgoodbye w₄
    | ok session' =>
      have hdrive : S.Runs (do
          let _ ← driveDeliveries o rounds session'
          return ()) := runs_bind runs_driveDeliveries fun _ => runs_pure _
      exact (hdrive w₃).mono fun _ w₄ _ => hgoodbye w₄

/-! The control operations. -/

theorem runs_commit_own {make : ControllerState → ControllerRecord}
    (h : ∀ w durable, w.2.mem.Filed → S.G (some .own) w (w.1, w.2.commit durable (make w.2.mem))) :
    S.Runs (commit .own make) := by
  intro w
  apply steps_commit
  · exact fun _ _ _ => trivial
  · exact fun w' _ durable hrely _ => ⟨h w' durable (S.filed hrely), trivial⟩

theorem runs_ingestArtifact {declared : ArtifactMetadata} : S.Runs (ingestArtifact declared) := by
  apply runs_bind runs_ask
  intro choice
  split
  · exact runs_pure _
  · exact runs_bind (runs_commit_own fun _ _ => S.artifact) fun _ => runs_pure _

theorem runs_ingestSource {i : DeploymentInstruction} : S.Runs (ingestSource i) := by
  rw [ingestSource]
  split
  · exact runs_pure _
  apply runs_bind runs_ask
  intro choice
  split
  · exact runs_pure _
  apply runs_bind runs_clock
  intro produced
  apply runs_bind runs_clock
  intro stored
  apply runs_bind runs_ingestArtifact
  exact fun _ => runs_pure _

theorem runs_retireAll {reason : Bytes} {records : List DeliveryRecord} : S.Runs (retireAll reason records) := by
  induction records with
  | nil => exact runs_pure _
  | cons other rest ih =>
    apply runs_bind runs_recordRetired
    rintro ⟨_ | ⟨⟩, retired⟩
    · exact runs_pure _
    · exact ih

theorem runs_removeAll {records : List DeliveryRecord} : S.Runs (removeAll records) := by
  induction records with
  | nil => exact runs_pure _
  | cons stale rest ih =>
    apply runs_bind (runs_commit_own fun _ _ => S.remove)
    rintro ⟨_ | ⟨⟩, before⟩
    · exact runs_pure _
    · exact ih

theorem runs_planTarget {i : DeploymentInstruction} {accepted : Bool} : S.Runs (planTarget i accepted) := by
  apply runs_bind runs_state
  intro s
  apply Within.runs
  apply within_upsertTarget (E := fun _ => True)
  · exact fun _ _ _ h => h
  · rfl
  · rfl

theorem runs_planDelivery {p : DistributorPolicy} {i : DeploymentInstruction} {accepted : Bool}
    {record : DeliveryRecord} : S.Runs (planDelivery p i accepted record) := by
  apply runs_bind runs_state
  intro s
  apply runs_bind runs_retireAll
  rintro (_ | ⟨⟩)
  · exact runs_pure _
  apply runs_bind runs_state
  intro s'
  apply runs_bind runs_removeAll
  rintro (_ | ⟨⟩)
  · exact runs_pure _
  apply runs_bind runs_planTarget
  rintro (_ | ⟨⟩)
  · exact runs_pure _
  · exact runs_upsertDelivery

theorem runs_planInstructions {p : DistributorPolicy} {plan : DeploymentPlan}
    {steps : List (DeploymentInstruction × TargetResolution)} : S.Runs (planInstructions p plan steps) := by
  induction steps with
  | nil => exact runs_pure _
  | cons step rest ih =>
    obtain ⟨i, resolution⟩ := step
    apply runs_bind runs_ingestSource
    intro _
    apply runs_bind runs_clock
    intro now
    apply runs_bind runs_state
    intro s
    split
    · split
      · exact ih
      · exact runs_check runs_planDelivery (fun _ => runs_pure _) ih
    · exact runs_check runs_planDelivery (fun _ => runs_pure _) ih

theorem runs_compact {written : Bool} : S.Runs (Distributor.compact written) := by
  intro w
  rw [Distributor.compact]
  split
  · trivial
  · exact fun w' hrely => ⟨S.compact (S.filed hrely), trivial⟩

theorem runs_compactIfNeeded : S.Runs compactIfNeeded := by
  apply runs_bind runs_ask
  intro choice
  split
  · exact runs_pure _
  · exact runs_bind runs_compact fun _ => runs_pure _
  · exact runs_bind runs_compact fun _ => runs_pure _

theorem runs_submitPlan {p : DistributorPolicy} {plan : DeploymentPlan} : S.Runs (submitPlan p plan) := by
  rw [submitPlan]
  dsimp only
  split
  · exact runs_pure _
  apply runs_bind runs_planInstructions
  rintro (_ | ⟨⟩)
  · exact runs_pure _
  apply runs_bind runs_state
  intro s
  split
  · exact runs_pure _
  · exact runs_compactIfNeeded

theorem runs_applyLocalDecision {p : DistributorPolicy} {candidate : DeploymentId} :
    S.Runs (applyLocalDecision p candidate) := by
  apply runs_bind runs_snapshotDelivery
  intro record
  split
  · exact runs_pure _
  apply runs_bind runs_clock
  intro now
  apply runs_bind (runs_bind runs_state fun _ => runs_pure _)
  intro input
  apply runs_bind runs_epoch
  intro epoch
  dsimp only
  split
  · exact runs_bind runs_recordRejected fun _ => runs_pure _
  · exact runs_bind runs_recordRetired fun _ => runs_pure _
  · exact runs_bind runs_recordFailure fun _ => runs_pure _
  · exact runs_pure _

theorem runs_retireDeployment {id : DeploymentId} {reason : Bytes} : S.Runs (retireDeployment id reason) := by
  apply runs_bind runs_snapshotDelivery
  intro record
  split
  · exact runs_pure _
  · exact runs_bind runs_recordRetired fun _ => runs_pure _

/-- Whatever a process does once it is open. -/
theorem runs_program {o : DistributorOptions} {t : Task}
    (hown : ∀ target rounds, t = .session target rounds → S.own target) : S.Runs (program o t) := by
  cases t with
  | session target rounds => exact runs_bind (runs_runSession (hown target rounds rfl)) fun _ => runs_pure _
  | localDecision candidate => exact runs_applyLocalDecision
  | submitPlan plan => exact runs_submitPlan
  | retire id reason => exact runs_retireDeployment
  | ingest declared => exact runs_ingestArtifact

end Setting

end Distributor

end ConfigurationFabric
