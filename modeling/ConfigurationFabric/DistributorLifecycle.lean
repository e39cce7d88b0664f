import ConfigurationFabric.DistributorAlone
import ConfigurationFabric.DistributorFences

/-! Runs of the distributor in which no two operations overlap. -/

namespace ConfigurationFabric

open LittleEndian
open Threads

namespace Distributor

/-! Sessions. -/

section Sessions

variable {w : World} {session : SessionContext} {rounds : ℕ} {o : DistributorOptions} {target : TargetId}

theorem alone_markContactCurrent {current : Bool} {atMillis : ℤ} (hw : w.2.Filed) :
    Alone Orderly (markContactCurrent target current atMillis) (fun _ w' => w'.2.Filed) w := by
  have hsame : (markContact target current atMillis w.2.mem).deliveries = w.2.mem.deliveries := by
    rw [markContact]
    split <;> rfl
  rintro _ rfl
  have hfiled (h : w.2.Filed) : Controller.Filed { w.2 with mem := markContact target current atMillis w.2.mem } :=
    ⟨h.mem.markContact _ _ _, h.dur⟩
  have htends : Tends [] w (w.1, { w.2 with mem := markContact target current atMillis w.2.mem }) :=
    tends_of_eq hfiled hsame
  exact ⟨htends.orderly, hfiled hw⟩

theorem alone_writeTarget {copy : Option TargetRuntime} {runtime : TargetRuntime} (hw : w.2.Filed) :
    Alone Orderly (upsertTarget target copy runtime)
      (fun _ w' => w'.2.Filed ∧ w'.2.mem.deliveries = w.2.mem.deliveries) w := by
  have htends : Alone (Tends []) (upsertTarget target copy runtime)
      (fun _ w' => w'.2.Filed ∧ w'.2.mem.deliveries = w.2.mem.deliveries) w := alone_upsertTarget hw
  exact htends.orderly.mono fun _ _ h => h.1

theorem alone_recordSessionFailure {e : Error} (hw : w.2.Filed) :
    Alone Orderly (recordSessionFailure target e) (fun _ w' => w'.2.Filed) w := by
  rw [recordSessionFailure, Alone, Thread.steps_bind]
  apply alone_state
  rw [Thread.steps_bind]
  apply (alone_failAll (copied_filter hw _)).mono
  intro _ w₁ h₁
  rw [Thread.steps_bind]
  apply alone_state
  split
  · exact h₁.filed
  · rw [Thread.steps_bind]
    apply (alone_writeTarget h₁.filed).mono
    exact fun _ _ h => alone_markContactCurrent h.1

/-! Reconciliation. -/

theorem alone_resolveWindow {id : DeploymentId} {report : ReconcileReportMessage} {record : DeliveryRecord}
    (hw : w.2.Filed) : Alone (Tends id) (resolveWindow session report record) (fun _ w' => w'.2.Filed) w := by
  rw [resolveWindow, Alone, Thread.steps_bind]
  apply alone_transmit tends_quiet
  rintro (_ | ⟨⟩) sent
  · exact hw
  dsimp only
  rw [Thread.steps_bind]
  apply alone_hear tends_quiet
  intro r sent
  split
  · exact hw
  · exact hw
  · exact hw

theorem alone_reconcileRecord {id : DeploymentId} {report : ReconcileReportMessage} {record : DeliveryRecord}
    (hw : Held id record w) :
    Alone (Tends id) (reconcileRecord session report record) (fun _ w' => w'.2.Filed) w := by
  rw [reconcileRecord]
  dsimp only
  split
  · exact alone_adopted hw fun _ _ hr => alone_acknowledge hr
  · exact alone_retired hw
  · exact alone_resolveWindow hw.filed
  · exact hw.filed
  · exact hw.filed
  · exact hw.filed
  · exact hw.filed

theorem alone_reconcileRecords {report : ReconcileReportMessage} {records : List DeliveryRecord}
    (hw : Copied records w) :
    Alone Orderly (reconcileRecords session report records) (fun _ => Treated records w) w := by
  induction records generalizing w with
  | nil => exact treated_refl hw.filed
  | cons record rest ih =>
    rw [reconcileRecords]
    split
    · apply (ih (hw.tail hw.filed fun _ _ => rfl)).mono
      intro _ w' h
      exact ⟨h.filed, fun id hid => h.others id (List.forall_mem_cons.mp hid).2⟩
    · apply alone_cons hw
      · exact alone_reconcileRecord (hw.held record List.mem_cons_self)
      · rintro (_ | ⟨⟩) w' hw'
        · exact treated_refl hw'.filed
        · exact ih hw'

theorem alone_adoptReport {report : ReconcileReportMessage} (hw : w.2.Filed) :
    Alone Orderly (adoptReport session report) (fun _ w' => w'.2.Filed) w := by
  rw [adoptReport]
  split
  · exact hw
  split
  · exact hw
  split
  · exact hw
  rw [Alone, Thread.steps_bind]
  apply alone_state
  rw [Thread.steps_bind]
  apply alone_clock
  intro now
  rw [Thread.steps_bind]
  apply (alone_writeTarget hw).mono
  rintro (_ | ⟨⟩) w₁ ⟨hw₁, -⟩
  · exact hw₁
  dsimp only
  rw [Thread.steps_bind]
  apply (alone_markContactCurrent hw₁).mono
  intro _ w₂ hw₂
  rw [Thread.steps_bind, applyReconcileReport, Thread.steps_bind]
  apply alone_state
  apply (alone_reconcileRecords (copied_deliveriesOf hw₂ _)).mono
  rintro (_ | ⟨⟩) w₃ h₃
  · exact h₃.filed
  · exact h₃.filed

theorem alone_reconcile (hw : w.2.Filed) :
    Alone Orderly (reconcile o session) (fun _ w' => w'.2.Filed) w := by
  rw [reconcile, Alone, Thread.steps_bind]
  apply alone_epoch
  rw [Thread.steps_bind, incarnation, Thread.steps_bind]
  apply alone_state
  rw [Thread.steps_pure, Thread.steps_bind]
  apply alone_transmit orderly_quiet
  rintro (_ | ⟨⟩) sent
  · exact hw
  dsimp only
  rw [Thread.steps_bind]
  apply alone_hear orderly_quiet
  intro r sent
  split
  · exact hw
  · exact alone_adoptReport hw
  · exact hw

/-! The handshake. -/

theorem alone_adoptTarget {ack : HelloAckMessage} (hw : w.2.Filed) :
    Alone Orderly (adoptTarget target ack) (fun _ w' => w'.2.Filed) w := by
  rw [adoptTarget, Alone, Thread.steps_bind]
  apply alone_state
  rw [Thread.steps_bind]
  apply alone_clock
  intro now
  rw [Thread.steps_bind]
  apply (alone_writeTarget hw).mono
  rintro (_ | ⟨⟩) w₁ ⟨hw₁, -⟩
  · exact hw₁
  dsimp only
  rw [Thread.steps_bind]
  apply (alone_markContactCurrent hw₁).mono
  intro _ w₂ hw₂
  split
  · rw [rearmAfterRestart, Thread.steps_bind]
    apply alone_state
    exact (alone_rearm (copied_filter hw₂ _)).mono fun _ _ h => h.filed
  · exact hw₂

theorem alone_admitTarget {ack : HelloAckMessage} (hw : w.2.Filed) :
    Alone Orderly (admitTarget o target ack) (fun _ w' => w'.2.Filed) w := by
  have htag : Alone Orderly (verifyTag o) (fun _ w' => w' = w) w := by
    rw [verifyTag]
    split
    · rw [Alone, Thread.steps_bind]
      apply alone_ask
      exact fun _ => rfl
    · rfl
  rw [admitTarget]
  split
  · exact hw
  split
  · exact hw
  rw [Alone, Thread.steps_bind]
  apply htag.mono
  rintro (_ | ⟨⟩) w rfl
  · exact hw
  dsimp only
  rw [Thread.steps_bind]
  apply alone_state
  split
  · exact hw
  rw [Thread.steps_bind]
  apply alone_transmit orderly_quiet
  rintro (_ | ⟨⟩) sent
  · exact hw
  dsimp only
  rw [Thread.steps_bind]
  apply (alone_adoptTarget (w := (sent, w.2)) hw).mono
  rintro (_ | ⟨⟩) w' hw'
  · exact hw'
  · exact hw'

theorem alone_handshake (hw : w.2.Filed) :
    Alone Orderly (handshake o target) (fun _ w' => w'.2.Filed) w := by
  rw [handshake, Alone, Thread.steps_bind]
  apply alone_epoch
  rw [Thread.steps_bind, incarnation, Thread.steps_bind]
  apply alone_state
  rw [Thread.steps_pure, Thread.steps_bind]
  apply alone_ask
  intro i
  rw [Thread.steps_bind]
  apply alone_transmit orderly_quiet
  rintro (_ | ⟨⟩) sent
  · exact hw
  dsimp only
  rw [Thread.steps_bind]
  apply alone_hear orderly_quiet
  intro r sent
  split
  · exact hw
  · exact hw
  · exact alone_admitTarget hw
  · exact hw

/-! Driving the deliveries. -/

theorem alone_driveDelivery {id : DeploymentId} {steps : ℕ} (hw : w.2.Filed) :
    Alone (Tends id) (driveDelivery o rounds session id steps) (fun _ w' => w'.2.Filed) w := by
  induction steps generalizing w with
  | zero => exact hw
  | succ steps ih =>
    rw [driveDelivery, Alone, Thread.steps_bind]
    apply alone_ask
    intro i
    split
    · exact hw
    rw [Thread.steps_bind]
    apply (alone_snapshotDelivery hw (.inr (rfl : id = id))).mono
    intro record w' hw'
    split
    · exact hw'.filed
    rw [Thread.steps_bind]
    apply alone_clock
    intro now
    rw [Thread.steps_bind, decisionInputFor, Thread.steps_bind]
    apply alone_state
    rw [Thread.steps_pure, Thread.steps_bind]
    apply alone_epoch
    dsimp only
    split
    · exact hw'.filed
    · exact hw'.filed
    · exact hw'.filed
    · exact alone_rejected hw'
    · exact alone_retired hw'
    · exact alone_giveUp hw'
    · exact alone_failed hw'
    · exact alone_check (alone_offerDelivery hw') (fun _ _ h => h) fun _ => ih
    · exact alone_check (alone_offerDelivery hw') (fun _ _ h => h) fun _ => ih
    · exact alone_check (alone_activateDelivery hw') (fun _ _ h => h) fun _ => ih

theorem alone_driveAll {queue : List DeliveryRecord} {errors : ℕ} (hw : w.2.Filed) :
    Alone Orderly (driveAll o rounds session queue errors) (fun _ w' => w'.2.Filed) w := by
  induction queue generalizing w errors with
  | nil => exact hw
  | cons queued rest ih =>
    rw [driveAll, Alone, Thread.steps_bind]
    apply alone_ask
    intro i
    split
    · exact hw
    rw [Thread.steps_bind]
    apply (alone_driveDelivery hw).orderly.mono
    rintro (e | ⟨⟩) w' ⟨hw', -⟩
    · dsimp only
      split
      · exact hw'
      · exact ih hw'
    · exact ih hw'

theorem alone_runSession (hw : w.2.Filed) :
    Alone Orderly (runSession o rounds target) (fun _ w' => w'.2.Filed) w := by
  have hgoodbye {w : World} (hw : w.2.Filed) : Alone Orderly (do
      let _ ← transmit ⟨target, none, .message .goodbye⟩
      return ()) (fun _ w' => w'.2.Filed) w := by
    rw [Alone, Thread.steps_bind]
    apply alone_transmit orderly_quiet
    exact fun _ _ => hw
  rw [runSession, Alone, Thread.steps_bind]
  apply alone_ask
  intro i
  split
  · exact alone_recordSessionFailure hw
  rw [Thread.steps_bind]
  apply (alone_handshake hw).mono
  rintro (e | session) w₁ hw₁
  · exact alone_recordSessionFailure hw₁
  dsimp only
  rw [Thread.steps_bind, reconcileAndDrive, Thread.steps_bind]
  apply (alone_reconcile hw₁).mono
  rintro (e | session) w₂ hw₂
  · apply (alone_recordSessionFailure hw₂).mono
    exact fun _ _ hw₃ => hgoodbye hw₃
  · dsimp only
    rw [Thread.steps_bind, driveDeliveries, Thread.steps_bind]
    apply alone_state
    apply (alone_driveAll hw₂).mono
    exact fun _ _ hw₃ => hgoodbye hw₃

end Sessions

/-! Plans. -/

/-- The delivery that the instruction names has not been rejected or retired. -/
def Writable (i : DeploymentInstruction) (s : ControllerState) : Prop :=
  ∀ r, s.findDelivery (deriveDeploymentId i.target i.configKey i.generation i.digest) = some r →
    r.state ≠ .rejected ∧ r.state ≠ .retired

/-- What a plan ends with once its instructions are through. -/
def concluded (p : DistributorPolicy) : Status → Worker Status
  | .error e => return .error e
  | .ok () => do
    let live := (((← state).deliveries.map (·.2)).filter (isPendingState ·.state)).length
    if live > p.maxLiveDeliveries then
      return .fail .limitExceeded "the live delivery count exceeds the configured budget" (toString live)
    compactIfNeeded

theorem submitPlan_eq (p : DistributorPolicy) (plan : DeploymentPlan) : submitPlan p plan =
    if !(resolveDeploymentSet p plan).any (·.accepted) then
      return .fail .invalidArgument "the deployment set selects no usable target"
    else planInstructions p plan (plan.instructions.zip (resolveDeploymentSet p plan)) >>= concluded p := rfl

section Plans

variable {w : World} {p : DistributorPolicy} {plan : DeploymentPlan} {i : DeploymentInstruction}

theorem orderly_of_removed {w w' : World} (hfiled : w.2.Filed → w'.2.Filed)
    (h : ∀ id r, w'.2.mem.findDelivery id = some r → w.2.mem.findDelivery id = some r) : Orderly w w' := by
  refine ⟨hfiled, fun id r r' hr hr' => ?_⟩
  cases hr.symm.trans (h id r' hr')
  exact DeliveryRecord.succeeds_of_state rfl

theorem alone_ingestArtifact {declared : ArtifactMetadata} (hw : w.2.Filed) :
    Alone Orderly (ingestArtifact declared) (fun _ w' => w'.2.Filed ∧ w'.2.mem.deliveries = w.2.mem.deliveries) w := by
  rw [ingestArtifact, Alone, Thread.steps_bind]
  apply alone_ask
  intro i
  split
  · exact ⟨hw, rfl⟩
  · rw [Thread.steps_bind]
    apply alone_commit
    · exact fun _ => ⟨hw, rfl⟩
    · exact fun _ _ => ⟨orderly_of_removed (fun h => h.commit) fun _ _ h => h, hw.commit, rfl⟩

theorem alone_ingestSource (hw : w.2.Filed) :
    Alone Orderly (ingestSource i) (fun _ w' => w'.2.Filed ∧ w'.2.mem.deliveries = w.2.mem.deliveries) w := by
  rw [ingestSource]
  split
  · exact ⟨hw, rfl⟩
  rw [Alone, Thread.steps_bind]
  apply alone_ask
  intro choice
  split
  · exact ⟨hw, rfl⟩
  rw [Thread.steps_bind]
  apply alone_clock
  intro produced
  rw [Thread.steps_bind]
  apply alone_clock
  intro stored
  rw [Thread.steps_bind]
  exact (alone_ingestArtifact hw).mono fun _ _ h => h

/-- A removal changes no delivery that stays. -/
theorem alone_removeAll {id : DeploymentId} {record : DeliveryRecord} {records : List DeliveryRecord}
    (hw : Held id record w) : Alone Orderly (removeAll records) (fun _ => Held id record) w := by
  induction records generalizing w with
  | nil => exact hw
  | cons stale rest ih =>
    rw [removeAll, Alone, Thread.steps_bind]
    have hfind (durable : Bool) (id' : DeploymentId) (r : DeliveryRecord)
        (hr : (w.2.commit durable (.deliveryRemove stale.id)).mem.findDelivery id' = some r) :
        w.2.mem.findDelivery id' = some r := by
      rw [ControllerState.findDelivery, Controller.commit, ControllerRecord.apply, SortedMap.find_erase] at hr
      split at hr
      · cases hr
      · exact hr
    apply alone_commit
    · exact fun _ => hw
    · intro status durable
      have hw' : Held id record (w.1, w.2.commit durable (.deliveryRemove stale.id)) :=
        ⟨hw.filed.commit, hw.named, fun hne r hr => hw.current hne r (hfind durable id r hr)⟩
      refine ⟨orderly_of_removed (fun h => h.commit) (hfind durable), ?_⟩
      cases status with
      | error e => exact hw'
      | ok _ => exact ih hw'

theorem alone_planDelivery {accepted : Bool} {record : DeliveryRecord} (hw : Held record.id record w) :
    Alone Orderly (planDelivery p i accepted record) (fun _ w' => w'.2.Filed) w := by
  rw [planDelivery, Alone, Thread.steps_bind]
  apply alone_state
  rw [Thread.steps_bind]
  apply (alone_retireAll (copied_filter hw.filed _)).mono
  rintro (_ | ⟨⟩) w₁ h₁
  · exact h₁.filed
  have hw₁ : Held record.id record w₁ := by
    apply hw.moved h₁.filed
    apply h₁.others
    intro r hr hid
    have hother := (List.mem_filter.mp hr).2
    simp [hid] at hother
  dsimp only
  rw [Thread.steps_bind]
  apply alone_state
  rw [Thread.steps_bind]
  apply (alone_removeAll hw₁).mono
  rintro (_ | ⟨⟩) w₂ hw₂
  · exact hw₂.filed
  dsimp only
  rw [Thread.steps_bind, planTarget, Thread.steps_bind]
  apply alone_state
  apply (alone_writeTarget hw₂.filed).mono
  rintro (_ | ⟨⟩) w₃ ⟨hfiled, hsame⟩
  · exact hfiled
  · exact (alone_upsertDelivery (hw₂.moved hfiled (congrArg (·.find record.id) hsame))).orderly.mono fun _ _ h => h.1

/-- What a plan takes over of a delivery that may be written. -/
theorem held_inherit {record existing : DeliveryRecord} (hw : w.2.Filed)
    (hfind : w.2.mem.findDelivery record.id = some existing) (hpending : isPendingState existing.state = true) :
    Held record.id (inherit record existing) w := by
  have hid : record.id = existing.id := (hw.mem.delivery hfind).symm
  rw [hid] at hfind ⊢
  exact (Held.stored hw hfind).edit hid (if_pos hpending) rfl

theorem planInstructions_ne {step : DeploymentInstruction × TargetResolution}
    {rest : List (DeploymentInstruction × TargetResolution)} {status : Status} :
    planInstructions p plan (step :: rest) ≠ .ret status := by
  intro h
  obtain ⟨i, resolution⟩ := step
  rw [planInstructions, ingestSource] at h
  split at h
  · cases h
  · cases h

theorem planInstructions_while {C : Worker Status → World → Prop} {steps : List (DeploymentInstruction × TargetResolution)}
    (hC : ∀ i resolution rest w, C (planInstructions p plan ((i, resolution) :: rest)) w → Writable i w.2.mem)
    (hw : w.2.Filed) :
    (planInstructions p plan steps).StepsWhile wire (fun _ => Orderly) C (fun _ w' => w'.2.Filed) w := by
  induction steps generalizing w with
  | nil => exact hw
  | cons step rest ih =>
    obtain ⟨i, resolution⟩ := step
    have hgo {record : DeliveryRecord} {w : World} (hw : Held record.id record w) : (do
        match ← planDelivery p i resolution.accepted record with
        | .error e => return .error e
        | .ok () => planInstructions p plan rest : Worker Status).StepsWhile wire (fun _ => Orderly) C
          (fun _ w' => w'.2.Filed) w := by
      rw [Thread.stepsWhile_bind]
      apply Thread.Steps.stepsWhile
      apply (alone_planDelivery hw).mono
      rintro (_ | ⟨⟩) w' hw'
      · exact hw'
      · exact ih hw'
    apply Thread.stepsWhile_of_meets
    · exact fun _ => planInstructions_ne
    intro hmeets
    have hwritable : Writable i w.2.mem := hC _ _ _ _ hmeets
    rw [planInstructions, Thread.stepsWhile_bind]
    apply Thread.Steps.stepsWhile
    apply (alone_ingestSource hw).mono
    rintro _ w₁ ⟨hw₁, hsame⟩
    rw [Thread.stepsWhile_bind]
    apply Thread.Steps.stepsWhile
    apply alone_clock
    intro now
    rw [Thread.stepsWhile_bind]
    apply Thread.Steps.stepsWhile
    apply alone_state
    split
    next existing hfind =>
      split
      · exact ih hw₁
      next hunproved =>
        apply hgo
        have hstored := hfind
        rw [ControllerState.findDelivery, hsame] at hstored
        obtain ⟨hrejected, hretired⟩ := hwritable existing hstored
        apply held_inherit hw₁ hfind
        cases hs : existing.state <;> simp_all [isPendingState]
    next hfind => exact hgo (.fresh hw₁ rfl hfind)

theorem alone_compactIfNeeded (hw : w.2.Filed) : Alone Orderly compactIfNeeded (fun _ w' => w'.2.Filed) w := by
  have hcompact {written : Bool} {status : Status} : Alone Orderly (do
      compact written
      return status : Worker Status) (fun _ w' => w'.2.Filed) w := by
    rw [Alone, Thread.steps_bind, compact]
    split
    · exact hw
    · rintro _ rfl
      exact ⟨orderly_of_removed (fun h => ⟨h.mem, h.mem⟩) fun _ _ h => h, hw.mem, hw.mem⟩
  rw [compactIfNeeded, Alone, Thread.steps_bind]
  apply alone_ask
  intro choice
  split
  · exact hw
  · exact hcompact
  · exact hcompact

theorem alone_concluded {status : Status} (hw : w.2.Filed) :
    Alone Orderly (concluded p status) (fun _ w' => w'.2.Filed) w := by
  match status with
  | .error e => exact hw
  | .ok () =>
    rw [concluded, Alone, Thread.steps_bind]
    apply alone_state
    dsimp only
    split
    · exact hw
    · exact alone_compactIfNeeded hw

theorem submitPlan_while {C : Worker Status → World → Prop}
    (hC : ∀ i resolution rest w, C (planInstructions p plan ((i, resolution) :: rest) >>= concluded p) w →
      Writable i w.2.mem) (hw : w.2.Filed) :
    (submitPlan p plan).StepsWhile wire (fun _ => Orderly) C (fun _ w' => w'.2.Filed) w := by
  rw [submitPlan_eq]
  split
  · exact hw
  · rw [Thread.stepsWhile_bind]
    apply (planInstructions_while (C := fun q => C (q >>= concluded p)) hC hw).mono
    exact fun _ _ hw' => (alone_concluded hw').stepsWhile

end Plans

/-! Start-up and the other operations. -/

/-- No transfer of the journal waits to be verified. -/
def Calm (s : ControllerState) : Prop := ∀ id r, s.findDelivery id = some r → r.state ≠ .transferred

section Operations

variable {w : World} {o : DistributorOptions}

theorem orderly_reopened (hcalm : Calm w.2.mem) : Orderly w (w.1, { w.2 with mem := reopened w.2.mem }) := by
  refine ⟨fun h => ⟨reopened_filed h.mem, h.dur⟩, fun id r r' hr hr' => ?_⟩
  rw [ControllerState.findDelivery] at hr
  rw [ControllerState.findDelivery, reopened, SortedMap.find_map w.2.mem.deliveries fun r =>
    if r.state = .transferred then
      { r with
        state := .offered
        lastDetail := text "reset to offered after distributor restart: the previous transfer was never verified" }
    else r, hr, Option.map_some, if_neg (hcalm id r hr)] at hr'
  cases hr'
  exact DeliveryRecord.succeeds_of_state rfl

theorem alone_open (hw : w.2.Filed) (hcalm : Calm w.2.mem) :
    Alone Orderly («open» o) (fun _ w' => w'.2.Filed) w := by
  rw [«open»]
  split
  · exact hw
  split
  · exact hw
  rw [Alone, Thread.steps_bind]
  apply alone_ask
  intro choice
  split
  · exact hw
  rw [Thread.steps_bind]
  apply alone_epoch
  split
  · exact hw
  rw [Thread.steps_bind]
  apply alone_ask
  intro identity
  rw [Thread.steps_bind]
  apply alone_clock
  intro started
  rw [Thread.steps_bind]
  apply alone_commit
  · exact fun _ => hw
  intro status durable
  refine ⟨orderly_of_removed (fun h => h.commit) fun _ _ h => h, ?_⟩
  cases status with
  | error e => exact hw.commit
  | ok _ =>
    dsimp only
    rw [Thread.steps_bind]
    rintro _ rfl
    refine ⟨orderly_reopened hcalm, ?_⟩
    apply alone_compactIfNeeded
    exact ⟨reopened_filed hw.commit.mem, hw.commit.dur⟩

theorem alone_retireDeployment {id : DeploymentId} {reason : Bytes} (hw : w.2.Filed) :
    Alone Orderly (retireDeployment id reason) (fun _ w' => w'.2.Filed) w := by
  rw [retireDeployment, Alone, Thread.steps_bind]
  apply (alone_snapshotDelivery hw (.inr (rfl : id = id))).mono
  intro record w' hw'
  split
  · exact hw'.filed
  · exact (alone_retired hw').orderly.mono fun _ _ h => h.1

theorem alone_applyLocalDecision {p : DistributorPolicy} {candidate : DeploymentId} (hw : w.2.Filed) :
    Alone Orderly (applyLocalDecision p candidate) (fun _ w' => w'.2.Filed) w := by
  rw [applyLocalDecision, Alone, Thread.steps_bind]
  apply (alone_snapshotDelivery hw (.inr (rfl : candidate = candidate))).mono
  intro record w' hw'
  split
  · exact hw'.filed
  rw [Thread.steps_bind]
  apply alone_clock
  intro now
  rw [Thread.steps_bind, decisionInputFor, Thread.steps_bind]
  apply alone_state
  rw [Thread.steps_pure, Thread.steps_bind]
  apply alone_epoch
  dsimp only
  split
  · exact (alone_rejected hw').orderly.mono fun _ _ h => h.1
  · exact (alone_retired hw').orderly.mono fun _ _ h => h.1
  · exact (alone_failed hw').orderly.mono fun _ _ h => h.1
  · exact hw'.filed

theorem program_while {C : Worker Status → World → Prop} {t : Task}
    (hC : ∀ plan i resolution rest w, C (planInstructions o.policy plan ((i, resolution) :: rest) >>=
      concluded o.policy) w → Writable i w.2.mem) (hw : w.2.Filed) :
    (program o t).StepsWhile wire (fun _ => Orderly) C (fun _ w' => w'.2.Filed) w := by
  cases t with
  | session target rounds =>
    apply Thread.Steps.stepsWhile
    rw [program, Thread.steps_bind]
    exact (alone_runSession hw).mono fun _ _ h => h
  | localDecision candidate => exact (alone_applyLocalDecision hw).stepsWhile
  | submitPlan plan => exact submitPlan_while (hC plan) hw
  | retire id reason => exact (alone_retireDeployment hw).stepsWhile
  | ingest declared => exact ((alone_ingestArtifact hw).mono fun _ _ h => h.1).stepsWhile

end Operations

/-! Runs. -/

/-- A process, and the operation it is at. It serves once it has been opened. -/
structure Engaged where
  options : DistributorOptions
  serving : Bool
  thread : Worker Status

/-- Without a process, the memory is that of the last one. -/
structure Moment where
  world : World := ([], {})
  process : Option Engaged := none

namespace Moment

/-- A process starts, takes a step of its operation, begins the next one when that has ended, or is stopped. -/
inductive Step : Moment → Moment → Prop
  | start {w : World} (o : DistributorOptions) : Step ⟨w, none⟩ ⟨boot w, some ⟨o, false, «open» o⟩⟩
  | move {w w' : World} {o : DistributorOptions} {serving : Bool} {p p' : Worker Status} {c : Option Copy} :
      Thread.Move wire p w c p' w' → Step ⟨w, some ⟨o, serving, p⟩⟩ ⟨w', some ⟨o, serving, p'⟩⟩
  | next {w : World} {o : DistributorOptions} {serving : Bool} {status : Status} (t : Task) :
      serving = true ∨ status = .ok () → Step ⟨w, some ⟨o, serving, .ret status⟩⟩ ⟨w, some ⟨o, true, program o t⟩⟩
  | stop {w : World} {e : Engaged} : Step ⟨w, some e⟩ ⟨w, none⟩

/-- The delivery of the instruction that a plan is at has not been rejected or retired. -/
def Reading (o : DistributorOptions) (p : Worker Status) (w : World) : Prop := ∀ plan i resolution rest,
  p = planInstructions o.policy plan ((i, resolution) :: rest) >>= concluded o.policy → Writable i w.2.mem

/-- A process starts from a journal in which no delivery waits to be verified, and none has another state than the last
process knew. -/
def Meets (x : Moment) : Prop :=
  match x.process with
  | none => ∀ id r, x.world.2.dur.findDelivery id = some r →
      r.state ≠ .transferred ∧ ∀ r', x.world.2.mem.findDelivery id = some r' → r'.state = r.state
  | some e => Reading e.options e.thread x.world

abbrev Run : Moment → Moment → Prop := Relation.ReflTransGen fun x y => Step x y ∧ Meets x

/-- The operation keeps to the table from here on. -/
structure Keeps (x : Moment) : Prop where
  filed : x.world.2.Filed
  course : ∀ e, x.process = some e →
    e.thread.StepsWhile wire (fun _ => Orderly) (Reading e.options) (fun _ w => w.2.Filed) x.world

theorem keeps_initial : Keeps {} where
  filed := ⟨.initial, .initial⟩
  course e he := by cases he

theorem Keeps.step {x y : Moment} (h : Keeps x) (hstep : Step x y) (hmeets : Meets x) :
    Keeps y ∧ Obeys x.world y.world := by
  have hidle (w : World) : Obeys w w := (orderly_quiet w w.1).obeys
  cases hstep with
  | @start w o =>
    have hboot : (boot w).2.Filed := ⟨h.filed.dur, h.filed.dur⟩
    refine ⟨⟨hboot, ?_⟩, ?_⟩
    · rintro _ ⟨⟩
      exact (alone_open hboot fun id r hr => (hmeets id r hr).1).stepsWhile
    · intro id r r' hr hr'
      exact DeliveryRecord.succeeds_of_state ((hmeets id r' hr').2 r hr).symm
  | @move w w' o serving p p' c hmove =>
    obtain ⟨horderly, hcourse⟩ := (h.course _ rfl).move hmeets (fun w => orderly_quiet w w.1) hmove
    refine ⟨⟨horderly.filed h.filed, ?_⟩, horderly.obeys⟩
    rintro _ ⟨⟩
    exact hcourse
  | @next w o serving status t _ =>
    refine ⟨⟨h.filed, ?_⟩, hidle w⟩
    rintro _ ⟨⟩
    have hreading (plan : DeploymentPlan) (i : DeploymentInstruction) (resolution : TargetResolution)
        (rest : List (DeploymentInstruction × TargetResolution)) (w : World) :
        Reading o (planInstructions o.policy plan ((i, resolution) :: rest) >>= concluded o.policy) w →
          Writable i w.2.mem := fun h => h plan i resolution rest rfl
    exact program_while (C := Reading o) hreading h.filed
  | @stop w e =>
    refine ⟨⟨h.filed, ?_⟩, hidle w⟩
    intro _ hnone
    cases hnone

theorem Keeps.run {x : Moment} (h : Run {} x) : Keeps x := by
  induction h with
  | refl => exact keeps_initial
  | tail _ hstep ih => exact (ih.step hstep.1 hstep.2).1

/-- In a run whose steps all meet the condition, every change of a delivery's state is in the table and leaves its
event. -/
theorem lifecycle_discipline {x y : Moment} (hrun : Run {} x) (hstep : Step x y) (hmeets : Meets x) :
    Obeys x.world y.world := ((Keeps.run hrun).step hstep hmeets).2

/-! Runs by a schedule. -/

section Schedules

variable {o : DistributorOptions} {M : Moment → Prop} {check : Option Copy → World → World → Bool}

theorem run_of_moves {serving : Bool} {p p' : Worker Status} {w w' : World}
    (hcheck : ∀ c w w' serving p, check c w w' = true → M ⟨w, some ⟨o, serving, p⟩⟩)
    (h : Thread.Moves wire check (p, w) (p', w')) :
    Relation.ReflTransGen (fun x y => Step x y ∧ M x) ⟨w, some ⟨o, serving, p⟩⟩ ⟨w', some ⟨o, serving, p'⟩⟩ := by
  generalize hy : (p', w') = y at h
  induction h generalizing p' w' with
  | refl =>
    cases hy
    exact .refl
  | tail _ hstep ih =>
    subst hy
    obtain ⟨c, hmove, hchecked⟩ := hstep
    exact (ih rfl).tail ⟨.move hmove, hcheck _ _ _ _ _ hchecked⟩

/-- One operation after the other, by their scripts. -/
def performed (check : Option Copy → World → World → Bool) (o : DistributorOptions) :
    List (Task × List (Choice ⊕ Result Incoming) × ℕ) → Worker Status × World → Option (Worker Status × World)
  | [], x => some x
  | (t, script, n) :: rest, (.ret (.ok ()), w) =>
    ((program o t).advance freely check n script w).bind (performed check o rest)
  | _ :: _, _ => none

/-- A first process that opens and performs the operations. -/
def begun (check : Option Copy → World → World → Bool) (o : DistributorOptions)
    (operations : List (Task × List (Choice ⊕ Result Incoming) × ℕ)) : Option (Worker Status × World) :=
  ((«open» o).advance freely check 40 [] (boot ([], {}))).bind (performed check o operations)

theorem run_of_performed (hcheck : ∀ c w w' serving p, check c w w' = true → M ⟨w, some ⟨o, serving, p⟩⟩)
    (hended : ∀ w serving status, M ⟨w, some ⟨o, serving, .ret status⟩⟩)
    {operations : List (Task × List (Choice ⊕ Result Incoming) × ℕ)} {serving : Bool} {p p' : Worker Status}
    {w w' : World} (h : performed check o operations (p, w) = some (p', w')) :
    ∃ serving', Relation.ReflTransGen (fun x y => Step x y ∧ M x) ⟨w, some ⟨o, serving, p⟩⟩
      ⟨w', some ⟨o, serving', p'⟩⟩ := by
  induction operations generalizing serving p w with
  | nil =>
    cases h
    exact ⟨serving, .refl⟩
  | cons operation rest ih =>
    obtain ⟨t, script, n⟩ := operation
    unfold performed at h
    split at h
    next heq => cases heq
    next t script n rest w heq hx =>
      cases heq
      cases hx
      obtain ⟨⟨q, v⟩, hadvance, hrest⟩ := Option.bind_eq_some_iff.mp h
      obtain ⟨serving', hrun⟩ : ∃ serving', Relation.ReflTransGen (fun x y => Step x y ∧ M x)
          ⟨v, some ⟨o, true, q⟩⟩ ⟨w', some ⟨o, serving', p'⟩⟩ := ih hrest
      refine ⟨serving', .head ⟨.next t (.inr rfl), hended _ _ _⟩ ?_⟩
      exact (run_of_moves hcheck (Thread.advance_moves hadvance)).trans hrun
    · cases h

theorem run_of_begun (hcheck : ∀ c w w' serving p, check c w w' = true → M ⟨w, some ⟨o, serving, p⟩⟩)
    (hended : ∀ w serving status, M ⟨w, some ⟨o, serving, .ret status⟩⟩) (hinitial : M {})
    {operations : List (Task × List (Choice ⊕ Result Incoming) × ℕ)} {p : Worker Status} {w : World}
    (h : begun check o operations = some (p, w)) :
    ∃ serving, Relation.ReflTransGen (fun x y => Step x y ∧ M x) {} ⟨w, some ⟨o, serving, p⟩⟩ := by
  obtain ⟨⟨q, v⟩, hopen, hrest⟩ := Option.bind_eq_some_iff.mp h
  obtain ⟨serving, hrun⟩ : ∃ serving, Relation.ReflTransGen (fun x y => Step x y ∧ M x)
      ⟨v, some ⟨o, false, q⟩⟩ ⟨w, some ⟨o, serving, p⟩⟩ := run_of_performed hcheck hended hrest
  refine ⟨serving, .head ⟨.start o, hinitial⟩ ?_⟩
  exact (run_of_moves hcheck (Thread.advance_moves hopen)).trans hrun

/-- The step after these operations. -/
def stepped (x : Worker Status × World) : Option (Worker Status × World) :=
  (x.1.next freely [] x.2).map fun y => y.2.2

theorem step_of_stepped {serving : Bool} {p p' : Worker Status} {w w' : World} (h : stepped (p, w) = some (p', w')) :
    Step ⟨w, some ⟨o, serving, p⟩⟩ ⟨w', some ⟨o, serving, p'⟩⟩ := by
  obtain ⟨⟨c, script, q, v⟩, hnext, heq⟩ := Option.map_eq_some_iff.mp h
  cases heq
  exact .move (Thread.next_move hnext)

end Schedules

def plannedDeployment : DeploymentId :=
  deriveDeploymentId exampleInstruction.target exampleInstruction.configKey exampleInstruction.generation
    exampleInstruction.digest

def plannedState (w : World) : Option DeliveryState := (w.2.mem.findDelivery plannedDeployment).map (·.state)

/-- A plan is submitted again after its delivery has been retired. -/
theorem resubmission_revives : ¬ ∀ x y : Moment, Relation.ReflTransGen Step {} x → Step x y →
    Obeys x.world y.world := by
  intro h
  have hrun : (begun (fun _ _ _ => true) { nodeId := text "n" } [(.submitPlan examplePlan, [], 40),
      (.retire plannedDeployment [], [], 40), (.submitPlan examplePlan, [], 8)]).map (fun x =>
        (plannedState x.2, (stepped x).map fun y => plannedState y.2)) =
      some (some .retired, some (some .prepared)) := by decide +kernel
  obtain ⟨⟨p, w⟩, hbegun, hpair⟩ := Option.map_eq_some_iff.mp hrun
  obtain ⟨hbefore, hnext⟩ := Prod.mk.inj hpair
  obtain ⟨⟨p', w'⟩, hstepped, hafter⟩ := Option.map_eq_some_iff.mp hnext
  obtain ⟨serving, hreach⟩ := run_of_begun (M := fun _ => True) (fun _ _ _ _ _ _ => trivial)
    (fun _ _ _ => trivial) trivial hbegun
  obtain ⟨r, hr, hretired⟩ := Option.map_eq_some_iff.mp hbefore
  obtain ⟨r', hr', hprepared⟩ := Option.map_eq_some_iff.mp hafter
  have hreach' : Relation.ReflTransGen Step {} ⟨w, some ⟨{ nodeId := text "n" }, serving, p⟩⟩ :=
    Relation.ReflTransGen.mono (fun _ _ h => h.1) _ _ hreach
  have hsucceeds := h _ _ hreach' (step_of_stepped hstepped) plannedDeployment r r' hr hr'
  rw [DeliveryRecord.Succeeds, hretired, hprepared] at hsucceeds
  have hlegal := (hsucceeds (by decide)).legal
  rw [hretired, hprepared] at hlegal
  cases hlegal

/-- No delivery has been rejected or retired. -/
def allLive (_ : Option Copy) (w _ : World) : Bool :=
  w.2.mem.deliveries.all fun e => e.2.state != .rejected && e.2.state != .retired

theorem meets_of_allLive {o : DistributorOptions} {c : Option Copy} {w w' : World} {serving : Bool}
    {p : Worker Status} (h : allLive c w w' = true) : Meets ⟨w, some ⟨o, serving, p⟩⟩ := by
  intro plan i resolution rest _ r hr
  have hlive := List.all_eq_true.mp h _ (SortedMap.find_mem hr)
  simpa using hlive

theorem meets_ended {o : DistributorOptions} {w : World} {serving : Bool} {status : Status} :
    Meets ⟨w, some ⟨o, serving, .ret status⟩⟩ := by
  intro plan i resolution rest hthread
  obtain ⟨status', hret⟩ := Thread.bind_eq_ret hthread.symm
  exact absurd hret planInstructions_ne

/-- A session that cannot connect: the delivery fails, with its event. -/
theorem failed_session_keeps_to_table : ∃ x y : Moment, plannedState x.world = some .prepared ∧
    plannedState y.world = some .failed ∧ Obeys x.world y.world := by
  have hrun : (begun allLive { nodeId := text "n" } [(.submitPlan examplePlan, [], 40),
      (.session (text "t") 1, [.inl { status := .fail .connectionRefused "connection refused" }], 4)]).map (fun x =>
        (plannedState x.2, allLive none x.2 x.2, (stepped x).map fun y => plannedState y.2)) =
      some (some .prepared, true, some (some .failed)) := by decide +kernel
  obtain ⟨⟨p, w⟩, hbegun, hpair⟩ := Option.map_eq_some_iff.mp hrun
  obtain ⟨hbefore, hpair⟩ := Prod.mk.inj hpair
  obtain ⟨hlive, hnext⟩ := Prod.mk.inj hpair
  obtain ⟨⟨p', w'⟩, hstepped, hafter⟩ := Option.map_eq_some_iff.mp hnext
  obtain ⟨serving, hreach⟩ := run_of_begun (M := Meets) (fun _ _ _ _ _ => meets_of_allLive)
    (fun _ _ _ => meets_ended) (fun _ _ hr => nomatch hr) hbegun
  exact ⟨_, _, hbefore, hafter, lifecycle_discipline hreach (step_of_stepped hstepped) (meets_of_allLive hlive)⟩

end Moment

end Distributor

end ConfigurationFabric
