import ConfigurationFabric.DistributorAlone

/-! What a reconcile report does to the deliveries of its target, and that it does it only once. -/

namespace ConfigurationFabric

open LittleEndian
open Threads

namespace Distributor

/-- Every commit succeeds, every frame goes out, and the peer answers every abort. -/
def faultless : Outside (List Request) Controller Choice Request (Result Incoming) where
  emit m w sent := sent = w.1 ++ [m]
  receive r w sent := sent = w.1 ∧ ∃ ack, r = .ok (.reply (.applyAbortAck ack))
  input i _ := i.outcome = .done ∧ i.status = .ok ()

abbrev Faultless {α : Type} (p : Worker α) (Q : α → World → Prop) (w : World) : Prop :=
  p.Steps faultless Eq (fun _ _ _ => True) Q w

/-- The record is stored, and no other delivery has changed. -/
structure Wrote (record : DeliveryRecord) (w w' : World) : Prop where
  filed : w.2.Filed → w'.2.Filed
  find : ∀ id, w'.2.mem.findDelivery id = if id = record.id then some record else w.2.mem.findDelivery id

/-- The same delivery, at the end of its way. -/
structure Closes (record record' : DeliveryRecord) : Prop where
  id : record'.id = record.id
  target : record'.target = record.target
  closed : record'.state = .acknowledged ∨ record'.state = .retired

section Writes

variable {record record' : DeliveryRecord} {w w' w'' : World} {cause : Cause}

theorem Wrote.trans (h : Wrote record w w') (h' : Wrote record' w' w'') (hid : record'.id = record.id) :
    Wrote record' w w'' := by
  refine ⟨fun hw => h'.filed (h.filed hw), fun id => ?_⟩
  rw [h'.find, h.find, hid]
  split <;> rfl

theorem wrote_same (hfiled : w.2.Filed → w'.2.Filed) (hfind : w.2.mem.findDelivery record.id = some record)
    (hsame : w'.2.mem.deliveries = w.2.mem.deliveries) : Wrote record w w' := by
  refine ⟨hfiled, fun id => ?_⟩
  rw [ControllerState.findDelivery, hsame]
  split
  next hid => rw [hid]; exact hfind
  next => rfl

theorem wrote_commit (record : DeliveryRecord) (w : World) :
    Wrote record w (w.1, w.2.commit true (.deliveryUpsert record)) := by
  refine ⟨fun hw => hw.commit, fun id => ?_⟩
  rw [ControllerState.findDelivery, Controller.commit, ControllerRecord.apply, SortedMap.find_insert]
  rfl

theorem faultless_state {Q : ControllerState → World → Prop} (h : Q w.2.mem w) : Faultless state Q w := by
  rintro _ rfl
  exact h

theorem faultless_clock {Q : ℤ → World → Prop} (h : ∀ now, Q now w) : Faultless clock Q w := by
  rintro _ i rfl -
  exact h i.now

theorem faultless_commit {copy : Copy} {make : ControllerState → ControllerRecord}
    {Q : Status × ControllerState → World → Prop} (h : Q (.ok (), w.2.mem) (w.1, w.2.commit true (make w.2.mem))) :
    Faultless (commit copy make) Q w := by
  rintro _ ⟨now, stop, status, artifact, outcome, bytes, present, random⟩ rfl ⟨hdone, -⟩
  obtain rfl : outcome = .done := hdone
  rintro _ rfl
  exact ⟨trivial, h⟩

theorem faultless_transmit {request : Request} {Q : Status → World → Prop} (h : ∀ sent, Q (.ok ()) (sent, w.2)) :
    Faultless (transmit request) Q w := by
  rintro _ ⟨now, stop, status, artifact, outcome, bytes, present, random⟩ rfl ⟨-, hsent⟩
  obtain rfl : status = .ok () := hsent
  rintro _ sent rfl -
  exact ⟨trivial, h sent⟩

theorem faultless_hear {Q : Result Incoming → World → Prop}
    (h : ∀ ack sent, Q (.ok (.reply (.applyAbortAck ack))) (sent, w.2)) : Faultless Thread.hear Q w := by
  rintro _ r sent rfl ⟨-, ack, rfl⟩
  exact ⟨trivial, h ack sent⟩

variable (hname : (parseDeploymentId record.id).isOk = true)

include hname

theorem faultless_commitDelivery {make : ControllerState → DeliveryRecord} :
    Faultless (commitDelivery record cause make)
      (fun x w' => x.1 = .ok () ∧ x.2 = make w.2.mem ∧ Wrote x.2 w w') w := by
  rw [commitDelivery]
  cases hparse : parseDeploymentId record.id with
  | error e =>
    rw [hparse] at hname
    cases hname
  | ok name =>
    dsimp only
    rw [Faultless, Thread.steps_bind]
    apply faultless_commit
    exact ⟨rfl, rfl, wrote_commit _ w⟩

theorem faultless_upsertDelivery :
    Faultless (upsertDelivery record cause) (fun status w' => status = .ok () ∧ Wrote record w w') w := by
  rw [upsertDelivery, Faultless, Thread.steps_bind]
  apply (faultless_commitDelivery hname).mono
  rintro ⟨status, _⟩ w' ⟨rfl, rfl, hwrote⟩
  exact ⟨rfl, hwrote⟩

theorem faultless_recordTransition {target : DeliveryState} {kind : EvidenceKind} {code : ErrorCode} {detail : Bytes}
    {fromReconciliation : Bool} (hlegal : isLegalTransition record.state target = true) :
    Faultless (recordTransition record target kind code detail fromReconciliation cause)
      (fun x w' => x.1 = .ok () ∧ x.2.id = record.id ∧ x.2.target = record.target ∧ x.2.state = target ∧
        Wrote x.2 w w') w := by
  rw [recordTransition, if_neg (by rw [hlegal]; decide), Faultless, Thread.steps_bind]
  apply faultless_clock
  intro now
  apply (faultless_commitDelivery hname).mono
  rintro ⟨status, _⟩ w' ⟨rfl, rfl, hwrote⟩
  exact ⟨rfl, rfl, rfl, rfl, hwrote⟩

theorem faultless_recordRetired {reason : Bytes} (hpending : isPendingState record.state = true) :
    Faultless (recordRetired record reason cause)
      (fun x w' => x.1 = .ok () ∧ ∃ record', Closes record record' ∧ Wrote record' w w') w := by
  have hopen : record.state ≠ .retired := fun h => by rw [h] at hpending; cases hpending
  have hlegal : isLegalTransition record.state .retired = true := by
    cases hstate : record.state with
    | retired => exact absurd hstate hopen
    | _ => rfl
  rw [recordRetired, if_neg hopen, Faultless, Thread.steps_bind]
  apply (faultless_recordTransition hname hlegal).mono
  rintro ⟨_, retired⟩ w₁ ⟨rfl, hid, htarget, hstate, hwrote⟩
  dsimp only at hid htarget hstate hwrote ⊢
  rw [Thread.steps_bind]
  have hname' : (parseDeploymentId ({ retired with superseded := true } : DeliveryRecord).id).isOk = true := by
    rw [hid]
    exact hname
  apply (faultless_upsertDelivery hname').mono
  rintro _ w₂ ⟨rfl, hwrote'⟩
  exact ⟨rfl, { retired with superseded := true }, ⟨hid, htarget, .inr hstate⟩, hwrote.trans hwrote' rfl⟩

end Writes

/-! One delivery and the report. -/

section Record

variable {session : SessionContext} {report : ReconcileReportMessage} {record : DeliveryRecord} {w : World}
  {cause : Cause}

/-- What the report means for this delivery. -/
def outcomeOf (session : SessionContext) (report : ReconcileReportMessage) (record : DeliveryRecord) : ReconcileOutcome :=
  (reconcileDelivery {
    report := some report
    sessionTerm := session.targetTerm
    sessionIncarnation := session.targetIncarnation
    desiredGeneration := record.generation
    desiredDigest := record.digest
    key := record.key
    deployment := record.id
    state := record.state
    guarantee := record.effectiveGuarantee
    requirement := record.requirement
    artifactAvailable := true }).outcome

/-- The report leaves the delivery where it is. -/
def Idle (session : SessionContext) (report : ReconcileReportMessage) (record : DeliveryRecord) : Prop :=
  outcomeOf session report record ≠ .adoptActivation ∧ outcomeOf session report record ≠ .retireStale

theorem idle_of {outcome : ReconcileOutcome} (h : outcomeOf session report record = outcome)
    (hadopt : outcome ≠ .adoptActivation) (hretire : outcome ≠ .retireStale) : Idle session report record := by
  rw [Idle, h]
  exact ⟨hadopt, hretire⟩

theorem outcome_ne_fence (hterm : report.term = session.targetTerm)
    (hincarnation : report.incarnation = session.targetIncarnation) :
    outcomeOf session report record ≠ .fenceAuthority := by
  have hauthority : ¬ (report.term ≠ session.targetTerm ∨ report.incarnation ≠ session.targetIncarnation) := by
    rintro (h | h)
    · exact h hterm
    · exact h hincarnation
  unfold outcomeOf reconcileDelivery
  dsimp only
  rw [if_neg hauthority]
  split
  · exact fun h => nomatch h
  split
  · exact fun h => nomatch h
  split
  · exact fun h => nomatch h
  split
  · split
    · exact fun h => nomatch h
    split
    · exact fun h => nomatch h
    · exact fun h => nomatch h
  · split
    · exact fun h => nomatch h
    · exact fun h => nomatch h

theorem faultless_adoptRuntime (hfiled : w.2.Filed) : Faultless (adoptRuntime record)
    (fun status w' => status = .ok () ∧ w'.2.Filed ∧ w'.2.mem.deliveries = w.2.mem.deliveries) w := by
  rw [adoptRuntime, Faultless, Thread.steps_bind]
  apply faultless_state
  split
  · exact ⟨rfl, hfiled, rfl⟩
  split
  · exact ⟨rfl, hfiled, rfl⟩
  · rw [Thread.steps_bind]
    apply faultless_clock
    intro now
    rw [upsertTarget, Thread.steps_bind]
    apply faultless_commit
    exact ⟨rfl, hfiled.commit, rfl⟩

theorem applied_legal (hpending : isPendingState record.state = true) (happlied : record.state ≠ .applied) :
    isLegalTransition record.state .applied = true := by
  cases hstate : record.state with
  | applied => exact absurd hstate happlied
  | acknowledged => rw [hstate] at hpending; cases hpending
  | rejected => rw [hstate] at hpending; cases hpending
  | retired => rw [hstate] at hpending; cases hpending
  | _ => rfl

variable (hname : (parseDeploymentId record.id).isOk = true)

include hname

theorem faultless_adoptActivation {fromReconciliation : Bool} {detail : Bytes} (hfiled : w.2.Filed)
    (hfind : w.2.mem.findDelivery record.id = some record) (hpending : isPendingState record.state = true) :
    Faultless (adoptActivation record fromReconciliation detail cause)
      (fun status w' => status = .ok () ∧ ∃ record', record'.id = record.id ∧ record'.target = record.target ∧
        record'.state = .applied ∧ Wrote record' w w') w := by
  rw [adoptActivation]
  split
  next hopen =>
    rw [Faultless, Thread.steps_bind]
    apply (faultless_recordTransition hname (applied_legal hpending hopen.1)).mono
    rintro ⟨_, applied⟩ w₁ ⟨rfl, hid, htarget, hstate, hwrote⟩
    dsimp only at hid htarget hstate hwrote ⊢
    have hstored : w₁.2.mem.findDelivery applied.id = some applied := by rw [hwrote.find, if_pos rfl]
    apply (faultless_adoptRuntime (hwrote.filed hfiled)).mono
    rintro _ w₂ ⟨rfl, hfiled', hsame⟩
    exact ⟨rfl, applied, hid, htarget, hstate, hwrote.trans (wrote_same (fun _ => hfiled') hstored hsame) rfl⟩
  next hclosed =>
    have hstate : record.state = .applied := by
      by_contra hne
      apply hclosed
      refine ⟨hne, fun h => ?_⟩
      rw [h] at hpending
      cases hpending
    apply (faultless_adoptRuntime hfiled).mono
    rintro _ w₁ ⟨rfl, hfiled', hsame⟩
    exact ⟨rfl, record, rfl, rfl, hstate, wrote_same (fun _ => hfiled') hfind hsame⟩

theorem faultless_acknowledge {fromReconciliation : Bool} {detail : Bytes} (happlied : record.state = .applied) :
    Faultless (acknowledge record fromReconciliation detail cause)
      (fun status w' => status = .ok () ∧ ∃ record', Closes record record' ∧ Wrote record' w w') w := by
  have hlegal : isLegalTransition record.state .acknowledged = true := by rw [happlied]; rfl
  rw [acknowledge, if_neg (by rw [happlied]; decide), Faultless, Thread.steps_bind]
  apply (faultless_recordTransition hname hlegal).mono
  rintro ⟨_, acknowledged⟩ w₁ ⟨rfl, hid, htarget, hstate, hwrote⟩
  dsimp only at hid htarget hstate hwrote ⊢
  let final : DeliveryRecord := { acknowledged with acknowledgedFromReconcile := fromReconciliation }
  have hname' : (parseDeploymentId final.id).isOk = true := by
    change (parseDeploymentId acknowledged.id).isOk = true
    rw [hid]
    exact hname
  apply (faultless_upsertDelivery hname').mono
  rintro _ w₂ ⟨rfl, hwrote'⟩
  exact ⟨rfl, final, ⟨hid, htarget, .inl hstate⟩, hwrote.trans hwrote' rfl⟩

theorem faultless_adopted {detail detail' : Bytes} (hfiled : w.2.Filed)
    (hfind : w.2.mem.findDelivery record.id = some record) (hpending : isPendingState record.state = true) :
    Faultless (do
      match ← adoptActivation record true detail cause with
      | .error e => return .error e
      | .ok () =>
        let record ← snapshotDelivery record.id
        acknowledge record true detail' cause)
      (fun status w' => status = .ok () ∧ ∃ record', Closes record record' ∧ Wrote record' w w') w := by
  rw [Faultless, Thread.steps_bind]
  apply (faultless_adoptActivation hname hfiled hfind hpending).mono
  rintro _ w₁ ⟨rfl, applied, hid, htarget, hstate, hwrote⟩
  dsimp only
  rw [snapshotDelivery, Thread.steps_bind, Thread.steps_bind]
  apply faultless_state
  have hread : (w₁.2.mem.findDelivery record.id).getD {} = applied := by rw [hwrote.find, hid, if_pos rfl]; rfl
  rw [Thread.steps_pure, hread]
  have hname' : (parseDeploymentId applied.id).isOk = true := by
    rw [hid]
    exact hname
  apply (faultless_acknowledge hname' hstate).mono
  rintro _ w₂ ⟨rfl, final, hcloses, hwrote'⟩
  exact ⟨rfl, final, ⟨hcloses.id.trans hid, hcloses.target.trans htarget, hcloses.closed⟩,
    hwrote.trans hwrote' hcloses.id⟩

omit hname in
theorem faultless_resolveWindow :
    Faultless (resolveWindow session report record) (fun status w' => status = .ok () ∧ w'.2 = w.2) w := by
  rw [resolveWindow, Faultless, Thread.steps_bind]
  apply faultless_transmit
  intro sent
  dsimp only
  rw [Thread.steps_bind]
  apply faultless_hear
  intro ack sent'
  exact ⟨rfl, rfl⟩

omit hname in
/-- An idle delivery costs at most a frame. -/
theorem faultless_idle (hterm : report.term = session.targetTerm)
    (hincarnation : report.incarnation = session.targetIncarnation) (hidle : Idle session report record) :
    Faultless (reconcileRecord session report record) (fun status w' => status = .ok () ∧ w'.2 = w.2) w := by
  have hfence := @outcome_ne_fence session report record hterm hincarnation
  obtain ⟨hadopt, hretire⟩ := hidle
  rw [reconcileRecord]
  dsimp only
  split
  next h => exact absurd h hadopt
  next h => exact absurd h hretire
  · exact faultless_resolveWindow
  next h => exact absurd h hfence
  · exact ⟨rfl, rfl⟩
  · exact ⟨rfl, rfl⟩
  · exact ⟨rfl, rfl⟩

theorem faultless_moving (hterm : report.term = session.targetTerm)
    (hincarnation : report.incarnation = session.targetIncarnation) (hfiled : w.2.Filed)
    (hfind : w.2.mem.findDelivery record.id = some record) (hpending : isPendingState record.state = true)
    (hmoving : ¬ Idle session report record) :
    Faultless (reconcileRecord session report record)
      (fun status w' => status = .ok () ∧ ∃ record', Closes record record' ∧ Wrote record' w w') w := by
  have hfence := @outcome_ne_fence session report record hterm hincarnation
  rw [reconcileRecord]
  dsimp only
  split
  · exact faultless_adopted hname hfiled hfind hpending
  · rw [Faultless, Thread.steps_bind]
    exact (faultless_recordRetired hname hpending).mono fun _ _ h => h
  next h => exact absurd (idle_of h (by decide) (by decide)) hmoving
  next h => exact absurd h hfence
  next h => exact absurd (idle_of h (by decide) (by decide)) hmoving
  next h => exact absurd (idle_of h (by decide) (by decide)) hmoving
  next h => exact absurd (idle_of h (by decide) (by decide)) hmoving

end Record

/-! All deliveries of the target. -/

section Pass

variable {session : SessionContext} {report : ReconcileReportMessage} {records : List DeliveryRecord} {w : World}

/-- Where one pass over the deliveries has left each of them. -/
structure Reconciled (session : SessionContext) (report : ReconcileReportMessage) (records : List DeliveryRecord)
    (w w' : World) : Prop where
  filed : w'.2.Filed
  others : ∀ id, (∀ r ∈ records, r.id ≠ id) → w'.2.mem.findDelivery id = w.2.mem.findDelivery id
  each : ∀ r ∈ records, w'.2.mem.findDelivery r.id = some r ∧ (isPendingState r.state = true → Idle session report r) ∨
    isPendingState r.state = true ∧ ∃ r', Closes r r' ∧ w'.2.mem.findDelivery r.id = some r'

variable (hterm : report.term = session.targetTerm) (hincarnation : report.incarnation = session.targetIncarnation)

include hterm hincarnation

theorem faultless_reconcileRecords (hfiled : w.2.Filed) (hdistinct : records.Pairwise fun a b => a.id ≠ b.id)
    (hstored : ∀ r ∈ records, w.2.mem.findDelivery r.id = some r)
    (hnames : ∀ r ∈ records, (parseDeploymentId r.id).isOk = true) :
    Faultless (reconcileRecords session report records)
      (fun status w' => status = .ok () ∧ Reconciled session report records w w') w := by
  induction records generalizing w with
  | nil => exact ⟨rfl, hfiled, fun _ _ => rfl, fun r hr => absurd hr List.not_mem_nil⟩
  | cons record rest ih =>
    obtain ⟨hfirst, hrest⟩ := List.pairwise_cons.mp hdistinct
    obtain ⟨hfind, hstored'⟩ := List.forall_mem_cons.mp hstored
    obtain ⟨hname, hnames'⟩ := List.forall_mem_cons.mp hnames
    have hgoesOn {w₁ : World} (hfiled₁ : w₁.2.Filed)
        (hothers : ∀ id, id ≠ record.id → w₁.2.mem.findDelivery id = w.2.mem.findDelivery id)
        (hown : w₁.2.mem.findDelivery record.id = some record ∧
            (isPendingState record.state = true → Idle session report record) ∨
          isPendingState record.state = true ∧ ∃ r', Closes record r' ∧ w₁.2.mem.findDelivery record.id = some r') :
        Faultless (reconcileRecords session report rest)
          (fun status w' => status = .ok () ∧ Reconciled session report (record :: rest) w w') w₁ := by
      have hstored₁ : ∀ r ∈ rest, w₁.2.mem.findDelivery r.id = some r := by
        intro r hr
        rw [hothers r.id (hfirst r hr).symm]
        exact hstored' r hr
      apply (ih hfiled₁ hrest hstored₁ hnames').mono
      rintro _ w₂ ⟨rfl, hfiled₂, hothers₂, heach⟩
      have hspared : w₂.2.mem.findDelivery record.id = w₁.2.mem.findDelivery record.id :=
        hothers₂ _ fun r hr => (hfirst r hr).symm
      refine ⟨rfl, hfiled₂, fun id hid => ?_, List.forall_mem_cons.mpr ⟨?_, heach⟩⟩
      · obtain ⟨hne, hid'⟩ := List.forall_mem_cons.mp hid
        exact (hothers₂ id hid').trans (hothers id hne.symm)
      · rw [hspared]
        exact hown
    rw [reconcileRecords]
    split
    next hclosed =>
      apply hgoesOn hfiled fun _ _ => rfl
      refine .inl ⟨hfind, fun hpending => ?_⟩
      rw [hpending] at hclosed
      cases hclosed
    next hopen =>
      have hpending : isPendingState record.state = true := by simpa using hopen
      rw [Faultless, Thread.steps_bind]
      by_cases hidle : Idle session report record
      · apply (faultless_idle hterm hincarnation hidle).mono
        rintro _ w₁ ⟨rfl, hsame⟩
        have hfiled₁ : w₁.2.Filed := hsame ▸ hfiled
        apply hgoesOn hfiled₁
        · intro id _
          rw [hsame]
        · refine .inl ⟨?_, fun _ => hidle⟩
          rw [hsame]
          exact hfind
      · apply (faultless_moving hname hterm hincarnation hfiled hfind hpending hidle).mono
        rintro _ w₁ ⟨rfl, r', hcloses, hwrote⟩
        apply hgoesOn (hwrote.filed hfiled)
        · intro id hid
          rw [hwrote.find, if_neg (by rw [hcloses.id]; exact hid)]
        · refine .inr ⟨hpending, r', hcloses, ?_⟩
          rw [hwrote.find, if_pos hcloses.id.symm]

/-- Deliveries that the report leaves where they are cost no write. -/
theorem faultless_repeat (hidle : ∀ r ∈ records, isPendingState r.state = true → Idle session report r) :
    Faultless (reconcileRecords session report records) (fun status w' => status = .ok () ∧ w'.2 = w.2) w := by
  induction records generalizing w with
  | nil => exact ⟨rfl, rfl⟩
  | cons record rest ih =>
    obtain ⟨hfirst, hrest⟩ := List.forall_mem_cons.mp hidle
    rw [reconcileRecords]
    split
    · exact ih hrest
    next hopen =>
      have hpending : isPendingState record.state = true := by simpa using hopen
      rw [Faultless, Thread.steps_bind]
      apply (faultless_idle hterm hincarnation (hfirst hpending)).mono
      rintro _ w₁ ⟨rfl, hsame⟩
      dsimp only
      rw [← hsame]
      exact ih hrest

end Pass

theorem mem_deliveriesOf {target : TargetId} {s : ControllerState} {r : DeliveryRecord} (h : s.Filed) :
    r ∈ deliveriesOf target s ↔ s.findDelivery r.id = some r ∧ r.target = target := by
  rw [deliveriesOf, List.mem_insertionSort, List.mem_filter, List.mem_map, beq_iff_eq]
  refine and_congr_left fun _ => ⟨?_, ?_⟩
  · rintro ⟨e, he, rfl⟩
    rw [h.deliveries e he]
    exact SortedMap.find_of_mem h.sorted he
  · exact fun hr => ⟨_, SortedMap.find_mem hr, rfl⟩

theorem not_pending_of_closes {r r' : DeliveryRecord} (h : Closes r r') : isPendingState r'.state = false := by
  obtain hstate | hstate := h.closed
  · rw [hstate]
    rfl
  · rw [hstate]
    rfl

/-- A report never fails to apply, moves nothing but pending deliveries of its target, each to its end or not at all,
and a second time writes nothing. -/
theorem report_applied_once {session : SessionContext} {report : ReconcileReportMessage} {w w' : World} {status : Status}
    (hfiled : w.2.Filed) (hnames : ∀ id r, w.2.mem.findDelivery id = some r → (parseDeploymentId r.id).isOk = true)
    (hterm : report.term = session.targetTerm) (hincarnation : report.incarnation = session.targetIncarnation)
    (hends : Thread.Ends faultless (applyReconcileReport session report) w status w') :
    status = .ok () ∧
      (∀ id, w'.2.mem.findDelivery id = w.2.mem.findDelivery id ∨ ∃ r r', w.2.mem.findDelivery id = some r ∧
        w'.2.mem.findDelivery id = some r' ∧ r.target = session.target ∧ isPendingState r.state = true ∧ Closes r r') ∧
      ∀ status' w'', Thread.Ends faultless (applyReconcileReport session report) w' status' w'' → w''.2 = w'.2 := by
  have hpass : Faultless (applyReconcileReport session report) (fun status w' => status = .ok () ∧
      Reconciled session report (deliveriesOf session.target w.2.mem) w w') w := by
    rw [applyReconcileReport, Faultless, Thread.steps_bind]
    apply faultless_state
    apply faultless_reconcileRecords hterm hincarnation hfiled
    · exact (copied_deliveriesOf hfiled session.target).distinct
    · exact fun r hr => ((mem_deliveriesOf hfiled.mem).mp hr).1
    · exact fun r hr => hnames _ r ((mem_deliveriesOf hfiled.mem).mp hr).1
  obtain ⟨rfl, hfiled', hothers, heach⟩ := hpass.ends hends
  refine ⟨rfl, fun id => ?_, fun status' w'' hends' => ?_⟩
  · by_cases hid : ∃ r ∈ deliveriesOf session.target w.2.mem, r.id = id
    · obtain ⟨r, hr, rfl⟩ := hid
      obtain ⟨hfind, htarget⟩ := (mem_deliveriesOf hfiled.mem).mp hr
      obtain ⟨hsame, -⟩ | ⟨hpending, r', hcloses, hfind'⟩ := heach r hr
      · exact .inl (hsame.trans hfind.symm)
      · exact .inr ⟨r, r', hfind, hfind', htarget, hpending, hcloses⟩
    · exact .inl (hothers id fun r hr heq => hid ⟨r, hr, heq⟩)
  · have hidle : ∀ r ∈ deliveriesOf session.target w'.2.mem, isPendingState r.state = true → Idle session report r := by
      intro r hr hpending
      obtain ⟨hfind, htarget⟩ := (mem_deliveriesOf hfiled'.mem).mp hr
      by_cases hid : ∃ q ∈ deliveriesOf session.target w.2.mem, q.id = r.id
      · obtain ⟨q, hq, hid⟩ := hid
        obtain ⟨hsame, hidle⟩ | ⟨-, q', hcloses, hfind'⟩ := heach q hq
        · rw [hid, hfind] at hsame
          cases hsame
          exact hidle hpending
        · rw [hid, hfind] at hfind'
          cases hfind'
          rw [not_pending_of_closes hcloses] at hpending
          cases hpending
      · have hold := hothers r.id fun q hq heq => hid ⟨q, hq, heq⟩
        rw [hfind] at hold
        exact absurd ⟨r, (mem_deliveriesOf hfiled.mem).mpr ⟨hold.symm, htarget⟩, rfl⟩ hid
    have hrepeat : Faultless (applyReconcileReport session report) (fun _ w'' => w''.2 = w'.2) w' := by
      rw [applyReconcileReport, Faultless, Thread.steps_bind]
      apply faultless_state
      exact (faultless_repeat hterm hincarnation hidle).mono fun _ _ h => h.2
    exact hrepeat.ends hends'

/-! A report that proves an activation. -/

def faultlessly : Driver faultless where
  file m w := some (w.1 ++ [m])
  i₀ := { now := 1 }
  r₀ _ := none
  hears r w :=
    match r with
    | .ok (.reply (.applyAbortAck _)) => some w.1
    | _ => none
  chooses i _ :=
    match i.outcome, i.status with
    | .done, .ok () => true
    | _, _ => false
  emits := appended
  receives r w e h := by
    split at h
    next ack => exact ⟨(Option.some.inj h).symm, ack, rfl⟩
    · cases h
  inputs i w h := by
    split at h
    next hdone hsent => exact ⟨hdone, hsent⟩
    · cases h

def activeReport : ReconcileReportMessage where
  target := text "t"
  targetClass := .unspecified
  guarantee := .atomicActivate
  term := 1
  incarnation := .zero 16
  committedGeneration := 3
  committedDigest := .fill 32 7
  committedArtifact := []
  applyPrepared := false
  preparedDeployment := []
  preparedGeneration := 0
  preparedDigest := .zero 32
  restartCount := 0
  applyRollbacks := 0
  transfers := []
  findings := []

def preparedState : ControllerState where
  deliveries := [(text "d", { id := text "d", target := text "t", generation := 3, digest := .fill 32 7 })]

def activeSession : SessionContext where
  target := text "t"
  targetTerm := 1
  targetIncarnation := .zero 16
  peerMaxPayload := 1024

def appliedState : Option ControllerState :=
  match (applyReconcileReport activeSession activeReport).advance faultlessly (fun _ _ _ => true) 60 []
      ([], ⟨preparedState, preparedState⟩) with
  | some (.ret (.ok ()), w') => some w'.2.mem
  | _ => none

theorem active_report_applied_once :
    ∃ w', Thread.Ends faultless (applyReconcileReport activeSession activeReport) ([], ⟨preparedState, preparedState⟩)
        (.ok ()) w' ∧
      (w'.2.mem.findDelivery (text "d")).map (·.state) = some .acknowledged ∧
      ¬ ∃ status w'', Thread.Ends faultless (applyReconcileReport activeSession activeReport) w' status w'' ∧
        w''.2 ≠ w'.2 := by
  have hrun : appliedState.map (fun s => (s.findDelivery (text "d")).map (·.state)) = some (some .acknowledged) := by
    decide
  rw [appliedState] at hrun
  split at hrun
  next w' hadvance =>
    have hends : Thread.Ends faultless (applyReconcileReport activeSession activeReport)
      ([], ⟨preparedState, preparedState⟩) (.ok ()) w' := Thread.advance_reaches hadvance
    have hmem : preparedState.Filed := by
      refine ⟨?_, ?_, List.pairwise_singleton _ _⟩
      · simp [preparedState]
      · simp [preparedState]
    have hfiled : Controller.Filed ⟨preparedState, preparedState⟩ := ⟨hmem, hmem⟩
    have hnames : ∀ id r, preparedState.findDelivery id = some r → (parseDeploymentId r.id).isOk = true := by
      intro id r hr
      have hr' : r ∈ preparedState.deliveries.map (·.2) := List.mem_map.mpr ⟨_, SortedMap.find_mem hr, rfl⟩
      rw [preparedState, List.map_singleton, List.mem_singleton] at hr'
      rw [hr']
      decide
    refine ⟨w', hends, Option.some.inj hrun, ?_⟩
    rintro ⟨status, w'', hends', hne⟩
    exact hne ((report_applied_once hfiled hnames rfl rfl hends).2.2 status w'' hends')
  · cases hrun

end Distributor

end ConfigurationFabric
