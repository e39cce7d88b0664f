import ConfigurationFabric.DistributorLives

/-! One operation of the distributor at a time: what it does to the states of the deliveries. -/

namespace ConfigurationFabric

open LittleEndian
open Threads

/-- The transition is in the table, and its event is the newest one. -/
structure DeliveryRecord.Transitions (r r' : DeliveryRecord) : Prop where
  legal : isLegalTransition r.state r'.state = true
  evidence : ∃ e : LifecycleEvent, e.source = r.state ∧ e.target = r'.state ∧
    r'.events = Distributor.appendEvent r.events e

def DeliveryRecord.Succeeds (r r' : DeliveryRecord) : Prop := r'.state ≠ r.state → r.Transitions r'

namespace DeliveryRecord

theorem Transitions.source {r₁ r₂ r' : DeliveryRecord} (h : r₁.Transitions r') (hstate : r₂.state = r₁.state)
    (hevents : r₂.events = r₁.events) : r₂.Transitions r' := by
  obtain ⟨hlegal, e, hsource, htarget, happended⟩ := h
  constructor
  · rw [hstate]
    exact hlegal
  · rw [hstate, hevents]
    exact ⟨e, hsource, htarget, happended⟩

theorem Succeeds.source {r₁ r₂ r' : DeliveryRecord} (h : r₁.Succeeds r') (hstate : r₂.state = r₁.state)
    (hevents : r₂.events = r₁.events) : r₂.Succeeds r' :=
  fun hne => (h (hstate ▸ hne)).source hstate hevents

theorem succeeds_of_state {r r' : DeliveryRecord} (h : r'.state = r.state) : r.Succeeds r' := fun hne => absurd h hne

end DeliveryRecord

namespace Distributor

/-- Every change of a delivery's state is a transition. -/
def Obeys (w w' : World) : Prop := ∀ id r r', w.2.mem.findDelivery id = some r →
  w'.2.mem.findDelivery id = some r' → r.Succeeds r'

structure Orderly (w w' : World) : Prop where
  filed : w.2.Filed → w'.2.Filed
  obeys : Obeys w w'

/-- The step may write this delivery, and no other. -/
structure Tends (id : DeploymentId) (w w' : World) : Prop where
  filed : w.2.Filed → w'.2.Filed
  others : ∀ id', id' ≠ id → w'.2.mem.findDelivery id' = w.2.mem.findDelivery id'
  own : ∀ r r', w.2.mem.findDelivery id = some r → w'.2.mem.findDelivery id = some r' → r.Succeeds r'

theorem Tends.orderly {id : DeploymentId} {w w' : World} (h : Tends id w w') : Orderly w w' := by
  refine ⟨h.filed, fun id' r r' hr hr' => ?_⟩
  by_cases hid : id' = id
  · subst hid
    exact h.own r r' hr hr'
  · rw [h.others id' hid, hr] at hr'
    cases hr'
    exact DeliveryRecord.succeeds_of_state rfl

theorem tends_of_eq {id : DeploymentId} {w w' : World} (hfiled : w.2.Filed → w'.2.Filed)
    (h : w'.2.mem.deliveries = w.2.mem.deliveries) : Tends id w w' := by
  have hfind (id' : DeploymentId) : w'.2.mem.findDelivery id' = w.2.mem.findDelivery id' := congrArg (·.find id') h
  constructor
  · exact hfiled
  · exact fun id' _ => hfind id'
  · intro r r' hr hr'
    rw [hfind, hr] at hr'
    cases hr'
    exact DeliveryRecord.succeeds_of_state rfl

/-- The copy is what the store holds under this name. One without a name is written nowhere. -/
structure Held (id : DeploymentId) (record : DeliveryRecord) (w : World) : Prop where
  filed : w.2.Filed
  named : record.id = [] ∨ record.id = id
  current : record.id ≠ [] → ∀ r, w.2.mem.findDelivery id = some r → r.state = record.state ∧ r.events = record.events

namespace Held

variable {id : DeploymentId} {record : DeliveryRecord} {w w' : World}

theorem edit (h : Held id record w) {record' : DeliveryRecord} (hid : record'.id = record.id)
    (hstate : record'.state = record.state) (hevents : record'.events = record.events) : Held id record' w := by
  refine ⟨h.filed, hid ▸ h.named, fun hne r hr => ?_⟩
  rw [hstate, hevents]
  exact h.current (hid ▸ hne) r hr

theorem moved (h : Held id record w) (hfiled : w'.2.Filed) (hw : w'.2.mem.findDelivery id = w.2.mem.findDelivery id) :
    Held id record w' := ⟨hfiled, h.named, fun hne r hr => h.current hne r (hw ▸ hr)⟩

theorem fresh (hfiled : w.2.Filed) (hid : record.id = id) (hnone : w.2.mem.findDelivery id = none) :
    Held id record w := by
  refine ⟨hfiled, .inr hid, fun _ r hr => ?_⟩
  rw [hnone] at hr
  cases hr

theorem stored (hfiled : w.2.Filed) (hr : w.2.mem.findDelivery id = some record) : Held id record w := by
  refine ⟨hfiled, .inr (hfiled.mem.delivery hr), fun _ r hr' => ?_⟩
  rw [hr] at hr'
  cases hr'
  exact ⟨rfl, rfl⟩

/-- As it is read. -/
theorem snapshot (hfiled : w.2.Filed) {name : DeploymentId} (hname : name = [] ∨ name = id) :
    Held id ((w.2.mem.findDelivery name).getD {}) w := by
  cases hfind : w.2.mem.findDelivery name with
  | none => exact ⟨hfiled, .inl rfl, fun hne => absurd rfl hne⟩
  | some r =>
    have hid : r.id = name := hfiled.mem.delivery hfind
    obtain rfl | rfl := hname
    · exact ⟨hfiled, .inl hid, fun hne => absurd hid hne⟩
    · exact stored hfiled hfind

/-- Writing the copy back. -/
theorem commit (h : Held id record w) (hne : record.id ≠ []) {record' : DeliveryRecord} (hid : record'.id = record.id)
    (hsucceeds : record.Succeeds record') {durable : Bool} :
    Tends id w (w.1, w.2.commit durable (.deliveryUpsert record')) ∧
      Held id record' (w.1, w.2.commit durable (.deliveryUpsert record')) := by
  have hname : record'.id = id := hid.trans (h.named.resolve_left hne)
  have hfind (id' : DeploymentId) : (w.2.commit durable (.deliveryUpsert record')).mem.findDelivery id' =
      if id' = id then some record' else w.2.mem.findDelivery id' := by
    rw [ControllerState.findDelivery, Controller.commit, ControllerRecord.apply, SortedMap.find_insert, hname]
    rfl
  refine ⟨⟨fun hw => hw.commit, fun id' hid' => ?_, fun r r' hr hr' => ?_⟩, stored h.filed.commit ?_⟩
  · exact (hfind id').trans (if_neg hid')
  · obtain ⟨hstate, hevents⟩ := h.current hne r hr
    rw [(hfind id).trans (if_pos rfl)] at hr'
    cases hr'
    exact hsucceeds.source hstate hevents
  · exact (hfind id).trans (if_pos rfl)

end Held

/-! One delivery. -/

abbrev Alone {α : Type} (R : World → World → Prop) (p : Worker α) (Q : α → World → Prop) (w : World) : Prop :=
  p.Steps wire Eq (fun _ => R) Q w

section Quiet

variable {α : Type} {R : World → World → Prop} {w : World}

/-- A status is looked at, and what follows depends on it. -/
theorem alone_check {p : Worker Status} {f : Status → Worker α} {P : World → Prop} {Q : α → World → Prop}
    (hp : Alone R p (fun _ => P) w) (herror : ∀ e w', P w' → Alone R (f (.error e)) Q w')
    (hok : ∀ w', P w' → Alone R (f (.ok ())) Q w') : Alone R (p >>= f) Q w := by
  rw [Alone, Thread.steps_bind]
  refine hp.mono fun status w' h => ?_
  cases status with
  | error e => exact herror e w' h
  | ok _ => exact hok w' h

theorem alone_ask {Q : Choice → World → Prop} (h : ∀ i, Q i w) : Alone R Thread.ask Q w := by
  rintro _ i rfl -
  exact h i

theorem alone_clock {Q : ℤ → World → Prop} (h : ∀ now, Q now w) : Alone R clock Q w := by
  rintro _ i rfl -
  exact h i.now

theorem alone_state {Q : ControllerState → World → Prop} (h : Q w.2.mem w) : Alone R state Q w := by
  rintro _ rfl
  exact h

theorem alone_epoch {Q : Epoch → World → Prop} (h : Q w.2.mem.epoch w) : Alone R Distributor.epoch Q w := by
  rintro _ rfl
  exact h

variable (hR : ∀ (w : World) sent, R w (sent, w.2))

include hR

theorem alone_transmit {request : Request} {Q : Status → World → Prop} (h : ∀ status sent, Q status (sent, w.2)) :
    Alone R (transmit request) Q w := by
  rintro _ ⟨now, stop, status, artifact, outcome, bytes, present, random⟩ rfl -
  cases status with
  | error e => exact h _ w.1
  | ok =>
    rintro _ sent rfl -
    exact ⟨hR w sent, h _ sent⟩

theorem alone_hear {Q : Result Incoming → World → Prop} (h : ∀ r sent, Q r (sent, w.2)) : Alone R Thread.hear Q w := by
  rintro _ r sent rfl -
  exact ⟨hR w sent, h r sent⟩

end Quiet

theorem alone_commit {R : World → World → Prop} {w : World} {copy : Copy} {make : ControllerState → ControllerRecord}
    {Q : Status × ControllerState → World → Prop} (hrefused : ∀ e, Q (.error e, w.2.mem) w)
    (hwrite : ∀ status durable, R w (w.1, w.2.commit durable (make w.2.mem)) ∧
      Q (status, w.2.mem) (w.1, w.2.commit durable (make w.2.mem))) :
    Alone R (commit copy make) Q w := by
  rintro _ ⟨now, stop, status, artifact, outcome, bytes, present, random⟩ rfl -
  cases outcome with
  | refused e =>
    rintro _ rfl
    exact hrefused e
  | failed e durable =>
    rintro _ rfl
    exact hwrite _ durable
  | done =>
    rintro _ rfl
    exact hwrite _ true

theorem tends_quiet {id : DeploymentId} (w : World) (sent : List Request) : Tends id w (sent, w.2) :=
  tends_of_eq (fun h => h) rfl

/-- A copy that has been written back is held on. -/
def Kept (id : DeploymentId) (x : Status × DeliveryRecord) (w : World) : Prop :=
  w.2.Filed ∧ (x.1 = .ok () → Held id x.2 w)

section Evidence

variable {id : DeploymentId} {record : DeliveryRecord} {w : World} {cause : Cause}

theorem alone_commitDelivery (hw : Held id record w) {make : ControllerState → DeliveryRecord}
    (hid : ∀ s, (make s).id = record.id) (hsucceeds : ∀ s, record.Succeeds (make s)) :
    Alone (Tends id) (commitDelivery record cause make) (Kept id) w := by
  rw [commitDelivery]
  cases hparse : parseDeploymentId record.id with
  | error e =>
    rintro _ rfl
    exact ⟨hw.filed, fun h => by cases h⟩
  | ok name =>
    have hne : record.id ≠ [] := by
      intro hempty
      simp [hempty, parseDeploymentId, parseId, Result.fail] at hparse
    dsimp only
    rw [Alone, Thread.steps_bind]
    apply alone_commit
    · exact fun e => ⟨hw.filed, fun h => by cases h⟩
    · intro status durable
      obtain ⟨htends, hheld⟩ : Tends id w (w.1, w.2.commit durable (.deliveryUpsert (make w.2.mem))) ∧
          Held id (make w.2.mem) (w.1, w.2.commit durable (.deliveryUpsert (make w.2.mem))) :=
        hw.commit hne (hid w.2.mem) (hsucceeds w.2.mem)
      exact ⟨htends, hheld.filed, fun _ => hheld⟩

theorem alone_upsertDelivery (hw : Held id record w) :
    Alone (Tends id) (upsertDelivery record cause) (fun _ w' => w'.2.Filed) w := by
  rw [upsertDelivery, Alone, Thread.steps_bind]
  apply (alone_commitDelivery hw (fun _ => rfl) fun _ => DeliveryRecord.succeeds_of_state rfl).mono
  exact fun _ _ h => h.1

theorem moved_succeeds {target : DeliveryState} {kind : EvidenceKind} {code : ErrorCode} {detail : Bytes}
    {fromReconciliation : Bool} {now : ℤ} {s : ControllerState} (hlegal : isLegalTransition record.state target = true) :
    record.Succeeds (moved record target kind code detail fromReconciliation now s) :=
  fun _ => ⟨hlegal, _, rfl, rfl, rfl⟩

theorem alone_recordTransition {target : DeliveryState} {kind : EvidenceKind} {code : ErrorCode} {detail : Bytes}
    {fromReconciliation : Bool} (hw : Held id record w) :
    Alone (Tends id) (recordTransition record target kind code detail fromReconciliation cause) (Kept id) w := by
  rw [recordTransition]
  split
  · exact ⟨hw.filed, fun h => by cases h⟩
  next hlegal =>
    rw [Bool.not_eq_true, Bool.not_eq_false'] at hlegal
    rw [Alone, Thread.steps_bind]
    apply alone_clock
    intro now
    apply alone_commitDelivery hw
    · exact fun _ => rfl
    · exact fun _ => moved_succeeds hlegal

theorem alone_noteEvent {kind : EvidenceKind} {detail : Bytes} (hw : Held id record w) :
    Alone (Tends id) (noteEvent record kind detail cause) (Kept id) w := by
  rw [noteEvent, Alone, Thread.steps_bind]
  apply alone_clock
  intro now
  rw [Thread.steps_bind]
  apply alone_clock
  intro updated
  apply alone_commitDelivery hw
  · exact fun _ => rfl
  · exact fun _ => DeliveryRecord.succeeds_of_state rfl

theorem alone_recordFailure {code : ErrorCode} {detail : Bytes} (hw : Held id record w) :
    Alone (Tends id) (recordFailure record code detail cause) (Kept id) w := by
  simp only [recordFailure]
  split
  · exact ⟨hw.filed, fun h => by cases h⟩
  split
  · exact ⟨hw.filed, fun h => by cases h⟩
  split
  · exact alone_noteEvent (hw.edit rfl rfl rfl)
  · exact alone_recordTransition (hw.edit rfl rfl rfl)

theorem alone_recordRejected {code : ErrorCode} {detail : Bytes} (hw : Held id record w) :
    Alone (Tends id) (recordRejected record code detail cause) (fun _ w' => w'.2.Filed) w := by
  simp only [recordRejected]
  split
  · exact (alone_noteEvent hw).mono fun _ _ h => h.1
  · rw [Alone, Thread.steps_bind]
    apply (alone_recordTransition hw).mono
    rintro ⟨_ | ⟨⟩, rejected⟩ w' ⟨hfiled, hheld⟩
    · exact hfiled
    · dsimp only
      rw [Thread.steps_bind]
      exact alone_upsertDelivery ((hheld rfl).edit rfl rfl rfl)

theorem alone_recordRetired {reason : Bytes} (hw : Held id record w) :
    Alone (Tends id) (recordRetired record reason cause) (fun _ w' => w'.2.Filed) w := by
  rw [recordRetired]
  split
  · exact hw.filed
  · rw [Alone, Thread.steps_bind]
    apply (alone_recordTransition hw).mono
    rintro ⟨_ | ⟨⟩, retired⟩ w' ⟨hfiled, hheld⟩
    · exact hfiled
    · dsimp only
      rw [Thread.steps_bind]
      exact alone_upsertDelivery ((hheld rfl).edit rfl rfl rfl)

end Evidence

/-! Activation and acknowledgement. -/

section Activation

variable {id : DeploymentId} {record : DeliveryRecord} {w : World} {cause : Cause}

theorem alone_upsertTarget {name : TargetId} {copy : Option TargetRuntime} {runtime : TargetRuntime}
    (hw : w.2.Filed) : Alone (Tends id) (upsertTarget name copy runtime)
      (fun _ w' => w'.2.Filed ∧ w'.2.mem.deliveries = w.2.mem.deliveries) w := by
  rw [upsertTarget, Alone, Thread.steps_bind]
  apply alone_commit
  · exact fun e => ⟨hw, rfl⟩
  · exact fun status durable => ⟨tends_of_eq (fun h => h.commit) rfl, hw.commit, rfl⟩

theorem alone_adoptRuntime (hw : w.2.Filed) :
    Alone (Tends id) (adoptRuntime record) (fun _ w' => w'.2.Filed) w := by
  rw [adoptRuntime, Alone, Thread.steps_bind]
  apply alone_state
  split
  · exact hw
  split
  · exact hw
  · rw [Thread.steps_bind]
    apply alone_clock
    intro now
    exact (alone_upsertTarget hw).mono fun _ _ h => h.1

theorem alone_adoptActivation {fromReconciliation : Bool} {detail : Bytes} (hw : Held id record w) :
    Alone (Tends id) (adoptActivation record fromReconciliation detail cause) (fun _ w' => w'.2.Filed) w := by
  rw [adoptActivation]
  split
  · rw [Alone, Thread.steps_bind]
    apply (alone_recordTransition hw).mono
    rintro ⟨_ | ⟨⟩, applied⟩ w' ⟨hfiled, hheld⟩
    · exact hfiled
    · exact alone_adoptRuntime hfiled
  · exact alone_adoptRuntime hw.filed

theorem alone_acknowledge {fromReconciliation : Bool} {detail : Bytes} (hw : Held id record w) :
    Alone (Tends id) (acknowledge record fromReconciliation detail cause) (fun _ w' => w'.2.Filed) w := by
  rw [acknowledge]
  split
  · split
    · exact alone_upsertDelivery (hw.edit rfl rfl rfl)
    · exact hw.filed
  · rw [Alone, Thread.steps_bind]
    apply (alone_recordTransition hw).mono
    rintro ⟨_ | ⟨⟩, acknowledged⟩ w' ⟨hfiled, hheld⟩
    · exact hfiled
    · exact alone_upsertDelivery ((hheld rfl).edit rfl rfl rfl)

theorem alone_snapshotDelivery {R : World → World → Prop} {name : DeploymentId} (hw : w.2.Filed)
    (hname : name = [] ∨ name = id) : Alone R (snapshotDelivery name) (Held id) w := by
  rw [snapshotDelivery, Alone, Thread.steps_bind]
  apply alone_state
  exact .snapshot hw hname

/-- An activation is adopted, and the record read again. -/
theorem alone_adopted {fromReconciliation : Bool} {detail : Bytes} {f : DeliveryRecord → Worker Status}
    (hw : Held id record w)
    (hf : ∀ r w', Held id r w' → Alone (Tends id) (f r) (fun _ w'' => w''.2.Filed) w') :
    Alone (Tends id) (do
      match ← adoptActivation record fromReconciliation detail cause with
      | .error e => return .error e
      | .ok () =>
        let record ← snapshotDelivery record.id
        f record) (fun _ w' => w'.2.Filed) w := by
  rw [Alone, Thread.steps_bind]
  apply (alone_adoptActivation hw).mono
  rintro (_ | ⟨⟩) w' hfiled
  · exact hfiled
  · dsimp only
    rw [Thread.steps_bind]
    apply (alone_snapshotDelivery hfiled hw.named).mono
    exact hf

end Activation

/-! Exchanges with the target. -/

section Session

variable {id : DeploymentId} {record : DeliveryRecord} {w : World} {session : SessionContext} {rounds : ℕ}

theorem Held.frame (h : Held id record w) (sent : List Request) : Held id record (sent, w.2) :=
  ⟨h.filed, h.named, h.current⟩

variable (hw : Held id record w)

include hw

theorem alone_failed {code : ErrorCode} {detail : Bytes} {cause : Cause} :
    Alone (Tends id) (do return (← recordFailure record code detail cause).1) (fun _ w' => w'.2.Filed) w := by
  rw [Alone, Thread.steps_bind]
  exact (alone_recordFailure hw).mono fun _ _ h => h.1

theorem alone_retired {reason : Bytes} {cause : Cause} :
    Alone (Tends id) (do return (← recordRetired record reason cause).1) (fun _ w' => w'.2.Filed) w := by
  rw [Alone, Thread.steps_bind]
  exact alone_recordRetired hw

theorem alone_rejected {code : ErrorCode} {detail : Bytes} {cause : Cause} :
    Alone (Tends id) (do return (← recordRejected record code detail cause).1) (fun _ w' => w'.2.Filed) w := by
  rw [Alone, Thread.steps_bind]
  exact alone_recordRejected hw

omit hw in
/-- The step has been taken, or the delivery ends with a status. -/
def Passed (id : DeploymentId) (x : Except Status DeliveryRecord) (w : World) : Prop :=
  w.2.Filed ∧ ∀ r, x = .ok r → Held id r w

theorem alone_stopped {code : ErrorCode} {detail : Bytes} {cause : Cause} :
    Alone (Tends id) (do return .error (← recordFailure record code detail cause).1) (Passed id) w := by
  rw [Alone, Thread.steps_bind]
  exact (alone_recordFailure hw).mono fun _ _ h => ⟨h.1, fun _ hr => nomatch hr⟩

theorem passed_error {status : Status} : Passed id (.error status) w := ⟨hw.filed, fun _ h => nomatch h⟩

theorem alone_stageDelivery : Alone (Tends id) (stageDelivery session record) (Passed id) w := by
  rw [stageDelivery, Alone, Thread.steps_bind]
  apply alone_transmit tends_quiet
  rintro (_ | ⟨⟩) sent
  · exact passed_error (hw.frame sent)
  dsimp only
  rw [Thread.steps_bind]
  apply alone_hear tends_quiet
  intro r sent
  have hw' : Held id record (sent, w.2) := hw.frame sent
  split
  · exact passed_error hw'
  · exact alone_stopped hw'
  · split
    · exact alone_stopped hw'
    · rw [Thread.steps_bind]
      apply (alone_recordTransition hw').mono
      rintro ⟨_ | ⟨⟩, staged⟩ w' ⟨hfiled, hheld⟩
      · exact ⟨hfiled, fun _ h => by cases h⟩
      · refine ⟨hfiled, fun r hr => ?_⟩
        cases hr
        exact hheld rfl
  · exact passed_error hw'

theorem alone_prepareApply : Alone (Tends id) (prepareApply session record) (Passed id) w := by
  rw [prepareApply, Alone, Thread.steps_bind]
  apply alone_transmit tends_quiet
  rintro (_ | ⟨⟩) sent
  · exact passed_error (hw.frame sent)
  dsimp only
  rw [Thread.steps_bind]
  apply alone_hear tends_quiet
  intro r sent
  have hw' : Held id record (sent, w.2) := hw.frame sent
  split
  · exact passed_error hw'
  · exact alone_stopped hw'
  · split
    · exact alone_stopped hw'
    · rw [Thread.steps_bind]
      apply (alone_noteEvent hw').mono
      rintro ⟨_ | ⟨⟩, prepared⟩ w' ⟨hfiled, hheld⟩
      · exact ⟨hfiled, fun _ h => by cases h⟩
      · refine ⟨hfiled, fun r hr => ?_⟩
        cases hr
        exact hheld rfl
  · exact passed_error hw'

omit hw in
theorem alone_awaitAcknowledgement (hw : Held id record w) :
    Alone (Tends id) (awaitAcknowledgement session record rounds) (fun _ w' => w'.2.Filed) w := by
  induction rounds generalizing w with
  | zero => trivial
  | succ rounds ih =>
    rw [awaitAcknowledgement, Alone, Thread.steps_bind]
    apply alone_hear tends_quiet
    intro r sent
    have hw' : Held id record (sent, w.2) := hw.frame sent
    split
    · split
      · exact hw'.filed
      · exact hw'.filed
    · split
      · exact hw'.filed
      split
      · exact hw'.filed
      · apply alone_adopted hw'
        intro r w'' hr
        rw [Alone, Thread.steps_bind]
        apply alone_epoch
        exact alone_acknowledge hr
    · exact alone_failed hw'
    · rw [Thread.steps_bind]
      apply alone_transmit tends_quiet
      rintro (_ | ⟨⟩) sent'
      · exact hw'.filed
      · exact ih (hw'.frame sent')
    · exact hw'.filed

theorem alone_commitApply :
    Alone (Tends id) (commitApply rounds session record) (fun _ w' => w'.2.Filed) w := by
  rw [commitApply, Alone, Thread.steps_bind]
  apply alone_transmit tends_quiet
  rintro (_ | ⟨⟩) sent
  · exact hw.filed
  dsimp only
  rw [Thread.steps_bind]
  apply alone_hear tends_quiet
  intro r sent
  have hw' : Held id record (sent, w.2) := hw.frame sent
  split
  · exact hw'.filed
  · split
    · exact alone_retired hw'
    · exact alone_failed hw'
  · split
    · exact alone_failed hw'
    split
    · exact alone_failed hw'
    · exact alone_adopted hw' fun _ _ hr => alone_awaitAcknowledgement hr
  · exact hw'.filed

theorem alone_activateDelivery :
    Alone (Tends id) (activateDelivery rounds session record) (fun _ w' => w'.2.Filed) w := by
  have hstage : Alone (Tends id) (stageIfVerified session record) (Passed id) w := by
    rw [stageIfVerified]
    split
    · exact alone_stageDelivery hw
    · exact ⟨hw.filed, fun r hr => by cases hr; exact hw⟩
  rw [activateDelivery, Alone, Thread.steps_bind]
  apply hstage.mono
  rintro (status | staged) w₁ ⟨hfiled₁, hheld₁⟩
  · exact hfiled₁
  have hw₁ : Held id staged w₁ := hheld₁ staged rfl
  have hprepare : Alone (Tends id) (prepareIfGuaranteed session staged) (Passed id) w₁ := by
    rw [prepareIfGuaranteed]
    split
    · exact alone_prepareApply hw₁
    · exact ⟨hw₁.filed, fun r hr => by cases hr; exact hw₁⟩
  dsimp only
  rw [Thread.steps_bind]
  apply hprepare.mono
  rintro (status | prepared) w₂ ⟨hfiled₂, hheld₂⟩
  · exact hfiled₂
  · exact alone_commitApply (hheld₂ prepared rfl)

/-! Transfer. -/

variable {prepare : PrepareMessage}

omit hw in
theorem alone_streamChunks {offset : ℕ} (hw : Held id record w) :
    Alone (Tends id) (streamChunks session prepare record rounds offset)
      (fun x w' => w'.2.Filed ∧ (x = none → Held id record w')) w := by
  have hended {w : World} {code : ErrorCode} {detail : Bytes} {cause : Cause} (hw : Held id record w) :
      Alone (Tends id) (do return some (← recordFailure record code detail cause).1)
        (fun x w' => w'.2.Filed ∧ (x = none → Held id record w')) w := by
    rw [Alone, Thread.steps_bind]
    exact (alone_recordFailure hw).mono fun _ _ h => ⟨h.1, fun hnone => by cases hnone⟩
  induction rounds generalizing w offset with
  | zero => trivial
  | succ rounds ih =>
    rw [streamChunks]
    split
    · exact ⟨hw.filed, fun _ => hw⟩
    rw [Alone, Thread.steps_bind]
    apply alone_ask
    intro i
    split
    · exact ⟨hw.filed, fun h => by cases h⟩
    rw [Thread.steps_bind]
    apply alone_ask
    intro j
    split
    · exact hended hw
    split
    · exact hended hw
    rw [Thread.steps_bind]
    apply alone_transmit tends_quiet
    rintro (_ | ⟨⟩) sent
    · exact ⟨hw.filed, fun h => by cases h⟩
    dsimp only
    rw [Thread.steps_bind]
    apply alone_hear tends_quiet
    intro r sent
    have hw' : Held id record (sent, w.2) := hw.frame sent
    split
    · exact ⟨hw'.filed, fun h => by cases h⟩
    · exact hended hw'
    · split
      · exact ⟨hw'.filed, fun h => by cases h⟩
      split
      · exact hended hw'
      split
      · exact hended hw'
      · exact ih hw'
    · exact ⟨hw'.filed, fun h => by cases h⟩

theorem alone_verifyTransfer :
    Alone (Tends id) (verifyTransfer rounds session record) (fun _ w' => w'.2.Filed) w := by
  rw [verifyTransfer, Alone, Thread.steps_bind]
  apply alone_hear tends_quiet
  intro r sent
  have hw' : Held id record (sent, w.2) := hw.frame sent
  split
  · exact hw'.filed
  · exact alone_failed hw'
  · split
    · exact alone_failed hw'
    · rw [Thread.steps_bind]
      apply (alone_recordTransition hw').mono
      rintro ⟨_ | ⟨⟩, verified⟩ w'' ⟨hfiled, hheld⟩
      · exact hfiled
      · exact alone_activateDelivery (hheld rfl)
  · exact hw'.filed

theorem alone_completeTransfer :
    Alone (Tends id) (completeTransfer rounds session prepare record) (fun _ w' => w'.2.Filed) w := by
  rw [completeTransfer, Alone, Thread.steps_bind]
  apply alone_transmit tends_quiet
  rintro (_ | ⟨⟩) sent
  · exact hw.filed
  have hw' : Held id record (sent, w.2) := hw.frame sent
  dsimp only
  split
  · rw [Thread.steps_bind]
    apply (alone_recordTransition hw').mono
    rintro ⟨_ | ⟨⟩, transferred⟩ w'' ⟨hfiled, hheld⟩
    · exact hfiled
    · exact alone_verifyTransfer (hheld rfl)
  · exact alone_verifyTransfer hw'

theorem alone_noteResume {resumeFrom : ℕ} : Alone (Tends id) (noteResume record resumeFrom) (Kept id) w := by
  rw [noteResume]
  split
  · exact alone_noteEvent hw
  · exact ⟨hw.filed, fun _ => hw⟩

theorem alone_transferArtifact {resumeFrom : ℕ} :
    Alone (Tends id) (transferArtifact rounds session prepare record resumeFrom) (fun _ w' => w'.2.Filed) w := by
  rw [transferArtifact, Alone, Thread.steps_bind]
  apply alone_ask
  intro i
  split
  · exact alone_failed hw
  rw [Thread.steps_bind]
  apply (alone_noteResume hw).mono
  rintro ⟨_ | ⟨⟩, noted⟩ w₁ ⟨hfiled, hheld⟩
  · exact hfiled
  dsimp only
  rw [Thread.steps_bind]
  apply (alone_streamChunks (hheld rfl)).mono
  rintro (_ | status) w₂ ⟨hfiled₂, hheld₂⟩
  · exact alone_completeTransfer (hheld₂ rfl)
  · exact hfiled₂

theorem alone_awaitPrepare :
    Alone (Tends id) (awaitPrepare rounds session prepare record) (fun _ w' => w'.2.Filed) w := by
  rw [awaitPrepare, Alone, Thread.steps_bind]
  apply alone_hear tends_quiet
  intro r sent
  have hw' : Held id record (sent, w.2) := hw.frame sent
  split
  · exact hw'.filed
  · split
    · exact hw'.filed
    split
    · exact alone_adopted hw' fun _ _ hr => alone_acknowledge hr
    · exact alone_transferArtifact hw'
  · split
    · exact alone_rejected hw'
    split
    · exact alone_retired hw'
    split
    · exact alone_rejected hw'
    · exact alone_failed hw'
  · exact alone_failed hw'
  · exact hw'.filed

theorem alone_offerAndTransfer {o : DistributorOptions} :
    Alone (Tends id) (offerAndTransfer o rounds session record) (fun _ w' => w'.2.Filed) w := by
  rw [offerAndTransfer, Alone, Thread.steps_bind]
  apply alone_epoch
  rw [Thread.steps_bind]
  apply alone_transmit tends_quiet
  rintro (_ | ⟨⟩) sent
  · exact hw.filed
  have hw' : Held id record (sent, w.2) := hw.frame sent
  dsimp only
  split
  · rw [Thread.steps_bind]
    apply (alone_recordTransition hw').mono
    rintro ⟨_ | ⟨⟩, offered⟩ w'' ⟨hfiled, hheld⟩
    · exact hfiled
    · exact alone_awaitPrepare (hheld rfl)
  · exact alone_awaitPrepare hw'

theorem alone_giveUp {reason : String} : Alone (Tends id) (giveUp record reason) (fun _ w' => w'.2.Filed) w := by
  rw [giveUp]
  split
  · exact hw.filed
  · rw [Alone, Thread.steps_bind]
    apply (alone_recordTransition hw).mono
    rintro ⟨_ | ⟨⟩, failed⟩ w' ⟨hfiled, hheld⟩
    · exact hfiled
    · exact alone_upsertDelivery (hheld rfl)

theorem alone_offerDelivery {o : DistributorOptions} :
    Alone (Tends id) (offerDelivery o rounds session record) (fun _ w' => w'.2.Filed) w := by
  rw [offerDelivery]
  split
  · rw [Alone, Thread.steps_bind]
    apply (alone_recordTransition hw).mono
    rintro ⟨_ | ⟨⟩, retried⟩ w' ⟨hfiled, hheld⟩
    · exact hfiled
    · exact alone_offerAndTransfer (hheld rfl)
  · exact alone_offerAndTransfer hw

end Session

/-! Many deliveries. -/

/-- Nothing but this delivery has been written. -/
def Spares (id : DeploymentId) (w w' : World) : Prop :=
  ∀ id', id' ≠ id → w'.2.mem.findDelivery id' = w.2.mem.findDelivery id'

theorem Alone.orderly {α : Type} {id : DeploymentId} {p : Worker α} {Q : α → World → Prop} {w : World}
    (h : Alone (Tends id) p Q w) : Alone Orderly p (fun a w' => Q a w' ∧ Spares id w w') w := by
  apply h.trail
  · exact fun _ _ _ => Tends.orderly
  · exact fun _ _ _ => Tends.others
  · exact fun _ _ _ h h' id' hid => (h' id' hid).trans (h id' hid)
  · exact fun _ _ => rfl

theorem orderly_quiet (w : World) (sent : List Request) : Orderly w (sent, w.2) := by
  have htends : Tends [] w (sent, w.2) := tends_quiet w sent
  exact htends.orderly

/-- Copies of stored deliveries, one of each. -/
structure Copied (records : List DeliveryRecord) (w : World) : Prop where
  filed : w.2.Filed
  distinct : records.Pairwise fun a b => a.id ≠ b.id
  held : ∀ r ∈ records, Held r.id r w

/-- The deliveries of the list may have been written. -/
structure Treated (records : List DeliveryRecord) (w w' : World) : Prop where
  filed : w'.2.Filed
  others : ∀ id, (∀ r ∈ records, r.id ≠ id) → w'.2.mem.findDelivery id = w.2.mem.findDelivery id

theorem treated_refl {records : List DeliveryRecord} {w : World} (h : w.2.Filed) : Treated records w w :=
  ⟨h, fun _ _ => rfl⟩

theorem distinct_stored {s : ControllerState} (h : s.Filed) :
    (s.deliveries.map (·.2)).Pairwise fun a b => a.id ≠ b.id := by
  rw [List.pairwise_map]
  apply h.sorted.imp_of_mem
  intro a b ha hb hlt heq
  rw [h.deliveries a ha, h.deliveries b hb] at heq
  rw [heq] at hlt
  exact List.lt_irrefl _ hlt

section Many

variable {w : World} {record : DeliveryRecord} {records : List DeliveryRecord}

theorem copied_of_stored (h : w.2.Filed) (hdistinct : records.Pairwise fun a b => a.id ≠ b.id)
    (hstored : ∀ r ∈ records, r ∈ w.2.mem.deliveries.map (·.2)) : Copied records w := by
  refine ⟨h, hdistinct, fun r hr => ?_⟩
  obtain ⟨e, he, rfl⟩ := List.mem_map.mp (hstored r hr)
  apply Held.stored h
  rw [h.mem.deliveries e he]
  exact SortedMap.find_of_mem h.mem.sorted he

theorem copied_filter (h : w.2.Filed) (f : DeliveryRecord → Bool) :
    Copied ((w.2.mem.deliveries.map (·.2)).filter f) w := by
  apply copied_of_stored h
  · exact (distinct_stored h.mem).filter f
  · exact fun _ => List.mem_of_mem_filter

theorem copied_deliveriesOf (h : w.2.Filed) (target : TargetId) : Copied (deliveriesOf target w.2.mem) w := by
  have hfiltered := copied_filter h fun r => r.target == target
  apply copied_of_stored h
  · exact ((List.perm_insertionSort precedes _).pairwise_iff fun hne heq => hne heq.symm).mpr hfiltered.distinct
  · exact fun _ hr => List.mem_of_mem_filter ((List.mem_insertionSort _).mp hr)

theorem Copied.tail (h : Copied (record :: records) w) {w' : World} (hfiled : w'.2.Filed)
    (hw : Spares record.id w w') : Copied records w' := by
  obtain ⟨hfirst, hrest⟩ := List.pairwise_cons.mp h.distinct
  exact ⟨hfiled, hrest, fun r hr =>
    (h.held r (List.mem_cons_of_mem _ hr)).moved hfiled (hw r.id (hfirst r hr).symm)⟩

/-- The first delivery of the list, then the others. -/
theorem alone_cons {α β : Type} {p : Worker α} {K : α → Worker β} (hw : Copied (record :: records) w)
    (hp : Alone (Tends record.id) p (fun _ w' => w'.2.Filed) w)
    (hK : ∀ a w', Copied records w' → Alone Orderly (K a) (fun _ => Treated records w') w') :
    Alone Orderly (p >>= K) (fun _ => Treated (record :: records) w) w := by
  rw [Alone, Thread.steps_bind]
  apply hp.orderly.mono
  rintro a w' ⟨hfiled, hspares⟩
  apply (hK a w' (hw.tail hfiled hspares)).mono
  rintro _ w'' ⟨hfiled', hothers⟩
  refine ⟨hfiled', fun id hid => ?_⟩
  obtain ⟨hfirst, hrest⟩ := List.forall_mem_cons.mp hid
  exact (hothers id hrest).trans (hspares id hfirst.symm)

theorem alone_failAll {code : ErrorCode} {detail : Bytes} (hw : Copied records w) :
    Alone Orderly (failAll code detail records) (fun _ => Treated records w) w := by
  induction records generalizing w with
  | nil => exact treated_refl hw.filed
  | cons record rest ih =>
    apply alone_cons hw
    · exact (alone_recordFailure (hw.held record List.mem_cons_self)).mono fun _ _ h => h.1
    · exact fun _ _ hw' => ih hw'

theorem alone_rearm {newTerm : Term} (hw : Copied records w) :
    Alone Orderly (rearm newTerm records) (fun _ => Treated records w) w := by
  induction records generalizing w with
  | nil => exact treated_refl hw.filed
  | cons record rest ih =>
    apply alone_cons hw
    · apply Thread.Steps.mono (alone_noteEvent ?_) fun _ _ h => h.1
      exact (hw.held record List.mem_cons_self).edit rfl rfl rfl
    · rintro ⟨_ | ⟨⟩, rearmed⟩ w' hw'
      · exact treated_refl hw'.filed
      · exact ih hw'

theorem alone_retireAll {reason : Bytes} (hw : Copied records w) :
    Alone Orderly (retireAll reason records) (fun _ => Treated records w) w := by
  induction records generalizing w with
  | nil => exact treated_refl hw.filed
  | cons record rest ih =>
    apply alone_cons hw
    · exact alone_recordRetired (hw.held record List.mem_cons_self)
    · rintro ⟨_ | ⟨⟩, retired⟩ w' hw'
      · exact treated_refl hw'.filed
      · exact ih hw'

end Many

end Distributor

end ConfigurationFabric
