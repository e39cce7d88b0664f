import ConfigurationFabric.DistributorControl

/-! What the distributor's threads write and send, whatever the others do in between. -/

namespace ConfigurationFabric

open LittleEndian
open Threads

/-! Every record is filed under its own name. -/

structure ControllerState.Filed (s : ControllerState) : Prop where
  deliveries : ∀ e ∈ s.deliveries, e.2.id = e.1
  targets : ∀ e ∈ s.targets, e.2.id = e.1
  sorted : SortedMap.Sorted s.deliveries

/-- The boot of a target that the controller has seen last. -/
structure Fence where
  term : Term
  incarnation : IncarnationId
  deriving DecidableEq

def TargetRuntime.fence (runtime : TargetRuntime) : Fence := ⟨runtime.term, runtime.incarnation⟩

def HelloAckMessage.fence (ack : HelloAckMessage) : Fence := ⟨ack.term, ack.incarnation⟩

/-- Terms grow, and a term keeps the incarnation it came with. -/
def Fence.Follows (f g : Fence) : Prop := f.term ≤ g.term ∧ (f.term = g.term → f.incarnation.isSet → g.incarnation = f.incarnation)

def ControllerState.fence (s : ControllerState) (target : TargetId) : Fence := ((s.findTarget target).getD {}).fence

theorem Fence.follows_refl (f : Fence) : f.Follows f := ⟨le_refl _, fun _ _ => rfl⟩

theorem Fence.Follows.trans {f g h : Fence} (hfg : f.Follows g) (hgh : g.Follows h) : f.Follows h := by
  refine ⟨le_trans hfg.1 hgh.1, fun heq hset => ?_⟩
  have hterm : f.term = g.term := le_antisymm hfg.1 (heq ▸ hgh.1)
  have hincarnation : g.incarnation = f.incarnation := hfg.2 hterm hset
  rw [← hincarnation] at hset ⊢
  exact hgh.2 (hterm.symm.trans heq) hset

namespace ControllerState.Filed

variable {s : ControllerState}

theorem delivery (h : s.Filed) {id : DeploymentId} {r : DeliveryRecord} (hr : s.findDelivery id = some r) : r.id = id :=
  h.deliveries (id, r) (SortedMap.find_mem hr)

theorem target (h : s.Filed) {id : TargetId} {r : TargetRuntime} (hr : s.findTarget id = some r) : r.id = id :=
  h.targets (id, r) (SortedMap.find_mem hr)

theorem initial : ControllerState.Filed {} where
  deliveries _ he := absurd he List.not_mem_nil
  targets _ he := absurd he List.not_mem_nil
  sorted := List.Pairwise.nil

theorem insertTarget (h : s.Filed) (id : TargetId) {runtime : TargetRuntime} (hid : runtime.id = id) :
    ControllerState.Filed { s with targets := s.targets.insert id runtime } where
  deliveries := h.deliveries
  targets e he := by
    obtain rfl | he := SortedMap.mem_insert he
    · exact hid
    · exact h.targets e he
  sorted := h.sorted

theorem apply (h : s.Filed) (r : ControllerRecord) : (r.apply s).Filed := by
  cases r with
  | identity => exact ⟨h.deliveries, h.targets, h.sorted⟩
  | targetUpsert runtime => exact h.insertTarget _ rfl
  | deliveryUpsert record =>
    refine ⟨fun e he => ?_, h.targets, SortedMap.sorted_insert h.sorted _ _⟩
    obtain rfl | he := SortedMap.mem_insert he
    · rfl
    · exact h.deliveries e he
  | deliveryRemove id =>
    exact ⟨fun e he => h.deliveries e (SortedMap.mem_erase he).1, h.targets, SortedMap.sorted_erase h.sorted id⟩
  | artifactUpsert => exact ⟨h.deliveries, h.targets, h.sorted⟩

theorem markContact (h : s.Filed) (target : TargetId) (current : Bool) (atMillis : ℤ) :
    (Distributor.markContact target current atMillis s).Filed := by
  rw [Distributor.markContact]
  split
  · exact h
  next runtime hfind => exact h.insertTarget target (h.targets (target, runtime) (SortedMap.find_mem hfind))

end ControllerState.Filed

/-- In memory and in the journal. -/
structure Controller.Filed (c : Controller) : Prop where
  mem : c.mem.Filed
  dur : c.dur.Filed

theorem Controller.Filed.commit {c : Controller} (h : c.Filed) {durable : Bool} {r : ControllerRecord} :
    (c.commit durable r).Filed := by
  refine ⟨h.mem.apply r, ?_⟩
  cases durable with
  | false => exact h.dur
  | true => exact h.dur.apply r

/-! Where a thread runs: what it may rely on and must keep to. -/

namespace Distributor

/-- A commit leaves no trace, or is one write. -/
theorem commit_steps {ε : Type} {O : Outside ε Controller Choice Request (Result Incoming)}
    {rely : ε × Controller → ε × Controller → Prop} {G : Option Copy → ε × Controller → ε × Controller → Prop}
    {w : ε × Controller} (htrans : ∀ w w' w'', rely w w' → rely w' w'' → rely w w'') {copy : Copy}
    {make : ControllerState → ControllerRecord} {Q : Status × ControllerState → ε × Controller → Prop}
    (hrefused : ∀ w' e, rely w w' → Q (.error e, w'.2.mem) w')
    (hwrite : ∀ w' status durable, rely w w' → (status = .ok () → durable = true) →
      G (some copy) w' (w'.1, w'.2.commit durable (make w'.2.mem)) ∧
        Q (status, w'.2.mem) (w'.1, w'.2.commit durable (make w'.2.mem))) :
    (commit copy make).Steps O rely G Q w := by
  intro w₁ i hrely₁ _
  obtain ⟨now, stop, status, artifact, outcome, bytes, present, random⟩ := i
  cases outcome with
  | refused e => exact fun w₂ hrely₂ => hrefused w₂ e (htrans _ _ _ hrely₁ hrely₂)
  | failed e durable => exact fun w₂ hrely₂ => hwrite w₂ (.error e) durable (htrans _ _ _ hrely₁ hrely₂) (by simp)
  | done => exact fun w₂ hrely₂ => hwrite w₂ (.ok ()) true (htrans _ _ _ hrely₁ hrely₂) fun _ => rfl

/-- `asked` and `heard` are about the frames of a session: what stands unread answers a request about this delivery, and
the frame read last did. The fence of a target in `own` is the thread's to move, and where `fenced` nobody else moves
it. -/
structure Setting (ε : Type) where
  O : Outside ε Controller Choice Request (Result Incoming)
  rely : ε × Controller → ε × Controller → Prop
  G : Option Copy → ε × Controller → ε × Controller → Prop
  asked : Option DeploymentId → ε → Prop
  heard : Option DeploymentId → ε → Prop
  reported : ε → Prop
  own : TargetId → Prop
  fenced : Prop
  trans : ∀ {w w' w''}, rely w w' → rely w' w'' → rely w w''
  filed : ∀ {w w'}, rely w w' → w'.2.mem.Filed
  epoch : ∀ {w w'}, rely w w' → w'.2.mem.epoch = w.2.mem.epoch
  fence : ∀ {w w' id}, fenced → own id → rely w w' → w'.2.mem.fence id = w.2.mem.fence id
  asked_rely : ∀ {w w' a}, rely w w' → asked a w.1 → asked a w'.1
  heard_rely : ∀ {w w' a}, rely w w' → heard a w.1 → heard a w'.1
  reported_rely : ∀ {w w'}, rely w w' → reported w.1 → reported w'.1
  emit : ∀ {m w e}, O.emit m w e → w.2.mem.Filed →
    (∀ hello, m.frame = .message (.hello hello) → hello.epoch = w.2.mem.epoch) →
    G none w (e, w.2) ∧ asked m.about e ∧ (∀ a, heard a w.1 → heard a e) ∧ (reported w.1 → reported e)
  receive : ∀ {r w e}, O.receive r w e → w.2.mem.Filed → G none w (e, w.2) ∧ (reported w.1 → reported e) ∧
    ∀ a, asked a w.1 → asked a e ∧ (∀ reply, r = .ok (.reply reply) → heard a e) ∧
      (a = none → ∀ report, r = .ok (.reply (.reconcileReport report)) → reported e)
  delivery : ∀ {copy cause durable w} {make : ControllerState → DeliveryRecord}, w.2.mem.Filed → copy.id ≠ [] →
    (∀ s, (make s).id = copy.id) → (copy.state = .retired → ∀ s, (make s).state = .retired) →
    (cause = .frame → heard (some copy.id) w.1) → (cause = .report → reported w.1) →
    G (some (.delivery copy cause)) w (w.1, w.2.commit durable (.deliveryUpsert (make w.2.mem)))
  target : ∀ {id copy runtime durable w}, w.2.mem.Filed → runtime.id = id → runtime.fence = (copy.getD {}).fence →
    G (some (.target id copy)) w (w.1, w.2.commit durable (.targetUpsert runtime))
  adopt : ∀ {id copy runtime durable w}, w.2.mem.Filed → own id → runtime.id = id →
    (fenced → (copy.getD {}).fence.Follows runtime.fence) →
    G (some (.target id copy)) w (w.1, w.2.commit durable (.targetUpsert runtime))
  contact : ∀ {target current atMillis w}, w.2.mem.Filed →
    G (some .own) w (w.1, { w.2 with mem := markContact target current atMillis w.2.mem })
  remove : ∀ {id durable w}, w.2.mem.Filed → G (some .own) w (w.1, w.2.commit durable (.deliveryRemove id))
  artifact : ∀ {metadata durable w}, w.2.mem.Filed →
    G (some .own) w (w.1, w.2.commit durable (.artifactUpsert metadata))
  compact : ∀ {w}, w.2.mem.Filed → G (some .own) w (w.1, { w.2 with dur := w.2.mem })

namespace Setting

variable {ε α β : Type} (S : Setting ε)

abbrev Steps (p : Worker α) (Q : α → ε × Controller → Prop) (w : ε × Controller) : Prop := p.Steps S.O S.rely S.G Q w

/-- It keeps to the guarantee, whatever it ends with. -/
def Runs (p : Worker α) : Prop := ∀ w, S.Steps p (fun _ _ => True) w

variable {S} {w : ε × Controller}

theorem runs_bind {p : Worker α} {f : α → Worker β} (hp : S.Runs p) (hf : ∀ a, S.Runs (f a)) : S.Runs (p >>= f) := by
  intro w
  rw [Setting.Steps, Thread.steps_bind]
  exact (hp w).mono fun a w' _ => hf a w'

theorem runs_pure (a : α) : S.Runs (pure a : Worker α) := fun _ => trivial

/-- A status is looked at, and what follows depends on it. -/
theorem runs_check {p : Worker Status} {f : Status → Worker α} (hp : S.Runs p) (herror : ∀ e, S.Runs (f (.error e)))
    (hok : S.Runs (f (.ok ()))) : S.Runs (p >>= f) := by
  apply runs_bind hp
  rintro (e | ⟨⟩)
  · exact herror e
  · exact hok

/-! One operation at a time. -/

theorem steps_clock {Q : ℤ → ε × Controller → Prop} (h : ∀ w' now, S.rely w w' → Q now w') : S.Steps clock Q w :=
  fun w' i hrely _ => h w' i.now hrely

theorem steps_ask {Q : Choice → ε × Controller → Prop} (h : ∀ w' i, S.rely w w' → Q i w') : S.Steps Thread.ask Q w :=
  fun w' i hrely _ => h w' i hrely

theorem steps_state {Q : ControllerState → ε × Controller → Prop} (h : ∀ w', S.rely w w' → Q w'.2.mem w') :
    S.Steps state Q w := h

theorem steps_epoch {Q : Epoch → ε × Controller → Prop} (h : ∀ w', S.rely w w' → Q w'.2.mem.epoch w') :
    S.Steps Distributor.epoch Q w := h

theorem steps_commit {copy : Copy} {make : ControllerState → ControllerRecord}
    {Q : Status × ControllerState → ε × Controller → Prop} (hrefused : ∀ w' e, S.rely w w' → Q (.error e, w'.2.mem) w')
    (hwrite : ∀ w' status durable, S.rely w w' → (status = .ok () → durable = true) →
      S.G (some copy) w' (w'.1, w'.2.commit durable (make w'.2.mem)) ∧
        Q (status, w'.2.mem) (w'.1, w'.2.commit durable (make w'.2.mem))) :
    S.Steps (commit copy make) Q w := by
  apply commit_steps
  · exact fun _ _ _ => S.trans
  · exact hrefused
  · exact hwrite

theorem steps_transmit {request : Request} {Q : Status → ε × Controller → Prop}
    (hhello : ∀ hello, request.frame = .message (.hello hello) → hello.epoch = w.2.mem.epoch)
    (herror : ∀ w' e, S.rely w w' → Q (.error e) w')
    (hsent : ∀ w' e, S.rely w w' → S.asked request.about e → (∀ a, S.heard a w.1 → S.heard a e) →
      (S.reported w.1 → S.reported e) → Q (.ok ()) (e, w'.2)) :
    S.Steps (transmit request) Q w := by
  intro w₁ i hrely₁ _
  obtain ⟨now, stop, status, artifact, outcome, bytes, present, random⟩ := i
  cases status with
  | error e => exact herror w₁ e hrely₁
  | ok =>
    intro w₂ e hrely₂ hemit
    have hrely : S.rely w w₂ := S.trans hrely₁ hrely₂
    obtain ⟨hG, hasked, hheard, hreported⟩ := S.emit hemit (S.filed hrely) fun hello hframe =>
      (hhello hello hframe).trans (S.epoch hrely).symm
    exact ⟨hG, hsent w₂ e hrely hasked (fun a ha => hheard a (S.heard_rely hrely ha)) fun hr =>
      hreported (S.reported_rely hrely hr)⟩

theorem steps_hear {Q : Result Incoming → ε × Controller → Prop} {a : Option DeploymentId} (ha : S.asked a w.1)
    (h : ∀ w' e r, S.rely w w' → S.asked a e → (∀ reply, r = .ok (.reply reply) → S.heard a e) →
      (a = none → ∀ report, r = .ok (.reply (.reconcileReport report)) → S.reported e) → Q r (e, w'.2)) :
    S.Steps Thread.hear Q w := by
  intro w' r e hrely hreceive
  obtain ⟨hG, -, hask⟩ := S.receive hreceive (S.filed hrely)
  obtain ⟨hasked, hheard, hreported⟩ := hask a (S.asked_rely hrely ha)
  exact ⟨hG, h w' e r hrely hasked hheard hreported⟩

/-! What holds throughout. -/

/-- As `asked` and `heard`; no delivery is written without a name. -/
def askedOf (S : Setting ε) (id : DeploymentId) (e : ε) : Prop := id ≠ [] → S.asked (some id) e

def heardOf (S : Setting ε) (id : DeploymentId) (e : ε) : Prop := id ≠ [] → S.heard (some id) e

theorem askedOf_rely {id : DeploymentId} (w w' : ε × Controller) (hrely : S.rely w w') (h : S.askedOf id w.1) :
    S.askedOf id w'.1 := fun hid => S.asked_rely hrely (h hid)

theorem heardOf_rely {id : DeploymentId} (w w' : ε × Controller) (hrely : S.rely w w') (h : S.heardOf id w.1) :
    S.heardOf id w'.1 := fun hid => S.heard_rely hrely (h hid)

/-- It survives the other threads, and the deliveries this one writes. -/
structure Stable (S : Setting ε) (R : ε × Controller → Prop) : Prop where
  rely : ∀ {w w'}, S.rely w w' → R w → R w'
  delivery : ∀ {w durable record}, R w → R (w.1, w.2.commit durable (.deliveryUpsert record))

/-- While `R` holds, a delivery may be written for this cause. -/
def Grounds (S : Setting ε) (R : ε × Controller → Prop) (cause : Cause) (id : DeploymentId) : Prop :=
  (cause = .frame → ∀ w, R w → S.heardOf id w.1) ∧ (cause = .report → ∀ w, R w → S.reported w.1)

def Within (S : Setting ε) (R : ε × Controller → Prop) (p : Worker α) (T : α → Prop) : Prop :=
  ∀ w, R w → S.Steps p (fun a w' => T a ∧ R w') w

variable {R : ε × Controller → Prop}

theorem Stable.env {E : ε → Prop} (h : ∀ w w', S.rely w w' → E w.1 → E w'.1) : S.Stable fun w => E w.1 :=
  ⟨h _ _, id⟩

theorem Stable.heardOf (id : DeploymentId) : S.Stable fun w => S.heardOf id w.1 := Stable.env heardOf_rely

theorem stable_both {id : DeploymentId} : S.Stable fun w => S.askedOf id w.1 ∧ S.heardOf id w.1 :=
  ⟨fun hrely h => ⟨askedOf_rely _ _ hrely h.1, heardOf_rely _ _ hrely h.2⟩, fun h => h⟩

theorem Stable.reported : S.Stable fun w => S.reported w.1 := ⟨S.reported_rely, id⟩

theorem Stable.always : S.Stable fun _ => True := ⟨fun _ _ => trivial, fun _ => trivial⟩

theorem grounds_own (id : DeploymentId) : S.Grounds R .own id := ⟨nofun, nofun⟩

theorem grounds_frame (id : DeploymentId) : S.Grounds (fun w => S.heardOf id w.1) .frame id :=
  ⟨fun _ _ h => h, nofun⟩

theorem grounds_both (id : DeploymentId) : S.Grounds (fun w => S.askedOf id w.1 ∧ S.heardOf id w.1) .frame id :=
  ⟨fun _ _ h => h.2, nofun⟩

theorem grounds_report (id : DeploymentId) : S.Grounds (fun w => S.reported w.1) .report id :=
  ⟨nofun, fun _ _ h => h⟩

theorem Within.bind {p : Worker α} {f : α → Worker β} {T : α → Prop} {U : β → Prop} (hp : S.Within R p T)
    (hf : ∀ a, T a → S.Within R (f a) U) : S.Within R (p >>= f) U := Thread.Within.bind hp hf

theorem Within.mono {p : Worker α} {T U : α → Prop} (hp : S.Within R p T) (h : ∀ a, T a → U a) : S.Within R p U :=
  Thread.Within.mono hp h

theorem within_pure {T : α → Prop} {a : α} (h : T a) : S.Within R (pure a : Worker α) T := fun _ hw => ⟨h, hw⟩

theorem within_clock (hR : S.Stable R) : S.Within R clock fun _ => True :=
  fun _ hw => steps_clock fun _ _ hrely => ⟨trivial, hR.rely hrely hw⟩

theorem within_state (hR : S.Stable R) : S.Within R state ControllerState.Filed :=
  fun _ hw => steps_state fun _ hrely => ⟨S.filed hrely, hR.rely hrely hw⟩

/-! Evidence on a delivery. -/

section Evidence

variable {cause : Cause}

theorem within_commitDelivery (hR : S.Stable R) {copy : DeliveryRecord} (hcause : S.Grounds R cause copy.id)
    {make : ControllerState → DeliveryRecord} (hid : ∀ s, (make s).id = copy.id)
    (hretired : copy.state = .retired → ∀ s, (make s).state = .retired) :
    S.Within R (commitDelivery copy cause make) fun x => x.2.id = copy.id := by
  intro w hw
  rw [commitDelivery]
  cases hparse : parseDeploymentId copy.id with
  | error e => exact fun w' hrely => ⟨hid _, hR.rely hrely hw⟩
  | ok name =>
    have hname : copy.id ≠ [] := by
      intro hempty
      simp [hempty, parseDeploymentId, parseId, Result.fail] at hparse
    dsimp only
    rw [Setting.Steps, Thread.steps_bind]
    apply steps_commit
    · exact fun w' e hrely => ⟨hid _, hR.rely hrely hw⟩
    · intro w' status durable hrely _
      have hw' : R w' := hR.rely hrely hw
      exact ⟨S.delivery (S.filed hrely) hname hid hretired (fun h => hcause.1 h w' hw' hname)
        (fun h => hcause.2 h w' hw'), hid _, hR.delivery hw'⟩

theorem within_upsertDelivery (hR : S.Stable R) {record : DeliveryRecord} (hcause : S.Grounds R cause record.id) :
    S.Within R (upsertDelivery record cause) fun _ => True :=
  (within_commitDelivery hR hcause (fun _ => rfl) fun h _ => h).bind fun _ _ => within_pure trivial

theorem within_recordTransition (hR : S.Stable R) {record : DeliveryRecord} {target : DeliveryState}
    {kind : EvidenceKind} {code : ErrorCode} {detail : Bytes} {fromReconciliation : Bool}
    (hcause : S.Grounds R cause record.id) :
    S.Within R (recordTransition record target kind code detail fromReconciliation cause) fun x => x.2.id = record.id := by
  rw [recordTransition]
  split
  · exact within_pure rfl
  next hlegal =>
    apply (within_clock hR).bind
    intro now _
    refine within_commitDelivery hR hcause (fun _ => rfl) fun hretired => ?_
    -- nothing leads out of a retirement
    cases target <;> simp_all [isLegalTransition]

theorem within_noteEvent (hR : S.Stable R) {record : DeliveryRecord} {kind : EvidenceKind} {detail : Bytes}
    (hcause : S.Grounds R cause record.id) :
    S.Within R (noteEvent record kind detail cause) fun x => x.2.id = record.id := by
  apply (within_clock hR).bind
  intro _ _
  apply (within_clock hR).bind
  intro _ _
  exact within_commitDelivery hR hcause (fun _ => rfl) fun hretired _ => hretired

theorem within_recordFailure (hR : S.Stable R) {record : DeliveryRecord} {code : ErrorCode} {detail : Bytes}
    (hcause : S.Grounds R cause record.id) :
    S.Within R (recordFailure record code detail cause) fun x => x.2.id = record.id := by
  simp only [recordFailure]
  split
  · exact within_pure rfl
  split
  · exact within_pure rfl
  split
  · exact within_noteEvent hR hcause
  · exact within_recordTransition hR hcause

theorem within_recordRejected (hR : S.Stable R) {record : DeliveryRecord} {code : ErrorCode} {detail : Bytes}
    (hcause : S.Grounds R cause record.id) : S.Within R (recordRejected record code detail cause) fun _ => True := by
  simp only [recordRejected]
  split
  · exact (within_noteEvent hR hcause).mono fun _ _ => trivial
  · apply (within_recordTransition hR hcause).bind
    rintro ⟨_ | ⟨⟩, moved⟩ hid
    · exact within_pure trivial
    · apply Within.bind
      · exact within_upsertDelivery hR (hid ▸ hcause)
      · exact fun _ _ => within_pure trivial

theorem within_recordRetired (hR : S.Stable R) {record : DeliveryRecord} {reason : Bytes}
    (hcause : S.Grounds R cause record.id) : S.Within R (recordRetired record reason cause) fun _ => True := by
  rw [recordRetired]
  split
  · exact within_pure trivial
  · apply (within_recordTransition hR hcause).bind
    rintro ⟨_ | ⟨⟩, moved⟩ hid
    · exact within_pure trivial
    · apply Within.bind
      · exact within_upsertDelivery hR (hid ▸ hcause)
      · exact fun _ _ => within_pure trivial

end Evidence

/-! Activation and acknowledgement. -/

section Activation

variable {E : ε → Prop} (hE : ∀ w w', S.rely w w' → E w.1 → E w'.1) {cause : Cause}

include hE

theorem within_upsertTarget {id : TargetId} {copy : Option TargetRuntime} {runtime : TargetRuntime}
    (hid : runtime.id = id) (hfence : runtime.fence = (copy.getD {}).fence) :
    S.Within (fun w => E w.1) (upsertTarget id copy runtime) fun _ => True := by
  intro w hw
  rw [upsertTarget, Setting.Steps, Thread.steps_bind]
  apply steps_commit
  · exact fun w' e hrely => ⟨trivial, hE _ _ hrely hw⟩
  · exact fun w' status durable hrely _ => ⟨S.target (S.filed hrely) hid hfence, trivial, hE w w' hrely hw⟩

theorem within_markContactCurrent {target : TargetId} {current : Bool} {atMillis : ℤ} :
    S.Within (fun w => E w.1) (markContactCurrent target current atMillis) fun _ => True :=
  fun w hw w' hrely => ⟨S.contact (S.filed hrely), trivial, hE w w' hrely hw⟩

theorem within_adoptRuntime {record : DeliveryRecord} :
    S.Within (fun w => E w.1) (adoptRuntime record) fun _ => True := by
  have hR : S.Stable fun w => E w.1 := Stable.env hE
  apply (within_state hR).bind
  intro s hs
  cases hfind : s.findTarget record.target with
  | none => exact within_pure trivial
  | some existing =>
    simp only
    split
    · exact within_pure trivial
    · apply (within_clock hR).bind
      intro now _
      have hid : existing.id = record.target := hs.target hfind
      exact within_upsertTarget hE hid rfl

theorem within_adoptActivation {record : DeliveryRecord} {fromReconciliation : Bool} {detail : Bytes}
    (hcause : S.Grounds (fun w => E w.1) cause record.id) :
    S.Within (fun w => E w.1) (adoptActivation record fromReconciliation detail cause) fun _ => True := by
  rw [adoptActivation]
  split
  · apply (within_recordTransition (Stable.env hE) hcause).bind
    rintro ⟨_ | ⟨⟩, moved⟩ -
    · exact within_pure trivial
    · exact within_adoptRuntime hE
  · exact within_adoptRuntime hE

theorem within_acknowledge {record : DeliveryRecord} {fromReconciliation : Bool} {detail : Bytes}
    (hcause : S.Grounds (fun w => E w.1) cause record.id) :
    S.Within (fun w => E w.1) (acknowledge record fromReconciliation detail cause) fun _ => True := by
  have hR : S.Stable fun w => E w.1 := Stable.env hE
  rw [acknowledge]
  split
  · split
    · exact within_upsertDelivery hR hcause
    · exact within_pure trivial
  · apply (within_recordTransition hR hcause).bind
    rintro ⟨_ | ⟨⟩, moved⟩ hid
    · exact within_pure trivial
    · exact within_upsertDelivery hR (hid ▸ hcause)

theorem within_snapshotDelivery {id : DeploymentId} :
    S.Within (fun w => E w.1) (snapshotDelivery id) fun r => r.id = id ∨ r = {} := by
  apply (within_state (Stable.env hE)).bind
  intro s hs
  cases hfind : s.findDelivery id with
  | none => exact within_pure (.inr rfl)
  | some r => exact within_pure (.inl (hs.delivery hfind))

/-- The record is read again before it is acknowledged; one that is gone cannot be. -/
theorem within_acknowledge_snapshot {id : DeploymentId} {fromReconciliation : Bool} {detail : Bytes}
    (hcause : S.Grounds (fun w => E w.1) cause id) {r : DeliveryRecord} (hr : r.id = id ∨ r = {}) :
    S.Within (fun w => E w.1) (acknowledge r fromReconciliation detail cause) fun _ => True := by
  obtain rfl | rfl := hr
  · exact within_acknowledge hE hcause
  · exact within_pure trivial

end Activation

/-! Exchanges with the target. -/

theorem Within.steps {p : Worker α} {T : α → Prop} {Q : α → ε × Controller → Prop} (h : S.Within R p T) (hw : R w)
    (hQ : ∀ a w', T a → R w' → Q a w') : S.Steps p Q w := Thread.Within.steps h hw hQ

theorem Within.runs {p : Worker α} {T : α → Prop} (h : S.Within (fun _ => True) p T) : S.Runs p :=
  fun _ => h.steps trivial fun _ _ _ _ => trivial

/-- What the answer to a request may be recorded on is the delivery the request is about. -/
theorem steps_exchange {request : Request} {K : Status → Worker α} {L : Result Incoming → Worker α}
    {Q : α → ε × Controller → Prop} (hK : K (.ok ()) = Thread.hear >>= L)
    (hhello : ∀ hello, request.frame ≠ .message (.hello hello))
    (herror : ∀ e w', S.Steps (K (.error e)) Q w')
    {id : DeploymentId} (hid : request.about = some id)
    (hL : ∀ r w', S.askedOf id w'.1 → (∀ reply, r = .ok (.reply reply) → S.heardOf id w'.1) → S.Steps (L r) Q w') :
    S.Steps (transmit request >>= K) Q w := by
  rw [Setting.Steps, Thread.steps_bind]
  apply steps_transmit
  · exact fun hello hframe => absurd hframe (hhello hello)
  · exact fun w' e _ => herror e w'
  · intro w' e _ hasked _ _
    rw [hK, Thread.steps_bind]
    apply steps_hear (hid ▸ hasked)
    exact fun w'' e' r _ hasked' hheard' _ => hL r (e', w''.2) (fun _ => hasked') fun reply hr _ => hheard' reply hr

/-- As `steps_hear`, with nothing known of the frame where the delivery has no name. -/
theorem steps_hearOf {Q : Result Incoming → ε × Controller → Prop} {id : DeploymentId} (hw : S.askedOf id w.1)
    (h : ∀ (w' : ε × Controller) e r, S.askedOf id e → (∀ reply, r = .ok (.reply reply) → S.heardOf id e) →
      Q r (e, w'.2)) :
    S.Steps Thread.hear Q w := by
  by_cases hid : id = []
  · intro w' r e hrely hreceive
    exact ⟨(S.receive hreceive (S.filed hrely)).1, h w' e r (fun hne => absurd hid hne) fun _ _ hne => absurd hid hne⟩
  · apply steps_hear (hw hid)
    exact fun w' e r _ hasked hheard _ => h w' e r (fun _ => hasked) fun reply hr _ => hheard reply hr

section Session

variable {record : DeliveryRecord} {session : SessionContext}

/-- A failure that the last frame told of. -/
theorem steps_recordFailure {code : ErrorCode} {detail : Bytes} {g : Status → α}
    (hw : S.heardOf record.id w.1) :
    S.Steps (do return g (← recordFailure record code detail .frame).1) (fun _ _ => True) w := by
  rw [Setting.Steps, Thread.steps_bind]
  exact (within_recordFailure (Stable.heardOf _) (grounds_frame _)).steps hw fun _ _ _ _ => trivial

theorem steps_recordFailed {code : ErrorCode} {detail : Bytes} (hw : S.heardOf record.id w.1) :
    S.Steps (do return (← recordFailure record code detail .frame).1) (fun _ _ => True) w := by
  rw [Setting.Steps, Thread.steps_bind]
  exact (within_recordFailure (Stable.heardOf _) (grounds_frame _)).steps hw fun _ _ _ _ => trivial

theorem steps_recordRetired {reason : Bytes} (hw : S.heardOf record.id w.1) :
    S.Steps (do return (← recordRetired record reason .frame).1) (fun _ _ => True) w := by
  rw [Setting.Steps, Thread.steps_bind]
  exact (within_recordRetired (Stable.heardOf _) (grounds_frame _)).steps hw fun _ _ _ _ => trivial

theorem steps_recordRejected {code : ErrorCode} {detail : Bytes} (hw : S.heardOf record.id w.1) :
    S.Steps (do return (← recordRejected record code detail .frame).1) (fun _ _ => True) w := by
  rw [Setting.Steps, Thread.steps_bind]
  exact (within_recordRejected (Stable.heardOf _) (grounds_frame _)).steps hw fun _ _ _ _ => trivial

theorem runs_stageDelivery : S.Runs (stageDelivery session record) := by
  intro w
  rw [stageDelivery]
  apply steps_exchange rfl
  · exact fun hello h => nomatch h
  · exact fun _ _ => trivial
  · rfl
  · intro r w' _ hheard
    dsimp only
    split
    · trivial
    next nack => exact steps_recordFailure (hheard _ rfl)
    next ack =>
      split
      · exact steps_recordFailure (hheard _ rfl)
      · rw [Setting.Steps, Thread.steps_bind]
        apply (within_recordTransition (Stable.heardOf _) (grounds_frame _)).steps (hheard _ rfl)
        rintro ⟨_ | ⟨⟩, moved⟩ w'' _ _
        · trivial
        · trivial
    · trivial

theorem runs_prepareApply : S.Runs (prepareApply session record) := by
  intro w
  rw [prepareApply]
  apply steps_exchange rfl
  · exact fun hello h => nomatch h
  · exact fun _ _ => trivial
  · rfl
  · intro r w' _ hheard
    dsimp only
    split
    · trivial
    next nack => exact steps_recordFailure (hheard _ rfl)
    next ack =>
      split
      · exact steps_recordFailure (hheard _ rfl)
      · rw [Setting.Steps, Thread.steps_bind]
        apply (within_noteEvent (Stable.heardOf _) (grounds_frame _)).steps (hheard _ rfl)
        rintro ⟨_ | ⟨⟩, noted⟩ w'' _ _
        · trivial
        · trivial
    · trivial

/-- The activation is adopted and the record is read again. -/
theorem steps_adoptActivation {E : ε → Prop} (hE : ∀ w w', S.rely w w' → E w.1 → E w'.1) {cause : Cause}
    (hcause : S.Grounds (fun w => E w.1) cause record.id) {detail : Bytes} {fromReconciliation : Bool}
    {f : DeliveryRecord → Worker Status} (hw : E w.1)
    (hf : ∀ r w', (r.id = record.id ∨ r = {}) → E w'.1 → S.Steps (f r) (fun _ _ => True) w') :
    S.Steps (do
      match ← adoptActivation record fromReconciliation detail cause with
      | .error e => return .error e
      | .ok () =>
        let record ← snapshotDelivery record.id
        f record) (fun _ _ => True) w := by
  rw [Setting.Steps, Thread.steps_bind]
  apply (within_adoptActivation hE hcause).steps hw
  rintro (_ | ⟨⟩) w' - hw'
  · trivial
  · dsimp only
    rw [Thread.steps_bind]
    exact (within_snapshotDelivery hE).steps hw' fun r w'' hr hw'' => hf r w'' hr hw''

theorem steps_acknowledge {id : DeploymentId} {detail : Bytes} {fromReconciliation : Bool} {r : DeliveryRecord}
    (hr : r.id = id ∨ r = {}) (hw : S.heardOf id w.1) :
    S.Steps (acknowledge r fromReconciliation detail .frame) (fun _ _ => True) w :=
  (within_acknowledge_snapshot heardOf_rely (grounds_frame id) hr).steps hw fun _ _ _ _ => trivial

theorem steps_awaitAcknowledgement {rounds : ℕ} (hw : S.askedOf record.id w.1) :
    S.Steps (awaitAcknowledgement session record rounds) (fun _ _ => True) w := by
  induction rounds generalizing w with
  | zero => trivial
  | succ rounds ih =>
    rw [awaitAcknowledgement, Setting.Steps, Thread.steps_bind]
    apply steps_hearOf hw
    intro w' e r _ hheard
    split
    · split <;> trivial
    next ack =>
      split
      · trivial
      split
      · trivial
      · apply steps_adoptActivation heardOf_rely (grounds_frame _) (hheard _ rfl)
        intro r w' hr hw'
        rw [Setting.Steps, Thread.steps_bind]
        apply steps_epoch
        intro w'' hrely
        exact steps_acknowledge hr (heardOf_rely w' w'' hrely hw')
    next nack => exact steps_recordFailed (hheard _ rfl)
    next nonce =>
      rw [Thread.steps_bind]
      apply steps_transmit
      · exact fun hello h => nomatch h
      · exact fun _ _ _ => trivial
      · exact fun _ _ _ hasked _ _ => ih fun _ => hasked
    · trivial

theorem askedOf_snapshot {id : DeploymentId} {r : DeliveryRecord} (hr : r.id = id ∨ r = {}) {e : ε}
    (h : S.askedOf id e) : S.askedOf r.id e := by
  obtain rfl | rfl := hr
  · exact h
  · exact fun hne => absurd rfl hne

theorem runs_commitApply {rounds : ℕ} : S.Runs (commitApply rounds session record) := by
  intro w
  rw [commitApply]
  apply steps_exchange rfl
  · exact fun hello h => nomatch h
  · exact fun _ _ => trivial
  · rfl
  · intro r w' hasked hheard
    dsimp only
    split
    · trivial
    next nack =>
      split
      · exact steps_recordRetired (hheard _ rfl)
      · exact steps_recordFailed (hheard _ rfl)
    next ack =>
      split
      · exact steps_recordFailed (hheard _ rfl)
      split
      · exact steps_recordFailed (hheard _ rfl)
      -- the answer to the commit may come in a second frame
      · apply steps_adoptActivation (E := fun e => S.askedOf record.id e ∧ S.heardOf record.id e)
        · exact fun w w' => stable_both.rely
        · exact grounds_both _
        · exact ⟨hasked, hheard _ rfl⟩
        · exact fun r w'' hr h => steps_awaitAcknowledgement (askedOf_snapshot hr h.1)
    · trivial

theorem runs_stageIfVerified : S.Runs (stageIfVerified session record) := by
  intro w
  rw [stageIfVerified]
  split
  · exact runs_stageDelivery w
  · trivial

theorem runs_prepareIfGuaranteed : S.Runs (prepareIfGuaranteed session record) := by
  intro w
  rw [prepareIfGuaranteed]
  split
  · exact runs_prepareApply w
  · trivial

theorem runs_activateDelivery {rounds : ℕ} : S.Runs (activateDelivery rounds session record) := by
  apply runs_bind runs_stageIfVerified
  rintro (status | staged)
  · exact runs_pure status
  · apply runs_bind runs_prepareIfGuaranteed
    rintro (status | prepared)
    · exact runs_pure status
    · exact runs_commitApply

/-! Transfer. -/

theorem runs_ownFailure {code : ErrorCode} {detail : Bytes} :
    S.Runs (do return (← recordFailure record code detail .own).1) := by
  apply runs_bind (within_recordFailure Stable.always (grounds_own _)).runs
  exact fun _ => runs_pure _

/-- When the last chunk is in, the last frame was about this delivery. -/
theorem steps_streamChunks {prepare : PrepareMessage} {rounds offset : ℕ} (hw : S.heardOf record.id w.1) :
    S.Steps (streamChunks session prepare record rounds offset)
      (fun x w' => x = none → S.heardOf record.id w'.1) w := by
  have hfailed {code : ErrorCode} {detail : Bytes} {cause : Cause} {w : ε × Controller}
      (hcause : S.Grounds (fun w => S.heardOf record.id w.1) cause record.id) (hw : S.heardOf record.id w.1) :
      S.Steps (do return some (← recordFailure record code detail cause).1)
        (fun x w' => x = none → S.heardOf record.id w'.1) w := by
    rw [Setting.Steps, Thread.steps_bind]
    exact (within_recordFailure (Stable.heardOf _) hcause).steps hw fun _ _ _ _ h => nomatch h
  induction rounds generalizing w offset with
  | zero => trivial
  | succ rounds ih =>
    rw [streamChunks]
    split
    · exact fun _ => hw
    rw [Setting.Steps, Thread.steps_bind]
    apply steps_ask
    intro w₁ i hrely₁
    split
    · exact fun h => nomatch h
    rw [Thread.steps_bind]
    apply steps_ask
    intro w₂ j hrely₂
    have hw₂ : S.heardOf record.id w₂.1 := heardOf_rely _ _ (S.trans hrely₁ hrely₂) hw
    split
    · exact hfailed (grounds_own _) hw₂
    split
    · exact hfailed (grounds_own _) hw₂
    apply steps_exchange rfl
    · exact fun hello h => nomatch h
    · exact fun e w' h => nomatch h
    · rfl
    · intro r w' _ hheard
      split
      · exact fun h => nomatch h
      next nack => exact hfailed (grounds_frame _) (hheard _ rfl)
      next ack =>
        have hw' : S.heardOf record.id w'.1 := hheard _ rfl
        split
        · exact fun h => nomatch h
        split
        · exact hfailed (grounds_frame _) hw'
        split
        · exact hfailed (grounds_frame _) hw'
        · exact ih hw'
      · exact fun h => nomatch h

theorem steps_verifyTransfer {rounds : ℕ} (hw : S.askedOf record.id w.1) :
    S.Steps (verifyTransfer rounds session record) (fun _ _ => True) w := by
  rw [verifyTransfer, Setting.Steps, Thread.steps_bind]
  apply steps_hearOf hw
  intro w' e r _ hheard
  split
  · trivial
  next nack => exact steps_recordFailed (hheard _ rfl)
  next result =>
    split
    · exact steps_recordFailed (hheard _ rfl)
    · rw [Thread.steps_bind]
      apply (within_recordTransition (Stable.heardOf _) (grounds_frame _)).steps (hheard _ rfl)
      rintro ⟨_ | ⟨⟩, moved⟩ w'' - -
      · trivial
      · exact runs_activateDelivery w''
  · trivial

theorem steps_completeTransfer {prepare : PrepareMessage} {rounds : ℕ} (hw : S.heardOf record.id w.1) :
    S.Steps (completeTransfer rounds session prepare record) (fun _ _ => True) w := by
  rw [completeTransfer, Setting.Steps, Thread.steps_bind]
  apply steps_transmit
  · exact fun hello h => nomatch h
  · exact fun _ _ _ => trivial
  · intro w' e _ hasked hheard _
    dsimp only
    split
    · rw [Thread.steps_bind]
      apply (within_recordTransition stable_both (grounds_both _)).steps
      · exact ⟨fun _ => hasked, fun hid => hheard _ (hw hid)⟩
      rintro ⟨_ | ⟨⟩, moved⟩ w'' hid h
      · trivial
      · exact steps_verifyTransfer (hid ▸ h.1)
    · exact steps_verifyTransfer fun _ => hasked

theorem within_noteResume {resumeFrom : ℕ} :
    S.Within (fun w => S.heardOf record.id w.1) (noteResume record resumeFrom) fun x => x.2.id = record.id := by
  rw [noteResume]
  split
  · exact within_noteEvent (Stable.heardOf _) (grounds_frame _)
  · exact within_pure rfl

theorem steps_transferArtifact {prepare : PrepareMessage} {rounds resumeFrom : ℕ} (hw : S.heardOf record.id w.1) :
    S.Steps (transferArtifact rounds session prepare record resumeFrom) (fun _ _ => True) w := by
  rw [transferArtifact, Setting.Steps, Thread.steps_bind]
  apply steps_ask
  intro w₁ i hrely
  split
  · exact runs_ownFailure w₁
  rw [Thread.steps_bind]
  apply within_noteResume.steps (heardOf_rely _ _ hrely hw)
  rintro ⟨_ | ⟨⟩, noted⟩ w₂ hid hw₂
  · trivial
  · dsimp only at hid ⊢
    rw [Thread.steps_bind]
    rw [← hid] at hw₂
    refine (steps_streamChunks hw₂).mono fun status w₃ h => ?_
    cases status with
    | none => exact steps_completeTransfer (h rfl)
    | some status => trivial

theorem steps_awaitPrepare {prepare : PrepareMessage} {rounds : ℕ} (hw : S.askedOf record.id w.1) :
    S.Steps (awaitPrepare rounds session prepare record) (fun _ _ => True) w := by
  rw [awaitPrepare, Setting.Steps, Thread.steps_bind]
  apply steps_hearOf hw
  intro w' e r _ hheard
  split
  · trivial
  next ack =>
    split
    · trivial
    split
    · apply steps_adoptActivation heardOf_rely (grounds_frame _) (hheard _ rfl)
      exact fun r w'' hr hw'' => steps_acknowledge hr hw''
    · exact steps_transferArtifact (hheard _ rfl)
  next reject =>
    split
    · exact steps_recordRejected (hheard _ rfl)
    split
    · exact steps_recordRetired (hheard _ rfl)
    split
    · exact steps_recordRejected (hheard _ rfl)
    · exact steps_recordFailed (hheard _ rfl)
  next nack => exact steps_recordFailed (hheard _ rfl)
  · trivial

theorem runs_offerAndTransfer {o : DistributorOptions} {rounds : ℕ} :
    S.Runs (offerAndTransfer o rounds session record) := by
  intro w
  rw [offerAndTransfer, Setting.Steps, Thread.steps_bind]
  apply steps_epoch
  intro w₁ _
  rw [Thread.steps_bind]
  apply steps_transmit
  · exact fun hello h => nomatch h
  · exact fun _ _ _ => trivial
  · intro w' e _ hasked _ _
    dsimp only
    split
    · rw [Thread.steps_bind]
      apply (within_recordTransition (Stable.env askedOf_rely) (grounds_own _)).steps fun _ => hasked
      rintro ⟨_ | ⟨⟩, moved⟩ w'' hid h
      · trivial
      · exact steps_awaitPrepare (hid ▸ h)
    · exact steps_awaitPrepare fun _ => hasked

end Session

end Setting

end Distributor

end ConfigurationFabric
