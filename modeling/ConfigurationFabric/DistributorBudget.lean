import ConfigurationFabric.DistributorRetired

/-! The retry budget of one delivery, over sessions with its target. -/

namespace ConfigurationFabric

open LittleEndian
open Threads

namespace Distributor

/-- The target does not have all the bytes yet. -/
def isEarly (s : DeliveryState) : Bool := s == .prepared || s == .offered || s == .transferred

def prepareOf (id : DeploymentId) (m : Request) : Option PrepareMessage :=
  match m.frame with
  | .message (.prepare p) => if p.deployment = id then some p else none
  | _ => none

/-- The Prepares of a delivery among the frames sent. -/
def prepares (id : DeploymentId) (sent : List Request) : List PrepareMessage := sent.filterMap (prepareOf id)

/-- The Prepare of the current attempt has gone out, and its outcome is not on record. -/
def Unsettled (id : DeploymentId) (w : World) : Prop :=
  ∃ r ∈ w.2.mem.findDelivery id, isEarly r.state = true ∧
    (prepares id w.1).getLast?.map (·.attempt) = some r.attempt

instance (id : DeploymentId) (w : World) : Decidable (Unsettled id w) :=
  inferInstanceAs (Decidable (∃ r ∈ w.2.mem.findDelivery id, isEarly r.state = true ∧
    (prepares id w.1).getLast?.map (·.attempt) = some r.attempt))

/-- The frames that answer a request of a transfer. -/
def answers : Message → Incoming → Bool
  | .prepare m, .reply (.prepareAck ack) => decide (ack.deployment = m.deployment ∧ ack.stream = m.stream)
  | .prepare _, .reply (.prepareReject _) => true
  | .chunk m, .reply (.chunkAck ack) => decide (ack.stream = m.stream)
  | .transferComplete _, .reply (.transferResult _) => true
  | .prepare _, .reply (.deliveryNack _) | .chunk _, .reply (.deliveryNack _)
  | .transferComplete _, .reply (.deliveryNack _) => true
  | _, _ => false

def answersRequest (request : Request) (frame : Incoming) : Bool :=
  match request.frame with
  | .message m => answers m frame
  | _ => false

/-- The frame answers the last request. -/
def expected (sent : List Request) : Result Incoming → Bool
  | .ok frame => sent.getLast?.any fun request => answersRequest request frame
  | .error _ => false

/-- The counters of the delivery can go up once more. -/
def canFail (r : DeliveryRecord) : Bool := decide (r.failures + 1 < 2 ^ 32) && (checkedAdd r.attempt 1).isSome

def Spare (id : DeploymentId) (w : World) : Prop := ∀ r ∈ w.2.mem.findDelivery id, canFail r = true

instance (id : DeploymentId) (w : World) : Decidable (Spare id w) :=
  inferInstanceAs (Decidable (∀ r ∈ w.2.mem.findDelivery id, canFail r = true))

/-- Nothing fails and nobody stops the distributor. -/
def untroubled (i : Choice) : Bool := i.status == .ok () && !i.stopRequested && i.outcome matches .done

def helloAckOf : Result Incoming → Option HelloAckMessage
  | .ok (.reply (.helloAck ack)) => some ack
  | _ => none

/-- No higher boot term of the target is observed. Where `strict`, nothing goes wrong while a Prepare of the delivery is
unsettled. -/
def network (target : TargetId) (id : DeploymentId) (strict : Prop) :
    Outside (List Request) Controller Choice Request (Result Incoming) where
  emit m w sent := sent = w.1 ++ [m]
  receive r w sent := sent = w.1 ∧
    (∀ ack ∈ helloAckOf r, restartObserved (w.2.mem.findTarget target) ack = false) ∧
    (strict → Unsettled id w → expected w.1 r = true ∧ Spare id w)
  input i w := strict → Unsettled id w → untroubled i = true ∧ Spare id w

/-! What a delivery has spent. -/

section Budget

variable {limit : ℕ} {id : DeploymentId} {w w' : World}

/-- After `n` Prepares. -/
structure Fits (limit n : ℕ) (r : DeliveryRecord) : Prop where
  early : isEarly r.state = true → n = 0 ∨ n ≤ r.failures ∧ r.failures < limit
  failed : r.state = .failed → n ≤ r.failures
  spent : n ≤ r.failures + 1

/-- Every Prepare but one that is past the transfer has been counted as a failure. -/
structure Settled (limit : ℕ) (id : DeploymentId) (w : World) : Prop where
  filed : w.2.Filed
  bound : (prepares id w.1).length ≤ limit
  fits : ∀ r, w.2.mem.findDelivery id = some r → Fits limit (prepares id w.1).length r

/-- The last Prepare is on its way. -/
structure Flying (limit : ℕ) (id : DeploymentId) (r : DeliveryRecord) (w : World) : Prop where
  filed : w.2.Filed
  bound : (prepares id w.1).length ≤ limit
  stored : w.2.mem.findDelivery id = some r
  early : isEarly r.state = true
  spent : (prepares id w.1).length ≤ r.failures + 1
  sent : (prepares id w.1).getLast?.map (·.attempt) = some r.attempt

def Safe (limit : ℕ) (id : DeploymentId) (w : World) : Prop := Settled limit id w ∨ ∃ r, Flying limit id r w

theorem Flying.unsettled {r : DeliveryRecord} (h : Flying limit id r w) : Unsettled id w := ⟨r, h.stored, h.early, h.sent⟩

theorem Safe.bound (h : Safe limit id w) : (prepares id w.1).length ≤ limit := by
  obtain h | ⟨r, h⟩ := h
  · exact h.bound
  · exact h.bound

theorem Safe.settled (h : Safe limit id w) (hw : ¬ Unsettled id w) : Settled limit id w := by
  obtain h | ⟨r, h⟩ := h
  · exact h
  · exact absurd h.unsettled hw

/-- The copy a thread works on: of this delivery it is what is stored. -/
structure At (limit : ℕ) (id : DeploymentId) (r : DeliveryRecord) (w : World) : Prop where
  settled : Settled limit id w
  stored : r.id = id → w.2.mem.findDelivery id = some r

/-- A transfer of this delivery is on its way, or one of another. -/
structure Under (limit : ℕ) (id : DeploymentId) (r : DeliveryRecord) (w : World) : Prop where
  flying : r.id = id → Flying limit id r w
  settled : r.id ≠ id → Settled limit id w

/-- What both have in common; the copy may be one from before the last write. -/
structure Holding (limit : ℕ) (id : DeploymentId) (r : DeliveryRecord) (w : World) : Prop where
  other : r.id ≠ id → Settled limit id w
  spent : r.id = id → (prepares id w.1).length ≤ r.failures + 1
  cases : Settled limit id w ∨ Flying limit id r w

theorem Holding.safe {r : DeliveryRecord} (h : Holding limit id r w) : Safe limit id w :=
  h.cases.imp_right fun hflying => ⟨r, hflying⟩

theorem At.holding {r : DeliveryRecord} (h : At limit id r w) : Holding limit id r w :=
  ⟨fun _ => h.settled, fun hid => (h.settled.fits r (h.stored hid)).spent, .inl h.settled⟩

/-- All is accounted for as before, and no Prepare has gone out since. -/
structure Still (limit : ℕ) (id : DeploymentId) (w w' : World) : Prop where
  settled : Settled limit id w'
  sent : prepares id w'.1 = prepares id w.1

theorem Settled.still (h : Settled limit id w) : Still limit id w w := ⟨h, rfl⟩

theorem Still.trans {w'' : World} (h : Still limit id w w') (h' : Still limit id w' w'') : Still limit id w w'' :=
  ⟨h'.settled, h'.sent.trans h.sent⟩

theorem Under.safe {r : DeliveryRecord} (h : Under limit id r w) : Safe limit id w := by
  by_cases hid : r.id = id
  · exact .inr ⟨r, h.flying hid⟩
  · exact .inl (h.settled hid)

theorem Under.holding {r : DeliveryRecord} (h : Under limit id r w) : Holding limit id r w := by
  refine ⟨h.settled, fun hid => (h.flying hid).spent, ?_⟩
  by_cases hid : r.id = id
  · exact .inr (h.flying hid)
  · exact .inl (h.settled hid)

/-! Steps that do not write the delivery. -/

theorem prepares_append {sent : List Request} {m : Request} (h : prepareOf id m = none) :
    prepares id (sent ++ [m]) = prepares id sent := by
  simp [prepares, h]

theorem Settled.frame (h : Settled limit id w) (hsent : prepares id w'.1 = prepares id w.1) (hfiled : w'.2.Filed)
    (hstored : w'.2.mem.findDelivery id = w.2.mem.findDelivery id) : Settled limit id w' := by
  refine ⟨hfiled, ?_, fun r hr => ?_⟩
  · rw [hsent]
    exact h.bound
  · rw [hsent]
    exact h.fits r (hstored ▸ hr)

theorem Flying.frame {r : DeliveryRecord} (h : Flying limit id r w) (hsent : prepares id w'.1 = prepares id w.1)
    (hcontroller : w'.2 = w.2) : Flying limit id r w' := by
  obtain ⟨hfiled, hbound, hstored, hearly, hspent, hlast⟩ := h
  rw [← hsent] at hbound hspent hlast
  rw [← hcontroller] at hfiled hstored
  exact ⟨hfiled, hbound, hstored, hearly, hspent, hlast⟩

theorem Under.frame {r : DeliveryRecord} (h : Under limit id r w) (hsent : prepares id w'.1 = prepares id w.1)
    (hcontroller : w'.2 = w.2) : Under limit id r w' :=
  ⟨fun hid => (h.flying hid).frame hsent hcontroller,
    fun hid => (h.settled hid).frame hsent (hcontroller ▸ (h.settled hid).filed) (by rw [hcontroller])⟩

theorem At.frame {r : DeliveryRecord} (h : At limit id r w) (hsent : prepares id w'.1 = prepares id w.1)
    (hfiled : w'.2.Filed) (hstored : w'.2.mem.findDelivery id = w.2.mem.findDelivery id) : At limit id r w' :=
  ⟨h.settled.frame hsent hfiled hstored, fun hid => hstored.trans (h.stored hid)⟩

/-! Writes of a delivery. -/

theorem find_commit_delivery {c : Controller} {durable : Bool} {r : DeliveryRecord} {id : DeploymentId} :
    (c.commit durable (.deliveryUpsert r)).mem.findDelivery id = if id = r.id then some r else c.mem.findDelivery id :=
  SortedMap.find_insert _ _ _ _

theorem Settled.write_other (h : Settled limit id w) {r : DeliveryRecord} (hr : r.id ≠ id) {durable : Bool} :
    Settled limit id (w.1, w.2.commit durable (.deliveryUpsert r)) := by
  refine h.frame rfl h.filed.commit ?_
  rw [find_commit_delivery, if_neg (Ne.symm hr)]

theorem Safe.filed (h : Safe limit id w) : w.2.Filed := by
  obtain h | ⟨r, h⟩ := h
  · exact h.filed
  · exact h.filed

theorem Safe.write (h : Safe limit id w) {r : DeliveryRecord} (hr : r.id = id)
    (hfits : Fits limit (prepares id w.1).length r) {durable : Bool} :
    Settled limit id (w.1, w.2.commit durable (.deliveryUpsert r)) := by
  refine ⟨h.filed.commit, h.bound, fun r' hr' => ?_⟩
  rw [find_commit_delivery, if_pos hr.symm] at hr'
  cases hr'
  exact hfits

theorem Flying.write {copy r : DeliveryRecord} (h : Flying limit id copy w) (hr : r.id = id)
    (hearly : isEarly r.state = true) (hfailures : r.failures = copy.failures) (hattempt : r.attempt = copy.attempt)
    {durable : Bool} : Flying limit id r (w.1, w.2.commit durable (.deliveryUpsert r)) where
  filed := h.filed.commit
  bound := h.bound
  stored := by rw [find_commit_delivery, if_pos hr.symm]
  early := hearly
  spent := hfailures ▸ h.spent
  sent := hattempt ▸ h.sent

end Budget

/-! One thread alone. -/

section Goes

variable {α β : Type} {limit : ℕ} {target : TargetId} {id : DeploymentId} {w : World}

abbrev Goes (limit : ℕ) (target : TargetId) (id : DeploymentId) (p : Worker α) (Q : α → World → Prop) (w : World) :
    Prop :=
  p.Steps (network target id True) Eq (fun _ w w' => Safe limit id w → Safe limit id w') Q w

theorem goes_bind {p : Worker α} {f : α → Worker β} {Q : β → World → Prop}
    (h : Goes limit target id p (fun a => Goes limit target id (f a) Q) w) : Goes limit target id (p >>= f) Q w := by
  rwa [Goes, Thread.steps_bind]

theorem goes_check {p : Worker Status} {f : Status → Worker β} {P : World → Prop} {Q : β → World → Prop}
    (hp : Goes limit target id p (fun _ => P) w) (herror : ∀ e w', P w' → Goes limit target id (f (.error e)) Q w')
    (hok : ∀ w', P w' → Goes limit target id (f (.ok ())) Q w') : Goes limit target id (p >>= f) Q w := by
  apply goes_bind
  refine hp.mono fun status w' h => ?_
  cases status with
  | error e => exact herror e w' h
  | ok _ => exact hok w' h

theorem untroubled_iff {i : Choice} :
    untroubled i = true ↔ i.status = .ok () ∧ i.stopRequested = false ∧ (i.outcome matches .done) = true := by
  simp [untroubled, and_assoc]

theorem goes_ask {Q : Choice → World → Prop}
    (h : ∀ i, (Unsettled id w → untroubled i = true ∧ Spare id w) → Q i w) :
    Goes limit target id Thread.ask Q w := by
  rintro _ i rfl hi
  exact h i (hi trivial)

theorem goes_clock {Q : ℤ → World → Prop} (h : ∀ now, Q now w) : Goes limit target id clock Q w :=
  goes_bind (goes_ask fun i _ => h i.now)

theorem goes_state {Q : ControllerState → World → Prop} (h : Q w.2.mem w) : Goes limit target id state Q w := by
  rintro _ rfl
  exact h

theorem goes_epoch {Q : Epoch → World → Prop} (h : Q w.2.mem.epoch w) : Goes limit target id Distributor.epoch Q w :=
  goes_bind (goes_state h)

theorem goes_update {copy : Copy} {f : Controller → Controller} {Q : Controller → World → Prop}
    (hsafe : Safe limit id w → Safe limit id (w.1, f w.2)) (h : Q w.2 (w.1, f w.2)) :
    Goes limit target id (Thread.update copy f) Q w := by
  rintro _ rfl
  exact ⟨hsafe, h⟩

theorem goes_commit {copy : Copy} {make : ControllerState → ControllerRecord}
    {Q : Status × ControllerState → World → Prop}
    (hsafe : ∀ durable, Safe limit id (w.1, w.2.commit durable (make w.2.mem)))
    (hok : Q (.ok (), w.2.mem) (w.1, w.2.commit true (make w.2.mem)))
    (hrest : ¬ Unsettled id w → (∀ e, Q (.error e, w.2.mem) w) ∧
      ∀ e durable, Q (.error e, w.2.mem) (w.1, w.2.commit durable (make w.2.mem))) :
    Goes limit target id (commit copy make) Q w := by
  apply goes_bind
  apply goes_ask
  rintro ⟨now, stop, status, artifact, outcome, bytes, present, random⟩ hi
  by_cases hu : Unsettled id w
  · have hdone := (untroubled_iff.mp (hi hu).1).2.2
    cases outcome with
    | done => exact goes_bind (goes_update (fun _ => hsafe true) hok)
    | refused e => cases hdone
    | failed e durable => cases hdone
  · cases outcome with
    | done => exact goes_bind (goes_update (fun _ => hsafe true) hok)
    | refused e => exact goes_bind (goes_state ((hrest hu).1 e))
    | failed e durable => exact goes_bind (goes_update (fun _ => hsafe durable) ((hrest hu).2 e durable))

variable (hvalid : parseDeploymentId id = .ok id)

include hvalid

/-- A write that accounts for every Prepare. -/
theorem goes_settle {copy : DeliveryRecord} {cause : Cause} {make : ControllerState → DeliveryRecord}
    (hw : Safe limit id w) (hother : copy.id ≠ id → Settled limit id w) (hid : (make w.2.mem).id = copy.id)
    (hfits : copy.id = id → Fits limit (prepares id w.1).length (make w.2.mem)) :
    Goes limit target id (commitDelivery copy cause make) (fun x w' => Settled limit id w' ∧ w'.1 = w.1 ∧
      (x.1 = .ok () → x.2 = make w.2.mem ∧ At limit id x.2 w')) w := by
  have hwritten (durable : Bool) : Settled limit id (w.1, w.2.commit durable (.deliveryUpsert (make w.2.mem))) := by
    by_cases hcopy : copy.id = id
    · exact hw.write (hid.trans hcopy) (hfits hcopy)
    · exact (hother hcopy).write_other (hid ▸ hcopy)
  rw [commitDelivery]
  cases hparse : parseDeploymentId copy.id with
  | error e =>
    -- a name that does not parse is not this delivery's
    have hcopy : copy.id ≠ id := by
      rintro rfl
      cases hvalid.symm.trans hparse
    exact goes_bind (goes_state ⟨hother hcopy, rfl, fun h => by cases h⟩)
  | ok name =>
    apply goes_bind
    apply goes_commit
    · exact fun durable => .inl (hwritten durable)
    · refine ⟨hwritten true, rfl, fun _ => ⟨rfl, hwritten true, fun hcopy => ?_⟩⟩
      rw [find_commit_delivery, if_pos hcopy.symm]
    · exact fun hu => ⟨fun e => ⟨hw.settled hu, rfl, fun h => by cases h⟩,
        fun e durable => ⟨hwritten durable, rfl, fun h => by cases h⟩⟩

/-- A write in the middle of a transfer. -/
theorem goes_fly {copy : DeliveryRecord} {cause : Cause} {make : ControllerState → DeliveryRecord}
    (hw : Under limit id copy w) (hid : (make w.2.mem).id = copy.id)
    (hearly : copy.id = id → isEarly (make w.2.mem).state = true) (hfailures : (make w.2.mem).failures = copy.failures)
    (hattempt : (make w.2.mem).attempt = copy.attempt) :
    Goes limit target id (commitDelivery copy cause make) (fun x w' => w'.1 = w.1 ∧
      (x.1 = .ok () → x.2 = make w.2.mem ∧ Under limit id x.2 w') ∧ ∀ e, x.1 = .error e → Settled limit id w') w := by
  have hwritten (durable : Bool) :
      Under limit id (make w.2.mem) (w.1, w.2.commit durable (.deliveryUpsert (make w.2.mem))) :=
    ⟨fun hcopy => (hw.flying (hid.symm.trans hcopy)).write hcopy (hearly (hid.symm.trans hcopy)) hfailures hattempt,
      fun hcopy => (hw.settled fun h => hcopy (hid.trans h)).write_other hcopy⟩
  have hcalm (hu : ¬ Unsettled id w) : copy.id ≠ id := fun h => hu (hw.flying h).unsettled
  rw [commitDelivery]
  cases hparse : parseDeploymentId copy.id with
  | error e =>
    have hcopy : copy.id ≠ id := by
      rintro rfl
      cases hvalid.symm.trans hparse
    exact goes_bind (goes_state ⟨rfl, (fun h => by cases h), fun _ _ => hw.settled hcopy⟩)
  | ok name =>
    apply goes_bind
    apply goes_commit
    · exact fun durable => (hwritten durable).safe
    · exact ⟨rfl, fun _ => ⟨rfl, hwritten true⟩, fun _ h => by cases h⟩
    · refine fun hu => ⟨fun e => ⟨rfl, (fun h => by cases h), fun _ _ => hw.settled (hcalm hu)⟩, fun e durable =>
        ⟨rfl, (fun h => by cases h), fun _ _ => (hwritten durable).settled fun h => hcalm hu (hid.symm.trans h)⟩⟩

/-! Evidence on a delivery. -/

/-- The record has been written, and everything is accounted for. -/
structure Done (limit : ℕ) (id : DeploymentId) (w : World) (T : DeliveryRecord → Prop) (x : Status × DeliveryRecord)
    (w' : World) : Prop where
  settled : Settled limit id w'
  sent : w'.1 = w.1
  ok : x.1 = .ok () → T x.2 ∧ At limit id x.2 w'

omit hvalid in
theorem Done.still {T : DeliveryRecord → Prop} {x : Status × DeliveryRecord} {w' : World} (h : Done limit id w T x w') :
    Still limit id w w' := ⟨h.settled, by rw [h.sent]⟩

/-- The record has been written, and the transfer goes on. -/
structure Onward (limit : ℕ) (id : DeploymentId) (w : World) (T : DeliveryRecord → Prop) (x : Status × DeliveryRecord)
    (w' : World) : Prop where
  sent : w'.1 = w.1
  ok : x.1 = .ok () → T x.2 ∧ Under limit id x.2 w'
  error : ∀ e, x.1 = .error e → Settled limit id w'

section Records

variable {record : DeliveryRecord} {cause : Cause} {code : ErrorCode} {detail : Bytes} {kind : EvidenceKind}
  {fromReconciliation : Bool}

theorem goes_transition {goal : DeliveryState} (hw : Safe limit id w) (hother : record.id ≠ id → Settled limit id w)
    (hlegal : Settled limit id w ∨ isLegalTransition record.state goal = true)
    (hfits : record.id = id → Fits limit (prepares id w.1).length { record with state := goal }) :
    Goes limit target id (recordTransition record goal kind code detail fromReconciliation cause)
      (Done limit id w fun r => r.id = record.id ∧ r.state = goal) w := by
  rw [recordTransition]
  split
  next hillegal =>
    obtain hsettled | hlegal := hlegal
    · exact ⟨hsettled, rfl, fun h => by cases h⟩
    · rw [hlegal] at hillegal
      cases hillegal
  · apply goes_bind
    apply goes_clock
    intro now
    apply Thread.Steps.mono
    · exact goes_settle hvalid hw hother rfl fun hid => ⟨(hfits hid).early, (hfits hid).failed, (hfits hid).spent⟩
    · intro x w' h
      refine ⟨h.1, h.2.1, fun hok => ?_⟩
      obtain ⟨heq, hat⟩ := h.2.2 hok
      refine ⟨?_, hat⟩
      rw [heq]
      exact ⟨rfl, rfl⟩

theorem goes_transition_fly {goal : DeliveryState} (hw : Under limit id record w) (hearly : isEarly goal = true)
    (hlegal : record.id = id → isLegalTransition record.state goal = true) :
    Goes limit target id (recordTransition record goal kind code detail fromReconciliation cause)
      (Onward limit id w fun r => r.id = record.id ∧ r.state = goal) w := by
  rw [recordTransition]
  split
  next hillegal =>
    refine ⟨rfl, (fun h => by cases h), fun _ _ => hw.settled fun hid => ?_⟩
    rw [hlegal hid] at hillegal
    cases hillegal
  · apply goes_bind
    apply goes_clock
    intro now
    apply Thread.Steps.mono
    · exact goes_fly hvalid hw rfl (fun _ => hearly) rfl rfl
    · intro x w' h
      refine ⟨h.1, fun hok => ?_, h.2.2⟩
      obtain ⟨heq, hunder⟩ := h.2.1 hok
      refine ⟨?_, hunder⟩
      rw [heq]
      exact ⟨rfl, rfl⟩

theorem goes_noteEvent (hw : Settled limit id w)
    (hfits : record.id = id → Fits limit (prepares id w.1).length record) :
    Goes limit target id (noteEvent record kind detail cause) (Done limit id w fun r => r.id = record.id) w := by
  apply goes_bind
  apply goes_clock
  intro _
  apply goes_bind
  apply goes_clock
  intro _
  apply Thread.Steps.mono
  · exact goes_settle hvalid (.inl hw) (fun _ => hw) rfl fun hid =>
      ⟨(hfits hid).early, (hfits hid).failed, (hfits hid).spent⟩
  · intro x w' h
    refine ⟨h.1, h.2.1, fun hok => ?_⟩
    obtain ⟨heq, hat⟩ := h.2.2 hok
    refine ⟨?_, hat⟩
    rw [heq]
    rfl

theorem goes_noteEvent_fly (hw : Under limit id record w) :
    Goes limit target id (noteEvent record kind detail cause)
      (Onward limit id w fun r => r.id = record.id ∧ r.state = record.state) w := by
  apply goes_bind
  apply goes_clock
  intro _
  apply goes_bind
  apply goes_clock
  intro _
  apply Thread.Steps.mono
  · exact goes_fly hvalid hw rfl (fun hid => (hw.flying hid).early) rfl rfl
  · intro x w' h
    refine ⟨h.1, fun hok => ?_, h.2.2⟩
    obtain ⟨heq, hunder⟩ := h.2.1 hok
    refine ⟨?_, hunder⟩
    rw [heq]
    exact ⟨rfl, rfl⟩

theorem goes_upsertDelivery (hw : Settled limit id w)
    (hfits : record.id = id → Fits limit (prepares id w.1).length record) :
    Goes limit target id (upsertDelivery record cause) (fun _ w' => Still limit id w w') w := by
  apply goes_bind
  apply Thread.Steps.mono
  · exact goes_settle hvalid (.inl hw) (fun _ => hw) rfl hfits
  · exact fun _ _ h => ⟨h.1, by rw [h.2.1]⟩

omit hvalid in
/-- Past the transfer only the last Prepare is not counted. -/
theorem fits_past {r : DeliveryRecord} {n : ℕ} (hspent : n ≤ r.failures + 1) (hearly : isEarly r.state = false)
    (hfailed : r.state ≠ .failed) : Fits limit n r :=
  ⟨fun h => absurd (hearly.symm.trans h) (by decide), fun h => absurd h hfailed, hspent⟩

omit hvalid in
theorem legal_early {s goal : DeliveryState} (hs : isEarly s = true)
    (hgoal : goal = .failed ∨ goal = .rejected ∨ goal = .retired ∨ goal = .applied) :
    isLegalTransition s goal = true := by
  obtain rfl | rfl | rfl | rfl := hgoal <;> cases s <;> first | rfl | cases hs

omit hvalid in
theorem Holding.settled (hw : Holding limit id record w) (hstate : isEarly record.state = false) :
    Settled limit id w := by
  obtain h | h := hw.cases
  · exact h
  · cases hstate.symm.trans h.early

theorem goes_recordFailure (hw : Holding limit id record w) (hspare : Settled limit id w ∨ canFail record = true) :
    Goes limit target id (recordFailure record code detail cause) (fun _ w' => Still limit id w w') w := by
  simp only [recordFailure]
  split
  next hfull =>
    refine (hspare.resolve_right fun hs => ?_).still
    rw [canFail, Bool.and_eq_true, decide_eq_true_iff] at hs
    omega
  split
  next hfull =>
    refine (hspare.resolve_right fun hs => ?_).still
    rw [canFail, hfull, Bool.and_eq_true] at hs
    cases hs.2
  next attempt _ =>
    have hcounted (hid : record.id = id) (r : DeliveryRecord) (hr : r.failures = record.failures + 1)
        (hstate : isEarly r.state = false) : Fits limit (prepares id w.1).length r := by
      have hspent := hw.spent hid
      exact ⟨fun h => absurd (hstate.symm.trans h) (by decide), fun _ => by omega, by omega⟩
    split
    next hfailed =>
      apply Thread.Steps.mono
      · apply goes_noteEvent hvalid (hw.settled (by rw [hfailed]; rfl))
        exact fun hid => hcounted hid _ rfl (by rw [hfailed]; rfl)
      · exact fun _ _ h => h.still
    · have hlegal : Settled limit id w ∨ isLegalTransition record.state .failed = true := by
        obtain h | h := hw.cases
        · exact .inl h
        · exact .inr (legal_early h.early (.inl rfl))
      apply Thread.Steps.mono
      · exact goes_transition hvalid hw.safe hw.other hlegal fun hid => hcounted hid _ rfl rfl
      · exact fun _ _ h => h.still

/-- A transition that ends the transfer, whatever it is that follows. -/
theorem goes_end {goal : DeliveryState} (hw : Holding limit id record w)
    (hgoal : goal = .rejected ∨ goal = .retired ∨ goal = .applied) :
    Goes limit target id (recordTransition record goal kind code detail fromReconciliation cause)
      (Done limit id w fun r => r.id = record.id ∧ r.state = goal) w := by
  have hlegal : Settled limit id w ∨ isLegalTransition record.state goal = true := by
    obtain h | h := hw.cases
    · exact .inl h
    · exact .inr (legal_early h.early (.inr hgoal))
  apply goes_transition hvalid hw.safe hw.other hlegal
  intro hid
  apply fits_past
  · exact hw.spent hid
  · obtain rfl | rfl | rfl := hgoal <;> rfl
  · obtain rfl | rfl | rfl := hgoal <;> exact fun h => nomatch h

omit hvalid in
/-- A record that is stored keeps fitting when the rest of it changes. -/
theorem At.fits (h : At limit id record w) {r : DeliveryRecord} (hid : r.id = record.id)
    (hstate : r.state = record.state) (hfailures : r.failures = record.failures) (hr : r.id = id) :
    Fits limit (prepares id w.1).length r := by
  have hfits := h.settled.fits record (h.stored (hid.symm.trans hr))
  exact ⟨fun he => by rw [hfailures]; exact hfits.early (hstate ▸ he),
    fun hf => by rw [hfailures]; exact hfits.failed (hstate ▸ hf), by rw [hfailures]; exact hfits.spent⟩

/-- A transition that ends the transfer, and a second write of the record. -/
theorem goes_end_twice {goal : DeliveryState} {edit : DeliveryRecord → DeliveryRecord}
    (hw : Holding limit id record w) (hgoal : goal = .rejected ∨ goal = .retired ∨ goal = .applied)
    (hid : ∀ r, (edit r).id = r.id) (hstate : ∀ r, (edit r).state = r.state)
    (hfailures : ∀ r, (edit r).failures = r.failures) :
    Goes limit target id (do
      match ← recordTransition record goal kind code detail fromReconciliation cause with
      | (.error e, record) => return (.error e, record)
      | (.ok (), record) => return (← upsertDelivery (edit record) cause, edit record))
      (fun _ w' => Still limit id w w') w := by
  apply goes_bind
  apply Thread.Steps.mono
  · exact goes_end hvalid hw hgoal
  · rintro ⟨_ | ⟨⟩, moved⟩ w' h
    · exact h.still
    · have hat : At limit id moved w' := (h.ok rfl).2
      apply goes_bind
      apply Thread.Steps.mono
      · exact goes_upsertDelivery hvalid hat.settled fun hr => hat.fits (hid moved) (hstate moved) (hfailures moved) hr
      · exact fun _ _ h' => h.still.trans h'

theorem goes_recordRejected (hw : Holding limit id record w) :
    Goes limit target id (recordRejected record code detail cause) (fun _ w' => Still limit id w w') w := by
  simp only [recordRejected]
  split
  next hrejected =>
    have hpast : isEarly record.state = false := by
      rw [hrejected]
      rfl
    apply Thread.Steps.mono
    · apply goes_noteEvent hvalid (hw.settled hpast)
      exact fun hid => fits_past (hw.spent hid) hpast (by rw [hrejected]; exact fun h => by cases h)
    · exact fun _ _ h => h.still
  · exact goes_end_twice hvalid hw (.inl rfl) (fun _ => rfl) (fun _ => rfl) fun _ => rfl

theorem goes_recordRetired {reason : Bytes} (hw : Holding limit id record w) :
    Goes limit target id (recordRetired record reason cause) (fun _ w' => Still limit id w w') w := by
  rw [recordRetired]
  split
  next hretired =>
    apply Settled.still
    apply hw.settled
    rw [hretired]
    rfl
  · exact goes_end_twice hvalid hw (.inr (.inl rfl)) (fun _ => rfl) (fun _ => rfl) fun _ => rfl

omit hvalid in
theorem goes_upsertTarget {name : TargetId} {copy : Option TargetRuntime} {runtime : TargetRuntime}
    (hw : Settled limit id w) :
    Goes limit target id (upsertTarget name copy runtime) (fun _ w' => Still limit id w w') w := by
  have hwritten (durable : Bool) : Still limit id w (w.1, w.2.commit durable (.targetUpsert runtime)) :=
    ⟨hw.frame rfl hw.filed.commit rfl, rfl⟩
  apply goes_bind
  apply goes_commit
  · exact fun durable => .inl (hwritten durable).settled
  · exact hwritten true
  · exact fun _ => ⟨fun _ => hw.still, fun _ durable => hwritten durable⟩

omit hvalid in
theorem goes_adoptRuntime (hw : Settled limit id w) :
    Goes limit target id (adoptRuntime record) (fun _ w' => Still limit id w w') w := by
  apply goes_bind
  apply goes_state
  split
  · exact hw.still
  split
  · exact hw.still
  · apply goes_bind
    apply goes_clock
    intro now
    exact goes_upsertTarget hw

theorem goes_adoptActivation (hw : Holding limit id record w) :
    Goes limit target id (adoptActivation record fromReconciliation detail cause)
      (fun _ w' => Still limit id w w') w := by
  rw [adoptActivation]
  split
  · apply goes_bind
    apply Thread.Steps.mono
    · exact goes_end hvalid hw (.inr (.inr rfl))
    · rintro ⟨_ | ⟨⟩, moved⟩ w' h
      · exact h.still
      · apply Thread.Steps.mono
        · exact goes_adoptRuntime h.settled
        · exact fun _ _ h' => h.still.trans h'
  next hstate =>
    apply goes_adoptRuntime
    apply hw.settled
    by_cases happlied : record.state = .applied
    · rw [happlied]
      rfl
    · have hacknowledged : record.state = .acknowledged := by
        by_contra hne
        exact hstate ⟨happlied, hne⟩
      rw [hacknowledged]
      rfl

theorem goes_acknowledge (hw : At limit id record w) :
    Goes limit target id (acknowledge record fromReconciliation detail cause) (fun _ w' => Still limit id w w') w := by
  rw [acknowledge]
  split
  · split
    · exact goes_upsertDelivery hvalid hw.settled fun hid => hw.fits rfl rfl rfl hid
    · exact hw.settled.still
  · apply goes_bind
    apply Thread.Steps.mono
    · exact goes_transition hvalid (.inl hw.settled) (fun _ => hw.settled) (.inl hw.settled) fun hid =>
        fits_past (hw.holding.spent hid) rfl fun h => by cases h
    · rintro ⟨_ | ⟨⟩, moved⟩ w' h
      · exact h.still
      · have hat : At limit id moved w' := (h.ok rfl).2
        apply Thread.Steps.mono
        · exact goes_upsertDelivery hvalid hat.settled fun hid => hat.fits rfl rfl rfl hid
        · exact fun _ _ h' => h.still.trans h'

theorem goes_snapshotDelivery {name : DeploymentId} (hw : Settled limit id w) {Q : DeliveryRecord → World → Prop}
    (h : ∀ r, At limit id r w → (r.id = name ∨ r = {}) → Q r w) :
    Goes limit target id (snapshotDelivery name) Q w := by
  apply goes_bind
  apply goes_state
  cases hfind : w.2.mem.findDelivery name with
  | none =>
    refine h {} ⟨hw, fun hid => ?_⟩ (.inr rfl)
    rw [← hid] at hvalid
    cases hvalid
  | some r =>
    have hname : r.id = name := hw.filed.mem.delivery hfind
    exact h r ⟨hw, fun hid => by rw [← hid, hname]; exact hfind⟩ (.inl hname)

end Records

/-! Frames. -/

omit hvalid in
theorem Safe.send (hw : Safe limit id w) {m : Request} (hm : prepareOf id m = none) :
    Safe limit id (w.1 ++ [m], w.2) := by
  obtain h | ⟨r, h⟩ := hw
  · exact .inl (h.frame (prepares_append hm) h.filed rfl)
  · exact .inr ⟨r, h.frame (prepares_append hm) rfl⟩

omit hvalid in
theorem goes_emit {request : Request} {Q : Status → World → Prop}
    (hsafe : Safe limit id w → Safe limit id (w.1 ++ [request], w.2))
    (herror : ¬ Unsettled id w → ∀ e, Q (.error e) w) (hok : Q (.ok ()) (w.1 ++ [request], w.2)) :
    Goes limit target id (transmit request) Q w := by
  apply goes_bind
  apply goes_ask
  rintro ⟨now, stop, status, artifact, outcome, bytes, present, random⟩ hi
  cases status with
  | error e =>
    refine herror (fun hu => ?_) e
    cases (untroubled_iff.mp (hi hu).1).1
  | ok =>
    rintro _ e rfl rfl
    exact ⟨hsafe, hok⟩

omit hvalid in
theorem goes_transmit {request : Request} {Q : Status → World → Prop} (hrequest : prepareOf id request = none)
    (herror : ¬ Unsettled id w → ∀ e, Q (.error e) w) (hok : Q (.ok ()) (w.1 ++ [request], w.2)) :
    Goes limit target id (transmit request) Q w :=
  goes_emit (fun hsafe => hsafe.send hrequest) herror hok

omit hvalid in
theorem goes_hear {Q : Result Incoming → World → Prop}
    (h : ∀ r, (∀ ack ∈ helloAckOf r, restartObserved (w.2.mem.findTarget target) ack = false) →
      (Unsettled id w → expected w.1 r = true ∧ Spare id w) → Q r w) :
    Goes limit target id Thread.hear Q w := by
  rintro _ r e rfl ⟨rfl, hhello, hexpected⟩
  exact ⟨fun hsafe => hsafe, h r hhello (hexpected trivial)⟩

omit hvalid in
/-- An exchange past the transfer. -/
theorem goes_exchange {request : Request} {record : DeliveryRecord} {K : Status → Worker α}
    {L : Result Incoming → Worker α} {Q : α → World → Prop} (hK : K (.ok ()) = Thread.hear >>= L)
    (hrequest : prepareOf id request = none) (hw : At limit id record w)
    (herror : ∀ e, Goes limit target id (K (.error e)) Q w)
    (hL : ∀ r w', At limit id record w' → Goes limit target id (L r) Q w') :
    Goes limit target id (transmit request >>= K) Q w := by
  apply goes_bind
  apply goes_transmit hrequest
  · exact fun _ => herror
  · rw [hK]
    apply goes_bind
    apply goes_hear
    exact fun r _ _ => hL r _ (hw.frame (prepares_append hrequest) hw.settled.filed rfl)

/-! Activation. -/

section Activation

variable {record : DeliveryRecord} {session : SessionContext}

theorem goes_failed {code : ErrorCode} {detail : Bytes} {cause : Cause} {g : Status → α} {Q : α → World → Prop}
    (hw : At limit id record w) (hQ : ∀ status w', Settled limit id w' → Q (g status) w') :
    Goes limit target id (do return g (← recordFailure record code detail cause).1) Q w := by
  apply goes_bind
  exact (goes_recordFailure hvalid hw.holding (.inl hw.settled)).mono fun x w' h => hQ x.1 w' h.settled

theorem goes_failedStatus {code : ErrorCode} {detail : Bytes} {cause : Cause} (hw : At limit id record w) :
    Goes limit target id (do return (← recordFailure record code detail cause).1) (fun _ w' => Settled limit id w') w := by
  apply goes_bind
  exact (goes_recordFailure hvalid hw.holding (.inl hw.settled)).mono fun _ _ h => h.settled

/-- A status, or the record to go on with. -/
def Stepped (limit : ℕ) (id : DeploymentId) (x : Except Status DeliveryRecord) (w : World) : Prop :=
  match x with
  | .error _ => Settled limit id w
  | .ok record => At limit id record w

theorem goes_stageDelivery (hw : At limit id record w) :
    Goes limit target id (stageDelivery session record) (Stepped limit id) w := by
  apply goes_exchange rfl rfl hw
  · exact fun _ => hw.settled
  · intro r w' hw'
    dsimp only
    split
    · exact hw'.settled
    · exact goes_failed hvalid hw' fun _ _ h => h
    · split
      · exact goes_failed hvalid hw' fun _ _ h => h
      · apply goes_bind
        apply Thread.Steps.mono
        · exact goes_transition hvalid (.inl hw'.settled) (fun _ => hw'.settled) (.inl hw'.settled) fun hid =>
            fits_past (hw'.holding.spent hid) rfl (fun h => nomatch h)
        · rintro ⟨_ | ⟨⟩, moved⟩ w'' h
          · exact h.settled
          · exact (h.ok rfl).2
    · exact hw'.settled

theorem goes_prepareApply (hw : At limit id record w) :
    Goes limit target id (prepareApply session record) (Stepped limit id) w := by
  apply goes_exchange rfl rfl hw
  · exact fun _ => hw.settled
  · intro r w' hw'
    dsimp only
    split
    · exact hw'.settled
    · exact goes_failed hvalid hw' fun _ _ h => h
    · split
      · exact goes_failed hvalid hw' fun _ _ h => h
      · apply goes_bind
        apply Thread.Steps.mono
        · exact goes_noteEvent hvalid hw'.settled fun hid => hw'.fits rfl rfl rfl hid
        · rintro ⟨_ | ⟨⟩, noted⟩ w'' h
          · exact h.settled
          · exact (h.ok rfl).2
    · exact hw'.settled

/-- The activation is adopted and the record is read again. -/
theorem goes_adopt {fromReconciliation : Bool} {detail : Bytes} {cause : Cause} {f : DeliveryRecord → Worker Status}
    {Q : World → Prop} (hw : Holding limit id record w) (hQ : ∀ w', Still limit id w w' → Q w')
    (hf : ∀ r w', At limit id r w' → Still limit id w w' → Goes limit target id (f r) (fun _ => Q) w') :
    Goes limit target id (do
      match ← adoptActivation record fromReconciliation detail cause with
      | .error e => return .error e
      | .ok () =>
        let record ← snapshotDelivery record.id
        f record) (fun _ => Q) w := by
  apply goes_bind
  refine (goes_adoptActivation hvalid hw).mono fun status w' h => ?_
  match status with
  | .error e => exact hQ w' h
  | .ok () =>
    apply goes_bind
    exact goes_snapshotDelivery hvalid h.settled fun r hr _ => hf r w' hr h

theorem goes_awaitAcknowledgement {rounds : ℕ} (hw : At limit id record w) :
    Goes limit target id (awaitAcknowledgement session record rounds) (fun _ w' => Settled limit id w') w := by
  induction rounds generalizing w with
  | zero => trivial
  | succ rounds ih =>
    apply goes_bind
    apply goes_hear
    intro r _ _
    split
    · split <;> exact hw.settled
    · split
      · exact hw.settled
      split
      · exact hw.settled
      · apply goes_adopt hvalid hw.holding
        · exact fun _ h => h.settled
        · intro r w' hr _
          apply goes_bind
          apply goes_epoch
          exact (goes_acknowledge hvalid hr).mono fun _ _ h => h.settled
    · exact goes_failedStatus hvalid hw
    · apply goes_bind
      apply goes_transmit rfl
      · exact fun _ _ => hw.settled
      · exact ih (hw.frame (prepares_append rfl) hw.settled.filed rfl)
    · exact hw.settled

theorem goes_commitApply {rounds : ℕ} (hw : At limit id record w) :
    Goes limit target id (commitApply rounds session record) (fun _ w' => Settled limit id w') w := by
  apply goes_exchange rfl rfl hw
  · exact fun _ => hw.settled
  · intro r w' hw'
    dsimp only
    split
    · exact hw'.settled
    · split
      · apply goes_bind
        exact (goes_recordRetired hvalid hw'.holding).mono fun _ _ h => h.settled
      · exact goes_failedStatus hvalid hw'
    · split
      · exact goes_failedStatus hvalid hw'
      split
      · exact goes_failedStatus hvalid hw'
      · exact goes_adopt hvalid hw'.holding (fun _ h => h.settled) fun r w'' hr _ => goes_awaitAcknowledgement hvalid hr
    · exact hw'.settled

theorem goes_activateDelivery {rounds : ℕ} (hw : At limit id record w) :
    Goes limit target id (activateDelivery rounds session record) (fun _ w' => Settled limit id w') w := by
  have hstage : Goes limit target id (stageIfVerified session record) (Stepped limit id) w := by
    rw [stageIfVerified]
    split
    · exact goes_stageDelivery hvalid hw
    · exact hw
  apply goes_bind
  refine hstage.mono fun staged w₁ h₁ => ?_
  cases staged with
  | error status => exact h₁
  | ok record =>
    have hprepare : Goes limit target id (prepareIfGuaranteed session record) (Stepped limit id) w₁ := by
      rw [prepareIfGuaranteed]
      split
      · exact goes_prepareApply hvalid h₁
      · exact h₁
    apply goes_bind
    refine hprepare.mono fun prepared w₂ h₂ => ?_
    cases prepared with
    | error status => exact h₂
    | ok record => exact goes_commitApply hvalid h₂

end Activation

end Goes

end Distributor

end ConfigurationFabric
