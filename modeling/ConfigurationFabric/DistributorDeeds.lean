import ConfigurationFabric.DistributorLedger

/-! What a task knows of the targets and the store, and that all it does to them are deeds. -/

namespace ConfigurationFabric

open LittleEndian
open Threads
open Ledgers

theorem Ledgers.Ledger.Clear.of_same {ι σ γ δ : Type} [LT ι] [LinearOrder γ] {b : Orders ι σ γ δ}
    {L L' : Ledger ι σ γ δ} {i : ι} (hpassed : L.Passed b i → L'.Passed b i)
    (hsite : L'.sites (b.site i) = L.sites (b.site i)) (hmark : L'.marks (b.site i) = L.marks (b.site i))
    (h : L.Clear b i) : L'.Clear b i :=
  h.imp hpassed fun hshown => ⟨hsite ▸ hshown.site, hmark ▸ hshown.mark⟩

namespace Distributor

section Knowledge

variable {b : Books} {base : TargetId → Generation} {own : TargetId → Prop} {w w' w'' : Fabric} {c : Option Copy}

theorem lists_site {r : DeliveryRecord} (h : b.Lists r.parcel) : b.site r.id = r.target := h.site

theorem lists_content {r : DeliveryRecord} (h : b.Lists r.parcel) : b.content r.id = ⟨r.generation, r.digest⟩ :=
  h.content

theorem Upright.lists (hw : Upright b base w) {id : DeploymentId} {r : DeliveryRecord}
    (hr : w.2.mem.findDelivery id = some r) : b.Lists r.parcel ∧ r.id = id := ⟨hw.mem id r hr, hw.filed.mem.delivery hr⟩

/-- A delivery on record covers its generation. -/
theorem Upright.covers (hw : Upright b base w) {id : DeploymentId} {r : DeliveryRecord}
    (hr : w.2.mem.findDelivery id = some r) : (ledger w).Covers b.toOrders r.target r.generation := by
  obtain ⟨hlists, rfl⟩ := hw.lists hr
  refine ⟨r.id, settled_isSome hr, lists_site hlists, ?_⟩
  rw [lists_content hlists]

/-- From `w` to `w'` nothing has been told of a target in `own`. -/
structure Since (b : Books) (own : TargetId → Prop) (w w' : Fabric) : Prop where
  advances : Advances b w w'
  clear : ∀ i, own (b.site i) → (ledger w).Clear b.toOrders i → (ledger w').Clear b.toOrders i
  shown : ∀ t m, own t → w.2.mem.shown t = some m → w'.2.mem.shown t = some m
  vouches : ∀ t low content, own t → (w.1 t).Vouches low content → (w'.1 t).Vouches low content

/-- From `w` to `w'`, whatever has been told. -/
structure Later (b : Books) (own : TargetId → Prop) (w w' : Fabric) : Prop where
  advances : Advances b w w'
  shown : ∀ t, own t → (w.2.mem.shown t).isSome → (w'.2.mem.shown t).isSome
  vouches : ∀ t low content, own t → (w.1 t).Vouches low content → (w'.1 t).Vouches low content

theorem Since.later (h : Since b own w w') : Later b own w w' where
  advances := h.advances
  shown t ht hm := by
    obtain ⟨m, hm⟩ := Option.isSome_iff_exists.mp hm
    rw [h.shown t m ht hm]
    rfl
  vouches := h.vouches

theorem Since.trans (h : Since b own w w') (h' : Since b own w' w'') : Since b own w w'' where
  advances := h.advances.trans h'.advances
  clear i hi hc := h'.clear i hi (h.clear i hi hc)
  shown t m ht hm := h'.shown t m ht (h.shown t m ht hm)
  vouches t low content ht hv := h'.vouches t low content ht (h.vouches t low content ht hv)

theorem Rely.since (h : Rely b base own w w') : Since b own w w' where
  advances := h.advances
  clear _ hi hc := h.clear hi hc
  shown := h.shown
  vouches t low content ht hv := by
    rw [h.peer t ht]
    exact hv

/-- The records of targets stay as they are. -/
def SparesTargets (b : Books) (own : TargetId → Prop) (c : Option Copy) (w w' : Fabric) : Prop :=
  Deed b own c w w' ∧ ∀ id copy, c ≠ some (.target id copy)

theorem SparesTargets.since (h : SparesTargets b own c w w') : Since b own w w' := by
  obtain ⟨h, hc⟩ := h
  have hadvances : Advances b w w' := h.advances
  have hstore (hsites : w'.1 = w.1) (hshown : w'.2.mem.shown = w.2.mem.shown) : Since b own w w' := by
    refine ⟨hadvances, fun i _ => ?_, fun t m _ hm => ?_, fun t low content _ hv => ?_⟩
    · exact Ledger.Clear.of_same (hadvances.passed i) (congrArg (fun peers => (peers (b.site i)).toSite) hsites)
        (congrFun hshown _)
    · rw [hshown]
      exact hm
    · rw [hsites]
      exact hv
  cases h with
  | idle => exact hstore rfl rfl
  | @asks _ target frame p hown hwarranted hsends hanswers =>
    have hstep := serves_step rfl hanswers.serves hwarranted hsends
    refine ⟨hadvances, fun i _ hi => ?_, fun t m _ hm => hm, fun t low content _ hv => ?_⟩
    · rw [ledger_asks]
      obtain hsame | hmoved := hstep
      · refine Ledger.Clear.of_same (L := ledger w) (fun hpassed => hpassed) ?_ rfl hi
        dsimp only
        rw [hsame]
        exact congrFun (Function.update_eq_self target (ledger w).sites) _
      · exact Site.Step.clear hmoved hi
    · dsimp only
      by_cases ht : t = target
      · subst ht
        rw [Function.update_self]
        exact vouches_step hstep hv
      · rw [Function.update_of_ne ht]
        exact hv
  | @reads _ target reply rest hown hunread =>
    have hledger : ledger (Function.update w.1 target ((w.1 target).left rest), w.2) = ledger w := ledger_reads
    refine ⟨hadvances, fun i _ hi => ?_, fun t m _ hm => hm, fun t low content _ hv => ?_⟩
    · rw [hledger]
      exact hi
    · have hsite : (Function.update w.1 target ((w.1 target).left rest) t).toSite = (w.1 t).toSite :=
        congrFun (congrArg Ledger.sites hledger) t
      rw [hsite]
      exact hv
  | delivery => exact hstore rfl rfl
  | target => exact absurd rfl (hc _ _)
  | contact => exact hstore rfl shown_markContact
  | remove => exact hstore rfl rfl
  | artifact => exact hstore rfl rfl
  | compact => exact hstore rfl rfl

theorem Deed.later (h : Deed b own c w w') : Later b own w w' := by
  by_cases hc : ∀ id copy, c ≠ some (.target id copy)
  · exact (SparesTargets.since ⟨h, hc⟩).later
  · have hadvances : Advances b w w' := h.advances
    cases h with
    | target =>
      refine ⟨hadvances, fun t _ hm => ?_, fun _ _ _ _ hv => hv⟩
      rw [shown_target, Function.update_apply]
      split
      · rfl
      · exact hm
    | _ => exact absurd (fun _ _ heq => by cases heq) hc

end Knowledge

/-- A task that has the sessions in `own`. -/
structure Errand where
  b : Books
  base : TargetId → Generation
  own : TargetId → Prop
  O : Outside (TargetId → Peer) Controller Choice Request (Result Incoming)

namespace Errand

section

variable {α β : Type} (E : Errand)

def Does (p : Worker α) (Q : α → Fabric → Prop) (w : Fabric) : Prop :=
  p.Steps E.O (Rely E.b E.base E.own) (Deed E.b E.own) Q w

/-- It survives the other tasks, and all that this one does but tell of its targets. -/
def Lasting (R : Fabric → Prop) : Prop := ∀ w w', Since E.b E.own w w' → R w → R w'

/-- As long as nothing is sent or heard, either. -/
structure Stable (R : Fabric → Prop) : Prop where
  rely : ∀ {w w'}, Rely E.b E.base E.own w w' → R w → R w'
  store : ∀ {c w w'}, SparesTargets E.b E.own c w w' → w'.1 = w.1 → R w → R w'

/-- While `R` holds, the task does its deeds and tells nothing of its targets. -/
abbrev Within (R : Fabric → Prop) (p : Worker α) (T : α → Prop) : Prop :=
  Thread.Within E.O (Rely E.b E.base E.own) (SparesTargets E.b E.own) R p T

/-- What has a name is by the books. -/
def Knows (r : DeliveryRecord) : Prop := r.id ≠ [] → E.b.Lists r.parcel

variable {E} {R R' : Fabric → Prop} {w : Fabric} {T : α → Prop} {p : Worker α}

theorem Lasting.stable (hR : E.Lasting R) : E.Stable R :=
  ⟨fun h hw => hR _ _ h.since hw, fun h _ hw => hR _ _ h.since hw⟩

theorem Lasting.and (hR : E.Lasting R) (hR' : E.Lasting R') : E.Lasting fun w => R w ∧ R' w :=
  fun w w' h hw => ⟨hR w w' h hw.1, hR' w w' h hw.2⟩

theorem Stable.and (hR : E.Stable R) (hR' : E.Stable R') : E.Stable fun w => R w ∧ R' w :=
  ⟨fun h hw => ⟨hR.rely h hw.1, hR'.rely h hw.2⟩, fun h hsame hw => ⟨hR.store h hsame hw.1, hR'.store h hsame hw.2⟩⟩

theorem lasting_true : E.Lasting fun _ => True := fun _ _ _ _ => trivial

theorem lasting_done {i : DeploymentId} (hi : E.own (E.b.site i)) : E.Lasting fun w => (ledger w).Done E.b.toOrders i :=
  fun _ _ h hw => ⟨h.clear i hi hw.clear, (h.vouches _ _ _ hi ⟨le_rfl, hw.reached⟩).2⟩

theorem Knows.of_same {r r' : DeliveryRecord} (h : E.Knows r) (hparcel : r'.parcel = r.parcel) : E.Knows r' := by
  intro hid
  rw [hparcel]
  have hname : r'.id = r.id := congrArg Parcel.id hparcel
  exact h (hname ▸ hid)

theorem does_bind {p : Worker β} {f : β → Worker α} {Q : α → Fabric → Prop} :
    E.Does (p >>= f) Q w ↔ E.Does p (fun a => E.Does (f a) Q) w := Thread.steps_bind _ _ _

theorem does_pure {a : α} {Q : α → Fabric → Prop} (h : Q a w) : E.Does (pure a : Worker α) Q w := h

theorem does_hang {Q : α → Fabric → Prop} : E.Does (.hang : Worker α) Q w := trivial

theorem does_mono {Q Q' : α → Fabric → Prop} (h : E.Does p Q w) (hq : ∀ a w', Q a w' → Q' a w') : E.Does p Q' w :=
  Thread.Steps.mono h hq

theorem Within.does {Q : α → Fabric → Prop} (h : E.Within R p T) (hw : R w) (hQ : ∀ a w', T a → R w' → Q a w') :
    E.Does p Q w := by
  have hdeeds : E.Does p (fun a w' => (T a ∧ R w') ∧ True) w :=
    (h w hw).along (fun _ _ _ _ => trivial) (fun _ _ _ hG _ => ⟨hG.1, trivial⟩) trivial
  exact does_mono hdeeds fun a w' h' => hQ a w' h'.1.1 h'.1.2

/-- What holds later still. -/
theorem does_later {Q : α → Fabric → Prop} (h : E.Does p Q w) (hR : ∀ w w', Later E.b E.own w w' → R w → R w')
    (hw : R w) : E.Does p (fun a w' => Q a w' ∧ R w') w :=
  Thread.Steps.along h (fun _ _ hr => hR _ _ hr.since.later) (fun _ _ _ hG hw => ⟨hG, hR _ _ hG.later hw⟩) hw

/-! Looking, and writing a delivery. -/

theorem does_ask {Q : Choice → Fabric → Prop} (h : ∀ w' i, Rely E.b E.base E.own w w' → Q i w') :
    E.Does Thread.ask Q w := fun w' i hrely _ => h w' i hrely

theorem does_clock {Q : ℤ → Fabric → Prop} (h : ∀ w' now, Rely E.b E.base E.own w w' → Q now w') :
    E.Does clock Q w := fun w' i hrely _ => h w' i.now hrely

theorem does_state {Q : ControllerState → Fabric → Prop} (h : ∀ w', Rely E.b E.base E.own w w' → Q w'.2.mem w') :
    E.Does state Q w := h

theorem does_epoch {Q : Epoch → Fabric → Prop} (h : ∀ w', Rely E.b E.base E.own w w' → Q w'.2.mem.epoch w') :
    E.Does Distributor.epoch Q w := h

theorem within_ask (hR : E.Stable R) : E.Within R Thread.ask fun _ => True :=
  fun _ hw _ _ hrely _ => ⟨trivial, hR.rely hrely hw⟩

theorem within_clock (hR : E.Stable R) : E.Within R clock fun _ => True :=
  (within_ask hR).bind fun _ _ => Thread.within_pure trivial

theorem within_state (hR : E.Stable R) : E.Within R state fun _ => True :=
  fun _ hw _ hrely => ⟨trivial, hR.rely hrely hw⟩

theorem within_commitDelivery (hR : E.Stable R) {copy : DeliveryRecord} {cause : Cause}
    {make : ControllerState → DeliveryRecord} (hlists : copy.id ≠ [] → ∀ s, E.b.Lists (make s).parcel)
    (hdone : ∀ w s, R w → (make s).state = .acknowledged → (ledger w).Done E.b.toOrders (make s).id) :
    E.Within R (commitDelivery copy cause make) fun x => (∃ s, x.2 = make s) ∧ (x.1 = .ok () → copy.id ≠ []) := by
  intro w hw
  rw [commitDelivery]
  cases hparse : parseDeploymentId copy.id with
  | error e => exact fun w' hrely => ⟨⟨⟨_, rfl⟩, fun h => by cases h⟩, hR.rely hrely hw⟩
  | ok name =>
    have hname : copy.id ≠ [] := by
      intro hempty
      simp [hempty, parseDeploymentId, parseId, Result.fail] at hparse
    dsimp only
    rw [Thread.steps_bind]
    apply commit_steps
    · exact fun _ _ _ => Rely.trans
    · exact fun w' e hrely => ⟨⟨⟨_, rfl⟩, fun h => by cases h⟩, hR.rely hrely hw⟩
    · intro w' status durable hrely _
      have hw' : R w' := hR.rely hrely hw
      have hspares : SparesTargets E.b E.own (some (.delivery copy cause)) w'
          (w'.1, w'.2.commit durable (.deliveryUpsert (make w'.2.mem))) :=
        ⟨.delivery (hlists hname _) (hdone w' _ hw'), fun _ _ h => by cases h⟩
      exact ⟨hspares, ⟨⟨_, rfl⟩, fun _ => hname⟩, hR.store hspares rfl hw'⟩

theorem within_upsertDelivery (hR : E.Stable R) {record : DeliveryRecord} {cause : Cause} (hrecord : E.Knows record)
    (hdone : ∀ w, R w → record.state = .acknowledged → (ledger w).Done E.b.toOrders record.id) :
    E.Within R (upsertDelivery record cause) fun _ => True :=
  (within_commitDelivery hR (fun hid _ => hrecord hid) fun w _ hw => hdone w hw).bind fun _ _ => Thread.within_pure trivial

theorem within_recordTransition (hR : E.Stable R) {record : DeliveryRecord} {target : DeliveryState}
    {kind : EvidenceKind} {code : ErrorCode} {detail : Bytes} {fromReconciliation : Bool} {cause : Cause}
    (hrecord : E.Knows record)
    (hdone : target = .acknowledged → ∀ w, R w → (ledger w).Done E.b.toOrders record.id) :
    E.Within R (recordTransition record target kind code detail fromReconciliation cause) fun x =>
      x.1 = .ok () → x.2.parcel = record.parcel ∧ x.2.state = target ∧ record.id ≠ [] := by
  rw [recordTransition]
  split
  · exact Thread.within_pure fun h => by cases h
  · apply (within_clock hR).bind
    intro now _
    refine Thread.Within.mono (within_commitDelivery hR (fun hid _ => hrecord hid) fun w s hw hstate =>
      hdone hstate w hw) ?_
    rintro ⟨status, moved⟩ ⟨⟨s, rfl⟩, hname⟩ hstatus
    exact ⟨rfl, rfl, hname hstatus⟩

theorem within_noteEvent (hR : E.Stable R) {record : DeliveryRecord} {kind : EvidenceKind} {detail : Bytes}
    {cause : Cause} (hrecord : E.Knows record) (hstate : record.state ≠ .acknowledged) :
    E.Within R (noteEvent record kind detail cause) fun x =>
      x.1 = .ok () → x.2.parcel = record.parcel ∧ x.2.state = record.state := by
  apply (within_clock hR).bind
  intro now _
  apply (within_clock hR).bind
  intro updated _
  refine Thread.Within.mono (within_commitDelivery hR (fun hid _ => hrecord hid) fun _ _ _ h => absurd h hstate) ?_
  rintro ⟨status, noted⟩ ⟨⟨s, rfl⟩, -⟩ _
  exact ⟨rfl, rfl⟩

theorem within_recordFailure (hR : E.Stable R) {record : DeliveryRecord} {code : ErrorCode} {detail : Bytes}
    {cause : Cause} (hrecord : E.Knows record) : E.Within R (recordFailure record code detail cause) fun _ => True := by
  simp only [recordFailure]
  split
  · exact Thread.within_pure trivial
  split
  · exact Thread.within_pure trivial
  next attempt _ =>
    split
    next hfailed =>
      refine Thread.Within.mono (within_noteEvent hR (hrecord.of_same rfl) ?_) fun _ _ => trivial
      rw [hfailed]
      decide
    · refine Thread.Within.mono (within_recordTransition hR (hrecord.of_same rfl) ?_) fun _ _ => trivial
      exact fun h => by cases h

/-- A final state that is not an acknowledgement, with a note beside it. -/
theorem within_settle (hR : E.Stable R) {record : DeliveryRecord} {target : DeliveryState} {kind : EvidenceKind}
    {code : ErrorCode} {detail : Bytes} {cause : Cause} (hrecord : E.Knows record) (htarget : target ≠ .acknowledged)
    {g : DeliveryRecord → DeliveryRecord} (hg : ∀ r, (g r).parcel = r.parcel ∧ (g r).state = r.state) :
    E.Within R (do
      match ← recordTransition record target kind code detail false cause with
      | (.error e, record) => return (.error e, record)
      | (.ok (), record) => return (← upsertDelivery (g record) cause, g record) :
        Worker (Status × DeliveryRecord)) fun _ => True := by
  apply (within_recordTransition hR hrecord fun h => absurd h htarget).bind
  rintro ⟨_ | ⟨⟩, moved⟩ hmoved
  · exact Thread.within_pure trivial
  · obtain ⟨hparcel, hstate, -⟩ := hmoved rfl
    apply Thread.Within.bind
    · apply within_upsertDelivery hR (hrecord.of_same ((hg moved).1.trans hparcel))
      intro w _ h
      exact absurd ((hg moved).2.symm.trans h) (fun h => htarget (hstate.symm.trans h))
    · exact fun _ _ => Thread.within_pure trivial

theorem within_recordRejected (hR : E.Stable R) {record : DeliveryRecord} {code : ErrorCode} {detail : Bytes}
    {cause : Cause} (hrecord : E.Knows record) :
    E.Within R (recordRejected record code detail cause) fun _ => True := by
  simp only [recordRejected]
  split
  next hstate =>
    refine (within_noteEvent hR hrecord ?_).mono fun _ _ => trivial
    rw [hstate]
    decide
  · exact within_settle hR hrecord (fun h => by cases h) fun _ => ⟨rfl, rfl⟩

theorem within_recordRetired (hR : E.Stable R) {record : DeliveryRecord} {reason : Bytes} {cause : Cause}
    (hrecord : E.Knows record) : E.Within R (recordRetired record reason cause) fun _ => True := by
  rw [recordRetired]
  split
  · exact Thread.within_pure trivial
  · exact within_settle hR hrecord (fun h => by cases h) fun _ => ⟨rfl, rfl⟩

theorem within_acknowledge (hR : E.Stable R) {record : DeliveryRecord} {fromReconciliation : Bool} {detail : Bytes}
    {cause : Cause} (hrecord : E.Knows record) (hdone : ∀ w, R w → (ledger w).Done E.b.toOrders record.id) :
    E.Within R (acknowledge record fromReconciliation detail cause) fun _ => True := by
  rw [acknowledge]
  split
  · split
    · exact within_upsertDelivery hR (hrecord.of_same rfl) fun w hw _ => hdone w hw
    · exact Thread.within_pure trivial
  · apply (within_recordTransition hR hrecord fun _ => hdone).bind
    rintro ⟨_ | ⟨⟩, moved⟩ hmoved
    · exact Thread.within_pure trivial
    · obtain ⟨hparcel, -, -⟩ := hmoved rfl
      have hid : moved.id = record.id := congrArg Parcel.id hparcel
      apply within_upsertDelivery hR
      · exact hrecord.of_same hparcel
      · intro w hw _
        dsimp only
        rw [hid]
        exact hdone w hw

/-! Other writes. -/

theorem within_markContactCurrent (hR : E.Stable R) {target : TargetId} {current : Bool} {atMillis : ℤ} :
    E.Within R (markContactCurrent target current atMillis) fun _ => True := by
  intro w hw w' hrely
  have hspares : SparesTargets E.b E.own (some .own) w'
      (w'.1, { w'.2 with mem := markContact target current atMillis w'.2.mem }) :=
    ⟨.contact, fun _ _ h => by cases h⟩
  exact ⟨hspares, trivial, hR.store hspares rfl (hR.rely hrely hw)⟩

/-- A record of a target that shows what it did: nothing is told. -/
theorem tells_copy {b : Books} {base : TargetId → Generation} {id : TargetId} {copy : Option TargetRuntime}
    {runtime : TargetRuntime} (hw : Upright b base w) (hmark : runtime.mark = (copy.getD {}).mark)
    (hcopy : (copy.getD {}).mark = ((w.2.mem.findTarget id).getD {}).mark) :
    (ledger w).Tells b.toOrders id runtime.mark := by
  rw [hmark, hcopy]
  cases hfind : w.2.mem.findTarget id with
  | none => exact hw.sound.tells_first (congrArg (Option.map _) hfind) (Nat.zero_le _)
  | some existing => exact hw.sound.tells_same (shown_of_find hfind)

theorem does_upsertTarget {id : TargetId} {copy : Option TargetRuntime} {runtime : TargetRuntime}
    {Q : Status → Fabric → Prop} (hid : runtime.id = id) (hown : ¬ E.own id → runtime.mark = (copy.getD {}).mark)
    (hrefused : ∀ w' e, Rely E.b E.base E.own w w' → Q (.error e) w')
    (hwrite : ∀ w' status durable, Rely E.b E.base E.own w w' →
      ((copy.getD {}).mark = ((w'.2.mem.findTarget id).getD {}).mark →
        (ledger w').Tells E.b.toOrders id runtime.mark) ∧
      Q status (w'.1, w'.2.commit durable (.targetUpsert runtime))) :
    E.Does (upsertTarget id copy runtime) Q w := by
  rw [upsertTarget, Does, Thread.steps_bind]
  apply commit_steps
  · exact fun _ _ _ => Rely.trans
  · exact fun w' e hrely => hrefused w' e hrely
  · intro w' status durable hrely _
    obtain ⟨htells, hQ⟩ := hwrite w' status durable hrely
    exact ⟨.target hid hown htells, hQ⟩

/-- So it keeps to the guarantee, whatever it knows. -/
theorem does_rewriteTarget {id : TargetId} {copy : Option TargetRuntime} {runtime : TargetRuntime}
    (hid : runtime.id = id) (hmark : runtime.mark = (copy.getD {}).mark) :
    E.Does (upsertTarget id copy runtime) (fun _ _ => True) w := by
  apply does_upsertTarget hid fun _ => hmark
  · exact fun _ _ _ => trivial
  · exact fun w' _ _ hrely => ⟨tells_copy hrely.upright hmark, trivial⟩

end

end Errand

end Distributor

end ConfigurationFabric
