import ConfigurationFabric.DistributorDeeds
import ConfigurationFabric.DistributorReports
import ConfigurationFabric.DistributorRetries

/-! What a session does to the ledger: nothing is acknowledged that its target does not run. -/

namespace ConfigurationFabric

open LittleEndian
open Threads
open Ledgers

namespace Distributor

/-- The task that has the session with `t`. -/
abbrev visiting (b : Books) (base : TargetId → Generation) (t : TargetId) : Errand :=
  ⟨b, base, fun t' => t' = t, session (careful b) t⟩

/-- The record of `t` shows no window. -/
def Shut (t : TargetId) (w : Fabric) : Prop := ∃ m, w.2.mem.shown t = some m ∧ m.window = false

/-- What a delivery needs before it is activated. -/
structure Due (b : Books) (t : TargetId) (g : Generation) (w : Fabric) : Prop where
  covers : (ledger w).Covers b.toOrders t g
  shut : Shut t w

/-- What is found under a name, or nothing. -/
def Found (b : Books) (id : DeploymentId) (r : DeliveryRecord) : Prop := (b.Lists r.parcel ∧ r.id = id) ∨ r = {}

theorem Found.knows {E : Errand} {id : DeploymentId} {record : DeliveryRecord} (h : Found E.b id record) :
    E.Knows record := by
  obtain ⟨hlists, -⟩ | rfl := h
  · exact fun _ => hlists
  · exact fun hid => absurd rfl hid

theorem Shut.since {b : Books} {t : TargetId} {w w' : Fabric} (h : Since b (fun t' => t' = t) w w') (hw : Shut t w) :
    Shut t w' := by
  obtain ⟨m, hm, hshut⟩ := hw
  exact ⟨m, h.shown t m rfl hm, hshut⟩

namespace Errand

variable {α : Type} {b : Books} {base : TargetId → Generation} {t : TargetId} {w : Fabric} {R : Fabric → Prop}
  {record : DeliveryRecord} {session : SessionContext} {rounds : ℕ} {id : DeploymentId}

theorem lasting_shut : (visiting b base t).Lasting (Shut t) := fun _ _ => Shut.since

theorem lasting_due {g : Generation} : (visiting b base t).Lasting (Due b t g) :=
  fun _ _ h hw => ⟨h.advances.covers _ _ hw.covers, hw.shut.since h⟩

theorem lasting_vouches {low : Generation} {content : Content Generation Digest} :
    (visiting b base t).Lasting fun w => (w.1 t).Vouches low content :=
  fun _ _ h hw => h.vouches t low content rfl hw

/-! Exchanges. -/

theorem within_transmit (hR : (visiting b base t).Lasting R) {request : Request}
    (hwarranted : ∀ w, R w → warranted b w t request.frame) :
    (visiting b base t).Within R (transmit request) fun _ => True := by
  intro w hw w₁ i hrely₁ _
  obtain ⟨now, stop, status, artifact, outcome, bytes, present, random⟩ := i
  have hw₁ : R w₁ := hR _ _ hrely₁.since hw
  cases status with
  | error e => exact ⟨trivial, hw₁⟩
  | ok =>
    rintro w₂ e hrely₂ ⟨hsends, p, hanswers, rfl⟩
    have hw₂ : R w₂ := hR _ _ hrely₂.since hw₁
    have hspares : SparesTargets b (fun t' => t' = t) none w₂ (Function.update w₂.1 t p, w₂.2) :=
      ⟨.asks rfl (hwarranted w₂ hw₂) hsends hanswers, fun _ _ h => by cases h⟩
    exact ⟨hspares, trivial, hR _ _ hspares.since hw₂⟩

/-- What is heard was there to be read. -/
structure Hears (t : TargetId) (peers peers' : TargetId → Peer) (r : Result Incoming) : Prop where
  site : (peers' t).toSite = (peers t).toSite
  rest : ∀ reply ∈ (peers' t).unread, reply ∈ (peers t).unread
  reply : ∀ reply, r = .ok (.reply reply) → reply ∈ (peers t).unread

theorem receive_spares {r : Result Incoming} {peers : TargetId → Peer}
    (h : (Distributor.session (careful b) t).receive r w peers) :
    SparesTargets b (fun t' => t' = t) none w (peers, w.2) ∧ Hears t w.1 peers r := by
  simp only [Distributor.session] at h
  split at h
  next reply =>
    obtain ⟨rest, hunread, rfl⟩ := h
    refine ⟨⟨.reads rfl hunread, fun _ _ h => by cases h⟩, ?_, ?_, ?_⟩
    · rw [Function.update_self]
      rfl
    · rw [Function.update_self, hunread]
      exact fun _ => List.mem_cons_of_mem _
    · rintro _ ⟨⟩
      rw [hunread]
      exact List.mem_cons_self
  next hreply =>
    subst h
    exact ⟨⟨.idle, fun _ _ h => by cases h⟩, rfl, fun _ h => h, fun reply heq => absurd heq (hreply reply)⟩

theorem does_hears {Q : Result Incoming → Fabric → Prop}
    (h : ∀ w' r peers, Rely b base (fun t' => t' = t) w w' → Hears t w'.1 peers r →
      Since b (fun t' => t' = t) w (peers, w'.2) → Q r (peers, w'.2)) :
    (visiting b base t).Does Thread.hear Q w := by
  intro w₁ r peers hrely hreceive
  obtain ⟨hspares, hhears⟩ := receive_spares hreceive
  exact ⟨hspares.1, h w₁ r peers hrely hhears (hrely.since.trans hspares.since)⟩

theorem does_hear {Q : Result Incoming → Fabric → Prop} (hR : (visiting b base t).Lasting R) (hw : R w)
    (h : ∀ r w', R w' → (∀ reply, r = .ok (.reply reply) → lasts b (base t) (w'.1 t).toSite reply) → Q r w') :
    (visiting b base t).Does Thread.hear Q w := by
  apply does_hears
  intro w₁ r peers hrely hhears hsince
  refine h r _ (hR _ _ hsince hw) fun reply hr => ?_
  dsimp only
  rw [hhears.site]
  exact hrely.upright.unread t reply (hhears.reply reply hr)

theorem within_hear (hR : (visiting b base t).Lasting R) : (visiting b base t).Within R Thread.hear fun _ => True := by
  intro w hw w₁ r peers hrely hreceive
  have hspares := (receive_spares hreceive).1
  exact ⟨hspares, trivial, hR _ _ hspares.since (hR _ _ hrely.since hw)⟩

/-- A request and the answer to it. -/
theorem within_exchange {T : α → Prop} (hR : (visiting b base t).Lasting R) {request : Request}
    {K : Status → Worker α} {L : Result Incoming → Worker α} (hK : K (.ok ()) = Thread.hear >>= L)
    (hwarranted : ∀ w, R w → warranted b w t request.frame)
    (herror : ∀ e, (visiting b base t).Within R (K (.error e)) T)
    (hL : ∀ r, (visiting b base t).Within R (L r) T) :
    (visiting b base t).Within R (transmit request >>= K) T := by
  apply (within_transmit hR hwarranted).bind
  rintro (e | ⟨⟩) _
  · exact herror e
  · rw [hK]
    exact (within_hear hR).bind fun r _ => hL r

/-! Activation. -/

/-- The record of the target follows what the target vouches for, and then shows the order. -/
theorem does_adoptRuntime (hlists : b.Lists record.parcel) (htarget : record.target = t)
    (hv : (w.1 t).Vouches (base t) ⟨record.generation, record.digest⟩) (hshut : Shut t w) :
    (visiting b base t).Does (adoptRuntime record)
      (fun status w' => status = .ok () → Shut t w' ∧ (ledger w').Done b.toOrders record.id) w := by
  subst htarget
  have hsite : b.site record.id = record.target := lists_site hlists
  have hcontent : b.content record.id = ⟨record.generation, record.digest⟩ := lists_content hlists
  rw [adoptRuntime, does_bind]
  apply does_state
  intro w₁ hrely₁
  obtain ⟨m, hm, hwindow⟩ := hshut.since hrely₁.since
  have hv₁ : (w₁.1 (b.site record.id)).Vouches (base (b.site record.id)) (b.content record.id) := by
    rw [hsite, hcontent]
    exact hrely₁.since.vouches _ _ _ rfl hv
  cases hfind : w₁.2.mem.findTarget record.target with
  | none =>
    rw [ControllerState.shown, hfind] at hm
    cases hm
  | some existing =>
    obtain rfl : existing.mark = m := Option.some.inj ((shown_of_find hfind).symm.trans hm)
    dsimp only
    split
    next hnewer =>
      refine fun _ => ⟨⟨_, hm, hwindow⟩, .inl (hrely₁.upright.sound.ahead (m := existing.mark) ?_ hv₁.1 ?_), hv₁.2⟩
      · rw [hsite]
        exact hm
      · rw [hcontent]
        exact hnewer.2
    next hnewer =>
      rw [does_bind]
      apply does_clock
      intro w₂ now hrely₂
      have hid : existing.id = record.target := hrely₁.upright.filed.mem.target hfind
      apply does_upsertTarget
      · exact hid
      · exact fun hown => absurd rfl hown
      · exact fun _ _ _ h => by cases h
      · intro w₃ status durable hrely₃
        have hrely : Rely b base (fun t' => t' = record.target) w₁ w₃ := hrely₂.trans hrely₃
        have hm₃ : w₃.2.mem.shown record.target = some existing.mark := hrely.shown _ _ rfl hm
        have hv₃ := hrely.since.vouches _ _ _ hsite hv₁
        have hle : existing.committedGeneration ≤ record.generation := by
          by_contra hnot
          have hlt : record.generation < existing.committedGeneration := not_le.mp hnot
          exact hnewer ⟨Nat.ne_of_gt (Nat.zero_lt_of_lt hlt), hlt⟩
        have htells : (w₃.1 record.target).Vouches (base record.target) ⟨record.generation, record.digest⟩ := by
          rw [← hsite, ← hcontent]
          exact hv₃
        refine ⟨fun _ => hrely.upright.sound.tells_vouched hm₃ htells hle, fun _ => ?_⟩
        have hmark : (w₃.2.commit durable (.targetUpsert { existing with
              committedGeneration := record.generation
              committedDigest := record.digest
              committedArtifact := record.artifact
              lastContactMillis := now })).mem.shown record.target =
            some ⟨⟨record.generation, record.digest⟩, existing.applyPrepared⟩ := by
          rw [shown_target, hid, Function.update_self]
          rfl
        refine ⟨⟨_, hmark, hwindow⟩, ?_, hv₃.2⟩
        obtain hpassed | hruns := hrely.upright.sound.vouched hv₃
        · exact .inl ((Advances.of_entries rfl).passed _ hpassed)
        · refine .inr ⟨hruns, ?_⟩
          rw [hsite, hcontent]
          refine hmark.trans ?_
          rw [show existing.applyPrepared = false from hwindow]

theorem does_adoptActivation (hfound : Found b id record) (hsite : b.site id = t)
    (hv : (w.1 t).Vouches (base t) ⟨record.generation, record.digest⟩) (hshut : Shut t w) {fromReconciliation : Bool}
    {detail : Bytes} {cause : Cause} :
    (visiting b base t).Does (adoptActivation record fromReconciliation detail cause)
      (fun status w' => status = .ok () →
        Shut t w' ∧ (ledger w').Done b.toOrders id ∧ b.Lists record.parcel ∧ record.id = id) w := by
  have hnew : (visiting b base t).Stable fun w =>
      (w.1 t).Vouches (base t) ⟨record.generation, record.digest⟩ ∧ Shut t w :=
    (lasting_vouches.and lasting_shut).stable
  obtain ⟨hlists, hid⟩ | rfl := hfound
  · have htarget : record.target = t := by rw [← lists_site hlists, hid, hsite]
    rw [adoptActivation]
    split
    · rw [does_bind]
      apply (within_recordTransition hnew (fun _ => hlists) fun h => by cases h).does ⟨hv, hshut⟩
      rintro ⟨_ | ⟨⟩, moved⟩ w₁ hmoved ⟨hv₁, hshut₁⟩
      · exact does_pure fun h => by cases h
      · obtain ⟨hparcel, -, -⟩ := hmoved rfl
        have hname : moved.id = id := (congrArg Parcel.id hparcel).trans hid
        have hgeneration : moved.generation = record.generation := congrArg Parcel.generation hparcel
        have hdigest : moved.digest = record.digest := congrArg Parcel.digest hparcel
        apply does_mono
        · apply does_adoptRuntime (t := t) (w := w₁)
          · exact hparcel ▸ hlists
          · exact (congrArg Parcel.target hparcel).trans htarget
          · rw [hgeneration, hdigest]
            exact hv₁
          · exact hshut₁
        · intro status w₂ h hok
          exact ⟨(h hok).1, hname ▸ (h hok).2, hlists, hid⟩
    · apply does_mono (does_adoptRuntime hlists htarget hv hshut)
      exact fun status w₁ h hok => ⟨(h hok).1, hid ▸ (h hok).2, hlists, hid⟩
  -- a record that is gone is not written
  · rw [adoptActivation, if_pos (by decide), does_bind]
    apply (within_recordTransition hnew (fun h => absurd rfl h) fun h => by cases h).does ⟨hv, hshut⟩
    rintro ⟨_ | ⟨⟩, moved⟩ w₁ hmoved -
    · exact does_pure fun h => by cases h
    · exact absurd rfl (hmoved rfl).2.2

theorem does_snapshotDelivery {Q : DeliveryRecord → Fabric → Prop}
    (h : ∀ r w', Rely b base (fun t' => t' = t) w w' → Found b id r → Q r w') :
    (visiting b base t).Does (snapshotDelivery id) Q w := by
  rw [snapshotDelivery, does_bind]
  apply does_state
  intro w' hrely
  apply does_pure
  apply h _ _ hrely
  cases hfind : w'.2.mem.findDelivery id with
  | none => exact .inr rfl
  | some r => exact .inl ⟨hrely.upright.mem id r hfind, hrely.upright.filed.mem.delivery hfind⟩

/-- After an activation that the target vouches for, its delivery may be acknowledged. -/
theorem does_acknowledge (hsite : b.site id = t) (hdone : (ledger w).Done b.toOrders id) (hfound : Found b id record)
    (hR : (visiting b base t).Lasting R) (hw : R w) {fromReconciliation : Bool} {detail : Bytes} {cause : Cause} :
    (visiting b base t).Does (acknowledge record fromReconciliation detail cause) (fun _ w' => R w') w := by
  obtain ⟨hlists, rfl⟩ | rfl := hfound
  · have hnew : (visiting b base t).Lasting fun w => (ledger w).Done b.toOrders record.id ∧ R w :=
      (lasting_done (E := visiting b base t) hsite).and hR
    exact (within_acknowledge hnew.stable (fun _ => hlists) fun _ h => h.1).does ⟨hdone, hw⟩ fun _ _ _ h => h.2
  · exact hw

theorem does_recordFailure {code : ErrorCode} {detail : Bytes} {cause : Cause}
    (hrecord : (visiting b base t).Knows record) :
    (visiting b base t).Does (do return (← recordFailure record code detail cause).1) (fun _ _ => True) w := by
  rw [does_bind]
  exact (within_recordFailure lasting_true.stable hrecord).does trivial fun _ _ _ _ => trivial

theorem does_recordRejected {code : ErrorCode} {detail : Bytes} {cause : Cause}
    (hrecord : (visiting b base t).Knows record) :
    (visiting b base t).Does (do return (← recordRejected record code detail cause).1) (fun _ _ => True) w := by
  rw [does_bind]
  exact (within_recordRejected lasting_true.stable hrecord).does trivial fun _ _ _ _ => trivial

theorem does_recordRetired {reason : Bytes} {cause : Cause} (hrecord : (visiting b base t).Knows record) :
    (visiting b base t).Does (do return (← recordRetired record reason cause).1) (fun _ _ => True) w := by
  rw [does_bind]
  exact (within_recordRetired lasting_true.stable hrecord).does trivial fun _ _ _ _ => trivial

theorem does_awaitAcknowledgement (hsite : b.site id = t) (hfound : Found b id record) (hshut : Shut t w) :
    (visiting b base t).Does (awaitAcknowledgement session record rounds) (fun _ _ => True) w := by
  induction rounds generalizing w with
  | zero => exact does_hang
  | succ rounds ih =>
    rw [awaitAcknowledgement, does_bind]
    apply does_hear lasting_shut hshut
    intro r w₁ hshut₁ hlasts
    split
    · split <;> trivial
    next ack =>
      have hv : (w₁.1 t).Vouches (base t) ⟨ack.generation, ack.digest⟩ := hlasts _ rfl
      split
      · trivial
      next hsame =>
        split
        · trivial
        obtain ⟨-, hsame⟩ := not_or.mp hsame
        obtain ⟨hgeneration, hdigest⟩ := not_or.mp hsame
        rw [not_not.mp hgeneration, not_not.mp hdigest] at hv
        rw [does_bind]
        apply does_mono (does_adoptActivation hfound hsite hv hshut₁)
        rintro (_ | ⟨⟩) w₂ h
        · trivial
        obtain ⟨-, hdone, -, hid⟩ := h rfl
        dsimp only
        rw [hid, does_bind]
        apply does_snapshotDelivery
        intro r w₃ hrely₃ hr
        rw [does_bind]
        apply does_epoch
        intro w₄ hrely₄
        have hdone₄ := lasting_done (E := visiting b base t) hsite _ _ (hrely₃.trans hrely₄).since hdone
        exact does_acknowledge hsite hdone₄ hr lasting_true trivial
    next nack => exact does_recordFailure hfound.knows
    next nonce =>
      rw [does_bind]
      refine Within.does (within_transmit lasting_shut fun _ _ => trivial) hshut₁ ?_
      rintro (_ | ⟨⟩) w₂ - hshut₂
      · trivial
      · exact ih hshut₂
    · trivial

theorem does_commitApply (hlists : b.Lists record.parcel) (hsite : b.site record.id = t)
    (hdue : Due b t record.generation w) :
    (visiting b base t).Does (commitApply rounds session record) (fun _ _ => True) w := by
  rw [commitApply, does_bind]
  refine Within.does (within_transmit lasting_due fun _ h => h.covers) hdue ?_
  rintro (_ | ⟨⟩) w₁ - hdue₁
  · trivial
  dsimp only
  rw [does_bind]
  apply does_hear lasting_due hdue₁
  intro r w₂ hdue₂ hlasts
  split
  · trivial
  · split
    · exact does_recordRetired fun _ => hlists
    · exact does_recordFailure fun _ => hlists
  next ack =>
    split
    · exact does_recordFailure fun _ => hlists
    next hcommitted =>
      split
      · exact does_recordFailure fun _ => hlists
      next hsame =>
        obtain ⟨hgeneration, hdigest⟩ := not_or.mp hsame
        have hv : (w₂.1 t).Vouches (base t) ⟨ack.committedGeneration, ack.committedDigest⟩ :=
          hlasts _ rfl (by simpa using hcommitted)
        rw [not_not.mp hgeneration, not_not.mp hdigest] at hv
        rw [does_bind]
        apply does_mono (does_adoptActivation (.inl ⟨hlists, rfl⟩) hsite hv hdue₂.shut)
        rintro (_ | ⟨⟩) w₃ h
        · trivial
        obtain ⟨hshut, -⟩ := h rfl
        dsimp only
        rw [does_bind]
        apply does_snapshotDelivery
        intro r w₄ hrely₄ hr
        exact does_awaitAcknowledgement hsite hr (hshut.since hrely₄.since)
  · trivial

/-! From the transfer to the activation. -/

theorem within_recordFailed (hR : (visiting b base t).Stable R) {code : ErrorCode} {detail : Bytes} {cause : Cause}
    {g : Status → α} (hrecord : (visiting b base t).Knows record) :
    (visiting b base t).Within R (do return g (← recordFailure record code detail cause).1) fun _ => True :=
  (within_recordFailure hR hrecord).bind fun _ _ => Thread.within_pure trivial

/-- It stays the delivery it was. -/
def Goes (record : DeliveryRecord) (x : Except Status DeliveryRecord) : Prop :=
  ∀ r, x = .ok r → r.parcel = record.parcel ∧ r.state ≠ .acknowledged

theorem within_failed (hR : (visiting b base t).Stable R) {code : ErrorCode} {detail : Bytes} {cause : Cause}
    (hrecord : (visiting b base t).Knows record) :
    (visiting b base t).Within R (do return .error (← recordFailure record code detail cause).1) (Goes record) :=
  (within_recordFailure hR hrecord).bind fun _ _ => Thread.within_pure fun _ h => by cases h

theorem within_stageDelivery (hR : (visiting b base t).Lasting R) (hrecord : (visiting b base t).Knows record) :
    (visiting b base t).Within R (stageDelivery session record) (Goes record) := by
  rw [stageDelivery]
  apply within_exchange hR rfl
  · exact fun _ _ => trivial
  · exact fun e => Thread.within_pure fun _ h => by cases h
  · intro r
    split
    · exact Thread.within_pure fun _ h => by cases h
    · exact within_failed hR.stable hrecord
    next ack =>
      split
      · exact within_failed hR.stable hrecord
      · apply (within_recordTransition hR.stable hrecord fun h => by cases h).bind
        rintro ⟨_ | ⟨⟩, moved⟩ hmoved
        · exact Thread.within_pure fun _ h => by cases h
        · obtain ⟨hparcel, hstate, -⟩ := hmoved rfl
          apply Thread.within_pure
          rintro _ ⟨⟩
          exact ⟨hparcel, by rw [show moved.state = .staged from hstate]; decide⟩
    · exact Thread.within_pure fun _ h => by cases h

theorem within_prepareApply (hrecord : (visiting b base t).Knows record) (hstate : record.state ≠ .acknowledged) :
    (visiting b base t).Within (Due b t record.generation) (prepareApply session record) (Goes record) := by
  have hR : (visiting b base t).Stable (Due b t record.generation) := lasting_due.stable
  rw [prepareApply]
  apply within_exchange lasting_due rfl
  · exact fun _ h => h.covers
  · exact fun e => Thread.within_pure fun _ h => by cases h
  · intro r
    split
    · exact Thread.within_pure fun _ h => by cases h
    · exact within_failed hR hrecord
    next ack =>
      split
      · exact within_failed hR hrecord
      · apply (within_noteEvent hR hrecord hstate).bind
        rintro ⟨_ | ⟨⟩, noted⟩ hnoted
        · exact Thread.within_pure fun _ h => by cases h
        · obtain ⟨hparcel, hsame⟩ := hnoted rfl
          apply Thread.within_pure
          rintro _ ⟨⟩
          exact ⟨hparcel, fun h => hstate (hsame.symm.trans h)⟩
    · exact Thread.within_pure fun _ h => by cases h

/-- What a delivery is when its session goes on with it. -/
structure Driven (b : Books) (t : TargetId) (record : DeliveryRecord) : Prop where
  lists : b.Lists record.parcel
  site : b.site record.id = t
  state : record.state ≠ .acknowledged

theorem Driven.key (h : Driven b t record) : record.key = b.key t := by
  rw [← h.site, lists_site h.lists]
  exact h.lists.key.symm

theorem Driven.of_same {r : DeliveryRecord} (h : Driven b t record) (hparcel : r.parcel = record.parcel)
    (hstate : r.state ≠ .acknowledged) : Driven b t r :=
  ⟨hparcel ▸ h.lists, (congrArg (fun p => b.site p.id) hparcel).trans h.site, hstate⟩

theorem does_activateDelivery (hrecord : Driven b t record) (hdue : Due b t record.generation w) :
    (visiting b base t).Does (activateDelivery rounds session record) (fun _ _ => True) w := by
  have hknows : (visiting b base t).Knows record := fun _ => hrecord.lists
  have hstage : (visiting b base t).Within (Due b t record.generation) (stageIfVerified session record)
      (Goes record) := by
    rw [stageIfVerified]
    split
    · exact within_stageDelivery lasting_due hknows
    · apply Thread.within_pure
      rintro _ ⟨⟩
      exact ⟨rfl, hrecord.state⟩
  rw [activateDelivery, does_bind]
  apply hstage.does hdue
  rintro (status | staged) w₁ hstaged hdue₁
  · trivial
  obtain ⟨hparcel, hstate⟩ := hstaged staged rfl
  have hrecord₁ : Driven b t staged := hrecord.of_same hparcel hstate
  have hgeneration : staged.generation = record.generation := congrArg Parcel.generation hparcel
  rw [← hgeneration] at hdue₁
  have hprepare : (visiting b base t).Within (Due b t staged.generation) (prepareIfGuaranteed session staged)
      (Goes staged) := by
    rw [prepareIfGuaranteed]
    split
    · exact within_prepareApply (fun _ => hrecord₁.lists) hstate
    · apply Thread.within_pure
      rintro _ ⟨⟩
      exact ⟨rfl, hstate⟩
  dsimp only
  rw [does_bind]
  apply hprepare.does hdue₁
  rintro (status | prepared) w₂ hprepared hdue₂
  · trivial
  obtain ⟨hparcel, hstate⟩ := hprepared prepared rfl
  have hrecord₂ : Driven b t prepared := hrecord₁.of_same hparcel hstate
  have hgeneration : prepared.generation = staged.generation := congrArg Parcel.generation hparcel
  exact does_commitApply hrecord₂.lists hrecord₂.site (hgeneration ▸ hdue₂)

theorem within_streamChunks (hR : (visiting b base t).Lasting R) (hrecord : (visiting b base t).Knows record)
    {prepare : PrepareMessage} {offset : ℕ} :
    (visiting b base t).Within R (streamChunks session prepare record rounds offset) fun _ => True := by
  have hfailed {code : ErrorCode} {detail : Bytes} {cause : Cause} : (visiting b base t).Within R (do
      return some (← recordFailure record code detail cause).1) fun _ => True := within_recordFailed hR.stable hrecord
  induction rounds generalizing offset with
  | zero => exact fun _ _ => trivial
  | succ rounds ih =>
    rw [streamChunks]
    split
    · exact Thread.within_pure trivial
    apply (within_ask hR.stable).bind
    intro i _
    split
    · exact Thread.within_pure trivial
    apply (within_ask hR.stable).bind
    intro j _
    split
    · exact hfailed
    split
    · exact hfailed
    apply within_exchange hR rfl
    · exact fun _ _ => trivial
    · exact fun e => Thread.within_pure trivial
    · intro r
      split
      · exact Thread.within_pure trivial
      · exact hfailed
      next ack =>
        split
        · exact Thread.within_pure trivial
        split
        · exact hfailed
        split
        · exact hfailed
        · exact ih
      · exact Thread.within_pure trivial

/-- A transition, after which the session goes on with the delivery. -/
theorem does_transition (hrecord : Driven b t record) (hdue : Due b t record.generation w) {target : DeliveryState}
    (htarget : target ≠ .acknowledged) {kind : EvidenceKind} {code : ErrorCode} {detail : Bytes}
    {fromReconciliation : Bool} {cause : Cause} {f : DeliveryRecord → Worker Status}
    (hf : ∀ r w', Driven b t r → Due b t r.generation w' → (visiting b base t).Does (f r) (fun _ _ => True) w') :
    (visiting b base t).Does (do
      match ← recordTransition record target kind code detail fromReconciliation cause with
      | (.error e, _) => return .error e
      | (.ok (), record) => f record) (fun _ _ => True) w := by
  rw [does_bind]
  apply (within_recordTransition lasting_due.stable (fun _ => hrecord.lists) fun h => absurd h htarget).does hdue
  rintro ⟨_ | ⟨⟩, moved⟩ w₁ hmoved hdue₁
  · trivial
  · obtain ⟨hparcel, hstate, -⟩ := hmoved rfl
    have hgeneration : moved.generation = record.generation := congrArg Parcel.generation hparcel
    exact hf moved w₁ (hrecord.of_same hparcel fun h => htarget (hstate.symm.trans h)) (hgeneration ▸ hdue₁)

theorem does_verifyTransfer (hrecord : Driven b t record) (hdue : Due b t record.generation w) :
    (visiting b base t).Does (verifyTransfer rounds session record) (fun _ _ => True) w := by
  rw [verifyTransfer, does_bind]
  apply (within_hear lasting_due).does hdue
  intro r w₁ _ hdue₁
  split
  · trivial
  · exact does_recordFailure fun _ => hrecord.lists
  · split
    · exact does_recordFailure fun _ => hrecord.lists
    · exact does_transition hrecord hdue₁ (fun h => by cases h) fun _ _ => does_activateDelivery
  · trivial

theorem does_completeTransfer (hrecord : Driven b t record) (hdue : Due b t record.generation w)
    {prepare : PrepareMessage} :
    (visiting b base t).Does (completeTransfer rounds session prepare record) (fun _ _ => True) w := by
  rw [completeTransfer, does_bind]
  refine Within.does (within_transmit lasting_due fun _ _ => trivial) hdue ?_
  rintro (_ | ⟨⟩) w₁ - hdue₁
  · trivial
  dsimp only
  split
  · exact does_transition hrecord hdue₁ (fun h => by cases h) fun _ _ => does_verifyTransfer
  · exact does_verifyTransfer hrecord hdue₁

theorem does_transferArtifact (hrecord : Driven b t record) (hdue : Due b t record.generation w)
    {prepare : PrepareMessage} {resumeFrom : ℕ} :
    (visiting b base t).Does (transferArtifact rounds session prepare record resumeFrom) (fun _ _ => True) w := by
  have hnote : (visiting b base t).Within (Due b t record.generation) (noteResume record resumeFrom) fun x =>
      x.1 = .ok () → x.2.parcel = record.parcel ∧ x.2.state = record.state := by
    rw [noteResume]
    split
    · exact within_noteEvent lasting_due.stable (fun _ => hrecord.lists) hrecord.state
    · exact Thread.within_pure fun _ => ⟨rfl, rfl⟩
  rw [transferArtifact, does_bind]
  apply does_ask
  intro w₁ i hrely₁
  split
  · exact does_recordFailure fun _ => hrecord.lists
  rw [does_bind]
  apply hnote.does (lasting_due _ _ hrely₁.since hdue)
  rintro ⟨_ | ⟨⟩, noted⟩ w₂ hnoted hdue₂
  · trivial
  obtain ⟨hparcel, hstate⟩ := hnoted rfl
  have hrecord₂ : Driven b t noted := hrecord.of_same hparcel fun h => hrecord.state (hstate.symm.trans h)
  have hgeneration : noted.generation = record.generation := congrArg Parcel.generation hparcel
  dsimp only
  rw [does_bind]
  refine Within.does (within_streamChunks lasting_due fun _ => hrecord₂.lists) (hgeneration ▸ hdue₂) ?_
  rintro (_ | status) w₃ - hdue₃
  · exact does_completeTransfer hrecord₂ hdue₃
  · trivial

theorem does_awaitPrepare (hrecord : Driven b t record) (hdue : Due b t record.generation w)
    {prepare : PrepareMessage} :
    (visiting b base t).Does (awaitPrepare rounds session prepare record) (fun _ _ => True) w := by
  have hknows : (visiting b base t).Knows record := fun _ => hrecord.lists
  rw [awaitPrepare, does_bind]
  apply does_hear lasting_due hdue
  intro r w₁ hdue₁ hlasts
  split
  · trivial
  next ack =>
    split
    · trivial
    next hsame =>
      split
      next hduplicate =>
        have hv : (w₁.1 t).Vouches (base t) (b.content ack.deployment) := hlasts _ rfl hduplicate
        rw [not_not.mp (not_or.mp hsame).1, lists_content hrecord.lists] at hv
        rw [does_bind]
        apply does_mono (does_adoptActivation (.inl ⟨hrecord.lists, rfl⟩) hrecord.site hv hdue₁.shut)
        rintro (_ | ⟨⟩) w₂ h
        · trivial
        obtain ⟨-, hdone, -⟩ := h rfl
        dsimp only
        rw [does_bind]
        apply does_snapshotDelivery
        intro r w₃ hrely₃ hr
        exact does_acknowledge hrecord.site
          (lasting_done (E := visiting b base t) hrecord.site _ _ hrely₃.since hdone) hr lasting_true trivial
      · exact does_transferArtifact hrecord hdue₁
  · split
    · exact does_recordRejected hknows
    split
    · exact does_recordRetired hknows
    split
    · exact does_recordRejected hknows
    · exact does_recordFailure hknows
  · exact does_recordFailure hknows
  · trivial

/-! Offers, and the deliveries one after the other. -/

theorem does_transmit {Q : Status → Fabric → Prop} (hR : (visiting b base t).Lasting R) (hw : R w) {request : Request}
    (hwarranted : ∀ w, R w → warranted b w t request.frame) (herror : ∀ w' e, R w' → Q (.error e) w')
    (hsent : ∀ w' p, Rely b base (fun t' => t' = t) w w' → (careful b).sends t request.frame w' →
      (w'.1 t).Answers request.frame p → R (Function.update w'.1 t p, w'.2) →
        Q (.ok ()) (Function.update w'.1 t p, w'.2)) :
    (visiting b base t).Does (transmit request) Q w := by
  intro w₁ i hrely₁ _
  obtain ⟨now, stop, status, artifact, outcome, bytes, present, random⟩ := i
  have hw₁ : R w₁ := hR _ _ hrely₁.since hw
  cases status with
  | error e => exact herror w₁ e hw₁
  | ok =>
    rintro w₂ e hrely₂ ⟨hsends, p, hanswers, rfl⟩
    have hw₂ : R w₂ := hR _ _ hrely₂.since hw₁
    have hdeed : Deed b (fun t' => t' = t) none w₂ (Function.update w₂.1 t p, w₂.2) :=
      .asks rfl (hwarranted w₂ hw₂) hsends hanswers
    have hspares : SparesTargets b (fun t' => t' = t) none w₂ (Function.update w₂.1 t p, w₂.2) :=
      ⟨hdeed, fun _ _ h => by cases h⟩
    exact ⟨hdeed, hsent w₂ p (hrely₁.trans hrely₂) hsends hanswers (hR _ _ hspares.since hw₂)⟩

/-- Before an offer: the target is on record. -/
structure Offered (b : Books) (t : TargetId) (g : Generation) (w : Fabric) : Prop where
  covers : (ledger w).Covers b.toOrders t g
  marked : (w.2.mem.shown t).isSome

theorem lasting_offered {g : Generation} : (visiting b base t).Lasting (Offered b t g) :=
  fun _ _ h hw => ⟨h.advances.covers _ _ hw.covers, h.later.shown t rfl hw.marked⟩

theorem shut_of_marked (hmarked : (w.2.mem.shown t).isSome)
    (hclosed : ((w.2.mem.findTarget t).getD {}).applyPrepared = false) : Shut t w := by
  obtain ⟨m, hm⟩ := Option.isSome_iff_exists.mp hmarked
  refine ⟨m, hm, ?_⟩
  rw [← shown_getD hm]
  exact hclosed

theorem does_offerAndTransfer {o : DistributorOptions} (hrecord : Driven b t record)
    (hoffered : Offered b t record.generation w) :
    (visiting b base t).Does (offerAndTransfer o rounds session record) (fun _ _ => True) w := by
  rw [offerAndTransfer, does_bind]
  apply does_epoch
  intro w₁ hrely₁
  dsimp only
  rw [does_bind]
  apply does_transmit lasting_offered (lasting_offered _ _ hrely₁.since hoffered)
  · exact fun _ _ => ⟨hrecord.lists.content, hrecord.key⟩
  · exact fun _ _ _ => trivial
  · intro w₂ p _ hsends _ hoffered₂
    have hdue : Due b t record.generation (Function.update w₂.1 t p, w₂.2) :=
      ⟨hoffered₂.covers, shut_of_marked hoffered₂.marked (hsends.1 _ rfl)⟩
    dsimp only
    split
    · exact does_transition hrecord hdue (fun h => by cases h) fun _ _ hr hw => does_awaitPrepare hr hw
    · exact does_awaitPrepare hrecord hdue

theorem does_offerDelivery {o : DistributorOptions} (hrecord : Driven b t record)
    (hoffered : Offered b t record.generation w) :
    (visiting b base t).Does (offerDelivery o rounds session record) (fun _ _ => True) w := by
  rw [offerDelivery]
  split
  · rw [does_bind]
    refine Within.does (within_recordTransition lasting_offered.stable ?_ fun h => by cases h) hoffered ?_
    · exact fun _ => hrecord.lists
    rintro ⟨_ | ⟨⟩, moved⟩ w₁ hmoved hoffered₁
    · trivial
    · obtain ⟨hparcel, hstate, -⟩ := hmoved rfl
      have hgeneration : moved.generation = record.generation := congrArg Parcel.generation hparcel
      have hstate' : moved.state ≠ .acknowledged := by
        rw [show moved.state = .prepared from hstate]
        decide
      exact does_offerAndTransfer (hrecord.of_same hparcel hstate') (hgeneration ▸ hoffered₁)
  · exact does_offerAndTransfer hrecord hoffered

theorem does_giveUp {reason : String} (hrecord : (visiting b base t).Knows record) :
    (visiting b base t).Does (giveUp record reason) (fun _ _ => True) w := by
  rw [giveUp]
  split
  · trivial
  · rw [does_bind]
    refine Within.does (within_recordTransition lasting_true.stable hrecord fun h => by cases h) trivial ?_
    rintro ⟨_ | ⟨⟩, failed⟩ w₁ hfailed _
    · trivial
    · obtain ⟨hparcel, hstate, -⟩ := hfailed rfl
      refine Within.does (within_upsertDelivery lasting_true.stable (hrecord.of_same hparcel) ?_) trivial ?_
      · intro _ _ h
        rw [show failed.state = .failed from hstate] at h
        cases h
      · exact fun _ _ _ _ => trivial

theorem window_of_activates {p : DistributorPolicy} {i : DecisionInput} {epoch : Epoch} {generation : Generation}
    (h : (p.decide i epoch generation).action = .activate) : i.targetApplyPrepared = false := by
  have hmutates : (p.decide i epoch generation).action.mutates = true := by rw [h]; rfl
  obtain ⟨hadmissible, hfailed | hevident⟩ := DistributorPolicy.passed_of_mutates hmutates
  · revert h
    fun_cases DistributorPolicy.decide p i epoch generation
    case case20 hnot _ _ _ _ => exact absurd hfailed hnot
    case case21 hnot _ _ _ _ => exact absurd hfailed hnot
    all_goals exact fun h => by cases h
  · exact hevident.closed

theorem state_of_mutates {p : DistributorPolicy} {i : DecisionInput} {epoch : Epoch} {generation : Generation}
    (h : (p.decide i epoch generation).action.mutates = true) : i.state ≠ .acknowledged := by
  have hpending : isPendingState i.state = true := (DistributorPolicy.passed_of_mutates h).1.pending
  intro hstate
  rw [hstate] at hpending
  cases hpending

theorem buildDecisionInput_window {s : ControllerState} {p : DistributorPolicy} {r : DeliveryRecord} {now : ℤ} :
    (buildDecisionInput s p r now).targetApplyPrepared = ((s.findTarget r.target).getD {}).applyPrepared := by
  rw [buildDecisionInput]
  split
  next hfind =>
    rw [hfind]
    rfl
  next runtime hfind =>
    rw [hfind]
    rfl

/-- The target stays on record. -/
theorem marked_later (w w' : Fabric) (h : Later b (fun t' => t' = t) w w') (hw : (w.2.mem.shown t).isSome) :
    (w'.2.mem.shown t).isSome := h.shown t rfl hw

/-- Where the session goes on with the delivery, the target is still on record. -/
theorem does_next {p next : Worker Status} (hp : (visiting b base t).Does p (fun _ _ => True) w)
    (hmarked : (w.2.mem.shown t).isSome)
    (hnext : ∀ w', (w'.2.mem.shown t).isSome → (visiting b base t).Does next (fun _ _ => True) w') :
    (visiting b base t).Does (do
      match ← p with
      | .error e => return .error e
      | .ok () => next) (fun _ _ => True) w := by
  rw [does_bind]
  apply does_mono (does_later hp marked_later hmarked)
  rintro (_ | ⟨⟩) w' ⟨-, hmarked'⟩
  · trivial
  · exact hnext w' hmarked'

theorem does_driveDelivery {o : DistributorOptions} {steps : ℕ} (hsite : b.site id = t)
    (hmarked : (w.2.mem.shown t).isSome) :
    (visiting b base t).Does (driveDelivery o rounds session id steps) (fun _ _ => True) w := by
  induction steps generalizing w with
  | zero => exact does_pure trivial
  | succ steps ih =>
    rw [driveDelivery, does_bind]
    apply does_ask
    intro w₁ i hrely₁
    split
    · trivial
    rw [does_bind, snapshotDelivery, does_bind]
    apply does_state
    intro w₂ hrely₂
    apply does_pure
    cases hfind : w₂.2.mem.findDelivery id with
    | none => exact does_pure trivial
    | some record =>
      obtain ⟨hlists, hid⟩ := hrely₂.upright.lists hfind
      have hknows : (visiting b base t).Knows record := fun _ => hlists
      have htarget : record.target = t := by rw [← lists_site hlists, hid, hsite]
      have hcovers : (ledger w₂).Covers b.toOrders t record.generation := htarget ▸ hrely₂.upright.covers hfind
      rw [Option.getD_some]
      split
      · trivial
      rw [does_bind]
      apply does_clock
      intro w₃ now hrely₃
      rw [does_bind, decisionInputFor, does_bind]
      apply does_state
      intro w₄ hrely₄
      apply does_pure
      rw [does_bind]
      apply does_epoch
      intro w₅ hrely₅
      have hmarked₅ : (w₅.2.mem.shown t).isSome :=
        marked_later _ _
          ((((hrely₁.trans hrely₂).trans hrely₃).trans hrely₄).trans hrely₅).since.later hmarked
      have hcovers₅ : (ledger w₅).Covers b.toOrders t record.generation :=
        ((hrely₃.trans hrely₄).trans hrely₅).advances.covers _ _ hcovers
      have hdriven (hstate : record.state ≠ .acknowledged) : Driven b t record := ⟨hlists, hid ▸ hsite, hstate⟩
      dsimp only
      generalize hdecision : o.policy.decide (buildDecisionInput w₄.2.mem o.policy record now) w₅.2.mem.epoch
        record.generation = decision
      have hpending (h : decision.action.mutates = true) : record.state ≠ .acknowledged := by
        rw [← hdecision] at h
        have hstate := state_of_mutates h
        rwa [buildDecisionInput_state] at hstate
      cases haction : decision.action with
      | none => trivial
      | wait => trivial
      | reconcile => trivial
      | reject => exact does_recordRejected hknows
      | retire => exact does_recordRetired hknows
      | giveUp => exact does_giveUp hknows
      | recordFailureAndRetry => exact does_recordFailure hknows
      | offer =>
        have hstate := hpending (by rw [haction]; rfl)
        exact does_next (does_offerDelivery (hdriven hstate) ⟨hcovers₅, hmarked₅⟩) hmarked₅ fun _ => ih
      | resumeTransfer =>
        have hstate := hpending (by rw [haction]; rfl)
        exact does_next (does_offerDelivery (hdriven hstate) ⟨hcovers₅, hmarked₅⟩) hmarked₅ fun _ => ih
      | activate =>
        have hstate := hpending (by rw [haction]; rfl)
        rw [← hdecision] at haction
        have hclosed := window_of_activates haction
        rw [buildDecisionInput_window, htarget] at hclosed
        have hmarked₄ : (w₄.2.mem.shown t).isSome := marked_later _ _
          (((hrely₁.trans hrely₂).trans hrely₃).trans hrely₄).since.later hmarked
        have hshut : Shut t w₅ := (shut_of_marked hmarked₄ hclosed).since hrely₅.since
        exact does_next (does_activateDelivery (hdriven hstate) ⟨hcovers₅, hshut⟩) hmarked₅ fun _ => ih

theorem does_driveAll {o : DistributorOptions} {queue : List DeliveryRecord} {errors : ℕ}
    (hqueue : ∀ r ∈ queue, b.site r.id = t) (hmarked : (w.2.mem.shown t).isSome) :
    (visiting b base t).Does (driveAll o rounds session queue errors) (fun _ _ => True) w := by
  induction queue generalizing errors w with
  | nil => trivial
  | cons queued rest ih =>
    have hrest : ∀ r ∈ rest, b.site r.id = t := fun r hr => hqueue r (List.mem_cons_of_mem _ hr)
    rw [driveAll, does_bind]
    apply does_ask
    intro w₁ i hrely₁
    split
    · trivial
    rw [does_bind]
    have hmarked₁ : (w₁.2.mem.shown t).isSome := marked_later _ _ hrely₁.since.later hmarked
    have hdrive : (visiting b base t).Does (driveDelivery o rounds session queued.id kMaxStepsPerDelivery)
        (fun _ _ => True) w₁ := does_driveDelivery (hqueue queued List.mem_cons_self) hmarked₁
    apply does_mono (does_later hdrive marked_later hmarked₁)
    rintro (e | ⟨⟩) w₂ ⟨-, hmarked₂⟩
    · dsimp only
      split
      · trivial
      · exact ih hrest hmarked₂
    · exact ih hrest hmarked₂

/-- The deliveries of a target, as they are found. -/
theorem site_of_deliveriesOf (hw : Upright b base w) {r : DeliveryRecord} (hr : r ∈ deliveriesOf t w.2.mem) :
    b.Lists r.parcel ∧ r.target = t := by
  obtain ⟨hfind, htarget⟩ := (mem_deliveriesOf hw.filed.mem).mp hr
  exact ⟨(hw.lists hfind).1, htarget⟩

theorem does_driveDeliveries {o : DistributorOptions} (ht : session.target = t)
    (hmarked : (w.2.mem.shown t).isSome) :
    (visiting b base t).Does (driveDeliveries o rounds session) (fun _ _ => True) w := by
  rw [driveDeliveries, does_bind]
  apply does_state
  intro w₁ hrely₁
  apply does_driveAll
  · intro r hr
    obtain ⟨hlists, htarget⟩ := site_of_deliveriesOf hrely₁.upright (List.mem_of_mem_filter hr)
    rw [lists_site hlists, htarget, ht]
  · exact marked_later _ _ hrely₁.since.later hmarked

end Errand

end Distributor

end ConfigurationFabric
