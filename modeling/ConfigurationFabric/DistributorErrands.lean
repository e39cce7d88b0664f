import ConfigurationFabric.ConvergenceCounts
import ConfigurationFabric.DistributorVisits

/-! From the first frame of a session to its last, and the tasks that have no session. -/

namespace ConfigurationFabric

open LittleEndian
open Threads
open Ledgers

namespace Distributor

/-- What a reply says of its target as it is. -/
def timely (x : Site Generation Digest) : Reply → Prop
  | .helloAck a => x.content = ⟨a.committedGeneration, a.committedDigest⟩
  | .reconcileReport a => x.content = ⟨a.committedGeneration, a.committedDigest⟩ ∧ x.window.isSome = a.applyPrepared ∧
      ∀ f ∈ a.findings, isActivationState f.state = true →
        f.generation < x.content.generation ∨ ⟨f.generation, f.digest⟩ = x.content
  | _ => True

/-- All that is unread of a target is still so. -/
def Timely (t : TargetId) (w : Fabric) : Prop := ∀ reply ∈ (w.1 t).unread, timely (w.1 t).toSite reply

theorem timely_truthful {x : Site Generation Digest} {frame : Outgoing} {reply : Reply} (h : truthful x frame reply) :
    timely x reply := by
  cases reply with
  | helloAck a => exact h
  | reconcileReport a => exact h
  | _ => trivial

theorem serves_helloConfirm {x x' : Site Generation Digest} (h : serves x .helloConfirm x') : x' = x := h

theorem serves_reconcileRequest {x x' : Site Generation Digest} {m : ReconcileRequestMessage}
    (h : serves x (.message (.reconcileRequest m)) x') : x' = x := h

theorem timely_sent {t : TargetId} {peers : TargetId → Peer} {p : Peer} {c : Controller} :
    Timely t (Function.update peers t p, c) ↔ ∀ reply ∈ p.unread, timely p.toSite reply := by
  simp [Timely]

/-- A frame that leaves the target as it is. -/
theorem timely_answers {p p' : Peer} {frame : Outgoing} (h : p.Answers frame p') (hsame : p'.toSite = p.toSite)
    (hwaiting : p.waiting frame = p.unread) (hp : ∀ reply ∈ p.unread, Distributor.timely p.toSite reply) :
    ∀ reply ∈ p'.unread, Distributor.timely p'.toSite reply := by
  obtain ⟨replies, hunread, htruthful⟩ := h.replies
  rw [hunread, hwaiting]
  intro reply hreply
  obtain hold | hnew := List.mem_append.mp hreply
  · rw [hsame]
    exact hp reply hold
  · exact timely_truthful (htruthful reply hnew)

namespace Errand

variable {α : Type} {b : Books} {base : TargetId → Generation} {t : TargetId} {w : Fabric} {R : Fabric → Prop}
  {record : DeliveryRecord} {session : SessionContext} {rounds : ℕ} {id : DeploymentId} {o : DistributorOptions}

/-- What is known of the site alone. -/
theorem stable_site {P : Peer → Prop} : (visiting b base t).Stable fun w => P (w.1 t) where
  rely h hw := by
    rw [h.peer t rfl]
    exact hw
  store _ hsame hw := by
    rw [hsame]
    exact hw

/-! The handshake. -/

theorem within_rearm {E : Errand} {R : Fabric → Prop} (hR : E.Stable R) {newTerm : Term} {records : List DeliveryRecord}
    (hrecords : ∀ r ∈ records, E.b.Lists r.parcel ∧ r.state = .failed) :
    E.Within R (rearm newTerm records) fun _ => True := by
  induction records with
  | nil => exact Thread.within_pure trivial
  | cons record rest ih =>
    obtain ⟨hlists, hstate⟩ := hrecords record List.mem_cons_self
    rw [rearm]
    refine Thread.Within.bind (within_noteEvent hR (fun _ => hlists) ?_) ?_
    · rw [show record.state = .failed from hstate]
      decide
    · rintro ⟨_ | ⟨⟩, noted⟩ -
      · exact Thread.within_pure trivial
      · exact ih fun r hr => hrecords r (List.mem_cons_of_mem _ hr)

theorem does_rearmAfterRestart (hR : (visiting b base t).Stable R) (hw : R w) {newTerm : Term} :
    (visiting b base t).Does (rearmAfterRestart t newTerm) (fun _ w' => R w') w := by
  rw [rearmAfterRestart, does_bind]
  apply does_state
  intro w₁ hrely₁
  refine Within.does (within_rearm hR fun r hr => ?_) (hR.rely hrely₁ hw) fun _ _ _ h => h
  obtain ⟨hmem, hfilter⟩ := List.mem_filter.mp hr
  obtain ⟨htarget, hfailed⟩ := Bool.and_eq_true_iff.mp hfilter
  have hlisted : r ∈ deliveriesOf t w₁.2.mem := by
    rw [deliveriesOf, List.mem_insertionSort, List.mem_filter]
    exact ⟨hmem, htarget⟩
  exact ⟨(site_of_deliveriesOf hrely₁.upright hlisted).1, eq_of_beq hfailed⟩

/-- A target on record, and what is unread of it still so. -/
structure Greeted (t : TargetId) (w : Fabric) : Prop where
  timely : Timely t w
  marked : (w.2.mem.shown t).isSome

theorem stable_timely : (visiting b base t).Stable (Timely t) :=
  stable_site (P := fun p => ∀ reply ∈ p.unread, Distributor.timely p.toSite reply)

theorem stable_greeted : (visiting b base t).Stable (Greeted t) where
  rely h hw := ⟨stable_timely.rely h hw.timely, marked_later _ _ h.since.later hw.marked⟩
  store h hsame hw := ⟨stable_timely.store h hsame hw.timely, marked_later _ _ h.since.later hw.marked⟩

theorem does_adoptTarget {ack : HelloAckMessage} (hw : Timely t w)
    (hack : (w.1 t).content = ⟨ack.committedGeneration, ack.committedDigest⟩) :
    (visiting b base t).Does (adoptTarget t ack) (fun status w' => status = .ok () → Greeted t w') w := by
  rw [adoptTarget, does_bind]
  apply does_state
  intro w₁ hrely₁
  rw [does_bind]
  apply does_clock
  intro w₂ now hrely₂
  rw [does_bind]
  apply does_upsertTarget
  · rfl
  · exact fun hown => absurd rfl hown
  · exact fun _ _ _ h => by cases h
  · intro w₃ status durable hrely₃
    have hrely : Rely b base (fun t' => t' = t) w w₃ := (hrely₁.trans hrely₂).trans hrely₃
    refine ⟨fun hcopy => ?_, ?_⟩
    · have hcontent : ((ledger w₃).sites t).content = ⟨ack.committedGeneration, ack.committedDigest⟩ := by
        rw [← hack]
        exact congrArg (·.content) (hrely.peer t rfl)
      rw [show (helloRuntime t (w₁.2.mem.findTarget t) ack now).mark =
        ⟨((ledger w₃).sites t).content, (((w₁.2.mem.findTarget t).getD {}).mark).window⟩ by rw [hcontent]; rfl]
      apply hrely.upright.sound.tells_content
      intro m hm
      rw [hcopy, shown_getD hm]
    · have hgreeted : Greeted t (w₃.1, w₃.2.commit durable
          (.targetUpsert (helloRuntime t (w₁.2.mem.findTarget t) ack now))) := by
        have htimely : Timely t w₃ := stable_timely.rely hrely hw
        refine ⟨htimely, ?_⟩
        rw [shown_target, show (helloRuntime t (w₁.2.mem.findTarget t) ack now).id = t from rfl, Function.update_self]
        rfl
      cases status with
      | error e => exact fun h => by cases h
      | ok _ =>
        dsimp only
        rw [does_bind]
        refine Within.does (within_markContactCurrent stable_greeted) hgreeted ?_
        intro _ w₄ _ hgreeted₄
        split
        · exact does_mono (does_rearmAfterRestart stable_greeted hgreeted₄) fun _ _ h _ => h
        · exact fun _ => hgreeted₄

/-- A session that is established. -/
def Met (t : TargetId) (result : Result SessionContext) (w : Fabric) : Prop :=
  ∀ session, result = .ok session → session.target = t ∧ Greeted t w

theorem does_admitTarget {ack : HelloAckMessage} (hw : Timely t w) (hack : timely (w.1 t).toSite (.helloAck ack)) :
    (visiting b base t).Does (admitTarget o t ack) (Met t) w := by
  have htag : (visiting b base t).Within (fun w => Timely t w ∧ timely (w.1 t).toSite (.helloAck ack)) (verifyTag o)
      fun _ => True := by
    have hR : (visiting b base t).Stable fun w => Timely t w ∧ timely (w.1 t).toSite (.helloAck ack) :=
      stable_timely.and (stable_site (P := fun p => timely p.toSite (.helloAck ack)))
    rw [verifyTag]
    split
    · exact (within_ask hR).bind fun _ _ => Thread.within_pure trivial
    · exact Thread.within_pure trivial
  rw [admitTarget]
  split
  · exact fun _ h => by cases h
  split
  · exact fun _ h => by cases h
  rw [does_bind]
  apply htag.does ⟨hw, hack⟩
  rintro (_ | ⟨⟩) w₁ - ⟨hw₁, hack₁⟩
  · exact fun _ h => by cases h
  dsimp only
  rw [does_bind]
  apply does_state
  intro w₂ hrely₂
  split
  · exact fun _ h => by cases h
  rw [does_bind]
  refine does_transmit lasting_true trivial (fun _ _ => trivial) (fun _ _ _ _ h => by cases h) ?_
  intro w₃ p hrely₃ _ hanswers _
  have hrely : Rely b base (fun t' => t' = t) w₁ w₃ := hrely₂.trans hrely₃
  have hsame : p.toSite = (w₃.1 t).toSite := serves_helloConfirm hanswers.serves
  have hw₃ : Timely t (Function.update w₃.1 t p, w₃.2) :=
    timely_sent.mpr (timely_answers hanswers hsame rfl (stable_timely.rely hrely hw₁))
  have hack₃ : (Function.update w₃.1 t p t).content = ⟨ack.committedGeneration, ack.committedDigest⟩ := by
    rw [Function.update_self, hsame, hrely.peer t rfl]
    exact hack₁
  dsimp only
  rw [does_bind]
  apply does_mono (does_adoptTarget hw₃ hack₃)
  rintro (_ | ⟨⟩) w₄ h
  · exact fun _ h => by cases h
  · rintro session ⟨⟩
    exact ⟨rfl, h rfl⟩

theorem does_hearTimely {Q : Result Incoming → Fabric → Prop} (hw : Timely t w)
    (h : ∀ r w', Since b (fun t' => t' = t) w w' → Timely t w' →
      (∀ reply, r = .ok (.reply reply) → timely (w'.1 t).toSite reply) → Q r w') :
    (visiting b base t).Does Thread.hear Q w := by
  apply does_hears
  intro w₁ r peers hrely hhears hsince
  have hw₁ : Timely t w₁ := stable_timely.rely hrely hw
  apply h r _ hsince
  · intro reply hreply
    rw [hhears.site]
    exact hw₁ reply (hhears.rest reply hreply)
  · intro reply hr
    rw [hhears.site]
    exact hw₁ reply (hhears.reply reply hr)

theorem does_handshake : (visiting b base t).Does (handshake o t) (Met t) w := by
  rw [handshake, does_bind]
  apply does_epoch
  intro w₁ _
  rw [does_bind, incarnation, does_bind]
  apply does_state
  intro w₂ _
  apply does_pure
  rw [does_bind]
  apply does_ask
  intro w₃ i _
  dsimp only
  rw [does_bind]
  refine does_transmit lasting_true trivial (fun _ _ => trivial) (fun _ _ _ _ h => by cases h) ?_
  intro w₄ p _ _ hanswers _
  -- a new connection: all that comes is about the target as it is now
  have hw₄ : Timely t (Function.update w₄.1 t p, w₄.2) := by
    rw [timely_sent]
    obtain ⟨replies, hunread, htruthful⟩ := hanswers.replies
    intro reply hreply
    rw [hunread, Peer.waiting, List.nil_append] at hreply
    exact timely_truthful (htruthful reply hreply)
  dsimp only
  rw [does_bind]
  apply does_hearTimely hw₄
  intro r w₅ _ hw₅ hreply
  split
  · exact fun _ h => by cases h
  · exact fun _ h => by cases h
  · exact does_admitTarget hw₅ (hreply _ rfl)
  · exact fun _ h => by cases h

/-! Reconciliation. -/

/-- What a report says of a target without a window, for as long as the session lasts. -/
structure Reported (base : TargetId → Generation) (t : TargetId) (report : ReconcileReportMessage) (w : Fabric) :
    Prop where
  shut : Shut t w
  vouches : (w.1 t).Vouches (base t) ⟨report.committedGeneration, report.committedDigest⟩

theorem lasting_reported {report : ReconcileReportMessage} :
    (visiting b base t).Lasting (Reported base t report) :=
  fun _ _ h hw => ⟨hw.shut.since h, h.vouches _ _ _ rfl hw.vouches⟩

/-- What a target has been at is older than what it runs, or the same. -/
def Consistent (report : ReconcileReportMessage) : Prop :=
  ∀ f ∈ report.findings, isActivationState f.state = true → f.generation < report.committedGeneration ∨
    (⟨f.generation, f.digest⟩ : Content Generation Digest) = ⟨report.committedGeneration, report.committedDigest⟩

/-- An activation is adopted from a report only if it is what the target runs, with no window open. -/
theorem content_of_adopts {input : ReconcileInput} {report : ReconcileReportMessage} (hreport : input.report = some report)
    (hconsistent : Consistent report) (h : (reconcileDelivery input).outcome = .adoptActivation) :
    report.applyPrepared = false ∧ input.desiredGeneration = report.committedGeneration ∧
      input.desiredDigest = report.committedDigest := by
  rw [reconcileDelivery, hreport] at h
  dsimp only at h
  split at h
  · cases h
  split at h
  · cases h
  next hwindow =>
    refine ⟨Bool.eq_false_of_not_eq_true hwindow, ?_⟩
    split at h
    · cases h
    next hnewer =>
      split at h
      next hproves =>
        rw [reportProvesActivation] at hproves
        split at hproves
        · cases hproves
        split at hproves
        next hother =>
          obtain ⟨f, hf, hmatch⟩ := List.any_eq_true.mp hproves
          obtain ⟨hcontent, hstate⟩ := Bool.and_eq_true_iff.mp hmatch
          obtain ⟨hgeneration, hdigest⟩ := Bool.and_eq_true_iff.mp hcontent
          obtain hlt | hsame := hconsistent f hf hstate
          · rw [eq_of_beq hgeneration] at hlt
            exact absurd ⟨Nat.ne_of_gt (Nat.zero_lt_of_lt hlt), hlt⟩ hnewer
          · obtain ⟨hg, hd⟩ := Content.mk.inj hsame
            rw [← eq_of_beq hgeneration, ← eq_of_beq hdigest]
            exact ⟨hg, hd⟩
        next hsame =>
          obtain ⟨hgeneration, hdigest⟩ := not_or.mp hsame
          exact ⟨(not_not.mp hgeneration).symm, (not_not.mp hdigest).symm⟩
      · split at h
        · split at h
          · cases h
          · split at h <;> cases h
        · split at h <;> cases h

variable {report : ReconcileReportMessage}

theorem within_resolveWindow (hR : (visiting b base t).Lasting R) :
    (visiting b base t).Within R (resolveWindow session report record) fun _ => True := by
  rw [resolveWindow]
  apply within_exchange hR rfl
  · exact fun _ _ => trivial
  · exact fun _ => Thread.within_pure trivial
  · intro r
    split
    · exact Thread.within_pure trivial
    · exact Thread.within_pure trivial
    · exact Thread.within_pure trivial

theorem does_reconcileRecord (hconsistent : Consistent report) (hlists : b.Lists record.parcel)
    (htarget : record.target = t) (hw : report.applyPrepared = false → Reported base t report w) :
    (visiting b base t).Does (reconcileRecord session report record)
      (fun status w' => status = .ok () → report.applyPrepared = false → Reported base t report w') w := by
  have hknows : (visiting b base t).Knows record := fun _ => hlists
  have hsite : b.site record.id = t := (lists_site hlists).trans htarget
  have hnew : (visiting b base t).Lasting fun w => report.applyPrepared = false → Reported base t report w :=
    fun _ _ h hw hclosed => lasting_reported _ _ h (hw hclosed)
  rw [reconcileRecord]
  dsimp only
  split
  next hadopts =>
    obtain ⟨hclosed, hgeneration, hdigest⟩ := content_of_adopts rfl hconsistent hadopts
    obtain ⟨hshut, hv⟩ := hw hclosed
    have hvouches : (w.1 t).Vouches (base t) ⟨record.generation, record.digest⟩ := by
      rw [show record.generation = report.committedGeneration from hgeneration,
        show record.digest = report.committedDigest from hdigest]
      exact hv
    rw [does_bind]
    apply does_mono (does_later (does_adoptActivation (.inl ⟨hlists, rfl⟩) hsite hvouches hshut)
      (fun _ _ h hw => h.vouches _ _ _ rfl hw) hv)
    rintro (_ | ⟨⟩) w₁ ⟨h, hv₁⟩
    · exact does_pure fun h => by cases h
    · obtain ⟨hshut₁, hdone, -⟩ := h rfl
      dsimp only
      rw [does_bind]
      apply does_snapshotDelivery
      intro r w₂ hrely₂ hr
      have hreported : Reported base t report w₂ := lasting_reported _ _ hrely₂.since ⟨hshut₁, hv₁⟩
      apply does_mono (does_acknowledge hsite
        (lasting_done (E := visiting b base t) hsite _ _ hrely₂.since hdone) hr hnew fun _ => hreported)
      exact fun _ _ h _ => h
  · rw [does_bind]
    exact (within_recordRetired hnew.stable hknows).does hw fun _ _ _ h _ => h
  · exact (within_resolveWindow hnew).does hw fun _ _ _ h _ => h
  · exact does_pure fun _ => hw
  · exact does_pure fun _ => hw
  · exact does_pure fun _ => hw
  · exact does_pure fun _ => hw

theorem does_reconcileRecords (hconsistent : Consistent report) {records : List DeliveryRecord}
    (hrecords : ∀ r ∈ records, b.Lists r.parcel ∧ r.target = t)
    (hw : report.applyPrepared = false → Reported base t report w) :
    (visiting b base t).Does (reconcileRecords session report records) (fun _ _ => True) w := by
  induction records generalizing w with
  | nil => trivial
  | cons record rest ih =>
    have hrest : ∀ r ∈ rest, b.Lists r.parcel ∧ r.target = t := fun r hr => hrecords r (List.mem_cons_of_mem _ hr)
    obtain ⟨hlists, htarget⟩ := hrecords record List.mem_cons_self
    rw [reconcileRecords]
    split
    · exact ih hrest hw
    · rw [does_bind]
      apply does_mono (does_reconcileRecord hconsistent hlists htarget hw)
      rintro (_ | ⟨⟩) w₁ h
      · trivial
      · exact ih hrest (h rfl)

theorem does_adoptReport (ht : session.target = t) (hreport : timely (w.1 t).toSite (.reconcileReport report)) :
    (visiting b base t).Does (adoptReport session report)
      (fun result _ => ∀ session', result = .ok session' → session'.target = t) w := by
  subst ht
  rw [adoptReport]
  split
  · exact fun _ h => by cases h
  split
  · exact fun _ h => by cases h
  split
  · exact fun _ h => by cases h
  rw [does_bind]
  apply does_state
  intro w₁ hrely₁
  rw [does_bind]
  apply does_clock
  intro w₂ now hrely₂
  rw [does_bind]
  apply does_upsertTarget
  · rfl
  · exact fun hown => absurd rfl hown
  · exact fun _ _ _ _ h => by cases h
  · intro w₃ status durable hrely₃
    have hrely : Rely b base (fun t' => t' = session.target) w w₃ := (hrely₁.trans hrely₂).trans hrely₃
    have hsite : w₃.1 session.target = w.1 session.target := hrely.peer _ rfl
    obtain ⟨hcontent, hwindow, hfindings⟩ := hreport
    have hconsistent : Consistent report := by
      intro f hf hstate
      obtain hlt | heq := hfindings f hf hstate
      · exact .inl (by rwa [hcontent] at hlt)
      · exact .inr (heq.trans hcontent)
    have hmark : (reportRuntime session.target (w₁.2.mem.findTarget session.target) report now).mark =
        ⟨((ledger w₃).sites session.target).content, ((ledger w₃).sites session.target).window.isSome⟩ := by
      change (⟨⟨report.committedGeneration, report.committedDigest⟩, report.applyPrepared⟩ : Mark _ _) =
        ⟨(w₃.1 session.target).content, (w₃.1 session.target).window.isSome⟩
      rw [hsite, hcontent, hwindow]
    refine ⟨fun _ => hmark ▸ hrely.upright.sound.tells_report, ?_⟩
    cases status with
    | error e => exact fun _ h => by cases h
    | ok _ =>
      dsimp only
      have hreported : report.applyPrepared = false → Reported base session.target report (w₃.1, w₃.2.commit durable
          (.targetUpsert (reportRuntime session.target (w₁.2.mem.findTarget session.target) report now))) := by
        refine fun hclosed => ⟨⟨(reportRuntime session.target (w₁.2.mem.findTarget session.target) report now).mark, ?_,
          hclosed⟩, ?_⟩
        · rw [shown_target, show (reportRuntime session.target (w₁.2.mem.findTarget session.target) report now).id =
            session.target from rfl, Function.update_self]
        · dsimp only
          rw [hsite, ← hcontent, ← hsite]
          exact ⟨hrely.upright.sound.low session.target, .inr rfl⟩
      have hnew : (visiting b base session.target).Lasting fun w =>
          report.applyPrepared = false → Reported base session.target report w :=
        fun _ _ h hw hclosed => lasting_reported _ _ h (hw hclosed)
      rw [does_bind]
      refine Within.does (within_markContactCurrent hnew.stable) hreported ?_
      intro _ w₄ _ hreported₄
      rw [does_bind, applyReconcileReport, does_bind]
      apply does_state
      intro w₅ hrely₅
      apply does_mono (does_reconcileRecords hconsistent
        (fun r hr => site_of_deliveriesOf hrely₅.upright hr) (hnew _ _ hrely₅.since hreported₄))
      rintro (_ | ⟨⟩) w₆ _
      · exact fun _ h => by cases h
      · rintro _ ⟨⟩
        rfl

theorem does_reconcile (ht : session.target = t) (hw : Timely t w) :
    (visiting b base t).Does (reconcile o session)
      (fun result _ => ∀ session', result = .ok session' → session'.target = t) w := by
  rw [reconcile, does_bind]
  apply does_epoch
  intro w₁ hrely₁
  rw [does_bind, incarnation, does_bind]
  apply does_state
  intro w₂ hrely₂
  apply does_pure
  rw [does_bind]
  refine does_transmit lasting_true trivial (fun _ _ => trivial) (fun _ _ _ _ h => by cases h) ?_
  intro w₃ p hrely₃ _ hanswers _
  have hrely : Rely b base (fun t' => t' = t) w w₃ := (hrely₁.trans hrely₂).trans hrely₃
  have hw₃ : Timely t (Function.update w₃.1 t p, w₃.2) :=
    timely_sent.mpr (timely_answers hanswers (serves_reconcileRequest hanswers.serves) rfl (stable_timely.rely hrely hw))
  dsimp only
  rw [does_bind]
  apply does_hearTimely hw₃
  intro r w₄ _ _ hreply
  split
  · exact fun _ h => by cases h
  · exact does_adoptReport ht (hreply _ rfl)
  · exact fun _ h => by cases h

/-! The session as a whole. -/

theorem within_failAll {E : Errand} {R : Fabric → Prop} (hR : E.Stable R) {code : ErrorCode} {detail : Bytes}
    {records : List DeliveryRecord} (hrecords : ∀ r ∈ records, E.b.Lists r.parcel) :
    E.Within R (failAll code detail records) fun _ => True := by
  induction records with
  | nil => exact Thread.within_pure trivial
  | cons record rest ih =>
    rw [failAll]
    apply (within_recordFailure hR fun _ => hrecords record List.mem_cons_self).bind
    exact fun _ _ => ih fun r hr => hrecords r (List.mem_cons_of_mem _ hr)

theorem does_recordSessionFailure {e : Error} :
    (visiting b base t).Does (recordSessionFailure t e) (fun _ _ => True) w := by
  rw [recordSessionFailure, does_bind]
  apply does_state
  intro w₁ hrely₁
  rw [does_bind]
  refine Within.does (within_failAll lasting_true.stable fun r hr => ?_) trivial ?_
  · obtain ⟨d, hd, rfl⟩ := List.mem_map.mp (List.mem_of_mem_filter hr)
    exact hrely₁.upright.mem d.1 d.2 (SortedMap.find_of_mem hrely₁.upright.filed.mem.sorted hd)
  intro _ w₂ _ _
  rw [does_bind]
  apply does_state
  intro w₃ hrely₃
  cases hfind : w₃.2.mem.findTarget t with
  | none => trivial
  | some existing =>
    dsimp only
    rw [does_bind]
    apply does_mono (does_rewriteTarget (hrely₃.upright.filed.mem.target hfind) rfl)
    intro _ w₄ _
    exact (within_markContactCurrent lasting_true.stable).does trivial fun _ _ _ _ => trivial

theorem does_goodbye : (visiting b base t).Does (do
    let _ ← transmit ⟨t, none, .message .goodbye⟩
    return ()) (fun _ _ => True) w := by
  rw [does_bind]
  exact Within.does (within_transmit lasting_true fun _ _ => trivial) trivial fun _ _ _ _ => trivial

theorem does_reconcileAndDrive (ht : session.target = t) (hw : Greeted t w) :
    (visiting b base t).Does (reconcileAndDrive o rounds session) (fun _ _ => True) w := by
  rw [reconcileAndDrive, does_bind]
  apply does_mono (does_later (does_reconcile ht hw.timely) marked_later hw.marked)
  rintro (e | session') w₁ ⟨hsame, hmarked⟩
  · rw [ht]
    exact does_recordSessionFailure
  · dsimp only
    rw [does_bind]
    exact does_mono (does_driveDeliveries (hsame _ rfl) hmarked) fun _ _ _ => trivial

theorem does_runSession : (visiting b base t).Does (runSession o rounds t) (fun _ _ => True) w := by
  rw [runSession, does_bind]
  apply does_ask
  intro w₁ i _
  split
  · exact does_recordSessionFailure
  rw [does_bind]
  apply does_mono does_handshake
  rintro (e | session) w₂ h
  · exact does_recordSessionFailure
  · obtain ⟨ht, hgreeted⟩ := h session rfl
    dsimp only
    rw [does_bind]
    exact does_mono (does_reconcileAndDrive ht hgreeted) fun _ _ _ => does_goodbye

/-! The tasks that have no session. -/

section Indoors

variable {E : Errand} {w : Fabric} {R : Fabric → Prop} {p : DistributorPolicy}

theorem within_commitOwn (hR : E.Stable R) {make : ControllerState → ControllerRecord}
    (hdeed : ∀ w durable, R w → Deed E.b E.own (some .own) w (w.1, w.2.commit durable (make w.2.mem))) :
    E.Within R (commit .own make) fun _ => True := by
  intro w hw
  apply commit_steps
  · exact fun _ _ _ => Rely.trans
  · exact fun w' e hrely => ⟨trivial, hR.rely hrely hw⟩
  · intro w' status durable hrely _
    have hspares : SparesTargets E.b E.own (some .own) w' (w'.1, w'.2.commit durable (make w'.2.mem)) :=
      ⟨hdeed w' durable (hR.rely hrely hw), fun _ _ h => by cases h⟩
    exact ⟨hspares, trivial, hR.store hspares rfl (hR.rely hrely hw)⟩

theorem within_ingestArtifact (hR : E.Stable R) {declared : ArtifactMetadata} :
    E.Within R (ingestArtifact declared) fun _ => True := by
  rw [ingestArtifact]
  apply (within_ask hR).bind
  intro i _
  split
  · exact Thread.within_pure trivial
  · exact (within_commitOwn hR fun _ _ _ => .artifact).bind fun _ _ => Thread.within_pure trivial

theorem within_ingestSource (hR : E.Stable R) {i : DeploymentInstruction} :
    E.Within R (ingestSource i) fun _ => True := by
  rw [ingestSource]
  split
  · exact Thread.within_pure trivial
  apply (within_ask hR).bind
  intro choice _
  split
  · exact Thread.within_pure trivial
  apply (within_clock hR).bind
  intro produced _
  apply (within_clock hR).bind
  intro stored _
  exact (within_ingestArtifact hR).bind fun _ _ => Thread.within_pure trivial

theorem within_retireAll (hR : E.Stable R) {reason : Bytes} {records : List DeliveryRecord}
    (hrecords : ∀ r ∈ records, E.b.Lists r.parcel) : E.Within R (retireAll reason records) fun _ => True := by
  induction records with
  | nil => exact Thread.within_pure trivial
  | cons other rest ih =>
    rw [retireAll]
    apply (within_recordRetired hR fun _ => hrecords other List.mem_cons_self).bind
    rintro ⟨_ | ⟨⟩, retired⟩ -
    · exact Thread.within_pure trivial
    · exact ih fun r hr => hrecords r (List.mem_cons_of_mem _ hr)

/-- Deliveries that are removed have been passed. -/
theorem does_removeAll {records : List DeliveryRecord}
    (hrecords : ∀ r ∈ records, (ledger w).Passed E.b.toOrders r.id) :
    E.Does (removeAll records) (fun _ _ => True) w := by
  induction records generalizing w with
  | nil => trivial
  | cons stale rest ih =>
    have hall : E.Lasting fun w => ∀ r ∈ stale :: rest, (ledger w).Passed E.b.toOrders r.id :=
      fun w w' h hw r hr => h.advances.passed _ (hw r hr)
    rw [removeAll, does_bind]
    refine Within.does (within_commitOwn hall.stable fun _ _ h => .remove (h stale List.mem_cons_self)) hrecords ?_
    rintro ⟨_ | ⟨⟩, before⟩ w₁ - hw₁
    · trivial
    · exact ih fun r hr => hw₁ r (List.mem_cons_of_mem _ hr)

theorem does_planTarget {i : DeploymentInstruction} {accepted : Bool} :
    E.Does (planTarget i accepted) (fun _ _ => True) w := by
  rw [planTarget, does_bind]
  apply does_state
  intro w₁ _
  exact does_rewriteTarget rfl rfl

/-- A delivery that is found in the store. -/
theorem lists_of_mem {b : Books} {base : TargetId → Generation} (hw : Upright b base w) {r : DeliveryRecord}
    (hr : r ∈ w.2.mem.deliveries.map (·.2)) : b.Lists r.parcel ∧ w.2.mem.findDelivery r.id = some r := by
  obtain ⟨d, hd, rfl⟩ := List.mem_map.mp hr
  have hfind : w.2.mem.findDelivery d.1 = some d.2 := SortedMap.find_of_mem hw.filed.mem.sorted hd
  refine ⟨hw.mem d.1 d.2 hfind, ?_⟩
  rw [hw.filed.mem.deliveries d hd]
  exact hfind

theorem newerFirst_iff {a b : DeliveryRecord} : newerFirst a b ↔ Convergence.older a b = false := by
  rw [Convergence.not_older_iff]
  constructor
  · rintro (hlt | ⟨heq, hid⟩)
    · exact ⟨hlt.le, fun heq => absurd heq hlt.ne'⟩
    · exact ⟨heq.ge, fun _ => hid⟩
  · rintro ⟨hle, hid⟩
    obtain hlt | heq := hle.lt_or_eq
    · exact .inl hlt
    · exact .inr ⟨heq.symm, hid heq.symm⟩

theorem newerFirst_sorted (records : List DeliveryRecord) : (records.insertionSort newerFirst).Pairwise newerFirst := by
  have : Std.Total newerFirst := by
    constructor
    intro a b
    rw [newerFirst_iff, newerFirst_iff]
    by_cases h : Convergence.older a b = true
    · exact .inr (Convergence.not_older_of_older h)
    · exact .inl (Bool.eq_false_of_not_eq_true h)
  have : IsTrans DeliveryRecord newerFirst := by
    constructor
    intro a b c hab hbc
    rw [newerFirst_iff] at *
    exact Convergence.not_older_trans hbc hab
  exact List.pairwise_insertionSort _ records

/-- A delivery beyond the history that is kept has a newer one of its lineage before it. -/
theorem doomed_passed {b : Books} {base : TargetId → Generation} (hw : Upright b base w)
    (hhistory : p.maxHistoryPerLineage ≠ 0) {record stale : DeliveryRecord}
    (hstale : stale ∈ doomed p record w.2.mem) : (ledger w).Passed b.toOrders stale.id := by
  rw [doomed] at hstale
  generalize hlineage : ((w.2.mem.deliveries.map (·.2)).filter fun other =>
    other.target == record.target && other.key == record.key) = lineage at hstale
  have hmember {r : DeliveryRecord} (hr : r ∈ lineage.insertionSort newerFirst) :
      b.Lists r.parcel ∧ w.2.mem.findDelivery r.id = some r ∧ r.target = record.target := by
    rw [List.mem_insertionSort, ← hlineage, List.mem_filter] at hr
    obtain ⟨hlists, hfind⟩ := lists_of_mem hw hr.1
    exact ⟨hlists, hfind, eq_of_beq (Bool.and_eq_true_iff.mp hr.2).1⟩
  have hdistinct : (lineage.insertionSort newerFirst).Pairwise fun a b => a.id ≠ b.id := by
    rw [(List.perm_insertionSort newerFirst lineage).pairwise_iff fun h => h.symm, ← hlineage]
    exact (distinct_stored hw.filed.mem).filter _
  have hsorted := newerFirst_sorted lineage
  generalize lineage.insertionSort newerFirst = l at *
  obtain ⟨n, hn⟩ := Nat.exists_eq_succ_of_ne_zero hhistory
  cases l with
  | nil => simp at hstale
  | cons head rest =>
    rw [hn, List.drop_succ_cons] at hstale
    have hrest : stale ∈ rest := List.mem_of_mem_drop hstale
    obtain ⟨hlists, hfind, htarget⟩ := hmember List.mem_cons_self
    obtain ⟨hlists', -, htarget'⟩ := hmember (List.mem_cons_of_mem _ hrest)
    have hnewer : newerFirst head stale := (List.pairwise_cons.mp hsorted).1 stale hrest
    have hne : head.id ≠ stale.id := (List.pairwise_cons.mp hdistinct).1 stale hrest
    refine ⟨head.id, settled_isSome hfind, ?_, ?_⟩
    · rw [lists_site hlists, lists_site hlists', htarget, htarget']
    · rw [lists_content hlists, lists_content hlists']
      obtain hlt | ⟨heq, hid⟩ := hnewer
      · exact .inl hlt
      · refine .inr ⟨heq.symm, ?_⟩
        by_contra hno
        exact hne (Std.Trichotomous.trichotomous (r := ((· < ·) : Bytes → Bytes → Prop)) _ _ hid hno)

theorem does_planDelivery (hhistory : p.maxHistoryPerLineage ≠ 0) {i : DeploymentInstruction} {accepted : Bool}
    {record : DeliveryRecord} (hlists : E.b.Lists record.parcel) (hstate : record.state ≠ .acknowledged) :
    E.Does (planDelivery p i accepted record) (fun _ _ => True) w := by
  rw [planDelivery, does_bind]
  apply does_state
  intro w₁ hrely₁
  rw [does_bind]
  refine Within.does (within_retireAll lasting_true.stable fun r hr => ?_) trivial ?_
  · exact (lists_of_mem hrely₁.upright (List.mem_of_mem_filter hr)).1
  rintro (_ | ⟨⟩) w₂ - -
  · trivial
  dsimp only
  rw [does_bind]
  apply does_state
  intro w₃ hrely₃
  rw [does_bind]
  apply does_mono (does_removeAll fun r hr => doomed_passed hrely₃.upright hhistory hr)
  rintro (_ | ⟨⟩) w₄ -
  · trivial
  dsimp only
  rw [does_bind]
  apply does_mono does_planTarget
  rintro (_ | ⟨⟩) w₅ -
  · trivial
  · refine Within.does (within_upsertDelivery lasting_true.stable (fun _ => hlists) ?_) trivial fun _ _ _ _ => trivial
    exact fun _ _ h => absurd h hstate

theorem does_planInstructions (hhistory : p.maxHistoryPerLineage ≠ 0) {plan : DeploymentPlan}
    {steps : List (DeploymentInstruction × TargetResolution)}
    (hplan : ∀ x ∈ steps, E.b.Lists (plannedDelivery plan x.1 0).parcel) :
    E.Does (planInstructions p plan steps) (fun _ _ => True) w := by
  induction steps generalizing w with
  | nil => trivial
  | cons step rest ih =>
    obtain ⟨i, resolution⟩ := step
    have hlists : E.b.Lists (plannedDelivery plan i 0).parcel := hplan (i, resolution) List.mem_cons_self
    have hrest : ∀ x ∈ rest, E.b.Lists (plannedDelivery plan x.1 0).parcel :=
      fun x hx => hplan x (List.mem_cons_of_mem _ hx)
    rw [planInstructions, does_bind]
    refine Within.does (within_ingestSource lasting_true.stable) trivial fun _ w₁ _ _ => ?_
    rw [does_bind]
    apply does_clock
    intro w₂ now _
    have hplanned : E.b.Lists (plannedDelivery plan i now).parcel := hlists
    dsimp only
    rw [does_bind]
    apply does_state
    intro w₃ _
    split
    next existing _ =>
      split
      · exact ih hrest
      next hstate =>
        have hinherited : (inherit (plannedDelivery plan i now) existing).state ≠ .acknowledged := by
          change (if isPendingState existing.state then existing.state else .prepared) ≠ _
          split
          · exact hstate
          · exact fun h => by cases h
        have hsame : E.b.Lists (inherit (plannedDelivery plan i now) existing).parcel := hplanned
        rw [does_bind]
        apply does_mono (does_planDelivery hhistory hsame hinherited)
        rintro (_ | ⟨⟩) w₄ -
        · trivial
        · exact ih hrest
    · have hprepared : (plannedDelivery plan i now).state ≠ .acknowledged :=
        (by decide : DeliveryState.prepared ≠ .acknowledged)
      rw [does_bind]
      apply does_mono (does_planDelivery hhistory hplanned hprepared)
      rintro (_ | ⟨⟩) w₄ -
      · trivial
      · exact ih hrest

theorem does_compact {written : Bool} : E.Does (Distributor.compact written) (fun _ _ => True) w := by
  rw [Distributor.compact]
  split
  · trivial
  · exact fun w' hrely => ⟨.compact, trivial⟩

theorem does_compactIfNeeded : E.Does compactIfNeeded (fun _ _ => True) w := by
  rw [compactIfNeeded, does_bind]
  apply does_ask
  intro w₁ choice _
  split
  · trivial
  · rw [does_bind]
    exact does_mono does_compact fun _ _ _ => trivial
  · rw [does_bind]
    exact does_mono does_compact fun _ _ _ => trivial

theorem does_submitPlan (hhistory : p.maxHistoryPerLineage ≠ 0) {plan : DeploymentPlan}
    (hplan : ∀ i ∈ plan.instructions, E.b.Lists (plannedDelivery plan i 0).parcel) :
    E.Does (submitPlan p plan) (fun _ _ => True) w := by
  rw [submitPlan]
  dsimp only
  split
  · trivial
  rw [does_bind]
  apply does_mono (does_planInstructions hhistory fun x hx => hplan x.1 (List.of_mem_zip hx).1)
  rintro (_ | ⟨⟩) w₁ -
  · trivial
  dsimp only
  rw [does_bind]
  apply does_state
  intro w₂ _
  split
  · trivial
  · exact does_compactIfNeeded

theorem does_applyLocalDecision {candidate : DeploymentId} :
    E.Does (applyLocalDecision p candidate) (fun _ _ => True) w := by
  rw [applyLocalDecision, does_bind, snapshotDelivery, does_bind]
  apply does_state
  intro w₁ hrely₁
  apply does_pure
  cases hfind : w₁.2.mem.findDelivery candidate with
  | none => trivial
  | some record =>
    have hknows : E.Knows record := fun _ => (hrely₁.upright.lists hfind).1
    rw [Option.getD_some]
    split
    · trivial
    rw [does_bind]
    apply does_clock
    intro w₂ now _
    rw [does_bind, decisionInputFor, does_bind]
    apply does_state
    intro w₃ _
    apply does_pure
    rw [does_bind]
    apply does_epoch
    intro w₄ _
    dsimp only
    split
    · rw [does_bind]
      exact (within_recordRejected lasting_true.stable hknows).does trivial fun _ _ _ _ => trivial
    · rw [does_bind]
      exact (within_recordRetired lasting_true.stable hknows).does trivial fun _ _ _ _ => trivial
    · rw [does_bind]
      exact (within_recordFailure lasting_true.stable hknows).does trivial fun _ _ _ _ => trivial
    · trivial

theorem does_retireDeployment {i : DeploymentId} {reason : Bytes} :
    E.Does (retireDeployment i reason) (fun _ _ => True) w := by
  rw [retireDeployment, does_bind, snapshotDelivery, does_bind]
  apply does_state
  intro w₁ hrely₁
  apply does_pure
  cases hfind : w₁.2.mem.findDelivery i with
  | none => trivial
  | some record =>
    rw [Option.getD_some]
    split
    · trivial
    · rw [does_bind]
      refine Within.does (within_recordRetired lasting_true.stable ?_) trivial fun _ _ _ _ => trivial
      exact fun _ => (hrely₁.upright.lists hfind).1

end Indoors

end Errand

end Distributor

end ConfigurationFabric
