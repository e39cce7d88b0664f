import ConfigurationFabric.DistributorBudget
import ConfigurationFabric.PolicySafety

/-! Sessions with one target, and the Prepares they spend on a delivery. -/

namespace ConfigurationFabric

open LittleEndian
open Threads

namespace Distributor

section Transfer

variable {α : Type} {limit : ℕ} {target : TargetId} {id : DeploymentId} {w : World} {record : DeliveryRecord}
  {session : SessionContext} {prepare : PrepareMessage} {rounds : ℕ}

/-! Waiting for an answer while the Prepare is on its way. -/

/-- What a frame that comes in then is. -/
def Replies (limit : ℕ) (id : DeploymentId) (record : DeliveryRecord) (m : Message) (w : World) (r : Result Incoming) :
    Prop :=
  Settled limit id w ∨ (∃ frame, r = .ok frame ∧ answers m frame = true) ∧ canFail record = true

theorem Replies.settled {m : Message} {r : Result Incoming} (h : Replies limit id record m w r)
    (hr : ∀ frame, r = .ok frame → answers m frame ≠ true) : Settled limit id w := by
  obtain h | ⟨⟨frame, hframe, hanswers⟩, -⟩ := h
  · exact h
  · exact absurd hanswers (hr frame hframe)

theorem Replies.spare {m : Message} {r : Result Incoming} (h : Replies limit id record m w r) :
    Settled limit id w ∨ canFail record = true := h.imp_right And.right

theorem answers_prepare {m : PrepareMessage} {frame : Incoming} (h : answers (.prepare m) frame = true) :
    (∃ ack, frame = .reply (.prepareAck ack) ∧ ack.deployment = m.deployment ∧ ack.stream = m.stream) ∨
      (∃ reject, frame = .reply (.prepareReject reject)) ∨ ∃ nack, frame = .reply (.deliveryNack nack) := by
  unfold answers at h
  split at h
  next heq =>
    cases heq
    exact .inl ⟨_, rfl, of_decide_eq_true h⟩
  · exact .inr (.inl ⟨_, rfl⟩)
  next heq => cases heq
  next heq => cases heq
  · exact .inr (.inr ⟨_, rfl⟩)
  · exact .inr (.inr ⟨_, rfl⟩)
  · exact .inr (.inr ⟨_, rfl⟩)
  · cases h

theorem answers_chunk {m : ChunkMessage} {frame : Incoming} (h : answers (.chunk m) frame = true) :
    (∃ ack, frame = .reply (.chunkAck ack) ∧ ack.stream = m.stream) ∨ ∃ nack, frame = .reply (.deliveryNack nack) := by
  unfold answers at h
  split at h
  next heq => cases heq
  next heq => cases heq
  next heq =>
    cases heq
    exact .inl ⟨_, rfl, of_decide_eq_true h⟩
  next heq => cases heq
  · exact .inr ⟨_, rfl⟩
  · exact .inr ⟨_, rfl⟩
  · exact .inr ⟨_, rfl⟩
  · cases h

theorem answers_transferComplete {m : TransferCompleteMessage} {frame : Incoming}
    (h : answers (.transferComplete m) frame = true) :
    (∃ result, frame = .reply (.transferResult result)) ∨ ∃ nack, frame = .reply (.deliveryNack nack) := by
  unfold answers at h
  split at h
  next heq => cases heq
  next heq => cases heq
  next heq => cases heq
  · exact .inl ⟨_, rfl⟩
  · exact .inr ⟨_, rfl⟩
  · exact .inr ⟨_, rfl⟩
  · exact .inr ⟨_, rfl⟩
  · cases h

theorem goes_hear_under {m : Message} {request : Request} {Q : Result Incoming → World → Prop}
    (hw : Under limit id record w) (hlast : w.1.getLast? = some request) (hframe : request.frame = .message m)
    (h : ∀ r, Replies limit id record m w r → Q r w) : Goes limit target id Thread.hear Q w := by
  apply goes_hear
  intro r _ hr
  apply h
  by_cases hid : record.id = id
  · obtain ⟨hexpected, hspare⟩ := hr (hw.flying hid).unsettled
    match r with
    | .error e => cases hexpected
    | .ok frame =>
      rw [expected, hlast, Option.any_some, answersRequest, hframe] at hexpected
      exact .inr ⟨⟨frame, rfl, hexpected⟩, hspare record (hw.flying hid).stored⟩
  · exact .inl (hw.settled hid)

theorem goes_ask_under {Q : Choice → World → Prop} (hw : Under limit id record w)
    (h : ∀ i, (Settled limit id w ∨ untroubled i = true ∧ canFail record = true) → Q i w) : Goes limit target id Thread.ask Q w := by
  apply goes_ask
  intro i hi
  apply h
  by_cases hid : record.id = id
  · obtain ⟨huntroubled, hspare⟩ := hi (hw.flying hid).unsettled
    exact .inr ⟨huntroubled, hspare record (hw.flying hid).stored⟩
  · exact .inl (hw.settled hid)

theorem goes_transmit_under {request : Request} {Q : Status → World → Prop} (hw : Under limit id record w)
    (hrequest : prepareOf id request = none) (herror : Settled limit id w → ∀ e, Q (.error e) w)
    (hok : Under limit id record (w.1 ++ [request], w.2) → Q (.ok ()) (w.1 ++ [request], w.2)) :
    Goes limit target id (transmit request) Q w := by
  apply goes_transmit hrequest
  · exact fun hu => herror (hw.settled fun hid => hu (hw.flying hid).unsettled)
  · exact hok (hw.frame (prepares_append hrequest) rfl)

variable (hvalid : parseDeploymentId id = .ok id)

include hvalid

theorem goes_failed_under {code : ErrorCode} {detail : Bytes} {cause : Cause} (hw : Under limit id record w)
    (hspare : Settled limit id w ∨ canFail record = true) :
    Goes limit target id (do return (← recordFailure record code detail cause).1) (fun _ w' => Settled limit id w') w := by
  apply goes_bind
  exact (goes_recordFailure hvalid hw.holding hspare).mono fun _ _ h => h.settled

omit hvalid in
/-- The transfer has ended with a status, or all chunks are through. -/
def Streamed (limit : ℕ) (id : DeploymentId) (record : DeliveryRecord) (x : Option Status) (w : World) : Prop :=
  match x with
  | some _ => Settled limit id w
  | none => Under limit id record w

theorem goes_ended_under {code : ErrorCode} {detail : Bytes} {cause : Cause} (hw : Under limit id record w)
    (hspare : Settled limit id w ∨ canFail record = true) :
    Goes limit target id (do return some (← recordFailure record code detail cause).1)
      (Streamed limit id record) w := by
  apply goes_bind
  exact (goes_recordFailure hvalid hw.holding hspare).mono fun _ _ h => h.settled

theorem goes_streamChunks {offset : ℕ} (hw : Under limit id record w) :
    Goes limit target id (streamChunks session prepare record rounds offset) (Streamed limit id record) w := by
  induction rounds generalizing w offset with
  | zero => trivial
  | succ rounds ih =>
    rw [streamChunks]
    split
    · exact hw
    apply goes_bind
    apply goes_ask_under hw
    intro i hi
    split
    next hstop =>
      obtain h | ⟨huntroubled, -⟩ := hi
      · exact h
      · rw [(untroubled_iff.mp huntroubled).2.1] at hstop
        cases hstop
    apply goes_bind
    apply goes_ask_under hw
    intro i hi
    have hspare : Settled limit id w ∨ canFail record = true := hi.imp_right And.right
    split
    · exact goes_ended_under hvalid hw hspare
    split
    · exact goes_ended_under hvalid hw hspare
    apply goes_bind
    apply goes_transmit_under hw rfl
    · exact fun hsettled _ => hsettled
    intro hw'
    apply goes_bind
    apply goes_hear_under hw' (List.getLast?_concat ..) rfl
    intro r hr
    split
    · exact hr.settled fun _ h => by cases h
    · exact goes_ended_under hvalid hw' hr.spare
    · split
      next hstream =>
        refine hr.settled ?_
        rintro _ ⟨⟩ hanswers
        exact hstream (of_decide_eq_true hanswers)
      split
      · exact goes_ended_under hvalid hw' hr.spare
      split
      · exact goes_ended_under hvalid hw' hr.spare
      · exact ih hw'
    next frame hnack hack =>
      refine hr.settled ?_
      rintro _ ⟨⟩ hanswers
      obtain ⟨ack, rfl, -⟩ | ⟨nack, rfl⟩ := answers_chunk hanswers
      · exact hack ack rfl
      · exact hnack nack rfl

theorem goes_verifyTransfer {request : Request} {m : TransferCompleteMessage} (hw : Under limit id record w)
    (hstate : record.id = id → record.state = .transferred) (hlast : w.1.getLast? = some request)
    (hframe : request.frame = .message (.transferComplete m)) :
    Goes limit target id (verifyTransfer rounds session record) (fun _ w' => Settled limit id w') w := by
  apply goes_bind
  apply goes_hear_under hw hlast hframe
  intro r hr
  split
  · exact hr.settled fun _ h => nomatch h
  · exact goes_failed_under hvalid hw hr.spare
  · split
    · exact goes_failed_under hvalid hw hr.spare
    · have hlegal : Settled limit id w ∨ isLegalTransition record.state .verified = true := by
        by_cases hid : record.id = id
        · rw [hstate hid]
          exact .inr rfl
        · exact .inl (hw.settled hid)
      apply goes_bind
      apply Thread.Steps.mono
      · exact goes_transition hvalid hw.safe hw.settled hlegal fun hid =>
          fits_past (hw.holding.spent hid) rfl fun h => nomatch h
      · rintro ⟨_ | ⟨⟩, moved⟩ w' h
        · exact h.settled
        · exact goes_activateDelivery hvalid (h.ok rfl).2
  next frame hnack hresult =>
    refine hr.settled ?_
    rintro _ ⟨⟩ hanswers
    obtain ⟨result, rfl⟩ | ⟨nack, rfl⟩ := answers_transferComplete hanswers
    · exact hresult result rfl
    · exact hnack nack rfl

theorem goes_completeTransfer (hw : Under limit id record w) (hstate : record.id = id → record.state ≠ .prepared) :
    Goes limit target id (completeTransfer rounds session prepare record) (fun _ w' => Settled limit id w') w := by
  apply goes_bind
  apply goes_transmit_under hw rfl
  · exact fun hsettled _ => hsettled
  intro hw'
  dsimp only
  split
  next hearly =>
    apply goes_bind
    apply Thread.Steps.mono
    · refine goes_transition_fly hvalid hw' rfl fun hid => ?_
      rw [hearly.resolve_right (hstate hid)]
      rfl
    · rintro ⟨e | ⟨⟩, moved⟩ w' h
      · exact h.error e rfl
      · obtain ⟨⟨-, hmoved⟩, hunder⟩ := h.ok rfl
        apply goes_verifyTransfer hvalid hunder (fun _ => hmoved)
        · rw [h.sent]
          exact List.getLast?_concat ..
        · rfl
  next hearly =>
    apply goes_verifyTransfer hvalid hw' _ (List.getLast?_concat ..) rfl
    intro hid
    have hflying := (hw'.flying hid).early
    cases hs : record.state <;> simp_all [isEarly]

theorem goes_noteResume {resumeFrom : ℕ} (hw : Under limit id record w) :
    Goes limit target id (noteResume record resumeFrom)
      (Onward limit id w fun r => r.id = record.id ∧ r.state = record.state) w := by
  rw [noteResume]
  split
  · exact goes_noteEvent_fly hvalid hw
  · exact ⟨rfl, fun _ => ⟨⟨rfl, rfl⟩, hw⟩, fun _ h => by cases h⟩

theorem goes_transferArtifact {resumeFrom : ℕ} (hw : Under limit id record w)
    (hstate : record.id = id → record.state ≠ .prepared) :
    Goes limit target id (transferArtifact rounds session prepare record resumeFrom)
      (fun _ w' => Settled limit id w') w := by
  apply goes_bind
  apply goes_ask_under hw
  intro i hi
  split
  · exact goes_failed_under hvalid hw (hi.imp_right And.right)
  · apply goes_bind
    refine (goes_noteResume hvalid hw).mono ?_
    rintro ⟨e | ⟨⟩, noted⟩ w₁ h
    · exact h.error e rfl
    · obtain ⟨⟨hid, hnoted⟩, hunder⟩ := h.ok rfl
      apply goes_bind
      refine (goes_streamChunks hvalid hunder).mono ?_
      rintro (_ | status) w₂ h₂
      · apply goes_completeTransfer hvalid h₂
        rw [hid, hnoted]
        exact hstate
      · exact h₂

theorem goes_awaitPrepare {request : Request} (hw : Under limit id record w)
    (hstate : record.id = id → record.state ≠ .prepared) (hlast : w.1.getLast? = some request)
    (hframe : request.frame = .message (.prepare prepare)) (hname : prepare.deployment = record.id) :
    Goes limit target id (awaitPrepare rounds session prepare record) (fun _ w' => Settled limit id w') w := by
  apply goes_bind
  apply goes_hear_under hw hlast hframe
  intro r hr
  split
  · exact hr.settled fun _ h => nomatch h
  next ack =>
    split
    next hmismatch =>
      refine hr.settled ?_
      rintro _ ⟨⟩ hanswers
      obtain ⟨hdeployment, hstream⟩ := of_decide_eq_true hanswers
      exact hmismatch.elim (fun h => h (hdeployment.trans hname)) fun h => h hstream
    split
    · exact goes_adopt hvalid hw.holding (fun _ h => h.settled) fun r w' h _ =>
        (goes_acknowledge hvalid h).mono fun _ _ h => h.settled
    · exact goes_transferArtifact hvalid hw hstate
  · split
    · apply goes_bind
      exact (goes_recordRejected hvalid hw.holding).mono fun _ _ h => h.settled
    split
    · apply goes_bind
      exact (goes_recordRetired hvalid hw.holding).mono fun _ _ h => h.settled
    split
    · apply goes_bind
      exact (goes_recordRejected hvalid hw.holding).mono fun _ _ h => h.settled
    · exact goes_failed_under hvalid hw hr.spare
  · exact goes_failed_under hvalid hw hr.spare
  next frame hack hreject hnack =>
    refine hr.settled ?_
    rintro _ ⟨⟩ hanswers
    obtain ⟨ack, rfl, -⟩ | ⟨reject, rfl⟩ | ⟨nack, rfl⟩ := answers_prepare hanswers
    · exact hack ack rfl
    · exact hreject reject rfl
    · exact hnack nack rfl

omit hvalid in
theorem prepareOf_other {m : Request} {p : PrepareMessage} (hm : m.frame = .message (.prepare p))
    (hp : p.deployment ≠ id) : prepareOf id m = none := by
  rw [prepareOf, hm]
  exact if_neg hp

omit hvalid in
/-- The Prepare goes out. -/
theorem At.offer (hlimit : 1 ≤ limit) (hw : At limit id record w)
    (hstate : record.id = id → isEarly record.state = true) {m : Request} (hm : m.frame = .message (.prepare prepare))
    (hname : prepare.deployment = record.id) (hattempt : prepare.attempt = record.attempt) :
    Under limit id record (w.1 ++ [m], w.2) := by
  constructor
  · intro hid
    have hfits := hw.settled.fits record (hw.stored hid)
    have hroom : (prepares id w.1).length + 1 ≤ limit := by
      obtain hnone | ⟨hle, hlt⟩ := hfits.early (hstate hid)
      · omega
      · omega
    have hspent : (prepares id w.1).length ≤ record.failures := by
      obtain hnone | ⟨hle, -⟩ := hfits.early (hstate hid)
      · omega
      · exact hle
    have hone : prepares id (w.1 ++ [m]) = prepares id w.1 ++ [prepare] := by
      simp [prepares, prepareOf, hm, hname, hid]
    refine ⟨hw.settled.filed, ?_, hw.stored hid, hstate hid, ?_, ?_⟩
    · rw [hone, List.length_append]
      exact hroom
    · rw [hone, List.length_append]
      exact Nat.succ_le_succ hspent
    · rw [hone, List.getLast?_concat]
      exact congrArg some hattempt
  · intro hid
    exact hw.settled.frame (prepares_append (prepareOf_other hm (hname ▸ hid))) hw.settled.filed rfl

theorem goes_offerAndTransfer {o : DistributorOptions} (hlimit : 1 ≤ limit) (hw : At limit id record w)
    (hstate : record.id = id → isEarly record.state = true) :
    Goes limit target id (offerAndTransfer o rounds session record) (fun _ w' => Settled limit id w') w := by
  apply goes_bind
  apply goes_epoch
  have hw' := hw.offer hlimit hstate (m := ⟨session.target, some record.id, .message (.prepare
    (prepareMessage o session w.2.mem.epoch record))⟩) rfl rfl rfl
  apply goes_bind
  apply goes_emit
  · exact fun _ => hw'.safe
  · exact fun _ _ => hw.settled
  dsimp only
  split
  next hprepared =>
    apply goes_bind
    apply Thread.Steps.mono
    · refine goes_transition_fly hvalid hw' rfl fun _ => ?_
      rw [hprepared]
      rfl
    · rintro ⟨e | ⟨⟩, moved⟩ w' h
      · exact h.error e rfl
      · obtain ⟨⟨hid, hmoved⟩, hunder⟩ := h.ok rfl
        apply goes_awaitPrepare hvalid hunder
        · exact fun _ => by rw [hmoved]; exact fun h => nomatch h
        · rw [h.sent]
          exact List.getLast?_concat ..
        · rfl
        · exact hid.symm
  next hprepared => exact goes_awaitPrepare hvalid hw' (fun _ => hprepared) (List.getLast?_concat ..) rfl rfl

end Transfer

/-! Driving. -/

theorem decide_offers {p : DistributorPolicy} {i : DecisionInput} {epoch : Epoch} {generation : Generation}
    (h : (p.decide i epoch generation).action = .offer ∨ (p.decide i epoch generation).action = .resumeTransfer) :
    isEarly i.state = true ∨ i.state = .failed ∧ i.failures < p.maxAttempts := by
  obtain hstate | hstate | hstate | hfailed := DistributorPolicy.state_of_offers h
  · exact .inl (by rw [hstate]; rfl)
  · exact .inl (by rw [hstate]; rfl)
  · exact .inl (by rw [hstate]; rfl)
  · exact .inr hfailed

theorem buildDecisionInput_state {s : ControllerState} {p : DistributorPolicy} {r : DeliveryRecord} {now : ℤ} :
    (buildDecisionInput s p r now).state = r.state := by
  rw [buildDecisionInput]
  split <;> rfl

theorem buildDecisionInput_failures {s : ControllerState} {p : DistributorPolicy} {r : DeliveryRecord} {now : ℤ} :
    (buildDecisionInput s p r now).failures = r.failures := by
  rw [buildDecisionInput]
  split <;> rfl

section Driving

variable {target : TargetId} {id : DeploymentId} {w : World} {record : DeliveryRecord} {session : SessionContext}
  {rounds : ℕ} {o : DistributorOptions} (hvalid : parseDeploymentId id = .ok id) (hlimit : 1 ≤ o.policy.maxAttempts)

include hvalid

theorem goes_giveUp {reason : String} (hw : At o.policy.maxAttempts id record w)
    (hspent : o.policy.maxAttempts ≤ record.failures) :
    Goes o.policy.maxAttempts target id (giveUp record reason)
      (fun _ w' => Settled o.policy.maxAttempts id w') w := by
  rw [giveUp]
  split
  · exact hw.settled
  apply goes_bind
  apply Thread.Steps.mono
  · refine goes_transition hvalid (.inl hw.settled) (fun _ => hw.settled) (.inl hw.settled) fun hid => ?_
    have hbound := hw.settled.bound
    exact ⟨(fun h => by cases h), fun _ => le_trans hbound hspent, hw.holding.spent hid⟩
  · rintro ⟨_ | ⟨⟩, moved⟩ w' h
    · exact h.settled
    · have hat := (h.ok rfl).2
      exact (goes_upsertDelivery hvalid hat.settled fun hid => hat.fits rfl rfl rfl hid).mono fun _ _ h => h.settled

include hlimit

theorem goes_offerDelivery (hw : At o.policy.maxAttempts id record w)
    (hstate : isEarly record.state = true ∨ record.state = .failed ∧ record.failures < o.policy.maxAttempts) :
    Goes o.policy.maxAttempts target id (offerDelivery o rounds session record)
      (fun _ w' => Settled o.policy.maxAttempts id w') w := by
  rw [offerDelivery]
  split
  next hfailed =>
    have hroom : record.failures < o.policy.maxAttempts := by
      obtain hearly | ⟨-, hroom⟩ := hstate
      · rw [hfailed] at hearly
        cases hearly
      · exact hroom
    apply goes_bind
    apply Thread.Steps.mono
    · refine goes_transition hvalid (.inl hw.settled) (fun _ => hw.settled) (.inl hw.settled) fun hid => ?_
      have hfits := hw.settled.fits record (hw.stored hid)
      exact ⟨fun _ => .inr ⟨hfits.failed hfailed, hroom⟩, (fun h => by cases h), hfits.spent⟩
    · rintro ⟨_ | ⟨⟩, moved⟩ w' h
      · exact h.settled
      · obtain ⟨⟨-, hmoved⟩, hat⟩ := h.ok rfl
        exact goes_offerAndTransfer hvalid hlimit hat fun _ => by rw [hmoved]; rfl
  next hfailed =>
    apply goes_offerAndTransfer hvalid hlimit hw
    exact fun _ => hstate.resolve_right fun h => hfailed h.1

theorem goes_driveDelivery {name : DeploymentId} {steps : ℕ} (hw : Settled o.policy.maxAttempts id w) :
    Goes o.policy.maxAttempts target id (driveDelivery o rounds session name steps)
      (fun _ w' => Settled o.policy.maxAttempts id w') w := by
  induction steps generalizing w with
  | zero => exact hw
  | succ steps ih =>
    rw [driveDelivery]
    apply goes_bind
    apply goes_ask
    intro i _
    split
    · exact hw
    apply goes_bind
    apply goes_snapshotDelivery hvalid hw
    intro record hat _
    split
    · exact hw
    apply goes_bind
    apply goes_clock
    intro now
    apply goes_bind
    apply goes_bind
    apply goes_state
    apply goes_bind
    apply goes_epoch
    dsimp only
    split
    · exact hw
    · exact hw
    · exact hw
    · apply goes_bind
      exact (goes_recordRejected hvalid hat.holding).mono fun _ _ h => h.settled
    · apply goes_bind
      exact (goes_recordRetired hvalid hat.holding).mono fun _ _ h => h.settled
    next hgiveUp =>
      apply goes_giveUp hvalid hat
      rw [← buildDecisionInput_failures]
      exact DistributorPolicy.budget_of_giveUp hgiveUp
    · exact goes_failedStatus hvalid hat
    next hoffer =>
      refine goes_check (goes_offerDelivery hvalid hlimit hat ?_) (fun _ _ h => h) fun _ => ih
      have hdecided := decide_offers (.inl hoffer)
      rwa [buildDecisionInput_state, buildDecisionInput_failures] at hdecided
    next hresume =>
      refine goes_check (goes_offerDelivery hvalid hlimit hat ?_) (fun _ _ h => h) fun _ => ih
      have hdecided := decide_offers (.inr hresume)
      rwa [buildDecisionInput_state, buildDecisionInput_failures] at hdecided
    · exact goes_check (goes_activateDelivery hvalid hat) (fun _ _ h => h) fun _ => ih

theorem goes_driveAll {queue : List DeliveryRecord} {errors : ℕ} (hw : Settled o.policy.maxAttempts id w) :
    Goes o.policy.maxAttempts target id (driveAll o rounds session queue errors)
      (fun _ w' => Settled o.policy.maxAttempts id w') w := by
  induction queue generalizing w errors with
  | nil => exact hw
  | cons queued rest ih =>
    rw [driveAll]
    apply goes_bind
    apply goes_ask
    intro i _
    split
    · exact hw
    apply goes_bind
    refine (goes_driveDelivery hvalid hlimit hw).mono fun status w' h => ?_
    match status with
    | .ok () => exact ih h
    | .error e =>
      dsimp only
      split
      · exact h
      · exact ih h

theorem goes_driveDeliveries (hw : Settled o.policy.maxAttempts id w) :
    Goes o.policy.maxAttempts target id (driveDeliveries o rounds session)
      (fun _ w' => Settled o.policy.maxAttempts id w') w := by
  apply goes_bind
  apply goes_state
  exact goes_driveAll hvalid hlimit hw

end Driving

/-! Whole sessions. -/

section Sessions

variable {limit : ℕ} {target : TargetId} {id : DeploymentId} {w : World} {records : List DeliveryRecord}

/-- Copies taken since the last Prepare. -/
def Copies (id : DeploymentId) (records : List DeliveryRecord) (w : World) : Prop :=
  ∀ r ∈ records, r.id = id → (prepares id w.1).length ≤ r.failures + 1

theorem Copies.tail {r : DeliveryRecord} {w' : World} (h : Copies id (r :: records) w)
    (hsent : prepares id w'.1 = prepares id w.1) : Copies id records w' := by
  intro r' hr' hid
  rw [hsent]
  exact h r' (List.mem_cons_of_mem _ hr') hid

theorem Copies.head {r : DeliveryRecord} (h : Copies id (r :: records) w) (hw : Settled limit id w) :
    Holding limit id r w :=
  ⟨fun _ => hw, fun hid => h r List.mem_cons_self hid, .inl hw⟩

theorem Settled.copies (hw : Settled limit id w) (h : ∀ r ∈ records, r ∈ w.2.mem.deliveries.map (·.2)) :
    Copies id records w := by
  intro r hr hid
  obtain ⟨e, he, rfl⟩ := List.mem_map.mp (h r hr)
  have hname : e.1 = id := (hw.filed.mem.deliveries e he).symm.trans hid
  have hstored : w.2.mem.findDelivery id = some e.2 := SortedMap.find_of_mem hw.filed.mem.sorted (hname ▸ he)
  exact (hw.fits e.2 hstored).spent

theorem goes_send {request : Request} {Q : Status → World → Prop} (hw : Settled limit id w)
    (hrequest : prepareOf id request = none) (herror : ∀ e, Q (.error e) w)
    (hok : Still limit id w (w.1 ++ [request], w.2) → Q (.ok ()) (w.1 ++ [request], w.2)) :
    Goes limit target id (transmit request) Q w := by
  apply goes_transmit hrequest
  · exact fun _ => herror
  · exact hok ⟨hw.frame (prepares_append hrequest) hw.filed rfl, prepares_append hrequest⟩

theorem goes_markContactCurrent {name : TargetId} {current : Bool} {atMillis : ℤ} (hw : Settled limit id w) :
    Goes limit target id (markContactCurrent name current atMillis) (fun _ w' => Still limit id w w') w := by
  have hmarked : Still limit id w (w.1, { w.2 with mem := markContact name current atMillis w.2.mem }) := by
    refine ⟨hw.frame rfl ⟨hw.filed.mem.markContact _ _ _, hw.filed.dur⟩ ?_, rfl⟩
    rw [markContact]
    split <;> rfl
  apply goes_bind
  apply goes_update
  · exact fun _ => .inl hmarked.settled
  · exact hmarked

variable (hvalid : parseDeploymentId id = .ok id)

include hvalid

theorem goes_failAll {code : ErrorCode} {detail : Bytes} (hw : Settled limit id w) (hcopies : Copies id records w) :
    Goes limit target id (failAll code detail records) (fun _ w' => Settled limit id w') w := by
  induction records generalizing w with
  | nil => exact hw
  | cons r rest ih =>
    apply goes_bind
    refine (goes_recordFailure hvalid (hcopies.head hw) (.inl hw)).mono fun _ w' h => ?_
    exact ih h.settled (hcopies.tail h.sent)

theorem goes_recordSessionFailure {name : TargetId} {e : Error} (hw : Settled limit id w) :
    Goes limit target id (recordSessionFailure name e) (fun _ w' => Settled limit id w') w := by
  apply goes_bind
  apply goes_state
  apply goes_bind
  have hcopies : Copies id ((w.2.mem.deliveries.map (·.2)).filter fun r =>
      r.target == name && isPendingState r.state) w := hw.copies fun _ hr => List.mem_of_mem_filter hr
  refine (goes_failAll hvalid hw hcopies).mono fun _ w₁ h₁ => ?_
  apply goes_bind
  apply goes_state
  split
  · exact h₁
  · apply goes_bind
    refine (goes_upsertTarget h₁).mono fun _ w₂ h₂ => ?_
    exact (goes_markContactCurrent h₂.settled).mono fun _ _ h => h.settled

/-! Reconciliation. -/

variable {session : SessionContext} {report : ReconcileReportMessage} {record : DeliveryRecord}

omit hvalid in
theorem goes_resolveWindow (hw : Settled limit id w) :
    Goes limit target id (resolveWindow session report record) (fun _ w' => Still limit id w w') w := by
  apply goes_bind
  apply goes_send hw rfl
  · exact fun _ => hw.still
  · intro hsent
    apply goes_bind
    apply goes_hear
    intro r _ _
    split
    · exact hsent
    · exact hsent
    · exact hsent

theorem goes_reconcileRecord (hw : Holding limit id record w) (hsettled : Settled limit id w) :
    Goes limit target id (reconcileRecord session report record) (fun _ w' => Still limit id w w') w := by
  rw [reconcileRecord]
  dsimp only
  split
  · apply goes_adopt hvalid hw
    · exact fun _ h => h
    · exact fun r w' hat h => (goes_acknowledge hvalid hat).mono fun _ _ h' => h.trans h'
  · apply goes_bind
    exact (goes_recordRetired hvalid hw).mono fun _ _ h => h
  · exact goes_resolveWindow hsettled
  · exact hsettled.still
  · exact hsettled.still
  · exact hsettled.still
  · exact hsettled.still

theorem goes_reconcileRecords (hw : Settled limit id w) (hcopies : Copies id records w) :
    Goes limit target id (reconcileRecords session report records) (fun _ w' => Settled limit id w') w := by
  induction records generalizing w with
  | nil => exact hw
  | cons r rest ih =>
    rw [reconcileRecords]
    split
    · exact ih hw (hcopies.tail rfl)
    · apply goes_bind
      refine (goes_reconcileRecord hvalid (hcopies.head hw) hw).mono fun status w' h => ?_
      cases status with
      | error e => exact h.settled
      | ok _ => exact ih h.settled (hcopies.tail h.sent)

theorem goes_adoptReport (hw : Settled limit id w) :
    Goes limit target id (adoptReport session report) (fun _ w' => Settled limit id w') w := by
  rw [adoptReport]
  split
  · exact hw
  split
  · exact hw
  split
  · exact hw
  apply goes_bind
  apply goes_state
  apply goes_bind
  apply goes_clock
  intro now
  apply goes_bind
  refine (goes_upsertTarget hw).mono fun status w₁ h₁ => ?_
  cases status with
  | error e => exact h₁.settled
  | ok _ =>
    apply goes_bind
    refine (goes_markContactCurrent h₁.settled).mono fun _ w₂ h₂ => ?_
    apply goes_bind
    apply goes_bind
    apply goes_state
    have hcopies : Copies id (deliveriesOf session.target w₂.2.mem) w₂ := h₂.settled.copies fun _ hr =>
      List.mem_of_mem_filter ((List.mem_insertionSort _).mp hr)
    refine (goes_reconcileRecords hvalid h₂.settled hcopies).mono fun status w₃ h₃ => ?_
    cases status with
    | error e => exact h₃
    | ok _ => exact h₃

theorem goes_reconcile {o : DistributorOptions} (hw : Settled limit id w) :
    Goes limit target id (reconcile o session) (fun _ w' => Settled limit id w') w := by
  apply goes_bind
  apply goes_epoch
  apply goes_bind
  apply goes_bind
  apply goes_state
  apply goes_bind
  apply goes_send hw rfl
  · exact fun _ => hw
  · intro hsent
    apply goes_bind
    apply goes_hear
    intro r _ _
    split
    · exact hsent.settled
    · exact goes_adoptReport hvalid hsent.settled
    · exact hsent.settled

/-! The handshake. -/

variable {o : DistributorOptions}

omit hvalid in
theorem goes_adoptTarget {ack : HelloAckMessage} (hw : Settled limit id w)
    (hcalm : restartObserved (w.2.mem.findTarget target) ack = false) :
    Goes limit target id (adoptTarget target ack) (fun _ w' => Settled limit id w') w := by
  apply goes_bind
  apply goes_state
  apply goes_bind
  apply goes_clock
  intro now
  apply goes_bind
  refine (goes_upsertTarget hw).mono fun status w₁ h₁ => ?_
  match status with
  | .error e => exact h₁.settled
  | .ok () =>
    apply goes_bind
    refine (goes_markContactCurrent h₁.settled).mono fun _ w₂ h₂ => ?_
    rw [hcalm]
    exact h₂.settled

omit hvalid in
theorem goes_admitTarget {ack : HelloAckMessage} (hw : Settled limit id w)
    (hcalm : restartObserved (w.2.mem.findTarget target) ack = false) :
    Goes limit target id (admitTarget o target ack) (fun _ w' => Settled limit id w') w := by
  rw [admitTarget]
  split
  · exact hw
  split
  · exact hw
  apply goes_bind
  have htag : Goes limit target id (verifyTag o) (fun _ w' => w' = w) w := by
    rw [verifyTag]
    split
    · apply goes_bind
      apply goes_ask
      exact fun _ _ => rfl
    · rfl
  refine htag.mono fun status w' h => ?_
  subst h
  cases status with
  | error e => exact hw
  | ok _ =>
    apply goes_bind
    apply goes_state
    split
    · exact hw
    apply goes_bind
    apply goes_send hw rfl
    · exact fun _ => hw
    · intro hsent
      apply goes_bind
      refine (goes_adoptTarget hsent.settled hcalm).mono fun status w'' h => ?_
      cases status with
      | error e => exact h
      | ok _ => exact h

omit hvalid in
theorem goes_handshake (hw : Settled limit id w) :
    Goes limit target id (handshake o target) (fun _ w' => Settled limit id w') w := by
  apply goes_bind
  apply goes_epoch
  apply goes_bind
  apply goes_bind
  apply goes_state
  apply goes_bind
  apply goes_ask
  intro i _
  apply goes_bind
  apply goes_send hw rfl
  · exact fun _ => hw
  · intro hsent
    apply goes_bind
    apply goes_hear
    intro r hcalm _
    split
    · exact hsent.settled
    · exact hsent.settled
    · exact goes_admitTarget hsent.settled (hcalm _ rfl)
    · exact hsent.settled

end Sessions

section Program

variable {target : TargetId} {id : DeploymentId} {w : World} {o : DistributorOptions} {rounds : ℕ}
  (hvalid : parseDeploymentId id = .ok id)

include hvalid

theorem goes_runSession (hlimit : 1 ≤ o.policy.maxAttempts) (hw : Settled o.policy.maxAttempts id w) :
    Goes o.policy.maxAttempts target id (runSession o rounds target)
      (fun _ w' => Settled o.policy.maxAttempts id w') w := by
  apply goes_bind
  apply goes_ask
  intro i _
  split
  · exact goes_recordSessionFailure hvalid hw
  apply goes_bind
  refine (goes_handshake hw).mono fun result w₁ h₁ => ?_
  match result with
  | .error e => exact goes_recordSessionFailure hvalid h₁
  | .ok session =>
    have hgoodbye {w : World} (h : Settled o.policy.maxAttempts id w) : Goes o.policy.maxAttempts target id (do
        let _ ← transmit ⟨target, none, .message .goodbye⟩
        return ()) (fun _ w' => Settled o.policy.maxAttempts id w') w := by
      apply goes_bind
      apply goes_send h rfl
      · exact fun _ => h
      · exact fun hsent => hsent.settled
    have hdrive : Goes o.policy.maxAttempts target id (reconcileAndDrive o rounds session)
        (fun _ w' => Settled o.policy.maxAttempts id w') w₁ := by
      apply goes_bind
      refine (goes_reconcile hvalid h₁).mono fun result w₂ h₂ => ?_
      match result with
      | .error e => exact goes_recordSessionFailure hvalid h₂
      | .ok session =>
        apply goes_bind
        exact (goes_driveDeliveries hvalid hlimit h₂).mono fun _ _ h => h
    apply goes_bind
    exact hdrive.mono fun _ _ h => hgoodbye h

theorem goes_applyLocalDecision {candidate : DeploymentId} (hw : Settled o.policy.maxAttempts id w) :
    Goes o.policy.maxAttempts target id (applyLocalDecision o.policy candidate)
      (fun _ w' => Settled o.policy.maxAttempts id w') w := by
  apply goes_bind
  apply goes_snapshotDelivery hvalid hw
  intro record hat _
  split
  · exact hw
  apply goes_bind
  apply goes_clock
  intro now
  apply goes_bind
  apply goes_bind
  apply goes_state
  apply goes_bind
  apply goes_epoch
  dsimp only
  split
  · apply goes_bind
    exact (goes_recordRejected hvalid hat.holding).mono fun _ _ h => h.settled
  · apply goes_bind
    exact (goes_recordRetired hvalid hat.holding).mono fun _ _ h => h.settled
  · exact goes_failedStatus hvalid hat
  · exact hw

end Program

/-! Runs of sessions. -/

def Task.serves (target : TargetId) : Task → Prop
  | .session name _ => name = target
  | .localDecision _ => True
  | _ => False

/-- How far a thread comes when it runs alone. -/
abbrev Comes (target : TargetId) (id : DeploymentId) (strict : Prop) (p : Worker Status) (w : World)
    (p' : Worker Status) (w' : World) : Prop :=
  Relation.ReflTransGen (fun x y => ∃ c, Thread.Move (network target id strict) x.1 x.2 c y.1 y.2) (p, w) (p', w')

/-- The process is started again, at first perhaps in vain. -/
def Restarts (o : DistributorOptions) (w w' : World) : Prop :=
  ∃ w₁, Relation.ReflTransGen (fun u v => ∃ p, Reaches («open» o) (boot u) p v) w w₁ ∧
    Reaches («open» o) (boot w₁) (.ret (.ok ())) w'

/-- Sessions with one target, local decisions and restarts, one after the other. -/
inductive Sittings (o : DistributorOptions) (target : TargetId) (id : DeploymentId) (strict : Prop) : World → World → Prop
  | none {w : World} : Sittings o target id strict w w
  | task {w w₁ w₂ : World} {t : Task} {status : Status} : Sittings o target id strict w w₁ → t.serves target →
      Comes target id strict (program o t) w₁ (.ret status) w₂ → Sittings o target id strict w w₂
  | restart {w w₁ w₂ w₃ : World} {t : Task} {p : Worker Status} : Sittings o target id strict w w₁ → t.serves target →
      Comes target id strict (program o t) w₁ p w₂ →
      (strict → ¬ Unsettled id w₂ ∧ w₂.2.dur.findDelivery id = w₂.2.mem.findDelivery id) →
      Restarts o w₂ w₃ → Sittings o target id strict w w₃

section Runs

variable {o : DistributorOptions} {target : TargetId} {id : DeploymentId} {limit : ℕ} {w w' : World}

/-- What is in the journal accounts for every Prepare. -/
structure Journalled (limit : ℕ) (id : DeploymentId) (w : World) : Prop where
  filed : w.2.Filed
  bound : (prepares id w.1).length ≤ limit
  stores : Stores id (Fits limit (prepares id w.1).length) w

theorem Journalled.settled (h : Journalled limit id w) : Settled limit id w := ⟨h.filed, h.bound, h.stores.1⟩

theorem Journalled.boot (h : Journalled limit id w) : Journalled limit id (boot w) :=
  ⟨⟨h.filed.dur, h.filed.dur⟩, h.bound, h.stores.2, h.stores.2⟩

theorem Journalled.opens (h : Journalled limit id w) (hopens : Opens w w') : Journalled limit id w' := by
  refine ⟨hopens.filed h.filed, ?_, ?_⟩
  · rw [hopens.sent]
    exact h.bound
  · rw [hopens.sent]
    refine hopens.stores (fun r detail htransferred hfits => ?_) h.stores
    have hearly : isEarly r.state = true := by
      rw [htransferred]
      rfl
    exact ⟨fun _ => hfits.early hearly, (fun h => nomatch h), hfits.spent⟩

theorem Settled.restarts (h : Settled limit id w) (hstored : w.2.dur.findDelivery id = w.2.mem.findDelivery id)
    (hrestarts : Restarts o w w') : Settled limit id w' := by
  obtain ⟨w₁, hcut, hopen⟩ := hrestarts
  have hw : Journalled limit id w := ⟨h.filed, h.bound, h.fits, hstored ▸ h.fits⟩
  have hw₁ : Journalled limit id w₁ := by
    clear hopen
    induction hcut with
    | refl => exact hw
    | tail _ hstep ih =>
      obtain ⟨p, hreach⟩ := hstep
      exact ih.boot.opens (reaches_open hreach).1
  exact (hw₁.boot.opens (reaches_open hopen).1).settled

theorem Settled.comes {t : Task} {p : Worker Status} (hvalid : parseDeploymentId id = .ok id)
    (hlimit : 1 ≤ o.policy.maxAttempts) (hw : Settled o.policy.maxAttempts id w) (ht : t.serves target)
    (hcomes : Comes target id True (program o t) w p w') :
    Safe o.policy.maxAttempts id w' ∧ ∀ status, p = .ret status → Settled o.policy.maxAttempts id w' := by
  have hgoes : Goes o.policy.maxAttempts target id (program o t)
      (fun _ w' => Settled o.policy.maxAttempts id w') w := by
    cases t with
    | session name rounds =>
      cases ht
      apply goes_bind
      exact (goes_runSession hvalid hlimit hw).mono fun _ _ h => h
    | localDecision candidate => exact goes_applyLocalDecision hvalid hw
    | _ => cases ht
  have hreached := hgoes.reaches (R := fun w w' => Safe o.policy.maxAttempts id w → Safe o.policy.maxAttempts id w')
    (fun _ => rfl) (fun _ h => h) (fun _ h => h) (fun _ _ _ h h' hu => h' (h hu)) (fun _ _ _ h => h) hcomes
  refine ⟨hreached.1 (.inl hw), ?_⟩
  rintro status rfl
  exact hreached.2

theorem Sittings.settled (hvalid : parseDeploymentId id = .ok id) (hlimit : 1 ≤ o.policy.maxAttempts)
    (h : Sittings o target id True w w') (hw : Settled o.policy.maxAttempts id w) :
    Settled o.policy.maxAttempts id w' := by
  induction h with
  | none => exact hw
  | task _ ht hcomes ih => exact (ih.comes hvalid hlimit ht hcomes).2 _ rfl
  | restart _ ht hcomes hcut hrestarts ih =>
    obtain ⟨hsettled, hstored⟩ := hcut trivial
    exact ((ih.comes hvalid hlimit ht hcomes).1.settled hsettled).restarts hstored hrestarts

theorem validate_maxAttempts {p : DistributorPolicy} (h : p.validate = .ok ()) : 1 ≤ p.maxAttempts := by
  rw [DistributorPolicy.validate] at h
  split at h
  · cases h
  next hne => exact Nat.one_le_iff_ne_zero.mpr hne

end Runs

/-- No delivery gets more Prepares than the policy allows, where nothing goes wrong between a Prepare and the record of
its outcome. -/
theorem prepares_bounded {o : DistributorOptions} {target : TargetId} {id : DeploymentId} {w w' w'' : World}
    {P : Process} {t : Task} {p : Worker Status} (hpolicy : o.policy.validate = .ok ()) (hw : Opened o w)
    (hrun : Pool.Run wire (program o) admits (fun _ _ _ _ => True) ⟨w, []⟩ P)
    (hvalid : parseDeploymentId id = .ok id) (hnone : prepares id P.world.1 = [])
    (hsittings : Sittings o target id True P.world w') (ht : t.serves target)
    (hcomes : Comes target id True (program o t) w' p w'') :
    (prepares id w''.1).length ≤ o.policy.maxAttempts := by
  have hkeeps : (retiring o admits fun _ _ _ _ => True).Keeps P := (Discipline.keeps_nil hw.filed).runs hrun
  have hstart : Settled o.policy.maxAttempts id P.world := by
    refine ⟨hkeeps.holds, ?_, fun r _ => ?_⟩
    · rw [hnone]
      exact Nat.zero_le _
    · rw [hnone]
      exact ⟨fun _ => .inl rfl, fun _ => Nat.zero_le _, Nat.zero_le _⟩
  have hlimit : 1 ≤ o.policy.maxAttempts := validate_maxAttempts hpolicy
  exact (((hsittings.settled hvalid hlimit hstart).comes hvalid hlimit ht hcomes).1).bound

/-! Runs by a script. -/

def obliging (target : TargetId) (id : DeploymentId) (strict : Prop) [Decidable strict] :
    Driver (network target id strict) where
  file m w := some (w.1 ++ [m])
  i₀ := { now := 1 }
  r₀ _ := none
  hears r w :=
    if (∀ ack ∈ helloAckOf r, restartObserved (w.2.mem.findTarget target) ack = false) ∧
      (strict → Unsettled id w → expected w.1 r = true ∧ Spare id w) then some w.1 else none
  chooses i w := decide (strict → Unsettled id w → untroubled i = true ∧ Spare id w)
  emits := appended
  receives r w e h := by
    split at h
    next hcalm =>
      cases h
      exact ⟨rfl, hcalm⟩
    · cases h
  inputs _ _ := of_decide_eq_true

/-- A session with the target that follows the script to its end. -/
def sat (o : DistributorOptions) (target : TargetId) (id : DeploymentId) (strict : Prop) [Decidable strict]
    (script : List (Choice ⊕ Result Incoming)) (w : World) : Option World :=
  match (program o (.session target 9)).advance (obliging target id strict) (fun _ _ _ => true) 400 script w with
  | some (.ret _, w') => some w'
  | _ => none

theorem sat_comes {o : DistributorOptions} {target : TargetId} {id : DeploymentId} {strict : Prop} [Decidable strict]
    {script : List (Choice ⊕ Result Incoming)} {w w' : World} (h : sat o target id strict script w = some w') :
    ∃ status, Comes target id strict (program o (.session target 9)) w (.ret status) w' := by
  rw [sat] at h
  split at h
  next status w' hadvance =>
    cases h
    exact ⟨status, Thread.advance_reaches hadvance⟩
  · cases h

/-- A report of a target that has nothing. -/
def exampleReport (term : Term) : ReconcileReportMessage where
  target := text "t"
  targetClass := .unspecified
  guarantee := .atomicActivate
  term
  incarnation := .fill 16 5
  committedGeneration := 0
  committedDigest := .zero 32
  committedArtifact := []
  applyPrepared := false
  preparedDeployment := []
  preparedGeneration := 0
  preparedDigest := .zero 32
  restartCount := 0
  applyRollbacks := 0
  transfers := []
  findings := []

def greeting (answers : List (Result Incoming)) : List (Choice ⊕ Result Incoming) :=
  [.inr (.ok (.reply (.helloAck (exampleAck 1)))), .inr (.ok (.reply (.reconcileReport (exampleReport 1))))] ++
    answers.map .inr

def exampleOptions (maxAttempts : ℕ) : DistributorOptions where
  nodeId := text "n"
  policy := { maxAttempts, retryBackoffMillis := 0, maxBackoffMillis := 0 }

/-- The connection goes down after the Prepare, and again in the next session. -/
theorem lost_answers_exceed_budget : ¬ ∀ (o : DistributorOptions) (target : TargetId) (id : DeploymentId)
    (w w' w'' : World) (P : Process) (t : Task) (p : Worker Status), o.policy.validate = .ok () → Opened o w →
    Pool.Run wire (program o) admits (fun _ _ _ _ => True) ⟨w, []⟩ P → parseDeploymentId id = .ok id →
    prepares id P.world.1 = [] → Sittings o target id False P.world w' → t.serves target →
    Comes target id False (program o t) w' p w'' → (prepares id w''.1).length ≤ o.policy.maxAttempts := by
  intro h
  have hruns : (served (fun _ _ _ _ => true) (exampleOptions 1) planned ([], {})).map (fun P =>
      (prepares exampleDelivery P.world.1, (sat (exampleOptions 1) (text "t") exampleDelivery False
        (greeting [.fail .connectionClosed "connection closed"]) P.world).map fun w' =>
          (sat (exampleOptions 1) (text "t") exampleDelivery False
            (greeting [.fail .connectionClosed "connection closed"]) w').map fun w'' =>
              (prepares exampleDelivery w''.1).length)) = some ([], some (some 2)) := by decide +kernel
  obtain ⟨P, hP, hpair⟩ := Option.map_eq_some_iff.mp hruns
  obtain ⟨hnone, hfirst⟩ := Prod.mk.inj hpair
  obtain ⟨w', hw', hsecond⟩ := Option.map_eq_some_iff.mp hfirst
  obtain ⟨w'', hw'', htwo⟩ := Option.map_eq_some_iff.mp hsecond
  obtain ⟨w, hopened, hrun⟩ : ∃ w, Opened (exampleOptions 1) w ∧
      Pool.Run wire (program (exampleOptions 1)) admits (fun _ _ _ _ => True) ⟨w, []⟩ P :=
    opened_of_served (fun _ _ _ _ _ => trivial) hP
  obtain ⟨status, hcomes⟩ := sat_comes hw'
  obtain ⟨status', hcomes'⟩ := sat_comes hw''
  have hbound := h _ (text "t") exampleDelivery w w' w'' P (.session (text "t") 9) _ (by decide) hopened hrun (by decide +kernel) hnone
    (.task (t := .session (text "t") 9) .none rfl hcomes) rfl hcomes'
  rw [htwo] at hbound
  exact absurd hbound (by decide)

def exampleNack : DeliveryNackMessage where
  deployment := exampleDelivery
  key := text "k"
  generation := 1
  digest := .zero 32
  code := .ioFailure
  directive := .retryWithBackoff
  detail := "no space left"
  term := 1
  incarnation := .fill 16 5

/-- Two refused transfers in one session; after a restart the next session gives up. -/
theorem refused_transfers_within_budget : ∃ w : World, (prepares exampleDelivery w.1).length = 2 ∧
    (prepares exampleDelivery w.1).length ≤ (exampleOptions 2).policy.maxAttempts := by
  have hruns : (served (fun _ _ _ _ => true) (exampleOptions 2) planned ([], {})).map (fun P =>
      (prepares exampleDelivery P.world.1, (sat (exampleOptions 2) (text "t") exampleDelivery True
        (greeting [.ok (.reply (.deliveryNack exampleNack)), .ok (.reply (.deliveryNack exampleNack))]) P.world).map
          fun w₁ => ((decide (Unsettled exampleDelivery w₁),
            decide (w₁.2.dur.findDelivery exampleDelivery = w₁.2.mem.findDelivery exampleDelivery)),
            (opened (exampleOptions 2) w₁).map fun w₂ =>
              (sat (exampleOptions 2) (text "t") exampleDelivery True (greeting []) w₂).map fun w₃ =>
                (prepares exampleDelivery w₃.1).length))) = some ([], some ((false, true), some (some 2))) := by
    decide +kernel
  obtain ⟨P, hP, hpair⟩ := Option.map_eq_some_iff.mp hruns
  obtain ⟨hnone, hfirst⟩ := Prod.mk.inj hpair
  obtain ⟨w₁, hw₁, hpair⟩ := Option.map_eq_some_iff.mp hfirst
  obtain ⟨hrests, hsecond⟩ := Prod.mk.inj hpair
  obtain ⟨hsettled, hstored⟩ := Prod.mk.inj hrests
  obtain ⟨w₂, hw₂, hthird⟩ := Option.map_eq_some_iff.mp hsecond
  obtain ⟨w₃, hw₃, htwo⟩ := Option.map_eq_some_iff.mp hthird
  obtain ⟨w, hopened, hrun⟩ : ∃ w, Opened (exampleOptions 2) w ∧
      Pool.Run wire (program (exampleOptions 2)) admits (fun _ _ _ _ => True) ⟨w, []⟩ P :=
    opened_of_served (fun _ _ _ _ _ => trivial) hP
  obtain ⟨status, hcomes⟩ := sat_comes hw₁
  obtain ⟨status', hcomes'⟩ := sat_comes hw₃
  have hrestart : Sittings (exampleOptions 2) (text "t") exampleDelivery True P.world w₂ :=
    .restart (t := .session (text "t") 9) .none rfl hcomes (fun _ => ⟨of_decide_eq_false hsettled, of_decide_eq_true hstored⟩)
      ⟨w₁, .refl, opened_reaches hw₂⟩
  exact ⟨w₃, htwo, prepares_bounded (t := .session (text "t") 9) (by decide) hopened hrun (by decide +kernel) hnone
    hrestart rfl hcomes'⟩

end Distributor

end ConfigurationFabric
