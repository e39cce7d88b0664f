import Mathlib.Data.Fintype.EquivFin
import ConfigurationFabric.DistributorAdmission

/-! Where file operations may fail, only a plan with nothing to plan is all or nothing. -/

namespace ConfigurationFabric

open LittleEndian
open Threads

namespace Distributor

/-! The call comes to an end. -/

section Closed

variable {record : DeliveryRecord} {p : DistributorPolicy} {plan : DeploymentPlan} {i : DeploymentInstruction}

theorem closed_clock : (clock : Worker ℤ).Closed := Thread.closed_bind Thread.closed_ask fun _ => Thread.closed_pure _

theorem closed_state : (state : Worker ControllerState).Closed :=
  Thread.closed_bind Thread.closed_view fun _ => Thread.closed_pure _

theorem closed_commit {copy : Copy} {make : ControllerState → ControllerRecord} : (commit copy make).Closed := by
  refine Thread.closed_bind Thread.closed_ask fun choice => ?_
  split
  · exact Thread.closed_bind closed_state fun _ => Thread.closed_pure _
  · exact Thread.closed_bind (Thread.closed_update _ _) fun _ => Thread.closed_pure _
  · exact Thread.closed_bind (Thread.closed_update _ _) fun _ => Thread.closed_pure _

theorem closed_commitDelivery {cause : Cause} {make : ControllerState → DeliveryRecord} :
    (commitDelivery record cause make).Closed := by
  rw [commitDelivery]
  split
  · exact Thread.closed_bind closed_state fun _ => Thread.closed_pure _
  · exact Thread.closed_bind closed_commit fun _ => Thread.closed_pure _

theorem closed_upsertDelivery {cause : Cause} : (upsertDelivery record cause).Closed :=
  Thread.closed_bind closed_commitDelivery fun _ => Thread.closed_pure _

theorem closed_recordRetired {reason : Bytes} {cause : Cause} : (recordRetired record reason cause).Closed := by
  have htransition {kind : EvidenceKind} {code : ErrorCode} {detail : Bytes} {fromReconciliation : Bool} :
      (recordTransition record .retired kind code detail fromReconciliation cause).Closed := by
    rw [recordTransition]
    split
    · exact Thread.closed_pure _
    · exact Thread.closed_bind closed_clock fun _ => closed_commitDelivery
  rw [recordRetired]
  split
  · exact Thread.closed_pure _
  · refine Thread.closed_bind htransition fun x => ?_
    split
    · exact Thread.closed_pure _
    · exact Thread.closed_bind closed_upsertDelivery fun _ => Thread.closed_pure _

theorem closed_retireAll {reason : Bytes} (records : List DeliveryRecord) : (retireAll reason records).Closed := by
  induction records with
  | nil => exact Thread.closed_pure _
  | cons other rest ih =>
    refine Thread.closed_bind closed_recordRetired fun x => ?_
    split
    · exact Thread.closed_pure _
    · exact ih

theorem closed_removeAll (records : List DeliveryRecord) : (removeAll records).Closed := by
  induction records with
  | nil => exact Thread.closed_pure _
  | cons stale rest ih =>
    refine Thread.closed_bind closed_commit fun x => ?_
    split
    · exact Thread.closed_pure _
    · exact ih

theorem closed_planDelivery {accepted : Bool} : (planDelivery p i accepted record).Closed := by
  have htarget : (planTarget i accepted).Closed :=
    Thread.closed_bind closed_state fun _ => Thread.closed_bind closed_commit fun _ => Thread.closed_pure _
  refine Thread.closed_bind closed_state fun _ => Thread.closed_bind (closed_retireAll _) fun status => ?_
  split
  · exact Thread.closed_pure _
  refine Thread.closed_bind closed_state fun _ => Thread.closed_bind (closed_removeAll _) fun status => ?_
  split
  · exact Thread.closed_pure _
  refine Thread.closed_bind htarget fun status => ?_
  split
  · exact Thread.closed_pure _
  · exact closed_upsertDelivery

theorem closed_ingestSource : (ingestSource i).Closed := by
  rw [ingestSource]
  split
  · exact Thread.closed_pure _
  refine Thread.closed_bind Thread.closed_ask fun choice => ?_
  split
  · exact Thread.closed_pure _
  refine Thread.closed_bind closed_clock fun _ => Thread.closed_bind closed_clock fun _ =>
    Thread.closed_bind (Thread.closed_bind Thread.closed_ask fun choice => ?_) fun _ => Thread.closed_pure _
  split
  · exact Thread.closed_pure _
  · exact Thread.closed_bind closed_commit fun _ => Thread.closed_pure _

theorem closed_planInstructions (p : DistributorPolicy) (plan : DeploymentPlan)
    (steps : List (DeploymentInstruction × TargetResolution)) : (planInstructions p plan steps).Closed := by
  induction steps with
  | nil => exact Thread.closed_pure _
  | cons step rest ih =>
    obtain ⟨i, resolution⟩ := step
    have hplan (record : DeliveryRecord) : (planThen p plan i resolution.accepted record rest).Closed := by
      refine Thread.closed_bind closed_planDelivery fun status => ?_
      split
      · exact Thread.closed_pure _
      · exact ih
    refine Thread.closed_bind closed_ingestSource fun _ => Thread.closed_bind closed_clock fun now =>
      Thread.closed_bind closed_state fun s => ?_
    split
    · split
      · exact ih
      · exact hplan _
    · exact hplan _

theorem closed_submitPlan (p : DistributorPolicy) (plan : DeploymentPlan) : (submitPlan p plan).Closed := by
  have hcompact (written : Bool) : (Distributor.compact written).Closed := by
    rw [Distributor.compact]
    split
    · exact Thread.closed_pure _
    · exact Thread.closed_bind (Thread.closed_update _ _) fun _ => Thread.closed_pure _
  have hcompactIfNeeded : compactIfNeeded.Closed := by
    refine Thread.closed_bind Thread.closed_ask fun choice => ?_
    split
    · exact Thread.closed_pure _
    · exact Thread.closed_bind (hcompact _) fun _ => Thread.closed_pure _
    · exact Thread.closed_bind (hcompact _) fun _ => Thread.closed_pure _
  rw [submitPlan_eq]
  split
  · exact Thread.closed_pure _
  refine Thread.closed_bind (closed_planInstructions p plan _) fun status => ?_
  rw [concluded.eq_def]
  split
  · exact Thread.closed_pure _
  refine Thread.closed_bind closed_state fun s => ?_
  dsimp only
  split
  · exact Thread.closed_pure _
  · exact hcompactIfNeeded

end Closed

/-! A run at one time of day. -/

/-- Every file operation succeeds, and the clock stands still. -/
def ticking (t : ℤ) : Choice := { now := t }

def refused : Choice := { outcome := .refused ⟨.ioFailure, "cannot append the record", ""⟩ }

/-- A delivery has been planned at this time. -/
def Dated (t : ℤ) (s : ControllerState) : Prop := ∃ e ∈ s.deliveries, e.2.createdAtMillis = t

section Dated

variable {p : DistributorPolicy} {plan : DeploymentPlan} {w : World} {t : ℤ}

theorem sole_ticking {Q : ℤ → World → Prop} (h : Q t w) : Sole (· = ticking t) clock Q w := by
  rintro _ i rfl rfl
  exact h

theorem Planned.dated {i : DeploymentInstruction} {record : DeliveryRecord} {s s' : ControllerState}
    (h : Planned p i record s s') (hrecord : record.createdAtMillis = t) : Dated t s' := by
  obtain ⟨⟨g, -, hdeliveries⟩, -⟩ := h
  refine ⟨(record.id, record), ?_, hrecord⟩
  rw [hdeliveries]
  refine SortedMap.find_mem ?_
  rw [SortedMap.find_insert, if_pos rfl]

/-- The delivery that is planned last stays. -/
theorem dated_planInstructions {steps : List (DeploymentInstruction × TargetResolution)}
    (hm : Listed w.2.mem.deliveries) (h : Dated t w.2.mem ∨ ∃ i ∈ steps.map (·.1), isFresh w.2.mem i = true) :
    Sole (· = ticking t) (planInstructions p plan steps) (fun status w' => status = .ok () → Dated t w'.2.mem) w := by
  induction steps generalizing w with
  | nil =>
    intro _
    obtain hdated | ⟨i, hi, -⟩ := h
    · exact hdated
    · cases hi
  | cons step rest ih =>
    obtain ⟨i, resolution⟩ := step
    rw [planInstructions, Sole, Thread.steps_bind]
    refine sole_ingestSource.mono fun _ w₁ h₁ => ?_
    rw [Thread.steps_bind]
    refine sole_ticking ?_
    rw [Thread.steps_bind]
    apply sole_state
    have hm₁ : Listed w₁.2.mem.deliveries := by rw [h₁.1]; exact hm
    have hplan (record : DeliveryRecord) (hname : isValidIdentifier record.id = true) (hrecord : record.createdAtMillis = t) :
        Sole (· = ticking t) (planThen p plan i resolution.accepted record rest)
          (fun status w' => status = .ok () → Dated t w'.2.mem) w₁ := by
      rw [planThen, Sole, Thread.steps_bind]
      refine (sole_planDelivery hm₁ hname).mono ?_
      rintro (_ | ⟨⟩) w₂ h₂
      · exact fun herror => by cases herror
      have hplanned := h₂.done rfl
      exact ih (hplanned.listed hm₁ hname) (.inl (hplanned.dated hrecord))
    split
    next existing hexisting =>
      split
      next hacknowledged =>
        have hsame : ∀ j, isFresh w₁.2.mem j = isFresh w.2.mem j := fun j => by
          rw [isFresh, isFresh, ControllerState.findDelivery, ControllerState.findDelivery, h₁.1]
        refine ih hm₁ ?_
        obtain ⟨e, he, ht⟩ | ⟨j, hj, hfresh⟩ := h
        · exact .inl ⟨e, h₁.1 ▸ he, ht⟩
        · obtain rfl | hj := List.mem_cons.mp hj
          · rw [← hsame, isFresh_iff] at hfresh
            exact absurd hacknowledged (hfresh existing hexisting)
          · exact .inr ⟨j, hj, by rw [hsame, hfresh]⟩
      · exact hplan _ deriveDeploymentId_valid rfl
    · exact hplan _ deriveDeploymentId_valid rfl

/-- The budget is exceeded, or the compaction fails. -/
theorem concluded_fails (p : DistributorPolicy) (w : World) :
    ∃ choices status, status ≠ .ok () ∧ Thread.Draws wire (concluded p (.ok ())) w choices status w := by
  let live := (pendingOf w.2.mem).length
  let exceeded : Status :=
    .fail .limitExceeded "the live delivery count exceeds the configured budget" (toString live)
  have hlooked {choices : List Choice} {status : Status}
      (h : Thread.Draws wire (if live > p.maxLiveDeliveries then pure exceeded else compactIfNeeded) w choices status w) :
      Thread.Draws wire (concluded p (.ok ())) w choices status w := .look h
  by_cases hmany : live > p.maxLiveDeliveries
  · rw [if_pos hmany] at hlooked
    exact ⟨[], exceeded, by simp [exceeded, Result.fail], hlooked .ret⟩
  · rw [if_neg hmany] at hlooked
    exact ⟨[refused], .error ⟨.ioFailure, "cannot append the record", ""⟩, (fun h => by cases h),
      hlooked (Thread.Draws.input trivial .ret)⟩

/-- An instruction is planned, and then the budget is exceeded or the compaction fails. -/
theorem fails_behind {i : DeploymentInstruction} (hs : WellFormed w.2.mem)
    (hany : (resolveDeploymentSet p plan).any (·.accepted) = true) (hi : i ∈ fresh plan w.2.mem) :
    ∃ choices status w', status ≠ .ok () ∧ Thread.Draws wire (submitPlan p plan) w choices status w' ∧
      w'.2.mem.deliveries ≠ w.2.mem.deliveries := by
  obtain ⟨hmem, hfresh⟩ := List.mem_filter.mp hi
  obtain ⟨t, ht⟩ := Infinite.exists_notMem_finset (w.2.mem.deliveries.map (·.2.createdAtMillis)).toFinset
  obtain ⟨is, status, w₁, hplans, hsame⟩ := (closed_planInstructions p plan
    (plan.instructions.zip (resolveDeploymentSet p plan))).draws (O := wire) (i := ticking t) (fun _ => trivial) w
  have hgives := Thread.Steps.draws (sole_planInstructions hs.deliveries) hplans hsame
  have hok : status = .ok () := hgives.succeeds fun j hj => by rw [hj]; rfl
  have hdated : Dated t w₁.2.mem := by
    refine Thread.Steps.draws (dated_planInstructions hs.deliveries (.inr ⟨i, ?_, hfresh⟩)) hplans hsame hok
    rw [zip_resolved]
    exact hmem
  have hchanged : w₁.2.mem.deliveries ≠ w.2.mem.deliveries := by
    intro heq
    obtain ⟨e, he, hcreated⟩ := hdated
    rw [heq] at he
    exact ht (List.mem_toFinset.mpr (List.mem_map.mpr ⟨e, he, hcreated⟩))
  obtain ⟨choices, status', herror, hconcluded⟩ := concluded_fails p w₁
  refine ⟨is ++ choices, status', w₁, herror, ?_, hchanged⟩
  rw [submitPlan_eq, hany]
  exact (hok ▸ hplans).bind hconcluded

end Dated

/-! What the condition decides. -/

section Submission

variable {p : DistributorPolicy} {plan : DeploymentPlan} {w : World}

/-- Where every file operation succeeds, a plan with nothing to plan is carried out. -/
theorem succeeds_idle (hs : WellFormed w.2.mem) (hany : (resolveDeploymentSet p plan).any (·.accepted) = true)
    (hidle : fresh plan w.2.mem = []) (hlive : (pendingOf w.2.mem).length ≤ p.maxLiveDeliveries) :
    ∃ choices w', Thread.Draws wire (submitPlan p plan) w choices (.ok ()) w' ∧ w'.2.mem.targets = w.2.mem.targets := by
  obtain ⟨choices, status, w', hrun, hsame⟩ := (closed_submitPlan p plan).draws (O := wire) (i := ticking 0)
    (fun _ => trivial) w
  have hkept := (idle_submitPlan hs.deliveries hidle hrun).1
  have hsubmits := Thread.Steps.draws (sole_submitPlan hs.deliveries) hrun hsame
  have hok := (hsubmits.takes (fun j hj => by rw [hj]; rfl) hany).2 (by rwa [pendingOf, hkept.1])
  exact ⟨choices, w', hok ▸ hrun, hkept.2⟩

end Submission

/-! A plan that is accepted, and one that is refused after it has been carried out. -/

theorem wellFormed_empty : WellFormed {} := ⟨.empty, List.Pairwise.nil⟩

/-- The first generation, planned and not yet delivered. -/
def plannedStore : ControllerState where
  targets := [(text "t", { id := text "t" })]
  deliveries := [(deploymentOf exampleInstruction, plannedDelivery examplePlan exampleInstruction 5)]

theorem wellFormed_plannedStore : WellFormed plannedStore where
  deliveries := Listed.empty.insert (r := plannedDelivery examplePlan exampleInstruction 5) deriveDeploymentId_valid
  targets := List.pairwise_singleton _ _

/-- The second generation, handed over with its bytes. -/
def renewedPlan : DeploymentPlan :=
  { examplePlan with instructions := [{ exampleInstruction with generation := 2, sourcePath := text "p" }] }

theorem admits_renewedPlan : Admits {} renewedPlan plannedStore where
  selected := by decide +kernel
  spared := by decide +kernel
  unshared := ⟨by decide +kernel, by decide +kernel⟩
  live := by decide +kernel
  targets := by decide +kernel

/-- The artifact is not there, and its record is taken. -/
def ingestion : List Choice := { present := false } :: List.replicate 4 {}

def taking : List Choice := ingestion ++ List.replicate 7 ({} : Choice)

/-- The store refuses to retire the first generation. -/
def refusing : List Choice := ingestion ++ [{}, {}, refused]

theorem run_of_drawn {c : Controller} {q : Status × Controller → Bool}
    (h : ((submitPlan p plan).drawn choices c).any q = true) :
    ∃ status c', Thread.Draws wire (submitPlan p plan) ([], c) choices status ([], c') ∧ q (status, c') = true := by
  obtain ⟨⟨status, c'⟩, hdrawn, hq⟩ := (Option.any_eq_true _ _).mp h
  exact ⟨status, c', Thread.draws_of_drawn (fun _ _ => trivial) hdrawn, hq⟩

def twoTargets : DeploymentPlan :=
  { examplePlan with instructions := [exampleInstruction, { exampleInstruction with target := text "u" }] }

end Distributor

end ConfigurationFabric
