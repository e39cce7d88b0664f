import Mathlib.Data.List.Dedup
import ConfigurationFabric.DistributorPlans
import ConfigurationFabric.Library.Draws

/-! What a plan may leave in the store, and what it leaves when it is not accepted. -/

namespace ConfigurationFabric

open LittleEndian
open Threads

namespace Distributor

/-- The store as it may be found: under names that decode, in the order of a map. -/
structure WellFormed (s : ControllerState) : Prop where
  deliveries : Listed s.deliveries
  targets : SortedMap.Sorted s.targets

/-- All or nothing, for the selected targets only, and within the budgets. -/
structure AllOrNothing (p : DistributorPolicy) (plan : DeploymentPlan) (s : ControllerState) (status : Status)
    (s' : ControllerState) : Prop where
  refused : status ≠ .ok () → s'.deliveries = s.deliveries ∧ s'.targets = s.targets
  selected : status = .ok () → ∀ e ∈ s'.deliveries, (s.findDelivery e.1).isSome = true ∨
    ∃ x ∈ plan.instructions.zip (resolveDeploymentSet p plan), x.2.accepted = true ∧ deploymentOf x.1 = e.1
  live : status = .ok () → (pendingOf s').length ≤ p.maxLiveDeliveries
  targets : status = .ok () → s'.targets.length ≤ p.maxTargets

/-! The condition. -/

/-- The target has not acknowledged this generation yet. -/
def isFresh (s : ControllerState) (i : DeploymentInstruction) : Bool :=
  (s.findDelivery (deploymentOf i)).all (·.state != .acknowledged)

def fresh (plan : DeploymentPlan) (s : ControllerState) : List DeploymentInstruction :=
  plan.instructions.filter (isFresh s)

/-- The instruction neither plans the delivery again nor supersedes or prunes it. -/
def leaves (p : DistributorPolicy) (plan : DeploymentPlan) (s : ControllerState) (r : DeliveryRecord)
    (i : DeploymentInstruction) : Bool :=
  r.id != deploymentOf i && decide (r ∉ superseded (plannedDelivery plan i 0) s) &&
    decide (r ∉ doomed p (plannedDelivery plan i 0) s)

/-- The pending deliveries that stay as they are. -/
def staying (p : DistributorPolicy) (plan : DeploymentPlan) (s : ControllerState) : List DeliveryRecord :=
  (pendingOf s).filter fun r => (fresh plan s).all (leaves p plan s r)

/-- No two targets share the name of a delivery. -/
structure Unshared (plan : DeploymentPlan) (s : ControllerState) : Prop where
  known : ∀ i ∈ plan.instructions, ∀ r ∈ s.deliveries.map (·.2), r.id = deploymentOf i → r.target = i.target
  planned : ∀ i ∈ plan.instructions, ∀ j ∈ plan.instructions, deploymentOf j = deploymentOf i → j.target = i.target

/-- The instructions that plan a delivery are selected, and what they leave is within the budgets. -/
structure Admits (p : DistributorPolicy) (plan : DeploymentPlan) (s : ControllerState) : Prop where
  selected : ∀ x ∈ plan.instructions.zip (resolveDeploymentSet p plan), isFresh s x.1 = true → x.2.accepted = true
  /-- pruning takes no acknowledgement away that another instruction is skipped for -/
  spared : ∀ i ∈ fresh plan s, ∀ r ∈ doomed p (plannedDelivery plan i 0) s, r.state = .acknowledged →
    r.id ∉ plan.instructions.map deploymentOf
  unshared : Unshared plan s
  live : (staying p plan s).length + (fresh plan s).length ≤ p.maxLiveDeliveries
  targets : (s.targets.map (·.1) ++ (fresh plan s).map (·.target)).dedup.length ≤ p.maxTargets

/-- Every instruction has been acknowledged, so there is nothing to plan; the store is within its budget of targets, or
too much is pending for the call to succeed. -/
def Resubmits (p : DistributorPolicy) (plan : DeploymentPlan) (s : ControllerState) : Prop :=
  fresh plan s = [] ∧ (p.maxLiveDeliveries < (pendingOf s).length ∨ s.targets.length ≤ p.maxTargets)

/-- What is left of the choices after the ingestion: is the artifact there, the two clocks, the source, the record. -/
def afterIngest (i : DeploymentInstruction) (choices : List Choice) : List Choice :=
  if i.sourcePath = [] then choices
  else
    match choices with
    | [] => []
    | known :: rest =>
      if known.present then rest
      else
        match rest.drop 2 with
        | [] => []
        | source :: rest =>
          match source.status with
          | .error _ => rest
          | .ok () => rest.tail

/-- The choice that the store makes on the first record of a delivery or a target. A retirement reads the clock before. -/
def firstRecord (plan : DeploymentPlan) (s : ControllerState) : List DeploymentInstruction → List Choice → Option Choice
  | [], _ => none
  | i :: rest, choices =>
    let choices := (afterIngest i choices).tail
    if isFresh s i then choices[if superseded (plannedDelivery plan i 0) s = [] then 0 else 1]?
    else firstRecord plan s rest choices

/-- The store refuses the first record of a delivery or a target, whatever becomes of the artifacts. -/
def Refuses (plan : DeploymentPlan) (s : ControllerState) (choices : List Choice) : Prop :=
  ∃ c ∈ firstRecord plan s plan.instructions choices, ∃ e, c.outcome = .refused e

/-- The condition, on a store and on the choices of a run. -/
def Holds (p : DistributorPolicy) (plan : DeploymentPlan) (s : ControllerState) (choices : List Choice) : Prop :=
  (resolveDeploymentSet p plan).any (·.accepted) = false ∨ Resubmits p plan s ∨ Refuses plan s choices ∨
    (∀ c ∈ choices, c.outcome = .done) ∧ Admits p plan s

/-! The targets of the instructions that are selected. -/

theorem distinct_accepted (seen : List TargetId) (instructions : List DeploymentInstruction) :
    (((instructions.zip (resolveInstructions seen instructions)).filter (·.2.accepted)).map (·.1.target)).Nodup ∧
      ∀ t ∈ seen,
        t ∉ ((instructions.zip (resolveInstructions seen instructions)).filter (·.2.accepted)).map (·.1.target) := by
  induction instructions generalizing seen with
  | nil => exact ⟨List.nodup_nil, fun _ _ => List.not_mem_nil⟩
  | cons i rest ih =>
    obtain ⟨hnodup, hdisjoint⟩ := ih (i.target :: seen)
    rw [resolveInstructions, List.zip_cons_cons, List.filter_cons]
    dsimp only
    by_cases haccepted : (resolveInstruction seen i).accepted = true
    · have hnew : i.target ∉ seen := by
        intro hseen
        rw [resolveInstruction, if_pos hseen] at haccepted
        cases haccepted
      rw [if_pos haccepted, List.map_cons]
      refine ⟨List.nodup_cons.mpr ⟨hdisjoint _ List.mem_cons_self, hnodup⟩, fun t ht hmem => ?_⟩
      obtain rfl | hmem := List.mem_cons.mp hmem
      · exact hnew ht
      · exact hdisjoint t (List.mem_cons_of_mem _ ht) hmem
    · rw [if_neg haccepted]
      exact ⟨hnodup, fun t ht => hdisjoint t (List.mem_cons_of_mem _ ht)⟩

theorem distinct_targets (p : DistributorPolicy) (plan : DeploymentPlan) :
    (((plan.instructions.zip (resolveDeploymentSet p plan)).filter (·.2.accepted)).map (·.1.target)).Nodup := by
  by_cases hmany : (resolveInstructions [] plan.instructions).length > p.maxTargets
  · have hnone : (plan.instructions.zip (resolveDeploymentSet p plan)).filter (·.2.accepted) = [] := by
      rw [List.filter_eq_nil_iff, resolveDeploymentSet, if_pos hmany]
      rintro ⟨i, r⟩ hx
      obtain ⟨-, hr⟩ := List.of_mem_zip hx
      obtain ⟨r, -, rfl⟩ := List.mem_map.mp hr
      exact Bool.false_ne_true
    rw [hnone]
    exact List.nodup_nil
  · rw [resolveDeploymentSet, if_neg hmany]
    exact (distinct_accepted [] plan.instructions).1

theorem Admits.distinct {p : DistributorPolicy} {plan : DeploymentPlan} {s : ControllerState} (h : Admits p plan s) :
    ((fresh plan s).map (·.target)).Nodup := by
  have hfresh : fresh plan s =
      ((plan.instructions.zip (resolveDeploymentSet p plan)).filter fun x => isFresh s x.1).map (·.1) := by
    have hplan := zip_resolved p plan
    conv_lhs => rw [fresh, ← hplan, List.filter_map]
    rfl
  have hselected : (plan.instructions.zip (resolveDeploymentSet p plan)).filter (fun x => isFresh s x.1) =
      ((plan.instructions.zip (resolveDeploymentSet p plan)).filter (·.2.accepted)).filter fun x => isFresh s x.1 := by
    rw [List.filter_filter]
    refine List.filter_congr fun x hx => ?_
    cases hx' : isFresh s x.1 with
    | false => rfl
    | true => rw [h.selected x hx hx', Bool.and_self]
  rw [hfresh, List.map_map, hselected]
  exact (distinct_targets p plan).sublist (List.filter_sublist.map _)

/-! What the instructions so far have left. -/

def partOf (t : TargetId) (s : ControllerState) : List DeliveryRecord := (s.deliveries.map (·.2)).filter (·.target == t)

theorem doomed_part {p : DistributorPolicy} {record record' : DeliveryRecord} {s s' : ControllerState}
    (hrecord : record.Alike record') (hpart : partOf record.target s' = partOf record.target s) :
    doomed p record' s' = doomed p record s := by
  have hlineage (s : ControllerState) :
      (s.deliveries.map (·.2)).filter (fun r => r.target == record.target && r.key == record.key) =
        (partOf record.target s).filter (·.key == record.key) := by
    rw [partOf, List.filter_filter]
    exact List.filter_congr fun r _ => Bool.and_comm _ _
  rw [doomed, doomed, hrecord.target, hrecord.key, hlineage, hlineage, hpart]

theorem mem_doomed {p : DistributorPolicy} {record r : DeliveryRecord} {s : ControllerState} (h : r ∈ doomed p record s) :
    r ∈ s.deliveries.map (·.2) ∧ r.target = record.target ∧ r.key = record.key := by
  have hsorted := List.mem_of_mem_drop h
  rw [List.mem_insertionSort] at hsorted
  obtain ⟨hmem, hlineage⟩ := List.mem_filter.mp hsorted
  simp only [Bool.and_eq_true, beq_iff_eq] at hlineage
  exact ⟨hmem, hlineage⟩

theorem isFresh_iff {s : ControllerState} {i : DeploymentInstruction} :
    isFresh s i = true ↔ ∀ r, s.findDelivery (deploymentOf i) = some r → r.state ≠ .acknowledged := by
  rw [isFresh, Option.all_eq_true]
  simp

/-- After these instructions, each of which has planned a delivery. -/
structure Through (p : DistributorPolicy) (plan : DeploymentPlan) (s : ControllerState)
    (before : List DeploymentInstruction) (s' : ControllerState) : Prop where
  wellFormed : WellFormed s'
  unshared : Unshared plan s'
  freshness : ∀ i ∈ plan.instructions, isFresh s' i = isFresh s i
  untouched : ∀ t, t ∉ before.map (·.target) → partOf t s' = partOf t s
  known : ∀ e ∈ s'.deliveries, (s.findDelivery e.1).isSome = true ∨ ∃ i ∈ before, deploymentOf i = e.1
  pending : ∀ r ∈ pendingOf s', (∃ i ∈ before, r.id = deploymentOf i) ∨
    r ∈ pendingOf s ∧ ∀ i ∈ before, leaves p plan s r i = true
  tracked : ∀ t ∈ s'.targets.map (·.1), t ∈ s.targets.map (·.1) ∨ ∃ i ∈ before, t = i.target

section Through

variable {p : DistributorPolicy} {plan : DeploymentPlan} {s s' s₁ : ControllerState} {i : DeploymentInstruction}
  {record : DeliveryRecord} {before rest : List DeploymentInstruction}

theorem Through.start (hs : WellFormed s) (hunshared : Unshared plan s) : Through p plan s [] s where
  wellFormed := hs
  unshared := hunshared
  freshness _ _ := rfl
  untouched _ _ := rfl
  known e he := .inl (by rw [ControllerState.findDelivery, hs.deliveries.find.mpr he]; rfl)
  pending _ hr := .inr ⟨hr, fun _ hi => absurd hi List.not_mem_nil⟩
  tracked _ ht := .inl ht

theorem Through.congr (h : Through p plan s before s') (hdeliveries : s₁.deliveries = s'.deliveries)
    (htargets : s₁.targets = s'.targets) : Through p plan s before s₁ where
  wellFormed := ⟨by rw [hdeliveries]; exact h.wellFormed.deliveries, by rw [htargets]; exact h.wellFormed.targets⟩
  unshared := ⟨by rw [hdeliveries]; exact h.unshared.known, h.unshared.planned⟩
  freshness i hi := by
    rw [isFresh, ControllerState.findDelivery, hdeliveries]
    exact h.freshness i hi
  untouched t ht := by
    rw [partOf, hdeliveries]
    exact h.untouched t ht
  known e he := by
    rw [hdeliveries] at he
    exact h.known e he
  pending r hr := by
    rw [pendingOf, hdeliveries] at hr
    exact h.pending r hr
  tracked t ht := by
    rw [htargets] at ht
    exact h.tracked t ht

/-- What is found of the old deliveries after an instruction. -/
theorem mem_remaining {g : DeliveryRecord → DeliveryRecord} {e : DeploymentId × DeliveryRecord}
    (h : e ∈ remaining p record g s') :
    ∃ d ∈ s'.deliveries, d.1 ∉ (doomed p record s').map (·.id) ∧ e = (d.1, g d.2) := by
  obtain ⟨d, hd, rfl⟩ := List.mem_map.mp h
  obtain ⟨hmem, hnot⟩ := List.mem_filter.mp hd
  exact ⟨d, hmem, by simpa using hnot, rfl⟩

/-- Targets that the instruction does not name keep their deliveries. -/
theorem Planned.untouched (h : Planned p i record s' s₁) (hs : WellFormed s') (hunshared : Unshared plan s')
    (hi : i ∈ plan.instructions) (hrecord : (plannedDelivery plan i 0).Alike record) {t : TargetId} (ht : t ≠ i.target) :
    partOf t s₁ = partOf t s' := by
  obtain ⟨⟨g, hg, hdeliveries⟩, -⟩ := h
  have hother (e : DeploymentId × DeliveryRecord) (he : e ∈ s'.deliveries) (htarget : e.2.target = t) :
      e.1 ∉ (doomed p record s').map (·.id) ∧ e.1 ∉ (superseded record s').map (·.id) := by
    have hne (r : DeliveryRecord) (hr : r ∈ s'.deliveries.map (·.2)) (hrt : r.target = i.target) : e.1 ≠ r.id := by
      intro hid
      have hsame := hs.deliveries.find_id hr
      rw [← hid, hs.deliveries.find.mpr he] at hsame
      rw [Option.some.inj hsame] at htarget
      exact ht (htarget.symm.trans hrt)
    constructor
    · intro hin
      obtain ⟨r, hr, hid⟩ := List.mem_map.mp hin
      obtain ⟨hmem, htarget', -⟩ := mem_doomed hr
      exact hne r hmem (htarget'.trans hrecord.target) hid.symm
    · intro hin
      obtain ⟨r, hr, hid⟩ := List.mem_map.mp hin
      obtain ⟨hmem, -, htarget', -⟩ := mem_superseded hr
      exact hne r hmem (htarget'.trans hrecord.target) hid.symm
  have hvalues (m : SortedMap DeploymentId DeliveryRecord) :
      (m.map (·.2)).filter (·.target == t) = (m.filter fun e => e.2.target == t).map (·.2) := List.filter_map
  rw [partOf, partOf, hvalues, hvalues, hdeliveries, SortedMap.filter_insert]
  · rw [remaining, List.filter_map, List.filter_filter, List.map_map]
    have hfilter : s'.deliveries.filter (fun e => ((fun e => e.2.target == t) ∘ fun e => (e.1, g e.2)) e &&
        decide (e.1 ∉ (doomed p record s').map (·.id))) = s'.deliveries.filter fun e => e.2.target == t := by
      refine List.filter_congr fun e he => ?_
      rw [Function.comp_apply, (hg.alike e he).target]
      by_cases htarget : e.2.target = t
      · simp [htarget, (hother e he htarget).1]
      · simp [htarget]
    rw [hfilter]
    refine List.map_congr_left fun e he => ?_
    obtain ⟨hmem, htarget⟩ := List.mem_filter.mp he
    exact hg.others e hmem (hother e hmem (by simpa using htarget)).2
  · rw [hrecord.target]
    exact beq_eq_false_iff_ne.mpr ht.symm
  · intro e he hid
    obtain ⟨d, hd, -, rfl⟩ := mem_remaining he
    have hvalue : d.2 ∈ s'.deliveries.map (·.2) := List.mem_map_of_mem hd
    have hname : d.2.id = deploymentOf i := (hs.deliveries.filed d hd).trans (hid.trans hrecord.id)
    refine beq_eq_false_iff_ne.mpr ?_
    change (g d.2).target ≠ t
    rw [(hg.alike d hd).target, hunshared.known i hi d.2 hvalue hname]
    exact ht.symm

theorem Planned.unshared (h : Planned p i record s' s₁) (hunshared : Unshared plan s')
    (hi : i ∈ plan.instructions) (hrecord : (plannedDelivery plan i 0).Alike record) : Unshared plan s₁ := by
  obtain ⟨⟨g, hg, hdeliveries⟩, -⟩ := h
  refine ⟨fun j hj r hr hid => ?_, hunshared.planned⟩
  obtain ⟨e, he, rfl⟩ := List.mem_map.mp hr
  rw [hdeliveries] at he
  obtain rfl | he := SortedMap.mem_insert he
  · rw [hrecord.target]
    exact hunshared.planned j hj i hi (hrecord.id.symm.trans hid)
  · obtain ⟨d, hd, -, rfl⟩ := mem_remaining he
    have halike := hg.alike d hd
    change (g d.2).target = j.target
    rw [halike.target]
    exact hunshared.known j hj d.2 (List.mem_map_of_mem hd) (halike.id.symm.trans hid)

/-- A pending delivery that is still there has not been touched. -/
theorem Planned.stayed (h : Planned p i record s' s₁) (hm : Listed s'.deliveries) {r : DeliveryRecord} (hr : r ∈ pendingOf s₁) :
    r = record ∨ r ∈ pendingOf s' ∧ r ∉ superseded record s' ∧ r ∉ doomed p record s' := by
  obtain ⟨⟨g, hg, hdeliveries⟩, -⟩ := h
  obtain ⟨hvalue, hpending⟩ := List.mem_filter.mp hr
  obtain ⟨e, he, rfl⟩ := List.mem_map.mp hvalue
  rw [hdeliveries] at he
  obtain rfl | he := SortedMap.mem_insert he
  · exact .inl rfl
  · obtain ⟨d, hd, hdoomed, rfl⟩ := mem_remaining he
    have hnot : d.1 ∉ (superseded record s').map (·.id) := by
      intro hin
      have hretired := hg.retired d hd hin
      simp [hretired, isPendingState] at hpending
    have hsame : g d.2 = d.2 := hg.others d hd hnot
    dsimp only at hpending ⊢
    rw [hsame] at hpending ⊢
    have hmem : d.2 ∈ pendingOf s' := List.mem_filter.mpr ⟨List.mem_map_of_mem hd, hpending⟩
    refine .inr ⟨hmem, fun hin => hnot ?_, fun hin => hdoomed ?_⟩
    · exact List.mem_map.mpr ⟨d.2, hin, hm.filed d hd⟩
    · exact List.mem_map.mpr ⟨d.2, hin, hm.filed d hd⟩

/-- The acknowledgements that the plan's instructions are skipped for stay. -/
theorem Planned.freshness {j : DeploymentInstruction} (h : Planned p i record s' s₁) (hm : Listed s'.deliveries)
    (hm₁ : Listed s₁.deliveries) (hrecord : record.id = deploymentOf i) (hpending : isPendingState record.state = true)
    (hfresh : isFresh s' i = true)
    (hspared : ∀ r ∈ doomed p record s', r.state = .acknowledged → r.id ≠ deploymentOf j) :
    isFresh s₁ j = isFresh s' j := by
  obtain ⟨⟨g, hg, hdeliveries⟩, -⟩ := h
  have hnever {state : DeliveryState} (hstate : isPendingState state = true) : state ≠ .acknowledged := by
    rintro rfl
    cases hstate
  rw [Bool.eq_iff_iff, isFresh_iff, isFresh_iff]
  constructor
  · intro h₁ r hr hacknowledged
    by_cases hid : deploymentOf j = deploymentOf i
    · rw [hid] at hr
      exact isFresh_iff.mp hfresh r hr hacknowledged
    have he : (deploymentOf j, r) ∈ s'.deliveries := hm.find.mp hr
    have hname : r.id = deploymentOf j := hm.filed _ he
    have hkept : deploymentOf j ∉ (doomed p record s').map (·.id) := by
      intro hin
      obtain ⟨d, hd, hdid⟩ := List.mem_map.mp hin
      have hfind := hm.find_id (mem_doomed hd).1
      rw [hdid, show SortedMap.find s'.deliveries (deploymentOf j) = some r from hr] at hfind
      obtain rfl := Option.some.inj hfind
      exact hspared r hd hacknowledged hname
    have hstays : deploymentOf j ∉ (superseded record s').map (·.id) := by
      intro hin
      obtain ⟨d, hd, hdid⟩ := List.mem_map.mp hin
      obtain ⟨hmem, -, -, -, -, hstate⟩ := mem_superseded hd
      have hfind := hm.find_id hmem
      rw [hdid, show SortedMap.find s'.deliveries (deploymentOf j) = some r from hr] at hfind
      obtain rfl := Option.some.inj hfind
      exact hnever hstate hacknowledged
    have hremaining : (deploymentOf j, r) ∈ remaining p record g s' := by
      have hsame : g r = r := hg.others _ he hstays
      refine List.mem_map.mpr ⟨(deploymentOf j, r), List.mem_filter.mpr ⟨he, by simpa using hkept⟩, ?_⟩
      rw [hsame]
    have hlisted : Listed (remaining p record g s') :=
      (hm.filter _).map fun e he => hg.alike e (List.mem_of_mem_filter he)
    refine h₁ r ?_ hacknowledged
    rw [ControllerState.findDelivery, hdeliveries, SortedMap.find_insert, if_neg (by rw [hrecord]; exact hid)]
    exact hlisted.find.mpr hremaining
  · intro h' r hr
    have he : (deploymentOf j, r) ∈ s₁.deliveries := hm₁.find.mp hr
    rw [hdeliveries] at he
    obtain heq | he := SortedMap.mem_insert he
    · obtain ⟨-, rfl⟩ := Prod.mk.inj heq
      exact hnever hpending
    · obtain ⟨d, hd, -, heq⟩ := mem_remaining he
      obtain ⟨hid, rfl⟩ := Prod.mk.inj heq
      by_cases hin : d.1 ∈ (superseded record s').map (·.id)
      · rw [hg.retired d hd hin]
        decide
      · rw [hg.others d hd hin]
        exact h' d.2 (hm.find.mpr (hid ▸ hd))

theorem Through.planned (h : Through p plan s before s') (hi : i ∈ plan.instructions) (hfresh : isFresh s i = true)
    (hnew : i.target ∉ before.map (·.target))
    (hspared : ∀ r ∈ doomed p (plannedDelivery plan i 0) s, r.state = .acknowledged →
      r.id ∉ plan.instructions.map deploymentOf)
    (hrecord : (plannedDelivery plan i 0).Alike record) (hpending : isPendingState record.state = true)
    (hplanned : Planned p i record s' s₁) : Through p plan s (before ++ [i]) s₁ := by
  have hname : isValidIdentifier record.id = true := by
    rw [hrecord.id]
    exact deriveDeploymentId_valid
  have hlisted : Listed s₁.deliveries := hplanned.listed h.wellFormed.deliveries hname
  have hpart : partOf i.target s' = partOf i.target s := h.untouched _ hnew
  have hdoomed : doomed p record s' = doomed p (plannedDelivery plan i 0) s := doomed_part hrecord hpart
  have hfresh' : isFresh s' i = true := (h.freshness i hi).trans hfresh
  obtain ⟨runtime, htargets⟩ := hplanned.targets
  refine ⟨⟨hlisted, ?_⟩, hplanned.unshared h.unshared hi hrecord, fun j hj => ?_, fun t ht => ?_, fun e he => ?_,
    fun r hr => ?_, fun t ht => ?_⟩
  · rw [htargets]
    exact SortedMap.sorted_insert h.wellFormed.targets _ _
  · rw [← h.freshness j hj]
    refine hplanned.freshness h.wellFormed.deliveries hlisted hrecord.id hpending hfresh' fun r hr hstate hid => ?_
    rw [hdoomed] at hr
    exact hspared r hr hstate (List.mem_map.mpr ⟨j, hj, hid.symm⟩)
  · rw [List.map_append, List.mem_append, not_or] at ht
    have hne : t ≠ i.target := fun heq => ht.2 (by simp [heq])
    rw [hplanned.untouched h.wellFormed h.unshared hi hrecord hne]
    exact h.untouched t ht.1
  · obtain ⟨⟨g, -, hdeliveries⟩, -⟩ := hplanned
    rw [hdeliveries] at he
    obtain rfl | he := SortedMap.mem_insert he
    · exact .inr ⟨i, by simp, hrecord.id.symm⟩
    · obtain ⟨d, hd, -, rfl⟩ := mem_remaining he
      exact (h.known d hd).imp id fun ⟨j, hj, hid⟩ => ⟨j, List.mem_append_left _ hj, hid⟩
  · obtain rfl | ⟨hold, hsuperseded, hkept⟩ := hplanned.stayed h.wellFormed.deliveries hr
    · exact .inl ⟨i, by simp, hrecord.id⟩
    by_cases hid : r.id = deploymentOf i
    · exact .inl ⟨i, by simp, hid⟩
    obtain ⟨j, hj, hjid⟩ | ⟨hmem, hleaves⟩ := h.pending r hold
    · exact .inl ⟨j, List.mem_append_left _ hj, hjid⟩
    · refine .inr ⟨hmem, fun j hj => ?_⟩
      obtain hj | hj := List.mem_append.mp hj
      · exact hleaves j hj
      · obtain rfl := List.mem_singleton.mp hj
        have hsuperseded' : r ∉ superseded (plannedDelivery plan j 0) s := by
          intro hin
          obtain ⟨-, hne, htarget, hkey, hlt, hstate⟩ := mem_superseded hin
          apply hsuperseded
          rw [superseded, List.mem_filter, hrecord.id, hrecord.target, hrecord.key, hrecord.generation]
          refine ⟨List.mem_of_mem_filter hold, ?_⟩
          simp [hne, htarget, hkey, hlt, hstate]
        have hkept' : r ∉ doomed p (plannedDelivery plan j 0) s := by
          rw [← hdoomed]
          exact hkept
        simp [leaves, hid, hsuperseded', hkept']
  · obtain ⟨e, he, rfl⟩ := List.mem_map.mp ht
    rw [htargets] at he
    obtain rfl | he := SortedMap.mem_insert he
    · exact .inr ⟨i, by simp, rfl⟩
    · obtain hold | ⟨j, hj, heq⟩ := h.tracked e.1 (List.mem_map_of_mem he)
      · exact .inl hold
      · exact .inr ⟨j, List.mem_append_left _ hj, heq⟩

/-- All the instructions: those that plan a delivery each have a target of their own. -/
theorem Plans.through (h : Plans p plan rest s' s₁) (hthrough : Through p plan s before s') (hadmits : Admits p plan s)
    (hrest : rest ⊆ plan.instructions) (hsplit : before ++ rest.filter (isFresh s) = fresh plan s) :
    Through p plan s (fresh plan s) s₁ := by
  induction h generalizing before with
  | done hdeliveries htargets =>
    rw [List.filter_nil, List.append_nil] at hsplit
    rw [← hsplit]
    exact hthrough.congr hdeliveries htargets
  | @skipped i _ s' _ existing hexisting hacknowledged _ ih =>
    obtain ⟨hi, hrest⟩ := List.cons_subset.mp hrest
    have hold : ¬ isFresh s i = true := by
      rw [← hthrough.freshness i hi, isFresh_iff]
      exact fun h => h existing hexisting hacknowledged
    rw [List.filter_cons_of_neg hold] at hsplit
    exact ih hthrough hrest hsplit
  | @planned i _ s' _ _ _ hnot hrecord hpending hplanned _ ih =>
    obtain ⟨hi, hrest⟩ := List.cons_subset.mp hrest
    have hfresh : isFresh s i = true := by
      rw [← hthrough.freshness i hi, isFresh_iff]
      exact hnot
    rw [List.filter_cons_of_pos hfresh] at hsplit
    have hnew : i.target ∉ before.map (·.target) := by
      intro hin
      have hdistinct := hadmits.distinct
      rw [← hsplit, List.map_append, List.map_cons, List.nodup_append] at hdistinct
      exact hdistinct.2.2 _ hin _ List.mem_cons_self rfl
    have hmem : i ∈ fresh plan s := List.mem_filter.mpr ⟨hi, hfresh⟩
    refine ih (hthrough.planned hi hfresh hnew (hadmits.spared i hmem) hrecord hpending hplanned) hrest ?_
    rw [List.append_assoc]
    exact hsplit

/-- What is pending in the end: what stays, and what is planned. -/
theorem Through.live (h : Through p plan s (fresh plan s) s') :
    (pendingOf s').length ≤ (staying p plan s).length + (fresh plan s).length := by
  have hnodup : ((pendingOf s').map (·.id)).Nodup :=
    h.wellFormed.deliveries.ids_nodup.sublist (List.filter_sublist.map _)
  have hsubset : (pendingOf s').map (·.id) ⊆
      (staying p plan s).map (·.id) ++ (fresh plan s).map deploymentOf := by
    intro id hid
    obtain ⟨r, hr, rfl⟩ := List.mem_map.mp hid
    obtain ⟨i, hi, hname⟩ | ⟨hmem, hleaves⟩ := h.pending r hr
    · exact List.mem_append_right _ (List.mem_map.mpr ⟨i, hi, hname.symm⟩)
    · exact List.mem_append_left _ (List.mem_map_of_mem (List.mem_filter.mpr ⟨hmem, List.all_eq_true.mpr hleaves⟩))
  have hlength := (List.subperm_of_subset hnodup hsubset).length_le
  rwa [List.length_append, List.length_map, List.length_map, List.length_map] at hlength

theorem Through.targets (h : Through p plan s (fresh plan s) s') :
    s'.targets.length ≤ (s.targets.map (·.1) ++ (fresh plan s).map (·.target)).dedup.length := by
  have hsubset : s'.targets.map (·.1) ⊆ (s.targets.map (·.1) ++ (fresh plan s).map (·.target)).dedup := by
    intro t ht
    rw [List.mem_dedup]
    obtain hold | ⟨i, hi, rfl⟩ := h.tracked t ht
    · exact List.mem_append_left _ hold
    · exact List.mem_append_right _ (List.mem_map_of_mem hi)
  have hlength := (List.subperm_of_subset (SortedMap.keys_nodup h.wellFormed.targets) hsubset).length_le
  rwa [List.length_map] at hlength

end Through

/-! A store that refuses the first record: the call ends there. -/

section Refusal

variable {α β : Type} {w w' : World} {n : ℕ} {choices more : List Choice} {p : DistributorPolicy} {plan : DeploymentPlan}
  {i : DeploymentInstruction} {record : DeliveryRecord}

theorem draws_clock {now : ℤ} (h : Thread.Draws wire clock w choices now w') : ∃ i, choices = [i] ∧ w' = w := by
  obtain ⟨is₁, is₂, i, w₁, rfl, hask, hrest⟩ := Thread.draws_bind h
  obtain ⟨rfl, rfl⟩ := Thread.draws_ask hask
  obtain ⟨rfl, -, rfl⟩ := Thread.draws_pure hrest
  exact ⟨i, rfl, rfl⟩

theorem draws_state {s : ControllerState} (h : Thread.Draws wire state w choices s w') :
    choices = [] ∧ s = w.2.mem ∧ w' = w := by
  obtain ⟨is₁, is₂, c, w₁, rfl, hview, hrest⟩ := Thread.draws_bind h
  obtain ⟨rfl, rfl, rfl⟩ := Thread.draws_view hview
  obtain ⟨rfl, rfl, rfl⟩ := Thread.draws_pure hrest
  exact ⟨rfl, rfl, rfl⟩

theorem draws_always {q : Worker α} {Q : α → World → Prop} {a : α} (h : Sole (fun _ => True) q Q w)
    (hdraws : Thread.Draws wire q w choices a w') : Q a w' := Thread.Steps.draws h hdraws fun _ _ => trivial

/-- The store is asked after `n` other choices, and the call ends with its refusal. -/
def Balks (n : ℕ) (q : Worker α) (fails : α → Error → Prop) (w : World) : Prop :=
  ∀ choices a w', Thread.Draws wire q w choices a w' →
    ∃ i, choices[n]? = some i ∧ ∀ e, i.outcome = .refused e → fails a e ∧ w' = w

variable {q : Worker α} {f : α → Worker β} {fails : α → Error → Prop} {fails' : β → Error → Prop}

theorem Balks.bind (h : Balks n q fails w) (hf : ∀ a e, fails a e → ∃ b, f a = pure b ∧ fails' b e) :
    Balks n (q >>= f) fails' w := by
  intro choices b w' hdraws
  obtain ⟨is₁, is₂, a, w₁, rfl, hq, hrest⟩ := Thread.draws_bind hdraws
  obtain ⟨i, hi, hrefused⟩ := h is₁ a w₁ hq
  refine ⟨i, ?_, fun e he => ?_⟩
  · rw [List.getElem?_append_left (List.getElem?_eq_some_iff.mp hi).1, hi]
  · obtain ⟨hfails, rfl⟩ := hrefused e he
    obtain ⟨b', hpure, hfails'⟩ := hf a e hfails
    rw [hpure] at hrest
    obtain ⟨-, rfl, rfl⟩ := Thread.draws_pure hrest
    exact ⟨hfails', rfl⟩

theorem balks_clock {f : ℤ → Worker β} (h : ∀ now, Balks n (f now) fails' w) : Balks (n + 1) (clock >>= f) fails' w := by
  intro choices b w' hdraws
  obtain ⟨is₁, is₂, now, w₁, rfl, hclock, hrest⟩ := Thread.draws_bind hdraws
  obtain ⟨i, rfl, rfl⟩ := draws_clock hclock
  exact h now is₂ b w' hrest

theorem balks_state {f : ControllerState → Worker β} (h : Balks n (f w.2.mem) fails' w) :
    Balks n (state >>= f) fails' w := by
  intro choices b w' hdraws
  obtain ⟨is₁, is₂, s, w₁, rfl, hstate, hrest⟩ := Thread.draws_bind hdraws
  obtain ⟨rfl, rfl, rfl⟩ := draws_state hstate
  exact h is₂ b w' hrest

theorem draws_commit {copy : Copy} {make : ControllerState → ControllerRecord} {x : Status × ControllerState}
    (h : Thread.Draws wire (commit copy make) w choices x w') : ∃ i, choices = [i] ∧
      ∀ e, i.outcome = .refused e → x.1 = .error e ∧ w' = w := by
  obtain ⟨is₁, is₂, i, w₁, rfl, hask, hrest⟩ := Thread.draws_bind h
  obtain ⟨rfl, rfl⟩ := Thread.draws_ask hask
  cases houtcome : i.outcome with
  | refused e =>
    rw [houtcome] at hrest
    obtain ⟨is₃, is₄, s, w₂, rfl, hstate, hpure⟩ := Thread.draws_bind hrest
    obtain ⟨rfl, rfl, rfl⟩ := draws_state hstate
    obtain ⟨rfl, rfl, rfl⟩ := Thread.draws_pure hpure
    refine ⟨i, rfl, fun e' he' => ?_⟩
    cases houtcome.symm.trans he'
    exact ⟨rfl, rfl⟩
  | failed | done =>
    rw [houtcome] at hrest
    obtain ⟨is₃, is₄, s, w₂, rfl, hupdate, hpure⟩ := Thread.draws_bind hrest
    obtain ⟨rfl, rfl, rfl⟩ := Thread.draws_update hupdate
    obtain ⟨rfl, rfl, rfl⟩ := Thread.draws_pure hpure
    refine ⟨i, rfl, fun e' he' => ?_⟩
    cases houtcome.symm.trans he'

theorem balks_commit {copy : Copy} {make : ControllerState → ControllerRecord} :
    Balks 0 (commit copy make) (fun x e => x.1 = .error e) w := by
  intro choices x w' hdraws
  obtain ⟨i, rfl, hrefused⟩ := draws_commit hdraws
  exact ⟨i, rfl, hrefused⟩

theorem balks_commitDelivery {cause : Cause} {make : ControllerState → DeliveryRecord}
    (hname : isValidIdentifier record.id = true) :
    Balks 0 (commitDelivery record cause make) (fun x e => x.1 = .error e) w := by
  rw [commitDelivery, parseDeploymentId_of_valid hname]
  exact balks_commit.bind fun x e hx => ⟨_, rfl, hx⟩

theorem balks_recordRetired {reason : Bytes} {cause : Cause} (hpending : isPendingState record.state = true)
    (hname : isValidIdentifier record.id = true) :
    Balks 1 (recordRetired record reason cause) (fun x e => x.1 = .error e) w := by
  obtain ⟨hlegal, hne⟩ := retires_pending hpending
  have htransition : Balks 1 (recordTransition record .retired .superseded .retired
      (reason.take kMaxDeliveryDetailBytes) false cause) (fun x e => x.1 = .error e) w := by
    rw [recordTransition, hlegal]
    exact balks_clock fun now => balks_commitDelivery hname
  rw [recordRetired, if_neg hne]
  refine htransition.bind ?_
  rintro ⟨_, retired⟩ e rfl
  exact ⟨_, rfl, rfl⟩

theorem balks_planDelivery {accepted : Bool} (hm : Listed w.2.mem.deliveries) :
    Balks (if superseded record w.2.mem = [] then 0 else 1) (planDelivery p i accepted record)
      (fun status e => status = .error e) w := by
  have hstop {status : Status} {e : Error} {rest : Worker Status} (h : status = .error e) :
      ∃ b, (match status with | .error e => (return .error e : Worker Status) | .ok () => rest) = pure b ∧
        b = .error e := by
    subst h
    exact ⟨_, rfl, rfl⟩
  refine balks_state ?_
  split
  next hnone =>
    rw [hnone]
    refine balks_state (w := w) ?_
    cases hdoomed : doomed p record w.2.mem with
    | nil =>
      have htarget : Balks 0 (planTarget i accepted) (fun status e => status = .error e) w :=
        balks_state (balks_commit.bind fun x e hx => ⟨_, rfl, hx⟩)
      exact htarget.bind fun _ _ h => hstop h
    | cons stale rest =>
      have hremoved : Balks 0 (removeAll (stale :: rest)) (fun status e => status = .error e) w := by
        refine balks_commit.bind ?_
        rintro ⟨_, before⟩ e rfl
        exact ⟨_, rfl, rfl⟩
      exact hremoved.bind fun _ _ h => hstop h
  next hsome =>
    obtain ⟨other, rest, hcons⟩ := List.exists_cons_of_ne_nil hsome
    obtain ⟨hmem, -, -, -, -, hpending⟩ := mem_superseded (hcons ▸ List.mem_cons_self : other ∈ superseded record w.2.mem)
    have hname : isValidIdentifier other.id = true := hm.named _ (SortedMap.find_mem (hm.find_id hmem))
    have hretired (reason : Bytes) : Balks 1 (retireAll reason (other :: rest)) (fun status e => status = .error e) w := by
      refine (balks_recordRetired hpending hname).bind ?_
      rintro ⟨_, retired⟩ e rfl
      exact ⟨_, rfl, rfl⟩
    rw [hcons]
    exact (hretired _).bind fun _ _ h => hstop h

/-- An ingestion, whatever becomes of it, draws what `afterIngest` takes off. -/
theorem draws_ingestSource (h : Thread.Draws wire (ingestSource i) w choices () w') (more : List Choice) :
    afterIngest i (choices ++ more) = more := by
  rw [ingestSource] at h
  unfold afterIngest
  split at h
  next hempty =>
    obtain ⟨rfl, -, -⟩ := Thread.draws_pure h
    rw [if_pos hempty, List.nil_append]
  next hempty =>
    obtain ⟨is₁, is₂, known, w₁, rfl, hask, hknown⟩ := Thread.draws_bind h
    obtain ⟨rfl, rfl⟩ := Thread.draws_ask hask
    rw [if_neg hempty]
    dsimp only [List.cons_append, List.nil_append]
    split at hknown
    next hpresent =>
      obtain ⟨rfl, -, -⟩ := Thread.draws_pure hknown
      rw [if_pos hpresent, List.nil_append]
    next hpresent =>
      rw [if_neg hpresent]
      obtain ⟨is₁, is₂, produced, w₁, rfl, hproduced, hrest⟩ := Thread.draws_bind hknown
      obtain ⟨i₁, rfl, rfl⟩ := draws_clock hproduced
      obtain ⟨is₁, is₂, stored, w₁, rfl, hstored, hingested⟩ := Thread.draws_bind hrest
      obtain ⟨i₂, rfl, rfl⟩ := draws_clock hstored
      obtain ⟨is₁, is₂, status, w₁, rfl, hingest, hpure⟩ := Thread.draws_bind hingested
      obtain ⟨rfl, -, -⟩ := Thread.draws_pure hpure
      obtain ⟨is₁, is₂, source, w₂, rfl, hasked, hsourced⟩ := Thread.draws_bind hingest
      obtain ⟨rfl, rfl⟩ := Thread.draws_ask hasked
      dsimp only [List.cons_append, List.nil_append, List.drop]
      cases hsource : source.status with
      | error e =>
        rw [hsource] at hsourced
        obtain ⟨rfl, -, -⟩ := Thread.draws_pure hsourced
        rfl
      | ok done =>
        rw [hsource] at hsourced
        obtain ⟨is₁, is₂, x, w₃, rfl, hcommit, hdone⟩ := Thread.draws_bind hsourced
        obtain ⟨rfl, -, -⟩ := Thread.draws_pure hdone
        obtain ⟨c, rfl, -⟩ := draws_commit hcommit
        rfl

/-- The deliveries and the targets are as they were. -/
def SamePlan (s s' : ControllerState) : Prop := s'.deliveries = s.deliveries ∧ s'.targets = s.targets

theorem refused_planInstructions {steps : List (DeploymentInstruction × TargetResolution)} {status : Status}
    {s : ControllerState} {c : Choice} {e : Error} (hm : Listed s.deliveries) (hsame : SamePlan s w.2.mem)
    (h : Thread.Draws wire (planInstructions p plan steps) w choices status w')
    (hfirst : firstRecord plan s (steps.map (·.1)) (choices ++ more) = some c) (hrefused : c.outcome = .refused e) :
    status = .error e ∧ SamePlan s w'.2.mem := by
  induction steps generalizing w choices with
  | nil => cases hfirst
  | cons step rest ih =>
    obtain ⟨i, resolution⟩ := step
    rw [planInstructions] at h
    obtain ⟨is₁, is₂, _, w₁, rfl, hingest, hticking⟩ := Thread.draws_bind h
    obtain ⟨is₃, is₄, now, w₁, rfl, hclock, hlooking⟩ := Thread.draws_bind hticking
    obtain ⟨tick, rfl, rfl⟩ := draws_clock hclock
    obtain ⟨is₃, is₅, s', w₁, rfl, hstate, hfinding⟩ := Thread.draws_bind hlooking
    obtain ⟨rfl, rfl, rfl⟩ := draws_state hstate
    have hkept : SamePlan w.2.mem w₁.2.mem := draws_always sole_ingestSource hingest
    have hsame₁ : SamePlan s w₁.2.mem := ⟨hkept.1.trans hsame.1, hkept.2.trans hsame.2⟩
    have hm₁ : Listed w₁.2.mem.deliveries := by rw [hsame₁.1]; exact hm
    rw [List.map_cons, firstRecord, List.append_assoc, draws_ingestSource hingest] at hfirst
    dsimp only [List.cons_append, List.nil_append, List.tail] at hfirst
    have hfound : w₁.2.mem.findDelivery (deploymentOf i) = s.findDelivery (deploymentOf i) :=
      congrArg (·.find (deploymentOf i)) hsame₁.1
    have hplan (record : DeliveryRecord) (halike : (plannedDelivery plan i 0).Alike record) (hfresh : isFresh s i = true)
        (h : Thread.Draws wire (planThen p plan i resolution.accepted record rest) w₁ is₅ status w') :
        status = .error e ∧ SamePlan s w'.2.mem := by
      have hsuperseded : superseded record w₁.2.mem = superseded (plannedDelivery plan i 0) s := by
        rw [superseded, superseded, hsame₁.1, halike.id, halike.target, halike.key, halike.generation]
      rw [if_pos hfresh] at hfirst
      obtain ⟨is₁, is₂, planned, w₂, rfl, hdelivery, hended⟩ := Thread.draws_bind h
      obtain ⟨c', hc', hends⟩ := balks_planDelivery hm₁ is₁ planned w₂ hdelivery
      rw [hsuperseded] at hc'
      rw [List.append_assoc, List.getElem?_append_left (List.getElem?_eq_some_iff.mp hc').1, hc'] at hfirst
      obtain rfl := Option.some.inj hfirst
      obtain ⟨rfl, rfl⟩ := hends e hrefused
      obtain ⟨-, rfl, rfl⟩ := Thread.draws_pure hended
      exact ⟨rfl, hsame₁⟩
    split at hfinding
    next existing hexisting =>
      have hs : s.findDelivery (deploymentOf i) = some existing := hfound.symm.trans hexisting
      split at hfinding
      next hacknowledged =>
        have hold : ¬ isFresh s i = true := fun hfresh => isFresh_iff.mp hfresh existing hs hacknowledged
        rw [if_neg hold] at hfirst
        exact ih hsame₁ hfinding hfirst
      next hnot =>
        refine hplan (inherit (plannedDelivery plan i now) existing) ⟨rfl, rfl, rfl, rfl⟩ (isFresh_iff.mpr fun r hr => ?_) hfinding
        obtain rfl := Option.some.inj (hs.symm.trans hr)
        exact hnot
    next hnone =>
      refine hplan (plannedDelivery plan i now) ⟨rfl, rfl, rfl, rfl⟩ (isFresh_iff.mpr fun r hr => ?_) hfinding
      cases (hfound.symm.trans hnone).symm.trans hr

/-! A plan with nothing to plan. -/

theorem idle_planInstructions {allowed : Choice → Prop} {steps : List (DeploymentInstruction × TargetResolution)}
    {s : ControllerState} (hsame : SamePlan s w.2.mem) (hidle : ∀ i ∈ steps.map (·.1), isFresh s i = false) :
    Sole allowed (planInstructions p plan steps) (fun _ w' => SamePlan s w'.2.mem) w := by
  induction steps generalizing w with
  | nil => exact hsame
  | cons step rest ih =>
    obtain ⟨i, resolution⟩ := step
    obtain ⟨hi, hrest⟩ := List.forall_mem_cons.mp hidle
    rw [planInstructions, Sole, Thread.steps_bind]
    refine sole_ingestSource.mono fun _ w₁ h₁ => ?_
    have hsame₁ : SamePlan s w₁.2.mem := ⟨h₁.1.trans hsame.1, h₁.2.trans hsame.2⟩
    rw [Thread.steps_bind]
    refine sole_clock fun now => ?_
    rw [Thread.steps_bind]
    apply sole_state
    have hfound : w₁.2.mem.findDelivery (deploymentOf i) = s.findDelivery (deploymentOf i) :=
      congrArg (·.find (deploymentOf i)) hsame₁.1
    have hfresh (h : ∀ r, s.findDelivery (deploymentOf i) = some r → r.state ≠ .acknowledged) : False := by
      rw [isFresh_iff.mpr h] at hi
      cases hi
    split
    next existing hexisting =>
      split
      · exact ih hsame₁ hrest
      next hnot =>
        refine (hfresh fun r hr => ?_).elim
        obtain rfl := Option.some.inj ((hfound.symm.trans hexisting).symm.trans hr)
        exact hnot
    next hnone =>
      refine (hfresh fun r hr => ?_).elim
      cases (hfound.symm.trans hnone).symm.trans hr

end Refusal

/-! The condition is enough. -/

variable {p : DistributorPolicy} {plan : DeploymentPlan} {w w' : World} {choices : List Choice} {status : Status}

theorem AllOrNothing.unchanged {s s' : ControllerState} (h : status ≠ .ok ()) (hsame : SamePlan s s') :
    AllOrNothing p plan s status s' :=
  ⟨fun _ => hsame, fun hok => absurd hok h, fun hok => absurd hok h, fun hok => absurd hok h⟩

theorem zip_mem {i : DeploymentInstruction} (hi : i ∈ plan.instructions) :
    ∃ r, (i, r) ∈ plan.instructions.zip (resolveDeploymentSet p plan) := by
  have hmem : i ∈ (plan.instructions.zip (resolveDeploymentSet p plan)).map (·.1) := by rwa [zip_resolved]
  obtain ⟨⟨j, r⟩, hin, rfl⟩ := List.mem_map.mp hmem
  exact ⟨r, hin⟩

/-- Either nothing is planned or the plan's instructions are run through. -/
theorem draws_submitPlan (hany : (resolveDeploymentSet p plan).any (·.accepted) = true)
    (hrun : Thread.Draws wire (submitPlan p plan) w choices status w') :
    ∃ is₁ is₂ planned w₁, choices = is₁ ++ is₂ ∧
      Thread.Draws wire (planInstructions p plan (plan.instructions.zip (resolveDeploymentSet p plan))) w is₁ planned w₁ ∧
      Thread.Draws wire (concluded p planned) w₁ is₂ status w' := by
  rw [submitPlan_eq, hany] at hrun
  exact Thread.draws_bind hrun

theorem Refuses.unchanged (h : Refuses plan w.2.mem choices) (hm : Listed w.2.mem.deliveries)
    (hany : (resolveDeploymentSet p plan).any (·.accepted) = true)
    (hrun : Thread.Draws wire (submitPlan p plan) w choices status w') : status ≠ .ok () ∧ SamePlan w.2.mem w'.2.mem := by
  obtain ⟨c, hfirst, e, hrefused⟩ := h
  obtain ⟨is₁, is₂, planned, w₁, rfl, hplans, hrest⟩ := draws_submitPlan hany hrun
  rw [← zip_resolved p plan] at hfirst
  obtain ⟨rfl, hsame⟩ := refused_planInstructions hm ⟨rfl, rfl⟩ hplans hfirst hrefused
  obtain ⟨-, rfl, rfl⟩ := Thread.draws_pure hrest
  exact ⟨(fun h => by cases h), hsame⟩

/-- A plan with nothing to plan leaves the deliveries and the targets alone, whatever the files do. -/
theorem idle_submitPlan (hm : Listed w.2.mem.deliveries) (hidle : fresh plan w.2.mem = [])
    (hrun : Thread.Draws wire (submitPlan p plan) w choices status w') :
    SamePlan w.2.mem w'.2.mem ∧ (status = .ok () → (pendingOf w.2.mem).length ≤ p.maxLiveDeliveries) := by
  have hsubmits : Submits (fun _ => True) p plan w.2.mem status w'.2.mem := draws_always (sole_submitPlan hm) hrun
  have hsame : SamePlan w.2.mem w'.2.mem := by
    cases hany : (resolveDeploymentSet p plan).any (·.accepted) with
    | false =>
      obtain ⟨-, hstate⟩ := hsubmits.refused hany
      rw [hstate]
      exact ⟨rfl, rfl⟩
    | true =>
      have hsteps : Sole (fun _ => True) (submitPlan p plan) (fun _ w' => SamePlan w.2.mem w'.2.mem) w := by
        rw [submitPlan_eq, hany, if_neg (by decide), Sole, Thread.steps_bind]
        refine (idle_planInstructions ⟨rfl, rfl⟩ fun i hi => ?_).mono fun planned w₁ h₁ => ?_
        · rw [zip_resolved] at hi
          rw [← Bool.not_eq_true]
          intro hfresh
          have hmem : i ∈ fresh plan w.2.mem := List.mem_filter.mpr ⟨hi, hfresh⟩
          rw [hidle] at hmem
          exact List.not_mem_nil hmem
        cases planned with
        | error e => exact h₁
        | ok done =>
          rw [concluded, Thread.steps_bind]
          apply sole_state
          dsimp only
          split
          · exact h₁
          · refine sole_compactIfNeeded.mono fun status w₂ h₂ => ?_
            rw [h₂.1]
            exact h₁
      exact draws_always hsteps hrun
  refine ⟨hsame, fun hok => ?_⟩
  have hlive := (hsubmits.done hok).2
  rwa [pendingOf, hsame.1] at hlive

/-- A plan that selects nothing or that finds everything acknowledged changes nothing, and so does one whose first record
the store refuses; one that is admitted, into a store that takes every record, is carried out. -/
theorem Holds.allOrNothing (hholds : Holds p plan w.2.mem choices) (hs : WellFormed w.2.mem)
    (hrun : Thread.Draws wire (submitPlan p plan) w choices status w') :
    AllOrNothing p plan w.2.mem status w'.2.mem := by
  cases hany : (resolveDeploymentSet p plan).any (·.accepted) with
  | false =>
    rw [submitPlan_eq, hany] at hrun
    obtain ⟨-, rfl, rfl⟩ := Thread.draws_pure hrun
    exact .unchanged (fun h => by cases h) ⟨rfl, rfl⟩
  | true =>
    obtain hnone | hidle | hrefuses | ⟨htakes, hadmits⟩ := hholds
    · rw [hany] at hnone
      cases hnone
    · obtain ⟨hsame, hlive⟩ := idle_submitPlan hs.deliveries hidle.1 hrun
      refine ⟨fun _ => hsame, fun _ e he => ?_, fun hok => ?_, fun hok => ?_⟩
      · rw [hsame.1] at he
        left
        rw [ControllerState.findDelivery, hs.deliveries.find.mpr he]
        rfl
      · rw [pendingOf, hsame.1]
        exact hlive hok
      · rw [hsame.2]
        exact hidle.2.resolve_left (not_lt.mpr (hlive hok))
    · obtain ⟨herror, hsame⟩ := hrefuses.unchanged hs.deliveries hany hrun
      exact .unchanged herror hsame
    have hsubmits : Submits (fun c => c.outcome = .done) p plan w.2.mem status w'.2.mem :=
      Thread.Steps.draws (sole_submitPlan hs.deliveries) hrun htakes
    obtain ⟨hplans, hok⟩ := hsubmits.takes (fun _ h => h) hany
    have hthrough : Through p plan w.2.mem (fresh plan w.2.mem) w'.2.mem :=
      hplans.through (.start hs hadmits.unshared) hadmits (List.Subset.refl _) rfl
    have hlive : (pendingOf w'.2.mem).length ≤ p.maxLiveDeliveries := hthrough.live.trans hadmits.live
    refine ⟨fun herror => absurd (hok hlive) herror, fun _ e he => ?_, fun _ => hlive,
      fun _ => hthrough.targets.trans hadmits.targets⟩
    obtain hknown | ⟨i, hi, hid⟩ := hthrough.known e he
    · exact .inl hknown
    obtain ⟨hmem, hfresh⟩ := List.mem_filter.mp hi
    obtain ⟨r, hin⟩ := zip_mem (p := p) hmem
    exact .inr ⟨(i, r), hin, hadmits.selected (i, r) hin hfresh, hid⟩

end Distributor

end ConfigurationFabric
