import ConfigurationFabric.DistributorAdmission

/-! The deliveries kept for one configuration of one target, over any number of submitted plans. -/

namespace ConfigurationFabric

open LittleEndian
open Threads

namespace Distributor

def lineageOf (target : TargetId) (key : ConfigKey) (s : ControllerState) : List DeliveryRecord :=
  (s.deliveries.map (·.2)).filter fun r => r.target == target && r.key == key

def named (target : TargetId) (key : ConfigKey) (steps : List DeploymentInstruction) : List DeploymentInstruction :=
  steps.filter fun i => i.target == target && i.configKey == key

/-- The instructions for the lineage that are not acknowledged yet. -/
def due (target : TargetId) (key : ConfigKey) (s : ControllerState) (steps : List DeploymentInstruction) :
    List DeploymentInstruction :=
  (named target key steps).filter (isFresh s)

/-- The deliveries found or submitted that may be kept for the lineage of an instruction. -/
def candidates (plan : DeploymentPlan) (i : DeploymentInstruction) (s : ControllerState) : List DeliveryRecord :=
  lineageOf i.target i.configKey s ++ (named i.target i.configKey plan.instructions).map (plannedDelivery plan · 0)

/-- What a submitted plan leaves of each lineage that it names. -/
structure Bounded (p : DistributorPolicy) (plan : DeploymentPlan) (s s' : ControllerState) : Prop where
  few : ∀ i ∈ plan.instructions, (lineageOf i.target i.configKey s').length ≤ p.maxHistoryPerLineage
  current : ∀ i ∈ plan.instructions, ∀ r ∈ lineageOf i.target i.configKey s', isPendingState r.state = true →
    i.generation ≤ r.generation
  highest : ∀ i ∈ plan.instructions, ∀ d ∈ candidates plan i s,
    d.id ∉ (lineageOf i.target i.configKey s').map (·.id) → ∀ r ∈ lineageOf i.target i.configKey s',
      d.generation ≤ r.generation

/-! The condition. -/

/-- No two lineages share the name of a delivery. -/
structure Separate (steps : List DeploymentInstruction) (s : ControllerState) : Prop where
  known : ∀ i ∈ steps, ∀ r ∈ s.deliveries.map (·.2), r.id = deploymentOf i → r.target = i.target ∧ r.key = i.configKey
  planned : ∀ i ∈ steps, ∀ j ∈ steps, deploymentOf j = deploymentOf i → j.target = i.target ∧ j.configKey = i.configKey

/-- The history has room for every delivery of the lineages named. -/
def Roomy (p : DistributorPolicy) (steps : List DeploymentInstruction) (s : ControllerState) : Prop :=
  ∀ i ∈ steps, ((lineageOf i.target i.configKey s).map (·.id) ++ (named i.target i.configKey steps).map deploymentOf).dedup.length ≤
    p.maxHistoryPerLineage

structure Ascends (p : DistributorPolicy) (plan : DeploymentPlan) (s : ControllerState) : Prop where
  separate : Separate plan.instructions s
  roomy : Roomy p plan.instructions s
  last : ∀ i ∈ plan.instructions, ∀ j ∈ (due i.target i.configKey s plan.instructions).getLast?,
    i.generation ≤ j.generation
  acknowledged : ∀ i ∈ plan.instructions, due i.target i.configKey s plan.instructions = [] →
    ∀ r ∈ lineageOf i.target i.configKey s, isPendingState r.state = true → i.generation ≤ r.generation

/-! One instruction, where nothing is pruned. -/

section Step

variable {p : DistributorPolicy} {plan : DeploymentPlan} {s s₁ s' : ControllerState} {i : DeploymentInstruction}
  {record : DeliveryRecord} {steps rest : List DeploymentInstruction} {target : TargetId} {key : ConfigKey}

theorem mem_lineageOf {r : DeliveryRecord} :
    r ∈ lineageOf target key s ↔ r ∈ s.deliveries.map (·.2) ∧ r.target = target ∧ r.key = key := by
  simp [lineageOf]

theorem mem_named {j : DeploymentInstruction} :
    j ∈ named target key steps ↔ j ∈ steps ∧ j.target = target ∧ j.configKey = key := by
  simp [named]

theorem dedup_length_le {l l' : List DeploymentId} (h : l ⊆ l') : l.dedup.length ≤ l'.dedup.length :=
  (List.subperm_of_subset l.nodup_dedup fun _ hid => List.mem_dedup.mpr (h (List.mem_dedup.mp hid))).length_le

theorem lineage_length (hm : Listed s.deliveries) {ids : List DeploymentId}
    (h : ∀ r ∈ lineageOf target key s, r.id ∈ ids) : (lineageOf target key s).length ≤ ids.dedup.length := by
  have hnodup : ((lineageOf target key s).map (·.id)).Nodup := hm.ids_nodup.sublist (List.filter_sublist.map _)
  have hsub : (lineageOf target key s).map (·.id) ⊆ ids := fun id hid => by
    obtain ⟨r, hr, rfl⟩ := List.mem_map.mp hid
    exact h r hr
  have hle := dedup_length_le hsub
  rw [hnodup.dedup, List.length_map] at hle
  exact hle

theorem doomed_of_roomy (hm : Listed s.deliveries) (h : Roomy p steps s) (hi : i ∈ steps)
    (hrecord : (plannedDelivery plan i 0).Alike record) : doomed p record s = [] := by
  have hlineage : (s.deliveries.map (·.2)).filter (fun r => r.target == record.target && r.key == record.key) =
      lineageOf i.target i.configKey s := by
    rw [hrecord.target, hrecord.key]
    rfl
  rw [doomed, hlineage, List.drop_eq_nil_iff, List.length_insertionSort]
  refine (lineage_length hm fun r hr => ?_).trans (h i hi)
  exact List.mem_append_left _ (List.mem_map_of_mem hr)

theorem remaining_all {g : DeliveryRecord → DeliveryRecord} (h : doomed p record s = []) :
    remaining p record g s = s.deliveries.map fun e => (e.1, g e.2) := by
  rw [remaining, h]
  simp

/-- Each delivery afterwards is the planned one, or one from before, retired if it was pending and of a lower generation
of the same lineage. -/
theorem Planned.origin (h : Planned p i record s s₁) (hm : Listed s.deliveries) {r : DeliveryRecord}
    (hr : r ∈ s₁.deliveries.map (·.2)) : r = record ∨ ∃ d ∈ s.deliveries.map (·.2), d.Alike r ∧
      (isPendingState r.state = true → r = d ∧ d ∉ superseded record s) := by
  obtain ⟨⟨g, hg, hdeliveries⟩, -⟩ := h
  obtain ⟨e, he, rfl⟩ := List.mem_map.mp hr
  rw [hdeliveries] at he
  obtain rfl | he := SortedMap.mem_insert he
  · exact .inl rfl
  obtain ⟨d, hd, -, rfl⟩ := mem_remaining he
  refine .inr ⟨d.2, List.mem_map_of_mem hd, hg.alike d hd, fun hpending => ?_⟩
  have hnot : d.1 ∉ (superseded record s).map (·.id) := by
    intro hin
    have hretired := hg.retired d hd hin
    simp [hretired, isPendingState] at hpending
  exact ⟨hg.others d hd hnot, fun hin => hnot (List.mem_map.mpr ⟨d.2, hin, hm.filed d hd⟩)⟩

theorem Planned.recorded (h : Planned p i record s s₁) : record ∈ s₁.deliveries.map (·.2) := by
  obtain ⟨⟨g, -, hdeliveries⟩, -⟩ := h
  rw [hdeliveries]
  exact List.mem_map.mpr ⟨(record.id, record), SortedMap.find_mem (by simp [SortedMap.find_insert]), rfl⟩

theorem Planned.kept (h : Planned p i record s s₁) (hm : Listed s.deliveries) (hall : doomed p record s = [])
    {r : DeliveryRecord} (hr : r ∈ s.deliveries.map (·.2)) :
    r.id = record.id ∨ ∃ d ∈ s₁.deliveries.map (·.2), r.Alike d := by
  by_cases hid : r.id = record.id
  · exact .inl hid
  obtain ⟨⟨g, hg, hdeliveries⟩, -⟩ := h
  obtain ⟨e, he, rfl⟩ := List.mem_map.mp hr
  refine .inr ⟨g e.2, List.mem_map.mpr ⟨(e.1, g e.2), SortedMap.find_mem ?_, rfl⟩, hg.alike e he⟩
  rw [hm.filed e he] at hid
  rw [hdeliveries, remaining_all hall, SortedMap.find_insert, if_neg hid, SortedMap.find_map, hm.find.mpr he]
  rfl

theorem acknowledged_of_pending {state : DeliveryState} (h : isPendingState state = true) : state ≠ .acknowledged := by
  rintro rfl
  cases h

/-- Planning makes nothing acknowledged, and supersedes nothing that is. -/
theorem Planned.fresh (h : Planned p i record s s₁) (hm : Listed s.deliveries) (hall : doomed p record s = [])
    (hrecord : (plannedDelivery plan i 0).Alike record) (hpending : isPendingState record.state = true)
    (hnot : ∀ existing, s.findDelivery (deploymentOf i) = some existing → existing.state ≠ .acknowledged)
    (j : DeploymentInstruction) : isFresh s₁ j = isFresh s j := by
  obtain ⟨⟨g, hg, hdeliveries⟩, -⟩ := h
  have hid : record.id = deploymentOf i := hrecord.id
  have hfound : s₁.findDelivery (deploymentOf j) =
      if deploymentOf j = record.id then some record else (s.findDelivery (deploymentOf j)).map g := by
    rw [ControllerState.findDelivery, hdeliveries, remaining_all hall, SortedMap.find_insert, SortedMap.find_map]
    rfl
  rw [isFresh, isFresh, hfound]
  by_cases hsame : deploymentOf j = record.id
  · rw [if_pos hsame, hsame, hid]
    have hbefore : (s.findDelivery (deploymentOf i)).all (·.state != .acknowledged) = true :=
      (Option.all_eq_true _ _).mpr fun existing hexisting => by simpa using hnot existing hexisting
    rw [hbefore]
    simpa using acknowledged_of_pending hpending
  · rw [if_neg hsame]
    cases hj : s.findDelivery (deploymentOf j) with
    | none => rfl
    | some r =>
      have he : (deploymentOf j, r) ∈ s.deliveries := SortedMap.find_mem hj
      by_cases hin : deploymentOf j ∈ (superseded record s).map (·.id)
      · obtain ⟨d, hd, hdid⟩ := List.mem_map.mp hin
        obtain ⟨hmem, -, -, -, -, hstate⟩ := mem_superseded hd
        have hdr : d = r := by
          have hfind := hm.find_id hmem
          rw [hdid] at hfind
          exact Option.some.inj (hfind.symm.trans hj)
        have hretired := hg.retired _ he hin
        rw [hdr] at hstate
        rw [Option.map_some, Option.all_some, Option.all_some, hretired, bne_iff_ne.mpr (acknowledged_of_pending hstate)]
        rfl
      · rw [Option.map_some, hg.others _ he hin]

theorem Separate.tail (h : Separate (i :: rest) s) : Separate rest s where
  known j hj := h.known j (List.mem_cons_of_mem _ hj)
  planned j hj k hk := h.planned j (List.mem_cons_of_mem _ hj) k (List.mem_cons_of_mem _ hk)

theorem Separate.step (h : Separate (i :: rest) s) (hm : Listed s.deliveries)
    (hrecord : (plannedDelivery plan i 0).Alike record) (hplanned : Planned p i record s s₁) : Separate rest s₁ where
  known j hj r hr hid := by
    obtain rfl | ⟨d, hd, halike, -⟩ := hplanned.origin hm hr
    · rw [hrecord.target, hrecord.key]
      exact h.planned j (List.mem_cons_of_mem _ hj) i List.mem_cons_self (hrecord.id.symm.trans hid)
    · rw [halike.target, halike.key]
      exact h.known j (List.mem_cons_of_mem _ hj) d hd (halike.id.symm.trans hid)
  planned := h.tail.planned

theorem named_cons_mem {j : DeploymentInstruction} (h : j ∈ named target key rest) : j ∈ named target key (i :: rest) := by
  rw [mem_named] at h ⊢
  exact ⟨List.mem_cons_of_mem _ h.1, h.2⟩

theorem Roomy.tail (h : Roomy p (i :: rest) s) : Roomy p rest s := by
  intro j hj
  refine (dedup_length_le fun id hid => ?_).trans (h j (List.mem_cons_of_mem _ hj))
  obtain hid | hid := List.mem_append.mp hid
  · exact List.mem_append_left _ hid
  · obtain ⟨k, hk, rfl⟩ := List.mem_map.mp hid
    exact List.mem_append_right _ (List.mem_map_of_mem (named_cons_mem hk))

theorem Roomy.step (h : Roomy p (i :: rest) s) (hm : Listed s.deliveries)
    (hrecord : (plannedDelivery plan i 0).Alike record) (hplanned : Planned p i record s s₁) : Roomy p rest s₁ := by
  intro j hj
  refine (dedup_length_le fun id hid => ?_).trans (h j (List.mem_cons_of_mem _ hj))
  obtain hid | hid := List.mem_append.mp hid
  · obtain ⟨r, hr, rfl⟩ := List.mem_map.mp hid
    rw [mem_lineageOf] at hr
    obtain rfl | ⟨d, hd, halike, -⟩ := hplanned.origin hm hr.1
    · refine List.mem_append_right _ (List.mem_map.mpr ⟨i, mem_named.mpr ⟨List.mem_cons_self, ?_⟩, hrecord.id.symm⟩)
      exact ⟨hrecord.target.symm.trans hr.2.1, hrecord.key.symm.trans hr.2.2⟩
    · refine List.mem_append_left _ (List.mem_map.mpr ⟨d, mem_lineageOf.mpr ⟨hd, ?_⟩, halike.id.symm⟩)
      exact ⟨halike.target.symm.trans hr.2.1, halike.key.symm.trans hr.2.2⟩
  · obtain ⟨k, hk, rfl⟩ := List.mem_map.mp hid
    exact List.mem_append_right _ (List.mem_map_of_mem (named_cons_mem hk))

end Step

/-! All the instructions of a plan. -/

section Plans

variable {p : DistributorPolicy} {plan : DeploymentPlan} {s s' : ControllerState} {steps : List DeploymentInstruction}

theorem planned_named {i : DeploymentInstruction} {record : DeliveryRecord}
    (hrecord : (plannedDelivery plan i 0).Alike record) : isValidIdentifier record.id = true := by
  rw [hrecord.id]
  exact deriveDeploymentId_valid

theorem Plans.listed (h : Plans p plan steps s s') (hm : Listed s.deliveries) : Listed s'.deliveries := by
  induction h with
  | done hdeliveries _ =>
    rw [hdeliveries]
    exact hm
  | skipped _ _ _ ih => exact ih hm
  | planned _ hrecord _ hplanned _ ih => exact ih (hplanned.listed hm (planned_named hrecord))

theorem Plans.origin (h : Plans p plan steps s s') (hm : Listed s.deliveries) : ∀ r ∈ s'.deliveries.map (·.2),
    (∃ d ∈ s.deliveries.map (·.2), d.Alike r) ∨ ∃ i ∈ steps, (plannedDelivery plan i 0).Alike r := by
  induction h with
  | done hdeliveries _ =>
    rw [hdeliveries]
    exact fun r hr => .inl ⟨r, hr, .refl r⟩
  | skipped _ _ _ ih => exact fun r hr => (ih hm r hr).imp id fun ⟨i, hi, halike⟩ => ⟨i, List.mem_cons_of_mem _ hi, halike⟩
  | @planned i _ _ _ _ record _ hrecord _ hplanned _ ih =>
    intro r hr
    obtain ⟨d, hd, halike⟩ | ⟨j, hj, halike⟩ := ih (hplanned.listed hm (planned_named hrecord)) r hr
    · obtain rfl | ⟨d', hd', halike', -⟩ := hplanned.origin hm hd
      · exact .inr ⟨i, List.mem_cons_self, hrecord.trans halike⟩
      · exact .inl ⟨d', hd', halike'.trans halike⟩
    · exact .inr ⟨j, List.mem_cons_of_mem _ hj, halike⟩

/-- Where there is room, all that was found is kept, and all that was submitted. -/
theorem Plans.kept (h : Plans p plan steps s s') (hm : Listed s.deliveries) (hseparate : Separate steps s)
    (hroomy : Roomy p steps s) :
    (∀ r ∈ s.deliveries.map (·.2), ∃ d ∈ s'.deliveries.map (·.2), d.id = r.id ∧ d.target = r.target ∧ d.key = r.key) ∧
      ∀ j ∈ steps, ∃ d ∈ s'.deliveries.map (·.2), d.id = deploymentOf j ∧ d.target = j.target ∧ d.key = j.configKey := by
  induction h with
  | done hdeliveries _ =>
    rw [hdeliveries]
    exact ⟨fun r hr => ⟨r, hr, rfl, rfl, rfl⟩, fun j hj => absurd hj List.not_mem_nil⟩
  | @skipped i rest s s' existing hexisting _ _ ih =>
    obtain ⟨hfound, hsubmitted⟩ := ih hm hseparate.tail hroomy.tail
    refine ⟨hfound, List.forall_mem_cons.mpr ⟨?_, hsubmitted⟩⟩
    have hin := SortedMap.find_mem hexisting
    have hvalue : existing ∈ s.deliveries.map (·.2) := List.mem_map.mpr ⟨_, hin, rfl⟩
    have hid : existing.id = deploymentOf i := hm.filed _ hin
    obtain ⟨htarget, hkey⟩ := hseparate.known i List.mem_cons_self existing hvalue hid
    obtain ⟨d, hd, hdid, hdtarget, hdkey⟩ := hfound existing hvalue
    exact ⟨d, hd, hdid.trans hid, hdtarget.trans htarget, hdkey.trans hkey⟩
  | @planned i rest s s₁ s' record _ hrecord _ hplanned _ ih =>
    obtain ⟨hfound, hsubmitted⟩ := ih (hplanned.listed hm (planned_named hrecord)) (hseparate.step hm hrecord hplanned)
      (hroomy.step hm hrecord hplanned)
    obtain ⟨d, hd, hdid, hdtarget, hdkey⟩ := hfound record hplanned.recorded
    rw [hrecord.id] at hdid
    rw [hrecord.target] at hdtarget
    rw [hrecord.key] at hdkey
    refine ⟨fun r hr => ?_, List.forall_mem_cons.mpr ⟨⟨d, hd, hdid, hdtarget, hdkey⟩, hsubmitted⟩⟩
    obtain hid | ⟨r₁, hr₁, halike⟩ := hplanned.kept hm (doomed_of_roomy hm hroomy List.mem_cons_self hrecord) hr
    · rw [hrecord.id] at hid
      obtain ⟨htarget, hkey⟩ := hseparate.known i List.mem_cons_self r hr hid
      exact ⟨d, hd, hdid.trans hid.symm, hdtarget.trans htarget.symm, hdkey.trans hkey.symm⟩
    · obtain ⟨d', hd', hid', htarget', hkey'⟩ := hfound r₁ hr₁
      exact ⟨d', hd', hid'.trans halike.id, htarget'.trans halike.target, hkey'.trans halike.key⟩

theorem due_congr {target : TargetId} {key : ConfigKey} {s₁ : ControllerState} (h : ∀ j, isFresh s₁ j = isFresh s j) :
    due target key s₁ steps = due target key s steps := List.filter_congr fun j _ => h j

/-- The last instruction that plans something on a lineage leaves nothing pending below it. -/
theorem Plans.pending {target : TargetId} {key : ConfigKey} (h : Plans p plan steps s s') (hm : Listed s.deliveries)
    (hroomy : Roomy p steps s) :
    (due target key s steps = [] → ∀ r ∈ lineageOf target key s', isPendingState r.state = true →
      r ∈ lineageOf target key s) ∧
    ∀ j ∈ (due target key s steps).getLast?, ∀ r ∈ lineageOf target key s', isPendingState r.state = true →
      j.generation ≤ r.generation := by
  induction h with
  | done hdeliveries _ =>
    refine ⟨fun _ r hr _ => ?_, fun j hj => ?_⟩
    · rw [lineageOf, hdeliveries] at hr
      exact hr
    · simp [due, named] at hj
  | @skipped i rest s s' existing hexisting hacknowledged _ ih =>
    have hsame : due target key s (i :: rest) = due target key s rest := by
      have hold : isFresh s i = false := by simp [isFresh, hexisting, hacknowledged]
      rw [due, named, List.filter_cons]
      split
      · rw [List.filter_cons_of_neg (by simp [hold])]
        rfl
      · rfl
    rw [hsame]
    exact ih hm hroomy.tail
  | @planned i rest s s₁ s' record hnot hrecord hpending hplanned _ ih =>
    have hall := doomed_of_roomy hm hroomy List.mem_cons_self hrecord
    have hm₁ : Listed s₁.deliveries := hplanned.listed hm (planned_named hrecord)
    obtain ⟨hnone, hlast⟩ := ih hm₁ (hroomy.step hm hrecord hplanned)
    rw [due_congr (hplanned.fresh hm hall hrecord hpending hnot)] at hnone hlast
    have hfresh : isFresh s i = true := by
      refine (Option.all_eq_true _ _).mpr fun existing hexisting => ?_
      simpa using hnot existing hexisting
    by_cases hlineage : i.target = target ∧ i.configKey = key
    · have hdue : due target key s (i :: rest) = i :: due target key s rest := by
        rw [due, named, List.filter_cons_of_pos (by simp [hlineage]), List.filter_cons_of_pos hfresh]
        rfl
      rw [hdue]
      refine ⟨(fun h => by cases h), fun j hj r hr hstate => ?_⟩
      by_cases hrest : due target key s rest = []
      · -- nothing else is planned on the lineage, and this instruction has superseded what is lower
        rw [hrest] at hj
        obtain rfl : i = j := Option.some.inj hj
        have hr₁ := hnone hrest r hr hstate
        rw [mem_lineageOf] at hr₁
        obtain rfl | ⟨d, hd, -, hsame⟩ := hplanned.origin hm hr₁.1
        · exact hrecord.generation.ge
        · obtain ⟨rfl, hsuperseded⟩ := hsame hstate
          by_contra hlower
          by_cases hid : r.id = record.id
          · have hfirst := hm₁.find_id hr₁.1
            rw [hid, hm₁.find_id hplanned.recorded] at hfirst
            rw [← Option.some.inj hfirst, hrecord.generation] at hlower
            exact hlower le_rfl
          · refine hsuperseded (List.mem_filter.mpr ⟨hd, ?_⟩)
            have hlt : r.generation < i.generation := not_le.mp hlower
            rw [hrecord.target, hrecord.key, hrecord.generation]
            change (r.id != record.id && r.target == i.target && r.key == i.configKey &&
              decide (r.generation < i.generation) && isPendingState r.state) = true
            simp [hid, hr₁.2, hlineage, hlt, hstate]
      · refine hlast j ?_ r hr hstate
        rw [List.getLast?_cons_of_ne_nil hrest] at hj
        exact hj
    · have hdue : due target key s (i :: rest) = due target key s rest := by
        rw [due, named, List.filter_cons_of_neg (by simpa using hlineage)]
        rfl
      rw [hdue]
      refine ⟨fun h r hr hstate => ?_, hlast⟩
      have hr₁ := hnone h r hr hstate
      rw [mem_lineageOf] at hr₁ ⊢
      obtain rfl | ⟨d, hd, -, hsame⟩ := hplanned.origin hm hr₁.1
      · exact absurd ⟨hrecord.target.symm.trans hr₁.2.1, hrecord.key.symm.trans hr₁.2.2⟩ hlineage
      · obtain ⟨rfl, -⟩ := hsame hstate
        exact ⟨hd, hr₁.2⟩

theorem Plans.bounded (h : Plans p plan plan.instructions s s') (hm : Listed s.deliveries) (hascends : Ascends p plan s) :
    Bounded p plan s s' := by
  obtain ⟨hseparate, hroomy, hlast, hacknowledged⟩ := hascends
  obtain ⟨hfound, hsubmitted⟩ := h.kept hm hseparate hroomy
  refine ⟨fun i hi => ?_, fun i hi r hr hstate => ?_, fun i hi d hd hgone => absurd ?_ hgone⟩
  · refine (lineage_length (h.listed hm) fun r hr => ?_).trans (hroomy i hi)
    rw [mem_lineageOf] at hr
    obtain ⟨d, hd, halike⟩ | ⟨j, hj, halike⟩ := h.origin hm r hr.1
    · refine List.mem_append_left _ (List.mem_map.mpr ⟨d, mem_lineageOf.mpr ⟨hd, ?_⟩, halike.id.symm⟩)
      exact ⟨halike.target.symm.trans hr.2.1, halike.key.symm.trans hr.2.2⟩
    · refine List.mem_append_right _ (List.mem_map.mpr ⟨j, mem_named.mpr ⟨hj, ?_⟩, halike.id.symm⟩)
      exact ⟨halike.target.symm.trans hr.2.1, halike.key.symm.trans hr.2.2⟩
  · obtain ⟨hnone, hsome⟩ := h.pending hm hroomy
    cases hdue : (due i.target i.configKey s plan.instructions).getLast? with
    | none =>
      rw [List.getLast?_eq_none_iff] at hdue
      exact hacknowledged i hi hdue r (hnone hdue r hr hstate) hstate
    | some j => exact (hlast i hi j hdue).trans (hsome j hdue r hr hstate)
  · obtain hd | hd := List.mem_append.mp hd
    · obtain ⟨hmem, htarget, hkey⟩ := mem_lineageOf.mp hd
      obtain ⟨d', hd', hid, htarget', hkey'⟩ := hfound d hmem
      exact List.mem_map.mpr ⟨d', mem_lineageOf.mpr ⟨hd', htarget'.trans htarget, hkey'.trans hkey⟩, hid⟩
    · obtain ⟨j, hj, rfl⟩ := List.mem_map.mp hd
      obtain ⟨hmem, htarget, hkey⟩ := mem_named.mp hj
      obtain ⟨d', hd', hid, htarget', hkey'⟩ := hsubmitted j hmem
      exact List.mem_map.mpr ⟨d', mem_lineageOf.mpr ⟨hd', htarget'.trans htarget, hkey'.trans hkey⟩, hid⟩

end Plans

/-! One call after the other. -/

/-- Deliveries may be driven on or go, but none is added. -/
structure Driven (s s' : ControllerState) : Prop where
  listed : Listed s'.deliveries
  known : ∀ r' ∈ s'.deliveries.map (·.2), ∃ r ∈ s.deliveries.map (·.2), r.Alike r'

/-- Any number of successful calls on a store that began without deliveries. -/
inductive Submitted (p : DistributorPolicy) : World → Prop
  | start {w : World} : w.2.mem.deliveries = [] → Submitted p w
  | driven {w w' : World} : Submitted p w → Driven w.2.mem w'.2.mem → Submitted p w'
  | call {plan : DeploymentPlan} {w w' : World} : Submitted p w → Thread.Ends wire (submitPlan p plan) w (.ok ()) w' →
      Submitted p w'

theorem submitPlan_plans {p : DistributorPolicy} {plan : DeploymentPlan} {w w' : World} (hm : Listed w.2.mem.deliveries)
    (h : Thread.Ends wire (submitPlan p plan) w (.ok ()) w') : Plans p plan plan.instructions w.2.mem w'.2.mem := by
  have hends : Thread.Ends (supplied fun _ => True) (submitPlan p plan) w (.ok ()) w' := h
  have hsubmits : Submits (fun _ => True) p plan w.2.mem (.ok ()) w'.2.mem := (sole_submitPlan hm).ends hends
  exact (hsubmits.done rfl).1

theorem Submitted.listed {p : DistributorPolicy} {w : World} (h : Submitted p w) : Listed w.2.mem.deliveries := by
  induction h with
  | start hempty =>
    rw [hempty]
    exact .empty
  | driven _ hdriven _ => exact hdriven.listed
  | call _ hends ih => exact (submitPlan_plans ih hends).listed ih

/-- A call on a history that has room for its deliveries leaves every lineage it names bounded and in order. -/
theorem submission_bounds_history {p : DistributorPolicy} {plan : DeploymentPlan} {w w' : World} (h : Submitted p w)
    (hascends : Ascends p plan w.2.mem) (hrun : Thread.Ends wire (submitPlan p plan) w (.ok ()) w') :
    Bounded p plan w.2.mem w'.2.mem :=
  (submitPlan_plans h.listed hrun).bounded h.listed hascends

def accepted : Worker Status → Bool
  | .ret (.ok ()) => true
  | _ => false

theorem ret_of_accepted {q : Worker Status} (h : accepted q = true) : q = .ret (.ok ()) := by
  cases q with
  | ret status =>
    cases status with
    | ok => rfl
    | error e => cases h
  | look | write | emit | receive | input | hang => cases h

theorem accepted_run {p : DistributorPolicy} {plan : DeploymentPlan} {w : World} {n : ℕ} {q : World → Bool}
    (h : ((submitPlan p plan).advance freely (fun _ _ _ => true) n [] w).any (fun x => accepted x.1 && q x.2) = true) :
    ∃ w', Thread.Ends wire (submitPlan p plan) w (.ok ()) w' ∧ q w' = true := by
  obtain ⟨⟨status, w'⟩, hadvance, hended⟩ := (Option.any_eq_true _ _).mp h
  obtain ⟨haccepted, hq⟩ := Bool.and_eq_true_iff.mp hended
  obtain rfl : status = .ret (.ok ()) := ret_of_accepted haccepted
  exact ⟨w', Thread.advance_reaches hadvance, hq⟩

/-- The conditions on a history, checked. -/
def ascends (p : DistributorPolicy) (plan : DeploymentPlan) (s : ControllerState) : Bool :=
  decide (∀ i ∈ plan.instructions, ∀ r ∈ s.deliveries.map (·.2), r.id = deploymentOf i →
    r.target = i.target ∧ r.key = i.configKey) &&
  decide (∀ i ∈ plan.instructions, ∀ j ∈ plan.instructions, deploymentOf j = deploymentOf i →
    j.target = i.target ∧ j.configKey = i.configKey) &&
  decide (∀ i ∈ plan.instructions, ((lineageOf i.target i.configKey s).map (·.id) ++
    (named i.target i.configKey plan.instructions).map deploymentOf).dedup.length ≤ p.maxHistoryPerLineage) &&
  decide (∀ i ∈ plan.instructions, ∀ j ∈ (due i.target i.configKey s plan.instructions).getLast?,
    i.generation ≤ j.generation) &&
  decide (∀ i ∈ plan.instructions, due i.target i.configKey s plan.instructions = [] →
    ∀ r ∈ lineageOf i.target i.configKey s, isPendingState r.state = true → i.generation ≤ r.generation)

theorem Ascends.of_check {p : DistributorPolicy} {plan : DeploymentPlan} {s : ControllerState}
    (h : ascends p plan s = true) : Ascends p plan s := by
  simp only [ascends, Bool.and_eq_true, decide_eq_true_eq] at h
  obtain ⟨⟨⟨⟨hknown, hplanned⟩, hroomy⟩, hlast⟩, hacknowledged⟩ := h
  exact ⟨⟨hknown, hplanned⟩, hroomy, hlast, hacknowledged⟩

def submitAll (p : DistributorPolicy) : List DeploymentPlan → World → Option World
  | [], w => some w
  | plan :: plans, w =>
    match (submitPlan p plan).advance freely (fun _ _ _ => true) 90 [] w with
    | some (.ret (.ok ()), w') => submitAll p plans w'
    | _ => none

theorem Submitted.all {p : DistributorPolicy} {plans : List DeploymentPlan} {w w' : World} (h : Submitted p w)
    (hall : submitAll p plans w = some w') : Submitted p w' := by
  induction plans generalizing w with
  | nil =>
    cases hall
    exact h
  | cons plan plans ih =>
    rw [submitAll] at hall
    split at hall
    next hadvance => exact ih (.call h (Thread.advance_reaches hadvance)) hall
    next => cases hall

def planFor (target : TargetId) (generation : Generation) : DeploymentPlan :=
  { examplePlan with instructions := [{ exampleInstruction with target, generation }] }

/-- Four generations for one target, the first of which is pruned, and one for another. -/
def earlierPlans : List DeploymentPlan :=
  [planFor (text "t") 1, planFor (text "t") 2, planFor (text "t") 3, planFor (text "t") 4, planFor (text "u") 1]

def prunedOnce (w : World) : Bool :=
  (lineageOf (text "t") (text "k") w.2.mem).all (·.generation != 1) &&
    (lineageOf (text "t") (text "k") w.2.mem).length == 3

def runsTo (p : DistributorPolicy) (plan : DeploymentPlan) (w : World) : Bool :=
  ((submitPlan p plan).advance freely (fun _ _ _ => true) 90 [] w).any fun x => accepted x.1 && true

/-- The second generation for the other target supersedes the first. -/
theorem pruned_history_bounded : ∃ w w', Submitted { maxHistoryPerLineage := 2 } w ∧ prunedOnce w = true ∧
    Thread.Ends wire (submitPlan { maxHistoryPerLineage := 2 } (planFor (text "u") 2)) w (.ok ()) w' ∧
      Bounded { maxHistoryPerLineage := 2 } (planFor (text "u") 2) w.2.mem w'.2.mem := by
  have hruns : (submitAll { maxHistoryPerLineage := 2 } earlierPlans ([], {})).any (fun w => prunedOnce w &&
      ascends { maxHistoryPerLineage := 2 } (planFor (text "u") 2) w.2.mem &&
      runsTo { maxHistoryPerLineage := 2 } (planFor (text "u") 2) w) = true := by decide +kernel
  obtain ⟨w, hall, hchecked⟩ := (Option.any_eq_true _ _).mp hruns
  obtain ⟨hfound, hnext⟩ := Bool.and_eq_true_iff.mp hchecked
  obtain ⟨hpruned, hascends⟩ := Bool.and_eq_true_iff.mp hfound
  have hsubmitted : Submitted { maxHistoryPerLineage := 2 } w := (Submitted.start rfl).all hall
  obtain ⟨w', hends, -⟩ := accepted_run (q := fun _ => true) hnext
  exact ⟨w, w', hsubmitted, hpruned, hends, submission_bounds_history hsubmitted (.of_check hascends) hends⟩

def nextPlan : DeploymentPlan :=
  { examplePlan with instructions := [{ exampleInstruction with generation := 2 }] }

def overruns (p : DistributorPolicy) (w : World) : Bool :=
  decide (p.maxHistoryPerLineage < (lineageOf (text "t") (text "k") w.2.mem).length)

def runsOver (p : DistributorPolicy) (plan : DeploymentPlan) (w : World) : Bool :=
  ((submitPlan p plan).advance freely (fun _ _ _ => true) 80 [] w).any fun x => accepted x.1 && overruns p x.2

/-- One record may be kept; the second generation is put beside the first. -/
theorem history_overruns : ¬ ∀ (p : DistributorPolicy) (plan : DeploymentPlan) (w w' : World), p.validate = .ok () →
    Submitted p w → Thread.Ends wire (submitPlan p plan) w (.ok ()) w' → Bounded p plan w.2.mem w'.2.mem := by
  intro hclaim
  have hruns : ((submitPlan { maxHistoryPerLineage := 1 } examplePlan).advance freely (fun _ _ _ => true) 60 []
      ([], {})).any (fun x => accepted x.1 && runsOver { maxHistoryPerLineage := 1 } nextPlan x.2) = true := by
    decide +kernel
  obtain ⟨w, hfirst, hnext⟩ := accepted_run hruns
  obtain ⟨w', hsecond, hlength⟩ := accepted_run hnext
  have hmany := of_decide_eq_true hlength
  have hbounded := hclaim _ nextPlan w w' (by decide) (.call (.start rfl) hfirst) hsecond
  exact absurd (hbounded.few _ List.mem_cons_self) (not_le.mpr hmany)

end Distributor

end ConfigurationFabric
