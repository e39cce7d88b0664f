import ConfigurationFabric.DistributorLifecycle

/-! What a submitted plan does to the deliveries and the targets. -/

namespace ConfigurationFabric

open LittleEndian
open Threads

/-- The same generation of the same configuration on the same target. -/
structure DeliveryRecord.Alike (r r' : DeliveryRecord) : Prop where
  id : r'.id = r.id
  target : r'.target = r.target
  key : r'.key = r.key
  generation : r'.generation = r.generation

theorem DeliveryRecord.Alike.refl (r : DeliveryRecord) : r.Alike r := ⟨rfl, rfl, rfl, rfl⟩

theorem DeliveryRecord.Alike.trans {r r' r'' : DeliveryRecord} (h : r.Alike r') (h' : r'.Alike r'') : r.Alike r'' :=
  ⟨h'.id.trans h.id, h'.target.trans h.target, h'.key.trans h.key, h'.generation.trans h.generation⟩

/-- The deliveries as the store keeps them. -/
structure Listed (m : SortedMap DeploymentId DeliveryRecord) : Prop where
  filed : ∀ e ∈ m, e.2.id = e.1
  named : ∀ e ∈ m, isValidIdentifier e.1 = true
  sorted : SortedMap.Sorted m

namespace Listed

variable {m : SortedMap DeploymentId DeliveryRecord}

theorem empty : Listed [] where
  filed _ he := absurd he List.not_mem_nil
  named _ he := absurd he List.not_mem_nil
  sorted := List.Pairwise.nil

theorem insert (h : Listed m) {r : DeliveryRecord} (hr : isValidIdentifier r.id = true) :
    Listed (SortedMap.insert m r.id r) where
  filed e he := by
    obtain rfl | he := SortedMap.mem_insert he
    · rfl
    · exact h.filed e he
  named e he := by
    obtain rfl | he := SortedMap.mem_insert he
    · exact hr
    · exact h.named e he
  sorted := SortedMap.sorted_insert h.sorted _ _

theorem filter (h : Listed m) (q : DeploymentId × DeliveryRecord → Bool) : Listed (m.filter q) where
  filed e he := h.filed e (List.mem_of_mem_filter he)
  named e he := h.named e (List.mem_of_mem_filter he)
  sorted := h.sorted.filter q

theorem map (h : Listed m) {g : DeliveryRecord → DeliveryRecord} (hg : ∀ e ∈ m, e.2.Alike (g e.2)) :
    Listed (m.map fun e => (e.1, g e.2)) where
  filed e he := by
    obtain ⟨d, hd, rfl⟩ := List.mem_map.mp he
    exact (hg d hd).id.trans (h.filed d hd)
  named e he := by
    obtain ⟨d, hd, rfl⟩ := List.mem_map.mp he
    exact h.named d hd
  sorted := by
    rw [SortedMap.Sorted, List.pairwise_map]
    exact h.sorted

theorem find (h : Listed m) {id : DeploymentId} {r : DeliveryRecord} : SortedMap.find m id = some r ↔ (id, r) ∈ m :=
  ⟨SortedMap.find_mem, SortedMap.find_of_mem h.sorted⟩

theorem find_id (h : Listed m) {r : DeliveryRecord} (hr : r ∈ m.map (·.2)) : SortedMap.find m r.id = some r := by
  obtain ⟨⟨id, r'⟩, he, rfl⟩ := List.mem_map.mp hr
  rw [h.filed _ he, h.find]
  exact he

theorem ids_nodup (h : Listed m) : ((m.map (·.2)).map (·.id)).Nodup := by
  have hkeys : (m.map (·.2)).map (·.id) = m.map (·.1) := by
    rw [List.map_map]
    exact List.map_congr_left h.filed
  rw [hkeys]
  exact SortedMap.keys_nodup h.sorted

end Listed

theorem parseDeploymentId_of_valid {id : DeploymentId} (h : isValidIdentifier id = true) :
    parseDeploymentId id = .ok id := by
  have hne : id.isEmpty = false := by
    cases id with
    | nil => cases h
    | cons => rfl
  rw [parseDeploymentId, parseId, hne, h]
  rfl

theorem deriveDeploymentId_valid {target : TargetId} {key : ConfigKey} {generation : Generation} {digest : Digest} :
    isValidIdentifier (deriveDeploymentId target key generation digest) = true := by
  have hlength : (deriveDeploymentId target key generation digest).length = 32 := by
    rw [deriveDeploymentId, toHex_length, List.length_take, sha256, Sha256.finish, sha256State_bytes_length]
    rfl
  have hall : ∀ c ∈ deriveDeploymentId target key generation digest, identifierByte c = true ∧ c ≠ 45 :=
    fun c hc => toHex_identifier hc
  generalize deriveDeploymentId target key generation digest = id at *
  cases id with
  | nil => cases hlength
  | cons c rest =>
    have hhead : c ≠ 45 := (hall c List.mem_cons_self).2
    have hbytes : (c :: rest).all identifierByte = true := List.all_eq_true.mpr fun c hc => (hall c hc).1
    simp [isValidIdentifier, hlength, hbytes, hhead, kMaxIdentifierLength]

namespace Distributor

/-- The store takes every record. -/
def Takes (allowed : Choice → Prop) : Prop := ∀ i, allowed i → i.outcome = .done

def supplied (allowed : Choice → Prop) : Outside (List Request) Controller Choice Request (Result Incoming) :=
  { wire with input := fun i _ => allowed i }

/-- A thread on its own. -/
abbrev Sole {α : Type} (allowed : Choice → Prop) (p : Worker α) (Q : α → World → Prop) (w : World) : Prop :=
  p.Steps (supplied allowed) Eq (fun _ _ _ => True) Q w

/-- What is true of the state after a success; a store that takes every record leaves nothing else. -/
structure Gives (allowed : Choice → Prop) (E : ControllerState → Prop) (status : Status) (w : World) : Prop where
  done : status = .ok () → E w.2.mem
  succeeds : Takes allowed → status = .ok ()

section Sole

variable {allowed : Choice → Prop} {w : World} {E E' : ControllerState → Prop}

theorem Gives.mono {status : Status} (h : Gives allowed E status w) (hE : ∀ s, E s → E' s) : Gives allowed E' status w :=
  ⟨fun hok => hE _ (h.done hok), h.succeeds⟩

theorem gives_ok {w' : World} (h : E w'.2.mem) : Gives allowed E (.ok ()) w' := ⟨fun _ => h, fun _ => rfl⟩

theorem gives_error {e : Error} {w' : World} (h : ¬ Takes allowed) : Gives allowed E (.error e) w' :=
  ⟨(fun hok => by cases hok), fun htakes => absurd htakes h⟩

theorem Gives.fails {e : Error} (h : Gives allowed E (.error e) w) : ¬ Takes allowed := fun htakes => by
  cases h.succeeds htakes

theorem sole_ask {Q : Choice → World → Prop} (h : ∀ i, allowed i → Q i w) : Sole allowed Thread.ask Q w := by
  intro w' i hw' hi
  subst hw'
  exact h i hi

theorem sole_clock {Q : ℤ → World → Prop} (h : ∀ now, Q now w) : Sole allowed clock Q w := by
  rintro _ i rfl -
  exact h i.now

theorem sole_state {Q : ControllerState → World → Prop} (h : Q w.2.mem w) : Sole allowed state Q w := by
  rintro _ rfl
  exact h

theorem sole_commit {copy : Copy} {make : ControllerState → ControllerRecord} {Q : Status × ControllerState → World → Prop}
    (hfail : ¬ Takes allowed → ∀ e c, c.mem = w.2.mem ∨ c.mem = (make w.2.mem).apply w.2.mem →
      Q (.error e, w.2.mem) (w.1, c))
    (hdone : ∀ dur, Q (.ok (), w.2.mem) (w.1, ⟨(make w.2.mem).apply w.2.mem, dur⟩)) :
    Sole allowed (commit copy make) Q w := by
  rintro _ ⟨now, stop, status, artifact, outcome, bytes, present, random⟩ rfl hi
  cases outcome with
  | refused e =>
    rintro _ rfl
    refine hfail (fun htakes => ?_) e w.2 (.inl rfl)
    cases htakes _ hi
  | failed e durable =>
    rintro _ rfl
    refine ⟨trivial, hfail (fun htakes => ?_) e _ (.inr rfl)⟩
    cases htakes _ hi
  | done =>
    rintro _ rfl
    exact ⟨trivial, hdone _⟩

theorem sole_commitDelivery {copy : DeliveryRecord} {cause : Cause} {make : ControllerState → DeliveryRecord}
    {Q : Status × DeliveryRecord → World → Prop} (hname : isValidIdentifier copy.id = true)
    (hfail : ¬ Takes allowed → ∀ e c, Q (.error e, make w.2.mem) (w.1, c))
    (hdone : ∀ dur, Q (.ok (), make w.2.mem)
      (w.1, ⟨{ w.2.mem with deliveries := w.2.mem.deliveries.insert (make w.2.mem).id (make w.2.mem) }, dur⟩)) :
    Sole allowed (commitDelivery copy cause make) Q w := by
  rw [commitDelivery, parseDeploymentId_of_valid hname, Sole]
  dsimp only
  rw [Thread.steps_bind]
  exact sole_commit (fun h e c _ => hfail h e c) hdone

theorem sole_upsertDelivery {record : DeliveryRecord} {cause : Cause} (hname : isValidIdentifier record.id = true) :
    Sole allowed (upsertDelivery record cause) (Gives allowed fun s =>
      s.deliveries = w.2.mem.deliveries.insert record.id record ∧ s.targets = w.2.mem.targets) w := by
  rw [upsertDelivery, Sole, Thread.steps_bind]
  exact sole_commitDelivery hname (fun h _ _ => gives_error h) fun _ => gives_ok ⟨rfl, rfl⟩

theorem sole_recordTransition {record : DeliveryRecord} {cause : Cause} {target : DeliveryState} {kind : EvidenceKind}
    {code : ErrorCode} {detail : Bytes} {fromReconciliation : Bool} {Q : Status × DeliveryRecord → World → Prop}
    (hlegal : isLegalTransition record.state target = true) (hname : isValidIdentifier record.id = true)
    (hfail : ¬ Takes allowed → ∀ e r c, Q (.error e, r) (w.1, c))
    (hdone : ∀ r dur, record.Alike r → r.state = target →
      Q (.ok (), r) (w.1, ⟨{ w.2.mem with deliveries := w.2.mem.deliveries.insert r.id r }, dur⟩)) :
    Sole allowed (recordTransition record target kind code detail fromReconciliation cause) Q w := by
  rw [recordTransition]
  split
  next hillegal =>
    rw [hlegal] at hillegal
    cases hillegal
  · rw [Sole, Thread.steps_bind]
    refine sole_clock fun now => sole_commitDelivery hname (fun h e c => hfail h e _ c) fun dur => ?_
    exact hdone _ dur ⟨rfl, rfl, rfl, rfl⟩ rfl

theorem retires_pending {state : DeliveryState} (h : isPendingState state = true) :
    isLegalTransition state .retired = true ∧ state ≠ .retired := by
  cases state with
  | acknowledged | rejected | retired => cases h
  | _ => exact ⟨rfl, by decide⟩

theorem sole_recordRetired {other : DeliveryRecord} {reason : Bytes} {cause : Cause}
    (hpending : isPendingState other.state = true) (hname : isValidIdentifier other.id = true) :
    Sole allowed (recordRetired other reason cause) (fun x => Gives allowed (fun s => ∃ r : DeliveryRecord, other.Alike r ∧
      r.state = .retired ∧ s.deliveries = w.2.mem.deliveries.insert other.id r ∧ s.targets = w.2.mem.targets) x.1) w := by
  obtain ⟨hlegal, hne⟩ := retires_pending hpending
  rw [recordRetired, if_neg hne, Sole, Thread.steps_bind]
  refine sole_recordTransition hlegal hname (fun h _ _ _ => gives_error h) fun r dur halike hretired => ?_
  dsimp only
  rw [Thread.steps_bind]
  have hname' : isValidIdentifier r.id = true := by rw [halike.id, hname]
  refine (@sole_upsertDelivery _ _ { r with superseded := true } _ hname').mono fun status w' hw' => hw'.mono fun s hs => ?_
  obtain ⟨hdeliveries, htargets⟩ := hs
  refine ⟨{ r with superseded := true }, ⟨halike.id, halike.target, halike.key, halike.generation⟩, hretired, ?_, htargets⟩
  rw [hdeliveries, ← halike.id]
  exact SortedMap.insert_insert _ _ _ _

end Sole

/-! Superseding. -/

/-- The named deliveries become retired ones. -/
structure Retiring (ids : List DeploymentId) (m : SortedMap DeploymentId DeliveryRecord)
    (g : DeliveryRecord → DeliveryRecord) : Prop where
  alike : ∀ e ∈ m, e.2.Alike (g e.2)
  retired : ∀ e ∈ m, e.1 ∈ ids → (g e.2).state = .retired
  others : ∀ e ∈ m, e.1 ∉ ids → g e.2 = e.2

section Steps

variable {allowed : Choice → Prop} {w : World} {p : DistributorPolicy} {i : DeploymentInstruction}
  {record : DeliveryRecord} {records : List DeliveryRecord}

theorem sole_retireAll {reason : Bytes} (hm : Listed w.2.mem.deliveries)
    (hrecords : ∀ r ∈ records, w.2.mem.findDelivery r.id = some r ∧ isPendingState r.state = true)
    (hdistinct : (records.map (·.id)).Nodup) :
    Sole allowed (retireAll reason records) (Gives allowed fun s =>
      (∃ g, Retiring (records.map (·.id)) w.2.mem.deliveries g ∧
        s.deliveries = w.2.mem.deliveries.map fun e => (e.1, g e.2)) ∧ s.targets = w.2.mem.targets) w := by
  induction records generalizing w with
  | nil => exact gives_ok ⟨⟨id, ⟨fun e _ => .refl _, by simp, fun _ _ _ => rfl⟩, by simp⟩, rfl⟩
  | cons other rest ih =>
    obtain ⟨⟨hfind, hpending⟩, hrest⟩ := List.forall_mem_cons.mp hrecords
    obtain ⟨hnot, hdistinct⟩ := List.nodup_cons.mp hdistinct
    have hname : isValidIdentifier other.id = true := hm.named _ (SortedMap.find_mem hfind)
    rw [retireAll, Sole, Thread.steps_bind]
    refine (sole_recordRetired hpending hname).mono ?_
    rintro ⟨_ | ⟨⟩, retired⟩ w₁ h₁
    · exact gives_error h₁.fails
    obtain ⟨r, halike, hretired, hdeliveries, htargets⟩ := h₁.done rfl
    rw [SortedMap.insert_known hm.sorted hfind] at hdeliveries
    let g₁ (d : DeliveryRecord) : DeliveryRecord := if d.id = other.id then r else d
    have hg₁ : w₁.2.mem.deliveries = w.2.mem.deliveries.map fun e => (e.1, g₁ e.2) := by
      rw [hdeliveries]
      refine List.map_congr_left fun e he => ?_
      simp only [g₁, hm.filed e he]
    have halike₁ : ∀ e ∈ w.2.mem.deliveries, e.2.Alike (g₁ e.2) := by
      intro e he
      by_cases hid : e.2.id = other.id
      · have he₂ : e.2 = other := by
          have hsame := hm.find.mpr he
          rw [← hm.filed e he, hid] at hsame
          exact Option.some.inj (hsame.symm.trans hfind)
        simp only [g₁, he₂, if_true]
        exact halike
      · simp only [g₁, if_neg hid]
        exact .refl _
    have hm₁ : Listed w₁.2.mem.deliveries := by
      rw [hg₁]
      exact hm.map halike₁
    have hrest₁ : ∀ d ∈ rest, w₁.2.mem.findDelivery d.id = some d ∧ isPendingState d.state = true := by
      intro d hd
      obtain ⟨hd₁, hd₂⟩ := hrest d hd
      have hne : d.id ≠ other.id := fun heq => hnot (List.mem_map.mpr ⟨d, hd, heq⟩)
      refine ⟨?_, hd₂⟩
      rw [ControllerState.findDelivery, hg₁, SortedMap.find_map]
      rw [ControllerState.findDelivery] at hd₁
      rw [hd₁, Option.map_some]
      simp only [g₁, if_neg hne]
    refine (ih hm₁ hrest₁ hdistinct).mono fun status w₂ h₂ => h₂.mono fun s hs => ?_
    obtain ⟨⟨g₂, hg₂, hs⟩, htargets₂⟩ := hs
    refine ⟨⟨fun d => g₂ (g₁ d), ⟨fun e he => ?_, fun e he hid => ?_, fun e he hid => ?_⟩, ?_⟩, htargets₂.trans htargets⟩
    · exact (halike₁ e he).trans (hg₂.alike (e.1, g₁ e.2) (hg₁ ▸ List.mem_map_of_mem he))
    · have hmem : (e.1, g₁ e.2) ∈ w₁.2.mem.deliveries := hg₁ ▸ List.mem_map_of_mem he
      by_cases hin : e.1 ∈ rest.map (·.id)
      · exact hg₂.retired _ hmem hin
      · have hhead : e.1 = other.id := (List.mem_cons.mp hid).resolve_right hin
        rw [hg₂.others _ hmem hin]
        simp only [g₁, hm.filed e he, hhead, if_true]
        exact hretired
    · obtain ⟨hhead, hin⟩ := not_or.mp (fun h => hid (List.mem_cons.mpr h))
      have hmem : (e.1, g₁ e.2) ∈ w₁.2.mem.deliveries := hg₁ ▸ List.mem_map_of_mem he
      rw [hg₂.others _ hmem hin]
      simp only [g₁, hm.filed e he, if_neg hhead]
    · rw [hs, hg₁, List.map_map]
      rfl

/-! Pruning, and the whole of one instruction. -/

theorem sole_removeAll : Sole allowed (removeAll records) (Gives allowed fun s =>
    s.deliveries = w.2.mem.deliveries.filter (fun e => e.1 ∉ records.map (·.id)) ∧ s.targets = w.2.mem.targets) w := by
  induction records generalizing w with
  | nil => exact gives_ok ⟨by simp, rfl⟩
  | cons stale rest ih =>
    rw [removeAll, Sole, Thread.steps_bind]
    refine sole_commit (fun h _ _ _ => gives_error h) fun dur => ?_
    refine ih.mono fun status w' hw' => hw'.mono fun s hs => ⟨?_, hs.2⟩
    rw [hs.1]
    change (SortedMap.erase w.2.mem.deliveries stale.id).filter _ = _
    rw [SortedMap.erase, List.filter_filter]
    refine List.filter_congr fun e _ => ?_
    by_cases h : e.1 = stale.id
    · simp [h]
    · simp [h]

theorem sole_planTarget {accepted : Bool} : Sole allowed (planTarget i accepted) (Gives allowed fun s =>
    s.deliveries = w.2.mem.deliveries ∧ ∃ runtime, s.targets = w.2.mem.targets.insert i.target runtime) w := by
  rw [planTarget, Sole, Thread.steps_bind]
  apply sole_state
  rw [upsertTarget, Thread.steps_bind]
  exact sole_commit (fun h _ _ _ => gives_error h) fun dur => gives_ok ⟨rfl, _, rfl⟩

theorem newerFirst_congr {a b a' b' : DeliveryRecord} (ha : a.Alike a') (hb : b.Alike b') :
    newerFirst a' b' ↔ newerFirst a b := by
  rw [newerFirst, newerFirst, ha.generation, hb.generation, ha.id, hb.id]

/-- Which deliveries are too old does not depend on whether they have been retired. -/
theorem doomed_map {s s' : ControllerState} {g : DeliveryRecord → DeliveryRecord}
    (hg : ∀ e ∈ s.deliveries, e.2.Alike (g e.2)) (hs : s'.deliveries = s.deliveries.map fun e => (e.1, g e.2)) :
    doomed p record s' = (doomed p record s).map g := by
  have hvalues : s'.deliveries.map (·.2) = (s.deliveries.map (·.2)).map g := by
    rw [hs, List.map_map, List.map_map]
    rfl
  have halike : ∀ r ∈ s.deliveries.map (·.2), r.Alike (g r) := fun r hr => by
    obtain ⟨e, he, rfl⟩ := List.mem_map.mp hr
    exact hg e he
  have hlineage : (s.deliveries.map (·.2)).filter ((fun r => r.target == record.target && r.key == record.key) ∘ g) =
      (s.deliveries.map (·.2)).filter fun r => r.target == record.target && r.key == record.key := by
    refine List.filter_congr fun r hr => ?_
    rw [Function.comp_apply, (halike r hr).target, (halike r hr).key]
  rw [doomed, doomed, hvalues, List.filter_map, hlineage, List.map_drop]
  refine congrArg _ (List.map_insertionSort newerFirst newerFirst g _ fun a ha b hb => ?_).symm
  exact (newerFirst_congr (halike a (List.mem_of_mem_filter ha)) (halike b (List.mem_of_mem_filter hb))).symm

/-- What stays of the deliveries, with those that are superseded retired by `g`. -/
def remaining (p : DistributorPolicy) (record : DeliveryRecord) (g : DeliveryRecord → DeliveryRecord)
    (s : ControllerState) : SortedMap DeploymentId DeliveryRecord :=
  (s.deliveries.filter fun e => e.1 ∉ (doomed p record s).map (·.id)).map fun e => (e.1, g e.2)

/-- What one instruction leaves behind: the older deliveries of the lineage retired, those beyond its history gone, and
the planned one in its place. -/
structure Planned (p : DistributorPolicy) (i : DeploymentInstruction) (record : DeliveryRecord) (s s' : ControllerState) :
    Prop where
  deliveries : ∃ g, Retiring ((superseded record s).map (·.id)) s.deliveries g ∧
    s'.deliveries = (remaining p record g s).insert record.id record
  targets : ∃ runtime, s'.targets = s.targets.insert i.target runtime

theorem Planned.listed {s s' : ControllerState} (h : Planned p i record s s') (hm : Listed s.deliveries)
    (hname : isValidIdentifier record.id = true) : Listed s'.deliveries := by
  obtain ⟨⟨g, hg, hs'⟩, -⟩ := h
  rw [hs']
  exact ((hm.filter _).map fun e he => hg.alike e (List.mem_of_mem_filter he)).insert hname

theorem mem_superseded {s : ControllerState} {r : DeliveryRecord} (h : r ∈ superseded record s) :
    r ∈ s.deliveries.map (·.2) ∧ r.id ≠ record.id ∧ r.target = record.target ∧ r.key = record.key ∧
      r.generation < record.generation ∧ isPendingState r.state = true := by
  obtain ⟨hmem, hother⟩ := List.mem_filter.mp h
  simp only [Bool.and_eq_true, bne_iff_ne, beq_iff_eq, decide_eq_true_eq] at hother
  exact ⟨hmem, hother.1.1.1.1, hother.1.1.1.2, hother.1.1.2, hother.1.2, hother.2⟩

theorem sole_planDelivery {accepted : Bool} (hm : Listed w.2.mem.deliveries)
    (hname : isValidIdentifier record.id = true) : Sole allowed (planDelivery p i accepted record)
      (Gives allowed fun s => Planned p i record w.2.mem s) w := by
  rw [planDelivery, Sole, Thread.steps_bind]
  apply sole_state
  rw [Thread.steps_bind]
  refine (sole_retireAll hm (fun r hr => ?_) ?_).mono ?_
  · obtain ⟨hmem, -, -, -, -, hpending⟩ := mem_superseded hr
    exact ⟨hm.find_id hmem, hpending⟩
  · exact hm.ids_nodup.sublist (List.filter_sublist.map _)
  rintro (_ | ⟨⟩) w₁ h₁
  · exact gives_error h₁.fails
  obtain ⟨⟨g, hg, hdeliveries₁⟩, htargets₁⟩ := h₁.done rfl
  dsimp only
  rw [Thread.steps_bind]
  apply sole_state
  rw [Thread.steps_bind]
  refine sole_removeAll.mono ?_
  rintro (_ | ⟨⟩) w₂ h₂
  · exact gives_error h₂.fails
  obtain ⟨hdeliveries₂, htargets₂⟩ := h₂.done rfl
  dsimp only
  rw [Thread.steps_bind]
  refine sole_planTarget.mono ?_
  rintro (_ | ⟨⟩) w₃ h₃
  · exact gives_error h₃.fails
  obtain ⟨hdeliveries₃, runtime, htargets₃⟩ := h₃.done rfl
  refine (sole_upsertDelivery hname).mono fun status w₄ h₄ => h₄.mono fun s hs => ?_
  refine ⟨⟨g, hg, ?_⟩, runtime, by rw [hs.2, htargets₃, htargets₂, htargets₁]⟩
  have hdoomed : (doomed p record w₁.2.mem).map (·.id) = (doomed p record w.2.mem).map (·.id) := by
    rw [doomed_map hg.alike hdeliveries₁, List.map_map]
    refine List.map_congr_left fun r hr => ?_
    have hmem : r ∈ w.2.mem.deliveries.map (·.2) := by
      have hsorted := List.mem_of_mem_drop hr
      rw [List.mem_insertionSort] at hsorted
      exact List.mem_of_mem_filter hsorted
    obtain ⟨e, he, rfl⟩ := List.mem_map.mp hmem
    exact (hg.alike e he).id
  rw [hs.1, hdeliveries₃, hdeliveries₂, hdoomed, hdeliveries₁, List.filter_map]
  rfl

/-! All the instructions, one after the other. -/

def deploymentOf (i : DeploymentInstruction) : DeploymentId :=
  deriveDeploymentId i.target i.configKey i.generation i.digest

theorem superseded_congr {s s' : ControllerState} (h : s'.deliveries = s.deliveries) :
    superseded record s' = superseded record s := by
  rw [superseded, superseded, h]

theorem doomed_congr {s s' : ControllerState} (h : s'.deliveries = s.deliveries) :
    doomed p record s' = doomed p record s := by
  rw [doomed, doomed, h]

theorem Planned.congr {s s₀ s' : ControllerState} (h : Planned p i record s₀ s') (hdeliveries : s₀.deliveries = s.deliveries)
    (htargets : s₀.targets = s.targets) : Planned p i record s s' := by
  obtain ⟨⟨g, hg, hs'⟩, htargets'⟩ := h
  rw [superseded_congr hdeliveries, hdeliveries] at hg
  rw [remaining, doomed_congr hdeliveries, hdeliveries] at hs'
  rw [htargets] at htargets'
  exact ⟨⟨g, hg, hs'⟩, htargets'⟩

/-- What a plan's instructions come to when nothing fails. -/
inductive Plans (p : DistributorPolicy) (plan : DeploymentPlan) :
    List DeploymentInstruction → ControllerState → ControllerState → Prop
  | done {s s' : ControllerState} : s'.deliveries = s.deliveries → s'.targets = s.targets → Plans p plan [] s s'
  | skipped {i : DeploymentInstruction} {rest : List DeploymentInstruction} {s s' : ControllerState}
      {existing : DeliveryRecord} : s.findDelivery (deploymentOf i) = some existing → existing.state = .acknowledged →
      Plans p plan rest s s' → Plans p plan (i :: rest) s s'
  | planned {i : DeploymentInstruction} {rest : List DeploymentInstruction} {s s₁ s' : ControllerState}
      {record : DeliveryRecord} :
      (∀ existing, s.findDelivery (deploymentOf i) = some existing → existing.state ≠ .acknowledged) →
      (plannedDelivery plan i 0).Alike record → isPendingState record.state = true → Planned p i record s s₁ →
      Plans p plan rest s₁ s' → Plans p plan (i :: rest) s s'

theorem Plans.congr {plan : DeploymentPlan} {steps : List DeploymentInstruction} {s s₀ s' : ControllerState}
    (h : Plans p plan steps s₀ s') (hdeliveries : s₀.deliveries = s.deliveries) (htargets : s₀.targets = s.targets) :
    Plans p plan steps s s' := by
  have hfind (id : DeploymentId) : s₀.findDelivery id = s.findDelivery id := congrArg (·.find id) hdeliveries
  induction h with
  | done hs hs' => exact .done (hs.trans hdeliveries) (hs'.trans htargets)
  | skipped hexisting hacknowledged _ ih =>
    exact .skipped (by rw [← hfind, hexisting]) hacknowledged (ih hdeliveries htargets hfind)
  | planned hnot halike hpending hplanned hrest _ =>
    exact .planned (fun existing he => hnot existing (by rw [hfind, he])) halike hpending
      (hplanned.congr hdeliveries htargets) hrest

theorem sole_ingestSource : Sole allowed (ingestSource i) (fun _ w' =>
    w'.2.mem.deliveries = w.2.mem.deliveries ∧ w'.2.mem.targets = w.2.mem.targets) w := by
  rw [ingestSource]
  split
  · exact ⟨rfl, rfl⟩
  rw [Sole, Thread.steps_bind]
  refine sole_ask fun choice _ => ?_
  split
  · exact ⟨rfl, rfl⟩
  rw [Thread.steps_bind]
  refine sole_clock fun produced => ?_
  rw [Thread.steps_bind]
  refine sole_clock fun stored => ?_
  rw [Thread.steps_bind, ingestArtifact, Thread.steps_bind]
  refine sole_ask fun choice _ => ?_
  split
  · exact ⟨rfl, rfl⟩
  · rw [Thread.steps_bind]
    refine sole_commit (fun _ e c hc => ?_) fun dur => ⟨rfl, rfl⟩
    obtain hc | hc := hc
    · exact ⟨congrArg (·.deliveries) hc, congrArg (·.targets) hc⟩
    · exact ⟨congrArg (·.deliveries) hc, congrArg (·.targets) hc⟩

/-- One instruction, and the others if it succeeds. -/
def planThen (p : DistributorPolicy) (plan : DeploymentPlan) (i : DeploymentInstruction) (accepted : Bool)
    (record : DeliveryRecord) (rest : List (DeploymentInstruction × TargetResolution)) : Worker Status := do
  match ← planDelivery p i accepted record with
  | .error e => return .error e
  | .ok () => planInstructions p plan rest

theorem sole_planInstructions {plan : DeploymentPlan} {steps : List (DeploymentInstruction × TargetResolution)}
    (hm : Listed w.2.mem.deliveries) : Sole allowed (planInstructions p plan steps)
      (Gives allowed fun s => Plans p plan (steps.map (·.1)) w.2.mem s) w := by
  induction steps generalizing w with
  | nil => exact gives_ok (.done rfl rfl)
  | cons step rest ih =>
    obtain ⟨i, resolution⟩ := step
    rw [planInstructions, Sole, Thread.steps_bind]
    refine sole_ingestSource.mono fun _ w₁ h₁ => ?_
    obtain ⟨hdeliveries, htargets⟩ := h₁
    rw [Thread.steps_bind]
    refine sole_clock fun now => ?_
    rw [Thread.steps_bind]
    apply sole_state
    have hm₁ : Listed w₁.2.mem.deliveries := by rw [hdeliveries]; exact hm
    have hplan (record : DeliveryRecord) (halike : (plannedDelivery plan i 0).Alike record)
        (hpending : isPendingState record.state = true)
        (hnot : ∀ existing, w₁.2.mem.findDelivery (deploymentOf i) = some existing → existing.state ≠ .acknowledged) :
        Sole allowed (planThen p plan i resolution.accepted record rest) (Gives allowed fun s =>
          Plans p plan (((i, resolution) :: rest).map (·.1)) w.2.mem s) w₁ := by
      have hname : isValidIdentifier record.id = true := by
        rw [halike.id]
        exact deriveDeploymentId_valid
      rw [planThen, Sole, Thread.steps_bind]
      refine (sole_planDelivery hm₁ hname).mono ?_
      rintro (_ | ⟨⟩) w₂ h₂
      · exact gives_error h₂.fails
      have hplanned := h₂.done rfl
      refine (ih (hplanned.listed hm₁ hname)).mono fun status w₃ h₃ => h₃.mono fun s hs => ?_
      exact (Plans.planned hnot halike hpending hplanned hs).congr hdeliveries htargets
    split
    next existing hexisting =>
      split
      next hacknowledged =>
        refine (ih hm₁).mono fun status w₂ h₂ => h₂.mono fun s hs => ?_
        exact (Plans.skipped hexisting hacknowledged hs).congr hdeliveries htargets
      next hnot =>
        refine hplan _ ⟨rfl, rfl, rfl, rfl⟩ ?_ fun existing' h => ?_
        · rw [inherit]
          dsimp only
          split
          next hpending => exact hpending
          · rfl
        · obtain rfl := Option.some.inj (hexisting.symm.trans h)
          exact hnot
    next hnone =>
      refine hplan _ ⟨rfl, rfl, rfl, rfl⟩ rfl fun existing h => ?_
      rw [show w₁.2.mem.findDelivery (deploymentOf i) = none from hnone] at h
      cases h

/-! The whole call. -/

def pendingOf (s : ControllerState) : List DeliveryRecord := (s.deliveries.map (·.2)).filter (isPendingState ·.state)

/-- A call comes to what its instructions come to, and says so when not too much is pending then. -/
structure Submits (allowed : Choice → Prop) (p : DistributorPolicy) (plan : DeploymentPlan) (s : ControllerState)
    (status : Status) (s' : ControllerState) : Prop where
  refused : (resolveDeploymentSet p plan).any (·.accepted) = false → status ≠ .ok () ∧ s' = s
  done : status = .ok () → Plans p plan plan.instructions s s' ∧ (pendingOf s').length ≤ p.maxLiveDeliveries
  takes : Takes allowed → (resolveDeploymentSet p plan).any (·.accepted) = true →
    Plans p plan plan.instructions s s' ∧ ((pendingOf s').length ≤ p.maxLiveDeliveries → status = .ok ())

theorem resolve_length (seen : List TargetId) (instructions : List DeploymentInstruction) :
    (resolveInstructions seen instructions).length = instructions.length := by
  induction instructions generalizing seen with
  | nil => rfl
  | cons i rest ih => rw [resolveInstructions, List.length_cons, ih, List.length_cons]

theorem zip_resolved (p : DistributorPolicy) (plan : DeploymentPlan) :
    (plan.instructions.zip (resolveDeploymentSet p plan)).map (·.1) = plan.instructions := by
  have hlength : (resolveDeploymentSet p plan).length = plan.instructions.length := by
    rw [resolveDeploymentSet]
    split
    · rw [List.length_map, resolve_length]
    · exact resolve_length _ _
  exact List.map_fst_zip (by omega)

theorem sole_compactIfNeeded : Sole allowed compactIfNeeded (fun status w' => w'.2.mem = w.2.mem ∧
    (Takes allowed → status = .ok ())) w := by
  have hcompact (written : Bool) : Sole allowed (Distributor.compact written) (fun _ w' => w'.2.mem = w.2.mem) w := by
    rw [Distributor.compact]
    split
    · rfl
    · rintro _ rfl
      exact ⟨trivial, rfl⟩
  rw [compactIfNeeded, Sole, Thread.steps_bind]
  refine sole_ask fun choice hchoice => ?_
  split
  next hrefused =>
    refine ⟨rfl, fun htakes => ?_⟩
    rw [htakes _ hchoice] at hrefused
    cases hrefused
  next hfailed =>
    rw [Thread.steps_bind]
    refine (hcompact _).mono fun _ w' hw' => ⟨hw', fun htakes => ?_⟩
    rw [htakes _ hchoice] at hfailed
    cases hfailed
  · rw [Thread.steps_bind]
    exact (hcompact _).mono fun _ w' hw' => ⟨hw', fun _ => rfl⟩

theorem sole_submitPlan {plan : DeploymentPlan} (hm : Listed w.2.mem.deliveries) : Sole allowed (submitPlan p plan)
    (fun status w' => Submits allowed p plan w.2.mem status w'.2.mem) w := by
  rw [submitPlan_eq]
  split
  next hnone =>
    rw [Bool.not_eq_true'] at hnone
    refine ⟨fun _ => ⟨(fun h => by cases h), rfl⟩, (fun h => by cases h), fun _ hsome => ?_⟩
    rw [hnone] at hsome
    cases hsome
  next hsome =>
    rw [Bool.not_eq_true', Bool.not_eq_false] at hsome
    have hnot : (resolveDeploymentSet p plan).any (·.accepted) ≠ false := by simp [hsome]
    rw [Sole, Thread.steps_bind]
    refine (sole_planInstructions hm).mono ?_
    rw [zip_resolved]
    rintro (e | ⟨⟩) w₁ h₁
    · exact ⟨fun h => absurd h hnot, (fun h => by cases h), fun htakes => absurd htakes h₁.fails⟩
    have hplans := h₁.done rfl
    rw [concluded, Thread.steps_bind]
    apply sole_state
    dsimp only
    split
    next hmany =>
      refine ⟨fun h => absurd h hnot, (fun h => by cases h), fun _ _ => ⟨hplans, fun hfew => ?_⟩⟩
      exact absurd hfew (not_le.mpr hmany)
    next hfew =>
      refine sole_compactIfNeeded.mono fun status w₂ h₂ => ?_
      rw [h₂.1]
      exact ⟨fun h => absurd h hnot, fun _ => ⟨hplans, not_lt.mp hfew⟩, fun htakes _ => ⟨hplans, fun _ => h₂.2 htakes⟩⟩

end Steps

end Distributor

end ConfigurationFabric
